import Nerthus.Council.Calls

/-!
# Calls that do not return

Three histories stop the node: a message about a higher height reaches a voting member whose own
chain has grown, so that `verify` calls `Stop` under the mutex; a core that is activated without
`Start` stores its vote in a nil map; and a core without a proposal is made to commit or to send
its vote again. Where none of these meets a call, every call returns.
-/

namespace Nerthus.Council

open Lib

/-- The core is activated after `Start`. While it votes, no message about a higher height comes when
the chain has grown; while it is idle, no hash gets two thirds of the second phase, and no expired
timer is left. -/
def Admissible (b : Backend) (t : Core) : Call → Prop
  | .active => t.isStarted = true
  | .handleVote msg =>
    (t.state = .running ∨ msg.scTail ≤ t.scTail ∨ b.scTail ≤ t.scTail) ∧
      (t.state = .running → msg.status = State.prepare.code →
        decided ((t.votes2.getD .empty).put msg).values t.majority32 = none)
  | .resend => t.expired ≠ 0 → t.isStarted = true → t.state ≠ .running
  | .start | .stop | .expire => True

instance (b : Backend) (t : Core) : (c : Call) → Decidable (Admissible b t c)
  | .active => inferInstanceAs (Decidable (_ = true))
  | .handleVote _ => inferInstanceAs (Decidable ((_ ∨ _) ∧ (_ → _ → _ = none)))
  | .resend => inferInstanceAs (Decidable (_ → _ → _))
  | .start | .stop | .expire => isTrue trivial

/-- A started core has its maps, one that is not is idle, and a voting one has a proposal. -/
structure Healthy (t : Core) : Prop where
  maps : t.isStarted = true →
    t.votes1.isSome = true ∧ t.votes2.isSome = true ∧ t.blackList.isSome = true
  idle : t.isStarted = false → t.councils = [] ∧ t.state = .running
  proposal : t.state ≠ .running → t.proposal.isSome = true

namespace Healthy

variable {b : Backend} {t t' : Core} {msg : CouncilMessage} {out : List Output} {r : Reply}

theorem newCore (addr : Address) (activatedCallback : Bool) :
    Healthy (newCore addr activatedCallback) :=
  ⟨nofun, fun _ => ⟨rfl, rfl⟩, fun h => absurd rfl h⟩

theorem started (h : Healthy t) {a : Address} (ha : a ∈ t.councils) : t.isStarted = true := by
  by_contra hs
  rw [(h.idle (Bool.eq_false_of_not_eq_true hs)).1] at ha
  cases ha

theorem of_started (hs : t.isStarted = true)
    (hmaps : t.votes1.isSome = true ∧ t.votes2.isSome = true ∧ t.blackList.isSome = true)
    (hp : t.state ≠ .running → t.proposal.isSome = true) : Healthy t :=
  ⟨fun _ => hmaps, fun h => absurd hs (by rw [h]; decide), hp⟩

section

variable (h : Healthy t)
include h

section

variable (hs : t.isStarted = true)
include hs

theorem active {n : Nat} (hactive : active b n t = .ok (t', out)) :
    Healthy t' := by
  obtain ⟨h1, h2, hb⟩ := h.maps hs
  rcases active_cases hactive with ⟨rfl, -⟩ | ⟨hrun, -, rfl | rfl⟩ | ⟨p, -, -, -, rfl, -⟩
  · exact h
  · exact of_started (by simpa) (by simp [h1, h2, hb]) (by simp [hrun])
  · exact of_started (by simpa) (by simp [h1, h2, hb]) (by simp [hrun])
  · exact of_started (by simpa [activate]) (by simp [activate, h1, h2, hb]) (by simp [activate])

theorem countVote1 (hcount : countVote1 b t msg = .ok r) :
    Healthy r.core := by
  rcases countVote1_cases hcount with ⟨-, hactive⟩ | ⟨hr, -⟩ | ⟨dist, hstop, -, hr, -⟩
  · exact h.active hs hactive
  · rwa [hr]
  obtain ⟨h1, h2, hb⟩ := h.maps hs
  have hp := h.proposal (by rw [hstop]; decide)
  rw [hr]
  exact of_started hs ⟨h1, by simp [Core.lockDist, hstop, h2], hb⟩ fun _ => hp

theorem handleVote1 (hvote : handleVote1 b t msg = .ok r) :
    Healthy r.core := by
  obtain ⟨h1, h2, hb⟩ := h.maps hs
  rcases handleVote1_cases hvote with
    ⟨hr, -⟩ | ⟨votes, -, -, hcount⟩ | ⟨v, votes, blackList, -, -, -, -, -, -, hr⟩
  · rwa [hr]
  · have hstored : Healthy { t with votes1 := some (votes.put msg) } :=
      of_started hs ⟨rfl, h2, hb⟩ h.proposal
    exact hstored.countVote1 hs hcount
  · rw [hr]
    exact of_started hs ⟨rfl, by simpa using h2, rfl⟩ h.proposal

theorem countVote2 (hcount : countVote2 b t = .ok r) :
    Healthy r.core := by
  rcases countVote2_cases hcount with ⟨hr, -⟩ | ⟨dist, -, hcommit⟩
  · rwa [hr]
  obtain ⟨h1, h2, hb⟩ := h.maps hs
  obtain ⟨p, history, hp, hr, -⟩ := commit_cases hcommit
  rw [hr]
  refine of_started ?_ ⟨?_, ?_, ?_⟩ fun _ => by rw [hp]; rfl
  all_goals
    split
    · simp [Core.lockDist, hs, h1, h2, hb, apply_ite]
    · assumption

theorem handleVote2 (hvote : handleVote2 b t msg = .ok r) :
    Healthy r.core := by
  obtain ⟨h1, h2, hb⟩ := h.maps hs
  rcases handleVote2_cases hvote with ⟨hr, -⟩ | ⟨votes, -, -, hcount⟩
  · rwa [hr]
  · have hstored : Healthy { t with votes2 := some (votes.put msg) } :=
      of_started hs ⟨h1, rfl, hb⟩ h.proposal
    exact hstored.countVote2 hs hcount

end

theorem handleVote (hvote : handleVote b t msg = .ok r) : Healthy r.core := by
  rcases handleVote_cases hvote with
    ⟨history, hr, -⟩ | ⟨hverified, r', hr, -, ⟨-, hvote⟩ | ⟨-, hvote⟩⟩
  · rw [hr]
    exact ⟨h.maps, h.idle, h.proposal⟩
  · rw [hr]
    exact h.handleVote1 (h.started hverified.member) hvote
  · rw [hr]
    exact h.handleVote2 (h.started hverified.member) hvote

theorem start (b : Backend) : Healthy (start b t) := by
  unfold Council.start
  split
  · exact ⟨h.maps, fun hs => ⟨rfl, (h.idle hs).2⟩, h.proposal⟩
  · exact of_started rfl ⟨rfl, rfl, rfl⟩ h.proposal

end

theorem stop (t : Core) : Healthy (stop t) :=
  ⟨nofun, fun _ => ⟨rfl, rfl⟩, fun h => absurd rfl h⟩

theorem expire (h : Healthy t) : Healthy (expire t) := by
  unfold Council.expire
  split
  · exact ⟨h.maps, h.idle, h.proposal⟩
  · exact h

theorem resend (h : Healthy t) (hresend : resend b t = .ok (t', out)) : Healthy t' := by
  rcases resend_cases hresend with ⟨n, rfl, -⟩ | ⟨n, p, -, -, rfl, -⟩
  · exact ⟨h.maps, h.idle, h.proposal⟩
  · exact ⟨h.maps, h.idle, h.proposal⟩

theorem step {c : Call} (h : Healthy t) (ha : Admissible b t c)
    (hstep : step b t c = .ok (t', out)) : Healthy t' := by
  cases c with
  | start =>
    cases hstep
    exact h.start b
  | stop =>
    cases hstep
    exact stop t
  | active => exact h.active ha hstep
  | handleVote msg =>
    obtain ⟨r, hvote, hret⟩ := bind_eq_ok_iff.mp hstep
    cases hret
    exact h.handleVote hvote
  | expire =>
    cases hstep
    exact h.expire
  | resend => exact h.resend hstep

end Healthy

/-! ## Admissible calls return -/

section Returns

variable {b : Backend} {t : Core} {msg : CouncilMessage}

theorem verify_returns (h : t.state = .running ∨ msg.scTail ≤ t.scTail ∨ b.scTail ≤ t.scTail) :
    ∃ r, verify b t msg = .ok r := by
  unfold verify
  split
  · exact ⟨_, rfl⟩
  split
  · exact ⟨_, rfl⟩
  split
  · exact ⟨_, rfl⟩
  split
  · next htail =>
    rw [if_neg]
    · exact ⟨_, rfl⟩
    · rintro ⟨hmsg, hchain⟩
      rcases h with h | h | h
      · exact htail.1 h
      · omega
      · omega
  split
  · exact ⟨_, rfl⟩
  split
  · exact ⟨_, rfl⟩
  split
  · exact ⟨_, rfl⟩
  split <;> exact ⟨_, rfl⟩

theorem countVote1_returns : ∃ r, countVote1 b t msg = .ok r := by
  unfold countVote1
  split
  · obtain ⟨⟨t', out⟩, hactive⟩ := active_returns b msg.scTail t
    exact ⟨_, bind_eq_ok_iff.mpr ⟨_, hactive, rfl⟩⟩
  split
  · split <;> exact ⟨_, rfl⟩
  · exact ⟨_, rfl⟩

theorem handleVote1_returns (h1 : t.votes1.isSome = true) (hb : t.blackList.isSome = true) :
    ∃ r, handleVote1 b t msg = .ok r := by
  obtain ⟨votes, hvotes⟩ := Option.isSome_iff_exists.mp h1
  obtain ⟨blackList, hblack⟩ := Option.isSome_iff_exists.mp hb
  have hrecord : ∃ r, recordVote1 b t msg = .ok r := by
    unfold recordVote1
    rw [hvotes]
    exact countVote1_returns
  unfold handleVote1
  split
  · split
    · exact hrecord
    split
    · exact ⟨_, rfl⟩
    · unfold blame
      rw [hblack]
      exact ⟨_, rfl⟩
  · exact hrecord

theorem commit_returns (hp : t.proposal.isSome = true) : ∃ r, commit b t = .ok r := by
  obtain ⟨p, hp⟩ := Option.isSome_iff_exists.mp hp
  unfold commit
  simp only [Core.stopTimer, hp]
  split <;> exact ⟨_, rfl⟩

theorem countVote2_returns
    (h : t.proposal.isSome = true ∨ decided t.second t.majority32 = none) :
    ∃ r, countVote2 b t = .ok r := by
  unfold countVote2
  split
  · split
    · next dist hdist =>
      have hp : t.proposal.isSome = true := by
        rcases h with h | h
        · exact h
        · rw [h] at hdist
          cases hdist
      obtain ⟨⟨t', out⟩, hcommit⟩ := commit_returns
        (t := { (if t.lockHash.emptyHash then t.lockDist dist else t) with state := .commited })
        (b := b) (by split <;> exact hp)
      exact ⟨_, bind_eq_ok_iff.mpr ⟨_, hcommit, rfl⟩⟩
    · exact ⟨_, rfl⟩
  · exact ⟨_, rfl⟩

theorem handleVote2_returns (h2 : t.votes2.isSome = true) (h : t.proposal.isSome = true ∨
      decided ((t.votes2.getD .empty).put msg).values t.majority32 = none) :
    ∃ r, handleVote2 b t msg = .ok r := by
  obtain ⟨votes, hvotes⟩ := Option.isSome_iff_exists.mp h2
  unfold handleVote2
  split
  · exact ⟨_, rfl⟩
  split
  · exact ⟨_, rfl⟩
  rw [hvotes]
  refine countVote2_returns (h.imp id fun hnone => ?_)
  rw [hvotes] at hnone
  exact hnone

theorem handleVote_returns (h : Healthy t) (ha : Admissible b t (.handleVote msg)) :
    ∃ r, handleVote b t msg = .ok r := by
  obtain ⟨htail, hsecond⟩ := ha
  obtain ⟨⟨err, t'⟩, hverify⟩ := verify_returns htail
  have hdispatch : err = none → ∃ r, dispatch b t' msg = .ok r := by
    intro herr
    rcases verify_cases hverify with ⟨e, -, he, -⟩ | ⟨-, rfl, hverified⟩
    · rw [herr] at he
      cases he
    obtain ⟨h1, h2, hb⟩ := h.maps (h.started hverified.member)
    unfold dispatch
    split
    · exact handleVote1_returns h1 hb
    split
    · next hstatus =>
      refine handleVote2_returns h2 ?_
      by_cases hrun : t'.state = .running
      · exact .inr (hsecond hrun hstatus)
      · exact .inl (h.proposal hrun)
    · exact ⟨_, rfl⟩
  cases err with
  | none =>
    obtain ⟨r, hr⟩ := hdispatch rfl
    exact ⟨_, bind_eq_ok_iff.mpr ⟨_, hverify, bind_eq_ok_iff.mpr ⟨_, hr, rfl⟩⟩⟩
  | some e => cases e <;> exact ⟨_, bind_eq_ok_iff.mpr ⟨_, hverify, rfl⟩⟩

theorem resend_returns (h : Healthy t) (ha : Admissible b t .resend) : ∃ r, resend b t = .ok r := by
  unfold resend
  split
  · exact ⟨_, rfl⟩
  next hexpired =>
  dsimp only
  split
  · next hstarted =>
    obtain ⟨p, hp⟩ := Option.isSome_iff_exists.mp (h.proposal (ha hexpired hstarted))
    simp only [sendVote1, hp]
    exact ⟨_, rfl⟩
  · exact ⟨_, rfl⟩

theorem step_returns {c : Call} (h : Healthy t) (ha : Admissible b t c) :
    ∃ r, step b t c = .ok r := by
  cases c with
  | start => exact ⟨_, rfl⟩
  | stop => exact ⟨_, rfl⟩
  | active => exact active_returns b 0 t
  | handleVote msg =>
    obtain ⟨r, hvote⟩ := handleVote_returns h ha
    exact ⟨_, bind_eq_ok_iff.mpr ⟨_, hvote, rfl⟩⟩
  | expire => exact ⟨_, rfl⟩
  | resend => exact resend_returns h ha

theorem Healthy.run_returns {calls : List (Backend × Call)} (h : Healthy t)
    (ha : Along Admissible t calls) : ∃ r, run t calls = .ok r := by
  induction calls generalizing t with
  | nil => exact ⟨_, rfl⟩
  | cons call rest ih =>
    obtain ⟨b, c⟩ := call
    obtain ⟨hcall, hrest⟩ := ha
    obtain ⟨⟨t', out⟩, hstep⟩ := step_returns h hcall
    rw [hstep] at hrest
    obtain ⟨⟨t'', out'⟩, hrun⟩ := ih (h.step hcall hstep) hrest
    exact ⟨_, bind_eq_ok_iff.mpr ⟨_, hstep, bind_eq_ok_iff.mpr ⟨_, hrun, rfl⟩⟩⟩

end Returns

/-- In a run of admissible calls to a new core every call returns. -/
theorem calls_return {addr : Address} {activatedCallback : Bool} {calls : List (Backend × Call)}
    (h : Along Admissible (newCore addr activatedCallback) calls) :
    ∃ r, run (newCore addr activatedCallback) calls = .ok r :=
  (Healthy.newCore addr activatedCallback).run_returns h

namespace Sample

def special : Proposal := ⟨⟨77⟩, 6⟩

def chain (n : Nat) : Backend :=
  { scTail := n, getCouncils := some [⟨1⟩, ⟨2⟩, ⟨3⟩, ⟨4⟩], generateProposal := some special,
    getUnitByHash := fun _ => false, sign := true, commit := true }

def vote (a : Address) (phase : State) (n : Nat) : CouncilMessage :=
  signBy a ⟨a, n, special.hash, phase.code, none⟩

def calls (l : List Call) : List (Backend × Call) := l.map fun call => (chain 5, call)

def arbitration : List (Backend × Call) :=
  calls [.start, .active, .handleVote (vote ⟨1⟩ .stop 5), .handleVote (vote ⟨2⟩ .stop 5),
    .handleVote (vote ⟨3⟩ .stop 5), .expire, .resend, .handleVote (vote ⟨1⟩ .prepare 5),
    .handleVote (vote ⟨2⟩ .prepare 5), .handleVote (vote ⟨4⟩ .prepare 5)]

theorem arbitration_returns : Along Admissible (newCore ⟨1⟩ true) arbitration ∧
      ∃ r, run (newCore ⟨1⟩ true) arbitration = .ok r :=
  ⟨by decide, calls_return (by decide)⟩

/-- Votes at an idle member, the height of the others at a voting one, an activation without
`Start`, a timer from before `Stop`: no last call returns. -/
theorem nodes_stopped : run (newCore ⟨1⟩ true)
        (calls [.start, .handleVote (vote ⟨2⟩ .prepare 5), .handleVote (vote ⟨3⟩ .prepare 5),
          .handleVote (vote ⟨4⟩ .prepare 5)]) = .error .nilProposal ∧
      run (newCore ⟨1⟩ true) (calls [.start, .active] ++
        [(chain 6, .handleVote (vote ⟨2⟩ .stop 6))]) = .error .selfLock ∧
      run (newCore ⟨1⟩ true)
        (calls [.active, .handleVote (vote ⟨1⟩ .stop 5)]) = .error .nilMap ∧
      run (newCore ⟨1⟩ true)
        (calls [.start, .active, .expire, .stop, .start, .resend]) = .error .nilProposal :=
  ⟨rfl, rfl, rfl, rfl⟩

end Sample

end Nerthus.Council
