import Nerthus.Council.Calls

/-!
# The black list

A member that signs two first-phase votes for one height is dishonest. The core takes a member
for dishonest when a vote for another hash comes in that is not for a greater height than the
stored one; a vote that was overtaken by a later one looks the same.
-/

namespace Nerthus.Council

open Lib

/-- A first-phase vote of the member is not for a lower height than the stored one. -/
def InOrder (m : Address) (t : Core) : Call → Prop
  | .handleVote msg => msg.sender = m → msg.status = State.stop.code →
      ∀ v ∈ t.first, v.sender = m → v.scTail ≤ msg.scTail
  | _ => True

instance (m : Address) (t : Core) : (c : Call) → Decidable (InOrder m t c)
  | .handleVote _ => inferInstanceAs (Decidable (_ → _ → ∀ v ∈ _, _ → _))
  | .start | .stop | .active | .expire | .resend => isTrue trivial

def InOrderRun (m : Address) (t : Core) (calls : List (Backend × Call)) : Prop :=
  Along (fun _ t c => InOrder m t c) t calls

instance (m : Address) (t : Core) (calls : List (Backend × Call)) :
    Decidable (InOrderRun m t calls) :=
  decidableAlong _ t calls

def SignsOnce (m : Address) (voteOf : Nat → Hash) (calls : List (Backend × Call)) : Prop :=
  ∀ call ∈ calls, ∀ msg, call.2 = .handleVote msg → verifySign msg = some m →
    msg.status = State.stop.code → msg.dist = voteOf msg.scTail

/-- The member's vote for the height of the core stays or gives way to a later one. -/
def KeepsVote (m : Address) (t t' : Core) : Prop :=
  ∀ v ∈ t.first, v.sender = m → v.scTail = t'.scTail →
    ∃ v' ∈ t'.first, v'.sender = m ∧ v.scTail ≤ v'.scTail

/-- The member is never in the black list, and no call deletes its current vote; `Start` and `Stop`
forget all votes. -/
def Trusted (m : Address) (t : Core) : List (Backend × Call) → Prop
  | [] => ¬t.Blamed m
  | (b, c) :: rest =>
    ¬t.Blamed m ∧
      match step b t c with
      | .ok (t', _) => (c ≠ .start → c ≠ .stop → KeepsVote m t t') ∧ Trusted m t' rest
      | .error _ => True

structure Honours (m : Address) (voteOf : Nat → Hash) (t : Core) : Prop where
  notBlamed : ¬t.Blamed m
  dist : ∀ v ∈ t.first, v.sender = m → v.dist = voteOf v.scTail

namespace Honours

variable {m : Address} {voteOf : Nat → Hash} {b : Backend} {t t' : Core} {msg : CouncilMessage}
  {out : List Output} {r : Reply}

theorem newCore (m : Address) (voteOf : Nat → Hash) (addr : Address) (activatedCallback : Bool) :
    Honours m voteOf (newCore addr activatedCallback) :=
  ⟨nofun, nofun⟩

theorem congr (h : Honours m voteOf t) (hfirst : ∀ v ∈ t'.first, v ∈ t.first)
    (hblack : t'.blackList = t.blackList) : Honours m voteOf t' := by
  refine ⟨fun hb => h.notBlamed ?_, fun v hv => h.dist v (hfirst v hv)⟩
  rw [Core.Blamed, ← hblack]
  exact hb

end Honours

section Steps

variable {m : Address} {voteOf : Nat → Hash} {b : Backend} {t t' : Core} {msg : CouncilMessage}
  {out : List Output} {r : Reply}

theorem KeepsVote.of_subset (h : ∀ v ∈ t.first, v.scTail = t'.scTail → v ∈ t'.first) :
    KeepsVote m t t' :=
  fun v hv hsender htail => ⟨v, h v hv htail, hsender, le_rfl⟩

theorem mem_first_activate {p : Proposal} {v : CouncilMessage} :
    v ∈ (activate p t).first ↔ v ∈ t.first ∧ v.scTail = t.scTail := by
  simp only [Core.first, activate]
  cases t.votes1 with
  | none => simp
  | some votes => simp

theorem active_first {n : Nat} (h : active b n t = .ok (t', out)) :
    t'.blackList = t.blackList ∧ (∀ v ∈ t'.first, v ∈ t.first) ∧
      (∀ v ∈ t.first, v.scTail = t'.scTail → v ∈ t'.first) := by
  rcases active_cases h with ⟨rfl, -⟩ | ⟨-, -, rfl | rfl⟩ | ⟨p, -, -, -, rfl, -⟩
  · exact ⟨rfl, fun _ h => h, fun _ h _ => h⟩
  · have hfirst := refresh_first b t
    exact ⟨refresh_blackList b t, fun v hv => hfirst ▸ hv, fun v hv _ => hfirst.symm ▸ hv⟩
  · have hfirst : ({ refresh b t with proposal := none } : Core).first = t.first :=
      refresh_first b t
    exact ⟨refresh_blackList b t, fun v hv => hfirst ▸ hv, fun v hv _ => hfirst.symm ▸ hv⟩
  · refine ⟨refresh_blackList b t, fun v hv => ?_, fun v hv htail => ?_⟩
    · rw [← refresh_first b t]
      exact (mem_first_activate.mp hv).1
    · exact mem_first_activate.mpr ⟨(refresh_first b t).symm ▸ hv, htail⟩

theorem countVote1_first (h : countVote1 b t msg = .ok r) :
    r.core.blackList = t.blackList ∧ (∀ v ∈ r.core.first, v ∈ t.first) ∧
      (∀ v ∈ t.first, v.scTail = r.core.scTail → v ∈ r.core.first) := by
  rcases countVote1_cases h with ⟨-, hactive⟩ | ⟨hr, -⟩ | ⟨dist, -, -, hr, -⟩
  · exact active_first hactive
  · rw [hr]
    exact ⟨rfl, fun _ h => h, fun _ h _ => h⟩
  · rw [hr]
    exact ⟨rfl, fun _ h => h, fun _ h _ => h⟩

theorem le_scTail_of_countVote1 (h : countVote1 b t msg = .ok r) (hmem : msg ∈ t.first)
    (hpos : 0 < msg.scTail) : msg ∈ r.core.first ∨ msg.scTail < r.core.scTail := by
  rcases countVote1_cases h with ⟨-, hactive⟩ | ⟨hr, -⟩ | ⟨dist, -, -, hr, -⟩
  · rcases active_cases hactive with ⟨hr, -⟩ | ⟨-, -, hr | hr⟩ | ⟨p, -, -, hheight, hr, -⟩
    · rw [hr]
      exact .inl hmem
    · rw [hr]
      exact .inl (by rwa [refresh_first])
    · rw [hr]
      exact .inl ((refresh_first b t).symm ▸ hmem)
    have htail := hheight (by omega)
    rw [hr]
    by_cases hsame : msg.scTail = (refresh b t).scTail
    · exact .inl (mem_first_activate.mpr ⟨by rwa [refresh_first], hsame⟩)
    -- the core's height is at least that of the chain, which is the vote's
    right
    change msg.scTail < (refresh b t).scTail
    unfold refresh at hsame ⊢
    split at hsame
    · exact absurd htail.symm hsame
    · next hle =>
      rw [if_neg hle]
      omega
  · rw [hr]
    exact .inl hmem
  · rw [hr]
    exact .inl hmem

theorem handleVote1_honours (h : Honours m voteOf t) (hvote : handleVote1 b t msg = .ok r)
    (hdist : msg.sender = m → msg.dist = voteOf msg.scTail)
    (horder : msg.sender = m → ∀ v ∈ t.first, v.sender = m → v.scTail ≤ msg.scTail) :
    Honours m voteOf r.core ∧ KeepsVote m t r.core := by
  rcases handleVote1_cases hvote with
    ⟨hr, -⟩ | ⟨votes, hvotes, hnew, hcount⟩ |
      ⟨v, votes, blackList, hvotes, hblack, hget, hle, hne, -, hr⟩
  · rw [hr]
    exact ⟨h, KeepsVote.of_subset fun _ hv _ => hv⟩
  · have hfirst : t.first = votes.values := by simp [Core.first, hvotes]
    obtain ⟨hsame, hsub, hkeep⟩ := countVote1_first hcount
    have hstored : Honours m voteOf { t with votes1 := some (votes.put msg) } := by
      refine ⟨h.notBlamed, fun v hv hsender => ?_⟩
      rcases Keyed.mem_put.mp hv with rfl | ⟨hv, -⟩
      · exact hdist hsender
      · exact h.dist v (hfirst ▸ hv) hsender
    refine ⟨hstored.congr hsub hsame, fun v hv hsender htail => ?_⟩
    rw [hfirst] at hv
    by_cases hmsg : msg.sender = m
    · -- the stored vote is replaced by one for a greater height
      have hlt : v.scTail < msg.scTail :=
        hnew v (Keyed.get_eq_some_iff.mpr ⟨hv, hsender.trans hmsg.symm⟩)
      rcases le_scTail_of_countVote1 hcount (Keyed.mem_put.mpr (.inl rfl)) (by omega) with
        hmem | hgt
      · exact ⟨msg, hmem, hmsg, hlt.le⟩
      · omega
    · have hput : v ∈ (votes.put msg).values :=
        Keyed.mem_put.mpr (.inr ⟨hv, fun he => hmsg (he.symm.trans hsender)⟩)
      exact ⟨v, hkeep v hput htail, hsender, le_rfl⟩
  · have hfirst : t.first = votes.values := by simp [Core.first, hvotes]
    obtain ⟨hv, hkey⟩ := Keyed.get_eq_some_iff.mp hget
    have hother : msg.sender ≠ m := by
      intro hmsg
      have hsender := hkey.trans hmsg
      have hge := horder hmsg v (hfirst ▸ hv) hsender
      have htail : v.scTail = msg.scTail := le_antisymm hge hle
      apply hne
      rw [h.dist v (hfirst ▸ hv) hsender, hdist hmsg, htail]
    have hmem : ∀ w ∈ t.first, w.sender = m → w ∈ r.core.first := by
      intro w hw hsender
      rw [hr]
      exact Keyed.mem_erase.mpr ⟨hfirst ▸ hw, fun he => hother (he.symm.trans hsender)⟩
    refine ⟨⟨?_, fun w hw hsender => ?_⟩, fun w hw hsender _ => ⟨w, hmem w hw hsender, hsender, le_rfl⟩⟩
    · rw [hr]
      intro hb
      apply h.notBlamed
      rw [Core.Blamed, hblack]
      have hb' : ((blackList.put ⟨v.sender, [v, msg]⟩).get m).isSome = true := hb
      rwa [Keyed.get_put, if_neg fun he => hother (hkey.symm.trans he.symm)] at hb'
    · rw [hr] at hw
      exact h.dist w (hfirst ▸ (Keyed.mem_erase.mp hw).1) hsender

theorem handleVote2_first (h : handleVote2 b t msg = .ok r) :
    r.core.blackList = t.blackList ∧ r.core.first = t.first := by
  rcases handleVote2_cases h with ⟨hr, -⟩ | ⟨votes, -, -, hcount⟩
  · rw [hr]
    exact ⟨rfl, rfl⟩
  rcases countVote2_cases hcount with ⟨hr, -⟩ | ⟨dist, -, hcommit⟩
  · rw [hr]
    exact ⟨rfl, rfl⟩
  obtain ⟨p, history, -, hr, -⟩ := commit_cases hcommit
  rw [hr]
  constructor
  · change (ite _ _ _ : Core).blackList = _
    split <;> rfl
  · change (ite _ _ _ : Core).first = _
    split <;> rfl

theorem handleVote_honours (h : Honours m voteOf t) (hvote : handleVote b t msg = .ok r)
    (hdist : verifySign msg = some m → msg.status = State.stop.code →
      msg.dist = voteOf msg.scTail) (horder : InOrder m t (.handleVote msg)) :
    Honours m voteOf r.core ∧ KeepsVote m t r.core := by
  rcases handleVote_cases hvote with
    ⟨history, hr, -⟩ | ⟨hverified, r', hr, -, ⟨hstatus, hvote⟩ | ⟨-, hvote⟩⟩
  · rw [hr]
    exact ⟨h.congr (fun _ hv => hv) rfl, KeepsVote.of_subset fun _ hv _ => hv⟩
  · rw [hr]
    refine handleVote1_honours h hvote (fun hmsg => hdist ?_ hstatus) fun hmsg => horder hmsg hstatus
    rw [hverified.signed, hmsg]
  · rw [hr]
    obtain ⟨hblack, hfirst⟩ := handleVote2_first hvote
    exact ⟨h.congr (fun v hv => hfirst ▸ hv) hblack,
      KeepsVote.of_subset fun v hv _ => hfirst.symm ▸ hv⟩

theorem step_honours {c : Call} (h : Honours m voteOf t) (hstep : step b t c = .ok (t', out))
    (hdist : ∀ msg, c = .handleVote msg → verifySign msg = some m →
      msg.status = State.stop.code → msg.dist = voteOf msg.scTail) (horder : InOrder m t c) :
    Honours m voteOf t' ∧ (c ≠ .start → c ≠ .stop → KeepsVote m t t') := by
  have hsame : ∀ t' : Core, t'.blackList = t.blackList → t'.first = t.first →
      Honours m voteOf t' ∧ KeepsVote m t t' := fun _ hblack hfirst =>
    ⟨h.congr (fun v hv => hfirst ▸ hv) hblack, KeepsVote.of_subset fun v hv _ => hfirst.symm ▸ hv⟩
  cases c with
  | start =>
    cases hstep
    refine ⟨?_, fun hne => absurd rfl hne⟩
    unfold start
    split
    · exact h.congr (fun _ hv => hv) rfl
    · exact ⟨nofun, nofun⟩
  | stop =>
    cases hstep
    refine ⟨⟨h.notBlamed, nofun⟩, fun _ hne => absurd rfl hne⟩
  | active =>
    obtain ⟨hblack, hsub, hkeep⟩ := active_first hstep
    exact ⟨h.congr hsub hblack, fun _ _ => KeepsVote.of_subset hkeep⟩
  | handleVote msg =>
    obtain ⟨r, hvote, hret⟩ := bind_eq_ok_iff.mp hstep
    cases hret
    obtain ⟨hhonours, hkeeps⟩ := handleVote_honours h hvote (hdist msg rfl) horder
    exact ⟨hhonours, fun _ _ => hkeeps⟩
  | expire =>
    cases hstep
    obtain ⟨hhonours, hkeeps⟩ := hsame (expire t) (by unfold expire; split <;> rfl)
      (by unfold expire; split <;> rfl)
    exact ⟨hhonours, fun _ _ => hkeeps⟩
  | resend =>
    rcases resend_cases hstep with ⟨n, rfl, -⟩ | ⟨n, p, -, -, rfl, -⟩
    · obtain ⟨hhonours, hkeeps⟩ := hsame { t with expired := n } rfl rfl
      exact ⟨hhonours, fun _ _ => hkeeps⟩
    · obtain ⟨hhonours, hkeeps⟩ := hsame { t with expired := n, timer := true } rfl rfl
      exact ⟨hhonours, fun _ _ => hkeeps⟩

theorem Honours.trusted {calls : List (Backend × Call)} (h : Honours m voteOf t)
    (hsigns : SignsOnce m voteOf calls) (horder : InOrderRun m t calls) : Trusted m t calls := by
  induction calls generalizing t with
  | nil => exact h.notBlamed
  | cons call rest ih =>
    obtain ⟨b, c⟩ := call
    obtain ⟨hcall, hrest⟩ := horder
    refine ⟨h.notBlamed, ?_⟩
    cases hstep : step b t c with
    | error e => trivial
    | ok r =>
      obtain ⟨t', out⟩ := r
      rw [hstep] at hrest
      obtain ⟨hhonours, hkeeps⟩ := step_honours h hstep
        (fun msg hmsg => hsigns (b, c) (.head _) msg hmsg) hcall
      exact ⟨hkeeps, ih hhonours (fun x hx => hsigns x (.tail _ hx)) hrest⟩

end Steps

/-- A member that signs one first-phase vote per height, and whose votes come in order, never enters
the black list and keeps its current vote. -/
theorem honest_never_blamed {m addr : Address} {activatedCallback : Bool} {voteOf : Nat → Hash}
    {calls : List (Backend × Call)} (hsigns : SignsOnce m voteOf calls)
    (horder : InOrderRun m (newCore addr activatedCallback) calls) :
    Trusted m (newCore addr activatedCallback) calls :=
  (Honours.newCore m voteOf addr activatedCallback).trusted hsigns horder

namespace Sample

def view (n : Nat) : Backend :=
  { scTail := n, getCouncils := some [⟨1⟩, ⟨2⟩, ⟨3⟩, ⟨4⟩], generateProposal := none,
    getUnitByHash := fun _ => false, sign := true, commit := true }

def choice (n : Nat) : Hash := ⟨70 + n⟩

def choiceAt (n : Nat) : CouncilMessage := signBy ⟨2⟩ ⟨⟨2⟩, n, choice n, State.stop.code, none⟩

def twoHeights (n n' : Nat) : List (Backend × Call) :=
  [(view 5, .start), (view 5, .handleVote (choiceAt n)), (view 5, .handleVote (choiceAt n')),
    (view 5, .handleVote (choiceAt n'))]

theorem signsOnce_twoHeights (n n' : Nat) : SignsOnce ⟨2⟩ choice (twoHeights n n') := by
  intro call hcall msg hmsg _ _
  simp only [twoHeights, List.mem_cons, List.not_mem_nil, or_false] at hcall
  rcases hcall with rfl | rfl | rfl | rfl <;> cases hmsg <;> rfl

theorem in_order_trusted : InOrderRun ⟨2⟩ (newCore ⟨1⟩ true) (twoHeights 5 6) ∧
      Trusted ⟨2⟩ (newCore ⟨1⟩ true) (twoHeights 5 6) := by
  have horder : InOrderRun ⟨2⟩ (newCore ⟨1⟩ true) (twoHeights 5 6) := by decide
  exact ⟨horder, honest_never_blamed (signsOnce_twoHeights 5 6) horder⟩

/-- Member two has signed one vote for each height; when they change places, it is blamed and its
vote is gone. -/
theorem overtaken_blamed : SignsOnce ⟨2⟩ choice (twoHeights 6 5) ∧
      ¬Trusted ⟨2⟩ (newCore ⟨1⟩ true) (twoHeights 6 5) := by
  refine ⟨signsOnce_twoHeights 6 5, ?_⟩
  rintro ⟨-, -, -, -, -, -, hblamed, -⟩
  exact hblamed rfl

end Sample

end Nerthus.Council
