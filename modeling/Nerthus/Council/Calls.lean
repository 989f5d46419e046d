import Nerthus.Council.Core

/-!
# What a call to the core can do

One lemma for each handler that lists its outcomes, with what the handler has
checked on the way. The invariants of the core are derived from these lists.
-/

namespace Nerthus.Council

open Lib

variable {b : Backend} {t t' : Core} {msg : CouncilMessage} {out : List Output} {r : Reply}

theorem zero_or_eq_of_not {h : Hash} (hh : ¬(¬h.emptyHash = true ∧ msg.dist ≠ h)) :
    h = .zero ∨ msg.dist = h := by
  by_cases hz : h = .zero
  · exact .inl hz
  · refine .inr (not_not.mp fun hne => hh ⟨?_, hne⟩)
    simpa using hz

theorem lt_countP_of_decided {votes : List CouncilMessage} {m : Nat} {d : Hash}
    (h : decided votes m = some d) : m < votes.countP fun v => v.dist = d := by
  simpa using List.find?_some h

theorem refresh_eq (b : Backend) (t : Core) :
    refresh b t = { t with scTail := (refresh b t).scTail, councils := (refresh b t).councils } := by
  unfold refresh
  split <;> rfl

@[simp] theorem refresh_isStarted (b : Backend) (t : Core) :
    (refresh b t).isStarted = t.isStarted := by
  rw [refresh_eq]

@[simp] theorem refresh_state (b : Backend) (t : Core) : (refresh b t).state = t.state := by
  rw [refresh_eq]

@[simp] theorem refresh_votes1 (b : Backend) (t : Core) : (refresh b t).votes1 = t.votes1 := by
  rw [refresh_eq]

@[simp] theorem refresh_votes2 (b : Backend) (t : Core) : (refresh b t).votes2 = t.votes2 := by
  rw [refresh_eq]

@[simp] theorem refresh_first (b : Backend) (t : Core) : (refresh b t).first = t.first := by
  rw [Core.first, refresh_votes1, Core.first]

@[simp] theorem refresh_blackList (b : Backend) (t : Core) :
    (refresh b t).blackList = t.blackList := by
  rw [refresh_eq]

@[simp] theorem refresh_lockHash (b : Backend) (t : Core) :
    (refresh b t).lockHash = t.lockHash := by
  rw [refresh_eq]

@[simp] theorem refresh_address (b : Backend) (t : Core) : (refresh b t).address = t.address := by
  rw [refresh_eq]

theorem mem_wrapAndBroadcast {o : Output} (h : o ∈ wrapAndBroadcast b t msg) :
    o = .broadcast (signBy t.address msg) := by
  unfold wrapAndBroadcast at h
  split at h
  · exact List.mem_singleton.mp h
  · cases h

def Core.vote1 (t : Core) (p : Proposal) : CouncilMessage :=
  signBy t.address ⟨t.address, t.scTail, p.hash, State.stop.code, none⟩

def Core.vote2 (t : Core) : CouncilMessage :=
  signBy t.address ⟨t.address, t.scTail, t.lockHash, State.prepare.code, none⟩

theorem mem_sendVote2 {o : Output} (h : o ∈ sendVote2 b t) : o = .broadcast t.vote2 :=
  mem_wrapAndBroadcast h

theorem sendVote1_eq_ok {sent : List Output} (h : sendVote1 b t = .ok sent) :
    ∃ p, t.proposal = some p ∧ ∀ o ∈ sent, o = .broadcast (t.vote1 p) := by
  unfold sendVote1 at h
  cases hp : t.proposal with
  | none =>
    rw [hp] at h
    cases h
  | some p =>
    rw [hp] at h
    cases h
    exact ⟨p, rfl, fun o ho => mem_wrapAndBroadcast ho⟩

theorem active_cases {n : Nat} (h : active b n t = .ok (t', out)) :
    (t' = t ∧ out = []) ∨
      (t.state = .running ∧ out = [] ∧
        (t' = refresh b t ∨ t' = { refresh b t with proposal := none })) ∨
      ∃ p, t.state = .running ∧ b.generateProposal = some p ∧ (n ≠ 0 → b.scTail = n) ∧
        t' = activate p (refresh b t) ∧
        ∀ o ∈ out, o = .activated ∨ o = .broadcast (t'.vote1 p) := by
  unfold active at h
  split at h
  · cases h
    exact .inl ⟨rfl, rfl⟩
  next hstate =>
  have hrunning : t.state = .running := not_not.mp hstate
  split at h
  · cases h
    exact .inl ⟨rfl, rfl⟩
  split at h
  · cases h
    exact .inr (.inl ⟨hrunning, rfl, .inl rfl⟩)
  split at h
  · cases h
    exact .inr (.inl ⟨hrunning, rfl, .inl rfl⟩)
  next hheight =>
  split at h
  · cases h
    exact .inr (.inl ⟨hrunning, rfl, .inr rfl⟩)
  · next p hp =>
    obtain ⟨sent, hsent, hret⟩ := bind_eq_ok_iff.mp h
    cases hret
    obtain ⟨p', hp', hmem⟩ := sendVote1_eq_ok hsent
    cases hp'
    refine .inr (.inr ⟨p, hrunning, hp, fun hn => not_not.mp fun hne => hheight ⟨hn, hne⟩, rfl,
      fun o ho => ?_⟩)
    rcases List.mem_append.mp ho with ho | ho
    · split at ho
      · exact .inl (List.mem_singleton.mp ho)
      · cases ho
    · exact .inr (hmem o ho)

theorem active_returns (b : Backend) (n : Nat) (t : Core) : ∃ r, active b n t = .ok r := by
  unfold active
  split
  · exact ⟨_, rfl⟩
  split
  · exact ⟨_, rfl⟩
  split
  · exact ⟨_, rfl⟩
  split
  · exact ⟨_, rfl⟩
  split
  · exact ⟨_, rfl⟩
  · exact ⟨_, rfl⟩

/-- What a message has passed when `verify` has no error. -/
structure Verified (t : Core) (msg : CouncilMessage) : Prop where
  notBlamed : ¬t.Blamed msg.sender
  member : msg.sender ∈ t.councils
  scTail : t.state ≠ .running → msg.scTail = t.scTail
  status : t.state.code ≤ msg.status
  signed : verifySign msg = some msg.sender

theorem verify_cases {err : Option VoteError} (h : verify b t msg = .ok (err, t')) :
    (∃ e history, err = some e ∧ t' = { t with history := history }) ∨
      (err = none ∧ t' = t ∧ Verified t msg) := by
  have hfails : ∀ {e : VoteError}, (.ok (some e, t) : Except Halt _) = .ok (err, t') →
      ∃ e history, err = some e ∧ t' = { t with history := history } := by
    rintro e ⟨⟩
    exact ⟨_, t.history, rfl, rfl⟩
  unfold verify at h
  split at h
  · exact .inl (hfails h)
  next hblamed =>
  split at h
  · exact .inl (hfails h)
  next hmember =>
  split at h
  · exact .inl (hfails h)
  split at h
  · split at h
    · cases h
    · exact .inl (hfails h)
  next htail =>
  split at h
  · exact .inl (hfails h)
  next hstatus =>
  split at h
  · cases h
    exact .inl ⟨_, _, rfl, rfl⟩
  split at h
  · cases h
    exact .inl ⟨_, _, rfl, rfl⟩
  split at h
  · exact .inl (hfails h)
  · next hsign =>
    cases h
    refine .inr ⟨rfl, rfl, hblamed, not_not.mp hmember, fun hstate => ?_, not_lt.mp hstatus,
      not_not.mp hsign⟩
    exact not_not.mp fun hne => htail ⟨hstate, hne⟩

theorem countVote1_cases (h : countVote1 b t msg = .ok r) :
    (t.state = .running ∧ active b msg.scTail t = .ok (r.core, r.out)) ∨
      (r.core = t ∧ r.out = []) ∨
      ∃ dist, t.state = .stop ∧ decided t.first t.majority32 = some dist ∧
        r.core = { t.lockDist dist with state := .prepare } ∧
        ∀ o ∈ r.out, o = .broadcast r.core.vote2 := by
  unfold countVote1 at h
  split at h
  · next hrun =>
    obtain ⟨⟨t', out⟩, hactive, hret⟩ := bind_eq_ok_iff.mp h
    cases hret
    exact .inl ⟨hrun.1, hactive⟩
  split at h
  · next hstop =>
    split at h
    · next dist hdist =>
      cases h
      exact .inr (.inr ⟨dist, hstop.1, hdist, rfl, fun o ho => mem_sendVote2 ho⟩)
    · cases h
      exact .inr (.inl ⟨rfl, rfl⟩)
  · cases h
    exact .inr (.inl ⟨rfl, rfl⟩)

theorem handleVote1_cases (h : handleVote1 b t msg = .ok r) :
    (r.core = t ∧ r.out = []) ∨
      (∃ votes, t.votes1 = some votes ∧
        (∀ v, votes.get msg.sender = some v → v.scTail < msg.scTail) ∧
        countVote1 b { t with votes1 := some (votes.put msg) } msg = .ok r) ∨
      ∃ v votes blackList, t.votes1 = some votes ∧ t.blackList = some blackList ∧
        votes.get msg.sender = some v ∧ msg.scTail ≤ v.scTail ∧ v.dist ≠ msg.dist ∧
        r.out = [] ∧
        r.core = { t with
          votes1 := some (votes.erase msg.sender)
          votes2 := t.votes2.map (·.erase msg.sender)
          blackList := some (blackList.put ⟨v.sender, [v, msg]⟩) } := by
  have hrecord : (∀ v, (t.votes1.getD .empty).get msg.sender = some v → v.scTail < msg.scTail) →
      recordVote1 b t msg = .ok r →
      ∃ votes, t.votes1 = some votes ∧
        (∀ v, votes.get msg.sender = some v → v.scTail < msg.scTail) ∧
        countVote1 b { t with votes1 := some (votes.put msg) } msg = .ok r := by
    intro hlt h
    unfold recordVote1 at h
    split at h
    · cases h
    · next votes hvotes =>
      rw [hvotes] at hlt
      exact ⟨votes, hvotes, hlt, h⟩
  unfold handleVote1 at h
  split at h
  · next v hv =>
    split at h
    · next hlt =>
      refine .inr (.inl (hrecord (fun w hw => ?_) h))
      rw [hv] at hw
      cases hw
      exact hlt
    next hle =>
    split at h
    · cases h
      exact .inl ⟨rfl, rfl⟩
    next hdist =>
    unfold blame at h
    split at h
    · cases h
    next blackList hblack =>
    cases h
    cases hvotes : t.votes1 with
    | none =>
      rw [hvotes] at hv
      cases hv
    | some votes =>
      rw [hvotes] at hv
      exact .inr (.inr ⟨v, votes, blackList, rfl, hblack, hv, not_lt.mp hle, hdist, rfl, rfl⟩)
  · next hnone =>
    refine .inr (.inl (hrecord (fun w hw => ?_) h))
    rw [hnone] at hw
    cases hw

theorem commit_cases (h : commit b t = .ok (t', out)) :
    ∃ p history, t.proposal = some p ∧ t' = { t with timer := false, history := history } ∧
      (out = [] ∨ t.lockHash = p.hash ∧
        out = [.commit p ((t.second.filter fun v => v.dist = t.lockHash).map
          fun v => ⟨v.scTail, v.sign⟩)]) := by
  unfold commit at h
  dsimp only at h
  split at h
  · cases h
  · next p hp =>
    split at h
    · next hlock =>
      cases h
      refine ⟨p, if b.commit then t.history.add p.hash () else t.history, hp, ?_, .inr ⟨hlock, rfl⟩⟩
      split <;> rfl
    · cases h
      exact ⟨p, t.history, hp, rfl, .inl rfl⟩

theorem countVote2_cases (h : countVote2 b t = .ok r) :
    (r.core = t ∧ r.out = []) ∨
      ∃ dist, decided t.second t.majority32 = some dist ∧
        commit b { (if t.lockHash.emptyHash then t.lockDist dist else t) with
          state := .commited } = .ok (r.core, r.out) := by
  unfold countVote2 at h
  split at h
  · split at h
    · next dist hdist =>
      obtain ⟨⟨t', out⟩, hcommit, hret⟩ := bind_eq_ok_iff.mp h
      cases hret
      exact .inr ⟨dist, hdist, hcommit⟩
    · cases h
      exact .inl ⟨rfl, rfl⟩
  · cases h
    exact .inl ⟨rfl, rfl⟩

theorem handleVote2_cases (h : handleVote2 b t msg = .ok r) :
    (r.core = t ∧ r.out = []) ∨
      ∃ votes, t.votes2 = some votes ∧ (t.lockHash = .zero ∨ msg.dist = t.lockHash) ∧
        countVote2 b { t with votes2 := some (votes.put msg) } = .ok r := by
  unfold handleVote2 at h
  split at h
  · cases h
    exact .inl ⟨rfl, rfl⟩
  split at h
  · cases h
    exact .inl ⟨rfl, rfl⟩
  next hlock =>
  split at h
  · cases h
  · next votes hvotes => exact .inr ⟨votes, hvotes, zero_or_eq_of_not hlock, h⟩

theorem handleVote_cases (h : handleVote b t msg = .ok r) :
    (∃ history, r.core = { t with history := history } ∧ r.out = []) ∨
      Verified t msg ∧ ∃ r', r.core = r'.core ∧ r.out = r'.out ∧
        ((msg.status = State.stop.code ∧ handleVote1 b t msg = .ok r') ∨
          (msg.status = State.prepare.code ∧ handleVote2 b t msg = .ok r')) := by
  obtain ⟨⟨err, t₁⟩, hverify, hrest⟩ := bind_eq_ok_iff.mp h
  rcases verify_cases hverify with ⟨e, history, rfl, rfl⟩ | ⟨rfl, rfl, hverified⟩
  · refine .inl ⟨history, ?_⟩
    cases e <;> (cases hrest; exact ⟨rfl, rfl⟩)
  obtain ⟨r', hr', hret⟩ := bind_eq_ok_iff.mp hrest
  cases hret
  unfold dispatch at hr'
  split at hr'
  · next hstatus => exact .inr ⟨hverified, r', rfl, rfl, .inl ⟨hstatus, hr'⟩⟩
  split at hr'
  · next hstatus => exact .inr ⟨hverified, r', rfl, rfl, .inr ⟨hstatus, hr'⟩⟩
  · cases hr'
    exact .inl ⟨t₁.history, rfl, rfl⟩

theorem resend_cases (h : resend b t = .ok (t', out)) :
    (∃ n, t' = { t with expired := n } ∧ out = []) ∨
      ∃ n p, t.isStarted = true ∧ t.proposal = some p ∧
        t' = { t with expired := n, timer := true } ∧
        ∀ o ∈ out, o = .broadcast (t.vote1 p) ∨
          t.state ≠ .running ∧ t.state ≠ .stop ∧ o = .broadcast t.vote2 := by
  unfold resend at h
  split at h
  · cases h
    exact .inl ⟨t.expired, rfl, rfl⟩
  dsimp only at h
  split at h
  · next hstarted =>
    obtain ⟨sent, hsent, hret⟩ := bind_eq_ok_iff.mp h
    obtain ⟨p, hp, hmem⟩ := sendVote1_eq_ok hsent
    cases hret
    refine .inr ⟨t.expired - 1, p, hstarted, hp, rfl, fun o ho => ?_⟩
    rcases List.mem_append.mp ho with ho | ho
    · right
      split at ho
      · next hstate =>
        refine ⟨fun hrun => ?_, fun hstop => ?_, mem_sendVote2 ho⟩
        · rw [hrun] at hstate
          exact absurd hstate (by decide)
        · rw [hstop] at hstate
          exact absurd hstate (by decide)
      · cases ho
    · exact .inl (hmem o ho)
  · cases h
    exact .inl ⟨t.expired - 1, rfl, rfl⟩

end Nerthus.Council
