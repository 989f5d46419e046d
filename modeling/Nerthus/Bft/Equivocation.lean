import Nerthus.Bft.Votes

/-!
# Equivocation

A node votes at most once in each view, so its prepares and commits never contradict each other.
Its proposals do not have this protection: `startNewRound` repeats the locked proposal, but
`handleRequest` broadcasts whatever unit arrives from the packing goroutine.
-/

namespace Nerthus.Bft

open Replica List

def Proposed (acts : List Output) (view : View) (p : Proposal) : Prop :=
  ∃ m, .broadcast m ∈ acts ∧ m.code = .msgPreprepare ∧ m.msg = .preprepare view (some p)

def Voted (acts : List Output) (code : ConsensusType) (sub : Subject) : Prop :=
  ∃ m, .broadcast m ∈ acts ∧ m.code = code ∧ m.msg = .subject sub

/-- In no view two units are proposed, prepared or committed. -/
structure NoEquivocation (acts : List Output) : Prop where
  preprepare : ∀ view p p', Proposed acts view p → Proposed acts view p' → p.hash = p'.hash
  prepare : ∀ sub sub', Voted acts .msgPrepare sub → Voted acts .msgPrepare sub' →
    sub.view = sub'.view → sub.digest = sub'.digest
  commit : ∀ sub sub', Voted acts .msgCommit sub → Voted acts .msgCommit sub' →
    sub.view = sub'.view → sub.digest = sub'.digest

def LockRespected (c : Core) (b : Backend) (ev : Event) : Prop :=
  ∃ outs, (c.handleEvent b ev).acts = outs ++ c.acts ∧
    (c.current.isHashLocked = true →
      ∀ view p, Proposed outs view p → p.hash = c.current.lockedHash)

/-- A unit that comes from packing to be broadcast at once is the locked and the proposed one, if
there are. -/
def RequestFits (c : Core) (b : Backend) (ev : Event) : Prop :=
  ∀ request, ev = .newProposal request → c.state = .acceptRequest →
    c.current.sequence = request.proposal.unit.number → c.isProposer = true →
    b.sign .msgPreprepare = true →
    (c.current.isHashLocked = true → request.proposal.unit.hash = c.current.lockedHash) ∧
      ∀ p, Proposed c.acts c.current.view p → p.hash = request.proposal.unit.hash

variable {r r' : Replica} {outs acts : List Output} {evs : List (Backend × Event)} {b : Backend}
  {ev : Event} {c : Core} {code : ConsensusType}

theorem proposed_append {view : View} {p : Proposal} :
    Proposed (outs ++ acts) view p ↔ Proposed outs view p ∨ Proposed acts view p := by
  simp only [Proposed, mem_append, or_and_right, exists_or]

theorem voted_append {sub : Subject} :
    Voted (outs ++ acts) code sub ↔ Voted outs code sub ∨ Voted acts code sub := by
  simp only [Voted, mem_append, or_and_right, exists_or]

structure Advances (r r' : Replica) : Prop where
  mono : r.current.view.cmp r'.current.view = .lt ∨ r'.current.view = r.current.view
  state : r'.current.view = r.current.view → r.state.toNat ≤ r'.state.toNat
  subject : r'.current.view = r.current.view → r.state ≠ .acceptRequest →
    r'.current.subject = r.current.subject

theorem Advances.later (h : r.current.view.cmp r'.current.view = .lt) : Advances r r' := by
  have hne : r'.current.view ≠ r.current.view := by
    intro heq
    rw [heq, View.cmp_lt_iff] at h
    omega
  exact ⟨.inl h, fun heq => absurd heq hne, fun heq => absurd heq hne⟩

theorem Advances.same (hview : r'.current.view = r.current.view)
    (hstate : r.state.toNat ≤ r'.state.toNat)
    (hsub : r.state ≠ .acceptRequest → r'.current.subject = r.current.subject) : Advances r r' :=
  ⟨.inr hview, fun _ => hstate, fun _ => hsub⟩

theorem Effect.advances (h : Effect b r ev r') (hs : r.Sound) : Advances r r' := by
  have hlate : ∀ {s : State}, r.state = .acceptRequest → r.state.toNat ≤ s.toNat := by
    intro s hstate
    rw [hstate]
    exact Nat.zero_le _
  have hvoted : r.state = .preprepared → r.state.toNat ≤ State.prepared.toNat := by
    intro hstate
    rw [hstate]
    decide
  have hdecided : r.state = .preprepared ∨ r.state = .prepared →
      r.state.toNat ≤ State.committed.toNat := by
    intro hstate
    rcases hstate with h | h <;> rw [h] <;> decide
  cases h with
  | proposed request hstate =>
    rw [sendPreprepare_eq]
    exact .same rfl (Nat.le_refl _) fun _ => rfl
  | accepted msg p mining hrec hcode hmsg hproposer hmining hstate =>
    rw [sendPrepare_eq]
    exact .same rfl (hlate hstate) fun h => absurd hstate h
  | reaccepted msg p mining hrec hcode hmsg hproposer hmining hstate =>
    rw [sendCommit_eq]
    exact .same rfl (hlate hstate) fun h => absurd hstate h
  | prepareLocked msg p hrec hvote hstate =>
    rw [prepare, sendCommit_eq]
    exact .same rfl (hvoted hstate) fun _ => rfl
  | commitLocked msg p hrec hvote hstate =>
    rw [prepare, sendCommit_eq]
    exact .same rfl (hvoted hstate) fun _ => rfl
  | committed msg p mining votes hrec hvote hstate =>
    exact .same rfl (hdecided hstate) fun _ => rfl
  | roundChanged msg rc hrec hcode hmsg hseq hadd hnum hround =>
    have hs' := hs.addRoundChange rc.view.round msg
    have hview : (r.nextRound rc.view.round).view = ⟨rc.view.round, r.current.sequence⟩ :=
      nextRound_view _
    have hlt : r.current.view.cmp (r.nextRound rc.view.round).view = .lt := by
      rw [hview, View.cmp_lt_iff]
      exact .inr ⟨rfl, hround⟩
    obtain ⟨outs, -, ⟨-, h⟩ | ⟨-, h⟩⟩ := hs'.enterRound_cases (b := b) rc.view.round <;>
      rw [h] <;> exact .later hlt
  | sequenceStarted number list hlist hme hseq =>
    refine .later ?_
    rw [View.cmp_lt_iff]
    exact .inl (Nat.lt_succ_of_le hseq)
  | _ => exact .same rfl (Nat.le_refl _) fun _ => rfl

def ConsensusType.stage : ConsensusType → Nat
  | .msgPrepare => State.preprepared.toNat
  | .msgCommit => State.prepared.toNat
  | _ => 0

/-- Nothing was said about later views, and in the current one what the state records. -/
structure Replica.Spoken (r : Replica) : Prop where
  preprepare : ∀ view p, Proposed r.acts view p → view.cmp r.current.view ≠ .gt
  votes : ∀ code sub, Voted r.acts code sub → 0 < code.stage ∧
    (sub.view.cmp r.current.view = .lt ∨ sub = r.current.subject ∧ code.stage ≤ r.state.toNat)

theorem proposed_acts (houts : ∀ o ∈ outs, Act b ev r r' o) {view : View} {p : Proposal}
    (h : Proposed outs view p) : view = r'.current.view ∧
      ((∃ request, ev = .newProposal request ∧ request.proposal.unit = p ∧
          r.state = .acceptRequest ∧ r.current.sequence = p.number ∧ r.isProposer = true ∧
          b.sign .msgPreprepare = true ∧ r'.current.view = r.current.view) ∨
        (r.current.view.cmp r'.current.view = .lt ∧ r.Repeats p)) := by
  obtain ⟨m, hm, hcode, hmsg⟩ := h
  cases houts _ hm with
  | requested request hev hstate hstate' hcur hnum hproposer hsign =>
    cases hmsg
    refine ⟨rfl, .inl ⟨request, hev, rfl, hstate, hnum, hproposer, hsign, ?_⟩⟩
    rw [hcur]
    rfl
  | repeated q hseq hround hp =>
    cases hmsg
    refine ⟨rfl, .inr ⟨?_, hp⟩⟩
    rw [View.cmp_lt_iff]
    exact .inr ⟨hseq.symm, hround⟩
  | prepare => cases hcode
  | commit => cases hcode

theorem voted_acts (houts : ∀ o ∈ outs, Act b ev r r' o) {sub : Subject} (h : Voted outs code sub) :
    sub = r'.current.subject ∧ r'.current.view = r.current.view ∧ r.state.toNat < code.stage ∧
      code.stage ≤ r'.state.toNat := by
  obtain ⟨m, hm, rfl, hmsg⟩ := h
  cases houts _ hm with
  | requested => cases hmsg
  | repeated => cases hmsg
  | prepare hstate hlock hstate' hview =>
    cases hmsg
    rw [hstate, hstate']
    exact ⟨rfl, hview, Nat.zero_lt_one, Nat.le_refl _⟩
  | commit q hstate hlock hstate' hview =>
    cases hmsg
    rw [hstate']
    refine ⟨rfl, hview, ?_, Nat.le_refl _⟩
    rcases hstate with h | h <;> rw [h]
    · exact Nat.zero_lt_two
    · exact Nat.one_lt_two

theorem recorded_of_advances (h : Advances r r') {sub : Subject} {n : Nat} (hn : 0 < n)
    (hrec : sub.view.cmp r.current.view = .lt ∨ sub = r.current.subject ∧ n ≤ r.state.toNat) :
    sub.view.cmp r'.current.view = .lt ∨ sub = r'.current.subject ∧ n ≤ r'.state.toNat := by
  rcases h.mono with hview | hview
  · left
    rcases hrec with hlt | ⟨rfl, -⟩
    · rw [View.cmp_lt_iff] at hlt hview ⊢
      omega
    · exact hview
  · rw [hview]
    refine hrec.imp_right fun ⟨hsub, hle⟩ => ⟨?_, hle.trans (h.state hview)⟩
    refine hsub.trans (h.subject hview fun heq => ?_).symm
    rw [heq] at hle
    exact Nat.not_lt.mpr hle hn

theorem Replica.Spoken.step (h : r.Spoken) (hadv : Advances r r') (hacts : r'.acts = outs ++ r.acts)
    (houts : ∀ o ∈ outs, Act b ev r r' o) : r'.Spoken := by
  constructor
  · intro view p hp
    rw [hacts, proposed_append] at hp
    rcases hp with hnew | hold
    · obtain ⟨rfl, -⟩ := proposed_acts houts hnew
      rw [View.cmp_eq_iff.mpr rfl]
      decide
    · have hle := h.preprepare view p hold
      rcases hadv.mono with hview | hview
      · rw [ne_eq, View.cmp_gt_iff] at hle ⊢
        rw [View.cmp_lt_iff] at hview
        omega
      · rw [hview]
        exact hle
  · intro code sub hsub
    rw [hacts, voted_append] at hsub
    rcases hsub with hnew | hold
    · obtain ⟨hsub, -, hlt, hle⟩ := voted_acts houts hnew
      exact ⟨Nat.zero_lt_of_lt hlt, .inr ⟨hsub, hle⟩⟩
    · obtain ⟨hpos, hrec⟩ := h.votes code sub hold
      exact ⟨hpos, recorded_of_advances hadv hpos hrec⟩

theorem Run.spoken (h : Run evs c) : c.replica.Spoken := by
  induction h with
  | start h =>
    obtain ⟨list, -, -, hc⟩ := Core.start_replica h
    rw [hc]
    constructor
    · rintro view p ⟨m, hm, -⟩
      cases hm
    · rintro code sub ⟨m, hm, -⟩
      cases hm
  | step h b hown ih =>
    obtain ⟨outs, hacts, houts⟩ := (h.effect b hown).acts h.sound
    exact ih.step ((h.effect b hown).advances h.sound) hacts houts

theorem votes_step (houts : ∀ o ∈ outs, Act b ev r r' o) (hspoken : r.Spoken)
    (hclean : ∀ sub sub', Voted r.acts code sub → Voted r.acts code sub' →
      sub.view = sub'.view → sub.digest = sub'.digest) (sub sub' : Subject)
    (h : Voted (outs ++ r.acts) code sub) (h' : Voted (outs ++ r.acts) code sub')
    (hview : sub.view = sub'.view) : sub.digest = sub'.digest := by
  have hmeets : ∀ {sub sub'}, Voted outs code sub → Voted r.acts code sub' →
      sub.view ≠ sub'.view := by
    intro sub sub' hnew hold hview
    obtain ⟨rfl, hsame, hlt, -⟩ := voted_acts houts hnew
    rcases (hspoken.votes code sub' hold).2 with hearlier | ⟨-, hle⟩
    · rw [← hview, show r'.current.subject.view = r.current.view from hsame,
        View.cmp_lt_iff] at hearlier
      omega
    · omega
  rw [voted_append] at h h'
  rcases h with h | h <;> rcases h' with h' | h'
  · rw [(voted_acts houts h).1, (voted_acts houts h').1]
  · exact absurd hview (hmeets h h')
  · exact absurd hview.symm (hmeets h' h)
  · exact hclean _ _ h h' hview

/-! ## Proposals contradict each other exactly by a request -/

theorem Replica.Repeats.unique {p p' : Proposal} (h : r.Repeats p) (h' : r.Repeats p') :
    p = p' := by
  rcases h with ⟨hlock, hp⟩ | ⟨hlock, request, hreq, hp⟩ <;>
    rcases h' with ⟨hlock', hp'⟩ | ⟨hlock', request', hreq', hp'⟩
  · exact Option.some.inj (hp.symm.trans hp')
  · cases hlock.symm.trans hlock'
  · cases hlock.symm.trans hlock'
  · have hsame := Option.some.inj (hreq.symm.trans hreq')
    rw [← hp, ← hp', hsame]

theorem proposed_acts_unique (houts : ∀ o ∈ outs, Act b ev r r' o) {view view' : View}
    {p p' : Proposal} (h : Proposed outs view p) (h' : Proposed outs view' p') : p = p' := by
  have hne : r'.current.view = r.current.view →
      r.current.view.cmp r'.current.view = .lt → False := by
    intro heq hlt
    rw [heq, View.cmp_lt_iff] at hlt
    omega
  obtain ⟨-, ⟨q, hq, hp, -, -, -, -, heq⟩ | ⟨hlt, hp⟩⟩ := proposed_acts houts h <;>
    obtain ⟨-, ⟨q', hq', hp', -, -, -, -, heq'⟩ | ⟨hlt', hp'⟩⟩ := proposed_acts houts h'
  · cases hq.symm.trans hq'
    rw [← hp, ← hp']
  · exact (hne heq hlt').elim
  · exact (hne heq' hlt).elim
  · exact hp.unique hp'

theorem handleRequest_acts {request : Request} (hstate : c.state = .acceptRequest)
    (hnum : c.current.sequence = request.proposal.unit.number) (hproposer : c.isProposer = true)
    (hsign : b.sign .msgPreprepare = true) : (c.handleEvent b (.newProposal request)).acts =
      [.broadcast (c.replica.preprepareMessage b request.proposal.unit)] ++ c.acts := by
  have hreplica : (c.handleEvent b (.newProposal request)).replica =
      (c.replica.request request).sendPreprepare b request.proposal.unit := by
    change (c.handleRequest b request).replica = _
    unfold Core.handleRequest
    rw [if_pos hnum]
    rw [if_pos hstate, Core.sendPreprepare_replica]
    rfl
  have hacts := congrArg acts hreplica
  rw [sendPreprepare, if_pos ⟨hnum, hproposer, hsign⟩] at hacts
  exact hacts

/-- Without a contradiction so far, the event brings none exactly when its request fits. -/
theorem Run.noEquivocation_step (h : Run evs c) (b : Backend) (hown : ev.Own c.address)
    (hclean : NoEquivocation c.acts) :
    NoEquivocation (c.handleEvent b ev).acts ∧ LockRespected c b ev ↔ RequestFits c b ev := by
  have hspoken := h.spoken
  obtain ⟨outs, hacts, houts⟩ := (h.effect b hown).acts h.sound
  have hacts' : (c.handleEvent b ev).acts = outs ++ c.acts := hacts
  constructor
  · rintro ⟨hnew, outs', hacts'', hrespect⟩ request rfl hstate hnum hproposer hsign
    have hsent := handleRequest_acts hstate hnum hproposer hsign
    obtain rfl : [_] = outs' := append_cancel_right (hsent.symm.trans hacts'')
    have hproposed : Proposed [.broadcast (c.replica.preprepareMessage b request.proposal.unit)]
        c.current.view request.proposal.unit :=
      ⟨_, mem_singleton_self _, rfl, rfl⟩
    refine ⟨fun hlock => hrespect hlock _ _ hproposed, fun p hp => ?_⟩
    rw [hsent] at hnew
    exact hnew.preprepare _ _ _ (proposed_append.mpr (.inr hp))
      (proposed_append.mpr (.inl hproposed))
  · intro hfits
    -- an old proposal of the view that a new one is made in
    have hmeets : ∀ view p p', Proposed outs view p → Proposed c.acts view p' →
        p.hash = p'.hash := by
      intro view p p' hp hp'
      obtain ⟨rfl, ⟨request, hev, rfl, hstate, hnum, hproposer, hsign, heq⟩ | ⟨hlt, -⟩⟩ :=
        proposed_acts houts hp
      · rw [heq] at hp'
        exact ((hfits request hev hstate hnum hproposer hsign).2 p' hp').symm
      · have hle := hspoken.preprepare _ p' hp'
        rw [ne_eq, View.cmp_gt_iff] at hle
        rw [View.cmp_lt_iff] at hlt
        omega
    refine ⟨?_, outs, hacts, fun hlock view p hp => ?_⟩
    · rw [hacts']
      refine ⟨?_, ?_, ?_⟩
      · intro view p p' hp hp'
        rw [proposed_append] at hp hp'
        rcases hp with hp | hp <;> rcases hp' with hp' | hp'
        · rw [proposed_acts_unique houts hp hp']
        · exact hmeets view p p' hp hp'
        · exact (hmeets view p' p hp' hp).symm
        · exact hclean.preprepare view p p' hp hp'
      · exact votes_step houts hspoken hclean.prepare
      · exact votes_step houts hspoken hclean.commit
    · obtain ⟨-, ⟨request, hev, rfl, hstate, hnum, hproposer, hsign, -⟩ | ⟨-, hp⟩⟩ :=
        proposed_acts houts hp
      · exact (hfits request hev hstate hnum hproposer hsign).1 hlock
      · rcases hp with ⟨-, hprop⟩ | ⟨hfree, -⟩
        · obtain ⟨q, hholds, hhash⟩ := h.sound.lockHolds hlock
          rw [Option.some.inj (hprop.symm.trans hholds.proposal_eq)]
          exact hhash
        · cases hfree.symm.trans hlock

theorem Run.acts_suffix (h : Run evs c) {more : List (Backend × Event)}
    (hown : ∀ e ∈ more, e.2.Own c.address) : ∃ outs, (c.run more).acts = outs ++ c.acts := by
  induction more generalizing evs c with
  | nil => exact ⟨[], rfl⟩
  | cons e more ih =>
    obtain ⟨hfirst, hrest⟩ := h.own_cons hown
    obtain ⟨outs, hacts, -⟩ := (h.effect e.1 hfirst).acts h.sound
    obtain ⟨outs', hacts'⟩ := ih (h.step e.1 hfirst) hrest
    refine ⟨outs' ++ outs, ?_⟩
    rw [append_assoc]
    exact hacts'.trans (congrArg (outs' ++ ·) hacts)

theorem NoEquivocation.of_append (h : NoEquivocation (outs ++ acts)) : NoEquivocation acts := by
  have hprop : ∀ {view p}, Proposed acts view p → Proposed (outs ++ acts) view p :=
    fun hp => proposed_append.mpr (.inr hp)
  have hvote : ∀ {code sub}, Voted acts code sub → Voted (outs ++ acts) code sub :=
    fun hv => voted_append.mpr (.inr hv)
  exact ⟨fun view p p' hp hp' => h.preprepare view p p' (hprop hp) (hprop hp'),
    fun sub sub' hs hs' => h.prepare sub sub' (hvote hs) (hvote hs'),
    fun sub sub' hs hs' => h.commit sub sub' (hvote hs) (hvote hs')⟩

theorem Run.noEquivocation_iff (h : Run evs c) (hclean : NoEquivocation c.acts)
    {more : List (Backend × Event)} (hown : ∀ e ∈ more, e.2.Own c.address) :
    NoEquivocation (c.run more).acts ∧ Along LockRespected c more ↔ Along RequestFits c more := by
  induction more generalizing evs c with
  | nil => exact ⟨fun _ => trivial, fun _ => ⟨hclean, trivial⟩⟩
  | cons e more ih =>
    obtain ⟨hfirst, hrest⟩ := h.own_cons hown
    have hstep := h.noEquivocation_step e.1 hfirst hclean
    have hnext := h.step e.1 hfirst
    constructor
    · rintro ⟨hend, hrespect, hlater⟩
      obtain ⟨outs, houts⟩ := hnext.acts_suffix hrest
      have hmiddle : NoEquivocation (c.handleEvent e.1 e.2).acts := by
        change NoEquivocation ((c.handleEvent e.1 e.2).run more).acts at hend
        rw [houts] at hend
        exact hend.of_append
      exact ⟨hstep.mp ⟨hmiddle, hrespect⟩, (ih hnext hmiddle hrest).mp ⟨hend, hlater⟩⟩
    · rintro ⟨hfits, hlater⟩
      obtain ⟨hmiddle, hrespect⟩ := hstep.mpr hfits
      obtain ⟨hend, hafter⟩ := (ih hnext hmiddle hrest).mpr hlater
      exact ⟨hend, hrespect, hafter⟩

theorem noEquivocation_nil : NoEquivocation [] := by
  refine ⟨?_, ?_, ?_⟩
  · rintro view p p' ⟨m, hm, -⟩
    cases hm
  · rintro sub sub' ⟨m, hm, -⟩
    cases hm
  · rintro sub sub' ⟨m, hm, -⟩
    cases hm

/-- A run equivocates nowhere and proposes against no lock exactly when each unit that arrives to be
broadcast is the locked one and the one already proposed. -/
theorem run_noEquivocation_iff {config : Config} {me chain : Address} {b : Backend} {c : Core}
    (hstart : Core.start config me chain b = some c) {evs : List (Backend × Event)}
    (hown : ∀ e ∈ evs, e.2.Own me) :
    NoEquivocation (c.run evs).acts ∧ Along LockRespected c evs ↔ Along RequestFits c evs := by
  obtain ⟨list, -, -, hc⟩ := Core.start_replica hstart
  have hacts : c.acts = [] := congrArg acts hc
  rw [← Core.start_address hstart] at hown
  refine (Run.start hstart).noEquivocation_iff ?_ hown
  rw [hacts]
  exact noEquivocation_nil

theorem noEquivocation_proposed : ∃ c,
    Core.start defaultConfig ⟨9⟩ ⟨100⟩ sampleBackend = some c ∧
      NoEquivocation (c.run [(sampleBackend, .newProposal ⟨⟨sampleUnit⟩⟩)]).acts := by
  have hsome : (Core.start defaultConfig ⟨9⟩ ⟨100⟩ sampleBackend).isSome = true := by
    decide +kernel
  obtain ⟨c, hstart⟩ := Option.isSome_iff_exists.mp hsome
  obtain ⟨list, -, -, hc⟩ := Core.start_replica hstart
  have hacts : c.acts = [] := congrArg acts hc
  have hlock : c.current.isHashLocked = false :=
    congrArg (fun r : Replica => r.current.isHashLocked) hc
  have hown : ∀ e ∈ [(sampleBackend, Event.newProposal ⟨⟨sampleUnit⟩⟩)], e.2.Own ⟨9⟩ := by
    decide
  have hfits : Along RequestFits c [(sampleBackend, .newProposal ⟨⟨sampleUnit⟩⟩)] := by
    refine ⟨fun request hev hstate hnum hproposer hsign => ⟨fun h => ?_, fun p hp => ?_⟩, trivial⟩
    · cases hlock.symm.trans h
    · rw [hacts] at hp
      obtain ⟨m, hm, -⟩ := hp
      cases hm
  exact ⟨c, hstart, ((run_noEquivocation_iff hstart hown).mpr hfits).1⟩

def lockedProposerRun : List (Backend × Event) :=
  preparedRun ++ (witnessGroup 8).map fun a =>
    (sampleBackend, .newMessage (sentRoundChange a 2))

def lateUnit : Proposal := ⟨1, ⟨9⟩, ⟨100⟩, ⟨8⟩, by decide⟩

/-- In round two the node repeats the locked unit, then broadcasts another one. -/
theorem lockedProposer_equivocates : ∃ c,
    Core.start defaultConfig ⟨11⟩ ⟨100⟩ sampleBackend = some c ∧
      let evs := lockedProposerRun ++ [(sampleBackend, .newProposal ⟨⟨lateUnit⟩⟩)]
      (∀ e ∈ evs, e.2.Own ⟨11⟩) ∧ ¬NoEquivocation (c.run evs).acts ∧
        ¬Along LockRespected c evs := by
  have hcheck : (Core.start defaultConfig ⟨11⟩ ⟨100⟩ sampleBackend).any (fun c =>
        (c.run lockedProposerRun).current.isHashLocked ∧
        (c.run lockedProposerRun).current.lockedHash = ⟨7⟩ ∧
        .broadcast (finalizeMessage ⟨11⟩ 0 .msgPreprepare
          (.preprepare ⟨2, 1⟩ (some sampleUnit)) none) ∈ (c.run lockedProposerRun).acts ∧
        ((c.run lockedProposerRun).handleEvent sampleBackend (.newProposal ⟨⟨lateUnit⟩⟩)).acts =
          [.broadcast (finalizeMessage ⟨11⟩ 0 .msgPreprepare
            (.preprepare ⟨2, 1⟩ (some lateUnit)) none)] ++ (c.run lockedProposerRun).acts) =
      true := by
    decide +kernel
  have hown : ∀ e ∈ lockedProposerRun ++ [(sampleBackend, .newProposal ⟨⟨lateUnit⟩⟩)],
      e.2.Own ⟨11⟩ := by
    decide +kernel
  obtain ⟨c, hstart, hc⟩ := (Option.any_eq_true _ _).mp hcheck
  obtain ⟨hlock, hhash, hfirst, hsecond⟩ := of_decide_eq_true hc
  refine ⟨c, hstart, hown, ?_, ?_⟩
  · intro hclean
    rw [Core.run_concat, hsecond] at hclean
    have heq := hclean.preprepare ⟨2, 1⟩ sampleUnit lateUnit
      ⟨_, mem_append_right _ hfirst, rfl, rfl⟩
      ⟨_, mem_append_left _ (mem_singleton_self _), rfl, rfl⟩
    revert heq
    decide
  · intro halong
    obtain ⟨outs, hacts, hrespect⟩ := halong.last
    obtain rfl : outs = [_] := append_cancel_right (hacts.symm.trans hsecond)
    have heq := hrespect hlock ⟨2, 1⟩ lateUnit ⟨_, mem_singleton_self _, rfl, rfl⟩
    rw [hhash] at heq
    revert heq
    decide

end Nerthus.Bft
