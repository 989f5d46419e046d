import Nerthus.Bft.Run

/-!
# The backlog

Messages of a later view wait in the backlog, until `processBacklog` hands them to `OnMessage`. It
is called by `setState` when the state changes, not when the view does: a round change that finds
the core in `AcceptRequest` leaves there the messages that wait for the new round.
-/

namespace Nerthus.Bft

open List

def Message.deliverable (view : View) (state : State) (m : Message) : Bool :=
  match m.backlogView with
  | none => false
  | some v => checkMessage view state m.code v == none

def Message.waiting (view : View) (state : State) (m : Message) : Bool :=
  match m.backlogView with
  | none => false
  | some v =>
    checkMessage view state m.code v == some .futureMessage ||
      checkMessage view state m.code v == some .futureUnitMessage

def Message.obsolete (view : View) (state : State) (m : Message) : Bool :=
  match m.backlogView with
  | none => true
  | some v => checkMessage view state m.code v == some .oldMessage

theorem checkMessage_range (current view : View) (state : State) (code : ConsensusType) :
    checkMessage current state code view = none ∨
      checkMessage current state code view = some .futureMessage ∨
      checkMessage current state code view = some .futureUnitMessage ∨
      checkMessage current state code view = some .oldMessage := by
  unfold checkMessage
  repeat' split
  all_goals simp

/-- What a call that installs the view of `c'` owes to the messages stored in `c`: the current ones
are handed over as often as they were stored, the later ones kept, and only obsolete ones lost. -/
structure BacklogReleased (c c' : Core) : Prop where
  released : ∀ m ∈ c'.backlogs, m.deliverable c'.currentView c'.state = false
  handed : ∃ outs, c'.log = outs ++ c.log ∧ ∀ m, outs.count (.onMessage m) =
    if m.deliverable c'.currentView c'.state then c.backlogs.count m else 0
  kept : ∀ m, m.waiting c'.currentView c'.state = true →
    c'.backlogs.count m = c.backlogs.count m
  dropped : ∀ m ∈ c.backlogs, m ∉ c'.backlogs → m.deliverable c'.currentView c'.state = true ∨
    m.obsolete c'.currentView c'.state = true

variable {c c' : Core} {view : View}

namespace Core

variable {c : Core} {b : Backend}

structure Quiet (c c' : Core) : Prop where
  backlogs : c'.backlogs = c.backlogs
  view : c'.currentView = c.currentView
  state : c'.state = c.state
  log : ∃ outs, c'.log = outs ++ c.log ∧ ∀ m, .onMessage m ∉ outs

theorem Quiet.refl (c : Core) : Quiet c c :=
  ⟨rfl, rfl, rfl, [], rfl, nofun⟩

theorem Quiet.trans {c'' : Core} (h : Quiet c c') (h' : Quiet c' c'') : Quiet c c'' := by
  obtain ⟨outs, hlog, hquiet⟩ := h.log
  obtain ⟨outs', hlog', hquiet'⟩ := h'.log
  refine ⟨h'.backlogs.trans h.backlogs, h'.view.trans h.view, h'.state.trans h.state,
    outs' ++ outs, ?_, fun m hm => ?_⟩
  · rw [hlog', hlog, append_assoc]
  · rcases mem_append.mp hm with hm | hm
    · exact hquiet' m hm
    · exact hquiet m hm

theorem Quiet.emit {o : Output} (ho : ∀ m, o ≠ .onMessage m) : Quiet c (c.emit o) := by
  refine ⟨rfl, rfl, rfl, [o], rfl, fun m hm => ?_⟩
  exact ho m (mem_singleton.mp hm).symm

theorem Quiet.broadcast (code : ConsensusType) (msg : Payload) (vote : Option WitenssVote) :
    Quiet c (c.broadcast b code msg vote) := by
  unfold Core.broadcast
  split
  · exact .emit fun m => by simp
  · exact .refl c

theorem Quiet.setTimeout (t : Nat) : Quiet c (c.setTimeout b t) := .emit fun m => by simp

theorem Quiet.sendPreprepare (p : Proposal) : Quiet c (c.sendPreprepare b p) := by
  unfold Core.sendPreprepare
  split
  · exact .broadcast _ _ _
  · exact .refl c

theorem Quiet.proposeInRound : Quiet c (c.proposeInRound b) := by
  unfold Core.proposeInRound
  split
  · split
    · split
      · exact .sendPreprepare _
      · exact ⟨rfl, rfl, rfl, [], rfl, nofun⟩
    · split
      · exact .sendPreprepare _
      have hpack : Quiet c (c.emit .packUnit) := .emit fun m => by simp
      dsimp only
      split
      · exact hpack
      refine hpack.trans ?_
      unfold Core.sendGiveUpPreprepare
      split
      · exact .broadcast _ _ _
      · exact .refl _
  · exact .refl c

theorem Quiet.checkDeadLock : Quiet c c.checkDeadLock := by
  unfold Core.checkDeadLock
  split
  · have hunlock : Quiet c { c with current := c.current.unlockHash, lockHashes := none } :=
      ⟨rfl, rfl, rfl, [], rfl, nofun⟩
    exact hunlock.trans (.emit fun m => by simp)
  · exact .refl c

theorem processBacklogMessage_spec (msg : Message) : (c.processBacklogMessage msg).backlogs =
        c.backlogs ++ [msg].filter (·.waiting c.currentView c.state) ∧
      (c.processBacklogMessage msg).log =
        ([msg].filter (·.deliverable c.currentView c.state)).map .onMessage ++ c.log ∧
      (c.processBacklogMessage msg).current = c.current ∧
      (c.processBacklogMessage msg).state = c.state := by
  unfold processBacklogMessage Message.waiting Message.deliverable
  cases hview : msg.backlogView with
  | none => simp [hview]
  | some view =>
    have hrange := checkMessage_range c.currentView view c.state msg.code
    rcases hrange with h | h | h | h <;>
      simp [hview, Core.checkMessage, h, emit, storeBacklog]

theorem foldl_processBacklogMessage (msgs : List Message) (d : Core) :
    (msgs.foldl processBacklogMessage d).backlogs =
        d.backlogs ++ msgs.filter (·.waiting d.currentView d.state) ∧
      (msgs.foldl processBacklogMessage d).log =
        ((msgs.filter (·.deliverable d.currentView d.state)).map .onMessage).reverse ++ d.log ∧
      (msgs.foldl processBacklogMessage d).current = d.current ∧
      (msgs.foldl processBacklogMessage d).state = d.state := by
  induction msgs generalizing d with
  | nil => simp
  | cons msg msgs ih =>
    obtain ⟨hback, hlog, hcur, hstate⟩ := processBacklogMessage_spec (c := d) msg
    obtain ⟨hback', hlog', hcur', hstate'⟩ := ih (d.processBacklogMessage msg)
    have hview : (d.processBacklogMessage msg).currentView = d.currentView := by
      rw [currentView, hcur, currentView]
    rw [hview, hstate] at hback' hlog'
    rw [foldl_cons, hback', hlog', hcur', hstate', hback, hlog, hcur, hstate]
    refine ⟨?_, ?_, rfl, rfl⟩
    · rw [append_assoc, ← filter_append]
      rfl
    · cases hdel : msg.deliverable d.currentView d.state <;> simp [hdel]

theorem processBacklog_spec :
    c.processBacklog.backlogs = c.backlogs.filter (·.waiting c.currentView c.state) ∧
      c.processBacklog.log =
        ((c.backlogs.filter (·.deliverable c.currentView c.state)).map .onMessage).reverse ++
          c.log ∧
      c.processBacklog.currentView = c.currentView ∧ c.processBacklog.state = c.state := by
  obtain ⟨hback, hlog, hcur, hstate⟩ :=
    foldl_processBacklogMessage c.backlogs { c with backlogs := [] }
  exact ⟨hback, hlog, congrArg RoundState.view hcur, hstate⟩

structure Opens (c : Core) (view : View) (d : Core) : Prop where
  backlogs : d.backlogs = c.backlogs
  log : d.log = c.log
  state : d.state = c.state
  view : d.currentView = view

theorem updateRoundState_view (view : View) (roundChange : Bool) :
    (c.updateRoundState view roundChange).current.view = view := by
  unfold updateRoundState
  split
  · split <;> rfl
  · rfl

theorem enterView_opens (view : View) (roundChange : Bool) :
    ∃ d, Opens c view d ∧ Quiet (d.setState b .acceptRequest) (c.enterView b view roundChange) := by
  refine ⟨{ updateRoundState
      { c with roundChangeSet := RoundChangeSet.newRoundChangeSet c.valSet } view roundChange with
      valSet := c.valSet.calcProposer b.tailHeader.proposer (uint64 view.round)
      tail := b.tailHeader
      waitingForRoundChange := false
      waitingTimes := 0 }, ⟨rfl, rfl, rfl, updateRoundState_view view roundChange⟩, ?_⟩
  unfold enterView
  split
  · exact (Quiet.proposeInRound.trans .checkDeadLock).trans (.setTimeout _)
  have hfields : ∀ d : Core, Quiet d { d with lockHashes := none } := fun d =>
    ⟨rfl, rfl, rfl, [], rfl, nofun⟩
  have hstop : ∀ d : Core, Quiet d (d.stopTimer b) := fun d =>
    ⟨rfl, rfl, rfl, [.stopTimer], rfl, fun _ hm => by cases mem_singleton.mp hm⟩
  exact (hfields _).trans (hstop _)

theorem refreshValidtors_ok {last : Option Header} (h : c.refreshValidtors b last = (c', none)) :
    c'.backlogs = c.backlogs ∧ c'.log = c.log ∧ c'.state = c.state ∧ c'.current = c.current := by
  unfold refreshValidtors at h
  split at h
  · cases h
  split at h
  · cases h
  split at h
  · cases h
  split at h
  · cases h
    exact ⟨rfl, rfl, rfl, rfl⟩
  · cases h

theorem refreshValidtors_current {last : Option Header} {err : Option Err}
    (h : c.refreshValidtors b last = (c', err)) : c'.current = c.current := by
  unfold refreshValidtors at h
  split at h
  · cases h; rfl
  split at h
  · cases h; rfl
  split at h
  · cases h
    exact congrArg Replica.current (stop_replica c b)
  · split at h <;> cases h <;> rfl

theorem startNewRound_opens {round : Nat}
    (hnew : (c.startNewRound b round).currentView ≠ c.currentView) :
    ∃ d, Opens c (c.newView b round) d ∧
      Quiet (d.setState b .acceptRequest) (c.startNewRound b round) := by
  unfold startNewRound at hnew ⊢
  by_cases hzero : round = 0
  · rw [if_pos hzero] at hnew ⊢
    split at hnew
    · exact absurd rfl hnew
    rename_i hseq
    rw [if_neg hseq]
    split at hnew
    · rename_i c' err hrefresh
      exact absurd (congrArg RoundState.view (refreshValidtors_current hrefresh)) hnew
    rename_i c' hrefresh
    obtain ⟨hback, hlog, hstate, hcur⟩ := refreshValidtors_ok hrefresh
    obtain ⟨d, hopens, hquiet⟩ := enterView_opens (c := c') (b := b) (c'.newView b round) false
    refine ⟨d, ⟨hopens.backlogs.trans hback, hopens.log.trans hlog,
      hopens.state.trans hstate, ?_⟩, hquiet⟩
    rw [hopens.view, newView, newView, if_pos hzero, if_pos hzero]
  · rw [if_neg hzero] at hnew ⊢
    split at hnew
    · exact absurd rfl hnew
    · rename_i hle
      rw [if_neg hle]
      exact enterView_opens _ _

end Core

/-! ## What is left in the backlog -/

theorem Message.deliverable_of_waiting {state : State} {m : Message}
    (h : m.waiting view state = true) : m.deliverable view state = false := by
  unfold waiting at h
  unfold deliverable
  cases hview : m.backlogView with
  | none => rfl
  | some v =>
    rw [hview] at h
    rcases checkMessage_range view v state m.code with hc | hc | hc | hc <;>
      simp_all

theorem Message.obsolete_of_not_waiting {state : State} {m : Message}
    (h : m.waiting view state = false) :
    m.deliverable view state = true ∨ m.obsolete view state = true := by
  unfold waiting at h
  unfold deliverable obsolete
  cases hview : m.backlogView with
  | none => exact .inr rfl
  | some v =>
    rw [hview] at h
    rcases checkMessage_range view v state m.code with hc | hc | hc | hc <;>
      simp_all

theorem count_onMessage {outs : List Output} (h : ∀ m, .onMessage m ∉ outs) (m : Message) :
    outs.count (.onMessage m) = 0 :=
  count_eq_zero.mpr (h m)

theorem BacklogReleased.of_setState {d : Core} {b : Backend} (hopens : Core.Opens c view d)
    (hquiet : Core.Quiet (d.setState b .acceptRequest) c') (hstate : c.state ≠ .acceptRequest) :
    BacklogReleased c c' := by
  have hset : d.setState b .acceptRequest =
      Core.processBacklog { d with state := .acceptRequest } := by
    unfold Core.setState
    rw [if_neg (by rw [hopens.state]; exact hstate), if_neg (fun h => by cases h.2)]
  rw [hset] at hquiet
  obtain ⟨hback, hlog, hview, hst⟩ :=
    Core.processBacklog_spec (c := { d with state := .acceptRequest })
  change _ = d.backlogs.filter (·.waiting d.currentView .acceptRequest) at hback
  change _ = ((d.backlogs.filter
    (·.deliverable d.currentView .acceptRequest)).map .onMessage).reverse ++ d.log at hlog
  have hview' : c'.currentView = d.currentView := hquiet.view.trans hview
  have hstate' : c'.state = .acceptRequest := hquiet.state.trans hst
  have hbacklogs : c'.backlogs = c.backlogs.filter (·.waiting d.currentView .acceptRequest) := by
    rw [hquiet.backlogs, hback, hopens.backlogs]
  obtain ⟨outs, houts, hsilent⟩ := hquiet.log
  constructor
  · intro m hm
    rw [hbacklogs] at hm
    rw [hview', hstate']
    exact Message.deliverable_of_waiting (mem_filter.mp hm).2
  · refine ⟨outs ++ ((c.backlogs.filter
      (·.deliverable d.currentView .acceptRequest)).map .onMessage).reverse, ?_, fun m => ?_⟩
    · rw [houts, hlog, hopens.backlogs, hopens.log, append_assoc]
    · have hinj : Function.Injective Output.onMessage := fun m m' h => by cases h; rfl
      rw [count_append, count_onMessage hsilent, count_reverse, Nat.zero_add,
        count_map_of_injective _ _ hinj, hview', hstate']
      cases hdel : m.deliverable d.currentView .acceptRequest with
      | true =>
        rw [if_pos rfl]
        exact count_filter hdel
      | false =>
        rw [if_neg Bool.false_ne_true]
        refine count_eq_zero.mpr fun hm => ?_
        rw [(mem_filter.mp hm).2] at hdel
        cases hdel
  · intro m hm
    rw [hview', hstate'] at hm
    rw [hbacklogs]
    exact count_filter hm
  · intro m hm hgone
    rw [hview', hstate']
    rw [hbacklogs] at hgone
    refine Message.obsolete_of_not_waiting (Bool.eq_false_iff.mpr fun hwait => ?_)
    exact hgone (mem_filter.mpr ⟨hm, hwait⟩)

theorem BacklogReleased.iff_of_same_state {d : Core} {b : Backend} (hopens : Core.Opens c view d)
    (hquiet : Core.Quiet (d.setState b .acceptRequest) c') (hstate : c.state = .acceptRequest) :
    BacklogReleased c c' ↔ ∀ m ∈ c.backlogs, m.deliverable view .acceptRequest = false := by
  have hset : d.setState b .acceptRequest = d := by
    unfold Core.setState
    rw [if_pos (by rw [hopens.state]; exact hstate)]
  rw [hset] at hquiet
  have hview' : c'.currentView = view := hquiet.view.trans hopens.view
  have hstate' : c'.state = .acceptRequest := hquiet.state.trans (hopens.state.trans hstate)
  have hbacklogs : c'.backlogs = c.backlogs := hquiet.backlogs.trans hopens.backlogs
  constructor
  · intro h m hm
    rw [← hbacklogs] at hm
    rw [← hview', ← hstate']
    exact h.released m hm
  · intro h
    obtain ⟨outs, houts, hsilent⟩ := hquiet.log
    refine ⟨fun m hm => ?_, ⟨outs, ?_, fun m => ?_⟩, fun m _ => ?_, fun m hm hgone => ?_⟩
    · rw [hbacklogs] at hm
      rw [hview', hstate']
      exact h m hm
    · rw [houts, hopens.log]
    · rw [count_onMessage hsilent, hview', hstate']
      split
      · rename_i hdel
        refine (count_eq_zero.mpr fun hm => ?_).symm
        rw [h m hm] at hdel
        cases hdel
      · rfl
    · rw [hbacklogs]
    · rw [hbacklogs] at hgone
      exact absurd hm hgone

/-- A call that installs a view deals with the backlog as it should exactly when the core was not
waiting for a proposal, or nothing stored is current. -/
theorem startNewRound_backlog_iff (c : Core) (b : Backend) (round : Nat)
    (hnew : (c.startNewRound b round).currentView ≠ c.currentView) :
    BacklogReleased c (c.startNewRound b round) ↔
      c.state ≠ .acceptRequest ∨
        ∀ m ∈ c.backlogs, m.deliverable (c.newView b round) .acceptRequest = false := by
  obtain ⟨d, hopens, hquiet⟩ := Core.startNewRound_opens hnew
  by_cases hstate : c.state = .acceptRequest
  · rw [BacklogReleased.iff_of_same_state hopens hquiet hstate]
    exact ⟨.inr, fun h => h.resolve_left (not_not.mpr hstate)⟩
  · exact ⟨fun _ => .inl hstate, fun _ => .of_setState hopens hquiet hstate⟩

def earlyPreprepare : Message :=
  sentMessage ⟨10⟩ .msgPreprepare (.preprepare ⟨1, 1⟩ (some sampleUnit)) none

def earlyRun : List (Backend × Event) :=
  (sampleBackend, .newMessage earlyPreprepare) :: (witnessGroup 8).tail.map fun a =>
    (sampleBackend, .newMessage (sentRoundChange a 1))

/-- A node that has accepted the proposal of round zero releases the early one of round one. -/
theorem startNewRound_backlog_early : ∃ evs c, Run evs c ∧
    let c' := c.startNewRound sampleBackend 1
    c.state = .preprepared ∧ c.backlogs = [earlyPreprepare] ∧ c'.backlogs = [] ∧
      .onMessage earlyPreprepare ∈ c'.log ∧ BacklogReleased c c' := by
  let b := sampleBackend
  have hcheck : (startRun defaultConfig ⟨1⟩ ⟨100⟩ b
      [(b, .newMessage sentProposal), (b, .newMessage earlyPreprepare)]).any (fun c =>
        c.state = .preprepared ∧ c.backlogs = [earlyPreprepare] ∧
        (c.startNewRound b 1).backlogs = [] ∧ .onMessage earlyPreprepare ∈ (c.startNewRound b 1).log ∧
        (c.startNewRound b 1).currentView ≠ c.currentView) = true := by
    decide +kernel
  obtain ⟨c, hrun, hc⟩ := run_of_startRun hcheck
  obtain ⟨hstate, hstored, hleft, hreleased, hnew⟩ := of_decide_eq_true hc
  refine ⟨_, c, hrun, hstate, hstored, hleft, hreleased,
    (startNewRound_backlog_iff c b 1 hnew).mpr (.inl ?_)⟩
  rw [hstate]
  nofun

/-- The eighth round change takes the node to round one, where the early proposal stays in the
backlog. -/
theorem earlyPreprepare_stuck : ∃ evs c, Run evs c ∧
    let b := sampleBackend
    let msg := sentRoundChange ⟨9⟩ 1
    let called : Core := { c with roundChangeSet := (c.roundChangeSet.add 1 msg).1 }
    (Event.newMessage msg).Own c.address ∧
      (c.handleEvent b (.newMessage msg)).currentView = ⟨1, 1⟩ ∧
      earlyPreprepare ∈ (c.handleEvent b (.newMessage msg)).backlogs ∧
      (called.startNewRound b 1).currentView ≠ called.currentView ∧
      ¬BacklogReleased called (called.startNewRound b 1) := by
  let b := sampleBackend
  let msg := sentRoundChange ⟨9⟩ 1
  have hcheck : (startRun defaultConfig ⟨1⟩ ⟨100⟩ b earlyRun).any (fun c =>
      (c.handleEvent b (.newMessage msg)).currentView = ⟨1, 1⟩ ∧
      earlyPreprepare ∈ (c.handleEvent b (.newMessage msg)).backlogs ∧
      c.currentView = ⟨0, 1⟩ ∧
      let called : Core := { c with roundChangeSet := (c.roundChangeSet.add 1 msg).1 }
      (called.startNewRound b 1).currentView = ⟨1, 1⟩ ∧
      (called.startNewRound b 1).state = .acceptRequest ∧
      earlyPreprepare ∈ (called.startNewRound b 1).backlogs) = true := by
    decide +kernel
  obtain ⟨c, hrun, hc⟩ := run_of_startRun hcheck
  obtain ⟨hview, hleft, hold, hnew, hstate, hstuck⟩ := of_decide_eq_true hc
  refine ⟨_, c, hrun, ?_, hview, hleft, ?_, fun h => ?_⟩
  · intro hme
    cases hme
  · rw [hnew]
    change (⟨1, 1⟩ : View) ≠ c.currentView
    rw [hold]
    decide
  · have hdel := h.released earlyPreprepare hstuck
    rw [hnew, hstate] at hdel
    revert hdel
    decide

end Nerthus.Bft
