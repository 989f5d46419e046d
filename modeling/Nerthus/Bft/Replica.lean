import Nerthus.Bft.Core

/-!
# The replica behind a core

Timers, the activation of the chain and the backlog decide when a core acts, never what it may
vote for. The replica of a core keeps the rest. Every function of the core is followed through
this projection once, here; later proofs rewrite with these equations.
-/

namespace Nerthus.Bft

def Message.binding (m : Message) : Bool :=
  match m.code, m.msg with
  | .msgPreprepare, .preprepare _ (some _) => true
  | .msgPrepare, _ => true
  | .msgCommit, _ => true
  | _, _ => false

def Output.binding : Output → Bool
  | .broadcast msg => msg.binding
  | .commit _ _ _ => true
  | .lockHash _ => true
  | .recoverFromDeadLock _ => true
  | _ => false

structure Replica where
  config : Config
  address : Address
  chainAddress : Address
  state : State
  valSet : ValidatorSet
  current : RoundState
  roundChangeSet : RoundChangeSet
  lockHashes : Option LockHashes
  tail : Header
  panicked : Bool
  acts : List Output

namespace Replica

variable (r : Replica) (b : Backend)

def act (o : Output) : Replica := { r with acts := o :: r.acts }

def isProposer : Bool := r.valSet.isProposer r.address

def preprepareMessage (proposal : Proposal) : Message :=
  finalizeMessage r.address b.randomFnv64a .msgPreprepare
    (.preprepare r.current.view (some proposal)) none

def prepareMessage : Message :=
  finalizeMessage r.address b.randomFnv64a .msgPrepare (.subject r.current.subject) none

def commitMessage (proposal : Proposal) : Message :=
  finalizeMessage r.address b.randomFnv64a .msgCommit (.subject r.current.subject)
    (some (commitSeal r.address r.current.round proposal.hash))

def sendPreprepare (proposal : Proposal) : Replica :=
  if r.current.sequence = proposal.number ∧ r.isProposer ∧ b.sign .msgPreprepare then
    r.act (.broadcast (r.preprepareMessage b proposal))
  else r

def sendPrepare : Replica :=
  if b.sign .msgPrepare then r.act (.broadcast (r.prepareMessage b)) else r

def sendCommit (proposal : Proposal) : Replica :=
  if b.sign .msgCommit then r.act (.broadcast (r.commitMessage b proposal)) else r

def polc (proposal : Proposal) : PolcRound :=
  ⟨r.current.view, proposal.hash, r.current.getPrepareOrCommitBytes r.config.scAccount b⟩

def lockHash (proposal : Proposal) : Replica :=
  { r with current := { r.current with polcRound := some (r.polc b proposal) } }.act
    (.lockHash (r.polc b proposal))

def commit (mining : MiningResult) (votes : List WitenssVote) : Replica :=
  { r with state := .committed }.act (.commit r.current.view mining votes)

def voteSum : Nat :=
  if r.chainAddress = r.config.scAccount then Params.configParamsSCWitness
  else Params.configParamsUCWitness

def deadLockAt (round : Nat) : Bool :=
  deadLock r.voteSum r.valSet.twoThirdsMajority round r.lockHashes r.current.lockedHash

def checkDeadLock : Replica :=
  if r.deadLockAt r.current.round then
    { r with current := r.current.unlockHash, lockHashes := none }.act
      (.recoverFromDeadLock r.current.lockedHash)
  else r

def propose : Replica :=
  if r.isProposer then
    if r.current.isHashLocked then
      match r.current.proposal with
      | some proposal => r.sendPreprepare b proposal
      | none => { r with panicked := true }
    else
      match r.current.pendingRequest with
      | some request => r.sendPreprepare b request.proposal.unit
      | none => r
  else r

def nextRound (round : Nat) : RoundState :=
  let view : View := ⟨round, r.current.sequence⟩
  if r.current.isHashLocked then
    RoundState.newRoundState view r.valSet r.chainAddress r.current.polcRound
      r.current.preprepare r.current.pendingRequest
  else RoundState.newRoundState view r.valSet r.chainAddress none none r.current.pendingRequest

def openRound (round : Nat) : Replica :=
  { r with
    state := .acceptRequest
    current := r.nextRound round
    roundChangeSet := RoundChangeSet.newRoundChangeSet r.valSet
    valSet := r.valSet.calcProposer b.tailHeader.proposer (uint64 round)
    tail := b.tailHeader }

def enterRound (round : Nat) : Replica := ((r.openRound b round).propose b).checkDeadLock

def enterSequence : Replica :=
  { r with
    state := .acceptRequest
    current := RoundState.newRoundState ⟨0, b.tailHeader.number + 1⟩ r.valSet r.chainAddress
      none none none
    roundChangeSet := RoundChangeSet.newRoundChangeSet r.valSet
    valSet := r.valSet.calcProposer b.tailHeader.proposer 0
    tail := b.tailHeader
    lockHashes := none }

end Replica

variable {proposal : Proposal}

namespace Core

def acts (c : Core) : List Output := c.log.filter Output.binding

def replica (c : Core) : Replica :=
  { config := c.config
    address := c.address
    chainAddress := c.chainAddress
    state := c.state
    valSet := c.valSet
    current := c.current
    roundChangeSet := c.roundChangeSet
    lockHashes := c.lockHashes
    tail := c.tail
    panicked := c.panicked
    acts := c.acts }

variable (c : Core) (b : Backend)

theorem emit_replica_of_binding {o : Output} (h : o.binding = true) :
    (c.emit o).replica = c.replica.act o := by
  simp [emit, replica, acts, Replica.act, h]

theorem emit_replica_of_not_binding {o : Output} (h : o.binding = false) :
    (c.emit o).replica = c.replica := by
  simp [emit, replica, acts, h]

@[simp] theorem stopTimer_replica : (c.stopTimer b).replica = c.replica :=
  emit_replica_of_not_binding _ rfl

@[simp] theorem setTimeoutDeadline_replica (t : Nat) :
    (c.setTimeoutDeadline t).replica = c.replica :=
  emit_replica_of_not_binding _ rfl

@[simp] theorem setTimeout_replica (t : Nat) : (c.setTimeout b t).replica = c.replica :=
  setTimeoutDeadline_replica c _

@[simp] theorem activateChain_replica : (c.activateChain b).replica = c.replica := by
  unfold activateChain
  split
  · rfl
  dsimp only
  split
  · rw [emit_replica_of_not_binding _ rfl, setTimeoutDeadline_replica,
      emit_replica_of_not_binding _ rfl]
    rfl
  · rw [setTimeoutDeadline_replica, emit_replica_of_not_binding _ rfl]
    rfl

@[simp] theorem disabledChain_replica : (c.disabledChain b).replica = c.replica := by
  rw [disabledChain, emit_replica_of_not_binding _ rfl, stopTimer_replica]
  rfl

@[simp] theorem refreshChainStatus_replica : (c.refreshChainStatus b).replica = c.replica := by
  unfold refreshChainStatus
  split
  · rw [activateChain_replica]; rfl
  · rw [disabledChain_replica]; rfl

@[simp] theorem stop_replica :
    (c.stop b).replica = { c.replica with chainAddress := Address.emptyAddress } := by
  have hstop : ({ c.stopTimer b with chainAddress := Address.emptyAddress }).replica =
      { c.replica with chainAddress := Address.emptyAddress } := by
    simp [replica, acts, stopTimer, emit, Output.binding]
  unfold stop
  dsimp only
  split
  · rw [emit_replica_of_not_binding _ rfl, hstop]
  · exact hstop

@[simp] theorem processBacklogMessage_replica (msg : Message) :
    (c.processBacklogMessage msg).replica = c.replica := by
  unfold processBacklogMessage
  split
  · rfl
  · split
    · exact emit_replica_of_not_binding _ rfl
    all_goals rfl

@[simp] theorem processBacklog_replica : c.processBacklog.replica = c.replica := by
  have hfold : ∀ (msgs : List Message) (d : Core),
      (msgs.foldl processBacklogMessage d).replica = d.replica := by
    intro msgs
    induction msgs with
    | nil => intro d; rfl
    | cons msg msgs ih => intro d; rw [List.foldl_cons, ih, processBacklogMessage_replica]
  exact hfold _ _

@[simp] theorem setState_replica (state : State) :
    (c.setState b state).replica = { c.replica with state := state } := by
  unfold setState
  split
  · rename_i hstate
    rw [← hstate]
    rfl
  · rw [processBacklog_replica]
    split
    · exact congrArg (fun r : Replica => { r with state := state }) (activateChain_replica c b)
    · rfl

theorem broadcast_replica_of_not_binding (code : ConsensusType) (msg : Payload)
    (vote : Option WitenssVote)
    (h : (finalizeMessage c.address b.randomFnv64a code msg vote).binding = false) :
    (c.broadcast b code msg vote).replica = c.replica := by
  unfold broadcast
  split
  · exact emit_replica_of_not_binding _ h
  · rfl

theorem broadcast_replica_of_binding (code : ConsensusType) (msg : Payload)
    (vote : Option WitenssVote)
    (h : (finalizeMessage c.address b.randomFnv64a code msg vote).binding = true) :
    (c.broadcast b code msg vote).replica =
      if b.sign code then
        c.replica.act (.broadcast (finalizeMessage c.address b.randomFnv64a code msg vote))
      else c.replica := by
  unfold broadcast
  split
  · exact emit_replica_of_binding _ h
  · rfl

@[simp] theorem catchUpRound_replica : (c.catchUpRound b).replica = c.replica := by
  rw [catchUpRound, setTimeout_replica]
  rfl

@[simp] theorem sendRoundChange_replica (round : Int) :
    (c.sendRoundChange b round).replica = c.replica := by
  unfold sendRoundChange
  split
  · exact catchUpRound_replica c b
  · rw [broadcast_replica_of_not_binding _ _ _ _ _ rfl, catchUpRound_replica]

@[simp] theorem sendNextRoundChange_replica : (c.sendNextRoundChange b).replica = c.replica := by
  unfold sendNextRoundChange
  split
  · split <;> exact sendRoundChange_replica _ _ _
  · exact sendRoundChange_replica _ _ _

@[simp] theorem sendCheckPendingTx_replica : (c.sendCheckPendingTx b).replica = c.replica :=
  broadcast_replica_of_not_binding _ _ _ _ _ rfl

@[simp] theorem sendGiveUpPreprepare_replica : (c.sendGiveUpPreprepare b).replica = c.replica := by
  unfold sendGiveUpPreprepare
  split
  · exact broadcast_replica_of_not_binding _ _ _ _ _ rfl
  · rfl

@[simp] theorem sendPreprepare_replica (request : Proposal) :
    (c.sendPreprepare b request).replica = c.replica.sendPreprepare b request := by
  unfold sendPreprepare Replica.sendPreprepare
  split
  · rename_i h
    rw [broadcast_replica_of_binding _ _ _ _ _ rfl]
    by_cases hsign : b.sign .msgPreprepare = true
    · rw [if_pos hsign, if_pos ⟨h.1, h.2, hsign⟩]
      rfl
    · rw [if_neg hsign, if_neg (fun h' => hsign h'.2.2)]
  · rename_i h
    rw [if_neg (fun h' => h ⟨h'.1, h'.2.1⟩)]

@[simp] theorem sendPrepare_replica : (c.sendPrepare b).replica = c.replica.sendPrepare b :=
  broadcast_replica_of_binding _ _ _ _ _ rfl

theorem sendCommit_replica (h : c.replica.current.proposal = some proposal) :
    (c.sendCommit b).replica = c.replica.sendCommit b proposal := by
  have h' : c.current.proposal = some proposal := h
  unfold sendCommit
  rw [h']
  exact broadcast_replica_of_binding _ _ _ _ _ rfl

theorem lockHash_replica {preprepare : Preprepare}
    (hpre : c.replica.current.preprepare = some preprepare)
    (hprop : preprepare.proposal = some proposal) :
    (c.lockHash b).replica = c.replica.lockHash b proposal := by
  have hpre' : c.current.preprepare = some preprepare := hpre
  unfold lockHash
  split
  · rename_i hnone
    rw [hpre'] at hnone
    cases hnone
  · rename_i stored hsome
    obtain rfl : preprepare = stored := Option.some.inj (hpre'.symm.trans hsome)
    rw [hprop]
    exact emit_replica_of_binding _ rfl

@[simp] theorem handleFinalCommitted_replica : (c.handleFinalCommitted b).replica = c.replica := by
  simp [handleFinalCommitted, stopTimer, emit, replica, acts, Output.binding]

theorem commit_replica {preprepare : Preprepare} {mining : MiningResult} {votes : List WitenssVote}
    (hpre : c.replica.current.preprepare = some preprepare)
    (hprop : preprepare.proposal = some proposal) (hmining : preprepare.mining = some mining)
    (hvotes : (c.replica.current.commits.values b).mapM Message.committedSeal = some votes) :
    (c.commit b).replica = c.replica.commit mining votes := by
  have hset := setState_replica c b .committed
  have hcur : (c.setState b .committed).current = c.current := congrArg Replica.current hset
  have hpre' : c.current.preprepare = some preprepare := hpre
  have hvotes' : (c.setState b .committed).committedSeals b = some votes := by
    unfold committedSeals
    rw [hcur]
    exact hvotes
  unfold commit
  simp only [hcur, hpre', hprop, hmining, hvotes']
  rw [handleFinalCommitted_replica, emit_replica_of_binding _ rfl, hset, currentView, hcur]
  rfl

@[simp] theorem checkDeadLock_replica : c.checkDeadLock.replica = c.replica.checkDeadLock := by
  unfold checkDeadLock Replica.checkDeadLock
  split
  · rename_i hdead
    have hdead' : c.replica.deadLockAt c.replica.current.round = true := hdead
    rw [if_pos hdead']
    exact emit_replica_of_binding _ rfl
  · rename_i hdead
    have hdead' : ¬c.replica.deadLockAt c.replica.current.round = true := hdead
    rw [if_neg hdead']

@[simp] theorem proposeInRound_replica : (c.proposeInRound b).replica = c.replica.propose b := by
  change (if _ then _ else c).replica = if c.isProposer = true then _ else _
  split
  · change (if _ then _ else _ : Core).replica = if c.current.isHashLocked = true then _ else _
    split
    · change _ = match c.current.proposal with | some p => _ | none => _
      cases c.current.proposal with
      | some p => exact sendPreprepare_replica c b p
      | none => rfl
    · change _ = match c.current.pendingRequest with | some q => _ | none => _
      cases c.current.pendingRequest with
      | some q => exact sendPreprepare_replica c b q.proposal.unit
      | none =>
        have hemit : (c.emit .packUnit).replica = c.replica :=
          emit_replica_of_not_binding _ rfl
        dsimp only
        split
        · exact hemit
        · rw [sendGiveUpPreprepare_replica, hemit]
  · rfl

theorem enterView_round_replica (round : Nat) :
    (c.enterView b ⟨round, c.current.sequence⟩ true).replica =
      c.replica.enterRound b round := by
  unfold enterView Replica.enterRound
  simp only [if_true, setTimeout_replica, checkDeadLock_replica, proposeInRound_replica,
    setState_replica]
  rfl

theorem enterView_sequence_replica : (c.enterView b ⟨0, b.tailHeader.number + 1⟩ false).replica =
      c.replica.enterSequence b := by
  unfold enterView
  have hset := setState_replica
    { ({ c with roundChangeSet := RoundChangeSet.newRoundChangeSet c.valSet }).updateRoundState
        ⟨0, b.tailHeader.number + 1⟩ false with
      valSet := c.valSet.calcProposer b.tailHeader.proposer (uint64 0)
      tail := b.tailHeader
      waitingForRoundChange := false
      waitingTimes := 0 } b .acceptRequest
  have hlock := congrArg (fun r : Replica => { r with lockHashes := none }) hset
  exact hlock

end Core

end Nerthus.Bft
