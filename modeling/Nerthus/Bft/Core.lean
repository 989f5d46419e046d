import Nerthus.Bft.RoundState

/-!
# The consensus core of one chain

The handlers of `consensus/bft/core` on the state of a `core`. Every handler runs under the lock
of `Handle`, so one event is one step.

What a handler does to the world around it is appended to `log`; a broadcast also comes back to
the node as an ordinary event, later or never. A nil dereference sets `panicked`. A `Core` is
one whose first `startNewRound` succeeded; otherwise `Handle` ignores every event.
-/

namespace Nerthus.Bft

open Params

abbrev LockHashes := AList fun _ : Address => Hash

/-- An effect of a handler; a commit with its view, and the two lines logged about the lock. -/
inductive Output where
  | broadcast (msg : Message)
  | commit (view : View) (proposal : MiningResult) (votes : List WitenssVote)
  | onMessage (msg : Message)
  | setTimeout (rv : RoundView)
  | stopTimer
  | setChainStatus (status : Bool)
  | packUnit
  | rollback (unit : Proposal)
  | disconnect (msg : Message)
  | lockHash (polc : PolcRound)
  | recoverFromDeadLock (hash : Hash)
deriving DecidableEq

structure Core where
  config : Config
  address : Address
  chainAddress : Address
  state : State
  valSet : ValidatorSet
  waitingForRoundChange : Bool
  waitingTimes : Nat
  backlogs : List Message
  current : RoundState
  roundChangeSet : RoundChangeSet
  activated : Bool
  roundchangeResetTime : Nat
  lockHashes : Option LockHashes
  /-- History: the tail header behind the current validator set and proposer. -/
  tail : Header
  /-- History: whether a nil pointer has been dereferenced. -/
  panicked : Bool
  /-- History: the effects so far, newest first. -/
  log : List Output

def second : Nat := 10 ^ 9

def extraSealSize : Nat := 9

/-- `binary.LittleEndian.PutUint64`, for `width` bytes. -/
def putUint : Nat → Nat → List UInt8
  | 0, _ => []
  | width + 1, n => UInt8.ofNat (n % 256) :: putUint width (n / 256)

/-- `binary.LittleEndian.Uint64`. -/
def getUint : List UInt8 → Nat
  | [] => 0
  | byte :: bytes => byte.toNat + 256 * getUint bytes

/-- `checkMessage`, which reads the current view and the state of the core. -/
def checkMessage (current : View) (state : State) (msgCode : ConsensusType) (view : View) :
    Option Err :=
  if msgCode = .msgRoundChange then
    if current.sequence < view.sequence then some .futureUnitMessage
    else if view.cmp current = .lt then some .oldMessage
    else none
  else if current.sequence < view.sequence then some .futureUnitMessage
  else if view.cmp current = .gt then some .futureMessage
  else if view.cmp current = .lt then some .oldMessage
  else if state = .acceptRequest then
    if msgCode = .msgPrepare ∨ msgCode = .msgCommit then some .futureMessage else none
  else if state = .committed then some .oldMessage
  else none

def Message.backlogView (msg : Message) : Option View :=
  match msg.code with
  | .msgPreprepare => msg.msg.decodePreprepare.map Preprepare.view
  | _ => msg.msg.decodeSubject.map Subject.view

def LockHashes.votes (l : LockHashes) (hash : Hash) : Nat := (l.entries.map Sigma.snd).count hash

def noteDiffHash (me : Address) (current : RoundState) (lockHashes : Option LockHashes)
    (address : Address) (hash : Hash) : Option LockHashes :=
  match lockHashes with
  | some l => some (l.insert address hash)
  | none =>
    if current.isHashLocked ∧ current.lockedHash ≠ hash then
      some ((AList.insert me current.lockedHash ∅).insert address hash)
    else none

/-- `checkDeadLock`: every second rotation, with enough proposers noted, unless some hash with more
than one vote has fewer than the lock. -/
def deadLock (voteSum majority round : Nat) (lockHashes : Option LockHashes) (locked : Hash) :
    Bool :=
  match lockHashes with
  | none => false
  | some l =>
    (int64 round).tmod (voteSum * 2) == 0 &&
    majority < l.entries.length &&
    !((l.entries.map Sigma.snd).any fun hash =>
      1 < l.votes hash && l.votes hash < l.votes locked)

/-- `finalizeMessage`: the sender, the signature and, in a round change, a random
salt. -/
def finalizeMessage (address : Address) (salt : Nat) (code : ConsensusType) (msg : Payload)
    (committedSeal : Option WitenssVote) : Message :=
  { code := code
    msg := msg
    address := address
    extra := if code = .msgRoundChange then some salt else none
    sign := some address
    committedSeal := committedSeal
    isMe := true }

def commitSeal (address : Address) (round : Nat) (unitHash : Hash) : WitenssVote :=
  ⟨ConsensusType.msgCommit.byte :: putUint 8 (uint64 round), some ⟨address, unitHash⟩⟩

namespace Core

variable (c : Core) (b : Backend)

def emit (o : Output) : Core := { c with log := o :: c.log }

def panic : Core := { c with panicked := true }

def currentView : View := c.current.view

def isProposer : Bool := c.valSet.isProposer c.address

def stopTimer : Core := { c with roundchangeResetTime := b.now }.emit .stopTimer

def setTimeoutDeadline (deadline : Nat) : Core :=
  c.emit (.setTimeout ⟨c.current.round, c.current.sequence, deadline⟩)

def setTimeout (t : Nat) : Core := c.setTimeoutDeadline (b.now + t * second)

/-- `activateChain`. The unit of the packing goroutine arrives as a `newProposal` event. -/
def activateChain : Core :=
  if c.activated then c
  else
    let c := ({ c with activated := true }).emit (.setChainStatus true)
    let c := c.setTimeoutDeadline
      (b.now + b.waitGenerateUnitTime + c.config.requestTimeout * second)
    if c.isProposer then c.emit .packUnit else c

def disabledChain : Core :=
  ({ c with activated := false }.stopTimer b).emit (.setChainStatus false)

def refreshChainStatus : Core :=
  let c := { c with activated := false }
  if b.existTx then c.activateChain b else c.disabledChain b

def stop : Core :=
  let c := { c.stopTimer b with chainAddress := Address.emptyAddress }
  match c.current.pendingRequest with
  | some request => c.emit (.rollback request.proposal.unit)
  | none => c

def checkMessage (msgCode : ConsensusType) (view : View) : Option Err :=
  Bft.checkMessage c.currentView c.state msgCode view

def storeBacklog (msg : Message) : Core := { c with backlogs := c.backlogs ++ [msg] }

/-- The body of the loop of `processBacklog`, with `backlogs` as the rest. -/
def processBacklogMessage (msg : Message) : Core :=
  match msg.backlogView with
  | none => c
  | some view =>
    match c.checkMessage msg.code view with
    | none => c.emit (.onMessage msg)
    | some .futureUnitMessage => c.storeBacklog msg
    | some .futureMessage => c.storeBacklog msg
    | some _ => c

def processBacklog : Core :=
  c.backlogs.foldl processBacklogMessage { c with backlogs := [] }

def setState (state : State) : Core :=
  if c.state = state then c
  else
    let c := if c.state = .acceptRequest ∧ state = .preprepared then c.activateChain b else c
    { c with state := state }.processBacklog

def broadcast (code : ConsensusType) (msg : Payload) (committedSeal : Option WitenssVote) :
    Core :=
  if b.sign code then
    c.emit (.broadcast (finalizeMessage c.address b.randomFnv64a code msg committedSeal))
  else c

def sendPreprepare (request : Proposal) : Core :=
  if c.current.sequence = request.number ∧ c.isProposer then
    c.broadcast b .msgPreprepare (.preprepare c.currentView (some request)) none
  else c

def sendGiveUpPreprepare : Core :=
  if c.isProposer ∧ c.current.pendingRequest = none then
    c.broadcast b .msgPreprepare (.preprepare c.currentView none) none
  else c

def sendPrepare : Core := c.broadcast b .msgPrepare (.subject c.current.subject) none

def broadcastCommit (sub : Subject) (unitHash : Hash) : Core :=
  c.broadcast b .msgCommit (.subject sub) (some (commitSeal c.address sub.view.round unitHash))

def sendCommit : Core :=
  match c.current.proposal with
  | none => c.panic
  | some proposal => c.broadcastCommit b c.current.subject proposal.hash

def sendCheckPendingTx : Core :=
  c.broadcast b .msgCheckPendingTx (.subject c.current.subject) none

def catchUpRound : Core :=
  { c with waitingForRoundChange := true }.setTimeout b c.config.requestTimeout

/-- `sendRoundChange`. A negative round cannot be encoded. -/
def sendRoundChange (round : Int) : Core :=
  let c := c.catchUpRound b
  if round < 0 then c
  else c.broadcast b .msgRoundChange
    (.subject ⟨⟨round.toNat, c.current.sequence⟩, Hash.zero⟩) none

/-- `sendNextRoundChange`: the round that `F() + 1` validators ask for, if it is ahead, else the
next. -/
def sendNextRoundChange : Core :=
  match c.roundChangeSet.maxRound (c.valSet.f + 1) with
  | some maxRound =>
    if (c.current.round : Int) < maxRound then c.sendRoundChange b maxRound
    else c.sendRoundChange b (c.current.round + 1)
  | none => c.sendRoundChange b (c.current.round + 1)

def lockHash : Core :=
  match c.current.preprepare with
  | none => c
  | some preprepare =>
    match preprepare.proposal with
    | none => c.panic
    | some proposal =>
      let polc : PolcRound :=
        ⟨c.currentView, proposal.hash,
          c.current.getPrepareOrCommitBytes c.config.scAccount b⟩
      { c with current := { c.current with polcRound := some polc } }.emit (.lockHash polc)

def handleFinalCommitted : Core :=
  { c.stopTimer b with waitingForRoundChange := false }

def committedSeals : Option (List WitenssVote) :=
  (c.current.commits.values b).mapM Message.committedSeal

def commit : Core :=
  let c := c.setState b .committed
  match c.current.preprepare with
  | none => c.panic
  | some preprepare =>
    match preprepare.proposal, preprepare.mining, c.committedSeals b with
    | some _, some mining, some seals =>
      (c.emit (.commit c.currentView mining seals)).handleFinalCommitted b
    | _, _, _ => c.panic

/-- `Validators`: a fresh set with its first validator as proposer. A nil header asks for the
tail. -/
def validators (header : Option Header) : Option ValidatorSet :=
  let header := header.getD b.tailHeader
  b.witnesses.map fun list =>
    ValidatorSet.newDefaultSet c.config (header.number + 1) header.hash list c.chainAddress

def refreshValidtors (last : Option Header) : Core × Option Err :=
  if c.chainAddress.empty then (c, some .chainIsStopping)
  else
    match c.validators b last with
    | none => (c, some .validatorsUnknown)
    | some vals =>
      if vals.size = 0 then (c.stop b, some .validatorIsEmpty)
      else if vals.getByAddress c.address then
        ({ c with valSet := vals, tail := last.getD b.tailHeader }, none)
      else (c, some .isNotMyChain)

def updateRoundState (view : View) (roundChange : Bool) : Core :=
  let current :=
    if roundChange then
      if c.current.isHashLocked then
        RoundState.newRoundState view c.valSet c.chainAddress c.current.polcRound
          c.current.preprepare c.current.pendingRequest
      else
        RoundState.newRoundState view c.valSet c.chainAddress none none c.current.pendingRequest
    else RoundState.newRoundState view c.valSet c.chainAddress none none none
  { c with current := current }

def voteSum : Nat :=
  if c.chainAddress = c.config.scAccount then configParamsSCWitness else configParamsUCWitness

def checkDeadLock : Core :=
  if deadLock c.voteSum c.valSet.twoThirdsMajority c.current.round c.lockHashes
      c.current.lockedHash then
    { c with current := c.current.unlockHash, lockHashes := none }.emit
      (.recoverFromDeadLock c.current.lockedHash)
  else c

def proposeInRound : Core :=
  if c.isProposer then
    if c.current.isHashLocked then
      match c.current.proposal with
      | some proposal => c.sendPreprepare b proposal
      | none => c.panic
    else
      match c.current.pendingRequest with
      | some request => c.sendPreprepare b request.proposal.unit
      | none =>
        let c := c.emit .packUnit
        if b.packUnit then c else c.sendGiveUpPreprepare b
  else c

def enterView (view : View) (roundChange : Bool) : Core :=
  let c := { c with roundChangeSet := RoundChangeSet.newRoundChangeSet c.valSet }
  let c := c.updateRoundState view roundChange
  let c := { c with
    valSet := c.valSet.calcProposer b.tailHeader.proposer (uint64 view.round)
    tail := b.tailHeader
    waitingForRoundChange := false
    waitingTimes := 0 }
  let c := c.setState b .acceptRequest
  if roundChange then
    ((c.proposeInRound b).checkDeadLock).setTimeout b c.config.requestTimeout
  else { c with lockHashes := none }.stopTimer b

def newView (round : Nat) : View :=
  if round = 0 then ⟨0, b.tailHeader.number + 1⟩ else ⟨round, c.current.sequence⟩

def startNewRound (round : Nat) : Core :=
  if round = 0 then
    if b.tailHeader.number < c.current.sequence then c
    else
      match c.refreshValidtors b (some b.tailHeader) with
      | (c, some _) => c
      | (c, none) => c.enterView b (c.newView b round) false
  else if round ≤ c.current.round then c
  else c.enterView b (c.newView b round) true

/-! ## Message handlers -/

def verifyProposal (proposal : Proposal) : Except Err MiningResult :=
  match b.verify proposal with
  | some err => .error (.verify err)
  | none =>
    let chainCurrentWitness := b.witnessLib proposal.mc proposal.scHash
    if chainCurrentWitness = [] then .error .futureMessage
    else if c.address ∈ chainCurrentWitness then .ok ⟨proposal⟩
    else .error .notWitness

def noteDiffHash (address : Address) (hash : Hash) : Core :=
  { c with lockHashes := Bft.noteDiffHash c.address c.current c.lockHashes address hash }

def acceptPreprepare (preprepare : Preprepare) : Core :=
  let c := { c with current := { c.current with preprepare := some preprepare } }
  (c.stopTimer b).setTimeout b c.config.consensusTimeout

def preprepareVerified (preprepare : Preprepare) (hash : Hash) (src : Address) : Core :=
  if c.state = .acceptRequest then
    let c := c.noteDiffHash src hash
    if c.current.isHashLocked then
      if hash = c.current.lockedHash then
        ((c.acceptPreprepare b preprepare).setState b .prepared).sendCommit b
      else c.sendNextRoundChange b
    else ((c.acceptPreprepare b preprepare).setState b .preprepared).sendPrepare b
  else c

/-- The `Mining` of a proposal: the pending request if the hash is its own, else the result of
verifying. -/
def miningOf (proposal : Proposal) : Except Err MiningResult :=
  match c.current.pendingRequest with
  | some request =>
    if proposal.hash = request.proposal.unit.hash then .ok request.proposal
    else c.verifyProposal b proposal
  | none => c.verifyProposal b proposal

def handlePreprepare (msg : Message) (src : Address) : Core × Option Err :=
  match msg.msg.decodePreprepare with
  | none => (c, some .failedDecodePreprepare)
  | some preprepare =>
    match c.checkMessage .msgPreprepare preprepare.view with
    | some err => (c, some err)
    | none =>
      if !c.valSet.isProposer src then (c, some .notFromProposer)
      else
        match preprepare.proposal with
        | none => (c.sendNextRoundChange b, none)
        | some proposal =>
          match c.miningOf b proposal with
          | .error err =>
            if err.isBadUnitErr then (c.sendNextRoundChange b, some err)
            else (c, some .futureMessage)
          | .ok mining =>
            (c.preprepareVerified b { preprepare with mining := some mining } proposal.hash src,
              none)

def verifyPrepare (prepare : Subject) : Option Err :=
  if prepare.cmp c.current.subject then none else some .inconsistentSubject

def enoughPrepares (digest : Hash) : Bool :=
  (c.current.isHashLocked && digest == c.current.lockedHash) ||
    c.valSet.twoThirdsMajority < c.current.getPrepareOrCommitSize

def handlePrepare (msg : Message) : Core × Option Err :=
  match msg.msg.decodeSubject with
  | none => (c, some .failedDecodePrepare)
  | some prepare =>
    match c.checkMessage .msgPrepare prepare.view with
    | some err => (c, some err)
    | none =>
      match c.verifyPrepare prepare with
      | some err => (c, some err)
      | none =>
        match c.current.prepares.add msg with
        | (_, some err) => (c, some err)
        | (prepares, none) =>
          let c := { c with current := { c.current with prepares := prepares } }
          if c.enoughPrepares prepare.digest ∧ c.state.cmp .prepared = .lt then
            (((c.lockHash b).setState b .prepared).sendCommit b, none)
          else (c, none)

def verifyCommit (msgSender : Address) (commitSeal : Option WitenssVote) (commit : Subject) :
    Option Err :=
  match commitSeal with
  | none => some .invalidCommitSeal
  | some vote =>
    if vote.extra.length ≠ extraSealSize ∨
        vote.extra.head? ≠ some ConsensusType.msgCommit.byte then some .invalidCommitSeal
    else if getUint (vote.extra.drop 1) ≠ uint64 commit.view.round then
      some .differentRoundCommitSeal
    else
      match vote.sender commit.digest with
      | none => some .invalidSignature
      | some commitSealSigner =>
        if commitSealSigner ≠ msgSender then some .differentCommitSeal
        else if c.current.subject.cmp commit then none
        else some .inconsistentSubject

def commitCounted : Core :=
  if c.valSet.twoThirdsMajority < c.current.commits.size ∧ c.state.cmp .committed = .lt then
    (c.lockHash b).commit b
  else if c.state.cmp .prepared = .lt ∧
      c.valSet.twoThirdsMajority < c.current.getPrepareOrCommitSize ∧
      !c.current.isHashLocked then
    ((c.lockHash b).setState b .prepared).sendCommit b
  else c

/-- `handleCommit`; the error of `acceptCommit` is not looked at. -/
def handleCommit (msg : Message) : Core × Option Err :=
  match msg.msg.decodeSubject with
  | none => (c, some .failedDecodeCommit)
  | some commit =>
    match c.checkMessage .msgCommit commit.view with
    | some err => (c, some err)
    | none =>
      match msg.sender with
      | none => (c, some .invalidSignature)
      | some sender =>
        match c.verifyCommit sender msg.committedSeal commit with
        | some err => (c, some err)
        | none =>
          let commits := (c.current.commits.add msg).1
          let c := { c with current := { c.current with commits := commits } }
          (c.commitCounted b, none)

def roundChangeCounted (round num : Nat) (src : Address) : Core :=
  if num = c.valSet.f + 1 ∧ src ≠ c.address then c.sendRoundChange b round
  else if c.valSet.twoThirdsMajority < num ∧ c.current.round < round then
    c.startNewRound b round
  else c

def handleRoundChange (msg : Message) (src : Address) : Core × Option Err :=
  match msg.msg.decodeSubject with
  | none => (c, some .invalidMessage)
  | some rc =>
    match c.checkMessage .msgRoundChange rc.view with
    | some err => (c, some err)
    | none =>
      match c.roundChangeSet.add rc.view.round msg with
      | (set, num, err) =>
        let c := { c with roundChangeSet := set }
        match err with
        | some err => (c, some err)
        | none => (c.roundChangeCounted b rc.view.round num src, none)

def handleCheckTx (msg : Message) : Core × Option Err :=
  if c.activated then (c, none)
  else
    match msg.msg.decodeSubject with
    | none => (c, some .failedDecodePrepare)
    | some prepare =>
      match c.checkMessage .msgCheckPendingTx prepare.view with
      | some err => (c, some err)
      | none => (c.refreshChainStatus b, none)

def handleByCode (msg : Message) (src : Address) : Core × Option Err :=
  match msg.code with
  | .msgPreprepare => c.handlePreprepare b msg src
  | .msgPrepare => c.handlePrepare b msg
  | .msgCommit => c.handleCommit b msg
  | .msgRoundChange => c.handleRoundChange b msg src
  | .msgCheckPendingTx => c.handleCheckTx b msg
  | .invalid _ => (c, some .invalidMessage)

def handleCheckedMsg (msg : Message) (src : Address) : Core :=
  match c.handleByCode b msg src with
  | (c, some .futureMessage) => c.storeBacklog msg
  | (c, some .futureUnitMessage) => c.storeBacklog msg
  | (c, _) => c

def verifyMsg (msg : Message) : Bool :=
  msg.sender.isSome && c.valSet.getByAddress msg.address

def handleMsg (msg : Message) : Core :=
  if msg.isMe then
    if c.valSet.getByAddress c.address then c.handleCheckedMsg b msg c.address else c
  else if c.verifyMsg msg then c.handleCheckedMsg b msg msg.address
  else c.emit (.disconnect msg)

/-- `handleRequest`, with `checkRequestMsg`. -/
def handleRequest (request : Request) : Core :=
  if c.current.sequence = request.proposal.unit.number then
    let c := { c with current := { c.current with pendingRequest := some request } }
    if c.state = .acceptRequest then c.sendPreprepare b request.proposal.unit else c
  else c

/-- The end of a timeout that has waited eleven times: `none` when the chain is released. -/
def remindPendingTx : Option Core :=
  if c.current.round = 0 then
    if c.state = .acceptRequest ∧ b.reBroadTx ≤ 0 ∧ !b.existTx then none
    else some (c.sendCheckPendingTx b)
  else some c

def forceRefresh : Core :=
  match c.refreshValidtors b none with
  | (c, none) => { c with roundChangeSet := RoundChangeSet.newRoundChangeSet c.valSet }
  | (c, some _) => c

def handleTimeout (rv : RoundView) : Core :=
  if rv.sequence < c.current.sequence ∨ rv.round < c.current.round ∨
      rv.deadLine < c.roundchangeResetTime then c
  else
    let c := { c with waitingTimes := uint64 (c.waitingTimes + 1) }
    if c.waitingForRoundChange ∧ c.waitingTimes % 11 = 0 then
      match c.remindPendingTx b with
      | none => c.disabledChain b
      | some c => c.sendNextRoundChange b
    else if c.waitingForRoundChange ∧ c.waitingTimes % 29 = 0 then
      match c.roundChangeSet.maxRound 1 with
      | some max => c.sendRoundChange b max
      | none => c.sendNextRoundChange b
    else if c.waitingForRoundChange ∧ c.waitingTimes % 47 = 0 then
      (c.forceRefresh b).sendNextRoundChange b
    else c.sendNextRoundChange b

def handleNewNumber (number : Nat) : Core :=
  if number < uint64 c.current.sequence then c
  else (c.startNewRound b 0).refreshChainStatus b

def handleEvent : Event → Core
  | .newNumber number => c.handleNewNumber b number
  | .newProposal request => c.handleRequest b request
  | .newMessage msg => c.handleMsg b msg
  | .newChangeRound rv => c.handleTimeout b rv
  | .newTx => if c.activated then c else c.refreshChainStatus b

/-- `Handle`. `prior` are the events that the nested calls take from `priorChan`, in the order they
run: each tests for a stopped chain before the first one has run. -/
def handle (prior : List (Backend × Event)) (ev : Backend × Event) : Core :=
  if c.chainAddress.empty then c
  else (prior ++ [ev]).foldl (fun c e => c.handleEvent e.1 e.2) c

end Core

/-- `New` and `Start`; nothing starts if the validators cannot be read. -/
def Core.start (config : Config) (address chainAddress : Address) (b : Backend) :
    Option Core :=
  if chainAddress.empty then none
  else
    match b.witnesses with
    | none => none
    | some list =>
      let vals := ValidatorSet.newDefaultSet config (b.tailHeader.number + 1) b.tailHeader.hash
        list chainAddress
      if vals.size = 0 then none
      else if vals.getByAddress address then
        let c : Core :=
          { config := config
            address := address
            chainAddress := chainAddress
            state := .acceptRequest
            valSet := vals.calcProposer b.tailHeader.proposer 0
            waitingForRoundChange := false
            waitingTimes := 0
            backlogs := []
            current := RoundState.newRoundState ⟨0, b.tailHeader.number + 1⟩ vals chainAddress
              none none none
            roundChangeSet := RoundChangeSet.newRoundChangeSet vals
            activated := false
            roundchangeResetTime := b.now
            lockHashes := none
            tail := b.tailHeader
            panicked := false
            log := [.stopTimer] }
        some (c.refreshChainStatus b)
      else none

end Nerthus.Bft
