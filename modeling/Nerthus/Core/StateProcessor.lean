import Nerthus.Core.StateTransition

/-!
# The processing of a step

`core/state_processor.go`: `ProcessTransaction` executes one step of a transaction on the
state of a chain and gives the receipt. A later step finds the receipts of the earlier
ones through its `PreStep`.
-/

namespace Nerthus.Core

structure StoredStep where
  header : Header
  exec : TransactionExec
  receipt : Receipt
deriving DecidableEq

structure Dag where
  known : Bool
  steps : List StoredStep

namespace Dag

def stepAt (dag : Dag) (uhash : Hash) : Option StoredStep :=
  dag.steps.find? fun s => s.header.hash = uhash

def getTxReceiptAtUnit (dag : Dag) (uhash : Hash) : Except Err Receipt :=
  match dag.stepAt uhash with
  | none => .error (.other "not found transactionExec")
  | some s => .ok s.receipt

def queryOriginTx (dag : Dag) (exec : TransactionExec) : Except Err Unit :=
  if exec.hasTx || dag.known then .ok () else .error (.other "missing tx %s")

end Dag

/-- Gains, and what became of the account to keep, but nothing of a contract on the chain. -/
def coinflowsOf (db : StateDB) (keepFlow : Option Address) (changes : List (Address × Int)) :
    List Coinflow :=
  changes.filterMap fun (a, diff) =>
    if diff ≤ 0 ∧ keepFlow ≠ some a then none
    else if a.isContract = true ∧ (db.getCodeHash a).emptyHash = false then none
    else some ⟨a, diff⟩

/-- The first unit of a chain takes the accounts of the others out of the genesis. -/
def receiptState (header : Header) (db : StateDB) (failed : Bool) : StateDB :=
  if !failed && decide (header.number = 1) then db.resetChanges.clearForeign header.mc
  else db.resetChanges

def createReceipt (preStep : UnitID) (header : Header) (db : StateDB) (action : TxAction)
    (output : Bytes) (failed : Bool) (remainingGas usedGas : Nat) (keepFlow : Option Address) :
    Receipt × StateDB :=
  (⟨action, preStep, failed, usedGas, forceSafeSub remainingGas usedGas,
    if failed then [] else coinflowsOf (receiptState header db failed) keepFlow db.balanceChanged,
    if failed then [] else output⟩, receiptState header db failed)

variable (env : Env) (vm : Machine) (stopped : Address → Nat) (dag : Dag) (header : Header)
  (tx : Transaction) (exec : TransactionExec)

def applyPayment (db : StateDB) (gasPool : Nat) : Except Err (Receipt × StateDB) := do
  if tx.recipient.isContract then
    .error (.other "does not allow payment to a contract address")
  else
    db.checkTxActionInChain header.mc .transferPayment
    let o ← (transitionDb env vm header .transferPayment tx tx.gas 0 db gasPool).2
    .ok (createReceipt .zero header o.db .transferPayment o.output o.failed tx.gas o.gasUsed none)

def applyFreeze (db : StateDB) (gasPool : Nat) : Except Err (Receipt × StateDB) := do
  if !(env.isCallCreateContractTx tx.recipient tx.data || tx.recipient.isContract) then
    .error (.other "freezing funds can only be used for contract transactions")
  else
    db.checkTxActionInChain header.mc .contractFreeze
    let db := db.setTxActionStateInChain header.mc .contractFreeze
    let (bought, left) ←
      (preApplyMessage env db .contractFreeze tx tx.gas (freeGasAt env header tx) gasPool).2
    if !db.canTransfer tx.sender (tx.gas * tx.gasPrice + tx.amount) then .error .insufficientBalance
    else
      let db := db.subBalance tx.sender (tx.gas * tx.gasPrice + tx.amount)
      let db := db.setNonce tx.sender (db.getNonce tx.sender + 1)
      .ok (createReceipt .zero header db .contractFreeze [] false tx.gas (bought.gas - left) none)

/-! ## Execution of a contract -/

/-- The sender's flow anew: the difference with the value and the fee is what the contract paid. -/
def adjustFlows (sender : Address) (spent : Int) : List Coinflow → List Coinflow
  | [] => []
  | v :: flows =>
    if v.recipient = sender then
      if v.amount + spent = 0 then flows else ⟨v.recipient, v.amount + spent⟩ :: flows
    else v :: adjustFlows sender spent flows

/-- A deal that is tried out before gives back its gas; without success all is charged. -/
def dealGas (failed : Bool) (gas refund : Nat) : Except Err Nat :=
  if failed = true ∧ refund ≠ 0 then
    if (safeAdd gas refund).2 then .error .outOfGas else .ok (safeAdd gas refund).1
  else .ok gas

def frozenState (db : StateDB) (tx : Transaction) (gasRemaining : Nat) : StateDB :=
  let initBalance := gasRemaining * tx.gasPrice + tx.amount
  ((db.setBalance tx.sender 0).addBalance tx.sender initBalance).resetInitBalance tx.sender
    initBalance

/-- The end of `applyToContract`: the sender has nothing left on the chain. -/
def dealReceipt (gasRemaining gas : Nat) (source : UnitID) (o : Outcome) : Receipt × StateDB :=
  let (receipt, db) := createReceipt source header o.db .contractDeal o.output o.failed gasRemaining
    gas (some tx.sender)
  let flows :=
    -- a contract that is created pays in the unit on its own chain
    if !o.failed && env.isCallCreateContractTx tx.recipient tx.data &&
      decide (header.mc = env.scAccount) then [] else receipt.coinflows
  ({ receipt with coinflows := adjustFlows tx.sender (tx.amount + tx.gasPrice * gas) flows },
    db.setBalance tx.sender 0)

/-- `applyToContract` after the attempt on the genesis; `gas` is what the message may
use. -/
def executeDeal (gasRemaining gas refund : Nat) (source : UnitID) (db : StateDB) (gasPool : Nat) :
    Nat × Except Err (Receipt × StateDB) :=
  match transitionDb env vm header .contractDeal tx gas (freeGasAt env header tx)
      (frozenState db tx gasRemaining) gasPool with
  | (gasPool, .error e) => (gasPool, .error e)
  | (gasPool, .ok o) =>
    -- a free transaction that fails at once is not taken into a unit
    if o.failed && source.isEmpty && env.isFreeTx tx then (gasPool, .error .executionReverted)
    else
      (gasPool, (dealGas o.failed o.gasUsed refund).map fun gas =>
        dealReceipt env header tx gasRemaining gas source o)

def checkIdle (currAction : TxAction) (mc : Address) (tx : Transaction) (gas : Nat) :
    Except Err Unit :=
  if currAction ≠ .scIdleContractDeal then .ok ()
  else if 0 < tx.amount then .error (.other "invalid scidle contract")
  else if tx.gasPrice ≠ 0 ∨ gas ≠ 0 then
    .error (.other "invalid tx gas or gas price when tx is free")
  else if mc ≠ env.scAccount then
    .error (.other "invalid  chain address when action is SCIdleContractDeal")
  else .ok ()

def genesisState (freeze : Nat) : StateDB :=
  let db : StateDB := ⟨env.genesis, env.genesis.entries.map Prod.fst, []⟩
  (db.setBalance tx.sender 0).addBalance tx.sender (freeze + tx.amount)

def newHeader (db : StateDB) : Header :=
  { header with
    mc := env.generateContractAddress header.mc (db.getNonce header.mc)
    number := 1
    number_pos := Nat.one_pos }

/-- The attempt to create the contract on the genesis. A new address is not the system's, so there
is no second attempt inside. -/
def tryCreate (gasRemaining : Nat) (currAction : TxAction) (source : UnitID) (db : StateDB)
    (freeze gasPool : Nat) : Nat × Except Err Receipt :=
  match checkIdle env currAction (newHeader env header db).mc tx gasRemaining with
  | .error e => (gasPool, .error e)
  | .ok () =>
    match executeDeal env vm (newHeader env header db) tx gasRemaining gasRemaining 0 source
        (genesisState env tx freeze) gasPool with
    | (gasPool, .error e) => (gasPool, .error e)
    | (gasPool, .ok (receipt, _)) => (gasPool, .ok receipt)

def failedReceipt (gasRemaining gasUsed : Nat) (source : UnitID) (db : StateDB) :
    Receipt × StateDB :=
  createReceipt source header db .contractDeal [] true gasRemaining gasUsed none

def applyToContractAt (gasRemaining : Nat) (currAction : TxAction) (source : UnitID) (db : StateDB)
    (gasPool : Nat) : Except Err (Receipt × StateDB) := do
  checkIdle env currAction header.mc tx gasRemaining
  if env.isCallCreateContractTx tx.recipient tx.data && decide (header.mc = env.scAccount) then
    if (safeMul gasRemaining tx.gasPrice).2 then .error .outOfGas
    else
      match tryCreate env vm header tx gasRemaining currAction source db
          (safeMul gasRemaining tx.gasPrice).1 gasPool with
      | (gasPool', .error e) =>
        if e = .gasLimitReached then .error e
        else if gasPool' < forceSafeSub gasPool gasPool' then .error .gasLimitReached
        else .ok (failedReceipt header gasRemaining (forceSafeSub gasPool gasPool') source db)
      | (gasPool', .ok r) =>
        if r.failed then .ok (failedReceipt header gasRemaining r.gasUsed source db)
        else
          (executeDeal env vm header tx gasRemaining (forceSafeSub gasRemaining r.gasUsed) r.gasUsed
            source db gasPool').2
  else (executeDeal env vm header tx gasRemaining gasRemaining 0 source db gasPool).2

def dealGasRemaining : Except Err Nat :=
  if exec.preStep.isEmpty then
    if !exec.hasTx then .error (.other "previous unit hash is empty") else .ok tx.gas
  else do
    let preExecInfo ← dag.getTxReceiptAtUnit exec.preStep.hash
    if preExecInfo.failed then .error (.other "previous tx action is failed,can't exec %s. tx %s")
    else .ok preExecInfo.gasRemaining

def applyToContract (db : StateDB) (gasPool : Nat) : Except Err (Receipt × StateDB) := do
  if !tx.recipient.isContract then
    .error (.other "applyToContract: only apply transaction about contract (create or call)")
  else
    db.checkTxActionInChain header.mc .contractDeal
    let gasRemaining ← dealGasRemaining dag tx exec
    applyToContractAt env vm header tx gasRemaining exec.action exec.preStep
      (db.setTxActionStateInChain header.mc .contractDeal) gasPool

def credit (action : TxAction) (gasRemaining : Nat) (db : StateDB) (a : Address) (amount : Nat) :
    Receipt × StateDB :=
  let db := (db.setTxActionStateInChain header.mc action).addBalance a amount
  let db := db.setNonce a (db.getNonce a + 1)
  createReceipt exec.preStep header db action [] false gasRemaining 0 none

def applyReceive (db : StateDB) : Except Err (Receipt × StateDB) := do
  if env.isCallCreateContractTx tx.recipient tx.data || tx.recipient.isContract ||
      decide (tx.recipient ≠ header.mc) then
    .error (.other "invalid receive address")
  else if tx.recipient = tx.sender then
    .error (.other "don't allow exec %s when transfer to yourself")
  else
    db.checkTxActionInChain header.mc .transferReceipt
    let preExecInfo ← dag.getTxReceiptAtUnit exec.preStep.hash
    if preExecInfo.failed then .error (.other "previous tx action is failed,can't exec %s. tx %s")
    else .ok (credit header exec .transferReceipt preExecInfo.gasRemaining db tx.recipient tx.amount)

def refundOf (preExecInfo : Receipt) : Nat :=
  preExecInfo.gasRemaining * tx.gasPrice + if preExecInfo.failed then tx.amount else 0

def applyRefund (db : StateDB) : Except Err (Receipt × StateDB) := do
  if header.mc ≠ tx.sender then .error (.other "invalid receive address")
  else
    db.checkTxActionInChain header.mc .contractRefund
    let preExecInfo ← dag.getTxReceiptAtUnit exec.preStep.hash
    .ok (credit header exec .contractRefund preExecInfo.gasRemaining db tx.sender
      (refundOf tx preExecInfo))

def flowsTo (a : Address) (flows : List Coinflow) : Int :=
  ((flows.filter fun v => v.recipient = a).map Coinflow.amount).sum

def actionContractReceipt (db : StateDB) : Except Err (Receipt × StateDB) := do
  let preExecInfo ← dag.getTxReceiptAtUnit exec.preStep.hash
  if preExecInfo.failed then .error (.other "previous tx action is failed,can't exec %s. tx %s")
  else if preExecInfo.coinflows.length = 0 then
    .error (.other "the result of coninflows in previous tx action is empty. tx %s")
  else
    db.checkTxActionInChain header.mc .contractReceipt
    if flowsTo header.mc preExecInfo.coinflows ≤ 0 then
      .error (.other
        "the result of coninflows in previous tx action does not include given address %s. tx %s")
    else
      .ok (credit header exec .contractReceipt preExecInfo.gasRemaining db header.mc
        (flowsTo header.mc preExecInfo.coinflows).toNat)

/-- `CheckChainIsStopped`; `stopped` is `GetStoppedChainFlag`, 0 for a chain that runs. -/
def checkChainIsStopped (chain : Address) (number : Nat) : Except Err Unit :=
  if chain = env.scAccount then .ok ()
  else if 0 < stopped chain ∧ stopped chain ≤ number then .error (.other "chain has stopped:%s(%d)")
  else .ok ()

/-- The switch of `ProcessTransaction` over the actions. -/
def applyAction (db : StateDB) (gasPool : Nat) : Except Err (Receipt × StateDB) :=
  match exec.action with
  | .transferPayment => applyPayment env vm header tx db gasPool
  | .contractFreeze => applyFreeze env header tx db gasPool
  | .contractDeal | .powTxContractDeal | .scIdleContractDeal =>
    applyToContract env vm dag header tx exec db gasPool
  | .transferReceipt => applyReceive env dag header tx exec db
  | .contractReceipt => actionContractReceipt dag header exec db
  | .contractRefund => applyRefund dag header tx exec db

def processTransaction (db : StateDB) (gasPool : Nat) : Except Err (Receipt × StateDB) := do
  dag.queryOriginTx exec
  if exec.preStep.chainID.empty then applyAction env vm dag header tx exec db gasPool
  else
    checkChainIsStopped env stopped exec.preStep.chainID exec.preStep.height
    applyAction env vm dag header tx exec db gasPool

end Nerthus.Core
