import Nerthus.Core.UnitValidator
import Nerthus.Lib.Keyed

/-!
# The transaction pool

`tx_pool2.go`. A transaction that comes in is marked as being checked, is validated, and goes
into the pool; a free one also leaves a mark for its method and its sender. Remote transactions
may wait for room in the pool and for a worker.
-/

namespace Nerthus.TxPool

open Core (Bytes Transaction TxLimits)
open Lib (Keyed)

structure PoolTx where
  hash : Hash
  tx : Transaction
deriving DecidableEq

structure Mark where
  data4 : Bytes
  sender : Address
deriving DecidableEq

def data4 (tx : Transaction) : Bytes := (tx.data ++ List.replicate 4 0).take 4

def PoolTx.mark (t : PoolTx) : Mark := ⟨data4 t.tx, t.tx.senderAddr⟩

inductive PoolErr where
  | existsTxInTxPool
  | txChecking
  | invalidSig
  | disableSender
  | underpriced
  | existFreeTx
  | insufficientFunds
  | intrinsicGas
  | accountMissingWitness
  | txCompleted
  | baseData (err : Core.Err)
  | chain (text : String)
deriving DecidableEq

structure Config where
  env : Core.Env
  /-- `PendingTxLimit`; zero is no limit. -/
  pendingTxLimit : Nat
  /-- `gasPrice`: the lowest price of a remote transaction. -/
  gasPrice : Nat
  /-- `shardIndex` of `StringSet`. -/
  shardIndex : Hash → Nat

def defTxCheckingCacheLimit : Nat := 10000

structure Answers where
  /-- The key a full shard gives up: the first one in the order of the map. -/
  pick : List Hash → Hash
  signed : Bool
  now : Nat
  minGasPrice : Nat
  powDiff : Nat
  gasLimit : Nat
  /-- `uint64(float64(gasLimit) * 0.9)`, for the system chain. -/
  scGasLimit : Nat
  balance : Nat
  /-- `GetChainWitnessGroup` of the receiver. -/
  getChainWitnessGroup : Except PoolErr Unit
  /-- `GetTxNextAction`: the number of actions that are left. -/
  getTxNextAction : Except PoolErr Nat

structure Pool where
  pendingCount : Int
  all : Keyed PoolTx.hash
  /-- The hashes of the transactions that are being checked. -/
  checking : List Hash
  zeroFeePending : List Mark
  locals : List Address
  /-- Calls of `addRemote` that wait for room; whether they are synchronous. -/
  waiting : List (PoolTx × Bool)
  queue : List PoolTx

def newTxPool : Pool := ⟨0, .empty, [], [], [], [], []⟩

variable (conf : Config) (c : Answers) (p : Pool)

namespace Pool

/-- A transaction is being processed while its call waits for room or for a worker. -/
def Processing (h : Hash) : Prop :=
  h ∈ p.waiting.map (fun w => w.1.hash) ++ p.queue.map PoolTx.hash
deriving Decidable

def isFull : Bool :=
  decide (0 < conf.pendingTxLimit) && decide ((conf.pendingTxLimit : Int) ≤ p.pendingCount)

/-- `setChecking`; a full shard gives up one of its keys. -/
def setChecking (h : Hash) : Option Pool :=
  if h ∈ p.checking then none
  else
    let shard := p.checking.filter fun x => conf.shardIndex x = conf.shardIndex h
    let kept :=
      if shard.length = defTxCheckingCacheLimit then p.checking.filter fun x => x ≠ c.pick shard
      else p.checking
    some { p with checking := h :: kept }

def doneChecking (h : Hash) : Pool :=
  { p with checking := p.checking.filter fun x => x ≠ h }

def addPendingFreeTx (t : PoolTx) : Option Pool :=
  if t.mark ∈ p.zeroFeePending then none
  else some { p with zeroFeePending := t.mark :: p.zeroFeePending }

def donePendingFreeTx (t : PoolTx) : Pool :=
  { p with zeroFeePending := p.zeroFeePending.filter fun m => m ≠ t.mark }

end Pool

def checkAccountWitness (t : PoolTx) : Except PoolErr Unit :=
  if t.tx.recipient ≠ conf.env.scAccount ∧ t.tx.recipient ≠ t.tx.senderAddr then
    c.getChainWitnessGroup
  else .ok ()

/-- The checks of `ValidateTx` that follow the mark. -/
def checkProgress (t : PoolTx) (mock : Bool) : Except PoolErr Unit := do
  checkAccountWitness conf c t
  if mock then .ok ()
  else
    let nexts ← c.getTxNextAction
    if nexts = 0 then .error .txCompleted else .ok ()

def checkFunds (t : PoolTx) : Except PoolErr Unit :=
  if c.balance < t.tx.amount + t.tx.gasPrice * t.tx.gas then .error .insufficientFunds
  else if t.tx.gas < Core.intrinsicGas t.tx.data
      (conf.env.isCallCreateContractTx t.tx.recipient t.tx.data) then
    .error .intrinsicGas
  else .ok ()

def limits (t : PoolTx) : TxLimits :=
  ⟨c.now, c.minGasPrice, c.powDiff,
    if t.tx.recipient = conf.env.scAccount then c.scGasLimit else c.gasLimit⟩

/-- `ValidateTx`, for the recovered sender. The mark of a free transaction is taken back if a later
check fails. -/
def validateTx (isLocal : Bool) (t : PoolTx) (mock : Bool) :
    Pool × Option PoolErr :=
  if t.tx.sender = conf.env.publicPrivateKeyAddr then (p, some .disableSender)
  else
    match Core.verifyTxBaseData conf.env t.tx (limits conf c t) with
    | .error err => (p, some (.baseData err))
    | .ok isFreeTx =>
      if ¬(isLocal = true ∨ t.tx.senderAddr ∈ p.locals) ∧ t.tx.gasPrice < conf.gasPrice ∧
          isFreeTx = false then
        (p, some .underpriced)
      else if isFreeTx then
        match p.addPendingFreeTx t with
        | none => (p, some .existFreeTx)
        | some p =>
          match checkProgress conf c t mock with
          | .error err => (p.donePendingFreeTx t, some err)
          | .ok _ => (p, none)
      else
        match checkFunds conf c t with
        | .error err => (p, some err)
        | .ok _ =>
          match checkProgress conf c t mock with
          | .error err => (p, some err)
          | .ok _ => (p, none)

/-- `addTx` between the check for a local transaction and its return. -/
def validateAndPut (isLocal : Bool) (t : PoolTx) :
    Pool × Option PoolErr :=
  if c.signed = false ∨ t.tx.sender ≠ t.tx.senderAddr then (p, some .invalidSig)
  else
    match validateTx conf c p isLocal t false with
    | (p, some err) => (p, some err)
    | (p, none) =>
      ({ p with
          all := p.all.put t
          pendingCount := p.pendingCount + 1
          locals := if isLocal then t.tx.sender :: p.locals else p.locals }, none)

def tryTx (isLocal : Bool) (t : PoolTx) :
    Pool × Option PoolErr :=
  if (p.all.get t.hash).isSome then (p, some .existsTxInTxPool)
  else if isLocal then
    match p.setChecking conf c t.hash with
    | none => (p, some .txChecking)
    | some p => validateAndPut conf c p isLocal t
  else validateAndPut conf c p isLocal t

/-- `addTx`; the deferred call takes the transaction out of `checking` on every return. -/
def addTx (isLocal : Bool) (t : PoolTx) :
    Pool × Option PoolErr :=
  let r := tryTx conf c p isLocal t
  (r.1.doneChecking t.hash, r.2)

/-- `addTxs` and the loop of `AddRemotesTxpipe`: up to the first error. -/
def addUntilErr (add : Answers → Pool → PoolTx → Pool × Option PoolErr) :
    Pool → List (Answers × PoolTx) → Pool
  | p, [] => p
  | p, (c, t) :: rest =>
    match add c p t with
    | (p, some _) => p
    | (p, none) => addUntilErr add p rest

/-- `addRemote`, up to the point where it waits or returns. -/
def addRemote (t : PoolTx) (sync needWait : Bool) :
    Pool × Option PoolErr :=
  match p.setChecking conf c t.hash with
  | none => (p, none)
  | some p =>
    if p.isFull conf then
      if needWait then ({ p with waiting := p.waiting ++ [(t, sync)] }, none) else (p, none)
    else if sync then addTx conf c p false t
    else ({ p with queue := p.queue ++ [t] }, none)

/-- A waiting call of `addRemote` sees room in the pool and goes on. -/
def resume (i : Nat) : Pool :=
  match p.waiting[i]? with
  | none => p
  | some (t, sync) =>
    if p.isFull conf then p
    else
      let p := { p with waiting := p.waiting.eraseIdx i }
      if sync then (addTx conf c p false t).1 else { p with queue := p.queue ++ [t] }

def pushTx (i : Nat) : Pool :=
  match p.queue[i]? with
  | none => p
  | some t => (addTx conf c { p with queue := p.queue.eraseIdx i } false t).1

def remove (h : Hash) : Pool :=
  match p.all.get h with
  | none => p
  | some t =>
    let p := { p with pendingCount := p.pendingCount - 1, all := p.all.erase h }
    if conf.env.isFreeTx t.tx then p.donePendingFreeTx t else p

inductive Step where
  | addLocal (c : Answers) (t : PoolTx)
  | addLocals (txs : List (Answers × PoolTx))
  | addRemote (c : Answers) (t : PoolTx)
  | addRemoteSync (c : Answers) (t : PoolTx)
  | addRemotesTxpipe (txs : List (Answers × PoolTx))
  | resume (c : Answers) (i : Nat)
  | pushTx (c : Answers) (i : Nat)
  | remove (h : Hash)

def step : Step → Pool
  | .addLocal c t => (addTx conf c p true t).1
  | .addLocals txs => addUntilErr (fun c p t => addTx conf c p true t) p txs
  | .addRemote c t => (addRemote conf c p t false true).1
  | .addRemoteSync c t => (addRemote conf c p t true true).1
  | .addRemotesTxpipe txs => addUntilErr (fun c p t => addRemote conf c p t true false) p txs
  | .resume c i => resume conf c p i
  | .pushTx c i => pushTx conf c p i
  | .remove h => remove conf p h

def run (conf : Config) (p : Pool) : List Step → Pool
  | [] => p
  | s :: rest => run conf (step conf p s) rest

end Nerthus.TxPool
