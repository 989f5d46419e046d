import Nerthus.Core.StateDB

/-!
# The transition of a message

`core/state_transition.go`: gas is bought from the sender, the message is executed by
the virtual machine or is a plain transfer, and the gas that is left is given back. The
virtual machine is a parameter with what is documented of it.
-/

namespace Nerthus.Core

open Lib (Ledger)

def balanceOf (_ : Address) (obj : Account) : Nat := obj.balance

def initBalanceOf (_ : Address) (obj : Account) : Nat := obj.initBalance

/-- A call of `vm.CallContext`: `Call`, or `Create` with the code as input. -/
structure VmCall where
  create : Bool
  chain : Address
  number : Nat
  caller : Address
  callee : Address
  input : Bytes
  gas : Nat
  value : Nat

structure VmResult where
  accounts : Accounts
  ret : Bytes
  gas : Nat
  err : Option Err
  /-- `GetRefund` of the state after the call. -/
  refund : Nat

/-- The virtual machine moves balances and makes none; an account that is no contract loses nothing,
or, if it makes the call, no more than its value. -/
structure Machine where
  run : VmCall → Accounts → VmResult
  conserves : ∀ c acc, (run c acc).accounts.worth balanceOf = acc.worth balanceOf
  keeps : ∀ c acc a, a.isContract = false → a ≠ c.caller →
    acc.share balanceOf a ≤ (run c acc).accounts.share balanceOf a
  pays : ∀ c acc, c.caller.isContract = false →
    acc.share balanceOf c.caller ≤ (run c acc).accounts.share balanceOf c.caller + c.value
  init_eq : ∀ c acc a, a.isContract = false →
    (run c acc).accounts.share initBalanceOf a = acc.share initBalanceOf a
  gas_le : ∀ c acc, (run c acc).gas ≤ c.gas

/-- The accounts and functions of the program that are fixed. -/
structure Env where
  scAccount : Address
  scAccount_contract : scAccount.isContract = true
  publicPrivateKeyAddr : Address
  genesis : Accounts
  generateContractAddress : Address → Nat → Address
  /-- `GetContractOutput` of `FuncCreateContract`: the address of the new contract. -/
  createdContract : Bytes → Option Address
  verifyProofWork : Transaction → Nat → Bool

def txGas : Nat := 21000

def txGasContractCreation : Nat := 53000

def txDataZeroGas : Nat := 4

def txDataNonZeroGas : Nat := 68

def getGasByData (data : Bytes) : Nat :=
  let nz := data.countP (· ≠ 0)
  nz * txDataNonZeroGas + (data.length - nz) * txDataZeroGas

def intrinsicGas (data : Bytes) (contractCreation : Bool) : Nat :=
  (if contractCreation then txGasContractCreation else txGas) + getGasByData data

def funcCreateContract : Bytes := [0x09, 0xe4, 0x64, 0x64]

def funcReplaceWitnessID : Bytes := [0x6f, 0x41, 0x0b, 0xb7]

def funcApplyWitnessID : Bytes := [0x77, 0x8c, 0x2c, 0xad]

def freeFuncs : List Bytes :=
  [[0x9a, 0x42, 0xf1, 0x92], [0x6b, 0xb4, 0x3e, 0x01], funcReplaceWitnessID,
    [0xf0, 0x5b, 0x5c, 0xf3], funcApplyWitnessID, [0xd8, 0x1b, 0x74, 0x0e],
    [0xf8, 0x22, 0x63, 0xf5], [0xfd, 0x43, 0x22, 0xea]]

namespace Env

variable (env : Env)

def isCallCreateContractTx (recipient : Address) (input : Bytes) : Bool :=
  recipient == env.scAccount && input.take 4 == funcCreateContract

def freeGas (recipient : Address) (data : Bytes) : Nat :=
  if recipient ≠ env.scAccount then 0
  else if data.length < 4 then 0
  else if data.take 4 ∈ freeFuncs then 5000000 else 0

/-- `IsFreeTx`; `Data4` fills the data up to four bytes. -/
def isFreeTx (tx : Transaction) : Bool :=
  decide (0 < env.freeGas tx.recipient ((tx.data ++ List.replicate 4 0).take 4))

end Env

structure Bought where
  /-- `initialGas`. -/
  gas : Nat
  /-- `mgval`. -/
  cost : Nat
deriving DecidableEq

def chargedCost (mgval free price : Nat) : Nat :=
  if 0 < free then
    if mgval < uint64 (free * price) then 0 else mgval - uint64 (free * price)
  else mgval

/-- `buyGas`; what it takes from the gas pool is the gas that is bought. -/
def buyGas (db : StateDB) (sender : Address) (gas price free gasPool : Nat) : Except Err Bought :=
  if (safeMul gas price).2 then .error (.other "gas*price is overflow uint64")
  else if db.getBalance sender < chargedCost (safeMul gas price).1 free price then
    .error (.insufficientBalanceForGas (db.getBalance sender)
      (chargedCost (safeMul gas price).1 free price))
  else if gasPool < gas + free then .error .gasLimitReached
  else .ok ⟨gas + free, chargedCost (safeMul gas price).1 free price⟩

def stepGas (env : Env) (action : TxAction) (tx : Transaction) : Nat :=
  match action with
  | .scIdleContractDeal => intrinsicGas tx.data false
  | .contractFreeze | .transferPayment =>
    intrinsicGas tx.data (env.isCallCreateContractTx tx.recipient tx.data)
  | _ => 0

/-- `PreApplayMessage`: the gas bought and the gas left of it, with the gas pool. -/
def preApplyMessage (env : Env) (db : StateDB) (action : TxAction) (tx : Transaction)
    (gas free gasPool : Nat) : Nat × Except Err (Bought × Nat) :=
  match buyGas db tx.sender gas tx.gasPrice free gasPool with
  | .error e => (gasPool, .error e)
  | .ok bought =>
    if bought.gas < stepGas env action tx then (gasPool - bought.gas, .error .outOfGas)
    else (gasPool - bought.gas, .ok (bought, bought.gas - stepGas env action tx))

/-- On the system chain a creation is a call without value, on another it creates the contract. -/
def execute (env : Env) (vm : Machine) (header : Header) (tx : Transaction) (db : StateDB)
    (gas : Nat) : Except Err VmResult :=
  if env.isCallCreateContractTx tx.recipient tx.data then
    if header.mc = env.scAccount then
      .ok (vm.run ⟨false, header.mc, header.number, tx.sender, tx.recipient, tx.data, gas, 0⟩
        db.accounts)
    else
      .ok (vm.run ⟨true, header.mc, header.number, tx.sender, tx.recipient, tx.data.drop 4, gas,
        tx.amount⟩ db.accounts)
  else if tx.recipient.isContract then
    .ok (vm.run ⟨false, header.mc, header.number, tx.sender, tx.recipient, tx.data, gas, tx.amount⟩
      db.accounts)
  else if db.canTransfer tx.sender tx.amount then
    .ok ⟨(db.transfer tx.sender tx.recipient tx.amount).accounts, [], gas, none, 0⟩
  else .error .insufficientBalance

def payOutput (r : VmResult) : VmResult :=
  if r.err = none ∧ r.ret ≠ [] then
    if r.gas < getGasByData r.ret then { r with err := some .outOfGas }
    else { r with gas := r.gas - getGasByData r.ret }
  else r

/-- The gas left with the compensation, which is no more than half of the gas used. -/
def compensatedGas (initialGas gas refund : Nat) : Nat := gas + min ((initialGas - gas) / 2) refund

def calcRefundValue (initialGas gas free price : Nat) : Nat :=
  if initialGas - gas ≤ free then (initialGas - free) * price
  else (initialGas - free - (initialGas - gas - free)) * price

structure Outcome where
  db : StateDB
  output : Bytes
  gasUsed : Nat
  failed : Bool

/-- What is done after the execution: the gas left goes back to the sender and to the
gas pool. -/
def refundGas (db : StateDB) (tx : Transaction) (free : Nat) (bought : Bought) (r : VmResult)
    (gasPool : Nat) : Nat × Outcome :=
  let gas := compensatedGas bought.gas r.gas r.refund
  (gasPool + gas,
    ⟨({ db with accounts := r.accounts }).addBalance tx.sender
        (calcRefundValue bought.gas gas free tx.gasPrice),
      r.ret, bought.gas - gas, r.err.isSome⟩)

/-- The state in which a message is executed: the gas is paid, and the action marked. -/
def messageState (env : Env) (header : Header) (action : TxAction) (tx : Transaction)
    (db : StateDB) (cost : Nat) : StateDB :=
  let db := (db.subBalance tx.sender cost).setTxActionStateInChain header.mc action
  -- the first unit of a contract that is being created keeps its nonce
  if env.isCallCreateContractTx tx.recipient tx.data && decide (header.mc ≠ env.scAccount) &&
    decide (header.number = 1) then db
  else db.setNonce header.mc (db.getNonce header.mc + 1)

/-- `TransitionDb`. A payment has no virtual machine, and then nothing is free and nothing
compensated. -/
def transitionDb (env : Env) (vm : Machine) (header : Header) (action : TxAction)
    (tx : Transaction) (gas free : Nat) (db : StateDB) (gasPool : Nat) :
    Nat × Except Err Outcome :=
  match preApplyMessage env db action tx gas free gasPool with
  | (gasPool, .error e) => (gasPool, .error e)
  | (gasPool, .ok (bought, left)) =>
    let db := messageState env header action tx db bought.cost
    match execute env vm header tx db left with
    | .error e => (gasPool, .error e)
    | .ok r =>
      if (payOutput r).err = some .insufficientBalance then (gasPool, .error .insufficientBalance)
      else
        let (gasPool, o) := refundGas db tx free bought (payOutput r) gasPool
        (gasPool, .ok o)

/-- `NewStateTransition` looks up what is free on the system chain. -/
def freeGasAt (env : Env) (header : Header) (tx : Transaction) : Nat :=
  if header.mc = env.scAccount then env.freeGas tx.recipient tx.data else 0

end Nerthus.Core
