import Nerthus.Common.Types

/-!
# Transactions, units and receipts

The data of `core/types` that the processing of a transaction reads, and the errors of
the processing.
-/

namespace Nerthus.Core

abbrev Bytes := List UInt8

inductive TxAction where
  | transferPayment
  | transferReceipt
  | contractFreeze
  | contractDeal
  | powTxContractDeal
  | scIdleContractDeal
  | contractRefund
  | contractReceipt
deriving DecidableEq

scoped instance lawfulBEqBytes : LawfulBEq Bytes := inferInstance

scoped instance lawfulBEqMark : LawfulBEq (Address × TxAction) := inferInstance

namespace TxAction

def isDeal : TxAction → Bool
  | contractDeal | powTxContractDeal | scIdleContractDeal => true
  | _ => false

def isDebit : TxAction → Bool
  | transferPayment | contractFreeze => true
  | _ => false

def isCredit : TxAction → Bool
  | transferReceipt | contractReceipt | contractRefund => true
  | _ => false

def marked (a : TxAction) : TxAction := if a.isDeal then contractDeal else a

theorem of_isDeal {a : TxAction} (h : a.isDeal = true) : a.isDebit = false ∧ a.isCredit = false := by
  cases a <;> first | exact ⟨rfl, rfl⟩ | cases h

theorem of_isCredit {a : TxAction} (h : a.isCredit = true) : a.isDebit = false ∧ a.isDeal = false := by
  cases a <;> first | exact ⟨rfl, rfl⟩ | cases h

end TxAction

structure UnitID where
  chainID : Address
  height : Nat
  hash : Hash
deriving DecidableEq

namespace UnitID

def isEmpty (id : UnitID) : Bool := id.height == 0 || id.chainID.empty || id.hash.emptyHash

def zero : UnitID := ⟨.emptyAddress, 0, .zero⟩

end UnitID

/-- `sender` is what the signature recovers to, never a contract; `senderAddr` what the transaction
says. -/
structure Transaction where
  sender : Address
  senderAddr : Address
  recipient : Address
  amount : Nat
  gas : Nat
  gasPrice : Nat
  data : Bytes
  time : Nat
  timeout : Nat
  seed : Nat
  size : Nat
  sender_external : sender.isContract = false
deriving DecidableEq

structure Coinflow where
  recipient : Address
  amount : Int
deriving DecidableEq

structure Receipt where
  action : TxAction
  preStep : UnitID
  failed : Bool
  gasUsed : Nat
  gasRemaining : Nat
  coinflows : List Coinflow
  output : Bytes
deriving DecidableEq

structure TransactionExec where
  action : TxAction
  preStep : UnitID
  hasTx : Bool
deriving DecidableEq

structure Header where
  mc : Address
  number : Nat
  hash : Hash
  timestamp : Nat
  proposer : Address
  gasLimit : Nat
  number_pos : 0 < number
deriving DecidableEq

inductive Err where
  | gasLimitReached
  | outOfGas
  | insufficientBalance
  | insufficientBalanceForGas (balance paygas : Nat)
  | executionReverted
  | unknownAncestor
  | invalidTx (text : String)
  | other (text : String)
deriving DecidableEq

def safeMul (x y : Nat) : Nat × Bool := (uint64 (x * y), decide (2 ^ 64 ≤ x * y))

def safeAdd (x y : Nat) : Nat × Bool := (uint64 (x + y), decide (2 ^ 64 ≤ x + y))

def forceSafeSub (x y : Nat) : Nat := x - y

theorem safeMul_eq {x y : Nat} (h : (safeMul x y).2 = false) : (safeMul x y).1 = x * y := by
  have hlt : x * y < 2 ^ 64 := by simpa [safeMul] using h
  exact uint64_of_lt hlt

theorem safeAdd_eq {x y : Nat} (h : (safeAdd x y).2 = false) : (safeAdd x y).1 = x + y := by
  have hlt : x + y < 2 ^ 64 := by simpa [safeAdd] using h
  exact uint64_of_lt hlt

end Nerthus.Core
