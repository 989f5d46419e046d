import Nerthus.Common.Params
import Nerthus.Core.StateProcessor
import Nerthus.Lib.Fuel

/-!
# The checks of a step before it is processed

The part of `ValidateBody` that looks at one `TransactionExec` of a unit, with
`VerifyTxBaseData` for a step that brings the transaction.
-/

namespace Nerthus.Core

def oneNumberHaveSecondBySys : Nat := 90

def defTxMinTimeout : Nat := Params.configParamsSCWitness * oneNumberHaveSecondBySys

def defTxMaxTimeout : Nat := 7 * 24 * 3600

def nanosecondsOf (seconds : Nat) : Nat := seconds * 1000000000

namespace Transaction

def expirationTime (tx : Transaction) : Int := int64 tx.time + nanosecondsOf tx.timeout

/-- `Expired`; a transaction with a proof of work is good for one hour. -/
def expired (tx : Transaction) (now : Nat) : Bool :=
  (decide (0 < tx.seed) && decide (uint64 (tx.time + nanosecondsOf 3600) < now)) ||
    (decide (0 < tx.timeout) && decide (tx.expirationTime < int64 now))

def isFuture (tx : Transaction) (now : Nat) : Bool :=
  decide ((nanosecondsOf 120 : Int) < int64 tx.time - int64 now)

def gasCostOverflows (tx : Transaction) : Bool := (safeMul tx.gasPrice tx.gas).2

end Transaction

/-- What `VerifyTxBaseData` reads of the unit and of the system chain. -/
structure TxLimits where
  now : Nat
  minGasPrice : Nat
  powDiff : Nat
  gasLimit : Nat

variable (env : Env)

def verifyGas (tx : Transaction) (limits : TxLimits) : Except Err Unit :=
  if env.isFreeTx tx then
    if tx.recipient ≠ env.scAccount then .error (.invalidTx "invalid pow seed")
    else if 0 < tx.gasPrice ∨ 0 < tx.gas then .error (.invalidTx "oversized gas limit")
    else if tx.amount ≠ 0 then .error (.invalidTx "invalid tx value,should be zero")
    else .ok ()
  else if tx.gas = 0 ∨ limits.gasLimit < tx.gas then .error (.invalidTx "oversized gas limit")
  else if tx.gasPrice < limits.minGasPrice then .error (.invalidTx "gas price too low")
  else if 0 < tx.seed then .error (.invalidTx "invalid pow seed")
  else if tx.gasCostOverflows then .error (.invalidTx "gas*price is overflow uint64")
  else .ok ()

def verifySeed (tx : Transaction) (limits : TxLimits) : Except Err Unit :=
  if tx.data.take 4 = funcApplyWitnessID ∨ tx.data.take 4 = funcReplaceWitnessID then
    if tx.recipient ≠ env.scAccount then .error (.invalidTx "invalid pow seed")
    else if tx.seed = 0 then .error (.invalidTx "invalid pow seed")
    else if env.verifyProofWork tx limits.powDiff then .ok ()
    else .error (.invalidTx "invalid pow seed")
  else if tx.seed ≠ 0 then .error (.invalidTx "invalid pow seed")
  else .ok ()

/-- `VerifyTxBaseData`, for the recovered sender. An amount is never negative here. -/
def verifyTxBaseData (tx : Transaction) (limits : TxLimits) : Except Err Bool := do
  if 32 * 1024 < tx.size then .error (.invalidTx "oversized data")
  else if tx.sender ≠ tx.senderAddr ∨ tx.sender.empty = true then
    .error (.invalidTx "invalid tx sender")
  else if tx.recipient.empty then .error (.invalidTx "empty receiver address")
  else if tx.timeout < defTxMinTimeout ∨ defTxMaxTimeout < tx.timeout then
    .error (.invalidTx "invalid time out set")
  else if tx.expired limits.now then .error (.invalidTx "transaction has expired")
  else if tx.isFuture limits.now then .error (.invalidTx "is future transaction")
  else
    verifyGas env tx limits
    verifySeed env tx limits
    .ok (env.isFreeTx tx)

/-- The unit that `PreStep` names is stored, and older. -/
def checkPreStep (dag : Dag) (header : Header) (preStep : UnitID) : Except Err Unit :=
  if preStep.isEmpty then .ok ()
  else
    match dag.stepAt preStep.hash with
    | none => .error .unknownAncestor
    | some s =>
      if s.header.mc ≠ preStep.chainID ∨ s.header.number ≠ preStep.height then
        .error (.other "invalid pre step")
      else if header.timestamp ≤ s.header.timestamp then
        .error (.other "timestamp %d must be greater than prestep's %d")
      else .ok ()

def checkTx (header : Header) (tx : Transaction) (minGasPrice powDiff : Nat) :
    Except Err Unit := do
  -- only a black unit is made by the public key
  if tx.sender = env.publicPrivateKeyAddr ∧ header.proposer ≠ env.publicPrivateKeyAddr then
    .error (.other "disable tx sender")
  else
    let _ ← verifyTxBaseData env tx ⟨header.timestamp, minGasPrice, powDiff, header.gasLimit⟩

/-- `ValidateBody`, for one step of a unit. -/
def validateExec (dag : Dag) (header : Header) (tx : Transaction) (exec : TransactionExec)
    (minGasPrice powDiff : Nat) : Except Err Unit := do
  if exec.preStep.isEmpty = false ∧ exec.hasTx = true then
    .error (.other "invalid source or tx field")
  else
    checkPreStep dag header exec.preStep
    if exec.hasTx then checkTx env header tx minGasPrice powDiff

theorem isFreeTx_of_freeGasAt {env : Env} {header : Header} {tx : Transaction}
    (h : freeGasAt env header tx ≠ 0) : env.isFreeTx tx = true := by
  have hfree : env.freeGas tx.recipient tx.data ≠ 0 := by
    intro h0
    unfold freeGasAt at h
    split at h
    · exact h h0
    · exact h rfl
  have hlen : ¬tx.data.length < 4 := by
    intro hlt
    apply hfree
    by_cases hr : tx.recipient ≠ env.scAccount
    · rw [Env.freeGas, if_pos hr]
    · rw [Env.freeGas, if_neg hr, if_pos hlt]
  have htake : (tx.data ++ List.replicate 4 0).take 4 = tx.data.take 4 :=
    List.take_append_of_le_length (by omega)
  have heq : env.freeGas tx.recipient ((tx.data ++ List.replicate 4 0).take 4) =
      env.freeGas tx.recipient tx.data := by
    unfold Env.freeGas
    rw [htake, List.take_take, List.length_take]
    simp only [min_self]
    have hlen' : ¬min 4 tx.data.length < 4 := by omega
    rw [if_neg hlen, if_neg hlen']
  rw [Env.isFreeTx, heq]
  exact decide_eq_true (Nat.pos_of_ne_zero hfree)

structure Verified (env : Env) (tx : Transaction) : Prop where
  sender_eq : tx.senderAddr = tx.sender
  free : ∀ header, tx.gasPrice = 0 ∨ freeGasAt env header tx = 0

theorem verified_of_verifyTxBaseData {env : Env} {tx : Transaction} {limits : TxLimits} {b : Bool}
    (h : verifyTxBaseData env tx limits = .ok b) : Verified env tx ∧ tx.sender.empty = false := by
  simp only [verifyTxBaseData, Lib.ite_eq_ok_iff, Lib.bind_eq_ok_iff] at h
  obtain ⟨-, hsender, -, -, -, -, _, hgas, -⟩ := h
  push Not at hsender
  refine ⟨⟨hsender.1.symm, fun header => ?_⟩, by simpa using hsender.2⟩
  by_cases hfree : freeGasAt env header tx = 0
  · exact .inr hfree
  left
  rw [verifyGas, if_pos (isFreeTx_of_freeGasAt hfree), Lib.ite_eq_ok_iff, Lib.ite_eq_ok_iff] at hgas
  omega

end Nerthus.Core
