import Nerthus.Core.Conservation
import Nerthus.Core.GasPool

/-!
# The processing of a unit

`StateProcessor.Process`: the steps of a unit are executed one after the other on the
state of the chain and on one gas pool. The steps belong to different transactions, so the
state keeps the marks and the logs of all of them.
-/

namespace Nerthus.Core

open Lib

structure Log where
  address : Address
  topics : List Hash
  data : Bytes
deriving DecidableEq

/-- `TransactionExec` as a unit holds it. -/
structure TxExec where
  action : TxAction
  preStep : UnitID
  txHash : Hash
  tx : Option Transaction
deriving DecidableEq

def TxExec.step (e : TxExec) : TransactionExec := ⟨e.action, e.preStep, e.tx.isSome⟩

structure UnitReceipt where
  result : Receipt
  txHash : Hash
  cumulativeGasUsed : Nat
  logs : List Log
  bloom : Nat
deriving DecidableEq

structure Bloom9 where
  address : Address → Nat
  topic : Hash → Nat

def logsBloom (bloom9 : Bloom9) (logs : List Log) : Nat :=
  logs.foldl (fun bin log =>
    log.topics.foldl (fun bin t => bin ||| bloom9.topic t) (bin ||| bloom9.address log.address)) 0

def createBloom (bloom9 : Bloom9) (receipts : List UnitReceipt) : Nat :=
  receipts.foldl (fun bin r => bin ||| logsBloom bloom9 r.logs) 0

structure ChainState (σ : Type) where
  accounts : Accounts
  trie : List Address
  marks : Hash → List (Address × TxAction)
  storage : σ
  logs : Hash → List Log

def ChainState.stateDB {σ : Type} (s : ChainState σ) (txHash : Hash) : StateDB :=
  ⟨s.accounts, s.trie, s.marks txHash⟩

structure Store where
  getTransaction : Hash → Option Transaction
  steps : Hash → List StoredStep
  /-- `GetStoppedChainFlag`. -/
  stopped : Address → Nat

def Store.dag (store : Store) (txHash : Hash) : Dag :=
  ⟨(store.getTransaction txHash).isSome, store.steps txHash⟩

def Store.queryOriginTx (store : Store) (e : TxExec) : Except Err Transaction :=
  match e.tx with
  | some tx => .ok tx
  | none =>
    match store.getTransaction e.txHash with
    | some tx => .ok tx
    | none => .error (.other "missing tx %s")

/-- The virtual machine in the unit: what it does with the accounts, leaves in the storage and adds
to the logs. -/
structure Evm (σ : Type) where
  machine : Transaction → σ → Machine
  effect : Transaction → TransactionExec → StateDB → σ → σ × List Log

structure Context (σ : Type) where
  env : Env
  store : Store
  evm : Evm σ
  bloom9 : Bloom9

namespace Context

variable {σ : Type} (c : Context σ) (header : Header) (s : ChainState σ)

def effectOf (tx : Transaction) (e : TxExec) : σ × List Log :=
  if e.action.isDeal then c.evm.effect tx e.step (s.stateDB e.txHash) s.storage else (s.storage, [])

def nextState (tx : Transaction) (e : TxExec) (db : StateDB) : ChainState σ where
  accounts := db.accounts
  trie := db.trie
  marks := Function.update s.marks e.txHash db.marks
  storage := (c.effectOf s tx e).1
  logs := Function.update s.logs e.txHash (s.logs e.txHash ++ (c.effectOf s tx e).2)

/-- The receipt in the unit; `GetLogs` finds all logs of the transaction. -/
def receiptOf (tx : Transaction) (e : TxExec) (total : Nat) (r : Receipt) :
    UnitReceipt :=
  let logs := s.logs e.txHash ++ (c.effectOf s tx e).2
  ⟨r, e.txHash, total + r.gasUsed, logs, logsBloom c.bloom9 logs⟩

/-- `ProcessTransaction` for a step of a unit. -/
def processExec (gasPool total : Nat) (e : TxExec) :
    Except Err (UnitReceipt × ChainState σ) := do
  let tx ← c.store.queryOriginTx e
  let (r, db) ← processTransaction c.env (c.evm.machine tx s.storage) c.store.stopped
    (c.store.dag e.txHash) header tx e.step (s.stateDB e.txHash) gasPool
  .ok (c.receiptOf s tx e total r, c.nextState s tx e db)

def poolAfter (gasPool : Nat) (e : TxExec) : Nat :=
  match c.store.queryOriginTx e with
  | .error _ => gasPool
  | .ok tx =>
    processPool c.env (c.evm.machine tx s.storage) c.store.stopped (c.store.dag e.txHash) header tx
      e.step (s.stateDB e.txHash) gasPool

end Context

structure Processed (σ : Type) where
  receipts : List UnitReceipt
  usedGas : Nat
  gasPool : Nat
  state : ChainState σ

namespace Context

variable {σ : Type} (c : Context σ) (header : Header) (s : ChainState σ)

def processFrom (s : ChainState σ) (gasPool total : Nat) :
    List TxExec → Except Err (Processed σ)
  | [] => .ok ⟨[], total, gasPool, s⟩
  | e :: txs => do
    let (r, s') ← c.processExec header s gasPool total e
    let out ← processFrom s' (c.poolAfter header s gasPool e) (total + r.result.gasUsed) txs
    .ok { out with receipts := r :: out.receipts }

/-- `Process`; the gas used is no more than the gas limit, so it fits into 64 bits. -/
def process (txs : List TxExec) : Except Err (Processed σ) :=
  c.processFrom header s header.gasLimit 0 txs

def gasSum (receipts : List UnitReceipt) : Nat := (receipts.map fun r => r.result.gasUsed).sum

def Settles (e : TxExec) (gasPool : Nat) : Prop :=
  ∀ tx, c.store.queryOriginTx e = .ok tx →
    Core.Settles c.env (c.evm.machine tx s.storage) (c.store.dag e.txHash) header tx e.step
      (s.stateDB e.txHash) gasPool

/-- Every step settles in the state and on the pool that the steps before it leave. -/
def SettleFrom (s : ChainState σ) (gasPool total : Nat) : List TxExec → Prop
  | [] => True
  | e :: txs => c.Settles header s e gasPool ∧
    ∀ r s', c.processExec header s gasPool total e = .ok (r, s') →
      SettleFrom s' (c.poolAfter header s gasPool e) (total + r.result.gasUsed) txs

def requiredGas (e : TxExec) : Nat :=
  match c.store.queryOriginTx e with
  | .error _ => 0
  | .ok tx => Core.requiredGas c.env (c.store.dag e.txHash) header tx e.step

end Context

section Step

variable {σ : Type} {c : Context σ} {header : Header} {s s' : ChainState σ}
  {gasPool total : Nat} {e : TxExec} {r : UnitReceipt}

theorem processExec_eq_ok (h : c.processExec header s gasPool total e = .ok (r, s')) :
    ∃ tx receipt db, c.store.queryOriginTx e = .ok tx ∧
      processTransaction c.env (c.evm.machine tx s.storage) c.store.stopped (c.store.dag e.txHash)
        header tx e.step (s.stateDB e.txHash) gasPool = .ok (receipt, db) ∧
      r = c.receiptOf s tx e total receipt ∧ s' = c.nextState s tx e db := by
  obtain ⟨tx, hquery, h⟩ := bind_eq_ok_iff.mp h
  obtain ⟨⟨receipt, db⟩, hprocess, h⟩ := bind_eq_ok_iff.mp h
  obtain ⟨hr, hs⟩ := Prod.mk.inj (Except.ok.inj h)
  exact ⟨tx, receipt, db, hquery, hprocess, hr.symm, hs.symm⟩

theorem poolAfter_eq {tx : Transaction} {receipt : Receipt} {db : StateDB}
    (hquery : c.store.queryOriginTx e = .ok tx)
    (hprocess : processTransaction c.env (c.evm.machine tx s.storage) c.store.stopped
      (c.store.dag e.txHash) header tx e.step (s.stateDB e.txHash) gasPool = .ok (receipt, db)) :
    c.poolAfter header s gasPool e =
      applyPool c.env (c.evm.machine tx s.storage) (c.store.dag e.txHash) header tx e.step
        (s.stateDB e.txHash) gasPool := by
  obtain ⟨horigin, hrunning, -⟩ := processTransaction_eq_ok hprocess
  rw [Context.poolAfter, hquery]
  exact processPool_eq horigin hrunning

theorem processExec_drains (c : Context σ) (header : Header) (s : ChainState σ) (total : Nat)
    (e : TxExec) : Lib.Drains .gasLimitReached (c.Settles header s e) (c.requiredGas header e)
      (fun r => r.1.result.gasUsed) fun p =>
        (c.poolAfter header s p e, c.processExec header s p total e) := by
  unfold Context.poolAfter Context.processExec Context.requiredGas Context.Settles
  cases hquery : c.store.queryOriginTx e with
  | error err =>
    refine .of_error (fun _ => rfl) ?_
    unfold Store.queryOriginTx at hquery
    split at hquery
    · cases hquery
    split at hquery <;> cases hquery
    nofun
  | ok tx =>
    simp only [Except.ok.injEq, forall_eq']
    refine (processTransaction_drains c.env (c.evm.machine tx s.storage) c.store.stopped
      (c.store.dag e.txHash) header tx e.step (s.stateDB e.txHash)).map
      (fun r => (c.receiptOf s tx e total r.1, c.nextState s tx e r.2)) (fun _ => rfl) fun p => ?_
    dsimp only [bind, Except.bind]
    rcases processTransaction c.env (c.evm.machine tx s.storage) c.store.stopped
      (c.store.dag e.txHash) header tx e.step (s.stateDB e.txHash) p with _ | _ <;> rfl

end Step

/-- No balance is above the one that was read last, so no change of balances is a gain. -/
def StateDB.Settled (db : StateDB) : Prop := ∀ a, db.getBalance a ≤ db.initOf a

section Settled

variable {db db' : StateDB}

theorem StateDB.Settled.setBalance_zero (h : db.Settled) (a : Address) :
    (db.setBalance a 0).Settled := by
  intro b
  rw [StateDB.initOf_setBalance]
  by_cases hb : b = a
  · rw [hb, StateDB.getBalance_setBalance_self]
    exact Nat.zero_le _
  · rw [StateDB.getBalance_setBalance_of_ne hb]
    exact h b

theorem StateDB.settled_resetChanges (db : StateDB) : db.resetChanges.Settled := by
  intro a
  simp only [StateDB.getBalance, StateDB.initOf, StateDB.resetChanges, Ledger.share,
    Ledger.get?_update]
  cases db.accounts.get? a <;> exact Nat.le_refl _

theorem settled_receiptState {header : Header} {failed : Bool} :
    (receiptState header db failed).Settled := by
  unfold receiptState
  split
  · unfold StateDB.clearForeign
    refine List.foldlRecOn _ _ db.settled_resetChanges fun db₁ h a _ => ?_
    split
    · exact h
    · unfold StateDB.suicide
      split
      · exact h
      · exact h.setBalance_zero a
  · exact db.settled_resetChanges

theorem applyAction_settled {env : Env} {vm : Machine} {dag : Dag} {header : Header}
    {tx : Transaction} {exec : TransactionExec} {gasPool : Nat} {receipt : Receipt}
    (h : applyAction env vm dag header tx exec db gasPool = .ok (receipt, db')) : db'.Settled := by
  unfold applyAction at h
  cases haction : exec.action with
  | transferPayment =>
    simp only [haction, applyPayment, ite_eq_ok_iff, bind_eq_ok_iff] at h
    obtain ⟨-, _, -, o, -, h⟩ := h
    cases h
    exact settled_receiptState
  | contractFreeze =>
    simp only [haction, applyFreeze, ite_eq_ok_iff, bind_eq_ok_iff] at h
    obtain ⟨-, _, -, b, -, -, h⟩ := h
    cases h
    exact settled_receiptState
  | transferReceipt =>
    simp only [haction, applyReceive, ite_eq_ok_iff, bind_eq_ok_iff] at h
    obtain ⟨-, -, _, -, info, -, -, h⟩ := h
    cases h
    exact settled_receiptState
  | contractRefund =>
    simp only [haction, applyRefund, ite_eq_ok_iff, bind_eq_ok_iff] at h
    obtain ⟨-, _, -, info, -, h⟩ := h
    cases h
    exact settled_receiptState
  | contractReceipt =>
    simp only [haction, actionContractReceipt, ite_eq_ok_iff, bind_eq_ok_iff] at h
    obtain ⟨info, -, -, -, _, -, -, h⟩ := h
    cases h
    exact settled_receiptState
  | contractDeal | powTxContractDeal | scIdleContractDeal =>
    simp only [haction, applyToContract, ite_eq_ok_iff, bind_eq_ok_iff] at h
    obtain ⟨-, _, -, gasRemaining, -, h⟩ := h
    obtain ⟨used, -, hfailed | ⟨pool, hdeal⟩⟩ := applyToContractAt_eq_ok h
    · cases hfailed
      exact settled_receiptState
    · obtain ⟨_, o, _, -, -, -, rfl⟩ := executeDeal_eq_ok hdeal
      exact settled_receiptState.setBalance_zero tx.sender

end Settled

section Unit

variable {σ : Type} {c : Context σ} {header : Header} {s : ChainState σ}
  {gasPool total : Nat} {txs : List TxExec} {out : Processed σ}

theorem processFrom_gas (h : c.processFrom header s gasPool total txs = .ok out) :
    out.usedGas = total + Context.gasSum out.receipts ∧
      out.gasPool + out.usedGas ≤ gasPool + total ∧
      (out.gasPool + out.usedGas = gasPool + total ↔ c.SettleFrom header s gasPool total txs) := by
  induction txs generalizing s gasPool total out with
  | nil =>
    cases h
    exact ⟨rfl, Nat.le_refl _, iff_of_true rfl trivial⟩
  | cons e txs ih =>
    obtain ⟨⟨r, s'⟩, hstep, h⟩ := bind_eq_ok_iff.mp h
    obtain ⟨rest, hrest, h⟩ := bind_eq_ok_iff.mp h
    obtain rfl := (Except.ok.inj h).symm
    obtain ⟨hsum, hle, htail⟩ := ih hrest
    obtain ⟨hpool, hhead, -⟩ := (processExec_drains ..).spends _ _ hstep
    dsimp only at hsum hle htail hpool hhead ⊢
    refine ⟨?_, by omega, ?_⟩
    · rw [hsum, Context.gasSum, Context.gasSum, List.map_cons, List.sum_cons, Nat.add_assoc]
    · -- no step can give back what another one kept
      have hrun : c.SettleFrom header s gasPool total (e :: txs) ↔ c.Settles header s e gasPool ∧
          c.SettleFrom header s' (c.poolAfter header s gasPool e) (total + r.result.gasUsed) txs := by
        refine and_congr_right fun _ => ⟨fun h => h r s' hstep, ?_⟩
        rintro h r₁ s₁ h₁
        obtain ⟨rfl, rfl⟩ := Prod.mk.inj (Except.ok.inj (hstep.symm.trans h₁))
        exact h
      rw [hrun, ← hhead, ← htail]
      omega

theorem processFrom_concat {e : TxExec} {r : UnitReceipt} {s' : ChainState σ}
    (h : c.processFrom header s gasPool total txs = .ok out)
    (hstep : c.processExec header out.state out.gasPool out.usedGas e = .ok (r, s')) :
    c.processFrom header s gasPool total (txs ++ [e]) =
      .ok ⟨out.receipts ++ [r], out.usedGas + r.result.gasUsed,
        c.poolAfter header out.state out.gasPool e, s'⟩ := by
  induction txs generalizing s gasPool total out with
  | nil =>
    cases h
    exact bind_eq_ok_iff.mpr ⟨_, hstep, bind_eq_ok_iff.mpr ⟨_, rfl, rfl⟩⟩
  | cons e' txs ih =>
    obtain ⟨⟨r', s''⟩, hfirst, h⟩ := bind_eq_ok_iff.mp h
    obtain ⟨rest, hrest, h⟩ := bind_eq_ok_iff.mp h
    obtain rfl := (Except.ok.inj h).symm
    exact bind_eq_ok_iff.mpr ⟨_, hfirst, bind_eq_ok_iff.mpr ⟨_, ih hrest hstep, rfl⟩⟩

/-- An accepted unit leaves all balances as they were read (`Step.settled`). -/
theorem processFrom_settled (h : c.processFrom header s gasPool total txs = .ok out)
    (hs : ∀ a, s.accounts.share balanceOf a ≤ s.accounts.share initBalanceOf a) (a : Address) :
    out.state.accounts.share balanceOf a ≤ out.state.accounts.share initBalanceOf a := by
  induction txs generalizing s gasPool total out with
  | nil =>
    cases h
    exact hs a
  | cons e txs ih =>
    obtain ⟨⟨r, s'⟩, hstep, h⟩ := bind_eq_ok_iff.mp h
    obtain ⟨rest, hrest, h⟩ := bind_eq_ok_iff.mp h
    obtain rfl := (Except.ok.inj h).symm
    obtain ⟨tx, receipt, db, -, hprocess, -, rfl⟩ := processExec_eq_ok hstep
    have hdb : db.Settled := applyAction_settled (processTransaction_eq_ok hprocess).2.2
    exact @ih (c.nextState s tx e db) _ _ rest hrest hdb

theorem processFrom_hash (uhash : Hash) :
    c.processFrom { header with hash := uhash } s gasPool total txs =
      c.processFrom header s gasPool total txs := by
  have hexec : ∀ (s : ChainState σ) gasPool total e,
      c.processExec { header with hash := uhash } s gasPool total e =
        c.processExec header s gasPool total e := fun _ _ _ _ => rfl
  have hpool : ∀ (s : ChainState σ) gasPool e,
      c.poolAfter { header with hash := uhash } s gasPool e =
        c.poolAfter header s gasPool e := fun _ _ _ => rfl
  induction txs generalizing s gasPool total with
  | nil => rfl
  | cons e txs ih =>
    simp only [Context.processFrom, hexec, hpool, ih]

end Unit

/-- The gas used is what the receipts say and within the limit. The pool is left with the rest just
if every step settles, and then no step that finds its gas there is rejected for the limit. -/
theorem process_gas {σ : Type} (c : Context σ) (header : Header) (s : ChainState σ)
    (txs : List TxExec) (out : Processed σ) (h : c.process header s txs = .ok out) :
    out.usedGas = Context.gasSum out.receipts ∧ out.usedGas ≤ header.gasLimit ∧
      (out.gasPool = header.gasLimit - out.usedGas ↔
        c.SettleFrom header s header.gasLimit 0 txs) ∧
      (c.SettleFrom header s header.gasLimit 0 txs →
        ∀ e, c.Settles header out.state e out.gasPool →
          c.requiredGas header e ≤ header.gasLimit - out.usedGas →
          c.processExec header out.state out.gasPool out.usedGas e ≠ .error .gasLimitReached) := by
  obtain ⟨hsum, hle, hsettled⟩ := processFrom_gas h
  have hrest : out.gasPool = header.gasLimit - out.usedGas ↔
      c.SettleFrom header s header.gasLimit 0 txs := by
    rw [← hsettled]
    omega
  refine ⟨by omega, by omega, hrest, fun hall e hsettles hfits hlimit => ?_⟩
  rw [← hrest.mpr hall] at hfits
  exact Nat.not_lt.mpr hfits ((processExec_drains ..).lt _ hsettles hlimit)

namespace Sample

def freezeHash : Hash := ⟨101⟩

def payHash : Hash := ⟨102⟩

def context : Context Unit where
  env := env
  store := ⟨fun _ => none, fun _ => [], fun _ => 0⟩
  evm := ⟨fun _ _ => forwarding recipient, fun _ _ _ _ => ((), [])⟩
  bloom9 := ⟨fun _ => 0, fun _ => 0⟩

def senderState : ChainState Unit where
  accounts := account sender 1000000
  trie := []
  marks _ := []
  storage := ()
  logs _ := []

def senderHeader (gasLimit : Nat) : Header := ⟨sender, 2, ⟨1⟩, 7, ⟨9⟩, gasLimit, Nat.two_pos⟩

def freezeExec : TxExec := ⟨.contractFreeze, .zero, freezeHash, some call⟩

def payExec : TxExec :=
  ⟨.transferPayment, .zero, payHash, some { payment with gas := 60000 }⟩

def nextExec : TxExec := { payExec with txHash := ⟨103⟩ }

def exactFreezeExec : TxExec := { freezeExec with tx := some { call with gas := 21000 } }

def refusing (left : VmCall → Nat) (hleft : ∀ c, left c ≤ c.gas) : Machine where
  run c acc := ⟨acc, [], left c, some .executionReverted, 0⟩
  conserves _ _ := rfl
  keeps _ _ _ _ _ := Nat.le_refl _
  pays _ _ _ := Nat.le_add_right _ _
  init_eq _ _ _ _ := rfl
  gas_le c _ := hleft c

def refusingContext : Context Unit :=
  { context with
    evm := ⟨fun _ _ => refusing (fun c => c.gas - 1000) fun _ => Nat.sub_le _ _,
      fun _ _ _ _ => ((), [])⟩ }

def createExec (h : Hash) : TxExec := ⟨.powTxContractDeal, .zero, h, some { call with
  recipient := scAccount, gas := 100000, data := funcCreateContract ++ [0x60, 0x60] }⟩

def systemState : ChainState Unit := { senderState with accounts := account scAccount 0 }

def systemHeader : Header := { senderHeader 102000 with mc := scAccount }

/-- A freeze that brings just its gas, a payment that gives back what it does not use, and creations
that fail at the attempt leave the rest. -/
theorem steps_addUp :
    (∃ out, context.process (senderHeader 102000) senderState [exactFreezeExec, payExec] = .ok out ∧
      out.usedGas = 42000 ∧ out.gasPool = 60000 ∧
      context.processExec (senderHeader 102000) out.state out.gasPool out.usedGas nextExec ≠
        .error .gasLimitReached) ∧
    ∃ out, refusingContext.process systemHeader systemState [createExec ⟨104⟩, createExec ⟨105⟩] =
        .ok out ∧ out.usedGas = 2000 ∧ out.gasPool = 100000 ∧
      refusingContext.SettleFrom systemHeader systemState systemHeader.gasLimit 0
        [createExec ⟨104⟩, createExec ⟨105⟩] := by
  refine ⟨⟨_, rfl, by decide +kernel, by decide +kernel, ?_⟩,
    _, rfl, by decide +kernel, by decide +kernel, ?_⟩
  · have hgas := process_gas context (senderHeader 102000) senderState [exactFreezeExec, payExec] _ rfl
    refine hgas.2.2.2 (hgas.2.2.1.mp (by decide +kernel)) nextExec ?_ (by decide +kernel)
    intro tx _
    exact trivial
  · exact (process_gas refusingContext systemHeader systemState _ _ rfl).2.2.1.mp (by decide +kernel)

/-- After a freeze that uses 21000 of 100000 the pool is short of 29000, and a payment that fits is
rejected. -/
theorem freeze_keeps_gas : ∃ out, context.process (senderHeader 100000) senderState [freezeExec] =
      .ok out ∧ Context.gasSum out.receipts = 21000 ∧ out.usedGas = 21000 ∧
    out.gasPool = 50000 ∧
    context.requiredGas (senderHeader 100000) payExec ≤ 100000 - out.usedGas ∧
    context.process (senderHeader 100000) senderState [freezeExec, payExec] =
      .error .gasLimitReached := by
  refine ⟨_, rfl, by decide +kernel, by decide +kernel, by decide +kernel, by decide +kernel, rfl⟩

end Sample

end Nerthus.Core
