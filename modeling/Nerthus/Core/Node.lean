import Nerthus.Core.Process

/-!
# A node

A node with the transactions and steps that it has stored. Two steps of a unit that the
processing cannot tell apart may stand for each other: the receipts, the gas and the states
stay the same.
-/

namespace Nerthus.Core

open Lib

structure Node (σ : Type) extends Context σ where
  /-- `Transaction.Hash`. -/
  txHash : Transaction → Hash
  /-- A transaction of which a step is stored is itself stored. -/
  stored : ∀ tx, store.steps (txHash tx) ≠ [] → store.getTransaction (txHash tx) = some tx
  /-- Of a deal the virtual machine sees the previous step only; but an idle creation is not
  executed. -/
  effect_eq : ∀ tx (exec exec' : TransactionExec) db storage, exec'.preStep = exec.preStep →
    (env.isCallCreateContractTx tx.recipient tx.data = true →
      (exec'.action = .scIdleContractDeal ↔ exec.action = .scIdleContractDeal)) →
    evm.effect tx exec' db storage = evm.effect tx exec db storage
  /-- `IntermediateRoot`. -/
  stateRoot : ChainState σ → Hash
  /-- `DeriveSha` of the receipts. -/
  receiptRoot : List UnitReceipt → Hash

def Node.Replaces {σ : Type} (n : Node σ) (header : Header) (e e' : TxExec) : Prop :=
  ∀ (s : ChainState σ) (gasPool total : Nat) (r : UnitReceipt) (s' : ChainState σ),
    n.processExec header s gasPool total e = .ok (r, s') →
    n.processExec header s gasPool total e' = .ok (r, s') ∧
      n.poolAfter header s gasPool e' = n.poolAfter header s gasPool e

section Step

variable {env : Env} {vm : Machine} {stopped : Address → Nat} {dag : Dag} {header : Header}
  {tx : Transaction} {exec : TransactionExec} {db db' : StateDB} {gasPool : Nat}
  {receipt : Receipt}

theorem processTransaction_eq (hquery : dag.queryOriginTx exec = .ok ())
    (hrunning : exec.preStep.chainID.empty = true ∨
      checkChainIsStopped env stopped exec.preStep.chainID exec.preStep.height = .ok ()) :
    processTransaction env vm stopped dag header tx exec db gasPool =
      applyAction env vm dag header tx exec db gasPool := by
  unfold processTransaction
  rw [hquery]
  by_cases hempty : exec.preStep.chainID.empty = true
  · simp only [bind, Except.bind, if_pos hempty]
  · simp only [bind, Except.bind, if_neg hempty, hrunning.resolve_left hempty]

theorem dealGasRemaining_hasTx (hpre : exec.preStep.isEmpty = false) (b : Bool) :
    dealGasRemaining dag tx { exec with hasTx := b } = dealGasRemaining dag tx exec := by
  unfold dealGasRemaining
  simp only [hpre]
  rfl

theorem applyPool_of_isDeal (hdeal : exec.action.isDeal = true) :
    applyPool env vm dag header tx exec db gasPool = dealPool env vm dag header tx exec db gasPool := by
  rw [applyPool]
  cases haction : exec.action <;> rw [haction] at hdeal <;> first | rfl | cases hdeal

theorem apply_hasTx (hpre : exec.preStep.isEmpty = false) (b : Bool) :
    applyAction env vm dag header tx { exec with hasTx := b } db gasPool =
        applyAction env vm dag header tx exec db gasPool ∧
      applyPool env vm dag header tx { exec with hasTx := b } db gasPool =
        applyPool env vm dag header tx exec db gasPool := by
  by_cases hdeal : exec.action.isDeal = true
  · rw [applyAction_of_isDeal hdeal, applyAction_of_isDeal (by exact hdeal), applyPool_of_isDeal hdeal,
      applyPool_of_isDeal (by exact hdeal)]
    unfold applyToContract dealPool
    rw [dealGasRemaining_hasTx hpre]
    exact ⟨rfl, rfl⟩
  · obtain ⟨action, preStep, hasTx⟩ := exec
    cases action with
    | contractDeal | powTxContractDeal | scIdleContractDeal => exact absurd rfl hdeal
    | _ => exact ⟨rfl, rfl⟩

theorem steps_ne_nil_of_isCredit (hcredit : exec.action.isCredit = true)
    (h : applyAction env vm dag header tx exec db gasPool = .ok (receipt, db')) :
    dag.steps ≠ [] := by
  obtain ⟨r, hr, -⟩ := applyAction_credit hcredit h
  exact List.ne_nil_of_mem (mem_of_stepAt hr).1

theorem steps_ne_nil (hpre : exec.preStep.isEmpty = false) (hdebit : exec.action.isDebit = false)
    (h : applyAction env vm dag header tx exec db gasPool = .ok (receipt, db')) :
    dag.steps ≠ [] := by
  by_cases hcredit : exec.action.isCredit = true
  · exact steps_ne_nil_of_isCredit hcredit h
  by_cases hdeal : exec.action.isDeal = true
  · rw [applyAction_of_isDeal hdeal] at h
    simp only [applyToContract, ite_eq_ok_iff, bind_eq_ok_iff] at h
    obtain ⟨-, _, -, gasRemaining, hgas, -⟩ := h
    simp only [dealGasRemaining, hpre, Bool.false_eq_true, if_false] at hgas
    obtain ⟨info, hinfo, -⟩ := bind_eq_ok_iff.mp hgas
    obtain ⟨r, hr, -⟩ := getTxReceiptAtUnit_eq_ok hinfo
    exact List.ne_nil_of_mem (mem_of_stepAt hr).1
  · cases haction : exec.action <;> rw [haction] at hdebit hcredit hdeal <;>
      first | exact absurd rfl hcredit | exact absurd rfl hdeal | cases hdebit

end Step

namespace Node

variable {σ : Type} {n : Node σ} {header : Header} {s s' : ChainState σ} {gasPool total : Nat}
  {e e' : TxExec} {tx : Transaction} {r : UnitReceipt}

theorem dag_queryOriginTx (h : n.store.queryOriginTx e = .ok tx) :
    (n.store.dag e.txHash).queryOriginTx e.step = .ok () := by
  unfold Store.queryOriginTx at h
  unfold Dag.queryOriginTx Store.dag TxExec.step
  cases htx : e.tx with
  | some tx' => rfl
  | none =>
    rw [htx] at h
    cases hget : n.store.getTransaction e.txHash with
    | none => rw [hget] at h; cases h
    | some tx' => rfl

theorem effectOf_eq (hhash : e'.txHash = e.txHash) (hdeal : e'.action.isDeal = e.action.isDeal)
    (hpre : e.action.isDeal = true → e'.preStep = e.preStep)
    (hidle : n.env.isCallCreateContractTx tx.recipient tx.data = true →
      (e'.action = .scIdleContractDeal ↔ e.action = .scIdleContractDeal)) :
    n.effectOf s tx e' = n.effectOf s tx e := by
  unfold Context.effectOf
  rw [hdeal, hhash]
  by_cases h : e.action.isDeal = true
  · rw [if_pos h, if_pos h]
    exact n.effect_eq tx e.step e'.step _ _ (hpre h) hidle
  · rw [if_neg h, if_neg h]

theorem replaces_of (hhash : e'.txHash = e.txHash)
    (hpre : e'.preStep = e.preStep ∨ e'.preStep.chainID.empty = true)
    (h : ∀ (s : ChainState σ) (vm : Machine) (db db' : StateDB) (gasPool : Nat) (tx : Transaction)
      (receipt : Receipt), n.store.queryOriginTx e = .ok tx →
      applyAction n.env vm (n.store.dag e.txHash) header tx e.step db gasPool = .ok (receipt, db') →
      n.store.queryOriginTx e' = .ok tx ∧ n.effectOf s tx e' = n.effectOf s tx e ∧
        applyAction n.env vm (n.store.dag e.txHash) header tx e'.step db gasPool =
          .ok (receipt, db') ∧
        applyPool n.env vm (n.store.dag e.txHash) header tx e'.step db gasPool =
          applyPool n.env vm (n.store.dag e.txHash) header tx e.step db gasPool) :
    n.Replaces header e e' := by
  intro s gasPool total r s' hexec
  obtain ⟨tx, receipt, db, hquery, hprocess, rfl, rfl⟩ := processExec_eq_ok hexec
  obtain ⟨-, hrunning, happly⟩ := processTransaction_eq_ok hprocess
  obtain ⟨hquery', heffect, happly', hpool⟩ := h s _ _ db gasPool tx receipt hquery happly
  have hrunning' : e'.step.preStep.chainID.empty = true ∨
      checkChainIsStopped n.env n.store.stopped e'.step.preStep.chainID
        e'.step.preStep.height = .ok () := by
    rcases hpre with hpre | hempty
    · have hstep : e'.step.preStep = e.step.preStep := hpre
      rw [hstep]
      exact hrunning
    · exact .inl hempty
  have hprocess' : processTransaction n.env (n.evm.machine tx s.storage) n.store.stopped
      (n.store.dag e'.txHash) header tx e'.step (s.stateDB e'.txHash) gasPool =
        .ok (receipt, db) := by
    rw [processTransaction_eq (dag_queryOriginTx hquery') hrunning', hhash]
    exact happly'
  constructor
  · refine bind_eq_ok_iff.mpr ⟨tx, hquery', bind_eq_ok_iff.mpr ⟨_, hprocess', ?_⟩⟩
    simp only [Context.receiptOf, Context.nextState, heffect, hhash]
  · rw [poolAfter_eq hquery hprocess, poolAfter_eq hquery' hprocess', hhash]
    exact hpool

theorem replaces_none (htx : e.tx = some tx) (hhash : e.txHash = n.txHash tx)
    (hpre : e.preStep.isEmpty = false) (hdebit : e.action.isDebit = false) :
    n.Replaces header e { e with tx := none } := by
  refine replaces_of rfl (.inl rfl) fun s vm db db' gasPool tx' receipt hquery happly => ?_
  obtain rfl : tx = tx' := by
    rw [Store.queryOriginTx, htx] at hquery
    exact Except.ok.inj hquery
  have hknown : n.store.getTransaction e.txHash = some tx := by
    have hsteps := steps_ne_nil hpre hdebit happly
    rw [hhash] at hsteps ⊢
    exact n.stored tx hsteps
  have hpre' : e.step.preStep.isEmpty = false := hpre
  obtain ⟨hsame, hpool⟩ := apply_hasTx hpre' false
  refine ⟨?_, effectOf_eq rfl rfl (fun _ => rfl) (fun _ => Iff.rfl), hsame.trans happly, hpool⟩
  simp only [Store.queryOriginTx, hknown]

theorem processFrom_replaces {before after : List TxExec} {out : Processed σ}
    (hreplaces : n.Replaces header e e')
    (h : n.processFrom header s gasPool total (before ++ e :: after) = .ok out) :
    n.processFrom header s gasPool total (before ++ e' :: after) = .ok out := by
  induction before generalizing s gasPool total out with
  | nil =>
    obtain ⟨⟨r, s'⟩, hstep, h⟩ := bind_eq_ok_iff.mp h
    obtain ⟨hstep', hpool⟩ := hreplaces s gasPool total r s' hstep
    refine bind_eq_ok_iff.mpr ⟨_, hstep', ?_⟩
    rw [hpool]
    exact h
  | cons e₀ before ih =>
    obtain ⟨⟨r, s'⟩, hstep, h⟩ := bind_eq_ok_iff.mp h
    obtain ⟨rest, hrest, h⟩ := bind_eq_ok_iff.mp h
    exact bind_eq_ok_iff.mpr ⟨_, hstep, bind_eq_ok_iff.mpr ⟨rest, ih hrest, h⟩⟩

end Node

end Nerthus.Core
