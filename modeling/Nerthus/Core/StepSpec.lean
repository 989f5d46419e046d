import Nerthus.Core.DealSpec

/-!
# What a step moves

A step that is stored promises amounts to the steps that follow it. It pays with what it takes
from the sender, what the contracts gave up and what was promised to it, for what it credits, for
its fee and for what it promises itself.
-/

namespace Nerthus.Core

open Lib (Vouchers)
open StateDB List Lib

namespace StoredStep

variable {env : Env} {tx : Transaction} {r : StoredStep} {c : Address}

def flowParts (r : StoredStep) : Vouchers (Address × TxAction) :=
  (r.receipt.coinflows.filter fun v => v.recipient ≠ r.header.mc).map
    fun v => ((v.recipient, .contractReceipt), v.amount.toNat)

def parts (env : Env) (tx : Transaction) (r : StoredStep) : Vouchers (Address × TxAction) :=
  match r.exec.action with
  | .transferPayment =>
    if r.receipt.failed || decide (tx.recipient = tx.senderAddr) then []
    else [((tx.recipient, .transferReceipt), tx.amount)]
  | .transferReceipt | .contractReceipt | .contractRefund | .powTxContractDeal => []
  | .contractFreeze =>
    [((tx.recipient, .contractDeal), r.receipt.gasRemaining * tx.gasPrice + tx.amount)]
  | .scIdleContractDeal => r.flowParts
  | .contractDeal =>
    if r.prepares env tx && !r.receipt.failed then
      match env.createdContract r.receipt.output with
      | none => []
      | some contract =>
        [((contract, .contractDeal), r.receipt.gasRemaining * tx.gasPrice + tx.amount)]
    else ((tx.senderAddr, .contractRefund), refundOf tx r.receipt) :: r.flowParts

theorem total_flowParts_le (r : StoredStep) : r.flowParts.total ≤ flowsTotal r.receipt.coinflows := by
  rw [flowParts, Vouchers.total, map_map]
  exact (filter_sublist.map _).sum_le_sum fun _ _ => Nat.zero_le _

theorem flowsTo_le_due (hc : c ≠ r.header.mc) :
    (flowsTo c r.receipt.coinflows).toNat ≤ Vouchers.due (c, .contractReceipt) r.flowParts := by
  rw [flowParts, flowsTo]
  induction r.receipt.coinflows with
  | nil => exact Nat.le_refl _
  | cons v flows ih =>
    by_cases hv : v.recipient = c
    · have hne : v.recipient ≠ r.header.mc := hv ▸ hc
      simp only [hv, hc, filter_cons, decide_true, if_true, ne_eq, not_false_eq_true,
        map_cons, sum_cons, Vouchers.due_cons] at ih ⊢
      omega
    · by_cases hmc : v.recipient = r.header.mc
      · simpa [hmc, Ne.symm hc, filter_cons] using ih
      · simpa [hv, hmc, filter_cons] using ih

theorem ne_of_mem_flowActions {a : TxAction} (h : (c, a) ∈ r.flowActions) :
    a = .contractReceipt ∧ c ≠ r.header.mc := by
  obtain ⟨v, hv, heq⟩ := mem_map.mp h
  obtain ⟨rfl, rfl⟩ := Prod.mk.inj heq
  exact ⟨rfl, by simpa using (mem_filter.mp hv).2⟩

theorem nextActions_cases {k : Address × TxAction} (h : k ∈ r.nextActions env tx) :
    (r.exec.action = .transferPayment ∧
      (r.receipt.failed || decide (tx.recipient = tx.senderAddr)) = false ∧
      k = (tx.recipient, .transferReceipt)) ∨
    (r.exec.action = .contractFreeze ∧ k = (tx.recipient, .contractDeal)) ∨
    (r.exec.action = .contractDeal ∧ (r.prepares env tx && !r.receipt.failed) = true ∧
      ∃ contract, env.createdContract r.receipt.output = some contract ∧
        k = (contract, .contractDeal)) ∨
    (r.exec.action = .contractDeal ∧ (r.prepares env tx && !r.receipt.failed) = false ∧
      k = (tx.senderAddr, .contractRefund)) ∨
    ((r.exec.action = .scIdleContractDeal ∨
        r.exec.action = .contractDeal ∧ (r.prepares env tx && !r.receipt.failed) = false) ∧
      k.2 = .contractReceipt ∧ k.1 ≠ r.header.mc) := by
  unfold nextActions at h
  cases haction : r.exec.action with
  | transferPayment =>
    simp only [haction] at h
    split at h
    · cases h
    · rename_i hnot
      exact .inl ⟨rfl, by simpa using hnot, mem_singleton.mp h⟩
  | contractFreeze =>
    simp only [haction] at h
    split at h
    · cases h
    split at h
    · rename_i hsc
      rw [← hsc.1] at h
      exact .inr (.inl ⟨rfl, mem_singleton.mp h⟩)
    · exact .inr (.inl ⟨rfl, mem_singleton.mp h⟩)
  | scIdleContractDeal =>
    simp only [haction] at h
    exact .inr (.inr (.inr (.inr ⟨.inl rfl, ne_of_mem_flowActions h⟩)))
  | contractDeal =>
    simp only [haction] at h
    by_cases hprepares : (r.prepares env tx && !r.receipt.failed) = true
    · rw [if_pos hprepares] at h
      cases hcontract : env.createdContract r.receipt.output with
      | none => rw [hcontract] at h; cases h
      | some contract =>
        rw [hcontract] at h
        exact .inr (.inr (.inl ⟨rfl, hprepares, contract, rfl, mem_singleton.mp h⟩))
    · rw [if_neg hprepares] at h
      rw [Bool.not_eq_true] at hprepares
      rcases mem_append.mp h with h | h
      · split at h
        · exact .inr (.inr (.inr (.inl ⟨rfl, hprepares, mem_singleton.mp h⟩)))
        · cases h
      · exact .inr (.inr (.inr (.inr ⟨.inr ⟨rfl, hprepares⟩, ne_of_mem_flowActions h⟩)))
  | transferReceipt => simp [haction] at h
  | powTxContractDeal => simp [haction] at h
  | contractRefund => simp [haction] at h
  | contractReceipt => simp [haction] at h

def promised (tx : Transaction) (r : StoredStep) : Address × TxAction → Nat
  | (_, .transferReceipt) => tx.amount
  | (_, .contractDeal) => r.receipt.gasRemaining * tx.gasPrice + tx.amount
  | (_, .contractRefund) => refundOf tx r.receipt
  | (c, .contractReceipt) => (flowsTo c r.receipt.coinflows).toNat
  | _ => 0

theorem promised_le_due {k : Address × TxAction} (h : k ∈ r.nextActions env tx) :
    r.promised tx k ≤ Vouchers.due k (r.parts env tx) := by
  rcases nextActions_cases h with ⟨ha, hnot, rfl⟩ | ⟨ha, rfl⟩ |
    ⟨ha, hprepares, contract, hcontract, rfl⟩ | ⟨ha, hprepares, rfl⟩ | ⟨ha, hk, hc⟩
  · simp [parts, promised, ha, hnot]
  · simp [parts, promised, ha]
  · simp [parts, promised, ha, hprepares, hcontract]
  · simp [parts, promised, ha, hprepares]
  · obtain ⟨c, _⟩ := k
    cases hk
    have hflows := flowsTo_le_due (c := c) hc
    rcases ha with ha | ⟨ha, hprepares⟩
    · rw [parts, ha]
      exact hflows
    · rw [parts, ha]
      simp only [promised, hprepares, Bool.false_eq_true, if_false, Vouchers.due_cons]
      omega

end StoredStep

/-! ## The functions of the processor -/

section Apply

variable {env : Env} {vm : Machine} {dag : Dag} {header : Header} {tx : Transaction}
  {exec : TransactionExec} {action : TxAction} {stopped : Address → Nat} {gasPool : Nat}
  {db db' : StateDB} {receipt : Receipt}

structure Marks (header : Header) (action : TxAction) (db db' : StateDB) : Prop where
  fresh : (header.mc, action) ∉ db.marks
  marks : ∀ k, k ∈ db'.marks ↔ k = (header.mc, action) ∨ k ∈ db.marks

theorem fresh_of_checkTxActionInChain {u : Unit}
    (h : db.checkTxActionInChain header.mc action = .ok u) : (header.mc, action) ∉ db.marks := by
  unfold checkTxActionInChain at h
  split at h
  · cases h
  · assumption

theorem execute_transfer {gas : Nat} {r : VmResult} (hrec : tx.recipient.isContract = false)
    (h : execute env vm header tx db gas = .ok r) : tx.amount ≤ db.getBalance tx.sender ∧
      r = ⟨(db.transfer tx.sender tx.recipient tx.amount).accounts, [], gas, none, 0⟩ := by
  have hcreate : env.isCallCreateContractTx tx.recipient tx.data = false := by
    rw [← Bool.not_eq_true]
    intro hcreate
    rw [Env.isCallCreateContractTx, Bool.and_eq_true, beq_iff_eq] at hcreate
    rw [hcreate.1, env.scAccount_contract] at hrec
    cases hrec
  rw [execute, hcreate, hrec] at h
  simp only [Bool.false_eq_true, if_false] at h
  split at h
  · rename_i htransfer
    cases h
    exact ⟨by simpa [canTransfer] using htransfer, rfl⟩
  · cases h

theorem getBalance_transfer_sender (h : tx.amount ≤ db.getBalance tx.sender) :
    (db.transfer tx.sender tx.recipient tx.amount).getBalance tx.sender +
      (if tx.recipient = tx.sender then 0 else tx.amount) = db.getBalance tx.sender := by
  rw [transfer]
  by_cases hs : tx.recipient = tx.sender
  · rw [hs, if_pos rfl, getBalance_addBalance_self, getBalance_subBalance_self]
    omega
  · rw [if_neg hs, getBalance_addBalance_of_ne (Ne.symm hs),
      getBalance_subBalance_self]
    omega

theorem applyPayment_spec (hmc : header.mc = tx.sender)
    (h : applyPayment env vm header tx db gasPool = .ok (receipt, db')) :
    Marks header .transferPayment db db' ∧
      receipt.gasUsed * tx.gasPrice + (if tx.recipient = tx.sender then 0 else tx.amount) +
        db'.getBalance tx.sender ≤ db.getBalance tx.sender := by
  simp only [applyPayment, ite_eq_ok_iff, bind_eq_ok_iff, Bool.not_eq_true] at h
  obtain ⟨hrec, _, hcheck, o, ho, h⟩ := h
  cases h
  obtain ⟨bought, left, r, pool, hpre, hrun, rfl⟩ := transitionDb_eq_ok (Prod.ext rfl ho)
  obtain ⟨-, -, -, hgas, hcost, hcosteq, hleft, -⟩ := (preApplyMessage_draws ..).spends hpre
  rw [hcosteq (.inr rfl)] at hcost hrun ho ⊢
  obtain ⟨hamount, rfl⟩ := execute_transfer hrec hrun
  have hbalance := getBalance_transfer_sender hamount
  have hpaid := @getBalance_refundGas_sender tx tx.gas 0
    (messageState env header .transferPayment tx db (tx.gas * tx.gasPrice)) bought
    (payOutput ⟨((messageState env header .transferPayment tx db (tx.gas * tx.gasPrice)).transfer
      tx.sender tx.recipient tx.amount).accounts, [], left, none, 0⟩) pool (.inr rfl) hgas
    ((payOutput_gas_le _).trans (by dsimp only; omega))
  rw [payOutput_accounts] at hpaid
  rw [getBalance_messageState_self] at hbalance hamount
  refine ⟨⟨fresh_of_checkTxActionInChain hcheck, fun k => ?_⟩, ?_⟩
  · rw [marks_receiptState, marks_refundGas, marks_messageState, mem_cons]
  · rw [getBalance_receiptState_of_onChain (by rw [hmc]; exact onChain_self _)]
    dsimp only at hpaid ⊢
    change _ = getBalance (transfer _ _ _ _) _ + _ at hpaid
    omega

theorem applyFreeze_spec (hmc : header.mc = tx.sender)
    (h : applyFreeze env header tx db gasPool = .ok (receipt, db')) :
    Marks header .contractFreeze db db' ∧
      receipt.gasUsed * tx.gasPrice + receipt.gasRemaining * tx.gasPrice + tx.amount +
        db'.getBalance tx.sender ≤ db.getBalance tx.sender := by
  simp only [applyFreeze, ite_eq_ok_iff, bind_eq_ok_iff] at h
  obtain ⟨-, _, hcheck, ⟨bought, left⟩, hpre, htransfer, h⟩ := h
  have hfree : freeGasAt env header tx = 0 := by
    rw [freeGasAt, if_neg]
    rw [hmc]
    exact (tx.ne_sender env.scAccount_contract).symm
  obtain ⟨-, -, -, hgas, -, -, hleft, -⟩ := (preApplyMessage_draws ..).spends hpre
  dsimp only at hgas hleft
  cases h
  have hamount : tx.gas * tx.gasPrice + tx.amount ≤ db.getBalance tx.sender := by
    rw [Bool.not_eq_true', Bool.not_eq_false] at htransfer
    exact of_decide_eq_true htransfer
  have hused : (bought.gas - left) * tx.gasPrice ≤ tx.gas * tx.gasPrice :=
    Nat.mul_le_mul_right _ (by omega)
  refine ⟨⟨fresh_of_checkTxActionInChain hcheck, fun k => ?_⟩, ?_⟩
  · rw [marks_receiptState]
    exact mem_cons
  · rw [getBalance_receiptState_of_onChain (by rw [hmc]; exact onChain_self _),
      getBalance_setNonce, getBalance_subBalance_self,
      getBalance_setTxActionStateInChain]
    have hremaining := mul_add_sub_mul_le hused
    rw [forceSafeSub]
    dsimp only
    omega

theorem applyToContract_spec (hv : Verified env tx) (hsettled : ∀ a, db.getBalance a ≤ db.initOf a)
    (h : applyToContract env vm dag header tx exec db gasPool = .ok (receipt, db')) :
    tx.recipient.isContract = true ∧ Marks header .contractDeal db db' ∧
      ∃ gasRemaining, dealGasRemaining dag tx exec = .ok gasRemaining ∧
        DealSpec header tx gasRemaining (db.setTxActionStateInChain header.mc .contractDeal) receipt
          db' := by
  simp only [applyToContract, ite_eq_ok_iff, bind_eq_ok_iff] at h
  obtain ⟨hrec, _, hcheck, gasRemaining, hgas, h⟩ := h
  have hcontract : tx.recipient.isContract = true := by simpa using hrec
  have hmarked : ∀ a, (db.setTxActionStateInChain header.mc .contractDeal).getBalance a ≤
      (db.setTxActionStateInChain header.mc .contractDeal).initOf a := hsettled
  have hdeal := applyToContractAt_spec hcontract hv hmarked (.head _) h
  refine ⟨hcontract, ⟨fresh_of_checkTxActionInChain hcheck, fun k => ?_⟩, gasRemaining, hgas, hdeal⟩
  rw [hdeal.marks k]
  simp [setTxActionStateInChain]

theorem applyAction_of_isDeal (hdeal : exec.action.isDeal = true) :
    applyAction env vm dag header tx exec db gasPool =
      applyToContract env vm dag header tx exec db gasPool := by
  rw [applyAction]
  cases haction : exec.action <;> rw [haction] at hdeal <;> first | rfl | cases hdeal

structure Credits (header : Header) (action : TxAction) (db : StateDB) (amount : Nat)
    (receipt : Receipt) (db' : StateDB) : Prop extends Marks header action db db' where
  balance : db'.getBalance header.mc = db.getBalance header.mc + amount
  gasUsed : receipt.gasUsed = 0

theorem credit_spec {a : Address} {amount gasRemaining : Nat}
    (h : credit header exec action gasRemaining db a amount = (receipt, db')) (ha : a = header.mc)
    (hfresh : (header.mc, action) ∉ db.marks) :
    Credits header action db amount receipt db' ∧ action = receipt.action ∧
      exec.preStep = receipt.preStep := by
  obtain ⟨rfl, rfl⟩ := Prod.mk.inj h
  refine ⟨⟨⟨hfresh, fun k => ?_⟩, ?_, rfl⟩, rfl, rfl⟩
  · rw [marks_receiptState]
    exact mem_cons
  · rw [getBalance_receiptState_of_onChain (onChain_self _),
      getBalance_setNonce, ha, getBalance_addBalance_self,
      getBalance_setTxActionStateInChain]

theorem getTxReceiptAtUnit_eq_ok {uhash : Hash} {info : Receipt}
    (h : dag.getTxReceiptAtUnit uhash = .ok info) :
    ∃ r, dag.stepAt uhash = some r ∧ info = r.receipt := by
  unfold Dag.getTxReceiptAtUnit at h
  cases hr : dag.stepAt uhash with
  | none => rw [hr] at h; cases h
  | some r =>
    rw [hr] at h
    exact ⟨r, rfl, (Except.ok.inj h).symm⟩

theorem applyAction_credit (hcredit : exec.action.isCredit = true)
    (h : applyAction env vm dag header tx exec db gasPool = .ok (receipt, db')) :
    ∃ r, dag.stepAt exec.preStep.hash = some r ∧
      Credits header exec.action db (r.promised tx (header.mc, exec.action)) receipt db' ∧
      exec.action = receipt.action ∧ exec.preStep = receipt.preStep := by
  unfold applyAction at h
  cases haction : exec.action with
  | transferReceipt =>
    simp only [haction, applyReceive, ite_eq_ok_iff, bind_eq_ok_iff] at h
    obtain ⟨hmc, -, _, hcheck, info, hinfo, -, h⟩ := h
    have hrecipient : tx.recipient = header.mc := by
      simp only [Bool.or_eq_true, decide_eq_true_eq, not_or, ne_eq, Decidable.not_not] at hmc
      exact hmc.2
    obtain ⟨r, hr, rfl⟩ := getTxReceiptAtUnit_eq_ok hinfo
    exact ⟨r, hr, credit_spec (Except.ok.inj h) hrecipient (fresh_of_checkTxActionInChain hcheck)⟩
  | contractRefund =>
    simp only [haction, applyRefund, ite_eq_ok_iff, bind_eq_ok_iff, not_not] at h
    obtain ⟨hmc, _, hcheck, info, hinfo, h⟩ := h
    obtain ⟨r, hr, rfl⟩ := getTxReceiptAtUnit_eq_ok hinfo
    exact ⟨r, hr, credit_spec (Except.ok.inj h) hmc.symm (fresh_of_checkTxActionInChain hcheck)⟩
  | contractReceipt =>
    simp only [haction, actionContractReceipt, ite_eq_ok_iff, bind_eq_ok_iff] at h
    obtain ⟨info, hinfo, -, -, _, hcheck, -, h⟩ := h
    obtain ⟨r, hr, rfl⟩ := getTxReceiptAtUnit_eq_ok hinfo
    exact ⟨r, hr, credit_spec (Except.ok.inj h) rfl (fresh_of_checkTxActionInChain hcheck)⟩
  | _ => rw [haction] at hcredit; cases hcredit

theorem processTransaction_eq_ok
    (h : processTransaction env vm stopped dag header tx exec db gasPool = .ok (receipt, db')) :
    dag.queryOriginTx exec = .ok () ∧
      (exec.preStep.chainID.empty = true ∨
        checkChainIsStopped env stopped exec.preStep.chainID exec.preStep.height = .ok ()) ∧
      applyAction env vm dag header tx exec db gasPool = .ok (receipt, db') := by
  obtain ⟨_, hquery, h⟩ := bind_eq_ok_iff.mp h
  refine ⟨hquery, ?_⟩
  split at h
  · rename_i hempty
    exact ⟨.inl hempty, h⟩
  · obtain ⟨_, hrunning, happly⟩ := bind_eq_ok_iff.mp h
    exact ⟨.inr hrunning, happly⟩

end Apply

end Nerthus.Core
