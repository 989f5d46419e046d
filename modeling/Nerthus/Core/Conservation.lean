import Nerthus.Core.StepSpec

/-!
# Value is conserved

If the program schedules every step of a run, what the steps credit and charge is paid for. The
invariant adds what is promised to steps not executed yet, which no other step can use.
-/

namespace Nerthus.Core

open Lib (Vouchers)
open StoredStep Lib.Vouchers TxAction World List

def World.promises (env : Env) (tx : Transaction) (w : World) : Vouchers (Address × TxAction) :=
  w.dag.steps.flatMap (parts env tx)

variable {r : StoredStep}

section Step

variable {env : Env} {tx : Transaction} {w w' : World} {s : Step} {receipt : Receipt}
  {db : StateDB}

theorem step_eq_ok (h : w.step env tx s = .ok w') :
    ∃ receipt db, validateExec env w.dag s.header tx s.exec s.minGasPrice s.powDiff = .ok () ∧
      w.dag.queryOriginTx s.exec = .ok () ∧
      applyAction env s.vm w.dag s.header tx s.exec (w.stateOf s) s.gasPool = .ok (receipt, db) ∧
      w' = w.store tx s receipt db := by
  obtain ⟨_, hvalidate, h⟩ := Lib.bind_eq_ok_iff.mp h
  obtain ⟨⟨receipt, db⟩, hprocess, h⟩ := Lib.bind_eq_ok_iff.mp h
  obtain ⟨hquery, -, happly⟩ := processTransaction_eq_ok hprocess
  exact ⟨receipt, db, hvalidate, hquery, happly, (Except.ok.inj h).symm⟩

theorem of_verifyTxBaseData_step {P : Prop} (hknown : w.dag.known = true → P)
    (hbase : ∀ limits b, verifyTxBaseData env tx limits = .ok b → P)
    (hvalidate : validateExec env w.dag s.header tx s.exec s.minGasPrice s.powDiff = .ok ())
    (hquery : w.dag.queryOriginTx s.exec = .ok ()) : P := by
  by_cases htx : s.exec.hasTx = true
  · unfold validateExec at hvalidate
    split at hvalidate
    · cases hvalidate
    obtain ⟨_, -, hcheck⟩ := Lib.bind_eq_ok_iff.mp hvalidate
    rw [checkTx] at hcheck
    split at hcheck
    · cases hcheck
    obtain ⟨b, hok, -⟩ := Lib.bind_eq_ok_iff.mp hcheck
    exact hbase _ b hok
  · apply hknown
    unfold Dag.queryOriginTx at hquery
    split at hquery
    · rename_i hor
      simpa [htx] using hor
    · cases hquery

theorem verified_of_step (hknown : w.dag.known = true → Verified env tx)
    (hvalidate : validateExec env w.dag s.header tx s.exec s.minGasPrice s.powDiff = .ok ())
    (hquery : w.dag.queryOriginTx s.exec = .ok ()) : Verified env tx :=
  of_verifyTxBaseData_step hknown (fun _ _ h => (verified_of_verifyTxBaseData h).1) hvalidate hquery

theorem mem_of_stepAt {dag : Dag} {uhash : Hash} (h : dag.stepAt uhash = some r) :
    r ∈ dag.steps ∧ r.header.hash = uhash :=
  ⟨mem_of_find?_eq_some h, by simpa using find?_some h⟩

theorem due_parts_le_promises {uhash : Hash} (h : w.dag.stepAt uhash = some r)
    (k : Address × TxAction) : due k (r.parts env tx) ≤ due k (w.promises env tx) :=
  due_le_due_flatMap (mem_of_stepAt h).1 k

/-- What a step credits, charges and promises is paid for by what it takes, what the contracts gave
up and what was promised to it. -/
structure StepSpec (env : Env) (tx : Transaction) (w : World) (s : Step) (receipt : Receipt)
    (db : StateDB) : Prop extends Marks s.header s.exec.action.marked (w.stateOf s) db where
  balanced : (w.store tx s receipt db).credited + (w.store tx s receipt db).fees +
      total (parts env tx ⟨s.header, s.exec, receipt⟩) + w.debited + w.gaveUp ≤
    (w.store tx s receipt db).debited + (w.store tx s receipt db).gaveUp + w.credited + w.fees +
      due (s.header.mc, s.exec.action.marked) (w.promises env tx)

theorem stepSpec_of_debit (hv : Verified env tx) (hdebit : s.exec.action.isDebit = true)
    (hscheduled : Scheduled env tx w s)
    (h : applyAction env s.vm w.dag s.header tx s.exec (w.stateOf s) s.gasPool = .ok (receipt, db)) :
    StepSpec env tx w s receipt db := by
  have hmc : s.header.mc = tx.sender := by
    rw [Scheduled, if_pos hdebit] at hscheduled
    exact hscheduled
  have hkept : ∀ db : StateDB, db.kept s.header.mc tx.sender = db.getBalance tx.sender := by
    intro db
    rw [hmc]
    exact db.kept_self tx.sender
  cases haction : s.exec.action with
  | transferPayment =>
    rw [applyAction, haction] at h
    obtain ⟨hmarks, hbalance⟩ := applyPayment_spec hmc h
    refine ⟨by rw [haction]; exact hmarks, ?_⟩
    have hparts : total (parts env tx ⟨s.header, s.exec, receipt⟩) ≤
        if tx.recipient = tx.sender then 0 else tx.amount := by
      rw [parts, haction, hv.sender_eq]
      by_cases hs : tx.recipient = tx.sender
      · simp [hs]
      · cases receipt.failed <;> simp [hs]
    simp only [store, haction, isCredit, isDebit, isDeal, hkept,
      Bool.false_eq_true, if_false, if_true]
    omega
  | contractFreeze =>
    rw [applyAction, haction] at h
    obtain ⟨hmarks, hbalance⟩ := applyFreeze_spec hmc h
    refine ⟨by rw [haction]; exact hmarks, ?_⟩
    have hparts : total (parts env tx ⟨s.header, s.exec, receipt⟩) =
        receipt.gasRemaining * tx.gasPrice + tx.amount := by
      rw [parts, haction]
      simp
    simp only [store, haction, isCredit, isDebit, isDeal, hkept,
      Bool.false_eq_true, if_false, if_true]
    omega
  | _ => rw [haction] at hdebit; cases hdebit

theorem frozen_le_promises {gasRemaining : Nat} (hdeal : s.exec.action.isDeal = true)
    (hscheduled : Scheduled env tx w s)
    (hgas : dealGasRemaining w.dag tx s.exec = .ok gasRemaining) :
    gasRemaining * tx.gasPrice + tx.amount ≤
      due (s.header.mc, .contractDeal) (w.promises env tx) := by
  rw [Scheduled, (of_isDeal hdeal).1, hdeal, Bool.true_and] at hscheduled
  simp only [Bool.false_eq_true, if_false] at hscheduled
  unfold dealGasRemaining at hgas
  by_cases hempty : s.exec.preStep.isEmpty = true
  · rw [if_pos hempty] at hgas hscheduled
    split at hgas
    · cases hgas
    · cases hgas
      omega
  · rw [if_neg hempty] at hgas hscheduled
    obtain ⟨info, hinfo, hgas⟩ := Lib.bind_eq_ok_iff.mp hgas
    obtain ⟨r, hr, rfl⟩ := getTxReceiptAtUnit_eq_ok hinfo
    split at hgas
    · cases hgas
    cases hgas
    obtain ⟨r', hr', hnext⟩ := hscheduled
    obtain rfl : r = r' := Option.some.inj (hr.symm.trans hr')
    rw [marked, if_pos hdeal] at hnext
    exact (promised_le_due hnext).trans (due_parts_le_promises hr _)

theorem total_parts_deal_le {gasRemaining : Nat} {db₀ : StateDB}
    (hdeal : s.exec.action.isDeal = true) (h : DealSpec s.header tx gasRemaining db₀ receipt db) :
    receipt.gasUsed * tx.gasPrice +
        total (parts env tx ⟨s.header, s.exec, receipt⟩) ≤
      gasRemaining * tx.gasPrice + tx.amount + (db₀.contracts - db.contracts) := by
  have hgas := h.gas
  have hflows := (total_flowParts_le ⟨s.header, s.exec, receipt⟩).trans h.flows
  cases haction : s.exec.action with
  | contractDeal =>
    rw [parts, haction]
    dsimp only
    split
    · split
      · simp only [total_nil]
        omega
      · simp only [total_cons, total_nil]
        omega
    · rw [total_cons, refundOf]
      by_cases hfailed : receipt.failed = true
      · have hnil : flowParts ⟨s.header, s.exec, receipt⟩ = [] := by
          rw [flowParts, h.failed hfailed]
          rfl
        rw [if_pos hfailed, hnil, total_nil]
        omega
      · rw [if_neg hfailed]
        omega
  | powTxContractDeal =>
    rw [parts, haction]
    simp only [total_nil]
    omega
  | scIdleContractDeal =>
    rw [parts, haction]
    dsimp only at hflows ⊢
    omega
  | _ => rw [haction] at hdeal; cases hdeal

theorem stepSpec_of_deal (hv : Verified env tx) (hdeal : s.exec.action.isDeal = true)
    (hscheduled : Scheduled env tx w s)
    (h : applyAction env s.vm w.dag s.header tx s.exec (w.stateOf s) s.gasPool = .ok (receipt, db)) :
    StepSpec env tx w s receipt db ∧ tx.recipient.isContract = true := by
  rw [applyAction_of_isDeal hdeal] at h
  have hsettled : ∀ a, (w.stateOf s).getBalance a ≤ (w.stateOf s).initOf a := s.settled
  obtain ⟨hcontract, hmarks, gasRemaining, hgas, hspec⟩ :=
    applyToContract_spec hv hsettled h
  have hmarked : s.exec.action.marked = .contractDeal := if_pos hdeal
  refine ⟨⟨by rw [hmarked]; exact hmarks, ?_⟩, hcontract⟩
  have hpaid := @total_parts_deal_le env tx s receipt db gasRemaining _ hdeal hspec
  have hfrozen := frozen_le_promises hdeal hscheduled hgas
  obtain ⟨hnotDebit, hnotCredit⟩ := of_isDeal hdeal
  have hgave : ((w.stateOf s).setTxActionStateInChain s.header.mc .contractDeal).contracts =
      (w.stateOf s).contracts := rfl
  rw [hgave] at hpaid
  simp only [store, hnotCredit, hnotDebit, hdeal, hmarked, Bool.false_eq_true, if_false,
    if_true]
  omega

theorem follows_of_credit (hcredit : s.exec.action.isCredit = true)
    (hscheduled : Scheduled env tx w s) : ∃ r, w.dag.stepAt s.exec.preStep.hash = some r ∧
      (s.header.mc, s.exec.action) ∈ r.nextActions env tx := by
  unfold Scheduled at hscheduled
  cases haction : s.exec.action <;> rw [haction] at hcredit <;> first
    | (rw [haction] at hscheduled
       obtain ⟨r, hr, hnext⟩ := hscheduled
       rw [haction] at hnext
       exact ⟨r, hr, hnext⟩)
    | cases hcredit

theorem stepSpec_of_credit (hcredit : s.exec.action.isCredit = true)
    (hscheduled : Scheduled env tx w s)
    (h : applyAction env s.vm w.dag s.header tx s.exec (w.stateOf s) s.gasPool = .ok (receipt, db)) :
    StepSpec env tx w s receipt db := by
  obtain ⟨r, hr, hnext⟩ := follows_of_credit hcredit hscheduled
  obtain ⟨r', hr', hcredits, -⟩ := applyAction_credit hcredit h
  obtain rfl : r = r' := Option.some.inj (hr.symm.trans hr')
  have hdue := (promised_le_due hnext).trans (due_parts_le_promises hr _)
  obtain ⟨hnotDebit, hnotDeal⟩ := of_isCredit hcredit
  have hmarked : s.exec.action.marked = s.exec.action := by
    rw [marked, hnotDeal]
    rfl
  have hparts : parts env tx ⟨s.header, s.exec, receipt⟩ = [] := by
    rw [parts]
    cases haction : s.exec.action <;> rw [haction] at hcredit <;> first | rfl | cases hcredit
  refine ⟨by rw [hmarked]; exact hcredits.toMarks, ?_⟩
  have hbalance := hcredits.balance
  have hgasUsed := hcredits.gasUsed
  rw [hparts, hmarked]
  simp only [store, hcredit, hnotDeal, hnotDebit, StateDB.kept_self, hgasUsed, hbalance,
    Bool.false_eq_true, if_false, if_true, total_nil, Nat.zero_mul]
  omega

theorem TxAction.kind (a : TxAction) : a.isDebit = true ∨ a.isDeal = true ∨ a.isCredit = true := by
  cases a <;> decide

theorem stepSpec_of_apply (hv : Verified env tx) (hscheduled : Scheduled env tx w s)
    (h : applyAction env s.vm w.dag s.header tx s.exec (w.stateOf s) s.gasPool = .ok (receipt, db)) :
    StepSpec env tx w s receipt db := by
  rcases s.exec.action.kind with hkind | hkind | hkind
  · exact stepSpec_of_debit hv hkind hscheduled h
  · exact (stepSpec_of_deal hv hkind hscheduled h).1
  · exact stepSpec_of_credit hkind hscheduled h

end Step

/-! ## The invariant of a run -/

structure Inv (env : Env) (tx : Transaction) (w : World) : Prop where
  verified : w.dag.known = true → Verified env tx
  balanced : w.credited + w.fees + unspent w.marks (w.promises env tx) ≤
    w.debited + w.gaveUp
  marked : ∀ s ∈ w.dag.steps, s.key ∈ w.marks
  once : (w.dag.steps.map key).Nodup
  contract : ∀ d ∈ w.dag.steps, d.exec.action.isDeal = true → tx.recipient.isContract = true
  follows : ∀ s ∈ w.dag.steps, s.exec.action.isCredit = true →
    ∃ r, w.dag.stepAt s.exec.preStep.hash = some r ∧
      (s.header.mc, s.exec.action) ∈ r.nextActions env tx
  refunded : ∀ before s after, w.dag.steps = before ++ s :: after →
    s.exec.action = .contractRefund →
    tx.recipient.isContract = true ∧ ∃ d ∈ before, d.exec.action.isDeal = true

namespace Inv

variable {env : Env} {tx : Transaction} {w w' : World} {s : Step}

theorem init (env : Env) (tx : Transaction) : Inv env tx World.init where
  verified h := by cases h
  balanced := Nat.le_refl _
  marked := by simp [World.init]
  once := nodup_nil
  contract := by simp [World.init]
  follows := by simp [World.init]
  refunded := by simp [World.init]

theorem stepAt_store {tx : Transaction} {w : World} {s : Step} {receipt : Receipt} {db : StateDB}
    {uhash : Hash} (h : w.dag.stepAt uhash = some r) :
    (w.store tx s receipt db).dag.stepAt uhash = some r := by
  rw [Dag.stepAt] at h ⊢
  rw [store, find?_append, h]
  rfl

theorem credit_of_nextActions {c : Address} {a : TxAction} (hcredit : a.isCredit = true)
    (h : (c, a) ∈ r.nextActions env tx) :
    (r.exec.action = .transferPayment ∧ a = .transferReceipt) ∨
      (r.exec.action.isDeal = true ∧ (a = .contractRefund ∨ a = .contractReceipt)) := by
  rcases nextActions_cases h with
    ⟨hr, -, hk⟩ | ⟨-, hk⟩ | ⟨-, -, _, -, hk⟩ | ⟨hr, -, hk⟩ | ⟨hr, hk, -⟩
  · exact .inl ⟨hr, (Prod.mk.inj hk).2⟩
  · rw [(Prod.mk.inj hk).2] at hcredit
    cases hcredit
  · rw [(Prod.mk.inj hk).2] at hcredit
    cases hcredit
  · exact .inr ⟨by rw [hr]; rfl, .inl (Prod.mk.inj hk).2⟩
  · refine .inr ⟨?_, .inr hk⟩
    rcases hr with hr | ⟨hr, -⟩ <;> rw [hr] <;> rfl

theorem step (hinv : Inv env tx w) (hscheduled : Scheduled env tx w s)
    (h : w.step env tx s = .ok w') : Inv env tx w' := by
  obtain ⟨receipt, db, hvalidate, hquery, happly, rfl⟩ := step_eq_ok h
  have hv := verified_of_step hinv.verified hvalidate hquery
  have hspec := stepSpec_of_apply hv hscheduled happly
  have hsteps : (w.store tx s receipt db).dag.steps =
      w.dag.steps ++ [⟨s.header, s.exec, receipt⟩] := rfl
  have hmarks : ∀ k, k ∈ (w.store tx s receipt db).marks ↔
      k = (s.header.mc, s.exec.action.marked) ∨ k ∈ w.marks := hspec.marks
  have hcontract : s.exec.action.isDeal = true → tx.recipient.isContract = true :=
    fun hdeal => (stepSpec_of_deal hv hdeal hscheduled happly).2
  have hfollows : s.exec.action.isCredit = true → _ := fun hcredit =>
    follows_of_credit hcredit hscheduled
  refine ⟨fun _ => hv, ?_, ?_, ?_, ?_, ?_, ?_⟩
  · -- the promises under the key are used, those of the new step come in
    have hpromises : (w.store tx s receipt db).promises env tx =
        w.promises env tx ++ parts env tx ⟨s.header, s.exec, receipt⟩ := by
      rw [promises, hsteps, flatMap_append, flatMap_singleton, promises]
    have hspend := unspent_spend hspec.fresh hmarks (w.promises env tx)
    have hnew := unspent_le_total (w.store tx s receipt db).marks
      (parts env tx ⟨s.header, s.exec, receipt⟩)
    have hold := hinv.balanced
    have hstep := hspec.balanced
    change _ = unspent w.marks _ at hspend
    rw [hpromises, unspent_append]
    omega
  · intro t ht
    rw [hmarks]
    rcases mem_append.mp (hsteps ▸ ht) with hold | hnew
    · exact .inr (hinv.marked t hold)
    · rw [mem_singleton.mp hnew]
      exact .inl rfl
  · rw [hsteps, map_append, nodup_append]
    refine ⟨hinv.once, by simp, ?_⟩
    intro k hk k' hk' heq
    obtain ⟨t, ht, rfl⟩ := mem_map.mp hk
    rw [map_singleton, mem_singleton] at hk'
    have hkey : t.key = (s.header.mc, s.exec.action.marked) := heq.trans hk'
    exact hspec.fresh (hkey ▸ hinv.marked t ht)
  · intro d hd hdeal
    rcases mem_append.mp (hsteps ▸ hd) with hold | hnew
    · exact hinv.contract d hold hdeal
    · rw [mem_singleton.mp hnew] at hdeal
      exact hcontract hdeal
  · intro t ht hcredit
    rcases mem_append.mp (hsteps ▸ ht) with hold | hnew
    · obtain ⟨r, hr, hnext⟩ := hinv.follows t hold hcredit
      exact ⟨r, stepAt_store hr, hnext⟩
    · rw [mem_singleton.mp hnew] at hcredit ⊢
      obtain ⟨r, hr, hnext⟩ := hfollows hcredit
      exact ⟨r, stepAt_store hr, hnext⟩
  · intro before t after heq hrefund
    rw [hsteps] at heq
    rcases eq_nil_or_concat after with rfl | ⟨rest, last, rfl⟩
    · obtain ⟨rfl, hlast⟩ := append_inj' heq rfl
      obtain rfl := (singleton_inj.mp hlast).symm
      have hcredit : s.exec.action.isCredit = true := by
        rw [hrefund]
        rfl
      obtain ⟨r, hr, hnext⟩ := hfollows hcredit
      rw [hrefund] at hnext
      have hmem := (mem_of_stepAt hr).1
      obtain ⟨-, ha⟩ | ⟨hdeal, -⟩ := credit_of_nextActions rfl hnext
      · cases ha
      exact ⟨hinv.contract r hmem hdeal, r, hmem, hdeal⟩
    · have hsplit : w.dag.steps = before ++ t :: rest := by
        have hassoc : before ++ t :: rest.concat last = (before ++ t :: rest) ++ [last] := by simp
        rw [hassoc] at heq
        exact (append_inj' heq rfl).1
      exact hinv.refunded before t rest hsplit hrefund

theorem run {steps : List Step} (hinv : Inv env tx w) (hscheduled : AllScheduled env tx w steps)
    (h : w.run env tx steps = .ok w') : Inv env tx w' := by
  induction steps generalizing w with
  | nil =>
    cases h
    exact hinv
  | cons s steps ih =>
    obtain ⟨w₁, hstep, hrest⟩ := Lib.bind_eq_ok_iff.mp h
    obtain ⟨hs, hnext⟩ := hscheduled
    rw [hstep] at hnext
    exact ih (hinv.step hs hstep) hnext hrest

theorem separate (hinv : Inv env tx w) {s t : StoredStep} (hs : s ∈ w.dag.steps)
    (ht : t ∈ w.dag.steps) (hcs : s.exec.action.isCredit = true)
    (hct : t.exec.action.isCredit = true) (hmc : s.header.mc = t.header.mc)
    (hpre : s.exec.preStep.hash = t.exec.preStep.hash) (hne : s ≠ t) :
    ∃ d ∈ w.dag.steps, d.header.hash = s.exec.preStep.hash ∧ d.exec.action.isDeal = true ∧
      ((s.exec.action = .contractRefund ∧ t.exec.action = .contractReceipt) ∨
        (s.exec.action = .contractReceipt ∧ t.exec.action = .contractRefund)) := by
  obtain ⟨r, hr, hnext⟩ := hinv.follows s hs hcs
  obtain ⟨r', hr', hnext'⟩ := hinv.follows t ht hct
  obtain rfl : r = r' := Option.some.inj ((hpre ▸ hr).symm.trans hr')
  have hmem := mem_of_stepAt hr
  have hkey : s.key ≠ t.key := fun heq => hne (inj_on_of_nodup_map hinv.once hs ht heq)
  have haction : s.exec.action ≠ t.exec.action := fun heq => hkey (by
    rw [key, key, hmc, heq])
  rcases credit_of_nextActions hcs hnext with ⟨hr₁, hs₁⟩ | ⟨hdeal, hs₁⟩
  · -- a payment is followed by one receipt only
    rcases credit_of_nextActions hct hnext' with ⟨-, ht₁⟩ | ⟨hdeal, -⟩
    · exact absurd (hs₁.trans ht₁.symm) haction
    · rw [hr₁] at hdeal
      cases hdeal
  · rcases credit_of_nextActions hct hnext' with ⟨hr₁, -⟩ | ⟨-, ht₁⟩
    · rw [hr₁] at hdeal
      cases hdeal
    refine ⟨r, hmem.1, hmem.2, hdeal, ?_⟩
    rcases hs₁ with hs₁ | hs₁ <;> rcases ht₁ with ht₁ | ht₁
    · exact absurd (hs₁.trans ht₁.symm) haction
    · exact .inl ⟨hs₁, ht₁⟩
    · exact .inr ⟨hs₁, ht₁⟩
    · exact absurd (hs₁.trans ht₁.symm) haction

end Inv

theorem conserves_of_allScheduled (env : Env) (tx : Transaction) (steps : List Step) (w : World)
    (hrun : init.run env tx steps = .ok w)
    (hscheduled : AllScheduled env tx init steps) : Conserves tx w := by
  have hinv : Inv env tx w := (Inv.init env tx).run hscheduled hrun
  have hbalanced := hinv.balanced
  refine ⟨by omega, hinv.once, ?_, hinv.refunded⟩
  intro s hs t ht hcs hct hmc hpre hne
  exact hinv.separate hs ht hcs hct hmc hpre hne

namespace Sample

def scAccount : Address := ⟨0x01010101 * 2 ^ 128⟩

def sender : Address := ⟨1⟩

def recipient : Address := ⟨2⟩

def contract : Address := ⟨0x01010101 * 2 ^ 128 + 1⟩

def env : Env where
  scAccount := scAccount
  scAccount_contract := by decide
  publicPrivateKeyAddr := ⟨7⟩
  genesis := ⟨[], List.nodup_nil⟩
  generateContractAddress _ nonce := ⟨0x01010101 * 2 ^ 128 + 2 + nonce⟩
  createdContract _ := none
  verifyProofWork _ _ := false

/-- A virtual machine with a contract that passes the value of a call on to an account. -/
def forwarding (payee : Address) : Machine where
  run c acc :=
    let db : StateDB := ⟨acc, [], []⟩
    if c.value ≤ db.getBalance c.caller then
      ⟨(db.transfer c.caller payee c.value).accounts, [], c.gas - 1000, none, 0⟩
    else ⟨acc, [], c.gas, some .insufficientBalance, 0⟩
  conserves c acc := by
    dsimp only
    split
    · rename_i h
      exact StateDB.worth_transfer h
    · rfl
  keeps c acc a _ ha := by
    dsimp only
    split
    · have hle := @StateDB.le_getBalance_transfer ⟨acc, [], []⟩ c.caller payee c.value a
      rw [if_neg ha] at hle
      exact hle
    · exact Nat.le_refl _
  pays c acc _ := by
    dsimp only
    split
    · have hle := @StateDB.le_getBalance_transfer ⟨acc, [], []⟩ c.caller payee c.value c.caller
      rw [if_pos rfl] at hle
      exact hle
    · exact Nat.le_add_right _ _
  init_eq c acc a _ := by
    dsimp only
    split
    · exact (StateDB.initOf_setBalance _ _ _ _).trans (StateDB.initOf_setBalance _ _ _ _)
    · rfl
  gas_le c acc := by
    dsimp only
    split
    · exact Nat.sub_le _ _
    · exact Nat.le_refl _

def account (a : Address) (balance : Nat) : Accounts :=
  ⟨[(a, ⟨0, balance, balance, emptyCodeHash, emptyCodeHash_ne⟩)], List.nodup_singleton _⟩

theorem account_settled (b : Address) (balance : Nat) (a : Address) :
    (account b balance).share balanceOf a ≤ (account b balance).share initBalanceOf a := by
  by_cases h : a ∈ (account b balance).keys
  · obtain ⟨obj, hobj⟩ := Lib.Ledger.mem_keys.mp h
    rw [account, mem_singleton] at hobj
    obtain ⟨rfl, rfl⟩ := Prod.mk.inj hobj
    simp [account, Lib.Ledger.share, Lib.Ledger.get?, Lib.Table.get, balanceOf, initBalanceOf]
  · rw [Lib.Ledger.share, Lib.Ledger.get?_eq_none h]
    exact Nat.zero_le _

def stepOn (chain : Address) (n balance : Nat) (exec : TransactionExec) : Step where
  header := ⟨chain, n + 2, ⟨n + 1⟩, n, ⟨9⟩, 1000000, Nat.succ_pos _⟩
  exec := exec
  accounts := account chain balance
  trie := []
  gasPool := 1000000
  vm := forwarding recipient
  stopped _ := 0
  minGasPrice := 1
  powDiff := 0
  settled := account_settled chain balance

def unitOf (chain : Address) (n : Nat) : UnitID := ⟨chain, n + 2, ⟨n + 1⟩⟩

def call : Transaction where
  sender := sender
  senderAddr := sender
  recipient := contract
  amount := 100
  gas := 50000
  gasPrice := 1
  data := []
  time := 0
  timeout := 3600
  seed := 0
  size := 100
  sender_external := by decide

def callSteps : List Step :=
  [stepOn sender 0 60000 ⟨.contractFreeze, .zero, true⟩,
    stepOn contract 1 0 ⟨.contractDeal, unitOf sender 0, false⟩,
    stepOn sender 2 9900 ⟨.contractRefund, unitOf contract 1, false⟩,
    stepOn recipient 3 0 ⟨.contractReceipt, unitOf contract 1, false⟩]

def payment : Transaction := { call with recipient := recipient }

def paymentSteps : List Step :=
  [stepOn sender 0 60000 ⟨.transferPayment, .zero, true⟩,
    stepOn sender 1 38900 ⟨.contractRefund, unitOf sender 0, false⟩]

theorem conserves_call : ∃ w, init.run env call callSteps = .ok w ∧
    w.dag.steps.length = 4 ∧ w.credited = 28100 ∧ Conserves call w := by
  refine ⟨_, rfl, by decide +kernel, by decide +kernel, ?_⟩
  exact conserves_of_allScheduled env call callSteps _ rfl (by decide +kernel)

/-- The gas that is left of a payment is given back with the payment, and once more by a
refund. -/
theorem refund_of_payment_exceeds : ∃ w, init.run env payment paymentSteps = .ok w ∧
    w.credited = 29000 ∧ w.fees = 21000 ∧ w.debited = 21100 ∧ w.gaveUp = 0 ∧
    ¬Conserves payment w := by
  refine ⟨_, rfl, by decide +kernel, by decide +kernel, by decide +kernel, by decide +kernel, ?_⟩
  intro h
  exact absurd h.balanced (by decide +kernel)

end Sample

end Nerthus.Core
