import Nerthus.Core.Coinflows

/-!
# What is left of a deal

`applyToContract` is accounted for: from the gas that a deal brings in come the fee and
the gas that is left, from the value and from the contracts come the coin flows.
-/

namespace Nerthus.Core

open Lib (Draws)
open Nat

section

variable {env : Env} {vm : Machine} {header : Header} {tx : Transaction}
  {gasRemaining gas refund gasPool : Nat} {source : UnitID} {currAction : TxAction}
  {db db' : StateDB} {receipt : Receipt}

theorem checkIdle_ne {mc : Address} :
    checkIdle env currAction mc tx gas ≠ .error .gasLimitReached := by
  unfold checkIdle
  split_ifs <;> nofun

structure DealSpec (header : Header) (tx : Transaction) (gasRemaining : Nat) (db : StateDB)
    (receipt : Receipt) (db' : StateDB) : Prop where
  gas : receipt.gasUsed * tx.gasPrice + receipt.gasRemaining * tx.gasPrice ≤
    gasRemaining * tx.gasPrice
  flows : flowsTotal receipt.coinflows ≤ tx.amount + (db.contracts - db'.contracts)
  failed : receipt.failed = true → receipt.coinflows = []
  marks : ∀ k, k ∈ db'.marks ↔ k = (header.mc, .contractDeal) ∨ k ∈ db.marks

theorem executeDeal_eq_ok
    (h : (executeDeal env vm header tx gasRemaining gas refund source db gasPool).2 =
      .ok (receipt, db')) : ∃ pool o used,
      transitionDb env vm header .contractDeal tx gas (freeGasAt env header tx)
        (frozenState db tx gasRemaining) gasPool = (pool, .ok o) ∧
      dealGas o.failed o.gasUsed refund = .ok used ∧
      receipt = (dealReceipt env header tx gasRemaining used source o).1 ∧
      db' = (dealReceipt env header tx gasRemaining used source o).2 := by
  unfold executeDeal at h
  split at h
  · cases h
  rename_i pool o htransition
  split at h
  · cases h
  cases hgas : dealGas o.failed o.gasUsed refund with
  | error e => rw [hgas] at h; cases h
  | ok used =>
    rw [hgas] at h
    have heq : dealReceipt env header tx gasRemaining used source o = (receipt, db') :=
      Except.ok.inj h
    exact ⟨pool, o, used, htransition, hgas, by rw [heq], by rw [heq]⟩

theorem dealGas_eq {failed : Bool} {used : Nat} (h : dealGas failed gas refund = .ok used) :
    used = gas + if failed then refund else 0 := by
  unfold dealGas at h
  cases failed with
  | false =>
    rw [if_neg (by simp)] at h
    exact (Except.ok.inj h).symm
  | true =>
    split at h
    · split at h
      · cases h
      rename_i hover
      cases h
      exact safeAdd_eq (by simpa using hover)
    · rename_i hzero
      cases h
      rw [if_pos rfl, not_not.mp fun hne => hzero ⟨rfl, hne⟩, Nat.add_zero]

theorem executeDeal_draws (env : Env) (vm : Machine) (header : Header) (tx : Transaction)
    (gasRemaining gas refund : Nat) (source : UnitID) (db : StateDB) :
    Draws .gasLimitReached (gas + freeGasAt env header tx)
      (fun r taken => r.1.gasUsed = taken + if r.1.failed then refund else 0)
      (executeDeal env vm header tx gasRemaining gas refund source db) := by
  refine (transitionDb_draws env vm header .contractDeal tx gas (freeGasAt env header tx)
    (frozenState db tx gasRemaining)).bind (fun o => (0,
    if o.failed && source.isEmpty && env.isFreeTx tx then .error .executionReverted
    else (dealGas o.failed o.gasUsed refund).map fun gas =>
      dealReceipt env header tx gasRemaining gas source o)) (fun p => ?_) fun o taken ho => ?_
  · unfold executeDeal
    rcases transitionDb env vm header .contractDeal tx gas (freeGasAt env header tx)
      (frozenState db tx gasRemaining) p with ⟨p', e | o⟩
    · rfl
    dsimp only
    split <;> rfl
  · subst ho
    refine ⟨zero_le _, ?_⟩
    split
    · exact ⟨nofun, nofun⟩
    cases hgas : dealGas o.failed o.gasUsed refund with
    | error e =>
      unfold dealGas at hgas
      split_ifs at hgas
      cases hgas
      exact ⟨nofun, nofun⟩
    | ok used =>
      refine ⟨nofun, ?_⟩
      rintro _ ⟨⟩
      exact dealGas_eq hgas

theorem Verified.mul_le (hv : Verified env tx) (header : Header) {taken : Nat}
    (h : taken ≤ gas + freeGasAt env header tx) : taken * tx.gasPrice ≤ gas * tx.gasPrice := by
  rcases hv.free header with hprice | hfree
  · rw [hprice, Nat.mul_zero, Nat.mul_zero]
  · rw [hfree] at h
    exact Nat.mul_le_mul_right _ h

section DealReceipt

variable {used : Nat} {o : Outcome}

theorem coinflows_dealReceipt_of_failed (h : o.failed = true) :
    (dealReceipt env header tx gasRemaining used source o).1.coinflows = [] := by
  rw [List.eq_nil_iff_forall_not_mem]
  intro v hv
  rw [(mem_coinflows_dealReceipt hv).1] at h
  cases h

theorem marks_dealReceipt :
    (dealReceipt env header tx gasRemaining used source o).2.marks = o.db.marks :=
  marks_receiptState

theorem getBalance_dealReceipt_le {a : Address} (h : a ≠ tx.sender) :
    (dealReceipt env header tx gasRemaining used source o).2.getBalance a ≤ o.db.getBalance a := by
  refine (StateDB.getBalance_setBalance_of_ne h 0).trans_le ?_
  exact getBalance_receiptState_le a

end DealReceipt

theorem Transaction.ne_sender (tx : Transaction) {a : Address} (h : a.isContract = true) :
    a ≠ tx.sender := by
  rintro rfl
  rw [tx.sender_external] at h
  cases h

theorem executeDeal_spec (hrec : tx.recipient.isContract = true) (hv : Verified env tx)
    (hsettled : ∀ a, db.getBalance a ≤ db.initOf a)
    (hgas : (gas + refund) * tx.gasPrice ≤ gasRemaining * tx.gasPrice)
    (h : (executeDeal env vm header tx gasRemaining gas refund source db gasPool).2 =
      .ok (receipt, db')) : DealSpec header tx gasRemaining db receipt db' := by
  obtain ⟨taken, -, hbound, hcharge⟩ := (executeDeal_draws ..).spends h
  have hcharged : receipt.gasUsed * tx.gasPrice ≤ gasRemaining * tx.gasPrice :=
    (hv.mul_le header (by dsimp only at hcharge; split at hcharge <;> omega)).trans hgas
  obtain ⟨pool, o, used, htransition, hused, rfl, rfl⟩ := executeDeal_eq_ok h
  obtain ⟨acc₀, acc, he⟩ := executed_of_transitionDb hrec (hv.free header) htransition
  refine ⟨mul_add_sub_mul_le hcharged, ?_, coinflows_dealReceipt_of_failed, fun k => ?_⟩
  · cases hfailed : o.failed with
    | true =>
      rw [coinflows_dealReceipt_of_failed hfailed]
      exact zero_le _
    | false =>
      obtain rfl : used = o.gasUsed := by simpa [hfailed] using dealGas_eq hused
      have hflows := @flowsTotal_dealReceipt_le env _ _ _ source _ _ _ _ _ _ he hsettled
      -- no contract has more than the virtual machine left, or began with less
      have hafter : (dealReceipt env header tx gasRemaining o.gasUsed source o).2.contracts ≤
          acc.worth contractBalance := by
        refine StateDB.worth_contractBalance_le fun a ha => ?_
        have hne := tx.ne_sender ha
        rw [← he.balance a hne]
        exact getBalance_dealReceipt_le hne
      have hbefore : acc₀.worth contractBalance ≤ db.contracts := by
        refine StateDB.worth_contractBalance_le fun a ha => ?_
        have hne := tx.ne_sender ha
        rw [he.start a hne]
        exact (getBalance_frozenState_of_ne hne).le
      omega
  · rw [marks_dealReceipt, he.marks, List.mem_cons, marks_frozenState]

theorem tryCreate_draws (env : Env) (vm : Machine) (header : Header) (tx : Transaction)
    (gasRemaining : Nat) (currAction : TxAction) (source : UnitID) (db : StateDB) (freeze : Nat) :
    Draws .gasLimitReached (gasRemaining + freeGasAt env (newHeader env header db) tx)
      (fun r taken => r.gasUsed = taken)
      (tryCreate env vm header tx gasRemaining currAction source db freeze) := by
  cases hidle : checkIdle env currAction (newHeader env header db).mc tx gasRemaining with
  | error e =>
    refine .of_error (fun p => by rw [tryCreate, hidle]) ?_
    rintro rfl
    exact checkIdle_ne hidle
  | ok =>
    refine (executeDeal_draws env vm (newHeader env header db) tx gasRemaining gasRemaining 0 source
      (genesisState env tx freeze)).bind (fun r => (0, .ok r.1)) (fun p => ?_) fun r taken hr =>
      ⟨zero_le _, nofun, ?_⟩
    · rw [tryCreate, hidle]
      rcases executeDeal env vm (newHeader env header db) tx gasRemaining gasRemaining 0 source
        (genesisState env tx freeze) p with ⟨p', e | ⟨r, _⟩⟩ <;> rfl
    · rintro _ ⟨⟩
      simpa using hr

theorem failedReceipt_spec {used : Nat} (hused : used * tx.gasPrice ≤ gasRemaining * tx.gasPrice)
    (hmark : (header.mc, .contractDeal) ∈ db.marks) :
    DealSpec header tx gasRemaining db (failedReceipt header gasRemaining used source db).1
      (failedReceipt header gasRemaining used source db).2 := by
  refine ⟨mul_add_sub_mul_le hused, zero_le _, fun _ => rfl, fun k => ?_⟩
  rw [failedReceipt, createReceipt, marks_receiptState]
  constructor
  · exact .inr
  · rintro (rfl | hk)
    · exact hmark
    · exact hk

theorem applyToContractAt_eq_ok
    (h : applyToContractAt env vm header tx gasRemaining currAction source db gasPool =
      .ok (receipt, db')) :
    ∃ used, used ≤ gasRemaining + freeGasAt env (newHeader env header db) tx ∧
      (failedReceipt header gasRemaining used source db = (receipt, db') ∨
        ∃ pool, (executeDeal env vm header tx gasRemaining (forceSafeSub gasRemaining used) used
          source db pool).2 = .ok (receipt, db')) := by
  obtain ⟨-, -, h⟩ := Lib.bind_eq_ok_iff.mp h
  split at h
  · split at h
    · cases h
    split at h
    · -- the attempt was not accepted
      rename_i htry
      simp only [Lib.ite_eq_ok_iff] at h
      exact ⟨_, ((tryCreate_draws ..).le htry).2, .inl (Except.ok.inj h.2.2)⟩
    · rename_i pool r htry
      obtain ⟨_, -, hbound, rfl⟩ := (tryCreate_draws ..).spends (congrArg Prod.snd htry)
      refine ⟨r.gasUsed, hbound, ?_⟩
      split at h
      · exact .inl (Except.ok.inj h)
      · exact .inr ⟨pool, h⟩
  · exact ⟨0, zero_le _, .inr ⟨gasPool, h⟩⟩

theorem applyToContractAt_spec (hrec : tx.recipient.isContract = true) (hv : Verified env tx)
    (hsettled : ∀ a, db.getBalance a ≤ db.initOf a) (hmark : (header.mc, .contractDeal) ∈ db.marks)
    (h : applyToContractAt env vm header tx gasRemaining currAction source db gasPool =
      .ok (receipt, db')) : DealSpec header tx gasRemaining db receipt db' := by
  obtain ⟨used, hused, hfailed | ⟨pool, hdeal⟩⟩ := applyToContractAt_eq_ok h
  · obtain ⟨rfl, rfl⟩ := Prod.mk.inj hfailed
    exact failedReceipt_spec (hv.mul_le _ hused) hmark
  · refine executeDeal_spec hrec hv hsettled ?_ hdeal
    rw [Nat.add_comm, Nat.add_mul]
    exact mul_add_sub_mul_le (hv.mul_le _ hused)

end

end Nerthus.Core
