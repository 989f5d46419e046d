import Nerthus.Core.Deals

/-!
# The coin flows of a receipt

A coin flow is the change of one account that is not a contract, and no account has two.
Those of a deal are together no more than the value of the transaction and what the
contracts of the chain lost.
-/

namespace Nerthus.Core

open Lib (Ledger)
open StateDB List

def flowsTotal (flows : List Coinflow) : Nat := (flows.map fun v => v.amount.toNat).sum

namespace StateDB

variable {db : StateDB} {a : Address} {diff : Int}

theorem mem_balanceChanged (h : (a, diff) ∈ db.balanceChanged) :
    a ∈ db.accounts.keys ∧ diff = (db.getBalance a : Int) - db.initOf a := by
  rw [balanceChanged, mem_insertionSort] at h
  obtain ⟨⟨b, obj⟩, hmem, heq⟩ := mem_map.mp h
  cases heq
  have hget : db.accounts.get? b = some obj := Ledger.get?_eq_some.mpr hmem
  refine ⟨Ledger.mem_keys.mpr ⟨obj, hmem⟩, ?_⟩
  rw [getBalance, initOf, Ledger.share, hget]
  rfl

theorem nodup_balanceChanged (db : StateDB) : (db.balanceChanged.map Prod.fst).Nodup := by
  have hperm := (perm_insertionSort (fun x y : Address × Int => x.1.hash ≤ y.1.hash)
    (db.accounts.entries.map fun e => (e.1, (e.2.balance : Int) - e.2.initBalance))).map Prod.fst
  rw [balanceChanged, hperm.nodup_iff, map_map]
  exact db.accounts.nodup

theorem isSome_setBalance (h : (db.accounts.get? a).isSome = true) (b : Address) (n : Nat) :
    ((db.setBalance b n).accounts.get? a).isSome = true := by
  by_cases hab : a = b
  · subst hab
    simp [setBalance, setStateObject]
  · simpa [setBalance, setStateObject, hab] using h

theorem isSome_clearForeign (chain : Address) (h : (db.accounts.get? a).isSome = true) :
    ((db.clearForeign chain).accounts.get? a).isSome = true := by
  refine clearForeign_induction (P := fun d => (d.accounts.get? a).isSome = true) h
    fun d b _ hd => ?_
  unfold suicide
  split
  · exact hd
  · exact isSome_setBalance hd b 0

theorem emptyHash_getCodeHash (h : (db.accounts.get? a).isSome = true) :
    (db.getCodeHash a).emptyHash = false := by
  obtain ⟨obj, hobj⟩ := Option.isSome_iff_exists.mp h
  rw [getCodeHash, hobj, Hash.emptyHash_eq_false]
  exact obj.codeHash_ne

end StateDB

section Flows

variable {db : StateDB} {keepFlow : Option Address} {changes : List (Address × Int)} {v : Coinflow}

theorem mem_coinflowsOf (h : v ∈ coinflowsOf db keepFlow changes) :
    (v.recipient, v.amount) ∈ changes ∧
      ¬(v.recipient.isContract = true ∧ (db.getCodeHash v.recipient).emptyHash = false) := by
  obtain ⟨⟨a, diff⟩, hmem, heq⟩ := mem_filterMap.mp h
  dsimp only at heq
  split at heq
  · cases heq
  split at heq
  · cases heq
  rename_i hcontract
  cases heq
  exact ⟨hmem, hcontract⟩

theorem sublist_coinflowsOf (db : StateDB) (keepFlow : Option Address)
    (changes : List (Address × Int)) :
    ((coinflowsOf db keepFlow changes).map Coinflow.recipient).Sublist (changes.map Prod.fst) := by
  induction changes with
  | nil => exact List.Sublist.refl _
  | cons x changes ih =>
    rw [coinflowsOf, filterMap_cons]
    split
    · exact ih.trans (sublist_cons_self _ _)
    rename_i v hv
    have hrecipient : v.recipient = x.1 := by
      dsimp only at hv
      split at hv
      · cases hv
      split at hv
      · cases hv
      cases hv
      rfl
    rw [map_cons, map_cons, hrecipient]
    exact ih.cons_cons _

variable {preStep : UnitID} {header : Header} {action : TxAction} {output : Bytes}
  {failed : Bool} {remainingGas usedGas : Nat}

theorem mem_coinflows_createReceipt
    (h : v ∈ (createReceipt preStep header db action output failed remainingGas usedGas
      keepFlow).1.coinflows) :
    failed = false ∧ v.recipient ∈ db.accounts.keys ∧ v.recipient.isContract = false ∧
      v.amount = (db.getBalance v.recipient : Int) - db.initOf v.recipient := by
  cases failed with
  | true => cases h
  | false =>
    obtain ⟨hmem, hcontract⟩ := mem_coinflowsOf h
    obtain ⟨hkey, hdiff⟩ := mem_balanceChanged hmem
    refine ⟨rfl, hkey, ?_, hdiff⟩
    obtain ⟨obj, hobj⟩ := Ledger.mem_keys.mp hkey
    have hsome : (db.resetChanges.accounts.get? v.recipient).isSome = true := by
      rw [resetChanges, Ledger.get?_update, Ledger.get?_eq_some.mpr hobj]
      rfl
    rw [← Bool.not_eq_true]
    intro hc
    apply hcontract
    refine ⟨hc, emptyHash_getCodeHash ?_⟩
    unfold receiptState
    split
    · exact isSome_clearForeign _ hsome
    · exact hsome

theorem nodup_coinflows_createReceipt :
    ((createReceipt preStep header db action output failed remainingGas usedGas
      keepFlow).1.coinflows.map Coinflow.recipient).Nodup := by
  cases failed with
  | true => exact nodup_nil
  | false => exact (nodup_balanceChanged db).sublist (sublist_coinflowsOf _ _ _)

end Flows

theorem sublist_adjustFlows (sender : Address) (spent : Int) (flows : List Coinflow) :
    ((adjustFlows sender spent flows).map Coinflow.recipient).Sublist
      (flows.map Coinflow.recipient) := by
  induction flows with
  | nil => exact List.Sublist.refl _
  | cons v flows ih =>
    rw [adjustFlows]
    split
    · split
      · exact sublist_cons_self _ _
      · exact List.Sublist.refl _
    · exact ih.cons_cons _

theorem mem_adjustFlows {sender : Address} {spent : Int} {flows : List Coinflow} {v : Coinflow}
    (hnodup : (flows.map Coinflow.recipient).Nodup) (h : v ∈ adjustFlows sender spent flows) :
    ∃ u ∈ flows, v.recipient = u.recipient ∧
      v.amount = u.amount + if u.recipient = sender then spent else 0 := by
  induction flows with
  | nil => cases h
  | cons u flows ih =>
    rw [map_cons, nodup_cons] at hnodup
    rw [adjustFlows] at h
    by_cases hu : u.recipient = sender
    · -- no other flow is the sender's
      have hrest : v ∈ flows → ∃ w ∈ u :: flows, v.recipient = w.recipient ∧
          v.amount = w.amount + if w.recipient = sender then spent else 0 := by
        intro hv
        have hne : v.recipient ≠ sender := by
          intro heq
          exact hnodup.1 (hu.trans heq.symm ▸ mem_map_of_mem hv)
        exact ⟨v, .tail _ hv, rfl, by rw [if_neg hne, Int.add_zero]⟩
      rw [if_pos hu] at h
      split at h
      · exact hrest h
      · rcases mem_cons.mp h with rfl | hv
        · exact ⟨u, .head _, rfl, by rw [if_pos hu]⟩
        · exact hrest hv
    · rw [if_neg hu] at h
      rcases mem_cons.mp h with rfl | hv
      · exact ⟨v, .head _, rfl, by rw [if_neg hu, Int.add_zero]⟩
      · obtain ⟨w, hw, heq⟩ := ih hnodup.2 hv
        exact ⟨w, .tail _ hw, heq⟩

/-! ## The flows of a deal -/

section Deal

variable {env : Env} {header : Header} {tx : Transaction} {gasRemaining gas : Nat}
  {source : UnitID} {db : StateDB} {o : Outcome} {acc₀ acc : Accounts} {v : Coinflow}

@[simp] theorem getBalance_frozenState_self :
    (frozenState db tx gasRemaining).getBalance tx.sender =
      gasRemaining * tx.gasPrice + tx.amount := by
  simp [frozenState]

@[simp] theorem getBalance_frozenState_of_ne {a : Address} (h : a ≠ tx.sender) :
    (frozenState db tx gasRemaining).getBalance a = db.getBalance a := by
  simp [frozenState, h]

@[simp] theorem initOf_frozenState_self :
    (frozenState db tx gasRemaining).initOf tx.sender = gasRemaining * tx.gasPrice + tx.amount := by
  simp [frozenState]

@[simp] theorem initOf_frozenState_of_ne {a : Address} (h : a ≠ tx.sender) :
    (frozenState db tx gasRemaining).initOf a = db.initOf a := by
  simp [frozenState, h, addBalance]

@[simp] theorem marks_frozenState : (frozenState db tx gasRemaining).marks = db.marks := rfl

theorem nodup_coinflows_dealReceipt :
    ((dealReceipt env header tx gasRemaining gas source o).1.coinflows.map
      Coinflow.recipient).Nodup := by
  refine List.Nodup.sublist (sublist_adjustFlows _ _ _) ?_
  split
  · exact nodup_nil
  · exact nodup_coinflows_createReceipt

theorem mem_coinflows_dealReceipt
    (h : v ∈ (dealReceipt env header tx gasRemaining gas source o).1.coinflows) :
    o.failed = false ∧ v.recipient ∈ o.db.accounts.keys ∧ v.recipient.isContract = false ∧
      v.amount = (o.db.getBalance v.recipient : Int) - o.db.initOf v.recipient +
        if v.recipient = tx.sender then (tx.amount + tx.gasPrice * gas : Int) else 0 := by
  have hflows : ∀ flows : List Coinflow, (flows.map Coinflow.recipient).Nodup →
      (∀ u ∈ flows, o.failed = false ∧ u.recipient ∈ o.db.accounts.keys ∧
        u.recipient.isContract = false ∧
        u.amount = (o.db.getBalance u.recipient : Int) - o.db.initOf u.recipient) →
      v ∈ adjustFlows tx.sender (tx.amount + tx.gasPrice * gas) flows →
      o.failed = false ∧ v.recipient ∈ o.db.accounts.keys ∧ v.recipient.isContract = false ∧
        v.amount = (o.db.getBalance v.recipient : Int) - o.db.initOf v.recipient +
          if v.recipient = tx.sender then (tx.amount + tx.gasPrice * gas : Int) else 0 := by
    intro flows hnodup hmem hv
    obtain ⟨u, hu, hrecipient, hamount⟩ := mem_adjustFlows hnodup hv
    obtain ⟨hfailed, hkey, hexternal, hdiff⟩ := hmem u hu
    rw [hrecipient, hamount, hdiff]
    exact ⟨hfailed, hkey, hexternal, rfl⟩
  refine hflows _ ?_ ?_ h
  · split
    · exact nodup_nil
    · exact nodup_coinflows_createReceipt
  · split
    · intro u hu
      cases hu
    · intro u hu
      exact mem_coinflows_createReceipt hu

def gain (tx : Transaction) (acc₀ acc : Accounts) (a : Address) : Nat :=
  if a.isContract then 0
  else acc.share balanceOf a + (if a = tx.sender then tx.amount else 0) - acc₀.share balanceOf a

theorem amount_le_gain {action : TxAction} {left : Nat}
    (he : Executed header action tx left (frozenState db tx gasRemaining) o acc₀ acc)
    (hsettled : ∀ a, db.getBalance a ≤ db.initOf a)
    (h : v ∈ (dealReceipt env header tx gasRemaining o.gasUsed source o).1.coinflows) :
    v.amount.toNat ≤ gain tx acc₀ acc v.recipient := by
  obtain ⟨-, -, hexternal, hamount⟩ := mem_coinflows_dealReceipt h
  rw [gain, if_neg (by simp [hexternal])]
  have hinit := he.initOf v.recipient hexternal
  by_cases hs : v.recipient = tx.sender
  · rw [if_pos hs]
    rw [if_pos hs] at hamount
    rw [hs] at hamount hinit ⊢
    rw [initOf_frozenState_self] at hinit
    have hstart := he.start_sender
    rw [getBalance_frozenState_self] at hstart
    have hbalance := he.balance_sender
    have hcomm : tx.gasPrice * o.gasUsed = o.gasUsed * tx.gasPrice := Nat.mul_comm _ _
    push_cast [← hcomm] at *
    omega
  · rw [if_neg hs]
    rw [if_neg hs] at hamount
    have hstart := he.start v.recipient hs
    rw [getBalance_frozenState_of_ne hs] at hstart
    rw [initOf_frozenState_of_ne hs] at hinit
    have hbalance := he.balance v.recipient hs
    have := hsettled v.recipient
    omega

theorem flowsTotal_dealReceipt_le {action : TxAction} {left : Nat}
    (he : Executed header action tx left (frozenState db tx gasRemaining) o acc₀ acc)
    (hsettled : ∀ a, db.getBalance a ≤ db.initOf a) :
    flowsTotal (dealReceipt env header tx gasRemaining o.gasUsed source o).1.coinflows +
        acc.worth contractBalance ≤ tx.amount + acc₀.worth contractBalance := by
  let S := acc₀.keys ∪ acc.keys ∪ o.db.accounts.keys
  have hflows : flowsTotal (dealReceipt env header tx gasRemaining o.gasUsed source o).1.coinflows ≤
      ∑ a ∈ S, gain tx acc₀ acc a := by
    refine Lib.sum_map_le_sum nodup_coinflows_dealReceipt (fun v hv => ?_)
      fun v hv => amount_le_gain he hsettled hv
    exact Finset.mem_union_right _ (mem_coinflows_dealReceipt hv).2.1
  have hgain : ∑ a ∈ S, gain tx acc₀ acc a + acc₀.worth externalBalance ≤
      acc.worth externalBalance + tx.amount := by
    refine Ledger.sum_gain_le (c := tx.sender) ?_ ?_ fun a => ?_
    · exact Finset.subset_union_left.trans Finset.subset_union_left
    · exact Finset.subset_union_right.trans Finset.subset_union_left
    · rw [gain, share_externalBalance, share_externalBalance]
      by_cases hc : a.isContract = true
      · simp [hc]
      have hexternal : a.isContract = false := by simpa using hc
      simp only [hexternal, Bool.false_eq_true, if_false]
      by_cases hs : a = tx.sender
      · have hpays := he.pays
        rw [if_pos hs, hs]
        omega
      · have hkeeps := he.keeps a hexternal hs
        rw [if_neg hs]
        omega
  have hconserves := he.conserves
  rw [worth_balanceOf, worth_balanceOf] at hconserves
  omega

end Deal

end Nerthus.Core
