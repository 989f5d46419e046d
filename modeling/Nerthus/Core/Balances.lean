import Nerthus.Core.Steps

/-!
# Balances of a state

What the operations of `StateDB` do to the balances, to the balances that the changes
are counted from, and to the sum over the contracts.
-/

namespace Nerthus.Core

open Lib (Ledger)
open Lib.Ledger

namespace StateDB

variable {db db' : StateDB} {a b chain : Address}

def initOf (db : StateDB) (a : Address) : Nat := db.accounts.share initBalanceOf a

@[simp] theorem getBalance_setBalance_self (db : StateDB) (a : Address) (n : Nat) :
    (db.setBalance a n).getBalance a = n := by
  simp [getBalance, setBalance, setStateObject]

@[simp] theorem getBalance_setBalance_of_ne (h : b ≠ a) (n : Nat) :
    (db.setBalance a n).getBalance b = db.getBalance b := by
  simp [getBalance, setBalance, setStateObject, h]

@[simp] theorem getBalance_addBalance_self (db : StateDB) (a : Address) (n : Nat) :
    (db.addBalance a n).getBalance a = db.getBalance a + n :=
  getBalance_setBalance_self _ _ _

@[simp] theorem getBalance_addBalance_of_ne (h : b ≠ a) (n : Nat) :
    (db.addBalance a n).getBalance b = db.getBalance b :=
  getBalance_setBalance_of_ne h _

@[simp] theorem getBalance_subBalance_self (db : StateDB) (a : Address) (n : Nat) :
    (db.subBalance a n).getBalance a = db.getBalance a - n :=
  getBalance_setBalance_self _ _ _

@[simp] theorem getBalance_subBalance_of_ne (h : b ≠ a) (n : Nat) :
    (db.subBalance a n).getBalance b = db.getBalance b :=
  getBalance_setBalance_of_ne h _

theorem getBalance_setStateObject {obj : Account} (h : obj.balance = db.getBalance a) (b : Address) :
    (db.setStateObject a obj).getBalance b = db.getBalance b := by
  by_cases hb : b = a
  · subst hb
    simpa [getBalance, setStateObject] using h
  · simp [getBalance, setStateObject, hb]

theorem balance_getOrNewStateObject (db : StateDB) (a : Address) :
    (db.getOrNewStateObject a).balance = db.getBalance a := by
  rw [getOrNewStateObject, getBalance]
  cases db.accounts.get? a <;> rfl

@[simp] theorem getBalance_setNonce (db : StateDB) (a : Address) (n : Nat) (b : Address) :
    (db.setNonce a n).getBalance b = db.getBalance b := by
  apply getBalance_setStateObject
  exact balance_getOrNewStateObject db a

@[simp] theorem getBalance_resetInitBalance (db : StateDB) (a : Address) (n : Nat) (b : Address) :
    (db.resetInitBalance a n).getBalance b = db.getBalance b := by
  apply getBalance_setStateObject
  exact balance_getOrNewStateObject db a

@[simp] theorem getBalance_setTxActionStateInChain (db : StateDB) (mc : Address)
    (action : TxAction) (b : Address) :
    (db.setTxActionStateInChain mc action).getBalance b = db.getBalance b := rfl

@[simp] theorem getBalance_resetChanges (db : StateDB) (b : Address) :
    db.resetChanges.getBalance b = db.getBalance b := by
  rw [getBalance, resetChanges, get?_update, getBalance]
  cases db.accounts.get? b <;> rfl

theorem getBalance_suicide_of_ne (h : b ≠ a) : (db.suicide a).getBalance b = db.getBalance b := by
  unfold suicide
  split
  · rfl
  · exact getBalance_setBalance_of_ne h 0

theorem getBalance_suicide_le (db : StateDB) (a b : Address) :
    (db.suicide a).getBalance b ≤ db.getBalance b := by
  by_cases h : b = a
  · subst h
    unfold suicide
    split
    · exact Nat.le_refl _
    · rw [getBalance_setBalance_self]
      exact Nat.zero_le _
  · exact (getBalance_suicide_of_ne h).le

def clearFrom (chain : Address) (db : StateDB) (trie : List Address) : StateDB :=
  trie.foldl (fun db a => if onChain chain a then db else db.suicide a) db

theorem clearForeign_induction {P : StateDB → Prop} (h : P db)
    (hstep : ∀ db a, onChain chain a ≠ true → P db → P (db.suicide a)) : P (db.clearForeign chain) := by
  have hloop : ∀ (trie : List Address) (db : StateDB), P db → P (clearFrom chain db trie) := by
    intro trie
    induction trie with
    | nil => exact fun _ h => h
    | cons a trie ih =>
      refine fun db h => ih _ ?_
      dsimp only
      split
      · exact h
      · next ha => exact hstep db a ha h
  exact hloop db.trie db h

theorem getBalance_clearForeign_le (db : StateDB) (chain b : Address) :
    (db.clearForeign chain).getBalance b ≤ db.getBalance b :=
  clearForeign_induction (P := fun d => d.getBalance b ≤ db.getBalance b) (Nat.le_refl _)
    fun d a _ h => (getBalance_suicide_le d a b).trans h

theorem getBalance_clearForeign_of_onChain (hb : onChain chain b = true) :
    (db.clearForeign chain).getBalance b = db.getBalance b :=
  clearForeign_induction (P := fun d => d.getBalance b = db.getBalance b) rfl
    fun _ a ha h => (getBalance_suicide_of_ne fun heq : b = a => ha (heq ▸ hb)).trans h

@[simp] theorem marks_clearForeign (db : StateDB) (chain : Address) :
    (db.clearForeign chain).marks = db.marks := by
  refine clearForeign_induction (P := fun d => d.marks = db.marks) rfl fun _ _ _ h => Eq.trans ?_ h
  unfold suicide
  split <;> rfl

@[simp] theorem onChain_self (chain : Address) : onChain chain chain = true := by simp [onChain]

theorem kept_self (db : StateDB) (chain : Address) : db.kept chain chain = db.getBalance chain := by
  rw [kept, if_pos (onChain_self chain)]

theorem initOf_setStateObject {obj : Account}
    (h : obj.initBalance = (db.getOrNewStateObject a).initBalance) (b : Address) :
    (db.setStateObject a obj).initOf b = db.initOf b := by
  by_cases hb : b = a
  · subst hb
    rw [initOf, setStateObject, share_put_self, initOf, share, initBalanceOf, h, getOrNewStateObject]
    cases db.accounts.get? b <;> rfl
  · exact share_put_of_ne _ _ hb _

@[simp] theorem initOf_setBalance (db : StateDB) (a : Address) (n : Nat) (b : Address) :
    (db.setBalance a n).initOf b = db.initOf b := by
  apply initOf_setStateObject
  rfl

@[simp] theorem initOf_setNonce (db : StateDB) (a : Address) (n : Nat) (b : Address) :
    (db.setNonce a n).initOf b = db.initOf b := by
  apply initOf_setStateObject
  rfl

@[simp] theorem initOf_resetInitBalance_self (db : StateDB) (a : Address) (n : Nat) :
    (db.resetInitBalance a n).initOf a = n :=
  share_put_self _ _ _ _

@[simp] theorem initOf_resetInitBalance_of_ne (h : b ≠ a) (n : Nat) :
    (db.resetInitBalance a n).initOf b = db.initOf b :=
  share_put_of_ne _ _ h _

theorem share_contractBalance (acc : Accounts) (a : Address) :
    acc.share contractBalance a = if a.isContract then acc.share balanceOf a else 0 := by
  unfold share
  cases acc.get? a with
  | none => simp
  | some obj => rfl

theorem worth_contractBalance_le {acc acc' : Accounts}
    (h : ∀ a, a.isContract = true → acc.share balanceOf a ≤ acc'.share balanceOf a) :
    acc.worth contractBalance ≤ acc'.worth contractBalance := by
  refine worth_le_worth fun a => ?_
  rw [share_contractBalance, share_contractBalance]
  split
  · rename_i ha
    exact h a ha
  · exact Nat.le_refl _

def externalBalance (a : Address) (obj : Account) : Nat := if a.isContract then 0 else obj.balance

theorem share_externalBalance (acc : Accounts) (a : Address) :
    acc.share externalBalance a = if a.isContract then 0 else acc.share balanceOf a := by
  unfold share
  cases acc.get? a with
  | none => simp
  | some obj => rfl

theorem worth_balanceOf (acc : Accounts) :
    acc.worth balanceOf = acc.worth contractBalance + acc.worth externalBalance := by
  rw [← worth_add]
  congr 1
  funext a obj
  unfold balanceOf contractBalance externalBalance
  split <;> omega

theorem worth_setBalance (db : StateDB) (a : Address) (n : Nat) :
    (db.setBalance a n).accounts.worth balanceOf + db.getBalance a =
      db.accounts.worth balanceOf + n :=
  worth_put balanceOf db.accounts a _

theorem worth_transfer {n : Nat} (h : n ≤ db.getBalance a) :
    (db.transfer a b n).accounts.worth balanceOf = db.accounts.worth balanceOf := by
  have hsub : (db.subBalance a n).accounts.worth balanceOf + db.getBalance a =
      db.accounts.worth balanceOf + (db.getBalance a - n) := worth_setBalance db a _
  have hadd : (db.transfer a b n).accounts.worth balanceOf + (db.subBalance a n).getBalance b =
      (db.subBalance a n).accounts.worth balanceOf + ((db.subBalance a n).getBalance b + n) :=
    worth_setBalance (db.subBalance a n) b _
  omega

theorem le_getBalance_transfer {n : Nat} (c : Address) :
    db.getBalance c ≤ (db.transfer a b n).getBalance c + if c = a then n else 0 := by
  have hadd : (db.subBalance a n).getBalance c ≤ (db.transfer a b n).getBalance c := by
    rw [transfer]
    by_cases hb : c = b
    · rw [hb, getBalance_addBalance_self]
      exact Nat.le_add_right _ _
    · rw [getBalance_addBalance_of_ne hb]
  by_cases ha : c = a
  · rw [if_pos ha]
    rw [ha, getBalance_subBalance_self] at hadd
    rw [ha]
    omega
  · rw [getBalance_subBalance_of_ne ha] at hadd
    rw [if_neg ha]
    exact hadd

end StateDB

section Receipt

variable {header : Header} {db : StateDB} {failed : Bool}

theorem getBalance_receiptState_le (b : Address) :
    (receiptState header db failed).getBalance b ≤ db.getBalance b := by
  unfold receiptState
  split
  · refine (StateDB.getBalance_clearForeign_le _ _ _).trans ?_
    rw [StateDB.getBalance_resetChanges]
  · rw [StateDB.getBalance_resetChanges]

theorem getBalance_receiptState_of_onChain {b : Address} (hb : StateDB.onChain header.mc b = true) :
    (receiptState header db failed).getBalance b = db.getBalance b := by
  unfold receiptState
  split
  · rw [StateDB.getBalance_clearForeign_of_onChain hb, StateDB.getBalance_resetChanges]
  · rw [StateDB.getBalance_resetChanges]

@[simp] theorem marks_receiptState : (receiptState header db failed).marks = db.marks := by
  unfold receiptState
  split
  · rw [StateDB.marks_clearForeign]
    rfl
  · rfl

end Receipt

end Nerthus.Core
