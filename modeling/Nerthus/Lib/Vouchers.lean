import Mathlib

/-!
# Vouchers

Amounts that are promised under keys, where a key can be used once. What is promised
under the keys not used yet bounds all that can still be paid.
-/

namespace Nerthus.Lib

universe u

abbrev Vouchers (κ : Type u) := List (κ × Nat)

namespace Vouchers

variable {κ : Type u} [DecidableEq κ]

def total (vs : Vouchers κ) : Nat := (vs.map Prod.snd).sum

def due (k : κ) (vs : Vouchers κ) : Nat := total (vs.filter fun v => v.1 = k)

def unspent (spent : List κ) (vs : Vouchers κ) : Nat := total (vs.filter fun v => v.1 ∉ spent)

@[simp] theorem total_nil : total ([] : Vouchers κ) = 0 := rfl

@[simp] theorem total_cons (v : κ × Nat) (vs : Vouchers κ) : total (v :: vs) = v.2 + total vs := by
  simp [total]

@[simp] theorem total_append (vs ws : Vouchers κ) : total (vs ++ ws) = total vs + total ws := by
  simp [total]

@[simp] theorem due_cons (k : κ) (v : κ × Nat) (vs : Vouchers κ) :
    due k (v :: vs) = (if v.1 = k then v.2 else 0) + due k vs := by
  by_cases h : v.1 = k
  · simp [due, h]
  · simp [due, h]

@[simp] theorem due_append (k : κ) (vs ws : Vouchers κ) :
    due k (vs ++ ws) = due k vs + due k ws := by
  simp [due]

theorem unspent_append (spent : List κ) (vs ws : Vouchers κ) :
    unspent spent (vs ++ ws) = unspent spent vs + unspent spent ws := by
  simp [unspent]

theorem unspent_le_total (spent : List κ) (vs : Vouchers κ) : unspent spent vs ≤ total vs :=
  (List.filter_sublist.map Prod.snd).sum_le_sum fun _ _ => Nat.zero_le _

theorem due_le_due_flatMap {γ : Type*} {l : List γ} {f : γ → Vouchers κ} {c : γ} (h : c ∈ l)
    (k : κ) : due k (f c) ≤ due k (l.flatMap f) := by
  obtain ⟨before, after, rfl⟩ := List.append_of_mem h
  rw [List.flatMap_append, List.flatMap_cons, due_append, due_append]
  omega

theorem unspent_cons (spent : List κ) (v : κ × Nat) (vs : Vouchers κ) :
    unspent spent (v :: vs) = (if v.1 ∈ spent then 0 else v.2) + unspent spent vs := by
  by_cases hv : v.1 ∈ spent
  · simp [unspent, hv]
  · simp [unspent, hv]

theorem unspent_spend {spent spent' : List κ} {k : κ} (h : k ∉ spent)
    (hspent : ∀ x, x ∈ spent' ↔ x = k ∨ x ∈ spent) (vs : Vouchers κ) :
    unspent spent' vs + due k vs = unspent spent vs := by
  induction vs with
  | nil => rfl
  | cons v vs ih =>
    rw [unspent_cons, unspent_cons, due_cons]
    by_cases hk : v.1 = k
    · rw [if_pos ((hspent _).mpr (.inl hk)), if_pos hk, if_neg (hk ▸ h)]
      omega
    · have hiff : v.1 ∈ spent' ↔ v.1 ∈ spent := by simp [hspent, hk]
      simp only [hiff, hk, if_false]
      omega

end Vouchers

end Nerthus.Lib
