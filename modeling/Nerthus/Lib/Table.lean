import Mathlib

/-!
# Tables

A table of a key-value store: what is read under a key is what was written last.
-/

namespace Nerthus.Lib

open List

universe u v

abbrev Table (κ : Type u) (ν : Type v) := List (κ × ν)

namespace Table

variable {κ : Type u} {ν : Type v} [DecidableEq κ]

def get (t : Table κ ν) (k : κ) : Option ν := (t.find? fun e => e.1 = k).map Prod.snd

def put (t : Table κ ν) (k : κ) (v : ν) : Table κ ν := (k, v) :: t.filter fun e => e.1 ≠ k

@[simp] theorem get_nil (k : κ) : get ([] : Table κ ν) k = none := rfl

@[simp] theorem get_put_self (t : Table κ ν) (k : κ) (v : ν) : (t.put k v).get k = some v := by
  simp [get, put]

@[simp] theorem get_put_of_ne (t : Table κ ν) {k k' : κ} (h : k' ≠ k) (v : ν) :
    (t.put k v).get k' = t.get k' := by
  have hfind : ((k, v) :: t.filter fun e => e.1 ≠ k).find? (fun e => e.1 = k') =
      t.find? fun e => e.1 = k' := by
    rw [find?_cons_of_neg (by simpa using h.symm), find?_filter]
    congr 1
    ext e
    by_cases he : e.1 = k'
    · simp [he, h]
    · simp [he]
  rw [get, put, hfind, get]

theorem exists_of_get {t : Table κ ν} {k : κ} {v : ν} (h : t.get k = some v) :
    ∃ e ∈ t, e.1 = k := by
  obtain ⟨e, he, -⟩ := Option.map_eq_some_iff.mp h
  exact ⟨e, mem_of_find?_eq_some he, by simpa using find?_some he⟩

theorem countP_put_of_not {t : Table κ ν} {k : κ} {p : κ → Bool} (hk : p k = false) (v : ν) :
    (t.put k v).countP (fun e => p e.1) = t.countP fun e => p e.1 := by
  rw [put, countP_cons_of_neg (by simp [hk]), countP_filter]
  refine countP_congr fun e _ => ?_
  by_cases he : e.1 = k
  · simp [he, hk]
  · simp [he]

theorem countP_lt_of_get {t : Table κ ν} {k : κ} {v : ν} (h : t.get k = some v) {p q : κ → Bool}
    (hqp : ∀ x, q x = true → p x = true) (hp : p k = true) (hq : q k = false) :
    t.countP (fun e => q e.1) < t.countP fun e => p e.1 := by
  obtain ⟨e, he, rfl⟩ := exists_of_get h
  obtain ⟨before, after, rfl⟩ := append_of_mem he
  have hbefore := countP_mono_left (l := before) fun x _ => hqp x.1
  have hafter := countP_mono_left (l := after) fun x _ => hqp x.1
  simp only [countP_append, countP_cons, hp, hq, if_true, Bool.false_eq_true, if_false]
  omega

end Table

end Nerthus.Lib
