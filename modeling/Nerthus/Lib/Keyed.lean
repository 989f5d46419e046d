import Mathlib

/-!
# Maps whose values know their key

A map in which every value is stored under a key that is read off the value, as
a list of values with pairwise different keys. The operations are described by
membership, so that the order of the list does not matter.
-/

namespace Nerthus.Lib

open List

structure Keyed {κ ν : Type} (key : ν → κ) where
  values : List ν
  nodup : (values.map key).Nodup
deriving DecidableEq

namespace Keyed

variable {κ ν : Type} {key : ν → κ}

def empty : Keyed key := ⟨[], List.nodup_nil⟩

def size (m : Keyed key) : Nat := m.values.length

def filter (m : Keyed key) (p : ν → Bool) : Keyed key :=
  ⟨m.values.filter p, m.nodup.sublist ((List.filter_sublist).map key)⟩

@[simp] theorem values_empty : (empty : Keyed key).values = [] := rfl

@[simp] theorem mem_filter {m : Keyed key} {p : ν → Bool} {v : ν} :
    v ∈ (m.filter p).values ↔ v ∈ m.values ∧ p v = true :=
  List.mem_filter

theorem values_map_filter (m : Option (Keyed key)) (p : ν → Bool) :
    ((m.map fun m : Keyed key => m.filter p).getD empty).values =
      (m.getD empty).values.filter p := by
  cases m <;> rfl

variable [DecidableEq κ]

def get (m : Keyed key) (k : κ) : Option ν := m.values.find? fun v => key v = k

def erase (m : Keyed key) (k : κ) : Keyed key := m.filter fun v => key v ≠ k

theorem notMem_map_erase (m : Keyed key) (k : κ) : k ∉ (m.erase k).values.map key := by
  simp [erase, filter]

def put (m : Keyed key) (v : ν) : Keyed key :=
  ⟨v :: (m.erase (key v)).values,
    List.nodup_cons.mpr ⟨m.notMem_map_erase (key v), (m.erase (key v)).nodup⟩⟩

theorem get_eq_some_iff {m : Keyed key} {k : κ} {v : ν} :
    m.get k = some v ↔ v ∈ m.values ∧ key v = k := by
  constructor
  · intro h
    exact ⟨mem_of_find?_eq_some h, by simpa using find?_some h⟩
  · rintro ⟨hmem, rfl⟩
    obtain ⟨w, hw⟩ : ∃ w, m.get (key v) = some w :=
      Option.isSome_iff_exists.mp (find?_isSome.mpr ⟨v, hmem, by simp⟩)
    have hkey : key w = key v := by simpa using find?_some hw
    have heq := inj_on_of_nodup_map m.nodup (mem_of_find?_eq_some hw) hmem hkey
    rw [hw, heq]

theorem get_eq_none_iff {m : Keyed key} {k : κ} : m.get k = none ↔ ∀ v ∈ m.values, key v ≠ k := by
  simp [get]

@[simp] theorem mem_erase {m : Keyed key} {k : κ} {v : ν} :
    v ∈ (m.erase k).values ↔ v ∈ m.values ∧ key v ≠ k := by
  simp [erase]

@[simp] theorem mem_put {m : Keyed key} {v w : ν} :
    w ∈ (m.put v).values ↔ w = v ∨ w ∈ m.values ∧ key w ≠ key v := by
  simp [put]

theorem get_put (m : Keyed key) (v : ν) (k : κ) :
    (m.put v).get k = if k = key v then some v else m.get k := by
  apply Option.ext
  intro w
  rw [get_eq_some_iff, mem_put]
  split_ifs with hk
  · constructor
    · rintro ⟨rfl | ⟨-, hne⟩, hw⟩
      · rfl
      · exact absurd (hw.trans hk) hne
    · intro hw
      cases hw
      exact ⟨.inl rfl, hk.symm⟩
  · rw [get_eq_some_iff]
    constructor
    · rintro ⟨rfl | ⟨hmem, -⟩, hw⟩
      · exact absurd hw.symm hk
      · exact ⟨hmem, hw⟩
    · rintro ⟨hmem, rfl⟩
      exact ⟨.inr ⟨hmem, hk⟩, rfl⟩

theorem erase_eq_self {m : Keyed key} {k : κ} (h : m.get k = none) : m.erase k = m := by
  obtain ⟨values, nodup⟩ := m
  rw [erase, filter]
  congr
  rw [filter_eq_self]
  intro v hv
  exact decide_eq_true (get_eq_none_iff.mp h v hv)

theorem size_put_of_get_eq_none {m : Keyed key} {v : ν} (h : m.get (key v) = none) :
    (m.put v).size = m.size + 1 := by
  change (m.erase (key v)).values.length + 1 = m.size + 1
  rw [erase_eq_self h, size]

theorem perm_cons_erase {m : Keyed key} {v : ν} (h : v ∈ m.values) :
    m.values.Perm (v :: (m.erase (key v)).values) := by
  have hnodup : (v :: (m.erase (key v)).values).Nodup :=
    nodup_cons.mpr ⟨fun hv => (mem_erase.mp hv).2 rfl, (m.erase (key v)).nodup.of_map _⟩
  refine (perm_ext_iff_of_nodup (m.nodup.of_map _) hnodup).mpr fun w => ?_
  rw [mem_cons, mem_erase]
  constructor
  · intro hw
    by_cases heq : key w = key v
    · exact .inl (inj_on_of_nodup_map m.nodup hw h heq)
    · exact .inr ⟨hw, heq⟩
  · rintro (rfl | ⟨hw, -⟩)
    · exact h
    · exact hw

theorem size_erase_of_get_eq_some {m : Keyed key} {k : κ} {v : ν} (h : m.get k = some v) :
    (m.erase k).size + 1 = m.size := by
  obtain ⟨hmem, rfl⟩ := get_eq_some_iff.mp h
  exact (perm_cons_erase hmem).length_eq.symm

end Keyed

end Nerthus.Lib
