import Nerthus.Sc.Types

/-!
# Sets in the storage

`StateSet`: the operations on one set, and what they do to the list of its
values. `Add` does not look whether the value is there; every caller does, or
adds an address that cannot be.
-/

namespace Nerthus

open Hash List

def Address.toHash (a : Address) : Hash := ⟨a.hash⟩

def Hash.toAddress (h : Hash) : Address := ⟨h.val⟩

@[simp] theorem Address.toAddress_toHash (a : Address) : a.toHash.toAddress = a := rfl

@[simp] theorem Hash.toHash_toAddress (h : Hash) : h.toAddress.toHash = h := rfl

theorem Address.toHash_injective : Function.Injective Address.toHash := fun a b h => by
  have := congrArg toAddress h
  simpa using this

theorem mem_map_toAddress {values : List Hash} {a : Address} :
    a ∈ values.map toAddress ↔ a.toHash ∈ values := by
  rw [mem_map]
  constructor
  · rintro ⟨h, hmem, rfl⟩
    exact hmem
  · intro hmem
    exact ⟨a.toHash, hmem, rfl⟩

def uint2Hash (n : Nat) : Hash := ⟨n⟩

def hash2uint (h : Hash) : Nat := uint64 h.val

theorem hash2uint_uint2Hash {n : Nat} (h : n < 2 ^ 64) : hash2uint (uint2Hash n) = n :=
  uint64_of_lt h

variable {s : StateSet} {index : Nat} {v : Hash}

namespace Sc

open Lib (IndexedSet)
open Lib.IndexedSet (Faithful Gap)

namespace StateSet

def subLen (s : StateSet) : StateSet :=
  if s.length = 0 then s else s.setLength (s.length - 1)

def add (s : StateSet) (v : Hash) : StateSet := s.push v

def exist (s : StateSet) (v : Hash) : Option Nat :=
  if s.index v = 0 then none else some (s.index v - 1)

def remove (s : StateSet) (index : Nat) : StateSet :=
  if s.length = 0 ∨ s.length ≤ index then s
  else
    let removedValue := s.value index
    if index = s.length - 1 then subLen (s.clear zero index removedValue)
    else
      let last := s.value (s.length - 1)
      subLen ((s.update index last).clear zero (s.length - 1) removedValue)

def shift (l : Nat) (s : StateSet) (i : Nat) : StateSet :=
  let value := s.value i
  (if i == l - 1 then s.clear zero i value else s).update (i - 1) value

def removeOrder (s : StateSet) (index : Nat) : StateSet :=
  if s.length = 0 ∨ s.length ≤ index then s
  else
    let l := s.length
    let removed := s.clear zero index (s.value index)
    if index = l - 1 then subLen removed
    else subLen ((List.range' (index + 1) (l - (index + 1))).foldl (shift l) removed)

theorem exist_eq_none_iff (hs : Faithful s) : exist s v = none ↔ v ∉ s.toList := by
  rw [hs.not_mem_iff, exist]
  split <;> simp_all

theorem exist_eq_some_iff (hs : Faithful s) {i : Nat} :
    exist s v = some i ↔ i < s.length ∧ s.value i = v := by
  rw [← hs v i, exist]
  split
  · simp_all
  · simp only [Option.some.injEq]
    omega

theorem exist_of_mem (hs : Faithful s) (hv : v ∈ s.toList) : ∃ i, exist s v = some i := by
  by_contra hnone
  push Not at hnone
  exact (exist_eq_none_iff hs).mp (Option.eq_none_iff_forall_ne_some.mpr hnone) hv

theorem toList_add (s : StateSet) (v : Hash) : (add s v).toList = s.toList ++ [v] :=
  s.toList_push v

@[simp] theorem length_add (s : StateSet) (v : Hash) : (add s v).length = s.length + 1 := rfl

theorem faithful_add (hs : Faithful s) (hv : v ∉ s.toList) : Faithful (add s v) :=
  hs.push hv

theorem gap_foldl_shift {s₀ : StateSet} (h₀ : Faithful s₀) {gap : Nat} (n : Nat) (s : StateSet)
    (next : Nat) (hgap : gap < next) (hn : next + n ≤ s₀.length) (h : Gap s₀ gap next s) :
    Gap s₀ gap (next + n) ((range' next n).foldl (shift s₀.length) s) := by
  induction n generalizing s next with
  | zero => exact h
  | succ n ih =>
    rw [range'_succ, foldl_cons, show next + (n + 1) = next + 1 + n by omega]
    exact ih _ _ (by omega) (by omega) (h.shift h₀ hgap (by omega) zero _)

theorem subLen_of_length {t : StateSet} {l : Nat} (ht : t.length = l) (hl : 0 < l) :
    subLen t = t.setLength (l - 1) := by
  rw [subLen, if_neg (by omega), ht]

theorem value_shift_last {l : Nat} (hl : 1 < l) (s : StateSet) :
    (shift l s (l - 1)).value (l - 1) = zero := by
  simp [shift, IndexedSet.update, IndexedSet.clear, show l - 1 ≠ l - 1 - 1 by omega]

theorem removeOrder_eq (hs : Faithful s) (hindex : index < s.length) :
    ∃ t, Gap s index s.length t ∧ t.value (s.length - 1) = zero ∧
      removeOrder s index = t.setLength (s.length - 1) := by
  rw [removeOrder, if_neg (by omega)]
  have hclear := hs.gap_clear hindex zero
  by_cases hlast : index = s.length - 1
  · rw [if_pos hlast]
    rw [show index + 1 = s.length by omega] at hclear
    exact ⟨_, hclear, by rw [← hlast]; exact Function.update_self ..,
      subLen_of_length hclear.length (by omega)⟩
  · rw [if_neg hlast]
    obtain ⟨n, hn⟩ : ∃ n, s.length = index + 1 + n + 1 := ⟨s.length - (index + 2), by omega⟩
    have hloop := gap_foldl_shift hs (n + 1) _ (index + 1) (by omega) (by omega) hclear
    rw [show index + 1 + (n + 1) = s.length by omega] at hloop
    rw [show s.length - (index + 1) = n + 1 by omega]
    refine ⟨_, hloop, ?_, subLen_of_length hloop.length (by omega)⟩
    rw [range'_1_concat, foldl_append, show index + 1 + n = s.length - 1 by omega]
    exact value_shift_last (by omega) _

theorem length_removeOrder (hs : Faithful s) (hindex : index < s.length) :
    (removeOrder s index).length = s.length - 1 := by
  obtain ⟨t, -, -, heq⟩ := removeOrder_eq hs hindex
  rw [heq, IndexedSet.setLength_length]

theorem faithful_removeOrder (hs : Faithful s) (hindex : index < s.length) :
    Faithful (removeOrder s index) := by
  obtain ⟨t, hgap, -, heq⟩ := removeOrder_eq hs hindex
  rw [heq]
  exact hgap.faithful hs hindex

theorem mem_removeOrder (hs : Faithful s) (hindex : index < s.length) :
    v ∈ (removeOrder s index).toList ↔ v ∈ s.toList ∧ v ≠ s.value index := by
  obtain ⟨t, hgap, -, heq⟩ := removeOrder_eq hs hindex
  rw [heq]
  exact hgap.mem_iff hs hindex

theorem remove_eq (hindex : index < s.length) : remove s index =
      if index = s.length - 1 then (s.clear zero index (s.value index)).setLength (s.length - 1)
      else ((s.update index (s.value (s.length - 1))).clear zero (s.length - 1)
        (s.value index)).setLength (s.length - 1) := by
  rw [remove, if_neg (by omega)]
  by_cases hlast : index = s.length - 1
  · simp only [if_pos hlast]
    exact subLen_of_length rfl (by omega)
  · simp only [if_neg hlast]
    exact subLen_of_length rfl (by omega)

theorem faithful_remove (hs : Faithful s) (hindex : index < s.length) :
    Faithful (remove s index) := by
  rw [remove_eq hindex]
  split
  · next hlast =>
    subst hlast
    exact (hs.gap_pop (by omega) zero).faithful hs hindex
  · exact hs.swap (by omega) zero

theorem mem_remove (hs : Faithful s) (hindex : index < s.length) :
    v ∈ (remove s index).toList ↔ v ∈ s.toList ∧ v ≠ s.value index := by
  rw [remove_eq hindex]
  split
  · next hlast =>
    subst hlast
    exact (hs.gap_pop (by omega) zero).mem_iff hs hindex
  · exact hs.mem_swap (by omega) zero

/-- `Add` of a value that does not exist. -/
def insert (s : StateSet) (v : Hash) : StateSet :=
  match exist s v with
  | some _ => s
  | none => add s v

/-- `Remove` of a value that exists. -/
def erase (s : StateSet) (v : Hash) : StateSet :=
  match exist s v with
  | some index => remove s index
  | none => s

theorem faithful_insert (hs : Faithful s) (v : Hash) : Faithful (insert s v) := by
  rw [insert]
  cases hexist : exist s v with
  | some index => exact hs
  | none => exact faithful_add hs ((exist_eq_none_iff hs).mp hexist)

theorem mem_insert (hs : Faithful s) {w : Hash} :
    w ∈ (insert s v).toList ↔ w ∈ s.toList ∨ w = v := by
  rw [insert]
  cases hexist : exist s v with
  | some index =>
    obtain ⟨hlt, rfl⟩ := (exist_eq_some_iff hs).mp hexist
    have hmem : s.value index ∈ s.toList := IndexedSet.mem_toList.mpr ⟨index, hlt, rfl⟩
    constructor
    · exact fun hw => .inl hw
    · rintro (hw | rfl)
      · exact hw
      · exact hmem
  | none =>
    rw [toList_add, mem_append, mem_singleton]

theorem faithful_erase (hs : Faithful s) (v : Hash) : Faithful (erase s v) := by
  rw [erase]
  cases hexist : exist s v with
  | some index => exact faithful_remove hs ((exist_eq_some_iff hs).mp hexist).1
  | none => exact hs

theorem mem_erase (hs : Faithful s) {w : Hash} : w ∈ (erase s v).toList ↔ w ∈ s.toList ∧ w ≠ v := by
  rw [erase]
  cases hexist : exist s v with
  | some index =>
    obtain ⟨hlt, rfl⟩ := (exist_eq_some_iff hs).mp hexist
    exact mem_remove hs hlt
  | none =>
    have hnot := (exist_eq_none_iff hs).mp hexist
    constructor
    · exact fun hw => ⟨hw, fun heq => hnot (heq ▸ hw)⟩
    · exact fun hw => hw.1

end StateSet

end Sc

end Nerthus
