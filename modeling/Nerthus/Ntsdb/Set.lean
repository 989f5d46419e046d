import Nerthus.Lib.IndexedSet

/-!
# Ordered sets in the database

`ntsdb/set.go`. A set keeps its length, the key at every position, the position
of every key and a value beside the key. A missing cell reads as the empty key,
`none` here.
-/

namespace Nerthus.Ntsdb

open Lib (IndexedSet)

structure DataSet (κ β : Type) where
  cells : IndexedSet (Option κ)
  data : Option κ → Option β

namespace DataSet

variable {κ β : Type}

def empty : DataSet κ β := ⟨⟨0, fun _ => none, fun _ => 0⟩, fun _ => none⟩

def len (s : DataSet κ β) : Nat := s.cells.length

def getKey (s : DataSet κ β) (index : Nat) : Option κ := s.cells.value index

def getValue (s : DataSet κ β) (key : Option κ) : Option β := s.data key

def exist (s : DataSet κ β) (key : Option κ) : Option Nat :=
  if s.cells.index key = 0 then none else some (s.cells.index key - 1)

/-- `Range`: the number of turns is fixed at the start, the key is read at each turn. -/
def rangeFrom {σ : Type} (set : σ → DataSet κ β) (visit : κ → σ → Bool × σ) :
    Nat → Nat → σ → σ
  | 0, _, w => w
  | turns + 1, i, w =>
    match (set w).getKey i with
    | none => w
    | some key =>
      let (next, w) := visit key w
      if next then rangeFrom set visit turns (i + 1) w else w

def range {σ : Type} (set : σ → DataSet κ β) (visit : κ → σ → Bool × σ) (w : σ) : σ :=
  rangeFrom set visit (set w).len 0 w

/-- Positions and keys agree, exactly the positions in use have a key, exactly the keys of the set a
value. -/
structure WellFormed (s : DataSet κ β) : Prop where
  faithful : s.cells.Faithful
  noEmptyKey : s.cells.index none = 0
  blank : ∀ i, s.len ≤ i → s.getKey i = none
  valued : ∀ key, s.data key = none ↔ s.cells.index key = 0

theorem wellFormed_empty : (empty : DataSet κ β).WellFormed where
  faithful := Lib.IndexedSet.faithful_of_blank rfl fun _ => rfl
  noEmptyKey := rfl
  blank _ _ := rfl
  valued _ := ⟨fun _ => rfl, fun _ => rfl⟩

variable {s : DataSet κ β}

theorem exist_eq_none_iff {key : Option κ} : s.exist key = none ↔ s.cells.index key = 0 := by
  unfold exist
  split_ifs with h
  · simp [h]
  · simp [h]

theorem exist_eq_some_iff {key : Option κ} {i : Nat} :
    s.exist key = some i ↔ s.cells.index key = i + 1 := by
  unfold exist
  split_ifs with h
  · simp [h]
  · rw [Option.some.injEq]
    omega

theorem WellFormed.getKey_eq_some (hs : s.WellFormed) {i : Nat} (hi : i < s.len) :
    ∃ key value, s.getKey i = some key ∧ s.getValue (some key) = some value := by
  have hindex := hs.faithful.index_value hi
  cases hkey : s.cells.value i with
  | none =>
    rw [hkey, hs.noEmptyKey] at hindex
    omega
  | some key =>
    rw [hkey] at hindex
    cases hvalue : s.data (some key) with
    | none =>
      have := (hs.valued _).mp hvalue
      omega
    | some value => exact ⟨key, value, hkey, hvalue⟩

theorem WellFormed.getKey_inj (hs : s.WellFormed) {i j : Nat} (hi : i < s.len) (hj : j < s.len)
    (h : s.getKey i = s.getKey j) : i = j :=
  hs.faithful.value_inj hi hj h

/-! ## Writing -/

variable [DecidableEq κ]

def update (s : DataSet κ β) (index : Nat) (key : Option κ) (value : Option β) : DataSet κ β where
  cells := s.cells.update index key
  data := if value.isSome then Function.update s.data key value else s.data

def clear (s : DataSet κ β) (index : Nat) (key : Option κ) : DataSet κ β where
  cells := s.cells.clear none index key
  data := Function.update s.data key none

def setLen (s : DataSet κ β) (n : Nat) : DataSet κ β := { s with cells := s.cells.setLength n }

def addWithValue (s : DataSet κ β) (key : κ) (value : β) : DataSet κ β :=
  match s.exist (some key) with
  | some _ => s
  | none => (s.setLen (s.len + 1)).update s.len (some key) (some value)

/-- `RemoveByIndex`: the last key moves to the position that gets free. -/
def removeByIndex (s : DataSet κ β) (index : Nat) : DataSet κ β :=
  if s.len = 0 then s
  else if s.getKey index = none then s
  else if s.len - 1 = index then
    (s.clear index (s.getKey index)).setLen (s.len - 1)
  else
    let lastIndex := s.len - 1
    let lastKey := s.getKey lastIndex
    let lastValue := s.getValue lastKey
    (((s.clear lastIndex lastKey).clear index (s.getKey index)).update index lastKey
      lastValue).setLen (s.len - 1)

def remove (s : DataSet κ β) (key : κ) : DataSet κ β :=
  match s.exist (some key) with
  | none => s
  | some index => s.removeByIndex index

theorem WellFormed.addWithValue (hs : s.WellFormed) (key : κ) (value : β) :
    (s.addWithValue key value).WellFormed := by
  unfold DataSet.addWithValue
  split
  · exact hs
  rename_i hexist
  have hnew : s.cells.index (some key) = 0 := exist_eq_none_iff.mp hexist
  refine ⟨hs.faithful.push (hs.faithful.not_mem_iff.mpr hnew), ?_, fun i hi => ?_, ?_⟩
  · change Function.update s.cells.index (some key) (s.len + 1) none = 0
    rw [Function.update_of_ne (Option.some_ne_none key).symm, hs.noEmptyKey]
  · replace hi : s.len + 1 ≤ i := hi
    exact (Function.update_of_ne (by omega) _ _).trans (hs.blank i (by omega))
  · intro k
    change Function.update s.data (some key) (some value) k = none ↔
      Function.update s.cells.index (some key) (s.len + 1) k = 0
    by_cases hk : k = some key
    · simp [hk]
    · simp [hk, hs.valued k]

theorem WellFormed.swap_cells (hs : s.WellFormed) {i : Nat} (hi : i + 1 < s.len) :
    ((s.cells.clear none (s.len - 1) (s.getKey (s.len - 1))).clear none i (s.getKey i)).update i
        (s.getKey (s.len - 1)) =
      (s.cells.update i (s.getKey (s.len - 1))).clear none (s.len - 1) (s.getKey i) := by
  have hne : s.getKey i ≠ s.getKey (s.len - 1) := fun h => by
    have := hs.getKey_inj (by omega) (by omega) h
    omega
  have hpos : i ≠ s.len - 1 := by omega
  simp only [IndexedSet.update, IndexedSet.clear, IndexedSet.mk.injEq, true_and]
  constructor
  · funext j
    simp only [Function.update_apply]
    split_ifs <;> first | rfl | omega
  · funext k
    simp only [Function.update_apply]
    by_cases hlast : k = s.getKey (s.len - 1)
    · rw [if_pos hlast, if_pos hlast, if_neg (by rw [hlast]; exact hne.symm)]
    · rw [if_neg hlast, if_neg hlast, if_neg hlast]

theorem WellFormed.removeByIndex (hs : s.WellFormed) {i : Nat} (hi : i < s.len) :
    (s.removeByIndex i).WellFormed := by
  obtain ⟨key, value, hkey, hvalue⟩ := hs.getKey_eq_some hi
  have hindex : s.cells.index (some key) = i + 1 := hkey ▸ hs.faithful.index_value hi
  unfold DataSet.removeByIndex
  rw [if_neg (by omega), if_neg (by rw [hkey]; simp)]
  split_ifs with hlast
  · have hgap := hs.faithful.gap_pop (show 0 < s.cells.length from by change 0 < s.len; omega) none
    refine ⟨?_, ?_, fun j hj => ?_, ?_⟩
    · have h := hgap.faithful hs.faithful (show s.len - 1 < s.len by omega)
      rw [← hlast]
      exact h
    · rw [hkey]
      change Function.update s.cells.index (some key) 0 none = 0
      rw [Function.update_of_ne (Option.some_ne_none key).symm, hs.noEmptyKey]
    · replace hj : s.len - 1 ≤ j := hj
      change Function.update s.cells.value i none j = none
      rw [Function.update_apply]
      split_ifs
      · rfl
      · exact hs.blank j (by omega)
    · intro k
      rw [hkey]
      change Function.update s.data (some key) none k = none ↔
        Function.update s.cells.index (some key) 0 k = 0
      by_cases hk : k = some key
      · simp [hk]
      · simp [hk, hs.valued k]
  · have hlt : i + 1 < s.len := by omega
    obtain ⟨last, lastValue, hlastKey, hlastValue⟩ :=
      hs.getKey_eq_some (show s.len - 1 < s.len by omega)
    have hcells := hs.swap_cells hlt
    have hne : last ≠ key := fun h => by
      have := hs.getKey_inj (show s.len - 1 < s.len by omega) hi (by rw [hlastKey, hkey, h])
      omega
    have hswap := hs.faithful.swap hlt none
    refine ⟨?_, ?_, fun j hj => ?_, ?_⟩
    · change (((((s.cells.clear none (s.len - 1) (s.getKey (s.len - 1))).clear none i
        (s.getKey i)).update i (s.getKey (s.len - 1)))).setLength (s.len - 1)).Faithful
      rw [hcells]
      exact hswap
    · dsimp only
      rw [hlastKey, hkey]
      simp [update, clear, setLen, IndexedSet.update, IndexedSet.clear, IndexedSet.setLength,
        hs.noEmptyKey]
    · replace hj : s.len - 1 ≤ j := hj
      change Function.update (Function.update (Function.update s.cells.value (s.len - 1) none) i
        none) i (s.getKey (s.len - 1)) j = none
      simp only [Function.update_apply, if_neg (show j ≠ i by omega)]
      split_ifs
      · rfl
      · exact hs.blank j (by omega)
    · intro k
      dsimp only
      rw [hlastKey, hkey, hlastValue]
      change Function.update (Function.update (Function.update s.data (some last) none) (some key)
          none) (some last) (some lastValue) k = none ↔
        Function.update (Function.update (Function.update s.cells.index (some last) 0) (some key) 0)
          (some last) (i + 1) k = 0
      by_cases hkl : k = some last
      · simp [hkl]
      · by_cases hkk : k = some key
        · simp [hkk, hne.symm]
        · simp [hkl, hkk, hs.valued k]

theorem WellFormed.remove (hs : s.WellFormed) (key : κ) : (s.remove key).WellFormed := by
  unfold DataSet.remove
  split
  · exact hs
  · rename_i i hexist
    exact hs.removeByIndex ((hs.faithful _ _).mp (exist_eq_some_iff.mp hexist)).1

end DataSet

end Nerthus.Ntsdb
