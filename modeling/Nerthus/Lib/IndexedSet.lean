import Mathlib

/-!
# Indexed sets

A set kept in cells: the number of positions in use, the value at each
position, and for each value one more than its position, zero if it has none.
A writer touches single cells; `Faithful` says that the two directions agree,
and then the cells are a list without repetitions.
-/

namespace Nerthus.Lib

open List

universe u

structure IndexedSet (α : Type u) where
  length : Nat
  value : Nat → α
  index : α → Nat

variable {gap : Nat}

namespace IndexedSet

variable {α : Type u} (s : IndexedSet α)

def toList : List α := (List.range s.length).map s.value

@[simp] theorem length_toList : s.toList.length = s.length := by
  simp [toList]

@[simp] theorem getElem_toList (i : Nat) (h : i < s.toList.length) :
    s.toList[i] = s.value i := by
  simp [toList]

theorem mem_toList {s : IndexedSet α} {v : α} :
    v ∈ s.toList ↔ ∃ i, i < s.length ∧ s.value i = v := by
  simp [toList]

def Faithful : Prop :=
  ∀ v i, s.index v = i + 1 ↔ i < s.length ∧ s.value i = v

namespace Faithful

variable {s}

section

variable (hs : s.Faithful)
include hs

theorem index_value {i : Nat} (hi : i < s.length) : s.index (s.value i) = i + 1 :=
  (hs _ i).mpr ⟨hi, rfl⟩

theorem mem_iff {v : α} : v ∈ s.toList ↔ s.index v ≠ 0 := by
  rw [mem_toList]
  constructor
  · rintro ⟨i, hi, rfl⟩
    rw [hs.index_value hi]
    exact Nat.succ_ne_zero i
  · intro hv
    obtain ⟨i, hi⟩ := Nat.exists_eq_succ_of_ne_zero hv
    exact ⟨i, (hs v i).mp hi⟩

theorem not_mem_iff {v : α} : v ∉ s.toList ↔ s.index v = 0 := by
  rw [hs.mem_iff, not_not]

theorem value_inj {i j : Nat} (hi : i < s.length) (hj : j < s.length) (h : s.value i = s.value j) :
    i = j := by
  have hindex := hs.index_value hi
  rw [h, hs.index_value hj] at hindex
  omega

theorem nodup : s.toList.Nodup := by
  rw [nodup_iff_injective_get]
  intro i j h
  have hi : i.val < s.length := by simpa using i.isLt
  have hj : j.val < s.length := by simpa using j.isLt
  exact Fin.ext (hs.value_inj hi hj (by simpa using h))

theorem mem_take_iff {v : α} {n : Nat} :
    v ∈ s.toList.take n ↔ v ∈ s.toList ∧ s.index v ≤ n := by
  rw [mem_take_iff_getElem, mem_toList]
  constructor
  · rintro ⟨i, hi, rfl⟩
    have hlt : i < s.length := by simp at hi; omega
    refine ⟨⟨i, hlt, by simp⟩, ?_⟩
    rw [getElem_toList, hs.index_value hlt]
    simp at hi
    omega
  · rintro ⟨⟨i, hi, rfl⟩, hle⟩
    rw [hs.index_value hi] at hle
    exact ⟨i, by simp; omega, by simp⟩

end

end Faithful

theorem faithful_of_blank {s : IndexedSet α} (hlength : s.length = 0) (hindex : ∀ v, s.index v = 0) :
    s.Faithful := by
  intro v i
  rw [hindex, hlength]
  omega

def setLength (n : Nat) : IndexedSet α := { s with length := n }

@[simp] theorem setLength_length (n : Nat) : (s.setLength n).length = n := rfl

variable [DecidableEq α]

def update (s : IndexedSet α) (i : Nat) (v : α) : IndexedSet α :=
  { s with
    value := Function.update s.value i v
    index := Function.update s.index v (i + 1) }

def clear (blank : α) (s : IndexedSet α) (i : Nat) (v : α) : IndexedSet α :=
  { s with
    value := Function.update s.value i blank
    index := Function.update s.index v 0 }

def push (s : IndexedSet α) (v : α) : IndexedSet α :=
  (s.setLength (s.length + 1)).update s.length v

theorem toList_push (s : IndexedSet α) (v : α) : (s.push v).toList = s.toList ++ [v] := by
  have hfront : (range s.length).map (Function.update s.value s.length v) =
      (range s.length).map s.value := by
    refine map_congr_left fun i hi => ?_
    rw [Function.update_of_ne (by have := mem_range.mp hi; omega)]
  simp [toList, push, update, setLength, range_succ, hfront]

theorem Faithful.push {s : IndexedSet α} (hs : s.Faithful) {v : α} (hv : v ∉ s.toList) :
    (s.push v).Faithful := by
  intro w i
  have hvalue : ∀ j, j < s.length → s.value j ≠ v := fun j hj h =>
    hv (mem_toList.mpr ⟨j, hj, h⟩)
  simp only [IndexedSet.push, update, setLength, Function.update_apply]
  by_cases hw : w = v
  · by_cases hi : i = s.length
    · simp [hw, hi]
    have hlt : ¬(i < s.length + 1 ∧ s.value i = v) := by
      rintro ⟨hlt, heq⟩
      exact hvalue i (by omega) heq
    rw [if_pos hw, if_neg hi, hw]
    constructor
    · omega
    · intro h
      exact absurd h hlt
  · have hold := hs w i
    by_cases hi : i = s.length
    · rw [if_neg hw, if_pos hi, hold]
      constructor
      · omega
      · intro h
        exact absurd h.2.symm hw
    · rw [if_neg hw, if_neg hi, hold]
      constructor
      · rintro ⟨hlt, heq⟩
        exact ⟨by omega, heq⟩
      · rintro ⟨hlt, heq⟩
        exact ⟨by omega, heq⟩

/-- The values behind position `gap` move down by one: those before position `next` have moved. -/
structure Gap (s₀ : IndexedSet α) (gap next : Nat) (s : IndexedSet α) : Prop where
  length : s.length = s₀.length
  before : ∀ i, i < gap → s.value i = s₀.value i
  moved : ∀ i, gap ≤ i → i + 1 < next → s.value i = s₀.value (i + 1)
  behind : ∀ i, next ≤ i → s.value i = s₀.value i
  index : ∀ v, s.index v =
    if s₀.index v = gap + 1 then 0
    else if gap + 1 < s₀.index v ∧ s₀.index v ≤ next then s₀.index v - 1 else s₀.index v

theorem Faithful.gap_clear {s₀ : IndexedSet α} (h₀ : s₀.Faithful) (hgap : gap < s₀.length)
    (blank : α) : Gap s₀ gap (gap + 1) (s₀.clear blank gap (s₀.value gap)) where
  length := rfl
  before i hi := Function.update_of_ne (by omega) _ _
  moved i hle hlt := by omega
  behind i hle := Function.update_of_ne (by omega) _ _
  index v := by
    simp only [clear, Function.update_apply]
    by_cases hv : v = s₀.value gap
    · rw [if_pos hv, if_pos (by rw [hv, h₀.index_value hgap])]
    · have hne : s₀.index v ≠ gap + 1 := fun h => hv ((h₀ v gap).mp h).2.symm
      rw [if_neg hv, if_neg hne, if_neg (by omega)]

theorem Gap.shift {s₀ s : IndexedSet α} (h₀ : s₀.Faithful) {next : Nat} (h : Gap s₀ gap next s)
    (hgap : gap < next) (hnext : next < s₀.length) (blank : α) (wipe : Bool) : Gap s₀ gap (next + 1)
      ((if wipe then s.clear blank next (s.value next) else s).update (next - 1) (s.value next)) := by
  have hvalue : s.value next = s₀.value next := h.behind next (Nat.le_refl _)
  have hcells : ∀ i, i ≠ next →
      ((if wipe then s.clear blank next (s.value next) else s).update (next - 1)
        (s.value next)).value i = if i = next - 1 then s.value next else s.value i := by
    intro i hi
    cases wipe <;> simp [update, clear, Function.update_apply, hi]
  have hfound : ∀ v, ((if wipe then s.clear blank next (s.value next) else s).update (next - 1)
      (s.value next)).index v = if v = s.value next then next else s.index v := by
    intro v
    cases wipe <;> by_cases hv : v = s.value next <;>
      simp [update, clear, hv] <;> omega
  refine ⟨?_, ?_, ?_, ?_, ?_⟩
  · cases wipe <;> exact h.length
  · intro i hi
    rw [hcells i (by omega), if_neg (by omega), h.before i hi]
  · intro i hle hlt
    rw [hcells i (by omega)]
    by_cases hi : i = next - 1
    · rw [if_pos hi, hvalue, show i + 1 = next by omega]
    · rw [if_neg hi, h.moved i hle (by omega)]
  · intro i hle
    rw [hcells i (by omega), if_neg (by omega), h.behind i (by omega)]
  · intro v
    rw [hfound v, h.index v]
    have hself := h₀ v next
    by_cases hv : v = s.value next
    · have heq := hself.mpr ⟨hnext, by rw [hv, hvalue]⟩
      rw [if_pos hv, if_neg (by omega), if_pos (by omega), heq]
      rfl
    · have hne : s₀.index v ≠ next + 1 := fun heq => hv (by rw [hvalue, (hself.mp heq).2])
      rw [if_neg hv]
      split_ifs <;> omega

omit [DecidableEq α] in
theorem Gap.faithful {s₀ s : IndexedSet α} (h₀ : s₀.Faithful) (h : Gap s₀ gap s₀.length s)
    (hgap : gap < s₀.length) : (s.setLength (s₀.length - 1)).Faithful := by
  intro v i
  change s.index v = i + 1 ↔ i < s₀.length - 1 ∧ s.value i = v
  have hindex := h.index v
  have hrange : s₀.index v ≤ s₀.length := by
    by_contra hgt
    obtain ⟨j, hj⟩ := Nat.exists_eq_succ_of_ne_zero (show s₀.index v ≠ 0 by omega)
    have := ((h₀ v j).mp hj).1
    omega
  by_cases hig : i < gap
  · rw [h.before i hig]
    have hold := h₀ v i
    constructor
    · intro hv
      have heq : s₀.index v = i + 1 := by split_ifs at hindex <;> omega
      exact ⟨by omega, (hold.mp heq).2⟩
    · rintro ⟨hlt, hv⟩
      have heq := hold.mpr ⟨by omega, hv⟩
      rw [hindex, if_neg (by omega), if_neg (by omega), heq]
  · have hold := h₀ v (i + 1)
    constructor
    · intro hv
      have heq : s₀.index v = i + 2 := by split_ifs at hindex <;> omega
      have hlt := (hold.mp heq).1
      rw [h.moved i (by omega) hlt]
      exact ⟨by omega, (hold.mp heq).2⟩
    · rintro ⟨hlt, hv⟩
      rw [h.moved i (by omega) (by omega)] at hv
      have heq := hold.mpr ⟨by omega, hv⟩
      rw [hindex, if_neg (by omega), if_pos (by omega), heq]
      omega

omit [DecidableEq α] in
theorem Gap.mem_iff {s₀ s : IndexedSet α} (h₀ : s₀.Faithful) (h : Gap s₀ gap s₀.length s)
    (hgap : gap < s₀.length) {v : α} :
    v ∈ (s.setLength (s₀.length - 1)).toList ↔ v ∈ s₀.toList ∧ v ≠ s₀.value gap := by
  have hfound : s₀.index v = gap + 1 ↔ v = s₀.value gap := by
    rw [h₀ v gap]
    exact ⟨fun hv => hv.2.symm, fun hv => ⟨hgap, hv.symm⟩⟩
  rw [(h.faithful h₀ hgap).mem_iff, h₀.mem_iff, ne_eq v, ← hfound]
  change s.index v ≠ 0 ↔ _
  rw [h.index v]
  split_ifs <;> omega

theorem Faithful.swap {s : IndexedSet α} (hs : s.Faithful) (hgap : gap + 1 < s.length) (blank : α) :
    (((s.update gap (s.value (s.length - 1))).clear blank (s.length - 1)
      (s.value gap)).setLength (s.length - 1)).Faithful := by
  intro v i
  have hlast := hs.index_value (show s.length - 1 < s.length by omega)
  have hfirst := hs.index_value (show gap < s.length by omega)
  have hne : s.value gap ≠ s.value (s.length - 1) := fun h => by
    have := hs.value_inj (by omega) (by omega) h
    omega
  have hold := hs v i
  simp only [clear, update, setLength, Function.update_apply]
  by_cases hv : v = s.value gap
  · rw [if_pos hv]
    constructor
    · omega
    · rintro ⟨hlt, heq⟩
      rw [if_neg (by omega)] at heq
      by_cases hi : i = gap
      · rw [if_pos hi, hv] at heq
        exact absurd heq.symm hne
      · rw [if_neg hi, hv] at heq
        exact absurd (hs.value_inj (by omega) (by omega) heq) hi
  · rw [if_neg hv]
    by_cases hvl : v = s.value (s.length - 1)
    · rw [if_pos hvl]
      constructor
      · intro h
        have hi : i = gap := by omega
        refine ⟨by omega, ?_⟩
        rw [if_neg (by omega), if_pos hi, hvl]
      · rintro ⟨hlt, heq⟩
        rw [if_neg (by omega)] at heq
        by_cases hi : i = gap
        · omega
        · rw [if_neg hi, hvl] at heq
          have := hs.value_inj (by omega) (by omega) heq
          omega
    · rw [if_neg hvl, hold]
      constructor
      · rintro ⟨hlt, heq⟩
        have hil : i ≠ s.length - 1 := fun h => hvl (by rw [← heq, h])
        have hig : i ≠ gap := fun h => hv (by rw [← heq, h])
        exact ⟨by omega, by rw [if_neg hil, if_neg hig, heq]⟩
      · rintro ⟨hlt, heq⟩
        rw [if_neg (by omega)] at heq
        by_cases hi : i = gap
        · rw [if_pos hi] at heq
          exact absurd heq.symm hvl
        · rw [if_neg hi] at heq
          exact ⟨by omega, heq⟩

theorem Faithful.mem_swap {s : IndexedSet α} (hs : s.Faithful) (hgap : gap + 1 < s.length)
    (blank : α) {v : α} : v ∈ (((s.update gap (s.value (s.length - 1))).clear blank (s.length - 1)
      (s.value gap)).setLength (s.length - 1)).toList ↔ v ∈ s.toList ∧ v ≠ s.value gap := by
  rw [(hs.swap hgap blank).mem_iff, hs.mem_iff]
  simp only [clear, update, setLength, Function.update_apply]
  by_cases hv : v = s.value gap
  · simp [hv]
  by_cases hl : v = s.value (s.length - 1)
  · have hindex := hs.index_value (show s.length - 1 < s.length by omega)
    have hne : s.value (s.length - 1) ≠ s.value gap := hl ▸ hv
    simp [hl, hindex, hne]
  · simp [hv, hl]

theorem Faithful.gap_pop {s : IndexedSet α} (hs : s.Faithful) (hpos : 0 < s.length) (blank : α) :
    Gap s (s.length - 1) s.length (s.clear blank (s.length - 1) (s.value (s.length - 1))) := by
  have h := hs.gap_clear (show s.length - 1 < s.length by omega) blank
  rwa [show s.length - 1 + 1 = s.length by omega] at h

end IndexedSet

end Nerthus.Lib
