import Nerthus.Bysolt.Cells
import Nerthus.Bysolt.Tree
import Nerthus.Lib.Halving

/-!
# What FindNodes finds

As long as nothing lies beyond the range and no part of the last halving is crowded,
`FindNodes` returns the slots of the range halved where it has too many units.
-/

namespace Nerthus.Bysolt

open Lib (Halving)
open List

def InOrder (units : List UnitInfo) : Prop := units.Pairwise fun u v => u.time ≤ v.time

def TimeSize.holds (ts : TimeSize) (u : UnitInfo) : Bool :=
  unixNano ts.beginTime ≤ u.time && u.time < unixNano ts.endTime

def Uncrowded (origin : Int) (maxSize : Nat) (units : List UnitInfo) : Prop :=
  ∀ j < 2 ^ maxHalvings,
    (units.filter (cell origin maxHalvings j).holds).length ≤ maxSize

variable {units : List UnitInfo} {maxSize k : Nat}

theorem Uncrowded.sublist {origin : Int} {units' : List UnitInfo}
    (h : Uncrowded origin maxSize units) (hsub : List.Sublist units' units) :
    Uncrowded origin maxSize units' := by
  intro j hj
  exact Nat.le_trans (hsub.filter _).length_le (h j hj)

def Closed (next : Option (List UnitInfo)) : Prop := next = none ∨ next = some []

theorem InOrder.filter_append (h : InOrder units) (m : Nat) :
    units.filter (fun u => u.time < m) ++ units.filter (fun u => ¬ u.time < m) = units := by
  induction units with
  | nil => rfl
  | cons u units ih =>
    have hrest := ih (pairwise_cons.mp h).2
    by_cases hu : u.time < m
    · simp only [filter_cons, hu, decide_true, not_true, decide_false, if_true,
        Bool.false_eq_true, if_false, cons_append]
      rw [hrest]
    · have hnone : units.filter (fun u => u.time < m) = [] := by
        refine filter_eq_nil_iff.mpr fun v hv => ?_
        have := (pairwise_cons.mp h).1 v hv
        simp only [decide_eq_true_eq]
        omega
      rw [hnone, nil_append] at hrest
      simp only [filter_cons, hu, decide_false, not_false_eq_true, decide_true, if_true,
        Bool.false_eq_true, if_false]
      rw [hnone, hrest, nil_append]

theorem foldl_add_eq (middle : Nat) {endTime : Nat} (hin : ∀ u ∈ units, u.time < endTime)
    (p : Parts) : units.foldl (Parts.add middle endTime) p =
      { p with
        lefts := p.lefts ++ units.filter fun u => u.time < middle
        rights := p.rights ++ units.filter fun u => ¬ u.time < middle } := by
  induction units generalizing p with
  | nil => simp
  | cons u units ih =>
    have hu := hin u (.head _)
    rw [foldl_cons, ih fun v hv => hin v (.tail _ hv)]
    by_cases hlt : u.time < middle
    · simp [Parts.add, hlt]
    · have hge := Nat.not_lt.mp hlt
      simp [Parts.add, hlt, hu, hge]

theorem readNext_eq (middle : Nat) {endTime : Nat} (maxSize : Nat) {next : List UnitInfo}
    (hin : ∀ u ∈ next, u.time < endTime ∧ u.time ≠ 0) {p : Parts} (hp : p.others = []) :
    p.readNext middle endTime maxSize next = (next.foldl (Parts.add middle endTime) p, []) := by
  induction next generalizing p with
  | nil => rfl
  | cons u next ih =>
    obtain ⟨hend, hzero⟩ := hin u (.head _)
    have hothers : (p.add middle endTime u).others = [] := by
      rw [Parts.add, if_pos hend]
      split
      · exact hp
      · exact hp
    have hmore : p.rights.length + p.lefts.length + p.others.length < maxSize + 1 ∨
        p.others.length = 0 := Or.inr (by rw [hp]; rfl)
    rw [Parts.readNext, if_pos hmore, if_neg hzero,
      ih (fun v hv => hin v (.tail _ hv)) hothers, foldl_cons]

theorem splitUnits_closed {r : TimeSize} {next : Option (List UnitInfo)}
    (hin : ∀ u ∈ units, u.time < unixNano r.endTime) (hnext : Closed next) :
    splitUnits r maxSize units next =
      (⟨units.filter fun u => u.time < unixNano r.middle,
        units.filter fun u => ¬ u.time < unixNano r.middle, []⟩, next) := by
  have hparts := foldl_add_eq (unixNano r.middle) hin .empty
  rcases hnext with rfl | rfl
  · rw [splitUnits, hparts]
    rfl
  · rw [splitUnits, hparts]
    rfl

theorem splitUnits_open {r : TimeSize} (hin : ∀ u ∈ units, u.time < unixNano r.endTime ∧ u.time ≠ 0) :
    splitUnits r maxSize [] (some units) = splitUnits r maxSize units (some []) := by
  have hread := readNext_eq (unixNano r.middle) maxSize hin (p := .empty) rfl
  simp only [splitUnits, foldl_nil, hread]
  rfl

theorem findNodes_open {r : TimeSize} (hsize : microsecond < r.size)
    (hin : ∀ u ∈ units, u.time < unixNano r.endTime ∧ u.time ≠ 0) (fuel : Nat) :
    findNodes fuel r maxSize [] (some units) = findNodes fuel r maxSize units (some []) := by
  cases fuel with
  | zero => rfl
  | succ fuel =>
    rw [findNodes, if_neg (Int.not_le.mpr hsize), findNodes, if_neg (Int.not_le.mpr hsize),
      splitUnits_open hin]

section Contained

variable {r : TimeSize} {maxSize : Nat} {units : List UnitInfo} {next : Option (List UnitInfo)}
  (hsize : microsecond < r.size) (hin : ∀ u ∈ units, u.time < unixNano r.endTime)
  (hnext : Closed next)

theorem findNodes_nil (fuel : Nat) (hsize : microsecond < r.size) (hnext : Closed next) :
    findNodes (fuel + 1) r maxSize [] next = .ok ([], next) := by
  have hnone : ∀ u ∈ ([] : List UnitInfo), u.time < unixNano r.endTime := by simp
  rw [findNodes.eq_def]
  dsimp only
  rw [if_neg (Int.not_le.mpr hsize), splitUnits_closed hnone hnext]
  rfl

include hsize hin hnext

theorem findNodes_slot (fuel : Nat) (horder : InOrder units) (hne : units ≠ [])
    (hfew : units.length ≤ maxSize) :
    findNodes (fuel + 1) r maxSize units next = .ok ([⟨units, r⟩], next) := by
  have hwhole := horder.filter_append (unixNano r.middle)
  have hlength := congrArg length hwhole
  rw [length_append] at hlength
  have hpos := length_pos_of_ne_nil hne
  rw [findNodes.eq_def]
  dsimp only
  rw [if_neg (Int.not_le.mpr hsize), splitUnits_closed hin hnext]
  dsimp only
  rw [if_neg (by omega), if_pos ⟨rfl, by omega⟩, hwhole]

theorem findNodes_halved {fuel : Nat} (horder : InOrder units) (hmany : maxSize < units.length)
    {lefts rights : List SlotNode} (hlefts : ∀ next, Closed next → findNodes fuel r.left maxSize
      (units.filter fun u => u.time < unixNano r.middle) next = .ok (lefts, next))
    (hrights : ∀ next, Closed next → findNodes fuel r.right maxSize
      (units.filter fun u => ¬ u.time < unixNano r.middle) next = .ok (rights, next)) :
    findNodes (fuel + 1) r maxSize units next = .ok (lefts ++ rights, next) := by
  have hlength := congrArg length (horder.filter_append (unixNano r.middle))
  rw [length_append] at hlength
  rw [findNodes.eq_def]
  dsimp only
  rw [if_neg (Int.not_le.mpr hsize), splitUnits_closed hin hnext]
  dsimp only
  rw [if_neg (by omega), if_neg (by omega), hlefts none (Or.inl rfl), hlefts next hnext]
  -- The left half may be given the channel or not; the right half is given it.
  split <;> simp only [bind, Except.bind, hrights next hnext] <;> rfl

end Contained

def halve (origin : Int) (maxSize : Nat) : (k d i : Nat) → List UnitInfo → Halving (List UnitInfo)
  | 0, _, _, units => if units = [] then .empty else .slot units
  | k + 1, d, i, units =>
    if units = [] then .empty
    else if units.length ≤ maxSize then .slot units
    else
      let middle := unixNano (cell origin d i).middle
      .split
        (halve origin maxSize k (d + 1) (2 * i) (units.filter fun u => u.time < middle))
        (halve origin maxSize k (d + 1) (2 * i + 1) (units.filter fun u => ¬ u.time < middle))

def slotNode (origin : Int) (s : Nat × Nat × List UnitInfo) : SlotNode :=
  ⟨s.2.2, cell origin s.1 s.2.1⟩

structure CellUnits (origin : Int) (maxSize d i : Nat) (units : List UnitInfo) : Prop where
  depth : d ≤ maxHalvings
  index : i < 2 ^ d
  inside : ∀ u ∈ units, (cell origin d i).holds u = true
  order : InOrder units
  uncrowded : Uncrowded origin maxSize units

namespace CellUnits

variable {origin : Int} {maxSize d i : Nat} {units : List UnitInfo}

section

variable (h : CellUnits origin maxSize d i units)
include h

theorem size : microsecond < (cell origin d i).size := by
  rw [cell_size origin i h.depth]
  exact microsecond_lt_span h.depth

theorem before_end :
    ∀ u ∈ units, u.time < unixNano (cell origin d i).endTime := by
  intro u hu
  have hin := h.inside u hu
  simp only [TimeSize.holds, Bool.and_eq_true, decide_eq_true_eq] at hin
  exact hin.2

theorem few (hd : d = maxHalvings) :
    units.length ≤ maxSize := by
  subst hd
  have hall := filter_eq_self.mpr h.inside
  have hfew := h.uncrowded i h.index
  rwa [hall] at hfew

theorem left (hd : d < maxHalvings) :
    CellUnits origin maxSize (d + 1) (2 * i)
      (units.filter fun u => u.time < unixNano (cell origin d i).middle) := by
  refine ⟨hd, ?_, ?_, h.order.filter _, h.uncrowded.sublist filter_sublist⟩
  · have := h.index
    rw [pow_succ]
    omega
  · intro u hu
    have hin := h.inside u (mem_of_mem_filter hu)
    have hlt := (mem_filter.mp hu).2
    rw [← cell_left origin i hd]
    simp only [TimeSize.holds, TimeSize.left, Bool.and_eq_true, decide_eq_true_eq] at hin hlt ⊢
    exact ⟨decide_eq_true hin.1, decide_eq_true hlt⟩

theorem right (hd : d < maxHalvings) :
    CellUnits origin maxSize (d + 1) (2 * i + 1)
      (units.filter fun u => ¬ u.time < unixNano (cell origin d i).middle) := by
  refine ⟨hd, ?_, ?_, h.order.filter _, h.uncrowded.sublist filter_sublist⟩
  · have := h.index
    rw [pow_succ]
    omega
  · intro u hu
    have hin := h.inside u (mem_of_mem_filter hu)
    have hge := (mem_filter.mp hu).2
    rw [← cell_right origin i hd]
    simp only [TimeSize.holds, TimeSize.right, Bool.and_eq_true, decide_eq_true_eq] at hin hge ⊢
    exact ⟨decide_eq_true (Nat.not_lt.mp hge), decide_eq_true hin.2⟩

theorem findNodes_eq (hk : d + k = maxHalvings) {next : Option (List UnitInfo)}
    (hnext : Closed next) {fuel : Nat} (hfuel : k < fuel) :
    findNodes fuel (cell origin d i) maxSize units next =
      .ok (((halve origin maxSize k d i units).slots d i).map (slotNode origin), next) := by
  induction k generalizing d i units next fuel with
  | zero =>
    obtain ⟨fuel, rfl⟩ := Nat.exists_eq_add_of_lt hfuel
    by_cases hne : units = []
    · subst hne
      rw [findNodes_nil _ h.size hnext]
      rfl
    · rw [findNodes_slot h.size h.before_end hnext _ h.order hne (h.few (by omega)), halve,
        if_neg hne]
      rfl
  | succ k ih =>
    obtain ⟨fuel, rfl⟩ := Nat.exists_eq_add_one_of_ne_zero (Nat.ne_of_gt (Nat.zero_lt_of_lt hfuel))
    have hd : d < maxHalvings := by omega
    by_cases hne : units = []
    · subst hne
      rw [findNodes_nil _ h.size hnext]
      rfl
    · by_cases hfew : units.length ≤ maxSize
      · rw [findNodes_slot h.size h.before_end hnext _ h.order hne hfew, halve, if_neg hne,
          if_pos hfew]
        rfl
      · have hlefts := fun next (hnext : Closed next) =>
          ih (h.left hd) (by omega) hnext (Nat.lt_of_succ_lt_succ hfuel)
        have hrights := fun next (hnext : Closed next) =>
          ih (h.right hd) (by omega) hnext (Nat.lt_of_succ_lt_succ hfuel)
        rw [← cell_left origin i hd] at hlefts
        rw [← cell_right origin i hd] at hrights
        rw [findNodes_halved h.size h.before_end hnext h.order (Nat.not_le.mp hfew) hlefts
          hrights, halve, if_neg hne, if_neg hfew, Halving.slots, map_append]

end

end CellUnits

section Halve

variable {origin : Int} {maxSize : Nat}

theorem halve_eq_empty_iff {d i : Nat} :
    halve origin maxSize k d i units = .empty ↔ units = [] := by
  cases k with
  | zero =>
    rw [halve]
    split <;> simp_all
  | succ k =>
    rw [halve]
    split
    · simp_all
    · split <;> simp_all

theorem halve_proper (origin : Int) (maxSize k d i : Nat) (horder : InOrder units) :
    (halve origin maxSize k d i units).Proper := by
  induction k generalizing d i units with
  | zero =>
    rw [halve]
    split <;> trivial
  | succ k ih =>
    rw [halve]
    split
    · trivial
    rename_i hne
    split
    · trivial
    refine ⟨?_, ih _ _ (horder.filter _), ih _ _ (horder.filter _)⟩
    by_contra hboth
    rw [not_or, not_not, not_not, halve_eq_empty_iff, halve_eq_empty_iff] at hboth
    apply hne
    rw [← horder.filter_append (unixNano (cell origin d i).middle), hboth.1, hboth.2,
      append_nil]

theorem halve_slots (origin : Int) (maxSize k d i : Nat) (horder : InOrder units) :
    ((halve origin maxSize k d i units).slots d i).flatMap (fun s => s.2.2) = units := by
  induction k generalizing d i units with
  | zero =>
    rw [halve]
    split
    · rename_i hnil
      rw [hnil]
      rfl
    · simp [Halving.slots]
  | succ k ih =>
    rw [halve]
    split
    · rename_i hnil
      rw [hnil]
      rfl
    · split
      · simp [Halving.slots]
      · rw [Halving.slots, flatMap_append, ih _ _ (horder.filter _), ih _ _ (horder.filter _),
          horder.filter_append]

theorem CellUnits.slot_le {d i : Nat} (h : CellUnits origin maxSize d i units)
    (hk : d + k = maxHalvings) : ∀ s ∈ (halve origin maxSize k d i units).slots d i,
      CellUnits origin maxSize s.1 s.2.1 s.2.2 ∧ s.2.2.length ≤ maxSize := by
  induction k generalizing d i units with
  | zero =>
    rw [halve]
    split
    · intro s hs
      cases hs
    · intro s hs
      rw [mem_singleton.mp hs]
      exact ⟨h, h.few (by omega)⟩
  | succ k ih =>
    have hd : d < maxHalvings := by omega
    rw [halve]
    split
    · intro s hs
      cases hs
    split
    · rename_i hfew
      intro s hs
      rw [mem_singleton.mp hs]
      exact ⟨h, hfew⟩
    · intro s hs
      rcases mem_append.mp hs with hs | hs
      · exact ih (h.left hd) (by omega) s hs
      · exact ih (h.right hd) (by omega) s hs

end Halve

end Nerthus.Bysolt
