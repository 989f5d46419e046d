import Nerthus.Bysolt.Conservation

/-!
# The tree of a time point

The tree of an hour should have the units of the hour and nothing else. The range scan
of the timeline gives the units at the end of the hour too, and then the tree has them.
-/

namespace Nerthus.Bysolt

open List Nat Lib

namespace Storage

def units (sto : Storage) : List UnitInfo := sto.timeline.units.map fun e => ⟨e.1, e.2⟩

/-- The tree is that of the range: its units in their order, in slots that are not too
large. -/
structure Covers (sto : Storage) (r : TimeSize) (t : SlotTree) : Prop where
  range : t.timeRange = r
  units : t.units = sto.units.filter r.holds
  slots : ∀ leaf ∈ t.leaves, leaf.1.length ≤ maxSlotUnits ∨ leaf.2.size ≤ microsecond

def PointTreeOk (sto : Storage) (number : Nat) : Prop :=
  ∃ r t, sto.timeRange number = .ok r ∧
    Lib.Returns (fun fuel => sto.getPointTree fuel number) t ∧ sto.Covers r t

def EndFree (sto : Storage) (r : TimeSize) : Prop :=
  ∀ u ∈ sto.units, unixNano r.beginTime ≤ u.time → u.time ≠ unixNano r.endTime

def ZeroFree (sto : Storage) (r : TimeSize) : Prop :=
  ∀ u ∈ sto.units.filter r.holds, u.time ≠ 0

end Storage

structure PointRange (r : TimeSize) : Prop where
  width : r.endTime = r.beginTime + pointTimeSpan ∨
    r.endTime = r.beginTime + pointTimeSpan - 2 ^ 64
  even : r.endTime % 2 = 0

variable {number fuel : Nat}

theorem pointTimeRange_ok (initTime : Int) (hn : 1 ≤ number) :
    ∃ r, pointTimeRange initTime number = .ok r ∧ PointRange r := by
  have hspan : pointTimeSpan = 3600000000000 := rfl
  have hsecond : second = 1000000000 := rfl
  refine ⟨_, by rw [pointTimeRange, if_neg (by omega)], ?_, ?_⟩
  · simp only [wrap, Int.bmod, hspan, hsecond]
    omega
  · simp only [wrap, Int.bmod, hspan, hsecond]
    omega

theorem Storage.timeRange_ok (sto : Storage) (hn : 1 ≤ number) :
    ∃ r, sto.timeRange number = .ok r ∧ PointRange r :=
  pointTimeRange_ok _ hn

namespace PointRange

variable {r : TimeSize}

theorem unixNano_succ (h : PointRange r) :
    uint64 (unixNano r.endTime + 1) = unixNano r.endTime + 1 := by
  have heven := h.even
  unfold uint64 unixNano
  omega

theorem unixNano_ne (h : PointRange r) : unixNano r.beginTime ≠ unixNano r.endTime := by
  have hspan : pointTimeSpan = 3600000000000 := rfl
  have hwidth := h.width
  unfold unixNano
  omega

theorem cases_size (h : PointRange r) :
    r = cell r.beginTime 0 0 ∧ microsecond < r.size ∨ r.size = -2 ^ 63 := by
  have hspan : pointTimeSpan = 3600000000000 := rfl
  have hmicro : microsecond = 1000 := rfl
  rcases h.width with hwidth | hwidth
  · refine .inl ⟨?_, ?_⟩
    · rw [cell_zero, ← hwidth]
    · unfold TimeSize.size sub
      omega
  · refine .inr ?_
    unfold TimeSize.size sub
    omega

end PointRange

section Scan

variable {sto : Storage} {r : TimeSize}

theorem rangeUnits_eq (hsucc : uint64 (unixNano r.endTime + 1) = unixNano r.endTime + 1) :
    sto.rangeUnits r = sto.units.filter fun u =>
      unixNano r.beginTime ≤ u.time ∧ u.time ≤ unixNano r.endTime := by
  rw [Storage.rangeUnits, Rawdb.Timeline.rangRangeUnits, hsucc, Storage.units, filter_map]
  congr 1
  refine filter_congr fun e _ => ?_
  simp only [Function.comp_apply, Nat.lt_succ_iff]

theorem mem_rangeUnits_of_holds (hsucc : uint64 (unixNano r.endTime + 1) = unixNano r.endTime + 1)
    {u : UnitInfo} (hu : u ∈ sto.units) (hholds : r.holds u = true) : u ∈ sto.rangeUnits r := by
  simp only [TimeSize.holds, Bool.and_eq_true, decide_eq_true_eq] at hholds
  rw [rangeUnits_eq hsucc]
  exact mem_filter.mpr ⟨hu, decide_eq_true ⟨hholds.1, le_of_lt hholds.2⟩⟩

variable (hr : PointRange r)
include hr

theorem rangeUnits_of_endFree (hend : sto.EndFree r) :
    sto.rangeUnits r = sto.units.filter r.holds := by
  rw [rangeUnits_eq hr.unixNano_succ]
  refine filter_congr fun u hu => ?_
  have hne := hend u hu
  rw [TimeSize.holds, Bool.eq_iff_iff]
  simp only [decide_eq_true_eq, Bool.and_eq_true]
  omega

theorem mem_rangeUnits_of_end {u : UnitInfo} (hu : u ∈ sto.units)
    (hbegin : unixNano r.beginTime ≤ u.time) (hend : u.time = unixNano r.endTime) :
    u ∈ sto.rangeUnits r := by
  rw [rangeUnits_eq hr.unixNano_succ]
  exact mem_filter.mpr ⟨hu, decide_eq_true ⟨hbegin, le_of_eq hend⟩⟩

end Scan

theorem Storage.units_inOrder (sto : Storage) : InOrder sto.units :=
  pairwise_map.mpr sto.timeline.ordered

theorem TimeSize.not_holds_end {r : TimeSize} {u : UnitInfo} (h : u.time = unixNano r.endTime) :
    ¬ r.holds u = true := by
  simp only [TimeSize.holds, Bool.and_eq_true, decide_eq_true_eq]
  omega

section Enough

variable {sto : Storage} {number : Nat} {r : TimeSize}

theorem cellUnits_hour (horigin : r = cell r.beginTime 0 0)
    (hcrowd : Uncrowded r.beginTime maxSlotUnits (sto.units.filter r.holds)) :
    CellUnits r.beginTime maxSlotUnits 0 0 (sto.units.filter r.holds) := by
  refine ⟨zero_le _, one_pos, fun u hu => ?_, sto.units_inOrder.filter _, hcrowd⟩
  rw [← horigin]
  exact (mem_filter.mp hu).2

def hourHalving (sto : Storage) (r : TimeSize) : Lib.Halving (List UnitInfo) :=
  halve r.beginTime maxSlotUnits maxHalvings 0 0 (sto.units.filter r.holds)

theorem hourHalving_proper (sto : Storage) (r : TimeSize) : (hourHalving sto r).Proper :=
  halve_proper _ _ _ _ _ (sto.units_inOrder.filter _)

theorem hourTree_covers (horigin : r = cell r.beginTime 0 0)
    (hcrowd : Uncrowded r.beginTime maxSlotUnits (sto.units.filter r.holds)) :
    sto.Covers r (hourTree r.beginTime (hourHalving sto r)) := by
  have hunits := cellUnits_hour horigin hcrowd
  have hslots := halve_slots r.beginTime maxSlotUnits maxHalvings 0 0 hunits.order
  have hfew := hunits.slot_le (zero_add maxHalvings)
  have hrange : (hourTree r.beginTime (hourHalving sto r)).timeRange = r := by
    rw [hourTree_timeRange, ← horigin]
  by_cases hnone : sto.units.filter r.holds = []
  · have hempty : hourHalving sto r = .empty := halve_eq_empty_iff.mpr hnone
    refine ⟨hrange, ?_, ?_⟩
    · rw [hempty, hnone]
      rfl
    · rw [hempty]
      intro leaf hleaf
      cases mem_singleton.mp hleaf
      exact .inl (zero_le _)
  · have hne : hourHalving sto r ≠ .empty := fun h => hnone (halve_eq_empty_iff.mp h)
    have hleaves := hourTree_leaves r.beginTime (hourHalving_proper sto r) hne
    refine ⟨hrange, ?_, ?_⟩
    · rw [SlotTree.units, hleaves, flatMap_map]
      exact hslots
    · intro leaf hleaf
      rw [hleaves] at hleaf
      obtain ⟨s, hs, rfl⟩ := mem_map.mp hleaf
      exact .inl (hfew s hs).2

section

variable (hnumber : sto.timeRange number = .ok r)
include hnumber

theorem getPointTree_hour (hr : PointRange r) (horigin : r = cell r.beginTime 0 0)
    (hsize : microsecond < r.size) (hend : sto.EndFree r) (hzero : sto.ZeroFree r)
    (hcrowd : Uncrowded r.beginTime maxSlotUnits (sto.units.filter r.holds)) :
    Lib.Returns (fun fuel => sto.getPointTree fuel number)
      (hourTree r.beginTime (hourHalving sto r)) := by
  have hunits := cellUnits_hour horigin hcrowd
  have hin : ∀ u ∈ sto.units.filter r.holds, u.time < unixNano r.endTime ∧ u.time ≠ 0 := by
    intro u hu
    have hbefore := hunits.before_end u hu
    rw [← horigin] at hbefore
    exact ⟨hbefore, hzero u hu⟩
  refine ⟨maxHalvings + 1, fun fuel hfuel => ?_⟩
  have hnodes := hunits.findNodes_eq (zero_add maxHalvings) (.inr rfl) hfuel
  rw [← horigin] at hnodes
  have htree := createTree_eq r.beginTime
    (fun s hs => (hunits.slot_le (zero_add maxHalvings) s hs).1.depth) (hourHalving_proper sto r)
  rw [← horigin] at htree
  refine bind_eq_ok_iff.mpr ⟨r, hnumber, bind_eq_ok_iff.mpr ⟨(_, some []), ?_, htree⟩⟩
  rw [rangeUnits_of_endFree hr hend, findNodes_open hsize hin, hnodes]

theorem getPointTree_small (hsize : r.size = -2 ^ 63) (fuel : Nat) :
    sto.getPointTree (fuel + 1) number =
      .ok (.mk (some (sto.rangeUnits r)) .nil .nil r) := by
  have hsmall : r.size ≤ microsecond := by
    rw [hsize]
    decide
  have hdepth : calcDepth r.size r.size = 0 := by
    rw [hsize]
    decide
  have hnonzero : ¬ r.size = 0 := by
    rw [hsize]
    decide
  refine bind_eq_ok_iff.mpr ⟨r, hnumber, bind_eq_ok_iff.mpr
    ⟨([⟨sto.rangeUnits r, r⟩], some []), ?_, ?_⟩⟩
  · rw [findNodes, if_pos hsmall]
    rfl
  · simp [createTree, hnonzero, SlotNode.depth, hdepth, SlotTree.joinLevels, SlotNode.tree]

theorem pointTreeOk_of_small (hr : PointRange r) (hsize : r.size = -2 ^ 63) (hend : sto.EndFree r) :
    sto.PointTreeOk number := by
  refine ⟨r, _, hnumber, .of_succ (.of_forall (getPointTree_small hnumber hsize)), rfl, ?_, ?_⟩
  · rw [← rangeUnits_of_endFree hr hend]
    exact flatMap_singleton _ _
  · intro leaf hleaf
    cases mem_singleton.mp hleaf
    refine .inr ?_
    rw [hsize]
    decide

end

end Enough

/-! ## Where it is not -/

section Needed

variable {sto : Storage} {number : Nat} {r : TimeSize}

theorem getPointTree_inv {t : SlotTree} (hnumber : sto.timeRange number = .ok r)
    (ht : sto.getPointTree fuel number = .ok t) :
    ∃ items rest, findNodes fuel r maxSlotUnits [] (some (sto.rangeUnits r)) = .ok (items, rest) ∧
      createTree r items = .ok t := by
  obtain ⟨r', hr', ht⟩ := bind_eq_ok_iff.mp ht
  rw [hnumber] at hr'
  cases hr'
  obtain ⟨⟨items, rest⟩, hitems, ht⟩ := bind_eq_ok_iff.mp ht
  exact ⟨items, rest, hitems, ht⟩

theorem findNodes_zero {u : UnitInfo} (hu : u.time = 0) (fuel : Nat) (hsize : microsecond < r.size)
    (maxSize : Nat) (next : List UnitInfo) :
    findNodes (fuel + 1) r maxSize [] (some (u :: next)) = .ok ([], some next) := by
  rw [findNodes, if_neg (Int.not_le.mpr hsize)]
  simp [splitUnits, Parts.readNext, Parts.empty, hu]

theorem zeroFree_of_covers (hr : PointRange r) (hsize : microsecond < r.size) {t : SlotTree}
    (hnumber : sto.timeRange number = .ok r) (ht : sto.getPointTree fuel number = .ok t)
    (hcovers : sto.Covers r t) : sto.ZeroFree r := by
  intro u hu hzero
  obtain ⟨items, rest, hitems, ht⟩ := getPointTree_inv hnumber ht
  have horder : InOrder (sto.rangeUnits r) := by
    rw [rangeUnits_eq hr.unixNano_succ]
    exact sto.units_inOrder.filter _
  have hread := mem_rangeUnits_of_holds hr.unixNano_succ (mem_filter.mp hu).1 (mem_filter.mp hu).2
  cases hunits : sto.rangeUnits r with
  | nil =>
    rw [hunits] at hread
    cases hread
  | cons v next =>
    have hv : v.time = 0 := by
      rw [hunits] at horder hread
      rcases mem_cons.mp hread with rfl | hread
      · exact hzero
      · have := (pairwise_cons.mp horder).1 u hread
        omega
    cases fuel with
    | zero => cases hitems
    | succ fuel =>
      rw [hunits, findNodes_zero hv fuel hsize] at hitems
      cases hitems
      cases ht
      rw [← hcovers.units] at hu
      cases hu

theorem endFree_of_covers (hr : PointRange r) {t : SlotTree}
    (hnumber : sto.timeRange number = .ok r) (ht : sto.getPointTree fuel number = .ok t)
    (hcovers : sto.Covers r t) : sto.EndFree r := by
  intro u hu hbegin hend
  have hread := mem_rangeUnits_of_end hr hu hbegin hend
  have hnot : u ∉ t.units := by
    rw [hcovers.units]
    exact fun h => TimeSize.not_holds_end hend (mem_filter.mp h).2
  rcases hr.cases_size with ⟨-, hsize⟩ | hsize
  · have hzero := zeroFree_of_covers hr hsize hnumber ht hcovers
    have hstops : NoneStops (some (sto.rangeUnits r)) := by
      intro v hv hv0
      have hne := hr.unixNano_ne
      rw [remaining, Option.getD_some, rangeUnits_eq hr.unixNano_succ] at hv
      obtain ⟨hmem, hv⟩ := mem_filter.mp hv
      refine hzero v (mem_filter.mpr ⟨hmem, ?_⟩) hv0
      simp only [TimeSize.holds, Bool.and_eq_true, decide_eq_true_eq] at hv ⊢
      omega
    obtain ⟨items, rest, hitems, ht⟩ := getPointTree_inv hnumber ht
    obtain ⟨n, hn, hchains⟩ := (findNodes_mem hstops hitems).2 u (.inr hread)
    exact hnot (createTree_has ht hn hchains)
  · cases fuel with
    | zero =>
      obtain ⟨items, rest, hitems, ht⟩ := getPointTree_inv hnumber ht
      cases hitems
    | succ fuel =>
      rw [getPointTree_small hnumber hsize] at ht
      cases ht
      refine hnot ?_
      rw [SlotTree.units, SlotTree.leaves, flatMap_singleton]
      exact hread

end Needed

/-- The tree is right if no unit is at the very end of the hour, none in it at time zero, and no
part of the last halving is crowded; the first two are needed. -/
theorem pointTreeOk (sto : Storage) {number : Nat} (hn : 1 ≤ number) :
    ∃ r, sto.timeRange number = .ok r ∧
      (sto.EndFree r ∧ (microsecond < r.size → sto.ZeroFree r ∧
        Uncrowded r.beginTime maxSlotUnits (sto.units.filter r.holds)) →
          sto.PointTreeOk number) ∧
      (sto.PointTreeOk number →
        sto.EndFree r ∧ (microsecond < r.size → sto.ZeroFree r)) := by
  obtain ⟨r, hnumber, hr⟩ := sto.timeRange_ok hn
  refine ⟨r, hnumber, ?_, ?_⟩
  · rintro ⟨hend, hhour⟩
    rcases hr.cases_size with ⟨horigin, hsize⟩ | hsize
    · obtain ⟨hzero, hcrowd⟩ := hhour hsize
      exact ⟨r, _, hnumber, getPointTree_hour hnumber hr horigin hsize hend hzero hcrowd,
        hourTree_covers horigin hcrowd⟩
    · exact pointTreeOk_of_small hnumber hr hsize hend
  · rintro ⟨r', t, hnumber', ⟨bound, ht⟩, hcovers⟩
    rw [hnumber] at hnumber'
    cases hnumber'
    have ht := ht bound (le_refl bound)
    exact ⟨endFree_of_covers hr hnumber ht hcovers, fun hsize =>
      zeroFree_of_covers hr hsize hnumber ht hcovers⟩

def twoUnits : Storage where
  firstTimestamp := 1546300800000000000
  timeline :=
    { units := [(1546300800000000000, ⟨1⟩), (1546304000000000000, ⟨2⟩)]
      ordered := by decide
      fits := by decide }

theorem pointTreeOk_twoUnits : 1 ≤ 1 ∧ twoUnits.PointTreeOk 1 := by
  refine ⟨le_refl 1, ?_⟩
  obtain ⟨r, hr, henough, -⟩ := pointTreeOk twoUnits (le_refl 1)
  have hhour : twoUnits.timeRange 1 = .ok ⟨1546300800000000000, 1546304400000000000⟩ := by
    decide +kernel
  cases hhour.symm.trans hr
  refine henough ⟨by unfold Storage.EndFree; decide, fun _ => ⟨by unfold Storage.ZeroFree; decide, ?_⟩⟩
  intro j _
  refine le_trans (length_filter_le _ _) ?_
  decide

def endUnit : Storage where
  firstTimestamp := 1546300800000000000
  timeline :=
    { units := [(1546304400000000000, ⟨1⟩)]
      ordered := by decide
      fits := by decide }

/-- The tree of the first hour is that of the second. -/
theorem endUnit_secondHour : ¬ endUnit.PointTreeOk 1 ∧
    endUnit.getPointTree 2 1 = .ok (.mk (some [⟨1546304400000000000, ⟨1⟩⟩]) .nil .nil
      ⟨1546304400000000000, 1546308000000000000⟩) := by
  refine ⟨?_, by decide +kernel⟩
  rintro ⟨r, t, hnumber, ⟨bound, ht⟩, hcovers⟩
  obtain ⟨r', hnumber', hr⟩ := endUnit.timeRange_ok (le_refl 1)
  cases hnumber'.symm.trans hnumber
  have hend := endFree_of_covers hr hnumber (ht bound (le_refl bound)) hcovers
  have hhour : endUnit.timeRange 1 = .ok ⟨1546300800000000000, 1546304400000000000⟩ := by
    decide +kernel
  cases hhour.symm.trans hnumber
  exact hend ⟨1546304400000000000, ⟨1⟩⟩ (.head _) (by decide) (by decide)

end Nerthus.Bysolt
