import Nerthus.Bysolt.FindNodes

/-!
# What CreateTree makes

`CreateTree` is given the slots of a halving and has to find the halving again: a
node's depth from the width of its range and its place from the begin of it.
-/

namespace Nerthus.Bysolt

open Lib (Halving)
open SlotTree List Nat

def treeOf (origin : Int) : Halving (List UnitInfo) → (d i : Nat) → SlotTree
  | .empty, _, _ => .nil
  | .slot units, d, i => .mk (some units) .nil .nil (cell origin d i)
  | .split left right, d, i =>
    .mk none (treeOf origin left (d + 1) (2 * i)) (treeOf origin right (d + 1) (2 * i + 1))
      (cell origin d i)

def hourTree (origin : Int) (h : Halving (List UnitInfo)) : SlotTree :=
  match h with
  | .empty => .mk none .nil .nil (cell origin 0 0)
  | h => treeOf origin h 0 0

namespace SlotTree

theorem leaves_of_ne_nil {left right : SlotTree} (h : left ≠ nil ∨ right ≠ nil)
    (value : Option (List UnitInfo)) (r : TimeSize) :
    (mk value left right r).leaves = left.leaves ++ right.leaves := by
  cases left with
  | mk => rfl
  | nil =>
    cases right with
    | mk => rfl
    | nil => simp at h

theorem insertNode_perm (node : SlotTree) (level : List SlotTree) :
    List.Perm (insertNode node level) (level ++ [node]) :=
  perm_insertionSort _ _

def Ordered (level : List SlotTree) : Prop :=
  level.Pairwise fun x y => x.timeRange.beginTime ≤ y.timeRange.beginTime

theorem insertNode_ordered (node : SlotTree) (level : List SlotTree) :
    Ordered (insertNode node level) := by
  have : Std.Total fun x y : SlotTree => x.timeRange.beginTime ≤ y.timeRange.beginTime :=
    ⟨fun x y => Int.le_total _ _⟩
  have : IsTrans SlotTree fun x y => x.timeRange.beginTime ≤ y.timeRange.beginTime :=
    ⟨fun x y z => Int.le_trans⟩
  exact pairwise_insertionSort _ _

def insertAll (nodes above : List SlotTree) : List SlotTree :=
  nodes.foldl (fun above node => insertNode node above) above

theorem insertAll_perm (nodes above : List SlotTree) :
    List.Perm (insertAll nodes above) (above ++ nodes) := by
  induction nodes generalizing above with
  | nil => rw [append_nil]; exact .refl _
  | cons node nodes ih =>
    have hstep := (insertNode_perm node above).append_right nodes
    rw [append_assoc, singleton_append] at hstep
    exact (ih _).trans hstep

theorem insertAll_ordered (nodes : List SlotTree) {above : List SlotTree} (h : Ordered above) :
    Ordered (insertAll nodes above) := by
  induction nodes generalizing above with
  | nil => exact h
  | cons node nodes ih => exact ih (insertNode_ordered node above)

end SlotTree

variable {h : Halving (List UnitInfo)} {parts : List (Nat × Halving (List UnitInfo))} {d : Nat}

section TreeOf

variable (origin : Int)

theorem treeOf_ne_nil (hne : h ≠ .empty) (d i : Nat) : treeOf origin h d i ≠ .nil := by
  cases h with
  | empty => exact absurd rfl hne
  | slot units => simp [treeOf]
  | split left right => simp [treeOf]

theorem treeOf_timeRange (hne : h ≠ .empty) (d i : Nat) :
    (treeOf origin h d i).timeRange = cell origin d i := by
  cases h with
  | empty => exact absurd rfl hne
  | slot units => rfl
  | split left right => rfl

theorem treeOf_leaves (hproper : h.Proper) (d i : Nat) : (treeOf origin h d i).leaves =
      (h.slots d i).map fun s => (s.2.2, cell origin s.1 s.2.1) := by
  induction h generalizing d i with
  | empty => rfl
  | slot units => rfl
  | split left right ihl ihr =>
    obtain ⟨hne, hl, hr⟩ := hproper
    have hchild : treeOf origin left (d + 1) (2 * i) ≠ .nil ∨
        treeOf origin right (d + 1) (2 * i + 1) ≠ .nil := by
      rcases hne with hne | hne
      · exact Or.inl (treeOf_ne_nil origin hne _ _)
      · exact Or.inr (treeOf_ne_nil origin hne _ _)
    rw [treeOf, leaves_of_ne_nil hchild, ihl hl, ihr hr, Halving.slots, map_append]

theorem treeOf_size (hne : h ≠ .empty) (hd : d ≤ maxHalvings) (i : Nat) :
    (treeOf origin h d i).timeRange.size = span d := by
  rw [treeOf_timeRange origin hne, cell_size origin i hd]

theorem treeOf_loc (hne : h ≠ .empty) {i : Nat} (hd : d ≤ maxHalvings) (hi : i < 2 ^ d) :
    (treeOf origin h d i).loc (cell origin 0 0) = i + 1 := by
  have hdist : (cell origin d i).beginTime - (cell origin 0 0).beginTime = i * span d := by
    rw [cell_zero]
    simp only [cell]
    ring
  have hnonneg : 0 ≤ i * span d := Int.mul_nonneg (by omega) (Int.le_of_lt (span_pos hd))
  have hle := mul_span_le hd (le_of_lt hi)
  rw [loc, treeOf_size origin hne hd, treeOf_timeRange origin hne,
    sub_eq (by omega) (by omega), hdist, Int.mul_tdiv_cancel _ (Int.ne_of_gt (span_pos hd))]

theorem loc_odd_iff (i : Nat) : ((i : Int) + 1).tmod 2 = 1 ↔ i % 2 = 0 := by
  rw [Int.tmod_eq_emod_of_nonneg (by omega)]
  omega

def nodes (d : Nat) (parts : List (Nat × Halving (List UnitInfo))) : List SlotTree :=
  parts.map fun x => treeOf origin x.2 d x.1

def OnLevel (d : Nat) (parts : List (Nat × Halving (List UnitInfo))) : Prop :=
  ∀ x ∈ parts, x.1 < 2 ^ d ∧ x.2 ≠ .empty

variable {d : Nat} (hd : d < maxHalvings) {x y : Nat × Halving (List UnitInfo)}

include hd

theorem treeOf_pair (hx : x.2 ≠ .empty) (hy : y.2 ≠ .empty) (heven : x.1 % 2 = 0)
    (hnext : y.1 = x.1 + 1) : pair (treeOf origin x.2 (d + 1) x.1) (treeOf origin y.2 (d + 1) y.1) =
      treeOf origin (.split x.2 y.2) d (x.1 / 2) := by
  obtain ⟨j, hj⟩ : ∃ j, x.1 = 2 * j := ⟨x.1 / 2, by omega⟩
  have hhalf : x.1 / 2 = j := by omega
  rw [SlotTree.pair, treeOf_timeRange origin hx, treeOf_timeRange origin hy, treeOf, hhalf, hnext,
    hj]
  congr 1
  simp only [cell, span_succ hd]
  congr 1 <;> push_cast <;> ring

theorem treeOf_single (hx : x.2 ≠ .empty) (hi : x.1 < 2 ^ (d + 1)) :
    (treeOf origin x.2 (d + 1) x.1).single (cell origin 0 0) =
      treeOf origin (Halving.single x).2 d (Halving.single x).1 := by
  rw [single, treeOf_loc origin hx hd hi, treeOf_size origin hx hd,
    treeOf_timeRange origin hx, Halving.single]
  by_cases heven : x.1 % 2 = 0
  · obtain ⟨j, hj⟩ : ∃ j, x.1 = 2 * j := ⟨x.1 / 2, by omega⟩
    have hhalf : x.1 / 2 = j := by omega
    have hodd := (loc_odd_iff x.1).mpr heven
    simp only [if_pos heven, if_pos hodd, treeOf, hhalf]
    rw [hj]
    congr 1
    simp only [cell, span_succ hd]
    congr 1 <;> push_cast <;> ring
  · obtain ⟨j, hj⟩ : ∃ j, x.1 = 2 * j + 1 := ⟨x.1 / 2, by omega⟩
    have hhalf : x.1 / 2 = j := by omega
    have hnot := mt (loc_odd_iff x.1).mp heven
    simp only [if_neg heven, if_neg hnot, treeOf, hhalf]
    rw [hj]
    congr 1
    simp only [cell, span_succ hd]
    congr 1 <;> push_cast <;> ring

theorem joinLevel_eq (hparts : OnLevel (d + 1) parts) (above : List SlotTree) :
    joinLevel (cell origin 0 0) (d + 1) (nodes origin (d + 1) parts) above =
      .ok (insertAll (nodes origin d (Halving.raise parts)) above) := by
  have hspan : span (d + 1) ≠ 0 := Int.ne_of_gt (span_pos hd)
  induction parts using Lib.Halving.raise.induct generalizing above with
  | case1 => rfl
  | case2 x =>
    obtain ⟨hi, hne⟩ := hparts x (.head _)
    simp only [nodes, map_cons, map_nil, joinLevel]
    rw [treeOf_size origin hne hd, if_neg hspan, treeOf_single origin hd hne hi]
    rfl
  | case3 x y rest hpair ih =>
    obtain ⟨hi, hne⟩ := hparts x (.head _)
    obtain ⟨hi', hne'⟩ := hparts y (.tail _ (.head _))
    have hrest := ih fun z hz =>
      hparts z (.tail _ (.tail _ hz))
    have hplace : (x.1 : Int) + 1 + 1 = y.1 + 1 ∧ ((x.1 : Int) + 1).tmod 2 = 1 := by
      rw [loc_odd_iff]
      omega
    simp only [nodes, map_cons, joinLevel] at hrest ⊢
    rw [treeOf_size origin hne hd, treeOf_size origin hne' hd, treeOf_loc origin hne hd hi,
      treeOf_loc origin hne' hd hi', if_neg (not_not.mpr rfl), if_neg hspan, if_pos hplace,
      treeOf_pair origin hd hne hne' hpair.1 hpair.2, hrest, Halving.raise, if_pos hpair]
    rfl
  | case4 x y rest hapart ih =>
    obtain ⟨hi, hne⟩ := hparts x (.head _)
    obtain ⟨hi', hne'⟩ := hparts y (.tail _ (.head _))
    have hrest := ih fun z hz => hparts z (.tail _ hz)
    have hplace : ¬ ((x.1 : Int) + 1 + 1 = y.1 + 1 ∧ ((x.1 : Int) + 1).tmod 2 = 1) := by
      rw [loc_odd_iff]
      omega
    simp only [nodes, map_cons, joinLevel] at hrest ⊢
    rw [treeOf_size origin hne hd, treeOf_size origin hne' hd, treeOf_loc origin hne hd hi,
      treeOf_loc origin hne' hd hi', if_neg (not_not.mpr rfl), if_neg hspan, if_neg hplace,
      treeOf_single origin hd hne hi, hrest, Halving.raise, if_neg hapart]
    rfl

end TreeOf

section Levels

variable (origin : Int) {h : Halving (List UnitInfo)}

theorem level_onLevel (h : Halving (List UnitInfo)) (d : Nat) : OnLevel d (h.level d 0) := by
  intro x hx
  have hmem := Halving.mem_level hx
  rw [zero_add, one_mul] at hmem
  exact hmem.2

theorem nodes_beginTime (hparts : OnLevel d parts) {node : SlotTree}
    (hnode : node ∈ nodes origin d parts) : ∃ x ∈ parts, node = treeOf origin x.2 d x.1 ∧
      node.timeRange.beginTime = origin + x.1 * span d := by
  obtain ⟨x, hx, rfl⟩ := mem_map.mp hnode
  exact ⟨x, hx, rfl, by rw [treeOf_timeRange origin (hparts x hx).2]; rfl⟩

theorem nodes_ordered (hd : d ≤ maxHalvings) (hparts : OnLevel d parts)
    (hindex : parts.Pairwise fun x y => x.1 < y.1) : SlotTree.Ordered (nodes origin d parts) := by
  refine pairwise_map.mpr (hindex.imp_of_mem fun {x y} hx hy hlt => ?_)
  rw [treeOf_timeRange origin (hparts x hx).2, treeOf_timeRange origin (hparts y hy).2]
  have hcast : (x.1 : Int) ≤ y.1 := by omega
  have hmul := Int.mul_le_mul_of_nonneg_right hcast (Int.le_of_lt (span_pos hd))
  simp only [cell]
  omega

theorem eq_nodes_of_perm (hd : d ≤ maxHalvings) (h : Halving (List UnitInfo))
    {level : List SlotTree} (hordered : SlotTree.Ordered level)
    (hperm : List.Perm level (nodes origin d (h.level d 0))) :
    level = nodes origin d (h.level d 0) := by
  have hon := level_onLevel h d
  have hindex := Halving.level_pairwise h d 0
  refine hperm.eq_of_pairwise (fun a b ha hb hab hba => ?_) hordered
    (nodes_ordered origin hd hon hindex)
  obtain ⟨x, hx, rfl, hxbegin⟩ := nodes_beginTime origin hon (hperm.mem_iff.mp ha)
  obtain ⟨y, hy, rfl, hybegin⟩ := nodes_beginTime origin hon hb
  have hbegin : x.1 * span d = y.1 * span d := by omega
  have hsame : x.1 = y.1 := by
    exact_mod_cast Int.eq_of_mul_eq_mul_right (Int.ne_of_gt (span_pos hd)) hbegin
  rw [Halving.level_index_inj hx hy hsame]

def slotsAt (h : Halving (List UnitInfo)) (d : Nat) : List (Nat × Halving (List UnitInfo)) :=
  ((h.slots 0 0).filter fun s => s.1 = d).map fun s => (s.2.1, .slot s.2.2)

theorem slotsAt_eq (h : Halving (List UnitInfo)) (d : Nat) :
    slotsAt h d = (h.level d 0).filter fun x => x.2.isSlot := by
  have hfilter := Halving.level_filter_isSlot h d 0 0
  rw [zero_add] at hfilter
  exact hfilter.symm

theorem slotsAt_ordered (hd : d ≤ maxHalvings) (h : Halving (List UnitInfo)) :
    SlotTree.Ordered (nodes origin d (slotsAt h d)) := by
  rw [slotsAt_eq]
  refine nodes_ordered origin hd (fun x hx => ?_) ((Halving.level_pairwise h d 0).filter _)
  exact level_onLevel h d x (mem_of_mem_filter hx)

theorem insertAll_raise (hd : d < maxHalvings) (hproper : h.Proper) :
    insertAll (nodes origin d (Halving.raise (h.level (d + 1) 0)))
      (nodes origin d (slotsAt h d)) = nodes origin d (h.level d 0) := by
  have hlevel := Halving.level_perm hproper d 0 0
  rw [zero_add] at hlevel
  refine eq_nodes_of_perm origin (le_of_lt hd) h
    (insertAll_ordered _ (slotsAt_ordered origin (le_of_lt hd) h)) ?_
  refine (insertAll_perm _ _).trans ?_
  rw [nodes, nodes, ← map_append]
  exact (hlevel.map _).symm

theorem joinLevels_eq (hproper : h.Proper) {depth : Nat} (hdepth : depth ≤ maxHalvings)
    {depths : Nat → List SlotTree} (htop : depths depth = nodes origin depth (h.level depth 0))
    (hslots : ∀ d < depth, depths d = nodes origin d (slotsAt h d)) :
    joinLevels (cell origin 0 0) depth depths = .ok (hourTree origin h) := by
  induction depth generalizing depths with
  | zero =>
    rw [joinLevels, htop]
    cases h with
    | empty => rfl
    | slot units => rfl
    | split left right => rfl
  | succ depth ih =>
    rw [joinLevels, htop, hslots depth (Nat.lt_succ_self depth),
      joinLevel_eq origin hdepth (level_onLevel h _), insertAll_raise origin hdepth hproper]
    refine ih (Nat.le_of_lt hdepth) (Function.update_self ..) fun d hd => ?_
    rw [Function.update_of_ne (Nat.ne_of_lt hd)]
    exact hslots d (Nat.lt_succ_of_lt hd)

end Levels

theorem slotNode_depth (origin : Int) {s : Nat × Nat × List UnitInfo} (hs : s.1 ≤ maxHalvings) :
    (slotNode origin s).depth (cell origin 0 0) = s.1 := by
  have hhour : (cell origin 0 0).size = pointTimeSpan := cell_size origin 0 (zero_le _)
  rw [SlotNode.depth, hhour, slotNode, cell_size origin s.2.1 hs, calcDepth_span hs]

theorem foldl_max_le_iff {α : Type*} (f : α → Nat) (l : List α) (m bound : Nat) :
    l.foldl (fun m x => max m (f x)) m ≤ bound ↔ m ≤ bound ∧ ∀ x ∈ l, f x ≤ bound := by
  induction l generalizing m with
  | nil => simp
  | cons x l ih =>
    rw [foldl_cons, ih, Nat.max_le, forall_mem_cons, and_assoc]

section CreateTree

variable (origin : Int) {h : Halving (List UnitInfo)}
  (hslots : ∀ s ∈ h.slots 0 0, s.1 ≤ maxHalvings)

include hslots

theorem slotNodes_size : ¬ (((h.slots 0 0).map (slotNode origin)).any
    fun v => v.timeRange.size = 0) = true := by
  simp only [any_eq_true, mem_map, decide_eq_true_eq, not_exists, not_and]
  rintro _ ⟨s, hs, rfl⟩
  rw [slotNode, cell_size origin s.2.1 (hslots s hs)]
  exact Int.ne_of_gt (span_pos (hslots s hs))

theorem slotNodes_filter (d : Nat) : (((h.slots 0 0).map (slotNode origin)).filter
      fun v => v.depth (cell origin 0 0) = d).map SlotNode.tree =
        nodes origin d (slotsAt h d) := by
  have hfilter : (h.slots 0 0).filter
      ((fun v => decide (v.depth (cell origin 0 0) = d)) ∘ slotNode origin) =
        (h.slots 0 0).filter fun s => s.1 = d := by
    refine filter_congr fun s hs => ?_
    simp only [Function.comp_apply, slotNode_depth origin (hslots s hs)]
  rw [filter_map, slotsAt, nodes, map_map, map_map, hfilter]
  refine map_congr_left fun s hs => ?_
  have hsd : s.1 = d := of_decide_eq_true (mem_filter.mp hs).2
  simp only [Function.comp_apply, slotNode, SlotNode.tree, treeOf, hsd]

theorem slotNodes_depth_le_iff (bound : Nat) : ((h.slots 0 0).map (slotNode origin)).foldl
      (fun maxDepth v => max maxDepth (v.depth (cell origin 0 0))) 0 ≤ bound ↔
        ∀ s ∈ h.slots 0 0, s.1 ≤ bound := by
  rw [foldl_max_le_iff]
  simp only [zero_le, true_and, forall_mem_map]
  refine forall₂_congr fun s hs => ?_
  rw [slotNode_depth origin (hslots s hs)]

theorem createTree_eq (hproper : h.Proper) :
    createTree (cell origin 0 0) ((h.slots 0 0).map (slotNode origin)) =
      .ok (hourTree origin h) := by
  have hdeepest := slotNodes_depth_le_iff origin hslots
  rw [createTree, if_neg (slotNodes_size origin hslots)]
  refine joinLevels_eq origin hproper ((hdeepest _).mpr hslots) ?_
    fun d _ => slotNodes_filter origin hslots d
  rw [slotNodes_filter origin hslots, slotsAt_eq,
    Halving.filter_isSlot_eq_self hproper (d := 0) fun s hs => ?_]
  rw [zero_add]
  exact (hdeepest _).mp (le_refl _) s hs

end CreateTree

theorem hourTree_timeRange (origin : Int) (h : Halving (List UnitInfo)) :
    (hourTree origin h).timeRange = cell origin 0 0 := by
  cases h <;> rfl

theorem hourTree_leaves (origin : Int) (hproper : h.Proper) (hne : h ≠ .empty) :
    (hourTree origin h).leaves =
      (h.slots 0 0).map fun s => (s.2.2, cell origin s.1 s.2.1) := by
  cases h with
  | empty => exact absurd rfl hne
  | slot units => exact treeOf_leaves origin hproper 0 0
  | split left right => exact treeOf_leaves origin hproper 0 0

end Nerthus.Bysolt
