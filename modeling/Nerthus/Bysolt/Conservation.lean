import Nerthus.Bysolt.CreateTree
import Nerthus.Lib.Fuel

/-!
# Nothing that is read is lost

Every unit that `FindNodes` is given or reads is in one of its nodes, and every unit of
a node is in the tree that `CreateTree` returns.
-/

namespace Nerthus.Bysolt

open List Lib

/-! ## CreateTree -/

variable {u : UnitInfo} {middle endTime maxSize : Nat} {next : Option (List UnitInfo)}
  {nodes : List SlotNode} {timeSize : TimeSize}

namespace SlotTree

def units (t : SlotTree) : List UnitInfo := t.leaves.flatMap fun leaf => leaf.1

theorem units_mk {left right : SlotTree} (h : left ≠ nil ∨ right ≠ nil)
    (value : Option (List UnitInfo)) (r : TimeSize) :
    (mk value left right r).units = left.units ++ right.units := by
  rw [units, leaves_of_ne_nil h, flatMap_append]
  rfl

def Has (u : UnitInfo) (level : List SlotTree) : Prop := ∃ t ∈ level, t ≠ nil ∧ u ∈ t.units

theorem Has.perm {level level' : List SlotTree} (h : Has u level) (hperm : List.Perm level level') :
    Has u level' := by
  obtain ⟨t, ht, hu⟩ := h
  exact ⟨t, hperm.mem_iff.mp ht, hu⟩

theorem has_append {level level' : List SlotTree} :
    Has u (level ++ level') ↔ Has u level ∨ Has u level' := by
  simp only [Has, mem_append, or_and_right, exists_or]

theorem has_insertNode (node : SlotTree) (level : List SlotTree) :
    Has u (insertNode node level) ↔ Has u level ∨ node ≠ nil ∧ u ∈ node.units := by
  have hperm := insertNode_perm node level
  have hsingle : Has u [node] ↔ node ≠ nil ∧ u ∈ node.units := by simp [Has]
  rw [← hsingle, ← has_append]
  exact ⟨fun h => h.perm hperm, fun h => h.perm hperm.symm⟩

theorem mem_units_single {a : SlotTree} (ha : a ≠ nil) (hu : u ∈ a.units) (timeSize : TimeSize) :
    u ∈ (a.single timeSize).units ∧ a.single timeSize ≠ nil := by
  unfold single
  split
  · rw [units_mk (.inl ha)]
    exact ⟨mem_append_left _ hu, nofun⟩
  · rw [units_mk (.inr ha)]
    exact ⟨mem_append_right _ hu, nofun⟩

theorem mem_units_pair {a b : SlotTree} (h : a ≠ nil ∧ u ∈ a.units ∨ b ≠ nil ∧ u ∈ b.units) :
    u ∈ (pair a b).units ∧ pair a b ≠ nil := by
  rw [pair, units_mk (h.imp And.left And.left)]
  exact ⟨mem_append.mpr (h.imp And.right And.right), by simp⟩

theorem has_cons {a : SlotTree} {level : List SlotTree} :
    Has u (a :: level) ↔ a ≠ nil ∧ u ∈ a.units ∨ Has u level := by
  simp only [Has, mem_cons, or_and_right, exists_or, exists_eq_left]

theorem joinLevel_has {depth : Nat} {curr above result : List SlotTree}
    (hresult : joinLevel timeSize depth curr above = .ok result) (hu : Has u curr ∨ Has u above) :
    Has u result := by
  induction curr, above using joinLevel.induct timeSize with
  | case1 above =>
    cases hresult
    exact hu.resolve_left fun ⟨_, h, _⟩ => (by cases h)
  | case2 above a hzero =>
    rw [joinLevel, if_pos hzero] at hresult
    cases hresult
  | case3 above a hsize =>
    rw [joinLevel, if_neg hsize] at hresult
    cases hresult
    rw [has_insertNode]
    rcases hu with hu | hu
    · obtain ⟨t, ht, hne, hu⟩ := hu
      cases mem_singleton.mp ht
      exact .inr (mem_units_single hne hu timeSize).symm
    · exact .inl hu
  | case4 above a b curr hdiffers =>
    rw [joinLevel, if_pos hdiffers] at hresult
    cases hresult
  | case5 above a b curr hsame hzero =>
    rw [joinLevel, if_neg hsame, if_pos hzero] at hresult
    cases hresult
  | case6 above a b curr hsame hsize hplace ih =>
    rw [joinLevel, if_neg hsame, if_neg hsize, if_pos hplace] at hresult
    refine ih hresult ?_
    rw [has_insertNode]
    rw [has_cons, has_cons] at hu
    rcases hu with (ha | hb | hcurr) | habove
    · exact .inr (.inr (mem_units_pair (.inl ha)).symm)
    · exact .inr (.inr (mem_units_pair (.inr hb)).symm)
    · exact .inl hcurr
    · exact .inr (.inl habove)
  | case7 above a b curr hsame hsize hplace ih =>
    rw [joinLevel, if_neg hsame, if_neg hsize, if_neg hplace] at hresult
    refine ih hresult ?_
    rw [has_insertNode]
    rw [has_cons] at hu
    rcases hu with (ha | hcurr) | habove
    · exact .inr (.inr (mem_units_single ha.1 ha.2 timeSize).symm)
    · exact .inl hcurr
    · exact .inr (.inl habove)

theorem joinLevels_has {depth : Nat} {depths : Nat → List SlotTree} {t : SlotTree}
    (ht : joinLevels timeSize depth depths = .ok t) {d : Nat} (hd : d ≤ depth)
    (hu : Has u (depths d)) : u ∈ t.units := by
  induction depth generalizing depths d with
  | zero =>
    have hzero : d = 0 := Nat.le_zero.mp hd
    subst hzero
    rw [joinLevels] at ht
    obtain ⟨x, hx, -, hmem⟩ := hu
    split at ht
    · rename_i hnil
      rw [hnil] at hx
      cases hx
    · rename_i hone
      rw [hone] at hx
      cases ht
      cases mem_singleton.mp hx
      exact hmem
    · cases ht
  | succ depth ih =>
    rw [joinLevels] at ht
    obtain ⟨above, habove, ht⟩ := bind_eq_ok_iff.mp ht
    by_cases htop : d < depth
    · refine ih ht (Nat.le_of_lt htop) ?_
      rwa [Function.update_of_ne (Nat.ne_of_lt htop)]
    refine ih ht (Nat.le_refl depth) ?_
    rw [Function.update_self]
    have hcase : d = depth + 1 ∨ d = depth := by omega
    rcases hcase with rfl | rfl
    · exact joinLevel_has habove (.inl hu)
    · exact joinLevel_has habove (.inr hu)

end SlotTree

theorem createTree_has {list : List SlotNode} {t : SlotTree} (ht : createTree timeSize list = .ok t)
    {n : SlotNode} (hn : n ∈ list) (hu : u ∈ n.chains) : u ∈ t.units := by
  unfold createTree at ht
  split at ht
  · cases ht
  have hdepth : n.depth timeSize ≤ _ :=
    ((foldl_max_le_iff (fun v => SlotNode.depth timeSize v) list 0 _).mp (Nat.le_refl _)).2 n hn
  have hne : n.tree ≠ .nil := by simp [SlotNode.tree]
  refine SlotTree.joinLevels_has ht hdepth ⟨n.tree, ?_, hne, ?_⟩
  · exact mem_map_of_mem (mem_filter.mpr ⟨hn, by simp⟩)
  · simpa [SlotTree.units, SlotNode.tree, SlotTree.leaves] using hu

/-! ## FindNodes -/

def Parts.Mem (u : UnitInfo) (p : Parts) : Prop := u ∈ p.lefts ∨ u ∈ p.rights ∨ u ∈ p.others

theorem Parts.mem_add {p : Parts} {n : UnitInfo} (h : p.Mem u ∨ u = n) :
    (p.add middle endTime n).Mem u := by
  unfold Parts.add Parts.Mem at *
  split
  · simp only [mem_append, mem_singleton]
    tauto
  split
  · simp only [mem_append, mem_singleton]
    tauto
  · simp only [mem_append, mem_singleton]
    tauto

theorem Parts.mem_foldl_add {units : List UnitInfo} {p : Parts} (h : p.Mem u ∨ u ∈ units) :
    (units.foldl (Parts.add middle endTime) p).Mem u := by
  induction units generalizing p with
  | nil => exact h.resolve_right not_mem_nil
  | cons n units ih =>
    refine ih ?_
    rw [mem_cons] at h
    rcases h with h | h | h
    · exact .inl (Parts.mem_add (.inl h))
    · exact .inl (Parts.mem_add (.inr h))
    · exact .inr h

def remaining (next : Option (List UnitInfo)) : List UnitInfo := next.getD []

def NoneStops (next : Option (List UnitInfo)) : Prop := ∀ n ∈ remaining next, n.time ≠ 0

structure Divided (loaded : UnitInfo → Prop) (parts : Parts) (rest : Option (List UnitInfo)) :
    Prop where
  noneStops : NoneStops rest
  beyond : remaining rest = [] ∨ parts.others ≠ []
  mem : ∀ u, loaded u → parts.Mem u ∨ u ∈ remaining rest

theorem Parts.readNext_divided {next : List UnitInfo} (hnext : NoneStops (some next)) (p : Parts) :
    Divided (fun u => p.Mem u ∨ u ∈ next) (p.readNext middle endTime maxSize next).1
      (some (p.readNext middle endTime maxSize next).2) := by
  induction next generalizing p with
  | nil => exact ⟨hnext, .inl rfl, fun _ h => h⟩
  | cons n next ih =>
    rw [Parts.readNext]
    split
    · rw [if_neg (hnext n (.head _))]
      obtain ⟨hstops, hbeyond, hmem⟩ :=
        ih (fun m hm => hnext m (.tail _ hm)) (p.add middle endTime n)
      refine ⟨hstops, hbeyond, fun u hu => hmem u ?_⟩
      rw [mem_cons] at hu
      rcases hu with hu | hu | hu
      · exact .inl (Parts.mem_add (.inl hu))
      · exact .inl (Parts.mem_add (.inr hu))
      · exact .inr hu
    · rename_i hstop
      refine ⟨hnext, .inr fun h => hstop (.inr ?_), fun _ h => h⟩
      rw [h]
      rfl

theorem splitUnits_divided (r : TimeSize) (maxSize : Nat) (loads : List UnitInfo)
    (hnext : NoneStops next) :
    Divided (fun u => u ∈ loads ∨ u ∈ remaining next) (splitUnits r maxSize loads next).1
      (splitUnits r maxSize loads next).2 := by
  cases next with
  | none =>
    refine ⟨hnext, .inl rfl, fun u hu => .inl (Parts.mem_foldl_add (.inr ?_))⟩
    exact hu.resolve_right not_mem_nil
  | some next =>
    obtain ⟨hstops, hbeyond, hmem⟩ := Parts.readNext_divided hnext _
    refine ⟨hstops, hbeyond, fun u hu => hmem u (hu.imp_left fun h => ?_)⟩
    exact Parts.mem_foldl_add (.inr h)

inductive Found (fuel : Nat) (r : TimeSize) (maxSize : Nat) (parts : Parts)
    (next : Option (List UnitInfo)) : List SlotNode → Option (List UnitInfo) → Prop
  | nothing (hlefts : parts.lefts = []) (hrights : parts.rights = [])
      (hothers : parts.others = []) : Found fuel r maxSize parts next [] next
  | slot (hothers : parts.others = []) :
      Found fuel r maxSize parts next [⟨parts.lefts ++ parts.rights, r⟩] next
  | halves {lefts rights : List SlotNode} {given left middle right : Option (List UnitInfo)}
      (hothers : parts.others = [])
      (hlefts : findNodes fuel r.left maxSize parts.lefts given = .ok (lefts, left))
      (hgiven : given = none ∧ middle = next ∨ given = next ∧ middle = left)
      (hrights : findNodes fuel r.right maxSize parts.rights middle = .ok (rights, right)) :
      Found fuel r maxSize parts next (lefts ++ rights) right
  /-- Units beyond the range: both halves, which do not read on, and the next range. -/
  | beyond {lefts rights others : List SlotNode} {left right last : Option (List UnitInfo)}
      (hothers : parts.others ≠ [])
      (hlefts : findNodes fuel r.left maxSize parts.lefts none = .ok (lefts, left))
      (hrights : findNodes fuel r.right maxSize parts.rights none = .ok (rights, right))
      (hnext : findNodes fuel r.next maxSize parts.others next = .ok (others, last)) :
      Found fuel r maxSize parts next (lefts ++ rights ++ others) last

theorem findNodes_found {fuel : Nat} {r : TimeSize} (hsize : microsecond < r.size)
    {loads : List UnitInfo} {next' : Option (List UnitInfo)}
    (h : findNodes (fuel + 1) r maxSize loads next = .ok (nodes, next')) :
    Found fuel r maxSize (splitUnits r maxSize loads next).1 (splitUnits r maxSize loads next).2
      nodes next' := by
  rw [findNodes.eq_def] at h
  dsimp only at h
  rw [if_neg (Int.not_le.mpr hsize)] at h
  generalize splitUnits r maxSize loads next = split at h ⊢
  obtain ⟨parts, next⟩ := split
  split at h
  · rename_i hnone
    cases h
    exact .nothing (length_eq_zero_iff.mp hnone.2.1) (length_eq_zero_iff.mp hnone.1)
      (length_eq_zero_iff.mp hnone.2.2)
  · split at h
    · rename_i hslot
      cases h
      exact .slot (length_eq_zero_iff.mp hslot.1)
    · by_cases hothers : parts.others = []
      · simp only [hothers, length_nil, Nat.add_zero, gt_iff_lt, Nat.lt_irrefl, if_false] at h
        split at h
        · obtain ⟨⟨lefts, left⟩, hlefts, h⟩ := bind_eq_ok_iff.mp h
          obtain ⟨_, hgiven, h⟩ := bind_eq_ok_iff.mp h
          cases hgiven
          obtain ⟨⟨rights, right⟩, hrights, h⟩ := bind_eq_ok_iff.mp h
          cases h
          exact .halves hothers hlefts (.inl ⟨rfl, rfl⟩) hrights
        · obtain ⟨⟨lefts, left⟩, hlefts, h⟩ := bind_eq_ok_iff.mp h
          obtain ⟨⟨rights, right⟩, hrights, h⟩ := bind_eq_ok_iff.mp h
          cases h
          exact .halves hothers hlefts (.inr ⟨rfl, rfl⟩) hrights
      · have hsome := length_pos_of_ne_nil hothers
        have hreads : parts.rights.length + parts.others.length > 0 := Nat.add_pos_right _ hsome
        simp only [if_pos hreads, if_pos hsome] at h
        obtain ⟨⟨lefts, left⟩, hlefts, h⟩ := bind_eq_ok_iff.mp h
        obtain ⟨_, hgiven, h⟩ := bind_eq_ok_iff.mp h
        cases hgiven
        obtain ⟨⟨rights, right⟩, hrights, h⟩ := bind_eq_ok_iff.mp h
        obtain ⟨_, hgiven, h⟩ := bind_eq_ok_iff.mp h
        cases hgiven
        obtain ⟨⟨others, last⟩, hnext, h⟩ := bind_eq_ok_iff.mp h
        cases h
        exact .beyond hothers hlefts hrights hnext

theorem noneStops_none : NoneStops none := nofun

theorem NoneStops.of_remaining (h : remaining next = []) : NoneStops next := by
  intro n hn
  rw [h] at hn
  cases hn

def InNodes (nodes : List SlotNode) (u : UnitInfo) : Prop := ∃ n ∈ nodes, u ∈ n.chains

theorem InNodes.append_left (h : InNodes nodes u) (more : List SlotNode) :
    InNodes (nodes ++ more) u := by
  obtain ⟨n, hn, hu⟩ := h
  exact ⟨n, mem_append_left _ hn, hu⟩

theorem InNodes.append_right (h : InNodes nodes u) (more : List SlotNode) :
    InNodes (more ++ nodes) u := by
  obtain ⟨n, hn, hu⟩ := h
  exact ⟨n, mem_append_right _ hn, hu⟩

theorem findNodes_mem {fuel : Nat} {r : TimeSize} {loads : List UnitInfo}
    {next' : Option (List UnitInfo)} (hnext : NoneStops next)
    (h : findNodes fuel r maxSize loads next = .ok (nodes, next')) :
    remaining next' = [] ∧ ∀ u, u ∈ loads ∨ u ∈ remaining next → InNodes nodes u := by
  induction fuel generalizing r loads next next' nodes with
  | zero => cases h
  | succ fuel ih =>
    by_cases hsize : r.size ≤ microsecond
    · rw [findNodes.eq_def] at h
      dsimp only at h
      rw [if_pos hsize] at h
      cases next with
      | none => cases h
      | some next =>
        cases h
        exact ⟨rfl, fun u hu => ⟨_, .head _, mem_append.mpr hu⟩⟩
    · have hfound := findNodes_found (Int.not_le.mp hsize) h
      obtain ⟨hstops, hbeyond, hmem⟩ := splitUnits_divided r maxSize loads hnext
      generalize splitUnits r maxSize loads next = split at hfound hstops hbeyond hmem
      obtain ⟨parts, rest⟩ := split
      cases hfound with
      | nothing hlefts hrights hothers =>
        have hrest := hbeyond.resolve_right (not_not.mpr hothers)
        refine ⟨hrest, fun u hu => ?_⟩
        have hnone := hmem u hu
        simp only [Parts.Mem] at hnone
        rw [hrest, hlefts, hrights, hothers] at hnone
        simp at hnone
      | slot hothers =>
        have hrest := hbeyond.resolve_right (not_not.mpr hothers)
        refine ⟨hrest, fun u hu => ⟨_, .head _, ?_⟩⟩
        have hparts := hmem u hu
        simp only [Parts.Mem] at hparts
        rw [hrest, hothers] at hparts
        simpa using hparts
      | @halves lefts rights given left middle right hothers hlefts hgiven hrights =>
        have hrest := hbeyond.resolve_right (not_not.mpr hothers)
        have hgivenStops : NoneStops given := by
          rcases hgiven with ⟨rfl, -⟩ | ⟨rfl, -⟩
          · exact noneStops_none
          · exact hstops
        obtain ⟨hleft, hleftNodes⟩ := ih hgivenStops hlefts
        have hmiddle : remaining middle = [] := by
          rcases hgiven with ⟨-, rfl⟩ | ⟨-, rfl⟩
          · exact hrest
          · exact hleft
        obtain ⟨hright, hrightNodes⟩ := ih (.of_remaining hmiddle) hrights
        refine ⟨hright, fun u hu => ?_⟩
        have hparts := hmem u hu
        simp only [Parts.Mem] at hparts
        rw [hrest, hothers] at hparts
        rcases hparts with (hu | hu | hu) | hu
        · exact (hleftNodes u (.inl hu)).append_left _
        · exact (hrightNodes u (.inl hu)).append_right _
        · cases hu
        · cases hu
      | beyond hothers hlefts hrights hothersNodes =>
        obtain ⟨-, hleftNodes⟩ := ih noneStops_none hlefts
        obtain ⟨-, hrightNodes⟩ := ih noneStops_none hrights
        obtain ⟨hlast, hotherNodes⟩ := ih hstops hothersNodes
        refine ⟨hlast, fun u hu => ?_⟩
        rcases hmem u hu with (hu | hu | hu) | hu
        · exact ((hleftNodes u (.inl hu)).append_left _).append_left _
        · exact ((hrightNodes u (.inl hu)).append_right _).append_left _
        · exact (hotherNodes u (.inl hu)).append_right _
        · exact (hotherNodes u (.inr hu)).append_right _

end Nerthus.Bysolt
