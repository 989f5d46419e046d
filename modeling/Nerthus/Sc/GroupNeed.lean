import Nerthus.Sc.Membership

/-!
# The group that a new witness joins

`ApplyWitnessGroupOfUser` against the table in its comment. A group with just the
minimum of witnesses is to have the priority 3; the comparisons leave it out, and it
gets 0.
-/

namespace Nerthus.Sc.StateDB

open Params List

variable (db : StateDB)

/-- The table: `0->0,1->1,2->2,3->3... 7->7`, `8=>3,9=>2,10=>1`. -/
def documented (c : Nat) : Nat := if c < configParamsUCMinVotings then c else configParamsUCWitness - c

abbrev size (g : Nat) : Nat := db.getWitnessCountAt g

def IsGroup (g : Nat) : Prop := 1 ≤ g ∧ g < db.getWitnessGroupCount

/-- The group that comes first by the priorities `p`. -/
inductive Preferred (p : Nat → Nat) : Nat → Prop where
  | lacking {g : Nat} (hg : db.IsGroup g) (hone : db.size g = configParamsUCMinVotings - 1)
      (hfirst : ∀ i, db.IsGroup i → db.size i = configParamsUCMinVotings - 1 → g ≤ i) :
      Preferred p g
  | room {g : Nat} (hg : db.IsGroup g) (hroom : db.size g ≠ configParamsUCWitness)
      (hnone : ∀ i, db.IsGroup i → db.size i ≠ configParamsUCMinVotings - 1)
      (hbest : ∀ i, db.IsGroup i → db.size i ≠ configParamsUCWitness →
        p (db.size i) < p (db.size g) ∨
          p (db.size i) = p (db.size g) ∧ g ≤ i) :
      Preferred p g
  | opened (hfull : ∀ i, db.IsGroup i → db.size i = configParamsUCWitness) :
      Preferred p db.getWitnessGroupCount

/-- The witness joins the neediest group, which is a new one only if all others are full. -/
def JoinsNeediest (a : Address) : Prop :=
  ∃ g, db.Preferred documented g ∧ db.applyWitnessGroupOfUser a =
    ((if g = db.getWitnessGroupCount then db.writeWitnessGroupCount (g + 1) else db).join g a, g)

/-- A group needs a witness more than any with the minimum, or each of those has a group of three
before it, or the groups with room are empty or have the minimum, which the first has. -/
def MinimumLast : Prop :=
  (∃ g, db.IsGroup g ∧ 4 ≤ db.size g ∧ db.size g < configParamsUCMinVotings) ∨
  (∀ g, db.IsGroup g → db.size g = configParamsUCMinVotings →
    ∃ i < g, db.IsGroup i ∧ db.size i = 3) ∨
  ∀ g, db.IsGroup g → db.size g ≠ configParamsUCWitness →
    db.size g = configParamsUCMinVotings ∨ db.size g = 0 ∧
      ∃ i < g, db.IsGroup i ∧ db.size i = configParamsUCMinVotings

variable {db}

theorem mem_groups {g : Nat} : g ∈ range' 1 (db.getWitnessGroupCount - 1) ↔ db.IsGroup g := by
  have := db.getWitnessGroupCount_pos
  rw [mem_range'_1, IsGroup]
  omega

theorem first_of_insertionSort {items rest : List ChooseItem} {first : ChooseItem}
    (hitems : items.Pairwise fun x y => x.groupIndex < y.groupIndex)
    (h : items.insertionSort (fun x y => y.priority ≤ x.priority) = first :: rest) :
    ∀ x ∈ items, x.priority < first.priority ∨
      x.priority = first.priority ∧ first.groupIndex ≤ x.groupIndex := by
  induction items generalizing first rest with
  | nil => cases h
  | cons a items ih =>
    obtain ⟨ha, hitems⟩ := pairwise_cons.mp hitems
    rw [insertionSort_cons] at h
    cases hsort : items.insertionSort (fun x y => y.priority ≤ x.priority) with
    | nil =>
      have hperm := perm_insertionSort (fun x y : ChooseItem => y.priority ≤ x.priority) items
      rw [hsort, orderedInsert_nil] at h
      rw [hsort] at hperm
      cases h
      simp [← hperm.nil_eq]
    | cons b sorted =>
      have hb := ih hitems hsort
      rw [hsort, orderedInsert] at h
      split at h
      · next hle =>
        cases h
        refine forall_mem_cons.mpr ⟨.inr ⟨rfl, Nat.le_refl _⟩, fun x hx => ?_⟩
        have := hb x hx
        have := ha x hx
        omega
      · next hlt =>
        cases h
        exact forall_mem_cons.mpr ⟨.inl (Nat.not_le.mp hlt), hb⟩

theorem applyWitnessGroupOfUser_preferred (db : StateDB) (a : Address) :
    ∃ g, db.Preferred priority g ∧ db.applyWitnessGroupOfUser a =
      ((if g = db.getWitnessGroupCount then db.writeWitnessGroupCount (g + 1) else db).join g a, g) := by
  have hold : ∀ {g}, db.IsGroup g →
      (if g = db.getWitnessGroupCount then db.writeWitnessGroupCount (g + 1) else db) = db :=
    fun hg => if_neg (Nat.ne_of_lt hg.2)
  rw [applyWitnessGroupOfUser, scanGroups_eq]
  cases hfind : (range' 1 (db.getWitnessGroupCount - 1)).find? db.lacksOne with
  | some g =>
    have hg := mem_groups.mp (mem_of_find?_eq_some hfind)
    refine ⟨g, .lacking hg (by simpa [lacksOne] using find?_some hfind) fun i hi hone => ?_, ?_⟩
    · obtain ⟨-, hfirst⟩ := find?_range'_eq_some.mp hfind
      by_contra hlt
      simpa [lacksOne, hone] using hfirst.2 i hi.1 (Nat.not_le.mp hlt)
    · rw [hold hg]
      rfl
  | none =>
    have hnone : ∀ i, db.IsGroup i → db.size i ≠ configParamsUCMinVotings - 1 := by
      intro i hi
      simpa [lacksOne] using find?_eq_none.mp hfind i (mem_groups.mpr hi)
    have hmem : ∀ g, g ∈ (range' 1 (db.getWitnessGroupCount - 1)).filter db.hasRoom ↔
        db.IsGroup g ∧ db.size g ≠ configParamsUCWitness := by
      intro g
      rw [mem_filter, mem_groups, hasRoom, decide_eq_true_iff]
    dsimp only
    rw [nil_append]
    split
    · next first rest hsort =>
      have hfirst := (mem_insertionSort _).mp (hsort ▸ mem_cons_self)
      obtain ⟨g, hg, rfl⟩ := mem_map.mp hfirst
      obtain ⟨hgroup, hroom⟩ := (hmem g).mp hg
      refine ⟨g, .room hgroup hroom hnone fun i hi hiroom => ?_, ?_⟩
      · refine first_of_insertionSort ?_ hsort _ (mem_map_of_mem ((hmem i).mpr ⟨hi, hiroom⟩))
        exact pairwise_map.mpr ((pairwise_lt_range' 1).filter _)
      · rw [hold hgroup]
        rfl
    · next hsort =>
      have hperm := perm_insertionSort (fun x y : ChooseItem => y.priority ≤ x.priority)
        (((range' 1 (db.getWitnessGroupCount - 1)).filter db.hasRoom).map fun g =>
          ⟨g, priority (db.size g)⟩)
      rw [hsort] at hperm
      have hempty := map_eq_nil_iff.mp hperm.nil_eq.symm
      refine ⟨db.getWitnessGroupCount, .opened fun i hi => ?_, ?_⟩
      · by_contra hne
        have := (hmem i).mpr ⟨hi, hne⟩
        rw [hempty] at this
        cases this
      · rw [if_neg (Nat.ne_of_gt db.getWitnessGroupCount_pos), if_pos rfl]
        rfl

theorem priority_cases (c : Nat) : c < 8 ∧ priority c = c ∧ documented c = c ∨
    c = 8 ∧ priority c = 0 ∧ documented c = 3 ∨
    8 < c ∧ priority c = 11 - c ∧ documented c = 11 - c := by
  simp only [priority, documented, show configParamsUCMinVotings = 8 from rfl,
    show configParamsUCWitness = 11 from rfl]
  split_ifs <;> omega

theorem preferred_documented_iff {g : Nat} (hsizes : ∀ i, db.IsGroup i → db.size i ≤ 11)
    (h : db.Preferred priority g) : db.Preferred documented g ↔ db.MinimumLast := by
  have hmin : configParamsUCMinVotings = 8 := rfl
  have hmax : configParamsUCWitness = 11 := rfl
  rw [MinimumLast]
  cases h with
  | lacking hg hone hfirst =>
    exact iff_of_true (.lacking hg hone hfirst) (.inl ⟨g, hg, by omega, by omega⟩)
  | opened hfull =>
    refine iff_of_true (.opened hfull) (.inr (.inl fun i hi heq => ?_))
    have := hfull i hi
    omega
  | room hg hroom hnone hbest =>
    have hgsize := hsizes g hg
    have hgcases := priority_cases (db.size g)
    have hother := fun i hi hroom =>
      And.intro (hbest i hi hroom) (And.intro (priority_cases (db.size i)) (hsizes i hi))
    constructor
    · intro h
      cases h with
      | lacking _ hone => exact absurd hone (hnone g hg)
      | opened hfull => exact absurd hg.2 (Nat.lt_irrefl _)
      | room _ _ _ hdoc =>
        by_cases hneedy : 4 ≤ db.size g ∧ db.size g < 8
        · exact .inl ⟨g, hg, hneedy⟩
        refine .inr ?_
        by_cases height : db.size g = 8
        · refine .inr fun i hi hiroom => ?_
          have := hother i hi hiroom
          by_cases hi8 : db.size i = 8
          · exact .inl hi8
          · refine .inr ⟨by omega, g, ?_, hg, height⟩
            have : g ≠ i := fun heq => hi8 (heq ▸ height)
            omega
        · refine .inl fun i hi hi8 => ⟨g, ?_, hg, ?_⟩
          all_goals
            have := hdoc i hi (by omega)
            have := priority_cases (db.size i)
            have : g ≠ i := fun heq => height (heq ▸ hi8)
            omega
    · intro h
      refine .room hg hroom hnone fun i hi hiroom => ?_
      have := hother i hi hiroom
      -- Only a group with the minimum has another priority than the documented one.
      by_cases hi8 : db.size i = 8
      · rcases h with ⟨j, hj, hlow, hhigh⟩ | h | h
        · have := hother j hj (by omega)
          omega
        · obtain ⟨j, hlt, hj, hthree⟩ := h i hi hi8
          have := hother j hj (by omega)
          omega
        · rcases h g hg hroom with height | ⟨hzero, j, hlt, hj, hj8⟩
          · omega
          · have := hother j hj (by omega)
            omega
      · clear h
        omega

/-- The witness joins the neediest group exactly if no group with the minimum of witnesses is passed
over. -/
theorem joinsNeediest_iff (db : StateDB) (a : Address)
    (hsizes : ∀ g, db.IsGroup g → db.size g ≤ configParamsUCWitness) :
    db.JoinsNeediest a ↔ db.MinimumLast := by
  obtain ⟨g, hg, heq⟩ := db.applyWitnessGroupOfUser_preferred a
  rw [← preferred_documented_iff hsizes hg]
  constructor
  · rintro ⟨g', hg', heq'⟩
    rw [heq] at heq'
    obtain rfl : g = g' := congrArg Prod.snd heq'
    exact hg'
  · exact fun h => ⟨g, h, heq⟩

def ofSizes (sizes : List Nat) : StateDB :=
  { blank with
    groupCount := sizes.length + 1
    sets := fun key => ⟨((range sizes.length).find? fun i => key = witnessSetKey (i + 1)).elim 0
      (fun i => sizes.getD i 0), fun _ => .zero, fun _ => 0⟩ }

theorem joinsNeediest_five : (ofSizes [5, 8]).JoinsNeediest ⟨7⟩ := by
  refine (joinsNeediest_iff _ _ fun g hg => ?_).mpr
    (.inl ⟨1, ⟨by decide, by decide⟩, by decide, by decide⟩)
  obtain ⟨hpos, hlt⟩ : 1 ≤ g ∧ g < 3 := hg
  obtain rfl | rfl : g = 1 ∨ g = 2 := by omega
  · decide
  · decide

/-- A group with one witness is chosen before one with the minimum. -/
theorem minimum_passed_over : ((ofSizes [8, 1]).applyWitnessGroupOfUser ⟨7⟩).2 = 2 ∧
    ¬(ofSizes [8, 1]).JoinsNeediest ⟨7⟩ := by
  have htwo : ((ofSizes [8, 1]).applyWitnessGroupOfUser ⟨7⟩).2 = 2 := by decide
  refine ⟨htwo, fun ⟨g, hpreferred, heq⟩ => ?_⟩
  replace htwo : g = 2 := (congrArg Prod.snd heq).symm.trans htwo
  cases hpreferred with
  | lacking _ hone _ =>
    rw [htwo] at hone
    exact absurd hone (by decide)
  | room _ _ _ hbest =>
    have hfirst := hbest 1 ⟨by decide, by decide⟩ (by decide)
    rw [htwo] at hfirst
    exact absurd hfirst (by decide)
  | opened _ => exact absurd htwo (by decide)

end Nerthus.Sc.StateDB
