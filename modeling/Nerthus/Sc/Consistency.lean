import Nerthus.Sc.Members

/-!
# Groups and records agree

A witness that works is in the set of the group its record names, and in no
other set; no group is larger than it may be. The repair of a group moves
witnesses between groups of users, one at a time; on consistent groups it does
not fail and ends.
-/

namespace Nerthus.Sc

open Lib.IndexedSet (Faithful)
open StateSet Params List

variable {db db' : StateDB}

namespace StateDB

/-! ## One set of a group is written -/

theorem getWitnessSet_putSet (db : StateDB) (g g' : Nat) (s : StateSet) :
    (db.putSet (witnessSetKey g) s).getWitnessSet g' =
      if g' = g then s else db.getWitnessSet g' := by
  by_cases h : g' = g
  · subst h
    simp [getWitnessSet]
  · rw [if_neg h]
    exact putSet_sets_of_ne db (by simpa using h) s

theorem getWitnessSet_putSet_of_ne (db : StateDB) {key : SetKey} (h : ∀ g, key ≠ witnessSetKey g)
    (s : StateSet) (g : Nat) : (db.putSet key s).getWitnessSet g = db.getWitnessSet g :=
  putSet_sets_of_ne db (h g).symm s

theorem nodup_getWitnessListAt {g : Nat} (h : Faithful (db.getWitnessSet g)) :
    (db.getWitnessListAt g).Nodup :=
  h.nodup.map fun x y hxy => by simpa using congrArg Address.toHash hxy

@[simp] theorem length_getWitnessListAt (db : StateDB) (g : Nat) :
    (db.getWitnessListAt g).length = db.getWitnessCountAt g := by
  simp [getWitnessListAt, getWitnessCountAt]

def memberCount (db : StateDB) : Nat :=
  ∑ g ∈ Finset.range db.getWitnessGroupCount, db.getWitnessCountAt g

section Leave

variable {db : StateDB} {a : Address} {g index : Nat}

def leave (db : StateDB) (g index : Nat) : StateDB :=
  db.putSet (witnessSetKey g) (removeOrder (db.getWitnessSet g) index)

@[simp] theorem leave_witness (db : StateDB) (g index : Nat) :
    (db.leave g index).witness = db.witness := rfl

theorem faithful_leave (h : ∀ g, Faithful (db.getWitnessSet g))
    (ha : exist (db.getWitnessSet g) a.toHash = some index) (g' : Nat) :
    Faithful ((db.leave g index).getWitnessSet g') := by
  rw [leave, getWitnessSet_putSet]
  split
  · exact faithful_removeOrder (h g) ((exist_eq_some_iff (h g)).mp ha).1
  · exact h g'

theorem mem_leave (h : ∀ g, Faithful (db.getWitnessSet g))
    (ha : exist (db.getWitnessSet g) a.toHash = some index) (b : Address) (g' : Nat) :
    b ∈ (db.leave g index).getWitnessListAt g' ↔
      b ∈ db.getWitnessListAt g' ∧ (b = a → g' ≠ g) := by
  obtain ⟨hlt, hvalue⟩ := (exist_eq_some_iff (h g)).mp ha
  rw [mem_getWitnessListAt, mem_getWitnessListAt, leave, getWitnessSet_putSet]
  by_cases hg : g' = g
  · rw [if_pos hg, mem_removeOrder (h g) hlt, hvalue, hg]
    have hinj : b.toHash = a.toHash ↔ b = a := Address.toHash_injective.eq_iff
    simp [hinj]
  · simp [hg]

theorem count_leave (h : ∀ g, Faithful (db.getWitnessSet g))
    (ha : exist (db.getWitnessSet g) a.toHash = some index) (g' : Nat) :
    (db.leave g index).getWitnessCountAt g' + (if g' = g then 1 else 0) =
      db.getWitnessCountAt g' := by
  have hlt := ((exist_eq_some_iff (h g)).mp ha).1
  rw [getWitnessCountAt, leave, getWitnessSet_putSet, getWitnessCountAt]
  by_cases hg : g' = g
  · rw [if_pos hg, if_pos hg, length_removeOrder (h g) hlt, hg]
    omega
  · rw [if_neg hg, if_neg hg, Nat.add_zero]

theorem memberCount_leave (h : ∀ g, Faithful (db.getWitnessSet g))
    (ha : exist (db.getWitnessSet g) a.toHash = some index) (hbelow : g < db.getWitnessGroupCount) :
    (db.leave g index).memberCount + 1 = db.memberCount := by
  have hsum := Finset.sum_congr (Eq.refl (Finset.range db.getWitnessGroupCount))
    fun g' _ => count_leave h ha g'
  rw [Finset.sum_add_distrib, Finset.sum_ite_eq', if_pos (Finset.mem_range.mpr hbelow)] at hsum
  exact hsum

end Leave

section Join

variable {db : StateDB} {a : Address} {g : Nat}

def join (db : StateDB) (g : Nat) (a : Address) : StateDB := db.addTo (witnessSetKey g) a.toHash

@[simp] theorem join_witness (db : StateDB) (g : Nat) (a : Address) :
    (db.join g a).witness = db.witness := rfl

theorem getWitnessSet_join (db : StateDB) (g : Nat) (a : Address) (g' : Nat) :
    (db.join g a).getWitnessSet g' =
      if g' = g then add (db.getWitnessSet g) a.toHash else db.getWitnessSet g' := by
  rw [join, addTo, getWitnessSet_putSet]
  rfl

theorem faithful_join (h : ∀ g, Faithful (db.getWitnessSet g)) (ha : a ∉ db.getWitnessListAt g)
    (g' : Nat) : Faithful ((db.join g a).getWitnessSet g') := by
  rw [mem_getWitnessListAt] at ha
  rw [getWitnessSet_join]
  split
  · exact faithful_add (h g) ha
  · exact h g'

theorem mem_join (b : Address) (g' : Nat) :
    b ∈ (db.join g a).getWitnessListAt g' ↔ b ∈ db.getWitnessListAt g' ∨ (b = a ∧ g' = g) := by
  rw [mem_getWitnessListAt, mem_getWitnessListAt, getWitnessSet_join]
  by_cases hg : g' = g
  · have hinj : b.toHash = a.toHash ↔ b = a := Address.toHash_injective.eq_iff
    rw [if_pos hg, toList_add, mem_append, mem_singleton, hinj, hg]
    simp
  · simp [hg]

theorem count_join (db : StateDB) (a : Address) (g g' : Nat) : (db.join g a).getWitnessCountAt g' =
      db.getWitnessCountAt g' + if g' = g then 1 else 0 := by
  rw [getWitnessCountAt, getWitnessSet_join, getWitnessCountAt]
  by_cases hg : g' = g
  · rw [if_pos hg, if_pos hg, length_add, hg]
  · rw [if_neg hg, if_neg hg, Nat.add_zero]

theorem memberCount_join (db : StateDB) (a : Address) {g : Nat}
    (hbelow : g < db.getWitnessGroupCount) : (db.join g a).memberCount = db.memberCount + 1 := by
  have hsum := Finset.sum_congr (Eq.refl (Finset.range db.getWitnessGroupCount))
    fun g' _ => count_join db a g g'
  rw [Finset.sum_add_distrib, Finset.sum_ite_eq', if_pos (Finset.mem_range.mpr hbelow)] at hsum
  exact hsum

end Join

structure Consistent (db : StateDB) : Prop where
  faithful : ∀ g, Faithful (db.getWitnessSet g)
  mem_iff : ∀ a g, a ∈ db.getWitnessListAt g ↔
    (db.witness a).status = some .normal ∧ (db.witness a).groupIndex = g
  flag : ∀ a, (db.witness a).flag = true ↔ (db.witness a).status ≠ none
  user : ∀ g, g ≠ 0 → db.getWitnessCountAt g ≤ configParamsUCWitness
  system : db.getWitnessCountAt 0 ≤ configParamsSCWitnessCap
  below : ∀ g, db.getWitnessCountAt g ≠ 0 → g < db.getWitnessGroupCount

theorem consistent_blank : Consistent blank where
  faithful _ := Lib.IndexedSet.faithful_of_blank rfl fun _ => rfl
  mem_iff a g := by simp [getWitnessListAt, getWitnessSet, blank, WitnessItem.blank,
    Lib.IndexedSet.toList]
  flag a := by simp [blank, WitnessItem.blank]
  user g _ := Nat.zero_le _
  system := Nat.zero_le _
  below g h := absurd rfl h

theorem Consistent.congr (h : Consistent db) (hset : ∀ g, db'.getWitnessSet g = db.getWitnessSet g)
    (hwitness : db'.witness = db.witness)
    (hcount : db'.getWitnessGroupCount = db.getWitnessGroupCount) : Consistent db' := by
  have hcountAt : ∀ g, db'.getWitnessCountAt g = db.getWitnessCountAt g := fun g => by
    rw [getWitnessCountAt, hset, getWitnessCountAt]
  refine ⟨fun g => (hset g).symm ▸ h.faithful g, fun a g => ?_, fun a => ?_, fun g hg => ?_, ?_,
    fun g hg => ?_⟩
  · rw [mem_getWitnessListAt, hset, ← mem_getWitnessListAt, hwitness]
    exact h.mem_iff a g
  · rw [hwitness]
    exact h.flag a
  · rw [hcountAt]
    exact h.user g hg
  · rw [hcountAt]
    exact h.system
  · rw [hcountAt] at hg
    rw [hcount]
    exact h.below g hg

theorem Consistent.exist (h : Consistent db) {a : Address} {g : Nat}
    (ha : a ∈ db.getWitnessListAt g) : ∃ index, exist (db.getWitnessSet g) a.toHash = some index :=
  exist_of_mem (h.faithful g) (mem_getWitnessListAt.mp ha)

theorem Consistent.count_pos {a : Address} {g : Nat} (ha : a ∈ db.getWitnessListAt g) :
    db.getWitnessCountAt g ≠ 0 := by
  rw [← length_getWitnessListAt]
  exact Nat.ne_of_gt (length_pos_of_mem ha)

/-- What the repair can change: the sets of the groups of users, and which of them a record
names. -/
structure Regrouped (db db' : StateDB) : Prop where
  rest : db' = { db with sets := db'.sets, witness := db'.witness }
  sets : ∀ key, (∀ g, key ≠ witnessSetKey g) → db'.sets key = db.sets key
  system : db'.getWitnessSet 0 = db.getWitnessSet 0
  witness : ∀ a, db'.witness a = { db.witness a with groupIndex := (db'.witness a).groupIndex }
  groupIndex : ∀ a, (db'.witness a).groupIndex = 0 ↔ (db.witness a).groupIndex = 0
  memberCount : db'.memberCount = db.memberCount

namespace Regrouped

theorem refl (db : StateDB) : Regrouped db db :=
  ⟨rfl, fun _ _ => rfl, rfl, fun _ => rfl, fun _ => Iff.rfl, rfl⟩

theorem trans {db'' : StateDB} (h : Regrouped db db') (h' : Regrouped db' db'') :
    Regrouped db db'' where
  rest := by
    rw [h'.rest]
    rw [h.rest]
  sets key hkey := (h'.sets key hkey).trans (h.sets key hkey)
  system := h'.system.trans h.system
  witness a := by
    rw [h'.witness a, h.witness a]
  groupIndex a := (h'.groupIndex a).trans (h.groupIndex a)
  memberCount := h'.memberCount.trans h.memberCount

variable {db db' : StateDB}

theorem getWitnessGroupCount (h : Regrouped db db') :
    db'.getWitnessGroupCount = db.getWitnessGroupCount := by
  rw [h.rest]
  rfl

end Regrouped

/-! ## One witness moves -/

def move (db : StateDB) (w : Address) (oldGp newGp index : Nat) : StateDB :=
  ((db.leave oldGp index).join newGp w).updateWitnessGroupIndex w newGp

section Move

variable {db : StateDB} {w : Address} {oldGp newGp index : Nat}

theorem move_witness_self :
    (db.move w oldGp newGp index).witness w = { db.witness w with groupIndex := newGp } :=
  putWitness_self _ _ _

theorem move_witness_of_ne {a : Address} (ha : a ≠ w) :
    (db.move w oldGp newGp index).witness a = db.witness a :=
  putWitness_of_ne _ ha _

theorem count_move (hdb : Consistent db)
    (hexist : exist (db.getWitnessSet oldGp) w.toHash = some index) (newGp g : Nat) :
    (db.move w oldGp newGp index).getWitnessCountAt g + (if g = oldGp then 1 else 0) =
      db.getWitnessCountAt g + if g = newGp then 1 else 0 := by
  change ((db.leave oldGp index).join newGp w).getWitnessCountAt g + _ = _
  have hleave := count_leave hdb.faithful hexist g
  rw [count_join]
  omega

theorem memberCount_move (hdb : Consistent db)
    (hexist : exist (db.getWitnessSet oldGp) w.toHash = some index)
    (hold : oldGp < db.getWitnessGroupCount) (hnew : newGp < db.getWitnessGroupCount) :
    (db.move w oldGp newGp index).memberCount = db.memberCount := by
  have hleave := memberCount_leave hdb.faithful hexist hold
  have hjoin := memberCount_join (db.leave oldGp index) w hnew
  change ((db.leave oldGp index).join newGp w).memberCount = _
  omega

theorem mem_move (hdb : Consistent db)
    (hexist : exist (db.getWitnessSet oldGp) w.toHash = some index)
    (hw : w ∈ db.getWitnessListAt oldGp) (a : Address) (g : Nat) :
    a ∈ (db.move w oldGp newGp index).getWitnessListAt g ↔
      ((db.move w oldGp newGp index).witness a).status = some .normal ∧
        ((db.move w oldGp newGp index).witness a).groupIndex = g := by
  obtain ⟨hnormal, hgroup⟩ := (hdb.mem_iff w oldGp).mp hw
  change a ∈ ((db.leave oldGp index).join newGp w).getWitnessListAt g ↔ _
  rw [mem_join, mem_leave hdb.faithful hexist, hdb.mem_iff]
  by_cases ha : a = w
  · subst ha
    rw [move_witness_self, hnormal, hgroup]
    constructor
    · rintro (⟨⟨-, rfl⟩, hcontra⟩ | ⟨-, rfl⟩)
      · exact absurd rfl (hcontra rfl)
      · exact ⟨rfl, rfl⟩
    · rintro ⟨-, rfl⟩
      exact .inr ⟨rfl, rfl⟩
  · rw [move_witness_of_ne ha]
    simp [ha]

theorem consistent_move (hdb : Consistent db)
    (hexist : exist (db.getWitnessSet oldGp) w.toHash = some index)
    (hw : w ∈ db.getWitnessListAt oldGp) (hne : oldGp ≠ newGp) (hnew : newGp ≠ 0)
    (hroom : db.getWitnessCountAt newGp < configParamsUCWitness)
    (hbelow : newGp < db.getWitnessGroupCount) : Consistent (db.move w oldGp newGp index) := by
  have hcount := fun g => count_move hdb hexist newGp g
  have hout : w ∉ (db.leave oldGp index).getWitnessListAt newGp := by
    have hgroup := ((hdb.mem_iff w oldGp).mp hw).2
    rw [mem_leave hdb.faithful hexist, hdb.mem_iff]
    omega
  refine ⟨faithful_join (faithful_leave hdb.faithful hexist) hout, mem_move hdb hexist hw,
    fun a => ?_, fun g hg => ?_, ?_, fun g hg => ?_⟩
  · by_cases ha : a = w
    · subst ha
      rw [move_witness_self]
      exact hdb.flag a
    · rw [move_witness_of_ne ha]
      exact hdb.flag a
  · have := hcount g
    have := hdb.user g hg
    by_cases hgn : g = newGp
    · subst hgn
      rw [if_pos rfl] at this
      omega
    · rw [if_neg hgn] at *
      omega
  · have := hcount 0
    have := hdb.system
    rw [if_neg hnew.symm] at *
    omega
  · change g < db.getWitnessGroupCount
    by_cases hgn : g = newGp
    · exact hgn ▸ hbelow
    apply hdb.below g
    have := hcount g
    rw [if_neg hgn] at this
    omega

theorem regrouped_move (hdb : Consistent db)
    (hexist : exist (db.getWitnessSet oldGp) w.toHash = some index)
    (hw : w ∈ db.getWitnessListAt oldGp) (hold : oldGp ≠ 0) (hnew : newGp ≠ 0)
    (hbelow : newGp < db.getWitnessGroupCount) : Regrouped db (db.move w oldGp newGp index) := by
  have hgroup := ((hdb.mem_iff w oldGp).mp hw).2
  refine ⟨rfl, fun key hkey => ?_, ?_, fun a => ?_, fun a => ?_,
    memberCount_move hdb hexist (hdb.below oldGp (Consistent.count_pos hw)) hbelow⟩
  · change ((db.leave oldGp index).join newGp w).sets key = _
    rw [join, addTo, putSet_sets_of_ne _ (hkey newGp), leave, putSet_sets_of_ne _ (hkey oldGp)]
  · change ((db.leave oldGp index).join newGp w).getWitnessSet 0 = _
    rw [getWitnessSet_join, if_neg hnew.symm, leave, getWitnessSet_putSet, if_neg hold.symm]
  · by_cases ha : a = w
    · subst ha
      rw [move_witness_self]
    · rw [move_witness_of_ne ha]
  · by_cases ha : a = w
    · subst ha
      rw [move_witness_self, hgroup]
      exact iff_of_false hnew hold
    · rw [move_witness_of_ne ha]

theorem removeWtinessGroup_eq (hne : oldGp ≠ newGp)
    (hexist : exist (db.getWitnessSet oldGp) w.toHash = some index) :
    db.removeWtinessGroup w oldGp newGp = .ok (db.move w oldGp newGp index) := by
  rw [removeWtinessGroup, if_neg hne, hexist]
  rfl

end Move

structure Waiting (db : StateDB) (g : Nat) (list : List Address) : Prop where
  nodup : list.Nodup
  mem : ∀ w, w ∈ list → w ∈ db.getWitnessListAt g

theorem Consistent.waiting (h : Consistent db) (g : Nat) : Waiting db g (db.getWitnessListAt g) :=
  ⟨nodup_getWitnessListAt (h.faithful g), fun _ hw => hw⟩

structure Moved (db db' : StateDB) (oldGp newGp n : Nat) : Prop where
  consistent : Consistent db'
  regrouped : Regrouped db db'
  count : ∀ g, db'.getWitnessCountAt g + (if g = oldGp then n else 0) =
    db.getWitnessCountAt g + if g = newGp then n else 0

theorem Moved.trans {db'' : StateDB} {oldGp newGp m n : Nat} (h : Moved db db' oldGp newGp m)
    (h' : Moved db' db'' oldGp newGp n) : Moved db db'' oldGp newGp (m + n) := by
  refine ⟨h'.consistent, h.regrouped.trans h'.regrouped, fun g => ?_⟩
  have hfirst := h.count g
  have hsecond := h'.count g
  split_ifs at * <;> omega

theorem Waiting.move (hdb : Consistent db) {w : Address} {rest : List Address} {oldGp newGp : Nat}
    (h : Waiting db oldGp (w :: rest)) (hne : oldGp ≠ newGp) (hold : oldGp ≠ 0) (hnew : newGp ≠ 0)
    (hroom : db.getWitnessCountAt newGp < configParamsUCWitness)
    (hbelow : newGp < db.getWitnessGroupCount) :
    ∃ db', db.removeWtinessGroup w oldGp newGp = .ok db' ∧ Moved db db' oldGp newGp 1 ∧
      Waiting db' oldGp rest := by
  have hw := h.mem w (.head _)
  obtain ⟨index, hexist⟩ := hdb.exist hw
  obtain ⟨hnot, hnodup⟩ := nodup_cons.mp h.nodup
  have hmoved := consistent_move hdb hexist hw hne hnew hroom hbelow
  refine ⟨_, removeWtinessGroup_eq hne hexist, ⟨hmoved,
    regrouped_move hdb hexist hw hold hnew hbelow, count_move hdb hexist newGp⟩, hnodup, fun a ha => ?_⟩
  have hin := h.mem a (.tail _ ha)
  have hne_w : a ≠ w := fun heq => hnot (heq ▸ ha)
  rw [hdb.mem_iff] at hin
  rw [hmoved.mem_iff, move_witness_of_ne hne_w]
  exact hin

section Fill

variable {removedGp : Nat}

structure Filling (db : StateDB) (removedGp need : Nat) : Prop where
  consistent : Consistent db
  need : need + db.getWitnessCountAt removedGp = configParamsUCWitness
  below : removedGp < db.getWitnessGroupCount

theorem countDown_eq {need : Nat} (h : need ≠ 0) : countDown need = need - 1 :=
  if_neg h

theorem Filling.move {gpIndex need : Nat} (h : Filling db removedGp need) (hneed : need ≠ 0)
    (hne : gpIndex ≠ removedGp) (hmoved : Moved db db' gpIndex removedGp 1) :
    Filling db' removedGp (countDown need) := by
  refine ⟨hmoved.consistent, ?_, ?_⟩
  · have hcount := hmoved.count removedGp
    have := h.need
    rw [if_neg hne.symm, if_pos rfl] at hcount
    rw [countDown_eq hneed]
    omega
  · rw [hmoved.regrouped.getWitnessGroupCount]
    exact h.below

theorem fillFrom_spec (hremoved : removedGp ≠ 0) {gpIndex : Nat} (hne : gpIndex ≠ removedGp)
    (hgp : gpIndex ≠ 0) (list : List Address) (db : StateDB) (need : Nat)
    (hdb : Filling db removedGp need) (hneed : need ≠ 0) (hlist : Waiting db gpIndex list) :
    ∃ db' need', fillFrom removedGp gpIndex db list need = .ok (db', need') ∧
      Filling db' removedGp need' ∧ Regrouped db db' := by
  induction list generalizing db need with
  | nil => exact ⟨db, need, rfl, hdb, .refl db⟩
  | cons w rest ih =>
    have hroom : db.getWitnessCountAt removedGp < configParamsUCWitness := by
      have := hdb.need
      omega
    obtain ⟨db₁, heq, hmoved, hrest⟩ :=
      hlist.move hdb.consistent hne hgp hremoved hroom hdb.below
    have hdb₁ := hdb.move hneed hne hmoved
    rw [fillFrom, heq]
    dsimp only [bind, Except.bind]
    by_cases hzero : countDown need = 0
    · rw [if_pos hzero]
      exact ⟨db₁, _, rfl, hdb₁, hmoved.regrouped⟩
    · rw [if_neg hzero]
      obtain ⟨db', need', heq', hdb', hreg'⟩ := ih db₁ _ hdb₁ hzero hrest
      exact ⟨db', need', heq', hdb', hmoved.regrouped.trans hreg'⟩

theorem fillGroups_spec (hremoved : removedGp ≠ 0) (indexes : List Nat)
    (hindexes : ∀ i ∈ indexes, i ≠ 0) (db : StateDB) (need : Nat)
    (hdb : Filling db removedGp need) (hneed : need ≠ 0) :
    ∃ db', fillGroups removedGp db indexes need = .ok db' ∧ Consistent db' ∧ Regrouped db db' := by
  induction indexes generalizing db need with
  | nil => exact ⟨db, rfl, hdb.consistent, .refl db⟩
  | cons gpIndex rest ih =>
    have hrest := fun i hi => hindexes i (.tail _ hi)
    rw [fillGroups]
    by_cases hself : gpIndex = removedGp
    · rw [if_pos hself]
      exact ih hrest db need hdb hneed
    rw [if_neg hself]
    by_cases henough : configParamsUCMinVotings ≤ db.getWitnessCountAt gpIndex
    · rw [if_pos henough]
      exact ih hrest db need hdb hneed
    rw [if_neg henough]
    obtain ⟨db₁, need₁, heq, hdb₁, hreg₁⟩ := fillFrom_spec hremoved hself
      (hindexes gpIndex (.head _)) _ db need hdb hneed (hdb.consistent.waiting gpIndex)
    rw [heq]
    dsimp only [bind, Except.bind]
    by_cases hzero : need₁ = 0
    · rw [if_pos hzero]
      exact ⟨db₁, rfl, hdb₁.consistent, hreg₁⟩
    · rw [if_neg hzero]
      obtain ⟨db', heq', hdb', hreg'⟩ := ih hrest db₁ need₁ hdb₁ hzero
      exact ⟨db', heq', hdb', hreg₁.trans hreg'⟩

end Fill

/-! ## A group that is too small is given away -/

section Give

variable {removedGp : Nat}

structure Pending (db : StateDB) (removedGp : Nat) (list : List Address) : Prop extends
    Waiting db removedGp list where
  ne_nil : list ≠ []

theorem giveWitnesses_spec (hremoved : removedGp ≠ 0) {gp : Nat} (hne : removedGp ≠ gp)
    (hgp : gp ≠ 0) (n : Nat) (db : StateDB) (list : List Address) (hdb : Consistent db)
    (hlist : Pending db removedGp list)
    (hroom : db.getWitnessCountAt gp + n ≤ configParamsUCWitness)
    (hbelow : gp < db.getWitnessGroupCount) :
    ∃ db' list' ended, giveWitnesses removedGp gp db list n = .ok (db', list', ended) ∧
      Consistent db' ∧ Regrouped db db' ∧
      (ended = false → Moved db db' removedGp gp n ∧ Pending db' removedGp list' ∧
        list'.length + n = list.length) := by
  induction n generalizing db list with
  | zero =>
    refine ⟨db, list, false, ?_, hdb, .refl db,
      fun _ => ⟨⟨hdb, .refl db, fun g => by simp⟩, hlist, rfl⟩⟩
    cases list <;> rfl
  | succ n ih =>
    cases list with
    | nil => exact absurd rfl hlist.ne_nil
    | cons w rest =>
      obtain ⟨db₁, heq, hmoved, hrest⟩ :=
        hlist.toWaiting.move hdb hne hremoved hgp (by omega) hbelow
      rw [giveWitnesses, heq]
      dsimp only [bind, Except.bind]
      cases rest with
      | nil => exact ⟨db₁, [], true, rfl, hmoved.consistent, hmoved.regrouped, nofun⟩
      | cons v rest =>
        have hcount := hmoved.count gp
        rw [if_neg hne.symm, if_pos rfl] at hcount
        have hbelow₁ : gp < db₁.getWitnessGroupCount := by
          rw [hmoved.regrouped.getWitnessGroupCount]
          exact hbelow
        obtain ⟨db', list', ended, heq', hdb', hreg', hleft⟩ :=
          ih db₁ (v :: rest) hmoved.consistent ⟨hrest, cons_ne_nil v rest⟩ (by omega) hbelow₁
        refine ⟨db', list', ended, heq', hdb', hmoved.regrouped.trans hreg', fun h => ?_⟩
        obtain ⟨hmoved', hpending, hlength⟩ := hleft h
        refine ⟨Nat.add_comm 1 n ▸ hmoved.trans hmoved', hpending, ?_⟩
        simp only [length_cons] at hlength ⊢
        omega

/-- A group of users with room, not the one that is given away, with the number of members that was
read. -/
structure Eligible (db : StateDB) (removedGp : Nat) (gp : ChoseGroup) : Prop where
  ne_zero : gp.index ≠ 0
  ne_removed : removedGp ≠ gp.index
  below : gp.index < db.getWitnessGroupCount
  count : gp.witnessCount = db.getWitnessCountAt gp.index

structure Choice (db : StateDB) (removedGp : Nat) (cache : List ChoseGroup) : Prop where
  nodup : (cache.map ChoseGroup.index).Nodup
  eligible : ∀ gp ∈ cache, Eligible db removedGp gp
  room : ∀ gp ∈ cache, gp.witnessCount < configParamsUCWitness

theorem Choice.perm {cache cache' : List ChoseGroup} (h : Choice db removedGp cache)
    (hperm : cache'.Perm cache) : Choice db removedGp cache' :=
  ⟨((hperm.map _).nodup_iff).mpr h.nodup, fun gp hgp => h.eligible gp (hperm.mem_iff.mp hgp),
    fun gp hgp => h.room gp (hperm.mem_iff.mp hgp)⟩

theorem Choice.move {gp : ChoseGroup} {rest : List ChoseGroup} {n : Nat}
    (h : Choice db removedGp (gp :: rest)) (hmoved : Moved db db' removedGp gp.index n) :
    Choice db' removedGp rest ∧
      Eligible db' removedGp { gp with witnessCount := gp.witnessCount + n } := by
  obtain ⟨hnot, hnodup⟩ := nodup_cons.mp h.nodup
  have hgp := h.eligible gp (.head _)
  have hgroups := hmoved.regrouped.getWitnessGroupCount
  refine ⟨⟨hnodup, fun x hx => ?_, fun x hx => h.room x (.tail _ hx)⟩, ?_⟩
  · have hxe := h.eligible x (.tail _ hx)
    have hcount := hmoved.count x.index
    have hindex : x.index ≠ gp.index := fun heq => hnot (heq ▸ mem_map_of_mem hx)
    rw [if_neg hxe.ne_removed.symm, if_neg hindex] at hcount
    refine ⟨hxe.ne_zero, hxe.ne_removed, hgroups ▸ hxe.below, ?_⟩
    rw [hxe.count]
    exact hcount.symm
  · have hcount := hmoved.count gp.index
    rw [if_neg hgp.ne_removed.symm, if_pos rfl] at hcount
    refine ⟨hgp.ne_zero, hgp.ne_removed, hgroups ▸ hgp.below, ?_⟩
    rw [hgp.count]
    exact hcount.symm

theorem Choice.cons {gp gp' : ChoseGroup} {rest : List ChoseGroup}
    (hnot : gp.index ∉ rest.map ChoseGroup.index) (h : Choice db removedGp rest)
    (hindex : gp'.index = gp.index) (hgp : Eligible db removedGp gp')
    (hroom : gp'.witnessCount < configParamsUCWitness) : Choice db removedGp (gp' :: rest) := by
  refine ⟨nodup_cons.mpr ⟨hindex ▸ hnot, h.nodup⟩, fun x hx => ?_, fun x hx => ?_⟩
  · rcases mem_cons.mp hx with rfl | hx
    · exact hgp
    · exact h.eligible x hx
  · rcases mem_cons.mp hx with rfl | hx
    · exact hroom
    · exact h.room x hx

theorem perm_fill_last {α : Type*} {l : List α} {i : Nat} (hi : i < l.length) (d : α) :
    (l.set i (l.getLastD d)).dropLast.Perm (l.eraseIdx i) := by
  rcases eq_nil_or_concat l with rfl | ⟨init, last, rfl⟩
  · simp at hi
  rw [concat_eq_append, getLastD_concat] at *
  rw [length_append, length_singleton] at hi
  by_cases hlast : i = init.length
  · subst hlast
    rw [eraseIdx_append_of_length_le (Nat.le_refl _)]
    simp
  · have hlt : i < init.length := by omega
    rw [set_append_left _ _ hlt, dropLast_concat, eraseIdx_append_of_lt_length hlt]
    exact (set_perm_cons_eraseIdx hlt last).trans (perm_append_singleton last _).symm

theorem lessNeed_le (times : Nat) {count : Nat} (hroom : count < configParamsUCWitness) :
    count + lessNeed times count ≤ configParamsUCWitness := by
  have hmin : configParamsUCMinVotings = 8 := rfl
  have hmax : configParamsUCWitness = 11 := rfl
  rw [lessNeed]
  split_ifs <;> omega

structure Going (times removedGp turns i : Nat) (list : List Address) (cache : List ChoseGroup)
    (db' : StateDB) (list' : List Address) (cache' : List ChoseGroup) : Prop where
  pending : Pending db' removedGp list'
  choice : Choice db' removedGp cache'
  le : list'.length ≤ list.length
  lt : 1 < times → 0 < turns → i < cache.length → list'.length < list.length

theorem fixPass_spec (times : Nat) (hremoved : removedGp ≠ 0) (turns i : Nat)
    (db : StateDB) (list : List Address) (cache : List ChoseGroup) (hdb : Consistent db)
    (hlist : Pending db removedGp list) (hcache : Choice db removedGp cache) :
    ∃ db' list' cache' ended,
      fixPass times removedGp turns i db list cache = .ok (db', list', cache', ended) ∧
      Consistent db' ∧ Regrouped db db' ∧
      (ended = false → Going times removedGp turns i list cache db' list' cache') := by
  induction turns generalizing i db list cache with
  | zero =>
    exact ⟨db, list, cache, false, rfl, hdb, .refl db,
      fun _ => ⟨hlist, hcache, Nat.le_refl _, fun _ h => absurd h (by omega)⟩⟩
  | succ turns ih =>
    rw [fixPass]
    cases hget : cache[i]? with
    | none =>
      refine ⟨db, list, cache, false, rfl, hdb, .refl db,
        fun _ => ⟨hlist, hcache, Nat.le_refl _, fun _ _ hi => ?_⟩⟩
      rw [List.getElem?_eq_none_iff] at hget
      omega
    | some gp =>
      obtain ⟨hi, hgpi⟩ := List.getElem?_eq_some_iff.mp hget
      have hgp := hcache.eligible gp (List.mem_of_getElem? hget)
      have hroom := lessNeed_le times (hcache.room gp (List.mem_of_getElem? hget))
      have hnonempty : list.isEmpty = false := List.isEmpty_eq_false_iff.mpr hlist.ne_nil
      simp only [hnonempty, Bool.false_eq_true, if_false]
      by_cases hzero : lessNeed times gp.witnessCount = 0
      · rw [if_pos hzero]
        obtain ⟨db', list', cache', ended, heq, hdb', hreg, hleft⟩ :=
          ih (i + 1) db list cache hdb hlist hcache
        refine ⟨db', list', cache', ended, heq, hdb', hreg, fun h => ?_⟩
        refine ⟨(hleft h).pending, (hleft h).choice, (hleft h).le, fun htimes => ?_⟩
        rw [lessNeed, if_pos htimes] at hzero
        omega
      · rw [if_neg hzero]
        obtain ⟨db₁, list₁, ended₁, heq, hdb₁, hreg₁, hleft₁⟩ := giveWitnesses_spec hremoved
          hgp.ne_removed hgp.ne_zero (lessNeed times gp.witnessCount) db list hdb hlist
          (hgp.count ▸ hroom) hgp.below
        rw [heq]
        cases ended₁ with
        | true => exact ⟨db₁, list₁, cache, true, rfl, hdb₁, hreg₁, nofun⟩
        | false =>
          obtain ⟨hmoved, hpending₁, hlength⟩ := hleft₁ rfl
          -- what the rest of the pass does is the same for every list of groups it goes on with
          have hrest : ∀ cache₁, Choice db₁ removedGp cache₁ →
              ∃ db' list' cache' ended,
                fixPass times removedGp turns (i + 1) db₁ list₁ cache₁ =
                  .ok (db', list', cache', ended) ∧
                Consistent db' ∧ Regrouped db db' ∧
                (ended = false →
                  Going times removedGp (turns + 1) i list cache db' list' cache') := by
            intro cache₁ hcache₁
            obtain ⟨db', list', cache', ended, heq', hdb', hreg', hleft'⟩ :=
              ih (i + 1) db₁ list₁ cache₁ hdb₁ hpending₁ hcache₁
            refine ⟨db', list', cache', ended, heq', hdb', hreg₁.trans hreg', fun h => ?_⟩
            have hgoing := hleft' h
            have hle := hgoing.le
            exact ⟨hgoing.pending, hgoing.choice, by omega, fun _ _ _ => by omega⟩
          have hsplit : Choice db removedGp (gp :: cache.eraseIdx i) :=
            hcache.perm (hgpi ▸ List.getElem_cons_eraseIdx_perm hi)
          obtain ⟨hothers, hself⟩ := hsplit.move hmoved
          have hnot := (List.nodup_cons.mp hsplit.nodup).1
          simp only [bind, Except.bind, Bool.false_eq_true, if_false]
          by_cases hfull : gp.witnessCount + lessNeed times gp.witnessCount =
              configParamsUCWitness
          · rw [if_pos hfull]
            split
            · exact ⟨db₁, list₁, _, true, rfl, hdb₁, hreg₁, nofun⟩
            apply hrest
            apply hothers.perm
            have hlt : i < (cache.set i { gp with
                witnessCount := gp.witnessCount + lessNeed times gp.witnessCount }).length := by
              rw [List.length_set]
              exact hi
            have hperm := perm_fill_last hlt gp
            rwa [List.eraseIdx_set_eq] at hperm
          · rw [if_neg hfull]
            apply hrest
            apply Choice.perm _ (List.set_perm_cons_eraseIdx hi _)
            apply Choice.cons hnot hothers _ hself
            · dsimp only
              omega
            · rfl

theorem fixLoop_spec (hremoved : removedGp ≠ 0) (passes times : Nat)
    (db : StateDB) (list : List Address) (cache : List ChoseGroup) (hdb : Consistent db)
    (hlist : Pending db removedGp list) (hcache : Choice db removedGp cache)
    (hpasses : list.length + (if times = 0 then 1 else 0) ≤ passes) :
    ∃ db', fixLoop removedGp passes times db list cache = .ok db' ∧ Consistent db' ∧
      Regrouped db db' := by
  induction passes generalizing times db list cache with
  | zero =>
    have hpos := length_pos_iff.mpr hlist.ne_nil
    omega
  | succ passes ih =>
    rw [fixLoop]
    cases cache with
    | nil => exact ⟨db, rfl, hdb, .refl db⟩
    | cons gp rest =>
      obtain ⟨db₁, list₁, cache₁, ended, heq, hdb₁, hreg₁, hleft⟩ :=
        fixPass_spec (times + 1) hremoved (gp :: rest).length 0 db list (gp :: rest) hdb hlist
          hcache
      simp only [isEmpty_cons, Bool.false_eq_true, if_false, heq]
      cases ended with
      | true => exact ⟨db₁, rfl, hdb₁, hreg₁⟩
      | false =>
        have hgoing := hleft rfl
        have hle := hgoing.le
        have hlength : 0 < (gp :: rest).length := by simp
        have hbound : list₁.length + (if times + 1 = 0 then 1 else 0) ≤ passes := by
          rw [if_neg (by omega)]
          by_cases htimes : times = 0
          · rw [if_pos htimes] at hpasses
            omega
          · rw [if_neg htimes] at hpasses
            have := hgoing.lt (by omega) hlength hlength
            omega
        obtain ⟨db', heq', hdb', hreg'⟩ :=
          ih (times + 1) db₁ list₁ cache₁ hdb₁ hgoing.pending hgoing.choice hbound
        exact ⟨db', heq', hdb', hreg₁.trans hreg'⟩

end Give

theorem mem_groupsWithRoom {removedGp : Nat} {gp : ChoseGroup}
    (hgp : gp ∈ db.groupsWithRoom removedGp) :
    1 ≤ gp.index ∧ gp.index < db.getWitnessGroupCount ∧ gp.index ≠ removedGp ∧
      gp.witnessCount = db.getWitnessCountAt gp.index ∧
      gp.witnessCount ≠ configParamsUCWitness := by
  obtain ⟨i, hi, hsome⟩ := mem_filterMap.mp hgp
  have hrange := mem_range'_1.mp hi
  dsimp only at hsome
  split at hsome
  · next hroom =>
    cases hsome
    exact ⟨hrange.1, by dsimp only; omega, hroom.1, rfl, hroom.2.1⟩
  · cases hsome

theorem nodup_groupsWithRoom (db : StateDB) (removedGp : Nat) :
    ((db.groupsWithRoom removedGp).map ChoseGroup.index).Nodup := by
  rw [groupsWithRoom, map_filterMap]
  apply List.Nodup.filterMap _ nodup_range'
  intro i j index hi hj
  dsimp only at hi hj
  split at hi
  · split at hj
    · simp only [Option.map_some, Option.mem_def, Option.some.injEq] at hi hj
      omega
    · cases hj
  · cases hi

theorem choice_groupsWithRoom (hdb : Consistent db) (removedGp : Nat) :
    Choice db removedGp (db.groupsWithRoom removedGp) := by
  refine ⟨nodup_groupsWithRoom db removedGp, fun gp hgp => ?_, fun gp hgp => ?_⟩
  · obtain ⟨hpos, hbelow, hne, hcount, -⟩ := mem_groupsWithRoom hgp
    exact ⟨by omega, hne.symm, hbelow, hcount⟩
  · obtain ⟨hpos, -, -, hcount, hfull⟩ := mem_groupsWithRoom hgp
    have := hdb.user gp.index (by omega)
    omega

/-- The repair ends, whatever the sorting does, and only moves witnesses of users. -/
theorem fixWitnessGroup_spec (env : Env) (hdb : Consistent db) (removedGp : Nat)
    (hroom : removedGp ≠ 0 → db.getWitnessCountAt removedGp ≠ configParamsUCWitness) :
    ∃ db', db.fixWitnessGroup env removedGp = .ok db' ∧ Consistent db' ∧ Regrouped db db' := by
  rw [fixWitnessGroup]
  by_cases hsys : removedGp = defSysGroupIndex
  · rw [if_pos hsys]
    exact ⟨db, rfl, hdb, .refl db⟩
  rw [if_neg hsys]
  have hremoved : removedGp ≠ 0 := hsys
  by_cases hempty : db.getWitnessCountAt removedGp = 0
  · rw [if_pos hempty]
    exact ⟨db, rfl, hdb, .refl db⟩
  rw [if_neg hempty]
  have hle := hdb.user removedGp hremoved
  have hlt := hroom hremoved
  have hmax : configParamsUCWitness = 11 := rfl
  by_cases henough : configParamsUCMinVotings ≤ db.getWitnessCountAt removedGp
  · rw [if_pos henough]
    have hneed : uint64 (configParamsUCWitness + 2 ^ 64 -
        db.getWitnessCountAt removedGp) =
        configParamsUCWitness - db.getWitnessCountAt removedGp := by
      rw [uint64, hmax]
      omega
    rw [hneed]
    refine fillGroups_spec hremoved _ (fun i hi => ?_) db _
      ⟨hdb, by omega, hdb.below removedGp hempty⟩ (by omega)
    have := (mem_range'_1.mp hi).1
    omega
  · rw [if_neg henough]
    have hpending : Pending db removedGp (db.getWitnessListAt removedGp) := by
      refine ⟨hdb.waiting removedGp, fun h => hempty ?_⟩
      rw [← length_getWitnessListAt, h]
      rfl
    exact fixLoop_spec hremoved _ 0 db _ _ hdb hpending
      ((choice_groupsWithRoom hdb removedGp).perm (env.sliceStable_perm _ _)) (by simp)

end StateDB

end Nerthus.Sc
