import Nerthus.Chain.Types

/-!
# The children relation

`WriteChildrens`, `WalkChildren` and `DeleteChildrenRelation`: for each unit a counter, and one
key for each child. A unit is written in a batch whose counters are read when the batch is
filled; writers of different chains interleave.
-/

namespace Nerthus.Chain

open Function

/-- The bytes of a key after "uc_" and the hash: how many there are, and the number they spell. -/
structure Suffix where
  size : Nat
  value : Nat
deriving DecidableEq

namespace Suffix

def uint64ToBytes (n : Nat) : Suffix := ⟨8, n⟩

/-- `Bytes` of a `big.Int`, which has no leading zeros. -/
def bigBytes (n : Nat) : Suffix := ⟨if n = 0 then 0 else n.log2 / 8 + 1, n⟩

def count : Suffix := ⟨2, 0x5f63⟩

theorem uint64ToBytes_inj {m n : Nat} : uint64ToBytes m = uint64ToBytes n ↔ m = n := by
  simp [uint64ToBytes]

end Suffix

/-! ## The relation -/

structure Children where
  counts : Hash → Nat
  slots : Hash → Suffix → Option Hash

variable {parent p hash : Hash} {r : Relation} (c : Children)

namespace Children

def empty : Children := ⟨fun _ => 0, fun _ _ => none⟩

def put (parent : Hash) (count : Nat) (child : Hash) : Children where
  counts := update c.counts parent count
  slots := update c.slots parent
    (update (c.slots parent) (.uint64ToBytes count) (some child))

def deleteKey (parent : Hash) (key : Suffix) : Children :=
  if key = .count then { c with counts := update c.counts parent 0 }
  else
    { c with
      slots := update c.slots parent (update (c.slots parent) key none) }

def deleteKeys (c : Children) (hash : Hash) : Nat → Children
  | 0 => c
  | count + 1 => (c.deleteKey hash (.bigBytes (count + 1))).deleteKeys hash count

def deleteChildrenRelation (hash : Hash) : Children :=
  c.deleteKeys hash (c.counts hash)

/-- What `WriteChildrens` puts into a batch: the parents with their new counters. -/
def childrenBatch (u : DagUnit) : List (Hash × Nat) :=
  u.references.map fun p => (p, c.counts p + 1)

def writeBatch (child : Hash) (batch : List (Hash × Nat)) : Children :=
  batch.foldl (fun c e => c.put e.1 e.2 child) c

def writeChildrens (u : DagUnit) : Children :=
  u.references.foldl (fun c p => c.put p (c.counts p + 1) u.hash) c

def walkChildren (hash : Hash) : List Hash :=
  (List.range' 1 (c.counts hash)).filterMap fun i => c.slots hash (.uint64ToBytes i)

theorem counts_put (c : Children) (parent : Hash) (count : Nat) (child p : Hash) :
    (c.put parent count child).counts p = if p = parent then count else c.counts p := by
  simp only [put, update_apply]

theorem counts_put_of_ne (c : Children) (h : p ≠ parent) (count : Nat) (child : Hash) :
    (c.put parent count child).counts p = c.counts p := by
  rw [counts_put, if_neg h]

theorem slots_put_of_ne (c : Children) (h : p ≠ parent) (count : Nat) (child : Hash) :
    (c.put parent count child).slots p = c.slots p := by
  simp only [put]
  rw [update_of_ne h]

theorem walkChildren_put_of_ne (c : Children) (h : p ≠ parent) (count : Nat) (child : Hash) :
    (c.put parent count child).walkChildren p = c.walkChildren p := by
  rw [walkChildren, counts_put_of_ne c h, slots_put_of_ne c h, walkChildren]

theorem walkChildren_put_next (c : Children) (p child : Hash) :
    (c.put p (c.counts p + 1) child).walkChildren p = c.walkChildren p ++ [child] := by
  have hcount : (c.put p (c.counts p + 1) child).counts p = c.counts p + 1 := by
    rw [counts_put, if_pos rfl]
  have hlast : (c.put p (c.counts p + 1) child).slots p (.uint64ToBytes (1 + c.counts p)) =
      some child := by
    simp only [put, Nat.add_comm 1, update_self]
  rw [walkChildren, hcount, List.range'_1_concat, List.filterMap_append, walkChildren]
  congr 1
  · apply List.filterMap_congr
    intro i hi
    have hne : Suffix.uint64ToBytes i ≠ .uint64ToBytes (c.counts p + 1) := by
      rw [Ne, Suffix.uint64ToBytes_inj]
      have := (List.mem_range'_1.mp hi).2
      omega
    simp only [put, update_self, update_of_ne hne]
  · rw [List.filterMap_cons, hlast]
    rfl

structure Grown (c : Children) (parents : List Hash) (child : Hash) (c' : Children) : Prop where
  walk : ∀ p ∈ parents, c'.walkChildren p = c.walkChildren p ++ [child]
  walk_other : ∀ p ∉ parents, c'.walkChildren p = c.walkChildren p
  counts_other : ∀ p ∉ parents, c'.counts p = c.counts p

theorem writeBatch_grown {parents : List Hash} (hnodup : parents.Nodup) (child : Hash) :
    ∀ c : Children,
      Grown c parents child (c.writeBatch child (parents.map fun p => (p, c.counts p + 1))) := by
  induction parents with
  | nil =>
    intro c
    exact ⟨fun _ hp => absurd hp List.not_mem_nil, fun _ _ => rfl, fun _ _ => rfl⟩
  | cons q rest ih =>
    intro c
    obtain ⟨hq, hrest⟩ := List.nodup_cons.mp hnodup
    -- the counters of the other parents are those of the relation after the first entry
    have hbatch : (rest.map fun p => (p, c.counts p + 1)) =
        rest.map fun p => (p, (c.put q (c.counts q + 1) child).counts p + 1) := by
      apply List.map_congr_left
      intro p hp
      have hpq : p ≠ q := fun h => hq (h ▸ hp)
      rw [counts_put_of_ne c hpq]
    have hfold : c.writeBatch child ((q :: rest).map fun p => (p, c.counts p + 1)) =
        (c.put q (c.counts q + 1) child).writeBatch child
          (rest.map fun p => (p, (c.put q (c.counts q + 1) child).counts p + 1)) := by
      rw [← hbatch]
      rfl
    obtain ⟨hwalk, hother, hcounts⟩ := ih hrest (c.put q (c.counts q + 1) child)
    rw [hfold]
    refine ⟨fun p hp => ?_, fun p hp => ?_, fun p hp => ?_⟩
    · by_cases hpq : p = q
      · rw [hpq, hother q hq, walkChildren_put_next]
      · rw [hwalk p ((List.mem_cons.mp hp).resolve_left hpq), walkChildren_put_of_ne c hpq]
    · obtain ⟨hpq, hp⟩ := not_or.mp (fun h => hp (List.mem_cons.mpr h))
      rw [hother p hp, walkChildren_put_of_ne c hpq]
    · obtain ⟨hpq, hp⟩ := not_or.mp (fun h => hp (List.mem_cons.mpr h))
      rw [hcounts p hp, counts_put_of_ne c hpq]

theorem deleteChildrenRelation_of_counts {c : Children} (h : c.counts hash = 0) :
    c.deleteChildrenRelation hash = c := by
  rw [deleteChildrenRelation, h, deleteKeys]

end Children

open Children

/-! ## Writers -/

/-- The relation in the database, the writers with the batches they have filled, and the units
stored and not deleted. -/
structure Relation where
  children : Children
  writing : Address → Option (DagUnit × List (Hash × Nat))
  stored : List DagUnit

inductive RelationStep where
  | fill (u : DagUnit)
  | commit (chain : Address)
  | delete (hash : Hash)
deriving DecidableEq

namespace Relation

def empty : Relation := ⟨.empty, fun _ => none, []⟩

def fill (r : Relation) (u : DagUnit) : Relation :=
  if (r.writing u.mc).isSome ∨ u.hash ∈ r.stored.map DagUnit.hash then r
  else
    { r with writing := update r.writing u.mc (some (u, r.children.childrenBatch u)) }

def commit (r : Relation) (chain : Address) : Relation :=
  match r.writing chain with
  | none => r
  | some (u, batch) =>
    { children := r.children.writeBatch u.hash batch
      writing := update r.writing chain none
      stored := u :: r.stored }

/-- `DeleteUnit`, of what it deletes the header and the relation. -/
def deleteUnit (r : Relation) (hash : Hash) : Relation :=
  { r with
    children := r.children.deleteChildrenRelation hash
    stored := r.stored.filter fun u => u.hash ≠ hash }

def IsChild (r : Relation) (p h : Hash) : Prop :=
  ∃ u ∈ r.stored, u.hash = h ∧ p ∈ u.references

def Complete (r : Relation) : Prop :=
  ∀ p, (r.children.walkChildren p).Nodup ∧ ∀ h, h ∈ r.children.walkChildren p ↔ r.IsChild p h

end Relation

namespace RelationStep

def after (r : Relation) : RelationStep → Relation
  | fill u => r.fill u
  | commit chain => r.commit chain
  | delete hash => r.deleteUnit hash

def run (r : Relation) (steps : List RelationStep) : Relation := steps.foldl after r

/-- A batch is filled while none for one of its parents is open, and what is deleted is not stored
or refers to nothing, and has no children. -/
def Orderly (r : Relation) : RelationStep → Prop
  | fill u => ∀ chain v batch, r.writing chain = some (v, batch) → u.references.Disjoint v.references
  | commit _ => True
  | delete hash => r.children.counts hash = 0 ∧ ∀ u ∈ r.stored, u.hash = hash → u.references = []

def OrderlyRun : Relation → List RelationStep → Prop
  | _, [] => True
  | r, step :: steps => Orderly r step ∧ OrderlyRun (after r step) steps

end RelationStep

namespace Relation

structure Inv (r : Relation) : Prop where
  complete : r.Complete
  /-- The counters that an open batch has read still stand. -/
  current : ∀ chain u batch, r.writing chain = some (u, batch) → batch = r.children.childrenBatch u
  fresh : ∀ chain u batch, r.writing chain = some (u, batch) →
    ∀ v ∈ r.stored, v.hash = u.hash → u.references.Disjoint v.references
  disjoint : ∀ chain u batch chain' u' batch', r.writing chain = some (u, batch) →
    r.writing chain' = some (u', batch') → chain ≠ chain' → u.references.Disjoint u'.references

theorem inv_empty : empty.Inv := by
  refine ⟨fun p => ⟨List.nodup_nil, fun h => ?_⟩, ?_, ?_, ?_⟩
  · simp [empty, Children.empty, Children.walkChildren, IsChild]
  · intro chain u batch hwriting
    cases hwriting
  · intro chain u batch hwriting
    cases hwriting
  · intro chain u batch chain' u' batch' hwriting
    cases hwriting

theorem Inv.fill (hinv : r.Inv) {u : DagUnit} (horder : (RelationStep.fill u).Orderly r) :
    (r.fill u).Inv := by
  unfold Relation.fill
  split_ifs with hblocked
  · exact hinv
  obtain ⟨-, hnew⟩ := not_or.mp hblocked
  -- an open batch is the new one or was open before
  have hcases : ∀ {chain v batch},
      update r.writing u.mc (some (u, r.children.childrenBatch u)) chain = some (v, batch) →
      (chain = u.mc ∧ v = u ∧ batch = r.children.childrenBatch u) ∨
        r.writing chain = some (v, batch) := by
    intro chain v batch h
    rw [update_apply] at h
    split_ifs at h with hchain
    · cases h
      exact .inl ⟨hchain, rfl, rfl⟩
    · exact .inr h
  refine ⟨hinv.complete, fun chain v batch h => ?_, fun chain v batch h w hw hhash => ?_,
    fun chain v batch chain' v' batch' h h' hne => ?_⟩
  · obtain ⟨-, rfl, rfl⟩ | h := hcases h
    · rfl
    · exact hinv.current chain v batch h
  · obtain ⟨-, rfl, -⟩ | h := hcases h
    · exact absurd (List.mem_map.mpr ⟨w, hw, hhash⟩) hnew
    · exact hinv.fresh chain v batch h w hw hhash
  · obtain ⟨hc, hv, -⟩ | hold := hcases h <;> obtain ⟨hc', hv', -⟩ | hold' := hcases h'
    · exact absurd (hc.trans hc'.symm) hne
    · exact hv ▸ horder chain' v' batch' hold'
    · exact hv' ▸ (horder chain v batch hold).symm
    · exact hinv.disjoint chain v batch chain' v' batch' hold hold' hne

theorem Inv.commit (hinv : r.Inv) (chain : Address) : (r.commit chain).Inv := by
  unfold Relation.commit
  split
  · exact hinv
  next u batch hwriting =>
  obtain rfl := hinv.current chain u batch hwriting
  obtain ⟨hwalk, hother, hcounts⟩ :=
    writeBatch_grown u.nodup_references u.hash r.children
  -- what is still open was open before, on another chain
  have hcases : ∀ {chain' v batch},
      update r.writing chain none chain' = some (v, batch) →
      chain ≠ chain' ∧ r.writing chain' = some (v, batch) := by
    intro chain' v batch h
    rw [update_apply] at h
    split_ifs at h with hchain
    exact ⟨Ne.symm hchain, h⟩
  have hfresh : ∀ p ∈ u.references, u.hash ∉ r.children.walkChildren p := by
    intro p hp hmem
    obtain ⟨v, hv, hhash, hpv⟩ := (hinv.complete p).2 u.hash |>.mp hmem
    exact hinv.fresh chain u _ hwriting v hv hhash hp hpv
  refine ⟨fun p => ?_, fun chain' v batch h => ?_, fun chain' v batch h w hw hhash => ?_,
    fun chain₁ v batch chain₂ v' batch' h h' hne => ?_⟩
  · obtain ⟨hnodup, hmem⟩ := hinv.complete p
    by_cases hp : p ∈ u.references
    · have hnext := hwalk p hp
      refine ⟨?_, fun h => ?_⟩
      · change (walkChildren (writeBatch _ _ _) p).Nodup
        rw [childrenBatch, hnext, List.nodup_append]
        exact ⟨hnodup, List.nodup_singleton _, fun a ha b hb hab => hfresh p hp
          (List.mem_singleton.mp hb ▸ hab ▸ ha)⟩
      · change h ∈ walkChildren (writeBatch _ _ _) p ↔ _
        rw [childrenBatch, hnext, List.mem_append, hmem h, List.mem_singleton]
        constructor
        · rintro (⟨v, hv, hrest⟩ | rfl)
          · exact ⟨v, .tail _ hv, hrest⟩
          · exact ⟨u, .head _, rfl, hp⟩
        · rintro ⟨v, hv, hhash, hpv⟩
          rcases List.mem_cons.mp hv with rfl | hv
          · exact .inr hhash.symm
          · exact .inl ⟨v, hv, hhash, hpv⟩
    · have hsame := hother p hp
      refine ⟨?_, fun h => ?_⟩
      · change (walkChildren (writeBatch _ _ _) p).Nodup
        rw [childrenBatch, hsame]
        exact hnodup
      · change h ∈ walkChildren (writeBatch _ _ _) p ↔ _
        rw [childrenBatch, hsame, hmem h]
        constructor
        · rintro ⟨v, hv, hrest⟩
          exact ⟨v, .tail _ hv, hrest⟩
        · rintro ⟨v, hv, hhash, hpv⟩
          rcases List.mem_cons.mp hv with rfl | hv
          · exact absurd hpv hp
          · exact ⟨v, hv, hhash, hpv⟩
  · obtain ⟨hne, h⟩ := hcases h
    rw [hinv.current chain' v batch h]
    apply List.map_congr_left
    intro p hp
    have hp' : p ∉ u.references := fun hpu =>
      hinv.disjoint chain u _ chain' v batch hwriting h hne hpu hp
    rw [childrenBatch, hcounts p hp']
  · obtain ⟨hne, hold⟩ := hcases h
    rcases List.mem_cons.mp hw with rfl | hw
    · exact (hinv.disjoint chain w _ chain' v batch hwriting hold hne).symm
    · exact hinv.fresh chain' v batch hold w hw hhash
  · exact hinv.disjoint chain₁ v batch chain₂ v' batch' (hcases h).2 (hcases h').2 hne

theorem Inv.deleteUnit (hinv : r.Inv) (horder : (RelationStep.delete hash).Orderly r) :
    (r.deleteUnit hash).Inv := by
  obtain ⟨hcount, hbare⟩ := horder
  have hchildren : (r.deleteUnit hash).children = r.children :=
    deleteChildrenRelation_of_counts hcount
  -- who refers to something has stayed
  have hstored : ∀ p h, (r.deleteUnit hash).IsChild p h ↔ r.IsChild p h := by
    intro p h
    constructor
    · rintro ⟨u, hu, hrest⟩
      exact ⟨u, (List.mem_filter.mp hu).1, hrest⟩
    · rintro ⟨u, hu, hhash, hp⟩
      refine ⟨u, List.mem_filter.mpr ⟨hu, decide_eq_true fun heq => ?_⟩, hhash, hp⟩
      rw [hbare u hu heq] at hp
      exact List.not_mem_nil hp
  refine ⟨fun p => ?_, ?_, ?_, hinv.disjoint⟩
  · rw [hchildren]
    exact ⟨(hinv.complete p).1, fun h => ((hinv.complete p).2 h).trans (hstored p h).symm⟩
  · rw [hchildren]
    exact hinv.current
  · intro chain u batch h v hv
    exact hinv.fresh chain u batch h v (List.mem_filter.mp hv).1

theorem Inv.after (hinv : r.Inv) {step : RelationStep} (horder : step.Orderly r) :
    (step.after r).Inv := by
  cases step with
  | fill u => exact hinv.fill horder
  | commit chain => exact hinv.commit chain
  | delete hash => exact hinv.deleteUnit horder

theorem walkChildren_deleteUnit (horder : (RelationStep.delete hash).Orderly r) :
    (r.deleteUnit hash).children.walkChildren hash = [] := by
  change walkChildren (r.children.deleteChildrenRelation hash) hash = []
  rw [deleteChildrenRelation_of_counts horder.1, walkChildren, horder.1]
  rfl

theorem inv_run {steps : List RelationStep} (hinv : r.Inv)
    (horder : RelationStep.OrderlyRun r steps) : (RelationStep.run r steps).Inv := by
  induction steps generalizing r with
  | nil => exact hinv
  | cons step steps ih => exact ih (hinv.after horder.1) horder.2

end Relation

namespace RelationStep

theorem orderlyRun_append {init rest : List RelationStep} :
    OrderlyRun r (init ++ rest) ↔ OrderlyRun r init ∧ OrderlyRun (run r init) rest := by
  induction init generalizing r with
  | nil => simp [OrderlyRun, run]
  | cons step init ih =>
    simp only [List.cons_append, OrderlyRun, ih, and_assoc]
    rfl

/-- If the steps are orderly, each child is visited exactly once and nothing else is, and a unit
just deleted has no children. -/
theorem children_complete (steps : List RelationStep) (horder : OrderlyRun .empty steps) :
    (run .empty steps).Complete ∧
      ∀ hash, steps.getLast? = some (.delete hash) →
        (run .empty steps).children.walkChildren hash = [] := by
  refine ⟨(Relation.inv_run Relation.inv_empty horder).complete, fun hash hlast => ?_⟩
  obtain ⟨init, rfl⟩ := List.getLast?_eq_some_iff.mp hlast
  have hdelete := (orderlyRun_append.mp horder).2.1
  rw [run, List.foldl_append]
  exact Relation.walkChildren_deleteUnit hdelete

end RelationStep

open RelationStep

namespace Sample

def child (chain hash scHash : Nat) : DagUnit where
  header :=
    { mc := ⟨chain⟩, number := 1, parentHash := ⟨8⟩, scHash := ⟨scHash⟩, proposer := ⟨1⟩,
      stateRoot := .zero, hash := ⟨hash + 1⟩, hash_ne := succ_ne_zeroHash hash }
  txs := []

def inTurn : List RelationStep :=
  [.fill (child 1 20 9), .commit ⟨1⟩, .fill (child 2 21 9), .commit ⟨2⟩, .delete ⟨40⟩]

theorem inTurn_complete : (run .empty inTurn).Complete ∧
    (run .empty inTurn).children.walkChildren ⟨40⟩ = [] := by
  have h := children_complete inTurn (by
    refine ⟨?_, trivial, ?_, trivial, ⟨by decide, by decide⟩, trivial⟩
    · intro chain v batch h
      cases h
    · intro chain v batch h
      have hnone : Relation.writing (run .empty
          [.fill (child 1 20 9), .commit ⟨1⟩]) chain = none := by
        simp [run, after, Relation.fill, Relation.commit, Relation.empty,
          child, DagUnit.mc]
      exact absurd (hnone.symm.trans h) (by simp))
  exact ⟨h.1, h.2 ⟨40⟩ (by decide)⟩

/-- Two writers that read the counter of one parent take one slot, and the first child is lost. A
deleted unit keeps its children, and is still visited. -/
theorem children_not_complete : ¬(run .empty
      [.fill (child 1 20 9), .fill (child 2 21 9), .commit ⟨1⟩, .commit ⟨2⟩]).Complete ∧
    ¬(run .empty [.fill (child 1 20 9), .commit ⟨1⟩, .delete ⟨21⟩]).Complete ∧
    (run .empty
      [.fill (child 1 20 9), .commit ⟨1⟩, .delete ⟨9⟩]).children.walkChildren ⟨9⟩ ≠ [] := by
  refine ⟨fun h => ?_, fun h => ?_, by decide⟩
  · have hchild := (h ⟨9⟩).2 ⟨21⟩ |>.mpr ⟨child 1 20 9, by decide, rfl, by decide⟩
    exact absurd hchild (by decide)
  · obtain ⟨u, hu, -⟩ := (h ⟨9⟩).2 ⟨21⟩ |>.mp (by decide)
    exact absurd hu (by simp [run, after, Relation.fill, Relation.commit,
      Relation.deleteUnit, Relation.empty, child, DagUnit.hash, DagUnit.mc])

end Sample

end Nerthus.Chain
