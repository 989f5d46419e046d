import Nerthus.Bysolt.Streams

/-!
# What a comparison finds

Trees with the same hash have the same units, so a unit that only one of the nodes has
is in a leaf where the comparison ends.
-/

namespace Nerthus.Bysolt

open Realtime (Bytes)
open Session SlotTree List

variable {left right t : SlotTree}

namespace SlotTree

variable {H : Bytes → Bytes} {a b : SlotTree}

theorem HashInjective.symm (h : HashInjective H a b) : HashInjective H b a where
  injective := fun c hc d hd heq => (h.injective d hd c hc heq.symm).symm
  nonempty := fun c hc => h.nonempty c (mem_append.mpr (mem_append.mp hc).symm)

theorem HashInjective.sub {a' b' : SlotTree} (h : HashInjective H a b)
    (ha : a'.contents H ⊆ a.contents H) (hb : b'.contents H ⊆ b.contents H) :
    HashInjective H a' b' where
  injective := fun c hc d hd => h.injective c (ha hc) d (hb hd)
  nonempty := fun c hc => h.nonempty c
    (mem_append.mpr ((mem_append.mp hc).imp (@ha c) (@hb c)))

theorem contents_left {value : Option (List UnitInfo)} {r : TimeSize} :
    left.contents H ⊆ (mk value left right r).contents H := by
  intro c hc
  rw [contents, append_assoc]
  exact mem_append_right _ (mem_append_left _ hc)

theorem contents_right {value : Option (List UnitInfo)} {r : TimeSize} :
    right.contents H ⊆ (mk value left right r).contents H := by
  intro c hc
  rw [contents]
  exact mem_append_right _ hc

theorem content_mem {c : Content} (h : t.content H = some c) : c ∈ t.contents H := by
  cases t with
  | nil => cases h
  | mk value left right r =>
    rw [contents, h]
    exact mem_append_left _ (mem_append_left _ (mem_singleton.mpr rfl))

theorem hash_eq (t : SlotTree) : t.hash H = (t.content H).elim emptyHash fun c => H c.bytes := by
  cases t with
  | nil => rfl
  | mk value left right r =>
    cases value with
    | none => cases left <;> cases right <;> rfl
    | some units =>
      rw [hash, content]
      simp only [Option.elim, Content.bytes, flatMap_map]

theorem content_eq_of_hash_eq (hinj : HashInjective H a b) (h : a.hash H = b.hash H) :
    a.content H = b.content H := by
  rw [hash_eq, hash_eq] at h
  cases ha : a.content H with
  | none =>
    cases hb : b.content H with
    | none => rfl
    | some d =>
      rw [ha, hb] at h
      exact absurd h.symm (hinj.nonempty d (mem_append_right _ (content_mem hb)))
  | some c =>
    cases hb : b.content H with
    | none =>
      rw [ha, hb] at h
      exact absurd h (hinj.nonempty c (mem_append_left _ (content_mem ha)))
    | some d =>
      rw [ha, hb] at h
      rw [hinj.injective c (content_mem ha) d (content_mem hb) h]

def hashes (t : SlotTree) : List Hash := t.units.map UnitInfo.hash

theorem children_nil (h : ¬ (left ≠ nil ∨ right ≠ nil)) : left = nil ∧ right = nil := by
  simpa [not_or] using h

theorem of_none (h : t.content H = none) : t.hashes = [] ∧ (t.view H).isLeaf = true := by
  cases t with
  | nil => exact ⟨rfl, rfl⟩
  | mk value left right r =>
    cases value with
    | none => cases left <;> cases right <;> first | exact ⟨rfl, rfl⟩ | cases h
    | some units => cases h

theorem of_slot {us : List Hash} (hinner : t.Inner) (h : t.content H = some (.slot us)) :
    t.hashes = us ∧ (t.view H).isLeaf = true := by
  cases t with
  | nil => cases h
  | mk value left right r =>
    cases value with
    | none => cases left <;> cases right <;> cases h
    | some units =>
      obtain ⟨rfl, rfl⟩ := children_nil fun hne => nomatch hinner.1 hne
      cases h
      rw [hashes, SlotTree.units, leaves, flatMap_singleton]
      exact ⟨rfl, rfl⟩

theorem of_pair {x y : Bytes} (h : t.content H = some (.pair x y)) :
    ∃ left right r, t = mk none left right r ∧ (left ≠ nil ∨ right ≠ nil) ∧
      x = left.hash H ∧ y = right.hash H := by
  cases t with
  | nil => cases h
  | mk value left right r =>
    cases value with
    | none =>
      refine ⟨left, right, r, rfl, ?_⟩
      cases left <;> cases right <;> cases h <;> exact ⟨by simp, rfl, rfl⟩
    | some units => cases h

theorem hashes_mk (h : left ≠ nil ∨ right ≠ nil) (value : Option (List UnitInfo)) (r : TimeSize) :
    (mk value left right r).hashes = left.hashes ++ right.hashes := by
  rw [hashes, units_mk h, map_append]
  rfl

theorem hashes_eq_of_hash_eq (ha : a.Inner) (hb : b.Inner) (hinj : HashInjective H a b)
    (h : a.hash H = b.hash H) : a.hashes = b.hashes := by
  induction a generalizing b with
  | nil =>
    have hcontent := content_eq_of_hash_eq hinj h
    rw [(of_none (H := H) hcontent.symm).1]
    rfl
  | mk value left right r ihl ihr =>
    have hcontent := content_eq_of_hash_eq hinj h
    cases hc : content H (mk value left right r) with
    | none =>
      rw [hc] at hcontent
      rw [(of_none hc).1, (of_none hcontent.symm).1]
    | some c =>
      rw [hc] at hcontent
      cases c with
      | slot us => rw [(of_slot ha hc).1, (of_slot hb hcontent.symm).1]
      | pair x y =>
        obtain ⟨left', right', r', rfl, hne', hx', hy'⟩ := of_pair hcontent.symm
        obtain ⟨_, _, _, heq, hne, hx, hy⟩ := of_pair hc
        cases heq
        rw [hashes_mk hne, hashes_mk hne',
          ihl ha.2.1 hb.2.1 (hinj.sub contents_left contents_left) (hx.symm.trans hx'),
          ihr ha.2.2 hb.2.2 (hinj.sub contents_right contents_right) (hy.symm.trans hy')]

theorem view_hash (t : SlotTree) : (t.view H).hash = t.hash H := by
  cases t with
  | nil => rfl
  | mk value left right r => cases left <;> cases right <;> rfl

theorem view_branch (h : left ≠ nil ∨ right ≠ nil) (value : Option (List UnitInfo)) (r : TimeSize) :
    (mk value left right r).view H =
      .branch (hash H (mk value left right r)) r (left.view H) (right.view H) := by
  cases left <;> cases right <;> first | rfl | simp at h

theorem of_view_branch (h : (t.view H).isLeaf = false) :
    ∃ value left right r, t = mk value left right r ∧ (left ≠ nil ∨ right ≠ nil) := by
  cases t with
  | nil => cases h
  | mk value left right r =>
    refine ⟨value, left, right, r, rfl, not_not.mp fun hne => ?_⟩
    obtain ⟨rfl, rfl⟩ := children_nil hne
    cases h

end SlotTree

section Compared

variable {H : Bytes → Bytes} {fits : Side → Node → Prop} {s : Side}

open SlotTree

def Compared (s : Side) (v : Visit) (a b : SlotTree) (u : UnitInfo) : Prop :=
  u.hash ∈ b.hashes ∨ ∃ e, v.Reaches e ∧ e.Leaves ∧
    ∃ leaf ∈ a.leaves, u ∈ leaf.1 ∧ (e.node s).timestamp = leaf.2

theorem Compared.of_child {v w : Visit} {a a' b b' : SlotTree} {u : UnitInfo}
    (hw : w = v.left ∨ w = v.right) (hwa : w.node s = a'.view H) (hwb : w.node s.opp = b'.view H)
    (ha : a'.Inner) (hb : b'.Inner) (hinj : HashInjective H a' b') (hleaves : a'.leaves ⊆ a.leaves)
    (hhashes : b'.hashes ⊆ b.hashes) (hu : u ∈ a'.units)
    (hbelow : w ∈ v.next → Compared s w a' b' u) : Compared s v a b u := by
  by_cases hhash : a'.hash H = b'.hash H
  · have hmem : u.hash ∈ a'.hashes := mem_map_of_mem hu
    rw [hashes_eq_of_hash_eq ha hb hinj hhash] at hmem
    exact .inl (hhashes hmem)
  · have hnext : w ∈ v.next := by
      refine Visit.mem_next.mpr ⟨hw, (w.differs_iff s).mpr ?_⟩
      rw [hwa, hwb, view_hash, view_hash]
      exact hhash
    rcases hbelow hnext with hmem | ⟨e, hreach, hends, leaf, hleaf, hmem, hrange⟩
    · exact .inl (hhashes hmem)
    · exact .inr ⟨e, .step hnext hreach, hends, leaf, hleaves hleaf, hmem, hrange⟩

theorem compared_of_mem {a b : SlotTree} {v : Visit} {n : Nat} {u : UnitInfo} (ha : a.Inner)
    (hb : b.Inner) (hinj : HashInjective H a b) (hva : v.node s = a.view H)
    (hvb : v.node s.opp = b.view H) (hends : v.EndsWithin fits n) (hu : u ∈ a.units) :
    Compared s v a b u := by
  induction a generalizing b v n with
  | nil => cases hu
  | mk value left right r ihl ihr =>
    rcases hends.cases with ⟨hleaves, -⟩ | ⟨hbranch, m, rfl, hnext⟩
    · -- the leaf of the unit itself
      have hleaf := hleaves s
      rw [hva] at hleaf
      obtain ⟨rfl, rfl⟩ := children_nil fun hne => by
        rw [view_branch hne] at hleaf
        cases hleaf
      rw [units, leaves, flatMap_singleton] at hu
      refine .inr ⟨v, .refl v, hleaves, _, mem_singleton.mpr rfl, hu, ?_⟩
      rw [hva]
      rfl
    · have hleaf := hbranch s
      rw [hva] at hleaf
      obtain ⟨_, _, _, _, heq, hne⟩ := of_view_branch hleaf
      cases heq
      have hleaf' := hbranch s.opp
      rw [hvb] at hleaf'
      obtain ⟨value', left', right', r', rfl, hne'⟩ := of_view_branch hleaf'
      rw [view_branch hne] at hva
      rw [view_branch hne'] at hvb
      rw [units_mk hne] at hu
      rcases mem_append.mp hu with hu | hu
      · have hinj' := hinj.sub contents_left contents_left
        have hwa : v.left.node s = left.view H := congrArg (fun node => node.children.1) hva
        have hwb : v.left.node s.opp = left'.view H := congrArg (fun node => node.children.1) hvb
        refine Compared.of_child (.inl rfl) hwa hwb ha.2.1 hb.2.1 hinj' ?_ ?_ hu fun hw =>
          ihl ha.2.1 hb.2.1 hinj' hwa hwb (hnext _ hw) hu
        · rw [leaves_of_ne_nil hne]
          exact subset_append_left _ _
        · rw [hashes_mk hne']
          exact subset_append_left _ _
      · have hinj' := hinj.sub contents_right contents_right
        have hwa : v.right.node s = right.view H := congrArg (fun node => node.children.2) hva
        have hwb : v.right.node s.opp = right'.view H := congrArg (fun node => node.children.2) hvb
        refine Compared.of_child (.inr rfl) hwa hwb ha.2.2 hb.2.2 hinj' ?_ ?_ hu fun hw =>
          ihr ha.2.2 hb.2.2 hinj' hwa hwb (hnext _ hw) hu
        · rw [leaves_of_ne_nil hne]
          exact subset_append_right _ _
        · rw [hashes_mk hne']
          exact subset_append_right _ _

end Compared

/-! ## The comparison -/

namespace Comparison

def Fits (c : Comparison) (s : Side) (node : Node) : Prop :=
  ((c.sto s).timeline.rangRangeUnits (unixNano node.timestamp.beginTime)
    (unixNano node.timestamp.endTime)).length ≤ maxSlotUnits
deriving Decidable

/-- Slot trees of one hour, and hashes that are injective. -/
structure OfHour (H : Bytes → Bytes) (c : Comparison) (r : TimeSize) : Prop where
  trees : ∀ s, (c.tree s).OfHour (c.sto s) r
  injective : SlotTree.HashInjective H (c.tree .main) (c.tree .other)

variable {H : Bytes → Bytes} {c : Comparison} {r : TimeSize}

theorem OfHour.hashInjective (h : c.OfHour H r) (s : Side) :
    SlotTree.HashInjective H (c.tree s) (c.tree s.opp) := by
  cases s with
  | main => exact h.injective
  | other => exact h.injective.symm

theorem OfHour.inner (h : c.OfHour H r) (s : Side) : (c.tree s).Inner := (h.trees s).inner

theorem OfHour.mem_of_lacks (h : c.OfHour H r) {s : Side} {x : Hash} (hlacks : c.Lacks r s x) :
    (∃ u ∈ (c.tree s.opp).units, u.hash = x) ∧ x ∉ (c.tree s).hashes := by
  obtain ⟨⟨u, hu, hholds, rfl⟩, hnot⟩ := hlacks
  refine ⟨⟨u, (h.trees s.opp).all u hu hholds, rfl⟩, fun hmem => ?_⟩
  obtain ⟨u', hu', heq⟩ := mem_map.mp hmem
  obtain ⟨leaf, hleaf, hu'⟩ := mem_flatMap.mp hu'
  have hread := (h.trees s).within leaf hleaf u' hu'
  obtain ⟨e, he, rfl⟩ := mem_map.mp hread
  exact hnot _ (mem_map_of_mem (mem_filter.mp he).1) heq

theorem OfHour.not_lacks (h : c.OfHour H r)
    (hhash : (c.tree .main).hash H = (c.tree .other).hash H) (s : Side) (x : Hash) :
    ¬ c.Lacks r s x := by
  intro hlacks
  obtain ⟨⟨u, hu, hux⟩, hnot⟩ := h.mem_of_lacks hlacks
  have hhash' : (c.tree s).hash H = (c.tree s.opp).hash H := by
    cases s with
    | main => exact hhash
    | other => exact hhash.symm
  rw [hashes_eq_of_hash_eq (h.inner s) (h.inner s.opp) (h.hashInjective s) hhash',
    ← hux] at hnot
  exact hnot (mem_map_of_mem hu)

theorem OfHour.root_cases (h : c.OfHour H r)
    (hhash : (c.tree .main).hash H = (c.tree .other).hash H) :
    (root H c).Leaves ∨ (root H c).Branches ∧ (root H c).next = [] := by
  have hcontent := content_eq_of_hash_eq h.injective hhash
  cases hc : (c.tree .main).content H with
  | none =>
    rw [hc] at hcontent
    exact .inl (Visit.forall_side (of_none hc).2 (of_none hcontent.symm).2)
  | some content =>
    rw [hc] at hcontent
    cases content with
    | slot us =>
      exact .inl (Visit.forall_side (of_slot (h.inner .main) hc).2
        (of_slot (h.inner .other) hcontent.symm).2)
    | pair x y =>
      obtain ⟨left, right, range, hmain, hne, rfl, rfl⟩ := of_pair hc
      obtain ⟨left', right', range', hother, hne', hl, hr⟩ := of_pair hcontent.symm
      have hviewMain := congrArg (view H) hmain
      have hviewOther := congrArg (view H) hother
      rw [view_branch hne] at hviewMain
      rw [view_branch hne'] at hviewOther
      refine .inr ⟨Visit.forall_side ?_ ?_, filter_eq_nil_iff.mpr fun w hw => ?_⟩
      · exact congrArg Node.isLeaf hviewMain
      · exact congrArg Node.isLeaf hviewOther
      · rcases mem_pair.mp hw with rfl | rfl
        · simp [Visit.Differs, Visit.left, root, views, hviewMain, hviewOther,
            Node.children, view_hash, hl]
        · simp [Visit.Differs, Visit.right, root, views, hviewMain, hviewOther,
            Node.children, view_hash, hr]

theorem endsAt_of_leaves {v : Visit} (h : v.Leaves) : v.EndsAt (fun _ _ => True) [] := by
  have hmain := h .main
  have hother := h .other
  unfold Visit.EndsAt
  cases hm : v.node .main <;> cases ho : v.node .other <;> rw [hm] at hmain <;> rw [ho] at hother
  case leaf.leaf => exact ⟨trivial, trivial⟩
  case leaf.branch => cases hother
  all_goals cases hmain

theorem OfHour.full_of_hash_eq (h : c.OfHour H r)
    (hhash : (c.tree .main).hash H = (c.tree .other).hash H) : ∃ full, Session.Full H c full := by
  rcases opening_main (H := H) (c := c) with hsilent | ⟨t, ht, hopen⟩
  · exact ⟨_, full_of_silent hsilent⟩
  rcases h.root_cases hhash with hleaves | ⟨hbranch, hnext⟩
  · obtain ⟨full, hfull, -⟩ := full_of_ends ht hopen (endsAt_of_leaves hleaves)
    exact ⟨full, hfull⟩
  · exact full_of_same ht hopen hbranch hnext

theorem mem_gives {s : Side} {u : UnitInfo} {node : Node} (hfits : c.Fits s.opp node)
    (hu : u ∈ (c.sto s.opp).rangeUnits node.timestamp)
    (hnot : ∀ u' ∈ (c.sto s).units, u'.hash ≠ u.hash) :
    u.hash ∈ gives (c.sto s).timeline (diffEvent (timelines c s.opp) node) := by
  obtain ⟨e, he, rfl⟩ := mem_map.mp hu
  simp only [gives, diffEvent, timelines]
  rw [if_neg (by rw [length_map]; exact Nat.not_lt.mpr hfits)]
  refine mem_filter.mpr ⟨mem_map_of_mem he, decide_eq_true fun hmem => ?_⟩
  obtain ⟨e', he', heq⟩ := mem_map.mp hmem
  exact hnot ⟨e'.1, e'.2⟩ (mem_map_of_mem (mem_filter.mp he').1) heq

theorem OfHour.synced_of_ended (h : c.OfHour H r) {p : Bytes}
    (hends : (root H c).EndsAt c.Fits p) {full : Side → List RealtimeEvent} {x : Session}
    (hx : Session.FollowsBoth H c full x) (hfull : ∀ s, EndsOnce (full s))
    (htold : ∀ s e, (root H c).Reaches e → e.Leaves →
      diffEvent (timelines c s) (e.node s) ∈ full s.opp)
    (hended : ∀ s, x.Ended s) {s : Side} {y : Hash} (hlacks : c.Lacks r s y) : y ∈ x.synced s := by
  obtain ⟨⟨u, hu, rfl⟩, hnot⟩ := h.mem_of_lacks hlacks
  have hinj := h.hashInjective s.opp
  rw [Realtime.Side.opp_opp] at hinj
  have hview : (root H c).node s.opp.opp = (c.tree s).view H := by
    rw [Realtime.Side.opp_opp]
    rfl
  rcases compared_of_mem (h.inner s.opp) (h.inner s) hinj rfl hview hends.endsWithin hu with
    hmem | ⟨e, hreach, hleaves, leaf, hleaf, hmem, hrange⟩
  · exact absurd hmem hnot
  obtain ⟨ev, hev, hpayload⟩ := hended s
  have hall := (hfull s).eq_of_handled (hx s).start hev hpayload
  have hdiff := htold s.opp e hreach hleaves
  rw [Realtime.Side.opp_opp, ← hall] at hdiff
  rw [(hx s).synced]
  refine mem_flatMap.mpr ⟨_, hdiff, mem_gives ?_ ?_ hlacks.2⟩
  · exact hreach.fits_leaves hends.endsWithin hleaves s.opp
  · rw [hrange]
    exact (h.trees s.opp).within leaf hleaf u hmem

/-- The comparison is complete if it ends at pairs of leaves that fit into a message, none deeper
than the rightmost. -/
theorem comparesFully (h : c.OfHour H r) (hends : (c.tree .main).hash H ≠ (c.tree .other).hash H →
      ∃ p, EndsAt c.Fits ((c.tree .main).view H) ((c.tree .other).view H) p) :
    c.ComparesFully H r := by
  intro acts
  by_cases hhash : (c.tree .main).hash H = (c.tree .other).hash H
  · obtain ⟨full, hfull⟩ := h.full_of_hash_eq hhash
    obtain ⟨x, hrun, -⟩ := run_follows hfull follows_start acts
    exact ⟨x, hrun, fun _ s y hlacks => absurd hlacks (h.not_lacks hhash s y)⟩
  · obtain ⟨p, hends⟩ := hends hhash
    rcases opening_main (H := H) (c := c) with hsilent | ⟨t, ht, hopen⟩
    · obtain ⟨x, hrun, hx⟩ :=
        run_follows (full_of_silent hsilent) follows_start acts
      refine ⟨x, hrun, fun hended => ?_⟩
      obtain ⟨ev, hev, -⟩ := hended .main
      rw [prefix_nil.mp (hx .main).start] at hev
      cases hev
    · obtain ⟨full, hfull, honce, htold⟩ := full_of_ends ht hopen hends
      obtain ⟨x, hrun, hx⟩ := run_follows hfull follows_start acts
      exact ⟨x, hrun, fun hended s y hlacks => h.synced_of_ended hends hx honce htold hended hlacks⟩

def ofTrees (sto : Side → Storage) (tree : Side → SlotTree) : Comparison where
  sto := sto
  tree := tree
  getStatus := fun s _ => ⟨[UInt8.ofNat s.id, 0, 0, 0], emptyHash, 1⟩
  remote := fun s => ⟨[UInt8.ofNat s.opp.id, 0, 0, 0], emptyHash, 1⟩

def slotOf (units : List UnitInfo) (lower upper : Int) : SlotTree :=
  .mk (some units) .nil .nil ⟨lower * second, upper * second⟩

def splitOf (left right : SlotTree) : SlotTree :=
  .mk none left right ⟨left.timeRange.beginTime, right.timeRange.endTime⟩

def secondDiffers : Comparison :=
  ofTrees
    (fun
      | .main => ⟨1, ⟨[(7, ⟨1⟩), (2000000000000, ⟨2⟩)], by decide, by decide⟩⟩
      | .other => ⟨1, ⟨[(7, ⟨1⟩), (2000000000000, ⟨3⟩)], by decide, by decide⟩⟩)
    (fun
      | .main => splitOf (slotOf [⟨7, ⟨1⟩⟩] 0 1800) (slotOf [⟨2000000000000, ⟨2⟩⟩] 1800 3600)
      | .other => splitOf (slotOf [⟨7, ⟨1⟩⟩] 0 1800) (slotOf [⟨2000000000000, ⟨3⟩⟩] 1800 3600))

theorem secondDiffers_ofHour : secondDiffers.OfHour Realtime.fnv32 ⟨0, 3600 * second⟩ where
  trees := Visit.forall_side ⟨by decide, by decide, by decide⟩ ⟨by decide, by decide, by decide⟩
  injective := ⟨by decide +kernel, by decide +kernel⟩

theorem comparesFully_secondDiffers : secondDiffers.OfHour Realtime.fnv32 ⟨0, 3600 * second⟩ ∧
      secondDiffers.ComparesFully Realtime.fnv32 ⟨0, 3600 * second⟩ :=
  ⟨secondDiffers_ofHour, comparesFully secondDiffers_ofHour fun _ => ⟨[1], by decide +kernel⟩⟩

/-- The first half of the hour is one slot here and halved there, and the second half differs
too. -/
def halfSplit : Comparison :=
  ofTrees
    (fun
      | .main => ⟨1, ⟨[(7, ⟨1⟩), (1000000000000, ⟨2⟩), (2000000000000, ⟨3⟩)], by decide, by decide⟩⟩
      | .other => ⟨1, ⟨[(7, ⟨1⟩), (2000000000000, ⟨4⟩)], by decide, by decide⟩⟩)
    (fun
      | .main => splitOf (splitOf (slotOf [⟨7, ⟨1⟩⟩] 0 900) (slotOf [⟨1000000000000, ⟨2⟩⟩] 900 1800))
          (slotOf [⟨2000000000000, ⟨3⟩⟩] 1800 3600)
      | .other => splitOf (slotOf [⟨7, ⟨1⟩⟩] 0 1800) (slotOf [⟨2000000000000, ⟨4⟩⟩] 1800 3600))

/-- The main node sends a place below a slot of the other, with an end path that is too short for
it. -/
theorem halfSplit_panics : halfSplit.OfHour Realtime.fnv32 ⟨0, 3600 * second⟩ ∧
      ¬ halfSplit.ComparesFully Realtime.fnv32 ⟨0, 3600 * second⟩ := by
  refine ⟨⟨Visit.forall_side ⟨by decide, by decide, by decide⟩ ⟨by decide, by decide, by decide⟩,
    by decide +kernel, by decide +kernel⟩, fun h => ?_⟩
  obtain ⟨x, hrun, -⟩ := h [.deliver .other, .deliver .main, .deliver .main, .deliver .other,
    .deliver .other]
  have hfault : ((start Realtime.fnv32 halfSplit).run [.deliver .other, .deliver .main,
      .deliver .main, .deliver .other, .deliver .other]).isOk = false := by
    decide +kernel
  rw [hrun] at hfault
  cases hfault

end Comparison

end Nerthus.Bysolt
