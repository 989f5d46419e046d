import Nerthus.Realtime.Rebuild
import Nerthus.Realtime.Rehash
import Nerthus.Realtime.Types

/-!
# The incremental tree and a rebuilt one

For the sync a tree is the list of its contents, and its root is the hash of the tree built over
it from scratch. `Update` and `Root` keep to that. `Append` puts the new leaves of a tree that
has leaves already in a slice that it drops, and gives several leaves of an empty tree one index.
-/

namespace Nerthus.Realtime

open Lib Relation Tree List Nat

variable {κ : Type} [Content κ] {H : Bytes → Bytes} {h h' : Heap} {t : Tree} {cs : List κ}

/-- A call on a tree. `findFunc` asks the database, so it comes with the call. -/
inductive Op (κ : Type) where
  | append (cont : List κ)
  | update (findFunc : Option (κ → Int)) (cont : κ)
  | root
  | rootHash

def Op.apply (H : Bytes → Bytes) (fuel : Nat) (t : Tree) : Op κ → Except Fault Tree
  | append cont => t.append H fuel cont
  | update findFunc cont => Prod.snd <$> t.update H fuel findFunc cont
  | root => Prod.snd <$> t.root fuel
  | rootHash => Prod.snd <$> t.rootHash H fuel

/-- An update replaces what `findFunc` finds, does nothing if that is not there, and appends if
nothing is found. -/
def Op.spec (cs : List κ) : Op κ → List κ
  | append cont => cs ++ cont
  | update none cont => cs ++ [cont]
  | update (some f) cont =>
    if cs = [] ∨ f cont < 0 then cs ++ [cont] else cs.set (f cont).toNat cont
  | root => cs
  | rootHash => cs

def rebuiltRoot (H : Bytes → Bytes) (cs : List κ) : Option Bytes :=
  build (fun a b => H (a ++ b)) id (cs.map (Content.hash H))

structure Refines (H : Bytes → Bytes) (t : Tree) (cs : List κ) : Prop where
  leaves : t.leafs.map (fun p => (t.heap.node p).hash) = cs.map (Content.hash H)
  indices : t.leafs.map (fun p => (t.heap.node p).index) = List.range cs.length
  count : t.leafCount = cs.length
  root : cs ≠ [] → ∃ v t', Returns (fun fuel => t.rootHash H fuel) (v, t') ∧
    rebuiltRoot H cs = some v

/-- The tree has the contents it should have before and after each call, and
each call returns. -/
def Follows (H : Bytes → Bytes) (fuel : Nat) : Tree → List κ → List (Op κ) → Prop
  | t, cs, [] => Refines H t cs
  | t, cs, op :: ops =>
    Refines H t cs ∧ ∃ t', op.apply H fuel t = .ok t' ∧ Follows H fuel t' (op.spec cs) ops

/-- `Append` brings nothing, or the first leaf alone, and nobody asks an empty
tree for its root. -/
def Op.Fits (cs : List κ) : Op κ → Prop
  | append cont => cont = [] ∨ cs = [] ∧ cont.length = 1
  | update _ _ => True
  | root => cs ≠ []
  | rootHash => cs ≠ []

def AllFit : List κ → List (Op κ) → Prop
  | _, [] => True
  | cs, op :: ops => op.Fits cs ∧ AllFit (op.spec cs) ops

/-- The tree has its root or can be built upon. -/
structure Consistent (H : Bytes → Bytes) (t : Tree) : Prop where
  sound : Sound H t.heap
  leaf : ∀ i p, t.leafs[i]? = some p → p < t.heap.size ∧ (t.heap.node p).leaf = some i ∧
    (t.heap.node p).childLeft = none
  rows : (∃ top r, t.rootNode = some r ∧ Stands t.heap top 0 r t.leafs ∧
      (t.heap.node r).parent = none) ∨
    t.rootNode = none ∧ ∀ x, t.leafs.getLast? = some x → Tip t.heap x

def Lists (H : Bytes → Bytes) (t : Tree) (cs : List κ) : Prop :=
  t.leafs.map (fun p => (t.heap.node p).hash) = cs.map (Content.hash H)

theorem Lists.length (hl : Lists H t cs) : t.leafs.length = cs.length := by
  have hlen := congrArg List.length hl
  rwa [List.length_map, List.length_map] at hlen

theorem Lists.nil_iff (hl : Lists H t cs) : t.leafs = [] ↔ cs = [] := by
  rw [← length_eq_zero_iff, ← length_eq_zero_iff, hl.length]

variable {fuel : Nat} {findFunc : Option (κ → Int)} {t' : Tree}

theorem Lists.congr (hl : Lists H t cs) (hleafs : t'.leafs = t.leafs)
    (hhash : ∀ p ∈ t.leafs, (t'.heap.node p).hash = (t.heap.node p).hash) : Lists H t' cs := by
  rw [Lists, hleafs, ← hl]
  exact map_congr_left hhash

section

variable (hc : Consistent H t)
include hc

theorem Consistent.lt {p : Nat} (hp : p ∈ t.leafs) :
    p < t.heap.size ∧ (t.heap.node p).leaf.isSome = true := by
  obtain ⟨i, hi⟩ := mem_iff_getElem?.mp hp
  obtain ⟨hlt, hleaf, -⟩ := hc.leaf i p hi
  exact ⟨hlt, by rw [hleaf]; rfl⟩

theorem Consistent.rootNode_eq_none (hnil : t.leafs = []) :
    t.rootNode = none := by
  rcases hc.rows with ⟨top, r, -, hr, -⟩ | ⟨hroot, -⟩
  · exact absurd hnil hr.length.1
  · exact hroot

theorem Consistent.grown (hm : Moved t.heap h' []) (hs : Sound H h') :
    Consistent H { t with heap := h' } := by
  obtain ⟨pos, hpos⟩ := hc.sound.placed
  refine ⟨hs, fun i p hp => ?_, ?_⟩
  · obtain ⟨hlt, hleaf⟩ := hc.leaf i p hp
    rw [(hm.same hlt).1, (hm.same hlt).2.1]
    exact ⟨lt_of_lt_of_le hlt hm.size, hleaf⟩
  · rcases hc.rows with ⟨top, r, hroot, hr, hfree⟩ | ⟨hroot, htip⟩
    · refine .inl ⟨top, r, hroot, hr.moved hm hpos (m := 0) nofun (.inl (le_refl top)), ?_⟩
      rw [hm.other r (hr.lt hpos) nofun]
      exact hfree
    · exact .inr ⟨hroot, fun x hx =>
        (htip x hx).moved hm hpos (hc.lt (mem_of_getLast? hx)).1 nofun⟩

theorem Consistent.push (v : Bytes) (i : Nat) :
    Consistent H { t with heap := t.heap.push (.newLeaf v i) } :=
  hc.grown (.push t.heap rfl) (hc.sound.push v i)

theorem Consistent.rehashed {ns : List Nat} (hr : Rehashed t.heap h' ns) (hs : Sound H h') :
    Consistent H { t with heap := h' } := by
  refine ⟨hs, fun i p hp => ?_, ?_⟩
  · rw [hr.size, (hr.same p).2.1, (hr.same p).2.2.1]
    exact hc.leaf i p hp
  · rcases hc.rows with ⟨top, r, hroot, hstands, hfree⟩ | ⟨hroot, htip⟩
    · exact .inl ⟨top, r, hroot, hstands.rehashed hr, (hr.same r).1.trans hfree⟩
    refine .inr ⟨hroot, fun x hx => ?_⟩
    obtain ⟨y, hway, hfree⟩ := htip x hx
    have hright : h'.right = t.heap.right := by
      funext q p
      rw [Heap.right, (hr.same q).1, (hr.same p).2.2.2]
      rfl
    exact ⟨y, hright ▸ hway, (hr.same y).1.trans hfree⟩

theorem Consistent.open {last : Nat} (hlast : t.leafs.getLast? = some last) :
    ∃ h' ns, Returns (fun fuel => t.heap.clearSingleParent fuel last) h' ∧ Tip h' last ∧
      Sound H h' ∧ Moved t.heap h' ns ∧ h'.size = t.heap.size := by
  rcases hc.rows with ⟨top, r, -, hr, hfree⟩ | ⟨-, htip⟩
  · exact hr.clear hfree hc.sound hlast
  · obtain ⟨y, hway, hfree⟩ := htip last hlast
    exact ⟨t.heap, [], Heap.clearSingleParent_way hway (Heap.clearSingleParent_free hfree),
      ⟨y, hway, hfree⟩, hc.sound, .refl _ _, rfl⟩

end

theorem Consistent.root (hc : Consistent H t) (hne : t.leafs ≠ []) :
    ∃ r top t', Returns (fun fuel => t.root fuel) (r, t') ∧ Stands t'.heap top 0 r t'.leafs ∧
      Consistent H t' ∧ t'.leafs = t.leafs ∧
      ∀ p ∈ t.leafs, (t'.heap.node p).hash = (t.heap.node p).hash := by
  rcases id hc.rows with ⟨top, r, hroot, hr, hfree⟩ | ⟨hroot, htip⟩
  · refine ⟨r, top, t, .of_forall fun fuel => ?_, hr, hc, rfl, fun _ _ => rfl⟩
    rw [Tree.root, hroot]
  have hrow : Row t.heap 0 0 t.leafs t.leafs :=
    .leaves hne (fun j p hp => by rw [Nat.zero_add]; exact hc.leaf j p hp) htip
  obtain ⟨r, top, h', ns, hret, hr, hfree, hs, hm⟩ := hrow.refresh hc.sound
  refine ⟨r, top, { t with heap := h', rootNode := some r }, ?_, hr,
    ⟨hs, fun i p hp => ?_, .inl ⟨top, r, rfl, hr, hfree⟩⟩, rfl,
    fun p hp => (hm.same (hc.lt hp).1).2.2.2⟩
  · refine hret.map (fun r => (r.1, { t with heap := r.2, rootNode := some r.1 })) fun fuel => ?_
    rw [Tree.root, hroot]
  · obtain ⟨hlt, hleaf⟩ := hc.leaf i p hp
    rw [(hm.same hlt).1, (hm.same hlt).2.1]
    exact ⟨Nat.lt_of_lt_of_le hlt hm.size, hleaf⟩

theorem Consistent.rootHash (hc : Consistent H t) (hl : Lists H t cs) (hne : cs ≠ []) :
    ∃ v t', Returns (fun fuel => t.rootHash H fuel) (v, t') ∧ rebuiltRoot H cs = some v ∧
      Consistent H t' ∧ Lists H t' cs := by
  obtain ⟨r, top, t₁, hroot, hr, hc₁, hleafs, hhash⟩ := hc.root (mt hl.nil_iff.mp hne)
  have hl₁ : Lists H t₁ cs := hl.congr hleafs hhash
  obtain ⟨v, h', hret, hv, hrehash, hs⟩ := hr.hash hc₁.sound
  refine ⟨v, { t₁ with heap := h' }, ?_, ?_, hc₁.rehashed hrehash hs,
    hl₁.congr rfl fun p hp => hrehash.leaf p (hc₁.lt hp).2 nofun⟩
  · exact (hroot.bind (g := fun fuel r => r.2.heap.hash H fuel r.1 >>= fun a =>
      .ok (a.1, { r.2 with heap := a.2 }))
      (hret.map (fun a => (a.1, { t₁ with heap := a.2 })) fun _ => rfl)).congr fun _ => rfl
  · rw [rebuiltRoot, ← hl₁]
    exact hv

theorem Consistent.refines (hc : Consistent H t) (hl : Lists H t cs) : Refines H t cs := by
  refine ⟨hl, List.ext_getElem? fun i => ?_, hl.length, fun hne => ?_⟩
  · rw [List.getElem?_map, ← hl.length]
    cases hi : t.leafs[i]? with
    | none =>
      rw [List.getElem?_eq_none_iff] at hi
      exact (List.getElem?_eq_none (by rwa [List.length_range])).symm
    | some p =>
      rw [List.getElem?_range (List.getElem?_eq_some_iff.mp hi).1, Option.map_some, NodeBranch.index,
        (hc.leaf i p hi).2.1]
      rfl
  · obtain ⟨v, t', hret, hv, -⟩ := hc.rootHash hl hne
    exact ⟨v, t', hret, hv⟩

/-! ## Update -/

theorem Consistent.first (hs : Sound H h) (v : Bytes) :
    Consistent H ⟨h.push (.newLeaf v 0), none, [h.size]⟩ := by
  have hnode : (h.push (.newLeaf v 0)).node h.size = .newLeaf v 0 := by rw [h.push_node, if_pos rfl]
  refine ⟨hs.push v 0, fun i p hp => ?_, .inr ⟨rfl, fun x hx => .of_free ?_⟩⟩
  · obtain ⟨rfl, rfl⟩ : i = 0 ∧ p = h.size := by
      cases i with
      | zero => exact ⟨rfl, (Option.some.inj hp).symm⟩
      | succ i => cases hp
    refine ⟨lt_succ_self _, ?_⟩
    rw [hnode]
    exact ⟨rfl, rfl⟩
  · obtain rfl : h.size = x := Option.some.inj hx
    exact congrArg _ hnode

theorem Lists.first (c : κ) :
    Lists H ⟨h.push (.newLeaf (Content.hash H c) 0), none, [h.size]⟩ [c] := by
  rw [Lists, map_singleton, h.push_node, if_pos rfl]
  rfl

theorem Consistent.findLeafOrder (hc : Consistent H t) (c : κ) :
    Tree.findLeafOrder t.heap t.leafs (t.newLeaf H c) = (none, t.leafCount) := by
  have hnone : t.leafs.findIdx?
      (fun p => (t.heap.node p).cmp (t.newLeaf H c) == .eq) = none := by
    refine List.findIdx?_eq_none_iff.mpr fun p hp => ?_
    obtain ⟨i, hi⟩ := List.mem_iff_getElem?.mp hp
    have hcmp : (t.heap.node p).cmp (t.newLeaf H c) = .lt := by
      unfold NodeBranch.cmp Tree.newLeaf NodeBranch.newLeaf
      rw [(hc.leaf i p hi).2.1]
      exact Nat.compare_eq_lt.mpr (List.getElem?_eq_some_iff.mp hi).1
    rw [hcmp]
    rfl
  rw [Tree.findLeafOrder, hnone]
  rfl

theorem Tree.update_of_not_found {c : κ} {last : Nat} (hlast : t.leafs.getLast? = some last)
    (hfind : t.find H findFunc c = .ok (none, t.leafCount)) : t.update H fuel findFunc c =
      ((t.heap.push (t.newLeaf H c)).clearSingleParent fuel last >>= fun heap =>
        .ok (none, ⟨heap, none, t.leafs ++ [t.heap.size]⟩)) := by
  have hne : t.leafs ≠ [] := by
    intro hnil
    rw [hnil] at hlast
    cases hlast
  have hpos := length_pos_of_ne_nil hne
  have hcount : t.leafCount = (t.leafs.length - 1) + 1 := by
    unfold leafCount
    omega
  rw [getLast?_eq_getElem?] at hlast
  rw [update, if_neg hne, hfind, hcount]
  dsimp only
  rw [hlast, ← hcount, leafCount, take_length, drop_length]
  rfl

theorem Consistent.insertLast (hc : Consistent H t) (hl : Lists H t cs) (hne : cs ≠ []) (c : κ)
    (hfind : t.find H findFunc c = .ok (none, t.leafCount)) :
    ∃ t', Returns (fun fuel => Prod.snd <$> t.update H fuel findFunc c) t' ∧ Consistent H t' ∧
      Lists H t' (cs ++ [c]) := by
  have hlast := getLast?_eq_some_getLast (mt hl.nil_iff.mp hne)
  have hpushed : Consistent H { t with heap := t.heap.push (t.newLeaf H c) } := hc.push _ _
  obtain ⟨h', ns, hret, -, hs, hm, hsize⟩ := hpushed.open hlast
  have hnode : (t.heap.push (t.newLeaf H c)).node t.heap.size = t.newLeaf H c := by
    rw [t.heap.push_node, if_pos rfl]
  have hnew := hm.same (Nat.lt_succ_self t.heap.size)
  rw [hnode] at hnew
  refine ⟨⟨h', none, t.leafs ++ [t.heap.size]⟩, ?_, ⟨hs, fun i p hp => ?_, .inr ⟨rfl, fun x hx => ?_⟩⟩,
    ?_⟩
  · refine hret.map (fun heap => Tree.mk heap none (t.leafs ++ [t.heap.size])) fun fuel => ?_
    rw [Tree.update_of_not_found hlast hfind, map_bind]
    rfl
  · rcases Nat.lt_or_ge i t.leafs.length with hi | hi
    · obtain ⟨hlt, hleaf⟩ := hpushed.leaf i p (by rwa [getElem?_append_left hi] at hp)
      rw [(hm.same hlt).1, (hm.same hlt).2.1, hsize]
      exact ⟨hlt, hleaf⟩
    · rw [getElem?_append_right hi, getElem?_singleton] at hp
      split at hp
      · cases hp
        rw [hnew.1, hnew.2.1, hsize]
        exact ⟨Nat.lt_succ_self _, congrArg some (by change t.leafs.length = i; omega), rfl⟩
      · cases hp
  · obtain ⟨pos, hpos⟩ := hs.placed
    obtain rfl : t.heap.size = x := by
      rw [getLast?_concat] at hx
      exact Option.some.inj hx
    refine .of_free (Option.eq_none_iff_forall_ne_some.mpr fun p hp => ?_)
    have hold := hm.links _ p hp (hsize ▸ (hpos.link _ p hp).2.1)
    rw [hnode] at hold
    cases hold
  · have hold : ∀ p ∈ t.leafs, (h'.node p).hash = (t.heap.node p).hash := fun p hp => by
      rw [(hm.same (hpushed.lt hp).1).2.2.2, t.heap.push_node, if_neg (Nat.ne_of_lt (hc.lt hp).1)]
    rw [Lists, map_append, map_append, ← hl, map_singleton, map_singleton,
      map_congr_left hold]
    exact congrArg (_ ++ [·]) hnew.2.2.2

theorem Consistent.replace (hc : Consistent H t) (hl : Lists H t cs) (c : κ) {i p : Nat}
    (hi : t.leafs[i]? = some p) (hfind : t.find H findFunc c = .ok (some p, i)) :
    ∃ t', Returns (fun fuel => Prod.snd <$> t.update H fuel findFunc c) t' ∧ Consistent H t' ∧
      Lists H t' (cs.set i c) := by
  have hp : p ∈ t.leafs := List.mem_of_getElem? hi
  have hpushed : Consistent H { t with heap := t.heap.push (t.newLeaf H c) } := hc.push _ _
  obtain ⟨h', hret, hr, hhash, hs⟩ := hpushed.sound.update (hpushed.lt hp).2 (Content.hash H c)
  refine ⟨{ t with heap := h' }, ?_, hpushed.rehashed hr hs, ?_⟩
  · refine hret.map (fun heap => { t with heap := heap }) fun fuel => ?_
    rw [update, if_neg (List.ne_nil_of_mem hp), hfind, map_bind]
    rfl
  · rw [Lists, List.map_set, ← hl]
    refine List.ext_getElem? fun j => ?_
    rw [List.getElem?_map, List.getElem?_set, List.getElem?_map, List.length_map]
    by_cases hij : i = j
    · subst hij
      rw [if_pos rfl, if_pos (List.getElem?_eq_some_iff.mp hi).1, hi]
      exact congrArg some hhash
    · rw [if_neg hij]
      cases hj : t.leafs[j]? with
      | none => rfl
      | some q =>
        have hq : q ∈ t.leafs := List.mem_of_getElem? hj
        have hne : q ∉ [p] := by
          intro hmem
          rw [List.mem_singleton.mp hmem] at hj
          exact hij (Option.some.inj ((hc.leaf i p hi).2.1.symm.trans (hc.leaf j p hj).2.1))
        refine congrArg some ((hr.leaf q (hpushed.lt hq).2 hne).trans ?_)
        rw [t.heap.push_node, if_neg (Nat.ne_of_lt (hc.lt hq).1)]

theorem Consistent.updateFirst (hc : Consistent H t) (hnil : t.leafs = []) (c : κ)
    (findFunc : Option (κ → Int)) :
    ∃ t', Returns (fun fuel => Prod.snd <$> t.update H fuel findFunc c) t' ∧ Consistent H t' ∧
      Lists H t' [c] := by
  refine ⟨_, .of_forall fun fuel => ?_, .first hc.sound (Content.hash H c), .first c⟩
  rw [update, if_pos hnil, hc.rootNode_eq_none hnil]
  rfl

theorem Consistent.update (hc : Consistent H t) (hl : Lists H t cs)
    (findFunc : Option (κ → Int)) (c : κ) :
    ∃ t', Returns (fun fuel => (Op.update findFunc c).apply H fuel t) t' ∧ Consistent H t' ∧
      Lists H t' ((Op.update findFunc c).spec cs) := by
  by_cases hnil : cs = []
  · have hspec : (Op.update findFunc c).spec cs = [c] := by
      cases findFunc with
      | none => rw [Op.spec, hnil, nil_append]
      | some f => rw [Op.spec, if_pos (.inl hnil), hnil, nil_append]
    rw [hspec]
    exact hc.updateFirst (hl.nil_iff.mpr hnil) c findFunc
  · cases findFunc with
    | none =>
      refine hc.insertLast hl hnil c ?_
      rw [Tree.find, hc.findLeafOrder c]
    | some f =>
      by_cases hneg : f c < 0
      · rw [Op.spec, if_pos (.inr hneg)]
        refine hc.insertLast hl hnil c ?_
        rw [Tree.find, if_neg (Int.not_le.mpr hneg)]
      · rw [Op.spec, if_neg (not_or.mpr ⟨hnil, hneg⟩)]
        have hpos := Int.not_lt.mp hneg
        cases hat : t.leafs[(f c).toNat]? with
        | some p =>
          refine hc.replace hl c hat ?_
          rw [Tree.find, if_pos hpos, hat]
        | none =>
          -- the content has an index beyond the leaves: an error, and only a node is wasted
          have hlen := getElem?_eq_none_iff.mp hat
          rw [hl.length] at hlen
          rw [set_eq_of_length_le hlen]
          refine ⟨{ t with heap := t.heap.push (t.newLeaf H c) }, .of_forall fun fuel => ?_,
            hc.push _ _, hl.congr rfl fun p hp => ?_⟩
          · rw [Op.apply, Tree.update, if_neg (mt hl.nil_iff.mp hnil), Tree.find, if_pos hpos,
              hat]
            rfl
          · rw [t.heap.push_node, if_neg (Nat.ne_of_lt (hc.lt hp).1)]

theorem Tree.append_of_ne_nil {cont : List κ} (hne : t.leafs ≠ [])
    (happend : t.append H fuel cont = .ok t') : t'.leafs = t.leafs := by
  rw [append, getLast?_eq_some_getLast hne] at happend
  obtain ⟨heap, -, hok⟩ := bind_eq_ok_iff.mp happend
  cases hok
  rfl

theorem Heap.pushAll_nodes (ns : List NodeBranch) (h : Heap) :
    (∀ p < h.size, (h.pushAll ns).2.node p = h.node p) ∧
      (h.pushAll ns).1.map (h.pushAll ns).2.node = ns := by
  induction ns generalizing h with
  | nil => exact ⟨fun _ _ => rfl, rfl⟩
  | cons n ns ih =>
    obtain ⟨hold, hnew⟩ := ih (h.push n)
    refine ⟨fun p hp => ?_, ?_⟩
    · change ((h.push n).pushAll ns).2.node p = _
      rw [hold p (Nat.lt_succ_of_lt hp), h.push_node, if_neg (Nat.ne_of_lt hp)]
    · change (h.size :: ((h.push n).pushAll ns).1).map ((h.push n).pushAll ns).2.node = _
      rw [map_cons, hnew, hold h.size (Nat.lt_succ_self _), h.push_node, if_pos rfl]

theorem Consistent.appendNil (hc : Consistent H t) (hl : Lists H t cs) :
    ∃ t', Returns (fun fuel => t.append H fuel ([] : List κ)) t' ∧ Consistent H t' ∧
      Lists H t' cs := by
  cases hlast : t.leafs.getLast? with
  | none =>
    have hself : (⟨t.heap, t.rootNode, []⟩ : Tree) = t := by
      rw [← getLast?_eq_none_iff.mp hlast]
    refine ⟨t, .of_forall fun fuel => ?_, hc, hl⟩
    rw [append, hlast]
    exact congrArg _ hself
  | some last =>
    obtain ⟨h', ns, hret, htip, hs, hm, hsize⟩ := hc.open hlast
    refine ⟨{ t with heap := h', rootNode := none }, ?_, ⟨hs, fun i p hp => ?_, .inr ⟨rfl,
      fun x hx => ?_⟩⟩, hl.congr rfl fun p hp => (hm.same (hc.lt hp).1).2.2.2⟩
    · refine hret.map (fun heap => { t with heap := heap, rootNode := none }) fun fuel => ?_
      rw [append, hlast]
      rfl
    · obtain ⟨hlt, hleaf⟩ := hc.leaf i p hp
      rw [(hm.same hlt).1, (hm.same hlt).2.1, hsize]
      exact ⟨hlt, hleaf⟩
    · cases hlast.symm.trans hx
      exact htip

theorem Consistent.appendFirst (hc : Consistent H t) (hnil : t.leafs = []) (c : κ) :
    ∃ t', Returns (fun fuel => t.append H fuel [c]) t' ∧ Consistent H t' ∧ Lists H t' [c] := by
  refine ⟨_, .of_forall fun fuel => ?_, .first hc.sound (Content.hash H c), .first c⟩
  have hcount : t.leafCount = 0 := by
    rw [leafCount, hnil, length_nil]
  have hlast : t.leafs.getLast? = none := by
    rw [hnil, getLast?_nil]
  rw [append, hlast, map_singleton, newLeaf, hcount, hc.rootNode_eq_none hnil]
  rfl

/-! ## Whole runs -/

theorem Consistent.apply (hc : Consistent H t) (hl : Lists H t cs) {op : Op κ}
    (hfits : op.Fits cs) : ∃ t', Returns (fun fuel => op.apply H fuel t) t' ∧ Consistent H t' ∧
      Lists H t' (op.spec cs) := by
  cases op with
  | append cont =>
    rcases hfits with rfl | ⟨rfl, hlen⟩
    · rw [Op.spec, append_nil]
      exact hc.appendNil hl
    · obtain ⟨c, rfl⟩ := length_eq_one_iff.mp hlen
      exact hc.appendFirst (hl.nil_iff.mpr rfl) c
  | update findFunc c => exact hc.update hl findFunc c
  | root =>
    obtain ⟨r, top, t', hret, -, hc', hleafs, hhash⟩ := hc.root (mt hl.nil_iff.mp hfits)
    exact ⟨t', hret.map Prod.snd fun _ => rfl, hc', hl.congr hleafs hhash⟩
  | rootHash =>
    obtain ⟨v, t', hret, -, hc', hl'⟩ := hc.rootHash hl hfits
    exact ⟨t', hret.map Prod.snd fun _ => rfl, hc', hl'⟩

theorem Heap.refresh_nil (fuel : Nat) (h : Heap) : h.refresh fuel [] = .error .fuel := by
  induction fuel with
  | zero => rfl
  | succ fuel ih => exact ih

theorem Tree.append_of_nil {cont : List κ} (hnil : t.leafs = [])
    (happend : t.append H fuel cont = .ok t') :
    t'.leafs.map (fun p => (t'.heap.node p).index) = List.replicate cont.length 0 := by
  have hlast : t.leafs.getLast? = none := by
    rw [hnil, List.getLast?_nil]
  rw [append, hlast] at happend
  cases happend
  change ((t.heap.pushAll (cont.map (t.newLeaf H))).1.map
    (NodeBranch.index ∘ (t.heap.pushAll (cont.map (t.newLeaf H))).2.node)) = _
  rw [← List.map_map, (t.heap.pushAll_nodes _).2, List.map_map]
  refine List.eq_replicate_iff.mpr ⟨List.length_map _, fun i hi => ?_⟩
  obtain ⟨c, -, rfl⟩ := List.mem_map.mp hi
  change t.leafCount = 0
  rw [leafCount, hnil, List.length_nil]

theorem Lists.fits (hl : Lists H t cs) (hc : Consistent H t) {op : Op κ}
    (happly : op.apply H fuel t = .ok t') (hr : Refines H t' (op.spec cs)) : op.Fits cs := by
  have hroot : t.leafs = [] → t.root fuel = .error .fuel := by
    intro hnil
    rw [root, hc.rootNode_eq_none hnil, hnil, Heap.refresh_nil]
    rfl
  cases op with
  | append cont =>
    by_cases hnil : cs = []
    · subst hnil
      have hzero := append_of_nil (hl.nil_iff.mpr rfl) happly
      rw [hr.indices, Op.spec, nil_append] at hzero
      by_cases hlen : 1 < cont.length
      · have hone : (range cont.length)[1]? = some 1 := getElem?_range hlen
        rw [hzero, getElem?_replicate_of_lt hlen] at hone
        cases hone
      · rcases lt_or_eq_of_le (not_lt.mp hlen) with hlt | heq
        · exact .inl (length_eq_zero_iff.mp (by omega))
        · exact .inr ⟨rfl, heq⟩
    · have hleafs := append_of_ne_nil (mt hl.nil_iff.mp hnil) happly
      have hlen := hr.count
      rw [leafCount, hleafs, hl.length, Op.spec, length_append] at hlen
      exact .inl (length_eq_zero_iff.mp (by omega))
  | update findFunc c => trivial
  | root =>
    intro hnil
    rw [Op.apply, hroot (hl.nil_iff.mpr hnil)] at happly
    cases happly
  | rootHash =>
    intro hnil
    rw [Op.apply, rootHash, hroot (hl.nil_iff.mpr hnil)] at happly
    cases happly

theorem Follows.refines {ops : List (Op κ)} (hf : Follows H fuel t cs ops) : Refines H t cs := by
  cases ops with
  | nil => exact hf
  | cons op ops => exact hf.1

/-- From a consistent tree the contents are followed exactly if the calls fit. -/
theorem Consistent.follows_iff (hc : Consistent H t) (hl : Lists H t cs) (ops : List (Op κ)) :
    (∃ bound, ∀ fuel, bound ≤ fuel → Follows H fuel t cs ops) ↔ AllFit cs ops := by
  induction ops generalizing t cs with
  | nil => exact ⟨fun _ => trivial, fun _ => ⟨0, fun _ _ => hc.refines hl⟩⟩
  | cons op ops ih =>
    constructor
    · rintro ⟨bound, hf⟩
      obtain ⟨-, t', happly, hrest⟩ := hf bound (le_refl _)
      have hfits := hl.fits hc happly hrest.refines
      obtain ⟨t₁, ⟨bound₁, hret⟩, hc₁, hl₁⟩ := hc.apply hl hfits
      refine ⟨hfits, (ih hc₁ hl₁).mp ⟨max bound bound₁, fun fuel hle => ?_⟩⟩
      obtain ⟨-, t', happly, hrest⟩ := hf fuel (by omega)
      cases happly.symm.trans (hret fuel (by omega))
      exact hrest
    · rintro ⟨hfits, hall⟩
      obtain ⟨t₁, ⟨bound₁, hret⟩, hc₁, hl₁⟩ := hc.apply hl hfits
      obtain ⟨bound, hf⟩ := (ih hc₁ hl₁).mpr hall
      exact ⟨max bound bound₁, fun fuel hle =>
        ⟨hc.refines hl, t₁, hret fuel (by omega), hf fuel (by omega)⟩⟩

theorem Consistent.empty : Consistent H empty := by
  have hplaced : Placed Heap.empty fun _ => (0, 0) := ⟨nofun, nofun⟩
  refine ⟨⟨⟨_, hplaced⟩, fun hp => ?_⟩, nofun, .inr ⟨rfl, nofun⟩⟩
  exact absurd (hp.lt hplaced) (not_lt_zero _)

theorem Tree.rootHash_leafs {v : Bytes} (hhash : t.rootHash H fuel = .ok (v, t')) :
    t'.leafs = t.leafs := by
  obtain ⟨⟨r, t₁⟩, hroot, hrest⟩ := bind_eq_ok_iff.mp hhash
  obtain ⟨a, -, hok⟩ := bind_eq_ok_iff.mp hrest
  cases hok
  unfold root at hroot
  cases hnode : t.rootNode with
  | some r =>
    rw [hnode] at hroot
    cases hroot
    rfl
  | none =>
    rw [hnode] at hroot
    obtain ⟨a, -, hok⟩ := bind_eq_ok_iff.mp hroot
    cases hok
    rfl

theorem Tree.foldlM_append_leafs {nodes : List κ} (hne : t.leafs ≠ [])
    (hfold : nodes.foldlM (fun t c => append H fuel t [c]) t = .ok t') : t'.leafs = t.leafs := by
  induction nodes generalizing t with
  | nil =>
    cases hfold
    rfl
  | cons c nodes ih =>
    rw [foldlM_cons] at hfold
    obtain ⟨t₁, happend, hrest⟩ := bind_eq_ok_iff.mp hfold
    have hleafs := append_of_ne_nil hne happend
    rw [← hleafs] at hne ⊢
    exact ih hne hrest

theorem Tree.newTreeAppend_leafs {nodes : List κ} (hlen : 2 ≤ nodes.length)
    (hnew : newTreeAppend H fuel nodes = .ok t) : t.leafs.length = 1 := by
  obtain ⟨a, b, rest, rfl⟩ : ∃ a b rest, nodes = a :: b :: rest := by
    match nodes, hlen with
    | a :: b :: rest, _ => exact ⟨a, b, rest, rfl⟩
  obtain ⟨t₂, hfold, hrest⟩ := bind_eq_ok_iff.mp hnew
  obtain ⟨⟨v, t₃⟩, hhash, hok⟩ := bind_eq_ok_iff.mp hrest
  cases hok
  rw [foldlM_cons] at hfold
  obtain ⟨t₁, hfirst, hfold⟩ := bind_eq_ok_iff.mp hfold
  have hone : t₁.leafs.length = 1 := by
    cases hfirst
    rfl
  have hne : t₁.leafs ≠ [] := by
    intro hnil
    rw [hnil] at hone
    cases hone
  rw [rootHash_leafs hhash, foldlM_append_leafs hne hfold, hone]

theorem Tree.newTreeAppend_of_le_one (H : Bytes → Bytes) {nodes : List κ}
    (hlen : nodes.length ≤ 1) : ∃ t, (∀ fuel, newTreeAppend H fuel nodes = .ok t) ∧ Consistent H t ∧
      Lists H t nodes := by
  match nodes, hlen with
  | [], _ =>
    exact ⟨empty, fun _ => rfl, .empty, rfl⟩
  | [c], _ => exact ⟨_, fun _ => rfl, .first Consistent.empty.sound (Content.hash H c), .first c⟩

/-- The tree refines the rebuilt one in exactly the runs in which `Append` never has to bring a
second leaf. -/
theorem newTreeAppend_follows_iff (H : Bytes → Bytes) (nodes : List κ) (ops : List (Op κ)) :
    (∃ bound, ∀ fuel, bound ≤ fuel → ∃ t, newTreeAppend H fuel nodes = .ok t ∧
      Follows H fuel t nodes ops) ↔ nodes.length ≤ 1 ∧ AllFit nodes ops := by
  by_cases hlen : nodes.length ≤ 1
  · obtain ⟨t, hnew, hc, hl⟩ := newTreeAppend_of_le_one H hlen
    rw [and_iff_right hlen, ← hc.follows_iff hl]
    refine exists_congr fun bound => forall₂_congr fun fuel _ => ⟨?_, fun hf => ⟨t, hnew fuel, hf⟩⟩
    rintro ⟨t', hnew', hf⟩
    cases (hnew fuel).symm.trans hnew'
    exact hf
  · constructor
    · rintro ⟨bound, hall⟩
      obtain ⟨t, hnew, hf⟩ := hall bound (le_refl _)
      have hone := newTreeAppend_leafs (by omega) hnew
      have hcount := hf.refines.count
      rw [leafCount] at hcount
      omega
    · intro hfits
      exact absurd hfits.1 hlen

/-- The node knows one chain and learns of a second one, as `NewChainEvent` does. -/
theorem append_second_lost : ¬ ∃ bound, ∀ fuel, bound ≤ fuel → ∃ t, newTreeAppend fnv32 fuel
        [(⟨⟨1⟩, 7, 0⟩ : ChainStatus)] = .ok t ∧
      Follows fnv32 fuel t [(⟨⟨1⟩, 7, 0⟩ : ChainStatus)] [.append [⟨⟨2⟩, 0, 1⟩]] := by
  rintro ⟨bound, hall⟩
  obtain ⟨t, hnew, -, t', happly, hr⟩ := hall bound (le_refl _)
  cases hnew
  rw [Op.apply] at happly
  have hleafs := append_of_ne_nil (cons_ne_nil _ _) happly
  have hcount : t'.leafs.length = 2 := hr.count
  rw [hleafs] at hcount
  cases hcount

end Nerthus.Realtime
