import Nerthus.Lib.Fuel
import Nerthus.Lib.Pairing
import Nerthus.Realtime.Merkle

/-!
# Rows of nodes

A tree stands in rows, each of which holds the parents of the row below. Nodes no longer used
stay in the heap, and some still point into the tree, so what is said of a node is said of those
that their whole subtree knows as its top.
-/

namespace Nerthus.Realtime

open Lib Relation Nat Function List

/-- The `i`-th node of row `k`, whose subtree has the leaves `ls`; only its right edge is not
full. -/
inductive Stands (h : Heap) : (k i p : Nat) → List Nat → Prop
  | leaf {i p : Nat} (hlt : p < h.size) (hleaf : (h.node p).leaf = some i)
      (hleft : (h.node p).childLeft = none) : Stands h 0 i p [p]
  | one {k i p a : Nat} {ls : List Nat} (ha : Stands h k (2 * i) a ls)
      (hleft : (h.node p).childLeft = some a) (hright : (h.node p).childRight = none)
      (hup : (h.node a).parent = some p) : Stands h (k + 1) i p ls
  | two {k i p a b : Nat} {ls ls' : List Nat} (ha : Stands h k (2 * i) a ls)
      (hb : Stands h k (2 * i + 1) b ls') (hfull : ls.length = 2 ^ k)
      (hleft : (h.node p).childLeft = some a) (hright : (h.node p).childRight = some b)
      (hup : (h.node a).parent = some p) (hup' : (h.node b).parent = some p) :
      Stands h (k + 1) i p (ls ++ ls')

/-- A parent is above its children, the even one on the left. -/
structure Placed (h : Heap) (pos : Nat → Nat × Nat) : Prop where
  leaf : ∀ p < h.size, ∀ i, (h.node p).leaf = some i → pos p = (0, i)
  link : ∀ q p, (h.node q).parent = some p → q < p ∧ p < h.size ∧ (h.node p).leaf = none ∧
    pos p = ((pos q).1 + 1, (pos q).2 / 2) ∧
    if (pos q).2 % 2 = 0 then (h.node p).childLeft = some q ∧ (h.node p).childRight ≠ some q
    else (h.node p).childRight = some q

def rootOf (H : Bytes → Bytes) (h : Heap) (ls : List Nat) : Option Bytes :=
  build (fun a b => H (a ++ b)) id (ls.map fun p => (h.node p).hash)

/-- A hash that a node keeps is the one of its leaves. -/
structure Sound (H : Bytes → Bytes) (h : Heap) : Prop where
  placed : ∃ pos, Placed h pos
  cache : ∀ {k i p ls}, Stands h (k + 1) i p ls →
    (h.node p).hash = [] ∨ rootOf H h ls = some (h.node p).hash

variable {H : Bytes → Bytes} {h h' : Heap} {pos : Nat → Nat × Nat} {k i p : Nat} {ls : List Nat}

theorem Stands.pos_eq (hp : Stands h k i p ls) (hpos : Placed h pos) : pos p = (k, i) := by
  induction hp with
  | leaf hlt hleaf hleft => exact hpos.leaf _ hlt _ hleaf
  | @one k i p a ls ha hleft hright hup ih =>
    rw [(hpos.link _ _ hup).2.2.2.1, ih, Nat.mul_div_cancel_left i Nat.two_pos]
  | @two k i p a b ls ls' ha hb hfull hleft hright hup hup' iha ihb =>
    rw [(hpos.link _ _ hup).2.2.2.1, iha, Nat.mul_div_cancel_left i Nat.two_pos]

theorem Stands.lt (hp : Stands h k i p ls) (hpos : Placed h pos) : p < h.size := by
  cases hp with
  | leaf hlt hleaf hleft => exact hlt
  | one ha hleft hright hup => exact (hpos.link _ _ hup).2.1
  | two ha hb hfull hleft hright hup hup' => exact (hpos.link _ _ hup).2.1

theorem Stands.leaf_eq_none (hp : Stands h (k + 1) i p ls) (hpos : Placed h pos) :
    (h.node p).leaf = none := by
  cases hp with
  | one ha hleft hright hup => exact (hpos.link _ _ hup).2.2.1
  | two ha hb hfull hleft hright hup hup' => exact (hpos.link _ _ hup).2.2.1

theorem Stands.leaves (hp : Stands h k i p ls) :
    ∀ q ∈ ls, q < h.size ∧ (h.node q).leaf.isSome = true := by
  induction hp with
  | leaf hlt hleaf hleft =>
    intro q hq
    rw [mem_singleton.mp hq, hleaf]
    exact ⟨hlt, rfl⟩
  | one ha hleft hright hup ih => exact ih
  | two ha hb hfull hleft hright hup hup' iha ihb => exact forall_mem_append.mpr ⟨iha, ihb⟩

theorem Stands.length (hp : Stands h k i p ls) : ls ≠ [] ∧ ls.length ≤ 2 ^ k := by
  induction hp with
  | leaf hlt hleaf hleft => exact ⟨cons_ne_nil _ _, Nat.le_refl 1⟩
  | one ha hleft hright hup ih => exact ⟨ih.1, by rw [Nat.pow_succ]; omega⟩
  | two ha hb hfull hleft hright hup hup' iha ihb =>
    refine ⟨append_ne_nil_of_left_ne_nil iha.1 _, ?_⟩
    rw [length_append, Nat.pow_succ]
    omega

theorem Stands.unique {k' i' : Nat} {ls' : List Nat} (hp : Stands h k i p ls)
    (hp' : Stands h k' i' p ls') (hpos : Placed h pos) : ls = ls' := by
  obtain ⟨rfl, rfl⟩ : k = k' ∧ i = i' := Prod.mk.inj ((hp.pos_eq hpos).symm.trans (hp'.pos_eq hpos))
  induction hp generalizing ls' with
  | leaf hlt hleaf hleft =>
    cases hp'
    rfl
  | one ha hleft hright hup ih =>
    cases hp' with
    | one ha' hleft' hright' hup' =>
      cases hleft.symm.trans hleft'
      exact ih ha'
    | two ha' hb' hfull hleft' hright' hup' => cases hright.symm.trans hright'
  | two ha hb hfull hleft hright hup hup' iha ihb =>
    cases hp' with
    | one ha' hleft' hright' hup' => cases hright.symm.trans hright'
    | two ha' hb' hfull hleft' hright' hup' =>
      cases hleft.symm.trans hleft'
      cases hright.symm.trans hright'
      rw [iha ha', ihb hb']

theorem rootOf_congr (hhash : ∀ q ∈ ls, (h'.node q).hash = (h.node q).hash) :
    rootOf H h' ls = rootOf H h ls :=
  congrArg _ (map_congr_left hhash)

/-! ## Parents that change -/

/-- New nodes, and new parents for the nodes of a list. -/
structure Moved (h h' : Heap) (ns : List Nat) : Prop where
  size : h.size ≤ h'.size
  node : ∀ q < h.size, ∃ parent, h'.node q = { h.node q with parent := parent }
  other : ∀ q < h.size, q ∉ ns → h'.node q = h.node q
  links : ∀ q p, (h'.node q).parent = some p → p < h.size → (h.node q).parent = some p

theorem Moved.refl (h : Heap) (ns : List Nat) : Moved h h ns :=
  ⟨le_refl _, fun _ _ => ⟨_, rfl⟩, fun _ _ _ => rfl, fun _ _ hqp _ => hqp⟩

theorem Moved.trans {h₁ h₂ h₃ : Heap} {ns ms : List Nat} (h₁₂ : Moved h₁ h₂ ns)
    (h₂₃ : Moved h₂ h₃ ms) : Moved h₁ h₃ (ns ++ ms) := by
  refine ⟨le_trans h₁₂.size h₂₃.size, fun q hq => ?_, fun q hq hnot => ?_, fun q p hqp hp => ?_⟩
  · obtain ⟨x, hx⟩ := h₁₂.node q hq
    obtain ⟨y, hy⟩ := h₂₃.node q (lt_of_lt_of_le hq h₁₂.size)
    exact ⟨y, by rw [hy, hx]⟩
  · rw [mem_append, not_or] at hnot
    rw [h₂₃.other q (lt_of_lt_of_le hq h₁₂.size) hnot.2, h₁₂.other q hq hnot.1]
  · exact h₁₂.links q p (h₂₃.links q p hqp (lt_of_lt_of_le hp h₁₂.size)) hp

section Moved

variable {ns : List Nat} (hm : Moved h h' ns) (hpos : Placed h pos)

include hm

theorem Moved.same (hp : p < h.size) : (h'.node p).leaf = (h.node p).leaf ∧
    (h'.node p).childLeft = (h.node p).childLeft ∧
    (h'.node p).childRight = (h.node p).childRight ∧ (h'.node p).hash = (h.node p).hash := by
  obtain ⟨parent, hnode⟩ := hm.node p hp
  rw [hnode]
  exact ⟨rfl, rfl, rfl, rfl⟩

include hpos

theorem Stands.back (hp : Stands h' k i p ls) (hlt : p < h.size) : Stands h k i p ls := by
  induction hp with
  | leaf hlt' hleaf hleft => exact .leaf hlt ((hm.same hlt).1 ▸ hleaf) ((hm.same hlt).2.1 ▸ hleft)
  | one ha hleft hright hup ih =>
    have hup := hm.links _ _ hup hlt
    have ha := ih (lt_trans (hpos.link _ _ hup).1 hlt)
    exact .one ha ((hm.same hlt).2.1 ▸ hleft) ((hm.same hlt).2.2.1 ▸ hright) hup
  | two ha hb hfull hleft hright hup hup' iha ihb =>
    have hup := hm.links _ _ hup hlt
    have hup' := hm.links _ _ hup' hlt
    have ha := iha (lt_trans (hpos.link _ _ hup).1 hlt)
    have hb := ihb (lt_trans (hpos.link _ _ hup').1 hlt)
    exact .two ha hb hfull ((hm.same hlt).2.1 ▸ hleft) ((hm.same hlt).2.2.1 ▸ hright) hup hup'

theorem Stands.moved {r m : Nat} (hp : Stands h k i p ls)
    (hns : ∀ q ∈ ns, (pos q).1 = r ∧ m ≤ (pos q).2) (hlow : k ≤ r ∨ k = r + 1 ∧ 2 * i + 1 < m) :
    Stands h' k i p ls := by
  have hparent : ∀ {k i p ls}, Stands h k i p ls → (k < r ∨ k = r ∧ i < m) →
      (h'.node p).parent = (h.node p).parent := by
    intro k i p ls hp hlow
    refine congrArg _ (hm.other p (hp.lt hpos) fun hmem => ?_)
    have hplace := hns p hmem
    rw [hp.pos_eq hpos] at hplace
    omega
  induction hp with
  | leaf hlt hleaf hleft =>
    exact .leaf (lt_of_lt_of_le hlt hm.size) ((hm.same hlt).1 ▸ hleaf) ((hm.same hlt).2.1 ▸ hleft)
  | one ha hleft hright hup ih =>
    have hlt := (hpos.link _ _ hup).2.1
    exact .one (ih (by omega)) ((hm.same hlt).2.1 ▸ hleft) ((hm.same hlt).2.2.1 ▸ hright)
      ((hparent ha (by omega)).trans hup)
  | two ha hb hfull hleft hright hup hup' iha ihb =>
    have hlt := (hpos.link _ _ hup).2.1
    exact .two (iha (by omega)) (ihb (by omega)) hfull ((hm.same hlt).2.1 ▸ hleft)
      ((hm.same hlt).2.2.1 ▸ hright) ((hparent ha (by omega)).trans hup)
      ((hparent hb (by omega)).trans hup')

theorem Placed.moved {pos' : Nat → Nat × Nat} (hsame : ∀ q < h.size, pos' q = pos q)
    (hleaf : ∀ p < h'.size, h.size ≤ p → ∀ i, (h'.node p).leaf = some i → pos' p = (0, i))
    (hnew : ∀ q p, (h'.node q).parent = some p → h.size ≤ p → q < h.size ∧ p < h'.size ∧
      (h'.node p).leaf = none ∧ pos' p = ((pos q).1 + 1, (pos q).2 / 2) ∧
      if (pos q).2 % 2 = 0 then (h'.node p).childLeft = some q ∧ (h'.node p).childRight ≠ some q
      else (h'.node p).childRight = some q) : Placed h' pos' := by
  refine ⟨fun p hp i hi => ?_, fun q p hqp => ?_⟩
  · by_cases hold : p < h.size
    · rw [hsame p hold]
      exact hpos.leaf p hold i ((hm.same hold).1 ▸ hi)
    · exact hleaf p hp (not_lt.mp hold) i hi
  · by_cases hold : p < h.size
    · obtain ⟨hlt, -, hlink⟩ := hpos.link q p (hm.links q p hqp hold)
      have hq := lt_trans hlt hold
      rw [hsame p hold, hsame q hq, (hm.same hold).1, (hm.same hold).2.1, (hm.same hold).2.2.1]
      exact ⟨hlt, lt_of_lt_of_le hold hm.size, hlink⟩
    · obtain ⟨hq, hp, hlink⟩ := hnew q p hqp (not_lt.mp hold)
      rw [hsame q hq]
      exact ⟨by omega, hp, hlink⟩

omit hpos in
theorem Sound.moved (hs : Sound H h) (pos' : Nat → Nat × Nat) (hpos' : Placed h' pos')
    (hnew : ∀ p, h.size ≤ p → p < h'.size → (h'.node p).leaf = none → (h'.node p).hash = []) :
    Sound H h' := by
  obtain ⟨pos, hpos⟩ := hs.placed
  refine ⟨⟨pos', hpos'⟩, fun {k i p ls} hp => ?_⟩
  by_cases hold : p < h.size
  · have hback := hp.back hm hpos hold
    rw [(hm.same hold).2.2.2, rootOf_congr fun q hq => (hm.same (hback.leaves q hq).1).2.2.2]
    exact hs.cache hback
  · exact Or.inl (hnew p (not_lt.mp hold) (hp.lt hpos') (hp.leaf_eq_none hpos'))

end Moved

namespace Heap

theorem assignParent_node (h : Heap) (p q : Nat) (node : Option Nat) :
    (h.assignParent p node).node q =
      if q = p then { h.node q with parent := node } else h.node q := by
  by_cases hqp : q = p
  · subst hqp
    rw [if_pos rfl]
    exact update_self _ _ _
  · rw [if_neg hqp]
    exact update_of_ne hqp _ _

theorem push_node (h : Heap) (n : NodeBranch) (q : Nat) :
    (h.push n).node q = if q = h.size then n else h.node q :=
  update_apply _ _ _ _

theorem newParent_node {a : Nat} {b : Option Nat} (ha : a < h.size) (hb : ∀ x ∈ b, x < h.size)
    (q : Nat) : (h.newParent a b).node q = if q = h.size then .newNode a b
      else if q = a ∨ q ∈ b then { h.node q with parent := some h.size } else h.node q := by
  cases b with
  | none =>
    change ((h.push _).assignParent a _).node q = _
    rw [assignParent_node, push_node]
    grind
  | some x =>
    have hx := hb x rfl
    change (((h.push _).assignParent a _).assignParent x _).node q = _
    rw [assignParent_node, assignParent_node, push_node]
    grind

theorem newParent_size (h : Heap) (a : Nat) (b : Option Nat) :
    (h.newParent a b).size = h.size + 1 := by
  cases b <;> rfl

end Heap

theorem Moved.push (h : Heap) {n : NodeBranch} (hn : n.parent = none) : Moved h (h.push n) [] := by
  have hnode : ∀ q < h.size, (h.push n).node q = h.node q := fun q hq => by
    rw [h.push_node, if_neg (Nat.ne_of_lt hq)]
  refine ⟨Nat.le_succ _, fun q hq => ⟨_, hnode q hq⟩, fun q hq _ => hnode q hq, fun q p hqp _ => ?_⟩
  rw [h.push_node] at hqp
  split at hqp
  · cases hn.symm.trans hqp
  · exact hqp

theorem Moved.assignParent (h : Heap) (y : Nat) : Moved h (h.assignParent y none) [y] := by
  refine ⟨le_refl _, fun q _ => ?_, fun q _ hq => ?_, fun q p hqp _ => ?_⟩
  · rw [h.assignParent_node]
    split
    · exact ⟨_, rfl⟩
    · exact ⟨_, rfl⟩
  · rw [h.assignParent_node, if_neg fun hqy => hq (mem_singleton.mpr hqy)]
  · rw [h.assignParent_node] at hqp
    split at hqp
    · cases hqp
    · exact hqp

theorem Moved.newParent {a : Nat} {b : Option Nat} (ha : a < h.size) (hb : ∀ x ∈ b, x < h.size) :
    Moved h (h.newParent a b) (a :: b.toList) := by
  refine ⟨?_, fun q hq => ?_, fun q hq hnot => ?_, fun q p hqp hp => ?_⟩
  · rw [Heap.newParent_size]
    exact Nat.le_succ _
  · rw [Heap.newParent_node ha hb, if_neg (Nat.ne_of_lt hq)]
    split
    · exact ⟨_, rfl⟩
    · exact ⟨_, rfl⟩
  · rw [mem_cons, Option.mem_toList] at hnot
    rw [Heap.newParent_node ha hb, if_neg (Nat.ne_of_lt hq)]
    exact if_neg hnot
  · rw [Heap.newParent_node ha hb] at hqp
    split at hqp
    · cases hqp
    split at hqp
    · cases hqp
      exact absurd hp (Nat.lt_irrefl _)
    · exact hqp

theorem Sound.push (hs : Sound H h) (v : Bytes) (i : Nat) : Sound H (h.push (.newLeaf v i)) := by
  obtain ⟨pos, hpos⟩ := hs.placed
  have hm : Moved h (h.push (.newLeaf v i)) [] := .push h rfl
  have hnew : ∀ p, h.size ≤ p → p < h.size + 1 → (h.push (.newLeaf v i)).node p = .newLeaf v i :=
    fun p hle hlt => by rw [h.push_node, if_pos (by omega)]
  refine hs.moved hm (update pos h.size (0, i)) (hpos.moved hm ?_ ?_ ?_) ?_
  · exact fun q hq => update_of_ne (Nat.ne_of_lt hq) _ _
  · intro p hlt hle j hj
    rw [hnew p hle hlt] at hj
    cases hj
    rw [show p = h.size from Nat.le_antisymm (Nat.le_of_lt_succ hlt) hle]
    exact update_self _ _ _
  · intro q p hqp hle
    rw [h.push_node] at hqp
    split at hqp
    · cases hqp
    · exact absurd hle (Nat.not_le.mpr (hpos.link q p hqp).2.1)
  · intro p hle hlt hleaf
    rw [hnew p hle hlt] at hleaf
    cases hleaf

theorem Sound.cut (hs : Sound H h) (y : Nat) : Sound H (h.assignParent y none) := by
  obtain ⟨pos, hpos⟩ := hs.placed
  have hm := Moved.assignParent h y
  refine hs.moved hm pos (hpos.moved hm (fun _ _ => rfl) ?_ ?_) ?_
  · exact fun p hlt hle => absurd hle (not_le.mpr hlt)
  · intro q p hqp hle
    rw [h.assignParent_node] at hqp
    split at hqp
    · cases hqp
    · exact absurd hle (not_le.mpr (hpos.link q p hqp).2.1)
  · exact fun p hle hlt => absurd hle (not_le.mpr hlt)

end Nerthus.Realtime
