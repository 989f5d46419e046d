import Nerthus.Bysolt.Comparison

/-!
# Where a comparison goes

The places of the two trees that a comparison visits, the order of their paths, and
where the comparison ends.
-/

namespace Nerthus.Bysolt

open Realtime (Bytes)
open List

def RightOf : (e p : Bytes) → Prop
  | v :: e, x :: p => x < v ∨ x = v ∧ RightOf e p
  | _, _ => False

def UpTo (e p : Bytes) : Prop := 0 ≤ cmpWithEndPath p e

theorem cmpWithEndPath_neg (p q : Bytes) : cmpWithEndPath q p = -cmpWithEndPath p q := by
  induction p generalizing q with
  | nil => cases q <;> rfl
  | cons x p ih =>
    cases q with
    | nil => rfl
    | cons y q =>
      simp only [cmpWithEndPath]
      rcases Std.lt_trichotomy x y with h | rfl | h
      · simp [h, UInt8.lt_asymm h]
      · simp [ih]
      · simp [h, UInt8.lt_asymm h]

@[simp] theorem UpTo.refl (p : Bytes) : UpTo p p := by
  have h := cmpWithEndPath_neg p p
  unfold UpTo
  omega

theorem UpTo.nil (e : Bytes) : UpTo e [] := by
  cases e with
  | nil => exact UpTo.refl []
  | cons v e => exact Int.one_nonneg

variable {e p : Bytes} {v w : Visit}

theorem UpTo.append (p : Bytes) {q : Bytes} (h : UpTo e q) : UpTo (p ++ e) (p ++ q) := by
  induction p with
  | nil => exact h
  | cons x p ih =>
    unfold UpTo at ih ⊢
    simpa [cmpWithEndPath] using ih

theorem RightOf.cmp_neg (h : RightOf e p) : cmpWithEndPath e p < 0 := by
  fun_induction RightOf e p with
  | case1 v e x p ih =>
    rcases h with h | ⟨rfl, h⟩
    · simp [cmpWithEndPath, h]
    · simpa [cmpWithEndPath] using ih h
  | case2 => cases h

theorem RightOf.upTo (h : RightOf e p) : UpTo e p := by
  have hneg := h.cmp_neg
  have hswap := cmpWithEndPath_neg e p
  unfold UpTo
  omega

theorem RightOf.append_right (h : RightOf e p) (q : Bytes) : RightOf e (p ++ q) := by
  fun_induction RightOf e p with
  | case1 v e x p ih => exact h.imp_right (And.imp_right ih)
  | case2 => cases h

theorem RightOf.mono {e' : Bytes} (h : RightOf e p) (hle : UpTo e' e) : RightOf e' p := by
  fun_induction RightOf e p generalizing e' with
  | case1 v e x p ih =>
    cases e' with
    | nil => simp [UpTo, cmpWithEndPath] at hle
    | cons w e' =>
      unfold UpTo at hle
      simp only [cmpWithEndPath] at hle
      rcases Std.lt_trichotomy v w with hvw | rfl | hvw
      · rcases h with h | ⟨rfl, -⟩
        · exact .inl (UInt8.lt_trans h hvw)
        · exact .inl hvw
      · rw [if_neg (UInt8.lt_irrefl v), if_neg (UInt8.lt_irrefl v)] at hle
        exact h.imp_right (And.imp_right fun h => ih h hle)
      · rw [if_pos hvw] at hle
        exact absurd hle (by decide)
  | case2 => cases h

theorem rightOf_one_zero (p q : Bytes) : RightOf (p ++ 1 :: q) (p ++ [0]) := by
  induction p with
  | nil => exact .inl (by decide)
  | cons x p ih => exact .inr ⟨rfl, ih⟩

namespace TreeCmptor

theorem upTo_maxPath_left (e p : Bytes) : UpTo (maxPath e p) e := by
  unfold maxPath
  split_ifs with h
  · exact le_of_lt h
  · exact UpTo.refl e

theorem upTo_maxPath_right (e p : Bytes) : UpTo (maxPath e p) p := by
  unfold maxPath
  split_ifs with h
  · exact UpTo.refl p
  · have hswap := cmpWithEndPath_neg e p
    unfold UpTo
    omega

theorem maxPath_upTo {q : Bytes} (he : UpTo q e) (hp : UpTo q p) : UpTo q (maxPath e p) := by
  unfold maxPath
  split_ifs
  · exact hp
  · exact he

end TreeCmptor

def Node.at? : Node → Bytes → Option Node
  | node, [] => some node
  | .leaf _ _, _ :: _ => none
  | .branch h r left right, v :: path => (Node.child (.branch h r left right) v).at? path

theorem Node.at?_append {node n : Node} (h : node.at? p = some n) (q : Bytes) :
    node.at? (p ++ q) = n.at? q := by
  induction p generalizing node with
  | nil =>
    cases node <;> cases h <;> rfl
  | cons v p ih =>
    cases node with
    | leaf hash r => cases h
    | branch hash r left right => exact ih h

theorem TreeCmptor.walk_at {node n : Node} (h : node.at? p = some n) (i : Nat) (e : Bytes) :
    walk i node p e = .ok (n, e) := by
  induction p generalizing node i with
  | nil =>
    cases node <;> cases h <;> rfl
  | cons v p ih =>
    cases node with
    | leaf hash r => cases h
    | branch hash r left right => exact ih h (i + 1)

structure Visit where
  node : Side → Node
  path : Bytes

namespace Visit

def In (tree : Side → Node) (v : Visit) : Prop := ∀ s, (tree s).at? v.path = some (v.node s)

def Differs (v : Visit) : Prop := (v.node .main).hash ≠ (v.node .other).hash
deriving Decidable

theorem differs_iff (v : Visit) (s : Side) : v.Differs ↔ (v.node s).hash ≠ (v.node s.opp).hash := by
  cases s with
  | main => exact Iff.rfl
  | other => exact ne_comm

def Leaves (v : Visit) : Prop := ∀ s, (v.node s).isLeaf = true

def Branches (v : Visit) : Prop := ∀ s, (v.node s).isLeaf = false

def left (v : Visit) : Visit := ⟨fun s => (v.node s).children.1, v.path ++ [0]⟩

def right (v : Visit) : Visit := ⟨fun s => (v.node s).children.2, v.path ++ [1]⟩

def next (v : Visit) : List Visit := [v.left, v.right].filter fun w => w.Differs

theorem next_of_leaves (h : v.Leaves) : v.next = [] := by
  have hchildren : ∀ s, (v.node s).children = (.emptyTree, .emptyTree) := by
    intro s
    have hs := h s
    cases hnode : v.node s with
    | leaf hash r => rfl
    | branch hash r a b =>
      rw [hnode] at hs
      cases hs
  refine filter_eq_nil_iff.mpr fun w hw => ?_
  rcases mem_pair.mp hw with rfl | rfl <;> simp [Differs, left, right, hchildren]

theorem mem_next : w ∈ v.next ↔ (w = v.left ∨ w = v.right) ∧ w.Differs := by
  rw [next, mem_filter, mem_pair, decide_eq_true_eq]

theorem path_of_mem_next (h : w ∈ v.next) : ∃ i, w.path = v.path ++ [i] := by
  rcases (mem_next.mp h).1 with rfl | rfl
  · exact ⟨0, rfl⟩
  · exact ⟨1, rfl⟩

theorem In.next {tree : Side → Node} (hv : v.In tree) (hbranch : v.Branches) (hw : w ∈ v.next) :
    w.In tree := by
  intro s
  have hs := hbranch s
  cases hnode : v.node s with
  | leaf hash r =>
    rw [hnode] at hs
    cases hs
  | branch hash r a b =>
    rcases (mem_next.mp hw).1 with rfl | rfl
    · rw [left, Node.at?_append (hv s)]
      cases a <;> simp [hnode, Node.at?, Node.child, Node.children]
    · rw [right, Node.at?_append (hv s)]
      cases b <;> simp [hnode, Node.at?, Node.child, Node.children]

inductive Reaches : Visit → Visit → Prop
  | refl (v : Visit) : Reaches v v
  | step {v w e : Visit} : w ∈ v.next → Reaches w e → Reaches v e

end Visit

/-! ## Where the comparison ends -/

/-- The comparison of two nodes ends at suitable leaves after at most so many steps down. -/
def EndsWithin (fits : Side → Node → Prop) : Node → Node → Nat → Prop
  | .leaf h r, .leaf h' r', _ => fits .main (.leaf h r) ∧ fits .other (.leaf h' r')
  | .branch _ _ a b, .branch _ _ a' b', n + 1 =>
    (a.hash ≠ a'.hash → EndsWithin fits a a' n) ∧ (b.hash ≠ b'.hash → EndsWithin fits b b' n)
  | _, _, _ => False

/-- The rightmost of the places where the comparison ends is at the path, and none is
deeper. -/
def EndsAt (fits : Side → Node → Prop) : Node → Node → Bytes → Prop
  | .leaf h r, .leaf h' r', [] => fits .main (.leaf h r) ∧ fits .other (.leaf h' r')
  | .branch _ _ a b, .branch _ _ a' b', v :: path =>
    if b.hash ≠ b'.hash then
      v = 1 ∧ (a.hash ≠ a'.hash → EndsWithin fits a a' path.length) ∧ EndsAt fits b b' path
    else v = 0 ∧ a.hash ≠ a'.hash ∧ EndsAt fits a a' path
  | _, _, _ => False

section Decide

variable (fits : Side → Node → Prop) [∀ s node, Decidable (fits s node)]

instance decidableEndsWithin : (x y : Node) → (n : Nat) → Decidable (EndsWithin fits x y n)
  | .leaf h r, .leaf h' r', _ =>
    inferInstanceAs (Decidable (fits .main (.leaf h r) ∧ fits .other (.leaf h' r')))
  | .branch _ _ a b, .branch _ _ a' b', n + 1 =>
    have := decidableEndsWithin a a' n
    have := decidableEndsWithin b b' n
    inferInstanceAs (Decidable ((a.hash ≠ a'.hash → EndsWithin fits a a' n) ∧
      (b.hash ≠ b'.hash → EndsWithin fits b b' n)))
  | .branch _ _ _ _, .branch _ _ _ _, 0 => isFalse id
  | .leaf _ _, .branch _ _ _ _, 0 => isFalse id
  | .leaf _ _, .branch _ _ _ _, _ + 1 => isFalse id
  | .branch _ _ _ _, .leaf _ _, 0 => isFalse id
  | .branch _ _ _ _, .leaf _ _, _ + 1 => isFalse id

instance decidableEndsAt : (x y : Node) → (path : Bytes) → Decidable (EndsAt fits x y path)
  | .leaf h r, .leaf h' r', [] =>
    inferInstanceAs (Decidable (fits .main (.leaf h r) ∧ fits .other (.leaf h' r')))
  | .branch _ _ a b, .branch _ _ a' b', v :: path =>
    have := decidableEndsAt a a' path
    have := decidableEndsAt b b' path
    inferInstanceAs (Decidable (if b.hash ≠ b'.hash then
      v = 1 ∧ (a.hash ≠ a'.hash → EndsWithin fits a a' path.length) ∧ EndsAt fits b b' path
    else v = 0 ∧ a.hash ≠ a'.hash ∧ EndsAt fits a a' path))
  | .leaf _ _, .leaf _ _, _ :: _ => isFalse id
  | .branch _ _ _ _, .branch _ _ _ _, [] => isFalse id
  | .leaf _ _, .branch _ _ _ _, [] => isFalse id
  | .leaf _ _, .branch _ _ _ _, _ :: _ => isFalse id
  | .branch _ _ _ _, .leaf _ _, [] => isFalse id
  | .branch _ _ _ _, .leaf _ _, _ :: _ => isFalse id

end Decide

section Ends

variable {fits : Side → Node → Prop} {x y : Node} {v : Visit} {n : Nat} {q : Bytes}

theorem EndsWithin.inv (h : EndsWithin fits x y n) :
    x.isLeaf = true ∧ y.isLeaf = true ∧ fits .main x ∧ fits .other y ∨
      x.isLeaf = false ∧ y.isLeaf = false ∧ ∃ m, n = m + 1 ∧
        (x.children.1.hash ≠ y.children.1.hash → EndsWithin fits x.children.1 y.children.1 m) ∧
        (x.children.2.hash ≠ y.children.2.hash → EndsWithin fits x.children.2 y.children.2 m) := by
  cases x <;> cases y <;> cases n
  case leaf.leaf.zero => exact .inl ⟨rfl, rfl, h⟩
  case leaf.leaf.succ => exact .inl ⟨rfl, rfl, h⟩
  case branch.branch.succ => exact .inr ⟨rfl, rfl, _, rfl, h⟩
  all_goals cases h

theorem EndsAt.inv (h : EndsAt fits x y q) :
    x.isLeaf = true ∧ y.isLeaf = true ∧ (fits .main x ∧ fits .other y) ∧ q = [] ∨
      x.isLeaf = false ∧ y.isLeaf = false ∧ ∃ i q', q = i :: q' ∧
        if x.children.2.hash ≠ y.children.2.hash then
          i = 1 ∧ (x.children.1.hash ≠ y.children.1.hash →
            EndsWithin fits x.children.1 y.children.1 q'.length) ∧
            EndsAt fits x.children.2 y.children.2 q'
        else i = 0 ∧ x.children.1.hash ≠ y.children.1.hash ∧
          EndsAt fits x.children.1 y.children.1 q' := by
  cases x <;> cases y <;> cases q
  case leaf.leaf.nil => exact .inl ⟨rfl, rfl, h, rfl⟩
  case branch.branch.cons => exact .inr ⟨rfl, rfl, _, _, rfl, h⟩
  all_goals cases h

theorem EndsAt.endsWithin (h : EndsAt fits x y q) : EndsWithin fits x y q.length := by
  induction q generalizing x y with
  | nil =>
    cases x <;> cases y
    case leaf.leaf => exact h
    all_goals cases h
  | cons i q ih =>
    cases x <;> cases y
    case branch.branch =>
      rw [EndsAt] at h
      split_ifs at h with hb
      · exact ⟨h.2.1, fun _ => ih h.2.2⟩
      · exact ⟨fun _ => ih h.2.2, fun h => absurd h hb⟩
    all_goals cases h

namespace Visit

def EndsWithin (fits : Side → Node → Prop) (v : Visit) (n : Nat) : Prop :=
  Bysolt.EndsWithin fits (v.node .main) (v.node .other) n

def EndsAt (fits : Side → Node → Prop) (v : Visit) (q : Bytes) : Prop :=
  Bysolt.EndsAt fits (v.node .main) (v.node .other) q

theorem forall_side {p : Side → Prop} (hmain : p .main) (hother : p .other) : ∀ s, p s
  | .main => hmain
  | .other => hother

theorem EndsWithin.cases (h : v.EndsWithin fits n) : v.Leaves ∧ (∀ s, fits s (v.node s)) ∨
      v.Branches ∧ ∃ m, n = m + 1 ∧ ∀ w ∈ v.next, w.EndsWithin fits m := by
  rcases Bysolt.EndsWithin.inv h with ⟨hmain, hother, hfits⟩ | ⟨hmain, hother, m, rfl, hl, hr⟩
  · exact .inl ⟨forall_side hmain hother, forall_side hfits.1 hfits.2⟩
  refine .inr ⟨forall_side hmain hother, m, rfl, fun w hw => ?_⟩
  obtain ⟨rfl | rfl, hdiffers⟩ := mem_next.mp hw
  · exact hl hdiffers
  · exact hr hdiffers

structure Last (fits : Side → Node → Prop) (v : Visit) (i : UInt8) (q : Bytes) (ws : List Visit)
    (w : Visit) : Prop where
  next : v.next = ws ++ [w]
  path : w.path = v.path ++ [i]
  left : ∀ u ∈ ws, RightOf w.path u.path ∧ u.EndsWithin fits q.length
  ends : w.EndsAt fits q

theorem EndsAt.cases (h : v.EndsAt fits q) : v.Leaves ∧ (∀ s, fits s (v.node s)) ∧ q = [] ∨
      v.Branches ∧ ∃ i q' ws w, q = i :: q' ∧ v.Last fits i q' ws w := by
  rcases Bysolt.EndsAt.inv h with ⟨hmain, hother, hfits, rfl⟩ | ⟨hmain, hother, i, q, rfl, hif⟩
  · exact .inl ⟨forall_side hmain hother, forall_side hfits.1 hfits.2, rfl⟩
  refine .inr ⟨forall_side hmain hother, i, q, ?_⟩
  split_ifs at hif with hb
  · obtain ⟨rfl, hother', hends⟩ := hif
    have hb : v.right.Differs := hb
    refine ⟨[v.left].filter fun w => w.Differs, v.right, rfl, ?_, rfl, fun u hu => ?_, hends⟩
    · rw [next, filter_cons, filter_cons, filter_cons]
      simp [hb]
      split_ifs <;> rfl
    · obtain ⟨hu, hdiffers⟩ := mem_filter.mp hu
      cases mem_singleton.mp hu
      exact ⟨rightOf_one_zero _ [], hother' (of_decide_eq_true hdiffers)⟩
  · obtain ⟨rfl, ha, hends⟩ := hif
    have hb : ¬ v.right.Differs := hb
    have ha : v.left.Differs := ha
    refine ⟨[], v.left, rfl, ?_, rfl, nofun, hends⟩
    rw [next, filter_cons, filter_cons]
    simp [hb, ha]

theorem Reaches.fits_leaves {e : Visit} (hreach : v.Reaches e) (h : v.EndsWithin fits n)
    (hleaves : e.Leaves) : ∀ s, fits s (e.node s) := by
  induction hreach generalizing n with
  | refl v =>
    rcases h.cases with ⟨-, hfits⟩ | ⟨hbranch, -⟩
    · exact hfits
    · exact absurd ((hleaves .main).symm.trans (hbranch .main)) (by decide)
  | step hw hreach ih =>
    rcases h.cases with ⟨hleaf, -⟩ | ⟨-, m, -, hnext⟩
    · rw [next_of_leaves hleaf] at hw
      cases hw
    · exact ih (hnext _ hw) hleaves

theorem EndsAt.endsWithin (h : v.EndsAt fits q) : v.EndsWithin fits q.length :=
  Bysolt.EndsAt.endsWithin h

end Visit

end Ends

end Nerthus.Bysolt
