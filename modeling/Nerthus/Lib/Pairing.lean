import Mathlib

/-!
# Trees built in levels

Each level pairs the neighbours of the level below it, and an odd last element
goes up alone. The levels end when one element is left.
-/

namespace Nerthus.Lib

open List

variable {α β γ : Type*} {l : List β} {two' : γ → γ → γ}

section Pairing

variable (two : β → β → β) (one : β → β)

def pairUp : List β → List β
  | [] => []
  | [a] => [one a]
  | a :: b :: rest => two a b :: pairUp rest

theorem pairUp_length (l : List β) : (pairUp two one l).length = (l.length + 1) / 2 := by
  induction l using pairUp.induct with
  | case1 => simp only [pairUp, length_nil]
  | case2 a => simp only [pairUp, length_singleton]
  | case3 a b rest ih =>
    rw [pairUp, length_cons, ih, length_cons, length_cons]
    omega

def buildFrom : Nat → List β → Option β
  | 0, _ => none
  | n + 1, l =>
    match pairUp two one l with
    | [r] => some r
    | next => buildFrom n next

def build (l : List β) : Option β := buildFrom two one l.length l

variable {two one}

theorem buildFrom_succ_of_singleton {n : Nat} {r : β} (h : pairUp two one l = [r]) :
    buildFrom two one (n + 1) l = some r := by
  rw [buildFrom, h]

theorem buildFrom_succ_of_length {n : Nat} (h : (pairUp two one l).length ≠ 1) :
    buildFrom two one (n + 1) l = buildFrom two one n (pairUp two one l) := by
  rw [buildFrom]
  split
  · rename_i r heq
    rw [heq] at h
    exact absurd rfl h
  · rfl

theorem exists_buildFrom (n : Nat) (hne : l ≠ []) (hlen : l.length ≤ n) :
    ∃ r, ∀ m, n ≤ m → buildFrom two one m l = some r := by
  induction n generalizing l with
  | zero => exact absurd (length_eq_zero_iff.mp (Nat.le_zero.mp hlen)) hne
  | succ n ih =>
    have hpair := pairUp_length two one l
    have hpos := length_pos_iff.mpr hne
    by_cases hone : (pairUp two one l).length = 1
    · obtain ⟨r, hr⟩ := length_eq_one_iff.mp hone
      refine ⟨r, fun m hm => ?_⟩
      obtain ⟨k, rfl⟩ : ∃ k, m = k + 1 := ⟨m - 1, by omega⟩
      exact buildFrom_succ_of_singleton hr
    · have hne' : pairUp two one l ≠ [] := by
        intro hnil
        rw [hnil, length_nil] at hpair
        omega
      obtain ⟨r, hr⟩ := ih hne' (by omega)
      refine ⟨r, fun m hm => ?_⟩
      obtain ⟨k, rfl⟩ : ∃ k, m = k + 1 := ⟨m - 1, by omega⟩
      rw [buildFrom_succ_of_length hone]
      exact hr k (by omega)

theorem buildFrom_eq_build {n : Nat} (hne : l ≠ []) (hlen : l.length ≤ n) :
    buildFrom two one n l = build two one l := by
  obtain ⟨r, hr⟩ := exists_buildFrom l.length hne (Nat.le_refl _)
  rw [build, hr n hlen, hr _ (Nat.le_refl _)]

theorem build_of_singleton {r : β} (h : pairUp two one l = [r]) : build two one l = some r := by
  have hlen := pairUp_length two one l
  rw [h, length_singleton] at hlen
  obtain ⟨n, hn⟩ : ∃ n, l.length = n + 1 := ⟨l.length - 1, by omega⟩
  rw [build, hn]
  exact buildFrom_succ_of_singleton h

theorem build_of_length (hne : l ≠ []) (h : (pairUp two one l).length ≠ 1) :
    build two one l = build two one (pairUp two one l) := by
  have hlen := pairUp_length two one l
  have hpos := length_pos_iff.mpr hne
  have hne' : pairUp two one l ≠ [] := by
    intro hnil
    rw [hnil, length_nil] at hlen
    omega
  obtain ⟨n, hn⟩ : ∃ n, l.length = n + 1 := ⟨l.length - 1, by omega⟩
  rw [build, hn, buildFrom_succ_of_length h]
  exact buildFrom_eq_build hne' (by omega)

theorem pairUp_map {one' : γ → γ} {f : β → γ} (htwo : ∀ a b, f (two a b) = two' (f a) (f b))
    (hone : ∀ a, f (one a) = one' (f a)) (l : List β) :
    (pairUp two one l).map f = pairUp two' one' (l.map f) := by
  induction l using pairUp.induct with
  | case1 => rfl
  | case2 a => simp only [pairUp, map_cons, map_nil, hone]
  | case3 a b rest ih => simp only [pairUp, map_cons, ih, htwo]

theorem buildFrom_map {one' : γ → γ} {f : β → γ} (htwo : ∀ a b, f (two a b) = two' (f a) (f b))
    (hone : ∀ a, f (one a) = one' (f a)) (n : Nat) (l : List β) :
    (buildFrom two one n l).map f = buildFrom two' one' n (l.map f) := by
  induction n generalizing l with
  | zero => rfl
  | succ n ih =>
    have hpair := pairUp_map htwo hone l
    by_cases hlen : (pairUp two one l).length = 1
    · obtain ⟨r, hr⟩ := length_eq_one_iff.mp hlen
      rw [hr] at hpair
      rw [buildFrom_succ_of_singleton hr, buildFrom_succ_of_singleton hpair.symm]
      rfl
    · have hlen' : (pairUp two' one' (l.map f)).length ≠ 1 := by
        rw [← hpair, length_map]
        exact hlen
      rw [buildFrom_succ_of_length hlen, buildFrom_succ_of_length hlen', ih, hpair]

theorem build_map {one' : γ → γ} {f : β → γ} (htwo : ∀ a b, f (two a b) = two' (f a) (f b))
    (hone : ∀ a, f (one a) = one' (f a)) (l : List β) :
    (build two one l).map f = build two' one' (l.map f) := by
  rw [build, build, length_map]
  exact buildFrom_map htwo hone _ _

theorem build_pairUp (hne : l ≠ []) : build two id (pairUp two id l) = build two id l := by
  by_cases h : (pairUp two id l).length = 1
  · obtain ⟨r, hr⟩ := length_eq_one_iff.mp h
    rw [build_of_singleton hr, hr]
    exact build_of_singleton rfl
  · exact (build_of_length hne h).symm

theorem pairUp_append {l' : List β} (heven : l.length % 2 = 0) :
    pairUp two id (l ++ l') = pairUp two id l ++ pairUp two id l' := by
  induction l using pairUp.induct with
  | case1 => rfl
  | case2 a => cases heven
  | case3 a b rest ih =>
    rw [length_cons, length_cons] at heven
    rw [cons_append, cons_append, pairUp, ih (by omega), pairUp, cons_append]

theorem build_append {k : Nat} {l' : List β} {x y : β} (hfull : l.length = 2 ^ k)
    (hle : l'.length ≤ 2 ^ k) (hne : l' ≠ []) (hx : build two id l = some x)
    (hy : build two id l' = some y) : build two id (l ++ l') = some (two x y) := by
  induction k generalizing l l' with
  | zero =>
    obtain ⟨a, rfl⟩ := length_eq_one_iff.mp hfull
    have hpos := length_pos_iff.mpr hne
    obtain ⟨b, rfl⟩ := length_eq_one_iff.mp (Nat.le_antisymm hle hpos)
    cases hx
    cases hy
    exact build_of_singleton rfl
  | succ k ih =>
    rw [Nat.pow_succ] at hfull hle
    have hpos := length_pos_iff.mpr hne
    have hpow := Nat.two_pow_pos k
    have hl : l ≠ [] := ne_nil_of_length_pos (by omega)
    have hlen := pairUp_length two id l
    have hlen' := pairUp_length two id l'
    rw [← build_pairUp hl] at hx
    rw [← build_pairUp hne] at hy
    rw [← build_pairUp (append_ne_nil_of_left_ne_nil hl _), pairUp_append (by omega)]
    exact ih (by omega) (by omega) (ne_nil_of_length_pos (by omega)) hx hy

end Pairing

inductive LevelTree (α : Type*) where
  | leaf (a : α)
  | one (child : LevelTree α)
  | two (left right : LevelTree α)

namespace LevelTree

def ofList (l : List α) : Option (LevelTree α) := build two one (l.map leaf)

def leaves : LevelTree α → List α
  | leaf a => [a]
  | one child => child.leaves
  | two left right => left.leaves ++ right.leaves

def eval (pair : β → β → β) (f : α → β) : LevelTree α → β
  | leaf a => f a
  | one child => child.eval pair f
  | two left right => pair (left.eval pair f) (right.eval pair f)

theorem ofList_eval (pair : β → β → β) (f : α → β) (l : List α) :
    (ofList l).map (eval pair f) = build pair id (l.map f) := by
  have hmap : (l.map leaf).map (eval pair f) = l.map f := by
    rw [map_map]
    rfl
  have htwo : ∀ a b, eval pair f (two a b) = pair (eval pair f a) (eval pair f b) :=
    fun _ _ => rfl
  have hone : ∀ a, eval pair f (one a) = id (eval pair f a) := fun _ => rfl
  rw [ofList, ← hmap]
  exact build_map htwo hone _

theorem pairUp_append_flatten (l : List (List α)) : (pairUp (· ++ ·) id l).flatten = l.flatten := by
  induction l using pairUp.induct with
  | case1 => rfl
  | case2 a => rfl
  | case3 a b rest ih => simp only [pairUp, flatten_cons, ih, append_assoc]

theorem buildFrom_append_flatten {n : Nat} {l : List (List α)} {r : List α}
    (h : buildFrom (· ++ ·) id n l = some r) : r = l.flatten := by
  induction n generalizing l with
  | zero => cases h
  | succ n ih =>
    have hflat := pairUp_append_flatten l
    by_cases hlen : (pairUp (· ++ ·) id l).length = 1
    · obtain ⟨x, hx⟩ := length_eq_one_iff.mp hlen
      rw [buildFrom_succ_of_singleton hx] at h
      cases h
      rw [← hflat, hx, flatten_singleton]
    · rw [buildFrom_succ_of_length hlen] at h
      rw [ih h, hflat]

theorem leaves_eq_eval (t : LevelTree α) : t.leaves = t.eval (· ++ ·) (fun a => [a]) := by
  induction t with
  | leaf a => rfl
  | one child ih => exact ih
  | two left right ihl ihr => rw [leaves, ihl, ihr]; rfl

theorem ofList_leaves {l : List α} {t : LevelTree α} (h : ofList l = some t) : t.leaves = l := by
  have heval := ofList_eval (· ++ ·) (fun a => [a]) l
  rw [h, Option.map_some, ← leaves_eq_eval] at heval
  rw [buildFrom_append_flatten heval.symm, ← flatMap_def, flatMap_singleton']

theorem buildFrom_ne_leaf {n : Nat} {l : List (LevelTree α)} {t : LevelTree α}
    (h : buildFrom two one n l = some t) (a : α) : t ≠ leaf a := by
  have hpair : ∀ l : List (LevelTree α), leaf a ∉ pairUp two one l := by
    intro l
    induction l using pairUp.induct with
    | case1 => exact not_mem_nil
    | case2 x => simp [pairUp]
    | case3 x y rest ih => simpa [pairUp] using ih
  induction n generalizing l with
  | zero => cases h
  | succ n ih =>
    by_cases hlen : (pairUp two one l).length = 1
    · obtain ⟨x, hx⟩ := length_eq_one_iff.mp hlen
      rw [buildFrom_succ_of_singleton hx] at h
      cases h
      intro hleaf
      apply hpair l
      rw [hx, hleaf]
      exact mem_singleton_self _
    · rw [buildFrom_succ_of_length hlen] at h
      exact ih h

theorem ofList_ne_leaf {l : List α} {t : LevelTree α} (h : ofList l = some t) (a : α) :
    t ≠ leaf a :=
  buildFrom_ne_leaf h a

def map (f : α → β) : LevelTree α → LevelTree β
  | leaf a => leaf (f a)
  | one child => one (child.map f)
  | two left right => two (left.map f) (right.map f)

theorem ofList_map (f : α → β) (l : List α) : ofList (l.map f) = (ofList l).map (map f) := by
  have hleaf : (l.map f).map leaf = (l.map leaf).map (map f) := by
    rw [map_map, map_map]
    rfl
  have htwo : ∀ a b : LevelTree α, map f (two a b) = two (map f a) (map f b) := fun _ _ => rfl
  have hone : ∀ a : LevelTree α, map f (one a) = one (map f a) := fun _ => rfl
  rw [ofList, ofList, hleaf]
  exact (build_map htwo hone _).symm

theorem eq_of_map_eq {f : α → β} {g : α → γ} (hfg : ∀ x y, f x = f y → g x = g y → x = y)
    {t u : LevelTree α} (hf : t.map f = u.map f) (hg : t.map g = u.map g) : t = u := by
  induction t generalizing u with
  | leaf a =>
    cases u with
    | leaf b =>
      rw [hfg a b (LevelTree.leaf.inj hf) (LevelTree.leaf.inj hg)]
    | one child => cases hf
    | two left right => cases hf
  | one child ih =>
    cases u with
    | leaf b => cases hf
    | one child' => rw [ih (LevelTree.one.inj hf) (LevelTree.one.inj hg)]
    | two left right => cases hf
  | two left right ihl ihr =>
    cases u with
    | leaf b => cases hf
    | one child => cases hf
    | two left' right' =>
      obtain ⟨hfl, hfr⟩ := LevelTree.two.inj hf
      obtain ⟨hgl, hgr⟩ := LevelTree.two.inj hg
      rw [ihl hfl hgl, ihr hfr hgr]

def pairs (pair : β → β → β) (f : α → β) : LevelTree α → List (β × β)
  | leaf _ => []
  | one child => child.pairs pair f
  | two left right =>
    (left.eval pair f, right.eval pair f) :: (left.pairs pair f ++ right.pairs pair f)

theorem map_eq_of_eval_eq {pair : β → β → β} {f : α → β} {g : α → γ} {t u : LevelTree α}
    (hshape : t.map g = u.map g)
    (hinj : ∀ p ∈ t.pairs pair f, ∀ q ∈ u.pairs pair f, pair p.1 p.2 = pair q.1 q.2 → p = q)
    (heval : t.eval pair f = u.eval pair f) : t.map f = u.map f := by
  induction t generalizing u with
  | leaf a =>
    cases u with
    | leaf b => exact congrArg leaf heval
    | one child => cases hshape
    | two left right => cases hshape
  | one child ih =>
    cases u with
    | leaf b => cases hshape
    | one child' => exact congrArg one (ih (LevelTree.one.inj hshape) hinj heval)
    | two left right => cases hshape
  | two left right ihl ihr =>
    cases u with
    | leaf b => cases hshape
    | one child => cases hshape
    | two left' right' =>
      obtain ⟨hl, hr⟩ := LevelTree.two.inj hshape
      obtain ⟨hel, her⟩ := Prod.mk.inj
        (hinj _ (.head _) _ (.head _) heval)
      rw [map, map]
      congr 1
      · apply ihl hl _ hel
        intro p hp q hq
        exact hinj p (.tail _ (mem_append_left _ hp)) q
          (.tail _ (mem_append_left _ hq))
      · apply ihr hr _ her
        intro p hp q hq
        exact hinj p (.tail _ (mem_append_right _ hp)) q
          (.tail _ (mem_append_right _ hq))

end LevelTree

end Nerthus.Lib
