import Mathlib

/-!
# A range halved again and again

A range is halved, and so are its parts, until each part is a slot or is empty. The
parts of one depth have indices from the left. `level` is the parts of a depth that
are not empty, and `raise` joins them two by two to the parts above them.
-/

namespace Nerthus.Lib

open List

universe u

inductive Halving (α : Type u) where
  | empty
  | slot (a : α)
  | split (left right : Halving α)

variable {k i d : Nat}

namespace Halving

variable {α : Type u}

def isSplit : Halving α → Bool
  | empty => false
  | slot _ => false
  | split _ _ => true

def isSlot : Halving α → Bool
  | empty => false
  | slot _ => true
  | split _ _ => false

def Proper : Halving α → Prop
  | empty => True
  | slot _ => True
  | split left right => (left ≠ empty ∨ right ≠ empty) ∧ left.Proper ∧ right.Proper

def level : Halving α → (k i : Nat) → List (Nat × Halving α)
  | empty, _, _ => []
  | slot a, 0, i => [(i, slot a)]
  | slot _, _ + 1, _ => []
  | split left right, 0, i => [(i, split left right)]
  | split left right, k + 1, i => left.level k (2 * i) ++ right.level k (2 * i + 1)

def slots : Halving α → (d i : Nat) → List (Nat × Nat × α)
  | empty, _, _ => []
  | slot a, d, i => [(d, i, a)]
  | split left right, d, i => left.slots (d + 1) (2 * i) ++ right.slots (d + 1) (2 * i + 1)

def single (x : Nat × Halving α) : Nat × Halving α :=
  (x.1 / 2, if x.1 % 2 = 0 then split x.2 empty else split empty x.2)

def raise : List (Nat × Halving α) → List (Nat × Halving α)
  | [] => []
  | [x] => [single x]
  | x :: y :: rest =>
    if x.1 % 2 = 0 ∧ y.1 = x.1 + 1 then (x.1 / 2, split x.2 y.2) :: raise rest
    else single x :: raise (y :: rest)

theorem mem_level {t : Halving α} {x : Nat × Halving α} (hx : x ∈ t.level k i) :
    i * 2 ^ k ≤ x.1 ∧ x.1 < (i + 1) * 2 ^ k ∧ x.2 ≠ empty := by
  induction t generalizing k i with
  | empty => cases hx
  | slot a =>
    cases k with
    | zero =>
      rw [mem_singleton.mp hx]
      refine ⟨by omega, by omega, fun h => ?_⟩
      cases h
    | succ k => cases hx
  | split left right ihl ihr =>
    cases k with
    | zero =>
      rw [mem_singleton.mp hx]
      refine ⟨by omega, by omega, fun h => ?_⟩
      cases h
    | succ k =>
      rw [Nat.pow_succ]
      rcases mem_append.mp hx with hx | hx
      · obtain ⟨hlo, hhi, hne⟩ := ihl hx
        refine ⟨?_, ?_, hne⟩
        · calc i * (2 ^ k * 2) = 2 * i * 2 ^ k := by ring
            _ ≤ x.1 := hlo
        · calc x.1 < (2 * i + 1) * 2 ^ k := hhi
            _ ≤ (2 * i + 2) * 2 ^ k := Nat.mul_le_mul_right _ (by omega)
            _ = (i + 1) * (2 ^ k * 2) := by ring
      · obtain ⟨hlo, hhi, hne⟩ := ihr hx
        refine ⟨?_, ?_, hne⟩
        · calc i * (2 ^ k * 2) = 2 * i * 2 ^ k := by ring
            _ ≤ (2 * i + 1) * 2 ^ k := Nat.mul_le_mul_right _ (by omega)
            _ ≤ x.1 := hlo
        · calc x.1 < (2 * i + 1 + 1) * 2 ^ k := hhi
            _ = (i + 1) * (2 ^ k * 2) := by ring

theorem level_pairwise (t : Halving α) (k i : Nat) :
    (t.level k i).Pairwise fun x y => x.1 < y.1 := by
  induction t generalizing k i with
  | empty => exact .nil
  | slot a =>
    cases k with
    | zero => exact pairwise_singleton _ _
    | succ k => exact .nil
  | split left right ihl ihr =>
    cases k with
    | zero => exact pairwise_singleton _ _
    | succ k =>
      refine pairwise_append.mpr ⟨ihl k _, ihr k _, fun x hx y hy => ?_⟩
      exact Nat.lt_of_lt_of_le (mem_level hx).2.1 (mem_level hy).1

theorem level_index_inj {t : Halving α} {x y : Nat × Halving α} (hx : x ∈ t.level k i)
    (hy : y ∈ t.level k i) (h : x.1 = y.1) : x = y := by
  have hnodup : ((t.level k i).map Prod.fst).Nodup :=
    pairwise_map.mpr ((level_pairwise t k i).imp Nat.ne_of_lt)
  exact inj_on_of_nodup_map hnodup hx hy h

theorem raise_append {m : Nat} (hm : m % 2 = 0) {xs ys : List (Nat × Halving α)}
    (hxs : ∀ x ∈ xs, x.1 < m) (hys : ∀ y ∈ ys, m ≤ y.1) :
    raise (xs ++ ys) = raise xs ++ raise ys := by
  induction xs using raise.induct with
  | case1 => rfl
  | case2 x =>
    cases ys with
    | nil => rfl
    | cons y ys =>
      have hx := hxs x (.head _)
      have hy := hys y (.head _)
      have hapart : ¬ (x.1 % 2 = 0 ∧ y.1 = x.1 + 1) := by omega
      exact if_neg hapart
  | case3 x y rest hpair ih =>
    have hrest := ih fun z hz => hxs z (.tail _ (.tail _ hz))
    rw [cons_append, cons_append, raise, if_pos hpair, hrest, raise, if_pos hpair,
      cons_append]
  | case4 x y rest hapart ih =>
    have hrest := ih fun z hz => hxs z (.tail _ hz)
    rw [cons_append] at hrest
    rw [cons_append, cons_append, raise, if_neg hapart, hrest, raise, if_neg hapart,
      cons_append]

theorem raise_level {t : Halving α} (ht : t.Proper) (k i : Nat) :
    raise (t.level (k + 1) i) = (t.level k i).filter fun x => x.2.isSplit := by
  induction t generalizing k i with
  | empty => rfl
  | slot a => cases k <;> rfl
  | split left right ihl ihr =>
    obtain ⟨hne, hl, hr⟩ := ht
    cases k with
    | zero =>
      have hone : (2 * i + 1) % 2 ≠ 0 := by omega
      have hdiv : (2 * i + 1) / 2 = i := by omega
      cases left <;> cases right <;>
        simp_all [level, raise, single, isSplit, Nat.mul_mod_right]
    | succ k =>
      have hm : (2 * i + 1) * 2 ^ (k + 1) % 2 = 0 := by
        rw [Nat.pow_succ, ← Nat.mul_assoc]
        exact Nat.mul_mod_left _ _
      have happend := raise_append hm
        (fun x hx => (mem_level (t := left) (k := k + 1) (i := 2 * i) hx).2.1)
        (fun y hy => (mem_level (t := right) (k := k + 1) (i := 2 * i + 1) hy).1)
      rw [level, happend, ihl hl, ihr hr, level, filter_append]

theorem mem_slots {t : Halving α} {s : Nat × Nat × α} (hs : s ∈ t.slots d i) : d ≤ s.1 := by
  induction t generalizing d i with
  | empty => cases hs
  | slot a => rw [mem_singleton.mp hs]
  | split left right ihl ihr =>
    rcases mem_append.mp hs with hs | hs
    · have := ihl hs
      omega
    · have := ihr hs
      omega

theorem exists_slot {t : Halving α} (ht : t.Proper) (hne : t ≠ empty) (d i : Nat) :
    ∃ s, s ∈ t.slots d i := by
  induction t generalizing d i with
  | empty => exact absurd rfl hne
  | slot a => exact ⟨_, .head _⟩
  | split left right ihl ihr =>
    obtain ⟨hsome | hsome, hl, hr⟩ := ht
    · obtain ⟨s, hs⟩ := ihl hl hsome (d + 1) (2 * i)
      exact ⟨s, mem_append_left _ hs⟩
    · obtain ⟨s, hs⟩ := ihr hr hsome (d + 1) (2 * i + 1)
      exact ⟨s, mem_append_right _ hs⟩

theorem level_eq_nil {t : Halving α} (ht : t.Proper) (hslots : ∀ s ∈ t.slots d i, s.1 < d + k) :
    t.level k i = [] := by
  induction t generalizing k d i with
  | empty => rfl
  | slot a =>
    cases k with
    | zero => exact absurd (hslots _ (.head _)) (Nat.lt_irrefl d)
    | succ k => rfl
  | split left right ihl ihr =>
    cases k with
    | zero =>
      obtain ⟨s, hs⟩ := exists_slot ht (nofun) d i
      have hdepth := mem_slots hs
      have := hslots s hs
      omega
    | succ k =>
      obtain ⟨-, hl, hr⟩ := ht
      have hleft : left.level k (2 * i) = [] := by
        refine ihl (d := d + 1) hl fun s hs => ?_
        have := hslots s (mem_append_left _ hs)
        omega
      have hright : right.level k (2 * i + 1) = [] := by
        refine ihr (d := d + 1) hr fun s hs => ?_
        have := hslots s (mem_append_right _ hs)
        omega
      rw [level, hleft, hright, append_nil]

theorem level_filter_isSlot (t : Halving α) (k d i : Nat) :
    (t.level k i).filter (fun x => x.2.isSlot) =
      ((t.slots d i).filter fun s => s.1 = d + k).map fun s => (s.2.1, slot s.2.2) := by
  induction t generalizing k d i with
  | empty => rfl
  | slot a =>
    cases k with
    | zero => simp [level, slots, isSlot]
    | succ k => simp [level, slots]
  | split left right ihl ihr =>
    cases k with
    | zero =>
      have hdeep : ((split left right).slots d i).filter (fun s => s.1 = d + 0) = [] := by
        refine filter_eq_nil_iff.mpr fun s hs => ?_
        rcases mem_append.mp hs with hs | hs <;> have := mem_slots hs <;>
          simp only [decide_eq_true_eq] <;> omega
      rw [hdeep]
      rfl
    | succ k =>
      have hdepth : d + (k + 1) = d + 1 + k := by omega
      rw [level, filter_append, ihl k (d + 1), ihr k (d + 1), slots, filter_append,
        map_append, hdepth]

theorem filter_isSlot_eq_self {t : Halving α} (ht : t.Proper)
    (hslots : ∀ s ∈ t.slots d i, s.1 ≤ d + k) :
    (t.level k i).filter (fun x => x.2.isSlot) = t.level k i := by
  have hbelow : t.level (k + 1) i = [] :=
    level_eq_nil ht (d := d) fun s hs => Nat.lt_succ_of_le (hslots s hs)
  have hraise := raise_level ht k i
  rw [hbelow] at hraise
  refine filter_eq_self.mpr fun x hx => ?_
  have hsplit := filter_eq_nil_iff.mp hraise.symm x hx
  have hne := (mem_level hx).2.2
  cases h : x.2 with
  | empty => exact absurd h hne
  | slot a => rfl
  | split left right =>
    rw [h] at hsplit
    exact absurd rfl hsplit

theorem level_perm {t : Halving α} (ht : t.Proper) (k d i : Nat) : List.Perm (t.level k i)
      ((((t.slots d i).filter fun s => s.1 = d + k).map fun s => (s.2.1, slot s.2.2)) ++
        raise (t.level (k + 1) i)) := by
  rw [← level_filter_isSlot, raise_level ht]
  have hsplit : (t.level k i).filter (fun x => x.2.isSplit) =
      (t.level k i).filter fun x => !x.2.isSlot := by
    refine filter_congr fun x hx => ?_
    have hne := (mem_level hx).2.2
    cases h : x.2 with
    | empty => exact absurd h hne
    | slot a => rfl
    | split left right => rfl
  rw [hsplit]
  exact (filter_append_perm _ _).symm

end Halving

end Nerthus.Lib
