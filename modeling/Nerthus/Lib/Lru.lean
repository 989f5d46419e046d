import Mathlib

/-!
# Caches of bounded size

A cache that forgets what was not used for the longest time, as a list with the
newest entry in front. `Agrees` says that what the cache still knows is right.
-/

namespace Nerthus.Lib

open List

structure Lru (κ ν : Type) where
  size : Nat
  entries : List (κ × ν)

namespace Lru

variable {κ ν : Type} [DecidableEq κ]

def empty (size : Nat) : Lru κ ν := ⟨size, []⟩

def peek (c : Lru κ ν) (k : κ) : Option ν := c.entries.lookup k

def remove (c : Lru κ ν) (k : κ) : Lru κ ν :=
  { c with entries := c.entries.filter fun e => decide (e.1 ≠ k) }

def add (c : Lru κ ν) (k : κ) (v : ν) : Lru κ ν :=
  { c with entries := ((k, v) :: (c.remove k).entries).take c.size }

def get (c : Lru κ ν) (k : κ) : Option ν × Lru κ ν :=
  match c.peek k with
  | some v => (some v, { c with entries := (k, v) :: (c.remove k).entries })
  | none => (none, c)

theorem lookup_filter_ne {entries : List (κ × ν)} {k k' : κ} :
    (entries.filter fun e => decide (e.1 ≠ k)).lookup k' =
      if k' = k then none else entries.lookup k' := by
  induction entries with
  | nil => simp
  | cons e rest ih =>
    obtain ⟨a, v⟩ := e
    by_cases ha : a = k
    · rw [filter_cons_of_neg (by simp [ha]), ih]
      by_cases hk : k' = k
      · simp [hk]
      · have hne : (k' == a) = false := by simp [ha, hk]
        simp [lookup, hne, hk]
    · rw [filter_cons_of_pos (by simp [ha]), lookup_cons, ih, lookup_cons]
      by_cases hk : k' = a
      · simp [hk, ha]
      · have hne : (k' == a) = false := by simp [hk]
        simp [hne]

theorem peek_remove (c : Lru κ ν) (k k' : κ) :
    (c.remove k).peek k' = if k' = k then none else c.peek k' :=
  lookup_filter_ne

theorem lookup_take {entries : List (κ × ν)} {n : Nat} {k : κ} {v : ν}
    (h : (entries.take n).lookup k = some v) : entries.lookup k = some v := by
  induction entries generalizing n with
  | nil => simp at h
  | cons e rest ih =>
    cases n with
    | zero => simp at h
    | succ n =>
      obtain ⟨a, w⟩ := e
      rw [take_succ_cons, lookup_cons] at h
      rw [lookup_cons]
      split at h
      · exact h
      · exact ih h

theorem peek_front {c : Lru κ ν} {k k' : κ} {v w : ν}
    (h : ((k, v) :: (c.remove k).entries).lookup k' = some w) :
    (k' = k ∧ w = v) ∨ (k' ≠ k ∧ c.peek k' = some w) := by
  rw [lookup_cons] at h
  by_cases hk : k' = k
  · simp only [hk, beq_self_eq_true, Option.some.injEq] at h
    exact .inl ⟨hk, h.symm⟩
  have hne : (k' == k) = false := by simp [hk]
  rw [hne] at h
  have hpeek := c.peek_remove k k'
  rw [if_neg hk] at hpeek
  exact .inr ⟨hk, hpeek ▸ h⟩

def Agrees (c : Lru κ ν) (f : κ → ν) : Prop := ∀ k v, c.peek k = some v → v = f k

theorem agrees_empty (size : Nat) (f : κ → ν) : (empty size : Lru κ ν).Agrees f := by
  intro k v h
  cases h

theorem Agrees.remove {c : Lru κ ν} {f g : κ → ν} (h : c.Agrees f) (k : κ)
    (hother : ∀ k', k' ≠ k → g k' = f k') : (c.remove k).Agrees g := by
  intro k' v hv
  rw [peek_remove] at hv
  split at hv
  · cases hv
  · next hk =>
    rw [hother k' hk]
    exact h k' v hv

theorem Agrees.add {c : Lru κ ν} {f g : κ → ν} (h : c.Agrees f) (k : κ)
    (hother : ∀ k', k' ≠ k → g k' = f k') : (c.add k (g k)).Agrees g := by
  intro k' v hv
  rcases peek_front (lookup_take hv) with ⟨rfl, rfl⟩ | ⟨hk, hold⟩
  · rfl
  · rw [hother k' hk]
    exact h k' v hold

theorem Agrees.get {c : Lru κ ν} {f : κ → ν} (h : c.Agrees f) (k : κ) :
    (c.get k).2.Agrees f ∧ ∀ v, (c.get k).1 = some v → v = f k := by
  rw [Lru.get]
  cases hpeek : c.peek k with
  | none => exact ⟨h, by simp⟩
  | some v =>
    have hv := h k v hpeek
    refine ⟨fun k' w hw => ?_, fun w hw => ?_⟩
    · rcases peek_front hw with ⟨rfl, rfl⟩ | ⟨-, hold⟩
      · exact hv
      · exact h k' w hold
    · rw [← Option.some.inj hw]
      exact hv

end Lru

end Nerthus.Lib
