import Mathlib

/-!
# Computations with fuel

A recursion whose end is not visible in its arguments takes a bound on its
depth. `Returns f a` says that the bound does not matter: every large enough
one gives the result `a`.
-/

namespace Nerthus.Lib

universe u

variable {ε : Type*} {α β : Type u}

theorem bind_eq_ok_iff {x : Except ε α} {f : α → Except ε β} {b : β} :
    x >>= f = .ok b ↔ ∃ a, x = .ok a ∧ f a = .ok b := by
  cases x with
  | error e => exact ⟨nofun, fun ⟨_, h, _⟩ => (by cases h)⟩
  | ok a => exact ⟨fun h => ⟨a, rfl, h⟩, fun ⟨_, h, hf⟩ => (by cases h; exact hf)⟩

theorem bind_eq_error_iff {x : Except ε α} {f : α → Except ε β} {e : ε} :
    x >>= f = .error e ↔ x = .error e ∨ ∃ a, x = .ok a ∧ f a = .error e := by
  cases x with
  | error e' =>
    constructor
    · intro h
      cases h
      exact .inl rfl
    · rintro (h | ⟨_, h, _⟩)
      · cases h
        rfl
      · cases h
  | ok a =>
    constructor
    · intro h
      exact .inr ⟨a, rfl, h⟩
    · rintro (h | ⟨_, h, hf⟩)
      · cases h
      · cases h
        exact hf

theorem bind_ne_error {x : Except ε α} {f : α → Except ε β} {e : ε}
    (hx : ∀ e', x = .error e' → e' ≠ e) (hf : ∀ a, f a ≠ .error e) : x >>= f ≠ .error e := by
  intro h
  rcases bind_eq_error_iff.mp h with h | ⟨a, -, h⟩
  · exact hx e h rfl
  · exact hf a h

theorem ite_eq_ok_iff {c : Prop} [Decidable c] {e : ε} {x : Except ε α} {a : α} :
    (if c then .error e else x) = .ok a ↔ ¬c ∧ x = .ok a := by
  by_cases hc : c
  · rw [if_pos hc]
    exact ⟨nofun, fun h => absurd hc h.1⟩
  · rw [if_neg hc]
    exact ⟨fun h => ⟨hc, h⟩, And.right⟩

theorem guard_eq_ok_iff {c : Prop} [Decidable c] {e : ε} {f : PUnit → Except ε β} {b : β} :
    (if c then (throw e : Except ε PUnit) >>= f else f ⟨⟩) = .ok b ↔ ¬c ∧ f ⟨⟩ = .ok b := by
  by_cases hc : c
  · rw [if_pos hc]
    exact ⟨nofun, fun h => absurd hc h.1⟩
  · rw [if_neg hc]
    exact ⟨fun h => ⟨hc, h⟩, fun h => h.2⟩

theorem mapM_decode {encode : α → β} {decode : β → Except ε α} {l : List α}
    (h : ∀ a ∈ l, decode (encode a) = .ok a) : (l.map encode).mapM decode = .ok l := by
  induction l with
  | nil => rfl
  | cons a l ih =>
    obtain ⟨ha, hl⟩ := List.forall_mem_cons.mp h
    rw [List.map_cons, List.mapM_cons, ha, ih hl]
    rfl

theorem ok_of_mem_of_mapM {f : α → Except ε β} {l : List α} {r : List β}
    (h : l.mapM f = .ok r) {a : α} (ha : a ∈ l) : ∃ b, f a = .ok b := by
  induction l generalizing r with
  | nil => cases ha
  | cons x l ih =>
    rw [List.mapM_cons] at h
    obtain ⟨b, hb, hrest⟩ := bind_eq_ok_iff.mp h
    obtain ⟨bs, hbs, -⟩ := bind_eq_ok_iff.mp hrest
    rcases List.mem_cons.mp ha with rfl | ha
    · exact ⟨b, hb⟩
    · exact ih hbs ha

def Returns (f : Nat → Except ε α) (a : α) : Prop :=
  ∃ bound, ∀ fuel, bound ≤ fuel → f fuel = .ok a

variable {f : Nat → Except ε α}

namespace Returns

theorem of_forall {a : α} (h : ∀ fuel, f fuel = .ok a) : Returns f a :=
  ⟨0, fun fuel _ => h fuel⟩

theorem of_succ {a : α} (h : Returns (fun fuel => f (fuel + 1)) a) : Returns f a := by
  obtain ⟨bound, h⟩ := h
  refine ⟨bound + 1, fun fuel hle => ?_⟩
  obtain ⟨n, rfl⟩ : ∃ n, fuel = n + 1 := ⟨fuel - 1, by omega⟩
  exact h n (by omega)

theorem congr {g : Nat → Except ε α} {a : α} (h : Returns f a) (hfg : ∀ fuel, g fuel = f fuel) :
    Returns g a := by
  obtain ⟨bound, h⟩ := h
  exact ⟨bound, fun fuel hle => (hfg fuel).trans (h fuel hle)⟩

theorem bind {g : Nat → α → Except ε β} {a : α} {b : β} (hf : Returns f a)
    (hg : Returns (fun fuel => g fuel a) b) : Returns (fun fuel => f fuel >>= g fuel) b := by
  obtain ⟨boundF, hf⟩ := hf
  obtain ⟨boundG, hg⟩ := hg
  refine ⟨max boundF boundG, fun fuel hle => ?_⟩
  change f fuel >>= g fuel = .ok b
  rw [hf fuel (le_trans (le_max_left _ _) hle)]
  exact hg fuel (le_trans (le_max_right _ _) hle)

theorem map {g : Nat → Except ε β} {a : α} (φ : α → β) (hf : Returns f a)
    (hg : ∀ fuel, g fuel = f fuel >>= fun a => .ok (φ a)) : Returns g (φ a) :=
  (hf.bind (g := fun _ a => .ok (φ a)) (of_forall fun _ => rfl)).congr hg

end Returns

end Nerthus.Lib
