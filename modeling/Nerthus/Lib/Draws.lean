import Mathlib

/-!
# Computations that take from a pool

Computations share a pool. Each takes some of it, and is refused if there is not enough;
apart from that, what it returns does not depend on the pool.
-/

namespace Nerthus.Lib

variable {ε α β : Type}

/-- The computation needs at most `bound`, takes no more than it needs, and fails with `limit` just
if that is not there. -/
def Draws (limit : ε) (bound : Nat) (Spends : α → Nat → Prop) (f : Nat → Nat × Except ε α) : Prop :=
  ∃ need taken res, taken ≤ need ∧ need ≤ bound ∧ res ≠ .error limit ∧
    (∀ a, res = .ok a → Spends a taken) ∧
    ∀ p, f p = if p < need then (p, .error limit) else (p - taken, res)

namespace Draws

variable {limit : ε} {bound p : Nat} {Spends : α → Nat → Prop} {Spends' : β → Nat → Prop}
  {f : Nat → Nat × Except ε α} {g : Nat → Nat × Except ε β} {a : α}

theorem of_error {e : ε} (hf : ∀ p, f p = (p, .error e)) (he : e ≠ limit) :
    Draws limit bound Spends f :=
  ⟨0, 0, .error e, Nat.le_refl 0, Nat.zero_le _, fun h => he (Except.error.inj h), nofun, fun p => by
    rw [hf, if_neg (Nat.not_lt_zero p), Nat.sub_zero]⟩

section

variable (h : Draws limit bound Spends f)
include h

theorem bind (k : α → Nat × Except ε β) (hg : ∀ p, g p = match f p with
      | (p', .error e) => (p', .error e)
      | (p', .ok a) => (p' + (k a).1, (k a).2))
    (hk : ∀ a taken, Spends a taken → (k a).1 ≤ taken ∧ (k a).2 ≠ .error limit ∧
      ∀ b, (k a).2 = .ok b → Spends' b (taken - (k a).1)) : Draws limit bound Spends' g := by
  obtain ⟨need, taken, res, htaken, hneed, hres, hspends, hf⟩ := h
  cases res with
  | error e =>
    refine ⟨need, taken, .error e, htaken, hneed, fun h => hres (congrArg _ (Except.error.inj h)),
      nofun, fun p => ?_⟩
    rw [hg, hf]
    split_ifs <;> rfl
  | ok a =>
    obtain ⟨hle, hne, hok⟩ := hk a taken (hspends a rfl)
    refine ⟨need, taken - (k a).1, (k a).2, by omega, hneed, hne, hok, fun p => ?_⟩
    rw [hg, hf]
    split_ifs
    · rfl
    · exact Prod.ext (by dsimp only; omega) rfl

theorem le {p' : Nat} {r : Except ε α} (hp : f p = (p', r)) :
    p' ≤ p ∧ p - p' ≤ bound := by
  obtain ⟨need, taken, res, htaken, hneed, -, -, hf⟩ := h
  rw [hf] at hp
  split at hp <;> cases hp <;> omega

theorem spends (hok : (f p).2 = .ok a) :
    ∃ taken, (f p).1 + taken = p ∧ taken ≤ bound ∧ Spends a taken := by
  obtain ⟨need, taken, res, htaken, hneed, -, hspends, hf⟩ := h
  rw [hf] at hok ⊢
  split at hok
  · cases hok
  · next hlt =>
    rw [if_neg hlt]
    exact ⟨taken, by dsimp only; omega, Nat.le_trans htaken hneed, hspends a hok⟩

theorem lt (hlimit : (f p).2 = .error limit) : p < bound := by
  obtain ⟨need, taken, res, -, hneed, hres, -, hf⟩ := h
  rw [hf] at hlimit
  split at hlimit
  · omega
  · exact absurd hlimit hres

theorem add (k : Nat) (hlimit : (f p).2 ≠ .error limit) :
    f (p + k) = ((f p).1 + k, (f p).2) := by
  obtain ⟨need, taken, res, htaken, -, -, -, hf⟩ := h
  rw [hf p] at hlimit ⊢
  split at hlimit
  · exact absurd rfl hlimit
  · next hlt =>
    rw [hf, if_neg hlt, if_neg (by omega)]
    exact Prod.ext (by dsimp only; omega) rfl

end

end Draws

/-- The result says how much is `used`; the rest is lost, if the computation is not `Exact` on the
pool. -/
structure Drains (limit : ε) (Exact : Nat → Prop) (bound : Nat) (used : α → Nat)
    (f : Nat → Nat × Except ε α) : Prop where
  le : ∀ p, (f p).1 ≤ p
  lt : ∀ p, Exact p → (f p).2 = .error limit → p < bound
  spends : ∀ p a, (f p).2 = .ok a →
    (f p).1 + used a ≤ p ∧ ((f p).1 + used a = p ↔ Exact p) ∧
      ∀ k, f (p + k) = ((f p).1 + k, .ok a)

variable {limit : ε} {Exact : Nat → Prop} {bound : Nat} {used : α → Nat}
  {f : Nat → Nat × Except ε α}

theorem Draws.drains {Spends : α → Nat → Prop} (h : Draws limit bound Spends f)
    (hused : ∀ a taken, Spends a taken → used a ≤ taken ∧ ∀ p, used a = taken ↔ Exact p) :
    Drains limit Exact bound used f := by
  refine ⟨fun p => (h.le rfl).1, fun p _ => h.lt, fun p a hok => ?_⟩
  obtain ⟨taken, hp, -, hspends⟩ := h.spends hok
  obtain ⟨hle, hexact⟩ := hused a taken hspends
  refine ⟨by omega, ?_, fun k => ?_⟩
  · rw [← hexact p]
    omega
  · rw [h.add k (by rw [hok]; nofun), hok]

namespace Drains

theorem of_pure {r : Except ε α} (hr : r ≠ .error limit)
    (hused : ∀ a, r = .ok a → used a = 0 ∧ ∀ p, Exact p) (hf : ∀ p, f p = (p, r)) :
    Drains limit Exact bound used f := by
  obtain rfl : f = fun p => (p, r) := funext hf
  refine ⟨fun _ => Nat.le_refl _, fun _ _ h => absurd h hr, fun p a hok => ?_⟩
  obtain rfl : r = .ok a := hok
  rw [(hused a rfl).1]
  exact ⟨Nat.le_refl _, iff_of_true rfl ((hused a rfl).2 p), fun _ => rfl⟩

theorem of_error {e : ε} (hf : ∀ p, f p = (p, .error e)) (he : e ≠ limit) :
    Drains limit Exact bound used f :=
  of_pure (fun h => he (Except.error.inj h)) nofun hf

theorem map {used' : β → Nat} (h : Drains limit Exact bound used f) (φ : α → β)
    {g : Nat → Nat × Except ε β} (hused : ∀ a, used' (φ a) = used a)
    (hg : ∀ p, g p = ((f p).1, (f p).2.map φ)) : Drains limit Exact bound used' g := by
  refine ⟨fun p => ?_, fun p he hlimit => ?_, fun p b hok => ?_⟩
  · rw [hg]
    exact h.le p
  · rw [hg] at hlimit
    refine h.lt p he ?_
    cases hres : (f p).2 with
    | error e => rw [hres] at hlimit; exact congrArg _ (Except.error.inj hlimit)
    | ok a => rw [hres] at hlimit; cases hlimit
  · rw [hg] at hok
    cases hres : (f p).2 with
    | error e => rw [hres] at hok; cases hok
    | ok a =>
      rw [hres] at hok
      cases hok
      obtain ⟨hle, hexact', hadd⟩ := h.spends p a hres
      simp only [hg, hused, hadd]
      exact ⟨hle, hexact', fun _ => rfl⟩

end Drains

end Nerthus.Lib
