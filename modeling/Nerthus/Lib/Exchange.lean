import Nerthus.Lib.Fuel

/-!
# Parties that answer each other

A party handles its messages one after the other, and what it does with one depends
only on those before. Two parties with queues in between may run in any order, yet
what each of them handles is the beginning of one and the same list.
-/

namespace Nerthus.Lib

variable {ε σ μ : Type*}

def feed (handle : σ → μ → Except ε (σ × List μ)) : σ → List μ → Except ε (σ × List μ)
  | x, [] => .ok (x, [])
  | x, m :: ms =>
    match handle x m with
    | .error e => .error e
    | .ok (y, out) =>
      match feed handle y ms with
      | .error e => .error e
      | .ok (z, out') => .ok (z, out ++ out')

section Feed

variable {handle : σ → μ → Except ε (σ × List μ)} {x y z : σ} {m : μ} {ms ms' out out' : List μ}

@[simp] theorem feed_nil : feed handle x [] = .ok (x, []) := rfl

theorem feed_cons (hhead : handle x m = .ok (y, out)) (htail : feed handle y ms = .ok (z, out')) :
    feed handle x (m :: ms) = .ok (z, out ++ out') := by
  rw [feed, hhead]
  dsimp only
  rw [htail]

theorem feed_singleton (h : handle x m = .ok (y, out)) : feed handle x [m] = .ok (y, out) := by
  have hfeed := feed_cons h feed_nil
  rwa [List.append_nil] at hfeed

theorem feed_cons_inv (h : feed handle x (m :: ms) = .ok (z, out)) :
    ∃ y out₁ out₂, handle x m = .ok (y, out₁) ∧ feed handle y ms = .ok (z, out₂) ∧
      out = out₁ ++ out₂ := by
  rw [feed] at h
  split at h
  · cases h
  rename_i hhead
  split at h
  · cases h
  · rename_i htail
    cases h
    exact ⟨_, _, _, hhead, htail, rfl⟩

theorem feed_append (h : feed handle x ms = .ok (y, out)) (h' : feed handle y ms' = .ok (z, out')) :
    feed handle x (ms ++ ms') = .ok (z, out ++ out') := by
  induction ms generalizing x out with
  | nil =>
    cases h
    exact h'
  | cons m ms ih =>
    obtain ⟨w, out₁, out₂, hhead, htail, rfl⟩ := feed_cons_inv h
    rw [List.cons_append, List.append_assoc]
    exact feed_cons hhead (ih htail)

theorem feed_append_inv (h : feed handle x (ms ++ ms') = .ok (z, out)) :
    ∃ y out₁ out₂, feed handle x ms = .ok (y, out₁) ∧ feed handle y ms' = .ok (z, out₂) ∧
      out = out₁ ++ out₂ := by
  induction ms generalizing x out with
  | nil => exact ⟨x, [], out, rfl, h, rfl⟩
  | cons m ms ih =>
    obtain ⟨w, out₁, out₂, hhead, htail, rfl⟩ := feed_cons_inv h
    obtain ⟨y, out₃, out₄, h₃, h₄, rfl⟩ := ih htail
    exact ⟨y, out₁ ++ out₃, out₄, feed_cons hhead h₃, h₄, (List.append_assoc _ _ _).symm⟩

theorem feed_of_prefix (h : feed handle x ms = .ok (z, out)) (hpre : ms' <+: ms) :
    ∃ y out', feed handle x ms' = .ok (y, out') ∧ out' <+: out := by
  obtain ⟨rest, rfl⟩ := hpre
  obtain ⟨y, out₁, out₂, h₁, -, rfl⟩ := feed_append_inv h
  exact ⟨y, out₁, h₁, List.prefix_append _ _⟩

end Feed

section Settled

variable {ι : Type*} (opp : ι → ι) (handle : σ → μ → Except ε (σ × List μ)) (init : ι → σ)
  (first : ι → List μ)

/-- The lists `full` are all that the parties get: `first`, and what the other sends for its own. -/
def Settled (full : ι → List μ) : Prop :=
  ∀ i, ∃ y out, feed handle (init i) (full i) = .ok (y, out) ∧ full (opp i) = first (opp i) ++ out

variable {opp handle init first} {full : ι → List μ} {i : ι}

theorem Settled.sent_prefix (h : Settled opp handle init first full) {ms out : List μ} {y : σ}
    (hpre : ms <+: full i) (hfeed : feed handle (init i) ms = .ok (y, out)) :
    first (opp i) ++ out <+: full (opp i) := by
  obtain ⟨z, out', hfull, heq⟩ := h i
  obtain ⟨y', out₁, hms, hout⟩ := feed_of_prefix hfull hpre
  cases hms.symm.trans hfeed
  rw [heq]
  exact (List.prefix_append_right_inj _).mpr hout

theorem Settled.handles (h : Settled opp handle init first full) {ms out : List μ} {m : μ} {y : σ}
    (hpre : ms ++ [m] <+: full i) (hfeed : feed handle (init i) ms = .ok (y, out)) :
    ∃ z out', handle y m = .ok (z, out') ∧
      feed handle (init i) (ms ++ [m]) = .ok (z, out ++ out') := by
  obtain ⟨w, outFull, hfull, -⟩ := h i
  obtain ⟨z, out₁, hnext, -⟩ := feed_of_prefix hfull hpre
  obtain ⟨y', out₂, out₃, hms, hlast, rfl⟩ := feed_append_inv hnext
  cases hms.symm.trans hfeed
  obtain ⟨z', out₄, out₅, hm, hnil, rfl⟩ := feed_cons_inv hlast
  cases hnil
  rw [List.append_nil] at hnext
  exact ⟨z, out₄, hm, hnext⟩

end Settled

end Nerthus.Lib
