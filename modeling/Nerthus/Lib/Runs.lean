import Mathlib

/-!
# Runs of a system

A system is given by what an event does in a state, where it can happen. Events
of several parties that happen one after the other, in any order, are a run.
-/

namespace Nerthus.Lib

variable {σ ε : Type} {step : σ → ε → Option σ} {ok : σ → ε → Prop} {s s' : σ}

inductive Reaches (step : σ → ε → Option σ) (ok : σ → ε → Prop) (s : σ) : σ → Prop where
  | refl : Reaches step ok s s
  | tail {t u : σ} {e : ε} (run : Reaches step ok s t) (meets : ok t e)
      (happens : step t e = some u) : Reaches step ok s u

/-- The state after the events, if each of them meets the condition and happens. -/
def run (step : σ → ε → Option σ) (ok : σ → ε → Prop) [∀ s e, Decidable (ok s e)] :
    σ → List ε → Option σ
  | s, [] => some s
  | s, e :: events => if ok s e then (step s e).bind fun t => run step ok t events else none

namespace Reaches

theorem invariant {P : σ → Prop} (h : Reaches step ok s s') (hinit : P s)
    (hstep : ∀ t e u, P t → ok t e → step t e = some u → P u) : P s' := by
  induction h with
  | refl => exact hinit
  | tail _ meets happens ih => exact hstep _ _ _ ih meets happens

theorem mono {ok' : σ → ε → Prop} (h : Reaches step ok s s') (himp : ∀ t e, ok t e → ok' t e) :
    Reaches step ok' s s' :=
  h.invariant .refl fun _ _ _ ht hok hstep => ht.tail (himp _ _ hok) hstep

theorem trans {t : σ} (h : Reaches step ok s t) (h' : Reaches step ok t s') :
    Reaches step ok s s' :=
  h'.invariant h fun _ _ _ ht hok hstep => ht.tail hok hstep

variable [∀ s e, Decidable (ok s e)]

theorem of_run (events : List ε) (h : run step ok s events = some s') : Reaches step ok s s' := by
  induction events generalizing s with
  | nil =>
    cases h
    exact .refl
  | cons e events ih =>
    rw [run] at h
    split at h
    · next hok =>
      obtain ⟨t, hstep, hrest⟩ := Option.bind_eq_some_iff.mp h
      exact (Reaches.refl.tail hok hstep).trans (ih hrest)
    · cases h

theorem exists_of_run (events : List ε) {P : σ → Prop} [DecidablePred P]
    (h : (run step ok s events).any (fun t => P t) = true) : ∃ t, Reaches step ok s t ∧ P t := by
  cases hrun : run step ok s events with
  | none =>
    rw [hrun] at h
    cases h
  | some t =>
    rw [hrun] at h
    exact ⟨t, of_run events hrun, of_decide_eq_true h⟩

end Reaches

end Nerthus.Lib
