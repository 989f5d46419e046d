import Nerthus.Bft.Types
import Nerthus.Lib.Keyed
import Nerthus.Lib.Runs

/-!
# The timeouts of the chains

`timerSchedule` of `consensus/bft/backend/schedule.go`. The engines store the view they wait in,
while `loop` goes over the views whose deadline has passed. It deletes by chain what it has
passed on, so that a view stored in the meantime goes with it.
-/

namespace Nerthus.Bft

open Lib Lib.Keyed

/-- A stored view. Every call of `setTimeout` makes a new one; `ptr` tells them apart. -/
structure TimerTask extends RoundView where
  ptr : Nat
  chain : Address
deriving DecidableEq

/-- `timerSchedule`, with the pass that `loop` is in. -/
structure TimerSchedule where
  tasks : Keyed TimerTask.chain
  /-- What is left of `needDo`. -/
  needDo : List TimerTask
  /-- `doFunc` was called for the first of them. -/
  called : Bool
deriving DecidableEq

inductive TimerEvent where
  | setTimeout (chain : Address) (view : RoundView)
  | stopTimer (mc : Address)
  /-- A pass begins: `Range` finds the views that are overdue, in any order. -/
  | scan (now : Nat) (found : List TimerTask)
  | doFunc
  | delete
deriving DecidableEq

structure Timeouts extends TimerSchedule where
  made : Nat
  /-- The views that were neither replaced nor removed nor passed to `doFunc`. -/
  owed : Keyed TimerTask.chain
  /-- Those that were overdue when the last pass began. -/
  due : List TimerTask
  /-- What was passed to `doFunc`. -/
  passed : List TimerTask
deriving DecidableEq

namespace Timeouts

def start : Timeouts := ⟨⟨.empty, [], false⟩, 0, .empty, [], []⟩

def step (s : Timeouts) : TimerEvent → Option Timeouts
  | .setTimeout chain view =>
    let task : TimerTask := ⟨view, s.made, chain⟩
    some { s with tasks := s.tasks.put task, made := s.made + 1, owed := s.owed.put task }
  | .stopTimer mc => some { s with tasks := s.tasks.erase mc, owed := s.owed.erase mc }
  | .scan now found =>
    if s.needDo = [] ∧ found.Perm (s.tasks.values.filter fun rv => rv.deadLine < now) then
      some { s with needDo := found, due := s.owed.values.filter fun rv => rv.deadLine < now }
    else none
  | .doFunc =>
    match s.needDo, s.called with
    | rv :: _, false =>
      some { s with called := true, passed := rv :: s.passed, owed := s.owed.filter (· ≠ rv) }
    | _, _ => none
  | .delete =>
    match s.needDo, s.called with
    | rv :: rest, true =>
      some { s with tasks := s.tasks.erase rv.chain, needDo := rest, called := false }
    | _, _ => none

/-- `SetTimeout` is called for no chain that the pass has yet to delete. -/
def Unhindered (s : Timeouts) : TimerEvent → Prop
  | .setTimeout chain _ => ∀ rv ∈ s.needDo, rv.chain ≠ chain
  | _ => True

instance (s : Timeouts) (e : TimerEvent) : Decidable (s.Unhindered e) := by
  cases e <;> unfold Unhindered <;> infer_instance

def NoneLost (s : Timeouts) : Prop := s.needDo = [] → ∀ rv ∈ s.due, rv ∉ s.owed.values
deriving Decidable

structure Once (s : Timeouts) : Prop where
  made : ∀ rv, rv ∈ s.tasks.values ∨ rv ∈ s.needDo ∨ rv ∈ s.passed → rv.ptr < s.made
  chains : (s.needDo.map TimerTask.chain).Nodup
  pending : ∀ rv ∈ s.passed, rv ∈ s.tasks.values ∨ rv ∈ s.needDo →
    s.called = true ∧ s.needDo.head? = some rv
  nodup : s.passed.Nodup

/-- A view that is owed is in the table, and a pass comes to it if it was overdue. -/
structure Kept (s : Timeouts) : Prop where
  stored : ∀ rv ∈ s.owed.values, rv ∈ s.tasks.values
  doing : ∀ rv ∈ s.due, rv ∈ s.owed.values → rv ∈ s.needDo
  single : ∀ rv ∈ s.needDo, ∀ w ∈ s.owed.values, w.chain = rv.chain → w = rv
  called : s.called = true → ∀ rv ∈ s.needDo.head?, rv ∉ s.owed.values
  idle : s.needDo = [] → s.called = false
  old : ∀ rv, rv ∈ s.owed.values ∨ rv ∈ s.due → rv.ptr < s.made

variable {s s' : Timeouts} {e : TimerEvent}

theorem Once.step (h : Once s) (hstep : s.step e = some s') : Once s' := by
  cases e with
  | setTimeout chain view =>
    cases hstep
    refine ⟨fun rv hrv => ?_, h.chains, fun rv hpassed hrv => ?_, h.nodup⟩
    · dsimp only at hrv ⊢
      rw [mem_put] at hrv
      rcases hrv with (rfl | hrv) | hrv
      · exact Nat.lt_succ_self _
      · have := h.made rv (.inl hrv.1)
        omega
      · have := h.made rv (.inr hrv)
        omega
    · have hptr := h.made rv (.inr (.inr hpassed))
      rw [mem_put] at hrv
      rcases hrv with (rfl | hrv) | hrv
      · exact absurd hptr (Nat.lt_irrefl _)
      · exact h.pending rv hpassed (.inl hrv.1)
      · exact h.pending rv hpassed (.inr hrv)
  | stopTimer mc =>
    cases hstep
    refine ⟨fun rv hrv => h.made rv ?_, h.chains, fun rv hpassed hrv => h.pending rv hpassed ?_,
      h.nodup⟩
    · exact hrv.imp_left fun hrv => (mem_erase.mp hrv).1
    · exact hrv.imp_left fun hrv => (mem_erase.mp hrv).1
  | scan now found =>
    rw [Timeouts.step] at hstep
    split at hstep
    · next hscan =>
      cases hstep
      obtain ⟨hidle, hperm⟩ := hscan
      have hfound : ∀ rv ∈ found, rv ∈ s.tasks.values := fun rv hrv =>
        (List.mem_filter.mp (hperm.mem_iff.mp hrv)).1
      -- nothing in the table was passed on, since no pass is under way
      have hnew : ∀ rv ∈ s.passed, rv ∉ s.tasks.values := by
        intro rv hpassed hrv
        have hhead := (h.pending rv hpassed (.inl hrv)).2
        rw [hidle] at hhead
        cases hhead
      refine ⟨fun rv hrv => h.made rv ?_, ?_, fun rv hpassed hrv => ?_, h.nodup⟩
      · rcases hrv with hrv | hrv | hrv
        · exact .inl hrv
        · exact .inl (hfound rv hrv)
        · exact .inr (.inr hrv)
      · exact (hperm.map _).nodup_iff.mpr (s.tasks.filter _).nodup
      · exact absurd (hrv.elim id (hfound rv)) (hnew rv hpassed)
    · cases hstep
  | doFunc =>
    rw [Timeouts.step] at hstep
    split at hstep
    · next first rest hneed hcalled =>
      cases hstep
      have hfirst : first ∉ s.passed := by
        intro hpassed
        have := (h.pending first hpassed (.inr (by rw [hneed]; exact .head _))).1
        rw [hcalled] at this
        cases this
      refine ⟨fun rv hrv => ?_, h.chains, fun rv hpassed hrv => ?_, ?_⟩
      · dsimp only at hrv ⊢
        rw [List.mem_cons] at hrv
        rcases hrv with hrv | hrv | rfl | hrv
        · exact h.made rv (.inl hrv)
        · exact h.made rv (.inr (.inl hrv))
        · exact h.made rv (.inr (.inl (by rw [hneed]; exact .head _)))
        · exact h.made rv (.inr (.inr hrv))
      · rcases List.mem_cons.mp hpassed with rfl | hpassed
        · exact ⟨rfl, by rw [hneed]; rfl⟩
        · exact ⟨rfl, (h.pending rv hpassed hrv).2⟩
      · exact List.nodup_cons.mpr ⟨hfirst, h.nodup⟩
    · cases hstep
  | delete =>
    rw [Timeouts.step] at hstep
    split at hstep
    · next first rest hneed hcalled =>
      cases hstep
      have hchains := h.chains
      rw [hneed, List.map_cons, List.nodup_cons] at hchains
      have hrest : ∀ rv ∈ rest, rv ∈ s.needDo := by
        rw [hneed]
        exact fun rv hrv => .tail _ hrv
      refine ⟨fun rv hrv => h.made rv ?_, hchains.2, fun rv hpassed hrv => ?_, h.nodup⟩
      · rcases hrv with hrv | hrv | hrv
        · exact .inl (mem_erase.mp hrv).1
        · exact .inr (.inl (hrest rv hrv))
        · exact .inr (.inr hrv)
      · -- only the view that is deleted was passed on
        have hfirst : rv = first := by
          have hhead := (h.pending rv hpassed (hrv.imp (fun hrv => (mem_erase.mp hrv).1)
            (hrest rv))).2
          rw [hneed] at hhead
          exact (Option.some.inj hhead).symm
        rw [hfirst] at hrv
        rcases hrv with hrv | hrv
        · exact absurd rfl (mem_erase.mp hrv).2
        · exact absurd (List.mem_map_of_mem hrv) hchains.1
    · cases hstep

theorem Kept.step (h : Kept s) (hok : s.Unhindered e) (hstep : s.step e = some s') : Kept s' := by
  cases e with
  | setTimeout chain view =>
    cases hstep
    refine ⟨fun rv hrv => ?_, fun rv hdue hrv => ?_, fun rv hdo w hw hchain => ?_,
      fun hcalled rv hhead hrv => ?_, h.idle, fun rv hrv => ?_⟩
    · dsimp only at hrv ⊢
      rw [mem_put] at hrv ⊢
      exact hrv.imp_right fun hrv => ⟨h.stored rv hrv.1, hrv.2⟩
    · rcases mem_put.mp hrv with rfl | hrv
      · exact absurd (h.old _ (.inr hdue)) (Nat.lt_irrefl _)
      · exact h.doing rv hdue hrv.1
    · rcases mem_put.mp hw with rfl | hw
      · exact absurd hchain.symm (hok rv hdo)
      · exact h.single rv hdo w hw.1 hchain
    · rcases mem_put.mp hrv with rfl | hrv
      · exact hok _ (List.mem_of_mem_head? hhead) rfl
      · exact h.called hcalled rv hhead hrv.1
    · dsimp only at hrv ⊢
      rw [mem_put] at hrv
      rcases hrv with (rfl | hrv) | hrv
      · exact Nat.lt_succ_self _
      · exact Nat.lt_succ_of_lt (h.old rv (.inl hrv.1))
      · exact Nat.lt_succ_of_lt (h.old rv (.inr hrv))
  | stopTimer mc =>
    cases hstep
    refine ⟨fun rv hrv => ?_, fun rv hdue hrv => h.doing rv hdue (mem_erase.mp hrv).1,
      fun rv hdo w hw => h.single rv hdo w (mem_erase.mp hw).1,
      fun hcalled rv hhead hrv => h.called hcalled rv hhead (mem_erase.mp hrv).1, h.idle,
      fun rv hrv => h.old rv (hrv.imp_left fun hrv => (mem_erase.mp hrv).1)⟩
    rw [mem_erase] at hrv ⊢
    exact ⟨h.stored rv hrv.1, hrv.2⟩
  | scan now found =>
    rw [Timeouts.step] at hstep
    split at hstep
    · next hscan =>
      cases hstep
      obtain ⟨hidle, hperm⟩ := hscan
      have hfound : ∀ rv, rv ∈ found ↔ rv ∈ s.tasks.values ∧ rv.deadLine < now := fun rv => by
        rw [hperm.mem_iff, List.mem_filter, decide_eq_true_iff]
      refine ⟨h.stored, fun rv hdue hrv => ?_, fun rv hdo w hw hchain => ?_, fun hcalled => ?_,
        fun _ => h.idle hidle, fun rv hrv => h.old rv (.inl ?_)⟩
      · rw [List.mem_filter, decide_eq_true_iff] at hdue
        exact (hfound rv).mpr ⟨h.stored rv hrv, hdue.2⟩
      · exact List.inj_on_of_nodup_map s.tasks.nodup (h.stored w hw) ((hfound rv).mp hdo).1 hchain
      · rw [h.idle hidle] at hcalled
        cases hcalled
      · exact hrv.elim id fun hdue => (List.mem_filter.mp hdue).1
    · cases hstep
  | doFunc =>
    rw [Timeouts.step] at hstep
    split at hstep
    · next first rest hneed hcalled =>
      cases hstep
      refine ⟨fun rv hrv => h.stored rv (mem_filter.mp hrv).1,
        fun rv hdue hrv => h.doing rv hdue (mem_filter.mp hrv).1,
        fun rv hdo w hw => h.single rv hdo w (mem_filter.mp hw).1, fun _ rv hhead hrv => ?_,
        fun hidle => ?_, fun rv hrv => h.old rv (hrv.imp_left fun hrv => (mem_filter.mp hrv).1)⟩
      · rw [hneed] at hhead
        cases hhead
        simpa using (mem_filter.mp hrv).2
      · rw [hneed] at hidle
        cases hidle
    · cases hstep
  | delete =>
    rw [Timeouts.step] at hstep
    split at hstep
    · next first rest hneed hcalled =>
      cases hstep
      have hfirst : first ∉ s.owed.values := h.called hcalled first (by rw [hneed]; rfl)
      refine ⟨fun rv hrv => ?_, fun rv hdue hrv => ?_, fun rv hdo => ?_, nofun, fun _ => rfl,
        h.old⟩
      · refine mem_erase.mpr ⟨h.stored rv hrv, fun hchain => hfirst ?_⟩
        rw [← h.single first (by rw [hneed]; exact .head _) rv hrv hchain]
        exact hrv
      · have hdo := h.doing rv hdue hrv
        rw [hneed, List.mem_cons] at hdo
        rcases hdo with rfl | hdo
        · exact absurd hrv hfirst
        · exact hdo
      · exact h.single rv (by rw [hneed]; exact .tail _ hdo)
    · cases hstep

theorem Once.start : Once .start := ⟨nofun, .nil, nofun, .nil⟩

theorem Kept.start : Kept .start := ⟨nofun, nofun, nofun, nofun, fun _ => rfl, nofun⟩

theorem pass_goes_on (hneed : s.needDo ≠ []) :
    (s.step .doFunc).isSome = true ∨ (s.step .delete).isSome = true := by
  obtain ⟨first, rest, hcons⟩ := List.exists_cons_of_ne_nil hneed
  simp only [step, hcons]
  cases s.called with
  | false => exact .inl rfl
  | true => exact .inr rfl

/-- No view is passed on twice, and none lost unless `SetTimeout` is called for a chain that the
pass has yet to delete. -/
theorem timeout_passed_once (s : Timeouts) (h : Reaches step (fun _ _ => True) start s) :
    s.passed.Nodup ∧ (s.needDo ≠ [] →
        (s.step .doFunc).isSome = true ∨ (s.step .delete).isSome = true) ∧
      (Reaches step Unhindered start s → s.NoneLost) := by
  refine ⟨?_, pass_goes_on, fun hunhindered hidle rv hdue hrv => ?_⟩
  · exact (h.invariant Once.start fun _ _ _ ht _ hstep => ht.step hstep).nodup
  · have hkept := hunhindered.invariant Kept.start fun _ _ _ ht hok hstep => ht.step hok hstep
    have hdo := hkept.doing rv hdue hrv
    rw [hidle] at hdo
    cases hdo

def twoPasses : List TimerEvent :=
  [.setTimeout ⟨7⟩ ⟨0, 3, 5⟩, .scan 6 [⟨⟨0, 3, 5⟩, 0, ⟨7⟩⟩], .doFunc, .delete,
    .setTimeout ⟨7⟩ ⟨1, 3, 20⟩, .scan 21 [⟨⟨1, 3, 20⟩, 1, ⟨7⟩⟩], .doFunc, .delete]

theorem answered_after_pass : ∃ s, run step Unhindered start twoPasses = some s ∧
    s.passed.length = 2 ∧ s.passed.Nodup ∧ s.NoneLost := by
  obtain ⟨s, hrun, hlength⟩ : ∃ s, run step Unhindered start twoPasses = some s ∧
    s.passed.length = 2 := ⟨_, rfl, rfl⟩
  have hreach := Reaches.of_run twoPasses hrun
  have hkept := timeout_passed_once s (hreach.mono fun _ _ _ => trivial)
  exact ⟨s, hrun, hlength, hkept.1, hkept.2.2 hreach⟩

/-- The engine answers before the pass has deleted the entry: nothing is left for the next pass. -/
theorem next_timeout_lost : ∃ s, Reaches step (fun _ _ => True) start s ∧ ¬s.NoneLost :=
  Reaches.exists_of_run [.setTimeout ⟨7⟩ ⟨0, 3, 5⟩, .scan 6 [⟨⟨0, 3, 5⟩, 0, ⟨7⟩⟩], .doFunc,
    .setTimeout ⟨7⟩ ⟨1, 3, 20⟩, .delete, .scan 21 []] (by decide)

end Timeouts

end Nerthus.Bft
