import Nerthus.Sc.StateSet

/-!
# A set over whole runs

The length of a set, the value at a position and the position of a value are cells of their own.
Over every run of operations they are a list without repetitions, and nothing is left in them
behind its end.
-/

namespace Nerthus.Sc

open Function (update update_apply)
open Lib.IndexedSet (Faithful)
open List

/-- The loop of `ClearSet`, for as many turns as the set has members when it starts. -/
def clearLoop : Nat → StateSet → StateSet
  | 0, s => s
  | n + 1, s => if 0 < s.length then clearLoop n (s.remove (s.length - 1)) else s

def clearSet (s : StateSet) : StateSet := clearLoop s.length s

structure Holds (t : StateSet) (xs : List Hash) : Prop where
  faithful : Faithful t
  length : t.length = xs.length
  value : ∀ i, t.value i = xs[i]?.getD Hash.zero

variable {t : StateSet} {xs : List Hash}

namespace Holds

theorem getElem?_eq_some_iff (h : Holds t xs) {i : Nat} {v : Hash} :
    xs[i]? = some v ↔ i < t.length ∧ t.value i = v := by
  rw [h.value, h.length, List.getElem?_eq_some_iff]
  constructor
  · rintro ⟨hi, rfl⟩
    exact ⟨hi, by simp [hi]⟩
  · rintro ⟨hi, rfl⟩
    exact ⟨hi, by simp [hi]⟩

theorem toList (h : Holds t xs) : t.toList = xs := by
  refine ext_getElem? fun i => Option.ext fun v => ?_
  rw [h.getElem?_eq_some_iff, List.getElem?_eq_some_iff]
  simp

theorem add (h : Holds t xs) {v : Hash} (hv : v ∉ xs) : Holds (t.add v) (xs ++ [v]) where
  faithful := StateSet.faithful_add h.faithful (h.toList ▸ hv)
  length := by rw [StateSet.length_add, h.length, length_append, length_singleton]
  value i := by
    change update t.value t.length v i = _
    rw [update_apply, h.value, h.length]
    rcases Nat.lt_trichotomy i xs.length with hi | rfl | hi
    · rw [if_neg (by omega), getElem?_append_left hi]
    · simp
    · rw [if_neg (by omega), getElem?_eq_none (by omega), getElem?_eq_none (by simp; omega)]

theorem remove (h : Holds t xs) {index : Nat} (hindex : index < xs.length) :
    Holds (t.remove index) (xs.set index (xs[xs.length - 1]?.getD Hash.zero)).dropLast where
  faithful := StateSet.faithful_remove h.faithful (h.length ▸ hindex)
  length := by
    rw [StateSet.remove_eq (h.length ▸ hindex), length_dropLast, length_set, ← h.length]
    split <;> rfl
  value i := by
    have hvalue : (t.remove index).value i = if i = xs.length - 1 then Hash.zero
        else if i = index then t.value (xs.length - 1) else t.value i := by
      rw [StateSet.remove_eq (h.length ▸ hindex), h.length]
      split
      · next hlast =>
        simp only [Lib.IndexedSet.clear, Lib.IndexedSet.setLength, update_apply]
        split_ifs <;> first | rfl | omega
      · simp [Lib.IndexedSet.clear, Lib.IndexedSet.setLength, Lib.IndexedSet.update,
          update_apply]
    rw [hvalue, getElem?_dropLast, length_set, getElem?_set, h.value, h.value]
    rcases Nat.lt_trichotomy i (xs.length - 1) with hi | rfl | hi
    · rw [if_neg (by omega), if_pos hi]
      by_cases hii : i = index
      · rw [if_pos hii, if_pos hii.symm, if_pos (by omega)]
        rfl
      · rw [if_neg hii, if_neg (Ne.symm hii)]
    · rw [if_pos rfl, if_neg (Nat.lt_irrefl _)]
      rfl
    · rw [if_neg (by omega), if_neg (by omega), if_neg (by omega), getElem?_eq_none (by omega)]

theorem removeOrder (h : Holds t xs) {index : Nat} (hindex : index < xs.length) :
    Holds (t.removeOrder index) (xs.eraseIdx index) where
  faithful := StateSet.faithful_removeOrder h.faithful (h.length ▸ hindex)
  length := by
    rw [StateSet.length_removeOrder h.faithful (h.length ▸ hindex), h.length,
      length_eraseIdx_of_lt hindex]
  value i := by
    obtain ⟨u, hgap, hlast, heq⟩ := StateSet.removeOrder_eq h.faithful (h.length ▸ hindex)
    rw [heq, getElem?_eraseIdx]
    change u.value i = _
    rw [h.length] at hgap hlast
    by_cases hi : i < index
    · rw [if_pos hi, hgap.before i hi, h.value]
    · rw [if_neg hi, ← h.value]
      rcases Nat.lt_trichotomy (i + 1) xs.length with hlt | heq | hgt
      · exact hgap.moved i (by omega) hlt
      · rw [show i = xs.length - 1 by omega, hlast, h.value,
          getElem?_eq_none (by omega)]
        rfl
      · rw [hgap.behind i (by omega), h.value, h.value, getElem?_eq_none (by omega),
          getElem?_eq_none (by omega)]

end Holds

inductive SetOp where
  | add (v : Hash)
  | remove (index : Nat)
  | removeOrder (index : Nat)
  | clearSet
deriving DecidableEq

def SetOp.exec (s : StateSet) : SetOp → StateSet
  | .add v => s.add v
  | .remove index => s.remove index
  | .removeOrder index => s.removeOrder index
  | .clearSet => Sc.clearSet s

/-- The last member takes the place of a removed one, or the order of the others stays. -/
def SetOp.apply (xs : List Hash) : SetOp → List Hash
  | .add v => xs ++ [v]
  | .remove index =>
    if index < xs.length then (xs.set index (xs[xs.length - 1]?.getD Hash.zero)).dropLast else xs
  | .removeOrder index => xs.eraseIdx index
  | .clearSet => []

def Fresh : List Hash → List SetOp → Prop
  | _, [] => True
  | xs, op :: ops => (∀ v, op = .add v → v ∉ xs) ∧ Fresh (op.apply xs) ops

theorem Holds.clearLoop {n : Nat} (h : Holds t xs) (hn : xs.length = n) :
    Holds (Sc.clearLoop n t) [] := by
  induction n generalizing t xs with
  | zero => rwa [length_eq_zero_iff.mp hn] at h
  | succ n ih =>
    have hlength : t.length = n + 1 := h.length.trans hn
    rw [Sc.clearLoop, hlength, if_pos (Nat.succ_pos n)]
    exact ih (h.remove (show n < xs.length by omega)) (by simp [hn])

theorem Holds.exec (h : Holds t xs) {op : SetOp} (hop : ∀ v, op = .add v → v ∉ xs) :
    Holds (op.exec t) (op.apply xs) := by
  cases op with
  | add v => exact h.add (hop v rfl)
  | remove index =>
    rw [SetOp.exec, SetOp.apply]
    split
    · next hindex => exact h.remove hindex
    · rwa [StateSet.remove, if_pos (.inr (by rw [h.length]; omega))]
  | removeOrder index =>
    rw [SetOp.exec, SetOp.apply]
    by_cases hindex : index < xs.length
    · exact h.removeOrder hindex
    · rwa [eraseIdx_of_length_le (by omega), StateSet.removeOrder,
        if_pos (.inr (by rw [h.length]; omega))]
  | clearSet => exact h.clearLoop h.length.symm

theorem Holds.foldl {ops : List SetOp} (h : Holds t xs) (hops : Fresh xs ops) :
    Holds (ops.foldl SetOp.exec t) (ops.foldl SetOp.apply xs) := by
  induction ops generalizing t xs with
  | nil => exact h
  | cons op ops ih => exact ih (h.exec hops.1) hops.2

/-- No key of the set holds a value. -/
structure Blank (s : StateSet) : Prop where
  length : s.length = 0
  value : ∀ i, s.value i = Hash.zero
  index : ∀ v, s.index v = 0

/-- After every run a set is a list without repetitions, with nothing behind the end and nothing at
all when it is empty. -/
theorem set_refines_list (s : StateSet) (hs : Blank s) (ops : List SetOp) (hops : Fresh [] ops) :
    let s' := ops.foldl SetOp.exec s
    let xs := ops.foldl SetOp.apply []
    xs.Nodup ∧ s'.length = xs.length ∧ (∀ i, s'.value i = xs[i]?.getD Hash.zero) ∧
      (∀ v i, s'.exist v = some i ↔ xs[i]? = some v) ∧ (xs = [] → Blank s') := by
  intro s' xs
  have hempty : Holds s [] :=
    ⟨Lib.IndexedSet.faithful_of_blank hs.length hs.index, hs.length, hs.value⟩
  have h : Holds s' xs := hempty.foldl hops
  refine ⟨h.toList ▸ h.faithful.nodup, h.length, h.value, fun v i => ?_, fun hxs => ?_⟩
  · rw [StateSet.exist_eq_some_iff h.faithful, h.getElem?_eq_some_iff]
  · rw [hxs] at h
    exact ⟨h.length, h.value, fun v => h.faithful.not_mem_iff.mp (by simp [h.toList])⟩

theorem set_refines_list_moved :
    let ops := [.add ⟨5⟩, .add ⟨6⟩, .add ⟨7⟩, .remove 0]
    Fresh [] ops ∧ (ops.foldl SetOp.exec ⟨0, fun _ => Hash.zero, fun _ => 0⟩).exist ⟨7⟩ = some 0 := by
  have hfresh : Fresh [] [.add ⟨5⟩, .add ⟨6⟩, .add ⟨7⟩, .remove 0] := by simp [Fresh, SetOp.apply]
  have hblank : Blank ⟨0, fun _ => Hash.zero, fun _ => 0⟩ := ⟨rfl, fun _ => rfl, fun _ => rfl⟩
  exact ⟨hfresh, ((set_refines_list _ hblank _ hfresh).2.2.2.1 ⟨7⟩ 0).mpr rfl⟩

end Nerthus.Sc
