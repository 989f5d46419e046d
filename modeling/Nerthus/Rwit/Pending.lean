import Nerthus.Rwit.Starvation

/-!
# The store of the waiting chains

`PendingChainSet` against a map from chains to the newest request. `AddWithValue` leaves
the value of a key that is there, so a chain keeps the first request since it was deleted.
-/

namespace Nerthus.Rwit

open Core (UnitID)
open Ntsdb (DataSet)
open PendingChainSet List Function

inductive StoreOp where
  | add (chain : Address) (unitID : UnitID)
  | del (chain : Address)
deriving DecidableEq

namespace StoreOp

def chain : StoreOp → Address
  | add chain _ => chain
  | del chain => chain

def apply (pc : PendingChainSet) : StoreOp → PendingChainSet
  | add chain unitID => pc.add chain unitID
  | del chain => pc.del chain

def run (ops : List StoreOp) : PendingChainSet := ops.foldl apply .empty

def note (chain : Address) (units : List UnitID) : StoreOp → List UnitID
  | add c unitID => if c = chain then units ++ [unitID] else units
  | del c => if c = chain then [] else units

/-- The units that were added since the last `Del` of the chain. -/
def added (ops : List StoreOp) (chain : Address) : List UnitID := ops.foldl (note chain) []

end StoreOp

namespace PendingChainSet

def noteEntry (chain : Address) (w : PendingChainSet × List PendingChain) :
    Bool × PendingChainSet × List PendingChain :=
  match w.1.get chain with
  | none => (false, w)
  | some info => (true, w.1, w.2 ++ [info])

def visited (pc : PendingChainSet) : List PendingChain :=
  (DataSet.range Prod.fst noteEntry (pc, [])).2

end PendingChainSet

/-- The entry is one of the units with the greatest height. -/
def Newest (chain : Address) (units : List UnitID) : Option PendingChain → Prop
  | none => units = []
  | some info => ∃ u ∈ units, info = entryOf chain u ∧ ∀ v ∈ units, v.height ≤ u.height

structure IsMap (ops : List StoreOp) : Prop where
  newest : ∀ chain, Newest chain (StoreOp.added ops chain) ((StoreOp.run ops).get chain)
  once : ((StoreOp.run ops).visited.map PendingChain.chain).Nodup
  all : ∀ info, info ∈ (StoreOp.run ops).visited ↔ (StoreOp.run ops).get info.chain = some info
  frame : ∀ op : StoreOp, ∀ chain ≠ op.chain,
    (op.apply (StoreOp.run ops)).get chain = (StoreOp.run ops).get chain

theorem visited_eq {pc : PendingChainSet} {l : List PendingChain} (h : pc.Holds l) :
    pc.visited = l := by
  have hfrom : ∀ n pre ahead acc, l = pre ++ ahead → ahead.length ≤ n →
      (DataSet.rangeFrom Prod.fst noteEntry n pre.length (pc, acc)).2 = acc ++ ahead := by
    intro n
    induction n with
    | zero =>
      intro pre ahead acc _ hn
      rw [length_eq_zero_iff.mp (Nat.le_zero.mp hn), append_nil]
      rfl
    | succ n ih =>
      rintro pre (_ | ⟨info, ahead⟩) acc hl hn
      · rw [DataSet.rangeFrom, h.key, hl]
        simp
      · have hrest := ih (pre ++ [info]) ahead (acc ++ [info]) (by simp [hl]) (Nat.le_of_succ_le_succ hn)
        have hentry := h.entry info (by simp [hl])
        rw [DataSet.rangeFrom, h.key, hl]
        simpa [noteEntry, hentry] using hrest
  exact hfrom _ [] l [] rfl h.len_eq.ge

namespace StoreOp

variable {ops : List StoreOp} {chain : Address}

theorem run_append (ops : List StoreOp) (op : StoreOp) : run (ops ++ [op]) = op.apply (run ops) := by
  rw [run, foldl_append]
  rfl

theorem run_wellFormed (ops : List StoreOp) : (run ops).WellFormed := by
  induction ops using reverseRecOn with
  | nil => exact DataSet.wellFormed_empty
  | append_singleton ops op ih =>
    rw [run_append]
    cases op with
    | add chain unitID => exact add_wellFormed ih chain unitID
    | del chain => exact ih.remove chain

theorem get_run (ops : List StoreOp) (chain : Address) :
    (run ops).get chain = (added ops chain).head?.map (entryOf chain) := by
  induction ops using reverseRecOn with
  | nil => rfl
  | append_singleton ops op ih =>
    rw [run_append, added, foldl_append]
    change _ = (note chain (added ops chain) op).head?.map _
    cases op with
    | add c unitID =>
      rw [apply, get_add (run_wellFormed ops), note, ih]
      cases added ops chain <;> by_cases hc : c = chain <;> simp [hc]
    | del c =>
      rw [apply, get_del (run_wellFormed ops), note, ih]
      split <;> rfl

theorem get_apply_of_ne (op : StoreOp) (h : chain ≠ op.chain) :
    (op.apply (run ops)).get chain = (run ops).get chain := by
  cases op with
  | add c unitID => rw [apply, get_add (run_wellFormed ops), if_neg fun hc => h hc.1.symm]
  | del c => rw [apply, get_del (run_wellFormed ops), if_neg fun hc => h hc.symm]

/-- The store is a map to the newest units exactly if no unit was added for a chain that is newer
than the first since its last `Del`. -/
theorem isMap_iff (ops : List StoreOp) : IsMap ops ↔ ∀ chain first rest,
      added ops chain = first :: rest → ∀ u ∈ rest, u.height ≤ first.height := by
  constructor
  · intro h chain first rest hadded u hu
    have hnewest := h.newest chain
    rw [get_run, hadded] at hnewest
    obtain ⟨v, -, hentry, hmax⟩ := hnewest
    have hheight : first.height = v.height := congrArg PendingChain.sysUnitNumber hentry
    rw [hheight]
    exact hmax u (.tail _ hu)
  · intro h
    have hholds := holds_stored (run_wellFormed ops)
    refine ⟨fun chain => ?_, ?_, fun info => ?_, fun op chain => get_apply_of_ne op⟩
    · rw [get_run]
      cases hadded : added ops chain with
      | nil => rfl
      | cons first rest =>
        exact ⟨first, .head _, rfl,
          forall_mem_cons.mpr ⟨Nat.le_refl _, h chain first rest hadded⟩⟩
    · rw [visited_eq hholds]
      exact hholds.nodup
    · rw [visited_eq hholds, hholds.mem_iff]

def twoUnits : List StoreOp := [add ⟨7⟩ ⟨⟨0⟩, 3, ⟨30⟩⟩, add ⟨7⟩ ⟨⟨0⟩, 5, ⟨50⟩⟩]

theorem newer_unit_dropped : (run twoUnits).get ⟨7⟩ = some ⟨⟨7⟩, ⟨30⟩, 3⟩ ∧ ¬IsMap twoUnits := by
  refine ⟨by decide, fun h => ?_⟩
  obtain ⟨u, -, hentry, hmax⟩ := h.newest ⟨7⟩
  have hheight : 3 = u.height := congrArg PendingChain.sysUnitNumber hentry
  have hlast : 5 ≤ u.height := hmax ⟨⟨0⟩, 5, ⟨50⟩⟩ (by decide)
  omega

end StoreOp

end Nerthus.Rwit
