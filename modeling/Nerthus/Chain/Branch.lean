import Nerthus.Chain.Insert
import Nerthus.Arbitration.Stop

/-!
# Recovery after an arbitration

`recoveryChain`: the system witnesses have chosen the unit that shall stand at a height. The
clean-up of another local unit is guarded by a test for a missing header, so it is never made
for a header that is there.
-/

namespace Nerthus.Chain

open Core (UnitID)

structure BranchState where
  node : Node
  /-- "bad unit" marks, in memory and in the database. -/
  badUnit : Hash → Bool
  arbitrationResult : Address → Nat → Hash
  arbitrationIng : Address → Bool
  stops : Arbitration.Db
  stopsCache : Arbitration.Cache

namespace BranchState

def chainArbitrationDone (s : BranchState) (id : UnitID) : BranchState :=
  { s with
    arbitrationResult := Function.update s.arbitrationResult id.chainID
      (Function.update (s.arbitrationResult id.chainID) id.height id.hash)
    arbitrationIng := Function.update s.arbitrationIng id.chainID false }

def markBad (s : BranchState) (hash : Hash) (bad : Bool) : BranchState :=
  { s with badUnit := Function.update s.badUnit hash bad }

def recoverStartChain (s : BranchState) (chain : Address) (number : Nat) : BranchState :=
  let r := Arbitration.recoverStartChain s.stops s.stopsCache chain number
  { s with stops := r.1, stopsCache := r.2.1 }

section Recovery

variable (env : Env) (nilHash : Hash)

/-- `Hash` of a header pointer: of nil it is the hash `nilHash` of the empty encoding. -/
def headerHash : Option Header → Hash
  | none => nilHash
  | some header => header.hash

def clearBad (depth : Nat) (s : BranchState) (hash : Hash) : Except Fault BranchState := do
  let r ← Node.clearUnitWithTxs env true depth s.node hash
  return { s.markBad hash true with node := r.1 }

/-- The clean-up of `recoveryChain` behind its guard. -/
def clearGuarded (depth : Nat) (s : BranchState) (output : UnitID) : Except Fault BranchState :=
  let stableHeader := s.node.getHeaderByNumber env output.chainID output.height
  if stableHeader.isNone ∧ headerHash nilHash stableHeader ≠ output.hash then
    s.clearBad env depth (headerHash nilHash stableHeader)
  else .ok s

/-- `recoveryChain`; it also gives the unit for which `MissingAncestorsEvent` is posted. -/
def recoveryChain (depth : Nat) (s : BranchState) (output : UnitID) :
    Except Fault (BranchState × Option UnitID) :=
  if output.hash.emptyHash then .ok (s, none)
  else do
    let s ← ((s.markBad output.hash false).chainArbitrationDone output).clearGuarded env nilHash
      depth output
    let s := s.recoverStartChain output.chainID output.height
    return (s, if (s.node.db.header output.hash).isNone then some output else none)

end Recovery

end BranchState

/-! ## What a recovery should leave -/

namespace Node

variable (env : Env)

def referencesOf (s : Node) (hash : Hash) : List Hash :=
  match s.getUnit env hash with
  | .ok (some u) => u.references
  | _ => []

/-- `v` is `u` or refers to it, directly or through other units. -/
def RefersTo (s : Node) (u v : Hash) : Prop :=
  Relation.ReflTransGen (fun p h => p ∈ s.referencesOf env h) u v

def Stable (s : Node) (hash : Hash) : Prop :=
  hash ≠ .zero ∧ ∃ chain number, s.db.getStableHash env chain number = hash

structure LowestLost (s s' : Node) (header : Header) : Prop where
  stored : s.db.header header.hash = some header
  stable : s.db.getStableHash env header.mc header.number = header.hash
  lost : ¬s'.Stable env header.hash
  lowest : ∀ n < header.number,
    s'.db.getStableHash env header.mc n = s.db.getStableHash env header.mc n

structure BranchRemoved (s : Node) (u : Hash) (s' : Node) : Prop where
  unstable : ∀ v, s.RefersTo env u v → ¬s'.Stable env v
  tails : ∀ header, LowestLost env s s' header →
    s'.storedTail env header.mc = header.parentHash
  others : ∀ v, ¬s.RefersTo env u v →
    s'.db.header v = s.db.header v ∧ s'.db.body v = s.db.body v ∧
      (s.Stable env v → s'.Stable env v)

structure NothingRemoved (s s' : Node) : Prop where
  header : s'.db.header = s.db.header
  body : s'.db.body = s.db.body
  stableHash : s'.db.stableHash = s.db.stableHash
  tailHash : s'.db.tailHash = s.db.tailHash

def NoTrace (s : Node) (output : UnitID) (s' : Node) : Prop :=
  if s.db.getStableHash env output.chainID output.height = .zero ∨
      s.db.getStableHash env output.chainID output.height = output.hash
  then NothingRemoved s s'
  else BranchRemoved env s (s.db.getStableHash env output.chainID output.height) s'

end Node

namespace BranchState

variable {env : Env} {nilHash : Hash} {s : BranchState}

theorem clearGuarded_eq (hnil : s.node.db.header nilHash = none) (depth : Nat) (output : UnitID) :
    ∃ s', s.clearGuarded env nilHash (depth + 1) output = .ok s' ∧ s'.node = s.node := by
  unfold clearGuarded
  dsimp only
  split_ifs with hguard
  · have hmissing : s.node.getHeaderByNumber env output.chainID output.height = none :=
      Option.isNone_iff_eq_none.mp hguard.1
    have hclear : Node.clearUnitWithTxs env true (depth + 1) s.node nilHash = .ok (s.node, []) := by
      rw [Node.clearUnitWithTxs, hnil]
    refine ⟨{ s.markBad nilHash true with node := s.node }, ?_, rfl⟩
    rw [hmissing, headerHash, clearBad, hclear]
    rfl
  · exact ⟨s, rfl, rfl⟩

theorem recoveryChain_eq (hnil : s.node.db.header nilHash = none) (depth : Nat) (output : UnitID) :
    ∃ r, s.recoveryChain env nilHash (depth + 1) output = .ok r ∧ r.1.node = s.node := by
  unfold recoveryChain
  split_ifs with hempty
  · exact ⟨(s, none), rfl, rfl⟩
  obtain ⟨s', hclear, hnode⟩ : ∃ s', ((s.markBad output.hash false).chainArbitrationDone
      output).clearGuarded env nilHash (depth + 1) output = .ok s' ∧ s'.node = s.node :=
    clearGuarded_eq (s := (s.markBad output.hash false).chainArbitrationDone output) hnil depth
      output
  rw [hclear]
  exact ⟨_, rfl, hnode⟩

theorem not_branchRemoved_self {u : Hash} (hstable : s.node.Stable env u) :
    ¬Node.BranchRemoved env s.node u s.node :=
  fun h => h.unstable u .refl hstable

/-- `recoveryChain` ends without a crash, and leaves no trace of a wrong branch exactly if there is
none. -/
theorem recoveryChain_noTrace_iff (s : BranchState) (output : UnitID) (depth : Nat)
    (hnil : s.node.db.header nilHash = none) :
    (∃ r, s.recoveryChain env nilHash (depth + 1) output = .ok r ∧
        s.node.NoTrace env output r.1.node) ↔
      s.node.db.getStableHash env output.chainID output.height = .zero ∨
        s.node.db.getStableHash env output.chainID output.height = output.hash := by
  obtain ⟨r, hok, hnode⟩ : ∃ r, s.recoveryChain env nilHash (depth + 1) output = .ok r ∧
      r.1.node = s.node := recoveryChain_eq hnil depth output
  constructor
  · rintro ⟨r', hok', htrace⟩
    obtain rfl := Except.ok.inj (hok.symm.trans hok')
    by_contra hwrong
    rw [Node.NoTrace, if_neg hwrong, hnode] at htrace
    have hne := (not_or.mp hwrong).1
    exact not_branchRemoved_self ⟨hne, _, _, rfl⟩ htrace
  · intro hright
    refine ⟨r, hok, ?_⟩
    rw [Node.NoTrace, if_pos hright, hnode]
    exact ⟨rfl, rfl, rfl, rfl⟩

end BranchState

namespace Sample

def branchState : BranchState where
  node := (Step.run env (written ++ [.store (unitAt 1 8 20), .store (unitAt 2 21 30)])).node
  badUnit := fun _ => false
  arbitrationResult := fun _ _ => .zero
  arbitrationIng := fun _ => true
  stops := .empty
  stopsCache := .empty 1

theorem recovery_of_right_unit : ∃ r, branchState.recoveryChain env ⟨5⟩ 1 ⟨⟨7⟩, 1, ⟨21⟩⟩ = .ok r ∧
      branchState.node.NoTrace env ⟨⟨7⟩, 1, ⟨21⟩⟩ r.1.node :=
  (BranchState.recoveryChain_noTrace_iff branchState ⟨⟨7⟩, 1, ⟨21⟩⟩ 0 (by decide)).mpr
    (.inr (by decide))

/-- Another unit was chosen: the local one stays stable, and so does the unit above it. -/
theorem recovery_of_wrong_unit : ∃ r, branchState.recoveryChain env ⟨5⟩ 9 ⟨⟨7⟩, 1, ⟨22⟩⟩ = .ok r ∧
      ¬branchState.node.NoTrace env ⟨⟨7⟩, 1, ⟨22⟩⟩ r.1.node ∧
      r.1.node.db.stableHash ⟨7⟩ 1 = ⟨21⟩ ∧ r.1.node.db.stableHash ⟨7⟩ 2 = ⟨31⟩ := by
  refine ⟨_, rfl, fun h => ?_, by decide, by decide⟩
  rw [Node.NoTrace, if_neg (by decide)] at h
  exact h.unstable ⟨21⟩ .refl ⟨by decide, ⟨7⟩, 1, by decide⟩

end Sample

end Nerthus.Chain
