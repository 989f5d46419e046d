import Nerthus.Bysolt.Cmptor
import Nerthus.Bysolt.PointTree
import Nerthus.Realtime.Session

/-!
# A comparison of two nodes

The two nodes that compare the trees of an hour, the messages on their way, and what
the nodes should have asked for when the comparison has ended. Messages arrive in
order; a node may stop at any time.
-/

namespace Nerthus.Bysolt

open Realtime (Bytes)
open Function

export Realtime (Side)

structure Comparison where
  sto : Side → Storage
  tree : Side → SlotTree
  getStatus : Side → Nat → NodeStatus
  /-- The status of the other node that a node has learnt. -/
  remote : Side → NodeStatus

structure Session where
  party : Side → TreeCmptor
  /-- The messages on their way to a node, in order. -/
  inbox : Side → List RealtimeEvent
  handled : Side → List RealtimeEvent
  synced : Side → List Hash

variable (x : Session)

namespace Session

/-- A node has learnt the status of the other; `RealtimeReponse` makes it the main
node. -/
def opening (H : Bytes → Bytes) (c : Comparison) (s : Side) : TreeCmptor × List RealtimeEvent :=
  (TreeCmptor.newTreeCmptor ((c.tree s).view H) (c.getStatus s) (c.sto s).timeline).start
    (c.remote s) (s == .main)

def start (H : Bytes → Bytes) (c : Comparison) : Session where
  party := fun s => (opening H c s).1
  inbox := fun s => (opening H c s.opp).2
  handled := fun _ => []
  synced := fun _ => []

def deliver (s : Side) : Except CmpFault Session :=
  match x.inbox s with
  | [] => .ok x
  | ev :: rest =>
    match (x.party s).handleResponse ev with
    | .error e => .error e
    | .ok r =>
      .ok { party := update x.party s r.cmptor
            inbox := update (update x.inbox s rest) s.opp
              (x.inbox s.opp ++ r.sent)
            handled := if (x.party s).accepts ev then
                update x.handled s (x.handled s ++ [ev])
              else x.handled
            synced := update x.synced s (x.synced s ++ r.synced) }

/-- A node stops: the goroutine that `RealtimeCmpEnd` starts, or a timeout. -/
def halt (s : Side) : Session :=
  { x with party := update x.party s (x.party s).stop }

inductive Act where
  | deliver (s : Side)
  | halt (s : Side)
deriving DecidableEq

def act : Act → Except CmpFault Session
  | .deliver s => x.deliver s
  | .halt s => .ok (x.halt s)

def run : Session → List Act → Except CmpFault Session
  | x, [] => .ok x
  | x, a :: acts =>
    match x.act a with
    | .error e => .error e
    | .ok y => y.run acts

def Ended (s : Side) : Prop := ∃ ev ∈ x.handled s, ev.payload = .cmpEnd

end Session

namespace SlotTree

def Inner : SlotTree → Prop
  | nil => True
  | mk value left right _ =>
    (left ≠ nil ∨ right ≠ nil → value = none) ∧ left.Inner ∧ right.Inner

instance decidableInner : (t : SlotTree) → Decidable t.Inner
  | nil => isTrue trivial
  | mk value left right _ =>
    have := decidableInner left
    have := decidableInner right
    inferInstanceAs (Decidable ((left ≠ nil ∨ right ≠ nil → value = none) ∧ left.Inner ∧ right.Inner))

/-- A slot tree of the hour `r`: the units of a leaf are on the timeline in its range, and the
leaves have all units of the hour. -/
structure OfHour (sto : Storage) (r : TimeSize) (t : SlotTree) : Prop where
  inner : t.Inner
  within : ∀ leaf ∈ t.leaves, ∀ u ∈ leaf.1, u ∈ sto.rangeUnits leaf.2
  all : ∀ u ∈ sto.units, r.holds u = true → u ∈ t.units

theorem inner_treeOf (origin : Int) (h : Lib.Halving (List UnitInfo)) (d i : Nat) :
    (treeOf origin h d i).Inner := by
  induction h generalizing d i with
  | empty => trivial
  | slot units => exact ⟨by simp, trivial, trivial⟩
  | split left right ihLeft ihRight => exact ⟨fun _ => rfl, ihLeft _ _, ihRight _ _⟩

theorem inner_hourTree (origin : Int) (h : Lib.Halving (List UnitInfo)) :
    (hourTree origin h).Inner := by
  cases h with
  | empty => exact ⟨fun _ => rfl, trivial, trivial⟩
  | slot units => exact inner_treeOf ..
  | split left right => exact inner_treeOf ..

/-- The trees of `GetPointTree` are such trees, where the hour is one after 1970. -/
theorem getPointTree_ofHour {sto : Storage} {number : Nat} {r : TimeSize}
    (hnumber : sto.timeRange number = .ok r) (hr : PointRange r) (hbegin : 0 ≤ r.beginTime)
    (hend : r.endTime < 2 ^ 63) (hsize : microsecond < r.size)
    (hendFree : sto.EndFree r) (hzero : sto.ZeroFree r)
    (hcrowd : Uncrowded r.beginTime maxSlotUnits (sto.units.filter r.holds)) :
    ∃ t, Lib.Returns (fun fuel => sto.getPointTree fuel number) t ∧ t.OfHour sto r := by
  have horigin : r = cell r.beginTime 0 0 := by
    rcases hr.cases_size with ⟨horigin, -⟩ | hsmall
    · exact horigin
    · rw [hsmall] at hsize
      exact absurd hsize (by decide)
  obtain ⟨-, hunits, -⟩ := hourTree_covers horigin hcrowd
  refine ⟨_, getPointTree_hour hnumber hr horigin hsize hendFree hzero hcrowd,
    inner_hourTree _ _, ?_, fun u hu hin => ?_⟩
  · intro leaf hleaf u hu
    have hmem : u ∈ (hourTree r.beginTime (hourHalving sto r)).units :=
      List.mem_flatMap.mpr ⟨leaf, hleaf, hu⟩
    rw [hunits] at hmem
    by_cases hne : hourHalving sto r = .empty
    · rw [halve_eq_empty_iff.mp hne] at hmem
      cases hmem
    rw [hourTree_leaves _ (hourHalving_proper sto r) hne] at hleaf
    obtain ⟨s, hs, rfl⟩ := List.mem_map.mp hleaf
    have hcell := ((cellUnits_hour horigin hcrowd).slot_le (Nat.zero_add maxHalvings) s hs).1
    -- no part of such an hour ends at the largest time
    have hle := mul_span_le hcell.depth hcell.index
    have hpos := Int.mul_nonneg (Int.natCast_nonneg (s.2.1 + 1)) (Int.le_of_lt (span_pos hcell.depth))
    have hsucc : uint64 (unixNano (cell r.beginTime s.1 s.2.1).endTime + 1) =
        unixNano (cell r.beginTime s.1 s.2.1).endTime + 1 := by
      have hlast : r.endTime = r.beginTime + pointTimeSpan := by rw [horigin, cell_zero]
      push_cast at hle hpos
      unfold uint64 unixNano cell
      dsimp only
      omega
    exact mem_rangeUnits_of_holds hsucc (List.mem_filter.mp hmem).1 (hcell.inside u hu)
  · rw [hunits]
    exact List.mem_filter.mpr ⟨hu, hin⟩

inductive Content where
  | slot (units : List Hash)
  | pair (left right : Bytes)
deriving DecidableEq

def Content.bytes : Content → Bytes
  | slot units => units.flatMap hashBytes
  | pair left right => left ++ right

variable (H : Bytes → Bytes)

def content : SlotTree → Option Content
  | nil => none
  | mk none nil nil _ => none
  | mk none left right _ => some (.pair (left.hash H) (right.hash H))
  | mk (some units) _ _ _ => some (.slot (units.map UnitInfo.hash))

def contents : SlotTree → List Content
  | nil => []
  | mk value left right r =>
    (content H (mk value left right r)).toList ++ left.contents ++ right.contents

/-- Hashing is injective, as far as the two trees go, and no hash is the empty one. -/
structure HashInjective (a b : SlotTree) : Prop where
  injective : ∀ c ∈ a.contents H, ∀ d ∈ b.contents H, H c.bytes = H d.bytes → c = d
  nonempty : ∀ c ∈ a.contents H ++ b.contents H, H c.bytes ≠ emptyHash

end SlotTree

def Comparison.Lacks (c : Comparison) (r : TimeSize) (s : Side) (h : Hash) : Prop :=
  (∃ u ∈ (c.sto s.opp).units, r.holds u = true ∧ u.hash = h) ∧
    ∀ u ∈ (c.sto s).units, u.hash ≠ h

/-- No message makes a node panic, and once both have processed `RealtimeCmpEnd`, each has given
what it lacks to `syncHashes`. -/
def Comparison.ComparesFully (H : Bytes → Bytes) (c : Comparison) (r : TimeSize) : Prop :=
  ∀ acts : List Session.Act, ∃ x, (Session.start H c).run acts = .ok x ∧
    ((∀ s, x.Ended s) → ∀ s h, c.Lacks r s h → h ∈ x.synced s)

end Nerthus.Bysolt
