import Nerthus.Bysolt.Types
import Nerthus.Lib.Binary64
import Nerthus.Lib.Table
import Nerthus.Realtime.Types

/-!
# The chain of time points

`Storage` keeps one point for each hour, and a point has the hash of the one before
it. Hours that get new units are put on a list and updated later.
-/

namespace Nerthus.Bysolt

open Lib (Table)
open Realtime (Bytes uint64ToBytes)

def emptyHash : Bytes := [0, 0, 0, 0]

structure Point where
  number : Nat
  parent : Bytes
  treeRoot : Bytes
deriving DecidableEq

structure NodeStatus where
  root : Bytes
  parent : Bytes
  number : Nat
deriving DecidableEq

inductive Panic where
  | numberIsZero
  | nilPoint
deriving DecidableEq

/-- `CalcPointNumber`. Beyond the second hour the number comes from a division of
`float64`s. -/
def calcPointNumber (initTime utime : Int) : Nat :=
  let initTime := initTime / second * second
  let diff := sub utime initTime
  if diff < 0 then 0
  else if diff < pointTimeSpan then 1
  else if diff = pointTimeSpan then 2
  else
    let rounded := Lib.Binary64.quotient diff.toNat 1
    Lib.Binary64.floor (Lib.Binary64.quotient rounded (2 ^ 52 * pointTimeSpan.toNat)) + 1

/-- An error, or a root, and whether the storage is seen to be stopped after the update. -/
inductive Build where
  | failed
  | built (treeRoot : Bytes) (stopped : Bool)
deriving DecidableEq

/-- The part of `Storage` that the points need: what the database has, and the two
caches. -/
structure PointStorage where
  sysFirstUnitTime : Int
  points : Table Nat Point
  last : Nat
  /-- The numbers on the to-do list, in the order of their keys. -/
  todos : List Nat
  todoCache : List Nat
  cachedLastPoint : Option Point

namespace PointStorage

variable (s : PointStorage)

def newStorage (firstTimestamp : Nat) : PointStorage :=
  ⟨int64 firstTimestamp, [], 0, [], [], none⟩

def addTODO (number : Nat) : Except Panic PointStorage :=
  if number = 0 then .error .numberIsZero
  else if number ∈ s.todoCache then .ok s
  else .ok
    { s with
      todoCache := number :: s.todoCache
      todos := if number ∈ s.todos then s.todos else s.todos.orderedInsert (· ≤ ·) number }

def todoDone (number : Nat) : PointStorage :=
  { s with
    todoCache := s.todoCache.filter (· ≠ number)
    todos := s.todos.filter (· ≠ number) }

def newUnitDone (now : Int) (timestamp : Nat) : Except Panic PointStorage :=
  let utime := int64 timestamp
  if now - pointTimeSpan < utime then .ok s
  else s.addTODO (calcPointNumber s.sysFirstUnitTime utime)

def lastPoint : Option Point × PointStorage :=
  match s.cachedLastPoint with
  | some p => (some p, s)
  | none =>
    if s.last > 0 then
      match s.points.get s.last with
      | some p => (some p, { s with cachedLastPoint := some p })
      | none => (none, s)
    else (none, s)

end PointStorage

def writeUnitPoint (points : Table Nat Point) (point : Point) : Table Nat Point :=
  if point.number = 0 then points else points.put point.number point

variable (H : Bytes → Bytes) (s : PointStorage)

namespace Point

def hash (p : Point) : Bytes := H (p.parent ++ p.treeRoot ++ uint64ToBytes p.number)

def toNodeStatus : Option Point → NodeStatus
  | none => ⟨emptyHash, emptyHash, 0⟩
  | some p => ⟨p.hash H, p.parent, p.number⟩

end Point

/-- The loop of `updatePoint` over the points behind the one written; their number bounds it. -/
def relink : (bound : Nat) → (points : Table Nat Point) → (next : Nat) → (lastHash : Bytes) →
    Table Nat Point
  | 0, points, _, _ => points
  | bound + 1, points, next, lastHash =>
    match points.get next with
    | none => points
    | some p =>
      if p.hash H = lastHash then points
      else
        let p := { p with parent := lastHash }
        relink bound (writeUnitPoint points p) (next + 1) (p.hash H)

namespace PointStorage

/-- `updatePoint`; none is an error, which is returned before anything is written. -/
def updatePoint (build : Build) (number : Nat) :
    Except Panic (Option PointStorage) :=
  if number = 0 then .error .numberIsZero
  else do
    let lastRoot ←
      if number > 1 then
        match s.points.get (number - 1) with
        | none => .error .nilPoint
        | some last => .ok (last.hash H)
      else .ok emptyHash
    match build with
    | .failed => .ok none
    | .built treeRoot _ =>
      let point : Point := ⟨number, lastRoot, treeRoot⟩
      let points := writeUnitPoint s.points point
      let points := relink H points.length points (number + 1) (point.hash H)
      .ok (some (todoDone { s with points := points } number))

/-- The updates of `checkUpdate`: the number updated last, and the one that failed. -/
def updateTodos (build : Nat → Build) : (todos : List Nat) → PointStorage → (lastUpdated : Nat) →
    Except Panic (PointStorage × Nat × Option Nat)
  | [], s, lastUpdated => .ok (s, lastUpdated, none)
  | number :: todos, s, lastUpdated => do
    match ← s.updatePoint H (build number) number with
    | none => .ok (s, lastUpdated, some number)
    | some s =>
      match build number with
      | .built _ true => .ok (s, number, none)
      | _ => updateTodos build todos s number

def needLast (now : Int) : Nat :=
  calcPointNumber s.sysFirstUnitTime (now - pointTimeSpan)

/-- `checkUpdate`, with the number that its error names. -/
def checkUpdate (now : Int) (build : Nat → Build) :
    Except Panic (PointStorage × Option Nat) := do
  let last := s.last
  let s ← (List.range' (last + 1) (s.needLast now - last)).foldlM addTODO s
  let (s, lastUpdated, updateErr) ← updateTodos H build s.todos s 0
  if lastUpdated > last then
    .ok ({ s with last := lastUpdated, cachedLastPoint := none }, updateErr)
  else .ok (s, updateErr)

def updateNow (now : Int) (build : Nat → Build) (number : Nat) :
    Except Panic (PointStorage × Option Nat) := do
  (← s.addTODO number).checkUpdate H now build

def lastPointStatus : NodeStatus := Point.toNodeStatus H s.lastPoint.1

end PointStorage

inductive Call where
  | newUnitDone (timestamp : Nat)
  | updateNow (build : Nat → Build) (number : Nat)
  | checkUpdate (build : Nat → Build)
  | lastPoint

structure Event where
  now : Int
  call : Call

namespace PointStorage

def apply (e : Event) : Except Panic PointStorage :=
  match e.call with
  | .newUnitDone timestamp => s.newUnitDone e.now timestamp
  | .updateNow build number => (s.updateNow H e.now build number).map Prod.fst
  | .checkUpdate build => (s.checkUpdate H e.now build).map Prod.fst
  | .lastPoint => .ok s.lastPoint.2

/-- A panic ends the call; the only ones that can happen come before any change. -/
def step (e : Event) : PointStorage :=
  match s.apply H e with
  | .ok s => s
  | .error _ => s

def run (events : List Event) : PointStorage := events.foldl (step H) s

end PointStorage

end Nerthus.Bysolt
