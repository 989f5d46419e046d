import Nerthus.Bysolt.Types
import Nerthus.Rawdb.Timeline

/-!
# The tree of an hour

`FindNodes` reads the units of a range from a channel and halves the range until
no part has too many of them; `CreateTree` puts the parts together again, level by
level, from where their ranges lie.
-/

namespace Nerthus.Bysolt

structure Parts where
  lefts : List UnitInfo
  rights : List UnitInfo
  others : List UnitInfo

namespace Parts

def empty : Parts := ⟨[], [], []⟩

def add (middle endTime : Nat) (p : Parts) (info : UnitInfo) : Parts :=
  if info.time < middle then { p with lefts := p.lefts ++ [info] }
  else if info.time < endTime then { p with rights := p.rights ++ [info] }
  else { p with others := p.others ++ [info] }

/-- The loop that reads on until there are too many units and some beyond the range, or the channel
is closed. A unit without a timestamp is taken for the end. -/
def readNext (middle endTime maxSize : Nat) : Parts → List UnitInfo → Parts × List UnitInfo
  | p, [] => (p, [])
  | p, n :: next =>
    if p.rights.length + p.lefts.length + p.others.length < maxSize + 1 ∨ p.others.length = 0 then
      if n.time = 0 then (p, next) else readNext middle endTime maxSize (p.add middle endTime n) next
    else (p, n :: next)

end Parts

def splitUnits (timeRange : TimeSize) (maxSize : Nat) (loads : List UnitInfo)
    (next : Option (List UnitInfo)) : Parts × Option (List UnitInfo) :=
  let middle := unixNano timeRange.middle
  let endTime := unixNano timeRange.endTime
  let parts := loads.foldl (Parts.add middle endTime) .empty
  match next with
  | none => (parts, none)
  | some units =>
    let (parts, units) := parts.readNext middle endTime maxSize units
    (parts, some units)

/-- `FindNodes`. The channel is the units it still has before it is closed, or none
if it is nil. -/
def findNodes : (fuel : Nat) → TimeSize → (maxSize : Nat) → (loads : List UnitInfo) →
    (next : Option (List UnitInfo)) → Except Fault (List SlotNode × Option (List UnitInfo))
  | 0, _, _, _, _ => .error .fuel
  | fuel + 1, timeRange, maxSize, loads, next =>
    if timeRange.size ≤ microsecond then
      match next with
      | none => .error .block
      | some units => .ok ([⟨loads ++ units, timeRange⟩], some [])
    else
      let (parts, next) := splitUnits timeRange maxSize loads next
      if parts.rights.length = 0 ∧ parts.lefts.length = 0 ∧ parts.others.length = 0 then
        .ok ([], next)
      else if parts.others.length = 0 ∧ parts.rights.length + parts.lefts.length ≤ maxSize then
        .ok ([⟨parts.lefts ++ parts.rights, timeRange⟩], next)
      else do
        let (lefts, next) ←
          if parts.rights.length + parts.others.length > 0 then do
            let (nodes, _) ← findNodes fuel timeRange.left maxSize parts.lefts none
            .ok (nodes, next)
          else findNodes fuel timeRange.left maxSize parts.lefts next
        let (rights, next) ←
          if parts.others.length > 0 then do
            let (nodes, _) ← findNodes fuel timeRange.right maxSize parts.rights none
            .ok (nodes, next)
          else findNodes fuel timeRange.right maxSize parts.rights next
        if parts.others.length > 0 then do
          let (others, next) ← findNodes fuel timeRange.next maxSize parts.others next
          .ok (lefts ++ rights ++ others, next)
        else .ok (lefts ++ rights, next)

/-- `*SlotTree`; the value is nil or the units of a slot. -/
inductive SlotTree where
  | nil
  | mk (value : Option (List UnitInfo)) (left right : SlotTree) (timeRange : TimeSize)
deriving DecidableEq

namespace SlotTree

def timeRange : SlotTree → TimeSize
  | nil => ⟨0, 0⟩
  | mk _ _ _ timeRange => timeRange

def leaves : SlotTree → List (List UnitInfo × TimeSize)
  | nil => []
  | mk value nil nil timeRange => [(value.getD [], timeRange)]
  | mk _ left right _ => left.leaves ++ right.leaves

def loc (timeSize : TimeSize) (a : SlotTree) : Int :=
  (sub a.timeRange.beginTime timeSize.beginTime).tdiv a.timeRange.size + 1

def pair (a b : SlotTree) : SlotTree :=
  .mk none a b ⟨a.timeRange.beginTime, b.timeRange.endTime⟩

def single (timeSize : TimeSize) (a : SlotTree) : SlotTree :=
  if (a.loc timeSize).tmod 2 = 1 then
    .mk none a .nil ⟨a.timeRange.beginTime, a.timeRange.endTime + a.timeRange.size⟩
  else
    .mk none .nil a ⟨a.timeRange.beginTime - a.timeRange.size, a.timeRange.endTime⟩

def insertNode (node : SlotTree) (level : List SlotTree) : List SlotTree :=
  (level ++ [node]).insertionSort fun x y => x.timeRange.beginTime ≤ y.timeRange.beginTime

def joinLevel (timeSize : TimeSize) (depth : Nat) : (curr above : List SlotTree) →
    Except Fault (List SlotTree)
  | [], above => .ok above
  | [a], above =>
    if a.timeRange.size = 0 then .error .divideByZero
    else .ok (insertNode (a.single timeSize) above)
  | a :: b :: curr, above =>
    if a.timeRange.size ≠ b.timeRange.size then
      .error (.rangeDiffers depth (a.timeRange.beginTime, a.timeRange.endTime)
        (b.timeRange.beginTime, b.timeRange.endTime))
    else if a.timeRange.size = 0 then .error .divideByZero
    else if a.loc timeSize + 1 = b.loc timeSize ∧ (a.loc timeSize).tmod 2 = 1 then
      joinLevel timeSize depth curr (insertNode (pair a b) above)
    else joinLevel timeSize depth (b :: curr) (insertNode (a.single timeSize) above)

def joinLevels (timeSize : TimeSize) : (maxDepth : Nat) → (depths : Nat → List SlotTree) →
    Except Fault SlotTree
  | 0, depths =>
    match depths 0 with
    | [] => .ok (.mk none .nil .nil timeSize)
    | [t] => .ok t
    | curr => .error (.rootNodes curr.length)
  | depth + 1, depths => do
    let above ← joinLevel timeSize (depth + 1) (depths (depth + 1)) (depths depth)
    joinLevels timeSize depth (Function.update depths depth above)

end SlotTree

namespace SlotNode

def depth (timeSize : TimeSize) (n : SlotNode) : Nat := calcDepth timeSize.size n.timeRange.size

def tree (n : SlotNode) : SlotTree := .mk (some n.chains) .nil .nil n.timeRange

end SlotNode

def createTree (timeSize : TimeSize) (list : List SlotNode) : Except Fault SlotTree :=
  if list.any fun v => v.timeRange.size = 0 then .error .divideByZero
  else
    let depths := fun d => (list.filter fun v => v.depth timeSize = d).map SlotNode.tree
    let maxDepth := list.foldl (fun maxDepth v => max maxDepth (v.depth timeSize)) 0
    SlotTree.joinLevels timeSize maxDepth depths

/-- What `Storage` reads: the timestamp of the first unit of the system chain and the
timeline. -/
structure Storage where
  firstTimestamp : Nat
  timeline : Rawdb.Timeline

namespace Storage

def timeRange (sto : Storage) (number : Nat) : Except Fault TimeSize :=
  pointTimeRange (int64 sto.firstTimestamp) number

def rangeUnits (sto : Storage) (timeSize : TimeSize) : List UnitInfo :=
  (sto.timeline.rangRangeUnits (unixNano timeSize.beginTime) (unixNano timeSize.endTime)).map
    fun e => ⟨e.1, e.2⟩

/-- `GetPointTree`, and the tree of `updatePoint`, whose slice is empty too. -/
def getPointTree (sto : Storage) (fuel number : Nat) : Except Fault SlotTree := do
  let size ← sto.timeRange number
  let (items, _) ← findNodes fuel size maxSlotUnits [] (some (sto.rangeUnits size))
  createTree size items

end Storage

end Nerthus.Bysolt
