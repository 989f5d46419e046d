import Nerthus.Bysolt.Points
import Nerthus.Bysolt.Tree
import Nerthus.Realtime.Cmptor

/-!
# Comparing the trees of an hour

`treeCmptor` of package `bysolt`: two nodes send each other the hashes of the children
of a node, go on with the children that differ, and at a leaf send the hashes of all
units of its range.
-/

namespace Nerthus.Bysolt

open Realtime (Bytes)

/-- `time.Time{}`, the first of January of the year one. -/
def zeroTime : Int := -62135596800 * second

inductive Node where
  | leaf (hash : Bytes) (timestamp : TimeSize)
  | branch (hash : Bytes) (timestamp : TimeSize) (left right : Node)
deriving DecidableEq

namespace Node

def hash : Node → Bytes
  | leaf h _ => h
  | branch h _ _ _ => h

def timestamp : Node → TimeSize
  | leaf _ r => r
  | branch _ r _ _ => r

def isLeaf : Node → Bool
  | leaf _ _ => true
  | branch _ _ _ _ => false

def emptyTree : Node := leaf emptyHash ⟨zeroTime, zeroTime⟩

/-- `Children`; nil becomes `emptyTree`. -/
def children : Node → Node × Node
  | leaf _ _ => (emptyTree, emptyTree)
  | branch _ _ left right => (left, right)

def child (node : Node) (v : UInt8) : Node :=
  if v = 0 then node.children.1 else node.children.2

def leaves : Node → List Node
  | leaf h r => [leaf h r]
  | branch _ _ left right => left.leaves ++ right.leaves

end Node

def hashBytes (h : Hash) : Bytes := (List.range 32).map fun i => UInt8.ofNat (h.val >>> (8 * (31 - i)))

namespace SlotTree

def hash (H : Bytes → Bytes) : SlotTree → Bytes
  | nil => emptyHash
  | mk none nil nil _ => emptyHash
  | mk none left right _ => H (left.hash H ++ right.hash H)
  | mk (some units) _ _ _ => H (units.flatMap fun u => hashBytes u.hash)

def view (H : Bytes → Bytes) : SlotTree → Node
  | nil => .emptyTree
  | mk value nil nil r => .leaf (hash H (mk value nil nil r)) r
  | mk value left right r => .branch (hash H (mk value left right r)) r (left.view H) (right.view H)

end SlotTree

namespace NodeStatus

def zero : NodeStatus := ⟨emptyHash, emptyHash, 0⟩

def empty (_ : NodeStatus) : Bool := false

end NodeStatus

structure CmpMessage where
  path : Bytes
  endPath : Bytes
  children : List Bytes
deriving DecidableEq

structure DiffMessage where
  lower : Nat
  upper : Nat
  hashes : List Hash
deriving DecidableEq

/-- The code of an event with its data, for the codes that `treeCmptor` handles. -/
inductive Payload where
  | cmpHash (data : CmpMessage)
  | cmpDiff (data : DiffMessage)
  | cmpEnd
deriving DecidableEq

structure RealtimeEvent where
  remoteStatus : NodeStatus
  payload : Payload
deriving DecidableEq

inductive CmpFault where
  /-- `endPath[:i+1]` of a path that is too short. -/
  | sliceBounds
deriving DecidableEq

export Realtime (cmpWithEndPath)

/-! ## treeCmptor -/

structure TreeCmptor where
  started : Bool
  tree : Node
  peerStatus : NodeStatus
  getStatus : Nat → NodeStatus
  /-- What `GetPeriodHashes` reads. -/
  timeline : Rawdb.Timeline
  endNodePath : Bytes
  isEnd : Bool

/-- What a call of `handleResponse` does. -/
structure Response where
  cmptor : TreeCmptor
  sent : List RealtimeEvent
  /-- The hashes given to `syncHashes`. -/
  synced : List Hash
  err : Option String

variable (t : TreeCmptor)

namespace TreeCmptor

def newTreeCmptor (tree : Node) (getStatus : Nat → NodeStatus) (timeline : Rawdb.Timeline) :
    TreeCmptor :=
  ⟨false, tree, .zero, getStatus, timeline, [], false⟩

def currentStatus : NodeStatus := t.getStatus t.peerStatus.number

def getPeriodHashes (lower upper : Nat) : List Hash :=
  (t.timeline.rangRangeUnits lower upper).map Prod.snd

def stop : TreeCmptor :=
  if t.started then { t with started := false, endNodePath := [] } else t

def findDiff (node : Node) : RealtimeEvent :=
  let lower := unixNano node.timestamp.beginTime
  let upper := unixNano node.timestamp.endTime
  ⟨.zero, .cmpDiff ⟨lower, upper, t.getPeriodHashes lower upper⟩⟩

def sendCmpEnd : TreeCmptor × List RealtimeEvent :=
  if t.isEnd then (t, []) else ({ t with isEnd := true }, [⟨.zero, .cmpEnd⟩])

def sendDiffNode (node : Node) (path : Bytes) :
    TreeCmptor × List RealtimeEvent :=
  let data : CmpMessage := ⟨path, t.endNodePath, [node.children.1.hash, node.children.2.hash]⟩
  -- the first message brings the status
  let msg : RealtimeEvent := ⟨if path.length = 0 then t.currentStatus else .zero, .cmpHash data⟩
  if node.isLeaf then
    if 0 ≤ cmpWithEndPath t.endNodePath path then
      let (t', ends) := t.sendCmpEnd
      (t', t.findDiff node :: msg :: ends)
    else (t, [t.findDiff node, msg])
  else (t, [msg])

def sendDiffs (t : TreeCmptor) : List (Node × Bytes) → TreeCmptor × List RealtimeEvent
  | [] => (t, [])
  | (node, path) :: rest =>
    let (t, sent) := t.sendDiffNode node path
    let (t, sent') := sendDiffs t rest
    (t, sent ++ sent')

/-- `start`; `isResponse` is whether the event is a `RealtimeReponse`. -/
def start (remoteStatus : NodeStatus) (isResponse : Bool) :
    TreeCmptor × List RealtimeEvent :=
  if t.started then (t, [])
  else if remoteStatus.root = t.currentStatus.root then (stop { t with started := true }, [])
  else
    let t := { t with started := true, peerStatus := remoteStatus }
    if isResponse then t.sendDiffNode t.tree [] else (t, [])

def walk : (i : Nat) → Node → (path endPath : Bytes) → Except CmpFault (Node × Bytes)
  | _, node, [], endPath => .ok (node, endPath)
  | i, node, v :: path, endPath =>
    if node.isLeaf then
      if endPath.length < i + 1 then .error .sliceBounds else .ok (node, endPath.take (i + 1))
    else walk (i + 1) (node.child v) path endPath

def maxPath (endNodePath path : Bytes) : Bytes :=
  if 0 < cmpWithEndPath endNodePath path then path else endNodePath

/-- The loop over the children of a message: the children that differ, and the end
path. -/
def discoverDiffs (node : Node) (path : Bytes) :
    Nat → List Bytes → Bytes → List (Node × Bytes) × Bytes
  | _, [], endNodePath => ([], endNodePath)
  | i, v :: children, endNodePath =>
    let nd := if i > 0 then node.children.2 else node.children.1
    if v ≠ nd.hash then
      let ph := path ++ [UInt8.ofNat i]
      let (diffs, endNodePath) := discoverDiffs node path (i + 1) children (maxPath endNodePath ph)
      ((nd, ph) :: diffs, endNodePath)
    else discoverDiffs node path (i + 1) children endNodePath

def handleCmpHash (data : CmpMessage) :
    Except CmpFault (TreeCmptor × List RealtimeEvent) := do
  let (node, endPath) ← walk 0 t.tree data.path data.endPath
  let t := { t with endNodePath := maxPath t.endNodePath endPath }
  if node.isLeaf then
    if 0 ≤ cmpWithEndPath t.endNodePath data.path then
      let (t', ends) := t.sendCmpEnd
      .ok (t', t.findDiff node :: ends)
    else .ok (t, [t.findDiff node])
  else
    let (diffs, endNodePath) := discoverDiffs node data.path 0 data.children t.endNodePath
    .ok (sendDiffs { t with endNodePath := endNodePath } diffs)

def handleDiff (msg : DiffMessage) : List Hash :=
  msg.hashes.filter fun h => h ∉ t.getPeriodHashes msg.lower msg.upper

def handlePayload : Payload → Except CmpFault Response
  | .cmpHash data => do
    let (t, sent) ← t.handleCmpHash data
    .ok ⟨t, sent, [], none⟩
  | .cmpDiff data =>
    if data.hashes.length > maxSlotUnits then
      .ok ⟨t, [], [], some "to much unit hashes in period"⟩
    else .ok ⟨t, [], t.handleDiff data, none⟩
  | .cmpEnd =>
    let (t, sent) := t.sendCmpEnd
    .ok ⟨t, sent, [], none⟩

/-- The event is handled: the comparison runs, and the status that the event brings is
another one. -/
def accepts (ev : RealtimeEvent) : Bool :=
  t.started && (ev.remoteStatus.empty ||
    decide ((t.getStatus ev.remoteStatus.number).root ≠ ev.remoteStatus.root))

def handleResponse (ev : RealtimeEvent) : Except CmpFault Response :=
  if !t.started then .ok ⟨t, [], [], none⟩
  else
    let t' := if ev.remoteStatus.empty then t else { t with peerStatus := ev.remoteStatus }
    if !t.accepts ev then .ok ⟨t'.stop, [], [], none⟩
    else t'.handlePayload ev.payload

end TreeCmptor

end Nerthus.Bysolt
