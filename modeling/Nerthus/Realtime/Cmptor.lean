import Nerthus.Lib.Pairing
import Nerthus.Realtime.Types

/-!
# Comparing two trees

`treeCmptor`: two nodes with different roots send each other the hashes of the children of a
node, go on with some of them, and note the leaves they come to. The tree is a copy that nothing
else changes, so it is the value that `merkle.Node` shows of it.
-/

namespace Nerthus.Realtime

open Lib

structure Leaf where
  hash : Bytes
  index : Nat
deriving DecidableEq

abbrev Node := LevelTree Leaf

namespace Node

def children : Node → Option Node × Option Node
  | .leaf _ => (none, none)
  | .one left => (some left, none)
  | .two left right => (some left, some right)

def hash (H : Bytes → Bytes) (node : Node) : Bytes :=
  node.eval (fun a b => H (a ++ b)) Leaf.hash

def isLeaf : Node → Bool
  | .leaf _ => true
  | .one _ => false
  | .two _ _ => false

def index : Node → Nat
  | .leaf l => l.index
  | .one _ => 0
  | .two _ _ => 0

def child (node : Node) (v : UInt8) : Option Node :=
  if v = 0 then (children node).1 else (children node).2

def walk : Node → Bytes → Option Node
  | node, [] => some node
  | node, v :: path => (node.child v).bind fun nd => walk nd path

def childHashes (H : Bytes → Bytes) (node : Node) : List Bytes :=
  match children node with
  | (none, _) => []
  | (some c₁, none) => [hash H c₁]
  | (some c₁, some c₂) => [hash H c₁, hash H c₂]

def leavesOf (H : Bytes → Bytes) (chains : List ChainStatus) : List Leaf :=
  chains.mapIdx fun i c => ⟨Content.hash H c, i⟩

def ofChains (H : Bytes → Bytes) (chains : List ChainStatus) : Option Node :=
  LevelTree.ofList (leavesOf H chains)

end Node

structure NodeStatus where
  root : Bytes
  chains : Nat
deriving DecidableEq

namespace NodeStatus

def zero : NodeStatus := ⟨[], 0⟩

def empty (n : NodeStatus) : Bool := n.root.length == 0

end NodeStatus

structure CmpMessage where
  path : Bytes
  endPath : Bytes
  children : List Bytes
deriving DecidableEq

structure BatchChainMsg where
  no : Nat
  isEnd : Bool
  chains : List Address
deriving DecidableEq

inductive Payload where
  | pushChains (info : BatchChainMsg)
  | cmpHash (data : CmpMessage)
  | cmpEnd (data : List ChainStatus)
deriving DecidableEq

structure RealtimeEvent where
  remoteStatus : NodeStatus
  payload : Payload
deriving DecidableEq

inductive Action where
  | sendMessage (event : RealtimeEvent)
  | syncChain (needPush : List (Address × Nat))
  | goStop
deriving DecidableEq

def maxChainsCount : Nat := 22727

/-- The batches of `pushChains`: `acc` waits to be sent, and the last batch may be
empty. -/
def batches (no : Nat) (acc : List Address) : List Address → List BatchChainMsg
  | [] => [⟨no + 1, true, acc⟩]
  | chain :: rest =>
    if maxChainsCount ≤ (acc ++ [chain]).length then
      ⟨no + 1, false, acc ++ [chain]⟩ :: batches (no + 1) [] rest
    else batches no (acc ++ [chain]) rest

def cmpWithEndPath : (endNodePath path : Bytes) → Int
  | [], [] => 0
  | [], _ :: _ => 1
  | _ :: _, [] => -1
  | v :: endNodePath, x :: path =>
    if v > x then -1 else if v < x then 1 else cmpWithEndPath endNodePath path

structure TreeCmptor where
  started : Bool
  tree : Node
  /-- What the backend answers: `ChainStatusByIndex`. -/
  chains : List ChainStatus
  peer : Nat
  peerStatus : NodeStatus
  diffNode : List Nat
  endNodePath : Bytes
  curChainMsgBatchNo : Nat

namespace TreeCmptor

variable (H : Bytes → Bytes) (t : TreeCmptor)

def newTreeCmptor (tree : Node) (chains : List ChainStatus) : TreeCmptor :=
  ⟨false, tree, chains, 0, .zero, [], [], 0⟩

def currentStatus : NodeStatus := ⟨t.tree.hash H, t.tree.leaves.length⟩

def chainStatusByIndex (index : Nat) : Option (Address × Nat) :=
  t.chains[index]?.map fun c => (c.addr, c.number)

def stop : TreeCmptor :=
  if t.started then
    { t with started := false, diffNode := [], endNodePath := [], curChainMsgBatchNo := 0 }
  else t

def cacheDiff (leafIndex : Nat) : TreeCmptor :=
  { t with diffNode := t.diffNode ++ [leafIndex] }

def diffStatus : List ChainStatus :=
  t.diffNode.filterMap fun i => (t.chainStatusByIndex i).map fun s => ⟨s.1, s.2, i⟩

def sendCmpEnd : List Action :=
  if t.diffNode.length = 0 then []
  else [.sendMessage ⟨.zero, .cmpEnd t.diffStatus⟩]

def sendDiffNode (node : Node) (path : Bytes) : TreeCmptor × List Action :=
  let data : CmpMessage := ⟨path, t.endNodePath, node.childHashes H⟩
  -- the first message brings the status
  let status := if path.length = 0 then t.currentStatus H else .zero
  let msg := Action.sendMessage ⟨status, .cmpHash data⟩
  if node.isLeaf then
    let t := t.cacheDiff node.index
    if 0 ≤ cmpWithEndPath t.endNodePath path then (t, msg :: t.sendCmpEnd) else (t, [msg])
  else (t, [msg])

def sendDiffs (t : TreeCmptor) : List (Node × Bytes) → TreeCmptor × List Action
  | [] => (t, [])
  | (node, path) :: rest =>
    let (t, acts) := t.sendDiffNode H node path
    let (t, acts') := sendDiffs t rest
    (t, acts ++ acts')

def pushChains (t : TreeCmptor) : List Action :=
  (batches 0 [] ((t.chains.drop t.peerStatus.chains).map ChainStatus.addr)).map fun info =>
    .sendMessage ⟨.zero, .pushChains info⟩

/-- `sendFirstCmp`: the node with more chains pushes them; with as many the main node starts at the
root. -/
def sendFirstCmp (isMain : Bool) : TreeCmptor × List Action :=
  if t.peerStatus.chains < (t.currentStatus H).chains then (t, t.pushChains)
  else if t.peerStatus.chains = (t.currentStatus H).chains ∧ isMain then
    t.sendDiffNode H t.tree []
  else (t, [])

/-- `start`; `isMain` is whether the event is a `RealtimeReponse`. -/
def start (src : Nat) (remoteStatus : NodeStatus) (isMain : Bool) :
    TreeCmptor × List Action :=
  if t.started then (t, [])
  else if remoteStatus.root = (t.currentStatus H).root then
    (stop { t with started := true }, [])
  else
    sendFirstCmp H
      { t with started := true, curChainMsgBatchNo := 0, peer := src, peerStatus := remoteStatus }
      isMain

/-- `handleChainsMsg`. The tree has leaves, and then `Append` leaves them as they are. -/
def handleChainsMsg (info : BatchChainMsg) :
    Option String × TreeCmptor × List Action :=
  let no := info.no
  let curNo := t.curChainMsgBatchNo
  if no ≠ curNo + 1 then (some s!"info.No error,{no} != {curNo}+1", t, [])
  else
    let t := { t with curChainMsgBatchNo := no }
    if info.isEnd then (none, t.sendFirstCmp H true) else (none, t, [])

/-- The children to go on with and the end path, or no children if the tree has another shape. -/
def discoverDiffs (node : Node) (path : Bytes) :
    Nat → List Bytes → Bytes → Option (List (Node × Bytes)) × Bytes
  | _, [], endNodePath => (some [], endNodePath)
  | i, v :: children, endNodePath =>
    match if i = 0 then (Node.children node).1 else (Node.children node).2 with
    | none => (none, endNodePath)
    | some nd =>
      -- the comment here says that the hashes differ
      if v = nd.hash H then
        let ph := path ++ [UInt8.ofNat i]
        let endNodePath := if 0 < cmpWithEndPath endNodePath ph then ph else endNodePath
        let (diffs, endNodePath) := discoverDiffs node path (i + 1) children endNodePath
        (diffs.map ((nd, ph) :: ·), endNodePath)
      else discoverDiffs node path (i + 1) children endNodePath

def recordEnd (path : Bytes) : TreeCmptor :=
  if 0 < cmpWithEndPath t.endNodePath path then { t with endNodePath := path } else t

def handleCmpHash (data : CmpMessage) :
    Option String × TreeCmptor × List Action :=
  match t.tree.walk data.path with
  | none => (some "different tree struct", t, [])
  | some node =>
    let t := t.recordEnd data.endPath
    if node.isLeaf then
      let t := t.cacheDiff node.index
      (none, t, if 0 ≤ cmpWithEndPath t.endNodePath data.path then t.sendCmpEnd else [])
    else
      match discoverDiffs H node data.path 0 data.children t.endNodePath with
      | (none, endNodePath) =>
        (some "different tree struct", { t with endNodePath := endNodePath }, [])
      | (some diffs, endNodePath) =>
        (none, sendDiffs H { t with endNodePath := endNodePath } diffs)

def needPush (data : List ChainStatus) : List (Address × Nat) :=
  data.foldl (fun m v =>
    if t.diffNode.any fun d => v.index == d && match t.chainStatusByIndex d with
      | none => false
      | some (addr, number) => v.addr == addr && decide (v.number < number)
    then (v.addr, v.number) :: m.filter (fun e => e.1 ≠ v.addr) else m) []

def handleCmpEnd (data : List ChainStatus) : List Action :=
  if (t.needPush data).length > 0 then [.syncChain (t.needPush data), .goStop] else [.goStop]

def handleResponse (src : Nat) (ev : RealtimeEvent) :
    Option String × TreeCmptor × List Action :=
  if !t.started then (none, t, [])
  else if src ≠ t.peer then (none, t, [])
  else
    let t' := if ev.remoteStatus.empty then t else { t with peerStatus := ev.remoteStatus }
    if !ev.remoteStatus.empty && decide ((t.currentStatus H).root = ev.remoteStatus.root) then
      (none, t'.stop, [])
    else
      match ev.payload with
      | .pushChains info => t'.handleChainsMsg H info
      | .cmpHash data => t'.handleCmpHash H data
      | .cmpEnd data => (none, t', t'.handleCmpEnd data)

end TreeCmptor

end Nerthus.Realtime
