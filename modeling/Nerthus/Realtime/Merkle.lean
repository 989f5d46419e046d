import Mathlib

/-!
# The merkle tree of the realtime sync

Package `merkle`. The nodes of a tree point to their children and to their parent and cache
their hashes. They live in a heap here, and a pointer is a place in it. `Root` and the functions
that follow the pointers take fuel; running out of it stands for a call that does not return.
-/

namespace Nerthus.Realtime

abbrev Bytes := List UInt8

class Content (κ : Type) where
  hash : (Bytes → Bytes) → κ → Bytes

inductive Fault where
  | panic
  | fuel
deriving DecidableEq

/-- `NodeBranch`; a `LeafBranch` has an index besides. -/
structure NodeBranch where
  hash : Bytes
  childLeft : Option Nat
  childRight : Option Nat
  parent : Option Nat
  leaf : Option Nat
deriving DecidableEq, Inhabited

namespace NodeBranch

def isLeaf (n : NodeBranch) : Bool :=
  n.leaf.isSome || n.childLeft.isNone && n.childRight.isNone

def index (n : NodeBranch) : Nat := n.leaf.getD 0

def cmp (n m : NodeBranch) : Ordering :=
  match n.leaf, m.leaf with
  | some i, some j => compare i j
  | _, _ => .eq

def newNode (left : Nat) (right : Option Nat) : NodeBranch :=
  ⟨[], some left, right, none, none⟩

def newLeaf (hash : Bytes) (index : Nat) : NodeBranch :=
  ⟨hash, none, none, none, some index⟩

def copy (n : NodeBranch) : NodeBranch := newLeaf n.hash n.index

end NodeBranch

structure Heap where
  size : Nat
  node : Nat → NodeBranch

namespace Heap

def empty : Heap := ⟨0, fun _ => default⟩

def push (h : Heap) (n : NodeBranch) : Heap :=
  ⟨h.size + 1, Function.update h.node h.size n⟩

def pushAll (h : Heap) : List NodeBranch → List Nat × Heap
  | [] => ([], h)
  | n :: ns =>
    let (ps, h') := (h.push n).pushAll ns
    (h.size :: ps, h')

def setHash (h : Heap) (p : Nat) (hash : Bytes) : Heap :=
  { h with node := Function.update h.node p { h.node p with hash := hash } }

def assignParent (h : Heap) (p : Nat) (node : Option Nat) : Heap :=
  { h with node := Function.update h.node p { h.node p with parent := node } }

/-- `SetParent(nil)`: a node that has a parent takes it away from its siblings too. -/
def dropParent : Nat → Heap → Nat → Except Fault Heap
  | 0, _, _ => .error .fuel
  | fuel + 1, h, t =>
    match (h.node t).parent with
    | none => .ok (h.assignParent t none)
    | some p => do
      let children := [(h.node p).childLeft, (h.node p).childRight].reduceOption
      children.foldlM (dropParent fuel) (h.assignParent t none)

def setParent (fuel : Nat) (h : Heap) (t : Nat) : Option Nat → Except Fault Heap
  | some node => .ok (h.assignParent t (some node))
  | none => h.dropParent fuel t

def hash (H : Bytes → Bytes) : Nat → Heap → Nat → Except Fault (Bytes × Heap)
  | 0, _, _ => .error .fuel
  | fuel + 1, h, t =>
    if (h.node t).hash.length ≠ 0 then .ok ((h.node t).hash, h)
    else
      match (h.node t).childLeft, (h.node t).childRight with
      | none, _ => .ok ((h.node t).hash, h)
      | some l, none => do
        let (v, h) ← hash H fuel h l
        .ok (v, h.setHash t v)
      | some l, some r => do
        let (a, h) ← hash H fuel h l
        let (b, h) ← hash H fuel h r
        .ok (H (a ++ b), h.setHash t (H (a ++ b)))

/-- The loop of `Update` up to the root. -/
def resetPath : Nat → Heap → Option Nat → Except Fault Heap
  | _, h, none => .ok h
  | 0, _, some _ => .error .fuel
  | fuel + 1, h, some p => resetPath fuel (h.setHash p []) (h.node p).parent

def update (fuel : Nat) (h : Heap) (t : Nat) (hash : Bytes) : Except Fault Heap :=
  (h.setHash t hash).resetPath fuel (h.node t).parent

def clearSingleParent : Nat → Heap → Nat → Except Fault Heap
  | 0, _, _ => .error .fuel
  | fuel + 1, h, node =>
    match (h.node node).parent with
    | none => .ok h
    | some p =>
      match (h.node p).childRight with
      | none => h.setParent fuel node none
      | some _ => clearSingleParent fuel h p

def clearParent (fuel : Nat) : Heap → List Nat → Except Fault Heap
  | h, [] => .ok h
  | h, p :: rest =>
    if (h.node p).parent = none then .ok h
    else do
      let h ← h.setParent fuel p none
      clearParent fuel h rest

/-- `NewNode`, made the parent of its children. -/
def newParent (h : Heap) (a : Nat) (b : Option Nat) : Heap :=
  let above := (h.push (.newNode a b)).assignParent a (some h.size)
  match b with
  | some b => above.assignParent b (some h.size)
  | none => above

/-- One level above the nodes. An even node with a parent is expected to have a
sibling next to it. -/
def buildAbove : Heap → List Nat → Except Fault (List Nat × Heap)
  | h, [] => .ok ([], h)
  | h, [a] =>
    if (h.node a).parent ≠ none then .error .panic
    else .ok ([h.size], h.newParent a none)
  | h, a :: b :: rest =>
    match (h.node a).parent with
    | some p =>
      if (h.node b).parent = some p then do
        let (ps, h) ← buildAbove h rest
        .ok (p :: ps, h)
      else do
        let (ps, h') ← buildAbove (h.newParent a (some b)) rest
        .ok (h.size :: ps, h')
    | none => do
      let (ps, h') ← buildAbove (h.newParent a (some b)) rest
      .ok (h.size :: ps, h')

def refresh : Nat → Heap → List Nat → Except Fault (Nat × Heap)
  | 0, _, _ => .error .fuel
  | fuel + 1, h, ns => do
    match ← h.buildAbove ns with
    | ([r], h) => .ok (r, h)
    | (ns, h) => refresh fuel h ns

end Heap

structure Tree where
  heap : Heap
  rootNode : Option Nat
  leafs : List Nat

namespace Tree

variable {κ : Type} [Content κ] (H : Bytes → Bytes)

def empty : Tree := ⟨.empty, none, []⟩

def leafCount (t : Tree) : Nat := t.leafs.length

def newLeaf (t : Tree) (cont : κ) : NodeBranch := .newLeaf (Content.hash H cont) t.leafCount

def root (fuel : Nat) (t : Tree) : Except Fault (Nat × Tree) :=
  match t.rootNode with
  | some r => .ok (r, t)
  | none => do
    let (r, heap) ← t.heap.refresh fuel t.leafs
    .ok (r, { t with heap := heap, rootNode := some r })

def rootHash (fuel : Nat) (t : Tree) : Except Fault (Bytes × Tree) := do
  let (r, t) ← t.root fuel
  let (v, heap) ← t.heap.hash H fuel r
  .ok (v, { t with heap := heap })

def findLeafOrder (heap : Heap) (leafs : List Nat) (dist : NodeBranch) : Option Nat × Nat :=
  match leafs.findIdx? (fun p => (heap.node p).cmp dist == .eq) with
  | some i => (leafs[i]?, i)
  | none => (none, leafs.length)

/-- Where `Update` finds the leaf: a leaf with its place, or the place for a new one. -/
def find (findFunc : Option (κ → Int)) (t : Tree) (cont : κ) : Except String (Option Nat × Nat) :=
  match findFunc with
  | some f =>
    if 0 ≤ f cont then
      match t.leafs[(f cont).toNat]? with
      | some v => .ok (some v, (f cont).toNat)
      | none => .error "find index failed"
    else .ok (none, t.leafCount)
  | none => .ok (findLeafOrder t.heap t.leafs (t.newLeaf H cont))

/-- `Update`, with `findFunc` as it answers now. -/
def update (fuel : Nat) (findFunc : Option (κ → Int)) (t : Tree) (cont : κ) :
    Except Fault (Option String × Tree) :=
  if t.leafs = [] then
    .ok (none, { t with
      heap := t.heap.push (.newLeaf (Content.hash H cont) 0)
      leafs := [t.heap.size] })
  else
    let lf := t.heap.size
    let heap := t.heap.push (t.newLeaf H cont)
    match t.find H findFunc cont with
    | .error err => .ok (some err, { t with heap := heap })
    | .ok (some v, _) => do
      let heap ← heap.update fuel v (Content.hash H cont)
      .ok (none, { t with heap := heap })
    | .ok (none, idex) =>
      match idex with
      | 0 => .error .panic
      | i + 1 =>
        match t.leafs[i]? with
        | none => .error .panic
        | some last => do
          let heap ← heap.clearSingleParent fuel last
          let heap ← heap.clearParent fuel (t.leafs.drop idex)
          .ok (none, ⟨heap, none, t.leafs.take idex ++ lf :: t.leafs.drop idex⟩)

/-- `Append`. The new leaves go to a slice of their own, which becomes `t.leafs` only if the tree
was empty. -/
def append (fuel : Nat) (t : Tree) (cont : List κ) : Except Fault Tree :=
  let (lf, heap) := t.heap.pushAll (cont.map (t.newLeaf H))
  match t.leafs.getLast? with
  | none => .ok { t with heap := heap, leafs := lf }
  | some last => do
    let heap ← heap.clearSingleParent fuel last
    .ok { t with heap := heap, rootNode := none }

def newTreeAppend (fuel : Nat) (nodes : List κ) : Except Fault Tree :=
  match nodes with
  | [] => .ok empty
  | [c] => .ok ⟨Heap.empty.push (.newLeaf (Content.hash H c) 0), none, [0]⟩
  | _ => do
    let t ← nodes.foldlM (fun t c => append H fuel t [c]) empty
    let (_, t) ← t.rootHash H fuel
    .ok t

def copy (t : Tree) : Tree :=
  let (lf, heap) := Heap.empty.pushAll (t.leafs.map fun p => (t.heap.node p).copy)
  ⟨heap, none, lf⟩

end Tree

end Nerthus.Realtime
