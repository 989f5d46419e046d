import Nerthus.Realtime.Cmptor

/-!
# A comparison of two nodes

The two nodes that compare their trees, the messages on their way, and what the
nodes should have found when the comparison ends. Messages arrive in order; a
node may stop at any time.
-/

namespace Nerthus.Realtime

open Lib

inductive Side where
  | main
  | other
deriving DecidableEq

namespace Side

def opp : Side → Side
  | main => other
  | other => main

def id : Side → Nat
  | main => 1
  | other => 2

@[simp] theorem opp_opp (s : Side) : s.opp.opp = s := by
  cases s <;> rfl

theorem forall_of_opp {p : Side → Prop} (s : Side) (hs : p s) (hopp : p s.opp) : ∀ s', p s' := by
  intro s'
  cases s <;> cases s' <;> assumption

theorem opp_ne (s : Side) : s.opp ≠ s := by
  cases s <;> decide

end Side

structure Session where
  party : Side → TreeCmptor
  inbox : Side → List RealtimeEvent

def sent (acts : List Action) : List RealtimeEvent :=
  acts.filterMap fun
    | .sendMessage event => some event
    | _ => none

namespace Session

variable (H : Bytes → Bytes)

/-- A node has learnt the status of the other; `RealtimeReponse` makes it the main
node. -/
def opening (chains : Side → List ChainStatus) (tree : Side → Node) (s : Side) :
    TreeCmptor × List Action :=
  (TreeCmptor.newTreeCmptor (tree s) (chains s)).start H s.opp.id
    ((TreeCmptor.newTreeCmptor (tree s.opp) (chains s.opp)).currentStatus H) (s == .main)

def start (chains : Side → List ChainStatus) (tree : Side → Node) : Session :=
  { party := fun s => (opening H chains tree s).1
    inbox := fun s => sent (opening H chains tree s.opp).2 }

def deliver (x : Session) (s : Side) : Session :=
  match x.inbox s with
  | [] => x
  | ev :: rest =>
    let (_, t, acts) := (x.party s).handleResponse H s.opp.id ev
    { party := Function.update x.party s t
      inbox := Function.update (Function.update x.inbox s rest) s.opp
        (x.inbox s.opp ++ sent acts) }

def halt (x : Session) (s : Side) : Session :=
  { x with party := Function.update x.party s (x.party s).stop }

inductive Act where
  | deliver (s : Side)
  | halt (s : Side)
deriving DecidableEq

def act (x : Session) : Act → Session
  | .deliver s => x.deliver H s
  | .halt s => x.halt s

def run (x : Session) (acts : List Act) : Session := acts.foldl (act H) x

end Session

def differing (H : Bytes → Bytes) (as bs : List ChainStatus) : List Nat :=
  (List.range as.length).filter fun i =>
    as[i]?.map (Content.hash H) ≠ bs[i]?.map (Content.hash H)

/-- The node `mine` has a higher number of the chain than `theirs`, which has `k`. -/
def Higher (mine theirs : List ChainStatus) (a : Address) (k : Nat) : Prop :=
  ∃ c ∈ mine, ∃ d ∈ theirs, c.addr = a ∧ d.addr = a ∧ d.number = k ∧ k < c.number

/-- Before `RealtimeCmpEnd` with `data`: both nodes have noted what differs, and `SyncChain` gets
what the peer lacks. -/
structure Exact (H : Bytes → Bytes) (chains : Side → List ChainStatus) (s : Side)
    (t : TreeCmptor) (data : List ChainStatus) : Prop where
  noted : t.diffNode.Perm (differing H (chains .main) (chains .other))
  received : (data.map ChainStatus.index).Perm (differing H (chains .main) (chains .other))
  synced : ∀ m, .syncChain m ∈ t.handleCmpEnd data →
    ∀ a k, (a, k) ∈ m ↔ Higher (chains s) (chains s.opp) a k
  called : (∃ a k, Higher (chains s) (chains s.opp) a k) →
    ∃ m, .syncChain m ∈ t.handleCmpEnd data

def ComparesExactly (H : Bytes → Bytes) (chains : Side → List ChainStatus)
    (tree : Side → Node) : Prop :=
  ∀ (acts : List Session.Act) (s : Side) (x : Session) (status : NodeStatus)
    (data : List ChainStatus) (rest : List RealtimeEvent),
    (Session.start H chains tree).run H acts = x → (x.party s).started = true →
    x.inbox s = ⟨status, .cmpEnd data⟩ :: rest → Exact H chains s (x.party s) data

end Nerthus.Realtime
