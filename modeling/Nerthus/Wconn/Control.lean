import Nerthus.Common.Params
import Nerthus.Lib.Fuel
import Nerthus.Lib.Keyed
import Nerthus.Lib.Runs

/-!
# The connections of a witness group

Package `witness/service/wconn`. A witness learns where the others of its group can be reached
from their handshakes, from entries encrypted for it, and from its database. The nodes go to
`listenConn` through a channel, which it fills itself on its timer branch.
-/

namespace Nerthus.Wconn

open Lib Params

abbrev NodeID := Nat

abbrev Bytes := List UInt8

/-- `discover.Node`; an incomplete one has no IP. -/
structure Enode where
  id : NodeID
  ip : Option Nat
  port : Nat
deriving DecidableEq

structure WitnessNode where
  version : Nat
  enode : Enode
  witness : Address
  sign : Nat
deriving DecidableEq

structure EncryptData where
  receiver : Address
  data : Bytes
deriving DecidableEq

structure WitnessConnectMsg where
  witnessGroup : Nat
  version : Nat
  data : List EncryptData
  sign : Nat
deriving DecidableEq

structure ShakeMsg where
  mine : Option WitnessNode
  kownNodes : List EncryptData
deriving DecidableEq

inductive WitnessNodeStatus where
  | unknown | tryConnecting | netConnected | joined | disconnected
deriving DecidableEq

structure WitnessInfo where
  witness : Address
  nodeInfo : Option WitnessNode
  status : WitnessNodeStatus
deriving DecidableEq

def WitnessInfo.setStatus (w : WitnessInfo) (status : WitnessNodeStatus) : WitnessInfo :=
  if status = .netConnected ∧ w.status = .joined then w else { w with status := status }

structure Env where
  /-- `miner.Address()`, `miner.WitnessGroup()`. -/
  me : Address
  group : Nat
  /-- `types.Sender`. -/
  signer : WitnessNode → Option Address
  msgSigner : WitnessConnectMsg → Option Address
  hash : Nat → Enode → Address → Hash
  /-- No two nodes of a witness have the same hash. -/
  hash_id : ∀ v e e' w, hash v e w = hash v e' w → e.id = e'.id
  /-- `miner.Decrypt`, and the node that is read from the plain text. -/
  decrypt : Bytes → Option WitnessNode
  /-- `GetWitnessInfo`: whether the witness is normal, and its group. -/
  getWitnessInfo : Address → Option (Bool × Nat)

variable (env : Env)

def Env.decryptConnectInfo (data : Bytes) : Option WitnessNode :=
  (env.decrypt data).filter fun node => env.signer node = some node.witness

def Env.compareNodeInfo (a b : WitnessNode) : Except String Ordering :=
  if a.version = b.version then
    if env.hash a.version a.enode a.witness ≠ env.hash b.version b.enode b.witness then
      .error "invalid node info"
    else .ok .eq
  else if b.version < a.version then .ok .lt
  else .ok .gt

/-- `WitnessGroupConnControl`, with its part of the database. -/
structure Control where
  witnessGroup : Keyed WitnessInfo.witness
  nodeIds : NodeID → Option Address
  connectedWitness : Keyed (Prod.fst : Address × NodeID → Address)
  /-- The peers of the network, which come and go before `listenConn` hears of it. -/
  connectedPeers : List NodeID
  /-- `currentGroupWNode`. -/
  nodeInfos : Address → Option WitnessNode
  /-- `witness_connect_info`. -/
  connectInfos : Address → Option WitnessConnectMsg

variable (c : Control)

namespace Control

/-- The node that is held for a witness of the group. -/
def heldNode (w : Address) : Option WitnessNode := (c.witnessGroup.get w).bind WitnessInfo.nodeInfo

def store (info : WitnessInfo) : Control :=
  { c with witnessGroup := c.witnessGroup.put info }

def delWitnessConnMsg (w : Address) : Control :=
  { c with connectInfos := Function.update c.connectInfos w none }

def loadById (pid : NodeID) : Option WitnessInfo :=
  (c.nodeIds pid).bind c.witnessGroup.get

def joinWitnessNode (node : WitnessNode) : Control :=
  if node.enode.id ∉ c.connectedPeers then c
  else
    match c.witnessGroup.get node.witness with
    | none => c
    | some w =>
      { c.store (w.setStatus .joined) with
        connectedWitness := c.connectedWitness.put (node.witness, node.enode.id) }

/-- The part of `tryConnect` for a node that takes the place of another. -/
def leave (node old : WitnessNode) : Control :=
  if old.enode = node.enode then c
  else
    { c with
      connectedWitness := c.connectedWitness.erase node.witness
      nodeIds := if old.enode.id = node.enode.id then c.nodeIds
        else Function.update c.nodeIds old.enode.id none }

def tryConnect (node : WitnessNode) (old : Option WitnessNode) : Control :=
  let c := old.elim c (c.leave node)
  match c.witnessGroup.get node.witness with
  | none => c
  | some info =>
    let info := { info with nodeInfo := some node }
    let c : Control := { c.store info with
      nodeIds := Function.update c.nodeIds node.enode.id (some info.witness) }
    if node.enode.id ∈ c.connectedPeers then c.joinWitnessNode node
    else c.store (info.setStatus .tryConnecting)

def updateNode (node : WitnessNode) (old : Option WitnessNode) : Control :=
  let c := if old.isSome then c.delWitnessConnMsg node.witness else c
  tryConnect { c with nodeInfos := Function.update c.nodeInfos node.witness (some node) } node old

def processWitnessNodeInfo (c : Control) (node : WitnessNode) (ignoreOld : Bool) :
    Except String Control := do
  if node.witness.empty || node.witness.isContract then throw "invalid witness address"
  if node.enode.ip = none then throw "invalid witness node ip"
  if node.enode.id = 0 then throw "invalid witness node id"
  if node.witness = env.me then return c
  match c.witnessGroup.get node.witness with
  | none => throw "missing witness info"
  | some w =>
    match w.nodeInfo with
    | none => return c.updateNode node none
    | some old =>
      match ← env.compareNodeInfo old node with
      | .eq => return c.tryConnect node none
      | .gt => return c.updateNode node (some old)
      | .lt => return if ignoreOld then c.updateNode node (some old) else c

/-- `processConnectInfo`: the node, if any, is sent on the channel. -/
def processConnectInfo (c : Control) (witness : Address) (msg : WitnessConnectMsg) :
    Control × Except String (Option WitnessNode) :=
  if msg.witnessGroup ≠ env.group then (c, .ok none)
  else
    match msg.data.find? fun info => info.receiver = env.me with
    | none => (c.delWitnessConnMsg witness, .ok none)
    | some info =>
      match env.decryptConnectInfo info.data with
      | none => (c.delWitnessConnMsg witness, .error "failed decrypt connect info")
      | some node => (c, .ok (some node))

/-- `handleStatusMsg` of a new message, with what it sends on the channel. -/
def handleStatusMsg (c : Control) (msg : WitnessConnectMsg) :
    Control × List WitnessNode :=
  if msg.data = [] ∨ configParamsUCWitness < msg.data.length then (c, [])
  else
    match env.msgSigner msg with
    | none => (c, [])
    | some sender =>
      match env.getWitnessInfo sender with
      | none => (c, [])
      | some (normal, group) =>
        if ¬normal ∨ group ≠ msg.witnessGroup then (c, [])
        else if (c.connectInfos sender).any fun curr => msg.version ≤ curr.version then (c, [])
        else
          match c.processConnectInfo env sender msg with
          | (c, .error _) => (c, [])
          | (c, .ok node) =>
            ({ c with connectInfos := Function.update c.connectInfos sender (some msg) },
              node.toList)

/-- The loop of `handleShakeMsg`: the nodes up to the first entry that is invalid. -/
def knownNodes (env : Env) : List EncryptData → List WitnessNode
  | [] => []
  | anther :: rest =>
    if anther.receiver ≠ env.me then []
    else
      match env.decryptConnectInfo anther.data with
      | none => []
      | some node => node :: knownNodes env rest

def handleShakeMsg (c : Control) (pid : NodeID) (msg : ShakeMsg) :
    Control × List WitnessNode :=
  match msg.mine with
  | none => (c, [])
  | some mine =>
    if mine.witness = env.me ∨ mine.enode.id ≠ pid then (c, [])
    else
      match c.processWitnessNodeInfo env mine true with
      | .error _ => (c, [])
      | .ok c =>
        if configParamsSCWitness < msg.kownNodes.length then (c, [])
        else (c, knownNodes env msg.kownNodes)

/-- What `shake` does besides sending: of one witness that is known, an outdated message is
deleted. -/
def shake (w : WitnessInfo) : Control :=
  let c := c.store (w.setStatus .netConnected)
  match c.witnessGroup.values.find? fun v => v.witness ≠ w.witness ∧
    (c.connectInfos v.witness).isSome ∧ v.nodeInfo.isSome with
  | none => c
  | some v =>
    match c.connectInfos v.witness, v.nodeInfo with
    | some info, some node =>
      if node.version ≤ info.version then c else c.delWitnessConnMsg v.witness
    | _, _ => c

def onConnected (pid : NodeID) : Control :=
  match c.loadById pid with
  | none => c
  | some w => c.shake w

def onDisconnected (pid : NodeID) : Control :=
  match c.loadById pid with
  | none => c
  | some w =>
    { c.store (w.setStatus .disconnected) with
      connectedWitness := c.connectedWitness.erase w.witness }

/-- The timer branch for one witness, with the node that it sends on the channel. -/
def checkWitness (c : Control) (witness : Address) : Control × Option WitnessNode :=
  match c.witnessGroup.get witness with
  | none => (c, none)
  | some w =>
    match w.nodeInfo, w.status with
    | some node, .disconnected => (c.tryConnect node none, none)
    | some node, .netConnected => (c.joinWitnessNode node, none)
    | some _, _ => (c, none)
    | none, _ =>
      match c.connectInfos witness with
      | none => (c, none)
      | some info =>
        match c.processConnectInfo env witness info with
        | (c, .ok node) => (c, node)
        | (c, .error _) => (c, none)

end Control

def chanCap : Nat := 12

def defMinWitnessCount : Nat := configParamsUCMinVotings

/-- The control, `listenConn` and the network goroutines. -/
structure System where
  control : Control
  newConnInfoCh : List WitnessNode
  /-- What network goroutines are about to send on the channel. -/
  sending : List WitnessNode
  /-- The witnesses that the timer branch has yet to check. -/
  todo : List Address
  /-- What was received and passed to `processWitnessNodeInfo`. -/
  processed : List WitnessNode

inductive Event where
  | shakeMsg (pid : NodeID) (msg : ShakeMsg)
  | statusMsg (msg : WitnessConnectMsg)
  | send (i : Nat)
  | addPeer (pid : NodeID)
  | dropPeer (pid : NodeID)
  | connected (pid : NodeID)
  | disconnected (pid : NodeID)
  | tick
  | check
  | receive
deriving DecidableEq

namespace System

/-- A goroutine that sends on a full channel waits. `listenConn` makes the steps from `connected`
on, and ends its timer branch before it begins another. -/
def step (s : System) : Event → Option System
  | .shakeMsg pid msg =>
    let (c, nodes) := s.control.handleShakeMsg env pid msg
    some { s with control := c, sending := s.sending ++ nodes }
  | .statusMsg msg =>
    let (c, nodes) := s.control.handleStatusMsg env msg
    some { s with control := c, sending := s.sending ++ nodes }
  | .send i =>
    match s.sending[i]? with
    | none => none
    | some node =>
      if s.newConnInfoCh.length < chanCap then
        some { s with
          newConnInfoCh := s.newConnInfoCh ++ [node], sending := s.sending.eraseIdx i }
      else none
  | .addPeer pid =>
    some { s with control := { s.control with connectedPeers := pid :: s.control.connectedPeers } }
  | .dropPeer pid =>
    some { s with control := { s.control with
      connectedPeers := s.control.connectedPeers.filter (· ≠ pid) } }
  | .connected pid =>
    if s.todo = [] then some { s with control := s.control.onConnected pid } else none
  | .disconnected pid =>
    if s.todo = [] then some { s with control := s.control.onDisconnected pid } else none
  | .tick =>
    if s.todo = [] ∧ defMinWitnessCount ≤ s.control.witnessGroup.size + 1 ∧
        s.control.witnessGroup.size ≠ s.control.connectedWitness.size then
      some { s with todo := s.control.witnessGroup.values.map WitnessInfo.witness }
    else none
  | .check =>
    match s.todo with
    | [] => none
    | w :: rest =>
      match s.control.checkWitness env w with
      | (c, none) => some { s with control := c, todo := rest }
      | (c, some node) =>
        if s.newConnInfoCh.length < chanCap then
          some { s with control := c, todo := rest, newConnInfoCh := s.newConnInfoCh ++ [node] }
        else none
  | .receive =>
    match s.todo, s.newConnInfoCh with
    | [], node :: rest =>
      some { s with
        control := (s.control.processWitnessNodeInfo env node false).toOption.getD s.control
        newConnInfoCh := rest, processed := s.processed ++ [node] }
    | _, _ => none

end System

end Nerthus.Wconn
