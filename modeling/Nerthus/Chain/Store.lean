import Nerthus.Chain.Children

/-!
# The unit store

The tables that `writeRightUnit` and `clearUnitWithTxs` change, and what the two functions do
under the lock of a chain. A store represents for each chain a line of headers above the
genesis unit.
-/

namespace Nerthus.Chain

open Core (TxAction)
open Function

structure TxStatusInfo where
  unitHash : Hash
  action : TxAction
  failed : Bool
  txExecIndex : Nat
deriving DecidableEq

inductive Fault where
  | nilPointer
  | crit (msg : String)
  | stackOverflow
deriving DecidableEq

structure Env where
  scAccount : Address
  publicPrivateKeyAddr : Address
  enableAsyncWriteBody : Bool
  genesisUnit : DagUnit
  genesis_number : genesisUnit.number = 0
  /-- The chains whose tail is written with the genesis unit. -/
  genesisChains : List Address
  /-- The checks of a header and its votes that do not read the store. -/
  wellSealed : DagUnit → Bool

def Env.genesis (env : Env) : Header := env.genesisUnit.header

/-- The statuses of each transaction, in the order in which they were added. -/
abbrev TxStatus := Hash → List TxStatusInfo

def addTransactionStatus (t : TxStatus) (txHash : Hash) (info : TxStatusInfo) : TxStatus :=
  update t txHash (t txHash ++ [info])

/-- `delTransactionStatus`: what is left is written back in reverse order. -/
def delTransactionStatus (t : TxStatus) (uhash txHash : Hash) (action : TxAction) : TxStatus :=
  update t txHash ((t txHash).filter fun info =>
    !(decide (info.action = action) && decide (info.unitHash = uhash))).reverse

def addStatuses (uhash : Hash) : TxStatus → Nat → List TxExec → TxStatus
  | t, _, [] => t
  | t, index, tx :: txs =>
    addStatuses uhash (addTransactionStatus t tx.txHash ⟨uhash, tx.action, tx.failed, index⟩)
      (index + 1) txs

structure Db where
  header : Hash → Option Header
  stableHash : Address → Nat → Hash
  tailHash : Address → Hash
  /-- The marks, as the iteration over the table gives them. -/
  pendingUnit : List (Hash × Address)
  body : Hash → Option (List TxExec)
  receipts : Hash → Bool
  state : Hash → Bool
  children : Children
  txStatus : TxStatus

variable (db : Db)

namespace Db

def getUnitNumber (hash : Hash) : Option (Address × Nat) :=
  (db.header hash).map fun h => (h.mc, h.number)

def getStableHash (env : Env) (db : Db) (chain : Address) (number : Nat) : Hash :=
  db.stableHash (if number = 0 then env.scAccount else chain) number

def writeHeader (h : Header) : Db :=
  { db with header := update db.header h.hash (some h) }

def writeStableHash (hash : Hash) (chain : Address) (number : Nat) : Db :=
  { db with
    stableHash := update db.stableHash chain
      (update (db.stableHash chain) number hash) }

def deleteStableHash (chain : Address) (number : Nat) : Db :=
  db.writeStableHash .zero chain number

def writeChainTailHash (hash : Hash) (chain : Address) : Db :=
  { db with tailHash := update db.tailHash chain hash }

def writePendingUnit (uhash : Hash) (chain : Address) : Db :=
  { db with pendingUnit := (uhash, chain) :: db.pendingUnit.filter fun e => e.1 ≠ uhash }

def deletePendingUnit (uhash : Hash) : Db :=
  { db with pendingUnit := db.pendingUnit.filter fun e => e.1 ≠ uhash }

def writeBody (u : DagUnit) : Db :=
  { db with
    txStatus := addStatuses u.hash db.txStatus 1 u.txs
    body := update db.body u.hash (some u.txs) }

def commitState (root : Hash) : Db :=
  { db with state := update db.state root true }

def writeChildrens (db : Db) (u : DagUnit) : Db :=
  { db with children := db.children.writeChildrens u }

def writeUnitReceipts (uhash : Hash) : Db :=
  { db with receipts := update db.receipts uhash true }

def writeUnitBody (u : DagUnit) : Db :=
  let db := db.commitState u.header.stateRoot
  let db := db.writeChildrens u
  let db := db.writeBody u
  let db := db.writeUnitReceipts u.hash
  db.deletePendingUnit u.hash

def writeHead (env : Env) (db : Db) (u : DagUnit) : Db :=
  let db := db.writeHeader u.header
  let db := db.writeStableHash u.hash u.mc u.number
  let db := db.writeChainTailHash u.hash u.mc
  if env.enableAsyncWriteBody then db.writePendingUnit u.hash u.mc else db

def deleteUnit (hash : Hash) : Db :=
  { db with
    header := update db.header hash none
    body := update db.body hash none
    receipts := update db.receipts hash false
    children := db.children.deleteChildrenRelation hash }

end Db

/-- The database, the cached tails, and the units whose body still has to be written. -/
structure Node where
  db : Db
  chainTailCache : Address → Option Hash
  pendingUnits : List DagUnit

namespace Node

variable (env : Env)

/-- `GetUnit`: a unit whose body is neither in memory nor in the database is decoded from nil. -/
def getUnit (s : Node) (hash : Hash) : Except Fault (Option DagUnit) :=
  match s.pendingUnits.find? fun u => u.hash == hash with
  | some u => .ok (some u)
  | none =>
    if hash = env.genesis.hash then .ok (some env.genesisUnit)
    else
      match s.db.header hash with
      | none => .ok none
      | some header =>
        match s.db.body hash with
        | none => .error .nilPointer
        | some txs => .ok (some ⟨header, txs⟩)

def storedTail (s : Node) (chain : Address) : Hash :=
  if (s.db.tailHash chain).emptyHash then env.genesis.hash else s.db.tailHash chain

def getChainTailHash (s : Node) (chain : Address) : Hash :=
  (s.chainTailCache chain).getD (s.storedTail env chain)

def getChainTailHead (s : Node) (chain : Address) : Option Header :=
  s.db.header (s.getChainTailHash env chain)

def getHeaderByNumber (s : Node) (chain : Address) (number : Nat) : Option Header :=
  if (s.db.getStableHash env chain number).emptyHash then none
  else s.db.header (s.db.getStableHash env chain number)

def unlinked (header : Header) : Db :=
  (db.deleteStableHash header.mc header.number).writeChainTailHash
    (if header.number = 1 then .zero else header.parentHash) header.mc

/-- What `clearUnitWithTxs` does once the children are cleared; it also gives the transactions. -/
def removeUnit (s : Node) (header : Header) (delAll : Bool) : Except Fault (Node × List TxExec) := do
  let db := unlinked s.db header
  let unit ← getUnit env { s with db := db } header.hash
  let txs := match unit with
    | none => []
    | some u => u.txs
  let db := { db with
    txStatus := txs.foldl (fun t tx => delTransactionStatus t header.hash tx.txHash tx.action)
      db.txStatus }
  let db := if delAll then db.deleteUnit header.hash else db
  return ({ s with db := db, chainTailCache := update s.chainTailCache header.mc none },
    txs)

/-- `clearUnitWithTxs`; the children are read while they are being cleared. -/
def clearUnitWithTxs (delAll : Bool) : Nat → Node → Hash → Except Fault (Node × List TxExec)
  | 0, _, _ => .error .stackOverflow
  | depth + 1, s, unitHash =>
    match s.db.header unitHash with
    | none => .ok (s, [])
    | some header =>
      if header.number = 0 then .ok (s, [])
      else do
        let (s, removedTxs) ← (List.range' 1 (s.db.children.counts unitHash)).foldlM
          (fun (r : Node × List TxExec) i =>
            match r.1.db.children.slots unitHash (.uint64ToBytes i) with
            | none => .ok r
            | some child => do
              let (s, txs) ← clearUnitWithTxs delAll depth r.1 child
              return (s, r.2 ++ txs)) (s, [])
        let (s, txs) ← s.removeUnit env header delAll
        return (s, removedTxs ++ txs)

end Node

end Nerthus.Chain
