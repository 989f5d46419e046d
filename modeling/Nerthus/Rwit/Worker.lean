import Nerthus.Lib.Keyed
import Nerthus.Ntsdb.Set
import Nerthus.Sc.Replace

/-!
# Chains that wait for new witnesses

`witness/service/rwit`. A chain whose witnesses are to be replaced is stored with
the system unit that asked for it. The worker takes stored chains into its working
set, a few at a time; `loadNewJob` refills it.
-/

namespace Nerthus.Rwit

open Core (UnitID)
open Lib (Keyed)
open Ntsdb (DataSet)
open Sc (StateDB ChainStatus)

def maxPending : Nat := 30

def defSleepNumbers : Nat := 1

structure PendingChain where
  chain : Address
  sysUnitHash : Hash
  sysUnitNumber : Nat
deriving DecidableEq

abbrev Job := PendingChain

structure PendingStore where
  unitHash : Hash
  unitNumber : Nat
deriving DecidableEq

abbrev PendingChainSet := DataSet Address PendingStore

variable (pc : PendingChainSet)

namespace PendingChainSet

def get (chain : Address) : Option PendingChain :=
  (pc.getValue (some chain)).map fun info => ⟨chain, info.unitHash, info.unitNumber⟩

def add (chain : Address) (unitID : UnitID) : PendingChainSet :=
  match pc.get chain with
  | some old =>
    if unitID.height ≤ old.sysUnitNumber then pc
    else pc.addWithValue chain ⟨unitID.hash, unitID.height⟩
  | none => pc.addWithValue chain ⟨unitID.hash, unitID.height⟩

def del (chain : Address) : PendingChainSet := pc.remove chain

def stored : List PendingChain :=
  (List.range pc.len).filterMap fun i => (pc.getKey i).bind pc.get

end PendingChainSet

structure Chainer where
  scAccount : Address
  /-- `GetChainTailNumber` of the system chain. -/
  tailNumber : Nat
  tailNumber_lt : tailNumber < 2 ^ 64
  tailState : StateDB
  /-- `GetChainTailState` returns no error. -/
  readable : Bool
  /-- `GetStableHash` of the system chain. -/
  stableHash : Nat → Hash

variable (ch : Chainer)

namespace Chainer

def getChainTailState : Option StateDB :=
  if ch.readable then some ch.tailState else none

/-- The test of `tryAddJob`; the difference is one of `uint64`. -/
def Awake (job : Job) : Prop :=
  defSleepNumbers ≤ uint64 (ch.tailNumber + 2 ^ 64 - job.sysUnitNumber)
deriving Decidable

end Chainer

abbrev Jobs := Keyed PendingChain.chain

structure Worker where
  store : PendingChainSet
  haveJob : Bool
  dataSet : Jobs
  pended : List Address

namespace Worker

def tryAddJob (job : Job) (w : Worker) : Bool × Worker :=
  if maxPending < w.dataSet.size then (false, w)
  else if ¬ch.Awake job then (false, w)
  else (true,
    { w with
      dataSet := w.dataSet.put job
      pended := if w.pended.length < maxPending then w.pended ++ [job.chain] else w.pended })

def remove (chain : Address) (w : Worker) : Worker :=
  { w with store := w.store.del chain, dataSet := w.dataSet.erase chain }

def handleNewChain (chain : Address) (unitID : UnitID) (w : Worker) : Worker :=
  let w := w.remove chain
  let w := { w with store := w.store.add chain unitID, haveJob := true }
  (w.tryAddJob ch ⟨chain, unitID.hash, unitID.height⟩).2

/-- One turn of the walk of `loadNewJob`; the result is false where the walk ends. -/
def loadJob (db : Option StateDB) (info : PendingChain) (w : Worker) :
    Bool × Worker :=
  let w := { w with haveJob := true }
  if (w.dataSet.get info.chain).isSome then (false, w)
  else
    match db with
    | none => w.tryAddJob ch info
    | some db =>
      match db.getChainStatus info.chain with
      | (.normal, _) => (true, w.remove info.chain)
      | (.witnessReplaceUnderway, number) =>
        if info.sysUnitNumber < number then
          if ch.stableHash number = Hash.zero then (true, w)
          else
            let w := w.handleNewChain ch info.chain
              ⟨ch.scAccount, number, ch.stableHash number⟩
            -- the record read before the update
            w.tryAddJob ch info
        else w.tryAddJob ch info
      | _ => w.tryAddJob ch info

def visit (db : Option StateDB) (chain : Address) (w : Worker) : Bool × Worker :=
  match w.store.get chain with
  | none => (false, w)
  | some info => w.loadJob ch db info

def loadNewJob (update : Bool) (w : Worker) : Worker :=
  if ¬w.haveJob then w
  else if maxPending < w.dataSet.size then w
  else
    let w := { w with haveJob := false }
    let db := if update then ch.getChainTailState else none
    DataSet.range Worker.store (visit ch db) w

end Worker

end Nerthus.Rwit
