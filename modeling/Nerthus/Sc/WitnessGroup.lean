import Nerthus.Sc.Witness
import Nerthus.Lib.Fuel

/-!
# Witness groups

`witness_group.go`: how a witness joins and leaves a group, and how the groups
are repaired after one has left.
-/

namespace Nerthus.Sc

open Params

variable (db : StateDB)

namespace StateDB

def writeWitnessGroupCount (count : Nat) : StateDB := { db with groupCount := count }

def applyWitnessGroupOfSys (env : Env) (db : StateDB) (a : Address) : Except Err (StateDB × Nat) :=
  let l := (db.getWitnessSet defSysGroupIndex).length
  if configParamsSCWitnessCap < l + 1 then .error .maxWitnessLimit
  else
    let db :=
      if l = 0 ∧ db.getWitnessGroupCount = 0 then
        (db.writeWitnessGroupCount 1).addTo (chainsSetKey defSysGroupIndex) env.scAccount.toHash
      else db
    .ok (db.addTo (witnessSetKey defSysGroupIndex) a.toHash, defSysGroupIndex)

structure ChooseItem where
  groupIndex : Nat
  priority : Nat
deriving DecidableEq

/-- Those that lack the fewest witnesses come first, then those with the fewest. -/
def priority (c : Nat) : Nat :=
  if c < configParamsUCMinVotings then c
  else if configParamsUCMinVotings < c then configParamsUCWitness - c
  else 0

/-- The loop over the groups: the group that lacks just one witness, or all that have room. -/
def scanGroups (db : StateDB) : List Nat → List ChooseItem → Nat ⊕ List ChooseItem
  | [], list => .inr list
  | gpIndex :: rest, list =>
    let c := db.getWitnessCountAt gpIndex
    if c = configParamsUCWitness then scanGroups db rest list
    else if c = configParamsUCMinVotings - 1 then .inl gpIndex
    else scanGroups db rest (list ++ [⟨gpIndex, priority c⟩])

def applyWitnessGroupOfUser (a : Address) : StateDB × Nat :=
  let count := db.getWitnessGroupCount
  match scanGroups db (List.range' 1 (count - 1)) [] with
  | .inl gpIndex => (db.addTo (witnessSetKey gpIndex) a.toHash, gpIndex)
  | .inr list =>
    match list.insertionSort (fun x y => y.priority ≤ x.priority) with
    | first :: _ => (db.addTo (witnessSetKey first.groupIndex) a.toHash, first.groupIndex)
    | [] =>
      let count := if count = 0 then 1 else count
      ((db.writeWitnessGroupCount (count + 1)).addTo (witnessSetKey count) a.toHash, count)

/-! ## Repairing -/

def removeWtinessGroup (w : Address) (oldGp newGp : Nat) : Except Err StateDB :=
  if oldGp = newGp then .error (.other "not change witness group")
  else
    match StateSet.exist (db.getWitnessSet oldGp) w.toHash with
    | none => .error (.other s!"bug: can not found info at set,witness {w.hash},old group={oldGp}")
    | some index =>
      let db := db.putSet (witnessSetKey oldGp) (StateSet.removeOrder (db.getWitnessSet oldGp) index)
      let db := db.addTo (witnessSetKey newGp) w.toHash
      .ok (db.updateWitnessGroupIndex w newGp)

def countDown (need : Nat) : Nat := if need = 0 then 2 ^ 64 - 1 else need - 1

/-- The witnesses of group `gpIndex` move to `removedGp` until no more are needed. -/
def fillFrom (removedGp gpIndex : Nat) : StateDB → List Address → Nat → Except Err (StateDB × Nat)
  | db, [], need => .ok (db, need)
  | db, w :: rest, need => do
    let db ← db.removeWtinessGroup w gpIndex removedGp
    if countDown need = 0 then .ok (db, countDown need)
    else fillFrom removedGp gpIndex db rest (countDown need)

def fillGroups (removedGp : Nat) : StateDB → List Nat → Nat → Except Err StateDB
  | db, [], _ => .ok db
  | db, gpIndex :: rest, need =>
    if gpIndex = removedGp then fillGroups removedGp db rest need
    else if configParamsUCMinVotings ≤ db.getWitnessCountAt gpIndex then
      fillGroups removedGp db rest need
    else do
      let (db, need) ← fillFrom removedGp gpIndex db (db.getWitnessListAt gpIndex) need
      if need = 0 then .ok db else fillGroups removedGp db rest need

/-- `lessNeed` witnesses move to a group; the flag says that none is left. -/
def giveWitnesses (removedGp gp : Nat) :
    StateDB → List Address → Nat → Except Err (StateDB × List Address × Bool)
  | db, list, 0 => .ok (db, list, false)
  | _, [], _ + 1 => .error (.fault "index out of range")
  | db, w :: rest, lessNeed + 1 => do
    let db ← db.removeWtinessGroup w removedGp gp
    if rest.isEmpty then .ok (db, rest, true) else giveWitnesses removedGp gp db rest lessNeed

def lessNeed (times count : Nat) : Nat :=
  if 1 < times then 1
  else if configParamsUCMinVotings < count then 1
  else configParamsUCMinVotings - count

/-- One pass over the groups from position `i` on. A full group gives its place to the last one. The
flag says that the repair has ended. -/
def fixPass (times removedGp : Nat) :
    Nat → Nat → StateDB → List Address → List ChoseGroup →
      Except Err (StateDB × List Address × List ChoseGroup × Bool)
  | 0, _, db, list, cache => .ok (db, list, cache, false)
  | turns + 1, i, db, list, cache =>
    match cache[i]? with
    | none => .ok (db, list, cache, false)
    | some gp =>
      if list.isEmpty then .ok (db, list, cache, true)
      else if lessNeed times gp.witnessCount = 0 then
        fixPass times removedGp turns (i + 1) db list cache
      else do
        let count := gp.witnessCount + lessNeed times gp.witnessCount
        let (db, list, ended) ←
          giveWitnesses removedGp gp.index db list (lessNeed times gp.witnessCount)
        if ended then .ok (db, list, cache, true)
        else
          let cache := cache.set i { gp with witnessCount := count }
          if count = configParamsUCWitness then
            if cache.length = 1 then .ok (db, list, cache, true)
            else
              fixPass times removedGp turns (i + 1) db list
                (cache.set i (cache.getLastD gp)).dropLast
          else fixPass times removedGp turns (i + 1) db list cache

def fixLoop (removedGp : Nat) :
    Nat → Nat → StateDB → List Address → List ChoseGroup → Except Err StateDB
  | 0, _, _, _, _ => .error (.fault "passes")
  | passes + 1, times, db, list, cache =>
    if cache.isEmpty then .ok db
    else do
      let (db, list, cache, ended) ←
        fixPass (times + 1) removedGp cache.length 0 db list cache
      if ended then .ok db else fixLoop removedGp passes (times + 1) db list cache

def groupsWithRoom (removedGp : Nat) : List ChoseGroup :=
  (List.range' 1 (db.getWitnessGroupCount - 1)).filterMap fun i =>
    let c := db.getWitnessCountAt i
    if i ≠ removedGp ∧ c ≠ configParamsUCWitness ∧ c ≠ 0 then some ⟨i, 0, 0, c⟩ else none

def fixWitnessGroup (env : Env) (db : StateDB) (removedGp : Nat) : Except Err StateDB :=
  if removedGp = defSysGroupIndex then .ok db
  else
    let curr := db.getWitnessCountAt removedGp
    if curr = 0 then .ok db
    else if configParamsUCMinVotings ≤ curr then
      fillGroups removedGp db (List.range' 1 (db.getWitnessGroupCount - 1))
        (uint64 (configParamsUCWitness + 2 ^ 64 - curr))
    else
      let list := db.getWitnessListAt removedGp
      -- the comparison looks twice at the first group
      let cache := env.sliceStable
        (fun x _ =>
          if x.witnessCount + curr = configParamsUCMinVotings then true
          else decide (x.witnessCount < x.witnessCount))
        (db.groupsWithRoom removedGp)
      fixLoop removedGp (list.length + 1) 0 db list cache

def cancelWitnessFromWitnessGroup (env : Env) (db : StateDB) (a : Address) (groupIndex : Nat) :
    Except Err StateDB :=
  match StateSet.exist (db.getWitnessSet groupIndex) a.toHash with
  | none => .error (.other "not found witness from given group")
  | some index =>
    fixWitnessGroup env (db.putSet (witnessSetKey groupIndex)
      (StateSet.removeOrder (db.getWitnessSet groupIndex) index)) groupIndex

end StateDB

end Nerthus.Sc
