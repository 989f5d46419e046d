import Nerthus.Sc.GroupRun
import Nerthus.Arbitration.Validtor

/-!
# Reports and arbitration

`report.go`: a system witness reports units that were voted for twice at one
height, or votes for the unit that shall stand there.
-/

namespace Nerthus.Sc

open Core (UnitID)
open Arbitration (checkProofWithState)

/-- `ReportWitnessDishonest`; a report without a choice has the empty header. -/
structure ReportWitnessDishonest where
  choose : Header
  proof : List AffectedUnit
deriving DecidableEq

def arbitrationIngKey (chain : Address) : SetKey :=
  [arbitrationInfoPrefix, .ofAddress chain, inArbitrationNumberSuffix]

def choicesKey (chain : Address) (number : Nat) : SetKey :=
  [arbitrationInfoPrefix, .ofAddress chain, .ofUint number]

def voterSetKey (chain : Address) (number : Nat) (hash : Hash) : SetKey :=
  [arbitrationInfoPrefix, .ofAddress chain, .ofUint number, .ofHash hash]

def votersKey (chain : Address) (number : Nat) : SetKey :=
  [arbitrationInfoPrefix, .ofAddress chain, .ofUint number, votersSuffix]

variable (db : StateDB) (env : Env)

namespace StateDB

def arbitrationNumbers (chain : Address) : List Nat :=
  (db.sets (arbitrationIngKey chain)).toList.map hash2uint

def getChainArbitrationNumber (chain : Address) : Nat :=
  (db.arbitrationNumbers chain).foldl
    (fun minNumber number => if minNumber = 0 ∨ number < minNumber then number else minNumber) 0

/-- `Add` to a set unless `Exist` finds the value. -/
def insertTo (key : SetKey) (v : Hash) : StateDB :=
  match StateSet.exist (db.sets key) v with
  | some _ => db
  | none => db.addTo key v

def writeArbitrationNumberFlag (chain : Address) (number : Nat) : StateDB :=
  db.insertTo (arbitrationIngKey chain) (uint2Hash number)

def clearArbitrationNumberFlag (chain : Address) (number : Nat) : StateDB :=
  match StateSet.exist (db.sets (arbitrationIngKey chain)) (uint2Hash number) with
  | some index =>
    db.putSet (arbitrationIngKey chain) (StateSet.remove (db.sets (arbitrationIngKey chain)) index)
  | none => db

def getArbitrationResult (chain : Address) (number : Nat) : Hash :=
  db.arbitrationResult chain number

def writeArbitrationResult (choose : UnitID) : StateDB :=
  { db with
    arbitrationResult := Function.update db.arbitrationResult choose.chainID
      (Function.update (db.arbitrationResult choose.chainID) choose.height choose.hash) }

def writeChainArbitration (choose : UnitID) (voter : Address) : StateDB × Nat :=
  let chain := choose.chainID
  let number := choose.height
  let voterSet := voterSetKey chain number choose.hash
  match StateSet.exist (db.sets (votersKey chain number)) voter.toHash with
  | some _ => (db, (db.sets voterSet).length)
  | none =>
    let db := db.insertTo (choicesKey chain number) choose.hash
    let db := db.addTo voterSet voter.toHash
    let db := db.addTo (votersKey chain number) voter.toHash
    (db, (db.sets voterSet).length)

def arbitrationVote (db : StateDB) (chooseUnit : Header) (voter : Address) :
    Except Err StateDB := do
  let choose := chooseUnit.id
  if choose.isEmpty then throw (.other "invalid vote info")
  let minNumber := db.getChainArbitrationNumber choose.chainID
  let height := choose.height
  if minNumber = 0 then throw (.other "missing chain arbitration info")
  if minNumber ≠ choose.height then
    throw (.other s!"can not vote for height number,current arbitration number is {minNumber},your vote for {height}")
  if ¬(db.getArbitrationResult choose.chainID choose.height).emptyHash then
    throw (.other "chain arbitration end")
  let (db, voterCount) := db.writeChainArbitration choose voter
  if Params.getChainMinVoting env.scAccount choose.chainID ≤ voterCount then
    return (db.clearArbitrationNumberFlag choose.chainID choose.height).writeArbitrationResult choose
  else return db

def writeBadWitness (call : Call) (gas : Nat) (db : StateDB) (w : Address) :
    Except Err (StateDB × Nat) :=
  if db.badWitness w then .ok (db, gas)
  else
    removeChainWitness env call gas { db with badWitness := Function.update db.badWitness w true } w
      true

def punish (env : Env) (call : Call) : Nat → StateDB → List Address → Except Err (StateDB × Nat)
  | gas, db, [] => .ok (db, gas)
  | gas, db, bad :: rest => do
    let gas ← useGas gas Gas.bn256PairingBaseGas
    let (db, gas) ← db.writeBadWitness env call gas bad
    punish env call gas db rest

def checkVoterStatus (a : Address) : Except Err Unit :=
  match db.getWitnessStatus a with
  | none => .error (.other "this voter is not witness")
  | some status =>
    if status ≠ some .normal then .error (.other "this voter is not normal witness") else .ok ()

def checkReport (proof : List AffectedUnit) : Except Err (List Address) :=
  checkProofWithState env.scAccount env.voteSender env.getUnitState (some checkVoterStatus) proof

def sortAccused (bads : List Address) : List Address :=
  bads.insertionSort fun a b => a.hash ≤ b.hash

def systemReportDishonest (call : Call) (gas : Nat) (db : StateDB) (rep : ReportWitnessDishonest) :
    Except Err (StateDB × Nat) := do
  if rep.proof.isEmpty ∧ rep.choose.mc.empty then throw (.other "the report info is empty")
  let gas ← useGas gas (Gas.sstoreLoadGas * 2)
  if call.caller ∉ db.getSystemMainWitness then
    throw (.other "reporter is not system main witness")
  let gas ← useGas gas (Gas.sha256BaseGas * 2)
  match rep.proof with
  | [] =>
    let gas ← useGas gas Gas.sstoreSetGas
    let db ← db.arbitrationVote env rep.choose call.caller
    return (db, gas)
  | first :: _ =>
    let mc := first.header.mc
    let number := first.header.number
    let gas ← useGas gas Gas.sstoreLoadGas
    let badWitness ← checkReport env rep.proof
    let (db, gas) ← punish env call gas db (sortAccused badWitness)
    let gas ← useGas gas Gas.sstoreLoadGas
    let gas ← useGas gas Gas.sstoreSetGas
    let db := db.writeArbitrationNumberFlag mc number
    if rep.choose.mc.empty then return (db, gas)
    else
      if rep.choose.number ≠ number ∨ rep.choose.mc ≠ mc then throw (.other "invalid choose")
      let gas ← useGas gas Gas.sstoreSetGas
      let db ← db.arbitrationVote env rep.choose call.caller
      return (db, gas)

end StateDB

end Nerthus.Sc
