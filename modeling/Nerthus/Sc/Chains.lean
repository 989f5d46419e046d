import Nerthus.Sc.Replace

/-!
# The witnesses of a chain

How a chain gets its first group, how a contract is created, and how the owner of
a chain, or somebody else, asks for other witnesses (`normal_witenss.go`).
-/

namespace Nerthus.Sc

open Core (Bytes)
open Gas

def replaceWitnessInterval : Nat := 60 * 60 * 4 / 90

def replaceWitnessUnderwayInterval : Nat := 60 * 10 / 90

inductive TargetInput where
  | empty
  | invalid
  | who (a : Address)
deriving DecidableEq

def getReplaseWitnessTraget (sender : Address) : TargetInput → Except Err Address
  | .empty => .ok sender
  | .invalid => .error (.other "invalid input length,can not convert to address")
  | .who a =>
    if a.isContract = false ∧ a ≠ sender then
      .error (.other "does not allow change witnesses of other account")
    else .ok a

def getChainStatusIsTimeout (lastNumber currNumber : Nat) : Prop :=
  uint64 (replaceWitnessUnderwayInterval + lastNumber) ≤ currNumber
deriving Decidable

structure ChainDB where
  db : StateDB
  creater : Address → Hash

namespace ChainDB

def existContractAddress (s : ChainDB) (a : Address) : Bool := !(s.creater a).emptyHash

def writeChainCreater (s : ChainDB) (creater chainAddr : Address) : Except Err ChainDB :=
  if (s.creater chainAddr).emptyHash = false then .error (.other "chain address already exists")
  else .ok { s with creater := Function.update s.creater chainAddr creater.toHash }

end ChainDB

variable (env : Env) (call : Call) (db : StateDB)

namespace StateDB

def getChainWitnessStartNumber (a : Address) : Nat := (db.chain a).applyChainNumber

def getChainsAt (group : Nat) : List Address :=
  (db.sets (chainsSetKey group)).toList.map Hash.toAddress

def setupDefaultWitnessForUser (env : Env) : StateDB → List Address → Except Err StateDB
  | db, [] => .ok db
  | db, v :: users => do
    let db ← db.applyChainFromWitnessGroup env v 0 none 1
    setupDefaultWitnessForUser env db users

/-- The chain that `createWitness` is about: a new contract, or what the input names. -/
def newWitnessTarget (newContactAddr : Address) (input : TargetInput) :
    Except Err Address :=
  if newContactAddr.empty then getReplaseWitnessTraget call.caller input else .ok newContactAddr

def firstGroup (newContactAddr target : Address) :
    Except Err StateDB :=
  if newContactAddr.empty then db.applyChainFromWitnessGroup env target call.unitNumber none 1
  else do
    let groupIndex ← db.getGroupIndexFromUser env call.caller
    return db.applyWitnessWithGroup target call.unitNumber none groupIndex 1

def createWitness (gas : Nat) (db : StateDB) (newContactAddr : Address) (input : TargetInput) :
    Except Err (StateDB × Nat) := do
  let target ← newWitnessTarget call newContactAddr input
  if target.empty then throw (.other "invalid target")
  if target = env.scAccount then
    throw (.other "not allowed to be replaced system chain witness")
  let gas ← useGas gas sstoreLoadGas
  let gas ← useGas gas (sstoreSetGas * 2 + sloadGas * 2)
  match db.getGroupIndexFromUser env target with
  | .ok _ => throw (.other "the target already have witness")
  | .error e =>
    if e ≠ .chainMissingWitness then throw e
    let gas ← useGas gas sha256BaseGas
    let db ← db.firstGroup env call newContactAddr target
    return (db, gas)

def applyWitnessForChain (gas : Nat) (db : StateDB) (input : TargetInput) :
    Except Err (StateDB × Nat) :=
  db.createWitness env call gas .emptyAddress input

def checkReplaceStatus (gas : Nat) (db : StateDB) (target : Address) (groupIndex : Nat)
    (replaceByOther : Bool) : Except Err Nat :=
  match db.getChainStatus target with
  | (.normal, _) => do
    let gas ← useGas gas sstoreLoadGas
    if replaceByOther then return gas
    let lastNumber := (db.chain target).applyNumber
    let next := uint64 (lastNumber + replaceWitnessInterval)
    if call.unitNumber < next then
      let gas ← useGas gas sloadGas
      if Params.configParamsUCMinVotings ≤ db.getWitnessCountAt groupIndex then
        let now := call.unitNumber
        throw (.other s!"you can only replace them after system chain number {next},now is {now}")
      return gas
    else return gas
  | (.witnessReplaceUnderway, number) => do
    let gas ← useGas gas sloadGas
    if ¬getChainStatusIsTimeout number call.unitNumber then
      throw (.other "chain status is not underway or number is not meet")
    return gas
  | _ => .ok gas

/-- `replaceWitness`: a group is chosen only to see that there is one. -/
def replaceWitness (gas : Nat) (db : StateDB) (target : Address) (replaceByOther : Bool) :
    Except Err (StateDB × Nat) := do
  if target.empty then throw (.other "invalid target")
  if target = env.scAccount then
    throw (.other "not allowed to be replaced system chain witness")
  let gas ← useGas gas sstoreLoadGas
  let number := db.getChainArbitrationNumber target
  if 0 < number then throw (.other s!"chain in arbitrationing at number {number}")
  let gas ← useGas gas (sstoreSetGas * 2 + sloadGas * 2)
  let groupIndex ← db.getGroupIndexFromUser env target
  let gas ← useGas gas (sloadGas * 2)
  let gas ← db.checkReplaceStatus call gas target groupIndex replaceByOther
  let _ ← db.selectNewGroup env (some groupIndex) call.unitNumber target
  let gas ← useGas gas sstoreSetGas
  return (db.writeChainStatus target .witnessReplaceUnderway call.unitNumber, gas)

def replaceWitnessCall (gas : Nat) (db : StateDB) (input : TargetInput) :
    Except Err (StateDB × Nat) := do
  let target ← getReplaseWitnessTraget call.caller input
  db.replaceWitness env call gas target false

end StateDB

namespace ChainDB

/-- The group is too small, or too many of its witnesses are silent. -/
def Helpless (chain : Address) (groupIndex : Nat) : Prop :=
  db.getWitnessCountAt groupIndex < Params.getChainMinVoting env.scAccount chain ∨
    db.haveGoodHeartbeatOnGroup groupIndex
      (Core.forceSafeSub (StateDB.calcRound call.unitNumber) 5) = false
deriving Decidable

def handleApplyWitnessWay2 (gas : Nat) (s : ChainDB) (chain : Address) :
    Except Err (StateDB × Nat) := do
  let gas ← useGas gas (sloadGas * 10)
  if chain.empty then throw (.other "invalid address")
  if call.caller = chain then throw (.other "you can not apply witness to yourself")
  if chain = env.scAccount then throw (.other "disable apply witness for system chain")
  let gas ← useGas gas (sloadGas * 2)
  let gas ← useGas gas (if chain.isContract then sloadGas else 0)
  if chain.isContract ∧ s.existContractAddress chain = false then
    throw (.other "the contract chain is not exist")
  match s.db.getGroupIndexFromUser env chain with
  | .error e =>
    if e ≠ .chainMissingWitness then throw e
    let gas ← useGas gas (sloadGas * 2000)
    let db ← s.db.applyChainFromWitnessGroup env chain call.unitNumber none 1
    return (db, gas)
  | .ok groupIndex =>
    let gas ← useGas gas sloadGas
    if ¬Helpless env call s.db chain groupIndex then
      throw (.other s!"you can not apply witness when the address {chain.hash}'s witness is enough")
    s.db.replaceWitness env call gas chain true

/-- `GenerateContractAddress`, of the creator, the kind of machine and a number. -/
abbrev Generator := Address → Nat → Nat → Address

/-- The search for a free address. Every turn is paid for, so that `turns` never ends it. -/
def findContractAddress (gen : Generator) (s : ChainDB) (creator : Address) (vmMagic : Nat) :
    Nat → Nat → Nat → Except Err (Address × Nat)
  | 0, _, _ => .error .outOfGas
  | turns + 1, nonce, gas => do
    let gas ← useGas gas bn256PairingBaseGas
    let newAddr := gen creator vmMagic nonce
    let gas ← useGas gas (sstoreLoadGas + sstoreSetGas)
    if s.existContractAddress newAddr then
      findContractAddress gen s creator vmMagic turns (uint64 (nonce + 1)) gas
    else return (newAddr, gas)

def createContract (gen : Generator) (call : Call) (gas time : Nat) (s : ChainDB) (input : Bytes) :
    Except Err (ChainDB × Nat) := do
  if input.length ≤ 2 then throw (.other "invalid deploy contract code")
  let vmMagic := (input.take 2).foldl (fun n b => n * 256 + b.toNat) 0
  let (newAddr, gas) ← findContractAddress gen s call.caller vmMagic
    (gas / bn256PairingBaseGas + 1) time gas
  let s ← s.writeChainCreater call.caller newAddr
  let (db, gas) ← s.db.createWitness env call gas newAddr .empty
  return ({ s with db }, gas)

end ChainDB

end Nerthus.Sc
