import Nerthus.Sc.WitnessGroup

/-!
# Joining and leaving

The functions of the contract that make somebody a witness, end that, and send
a system witness to the end of its group (`normal_witenss.go`).
-/

namespace Nerthus.Sc

open Core (Bytes)

variable (env : Env) (db : StateDB)

namespace StateDB

def checkMemberType (a : Address) : Except Err Unit :=
  if a = env.foundationAccount then .error (.other "the target is foundation account")
  else if a = env.publicPrivateKeyAddr then .error (.other "the target is public address")
  else if db.existWitness a then .error .isNormalWitness
  else if db.council a then .error .isCouncil
  else .ok ()

def applyWitness (sender : Address) (value unitNumber : Nat) (publicKey : Bytes) (isSys : Bool) :
    Except Err StateDB := do
  if publicKey.isEmpty then throw (.other "public key can't be empty")
  db.checkMemberType env sender
  let (db, groupIndex) ←
    if isSys then db.applyWitnessGroupOfSys env sender
    else pure (db.applyWitnessGroupOfUser sender)
  let info : WitnessInfo :=
    { address := sender
      margin := value
      applyHeight := unitNumber
      cancelHeight := 0
      status := .normal
      groupIndex := groupIndex
      pubkey := publicKey }
  return (db.writeWitnessInfo info).updateAcitvieWitenssLib info

def onWitnessExit (sysNumber : Nat) (info : WitnessInfo) :
    Except Err StateDB := do
  if info.status = .normal then throw (.fault "invalid status")
  let info := { info with cancelHeight := sysNumber }
  let db := db.delWitnessInfo info.address info.cancelHeight info.status
  let db ← db.cancelWitnessFromWitnessGroup env info.address info.groupIndex
  return db.updateAcitvieWitenssLib info

def transfer (sender recipient : Address) (amount : Nat) : StateDB :=
  let balance := Function.update db.balance sender (db.balance sender - amount)
  { db with balance := Function.update balance recipient (balance recipient + amount) }

/-- `calcPercentMoney` with `SystemWitnessTimeoutPunish`: fifteen of a hundred are kept. -/
def calcPercentMoney (m : Nat) : Nat := m * 8500 / 10000

def removeWitness (call : Call) (db : StateDB) (w : Address) (isTimeout : Bool) :
    Except Err StateDB := do
  let info ← db.getWitnessInfo w
  if info.address ≠ w then throw (.other "only allow yourself to loggout")
  if info.status ≠ .normal then
    throw (.other "the witness status is abnormal and cannot be cancelled")
  let info := { info with status := .loggedOut, cancelHeight := call.unitNumber }
  let db :=
    if 0 < info.margin then
      db.transfer env.scAccount w (if isTimeout then calcPercentMoney info.margin else info.margin)
    else db
  db.onWitnessExit env call.unitNumber info

def cancelWitness (call : Call) (gas : Nat) (db : StateDB) (w : Address) :
    Except Err (StateDB × Nat) := do
  let gas ← useGas gas Gas.sstoreLoadGas
  let info ← db.getWitnessInfo w
  if info.address ≠ w then throw (.other "only allow yourself to loggout")
  if info.status ≠ .normal then
    throw (.other "the witness status is abnormal and cannot be cancelled")
  let info := { info with status := .loggedOut, cancelHeight := call.unitNumber }
  let db := if 0 < info.margin then db.transfer env.scAccount w info.margin else db
  let gas ← useGas gas (Gas.sstoreSetGas * 10)
  let db ← db.onWitnessExit env call.unitNumber info
  return (db, gas)

/-- `removeChainWitness`: one that is no bad witness is only logged out. -/
def removeChainWitness (call : Call) (gas : Nat) (db : StateDB) (w : Address) (isBad : Bool) :
    Except Err (StateDB × Nat) := do
  if ¬isBad then db.cancelWitness env call gas w
  else
    let gas ← useGas gas Gas.sloadGas
    let info ← db.getWitnessInfo w
    if info.status ≠ .normal then throw (.other "the witness is not active,can not do any")
    let info := { info with cancelHeight := call.unitNumber, status := .inBlackList }
    let gas ← useGas gas (Gas.sstoreSetGas * 10)
    let db ← db.onWitnessExit env call.unitNumber info
    return (db, gas)

def demoteWitness (w : Address) : Except Err StateDB := do
  let info ← db.getWitnessInfo w
  if info.status ≠ .normal then throw (.other "the witness is not active,can not do any")
  if info.groupIndex ≠ defSysGroupIndex then
    throw (.other "demoted witness is not system witness")
  let db ← db.cancelWitnessFromWitnessGroup env info.address info.groupIndex
  let (db, _) ← db.applyWitnessGroupOfSys env info.address
  return db

end StateDB

end Nerthus.Sc
