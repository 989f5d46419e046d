import Nerthus.Sc.StateSet

/-!
# Witnesses

The records of witnesses and the questions after their role
(`normal_witenss.go`, `sc_common.go`). A witness that leaves keeps its flag
and its group index; only its status and the height change.
-/

namespace Nerthus.Sc

open Core (Bytes)
open Function

def defSysGroupIndex : Nat := 0

def witnessSetKey (group : Nat) : SetKey :=
  [prefixWitnessGroupInfo, .ofUint group, defGroupWitenssPrefix]

def chainsSetKey (group : Nat) : SetKey :=
  [prefixWitnessGroupInfo, .ofUint group, defGroupChainPrefix]

@[simp] theorem witnessSetKey_inj {g g' : Nat} : witnessSetKey g = witnessSetKey g' ↔ g = g' := by
  simp [witnessSetKey]

@[simp] theorem chainsSetKey_ne_witnessSetKey (g g' : Nat) : chainsSetKey g ≠ witnessSetKey g' := by
  simp [chainsSetKey, witnessSetKey, defGroupChainPrefix, defGroupWitenssPrefix]

@[simp] theorem allWitenssKey_ne_witnessSetKey (g : Nat) : [allWitenssKey] ≠ witnessSetKey g := by
  simp [witnessSetKey]

/-- `WitnessInfo`; its field `Index` is never set. -/
structure WitnessInfo where
  address : Address
  margin : Nat
  applyHeight : Nat
  cancelHeight : Nat
  status : WitnessStatus
  groupIndex : Nat
  pubkey : Bytes
deriving DecidableEq

variable {a : Address} (db : StateDB)

namespace StateDB

def putSet (key : SetKey) (s : StateSet) : StateDB :=
  { db with sets := update db.sets key s }

def addTo (key : SetKey) (v : Hash) : StateDB :=
  db.putSet key (StateSet.add (db.sets key) v)

def putWitness (a : Address) (item : WitnessItem) : StateDB :=
  { db with witness := update db.witness a item }

@[simp] theorem putSet_sets_self (key : SetKey) (s : StateSet) :
    (db.putSet key s).sets key = s :=
  update_self _ _ _

theorem putSet_sets_of_ne {key key' : SetKey} (h : key' ≠ key) (s : StateSet) :
    (db.putSet key s).sets key' = db.sets key' :=
  update_of_ne h _ _

theorem putSet_self (key : SetKey) : db.putSet key (db.sets key) = db := by
  rw [putSet, update_eq_self]

theorem addTo_sets (key key' : SetKey) (v : Hash) :
    (db.addTo key v).sets key' =
      if key' = key then StateSet.add (db.sets key) v else db.sets key' :=
  update_apply _ _ _ _

@[simp] theorem putWitness_self (a : Address) (item : WitnessItem) :
    (db.putWitness a item).witness a = item :=
  update_self _ _ _

theorem putWitness_of_ne {b : Address} (h : b ≠ a) (item : WitnessItem) :
    (db.putWitness a item).witness b = db.witness b :=
  update_of_ne h _ _

def getWitnessSet (group : Nat) : StateSet := db.sets (witnessSetKey group)

def getWitnessListAt (group : Nat) : List Address :=
  (db.getWitnessSet group).toList.map Hash.toAddress

def getWitnessCountAt (group : Nat) : Nat := (db.getWitnessSet group).length

def getWitnessGroupCount : Nat := if db.groupCount = 0 then 1 else db.groupCount

variable {db} in
theorem mem_getWitnessListAt {group : Nat} :
    a ∈ db.getWitnessListAt group ↔ a.toHash ∈ (db.getWitnessSet group).toList :=
  mem_map_toAddress

def getWitnessIndex (gp : Nat) (w : Address) : Int :=
  match StateSet.exist (db.getWitnessSet gp) w.toHash with
  | none => -1
  | some index => index

def getWitnessInfo (a : Address) : Except Err WitnessInfo :=
  match (db.witness a).status with
  | none => .error .noWitnessInfo
  | some status =>
    .ok { address := a
          margin := (db.witness a).margin
          applyHeight := (db.witness a).applyHeight
          cancelHeight := (db.witness a).cancelHeight
          status := status
          groupIndex := (db.witness a).groupIndex
          pubkey := (db.witness a).pkey }

def getWitnessStatus (a : Address) : Option (Option WitnessStatus) :=
  if (db.witness a).flag then some (db.witness a).status else none

def existWitness (a : Address) : Bool := (db.witness a).flag

def delWitnessInfo (a : Address) (number : Nat) (status : WitnessStatus) : StateDB :=
  db.putWitness a { db.witness a with status := some status, cancelHeight := number }

def updateWitnessGroupIndex (a : Address) (gp : Nat) : StateDB :=
  db.putWitness a { db.witness a with groupIndex := gp }

def calcRound (number : Nat) : Nat :=
  if number % Params.configParamsSCWitness = 0 then number / Params.configParamsSCWitness
  else number / Params.configParamsSCWitness + 1

def queryHeartbeatLastRound (role : HeartbeatRole) (a : Address) : Nat :=
  ((db.heartbeat role a).map Heartbeat.lastTurn).getD 0

def initHearbeatLastRound (role : HeartbeatRole) (a : Address) (number : Nat) :
    StateDB :=
  let beat : Heartbeat := ⟨calcRound number, number⟩
  -- a record of the empty address counts as none
  match if a = .emptyAddress then none else db.heartbeat role a with
  | some old =>
    if beat.lastTurn ≤ old.lastTurn then db
    else { db with
            heartbeat := update db.heartbeat role
              (update (db.heartbeat role) a (some beat)) }
  | none =>
    { db with
      heartbeat := update db.heartbeat role
        (update (db.heartbeat role) a (some beat)) }

def writeWitnessInfo (info : WitnessInfo) : StateDB :=
  let db := db.putWitness info.address
    { flag := true
      margin := info.margin
      status := some info.status
      cancelHeight := info.cancelHeight
      applyHeight := info.applyHeight
      groupIndex := info.groupIndex
      pkey := info.pubkey }
  let role := if info.groupIndex ≠ defSysGroupIndex then HeartbeatRole.userWitness
    else .systemWitness
  db.initHearbeatLastRound role info.address info.applyHeight

/-- `AddActiveWitness`, with `safeAdd`. -/
def addActiveWitness (n : Int) : StateDB :=
  { db with
    activeWitness := if 0 ≤ n then db.activeWitness + n.toNat
      else Core.forceSafeSub db.activeWitness (-n).toNat }

/-- `UpdateAcitvieWitenssLib`, without the counters of the periods. -/
def updateAcitvieWitenssLib (info : WitnessInfo) : StateDB :=
  match info.status with
  | .normal => (db.addTo [allWitenssKey] info.address.toHash).addActiveWitness 1
  | .loggedOut | .inBlackList => db.addActiveWitness (-1)

/-- `GetWitnessGroupIndex`: index zero is a group only of one that has the flag. -/
def getWitnessGroupIndex (a : Address) : Except Err Nat :=
  let gpIndex := (db.witness a).groupIndex
  if gpIndex = 0 ∧ (db.witness a).flag = false then .error .notFindWitness else .ok gpIndex

def readSystemWitness : List Address := db.getWitnessListAt defSysGroupIndex

def getSystemMainWitness : List Address :=
  let witnessList := db.readSystemWitness
  let num := if witnessList.length < Params.configParamsSCWitness then witnessList.length
    else Params.configParamsSCWitness
  witnessList.take num

def isSystemWitness (a : Address) : Bool :=
  match db.getWitnessGroupIndex a with
  | .error _ => false
  | .ok index => index == defSysGroupIndex

def isMainSystemWitness (a : Address) : Bool :=
  match db.getWitnessGroupIndex a with
  | .error _ => false
  | .ok gp =>
    if gp ≠ defSysGroupIndex then false
    else decide (db.getWitnessIndex gp a ≤ (Params.configParamsSCWitness : Int) - 1)

variable {db}

theorem isSystemWitness_iff :
    db.isSystemWitness a = true ↔ (db.witness a).flag = true ∧ (db.witness a).groupIndex = 0 := by
  rw [isSystemWitness, getWitnessGroupIndex]
  by_cases hindex : (db.witness a).groupIndex = 0
  · cases hflag : (db.witness a).flag <;> simp [hindex, defSysGroupIndex]
  · simp [hindex, defSysGroupIndex]

theorem isMainSystemWitness_iff :
    db.isMainSystemWitness a = true ↔
      db.isSystemWitness a = true ∧ (db.getWitnessSet 0).index a.toHash ≤ 11 := by
  have hposition : db.getWitnessIndex 0 a ≤ 10 ↔ (db.getWitnessSet 0).index a.toHash ≤ 11 := by
    rw [getWitnessIndex, StateSet.exist]
    by_cases hzero : (db.getWitnessSet 0).index a.toHash = 0
    · simp [hzero]
    · rw [if_neg hzero]
      dsimp only
      omega
  rw [isMainSystemWitness, isSystemWitness, ← hposition]
  cases hgroup : db.getWitnessGroupIndex a with
  | error e => simp
  | ok gp =>
    by_cases hgp : gp = 0
    · simp [hgp, defSysGroupIndex, Params.configParamsSCWitness]
    · simp [hgp, defSysGroupIndex]

theorem getSystemMainWitness_eq (db : StateDB) :
    db.getSystemMainWitness = (db.getWitnessListAt 0).take 11 := by
  change (db.getWitnessListAt 0).take
    (if (db.getWitnessListAt 0).length < 11 then (db.getWitnessListAt 0).length else 11) = _
  by_cases hlt : (db.getWitnessListAt 0).length < 11
  · rw [if_pos hlt, List.take_length, List.take_of_length_le (by omega)]
  · rw [if_neg hlt]

theorem mem_getSystemMainWitness (hfaithful : (db.getWitnessSet 0).Faithful) :
    a ∈ db.getSystemMainWitness ↔
      a ∈ db.getWitnessListAt 0 ∧ (db.getWitnessSet 0).index a.toHash ≤ 11 := by
  rw [getSystemMainWitness_eq, mem_getWitnessListAt, getWitnessListAt, ← List.map_take,
    mem_map_toAddress, hfaithful.mem_take_iff]

end StateDB

end Nerthus.Sc
