import Nerthus.Sc.Reported

/-!
# The replacement of the witnesses of a chain

`ReplaceWitnessExecute`: the system witnesses have chosen the last unit of a
chain, and the chain gets another group.
-/

namespace Nerthus.Sc

open Core (Bytes UnitID)
open Lib (bind_eq_ok_iff guard_eq_ok_iff)
open List

structure ReplaceWitnessExecuteInput where
  chain : Address
  applyNumber : Nat
  applyUHash : Hash
  choose : UnitID
  unitVoterSigns : List WitenssVote
  chooseVoteSign : List Bytes
deriving DecidableEq

def ReplaceWitnessExecuteInput.vote (info : ReplaceWitnessExecuteInput) (sign : Bytes) : ChooseVote :=
  ⟨info.chain, info.applyNumber, info.applyUHash, info.choose, sign⟩

namespace StateDB

def putChain (db : StateDB) (a : Address) (item : ChainItem) : StateDB :=
  { db with chain := Function.update db.chain a item }

def getChainStatus (db : StateDB) (a : Address) : ChainStatus × Nat :=
  match (db.chain a).applyStatus with
  | none => (.notWitness, 0)
  | some status => (status, (db.chain a).applyStatusNumber)

def getGroupIndexFromUser (env : Env) (db : StateDB) (a : Address) : Except Err Nat :=
  if a = env.scAccount then .ok defSysGroupIndex
  else if (db.chain a).groupIndex = 0 then .error .chainMissingWitness
  else .ok (db.chain a).groupIndex

def writeChainStatus (db : StateDB) (a : Address) (status : ChainStatus) (sysNumber : Nat) :
    StateDB :=
  db.putChain a { db.chain a with applyStatus := some status, applyStatusNumber := sysNumber }

def writeChainInfo (db : StateDB) (a : Address) (sysNumber groupIndex chainNumber : Nat) : StateDB :=
  (db.putChain a { db.chain a with
    applyNumber := sysNumber
    applyChainNumber := chainNumber
    groupIndex := groupIndex
    applyNumberOld := (db.chain a).applyNumber
    groupIndexOld := (db.chain a).groupIndex }).writeChainStatus a .normal sysNumber

def setSpecialUnitAtChain (db : StateDB) (uid : UnitID) : Except Err StateDB :=
  if uid.height = 0 then .ok db
  else
    let v := db.specialUnit uid.chainID uid.height
    if v.emptyHash = false then
      if v ≠ uid.hash then
        .error (.other s!"exist choose {v.val},now want choose {uid.hash.val}")
      else .ok db
    else
      .ok { db with
        specialUnit := Function.update db.specialUnit uid.chainID
          (Function.update (db.specialUnit uid.chainID) uid.height uid.hash) }

/-- `haveGoodHeartbeatOnGroup`. The loop of the program stops as soon as enough have been
counted. -/
def haveGoodHeartbeatOnGroup (db : StateDB) (gp minRound : Nat) : Bool :=
  if minRound = 0 then true
  else decide (Params.configParamsUCMinVotings ≤ ((db.getWitnessListAt gp).filter fun w =>
    minRound ≤ db.queryHeartbeatLastRound .userWitness w).length)

def lowerPriority (x y : ChoseGroup) : Bool :=
  decide (x.witnessCount < y.witnessCount) || decide (y.chainCount < x.chainCount) ||
    decide (x.rate < y.rate) || decide (x.index < y.index)

/-- The loop of `selectNewGroup`: a group without chains, or all that can be chosen. -/
def scanNewGroups (db : StateDB) (oldIndex : Option Nat) (isG : Bool) (minRound : Nat) :
    List Nat → List ChoseGroup → Nat ⊕ List ChoseGroup
  | [], list => .inr list
  | i :: rest, list =>
    if i = defSysGroupIndex ∨ oldIndex = some i then scanNewGroups db oldIndex isG minRound rest list
    else if isG then .inl i
    else if db.getWitnessCountAt i < Params.configParamsUCMinVotings then
      scanNewGroups db oldIndex isG minRound rest list
    else if (db.sets (chainsSetKey i)).length = 0 then
      if db.haveGoodHeartbeatOnGroup i minRound = false then
        scanNewGroups db oldIndex isG minRound rest list
      else .inl i
    else
      scanNewGroups db oldIndex isG minRound rest
        (list ++ [⟨i, (db.sets (chainsSetKey i)).length, 0, db.getWitnessCountAt i⟩])

def selectNewGroup (env : Env) (db : StateDB) (oldIndex : Option Nat) (number : Nat) (a : Address) :
    Except Err Nat :=
  if a = env.scAccount then .error (.other "disable apply witness for system chain")
  else if 0 < db.getChainArbitrationNumber a then .error (.other "chain in arbitrationing")
  else
    let count := db.getWitnessGroupCount
    if count = 0 then .error (.other "witness group is empty")
    else
      let minRound := Core.forceSafeSub (calcRound number) 2
      match scanNewGroups db oldIndex (number == 0) minRound (List.range count) [] with
      | .inl i => .ok i
      | .inr canChoseFrom =>
        let sorted := env.sliceStable lowerPriority canChoseFrom
        match sorted.getLast? with
        | none => .error .noWitnessGroupUse
        | some last =>
          match sorted.reverse.find? fun gp => db.haveGoodHeartbeatOnGroup gp.index minRound with
          | some gp => .ok gp.index
          | none => .ok last.index

def cancelChainFromWitnessGroup (db : StateDB) (a : Address) (groupIndex : Nat) : StateDB :=
  match StateSet.exist (db.sets (chainsSetKey groupIndex)) a.toHash with
  | none => db
  | some index =>
    db.putSet (chainsSetKey groupIndex) (StateSet.remove (db.sets (chainsSetKey groupIndex)) index)

def applyWitnessWithGroup (db : StateDB) (a : Address) (number : Nat) (oldIndex : Option Nat)
    (newIndex chainNumber : Nat) : StateDB :=
  let db := match oldIndex with
    | some old => db.cancelChainFromWitnessGroup a old
    | none => db
  (db.addTo (chainsSetKey newIndex) a.toHash).writeChainInfo a number newIndex chainNumber

def applyChainFromWitnessGroup (env : Env) (db : StateDB) (a : Address) (number : Nat)
    (oldIndex : Option Nat) (chainNumber : Nat) : Except Err StateDB := do
  let witenssGroup ← db.selectNewGroup env oldIndex number a
  return db.applyWitnessWithGroup a number oldIndex witenssGroup chainNumber

def checkChooseVotes (env : Env) (db : StateDB) (info : ReplaceWitnessExecuteInput) :
    Nat → List Bytes → Except Err Nat
  | gas, [] => .ok gas
  | gas, v :: rest => do
    let gas ← useGas gas Gas.ecrecoverGas
    let send ← env.chooseSender (info.vote v)
    let gas ← useGas gas (Gas.sloadGas * 3)
    if ¬db.isMainSystemWitness send then
      throw (.other "sign account is not main system witness")
    checkChooseVotes env db info gas rest

def checkUnitVotes (env : Env) (db : StateDB) (uhash : Hash) :
    Nat → List WitenssVote → Except Err Nat
  | gas, [] => .ok gas
  | gas, v :: rest => do
    let gas ← useGas gas Gas.ecrecoverGas
    let sender ← env.voteSender (v.toVote uhash)
    if ¬db.existWitness sender then throw (.other s!"{sender.hash} is not witness")
    checkUnitVotes env db uhash gas rest

def checkCounts (env : Env) (info : ReplaceWitnessExecuteInput) : Except Err Unit := do
  if info.choose.height = 0 ∧ info.choose.hash ≠ env.genesisHash then
    throw (.other "invalid choose")
  if info.choose.height ≠ 0 ∧
      info.unitVoterSigns.length < Params.getChainMinVoting env.scAccount info.chain then
    throw (.other "witness replace vote sum insufficient")
  if info.chooseVoteSign.length < Params.getChainMinVoting env.scAccount env.scAccount then
    throw (.other "witness replace vote sum insufficient")

/-- The chain of the choice: another chain is rejected only below the first unit. -/
def checkChooseChain (env : Env) (info : ReplaceWitnessExecuteInput) : Except Err Unit := do
  if info.choose.chainID ≠ info.chain ∧ info.choose.height = 0 ∧
      info.choose.chainID ≠ env.scAccount then
    throw (.other "invalid choose unit")

def changeGroup (env : Env) (call : Call) (db : StateDB) (chain : Address) (oldGroupIndex : Nat)
    (chainNumber : Nat) : Except Err StateDB :=
  match db.applyChainFromWitnessGroup env chain call.unitNumber (some oldGroupIndex) chainNumber with
  | .error e =>
    if e = .noWitnessGroupUse then .ok (db.writeChainStatus chain .normal call.unitNumber)
    else .error e
  | .ok db => .ok db

def handleReplaceWitnessExec (env : Env) (call : Call) (gas : Nat) (db : StateDB)
    (info : ReplaceWitnessExecuteInput) : Except Err (StateDB × Nat) := do
  let gas ← useGas gas (Gas.sloadGas + Gas.sstoreLoadGas)
  checkCounts env info
  let gas ← useGas gas (Gas.sloadGas + Gas.sstoreLoadGas)
  let (chainStatus, statusNumber) := db.getChainStatus info.chain
  if chainStatus ≠ .witnessReplaceUnderway then
    throw (.other "chain status is not witness replace underway")
  if info.applyNumber ≠ statusNumber then
    throw (.other s!"mismatch status number:want {statusNumber},got {info.applyNumber}")
  let gas ← checkChooseVotes env db info gas info.chooseVoteSign
  checkChooseChain env info
  let gas ← checkUnitVotes env db info.choose.hash gas info.unitVoterSigns
  let db ← db.setSpecialUnitAtChain info.choose
  let gas ← useGas gas (Gas.sloadGas + Gas.sstoreLoadGas)
  let oldGroupIndex ← db.getGroupIndexFromUser env info.chain
  if oldGroupIndex = 0 then throw (.other "current witness is empty witness list")
  let gas ← useGas gas (Gas.sloadGas + Gas.sstoreSetGas * 5)
  let db ← db.changeGroup env call info.chain oldGroupIndex (uint64 (info.choose.height + 1))
  return (db, gas)

def handleEntries (env : Env) (call : Call) :
    Nat → StateDB → List ReplaceWitnessExecuteInput → Except Err (StateDB × Nat)
  | gas, db, [] => .ok (db, gas)
  | gas, db, one :: rest => do
    let (db, gas) ← db.handleReplaceWitnessExec env call gas one
    handleEntries env call gas db rest

def replaceWitnessExecute (env : Env) (call : Call) (gas : Nat) (db : StateDB)
    (data : List ReplaceWitnessExecuteInput) : Except Err (StateDB × Nat) := do
  let gas ← useGas gas (Gas.sloadGas + Gas.sstoreSetGas)
  if data.isEmpty then throw (.other "empty input")
  if call.caller ≠ call.coinbase then throw (.other "transaction only exec by unit caller")
  handleEntries env call gas db data

/-! ## What was checked -/

def SignedChoice (env : Env) (info : ReplaceWitnessExecuteInput) (a : Address) : Prop :=
  ∃ sign ∈ info.chooseVoteSign, env.chooseSender (info.vote sign) = .ok a

def SignedUnit (env : Env) (info : ReplaceWitnessExecuteInput) (a : Address) : Prop :=
  ∃ v ∈ info.unitVoterSigns, env.voteSender (v.toVote info.choose.hash) = .ok a

section Spec

variable {env : Env} {call : Call} {db db' : StateDB} {info : ReplaceWitnessExecuteInput}
  {gas gas' : Nat}

theorem checkChooseVotes_spec {signs : List Bytes}
    (h : checkChooseVotes env db info gas signs = .ok gas') :
    ∀ sign ∈ signs, ∀ a, env.chooseSender (info.vote sign) = .ok a →
      db.isMainSystemWitness a = true := by
  induction signs generalizing gas with
  | nil => simp
  | cons v rest ih =>
    obtain ⟨_, -, h⟩ := bind_eq_ok_iff.mp h
    obtain ⟨send, hsend, h⟩ := bind_eq_ok_iff.mp h
    obtain ⟨_, -, h⟩ := bind_eq_ok_iff.mp h
    obtain ⟨hmain, h⟩ := guard_eq_ok_iff.mp h
    intro sign hsign a ha
    rcases mem_cons.mp hsign with rfl | hrest
    · rw [hsend] at ha
      cases ha
      exact not_not.mp hmain
    · exact ih h sign hrest a ha

theorem checkUnitVotes_spec {uhash : Hash} {votes : List WitenssVote}
    (h : checkUnitVotes env db uhash gas votes = .ok gas') :
    ∀ v ∈ votes, ∀ a, env.voteSender (v.toVote uhash) = .ok a → db.existWitness a = true := by
  induction votes generalizing gas with
  | nil => simp
  | cons v rest ih =>
    obtain ⟨_, -, h⟩ := bind_eq_ok_iff.mp h
    obtain ⟨sender, hsender, h⟩ := bind_eq_ok_iff.mp h
    obtain ⟨hexist, h⟩ := guard_eq_ok_iff.mp h
    intro w hw a ha
    rcases mem_cons.mp hw with rfl | hrest
    · rw [hsender] at ha
      cases ha
      exact not_not.mp hexist
    · exact ih h w hrest a ha

structure InChains (db db' : StateDB) : Prop where
  sets : ∀ g, db'.getWitnessSet g = db.getWitnessSet g
  rest : db' = { db with sets := db'.sets, chain := db'.chain, specialUnit := db'.specialUnit }

theorem InChains.refl (db : StateDB) : InChains db db := ⟨fun _ => rfl, rfl⟩

theorem InChains.trans {db₁ : StateDB} (h : InChains db db₁) (h' : InChains db₁ db') :
    InChains db db' := by
  refine ⟨fun g => (h'.sets g).trans (h.sets g), ?_⟩
  rw [h'.rest]
  rw [h.rest]

theorem InChains.consistent (h : InChains db db') (hdb : Consistent db) : Consistent db' := by
  refine hdb.congr h.sets ?_ ?_
  · rw [h.rest]
  · rw [getWitnessGroupCount, getWitnessGroupCount, h.rest]

theorem inChains_putChainsSet (db : StateDB) (g : Nat) (s : StateSet) :
    InChains db (db.putSet (chainsSetKey g) s) :=
  ⟨fun g' => putSet_sets_of_ne _ (chainsSetKey_ne_witnessSetKey g g').symm _, rfl⟩

theorem inChains_putChain (db : StateDB) (a : Address) (item : ChainItem) :
    InChains db (db.putChain a item) :=
  ⟨fun _ => rfl, rfl⟩

theorem cancelChain_eq (db : StateDB) (a : Address) (g : Nat) : db.cancelChainFromWitnessGroup a g =
      db.putSet (chainsSetKey g) (StateSet.erase (db.sets (chainsSetKey g)) a.toHash) := by
  rw [cancelChainFromWitnessGroup, StateSet.erase]
  cases StateSet.exist (db.sets (chainsSetKey g)) a.toHash with
  | none => exact (db.putSet_self _).symm
  | some index => rfl

def withoutChain (db : StateDB) (a : Address) (oldIndex : Option Nat) : StateDB :=
  match oldIndex with
  | some old => db.cancelChainFromWitnessGroup a old
  | none => db

theorem inChains_applyWitnessWithGroup (db : StateDB) (a : Address) (number : Nat)
    (oldIndex : Option Nat) (newIndex chainNumber : Nat) :
    InChains db (db.applyWitnessWithGroup a number oldIndex newIndex chainNumber) := by
  have hcancel : InChains db (db.withoutChain a oldIndex) := by
    cases oldIndex with
    | none => exact .refl _
    | some old =>
      rw [withoutChain, cancelChain_eq]
      exact inChains_putChainsSet _ _ _
  exact ((hcancel.trans (inChains_putChainsSet _ _ _)).trans (inChains_putChain _ _ _)).trans
    (inChains_putChain _ _ _)

theorem applyChainFromWitnessGroup_spec {a : Address} {number chainNumber : Nat}
    {oldIndex : Option Nat}
    (h : db.applyChainFromWitnessGroup env a number oldIndex chainNumber = .ok db') :
    InChains db db' ∧ db'.specialUnit = db.specialUnit := by
  obtain ⟨group, -, h⟩ := bind_eq_ok_iff.mp h
  cases h
  refine ⟨inChains_applyWitnessWithGroup _ _ _ _ _ _, ?_⟩
  change (db.withoutChain a oldIndex).specialUnit = _
  cases oldIndex with
  | none => rfl
  | some old =>
    rw [withoutChain, cancelChain_eq]
    rfl

theorem changeGroup_spec {chain : Address} {oldGroupIndex chainNumber : Nat}
    (h : db.changeGroup env call chain oldGroupIndex chainNumber = .ok db') :
    InChains db db' ∧ db'.specialUnit = db.specialUnit := by
  rw [changeGroup] at h
  split at h
  · split at h
    · cases h
      exact ⟨inChains_putChain _ _ _, rfl⟩
    · cases h
  · next hok =>
    cases h
    exact applyChainFromWitnessGroup_spec hok

theorem setSpecialUnitAtChain_spec {uid : UnitID} (h : db.setSpecialUnitAtChain uid = .ok db') :
    db' = { db with specialUnit := db'.specialUnit } ∧
      (uid.height ≠ 0 → db'.specialUnit uid.chainID uid.height = uid.hash) := by
  rw [setSpecialUnitAtChain] at h
  split at h
  · next hzero =>
    cases h
    exact ⟨rfl, fun hne => absurd hzero hne⟩
  · dsimp only at h
    split at h
    · split at h
      · cases h
      · next hsame =>
        cases h
        exact ⟨rfl, fun _ => not_not.mp hsame⟩
    · cases h
      refine ⟨rfl, fun _ => ?_⟩
      dsimp only
      rw [Function.update_self, Function.update_self]

/-- What the program has checked of an entry that it carries out, and what it leaves. -/
structure Executed (env : Env) (db : StateDB) (info : ReplaceWitnessExecuteInput) (db' : StateDB) :
    Prop where
  choosers : ∀ a, SignedChoice env info a → db.isMainSystemWitness a = true
  voters : ∀ a, SignedUnit env info a → db.existWitness a = true
  special : info.choose.height ≠ 0 →
    db'.specialUnit info.choose.chainID info.choose.height = info.choose.hash
  frame : InChains db db'

theorem handleReplaceWitnessExec_spec
    (h : db.handleReplaceWitnessExec env call gas info = .ok (db', gas')) :
    Executed env db info db' := by
  unfold handleReplaceWitnessExec at h
  simp only [bind_eq_ok_iff, guard_eq_ok_iff] at h
  obtain ⟨_, -, ⟨⟩, -, _, -, -, -, gas₃, hchoosers, ⟨⟩, -, gas₄, hvoters, db₁, hspecial,
    gas₅, -, old, -, -, gas₆, -, db₂, hchange, h⟩ := h
  cases h
  obtain ⟨hrest, hrecorded⟩ := setSpecialUnitAtChain_spec hspecial
  have hframe : InChains db db₁ := by
    rw [hrest]
    exact ⟨fun _ => rfl, rfl⟩
  obtain ⟨hframe', hkept⟩ := changeGroup_spec hchange
  refine ⟨?_, ?_, fun hheight => ?_, hframe.trans hframe'⟩
  · rintro a ⟨sign, hsign, ha⟩
    exact checkChooseVotes_spec hchoosers sign hsign a ha
  · rintro a ⟨v, hv, ha⟩
    exact checkUnitVotes_spec hvoters v hv a ha
  · rw [hkept]
    exact hrecorded hheight

end Spec

/-! ## Quorums -/

/-- Enough main system witnesses have signed the choice, enough witnesses the unit, and the special
unit is one of the chain itself. -/
structure RealQuorum (env : Env) (db : StateDB) (info : ReplaceWitnessExecuteInput) (db' : StateDB) :
    Prop where
  choosers : ∃ choosers : List Address, choosers.Nodup ∧
    Params.getChainMinVoting env.scAccount env.scAccount ≤ choosers.length ∧
    ∀ a ∈ choosers, a ∈ db.getSystemMainWitness ∧ SignedChoice env info a
  voters : info.choose.height ≠ 0 → ∃ voters : List Address, voters.Nodup ∧
    Params.getChainMinVoting env.scAccount info.chain ≤ voters.length ∧
    ∀ a ∈ voters, db.existWitness a = true ∧ SignedUnit env info a
  special : info.choose.height ≠ 0 → info.choose.chainID = info.chain ∧
    db'.specialUnit info.chain info.choose.height = info.choose.hash

def choosersOf (env : Env) (info : ReplaceWitnessExecuteInput) : List Address :=
  (info.chooseVoteSign.filterMap fun sign => (env.chooseSender (info.vote sign)).toOption).dedup

def votersOf (env : Env) (info : ReplaceWitnessExecuteInput) : List Address :=
  (info.unitVoterSigns.filterMap fun v => (env.voteSender (v.toVote info.choose.hash)).toOption).dedup

/-- There are enough signatures without repeated ones and those of former witnesses, and the choice
is made on the chain itself. -/
structure FairlySigned (env : Env) (db : StateDB) (info : ReplaceWitnessExecuteInput) : Prop where
  choosers : Params.getChainMinVoting env.scAccount env.scAccount ≤
    ((choosersOf env info).filter fun a => (db.witness a).status = some .normal).length
  voters : info.choose.height ≠ 0 →
    Params.getChainMinVoting env.scAccount info.chain ≤ (votersOf env info).length
  chain : info.choose.height ≠ 0 → info.choose.chainID = info.chain

theorem toOption_eq_some {α : Type} {x : Except Err α} {a : α} : x.toOption = some a ↔ x = .ok a := by
  cases x <;> simp [Except.toOption]

theorem mem_choosersOf {env : Env} {info : ReplaceWitnessExecuteInput} {a : Address} :
    a ∈ choosersOf env info ↔ SignedChoice env info a := by
  rw [choosersOf, mem_dedup, mem_filterMap]
  simp only [toOption_eq_some, SignedChoice]

theorem mem_votersOf {env : Env} {info : ReplaceWitnessExecuteInput} {a : Address} :
    a ∈ votersOf env info ↔ SignedUnit env info a := by
  rw [votersOf, mem_dedup, mem_filterMap]
  simp only [toOption_eq_some, SignedUnit]

section Quorum

variable {env : Env} {db db' : StateDB} {info : ReplaceWitnessExecuteInput}

theorem mem_main_iff (hdb : Consistent db) {a : Address} (hmain : db.isMainSystemWitness a = true) :
    a ∈ db.getSystemMainWitness ↔ (db.witness a).status = some .normal := by
  obtain ⟨hsystem, hindex⟩ := isMainSystemWitness_iff.mp hmain
  have hgroup := (isSystemWitness_iff.mp hsystem).2
  rw [mem_getSystemMainWitness (hdb.faithful 0), hdb.mem_iff]
  simp [hgroup, hindex]

theorem Executed.realQuorum_iff (h : Executed env db info db') (hdb : Consistent db) :
    RealQuorum env db info db' ↔ FairlySigned env db info := by
  constructor
  · intro hreal
    refine ⟨?_, fun hheight => ?_, fun hheight => (hreal.special hheight).1⟩
    · obtain ⟨choosers, hnodup, hmin, hall⟩ := hreal.choosers
      refine hmin.trans (hnodup.subperm fun a ha => ?_).length_le
      obtain ⟨hmain, hsigned⟩ := hall a ha
      rw [mem_filter, mem_choosersOf]
      exact ⟨hsigned, decide_eq_true ((mem_main_iff hdb (h.choosers a hsigned)).mp hmain)⟩
    · obtain ⟨voters, hnodup, hmin, hall⟩ := hreal.voters hheight
      exact hmin.trans (hnodup.subperm fun a ha => mem_votersOf.mpr (hall a ha).2).length_le
  · intro hfair
    refine ⟨⟨_, (nodup_dedup _).filter _, hfair.choosers, fun a ha => ?_⟩, fun hheight =>
      ⟨_, nodup_dedup _, hfair.voters hheight, fun a ha => ?_⟩, fun hheight => ?_⟩
    · obtain ⟨hmem, hnormal⟩ := mem_filter.mp ha
      have hsigned := mem_choosersOf.mp hmem
      exact ⟨(mem_main_iff hdb (h.choosers a hsigned)).mpr (of_decide_eq_true hnormal), hsigned⟩
    · have hsigned := mem_votersOf.mp ha
      exact ⟨h.voters a hsigned, hsigned⟩
    · have hchain := hfair.chain hheight
      have hspecial := h.special hheight
      rw [hchain] at hspecial
      exact ⟨hchain, hspecial⟩

theorem handleEntries_split {call : Call} {gas gas' : Nat}
    {before rest : List ReplaceWitnessExecuteInput} (hdb : Consistent db)
    (h : handleEntries env call gas db (before ++ info :: rest) = .ok (db', gas')) :
    ∃ db₁ gas₁ db₂ gas₂, handleEntries env call gas db before = .ok (db₁, gas₁) ∧
      Consistent db₁ ∧ db₁.handleReplaceWitnessExec env call gas₁ info = .ok (db₂, gas₂) := by
  induction before generalizing gas db with
  | nil =>
    obtain ⟨⟨db₂, gas₂⟩, hone, -⟩ := bind_eq_ok_iff.mp h
    exact ⟨db, gas, db₂, gas₂, rfl, hdb, hone⟩
  | cons one before ih =>
    obtain ⟨⟨db₀, gas₀⟩, hone, hrest⟩ := bind_eq_ok_iff.mp h
    have hdb₀ := (handleReplaceWitnessExec_spec hone).frame.consistent hdb
    obtain ⟨db₁, gas₁, db₂, gas₂, hbefore, hdb₁, hinfo⟩ := ih hdb₀ hrest
    exact ⟨db₁, gas₁, db₂, gas₂, bind_eq_ok_iff.mpr ⟨(db₀, gas₀), hone, hbefore⟩, hdb₁, hinfo⟩

end Quorum

/-- For each entry that is carried out, in the state in which it is handled, a real quorum stands
behind it exactly if it is fairly signed: the program counts signatures, and lets former witnesses
and choices on other chains pass. -/
theorem replaceWitnessExecute_realQuorum_iff (env : Env) (call : Call) (gas : Nat) (db : StateDB)
    (data : List ReplaceWitnessExecuteInput) (db' : StateDB) (gas' : Nat) (hdb : Consistent db)
    (hok : db.replaceWitnessExecute env call gas data = .ok (db', gas')) :
    ∀ before info rest, data = before ++ info :: rest →
      ∃ db₁ gas₁ db₂ gas₂,
        handleEntries env call (gas - (Gas.sloadGas + Gas.sstoreSetGas)) db before =
          .ok (db₁, gas₁) ∧
        db₁.handleReplaceWitnessExec env call gas₁ info = .ok (db₂, gas₂) ∧
        (RealQuorum env db₁ info db₂ ↔ FairlySigned env db₁ info) := by
  rintro before info rest rfl
  unfold replaceWitnessExecute at hok
  simp only [bind_eq_ok_iff, guard_eq_ok_iff] at hok
  obtain ⟨gas₀, hgas, -, -, hok⟩ := hok
  obtain ⟨db₁, gas₁, db₂, gas₂, hbefore, hdb₁, hinfo⟩ := handleEntries_split hdb hok
  rw [(useGas_eq_ok_iff.mp hgas).2] at hbefore
  exact ⟨db₁, gas₁, db₂, gas₂, hbefore, hinfo,
    (handleReplaceWitnessExec_spec hinfo).realQuorum_iff hdb₁⟩

end StateDB

namespace Sample

open StateDB

def replaceEnv : Env := { reportEnv with chooseSender := fun v => signer v.sign }

def underway : StateDB :=
  (ScStep.state reportEnv joinAll).putChain ⟨60⟩
    { ChainItem.blank with
      groupIndex := 1, applyStatus := some .witnessReplaceUnderway, applyStatusNumber := 5 }

def entry (signs : List Bytes) : ReplaceWitnessExecuteInput :=
  ⟨⟨60⟩, 5, ⟨8⟩, ⟨⟨60⟩, 0, replaceEnv.genesisHash⟩, [], signs⟩

def replaceCall : Call := ⟨⟨201⟩, ⟨201⟩, 9⟩

theorem consistent_underway : Consistent underway :=
  (inChains_putChain _ _ _).consistent (ScStep.register_state reportEnv joinAll).1

def chosenEntry : ReplaceWitnessExecuteInput :=
  { entry ((range' 201 8).map fun n => [UInt8.ofNat n]) with
    choose := ⟨⟨60⟩, 4, ⟨44⟩⟩
    unitVoterSigns := (range' 101 8).map fun n => ⟨[], [UInt8.ofNat n]⟩ }

/-- All eight system witnesses and eight witnesses of the chain have signed. -/
theorem eight_signers_replace : ∃ db₁ gas₁ db₂ gas₂,
      db₁.handleReplaceWitnessExec replaceEnv replaceCall gas₁ chosenEntry = .ok (db₂, gas₂) ∧
      chosenEntry.choose.height ≠ 0 ∧ RealQuorum replaceEnv db₁ chosenEntry db₂ := by
  have hrun : (underway.replaceWitnessExecute replaceEnv replaceCall 1000000
      [chosenEntry]).isOk = true := by decide +kernel
  cases hok : underway.replaceWitnessExecute replaceEnv replaceCall 1000000 [chosenEntry] with
  | error e =>
    rw [hok] at hrun
    cases hrun
  | ok result =>
    obtain ⟨db₁, gas₁, db₂, gas₂, hbefore, hinfo, hiff⟩ := replaceWitnessExecute_realQuorum_iff
      replaceEnv replaceCall 1000000 underway _ result.1 result.2 consistent_underway hok [] _ [] rfl
    cases hbefore
    exact ⟨underway, _, db₂, gas₂, hinfo, by decide,
      hiff.mpr ⟨by decide +kernel, fun _ => by decide +kernel, fun _ => rfl⟩⟩

/-- The call succeeds with one signature eight times, and nobody but witness 201 has signed. -/
theorem one_signer_replaces : (underway.replaceWitnessExecute replaceEnv replaceCall 1000000
        [entry (replicate 8 [201])]).isOk = true ∧
      ∀ db', ¬RealQuorum replaceEnv underway (entry (replicate 8 [201])) db' := by
  refine ⟨by decide +kernel, fun db' hreal => ?_⟩
  have hone : choosersOf replaceEnv (entry (replicate 8 [201])) = [⟨201⟩] := by decide +kernel
  obtain ⟨choosers, hnodup, hmin, hall⟩ := hreal.choosers
  have hle : choosers.length ≤ 1 := by
    have hsub : choosers ⊆ [⟨201⟩] := fun a ha => hone ▸ mem_choosersOf.mpr (hall a ha).2
    exact (hnodup.subperm hsub).length_le
  rw [Params.getChainMinVoting_eq] at hmin
  omega

end Sample

end Nerthus.Sc
