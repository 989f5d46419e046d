import Nerthus.Arbitration.Store
import Nerthus.Sc.Punish

/-!
# Stopping chains

`arbitration.go`: what a node does when it learns of a bad unit, and when the
arbitration has ended.
-/

namespace Nerthus.Arbitration

open Sc (Err AffectedUnit VoteMsg)
open Lib (bind_eq_ok_iff guard_eq_ok_iff)

structure ChainReader (σ : Type) where
  getChainTailHead : Address → Option Nat
  getHeaderByNumber : Address → Nat → Option Hash
  getUnitNumber : Hash → Option (Address × Nat)
  /-- The units that `WakChildren` visits. -/
  children : Hash → List Hash
  getUnitState : Hash → Except Err σ

abbrev StopMap := List ChainNumber

def StopMap.stop (scAccount : Address) (mcs : StopMap) (mc : Address) (number : Nat) : StopMap :=
  if mc.empty ∨ mc = scAccount ∨ number = 0 then mcs
  else if mcs.any fun e => e.chain == mc then
    mcs.map fun e => if e.chain = mc ∧ number < e.number then ⟨mc, number⟩ else e
  else mcs ++ [⟨mc, number⟩]

section Stop

variable {σ : Type} (scAccount : Address) (cr : ChainReader σ)

def lookup : Nat → StopMap → Hash → Option StopMap
  | 0, _, _ => none
  | depth + 1, mcs, hash =>
    match cr.getUnitNumber hash with
    | none => some mcs
    | some (mc, number) =>
      (cr.children hash).foldlM (fun mcs child => lookup depth mcs child)
        (mcs.stop scAccount mc number)

/-- `stopChain`; no answer without a tail, or if the recursion is deeper than `depth`. -/
def stopChain (depth : Nat) (badChain : Address) (badNumber : Nat) (rep : List AffectedUnit) :
    Option StopMap :=
  if rep.isEmpty then some []
  else
    match cr.getChainTailHead badChain with
    | none => none
    | some last =>
      if badNumber + 10 < last then some (StopMap.stop scAccount [] badChain badNumber)
      else do
        let mcs ← match cr.getHeaderByNumber badChain badNumber with
          | some localUnit => lookup scAccount cr depth [] localUnit
          | none => some []
        rep.foldlM (fun mcs b => lookup scAccount cr depth mcs b.header.hash) mcs

/-- The loop of `StopChain` over the map, and the relation it registers. -/
def registerStops (b : PutGetter) (cache : Cache) (chain : Address) (number : Nat)
    (chains : StopMap) : PutGetter × Cache :=
  let (b, cache) := chains.foldl (fun s e => writeStoppedChain s.1 s.2 e.chain e.number) (b, cache)
  (writeStoppedByWho b chain number chains, cache)

def stopChainAt (depth : Nat) (b : PutGetter) (cache : Cache) (chain : Address) (number : Nat) :
    Option (PutGetter × Cache) := do
  let chains ← stopChain scAccount cr depth chain number []
  return registerStops b cache chain number chains

/-- What `OnFoundBad` is given besides the proof. -/
structure FoundEnv (σ : Type) where
  sortProof : List AffectedUnit → List AffectedUnit
  /-- Sorting changes the order of units, and of votes in them. -/
  sortProof_perm : ∀ rep, ((sortProof rep).map AffectedUnit.header).Perm (rep.map AffectedUnit.header)
  proofID : List AffectedUnit → Hash
  sender : VoteMsg → Except Err Address
  checkWitness : Option (σ → Address → Except Err Unit)
  now : Nat

def writeBadWitneeProof (env : FoundEnv σ) (b : PutGetter) (rep : List AffectedUnit)
    (first : AffectedUnit) : PutGetter :=
  let id := env.proofID rep
  writeBadChain (b.putProof id rep) ⟨first.header.mc, first.header.number, env.now, id⟩

def onFoundBad (env : FoundEnv σ) (depth : Nat) (db : Db) (cache : Cache)
    (rep : List AffectedUnit) : Except Err (Db × Cache) := do
  if rep.length ≤ 1 then throw (.other "the report info must more")
  let rep := env.sortProof rep
  if existProof db (env.proofID rep) then return (db, cache)
  else
    let _ ← checkProofWithState scAccount env.sender cr.getUnitState env.checkWitness rep
    match rep with
    | [] => throw (.fault "index out of range")
    | first :: _ =>
      let batch := writeBadWitneeProof env (.newBatch db) rep first
      match stopChainAt scAccount cr depth batch cache first.header.mc first.header.number with
      | none => throw (.fault "nil pointer or stack overflow")
      | some (batch, cache) => return (batch.put, cache)

end Stop

/-- `tryRecover`, with the chains for which `ChainCanStart` was posted. -/
def tryRecover (s : PutGetter × Cache × List Address) (c : ChainNumber) :
    PutGetter × Cache × List Address :=
  let (b, cache, chainCanStart) := clearStoppedChainFlag s.1 s.2.1 c.chain c.number
  (b, cache, if chainCanStart then s.2.2 ++ [c.chain] else s.2.2)

/-- `RecoverStartChain`; also gives the chains for which `ChainCanStart` is posted. -/
def recoverStartChain (db : Db) (cache : Cache) (chain : Address) (number : Nat) :
    Db × Cache × List Address :=
  let s := tryRecover (.newBatch db, cache, []) ⟨chain, number⟩
  let s := (getStoppedChainByBad s.1.get chain number).foldl tryRecover s
  ((clearBadChainFlag s.1 chain number).put, s.2.1, s.2.2)

section Found

variable {σ : Type} {scAccount : Address} {cr : ChainReader σ} {env : FoundEnv σ}

inductive Reaches (cr : ChainReader σ) (h : Hash) : Hash → Prop
  | refl : Reaches cr h h
  | step {u v : Hash} : Reaches cr h u → v ∈ cr.children u → Reaches cr h v

/-- The unit descends from the local unit at the bad height or from one of the proof. -/
def Affected (cr : ChainReader σ) (rep : List AffectedUnit) (badChain : Address) (badNumber : Nat)
    (chain : Address) (number : Nat) : Prop :=
  ∃ root h, (cr.getHeaderByNumber badChain badNumber = some root ∨
      ∃ u ∈ rep, u.header.hash = root) ∧
    Reaches cr root h ∧ cr.getUnitNumber h = some (chain, number)

def StoppedFrom (scAccount : Address) (db : Db) (cache : Cache) (chain : Address) (number : Nat) :
    Prop :=
  ∀ m, number ≤ m → (checkChainIsStopped scAccount db cache chain m).1.isOk = false

/-- The bad chain is stopped, and unless the bad unit is old, so are the chains of its
descendants. -/
def DueStopped (scAccount : Address) (cr : ChainReader σ) (rep : List AffectedUnit)
    (badChain : Address) (badNumber : Nat) (db : Db) (cache : Cache) : Prop :=
  StoppedFrom scAccount db cache badChain badNumber ∧
    ((∀ tail ∈ cr.getChainTailHead badChain, tail ≤ badNumber + 10) →
      ∀ chain number, Affected cr rep badChain badNumber chain number → chain ≠ scAccount →
        1 ≤ number → StoppedFrom scAccount db cache chain number)

def StopsAffected (scAccount : Address) (cr : ChainReader σ) (rep : List AffectedUnit)
    (badChain : Address) (badNumber : Nat) (before after : Db × Cache) : Prop :=
  DueStopped scAccount cr rep badChain badNumber after.1 after.2 ∧
    ∀ chain, chain ≠ badChain → (∀ number, ¬Affected cr rep badChain badNumber chain number) →
      ∀ m, (checkChainIsStopped scAccount before.1 before.2 chain m).1.isOk = true →
        (checkChainIsStopped scAccount after.1 after.2 chain m).1.isOk = true

theorem stopChainAt_eq (depth : Nat) (b : PutGetter) (cache : Cache) (chain : Address)
    (number : Nat) : stopChainAt scAccount cr depth b cache chain number = some (b, cache) :=
  rfl

theorem writeBadWitneeProof_stoppedChain (db : Db) (rep : List AffectedUnit) (first : AffectedUnit) :
    (writeBadWitneeProof env (.newBatch db) rep first).put.stoppedChain = db.stoppedChain := by
  rw [writeBadWitneeProof, writeBadChain]
  split <;> rfl

theorem onFoundBad_spec {depth : Nat} {db db' : Db} {cache cache' : Cache} {rep : List AffectedUnit}
    (h : onFoundBad scAccount cr env depth db cache rep = .ok (db', cache')) :
    db'.stoppedChain = db.stoppedChain ∧ cache' = cache := by
  unfold onFoundBad at h
  obtain ⟨-, h⟩ := guard_eq_ok_iff.mp h
  dsimp only at h
  split at h
  · cases h
    exact ⟨rfl, rfl⟩
  obtain ⟨bads, -, h⟩ := bind_eq_ok_iff.mp h
  split at h
  · cases h
  · rw [stopChainAt_eq] at h
    cases h
    exact ⟨writeBadWitneeProof_stoppedChain _ _ _, rfl⟩

theorem checkChainIsStopped_congr (scAccount : Address) {db db' : Db}
    (h : db'.stoppedChain = db.stoppedChain) (cache : Cache) (chain : Address) (number : Nat) :
    checkChainIsStopped scAccount db' cache chain number =
      checkChainIsStopped scAccount db cache chain number := by
  rw [checkChainIsStopped, checkChainIsStopped, getStoppedChainFlag, getStoppedChainFlag,
    getStoppedChainFlags, getStoppedChainFlags, h]

/-- When a node accepts a proof, all that is due is stopped exactly if it was stopped before. -/
theorem onFoundBad_stops_iff (scAccount : Address) (cr : ChainReader σ) (env : FoundEnv σ)
    (depth : Nat) (db : Db) (cache : Cache) (rep : List AffectedUnit) (badChain : Address)
    (badNumber : Nat) (db' : Db) (cache' : Cache)
    (hok : onFoundBad scAccount cr env depth db cache rep = .ok (db', cache')) :
    StopsAffected scAccount cr rep badChain badNumber (db, cache) (db', cache') ↔
      DueStopped scAccount cr rep badChain badNumber db cache := by
  obtain ⟨hflags, rfl⟩ := onFoundBad_spec hok
  have hcheck := checkChainIsStopped_congr scAccount hflags cache'
  rw [StopsAffected, DueStopped, DueStopped]
  simp only [StoppedFrom, hcheck]
  constructor
  · exact fun h => h.1
  · exact fun h => ⟨h, fun _ _ _ _ hfree => hfree⟩

end Found

namespace Sample

open Sc.Sample (reportEnv doubled)

def reader : ChainReader Sc.StateDB where
  getChainTailHead _ := some 7
  getHeaderByNumber chain number := if chain = ⟨50⟩ ∧ number = 7 then some ⟨1⟩ else none
  getUnitNumber h :=
    if h = ⟨1⟩ then some (⟨50⟩, 7) else if h = ⟨30⟩ then some (⟨70⟩, 4) else none
  children h := if h = ⟨1⟩ then [⟨30⟩] else []
  getUnitState := reportEnv.getUnitState

def foundEnv : FoundEnv Sc.StateDB where
  sortProof rep := rep
  sortProof_perm _ := .refl _
  proofID _ := ⟨77⟩
  sender := reportEnv.voteSender
  checkWitness := some Sc.StateDB.checkVoterStatus
  now := 0

def stoppedDb : Db :=
  { Db.empty with
    stoppedChain := fun c => if c = ⟨50⟩ then [7] else if c = ⟨70⟩ then [4] else [] }

theorem stoppedFrom_of_flag {db : Db} {chain : Address} {number : Nat}
    (hsc : chain ≠ reportEnv.scAccount) (hpos : 0 < db.flag chain) (hle : db.flag chain ≤ number) :
    StoppedFrom reportEnv.scAccount db .new chain number := by
  intro m hm
  exact (checkChainIsStopped_spec (Lib.Lru.agrees_empty _ _) chain m).1.mpr
    ⟨hsc, hpos, hle.trans hm⟩

theorem found_stopped_before :
    ∃ result, onFoundBad reportEnv.scAccount reader foundEnv 5 stoppedDb .new doubled = .ok result ∧
      StopsAffected reportEnv.scAccount reader doubled ⟨50⟩ 7 (stoppedDb, .new) result := by
  have hrun : (onFoundBad reportEnv.scAccount reader foundEnv 5 stoppedDb .new doubled).isOk =
      true := by decide +kernel
  cases hok : onFoundBad reportEnv.scAccount reader foundEnv 5 stoppedDb .new doubled with
  | error e =>
    rw [hok] at hrun
    cases hrun
  | ok result =>
    refine ⟨result, rfl, (onFoundBad_stops_iff reportEnv.scAccount reader foundEnv 5 stoppedDb .new
      doubled ⟨50⟩ 7 result.1 result.2 hok).mpr ⟨?_, fun _ chain number haffected _ _ => ?_⟩⟩
    · exact stoppedFrom_of_flag (by decide) (by decide) (by decide)
    · obtain ⟨root, h, -, -, hunit⟩ := haffected
      rw [reader] at hunit
      dsimp only at hunit
      split at hunit
      · cases hunit
        exact stoppedFrom_of_flag (by decide) (by decide) (by decide)
      split at hunit
      · cases hunit
        exact stoppedFrom_of_flag (by decide) (by decide) (by decide)
      · cases hunit

/-- On a fresh node the proof is accepted, and neither chain is stopped. -/
theorem found_stops_nothing :
    (onFoundBad reportEnv.scAccount reader foundEnv 5 .empty .new doubled).toOption.map
      (fun r => ((checkChainIsStopped reportEnv.scAccount r.1 r.2 ⟨50⟩ 7).1.isOk,
        (checkChainIsStopped reportEnv.scAccount r.1 r.2 ⟨70⟩ 4).1.isOk)) = some (true, true) ∧
      Affected reader doubled ⟨50⟩ 7 ⟨70⟩ 4 := by
  refine ⟨by decide +kernel, ⟨1⟩, ⟨30⟩, .inl rfl, .step .refl (by decide), rfl⟩

end Sample

end Nerthus.Arbitration
