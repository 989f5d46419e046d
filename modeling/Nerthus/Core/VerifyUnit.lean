import Nerthus.Core.Node

/-!
# The verification of a unit

`DagChain.VerifyUnit`: the engine (`consensus/bft/backend/engine.go`) checks header and seal,
`ValidateBody` the steps, and after these were processed `ValidateState` compares the results with
the header.
-/

namespace Nerthus.Core

open Lib

structure UnitHeader where
  mc : Address
  number : Nat
  parentHash : Hash
  scHash : Hash
  scNumber : Nat
  proposer : Address
  txsRoot : Hash
  receiptRoot : Hash
  stateRoot : Hash
  bloom : Nat
  gasLimit : Nat
  gasUsed : Nat
  timestamp : Nat
deriving DecidableEq

structure WitnessVote where
  extra : Bytes
  sign : Bytes
deriving DecidableEq

structure SealedUnit where
  header : UnitHeader
  txs : List TxExec
  sign : Bytes
  votes : List WitnessVote
deriving DecidableEq

structure Verifier (σ : Type) extends Node σ where
  /-- `Header.Hash`. -/
  hash : UnitHeader → Hash
  /-- `DeriveSha` of the steps. -/
  txsRoot : List TxExec → Hash
  hash_injective : Function.Injective hash
  txsRoot_injective : Function.Injective txsRoot
  receiptRoot_injective : Function.Injective receiptRoot
  txHash_injective : Function.Injective txHash
  getTransaction_hash : ∀ h tx, store.getTransaction h = some tx → txHash tx = h
  /-- `ChainIsInInArbitration`. -/
  inArbitration : Address → Bool
  /-- `procInterrupt`. -/
  interrupted : Bool
  /-- `BadUnitCheck` finds something. -/
  badUnit : UnitHeader → Bool
  arbitrationResult : Address → Nat → Hash
  getHeader : Hash → Option UnitHeader
  getHeaderByNumber : Address → Nat → Option UnitHeader
  now : Nat
  /-- `Sender` of a hash that is signed. -/
  sender : Hash → Bytes → Option Address
  /-- `Sender` of a vote for a hash. -/
  voter : Hash → WitnessVote → Option Address
  /-- `ConfigParamsUcGasLimit` in the state of a system unit. -/
  ucGasLimit : UnitHeader → Option Nat
  /-- `GetChainWitnessLib`. -/
  witnessLib : Address → Hash → Option (List Address)
  councilList : List Address
  tailNumber : Address → Nat
  stableHash : Address → Nat → Hash
  /-- `ConfigParamsLowestGasPrice` and `ConfigParamsMinFreePoW` in the state of a system unit. -/
  limits : UnitHeader → Option (Nat × Nat)
  /-- The state of a parent; for the first unit of a chain it is that of the genesis. -/
  stateAt : UnitHeader → Address → Option (ChainState σ)

def extraSealSize : Nat := 9

def msgCommit : UInt8 := 3

def defGasCap : Nat := 0x7fffffffffffffff - 1

def oneNumberHaveSecondByUc : Nat := 10

def scDeadArbitrationInterval : Nat := 24 * 60 * 60

namespace Verifier

variable {σ : Type} (n : Verifier σ) (header : Header) (u : SealedUnit)

def orElse {α : Type} (x : Option α) (e : Err) : Except Err α :=
  match x with
  | none => .error e
  | some a => .ok a

/-- The run-time error that stops the node: a header that was not found is read all the same. -/
def nilDereference : Err :=
  .other "runtime error: invalid memory address or nil pointer dereference"

def isBlackUnit (h : UnitHeader) : Bool := h.proposer == n.env.publicPrivateKeyAddr

def newUnit (h : UnitHeader) (txs : List TxExec) : UnitHeader :=
  { h with txsRoot := if txs.isEmpty then .zero else n.txsRoot txs }

def scParent (h parent : UnitHeader) : Except Err UnitHeader := do
  if h.mc = n.env.scAccount then
    if h.scHash ≠ h.parentHash then .error (.other "invalid unit sc hash ")
    else if h.scNumber ≠ parent.number then
      .error (.other "header scNumber %d not equal parent number %d")
    else .ok parent
  else
    let scParent ← orElse (n.getHeader h.scHash) .unknownAncestor
    if h.scNumber ≠ scParent.number then
      .error (.other "header scNumber %d not equal scParent number %d")
    else if h.timestamp ≤ scParent.timestamp then
      .error (.other "timestamp %d equals system chain parent's %d")
    else if nanosecondsOf (oneNumberHaveSecondBySys * 30000) < h.timestamp - scParent.timestamp then
      .error (.other "use too long system chain unit")
    else .ok scParent

/-- `verifyHeader` without the seal. -/
def checkHeader (h : UnitHeader) (sign : Bytes) : Except Err Unit := do
  if (n.getHeader (n.hash h)).isSome then .error (.other "unit already known")
  else
    let parent ← orElse (n.getHeader h.parentHash) .unknownAncestor
    let minDiff := if h.mc = n.env.scAccount then oneNumberHaveSecondBySys else oneNumberHaveSecondByUc
    if h.number ≠ 1 ∧ h.mc ≠ parent.mc then .error (.other "invalid unit main chain account")
    else if h.number ≠ parent.number + 1 then .error (.other "invalid unit number")
    else if n.now + nanosecondsOf 15 < h.timestamp then .error (.other "unit in the future")
    else if h.timestamp ≤ parent.timestamp then .error (.other "timestamp %d equals parent's %d")
    else if h.timestamp - parent.timestamp < nanosecondsOf minDiff then
      .error (.other "unit timestamp interval not enough")
    else
      let proposer ← orElse (n.sender (n.hash h) sign) (.other "invalid sign")
      if h.proposer ≠ proposer then .error (.other "invalid proposer")
      else
        let scParent ← n.scParent h parent
        if h.scNumber < parent.scNumber then
          .error (.other "invalid system number: have %d,want >=%d")
        else if defGasCap < h.gasLimit then .error (.other "invalid gasLimit: have %d, max %d")
        else if h.gasLimit < h.gasUsed then .error (.other "invalid gasUsed: have %d, gasLimit %d")
        else
          let limit ← orElse (n.ucGasLimit scParent) (.other "have not value")
          if limit < h.gasLimit then .error (.other "invalid gasLimit: have %d, want <= %d")
          else .ok ()

/-- `GetUnitVoter`. The round of the votes is never set, so it is not compared. -/
def getUnitVoter (h : UnitHeader) (voters : List Address) :
    List WitnessVote → Except Err (List Address)
  | [] => .ok voters
  | vote :: votes => do
    if vote.extra.length ≠ extraSealSize ∨ vote.extra.head? ≠ some msgCommit then
      .error (.other "invalid commit message sign")
    else
      let addr ← orElse (n.voter (n.hash h) vote) (.other "invalid sign")
      if addr ∈ voters then getUnitVoter h voters votes
      else getUnitVoter h (voters ++ [addr]) votes

def dishonestCheck (h : UnitHeader) : Except Err Unit :=
  if (n.stableHash h.mc h.number).emptyHash ∨ n.stableHash h.mc h.number = n.hash h then .ok ()
  else .error (.other "appeared multiple lawful units at the same height")

def verifySeal (h : UnitHeader) (sign : Bytes) (votes : List WitnessVote)
    (chainWitness : List Address) : Except Err Unit := do
  let minVoting := Params.getChainMinVoting n.env.scAccount h.mc
  let witnessCount := Params.getChainWitnessCount n.env.scAccount h.mc
  if chainWitness.isEmpty then .error (.other "the unit sender is not witness")
  else if votes.length < minVoting ∨ witnessCount < votes.length then
    .error (.other "not enough witness's votes")
  else
    let general ← orElse (n.sender (n.hash h) sign) (.other "invalid sign")
    if general ∉ chainWitness then .error (.other "the unit sender is not witness")
    else
      let witnessList ← n.getUnitVoter h [] votes
      if witnessList.length < minVoting ∨ witnessCount < witnessList.length then
        .error (.other "not enough witness's votes")
      else if ¬∀ w ∈ witnessList, w ∈ chainWitness then .error (.other "invalid witness work")
      else n.dishonestCheck h

def verifyArbitrationUnit (h : UnitHeader) (sign : Bytes) (votes : List WitnessVote) :
    Except Err Unit := do
  n.checkHeader h sign
  let lastUnit ← orElse (n.getHeaderByNumber h.mc h.scNumber) nilDereference
  if lastUnit.timestamp + nanosecondsOf scDeadArbitrationInterval ≠ h.timestamp then
    .error (.other "invalid unit timestamp")
  else
    let voters ← n.getUnitVoter h [] votes
    if voters.length < n.councilList.length * 2 / 3 + 1 then
      .error (.other "commit votes not enough")
    else if ¬∀ v ∈ voters, v ∈ n.councilList then
      .error (.other "invalid votes,must voted by council")
    else if h.number < n.tailNumber h.mc then
      .error (.other "invalid arbitration unit:at history number")
    else .ok ()

def verifyHeader (h : UnitHeader) (sign : Bytes) (votes : List WitnessVote) (seals : Bool) :
    Except Err Unit := do
  n.checkHeader h sign
  if !seals then .ok ()
  else if n.isBlackUnit h then n.verifyArbitrationUnit h sign votes
  else
    let chainWitness ← orElse (n.witnessLib h.mc h.scHash) .unknownAncestor
    n.verifySeal h sign votes chainWitness

/-- `VerifyUnit` up to the check of the header. -/
def checkUnit (h : UnitHeader) (sign : Bytes) (votes : List WitnessVote) (seals : Bool) :
    Except Err Unit :=
  let good := n.arbitrationResult h.mc h.number
  if n.inArbitration h.mc then .error (.other "chain is in arbitration, chain is %s")
  else if n.interrupted then .error (.other "premature abort during blocks processing")
  else if n.badUnit h then .error (.other "the unit is bad unit, uhash:%v")
  else if good.emptyHash = false ∧ good ≠ n.hash h then
    .error (.other "this chain %s has been arbitrated and only one legal unit %s")
  else n.verifyHeader h sign votes seals

def execHeader (h : UnitHeader) : Option Header :=
  if hpos : 0 < h.number then
    some ⟨h.mc, h.number, n.hash h, h.timestamp, h.proposer, h.gasLimit, hpos⟩
  else none

/-- The unit that `PreStep` names is stored, and older. -/
def checkSource (preStep : UnitID) : Except Err Unit := do
  if preStep.isEmpty then .ok ()
  else
    let stable ← orElse (n.getHeader preStep.hash) .unknownAncestor
    if stable.mc ≠ preStep.chainID ∨ stable.number ≠ preStep.height then
      .error (.other "invalid pre step")
    else if header.timestamp ≤ stable.timestamp then
      .error (.other "timestamp %d must be greater than prestep's %d")
    else .ok ()

def checkOrigin (limits : Nat × Nat) (e : TxExec) : Except Err Unit :=
  match e.tx with
  | none => .ok ()
  | some tx =>
    if e.txHash ≠ n.txHash tx then .error (.other "tx hash not matched")
    else checkTx n.env header tx limits.1 limits.2

def checkExec (limits : Nat × Nat) (e : TxExec) : Except Err Unit := do
  if e.preStep.isEmpty = false ∧ e.tx.isSome = true then
    .error (.other "invalid source or tx field")
  else
    n.checkSource header e.preStep
    n.checkOrigin header limits e

def checkExecs (header : Header) (limits : Nat × Nat) : List TxExec → Except Err Unit
  | [] => .ok ()
  | e :: txs => do
    n.checkExec header limits e
    checkExecs header limits txs

def limitsAt (h : UnitHeader) : Except Err (Nat × Nat) := do
  let scHeader ← orElse (n.getHeader h.scHash) .unknownAncestor
  orElse (n.limits scHeader) .unknownAncestor

def validateBody : Except Err Unit := do
  if u.txs.isEmpty then .error (.other "unit's Transactions is empty")
  else if n.isBlackUnit u.header = true ∧ u.txs.length ≠ 1 then
    .error (.other "black unit's tx length must equal 1")
  else if n.isBlackUnit u.header = true ∧ (u.txs.head?.bind TxExec.tx).isNone = true then
    .error (.other "black unit's tx[0] can not be empty")
  else
    let limits ← n.limitsAt u.header
    n.checkExecs header limits u.txs

def validateState (h : UnitHeader) (out : Processed σ) : Except Err Unit :=
  if h.gasUsed ≠ out.usedGas then .error (.other "invalid gas used (remote: %v local: %v)")
  else if h.stateRoot ≠ n.stateRoot out.state then
    .error (.other "invalid state merkle root hash(remote: %x local: %x)")
  else if h.receiptRoot ≠ n.receiptRoot out.receipts then
    .error (.other "invalid receipt merkle root hash (remote: %x local: %x)")
  else if h.bloom ≠ createBloom n.bloom9 out.receipts then
    .error (.other "invalid bloom (remote: %x  local: %x)")
  else .ok ()

def parentState (h : UnitHeader) : Except Err (ChainState σ) := do
  let parent ← orElse (n.getHeader h.parentHash) .unknownAncestor
  orElse (n.stateAt parent h.mc) .unknownAncestor

/-- `VerifyUnit` after the check of the header. -/
def verifyBody (header : Header) : Except Err (Processed σ) := do
  n.validateBody header u
  let s ← n.parentState u.header
  let out ← n.process header s u.txs
  n.validateState u.header out
  .ok out

/-- `VerifyUnit`; `seals`: the seal is checked, too. An accepted header has a parent. -/
def verifyUnit (seals : Bool) : Except Err (Processed σ) := do
  n.checkUnit u.header u.sign u.votes seals
  let header ← orElse (n.execHeader u.header) (.other "invalid unit number")
  n.verifyBody u header

def Accepts : Prop := ∃ out, n.verifyUnit u true = .ok out

end Verifier

section Accept

variable {σ : Type} {n : Verifier σ} {u : SealedUnit} {header : Header} {limits : Nat × Nat}
  {txs : List TxExec} {out : Processed σ}

theorem orElse_eq_ok {α : Type} {x : Option α} {e : Err} {a : α} :
    Verifier.orElse x e = .ok a ↔ x = some a := by
  cases x with
  | none => exact ⟨nofun, nofun⟩
  | some b => exact ⟨fun h => congrArg some (Except.ok.inj h), fun h => congrArg _ (Option.some.inj h)⟩

theorem checkExecs_eq_ok :
    n.checkExecs header limits txs = .ok () ↔ ∀ e ∈ txs, n.checkExec header limits e = .ok () := by
  induction txs with
  | nil => exact ⟨nofun, fun _ => rfl⟩
  | cons e txs ih =>
    rw [List.forall_mem_cons, ← ih]
    constructor
    · intro h
      obtain ⟨_, hhead, htail⟩ := bind_eq_ok_iff.mp h
      exact ⟨hhead, htail⟩
    · rintro ⟨hhead, htail⟩
      exact bind_eq_ok_iff.mpr ⟨(), hhead, htail⟩

theorem validateBody_eq_ok : n.validateBody header u = .ok () ↔
      u.txs ≠ [] ∧
      (n.isBlackUnit u.header = true → u.txs.length = 1 ∧ ∀ e ∈ u.txs, e.tx.isSome = true) ∧
      ∃ limits, n.limitsAt u.header = .ok limits ∧
        ∀ e ∈ u.txs, n.checkExec header limits e = .ok () := by
  have hone : ∀ e, u.txs = [e] → ((u.txs.head?.bind TxExec.tx).isNone = true ↔
      ¬∀ e ∈ u.txs, e.tx.isSome = true) := by
    intro e he
    rw [he]
    cases e.tx <;> simp
  have hexecs : (n.limitsAt u.header >>= fun limits => n.checkExecs header limits u.txs) = .ok () ↔
      ∃ limits, n.limitsAt u.header = .ok limits ∧
        ∀ e ∈ u.txs, n.checkExec header limits e = .ok () := by
    simp only [bind_eq_ok_iff, checkExecs_eq_ok]
  unfold Verifier.validateBody
  rw [← hexecs]
  by_cases hempty : u.txs = []
  · simp [hempty]
  by_cases hblack : n.isBlackUnit u.header = true
  · by_cases hlen : u.txs.length = 1
    · obtain ⟨e, he⟩ := List.length_eq_one_iff.mp hlen
      have hfirst := hone e he
      by_cases hall : ∀ e ∈ u.txs, e.tx.isSome = true
      · have hsome : ¬(n.isBlackUnit u.header = true ∧
            (u.txs.head?.bind TxExec.tx).isNone = true) := fun h => hfirst.mp h.2 hall
        rw [if_neg (by simpa using hempty), if_neg (fun h => h.2 hlen), if_neg hsome]
        exact ⟨fun h => ⟨hempty, fun _ => ⟨hlen, hall⟩, h⟩, fun h => h.2.2⟩
      · rw [if_neg (by simpa using hempty), if_neg (fun h => h.2 hlen),
          if_pos ⟨hblack, hfirst.mpr hall⟩]
        exact ⟨nofun, fun h => absurd (h.2.1 hblack).2 hall⟩
    · simp [hempty, hblack, hlen]
  · simp [hempty, hblack]

theorem accepts_iff : n.Accepts u ↔ n.checkUnit u.header u.sign u.votes true = .ok () ∧
      ∃ header, n.execHeader u.header = some header ∧ n.validateBody header u = .ok () ∧
        ∃ s, n.parentState u.header = .ok s ∧
          ∃ out, n.process header s u.txs = .ok out ∧ n.validateState u.header out = .ok () := by
  unfold Verifier.Accepts Verifier.verifyUnit Verifier.verifyBody
  constructor
  · rintro ⟨out, h⟩
    simp only [bind_eq_ok_iff] at h
    obtain ⟨_, hcheck, header, hheader, _, hbody, s, hs, out', hout, _, hstate, -⟩ := h
    exact ⟨hcheck, header, orElse_eq_ok.mp hheader, hbody, s, hs, out', hout, hstate⟩
  · rintro ⟨hcheck, header, hheader, hbody, s, hs, out, hout, hstate⟩
    refine ⟨out, bind_eq_ok_iff.mpr ⟨(), hcheck, bind_eq_ok_iff.mpr
      ⟨header, orElse_eq_ok.mpr hheader, bind_eq_ok_iff.mpr ⟨(), hbody, ?_⟩⟩⟩⟩
    exact bind_eq_ok_iff.mpr ⟨s, hs, bind_eq_ok_iff.mpr
      ⟨out, hout, bind_eq_ok_iff.mpr ⟨(), hstate, rfl⟩⟩⟩

theorem receiptRoot_of_validateState {h : UnitHeader} (hstate : n.validateState h out = .ok ()) :
    n.receiptRoot out.receipts = h.receiptRoot := by
  unfold Verifier.validateState at hstate
  split at hstate
  · cases hstate
  split at hstate
  · cases hstate
  split at hstate
  · cases hstate
  rename_i hroot
  exact (not_not.mp hroot).symm

end Accept

end Nerthus.Core
