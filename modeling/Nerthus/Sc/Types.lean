import Nerthus.Common.Params
import Nerthus.Core.Types
import Nerthus.Lib.IndexedSet

/-!
# The storage of the system contract

What package `core/sc` keeps in the state of the system chain. Every cell lies under the hash of
a list of parts. Those of a witness, a chain or a flag are the fields of a record here; the sets
keep the list as RLP writes it, where a number and a text of the same bytes are one.
-/

namespace Nerthus.Sc

open Core (Bytes UnitID)

inductive WitnessStatus where
  | normal
  | loggedOut
  | inBlackList
deriving DecidableEq

inductive ChainStatus where
  | normal
  | witnessReplaceUnderway
  | notWitness
  | insufficient
deriving DecidableEq

inductive Err where
  | outOfGas
  | noWitnessInfo
  | notFindWitness
  | maxWitnessLimit
  | chainMissingWitness
  | noWitnessGroupUse
  | isNormalWitness
  | isCouncil
  | fault (text : String)
  | other (text : String)
deriving DecidableEq

/-- A part of a name: a string of `size` bytes, read as one number. -/
structure Item where
  size : Nat
  bytes : Nat
deriving DecidableEq

namespace Item

def ofAddress (a : Address) : Item := ⟨20, a.hash⟩

def ofHash (h : Hash) : Item := ⟨32, h.val⟩

def ofUint (n : Nat) : Item := ⟨if n = 0 then 0 else n.log2 / 8 + 1, n⟩

@[simp] theorem ofAddress_inj {a b : Address} : ofAddress a = ofAddress b ↔ a = b := by
  cases a
  cases b
  simp [ofAddress]

@[simp] theorem ofHash_inj {a b : Hash} : ofHash a = ofHash b ↔ a = b := by
  cases a
  cases b
  simp [ofHash]

@[simp] theorem ofUint_inj {m n : Nat} : ofUint m = ofUint n ↔ m = n := by
  constructor
  · intro h
    exact congrArg Item.bytes h
  · rintro rfl
    rfl

end Item

abbrev SetKey := List Item

def prefixWitnessGroupInfo : Item := ⟨18, 0x7769746e6573735f67726f75705f696e666f⟩

def defGroupWitenssPrefix : Item := ⟨9, 0x5f7769746e6573735f⟩

def defGroupChainPrefix : Item := ⟨8, 0x5f636861696e735f⟩

def allWitenssKey : Item := ⟨32, 0x63775f6c69625f616c6c⟩

def arbitrationInfoPrefix : Item := ⟨5, 0x636172625f⟩

def inArbitrationNumberSuffix : Item := ⟨4, 0x5f696e67⟩

def votersSuffix : Item := ⟨6, 0x766f74657273⟩

theorem ofUint_eq_inArbitrationNumberSuffix {n : Nat} :
    Item.ofUint n = inArbitrationNumberSuffix ↔ n = 0x5f696e67 := by
  constructor
  · intro h
    exact congrArg Item.bytes h
  · rintro rfl
    decide

abbrev StateSet := Lib.IndexedSet Hash

structure WitnessItem where
  flag : Bool
  margin : Nat
  status : Option WitnessStatus
  cancelHeight : Nat
  applyHeight : Nat
  groupIndex : Nat
  pkey : Bytes
deriving DecidableEq

def WitnessItem.blank : WitnessItem := ⟨false, 0, none, 0, 0, 0, []⟩

structure ChainItem where
  applyNumber : Nat
  applyChainNumber : Nat
  groupIndex : Nat
  applyNumberOld : Nat
  groupIndexOld : Nat
  applyStatus : Option ChainStatus
  applyStatusNumber : Nat
deriving DecidableEq

def ChainItem.blank : ChainItem := ⟨0, 0, 0, 0, 0, none, 0⟩

inductive HeartbeatRole where
  | systemWitness
  | userWitness
deriving DecidableEq

structure Heartbeat where
  lastTurn : Nat
  lastNumber : Nat
deriving DecidableEq

structure StateDB where
  sets : SetKey → StateSet
  /-- "witness_group_count"; zero if it was never written. -/
  groupCount : Nat
  witness : Address → WitnessItem
  /-- "witness_actives" of the counters. -/
  activeWitness : Nat
  chain : Address → ChainItem
  /-- The cells "_s_" of a chain, by height. -/
  specialUnit : Address → Nat → Hash
  /-- "badw_" -/
  badWitness : Address → Bool
  /-- "carb_result_" -/
  arbitrationResult : Address → Nat → Hash
  council : Address → Bool
  heartbeat : HeartbeatRole → Address → Option Heartbeat
  balance : Address → Int

def StateDB.blank : StateDB where
  sets _ := ⟨0, fun _ => Hash.zero, fun _ => 0⟩
  groupCount := 0
  witness _ := .blank
  activeWitness := 0
  chain _ := .blank
  specialUnit _ _ := Hash.zero
  badWitness _ := false
  arbitrationResult _ _ := Hash.zero
  council _ := false
  heartbeat _ _ := none
  balance _ := 0

structure WitenssVote where
  extra : Bytes
  sign : Bytes
deriving DecidableEq

structure VoteMsg where
  extra : Bytes
  unitHash : Hash
  sign : Bytes
deriving DecidableEq

def WitenssVote.toVote (v : WitenssVote) (uhash : Hash) : VoteMsg := ⟨v.extra, uhash, v.sign⟩

/-- A header that somebody shows to the contract; `hash` is what `Hash()` makes of all fields. -/
structure Header where
  mc : Address
  number : Nat
  scHash : Hash
  hash : Hash
  number_lt : number < 2 ^ 64
deriving DecidableEq

def Header.id (h : Header) : UnitID := ⟨h.mc, h.number, h.hash⟩

structure AffectedUnit where
  header : Header
  votes : List WitenssVote
deriving DecidableEq

structure ChooseVote where
  chain : Address
  applyNumber : Nat
  applyUHash : Hash
  choose : UnitID
  sign : Bytes
deriving DecidableEq

/-- A group that can be chosen. The program never sets the rate, which stays zero. -/
structure ChoseGroup where
  index : Nat
  chainCount : Nat
  rate : Nat
  witnessCount : Nat
deriving DecidableEq

/-- The node around the contract. Of the sorting of the library nothing is known but that it keeps
the elements (the comparisons given here are not orders). -/
structure Env where
  scAccount : Address
  foundationAccount : Address
  publicPrivateKeyAddr : Address
  genesisHash : Hash
  /-- `types.Sender` of a vote over a unit. -/
  voteSender : VoteMsg → Except Err Address
  /-- `types.Sender` of a vote over a choice. -/
  chooseSender : ChooseVote → Except Err Address
  getUnitState : Hash → Except Err StateDB
  sliceStable : (ChoseGroup → ChoseGroup → Bool) → List ChoseGroup → List ChoseGroup
  sliceStable_perm : ∀ less groups, (sliceStable less groups).Perm groups

structure Call where
  caller : Address
  coinbase : Address
  unitNumber : Nat
deriving DecidableEq

def useGas (gas amount : Nat) : Except Err Nat :=
  if gas < amount then .error .outOfGas else .ok (gas - amount)

theorem useGas_of_le {gas amount : Nat} (h : amount ≤ gas) : useGas gas amount = .ok (gas - amount) :=
  if_neg (by omega)

theorem useGas_eq_ok_iff {gas amount gas' : Nat} :
    useGas gas amount = .ok gas' ↔ amount ≤ gas ∧ gas' = gas - amount := by
  rw [useGas]
  split
  · simp; omega
  · simp; omega

namespace Gas

def sloadGas : Nat := 50
def sstoreLoadGas : Nat := 10000
def sstoreSetGas : Nat := 20000
def ecrecoverGas : Nat := 3000
def sha256BaseGas : Nat := 60
def bn256PairingBaseGas : Nat := 100000

end Gas

end Nerthus.Sc
