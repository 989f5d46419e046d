import Nerthus.Common.Params

/-!
# Messages of the BFT consensus

The values that `consensus/bft` and `consensus/protocol` exchange. A message body is the result
of decoding its RLP bytes: a two-element list is a `Preprepare`, a three-element list a
`Subject`. Rounds and sequences are big integers, not negative in RLP.

`Message.sign` is the address that recovering the signature over exactly this content yields,
and a seal remembers the signer and the unit hash it was made for.
-/

namespace Nerthus.Bft

structure View where
  round : Nat
  sequence : Nat
deriving DecidableEq

/-- `View.Cmp`: the sequence first, then the round. -/
def View.cmp (v y : View) : Ordering :=
  (compare v.sequence y.sequence).then (compare v.round y.round)

structure Proposal where
  number : Nat
  hash : Hash
  mc : Address
  scHash : Hash
  hash_ne_zero : hash ≠ Hash.zero
deriving DecidableEq

structure MiningResult where
  unit : Proposal
deriving DecidableEq

structure Request where
  proposal : MiningResult
deriving DecidableEq

structure Preprepare where
  view : View
  proposal : Option Proposal
  mining : Option MiningResult
deriving DecidableEq

structure Subject where
  view : View
  digest : Hash
deriving DecidableEq

/-- `Subject.Cmp`, which leaves the extra bytes out. -/
def Subject.cmp (s other : Subject) : Bool :=
  s.view.cmp other.view == .eq && s.digest == other.digest

inductive ConsensusType where
  | msgPreprepare
  | msgPrepare
  | msgCommit
  | msgRoundChange
  | msgCheckPendingTx
  | invalid (code : UInt8)
deriving DecidableEq

def ConsensusType.byte : ConsensusType → UInt8
  | .msgPreprepare => 1
  | .msgPrepare => 2
  | .msgCommit => 3
  | .msgRoundChange => 4
  | .msgCheckPendingTx => 5
  | .invalid code => code

inductive Payload where
  | preprepare (view : View) (proposal : Option Proposal)
  | subject (sub : Subject)
  | malformed
deriving DecidableEq

namespace Payload

def decodePreprepare : Payload → Option Preprepare
  | .preprepare view proposal => some ⟨view, proposal, none⟩
  | _ => none

def decodeSubject : Payload → Option Subject
  | .subject sub => some sub
  | _ => none

end Payload

/-- The signature of a `VoteMsg`: who signed, and for which unit hash. -/
structure SignContent where
  signer : Address
  unitHash : Hash
deriving DecidableEq

structure WitenssVote where
  extra : List UInt8
  sign : Option SignContent
deriving DecidableEq

def WitenssVote.sender (v : WitenssVote) (digest : Hash) : Option Address :=
  match v.sign with
  | some s => if s.unitHash = digest then some s.signer else none
  | none => none

structure Message where
  code : ConsensusType
  msg : Payload
  address : Address
  extra : Option Nat
  sign : Option Address
  committedSeal : Option WitenssVote
  isMe : Bool
deriving DecidableEq

def Message.sender (m : Message) : Option Address :=
  if m.sign = some m.address then some m.address else none

/-- `bft.ProofTreeMessage`, the fields that `PacketProveTreeBytes` encodes. -/
structure ProofTreeMessage where
  code : ConsensusType
  msg : Payload
  address : Address
  extra : Option Nat
  sign : Option Address
  committedSeal : Option WitenssVote
deriving DecidableEq

def Message.packetProveTreeBytes (m : Message) : ProofTreeMessage :=
  ⟨m.code, m.msg, m.address, m.extra, m.sign, m.committedSeal⟩

/-- Heights stay below the largest signed number, so that `int64(Number) + 1` is exact. -/
structure Header where
  number : Nat
  hash : Hash
  proposer : Address
  number_lt : number + 1 < 2 ^ 63
deriving DecidableEq

/-- The errors of `backend.Verify` that `consensus.IsBadUnitErr` tells apart. -/
inductive VerifyErr where
  | knownBlock
  | futureBlock
  | insertingBlock
  | inInArbitration
  | alreadyExistStableUnit
  | unknownAncestor
  | other
deriving DecidableEq

inductive Err where
  | inconsistentSubject
  | notFromProposer
  | futureMessage
  | oldMessage
  | invalidMessage
  | failedDecodePreprepare
  | failedDecodePrepare
  | failedDecodeCommit
  | futureUnitMessage
  | unauthorizedAddress
  | existVoteMsg
  | invalidCommitSeal
  | differentRoundCommitSeal
  | differentCommitSeal
  | invalidSignature
  | notWitness
  | chainIsStopping
  | validatorsUnknown
  | validatorIsEmpty
  | isNotMyChain
  | verify (err : VerifyErr)
deriving DecidableEq

def Err.isBadUnitErr : Err → Bool
  | .verify .other => true
  | .verify _ => false
  | _ => true

inductive State where
  | acceptRequest
  | preprepared
  | prepared
  | committed
deriving DecidableEq

def State.toNat : State → Nat
  | .acceptRequest => 0
  | .preprepared => 1
  | .prepared => 2
  | .committed => 3

def State.cmp (s y : State) : Ordering := compare s.toNat y.toNat

structure RoundView where
  round : Nat
  sequence : Nat
  deadLine : Nat
deriving DecidableEq

inductive Event where
  | newNumber (number : Nat)
  | newProposal (request : Request)
  | newTx
  | newMessage (msg : Message)
  | newChangeRound (rv : RoundView)
deriving DecidableEq

/-- What the node around the core answers while one event is handled: anything, and other things
later. -/
structure Backend where
  /-- `time.Now()`, in nanoseconds. -/
  now : Nat
  tailHeader : Header
  /-- The witness list behind `Validators`, unless it cannot be read. -/
  witnesses : Option (List Address)
  verify : Proposal → Option VerifyErr
  /-- `WitnessLib(unit.MC(), unit.SCHash())`. -/
  witnessLib : Address → Hash → List Address
  existTx : Bool
  /-- Whether `packUnit` returns without an error. -/
  packUnit : Bool
  reBroadTx : Int
  waitGenerateUnitTime : Nat
  /-- Whether `Sign` succeeds for a message of this type. -/
  sign : ConsensusType → Bool
  randomFnv64a : Nat
  /-- The order in which a map of messages is walked. -/
  walk : List Message → List Message
  walk_perm : ∀ messages, (walk messages).Perm messages

theorem View.cmp_eq_iff {v y : View} : v.cmp y = .eq ↔ v = y := by
  cases v
  cases y
  simp [View.cmp, Ordering.then_eq_eq, and_comm]

theorem View.cmp_lt_iff {v y : View} :
    v.cmp y = .lt ↔ v.sequence < y.sequence ∨ v.sequence = y.sequence ∧ v.round < y.round := by
  simp [View.cmp, Ordering.then_eq_lt, Nat.compare_eq_lt]

theorem View.cmp_gt_iff {v y : View} :
    v.cmp y = .gt ↔ y.sequence < v.sequence ∨ v.sequence = y.sequence ∧ y.round < v.round := by
  simp [View.cmp, Ordering.then_eq_gt, Nat.compare_eq_gt]

theorem Subject.cmp_iff {s other : Subject} : s.cmp other = true ↔ s = other := by
  cases s
  cases other
  simp [Subject.cmp, View.cmp_eq_iff]

theorem Message.sender_eq_some {m : Message} {a : Address} :
    m.sender = some a ↔ m.sign = some m.address ∧ m.address = a := by
  unfold Message.sender
  split <;> simp_all

end Nerthus.Bft
