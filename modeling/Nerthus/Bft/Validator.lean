import Nerthus.Bft.Types

/-!
# Validator sets

`consensus/bft/validator.go`: the witness list of a chain, sorted by the text
of the addresses, with the proposer of the current round cached beside it.
`addressString` is `Address.String()` as the bytes of the text, `scAccount` the
address of the system chain.
-/

namespace Nerthus.Bft

structure Config where
  requestTimeout : Nat
  consensusTimeout : Nat
  scAccount : Address
  addressString : Address → List Nat

structure ValidatorSet where
  height : Nat
  preHash : Hash
  validators : List Address
  /-- The cached proposer; empty when there is none. -/
  proposer : Address
  chain : Address
  solt : Nat
  scAccount : Address

def bytesLe : List Nat → List Nat → Bool
  | [], _ => true
  | _ :: _, [] => false
  | x :: xs, y :: ys => x < y || x == y && bytesLe xs ys

def validatorsSort (addressString : Address → List Nat) (validators : List Address) :
    List Address :=
  validators.insertionSort fun x y => bytesLe (addressString x) (addressString y) = true

def fnv32 (key : List Nat) : Nat :=
  key.foldl (fun hash byte => (hash * 16777619 % 2 ^ 32) ^^^ byte) 2166136261

/-- `calcSeed`: the place of the previous proposer, zero if it is not listed,
plus the round. -/
def calcSeed (vals : List Address) (proposer : Address) (round : Nat) : Nat :=
  let offset := if proposer ∈ vals then vals.idxOf proposer else 0
  uint64 (offset + round)

def nextRoundProposer (vals : List Address) (proposer : Address) (round height : Nat) :
    Address :=
  let seed := if proposer.empty then uint64 (height + round)
    else uint64 (calcSeed vals proposer round + 1)
  vals.getD (seed % vals.length) Address.emptyAddress

variable (v : ValidatorSet)

namespace ValidatorSet

def newDefaultSet (config : Config) (height : Nat) (preHash : Hash) (validators : List Address)
    (chain : Address) : ValidatorSet :=
  let sorted := validatorsSort config.addressString validators
  { height := height
    preHash := preHash
    validators := sorted
    proposer := sorted.getD 0 Address.emptyAddress
    chain := chain
    solt := fnv32 (config.addressString chain)
    scAccount := config.scAccount }

def size : Nat := v.validators.length

def getByAddress (a : Address) : Bool := a ∈ v.validators

def isProposer (a : Address) : Bool :=
  !(v.proposer.empty || a.empty) && v.proposer == a

def calcProposer (proposer : Address) (round : Nat) : ValidatorSet :=
  { v with
    proposer := nextRoundProposer v.validators proposer round (uint64 (v.height + v.solt)) }

def f : Nat := v.size / 3

def twoThirdsMajority : Nat :=
  if v.chain = v.scAccount then Params.configParamsSCMinVotings - 1
  else Params.configParamsUCMinVotings - 1

@[simp] theorem twoThirdsMajority_eq (v : ValidatorSet) : v.twoThirdsMajority = 7 := by
  unfold twoThirdsMajority
  split <;> rfl

@[simp] theorem getByAddress_iff {v : ValidatorSet} {a : Address} :
    v.getByAddress a = true ↔ a ∈ v.validators := by
  simp [getByAddress]

theorem newDefaultSet_validators_perm (config : Config) (height : Nat) (preHash : Hash)
    (validators : List Address) (chain : Address) :
    (newDefaultSet config height preHash validators chain).validators.Perm validators :=
  List.perm_insertionSort _ _

end ValidatorSet

end Nerthus.Bft
