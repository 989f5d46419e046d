import Nerthus.Bft.MessageSet

/-!
# Round state

`roundstate.go`: the votes of one round, the accepted proposal, and the lock
that outlives the round.
-/

namespace Nerthus.Bft

structure PolcRound where
  view : View
  lockedHash : Hash
  signBytes : List ProofTreeMessage
deriving DecidableEq

structure RoundState where
  chainAddress : Address
  round : Nat
  sequence : Nat
  preprepare : Option Preprepare
  prepares : MessageSet
  commits : MessageSet
  polcRound : Option PolcRound
  pendingRequest : Option Request

variable (s : RoundState)

namespace RoundState

def newRoundState (view : View) (validatorSet : ValidatorSet) (chainAddress : Address)
    (polcRound : Option PolcRound) (preprepare : Option Preprepare)
    (pendingRequest : Option Request) : RoundState :=
  { chainAddress := chainAddress
    round := view.round
    sequence := view.sequence
    preprepare := preprepare
    prepares := MessageSet.newMessageSet validatorSet
    commits := MessageSet.newMessageSet validatorSet
    polcRound := polcRound
    pendingRequest := pendingRequest }

def view : View := ⟨s.round, s.sequence⟩

def proposal (s : RoundState) : Option Proposal := s.preprepare.bind Preprepare.proposal

def subject : Subject :=
  ⟨s.view, match s.proposal with
    | some p => p.hash
    | none => Hash.zero⟩

def lockedHash (s : RoundState) : Hash :=
  match s.polcRound with
  | some p => p.lockedHash
  | none => Hash.zero

def isHashLocked : Bool := !s.lockedHash.emptyHash

def unlockHash : RoundState := { s with polcRound := none }

def getPrepareOrCommitSize : Nat :=
  s.prepares.size + s.commits.size -
    (s.prepares.messages.filter fun m => (s.commits.get m.address).isSome).length

/-- One of the two loops of `GetPrepareOrCommitBytes`. -/
def collect (minVoteCount : Nat) (msgs : List Message)
    (acc : List Address × List ProofTreeMessage) : List Address × List ProofTreeMessage :=
  match msgs with
  | [] => acc
  | msg :: rest =>
    if acc.2.length ≥ minVoteCount then acc
    else if msg.address ∈ acc.1 then collect minVoteCount rest acc
    else collect minVoteCount rest
      (msg.address :: acc.1, acc.2 ++ [msg.packetProveTreeBytes])

def getPrepareOrCommitBytes (scAccount : Address) (b : Backend) :
    List ProofTreeMessage :=
  let minVoteCount := Params.getChainMinVoting scAccount s.chainAddress
  (collect minVoteCount (s.commits.values b)
    (collect minVoteCount (s.prepares.values b) ([], []))).2

theorem isHashLocked_iff {s : RoundState} :
    s.isHashLocked = true ↔ ∃ p, s.polcRound = some p ∧ p.lockedHash ≠ Hash.zero := by
  unfold isHashLocked lockedHash
  split <;> simp_all

end RoundState

end Nerthus.Bft
