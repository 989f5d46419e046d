import Nerthus.Common.Types
import Nerthus.Lib.Keyed
import Nerthus.Lib.Lru
import Nerthus.Lib.Fuel

/-!
# The core of the council's arbitration

`core.go` of `council/arbitration`. When the system chain stands still, the members of the
council vote in two phases for a unit that replaces the system witnesses. Every call holds the
mutex of the core, so that it is one step.

A call that does not return is an error of the step: it waits for the mutex it holds, writes to
a nil map, or asks a nil proposal for its hash.
-/

namespace Nerthus.Council

open Lib (Keyed Lru)

inductive State where
  | running
  | stop
  | prepare
  | commited
deriving DecidableEq

def State.code : State → Nat
  | .running => 0
  | .stop => 1
  | .prepare => 2
  | .commited => 3

/-- What a signature says: who signed which `GetSignStruct`. -/
structure SignContent where
  signer : Address
  dist : Hash
  scTail : Nat
deriving DecidableEq

structure CouncilMessage where
  /-- `From` -/
  sender : Address
  scTail : Nat
  dist : Hash
  /-- The byte that was sent, which need not be the code of a state. -/
  status : Nat
  sign : Option SignContent
deriving DecidableEq

def CouncilMessage.getSignStruct (msg : CouncilMessage) : Hash × Nat := (msg.dist, msg.scTail)

def verifySign (msg : CouncilMessage) : Option Address :=
  match msg.sign with
  | some s => if (s.dist, s.scTail) = msg.getSignStruct then some s.signer else none
  | none => none

def signBy (a : Address) (msg : CouncilMessage) : CouncilMessage :=
  { msg with sign := some ⟨a, msg.dist, msg.scTail⟩ }

structure WitenssVote where
  /-- The height in `Extra`. -/
  scTail : Nat
  sign : Option SignContent
deriving DecidableEq

structure Proposal where
  hash : Hash
  number : Nat
deriving DecidableEq

abbrev Votes := Keyed CouncilMessage.sender

structure Evidence where
  address : Address
  messages : List CouncilMessage
deriving DecidableEq

structure Backend where
  /-- `ScTail().Number` -/
  scTail : Nat
  /-- `GetCouncils`, none if it fails -/
  getCouncils : Option (List Address)
  /-- `GenerateProposal(ScTail())`, none if it fails -/
  generateProposal : Option Proposal
  /-- `GetUnitByHash(hash) != nil` -/
  getUnitByHash : Hash → Bool
  sign : Bool
  commit : Bool

inductive Halt where
  | selfLock
  | nilMap
  | nilProposal
deriving DecidableEq

inductive VoteError where
  | dishonestAddress
  | invalidAddress
  | oldHeight
  | invalidScNumber
  | oldMsg
  | invalidSign
  | invalidCode
  | dishonest
  | invalidVote
  | repeatMsg
deriving DecidableEq

inductive Output where
  | broadcast (msg : CouncilMessage)
  | commit (proposal : Proposal) (seals : List WitenssVote)
  | activated
deriving DecidableEq

structure Core where
  isStarted : Bool
  address : Address
  lockHash : Hash
  scTail : Nat
  proposal : Option Proposal
  councils : List Address
  votes1 : Option Votes
  votes2 : Option Votes
  state : State
  timer : Bool
  /-- Calls of expired timers that wait for the mutex. -/
  expired : Nat
  history : Lru Hash Unit
  blackList : Option (Keyed Evidence.address)
  /-- `activedCallback != nil` -/
  activedCallback : Bool

def newCore (addr : Address) (activatedCallback : Bool) : Core :=
  { isStarted := false, address := addr, lockHash := .zero, scTail := 0, proposal := none,
    councils := [], votes1 := none, votes2 := none, state := .running, timer := false,
    expired := 0, history := .empty 128, blackList := none,
    activedCallback := activatedCallback }

namespace Core

def majority32 (t : Core) : Nat := t.councils.length * 2 / 3

def majority31 (t : Core) : Nat := t.councils.length / 3

def first (t : Core) : List CouncilMessage := (t.votes1.getD .empty).values

def second (t : Core) : List CouncilMessage := (t.votes2.getD .empty).values

def Blamed (t : Core) (a : Address) : Prop := ((t.blackList.getD .empty).get a).isSome = true
deriving Decidable

def startTimer (t : Core) : Core := { t with timer := true }

def stopTimer (t : Core) : Core := { t with timer := false }

def lockDist (t : Core) (dist : Hash) : Core :=
  { t with
    lockHash := dist
    votes2 := if t.state = .stop then t.votes2.map (·.filter fun v => v.dist = dist)
      else t.votes2 }

end Core

variable (b : Backend) (t : Core)

def wrapAndBroadcast (msg : CouncilMessage) : List Output :=
  if b.sign then [.broadcast (signBy t.address msg)] else []

def sendVote1 : Except Halt (List Output) :=
  match t.proposal with
  | none => .error .nilProposal
  | some p =>
    .ok (wrapAndBroadcast b t ⟨t.address, t.scTail, p.hash, State.stop.code, none⟩)

def sendVote2 : List Output :=
  wrapAndBroadcast b t ⟨t.address, t.scTail, t.lockHash, State.prepare.code, none⟩

/-- The first hash that more than `m` votes are for. The program walks a map; the order does not
matter up to `2 * m` votes, which votes of former members can exceed. -/
def decided (votes : List CouncilMessage) (m : Nat) : Option Hash :=
  (votes.map CouncilMessage.dist).find? fun d => m < votes.countP fun v => v.dist = d

def refresh : Core :=
  if t.scTail < b.scTail then
    { t with scTail := b.scTail, councils := b.getCouncils.getD [] }
  else t

def activate (p : Proposal) (t : Core) : Core :=
  { t with
    proposal := some p
    votes1 := t.votes1.map (·.filter fun v => v.scTail = t.scTail)
    votes2 := t.votes2.map (·.filter fun v => v.scTail = t.scTail)
    state := .stop
    timer := true }

def active (scNumber : Nat) (t : Core) : Except Halt (Core × List Output) :=
  if t.state ≠ .running then .ok (t, [])
  else if 0 < scNumber ∧ (t.first.countP fun v => v.scTail = scNumber) ≤ t.majority31 then
    .ok (t, [])
  else if t.scTail < b.scTail ∧ b.getCouncils = none then .ok (refresh b t, [])
  else if scNumber ≠ 0 ∧ b.scTail ≠ scNumber then .ok (refresh b t, [])
  else
    match b.generateProposal with
    | none => .ok ({ refresh b t with proposal := none }, [])
    | some p => do
      let t := activate p (refresh b t)
      let sent ← sendVote1 b t
      .ok (t, (if 0 < scNumber ∧ t.activedCallback then [.activated] else []) ++ sent)

/-- `verify`: the error, and the core with the history it has looked into. -/
def verify (msg : CouncilMessage) :
    Except Halt (Option VoteError × Core) :=
  if t.Blamed msg.sender then .ok (some .dishonestAddress, t)
  else if msg.sender ∉ t.councils then .ok (some .invalidAddress, t)
  else if t.state = .running ∧ uint64 (msg.scTail + 1) < t.scTail then .ok (some .oldHeight, t)
  else if t.state ≠ .running ∧ msg.scTail ≠ t.scTail then
    -- `t.Stop()` takes the mutex that `HandleVote` holds
    if t.scTail < msg.scTail ∧ t.scTail < b.scTail then .error .selfLock
    else .ok (some .invalidScNumber, t)
  else if msg.status < t.state.code then .ok (some .oldMsg, t)
  else
    match t.history.get msg.dist with
    | (some _, history) => .ok (some .oldMsg, { t with history := history })
    | (none, _) =>
      if b.getUnitByHash msg.dist then
        .ok (some .oldMsg, { t with history := t.history.add msg.dist () })
      else if verifySign msg ≠ some msg.sender then .ok (some .invalidSign, t)
      else .ok (none, t)

structure Reply where
  err : Option VoteError
  core : Core
  out : List Output

def countVote1 (msg : CouncilMessage) : Except Halt Reply :=
  if t.state = .running ∧ t.majority31 < t.first.length then do
    let (t, out) ← active b msg.scTail t
    .ok ⟨none, t, out⟩
  else if t.state = .stop ∧ t.majority32 < t.first.length then
    match decided t.first t.majority32 with
    | some dist =>
      let t := { t.lockDist dist with state := .prepare }
      .ok ⟨none, t, sendVote2 b t⟩
    | none => .ok ⟨none, t, []⟩
  else .ok ⟨none, t, []⟩

def recordVote1 (msg : CouncilMessage) : Except Halt Reply :=
  match t.votes1 with
  | none => .error .nilMap
  | some votes => countVote1 b { t with votes1 := some (votes.put msg) } msg

def blame (v msg : CouncilMessage) : Except Halt Reply :=
  match t.blackList with
  | none => .error .nilMap
  | some blackList =>
    .ok ⟨some .dishonest,
      { t with
        votes1 := t.votes1.map (·.erase msg.sender)
        votes2 := t.votes2.map (·.erase msg.sender)
        blackList := some (blackList.put ⟨v.sender, [v, msg]⟩) }, []⟩

def handleVote1 (msg : CouncilMessage) : Except Halt Reply :=
  match (t.votes1.getD .empty).get msg.sender with
  | some v =>
    if v.scTail < msg.scTail then recordVote1 b t msg
    else if v.dist = msg.dist then .ok ⟨some .repeatMsg, t, []⟩
    else blame t v msg
  | none => recordVote1 b t msg

def commit (b : Backend) (t : Core) : Except Halt (Core × List Output) :=
  let t := t.stopTimer
  match t.proposal with
  | none => .error .nilProposal
  | some p =>
    if t.lockHash = p.hash then
      let votes := (t.second.filter fun v => v.dist = t.lockHash).map fun v =>
        ⟨v.scTail, v.sign⟩
      .ok (if b.commit then { t with history := t.history.add p.hash () } else t,
        [.commit p votes])
    else .ok (t, [])

def countVote2 : Except Halt Reply :=
  if t.majority32 < t.second.length then
    match decided t.second t.majority32 with
    | some dist => do
      let t := if t.lockHash.emptyHash then t.lockDist dist else t
      let (t, out) ← commit b { t with state := .commited }
      .ok ⟨none, t, out⟩
    | none => .ok ⟨none, t, []⟩
  else .ok ⟨none, t, []⟩

def handleVote2 (msg : CouncilMessage) : Except Halt Reply :=
  if ((t.votes2.getD .empty).get msg.sender).isSome then .ok ⟨some .repeatMsg, t, []⟩
  else if ¬t.lockHash.emptyHash ∧ msg.dist ≠ t.lockHash then .ok ⟨some .invalidVote, t, []⟩
  else
    match t.votes2 with
    | none => .error .nilMap
    | some votes => countVote2 b { t with votes2 := some (votes.put msg) }

def dispatch (msg : CouncilMessage) : Except Halt Reply :=
  if msg.status = State.stop.code then handleVote1 b t msg
  else if msg.status = State.prepare.code then handleVote2 b t msg
  else .ok ⟨some .invalidCode, t, []⟩

def handleVote (msg : CouncilMessage) : Except Halt Reply := do
  let (err, t) ← verify b t msg
  match err with
  | some .oldMsg => .ok ⟨none, t, []⟩
  | some err => .ok ⟨some err, t, []⟩
  | none => do
    let r ← dispatch b t msg
    .ok { r with err := if r.err = some .repeatMsg then none else r.err }

def start : Core :=
  match b.getCouncils with
  | none => { t with councils := [] }
  | some councils =>
    { t with
      councils := councils
      votes1 := some .empty
      votes2 := some .empty
      blackList := some .empty
      scTail := b.scTail
      isStarted := true }

def stop : Core :=
  { t with
    timer := false
    lockHash := .zero
    scTail := 0
    proposal := none
    councils := []
    votes1 := none
    votes2 := none
    state := .running
    isStarted := false }

def expire : Core :=
  if t.timer then { t with timer := false, expired := t.expired + 1 } else t

def resend : Except Halt (Core × List Output) :=
  if t.expired = 0 then .ok (t, [])
  else
    let t := { t with expired := t.expired - 1 }
    if t.isStarted then do
      let sent ← sendVote1 b t
      let out := if State.stop.code < t.state.code then sendVote2 b t else []
      .ok (t.startTimer, out ++ sent)
    else .ok (t, [])

inductive Call where
  | start
  | stop
  | active
  | handleVote (msg : CouncilMessage)
  | expire
  | resend
deriving DecidableEq

def step : Call → Except Halt (Core × List Output)
  | .start => .ok (start b t, [])
  | .stop => .ok (stop t, [])
  | .active => active b 0 t
  | .handleVote msg => do
    let r ← handleVote b t msg
    .ok (r.core, r.out)
  | .expire => .ok (expire t, [])
  | .resend => resend b t

def run (t : Core) : List (Backend × Call) → Except Halt (Core × List Output)
  | [] => .ok (t, [])
  | (b, c) :: rest => do
    let (t, out) ← step b t c
    let (t, out') ← run t rest
    .ok (t, out ++ out')

def Along (P : Backend → Core → Call → Prop) (t : Core) : List (Backend × Call) → Prop
  | [] => True
  | (b, c) :: rest =>
    P b t c ∧
      match step b t c with
      | .ok (t', _) => Along P t' rest
      | .error _ => True

instance decidableAlong (P : Backend → Core → Call → Prop) [∀ b t c, Decidable (P b t c)]
    (t : Core) : (calls : List (Backend × Call)) → Decidable (Along P t calls)
  | [] => isTrue trivial
  | (b, c) :: rest =>
    match h : step b t c with
    | .ok (t', _) =>
      have := decidableAlong P t' rest
      decidable_of_iff (P b t c ∧ Along P t' rest) (by simp [Along, h])
    | .error _ => decidable_of_iff (P b t c) (by simp [Along, h])

end Nerthus.Council
