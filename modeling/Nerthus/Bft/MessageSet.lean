import Nerthus.Bft.Validator

/-!
# Message sets

`message_set.go` and the set of round-change messages of `roundchange.go`. A
message set is a map from senders to messages. The key of a message is its
own address, so the map is a list of messages with pairwise different senders.
-/

namespace Nerthus.Bft

structure MessageSet where
  validators : List Address
  messages : List Message
  nodup : (messages.map Message.address).Nodup

variable (ms : MessageSet)

namespace MessageSet

def newMessageSet (valSet : ValidatorSet) : MessageSet := ⟨valSet.validators, [], List.nodup_nil⟩

def size : Nat := ms.messages.length

def get (a : Address) : Option Message :=
  ms.messages.find? fun m => m.address = a

def values (b : Backend) : List Message := b.walk ms.messages

/-- `Add`: `verify`, then store. -/
def add (msg : Message) : MessageSet × Option Err :=
  if msg.address ∉ ms.validators then (ms, some .unauthorizedAddress)
  else if h : msg.address ∈ ms.messages.map Message.address then (ms, some .existVoteMsg)
  else (⟨ms.validators, msg :: ms.messages, List.nodup_cons.mpr ⟨h, ms.nodup⟩⟩, none)

theorem add_cases (ms : MessageSet) (msg : Message) :
    ((∃ err, (ms.add msg).2 = some err ∧ err ≠ .futureMessage ∧ err ≠ .futureUnitMessage) ∧
        (ms.add msg).1 = ms) ∨
      ((ms.add msg).2 = none ∧ msg.address ∈ ms.validators ∧
        msg.address ∉ ms.messages.map Message.address ∧
        (ms.add msg).1.messages = msg :: ms.messages ∧
        (ms.add msg).1.validators = ms.validators) := by
  unfold add
  split
  · exact Or.inl ⟨⟨_, rfl, by simp, by simp⟩, rfl⟩
  rename_i hmem
  split
  · exact Or.inl ⟨⟨_, rfl, by simp, by simp⟩, rfl⟩
  · rename_i hnew
    exact Or.inr ⟨rfl, not_not.mp hmem, hnew, rfl, rfl⟩

theorem get_isSome_iff {ms : MessageSet} {a : Address} :
    (ms.get a).isSome = true ↔ a ∈ ms.messages.map Message.address := by
  simp [get, List.find?_isSome]

end MessageSet

/-- `roundChangeSet`: round-change messages in buckets, keyed by
`Round.Uint64()`. -/
structure RoundChangeSet where
  validatorSet : ValidatorSet
  roundChanges : AList fun _ : Nat => MessageSet

namespace RoundChangeSet

def newRoundChangeSet (valSet : ValidatorSet) : RoundChangeSet := ⟨valSet, ∅⟩

def bucket (rcs : RoundChangeSet) (key : Nat) : MessageSet :=
  (rcs.roundChanges.lookup key).getD (MessageSet.newMessageSet rcs.validatorSet)

def add (rcs : RoundChangeSet) (r : Nat) (msg : Message) : RoundChangeSet × Nat × Option Err :=
  let round := uint64 r
  let (ms, err) := (rcs.bucket round).add msg
  ({ rcs with roundChanges := rcs.roundChanges.insert round ms }, ms.size, err)

/-- `MaxRound`: the largest key, as `int64`, whose bucket has `num` messages. -/
def maxRound (rcs : RoundChangeSet) (num : Nat) : Option Int :=
  rcs.roundChanges.entries.foldl
    (fun maxRound entry =>
      if entry.2.size < num then maxRound
      else
        let r := int64 entry.1
        match maxRound with
        | none => some r
        | some m => if m < r then some r else some m)
    none

end RoundChangeSet

end Nerthus.Bft
