import Nerthus.Bft.Votes

/-!
# Certificates of a round change

A node enters round `R` when more than two thirds of the validators ask for it. The messages are
counted in a bucket keyed by `Round.Uint64()`, but the round entered is the big integer of the
last message.
-/

namespace Nerthus.Bft

open Replica

def Event.roundChangeFrom (view : View) : Event → Option Address
  | .newMessage m =>
    match m.code, m.msg with
    | .msgRoundChange, .subject sub => if sub.view = view then m.sender else none
    | _, _ => none
  | _ => none

def Certified (evs : List (Backend × Event)) (valSet : ValidatorSet) (view : View) : Prop :=
  ∃ senders : List Address, senders.Nodup ∧ valSet.twoThirdsMajority < senders.length ∧
    ∀ a ∈ senders, a ∈ valSet.validators ∧ ∃ e ∈ evs, e.2.roundChangeFrom view = some a

/-- The bucket that a round-change message is put in holds messages of exactly
its own round. -/
def RoundsExact (c : Core) (msg : Message) : Prop :=
  ∀ rc, msg.msg = .subject rc →
    ∀ m ∈ (c.roundChangeSet.bucket (uint64 rc.view.round)).messages,
      ∀ sub, m.msg = .subject sub → sub.view.round = rc.view.round

/-! ## What the buckets hold -/

structure Counted (received : Message → Prop) (r : Replica) (m : Message) : Prop where
  received : received m
  code : m.code = .msgRoundChange
  sender : m.sender = some m.address
  validator : m.address ∈ r.valSet.validators
  sequence : ∃ rc, m.msg = .subject rc ∧ rc.view.sequence = r.current.sequence

structure Collected (received : Message → Prop) (r : Replica) : Prop where
  validators : r.roundChangeSet.validatorSet.validators = r.valSet.validators
  buckets : ∀ key ms, r.roundChangeSet.roundChanges.lookup key = some ms →
    ms.validators = r.valSet.validators ∧ ∀ m ∈ ms.messages, Counted received r m

variable {received : Message → Prop} {r r' : Replica} {received' : Message → Prop}

theorem Counted.frame {m : Message} (h : Counted received r m)
    (hrec : ∀ m, received m → received' m) (hval : r'.valSet.validators = r.valSet.validators)
    (hseq : r'.current.sequence = r.current.sequence) : Counted received' r' m := by
  refine ⟨hrec m h.received, h.code, h.sender, ?_, ?_⟩
  · rw [hval]
    exact h.validator
  · rw [hseq]
    exact h.sequence

theorem Collected.frame (h : Collected received r) (hrec : ∀ m, received m → received' m)
    (hset : r'.roundChangeSet = r.roundChangeSet)
    (hval : r'.valSet.validators = r.valSet.validators)
    (hseq : r'.current.sequence = r.current.sequence) : Collected received' r' := by
  refine ⟨?_, fun key ms hlookup => ?_⟩
  · rw [hset, hval]
    exact h.validators
  · rw [hset] at hlookup
    obtain ⟨hms, hall⟩ := h.buckets key ms hlookup
    exact ⟨hms.trans hval.symm, fun m hm => (hall m hm).frame hrec hval hseq⟩

theorem Collected.fresh {valSet : ValidatorSet}
    (hset : r.roundChangeSet = RoundChangeSet.newRoundChangeSet valSet)
    (hval : valSet.validators = r.valSet.validators) : Collected received r := by
  refine ⟨?_, fun key ms hlookup => ?_⟩
  · rw [hset]
    exact hval
  · rw [hset] at hlookup
    cases hlookup

theorem Collected.bucket (h : Collected received r) (key : Nat) :
    (r.roundChangeSet.bucket key).validators = r.valSet.validators ∧
      ∀ m ∈ (r.roundChangeSet.bucket key).messages, Counted received r m := by
  unfold RoundChangeSet.bucket
  cases hlookup : r.roundChangeSet.roundChanges.lookup key with
  | none => exact ⟨h.validators, nofun⟩
  | some ms => exact h.buckets key ms hlookup

theorem Collected.add (h : Collected received r) {msg : Message} {round : Nat}
    (hmsg : Counted received r msg) : Collected received (r.addRoundChange round msg) := by
  obtain ⟨hval, hall⟩ := h.bucket (uint64 round)
  refine ⟨h.validators, fun key ms hlookup => ?_⟩
  change AList.lookup key (r.roundChangeSet.roundChanges.insert (uint64 round)
    ((r.roundChangeSet.bucket (uint64 round)).add msg).1) = some ms at hlookup
  by_cases hkey : key = uint64 round
  · subst hkey
    rw [AList.lookup_insert] at hlookup
    cases hlookup
    refine ⟨?_, fun m hm => ?_⟩
    · rcases MessageSet.add_cases (r.roundChangeSet.bucket (uint64 round)) msg with
        ⟨-, hsame⟩ | ⟨-, -, -, -, hvals⟩
      · rw [hsame]
        exact hval
      · exact hvals.trans hval
    · rcases MessageSet.mem_add hm with rfl | hold
      · exact hmsg.frame (fun _ h => h) rfl rfl
      · exact (hall m hold).frame (fun _ h => h) rfl rfl
  · rw [AList.lookup_insert_ne hkey] at hlookup
    obtain ⟨hms, hmsgs⟩ := h.buckets key ms hlookup
    exact ⟨hms, fun m hm => (hmsgs m hm).frame (fun _ h => h) rfl rfl⟩

theorem Effect.collected {b : Backend} {ev : Event} (h : Effect b r ev r') (hs : r.Sound)
    (hcol : Collected received r) (hrec : ∀ m, received m → received' m)
    (hev : ∀ msg, ev = .newMessage msg → received' msg) : Collected received' r' := by
  have hold : Collected received' r := hcol.frame hrec rfl rfl rfl
  cases h with
  | proposed => rw [sendPreprepare_eq]; exact hold.frame (fun _ h => h) rfl rfl rfl
  | accepted => rw [sendPrepare_eq]; exact hold.frame (fun _ h => h) rfl rfl rfl
  | reaccepted => rw [sendCommit_eq]; exact hold.frame (fun _ h => h) rfl rfl rfl
  | prepareLocked =>
    rw [prepare, sendCommit_eq]
    exact hold.frame (fun _ h => h) rfl rfl rfl
  | commitLocked =>
    rw [prepare, sendCommit_eq]
    exact hold.frame (fun _ h => h) rfl rfl rfl
  | roundChangeCounted msg rc hmsg hcode hbody hseq =>
    exact hold.add ⟨hev msg rfl, hcode, hmsg.sender, hmsg.validator, rc, hbody, hseq⟩
  | roundChanged msg rc =>
    have hs' := hs.addRoundChange rc.view.round msg
    obtain ⟨hset, hval, -⟩ := hs'.enterRound_frame (b := b) rc.view.round
    exact .fresh hset hval.symm
  | sequenceStarted => exact .fresh rfl rfl
  | refreshed => exact .fresh rfl rfl
  | _ => exact hold.frame (fun _ h => h) rfl rfl rfl

def Delivered (evs : List (Backend × Event)) (m : Message) : Prop :=
  ∃ e ∈ evs, e.2 = .newMessage m

theorem Run.collected {evs : List (Backend × Event)} {c : Core} (h : Run evs c) :
    Collected (Delivered evs) c.replica := by
  induction h with
  | start h =>
    obtain ⟨list, -, -, hc⟩ := Core.start_replica h
    rw [hc]
    exact .fresh rfl rfl
  | step h b hown ih =>
    refine (h.effect b hown).collected h.sound ih ?_ ?_
    · rintro m ⟨e, he, hm⟩
      exact ⟨e, .tail _ he, hm⟩
    · intro msg hmsg
      exact ⟨_, .head _, hmsg⟩

/-! ## Entering a round -/

/-- A message changes the view only as the last of enough round changes in its bucket. -/
theorem Effect.entered {b : Backend} {msg : Message} (h : Effect b r (.newMessage msg) r')
    (hs : r.Sound) (hview : r'.current.view ≠ r.current.view) :
    ∃ rc, msg.code = .msgRoundChange ∧ msg.msg = .subject rc ∧
      rc.view.sequence = r.current.sequence ∧ r.current.round < rc.view.round ∧
      r'.current.view = rc.view ∧ r.Received msg ∧
      (r.roundChangeSet.add rc.view.round msg).2.2 = none ∧
      7 < (r.roundChangeSet.add rc.view.round msg).2.1 := by
  cases h with
  | accepted => rw [sendPrepare_eq] at hview; exact absurd rfl hview
  | reaccepted => rw [sendCommit_eq] at hview; exact absurd rfl hview
  | prepareLocked =>
    rw [prepare, sendCommit_eq] at hview
    exact absurd rfl hview
  | commitLocked =>
    rw [prepare, sendCommit_eq] at hview
    exact absurd rfl hview
  | roundChanged msg rc hmsg hcode hbody hseq hadd hnum hround =>
    have hs' := hs.addRoundChange rc.view.round msg
    obtain ⟨-, -, hnew⟩ := hs'.enterRound_frame (b := b) rc.view.round
    refine ⟨rc, hcode, hbody, hseq, hround, ?_, hmsg, hadd, hnum⟩
    rw [hnew]
    change (⟨rc.view.round, r.current.sequence⟩ : View) = rc.view
    rw [← hseq]
  | _ => exact absurd rfl hview

theorem roundChangeFrom_eq {view : View} {m : Message} {sub : Subject}
    (hcode : m.code = .msgRoundChange) (hmsg : m.msg = .subject sub) (hview : sub.view = view)
    (hsender : m.sender = some m.address) :
    (Event.newMessage m).roundChangeFrom view = some m.address := by
  simp [Event.roundChangeFrom, hcode, hmsg, hview, hsender]

/-- If the bucket holds messages of one round only, a node enters a round from an earlier one, and
more than two thirds of the validators have asked for it. -/
theorem run_roundChange_certified {evs : List (Backend × Event)} {c : Core} (h : Run evs c)
    (b : Backend) {msg : Message} (hown : (Event.newMessage msg).Own c.address)
    (hexact : RoundsExact c msg)
    (henter : (c.handleEvent b (.newMessage msg)).current.view ≠ c.current.view) :
    (c.handleEvent b (.newMessage msg)).current.sequence = c.current.sequence ∧
      c.current.round < (c.handleEvent b (.newMessage msg)).current.round ∧
      Certified ((b, .newMessage msg) :: evs) c.valSet
        (c.handleEvent b (.newMessage msg)).current.view := by
  obtain ⟨rc, hcode, hbody, hseq, hround, hview, hmsg, hadd, hnum⟩ :=
    (h.effect b hown).entered h.sound henter
  obtain ⟨-, hbucket⟩ := h.collected.bucket (uint64 rc.view.round)
  have hview' : (c.handleEvent b (.newMessage msg)).current.view = rc.view := hview
  refine ⟨(congrArg View.sequence hview').trans hseq, ?_, ?_⟩
  · rw [show (c.handleEvent b (.newMessage msg)).current.round = rc.view.round from
      congrArg View.round hview']
    exact hround
  rw [hview']
  let bucket := c.roundChangeSet.bucket (uint64 rc.view.round)
  have hadd' : (bucket.add msg).2 = none := hadd
  have hnum' : 7 < (bucket.add msg).1.messages.length := hnum
  refine ⟨(bucket.add msg).1.messages.map Message.address, (bucket.add msg).1.nodup, ?_, ?_⟩
  · rw [ValidatorSet.twoThirdsMajority_eq, List.length_map]
    exact hnum'
  · intro a ha
    obtain ⟨m, hm, rfl⟩ := List.mem_map.mp ha
    rcases MessageSet.mem_add hm with rfl | hold
    · exact ⟨hmsg.validator, _, .head _,
        roundChangeFrom_eq hcode hbody rfl hmsg.sender⟩
    obtain ⟨⟨e, he, hem⟩, hmcode, hmsender, hmval, sub, hmsub, hmseq⟩ := hbucket m hold
    have hsub : sub.view = rc.view := by
      have hr := hexact rc hbody m hold sub hmsub
      have hq : sub.view.sequence = rc.view.sequence := hmseq.trans hseq.symm
      calc sub.view = ⟨sub.view.round, sub.view.sequence⟩ := rfl
        _ = rc.view := by rw [hr, hq]
    refine ⟨hmval, e, .tail _ he, ?_⟩
    rw [hem]
    exact roundChangeFrom_eq hmcode hmsub hsub hmsender

def roundChangeRun : List (Backend × Event) :=
  (witnessGroup 8).tail.map fun a => (sampleBackend, .newMessage (sentRoundChange a 1))

theorem roundChange_certified_one : ∃ evs c, Run evs c ∧
    let msg := sentRoundChange ⟨9⟩ 1
    let b := sampleBackend
    (c.handleEvent b (.newMessage msg)).current.round = 1 ∧
      Certified ((b, .newMessage msg) :: evs) c.valSet
        (c.handleEvent b (.newMessage msg)).current.view := by
  have hcheck : (startRun defaultConfig ⟨1⟩ ⟨100⟩ sampleBackend roundChangeRun).any (fun c =>
        c.current.view = ⟨0, 1⟩ ∧
        (c.handleEvent sampleBackend (.newMessage (sentRoundChange ⟨9⟩ 1))).current.view = ⟨1, 1⟩ ∧
        ∀ m ∈ (c.roundChangeSet.bucket 1).messages,
          m.msg = .subject ⟨⟨1, 1⟩, Hash.zero⟩) = true := by
    decide +kernel
  obtain ⟨c, hrun, hc⟩ := run_of_startRun hcheck
  obtain ⟨hold, hnew, hbucket⟩ := of_decide_eq_true hc
  have hown : (Event.newMessage (sentRoundChange ⟨9⟩ 1)).Own c.address := by
    intro hme
    cases hme
  refine ⟨_, c, hrun, congrArg View.round hnew, (run_roundChange_certified hrun _ hown ?_ ?_).2.2⟩
  · intro rc hrc m hm sub hsub
    cases hrc
    cases (hbucket m hm).symm.trans hsub
    rfl
  · rw [hold, hnew]
    decide

/-- Seven round changes for round one and one for round `2 ^ 64 + 1` take the node there. -/
theorem roundChange_uncertified : ∃ evs c, Run evs c ∧
    let msg := sentRoundChange ⟨9⟩ (2 ^ 64 + 1)
    let b := sampleBackend
    (Event.newMessage msg).Own c.address ∧ msg.code = .msgRoundChange ∧
      (c.handleEvent b (.newMessage msg)).current.view = ⟨2 ^ 64 + 1, c.current.sequence⟩ ∧
      ¬Certified ((b, .newMessage msg) :: evs) c.valSet
        (c.handleEvent b (.newMessage msg)).current.view := by
  have hcheck : (startRun defaultConfig ⟨1⟩ ⟨100⟩ sampleBackend roundChangeRun).any (fun c =>
        c.current.sequence = 1 ∧
        (c.handleEvent sampleBackend (.newMessage
          (sentRoundChange ⟨9⟩ (2 ^ 64 + 1)))).current.view = ⟨2 ^ 64 + 1, 1⟩) = true := by
    decide +kernel
  have hsenders : ∀ e ∈ (sampleBackend, Event.newMessage (sentRoundChange ⟨9⟩ (2 ^ 64 + 1))) ::
      roundChangeRun.reverse, e.2.roundChangeFrom ⟨2 ^ 64 + 1, 1⟩ = none ∨
        e.2.roundChangeFrom ⟨2 ^ 64 + 1, 1⟩ = some ⟨9⟩ := by
    decide +kernel
  obtain ⟨c, hrun, hc⟩ := run_of_startRun hcheck
  obtain ⟨hseq, hview⟩ := of_decide_eq_true hc
  refine ⟨_, c, hrun, ?_, rfl, ?_, ?_⟩
  · intro hme
    cases hme
  · rw [hseq]
    exact hview
  · rintro ⟨senders, hnodup, hlen, hall⟩
    rw [ValidatorSet.twoThirdsMajority_eq] at hlen
    rw [hview] at hall
    have hsub : senders ⊆ [⟨9⟩] := by
      intro a ha
      obtain ⟨-, e, he, hfrom⟩ := hall a ha
      rcases hsenders e he with hnone | hsome
      · cases hnone.symm.trans hfrom
      · cases hsome.symm.trans hfrom
        exact List.mem_singleton_self _
    have hle := (List.subperm_of_subset hnodup hsub).length_le
    rw [List.length_singleton] at hle
    omega

end Nerthus.Bft
