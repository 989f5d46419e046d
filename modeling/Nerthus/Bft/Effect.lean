import Nerthus.Bft.Replica

/-!
# What one event does to a replica

`Effect` lists all that handling one event can do to the replica of a core, and
`handleEvent_effect` shows that the list is complete. That needs the invariant `Sound`: several
handlers dereference the stored proposal.
-/

namespace Nerthus.Bft

open ValidatorSet

structure WitenssVote.Seals (vote : WitenssVote) (signer : Address) (sub : Subject) : Prop where
  size : vote.extra.length = extraSealSize
  code : vote.extra.head? = some ConsensusType.msgCommit.byte
  round : getUint (vote.extra.drop 1) = uint64 sub.view.round
  sender : vote.sender sub.digest = some signer

structure Message.Prepares (m : Message) (sub : Subject) : Prop where
  code : m.code = .msgPrepare
  msg : m.msg = .subject sub
  sender : m.sender = some m.address

structure Message.Commits (m : Message) (sub : Subject) : Prop where
  code : m.code = .msgCommit
  msg : m.msg = .subject sub
  sender : m.sender = some m.address
  sealed : ∃ vote, m.committedSeal = some vote ∧ vote.Seals m.address sub

def RoundState.Holds (s : RoundState) (proposal : Proposal) : Prop :=
  ∃ preprepare mining, s.preprepare = some preprepare ∧ preprepare.proposal = some proposal ∧
    preprepare.mining = some mining ∧ mining.unit.hash = proposal.hash

theorem RoundState.Holds.proposal_eq {s : RoundState} {p : Proposal} (h : s.Holds p) :
    s.proposal = some p := by
  obtain ⟨preprepare, mining, hpre, hprop, -, -⟩ := h
  simp [RoundState.proposal, hpre, hprop]

theorem RoundState.Holds.subject_eq {s : RoundState} {p : Proposal} (h : s.Holds p) :
    s.subject = ⟨s.view, p.hash⟩ := by
  simp [RoundState.subject, h.proposal_eq]

structure Replica.Sound (r : Replica) : Prop where
  fresh : r.state = .acceptRequest →
    r.current.prepares.messages = [] ∧ r.current.commits.messages = []
  accepted : r.state ≠ .acceptRequest → ∃ p, r.current.Holds p
  unlocked : r.state = .preprepared → r.current.isHashLocked = false
  locked : r.state = .prepared ∨ r.state = .committed → r.current.isHashLocked = true
  lockHolds : r.current.isHashLocked = true →
    ∃ p, r.current.Holds p ∧ p.hash = r.current.lockedHash
  prepares : ∀ m ∈ r.current.prepares.messages, m.Prepares r.current.subject
  commits : ∀ m ∈ r.current.commits.messages, m.Commits r.current.subject
  running : r.panicked = false

namespace Replica

variable (r : Replica) (b : Backend)

structure Received (msg : Message) : Prop where
  sender : msg.sender = some msg.address
  validator : msg.address ∈ r.valSet.validators

def note (src : Address) (hash : Hash) : Replica :=
  { r with lockHashes := noteDiffHash r.address r.current r.lockHashes src hash }

def accept (proposal : Proposal) (mining : MiningResult) (state : State) : Replica :=
  { r with
    state := state
    current := { r.current with
      preprepare := some ⟨r.current.view, some proposal, some mining⟩ } }

def request (request : Request) : Replica :=
  { r with current := { r.current with pendingRequest := some request } }

def addPrepare (msg : Message) : Replica :=
  { r with current := { r.current with prepares := (r.current.prepares.add msg).1 } }

def addCommit (msg : Message) : Replica :=
  { r with current := { r.current with commits := (r.current.commits.add msg).1 } }

def addRoundChange (round : Nat) (msg : Message) : Replica :=
  { r with roundChangeSet := (r.roundChangeSet.add round msg).1 }

def prepare (proposal : Proposal) : Replica :=
  { r.lockHash b proposal with state := .prepared }.sendCommit b proposal

def install (list : List Address) : Replica :=
  { r with
    valSet := newDefaultSet r.config (b.tailHeader.number + 1) b.tailHeader.hash
      list r.chainAddress
    tail := b.tailHeader }

def refresh (list : List Address) : Replica :=
  { r.install b list with
    roundChangeSet := RoundChangeSet.newRoundChangeSet (r.install b list).valSet }

end Replica

open Replica

inductive Effect (b : Backend) (r : Replica) : Event → Replica → Prop where
  | idle (ev : Event) : Effect b r ev r
  | stopped (ev : Event) : Effect b r ev { r with chainAddress := Address.emptyAddress }
  | requested (request : Request)
      (hstate : r.state ≠ .acceptRequest) (hnum : r.current.sequence = request.proposal.unit.number) :
      Effect b r (.newProposal request) (r.request request)
  | proposed (request : Request)
      (hstate : r.state = .acceptRequest) (hnum : r.current.sequence = request.proposal.unit.number) :
      Effect b r (.newProposal request)
        ((r.request request).sendPreprepare b request.proposal.unit)
  | noted (msg : Message) (proposal : Proposal) (hrec : r.Received msg)
      (hcode : msg.code = .msgPreprepare)
      (hmsg : msg.msg = .preprepare r.current.view (some proposal))
      (hproposer : r.valSet.isProposer msg.address = true)
      (hstate : r.state = .acceptRequest) (hlock : r.current.isHashLocked = true)
      (hhash : proposal.hash ≠ r.current.lockedHash) :
      Effect b r (.newMessage msg) (r.note msg.address proposal.hash)
  | accepted (msg : Message) (proposal : Proposal) (mining : MiningResult)
      (hrec : r.Received msg) (hcode : msg.code = .msgPreprepare)
      (hmsg : msg.msg = .preprepare r.current.view (some proposal))
      (hproposer : r.valSet.isProposer msg.address = true)
      (hmining : mining.unit.hash = proposal.hash)
      (hstate : r.state = .acceptRequest) (hlock : r.current.isHashLocked = false) :
      Effect b r (.newMessage msg)
        (((r.note msg.address proposal.hash).accept proposal mining .preprepared).sendPrepare b)
  | reaccepted (msg : Message) (proposal : Proposal) (mining : MiningResult)
      (hrec : r.Received msg) (hcode : msg.code = .msgPreprepare)
      (hmsg : msg.msg = .preprepare r.current.view (some proposal))
      (hproposer : r.valSet.isProposer msg.address = true)
      (hmining : mining.unit.hash = proposal.hash)
      (hstate : r.state = .acceptRequest) (hlock : r.current.isHashLocked = true)
      (hhash : proposal.hash = r.current.lockedHash) :
      Effect b r (.newMessage msg)
        (((r.note msg.address proposal.hash).accept proposal mining .prepared).sendCommit b
          proposal)
  | prepareCounted (msg : Message) (hrec : r.Received msg)
      (hvote : msg.Prepares r.current.subject)
      (hstate : r.state = .preprepared ∨ r.state = .prepared) :
      Effect b r (.newMessage msg) (r.addPrepare msg)
  | prepareLocked (msg : Message) (proposal : Proposal) (hrec : r.Received msg)
      (hvote : msg.Prepares r.current.subject) (hstate : r.state = .preprepared)
      (hholds : r.current.Holds proposal)
      (hsize : 7 < (r.addPrepare msg).current.getPrepareOrCommitSize) :
      Effect b r (.newMessage msg) ((r.addPrepare msg).prepare b proposal)
  | commitCounted (msg : Message) (hrec : r.Received msg)
      (hvote : msg.Commits r.current.subject)
      (hstate : r.state = .preprepared ∨ r.state = .prepared) :
      Effect b r (.newMessage msg) (r.addCommit msg)
  | commitLocked (msg : Message) (proposal : Proposal) (hrec : r.Received msg)
      (hvote : msg.Commits r.current.subject) (hstate : r.state = .preprepared)
      (hholds : r.current.Holds proposal)
      (hsize : 7 < (r.addCommit msg).current.getPrepareOrCommitSize) :
      Effect b r (.newMessage msg) ((r.addCommit msg).prepare b proposal)
  | committed (msg : Message) (proposal : Proposal) (mining : MiningResult)
      (votes : List WitenssVote) (hrec : r.Received msg)
      (hvote : msg.Commits r.current.subject)
      (hstate : r.state = .preprepared ∨ r.state = .prepared)
      (hholds : r.current.Holds proposal) (hmining : mining.unit.hash = proposal.hash)
      (hsize : 7 < (r.addCommit msg).current.commits.size)
      (hvotes : ((r.addCommit msg).current.commits.values b).mapM Message.committedSeal =
        some votes) :
      Effect b r (.newMessage msg) (((r.addCommit msg).lockHash b proposal).commit mining votes)
  | roundChangeCounted (msg : Message) (rc : Subject) (hrec : r.Received msg)
      (hcode : msg.code = .msgRoundChange) (hmsg : msg.msg = .subject rc)
      (hseq : rc.view.sequence = r.current.sequence) :
      Effect b r (.newMessage msg) (r.addRoundChange rc.view.round msg)
  | roundChanged (msg : Message) (rc : Subject) (hrec : r.Received msg)
      (hcode : msg.code = .msgRoundChange) (hmsg : msg.msg = .subject rc)
      (hseq : rc.view.sequence = r.current.sequence)
      (hadd : (r.roundChangeSet.add rc.view.round msg).2.2 = none)
      (hnum : 7 < (r.roundChangeSet.add rc.view.round msg).2.1)
      (hround : r.current.round < rc.view.round) :
      Effect b r (.newMessage msg)
        ((r.addRoundChange rc.view.round msg).enterRound b rc.view.round)
  | sequenceStarted (number : Nat) (list : List Address) (hlist : b.witnesses = some list)
      (hme : r.address ∈ list) (hseq : r.current.sequence ≤ b.tailHeader.number) :
      Effect b r (.newNumber number) ((r.install b list).enterSequence b)
  | refreshed (rv : RoundView) (list : List Address) (hchain : r.chainAddress.empty = false)
      (hlist : b.witnesses = some list) (hme : r.address ∈ list) :
      Effect b r (.newChangeRound rv) (r.refresh b list)

variable {msg : Message} {current view : View} {proposal : Proposal}

theorem checkMessage_roundChange {state : State}
    (h : checkMessage current state .msgRoundChange view = none) :
    view.sequence = current.sequence ∧ current.round ≤ view.round := by
  unfold checkMessage at h
  rw [if_pos rfl] at h
  split at h
  · cases h
  split at h
  · cases h
  · rename_i hseq hold
    rw [View.cmp_lt_iff] at hold
    omega

theorem checkMessage_view {state : State} {code : ConsensusType} (hcode : code ≠ .msgRoundChange)
    (h : checkMessage current state code view = none) :
    view = current ∧ (state = .acceptRequest → code ≠ .msgPrepare ∧ code ≠ .msgCommit) ∧
      state ≠ .committed := by
  unfold checkMessage at h
  rw [if_neg hcode] at h
  split at h
  · cases h
  split at h
  · cases h
  split at h
  · cases h
  rename_i hgt hlt
  have hview : view = current := by
    rw [← View.cmp_eq_iff]
    cases hcmp : view.cmp current
    · exact absurd hcmp hlt
    · rfl
    · exact absurd hcmp hgt
  refine ⟨hview, ?_⟩
  split at h
  · rename_i hstate
    split at h
    · cases h
    · rename_i hvote
      exact ⟨fun _ => not_or.mp hvote, by rw [hstate]; decide⟩
  · split at h
    · cases h
    · rename_i hstate hcommitted
      exact ⟨fun h => absurd h hstate, hcommitted⟩

theorem checkMessage_vote {state : State} {code : ConsensusType}
    (hcode : code = .msgPrepare ∨ code = .msgCommit)
    (h : checkMessage current state code view = none) :
    view = current ∧ (state = .preprepared ∨ state = .prepared) := by
  have hne : code ≠ .msgRoundChange := by
    rcases hcode with rfl | rfl <;> decide
  obtain ⟨hview, hfresh, hcommitted⟩ := checkMessage_view hne h
  refine ⟨hview, ?_⟩
  cases state with
  | acceptRequest => exact absurd hcode (not_or.mpr (hfresh rfl))
  | preprepared => exact .inl rfl
  | prepared => exact .inr rfl
  | committed => exact absurd rfl hcommitted

theorem Payload.decodePreprepare_eq_some {p : Payload} {preprepare : Preprepare}
    (h : p.decodePreprepare = some preprepare) :
    p = .preprepare preprepare.view preprepare.proposal := by
  cases p with
  | preprepare view proposal => cases h; rfl
  | subject sub => cases h
  | malformed => cases h

theorem Payload.decodeSubject_eq_some {p : Payload} {sub : Subject}
    (h : p.decodeSubject = some sub) : p = .subject sub := by
  cases p with
  | preprepare view proposal => cases h
  | subject sub => cases h; rfl
  | malformed => cases h

/-- Only `finalizeMessage` marks a message as the node's own. -/
def Event.Own (me : Address) : Event → Prop
  | .newMessage msg => msg.isMe = true → msg.sender = some me
  | _ => True

namespace Core

variable {c : Core} {b : Backend}

theorem miningOf_ok {mining : MiningResult} (h : c.miningOf b proposal = .ok mining) :
    mining.unit.hash = proposal.hash := by
  have hverify : c.verifyProposal b proposal = .ok mining → mining.unit.hash = proposal.hash := by
    intro hv
    unfold verifyProposal at hv
    split at hv
    · cases hv
    dsimp only at hv
    split at hv
    · cases hv
    split at hv
    · cases hv
      rfl
    · cases hv
  unfold miningOf at h
  split at h
  · split at h
    · rename_i hhash
      cases h
      exact hhash.symm
    · exact hverify h
  · exact hverify h

theorem acceptPreprepare_replica (preprepare : Preprepare) :
    (c.acceptPreprepare b preprepare).replica =
      { c.replica with current := { c.replica.current with preprepare := some preprepare } } := by
  unfold acceptPreprepare
  rw [setTimeout_replica, stopTimer_replica]
  rfl

theorem preprepareVerified_effect {mining : MiningResult} (hrec : c.replica.Received msg)
    (hcode : msg.code = .msgPreprepare)
    (hmsg : msg.msg = .preprepare c.current.view (some proposal))
    (hproposer : c.valSet.isProposer msg.address = true)
    (hmining : mining.unit.hash = proposal.hash) : Effect b c.replica (.newMessage msg)
      (c.preprepareVerified b ⟨c.current.view, some proposal, some mining⟩ proposal.hash
        msg.address).replica := by
  unfold preprepareVerified
  split
  · rename_i hstate
    dsimp only
    split
    · rename_i hlock
      split
      · rename_i hhash
        have hprop : ((((c.noteDiffHash msg.address proposal.hash).acceptPreprepare b
            ⟨c.current.view, some proposal, some mining⟩).setState b
            .prepared).replica).current.proposal = some proposal := by
          rw [setState_replica, acceptPreprepare_replica]
          rfl
        rw [sendCommit_replica _ _ hprop, setState_replica, acceptPreprepare_replica]
        exact .reaccepted msg proposal mining hrec hcode hmsg hproposer hmining hstate hlock
          hhash
      · rename_i hhash
        rw [sendNextRoundChange_replica]
        exact .noted msg proposal hrec hcode hmsg hproposer hstate hlock hhash
    · rename_i hlock
      rw [sendPrepare_replica, setState_replica, acceptPreprepare_replica]
      exact .accepted msg proposal mining hrec hcode hmsg hproposer hmining hstate
        (Bool.eq_false_iff.mpr hlock)
  · exact .idle _

theorem handlePreprepare_effect (hrec : c.replica.Received msg) (hcode : msg.code = .msgPreprepare) :
    Effect b c.replica (.newMessage msg) (c.handlePreprepare b msg msg.address).1.replica := by
  unfold handlePreprepare
  split
  · exact .idle _
  rename_i preprepare hdecode
  split
  · exact .idle _
  rename_i hcheck
  split
  · exact .idle _
  rename_i hproposer
  split
  · rw [sendNextRoundChange_replica]
    exact .idle _
  rename_i proposal hprop
  split
  · split
    · rw [sendNextRoundChange_replica]
      exact .idle _
    · exact .idle _
  · rename_i mining hok
    obtain ⟨hview, -, -⟩ := checkMessage_view (by decide) hcheck
    have hview' : preprepare.view = c.current.view := hview
    have hmsg : msg.msg = .preprepare c.current.view (some proposal) := by
      rw [Payload.decodePreprepare_eq_some hdecode, hview', hprop]
    have hpre : { preprepare with mining := some mining } =
        (⟨c.current.view, some proposal, some mining⟩ : Preprepare) := by
      rw [← hview', ← hprop]
    rw [hpre]
    exact preprepareVerified_effect hrec hcode hmsg (by simpa using hproposer)
      (miningOf_ok hok)

/-! ## Votes -/

theorem prepare_replica (hholds : c.replica.current.Holds proposal) :
    (((c.lockHash b).setState b .prepared).sendCommit b).replica =
      c.replica.prepare b proposal := by
  obtain ⟨preprepare, mining, hpre, hprop, -, -⟩ := hholds
  have hlock := lockHash_replica c b hpre hprop
  have hstored : ((c.lockHash b).setState b .prepared).replica.current.proposal =
      some proposal := by
    rw [setState_replica, hlock]
    change (c.replica.current.preprepare.bind Preprepare.proposal) = some proposal
    rw [hpre, Option.bind_some, hprop]
  rw [sendCommit_replica _ _ hstored, setState_replica, hlock]
  rfl

theorem handlePrepare_effect (hs : c.replica.Sound) (hrec : c.replica.Received msg)
    (hcode : msg.code = .msgPrepare) :
    Effect b c.replica (.newMessage msg) (c.handlePrepare b msg).1.replica := by
  unfold handlePrepare
  split
  · exact .idle _
  rename_i prepare hdecode
  split
  · exact .idle _
  rename_i hcheck
  split
  · exact .idle _
  rename_i hverify
  split
  · exact .idle _
  rename_i prepares hadd
  obtain ⟨-, hstate⟩ := checkMessage_vote (.inl rfl) hcheck
  have hsub : prepare = c.current.subject := by
    unfold verifyPrepare at hverify
    split at hverify
    · rename_i hcmp
      exact Subject.cmp_iff.mp hcmp
    · cases hverify
  have hvote : msg.Prepares c.replica.current.subject :=
    ⟨hcode, hsub ▸ Payload.decodeSubject_eq_some hdecode, hrec.sender⟩
  have hprepares : prepares = (c.current.prepares.add msg).1 := by rw [hadd]
  subst hprepares
  dsimp only
  split
  · rename_i henough
    obtain ⟨henough, hlt⟩ := henough
    have hpre : c.state = .preprepared := by
      rcases hstate with h | h
      · exact h
      · rw [h] at hlt
        cases hlt
    have hunlocked : c.current.isHashLocked = false := hs.unlocked hpre
    obtain ⟨proposal, hholds⟩ := hs.accepted (by rw [show c.replica.state = _ from hpre]; decide)
    have hprepare := prepare_replica (b := b) (c := { c with current :=
      { c.current with prepares := (c.current.prepares.add msg).1 } }) hholds
    rw [hprepare]
    refine .prepareLocked msg proposal hrec hvote hpre hholds ?_
    have hlocked : RoundState.isHashLocked
        { c.current with prepares := (c.current.prepares.add msg).1 } = false := hunlocked
    simp only [enoughPrepares, hlocked, Bool.false_and, Bool.false_or,
      twoThirdsMajority_eq, decide_eq_true_eq] at henough
    exact henough
  · exact .prepareCounted msg hrec hvote hstate

theorem verifyCommit_ok {sender : Address} {vote : Option WitenssVote} {commit : Subject}
    (h : c.verifyCommit sender vote commit = none) :
    commit = c.current.subject ∧ ∃ v, vote = some v ∧ v.Seals sender commit := by
  unfold verifyCommit at h
  split at h
  · cases h
  rename_i v
  split at h
  · cases h
  rename_i hshape
  split at h
  · cases h
  rename_i hround
  split at h
  · cases h
  rename_i signer hsigner
  split at h
  · cases h
  rename_i heq
  split at h
  · rename_i hcmp
    obtain ⟨hsize, hbyte⟩ := not_or.mp hshape
    obtain rfl : signer = sender := not_not.mp heq
    exact ⟨(Subject.cmp_iff.mp hcmp).symm, v, rfl, not_not.mp hsize, not_not.mp hbyte,
      not_not.mp hround, hsigner⟩
  · cases h

theorem exists_committedSeals {msgs : List Message} {sub : Subject}
    (h : ∀ m ∈ msgs, m.Commits sub) : ∃ votes, msgs.mapM Message.committedSeal = some votes := by
  induction msgs with
  | nil => exact ⟨[], rfl⟩
  | cons m msgs ih =>
    obtain ⟨vote, hvote, -⟩ := (h m (.head _)).sealed
    obtain ⟨votes, hvotes⟩ := ih fun m' hm' => h m' (.tail _ hm')
    exact ⟨vote :: votes, by simp [List.mapM_cons, hvote, hvotes]⟩

end Core

theorem MessageSet.mem_add {ms : MessageSet} {m : Message} (h : m ∈ (ms.add msg).1.messages) :
    m = msg ∨ m ∈ ms.messages := by
  rcases ms.add_cases msg with ⟨-, hsame⟩ | ⟨-, -, -, hcons, -⟩
  · rw [hsame] at h
    exact .inr h
  · rw [hcons] at h
    exact List.mem_cons.mp h

namespace Core

variable {c : Core} {b : Backend}

theorem commitCounted_effect (hs : c.replica.Sound) (hrec : c.replica.Received msg)
    (hvote : msg.Commits c.replica.current.subject)
    (hstate : c.state = .preprepared ∨ c.state = .prepared) : Effect b c.replica (.newMessage msg)
      (commitCounted { c with current :=
        { c.current with commits := (c.current.commits.add msg).1 } } b).replica := by
  obtain ⟨proposal, hholds⟩ := hs.accepted (by
    change c.state ≠ .acceptRequest
    rcases hstate with h | h <;> rw [h] <;> decide)
  obtain ⟨preprepare, mining, hpre, hprop, hmining, hhash⟩ := id hholds
  unfold commitCounted
  split
  · rename_i henough
    have hlock := lockHash_replica { c with current :=
      { c.current with commits := (c.current.commits.add msg).1 } } b hpre hprop
    have hall : ∀ m ∈ (c.current.commits.add msg).1.values b, m.Commits c.replica.current.subject := by
      intro m hm
      have hm' := (b.walk_perm _).mem_iff.mp hm
      rcases MessageSet.mem_add hm' with rfl | hold
      · exact hvote
      · exact hs.commits m hold
    obtain ⟨votes, hvotes⟩ := exists_committedSeals hall
    have hsize := henough.1
    rw [twoThirdsMajority_eq] at hsize
    have hcommit := commit_replica (lockHash { c with current :=
      { c.current with commits := (c.current.commits.add msg).1 } } b) b
      (by rw [hlock]; exact hpre) hprop hmining (by rw [hlock]; exact hvotes)
    rw [hcommit, hlock]
    exact .committed msg proposal mining votes hrec hvote hstate hholds hhash hsize hvotes
  · split
    · rename_i henough
      have hprepare := prepare_replica (b := b) (c := { c with current :=
        { c.current with commits := (c.current.commits.add msg).1 } }) hholds
      have hsize := henough.2.1
      rw [twoThirdsMajority_eq] at hsize
      rw [hprepare]
      refine .commitLocked msg proposal hrec hvote ?_ hholds hsize
      rcases hstate with h | h
      · exact h
      have hlt := henough.1
      rw [h] at hlt
      cases hlt
    · exact .commitCounted msg hrec hvote hstate

theorem handleCommit_effect (hs : c.replica.Sound) (hrec : c.replica.Received msg)
    (hcode : msg.code = .msgCommit) :
    Effect b c.replica (.newMessage msg) (c.handleCommit b msg).1.replica := by
  unfold handleCommit
  split
  · exact .idle _
  rename_i commit hdecode
  split
  · exact .idle _
  rename_i hcheck
  split
  · exact .idle _
  rename_i sender hsender
  split
  · exact .idle _
  rename_i hverify
  obtain ⟨-, hstate⟩ := checkMessage_vote (.inr rfl) hcheck
  obtain ⟨hsub, vote, hseal, hseals⟩ := verifyCommit_ok hverify
  obtain rfl : msg.address = sender :=
    Option.some.inj (hrec.sender.symm.trans hsender)
  subst hsub
  exact commitCounted_effect hs hrec
    ⟨hcode, Payload.decodeSubject_eq_some hdecode, hrec.sender, vote, hseal, hseals⟩ hstate

theorem startNewRound_round_replica {round : Nat} (h : c.current.round < round) :
    (c.startNewRound b round).replica = c.replica.enterRound b round := by
  have hzero : round ≠ 0 := by omega
  unfold startNewRound newView
  rw [if_neg hzero, if_neg (by omega), if_neg hzero]
  exact enterView_round_replica c b round

theorem handleRoundChange_effect (hrec : c.replica.Received msg)
    (hcode : msg.code = .msgRoundChange) :
    Effect b c.replica (.newMessage msg) (c.handleRoundChange b msg msg.address).1.replica := by
  unfold handleRoundChange
  split
  · exact .idle _
  rename_i rc hdecode
  split
  · exact .idle _
  rename_i hcheck
  obtain ⟨hseq, -⟩ := checkMessage_roundChange hcheck
  have hmsg := Payload.decodeSubject_eq_some hdecode
  have hcounted : Effect b c.replica (.newMessage msg)
      (c.replica.addRoundChange rc.view.round msg) :=
    .roundChangeCounted msg rc hrec hcode hmsg hseq
  dsimp only
  split
  · exact hcounted
  rename_i hadd
  unfold roundChangeCounted
  split
  · rw [sendRoundChange_replica]
    exact hcounted
  split
  · rename_i henough
    have hnum := henough.1
    rw [twoThirdsMajority_eq] at hnum
    rw [startNewRound_round_replica henough.2]
    exact .roundChanged msg rc hrec hcode hmsg hseq hadd hnum henough.2
  · exact hcounted

theorem refreshValidtors_effect (last : Option Header)
    (hlast : last.getD b.tailHeader = b.tailHeader) : match c.refreshValidtors b last with
    | (c', none) => c.chainAddress.empty = false ∧ ∃ list, b.witnesses = some list ∧
        c.address ∈ list ∧ c'.replica = c.replica.install b list
    | (c', some _) => ∀ ev, Effect b c.replica ev c'.replica := by
  unfold refreshValidtors
  by_cases hchain : c.chainAddress.empty = true
  · rw [if_pos hchain]
    exact .idle
  rw [if_neg hchain]
  cases hvals : c.validators b last with
  | none => exact .idle
  | some vals =>
    dsimp only
    split_ifs with hsize hme
    · intro ev
      rw [stop_replica]
      exact .stopped ev
    · obtain ⟨list, hlist, hset⟩ := Option.map_eq_some_iff.mp hvals
      have hmem : c.address ∈ list := by
        rw [getByAddress_iff, ← hset] at hme
        exact (newDefaultSet_validators_perm _ _ _ _ _).mem_iff.mp hme
      refine ⟨Bool.eq_false_iff.mpr hchain, list, hlist, hmem, ?_⟩
      rw [hlast] at hset
      simp only [hlast, ← hset]
      rfl
    · exact .idle

theorem startNewRound_zero_effect (number : Nat) :
    Effect b c.replica (.newNumber number) (c.startNewRound b 0).replica := by
  unfold startNewRound
  rw [if_pos rfl]
  split
  · exact .idle _
  rename_i hseq
  have hrefresh := refreshValidtors_effect (c := c) (b := b) (some b.tailHeader) rfl
  split
  · rename_i heq
    rw [heq] at hrefresh
    exact hrefresh _
  · rename_i heq
    rw [heq] at hrefresh
    obtain ⟨-, list, hlist, hme, hinstall⟩ := hrefresh
    unfold newView
    rw [if_pos rfl, enterView_sequence_replica, hinstall]
    exact .sequenceStarted number list hlist hme (Nat.le_of_not_lt hseq)

theorem forceRefresh_effect (rv : RoundView) :
    Effect b c.replica (.newChangeRound rv) (c.forceRefresh b).replica := by
  have hrefresh := refreshValidtors_effect (c := c) (b := b) none rfl
  unfold forceRefresh
  split
  · rename_i c' heq
    rw [heq] at hrefresh
    obtain ⟨hchain, list, hlist, hme, hinstall⟩ := hrefresh
    have hset := congrArg (fun r : Replica =>
      { r with roundChangeSet := RoundChangeSet.newRoundChangeSet r.valSet }) hinstall
    rw [show Core.replica { c' with
      roundChangeSet := RoundChangeSet.newRoundChangeSet c'.valSet } = _ from hset]
    exact .refreshed rv list hchain hlist hme
  · rename_i heq
    rw [heq] at hrefresh
    exact hrefresh _

/-! ## Events -/

theorem handleByCode_effect (hs : c.replica.Sound) (hrec : c.replica.Received msg) :
    Effect b c.replica (.newMessage msg) (c.handleByCode b msg msg.address).1.replica := by
  unfold handleByCode
  split
  · rename_i hcode
    exact handlePreprepare_effect hrec hcode
  · rename_i hcode
    exact handlePrepare_effect hs hrec hcode
  · rename_i hcode
    exact handleCommit_effect hs hrec hcode
  · rename_i hcode
    exact handleRoundChange_effect hrec hcode
  · have hcheckTx : (c.handleCheckTx b msg).1.replica = c.replica := by
      unfold handleCheckTx
      split
      · rfl
      split
      · rfl
      · split
        · rfl
        · exact refreshChainStatus_replica c b
    rw [hcheckTx]
    exact .idle _
  · exact .idle _

theorem handleCheckedMsg_replica (msg : Message) (src : Address) :
    (c.handleCheckedMsg b msg src).replica = (c.handleByCode b msg src).1.replica := by
  unfold handleCheckedMsg
  split <;> (rename_i heq; rw [heq]) <;> rfl

theorem handleMsg_effect (hs : c.replica.Sound) (hown : Event.Own c.address (.newMessage msg)) :
    Effect b c.replica (.newMessage msg) (c.handleMsg b msg).replica := by
  unfold handleMsg
  split
  · rename_i hme
    split
    · rename_i hval
      obtain ⟨hsign, haddress⟩ := Message.sender_eq_some.mp (hown hme)
      rw [getByAddress_iff] at hval
      rw [handleCheckedMsg_replica, ← haddress]
      refine handleByCode_effect hs ⟨Message.sender_eq_some.mpr ⟨hsign, rfl⟩, ?_⟩
      rw [haddress]
      exact hval
    · exact .idle _
  · split
    · rename_i hverify
      unfold verifyMsg at hverify
      rw [Bool.and_eq_true, getByAddress_iff, Option.isSome_iff_exists] at hverify
      obtain ⟨⟨sender, hsender⟩, hval⟩ := hverify
      have hsign := (Message.sender_eq_some.mp hsender).1
      rw [handleCheckedMsg_replica]
      exact handleByCode_effect hs ⟨Message.sender_eq_some.mpr ⟨hsign, rfl⟩, hval⟩
    · rw [emit_replica_of_not_binding _ rfl]
      exact .idle _

theorem handleRequest_effect (request : Request) :
    Effect b c.replica (.newProposal request) (c.handleRequest b request).replica := by
  unfold handleRequest
  split
  · rename_i hnum
    dsimp only
    split
    · rename_i hstate
      rw [sendPreprepare_replica]
      exact .proposed request hstate hnum
    · rename_i hstate
      exact .requested request hstate hnum
  · exact .idle _

def forcesRefresh (c : Core) (rv : RoundView) : Prop :=
  ¬(rv.sequence < c.current.sequence ∨ rv.round < c.current.round ∨
      rv.deadLine < c.roundchangeResetTime) ∧
    c.waitingForRoundChange = true ∧ uint64 (c.waitingTimes + 1) % 11 ≠ 0 ∧
    uint64 (c.waitingTimes + 1) % 29 ≠ 0 ∧ uint64 (c.waitingTimes + 1) % 47 = 0

theorem remindPendingTx_replica {c' : Core} (h : c.remindPendingTx b = some c') :
    c'.replica = c.replica := by
  unfold remindPendingTx at h
  split at h
  · split at h
    · cases h
    · cases h
      exact sendCheckPendingTx_replica _ b
  · cases h
    rfl

theorem handleTimeout_replica (rv : RoundView) :
    (¬c.forcesRefresh rv → (c.handleTimeout b rv).replica = c.replica) ∧
      (c.forcesRefresh rv → (c.handleTimeout b rv).replica =
        (forceRefresh { c with waitingTimes := uint64 (c.waitingTimes + 1) } b).replica) := by
  unfold handleTimeout forcesRefresh
  split
  · rename_i hold
    exact ⟨fun _ => rfl, fun h => absurd hold h.1⟩
  rename_i hcurrent
  dsimp only
  split
  · rename_i heleven
    refine ⟨fun _ => ?_, fun h => absurd heleven.2 h.2.2.1⟩
    split
    · exact disabledChain_replica _ b
    rename_i c' hremind
    have hsame := remindPendingTx_replica hremind
    rw [sendNextRoundChange_replica]
    exact hsame
  · rename_i heleven
    split
    · rename_i htwentynine
      refine ⟨fun _ => ?_, fun h => absurd htwentynine.2 h.2.2.2.1⟩
      split
      · exact sendRoundChange_replica _ b _
      · exact sendNextRoundChange_replica _ b
    · rename_i htwentynine
      split
      · rename_i hforty
        rw [sendNextRoundChange_replica]
        refine ⟨fun h => absurd ?_ h, fun _ => rfl⟩
        exact ⟨hcurrent, hforty.1, fun h => heleven ⟨hforty.1, h⟩,
          fun h => htwentynine ⟨hforty.1, h⟩, hforty.2⟩
      · rename_i hforty
        exact ⟨fun _ => sendNextRoundChange_replica _ b,
          fun h => absurd ⟨h.2.1, h.2.2.2.2⟩ hforty⟩

theorem handleTimeout_effect (rv : RoundView) :
    Effect b c.replica (.newChangeRound rv) (c.handleTimeout b rv).replica := by
  obtain ⟨hidle, hforced⟩ := handleTimeout_replica (c := c) (b := b) rv
  by_cases hrefresh : c.forcesRefresh rv
  · rw [hforced hrefresh]
    exact forceRefresh_effect (c := { c with waitingTimes := uint64 (c.waitingTimes + 1) }) rv
  · rw [hidle hrefresh]
    exact .idle _

theorem handleEvent_effect {ev : Event} (hs : c.replica.Sound) (hown : ev.Own c.address) :
    Effect b c.replica ev (c.handleEvent b ev).replica := by
  cases ev with
  | newNumber number =>
    change Effect b c.replica _ (c.handleNewNumber b number).replica
    unfold handleNewNumber
    split
    · exact .idle _
    · rw [refreshChainStatus_replica]
      exact startNewRound_zero_effect number
  | newProposal request => exact handleRequest_effect request
  | newTx =>
    change Effect b c.replica _ (if c.activated then c else c.refreshChainStatus b).replica
    split
    · exact .idle _
    · rw [refreshChainStatus_replica]
      exact .idle _
  | newMessage msg => exact handleMsg_effect hs hown
  | newChangeRound rv => exact handleTimeout_effect rv

end Core

end Nerthus.Bft
