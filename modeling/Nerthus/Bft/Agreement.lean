import Nerthus.Bft.Certificates
import Nerthus.Bft.System
import Nerthus.Lib.Quorum

/-!
# Agreement

As long as no honest node drops a lock, it votes to commit at most one hash in a sequence. Two
commits of one sequence rest on eight votes each, so they share the vote of an honest validator.

`checkDeadLock` does drop locks. Three faulty validators can arrange for every honest node to see
what is needed, after one of them has committed.
-/

namespace Nerthus.Bft

open Replica List

def Core.deadLockIn (c : Core) (round : Nat) : Bool :=
  deadLock c.voteSum c.valSet.twoThirdsMajority round c.lockHashes c.current.lockedHash

/-- If the event takes a locked node to a later round, the test of `checkDeadLock` fails there. -/
def HoldsLock (c : Core) (b : Backend) (ev : Event) : Prop :=
  c.current.isHashLocked = true →
    (c.handleEvent b ev).current.sequence = c.current.sequence →
    c.current.round < (c.handleEvent b ev).current.round →
    c.deadLockIn (c.handleEvent b ev).current.round = false
deriving Decidable

theorem RoundState.isHashLocked_congr {s s' : RoundState} (h : s'.lockedHash = s.lockedHash) :
    s'.isHashLocked = s.isHashLocked := by
  unfold isHashLocked
  rw [h]

theorem RoundState.Holds.unique {s : RoundState} {p p' : Proposal} (h : s.Holds p)
    (h' : s.Holds p') : p = p' :=
  Option.some.inj (h.proposal_eq.symm.trans h'.proposal_eq)

inductive LockChange (r r' : Replica) : Prop where
  | newSequence (hseq : r.current.sequence < r'.current.sequence)
      (hlock : r'.current.isHashLocked = false)
  | kept (hseq : r'.current.sequence = r.current.sequence)
      (hhash : r'.current.lockedHash = r.current.lockedHash)
  | taken (polc : PolcRound) (hseq : r'.current.sequence = r.current.sequence)
      (hpolc : r'.current.polcRound = some polc)
      (hhash : r.current.isHashLocked = true → r.current.lockedHash = polc.lockedHash)
  | dropped (hseq : r'.current.sequence = r.current.sequence)
      (hround : r.current.round < r'.current.round)
      (hdead : r.current.isHashLocked = true → deadLock r.voteSum r.valSet.twoThirdsMajority
        r'.current.round r.lockHashes r.current.lockedHash = true)
      (hlock : r'.current.isHashLocked = false)

variable {r r' : Replica} {b : Backend} {ev : Event} {a : Address}

theorem Replica.polc_lockedHash {s : Replica} (hs : r.Sound) {p : Proposal}
    (hholds : r.current.Holds p) (hlock : r.current.isHashLocked = true) :
    r.current.lockedHash = (s.polc b p).lockedHash := by
  obtain ⟨q, hq, hhash⟩ := hs.lockHolds hlock
  rw [← hhash, hq.unique hholds]
  rfl

theorem Replica.prepare_change {s : Replica} (hs : r.Sound) (hcounts : Counts r ev s) {p : Proposal}
    (hholds : r.current.Holds p) : LockChange r (s.prepare b p) := by
  refine .taken (s.polc b p) ?_ ?_ (polc_lockedHash hs hholds)
  · rw [prepare, sendCommit_eq]
    exact congrArg View.sequence hcounts.frame.2.2.1
  · rw [prepare, sendCommit_eq]
    rfl

theorem Replica.nextRound_lockedHash (r : Replica) (round : Nat) :
    (r.nextRound round).lockedHash = r.current.lockedHash := by
  rcases nextRound_cases (r := r) round with ⟨-, -, hhash, -⟩ | ⟨hlock, hlock', -⟩
  · exact hhash
  have hzero : ∀ s : RoundState, s.isHashLocked = false → s.lockedHash = Hash.zero := by
    intro s hs
    unfold RoundState.isHashLocked at hs
    simpa using hs
  rw [hzero _ hlock, hzero _ hlock']

theorem Effect.lockChange (h : Effect b r ev r') (hs : r.Sound) : LockChange r r' := by
  cases h with
  | proposed => rw [sendPreprepare_eq]; exact .kept rfl rfl
  | accepted => rw [sendPrepare_eq]; exact .kept rfl rfl
  | reaccepted => rw [sendCommit_eq]; exact .kept rfl rfl
  | prepareLocked msg p hrec hvote hstate hholds =>
    exact prepare_change hs (.prepare msg hrec hvote) hholds
  | commitLocked msg p hrec hvote hstate hholds =>
    exact prepare_change hs (.commit msg hrec hvote) hholds
  | committed msg p mining votes hrec hvote hstate hholds =>
    exact .taken _ rfl rfl (polc_lockedHash hs hholds)
  | roundChanged msg rc hrec hcode hmsg hseq hadd hnum hround =>
    have hs' := hs.addRoundChange rc.view.round msg
    have hview : (r.nextRound rc.view.round).view = ⟨rc.view.round, r.current.sequence⟩ :=
      nextRound_view _
    have hround' : (r.nextRound rc.view.round).round = rc.view.round :=
      congrArg View.round hview
    have hseq' : (r.nextRound rc.view.round).sequence = r.current.sequence :=
      congrArg View.sequence hview
    obtain ⟨outs, -, ⟨-, h⟩ | ⟨hdead, h⟩⟩ := hs'.enterRound_cases (b := b) rc.view.round
    · rw [h]
      exact .kept hseq' (r.nextRound_lockedHash rc.view.round)
    · rw [h]
      refine .dropped hseq' ?_ (fun _ => ?_) rfl
      · change r.current.round < (r.nextRound rc.view.round).round
        rw [hround']
        exact hround
      · change deadLock _ _ (r.nextRound rc.view.round).round _ _ = true
        rw [hround', ← r.nextRound_lockedHash rc.view.round]
        exact hdead
  | sequenceStarted number list hlist hme hseq => exact .newSequence (Nat.lt_succ_of_le hseq) rfl
  | _ => exact .kept rfl rfl

def Replica.VotedFor (r : Replica) (sub : Subject) : Prop :=
  ∃ m, .broadcast m ∈ r.acts ∧ m.code = .msgCommit ∧ m.msg = .subject sub

/-- In each sequence a node has voted to commit one hash at most, in the current one the locked
one. -/
structure LockHistory (r : Replica) : Prop where
  held : ∀ sub, r.VotedFor sub → sub.view.sequence < r.current.sequence ∨
    sub.view.sequence = r.current.sequence ∧ r.current.isHashLocked = true ∧
      sub.digest = r.current.lockedHash
  unique : ∀ sub sub', r.VotedFor sub → r.VotedFor sub' →
    sub.view.sequence = sub'.view.sequence → sub.digest = sub'.digest

theorem LockHistory.of_nil (hacts : r.acts = []) : LockHistory r := by
  have hnone : ∀ sub, ¬r.VotedFor sub := by
    rintro sub ⟨m, hm, -⟩
    rw [hacts] at hm
    cases hm
  exact ⟨fun sub h => absurd h (hnone sub), fun sub sub' h => absurd h (hnone sub)⟩

theorem RoundState.locked_of_polcRound {s : RoundState} {polc : PolcRound}
    (h : s.polcRound = some polc) (hne : polc.lockedHash ≠ Hash.zero) :
    s.isHashLocked = true ∧ polc.lockedHash = s.lockedHash := by
  refine ⟨isHashLocked_iff.mpr ⟨polc, h, hne⟩, ?_⟩
  unfold lockedHash
  rw [h]

theorem LockChange.sequence_le (h : LockChange r r') :
    r.current.sequence ≤ r'.current.sequence := by
  cases h with
  | newSequence hseq => exact Nat.le_of_lt hseq
  | kept hseq => exact Nat.le_of_eq hseq.symm
  | taken polc hseq => exact Nat.le_of_eq hseq.symm
  | dropped hseq => exact Nat.le_of_eq hseq.symm

theorem LockChange.locked (h : LockChange r r')
    (hhold : r.current.isHashLocked = true → r'.current.sequence = r.current.sequence →
      r.current.round < r'.current.round → deadLock r.voteSum r.valSet.twoThirdsMajority
        r'.current.round r.lockHashes r.current.lockedHash = false)
    (hlock : r.current.isHashLocked = true) : r.current.sequence < r'.current.sequence ∨
      r'.current.sequence = r.current.sequence ∧ r'.current.isHashLocked = true ∧
        r'.current.lockedHash = r.current.lockedHash := by
  cases h with
  | newSequence hseq => exact .inl hseq
  | kept hseq hhash =>
    exact .inr ⟨hseq, (RoundState.isHashLocked_congr hhash).trans hlock, hhash⟩
  | taken polc hseq hpolc hhash =>
    have hne : polc.lockedHash ≠ Hash.zero := by
      rw [← hhash hlock]
      simpa [RoundState.isHashLocked] using hlock
    obtain ⟨hlock', hhash'⟩ := RoundState.locked_of_polcRound hpolc hne
    exact .inr ⟨hseq, hlock', hhash'.symm.trans (hhash hlock).symm⟩
  | dropped hseq hround hdead => cases (hhold hlock hseq hround).symm.trans (hdead hlock)

theorem LockHistory.step (h : LockHistory r) (hs : r.Sound) (heff : Effect b r ev r')
    (hhold : r.current.isHashLocked = true → r'.current.sequence = r.current.sequence →
      r.current.round < r'.current.round → deadLock r.voteSum r.valSet.twoThirdsMajority
        r'.current.round r.lockHashes r.current.lockedHash = false) : LockHistory r' := by
  obtain ⟨outs, hacts, houts⟩ := heff.acts hs
  have hchange := heff.lockChange hs
  have hnew : ∀ {sub}, r'.VotedFor sub → r.VotedFor sub ∨
      sub.view.sequence = r'.current.sequence ∧ r'.current.isHashLocked = true ∧
        sub.digest = r'.current.lockedHash := by
    rintro sub ⟨m, hm, hcode, hmsg⟩
    rw [hacts] at hm
    rcases mem_append.mp hm with hm | hm
    · cases houts _ hm with
      | commit p hstate hlock hstate' hview hholds hlock' =>
        cases hmsg
        refine .inr ⟨rfl, ?_, ?_⟩
        · have hne := p.hash_ne_zero
          rw [← hlock'] at hne
          simpa [RoundState.isHashLocked] using hne
        · rw [hlock', hholds.subject_eq]
      | _ => cases hcode
    · exact .inl ⟨m, hm, hcode, hmsg⟩
  have hheld : ∀ sub, r'.VotedFor sub → sub.view.sequence < r'.current.sequence ∨
      sub.view.sequence = r'.current.sequence ∧ r'.current.isHashLocked = true ∧
        sub.digest = r'.current.lockedHash := by
    intro sub hsub
    rcases hnew hsub with hold | hnow
    · rcases h.held sub hold with hlt | ⟨hseq, hlock, hhash⟩
      · exact .inl (Nat.lt_of_lt_of_le hlt hchange.sequence_le)
      rcases hchange.locked hhold hlock with hlt | ⟨hseq', hlock', hhash'⟩
      · exact .inl (hseq ▸ hlt)
      · exact .inr ⟨hseq.trans hseq'.symm, hlock', hhash.trans hhash'.symm⟩
    · exact .inr hnow
  -- a vote of an earlier sequence is not new
  have hearlier : ∀ {sub}, r'.VotedFor sub → sub.view.sequence < r'.current.sequence →
      r.VotedFor sub := fun hsub hlt =>
    (hnew hsub).resolve_right fun hnow => Nat.ne_of_lt hlt hnow.1
  refine ⟨hheld, fun sub sub' hsub hsub' hseq => ?_⟩
  rcases hheld sub hsub with hlt | ⟨hnow, -, hhash⟩
  · exact h.unique sub sub' (hearlier hsub hlt) (hearlier hsub' (hseq ▸ hlt)) hseq
  · rcases hheld sub' hsub' with hlt' | ⟨-, -, hhash'⟩
    · omega
    · exact hhash.trans hhash'.symm

/-! ## Commits and the votes behind them -/

theorem Counts.mem_commits {s : Replica} (h : Counts r ev s) {m : Message}
    (hm : m ∈ s.current.commits.messages) : m ∈ r.current.commits.messages ∨
      ev = .newMessage m ∧ r.Received m ∧ m.Commits r.current.subject := by
  cases h with
  | prepare msg hrec hvote => exact .inl hm
  | commit msg hrec hvote =>
    rcases MessageSet.mem_add hm with rfl | hm
    · exact .inr ⟨rfl, hrec, hvote⟩
    · exact .inl hm

theorem Effect.mem_commits (h : Effect b r ev r') (hs : r.Sound) {m : Message}
    (hm : m ∈ r'.current.commits.messages) : m ∈ r.current.commits.messages ∨
      ev = .newMessage m ∧ r.Received m ∧ m.Commits r.current.subject := by
  cases h with
  | proposed => rw [sendPreprepare_eq] at hm; exact .inl hm
  | accepted => rw [sendPrepare_eq] at hm; exact .inl hm
  | reaccepted => rw [sendCommit_eq] at hm; exact .inl hm
  | prepareLocked msg p hrec hvote =>
    rw [prepare, sendCommit_eq] at hm
    exact (Counts.prepare msg hrec hvote).mem_commits hm
  | commitCounted msg hrec hvote => exact (Counts.commit msg hrec hvote).mem_commits hm
  | commitLocked msg p hrec hvote =>
    rw [prepare, sendCommit_eq] at hm
    exact (Counts.commit msg hrec hvote).mem_commits hm
  | committed msg p mining votes hrec hvote => exact (Counts.commit msg hrec hvote).mem_commits hm
  | roundChanged msg rc =>
    have hs' := hs.addRoundChange rc.view.round msg
    rw [((hs'.enterRound (b := b) rc.view.round).fresh
      (hs'.enterRound_state rc.view.round)).2] at hm
    cases hm
  | sequenceStarted => cases hm
  | _ => exact .inl hm

theorem Effect.mem_validators (h : Effect b r ev r') (hs : r.Sound) (ha : a ∈ r'.valSet.validators) :
    a ∈ r.valSet.validators ∨ ∃ list, b.witnesses = some list ∧ a ∈ list := by
  have hread : ∀ {list}, b.witnesses = some list → a ∈ (r.install b list).valSet.validators →
      ∃ list, b.witnesses = some list ∧ a ∈ list := by
    intro list hlist ha
    exact ⟨list, hlist, (ValidatorSet.newDefaultSet_validators_perm _ _ _ _ _).mem_iff.mp ha⟩
  cases h with
  | proposed => rw [sendPreprepare_eq] at ha; exact .inl ha
  | accepted => rw [sendPrepare_eq] at ha; exact .inl ha
  | reaccepted => rw [sendCommit_eq] at ha; exact .inl ha
  | prepareLocked => rw [prepare, sendCommit_eq] at ha; exact .inl ha
  | commitLocked => rw [prepare, sendCommit_eq] at ha; exact .inl ha
  | roundChanged msg rc =>
    rw [((hs.addRoundChange _ msg).enterRound_frame (b := b) rc.view.round).2.1] at ha
    exact .inl ha
  | sequenceStarted number list hlist => exact .inr (hread hlist ha)
  | refreshed rv list hchain hlist => exact .inr (hread hlist ha)
  | _ => exact .inl ha

structure Backed (S : Setting) (nodes : List Core) (m : Message) : Prop where
  member : m.address ∈ S.validators
  said : S.Honest m.address → ∃ c ∈ nodes, c.address = m.address ∧
    .broadcast { m with isMe := true } ∈ c.acts

def Decided (S : Setting) (nodes : List Core) (sub : Subject) : Prop :=
  ∃ msgs : List Message, 7 < msgs.length ∧ (msgs.map Message.address).Nodup ∧
    ∀ m ∈ msgs, m.Commits sub ∧ Backed S nodes m

/-- Of one node: its locks, its validators, and where the commit votes it has counted come from. -/
structure NodeInvariant (S : Setting) (nodes : List Core) (c : Core) : Prop where
  history : LockHistory c.replica
  members : ∀ a ∈ c.valSet.validators, a ∈ S.validators
  commits : ∀ m ∈ c.current.commits.messages, Backed S nodes m
  decided : ∀ view mining votes, .commit view mining votes ∈ c.acts →
    Decided S nodes ⟨view, mining.unit.hash⟩

variable {S : Setting} {nodes : List Core}

theorem Nodes.acts_stepAt (h : Nodes S nodes) (hown : ev.Own a) {c : Core} (hc : c ∈ nodes) :
    ∃ c' ∈ stepAt nodes a b ev, c'.address = c.address ∧ c.acts ⊆ c'.acts := by
  by_cases heq : c.address = a
  · subst heq
    refine ⟨_, handleEvent_mem_stepAt hc b ev, h.address_eq hc b hown, ?_⟩
    obtain ⟨evs, hrun⟩ := h.run c hc
    obtain ⟨outs, hacts, -⟩ := (hrun.effect b hown).acts hrun.sound
    change c.replica.acts ⊆ (c.handleEvent b ev).replica.acts
    rw [hacts]
    exact subset_append_right _ _
  · exact ⟨c, stepAt_mem_of_ne hc heq b ev, rfl, fun _ h => h⟩

theorem Backed.step {m : Message} (hm : Backed S nodes m) (h : Nodes S nodes) (hown : ev.Own a) :
    Backed S (stepAt nodes a b ev) m := by
  refine ⟨hm.member, fun hhonest => ?_⟩
  obtain ⟨c, hc, haddress, hact⟩ := hm.said hhonest
  obtain ⟨c', hc', haddress', hacts⟩ := h.acts_stepAt (b := b) hown hc
  exact ⟨c', hc', haddress'.trans haddress, hacts hact⟩

theorem Decided.step {sub : Subject} (hsub : Decided S nodes sub) (h : Nodes S nodes)
    (hown : ev.Own a) : Decided S (stepAt nodes a b ev) sub := by
  obtain ⟨msgs, hlen, hnodup, hmsgs⟩ := hsub
  exact ⟨msgs, hlen, hnodup, fun m hm => ⟨(hmsgs m hm).1, (hmsgs m hm).2.step h hown⟩⟩

theorem Backed.of_authentic {m : Message} {sub : Subject} (hmember : m.address ∈ S.validators)
    (hvote : m.Commits sub) (hauth : Authentic S nodes (.newMessage m)) : Backed S nodes m := by
  refine ⟨hmember, fun hhonest => ?_⟩
  have hsign := (Message.sender_eq_some.mp hvote.sender).1
  obtain ⟨c, hc, haddress, hlog⟩ := (authentic_newMessage hsign).mp hauth hhonest
  refine ⟨c, hc, haddress, mem_filter.mpr ⟨hlog, ?_⟩⟩
  simp [Output.binding, Message.binding, hvote.code]

theorem NodeInvariant.handleEvent {c : Core} (hinv : NodeInvariant S nodes c) (h : Nodes S nodes)
    (hc : c ∈ nodes) (hserves : S.Serves b) (hown : ev.Own c.address) (hauth : Authentic S nodes ev)
    (hhold : HoldsLock c b ev) : NodeInvariant S nodes (c.handleEvent b ev) := by
  obtain ⟨evs, hrun⟩ := h.run c hc
  have hs := hrun.sound
  have heff := hrun.effect b hown
  have hreceived : ∀ m, m ∈ c.current.commits.messages ∨
      ev = .newMessage m ∧ c.replica.Received m ∧ m.Commits c.current.subject →
      Backed S nodes m := by
    rintro m (hm | ⟨rfl, hrec, hvote⟩)
    · exact hinv.commits m hm
    · exact .of_authentic (hinv.members _ hrec.validator) hvote hauth
  refine ⟨hinv.history.step hs heff hhold, fun a ha => ?_,
    fun m hm => hreceived m (heff.mem_commits hs hm), fun view mining votes hcommit => ?_⟩
  · rcases heff.mem_validators hs ha with ha | ⟨list, hlist, ha⟩
    · exact hinv.members a ha
    rcases hserves.1 with hnone | hsome
    · cases hnone.symm.trans hlist
    · cases hsome.symm.trans hlist
      exact ha
  · obtain ⟨outs, hacts, houts⟩ := heff.acts hs
    change _ ∈ (c.handleEvent b ev).replica.acts at hcommit
    rw [hacts] at hcommit
    rcases mem_append.mp hcommit with hnew | hold
    · cases houts _ hnew with
      | decide s p _ _ hcounts hholds hmining hstate hsize =>
        refine ⟨s.current.commits.messages, hsize, s.current.commits.nodup, fun m hm => ⟨?_, ?_⟩⟩
        · have hvote := (hcounts.sound hs hstate).commits m hm
          rw [hcounts.subject, hholds.subject_eq, ← hmining] at hvote
          exact hvote
        · exact hreceived m (hcounts.mem_commits hm)
    · exact hinv.decided view mining votes hold

theorem NodeInvariant.stepAt {c : Core} (hinv : NodeInvariant S nodes c) (h : Nodes S nodes)
    (hown : ev.Own a) : NodeInvariant S (Bft.stepAt nodes a b ev) c :=
  ⟨hinv.history, hinv.members, fun m hm => (hinv.commits m hm).step h hown,
    fun view mining votes hcommit => (hinv.decided view mining votes hcommit).step h hown⟩

theorem NodeInvariant.start {c : Core} {chain : Address} {config : Config} (hserves : S.Serves b)
    (hstart : Core.start config a chain b = some c) : NodeInvariant S nodes c := by
  obtain ⟨list, hlist, -, hc⟩ := Core.start_replica hstart
  have hacts : c.acts = [] := congrArg acts hc
  have hlist' : list = S.validators := by
    rcases hserves.1 with hnone | hsome
    · cases hnone.symm.trans hlist
    · exact Option.some.inj (hlist.symm.trans hsome)
  refine ⟨.of_nil hacts, fun m hm => ?_, fun m hm => ?_, fun view mining votes hm => ?_⟩
  · change m ∈ c.replica.valSet.validators at hm
    rw [hc] at hm
    rw [← hlist']
    have hperm := ValidatorSet.newDefaultSet_validators_perm config (b.tailHeader.number + 1)
      b.tailHeader.hash list chain
    exact hperm.mem_iff.mp hm
  · change m ∈ c.replica.current.commits.messages at hm
    rw [hc] at hm
    cases hm
  · rw [hacts] at hm
    cases hm

theorem Reach.nodeInvariant (h : Reach S HoldsLock nodes) :
    ∀ c ∈ nodes, NodeInvariant S nodes c := by
  induction h with
  | start hnodup hstart =>
    intro c hc
    obtain ⟨-, b, hserves, hc⟩ := hstart c hc
    exact .start hserves hc
  | step h hc hserves hown hauth hhold ih =>
    intro c' hc'
    have hnodes := h.all_run
    obtain ⟨d, hd, ⟨haddress, rfl⟩ | ⟨-, rfl⟩⟩ := mem_stepAt hc'
    · cases hnodes.eq_of_address hd hc haddress
      exact ((ih _ hd).handleEvent hnodes hd hserves hown hauth hhold).stepAt hnodes hown
    · exact (ih _ hd).stepAt hnodes hown

def Core.Committed (c : Core) (sequence : Nat) (hash : Hash) : Prop :=
  ∃ view mining votes, .commit view mining votes ∈ c.log ∧ view.sequence = sequence ∧
    mining.unit.hash = hash

def Agreement (nodes : List Core) : Prop :=
  ∀ c ∈ nodes, ∀ c' ∈ nodes, ∀ sequence hash hash',
    c.Committed sequence hash → c'.Committed sequence hash' → hash = hash'

/-- The honest nodes agree, as long as no event makes `checkDeadLock` drop a lock. -/
theorem reach_agreement (h : Reach S HoldsLock nodes) : Agreement nodes := by
  rintro c hc c' hc' sequence hash hash' ⟨view, mining, votes, hcommit, rfl, rfl⟩
    ⟨view', mining', votes', hcommit', hseq, rfl⟩
  have hnodes := h.all_run
  have hinv := h.nodeInvariant
  obtain ⟨msgs, hlen, hnodup, hmsgs⟩ :=
    (hinv c hc).decided view mining votes (mem_filter.mpr ⟨hcommit, rfl⟩)
  obtain ⟨msgs', hlen', hnodup', hmsgs'⟩ :=
    (hinv c' hc').decided view' mining' votes' (mem_filter.mpr ⟨hcommit', rfl⟩)
  have hmember : ∀ {msgs : List Message} {sub},
      (∀ m ∈ msgs, m.Commits sub ∧ Backed S nodes m) → msgs.map Message.address ⊆ S.validators := by
    intro msgs sub hmsgs a ha
    obtain ⟨m, hm, rfl⟩ := mem_map.mp ha
    exact (hmsgs m hm).2.member
  -- eight and eight votes of eleven validators, three of them faulty
  have hcard : S.validators.length + S.faulty.length <
      (msgs.map Message.address).length + (msgs'.map Message.address).length := by
    have hvalidators := S.validators_length
    have hfaulty := S.faulty_length
    rw [length_map, length_map]
    omega
  obtain ⟨a, ha, ha', hcorrect⟩ := Lib.exists_common_of_nodup (hmember hmsgs)
    (hmember hmsgs') hnodup hnodup' hcard
  obtain ⟨m, hm, rfl⟩ := mem_map.mp ha
  obtain ⟨m', hm', haddress⟩ := mem_map.mp ha'
  have hhonest : S.Honest m.address := ⟨(hmsgs m hm).2.member, hcorrect⟩
  obtain ⟨d, hd, hdm, hsaid⟩ := (hmsgs m hm).2.said hhonest
  obtain ⟨d', hd', hdm', hsaid'⟩ := (hmsgs' m' hm').2.said (haddress ▸ hhonest)
  cases hnodes.eq_of_address hd hd' (hdm.trans (haddress.symm.trans hdm'.symm))
  have hvote := (hmsgs m hm).1
  have hvote' := (hmsgs' m' hm').1
  exact (hinv d hd).history.unique _ _ ⟨_, hsaid, hvote.code, hvote.msg⟩
    ⟨_, hsaid', hvote'.code, hvote'.msg⟩ hseq.symm

/-! ## A run that drops a lock -/

def Output.commitOf (sequence : Nat) (hash : Hash) : Output → Bool
  | .commit view mining _ => view.sequence = sequence ∧ mining.unit.hash = hash
  | _ => false

theorem Core.committed_of_any {c : Core} {sequence : Nat} {hash : Hash}
    (h : c.log.any (Output.commitOf sequence hash) = true) : c.Committed sequence hash := by
  obtain ⟨o, ho, hof⟩ := any_eq_true.mp h
  cases o with
  | commit view mining votes =>
    obtain ⟨hseq, hhash⟩ := of_decide_eq_true hof
    exact ⟨view, mining, votes, ho, hseq, hhash⟩
  | _ => cases hof

def eightValidators : Setting where
  config := defaultConfig
  chain := ⟨100⟩
  validators := witnessGroup 8
  faulty := [⟨6⟩, ⟨7⟩, ⟨8⟩]
  headers := fun _ => sampleTail
  validators_length := by decide
  faulty_length := by decide

def rivalUnit (n : Nat) : Proposal :=
  ⟨1, ⟨8 + n⟩, ⟨100⟩, ⟨8⟩, by simp [Hash.zero]⟩

namespace LockDrop

def deliver (dst : Address) (m : Message) : Address × Event :=
  (dst, .newMessage { m with isMe := m.address == dst })

def deliverAll (m : Message) : List (Address × Event) := (witnessGroup 5).map fun a => deliver a m

def propose (round : Nat) (proposer : Address) (unit : Proposal) : List (Address × Event) :=
  deliverAll (finalizeMessage proposer 0 .msgPreprepare (.preprepare ⟨round, 1⟩ (some unit)) none)

def prepare (round : Nat) (unit : Proposal) : List (Address × Event) :=
  (witnessGroup 8).flatMap fun a =>
    deliverAll (finalizeMessage a 0 .msgPrepare (.subject ⟨⟨round, 1⟩, unit.hash⟩) none)

def commit (dst : Address) (round : Nat) (unit : Proposal) : List (Address × Event) :=
  (witnessGroup 8).map fun a => deliver dst (finalizeMessage a 0 .msgCommit
    (.subject ⟨⟨round, 1⟩, unit.hash⟩) (some (commitSeal a round unit.hash)))

def enter (round : Nat) : List (Address × Event) :=
  (eightValidators.faulty ++ witnessGroup 5).flatMap fun a =>
    deliverAll (finalizeMessage a 0 .msgRoundChange (.subject ⟨⟨round, 1⟩, Hash.zero⟩) none)

def locked : List (Address × Event) :=
  (⟨1⟩, .newProposal ⟨⟨sampleUnit⟩⟩) :: propose 0 ⟨1⟩ sampleUnit ++ prepare 0 sampleUnit

/-- Node 1 commits. Then the faulty validators propose other units, the honest nodes repeat the one
they have locked, and at last accept another. -/
def run : List (Address × Event) :=
  locked ++ commit ⟨1⟩ 0 sampleUnit ++
    enter 5 ++ propose 5 ⟨6⟩ (rivalUnit 1) ++
    enter 6 ++ propose 6 ⟨7⟩ (rivalUnit 2) ++
    enter 7 ++ propose 7 ⟨8⟩ (rivalUnit 3) ++
    ([8, 9, 10, 11, 12].flatMap fun round => enter round ++ propose round ⟨round - 7⟩ sampleUnit) ++
    enter 22 ++ propose 22 ⟨7⟩ (rivalUnit 4) ++ prepare 22 (rivalUnit 4) ++ commit ⟨2⟩ 22 (rivalUnit 4)

end LockDrop

/-- A run in which node 1 and node 2 commit the same unit and no lock is dropped. -/
theorem agreement_two_commits : ∃ nodes, Reach eightValidators HoldsLock nodes ∧
    (∃ c ∈ nodes, ∃ c' ∈ nodes, c.address = ⟨1⟩ ∧ c'.address = ⟨2⟩ ∧
      c.Committed 1 sampleUnit.hash ∧ c'.Committed 1 sampleUnit.hash) ∧ Agreement nodes := by
  let b := quietBackend (witnessGroup 8) sampleTail
  have hserves : eightValidators.Serves b := by decide
  have hcheck : (execute eightValidators HoldsLock b
      (startNodes eightValidators b (witnessGroup 8)) (LockDrop.locked ++
        LockDrop.commit ⟨1⟩ 0 sampleUnit ++ LockDrop.commit ⟨2⟩ 0 sampleUnit)).any (fun nodes =>
      (∃ c ∈ nodes, c.address = ⟨1⟩ ∧ c.log.any (Output.commitOf 1 sampleUnit.hash)) ∧
        ∃ c ∈ nodes, c.address = ⟨2⟩ ∧ c.log.any (Output.commitOf 1 sampleUnit.hash)) = true := by
    decide +kernel
  obtain ⟨nodes, hexec, hnodes⟩ := (Option.any_eq_true _ _).mp hcheck
  obtain ⟨⟨c, hc, ha, hcommit⟩, c', hc', ha', hcommit'⟩ := of_decide_eq_true hnodes
  have hreach : Reach eightValidators HoldsLock nodes :=
    (Reach.startNodes hserves (by decide)).execute hserves hexec
  exact ⟨nodes, hreach, ⟨c, hc, c', hc', ha, ha', Core.committed_of_any hcommit,
    Core.committed_of_any hcommit'⟩, reach_agreement hreach⟩

/-- Node 1 commits one unit, and node 2 another one after its lock is dropped. -/
theorem lockDrop_disagreement : let b := quietBackend (witnessGroup 8) sampleTail
    ∃ nodes, execute eightValidators (fun _ _ _ => True) b
        (startNodes eightValidators b (witnessGroup 8)) LockDrop.run = some nodes ∧
      Reach eightValidators (fun _ _ _ => True) nodes ∧ ¬Agreement nodes := by
  intro b
  have hserves : eightValidators.Serves b := by decide
  have hcheck : (execute eightValidators (fun _ _ _ => True) b
      (startNodes eightValidators b (witnessGroup 8)) LockDrop.run).any (fun nodes =>
      (∃ c ∈ nodes, c.log.any (Output.commitOf 1 sampleUnit.hash)) ∧
        ∃ c ∈ nodes, c.log.any (Output.commitOf 1 (rivalUnit 4).hash)) = true := by
    decide +kernel
  obtain ⟨nodes, hexec, hnodes⟩ := (Option.any_eq_true _ _).mp hcheck
  obtain ⟨⟨c, hc, hcommit⟩, c', hc', hcommit'⟩ := of_decide_eq_true hnodes
  refine ⟨nodes, hexec, (Reach.startNodes hserves (by decide)).execute hserves hexec, fun h => ?_⟩
  have hsame := h c hc c' hc' 1 _ _ (Core.committed_of_any hcommit)
    (Core.committed_of_any hcommit')
  exact absurd hsame (by decide)

end Nerthus.Bft
