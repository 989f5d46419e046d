import Nerthus.Bft.Run

/-!
# What a node says

Of the effects of an event the proposals and the votes, the locks and the
commits bind the node. `Act` tells for each of them in which situation it is
made, before and after the event.
-/

namespace Nerthus.Bft

open Replica List

inductive Counts (r : Replica) : Event → Replica → Prop where
  | prepare (msg : Message) (hrec : r.Received msg) (hvote : msg.Prepares r.current.subject) :
      Counts r (.newMessage msg) (r.addPrepare msg)
  | commit (msg : Message) (hrec : r.Received msg) (hvote : msg.Commits r.current.subject) :
      Counts r (.newMessage msg) (r.addCommit msg)

/-- A binding effect of one event. For locks and commits `s` is the replica that has counted the
vote. -/
inductive Act (b : Backend) (ev : Event) (r r' : Replica) : Output → Prop where
  | requested (request : Request) (hev : ev = .newProposal request)
      (hstate : r.state = .acceptRequest) (hstate' : r'.state = .acceptRequest)
      (hcur : r'.current = { r.current with pendingRequest := some request })
      (hnum : r.current.sequence = request.proposal.unit.number)
      (hproposer : r.isProposer = true) (hsign : b.sign .msgPreprepare = true) :
      Act b ev r r' (.broadcast (r'.preprepareMessage b request.proposal.unit))
  | repeated (p : Proposal) (hseq : r'.current.sequence = r.current.sequence)
      (hround : r.current.round < r'.current.round) (hp : r.Repeats p) :
      Act b ev r r' (.broadcast (r'.preprepareMessage b p))
  | prepare (hstate : r.state = .acceptRequest) (hlock : r.current.isHashLocked = false)
      (hstate' : r'.state = .preprepared) (hview : r'.current.view = r.current.view)
      (hlock' : r'.current.isHashLocked = false) :
      Act b ev r r' (.broadcast (r'.prepareMessage b))
  | commit (p : Proposal) (hstate : r.state = .acceptRequest ∨ r.state = .preprepared)
      (hlock : r.current.isHashLocked = true → r.current.lockedHash = p.hash)
      (hstate' : r'.state = .prepared) (hview : r'.current.view = r.current.view)
      (hholds : r'.current.Holds p) (hlock' : r'.current.lockedHash = p.hash) :
      Act b ev r r' (.broadcast (r'.commitMessage b p))
  | lock (s : Replica) (p : Proposal) (hcounts : Counts r ev s) (hholds : r.current.Holds p)
      (hstate : r.state = .preprepared ∨ r.state = .prepared)
      (hsize : 7 < s.current.getPrepareOrCommitSize)
      (hpolc : r'.current.polcRound = some (s.polc b p)) :
      Act b ev r r' (.lockHash (s.polc b p))
  | decide (s : Replica) (p : Proposal) (mining : MiningResult) (votes : List WitenssVote)
      (hcounts : Counts r ev s) (hholds : r.current.Holds p)
      (hmining : mining.unit.hash = p.hash)
      (hstate : r.state = .preprepared ∨ r.state = .prepared)
      (hsize : 7 < s.current.commits.size)
      (hvotes : (s.current.commits.values b).mapM Message.committedSeal = some votes)
      (hstate' : r'.state = .committed) :
      Act b ev r r' (.commit r.current.view mining votes)
  | unlock (hash : Hash) (round : Nat) (hround : r.current.round < round)
      (hdead : (r.openRound b round).deadLockAt round = true)
      (hhash : hash = (r.nextRound round).lockedHash) :
      Act b ev r r' (.recoverFromDeadLock hash)

variable {r r' s : Replica} {ev : Event}

theorem acts_of_eq {b : Backend} (h : r'.acts = r.acts) :
    ∃ outs, r'.acts = outs ++ r.acts ∧ ∀ o ∈ outs, Act b ev r r' o :=
  ⟨[], h, nofun⟩

theorem Counts.frame (h : Counts r ev s) :
    s.acts = r.acts ∧ s.valSet = r.valSet ∧ s.current.view = r.current.view ∧
      s.current.preprepare = r.current.preprepare ∧ s.config = r.config ∧
      s.current.chainAddress = r.current.chainAddress := by
  cases h <;> exact ⟨rfl, rfl, rfl, rfl, rfl, rfl⟩

theorem Counts.holds (h : Counts r ev s) {p : Proposal} (hholds : r.current.Holds p) :
    s.current.Holds p := by
  obtain ⟨preprepare, mining, hpre, hrest⟩ := hholds
  exact ⟨preprepare, mining, h.frame.2.2.2.1.trans hpre, hrest⟩

theorem RoundState.commits_size_le (s : RoundState) :
    s.commits.size ≤ s.getPrepareOrCommitSize := by
  unfold getPrepareOrCommitSize MessageSet.size
  have hle := length_filter_le (fun m => (s.commits.get m.address).isSome)
    s.prepares.messages
  omega

theorem acts_prepare {b : Backend} {p : Proposal} (hs : r.Sound) (hcounts : Counts r ev s)
    (hstate : r.state = .preprepared) (hholds : r.current.Holds p)
    (hsize : 7 < s.current.getPrepareOrCommitSize) :
    ∃ outs, (s.prepare b p).acts = outs ++ r.acts ∧ ∀ o ∈ outs, Act b ev r (s.prepare b p) o := by
  obtain ⟨hacts, -, hview, -, -, -⟩ := hcounts.frame
  have hlock : Act b ev r (s.prepare b p) (.lockHash (s.polc b p)) := by
    refine .lock s p hcounts hholds (Or.inl hstate) hsize ?_
    rw [prepare, sendCommit_eq]
    rfl
  have hcommit : Act b ev r (s.prepare b p)
      (.broadcast ((s.prepare b p).commitMessage b p)) := by
    refine .commit p (Or.inr hstate) (fun h => ?_) ?_ ?_ ?_ ?_
    · cases (hs.unlocked hstate).symm.trans h
    all_goals rw [prepare, sendCommit_eq]
    · exact hview
    · exact hcounts.holds hholds
    · rfl
  by_cases hsign : b.sign .msgCommit = true
  · refine ⟨[.broadcast ((s.prepare b p).commitMessage b p), .lockHash (s.polc b p)], ?_, ?_⟩
    · rw [prepare, sendCommit, if_pos hsign]
      simp [act, lockHash, hacts, commitMessage]
    · intro o ho
      rcases mem_pair.mp ho with rfl | rfl
      · exact hcommit
      · exact hlock
  · refine ⟨[.lockHash (s.polc b p)], ?_, ?_⟩
    · rw [prepare, sendCommit, if_neg hsign]
      simp [act, lockHash, hacts]
    · intro o ho
      rw [mem_singleton.mp ho]
      exact hlock

theorem Effect.acts {b : Backend} (h : Effect b r ev r') (hs : r.Sound) :
    ∃ outs, r'.acts = outs ++ r.acts ∧ ∀ o ∈ outs, Act b ev r r' o := by
  cases h with
  | proposed request hstate hnum =>
    unfold sendPreprepare
    split
    · rename_i hsend
      refine ⟨[_], rfl, fun o ho => ?_⟩
      rw [mem_singleton.mp ho]
      exact .requested request rfl hstate hstate rfl hnum hsend.2.1 hsend.2.2
    · exact acts_of_eq rfl
  | accepted msg p mining hrec hcode hmsg hproposer hmining hstate hlock =>
    unfold sendPrepare
    split
    · refine ⟨[_], rfl, fun o ho => ?_⟩
      rw [mem_singleton.mp ho]
      exact .prepare hstate hlock rfl rfl hlock
    · exact acts_of_eq rfl
  | reaccepted msg p mining hrec hcode hmsg hproposer hmining hstate hlock hhash =>
    unfold sendCommit
    split
    · refine ⟨[_], rfl, fun o ho => ?_⟩
      rw [mem_singleton.mp ho]
      have hholds : (r.accept p mining .prepared).current.Holds p :=
        accept_holds hmining
      exact .commit p (Or.inl hstate) (fun _ => hhash.symm) rfl rfl hholds hhash.symm
    · exact acts_of_eq rfl
  | prepareLocked msg p hrec hvote hstate hholds hsize =>
    exact acts_prepare hs (.prepare msg hrec hvote) hstate hholds hsize
  | commitLocked msg p hrec hvote hstate hholds hsize =>
    exact acts_prepare hs (.commit msg hrec hvote) hstate hholds hsize
  | committed msg p mining votes hrec hvote hstate hholds hmining hsize hvotes =>
    have hcounts : Counts r (.newMessage msg) (r.addCommit msg) := .commit msg hrec hvote
    refine ⟨[.commit r.current.view mining votes, .lockHash ((r.addCommit msg).polc b p)],
      rfl, fun o ho => ?_⟩
    rcases mem_pair.mp ho with rfl | rfl
    · exact .decide _ p mining votes hcounts hholds hmining hstate hsize hvotes rfl
    · refine .lock _ p hcounts hholds hstate ?_ rfl
      exact Nat.lt_of_lt_of_le hsize (RoundState.commits_size_le _)
  | roundChanged msg rc hrec hcode hmsg hseq hadd hnum hround =>
    have hs' := hs.addRoundChange rc.view.round msg
    have hview : (r.nextRound rc.view.round).view = ⟨rc.view.round, r.current.sequence⟩ :=
      nextRound_view _
    have hround' : r.current.round < (r.nextRound rc.view.round).round := by
      rw [show (r.nextRound rc.view.round).round = rc.view.round from congrArg View.round hview]
      exact hround
    have hseq' : (r.nextRound rc.view.round).sequence = r.current.sequence :=
      congrArg View.sequence hview
    obtain ⟨outs, houts, ⟨-, henter⟩ | ⟨hdead, henter⟩⟩ :=
      hs'.enterRound_cases (b := b) rc.view.round
    · rw [henter]
      refine ⟨outs, rfl, fun o ho => ?_⟩
      obtain ⟨p, rfl, hp⟩ := houts o ho
      exact .repeated p hseq' hround' hp
    · rw [henter]
      refine ⟨_ :: outs, rfl, fun o ho => ?_⟩
      rcases mem_cons.mp ho with rfl | ho
      · exact .unlock _ rc.view.round hround hdead rfl
      · obtain ⟨p, rfl, hp⟩ := houts o ho
        exact .repeated p hseq' hround' hp
  | _ => exact acts_of_eq rfl

/-- How lock, stored proposal and state agree, also with the votes that the next event makes it
broadcast. -/
structure LockInvariant (c : Core) : Prop where
  proposal : c.state ≠ .acceptRequest →
    ∃ preprepare p, c.current.preprepare = some preprepare ∧ preprepare.proposal = some p
  preprepared : c.state = .preprepared → c.current.isHashLocked = false
  prepared : c.state = .prepared ∨ c.state = .committed → c.current.isHashLocked = true
  locked : c.current.isHashLocked = true → ∃ preprepare p,
    c.current.preprepare = some preprepare ∧ c.current.proposal = some p ∧
      c.current.lockedHash = p.hash
  votes : ∀ (b : Backend) (ev : Event), ev.Own c.address →
    ∃ outs, (c.handleEvent b ev).acts = outs ++ c.acts ∧
      ∀ m, .broadcast m ∈ outs → m.code = .msgPrepare ∨ m.code = .msgCommit →
        ∃ sub, m.msg = .subject sub ∧
          (c.current.isHashLocked = true → sub.digest = c.current.lockedHash) ∧
          ((c.handleEvent b ev).current.isHashLocked = true →
            sub.digest = (c.handleEvent b ev).current.lockedHash)
  running : c.panicked = false

theorem Act.vote {b : Backend} {m : Message} (h : Act b ev r r' (.broadcast m))
    (hcode : m.code = .msgPrepare ∨ m.code = .msgCommit) : ∃ sub, m.msg = .subject sub ∧
      (r.current.isHashLocked = true → sub.digest = r.current.lockedHash) ∧
      (r'.current.isHashLocked = true → sub.digest = r'.current.lockedHash) := by
  cases h with
  | requested => rcases hcode with h | h <;> cases h
  | repeated => rcases hcode with h | h <;> cases h
  | prepare hstate hlock hstate' hview hlock' =>
    refine ⟨r'.current.subject, rfl, fun h => ?_, fun h => ?_⟩
    · cases hlock.symm.trans h
    · cases hlock'.symm.trans h
  | commit p hstate hlock hstate' hview hholds hlock' =>
    have hdigest : r'.current.subject.digest = p.hash := by rw [hholds.subject_eq]
    exact ⟨r'.current.subject, rfl, fun h => hdigest.trans (hlock h).symm,
      fun _ => hdigest.trans hlock'.symm⟩

/-- In every state of a run lock, proposal and state agree, the next event brings no vote against
the lock, and nothing nil has been dereferenced. -/
theorem run_lockInvariant {evs : List (Backend × Event)} {c : Core} (h : Run evs c) :
    LockInvariant c := by
  have hs := h.sound
  refine ⟨fun hstate => ?_, hs.unlocked, hs.locked, fun hlock => ?_, fun b ev hown => ?_,
    hs.running⟩
  · obtain ⟨p, preprepare, mining, hpre, hprop, -, -⟩ := hs.accepted hstate
    exact ⟨preprepare, p, hpre, hprop⟩
  · obtain ⟨p, hholds, hhash⟩ := hs.lockHolds hlock
    obtain ⟨preprepare, mining, hpre, -⟩ := id hholds
    exact ⟨preprepare, p, hpre, hholds.proposal_eq, hhash.symm⟩
  · obtain ⟨outs, hacts, houts⟩ := (h.effect b hown).acts hs
    exact ⟨outs, hacts, fun m hm hcode => (houts _ hm).vote hcode⟩

def preparedRun : List (Backend × Event) :=
  (sampleBackend, .newMessage sentProposal) :: (witnessGroup 8).map fun a =>
    (sampleBackend, .newMessage (sentMessage a .msgPrepare (.subject ⟨⟨0, 1⟩, ⟨7⟩⟩) none))

theorem lockInvariant_prepared : ∃ evs c, Run evs c ∧ c.state = .prepared ∧
    c.current.lockedHash = sampleUnit.hash ∧ LockInvariant c := by
  have hcheck : (startRun defaultConfig ⟨11⟩ ⟨100⟩ sampleBackend preparedRun).any (fun c =>
      c.state = .prepared ∧ c.current.lockedHash = sampleUnit.hash) = true := by
    decide +kernel
  obtain ⟨c, hrun, hc⟩ := run_of_startRun hcheck
  obtain ⟨hstate, hhash⟩ := of_decide_eq_true hc
  exact ⟨_, c, hrun, hstate, hhash, run_lockInvariant hrun⟩

end Nerthus.Bft
