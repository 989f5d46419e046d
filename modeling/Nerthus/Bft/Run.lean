import Nerthus.Bft.Effect

/-!
# Runs of a core and the lock invariant

A run starts a core and hands it events one after the other. Any list of events is handled by
some call of `Handle`, so a run needs no test for a stopped chain. The lock, the stored proposal
and the state are separate fields; `Sound` ties them together, and every effect keeps it.
-/

namespace Nerthus.Bft

open Replica

inductive Run : List (Backend × Event) → Core → Prop where
  | start {config : Config} {address chainAddress : Address} {b : Backend} {c : Core}
      (h : Core.start config address chainAddress b = some c) : Run [] c
  | step {evs : List (Backend × Event)} {c : Core} (h : Run evs c) (b : Backend) {ev : Event}
      (hown : ev.Own c.address) : Run ((b, ev) :: evs) (c.handleEvent b ev)

def Replica.initial (config : Config) (address chainAddress : Address) (b : Backend)
    (list : List Address) : Replica :=
  let vals := ValidatorSet.newDefaultSet config (b.tailHeader.number + 1) b.tailHeader.hash
    list chainAddress
  { config := config
    address := address
    chainAddress := chainAddress
    state := .acceptRequest
    valSet := vals.calcProposer b.tailHeader.proposer 0
    current := RoundState.newRoundState ⟨0, b.tailHeader.number + 1⟩ vals chainAddress
      none none none
    roundChangeSet := RoundChangeSet.newRoundChangeSet vals
    lockHashes := none
    tail := b.tailHeader
    panicked := false
    acts := [] }

variable {evs more : List (Backend × Event)} {address chainAddress : Address} {c : Core}
  {P : Core → Backend → Event → Prop} {p : Proposal} {b : Backend}

theorem Core.start_replica {config : Config} (h : Core.start config address chainAddress b = some c) :
    ∃ list, b.witnesses = some list ∧ address ∈ list ∧
      c.replica = initial config address chainAddress b list := by
  unfold Core.start at h
  split at h
  · cases h
  split at h
  · cases h
  rename_i list hlist
  dsimp only at h
  split at h
  · cases h
  split at h
  · rename_i hme
    rw [ValidatorSet.getByAddress_iff,
      (ValidatorSet.newDefaultSet_validators_perm _ _ _ _ _).mem_iff] at hme
    cases h
    exact ⟨list, hlist, hme, Core.refreshChainStatus_replica _ b⟩
  · cases h

namespace Replica

variable {r : Replica} {b : Backend}

/-! ## Effects keep the invariant -/

theorem sendPreprepare_eq (r : Replica) (b : Backend) (p : Proposal) :
    r.sendPreprepare b p = { r with acts := (r.sendPreprepare b p).acts } := by
  unfold sendPreprepare
  split <;> rfl

theorem sendPrepare_eq (r : Replica) (b : Backend) :
    r.sendPrepare b = { r with acts := (r.sendPrepare b).acts } := by
  unfold sendPrepare
  split <;> rfl

theorem sendCommit_eq (r : Replica) (b : Backend) (p : Proposal) :
    r.sendCommit b p = { r with acts := (r.sendCommit b p).acts } := by
  unfold sendCommit
  split <;> rfl

section

variable (hs : r.Sound)
include hs

theorem Sound.frame {r' : Replica} (hstate : r'.state = r.state) (hcur : r'.current = r.current)
    (hrun : r'.panicked = r.panicked) : r'.Sound := by
  constructor
  · rw [hstate, hcur]; exact hs.fresh
  · rw [hstate, hcur]; exact hs.accepted
  · rw [hstate, hcur]; exact hs.unlocked
  · rw [hstate, hcur]; exact hs.locked
  · rw [hcur]; exact hs.lockHolds
  · rw [hcur]; exact hs.prepares
  · rw [hcur]; exact hs.commits
  · rw [hrun]; exact hs.running

theorem Sound.act (o : Output) : (r.act o).Sound := hs.frame rfl rfl rfl

theorem Sound.note (src : Address) (hash : Hash) : (r.note src hash).Sound :=
  hs.frame rfl rfl rfl

theorem Sound.addRoundChange (round : Nat) (msg : Message) :
    (r.addRoundChange round msg).Sound :=
  hs.frame rfl rfl rfl

theorem Sound.sendPreprepare (p : Proposal) : (r.sendPreprepare b p).Sound := by
  rw [sendPreprepare_eq]
  exact hs.frame rfl rfl rfl

theorem Sound.sendPrepare : (r.sendPrepare b).Sound := by
  rw [sendPrepare_eq]
  exact hs.frame rfl rfl rfl

theorem Sound.sendCommit (p : Proposal) : (r.sendCommit b p).Sound := by
  rw [sendCommit_eq]
  exact hs.frame rfl rfl rfl

theorem Sound.request (request : Request) : (r.request request).Sound :=
  ⟨hs.fresh, hs.accepted, hs.unlocked, hs.locked, hs.lockHolds, hs.prepares, hs.commits,
    hs.running⟩

end

theorem accept_holds {mining : MiningResult} {state : State} (hmining : mining.unit.hash = p.hash) :
    (r.accept p mining state).current.Holds p :=
  ⟨_, mining, rfl, rfl, rfl, hmining⟩

theorem Sound.of_no_votes
    (hmsgs : r.current.prepares.messages = [] ∧ r.current.commits.messages = [])
    (haccepted : r.state ≠ .acceptRequest → ∃ p, r.current.Holds p)
    (hunlocked : r.state = .preprepared → r.current.isHashLocked = false)
    (hlocked : r.state = .prepared ∨ r.state = .committed → r.current.isHashLocked = true)
    (hholds : r.current.isHashLocked = true →
      ∃ p, r.current.Holds p ∧ p.hash = r.current.lockedHash)
    (hrun : r.panicked = false) : r.Sound := by
  refine ⟨fun _ => hmsgs, haccepted, hunlocked, hlocked, hholds, fun m hm => ?_, fun m hm => ?_, hrun⟩
  · rw [hmsgs.1] at hm
    cases hm
  · rw [hmsgs.2] at hm
    cases hm

theorem Sound.accept (hs : r.Sound) {mining : MiningResult} {state : State}
    (hstate : r.state = .acceptRequest) (hmining : mining.unit.hash = p.hash)
    (hopen : state = .preprepared ∧ r.current.isHashLocked = false ∨
      state = .prepared ∧ r.current.isHashLocked = true ∧ p.hash = r.current.lockedHash) :
    (r.accept p mining state).Sound := by
  have hholds : (r.accept p mining state).current.Holds p := accept_holds hmining
  refine .of_no_votes (hs.fresh hstate) (fun _ => ⟨p, hholds⟩) ?_ ?_ ?_ hs.running
  · intro hpre
    rcases hopen with ⟨-, hlock⟩ | ⟨hstate', -, -⟩
    · exact hlock
    · cases hstate'.symm.trans hpre
  · intro hpre
    rcases hopen with ⟨hstate', -⟩ | ⟨-, hlock, -⟩
    · rcases hpre with hpre | hpre <;> cases hstate'.symm.trans hpre
    · exact hlock
  · intro hlocked
    rcases hopen with ⟨-, hlock⟩ | ⟨-, -, hhash⟩
    · cases hlock.symm.trans hlocked
    · exact ⟨p, hholds, hhash⟩

theorem Sound.addPrepare (hs : r.Sound) {msg : Message}
    (hvote : msg.Prepares r.current.subject) (hstate : r.state ≠ .acceptRequest) :
    (r.addPrepare msg).Sound := by
  refine ⟨fun h => absurd h hstate, hs.accepted, hs.unlocked, hs.locked, hs.lockHolds, ?_,
    hs.commits, hs.running⟩
  intro m hm
  rcases MessageSet.mem_add hm with rfl | hold
  · exact hvote
  · exact hs.prepares m hold

theorem Sound.addCommit (hs : r.Sound) {msg : Message}
    (hvote : msg.Commits r.current.subject) (hstate : r.state ≠ .acceptRequest) :
    (r.addCommit msg).Sound := by
  refine ⟨fun h => absurd h hstate, hs.accepted, hs.unlocked, hs.locked, hs.lockHolds,
    hs.prepares, ?_, hs.running⟩
  intro m hm
  rcases MessageSet.mem_add hm with rfl | hold
  · exact hvote
  · exact hs.commits m hold

theorem lockHash_isHashLocked (p : Proposal) : (r.lockHash b p).current.isHashLocked = true := by
  rw [RoundState.isHashLocked_iff]
  exact ⟨r.polc b p, rfl, p.hash_ne_zero⟩

theorem Sound.lockHash (hs : r.Sound) {state : State} (hholds : r.current.Holds p)
    (hstate : state = .prepared ∨ state = .committed) :
    Sound { r.lockHash b p with state := state } := by
  have hlock : (r.lockHash b p).current.isHashLocked = true := lockHash_isHashLocked p
  refine ⟨?_, fun _ => ⟨p, hholds⟩, ?_, fun _ => hlock, fun _ => ⟨p, hholds, rfl⟩,
    hs.prepares, hs.commits, hs.running⟩
  · intro h
    rcases hstate with h' | h' <;> cases h'.symm.trans h
  · intro h
    rcases hstate with h' | h' <;> cases h'.symm.trans h

theorem Sound.prepare (hs : r.Sound) (hholds : r.current.Holds p) : (r.prepare b p).Sound :=
  (hs.lockHash hholds (.inl rfl)).sendCommit p

theorem Sound.commit (hs : r.Sound) (hholds : r.current.Holds p) (mining : MiningResult)
    (votes : List WitenssVote) : ((r.lockHash b p).commit mining votes).Sound :=
  (hs.lockHash hholds (.inr rfl)).act _

theorem nextRound_cases (round : Nat) :
    (r.current.isHashLocked = true ∧ (r.nextRound round).isHashLocked = true ∧
        (r.nextRound round).lockedHash = r.current.lockedHash ∧
        (r.nextRound round).preprepare = r.current.preprepare) ∨
      (r.current.isHashLocked = false ∧ (r.nextRound round).isHashLocked = false ∧
        (r.nextRound round).preprepare = none) := by
  unfold nextRound
  cases hlock : r.current.isHashLocked with
  | true => exact .inl ⟨rfl, hlock, rfl, rfl⟩
  | false => exact .inr ⟨rfl, rfl, rfl⟩

theorem nextRound_view (round : Nat) : (r.nextRound round).view = ⟨round, r.current.sequence⟩ := by
  unfold nextRound
  split <;> rfl

theorem nextRound_messages (round : Nat) :
    (r.nextRound round).prepares.messages = [] ∧ (r.nextRound round).commits.messages = [] := by
  unfold nextRound
  split <;> exact ⟨rfl, rfl⟩

theorem Sound.openRound (hs : r.Sound) (round : Nat) : (r.openRound b round).Sound := by
  refine .of_no_votes (nextRound_messages round) (fun h => absurd rfl h) ?_ ?_ ?_ hs.running
  · intro h
    cases h
  · intro h
    rcases h with h | h <;> cases h
  · intro hlocked
    rcases nextRound_cases (r := r) round with ⟨hlock, -, hhash, hpre⟩ | ⟨-, hlock, -⟩
    · obtain ⟨p, ⟨preprepare, mining, hstored, hrest⟩, hp⟩ := hs.lockHolds hlock
      exact ⟨p, ⟨preprepare, mining, hpre.trans hstored, hrest⟩, hp.trans hhash.symm⟩
    · cases hlock.symm.trans hlocked

/-- The locked proposal, or without a lock the one this node has packed. -/
def Repeats (r : Replica) (p : Proposal) : Prop :=
  r.current.isHashLocked = true ∧ r.current.proposal = some p ∨
    r.current.isHashLocked = false ∧
      ∃ request, r.current.pendingRequest = some request ∧ request.proposal.unit = p

theorem Sound.propose_cases (hs : r.Sound) :
    r.propose b = r ∨ ∃ p, r.propose b = r.sendPreprepare b p ∧ r.Repeats p := by
  unfold propose
  split
  · split
    · rename_i hlock
      obtain ⟨p, hholds, -⟩ := hs.lockHolds hlock
      refine .inr ⟨p, ?_, .inl ⟨hlock, hholds.proposal_eq⟩⟩
      rw [hholds.proposal_eq]
    · rename_i hlock
      split
      · rename_i request hreq
        exact .inr ⟨request.proposal.unit, rfl,
          .inr ⟨Bool.eq_false_iff.mpr hlock, request, hreq, rfl⟩⟩
      · exact .inl rfl
  · exact .inl rfl

theorem Sound.propose (hs : r.Sound) : (r.propose b).Sound ∧ (r.propose b).state = r.state := by
  rcases hs.propose_cases (b := b) with h | ⟨p, h, -⟩
  · rw [h]
    exact ⟨hs, rfl⟩
  · rw [h]
    refine ⟨hs.sendPreprepare p, ?_⟩
    rw [sendPreprepare_eq]

theorem Sound.checkDeadLock (hs : r.Sound) (hstate : r.state = .acceptRequest) :
    r.checkDeadLock.Sound := by
  unfold Replica.checkDeadLock
  split
  · have hunlocked : r.current.unlockHash.isHashLocked = false := rfl
    have hs' : Sound { r with current := r.current.unlockHash, lockHashes := none } := by
      refine ⟨hs.fresh, hs.accepted, fun _ => hunlocked, ?_, ?_, hs.prepares, hs.commits,
        hs.running⟩
      · intro h
        rcases h with h | h <;> cases hstate.symm.trans h
      · intro h
        cases hunlocked.symm.trans h
    exact hs'.act _
  · exact hs

theorem Sound.enterRound (hs : r.Sound) (round : Nat) : (r.enterRound b round).Sound := by
  obtain ⟨hpropose, hstate⟩ := (hs.openRound (b := b) round).propose (b := b)
  exact hpropose.checkDeadLock hstate

theorem Sound.enterRound_state (hs : r.Sound) (round : Nat) :
    (r.enterRound b round).state = .acceptRequest := by
  have hstate := (hs.openRound (b := b) round).propose (b := b) |>.2
  unfold Replica.enterRound Replica.checkDeadLock
  split
  · exact hstate
  · exact hstate

theorem nextRound_repeats {round : Nat} (h : (r.openRound b round).Repeats p) : r.Repeats p := by
  have hreq : (r.nextRound round).pendingRequest = r.current.pendingRequest := by
    unfold nextRound
    split <;> rfl
  rcases nextRound_cases (r := r) round with ⟨hlock, hlock', -, hpre⟩ | ⟨hlock, hlock', -⟩
  · rcases h with ⟨-, hp⟩ | ⟨h, -⟩
    · refine .inl ⟨hlock, ?_⟩
      change (r.nextRound round).preprepare.bind Preprepare.proposal = some p at hp
      rwa [hpre] at hp
    · cases hlock'.symm.trans h
  · rcases h with ⟨h, -⟩ | ⟨-, request, hr, hp⟩
    · cases hlock'.symm.trans h
    · exact .inr ⟨hlock, request, hreq.symm.trans hr, hp⟩

theorem Sound.enterRound_cases (hs : r.Sound) (round : Nat) :
    ∃ outs, (∀ o ∈ outs, ∃ p, o = .broadcast ((r.openRound b round).preprepareMessage b p) ∧
        r.Repeats p) ∧
      ((r.openRound b round).deadLockAt round = false ∧
          r.enterRound b round = { r.openRound b round with acts := outs ++ r.acts } ∨
        (r.openRound b round).deadLockAt round = true ∧
          r.enterRound b round = { r.openRound b round with
            current := (r.nextRound round).unlockHash
            lockHashes := none
            acts := .recoverFromDeadLock (r.nextRound round).lockedHash :: (outs ++ r.acts) }) := by
  have hround : (r.openRound b round).current.round = round :=
    congrArg View.round (nextRound_view (r := r) round)
  obtain ⟨outs, houts, hpropose⟩ : ∃ outs, (∀ o ∈ outs,
      ∃ p, o = .broadcast ((r.openRound b round).preprepareMessage b p) ∧ r.Repeats p) ∧
      (r.openRound b round).propose b = { r.openRound b round with acts := outs ++ r.acts } := by
    rcases (hs.openRound round).propose_cases (b := b) with h | ⟨p, h, hp⟩
    · exact ⟨[], nofun, h⟩
    unfold Replica.sendPreprepare at h
    split at h
    · exact ⟨[_], List.forall_mem_singleton.mpr ⟨p, rfl, nextRound_repeats hp⟩, h⟩
    · exact ⟨[], nofun, h⟩
  refine ⟨outs, houts, ?_⟩
  have henter : r.enterRound b round =
      Replica.checkDeadLock { r.openRound b round with acts := outs ++ r.acts } :=
    congrArg Replica.checkDeadLock hpropose
  rw [henter]
  cases hdead : (r.openRound b round).deadLockAt round with
  | false =>
    refine .inl ⟨rfl, if_neg fun h => ?_⟩
    change (r.openRound b round).deadLockAt (r.openRound b round).current.round = true at h
    rw [hround, hdead] at h
    cases h
  | true =>
    refine .inr ⟨rfl, if_pos ?_⟩
    change (r.openRound b round).deadLockAt (r.openRound b round).current.round = true
    rw [hround, hdead]

theorem Sound.enterRound_frame (hs : r.Sound) (round : Nat) :
    (r.enterRound b round).roundChangeSet = RoundChangeSet.newRoundChangeSet r.valSet ∧
      (r.enterRound b round).valSet.validators = r.valSet.validators ∧
      (r.enterRound b round).current.view = ⟨round, r.current.sequence⟩ := by
  have hview : (r.nextRound round).view = ⟨round, r.current.sequence⟩ := nextRound_view _
  obtain ⟨outs, -, ⟨-, h⟩ | ⟨-, h⟩⟩ := hs.enterRound_cases (b := b) round <;>
    rw [h] <;> exact ⟨rfl, rfl, hview⟩

theorem Sound.newSequence {view : View} {valSet : ValidatorSet} {chain : Address}
    (hstate : r.state = .acceptRequest) (hrun : r.panicked = false)
    (hcur : r.current = RoundState.newRoundState view valSet chain none none none) : r.Sound := by
  have hlock : r.current.isHashLocked = false := by rw [hcur]; rfl
  refine .of_no_votes ?_ (fun h => absurd hstate h) (fun _ => hlock) ?_ ?_ hrun
  · rw [hcur]
    exact ⟨rfl, rfl⟩
  · intro h
    rcases h with h | h <;> cases hstate.symm.trans h
  · intro h
    cases hlock.symm.trans h

end Replica

theorem Effect.sound {r r' : Replica} {ev : Event} (h : Effect b r ev r') (hs : r.Sound) :
    r'.Sound := by
  have hvoted : r.state = .preprepared ∨ r.state = .prepared → r.state ≠ .acceptRequest := by
    intro h
    rcases h with h | h <;> rw [h] <;> decide
  cases h with
  | idle => exact hs
  | stopped => exact hs.frame rfl rfl rfl
  | requested request => exact hs.request request
  | proposed request => exact (hs.request request).sendPreprepare _
  | noted msg proposal => exact hs.note _ _
  | accepted msg p mining hrec hcode hmsg hproposer hmining hstate hlock =>
    exact ((hs.note _ _).accept hstate hmining (.inl ⟨rfl, hlock⟩)).sendPrepare
  | reaccepted msg p mining hrec hcode hmsg hproposer hmining hstate hlock hhash =>
    exact ((hs.note _ _).accept hstate hmining (.inr ⟨rfl, hlock, hhash⟩)).sendCommit p
  | prepareCounted msg hrec hvote hstate => exact hs.addPrepare hvote (hvoted hstate)
  | prepareLocked msg p hrec hvote hstate hholds =>
    exact (hs.addPrepare hvote (hvoted (.inl hstate))).prepare hholds
  | commitCounted msg hrec hvote hstate => exact hs.addCommit hvote (hvoted hstate)
  | commitLocked msg p hrec hvote hstate hholds =>
    exact (hs.addCommit hvote (hvoted (.inl hstate))).prepare hholds
  | committed msg p mining votes hrec hvote hstate hholds =>
    exact (hs.addCommit hvote (hvoted hstate)).commit hholds mining votes
  | roundChangeCounted => exact hs.frame rfl rfl rfl
  | roundChanged msg rc => exact (hs.addRoundChange _ msg).enterRound rc.view.round
  | sequenceStarted => exact Replica.Sound.newSequence rfl hs.running rfl
  | refreshed => exact hs.frame rfl rfl rfl

theorem Run.sound (h : Run evs c) : c.replica.Sound := by
  induction h with
  | start h =>
    obtain ⟨list, -, -, hc⟩ := Core.start_replica h
    rw [hc]
    exact Replica.Sound.newSequence rfl rfl rfl
  | step h b hown ih => exact (Core.handleEvent_effect ih hown).sound ih

theorem Run.effect (h : Run evs c) (b : Backend) {ev : Event} (hown : ev.Own c.address) :
    Effect b c.replica ev (c.handleEvent b ev).replica :=
  Core.handleEvent_effect h.sound hown

theorem Effect.identity {r r' : Replica} {ev : Event} (h : Effect b r ev r') (hs : r.Sound) :
    r'.address = r.address ∧ r'.config = r.config := by
  cases h with
  | proposed => rw [sendPreprepare_eq]; exact ⟨rfl, rfl⟩
  | accepted => rw [sendPrepare_eq]; exact ⟨rfl, rfl⟩
  | reaccepted => rw [sendCommit_eq]; exact ⟨rfl, rfl⟩
  | prepareLocked => rw [prepare, sendCommit_eq]; exact ⟨rfl, rfl⟩
  | commitLocked => rw [prepare, sendCommit_eq]; exact ⟨rfl, rfl⟩
  | roundChanged msg rc =>
    have hs' := hs.addRoundChange rc.view.round msg
    obtain ⟨outs, -, ⟨-, h⟩ | ⟨-, h⟩⟩ := hs'.enterRound_cases (b := b) rc.view.round <;>
      rw [h] <;> exact ⟨rfl, rfl⟩
  | _ => exact ⟨rfl, rfl⟩

theorem Run.address_eq (h : Run evs c) (b : Backend) {ev : Event} (hown : ev.Own c.address) :
    (c.handleEvent b ev).address = c.address :=
  ((h.effect b hown).identity h.sound).1

def Core.run (c : Core) (evs : List (Backend × Event)) : Core :=
  evs.foldl (fun c e => c.handleEvent e.1 e.2) c

theorem Core.run_concat (c : Core) (evs : List (Backend × Event)) (e : Backend × Event) :
    c.run (evs ++ [e]) = (c.run evs).handleEvent e.1 e.2 := by
  rw [Core.run, List.foldl_append]
  rfl

theorem Run.own_cons (h : Run evs c) {e : Backend × Event}
    (hown : ∀ e' ∈ e :: more, e'.2.Own c.address) :
    e.2.Own c.address ∧ ∀ e' ∈ more, e'.2.Own (c.handleEvent e.1 e.2).address := by
  have hfirst : e.2.Own c.address := hown e (.head _)
  refine ⟨hfirst, fun e' he' => ?_⟩
  rw [h.address_eq e.1 hfirst]
  exact hown e' (.tail _ he')

theorem Run.run (h : Run evs c) (hown : ∀ e ∈ more, e.2.Own c.address) :
    Run (more.reverse ++ evs) (c.run more) := by
  induction more generalizing evs c with
  | nil => exact h
  | cons e more ih =>
    obtain ⟨hfirst, hrest⟩ := h.own_cons hown
    have hrun := ih (h.step e.1 hfirst) hrest
    rw [List.reverse_cons, List.append_assoc]
    exact hrun

theorem Run.run_address (h : Run evs c) (hown : ∀ e ∈ more, e.2.Own c.address) :
    (c.run more).address = c.address := by
  induction more generalizing evs c with
  | nil => rfl
  | cons e more ih =>
    obtain ⟨hfirst, hrest⟩ := h.own_cons hown
    exact (ih (h.step e.1 hfirst) hrest).trans (h.address_eq e.1 hfirst)

def Along (P : Core → Backend → Event → Prop) : Core → List (Backend × Event) → Prop
  | _, [] => True
  | c, (b, ev) :: evs => P c b ev ∧ Along P (c.handleEvent b ev) evs

theorem Run.along {Q : Core → Prop}
    (hstep : ∀ (evs : List (Backend × Event)) (c : Core) (b : Backend) (ev : Event), Run evs c →
      ev.Own c.address → P c b ev → Q c → Q (c.handleEvent b ev)) (h : Run evs c) (hstart : Q c)
    (hown : ∀ e ∈ more, e.2.Own c.address) (halong : Along P c more) : Q (c.run more) := by
  induction more generalizing evs c with
  | nil => exact hstart
  | cons e more ih =>
    obtain ⟨hfirst, hrest⟩ := h.own_cons hown
    have hnext := hstep evs c e.1 e.2 h hfirst halong.1 hstart
    exact ih (h.step e.1 hfirst) hnext hrest halong.2

theorem Along.of_forall (h : ∀ e ∈ evs, ∀ c, P c e.1 e.2) (c : Core) : Along P c evs := by
  induction evs generalizing c with
  | nil => trivial
  | cons e evs ih =>
    exact ⟨h e (.head _) c, ih (fun e' he' => h e' (.tail _ he')) _⟩

theorem Along.last {e : Backend × Event} (h : Along P c (evs ++ [e])) : P (c.run evs) e.1 e.2 := by
  induction evs generalizing c with
  | nil => exact h.1
  | cons e' evs ih => exact ih h.2

instance (me : Address) (ev : Event) : Decidable (ev.Own me) :=
  match ev with
  | .newMessage msg => inferInstanceAs (Decidable (msg.isMe = true → msg.sender = some me))
  | .newNumber _ => isTrue trivial
  | .newProposal _ => isTrue trivial
  | .newTx => isTrue trivial
  | .newChangeRound _ => isTrue trivial

def defaultConfig : Config :=
  { requestTimeout := 10
    consensusTimeout := 60
    scAccount := ⟨1000⟩
    addressString := fun a => [a.hash] }

def witnessGroup (n : Nat) : List Address := (List.range n).map fun i => ⟨i + 1⟩

def quietBackend (witnesses : List Address) (tail : Header) : Backend :=
  { now := 0
    tailHeader := tail
    witnesses := some witnesses
    verify := fun _ => none
    witnessLib := fun _ _ => witnesses
    existTx := false
    packUnit := true
    reBroadTx := 0
    waitGenerateUnitTime := 0
    sign := fun _ => true
    randomFnv64a := 0
    walk := id
    walk_perm := fun _ => List.Perm.refl _ }

def sentMessage (address : Address) (code : ConsensusType) (msg : Payload)
    (committedSeal : Option WitenssVote) : Message :=
  { finalizeMessage address 0 code msg committedSeal with isMe := false }

def sampleUnit : Proposal := ⟨1, ⟨7⟩, ⟨100⟩, ⟨8⟩, by decide⟩

def sampleTail : Header := ⟨0, ⟨5⟩, ⟨8⟩, by decide⟩

def sampleBackend : Backend := quietBackend (witnessGroup 11) sampleTail

def sentRoundChange (a : Address) (round : Nat) : Message :=
  sentMessage a .msgRoundChange (.subject ⟨⟨round, 1⟩, Hash.zero⟩) none

def sentProposal : Message :=
  sentMessage ⟨9⟩ .msgPreprepare (.preprepare ⟨0, 1⟩ (some sampleUnit)) none

def startRun (config : Config) (address chainAddress : Address) (b : Backend)
    (evs : List (Backend × Event)) : Option Core :=
  if ∀ e ∈ evs, e.2.Own address then
    (Core.start config address chainAddress b).map fun c => c.run evs
  else none

theorem Core.start_address {config : Config} (h : Core.start config address chainAddress b = some c) :
    c.address = address := by
  obtain ⟨list, -, -, hc⟩ := Core.start_replica h
  exact congrArg Replica.address hc

theorem run_of_startRun {config : Config} {P : Core → Bool}
    (h : (startRun config address chainAddress b evs).any P = true) :
    ∃ c, Run evs.reverse c ∧ P c = true := by
  unfold startRun at h
  split at h
  · rename_i hown
    cases hstart : Core.start config address chainAddress b with
    | none =>
      rw [hstart] at h
      cases h
    | some c =>
      rw [hstart] at h
      rw [← Core.start_address hstart] at hown
      have hrun := (Run.start hstart).run hown
      rw [List.append_nil] at hrun
      exact ⟨c.run evs, hrun, h⟩
  · cases h

def events (calls : List (List (Backend × Event) × Backend × Event)) : List (Backend × Event) :=
  calls.flatMap fun call => call.1 ++ [call.2]

variable {calls : List (List (Backend × Event) × Backend × Event)}

theorem Core.handles_stopped (h : c.chainAddress.empty = true) :
    calls.foldl (fun c call => c.handle call.1 call.2) c = c := by
  induction calls with
  | nil => rfl
  | cons call calls ih =>
    have hcall : c.handle call.1 call.2 = c := if_pos h
    rw [List.foldl_cons, hcall, ih]

/-- Calls of `Handle` are a run of their events, up to a call that finds the chain stopped; so they
never dereference nil, and lock, proposal and state agree after them. -/
theorem handles_run (h : Run evs c) (calls : List (List (Backend × Event) × Backend × Event))
    (hown : ∀ e ∈ events calls, e.2.Own c.address) :
    ∃ done rest, calls = done ++ rest ∧
      calls.foldl (fun c call => c.handle call.1 call.2) c = c.run (events done) ∧
      Run ((events done).reverse ++ evs) (c.run (events done)) ∧
      (c.run (events done)).replica.Sound ∧
      (rest ≠ [] → (c.run (events done)).chainAddress.empty = true) := by
  induction calls generalizing evs c with
  | nil => exact ⟨[], [], rfl, rfl, h, h.sound, fun hne => absurd rfl hne⟩
  | cons call calls ih =>
    by_cases hstopped : c.chainAddress.empty
    · exact ⟨[], _, rfl, Core.handles_stopped hstopped, h, h.sound, fun _ => hstopped⟩
    have hcall : c.handle call.1 call.2 = c.run (call.1 ++ [call.2]) := if_neg hstopped
    rw [events, List.flatMap_cons, List.forall_mem_append] at hown
    have hnext := h.run hown.1
    obtain ⟨done, rest, rfl, hfold, hrun, hsound, hrest⟩ := ih hnext (by
      rw [h.run_address hown.1]
      exact hown.2)
    have hevents : c.run (events (call :: done)) = (c.run (call.1 ++ [call.2])).run (events done) :=
      List.foldl_append
    rw [← hevents] at hfold hrun hsound hrest
    refine ⟨call :: done, rest, rfl, ?_, ?_, hsound, hrest⟩
    · rw [List.foldl_cons, hcall, hfold]
    · rw [← List.append_assoc, ← List.reverse_append] at hrun
      exact hrun

/-- A call that takes seven round changes from `priorChan` before its own enters round one. -/
theorem handles_run_round : ∃ c prior ev, Run [] c ∧ c.currentView = ⟨0, 1⟩ ∧
    (c.handle prior ev).currentView = ⟨1, 1⟩ ∧
    Run (prior ++ [ev]).reverse (c.handle prior ev) ∧ (c.handle prior ev).replica.Sound := by
  let change (a : Address) : Backend × Event := (sampleBackend, .newMessage (sentRoundChange a 1))
  let prior := (witnessGroup 8).tail.map change
  have hcheck : (startRun defaultConfig ⟨1⟩ ⟨100⟩ sampleBackend []).any (fun c =>
      c.currentView = ⟨0, 1⟩ ∧ (c.handle prior (change ⟨9⟩)).currentView = ⟨1, 1⟩ ∧
      ∀ e ∈ events [(prior, change ⟨9⟩)], e.2.Own c.address) = true := by
    decide +kernel
  obtain ⟨c, hstart, hc⟩ := run_of_startRun hcheck
  obtain ⟨hold, hnew, hown⟩ := of_decide_eq_true hc
  obtain ⟨done, rest, hsplit, hfold, hrun, hsound, -⟩ := handles_run hstart _ hown
  rw [← hfold] at hrun hsound
  cases done with
  | nil =>
    rw [show c.handle prior (change ⟨9⟩) = c from hfold, hold] at hnew
    cases hnew
  | cons call done =>
    obtain ⟨rfl, hnil⟩ := List.cons.inj hsplit
    obtain rfl := (List.nil_eq_append_iff.mp hnil).1
    exact ⟨c, prior, change ⟨9⟩, hstart, hold, hnew, hrun, hsound⟩

end Nerthus.Bft
