import Nerthus.Bft.Votes

/-!
# Commit and lock certificates

A lock stores the votes that justify it, a commit hands the seals of the votes to the backend.
They come from distinct senders, each a validator when its vote arrived; but the forced refresh
after repeated timeouts replaces the validators and keeps the votes counted before.
-/

namespace Nerthus.Bft

open List

variable {r s r' : Replica} {ev : Event} {acc : List Address × List ProofTreeMessage}
  {evs : List (Backend × Event)} {b : Backend}

namespace RoundState

/-! ## Collecting votes of distinct senders -/

variable {n : Nat}

theorem collect_induction {P : List Address × List ProofTreeMessage → Prop} (msgs : List Message)
    (h : P acc) (hstep : ∀ acc, ∀ m ∈ msgs, acc.2.length < n → m.address ∉ acc.1 → P acc →
      P (m.address :: acc.1, acc.2 ++ [m.packetProveTreeBytes])) : P (collect n msgs acc) := by
  induction msgs generalizing acc with
  | nil => exact h
  | cons msg rest ih =>
    have hrest := fun acc m hm => hstep acc m (.tail _ hm)
    unfold collect
    split
    · exact h
    split
    · exact ih h hrest
    · rename_i hnew
      exact ih (hstep acc msg (.head _) (by omega) hnew h) hrest

structure Collects (n : Nat) (Vote : Message → Prop) (acc : List Address × List ProofTreeMessage) :
    Prop where
  senders : acc.1.reverse = acc.2.map ProofTreeMessage.address
  nodup : acc.1.Nodup
  length_le : acc.2.length ≤ n
  votes : ∀ p ∈ acc.2, ∃ m, Vote m ∧ p = m.packetProveTreeBytes

theorem Collects.collect {Vote : Message → Prop} (h : Collects n Vote acc) {msgs : List Message}
    (hmsgs : ∀ m ∈ msgs, Vote m) : Collects n Vote (collect n msgs acc) := by
  refine collect_induction msgs h fun acc m hm hless hnew h => ⟨?_, ?_, ?_, ?_⟩
  · rw [reverse_cons, h.senders, map_append]
    rfl
  · exact nodup_cons.mpr ⟨hnew, h.nodup⟩
  · rw [length_append]
    exact hless
  · exact forall_mem_append.mpr
      ⟨h.votes, forall_mem_singleton.mpr ⟨m, hmsgs m hm, rfl⟩⟩

theorem collect_grows (msgs : List Message) (acc : List Address × List ProofTreeMessage) :
    acc.1 ⊆ (collect n msgs acc).1 ∧ acc.2.length ≤ (collect n msgs acc).2.length := by
  refine collect_induction (P := fun x => acc.1 ⊆ x.1 ∧ acc.2.length ≤ x.2.length) msgs
    ⟨List.Subset.refl _, Nat.le_refl _⟩ fun x m _ _ _ h => ⟨subset_cons_of_subset _ h.1, ?_⟩
  rw [length_append]
  exact Nat.le_add_right_of_le h.2

theorem collect_all (msgs : List Message) (h : (collect n msgs acc).2.length < n) {m : Message}
    (hm : m ∈ msgs) : m.address ∈ (collect n msgs acc).1 := by
  induction msgs generalizing acc with
  | nil => cases hm
  | cons msg rest ih =>
    unfold collect at h ⊢
    split at h
    · omega
    rename_i hless
    rw [if_neg hless]
    split at h
    · rename_i hseen
      rw [if_pos hseen]
      rcases mem_cons.mp hm with rfl | hrest
      · exact (collect_grows rest acc).1 hseen
      · exact ih h hrest
    · rename_i hseen
      rw [if_neg hseen]
      rcases mem_cons.mp hm with rfl | hrest
      · exact (collect_grows rest _).1 (.head _)
      · exact ih h hrest

theorem exists_voters (s : RoundState) :
    ∃ voters : List Address, voters.Nodup ∧ voters.length = s.getPrepareOrCommitSize ∧
      ∀ a ∈ voters, a ∈ s.prepares.messages.map Message.address ∨
        a ∈ s.commits.messages.map Message.address := by
  let single := s.prepares.messages.filter fun m => !(s.commits.get m.address).isSome
  have hsub : single.Sublist s.prepares.messages := filter_sublist
  refine ⟨single.map Message.address ++ s.commits.messages.map Message.address, ?_, ?_, ?_⟩
  · refine nodup_append.mpr ⟨s.prepares.nodup.sublist (hsub.map _), s.commits.nodup, ?_⟩
    intro a ha a' ha' heq
    subst heq
    obtain ⟨m, hm, rfl⟩ := mem_map.mp ha
    have hnone := (mem_filter.mp hm).2
    rw [MessageSet.get_isSome_iff.mpr ha'] at hnone
    cases hnone
  · have hsplit := length_eq_length_filter_add (l := s.prepares.messages)
      fun m => (s.commits.get m.address).isSome
    unfold getPrepareOrCommitSize MessageSet.size
    rw [length_append, length_map, length_map]
    change s.prepares.messages.length = _ + single.length at hsplit
    omega
  · intro a ha
    rcases mem_append.mp ha with ha | ha
    · exact .inl (map_subset _ hsub.subset ha)
    · exact .inr ha

/-- With enough votes, those stored with a lock are exactly as many as a unit needs, from distinct
senders. -/
theorem getPrepareOrCommitBytes_spec {s : RoundState} (scAccount : Address) (b : Backend)
    (hsize : 7 < s.getPrepareOrCommitSize) : (s.getPrepareOrCommitBytes scAccount b).length =
        Params.getChainMinVoting scAccount s.chainAddress ∧
      ((s.getPrepareOrCommitBytes scAccount b).map ProofTreeMessage.address).Nodup ∧
      ∀ p ∈ s.getPrepareOrCommitBytes scAccount b, ∃ m,
        (m ∈ s.prepares.messages ∨ m ∈ s.commits.messages) ∧ p = m.packetProveTreeBytes := by
  unfold getPrepareOrCommitBytes
  rw [Params.getChainMinVoting_eq]
  let first := collect 8 (s.prepares.values b) ([], [])
  let both := collect 8 (s.commits.values b) first
  have hboth : Collects 8 (fun m => m ∈ s.prepares.messages ∨ m ∈ s.commits.messages) both :=
    ((⟨rfl, nodup_nil, Nat.zero_le 8, nofun⟩ : Collects 8 _ ([], [])).collect
      fun m hm => .inl ((b.walk_perm _).mem_iff.mp hm)).collect
      fun m hm => .inr ((b.walk_perm _).mem_iff.mp hm)
  obtain ⟨voters, hnodup, hlen, hvoters⟩ := s.exists_voters
  refine ⟨?_, ?_, hboth.votes⟩
  · -- fewer than eight would mean that both loops have seen all senders
    by_contra hne
    have hless : both.2.length < 8 := Nat.lt_of_le_of_ne hboth.length_le hne
    obtain ⟨hkept, hmono⟩ : first.1 ⊆ both.1 ∧ first.2.length ≤ both.2.length :=
      collect_grows _ first
    have hseen : voters ⊆ both.1 := by
      intro a ha
      rcases hvoters a ha with ha | ha
      · obtain ⟨m, hm, rfl⟩ := mem_map.mp ha
        exact hkept (collect_all _ (Nat.lt_of_le_of_lt hmono hless)
          ((b.walk_perm _).mem_iff.mpr hm))
      · obtain ⟨m, hm, rfl⟩ := mem_map.mp ha
        exact collect_all _ hless ((b.walk_perm _).mem_iff.mpr hm)
    have hcount : voters.length ≤ both.1.length :=
      (subperm_of_subset hnodup hseen).length_le
    have hsame : both.1.length = both.2.length := by
      rw [← length_reverse, hboth.senders, length_map]
    omega
  · rw [← hboth.senders]
    exact nodup_reverse.mpr hboth.nodup

end RoundState

def Voters (r : Replica) : Prop :=
  ∀ m, m ∈ r.current.prepares.messages ∨ m ∈ r.current.commits.messages →
    m.address ∈ r.valSet.validators

def KeepsVoters (c : Core) (b : Backend) (ev : Event) : Prop :=
  ∀ rv list, ev = .newChangeRound rv → c.forcesRefresh rv → c.chainAddress.empty = false →
    b.witnesses = some list → c.address ∈ list →
    ∀ m, m ∈ c.current.prepares.messages ∨ m ∈ c.current.commits.messages → m.address ∈ list

theorem Voters.of_empty (h : r.current.prepares.messages = [] ∧ r.current.commits.messages = []) :
    Voters r := by
  intro m hm
  rw [h.1, h.2] at hm
  rcases hm with hm | hm <;> cases hm

theorem Counts.voters (h : Counts r ev s) (hv : Voters r) : Voters s := by
  intro m hm
  cases h with
  | prepare msg hrec =>
    rcases hm with hm | hm
    · rcases MessageSet.mem_add hm with rfl | hold
      · exact hrec.validator
      · exact hv m (.inl hold)
    · exact hv m (.inr hm)
  | commit msg hrec =>
    rcases hm with hm | hm
    · exact hv m (.inl hm)
    · rcases MessageSet.mem_add hm with rfl | hold
      · exact hrec.validator
      · exact hv m (.inr hold)

theorem Voters.prepare (h : Voters r) (b : Backend) (p : Proposal) : Voters (r.prepare b p) := by
  rw [Replica.prepare, Replica.sendCommit_eq]
  exact h

theorem Effect.voters (h : Effect b r ev r') (hs : r.Sound) (hv : Voters r)
    (hrefresh : ∀ rv list, ev = .newChangeRound rv → r.chainAddress.empty = false →
      b.witnesses = some list → r.address ∈ list → ∀ m,
      m ∈ r.current.prepares.messages ∨ m ∈ r.current.commits.messages → m.address ∈ list) :
    Voters r' := by
  cases h with
  | proposed => rw [Replica.sendPreprepare_eq]; exact hv
  | accepted => rw [Replica.sendPrepare_eq]; exact hv
  | reaccepted => rw [Replica.sendCommit_eq]; exact hv
  | prepareCounted msg hrec hvote => exact (Counts.prepare msg hrec hvote).voters hv
  | prepareLocked msg p hrec hvote => exact ((Counts.prepare msg hrec hvote).voters hv).prepare b p
  | commitCounted msg hrec hvote => exact (Counts.commit msg hrec hvote).voters hv
  | commitLocked msg p hrec hvote => exact ((Counts.commit msg hrec hvote).voters hv).prepare b p
  | committed msg p mining votes hrec hvote => exact (Counts.commit msg hrec hvote).voters hv
  | roundChanged msg rc =>
    have hs' := hs.addRoundChange rc.view.round msg
    exact .of_empty ((hs'.enterRound rc.view.round).fresh (hs'.enterRound_state rc.view.round))
  | sequenceStarted => exact .of_empty ⟨rfl, rfl⟩
  | refreshed rv list hchain hlist hme =>
    have hsorted : ∀ {a : Address}, a ∈ list → a ∈ (r.install b list).valSet.validators :=
      (ValidatorSet.newDefaultSet_validators_perm _ _ _ _ _).mem_iff.mpr
    exact fun m hm => hsorted (hrefresh rv list rfl hchain hlist hme m hm)
  | _ => exact hv

theorem Run.voters_step {c : Core} (h : Run evs c) (hown : ev.Own c.address)
    (hkeep : KeepsVoters c b ev) (hv : Voters c.replica) : Voters (c.handleEvent b ev).replica := by
  cases ev with
  | newChangeRound rv =>
    by_cases hforces : c.forcesRefresh rv
    · refine (h.effect b hown).voters h.sound hv fun rv' list hev hchain hlist hme => ?_
      cases hev
      exact hkeep rv list rfl hforces hchain hlist hme
    · change Voters (c.handleTimeout b rv).replica
      rw [(Core.handleTimeout_replica rv).1 hforces]
      exact hv
  | _ =>
    refine (h.effect b hown).voters h.sound hv fun rv' list hev => ?_
    cases hev

/-! ## Certificates -/

/-- Enough seals of distinct validators, each made for this unit and round. -/
structure SealsCertify (valSet : ValidatorSet) (minVotes : Nat) (view : View)
    (mining : MiningResult) (votes : List WitenssVote) : Prop where
  enough : minVotes ≤ votes.length
  signed : ∃ signers : List Address, signers.Nodup ∧ (∀ a ∈ signers, a ∈ valSet.validators) ∧
    List.Forall₂ (fun vote signer => vote.Seals signer ⟨view, mining.unit.hash⟩) votes signers

/-- Exactly as many votes as needed, of distinct validators, each for the current proposal. -/
structure VotesCertify (valSet : ValidatorSet) (minVotes : Nat) (sub : Subject)
    (polc : PolcRound) : Prop where
  locks : polc.view = sub.view ∧ polc.lockedHash = sub.digest
  exact : polc.signBytes.length = minVotes
  distinct : (polc.signBytes.map ProofTreeMessage.address).Nodup
  votes : ∀ p ∈ polc.signBytes, p.address ∈ valSet.validators ∧ p.sign = some p.address ∧
    (p.code = .msgPrepare ∨ p.code = .msgCommit) ∧ p.msg = .subject sub

def CertifiedStep (c : Core) (b : Backend) (ev : Event) : Prop :=
  let minVotes := Params.getChainMinVoting c.config.scAccount c.current.chainAddress
  ∃ outs, (c.handleEvent b ev).acts = outs ++ c.acts ∧
    (∀ view mining votes, .commit view mining votes ∈ outs →
      view = c.current.view ∧ SealsCertify c.valSet minVotes view mining votes) ∧
    ∀ polc, .lockHash polc ∈ outs → VotesCertify c.valSet minVotes c.current.subject polc

theorem Counts.sound (h : Counts r ev s) (hs : r.Sound)
    (hstate : r.state = .preprepared ∨ r.state = .prepared) : s.Sound := by
  have hne : r.state ≠ .acceptRequest := by
    rcases hstate with h | h <;> rw [h] <;> decide
  cases h with
  | prepare msg hrec hvote => exact hs.addPrepare hvote hne
  | commit msg hrec hvote => exact hs.addCommit hvote hne

theorem Counts.subject (h : Counts r ev s) : s.current.subject = r.current.subject := by
  cases h <;> rfl

theorem forall₂_seals {msgs : List Message} {sub : Subject} (h : ∀ m ∈ msgs, m.Commits sub)
    {votes : List WitenssVote} (hvotes : msgs.mapM Message.committedSeal = some votes) :
    List.Forall₂ (fun vote signer => vote.Seals signer sub) votes
      (msgs.map Message.address) := by
  induction msgs generalizing votes with
  | nil =>
    cases hvotes
    exact .nil
  | cons m msgs ih =>
    obtain ⟨vote, hvote, hseals⟩ := (h m (.head _)).sealed
    simp only [mapM_cons, hvote, Option.bind_eq_bind, Option.bind_some, Option.pure_def,
      Option.bind_eq_some_iff] at hvotes
    obtain ⟨rest, hrest, hcons⟩ := hvotes
    cases hcons
    exact .cons hseals (ih (fun m' hm' => h m' (.tail _ hm')) hrest)

theorem Act.sealsCertify {view : View} {mining : MiningResult} {votes : List WitenssVote}
    (h : Act b ev r r' (.commit view mining votes)) (hs : r.Sound) (hv : Voters r) :
    view = r.current.view ∧ SealsCertify r.valSet 8 view mining votes := by
  cases h with
  | decide s p _ _ hcounts hholds hmining hstate hsize hvotes =>
    have hperm := b.walk_perm s.current.commits.messages
    have hcommits : ∀ m ∈ s.current.commits.values b,
        m.Commits ⟨r.current.view, mining.unit.hash⟩ := by
      intro m hm
      have hm' := (hcounts.sound hs hstate).commits m (hperm.mem_iff.mp hm)
      rw [hcounts.subject, hholds.subject_eq, ← hmining] at hm'
      exact hm'
    have hseals := forall₂_seals hcommits hvotes
    refine ⟨rfl, ?_, _, ?_, ?_, hseals⟩
    · rw [hseals.length_eq, length_map]
      exact Nat.lt_of_lt_of_eq hsize hperm.length_eq.symm
    · exact (hperm.map Message.address).nodup_iff.mpr s.current.commits.nodup
    · intro a ha
      obtain ⟨m, hm, rfl⟩ := mem_map.mp ha
      rw [← hcounts.frame.2.1]
      exact hcounts.voters hv m (.inr (hperm.mem_iff.mp hm))

theorem Act.votesCertify {polc : PolcRound} (h : Act b ev r r' (.lockHash polc)) (hs : r.Sound)
    (hv : Voters r) : VotesCertify r.valSet 8 r.current.subject polc := by
  cases h with
  | lock s p hcounts hholds hstate hsize =>
    obtain ⟨hlen, hnodup, hmem⟩ :=
      RoundState.getPrepareOrCommitBytes_spec s.config.scAccount b hsize
    rw [Params.getChainMinVoting_eq] at hlen
    have hs' := hcounts.sound hs hstate
    have hv' := hcounts.voters hv
    refine ⟨⟨hcounts.frame.2.2.1, ?_⟩, hlen, hnodup, fun q hq => ?_⟩
    · rw [hholds.subject_eq]
      rfl
    · obtain ⟨m, hm, rfl⟩ := hmem q hq
      rw [← hcounts.frame.2.1, ← hcounts.subject]
      rcases hm with hm | hm
      · have hvote := hs'.prepares m hm
        exact ⟨hv' m (.inl hm), (Message.sender_eq_some.mp hvote.sender).1,
          .inl hvote.code, hvote.msg⟩
      · have hvote := hs'.commits m hm
        exact ⟨hv' m (.inr hm), (Message.sender_eq_some.mp hvote.sender).1,
          .inr hvote.code, hvote.msg⟩

theorem Run.certified_of_voters {c : Core} (h : Run evs c) (hv : Voters c.replica) (b : Backend)
    (hown : ev.Own c.address) : CertifiedStep c b ev := by
  unfold CertifiedStep
  rw [Params.getChainMinVoting_eq]
  obtain ⟨outs, hacts, houts⟩ := (h.effect b hown).acts h.sound
  exact ⟨outs, hacts, fun view mining votes hm => (houts _ hm).sealsCertify h.sound hv,
    fun polc hm => (houts _ hm).votesCertify h.sound hv⟩

/-- As long as forced refreshes keep the voters, whatever is committed or locked comes with its
certificate. -/
theorem run_certified {config : Config} {me chain : Address} {b : Backend} {c : Core}
    (hstart : Core.start config me chain b = some c) {evs : List (Backend × Event)}
    (hown : ∀ e ∈ evs, e.2.Own me) (hkeep : Along KeepsVoters c evs) (b' : Backend) {ev : Event}
    (hev : ev.Own me) : CertifiedStep (c.run evs) b' ev := by
  have haddress := Core.start_address hstart
  rw [← haddress] at hown
  obtain ⟨list, -, -, hc⟩ := Core.start_replica hstart
  have hinit : Voters c.replica := by
    rw [hc]
    exact .of_empty ⟨rfl, rfl⟩
  have hrun := (Run.start hstart).run hown
  have hv := (Run.start hstart).along (Q := fun c => Voters c.replica)
    (fun _ _ _ _ h hown hkeep hv => h.voters_step hown hkeep hv) hinit hown hkeep
  refine hrun.certified_of_voters hv b' ?_
  rw [(Run.start hstart).run_address hown, haddress]
  exact hev

def sampleCommit (a : Address) : Event :=
  .newMessage (sentMessage a .msgCommit (.subject ⟨⟨0, 1⟩, ⟨7⟩⟩) (some (commitSeal a 0 ⟨7⟩)))

def commitRun (voters : List Address) : List (Backend × Event) :=
  (sampleBackend, .newMessage sentProposal) :: voters.map fun a => (sampleBackend, sampleCommit a)

/-- The eighth commit vote of eleven validators decides, with a certificate. -/
theorem certified_eighth_commit : ∃ c,
    Core.start defaultConfig ⟨11⟩ ⟨100⟩ sampleBackend = some c ∧
      CertifiedStep (c.run (commitRun (witnessGroup 7))) sampleBackend (sampleCommit ⟨8⟩) := by
  have hsome : (Core.start defaultConfig ⟨11⟩ ⟨100⟩ sampleBackend).isSome = true := by
    decide +kernel
  obtain ⟨c, hstart⟩ := Option.isSome_iff_exists.mp hsome
  have hown : ∀ e ∈ commitRun (witnessGroup 7), e.2.Own ⟨11⟩ := by decide +kernel
  have htimeless : ∀ e ∈ commitRun (witnessGroup 7), ∀ rv, e.2 ≠ .newChangeRound rv := by
    intro e he rv hrv
    rcases mem_cons.mp he with rfl | he
    · cases hrv
    · obtain ⟨a, -, rfl⟩ := mem_map.mp he
      cases hrv
  have hkeep : Along KeepsVoters c (commitRun (witnessGroup 7)) :=
    .of_forall (fun e he c rv list hev => absurd hev (htimeless e he rv)) c
  exact ⟨c, hstart, run_certified hstart hown hkeep _ (by decide)⟩

def refreshedRun : List (Backend × Event) :=
  let late := quietBackend ((witnessGroup 15).drop 4) sampleTail
  commitRun (witnessGroup 4) ++ List.replicate 46 (sampleBackend, .newChangeRound ⟨0, 1, 0⟩) ++
    [(late, .newChangeRound ⟨0, 1, 0⟩), (late, sampleCommit ⟨5⟩), (late, sampleCommit ⟨6⟩),
      (late, sampleCommit ⟨7⟩)]

def oldestFirst (b : Backend) : Backend :=
  { b with
    walk := List.reverse
    walk_perm := List.reverse_perm }

/-- The commit that follows carries the seals of nodes that are no validators. -/
theorem refreshed_uncertified : ∃ c,
    Core.start defaultConfig ⟨11⟩ ⟨100⟩ sampleBackend = some c ∧
      (∀ e ∈ refreshedRun, e.2.Own ⟨11⟩) ∧ (sampleCommit ⟨8⟩).Own ⟨11⟩ ∧
      ¬CertifiedStep (c.run refreshedRun)
        (oldestFirst (quietBackend ((witnessGroup 15).drop 4) sampleTail)) (sampleCommit ⟨8⟩) := by
  let b := oldestFirst (quietBackend ((witnessGroup 15).drop 4) sampleTail)
  let votes := (witnessGroup 8).map fun a => commitSeal a 0 ⟨7⟩
  have hcheck : (Core.start defaultConfig ⟨11⟩ ⟨100⟩ sampleBackend).any (fun c =>
        .commit ⟨0, 1⟩ ⟨sampleUnit⟩ votes ∉ (c.run refreshedRun).acts ∧
        .commit ⟨0, 1⟩ ⟨sampleUnit⟩ votes ∈
          ((c.run refreshedRun).handleEvent b (sampleCommit ⟨8⟩)).acts ∧
        (⟨1⟩ : Address) ∉ (c.run refreshedRun).valSet.validators) = true := by
    decide +kernel
  have hown : ∀ e ∈ refreshedRun, e.2.Own ⟨11⟩ := by decide +kernel
  obtain ⟨c, hstart, hc⟩ := (Option.any_eq_true _ _).mp hcheck
  obtain ⟨hbefore, hafter, hgone⟩ := of_decide_eq_true hc
  refine ⟨c, hstart, hown, by decide, ?_⟩
  rintro ⟨outs, hacts, hcommit, -⟩
  rw [hacts] at hafter
  have hnew := (mem_append.mp hafter).resolve_right hbefore
  obtain ⟨-, -, signers, -, hvalid, hsigned⟩ := hcommit _ _ _ hnew
  obtain ⟨signer, rest, hfirst, -, rfl⟩ := forall₂_cons_left_iff.mp hsigned
  have hsigner : some (⟨1⟩ : Address) = some signer := hfirst.sender
  cases hsigner
  exact hgone (hvalid _ (.head _))

end Nerthus.Bft
