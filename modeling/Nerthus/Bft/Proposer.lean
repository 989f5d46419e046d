import Nerthus.Bft.RoundChange

/-!
# The proposer of a round

Every path that changes the view computes the proposer anew, from the sorted validators, the
proposer of the tail header and the round. The forced refresh after repeated timeouts does not,
and a new set comes with its first validator as proposer.
-/

namespace Nerthus.Bft

open Core

/-- The proposer that `CalcProposer` would compute for the view of the core. -/
def Core.roundProposer (c : Core) : Address :=
  nextRoundProposer c.valSet.validators c.tail.proposer (uint64 c.current.round)
    (uint64 (c.valSet.height + c.valSet.solt))

def ProposerExact (c : Core) : Prop := c.valSet.proposer = c.roundProposer

/-- A forced refresh that succeeds brings a set whose first validator is the
proposer of the round. -/
def RefreshFits (c : Core) (b : Backend) (ev : Event) : Prop :=
  ∀ rv list, ev = .newChangeRound rv → c.forcesRefresh rv → c.chainAddress.empty = false →
    b.witnesses = some list → c.address ∈ list →
    let vals := ValidatorSet.newDefaultSet c.config (b.tailHeader.number + 1) b.tailHeader.hash
      list c.chainAddress
    vals.validators.getD 0 Address.emptyAddress =
      nextRoundProposer vals.validators b.tailHeader.proposer (uint64 c.current.round)
        (uint64 (vals.height + vals.solt))

def Replica.ProposerExact (r : Replica) : Prop :=
  r.valSet.proposer = nextRoundProposer r.valSet.validators r.tail.proposer
    (uint64 r.current.round) (uint64 (r.valSet.height + r.valSet.solt))

theorem Replica.ProposerExact.frame {r r' : Replica} (h : r.ProposerExact)
    (hval : r'.valSet = r.valSet) (htail : r'.tail = r.tail)
    (hround : r'.current.round = r.current.round) : r'.ProposerExact := by
  unfold Replica.ProposerExact at h ⊢
  rw [hval, htail, hround]
  exact h

theorem Replica.enterRound_proposerExact {r : Replica} (hs : r.Sound) (b : Backend)
    (round : Nat) : (r.enterRound b round).ProposerExact := by
  have hround : (r.nextRound round).round = round :=
    congrArg View.round (Replica.nextRound_view (r := r) round)
  obtain ⟨outs, -, ⟨-, h⟩ | ⟨-, h⟩⟩ := hs.enterRound_cases (b := b) round
  · rw [h]
    change _ = nextRoundProposer _ _ (uint64 (r.nextRound round).round) _
    rw [hround]
    rfl
  · rw [h]
    change _ = nextRoundProposer _ _ (uint64 (r.nextRound round).round) _
    rw [hround]
    rfl

theorem Effect.proposerExact {b : Backend} {r r' : Replica} {ev : Event} (h : Effect b r ev r')
    (hs : r.Sound) (hexact : r.ProposerExact) :
    r'.ProposerExact ∨ ∃ rv list, ev = .newChangeRound rv ∧ r.chainAddress.empty = false ∧
      b.witnesses = some list ∧ r.address ∈ list ∧ r' = r.refresh b list := by
  cases h with
  | proposed => rw [Replica.sendPreprepare_eq]; exact .inl (hexact.frame rfl rfl rfl)
  | accepted => rw [Replica.sendPrepare_eq]; exact .inl (hexact.frame rfl rfl rfl)
  | reaccepted => rw [Replica.sendCommit_eq]; exact .inl (hexact.frame rfl rfl rfl)
  | prepareLocked =>
    rw [Replica.prepare, Replica.sendCommit_eq]
    exact .inl (hexact.frame rfl rfl rfl)
  | commitLocked =>
    rw [Replica.prepare, Replica.sendCommit_eq]
    exact .inl (hexact.frame rfl rfl rfl)
  | roundChanged msg rc =>
    have hs' := hs.addRoundChange rc.view.round msg
    exact .inl (Replica.enterRound_proposerExact hs' b _)
  | sequenceStarted => exact .inl rfl
  | refreshed rv list hchain hlist hme =>
    exact .inr ⟨rv, list, rfl, hchain, hlist, hme, rfl⟩
  | _ => exact .inl (hexact.frame rfl rfl rfl)

variable {evs : List (Backend × Event)} {c : Core}

theorem Core.forceRefresh_replica {b : Backend} {list : List Address}
    (hchain : c.chainAddress.empty = false) (hlist : b.witnesses = some list)
    (hme : c.address ∈ list) : (c.forceRefresh b).replica = c.replica.refresh b list := by
  have hvals : c.validators b none = some (ValidatorSet.newDefaultSet c.config
      (b.tailHeader.number + 1) b.tailHeader.hash list c.chainAddress) := by
    unfold validators
    rw [hlist]
    rfl
  have hperm := ValidatorSet.newDefaultSet_validators_perm c.config (b.tailHeader.number + 1)
    b.tailHeader.hash list c.chainAddress
  have hmem := hperm.mem_iff.mpr hme
  have hsize : (ValidatorSet.newDefaultSet c.config (b.tailHeader.number + 1) b.tailHeader.hash
      list c.chainAddress).size ≠ 0 := by
    intro hzero
    rw [List.length_eq_zero_iff.mp hzero] at hmem
    cases hmem
  unfold forceRefresh refreshValidtors
  rw [if_neg (Bool.eq_false_iff.mp hchain), hvals]
  dsimp only
  rw [if_neg hsize, if_pos (ValidatorSet.getByAddress_iff.mpr hmem)]
  rfl

theorem Run.proposerExact_step (h : Run evs c) (b : Backend) {ev : Event} (hown : ev.Own c.address)
    (hexact : ProposerExact c) : ProposerExact (c.handleEvent b ev) ↔ RefreshFits c b ev := by
  constructor
  · rintro hnext rv list rfl hforces hchain hlist hme
    have hreplica : (c.handleEvent b (.newChangeRound rv)).replica = c.replica.refresh b list :=
      ((handleTimeout_replica rv).2 hforces).trans
        (forceRefresh_replica (c := { c with waitingTimes := uint64 (c.waitingTimes + 1) })
          hchain hlist hme)
    have hrefreshed : (c.handleEvent b (.newChangeRound rv)).replica.ProposerExact := hnext
    rw [hreplica] at hrefreshed
    exact hrefreshed
  · intro hfits
    change (c.handleEvent b ev).replica.ProposerExact
    rcases (h.effect b hown).proposerExact h.sound hexact with hkept |
      ⟨rv, list, rfl, hchain, hlist, hme, hrefresh⟩
    · exact hkept
    by_cases hforces : c.forcesRefresh rv
    · rw [hrefresh]
      exact hfits rv list rfl hforces hchain hlist hme
    have hsame : (c.handleEvent b (.newChangeRound rv)).replica = c.replica :=
      (handleTimeout_replica rv).1 hforces
    rw [hsame]
    exact hexact

theorem Run.proposerExact_iff (h : Run evs c) (hexact : ProposerExact c)
    {more : List (Backend × Event)} (hown : ∀ e ∈ more, e.2.Own c.address) :
    Along (fun c b ev => ProposerExact (c.handleEvent b ev)) c more ↔
      Along RefreshFits c more := by
  induction more generalizing evs c with
  | nil => exact Iff.rfl
  | cons e more ih =>
    obtain ⟨hfirst, hrest⟩ := h.own_cons hown
    have hstep := h.proposerExact_step e.1 hfirst hexact
    have hnext := h.step e.1 hfirst
    constructor
    · rintro ⟨hnow, hlater⟩
      exact ⟨hstep.mp hnow, (ih hnext hnow hrest).mp hlater⟩
    · rintro ⟨hfits, hlater⟩
      have hnow := hstep.mpr hfits
      exact ⟨hnow, (ih hnext hnow hrest).mpr hlater⟩

theorem isProposer_eq_of_exact {c' : Core} (h : ProposerExact c) (h' : ProposerExact c')
    (htail : c.tail = c'.tail) (hview : c.current.view = c'.current.view)
    (hvals : c.valSet.validators = c'.valSet.validators)
    (hheight : c.valSet.height = c'.valSet.height) (hsolt : c.valSet.solt = c'.valSet.solt)
    (a : Address) : c.valSet.isProposer a = c'.valSet.isProposer a := by
  have hround : c.current.round = c'.current.round := congrArg View.round hview
  have hproposer : c.valSet.proposer = c'.valSet.proposer := by
    rw [h, h', roundProposer, roundProposer, htail, hround, hvals, hheight, hsolt]
  unfold ValidatorSet.isProposer
  rw [hproposer]

theorem along_proposerExact_end (hexact : ProposerExact c)
    (h : Along (fun c b ev => ProposerExact (c.handleEvent b ev)) c evs) :
    ProposerExact (c.run evs) := by
  induction evs generalizing c with
  | nil => exact hexact
  | cons e evs ih => exact ih h.1 h.2

/-- In all states of a run the proposer is the one of the round exactly when each forced refresh
happens to bring it first; then nodes with the same tail, validators and view agree on it. -/
theorem run_proposerExact_iff {config : Config} {me chain : Address} {b : Backend} {c : Core}
    (hstart : start config me chain b = some c) {evs : List (Backend × Event)}
    (hown : ∀ e ∈ evs, e.2.Own me) :
    (ProposerExact c ∧ Along (fun c b ev => ProposerExact (c.handleEvent b ev)) c evs ↔
        Along RefreshFits c evs) ∧
      (Along RefreshFits c evs → ∀ c', ProposerExact c' → (c.run evs).tail = c'.tail →
        (c.run evs).current.view = c'.current.view →
        (c.run evs).valSet.validators = c'.valSet.validators →
        (c.run evs).valSet.height = c'.valSet.height →
        (c.run evs).valSet.solt = c'.valSet.solt →
        ∀ a, (c.run evs).valSet.isProposer a = c'.valSet.isProposer a) := by
  obtain ⟨list, -, -, hc⟩ := start_replica hstart
  have hexact : ProposerExact c := by
    change c.replica.ProposerExact
    rw [hc]
    rfl
  rw [← start_address hstart] at hown
  have hiff := (Run.start hstart).proposerExact_iff hexact hown
  refine ⟨⟨fun h => hiff.mp h.2, fun h => ⟨hexact, hiff.mpr h⟩⟩, ?_⟩
  intro hfits c' hc' htail hview hvals hheight hsolt a
  exact isProposer_eq_of_exact (along_proposerExact_end hexact (hiff.mpr hfits)) hc' htail hview
    hvals hheight hsolt a

theorem proposerExact_roundChange : ∃ c,
    start defaultConfig ⟨1⟩ ⟨100⟩ sampleBackend = some c ∧
      Along (fun c b ev => ProposerExact (c.handleEvent b ev)) c roundChangeRun := by
  have hsome : (start defaultConfig ⟨1⟩ ⟨100⟩ sampleBackend).isSome = true := by
    decide +kernel
  obtain ⟨c, hstart⟩ := Option.isSome_iff_exists.mp hsome
  have hown : ∀ e ∈ roundChangeRun, e.2.Own ⟨1⟩ := by decide +kernel
  have hfits : Along RefreshFits c roundChangeRun := by
    refine .of_forall (fun e he c rv list hev => ?_) c
    obtain ⟨a, -, rfl⟩ := List.mem_map.mp he
    cases hev
  exact ⟨c, hstart, ((run_proposerExact_iff hstart hown).1.mpr hfits).2⟩

def timeoutRun : List (Backend × Event) :=
  List.replicate 47 (sampleBackend, .newChangeRound ⟨0, 1, 0⟩)

/-- After the 47th timeout the node takes the first validator for the proposer, where one that has
just started expects the ninth. -/
theorem proposer_lost_by_refresh : ∃ c,
    start defaultConfig ⟨1⟩ ⟨100⟩ sampleBackend = some c ∧
      (∀ e ∈ timeoutRun, e.2.Own ⟨1⟩) ∧ ¬ProposerExact (c.run timeoutRun) ∧
      (c.run timeoutRun).tail = c.tail ∧ (c.run timeoutRun).current.view = c.current.view ∧
      (c.run timeoutRun).valSet.validators = c.valSet.validators ∧
      (c.run timeoutRun).valSet.isProposer ⟨1⟩ = true ∧ c.valSet.isProposer ⟨9⟩ = true := by
  have hcheck : (start defaultConfig ⟨1⟩ ⟨100⟩ sampleBackend).any (fun c =>
        (c.run timeoutRun).valSet.proposer ≠ (c.run timeoutRun).roundProposer ∧
        (c.run timeoutRun).tail = c.tail ∧ (c.run timeoutRun).current.view = c.current.view ∧
        (c.run timeoutRun).valSet.validators = c.valSet.validators ∧
        (c.run timeoutRun).valSet.isProposer ⟨1⟩ = true ∧
        c.valSet.isProposer ⟨9⟩ = true) = true := by
    decide +kernel
  obtain ⟨c, hstart, hc⟩ := (Option.any_eq_true _ _).mp hcheck
  have hlost := of_decide_eq_true hc
  exact ⟨c, hstart, by decide +kernel, hlost⟩

end Nerthus.Bft
