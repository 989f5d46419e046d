import Nerthus.Sc.Types
import Nerthus.Lib.Runs

/-!
# The chains of a witness

`WitnessSchedule` caches for which chains its node is a witness. The caches follow the events
of the units of the system chain, but a chain that is in the black list already is not taken
out of them when its witnesses are to be replaced.
-/

namespace Nerthus.Witness

open Lib
open Sc (ChainStatus)
open Function

variable {κ γ : Type} [DecidableEq κ]

/-- What the state after a system unit says of the chains and of the witness itself. -/
structure ChainView (κ γ : Type) where
  group : κ → Option γ
  status : κ → ChainStatus
  mine : γ

inductive ScLog (κ γ : Type) where
  | normal (chain : κ) (group : γ) (first : Bool)
  | underway (chain : κ)
  /-- `WitnessGroupChangedEvent` of the witness itself. -/
  | moved (group : γ)
  | other

def ChainView.after (v : ChainView κ γ) : ScLog κ γ → ChainView κ γ
  | .normal chain group _ =>
    { v with
      group := update v.group chain (some group)
      status := update v.status chain .normal }
  | .underway chain => { v with status := update v.status chain .witnessReplaceUnderway }
  | .moved group => { v with mine := group }
  | .other => v

/-- `WitnessSchedule` of a user witness, and the system units whose events it has yet to
process. -/
structure WitnessSchedule (κ γ : Type) where
  curWitnessGroup : γ
  myChainCache : κ → Bool
  notMyChainCache : κ → Bool
  black : κ → Bool
  /-- The state after the logs that were handled, and after the last unit stored. -/
  done : ChainView κ γ
  tail : ChainView κ γ
  pending : List (List (ScLog κ γ))

namespace WitnessSchedule

inductive Event (κ γ : Type) where
  | store (logs : List (ScLog κ γ))
  /-- The next log of the first unit is handled, or the unit has no more. -/
  | process
  | query (chain : κ)
  | stopChain (chain : κ)
  | recoverChain (chain : κ)

def start (v : ChainView κ γ) : WitnessSchedule κ γ :=
  ⟨v.mine, fun _ => false, fun _ => false, fun _ => false, v, v, []⟩

def updateMyUser (s : WitnessSchedule κ γ) (user : κ) (isMy : Bool) : WitnessSchedule κ γ :=
  { s with
    myChainCache := update s.myChainCache user isMy
    notMyChainCache := update s.notMyChainCache user !isMy }

def setBlack (s : WitnessSchedule κ γ) (chain : κ) (b : Bool) : WitnessSchedule κ γ :=
  { s with black := update s.black chain b }

variable [DecidableEq γ] (s : WitnessSchedule κ γ)

def myIsUserWitness (user : κ) : Bool × WitnessSchedule κ γ :=
  if s.notMyChainCache user then (false, s)
  else if s.myChainCache user then (true, s)
  else
    match s.tail.group user with
    | none => (false, s)
    | some index =>
      let isMyUser := decide (s.curWitnessGroup = index ∧ s.tail.status user = .normal)
      (isMyUser, s.updateMyUser user isMyUser)

/-- One turn of the loop of `processCheckReplaceWitness`. -/
def handleLog : ScLog κ γ → WitnessSchedule κ γ
  | .underway chain =>
    -- `stopChain` says whether the chain was not yet in the black list
    if s.black chain then s else (s.setBlack chain true).updateMyUser chain false
  | .normal chain group first =>
    let isMyUser := decide (group = s.curWitnessGroup)
    let s := s.updateMyUser chain isMyUser
    if first then s else s.setBlack chain !isMyUser
  | .moved _ =>
    { s with
      curWitnessGroup := s.tail.mine
      myChainCache := fun _ => false
      notMyChainCache := fun _ => false
      black := fun _ => false }
  | .other => s

def step : Event κ γ → Option (WitnessSchedule κ γ)
  | .store logs =>
    some { s with tail := logs.foldl ChainView.after s.tail, pending := s.pending ++ [logs] }
  | .process =>
    match s.pending with
    | [] => none
    | [] :: pending => some { s with pending }
    | (log :: logs) :: pending =>
      some { s.handleLog log with done := s.done.after log, pending := logs :: pending }
  | .query chain => some (s.myIsUserWitness chain).2
  | .stopChain chain => some (s.setBlack chain true)
  | .recoverChain chain => some (s.setBlack chain false)

/-- No chain that is kept as the witness's own is in the black list when its replacement
starts. -/
def Removable : ScLog κ γ → Prop
  | .underway chain => s.black chain = true → s.myChainCache chain = false
  | _ => True

def Orderly : Event κ γ → Prop
  | .store _ => s.pending = []
  | .process => ∀ logs ∈ s.pending.head?, ∀ log ∈ logs.head?, s.Removable log
  | _ => True

def Right : Prop :=
  ∀ chain, (s.myIsUserWitness chain).1 = true ↔
    s.done.group chain = some s.done.mine ∧ s.done.status chain = .normal

/-! ## The caches agree with a state -/

variable {s s' : WitnessSchedule κ γ} {v : ChainView κ γ} {chain : κ} {logs : List (ScLog κ γ)}

omit [DecidableEq κ] [DecidableEq γ] in
def IsMine (group : γ) (v : ChainView κ γ) (chain : κ) : Prop :=
  v.group chain = some group ∧ v.status chain = .normal

def Agrees (s : WitnessSchedule κ γ) (v : ChainView κ γ) (chain : κ) : Prop :=
  (s.myChainCache chain = true → IsMine s.curWitnessGroup v chain) ∧
    (s.notMyChainCache chain = true → ¬IsMine s.curWitnessGroup v chain)

/-- While the logs from `v` to the tail are processed, the caches are those of the state so far or
of the tail. -/
structure Follows (s : WitnessSchedule κ γ) (v : ChainView κ γ) (logs : List (ScLog κ γ)) : Prop where
  tail : s.tail = logs.foldl ChainView.after v
  group : s.curWitnessGroup = v.mine ∨ s.curWitnessGroup = s.tail.mine
  agrees : ∀ chain, s.Agrees v chain ∨ s.Agrees s.tail chain

omit [DecidableEq γ] in
theorem agrees_updateMyUser {isMy : Bool} {user : κ}
    (h : chain = user → (isMy = true ↔ IsMine s.curWitnessGroup v chain))
    (hother : chain ≠ user → s.Agrees v chain) : (s.updateMyUser user isMy).Agrees v chain := by
  unfold Agrees updateMyUser
  by_cases heq : chain = user
  · subst heq
    dsimp only
    rw [update_self, update_self]
    exact ⟨fun hc => (h rfl).mp hc, fun hc hm => by simp [(h rfl).mpr hm] at hc⟩
  · dsimp only
    rw [update_of_ne heq, update_of_ne heq]
    exact hother heq

omit [DecidableEq γ] in
theorem Follows.log {log : ScLog κ γ} {user : κ} (h : Follows s v (log :: logs))
    (hmine : (v.after log).mine = v.mine) (hsame : s'.tail = s.tail)
    (hgroup : s'.curWitnessGroup = s.curWitnessGroup)
    (hother : ∀ chain ≠ user, (v.after log).group chain = v.group chain ∧
      (v.after log).status chain = v.status chain ∧ ∀ w, s.Agrees w chain → s'.Agrees w chain)
    (huser : s'.Agrees (v.after log) user) : Follows s' (v.after log) logs := by
  refine ⟨hsame.trans h.tail, ?_, fun chain => ?_⟩
  · rw [hgroup, hsame, hmine]
    exact h.group
  · by_cases heq : chain = user
    · exact .inl (heq ▸ huser)
    obtain ⟨hgroups, hstatus, hagrees⟩ := hother chain heq
    rw [hsame]
    refine (h.agrees chain).imp (fun hag => hagrees _ ?_) (hagrees _)
    unfold Agrees IsMine
    rw [hgroups, hstatus]
    exact hag

theorem Follows.handleLog {log : ScLog κ γ} (h : Follows s v (log :: logs))
    (hfree : s.Removable log) : Follows (s.handleLog log) (v.after log) logs := by
  have hkeep : ∀ {user chain : κ} {isMy : Bool}, chain ≠ user → ∀ w : ChainView κ γ,
      s.Agrees w chain → (s.updateMyUser user isMy).Agrees w chain :=
    fun hne w hag => agrees_updateMyUser (fun heq => absurd heq hne) fun _ => hag
  cases log with
  | normal user group first =>
    have huser : (s.updateMyUser user (group = s.curWitnessGroup)).Agrees
        (v.after (.normal user group first)) user := by
      refine agrees_updateMyUser (fun _ => ?_) fun hne => absurd rfl hne
      simp [IsMine, ChainView.after]
    have hgroup : ∀ chain ≠ user, (v.after (.normal user group first)).group chain = v.group chain :=
      fun chain hne => update_of_ne hne _ _
    have hstatus : ∀ chain ≠ user, (v.after (.normal user group first)).status chain =
        v.status chain := fun chain hne => update_of_ne hne _ _
    cases first with
    | true =>
      exact h.log rfl rfl rfl (fun chain hne => ⟨hgroup chain hne, hstatus chain hne, hkeep hne⟩) huser
    | false =>
      exact h.log rfl rfl rfl (fun chain hne => ⟨hgroup chain hne, hstatus chain hne, hkeep hne⟩) huser
  | underway user =>
    have hstopped : ¬IsMine s.curWitnessGroup (v.after (.underway user)) user := by
      simp [IsMine, ChainView.after]
    have hstatus : ∀ chain ≠ user, (v.after (.underway user)).status chain = v.status chain :=
      fun chain hne => update_of_ne hne _ _
    change Follows (if s.black user then s else (s.setBlack user true).updateMyUser user false) _ _
    split
    · next hblack =>
      refine h.log rfl rfl rfl (fun chain hne => ⟨rfl, hstatus chain hne, fun _ => id⟩) ?_
      exact ⟨fun hmy => absurd hmy (by simp [hfree hblack]), fun _ => hstopped⟩
    · refine h.log rfl rfl rfl (fun chain hne => ⟨rfl, hstatus chain hne, hkeep hne⟩) ?_
      exact agrees_updateMyUser (fun _ => ⟨nofun, fun hm => absurd hm hstopped⟩) fun hne => absurd rfl hne
  | moved group => exact ⟨h.tail, .inr rfl, fun _ => .inl ⟨nofun, nofun⟩⟩
  | other => exact ⟨h.tail, h.group, h.agrees⟩

theorem Follows.query (h : Follows s v logs) : Follows (s.myIsUserWitness chain).2 v logs := by
  unfold myIsUserWitness
  split
  · exact h
  split
  · exact h
  split
  · exact h
  · next index hindex =>
    refine ⟨h.tail, h.group, fun c => ?_⟩
    by_cases heq : c = chain
    · refine .inr (agrees_updateMyUser (fun _ => ?_) fun hne => absurd heq hne)
      change _ ↔ s.tail.group c = some s.curWitnessGroup ∧ s.tail.status c = .normal
      rw [heq, decide_eq_true_iff, hindex, Option.some_inj, eq_comm]
    · exact (h.agrees c).imp (fun hag => agrees_updateMyUser (fun he => absurd he heq) fun _ => hag)
        fun hag => agrees_updateMyUser (fun he => absurd he heq) fun _ => hag

structure Inv (s : WitnessSchedule κ γ) : Prop where
  single : s.pending.length ≤ 1
  follows : Follows s s.done s.pending.flatten

theorem myIsUserWitness_rest (s : WitnessSchedule κ γ) (chain : κ) :
    (s.myIsUserWitness chain).2.done = s.done ∧
    (s.myIsUserWitness chain).2.pending = s.pending := by
  unfold myIsUserWitness
  split
  · exact ⟨rfl, rfl⟩
  split
  · exact ⟨rfl, rfl⟩
  split <;> exact ⟨rfl, rfl⟩

theorem Inv.step {e : Event κ γ} (h : Inv s) (hok : s.Orderly e) (hstep : s.step e = some s') :
    Inv s' := by
  cases e with
  | store logs =>
    cases hstep
    have hpending : s.pending = [] := hok
    have htail : s.tail = s.done := by
      have := h.follows.tail
      rwa [hpending] at this
    refine ⟨by simp [hpending], ?_, ?_, fun chain => .inl ?_⟩
    · simp [hpending, htail]
    · exact .inl (h.follows.group.elim id fun heq => heq.trans (congrArg _ htail))
    · exact (h.follows.agrees chain).elim id fun hag => htail ▸ hag
  | process =>
    rw [WitnessSchedule.step] at hstep
    have hsingle := h.single
    have hfollows := h.follows
    split at hstep
    · cases hstep
    · next pending hpending =>
      cases hstep
      rw [hpending] at hsingle hfollows
      exact ⟨Nat.le_of_succ_le hsingle, hfollows.tail, hfollows.group, hfollows.agrees⟩
    · next log logs pending hpending =>
      cases hstep
      rw [hpending] at hsingle hfollows
      have hnext := hfollows.handleLog (hok _ (by rw [hpending]; rfl) log rfl)
      exact ⟨hsingle, hnext.tail, hnext.group, hnext.agrees⟩
  | query chain =>
    cases hstep
    obtain ⟨hdone, hpending⟩ := s.myIsUserWitness_rest chain
    refine ⟨hpending ▸ h.single, ?_⟩
    rw [hdone, hpending]
    exact h.follows.query
  | stopChain chain =>
    cases hstep
    exact ⟨h.single, h.follows.tail, h.follows.group, h.follows.agrees⟩
  | recoverChain chain =>
    cases hstep
    exact ⟨h.single, h.follows.tail, h.follows.group, h.follows.agrees⟩

theorem Inv.right (h : Inv s) (hpending : s.pending = []) : Right s := by
  obtain ⟨htail, hgroup, hagrees⟩ := h.follows
  rw [hpending] at htail
  have htail : s.tail = s.done := htail
  rw [htail] at hgroup hagrees
  intro chain
  obtain ⟨hmy, hnot⟩ := (hagrees chain).elim id id
  rw [hgroup.elim id id] at hmy hnot
  change _ ↔ IsMine s.done.mine s.done chain
  unfold myIsUserWitness
  split
  · next hin => exact ⟨nofun, fun hm => absurd hm (hnot hin)⟩
  split
  · next hin => exact ⟨fun _ => hmy hin, fun _ => rfl⟩
  rw [htail, hgroup.elim id id]
  split
  · next hnone => exact ⟨nofun, fun hm => by simp [IsMine, hnone] at hm⟩
  · next index hindex =>
    rw [decide_eq_true_iff, IsMine, hindex, Option.some_inj, eq_comm]

/-- Where no chain is in the black list when its replacement starts, and a unit is processed before
the next is stored, the witness works for its own chains after every unit. -/
theorem works_for_own_chains (v : ChainView κ γ) {s : WitnessSchedule κ γ}
    (h : Reaches step Orderly (start v) s) : s.pending.length ≤ 1 ∧ (s.pending = [] → Right s) := by
  have hstart : Inv (start v) := ⟨Nat.zero_le _, rfl, .inl rfl, fun _ => .inl ⟨nofun, nofun⟩⟩
  have hinv : Inv s := h.invariant hstart fun _ _ _ hinv hok hstep => hinv.step hok hstep
  exact ⟨hinv.single, hinv.right⟩

instance (s : WitnessSchedule κ γ) (log : ScLog κ γ) : Decidable (s.Removable log) := by
  cases log <;> unfold Removable <;> infer_instance

instance (s : WitnessSchedule κ γ) (e : Event κ γ) : Decidable (s.Orderly e) := by
  cases e with
  | store => exact inferInstanceAs (Decidable (s.pending = []))
  | _ => unfold Orderly; infer_instance

def ofGroup : ChainView Nat Nat := ⟨fun c => if c = 7 then some 1 else none, fun _ => .normal, 1⟩

theorem replaced_chain_refused : ∃ s : WitnessSchedule Nat Nat,
    Reaches step Orderly (start ofGroup) s ∧ Right s ∧ (s.myIsUserWitness 7).1 = false := by
  obtain ⟨s, hrun, hpending, hanswer⟩ : ∃ s : WitnessSchedule Nat Nat,
      Reaches step Orderly (start ofGroup) s ∧ s.pending.isEmpty = true ∧
        (s.myIsUserWitness 7).1 = false :=
    Reaches.exists_of_run [.query 7, .store [.other, .underway 7], .process, .query 7, .process,
      .process] (by decide +kernel)
  exact ⟨s, hrun, (works_for_own_chains _ hrun).2 (List.isEmpty_iff.mp hpending), hanswer⟩

/-- Chain 7 was stopped for a bad unit when its replacement starts. -/
theorem replaced_chain_kept : ∃ s : WitnessSchedule Nat Nat,
    Reaches step (fun _ _ => True) (start ofGroup) s ∧ s.pending.isEmpty = true ∧
      (s.myIsUserWitness 7).1 = true ∧ s.done.status 7 = .witnessReplaceUnderway :=
  Reaches.exists_of_run [.query 7, .stopChain 7, .store [.underway 7], .process, .process]
    (by decide +kernel)

end WitnessSchedule

end Nerthus.Witness
