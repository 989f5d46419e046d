import Nerthus.Sc.Membership

/-!
# Histories of the groups

Every way in which the contract lets somebody join, leave or step back, in any
order. A call that fails is undone as a whole.
-/

namespace Nerthus.Sc

open Core (Bytes)
open StateDB

/-- Applications, the three ways to `onWitnessExit`, and demotions. -/
inductive MemberStep where
  | apply (sender : Address) (value unitNumber : Nat) (publicKey : Bytes) (isSys : Bool)
  | remove (call : Call) (w : Address) (isTimeout : Bool)
  | cancel (call : Call) (gas : Nat) (w : Address)
  | blackList (call : Call) (gas : Nat) (w : Address)
  | demote (w : Address)
deriving DecidableEq

variable {db db' : StateDB}

namespace MemberStep

def run (env : Env) (db : StateDB) : MemberStep → Except Err StateDB
  | apply sender value unitNumber publicKey isSys =>
    db.applyWitness env sender value unitNumber publicKey isSys
  | remove call w isTimeout => db.removeWitness env call w isTimeout
  | cancel call gas w => do
    let r ← db.cancelWitness env call gas w
    return r.1
  | blackList call gas w => do
    let r ← db.removeChainWitness env call gas w true
    return r.1
  | demote w => db.demoteWitness env w

def exits : MemberStep → Option Address
  | remove _ w _ | cancel _ _ w | blackList _ _ w => some w
  | apply .. | demote _ => none

def after (env : Env) (db : StateDB) (s : MemberStep) : StateDB :=
  match s.run env db with
  | .ok db' => db'
  | .error _ => db

theorem run_cases {env : Env} {s : MemberStep} (hdb : db.Consistent) (h : s.run env db = .ok db') :
    (∃ a item, s.exits = none ∧ item.status = some .normal ∧ item.flag = true ∧
      db.Joined db' a item) ∨
    (∃ w status number db₁, s.exits = some w ∧ (db.witness w).status = some .normal ∧
      status ≠ .normal ∧ (∃ balance, db₁ = { db with balance := balance }) ∧
      db₁.Exited db' w status number) ∨
    (s.exits = none ∧ db.Demoted db') := by
  cases s with
  | apply sender value unitNumber publicKey isSys =>
    obtain ⟨g, -, hjoined⟩ := applyWitness_spec hdb h
    exact .inl ⟨sender, _, rfl, rfl, rfl, hjoined⟩
  | remove call w isTimeout =>
    obtain ⟨hnormal, hexit⟩ := removeWitness_spec hdb h
    exact .inr (.inl ⟨w, _, _, _, rfl, hnormal, by simp, ⟨_, rfl⟩, hexit⟩)
  | cancel call gas w =>
    obtain ⟨⟨db₁, gas'⟩, hrun, hend⟩ := Lib.bind_eq_ok_iff.mp h
    cases hend
    obtain ⟨hnormal, hexit⟩ := cancelWitness_spec hdb hrun
    exact .inr (.inl ⟨w, _, _, _, rfl, hnormal, by simp, ⟨_, rfl⟩, hexit⟩)
  | blackList call gas w =>
    obtain ⟨⟨db₁, gas'⟩, hrun, hend⟩ := Lib.bind_eq_ok_iff.mp h
    cases hend
    obtain ⟨hnormal, hexit⟩ := removeChainWitness_bad hdb hrun
    exact .inr (.inl ⟨w, _, _, db, rfl, hnormal, by simp, ⟨_, rfl⟩, hexit⟩)
  | demote w => exact .inr (.inr ⟨rfl, demoteWitness_spec hdb h⟩)

theorem frame {env : Env} {s : MemberStep} (hdb : db.Consistent) (h : s.run env db = .ok db') :
    db'.Consistent ∧
      (∀ key, (∀ g, key ≠ witnessSetKey g) → key ≠ [allWitenssKey] → db'.sets key = db.sets key) ∧
      db'.arbitrationResult = db.arbitrationResult ∧ db'.chain = db.chain := by
  rcases run_cases hdb h with
    ⟨a, item, -, -, -, hjoined⟩ | ⟨w, status, number, db₁, -, -, -, ⟨balance, rfl⟩, hexit⟩ |
      ⟨-, hdemoted⟩
  · refine ⟨hjoined.consistent, hjoined.sets, ?_, ?_⟩ <;> rw [hjoined.rest]
  · refine ⟨hexit.consistent, fun key hkey _ => hexit.sets key hkey, ?_, ?_⟩ <;> rw [hexit.rest]
  · refine ⟨hdemoted.consistent, fun key hkey _ => hdemoted.sets key hkey, ?_, ?_⟩ <;>
      rw [hdemoted.rest]

structure Inv (db : StateDB) : Prop where
  consistent : db.Consistent
  counter : db.activeWitness = db.memberCount

theorem inv_blank : Inv .blank :=
  ⟨consistent_blank, rfl⟩

theorem inv_after (env : Env) (s : MemberStep) (h : Inv db) : Inv (s.after env db) := by
  rw [after]
  cases hrun : s.run env db with
  | error e => exact h
  | ok db' =>
    have hcounter := h.counter
    rcases run_cases h.consistent hrun with
      ⟨a, item, -, -, -, hjoined⟩ | ⟨w, status, number, db₁, -, -, -, ⟨balance, rfl⟩, hexit⟩ |
        ⟨-, hdemoted⟩
    · refine ⟨hjoined.consistent, ?_⟩
      rw [hjoined.activeWitness, hjoined.memberCount, hcounter]
    · refine ⟨hexit.consistent, ?_⟩
      have hmembers : db'.memberCount + 1 = db.memberCount := hexit.memberCount
      have hactive : db'.activeWitness = db.activeWitness - 1 := hexit.activeWitness
      dsimp only
      omega
    · refine ⟨hdemoted.consistent, ?_⟩
      rw [hdemoted.memberCount, ← hcounter, hdemoted.rest]

theorem inv_history (env : Env) (steps : List MemberStep) : Inv (steps.foldl (after env) .blank) := by
  suffices h : ∀ db, Inv db → Inv (steps.foldl (after env) db) from h _ inv_blank
  induction steps with
  | nil => exact fun db hdb => hdb
  | cons s rest ih => exact fun db hdb => ih _ (inv_after env s hdb)

/-- In every history who works stands once in the set of the group that the record names, nobody
else stands in a set, no group is too large or beyond the number of groups, the counter counts the
members, and whoever works can leave: the repair ends. -/
theorem groups_wellFormed (env : Env) (steps : List MemberStep) :
    let db := steps.foldl (after env) .blank
    (∀ a, (db.witness a).status = some .normal → ∀ g,
      (db.getWitnessListAt g).count a = if g = (db.witness a).groupIndex then 1 else 0) ∧
    (∀ a g, a ∈ db.getWitnessListAt g → (db.witness a).status = some .normal) ∧
    (∀ g, g ≠ defSysGroupIndex → db.getWitnessCountAt g ≤ Params.configParamsUCWitness) ∧
    db.getWitnessCountAt defSysGroupIndex ≤ Params.configParamsSCWitnessCap ∧
    (∀ g, db.getWitnessCountAt g ≠ 0 → g < db.getWitnessGroupCount) ∧
    db.activeWitness = ∑ g ∈ Finset.range db.getWitnessGroupCount, db.getWitnessCountAt g ∧
    (∀ a, (db.witness a).status = some .normal → ∀ status, status ≠ .normal → ∀ number,
      ∃ db', (db.delWitnessInfo a number status).cancelWitnessFromWitnessGroup env a
        (db.witness a).groupIndex = .ok db') := by
  intro db
  have hinv : Inv db := inv_history env steps
  have hdb := hinv.consistent
  refine ⟨fun a hnormal g => ?_, fun a g hmem => ((hdb.mem_iff a g).mp hmem).1, hdb.user,
    hdb.system, hdb.below, hinv.counter, fun a hnormal status hstatus number => ?_⟩
  · have hnodup := nodup_getWitnessListAt (hdb.faithful g)
    have hmem := hdb.mem_iff a g
    by_cases hg : g = (db.witness a).groupIndex
    · rw [if_pos hg]
      exact List.count_eq_one_of_mem hnodup (hmem.mpr ⟨hnormal, hg.symm⟩)
    · rw [if_neg hg]
      exact List.count_eq_zero_of_not_mem fun h => hg (hmem.mp h).2.symm
  · obtain ⟨index, hexist⟩ := hdb.exist ((hdb.mem_iff a _).mpr ⟨hnormal, rfl⟩)
    obtain ⟨db', heq, -, -⟩ := fixWitnessGroup_spec env
      (consistent_exit number hdb hnormal hstatus hexist) (db.witness a).groupIndex
      (count_exit_ne hdb hexist)
    refine ⟨db', ?_⟩
    have hexist' : StateSet.exist ((db.delWitnessInfo a number status).getWitnessSet
        (db.witness a).groupIndex) a.toHash = some index := hexist
    rw [cancelWitnessFromWitnessGroup, hexist']
    exact heq

/-! ## Roles -/

/-- The questions after the role of a system witness are answered from its group. -/
def RolesAgree (db : StateDB) : Prop :=
  ∀ w, (db.isMainSystemWitness w = true ↔ w ∈ db.getSystemMainWitness) ∧
    (db.isSystemWitness w = true ↔ w ∈ db.getWitnessListAt defSysGroupIndex)

def Former (db : StateDB) : Prop :=
  ∃ w, (db.witness w).flag = true ∧ (db.witness w).groupIndex = 0 ∧
    (db.witness w).status ≠ some .normal

theorem rolesAgree_iff_not_former (hdb : db.Consistent) : RolesAgree db ↔ ¬Former db := by
  have hflag : ∀ w, (db.witness w).status = some .normal → (db.witness w).flag = true :=
    fun w hnormal => (hdb.flag w).mpr (by simp [hnormal])
  constructor
  · rintro hagree ⟨w, hwflag, hgroup, hstatus⟩
    have hsystem := (hagree w).2.mp (isSystemWitness_iff.mpr ⟨hwflag, hgroup⟩)
    exact hstatus ((hdb.mem_iff w 0).mp hsystem).1
  · intro hformer w
    have hsystem : db.isSystemWitness w = true ↔ w ∈ db.getWitnessListAt 0 := by
      rw [isSystemWitness_iff, hdb.mem_iff]
      constructor
      · rintro ⟨hwflag, hgroup⟩
        refine ⟨?_, hgroup⟩
        by_contra hstatus
        exact hformer ⟨w, hwflag, hgroup, hstatus⟩
      · rintro ⟨hnormal, hgroup⟩
        exact ⟨hflag w hnormal, hgroup⟩
    refine ⟨?_, hsystem⟩
    rw [isMainSystemWitness_iff, mem_getSystemMainWitness (hdb.faithful 0), hsystem]

/-- A former system witness stays one, and only an exit from the system group makes one. -/
theorem former_run_iff {env : Env} {s : MemberStep} (hdb : db.Consistent)
    (h : s.run env db = .ok db') :
    Former db' ↔ Former db ∨ ∃ w, s.exits = some w ∧ (db.witness w).groupIndex = 0 := by
  rcases run_cases hdb h with
    ⟨a, item, hexits, hnormal, -, hjoined⟩ |
      ⟨w, status, number, db₁, hexits, hwnormal, hstatus, ⟨balance, rfl⟩, hexit⟩ |
        ⟨hexits, hdemoted⟩
  · -- the new witness works, the others are what they were
    simp only [hexits, reduceCtorEq, false_and, exists_false, or_false]
    constructor
    · rintro ⟨w, hflag, hgroup, hwstatus⟩
      by_cases hw : w = a
      · subst hw
        rw [hjoined.self] at hwstatus
        exact absurd hnormal hwstatus
      · rw [hjoined.other w hw] at hflag hgroup hwstatus
        exact ⟨w, hflag, hgroup, hwstatus⟩
    · rintro ⟨w, hflag, hgroup, hwstatus⟩
      have hw : w ≠ a := fun heq => by
        rw [heq, hjoined.fresh] at hflag
        cases hflag
      refine ⟨w, ?_⟩
      rw [hjoined.other w hw]
      exact ⟨hflag, hgroup, hwstatus⟩
  · have hself := hexit.self
    have hother := hexit.other
    have hgroups : ∀ b, (db'.witness b).groupIndex = 0 ↔ (db.witness b).groupIndex = 0 :=
      hexit.groupIndex
    have hwflag : (db.witness w).flag = true := (hdb.flag w).mpr (by simp [hwnormal])
    constructor
    · rintro ⟨b, hflag, hgroup, hbstatus⟩
      by_cases hb : b = w
      · subst hb
        exact .inr ⟨b, hexits, (hgroups b).mp hgroup⟩
      · rw [hother b hb] at hflag hbstatus
        exact .inl ⟨b, hflag, (hgroups b).mp hgroup, hbstatus⟩
    · rintro (⟨b, hflag, hgroup, hbstatus⟩ | ⟨b, hb, hgroup⟩)
      · have hb : b ≠ w := fun heq => hbstatus (heq ▸ hwnormal)
        refine ⟨b, ?_, (hgroups b).mpr hgroup, ?_⟩
        · rw [hother b hb]
          exact hflag
        · rw [hother b hb]
          exact hbstatus
      · rw [hexits] at hb
        cases hb
        refine ⟨w, ?_, (hgroups w).mpr hgroup, ?_⟩
        · rw [hself]
          exact hwflag
        · rw [hself]
          exact fun heq => hstatus (Option.some.inj heq)
  · have hwitness : db'.witness = db.witness := by
      rw [hdemoted.rest]
    simp only [Former, hwitness, hexits, reduceCtorEq, false_and, exists_false, or_false]

/-- No call of the history that succeeds lets a witness of the system group leave. -/
def NoSystemExit (env : Env) : StateDB → List MemberStep → Prop
  | _, [] => True
  | db, s :: rest =>
    ((s.run env db).isOk = true → ∀ w, s.exits = some w → (db.witness w).groupIndex ≠ 0) ∧
      NoSystemExit env (s.after env db) rest

theorem former_history_iff (env : Env) (steps : List MemberStep) (db : StateDB) (hdb : Inv db) :
    ¬Former (steps.foldl (after env) db) ↔ ¬Former db ∧ NoSystemExit env db steps := by
  induction steps generalizing db with
  | nil => simp [NoSystemExit]
  | cons s rest ih =>
    rw [List.foldl_cons, ih _ (inv_after env s hdb), NoSystemExit, ← and_assoc]
    have hstep : ¬Former (s.after env db) ↔ ¬Former db ∧
        ((s.run env db).isOk = true → ∀ w, s.exits = some w → (db.witness w).groupIndex ≠ 0) := by
      rw [after]
      cases hrun : s.run env db with
      | error e => simp [Except.isOk, Except.toBool]
      | ok db' =>
        rw [former_run_iff hdb.consistent hrun]
        simp [Except.isOk, Except.toBool]
    rw [hstep]

/-- The role predicates agree with the system group exactly if nobody has left it: a logout or the
black list leaves the group index, and the missing position counts as a small one. -/
theorem rolesAgree_iff_noSystemExit (env : Env) (steps : List MemberStep) :
    RolesAgree (steps.foldl (after env) .blank) ↔ NoSystemExit env .blank steps := by
  have hblank : ¬Former .blank := by
    rintro ⟨w, hflag, -, -⟩
    cases hflag
  rw [rolesAgree_iff_not_former (inv_history env steps).consistent,
    former_history_iff env steps .blank inv_blank]
  exact and_iff_right hblank

end MemberStep

namespace Sample

def env : Env where
  scAccount := ⟨1⟩
  foundationAccount := ⟨2⟩
  publicPrivateKeyAddr := ⟨3⟩
  genesisHash := ⟨4⟩
  voteSender _ := .error (.other "invalid signature")
  chooseSender _ := .error (.other "invalid signature")
  getUnitState _ := .error (.other "unknown unit")
  sliceStable _ groups := groups
  sliceStable_perm _ groups := .refl groups

def witnessA : Address := ⟨100⟩

def history : List MemberStep :=
  [.apply witnessA 0 0 [1] true, .remove ⟨witnessA, witnessA, 5⟩ witnessA false]

/-- The witness is no member of the system group, and still counts as a main system witness. -/
theorem former_is_main : let db := history.foldl (MemberStep.after env) .blank
    db.isMainSystemWitness witnessA = true ∧ db.isSystemWitness witnessA = true ∧
      witnessA ∉ db.getSystemMainWitness ∧ witnessA ∉ db.getWitnessListAt defSysGroupIndex := by
  decide +kernel

end Sample

end Nerthus.Sc
