import Nerthus.Sc.Chains

/-!
# Every chain is in its own group

The set of a group holds exactly the chains whose record names it. A chain enters
a set when it has no group, or has just been taken out of the set of its old one.
-/

namespace Nerthus.Sc

open Core (Bytes)
open Lib (bind_eq_ok_iff guard_eq_ok_iff)
open Lib.IndexedSet (Faithful)
open List

variable {db db' : StateDB} {oldIndex : Option Nat}

namespace StateDB

@[simp] theorem chainsSetKey_inj {g g' : Nat} : chainsSetKey g = chainsSetKey g' ↔ g = g' := by
  simp [chainsSetKey]

structure ChainsListed (env : Env) (db : StateDB) : Prop where
  faithful : ∀ g, Faithful (db.sets (chainsSetKey g))
  mem_iff : ∀ c, c ≠ env.scAccount → ∀ g,
    c.toHash ∈ (db.sets (chainsSetKey g)).toList ↔ (db.chain c).groupIndex = g ∧ g ≠ 0
  underway : ∀ c, (db.chain c).applyStatus = some .witnessReplaceUnderway →
    (db.chain c).groupIndex ≠ 0

theorem ChainsListed.congr {env : Env} (h : ChainsListed env db)
    (hsets : ∀ g, db'.sets (chainsSetKey g) = db.sets (chainsSetKey g))
    (hchain : db'.chain = db.chain) : ChainsListed env db' := by
  constructor
  · simpa only [hsets] using h.faithful
  · simpa only [hsets, hchain] using h.mem_iff
  · simpa only [hchain] using h.underway

theorem chainsListed_blank (env : Env) : ChainsListed env .blank where
  faithful g := Lib.IndexedSet.faithful_of_blank rfl fun _ => rfl
  mem_iff c _ g := by
    have hempty : c.toHash ∉ (StateDB.blank.sets (chainsSetKey g)).toList := by
      simp [blank, Lib.IndexedSet.toList]
    constructor
    · intro hc
      exact absurd hc hempty
    · rintro ⟨rfl, hne⟩
      exact absurd rfl hne
  underway c hc := by cases hc

section Move

variable {env : Env} {db db' : StateDB} {a : Address}

def OldGroup (db : StateDB) (a : Address) : Option Nat → Prop
  | some old => (db.chain a).groupIndex = old ∧ old ≠ 0
  | none => (db.chain a).groupIndex = 0

theorem withoutChain_chain (db : StateDB) (a : Address) (oldIndex : Option Nat) :
    (db.withoutChain a oldIndex).chain = db.chain := by
  cases oldIndex with
  | none => rfl
  | some old =>
    rw [withoutChain, cancelChain_eq]
    rfl

theorem withoutChain_sets (db : StateDB) (a : Address) (old g : Nat) :
    (db.withoutChain a (some old)).sets (chainsSetKey g) =
      if g = old then StateSet.erase (db.sets (chainsSetKey g)) a.toHash
      else db.sets (chainsSetKey g) := by
  rw [withoutChain, cancelChain_eq, putSet_sets]
  split_ifs with hkey hg hg <;> simp_all

theorem faithful_withoutChain (h : ChainsListed env db) (oldIndex : Option Nat) (g : Nat) :
    Faithful ((db.withoutChain a oldIndex).sets (chainsSetKey g)) := by
  cases oldIndex with
  | none => exact h.faithful g
  | some old =>
    rw [withoutChain_sets]
    split_ifs
    · exact StateSet.faithful_erase (h.faithful g) _
    · exact h.faithful g

theorem mem_withoutChain (h : ChainsListed env db) (ha : a ≠ env.scAccount)
    (hold : OldGroup db a oldIndex) (g : Nat) (v : Hash) :
    v ∈ ((db.withoutChain a oldIndex).sets (chainsSetKey g)).toList ↔
      v ∈ (db.sets (chainsSetKey g)).toList ∧ v ≠ a.toHash := by
  have helsewhere : (db.chain a).groupIndex ≠ g ∨ g = 0 →
      (v ∈ (db.sets (chainsSetKey g)).toList ↔
        v ∈ (db.sets (chainsSetKey g)).toList ∧ v ≠ a.toHash) := by
    intro hne
    refine ⟨fun hv => ⟨hv, ?_⟩, And.left⟩
    rintro rfl
    obtain ⟨hgroup, hpos⟩ := (h.mem_iff a ha g).mp hv
    exact hne.elim (fun h => h hgroup) hpos
  cases oldIndex with
  | none =>
    refine helsewhere ?_
    by_cases hg : g = 0
    · exact .inr hg
    · exact .inl fun heq => hg (heq ▸ hold)
  | some old =>
    rw [withoutChain_sets]
    split_ifs with hg
    · exact StateSet.mem_erase (h.faithful g)
    · exact helsewhere (.inl fun heq => hg (heq ▸ hold.1))

theorem applyWitnessWithGroup_sets (db : StateDB) (a : Address) (number : Nat)
    (oldIndex : Option Nat) (newIndex chainNumber g : Nat) :
    (db.applyWitnessWithGroup a number oldIndex newIndex chainNumber).sets (chainsSetKey g) =
      if g = newIndex then
        StateSet.add ((db.withoutChain a oldIndex).sets (chainsSetKey newIndex)) a.toHash
      else (db.withoutChain a oldIndex).sets (chainsSetKey g) := by
  change ((db.withoutChain a oldIndex).addTo (chainsSetKey newIndex) a.toHash).sets
    (chainsSetKey g) = _
  rw [addTo_sets]
  simp

structure Settled (item : ChainItem) (group chainNumber : Nat) : Prop where
  groupIndex : item.groupIndex = group
  applyChainNumber : item.applyChainNumber = chainNumber
  applyStatus : item.applyStatus = some .normal

theorem applyWitnessWithGroup_self (db : StateDB) (a : Address) (number : Nat)
    (oldIndex : Option Nat) (newIndex chainNumber : Nat) :
    Settled ((db.applyWitnessWithGroup a number oldIndex newIndex chainNumber).chain a) newIndex
      chainNumber := by
  constructor <;> simp [StateDB.applyWitnessWithGroup, writeChainInfo, writeChainStatus, putChain]

theorem applyWitnessWithGroup_of_ne (db : StateDB) {a c : Address} (hc : c ≠ a) (number : Nat)
    (oldIndex : Option Nat) (newIndex chainNumber : Nat) :
    (db.applyWitnessWithGroup a number oldIndex newIndex chainNumber).chain c = db.chain c := by
  rw [← withoutChain_chain db a oldIndex]
  exact (Function.update_of_ne hc _ _).trans (Function.update_of_ne hc _ _)

theorem ChainsListed.applyWitnessWithGroup (h : ChainsListed env db) (ha : a ≠ env.scAccount)
    (number : Nat) (hold : OldGroup db a oldIndex) {newIndex : Nat} (hnew : newIndex ≠ 0)
    (chainNumber : Nat) :
    ChainsListed env (db.applyWitnessWithGroup a number oldIndex newIndex chainNumber) := by
  have hself := applyWitnessWithGroup_self db a number oldIndex newIndex chainNumber
  have hout : ∀ g, a.toHash ∉ ((db.withoutChain a oldIndex).sets (chainsSetKey g)).toList := by
    intro g hmem
    exact ((mem_withoutChain h ha hold g _).mp hmem).2 rfl
  refine ⟨fun g => ?_, fun c hc g => ?_, fun c hc => ?_⟩
  · rw [applyWitnessWithGroup_sets]
    split_ifs
    · exact StateSet.faithful_add (faithful_withoutChain h oldIndex newIndex) (hout newIndex)
    · exact faithful_withoutChain h oldIndex g
  · rw [applyWitnessWithGroup_sets]
    by_cases hca : c = a
    · subst hca
      rw [hself.groupIndex]
      split_ifs with hg
      · rw [StateSet.toList_add, mem_append, mem_singleton]
        simp [hg, hnew]
      · simp [hout g, Ne.symm hg]
    · have hne : c.toHash ≠ a.toHash := fun heq => hca (Address.toHash_injective heq)
      rw [applyWitnessWithGroup_of_ne db hca, ← h.mem_iff c hc g]
      split_ifs with hg
      · rw [StateSet.toList_add, mem_append, mem_singleton,
          mem_withoutChain h ha hold, hg]
        simp [hne]
      · rw [mem_withoutChain h ha hold]
        simp [hne]
  · by_cases hca : c = a
    · subst hca
      rw [hself.applyStatus] at hc
      cases hc
    · rw [applyWitnessWithGroup_of_ne db hca] at hc ⊢
      exact h.underway c hc

def UserGroups : Nat ⊕ List ChoseGroup → Prop
  | .inl i => i ≠ 0
  | .inr list => ∀ gp ∈ list, gp.index ≠ 0

theorem scanNewGroups_spec (db : StateDB) (oldIndex : Option Nat) (isG : Bool) (minRound : Nat)
    (indexes : List Nat) (list : List ChoseGroup) (hlist : UserGroups (.inr list)) :
    UserGroups (scanNewGroups db oldIndex isG minRound indexes list) := by
  induction indexes generalizing list with
  | nil => exact hlist
  | cons i rest ih =>
    unfold scanNewGroups
    by_cases hskip : i = defSysGroupIndex ∨ oldIndex = some i
    · rw [if_pos hskip]
      exact ih list hlist
    have hi : i ≠ 0 := (not_or.mp hskip).1
    rw [if_neg hskip]
    split_ifs
    · exact hi
    · exact ih list hlist
    · exact ih list hlist
    · exact hi
    · exact ih _ (forall_mem_append.mpr ⟨hlist, forall_mem_singleton.mpr hi⟩)

theorem selectNewGroup_spec {number g : Nat} (h : db.selectNewGroup env oldIndex number a = .ok g) :
    a ≠ env.scAccount ∧ g ≠ 0 := by
  unfold selectNewGroup at h
  by_cases ha : a = env.scAccount
  · rw [if_pos ha] at h
    cases h
  rw [if_neg ha] at h
  split at h
  · cases h
  dsimp only at h
  split at h
  · cases h
  have hscan := scanNewGroups_spec db oldIndex (number == 0)
    (Core.forceSafeSub (calcRound number) 2) (range db.getWitnessGroupCount) []
    fun gp hgp => absurd hgp not_mem_nil
  refine ⟨ha, ?_⟩
  split at h
  · next i heq =>
    rw [heq] at hscan
    cases h
    exact hscan
  · next out heq =>
    rw [heq] at hscan
    have hsorted : ∀ gp ∈ env.sliceStable lowerPriority out, gp.index ≠ 0 := fun gp hgp =>
      hscan gp ((env.sliceStable_perm lowerPriority out).mem_iff.mp hgp)
    split at h
    · cases h
    · next last hlast =>
      split at h
      · next gp hfind =>
        cases h
        exact hsorted gp (mem_reverse.mp (mem_of_find?_eq_some hfind))
      · cases h
        exact hsorted last (mem_of_getLast? hlast)

/-- What a chain that is normal again leaves of the others, and its start number in a new group. -/
structure BackToNormal (env : Env) (db : StateDB) (a : Address) (chainNumber : Nat)
    (db' : StateDB) : Prop where
  listed : ChainsListed env db'
  frame : InChains db db'
  normal : (db'.chain a).applyStatus = some .normal
  start : (db'.chain a).groupIndex ≠ (db.chain a).groupIndex →
    (db'.chain a).applyChainNumber = chainNumber
  other : ∀ c, c ≠ a → db'.chain c = db.chain c

theorem ChainsListed.applyChain (h : ChainsListed env db) {number chainNumber : Nat}
    (hold : OldGroup db a oldIndex)
    (happly : db.applyChainFromWitnessGroup env a number oldIndex chainNumber = .ok db') :
    BackToNormal env db a chainNumber db' := by
  obtain ⟨g, hselect, hrest⟩ := bind_eq_ok_iff.mp happly
  obtain ⟨ha, hg⟩ := selectNewGroup_spec hselect
  cases hrest
  have hself := applyWitnessWithGroup_self db a number oldIndex g chainNumber
  exact ⟨h.applyWitnessWithGroup ha number hold hg chainNumber,
    inChains_applyWitnessWithGroup _ _ _ _ _ _, hself.applyStatus, fun _ => hself.applyChainNumber,
    fun c hc => applyWitnessWithGroup_of_ne db hc _ _ _ _⟩

theorem getGroupIndexFromUser_eq_ok (ha : a ≠ env.scAccount) {g : Nat} :
    db.getGroupIndexFromUser env a = .ok g ↔ (db.chain a).groupIndex = g ∧ g ≠ 0 := by
  rw [getGroupIndexFromUser, if_neg ha]
  split_ifs with hzero
  · constructor
    · intro h
      cases h
    · rintro ⟨rfl, hne⟩
      exact absurd hzero hne
  · constructor
    · intro h
      cases h
      exact ⟨rfl, hzero⟩
    · rintro ⟨rfl, -⟩
      rfl

theorem getGroupIndexFromUser_eq_error (ha : a ≠ env.scAccount) {e : Err}
    (h : db.getGroupIndexFromUser env a = .error e) : (db.chain a).groupIndex = 0 := by
  rw [getGroupIndexFromUser, if_neg ha] at h
  split_ifs at h with hzero
  exact hzero

theorem writeChainStatus_chain (db : StateDB) (a c : Address) (status : ChainStatus) (number : Nat) :
    (db.writeChainStatus a status number).chain c =
      if c = a then { db.chain a with applyStatus := some status, applyStatusNumber := number }
      else db.chain c :=
  Function.update_apply _ _ _ _

theorem ChainsListed.writeChainStatus (h : ChainsListed env db)
    (hgroup : (db.chain a).groupIndex ≠ 0) (status : ChainStatus) (number : Nat) :
    ChainsListed env (db.writeChainStatus a status number) := by
  have hindex : ∀ c, ((db.writeChainStatus a status number).chain c).groupIndex =
      (db.chain c).groupIndex := by
    intro c
    rw [writeChainStatus_chain]
    split_ifs with hc
    · rw [hc]
    · rfl
  refine ⟨h.faithful, fun c hc g => ?_, fun c hc => ?_⟩
  · rw [hindex]
    exact h.mem_iff c hc g
  · rw [hindex]
    by_cases hca : c = a
    · rwa [hca]
    · rw [writeChainStatus_chain, if_neg hca] at hc
      exact h.underway c hc

end Move

/-! ## The calls -/

section Calls

variable {env : Env} {call : Call} {db db' : StateDB} {gas gas' : Nat}

theorem createWitness_listed (h : ChainsListed env db) (hcaller : call.caller ≠ env.scAccount)
    {newContactAddr : Address} {input : TargetInput}
    (hrun : db.createWitness env call gas newContactAddr input = .ok (db', gas')) :
    ChainsListed env db' ∧ InChains db db' := by
  unfold createWitness at hrun
  simp only [bind_eq_ok_iff, guard_eq_ok_iff] at hrun
  obtain ⟨target, -, -, ha, _, -, _, -, hrun⟩ := hrun
  cases hindex : db.getGroupIndexFromUser env target with
  | ok g =>
    rw [hindex] at hrun
    cases hrun
  | error e =>
    have hold : OldGroup db target none := getGroupIndexFromUser_eq_error ha hindex
    rw [hindex] at hrun
    simp only [guard_eq_ok_iff, bind_eq_ok_iff] at hrun
    obtain ⟨-, _, -, db₁, hjoin, hrun⟩ := hrun
    cases hrun
    unfold firstGroup at hjoin
    split at hjoin
    · have hregrouping := h.applyChain hold hjoin
      exact ⟨hregrouping.listed, hregrouping.frame⟩
    -- the group of the caller is one of users, since the caller is not the system account
    obtain ⟨g, hgroup, hjoin⟩ := bind_eq_ok_iff.mp hjoin
    cases hjoin
    exact ⟨h.applyWitnessWithGroup ha _ hold ((getGroupIndexFromUser_eq_ok hcaller).mp hgroup).2 _,
      inChains_applyWitnessWithGroup _ _ _ _ _ _⟩

theorem replaceWitness_listed (h : ChainsListed env db) {target : Address} {replaceByOther : Bool}
    (hrun : db.replaceWitness env call gas target replaceByOther = .ok (db', gas')) :
    ChainsListed env db' ∧ InChains db db' := by
  unfold replaceWitness at hrun
  simp only [guard_eq_ok_iff, bind_eq_ok_iff] at hrun
  obtain ⟨-, ha, _, -, -, _, -, g, hgroup, _, -, _, -, newGroupIndex, -, _, -,
    hrun⟩ := hrun
  cases hrun
  obtain ⟨hindex, hne⟩ := (getGroupIndexFromUser_eq_ok ha).mp hgroup
  exact ⟨h.writeChainStatus (hindex ▸ hne) _ _, inChains_putChain _ _ _⟩

theorem changeGroup_normal (h : ChainsListed env db) {chain : Address} {old chainNumber : Nat}
    (hold : OldGroup db chain (some old))
    (hrun : db.changeGroup env call chain old chainNumber = .ok db') :
    BackToNormal env db chain chainNumber db' := by
  unfold changeGroup at hrun
  split at hrun
  · split_ifs at hrun
    cases hrun
    have hself := writeChainStatus_chain db chain chain .normal call.unitNumber
    rw [if_pos rfl] at hself
    refine ⟨h.writeChainStatus (hold.1 ▸ hold.2) _ _, inChains_putChain _ _ _, ?_, ?_, ?_⟩
    · rw [hself]
    · rw [hself]
      exact fun hne => absurd rfl hne
    · intro c hc
      rw [writeChainStatus_chain, if_neg hc]
  · next hok =>
    cases hrun
    exact h.applyChain hold hok

theorem handleReplaceWitnessExec_normal (h : ChainsListed env db)
    {info : ReplaceWitnessExecuteInput}
    (hrun : db.handleReplaceWitnessExec env call gas info = .ok (db', gas')) :
    (db.chain info.chain).applyStatus = some .witnessReplaceUnderway ∧
      BackToNormal env db info.chain (uint64 (info.choose.height + 1)) db' := by
  have hframe := (handleReplaceWitnessExec_spec hrun).frame
  unfold handleReplaceWitnessExec at hrun
  simp only [bind_eq_ok_iff, guard_eq_ok_iff] at hrun
  obtain ⟨_, -, ⟨⟩, -, _, -, hstatus, -, _, -, ⟨⟩, -, _, -, db₁, hspecial, _, -,
    old, hgroup, hpos, gas₆, -, db₂, hchange, hrun⟩ := hrun
  cases hrun
  have hunderway : (db.chain info.chain).applyStatus = some .witnessReplaceUnderway := by
    unfold getChainStatus at hstatus
    cases happly : (db.chain info.chain).applyStatus with
    | none =>
      rw [happly] at hstatus
      exact absurd ChainStatus.noConfusion hstatus
    | some status =>
      rw [happly] at hstatus
      exact congrArg some (not_not.mp hstatus)
  have ha : info.chain ≠ env.scAccount := by
    intro heq
    rw [getGroupIndexFromUser, if_pos heq] at hgroup
    cases hgroup
    exact hpos rfl
  have hrest := (setSpecialUnitAtChain_spec hspecial).1
  have hchain : db₁.chain = db.chain := by rw [hrest]
  have h₁ : ChainsListed env db₁ := h.congr (fun g => by rw [hrest]) hchain
  obtain ⟨hlisted, -, hnormal, hstart, hother⟩ :=
    changeGroup_normal h₁ ((getGroupIndexFromUser_eq_ok ha).mp hgroup) hchange
  rw [hchain] at hstart hother
  exact ⟨hunderway, hlisted, hframe, hnormal, hstart, hother⟩

/-- A chain whose entry has been handled is normal, so that no later entry is about it. -/
theorem handleEntries_handled (h : ChainsListed env db) (data : List ReplaceWitnessExecuteInput)
    (hrun : handleEntries env call gas db data = .ok (db', gas')) :
    ChainsListed env db' ∧ InChains db db' ∧
      (∀ info ∈ data, (db'.chain info.chain).applyStatus = some .normal ∧
        ((db'.chain info.chain).groupIndex ≠ (db.chain info.chain).groupIndex →
          (db'.chain info.chain).applyChainNumber = uint64 (info.choose.height + 1))) ∧
      ∀ c, (db.chain c).applyStatus = some .normal →
        db'.chain c = db.chain c ∧ ∀ info ∈ data, info.chain ≠ c := by
  induction data generalizing db gas with
  | nil =>
    cases hrun
    exact ⟨h, .refl _, fun info hinfo => absurd hinfo not_mem_nil,
      fun c _ => ⟨rfl, fun info hinfo => absurd hinfo not_mem_nil⟩⟩
  | cons one rest ih =>
    obtain ⟨⟨db₁, gas₁⟩, hone, hrest⟩ := bind_eq_ok_iff.mp hrun
    obtain ⟨hunderway, hhandled⟩ := handleReplaceWitnessExec_normal h hone
    obtain ⟨hlisted, hframe, hinfos, hkept⟩ := ih hhandled.listed hrest
    obtain ⟨hsame, hnomore⟩ := hkept one.chain hhandled.normal
    refine ⟨hlisted, hhandled.frame.trans hframe, fun info hinfo => ?_, fun c hc => ?_⟩
    · rcases mem_cons.mp hinfo with rfl | hmem
      · rw [hsame]
        exact ⟨hhandled.normal, hhandled.start⟩
      · rw [← hhandled.other _ (hnomore info hmem)]
        exact hinfos info hmem
    · have hne : c ≠ one.chain := by
        rintro rfl
        rw [hunderway] at hc
        cases hc
      rw [← hhandled.other c hne] at hc ⊢
      obtain ⟨heq, hrest'⟩ := hkept c hc
      refine ⟨heq, fun info hinfo => ?_⟩
      rcases mem_cons.mp hinfo with rfl | hmem
      · exact hne.symm
      · exact hrest' info hmem

theorem handleApplyWitnessWay2_listed {s : ChainDB} (h : ChainsListed env s.db) {chain : Address}
    (hrun : s.handleApplyWitnessWay2 env call gas chain = .ok (db', gas')) :
    ChainsListed env db' ∧ InChains s.db db' := by
  unfold ChainDB.handleApplyWitnessWay2 at hrun
  simp only [bind_eq_ok_iff, guard_eq_ok_iff] at hrun
  obtain ⟨_, -, -, -, ha, _, -, _, -, -, hrun⟩ := hrun
  cases hindex : s.db.getGroupIndexFromUser env chain with
  | error e =>
    have hold : OldGroup s.db chain none := getGroupIndexFromUser_eq_error ha hindex
    rw [hindex] at hrun
    simp only [guard_eq_ok_iff, bind_eq_ok_iff] at hrun
    obtain ⟨-, _, -, db₁, hjoin, hrun⟩ := hrun
    cases hrun
    have hregrouping := h.applyChain hold hjoin
    exact ⟨hregrouping.listed, hregrouping.frame⟩
  | ok g =>
    rw [hindex] at hrun
    obtain ⟨_, -, hrun⟩ := bind_eq_ok_iff.mp hrun
    obtain ⟨-, hrun⟩ := guard_eq_ok_iff.mp hrun
    exact replaceWitness_listed h hrun

theorem createContract_listed {gen : ChainDB.Generator} {s s' : ChainDB} (h : ChainsListed env s.db)
    (hcaller : call.caller ≠ env.scAccount) {time : Nat} {input : Bytes}
    (hrun : s.createContract env gen call gas time input = .ok (s', gas')) :
    ChainsListed env s'.db ∧ InChains s.db s'.db := by
  unfold ChainDB.createContract at hrun
  simp only [guard_eq_ok_iff, bind_eq_ok_iff] at hrun
  obtain ⟨-, ⟨newAddr, gas₁⟩, -, s₁, hwrite, ⟨db₁, gas₂⟩, hcreate, hrun⟩ := hrun
  cases hrun
  have hdb : s₁.db = s.db := by
    unfold ChainDB.writeChainCreater at hwrite
    split_ifs at hwrite
    cases hwrite
    rfl
  rw [hdb] at hcreate
  exact createWitness_listed h hcaller hcreate

end Calls

end StateDB

open StateDB

structure UserCall (env : Env) extends Call where
  caller_ne : caller ≠ env.scAccount

/-- The calls about the witnesses of chains, and those that change the groups themselves. -/
inductive ChainStep (env : Env) where
  | applyWitness (call : UserCall env) (gas : Nat) (input : TargetInput)
  | applyWitnessWay2 (call : UserCall env) (gas : Nat) (chain : Address)
  | createContract (call : UserCall env) (gas time : Nat) (input : Bytes)
  | replaceWitness (call : UserCall env) (gas : Nat) (input : TargetInput)
  | replaceWitnessExecute (call : UserCall env) (gas : Nat) (data : List ReplaceWitnessExecuteInput)
  | member (s : MemberStep)

namespace ChainStep

variable {env : Env}

def run (gen : ChainDB.Generator) (s : ChainDB) : ChainStep env → Except Err ChainDB
  | applyWitness call gas input => do
    let r ← s.db.applyWitnessForChain env call.toCall gas input
    return { s with db := r.1 }
  | applyWitnessWay2 call gas chain => do
    let r ← s.handleApplyWitnessWay2 env call.toCall gas chain
    return { s with db := r.1 }
  | createContract call gas time input => do
    let r ← s.createContract env gen call.toCall gas time input
    return r.1
  | replaceWitness call gas input => do
    let r ← s.db.replaceWitnessCall env call.toCall gas input
    return { s with db := r.1 }
  | replaceWitnessExecute call gas data => do
    let r ← s.db.replaceWitnessExecute env call.toCall gas data
    return { s with db := r.1 }
  | member step => do
    let db ← step.run env s.db
    return { s with db }

def after (gen : ChainDB.Generator) (s : ChainDB) (step : ChainStep env) : ChainDB :=
  match step.run gen s with
  | .ok s' => s'
  | .error _ => s

/-- The groups agree with the records of the witnesses, the sets of chains with those of chains. -/
structure Inv (env : Env) (db : StateDB) : Prop where
  consistent : Consistent db
  listed : ChainsListed env db

theorem Inv.of_inChains (h : Inv env db) (h' : ChainsListed env db' ∧ InChains db db') :
    Inv env db' :=
  ⟨h'.2.consistent h.consistent, h'.1⟩

theorem member_inv {s : MemberStep} (h : Inv env db) (hrun : s.run env db = .ok db') :
    Inv env db' := by
  obtain ⟨hconsistent, hsets, -, hchain⟩ := MemberStep.frame h.consistent hrun
  refine ⟨hconsistent, h.listed.congr (fun g => hsets _ ?_ ?_) hchain⟩
  · exact chainsSetKey_ne_witnessSetKey g
  · simp [chainsSetKey]

theorem replaceWitnessExecute_entries {call : Call} {gas gas' : Nat}
    {data : List ReplaceWitnessExecuteInput}
    (hrun : db.replaceWitnessExecute env call gas data = .ok (db', gas')) :
    ∃ gas₁, handleEntries env call gas₁ db data = .ok (db', gas') := by
  unfold StateDB.replaceWitnessExecute at hrun
  simp only [bind_eq_ok_iff, guard_eq_ok_iff] at hrun
  obtain ⟨gas₁, -, -, -, hrun⟩ := hrun
  exact ⟨gas₁, hrun⟩

theorem run_inv {gen : ChainDB.Generator} {s s' : ChainDB} {step : ChainStep env}
    (h : Inv env s.db) (hrun : step.run gen s = .ok s') : Inv env s'.db := by
  cases step with
  | applyWitness call gas input =>
    obtain ⟨⟨db₁, gas₁⟩, hcall, hend⟩ := bind_eq_ok_iff.mp hrun
    cases hend
    exact h.of_inChains (createWitness_listed h.listed call.caller_ne hcall)
  | applyWitnessWay2 call gas chain =>
    obtain ⟨⟨db₁, gas₁⟩, hcall, hend⟩ := bind_eq_ok_iff.mp hrun
    cases hend
    exact h.of_inChains (handleApplyWitnessWay2_listed h.listed hcall)
  | createContract call gas time input =>
    obtain ⟨⟨s₁, gas₁⟩, hcall, hend⟩ := bind_eq_ok_iff.mp hrun
    cases hend
    exact h.of_inChains (createContract_listed h.listed call.caller_ne hcall)
  | replaceWitness call gas input =>
    obtain ⟨⟨db₁, gas₁⟩, hcall, hend⟩ := bind_eq_ok_iff.mp hrun
    cases hend
    obtain ⟨target, -, hcall⟩ := bind_eq_ok_iff.mp hcall
    exact h.of_inChains (replaceWitness_listed h.listed hcall)
  | replaceWitnessExecute call gas data =>
    obtain ⟨⟨db₁, gas₁⟩, hcall, hend⟩ := bind_eq_ok_iff.mp hrun
    cases hend
    obtain ⟨gas₂, hentries⟩ := replaceWitnessExecute_entries hcall
    obtain ⟨hlisted, hframe, -⟩ := handleEntries_handled h.listed data hentries
    exact h.of_inChains ⟨hlisted, hframe⟩
  | member m =>
    obtain ⟨db₁, hcall, hend⟩ := bind_eq_ok_iff.mp hrun
    cases hend
    exact member_inv h hcall

theorem history_inv (gen : ChainDB.Generator) (steps : List (ChainStep env)) {s : ChainDB}
    (h : Inv env s.db) : Inv env (steps.foldl (after gen) s).db := by
  induction steps generalizing s with
  | nil => exact h
  | cons step rest ih =>
    rw [foldl_cons]
    refine ih ?_
    unfold after
    cases hrun : step.run gen s with
    | error e => exact h
    | ok s' => exact run_inv h hrun

theorem setup_inChains {users : List Address} (hnodup : users.Nodup) (h : ChainsListed env db)
    (hnew : ∀ a ∈ users, (db.chain a).groupIndex = 0)
    (hrun : db.setupDefaultWitnessForUser env users = .ok db') :
    ChainsListed env db' ∧ InChains db db' := by
  induction users generalizing db with
  | nil =>
    cases hrun
    exact ⟨h, .refl _⟩
  | cons v users ih =>
    obtain ⟨hv, hnodup'⟩ := nodup_cons.mp hnodup
    obtain ⟨db₁, hone, hrest⟩ := bind_eq_ok_iff.mp hrun
    have hold : OldGroup db v none := hnew v (.head _)
    have hregrouping := h.applyChain hold hone
    have hnew' : ∀ a ∈ users, (db₁.chain a).groupIndex = 0 := by
      intro a ha
      rw [hregrouping.other a fun heq => hv (heq ▸ ha)]
      exact hnew a (.tail _ ha)
    obtain ⟨hlisted, hframe⟩ := ih hnodup' hregrouping.listed hnew' hrest
    exact ⟨hlisted, hregrouping.frame.trans hframe⟩

theorem members_inv (env : Env) (members : List MemberStep) :
    Inv env (members.foldl (MemberStep.after env) .blank) ∧
      (members.foldl (MemberStep.after env) .blank).chain = StateDB.blank.chain := by
  suffices h : ∀ db, Inv env db → Inv env (members.foldl (MemberStep.after env) db) ∧
      (members.foldl (MemberStep.after env) db).chain = db.chain from
    h .blank ⟨consistent_blank, chainsListed_blank env⟩
  induction members with
  | nil => exact fun db hdb => ⟨hdb, rfl⟩
  | cons s rest ih =>
    intro db hdb
    rw [foldl_cons, MemberStep.after]
    cases hrun : s.run env db with
    | error e => exact ih db hdb
    | ok db' =>
      obtain ⟨hinv, hchain⟩ := ih db' (member_inv hdb hrun)
      exact ⟨hinv, hchain.trans (MemberStep.frame hdb.consistent hrun).2.2.2⟩

structure InOwnGroup (env : Env) (db : StateDB) (c : Address) : Prop where
  listed : ∀ g, c ∈ db.getChainsAt g ↔ db.getGroupIndexFromUser env c = .ok g
  once : ∀ g, db.getGroupIndexFromUser env c = .ok g → (db.getChainsAt g).count c = 1
  user : ∀ g, db.getGroupIndexFromUser env c = .ok g → g ≠ defSysGroupIndex
  underway : (db.getChainStatus c).1 = .witnessReplaceUnderway →
    ∃ g, db.getGroupIndexFromUser env c = .ok g

/-- The chains of all entries are normal again, and have a start number if they changed group. -/
structure Replaced (env : Env) (db : StateDB) (data : List ReplaceWitnessExecuteInput)
    (db' : StateDB) : Prop where
  normal : ∀ info ∈ data, (db'.getChainStatus info.chain).1 = .normal
  start : ∀ info ∈ data,
    db'.getGroupIndexFromUser env info.chain ≠ db.getGroupIndexFromUser env info.chain →
      db'.getChainWitnessStartNumber info.chain = uint64 (info.choose.height + 1)

theorem mem_getChainsAt {c : Address} {g : Nat} :
    c ∈ db.getChainsAt g ↔ c.toHash ∈ (db.sets (chainsSetKey g)).toList :=
  mem_map_toAddress

theorem nodup_getChainsAt {g : Nat} (h : Faithful (db.sets (chainsSetKey g))) :
    (db.getChainsAt g).Nodup :=
  h.nodup.map fun x y hxy => by simpa using congrArg Address.toHash hxy

theorem getChainStatus_of_applyStatus {c : Address} {status : ChainStatus}
    (h : (db.chain c).applyStatus = some status) : (db.getChainStatus c).1 = status := by
  rw [getChainStatus, h]

theorem inOwnGroup_of_listed (h : ChainsListed env db) {c : Address} (hc : c ≠ env.scAccount) :
    InOwnGroup env db c := by
  have hlisted : ∀ g, c ∈ db.getChainsAt g ↔ db.getGroupIndexFromUser env c = .ok g := by
    intro g
    rw [mem_getChainsAt, getGroupIndexFromUser_eq_ok hc]
    exact h.mem_iff c hc g
  refine ⟨hlisted, fun g hg => ?_, fun g hg => ((getGroupIndexFromUser_eq_ok hc).mp hg).2,
    fun hunderway => ?_⟩
  · exact count_eq_one_of_mem (nodup_getChainsAt (h.faithful g)) ((hlisted g).mpr hg)
  · have hstatus : (db.chain c).applyStatus = some .witnessReplaceUnderway := by
      cases happly : (db.chain c).applyStatus with
      | none =>
        rw [getChainStatus, happly] at hunderway
        cases hunderway
      | some status => rw [← getChainStatus_of_applyStatus happly, hunderway]
    exact ⟨_, (getGroupIndexFromUser_eq_ok hc).mpr ⟨rfl, h.underway c hstatus⟩⟩

theorem replaced_of_listed (h : ChainsListed env db) {call : Call} {gas gas' : Nat}
    {data : List ReplaceWitnessExecuteInput}
    (hrun : db.replaceWitnessExecute env call gas data = .ok (db', gas')) :
    Replaced env db data db' := by
  obtain ⟨gas₁, hentries⟩ := replaceWitnessExecute_entries hrun
  obtain ⟨-, -, hinfos, -⟩ := handleEntries_handled h data hentries
  refine ⟨fun info hinfo => getChainStatus_of_applyStatus (hinfos info hinfo).1,
    fun info hinfo hne => (hinfos info hinfo).2 fun heq => hne ?_⟩
  rw [getGroupIndexFromUser, getGroupIndexFromUser, heq]

/-- After every history every chain but that of the system is listed once, in the group its record
names, which is one of users; it waits for other witnesses only if it has a group; and after a
replacement its chains are normal again and, if they changed group, start at the chosen height plus
one, in 64 bits. -/
theorem chains_in_own_group (env : Env) (gen : ChainDB.Generator) (members : List MemberStep)
    (users : List Address) (db₀ : StateDB) (creater : Address → Hash) (steps : List (ChainStep env))
    (hnodup : users.Nodup)
    (hgenesis : (members.foldl (MemberStep.after env) .blank).setupDefaultWitnessForUser env users =
      .ok db₀) : let db := (steps.foldl (after gen) ⟨db₀, creater⟩).db
    (∀ c, c ≠ env.scAccount → InOwnGroup env db c) ∧
      ∀ call gas data db' gas', db.replaceWitnessExecute env call gas data = .ok (db', gas') →
        Replaced env db data db' := by
  obtain ⟨hmembers, hchain⟩ := members_inv env members
  have h₀ : Inv env db₀ := hmembers.of_inChains
    (setup_inChains hnodup hmembers.listed (fun a _ => by rw [hchain]; rfl) hgenesis)
  have h := history_inv gen steps (s := ⟨db₀, creater⟩) h₀
  exact ⟨fun c hc => inOwnGroup_of_listed h.listed hc,
    fun call gas data db' gas' hrun => replaced_of_listed h.listed hrun⟩

end ChainStep

namespace Sample

def groupMembers : List MemberStep :=
  ((List.range' 201 8).map fun n => .apply ⟨n⟩ 0 0 [1] true) ++
    (List.range' 101 22).map fun n => .apply ⟨n⟩ 0 0 [1] false

def genesisDb : Except Err StateDB :=
  (groupMembers.foldl (MemberStep.after replaceEnv) .blank).setupDefaultWitnessForUser replaceEnv
    [⟨60⟩]

/-- Account 61 gets its group from account 60, which asks for other witnesses at height 500. -/
def groupSteps : List (ChainStep replaceEnv) :=
  [.applyWitnessWay2 ⟨⟨⟨60⟩, ⟨201⟩, 5⟩, by decide⟩ 1000000 ⟨61⟩,
    .replaceWitness ⟨⟨⟨60⟩, ⟨201⟩, 500⟩, by decide⟩ 1000000 .empty]

def asked (db₀ : StateDB) : StateDB :=
  (groupSteps.foldl (ChainStep.after fun _ _ n => ⟨n⟩) ⟨db₀, fun _ => Hash.zero⟩).db

def chosenUnit : List ReplaceWitnessExecuteInput :=
  [⟨⟨60⟩, 500, ⟨8⟩, ⟨⟨60⟩, 7, ⟨9⟩⟩, (List.range' 101 8).map fun n => ⟨[], [UInt8.ofNat n]⟩,
    (List.range' 201 8).map fun n => [UInt8.ofNat n]⟩]

def replaceChosen (db₀ : StateDB) : Except Err (StateDB × Nat) :=
  (asked db₀).replaceWitnessExecute replaceEnv ⟨⟨201⟩, ⟨201⟩, 501⟩ 1000000 chosenUnit

/-- Account 60 goes from group 1 to group 2, in which alone it is listed, and starts there with unit
8. -/
theorem chain_changes_group : ∃ db₀ db' gas', genesisDb = .ok db₀ ∧
    replaceChosen db₀ = .ok (db', gas') ∧
    (asked db₀).getGroupIndexFromUser replaceEnv ⟨60⟩ = .ok 1 ∧
    ChainStep.InOwnGroup replaceEnv (asked db₀) ⟨60⟩ ∧
    ChainStep.Replaced replaceEnv (asked db₀) chosenUnit db' ∧
    db'.getGroupIndexFromUser replaceEnv ⟨60⟩ = .ok 2 ∧
    db'.getChainWitnessStartNumber ⟨60⟩ = 8 := by
  have hrun : (genesisDb.toOption.map fun db₀ =>
      (((asked db₀).getGroupIndexFromUser replaceEnv ⟨60⟩).toOption,
        (replaceChosen db₀).toOption.map fun r =>
          ((r.1.getGroupIndexFromUser replaceEnv ⟨60⟩).toOption,
            r.1.getChainWitnessStartNumber ⟨60⟩))) = some (some 1, some (some 2, 8)) := by
    decide +kernel
  obtain ⟨db₀, hgenesis, hrun⟩ := Option.map_eq_some_iff.mp hrun
  obtain ⟨hbefore, hrun⟩ := Prod.mk.inj hrun
  obtain ⟨⟨db', gas'⟩, hreplace, hrun⟩ := Option.map_eq_some_iff.mp hrun
  obtain ⟨hafter, hstart⟩ := Prod.mk.inj hrun
  rw [toOption_eq_some] at hgenesis hbefore hreplace hafter
  obtain ⟨howned, hreplaced⟩ := ChainStep.chains_in_own_group replaceEnv (fun _ _ n => ⟨n⟩)
    groupMembers [⟨60⟩] db₀ (fun _ => Hash.zero) groupSteps (by decide) hgenesis
  exact ⟨db₀, db', gas', hgenesis, hreplace, hbefore, howned ⟨60⟩ (by decide),
    hreplaced _ _ _ db' gas' hreplace, hafter, hstart⟩

end Sample

end Nerthus.Sc
