import Nerthus.Sc.Consistency

/-!
# What joining and leaving do

One lemma for each function of the contract that changes the groups: on
consistent groups an exit and a demotion succeed, and every success leaves
consistent groups.
-/

namespace Nerthus.Sc

open Lib (bind_eq_ok_iff guard_eq_ok_iff)
open Core (Bytes)
open Params

variable {db' db : StateDB} {gas g : Nat}

namespace StateDB

theorem getWitnessGroupCount_pos (db : StateDB) : 0 < db.getWitnessGroupCount := by
  rw [getWitnessGroupCount]
  split <;> omega

/-! ## Leaving -/

structure Exited (db db' : StateDB) (a : Address) (status : WitnessStatus) (number : Nat) :
    Prop where
  consistent : Consistent db'
  rest : db' = { db with
    sets := db'.sets, witness := db'.witness, activeWitness := db'.activeWitness }
  sets : ∀ key, (∀ g, key ≠ witnessSetKey g) → db'.sets key = db.sets key
  self : db'.witness a = { db.witness a with
    status := some status, cancelHeight := number, groupIndex := (db'.witness a).groupIndex }
  other : ∀ b, b ≠ a →
    db'.witness b = { db.witness b with groupIndex := (db'.witness b).groupIndex }
  groupIndex : ∀ b, (db'.witness b).groupIndex = 0 ↔ (db.witness b).groupIndex = 0
  memberCount : db'.memberCount + 1 = db.memberCount
  activeWitness : db'.activeWitness = db.activeWitness - 1

section Exit

variable {db : StateDB} {a : Address} {status : WitnessStatus} {number index : Nat}

theorem consistent_exit (number : Nat) (hdb : Consistent db)
    (hnormal : (db.witness a).status = some .normal) (hstatus : status ≠ .normal)
    (hexist : StateSet.exist (db.getWitnessSet (db.witness a).groupIndex) a.toHash = some index) :
    Consistent ((db.delWitnessInfo a number status).leave (db.witness a).groupIndex index) := by
  have hself : ((db.delWitnessInfo a number status).witness a) =
      { db.witness a with status := some status, cancelHeight := number } := putWitness_self _ _ _
  have hother : ∀ b, b ≠ a → (db.delWitnessInfo a number status).witness b = db.witness b :=
    fun b hb => putWitness_of_ne _ hb _
  have hfaithful : ∀ g, ((db.delWitnessInfo a number status).getWitnessSet g).Faithful :=
    hdb.faithful
  have hcount : ∀ g,
      ((db.delWitnessInfo a number status).leave (db.witness a).groupIndex index).getWitnessCountAt
        g + (if g = (db.witness a).groupIndex then 1 else 0) = db.getWitnessCountAt g :=
    count_leave hfaithful hexist
  refine ⟨faithful_leave hfaithful hexist, fun b g => ?_, fun b => ?_, fun g hg => ?_, ?_,
    fun g hg => ?_⟩
  · rw [mem_leave hfaithful hexist, leave_witness]
    change b ∈ db.getWitnessListAt g ∧ _ ↔ _
    rw [hdb.mem_iff]
    by_cases hb : b = a
    · subst hb
      rw [hself]
      constructor
      · rintro ⟨⟨-, rfl⟩, hne⟩
        exact absurd rfl (hne rfl)
      · rintro ⟨h, -⟩
        exact absurd (Option.some.inj h) hstatus
    · rw [hother b hb]
      simp [hb]
  · rw [leave_witness]
    by_cases hb : b = a
    · subst hb
      have hflag := (hdb.flag b).mpr (by rw [hnormal]; simp)
      rw [hself]
      simp [hflag]
    · rw [hother b hb]
      exact hdb.flag b
  · have hle := hdb.user g hg
    have := hcount g
    omega
  · have hle := hdb.system
    have := hcount 0
    omega
  · apply hdb.below g
    have := hcount g
    omega

theorem count_exit_ne (hdb : Consistent db)
    (hexist : StateSet.exist (db.getWitnessSet (db.witness a).groupIndex) a.toHash = some index)
    (hgroup : (db.witness a).groupIndex ≠ 0) :
    ((db.delWitnessInfo a number status).leave (db.witness a).groupIndex index).getWitnessCountAt
      (db.witness a).groupIndex ≠ configParamsUCWitness := by
  have hfaithful : ∀ g, ((db.delWitnessInfo a number status).getWitnessSet g).Faithful :=
    hdb.faithful
  have hcount := count_leave hfaithful hexist (db.witness a).groupIndex
  have hle : (db.delWitnessInfo a number status).getWitnessCountAt (db.witness a).groupIndex ≤
      configParamsUCWitness := hdb.user _ hgroup
  rw [if_pos rfl] at hcount
  omega

theorem onWitnessExit_spec (env : Env) (info : WitnessInfo) (hdb : Consistent db)
    (hnormal : (db.witness info.address).status = some .normal)
    (hgroup : info.groupIndex = (db.witness info.address).groupIndex)
    (hstatus : info.status ≠ .normal) (number : Nat) :
    ∃ db', db.onWitnessExit env number info = .ok db' ∧
      Exited db db' info.address info.status number := by
  have hmem := (hdb.mem_iff info.address _).mpr ⟨hnormal, rfl⟩
  obtain ⟨index, hexist⟩ := hdb.exist hmem
  have hfaithful : ∀ g, ((db.delWitnessInfo info.address number info.status).getWitnessSet
      g).Faithful := hdb.faithful
  obtain ⟨db', heq, hdb', hreg⟩ := fixWitnessGroup_spec env
    (consistent_exit number hdb hnormal hstatus hexist) (db.witness info.address).groupIndex
    (count_exit_ne hdb hexist)
  have hcancel : (db.delWitnessInfo info.address number info.status).cancelWitnessFromWitnessGroup
      env info.address info.groupIndex = .ok db' := by
    have hexist' : StateSet.exist ((db.delWitnessInfo info.address number info.status).getWitnessSet
        info.groupIndex) info.address.toHash = some index := hgroup ▸ hexist
    rw [cancelWitnessFromWitnessGroup, hexist', hgroup]
    exact heq
  have hactive : db'.updateAcitvieWitenssLib { info with cancelHeight := number } =
      db'.addActiveWitness (-1) := by
    rw [updateAcitvieWitenssLib]
    cases hs : info.status with
    | normal => exact absurd hs hstatus
    | loggedOut => rfl
    | inBlackList => rfl
  refine ⟨db'.addActiveWitness (-1), ?_, ?_⟩
  · rw [onWitnessExit, if_neg hstatus]
    simp only [hcancel, bind, Except.bind, hactive]
    rfl
  · have hself : (db.delWitnessInfo info.address number info.status).witness info.address =
        { db.witness info.address with status := some info.status, cancelHeight := number } :=
      putWitness_self _ _ _
    have hother : ∀ b, b ≠ info.address →
        (db.delWitnessInfo info.address number info.status).witness b = db.witness b :=
      fun b hb => putWitness_of_ne _ hb _
    refine ⟨hdb'.congr (fun _ => rfl) rfl rfl, ?_, fun key hkey => ?_, ?_, fun b hb => ?_,
      fun b => ?_, ?_, ?_⟩
    · rw [hreg.rest]
      rfl
    · change db'.sets key = _
      rw [hreg.sets key hkey, leave, putSet_sets_of_ne _ (hkey _)]
      rfl
    · change db'.witness info.address = _
      rw [hreg.witness info.address, leave_witness, hself]
      rfl
    · change db'.witness b = _
      rw [hreg.witness b, leave_witness, hother b hb]
      rfl
    · change (db'.witness b).groupIndex = 0 ↔ _
      rw [hreg.groupIndex b, leave_witness]
      by_cases hb : b = info.address
      · rw [hb, hself]
      · rw [hother b hb]
    · change db'.memberCount + 1 = _
      rw [hreg.memberCount]
      exact memberCount_leave hfaithful hexist (hdb.below _ (Consistent.count_pos hmem))
    · rw [hreg.rest]
      rfl

theorem onWitnessExit_exited {env : Env} {info : WitnessInfo}
    (h : db.onWitnessExit env number info = .ok db') (hdb : Consistent db)
    (hnormal : (db.witness info.address).status = some .normal)
    (hgroup : info.groupIndex = (db.witness info.address).groupIndex)
    (hstatus : info.status ≠ .normal) : Exited db db' info.address info.status number := by
  obtain ⟨db₁, heq, hexit⟩ := onWitnessExit_spec env info hdb hnormal hgroup hstatus number
  rw [heq] at h
  cases h
  exact hexit

end Exit

theorem getWitnessInfo_eq_ok {a : Address} {info : WitnessInfo} (h : db.getWitnessInfo a = .ok info) :
    info.address = a ∧ (db.witness a).status = some info.status ∧
      info.margin = (db.witness a).margin ∧ info.groupIndex = (db.witness a).groupIndex := by
  rw [getWitnessInfo] at h
  cases hstatus : (db.witness a).status with
  | none =>
    rw [hstatus] at h
    cases h
  | some status =>
    rw [hstatus] at h
    cases h
    exact ⟨rfl, rfl, rfl, rfl⟩

theorem transfer_zero (db : StateDB) (sender recipient : Address) :
    db.transfer sender recipient 0 = db := by
  have hsend : Function.update db.balance sender (db.balance sender - (0 : Nat)) = db.balance := by
    simp
  rw [transfer, hsend]
  simp

theorem Consistent.transfer (h : Consistent db) (sender recipient : Address) (amount : Nat) :
    Consistent (db.transfer sender recipient amount) :=
  h.congr (fun _ => rfl) rfl rfl

section Out

variable {env : Env} {call : Call} {db db' : StateDB} {w : Address}

def refund (isTimeout : Bool) (margin : Nat) : Nat :=
  if isTimeout then calcPercentMoney margin else margin

theorem refund_le (isTimeout : Bool) (margin : Nat) : refund isTimeout margin ≤ margin := by
  rw [refund, calcPercentMoney]
  split <;> omega

theorem status_of_not_ne {info : WitnessInfo} {status : WitnessStatus}
    (h : ¬info.status ≠ status) : info.status = status :=
  Decidable.not_not.mp h

theorem logOut_spec (hdb : Consistent db) {info : WitnessInfo} (part : Nat → Nat)
    (hpart : part 0 = 0) (hinfo : db.getWitnessInfo w = .ok info) (hnormal : ¬info.status ≠ .normal)
    (h : (if 0 < info.margin then db.transfer env.scAccount w (part info.margin)
      else db).onWitnessExit env call.unitNumber
        { info with status := .loggedOut, cancelHeight := call.unitNumber } = .ok db') :
    (db.witness w).status = some .normal ∧
      Exited (db.transfer env.scAccount w (part (db.witness w).margin)) db' w .loggedOut
        call.unitNumber := by
  obtain ⟨rfl, hstatus, hmargin, hgroup⟩ := getWitnessInfo_eq_ok hinfo
  rw [status_of_not_ne hnormal] at hstatus
  have hpaid : (if 0 < info.margin then db.transfer env.scAccount info.address (part info.margin)
      else db) = db.transfer env.scAccount info.address (part (db.witness info.address).margin) := by
    rw [← hmargin]
    by_cases hpos : 0 < info.margin
    · rw [if_pos hpos]
    · rw [if_neg hpos, show info.margin = 0 by omega, hpart, transfer_zero]
  rw [hpaid] at h
  exact ⟨hstatus, onWitnessExit_exited h (hdb.transfer _ _ _) hstatus hgroup (by simp)⟩

theorem removeWitness_spec (hdb : Consistent db) {isTimeout : Bool}
    (h : db.removeWitness env call w isTimeout = .ok db') : (db.witness w).status = some .normal ∧
      Exited (db.transfer env.scAccount w (refund isTimeout (db.witness w).margin)) db' w .loggedOut
        call.unitNumber := by
  obtain ⟨info, hinfo, h⟩ := bind_eq_ok_iff.mp h
  simp only [guard_eq_ok_iff] at h
  obtain ⟨-, hnormal, h⟩ := h
  have hzero : refund isTimeout 0 = 0 := Nat.le_zero.mp (refund_le isTimeout 0)
  exact logOut_spec hdb (refund isTimeout) hzero hinfo hnormal h

theorem cancelWitness_spec (hdb : Consistent db) {gas' : Nat}
    (h : db.cancelWitness env call gas w = .ok (db', gas')) : (db.witness w).status = some .normal ∧
      Exited (db.transfer env.scAccount w (db.witness w).margin) db' w .loggedOut
        call.unitNumber := by
  obtain ⟨_, -, h⟩ := bind_eq_ok_iff.mp h
  obtain ⟨info, hinfo, h⟩ := bind_eq_ok_iff.mp h
  simp only [guard_eq_ok_iff, bind_eq_ok_iff] at h
  obtain ⟨-, hnormal, _, -, db₁, hrun, h⟩ := h
  cases h
  exact logOut_spec hdb id rfl hinfo hnormal hrun

theorem removeChainWitness_bad (hdb : Consistent db) {gas' : Nat}
    (h : db.removeChainWitness env call gas w true = .ok (db', gas')) :
    (db.witness w).status = some .normal ∧ Exited db db' w .inBlackList call.unitNumber := by
  rw [removeChainWitness, if_neg (by simp)] at h
  obtain ⟨_, -, h⟩ := bind_eq_ok_iff.mp h
  obtain ⟨info, hinfo, hrest⟩ := bind_eq_ok_iff.mp h
  obtain ⟨rfl, hstatus, _, hgroup⟩ := getWitnessInfo_eq_ok hinfo
  obtain ⟨hnormal, h⟩ := guard_eq_ok_iff.mp hrest
  obtain ⟨_, -, h⟩ := bind_eq_ok_iff.mp h
  obtain ⟨db₁, hrun, h⟩ := bind_eq_ok_iff.mp h
  cases h
  rw [status_of_not_ne hnormal] at hstatus
  exact ⟨hstatus, onWitnessExit_exited hrun hdb hstatus hgroup (by simp)⟩

theorem removeChainWitness_ok (env : Env) (call : Call) (hdb : Consistent db)
    (hnormal : (db.witness w).status = some .normal)
    (hgas : Gas.sloadGas + Gas.sstoreSetGas * 10 ≤ gas) :
    ∃ db', db.removeChainWitness env call gas w true =
        .ok (db', gas - Gas.sloadGas - Gas.sstoreSetGas * 10) ∧
      Exited db db' w .inBlackList call.unitNumber := by
  have hinfo : ∃ info, db.getWitnessInfo w = .ok info := by
    rw [getWitnessInfo, hnormal]
    exact ⟨_, rfl⟩
  obtain ⟨info, hinfo⟩ := hinfo
  obtain ⟨rfl, hstatus, _, hgroup⟩ := getWitnessInfo_eq_ok hinfo
  have hstatus' : info.status = .normal := Option.some.inj (hstatus.symm.trans hnormal)
  obtain ⟨db', heq, hexit⟩ := onWitnessExit_spec env
    { info with cancelHeight := call.unitNumber, status := .inBlackList } hdb hnormal hgroup
    (by simp) call.unitNumber
  refine ⟨db', ?_, hexit⟩
  rw [removeChainWitness, if_neg (by simp), useGas_of_le (by omega)]
  simp only [bind, Except.bind, hinfo, ne_eq, hstatus', not_true_eq_false, if_false]
  rw [useGas_of_le (by omega)]
  rw [heq]
  rfl

end Out

structure Demoted (db db' : StateDB) : Prop where
  consistent : Consistent db'
  rest : db' = { db with sets := db'.sets }
  sets : ∀ key, (∀ g, key ≠ witnessSetKey g) → db'.sets key = db.sets key
  memberCount : db'.memberCount = db.memberCount

theorem consistent_rejoin {a : Address} {index : Nat} (hdb : Consistent db)
    (hexist : StateSet.exist (db.getWitnessSet 0) a.toHash = some index)
    (ha : a ∈ db.getWitnessListAt 0) : Consistent ((db.leave 0 index).join 0 a) := by
  have hout : a ∉ (db.leave 0 index).getWitnessListAt 0 := by
    rw [mem_leave hdb.faithful hexist]
    simp
  have hcount : ∀ g, ((db.leave 0 index).join 0 a).getWitnessCountAt g = db.getWitnessCountAt g := by
    intro g
    have hleave := count_leave hdb.faithful hexist g
    rw [count_join]
    exact hleave
  refine ⟨faithful_join (faithful_leave hdb.faithful hexist) hout, fun b g => ?_, hdb.flag,
    fun g hg => ?_, ?_, fun g hg => ?_⟩
  · rw [mem_join, mem_leave hdb.faithful hexist, join_witness, leave_witness, ← hdb.mem_iff]
    by_cases hb : b = a
    · subst hb
      by_cases hg : g = 0
      · subst hg
        simp [ha]
      · simp [hg]
    · simp [hb]
  · rw [hcount]
    exact hdb.user g hg
  · rw [hcount]
    exact hdb.system
  · rw [hcount] at hg
    exact hdb.below g hg

theorem applyWitnessGroupOfSys_eq_ok {env : Env} {a : Address} {r : StateDB × Nat}
    (h : db.applyWitnessGroupOfSys env a = .ok r) :
    r = (db.join 0 a, 0) ∧ db.getWitnessCountAt 0 + 1 ≤ configParamsSCWitnessCap := by
  rw [applyWitnessGroupOfSys] at h
  split at h
  · cases h
  · next hcap =>
    have hpos := db.getWitnessGroupCount_pos
    rw [if_neg (by omega)] at h
    cases h
    exact ⟨rfl, Nat.le_of_not_lt hcap⟩

theorem demoteWitness_spec {env : Env} {w : Address} (hdb : Consistent db)
    (h : db.demoteWitness env w = .ok db') : Demoted db db' := by
  obtain ⟨info, hinfo, hrest⟩ := bind_eq_ok_iff.mp h
  obtain ⟨rfl, hstatus, _, hgroup⟩ := getWitnessInfo_eq_ok hinfo
  obtain ⟨hnormal, h⟩ := guard_eq_ok_iff.mp hrest
  obtain ⟨hsys, h⟩ := guard_eq_ok_iff.mp h
  obtain ⟨db₁, hcancel, h⟩ := bind_eq_ok_iff.mp h
  obtain ⟨r, happly, h⟩ := bind_eq_ok_iff.mp h
  have hzero : info.groupIndex = 0 := Decidable.not_not.mp hsys
  rw [hzero] at hgroup hcancel
  rw [status_of_not_ne hnormal] at hstatus
  have hmem := (hdb.mem_iff info.address 0).mpr ⟨hstatus, hgroup.symm⟩
  obtain ⟨index, hexist⟩ := hdb.exist hmem
  have hleft : db.leave 0 index = db₁ := by
    rw [cancelWitnessFromWitnessGroup, hexist] at hcancel
    exact Except.ok.inj hcancel
  subst hleft
  obtain ⟨rfl, -⟩ := applyWitnessGroupOfSys_eq_ok happly
  cases h
  refine ⟨consistent_rejoin hdb hexist hmem, rfl, fun key hkey => ?_, ?_⟩
  · rw [join, addTo, putSet_sets_of_ne _ (hkey 0), leave, putSet_sets_of_ne _ (hkey 0)]
  have hbelow := db.getWitnessGroupCount_pos
  have hleave := memberCount_leave hdb.faithful hexist hbelow
  have hjoin := memberCount_join (db.leave 0 index) info.address hbelow
  omega

/-! ## Joining -/

/-- A place in a group of users, the first of a new one, or a place in the system group. -/
structure Joinable (db db' : StateDB) (g : Nat) : Prop where
  rest : db' = { db with groupCount := db'.groupCount }
  grows : db.getWitnessGroupCount ≤ db'.getWitnessGroupCount
  below : g < db'.getWitnessGroupCount
  user : g ≠ 0 → db.getWitnessCountAt g < configParamsUCWitness
  system : g = 0 → db.getWitnessCountAt g < configParamsSCWitnessCap
  empty : ∀ i, db.getWitnessGroupCount ≤ i → i < db'.getWitnessGroupCount →
    db.getWitnessCountAt i = 0

theorem Joinable.getWitnessCountAt (h : Joinable db db' g) (i : Nat) :
    db'.getWitnessCountAt i = db.getWitnessCountAt i := by
  rw [h.rest]
  rfl

theorem Joinable.memberCount (h : Joinable db db' g) : db'.memberCount = db.memberCount := by
  rw [StateDB.memberCount, StateDB.memberCount]
  rw [← Finset.sum_subset (Finset.range_subset_range.mpr h.grows)]
  · exact Finset.sum_congr rfl fun i _ => h.getWitnessCountAt i
  · intro i hi hnot
    rw [h.getWitnessCountAt]
    exact h.empty i (by simpa using hnot) (by simpa using hi)

theorem joinable_self (hbelow : g < db.getWitnessGroupCount)
    (huser : g ≠ 0 → db.getWitnessCountAt g < configParamsUCWitness)
    (hsystem : g = 0 → db.getWitnessCountAt g < configParamsSCWitnessCap) : Joinable db db g :=
  ⟨rfl, Nat.le_refl _, hbelow, huser, hsystem, fun _ hle hlt => absurd hlt (by omega)⟩

def lacksOne (db : StateDB) (g : Nat) : Bool := db.getWitnessCountAt g = configParamsUCMinVotings - 1

def hasRoom (db : StateDB) (g : Nat) : Bool := db.getWitnessCountAt g ≠ configParamsUCWitness

theorem scanGroups_eq (db : StateDB) (indexes : List Nat) (list : List ChooseItem) :
    scanGroups db indexes list = match indexes.find? db.lacksOne with
      | some g => .inl g
      | none => .inr (list ++ (indexes.filter db.hasRoom).map fun g =>
          ⟨g, priority (db.getWitnessCountAt g)⟩) := by
  induction indexes generalizing list with
  | nil => simp [scanGroups]
  | cons gpIndex rest ih =>
    rw [scanGroups, List.find?_cons, List.filter_cons, lacksOne, hasRoom]
    by_cases hfull : db.getWitnessCountAt gpIndex = configParamsUCWitness
    · simp [hfull, ih, configParamsUCWitness, configParamsUCMinVotings]
    · by_cases hone : db.getWitnessCountAt gpIndex = configParamsUCMinVotings - 1
      · simp [hone, configParamsUCWitness, configParamsUCMinVotings]
      · simp [hfull, hone, ih]

theorem applyWitnessGroupOfUser_spec (hdb : Consistent db) (a : Address) :
    ∃ db₁ g, db.applyWitnessGroupOfUser a = (db₁.join g a, g) ∧ g ≠ 0 ∧ Joinable db db₁ g := by
  have hmin : configParamsUCMinVotings = 8 := rfl
  have hmax : configParamsUCWitness = 11 := rfl
  have hpos := db.getWitnessGroupCount_pos
  have hplace : ∀ g, g ∈ List.range' 1 (db.getWitnessGroupCount - 1) →
      db.getWitnessCountAt g ≠ configParamsUCWitness → g ≠ 0 ∧ Joinable db db g := by
    intro g hg hroom
    have hrange := List.mem_range'_1.mp hg
    have hle := hdb.user g (by omega)
    exact ⟨by omega, joinable_self (by omega) (fun _ => by omega) (fun h => by omega)⟩
  rw [applyWitnessGroupOfUser, scanGroups_eq]
  cases hfind : (List.range' 1 (db.getWitnessGroupCount - 1)).find? db.lacksOne with
  | some g =>
    have hcount : db.getWitnessCountAt g = configParamsUCMinVotings - 1 := by
      simpa [lacksOne] using List.find?_some hfind
    obtain ⟨hne, hjoin⟩ := hplace g (List.mem_of_find?_eq_some hfind) (by omega)
    exact ⟨db, g, rfl, hne, hjoin⟩
  | none =>
    dsimp only
    split
    · next first rest hsort =>
      have hfirst := (List.mem_insertionSort _).mp (hsort ▸ List.mem_cons_self)
      obtain ⟨g, hg, rfl⟩ := List.mem_map.mp hfirst
      obtain ⟨hmem, hroom⟩ := List.mem_filter.mp hg
      obtain ⟨hne, hjoin⟩ := hplace g hmem (of_decide_eq_true hroom)
      exact ⟨db, g, rfl, hne, hjoin⟩
    · have hcount : (db.writeWitnessGroupCount (db.getWitnessGroupCount + 1)).getWitnessGroupCount =
          db.getWitnessGroupCount + 1 := if_neg (Nat.succ_ne_zero _)
      have hempty : ∀ i, db.getWitnessGroupCount ≤ i → db.getWitnessCountAt i = 0 := by
        intro i hi
        by_contra hne
        have := hdb.below i hne
        omega
      refine ⟨db.writeWitnessGroupCount (db.getWitnessGroupCount + 1), db.getWitnessGroupCount,
        ?_, by omega, rfl, by omega, by omega, fun _ => ?_, fun h => by omega,
        fun i hi _ => hempty i hi⟩
      · rw [if_neg (by omega)]
        rfl
      · rw [hempty _ (Nat.le_refl _)]
        omega

structure Joined (db db' : StateDB) (a : Address) (item : WitnessItem) : Prop where
  consistent : Consistent db'
  fresh : (db.witness a).flag = false
  self : db'.witness a = item
  other : ∀ b, b ≠ a → db'.witness b = db.witness b
  rest : db' = { db with
    sets := db'.sets, witness := db'.witness, groupCount := db'.groupCount,
    heartbeat := db'.heartbeat, activeWitness := db'.activeWitness }
  sets : ∀ key, (∀ g, key ≠ witnessSetKey g) → key ≠ [allWitenssKey] → db'.sets key = db.sets key
  memberCount : db'.memberCount = db.memberCount + 1
  activeWitness : db'.activeWitness = db.activeWitness + 1

theorem initHearbeatLastRound_rest (db : StateDB) (role : HeartbeatRole) (a : Address)
    (number : Nat) : db.initHearbeatLastRound role a number =
      { db with heartbeat := (db.initHearbeatLastRound role a number).heartbeat } := by
  rw [initHearbeatLastRound]
  split
  · split <;> rfl
  · rfl

theorem consistent_joined {db₁ : StateDB} {a : Address} {item : WitnessItem} (hdb : Consistent db)
    (hjoin : Joinable db db₁ g) (hfresh : (db.witness a).flag = false)
    (hnormal : item.status = some .normal) (hflag : item.flag = true) (hgroup : item.groupIndex = g) :
    Consistent ((db₁.join g a).putWitness a item) := by
  have hwitness : db₁.witness = db.witness := by
    rw [hjoin.rest]
  have hset : ∀ i, db₁.getWitnessSet i = db.getWitnessSet i := fun i => by
    rw [hjoin.rest]
    rfl
  have hlist : ∀ i, db₁.getWitnessListAt i = db.getWitnessListAt i := fun i => by
    rw [hjoin.rest]
    rfl
  have hstatus : (db.witness a).status = none := by
    by_contra hne
    rw [(hdb.flag a).mpr hne] at hfresh
    cases hfresh
  have hout : ∀ i, a ∉ db.getWitnessListAt i := fun i hmem => by
    rw [hdb.mem_iff, hstatus] at hmem
    cases hmem.1
  have hself : ((db₁.join g a).putWitness a item).witness a = item := putWitness_self _ _ _
  have hother : ∀ b, b ≠ a → ((db₁.join g a).putWitness a item).witness b = db.witness b := by
    intro b hb
    rw [putWitness_of_ne _ hb, join_witness, hwitness]
  have hcount : ∀ i, ((db₁.join g a).putWitness a item).getWitnessCountAt i =
      db.getWitnessCountAt i + if i = g then 1 else 0 := by
    intro i
    rw [← hjoin.getWitnessCountAt]
    exact count_join db₁ a g i
  refine ⟨?_, fun b i => ?_, fun b => ?_, fun i hi => ?_, ?_, fun i hi => ?_⟩
  · exact faithful_join (fun i => hset i ▸ hdb.faithful i) (hlist g ▸ hout g)
  · change b ∈ (db₁.join g a).getWitnessListAt i ↔ _
    rw [mem_join, hlist]
    by_cases hb : b = a
    · subst hb
      rw [hself, hnormal, hgroup]
      simp [hout i, eq_comm]
    · rw [hother b hb, hdb.mem_iff]
      simp [hb]
  · by_cases hb : b = a
    · subst hb
      rw [hself, hflag, hnormal]
      simp
    · rw [hother b hb]
      exact hdb.flag b
  · rw [hcount]
    have hle := hdb.user i hi
    split
    · next hig =>
      have := hjoin.user (hig ▸ hi)
      rw [hig]
      omega
    · exact hle
  · rw [hcount]
    have hle := hdb.system
    split
    · next hig =>
      have := hjoin.system hig.symm
      rw [hig]
      omega
    · exact hle
  · change i < db₁.getWitnessGroupCount
    by_cases hig : i = g
    · exact hig ▸ hjoin.below
    rw [hcount, if_neg hig] at hi
    have := hdb.below i hi
    have := hjoin.grows
    omega

def recordOf (info : WitnessInfo) : WitnessItem :=
  ⟨true, info.margin, some info.status, info.cancelHeight, info.applyHeight, info.groupIndex,
    info.pubkey⟩

theorem joined_writeWitnessInfo {db₁ : StateDB} (info : WitnessInfo) (hdb : Consistent db)
    (hjoin : Joinable db db₁ g) (hfresh : (db.witness info.address).flag = false)
    (hnormal : info.status = .normal) (hgroup : info.groupIndex = g) :
    Joined db (((db₁.join g info.address).writeWitnessInfo info).updateAcitvieWitenssLib info)
      info.address (recordOf info) := by
  have hstatus : (recordOf info).status = some .normal := congrArg some hnormal
  have hindex : (recordOf info).groupIndex = g := hgroup
  have hconsistent := consistent_joined hdb hjoin hfresh hstatus rfl hindex
  -- the heartbeat is the only thing that depends on more than the place
  obtain ⟨beats, hbeats⟩ : ∃ beats, (db₁.join g info.address).writeWitnessInfo info =
      { (db₁.join g info.address).putWitness info.address (recordOf info) with
        heartbeat := beats } :=
    ⟨_, initHearbeatLastRound_rest _ _ _ _⟩
  have hlib : ∀ db₂ : StateDB, db₂.updateAcitvieWitenssLib info =
      (db₂.addTo [allWitenssKey] info.address.toHash).addActiveWitness 1 := by
    intro db₂
    rw [updateAcitvieWitenssLib, hnormal]
  have hset : ∀ (db₂ : StateDB) (i : Nat), ((db₂.addTo [allWitenssKey]
      info.address.toHash).addActiveWitness 1).getWitnessSet i = db₂.getWitnessSet i :=
    fun db₂ => getWitnessSet_putSet_of_ne db₂ allWitenssKey_ne_witnessSetKey
      (StateSet.add (db₂.sets [allWitenssKey]) info.address.toHash)
  have hwitness : db₁.witness = db.witness := by
    rw [hjoin.rest]
  rw [hbeats, hlib]
  refine ⟨hconsistent.congr (fun i => hset _ i) rfl rfl, hfresh,
    putWitness_self _ _ _, fun b hb => ?_, ?_, fun key hkey hall => ?_, ?_, ?_⟩
  · exact (putWitness_of_ne _ hb _).trans (congrFun hwitness b)
  · rw [hjoin.rest]
    rfl
  · refine (putSet_sets_of_ne _ hall _).trans ((putSet_sets_of_ne _ (hkey g) _).trans ?_)
    rw [hjoin.rest]
  · have hmembers := memberCount_join db₁ info.address hjoin.below
    rw [hjoin.memberCount] at hmembers
    rw [← hmembers]
    refine Finset.sum_congr rfl fun i _ => congrArg Lib.IndexedSet.length ?_
    exact hset _ i
  · rw [hjoin.rest]
    rfl

theorem applyWitness_spec {env : Env} {sender : Address} {value unitNumber : Nat}
    {publicKey : Bytes} {isSys : Bool} (hdb : Consistent db)
    (h : db.applyWitness env sender value unitNumber publicKey isSys = .ok db') :
    ∃ g, (g = 0 ↔ isSys = true) ∧
      Joined db db' sender (recordOf
        { address := sender, margin := value, applyHeight := unitNumber, cancelHeight := 0,
          status := .normal, groupIndex := g, pubkey := publicKey }) := by
  rw [applyWitness] at h
  obtain ⟨-, h⟩ := guard_eq_ok_iff.mp h
  obtain ⟨_, hmember, h⟩ := bind_eq_ok_iff.mp h
  have hfresh : (db.witness sender).flag = false := by
    unfold checkMemberType existWitness at hmember
    cases hflag : (db.witness sender).flag with
    | false => rfl
    | true =>
      rw [hflag] at hmember
      split at hmember
      · cases hmember
      · split at hmember <;> cases hmember
  have hrecord := fun g db₁ (hjoin : Joinable db db₁ g) => joined_writeWitnessInfo
    { address := sender, margin := value, applyHeight := unitNumber, cancelHeight := 0,
      status := .normal, groupIndex := g, pubkey := publicKey } hdb hjoin hfresh rfl rfl
  cases isSys with
  | true =>
    obtain ⟨r, hgroup, h⟩ := bind_eq_ok_iff.mp h
    obtain ⟨rfl, hcap⟩ := applyWitnessGroupOfSys_eq_ok hgroup
    have hjoin : Joinable db db 0 := joinable_self db.getWitnessGroupCount_pos
      (fun h => absurd rfl h) fun _ => by omega
    cases h
    exact ⟨0, by simp, hrecord 0 db hjoin⟩
  | false =>
    obtain ⟨db₁, g, heq, hne, hjoin⟩ := applyWitnessGroupOfUser_spec hdb sender
    obtain ⟨r, hgroup, h⟩ := bind_eq_ok_iff.mp h
    rw [heq] at hgroup
    cases hgroup
    cases h
    exact ⟨g, by simp [hne], hrecord g db₁ hjoin⟩

end StateDB

end Nerthus.Sc
