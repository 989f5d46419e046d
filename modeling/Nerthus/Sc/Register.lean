import Nerthus.Sc.Punish

/-!
# The arbitration register

The heights under arbitration, the votes and the results over whole histories
of the contract: reports and votes, and between them every change of the
groups.
-/

namespace Nerthus.Sc

open Core (UnitID)
open Lib (bind_eq_ok_iff guard_eq_ok_iff)
open Lib.IndexedSet (Faithful)
open StateSet Hash List

variable {db db' : StateDB} {c c' voter : Address} {choose : UnitID} {env : Env} {key : SetKey}

@[simp] theorem arbitrationIngKey_inj : arbitrationIngKey c = arbitrationIngKey c' ↔ c = c' := by
  simp [arbitrationIngKey]

@[simp] theorem voterSetKey_ne_votersKey (c c' : Address) (n n' : Nat) (h : Hash) :
    voterSetKey c n h ≠ votersKey c' n' := by
  simp [voterSetKey, votersKey, Item.ofHash, votersSuffix]

theorem choicesKey_eq_arbitrationIngKey {n : Nat} :
    choicesKey c n = arbitrationIngKey c' ↔ c = c' ∧ n = 0x5f696e67 := by
  simp [choicesKey, arbitrationIngKey, ofUint_eq_inArbitrationNumberSuffix]

def IsRegisterKey (key : SetKey) : Prop := key.head? = some arbitrationInfoPrefix

theorem IsRegisterKey.ne_witnessSetKey (h : IsRegisterKey key) (g : Nat) :
    key ≠ witnessSetKey g := by
  rintro rfl
  simp [IsRegisterKey, witnessSetKey, prefixWitnessGroupInfo, arbitrationInfoPrefix] at h

theorem IsRegisterKey.ne_allWitenssKey (h : IsRegisterKey key) : key ≠ [allWitenssKey] := by
  rintro rfl
  simp [IsRegisterKey, allWitenssKey, arbitrationInfoPrefix] at h

/-- The calls of the contract: changes of the groups, and reports with their votes. -/
inductive ScStep where
  | member (s : MemberStep)
  | report (call : Call) (gas : Nat) (rep : ReportWitnessDishonest)
deriving DecidableEq

namespace ScStep

def run (env : Env) (db : StateDB) : ScStep → Except Err StateDB
  | member s => s.run env db
  | report call gas rep => do
    let r ← db.systemReportDishonest env call gas rep
    return r.1

def after (env : Env) (db : StateDB) (s : ScStep) : StateDB :=
  match s.run env db with
  | .ok db' => db'
  | .error _ => db

def state (env : Env) (steps : List ScStep) : StateDB := steps.foldl (after env) .blank

theorem state_append_singleton (env : Env) (steps : List ScStep) (s : ScStep) :
    state env (steps ++ [s]) = s.after env (state env steps) := by
  simp [state]

/-- In the history `voter` voted for `choose` while being a main system witness. -/
def VotedIn (env : Env) (steps : List ScStep) (voter : Address) (choose : UnitID) : Prop :=
  ∃ before call gas rep rest, steps = before ++ report call gas rep :: rest ∧
    ((report call gas rep).run env (state env before)).isOk = true ∧ rep.choose.id = choose ∧
    call.caller = voter ∧ voter ∈ (state env before).getSystemMainWitness

theorem VotedIn.append {steps : List ScStep} (h : VotedIn env steps voter choose) (s : ScStep) :
    VotedIn env (steps ++ [s]) voter choose := by
  obtain ⟨before, call, gas, rep, rest, rfl, hrun, hchoose, hcaller, hmain⟩ := h
  exact ⟨before, call, gas, rep, rest ++ [s], by simp, hrun, hchoose, hcaller, hmain⟩

end ScStep

namespace StateDB

theorem putSet_sets (db : StateDB) (key key' : SetKey) (s : StateSet) :
    (db.putSet key s).sets key' = if key' = key then s else db.sets key' :=
  Function.update_apply _ _ _ _

theorem putSet_map_sets (db : StateDB) (key key' : SetKey) (f : StateSet → StateSet) :
    (db.putSet key (f (db.sets key))).sets key' =
      if key' = key then f (db.sets key') else db.sets key' := by
  rw [putSet_sets]
  split
  · next heq => rw [heq]
  · rfl

theorem insertTo_eq (db : StateDB) (key : SetKey) (v : Hash) :
    db.insertTo key v = db.putSet key (StateSet.insert (db.sets key) v) := by
  rw [insertTo, StateSet.insert]
  cases StateSet.exist (db.sets key) v with
  | some index => exact (db.putSet_self key).symm
  | none => rfl

/-- What `arbitrationVote` does to the state once its checks have passed. -/
def afterVote (env : Env) (db : StateDB) (choose : UnitID) (voter : Address) : StateDB :=
  if Params.getChainMinVoting env.scAccount choose.chainID ≤
      (db.writeChainArbitration choose voter).2 then
    ((db.writeChainArbitration choose voter).1.clearArbitrationNumberFlag choose.chainID
      choose.height).writeArbitrationResult choose
  else (db.writeChainArbitration choose voter).1

structure Votable (db : StateDB) (choose : UnitID) : Prop where
  height_ne : choose.height ≠ 0
  hash_ne : choose.hash ≠ zero
  current : db.getChainArbitrationNumber choose.chainID = choose.height
  undecided : db.arbitrationResult choose.chainID choose.height = zero

theorem arbitrationVote_spec {unit : Header} (h : db.arbitrationVote env unit voter = .ok db') :
    Votable db unit.id ∧ db' = db.afterVote env unit.id voter := by
  unfold arbitrationVote at h
  simp only [guard_eq_ok_iff] at h
  obtain ⟨hempty, -, hcurrent, hundecided, h⟩ := h
  have hnonempty : unit.id.height ≠ 0 ∧ unit.id.hash ≠ zero := by
    simp only [UnitID.isEmpty, Bool.or_eq_true, beq_iff_eq, emptyHash_iff, not_or] at hempty
    exact ⟨hempty.1.1, hempty.2⟩
  refine ⟨⟨hnonempty.1, hnonempty.2, Decidable.not_not.mp hcurrent, ?_⟩, ?_⟩
  · simpa [getArbitrationResult] using hundecided
  · rw [afterVote]
    split at h
    · next hmin =>
      rw [if_pos hmin]
      exact (Except.ok.inj h).symm
    · next hmin =>
      rw [if_neg hmin]
      exact (Except.ok.inj h).symm

theorem writeArbitrationNumberFlag_eq (db : StateDB) (chain : Address) (number : Nat) :
    db.writeArbitrationNumberFlag chain number = db.putSet (arbitrationIngKey chain)
      (insert (db.sets (arbitrationIngKey chain)) (uint2Hash number)) := by
  rw [writeArbitrationNumberFlag, insertTo_eq]

theorem clearArbitrationNumberFlag_eq (db : StateDB) (chain : Address) (number : Nat) :
    db.clearArbitrationNumberFlag chain number = db.putSet (arbitrationIngKey chain)
      (erase (db.sets (arbitrationIngKey chain)) (uint2Hash number)) := by
  rw [clearArbitrationNumberFlag, erase]
  cases exist (db.sets (arbitrationIngKey chain)) (uint2Hash number) with
  | some index => rfl
  | none => exact (db.putSet_self _).symm

def firstVote (db : StateDB) (choose : UnitID) (voter : Address) : StateDB :=
  ((db.putSet (choicesKey choose.chainID choose.height)
    (insert (db.sets (choicesKey choose.chainID choose.height)) choose.hash)).putSet
    (voterSetKey choose.chainID choose.height choose.hash) (add
      (db.sets (voterSetKey choose.chainID choose.height choose.hash)) voter.toHash)).putSet
    (votersKey choose.chainID choose.height)
      (add (db.sets (votersKey choose.chainID choose.height)) voter.toHash)

/-- Only a first vote is counted, for its unit and for the height, and its unit is a choice. -/
theorem writeChainArbitration_eq
    (hvoters : Faithful (db.sets (votersKey choose.chainID choose.height))) (voter : Address) :
    ∃ db₁, (db₁ = db ∨ (voter.toHash ∉ (db.sets (votersKey choose.chainID choose.height)).toList ∧
        db₁ = db.firstVote choose voter)) ∧
      db.writeChainArbitration choose voter =
        (db₁, (db₁.sets (voterSetKey choose.chainID choose.height choose.hash)).length) := by
  rw [writeChainArbitration]
  cases hexist : exist (db.sets (votersKey choose.chainID choose.height)) voter.toHash with
  | some index => exact ⟨db, .inl rfl, rfl⟩
  | none =>
    refine ⟨_, .inr ⟨(exist_eq_none_iff hvoters).mp hexist, ?_⟩, rfl⟩
    have hvoterSet : voterSetKey choose.chainID choose.height choose.hash ≠
        choicesKey choose.chainID choose.height := by simp [voterSetKey, choicesKey]
    have hvoters' : votersKey choose.chainID choose.height ≠
        choicesKey choose.chainID choose.height := by simp [votersKey, choicesKey]
    simp [firstVote, insertTo_eq, addTo, putSet_sets, hvoterSet, hvoters',
      (voterSetKey_ne_votersKey _ _ _ _ _).symm]

end StateDB

/-! ## What the register says -/

open StateDB

/-- The sets are well formed, who is counted for a unit has voted for it, and a unit with a result
has enough votes. -/
structure Register (Voted : Address → UnitID → Prop) (db : StateDB) : Prop where
  faithful : ∀ key, IsRegisterKey key → Faithful (db.sets key)
  counted : ∀ c n h v, v ∈ (db.sets (voterSetKey c n h)).toList →
    v ∈ (db.sets (votersKey c n)).toList
  voted : ∀ c n h v, v ∈ (db.sets (voterSetKey c n h)).toList → Voted v.toAddress ⟨c, n, h⟩
  decided : ∀ c n, db.arbitrationResult c n ≠ zero →
    8 ≤ (db.sets (voterSetKey c n (db.arbitrationResult c n))).length

structure Undecided (db : StateDB) : Prop where
  numbers : ∀ c, ∀ v ∈ (db.sets (arbitrationIngKey c)).toList, ∃ n, n < 2 ^ 64 ∧ v = uint2Hash n
  undecided : ∀ c n, db.arbitrationResult c n ≠ zero →
    uint2Hash n ∉ (db.sets (arbitrationIngKey c)).toList

structure SameRegister (db db' : StateDB) : Prop where
  sets : ∀ key, IsRegisterKey key → db'.sets key = db.sets key
  results : db'.arbitrationResult = db.arbitrationResult

section Vote

variable {Voted : Address → UnitID → Prop} {db db' : StateDB} {choose : UnitID} {voter : Address}

theorem faithful_putSet {s : StateSet} (h : ∀ key, IsRegisterKey key → Faithful (db.sets key))
    (hs : Faithful s) : ∀ key', IsRegisterKey key' → Faithful ((db.putSet key s).sets key') := by
  intro key' hkey'
  rw [putSet_sets]
  split
  · exact hs
  · exact h key' hkey'

theorem Register.congr (h : Register Voted db)
    (hfaithful : ∀ key, IsRegisterKey key → Faithful (db'.sets key))
    (hvotes : ∀ key, IsRegisterKey key → key.length = 4 → db'.sets key = db.sets key)
    (hresult : ∀ c n, db'.arbitrationResult c n = db.arbitrationResult c n ∨
      8 ≤ (db.sets (voterSetKey c n (db'.arbitrationResult c n))).length) : Register Voted db' := by
  have hvoters : ∀ c n, db'.sets (votersKey c n) = _ := fun c n => hvotes _ rfl rfl
  have hvoterSet : ∀ c n h, db'.sets (voterSetKey c n h) = _ := fun c n h => hvotes _ rfl rfl
  refine ⟨hfaithful, ?_, ?_, fun c n hne => ?_⟩
  · simpa only [hvoterSet, hvoters] using h.counted
  · simpa only [hvoterSet] using h.voted
  · rw [hvoterSet]
    rcases hresult c n with heq | hcount
    · rw [heq] at hne ⊢
      exact h.decided c n hne
    · exact hcount

theorem Register.same (h : Register Voted db) (hsame : SameRegister db db') : Register Voted db' := by
  refine h.congr (fun key hkey => ?_) (fun key hkey _ => hsame.sets key hkey) fun c n => .inl ?_
  · rw [hsame.sets key hkey]
    exact h.faithful key hkey
  · rw [hsame.results]

theorem Register.putNumbers (h : Register Voted db) {chain : Address} {s : StateSet}
    (hs : Faithful s) : Register Voted (db.putSet (arbitrationIngKey chain) s) := by
  refine h.congr (faithful_putSet h.faithful hs) (fun key _ hlength => ?_) fun c n => .inl rfl
  refine putSet_sets_of_ne db ?_ s
  rintro rfl
  cases hlength

theorem Undecided.congr (h : Undecided db)
    (hnumbers : ∀ c, ∀ v ∈ (db'.sets (arbitrationIngKey c)).toList,
      v ∈ (db.sets (arbitrationIngKey c)).toList ∨
        ∃ n, n < 2 ^ 64 ∧ v = uint2Hash n ∧ db'.arbitrationResult c n = zero)
    (hresult : ∀ c n, db'.arbitrationResult c n = db.arbitrationResult c n ∨
      uint2Hash n ∉ (db'.sets (arbitrationIngKey c)).toList) : Undecided db' := by
  refine ⟨fun c v hv => ?_, fun c n hne hin => ?_⟩
  · rcases hnumbers c v hv with hold | ⟨n, hlt, heq, -⟩
    · exact h.numbers c v hold
    · exact ⟨n, hlt, heq⟩
  · rcases hresult c n with heq | hout
    · rcases hnumbers c _ hin with hold | ⟨m, -, hm, hzero⟩
      · exact h.undecided c n (heq ▸ hne) hold
      · obtain rfl : n = m := congrArg val hm
        exact hne hzero
    · exact hout hin

theorem Undecided.same (h : Undecided db) (hsame : SameRegister db db') : Undecided db' := by
  refine h.congr (fun c v hv => .inl ?_) fun c n => .inl ?_
  · rwa [hsame.sets _ (by rfl)] at hv
  · rw [hsame.results]

theorem Register.mono {Voted' : Address → UnitID → Prop} (h : Register Voted db)
    (himp : ∀ v c, Voted v c → Voted' v c) : Register Voted' db :=
  { h with voted := fun c n hash v hv => himp _ _ (h.voted c n hash v hv) }

theorem firstVote_sets (key : SetKey) : (db.firstVote choose voter).sets key =
    if key = votersKey choose.chainID choose.height then add (db.sets key) voter.toHash
    else if key = voterSetKey choose.chainID choose.height choose.hash then
      add (db.sets key) voter.toHash
    else if key = choicesKey choose.chainID choose.height then
      insert (db.sets key) choose.hash
    else db.sets key := by
  simp only [StateDB.firstVote, putSet_sets]
  split_ifs with hkey hkey hkey <;> simp [hkey]

theorem firstVote_voterSet (c : Address) (n : Nat) (h : Hash) :
    (db.firstVote choose voter).sets (voterSetKey c n h) =
      if c = choose.chainID ∧ n = choose.height ∧ h = choose.hash then
        add (db.sets (voterSetKey c n h)) voter.toHash
      else db.sets (voterSetKey c n h) := by
  rw [firstVote_sets, if_neg (voterSetKey_ne_votersKey _ _ _ _ _)]
  simp [voterSetKey, choicesKey]

theorem firstVote_voters (c : Address) (n : Nat) :
    (db.firstVote choose voter).sets (votersKey c n) =
      if c = choose.chainID ∧ n = choose.height then
        add (db.sets (votersKey c n)) voter.toHash
      else db.sets (votersKey c n) := by
  rw [firstVote_sets, if_neg (voterSetKey_ne_votersKey _ _ _ _ _).symm]
  simp [votersKey, choicesKey]

theorem Register.firstVote (h : Register Voted db) (hvoted : Voted voter choose)
    (hnew : voter.toHash ∉ (db.sets (votersKey choose.chainID choose.height)).toList) :
    Register Voted (db.firstVote choose voter) := by
  refine ⟨faithful_putSet (faithful_putSet (faithful_putSet h.faithful ?_) ?_) ?_,
    fun c n hash v hv => ?_, fun c n hash v hv => ?_, fun c n hresult => ?_⟩
  · exact faithful_insert (h.faithful _ (by rfl)) _
  · exact faithful_add (h.faithful _ (by rfl)) fun hin => hnew (h.counted _ _ _ _ hin)
  · exact faithful_add (h.faithful _ (by rfl)) hnew
  · have hmem : v ∈ (db.sets (votersKey c n)).toList ∨
        (c = choose.chainID ∧ n = choose.height ∧ v = voter.toHash) := by
      rw [firstVote_voterSet] at hv
      split at hv
      · next hsame =>
        rw [toList_add, mem_append, mem_singleton] at hv
        rcases hv with hold | rfl
        · exact .inl (h.counted c n hash v hold)
        · exact .inr ⟨hsame.1, hsame.2.1, rfl⟩
      · exact .inl (h.counted c n hash v hv)
    rw [firstVote_voters]
    split
    · rw [toList_add, mem_append, mem_singleton]
      exact hmem.imp_right fun hlast => hlast.2.2
    · next hother =>
      rcases hmem with hold | ⟨hc, hn, -⟩
      · exact hold
      · exact absurd ⟨hc, hn⟩ hother
  · rw [firstVote_voterSet] at hv
    split at hv
    · next hsame =>
      rw [toList_add, mem_append, mem_singleton] at hv
      rcases hv with hold | rfl
      · exact h.voted c n hash v hold
      · obtain ⟨rfl, rfl, rfl⟩ := hsame
        exact hvoted
    · exact h.voted c n hash v hv
  · have hold := h.decided c n hresult
    change 8 ≤ ((db.firstVote choose voter).sets
      (voterSetKey c n (db.arbitrationResult c n))).length
    rw [firstVote_voterSet]
    split
    · rw [length_add]
      omega
    · exact hold

def endVote (db : StateDB) (choose : UnitID) : StateDB :=
  (db.clearArbitrationNumberFlag choose.chainID choose.height).writeArbitrationResult choose

theorem endVote_sets (key : SetKey) : (endVote db choose).sets key =
      if key = arbitrationIngKey choose.chainID then
        erase (db.sets key) (uint2Hash choose.height)
      else db.sets key := by
  rw [endVote, clearArbitrationNumberFlag_eq]
  exact putSet_map_sets db _ key (erase · (uint2Hash choose.height))

theorem endVote_result (c : Address) (n : Nat) : (endVote db choose).arbitrationResult c n =
      if c = choose.chainID ∧ n = choose.height then choose.hash else db.arbitrationResult c n := by
  rw [endVote, clearArbitrationNumberFlag_eq, writeArbitrationResult]
  dsimp only [putSet]
  by_cases hc : c = choose.chainID
  · subst hc
    rw [Function.update_self, Function.update_apply]
    simp
  · rw [Function.update_of_ne hc, if_neg fun hsame => hc hsame.1]

theorem Register.endVote (h : Register Voted db)
    (hcount : 8 ≤ (db.sets (voterSetKey choose.chainID choose.height choose.hash)).length) :
    Register Voted (Sc.endVote db choose) := by
  have hcleared : Register Voted (db.clearArbitrationNumberFlag choose.chainID choose.height) := by
    rw [clearArbitrationNumberFlag_eq]
    exact h.putNumbers (faithful_erase (h.faithful _ (by rfl)) _)
  refine h.congr hcleared.faithful (fun key _ hlength => ?_) fun c n => ?_
  · rw [endVote_sets, if_neg]
    rintro rfl
    cases hlength
  · rw [endVote_result]
    split
    · next hsame =>
      rw [hsame.1, hsame.2]
      exact .inr hcount
    · exact .inl rfl

theorem Register.afterVote_eq (env : Env) (h : Register Voted db) (choose : UnitID)
    (voter : Address) :
    ∃ db₁, (db₁ = db ∨ (voter.toHash ∉ (db.sets (votersKey choose.chainID choose.height)).toList ∧
        db₁ = db.firstVote choose voter)) ∧
      (db.afterVote env choose voter = db₁ ∨
        (8 ≤ (db₁.sets (voterSetKey choose.chainID choose.height choose.hash)).length ∧
          db.afterVote env choose voter = Sc.endVote db₁ choose)) := by
  obtain ⟨db₁, hfirst, hwrite⟩ := writeChainArbitration_eq (h.faithful
    (votersKey choose.chainID choose.height) rfl) voter
  refine ⟨db₁, hfirst, ?_⟩
  rw [afterVote, hwrite, Params.getChainMinVoting_eq]
  split
  · next hmin => exact .inr ⟨hmin, rfl⟩
  · exact .inl rfl

theorem Register.vote (env : Env) (h : Register Voted db) (hvoted : Voted voter choose) :
    Register Voted (db.afterVote env choose voter) := by
  obtain ⟨db₁, hfirst, hend⟩ := h.afterVote_eq env choose voter
  have h₁ : Register Voted db₁ := by
    rcases hfirst with rfl | ⟨hnew, rfl⟩
    · exact h
    · exact h.firstVote hvoted hnew
  rcases hend with heq | ⟨hmin, heq⟩
  · exact heq ▸ h₁
  · exact heq ▸ h₁.endVote hmin

end Vote

structure InRegister (db db' : StateDB) : Prop where
  sets : ∀ key, ¬IsRegisterKey key → db'.sets key = db.sets key
  rest : db' = { db with sets := db'.sets, arbitrationResult := db'.arbitrationResult }

namespace InRegister

variable {db db₁ db' : StateDB}

theorem refl (db : StateDB) : InRegister db db := ⟨fun _ _ => rfl, rfl⟩

theorem trans (h : InRegister db db₁) (h' : InRegister db₁ db') : InRegister db db' := by
  refine ⟨fun key hkey => (h'.sets key hkey).trans (h.sets key hkey), ?_⟩
  rw [h'.rest]
  rw [h.rest]

theorem putSet (db : StateDB) (hkey : IsRegisterKey key) (s : StateSet) :
    InRegister db (db.putSet key s) := by
  refine ⟨fun key' hkey' => ?_, rfl⟩
  rw [putSet_sets, if_neg]
  rintro rfl
  exact hkey' hkey

theorem flag (db : StateDB) (chain : Address) (number : Nat) :
    InRegister db (db.writeArbitrationNumberFlag chain number) := by
  rw [writeArbitrationNumberFlag_eq]
  exact putSet db (by rfl) _

theorem endVote (db : StateDB) (choose : UnitID) : InRegister db (endVote db choose) := by
  rw [Sc.endVote, clearArbitrationNumberFlag_eq]
  exact (putSet db (by rfl) _).trans ⟨fun _ _ => rfl, rfl⟩

theorem consistent (h : InRegister db db') (hdb : Consistent db) : Consistent db' := by
  refine hdb.congr (fun g => h.sets _ fun hkey => hkey.ne_witnessSetKey g rfl) ?_ ?_
  · rw [h.rest]
  · rw [getWitnessGroupCount, getWitnessGroupCount, h.rest]

theorem afterVote (env : Env) (db : StateDB) (choose : UnitID) (voter : Address) :
    InRegister db (db.afterVote env choose voter) := by
  have hwrite : InRegister db (db.writeChainArbitration choose voter).1 := by
    rw [writeChainArbitration]
    split
    · exact refl db
    · rw [insertTo_eq]
      exact ((putSet db (by rfl) _).trans (putSet _ (by rfl) _)).trans (putSet _ (by rfl) _)
  rw [StateDB.afterVote]
  split
  · exact hwrite.trans (endVote _ _)
  · exact hwrite

end InRegister

theorem StateDB.Punished.sameRegister {accused : List Address} (h : Punished db db' accused) :
    SameRegister db db' := by
  refine ⟨fun key hkey => h.sets key hkey.ne_witnessSetKey, ?_⟩
  rw [h.rest]

theorem MemberStep.sameRegister {s : MemberStep} (hdb : Consistent db) (h : s.run env db = .ok db') :
    Consistent db' ∧ SameRegister db db' := by
  obtain ⟨hconsistent, hsets, hresult, -⟩ := MemberStep.frame hdb h
  exact ⟨hconsistent, fun key hkey => hsets key hkey.ne_witnessSetKey hkey.ne_allWitenssKey, hresult⟩

/-! ## One step -/

section Step

variable {Voted : Address → UnitID → Prop} {env : Env} {db db' : StateDB}

theorem flag_sets (db : StateDB) (chain : Address) (number : Nat) (key : SetKey) :
    (db.writeArbitrationNumberFlag chain number).sets key =
      if key = arbitrationIngKey chain then insert (db.sets key) (uint2Hash number)
      else db.sets key := by
  rw [writeArbitrationNumberFlag_eq]
  exact putSet_map_sets db _ key (insert · (uint2Hash number))

theorem flag_result (db : StateDB) (chain : Address) (number : Nat) :
    (db.writeArbitrationNumberFlag chain number).arbitrationResult = db.arbitrationResult := by
  rw [writeArbitrationNumberFlag_eq]
  rfl

theorem Register.flag (h : Register Voted db) (chain : Address) (number : Nat) :
    Register Voted (db.writeArbitrationNumberFlag chain number) := by
  rw [writeArbitrationNumberFlag_eq]
  exact h.putNumbers (faithful_insert (h.faithful _ (by rfl)) _)

def ResultsKept (db db' : StateDB) : Prop :=
  ∀ c n, db.arbitrationResult c n ≠ zero →
    db'.arbitrationResult c n = db.arbitrationResult c n

theorem Register.resultsKept_afterVote (env : Env) (h : Register Voted db) (voter : Address)
    (hvotable : Votable db choose) : ResultsKept db (db.afterVote env choose voter) := by
  intro c n hresult
  obtain ⟨db₁, hfirst, hend⟩ := h.afterVote_eq env choose voter
  have h₁ : db₁.arbitrationResult = db.arbitrationResult := by
    rcases hfirst with rfl | ⟨-, rfl⟩ <;> rfl
  rcases hend with heq | ⟨-, heq⟩
  · rw [heq, h₁]
  rw [heq, endVote_result, h₁]
  split
  · next hsame =>
    rw [hsame.1, hsame.2] at hresult
    exact absurd hvotable.undecided hresult
  · rfl

theorem Undecided.flag (h : Undecided db) (hregister : Register Voted db) {chain : Address}
    {number : Nat} (hlt : number < 2 ^ 64) (hopen : db.arbitrationResult chain number = zero) :
    Undecided (db.writeArbitrationNumberFlag chain number) := by
  refine h.congr (fun c v hv => ?_) fun c n => .inl (by rw [flag_result])
  rw [flag_sets] at hv
  rw [flag_result]
  split at hv
  · next heq =>
    obtain rfl := arbitrationIngKey_inj.mp heq
    exact ((mem_insert (hregister.faithful _ (by rfl))).mp hv).imp_right fun heq =>
      ⟨number, hlt, heq, hopen⟩
  · exact .inl hv

theorem Undecided.endVote (h : Undecided db) (hregister : Register Voted db) (choose : UnitID) :
    Undecided (Sc.endVote db choose) := by
  refine h.congr (fun c v hv => .inl ?_) fun c n => ?_
  · rw [endVote_sets] at hv
    split at hv
    · exact ((mem_erase (hregister.faithful _ (by rfl))).mp hv).1
    · exact hv
  · rw [endVote_result]
    split
    · next hsame =>
      right
      rw [endVote_sets, hsame.1, hsame.2, if_pos rfl,
        mem_erase (hregister.faithful _ (by rfl))]
      exact fun hin => hin.2 rfl
    · exact .inl rfl

theorem Undecided.vote (h : Undecided db) (hregister : Register Voted db)
    (hvoted : Voted voter choose) (hheight : choose.height ≠ 0x5f696e67) :
    Undecided (db.afterVote env choose voter) := by
  obtain ⟨db₁, hfirst, hend⟩ := hregister.afterVote_eq env choose voter
  have h₁ : Undecided db₁ ∧ Register Voted db₁ := by
    rcases hfirst with rfl | ⟨hnew, rfl⟩
    · exact ⟨h, hregister⟩
    refine ⟨h.congr (fun c v hv => .inl ?_) fun c n => .inl rfl, hregister.firstVote hvoted hnew⟩
    have hkey : arbitrationIngKey c ≠ choicesKey choose.chainID choose.height := fun heq =>
      hheight (choicesKey_eq_arbitrationIngKey.mp heq.symm).2
    rwa [firstVote_sets, if_neg (by simp [arbitrationIngKey, votersKey]),
      if_neg (by simp [arbitrationIngKey, voterSetKey]), if_neg hkey] at hv
  rcases hend with heq | ⟨-, heq⟩
  · exact heq ▸ h₁.1
  · exact heq ▸ h₁.1.endVote h₁.2 choose

end Step

namespace ScStep

/-- A call changes the groups, or is a report that may punish, flag a height and vote. -/
theorem run_cases {s : ScStep} (hdb : Consistent db) (h : s.run env db = .ok db') :
    Consistent db' ∧ (SameRegister db db' ∨ ∃ call gas rep db₁ db₂, s = report call gas rep ∧
      call.caller ∈ db.getSystemMainWitness ∧ SameRegister db db₁ ∧
      (db₂ = db₁ ∨ ∃ first ∈ rep.proof.head?,
        db₂ = db₁.writeArbitrationNumberFlag first.header.mc first.header.number) ∧
      (db' = db₂ ∨ (Votable db₂ rep.choose.id ∧
        db' = db₂.afterVote env rep.choose.id call.caller))) := by
  cases s with
  | member s =>
    obtain ⟨hconsistent, hsame⟩ := MemberStep.sameRegister hdb h
    exact ⟨hconsistent, .inl hsame⟩
  | report call gas rep =>
    obtain ⟨⟨db₀, gas'⟩, hreport, hend⟩ := bind_eq_ok_iff.mp h
    cases hend
    obtain ⟨hcaller, ⟨-, hvote⟩ | ⟨first, rest, bads, db₁, gas₁, gas₂, hproof, -, hpunish, hlast⟩⟩ :=
      systemReportDishonest_cases hreport
    · obtain ⟨hvotable, rfl⟩ := arbitrationVote_spec hvote
      exact ⟨(InRegister.afterVote env _ _ _).consistent hdb, .inr ⟨call, gas, rep, db, db,
        rfl, hcaller, ⟨fun _ _ => rfl, rfl⟩, .inl rfl, .inr ⟨hvotable, rfl⟩⟩⟩
    · have hpunished := (punish_spec hdb hpunish).2
      have hsame := hpunished.sameRegister
      have hflag := InRegister.flag db₁ first.header.mc first.header.number
      have hfirst : first ∈ rep.proof.head? := by rw [hproof]; rfl
      rcases hlast with ⟨-, rfl⟩ | ⟨-, -, -, hvote⟩
      · exact ⟨hflag.consistent hpunished.consistent, .inr ⟨call, gas, rep, db₁, _, rfl, hcaller,
          hsame, .inr ⟨first, hfirst, rfl⟩, .inl rfl⟩⟩
      obtain ⟨hvotable, rfl⟩ := arbitrationVote_spec hvote
      exact ⟨(hflag.trans (InRegister.afterVote env _ _ _)).consistent
        hpunished.consistent, .inr ⟨call, gas, rep, db₁, _, rfl, hcaller, hsame,
          .inr ⟨first, hfirst, rfl⟩, .inr ⟨hvotable, rfl⟩⟩⟩

/-- The call reports no height that has a result, and votes at none whose choices are kept under the
name of that set. -/
def Orderly (db : StateDB) : ScStep → Prop
  | member _ => True
  | report _ _ rep =>
    (∀ first ∈ rep.proof.head?,
      db.arbitrationResult first.header.mc first.header.number = zero) ∧
    rep.choose.number ≠ 0x5f696e67

theorem register_run {Voted : Address → UnitID → Prop} {s : ScStep} (hdb : Consistent db)
    (hregister : Register Voted db) (h : s.run env db = .ok db')
    (hvoted : ∀ call gas rep, s = report call gas rep → call.caller ∈ db.getSystemMainWitness →
      Voted call.caller rep.choose.id) : Consistent db' ∧ Register Voted db' ∧ ResultsKept db db' ∧
      (Undecided db → s.Orderly db → Undecided db') := by
  obtain ⟨hconsistent, hsame | ⟨call, gas, rep, db₁, db₂, rfl, hcaller, hsame, hflag, hvote⟩⟩ :=
    run_cases hdb h
  · refine ⟨hconsistent, hregister.same hsame, fun c n _ => ?_, fun hundecided _ =>
      hundecided.same hsame⟩
    rw [hsame.results]
  · have hregister₁ := hregister.same hsame
    have hflagged : Register Voted db₂ ∧ db₂.arbitrationResult = db.arbitrationResult ∧
        (Undecided db → (report call gas rep).Orderly db → Undecided db₂) := by
      rcases hflag with rfl | ⟨first, hfirst, rfl⟩
      · exact ⟨hregister₁, hsame.results, fun hundecided _ => hundecided.same hsame⟩
      refine ⟨hregister₁.flag _ _, ?_, fun hundecided horderly => ?_⟩
      · rw [flag_result, hsame.results]
      · refine (hundecided.same hsame).flag hregister₁ first.header.number_lt ?_
        rw [hsame.results]
        exact horderly.1 first hfirst
    obtain ⟨hregister₂, hresults, hundecided₂⟩ := hflagged
    have hcalled := hvoted call gas rep rfl hcaller
    rcases hvote with rfl | ⟨hvotable, rfl⟩
    · refine ⟨hconsistent, hregister₂, fun c n _ => ?_, hundecided₂⟩
      rw [hresults]
    refine ⟨hconsistent, hregister₂.vote env hcalled,
      fun c n hresult => ?_, fun hundecided horderly =>
        (hundecided₂ hundecided horderly).vote hregister₂ hcalled horderly.2⟩
    have hkept := hregister₂.resultsKept_afterVote env call.caller hvotable c n
    rw [hresults] at hkept
    exact hkept hresult

instance (db : StateDB) (s : ScStep) : Decidable (s.Orderly db) :=
  match s with
  | member _ => isTrue trivial
  | report _ _ rep => inferInstanceAs (Decidable ((∀ first ∈ rep.proof.head?,
      db.arbitrationResult first.header.mc first.header.number = zero) ∧
      rep.choose.number ≠ 0x5f696e67))

def OrderlyRun (env : Env) : StateDB → List ScStep → Prop
  | _, [] => True
  | db, s :: rest =>
    ((s.run env db).isOk = true → s.Orderly db) ∧ OrderlyRun env (s.after env db) rest

instance decidableOrderlyRun (env : Env) :
    ∀ (db : StateDB) (steps : List ScStep), Decidable (OrderlyRun env db steps)
  | _, [] => isTrue trivial
  | db, s :: rest =>
    have := decidableOrderlyRun env (s.after env db) rest
    inferInstanceAs (Decidable (((s.run env db).isOk = true → s.Orderly db) ∧
      OrderlyRun env (s.after env db) rest))

theorem orderlyRun_append_singleton (env : Env) (db : StateDB) (steps : List ScStep) (s : ScStep) :
    OrderlyRun env db (steps ++ [s]) ↔ OrderlyRun env db steps ∧
      ((s.run env (steps.foldl (after env) db)).isOk = true →
        s.Orderly (steps.foldl (after env) db)) := by
  induction steps generalizing db with
  | nil => simp [OrderlyRun]
  | cons t rest ih =>
    rw [cons_append, OrderlyRun, ih, OrderlyRun, foldl_cons, and_assoc]

theorem register_blank (Voted : Address → UnitID → Prop) : Register Voted .blank := by
  have hfaithful : ∀ key, Faithful (StateDB.blank.sets key) :=
    fun _ => Lib.IndexedSet.faithful_of_blank rfl fun _ => rfl
  have hempty : ∀ key v, v ∉ (StateDB.blank.sets key).toList := fun key v => by
    simp [blank, Lib.IndexedSet.toList]
  exact ⟨fun _ _ => hfaithful _, fun _ _ _ _ hv => absurd hv (hempty _ _),
    fun _ _ _ _ hv => absurd hv (hempty _ _), fun _ _ hresult => absurd rfl hresult⟩

theorem after_eq_or (env : Env) (db : StateDB) (s : ScStep) :
    s.after env db = db ∨ s.run env db = .ok (s.after env db) := by
  rw [after]
  cases s.run env db with
  | error e => exact .inl rfl
  | ok db' => exact .inr rfl

theorem register_state (env : Env) (steps : List ScStep) :
    Consistent (state env steps) ∧ Register (VotedIn env steps) (state env steps) ∧
      (OrderlyRun env .blank steps → Undecided (state env steps)) := by
  induction steps using reverseRecOn with
  | nil =>
    refine ⟨consistent_blank, register_blank _, fun _ => ⟨fun c v hv => ?_, fun c n hresult => ?_⟩⟩
    · simp [state, blank, Lib.IndexedSet.toList] at hv
    · exact absurd rfl hresult
  | append_singleton steps s ih =>
    obtain ⟨hdb, hregister, hundecided⟩ := ih
    have hregister' := hregister.mono fun v c hv => VotedIn.append hv s
    rw [state_append_singleton]
    rcases after_eq_or env (state env steps) s with heq | hrun
    · rw [heq]
      exact ⟨hdb, hregister', fun horderly =>
        hundecided ((orderlyRun_append_singleton ..).mp horderly).1⟩
    · have hok : (s.run env (state env steps)).isOk = true := by rw [hrun]; rfl
      obtain ⟨hdb', hregister'', -, hstep⟩ := register_run hdb hregister' hrun
        fun call gas rep hs hcaller =>
          ⟨steps, call, gas, rep, [], by rw [hs], hs ▸ hok, rfl, rfl, hcaller⟩
      refine ⟨hdb', hregister'', fun horderly => ?_⟩
      obtain ⟨hsteps, hlast⟩ := (orderlyRun_append_singleton ..).mp horderly
      exact hstep (hundecided hsteps) (hlast hok)

theorem resultsKept_state (env : Env) (steps more : List ScStep) :
    ResultsKept (state env steps) (state env (steps ++ more)) := by
  induction more using reverseRecOn with
  | nil =>
    intro c n _
    rw [append_nil]
  | append_singleton more s ih =>
    intro c n hresult
    obtain ⟨hdb, hregister, -⟩ := register_state env (steps ++ more)
    rw [← append_assoc, state_append_singleton, ← ih c n hresult]
    rcases after_eq_or env (state env (steps ++ more)) s with heq | hrun
    · rw [heq]
    have hanyone : Register (fun _ _ => True) (state env (steps ++ more)) :=
      hregister.mono fun _ _ _ => trivial
    refine (register_run hdb hanyone hrun fun _ _ _ _ _ => trivial).2.2.1 c n ?_
    rw [ih c n hresult]
    exact hresult

/-- A result never changes, and enough main system witnesses have voted for it. Its height stays out
of the register if the calls are orderly. -/
theorem arbitration_register (env : Env) (steps : List ScStep) (c : Address) (n : Nat)
    (hresult : (state env steps).getArbitrationResult c n ≠ zero) :
    (∀ more, (state env (steps ++ more)).getArbitrationResult c n =
      (state env steps).getArbitrationResult c n) ∧
    (∃ voters : List Address, voters.Nodup ∧
      Params.getChainMinVoting env.scAccount c ≤ voters.length ∧
      ∀ v ∈ voters, VotedIn env steps v ⟨c, n, (state env steps).getArbitrationResult c n⟩) ∧
    (OrderlyRun env .blank steps → n ∉ (state env steps).arbitrationNumbers c) := by
  obtain ⟨-, hregister, hundecided⟩ := register_state env steps
  refine ⟨fun more => resultsKept_state env steps more c n hresult, ?_, fun horderly hin => ?_⟩
  · have hfaithful :=
      hregister.faithful (voterSetKey c n ((state env steps).arbitrationResult c n)) rfl
    have hmin := hregister.decided c n hresult
    refine ⟨((state env steps).sets (voterSetKey c n
      ((state env steps).arbitrationResult c n))).toList.map toAddress, ?_, ?_, ?_⟩
    · refine hfaithful.nodup.map fun a b hab => ?_
      have := congrArg Address.toHash hab
      simpa using this
    · rw [length_map, Lib.IndexedSet.length_toList, Params.getChainMinVoting_eq]
      exact hmin
    · exact fun v hv => hregister.voted c n _ _ (mem_map_toAddress.mp hv)
  · obtain ⟨v, hv, rfl⟩ := mem_map.mp hin
    obtain ⟨m, hm, rfl⟩ := (hundecided horderly).numbers c v hv
    rw [hash2uint_uint2Hash hm] at hresult
    exact (hundecided horderly).undecided c m hresult hv

end ScStep

namespace Sample

def joinAll : List ScStep :=
  ((List.range' 201 8).map fun n => .member (.apply ⟨n⟩ 0 0 [1] true)) ++
    (List.range' 101 8).map fun n => .member (.apply ⟨n⟩ 0 0 [1] false)

def reportBy (n : Nat) : ScStep := .report ⟨⟨n⟩, ⟨n⟩, 8⟩ 5000000 ⟨noChoice, doubled⟩

def voteBy (n : Nat) : ScStep := .report ⟨⟨n⟩, ⟨n⟩, 8⟩ 5000000 ⟨(votedUnit 1 101).header, []⟩

def arbitrated : List ScStep := joinAll ++ reportBy 201 :: (List.range' 201 8).map voteBy

/-- The height is decided by eight votes, and is no more under arbitration. -/
theorem arbitrated_register :
    (ScStep.state reportEnv arbitrated).getArbitrationResult ⟨50⟩ 7 ≠ zero ∧
      (∃ voters : List Address, voters.Nodup ∧ 8 ≤ voters.length ∧
        ∀ v ∈ voters, ScStep.VotedIn reportEnv arbitrated v
          ⟨⟨50⟩, 7, (ScStep.state reportEnv arbitrated).getArbitrationResult ⟨50⟩ 7⟩) ∧
      7 ∉ (ScStep.state reportEnv arbitrated).arbitrationNumbers ⟨50⟩ := by
  have hresult : (ScStep.state reportEnv arbitrated).getArbitrationResult ⟨50⟩ 7 ≠ zero := by
    decide +kernel
  obtain ⟨-, hvoters, hopen⟩ :=
    ScStep.arbitration_register reportEnv arbitrated ⟨50⟩ 7 hresult
  exact ⟨hresult, hvoters, hopen (by decide +kernel)⟩

/-- The same units are reported once more: the height has a result and is under arbitration
again. -/
theorem reported_after_result : let db := ScStep.state reportEnv (arbitrated ++ [reportBy 202])
    db.getArbitrationResult ⟨50⟩ 7 ≠ zero ∧ 7 ∈ db.arbitrationNumbers ⟨50⟩ := by
  decide +kernel

end Sample

end Nerthus.Sc
