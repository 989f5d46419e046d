import Nerthus.Bft.Validator

/-!
# The validators of a chain

Which witnesses take part in the next unit and in which order they propose. `CalcProposer` walks
once around the sorted list. `backend.Validators` reads the list from the witness library, or
takes it from one cache entry that all chains share.
-/

namespace Nerthus.Bft

open List

theorem bytesLe_cons {a b : Nat} {x y : List Nat} :
    bytesLe (a :: x) (b :: y) = true ↔ a < b ∨ a = b ∧ bytesLe x y = true := by
  simp [bytesLe]

theorem bytesLe_total (x y : List Nat) : bytesLe x y = true ∨ bytesLe y x = true := by
  induction x generalizing y with
  | nil => exact Or.inl rfl
  | cons a x ih =>
    cases y with
    | nil => exact Or.inr rfl
    | cons b y => grind [bytesLe_cons]

theorem bytesLe_trans {x y z : List Nat} (h : bytesLe x y = true) (h' : bytesLe y z = true) :
    bytesLe x z = true := by
  induction x generalizing y z with
  | nil => rfl
  | cons a x ih => cases y <;> cases z <;> grind [bytesLe_cons, bytesLe]

theorem bytesLe_antisymm {x y : List Nat} (h : bytesLe x y = true) (h' : bytesLe y x = true) :
    x = y := by
  induction x generalizing y with
  | nil => cases y <;> grind [bytesLe]
  | cons a x ih => cases y <;> grind [bytesLe_cons, bytesLe]

section Canonical

variable (text : Address → List Nat)

instance : Std.Total fun x y => bytesLe (text x) (text y) = true := ⟨fun _ _ => bytesLe_total _ _⟩

instance : IsTrans Address fun x y => bytesLe (text x) (text y) = true :=
  ⟨fun _ _ _ => bytesLe_trans⟩

@[simp] theorem validatorsSort_sorted (l : List Address) :
    validatorsSort text (validatorsSort text l) = validatorsSort text l :=
  (pairwise_insertionSort _ l).insertionSort_eq

theorem validatorsSort_eq_of_perm (htext : Function.Injective text) {l l' : List Address}
    (h : l.Perm l') : validatorsSort text l = validatorsSort text l' := by
  refine List.Perm.eq_of_pairwise (fun x y _ _ hxy hyx => htext (bytesLe_antisymm hxy hyx))
    (pairwise_insertionSort _ l) (pairwise_insertionSort _ l') ?_
  exact (perm_insertionSort _ l).trans (h.trans (perm_insertionSort _ l').symm)

end Canonical

namespace ValidatorSet

def seed (v : ValidatorSet) (proposer : Address) : Nat :=
  if proposer.empty then v.height + v.solt
  else (if proposer ∈ v.validators then v.validators.idxOf proposer else 0) + 1

theorem calcProposer_eq {v : ValidatorSet} {proposer : Address} {round : Nat}
    (h : v.seed proposer + round < 2 ^ 64) : (v.calcProposer proposer round).proposer =
      v.validators.getD ((v.seed proposer + round) % v.size) Address.emptyAddress := by
  unfold seed at h ⊢
  unfold calcProposer nextRoundProposer calcSeed size
  split_ifs at h ⊢ with hempty
  all_goals
    dsimp only
    congr 2
    unfold uint64
    omega

theorem proposers_eq_rotate {v : ValidatorSet} {proposer : Address} {r : Nat}
    (h : ∀ i < v.size, v.seed proposer + (r + i) < 2 ^ 64) :
    ((range v.size).map fun i => (v.calcProposer proposer (r + i)).proposer) =
      v.validators.rotate (v.seed proposer + r) := by
  refine ext_getElem (by simp [size]) fun i hi hi' => ?_
  have hlt : i < v.size := by simpa using hi
  rw [getElem_map, getElem_range, calcProposer_eq (h i hlt), getElem_rotate, size,
    ← Nat.add_assoc, Nat.add_comm _ i, getElem_eq_getD Address.emptyAddress]

/-- In as many rounds as there are validators each proposes once, whatever the order of the list. -/
theorem rotation_fair (config : Config) (hstring : Function.Injective config.addressString)
    (height : Nat) (preHash : Hash) (validators : List Address) (chain proposer : Address) (r : Nat)
    (hwrap : ∀ i < validators.length,
      (newDefaultSet config height preHash validators chain).seed proposer + (r + i) < 2 ^ 64) :
    ((range validators.length).map fun i =>
        ((newDefaultSet config height preHash validators chain).calcProposer proposer
          (r + i)).proposer).Perm validators ∧
      ∀ l : List Address, l.Perm validators → ∀ round,
        ((newDefaultSet config height preHash l chain).calcProposer proposer round).proposer =
          ((newDefaultSet config height preHash validators chain).calcProposer proposer
            round).proposer := by
  have hperm := newDefaultSet_validators_perm config height preHash validators chain
  constructor
  · rw [← hperm.length_eq] at hwrap ⊢
    have hrotate := proposers_eq_rotate hwrap
    rw [size] at hrotate
    rw [hrotate]
    exact (rotate_perm _ _).trans hperm
  · intro l hl round
    unfold newDefaultSet
    rw [validatorsSort_eq_of_perm _ hstring hl]

def textByNumber : Config := ⟨0, 0, ⟨1⟩, fun a => [a.hash]⟩

theorem rotation_fair_three : Function.Injective textByNumber.addressString ∧
      ((range 3).map fun i =>
        ((newDefaultSet textByNumber 4 .zero [⟨7⟩, ⟨5⟩, ⟨6⟩] ⟨2⟩).calcProposer ⟨6⟩
          (1 + i)).proposer).Perm [⟨7⟩, ⟨5⟩, ⟨6⟩] := by
  have hstring : Function.Injective textByNumber.addressString := by
    rintro ⟨x⟩ ⟨y⟩ h
    cases h
    rfl
  exact ⟨hstring, (rotation_fair textByNumber hstring 4 .zero [⟨7⟩, ⟨5⟩, ⟨6⟩] ⟨2⟩ ⟨6⟩ 1
    (by decide)).1⟩

end ValidatorSet

/-! ## The lookup and its cache -/

structure ChainStore where
  getChainTailHead : Address → Option Header
  getChainWitnessLib : Address → Hash → Option (List Address)

structure ValidatorCache where
  height : Nat
  validator : List Address

/-- A call of `Validators`; without a header the tail of the chain is read. -/
structure Lookup where
  store : ChainStore
  mc : Address
  header : Option Header

namespace Lookup

variable (config : Config) (q : Lookup)

def scHash : Option Hash :=
  (q.store.getChainTailHead config.scAccount).bind fun h =>
    if h.hash.emptyHash then none else some h.hash

def witnesses : Option (List Address) :=
  (q.scHash config).bind (q.store.getChainWitnessLib q.mc)

/-- `header`, or the tail where it is nil; a chain without a tail stops the node. -/
def base : Option Header := q.header <|> q.store.getChainTailHead q.mc

/-- `Validators`; the cache keeps the slice that `NewSet` sorts. -/
def validators (q : Lookup) (cache : ValidatorCache) : ValidatorCache × Option ValidatorSet :=
  match q.scHash config, q.base with
  | some _, some header =>
    if q.header.isSome ∧ header.number ≠ 0 ∧ header.number = cache.height then
      (cache, some (.newDefaultSet config (header.number + 1) header.hash cache.validator q.mc))
    else
      match q.witnesses config with
      | none => (cache, none)
      | some witnessList =>
        let set := ValidatorSet.newDefaultSet config (header.number + 1) header.hash witnessList q.mc
        (if cache.height < header.number then ⟨header.number, set.validators⟩ else cache, some set)
  | _, _ => (cache, none)

def cacheAfter (cache : ValidatorCache) (calls : List Lookup) : ValidatorCache :=
  calls.foldl (fun cache q => (q.validators config cache).1) cache

def entry : Option (Nat × List Address) :=
  q.base.bind fun header => (q.witnesses config).map (header.number, ·)

def raise (best : Nat × List Address) (q : Lookup) : Nat × List Address :=
  match q.entry config with
  | some e => if best.1 < e.1 then e else best
  | none => best

/-- The entry of the first of the calls with the highest header. -/
def highest (calls : List Lookup) : Nat × List Address := calls.foldl (raise config) (0, [])

/-- The last call finds the entry of an earlier one only if that has read the same witnesses. -/
def Undisturbed (header : Header) (calls : List Lookup) : Prop :=
  header.number ≠ 0 → header.number = (highest config calls).1 → q.scHash config ≠ none →
    some (validatorsSort config.addressString (highest config calls).2) =
      (q.witnesses config).map (validatorsSort config.addressString)

def answer (calls : List Lookup) : Option (List Address) :=
  (q.validators config (cacheAfter config ⟨0, []⟩ calls)).2.map ValidatorSet.validators

variable {config}

theorem validators_raise (q : Lookup) (best : Nat × List Address) :
    (q.validators config ⟨best.1, validatorsSort config.addressString best.2⟩).1 =
      ⟨(raise config best q).1, validatorsSort config.addressString (raise config best q).2⟩ := by
  unfold validators raise entry
  cases hsc : q.scHash config with
  | none => simp [witnesses, hsc]
  | some sc =>
    cases q.base with
    | none => rfl
    | some header =>
      dsimp only
      by_cases hhit : q.header.isSome ∧ header.number ≠ 0 ∧ header.number = best.1
      · rw [if_pos hhit]
        cases q.witnesses config <;> simp [hhit.2.2]
      rw [if_neg hhit]
      cases q.witnesses config with
      | none => rfl
      | some list =>
        by_cases hlt : best.1 < header.number <;> simp [hlt, ValidatorSet.newDefaultSet]

theorem cacheAfter_eq (calls : List Lookup) (best : Nat × List Address) :
    cacheAfter config ⟨best.1, validatorsSort config.addressString best.2⟩ calls =
      ⟨(calls.foldl (raise config) best).1,
        validatorsSort config.addressString (calls.foldl (raise config) best).2⟩ := by
  induction calls generalizing best with
  | nil => rfl
  | cons q calls ih =>
    rw [cacheAfter, foldl_cons, foldl_cons, validators_raise]
    exact ih _

/-- The answer is right exactly if no other call has left its witnesses under the number. -/
theorem answer_eq_iff {q : Lookup} {header : Header} (hheader : q.header = some header)
    (calls : List Lookup) :
    q.answer config calls = (q.witnesses config).map (validatorsSort config.addressString) ↔
      q.Undisturbed config header calls := by
  have hcache : cacheAfter config ⟨0, []⟩ calls = ⟨(highest config calls).1,
    validatorsSort config.addressString (highest config calls).2⟩ := cacheAfter_eq calls (0, [])
  have hbase : q.base = some header := by
    rw [base, hheader]
    rfl
  unfold answer Undisturbed validators
  rw [hcache, hbase, hheader]
  cases hsc : q.scHash config with
  | none => simp [witnesses, hsc]
  | some sc =>
    dsimp only
    by_cases hhit : header.number ≠ 0 ∧ header.number = (highest config calls).1
    · rw [if_pos ⟨rfl, hhit⟩, Option.map_some, ValidatorSet.newDefaultSet, validatorsSort_sorted]
      exact ⟨fun h _ _ _ => h, fun h => h hhit.1 hhit.2 nofun⟩
    · rw [if_neg fun h => hhit h.2]
      refine iff_of_true ?_ fun hzero hnumber => absurd ⟨hzero, hnumber⟩ hhit
      cases q.witnesses config <;> rfl

theorem lookup_history_independent (config : Config) (store : ChainStore) (mc : Address)
    (header : Header) (calls calls' : List Lookup) : let q : Lookup := ⟨store, mc, some header⟩
    (q.answer config calls = q.answer config calls' ∧ q.answer config calls =
        (q.witnesses config).map (validatorsSort config.addressString)) ↔
      q.Undisturbed config header calls ∧ q.Undisturbed config header calls' := by
  intro q
  rw [← answer_eq_iff rfl, ← answer_eq_iff rfl]
  constructor
  · rintro ⟨hsame, hlib⟩
    exact ⟨hlib, hsame ▸ hlib⟩
  · rintro ⟨hlib, hlib'⟩
    exact ⟨hlib.trans hlib'.symm, hlib⟩

def chainTails : ChainStore where
  getChainTailHead := fun _ => some ⟨5, ⟨9⟩, ⟨0⟩, by decide⟩
  getChainWitnessLib := fun mc _ => some [mc]

/-- Two chains of the same height: the second gets the witnesses of the first. -/
theorem lookup_after_other_chain : let header : Header := ⟨5, ⟨9⟩, ⟨0⟩, by decide⟩
    let q : Lookup := ⟨chainTails, ⟨8⟩, some header⟩
    ¬ (q.answer ValidatorSet.textByNumber [⟨chainTails, ⟨7⟩, some header⟩] =
        q.answer ValidatorSet.textByNumber [] ∧
      q.answer ValidatorSet.textByNumber [⟨chainTails, ⟨7⟩, some header⟩] =
        (q.witnesses ValidatorSet.textByNumber).map
          (validatorsSort ValidatorSet.textByNumber.addressString)) := by
  decide

end Lookup

end Nerthus.Bft
