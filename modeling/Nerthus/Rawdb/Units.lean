import Nerthus.Core.VerifyUnit

/-!
# The records of a unit

`core/rawdb/unit.go` and `tx.go`: a unit is stored as its header and a compact body that refers to
the transactions, each of which is stored once under its hash. `GetUnit` and `DecodeRawUnit` put
the unit together again.
-/

namespace Nerthus.Rawdb

open Core Lib Function

structure TxStepExecStorage where
  haveTx : Bool
  txHash : Hash
  action : TxAction
  preStep : UnitID
deriving DecidableEq

structure UnitBodyStorage where
  txs : List TxStepExecStorage
  voters : List WitnessVote
  sign : Bytes
deriving DecidableEq

/-- The records by their keys: `headerKey`, `unitBodyKey`, `transactionKey` and
`unitOriginTxsKey`. -/
structure UnitDb where
  header : Hash → Option UnitHeader
  body : Address × Hash × Nat → Option UnitBodyStorage
  tx : Hash → Option Transaction
  originTxs : Hash × Nat → Option (List Hash)

inductive RawErr where
  | nilDereference
  | notFound
  | text (s : String)
deriving DecidableEq

/-- A value of the RLP stream of a raw unit. -/
inductive RawItem where
  | header (h : UnitHeader)
  | body (b : UnitBodyStorage)
  | tx (t : Transaction)
deriving DecidableEq

namespace UnitDb

-- Header.Hash and Transaction.Hash
variable (hashOf : UnitHeader → Hash) (txHashOf : Transaction → Hash) (db : UnitDb)

def writeHeader (h : UnitHeader) : UnitDb :=
  { db with header := update db.header (hashOf h) (some h) }

def writeTransaction (t : Transaction) : UnitDb :=
  { db with tx := update db.tx (txHashOf t) (some t) }

def writeUnitOriginTxs (uhash : Hash) (number : Nat) (txs : List Hash) : UnitDb :=
  if txs.isEmpty then db
  else { db with originTxs := update db.originTxs (uhash, number) (some txs) }

def writeUnitBody (chain : Address) (uhash : Hash) (number : Nat) (u : SealedUnit) :
    UnitDb :=
  let storage : UnitBodyStorage :=
    ⟨u.txs.map fun v => ⟨v.tx.isSome, v.txHash, v.action, v.preStep⟩, u.votes, u.sign⟩
  let db := (u.txs.filterMap TxExec.tx).foldl (writeTransaction txHashOf) db
  let db := { db with body := update db.body (chain, uhash, number) (some storage) }
  db.writeUnitOriginTxs uhash number ((u.txs.filter fun v => v.tx.isSome).map TxExec.txHash)

def writeUnit (u : SealedUnit) : UnitDb :=
  (db.writeHeader hashOf u.header).writeUnitBody txHashOf u.header.mc (hashOf u.header)
    u.header.number u

def getUnitOringTxHash (uhash : Hash) (number : Nat) : List Hash :=
  (db.originTxs (uhash, number)).getD []

def delUnitBody (chain : Address) (number : Nat) (uhash : Hash) : UnitDb :=
  let origin := db.getUnitOringTxHash uhash number
  { db with
    body := update db.body (chain, uhash, number) none
    tx := fun h => if h ∈ origin then none else db.tx h
    originTxs := update db.originTxs (uhash, number) none }

def getUnitOriginTxs (uhash : Hash) (number : Nat) : Except RawErr (List Transaction) :=
  (db.getUnitOringTxHash uhash number).mapM fun h =>
    match db.tx h with
    | none => .error .notFound
    | some t => .ok t

def decodeStep (originTxs : List Transaction) (v : TxStepExecStorage) : Except RawErr TxExec :=
  if !v.preStep.isEmpty && v.haveTx then .error (.text "invalid transaction exec data")
  else if v.haveTx then
    match originTxs.find? fun t => txHashOf t = v.txHash with
    | none => .error (.text "invalid origin tx list,missing tx %s")
    | some t => .ok ⟨v.action, v.preStep, v.txHash, some t⟩
  else .ok ⟨v.action, v.preStep, v.txHash, none⟩

/-- `decodeUnitBody`, with the header of the unit; a storage that is nil is read all the same. -/
def decodeUnitBody (h : UnitHeader) (body : Option UnitBodyStorage) (originTxs : List Transaction) :
    Except RawErr SealedUnit :=
  match body with
  | none => .error .nilDereference
  | some b => do
    if b.txs.length < originTxs.length then throw (.text "invalid origin tx list length")
    let txs ← b.txs.mapM (decodeStep txHashOf originTxs)
    return ⟨h, txs, b.sign, b.voters⟩

/-- `GetUnit`: errors of `GetUnitBody` are logged and give nil. -/
def getUnit (hash : Hash) : Except RawErr (Option SealedUnit) :=
  match db.header hash with
  | none => .ok none
  | some h =>
    match db.getUnitOriginTxs hash h.number with
    | .error _ => .ok none
    | .ok txs =>
      match decodeUnitBody txHashOf h (db.body (h.mc, hash, h.number)) txs with
      | .error .nilDereference => .error .nilDereference
      | .error _ => .ok none
      | .ok u => .ok (some u)

/-- `GetRawUnit`; a record that is not there adds nothing. -/
def getRawUnit (chain : Address) (uhash : Hash) (number : Nat) : List RawItem :=
  (db.header uhash).toList.map .header ++ (db.body (chain, uhash, number)).toList.map .body ++
    ((db.getUnitOringTxHash uhash number).filterMap db.tx).map .tx

def decodeRawUnit : List RawItem → Except RawErr SealedUnit
  | .header h :: .body b :: items => do
    let txs ← items.mapM fun
      | .tx t => .ok t
      | _ => .error (.text "rlp")
    decodeUnitBody txHashOf h (some b) txs
  | _ => .error (.text "rlp")

def Returns (u : SealedUnit) : Prop :=
  db.getUnit txHashOf (hashOf u.header) = .ok (some u) ∧
    decodeRawUnit txHashOf
      (db.getRawUnit u.header.mc (hashOf u.header) u.header.number) = .ok u

/-- All units can be read, and when the body of one was deleted, it is nil and the others can still
be read. -/
def StoresUnits (units : List SealedUnit) (deleted : SealedUnit) : Prop :=
  let db := units.foldl (writeUnit hashOf txHashOf) ⟨fun _ => none, fun _ => none, fun _ => none,
    fun _ => none⟩
  let after := db.delUnitBody deleted.header.mc deleted.header.number (hashOf deleted.header)
  (∀ u ∈ units, db.Returns hashOf txHashOf u) ∧
    (∀ u ∈ units, u ≠ deleted → after.Returns hashOf txHashOf u) ∧
    after.getUnit txHashOf (hashOf deleted.header) = .ok none

variable {hashOf txHashOf db} {u : SealedUnit} {units : List SealedUnit}

theorem foldl_writeTransaction_eq (l : List Transaction) (db : UnitDb) :
    l.foldl (writeTransaction txHashOf) db =
      { db with tx := (l.foldl (writeTransaction txHashOf) db).tx } := by
  induction l generalizing db with
  | nil => rfl
  | cons t l ih =>
    rw [List.foldl_cons, ih]
    rfl

theorem writeUnit_header : (db.writeUnit hashOf txHashOf u).header =
    update db.header (hashOf u.header) (some u.header) := by
  unfold writeUnit writeUnitBody writeUnitOriginTxs
  rw [foldl_writeTransaction_eq]
  split_ifs <;> rfl

def storageOf (u : SealedUnit) : UnitBodyStorage :=
  ⟨u.txs.map fun v => ⟨v.tx.isSome, v.txHash, v.action, v.preStep⟩, u.votes, u.sign⟩

theorem writeUnit_body : (db.writeUnit hashOf txHashOf u).body =
    update db.body (u.header.mc, hashOf u.header, u.header.number) (some (storageOf u)) := by
  unfold writeUnit writeUnitBody writeUnitOriginTxs
  rw [foldl_writeTransaction_eq]
  split_ifs <;> rfl

def originHashes (u : SealedUnit) : List Hash :=
  (u.txs.filter fun v => v.tx.isSome).map TxExec.txHash

theorem writeUnit_originTxs : (db.writeUnit hashOf txHashOf u).originTxs =
    if (originHashes u).isEmpty then db.originTxs
    else update db.originTxs (hashOf u.header, u.header.number) (some (originHashes u)) := by
  unfold writeUnit writeUnitBody writeUnitOriginTxs originHashes
  rw [foldl_writeTransaction_eq]
  split_ifs <;> rfl

theorem foldl_writeUnit_frame {k : Hash} (h : ∀ u ∈ units, hashOf u.header ≠ k) (db : UnitDb) :
    let after := units.foldl (writeUnit hashOf txHashOf) db
    after.header k = db.header k ∧ (∀ chain n, after.body (chain, k, n) = db.body (chain, k, n)) ∧
      ∀ n, after.originTxs (k, n) = db.originTxs (k, n) := by
  induction units generalizing db with
  | nil => exact ⟨rfl, fun _ _ => rfl, fun _ => rfl⟩
  | cons u units ih =>
    obtain ⟨hu, hunits⟩ := List.forall_mem_cons.mp h
    obtain ⟨hheader, hbody, horigin⟩ := ih hunits (db.writeUnit hashOf txHashOf u)
    refine ⟨hheader.trans ?_, fun chain n => (hbody chain n).trans ?_,
      fun n => (horigin n).trans ?_⟩
    · rw [writeUnit_header, update_of_ne hu.symm]
    · rw [writeUnit_body, update_of_ne fun heq => hu (congrArg (·.2.1) heq).symm]
    · rw [writeUnit_originTxs]
      split_ifs
      · rfl
      · rw [update_of_ne fun heq => hu (congrArg Prod.fst heq).symm]

/-! ## What is read back -/

def stored (hashOf : UnitHeader → Hash) (txHashOf : Transaction → Hash)
    (units : List SealedUnit) : UnitDb :=
  units.foldl (writeUnit hashOf txHashOf)
    ⟨fun _ => none, fun _ => none, fun _ => none, fun _ => none⟩

def origins (u : SealedUnit) : List Transaction := u.txs.filterMap TxExec.tx

/-- An execution that carries its transaction is the first of it. -/
def WellFormed (txHashOf : Transaction → Hash) (u : SealedUnit) : Prop :=
  ∀ v ∈ u.txs, ∀ t ∈ v.tx, txHashOf t = v.txHash ∧ v.preStep.isEmpty = true

theorem originHashes_eq (hu : WellFormed txHashOf u) :
    originHashes u = (origins u).map txHashOf := by
  unfold WellFormed at hu
  unfold originHashes origins
  generalize u.txs = l at hu ⊢
  induction l with
  | nil => rfl
  | cons v rest ih =>
    obtain ⟨hv, hrest⟩ := List.forall_mem_cons.mp hu
    cases htx : v.tx with
    | none => simpa [htx] using ih hrest
    | some t => simpa [htx, (hv t htx).1] using ih hrest

structure Recorded (hashOf : UnitHeader → Hash) (db : UnitDb) (u : SealedUnit) : Prop where
  header : db.header (hashOf u.header) = some u.header
  body : db.body (u.header.mc, hashOf u.header, u.header.number) = some (storageOf u)
  originTxs : db.getUnitOringTxHash (hashOf u.header) u.header.number = originHashes u

theorem decodeUnitBody_storageOf (hu : WellFormed txHashOf u)
    (htxs : ∀ t ∈ origins u, db.tx (txHashOf t) = some t) :
    decodeUnitBody txHashOf u.header (some (storageOf u)) (origins u) = .ok u := by
  have hlen : ¬ (storageOf u).txs.length < (origins u).length := by
    rw [storageOf, List.length_map, Nat.not_lt]
    exact List.length_filterMap_le _ _
  have hsteps : (storageOf u).txs.mapM (decodeStep txHashOf (origins u)) = .ok u.txs := by
    refine mapM_decode fun v hv => ?_
    obtain ⟨action, preStep, txHash, tx⟩ := v
    cases tx with
    | none => simp [decodeStep]
    | some t =>
      obtain ⟨hhash, hfirst⟩ := hu _ hv t rfl
      dsimp only at hhash hfirst
      have ht : t ∈ origins u := List.mem_filterMap.mpr ⟨_, hv, rfl⟩
      have hfound : (origins u).find? (fun t' => txHashOf t' = txHash) = some t := by
        cases hfind : (origins u).find? (fun t' => decide (txHashOf t' = txHash)) with
        | none => exact absurd hhash (by simpa using List.find?_eq_none.mp hfind t ht)
        | some t' =>
          -- two transactions under one hash are one, since the store has one of them
          have hhash' : txHashOf t' = txHash := by simpa using List.find?_some hfind
          have hsame := htxs t' (List.mem_of_find?_eq_some hfind)
          rw [hhash', ← hhash, htxs t ht] at hsame
          exact hsame.symm
      simp [decodeStep, hfirst, hfound]
  unfold decodeUnitBody
  dsimp only
  rw [if_neg hlen, hsteps]
  rfl

/-- A unit whose records are there is read back if and only if its transactions are there. -/
theorem Recorded.returns_iff (h : db.Recorded hashOf u) (hu : WellFormed txHashOf u)
    (hone : ∀ t ∈ origins u, ∀ t', db.tx (txHashOf t) = some t' → t' = t) :
    db.Returns hashOf txHashOf u ↔ ∀ t ∈ origins u, (db.tx (txHashOf t)).isSome := by
  constructor
  · rintro ⟨hget, -⟩ t ht
    cases htx : db.tx (txHashOf t) with
    | some t' => rfl
    | none =>
      unfold getUnit at hget
      rw [h.header] at hget
      dsimp only at hget
      split at hget
      · cases hget
      · next txs horigin =>
        rw [getUnitOriginTxs, h.originTxs, originHashes_eq hu] at horigin
        obtain ⟨t', ht'⟩ := ok_of_mem_of_mapM horigin (List.mem_map_of_mem ht)
        rw [htx] at ht'
        cases ht'
  · intro hsome
    have htxs : ∀ t ∈ origins u, db.tx (txHashOf t) = some t := by
      intro t ht
      obtain ⟨t', htx⟩ := Option.isSome_iff_exists.mp (hsome t ht)
      rw [htx, hone t ht t' htx]
    have hdecode := decodeUnitBody_storageOf hu htxs
    have horigin : db.getUnitOriginTxs (hashOf u.header) u.header.number = .ok (origins u) := by
      rw [getUnitOriginTxs, h.originTxs, originHashes_eq hu]
      exact mapM_decode fun t ht => by simp only [htxs t ht]
    constructor
    · simp only [getUnit, h.header, horigin, h.body, hdecode]
    · have hraw : ((origins u).map txHashOf).filterMap db.tx = origins u := by
        rw [List.filterMap_map]
        exact (List.filterMap_congr htxs).trans List.filterMap_some
      rw [getRawUnit, h.header, h.body, h.originTxs, originHashes_eq hu, hraw]
      simp only [Option.toList, List.map_cons, List.map_nil, List.cons_append, List.nil_append,
        decodeRawUnit]
      refine Eq.trans (congrArg (· >>= _) (mapM_decode fun t _ => ?_)) hdecode
      rfl

theorem recorded_of_mem (hdistinct : units.Pairwise fun u v => hashOf u.header ≠ hashOf v.header)
    (hu : u ∈ units) (db : UnitDb)
    (hclear : db.originTxs (hashOf u.header, u.header.number) = none) :
    (units.foldl (writeUnit hashOf txHashOf) db).Recorded hashOf u := by
  induction units generalizing db with
  | nil => cases hu
  | cons v units ih =>
    obtain ⟨hv, hdistinct⟩ := List.pairwise_cons.mp hdistinct
    rcases List.mem_cons.mp hu with rfl | hu
    · obtain ⟨hheader, hbody, horigin⟩ := @foldl_writeUnit_frame hashOf txHashOf _ _
        (fun w hw => (hv w hw).symm) (db.writeUnit hashOf txHashOf u)
      refine ⟨hheader.trans ?_, (hbody _ _).trans ?_, ?_⟩
      · rw [writeUnit_header, update_self]
      · rw [writeUnit_body, update_self]
      · rw [List.foldl_cons, getUnitOringTxHash, horigin, writeUnit_originTxs]
        split_ifs with hempty
        · rw [hclear, List.isEmpty_iff.mp hempty]
          rfl
        · rw [update_self]
          rfl
    · refine ih hdistinct hu _ ?_
      rw [writeUnit_originTxs]
      split_ifs
      · exact hclear
      · rwa [update_of_ne fun heq => hv u hu (congrArg Prod.fst heq).symm]

theorem Recorded.delUnitBody (h : db.Recorded hashOf u) {hash : Hash}
    (hne : hashOf u.header ≠ hash) (chain : Address) (number : Nat) :
    (db.delUnitBody chain number hash).Recorded hashOf u := by
  have hbody : (u.header.mc, hashOf u.header, u.header.number) ≠ (chain, hash, number) :=
    fun heq => hne (congrArg (·.2.1) heq)
  have horigin : (hashOf u.header, u.header.number) ≠ (hash, number) :=
    fun heq => hne (congrArg Prod.fst heq)
  exact ⟨h.header, (update_of_ne hbody _ _).trans h.body,
    (congrArg (Option.getD · []) (update_of_ne horigin _ _)).trans h.originTxs⟩

section Transactions

variable (hinj : Injective txHashOf)
include hinj

theorem foldl_writeTransaction_tx (l : List Transaction) (db : UnitDb) (t : Transaction) :
    (l.foldl (writeTransaction txHashOf) db).tx (txHashOf t) =
      if t ∈ l then some t else db.tx (txHashOf t) := by
  induction l generalizing db with
  | nil => rfl
  | cons t' l ih =>
    rw [List.foldl_cons, ih, writeTransaction]
    by_cases heq : t = t'
    · subst heq
      simp
    · simp [heq, hinj.eq_iff]

theorem writeUnit_tx (t : Transaction) : (db.writeUnit hashOf txHashOf u).tx (txHashOf t) =
    if t ∈ origins u then some t else db.tx (txHashOf t) := by
  refine Eq.trans ?_
    (foldl_writeTransaction_tx hinj (origins u) (db.writeHeader hashOf u.header) t)
  unfold writeUnit writeUnitBody writeUnitOriginTxs
  dsimp only
  split_ifs <;> rfl

theorem foldl_writeUnit_tx (t : Transaction) (db : UnitDb) :
    (units.foldl (writeUnit hashOf txHashOf) db).tx (txHashOf t) =
      if ∃ u ∈ units, t ∈ origins u then some t else db.tx (txHashOf t) := by
  induction units generalizing db with
  | nil => simp
  | cons u units ih =>
    rw [List.foldl_cons, ih, writeUnit_tx hinj]
    by_cases hu : t ∈ origins u
    · simp [hu]
    · simp [hu]

/-- Every unit written is read back, and when the body of another was deleted, exactly if they share
no original transaction. -/
theorem units_readBack (hdistinct : units.Pairwise fun u v => hashOf u.header ≠ hashOf v.header)
    (hunits : ∀ u ∈ units, WellFormed txHashOf u) (hu : u ∈ units) :
    (stored hashOf txHashOf units).Returns hashOf txHashOf u ∧
      ∀ deleted ∈ units, deleted ≠ u →
        (((stored hashOf txHashOf units).delUnitBody deleted.header.mc deleted.header.number
          (hashOf deleted.header)).Returns hashOf txHashOf u ↔
            ∀ t ∈ origins u, t ∉ origins deleted) := by
  have hrecorded : ∀ v ∈ units, (stored hashOf txHashOf units).Recorded hashOf v :=
    fun v hv => recorded_of_mem hdistinct hv _ rfl
  have htx : ∀ t ∈ origins u, (stored hashOf txHashOf units).tx (txHashOf t) = some t :=
    fun t ht => (foldl_writeUnit_tx hinj t _).trans (if_pos ⟨u, hu, ht⟩)
  constructor
  · refine ((hrecorded u hu).returns_iff (hunits u hu) fun t ht t' ht' => ?_).mpr fun t ht => ?_
    · rw [htx t ht] at ht'
      exact (Option.some.inj ht').symm
    · rw [htx t ht]
      rfl
  · intro deleted hdeleted hne
    have : Std.Symm fun u v : SealedUnit => hashOf u.header ≠ hashOf v.header :=
      ⟨fun _ _ h => h.symm⟩
    have hhash : hashOf u.header ≠ hashOf deleted.header :=
      hdistinct.forall hu hdeleted hne.symm
    have hleft : ∀ t ∈ origins u, ((stored hashOf txHashOf units).delUnitBody deleted.header.mc
        deleted.header.number (hashOf deleted.header)).tx (txHashOf t) =
          if t ∈ origins deleted then none else some t := by
      intro t ht
      rw [delUnitBody, (hrecorded deleted hdeleted).originTxs,
        originHashes_eq (hunits deleted hdeleted)]
      simp only [htx t ht, List.mem_map_of_injective hinj]
    rw [((hrecorded u hu).delUnitBody hhash _ _).returns_iff (hunits u hu) fun t ht t' ht' => ?_]
    · refine forall₂_congr fun t ht => ?_
      rw [hleft t ht]
      by_cases hshared : t ∈ origins deleted
      · simp [hshared]
      · simp [hshared]
    · rw [hleft t ht] at ht'
      split at ht'
      · cases ht'
      · exact (Option.some.inj ht').symm

end Transactions

/-- Whatever was written, `GetUnit` of a unit whose body was deleted reads a storage that is
nil. -/
theorem unit_storage_never_sound {units : List SealedUnit} {deleted : SealedUnit}
    (hdistinct : units.Pairwise fun u v => hashOf u.header ≠ hashOf v.header)
    (hdeleted : deleted ∈ units) : ¬ StoresUnits hashOf txHashOf units deleted := by
  rintro ⟨-, -, hnil⟩
  have hheader : (units.foldl (writeUnit hashOf txHashOf)
      ⟨fun _ => none, fun _ => none, fun _ => none, fun _ => none⟩).header (hashOf deleted.header) =
        some deleted.header := (recorded_of_mem hdistinct hdeleted _ rfl).header
  simp only [getUnit, delUnitBody, hheader, getUnitOriginTxs, getUnitOringTxHash, decodeUnitBody,
    update_self, Option.getD_none, List.mapM_nil, pure, Except.pure] at hnil
  cases hnil

def bare (number : Nat) : SealedUnit :=
  ⟨⟨⟨5⟩, number, .zero, .zero, 0, ⟨9⟩, .zero, .zero, .zero, 0, 0, 0, 0⟩, [], [], []⟩

def byNumber (h : UnitHeader) : Hash := ⟨h.number⟩

theorem unit_storage_of_two : ¬ StoresUnits byNumber (fun _ => .zero) [bare 1, bare 2] (bare 1) :=
  unit_storage_never_sound (by decide) (by decide)

theorem getUnit_deleted_crashes :
    ((((⟨fun _ => none, fun _ => none, fun _ => none, fun _ => none⟩ : UnitDb).writeUnit byNumber
      (fun _ => .zero) (bare 1)).delUnitBody ⟨5⟩ 1 ⟨1⟩).getUnit (fun _ => .zero) ⟨1⟩) =
        .error .nilDereference ∧
      ¬ StoresUnits byNumber (fun _ => .zero) [bare 1] (bare 1) := by
  refine ⟨rfl, fun h => ?_⟩
  cases h.2.2

end UnitDb

end Nerthus.Rawdb
