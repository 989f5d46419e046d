import Nerthus.Rawdb.Units

/-!
# Batches of units

`nts/synchronize/util/unit.go`: the raw units of a list of hashes go out in one message, up to a
size.
-/

namespace Nerthus.Rawdb

open Core List

structure BatchDb where
  records : UnitDb
  getUnitNumber : Hash → Option (Address × Nat)
  txHashOf : Transaction → Hash
  encode : RawItem → Bytes
  decodeRawUnit : Bytes → Except RawErr SealedUnit
  decode_encode : ∀ chain h number,
    decodeRawUnit ((records.getRawUnit chain h number).flatMap encode) =
      UnitDb.decodeRawUnit txHashOf (records.getRawUnit chain h number)

namespace BatchDb

variable (db : BatchDb) (limit : Int) (first : Bool) (size : Nat)

def getRawUnit (h : Hash) (place : Address × Nat) : Bytes :=
  (db.records.getRawUnit place.1 h place.2).flatMap db.encode

def next (h : Hash) : Option Bytes :=
  ((db.getUnitNumber h).filter fun e => !UnitID.isEmpty ⟨e.1, e.2, h⟩).map (db.getRawUnit h)

/-- The limit leaves out a unit that brings the message to a size, but not the first one. -/
def Cut : Prop := first = false ∧ 0 < limit ∧ limit < size
deriving Decidable

/-- The loop of `DyncGetUnitRawRLPByIds`. -/
def pack : Bool → Nat → List Hash → List Bytes
  | _, _, [] => []
  | first, size, h :: hs =>
    match db.next h with
    | none => []
    | some b =>
      if Cut limit first (size + b.length) then [] else b :: pack false (size + b.length) hs

def getUnitRawRLP (hs : List Hash) : Option (List Nat × Bytes) :=
  let raw := db.pack limit true 0 hs
  if raw.flatten = [] then none else some (raw.map length, raw.flatten)

def decodeUnitRawRLP : List Nat → Bytes → Except RawErr (List SealedUnit)
  | [], _ => .ok []
  | v :: sizes, b => do
    let u ← db.decodeRawUnit (b.take v)
    let units ← decodeUnitRawRLP sizes (b.drop v)
    return u :: units

def received (hs : List Hash) : Except RawErr (List SealedUnit) :=
  (db.getUnitRawRLP limit hs).elim (.ok []) fun m => db.decodeUnitRawRLP m.1 m.2

def stored (h : Hash) : Option (SealedUnit × Nat) :=
  (db.getUnitNumber h).bind fun e =>
    (UnitDb.decodeRawUnit db.txHashOf (db.records.getRawUnit e.1 h e.2)).toOption.map
      (·, (db.getRawUnit h e).length)

/-- What arrives are the first of the stored units, all but those that the limit leaves out. -/
def Arrives (hs : List Hash) (received : Except RawErr (List SealedUnit)) : Prop :=
  ∃ sent left, hs.filterMap db.stored = sent ++ left ∧ received = .ok (sent.map Prod.fst) ∧
    ∀ e ∈ left.head?, Cut limit (first && sent.isEmpty) (size + (sent.map Prod.snd).sum + e.2)

def NoneFits (hs : List Hash) : Prop :=
  ∀ e ∈ (hs.filterMap db.stored).head?, Cut limit first (size + e.2)

/-- Up to the limit every hash has a place above 0 and complete records, and behind one without a
place no stored unit fits. -/
def Whole : Bool → Nat → List Hash → Prop
  | _, _, [] => True
  | first, size, h :: hs =>
    match db.next h with
    | none => db.NoneFits limit first size (h :: hs)
    | some b =>
      if Cut limit first (size + b.length) then db.NoneFits limit first size (h :: hs)
      else (db.stored h).isSome ∧ Whole false (size + b.length) hs

/-- All raw units are empty, up to the first without a place or beyond the limit. -/
def Blank : Bool → List Hash → Prop
  | _, [] => True
  | first, h :: hs => ∀ b ∈ db.next h, Cut limit first b.length ∨ b = [] ∧ Blank false hs

variable {db limit first size} {h : Hash} {hs : List Hash} {b : Bytes}

theorem stored_of_next (hnext : db.next h = some b) :
    db.stored h = (db.decodeRawUnit b).toOption.map (·, b.length) := by
  obtain ⟨e, he, rfl⟩ := Option.map_eq_some_iff.mp hnext
  rw [stored, (Option.filter_eq_some_iff.mp he).1, Option.bind_some, getRawUnit, db.decode_encode]

theorem decodeUnitRawRLP_map (raw : List Bytes) :
    db.decodeUnitRawRLP (raw.map length) raw.flatten = raw.mapM db.decodeRawUnit := by
  induction raw with
  | nil => rfl
  | cons b raw ih =>
    rw [map_cons, flatten_cons, decodeUnitRawRLP, take_left, drop_left, ih, mapM_cons]

theorem arrives_nil : db.Arrives limit first size hs (.ok []) ↔ db.NoneFits limit first size hs := by
  constructor
  · rintro ⟨sent, left, heq, hsent, hcut⟩
    obtain rfl : sent = [] := map_eq_nil_iff.mp (Except.ok.inj hsent).symm
    rw [NoneFits, heq]
    simpa using hcut
  · exact fun h => ⟨[], _, rfl, rfl, fun e he => by simpa using h e he⟩

theorem arrives_cons {u : SealedUnit} {n : Nat} {us : List SealedUnit}
    (hu : db.stored h = some (u, n)) : db.Arrives limit first size (h :: hs) (.ok (u :: us)) ↔
      db.Arrives limit false (size + n) hs (.ok us) := by
  rw [Arrives, filterMap_cons_some hu]
  constructor
  · rintro ⟨_ | ⟨e, sent⟩, left, heq, hsent, hcut⟩
    · cases hsent
    · obtain ⟨rfl, hrest⟩ := cons.inj heq
      refine ⟨sent, left, hrest, congrArg _ (cons.inj (Except.ok.inj hsent)).2, ?_⟩
      simpa [Nat.add_assoc] using hcut
  · rintro ⟨sent, left, heq, hsent, hcut⟩
    cases hsent
    exact ⟨(u, n) :: sent, left, by rw [heq]; rfl, rfl, by simpa [Nat.add_assoc] using hcut⟩

theorem arrives_pack_iff : db.Arrives limit first size hs
    ((db.pack limit first size hs).mapM db.decodeRawUnit) ↔ db.Whole limit first size hs := by
  induction hs generalizing first size with
  | nil => exact iff_of_true ⟨[], [], rfl, rfl, nofun⟩ trivial
  | cons h hs ih =>
    rw [pack, Whole]
    cases hnext : db.next h with
    | none => exact arrives_nil
    | some b =>
      dsimp only
      split
      · exact arrives_nil
      have hstored := stored_of_next hnext
      rw [mapM_cons, ← ih]
      cases hb : db.decodeRawUnit b with
      | error e =>
        rw [hb] at hstored
        exact iff_of_false (fun ⟨_, _, _, hok, _⟩ => nomatch hok) (by rw [hstored]; nofun)
      | ok u =>
        replace hstored : db.stored h = some (u, b.length) := by rw [hstored, hb]; rfl
        cases (db.pack limit false (size + b.length) hs).mapM db.decodeRawUnit with
        | error e =>
          exact iff_of_false (fun ⟨_, _, _, hok, _⟩ => nomatch hok)
            fun ⟨_, _, _, _, hok, _⟩ => nomatch hok
        | ok us => exact (arrives_cons hstored).trans (by simp [hstored])

theorem flatten_pack_eq_nil_iff :
    (db.pack limit first 0 hs).flatten = [] ↔ db.Blank limit first hs := by
  induction hs generalizing first with
  | nil => exact iff_of_true rfl trivial
  | cons h hs ih =>
    rw [pack, Blank]
    cases db.next h with
    | none => exact iff_of_true rfl nofun
    | some b =>
      simp only [Nat.zero_add, Option.mem_some_iff, forall_eq']
      split
      · next hcut => exact iff_of_true rfl (.inl hcut)
      · next hcut =>
        rw [flatten_cons, append_eq_nil_iff, or_iff_right hcut]
        refine and_congr_right ?_
        rintro rfl
        exact ih

/-- A batch arrives as sent exactly if its hashes are whole or, where no bytes are read, none is
stored. -/
theorem batch_arrives_iff (db : BatchDb) (limit : Int) (hs : List Hash) :
    db.Arrives limit true 0 hs (db.received limit hs) ↔
      (db.Blank limit true hs → hs.filterMap db.stored = []) ∧
      (¬db.Blank limit true hs → db.Whole limit true 0 hs) := by
  rw [received, getUnitRawRLP, ← flatten_pack_eq_nil_iff]
  split
  · next hblank =>
    rw [Option.elim, arrives_nil, NoneFits]
    cases hs.filterMap db.stored <;> simp [Cut, hblank]
  · next hbytes =>
    rw [Option.elim, decodeUnitRawRLP_map, arrives_pack_iff]
    simp [hbytes]

def single : BatchDb where
  records := ⟨fun h => if h = ⟨1⟩ then some (UnitDb.bare 1).header else none,
    fun k => if k = (⟨5⟩, ⟨1⟩, 1) then some ⟨[], [], []⟩ else none, fun _ => none, fun _ => none⟩
  getUnitNumber h := if h = ⟨1⟩ then some (⟨5⟩, 1) else none
  txHashOf _ := .zero
  encode
    | .header _ => [1]
    | .body _ => [2]
    | .tx _ => [3]
  decodeRawUnit
    | [1, 2] => .ok (UnitDb.bare 1)
    | _ => .error (.text "rlp")
  decode_encode chain h number := by
    dsimp only [UnitDb.getRawUnit]
    split_ifs <;> rfl

/-- A hash that is not known ends the batch, without a limit and before a stored unit. -/
theorem unknown_hash_ends_batch :
    (single.received 0 [⟨1⟩, ⟨9⟩, ⟨1⟩]).toOption = some [UnitDb.bare 1] ∧
      ([⟨1⟩, ⟨9⟩, ⟨1⟩].filterMap single.stored).map Prod.fst = [UnitDb.bare 1, UnitDb.bare 1] ∧
      ¬single.Arrives 0 true 0 [⟨1⟩, ⟨9⟩, ⟨1⟩] (single.received 0 [⟨1⟩, ⟨9⟩, ⟨1⟩]) := by
  have hreceived : (single.received 0 [⟨1⟩, ⟨9⟩, ⟨1⟩]).toOption = some [UnitDb.bare 1] := by decide
  have hstored : ([⟨1⟩, ⟨9⟩, ⟨1⟩].filterMap single.stored).map Prod.fst =
      [UnitDb.bare 1, UnitDb.bare 1] := by decide
  refine ⟨hreceived, hstored, ?_⟩
  rintro ⟨sent, _ | ⟨e, left⟩, heq, hsent, hcut⟩
  · rw [append_nil] at heq
    rw [← heq, hstored] at hsent
    rw [hsent] at hreceived
    cases hreceived
  · exact absurd (hcut e rfl).2.1 (by decide)

end BatchDb

end Nerthus.Rawdb
