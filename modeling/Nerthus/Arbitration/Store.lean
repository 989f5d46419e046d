import Nerthus.Arbitration.Validtor
import Nerthus.Lib.Lru

/-!
# The store of stopped chains

`store.go` and `db.go` of `consensus/arbitration`. For each chain the heights
from which it is stopped are kept in a list, without what caused them, and the
lowest one in a cache.
-/

namespace Nerthus.Arbitration

open Sc (Err AffectedUnit)
open Lib (Lru)
open List

structure ChainNumber where
  chain : Address
  number : Nat
deriving DecidableEq

structure BadChainFlag where
  chain : Address
  number : Nat
  foundTimestamp : Nat
  proofID : Hash
deriving DecidableEq

structure Db where
  /-- "bad_witness_poof_" -/
  proof : Hash → Option (List AffectedUnit)
  /-- "bad_chain_flags" -/
  badChain : Address → List BadChainFlag
  /-- "bad_stopped_chain_" -/
  stoppedChain : Address → List Nat
  /-- "bad_stopped_by_" -/
  stoppedBy : Address → Nat → List ChainNumber

def Db.empty : Db := ⟨fun _ => none, fun _ => [], fun _ => [], fun _ _ => []⟩

/-- `PutGetter`: the database, or a batch, which reads what the database held when it was opened. -/
structure PutGetter where
  direct : Bool
  get : Db
  put : Db

variable (b : PutGetter) (db : Db)

namespace PutGetter

def ofDb : PutGetter := ⟨true, db, db⟩

def newBatch : PutGetter := ⟨false, db, db⟩

def write (f : Db → Db) : PutGetter :=
  { b with get := if b.direct then f b.get else b.get, put := f b.put }

def putProof (id : Hash) (rep : List AffectedUnit) : PutGetter :=
  b.write fun db => { db with proof := Function.update db.proof id (some rep) }

def putBadChain (chain : Address) (flags : List BadChainFlag) : PutGetter :=
  b.write fun db => { db with badChain := Function.update db.badChain chain flags }

def putStoppedChain (chain : Address) (numbers : List Nat) : PutGetter :=
  b.write fun db => { db with stoppedChain := Function.update db.stoppedChain chain numbers }

def putStoppedBy (chain : Address) (number : Nat) (stopped : List ChainNumber) :
    PutGetter :=
  b.write fun db =>
    { db with
      stoppedBy := Function.update db.stoppedBy chain
        (Function.update (db.stoppedBy chain) number stopped) }

end PutGetter

abbrev Cache := Lru Address Nat

def Cache.new : Cache := .empty 3000

def existProof (id : Hash) : Bool := (db.proof id).isSome

def getBadChainFlags (chain : Address) : List BadChainFlag :=
  (db.badChain chain).insertionSort fun x y => x.number ≤ y.number

def writeBadChain (flag : BadChainFlag) : PutGetter :=
  let flags := getBadChainFlags b.get flag.chain
  if flags.any fun v => v.number == flag.number then b
  else b.putBadChain flag.chain (flags ++ [flag])

def clearBadChainFlag (chain : Address) (number : Nat) : PutGetter :=
  let flags := getBadChainFlags b.get chain
  if flags.any fun v => v.number == number then
    b.putBadChain chain (flags.eraseP fun v => v.number == number)
  else b

/-- `getStoppedChainFlag`: the heights in order. -/
def getStoppedChainFlags (chain : Address) : List Nat :=
  (db.stoppedChain chain).insertionSort (· ≤ ·)

def lowest (numbers : List Nat) : Nat := ((numbers.insertionSort (· ≤ ·)).head?).getD 0

def Db.flag (chain : Address) : Nat := lowest (db.stoppedChain chain)

def getStoppedChainFlag (cache : Cache) (chain : Address) : Nat × Cache :=
  match cache.get chain with
  | (some number, cache) => (number, cache)
  | (none, cache) =>
    let number := ((getStoppedChainFlags db chain).head?).getD 0
    (number, cache.add chain number)

def checkChainIsStopped (scAccount : Address) (db : Db) (cache : Cache) (chain : Address)
    (number : Nat) : Except Err Unit × Cache :=
  if chain = scAccount then (.ok (), cache)
  else
    let (stoppedNumber, cache) := getStoppedChainFlag db cache chain
    if 0 < stoppedNumber ∧ stoppedNumber ≤ number then
      (.error (.other s!"chain has stopped:{chain.hash}({stoppedNumber})"), cache)
    else (.ok (), cache)

def getStoppedChainByBad (chain : Address) (number : Nat) : List ChainNumber :=
  db.stoppedBy chain number

/-- `writeStoppedByWho`; the map is given in the order in which the program visits it. -/
def writeStoppedByWho (chain : Address) (number : Nat) (stoppedChains : List ChainNumber) :
    PutGetter :=
  if stoppedChains.isEmpty then b else b.putStoppedBy chain number stoppedChains

def writeStoppedChain (cache : Cache) (chain : Address) (number : Nat) :
    PutGetter × Cache :=
  let (stoppedNumber, cache) := getStoppedChainFlag b.get cache chain
  let cache :=
    if stoppedNumber = 0 ∨ number < stoppedNumber then cache.add chain number else cache
  let items := getStoppedChainFlags b.get chain
  if number ∈ items then (b, cache)
  else (b.putStoppedChain chain (items ++ [number]), cache)

/-- `clearStoppedChainFlag`: also says whether the chain has no flag more. -/
def clearStoppedChainFlag (cache : Cache) (chain : Address) (number : Nat) :
    PutGetter × Cache × Bool :=
  let numbers := getStoppedChainFlags b.get chain
  if number ∈ numbers then
    let left := numbers.erase number
    (b.putStoppedChain chain left, cache.remove chain, left.isEmpty)
  else (b, cache, numbers.isEmpty)

@[simp] theorem mem_getStoppedChainFlags {db : Db} {chain : Address} {n : Nat} :
    n ∈ getStoppedChainFlags db chain ↔ n ∈ db.stoppedChain chain :=
  (perm_insertionSort _ _).mem_iff

theorem nodup_getStoppedChainFlags {db : Db} {chain : Address} :
    (getStoppedChainFlags db chain).Nodup ↔ (db.stoppedChain chain).Nodup :=
  (perm_insertionSort _ _).nodup_iff

variable {numbers : List Nat}

theorem lowest_spec (h : numbers ≠ []) :
    lowest numbers ∈ numbers ∧ ∀ n ∈ numbers, lowest numbers ≤ n := by
  have hperm := perm_insertionSort (· ≤ ·) numbers
  have hsorted := pairwise_insertionSort (· ≤ ·) numbers
  rw [lowest]
  cases hlist : numbers.insertionSort (· ≤ ·) with
  | nil =>
    rw [hlist] at hperm
    exact absurd hperm.symm.eq_nil h
  | cons first rest =>
    rw [hlist] at hperm hsorted
    refine ⟨hperm.mem_iff.mp (.head _), fun n hn => ?_⟩
    rcases mem_cons.mp (hperm.mem_iff.mpr hn) with rfl | hrest
    · exact le_rfl
    · exact (pairwise_cons.mp hsorted).1 n hrest

theorem lowest_eq {n : Nat} (hmem : n ∈ numbers) (hle : ∀ m ∈ numbers, n ≤ m) :
    lowest numbers = n := by
  obtain ⟨hin, hmin⟩ := lowest_spec (ne_nil_of_mem hmem)
  exact Nat.le_antisymm (hmin n hmem) (hle _ hin)

@[simp] theorem lowest_nil : lowest [] = 0 := rfl

theorem lowest_congr {l l' : List Nat} (h : ∀ n, n ∈ l ↔ n ∈ l') : lowest l = lowest l' := by
  by_cases hl : l' = []
  · subst hl
    have : l = [] := eq_nil_iff_forall_not_mem.mpr fun n hn => by simpa using (h n).mp hn
    rw [this]
  · obtain ⟨hin, hmin⟩ := lowest_spec hl
    exact lowest_eq ((h _).mpr hin) fun m hm => hmin m ((h m).mp hm)

theorem lowest_stops_iff (hpos : ∀ n ∈ numbers, 0 < n) (m : Nat) :
    (0 < lowest numbers ∧ lowest numbers ≤ m) ↔ ∃ n ∈ numbers, n ≤ m := by
  by_cases h : numbers = []
  · simp [h]
  obtain ⟨hin, hmin⟩ := lowest_spec h
  constructor
  · rintro ⟨-, hle⟩
    exact ⟨_, hin, hle⟩
  · rintro ⟨n, hn, hle⟩
    exact ⟨hpos _ hin, (hmin n hn).trans hle⟩

theorem lowest_append (hpos : ∀ n ∈ numbers, 0 < n) (number : Nat) : lowest (numbers ++ [number]) =
      if lowest numbers = 0 ∨ number < lowest numbers then number else lowest numbers := by
  by_cases h : numbers = []
  · subst h
    simp [lowest]
  obtain ⟨hin, hmin⟩ := lowest_spec h
  have hne : lowest numbers ≠ 0 := (hpos _ hin).ne'
  simp only [hne, false_or]
  split
  · next hlt =>
    refine lowest_eq (by simp) fun m hm => ?_
    rcases mem_append.mp hm with hold | hnew
    · exact hlt.le.trans (hmin m hold)
    · rw [mem_singleton.mp hnew]
  · next hle =>
    refine lowest_eq (mem_append_left _ hin) fun m hm => ?_
    rcases mem_append.mp hm with hold | hnew
    · exact hmin m hold
    · rw [mem_singleton.mp hnew]
      omega

theorem getStoppedChainFlag_spec {db : Db} {cache : Cache} {f : Address → Nat}
    (h : cache.Agrees f) {chain : Address} (hchain : db.flag chain = f chain) :
    (getStoppedChainFlag db cache chain).1 = f chain ∧
      (getStoppedChainFlag db cache chain).2.Agrees f := by
  have hget := h.get chain
  rw [getStoppedChainFlag]
  cases hcache : cache.get chain with
  | mk answer cache' =>
    rw [hcache] at hget
    cases answer with
    | some number => exact ⟨hget.2 number rfl, hget.1⟩
    | none =>
      refine ⟨hchain, ?_⟩
      change (cache'.add chain (db.flag chain)).Agrees f
      rw [hchain]
      exact hget.1.add chain fun _ _ => rfl

theorem checkChainIsStopped_spec {scAccount : Address} {db : Db} {cache : Cache}
    (h : cache.Agrees db.flag) (chain : Address) (number : Nat) :
    ((checkChainIsStopped scAccount db cache chain number).1.isOk = false ↔
      chain ≠ scAccount ∧ 0 < db.flag chain ∧ db.flag chain ≤ number) ∧
      (checkChainIsStopped scAccount db cache chain number).2.Agrees db.flag := by
  obtain ⟨hflag, hagrees⟩ := getStoppedChainFlag_spec h (rfl : db.flag chain = db.flag chain)
  rw [checkChainIsStopped]
  by_cases hsc : chain = scAccount
  · rw [if_pos hsc]
    exact ⟨by simp [hsc, Except.isOk, Except.toBool], h⟩
  rw [if_neg hsc]
  dsimp only
  rw [hflag]
  split
  · next hstopped => exact ⟨by simp [hsc, hstopped, Except.isOk, Except.toBool], hagrees⟩
  · next hfree =>
    refine ⟨?_, hagrees⟩
    simp only [Except.isOk, Except.toBool, Bool.true_eq_false, false_iff]
    exact fun hboth => hfree hboth.2

end Nerthus.Arbitration
