import Nerthus.Witness.Mining

/-!
# The receipts of a unit

`core/rawdb/receipt.go`: the receipts of a unit are stored one by one under their index, with
their number beside them, both as sixteen bits. The storage form of a log (`core/types/log.go`)
leaves out the number of its unit.
-/

namespace Nerthus.Rawdb

open Core Witness Function Witness.Sample List Nat

def uint16 (n : Nat) : Nat := n % 2 ^ 16

/-- `Log`, with what `AddLog` fills in. -/
structure Log extends Core.Log where
  txHash : Hash
  txIndex : Nat
  unitHash : Hash
  unitIndex : Nat
  index : Nat
  removed : Bool
deriving DecidableEq

structure RlpStorageLog extends Core.Log where
  unitIndex : Nat
  txHash : Hash
  txIndex : Nat
  blockHash : Hash
  index : Nat
deriving DecidableEq

/-- `LogForStorage.EncodeRLP`; no unit number is set. -/
def Log.encodeRLP (l : Log) : RlpStorageLog :=
  ⟨l.toLog, 0, l.txHash, l.txIndex, l.unitHash, l.index⟩

/-- `LogForStorage.DecodeRLP`; no unit number is read. -/
def RlpStorageLog.decodeRLP (dec : RlpStorageLog) : Log :=
  ⟨dec.toLog, dec.txHash, dec.txIndex, dec.blockHash, 0, dec.index, false⟩

/-- `Receipt` with logs of type `Log`, `receiptStorageRLP` with logs of the storage form. -/
structure Receipt (α : Type) where
  result : Core.Receipt
  txHash : Hash
  cumulativeGasUsed : Nat
  logs : List α
  bloom : Nat
deriving DecidableEq

namespace Receipt

def withLogs {α β : Type} (r : Receipt α) (logs : List β) : Receipt β :=
  ⟨r.result, r.txHash, r.cumulativeGasUsed, logs, r.bloom⟩

def encodeRLP (r : Receipt Log) : Receipt RlpStorageLog := r.withLogs (r.logs.map Log.encodeRLP)

def decodeRLP (r : Receipt RlpStorageLog) : Receipt Log :=
  r.withLogs (r.logs.map RlpStorageLog.decodeRLP)

/-- A receipt of the packing loop; `index` has the values of `logSize`. -/
def ofPacked (number txIndex : Nat) (index : Nat → Nat) (r : UnitReceipt) : Receipt Log :=
  ⟨r.result, r.txHash, r.cumulativeGasUsed,
    r.logs.mapIdx fun i l => ⟨l, r.txHash, txIndex, .zero, number, index i, false⟩, r.bloom⟩

end Receipt

def packedReceipts (header : Header) (index : Nat → Nat → Nat) (receipts : List UnitReceipt) :
    List (Receipt Log) :=
  receipts.mapIdx fun i r => .ofPacked header.number i (index i) r

/-! ## The tables -/

/-- The tables of `unitReceiptPrefix(number, hash)`: the receipts by index, and `_count`. -/
structure ReceiptDb where
  receipt : Nat × Hash → Nat → Option (Receipt RlpStorageLog)
  count : Nat × Hash → Option Nat

variable (db : ReceiptDb)

variable (unit : Nat × Hash)

namespace ReceiptDb

def putReceipt (i : Nat) (r : Receipt Log) : ReceiptDb where
  receipt := update db.receipt unit
    (update (db.receipt unit) (uint16 i) (some r.encodeRLP))
  count := db.count

/-- The loop of `WriteUnitReceipts`. -/
def putReceipts (unit : Nat × Hash) : Nat → List (Receipt Log) → ReceiptDb → ReceiptDb
  | _, [], db => db
  | i, r :: receipts, db => putReceipts unit (i + 1) receipts (db.putReceipt unit i r)

def writeUnitReceipts (receipts : List (Receipt Log)) :
    ReceiptDb :=
  let db := putReceipts unit 0 receipts db
  { db with count := update db.count unit (some (uint16 receipts.length)) }

def getUnitReceiptAt (index : Nat) : Option (Receipt Log) :=
  (db.receipt unit index).map Receipt.decodeRLP

def readFrom (db : ReceiptDb) (unit : Nat × Hash) : Nat → Nat → Option (List (Receipt Log))
  | _, 0 => some []
  | i, n + 1 => do return (← db.getUnitReceiptAt unit i) :: (← db.readFrom unit (i + 1) n)

def getUnitReceipts : Option (List (Receipt Log)) :=
  (db.count unit).bind (db.readFrom unit 0)

def deleteUnitReceipt : ReceiptDb :=
  match db.count unit with
  | none => db
  | some count =>
    { receipt := update db.receipt unit fun i =>
        if i < count then none else db.receipt unit i
      count := update db.count unit none }

/-- The receipts can be read back, deleting leaves none, and other units keep theirs. -/
structure ReadsBack (db : ReceiptDb) (unit : Nat × Hash) (receipts : List (Receipt Log)) :
    Prop where
  all : (db.writeUnitReceipts unit receipts).getUnitReceipts unit = some receipts
  single : ∀ i < receipts.length,
    (db.writeUnitReceipts unit receipts).getUnitReceiptAt unit (uint16 i) = receipts[i]?
  gone : ∀ i < receipts.length,
    ((db.writeUnitReceipts unit receipts).deleteUnitReceipt unit).receipt unit (uint16 i) = none
  goneCount : ((db.writeUnitReceipts unit receipts).deleteUnitReceipt unit).count unit = none
  others : ∀ other, other ≠ unit →
    ((db.writeUnitReceipts unit receipts).deleteUnitReceipt unit).receipt other = db.receipt other ∧
      ((db.writeUnitReceipts unit receipts).deleteUnitReceipt unit).count other = db.count other

variable {db : ReceiptDb} {unit : Nat × Hash} {receipts : List (Receipt Log)} {i : Nat}

theorem putReceipts_frame : (putReceipts unit i receipts db).count = db.count ∧
    ∀ other, other ≠ unit → (putReceipts unit i receipts db).receipt other = db.receipt other := by
  induction receipts generalizing i db with
  | nil => exact ⟨rfl, fun _ _ => rfl⟩
  | cons r receipts ih =>
    obtain ⟨hcount, hother⟩ := ih
    exact ⟨hcount, fun o ho => (hother o ho).trans (update_of_ne ho _ _)⟩

theorem putReceipts_self (hlen : i + receipts.length ≤ 2 ^ 16) {k : Nat}
    (hk : k < i + receipts.length) : (putReceipts unit i receipts db).receipt unit k =
      if k < i then db.receipt unit k else receipts[k - i]?.map Receipt.encodeRLP := by
  induction receipts generalizing i db with
  | nil => exact (if_pos hk).symm
  | cons r receipts ih =>
    rw [length_cons] at hlen hk
    have hput : (db.putReceipt unit i r).receipt unit k =
        if k = i then some r.encodeRLP else db.receipt unit k := by
      have hi : uint16 i = i := Nat.mod_eq_of_lt (by omega)
      simp only [putReceipt, update_self, hi, update_apply]
    rw [putReceipts, ih (by omega) (by omega), hput]
    obtain hk | rfl | hk := Nat.lt_trichotomy k i
    · rw [if_pos (by omega), if_pos hk, if_neg (by omega)]
    · rw [if_pos (by omega), if_pos rfl, if_neg (by omega), Nat.sub_self]
      rfl
    · rw [if_neg (by omega), if_neg (by omega), show k - i = k - (i + 1) + 1 by omega]
      rfl

theorem readFrom_eq (h : ∀ k < receipts.length, db.getUnitReceiptAt unit (i + k) = receipts[k]?) :
    db.readFrom unit i receipts.length = some receipts := by
  induction receipts generalizing i with
  | nil => rfl
  | cons r receipts ih =>
    have hhead : db.getUnitReceiptAt unit i = some r := h 0 (succ_pos _)
    have htail := ih (i := i + 1) fun k hk => by
      rw [add_assoc, add_comm 1]
      exact h (k + 1) (succ_lt_succ hk)
    rw [length_cons, readFrom, hhead, htail]
    rfl

theorem length_of_readFrom {n : Nat} {out : List (Receipt Log)}
    (h : db.readFrom unit i n = some out) : out.length = n := by
  induction n generalizing i out with
  | zero =>
    cases h
    rfl
  | succ n ih =>
    obtain ⟨r, -, h⟩ := Option.bind_eq_some_iff.mp h
    obtain ⟨out', hout, h⟩ := Option.bind_eq_some_iff.mp h
    cases h
    rw [length_cons, ih hout]

theorem length_of_getUnitReceipts
    (h : (db.writeUnitReceipts unit receipts).getUnitReceipts unit = some receipts) :
    receipts.length ≤ maxUint16 := by
  obtain ⟨count, hcount, hread⟩ := Option.bind_eq_some_iff.mp h
  have hself : (db.writeUnitReceipts unit receipts).count unit = some (uint16 receipts.length) :=
    update_self _ _ _
  obtain rfl : uint16 receipts.length = count := Option.some.inj (hself.symm.trans hcount)
  rw [length_of_readFrom hread]
  exact le_of_lt_succ (mod_lt _ (by decide))

theorem getUnitReceiptAt_write (hlen : receipts.length ≤ 2 ^ 16) (hi : i < receipts.length) :
    (db.writeUnitReceipts unit receipts).getUnitReceiptAt unit i =
      receipts[i]?.map fun r => r.encodeRLP.decodeRLP := by
  have hself : (db.writeUnitReceipts unit receipts).receipt unit i =
      receipts[i]?.map Receipt.encodeRLP := putReceipts_self (by omega) (by omega)
  rw [getUnitReceiptAt, hself, Option.map_map]
  rfl

/-- Exactly if sixteen bits count them and each is what its storage form decodes to. -/
theorem readsBack_iff : db.ReadsBack unit receipts ↔
    receipts.length ≤ maxUint16 ∧ ∀ r ∈ receipts, r.encodeRLP.decodeRLP = r := by
  constructor
  · intro h
    have hlen := length_of_getUnitReceipts h.all
    refine ⟨hlen, fun r hr => ?_⟩
    obtain ⟨i, hi, rfl⟩ := mem_iff_getElem.mp hr
    unfold maxUint16 at hlen
    have hsingle := h.single i hi
    rw [uint16, mod_eq_of_lt (by omega), getUnitReceiptAt_write (by omega) hi,
      getElem?_eq_getElem hi] at hsingle
    exact Option.some.inj hsingle
  rintro ⟨hlen, hsame⟩
  unfold maxUint16 at hlen
  have hfits : ∀ i, i ≤ receipts.length → uint16 i = i := fun i hi => mod_eq_of_lt (by omega)
  have hcount : (db.writeUnitReceipts unit receipts).count unit = some receipts.length := by
    rw [← hfits _ le_rfl]
    exact update_self _ _ _
  have hself : ∀ i < receipts.length,
      (db.writeUnitReceipts unit receipts).getUnitReceiptAt unit i = receipts[i]? := by
    intro i hi
    rw [getUnitReceiptAt_write (by omega) hi, getElem?_eq_getElem hi]
    exact congrArg some (hsame _ (getElem_mem hi))
  have hframe := @putReceipts_frame db unit receipts 0
  refine ⟨?_, fun i hi => ?_, fun i hi => ?_, ?_, fun other hother => ?_⟩
  · rw [getUnitReceipts, hcount]
    exact readFrom_eq fun k hk => by rw [zero_add, hself k hk]
  · rw [hfits i hi.le]
    exact hself i hi
  · simp only [deleteUnitReceipt, hcount, update_self, hfits i hi.le, if_pos hi]
  · simp only [deleteUnitReceipt, hcount, update_self]
  · rw [deleteUnitReceipt, hcount]
    refine ⟨(update_of_ne hother _ _).trans (hframe.2 other hother),
      (update_of_ne hother _ _).trans ?_⟩
    exact (update_of_ne hother _ _).trans (congrFun hframe.1 other)

theorem decodeRLP_encodeRLP_ofPacked {number txIndex : Nat} {index : Nat → Nat} {r : UnitReceipt}
    (hpos : 0 < number) : (Receipt.ofPacked number txIndex index r).encodeRLP.decodeRLP =
      .ofPacked number txIndex index r ↔ r.logs = [] := by
  constructor
  · intro h
    have hlogs := congrArg Receipt.logs h
    simp only [Receipt.decodeRLP, Receipt.encodeRLP, Receipt.withLogs, map_map] at hlogs
    rw [eq_nil_iff_forall_not_mem]
    intro l hl
    obtain ⟨i, hi, rfl⟩ := mem_iff_getElem.mp hl
    have hlog := congrArg (·[i]?) hlogs
    simp [Receipt.ofPacked, hi, Log.encodeRLP, RlpStorageLog.decodeRLP] at hlog
    omega
  · intro h
    simp [Receipt.ofPacked, Receipt.decodeRLP, Receipt.encodeRLP, Receipt.withLogs, h]

/-- The receipts of a packed unit can be read back exactly if sixteen bits count them and none has a
log. -/
theorem receipts_readBack (db : ReceiptDb) (header : Header) (hash : Hash)
    (index : Nat → Nat → Nat) (receipts : List UnitReceipt) :
    db.ReadsBack (header.number, hash) (packedReceipts header index receipts) ↔
      receipts.length ≤ maxUint16 ∧ ∀ r ∈ receipts, r.logs = [] := by
  rw [readsBack_iff, packedReceipts, length_mapIdx]
  refine and_congr_right fun _ => ?_
  simp only [forall_mem_iff_getElem, getElem_mapIdx, length_mapIdx,
    decodeRLP_encodeRLP_ofPacked header.number_pos]

end ReceiptDb

namespace Sample

def empty : ReceiptDb := ⟨fun _ _ => none, fun _ => none⟩

def loggingMiner : Miner Unit :=
  { miner with
    evm := ⟨miner.evm.machine, fun _ _ _ _ => ((), [⟨Core.Sample.recipient, [], []⟩])⟩
    effect_eq _ _ _ _ _ _ _ := rfl }

theorem receipts_not_readBack :
    ∃ packed, loggingMiner.packTxs header state [] [payoutMsg] false = .ok packed ∧
      packed.receipts.length = 1 ∧
      (empty.writeUnitReceipts (2, ⟨1⟩) (packedReceipts header (fun _ i => i)
        packed.receipts)).getUnitReceipts (2, ⟨1⟩) ≠
          some (packedReceipts header (fun _ i => i) packed.receipts) :=
  ⟨_, rfl, by decide +kernel, by decide +kernel⟩

end Sample

end Nerthus.Rawdb
