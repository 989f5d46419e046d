import Nerthus.Core.Types

/-!
# The status log of a transaction

`core/db_util.go`: the steps of a transaction are stored under its hash and a number, with the
number of steps beside them. `delTransactionStatus` writes the steps that remain anew, from the
last to the first.
-/

namespace Nerthus.Core

open Function List

structure TxStatusInfo where
  unitHash : Hash
  action : TxAction
  failed : Bool
  txExecIndex : Nat
deriving DecidableEq

/-- The count of a transaction, zero where there is none, and the steps under their numbers. -/
structure StatusDb where
  count : Hash → Nat
  info : Hash → Nat → Option TxStatusInfo

structure BodyStep where
  txHash : Hash
  action : TxAction
  failed : Bool
deriving DecidableEq

inductive StatusCall where
  /-- The loop of `WriteBody`. -/
  | writeBody (uHash : Hash) (txs : List BodyStep)
  | delTransactionStatus (uhash txHash : Hash) (action : TxAction)
deriving DecidableEq

variable (db : StatusDb)

namespace StatusDb

def empty : StatusDb := ⟨fun _ => 0, fun _ _ => none⟩

def read (db : StatusDb) (txHash : Hash) : List Nat → List TxStatusInfo
  | [] => []
  | i :: flags =>
    match db.info txHash i with
    | none => []
    | some info => info :: db.read txHash flags

def getTransactionStatus (txHash : Hash) : List TxStatusInfo :=
  db.read txHash (List.range' 1 (db.count txHash))

def getLastTransactionStatus (txHash : Hash) : Option TxStatusInfo :=
  if db.count txHash = 0 then none else db.info txHash (db.count txHash)

def writeTransactionStatus (txHash : Hash) (info : TxStatusInfo) (flag : Nat) :
    StatusDb where
  count := update db.count txHash flag
  info := update db.info txHash (update (db.info txHash) flag (some info))

/-- `addTransactionStatus`; zero stands for a count that is not known. -/
def addTransactionStatus (txHash : Hash) (info : TxStatusInfo) (count : Nat) :
    StatusDb × Nat :=
  let count := (if count = 0 then db.count txHash else count) + 1
  (db.writeTransactionStatus txHash info count, count)

/-- `delTransactionStatus`; the count that is passed on stays zero. -/
def delTransactionStatus (uhash txHash : Hash) (action : TxAction) : StatusDb :=
  let infoList := (db.getTransactionStatus txHash).filter fun info =>
    ¬(info.action = action ∧ info.unitHash = uhash)
  infoList.foldr (fun info db => (db.addTransactionStatus txHash info 0).1)
    { db with count := update db.count txHash 0 }

/-- The loop of `WriteBody`; `index` is that of the step, `counts` is `txCountList`. -/
def writeBody (uHash : Hash) : List BodyStep → Nat → (Hash → Nat) → StatusDb → StatusDb
  | [], _, _, db => db
  | tx :: txs, index, counts, db =>
    let r := db.addTransactionStatus tx.txHash ⟨uHash, tx.action, tx.failed, index⟩
      (counts tx.txHash)
    writeBody uHash txs (index + 1) (update counts tx.txHash r.2) r.1

def call : StatusCall → StatusDb
  | .writeBody uHash txs => writeBody uHash txs 1 (fun _ => 0) db
  | .delTransactionStatus uhash txHash action => db.delTransactionStatus uhash txHash action

end StatusDb

/-! ## The log as a list -/

/-- The steps of each transaction in the order in which they were added. -/
abbrev StatusLog : Type := Hash → List TxStatusInfo

variable (log : StatusLog)

namespace StatusLog

def push (txHash : Hash) (info : TxStatusInfo) : StatusLog :=
  update log txHash (log txHash ++ [info])

def pushAll (uHash : Hash) : List BodyStep → Nat → StatusLog → StatusLog
  | [], _, log => log
  | tx :: txs, index, log =>
    pushAll uHash txs (index + 1) (log.push tx.txHash ⟨uHash, tx.action, tx.failed, index⟩)

def without (uhash txHash : Hash) (action : TxAction) : List TxStatusInfo :=
  (log txHash).filter fun info => ¬(info.action = action ∧ info.unitHash = uhash)

def call : StatusCall → StatusLog
  | .writeBody uHash txs => pushAll uHash txs 1 log
  | .delTransactionStatus uhash txHash action =>
    update log txHash (log.without uhash txHash action)

/-- What a deletion leaves reads the same backwards. -/
def Mirrored : StatusCall → Prop
  | .writeBody _ _ => True
  | .delTransactionStatus uhash txHash action =>
    (log.without uhash txHash action).reverse = log.without uhash txHash action

def MirroredRun : StatusLog → List StatusCall → Prop
  | _, [] => True
  | log, c :: calls => log.Mirrored c ∧ MirroredRun (log.call c) calls

end StatusLog

namespace StatusDb

def Shows : Prop :=
  ∀ txHash, db.getTransactionStatus txHash = log txHash ∧
    db.getLastTransactionStatus txHash = (log txHash).getLast?

def Holds : Prop :=
  ∀ txHash, db.count txHash = (log txHash).length ∧
    ∀ i < (log txHash).length, db.info txHash (i + 1) = (log txHash)[i]?

variable {db : StatusDb} {log : StatusLog} {txHash : Hash}

theorem read_eq {start : Nat} {l : List TxStatusInfo}
    (h : ∀ i < l.length, db.info txHash (start + i) = l[i]?) :
    db.read txHash (range' start l.length) = l := by
  induction l generalizing start with
  | nil => rfl
  | cons a l ih =>
    have hhead : db.info txHash start = some a := h 0 (Nat.succ_pos _)
    have htail := @ih (start + 1) fun i hi => by
      rw [Nat.add_assoc, Nat.add_comm 1]
      exact h (i + 1) (Nat.succ_lt_succ hi)
    rw [length_cons, range'_succ, read, hhead]
    exact congrArg (a :: ·) htail

section

variable (h : db.Holds log)
include h

theorem Holds.shows : db.Shows log := by
  intro txHash
  obtain ⟨hcount, hinfo⟩ := h txHash
  constructor
  · rw [getTransactionStatus, hcount]
    exact read_eq fun i hi => by rw [Nat.add_comm]; exact hinfo i hi
  · rw [getLastTransactionStatus, hcount, getLast?_eq_getElem?]
    cases hlen : (log txHash).length with
    | zero => simp [hlen]
    | succ n => exact hinfo n (hlen ▸ Nat.lt_succ_self n)

theorem Holds.add (info : TxStatusInfo) {count : Nat}
    (hcount : count = 0 ∨ count = (log txHash).length) :
    (db.addTransactionStatus txHash info count).1.Holds (log.push txHash info) ∧
      (db.addTransactionStatus txHash info count).2 = (log.push txHash info txHash).length := by
  obtain ⟨hlen, hinfo⟩ := h txHash
  have hnext : (if count = 0 then db.count txHash else count) = (log txHash).length := by
    obtain rfl | rfl := hcount
    · exact hlen
    · split
      · exact hlen
      · rfl
  unfold addTransactionStatus
  rw [hnext]
  refine ⟨fun other => ?_, by simp [StatusLog.push]⟩
  by_cases hother : other = txHash
  · subst hother
    simp only [writeTransactionStatus, StatusLog.push, update_self, length_append,
      length_singleton, true_and]
    intro i hi
    by_cases hlast : i = (log other).length
    · simp [hlast]
    · rw [update_of_ne (by omega), hinfo i (by omega), getElem?_append_left (by omega)]
  · simpa [writeTransactionStatus, StatusLog.push, hother] using h other

theorem Holds.writeBody {uHash : Hash} {txs : List BodyStep} {index : Nat} {counts : Hash → Nat}
    (hcounts : ∀ t, counts t = 0 ∨ counts t = (log t).length) :
    (StatusDb.writeBody uHash txs index counts db).Holds (StatusLog.pushAll uHash txs index log) := by
  induction txs generalizing db log index counts with
  | nil => exact h
  | cons tx txs ih =>
    obtain ⟨hadd, hcount⟩ := h.add ⟨uHash, tx.action, tx.failed, index⟩ (hcounts tx.txHash)
    refine ih hadd fun t => ?_
    by_cases ht : t = tx.txHash
    · subst ht
      exact Or.inr (by rw [update_self, hcount])
    · simpa [ht, StatusLog.push] using hcounts t

theorem Holds.del (uhash txHash : Hash) (action : TxAction) :
    (db.delTransactionStatus uhash txHash action).Holds
      (update log txHash (log.without uhash txHash action).reverse) := by
  unfold delTransactionStatus
  rw [(h.shows txHash).1]
  change Holds ((log.without uhash txHash action).foldr _ _) _
  -- the loop starts from an empty list and adds the last step first
  induction log.without uhash txHash action with
  | nil =>
    intro other
    by_cases hother : other = txHash
    · simp [hother]
    · simpa [hother] using h other
  | cons info l ih =>
    have hadd := (ih.add info (.inl (Eq.refl 0) : _ ∨ _ = (update log txHash _ txHash).length)).1
    simpa [StatusLog.push] using hadd

theorem Holds.call {c : StatusCall} (hc : log.Mirrored c) :
    (db.call c).Holds (log.call c) := by
  cases c with
  | writeBody uHash txs => exact h.writeBody fun _ => Or.inl rfl
  | delTransactionStatus uhash txHash action =>
    have hdel := h.del uhash txHash action
    rwa [show _ = _ from hc] at hdel

theorem Holds.mirrored {c : StatusCall} (hc : (db.call c).Shows (log.call c)) :
    log.Mirrored c := by
  cases c with
  | writeBody uHash txs => trivial
  | delTransactionStatus uhash txHash action =>
    have hshows := ((h.del uhash txHash action).shows txHash).1
    have hspec := (hc txHash).1
    rw [update_self] at hshows
    exact hshows.symm.trans (hspec.trans (update_self _ _ _))

theorem Holds.run_iff (calls : List StatusCall) :
    (∀ done, done <+: calls → (done.foldl StatusDb.call db).Shows (done.foldl StatusLog.call log)) ↔
      log.MirroredRun calls := by
  induction calls generalizing db log with
  | nil =>
    refine iff_of_true (fun done hdone => ?_) trivial
    rw [prefix_nil.mp hdone]
    exact h.shows
  | cons c calls ih =>
    constructor
    · intro hall
      have hc := h.mirrored (hall [c] ⟨calls, rfl⟩)
      refine ⟨hc, (ih (h.call hc)).mp fun done hdone => ?_⟩
      exact hall (c :: done) ((prefix_cons_inj c).mpr hdone)
    · rintro ⟨hc, hcalls⟩ done hdone
      cases done with
      | nil => exact h.shows
      | cons c' done =>
        obtain ⟨rfl, hrest⟩ := cons_prefix_cons.mp hdone
        exact (ih (h.call hc)).mpr hcalls done hrest

end

/-- The log is shown in every state exactly if each deletion leaves steps that read the same
backwards. -/
theorem status_log_ordered (calls : List StatusCall) : (∀ done, done <+: calls →
        (done.foldl StatusDb.call .empty).Shows (done.foldl StatusLog.call fun _ => [])) ↔
      StatusLog.MirroredRun (fun _ => []) calls :=
  Holds.run_iff (fun _ => ⟨rfl, fun _ hi => absurd hi (Nat.not_lt_zero _)⟩) calls

/-- Of three steps the first is deleted, and the other two change places. -/
theorem status_log_reversed : ¬ ∀ done, done <+: [.writeBody ⟨1⟩ [⟨⟨7⟩, .contractFreeze, false⟩],
        .writeBody ⟨2⟩ [⟨⟨7⟩, .contractDeal, false⟩], .writeBody ⟨3⟩ [⟨⟨7⟩, .contractRefund, false⟩],
        .delTransactionStatus ⟨1⟩ ⟨7⟩ .contractFreeze] →
      (done.foldl StatusDb.call .empty).Shows (done.foldl StatusLog.call fun _ => []) := by
  intro h
  exact absurd (h _ (prefix_refl _) ⟨7⟩).2 (by decide)

end StatusDb

end Nerthus.Core
