import Nerthus.Core.Types

/-!
# The calculation of work reports

`settle_calc.go`. A stored unit leaves a to-do mark. It is settled by its chain event, or by a
scan of the marks, daily and at every start: the report of each witness of its chain for the
period is updated and the mark is deleted, in one batch.
-/

namespace Nerthus.Sc.Settle

open Core (TxAction)

structure Config where
  /-- `ConfigParamsBillingPeriod`. -/
  billingPeriod : Nat
  publicPrivateKeyAddr : Address
  scAccount : Address

structure UnitTx where
  action : TxAction
  gasPrice : Nat
deriving DecidableEq

structure SettleUnit (conf : Config) where
  hash : Hash
  mc : Address
  timestamp : Nat
  scNumber : Nat
  proposer : Address
  /-- `Witnesses`: who voted for the unit. -/
  witnesses : List Address
  /-- `GetChainWitnessLib` at the system unit of the header. -/
  witnessLib : List Address
  transactions : List UnitTx
  receipts : List Nat
  /-- `Process` gives a receipt for each transaction, and `calcUnitFee` looks them up by index. -/
  receipts_length : receipts.length = transactions.length
  hash_ne_zero : hash ≠ Hash.zero
  witnessLib_nodup : witnessLib.Nodup
  proposer_mem : proposer ≠ conf.publicPrivateKeyAddr → proposer ∈ witnessLib

instance (conf : Config) : DecidableEq (SettleUnit conf) := fun a b =>
  decidable_of_iff (a.hash = b.hash ∧ a.mc = b.mc ∧ a.timestamp = b.timestamp ∧
    a.scNumber = b.scNumber ∧ a.proposer = b.proposer ∧ a.witnesses = b.witnesses ∧
    a.witnessLib = b.witnessLib ∧ a.transactions = b.transactions ∧ a.receipts = b.receipts)
    (by cases a; cases b; simp)

structure Mark where
  timestamp : Nat
  hash : Hash
deriving DecidableEq

def Mark.le (a b : Mark) : Prop :=
  a.timestamp < b.timestamp ∨ a.timestamp = b.timestamp ∧ a.hash.val ≤ b.hash.val

instance : DecidableRel Mark.le := fun _ _ => inferInstanceAs (Decidable (_ ∨ _))

structure Report where
  isSys : Bool
  votes : Nat
  createUnits : Nat
  votedTxs : Nat
  shouldVote : Nat
  fee : Nat
  votedLastUnit : Hash
deriving DecidableEq

def Report.new (isSys : Bool) : Report := ⟨isSys, 0, 0, 0, 0, 0, Hash.zero⟩

abbrev Reports := Nat → Address → Option Report

def Reports.put (r : Reports) (period : Nat) (witness : Address) (info : Report) : Reports :=
  fun p w => if p = period ∧ w = witness then some info else r p w

def getSettlePeriod (conf : Config) (sysNumber : Nat) : Nat :=
  if sysNumber ≤ conf.billingPeriod then 1
  else (sysNumber + conf.billingPeriod - 1) / conf.billingPeriod

section

variable {conf : Config} (u : SettleUnit conf)

namespace SettleUnit

def isBlackUnit : Bool := u.proposer == conf.publicPrivateKeyAddr

def mark : Mark := ⟨u.timestamp, u.hash⟩

def period : Nat := getSettlePeriod conf u.scNumber

def isSys : Bool := u.mc == conf.scAccount

def txCount : Nat := u.transactions.length

def txFee (tx : UnitTx) (gasUsed : Nat) : Nat :=
  if gasUsed = 0 then 0
  else if tx.action = .scIdleContractDeal then 0
  else if tx.gasPrice = 0 then 0
  else gasUsed * tx.gasPrice

/-- `calcUnitFee`: without receipts, those of the database are read. -/
def calcUnitFee (receipts : Option (List Nat)) : Nat :=
  ((u.transactions.zip (receipts.getD u.receipts)).map fun p => txFee p.1 p.2).sum

def fee : Nat := u.calcUnitFee none

end SettleUnit

def countUnit (workFee : Nat) (info : Report) (w : Address) : Report :=
  let info := { info with shouldVote := info.shouldVote + 1 }
  if w = u.proposer then
    { info with
      fee := info.fee + workFee
      createUnits := info.createUnits + 1
      votes := info.votes + 1
      votedTxs := info.votedTxs + u.txCount
      votedLastUnit := u.hash }
  else if w ∈ u.witnesses then
    { info with
      votes := info.votes + 1
      votedTxs := info.votedTxs + u.txCount
      votedLastUnit := u.hash }
  else info

/-- The loop of `writeWorkFee`: it reads the database and writes to the batch. A proposer that voted
for this unit last ends it. -/
def countUnits (u : SettleUnit conf) (workFee : Nat) (db : Reports) :
    List Address → Reports → Reports
  | [], batch => batch
  | w :: rest, batch =>
    let info := (db u.period w).getD (Report.new u.isSys)
    if w = u.proposer ∧ info.votedLastUnit = u.hash then batch
    else countUnits u workFee db rest (batch.put u.period w (countUnit u workFee info w))

structure SettleCalc (conf : Config) where
  units : List (SettleUnit conf)
  /-- The to-do marks, in the order of their keys. -/
  marks : List Mark
  reports : Reports
  /-- Stored units whose event has not been sent. -/
  unsent : List (SettleUnit conf)
  queue : List (SettleUnit conf)

namespace SettleCalc

variable (s : SettleCalc conf)

def empty : SettleCalc conf := ⟨[], [], fun _ _ => none, [], []⟩

def getUnit (hash : Hash) : Option (SettleUnit conf) :=
  s.units.find? fun u => u.hash = hash

def delete (m : Mark) : SettleCalc conf :=
  { s with marks := s.marks.filter fun x => x ≠ m }

/-- `Write`, with the unit itself: both are in one batch. A known unit is not stored again. -/
def write (u : SettleUnit conf) : SettleCalc conf :=
  if (s.getUnit u.hash).isSome then s
  else
    { s with
      units := u :: s.units
      marks := if u.isBlackUnit then s.marks else s.marks.orderedInsert Mark.le u.mark
      unsent := u :: s.unsent }

def writeWorkFee (u : SettleUnit conf) (workFee : Nat) : SettleCalc conf :=
  if u.isBlackUnit then s
  else { s with reports := countUnits u workFee s.reports u.witnessLib s.reports }.delete u.mark

/-- `process`; `fails`: the witnesses cannot be read or the batch cannot be written, which is only
logged. -/
def process (fails : Bool) (u : SettleUnit conf) (receipts : Option (List Nat)) : SettleCalc conf :=
  if fails then s else s.writeWorkFee u (u.calcUnitFee receipts)

def processMark (fails : Hash → Bool) (s : SettleCalc conf) (m : Mark) : SettleCalc conf :=
  match s.getUnit m.hash with
  | none => s.delete m
  | some u => s.process (fails m.hash) u none

def processOld (fails : Hash → Bool) : SettleCalc conf :=
  s.marks.foldl (processMark fails) s

inductive Step (conf : Config) where
  | write (u : SettleUnit conf)
  /-- The chain sends the event of a stored unit. -/
  | send (u : SettleUnit conf)
  /-- The event of a stored unit is sent while nobody listens. -/
  | lose (u : SettleUnit conf)
  | deliver (fails : Bool)
  | scan (fails : Hash → Bool)
  /-- The queue is emptied; the next start scans. -/
  | restart (fails : Hash → Bool)

def step : Step conf → SettleCalc conf
  | .write u => s.write u
  | .send u =>
    if u ∈ s.unsent then { s with unsent := s.unsent.erase u, queue := s.queue ++ [u] } else s
  | .lose u => { s with unsent := s.unsent.erase u }
  | .deliver fails =>
    match s.queue with
    | [] => s
    | u :: queue => { s with queue }.process fails u (some u.receipts)
  | .scan fails => s.processOld fails
  | .restart fails => { s with queue := [] }.processOld fails

def run (steps : List (Step conf)) : SettleCalc conf :=
  steps.foldl step s

end SettleCalc

end

end Nerthus.Sc.Settle
