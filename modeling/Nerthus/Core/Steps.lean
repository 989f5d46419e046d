import Nerthus.Core.UnitValidator
import Nerthus.Lib.Vouchers

/-!
# The steps of a transaction

The steps of one transaction are executed on several chains, among those of others. The state
keeps what is stored of the transaction, the marks of its actions, and the sums of what its steps
moved; the state of a chain is given with each step.
-/

namespace Nerthus.Core

open Lib (Vouchers)

def contractBalance (a : Address) (obj : Account) : Nat := if a.isContract then obj.balance else 0

namespace StateDB

def contracts (db : StateDB) : Nat := db.accounts.worth contractBalance

def kept (db : StateDB) (chain a : Address) : Nat := if onChain chain a then db.getBalance a else 0

end StateDB

/-- A step that is to be executed. Since the changes were read, balances were only lowered. -/
structure Step where
  header : Header
  exec : TransactionExec
  accounts : Accounts
  trie : List Address
  gasPool : Nat
  vm : Machine
  stopped : Address → Nat
  minGasPrice : Nat
  powDiff : Nat
  settled : ∀ a, accounts.share balanceOf a ≤ accounts.share initBalanceOf a

structure World where
  dag : Dag
  marks : List (Address × TxAction)
  /-- What receipt, contract receipt and refund added to accounts. -/
  credited : Nat
  /-- What payment and freeze took from the sender. -/
  debited : Nat
  fees : Nat
  /-- What the contracts of the chains lost in the deals. -/
  gaveUp : Nat

variable (env : Env)

namespace World

def init : World := ⟨⟨false, []⟩, [], 0, 0, 0, 0⟩

def stateOf (w : World) (s : Step) : StateDB := ⟨s.accounts, s.trie, w.marks⟩

def store (w : World) (tx : Transaction) (s : Step) (receipt : Receipt) (db : StateDB) : World where
  dag := ⟨w.dag.known || s.exec.hasTx, w.dag.steps ++ [⟨s.header, s.exec, receipt⟩]⟩
  marks := db.marks
  credited := w.credited + if s.exec.action.isCredit then
    db.kept s.header.mc s.header.mc - (w.stateOf s).kept s.header.mc s.header.mc else 0
  debited := w.debited + if s.exec.action.isDebit then
    (w.stateOf s).kept s.header.mc tx.sender - db.kept s.header.mc tx.sender else 0
  fees := w.fees + receipt.gasUsed * tx.gasPrice
  gaveUp := w.gaveUp + if s.exec.action.isDeal then (w.stateOf s).contracts - db.contracts else 0

def step (tx : Transaction) (w : World) (s : Step) : Except Err World := do
  validateExec env w.dag s.header tx s.exec s.minGasPrice s.powDiff
  let (receipt, db) ← processTransaction env s.vm s.stopped w.dag s.header tx s.exec (w.stateOf s)
    s.gasPool
  .ok (w.store tx s receipt db)

def run (env : Env) (tx : Transaction) (w : World) : List Step → Except Err World
  | [] => .ok w
  | s :: steps => do
    let w ← w.step env tx s
    w.run env tx steps

end World

namespace StoredStep

def key (s : StoredStep) : Address × TxAction := (s.header.mc, s.exec.action.marked)

def prepares (tx : Transaction) (s : StoredStep) : Bool :=
  decide (s.header.mc = env.scAccount) && env.isCallCreateContractTx tx.recipient tx.data

def flowActions (s : StoredStep) : List (Address × TxAction) :=
  (s.receipt.coinflows.filter fun v => v.recipient ≠ s.header.mc).map
    fun v => (v.recipient, .contractReceipt)

/-- `GetTxNextActions`: the steps that follow a step. -/
def nextActions (tx : Transaction) (s : StoredStep) : List (Address × TxAction) :=
  match s.exec.action with
  | .transferPayment =>
    if s.receipt.failed || decide (tx.recipient = tx.senderAddr) then []
    else [(tx.recipient, .transferReceipt)]
  | .transferReceipt | .contractReceipt | .contractRefund | .powTxContractDeal => []
  | .contractFreeze =>
    if s.receipt.failed then []
    else if tx.recipient = env.scAccount ∧
        env.isCallCreateContractTx tx.recipient tx.data = true then [(env.scAccount, .contractDeal)]
    else [(tx.recipient, .contractDeal)]
  | .scIdleContractDeal => s.flowActions
  | .contractDeal =>
    if s.prepares env tx && !s.receipt.failed then
      match env.createdContract s.receipt.output with
      | none => []
      | some contract => [(contract, .contractDeal)]
    else (if 0 < tx.gas then [(tx.senderAddr, .contractRefund)] else []) ++ s.flowActions

end StoredStep

/-- The step follows the one that its `PreStep` names. -/
def Follows (tx : Transaction) (w : World) (s : Step) : Prop :=
  ∃ r ∈ w.dag.stepAt s.exec.preStep.hash,
    (s.header.mc, s.exec.action.marked) ∈ r.nextActions env tx
deriving Decidable

/-- The steps that the program schedules: payment and freeze on the sender's chain, a deal without a
step before it if there is nothing to freeze, and what follows another step. -/
def Scheduled (tx : Transaction) (w : World) (s : Step) : Prop :=
  if s.exec.action.isDebit then s.header.mc = tx.sender
  else if s.exec.action.isDeal && s.exec.preStep.isEmpty then
    tx.gas * tx.gasPrice + tx.amount = 0
  else Follows env tx w s
deriving Decidable

def OnSuccess (r : Except Err World) (P : World → Prop) : Prop :=
  match r with
  | .error _ => True
  | .ok w => P w

instance (r : Except Err World) (P : World → Prop) [DecidablePred P] :
    Decidable (OnSuccess r P) :=
  match r with
  | .error _ => .isTrue trivial
  | .ok w => inferInstanceAs (Decidable (P w))

def AllScheduled (env : Env) (tx : Transaction) (w : World) : List Step → Prop
  | [] => True
  | s :: steps =>
    Scheduled env tx w s ∧ OnSuccess (w.step env tx s) fun w' => AllScheduled env tx w' steps

instance instDecidableAllScheduled (env : Env) (tx : Transaction) :
    (w : World) → (steps : List Step) → Decidable (AllScheduled env tx w steps)
  | _, [] => .isTrue trivial
  | w, s :: steps =>
    have (w' : World) := instDecidableAllScheduled env tx w' steps
    inferInstanceAs (Decidable (Scheduled env tx w s ∧
      OnSuccess (w.step env tx s) fun w' => AllScheduled env tx w' steps))

structure Conserves (tx : Transaction) (w : World) : Prop where
  /-- No more is credited and charged than was debited and given up. -/
  balanced : w.credited + w.fees ≤ w.debited + w.gaveUp
  once : (w.dag.steps.map StoredStep.key).Nodup
  /-- Two credits to one account out of one step are the refund and what the contract paid. -/
  separate : ∀ s ∈ w.dag.steps, ∀ t ∈ w.dag.steps, s.exec.action.isCredit = true →
    t.exec.action.isCredit = true → s.header.mc = t.header.mc →
    s.exec.preStep.hash = t.exec.preStep.hash → s ≠ t →
    ∃ d ∈ w.dag.steps, d.header.hash = s.exec.preStep.hash ∧ d.exec.action.isDeal = true ∧
      ((s.exec.action = .contractRefund ∧ t.exec.action = .contractReceipt) ∨
        (s.exec.action = .contractReceipt ∧ t.exec.action = .contractRefund))
  /-- A refund is for a contract that was executed before. -/
  refunded : ∀ before s after, w.dag.steps = before ++ s :: after →
    s.exec.action = .contractRefund →
    tx.recipient.isContract = true ∧ ∃ d ∈ before, d.exec.action.isDeal = true

end Nerthus.Core
