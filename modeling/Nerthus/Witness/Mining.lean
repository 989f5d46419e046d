import Nerthus.Core.NextAction
import Nerthus.Core.Node

/-!
# The packing of a unit

`witness/mining.go`: the proposer of a unit executes the messages of the queue on the state of
the chain. A message that is not accepted is undone by `RevertToSnapshot` and skipped. Others
process the unit without the skipped messages, so what these leave behind matters.
-/

namespace Nerthus.Witness

open Core

section Resets

variable (env : Env) (vm : Machine) (stopped : Address → Nat) (dag : Dag) (header : Header)
  (tx : Transaction) (exec : TransactionExec) (db : StateDB) (gasPool : Nat)

/-- The amount to which `applyToContract` resets the initial balance of the sender: the only write
that the journal does not have. -/
def resetAt (gasRemaining : Nat) (currAction : TxAction) (source : UnitID) (db : StateDB)
    (gasPool : Nat) : Option Nat :=
  match checkIdle env currAction header.mc tx gasRemaining with
  | .error _ => none
  | .ok () =>
    if env.isCallCreateContractTx tx.recipient tx.data && decide (header.mc = env.scAccount) then
      if (safeMul gasRemaining tx.gasPrice).2 then none
      else
        match (tryCreate env vm header tx gasRemaining currAction source db
            (safeMul gasRemaining tx.gasPrice).1 gasPool).2 with
        | .error _ => none
        | .ok r => if r.failed then none else some (gasRemaining * tx.gasPrice + tx.amount)
    else some (gasRemaining * tx.gasPrice + tx.amount)

/-- The reset of `ApplyToContract`; the other functions do none. -/
def resetOf : Option Nat :=
  if !exec.action.isDeal || !tx.recipient.isContract then none
  else
    match db.checkTxActionInChain header.mc .contractDeal, dealGasRemaining dag tx exec with
    | .ok (), .ok gasRemaining =>
      resetAt env vm header tx gasRemaining exec.action exec.preStep
        (db.setTxActionStateInChain header.mc .contractDeal) gasPool
    | _, _ => none

def processReset : Option Nat :=
  match dag.queryOriginTx exec with
  | .error _ => none
  | .ok () =>
    if exec.preStep.chainID.empty then resetOf env vm dag header tx exec db gasPool
    else
      match checkChainIsStopped env stopped exec.preStep.chainID exec.preStep.height with
      | .error _ => none
      | .ok () => resetOf env vm dag header tx exec db gasPool

end Resets

/-- `RevertToSnapshot` after the reset: an account that the step made is gone, but one that was
there keeps the initial balance. -/
def revertToSnapshot {σ : Type} (s : ChainState σ) (sender : Address) :
    Option Nat → ChainState σ
  | none => s
  | some amount =>
    { s with accounts := s.accounts.update fun a obj =>
        if a = sender then { obj with initBalance := amount } else obj }

structure TxMsg where
  tx : Transaction
  action : TxAction
  preAction : UnitID
deriving DecidableEq

structure Miner (σ : Type) extends Node σ where
  getTimestamp : Hash → Option Nat
  testnet : Bool
  /-- `ConfigParamsLowestGasPrice`. -/
  priceLimit : Nat

inductive PackErr where
  | rollbackTx
  | invalidTx
  | noSuccessTx
  | consensusInterrupt
  | process (e : Err)
deriving DecidableEq

structure Work (σ : Type) where
  state : ChainState σ
  gasPool : Nat
  totalGas : Nat

/-- The variables of `packTxs`; `index` is the number of the results. -/
structure Pack (σ : Type) where
  work : Work σ
  zeroGasSum : Nat
  result : List TxExec
  receipts : List UnitReceipt

structure Packed where
  txs : List TxExec
  receipts : List UnitReceipt
  stateRoot : Hash
  gasUsed : Nat
  receiptRoot : Hash
  bloom : Nat

def zeroGasUseMaxSum : Nat := 200

def maxUint16 : Nat := 65535

def isZeroGas (action : TxAction) : Bool :=
  action == .transferReceipt || action == .contractRefund || action == .scIdleContractDeal

/-- The step in the unit: a step that follows another one does not bring the transaction. -/
def filled (e : TxExec) : TxExec := if e.preStep.isEmpty then e else { e with tx := none }

namespace Miner

variable {σ : Type} (n : Miner σ) (header : Header)

def convertToTxExec (msg : TxMsg) : TxExec where
  action := msg.action
  txHash := n.txHash msg.tx
  tx := some msg.tx
  preStep :=
    match msg.action with
    | .transferPayment | .contractFreeze | .powTxContractDeal | .scIdleContractDeal => .zero
    | .contractDeal | .transferReceipt =>
      if isSCIdleContract msg.tx.data then .zero else msg.preAction
    | .contractReceipt | .contractRefund => msg.preAction

/-- What `handleTx` checks before the execution; a previous step that is not found is only
logged. -/
def checkMsg (msg : TxMsg) : Except PackErr Unit :=
  if !msg.preAction.isEmpty && (n.getTimestamp msg.preAction.hash).any (header.timestamp ≤ ·) then
    .error .rollbackTx
  else if header.mc = n.env.scAccount ∧ 8000000 ≤ msg.tx.gas ∧ n.testnet = true then
    .error .invalidTx
  else if (n.convertToTxExec msg).preStep.isEmpty then
    if ¬n.env.isFreeTx msg.tx ∧ msg.tx.gasPrice < n.priceLimit then .error .invalidTx
    else if msg.tx.expired header.timestamp then .error .invalidTx
    else if msg.tx.isFuture header.timestamp then .error .invalidTx
    else .ok ()
  else .ok ()

def reverted (w : Work σ) (msg : TxMsg) : ChainState σ :=
  revertToSnapshot w.state msg.tx.sender <|
    processReset n.env (n.evm.machine msg.tx w.state.storage) n.store.stopped
      (n.store.dag (n.txHash msg.tx)) header msg.tx (n.convertToTxExec msg).step
      (w.state.stateDB (n.txHash msg.tx)) w.gasPool

def handleTx (w : Work σ) (msg : TxMsg) : Work σ × Except PackErr (TxExec × UnitReceipt) :=
  match n.checkMsg header msg with
  | .error e => (w, .error e)
  | .ok () =>
    let e := n.convertToTxExec msg
    let gasPool := n.poolAfter header w.state w.gasPool e
    match n.processExec header w.state w.gasPool w.totalGas e with
    | .error err => (⟨n.reverted header w msg, gasPool, w.totalGas⟩, .error (.process err))
    | .ok (r, s) => (⟨s, gasPool, w.totalGas + r.result.gasUsed⟩, .ok (filled e, r))

/-- `processTx`, which says whether the next message may be tried. -/
def processTx (p : Pack σ) (msg : TxMsg) : Pack σ × Bool :=
  if p.work.gasPool < txGas then (p, false)
  else
    let zeroGasSum := if isZeroGas msg.action then p.zeroGasSum + 1 else p.zeroGasSum
    if isZeroGas msg.action = true ∧ zeroGasUseMaxSum ≤ zeroGasSum then
      ({ p with zeroGasSum := zeroGasSum }, false)
    else
      match n.handleTx header p.work msg with
      | (work, .error err) =>
        -- only as the first one a message that reaches the limit is passed over
        ({ p with work := work, zeroGasSum := zeroGasSum },
          err ≠ .process .gasLimitReached || p.result.isEmpty)
      | (work, .ok (e, r)) =>
        (⟨work, zeroGasSum, p.result ++ [e], p.receipts ++ [r]⟩,
          decide (p.result.length + 1 ≤ maxUint16))

def packOthers (p : Pack σ) (others : List TxMsg) : Pack σ :=
  others.foldl (fun p msg => (n.processTx header p msg).1) p

/-- The loop over the queue; `queue` is what is popped until the time is over. -/
def packQueue (p : Pack σ) : List TxMsg → Pack σ
  | [] => p
  | msg :: queue =>
    if (n.processTx header p msg).2 then packQueue (n.processTx header p msg).1 queue
    else (n.processTx header p msg).1

def start (s : ChainState σ) : Pack σ := ⟨⟨s, header.gasLimit, 0⟩, 0, [], []⟩

/-- `packTxs`; `others` are the transactions of `newOtherTx`. -/
def packTxs (s : ChainState σ) (others queue : List TxMsg) (interrupted : Bool) :
    Except PackErr Packed :=
  let p := n.packQueue header (n.packOthers header (start header s) others) queue
  if p.result.isEmpty then .error .noSuccessTx
  else if interrupted then .error .consensusInterrupt
  else
    .ok ⟨p.result, p.receipts, n.stateRoot p.work.state, p.work.totalGas, n.receiptRoot p.receipts,
      createBloom n.bloom9 p.receipts⟩

/-- The message comes to `ProcessTransaction`. -/
def Tried (p : Pack σ) (msg : TxMsg) : Prop :=
  txGas ≤ p.work.gasPool ∧
    (isZeroGas msg.action = true → p.zeroGasSum + 1 < zeroGasUseMaxSum) ∧
    (n.checkMsg header msg).isOk = true

/-- A message not accepted leaves the initial balance of its sender: it is no deal, or does not come
to the reset, or the sender has no account, or one with that balance already. -/
def Traceless (p : Pack σ) (msg : TxMsg) : Prop :=
  n.Tried header p msg →
    (n.processExec header p.work.state p.work.gasPool p.work.totalGas
      (n.convertToTxExec msg)).isOk = true ∨
    ∀ amount ∈ processReset n.env (n.evm.machine msg.tx p.work.state.storage) n.store.stopped
        (n.store.dag (n.txHash msg.tx)) header msg.tx (n.convertToTxExec msg).step
        (p.work.state.stateDB (n.txHash msg.tx)) p.work.gasPool,
      ∀ obj ∈ p.work.state.accounts.get? msg.tx.sender, obj.initBalance = amount

instance (p : Pack σ) (msg : TxMsg) : Decidable (n.Traceless header p msg) :=
  haveI : Decidable (n.Tried header p msg) := inferInstanceAs (Decidable (_ ∧ _))
  inferInstanceAs (Decidable (_ → _))

def TracelessOthers : Pack σ → List TxMsg → Prop
  | _, [] => True
  | p, msg :: others =>
    n.Traceless header p msg ∧ TracelessOthers (n.processTx header p msg).1 others

def TracelessQueue : Pack σ → List TxMsg → Prop
  | _, [] => True
  | p, msg :: queue =>
    n.Traceless header p msg ∧
      ((n.processTx header p msg).2 = true → TracelessQueue (n.processTx header p msg).1 queue)

end Miner

section Message

variable {σ : Type} {n : Miner σ} {header : Header} {w : Work σ} {msg : TxMsg} {r : UnitReceipt}
  {s s' : ChainState σ} {gasPool total : Nat}

theorem isDebit_of_preStep (h : (n.convertToTxExec msg).preStep.isEmpty = false) :
    msg.action.isDebit = false := by
  unfold Miner.convertToTxExec at h
  cases haction : msg.action with
  | transferPayment | contractFreeze =>
    rw [haction] at h
    cases h
  | _ => rfl

theorem processExec_filled
    (h : n.processExec header s gasPool total (n.convertToTxExec msg) = .ok (r, s')) :
    n.processExec header s gasPool total (filled (n.convertToTxExec msg)) = .ok (r, s') ∧
      n.poolAfter header s gasPool (filled (n.convertToTxExec msg)) =
        n.poolAfter header s gasPool (n.convertToTxExec msg) := by
  unfold filled
  by_cases hpre : (n.convertToTxExec msg).preStep.isEmpty = true
  · rw [if_pos hpre]
    exact ⟨h, rfl⟩
  · rw [if_neg hpre]
    rw [Bool.not_eq_true] at hpre
    exact Node.replaces_none rfl rfl hpre (isDebit_of_preStep hpre) _ _ _ _ _ h

theorem reverted_eq (hreset : ∀ amount ∈ processReset n.env (n.evm.machine msg.tx w.state.storage)
      n.store.stopped (n.store.dag (n.txHash msg.tx)) header msg.tx (n.convertToTxExec msg).step
      (w.state.stateDB (n.txHash msg.tx)) w.gasPool,
        ∀ obj ∈ w.state.accounts.get? msg.tx.sender, obj.initBalance = amount) :
    n.reverted header w msg = w.state := by
  unfold Miner.reverted
  cases hamount : processReset n.env (n.evm.machine msg.tx w.state.storage) n.store.stopped
      (n.store.dag (n.txHash msg.tx)) header msg.tx (n.convertToTxExec msg).step
      (w.state.stateDB (n.txHash msg.tx)) w.gasPool with
  | none => rfl
  | some amount =>
    have hupdate : (w.state.accounts.update fun a obj =>
        if a = msg.tx.sender then { obj with initBalance := amount } else obj) =
          w.state.accounts := by
      refine Lib.Ledger.update_eq_self fun a obj hobj => ?_
      by_cases ha : a = msg.tx.sender
      · rw [if_pos ha, ← hreset amount hamount obj (ha ▸ hobj)]
      · rw [if_neg ha]
    rw [revertToSnapshot, hupdate]

end Message

/-- The processing so far comes to the same results; the pool of the proposer is short of what the
skipped messages took. -/
def Agrees {σ : Type} (n : Miner σ) (header : Header) (s : ChainState σ) (p : Pack σ) : Prop :=
  ∃ out, n.process header s p.result = .ok out ∧ out.receipts = p.receipts ∧
    out.usedGas = p.work.totalGas ∧ out.state = p.work.state ∧ p.work.gasPool ≤ out.gasPool

namespace Agrees

variable {σ : Type} {n : Miner σ} {header : Header} {s : ChainState σ} {p : Pack σ} {msg : TxMsg}

theorem start : Agrees n header s (Miner.start header s) :=
  ⟨_, rfl, rfl, rfl, rfl, Nat.le_refl _⟩

section

variable (h : Agrees n header s p)
include h

theorem accept {r : UnitReceipt} {s' : ChainState σ}
    (hexec : n.processExec header p.work.state p.work.gasPool p.work.totalGas
      (n.convertToTxExec msg) = .ok (r, s')) (zeroGasSum : Nat) : Agrees n header s
      ⟨⟨s', n.poolAfter header p.work.state p.work.gasPool (n.convertToTxExec msg),
          p.work.totalGas + r.result.gasUsed⟩,
        zeroGasSum, p.result ++ [filled (n.convertToTxExec msg)], p.receipts ++ [r]⟩ := by
  obtain ⟨out, hout, hreceipts, htotal, hstate, hpool⟩ := h
  obtain ⟨k, hk⟩ := Nat.exists_eq_add_of_le hpool
  obtain ⟨hfilled, hfilledPool⟩ := processExec_filled hexec
  obtain ⟨-, -, hlarger⟩ := (processExec_drains ..).spends _ _ hfilled
  obtain ⟨haddPool, hadd⟩ := Prod.mk.inj (hlarger k)
  rw [← hk, ← htotal, ← hstate] at hadd
  refine ⟨_, processFrom_concat hout hadd, by rw [hreceipts], by rw [htotal], rfl, ?_⟩
  rw [hstate, hk, haddPool, hfilledPool]
  exact Nat.le_add_right _ _

theorem skip {w : Work σ} (hstate : w.state = p.work.state) (htotal : w.totalGas = p.work.totalGas)
    (hpool : w.gasPool ≤ p.work.gasPool) (zeroGasSum : Nat) :
    Agrees n header s { p with work := w, zeroGasSum := zeroGasSum } := by
  obtain ⟨out, hout, hreceipts, hused, hout', hle⟩ := h
  exact ⟨out, hout, hreceipts, hused.trans htotal.symm, hout'.trans hstate.symm, hpool.trans hle⟩

theorem processTx (htrace : n.Traceless header p msg) :
    Agrees n header s (n.processTx header p msg).1 := by
  unfold Miner.processTx
  split
  · exact h
  next hpool =>
  dsimp only
  generalize hsum : (if isZeroGas msg.action = true then p.zeroGasSum + 1 else p.zeroGasSum) =
    zeroGasSum
  split
  · exact h.skip rfl rfl (Nat.le_refl _) _
  next hzero =>
  unfold Miner.handleTx
  cases hcheck : n.checkMsg header msg with
  | error err => exact h.skip rfl rfl (Nat.le_refl _) _
  | ok u =>
    dsimp only
    cases hexec : n.processExec header p.work.state p.work.gasPool p.work.totalGas
        (n.convertToTxExec msg) with
    | error err =>
      have htried : n.Tried header p msg := by
        refine ⟨Nat.not_lt.mp hpool, fun h => ?_, by rw [hcheck]; rfl⟩
        rw [← hsum, if_pos h] at hzero
        exact Nat.not_le.mp fun hle => hzero ⟨h, hle⟩
      have hreverted := reverted_eq ((htrace htried).resolve_left (by rw [hexec]; exact nofun))
      have hpool := (processExec_drains n.toContext header p.work.state p.work.totalGas
        (n.convertToTxExec msg)).le p.work.gasPool
      exact h.skip (w := ⟨_, _, p.work.totalGas⟩) hreverted rfl hpool _
    | ok out => exact h.accept hexec _

theorem packOthers {others : List TxMsg} (htrace : n.TracelessOthers header p others) :
    Agrees n header s (n.packOthers header p others) := by
  induction others generalizing p with
  | nil => exact h
  | cons msg others ih => exact ih (h.processTx htrace.1) htrace.2

theorem packQueue {queue : List TxMsg} (htrace : n.TracelessQueue header p queue) :
    Agrees n header s (n.packQueue header p queue) := by
  induction queue generalizing p with
  | nil => exact h
  | cons msg queue ih =>
    have hstep := h.processTx htrace.1
    unfold Miner.packQueue
    split
    · rename_i hnext
      exact ih hstep (htrace.2 hnext)
    · exact hstep

end

end Agrees

/-- A unit in whose packing no skipped message left a trace is accepted by `Process` on the same
state, with the results of its header. -/
theorem process_of_packTxs {σ : Type} (n : Miner σ) (header : Header) (s : ChainState σ)
    (others queue : List TxMsg) (interrupted : Bool) (packed : Packed) (uhash : Hash)
    (hpack : n.packTxs header s others queue interrupted = .ok packed)
    (hothers : n.TracelessOthers header (Miner.start header s) others)
    (hqueue : n.TracelessQueue header (n.packOthers header (Miner.start header s) others) queue) :
    ∃ out, n.process { header with hash := uhash } s packed.txs = .ok out ∧
      out.receipts = packed.receipts ∧ out.usedGas = packed.gasUsed ∧
      n.stateRoot out.state = packed.stateRoot ∧ n.receiptRoot out.receipts = packed.receiptRoot ∧
      createBloom n.bloom9 out.receipts = packed.bloom := by
  obtain ⟨out, hout, hreceipts, hused, hstate, -⟩ := (Agrees.start.packOthers hothers).packQueue hqueue
  unfold Miner.packTxs at hpack
  dsimp only at hpack
  split at hpack
  · cases hpack
  split at hpack
  · cases hpack
  cases hpack
  refine ⟨out, (processFrom_hash uhash).trans hout, hreceipts, hused, ?_, ?_, ?_⟩
  · rw [hstate]
  · rw [hreceipts]
  · rw [hreceipts]

namespace Sample

open Core.Sample (scAccount recipient env forwarding account unitOf refusing)

def reverting : Machine := refusing (fun _ => 0) fun _ => Nat.zero_le _

def payout : Transaction := { Core.Sample.call with recipient := scAccount }

def heartbeat (a : Address) (ha : a.isContract = false) : Transaction where
  sender := a
  senderAddr := a
  recipient := scAccount
  amount := 0
  gas := 0
  gasPrice := 0
  data := [0x9a, 0x42, 0xf1, 0x92]
  time := 0
  timeout := 3600
  seed := 0
  size := 100
  sender_external := ha

def memberBeat : Transaction := heartbeat ⟨5⟩ (by decide)

def recipientBeat : Transaction := heartbeat recipient (by decide)

def strangerBeat : Transaction := heartbeat ⟨6⟩ (by decide)

def hashOf (tx : Transaction) : Hash :=
  if tx = payout then ⟨101⟩
  else if tx = memberBeat then ⟨102⟩
  else if tx = recipientBeat then ⟨103⟩
  else if tx = strangerBeat then ⟨104⟩
  else ⟨105⟩

def frozen : StoredStep where
  header := ⟨Core.Sample.sender, 2, ⟨1⟩, 0, ⟨9⟩, 1000000, Nat.two_pos⟩
  exec := ⟨.contractFreeze, .zero, true⟩
  receipt := ⟨.contractFreeze, .zero, false, 21000, 29000, [], []⟩

theorem eq_payout {tx : Transaction} (h : hashOf tx = ⟨101⟩) : tx = payout := by
  unfold hashOf at h
  split_ifs at h with htx
  · exact htx
  all_goals cases h

def miner : Miner Unit where
  env := env
  store :=
    ⟨fun h => if h = ⟨101⟩ then some payout else none, fun h => if h = ⟨101⟩ then [frozen] else [],
      fun _ => 0⟩
  evm :=
    ⟨fun tx _ => if tx = payout ∨ tx = memberBeat then forwarding recipient else reverting,
      fun _ _ _ _ => ((), [])⟩
  bloom9 := ⟨fun _ => 0, fun _ => 0⟩
  txHash := hashOf
  stored tx h := by
    dsimp only at h ⊢
    by_cases hhash : hashOf tx = ⟨101⟩
    · rw [if_pos hhash, eq_payout hhash]
    · rw [if_neg hhash] at h
      exact absurd rfl h
  effect_eq _ _ _ _ _ _ _ := rfl
  getTimestamp _ := some 0
  testnet := false
  priceLimit := 1
  stateRoot _ := .zero
  receiptRoot receipts := ⟨(receipts.map fun r => r.result.coinflows.length).sum⟩

def header : Header := ⟨scAccount, 2, .zero, 7, ⟨9⟩, 20000000, Nat.two_pos⟩

def state : ChainState Unit where
  accounts := account scAccount 1000
  trie := []
  marks _ := []
  storage := ()
  logs _ := []

def payoutMsg : TxMsg := ⟨payout, .contractDeal, ⟨Core.Sample.sender, 2, ⟨1⟩⟩⟩

def beat (tx : Transaction) : TxMsg := ⟨tx, .scIdleContractDeal, .zero⟩

/-- A heartbeat fails whose sender is not in the state. -/
theorem stranger_skipped : ∃ packed out,
    miner.packTxs header state [] [payoutMsg, beat strangerBeat, beat memberBeat] false =
      .ok packed ∧ packed.txs.length = 2 ∧
    miner.process { header with hash := ⟨77⟩ } state packed.txs = .ok out ∧
    out.receipts = packed.receipts ∧ out.usedGas = packed.gasUsed := by
  obtain ⟨out, hout, hreceipts, hused, -⟩ := process_of_packTxs miner header state []
    [payoutMsg, beat strangerBeat, beat memberBeat] false _ ⟨77⟩ rfl trivial
    ⟨by decide +kernel, fun _ => ⟨by decide +kernel, fun _ => ⟨by decide +kernel, fun _ => trivial⟩⟩⟩
  exact ⟨_, out, rfl, by decide +kernel, hout, hreceipts, hused⟩

/-- A heartbeat fails whose sender was paid by the unit before: only the proposer has the payment
once more in the next receipt. -/
theorem payment_repeated : ∃ packed out,
    miner.packTxs header state [] [payoutMsg, beat recipientBeat, beat memberBeat] false =
      .ok packed ∧
    miner.process { header with hash := ⟨77⟩ } state packed.txs = .ok out ∧
    packed.receipts.map (fun r => r.result.coinflows) = [[⟨recipient, 100⟩], [⟨recipient, 100⟩]] ∧
    out.receipts.map (fun r => r.result.coinflows) = [[⟨recipient, 100⟩], []] ∧
    out.receipts ≠ packed.receipts ∧ miner.receiptRoot out.receipts ≠ packed.receiptRoot := by
  refine ⟨_, _, rfl, rfl, ?_, ?_, ?_, ?_⟩ <;> decide +kernel

end Sample

end Nerthus.Witness
