import Nerthus.Core.Conservation

/-!
# The steps that are missing

`core/api_unit.go`: while a node runs, each unit announces the steps that follow its steps
(`GetTxNextActions`). After a restart `GetTxNextAction` reads the statuses of a transaction and
says what is next. The two are compared over all orders in which the steps can be executed.
-/

namespace Nerthus.Core

open StoredStep World List

structure TxExecMsg where
  mc : Address
  action : TxAction
  preStep : UnitID
deriving DecidableEq

def idleFuncs : List Bytes :=
  [[0x6b, 0xb4, 0x3e, 0x01], [0x9a, 0x42, 0xf1, 0x92], [0xf0, 0x5b, 0x5c, 0xf3],
    [0xfd, 0x43, 0x22, 0xea], [0xd8, 0x1b, 0x74, 0x0e]]

def isSCIdleContract (inputData : Bytes) : Bool :=
  decide (4 ≤ inputData.length) && decide (inputData.take 4 ∈ idleFuncs)

/-- `GetTxFirstAction`; `active`: the sender is a normal witness or an active member of the
council. -/
def getTxFirstAction (env : Env) (tx : Transaction) (active : Bool) :
    Except Err (Address × TxAction) :=
  if tx.recipient.isContract then
    if env.isCallCreateContractTx tx.recipient tx.data then .ok (tx.sender, .contractFreeze)
    else if tx.recipient = env.scAccount ∧ isSCIdleContract tx.data = true then
      if active then .ok (env.scAccount, .scIdleContractDeal)
      else .error (.other "invalid sc contract sender")
    else if tx.recipient = env.scAccount ∧ 0 < tx.seed then .ok (env.scAccount, .powTxContractDeal)
    else .ok (tx.sender, .contractFreeze)
  else .ok (tx.sender, .transferPayment)

namespace StoredStep

def id (s : StoredStep) : UnitID := ⟨s.header.mc, s.header.number, s.header.hash⟩

def msg (s : StoredStep) : TxExecMsg := ⟨s.header.mc, s.exec.action, s.exec.preStep⟩

def announced (env : Env) (tx : Transaction) (s : StoredStep) : List TxExecMsg :=
  (s.nextActions env tx).map fun k => ⟨k.1, k.2, s.id⟩

end StoredStep

namespace World

def live (env : Env) (tx : Transaction) (w : World) : List TxExecMsg :=
  (w.dag.steps.flatMap (announced env tx)).filter
    fun m => m ∉ w.dag.steps.map msg

def missing (env : Env) (tx : Transaction) (active : Bool) (now : Nat) (w : World) :
    List TxExecMsg :=
  if w.dag.steps = [] then
    if tx.expired now then []
    else
      match getTxFirstAction env tx active with
      | .error _ => []
      | .ok (mc, action) => [⟨mc, action, .zero⟩]
  else w.live env tx

def unmarked (w : World) (k : Address × TxAction) : Bool := decide (k ∉ w.marks)

/-- What `GetTxNextAction` finds for the first deal of the transaction. -/
def afterDeal (tx : Transaction) (w : World) (deal : StoredStep) : List TxExecMsg :=
  (if w.unmarked (tx.sender, .contractRefund) then [⟨tx.sender, .contractRefund, deal.id⟩]
    else []) ++
  (deal.flowActions.filter w.unmarked).map fun k => ⟨k.1, k.2, deal.id⟩

def getTxNextAction (env : Env) (tx : Transaction) (active : Bool) (now : Nat) (w : World) :
    Except Err (List TxExecMsg) :=
  match w.dag.steps.getLast? with
  | none => do
    if tx.expired now then .error (.other "transaction has expired")
    else
      let (mc, action) ← getTxFirstAction env tx active
      .ok [⟨mc, action, .zero⟩]
  | some last =>
    match last.exec.action with
    | .transferReceipt | .powTxContractDeal => .ok []
    | .contractRefund | .contractReceipt =>
      match w.dag.steps.find? fun s => s.exec.action = .contractDeal with
      | none => .ok []
      | some deal => .ok (w.afterDeal tx deal)
    | _ => do
      let lastExecInfo ← w.dag.getTxReceiptAtUnit last.header.hash
      .ok (announced env tx { last with receipt := lastExecInfo })

structure Agrees (env : Env) (tx : Transaction) (active : Bool) (now : Nat) (w : World) :
    Prop where
  /-- A transaction that was started can be looked up. -/
  found : w.dag.steps ≠ [] → ∃ actions, w.getTxNextAction env tx active now = .ok actions
  same : ∀ m, m ∈ ((w.getTxNextAction env tx active now).toOption.getD []) ↔
    m ∈ w.missing env tx active now

def deals (w : World) : Nat := w.dag.steps.countP fun s => s.exec.action = .contractDeal

/-- The histories that `GetTxNextAction` understands: the last step is no refund or contract
receipt, or there was one deal with gas, or nothing is missing. -/
def Resumable (env : Env) (tx : Transaction) (w : World) : Prop :=
  (∀ last ∈ w.dag.steps.getLast?,
    last.exec.action ≠ .contractRefund ∧ last.exec.action ≠ .contractReceipt) ∨
  (0 < tx.gas ∧ w.deals = 1) ∨
  (w.live env tx = [] ∧ (0 < tx.gas ∨ w.deals = 0))

end World

def Announced (env : Env) (tx : Transaction) (w : World) (s : Step) : Prop :=
  if w.dag.steps = [] then
    s.exec.preStep = .zero ∧
      ∃ active : Bool, getTxFirstAction env tx active = .ok (s.header.mc, s.exec.action)
  else ⟨s.header.mc, s.exec.action, s.exec.preStep⟩ ∈ w.live env tx
deriving Decidable

def AllAnnounced (env : Env) (tx : Transaction) (w : World) : List Step → Prop
  | [] => True
  | s :: steps =>
    Announced env tx w s ∧ OnSuccess (w.step env tx s) fun w' => AllAnnounced env tx w' steps

instance instDecidableAllAnnounced (env : Env) (tx : Transaction) :
    (w : World) → (steps : List Step) → Decidable (AllAnnounced env tx w steps)
  | _, [] => .isTrue trivial
  | w, s :: steps =>
    have (w' : World) := instDecidableAllAnnounced env tx w' steps
    inferInstanceAs (Decidable (Announced env tx w s ∧
      OnSuccess (w.step env tx s) fun w' => AllAnnounced env tx w' steps))

structure WellHashed (headers : List Header) : Prop where
  ne_zero : ∀ u ∈ headers, u.hash ≠ .zero
  inj : ∀ u ∈ headers, ∀ v ∈ headers, u.hash = v.hash → u = v

/-! ## What one step leaves -/

section Step

variable {env : Env} {tx : Transaction} {w : World} {s : Step} {receipt : Receipt} {db : StateDB}

theorem marks_of_apply (hv : Verified env tx)
    (hmc : s.exec.action.isDebit = true → s.header.mc = tx.sender)
    (h : applyAction env s.vm w.dag s.header tx s.exec (w.stateOf s) s.gasPool = .ok (receipt, db)) :
    Marks s.header s.exec.action.marked (w.stateOf s) db := by
  by_cases hdeal : s.exec.action.isDeal = true
  · have hsettled : ∀ a, (w.stateOf s).getBalance a ≤ (w.stateOf s).initOf a := s.settled
    rw [TxAction.marked, if_pos hdeal]
    rw [applyAction_of_isDeal hdeal] at h
    exact (applyToContract_spec hv hsettled h).2.1
  · rw [TxAction.marked, if_neg hdeal]
    by_cases hcredit : s.exec.action.isCredit = true
    · obtain ⟨r, -, hcredits, -⟩ := applyAction_credit hcredit h
      exact hcredits.toMarks
    unfold applyAction at h
    cases haction : s.exec.action with
    | transferPayment =>
      rw [haction] at h hmc
      exact (applyPayment_spec (hmc rfl) h).1
    | contractFreeze =>
      rw [haction] at h hmc
      exact (applyFreeze_spec (hmc rfl) h).1
    | _ =>
      rw [haction] at hdeal hcredit
      first | exact absurd rfl hdeal | exact absurd rfl hcredit

theorem coinflows_of_prepares (hdeal : s.exec.action.isDeal = true)
    (hprepares : prepares env tx ⟨s.header, s.exec, receipt⟩ = true) (hok : receipt.failed = false)
    (h : applyAction env s.vm w.dag s.header tx s.exec (w.stateOf s) s.gasPool = .ok (receipt, db)) :
    receipt.coinflows = [] := by
  rw [applyAction_of_isDeal hdeal] at h
  rw [prepares, Bool.and_eq_true, decide_eq_true_iff] at hprepares
  obtain ⟨hmc, hcreate⟩ := hprepares
  simp only [applyToContract, Lib.ite_eq_ok_iff, Lib.bind_eq_ok_iff] at h
  obtain ⟨-, _, -, gasRemaining, -, h⟩ := h
  obtain ⟨used, -, hfailed | ⟨pool, h⟩⟩ := applyToContractAt_eq_ok h
  · obtain ⟨rfl, -⟩ := Prod.mk.inj hfailed
    cases hok
  · obtain ⟨_, o, _, -, -, rfl, -⟩ := executeDeal_eq_ok h
    change s.header.mc = env.scAccount at hmc
    change o.failed = false at hok
    simp [dealReceipt, hok, hcreate, hmc, adjustFlows]

end Step

variable {k : Address × TxAction}

namespace StoredStep

variable {env : Env} {tx : Transaction} {r d : StoredStep} {m : TxExecMsg}

theorem mem_announced :
    m ∈ r.announced env tx ↔ (m.mc, m.action) ∈ r.nextActions env tx ∧ m.preStep = r.id := by
  rw [announced, mem_map]
  constructor
  · rintro ⟨k, hk, rfl⟩
    exact ⟨hk, rfl⟩
  · rintro ⟨hk, hpre⟩
    exact ⟨_, hk, by rw [← hpre]⟩

def closes (s : StoredStep) : Prop :=
  s.exec.action = .contractRefund ∨ s.exec.action = .contractReceipt

theorem nextActions_eq_nil (h : r.closes) : r.nextActions env tx = [] := by
  rw [nextActions]
  rcases h with h | h <;> rw [h]

theorem isDebit_nextActions (hk : k ∈ r.nextActions env tx) : k.2.isDebit = false := by
  rcases nextActions_cases hk with
    ⟨-, -, rfl⟩ | ⟨-, rfl⟩ | ⟨-, -, _, -, rfl⟩ | ⟨-, -, rfl⟩ | ⟨-, hk, -⟩
  on_goal 5 => rw [hk]
  all_goals rfl

theorem nextActions_main (hk : k ∈ r.nextActions env tx)
    (hopen : ¬(k.2 = .contractRefund ∨ k.2 = .contractReceipt)) :
    (∀ k' ∈ r.nextActions env tx, k' = k) ∧
      (r.exec.action.isDebit = true ∨
        r.exec.action = .contractDeal ∧ (r.prepares env tx && !r.receipt.failed) = true ∧
          k.2 = .contractDeal) := by
  rcases nextActions_cases hk with
    ⟨ha, -, rfl⟩ | ⟨ha, rfl⟩ | ⟨ha, hprepares, contract, hcontract, rfl⟩ | ⟨-, -, rfl⟩ | ⟨-, hk, -⟩
  · refine ⟨fun k' hk' => ?_, .inl (by rw [ha]; rfl)⟩
    rw [nextActions, ha] at hk'
    simp only [mem_ite_nil_left, mem_singleton] at hk'
    exact hk'.2
  · refine ⟨fun k' hk' => ?_, .inl (by rw [ha]; rfl)⟩
    rcases nextActions_cases hk' with
      ⟨ha', -⟩ | ⟨-, rfl⟩ | ⟨ha', -⟩ | ⟨ha', -⟩ | ⟨ha' | ⟨ha', -⟩, -⟩
    all_goals first | rfl | (rw [ha] at ha'; cases ha')
  · refine ⟨fun k' hk' => ?_, .inr ⟨ha, hprepares, rfl⟩⟩
    rw [nextActions, ha] at hk'
    simp only [hprepares, if_true, hcontract, mem_singleton] at hk'
    exact hk'
  · exact absurd (.inl rfl) hopen
  · exact absurd (.inr hk) hopen

theorem nextActions_closing (hk : k ∈ r.nextActions env tx)
    (hclose : k.2 = .contractRefund ∨ k.2 = .contractReceipt) :
    r.exec.action = .scIdleContractDeal ∨
      r.exec.action = .contractDeal ∧ (r.prepares env tx && !r.receipt.failed) = false := by
  rcases nextActions_cases hk with
    ⟨-, -, rfl⟩ | ⟨-, rfl⟩ | ⟨-, -, _, -, rfl⟩ | ⟨ha, hprepares, -⟩ | ⟨ha, -⟩
  on_goal 4 => exact .inr ⟨ha, hprepares⟩
  on_goal 4 => exact ha
  all_goals simp at hclose

theorem mem_nextActions_contractDeal (ha : r.exec.action = .contractDeal)
    (hprepares : (r.prepares env tx && !r.receipt.failed) = false) : k ∈ r.nextActions env tx ↔
      0 < tx.gas ∧ k = (tx.senderAddr, .contractRefund) ∨ k ∈ r.flowActions := by
  rw [nextActions, ha]
  simp only [hprepares, Bool.false_eq_true, if_false, mem_append, mem_ite_nil_right,
    mem_singleton]

end StoredStep

theorem mem_live {env : Env} {tx : Transaction} {w : World} {m : TxExecMsg} : m ∈ w.live env tx ↔
      (∃ r ∈ w.dag.steps, m ∈ r.announced env tx) ∧ m ∉ w.dag.steps.map msg := by
  rw [live, mem_filter, mem_flatMap, decide_eq_true_iff]

/-- The steps lie in a row up to a step `d`, each announced by the one before; the last steps are
all announced by `d`. -/
structure Shape (env : Env) (tx : Transaction) (steps main : List StoredStep) (d : StoredStep)
    (tail : List StoredStep) : Prop where
  steps_eq : steps = main ++ d :: tail
  done : ∀ r ∈ main, ∀ m ∈ r.announced env tx, m ∈ steps.map msg
  older : ∀ r ∈ main, r.header.timestamp < d.header.timestamp
  chained : ∀ r ∈ main ++ [d], r.exec.preStep = .zero ∨ ∃ q ∈ main, r.exec.preStep = q.id
  ongoing : ∀ r ∈ main ++ [d], ¬r.closes
  /-- Before the last deal there is only one that prepared the contract. -/
  prepared : ∀ r ∈ main, r.exec.action = .contractDeal →
    r.receipt.coinflows = [] ∧ d.exec.action = .contractDeal
  closing : ∀ t ∈ tail, t.closes ∧ t.msg ∈ d.announced env tx

namespace Shape

variable {env : Env} {tx : Transaction} {steps main tail : List StoredStep} {d t new : StoredStep}
  {m : TxExecMsg}

theorem first (hpre : d.exec.preStep = .zero) (hongoing : ¬d.closes) : Shape env tx [d] [] d [] where
  steps_eq := rfl
  done := by simp
  older := by simp
  chained := by simp [hpre]
  ongoing := by simp [hongoing]
  prepared := by simp
  closing := by simp

section

variable (h : Shape env tx steps main d tail)
include h

theorem mem : d ∈ steps := by
  rw [h.steps_eq]
  simp

theorem mem_tail (ht : t ∈ steps) (hcloses : t.closes) :
    t ∈ tail := by
  rw [h.steps_eq, append_cons, mem_append] at ht
  exact ht.resolve_left fun ht => h.ongoing t ht hcloses

theorem announced_by {r : StoredStep} (hr : r ∈ steps) (hm : m ∈ r.announced env tx)
    (hmissing : m ∉ steps.map msg) : r = d := by
  rw [h.steps_eq, mem_append, mem_cons] at hr
  rcases hr with hr | rfl | hr
  · exact absurd (h.done r hr m hm) hmissing
  · rfl
  · have hnil : r.nextActions env tx = [] := nextActions_eq_nil (h.closing r hr).1
    rw [mem_announced, hnil] at hm
    cases hm.1

theorem complete (ht : t ∈ tail) :
    d.exec.action = .scIdleContractDeal ∨
      d.exec.action = .contractDeal ∧ (d.prepares env tx && !d.receipt.failed) = false := by
  obtain ⟨hcloses, hmsg⟩ := h.closing t ht
  exact nextActions_closing (mem_announced.mp hmsg).1 hcloses

theorem extend (hnew : new.closes) (hmsg : new.msg ∈ d.announced env tx) :
    Shape env tx (steps ++ [new]) main d (tail ++ [new]) where
  steps_eq := by rw [h.steps_eq, append_assoc, cons_append]
  done r hr m hm := by
    rw [map_append]
    exact mem_append_left _ (h.done r hr m hm)
  older := h.older
  chained := h.chained
  ongoing := h.ongoing
  prepared := h.prepared
  closing := forall_mem_append.mpr ⟨h.closing, forall_mem_singleton.mpr ⟨hnew, hmsg⟩⟩

theorem advance (hnew : ¬new.closes) (hmsg : new.msg ∈ d.announced env tx)
    (hlater : d.header.timestamp < new.header.timestamp)
    (hflows : d.exec.action = .contractDeal → (d.prepares env tx && !d.receipt.failed) = true →
      d.receipt.coinflows = []) : Shape env tx (steps ++ [new]) (main ++ [d]) new [] := by
  obtain ⟨hnext, hpre⟩ := mem_announced.mp hmsg
  obtain ⟨halone, hkind⟩ := nextActions_main hnext hnew
  -- the step comes alone, so there is no last step yet
  have htail : tail = [] := by
    rw [eq_nil_iff_forall_not_mem]
    intro t ht
    obtain ⟨hcloses, hannounced⟩ := h.closing t ht
    have haction : t.exec.action = new.exec.action :=
      congrArg Prod.snd (halone _ (mem_announced.mp hannounced).1)
    rw [closes, haction] at hcloses
    exact hnew hcloses
  have hdeal : d.exec.action = .contractDeal →
      d.receipt.coinflows = [] ∧ new.exec.action = .contractDeal := by
    intro ha
    rcases hkind with hdebit | ⟨-, hprepares, haction⟩
    · rw [ha] at hdebit
      cases hdebit
    · exact ⟨hflows ha hprepares, haction⟩
  have hsteps := h.steps_eq
  rw [htail] at hsteps
  constructor
  case steps_eq => rw [hsteps]
  case closing => simp
  all_goals rw [forall_mem_append, forall_mem_singleton]
  case done =>
    simp only [map_append, mem_append]
    refine ⟨fun r hr m hm => .inl (h.done r hr m hm), fun m hm => .inr (mem_singleton.mpr ?_)⟩
    rw [mem_announced] at hm
    obtain ⟨mc, action, preStep⟩ := m
    obtain ⟨rfl, rfl⟩ := Prod.mk.inj (halone _ hm.1)
    rw [msg, TxExecMsg.mk.injEq]
    exact ⟨rfl, rfl, hm.2.trans hpre.symm⟩
  case older => exact ⟨fun r hr => (h.older r hr).trans hlater, hlater⟩
  case chained =>
    refine ⟨fun r hr => (h.chained r hr).imp_right ?_, .inr ⟨d, by simp, hpre⟩⟩
    exact fun ⟨q, hq, heq⟩ => ⟨q, mem_append_left _ hq, heq⟩
  case ongoing => exact ⟨h.ongoing, hnew⟩
  case prepared =>
    refine ⟨fun r hr ha => ?_, hdeal⟩
    obtain ⟨hnil, hd⟩ := h.prepared r hr ha
    exact ⟨hnil, (hdeal hd).2⟩

end

end Shape

/-! ## The invariant of a run -/

structure Trace (env : Env) (tx : Transaction) (w : World) : Prop where
  verified : w.dag.known = true → Verified env tx ∧ tx.sender.empty = false
  started : w.dag.steps ≠ [] → Verified env tx
  marked : ∀ k, k ∈ w.marks ↔ ∃ s ∈ w.dag.steps, s.key = k
  debit : ∀ s ∈ w.dag.steps, s.exec.action.isDebit = true → s.header.mc = tx.sender
  flowless : ∀ s ∈ w.dag.steps, s.exec.action = .contractDeal →
    (s.prepares env tx && !s.receipt.failed) = true → s.receipt.coinflows = []
  shape : w.dag.steps ≠ [] → ∃ main d tail, Shape env tx w.dag.steps main d tail

def World.headers (w : World) : List Header := w.dag.steps.map header

theorem getTxFirstAction_spec {env : Env} {tx : Transaction} {active : Bool} {mc : Address}
    {action : TxAction} (h : getTxFirstAction env tx active = .ok (mc, action)) :
    (action.isDebit = true → mc = tx.sender) ∧
      ¬(action = .contractRefund ∨ action = .contractReceipt) := by
  unfold getTxFirstAction at h
  split_ifs at h <;> obtain ⟨rfl, rfl⟩ := Prod.mk.inj (Except.ok.inj h)
  all_goals simp [TxAction.isDebit]

theorem Address.empty_of_isContract {a : Address} (h : a.isContract = true) : a.empty = false := by
  rw [Address.isContract, beq_iff_eq] at h
  rw [Address.empty, beq_eq_false_iff_ne]
  intro h0
  rw [h0] at h
  cases h

namespace Trace

variable {env : Env} {tx : Transaction} {w w' : World} {s : Step} {d : StoredStep}

theorem init (env : Env) (tx : Transaction) : Trace env tx World.init where
  verified h := by cases h
  started h := absurd rfl h
  marked := by simp [World.init]
  debit := by simp [World.init]
  flowless := by simp [World.init]
  shape h := absurd rfl h

theorem timestamp_lt (hhash : WellHashed (w.headers ++ [s.header])) (hd : d ∈ w.dag.steps)
    (hmc : d.header.mc.empty = false) (h : checkPreStep w.dag s.header d.id = .ok ()) :
    d.header.timestamp < s.header.timestamp := by
  have hheader : ∀ r ∈ w.dag.steps, r.header ∈ w.headers ++ [s.header] := fun r hr =>
    mem_append_left _ (mem_map_of_mem hr)
  have hne : d.id.isEmpty = false := by
    have hzero := hhash.ne_zero _ (hheader d hd)
    have hpos := d.header.number_pos
    simp only [UnitID.isEmpty, StoredStep.id, hmc, Bool.or_false, Bool.or_eq_false_iff,
      beq_eq_false_iff_ne, Hash.emptyHash_eq_false]
    exact ⟨by omega, hzero⟩
  unfold checkPreStep at h
  rw [hne] at h
  simp only [Bool.false_eq_true, if_false] at h
  split at h
  · cases h
  rename_i r hr
  obtain ⟨hmem, hsame⟩ := mem_of_stepAt hr
  have heq : r.header = d.header := hhash.inj _ (hheader r hmem) _ (hheader d hd) hsame
  split at h
  · cases h
  split at h
  · cases h
  · rename_i hlt
    rw [heq] at hlt
    omega

theorem isDebit_of_announced (hannounced : Announced env tx w s)
    (hdebit : s.exec.action.isDebit = true) : s.header.mc = tx.sender := by
  unfold Announced at hannounced
  split at hannounced
  · obtain ⟨-, active, hfirst⟩ := hannounced
    exact (getTxFirstAction_spec hfirst).1 hdebit
  obtain ⟨⟨r, -, hr⟩, -⟩ := mem_live.mp hannounced
  have hnot : s.exec.action.isDebit = false :=
    isDebit_nextActions (mem_announced.mp hr).1
  rw [hnot] at hdebit
  cases hdebit

theorem shape_step {receipt : Receipt} (htrace : Trace env tx w)
    (hhash : WellHashed (w.headers ++ [s.header])) (hannounced : Announced env tx w s)
    (hsender : tx.sender.empty = false)
    (hpre : checkPreStep w.dag s.header s.exec.preStep = .ok ()) : ∃ main d tail,
      Shape env tx (w.dag.steps ++ [⟨s.header, s.exec, receipt⟩]) main d tail := by
  unfold Announced at hannounced
  by_cases hnil : w.dag.steps = []
  · rw [if_pos hnil] at hannounced
    obtain ⟨hzero, active, hfirst⟩ := hannounced
    rw [hnil]
    exact ⟨_, _, _, Shape.first hzero (getTxFirstAction_spec hfirst).2⟩
  · rw [if_neg hnil] at hannounced
    obtain ⟨main, d, tail, hshape⟩ := htrace.shape hnil
    obtain ⟨⟨r, hr, hmsg⟩, hmissing⟩ := mem_live.mp hannounced
    obtain rfl := hshape.announced_by hr hmsg hmissing
    by_cases hcloses : closes ⟨s.header, s.exec, receipt⟩
    · exact ⟨main, r, _, hshape.extend hcloses hmsg⟩
    obtain ⟨hnext, hid⟩ := mem_announced.mp hmsg
    dsimp only at hid
    rw [hid] at hpre
    have hmc : r.header.mc.empty = false := by
      rcases (nextActions_main hnext hcloses).2 with hdebit | ⟨-, hprepares, -⟩
      · rw [htrace.debit r hr hdebit]
        exact hsender
      rw [prepares, Bool.and_eq_true, Bool.and_eq_true, decide_eq_true_iff]
        at hprepares
      rw [hprepares.1.1]
      exact Address.empty_of_isContract env.scAccount_contract
    have hlater := timestamp_lt hhash hr hmc hpre
    exact ⟨main ++ [r], _, [], hshape.advance hcloses hmsg hlater (htrace.flowless r hr)⟩

theorem step (htrace : Trace env tx w) (hhash : WellHashed (w.headers ++ [s.header]))
    (hannounced : Announced env tx w s) (h : w.step env tx s = .ok w') : Trace env tx w' := by
  obtain ⟨receipt, db, hvalidate, hquery, happly, rfl⟩ := step_eq_ok h
  have hv : Verified env tx ∧ tx.sender.empty = false :=
    of_verifyTxBaseData_step htrace.verified
      (fun _ _ => verified_of_verifyTxBaseData)
      hvalidate hquery
  have hmc := isDebit_of_announced hannounced
  have hsteps : (w.store tx s receipt db).dag.steps =
      w.dag.steps ++ [⟨s.header, s.exec, receipt⟩] := rfl
  have hmarks : ∀ k, k ∈ (w.store tx s receipt db).marks ↔
      k = (s.header.mc, s.exec.action.marked) ∨ k ∈ w.marks :=
    (marks_of_apply hv.1 hmc happly).marks
  have hpre : checkPreStep w.dag s.header s.exec.preStep = .ok () := by
    unfold validateExec at hvalidate
    split at hvalidate
    · cases hvalidate
    · obtain ⟨_, hcheck, -⟩ := Lib.bind_eq_ok_iff.mp hvalidate
      exact hcheck
  refine ⟨fun _ => hv, fun _ => hv.1, ?_, ?_, ?_, ?_⟩
  · intro k
    rw [hmarks, hsteps, htrace.marked]
    simp only [mem_append, mem_singleton, or_and_right, exists_or, exists_eq_left]
    rw [or_comm]
    exact or_congr Iff.rfl eq_comm
  · rw [hsteps, forall_mem_append, forall_mem_singleton]
    exact ⟨htrace.debit, hmc⟩
  · rw [hsteps, forall_mem_append, forall_mem_singleton]
    refine ⟨htrace.flowless, fun ha hprepares => ?_⟩
    rw [Bool.and_eq_true, Bool.not_eq_true'] at hprepares
    exact coinflows_of_prepares (by rw [ha]; rfl) hprepares.1 hprepares.2 happly
  · intro _
    rw [hsteps]
    exact htrace.shape_step hhash hannounced hv.2 hpre

theorem run {steps : List Step} (htrace : Trace env tx w)
    (hhash : WellHashed (w.headers ++ steps.map Step.header))
    (hannounced : AllAnnounced env tx w steps) (h : w.run env tx steps = .ok w') :
    Trace env tx w' ∧ w'.headers = w.headers ++ steps.map Step.header := by
  induction steps generalizing w with
  | nil =>
    cases h
    exact ⟨htrace, by simp⟩
  | cons s steps ih =>
    obtain ⟨w₁, hstep, hrest⟩ := Lib.bind_eq_ok_iff.mp h
    obtain ⟨hs, hnext⟩ := hannounced
    rw [hstep] at hnext
    have hheaders : w₁.headers = w.headers ++ [s.header] := by
      obtain ⟨receipt, db, -, -, -, rfl⟩ := step_eq_ok hstep
      exact map_append
    have hassoc : w₁.headers ++ steps.map Step.header = w.headers ++ (s :: steps).map Step.header := by
      rw [hheaders, append_assoc]
      rfl
    have hfirst : WellHashed (w.headers ++ [s.header]) := by
      rw [← hassoc, hheaders] at hhash
      exact ⟨fun u hu => hhash.ne_zero u (mem_append_left _ hu), fun u hu v hv =>
        hhash.inj u (mem_append_left _ hu) v (mem_append_left _ hv)⟩
    rw [← hassoc] at hhash ⊢
    exact ih (htrace.step hfirst hs hstep) hhash hnext hrest

end Trace

/-! ## What is replayed -/

section Replay

variable {env : Env} {tx : Transaction} {active : Bool} {now : Nat} {w : World}
  {main tail : List StoredStep} {d t r : StoredStep} {m : TxExecMsg}

section

variable (h : Shape env tx w.dag.steps main d tail)
include h

theorem Shape.mem_live_iff :
    m ∈ w.live env tx ↔ m ∈ d.announced env tx ∧ m ∉ w.dag.steps.map msg := by
  rw [mem_live]
  constructor
  · rintro ⟨⟨r, hr, hm⟩, hmissing⟩
    rw [h.announced_by hr hm hmissing] at hm
    exact ⟨hm, hmissing⟩
  · rintro ⟨hm, hmissing⟩
    exact ⟨⟨d, h.mem, hm⟩, hmissing⟩

section

variable (hhash : WellHashed w.headers)
include hhash

theorem Shape.hash_ne (hr : r ∈ main) :
    r.header.hash ≠ d.header.hash := by
  intro heq
  have hmem : r ∈ w.dag.steps := by
    rw [h.steps_eq]
    exact mem_append_left _ hr
  have hheader : r.header = d.header :=
    hhash.inj _ (mem_map_of_mem hmem) _ (mem_map_of_mem h.mem) heq
  have holder := h.older r hr
  rw [hheader] at holder
  exact Nat.lt_irrefl _ holder

theorem Shape.id_ne (hr : r ∈ main) : r.id ≠ d.id := fun heq =>
  h.hash_ne hhash hr (congrArg UnitID.hash heq)

theorem Shape.preStep_ne (ht : t ∈ main ++ [d]) :
    t.exec.preStep ≠ d.id := by
  intro heq
  rcases h.chained t ht with hzero | ⟨q, hq, hpre⟩
  · have hhashZero : d.header.hash = .zero := congrArg UnitID.hash (heq.symm.trans hzero)
    exact hhash.ne_zero _ (mem_map_of_mem h.mem) hhashZero
  · exact h.id_ne hhash hq (hpre.symm.trans heq)

theorem Shape.stepAt_eq :
    w.dag.stepAt d.header.hash = some d := by
  have hmain : main.find? (fun s => s.header.hash = d.header.hash) = none := by
    rw [find?_eq_none]
    intro r hr
    simpa using h.hash_ne hhash hr
  rw [Dag.stepAt, h.steps_eq, find?_append, hmain]
  simp

end

end

theorem Shape.getTxNextAction_row (h : Shape env tx w.dag.steps main d [])
    (hhash : WellHashed w.headers) :
    w.getTxNextAction env tx active now = .ok (d.announced env tx) := by
  have hlast : w.dag.steps.getLast? = some d := by
    rw [h.steps_eq]
    simp
  have hongoing := h.ongoing d (by simp)
  have hreceipt : w.dag.getTxReceiptAtUnit d.header.hash = .ok d.receipt := by
    rw [Dag.getTxReceiptAtUnit, h.stepAt_eq hhash]
  unfold getTxNextAction
  rw [hlast]
  dsimp only
  cases ha : d.exec.action with
  | transferReceipt | powTxContractDeal => simp [announced, nextActions, ha]
  | contractRefund => exact absurd (.inl ha) hongoing
  | contractReceipt => exact absurd (.inr ha) hongoing
  | transferPayment | contractFreeze | contractDeal | scIdleContractDeal =>
    rw [hreceipt]
    rfl

theorem Shape.mem_live_row (h : Shape env tx w.dag.steps main d []) (hhash : WellHashed w.headers) :
    m ∈ w.live env tx ↔ m ∈ d.announced env tx := by
  rw [h.mem_live_iff, and_iff_left_iff_imp]
  intro hm hexecuted
  obtain ⟨t, ht, rfl⟩ := mem_map.mp hexecuted
  rw [h.steps_eq] at ht
  exact h.preStep_ne hhash ht (mem_announced.mp hm).2

theorem TxAction.marked_eq_self {a : TxAction} (h : a.marked ≠ .contractDeal) : a.marked = a := by
  by_cases hdeal : a.isDeal = true
  · exact absurd (if_pos hdeal) h
  · exact if_neg hdeal

theorem Trace.marked_iff (htrace : Trace env tx w) (h : Shape env tx w.dag.steps main d tail)
    (hm : m.action = .contractRefund ∨ m.action = .contractReceipt) (hpre : m.preStep = d.id) :
    (m.mc, m.action) ∈ w.marks ↔ m ∈ w.dag.steps.map msg := by
  rw [htrace.marked, mem_map]
  constructor
  · rintro ⟨t, ht, hkey⟩
    obtain ⟨hmc, hmarked⟩ := Prod.mk.inj hkey
    have haction : t.exec.action = m.action := by
      rw [← hmarked, TxAction.marked_eq_self]
      intro hdeal
      rw [← hmarked, hdeal] at hm
      simp at hm
    have hcloses : t.closes := by
      rw [closes, haction]
      exact hm
    have hsame : t.exec.preStep = d.id :=
      (mem_announced.mp (h.closing t (h.mem_tail ht hcloses)).2).2
    refine ⟨t, ht, ?_⟩
    rw [msg, hmc, haction, hsame, ← hpre]
  · rintro ⟨t, ht, rfl⟩
    refine ⟨t, ht, ?_⟩
    change t.exec.action = _ ∨ t.exec.action = _ at hm
    rw [key, msg, TxAction.marked]
    rcases hm with hm | hm <;> rw [hm] <;> rfl

theorem mem_afterDeal : m ∈ w.afterDeal tx d ↔ m.preStep = d.id ∧ (m.mc, m.action) ∉ w.marks ∧
      ((m.mc, m.action) = (tx.sender, .contractRefund) ∨ (m.mc, m.action) ∈ d.flowActions) := by
  obtain ⟨mc, action, preStep⟩ := m
  rw [afterDeal, mem_append, mem_ite_nil_right, mem_singleton, mem_map]
  simp only [unmarked, decide_eq_true_eq, mem_filter]
  constructor
  · rintro (⟨hmark, heq⟩ | ⟨k, ⟨hk, hmark⟩, heq⟩)
    · obtain ⟨rfl, rfl, rfl⟩ := TxExecMsg.mk.inj heq
      exact ⟨rfl, hmark, .inl rfl⟩
    · obtain ⟨rfl, rfl, rfl⟩ := TxExecMsg.mk.inj heq
      exact ⟨rfl, hmark, .inr hk⟩
  · rintro ⟨rfl, hmark, heq | hk⟩
    · obtain ⟨rfl, rfl⟩ := Prod.mk.inj heq
      exact .inl ⟨hmark, rfl⟩
    · exact .inr ⟨_, ⟨hk, hmark⟩, rfl⟩

theorem Trace.gas_pos_of_marked (htrace : Trace env tx w) (h : Shape env tx w.dag.steps main d tail)
    (hmark : (tx.sender, .contractRefund) ∈ w.marks) : 0 < tx.gas := by
  have hexecuted : (⟨tx.sender, .contractRefund, d.id⟩ : TxExecMsg) ∈ _ :=
    (htrace.marked_iff h (.inl rfl) rfl).mp hmark
  obtain ⟨t, ht, hmsg⟩ := mem_map.mp hexecuted
  have hcloses : t.closes := .inl (congrArg TxExecMsg.action hmsg)
  have htail := h.mem_tail ht hcloses
  have hnext := (mem_announced.mp (h.closing t htail).2).1
  rw [hmsg] at hnext
  rcases h.complete htail with hidle | ⟨hdeal, hprepares⟩
  · rw [nextActions, hidle] at hnext
    cases (ne_of_mem_flowActions hnext).1
  · rcases (mem_nextActions_contractDeal hdeal hprepares).mp hnext with hgas | hflow
    · exact hgas.1
    · cases (ne_of_mem_flowActions hflow).1

theorem Trace.mem_live_of_deal (htrace : Trace env tx w)
    (h : Shape env tx w.dag.steps main d tail) (hdeal : d.exec.action = .contractDeal)
    (hprepares : (d.prepares env tx && !d.receipt.failed) = false) :
    m ∈ w.live env tx ↔ m.preStep = d.id ∧ (m.mc, m.action) ∉ w.marks ∧
      (0 < tx.gas ∧ (m.mc, m.action) = (tx.sender, .contractRefund) ∨
        (m.mc, m.action) ∈ d.flowActions) := by
  rw [h.mem_live_iff, mem_announced,
    mem_nextActions_contractDeal hdeal hprepares,
    (htrace.started (ne_nil_of_mem h.mem)).sender_eq, and_comm (b := _ = d.id), and_assoc]
  refine and_congr_right fun hpre => ?_
  rw [and_comm]
  refine and_congr_left fun hk => not_congr (htrace.marked_iff h ?_ hpre).symm
  rcases hk with ⟨-, hk⟩ | hk
  · exact .inl (Prod.mk.inj hk).2
  · exact .inr (ne_of_mem_flowActions hk).1

theorem Trace.replay_iff_of_deal (htrace : Trace env tx w)
    (h : Shape env tx w.dag.steps main d tail) (hdeal : d.exec.action = .contractDeal)
    (hprepares : (d.prepares env tx && !d.receipt.failed) = false) :
    (∀ m, m ∈ w.afterDeal tx d ↔ m ∈ w.live env tx) ↔ 0 < tx.gas := by
  simp only [htrace.mem_live_of_deal h hdeal hprepares]
  constructor
  · intro hagree
    by_cases hmark : (tx.sender, TxAction.contractRefund) ∈ w.marks
    · exact htrace.gas_pos_of_marked h hmark
    have hm := (hagree ⟨tx.sender, .contractRefund, d.id⟩).mp
      (mem_afterDeal.mpr ⟨rfl, hmark, .inl rfl⟩)
    rcases hm.2.2 with hgas | hflow
    · exact hgas.1
    · cases (ne_of_mem_flowActions hflow).1
  · intro hgas m
    rw [mem_afterDeal]
    simp [hgas]

theorem Trace.replay_iff_of_prepared (htrace : Trace env tx w) (hhash : WellHashed w.headers)
    (h : Shape env tx w.dag.steps main d tail) (hdeal : d.exec.action = .contractDeal)
    (hprepares : (d.prepares env tx && !d.receipt.failed) = false) (hr : r ∈ main)
    (hflows : r.receipt.coinflows = []) :
    (∀ m, m ∈ w.afterDeal tx r ↔ m ∈ w.live env tx) ↔ w.live env tx = [] ∧ 0 < tx.gas := by
  have hnone : r.flowActions = [] := by
    rw [flowActions, hflows]
    rfl
  constructor
  · intro hagree
    have hlive : w.live env tx = [] := by
      rw [eq_nil_iff_forall_not_mem]
      intro m hm
      have hpre : m.preStep = d.id := (mem_announced.mp (h.mem_live_iff.mp hm).1).2
      exact h.id_ne hhash hr ((mem_afterDeal.mp ((hagree m).mpr hm)).1.symm.trans hpre)
    refine ⟨hlive, ?_⟩
    by_cases hmark : (tx.sender, TxAction.contractRefund) ∈ w.marks
    · exact htrace.gas_pos_of_marked h hmark
    have hm := (hagree ⟨tx.sender, .contractRefund, r.id⟩).mp
      (mem_afterDeal.mpr ⟨rfl, hmark, .inl rfl⟩)
    rw [hlive] at hm
    cases hm
  · rintro ⟨hlive, hgas⟩ m
    have hmark : (tx.sender, TxAction.contractRefund) ∈ w.marks := by
      by_contra hmark
      have hmissing : ⟨tx.sender, .contractRefund, d.id⟩ ∈ w.live env tx :=
        (htrace.mem_live_of_deal h hdeal hprepares).mpr ⟨rfl, hmark, .inl ⟨hgas, rfl⟩⟩
      rw [hlive] at hmissing
      cases hmissing
    rw [hlive, mem_afterDeal, hnone]
    constructor
    · rintro ⟨-, hfree, hk | hk⟩
      · rw [hk] at hfree
        exact absurd hmark hfree
      · cases hk
    · intro hm
      cases hm

theorem Shape.getTxNextAction_closing (h : Shape env tx w.dag.steps main d tail)
    (htail : tail ≠ []) : (∃ last ∈ w.dag.steps.getLast?, last.closes) ∧
      w.getTxNextAction env tx active now =
        .ok (((w.dag.steps.find? fun s => s.exec.action = .contractDeal).map
          (w.afterDeal tx)).getD []) := by
  have hlast : w.dag.steps.getLast? = some (tail.getLast htail) := by
    rw [h.steps_eq, getLast?_append_cons, getLast?_cons, getLast?_eq_some_getLast htail]
    rfl
  have hcloses := (h.closing _ (getLast_mem htail)).1
  refine ⟨⟨_, hlast, hcloses⟩, ?_⟩
  unfold getTxNextAction
  rw [hlast]
  dsimp only
  cases hfind : w.dag.steps.find? fun s => s.exec.action = .contractDeal with
  | none => rcases hcloses with ha | ha <;> rw [ha] <;> rfl
  | some deal => rcases hcloses with ha | ha <;> rw [ha] <;> rfl

theorem agrees_iff {actions : List TxExecMsg} (hne : w.dag.steps ≠ [])
    (hok : w.getTxNextAction env tx active now = .ok actions) :
    w.Agrees env tx active now ↔ ∀ m, m ∈ actions ↔ m ∈ w.live env tx := by
  have hmissing : w.missing env tx active now = w.live env tx := if_neg hne
  constructor
  · intro h m
    have hm := h.same m
    rw [hok, hmissing] at hm
    exact hm
  · intro h
    refine ⟨fun _ => ⟨actions, hok⟩, fun m => ?_⟩
    rw [hok, hmissing]
    exact h m

theorem agrees_of_nil (hnil : w.dag.steps = []) : w.Agrees env tx active now := by
  refine ⟨fun hne => absurd hnil hne, fun m => ?_⟩
  rw [getTxNextAction, missing, hnil]
  by_cases hexpired : tx.expired now = true
  · simp [hexpired, Except.toOption]
  · cases hfirst : getTxFirstAction env tx active with
    | error e => simp [hexpired, Except.toOption, bind, Except.bind]
    | ok k => simp [hexpired, Except.toOption, bind, Except.bind]

theorem Trace.agrees_iff_of_tail (htrace : Trace env tx w) (hhash : WellHashed w.headers)
    (h : Shape env tx w.dag.steps main d tail) (htail : tail ≠ []) :
    w.Agrees env tx active now ↔ (0 < tx.gas ∧ w.deals = 1) ∨
      (w.live env tx = [] ∧ (0 < tx.gas ∨ w.deals = 0)) := by
  have hne : w.dag.steps ≠ [] := ne_nil_of_mem h.mem
  obtain ⟨-, hok⟩ := @Shape.getTxNextAction_closing env tx active now w main tail d h htail
  -- the deals of the history are those of the row
  have htailDeals : tail.filter (fun s => s.exec.action = .contractDeal) = [] := by
    rw [filter_eq_nil_iff]
    intro t ht
    rcases (h.closing t ht).1 with ha | ha <;> simp [ha]
  have hsteps : w.dag.steps.filter (fun s => s.exec.action = .contractDeal) =
      main.filter (fun s => s.exec.action = .contractDeal) ++
        if d.exec.action = .contractDeal then [d] else [] := by
    simp [h.steps_eq, filter_append, filter_cons, htailDeals]
  rw [agrees_iff hne hok, deals, countP_eq_length_filter, ← head?_filter, hsteps]
  rcases h.complete (getLast_mem htail) with hidle | ⟨hdeal, hprepares⟩
  · -- the deal was free, and there is no other
    have hnone : main.filter (fun s => s.exec.action = .contractDeal) = [] := by
      rw [filter_eq_nil_iff]
      intro r hr ha
      have hd := (h.prepared r hr (of_decide_eq_true ha)).2
      rw [hidle] at hd
      cases hd
    simp [hnone, hidle, eq_nil_iff_forall_not_mem]
  · rw [if_pos hdeal]
    cases hmain : main.filter fun s => s.exec.action = .contractDeal with
    | nil =>
      -- there is one deal
      change (∀ m, m ∈ w.afterDeal tx d ↔ m ∈ w.live env tx) ↔ _
      rw [htrace.replay_iff_of_deal h hdeal hprepares]
      simp
    | cons r rest =>
      -- the contract was prepared by a deal before
      obtain ⟨hr, ha⟩ := mem_filter.mp (hmain ▸ mem_cons_self)
      change (∀ m, m ∈ w.afterDeal tx r ↔ m ∈ w.live env tx) ↔ _
      rw [htrace.replay_iff_of_prepared hhash h hdeal hprepares hr
        (h.prepared r hr (of_decide_eq_true ha)).1]
      simp

end Replay

/-- After a restart exactly the missing steps are resumed, unless the last step is a refund or a
contract receipt of a deployment, or a contract receipt of a free deal. -/
theorem agrees_iff_resumable (env : Env) (tx : Transaction) (active : Bool) (now : Nat)
    (steps : List Step) (w : World) (hrun : init.run env tx steps = .ok w)
    (hannounced : AllAnnounced env tx init steps) (hhash : WellHashed (steps.map Step.header)) :
    w.Agrees env tx active now ↔ w.Resumable env tx := by
  obtain ⟨htrace, hheaders⟩ := (Trace.init env tx).run hhash hannounced hrun
  have hwell : WellHashed w.headers := by
    rw [hheaders]
    exact hhash
  by_cases hnil : w.dag.steps = []
  · refine iff_of_true (agrees_of_nil hnil) (.inl ?_)
    rw [hnil]
    intro last hlast
    cases hlast
  · obtain ⟨main, d, tail, h⟩ := htrace.shape hnil
    by_cases htail : tail = []
    · rw [htail] at h
      rw [agrees_iff hnil (h.getTxNextAction_row hwell)]
      refine iff_of_true (fun m => (h.mem_live_row hwell).symm) (.inl ?_)
      intro last hlast
      have heq : last = d := by
        rw [h.steps_eq, getLast?_append_cons] at hlast
        exact (Option.mem_some.mp hlast).symm
      rw [heq]
      exact not_or.mp (h.ongoing d (by simp))
    · have hlast : ¬∀ last ∈ w.dag.steps.getLast?,
          last.exec.action ≠ .contractRefund ∧ last.exec.action ≠ .contractReceipt := by
        intro hall
        obtain ⟨⟨last, hlast, hcloses⟩, -⟩ :=
          @Shape.getTxNextAction_closing env tx active now w main tail d h htail
        exact not_or.mpr (hall last hlast) hcloses
      rw [htrace.agrees_iff_of_tail hwell h htail, World.Resumable]
      exact (or_iff_right hlast).symm

namespace Sample

def refundedSteps : List Step := callSteps.take 3

theorem wellHashed_refundedSteps : WellHashed (refundedSteps.map Step.header) :=
  ⟨by decide, by decide⟩

theorem refunded_call_resumed : ∃ w, init.run env call refundedSteps = .ok w ∧
    w.live env call = [⟨recipient, .contractReceipt, unitOf contract 1⟩] ∧
    w.Agrees env call true 0 := by
  refine ⟨_, rfl, by decide +kernel, ?_⟩
  exact (agrees_iff_resumable env call true 0 refundedSteps _ rfl (by decide +kernel)
    wellHashed_refundedSteps).mpr (.inr (.inl ⟨by decide, by decide +kernel⟩))

def created : Address := ⟨0x01010101 * 2 ^ 128 + 2⟩

def deployEnv : Env := { env with createdContract _ := some created }

def deployment : Transaction :=
  { call with recipient := scAccount, gas := 100000, data := funcCreateContract ++ [0x60, 0x60] }

def deploySteps : List Step :=
  [stepOn sender 0 200000 ⟨.contractFreeze, .zero, true⟩,
    stepOn scAccount 1 0 ⟨.contractDeal, unitOf sender 0, false⟩,
    { stepOn created 2 0 ⟨.contractDeal, unitOf scAccount 1, false⟩ with
      header := ⟨created, 1, ⟨3⟩, 2, ⟨9⟩, 1000000, Nat.one_pos⟩ },
    stepOn sender 3 99900 ⟨.contractRefund, ⟨created, 1, ⟨3⟩⟩, false⟩]

/-- The refund is executed before the contract receipt, which the replay does not find any more. -/
theorem deployment_not_resumed : ∃ w, init.run deployEnv deployment deploySteps = .ok w ∧
    AllAnnounced deployEnv deployment init deploySteps ∧
    WellHashed (deploySteps.map Step.header) ∧
    w.live deployEnv deployment = [⟨recipient, .contractReceipt, ⟨created, 1, ⟨3⟩⟩⟩] ∧
    w.getTxNextAction deployEnv deployment true 0 = .ok [] ∧
    ¬w.Agrees deployEnv deployment true 0 := by
  have hlive : ∃ w, init.run deployEnv deployment deploySteps = .ok w ∧
      w.live deployEnv deployment = [⟨recipient, .contractReceipt, ⟨created, 1, ⟨3⟩⟩⟩] ∧
      w.getTxNextAction deployEnv deployment true 0 = .ok [] ∧ w.dag.steps ≠ [] :=
    ⟨_, rfl, by decide +kernel, by decide +kernel, by decide +kernel⟩
  obtain ⟨w, hrun, hlive, hnext, hne⟩ := hlive
  refine ⟨w, hrun, by decide +kernel, ⟨by decide, by decide⟩, hlive, hnext, ?_⟩
  intro hagrees
  have hsame := (agrees_iff hne hnext).mp hagrees ⟨recipient, .contractReceipt, ⟨created, 1, ⟨3⟩⟩⟩
  rw [hlive] at hsame
  cases hsame.mpr (mem_singleton.mpr rfl)

end Sample

end Nerthus.Core
