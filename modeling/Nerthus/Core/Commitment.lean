import Nerthus.Core.VerifyUnit

/-!
# What a header commits to

Nothing on the way of a unit into the chain derives the root of its steps again, so the header
commits to the steps only through the roots of the receipts and of the state. A step that brings
no receipt of its previous step, or is executed under one of several actions that mean the same,
can be exchanged.
-/

namespace Nerthus.Core

open List Lib

section Receipt

variable {env : Env} {vm : Machine} {dag : Dag} {header : Header} {tx : Transaction}
  {exec : TransactionExec} {gasRemaining gas refund gasPool : Nat} {source : UnitID}
  {db db' : StateDB} {receipt : Receipt} {a a' : TxAction}

theorem applyToContractAt_receipt
    (h : applyToContractAt env vm header tx gasRemaining a source db gasPool =
      .ok (receipt, db')) : receipt.action = .contractDeal := by
  obtain ⟨used, -, hfailed | ⟨pool, hdeal⟩⟩ := applyToContractAt_eq_ok h
  · obtain ⟨rfl, -⟩ := Prod.mk.inj hfailed
    rfl
  · obtain ⟨_, o, _, -, -, rfl, -⟩ := executeDeal_eq_ok hdeal
    rfl

theorem exec_of_receipt
    (h : applyAction env vm dag header tx exec db gasPool = .ok (receipt, db'))
    (hcredit : exec.action.isCredit = true ∨ receipt.action.isCredit = true) :
    exec.action = receipt.action ∧ exec.preStep = receipt.preStep := by
  by_cases hexec : exec.action.isCredit = true
  · obtain ⟨r, -, -, hsame⟩ := applyAction_credit hexec h
    exact hsame
  have hcredit := hcredit.resolve_left hexec
  unfold applyAction at h
  cases haction : exec.action with
  | transferPayment =>
    simp only [haction, applyPayment, ite_eq_ok_iff, bind_eq_ok_iff] at h
    obtain ⟨-, _, -, o, -, h⟩ := h
    obtain ⟨rfl, -⟩ := Prod.mk.inj (Except.ok.inj h)
    cases hcredit
  | contractFreeze =>
    simp only [haction, applyFreeze, ite_eq_ok_iff, bind_eq_ok_iff] at h
    obtain ⟨-, _, -, b, -, -, h⟩ := h
    obtain ⟨rfl, -⟩ := Prod.mk.inj (Except.ok.inj h)
    cases hcredit
  | contractDeal | powTxContractDeal | scIdleContractDeal =>
    simp only [haction, applyToContract, ite_eq_ok_iff, bind_eq_ok_iff] at h
    obtain ⟨-, _, -, g, -, h⟩ := h
    rw [applyToContractAt_receipt h] at hcredit
    cases hcredit
  | _ =>
    rw [haction] at hexec
    exact absurd rfl hexec

theorem checkIdle_congr {mc : Address} (h : a' = .scIdleContractDeal ↔ a = .scIdleContractDeal) :
    checkIdle env a' mc tx gas = checkIdle env a mc tx gas := by
  unfold checkIdle
  by_cases ha : a = .scIdleContractDeal
  · rw [ha, h.mpr ha]
  · rw [if_pos ha, if_pos fun ha' => ha (h.mp ha')]

theorem tryCreate_congr {freeze : Nat} (h : a' = .scIdleContractDeal ↔ a = .scIdleContractDeal) :
    tryCreate env vm header tx gasRemaining a' source db freeze gasPool =
      tryCreate env vm header tx gasRemaining a source db freeze gasPool := by
  unfold tryCreate
  rw [checkIdle_congr h]

theorem applyToContractAt_congr (hidle : a' = .scIdleContractDeal → a = .scIdleContractDeal)
    (hcreate : env.isCallCreateContractTx tx.recipient tx.data = true →
      (a' = .scIdleContractDeal ↔ a = .scIdleContractDeal))
    (h : applyToContractAt env vm header tx gasRemaining a source db gasPool = .ok (receipt, db')) :
    applyToContractAt env vm header tx gasRemaining a' source db gasPool = .ok (receipt, db') ∧
      dealPoolAt env vm header tx gasRemaining a' source db gasPool =
        dealPoolAt env vm header tx gasRemaining a source db gasPool := by
  by_cases hiff : a' = .scIdleContractDeal ↔ a = .scIdleContractDeal
  · unfold applyToContractAt dealPoolAt at *
    rw [checkIdle_congr hiff, tryCreate_congr hiff]
    exact ⟨h, rfl⟩
  · have hnot : ¬env.isCallCreateContractTx tx.recipient tx.data = true :=
      fun hc => hiff (hcreate hc)
    have ha' : a' ≠ .scIdleContractDeal := fun ha' => hiff ⟨hidle, fun _ => ha'⟩
    have hcheck' : checkIdle env a' header.mc tx gasRemaining = .ok () := if_pos ha'
    have hother : (env.isCallCreateContractTx tx.recipient tx.data &&
        decide (header.mc = env.scAccount)) = false := by
      rw [Bool.not_eq_true] at hnot
      rw [hnot, Bool.false_and]
    unfold applyToContractAt dealPoolAt at *
    obtain ⟨_, hcheck, h⟩ := bind_eq_ok_iff.mp h
    rw [hother] at h ⊢
    rw [hcheck, hcheck']
    exact ⟨bind_eq_ok_iff.mpr ⟨(), rfl, h⟩, rfl⟩

end Receipt

section Exchange

variable {σ : Type} {n : Node σ} {header : Header} {e : TxExec} {tx : Transaction}

theorem replaces_debit (hdebit : e.action.isDebit = true) {preStep : UnitID}
    (hempty : preStep.chainID.empty = true) :
    n.Replaces header e { e with preStep := preStep } := by
  have hdeal : ¬e.action.isDeal = true := by
    intro hdeal
    cases haction : e.action <;> rw [haction] at hdebit hdeal <;> cases hdebit <;> cases hdeal
  refine Node.replaces_of rfl (.inr hempty) fun s vm db db' gasPool tx receipt hquery happly => ?_
  refine ⟨hquery, Node.effectOf_eq rfl rfl (fun h => absurd h hdeal) fun _ => Iff.rfl, ?_⟩
  obtain ⟨action, pre, txHash, tx'⟩ := e
  cases action with
  | transferPayment | contractFreeze => exact ⟨happly, rfl⟩
  | _ => cases hdebit

theorem replaces_deal {a : TxAction} (hdeal : e.action.isDeal = true) (ha : a.isDeal = true)
    (hidle : a = .scIdleContractDeal → e.action = .scIdleContractDeal)
    (hcreate : ∀ tx, n.store.queryOriginTx e = .ok tx →
      n.env.isCallCreateContractTx tx.recipient tx.data = true →
      (a = .scIdleContractDeal ↔ e.action = .scIdleContractDeal)) :
    n.Replaces header e { e with action := a } := by
  refine Node.replaces_of rfl (.inl rfl) fun s vm db db' gasPool tx receipt hquery happly => ?_
  refine ⟨hquery, Node.effectOf_eq rfl (ha.trans hdeal.symm) (fun _ => rfl) (hcreate tx hquery), ?_⟩
  rw [applyAction_of_isDeal (by exact hdeal)] at happly
  rw [applyAction_of_isDeal (by exact ha), applyPool_of_isDeal (by exact ha),
    applyPool_of_isDeal (by exact hdeal)]
  unfold applyToContract dealPool at *
  simp only [ite_eq_ok_iff, bind_eq_ok_iff] at happly
  obtain ⟨hrec, _, hcheck, gasRemaining, hgas, happly⟩ := happly
  obtain ⟨hok, hpool⟩ := applyToContractAt_congr hidle (hcreate tx hquery) happly
  have hgas' : dealGasRemaining (n.store.dag e.txHash) tx ({ e with action := a } : TxExec).step =
      .ok gasRemaining := hgas
  simp only [if_neg hrec, hcheck, hgas, hgas']
  exact ⟨bind_eq_ok_iff.mpr ⟨(), rfl, bind_eq_ok_iff.mpr ⟨gasRemaining, rfl, hok⟩⟩, hpool⟩

theorem replaces_credit (hcredit : e.action.isCredit = true) {tx' : Option Transaction}
    (hquery : ∀ tx, n.store.queryOriginTx e = .ok tx → (n.store.dag e.txHash).steps ≠ [] →
      n.store.queryOriginTx { e with tx := tx' } = .ok tx) :
    n.Replaces header e { e with tx := tx' } := by
  refine Node.replaces_of rfl (.inl rfl) fun s vm db db' gasPool tx receipt hquery' happly => ?_
  have hsteps := steps_ne_nil_of_isCredit hcredit happly
  refine ⟨hquery tx hquery' hsteps, Node.effectOf_eq rfl rfl (fun _ => rfl) fun _ => Iff.rfl, ?_⟩
  obtain ⟨action, pre, txHash, tx₀⟩ := e
  cases action with
  | transferReceipt | contractReceipt | contractRefund => exact ⟨happly, rfl⟩
  | _ => cases hcredit

end Exchange

/-! ## Pinned steps -/

namespace Verifier

variable {σ : Type} (n : Verifier σ)

def passes (h : UnitHeader) (tx : Transaction) : Bool :=
  match n.execHeader h, n.limitsAt h with
  | some header, .ok limits => (checkTx n.env header tx limits.1 limits.2).isOk
  | _, _ => false

/-- A credit that names its previous step in full. If that counts as empty, the step must not be
free to bring its transaction or not. -/
def Pinned (h : UnitHeader) (e : TxExec) : Prop :=
  e.action.isCredit = true ∧
    (e.preStep.isEmpty = false ∨ n.isBlackUnit h = true ∨
      e.tx = none ∧ ∀ tx ∈ n.store.getTransaction e.txHash, n.passes h tx = false)

/-- A creation that is called idle; what it does depends on the virtual machine. -/
def IdleCreation (e : TxExec) : Prop :=
  e.action = .scIdleContractDeal ∧ ∃ tx, n.store.queryOriginTx e = .ok tx ∧
    n.env.isCallCreateContractTx tx.recipient tx.data = true

/-- All units accepted under the hash of the header have the steps of this one, and the root in the
header is theirs. -/
def Committed (u : SealedUnit) : Prop :=
  ∀ v, n.Accepts v → n.hash v.header = n.hash u.header →
    v.txs = u.txs ∧ v.header.txsRoot = n.txsRoot v.txs

def Sound (h : UnitHeader) (header : Header) (limits : Nat × Nat) (e : TxExec) : Prop :=
  n.checkExec header limits e = .ok () ∧ (n.isBlackUnit h = true → e.tx.isSome = true)

end Verifier

section Pinned

variable {σ : Type} {n : Verifier σ} {h : UnitHeader} {header : Header} {limits : Nat × Nat}
  {e e' : TxExec} {s s₁ s₁' : ChainState σ} {gasPool total : Nat} {r : UnitReceipt}

theorem checkExec_eq_ok : n.checkExec header limits e = .ok () ↔
      (e.preStep.isEmpty = false → e.tx = none) ∧ n.checkSource header e.preStep = .ok () ∧
      ∀ tx, e.tx = some tx →
        e.txHash = n.txHash tx ∧ checkTx n.env header tx limits.1 limits.2 = .ok () := by
  have horigin : n.checkOrigin header limits e = .ok () ↔ ∀ tx, e.tx = some tx →
      e.txHash = n.txHash tx ∧ checkTx n.env header tx limits.1 limits.2 = .ok () := by
    unfold Verifier.checkOrigin
    cases htx : e.tx with
    | none => simp
    | some tx =>
      by_cases hhash : e.txHash = n.txHash tx
      · simp [hhash]
      · simp [hhash]
  unfold Verifier.checkExec
  by_cases hboth : e.preStep.isEmpty = false ∧ e.tx.isSome = true
  · rw [if_pos hboth]
    refine ⟨nofun, fun hok => ?_⟩
    have hsome := hboth.2
    rw [hok.1 hboth.1] at hsome
    cases hsome
  · have hnone : e.preStep.isEmpty = false → e.tx = none := by
      intro hpre
      rw [← Option.not_isSome_iff_eq_none]
      exact fun hsome => hboth ⟨hpre, hsome⟩
    rw [if_neg hboth, bind_eq_ok_iff, ← horigin]
    exact ⟨fun ⟨_, hsource, hok⟩ => ⟨hnone, hsource, hok⟩, fun ⟨_, hsource, hok⟩ => ⟨(), hsource, hok⟩⟩

section

variable (hheader : n.execHeader h = some header)
include hheader

section

variable (hlimits : n.limitsAt h = .ok limits)
include hlimits

theorem passes_eq (tx : Transaction) :
    n.passes h tx = true ↔ checkTx n.env header tx limits.1 limits.2 = .ok () := by
  unfold Verifier.passes
  rw [hheader, hlimits]
  dsimp only
  cases checkTx n.env header tx limits.1 limits.2 with
  | error e => exact ⟨nofun, nofun⟩
  | ok u => exact ⟨fun _ => rfl, fun _ => rfl⟩

theorem eq_of_pinned (hpinned : n.Pinned h e) (hsound : n.Sound h header limits e)
    (hsound' : n.Sound h header limits e')
    (hexec : n.processExec header s gasPool total e = .ok (r, s₁))
    (hexec' : n.processExec header s gasPool total e' = .ok (r, s₁')) : e = e' := by
  obtain ⟨tx, receipt, db, hquery, hprocess, hr, -⟩ := processExec_eq_ok hexec
  obtain ⟨tx', receipt', db', hquery', hprocess', hr', -⟩ := processExec_eq_ok hexec'
  obtain ⟨-, -, happly⟩ := processTransaction_eq_ok hprocess
  obtain ⟨-, -, happly'⟩ := processTransaction_eq_ok hprocess'
  have hreceipt : receipt = receipt' := congrArg UnitReceipt.result (hr.symm.trans hr')
  have hhash : e.txHash = e'.txHash := congrArg UnitReceipt.txHash (hr.symm.trans hr')
  obtain ⟨haction, hpre⟩ := exec_of_receipt happly (.inl hpinned.1)
  have hcredit : receipt'.action.isCredit = true := by
    rw [← hreceipt, ← haction]
    exact hpinned.1
  obtain ⟨haction', hpre'⟩ := exec_of_receipt happly' (.inr hcredit)
  have hactions : e.action = e'.action := by
    change e.step.action = e'.step.action
    rw [haction, haction', hreceipt]
  have hpres : e.preStep = e'.preStep := by
    change e.step.preStep = e'.step.preStep
    rw [hpre, hpre', hreceipt]
  obtain ⟨hfollow, -, horigin⟩ := checkExec_eq_ok.mp hsound.1
  obtain ⟨hfollow', -, horigin'⟩ := checkExec_eq_ok.mp hsound'.1
  have htx : e.tx = e'.tx := by
    rcases hpinned.2 with hstep | hblack | ⟨hnone, hfail⟩
    · rw [hfollow hstep, hfollow' (hpres ▸ hstep)]
    · obtain ⟨t, ht⟩ := Option.isSome_iff_exists.mp (hsound.2 hblack)
      obtain ⟨t', ht'⟩ := Option.isSome_iff_exists.mp (hsound'.2 hblack)
      have hsame : n.txHash t = n.txHash t' := by
        rw [← (horigin t ht).1, ← (horigin' t' ht').1, hhash]
      rw [ht, ht', n.txHash_injective hsame]
    · cases ht' : e'.tx with
      | none => exact hnone
      | some t' =>
        -- a transaction with a step is stored, and the stored one does not pass
        obtain ⟨hhash', hcheck⟩ := horigin' t' ht'
        have hcredit' : e'.action.isCredit = true := hactions ▸ hpinned.1
        have hsteps := steps_ne_nil_of_isCredit hcredit' happly'
        rw [hhash'] at hsteps hhash
        have hstored := n.stored t' hsteps
        rw [← hhash] at hstored
        have hpass := (passes_eq hheader hlimits t').mpr hcheck
        rw [hfail t' hstored] at hpass
        cases hpass
  obtain ⟨action, preStep, txHash, tx₀⟩ := e
  obtain ⟨action', preStep', txHash', tx₀'⟩ := e'
  simp only at hactions hpres hhash htx
  rw [hactions, hpres, hhash, htx]

theorem txs_eq_of_pinned {txs txs' : List TxExec} {out out' : Processed σ}
    (hpinned : ∀ e ∈ txs, n.Pinned h e) (hsound : ∀ e ∈ txs, n.Sound h header limits e)
    (hsound' : ∀ e ∈ txs', n.Sound h header limits e)
    (hout : n.processFrom header s gasPool total txs = .ok out)
    (hout' : n.processFrom header s gasPool total txs' = .ok out')
    (hreceipts : out.receipts = out'.receipts) : txs = txs' := by
  induction txs generalizing txs' s gasPool total out out' with
  | nil =>
    cases hout
    cases txs' with
    | nil => rfl
    | cons e' txs' =>
      obtain ⟨_, -, hout'⟩ := bind_eq_ok_iff.mp hout'
      obtain ⟨_, -, hout'⟩ := bind_eq_ok_iff.mp hout'
      cases hout'
      cases hreceipts
  | cons e txs ih =>
    obtain ⟨⟨r, s₁⟩, hexec, hout⟩ := bind_eq_ok_iff.mp hout
    obtain ⟨rest, hrest, hout⟩ := bind_eq_ok_iff.mp hout
    obtain rfl := (Except.ok.inj hout).symm
    cases txs' with
    | nil =>
      cases hout'
      cases hreceipts
    | cons e' txs' =>
      obtain ⟨⟨r', s₁'⟩, hexec', hout'⟩ := bind_eq_ok_iff.mp hout'
      obtain ⟨rest', hrest', hout'⟩ := bind_eq_ok_iff.mp hout'
      obtain rfl := (Except.ok.inj hout').symm
      obtain ⟨hr, htail⟩ := cons.inj hreceipts
      subst hr
      obtain rfl := eq_of_pinned hheader hlimits (hpinned e (.head _))
        (hsound e (.head _)) (hsound' e' (.head _)) hexec hexec'
      obtain ⟨-, rfl⟩ := Prod.mk.inj (Except.ok.inj (hexec.symm.trans hexec'))
      rw [ih (fun e he => hpinned e (.tail _ he))
        (fun e he => hsound e (.tail _ he))
        (fun e he => hsound' e (.tail _ he)) hrest hrest' htail]

theorem exists_other (hnot : ¬n.Pinned h e) (hcreation : ¬n.IdleCreation e)
    (hsound : n.Sound h header limits e) :
    ∃ e', e' ≠ e ∧ n.Sound h header limits e' ∧ n.Replaces header e e' := by
  obtain ⟨hcheck, hblack⟩ := hsound
  obtain ⟨hfollow, hsource, horigin⟩ := checkExec_eq_ok.mp hcheck
  have hsame : ∀ a, n.Sound h header limits { e with action := a } := fun a => ⟨hcheck, hblack⟩
  have hne : ∀ {a : TxAction}, a ≠ e.action → ({ e with action := a } : TxExec) ≠ e :=
    fun ha heq => ha (congrArg TxExec.action heq)
  cases haction : e.action with
  | transferPayment | contractFreeze =>
    have hdebit : e.action.isDebit = true := by rw [haction]; rfl
    -- an identifier without a chain counts as empty, whatever else it says
    let preStep : UnitID := ⟨.emptyAddress, e.preStep.height + 1, e.preStep.hash⟩
    refine ⟨{ e with preStep := preStep }, fun heq => ?_,
      ⟨checkExec_eq_ok.mpr ⟨fun hpre => ?_, ?_, horigin⟩, hblack⟩, replaces_debit hdebit rfl⟩
    · have hheight := congrArg (fun x : TxExec => x.preStep.height) heq
      exact absurd hheight (Nat.succ_ne_self _)
    · exact absurd hpre (by simp [preStep, UnitID.isEmpty, Address.empty, Address.emptyAddress])
    · exact if_pos (by simp [preStep, UnitID.isEmpty, Address.empty, Address.emptyAddress])
  | contractDeal | powTxContractDeal =>
    have hdeal : e.action.isDeal = true := by rw [haction]; rfl
    have hother : ∀ a : TxAction, a ≠ e.action → a.isDeal = true → a ≠ .scIdleContractDeal →
        ∃ e', e' ≠ e ∧ n.Sound h header limits e' ∧ n.Replaces header e e' := by
      intro a ha hadeal hidle
      refine ⟨_, hne ha, hsame a, replaces_deal hdeal hadeal (absurd · hidle) fun tx _ _ => ?_⟩
      rw [haction]
      exact ⟨(absurd · hidle), nofun⟩
    rw [haction] at hother
    first
      | exact hother .powTxContractDeal (by decide) rfl nofun
      | exact hother .contractDeal (by decide) rfl nofun
  | scIdleContractDeal =>
    have hdeal : e.action.isDeal = true := by rw [haction]; rfl
    refine ⟨_, hne (by rw [haction]; nofun), hsame .contractDeal,
      replaces_deal hdeal rfl nofun fun tx hquery hcreate => ?_⟩
    exact absurd ⟨haction, tx, hquery, hcreate⟩ hcreation
  | transferReceipt | contractReceipt | contractRefund =>
    have hcredit : e.action.isCredit = true := by rw [haction]; rfl
    have hopen : ¬(e.preStep.isEmpty = false ∨ n.isBlackUnit h = true ∨
        e.tx = none ∧ ∀ tx ∈ n.store.getTransaction e.txHash, n.passes h tx = false) :=
      fun hpinned => hnot ⟨hcredit, hpinned⟩
    rw [not_or, not_or] at hopen
    obtain ⟨hempty, hcolour, htx⟩ := hopen
    cases horig : e.tx with
    | some tx =>
      refine ⟨{ e with tx := none }, fun heq => ?_,
        ⟨checkExec_eq_ok.mpr ⟨fun _ => rfl, hsource, nofun⟩, fun hb => absurd hb hcolour⟩,
        replaces_credit hcredit fun tx' hquery hsteps => ?_⟩
      · have hnone := congrArg TxExec.tx heq
        rw [horig] at hnone
        cases hnone
      · obtain rfl : tx = tx' := by
          rw [Store.queryOriginTx, horig] at hquery
          exact Except.ok.inj hquery
        have hhash := (horigin tx horig).1
        have hknown : n.store.getTransaction e.txHash = some tx := by
          rw [hhash] at hsteps ⊢
          exact n.stored tx hsteps
        simp only [Store.queryOriginTx, hknown]
    | none =>
      have hpass : ∃ tx, n.store.getTransaction e.txHash = some tx ∧ n.passes h tx = true := by
        by_contra hnone
        refine htx ⟨horig, fun tx hget => ?_⟩
        rw [← Bool.not_eq_true]
        exact fun hpass => hnone ⟨tx, hget, hpass⟩
      obtain ⟨tx, hget, hpass⟩ := hpass
      have hchecked := (passes_eq hheader hlimits tx).mp hpass
      refine ⟨{ e with tx := some tx }, fun heq => ?_,
        ⟨checkExec_eq_ok.mpr ⟨fun hpre => absurd hpre hempty, hsource, fun tx' htx' => ?_⟩,
          fun _ => rfl⟩,
        replaces_credit hcredit fun tx' hquery _ => ?_⟩
      · have hsome := congrArg TxExec.tx heq
        rw [horig] at hsome
        cases hsome
      · obtain rfl := Option.some.inj htx'
        exact ⟨(n.getTransaction_hash _ _ hget).symm, hchecked⟩
      · rw [Store.queryOriginTx, horig] at hquery
        simp only [hget] at hquery
        exact hquery

end

end

end Pinned

section Units

variable {σ : Type} {n : Verifier σ} {u v : SealedUnit}

theorem sound_of_accepts (h : n.Accepts u) :
    ∃ header limits s out, n.execHeader u.header = some header ∧
      n.limitsAt u.header = .ok limits ∧ n.parentState u.header = .ok s ∧
      n.process header s u.txs = .ok out ∧ n.receiptRoot out.receipts = u.header.receiptRoot ∧
      ∀ e ∈ u.txs, n.Sound u.header header limits e := by
  obtain ⟨-, header, hheader, hbody, s, hs, out, hout, hstate⟩ := accepts_iff.mp h
  obtain ⟨-, hblack, limits, hlimits, hexecs⟩ := validateBody_eq_ok.mp hbody
  refine ⟨header, limits, s, out, hheader, hlimits, hs, hout, receiptRoot_of_validateState hstate, ?_⟩
  intro e he
  exact ⟨hexecs e he, fun hb => (hblack hb).2 e he⟩

theorem accepts_exchange {before after : List TxExec} {e e' : TxExec} {header : Header}
    {limits : Nat × Nat} (h : n.Accepts u) (htxs : u.txs = before ++ e :: after)
    (hheader : n.execHeader u.header = some header) (hlimits : n.limitsAt u.header = .ok limits)
    (hsound : n.Sound u.header header limits e') (hreplaces : n.Replaces header e e') :
    n.Accepts { u with txs := before ++ e' :: after } := by
  obtain ⟨hcheck, header', hheader', hbody, s, hs, out, hout, hstate⟩ := accepts_iff.mp h
  obtain rfl : header' = header := Option.some.inj (hheader'.symm.trans hheader)
  obtain ⟨-, hblack, limits', hlimits', hexecs⟩ := validateBody_eq_ok.mp hbody
  obtain rfl : limits' = limits := Except.ok.inj (hlimits'.symm.trans hlimits)
  rw [htxs] at hout hblack hexecs
  refine accepts_iff.mpr ⟨hcheck, header', hheader, ?_, s, hs, out,
    Node.processFrom_replaces hreplaces hout, hstate⟩
  have hexchange : ∀ {P : TxExec → Prop}, (∀ x ∈ before ++ e :: after, P x) → P e' →
      ∀ x ∈ before ++ e' :: after, P x := by
    intro P hall he'
    simp only [forall_mem_append, forall_mem_cons] at hall ⊢
    exact ⟨hall.1, he', hall.2.2⟩
  refine validateBody_eq_ok.mpr ⟨by simp, fun hb => ?_, limits', hlimits,
    hexchange hexecs hsound.1⟩
  obtain ⟨hlen, hall⟩ := hblack hb
  exact ⟨by simpa using hlen, hexchange hall (hsound.2 hb)⟩

theorem txs_eq_of_accepts (hu : n.Accepts u) (hv : n.Accepts v) (hheader : v.header = u.header)
    (hpinned : ∀ e ∈ u.txs, n.Pinned u.header e) : v.txs = u.txs := by
  obtain ⟨header, limits, s, out, hexec, hlimits, hs, hout, hroot, hsound⟩ := sound_of_accepts hu
  obtain ⟨header', limits', s', out', hexec', hlimits', hs', hout', hroot', hsound'⟩ :=
    sound_of_accepts hv
  rw [hheader] at hexec' hlimits' hs' hroot' hsound'
  obtain rfl : header' = header := Option.some.inj (hexec'.symm.trans hexec)
  obtain rfl : limits' = limits := Except.ok.inj (hlimits'.symm.trans hlimits)
  obtain rfl : s' = s := Except.ok.inj (hs'.symm.trans hs)
  have hreceipts : out.receipts = out'.receipts :=
    n.receiptRoot_injective (hroot.trans hroot'.symm)
  exact (txs_eq_of_pinned hexec hlimits hpinned hsound hsound' hout hout' hreceipts).symm

theorem txs_ne_nil_of_accepts (h : n.Accepts u) : u.txs ≠ [] := by
  obtain ⟨-, header, -, hbody, -⟩ := accepts_iff.mp h
  exact (validateBody_eq_ok.mp hbody).1

theorem newUnit_eq_iff (h : n.Accepts u) :
    n.newUnit u.header u.txs = u.header ↔ u.header.txsRoot = n.txsRoot u.txs := by
  have hne : u.txs.isEmpty = false := by
    rw [← Bool.not_eq_true, List.isEmpty_iff]
    exact txs_ne_nil_of_accepts h
  unfold Verifier.newUnit
  simp only [hne, Bool.false_eq_true, if_false]
  constructor
  · intro heq
    exact (congrArg UnitHeader.txsRoot heq).symm
  · intro heq
    rw [← heq]

end Units

/-- An accepted unit is the only one under its header if `NewUnit` made the header for these steps
and the receipts pin them down. Conversely, every step is pinned down or a creation called idle. -/
theorem committed_of_pinned {σ : Type} (n : Verifier σ) (u : SealedUnit) (hu : n.Accepts u) :
    (n.newUnit u.header u.txs = u.header ∧ (∀ e ∈ u.txs, n.Pinned u.header e) →
      n.Committed u) ∧
    (n.Committed u →
      n.newUnit u.header u.txs = u.header ∧
        ∀ e ∈ u.txs, n.Pinned u.header e ∨ n.IdleCreation e) := by
  constructor
  · rintro ⟨hmade, hpinned⟩ v hv hhash
    have hheader : v.header = u.header := n.hash_injective hhash
    have htxs := txs_eq_of_accepts hu hv hheader hpinned
    refine ⟨htxs, ?_⟩
    rw [hheader, htxs]
    exact (newUnit_eq_iff hu).mp hmade
  · intro hcommitted
    refine ⟨(newUnit_eq_iff hu).mpr (hcommitted u hu rfl).2, fun e he => ?_⟩
    by_contra hnot
    rw [not_or] at hnot
    obtain ⟨header, limits, -, -, hheader, hlimits, -, -, -, hsound⟩ := sound_of_accepts hu
    obtain ⟨e', hne, hsound', hreplaces⟩ :=
      exists_other hheader hlimits hnot.1 hnot.2 (hsound e he)
    obtain ⟨before, after, htxs⟩ := append_of_mem he
    have hv := accepts_exchange hu htxs hheader hlimits hsound' hreplaces
    have heq := (hcommitted _ hv rfl).1
    rw [htxs] at heq
    exact hne (cons.inj (append_cancel_left heq)).1

/-! ## Two units -/

namespace Sample

instance countableUInt8 : Countable UInt8 := Function.Injective.countable fun _ _ => UInt8.toNat_inj.mp

deriving instance Countable for Address
deriving instance Countable for Hash
deriving instance Countable for TxAction
deriving instance Countable for UnitID
deriving instance Countable for Transaction
deriving instance Countable for TxExec
deriving instance Countable for Coinflow
deriving instance Countable for Receipt
deriving instance Countable for Log
deriving instance Countable for UnitReceipt
deriving instance Countable for UnitHeader

/-- A hash without collisions; the hashes of the fixed units below are none of its values. -/
noncomputable def code {α : Type} [Countable α] (x : α) : Hash :=
  ⟨(exists_injective_nat α).choose x + 1000⟩

theorem code_injective {α : Type} [Countable α] : Function.Injective (code (α := α)) := by
  intro x y h
  have hval : (exists_injective_nat α).choose x = (exists_injective_nat α).choose y :=
    Nat.add_right_cancel (congrArg Hash.val h)
  exact (exists_injective_nat α).choose_spec hval

noncomputable def callHash (tx : Transaction) : Hash := if tx = call then ⟨101⟩ else code tx

theorem callHash_eq {tx : Transaction} (h : callHash tx = ⟨101⟩) : tx = call := by
  by_contra htx
  rw [callHash, if_neg htx] at h
  have hval := congrArg Hash.val h
  simp only [code] at hval
  omega

theorem callHash_injective : Function.Injective callHash := by
  intro x y h
  by_cases hx : x = call
  · rw [callHash, if_pos hx] at h
    rw [hx, callHash_eq h.symm]
  by_cases hy : y = call
  · rw [callHash, callHash, if_pos hy] at h
    have hx' : callHash x = ⟨101⟩ := by
      rw [callHash]
      exact h
    rw [hy, callHash_eq hx']
  · rw [callHash, callHash, if_neg hx, if_neg hy] at h
    exact code_injective h

def callFrozen : StoredStep where
  header := ⟨sender, 2, ⟨1⟩, 0, ⟨9⟩, 1000000, Nat.two_pos⟩
  exec := ⟨.contractFreeze, .zero, true⟩
  receipt := ⟨.contractFreeze, .zero, false, 21000, 29000, [], []⟩

def callDealt : StoredStep where
  header := ⟨contract, 2, ⟨4⟩, 1, ⟨9⟩, 1000000, Nat.two_pos⟩
  exec := ⟨.contractDeal, ⟨sender, 2, ⟨1⟩⟩, false⟩
  receipt := ⟨.contractDeal, ⟨sender, 2, ⟨1⟩⟩, false, 1000, 28000, [⟨recipient, 100⟩], []⟩

def storedHeader (mc : Address) (number timestamp : Nat) : UnitHeader :=
  ⟨mc, number, .zero, .zero, 0, ⟨9⟩, .zero, .zero, .zero, 0, 1000000, 0, timestamp⟩

def storedUnits (h : Hash) : Option UnitHeader :=
  if h = ⟨1⟩ then some (storedHeader sender 2 0)
  else if h = ⟨2⟩ then some (storedHeader contract 1 0)
  else if h = ⟨3⟩ then some (storedHeader scAccount 5 0)
  else if h = ⟨4⟩ then some (storedHeader contract 2 1)
  else none

def voters : List Address := (List.range 8).map fun i => ⟨20 + i⟩

def ballot : List WitnessVote :=
  (List.range 8).map fun i => ⟨[3, 0, 0, 0, 0, 0, 0, 0, 0], [UInt8.ofNat i]⟩

noncomputable def importer (steps : List StoredStep) (state : ChainState Unit) : Verifier Unit where
  env := env
  store :=
    ⟨fun h => if h = ⟨101⟩ then some call else none, fun h => if h = ⟨101⟩ then steps else [],
      fun _ => 0⟩
  evm := ⟨fun _ _ => forwarding recipient, fun _ _ _ _ => ((), [])⟩
  bloom9 := ⟨fun _ => 0, fun _ => 0⟩
  txHash := callHash
  stored tx h := by
    dsimp only at h ⊢
    by_cases hhash : callHash tx = ⟨101⟩
    · rw [if_pos hhash, callHash_eq hhash]
    · rw [if_neg hhash] at h
      exact absurd rfl h
  effect_eq _ _ _ _ _ _ _ := rfl
  stateRoot _ := .zero
  receiptRoot := code
  hash := code
  txsRoot := code
  hash_injective := code_injective
  txsRoot_injective := code_injective
  receiptRoot_injective := code_injective
  txHash_injective := callHash_injective
  getTransaction_hash h tx hget := by
    dsimp only at hget
    by_cases hh : h = ⟨101⟩
    · rw [if_pos hh] at hget
      rw [← Option.some.inj hget, hh, callHash, if_pos rfl]
    · rw [if_neg hh] at hget
      cases hget
  inArbitration _ := false
  interrupted := false
  badUnit _ := false
  arbitrationResult _ _ := .zero
  getHeader := storedUnits
  getHeaderByNumber _ _ := none
  now := 200000000000
  sender _ _ := some ⟨9⟩
  voter _ vote := vote.sign.head?.map fun b => ⟨20 + b.toNat⟩
  ucGasLimit _ := some 1000000
  witnessLib _ _ := some (⟨9⟩ :: voters)
  councilList := []
  tailNumber _ := 0
  stableHash _ _ := .zero
  limits _ := some (1, 0)
  stateAt _ _ := some state

def chainState (a : Address) (balance : Nat) : ChainState Unit :=
  ⟨account a balance, [], fun _ => [], (), fun _ => []⟩

def headerOn (mc : Address) (number : Nat) : Header :=
  ⟨mc, number + 1, .zero, 100000000000, ⟨9⟩, 1000000, Nat.succ_pos _⟩

noncomputable def unitOn (n : Verifier Unit) (state : ChainState Unit) (mc : Address) (number : Nat)
    (parentHash : Hash) (txs body : List TxExec) : SealedUnit :=
  let results := (n.process (headerOn mc number) state txs).toOption
  ⟨⟨mc, number + 1, parentHash, ⟨3⟩, 5, ⟨9⟩, n.txsRoot txs,
      n.receiptRoot ((results.map Processed.receipts).getD []), .zero, 0, 1000000,
      (results.map Processed.usedGas).getD 0, 100000000000⟩, body, [], ballot⟩

theorem unitOn_validateState {n : Verifier Unit} {state : ChainState Unit} {mc : Address}
    {number : Nat} {parentHash : Hash} {txs body : List TxExec} {out : Processed Unit}
    (hout : n.process (headerOn mc number) state txs = .ok out)
    (hstate : n.stateRoot out.state = .zero) (hbloom : createBloom n.bloom9 out.receipts = 0) :
    n.validateState (unitOn n state mc number parentHash txs body).header out = .ok () := by
  simp [Verifier.validateState, unitOn, hout, hstate, hbloom, Except.toOption]

theorem eq_ok_of_isOk {x : Except Err Unit} (h : x.isOk = true) : x = .ok () := by
  cases x with
  | error e => cases h
  | ok u => rfl

def refundExec : TxExec := ⟨.contractRefund, ⟨contract, 2, ⟨4⟩⟩, ⟨101⟩, none⟩

noncomputable def refundNode : Verifier Unit := importer [callFrozen, callDealt] (chainState sender 0)

noncomputable def refundUnit : SealedUnit :=
  unitOn refundNode (chainState sender 0) sender 2 ⟨1⟩ [refundExec] [refundExec]

theorem refundUnit_accepts : refundNode.Accepts refundUnit := by
  obtain ⟨out, hout, hbloom⟩ : ∃ out, refundNode.process (headerOn sender 2) (chainState sender 0)
      [refundExec] = .ok out ∧ createBloom refundNode.bloom9 out.receipts = 0 :=
    ⟨_, rfl, by decide +kernel⟩
  refine accepts_iff.mpr ⟨?_, _, rfl, ?_, _, rfl, out, (processFrom_hash _).trans hout,
    unitOn_validateState hout rfl hbloom⟩
  · exact eq_ok_of_isOk (by decide +kernel)
  · rfl

/-- The refund names the unit of the call, so its header stands for it alone. -/
theorem refund_committed : refundNode.Accepts refundUnit ∧ refundNode.Committed refundUnit := by
  refine ⟨refundUnit_accepts, ?_⟩
  refine (committed_of_pinned refundNode refundUnit refundUnit_accepts).1 ⟨rfl, fun e he => ?_⟩
  rw [mem_singleton.mp he]
  exact ⟨rfl, .inl rfl⟩

def dealExec : TxExec := ⟨.contractDeal, ⟨sender, 2, ⟨1⟩⟩, ⟨101⟩, none⟩

noncomputable def dealNode : Verifier Unit := importer [callFrozen] (chainState contract 0)

noncomputable def dealUnit (body : List TxExec) : SealedUnit :=
  unitOn dealNode (chainState contract 0) contract 1 ⟨2⟩ [dealExec] body

theorem dealUnit_accepts : dealNode.Accepts (dealUnit [dealExec]) := by
  obtain ⟨out, hout, hbloom⟩ : ∃ out, dealNode.process (headerOn contract 1) (chainState contract 0)
      [dealExec] = .ok out ∧ createBloom dealNode.bloom9 out.receipts = 0 :=
    ⟨_, rfl, by decide +kernel⟩
  refine accepts_iff.mpr ⟨?_, _, rfl, ?_, _, rfl, out, (processFrom_hash _).trans hout,
    unitOn_validateState hout rfl hbloom⟩
  · exact eq_ok_of_isOk (by decide +kernel)
  · rfl

def powExec : TxExec := { dealExec with action := .powTxContractDeal }

/-- Under the sealed header of the call the other body is accepted as well. -/
theorem body_exchanged : dealNode.Accepts (dealUnit [dealExec]) ∧
    dealNode.Accepts (dealUnit [powExec]) ∧
    dealNode.hash (dealUnit [powExec]).header = dealNode.hash (dealUnit [dealExec]).header ∧
    (dealUnit [dealExec]).header.txsRoot = dealNode.txsRoot (dealUnit [dealExec]).txs ∧
    (dealUnit [powExec]).txs ≠ (dealUnit [dealExec]).txs ∧
    (dealUnit [powExec]).header.txsRoot ≠ dealNode.txsRoot (dealUnit [powExec]).txs := by
  have hne : ([powExec] : List TxExec) ≠ [dealExec] := by decide
  have hreplaces : ∀ header, dealNode.Replaces header dealExec powExec := fun header =>
    replaces_deal rfl rfl nofun fun _ _ _ => ⟨nofun, nofun⟩
  refine ⟨dealUnit_accepts, ?_, rfl, rfl, hne, fun hroot => ?_⟩
  · obtain ⟨header, limits, -, -, hheader, hlimits, -, -, -, hsound⟩ :=
      sound_of_accepts dealUnit_accepts
    have hv := @accepts_exchange _ _ _ [] [] dealExec powExec _ _ dealUnit_accepts rfl hheader
      hlimits (hsound dealExec (.head _)) (hreplaces header)
    exact hv
  · exact hne (dealNode.txsRoot_injective hroot).symm

end Sample

end Nerthus.Core
