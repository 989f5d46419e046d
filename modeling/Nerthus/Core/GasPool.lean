import Nerthus.Core.StepSpec

/-!
# The gas pool

All steps of a unit take their gas out of one pool, and it is not part of the state that
a snapshot restores. A step that is accepted takes out at least the gas that its receipt
says, and what a step does depends on the pool only as far as the pool has enough.
-/

namespace Nerthus.Core

open Lib (Draws Drains bind_ne_error)

variable (env : Env) (vm : Machine) (stopped : Address → Nat) (dag : Dag) (header : Header)
  (tx : Transaction) (exec : TransactionExec) (db : StateDB) (gasPool : Nat)

def paymentPool : Nat :=
  if tx.recipient.isContract then gasPool
  else
    match db.checkTxActionInChain header.mc .transferPayment with
    | .error _ => gasPool
    | .ok () => (transitionDb env vm header .transferPayment tx tx.gas 0 db gasPool).1

/-- The pool after `ApplyFreeze`: the state is restored, but the gas of the message stays out of the
pool. -/
def freezePool : Nat :=
  if !(env.isCallCreateContractTx tx.recipient tx.data || tx.recipient.isContract) then gasPool
  else
    match db.checkTxActionInChain header.mc .contractFreeze with
    | .error _ => gasPool
    | .ok () =>
      (preApplyMessage env (db.setTxActionStateInChain header.mc .contractFreeze) .contractFreeze
        tx tx.gas (freeGasAt env header tx) gasPool).1

/-- The pool after `applyToContract`. What an attempt that is not accepted has taken is taken once
more. -/
def dealPoolAt (gasRemaining : Nat) (currAction : TxAction) (source : UnitID) (db : StateDB)
    (gasPool : Nat) : Nat :=
  match checkIdle env currAction header.mc tx gasRemaining with
  | .error _ => gasPool
  | .ok () =>
    if env.isCallCreateContractTx tx.recipient tx.data && decide (header.mc = env.scAccount) then
      if (safeMul gasRemaining tx.gasPrice).2 then gasPool
      else
        match tryCreate env vm header tx gasRemaining currAction source db
            (safeMul gasRemaining tx.gasPrice).1 gasPool with
        | (gasPool', .error e) =>
          if e = .gasLimitReached then gasPool'
          else if gasPool' < forceSafeSub gasPool gasPool' then gasPool'
          else gasPool' - forceSafeSub gasPool gasPool'
        | (gasPool', .ok r) =>
          if r.failed then gasPool'
          else
            (executeDeal env vm header tx gasRemaining (forceSafeSub gasRemaining r.gasUsed)
              r.gasUsed source db gasPool').1
    else (executeDeal env vm header tx gasRemaining gasRemaining 0 source db gasPool).1

def dealPool : Nat :=
  if !tx.recipient.isContract then gasPool
  else
    match db.checkTxActionInChain header.mc .contractDeal, dealGasRemaining dag tx exec with
    | .ok (), .ok gasRemaining =>
      dealPoolAt env vm header tx gasRemaining exec.action exec.preStep
        (db.setTxActionStateInChain header.mc .contractDeal) gasPool
    | _, _ => gasPool

def applyPool : Nat :=
  match exec.action with
  | .transferPayment => paymentPool env vm header tx db gasPool
  | .contractFreeze => freezePool env header tx db gasPool
  | .contractDeal | .powTxContractDeal | .scIdleContractDeal =>
    dealPool env vm dag header tx exec db gasPool
  | .transferReceipt | .contractReceipt | .contractRefund => gasPool

def processPool : Nat :=
  match dag.queryOriginTx exec with
  | .error _ => gasPool
  | .ok () =>
    if exec.preStep.chainID.empty then applyPool env vm dag header tx exec db gasPool
    else
      match checkChainIsStopped env stopped exec.preStep.chainID exec.preStep.height with
      | .error _ => gasPool
      | .ok () => applyPool env vm dag header tx exec db gasPool

def deploys : Bool :=
  env.isCallCreateContractTx tx.recipient tx.data && decide (header.mc = env.scAccount)

/-! ## Steps -/

/-- The attempt or after it the deal itself fails, or the attempt takes nothing out of the pool. -/
def AttemptSettles (gasRemaining : Nat) (currAction : TxAction) (source : UnitID) (db : StateDB)
    (gasPool : Nat) : Prop :=
  match tryCreate env vm header tx gasRemaining currAction source db
      (safeMul gasRemaining tx.gasPrice).1 gasPool with
  | (gasPool', .error e) => e = .gasLimitReached ∨ gasPool' = gasPool
  | (gasPool', .ok r) => r.failed = true ∨ r.gasUsed = 0 ∨
    ∀ d, (executeDeal env vm header tx gasRemaining (forceSafeSub gasRemaining r.gasUsed) r.gasUsed
      source db gasPool').2 = .ok d → d.1.failed = true

def DealSettles : Prop :=
  deploys env header tx = true →
    ∀ gasRemaining, dealGasRemaining dag tx exec = .ok gasRemaining →
      AttemptSettles env vm header tx gasRemaining exec.action exec.preStep
        (db.setTxActionStateInChain header.mc .contractDeal) gasPool

/-- The pool is left with what the receipt says. -/
def Settles : Prop :=
  match exec.action with
  | .contractFreeze => tx.gas + freeGasAt env header tx = stepGas env .contractFreeze tx
  | .contractDeal | .powTxContractDeal | .scIdleContractDeal =>
    DealSettles env vm dag header tx exec db gasPool
  | _ => True

/-- What a deal needs of the pool; an attempt on the genesis can have free gas of its own. -/
def dealGasRequired (gasRemaining : Nat) : Nat :=
  gasRemaining + (if deploys env header tx then 2 else 1) * freeGasAt env header tx

def requiredGas : Nat :=
  match exec.action with
  | .transferPayment => tx.gas
  | .contractFreeze => tx.gas + freeGasAt env header tx
  | .contractDeal | .powTxContractDeal | .scIdleContractDeal =>
    match dealGasRemaining dag tx exec with
    | .error _ => 0
    | .ok gasRemaining => dealGasRequired env header tx gasRemaining
  | .transferReceipt | .contractReceipt | .contractRefund => 0

section Step

variable {env : Env} {vm : Machine} {stopped : Address → Nat} {dag : Dag} {header : Header}
  {tx : Transaction} {exec : TransactionExec} {gasPool : Nat} {db db' : StateDB}
  {receipt : Receipt}

theorem checkTxActionInChain_ne {mc : Address} {action : TxAction} (e : Err)
    (h : db.checkTxActionInChain mc action = .error e) : e ≠ .gasLimitReached := by
  unfold StateDB.checkTxActionInChain at h
  split at h <;> cases h
  nofun

theorem getTxReceiptAtUnit_ne {uhash : Hash} (e : Err)
    (h : dag.getTxReceiptAtUnit uhash = .error e) : e ≠ .gasLimitReached := by
  unfold Dag.getTxReceiptAtUnit at h
  split at h <;> cases h
  nofun

theorem dealGasRemaining_ne : dealGasRemaining dag tx exec ≠ .error .gasLimitReached := by
  unfold dealGasRemaining
  split_ifs
  · nofun
  · nofun
  · refine bind_ne_error getTxReceiptAtUnit_ne fun info => ?_
    split_ifs <;> nofun

theorem applyPayment_draws (env : Env) (vm : Machine) (header : Header) (tx : Transaction)
    (db : StateDB) : Draws .gasLimitReached tx.gas (fun r taken => r.1.gasUsed = taken)
      fun p => (paymentPool env vm header tx db p, applyPayment env vm header tx db p) := by
  unfold paymentPool applyPayment
  split_ifs
  · exact .of_error (fun _ => rfl) nofun
  cases hcheck : db.checkTxActionInChain header.mc .transferPayment with
  | error e => exact .of_error (fun _ => rfl) (checkTxActionInChain_ne e hcheck)
  | ok =>
    refine (transitionDb_draws env vm header .transferPayment tx tx.gas 0 db).bind (fun o => (0,
      .ok (createReceipt .zero header o.db .transferPayment o.output o.failed tx.gas o.gasUsed none)))
      (fun p => ?_) fun o taken ho => ⟨Nat.zero_le _, nofun, ?_⟩
    · rcases transitionDb env vm header .transferPayment tx tx.gas 0 db p with ⟨p', e | o⟩ <;> rfl
    · rintro _ ⟨⟩
      exact ho

theorem applyFreeze_draws (env : Env) (header : Header) (tx : Transaction) (db : StateDB) :
    Draws .gasLimitReached (tx.gas + freeGasAt env header tx)
      (fun r taken => taken = tx.gas + freeGasAt env header tx ∧
        r.1.gasUsed = stepGas env .contractFreeze tx ∧ r.1.gasUsed ≤ taken)
      fun p => (freezePool env header tx db p, applyFreeze env header tx db p) := by
  unfold freezePool applyFreeze
  split_ifs
  · exact .of_error (fun _ => rfl) nofun
  cases hcheck : db.checkTxActionInChain header.mc .contractFreeze with
  | error e => exact .of_error (fun _ => rfl) (checkTxActionInChain_ne e hcheck)
  | ok =>
    let db' := db.setTxActionStateInChain header.mc .contractFreeze
    let paid := db'.subBalance tx.sender (tx.gas * tx.gasPrice + tx.amount)
    refine (preApplyMessage_draws env db' .contractFreeze tx tx.gas (freeGasAt env header tx)).bind
      (fun b => (0,
        if !db'.canTransfer tx.sender (tx.gas * tx.gasPrice + tx.amount) then
          .error .insufficientBalance
        else .ok (createReceipt .zero header (paid.setNonce tx.sender (paid.getNonce tx.sender + 1))
          .contractFreeze [] false tx.gas (b.1.gas - b.2) none)))
      (fun p => ?_) fun b taken hb => ⟨Nat.zero_le _, ?_⟩
    · rcases hpre : preApplyMessage env db' .contractFreeze tx tx.gas (freeGasAt env header tx) p with
        ⟨p', e | ⟨bought, left⟩⟩
      · simp only [db', hpre] at *
        rfl
      · simp only [db', hpre] at *
        rfl
    · obtain ⟨hgas, -, -, hleft, rfl⟩ := hb
      split_ifs
      · exact ⟨nofun, nofun⟩
      refine ⟨nofun, ?_⟩
      rintro _ ⟨⟩
      have hused : b.1.gas - b.2 = stepGas env .contractFreeze tx := by omega
      exact ⟨hgas, hused, Nat.sub_le _ _⟩

theorem freeGasAt_newHeader_le (hdeploys : deploys env header tx = true) :
    freeGasAt env (newHeader env header db) tx ≤ freeGasAt env header tx := by
  have hmc : header.mc = env.scAccount := by
    simp only [deploys, Bool.and_eq_true, decide_eq_true_eq] at hdeploys
    exact hdeploys.2
  rw [freeGasAt, freeGasAt, if_pos hmc]
  split_ifs
  · exact Nat.le_refl _
  · exact Nat.zero_le _

/-- What the attempt and the deal after it take out of the pool. -/
theorem applyToContractAt_drains (env : Env) (vm : Machine) (header : Header) (tx : Transaction)
    (gasRemaining : Nat) (currAction : TxAction) (source : UnitID) (db : StateDB) :
    Drains .gasLimitReached (fun p => deploys env header tx = true →
        AttemptSettles env vm header tx gasRemaining currAction source db p)
      (dealGasRequired env header tx gasRemaining) (fun r => r.1.gasUsed) fun p =>
        (dealPoolAt env vm header tx gasRemaining currAction source db p,
          applyToContractAt env vm header tx gasRemaining currAction source db p) := by
  unfold dealPoolAt applyToContractAt dealGasRequired
  cases hidle : checkIdle env currAction header.mc tx gasRemaining with
  | error e =>
    exact .of_error (fun _ => rfl) (fun h => checkIdle_ne (hidle.trans (congrArg _ h)))
  | ok =>
  dsimp only [bind, Except.bind]
  rw [← deploys]
  split_ifs with hdeploys hover
  · exact .of_error (fun _ => rfl) nofun
  · simp only [AttemptSettles, hdeploys, true_imp_iff]
    have hcreate := tryCreate_draws env vm header tx gasRemaining currAction source db
      (safeMul gasRemaining tx.gasPrice).1
    have hfree := @freeGasAt_newHeader_le env header tx db hdeploys
    generalize tryCreate env vm header tx gasRemaining currAction source db
      (safeMul gasRemaining tx.gasPrice).1 = attempt at hcreate
    refine ⟨fun p => ?_, fun p hexact hlimit => ?_, fun p r h => ?_⟩
    · dsimp only
      rcases htry : attempt p with ⟨pool, e | r⟩
      · have hle := (hcreate.le htry).1
        dsimp only
        split_ifs <;> omega
      · have hle := (hcreate.le htry).1
        dsimp only
        split_ifs
        · exact hle
        · exact ((executeDeal_draws ..).le rfl).1.trans hle
    · rcases htry : attempt p with ⟨pool, e | r⟩
      · simp only [htry] at hexact hlimit
        rcases eq_or_ne e .gasLimitReached with rfl | hne
        · have := hcreate.lt (congrArg Prod.snd htry)
          omega
        · -- nothing was taken, so nothing is short
          rw [if_neg hne, hexact.resolve_left hne, forceSafeSub, Nat.sub_self,
            if_neg (Nat.not_lt_zero _)] at hlimit
          cases hlimit
      · obtain ⟨_, hpool, hbound, rfl⟩ := hcreate.spends (congrArg Prod.snd htry)
        simp only [htry] at hlimit hpool
        split at hlimit
        · cases hlimit
        · have := (executeDeal_draws ..).lt hlimit
          rw [forceSafeSub] at this
          omega
    rcases htry : attempt p with ⟨pool, res⟩
    have hle := (hcreate.le htry).1
    have hlimit : res ≠ .error .gasLimitReached := by
      rintro rfl
      simp only [htry] at h
      cases h
    have hadd : ∀ k, attempt (p + k) = (pool + k, res) := fun k => by
      rw [hcreate.add k (by rw [htry]; exact hlimit), htry]
    simp only [htry, hadd] at h ⊢
    cases res with
    | error e =>
      dsimp only at h ⊢
      split at h
      · cases h
      rename_i hne
      split at h
      · cases h
      rename_i hshort
      cases h
      have hdiff : ∀ k, forceSafeSub (p + k) (pool + k) = forceSafeSub p pool := fun k => by
        rw [forceSafeSub, forceSafeSub]
        omega
      have hused : pool - (p - pool) + (p - pool) = pool := Nat.sub_add_cancel (Nat.le_of_not_lt hshort)
      simp only [if_neg hne, if_neg hshort, hdiff]
      refine ⟨hused.trans_le hle, ?_, fun k => ?_⟩
      · rw [or_iff_right hne]
        exact Eq.congr_left hused
      · rw [if_neg (by omega), if_neg (by omega), Nat.sub_add_comm (Nat.le_of_not_lt hshort)]
    | ok r' =>
      obtain ⟨_, hpool, -, rfl⟩ := hcreate.spends (congrArg Prod.snd htry)
      rw [htry] at hpool
      dsimp only at h hpool ⊢
      split at h
      · rename_i hfailed
        cases h
        simp only [if_pos hfailed]
        exact ⟨hpool.le, iff_of_true hpool (.inl hfailed), fun _ => trivial⟩
      · rename_i hfailed
        obtain ⟨used, hmain, -, hused⟩ := (executeDeal_draws ..).spends h
        simp only [if_neg hfailed, h]
        refine ⟨?_, ?_, fun k => ?_⟩
        · split at hused <;> omega
        · cases hdeal : r.1.failed with
          | true =>
            refine iff_of_true (by rw [hdeal, if_pos rfl] at hused; omega) (.inr (.inr ?_))
            rintro _ ⟨⟩
            exact hdeal
          | false =>
            rw [hdeal] at hused
            simp only [hfailed, Except.ok.injEq, forall_eq', hdeal]
            simp at hused ⊢
            omega
        · rw [(executeDeal_draws ..).add k (by rw [h]; nofun), h]
  · rw [Nat.one_mul]
    refine (executeDeal_draws ..).drains fun r taken h => ?_
    rw [ite_self] at h
    exact ⟨h.le, fun _ => iff_of_true h fun h => absurd h hdeploys⟩

theorem applyToContract_drains (env : Env) (vm : Machine) (dag : Dag) (header : Header)
    (tx : Transaction) (exec : TransactionExec) (db : StateDB) :
    Drains .gasLimitReached (DealSettles env vm dag header tx exec db)
      (match dealGasRemaining dag tx exec with
        | .error _ => 0
        | .ok gasRemaining => dealGasRequired env header tx gasRemaining)
      (fun r => r.1.gasUsed) fun p => (dealPool env vm dag header tx exec db p,
        applyToContract env vm dag header tx exec db p) := by
  unfold dealPool applyToContract DealSettles
  split_ifs
  · exact .of_error (fun _ => rfl) nofun
  cases hcheck : db.checkTxActionInChain header.mc .contractDeal with
  | error e => exact .of_error (fun _ => rfl) (checkTxActionInChain_ne e hcheck)
  | ok =>
  cases hgas : dealGasRemaining dag tx exec with
  | error e => exact .of_error (fun _ => rfl) (fun h => dealGasRemaining_ne (hgas.trans (congrArg _ h)))
  | ok gasRemaining =>
    simp only [Except.ok.injEq, forall_eq']
    exact applyToContractAt_drains ..

theorem applyReceive_ne : applyReceive env dag header tx exec db ≠ .error .gasLimitReached := by
  unfold applyReceive
  split_ifs
  · nofun
  · nofun
  · refine bind_ne_error checkTxActionInChain_ne fun _ =>
      bind_ne_error getTxReceiptAtUnit_ne fun info => ?_
    split_ifs <;> nofun

theorem actionContractReceipt_ne :
    actionContractReceipt dag header exec db ≠ .error .gasLimitReached := by
  refine bind_ne_error getTxReceiptAtUnit_ne fun info => ?_
  split_ifs
  · nofun
  · nofun
  · exact bind_ne_error checkTxActionInChain_ne fun _ => nofun
  · exact bind_ne_error checkTxActionInChain_ne fun _ => nofun

theorem applyRefund_ne : applyRefund dag header tx exec db ≠ .error .gasLimitReached := by
  unfold applyRefund
  split_ifs
  · nofun
  · exact bind_ne_error checkTxActionInChain_ne fun _ =>
      bind_ne_error getTxReceiptAtUnit_ne fun info => nofun

theorem applyAction_drains (env : Env) (vm : Machine) (dag : Dag) (header : Header)
    (tx : Transaction) (exec : TransactionExec) (db : StateDB) :
    Drains .gasLimitReached (Settles env vm dag header tx exec db)
      (requiredGas env dag header tx exec) (fun r => r.1.gasUsed) fun p =>
        (applyPool env vm dag header tx exec db p, applyAction env vm dag header tx exec db p) := by
  have hcredit : ∀ p r, exec.action.isCredit = true →
      applyAction env vm dag header tx exec db p = .ok r → r.1.gasUsed = 0 := by
    intro p r hcredit h
    obtain ⟨_, -, hcredits, -⟩ := applyAction_credit hcredit h
    exact hcredits.gasUsed
  unfold Settles requiredGas applyPool
  unfold applyAction at hcredit ⊢
  cases haction : exec.action with
  | transferPayment =>
    exact (applyPayment_draws ..).drains fun r taken h => ⟨h.le, fun _ => iff_of_true h trivial⟩
  | contractFreeze =>
    refine (applyFreeze_draws ..).drains fun r taken h => ⟨h.2.2, fun _ => ?_⟩
    rw [h.1, h.2.1]
    exact eq_comm
  | contractDeal | powTxContractDeal | scIdleContractDeal => exact applyToContract_drains ..
  | transferReceipt =>
    rw [haction] at hcredit
    exact .of_pure applyReceive_ne (fun r h => ⟨hcredit 0 r rfl h, fun _ => trivial⟩) fun _ => rfl
  | contractReceipt =>
    rw [haction] at hcredit
    exact .of_pure actionContractReceipt_ne (fun r h => ⟨hcredit 0 r rfl h, fun _ => trivial⟩) fun _ => rfl
  | contractRefund =>
    rw [haction] at hcredit
    exact .of_pure applyRefund_ne (fun r h => ⟨hcredit 0 r rfl h, fun _ => trivial⟩) fun _ => rfl

theorem processTransaction_drains (env : Env) (vm : Machine) (stopped : Address → Nat) (dag : Dag)
    (header : Header) (tx : Transaction) (exec : TransactionExec) (db : StateDB) :
    Drains .gasLimitReached (Settles env vm dag header tx exec db)
      (requiredGas env dag header tx exec) (fun r => r.1.gasUsed) fun p =>
        (processPool env vm stopped dag header tx exec db p,
          processTransaction env vm stopped dag header tx exec db p) := by
  unfold processPool processTransaction
  cases hquery : dag.queryOriginTx exec with
  | error e =>
    refine .of_error (fun _ => rfl) ?_
    unfold Dag.queryOriginTx at hquery
    split at hquery <;> cases hquery
    nofun
  | ok =>
  dsimp only [bind, Except.bind]
  split_ifs
  · exact applyAction_drains ..
  cases hrunning : checkChainIsStopped env stopped exec.preStep.chainID exec.preStep.height with
  | error e =>
    refine .of_error (fun _ => rfl) ?_
    unfold checkChainIsStopped at hrunning
    split_ifs at hrunning <;> cases hrunning
    nofun
  | ok => exact applyAction_drains ..

theorem processPool_eq
    (hquery : dag.queryOriginTx exec = .ok ()) (hrunning : exec.preStep.chainID.empty = true ∨
      checkChainIsStopped env stopped exec.preStep.chainID exec.preStep.height = .ok ()) :
    processPool env vm stopped dag header tx exec db gasPool =
      applyPool env vm dag header tx exec db gasPool := by
  unfold processPool
  rw [hquery]
  dsimp only
  split
  · rfl
  · rename_i hempty
    rw [hrunning.resolve_left hempty]

end Step

end Nerthus.Core
