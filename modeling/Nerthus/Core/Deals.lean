import Nerthus.Core.Balances
import Nerthus.Lib.Draws

/-!
# What a deal moves

A deal starts with what was frozen on the account of the sender. The fee and the gas
that is left are no more than the gas that came in, and what goes out in coin flows is
no more than the value and what the contracts of the chain lost.
-/

namespace Nerthus.Core

open Lib (Ledger Draws)
open Nat

theorem mul_add_sub_mul_le {used g price : Nat} (h : used * price ≤ g * price) :
    used * price + (g - used) * price ≤ g * price := by
  by_cases hle : used ≤ g
  · rw [← Nat.add_mul, Nat.add_sub_cancel' hle]
  · have hzero : g - used = 0 := by omega
    rw [hzero, Nat.zero_mul, Nat.add_zero]
    exact h

section Gas

variable {env : Env} {db : StateDB} {sender : Address} {action : TxAction} {tx : Transaction}
  {gas price free gasPool left : Nat} {bought : Bought}

theorem chargedCost_eq (h : price = 0 ∨ free = 0) (hover : (safeMul gas price).2 = false) :
    chargedCost (safeMul gas price).1 free price = gas * price := by
  rw [safeMul_eq hover]
  rcases h with rfl | rfl
  · simp [chargedCost, uint64]
  · simp [chargedCost]

/-- What a message buys, and the gas that it has left. -/
def Buys (env : Env) (db : StateDB) (action : TxAction) (tx : Transaction) (gas free : Nat)
    (b : Bought × Nat) (taken : Nat) : Prop :=
  b.1.gas = gas + free ∧ b.1.cost ≤ db.getBalance tx.sender ∧
    (tx.gasPrice = 0 ∨ free = 0 → b.1.cost = gas * tx.gasPrice) ∧
    b.2 + stepGas env action tx = b.1.gas ∧ b.1.gas = taken

theorem preApplyMessage_eq (env : Env) (db : StateDB) (action : TxAction) (tx : Transaction)
    (gas free p : Nat) : preApplyMessage env db action tx gas free p =
      match buyGas db tx.sender gas tx.gasPrice free p with
      | .error e => (p, .error e)
      | .ok bought =>
        if bought.gas < stepGas env action tx then (p - bought.gas, .error .outOfGas)
        else (p - bought.gas, .ok (bought, bought.gas - stepGas env action tx)) := rfl

theorem preApplyMessage_draws (env : Env) (db : StateDB) (action : TxAction) (tx : Transaction)
    (gas free : Nat) : Draws .gasLimitReached (gas + free) (Buys env db action tx gas free)
      (preApplyMessage env db action tx gas free) := by
  have hfail : ∀ e : Err, (∀ p, buyGas db tx.sender gas tx.gasPrice free p = .error e) →
      e ≠ .gasLimitReached → Draws .gasLimitReached (gas + free) (Buys env db action tx gas free)
        (preApplyMessage env db action tx gas free) := fun e h hne =>
    .of_error (fun p => by rw [preApplyMessage_eq, h]) hne
  by_cases hover : (safeMul gas tx.gasPrice).2 = true
  · exact hfail _ (fun _ => if_pos hover) (by rintro ⟨⟩)
  by_cases hbalance : db.getBalance tx.sender <
      chargedCost (safeMul gas tx.gasPrice).1 free tx.gasPrice
  · exact hfail _ (fun _ => (if_neg hover).trans (if_pos hbalance)) (by rintro ⟨⟩)
  let bought : Bought := ⟨gas + free, chargedCost (safeMul gas tx.gasPrice).1 free tx.gasPrice⟩
  have hbuy : ∀ p, buyGas db tx.sender gas tx.gasPrice free p =
      if p < gas + free then .error .gasLimitReached else .ok bought := fun p => by
    rw [buyGas, if_neg hover, if_neg hbalance]
  by_cases hstep : gas + free < stepGas env action tx
  · refine ⟨gas + free, gas + free, .error .outOfGas, le_rfl, le_rfl, by rintro ⟨⟩, by rintro _ ⟨⟩,
      fun p => ?_⟩
    rw [preApplyMessage_eq, hbuy]
    split_ifs
    · rfl
    · exact if_pos hstep
  · refine ⟨gas + free, gas + free, .ok (bought, gas + free - stepGas env action tx), le_rfl, le_rfl,
      by rintro ⟨⟩, ?_, fun p => ?_⟩
    · rintro _ ⟨⟩
      exact ⟨rfl, Nat.le_of_not_lt hbalance, fun hfree => chargedCost_eq hfree (by simpa using hover),
        Nat.sub_add_cancel (Nat.le_of_not_lt hstep), rfl⟩
    · rw [preApplyMessage_eq, hbuy]
      split_ifs
      · rfl
      · exact if_neg hstep

theorem compensatedGas_le {initialGas refund : Nat} (h : gas ≤ initialGas) :
    compensatedGas initialGas gas refund ≤ initialGas := by
  unfold compensatedGas
  omega

theorem calcRefundValue_add (h : price = 0 ∨ free = 0) {g : Nat} (hg : g ≤ gas + free) :
    calcRefundValue (gas + free) g free price + (gas + free - g) * price = gas * price := by
  rcases h with rfl | rfl
  · simp [calcRefundValue]
  rw [Nat.add_zero] at hg ⊢
  unfold calcRefundValue
  split
  · have hzero : gas - g = 0 := by omega
    rw [hzero, Nat.zero_mul, Nat.sub_zero, Nat.add_zero]
  · have hleft : gas - 0 - (gas - g - 0) = g := by omega
    rw [hleft, ← Nat.add_mul, Nat.add_sub_cancel' hg]

end Gas

/-! ## The execution of a message -/

section Message

variable {env : Env} {vm : Machine} {header : Header} {action : TxAction} {tx : Transaction}
  {gas free gasPool gasPool' : Nat} {db : StateDB} {o : Outcome}

@[simp] theorem payOutput_accounts (r : VmResult) : (payOutput r).accounts = r.accounts := by
  unfold payOutput
  split
  · split <;> rfl
  · rfl

theorem payOutput_gas_le (r : VmResult) : (payOutput r).gas ≤ r.gas := by
  unfold payOutput
  split
  · split
    · exact le_refl _
    · exact sub_le _ _
  · exact le_refl _

@[simp] theorem getBalance_messageState_self (cost : Nat) :
    (messageState env header action tx db cost).getBalance tx.sender =
      db.getBalance tx.sender - cost := by
  unfold messageState
  split <;> simp

@[simp] theorem getBalance_messageState_of_ne {a : Address} (h : a ≠ tx.sender) (cost : Nat) :
    (messageState env header action tx db cost).getBalance a = db.getBalance a := by
  unfold messageState
  split <;> simp [h]

@[simp] theorem initOf_messageState (cost : Nat) (a : Address) :
    (messageState env header action tx db cost).initOf a = db.initOf a := by
  unfold messageState
  split
  · exact StateDB.initOf_setBalance _ _ _ _
  · rw [StateDB.initOf_setNonce]
    exact StateDB.initOf_setBalance _ _ _ _

@[simp] theorem marks_messageState (cost : Nat) :
    (messageState env header action tx db cost).marks = (header.mc, action) :: db.marks := by
  unfold messageState
  split <;> rfl

theorem transitionDb_eq_ok
    (h : transitionDb env vm header action tx gas free db gasPool = (gasPool', .ok o)) :
    ∃ bought left r pool,
      (preApplyMessage env db action tx gas free gasPool).2 = .ok (bought, left) ∧
      execute env vm header tx (messageState env header action tx db bought.cost) left = .ok r ∧
      o = (refundGas (messageState env header action tx db bought.cost) tx free bought
        (payOutput r) pool).2 := by
  unfold transitionDb at h
  split at h
  · cases h
  rename_i pool bought left hpre
  dsimp only at h
  split at h
  · cases h
  rename_i r hrun
  split at h
  · cases h
  · cases h
    exact ⟨bought, left, r, pool, by rw [hpre], hrun, rfl⟩

theorem execute_spec {r : Except Err VmResult} (h : execute env vm header tx db gas = r) :
    r ≠ .error .gasLimitReached ∧ ∀ x, r = .ok x → x.gas ≤ gas := by
  subst h
  unfold execute
  split_ifs
  · exact ⟨nofun, fun x hx => Except.ok.inj hx ▸ vm.gas_le _ _⟩
  · exact ⟨nofun, fun x hx => Except.ok.inj hx ▸ vm.gas_le _ _⟩
  · exact ⟨nofun, fun x hx => Except.ok.inj hx ▸ vm.gas_le _ _⟩
  · exact ⟨nofun, fun x hx => Except.ok.inj hx ▸ le_refl gas⟩
  · exact ⟨nofun, nofun⟩

/-- What a transition does with the gas it has bought: the gas that goes back, and the outcome. -/
def settleMessage (env : Env) (vm : Machine) (header : Header) (action : TxAction) (tx : Transaction)
    (free : Nat) (db : StateDB) (b : Bought × Nat) : Nat × Except Err Outcome :=
  match execute env vm header tx (messageState env header action tx db b.1.cost) b.2 with
  | .error e => (0, .error e)
  | .ok r =>
    if (payOutput r).err = some .insufficientBalance then (0, .error .insufficientBalance)
    else (compensatedGas b.1.gas (payOutput r).gas (payOutput r).refund,
      .ok (refundGas (messageState env header action tx db b.1.cost) tx free b.1 (payOutput r) 0).2)

theorem transitionDb_draws (env : Env) (vm : Machine) (header : Header) (action : TxAction)
    (tx : Transaction) (gas free : Nat) (db : StateDB) :
    Draws .gasLimitReached (gas + free) (fun o taken => o.gasUsed = taken)
      (transitionDb env vm header action tx gas free db) := by
  refine (preApplyMessage_draws env db action tx gas free).bind
    (settleMessage env vm header action tx free db) (fun p => ?_) fun b taken hb => ?_
  · unfold transitionDb settleMessage
    rcases preApplyMessage env db action tx gas free p with ⟨p', e | ⟨bought, left⟩⟩
    · rfl
    dsimp only
    rcases execute env vm header tx (messageState env header action tx db bought.cost) left with e | r
    · rfl
    · dsimp only
      split_ifs <;> rfl
  · obtain ⟨-, -, -, hleft, rfl⟩ := hb
    unfold settleMessage
    cases hrun : execute env vm header tx (messageState env header action tx db b.1.cost) b.2 with
    | error e =>
      refine ⟨zero_le _, fun h => (execute_spec hrun).1 ?_, by rintro _ ⟨⟩⟩
      exact congrArg _ (Except.error.inj h)
    | ok r =>
      dsimp only
      split
      · exact ⟨zero_le _, by rintro ⟨⟩, by rintro _ ⟨⟩⟩
      have hgas : (payOutput r).gas ≤ b.1.gas := by
        have hpay := payOutput_gas_le r
        have hvm := (execute_spec hrun).2 r rfl
        omega
      refine ⟨compensatedGas_le hgas, by rintro ⟨⟩, ?_⟩
      rintro _ ⟨⟩
      rfl

theorem execute_contract (env : Env) (vm : Machine) (header : Header)
    (hrec : tx.recipient.isContract = true) (db : StateDB) (gas : Nat) :
    ∃ c, execute env vm header tx db gas = .ok (vm.run c db.accounts) ∧ c.caller = tx.sender ∧
      c.gas = gas ∧ c.value ≤ tx.amount := by
  unfold execute
  split
  · split
    · exact ⟨_, rfl, rfl, rfl, zero_le _⟩
    · exact ⟨_, rfl, rfl, rfl, le_refl _⟩
  · exact ⟨_, rfl, rfl, rfl, le_refl _⟩

section RefundGas

variable {bought : Bought} {r : VmResult} {pool : Nat}

theorem getBalance_refundGas_of_ne {a : Address} (h : a ≠ tx.sender) :
    (refundGas db tx free bought r pool).2.db.getBalance a = r.accounts.share balanceOf a :=
  StateDB.getBalance_addBalance_of_ne h _

theorem refundValue_add_gasUsed (hfree : tx.gasPrice = 0 ∨ free = 0)
    (hbought : bought.gas = gas + free) (hr : r.gas ≤ gas + free) :
    calcRefundValue bought.gas (compensatedGas bought.gas r.gas r.refund) free tx.gasPrice +
        (refundGas db tx free bought r pool).2.gasUsed * tx.gasPrice = gas * tx.gasPrice := by
  change _ + (bought.gas - compensatedGas bought.gas r.gas r.refund) * tx.gasPrice = _
  rw [hbought]
  exact calcRefundValue_add hfree (compensatedGas_le hr)

theorem getBalance_refundGas_sender (hfree : tx.gasPrice = 0 ∨ free = 0)
    (hbought : bought.gas = gas + free) (hr : r.gas ≤ gas + free) :
    (refundGas db tx free bought r pool).2.db.getBalance tx.sender +
        (refundGas db tx free bought r pool).2.gasUsed * tx.gasPrice =
      r.accounts.share balanceOf tx.sender + gas * tx.gasPrice := by
  have hbalance : (refundGas db tx free bought r pool).2.db.getBalance tx.sender =
      r.accounts.share balanceOf tx.sender + calcRefundValue bought.gas
        (compensatedGas bought.gas r.gas r.refund) free tx.gasPrice :=
    StateDB.getBalance_addBalance_self _ _ _
  rw [hbalance, add_assoc, refundValue_add_gasUsed hfree hbought hr]

theorem initOf_refundGas (a : Address) :
    (refundGas db tx free bought r pool).2.db.initOf a = r.accounts.share initBalanceOf a :=
  StateDB.initOf_setBalance _ _ _ _

theorem marks_refundGas : (refundGas db tx free bought r pool).2.db.marks = db.marks := rfl

end RefundGas

/-- The state after the execution of a contract: what was paid for gas comes back but for the
fee. -/
structure Executed (header : Header) (action : TxAction) (tx : Transaction) (gas : Nat)
    (db : StateDB) (o : Outcome) (acc₀ acc : Accounts) : Prop where
  start : ∀ a, a ≠ tx.sender → acc₀.share balanceOf a = db.getBalance a
  start_sender : acc₀.share balanceOf tx.sender + gas * tx.gasPrice = db.getBalance tx.sender
  balance : ∀ a, a ≠ tx.sender → o.db.getBalance a = acc.share balanceOf a
  balance_sender : o.db.getBalance tx.sender + o.gasUsed * tx.gasPrice =
    acc.share balanceOf tx.sender + gas * tx.gasPrice
  initOf : ∀ a, a.isContract = false → o.db.initOf a = db.initOf a
  conserves : acc.worth balanceOf = acc₀.worth balanceOf
  keeps : ∀ a, a.isContract = false → a ≠ tx.sender →
    acc₀.share balanceOf a ≤ acc.share balanceOf a
  pays : acc₀.share balanceOf tx.sender ≤ acc.share balanceOf tx.sender + tx.amount
  marks : o.db.marks = (header.mc, action) :: db.marks

theorem executed_of_transitionDb (hrec : tx.recipient.isContract = true)
    (hfree : tx.gasPrice = 0 ∨ free = 0)
    (h : transitionDb env vm header action tx gas free db gasPool = (gasPool', .ok o)) :
    ∃ acc₀ acc, Executed header action tx gas db o acc₀ acc := by
  obtain ⟨bought, left, r, pool, hpre, hrun, rfl⟩ := transitionDb_eq_ok h
  obtain ⟨-, -, -, hgas, hcost, hcosteq, hleft, -⟩ := (preApplyMessage_draws ..).spends hpre
  obtain ⟨c, hc, hcaller, hcgas, hvalue⟩ := execute_contract env vm header hrec
    (messageState env header action tx db bought.cost) left
  rw [hc] at hrun
  cases hrun
  have hexternal : c.caller.isContract = false := by
    rw [hcaller]
    exact tx.sender_external
  rw [hcosteq hfree] at hcost ⊢
  generalize hdb₁ : messageState env header action tx db (gas * tx.gasPrice) = db₁
  have hgasle : (payOutput (vm.run c db₁.accounts)).gas ≤ gas + free := by
    have hpay := payOutput_gas_le (vm.run c db₁.accounts)
    have hvm := vm.gas_le c db₁.accounts
    omega
  have hsender : db₁.getBalance tx.sender = db.getBalance tx.sender - gas * tx.gasPrice := by
    rw [← hdb₁, getBalance_messageState_self]
  refine ⟨db₁.accounts, (vm.run c db₁.accounts).accounts, ?_, ?_, ?_, ?_, ?_, ?_, ?_, ?_, ?_⟩
  · intro a ha
    rw [← hdb₁]
    exact getBalance_messageState_of_ne ha _
  · change db₁.getBalance tx.sender + gas * tx.gasPrice = db.getBalance tx.sender
    omega
  · intro a ha
    rw [getBalance_refundGas_of_ne ha, payOutput_accounts]
  · rw [getBalance_refundGas_sender hfree hgas hgasle, payOutput_accounts]
  · intro a ha
    rw [initOf_refundGas, payOutput_accounts, vm.init_eq c db₁.accounts a ha, ← hdb₁]
    exact initOf_messageState _ a
  · exact vm.conserves c db₁.accounts
  · intro a ha hne
    exact vm.keeps c db₁.accounts a ha (hcaller ▸ hne)
  · have hpays := vm.pays c db₁.accounts hexternal
    rw [hcaller] at hpays
    omega
  · rw [marks_refundGas, ← hdb₁, marks_messageState]

end Message

end Nerthus.Core
