import Nerthus.Chain.Lines
import Nerthus.Lib.Fuel

/-!
# Writing and clearing units

`insertUnit`, `writeRightUnit` and `clearUnit` by several callers at once. Each section under the
lock of a chain is one step. The cached tail is refreshed after the lock is given back, and the
body may be written later.
-/

namespace Nerthus.Chain

open Lib (bind_eq_ok_iff guard_eq_ok_iff)
open Function Node List

inductive VerifyErr where
  | knownBlock
  | unknownAncestor
  | invalidMCAccount
  | invalidNumber
  | invalidSCHash
  | invalidSeal
  | multipleLawfulUnits
  | historyNumber
  | nilPointer
deriving DecidableEq

namespace Node

variable (env : Env) (s : Node)

def dishonestCheck (u : DagUnit) : Except VerifyErr Unit :=
  let h := s.db.getStableHash env u.mc u.number
  if h.emptyHash ∨ h = u.hash then .ok () else .error .multipleLawfulUnits

def checkArbitrationNumber (u : DagUnit) : Except VerifyErr Unit :=
  match s.getChainTailHead env u.mc with
  | none => .error .nilPointer
  | some tail => if u.number < tail.number then .error .historyNumber else .ok ()

def verifyHeader (u : DagUnit) : Except VerifyErr Unit := do
  if (s.db.header u.hash).isSome then throw .knownBlock
  match s.db.header u.header.parentHash with
  | none => throw .unknownAncestor
  | some parent =>
    if u.number ≠ 1 ∧ u.mc ≠ parent.mc then throw .invalidMCAccount
    if u.number ≠ parent.number + 1 then throw .invalidNumber
    if u.mc = env.scAccount ∧ u.header.scHash ≠ u.header.parentHash then throw .invalidSCHash
    if u.mc ≠ env.scAccount ∧ (s.db.header u.header.scHash).isNone then throw .unknownAncestor
    if env.wellSealed u = false then throw .invalidSeal
    if u.header.proposer = env.publicPrivateKeyAddr then s.checkArbitrationNumber env u
    else s.dishonestCheck env u

/-- What `writeRightUnit` does under the lock when the unit is not in the store. -/
def writeRightUnit (u : DagUnit) : Node :=
  if env.enableAsyncWriteBody then
    { s with db := s.db.writeHead env u, pendingUnits := u :: s.pendingUnits }
  else { s with db := (s.db.writeHead env u).writeUnitBody u }

end Node

/-- A node with units that are verified, and units that are written while the cached tail is not
refreshed. -/
structure System where
  node : Node
  verified : List DagUnit
  unrefreshed : List DagUnit

inductive Step where
  | verify (u : DagUnit)
  | write (u : DagUnit)
  | refresh (u : DagUnit)
  | store (u : DagUnit)
  /-- The unit of a header that was read before is removed. -/
  | remove (header : Header)
  /-- `GetChainTailInfo` fills the cache. -/
  | read (chain : Address)
  | evict (chain : Address)
deriving DecidableEq

namespace System

variable (env : Env)

def start : System := ⟨⟨Db.genesis env, fun _ => none, []⟩, [], []⟩

def verify (s : System) (u : DagUnit) : System :=
  match s.node.verifyHeader env u with
  | .ok () => { s with verified := u :: s.verified }
  | .error _ => s

def write (s : System) (u : DagUnit) : System :=
  if u ∈ s.verified ∧ (s.node.db.header u.hash).isNone then
    { s with node := s.node.writeRightUnit env u, unrefreshed := u :: s.unrefreshed }
  else s

/-- `updateChainTailInfo`. -/
def refresh (s : System) (u : DagUnit) : System :=
  if u ∈ s.unrefreshed then
    { s with
      node := { s.node with
        chainTailCache := update s.node.chainTailCache u.mc (some u.hash) }
      unrefreshed := s.unrefreshed.erase u }
  else s

/-- `writeUnitData`. -/
def store (s : System) (u : DagUnit) : System :=
  if u ∈ s.node.pendingUnits then
    { s with
      node := { s.node with
        db := s.node.db.writeUnitBody u
        pendingUnits := s.node.pendingUnits.filter fun v => v.hash ≠ u.hash } }
  else s

/-- The end of `clearUnitWithTxs` for one unit. -/
def remove (s : System) (header : Header) : System :=
  if header.number = 0 then s
  else
    match s.node.removeUnit env header true with
    | .ok r => { s with node := r.1 }
    | .error _ => s

def read (s : System) (chain : Address) : System :=
  match s.node.chainTailCache chain, s.node.getUnit env (s.node.storedTail env chain) with
  | none, .ok (some _) =>
    { s with
      node := { s.node with
        chainTailCache := update s.node.chainTailCache chain
          (some (s.node.storedTail env chain)) } }
  | _, _ => s

def evict (s : System) (chain : Address) : System :=
  { s with
    node := { s.node with chainTailCache := update s.node.chainTailCache chain none } }

end System

namespace Step

variable (env : Env)

def after (s : System) : Step → System
  | verify u => s.verify env u
  | write u => s.write env u
  | refresh u => s.refresh u
  | store u => s.store u
  | remove header => s.remove env header
  | read chain => s.read env chain
  | evict chain => s.evict chain

def run (steps : List Step) : System := steps.foldl (after env) (.start env)

/-- A unit is written when it would still be accepted and its height is free, the tail is refreshed
by the tail, and only tails are removed. -/
def Orderly (s : System) : Step → Prop
  | write u => s.node.verifyHeader env u = .ok () ∧ s.node.db.stableHash u.mc u.number = .zero
  | refresh u => s.node.db.tailHash u.mc = u.hash
  | remove header =>
    s.node.db.header header.hash = some header ∧ s.node.db.tailHash header.mc = header.hash
  | _ => True

instance (s : System) : (step : Step) → Decidable (Orderly env s step)
  | verify _ | store _ | read _ | evict _ => inferInstanceAs (Decidable True)
  | write _ | remove _ => inferInstanceAs (Decidable (_ ∧ _))
  | refresh _ => inferInstanceAs (Decidable (_ = _))

def OrderlyRun : System → List Step → Prop
  | _, [] => True
  | s, step :: steps => Orderly env s step ∧ OrderlyRun (after env s step) steps

instance decidableOrderlyRun : (s : System) → (steps : List Step) → Decidable (OrderlyRun env s steps)
  | _, [] => inferInstanceAs (Decidable True)
  | s, step :: steps =>
    have := decidableOrderlyRun (after env s step) steps
    inferInstanceAs (Decidable (_ ∧ _))

end Step

variable {u : DagUnit} {header : Header}

section Calls

variable {env : Env}

theorem System.remove_eq {s : System} (hnumber : header.number ≠ 0) {r : Node × List TxExec}
    (hok : s.node.removeUnit env header true = .ok r) :
    s.remove env header = { s with node := r.1 } := by
  rw [remove, if_neg hnumber, hok]

/-- The second node is the first after some steps that remove units. -/
def System.Removes (env : Env) (s : System) (n n' : Node) : Prop :=
  ∃ headers : List Header,
    (headers.map Step.remove).foldl (Step.after env) { s with node := n } = { s with node := n' }

theorem System.Removes.trans {s : System} {n₁ n₂ n₃ : Node} (h₁ : s.Removes env n₁ n₂)
    (h₂ : s.Removes env n₂ n₃) : s.Removes env n₁ n₃ := by
  obtain ⟨first, hfirst⟩ := h₁
  obtain ⟨rest, hrest⟩ := h₂
  refine ⟨first ++ rest, ?_⟩
  rw [map_append, foldl_append, hfirst, hrest]

/-- `clearUnitWithTxs` removes units one after the other. -/
theorem System.clearUnitWithTxs_removes (s : System) {n : Node} {depth : Nat} {hash : Hash}
    {r : Node × List TxExec} (hok : n.clearUnitWithTxs env true depth hash = .ok r) :
    s.Removes env n r.1 := by
  induction depth generalizing n hash r with
  | zero => cases hok
  | succ depth ih =>
    unfold Node.clearUnitWithTxs at hok
    split at hok
    · cases hok
      exact ⟨[], rfl⟩
    split at hok
    · cases hok
      exact ⟨[], rfl⟩
    next header _ hnumber =>
    obtain ⟨cleared, hchildren, hok⟩ := bind_eq_ok_iff.mp hok
    obtain ⟨removed, hremove, hok⟩ := bind_eq_ok_iff.mp hok
    cases hok
    have hlast : s.Removes env cleared.1 removed.1 :=
      ⟨[header], @remove_eq header env { s with node := cleared.1 } hnumber _ hremove⟩
    refine .trans ?_ hlast
    -- the loop over the children
    generalize range' 1 (n.db.children.counts hash) = is at hchildren
    change s.Removes env ((n, []) : Node × List TxExec).1 _
    generalize ((n, []) : Node × List TxExec) = p at hchildren ⊢
    induction is generalizing p with
    | nil =>
      cases hchildren
      exact ⟨[], rfl⟩
    | cons i is ihLoop =>
      obtain ⟨q, hone, hrest⟩ := bind_eq_ok_iff.mp hchildren
      refine .trans ?_ (ihLoop _ hrest)
      dsimp only at hone
      split at hone
      · cases hone
        exact ⟨[], rfl⟩
      · obtain ⟨child, hchild, hone⟩ := bind_eq_ok_iff.mp hone
        cases hone
        exact @ih p.1 _ child hchild

end Calls

/-! ## The invariant -/

theorem Db.writeUnitBody_index (db : Db) (u : DagUnit) :
    (db.writeUnitBody u).header = db.header ∧ (db.writeUnitBody u).stableHash = db.stableHash ∧
      (db.writeUnitBody u).tailHash = db.tailHash := by
  simp [writeUnitBody, deletePendingUnit, writeUnitReceipts, writeBody, writeChildrens, commitState]

theorem Represents.writeUnitBody {env : Env} {db : Db} {line : Address → List Header}
    (h : Represents env db line) (u : DagUnit) : Represents env (db.writeUnitBody u) line := by
  obtain ⟨hheader, hstable, htail⟩ := db.writeUnitBody_index u
  exact h.congr hheader hstable htail

namespace Node

variable {env : Env}

theorem verifyHeader_spec {s : Node} (hok : s.verifyHeader env u = .ok ()) :
    s.db.header u.hash = none ∧
      ∃ parent, s.db.header u.header.parentHash = some parent ∧
        (u.number = 1 ∨ u.mc = parent.mc) ∧ u.number = parent.number + 1 := by
  unfold verifyHeader at hok
  obtain ⟨hnew, hok⟩ := guard_eq_ok_iff.mp hok
  split at hok
  · cases hok
  next parent hparent =>
    simp only [guard_eq_ok_iff] at hok
    obtain ⟨hmc, hnumber, -⟩ := hok
    refine ⟨Option.not_isSome_iff_eq_none.mp hnew, parent, hparent, ?_, not_not.mp hnumber⟩
    by_cases hone : u.number = 1
    · exact .inl hone
    · exact .inr (not_not.mp fun hne => hmc ⟨hone, hne⟩)

theorem writeRightUnit_represents {s : Node} {line : Address → List Header}
    (h : Represents env (s.db.writeHead env u) line) :
    Represents env (s.writeRightUnit env u).db line := by
  unfold writeRightUnit
  split_ifs
  · exact h
  · exact h.writeUnitBody u

theorem writeRightUnit_cache (s : Node) (u : DagUnit) :
    (s.writeRightUnit env u).chainTailCache = s.chainTailCache := by
  unfold writeRightUnit
  split_ifs <;> rfl

theorem writeRightUnit_tailHash (s : Node) (u : DagUnit) :
    (s.writeRightUnit env u).db.tailHash = update s.db.tailHash u.mc u.hash := by
  unfold writeRightUnit
  split_ifs
  · exact Represents.writeHead_tailHash u
  · exact (Db.writeUnitBody_index _ u).2.2.trans (Represents.writeHead_tailHash u)

theorem writeRightUnit_stableHash (s : Node) (u : DagUnit) :
    (s.writeRightUnit env u).db.stableHash =
      update s.db.stableHash u.mc (update (s.db.stableHash u.mc) u.number u.hash) := by
  unfold writeRightUnit
  split_ifs
  · exact Represents.writeHead_stableHash u
  · exact (Db.writeUnitBody_index _ u).2.1.trans (Represents.writeHead_stableHash u)

def HasBody (s : Node) (hash : Hash) : Prop :=
  (s.db.body hash).isSome ∨ hash ∈ s.pendingUnits.map DagUnit.hash

theorem hasBody_writeRightUnit {s : Node} {hash : Hash} (h : s.HasBody hash ∨ hash = u.hash) :
    (s.writeRightUnit env u).HasBody hash := by
  have hbody : (s.db.writeHead env u).body = s.db.body := by
    unfold Db.writeHead
    split_ifs <;> rfl
  unfold writeRightUnit
  split_ifs
  · rcases h with (hstored | hpending) | rfl
    · exact .inl (by rw [hbody]; exact hstored)
    · exact .inr (.tail _ hpending)
    · exact .inr (.head _)
  · rcases h with (hstored | hpending) | rfl
    · refine .inl ?_
      change (update (s.db.writeHead env u).body u.hash (some u.txs) hash).isSome
      rw [hbody, update_apply]
      split_ifs
      · rfl
      · exact hstored
    · exact .inr hpending
    · refine .inl ?_
      change (update (s.db.writeHead env u).body u.hash (some u.txs) u.hash).isSome
      rw [update_self]
      rfl

structure Removed (s : Node) (h : Header) (s' : Node) : Prop where
  header : s'.db.header = ((unlinked s.db h).deleteUnit h.hash).header
  stableHash : s'.db.stableHash = ((unlinked s.db h).deleteUnit h.hash).stableHash
  tailHash : s'.db.tailHash = ((unlinked s.db h).deleteUnit h.hash).tailHash
  body : s'.db.body = update s.db.body h.hash none
  cache : s'.chainTailCache = update s.chainTailCache h.mc none
  pendingUnits : s'.pendingUnits = s.pendingUnits

theorem removeUnit_removed {s : Node} {r : Node × List TxExec}
    (hok : s.removeUnit env header true = .ok r) : Removed s header r.1 := by
  obtain ⟨unit, -, hok⟩ := bind_eq_ok_iff.mp hok
  cases hok
  exact ⟨rfl, rfl, rfl, rfl, rfl, rfl⟩

theorem removeUnit_of_hasBody {s : Node} (hbody : s.HasBody header.hash) :
    ∃ r, s.removeUnit env header true = .ok r := by
  have hunit : ∃ unit, getUnit env { s with db := unlinked s.db header } header.hash = .ok unit := by
    unfold getUnit
    split
    · exact ⟨_, rfl⟩
    next hnone =>
      split_ifs
      · exact ⟨_, rfl⟩
      split
      · exact ⟨_, rfl⟩
      split
      next hmissing =>
        rcases hbody with hstored | hpending
        · change s.db.body header.hash = none at hmissing
          rw [hmissing] at hstored
          cases hstored
        · obtain ⟨u, hu, hhash⟩ := mem_map.mp hpending
          have hne := find?_eq_none.mp hnone u hu
          rw [hhash] at hne
          exact absurd (beq_self_eq_true _) hne
      · exact ⟨_, rfl⟩
  obtain ⟨unit, hunit⟩ := hunit
  exact ⟨_, bind_eq_ok_iff.mpr ⟨unit, hunit, rfl⟩⟩

end Node

namespace System

variable {env : Env}

/-- The store represents lines, every unit on them has its body, and the cached tail is the stored
one unless a writer has yet to refresh it. -/
structure Inv (env : Env) (s : System) (line : Address → List Header) : Prop where
  represents : Represents env s.node.db line
  bodies : ∀ chain, ∀ header ∈ line chain, s.node.HasBody header.hash
  cached : ∀ chain hash, s.node.chainTailCache chain = some hash →
    (∀ u ∈ s.unrefreshed, u.mc ≠ chain) → hash = s.node.storedTail env chain

theorem inv_start : Inv env (start env) fun _ => [] := by
  refine ⟨Represents.genesis, fun chain header h => absurd h not_mem_nil, ?_⟩
  intro chain hash h
  cases h

variable {s : System} {line : Address → List Header}

section

variable (hinv : Inv env s line)
include hinv

theorem Inv.verify (u : DagUnit) : Inv env (s.verify env u) line := by
  unfold System.verify
  split
  · exact ⟨hinv.represents, hinv.bodies, hinv.cached⟩
  · exact hinv

theorem Inv.attaches (horder : (Step.write u).Orderly env s) :
    s.node.db.header u.hash = none ∧ u.number = (line u.mc).length + 1 ∧
      u.header.parentHash = stableAt env (line u.mc) (line u.mc).length := by
  obtain ⟨hverify, hfree⟩ := horder
  obtain ⟨hnew, parent, hparent, hmc, hnumber⟩ := verifyHeader_spec hverify
  exact ⟨hnew, hinv.represents.extends_line hparent hmc hnumber hfree⟩

theorem Inv.write (horder : (Step.write u).Orderly env s) :
    ∃ line', Inv env (s.write env u) line' := by
  unfold System.write
  split_ifs with hready
  · obtain ⟨hnew, hnumber, hparent⟩ := hinv.attaches horder
    refine ⟨update line u.mc (line u.mc ++ [u.header]),
      writeRightUnit_represents (hinv.represents.writeHead hnew hnumber hparent), ?_, ?_⟩
    · intro chain header hmem
      apply hasBody_writeRightUnit
      rw [update_apply] at hmem
      split_ifs at hmem
      · rcases mem_append.mp hmem with hold | hlast
        · exact .inl (hinv.bodies _ header hold)
        · exact .inr (congrArg Header.hash (mem_singleton.mp hlast))
      · exact .inl (hinv.bodies chain header hmem)
    · intro chain hash hcached hidle
      rw [writeRightUnit_cache] at hcached
      have hne : chain ≠ u.mc := (hidle u (.head _)).symm
      rw [hinv.cached chain hash hcached fun v hv => hidle v (.tail _ hv)]
      simp only [storedTail, writeRightUnit_tailHash, update_of_ne hne]
  · exact ⟨line, hinv⟩

theorem Inv.refresh (horder : (Step.refresh u).Orderly env s) :
    Inv env (s.refresh u) line := by
  unfold System.refresh
  split_ifs with hmem
  · refine ⟨hinv.represents, hinv.bodies, fun chain hash hcached hidle => ?_⟩
    change update s.node.chainTailCache u.mc (some u.hash) chain = some hash at hcached
    rw [update_apply] at hcached
    split_ifs at hcached with hchain
    · have hstored : s.node.storedTail env chain = u.hash := by
        have hempty : (s.node.db.tailHash chain).emptyHash = false := by
          rw [hchain, horder]
          exact Hash.emptyHash_eq_false.mpr u.header.hash_ne
        rw [storedTail, hempty, if_neg Bool.false_ne_true, hchain, horder]
      exact (Option.some.inj hcached).symm.trans hstored.symm
    · refine hinv.cached chain hash hcached fun v hv => ?_
      -- a writer of this chain is not the one that has finished
      intro hv'
      have hne : v ≠ u := fun heq => hchain (hv' ▸ heq ▸ rfl)
      exact hidle v ((mem_erase_of_ne hne).mpr hv) hv'
  · exact hinv

theorem Inv.store (u : DagUnit) : Inv env (s.store u) line := by
  unfold System.store
  split_ifs with hmem
  · have htail := (s.node.db.writeUnitBody_index u).2.2
    refine ⟨hinv.represents.writeUnitBody u, fun chain header hheader => ?_,
      fun chain hash h hidle => ?_⟩
    · by_cases hhash : header.hash = u.hash
      · refine .inl ?_
        change (update s.node.db.body u.hash (some u.txs) header.hash).isSome
        rw [hhash, update_self]
        rfl
      · rcases hinv.bodies chain header hheader with hstored | hpending
        · refine .inl ?_
          change (update s.node.db.body u.hash (some u.txs) header.hash).isSome
          rw [update_of_ne hhash]
          exact hstored
        · obtain ⟨v, hv, hvhash⟩ := mem_map.mp hpending
          refine .inr (mem_map.mpr ⟨v, mem_filter.mpr ⟨hv, ?_⟩, hvhash⟩)
          rw [hvhash]
          exact decide_eq_true hhash
    · rw [hinv.cached chain hash h hidle, storedTail, storedTail, htail]
  · exact hinv

theorem Inv.remove (horder : (Step.remove header).Orderly env s) :
    ∃ line', Inv env (s.remove env header) line' := by
  obtain ⟨hheader, htail⟩ := horder
  by_cases hnumber : header.number = 0
  · rw [System.remove, if_pos hnumber]
    exact ⟨line, hinv⟩
  have hmem := hinv.represents.mem_line hheader hnumber
  obtain ⟨init, hline⟩ := hinv.represents.getLast_of_tail hheader hnumber htail
  obtain ⟨r, hok⟩ : ∃ r, s.node.removeUnit env header true = .ok r :=
    removeUnit_of_hasBody (hinv.bodies _ header hmem)
  have hremoved := removeUnit_removed hok
  rw [remove_eq hnumber hok]
  refine ⟨update line header.mc init,
    (hinv.represents.removeTail hline).congr hremoved.header hremoved.stableHash
      hremoved.tailHash, ?_, ?_⟩
  · intro chain header' hmem'
    have hold : header' ∈ line chain := by
      rw [update_apply] at hmem'
      split_ifs at hmem' with hchain
      · rw [hchain, hline]
        exact mem_append_left _ hmem'
      · exact hmem'
    have hne : header'.hash ≠ header.hash := by
      intro heq
      -- the removed header has left its line
      have hstored := (hinv.represents.removeTail hline).header_of_mem hmem'
      change update s.node.db.header header.hash none header'.hash = some header' at hstored
      rw [heq, update_self] at hstored
      cases hstored
    unfold Node.HasBody
    rw [hremoved.body, hremoved.pendingUnits, update_of_ne hne]
    exact hinv.bodies chain header' hold
  · intro chain hash hcached hidle
    rw [hremoved.cache, update_apply] at hcached
    split_ifs at hcached with hchain
    rw [hinv.cached chain hash hcached hidle]
    have hsame : r.1.db.tailHash chain = s.node.db.tailHash chain := by
      rw [hremoved.tailHash]
      change update s.node.db.tailHash header.mc _ chain = _
      rw [update_of_ne hchain]
    simp only [storedTail, hsame]

theorem Inv.read (chain : Address) : Inv env (s.read env chain) line := by
  unfold System.read
  split
  · refine ⟨hinv.represents, hinv.bodies, fun chain' hash hcached hidle => ?_⟩
    change update s.node.chainTailCache chain _ chain' = some hash at hcached
    rw [update_apply] at hcached
    split_ifs at hcached with hchain
    · rw [← Option.some.inj hcached, hchain]
      rfl
    · exact hinv.cached chain' hash hcached hidle
  · exact hinv

theorem Inv.evict (chain : Address) : Inv env (s.evict chain) line := by
  refine ⟨hinv.represents, hinv.bodies, fun chain' hash hcached hidle => ?_⟩
  change update s.node.chainTailCache chain none chain' = some hash at hcached
  rw [update_apply] at hcached
  split_ifs at hcached
  exact hinv.cached chain' hash hcached hidle

theorem Inv.after {step : Step} (horder : step.Orderly env s) :
    ∃ line', Inv env (step.after env s) line' := by
  cases step with
  | verify u => exact ⟨line, hinv.verify u⟩
  | write u => exact hinv.write horder
  | refresh u => exact ⟨line, hinv.refresh horder⟩
  | store u => exact ⟨line, hinv.store u⟩
  | remove header => exact hinv.remove horder
  | read chain => exact ⟨line, hinv.read chain⟩
  | evict chain => exact ⟨line, hinv.evict chain⟩

/-- A step changes the hash at a height only if there is none, or if it removes the unit. -/
theorem Inv.stableHash_after {step : Step} (horder : step.Orderly env s) {chain : Address} {n : Nat}
    (hne : s.node.db.stableHash chain n ≠ .zero) :
    (step.after env s).node.db.stableHash chain n = s.node.db.stableHash chain n ∨
      ∃ header, step = .remove header ∧ header.hash = s.node.db.stableHash chain n := by
  cases step with
  | write u =>
    left
    change (s.write env u).node.db.stableHash chain n = _
    unfold System.write
    split_ifs
    · change (s.node.writeRightUnit env u).db.stableHash chain n = _
      rw [writeRightUnit_stableHash, update_apply]
      split_ifs with hchain
      · rw [update_apply]
        split_ifs with hn
        · -- the height of the unit is free
          rw [hchain, hn] at hne
          exact absurd horder.2 hne
        · rw [hchain]
      · rfl
    · rfl
  | remove header =>
    obtain ⟨hheader, htail⟩ := horder
    change (s.remove env header).node.db.stableHash chain n = _ ∨ _
    by_cases hnumber : header.number = 0
    · rw [System.remove, if_pos hnumber]
      exact .inl rfl
    have hmem := hinv.represents.mem_line hheader hnumber
    obtain ⟨-, hpos, hplace⟩ := (hinv.represents.linked header.mc).mem hmem
    obtain ⟨r, hok⟩ : ∃ r, s.node.removeUnit env header true = .ok r :=
      removeUnit_of_hasBody (hinv.bodies _ header hmem)
    by_cases hhere : chain = header.mc ∧ n = header.number
    · refine .inr ⟨header, rfl, ?_⟩
      have hheight : header.number = header.number - 1 + 1 := by omega
      rw [hhere.1, hhere.2, hheight, hinv.represents.stable, stableAt, hplace]
      rfl
    · left
      rw [remove_eq hnumber hok]
      rw [(removeUnit_removed hok).stableHash]
      change update s.node.db.stableHash header.mc
        (update (s.node.db.stableHash header.mc) header.number .zero) chain n = _
      rw [update_apply]
      split_ifs with hchain
      · rw [update_of_ne fun hn => hhere ⟨hchain, hn⟩, hchain]
      · rfl
  | _ =>
    left
    simp only [Step.after, System.verify, System.refresh, System.store, System.read]
    repeat' split
    all_goals rfl

end

end System

/-! ## Runs -/

/-- What `GetChainTailInfo` returns is said of the times when no writer of the chain has yet to
refresh the tail. -/
structure ChainStored (env : Env) (s : System) (chain : Address) (t : Nat) : Prop where
  recorded : ∀ n, s.node.db.stableHash chain (n + 1) ≠ .zero ↔ n + 1 ≤ t
  linked : ∀ n, n < t → ∃ header,
    s.node.db.header (s.node.db.stableHash chain (n + 1)) = some header ∧
      header.mc = chain ∧ header.number = n + 1 ∧
      header.parentHash = if n = 0 then env.genesis.hash else s.node.db.stableHash chain n
  tail : s.node.storedTail env chain =
    if t = 0 then env.genesis.hash else s.node.db.stableHash chain t
  tailInfo : (∀ u ∈ s.unrefreshed, u.mc ≠ chain) →
    s.node.getChainTailHash env chain = s.node.storedTail env chain ∧
      ∃ header, s.node.getChainTailHead env chain = some header ∧ header.number = t

namespace System

variable {env : Env} {s : System} {line : Address → List Header}

theorem Inv.stableAt_eq (hinv : Inv env s line) (chain : Address) (n : Nat) :
    stableAt env (line chain) n =
      if n = 0 then env.genesis.hash else s.node.db.stableHash chain n := by
  cases n with
  | zero => rfl
  | succ n =>
    rw [if_neg (Nat.succ_ne_zero n)]
    exact (hinv.represents.stable chain n).symm

theorem Inv.storedTail_eq (hinv : Inv env s line) (chain : Address) :
    s.node.storedTail env chain = stableAt env (line chain) (line chain).length := by
  unfold storedTail
  rcases hinv.represents.tail chain with htail | ⟨hempty, htail⟩
  · have hne : stableAt env (line chain) (line chain).length ≠ .zero :=
      stableAt_ne_zero_iff.mpr (Nat.le_refl _)
    rw [htail, Hash.emptyHash_eq_false.mpr hne]
    rfl
  · rw [htail, hempty]
    rfl

theorem Inv.header_tail (hinv : Inv env s line) (chain : Address) :
    ∃ header, s.node.db.header (stableAt env (line chain) (line chain).length) = some header ∧
      header.number = (line chain).length := by
  cases hlen : (line chain).length with
  | zero => exact ⟨env.genesis, hinv.represents.header_genesis, Represents.number_of_genesis⟩
  | succ n =>
    have hn : n < (line chain).length := by omega
    have hplace : (line chain)[n]? = some (line chain)[n] := getElem?_eq_getElem hn
    have hmem : (line chain)[n] ∈ line chain := getElem_mem hn
    refine ⟨(line chain)[n], ?_, ((hinv.represents.linked chain) n _ hplace).2.1⟩
    rw [stableAt, hplace]
    exact hinv.represents.header_of_mem hmem

theorem Inv.chainStored (hinv : Inv env s line) (chain : Address) :
    ChainStored env s chain (line chain).length := by
  refine ⟨fun n => ?_, fun n hn => ?_, ?_, fun hidle => ?_⟩
  · rw [hinv.represents.stable]
    exact stableAt_ne_zero_iff
  · have hplace : (line chain)[n]? = some (line chain)[n] := getElem?_eq_getElem hn
    obtain ⟨hmc, hnumber, hparent⟩ := hinv.represents.linked chain n _ hplace
    refine ⟨(line chain)[n], ?_, hmc, hnumber, ?_⟩
    · rw [hinv.represents.stable, stableAt, hplace]
      exact hinv.represents.header_of_mem (getElem_mem hn)
    · rw [hparent, hinv.stableAt_eq]
  · rw [hinv.storedTail_eq, hinv.stableAt_eq]
  · have hsame : s.node.getChainTailHash env chain = s.node.storedTail env chain := by
      unfold getChainTailHash
      cases hcached : s.node.chainTailCache chain with
      | none => rfl
      | some hash => exact hinv.cached chain hash hcached hidle
    refine ⟨hsame, ?_⟩
    unfold getChainTailHead
    rw [hsame, hinv.storedTail_eq]
    exact hinv.header_tail chain

end System

namespace Step

variable {env : Env}

theorem inv_run {steps : List Step} {s : System} {line : Address → List Header}
    (hinv : System.Inv env s line) (horder : OrderlyRun env s steps) :
    ∃ line', System.Inv env (steps.foldl (after env) s) line' := by
  induction steps generalizing s line with
  | nil => exact ⟨line, hinv⟩
  | cons step steps ih =>
    obtain ⟨line', hnext⟩ := hinv.after horder.1
    exact ih hnext horder.2

theorem orderlyRun_of_append {init rest : List Step} {s : System}
    (horder : OrderlyRun env s (init ++ rest)) :
    OrderlyRun env s init ∧ OrderlyRun env (init.foldl (after env) s) rest := by
  induction init generalizing s with
  | nil => exact ⟨trivial, horder⟩
  | cons step init ih =>
    obtain ⟨hinit, hrest⟩ := ih horder.2
    exact ⟨⟨horder.1, hinit⟩, hrest⟩

/-- If the steps are orderly, each chain has a tail number, and a unit stays at its height until it
is removed. -/
theorem chain_store_invariant (env : Env) (steps : List Step)
    (horder : OrderlyRun env (.start env) steps) :
    (∀ chain, ∃ t, ChainStored env (run env steps) chain t) ∧
      ∀ init step rest, steps = init ++ step :: rest → ∀ chain n,
        (run env init).node.db.stableHash chain n ≠ .zero →
        (run env (init ++ [step])).node.db.stableHash chain n =
            (run env init).node.db.stableHash chain n ∨
          ∃ header, step = .remove header ∧
            header.hash = (run env init).node.db.stableHash chain n := by
  constructor
  · intro chain
    obtain ⟨line, hinv⟩ := inv_run System.inv_start horder
    exact ⟨_, hinv.chainStored chain⟩
  · intro init step rest hsteps chain n hne
    rw [hsteps] at horder
    obtain ⟨hinit, hrest⟩ := orderlyRun_of_append horder
    obtain ⟨line, hinv⟩ := inv_run System.inv_start hinit
    have hrun : run env (init ++ [step]) = after env (run env init) step := by
      rw [run, foldl_append]
      rfl
    rw [hrun]
    exact hinv.stableHash_after hrest.1 hne

end Step

namespace Sample

def genesisUnit : DagUnit where
  header :=
    { mc := ⟨1⟩, number := 0, parentHash := .zero, scHash := .zero, proposer := ⟨1⟩,
      stateRoot := .zero, hash := ⟨8⟩, hash_ne := by decide }
  txs := []

def env : Env where
  scAccount := ⟨1⟩
  publicPrivateKeyAddr := ⟨2⟩
  enableAsyncWriteBody := true
  genesisUnit := genesisUnit
  genesis_number := rfl
  genesisChains := []
  wellSealed := fun _ => true

def unitAt (number parent hash : Nat) : DagUnit where
  header :=
    { mc := ⟨7⟩, number := number, parentHash := ⟨parent⟩, scHash := ⟨8⟩, proposer := ⟨3⟩,
      stateRoot := .zero, hash := ⟨hash + 1⟩, hash_ne := succ_ne_zeroHash hash }
  txs := []

def oneByOne : List Step :=
  [.verify (unitAt 1 8 20), .write (unitAt 1 8 20), .refresh (unitAt 1 8 20),
    .store (unitAt 1 8 20), .verify (unitAt 2 21 30), .write (unitAt 2 21 30),
    .refresh (unitAt 2 21 30), .read ⟨7⟩, .remove (unitAt 2 21 30).header]

theorem oneByOne_stored : ∃ t, ChainStored env (Step.run env oneByOne) ⟨7⟩ t :=
  (Step.chain_store_invariant env oneByOne (by decide)).1 ⟨7⟩

def raced : List Step :=
  [.verify (unitAt 1 8 20), .verify (unitAt 1 8 21), .write (unitAt 1 8 20)]

def written : List Step :=
  [.verify (unitAt 1 8 20), .write (unitAt 1 8 20), .verify (unitAt 2 21 30),
    .write (unitAt 2 21 30)]

/-- A second unit of one height replaces the first. Two writers refresh the tail in the wrong order.
A unit cleared while the body of its child is not written leaves an empty height below the tail. -/
theorem chain_store_broken : ((Step.run env raced).node.db.stableHash ⟨7⟩ 1 = ⟨21⟩ ∧
      (Step.run env (raced ++ [.write (unitAt 1 8 21)])).node.db.stableHash ⟨7⟩ 1 = ⟨22⟩) ∧
    ((Step.run env (written ++ [.refresh (unitAt 2 21 30), .refresh (unitAt 1 8 20)])).unrefreshed =
        [] ∧
      (Step.run env (written ++ [.refresh (unitAt 2 21 30),
          .refresh (unitAt 1 8 20)])).node.getChainTailHash env ⟨7⟩ = ⟨21⟩ ∧
      (Step.run env (written ++ [.refresh (unitAt 2 21 30),
          .refresh (unitAt 1 8 20)])).node.storedTail env ⟨7⟩ = ⟨31⟩) ∧
    ∃ r, clearUnitWithTxs env true 5 (Step.run env written).node ⟨21⟩ = .ok r ∧
      r.1.db.stableHash ⟨7⟩ 1 = .zero ∧ r.1.db.stableHash ⟨7⟩ 2 = ⟨31⟩ := by
  refine ⟨by decide, by decide, _, rfl, by decide, by decide⟩

end Sample

end Nerthus.Chain
