import Nerthus.Chain.Branch

/-!
# The check at start-up

In the asynchronous mode a unit reaches the database in several writes: a batch with a pending
mark, and from the background writer the state, the children, the body and the receipts, until
the mark is deleted. After a crash `checkData` looks at the chains that have a mark.
-/

namespace Nerthus.Chain

open Lib (Returns bind_eq_ok_iff)
open Function List

namespace Db

def existBody (db : Db) (hash : Hash) : Bool :=
  match db.getUnitNumber hash with
  | none => false
  | some (mc, _) => !mc.empty && (db.body hash).isSome

def pendingChains (db : Db) : List Address := (db.pendingUnit.map Prod.snd).dedup

end Db

namespace Node

variable (env : Env)

def restarted (db : Db) : Node := ⟨db, fun _ => none, []⟩

def newChainCache (s : Node) (chain : Address) (hash : Hash) (tail : DagUnit) :
    Except Fault (Node × Header) :=
  if s.db.state tail.header.stateRoot then
    .ok ({ s with chainTailCache := update s.chainTailCache chain (some hash) },
      tail.header)
  else .error (.crit "can not load chain current state db")

/-- `GetChainTailHead`, with the cache it fills. -/
def loadChainTailHead (s : Node) (chain : Address) : Except Fault (Node × Header) :=
  match s.chainTailCache chain with
  | some hash =>
    match s.db.header hash with
    | none => .error (.crit "chain tail is empty")
    | some header => .ok (s, header)
  | none =>
    if (s.db.tailHash chain).emptyHash then s.newChainCache chain env.genesis.hash env.genesisUnit
    else do
      match ← s.getUnit env (s.db.tailHash chain) with
      | none => .error (.crit "can not get unit by hash")
      | some tail => s.newChainCache chain (s.db.tailHash chain) tail

/-- The loop of `checkData` over the units of one chain, from the tail down. -/
def checkChain : Nat → Node → Address → Except Fault Node
  | 0, _, _ => .error .stackOverflow
  | fuel + 1, s, chain => do
    let (s, tail) ← s.loadChainTailHead env chain
    if tail.number = 0 then return s
    else if s.db.existBody tail.hash then return s
    else
      let (s, _) ← clearUnitWithTxs env true fuel s tail.hash
      checkChain fuel { s with db := s.db.deletePendingUnit tail.hash } chain

/-- `checkData`; `chains` is the order in which the map of chains is walked. -/
def checkData (fuel : Nat) (s : Node) (chains : List Address) : Except Fault Node :=
  chains.foldlM (checkChain env fuel) s

end Node

inductive BodyWrite where
  | state
  | count (parent : Hash)
  | slot (parent : Hash)
  | body
  | receipts
  | unmark
deriving DecidableEq

namespace BodyWrite

def all (u : DagUnit) : List BodyWrite :=
  .state :: (u.references.flatMap fun p => [.count p, .slot p]) ++ [.body, .receipts, .unmark]

def apply (u : DagUnit) (db : Db) : BodyWrite → Db
  | state => db.commitState u.header.stateRoot
  | count p =>
    { db with
      children := { db.children with
        counts := update db.children.counts p (db.children.counts p + 1) } }
  | slot p => { db with children := db.children.put p (db.children.counts p) u.hash }
  | body => db.writeBody u
  | receipts => db.writeUnitReceipts u.hash
  | unmark => db.deletePendingUnit u.hash

end BodyWrite

/-- The database, the writers that hold the lock of a chain and have queued their body, and the
queue, with the writes still to be made. -/
structure Runtime where
  db : Db
  writing : List DagUnit
  queue : List (DagUnit × List BodyWrite)

inductive RuntimeStep where
  | lock (u : DagUnit)
  | commit (u : DagUnit)
  | background
deriving DecidableEq

namespace Runtime

variable (env : Env)

def start : Runtime := ⟨Db.genesis env, [], []⟩

/-- The header passes, nobody writes on the chain and nothing of the unit is waiting. -/
def Ready (r : Runtime) (u : DagUnit) : Prop :=
  (Node.restarted r.db).verifyHeader env u = .ok () ∧
    r.db.stableHash u.mc u.number = .zero ∧ u.mc.empty = false ∧
    (∀ v ∈ r.writing, v.mc ≠ u.mc ∧ v.hash ≠ u.hash) ∧ ∀ e ∈ r.queue, e.1.hash ≠ u.hash
deriving Decidable

def lock (r : Runtime) (u : DagUnit) : Runtime :=
  if r.Ready env u then
    { r with writing := u :: r.writing, queue := r.queue ++ [(u, BodyWrite.all u)] }
  else r

def commit (r : Runtime) (u : DagUnit) : Runtime :=
  if u ∈ r.writing then
    { r with db := r.db.writeHead env u, writing := r.writing.erase u }
  else r

def background (r : Runtime) : Runtime :=
  match r.queue with
  | [] => r
  | (_, []) :: rest => { r with queue := rest }
  | (u, w :: todo) :: rest => { r with db := w.apply u r.db, queue := (u, todo) :: rest }

end Runtime

namespace RuntimeStep

variable (env : Env)

def after (r : Runtime) : RuntimeStep → Runtime
  | lock u => r.lock env u
  | commit u => r.commit env u
  | background => r.background

def crash (steps : List RuntimeStep) : Db := (steps.foldl (after env) (.start env)).db

end RuntimeStep

open RuntimeStep

namespace Db

structure Complete (db : Db) (header : Header) : Prop where
  stored : db.header header.hash = some header
  body : (db.body header.hash).isSome
  receipts : db.receipts header.hash = true
  state : db.state header.stateRoot = true

structure ChainWhole (env : Env) (db : Db) (chain : Address) (t : Nat) : Prop where
  recorded : ∀ n, db.stableHash chain (n + 1) ≠ .zero ↔ n + 1 ≤ t
  linked : ∀ n, n < t → ∃ header, db.header (db.stableHash chain (n + 1)) = some header ∧
    header.mc = chain ∧ header.number = n + 1 ∧
    header.parentHash = if n = 0 then env.genesis.hash else db.stableHash chain n
  tail : (Node.restarted db).storedTail env chain =
    if t = 0 then env.genesis.hash else db.stableHash chain t
  complete : 0 < t → ∃ header, header.hash = db.stableHash chain t ∧ db.Complete header

structure Restored (env : Env) (db db' : Db) : Prop where
  chains : ∀ chain, ∃ t, db'.ChainWhole env chain t
  unmarked : db'.pendingUnit = []
  kept : ∀ header, db.Complete header →
    (∀ p lower, db.header p = some lower → lower.number ≠ 0 →
      (Node.restarted db).RefersTo env p header.hash → db.Complete lower) →
    db'.Complete header ∧
      db'.stableHash header.mc header.number = db.stableHash header.mc header.number

end Db

/-- In whatever order the chains are checked, the check ends without a panic and restores the
store. -/
def Recovers (env : Env) (db : Db) : Prop :=
  ∀ chains : List Address, chains.Perm db.pendingChains →
    ∃ s, Returns (fun fuel => Node.checkData env fuel (.restarted db) chains) s ∧
      db.Restored env s.db

namespace Node

variable {env : Env}

structure Cold (s : Node) : Prop where
  pendingUnits : s.pendingUnits = []
  hash : ∀ hash header, s.db.header hash = some header → header.hash = hash
  mc : ∀ hash header, s.db.header hash = some header → header.number ≠ 0 → header.mc.empty = false

theorem loadChainTailHead_spec {s : Node} (hcold : s.Cold) {chain : Address}
    (hcache : s.chainTailCache chain = none) {r : Node × Header}
    (hok : s.loadChainTailHead env chain = .ok r) :
    (∃ hash, r.1 = { s with chainTailCache := update s.chainTailCache chain (some hash) }) ∧
      (r.2.number ≠ 0 → s.db.existBody r.2.hash = true) := by
  have hload : ∀ {hash : Hash} {tail : DagUnit}, s.newChainCache chain hash tail = .ok r →
      r.1 = { s with chainTailCache := update s.chainTailCache chain (some hash) } ∧
        r.2 = tail.header := by
    intro hash tail h
    unfold newChainCache at h
    split_ifs at h
    cases h
    exact ⟨rfl, rfl⟩
  have hgenesis : ∀ {hash : Hash}, s.newChainCache chain hash env.genesisUnit = .ok r →
      (∃ hash, r.1 = { s with
        chainTailCache := update s.chainTailCache chain (some hash) }) ∧
        (r.2.number ≠ 0 → s.db.existBody r.2.hash = true) := by
    intro hash h
    obtain ⟨hnode, hheader⟩ := hload h
    refine ⟨⟨hash, hnode⟩, fun hnumber => absurd ?_ hnumber⟩
    rw [hheader]
    exact env.genesis_number
  unfold loadChainTailHead at hok
  rw [hcache] at hok
  split_ifs at hok with hempty
  · exact hgenesis hok
  obtain ⟨unit, hunit, hok⟩ := bind_eq_ok_iff.mp hok
  unfold getUnit at hunit
  rw [hcold.pendingUnits] at hunit
  dsimp only [find?_nil] at hunit
  split_ifs at hunit with hhash
  · cases hunit
    exact hgenesis hok
  split at hunit
  · cases hunit
    cases hok
  next header hheader =>
    split at hunit
    · cases hunit
    next txs hbody =>
      cases hunit
      obtain ⟨hnode, hsame⟩ := hload hok
      refine ⟨⟨_, hnode⟩, fun hnumber => ?_⟩
      rw [hsame] at hnumber ⊢
      rw [hcold.hash _ _ hheader, Db.existBody, Db.getUnitNumber, hheader]
      dsimp only [Option.map_some]
      rw [hcold.mc _ _ hheader hnumber, hbody]
      rfl

theorem checkChain_unchanged {s s' : Node} (hcold : s.Cold) {chain : Address}
    (hcache : s.chainTailCache chain = none) {fuel : Nat}
    (hok : checkChain env fuel s chain = .ok s') : ∃ hash, s' = { s with
      chainTailCache := update s.chainTailCache chain (some hash) } := by
  cases fuel with
  | zero => cases hok
  | succ fuel =>
    rw [checkChain] at hok
    obtain ⟨⟨s₁, tail⟩, hload, hok⟩ := bind_eq_ok_iff.mp hok
    obtain ⟨⟨hash, hnode⟩, hbody⟩ := loadChainTailHead_spec hcold hcache hload
    dsimp only at hnode hbody hok
    refine ⟨hash, ?_⟩
    split_ifs at hok with hnumber hexist
    · cases hok
      exact hnode
    · cases hok
      exact hnode
    · rw [hnode] at hexist
      exact absurd (hbody hnumber) hexist

theorem checkData_unchanged {fuel : Nat} {chains : List Address} (hnodup : chains.Nodup) :
    ∀ {s s' : Node}, s.Cold → (∀ chain ∈ chains, s.chainTailCache chain = none) →
      checkData env fuel s chains = .ok s' → s'.db = s.db := by
  unfold checkData
  induction chains with
  | nil =>
    intro s s' _ _ hok
    cases hok
    rfl
  | cons chain chains ih =>
    intro s s' hcold hcache hok
    obtain ⟨hchain, hrest⟩ := nodup_cons.mp hnodup
    rw [foldlM_cons] at hok
    obtain ⟨s₁, hfirst, hok⟩ := bind_eq_ok_iff.mp hok
    obtain ⟨hash, rfl⟩ := checkChain_unchanged hcold (hcache chain (.head _)) hfirst
    have hcache' : ∀ c ∈ chains, update s.chainTailCache chain (some hash) c = none := by
      intro c hc
      have hne : c ≠ chain := fun heq => hchain (heq ▸ hc)
      rw [update_of_ne hne]
      exact hcache c (.tail _ hc)
    have hcold' : Cold { s with
        chainTailCache := update s.chainTailCache chain (some hash) } :=
      ⟨hcold.pendingUnits, hcold.hash, hcold.mc⟩
    have hsame := ih hrest hcold' hcache' hok
    exact hsame

end Node

/-! ## What holds at any moment -/

namespace BodyWrite

variable {u : DagUnit} {db : Db}

def Done (u : DagUnit) (db : Db) : BodyWrite → Prop
  | state => db.state u.header.stateRoot = true
  | body => (db.body u.hash).isSome
  | receipts => db.receipts u.hash = true
  | count _ | slot _ | unmark => True

theorem done_apply (u : DagUnit) (db : Db) (w : BodyWrite) : w.Done u (w.apply u db) := by
  cases w with
  | state => exact update_self ..
  | body =>
    change (update db.body u.hash (some u.txs) u.hash).isSome
    rw [update_self]
    rfl
  | receipts => exact update_self ..
  | count p => trivial
  | slot p => trivial
  | unmark => trivial

theorem mem_of_all_eq {done todo : List BodyWrite} (h : all u = done ++ .unmark :: todo) :
    .state ∈ done ∧ .body ∈ done ∧ .receipts ∈ done := by
  have hall : all u =
      (.state :: (u.references.flatMap fun p => [.count p, .slot p]) ++ [.body, .receipts]) ++
        [.unmark] := by
    rw [all, append_assoc]
    rfl
  have hlast : BodyWrite.unmark ∉
      .state :: (u.references.flatMap fun p => [.count p, .slot p]) ++ [.body, .receipts] := by
    simp
  -- the mark is deleted once, at the end
  have hnil : todo = [] := by
    rcases eq_nil_or_concat todo with hnil | ⟨init, w, rfl⟩
    · exact hnil
    · rw [hall, concat_eq_append, ← cons_append, ← append_assoc] at h
      rw [(append_inj' h rfl).1] at hlast
      exact absurd (mem_append_right _ (.head _)) hlast
  rw [hall, hnil] at h
  obtain rfl := (append_inj' h rfl).1
  simp

end BodyWrite

structure Db.DataLe (db db' : Db) : Prop where
  body : ∀ hash, (db.body hash).isSome → (db'.body hash).isSome
  receipts : ∀ hash, db.receipts hash = true → db'.receipts hash = true
  state : ∀ root, db.state root = true → db'.state root = true

namespace Db.DataLe

variable {db db' : Db}

theorem done (h : DataLe db db') {u : DagUnit} {w : BodyWrite} (hdone : w.Done u db) :
    w.Done u db' := by
  cases w with
  | state => exact h.state _ hdone
  | body => exact h.body _ hdone
  | receipts => exact h.receipts _ hdone
  | count p => trivial
  | slot p => trivial
  | unmark => trivial

theorem complete (h : DataLe db db') {header : Header}
    (hstored : db'.header header.hash = some header) (hcomplete : db.Complete header) :
    db'.Complete header :=
  ⟨hstored, h.body _ hcomplete.body, h.receipts _ hcomplete.receipts, h.state _ hcomplete.state⟩

theorem apply (u : DagUnit) (db : Db) (w : BodyWrite) : DataLe db (w.apply u db) := by
  cases w with
  | state =>
    refine ⟨fun _ h => h, fun _ h => h, fun root h => ?_⟩
    change update db.state u.header.stateRoot true root = true
    rw [update_apply]
    split_ifs
    · rfl
    · exact h
  | body =>
    refine ⟨fun hash h => ?_, fun _ h => h, fun _ h => h⟩
    change (update db.body u.hash (some u.txs) hash).isSome
    rw [update_apply]
    split_ifs
    · rfl
    · exact h
  | receipts =>
    refine ⟨fun _ h => h, fun hash h => ?_, fun _ h => h⟩
    change update db.receipts u.hash true hash = true
    rw [update_apply]
    split_ifs
    · rfl
    · exact h
  | count p => exact ⟨fun _ h => h, fun _ h => h, fun _ h => h⟩
  | slot p => exact ⟨fun _ h => h, fun _ h => h, fun _ h => h⟩
  | unmark => exact ⟨fun _ h => h, fun _ h => h, fun _ h => h⟩

theorem writeHead (env : Env) (db : Db) (u : DagUnit) : DataLe db (db.writeHead env u) := by
  unfold Db.writeHead
  split_ifs <;> exact ⟨fun _ h => h, fun _ h => h, fun _ h => h⟩

end Db.DataLe

namespace Runtime

variable {env : Env}

/-- The writers continue the lines of the store, what is queued is written in order, and a unit
without a mark is complete. -/
structure Inv (env : Env) (r : Runtime) (line : Address → List Header) : Prop where
  represents : Represents env r.db line
  writing : ∀ u ∈ r.writing, r.db.header u.hash = none ∧ u.number = (line u.mc).length + 1 ∧
    u.header.parentHash = stableAt env (line u.mc) (line u.mc).length ∧ u.mc.empty = false
  apart : r.writing.Pairwise fun u v => u.mc ≠ v.mc ∧ u.hash ≠ v.hash
  mc : ∀ chain, ∀ header ∈ line chain, header.mc.empty = false
  queued : ∀ e ∈ r.queue, (∀ v ∈ r.writing, v.hash = e.1.hash → v = e.1) ∧
    ∀ header, r.db.header e.1.hash = some header → header = e.1.header
  progress : ∀ e ∈ r.queue, ∃ done, BodyWrite.all e.1 = done ++ e.2 ∧
    ∀ w ∈ done, w.Done e.1 r.db
  complete : ∀ chain, ∀ header ∈ line chain,
    header.hash ∈ r.db.pendingUnit.map Prod.fst ∨ r.db.Complete header

theorem inv_start : Inv env (start env) fun _ => [] := by
  refine ⟨Represents.genesis, ?_, List.Pairwise.nil, ?_, ?_, ?_, ?_⟩
  · intro u hu
    exact absurd hu not_mem_nil
  · intro chain header h
    exact absurd h not_mem_nil
  · intro e he
    exact absurd he not_mem_nil
  · intro e he
    exact absurd he not_mem_nil
  · intro chain header h
    exact absurd h not_mem_nil

variable {r : Runtime} {line : Address → List Header}

theorem Inv.lock (hinv : Inv env r line) (u : DagUnit) : Inv env (r.lock env u) line := by
  unfold Runtime.lock
  split_ifs with hready
  · obtain ⟨hverify, hfree, hmc, hapart, hqueue⟩ := hready
    obtain ⟨hnew, parent, hparent, hsame, hnumber⟩ := Node.verifyHeader_spec hverify
    obtain ⟨hplace, hlink⟩ := hinv.represents.extends_line hparent hsame hnumber hfree
    refine ⟨hinv.represents, ?_, ?_, hinv.mc, ?_, ?_, hinv.complete⟩
    · intro v hv
      rcases mem_cons.mp hv with rfl | hv
      · exact ⟨hnew, hplace, hlink, hmc⟩
      · exact hinv.writing v hv
    · refine pairwise_cons.mpr ⟨fun v hv => ?_, hinv.apart⟩
      exact ⟨(hapart v hv).1.symm, (hapart v hv).2.symm⟩
    · intro e he
      rcases mem_append.mp he with hold | he
      · refine ⟨fun v hv hhash => ?_, (hinv.queued e hold).2⟩
        rcases mem_cons.mp hv with rfl | hv
        · exact absurd hhash.symm (hqueue e hold)
        · exact (hinv.queued e hold).1 v hv hhash
      · obtain rfl := mem_singleton.mp he
        refine ⟨fun v hv hhash => ?_, fun header hheader => ?_⟩
        · rcases mem_cons.mp hv with rfl | hv
          · rfl
          · exact absurd hhash (hapart v hv).2
        · change r.db.header u.hash = some header at hheader
          rw [show r.db.header u.hash = none from hnew] at hheader
          cases hheader
    · intro e he
      rcases mem_append.mp he with he | he
      · exact hinv.progress e he
      · obtain rfl := mem_singleton.mp he
        exact ⟨[], rfl, fun w hw => absurd hw not_mem_nil⟩
  · exact hinv

theorem writeHead_pendingUnit (hasync : env.enableAsyncWriteBody = true) (db : Db) (u : DagUnit) :
    (db.writeHead env u).pendingUnit = (u.hash, u.mc) :: db.pendingUnit.filter (·.1 ≠ u.hash) := by
  unfold Db.writeHead
  rw [if_pos hasync]
  rfl

theorem Inv.writing_apart (hinv : Inv env r line) {u v : DagUnit} (hu : u ∈ r.writing)
    (hv : v ∈ r.writing.erase u) : v ∈ r.writing ∧ v.mc ≠ u.mc ∧ v.hash ≠ u.hash := by
  have hnodup : r.writing.Nodup := hinv.apart.imp fun h heq => h.1 (congrArg DagUnit.mc heq)
  have hne : v ≠ u := fun heq => hnodup.not_mem_erase (heq ▸ hv)
  have hv' := mem_of_mem_erase hv
  have : Std.Symm fun u v : DagUnit => u.mc ≠ v.mc ∧ u.hash ≠ v.hash :=
    ⟨fun _ _ h => ⟨h.1.symm, h.2.symm⟩⟩
  exact ⟨hv', hinv.apart.forall hv' hu hne⟩

theorem Inv.commit (hasync : env.enableAsyncWriteBody = true) (hinv : Inv env r line)
    (u : DagUnit) : ∃ line', Inv env (r.commit env u) line' := by
  unfold Runtime.commit
  split_ifs with hmem
  · obtain ⟨hnew, hnumber, hparent, hmc⟩ := hinv.writing u hmem
    have hrep := hinv.represents.writeHead hnew hnumber hparent
    -- a header of the new lines is the new one or was there before
    have hline : ∀ {chain header},
        header ∈ update line u.mc (line u.mc ++ [u.header]) chain →
        header = u.header ∨ header ∈ line chain := by
      intro chain header h
      rw [update_apply] at h
      split_ifs at h with hchain
      · rcases mem_append.mp h with hold | hlast
        · exact .inr (hchain ▸ hold)
        · exact .inl (mem_singleton.mp hlast)
      · exact .inr h
    refine ⟨update line u.mc (line u.mc ++ [u.header]), hrep, ?_, ?_, ?_, ?_, ?_, ?_⟩
    · intro v hv
      obtain ⟨hv', hchain, hhash⟩ := hinv.writing_apart hmem hv
      rw [Represents.writeHead_header, update_of_ne hhash, update_of_ne hchain]
      exact hinv.writing v hv'
    · exact hinv.apart.sublist erase_sublist
    · intro chain header h
      rcases hline h with rfl | hold
      · exact hmc
      · exact hinv.mc chain header hold
    · intro e he
      obtain ⟨hsame, hheader⟩ := hinv.queued e he
      refine ⟨fun v hv => hsame v (mem_of_mem_erase hv), fun header h => ?_⟩
      rw [Represents.writeHead_header, update_apply] at h
      split_ifs at h with hhash
      · rw [← Option.some.inj h, hsame u hmem hhash.symm]
      · exact hheader header h
    · intro e he
      obtain ⟨done, hall, hdone⟩ := hinv.progress e he
      exact ⟨done, hall, fun w hw => (Db.DataLe.writeHead env r.db u).done (hdone w hw)⟩
    · intro chain header h
      have hstored := hrep.header_of_mem h
      rw [writeHead_pendingUnit hasync]
      by_cases hhash : header.hash = u.hash
      · exact .inl (mem_cons.mpr (.inl hhash))
      rcases hline h with rfl | hold
      · exact absurd rfl hhash
      rcases hinv.complete chain header hold with hmark | hcomplete
      · obtain ⟨e, he, heq⟩ := mem_map.mp hmark
        refine .inl (.tail _ (mem_map.mpr ⟨e, mem_filter.mpr ⟨he, ?_⟩, heq⟩))
        exact decide_eq_true (heq ▸ hhash)
      · exact .inr ((Db.DataLe.writeHead env r.db u).complete hstored hcomplete)
  · exact ⟨line, hinv⟩

theorem represents_apply (h : Represents env r.db line) (u : DagUnit) (w : BodyWrite) :
    Represents env (w.apply u r.db) line := by
  cases w with
  | state => exact h.congr rfl rfl rfl
  | count p => exact h.congr rfl rfl rfl
  | slot p => exact h.congr rfl rfl rfl
  | body => exact h.congr rfl rfl rfl
  | receipts => exact h.congr rfl rfl rfl
  | unmark => exact h.congr rfl rfl rfl

theorem header_apply (u : DagUnit) (w : BodyWrite) (db : Db) : (w.apply u db).header = db.header := by
  cases w <;> rfl

theorem mem_pendingUnit_apply {u : DagUnit} {w : BodyWrite} {db : Db} {hash : Hash}
    (h : hash ∈ db.pendingUnit.map Prod.fst) (hne : w = .unmark → hash ≠ u.hash) :
    hash ∈ (w.apply u db).pendingUnit.map Prod.fst := by
  cases w with
  | unmark =>
    obtain ⟨e, he, heq⟩ := mem_map.mp h
    refine mem_map.mpr ⟨e, mem_filter.mpr ⟨he, decide_eq_true ?_⟩, heq⟩
    rw [heq]
    exact hne rfl
  | state => exact h
  | count p => exact h
  | slot p => exact h
  | body => exact h
  | receipts => exact h

theorem Inv.background (hinv : Inv env r line) : Inv env r.background line := by
  unfold Runtime.background
  split
  · exact hinv
  next u rest hqueue =>
    have hsub : ∀ e ∈ rest, e ∈ r.queue := by
      intro e he
      rw [hqueue]
      exact .tail _ he
    exact ⟨hinv.represents, hinv.writing, hinv.apart, hinv.mc, fun e he => hinv.queued e (hsub e he),
      fun e he => hinv.progress e (hsub e he), hinv.complete⟩
  next u w todo rest hqueue =>
    have hfirst : (u, w :: todo) ∈ r.queue := by
      rw [hqueue]
      exact .head _
    have hsub : ∀ e ∈ rest, e ∈ r.queue := by
      intro e he
      rw [hqueue]
      exact .tail _ he
    have hle := Db.DataLe.apply u r.db w
    obtain ⟨done, hall, hdone⟩ := hinv.progress _ hfirst
    refine ⟨represents_apply hinv.represents u w, ?_, hinv.apart, hinv.mc, ?_, ?_, ?_⟩
    · intro v hv
      rw [header_apply]
      exact hinv.writing v hv
    · intro e he
      rw [header_apply]
      rcases mem_cons.mp he with rfl | he
      · exact hinv.queued (u, w :: todo) hfirst
      · exact hinv.queued e (hsub e he)
    · intro e he
      rcases mem_cons.mp he with rfl | he
      · refine ⟨done ++ [w], by rw [hall, append_assoc]; rfl, fun w' hw' => ?_⟩
        rcases mem_append.mp hw' with hw' | hw'
        · exact hle.done (hdone w' hw')
        · rw [mem_singleton.mp hw']
          exact BodyWrite.done_apply u r.db w
      · obtain ⟨done', hall', hdone'⟩ := hinv.progress e (hsub e he)
        exact ⟨done', hall', fun w' hw' => hle.done (hdone' w' hw')⟩
    · intro chain header h
      have hstored : (w.apply u r.db).header header.hash = some header := by
        rw [header_apply]
        exact hinv.represents.header_of_mem h
      rcases hinv.complete chain header h with hmark | hcomplete
      · by_cases hlast : w = .unmark ∧ header.hash = u.hash
        · -- the last write of a unit comes after all its data
          obtain ⟨rfl, hhash⟩ := hlast
          obtain ⟨hstate, hbody, hreceipts⟩ := BodyWrite.mem_of_all_eq hall
          have hheader : header = u.header := by
            refine (hinv.queued _ hfirst).2 header ?_
            rw [← hhash]
            exact hinv.represents.header_of_mem h
          subst hheader
          exact .inr (hle.complete hstored ⟨hinv.represents.header_of_mem h,
            hdone _ hbody, hdone _ hreceipts, hdone _ hstate⟩)
        · exact .inl (mem_pendingUnit_apply hmark fun hw hhash => hlast ⟨hw, hhash⟩)
      · exact .inr (hle.complete hstored hcomplete)

theorem inv_run (hasync : env.enableAsyncWriteBody = true) {steps : List RuntimeStep} {r : Runtime}
    {line : Address → List Header} (hinv : Inv env r line) :
    ∃ line', Inv env (steps.foldl (after env) r) line' := by
  induction steps generalizing r line with
  | nil => exact ⟨line, hinv⟩
  | cons step steps ih =>
    cases step with
    | lock u => exact ih (hinv.lock u)
    | commit u =>
      obtain ⟨line', hnext⟩ := hinv.commit hasync u
      exact ih hnext
    | background => exact ih hinv.background

theorem Inv.cold (hinv : Inv env r line) : (Node.restarted r.db).Cold := by
  refine ⟨rfl, fun hash header h => ((hinv.represents.header _ _).mp h).1, ?_⟩
  intro hash header h hnumber
  exact hinv.mc _ header (hinv.represents.mem_line h hnumber)

theorem Inv.chainWhole (hinv : Inv env r line) (hunmarked : r.db.pendingUnit = [])
    (chain : Address) : r.db.ChainWhole env chain (line chain).length := by
  have hcomplete : ∀ c, ∀ header ∈ line c, r.db.Complete header := by
    intro c header h
    refine (hinv.complete c header h).resolve_left ?_
    rw [hunmarked]
    exact not_mem_nil
  have hsystem : System.Inv env ⟨Node.restarted r.db, [], []⟩ line :=
    ⟨hinv.represents, fun c header h => .inl (hcomplete c header h).body,
      fun c hash hcached => nomatch hcached⟩
  obtain ⟨hrecorded, hlinked, htail, -⟩ := hsystem.chainStored chain
  refine ⟨hrecorded, hlinked, htail, fun hpos => ?_⟩
  -- the last header of the line is that of the tail
  obtain ⟨n, hn⟩ : ∃ n, (line chain).length = n + 1 := ⟨(line chain).length - 1, by omega⟩
  have hlt : n < (line chain).length := by omega
  refine ⟨(line chain)[n], ?_, hcomplete chain _ (getElem_mem hlt)⟩
  rw [hn, hinv.represents.stable, stableAt, getElem?_eq_getElem hlt]
  rfl

end Runtime

/-- After a crash the check restores the store exactly if no unit was being written. -/
theorem RuntimeStep.recovers_iff_unmarked (env : Env) (hasync : env.enableAsyncWriteBody = true)
    (steps : List RuntimeStep) :
    Recovers env (crash env steps) ↔ (crash env steps).pendingUnit = [] := by
  obtain ⟨line, hinv⟩ : ∃ line, Runtime.Inv env (steps.foldl (after env) (.start env)) line :=
    Runtime.inv_run hasync Runtime.inv_start
  have hcold : (Node.restarted (crash env steps)).Cold := hinv.cold
  constructor
  · intro hrecovers
    obtain ⟨s, ⟨fuel, hok⟩, hrestored⟩ := hrecovers _ (List.Perm.refl _)
    have hsame : s.db = crash env steps :=
      Node.checkData_unchanged (nodup_dedup _) hcold (fun _ _ => rfl) (hok fuel (Nat.le_refl _))
    rw [← hsame]
    exact hrestored.unmarked
  · intro hunmarked chains hchains
    have hnil : chains = [] := by
      rw [Db.pendingChains, hunmarked] at hchains
      exact hchains.eq_nil
    subst hnil
    refine ⟨Node.restarted (crash env steps), Returns.of_forall fun _ => rfl, ?_, hunmarked, ?_⟩
    · intro chain
      exact ⟨_, hinv.chainWhole hunmarked chain⟩
    · intro header hcomplete _
      exact ⟨hcomplete, rfl⟩

namespace Sample

def wholeWrite : List RuntimeStep :=
  .lock (unitAt 1 8 20) :: .commit (unitAt 1 8 20) ::
    List.replicate (BodyWrite.all (unitAt 1 8 20)).length .background

theorem wholeWrite_recovers : Recovers env (crash env wholeWrite) :=
  (recovers_iff_unmarked env rfl wholeWrite).mpr (by decide)

def headOnly : List RuntimeStep := [.lock (unitAt 1 8 20), .commit (unitAt 1 8 20)]

def stillMarked : List RuntimeStep :=
  headOnly ++ List.replicate ((BodyWrite.all (unitAt 1 8 20)).length - 1) .background

/-- After a crash before the body is written the check panics; after one before the mark is deleted
the mark stays for good. -/
theorem no_recovery : (∀ fuel, Node.checkData env (fuel + 1) (.restarted (crash env headOnly))
      (crash env headOnly).pendingChains = .error .nilPointer) ∧
    ¬Recovers env (crash env headOnly) ∧
    ¬Recovers env (crash env stillMarked) := by
  refine ⟨fun fuel => rfl, fun h => ?_, fun h => ?_⟩
  · obtain ⟨s, ⟨fuel, hok⟩, -⟩ := h _ (List.Perm.refl _)
    have hpanic : Node.checkData env (fuel + 1) (.restarted (crash env headOnly))
        (crash env headOnly).pendingChains = .error .nilPointer := rfl
    exact nomatch (hok (fuel + 1) (Nat.le_succ _)).symm.trans hpanic
  · obtain ⟨s, ⟨fuel, hok⟩, hrestored⟩ := h _ (List.Perm.refl _)
    obtain ⟨s', hdone, hmarked⟩ : ∃ s', Node.checkData env (fuel + 1)
        (.restarted (crash env stillMarked))
          (crash env stillMarked).pendingChains = .ok s' ∧
        s'.db.pendingUnit ≠ [] := ⟨_, rfl, by decide⟩
    obtain rfl := Except.ok.inj ((hok (fuel + 1) (Nat.le_succ _)).symm.trans hdone)
    exact hmarked hrestored.unmarked

end Sample

end Nerthus.Chain
