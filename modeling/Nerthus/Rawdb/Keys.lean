import Mathlib

/-!
# The keys of the database

`core/rawdb/keys.go`: all records are in one key-value store. Most keys start with the text of
their kind, those of the bodies with the address of a chain. `RangeChains` and `RangeTxs` visit
all keys with a prefix.
-/

namespace Nerthus.Rawdb

open List

inductive Kind where
  | unitHash | header | timeline | body | originTxs | tx | receipt | receiptCount
  | chainAddress | chainStatus | chainCount | stableHash | tail
deriving DecidableEq

/-- The parts of a key; each kind has some of them. -/
structure Fields where
  chain : List UInt8
  number : List UInt8
  hash : List UInt8
  index : List UInt8
  chain_length : chain.length = 20
  number_length : number.length = 8
  hash_length : hash.length = 32
  index_length : index.length = 2
deriving DecidableEq

def chainAddressKeyPrefix : List UInt8 := [0x61, 0x63, 0x5f, 0x69]

def transactionPrefix : List UInt8 := [0x75, 0x74, 0x78, 0x5f]

variable {f : Fields}

namespace Kind

def key (f : Fields) : Kind → List UInt8
  | unitHash => 0x48 :: f.hash
  | header => 0x68 :: f.hash
  | timeline => [0x75, 0x74, 0x5f, 255, 255, 255, 255, 255] ++ f.number ++ f.hash
  | body => f.chain ++ ([0x5f, 0x75, 0x5f] ++ f.number ++ f.hash ++ [0x5f, 0x62])
  | originTxs =>
    [0x75, 0x64, 0x5f] ++ f.hash ++ f.number ++ [0x5f, 0x74, 0x78, 0x68, 0x61, 0x73, 0x68, 0x73]
  | tx => transactionPrefix ++ f.hash
  | receipt => 0x72 :: f.number ++ f.hash ++ f.index
  | receiptCount => 0x72 :: f.number ++ f.hash ++ [0x5f, 0x63, 0x6f, 0x75, 0x6e, 0x74]
  | chainAddress => chainAddressKeyPrefix ++ f.number
  | chainStatus => [0x61, 0x63, 0x5f, 0x73] ++ f.chain
  | chainCount => [0x61, 0x63, 0x5f, 0x63]
  | stableHash => 0x68 :: f.chain ++ f.number ++ [0x6e]
  | tail => [0x4c, 0x61, 0x73, 0x74, 0x55, 0x6e, 0x69, 0x74] ++ f.chain

def size : Kind → Nat
  | unitHash | header => 33
  | timeline => 48
  | body => 65
  | originTxs => 51
  | tx => 36
  | receipt => 43
  | receiptCount => 47
  | chainAddress => 12
  | chainStatus => 24
  | chainCount => 4
  | stableHash => 30
  | tail => 28

theorem length_key (f : Fields) (k : Kind) : (k.key f).length = k.size := by
  cases k <;> simp [key, size, chainAddressKeyPrefix, transactionPrefix, f.chain_length,
    f.number_length, f.hash_length, f.index_length]

theorem eq_of_key_eq {f' : Fields} {k k' : Kind} (h : k.key f = k'.key f') : k = k' := by
  have hsize : k.size = k'.size := by rw [← length_key f, ← length_key f', h]
  cases k <;> cases k' <;> first | rfl | exact absurd hsize (by decide) | simp [key] at h

theorem prefix_body {p : List UInt8} (hp : p.length = 4) : p <+: body.key f ↔ p <+: f.chain := by
  have hchain : f.chain <+: body.key f := prefix_append _ _
  have hlong : p.length ≤ f.chain.length := by rw [hp, f.chain_length]; decide
  exact ⟨fun h => prefix_of_prefix_length_le h hchain hlong, fun h => h.trans hchain⟩

theorem chainAddressKeyPrefix_iff {k : Kind} : chainAddressKeyPrefix <+: k.key f ↔
    k = chainAddress ∨ k = body ∧ chainAddressKeyPrefix <+: f.chain := by
  cases k with
  | body => simp [prefix_body (f := f) (show chainAddressKeyPrefix.length = 4 from rfl)]
  | _ => simp [key, chainAddressKeyPrefix, transactionPrefix]

theorem transactionPrefix_iff {k : Kind} : transactionPrefix <+: k.key f ↔
    k = tx ∨ k = body ∧ transactionPrefix <+: f.chain := by
  cases k with
  | body => simp [prefix_body (f := f) (show transactionPrefix.length = 4 from rfl)]
  | _ => simp [key, chainAddressKeyPrefix, transactionPrefix]

end Kind

/-! ## The store -/

structure Entry where
  kind : Kind
  fields : Fields
  value : List UInt8
deriving DecidableEq

def Entry.key (e : Entry) : List UInt8 := e.kind.key e.fields

abbrev Db := List Entry

def bytesToAddress (b : List UInt8) : List UInt8 := (List.replicate 20 0 ++ b).drop b.length

variable (db : Db)

namespace Db

def put (e : Entry) : Db := e :: db.filter fun x => x.key ≠ e.key

def get (key : List UInt8) : List UInt8 :=
  ((db.find? fun x => x.key = key).map Entry.value).getD []

def getChainStatus (chain : List UInt8) : List UInt8 :=
  db.get ([0x61, 0x63, 0x5f, 0x73] ++ chain)

def ofKind (k : Kind) : List Entry := db.filter fun e => e.kind = k

/-- Every chain of the index has a status and one place. -/
structure Indexed (db : Db) : Prop where
  address : ∀ e ∈ db.ofKind .chainAddress, e.value.length = 20
  status : ∀ e ∈ db.ofKind .chainAddress, db.getChainStatus e.value ≠ []
  once : ((db.ofKind .chainAddress).map Entry.value).Nodup

end Db

/-- A writer of the chain index such as `WriteNewChain`, of which `chains.go` has the calls and the
comment. -/
structure ChainWriter where
  write : Db → Fields → List UInt8 → Db
  indexed : ∀ db f status, db.Indexed → (write db f status).Indexed

/-- A record of a unit, a body, a transaction, the timeline, a receipt, a tail, or a chain. -/
inductive Write where
  | put (kind : Kind) (fields : Fields) (value : List UInt8)
    (other : kind ≠ .chainAddress ∧ kind ≠ .chainStatus)
  | newChain (fields : Fields) (status : List UInt8)

namespace Db

def write (index : ChainWriter) : Write → Db
  | .put kind fields value _ => db.put ⟨kind, fields, value⟩
  | .newChain fields status => index.write db fields status

def scan (p : List UInt8) : List Entry := db.filter fun e => p <+: e.key

def rangeTxs : List (List UInt8) := (db.scan transactionPrefix).map Entry.value

/-- `RangeChains` with a callback that takes all; a chain without a status ends the program. -/
def rangeChains : Option (List (List UInt8)) :=
  let chains := (db.scan chainAddressKeyPrefix).map fun e => bytesToAddress e.value
  if ∀ chain ∈ chains, db.getChainStatus chain ≠ [] then some chains else none

/-- The scans visit the records of their kind, each chain once, and no other record takes their
keys. -/
structure ScansOwn (db : Db) : Prop where
  chains : db.rangeChains = some ((db.ofKind .chainAddress).map Entry.value)
  once : ((db.ofKind .chainAddress).map Entry.value).Nodup
  txs : db.rangeTxs = (db.ofKind .tx).map Entry.value
  kept : ∀ e ∈ db, ∀ e' : Entry, e'.key = e.key → e'.kind = e.kind

variable {db : Db} {e : Entry} {index : ChainWriter}

theorem get_put (key : List UInt8) :
    (db.put e).get key = if e.key = key then e.value else db.get key := by
  by_cases h : e.key = key
  · simp [put, get, h]
  · have hfind : (db.filter fun x => x.key ≠ e.key).find? (fun x => x.key = key) =
        db.find? fun x => x.key = key := by
      rw [find?_filter]
      refine congrArg (db.find? ·) (funext fun x => ?_)
      grind
    simp [put, get, h, ← hfind]

theorem ofKind_put {k : Kind} (h : e.kind ≠ k) : (db.put e).ofKind k = db.ofKind k := by
  have hkeep : ∀ x : Entry, x.kind = k → x.key ≠ e.key := fun x hx hkey =>
    h (Kind.eq_of_key_eq hkey ▸ hx)
  simp only [put, ofKind, filter_cons, h, decide_false, Bool.false_eq_true, if_false,
    filter_filter]
  exact filter_congr fun x _ => by grind

theorem getChainStatus_put {chain : List UInt8} (hchain : chain.length = 20)
    (h : e.kind = .chainStatus → e.fields.chain ≠ chain) :
    (db.put e).getChainStatus chain = db.getChainStatus chain := by
  rw [getChainStatus, get_put, if_neg, getChainStatus]
  intro hkey
  have hkind : e.kind = .chainStatus := Kind.eq_of_key_eq
    (show e.key = Kind.chainStatus.key { e.fields with chain, chain_length := hchain } from hkey)
  refine h hkind ?_
  simpa [Entry.key, hkind, Kind.key] using hkey

theorem Indexed.put (h : db.Indexed) (hother : e.kind ≠ .chainAddress ∧ e.kind ≠ .chainStatus) :
    (db.put e).Indexed := by
  have hkept : (db.put e).ofKind .chainAddress = db.ofKind .chainAddress := ofKind_put hother.1
  refine ⟨hkept ▸ h.address, fun x hx => ?_, hkept ▸ h.once⟩
  rw [hkept] at hx
  rw [getChainStatus_put (h.address x hx) fun hkind => absurd hkind hother.2]
  exact h.status x hx

theorem ofKind_newChain {status : List UInt8} (hnew : ∀ e ∈ db, e.key ≠ Kind.chainAddress.key f) :
    ((db.put ⟨.chainAddress, f, f.chain⟩).put ⟨.chainStatus, f, status⟩).ofKind .chainAddress =
      ⟨.chainAddress, f, f.chain⟩ :: db.ofKind .chainAddress := by
  have hkeep : db.filter (fun x => x.key ≠ Kind.chainAddress.key f) = db :=
    filter_eq_self.mpr fun e he => decide_eq_true (hnew e he)
  rw [ofKind_put (show Kind.chainStatus ≠ .chainAddress by decide), put]
  exact congrArg (fun l => ofKind (⟨.chainAddress, f, f.chain⟩ :: l) .chainAddress) hkeep

theorem Indexed.newChain (h : db.Indexed) {status : List UInt8} (hstatus : status ≠ [])
    (hnew : db.getChainStatus f.chain = [] ∧ ∀ e ∈ db, e.key ≠ Kind.chainAddress.key f) :
    ((db.put ⟨.chainAddress, f, f.chain⟩).put ⟨.chainStatus, f, status⟩).Indexed := by
  have hfree : ∀ x ∈ db.ofKind .chainAddress, x.value ≠ f.chain := fun x hx heq =>
    h.status x hx (heq ▸ hnew.1)
  refine ⟨?_, ?_, ?_⟩ <;> rw [ofKind_newChain hnew.2]
  · exact forall_mem_cons.mpr ⟨f.chain_length, h.address⟩
  · refine forall_mem_cons.mpr ⟨?_, fun x hx => ?_⟩
    · rw [getChainStatus, get_put]
      exact (if_pos rfl).trans_ne hstatus
    · rw [getChainStatus_put (h.address x hx) fun _ => (hfree x hx).symm,
        getChainStatus_put (h.address x hx) fun hkind => Kind.noConfusion hkind]
      exact h.status x hx
  · refine nodup_cons.mpr ⟨fun hmem => ?_, h.once⟩
    obtain ⟨x, hx, heq⟩ := mem_map.mp hmem
    exact hfree x hx heq

theorem Indexed.write (h : db.Indexed) (w : Write) : (db.write index w).Indexed := by
  cases w with
  | put kind fields value other => exact h.put other
  | newChain fields status => exact index.indexed db fields status h

/-- As the comment of `chains.go` says: a chain without a status is recorded under a free number. -/
def writeNewChain : ChainWriter where
  write db f status :=
    if status ≠ [] ∧ db.getChainStatus f.chain = [] ∧ ∀ e ∈ db, e.key ≠ Kind.chainAddress.key f then
      (db.put ⟨.chainAddress, f, f.chain⟩).put ⟨.chainStatus, f, status⟩
    else db
  indexed db f status h := by
    split
    · rename_i hnew
      exact h.newChain hnew.1 hnew.2
    · exact h

section Scan

variable {k : Kind} {p : List UInt8}
  (hp : ∀ {f : Fields} {k' : Kind}, p <+: k'.key f ↔ k' = k ∨ k' = .body ∧ p <+: f.chain)

include hp in
theorem scan_eq_of_length (h : (db.scan p).length = (db.ofKind k).length) :
    db.scan p = db.ofKind k := by
  have hown : db.ofKind k = (db.scan p).filter fun e => e.kind = k := by
    rw [scan, filter_filter]
    exact filter_congr fun e _ => by grind [Entry.key]
  rw [hown] at h ⊢
  exact (filter_sublist.eq_of_length h.symm).symm

include hp in
theorem scan_eq_iff (hk : k ≠ .body) :
    db.scan p = db.ofKind k ↔ ∀ e ∈ db.ofKind .body, ¬ p <+: e.fields.chain := by
  constructor
  · intro h e he hbody
    obtain ⟨hmem, hkind⟩ := mem_filter.mp he
    have hkind := of_decide_eq_true hkind
    have hscan : e ∈ db.scan p :=
      mem_filter.mpr ⟨hmem, decide_eq_true (hp.mpr (.inr ⟨hkind, hbody⟩))⟩
    rw [h] at hscan
    exact hk ((of_decide_eq_true (mem_filter.mp hscan).2).symm.trans hkind)
  · intro h
    refine filter_congr fun e he => decide_eq_decide.mpr (hp.trans ?_)
    refine or_iff_left fun hbody => ?_
    exact h e (mem_filter.mpr ⟨he, decide_eq_true hbody.1⟩) hbody.2

end Scan

theorem rangeTxs_eq_iff : db.rangeTxs = (db.ofKind .tx).map Entry.value ↔
    ∀ e ∈ db.ofKind .body, ¬ transactionPrefix <+: e.fields.chain := by
  rw [← scan_eq_iff Kind.transactionPrefix_iff nofun]
  refine ⟨fun h => scan_eq_of_length Kind.transactionPrefix_iff ?_, fun h => by rw [rangeTxs, h]⟩
  simpa [rangeTxs] using congrArg length h

theorem Indexed.rangeChains_eq_iff (h : db.Indexed) :
    db.rangeChains = some ((db.ofKind .chainAddress).map Entry.value) ↔
      ∀ e ∈ db.ofKind .body, ¬ chainAddressKeyPrefix <+: e.fields.chain := by
  rw [← scan_eq_iff Kind.chainAddressKeyPrefix_iff nofun]
  constructor
  · intro hrange
    obtain ⟨-, hchains⟩ := Option.ite_none_right_eq_some.mp hrange
    refine scan_eq_of_length Kind.chainAddressKeyPrefix_iff ?_
    simpa using congrArg length (Option.some.inj hchains)
  · intro hscan
    have hchains : (db.ofKind .chainAddress).map (fun e => bytesToAddress e.value) =
        (db.ofKind .chainAddress).map Entry.value :=
      map_congr_left fun e he => by simp [bytesToAddress, h.address e he]
    rw [rangeChains, hscan, hchains]
    refine if_pos fun chain hchain => ?_
    obtain ⟨e, he, rfl⟩ := mem_map.mp hchain
    exact h.status e he

theorem Indexed.nil : Indexed [] := ⟨nofun, nofun, .nil⟩

def filled (index : ChainWriter) (ws : List Write) : Db := ws.foldl (·.write index) []

theorem indexed_filled (ws : List Write) : (filled index ws).Indexed :=
  foldlRecOn ws _ .nil fun _ h w _ => h.write w

/-- The scans see their own records, unless the store has a body whose chain address starts with one
of the two prefixes. -/
theorem scans_see_own_records (index : ChainWriter) (ws : List Write) :
    (filled index ws).ScansOwn ↔ ∀ e ∈ (filled index ws).ofKind .body,
      ¬ chainAddressKeyPrefix <+: e.fields.chain ∧ ¬ transactionPrefix <+: e.fields.chain := by
  have h := @indexed_filled index ws
  constructor
  · intro hown e he
    exact ⟨h.rangeChains_eq_iff.mp hown.chains e he, rangeTxs_eq_iff.mp hown.txs e he⟩
  · intro hbodies
    exact ⟨h.rangeChains_eq_iff.mpr fun e he => (hbodies e he).1, h.once,
      rangeTxs_eq_iff.mpr fun e he => (hbodies e he).2, fun _ _ _ => Kind.eq_of_key_eq⟩

end Db

/-- The address whose bytes are `ac_i` and sixteen zeros, with the unit of number 0 and hash 0. -/
def indexLike : Fields where
  chain := chainAddressKeyPrefix ++ List.replicate 16 0
  number := List.replicate 8 0
  hash := List.replicate 32 0
  index := [0, 0]
  chain_length := rfl
  number_length := rfl
  hash_length := rfl
  index_length := rfl

def bodyWrites : List Write := [.newChain indexLike [1], .put .body indexLike [0xc0] (by decide)]

/-- One body of that chain, and `RangeChains` takes it for the index of a chain without a status. -/
theorem body_ends_rangeChains :
    (Db.filled Db.writeNewChain bodyWrites).rangeChains = none ∧
      ¬ (Db.filled Db.writeNewChain bodyWrites).ScansOwn := by
  have hnone : (Db.filled Db.writeNewChain bodyWrites).rangeChains = none := by decide
  exact ⟨hnone, fun h => nomatch hnone.symm.trans h.chains⟩

end Nerthus.Rawdb
