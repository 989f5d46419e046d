import Nerthus.Arbitration.Stop

/-!
# Histories of stops

Bad units are registered with the chains they affect, and recovered later, in
any order. A chain should be stopped while a bad unit that affects it is open.
-/

namespace Nerthus.Arbitration

open Lib (Lru)
open PutGetter List

/-- The map that a registration stores, as `stop` builds it: one positive height for a chain. -/
structure AffectedChains where
  entries : StopMap
  nodup : (entries.map ChainNumber.chain).Nodup
  pos : ∀ e ∈ entries, 0 < e.number

structure BadUnit where
  chain : Address
  number : Nat
  affects : AffectedChains

def BadUnit.Affects (u : BadUnit) (chain : Address) (number : Nat) : Prop :=
  ⟨chain, number⟩ ∈ u.affects.entries
deriving Decidable

inductive StopStep where
  | register (direct : Bool) (unit : BadUnit)
  /-- `RecoverStartChain`; the chains of `seen` are asked for between the loop and the write of the
  batch. -/
  | recover (chain : Address) (number : Nat) (seen : List Address)
  | check (chain : Address) (number : Nat)

structure Node where
  db : Db
  cache : Cache
  unresolved : List BadUnit

def Node.new : Node := ⟨.empty, .new, []⟩

namespace StopStep

def after (scAccount : Address) (s : Node) : StopStep → Node
  | register direct u =>
    let r := registerStops ⟨direct, s.db, s.db⟩ s.cache u.chain u.number u.affects.entries
    ⟨r.1.put, r.2, u :: s.unresolved⟩
  | recover chain number seen =>
    let r := recoverStartChain s.db s.cache chain number
    ⟨r.1, seen.foldl (fun cache c => (getStoppedChainFlag s.db cache c).2) r.2.1,
      s.unresolved.filter fun u => ¬(u.chain = chain ∧ u.number = number)⟩
  | check chain number =>
    { s with cache := (checkChainIsStopped scAccount s.db s.cache chain number).2 }

def state (scAccount : Address) (steps : List StopStep) : Node :=
  steps.foldl (after scAccount) .new

def posts (s : Node) : StopStep → List Address
  | recover chain number _ => (recoverStartChain s.db s.cache chain number).2.2
  | register .. | check .. => []

end StopStep

/-! ## Registrations -/

structure Flags (db : Db) : Prop where
  nodup : ∀ c, (db.stoppedChain c).Nodup
  pos : ∀ c, ∀ n ∈ db.stoppedChain c, 0 < n
  byNodup : ∀ c n, ((db.stoppedBy c n).map ChainNumber.chain).Nodup

theorem flags_empty : Flags .empty := ⟨by simp [Db.empty], by simp [Db.empty], by simp [Db.empty]⟩

variable {chain : Address} {cache : Cache}

namespace PutGetter

@[simp] theorem putStoppedChain_put (b : PutGetter) (chain : Address) (numbers : List Nat)
    (c : Address) : (b.putStoppedChain chain numbers).put.stoppedChain c =
      if c = chain then numbers else b.put.stoppedChain c :=
  Function.update_apply _ _ _ _

theorem putStoppedChain_get_of_ne (b : PutGetter) {c : Address} (hc : c ≠ chain)
    (numbers : List Nat) :
    (b.putStoppedChain chain numbers).get.stoppedChain c = b.get.stoppedChain c := by
  rw [putStoppedChain, write]
  split
  · exact Function.update_of_ne hc _ _
  · rfl

end PutGetter

/-- One turn of the loop of `StopChain`. -/
structure Written (b : PutGetter) (chain : Address) (number : Nat) (r : PutGetter × Cache) :
    Prop where
  mem : ∀ c n, n ∈ r.1.put.stoppedChain c ↔
    n ∈ b.put.stoppedChain c ∨ (c = chain ∧ n = number)
  get : ∀ c, c ≠ chain → r.1.get.stoppedChain c = b.get.stoppedChain c
  put : ∀ c, c ≠ chain → r.1.put.stoppedChain c = b.put.stoppedChain c
  nodup : (r.1.put.stoppedChain chain).Nodup
  stoppedBy : r.1.put.stoppedBy = b.put.stoppedBy
  cache : r.2.Agrees r.1.put.flag

theorem putStoppedChain_flag (b : PutGetter) (chain : Address) (numbers : List Nat) (c : Address) :
    (b.putStoppedChain chain numbers).put.flag c =
      if c = chain then lowest numbers else b.put.flag c := by
  rw [Db.flag, putStoppedChain_put]
  split <;> rfl

theorem writeStoppedChain_spec {b : PutGetter}
    (hsame : b.get.stoppedChain chain = b.put.stoppedChain chain)
    (hnodup : (b.put.stoppedChain chain).Nodup) (hpos : ∀ n ∈ b.put.stoppedChain chain, 0 < n)
    (number : Nat) (hcache : cache.Agrees b.put.flag) :
    Written b chain number (writeStoppedChain b cache chain number) := by
  have hchain : b.get.flag chain = b.put.flag chain := by rw [Db.flag, Db.flag, hsame]
  obtain ⟨hflag, hagrees⟩ := getStoppedChainFlag_spec hcache hchain
  have hitems : ∀ n, n ∈ getStoppedChainFlags b.get chain ↔ n ∈ b.put.stoppedChain chain :=
    fun n => by rw [mem_getStoppedChainFlags, hsame]
  rw [writeStoppedChain]
  dsimp only
  rw [hflag]
  by_cases hin : number ∈ b.put.stoppedChain chain
  · -- the height is there already, so the lowest one is not above it
    have hlow : ¬(b.put.flag chain = 0 ∨ number < b.put.flag chain) := by
      obtain ⟨hmem, hmin⟩ := lowest_spec (ne_nil_of_mem hin)
      have hle : b.put.flag chain ≤ number := hmin number hin
      have hlt : 0 < b.put.flag chain := hpos _ hmem
      omega
    rw [if_pos ((hitems number).mpr hin), if_neg hlow]
    refine ⟨fun c n => ?_, fun _ _ => rfl, fun _ _ => rfl, hnodup, rfl, hagrees⟩
    constructor
    · exact fun hn => .inl hn
    · rintro (hn | ⟨rfl, rfl⟩)
      · exact hn
      · exact hin
  · rw [if_neg fun hmem => hin ((hitems number).mp hmem)]
    have hlowest : lowest (getStoppedChainFlags b.get chain ++ [number]) =
        if b.put.flag chain = 0 ∨ number < b.put.flag chain then number else b.put.flag chain := by
      rw [lowest_append fun n hn => hpos n ((hitems n).mp hn), lowest_congr hitems]
      rfl
    refine ⟨fun c n => ?_, fun c hc => b.putStoppedChain_get_of_ne hc _, fun c hc => ?_, ?_, rfl, ?_⟩
    · rw [putStoppedChain_put]
      split
      · next hc =>
        rw [mem_append, hitems, mem_singleton, hc]
        simp
      · next hc => simp [hc]
    · rw [putStoppedChain_put, if_neg hc]
    · rw [putStoppedChain_put, if_pos rfl]
      refine (nodup_append.mpr ⟨nodup_getStoppedChainFlags.mpr (hsame ▸ hnodup),
        nodup_singleton _, fun n hn m hm => ?_⟩)
      rintro rfl
      rw [mem_singleton.mp hm] at hn
      exact hin ((hitems number).mp hn)
    · have hother : ∀ c, c ≠ chain → (b.putStoppedChain chain
          (getStoppedChainFlags b.get chain ++ [number])).put.flag c = b.put.flag c :=
        fun c hc => by rw [putStoppedChain_flag, if_neg hc]
      have hself : (b.putStoppedChain chain
          (getStoppedChainFlags b.get chain ++ [number])).put.flag chain =
          if b.put.flag chain = 0 ∨ number < b.put.flag chain then number
          else b.put.flag chain := by
        rw [putStoppedChain_flag, if_pos rfl, hlowest]
      split
      · next hlow =>
        rw [if_pos hlow] at hself
        have := hagrees.add chain hother
        rwa [hself] at this
      · next hlow =>
        rw [if_neg hlow] at hself
        intro c v hv
        rw [hagrees c v hv]
        by_cases hc : c = chain
        · rw [hc, hself]
        · rw [hother c hc]

theorem writeStops_spec {entries : StopMap} (hchains : (entries.map ChainNumber.chain).Nodup)
    (hpos : ∀ e ∈ entries, 0 < e.number) (b : PutGetter)
    (hsame : ∀ e ∈ entries, b.get.stoppedChain e.chain = b.put.stoppedChain e.chain)
    (hflags : Flags b.put) (hcache : cache.Agrees b.put.flag) :
    let r := entries.foldl (fun s e => writeStoppedChain s.1 s.2 e.chain e.number) (b, cache)
    (∀ c n, n ∈ r.1.put.stoppedChain c ↔ n ∈ b.put.stoppedChain c ∨ ⟨c, n⟩ ∈ entries) ∧
      Flags r.1.put ∧ r.1.put.stoppedBy = b.put.stoppedBy ∧ r.2.Agrees r.1.put.flag := by
  induction entries generalizing b cache with
  | nil => exact ⟨by simp, hflags, rfl, hcache⟩
  | cons e rest ih =>
    rw [map_cons, nodup_cons] at hchains
    have hone := writeStoppedChain_spec (hsame e (.head _)) (hflags.nodup e.chain)
      (hflags.pos e.chain) e.number hcache
    have hne : ∀ e' ∈ rest, e'.chain ≠ e.chain := fun e' he' heq =>
      hchains.1 (heq ▸ mem_map_of_mem he')
    have hflags' : Flags (writeStoppedChain b cache e.chain e.number).1.put := by
      refine ⟨fun c => ?_, fun c n hn => ?_, fun c n => ?_⟩
      · by_cases hc : c = e.chain
        · exact hc ▸ hone.nodup
        · rw [hone.put c hc]
          exact hflags.nodup c
      · rcases (hone.mem c n).mp hn with hold | ⟨-, rfl⟩
        · exact hflags.pos c n hold
        · exact hpos e (.head _)
      · rw [hone.stoppedBy]
        exact hflags.byNodup c n
    obtain ⟨hmem, hflags'', hby, hcache'⟩ := ih hchains.2
      (fun e' he' => hpos e' (.tail _ he')) _
      (fun e' he' => by
        rw [hone.get _ (hne e' he'), hone.put _ (hne e' he')]
        exact hsame e' (.tail _ he'))
      hflags' hone.cache
    rw [foldl_cons]
    refine ⟨fun c n => ?_, hflags'', hby.trans hone.stoppedBy, hcache'⟩
    rw [hmem, hone.mem, mem_cons, or_assoc]
    refine or_congr_right (or_congr_left ?_)
    obtain ⟨chain, number⟩ := e
    simp

structure Registered (db : Db) (u : BadUnit) (db' : Db) (cache' : Cache) : Prop where
  mem : ∀ c n, n ∈ db'.stoppedChain c ↔ n ∈ db.stoppedChain c ∨ u.Affects c n
  flags : Flags db'
  self : u.affects.entries ≠ [] → db'.stoppedBy u.chain u.number = u.affects.entries
  other : ∀ c n, ¬(c = u.chain ∧ n = u.number) → db'.stoppedBy c n = db.stoppedBy c n
  cache : cache'.Agrees db'.flag

theorem registerStops_spec {db : Db} (hflags : Flags db) (hcache : cache.Agrees db.flag)
    (direct : Bool) (u : BadUnit) :
    Registered db u (registerStops ⟨direct, db, db⟩ cache u.chain u.number u.affects.entries).1.put
      (registerStops ⟨direct, db, db⟩ cache u.chain u.number u.affects.entries).2 := by
  obtain ⟨hmem, hflags', hby, hcache'⟩ := writeStops_spec u.affects.nodup u.affects.pos
    ⟨direct, db, db⟩ (fun _ _ => rfl) hflags hcache
  rw [registerStops]
  dsimp only
  rw [writeStoppedByWho]
  cases hentries : u.affects.entries with
  | nil =>
    rw [hentries] at hmem hflags' hby hcache'
    rw [if_pos (by simp)]
    refine ⟨fun c n => ?_, hflags', fun hne => absurd hentries hne, fun c n _ => ?_, hcache'⟩
    · rw [hmem, BadUnit.Affects, hentries]
    · rw [hby]
  | cons e rest =>
    rw [← hentries, if_neg (by simp [hentries])]
    have hupdate : ∀ c n, (putStoppedBy
        (u.affects.entries.foldl (fun s e => writeStoppedChain s.1 s.2 e.chain e.number)
          (⟨direct, db, db⟩, cache)).1 u.chain u.number u.affects.entries).put.stoppedBy c n =
        if c = u.chain ∧ n = u.number then u.affects.entries else db.stoppedBy c n := by
      intro c n
      rw [putStoppedBy, write]
      dsimp only
      rw [hby]
      by_cases hc : c = u.chain
      · subst hc
        rw [Function.update_self, Function.update_apply]
        simp
      · rw [Function.update_of_ne hc, if_neg fun h => hc h.1]
    refine ⟨hmem, ⟨hflags'.nodup, hflags'.pos, fun c n => ?_⟩, fun _ => ?_, fun c n hne => ?_, hcache'⟩
    · rw [hupdate]
      split
      · exact u.affects.nodup
      · rw [← hby]
        exact hflags'.byNodup c n
    · rw [hupdate, if_pos ⟨rfl, rfl⟩]
    · rw [hupdate, if_neg hne]

/-! ## Recoveries -/

structure Recovering (db : Db) (done : List ChainNumber) (s : PutGetter × Cache × List Address) :
    Prop where
  direct : s.1.direct = false
  get : s.1.get = db
  flags : Flags s.1.put
  stoppedBy : s.1.put.stoppedBy = db.stoppedBy
  cache : s.2.1.Agrees s.1.put.flag
  posts : ∀ c ∈ s.2.2, ∃ e ∈ done, e.chain = c ∧ ∀ n ∈ db.stoppedChain c, n = e.number

def OneFlagEach (db : Db) (entries : List ChainNumber) : Prop :=
  ∀ e ∈ entries, ∀ e' ∈ entries, e.chain = e'.chain → e.number ∈ db.stoppedChain e.chain →
    e'.number ∈ db.stoppedChain e'.chain → e.number = e'.number

def Cleared (db : Db) (done : List ChainNumber) (db' : Db) : Prop :=
  ∀ c n, n ∈ db'.stoppedChain c ↔ n ∈ db.stoppedChain c ∧ ⟨c, n⟩ ∉ done

theorem tryRecover_spec {db : Db} (hdb : Flags db) {done : List ChainNumber}
    {s : PutGetter × Cache × List Address} (h : Recovering db done s) (e : ChainNumber) :
    Recovering db (done ++ [e]) (tryRecover s e) ∧
      (OneFlagEach db (done ++ [e]) → Cleared db done s.1.put →
        Cleared db (done ++ [e]) (tryRecover s e).1.put) := by
  -- a chain is posted when none of its heights is left but the one that is cleared
  have hposts : ∀ left : List Nat, (∀ n ∈ db.stoppedChain e.chain, n ≠ e.number → n ∈ left) →
      ∀ c ∈ if left.isEmpty then s.2.2 ++ [e.chain] else s.2.2, ∃ e' ∈ done ++ [e], e'.chain = c ∧
        ∀ n ∈ db.stoppedChain c, n = e'.number := by
    intro left hleft c hc
    have hold : c ∈ s.2.2 ∨ left = [] ∧ c = e.chain := by
      split at hc
      · next hempty =>
        exact (mem_append.mp hc).imp_right fun hc => ⟨isEmpty_iff.mp hempty, mem_singleton.mp hc⟩
      · exact .inl hc
    rcases hold with hold | ⟨rfl, rfl⟩
    · obtain ⟨e', he', hrest⟩ := h.posts c hold
      exact ⟨e', mem_append_left _ he', hrest⟩
    · refine ⟨e, by simp, rfl, fun n hn => ?_⟩
      by_contra hne
      exact not_mem_nil (hleft n hn hne)
  have hitems : ∀ n, n ∈ getStoppedChainFlags s.1.get e.chain ↔ n ∈ db.stoppedChain e.chain :=
    fun n => by rw [mem_getStoppedChainFlags, h.get]
  have hsorted : (getStoppedChainFlags s.1.get e.chain).Nodup := by
    rw [nodup_getStoppedChainFlags, h.get]
    exact hdb.nodup e.chain
  rw [tryRecover, clearStoppedChainFlag]
  by_cases hfound : e.number ∈ db.stoppedChain e.chain
  · rw [if_pos ((hitems _).mpr hfound)]
    dsimp only
    have hleft : ∀ n, n ∈ (getStoppedChainFlags s.1.get e.chain).erase e.number ↔
        n ≠ e.number ∧ n ∈ db.stoppedChain e.chain := fun n => by
      rw [hsorted.mem_erase_iff, hitems]
    refine ⟨⟨h.direct, ?_, ?_, h.stoppedBy, ?_, fun c hc => ?_⟩, fun hone hcleared c n => ?_⟩
    · rw [putStoppedChain, write]
      rw [h.direct]
      exact h.get
    · refine ⟨fun c => ?_, fun c n hn => ?_, fun c n => ?_⟩
      · rw [putStoppedChain_put]
        split
        · exact hsorted.erase _
        · exact h.flags.nodup c
      · rw [putStoppedChain_put] at hn
        split at hn
        · exact hdb.pos _ n ((hleft n).mp hn).2
        · exact h.flags.pos c n hn
      · exact h.flags.byNodup c n
    · exact h.cache.remove e.chain fun c hc => by rw [putStoppedChain_flag, if_neg hc]
    · exact hposts _ (fun n hn hne => (hleft n).mpr ⟨hne, hn⟩) c hc
    · rw [putStoppedChain_put, mem_append, mem_singleton]
      split
      · next hc =>
        subst hc
        rw [hleft]
        constructor
        · rintro ⟨hne, hn⟩
          refine ⟨hn, ?_⟩
          rintro (hdone | heq)
          · exact hne (hone ⟨e.chain, n⟩ (mem_append_left _ hdone) e (by simp) rfl hn hfound)
          · exact hne (congrArg ChainNumber.number heq)
        · rintro ⟨hn, hnot⟩
          refine ⟨fun hne => hnot (.inr ?_), hn⟩
          rw [hne]
      · next hc =>
        rw [hcleared c n]
        refine and_congr_right fun _ => not_congr ⟨fun hdone => .inl hdone, ?_⟩
        rintro (hdone | heq)
        · exact hdone
        · exact absurd (congrArg ChainNumber.chain heq) hc
  · rw [if_neg fun hmem => hfound ((hitems _).mp hmem)]
    refine ⟨⟨h.direct, h.get, h.flags, h.stoppedBy, h.cache, fun c hc => ?_⟩,
      fun _ hcleared c n => ?_⟩
    · exact hposts _ (fun n hn _ => (hitems n).mpr hn) c hc
    · dsimp only
      rw [hcleared c n, mem_append, mem_singleton]
      refine and_congr_right fun hn => not_congr ⟨fun hdone => .inl hdone, ?_⟩
      rintro (hdone | rfl)
      · exact hdone
      · exact absurd hn hfound

theorem recovering_foldl {db : Db} (hdb : Flags db) (entries : List ChainNumber)
    {done : List ChainNumber} {s : PutGetter × Cache × List Address} (h : Recovering db done s) :
    Recovering db (done ++ entries) (entries.foldl tryRecover s) ∧
      (OneFlagEach db (done ++ entries) → Cleared db done s.1.put →
        Cleared db (done ++ entries) (entries.foldl tryRecover s).1.put) := by
  induction entries generalizing done s with
  | nil =>
    rw [append_nil]
    exact ⟨h, fun _ hcleared => hcleared⟩
  | cons e rest ih =>
    obtain ⟨hone, hcleared⟩ := tryRecover_spec hdb h e
    obtain ⟨hrest, hclearedRest⟩ := ih hone
    rw [append_assoc, singleton_append] at hrest hclearedRest
    rw [foldl_cons]
    refine ⟨hrest, fun hflags hdone => hclearedRest hflags (hcleared ?_ hdone)⟩
    intro e₁ he₁ e₂ he₂
    have hsub : ∀ e', e' ∈ done ++ [e] → e' ∈ done ++ e :: rest := fun e' he' => by
      rcases mem_append.mp he' with hd | hs
      · exact mem_append_left _ hd
      · rw [mem_singleton.mp hs]
        simp
    exact hflags e₁ (hsub e₁ he₁) e₂ (hsub e₂ he₂)

def clearedBy (db : Db) (chain : Address) (number : Nat) : List ChainNumber :=
  ⟨chain, number⟩ :: db.stoppedBy chain number

structure Recovered (db : Db) (chain : Address) (number : Nat) (r : Db × Cache × List Address) :
    Prop where
  flags : Flags r.1
  stoppedBy : r.1.stoppedBy = db.stoppedBy
  cache : r.2.1.Agrees r.1.flag
  posts : ∀ c ∈ r.2.2, ∃ e ∈ clearedBy db chain number, e.chain = c ∧
    ∀ n ∈ db.stoppedChain c, n = e.number
  cleared : OneFlagEach db (clearedBy db chain number) →
    Cleared db (clearedBy db chain number) r.1

theorem recoverStartChain_spec {db : Db} (hflags : Flags db) (hcache : cache.Agrees db.flag)
    (chain : Address) (number : Nat) :
    Recovered db chain number (recoverStartChain db cache chain number) := by
  have hstart : Recovering db [] (newBatch db, cache, []) :=
    ⟨rfl, rfl, hflags, rfl, hcache, by simp⟩
  have hentries := recovering_foldl hflags (clearedBy db chain number) hstart
  rw [clearedBy, foldl_cons, nil_append] at hentries
  obtain ⟨h, hcleared⟩ := hentries
  have hget : (tryRecover (newBatch db, cache, []) ⟨chain, number⟩).1.get = db :=
    (tryRecover_spec hflags hstart ⟨chain, number⟩).1.get
  have hrest : ∀ b : PutGetter, (clearBadChainFlag b chain number).put.stoppedChain =
      b.put.stoppedChain ∧ (clearBadChainFlag b chain number).put.stoppedBy = b.put.stoppedBy :=
    fun b => by
      rw [clearBadChainFlag]
      split <;> exact ⟨rfl, rfl⟩
  rw [recoverStartChain, getStoppedChainByBad, hget]
  obtain ⟨hchains, hby⟩ := hrest ((db.stoppedBy chain number).foldl tryRecover
    (tryRecover (newBatch db, cache, []) ⟨chain, number⟩)).1
  refine ⟨⟨?_, ?_, ?_⟩, hby.trans h.stoppedBy, ?_, h.posts, fun hone => ?_⟩
  · simpa only [hchains] using h.flags.nodup
  · simpa only [hchains] using h.flags.pos
  · simpa only [hby] using h.flags.byNodup
  · intro c v hv
    rw [Db.flag, hchains]
    exact h.cache c v hv
  · intro c n
    rw [hchains]
    exact hcleared hone (fun c n => by simp [newBatch]) c n

/-! ## Histories -/

namespace StopStep

structure Inv (s : Node) : Prop where
  flags : Flags s.db
  cache : s.cache.Agrees s.db.flag

structure Exact (s : Node) : Prop where
  mem : ∀ c n, n ∈ s.db.stoppedChain c ↔ ∃ u ∈ s.unresolved, u.Affects c n
  stoppedBy : ∀ u ∈ s.unresolved, u.affects.entries ≠ [] →
    s.db.stoppedBy u.chain u.number = u.affects.entries

/-- Nobody asks for a chain of which the batch holds another flag than the database. -/
def Quiet (s : Node) : StopStep → Prop
  | recover chain number seen => ∀ c ∈ seen,
      s.db.flag c = (recoverStartChain s.db s.cache chain number).1.flag c
  | register .. | check .. => True

/-- Flags of different bad units do not get mixed up: no open bad unit is registered again, and no
recovery clears a height at which another open one affects the chain. -/
def Orderly (s : Node) : StopStep → Prop
  | register _ u => ∀ v ∈ s.unresolved, ¬(v.chain = u.chain ∧ v.number = u.number)
  | recover chain number _ => ∀ v ∈ s.unresolved, ¬(v.chain = chain ∧ v.number = number) →
      ∀ e ∈ clearedBy s.db chain number, ¬v.Affects e.chain e.number
  | check .. => True

theorem agrees_seen {db : Db} {flag : Address → Nat} {seen : List Address} (h : cache.Agrees flag)
    (hseen : ∀ c ∈ seen, db.flag c = flag c) :
    (seen.foldl (fun cache c => (getStoppedChainFlag db cache c).2) cache).Agrees flag := by
  induction seen generalizing cache with
  | nil => exact h
  | cons c rest ih =>
    exact ih (getStoppedChainFlag_spec h (hseen c (.head _))).2 fun c' hc' => hseen c' (.tail _ hc')

theorem inv_after (scAccount : Address) {s : Node} (h : Inv s) (step : StopStep)
    (hquiet : step.Quiet s) : Inv (step.after scAccount s) := by
  cases step with
  | register direct u =>
    have hspec := registerStops_spec h.flags h.cache direct u
    exact ⟨hspec.flags, hspec.cache⟩
  | recover chain number seen =>
    have hspec := recoverStartChain_spec h.flags h.cache chain number
    exact ⟨hspec.flags, agrees_seen hspec.cache hquiet⟩
  | check chain number => exact ⟨h.flags, (checkChainIsStopped_spec h.cache chain number).2⟩

theorem Exact.mem_stoppedBy {s : Node} (h : Exact s) {number : Nat} {seen : List Address}
    (horderly : (recover chain number seen).Orderly s) {e : ChainNumber}
    (he : e ∈ clearedBy s.db chain number) (hflag : e.number ∈ s.db.stoppedChain e.chain) :
    e ∈ s.db.stoppedBy chain number := by
  obtain ⟨u, hu, haffects⟩ := (h.mem e.chain e.number).mp hflag
  by_cases hself : u.chain = chain ∧ u.number = number
  · have hby := h.stoppedBy u hu (ne_nil_of_mem haffects)
    rw [hself.1, hself.2] at hby
    rw [hby]
    exact haffects
  · exact absurd haffects (horderly u hu hself e he)

theorem Exact.oneFlagEach {s : Node} (h : Exact s) (hinv : Inv s) {number : Nat}
    {seen : List Address} (horderly : (recover chain number seen).Orderly s) :
    OneFlagEach s.db (clearedBy s.db chain number) := by
  intro e he e' he' hchain hflag hflag'
  have hin := h.mem_stoppedBy horderly he hflag
  have hin' := h.mem_stoppedBy horderly he' hflag'
  have heq := inj_on_of_nodup_map (hinv.flags.byNodup chain number) hin hin' hchain
  rw [heq]

theorem exact_after (scAccount : Address) {s : Node} (hinv : Inv s) (h : Exact s)
    (step : StopStep) (horderly : step.Orderly s) : Exact (step.after scAccount s) := by
  cases step with
  | register direct u =>
    have hspec := registerStops_spec hinv.flags hinv.cache direct u
    refine ⟨fun c n => ?_, fun v hv hne => ?_⟩
    · refine (hspec.mem c n).trans ?_
      rw [h.mem]
      simp only [after, mem_cons, exists_eq_or_imp]
      exact or_comm
    · rcases mem_cons.mp hv with rfl | hold
      · exact hspec.self hne
      · exact (hspec.other _ _ (horderly v hold)).trans (h.stoppedBy v hold hne)
  | recover chain number seen =>
    have hspec := recoverStartChain_spec hinv.flags hinv.cache chain number
    have hcleared := hspec.cleared (h.oneFlagEach hinv horderly)
    have hunresolved : ∀ v, v ∈ ((recover chain number seen).after scAccount s).unresolved ↔
        v ∈ s.unresolved ∧ ¬(v.chain = chain ∧ v.number = number) := fun v => by
      simp only [after, mem_filter, decide_eq_true_eq]
    refine ⟨fun c n => ?_, fun v hv hne => ?_⟩
    · refine (hcleared c n).trans ?_
      rw [h.mem]
      constructor
      · rintro ⟨⟨u, hu, haffects⟩, hnot⟩
        refine ⟨u, (hunresolved u).mpr ⟨hu, fun hself => hnot ?_⟩, haffects⟩
        have hby := h.stoppedBy u hu (ne_nil_of_mem haffects)
        rw [hself.1, hself.2] at hby
        refine .tail _ ?_
        rw [hby]
        exact haffects
      · rintro ⟨u, hu, haffects⟩
        obtain ⟨hold, hother⟩ := (hunresolved u).mp hu
        exact ⟨⟨u, hold, haffects⟩, fun hin => horderly u hold hother _ hin haffects⟩
    · obtain ⟨hold, -⟩ := (hunresolved v).mp hv
      change (recoverStartChain s.db s.cache chain number).1.stoppedBy v.chain v.number = _
      rw [hspec.stoppedBy]
      exact h.stoppedBy v hold hne
  | check chain number => exact ⟨h.mem, h.stoppedBy⟩

/-- Whoever is told that it can start is affected by no open bad unit. -/
theorem posts_of_orderly {s : Node} (hinv : Inv s) (h : Exact s) {number : Nat}
    {seen : List Address} (horderly : (recover chain number seen).Orderly s) {c : Address}
    (hc : c ∈ (recover chain number seen).posts s) {u : BadUnit} (hu : u ∈ s.unresolved)
    (hother : ¬(u.chain = chain ∧ u.number = number)) (n : Nat) : ¬u.Affects c n := by
  intro haffects
  obtain ⟨e, he, rfl, hall⟩ := (recoverStartChain_spec hinv.flags hinv.cache chain number).posts c hc
  have hn := hall n ((h.mem e.chain n).mpr ⟨u, hu, haffects⟩)
  rw [hn] at haffects
  exact horderly u hu hother e he haffects

/-- Every step is as `P` says in the state before it. -/
def Along (scAccount : Address) (P : Node → StopStep → Prop) : Node → List StopStep → Prop
  | _, [] => True
  | s, step :: rest => P s step ∧ Along scAccount P (step.after scAccount s) rest

instance (s : Node) (step : StopStep) : Decidable (step.Quiet s ∧ step.Orderly s) := by
  cases step <;> unfold Quiet Orderly <;> infer_instance

instance (scAccount : Address) (P : Node → StopStep → Prop) [∀ s step, Decidable (P s step)] :
    ∀ s steps, Decidable (Along scAccount P s steps)
  | _, [] => .isTrue trivial
  | s, step :: rest =>
    @instDecidableAnd _ _ _ (instDecidableAlong scAccount P (step.after scAccount s) rest)

theorem inv_new : Inv .new := ⟨flags_empty, Lru.agrees_empty _ _⟩

theorem inv_state (scAccount : Address) (steps : List StopStep)
    (hquiet : Along scAccount Quiet .new steps) : Inv (state scAccount steps) := by
  suffices h : ∀ s, Inv s → Along scAccount Quiet s steps → Inv (steps.foldl (after scAccount) s) from
    h _ inv_new hquiet
  clear hquiet
  induction steps with
  | nil => exact fun s hs _ => hs
  | cons step rest ih => exact fun s hs h => ih _ (inv_after scAccount hs step h.1) h.2

theorem exact_state (scAccount : Address) (steps : List StopStep)
    (hrun : Along scAccount (fun s step => step.Quiet s ∧ step.Orderly s) .new steps) :
    Inv (state scAccount steps) ∧ Exact (state scAccount steps) := by
  suffices h : ∀ s, Inv s → Exact s →
      Along scAccount (fun s step => step.Quiet s ∧ step.Orderly s) s steps →
      Inv (steps.foldl (after scAccount) s) ∧ Exact (steps.foldl (after scAccount) s) from
    h _ inv_new ⟨by simp [Node.new, Db.empty], by simp [Node.new]⟩ hrun
  clear hrun
  induction steps with
  | nil => exact fun s hinv hs _ => ⟨hinv, hs⟩
  | cons step rest ih =>
    intro s hinv hs hrun
    exact ih _ (inv_after scAccount hinv step hrun.1.1)
      (exact_after scAccount hinv hs step hrun.1.2) hrun.2

/-- After quiet steps the cache answers as the database does. If they are orderly too, a chain is
stopped exactly while an open bad unit affects it, and is told that it can start only if none
does. -/
theorem stopped_iff_unresolved (scAccount : Address) (steps : List StopStep) :
    let s := state scAccount steps
    (Along scAccount Quiet .new steps →
      ∀ c, (getStoppedChainFlag s.db s.cache c).1 = s.db.flag c) ∧
    (Along scAccount (fun s step => step.Quiet s ∧ step.Orderly s) .new steps →
      (∀ c m, c ≠ scAccount →
        ((checkChainIsStopped scAccount s.db s.cache c m).1.isOk = false ↔
          ∃ u ∈ s.unresolved, ∃ n, n ≤ m ∧ u.Affects c n)) ∧
      ∀ chain number seen, (recover chain number seen).Orderly s →
        ∀ c ∈ (recover chain number seen).posts s,
          ∀ u ∈ ((recover chain number seen).after scAccount s).unresolved, ∀ n, ¬u.Affects c n) := by
  intro s
  refine ⟨fun hquiet c => (getStoppedChainFlag_spec (inv_state scAccount steps hquiet).cache rfl).1,
    fun hrun => ?_⟩
  obtain ⟨hinv, hexact⟩ : Inv s ∧ Exact s := exact_state scAccount steps hrun
  refine ⟨fun c m hc => ?_, fun chain number seen hstep c hposted u hu n => ?_⟩
  · rw [(checkChainIsStopped_spec hinv.cache c m).1, Db.flag,
      lowest_stops_iff (hinv.flags.pos c)]
    simp only [hc, ne_eq, not_false_eq_true, true_and, hexact.mem]
    constructor
    · rintro ⟨n, ⟨u, hu, haffects⟩, hle⟩
      exact ⟨u, hu, n, hle, haffects⟩
    · rintro ⟨u, hu, n, hle, haffects⟩
      exact ⟨n, ⟨u, hu, haffects⟩, hle⟩
  · simp only [after, mem_filter, decide_eq_true_eq] at hu
    exact posts_of_orderly hinv hexact hstep hposted hu.1 hu.2 n

end StopStep

namespace Sample

def badUnit (chain number : Nat) : BadUnit :=
  ⟨⟨chain⟩, number, ⟨[⟨⟨3⟩, 9⟩], by simp, by simp⟩⟩

def stopped (steps : List StopStep) (chain number : Nat) : Bool :=
  let s := StopStep.state ⟨100⟩ steps
  !(checkChainIsStopped ⟨100⟩ s.db s.cache ⟨chain⟩ number).1.isOk

def orderly : List StopStep :=
  [.register false (badUnit 1 5), .register false ⟨⟨2⟩, 6, ⟨[⟨⟨4⟩, 7⟩], by simp, by simp⟩⟩,
    .check ⟨3⟩ 9, .recover ⟨1⟩ 5 [⟨4⟩]]

/-- Chain 3 is free again, and no open bad unit affects it; chain 4 is still stopped. -/
theorem orderly_recovered : stopped orderly 3 9 = false ∧ stopped orderly 4 7 = true ∧
    ¬∃ u ∈ (StopStep.state ⟨100⟩ orderly).unresolved, ∃ n, n ≤ 9 ∧ u.Affects ⟨3⟩ n := by
  have hfree : stopped orderly 3 9 = false := by decide +kernel
  refine ⟨hfree, by decide +kernel, fun haffected => ?_⟩
  have hiff := ((StopStep.stopped_iff_unresolved ⟨100⟩ orderly).2 (by decide +kernel)).1 ⟨3⟩ 9 (by decide)
  simp [stopped, hiff.mpr haffected] at hfree

def mixedUp : List StopStep :=
  [.register false (badUnit 1 5), .register false (badUnit 2 6), .recover ⟨1⟩ 5 []]

def asked : List StopStep := [.register false (badUnit 1 5), .recover ⟨1⟩ 5 [⟨3⟩]]

/-- Chain 3 is not stopped, though the second bad unit is open. If it asks before the batch is
written, the cache keeps it stopped, with no bad unit open. -/
theorem mixedUp_not_stopped :
    (StopStep.state ⟨100⟩ mixedUp).unresolved = [badUnit 2 6] ∧ (badUnit 2 6).Affects ⟨3⟩ 9 ∧
      stopped mixedUp 3 9 = false ∧
      (⟨3⟩ : Address) ∈ (StopStep.recover ⟨1⟩ 5 []).posts (StopStep.state ⟨100⟩
        [.register false (badUnit 1 5), .register false (badUnit 2 6)]) ∧
      (StopStep.state ⟨100⟩ asked).unresolved = [] ∧
      (StopStep.state ⟨100⟩ asked).db.flag ⟨3⟩ = 0 ∧ stopped asked 3 9 = true := by
  refine ⟨rfl, mem_singleton.mpr rfl, by decide +kernel, by decide +kernel, rfl, by decide +kernel,
    by decide +kernel⟩

end Sample

end Nerthus.Arbitration
