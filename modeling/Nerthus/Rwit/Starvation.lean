import Nerthus.Rwit.Worker

/-!
# Which chains the worker takes up

The walk of `loadNewJob` ends at the first stored chain that is already worked on or whose system
unit is too young. A chain that it deletes or stores anew leaves its place to the last one, which
the walk then passes over.
-/

namespace Nerthus.Rwit

open Core (UnitID)
open Lib (Keyed)
open Ntsdb (DataSet)
open Sc (StateDB ChainStatus)
open PendingChainSet List Function

section

variable {κ β : Type} [DecidableEq κ] {s : DataSet κ β} (hs : s.WellFormed) (key : κ)
include hs

theorem getValue_addWithValue (value : β) (k : Option κ) :
    (s.addWithValue key value).getValue k =
      if k = some key ∧ s.getValue k = none then some value else s.getValue k := by
  rw [DataSet.addWithValue]
  split
  · next i hexist =>
    rw [if_neg]
    rintro ⟨rfl, hnone⟩
    rw [DataSet.exist_eq_some_iff, (hs.valued _).mp hnone] at hexist
    cases hexist
  · next hexist =>
    have hnone := (hs.valued _).mpr (DataSet.exist_eq_none_iff.mp hexist)
    change update s.data (some key) (some value) k = _
    by_cases hk : k = some key
    · rw [hk, update_self, if_pos ⟨rfl, hnone⟩]
    · rw [update_of_ne hk, if_neg fun h => hk h.1]
      rfl

theorem getValue_remove (k : Option κ) :
    (s.remove key).getValue k = if k = some key then none else s.getValue k := by
  rw [DataSet.remove]
  split
  · next hexist =>
    have hnone := (hs.valued _).mpr (DataSet.exist_eq_none_iff.mp hexist)
    split
    · next hk => rw [hk]; exact hnone
    · rfl
  · next i hexist =>
    obtain ⟨hi, hkey⟩ := (hs.faithful _ i).mp (DataSet.exist_eq_some_iff.mp hexist)
    have hlen : i < s.len := hi
    replace hkey : s.getKey i = some key := hkey
    rw [DataSet.removeByIndex, if_neg (by omega), hkey, if_neg nofun]
    split
    · change update s.data (some key) none k = _
      rw [update_apply]
      rfl
    · next hlast =>
      have hne : s.getKey (s.len - 1) ≠ some key := fun h => hlast
        (hs.getKey_inj (by omega) hlen (h.trans hkey.symm))
      obtain ⟨last, value, hlastKey, hvalue⟩ := hs.getKey_eq_some (show s.len - 1 < s.len by omega)
      dsimp only
      rw [hlastKey] at hne ⊢
      rw [hvalue]
      change update (update (update s.data (some last) none) (some key) none) (some last)
        (some value) k = _
      simp only [update_apply]
      split
      · next hk => rw [hk, if_neg hne]; exact hvalue.symm
      · rfl

theorem getKey_remove {i : Nat} (hi : s.getKey i = some key) (j : Nat) :
    (s.remove key).getKey j =
      if j = s.len - 1 then none else if j = i then s.getKey (s.len - 1) else s.getKey j := by
  have hlen : i < s.len := by
    by_contra hle
    rw [hs.blank i (by omega)] at hi
    cases hi
  have hindex : s.exist (some key) = some i := by
    rw [DataSet.exist_eq_some_iff, ← hi]
    exact hs.faithful.index_value hlen
  simp only [DataSet.remove, hindex, DataSet.removeByIndex]
  rw [if_neg (by omega), hi, if_neg nofun]
  split
  · next hlast =>
    change update s.cells.value i none j = _
    rw [update_apply, hlast]
    split
    · rfl
    · rfl
  · next hlast =>
    change update (update (update s.cells.value (s.len - 1) none) i none) i
      (s.getKey (s.len - 1)) j = _
    simp only [update_apply]
    split_ifs with hj hj'
    · omega
    · rfl
    · rfl
    · rfl

theorem getKey_addWithValue (hnew : s.getValue (some key) = none) (value : β) (j : Nat) :
    (s.addWithValue key value).getKey j = if j = s.len then some key else s.getKey j := by
  rw [DataSet.addWithValue, DataSet.exist_eq_none_iff.mpr ((hs.valued _).mp hnew)]
  exact update_apply _ _ _ _

end

/-! ## The set as a list -/

variable {info : PendingChain} {chain : Address} {l pre ahead : List PendingChain} {jobs : Jobs}

def entryOf (chain : Address) (unitID : UnitID) : PendingChain := ⟨chain, unitID.hash, unitID.height⟩

namespace PendingChainSet

variable {pc : PendingChainSet}

section

variable (hpc : pc.WellFormed)
include hpc

theorem get_add (c chain : Address) (unitID : UnitID) : (pc.add c unitID).get chain =
      if c = chain ∧ pc.get chain = none then some (entryOf chain unitID) else pc.get chain := by
  have hadd : PendingChainSet.get (pc.addWithValue c ⟨unitID.hash, unitID.height⟩) chain =
      if c = chain ∧ pc.get chain = none then some (entryOf chain unitID) else pc.get chain := by
    simp only [PendingChainSet.get, getValue_addWithValue hpc, Option.map_eq_none_iff, Option.some.injEq,
      eq_comm (a := chain)]
    split <;> rfl
  rw [add]
  split
  · next old hold =>
    split
    · rw [if_neg]
      rintro ⟨rfl, hnone⟩
      rw [hold] at hnone
      cases hnone
    · exact hadd
  · exact hadd

theorem get_del (c chain : Address) :
    (pc.del c).get chain = if c = chain then none else pc.get chain := by
  simp only [PendingChainSet.get, del, getValue_remove hpc, Option.some.injEq, eq_comm (a := chain)]
  split <;> rfl

end

theorem add_wellFormed (hpc : pc.WellFormed) (chain : Address) (unitID : Core.UnitID) :
    (pc.add chain unitID).WellFormed := by
  unfold add
  split
  · split_ifs
    · exact hpc
    · exact hpc.addWithValue _ _
  · exact hpc.addWithValue _ _

structure Holds (pc : PendingChainSet) (l : List PendingChain) : Prop where
  wellFormed : pc.WellFormed
  key : ∀ i, pc.getKey i = l[i]?.map PendingChain.chain
  entry : ∀ info ∈ l, pc.get info.chain = some info

theorem holds_stored (hpc : pc.WellFormed) : pc.Holds pc.stored := by
  have hex : ∀ i < pc.len, ∃ info : PendingChain,
      pc.getKey i = some info.chain ∧ pc.get info.chain = some info := by
    intro i hi
    obtain ⟨chain, value, hkey, hvalue⟩ := hpc.getKey_eq_some hi
    exact ⟨⟨chain, _, _⟩, hkey, by rw [get, hvalue, Option.map_some]⟩
  have : Nonempty PendingChain := ⟨⟨⟨0⟩, Hash.zero, 0⟩⟩
  choose! entry hkey hget using hex
  have hstored : pc.stored = (List.range pc.len).map entry := by
    rw [stored, ← filterMap_eq_map']
    refine filterMap_congr fun i hi => ?_
    rw [hkey i (mem_range.mp hi), Option.bind_some, hget i (mem_range.mp hi)]
  rw [hstored]
  refine ⟨hpc, fun i => ?_, fun info hinfo => ?_⟩
  · by_cases hi : i < pc.len
    · simp [hi, hkey i hi]
    · simp [hi, hpc.blank i (by omega)]
  · obtain ⟨i, hi, rfl⟩ := mem_map.mp hinfo
    exact hget i (mem_range.mp hi)

def fillGap (ahead : List PendingChain) : List PendingChain :=
  ahead.getLast?.toList ++ ahead.dropLast

namespace Holds

theorem len_eq (h : pc.Holds l) : pc.len = l.length := by
  have hnone : ∀ i, pc.len ≤ i ↔ l.length ≤ i := by
    intro i
    rw [← getElem?_eq_none_iff, ← Option.map_eq_none_iff, ← h.key]
    refine ⟨h.wellFormed.blank i, fun hi => ?_⟩
    by_contra hlt
    obtain ⟨key, -, hkey, -⟩ := h.wellFormed.getKey_eq_some (show i < pc.len by omega)
    rw [hi] at hkey
    cases hkey
  exact le_antisymm ((hnone _).mpr le_rfl) ((hnone _).mp le_rfl)

theorem mem_iff (h : pc.Holds l) : info ∈ l ↔ pc.get info.chain = some info := by
  refine ⟨h.entry info, fun hget => ?_⟩
  have hindex : pc.cells.index (some info.chain) ≠ 0 := by
    intro hzero
    rw [get, DataSet.getValue, (h.wellFormed.valued _).mpr hzero] at hget
    cases hget
  obtain ⟨j, hj⟩ := Nat.exists_eq_succ_of_ne_zero hindex
  have hkey := ((h.wellFormed.faithful _ j).mp hj).2
  obtain ⟨other, hother, hchain⟩ := Option.map_eq_some_iff.mp ((h.key j).symm.trans hkey)
  have hentry := h.entry other (mem_of_getElem? hother)
  rw [hchain, hget] at hentry
  exact Option.some.inj hentry ▸ mem_of_getElem? hother

theorem nodup (h : pc.Holds l) : (l.map PendingChain.chain).Nodup := by
  rw [nodup_iff_getElem?_ne_getElem?]
  intro i j hij hj heq
  rw [length_map, ← h.len_eq] at hj
  rw [getElem?_map, getElem?_map, ← h.key, ← h.key] at heq
  exact absurd (h.wellFormed.getKey_inj (by omega) hj heq) (by omega)

theorem chain_ne (h : pc.Holds (pre ++ info :: ahead)) :
    ∀ x ∈ pre ++ ahead, x.chain ≠ info.chain := by
  have hnodup := h.nodup
  grind

theorem del (h : pc.Holds (pre ++ info :: ahead)) :
    (pc.del info.chain).Holds (pre ++ fillGap ahead) := by
  have hkey : pc.getKey pre.length = some info.chain := by simp [h.key]
  have hlen := h.len_eq
  refine ⟨h.wellFormed.remove _, fun j => ?_, fun other hother => ?_⟩
  · rw [PendingChainSet.del, getKey_remove h.wellFormed _ hkey, hlen, h.key, h.key]
    obtain rfl | ⟨mid, last, rfl⟩ := eq_nil_or_concat ahead
    · grind [fillGap]
    · grind [fillGap]
  · have hmem : other ∈ pre ++ ahead := by
      obtain rfl | ⟨mid, last, rfl⟩ := eq_nil_or_concat ahead
      · simpa [fillGap] using hother
      · simp [fillGap] at hother ⊢
        tauto
    rw [get_del h.wellFormed, if_neg (h.chain_ne other hmem).symm, h.entry other]
    simp at hmem ⊢
    tauto

theorem add (h : pc.Holds l) (hnone : pc.get chain = none) (unitID : UnitID) :
    (pc.add chain unitID).Holds (l ++ [entryOf chain unitID]) := by
  refine ⟨add_wellFormed h.wellFormed _ _, fun j => ?_, fun other hother => ?_⟩
  · have hvalue : pc.getValue (some chain) = none := Option.map_eq_none_iff.mp hnone
    rw [PendingChainSet.add, hnone]
    dsimp only
    rw [getKey_addWithValue h.wellFormed _ hvalue, h.len_eq, h.key]
    grind [entryOf]
  · rw [get_add h.wellFormed]
    obtain hother | hother := mem_append.mp hother
    · rw [if_neg, h.entry other hother]
      rintro ⟨-, hnew⟩
      rw [h.entry other hother] at hnew
      cases hnew
    · obtain rfl := mem_singleton.mp hother
      exact if_pos ⟨rfl, hnone⟩

end Holds

end PendingChainSet

/-- The height by the state of the system chain, none if the chain is normal again. -/
def newest (db : StateDB) (info : PendingChain) : Option Nat :=
  match db.getChainStatus info.chain with
  | (.normal, _) => none
  | (.witnessReplaceUnderway, number) => some (max info.sysUnitNumber number)
  | _ => some info.sysUnitNumber

namespace Worker

variable {ch : Chainer} {db : Option StateDB} {w : Worker}

def target (db : Option StateDB) (info : PendingChain) : Option Nat :=
  match db with
  | none => some info.sysUnitNumber
  | some db => newest db info

def Room (ch : Chainer) (jobs : Jobs) (job : Job) : Prop := jobs.size ≤ maxPending ∧ ch.Awake job
deriving Decidable

def addJob (ch : Chainer) (jobs : Jobs) (job : Job) : Jobs :=
  if Room ch jobs job then jobs.put job else jobs

/-- The jobs after a walk, the chains it has taken up as they are, and those it leaves otherwise. -/
structure Walk where
  jobs : Jobs
  kept : List PendingChain
  missed : List PendingChain

/-- One turn at a chain, and the chains ahead after it; none if the walk ends. -/
def turn (ch : Chainer) (db : Option StateDB) (jobs : Jobs) (info : PendingChain)
    (ahead : List PendingChain) : Walk × List PendingChain :=
  if (jobs.get info.chain).isSome then (⟨jobs, [], info :: ahead⟩, [])
  else
    match target db info with
    | none => (⟨jobs, [], (fillGap ahead).take 1⟩, (fillGap ahead).drop 1)
    | some number =>
      if number = info.sysUnitNumber then
        if Room ch jobs info then (⟨jobs.put info, [info], []⟩, ahead)
        else (⟨jobs, [], info :: ahead⟩, [])
      else if ch.stableHash number = Hash.zero then (⟨jobs, [], [info]⟩, ahead)
      else
        let new := ⟨info.chain, ch.stableHash number, number⟩
        let jobs := addJob ch jobs new
        let moved := fillGap ahead ++ [new]
        if Room ch jobs info then (⟨jobs.put info, [], moved.take 1⟩, moved.drop 1)
        else (⟨jobs, [], moved⟩, [])

def walk (ch : Chainer) (db : Option StateDB) : Nat → Jobs → List PendingChain → Walk
  | 0, jobs, ahead => ⟨jobs, [], ahead⟩
  | _ + 1, jobs, [] => ⟨jobs, [], []⟩
  | n + 1, jobs, info :: ahead =>
    let t := turn ch db jobs info ahead
    let r := walk ch db n t.1.jobs t.2
    ⟨r.jobs, t.1.kept ++ r.kept, t.1.missed ++ r.missed⟩

def load (ch : Chainer) (update : Bool) (w : Worker) : Walk :=
  if w.haveJob ∧ w.dataSet.size ≤ maxPending then
    walk ch (if update then ch.getChainTailState else none) w.store.len w.dataSet w.store.stored
  else ⟨w.dataSet, [], w.store.stored⟩

/-- An entry is left out or changed only as the state of the system chain asks for it. -/
def Follows (ch : Chainer) (before after : PendingChainSet) : Prop :=
  ∀ chain, (after.get chain).bind (newest ch.tailState) = (before.get chain).bind (newest ch.tailState) ∧
    (before.get chain = none → after.get chain = none)

namespace Sample

def scAccount : Address := ⟨100⟩

def chainer (n : Nat) (hn : n < 2 ^ 64) (status : Address → ChainStatus × Nat) : Chainer where
  scAccount := scAccount
  tailNumber := n
  tailNumber_lt := hn
  tailState := { StateDB.blank with
    chain := fun a => { Sc.ChainItem.blank with
      applyStatus := some (status a).1
      applyStatusNumber := (status a).2 } }
  readable := true
  stableHash := fun number => ⟨1000 + number⟩

def waiting (n : Nat) (hn : n < 2 ^ 64) : Chainer :=
  chainer n hn fun _ => (.witnessReplaceUnderway, 3)

def unitID (n : Nat) : Core.UnitID := ⟨scAccount, n, ⟨1000 + n⟩⟩

def fresh : Worker := ⟨DataSet.empty, true, Keyed.empty, []⟩

def first : Worker :=
  ((fresh.handleNewChain (waiting 3 (by decide)) ⟨1⟩ (unitID 3)).loadNewJob
    (waiting 4 (by decide)) false)

def both : Worker := first.handleNewChain (waiting 5 (by decide)) ⟨2⟩ (unitID 5)

def restarted : Worker := { both with dataSet := Keyed.empty, pended := [] }

def settled : Chainer := chainer 8 (by decide) fun a =>
  if a = ⟨3⟩ then (.normal, 0) else (.witnessReplaceUnderway, if a = ⟨1⟩ then 3 else 5)

end Sample

end Worker

end Nerthus.Rwit
