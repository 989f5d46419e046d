import Nerthus.Lib.Keyed
import Nerthus.Lib.Runs

/-!
# The queues of the chains

`MiningJobCenter` and its `ChainJobQueue`s. A queue that is freed gives its list back to
`sortslice`, and another chain may get it, while a packing run still pops from it. A free round
drops the chain from the list of chains, also where `CanStop` has refused the round.
-/

namespace Nerthus.Witness

open Lib List Function

variable {κ μ : Type} [DecidableEq κ]

/-- `MiningJobCenter`. A list has the messages in the order in which they are popped, each with the
chain it was pushed for. -/
structure JobCenter (κ μ : Type) [DecidableEq κ] where
  chainJobs : Keyed (Prod.fst : κ × Nat → κ)
  lists : Nat → List (κ × μ)
  /-- The lists in the pool of `sortslice`, and the number of lists made so far. -/
  pooled : List Nat
  made : Nat
  chains : List κ
  size : Int
  /-- The calls of `Push` in `onJobPushed`, and whether they have found no entry. -/
  recording : List (κ × Bool)
  /-- The queues that packing runs and calls of `Remove` have loaded. -/
  held : List (κ × Nat)
  /-- What was popped from a queue loaded for a chain. -/
  popped : List (κ × κ × μ)

variable (s : JobCenter κ μ)

namespace JobCenter

inductive Event (κ μ : Type) where
  /-- `Handle` of the pool; a new queue gets a list of the pool or a new one, twice. -/
  | push (chain : κ) (m : μ) (first second : Option Nat)
  | exist (i : Nat)
  | add (i : Nat)
  | load (chain : κ)
  | pop (i : Nat)
  | remove (i : Nat) (m : μ)
  | leave (i : Nat)
  /-- The queue is removed from the pool and stopped, at once or in a free round. -/
  | free (chain : κ)
  /-- The callback, which a free round also makes where it frees nothing. -/
  | removeChainDone (chain : κ)

def start : JobCenter κ μ := ⟨.empty, fun _ => [], [], 0, [], 0, [], [], []⟩

/-- A change of the list of a queue, with the `addCount` that goes with it. -/
def write (q : κ × Nat) (msgs : List (κ × μ)) : JobCenter κ μ :=
  { s with
    lists := update s.lists q.2 msgs
    size := s.size + msgs.length - (s.lists q.2).length }

def pushTo [DecidableEq μ] (s : JobCenter κ μ) (q : κ × Nat) (m : μ) : JobCenter κ μ :=
  if (q.1, m) ∈ s.lists q.2 then s else s.write q (s.lists q.2 ++ [(q.1, m)])

def getList : Option Nat → Option (JobCenter κ μ × Nat)
  | none => some ({ s with made := s.made + 1 }, s.made)
  | some l => if l ∈ s.pooled then some ({ s with pooled := s.pooled.filter (· ≠ l) }, l) else none

/-- `newChainJobQueue` takes a list, and `Start` another one in its place. -/
def newQueue (chain : κ) (first second : Option Nat) : Option (JobCenter κ μ × Nat) := do
  let (s, _) ← s.getList first
  let (s, l) ← s.getList second
  return ({ s with chainJobs := s.chainJobs.put (chain, l) }, l)

def step [DecidableEq μ] (s : JobCenter κ μ) : Event κ μ → Option (JobCenter κ μ)
  | .push chain m first second =>
    let s := { s with recording := s.recording ++ [(chain, false)] }
    match s.chainJobs.get chain with
    | some q => some (s.pushTo q m)
    | none => (s.newQueue chain first second).map fun r => r.1.pushTo (chain, r.2) m
  | .exist i =>
    match s.recording[i]? with
    | some (chain, false) =>
      if chain ∈ s.chains then some { s with recording := s.recording.eraseIdx i }
      else some { s with recording := s.recording.eraseIdx i ++ [(chain, true)] }
    | _ => none
  | .add i =>
    match s.recording[i]? with
    | some (chain, true) =>
      some { s with
        chains := if chain ∈ s.chains then s.chains else s.chains ++ [chain]
        recording := s.recording.eraseIdx i }
    | _ => none
  | .load chain => (s.chainJobs.get chain).map fun q => { s with held := s.held ++ [q] }
  | .pop i =>
    match s.held[i]? with
    | none => none
    | some q =>
      match s.lists q.2 with
      | [] => some s
      | m :: msgs =>
        some { s.write q msgs with
          popped := s.popped ++ [(q.1, m)]
          chains := if msgs = [] then s.chains.filter (· ≠ q.1) else s.chains }
  | .remove i m =>
    (s.held[i]?).map fun q => s.write q ((s.lists q.2).filter (· ≠ (q.1, m)))
  | .leave i => some { s with held := s.held.eraseIdx i }
  | .free chain =>
    (s.chainJobs.get chain).map fun q =>
      { s.write q [] with
        chainJobs := s.chainJobs.erase chain
        pooled := s.pooled ++ [q.2] }
  | .removeChainDone chain => some { s with chains := s.chains.filter (· ≠ chain) }

/-- A queue is freed while nobody holds it. A chain is dropped while it has no messages, or before
the end of a `Push` that records it again. -/
def Unheld : Event κ μ → Prop
  | .free chain => ∀ q ∈ s.held, q.1 ≠ chain
  | .removeChainDone chain => (∃ r ∈ s.recording, r.1 = chain) ∨
      ∀ q ∈ s.chainJobs.values, q.1 = chain → s.lists q.2 = []
  | _ => True

instance (s : JobCenter κ μ) (e : Event κ μ) : Decidable (s.Unheld e) := by
  cases e <;> unfold Unheld <;> infer_instance

def lengths (queues : List (κ × Nat)) : Int :=
  (queues.map fun q => ((s.lists q.2).length : Int)).sum

/-- A packing run sees the messages of its chain only, and no chain with messages is
overlooked. -/
structure Sound (s : JobCenter κ μ) : Prop where
  own : ∀ p ∈ s.popped, p.2.1 = p.1
  seen : ∀ q ∈ s.chainJobs.values, s.lists q.2 ≠ [] → (∀ r ∈ s.recording, r.1 ≠ q.1) → q.1 ∈ s.chains
  size : s.size = s.lengths s.chainJobs.values

/-! ## What every operation keeps -/

structure Inv (s : JobCenter κ μ) : Prop extends Sound s where
  apart : ∀ q ∈ s.chainJobs.values, ∀ q' ∈ s.chainJobs.values, q.2 = q'.2 → q = q'
  live : ∀ q ∈ s.chainJobs.values, q.2 ∉ s.pooled ∧ q.2 < s.made
  blank : ∀ l, l ∈ s.pooled ∨ s.made ≤ l → s.lists l = []
  pool : ∀ l ∈ s.pooled, l < s.made
  tagged : ∀ q ∈ s.chainJobs.values, ∀ m ∈ s.lists q.2, m.1 = q.1
  held : ∀ q ∈ s.held, q ∈ s.chainJobs.values

variable {s s' : JobCenter κ μ} {q : κ × Nat} {msgs : List (κ × μ)} {chain : κ} {l : Nat}

theorem lengths_cons (queues : List (κ × Nat)) :
    s.lengths (q :: queues) = (s.lists q.2).length + s.lengths queues := sum_cons

theorem lengths_eq (hq : q ∈ s.chainJobs.values) : s.lengths s.chainJobs.values =
    (s.lists q.2).length + s.lengths (s.chainJobs.erase q.1).values := by
  rw [← lengths_cons]
  exact ((Keyed.perm_cons_erase hq).map _).sum_eq

theorem Inv.others_write (h : Inv s) (hq : q ∈ s.chainJobs.values) {q' : κ × Nat}
    (hq' : q' ∈ s.chainJobs.values) (hne : q' ≠ q) : (s.write q msgs).lists q'.2 = s.lists q'.2 :=
  update_of_ne (fun heq => hne (h.apart q' hq' q hq heq)) _ _

theorem Inv.lengths_write (h : Inv s) (hq : q ∈ s.chainJobs.values) (msgs : List (κ × μ)) :
    (s.write q msgs).lengths (s.chainJobs.erase q.1).values =
      s.lengths (s.chainJobs.erase q.1).values := by
  refine congrArg sum (map_congr_left fun q' hq' => ?_)
  obtain ⟨hq', hne⟩ := Keyed.mem_erase.mp hq'
  rw [h.others_write hq hq' fun heq => hne (heq ▸ rfl)]

theorem Inv.write (h : Inv s) (hq : q ∈ s.chainJobs.values) (htag : ∀ m ∈ msgs, m.1 = q.1)
    (hseen : msgs ≠ [] → (∀ r ∈ s.recording, r.1 ≠ q.1) → q.1 ∈ s.chains) :
    Inv (s.write q msgs) := by
  have hself : (s.write q msgs).lists q.2 = msgs := update_self _ _ _
  refine ⟨⟨h.own, fun q' hq' hmsgs hnone => ?_, ?_⟩, h.apart, h.live, fun l hl => ?_, h.pool,
    fun q' hq' m hm => ?_, h.held⟩
  · by_cases heq : q' = q
    · subst heq
      exact hseen (hself ▸ hmsgs) hnone
    · exact h.seen q' hq' (h.others_write hq hq' heq ▸ hmsgs) hnone
  · have hold := h.size.trans (lengths_eq hq)
    have hnew := lengths_eq (s := s.write q msgs) hq
    have hrest := h.lengths_write hq msgs
    rw [hself] at hnew
    change s.size + msgs.length - (s.lists q.2).length = _
    change _ = _ + (s.write q msgs).lengths (s.chainJobs.erase q.1).values at hnew
    omega
  · have hne : l ≠ q.2 := by
      rintro rfl
      obtain hl | hl := hl
      · exact (h.live q hq).1 hl
      · exact absurd (h.live q hq).2 (Nat.not_lt.mpr hl)
    exact (update_of_ne hne _ _).trans (h.blank l hl)
  · by_cases heq : q' = q
    · subst heq
      exact htag m (hself ▸ hm)
    · exact h.tagged q' hq' m (h.others_write hq hq' heq ▸ hm)

theorem Inv.pushTo [DecidableEq μ] {m : μ} (h : Inv s) (hq : q ∈ s.chainJobs.values)
    (hpush : ∃ r ∈ s.recording, r.1 = q.1) : Inv (s.pushTo q m) := by
  unfold JobCenter.pushTo
  split
  · exact h
  refine h.write hq (fun m' hm' => ?_) fun _ hnone => ?_
  · obtain hm' | hm' := mem_append.mp hm'
    · exact h.tagged q hq m' hm'
    · rw [mem_singleton.mp hm']
  · obtain ⟨r, hr, heq⟩ := hpush
    exact absurd heq (hnone r hr)

/-- A list that nobody uses. -/
def Fresh (s : JobCenter κ μ) (l : Nat) : Prop :=
  s.lists l = [] ∧ (∀ q ∈ s.chainJobs.values, q.2 ≠ l) ∧ l ∉ s.pooled ∧ l < s.made

theorem Inv.getList {taken : Option Nat} {r : JobCenter κ μ × Nat} (h : Inv s)
    (hr : s.getList taken = some r) : Inv r.1 ∧ r.1.Fresh r.2 ∧
      r.1.chainJobs = s.chainJobs ∧ r.1.recording = s.recording := by
  cases taken with
  | none =>
    cases hr
    refine ⟨{ h with
      live := fun q hq => ⟨(h.live q hq).1, Nat.lt_succ_of_lt (h.live q hq).2⟩
      blank := fun l hl => h.blank l (hl.imp_right Nat.le_of_succ_le)
      pool := fun l hl => Nat.lt_succ_of_lt (h.pool l hl) },
      ⟨h.blank _ (.inr (Nat.le_refl _)), fun q hq => Nat.ne_of_lt (h.live q hq).2,
        fun hin => absurd (h.pool _ hin) (Nat.lt_irrefl _), Nat.lt_succ_self _⟩, rfl, rfl⟩
  | some l =>
    rw [JobCenter.getList] at hr
    split at hr
    · next hin =>
      cases hr
      have hsub : ∀ l' ∈ s.pooled.filter (· ≠ l), l' ∈ s.pooled := fun l' hl' => (mem_filter.mp hl').1
      exact ⟨{ h with
        live := fun q hq => ⟨fun hl => (h.live q hq).1 (hsub _ hl), (h.live q hq).2⟩
        blank := fun l hl => h.blank l (hl.imp_left (hsub l))
        pool := fun l hl => h.pool l (hsub l hl) },
        ⟨h.blank l (.inl hin), fun q hq heq => (h.live q hq).1 (heq ▸ hin), by simp, h.pool l hin⟩,
        rfl, rfl⟩
    · cases hr

theorem Inv.newJob (h : Inv s) (hnone : s.chainJobs.get chain = none) (hl : s.Fresh l) :
    Inv { s with chainJobs := s.chainJobs.put (chain, l) } := by
  obtain ⟨hlist, hfree, hl⟩ := hl
  have hmem : ∀ {q'}, q' ∈ (s.chainJobs.put (chain, l)).values ↔
      q' = (chain, l) ∨ q' ∈ s.chainJobs.values := by
    intro q'
    rw [Keyed.mem_put]
    exact or_congr_right ⟨And.left, fun hq' => ⟨hq', Keyed.get_eq_none_iff.mp hnone q' hq'⟩⟩
  refine ⟨⟨h.own, fun q' hq' hmsgs => ?_, ?_⟩, fun q₁ hq₁ q₂ hq₂ heq => ?_, fun q' hq' => ?_,
    h.blank, h.pool, fun q' hq' m hm => ?_, fun q' hq' => hmem.mpr (.inr (h.held q' hq'))⟩
  · obtain rfl | hq' := hmem.mp hq'
    · exact absurd hlist hmsgs
    · exact h.seen q' hq' hmsgs
  · change s.size = s.lengths ((chain, l) :: (s.chainJobs.erase chain).values)
    rw [Keyed.erase_eq_self hnone, lengths_cons, hlist, h.size]
    simp
  · obtain rfl | hq₁ := hmem.mp hq₁
    · obtain rfl | hq₂ := hmem.mp hq₂
      · rfl
      · exact absurd heq.symm (hfree q₂ hq₂)
    · obtain rfl | hq₂ := hmem.mp hq₂
      · exact absurd heq (hfree q₁ hq₁)
      · exact h.apart q₁ hq₁ q₂ hq₂ heq
  · obtain rfl | hq' := hmem.mp hq'
    · exact hl
    · exact h.live q' hq'
  · obtain rfl | hq' := hmem.mp hq'
    · rw [hlist] at hm
      cases hm
    · exact h.tagged q' hq' m hm

theorem Inv.newQueue {first second : Option Nat} (h : Inv s) (hnone : s.chainJobs.get chain = none)
    {r : JobCenter κ μ × Nat} (hr : s.newQueue chain first second = some r) :
    Inv r.1 ∧ (chain, r.2) ∈ r.1.chainJobs.values ∧ r.1.recording = s.recording := by
  obtain ⟨r₁, hr₁, hr⟩ := Option.bind_eq_some_iff.mp hr
  obtain ⟨r₂, hr₂, hr⟩ := Option.bind_eq_some_iff.mp hr
  cases hr
  obtain ⟨h₁, -, hjobs₁, hrec₁⟩ := h.getList hr₁
  obtain ⟨h₂, hfresh, hjobs₂, hrec₂⟩ := h₁.getList hr₂
  rw [← hjobs₁, ← hjobs₂] at hnone
  exact ⟨h₂.newJob hnone hfresh, Keyed.mem_put.mpr (.inl rfl), hrec₂.trans hrec₁⟩

theorem Inv.recorded {chains : List κ} {recording : List (κ × Bool)} (h : Inv s)
    (hchains : ∀ c ∈ s.chains, c ∈ chains)
    (hrecording : ∀ r ∈ s.recording, r.1 ∈ chains ∨ r.1 ∈ recording.map Prod.fst) :
    Inv { s with chains := chains, recording := recording } := by
  refine { h with seen := fun q hq hmsgs hnone => ?_ }
  by_cases hpush : ∃ r ∈ s.recording, r.1 = q.1
  · obtain ⟨r, hr, heq⟩ := hpush
    obtain hin | hin := hrecording r hr
    · exact heq ▸ hin
    · obtain ⟨r', hr', heq'⟩ := mem_map.mp hin
      exact absurd (heq'.trans heq) (hnone r' hr')
  · exact hchains _ (h.seen q hq hmsgs fun r hr heq => hpush ⟨r, hr, heq⟩)

omit [DecidableEq κ] in
theorem mem_eraseIdx_or {recording : List (κ × Bool)} {i : Nat} {r r' : κ × Bool}
    (hi : recording[i]? = some r) (hr' : r' ∈ recording) : r' = r ∨ r' ∈ recording.eraseIdx i := by
  obtain ⟨j, hj⟩ := mem_iff_getElem?.mp hr'
  by_cases heq : j = i
  · subst heq
    exact .inl (Option.some.inj (hj.symm.trans hi))
  · exact .inr (mem_eraseIdx_iff_getElem?.mpr ⟨j, heq, hj⟩)

theorem Inv.pop {m : κ × μ} (h : Inv s) (hq : q ∈ s.chainJobs.values)
    (hlist : s.lists q.2 = m :: msgs) : Inv { s.write q msgs with
      popped := s.popped ++ [(q.1, m)]
      chains := if msgs = [] then s.chains.filter (· ≠ q.1) else s.chains } := by
  have hm : ∀ m' ∈ m :: msgs, m'.1 = q.1 := hlist ▸ h.tagged q hq
  have hwrite : Inv (s.write q msgs) := by
    refine h.write hq (fun m' hm' => hm m' (.tail _ hm')) fun _ hnone => ?_
    exact h.seen q hq (by rw [hlist]; exact nofun) hnone
  refine { hwrite with own := fun p hp => ?_, seen := fun q' hq' hmsgs hnone => ?_ }
  · obtain hp | hp := mem_append.mp hp
    · exact h.own p hp
    · rw [mem_singleton.mp hp]
      exact hm m (.head _)
  · have hold := hwrite.seen q' hq' hmsgs hnone
    split
    · next hempty =>
      refine mem_filter.mpr ⟨hold, decide_eq_true fun heq => hmsgs ?_⟩
      rw [inj_on_of_nodup_map s.chainJobs.nodup hq' hq heq]
      exact (update_self _ _ _).trans hempty
    · exact hold

theorem Inv.free (h : Inv s) (hq : q ∈ s.chainJobs.values) (hheld : ∀ q' ∈ s.held, q'.1 ≠ q.1) :
    Inv { s.write q [] with
      chainJobs := s.chainJobs.erase q.1
      pooled := s.pooled ++ [q.2] } := by
  have hwrite : Inv (s.write q []) := h.write hq (fun _ hm => nomatch hm) fun hne => absurd rfl hne
  have hmem : ∀ {q'}, q' ∈ (s.chainJobs.erase q.1).values → q' ∈ s.chainJobs.values ∧ q'.1 ≠ q.1 :=
    Keyed.mem_erase.mp
  refine ⟨⟨hwrite.own, fun q' hq' => hwrite.seen q' (hmem hq').1, ?_⟩, fun q₁ hq₁ q₂ hq₂ =>
    h.apart q₁ (hmem hq₁).1 q₂ (hmem hq₂).1, fun q' hq' => ⟨fun hin => ?_, (h.live q' (hmem hq').1).2⟩,
    fun l hl => ?_, fun l hl => ?_, fun q' hq' => hwrite.tagged q' (hmem hq').1,
    fun q' hq' => Keyed.mem_erase.mpr ⟨h.held q' hq', hheld q' hq'⟩⟩
  · have hold := h.size.trans (lengths_eq hq)
    have hrest := h.lengths_write hq []
    change s.size + 0 - (s.lists q.2).length = (s.write q []).lengths (s.chainJobs.erase q.1).values
    omega
  · obtain hin | hin := mem_append.mp hin
    · exact (h.live q' (hmem hq').1).1 hin
    · exact (hmem hq').2 (congrArg Prod.fst (h.apart q' (hmem hq').1 q hq (mem_singleton.mp hin)))
  · obtain hl | hl := hl
    · obtain hl | hl := mem_append.mp hl
      · exact hwrite.blank l (.inl hl)
      · rw [mem_singleton.mp hl]
        exact update_self _ _ _
    · exact hwrite.blank l (.inr hl)
  · obtain hl | hl := mem_append.mp hl
    · exact h.pool l hl
    · rw [mem_singleton.mp hl]
      exact (h.live q hq).2

theorem Inv.step [DecidableEq μ] {e : Event κ μ} (h : Inv s) (hok : s.Unheld e)
    (hstep : s.step e = some s') : Inv s' := by
  cases e with
  | push chain m first second =>
    have hrecord : Inv { s with recording := s.recording ++ [(chain, false)] } :=
      h.recorded (fun _ => id) fun r hr =>
        .inr (mem_map_of_mem (mem_append_left _ hr))
    rw [JobCenter.step] at hstep
    split at hstep
    · next q hget =>
      cases hstep
      obtain ⟨hq, hkey⟩ := Keyed.get_eq_some_iff.mp hget
      exact hrecord.pushTo hq ⟨_, mem_append_right _ (mem_singleton_self _), hkey.symm⟩
    · next hnone =>
      obtain ⟨r, hr, rfl⟩ := Option.map_eq_some_iff.mp hstep
      obtain ⟨hnew, hq, hrecording⟩ := hrecord.newQueue hnone hr
      refine hnew.pushTo hq ⟨(chain, false), ?_, rfl⟩
      rw [hrecording]
      exact mem_append_right _ (mem_singleton_self _)
  | exist i =>
    rw [JobCenter.step] at hstep
    split at hstep
    · next chain hi =>
      split at hstep
      · next hin =>
        cases hstep
        refine h.recorded (fun _ => id) fun r hr => ?_
        obtain rfl | hr := mem_eraseIdx_or hi hr
        · exact .inl hin
        · exact .inr (mem_map_of_mem hr)
      · cases hstep
        refine h.recorded (fun _ => id) fun r hr => .inr ?_
        rw [map_append, mem_append]
        obtain rfl | hr := mem_eraseIdx_or hi hr
        · exact .inr (mem_singleton_self _)
        · exact .inl (mem_map_of_mem hr)
    · cases hstep
  | add i =>
    rw [JobCenter.step] at hstep
    split at hstep
    · next chain hi =>
      cases hstep
      have hchains : ∀ c, c ∈ s.chains ∨ c = chain →
          c ∈ if chain ∈ s.chains then s.chains else s.chains ++ [chain] := by
        rintro c (hc | rfl)
        · split
          · exact hc
          · exact mem_append_left _ hc
        · split
          · next hin => exact hin
          · exact mem_append_right _ (mem_singleton_self _)
      refine h.recorded (fun c hc => hchains c (.inl hc)) fun r hr => ?_
      obtain rfl | hr := mem_eraseIdx_or hi hr
      · exact .inl (hchains _ (.inr rfl))
      · exact .inr (mem_map_of_mem hr)
    · cases hstep
  | load chain =>
    obtain ⟨q, hget, rfl⟩ := Option.map_eq_some_iff.mp hstep
    refine { h with held := fun q' hq' => ?_ }
    obtain hq' | hq' := mem_append.mp hq'
    · exact h.held q' hq'
    · rw [mem_singleton.mp hq']
      exact (Keyed.get_eq_some_iff.mp hget).1
  | pop i =>
    rw [JobCenter.step] at hstep
    split at hstep
    · cases hstep
    · next q hi =>
      split at hstep
      · cases hstep
        exact h
      · next m msgs hlist =>
        cases hstep
        exact h.pop (h.held q (mem_of_getElem? hi)) hlist
  | remove i m =>
    obtain ⟨q, hi, rfl⟩ := Option.map_eq_some_iff.mp hstep
    have hq := h.held q (mem_of_getElem? hi)
    refine h.write hq (fun m' hm' => h.tagged q hq m' (mem_filter.mp hm').1) fun hne => ?_
    refine h.seen q hq fun hnil => hne ?_
    rw [hnil]
    rfl
  | leave i =>
    cases hstep
    exact { h with held := fun q hq => h.held q (mem_of_mem_eraseIdx hq) }
  | free chain =>
    obtain ⟨q, hget, rfl⟩ := Option.map_eq_some_iff.mp hstep
    obtain ⟨hq, rfl⟩ := Keyed.get_eq_some_iff.mp hget
    exact h.free hq hok
  | removeChainDone chain =>
    cases hstep
    refine { h with seen := fun q hq hmsgs hnone => ?_ }
    refine mem_filter.mpr ⟨h.seen q hq hmsgs hnone, decide_eq_true fun heq => ?_⟩
    obtain ⟨r, hr, hpush⟩ | hempty := hok
    · exact hnone r hr (hpush.trans heq.symm)
    · exact hmsgs (hempty q hq heq)

theorem inv_start : Inv (start : JobCenter κ μ) :=
  ⟨⟨nofun, nofun, rfl⟩, nofun, nofun, fun _ _ => rfl, nofun, nofun, nofun⟩

end JobCenter

end Nerthus.Witness
