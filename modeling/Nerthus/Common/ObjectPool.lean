import Nerthus.Lib.Keyed
import Nerthus.Lib.Runs

/-!
# The object pool

Package `common/objectpool`. A message goes to the object of its key. Where the pool
is full and the key has no object, the message waits in a queue of the key, until an
object that is freed makes room. A queue that gets long is given an object at once.
-/

namespace Nerthus

open Lib Function Lib.Keyed List

variable {κ μ : Type} [DecidableEq κ]

/-- `ObjectPool`: the keys that have an object, and the goroutines that empty a queue. -/
structure ObjectPool (κ μ : Type) [DecidableEq κ] where
  container : List κ
  /-- When the object of a key is due to be freed. -/
  freeChan : Keyed (Prod.fst : κ × Nat → κ)
  waitQueue : Keyed (Prod.fst : κ × Nat → κ)
  queues : Nat → List μ
  made : Nat
  waitQueueCh : List κ
  /-- The goroutines in `waitQueueGoHandle`. -/
  delivering : List (κ × Nat)
  /-- The goroutines that overtake, and whether they have made their object. -/
  overtaking : List (κ × Nat × Bool)
  /-- The messages passed to `Handle`, and those that an object has handled. -/
  accepted : List (κ × μ)
  handled : List (κ × μ)
  /-- The keys whose object was removed, and those whose callback was called. -/
  removed : List κ
  called : List κ

namespace ObjectPool

/-- `upperLimit` and `waitQueueUpper`; zero is no limit. -/
structure Limits where
  upper : Nat
  wait : Nat
deriving DecidableEq

inductive Event (κ μ : Type) where
  | handle (key : κ) (m : μ)
  | free (key : κ) (immediately : Bool) (freeTime : Nat)
  | cancelFree (key : κ)
  /-- A round of `dispatch`, with `freeChan` as it is read, and the keys whose objects agree to be
  stopped. -/
  | dispatch (now : Nat) (freeMap : List (κ × Nat)) (canStop : κ → Bool)
  | deliver (i : Nat)
  | overtake (i : Nat)

def start : ObjectPool κ μ where
  container := []
  freeChan := .empty
  waitQueue := .empty
  queues _ := []
  made := 0
  waitQueueCh := []
  delivering := []
  overtaking := []
  accepted := []
  handled := []
  removed := []
  called := []

variable (l : Limits) (s : ObjectPool κ μ)

def handle (key : κ) (m : μ) : ObjectPool κ μ :=
  if key ∈ s.container then { s with handled := s.handled ++ [(key, m)] }
  else if l.upper = 0 ∨ s.container.length < l.upper then
    { s with container := s.container ++ [key], handled := s.handled ++ [(key, m)] }
  else
    match s.waitQueue.get key with
    | none =>
      { s with
        waitQueue := s.waitQueue.put (key, s.made)
        queues := update s.queues s.made [m]
        made := s.made + 1
        waitQueueCh := s.waitQueueCh ++ [key] }
    | some (_, q) =>
      { s with
        queues := update s.queues q (s.queues q ++ [m])
        overtaking := if 0 < l.wait ∧ l.wait < (s.queues q).length + 1
          then s.overtaking ++ [(key, q, false)] else s.overtaking }

/-- `selectNext` without a selector: the rest of `waitQueueCh` from the first key on that waits. -/
def selectNext : List κ := s.waitQueueCh.dropWhile fun key => (s.waitQueue.get key).isNone

def freeFuc (canStop : κ → Bool) (key : κ) : ObjectPool κ μ :=
  if key ∉ s.container ∨ canStop key = false then s
  else
    let container := s.container.filter (· ≠ key)
    let s := { s with container := container, removed := s.removed ++ [key] }
    if l.upper ≤ container.length then s
    else
      match s.selectNext with
      | [] => { s with waitQueueCh := [] }
      | next :: rest =>
        match s.waitQueue.get next with
        | none => { s with waitQueueCh := rest }
        | some (_, q) =>
          { s with
            container := if next ∈ container then container else container ++ [next]
            waitQueueCh := rest
            waitQueue := s.waitQueue.erase next
            delivering := s.delivering ++ [(next, q)] }

def freeOne (canStop : κ → Bool) (key : κ) : ObjectPool κ μ :=
  let s := s.freeFuc l canStop key
  { s with freeChan := s.freeChan.erase key, called := s.called ++ [key] }

def due (now : Nat) (freeMap : List (κ × Nat)) : List κ :=
  (freeMap.filter fun e => e.2 < now).map Prod.fst

def early (now : Nat) (freeMap : List (κ × Nat)) : List κ :=
  if s.waitQueueCh ≠ [] then
    ((freeMap.filter fun e => ¬e.2 < now).map Prod.fst).take s.waitQueue.size
  else []

def step : Event κ μ → Option (ObjectPool κ μ)
  | .handle key m => some ({ s with accepted := s.accepted ++ [(key, m)] }.handle l key m)
  | .free key immediately freeTime =>
    if immediately then
      if key ∈ s.container then
        some { s with
          container := s.container.filter (· ≠ key)
          removed := s.removed ++ [key]
          called := s.called ++ [key] }
      else some s
    else if (s.freeChan.get key).isSome then some s
    else some { s with freeChan := s.freeChan.put (key, freeTime) }
  | .cancelFree key => some { s with freeChan := s.freeChan.erase key }
  | .dispatch now freeMap canStop =>
    if freeMap.Perm s.freeChan.values then
      let s := (due now freeMap).foldl (fun s => s.freeOne l canStop) s
      some ((s.early now freeMap).foldl (fun s => s.freeOne l canStop) s)
    else none
  | .deliver i =>
    match s.delivering[i]? with
    | none => none
    | some (key, q) =>
      match s.queues q with
      | [] => some { s with delivering := s.delivering.eraseIdx i }
      | m :: rest => some ({ s with queues := update s.queues q rest }.handle l key m)
  | .overtake i =>
    match s.overtaking[i]? with
    | none => none
    | some (key, q, false) =>
      let s := { s with waitQueue := s.waitQueue.erase key }
      if key ∈ s.container then some { s with overtaking := s.overtaking.eraseIdx i }
      else some { s with
        container := s.container ++ [key], overtaking := s.overtaking.set i (key, q, true) }
    | some (key, q, true) =>
      match s.queues q with
      | [] => some { s with overtaking := s.overtaking.eraseIdx i }
      | m :: rest => some { s with
        queues := update s.queues q rest, handled := s.handled ++ [(key, m)] }

/-! ## Order -/

def ofKey (key : κ) (ms : List (κ × μ)) : List μ := (ms.filter fun e => e.1 = key).map Prod.snd

def Idle (key : κ) : Prop := ∀ e ∈ s.delivering, e.1 = key → s.queues e.2 = []

/-- The messages of a key are handled in their order; the others are in a queue that is delivered or
waits for an object. -/
def InOrder (key : κ) : Prop :=
  ∃ pending, ofKey key s.accepted = ofKey key s.handled ++ pending ∧ (pending = [] ∨
    ∃ q, s.queues q = pending ∧ ((key, q) ∈ s.delivering ∧ key ∈ s.container ∨
      s.waitQueue.get key = some (key, q) ∧ key ∈ s.waitQueueCh))

def Frees (canStop : κ → Bool) (key : κ) : Prop :=
  key ∈ s.container ∧ canStop key = true ∧ s.Idle key

def AllFree (canStop : κ → Bool) : ObjectPool κ μ → List κ → Prop
  | _, [] => True
  | s, key :: keys => s.Frees canStop key ∧ AllFree canStop (s.freeOne l canStop key) keys

/-- No message comes for a key whose queue is being delivered, nor, where there is room, for one
that waits; no queue gets too long; an object is freed at once only if nobody waits, and `dispatch`
frees only objects that have all their messages. -/
def Orderly : Event κ μ → Prop
  | .handle key _ => s.Idle key ∧ (l.upper = 0 ∨ s.container.length < l.upper →
      s.waitQueue.get key = none) ∧
    ∀ e ∈ s.waitQueue.get key, l.wait = 0 ∨ (s.queues e.2).length < l.wait
  | .free key true _ => s.waitQueue.values = [] ∧ s.Idle key
  | .dispatch now freeMap canStop => AllFree l canStop s (due now freeMap) ∧
    let s₁ := (due now freeMap).foldl (fun s => s.freeOne l canStop) s
    AllFree l canStop s₁ (s₁.early now freeMap)
  | _ => True

section

variable [DecidableEq μ]

instance (key : κ) : Decidable (s.Idle key) := inferInstanceAs (Decidable (∀ e ∈ _, _ → _))

instance (canStop : κ → Bool) (key : κ) : Decidable (s.Frees canStop key) :=
  inferInstanceAs (Decidable (_ ∧ _ ∧ _))

instance decidableAllFree (canStop : κ → Bool) :
    (s : ObjectPool κ μ) → (keys : List κ) → Decidable (AllFree l canStop s keys)
  | _, [] => .isTrue trivial
  | s, key :: keys =>
    have := decidableAllFree canStop (s.freeOne l canStop key) keys
    inferInstanceAs (Decidable (_ ∧ _))

instance (e : Event κ μ) : Decidable (s.Orderly l e) :=
  match e with
  | .handle _ _ => inferInstanceAs (Decidable (_ ∧ (_ → _) ∧ _))
  | .free _ true _ => inferInstanceAs (Decidable (_ = _ ∧ _))
  | .free _ false _ | .cancelFree _ | .deliver _ | .overtake _ => .isTrue trivial
  | .dispatch _ _ _ => inferInstanceAs (Decidable (_ ∧ AllFree ..))

end

inductive KeyState (key : κ) (pending : List μ) : Prop where
  | done (hnil : pending = []) (idle : s.Idle key) (hget : s.waitQueue.get key = none)
  | waits (q : Nat) (hq : s.queues q = pending) (hne : pending ≠ []) (idle : s.Idle key)
      (hget : s.waitQueue.get key = some (key, q)) (hout : key ∉ s.container)
      (hlisted : key ∈ s.waitQueueCh)
  | delivered (q : Nat) (hq : s.queues q = pending) (hne : pending ≠ [])
      (hmem : (key, q) ∈ s.delivering)
      (hrest : ∀ q', (key, q') ∈ s.delivering → q' ≠ q → s.queues q' = [])
      (hget : s.waitQueue.get key = none) (hlive : key ∈ s.container)

def Settled (key : κ) : Prop :=
  ∃ pending, ofKey key s.accepted = ofKey key s.handled ++ pending ∧ s.KeyState key pending

def inUse : List (κ × Nat) := s.delivering ++ s.waitQueue.values

structure Inv : Prop where
  settled : ∀ key, s.Settled key
  owner : ∀ e ∈ s.inUse, ∀ e' ∈ s.inUse, e.2 = e'.2 → e.1 = e'.1
  made : ∀ e ∈ s.inUse, e.2 < s.made
  unlimited : l.upper = 0 → s.waitQueue.values = []
  limited : l.upper ≠ 0 → s.container.length ≤ l.upper
  quiet : s.overtaking = []
  called : s.called = s.removed

structure Frame (s s' : ObjectPool κ μ) (key : κ) : Prop where
  accepted : ofKey key s'.accepted = ofKey key s.accepted := by rfl
  handled : ofKey key s'.handled = ofKey key s.handled := by rfl
  get : s'.waitQueue.get key = s.waitQueue.get key := by rfl
  live : key ∈ s'.container ↔ key ∈ s.container := by rfl
  listed : key ∈ s.waitQueueCh → (s.waitQueue.get key).isSome = true → key ∈ s'.waitQueueCh :=
    by exact fun h _ => h
  sub : ∀ q, (key, q) ∈ s'.delivering → (key, q) ∈ s.delivering := by exact fun _ h => h
  keep : ∀ q, (key, q) ∈ s.delivering → s.queues q ≠ [] → (key, q) ∈ s'.delivering :=
    by exact fun _ h _ => h
  queues : ∀ q, (key, q) ∈ s.inUse → s'.queues q = s.queues q := by exact fun _ _ => rfl

variable {l s} {s' : ObjectPool κ μ} {key key' : κ} {m : μ} {pending : List μ}

theorem ofKey_concat_self (ms : List (κ × μ)) :
    ofKey key (ms ++ [(key, m)]) = ofKey key ms ++ [m] := by
  simp [ofKey]

theorem ofKey_concat_of_ne (ms : List (κ × μ)) (hne : key' ≠ key) :
    ofKey key' (ms ++ [(key, m)]) = ofKey key' ms := by
  simp [ofKey, hne.symm]

theorem Settled.inOrder (h : s.Settled key) : s.InOrder key := by
  obtain ⟨pending, heq, hstate⟩ := h
  refine ⟨pending, heq, ?_⟩
  cases hstate with
  | done hnil => exact .inl hnil
  | waits q hq hne idle hget hout hlisted => exact .inr ⟨q, hq, .inr ⟨hget, hlisted⟩⟩
  | delivered q hq hne hmem hrest hget hlive => exact .inr ⟨q, hq, .inl ⟨hmem, hlive⟩⟩

theorem mem_inUse_of_get {q : Nat} (hget : s.waitQueue.get key = some (key, q)) :
    (key, q) ∈ s.inUse :=
  mem_append_right _ (get_eq_some_iff.mp hget).1

theorem Settled.frame (h : s.Settled key) (hf : Frame s s' key) : s'.Settled key := by
  obtain ⟨pending, heq, hstate⟩ := h
  refine ⟨pending, by rw [hf.accepted, hf.handled, heq], ?_⟩
  have hold : ∀ q, (key, q) ∈ s.delivering → s'.queues q = s.queues q := fun q hq =>
    hf.queues q (mem_append_left _ hq)
  have hidle : s.Idle key → s'.Idle key := by
    rintro idle ⟨_, q⟩ he rfl
    rw [hold q (hf.sub q he)]
    exact idle _ (hf.sub q he) rfl
  cases hstate with
  | done hnil idle hget => exact .done hnil (hidle idle) (hf.get.trans hget)
  | waits q hq hne idle hget hout hlisted =>
    refine .waits q ((hf.queues q (mem_inUse_of_get hget)).trans hq) hne (hidle idle)
      (hf.get.trans hget) (mt hf.live.mp hout) (hf.listed hlisted ?_)
    rw [hget]
    rfl
  | delivered q hq hne hmem hrest hget hlive =>
    refine .delivered q ((hold q hmem).trans hq) hne (hf.keep q hmem (by rwa [hq]))
      (fun q' hq' hneq => ?_) (hf.get.trans hget) (hf.live.mpr hlive)
    rw [hold q' (hf.sub q' hq')]
    exact hrest q' (hf.sub q' hq') hneq

theorem Inv.settledAt (h : Inv l s) (key : κ) (hself : s'.Settled key)
    (hothers : ∀ k, k ≠ key → Frame s s' k) (k : κ) : s'.Settled k := by
  by_cases hk : k = key
  · exact hk ▸ hself
  · exact (h.settled k).frame (hothers k hk)

theorem Inv.queue_ne (h : Inv l s) {q q' : Nat} (hne : key' ≠ key) (hq : (key, q) ∈ s.inUse)
    (hq' : (key', q') ∈ s.inUse) : q' ≠ q := fun heq =>
  hne (h.owner _ hq' _ hq heq)

theorem Settled.of_idle (h : s.Settled key) (idle : s.Idle key) :
    ofKey key s.accepted = ofKey key s.handled ∧ s.waitQueue.get key = none ∨
      ∃ q, s.waitQueue.get key = some (key, q) ∧ s.queues q ≠ [] ∧
        ofKey key s.accepted = ofKey key s.handled ++ s.queues q ∧
        key ∉ s.container ∧ key ∈ s.waitQueueCh := by
  obtain ⟨pending, heq, hstate⟩ := h
  cases hstate with
  | done hnil idle hget => exact .inl ⟨by rw [heq, hnil, append_nil], hget⟩
  | waits q hq hne idle hget hout hlisted =>
    subst hq
    exact .inr ⟨q, hget, hne, heq, hout, hlisted⟩
  | delivered q hq hne hmem => exact absurd (hq.symm.trans (idle _ hmem rfl)) hne

theorem Inv.handle (h : Inv l s) (hok : s.Orderly l (.handle key m)) :
    Inv l ({ s with accepted := s.accepted ++ [(key, m)] }.handle l key m) := by
  obtain ⟨idle, hroom, hlong⟩ := hok
  have hcases := (h.settled key).of_idle idle
  unfold ObjectPool.handle
  dsimp only
  split
  · next hlive =>
    refine ⟨h.settledAt key ?_ fun k hk => ?_, h.owner, h.made, h.unlimited, h.limited, h.quiet,
      h.called⟩
    · rcases hcases with ⟨heq, hget⟩ | ⟨_, -, -, -, hout, -⟩
      · exact ⟨[], by simp only [ofKey_concat_self, heq, append_nil], .done rfl idle hget⟩
      · exact absurd hlive hout
    · exact { accepted := ofKey_concat_of_ne _ hk, handled := ofKey_concat_of_ne _ hk }
  split
  · next hout hfree =>
    refine ⟨h.settledAt key ?_ fun k hk => ?_, h.owner, h.made, h.unlimited, fun hne => ?_,
      h.quiet, h.called⟩
    · rcases hcases with ⟨heq, hget⟩ | ⟨_, hsome, -⟩
      · exact ⟨[], by simp only [ofKey_concat_self, heq, append_nil], .done rfl idle hget⟩
      · rw [hroom hfree] at hsome
        cases hsome
    · exact {
        accepted := ofKey_concat_of_ne _ hk
        handled := ofKey_concat_of_ne _ hk
        live := by simp [hk] }
    · have hlt := hfree.resolve_left hne
      rw [length_append, length_singleton]
      omega
  next hout hfull =>
  rw [not_or] at hfull
  split
  · next hget =>
    -- the queue is new, so that nobody else uses it
    have hlt : ∀ {e}, e ∈ s.inUse → e.2 ≠ s.made := fun he => Nat.ne_of_lt (h.made _ he)
    have hmem : ∀ {e}, e ∈ s.delivering ++ (s.waitQueue.put (key, s.made)).values →
        e = (key, s.made) ∨ e ∈ s.inUse := by
      intro e he
      rw [mem_append, mem_put] at he
      rw [inUse, mem_append]
      tauto
    refine ⟨h.settledAt key ?_ fun k hk => ?_, fun e he e' he' hsame => ?_, fun e he => ?_,
      fun h0 => absurd h0 hfull.1, h.limited, h.quiet, h.called⟩
    · rcases hcases with ⟨heq, -⟩ | ⟨_, hsome, -⟩
      · refine ⟨[m], by simp only [ofKey_concat_self, heq], .waits s.made
          (update_self ..) (cons_ne_nil _ _) (fun e he hkey => ?_) ?_ hout ?_⟩
        · dsimp only
          rw [update_of_ne (hlt (mem_append_left _ he))]
          exact idle e he hkey
        · rw [get_put, if_pos rfl]
        · exact mem_append_right _ (mem_singleton_self _)
      · rw [hget] at hsome
        cases hsome
    · exact {
        accepted := ofKey_concat_of_ne _ hk
        get := by rw [get_put, if_neg hk]
        listed := fun hch _ => mem_append_left _ hch
        queues := fun q hq => update_of_ne (hlt hq) .. }
    · rcases hmem he with rfl | he <;> rcases hmem he' with rfl | he'
      · rfl
      · exact absurd hsame.symm (hlt he')
      · exact absurd hsame (hlt he)
      · exact h.owner e he e' he' hsame
    · rcases hmem he with rfl | he
      · exact Nat.lt_succ_self _
      · exact Nat.lt_succ_of_lt (h.made e he)
  · next key₀ q hget =>
    have hkey : key₀ = key := (get_eq_some_iff.mp hget).2
    subst hkey
    have hquiet : ¬(0 < l.wait ∧ l.wait < (s.queues q).length + 1) := by
      have := hlong _ hget
      dsimp only at this
      omega
    refine ⟨h.settledAt key₀ ?_ fun k hk => ?_, h.owner, h.made, h.unlimited, h.limited, ?_,
      h.called⟩
    · rcases hcases with ⟨-, hnone⟩ | ⟨q', hsome, hne, heq, -, hlisted⟩
      · rw [hget] at hnone
        cases hnone
      cases hsome.symm.trans hget
      refine ⟨s.queues q ++ [m], by simp only [ofKey_concat_self, heq, append_assoc],
        .waits q (update_self ..) (by simp) (fun e he hkey => ?_) hget hout hlisted⟩
      have hempty := idle e he hkey
      dsimp only
      rw [update_of_ne, hempty]
      rintro rfl
      exact hne hempty
    · exact {
        accepted := ofKey_concat_of_ne _ hk
        queues := fun q' hq' =>
          update_of_ne (h.queue_ne hk (mem_inUse_of_get hget) hq') .. }
    · dsimp only
      rw [if_neg hquiet]
      exact h.quiet

theorem mem_eraseIdx_of_ne {α : Type} {xs : List α} {i : Nat} {x y : α} (hx : x ∈ xs)
    (hy : xs[i]? = some y) (hne : x ≠ y) : x ∈ xs.eraseIdx i := by
  obtain ⟨j, hj⟩ := mem_iff_getElem?.mp hx
  refine mem_eraseIdx_iff_getElem?.mpr ⟨j, fun hji => ?_, hj⟩
  rw [hji, hy] at hj
  exact hne (Option.some.inj hj).symm

theorem Inv.deliver (h : Inv l s) {i : Nat} (hstep : s.step l (.deliver i) = some s') :
    Inv l s' := by
  rw [step] at hstep
  split at hstep
  · cases hstep
  next key q hat =>
  have hmem : (key, q) ∈ s.delivering := mem_of_getElem? hat
  split at hstep
  · next hempty =>
    cases hstep
    have hsub : ∀ e ∈ s.delivering.eraseIdx i ++ s.waitQueue.values, e ∈ s.inUse := fun e he =>
      (mem_append.mp he).elim
        (fun he => mem_append_left _ ((eraseIdx_sublist _ _).subset he))
        (mem_append_right _)
    refine ⟨fun k => (h.settled k).frame { sub := ?_, keep := ?_ },
      fun e he e' he' => h.owner e (hsub e he) e' (hsub e' he'), fun e he => h.made e (hsub e he),
      h.unlimited, h.limited, h.quiet, h.called⟩
    · exact fun q' hq' => (eraseIdx_sublist _ _).subset hq'
    · refine fun q' hq' hne => mem_eraseIdx_of_ne hq' hat fun heq => hne ?_
      cases heq
      exact hempty
  · next m rest hqueue =>
    cases hstep
    -- the key is the one that is delivered, so that its object gets the message
    obtain ⟨pending, heq, hstate⟩ := h.settled key
    have hfound : s.queues q ≠ [] := by
      rw [hqueue]
      exact cons_ne_nil _ _
    cases hstate with
    | done hnil idle => exact absurd (idle _ hmem rfl) hfound
    | waits q' hq' hne idle => exact absurd (idle _ hmem rfl) hfound
    | delivered q' hq' hne hmem' hrest hget hlive =>
      have hsame : q = q' := by
        by_contra hneq
        exact hfound (hrest q hmem hneq)
      subst hsame
      rw [← hq', hqueue] at heq
      unfold ObjectPool.handle
      rw [if_pos hlive]
      refine ⟨h.settledAt key ⟨rest, ?_, ?_⟩ fun k hk => ?_, h.owner, h.made, h.unlimited, h.limited,
        h.quiet, h.called⟩
      · simp only [ofKey_concat_self, heq, append_assoc, singleton_append]
      · by_cases hnil : rest = []
        · refine .done hnil ?_ hget
          rintro ⟨_, q'⟩ he rfl
          dsimp only
          by_cases hqq : q' = q
          · rw [hqq, update_self, hnil]
          · rw [update_of_ne hqq]
            exact hrest q' he hqq
        · refine .delivered q (update_self ..) hnil hmem (fun q' he hqq => ?_) hget hlive
          dsimp only
          rw [update_of_ne hqq]
          exact hrest q' he hqq
      · exact {
          handled := ofKey_concat_of_ne _ hk
          queues := fun q' hq' =>
            update_of_ne (h.queue_ne hk (mem_append_left _ hmem) hq') .. }

theorem Inv.remove (h : Inv l s) (hlive : key ∈ s.container) (idle : s.Idle key) : Inv l { s with
      container := s.container.filter (· ≠ key)
      removed := s.removed ++ [key], called := s.called ++ [key] } := by
  refine ⟨h.settledAt key ?_ fun k hk => { live := by simp [hk] }, h.owner, h.made, h.unlimited,
    fun hne => ?_, h.quiet, ?_⟩
  · rcases (h.settled key).of_idle idle with ⟨heq, hget⟩ | ⟨_, -, -, -, hout, -⟩
    · exact ⟨[], by simpa using heq, .done rfl idle hget⟩
    · exact absurd hlive hout
  · exact Nat.le_trans (length_filter_le _ _) (h.limited hne)
  · dsimp only
    rw [h.called]

theorem mem_dropWhile {α : Type} {p : α → Bool} {xs : List α} {x : α} (hx : x ∈ xs)
    (hp : p x = false) : x ∈ xs.dropWhile p := by
  rw [← takeWhile_append_dropWhile (p := p) (l := xs), mem_append] at hx
  refine hx.resolve_left fun hx => ?_
  rw [all_eq_true.mp all_takeWhile x hx] at hp
  cases hp

theorem Inv.admit (h : Inv l s) (hroom : s.container.length < l.upper) {next : κ} {rest : List κ}
    (hnext : s.selectNext = next :: rest) :
    ∃ q, s.waitQueue.get next = some (next, q) ∧ Inv l { s with
      container := if next ∈ s.container then s.container else s.container ++ [next]
      waitQueueCh := rest
      waitQueue := s.waitQueue.erase next
      delivering := s.delivering ++ [(next, q)] } := by
  have hwaits := head?_dropWhile_not (fun k => (s.waitQueue.get k).isNone) s.waitQueueCh
  rw [← selectNext, hnext] at hwaits
  dsimp only [head?_cons] at hwaits
  obtain ⟨pending, heq, hstate⟩ := h.settled next
  cases hstate with
  | done hnil idle hget =>
    rw [hget] at hwaits
    cases hwaits
  | delivered q hq hne hmem hrest hget =>
    rw [hget] at hwaits
    cases hwaits
  | waits q hq hne idle hget hout hlisted =>
    have hsub : ∀ e ∈ s.delivering ++ [(next, q)] ++ (s.waitQueue.erase next).values,
        e ∈ s.inUse := by
      intro e he
      rw [mem_append, mem_append, mem_singleton, mem_erase] at he
      rcases he with (he | rfl) | he
      · exact mem_append_left _ he
      · exact mem_inUse_of_get hget
      · exact mem_append_right _ he.1
    refine ⟨q, hget, ?_⟩
    rw [if_neg hout]
    refine ⟨h.settledAt next ⟨pending, heq, .delivered q hq hne ?_ (fun q' hq' hneq => ?_) ?_ ?_⟩
      fun k hk => ?_, fun e he e' he' => h.owner e (hsub e he) e' (hsub e' he'),
      fun e he => h.made e (hsub e he), fun h0 => ?_, fun _ => ?_, h.quiet, h.called⟩
    · exact mem_append_right _ (mem_singleton_self _)
    · rcases mem_append.mp hq' with hq' | hq'
      · exact idle _ hq' rfl
      · cases mem_singleton.mp hq'
        exact absurd rfl hneq
    · exact get_eq_none_iff.mpr fun e he => (mem_erase.mp he).2
    · exact mem_append_right _ (mem_singleton_self _)
    · exact {
        get := by
          apply Option.ext
          intro e
          rw [get_eq_some_iff, get_eq_some_iff, mem_erase]
          exact ⟨fun he => ⟨he.1.1, he.2⟩, fun he => ⟨⟨he.1, by rw [he.2]; exact hk⟩, he.2⟩⟩
        live := by simp [hk]
        listed := fun hch hsome => by
          have hbehind : k ∈ s.selectNext :=
            mem_dropWhile hch (Option.isNone_eq_false_iff.mpr hsome)
          rw [hnext, mem_cons] at hbehind
          exact hbehind.resolve_left hk
        sub := fun q' hq' => (mem_append.mp hq').resolve_right fun hq' =>
          hk (congrArg Prod.fst (mem_singleton.mp hq'))
        keep := fun q' hq' _ => mem_append_left _ hq' }
    · exact absurd h0 (by omega)
    · dsimp only
      rw [length_append, length_singleton]
      omega

theorem Inv.setFreeChan (h : Inv l s) (freeChan : Keyed (Prod.fst : κ × Nat → κ)) :
    Inv l { s with freeChan := freeChan } :=
  ⟨fun k => (h.settled k).frame {}, h.owner, h.made, h.unlimited, h.limited, h.quiet, h.called⟩

theorem Inv.freeOne (h : Inv l s) {canStop : κ → Bool} (hfrees : s.Frees canStop key) :
    Inv l (s.freeOne l canStop key) ∧ (s.waitQueue.values ≠ [] →
      ∃ e ∈ s.waitQueue.values, e.1 ∈ (s.freeOne l canStop key).container) := by
  obtain ⟨hlive, hstop, idle⟩ := hfrees
  have hremoved := h.remove hlive idle
  have hfewer : (s.container.filter (· ≠ key)).length < s.container.length :=
    length_filter_lt_length_iff_exists.mpr ⟨key, hlive, by simp⟩
  unfold ObjectPool.freeOne freeFuc
  rw [if_neg (by simp [hlive, hstop])]
  dsimp only
  split
  · next hfull =>
    refine ⟨hremoved.setFreeChan _, fun hne => ?_⟩
    have h0 : l.upper ≠ 0 := fun h0 => hne (h.unlimited h0)
    have := h.limited h0
    omega
  next hroom =>
  split
  · next hnone =>
    -- nobody waits, since every key that waits is listed
    have hnobody : ∀ e ∈ s.waitQueue.values, False := by
      intro e he
      have hget : s.waitQueue.get e.1 = some e := get_eq_some_iff.mpr ⟨he, rfl⟩
      obtain ⟨_, -, hstate⟩ := h.settled e.1
      cases hstate with
      | done hnil idle hnone => rw [hget] at hnone; cases hnone
      | delivered q hq hne hmem hrest hnone => rw [hget] at hnone; cases hnone
      | waits q hq hne idle hsome hout hlisted =>
        have hdrop : e.1 ∈ s.selectNext := mem_dropWhile hlisted (by rw [hget]; rfl)
        exact not_mem_nil (hnone ▸ hdrop)
    refine ⟨?_, fun hne => ?_⟩
    · refine ⟨fun k => (hremoved.settled k).frame { listed := fun _ hsome => ?_ }, hremoved.owner,
        hremoved.made, hremoved.unlimited, hremoved.limited, hremoved.quiet, hremoved.called⟩
      obtain ⟨e, he⟩ := Option.isSome_iff_exists.mp hsome
      exact (hnobody e (get_eq_some_iff.mp he).1).elim
    · obtain ⟨e, he⟩ := exists_mem_of_ne_nil _ hne
      exact (hnobody e he).elim
  · next next rest hnext =>
    obtain ⟨q, hget, hserved⟩ := hremoved.admit (by simpa using hroom) hnext
    rw [hget]
    refine ⟨hserved.setFreeChan _, fun _ => ⟨(next, q), (get_eq_some_iff.mp hget).1, ?_⟩⟩
    dsimp only
    split
    · next hin => exact hin
    · exact mem_append_right _ (mem_singleton_self _)

theorem Inv.freeAll {canStop : κ → Bool} {keys : List κ} (h : Inv l s)
    (hall : AllFree l canStop s keys) : Inv l (keys.foldl (fun s => s.freeOne l canStop) s) := by
  induction keys generalizing s with
  | nil => exact h
  | cons key keys ih => exact ih (h.freeOne hall.1).1 hall.2

theorem Inv.step (h : Inv l s) {e : Event κ μ} (hok : s.Orderly l e) (hstep : s.step l e = some s') :
    Inv l s' := by
  cases e with
  | handle key m =>
    cases hstep
    exact h.handle hok
  | free key immediately freeTime =>
    rw [ObjectPool.step] at hstep
    cases immediately with
    | true =>
      rw [if_pos rfl] at hstep
      split at hstep
      · next hlive =>
        cases hstep
        exact h.remove hlive hok.2
      · cases hstep
        exact h
    | false =>
      rw [if_neg (by simp)] at hstep
      split at hstep
      · cases hstep
        exact h
      · cases hstep
        exact h.setFreeChan _
  | cancelFree key =>
    cases hstep
    exact h.setFreeChan _
  | dispatch now freeMap canStop =>
    rw [ObjectPool.step] at hstep
    split at hstep
    · cases hstep
      exact (h.freeAll hok.1).freeAll hok.2
    · cases hstep
  | deliver i => exact h.deliver hstep
  | overtake i =>
    rw [ObjectPool.step, h.quiet] at hstep
    cases hstep

theorem Inv.start : Inv l (start : ObjectPool κ μ) where
  settled _ := ⟨[], rfl, .done rfl nofun rfl⟩
  owner := nofun
  made := nofun
  unlimited _ := rfl
  limited _ := Nat.zero_le _
  quiet := rfl
  called := rfl

/-- If the calls are orderly, the messages of each key are handled in order and once, the callback
is called exactly for the objects removed, and an object freed makes room for a key that waits. -/
theorem delivered_in_order (h : Reaches (step l) (Orderly l) (start : ObjectPool κ μ) s) :
    (∀ key, s.InOrder key) ∧ s.called = s.removed ∧ ∀ key canStop, s.Frees canStop key →
      s.waitQueue.values ≠ [] →
        ∃ e ∈ s.waitQueue.values, e.1 ∈ (s.freeOne l canStop key).container := by
  have hinv := h.invariant Inv.start fun _ _ _ ht hok hstep => ht.step hok hstep
  exact ⟨fun key => (hinv.settled key).inOrder, hinv.called,
    fun key canStop hfrees => (hinv.freeOne hfrees).2⟩

/-- With one place, key 8 waits until `dispatch` frees the object of key 7. -/
theorem waits_for_place : ∃ s : ObjectPool Nat Nat, ofKey 8 s.handled = [2] ∧ s.InOrder 8 ∧
    s.called = [7] ∧ s.called = s.removed := by
  obtain ⟨s, hrun, hhandled, hcalled⟩ : ∃ s, Reaches (step ⟨1, 0⟩) (Orderly ⟨1, 0⟩)
      (start : ObjectPool Nat Nat) s ∧ ofKey 8 s.handled = [2] ∧ s.called = [7] :=
    Reaches.exists_of_run [.handle 7 1, .handle 8 2, .free 7 false 5,
      .dispatch 6 [(7, 5)] (fun _ => true), .deliver 0] (by decide +kernel)
  have hall := delivered_in_order hrun
  exact ⟨s, hhandled, hall.1 8, hcalled, hall.2.1⟩

theorem not_inOrder (h : ¬ofKey key s.handled <+: ofKey key s.accepted) : ¬s.InOrder key :=
  fun ⟨pending, heq, _⟩ => h ⟨pending, heq.symm⟩

/-- The object of key 7 is freed at once: the message of key 8 that waits is overtaken by the next.
Where a queue gets too long, a goroutine makes an object without room, and message 4 overtakes what
it has not handled. -/
theorem waits_forever :
    (∃ s, Reaches (step ⟨1, 0⟩) (fun _ _ => True) (start : ObjectPool Nat Nat) s ∧ ¬s.InOrder 8) ∧
    ∃ s, Reaches (step ⟨1, 1⟩) (fun _ _ => True) (start : ObjectPool Nat Nat) s ∧
      s.container.length = 2 ∧ ¬s.InOrder 8 := by
  constructor
  · obtain ⟨s, hrun, horder⟩ : ∃ s, Reaches (step ⟨1, 0⟩) (fun _ _ => True)
        (start : ObjectPool Nat Nat) s ∧ ¬ofKey 8 s.handled <+: ofKey 8 s.accepted :=
      Reaches.exists_of_run [.handle 7 1, .handle 8 2, .free 7 true 0, .handle 8 3]
        (by decide +kernel)
    exact ⟨s, hrun, not_inOrder horder⟩
  · obtain ⟨s, hrun, hfull, horder⟩ : ∃ s, Reaches (step ⟨1, 1⟩) (fun _ _ => True)
        (start : ObjectPool Nat Nat) s ∧ s.container.length = 2 ∧
          ¬ofKey 8 s.handled <+: ofKey 8 s.accepted :=
      Reaches.exists_of_run [.handle 7 1, .handle 8 2, .handle 8 3, .overtake 0, .overtake 0,
        .handle 8 4] (by decide +kernel)
    exact ⟨s, hrun, hfull, not_inOrder horder⟩

end ObjectPool

end Nerthus
