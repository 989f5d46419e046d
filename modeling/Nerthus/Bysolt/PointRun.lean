import Nerthus.Bysolt.PointChain
import Nerthus.Lib.Fuel

/-!
# The points over a run

From one call to the next the stored points stay the chain of the roots, and the cached
last point is the stored one as long as no update rewrites the chain behind it.
-/

namespace Nerthus.Bysolt

open Lib (Table)
open Realtime (Bytes)
open PointStorage Realtime List Nat

theorem sub_mono {t t' : Int} (h : t ≤ t') (u : Int) : sub t u ≤ sub t' u := by
  unfold sub
  omega

section Quotient

open Lib.Binary64

/-- The hours of a duration, as the division of `float64`s gives them. -/
def floatHours (diff : Nat) : Nat :=
  Lib.Binary64.floor (quotient (quotient diff 1) (2 ^ 52 * pointTimeSpan.toNat))

theorem le_quotient_of_hour {diff : Nat} (h : pointTimeSpan.toNat ≤ diff) :
    2 ^ 52 * pointTimeSpan.toNat ≤ quotient diff 1 := by
  have hexact : quotient pointTimeSpan.toNat 1 = 2 ^ 52 * pointTimeSpan.toNat := by decide +kernel
  rw [← hexact]
  exact quotient_mono one_pos (by decide) h

theorem one_le_floatHours {diff : Nat} (h : pointTimeSpan.toNat ≤ diff) : 1 ≤ floatHours diff := by
  have hquotient := one_le_quotient (b := 2 ^ 52 * pointTimeSpan.toNat) (by decide)
    (le_quotient_of_hour h)
  exact (le_div_iff_mul_le (by decide)).mpr (by rwa [one_mul])

theorem floatHours_mono {diff diff' : Nat} (hhour : pointTimeSpan.toNat ≤ diff)
    (h : diff ≤ diff') : floatHours diff ≤ floatHours diff' := by
  have hone : 1 ≤ pointTimeSpan.toNat := by decide
  have hrounded := quotient_mono (b := 1) Nat.one_pos (Nat.le_trans hone hhour) h
  have hquotient := quotient_mono (b := 2 ^ 52 * pointTimeSpan.toNat) (by decide)
    (le_quotient_of_hour hhour) hrounded
  exact Nat.div_le_div_right hquotient

end Quotient

theorem calcPointNumber_mono (initTime : Int) {t t' : Int} (h : t ≤ t') :
    calcPointNumber initTime t ≤ calcPointNumber initTime t' := by
  have hsub := sub_mono h (initTime / second * second)
  have hspan : pointTimeSpan = 3600000000000 := rfl
  unfold calcPointNumber
  dsimp only
  generalize sub t (initTime / second * second) = d at hsub ⊢
  generalize sub t' (initTime / second * second) = d' at hsub ⊢
  have hone : pointTimeSpan < d' → 1 ≤ floatHours d'.toNat := fun hd =>
    one_le_floatHours (by omega)
  have hmono : pointTimeSpan < d → floatHours d.toNat ≤ floatHours d'.toNat := fun hd =>
    floatHours_mono (by omega) (by omega)
  unfold floatHours at hone hmono
  split_ifs <;> omega

/-! ## One update -/

variable {s s' : PointStorage} {now : Int}

section Update

variable {H : Bytes → Bytes} {roots : List Bytes}

def updatedRoots (build : Nat → Build) : List Bytes → (todos : List Nat) → List Bytes
  | roots, [] => roots
  | roots, number :: todos =>
    match build number with
    | .failed => roots
    | .built root true => setRoot roots number root
    | .built root false => updatedRoots build (setRoot roots number root) todos

def NoClash (H : Bytes → Bytes) (build : Nat → Build) : List Bytes → (todos : List Nat) → Prop
  | _, [] => True
  | roots, number :: todos =>
    match build number with
    | .failed => True
    | .built root true => ClashFree H roots number root
    | .built root false =>
      ClashFree H roots number root ∧ NoClash H build (setRoot roots number root) todos

instance decidableNoClash (H : Bytes → Bytes) (build : Nat → Build) :
    (roots : List Bytes) → (todos : List Nat) → Decidable (NoClash H build roots todos)
  | _, [] => isTrue trivial
  | roots, number :: todos => by
    have := fun root => decidableNoClash H build (setRoot roots number root) todos
    unfold NoClash
    split <;> infer_instance

namespace PointStorage

structure Kept (s s' : PointStorage) : Prop where
  sysFirstUnitTime : s'.sysFirstUnitTime = s.sysFirstUnitTime
  last : s'.last = s.last
  cachedLastPoint : s'.cachedLastPoint = s.cachedLastPoint

theorem Kept.refl (s : PointStorage) : Kept s s := ⟨rfl, rfl, rfl⟩

theorem Kept.trans {s'' : PointStorage} (h : Kept s s') (h' : Kept s' s'') : Kept s s'' :=
  ⟨h'.sysFirstUnitTime.trans h.sysFirstUnitTime, h'.last.trans h.last,
    h'.cachedLastPoint.trans h.cachedLastPoint⟩

theorem Kept.todoDone (s : PointStorage) (points : Table Nat Point) (number : Nat) :
    Kept s (todoDone { s with points := points } number) := ⟨rfl, rfl, rfl⟩

theorem TodoOk.todoDone (h : s.TodoOk now) (points : Table Nat Point) (number : Nat) :
    (todoDone { s with points := points } number).TodoOk now := by
  refine ⟨h.sorted.filter _, fun n hn => h.pos n (mem_of_mem_filter hn),
    fun n hn => h.due n (mem_of_mem_filter hn), fun n hn => ?_⟩
  obtain ⟨hcached, hne⟩ := mem_filter.mp hn
  exact mem_filter.mpr ⟨h.cached n hcached, hne⟩

theorem updatePoint_eq (hs : Represents H s.points roots) {number : Nat} (hpos : 1 ≤ number)
    (hnumber : number ≤ roots.length + 1) (build : Build) :
    s.updatePoint H build number = .ok (match build with
      | .failed => none
      | .built treeRoot _ =>
        let point : Point := ⟨number, linkHash H roots (number - 1), treeRoot⟩
        let points := writeUnitPoint s.points point
        let points := relink H points.length points (number + 1) (point.hash H)
        some (todoDone { s with points := points } number)) := by
  unfold updatePoint
  rw [if_neg (by omega)]
  by_cases hone : number > 1
  · have hsome : (pointAt H roots (number - 1)).isSome := pointAt_isSome.mpr (by omega)
    obtain ⟨p, hp⟩ := Option.isSome_iff_exists.mp hsome
    rw [if_pos hone, hs (number - 1), hp, ← (pointAt_hash hp).2]
    cases build <;> rfl
  · have hfirst : number = 1 := by omega
    rw [if_neg hone, hfirst]
    cases build <;> rfl

theorem updateTodos_spec (build : Nat → Build) {todos : List Nat} (hs : Represents H s.points roots)
    (hreach : InReach roots.length todos) (hclash : NoClash H build roots todos)
    (htodo : s.TodoOk now) {lastUpdated : Nat} (hsorted : (lastUpdated :: todos).Pairwise (· < ·))
    (hlast : lastUpdated ≤ roots.length) : ∃ s' lastUpdated' updateErr,
      updateTodos H build todos s lastUpdated = .ok (s', lastUpdated', updateErr) ∧
        Represents H s'.points (updatedRoots build roots todos) ∧
        (updatedRoots build roots todos).length = max roots.length lastUpdated' ∧
        lastUpdated ≤ lastUpdated' ∧ Kept s s' ∧ s'.TodoOk now := by
  induction todos generalizing s roots lastUpdated with
  | nil => exact ⟨s, lastUpdated, none, rfl, hs, (max_eq_left hlast).symm, le_refl _,
      .refl s, htodo⟩
  | cons number todos ih =>
    obtain ⟨⟨hpos, hnumber⟩, hreach⟩ := hreach
    rw [updateTodos, updatePoint_eq hs hpos hnumber]
    rw [NoClash] at hclash
    rw [updatedRoots]
    cases hbuild : build number with
    | failed =>
      exact ⟨s, lastUpdated, some number, rfl, hs, (max_eq_left hlast).symm,
        le_refl _, .refl s, htodo⟩
    | built root stopped =>
      rw [hbuild] at hclash
      have hlength := length_setRoot hnumber root
      have hkept := Kept.todoDone s
      have hless : lastUpdated < number :=
        (pairwise_cons.mp hsorted).1 number (.head _)
      cases stopped with
      | true =>
        exact ⟨_, number, none, rfl, hs.update hpos hnumber hclash rfl, hlength,
          le_of_lt hless, hkept _ number, htodo.todoDone _ number⟩
      | false =>
        have hnew := hs.update hpos hnumber hclash.1 rfl
        have hle : number ≤ (setRoot roots number root).length := by omega
        rw [← hlength] at hreach
        obtain ⟨s', last', err, hrun, hroots, hlen, hup, hkept', htodo'⟩ :=
          ih hnew hreach hclash.2 (htodo.todoDone _ number) (pairwise_cons.mp hsorted).2
            hle
        exact ⟨s', last', err, hrun, hroots, hlen.trans (by omega), by omega,
          (hkept _ number).trans hkept', htodo'⟩

end PointStorage

end Update

/-! ## One call -/

namespace PointStorage

def treeRoots (s : PointStorage) : List Bytes :=
  (List.range s.last).map fun i => ((s.points.get (i + 1)).map Point.treeRoot).getD []

def pending (s : PointStorage) (now : Int) : List Nat :=
  match (List.range' (s.last + 1) (s.needLast now - s.last)).foldlM addTODO s with
  | .ok s => s.todos
  | .error _ => []

variable (H : Bytes → Bytes)

/-- An update meets no clash, and if the last point is cached, it adds a point or leaves the
roots. -/
structure UpdateOk (s : PointStorage) (now : Int) (build : Nat → Build) : Prop where
  noClash : NoClash H build s.treeRoots (s.pending now)
  fresh : s.cachedLastPoint = none ∨
    s.last < (updatedRoots build s.treeRoots (s.pending now)).length ∨
      updatedRoots build s.treeRoots (s.pending now) = s.treeRoots

instance (s : PointStorage) (now : Int) (build : Nat → Build) :
    Decidable (s.UpdateOk H now build) :=
  decidable_of_iff (NoClash H build s.treeRoots (s.pending now) ∧ _)
    ⟨fun h => ⟨h.1, h.2⟩, fun h => ⟨h.noClash, h.fresh⟩⟩

def StepOk (s : PointStorage) (e : Event) : Prop :=
  match e.call with
  | .newUnitDone _ => True
  | .updateNow build number =>
    match s.addTODO number with
    | .ok s => s.UpdateOk H e.now build
    | .error _ => True
  | .checkUpdate build => s.UpdateOk H e.now build
  | .lastPoint => True

instance (s : PointStorage) (e : Event) : Decidable (s.StepOk H e) := by
  unfold StepOk
  split
  · infer_instance
  · split <;> infer_instance
  · infer_instance
  · infer_instance

/-- `UpdateNow` is called for stored points. -/
def Admissible (s : PointStorage) (e : Event) : Prop :=
  match e.call with
  | .newUnitDone _ => True
  | .updateNow _ number => (s.points.get number).isSome
  | .checkUpdate _ => True
  | .lastPoint => True

instance (s : PointStorage) (e : Event) : Decidable (s.Admissible e) := by
  unfold Admissible
  split <;> infer_instance

/-- The stored points are the chain of their roots, the cached one is the last, the to-do list is in
order. -/
structure Inv (s : PointStorage) (now : Int) : Prop where
  chain : Represents H s.points s.treeRoots
  cache : s.cachedLastPoint = none ∨ s.cachedLastPoint = s.points.get s.last
  todo : s.TodoOk now

variable {H}

@[simp] theorem length_treeRoots (s : PointStorage) : s.treeRoots.length = s.last := by
  simp [treeRoots]

theorem treeRoots_eq {roots : List Bytes} (h : Represents H s.points roots)
    (hlast : roots.length = s.last) : s.treeRoots = roots := by
  apply ext_getElem?
  intro i
  rw [treeRoots, getElem?_map]
  by_cases hi : i < s.last
  · rw [getElem?_range hi, Option.map_some, h (i + 1), pointAt,
      getElem?_eq_getElem (by omega)]
    rfl
  · rw [getElem?_eq_none (by rw [length_range]; omega),
      getElem?_eq_none (by omega)]
    rfl

theorem Inv.congr (h : s.Inv H now) (honly : OnlyTodos s s') (htodo : s'.TodoOk now) :
    s'.Inv H now := by
  have hroots : s'.treeRoots = s.treeRoots := by
    rw [treeRoots, treeRoots, honly.points, honly.last]
  refine ⟨?_, ?_, htodo⟩
  · rw [hroots, honly.points]
    exact h.chain
  · rw [honly.cachedLastPoint, honly.points, honly.last]
    exact h.cache

theorem Inv.later {now' : Int} (h : s.Inv H now) (hnow : now ≤ now') : s.Inv H now' := by
  refine ⟨h.chain, h.cache, h.todo.sorted, h.todo.pos, fun n hn => ?_, h.todo.cached⟩
  have hdue := h.todo.due n hn
  have hmono : s.needLast now ≤ s.needLast now' := calcPointNumber_mono _ (by omega)
  omega

theorem Inv.checkUpdate (h : s.Inv H now) {build : Nat → Build} (hok : s.UpdateOk H now build) :
    ∃ s' updateErr, s.checkUpdate H now build = .ok (s', updateErr) ∧ s'.Inv H now := by
  have hnumbers : ∀ n ∈ range' (s.last + 1) (s.needLast now - s.last),
      1 ≤ n ∧ n ≤ max s.last (s.needLast now) := by
    intro n hn
    rw [mem_range'_1] at hn
    omega
  obtain ⟨s₁, hadd, honly, htodo, hmem⟩ := h.todo.addTODOs hnumbers
  have hpending : s.pending now = s₁.todos := by
    rw [pending, hadd]
  have hroots : Represents H s₁.points s.treeRoots := by
    rw [honly.points]
    exact h.chain
  have hreach : InReach s.treeRoots.length s₁.todos := by
    rw [length_treeRoots]
    refine inReach_of_sorted (s.needLast now) htodo.sorted htodo.pos ?_ ?_
    · intro n hn
      have hdue := htodo.due n hn
      rwa [honly.last, honly.needLast] at hdue
    · intro n hlt hle
      rw [hmem]
      exact .inl (mem_range'_1.mpr (by omega))
  obtain ⟨hclash, hfresh⟩ := hok
  rw [hpending] at hclash hfresh
  have hsorted : (0 :: s₁.todos).Pairwise (· < ·) :=
    pairwise_cons.mpr ⟨fun n hn => htodo.pos n hn, htodo.sorted⟩
  obtain ⟨s₂, lastUpdated, err, hrun, hroots₂, hlength, -, hkept, htodo₂⟩ :=
    updateTodos_spec build hroots hreach hclash htodo hsorted (zero_le _)
  have hlast : s₂.last = s.last := hkept.last.trans honly.last
  have hcached : s₂.cachedLastPoint = s.cachedLastPoint :=
    hkept.cachedLastPoint.trans honly.cachedLastPoint
  rw [length_treeRoots] at hlength
  have hresult : s.checkUpdate H now build = .ok (if lastUpdated > s.last then
      ({ s₂ with last := lastUpdated, cachedLastPoint := none }, err) else (s₂, err)) := by
    refine Lib.bind_eq_ok_iff.mpr ⟨s₁, hadd, Lib.bind_eq_ok_iff.mpr ⟨_, hrun, ?_⟩⟩
    dsimp only
    split <;> rfl
  rw [hresult]
  by_cases hmore : lastUpdated > s.last
  · rw [if_pos hmore]
    have hnew : { s₂ with last := lastUpdated, cachedLastPoint := none }.treeRoots =
        updatedRoots build s.treeRoots s₁.todos :=
      treeRoots_eq hroots₂ (by rw [hlength]; exact max_eq_right (le_of_lt hmore))
    refine ⟨_, err, rfl, ?_, .inl rfl, htodo₂.sorted, htodo₂.pos, fun n hn => ?_, htodo₂.cached⟩
    · rw [hnew]
      exact hroots₂
    · have hdue := htodo₂.due n hn
      have hneed : { s₂ with last := lastUpdated, cachedLastPoint := none }.needLast now =
          s₂.needLast now := rfl
      rw [hneed]
      dsimp only
      omega
  · rw [if_neg hmore]
    have hnew : s₂.treeRoots = updatedRoots build s.treeRoots s₁.todos :=
      treeRoots_eq hroots₂ (by omega)
    refine ⟨_, err, rfl, ?_, ?_, htodo₂⟩
    · rw [hnew]
      exact hroots₂
    · rw [hcached, hlast, hroots₂ s.last]
      rcases hfresh with hnone | hadds | hsame
      · exact .inl hnone
      · omega
      · rw [hsame, ← h.chain s.last]
        exact h.cache

theorem Inv.lastPoint (h : s.Inv H now) :
    s.lastPoint.1 = s.points.get s.last ∧ s.lastPoint.2.Inv H now := by
  have hzero : s.last = 0 → s.points.get s.last = none := by
    intro hlast
    rw [h.chain, hlast]
    rfl
  unfold PointStorage.lastPoint
  split
  · rename_i p hp
    refine ⟨?_, h⟩
    rcases h.cache with hnone | hcache
    · rw [hp] at hnone
      cases hnone
    · rw [← hcache, hp]
  · by_cases hlast : s.last > 0
    · rw [if_pos hlast]
      split
      · rename_i p hp
        exact ⟨hp.symm, h.chain, .inr hp.symm, h.todo.sorted, h.todo.pos, h.todo.due,
          h.todo.cached⟩
      · rename_i hp
        exact ⟨hp.symm, h⟩
    · rw [if_neg hlast]
      exact ⟨(hzero (by omega)).symm, h⟩

theorem Inv.newUnitDone (h : s.Inv H now) (timestamp : Nat) :
    s.newUnitDone now timestamp = .error .numberIsZero ∨
      ∃ s', s.newUnitDone now timestamp = .ok s' ∧ s'.Inv H now := by
  unfold PointStorage.newUnitDone
  by_cases hrecent : now - pointTimeSpan < int64 timestamp
  · rw [if_pos hrecent]
    exact .inr ⟨s, rfl, h⟩
  rw [if_neg hrecent]
  have hdue : calcPointNumber s.sysFirstUnitTime (int64 timestamp) ≤ s.needLast now := by
    rw [needLast]
    exact calcPointNumber_mono _ (Int.not_lt.mp hrecent)
  generalize calcPointNumber s.sysFirstUnitTime (int64 timestamp) = number at hdue ⊢
  by_cases hzero : number = 0
  · rw [addTODO, if_pos hzero]
    exact .inl rfl
  · obtain ⟨s', hadd, honly, htodo, -⟩ := h.todo.addTODO (one_le_iff_ne_zero.mpr hzero)
      (le_trans hdue (le_max_right _ _))
    exact .inr ⟨s', hadd, h.congr honly htodo⟩

theorem step_of_ok {e : Event} {x : Except Panic PointStorage} (h : s.apply H e = x)
    (hx : x = .ok s') : s.step H e = s' := by
  rw [step, h, hx]

theorem step_of_error {e : Event} {x : Except Panic PointStorage} {p : Panic} (h : s.apply H e = x)
    (hx : x = .error p) : s.step H e = s := by
  rw [step, h, hx]

theorem apply_newUnitDone (s : PointStorage) (now : Int) (timestamp : Nat) :
    s.apply H ⟨now, .newUnitDone timestamp⟩ = s.newUnitDone now timestamp := by
  rw [apply]

theorem apply_updateNow (s : PointStorage) (now : Int) (build : Nat → Build) (number : Nat) :
    s.apply H ⟨now, .updateNow build number⟩ = (s.updateNow H now build number).map Prod.fst := by
  rw [apply]

theorem apply_checkUpdate (s : PointStorage) (now : Int) (build : Nat → Build) :
    s.apply H ⟨now, .checkUpdate build⟩ = (s.checkUpdate H now build).map Prod.fst := by
  rw [apply]

theorem Inv.step {e : Event} (h : s.Inv H e.now) (hadmissible : s.Admissible e) (hok : s.StepOk H e) :
    (s.step H e).Inv H e.now := by
  obtain ⟨now, call⟩ := e
  cases call with
  | newUnitDone timestamp =>
    rcases h.newUnitDone timestamp with hpanic | ⟨s', hadd, hinv⟩
    · rw [step_of_error (apply_newUnitDone s now timestamp) hpanic]
      exact h
    · rw [step_of_ok (apply_newUnitDone s now timestamp) hadd]
      exact hinv
  | updateNow build number =>
    have hstored : 1 ≤ number ∧ number ≤ s.last := by
      have hsome : (s.points.get number).isSome := hadmissible
      rw [h.chain, pointAt_isSome, length_treeRoots] at hsome
      exact hsome
    obtain ⟨s₁, hadd, honly, htodo, -⟩ := h.todo.addTODO hstored.1
      (le_trans hstored.2 (le_max_left _ _))
    have hupdate : s₁.UpdateOk H now build := by
      simpa only [StepOk, hadd] using hok
    obtain ⟨s₂, err, hrun, hinv⟩ := (h.congr honly htodo).checkUpdate hupdate
    have happly : s.updateNow H now build number = .ok (s₂, err) :=
      Lib.bind_eq_ok_iff.mpr ⟨s₁, hadd, hrun⟩
    rw [step_of_ok (apply_updateNow s now build number) (by rw [happly]; rfl)]
    exact hinv
  | checkUpdate build =>
    obtain ⟨s₂, err, hrun, hinv⟩ := h.checkUpdate hok
    rw [step_of_ok (apply_checkUpdate s now build) (by rw [hrun]; rfl)]
    exact hinv
  | lastPoint => exact h.lastPoint.2

/-! ## The run -/

variable (H)

/-- The points `1` to the last are stored, each with the hash of the one before, and the last one is
returned. -/
structure Chained (s : PointStorage) : Prop where
  stored : ∀ n, (s.points.get n).isSome ↔ 1 ≤ n ∧ n ≤ s.last
  first : ∀ p, s.points.get 1 = some p → p.parent = emptyHash
  linked : ∀ n p q, s.points.get n = some p → s.points.get (n + 1) = some q →
    q.parent = p.hash H
  lastPoint : s.lastPoint.1 = s.points.get s.last
  lastPointStatus : s.lastPointStatus H = Point.toNodeStatus H (s.points.get s.last)

/-- The clock does not go back, and `UpdateNow` is called for stored points. -/
def Proper : PointStorage → (now : Int) → List Event → Prop
  | _, _, [] => True
  | s, now, e :: events => now ≤ e.now ∧ s.Admissible e ∧ Proper (s.step H e) e.now events

def Meets : PointStorage → List Event → Prop
  | _, [] => True
  | s, e :: events => s.StepOk H e ∧ Meets (s.step H e) events

instance decidableProper : (s : PointStorage) → (now : Int) → (events : List Event) →
    Decidable (s.Proper H now events)
  | _, _, [] => isTrue trivial
  | s, now, e :: events =>
    have := decidableProper (s.step H e) e.now events
    inferInstanceAs (Decidable (now ≤ e.now ∧ s.Admissible e ∧ _))

instance decidableMeets : (s : PointStorage) → (events : List Event) →
    Decidable (s.Meets H events)
  | _, [] => isTrue trivial
  | s, e :: events =>
    have := decidableMeets (s.step H e) events
    inferInstanceAs (Decidable (s.StepOk H e ∧ _))

variable {H}

theorem Inv.chained (h : s.Inv H now) : s.Chained H := by
  refine ⟨fun n => ?_, fun p hp => ?_, fun n p q hp hq => ?_, h.lastPoint.1, ?_⟩
  · rw [h.chain, pointAt_isSome, length_treeRoots]
  · rw [h.chain] at hp
    exact pointAt_parent hp
  · rw [h.chain] at hp hq
    rw [pointAt_parent hq, (pointAt_hash hp).2]
  · rw [lastPointStatus, h.lastPoint.1]

theorem inv_newStorage (firstTimestamp : Nat) (now : Int) :
    (newStorage firstTimestamp).Inv H now := by
  have hnone : ∀ n ∈ ([] : List Nat), False := nofun
  refine ⟨fun n => ?_, .inl rfl, .nil, fun n hn => (hnone n hn).elim,
    fun n hn => (hnone n hn).elim, fun n hn => (hnone n hn).elim⟩
  cases n <;> rfl

theorem Proper.of_append {seen rest : List Event} (h : s.Proper H now (seen ++ rest)) :
    s.Proper H now seen := by
  induction seen generalizing s now with
  | nil => trivial
  | cons e seen ih => exact ⟨h.1, h.2.1, ih h.2.2⟩

theorem Meets.of_append {seen rest : List Event} (h : s.Meets H (seen ++ rest)) :
    s.Meets H seen := by
  induction seen generalizing s with
  | nil => trivial
  | cons e seen ih => exact ⟨h.1, ih h.2⟩

theorem Inv.run (h : s.Inv H now) {events : List Event} (hproper : s.Proper H now events)
    (hmeets : s.Meets H events) : ∃ now', (s.run H events).Inv H now' := by
  induction events generalizing s now with
  | nil => exact ⟨now, h⟩
  | cons e events ih =>
    obtain ⟨hnow, hadmissible, hproper⟩ := hproper
    exact ih ((h.later hnow).step hadmissible hmeets.1) hproper hmeets.2

end PointStorage

/-- In a run whose calls meet the condition, the points are linked and the last one is current. -/
theorem run_chained (H : Bytes → Bytes) (firstTimestamp : Nat) (now : Int) (events : List Event)
    (hproper : (newStorage firstTimestamp).Proper H now events)
    (hmeets : (newStorage firstTimestamp).Meets H events) : ∀ seen rest, events = seen ++ rest →
      ((newStorage firstTimestamp).run H seen).Chained H := by
  intro seen rest heq
  subst heq
  obtain ⟨now', hinv⟩ := (inv_newStorage firstTimestamp now).run hproper.of_append
    hmeets.of_append
  exact hinv.chained

def hourRoots (first : Bytes) (number : Nat) : Build :=
  if number = 1 then .built first false else .built [0, 0, 0, UInt8.ofNat number] false

def rewriteThenRead : List Event :=
  [⟨3 * pointTimeSpan, .checkUpdate (hourRoots [0, 0, 0, 1])⟩,
    ⟨3 * pointTimeSpan, .newUnitDone 600000000000⟩,
    ⟨3 * pointTimeSpan, .checkUpdate (hourRoots [0, 0, 0, 9])⟩,
    ⟨4 * pointTimeSpan, .lastPoint⟩,
    ⟨4 * pointTimeSpan, .checkUpdate (hourRoots [0, 0, 0, 9])⟩]

theorem chained_rewriteThenRead : (newStorage 0).Proper fnv32 0 rewriteThenRead ∧
      (newStorage 0).Meets fnv32 rewriteThenRead ∧
        ((newStorage 0).run fnv32 rewriteThenRead).Chained fnv32 := by
  have hproper : (newStorage 0).Proper fnv32 0 rewriteThenRead := by
    decide +kernel
  have hmeets : (newStorage 0).Meets fnv32 rewriteThenRead := by
    decide +kernel
  exact ⟨hproper, hmeets, run_chained fnv32 0 0 rewriteThenRead hproper hmeets _ []
    (append_nil _).symm⟩

def readThenRewrite : List Event :=
  [⟨3 * pointTimeSpan, .checkUpdate (hourRoots [0, 0, 0, 1])⟩,
    ⟨3 * pointTimeSpan, .lastPoint⟩,
    ⟨3 * pointTimeSpan, .newUnitDone 600000000000⟩,
    ⟨3 * pointTimeSpan, .checkUpdate (hourRoots [0, 0, 0, 9])⟩]

/-- The last point has another parent now, but `LastPoint` returns the old one. -/
theorem lastPoint_stale : (newStorage 0).Proper fnv32 0 readThenRewrite ∧
      ¬ ((newStorage 0).run fnv32 readThenRewrite).Chained
        fnv32 := by
  refine ⟨by decide +kernel, fun h => ?_⟩
  have hlast : ¬ ((newStorage 0).run fnv32 readThenRewrite).lastPoint.1 =
      ((newStorage 0).run fnv32 readThenRewrite).points.get
        ((newStorage 0).run fnv32 readThenRewrite).last := by
    decide +kernel
  exact hlast h.lastPoint

end Nerthus.Bysolt
