import Nerthus.Bysolt.Points

/-!
# The points are linked

The chain of the points is determined by the roots of the trees of the hours. An
update changes one root, and the store follows, unless the loop over the later points
stops where two hashes happen to agree.
-/

namespace Nerthus.Bysolt

open Lib (Table)
open Realtime (Bytes uint64ToBytes)
open List

variable (H : Bytes → Bytes)

def linkHash (roots : List Bytes) : Nat → Bytes
  | 0 => emptyHash
  | n + 1 => Point.hash H ⟨n + 1, linkHash roots n, roots[n]?.getD []⟩

def pointAt (roots : List Bytes) : Nat → Option Point
  | 0 => none
  | n + 1 => roots[n]?.map fun root => ⟨n + 1, linkHash H roots n, root⟩

def Represents (points : Table Nat Point) (roots : List Bytes) : Prop :=
  ∀ n, points.get n = pointAt H roots n

def setRoot (roots : List Bytes) (number : Nat) (root : Bytes) : List Bytes :=
  if number ≤ roots.length then roots.set (number - 1) root else roots ++ [root]

/-- No later point has the hash that the one before it is given, unless that is its parent
already. -/
def ClashFree (roots : List Bytes) (number : Nat) (root : Bytes) : Prop :=
  ∀ n < roots.length, number ≤ n →
    linkHash H roots (n + 1) = linkHash H (setRoot roots number root) n →
      linkHash H roots n = linkHash H (setRoot roots number root) n

instance (roots : List Bytes) (number : Nat) (root : Bytes) :
    Decidable (ClashFree H roots number root) := by
  unfold ClashFree
  infer_instance

variable {H} {roots roots' : List Bytes}

variable {n number next : Nat} {points : Table Nat Point} {s : PointStorage} {p : Point}

theorem linkHash_congr {m : Nat} (hm : linkHash H roots m = linkHash H roots' m)
    (hrest : ∀ i, m ≤ i → i < n → roots[i]? = roots'[i]?) (hmn : m ≤ n) :
    linkHash H roots n = linkHash H roots' n := by
  induction n with
  | zero =>
    rw [linkHash, linkHash]
  | succ n ih =>
    by_cases heq : m = n + 1
    · rw [← heq]
      exact hm
    · have hprev := ih (fun i hi hin => hrest i hi (by omega)) (by omega)
      rw [linkHash, linkHash, hprev, hrest n (by omega) (by omega)]

theorem pointAt_congr {m : Nat} (hm : linkHash H roots m = linkHash H roots' m)
    (hrest : ∀ i, m ≤ i → i < n → roots[i]? = roots'[i]?) (hmn : m < n) :
    pointAt H roots n = pointAt H roots' n := by
  obtain ⟨n, rfl⟩ : ∃ k, n = k + 1 := ⟨n - 1, by omega⟩
  have hlink := linkHash_congr hm (fun i hi hin => hrest i hi (by omega)) (Nat.le_of_lt_succ hmn)
  rw [pointAt, pointAt, hlink, hrest n (by omega) (by omega)]

theorem pointAt_prefix (hroots : ∀ i < n, roots[i]? = roots'[i]?) :
    pointAt H roots n = pointAt H roots' n := by
  cases n with
  | zero => rfl
  | succ n => exact pointAt_congr (m := 0) rfl (fun i _ hi => hroots i hi) (by omega)

theorem pointAt_isSome : (pointAt H roots n).isSome ↔ 1 ≤ n ∧ n ≤ roots.length := by
  cases n with
  | zero => simp [pointAt]
  | succ n =>
    rw [pointAt, Option.isSome_map, isSome_getElem?]
    omega

theorem pointAt_hash (hp : pointAt H roots n = some p) :
    p.number = n ∧ p.hash H = linkHash H roots n := by
  cases n with
  | zero => cases hp
  | succ n =>
    obtain ⟨root, hroot, rfl⟩ := Option.map_eq_some_iff.mp hp
    rw [linkHash, hroot]
    exact ⟨rfl, rfl⟩

theorem pointAt_parent (hp : pointAt H roots (n + 1) = some p) : p.parent = linkHash H roots n := by
  obtain ⟨root, -, rfl⟩ := Option.map_eq_some_iff.mp hp
  rfl

theorem length_setRoot (hnumber : number ≤ roots.length + 1) (root : Bytes) :
    (setRoot roots number root).length = max roots.length number := by
  unfold setRoot
  split
  · rw [length_set]
    omega
  · rw [length_append, length_singleton]
    omega

theorem getElem?_setRoot_self (hpos : 1 ≤ number) (hnumber : number ≤ roots.length + 1)
    (root : Bytes) : (setRoot roots number root)[number - 1]? = some root := by
  unfold setRoot
  split
  · exact getElem?_set_self (by omega)
  · have hlast : number - 1 = roots.length := by omega
    rw [hlast, getElem?_concat_length]

theorem getElem?_setRoot_of_ne {i : Nat} (hpos : 1 ≤ number) (hnumber : number ≤ roots.length + 1)
    (hi : i ≠ number - 1) (root : Bytes) : (setRoot roots number root)[i]? = roots[i]? := by
  unfold setRoot
  split
  · exact getElem?_set_ne (Ne.symm hi)
  by_cases hlt : i < roots.length
  · exact getElem?_append_left hlt
  · rw [getElem?_eq_none (by rw [length_append, length_singleton]; omega),
      getElem?_eq_none (by omega)]

/-! ## Writing the chain again -/

/-- Below `next` the table has the new chain, from there on the old one. -/
def Mixed (H : Bytes → Bytes) (points : Table Nat Point) (roots' roots : List Bytes) (next : Nat) :
    Prop :=
  ∀ n, points.get n = if n < next then pointAt H roots' n else pointAt H roots n

theorem Mixed.succ (h : Mixed H points roots' roots next) (hnumber : p.number = next)
    (hpos : 1 ≤ next) (hp : pointAt H roots' next = some p) :
    Mixed H (writeUnitPoint points p) roots' roots (next + 1) := by
  intro n
  rw [writeUnitPoint, if_neg (by omega), hnumber]
  by_cases heq : n = next
  · rw [heq, Table.get_put_self, if_pos (Nat.lt_succ_self next), hp]
  rw [Table.get_put_of_ne _ heq, h n]
  by_cases hlt : n < next
  · rw [if_pos hlt, if_pos (by omega)]
  · rw [if_neg hlt, if_neg (by omega)]

def ahead (points : Table Nat Point) (next : Nat) : Nat :=
  points.countP fun e => decide (next ≤ e.1)

theorem ahead_succ_lt (h : points.get next = some p) :
    ahead points (next + 1) < ahead points next := by
  refine Table.countP_lt_of_get (p := fun k => decide (next ≤ k))
    (q := fun k => decide (next + 1 ≤ k)) h (fun k hk => ?_) (by simp) (by simp)
  rw [decide_eq_true_eq] at hk ⊢
  omega

theorem ahead_write (hp : 1 ≤ p.number) :
    ahead (writeUnitPoint points p) (p.number + 1) = ahead points (p.number + 1) := by
  rw [writeUnitPoint, if_neg (by omega)]
  exact Table.countP_put_of_not (p := fun k => decide (p.number + 1 ≤ k)) (by simp) p

theorem Mixed.represents (h : Mixed H points roots' roots next)
    (hsame : ∀ n, next ≤ n → pointAt H roots n = pointAt H roots' n) :
    Represents H points roots' := by
  intro n
  rw [h n]
  by_cases hlt : n < next
  · rw [if_pos hlt]
  · rw [if_neg hlt, hsame n (by omega)]

theorem Mixed.represents_of_none (h : Mixed H points roots' roots next) (hpos : 1 ≤ next)
    (hrest : ∀ i, next ≤ i + 1 → roots[i]? = roots'[i]?) (hnone : points.get next = none) :
    Represents H points roots' := by
  rw [h next, if_neg (Nat.lt_irrefl next), ← Option.not_isSome_iff_eq_none, pointAt_isSome]
    at hnone
  refine h.represents fun n hn => ?_
  obtain ⟨m, rfl⟩ : ∃ m, n = m + 1 := ⟨n - 1, by omega⟩
  have hshort : roots[m]? = none := getElem?_eq_none (by omega)
  rw [pointAt, pointAt, ← hrest m hn, hshort]
  rfl

theorem Mixed.relink {bound : Nat} (h : Mixed H points roots' roots next) (hpos : 1 ≤ next)
    (hbound : ahead points next ≤ bound) (hrest : ∀ i, next ≤ i + 1 → roots[i]? = roots'[i]?)
    (hclash : ∀ n, next ≤ n + 1 → n < roots.length →
      linkHash H roots (n + 1) = linkHash H roots' n → linkHash H roots n = linkHash H roots' n) :
    Represents H (relink H bound points next (linkHash H roots' (next - 1))) roots' := by
  induction bound generalizing points next with
  | zero =>
    apply h.represents_of_none hpos hrest
    by_contra hget
    obtain ⟨p, hp⟩ := Option.ne_none_iff_exists'.mp hget
    have := ahead_succ_lt hp
    omega
  | succ bound ih =>
    rw [Bysolt.relink]
    cases hget : points.get next with
    | none => exact h.represents_of_none hpos hrest hget
    | some p =>
      have hold := hget
      rw [h next, if_neg (Nat.lt_irrefl next)] at hold
      obtain ⟨hnumber, hhash⟩ := pointAt_hash hold
      obtain ⟨n, rfl⟩ : ∃ n, next = n + 1 := ⟨next - 1, by omega⟩
      have hsome : (pointAt H roots (n + 1)).isSome := by
        rw [hold]
        rfl
      rw [pointAt_isSome] at hsome
      rw [Nat.add_sub_cancel]
      dsimp only
      by_cases hstop : p.hash H = linkHash H roots' n
      · -- The loop stops; without a clash the parent was right already.
        rw [if_pos hstop]
        have hlink := hclash n (Nat.le_refl _) hsome.2 (hhash.symm.trans hstop)
        exact h.represents fun m hm =>
          pointAt_congr hlink (fun i hi _ => hrest i (by omega)) (by omega)
      · rw [if_neg hstop]
        have hnew : pointAt H roots' (n + 1) =
            some { p with parent := linkHash H roots' n } := by
          obtain ⟨root, hroot, rfl⟩ := Option.map_eq_some_iff.mp hold
          rw [pointAt, ← hrest n (Nat.le_refl _), hroot]
          rfl
        generalize ({ p with parent := linkHash H roots' n } : Point) = q at hnew ⊢
        obtain ⟨hqnumber, hqhash⟩ := pointAt_hash hnew
        have hless := ahead_succ_lt hget
        have hwrite : ahead (writeUnitPoint points q) (q.number + 1) = _ :=
          ahead_write (by omega)
        rw [hqnumber] at hwrite
        rw [hqhash]
        exact ih (h.succ hqnumber hpos hnew) (by omega) (by omega) (fun i hi => hrest i (by omega))
          fun m hm => hclash m (by omega)

theorem Represents.update (h : Represents H points roots) (hpos : 1 ≤ number)
    (hnumber : number ≤ roots.length + 1) {root : Bytes} (hclash : ClashFree H roots number root)
    {point : Point} (hpoint : point = ⟨number, linkHash H roots (number - 1), root⟩) :
    Represents H (relink H (writeUnitPoint points point).length (writeUnitPoint points point)
      (number + 1) (point.hash H)) (setRoot roots number root) := by
  have hother : ∀ i, i ≠ number - 1 → roots[i]? = (setRoot roots number root)[i]? :=
    fun i hi => (getElem?_setRoot_of_ne hpos hnumber hi root).symm
  have hnew : pointAt H (setRoot roots number root) number = some point := by
    obtain ⟨n, rfl⟩ : ∃ n, number = n + 1 := ⟨number - 1, by omega⟩
    have hself := getElem?_setRoot_self hpos hnumber root
    rw [Nat.add_sub_cancel] at hself hpoint hother
    have hlink : linkHash H roots n = linkHash H (setRoot roots (n + 1) root) n :=
      linkHash_congr (m := 0) rfl (fun i _ hi => hother i (by omega)) (Nat.zero_le _)
    rw [pointAt, hself, hpoint, Option.map_some, hlink]
  have hbefore : Mixed H points (setRoot roots number root) roots number := by
    intro n
    rw [h n]
    by_cases hlt : n < number
    · rw [if_pos hlt]
      exact pointAt_prefix fun i hi => hother i (by omega)
    · rw [if_neg hlt]
  have hmixed := hbefore.succ (by rw [hpoint]) hpos hnew
  rw [(pointAt_hash hnew).2]
  refine hmixed.relink (by omega) countP_le_length (fun i hi => hother i (by omega)) ?_
  exact fun n hn hlt => hclash n hlt (by omega)

/-! ## The to-do list -/

/-- From a chain of `last` points on, none of the numbers leaves a gap. -/
def InReach : (last : Nat) → List Nat → Prop
  | _, [] => True
  | last, number :: todos =>
    (1 ≤ number ∧ number ≤ last + 1) ∧ InReach (max last number) todos

theorem inReach_of_sorted {last : Nat} (need : Nat) {todos : List Nat}
    (hsorted : todos.Pairwise (· < ·)) (hpos : ∀ n ∈ todos, 1 ≤ n)
    (hdue : ∀ n ∈ todos, n ≤ max last need) (hall : ∀ n, last < n → n ≤ need → n ∈ todos) :
    InReach last todos := by
  induction todos generalizing last with
  | nil => trivial
  | cons number todos ih =>
    obtain ⟨hhead, htail⟩ := pairwise_cons.mp hsorted
    have hpos' : ∀ n ∈ todos, 1 ≤ n := fun n hn => hpos n (.tail _ hn)
    have hnumber := hdue number (.head _)
    have hrest : ∀ n, max last number < n → n ≤ need → n ∈ todos := by
      intro n hlt hle
      exact (mem_cons.mp (hall n (by omega) hle)).resolve_left (by omega)
    refine ⟨⟨hpos number (.head _), ?_⟩, ih htail hpos' (fun n hn => ?_) hrest⟩
    · -- The number after the last point is on the list, and not before the head.
      by_contra hgap
      rcases mem_cons.mp (hall (last + 1) (by omega) (by omega)) with heq | hmem
      · omega
      · have := hhead _ hmem
        omega
    · have := hdue n (.tail _ hn)
      omega

namespace PointStorage

/-- The to-do list is in order, its numbers are due, and what is cached of it is on it. -/
structure TodoOk (s : PointStorage) (now : Int) : Prop where
  sorted : s.todos.Pairwise (· < ·)
  pos : ∀ n ∈ s.todos, 1 ≤ n
  due : ∀ n ∈ s.todos, n ≤ max s.last (s.needLast now)
  cached : ∀ n ∈ s.todoCache, n ∈ s.todos

structure OnlyTodos (s s' : PointStorage) : Prop where
  sysFirstUnitTime : s'.sysFirstUnitTime = s.sysFirstUnitTime
  points : s'.points = s.points
  last : s'.last = s.last
  cachedLastPoint : s'.cachedLastPoint = s.cachedLastPoint

theorem OnlyTodos.refl (s : PointStorage) : OnlyTodos s s := ⟨rfl, rfl, rfl, rfl⟩

theorem OnlyTodos.trans {s' s'' : PointStorage} (h : OnlyTodos s s') (h' : OnlyTodos s' s'') :
    OnlyTodos s s'' :=
  ⟨h'.sysFirstUnitTime.trans h.sysFirstUnitTime, h'.points.trans h.points, h'.last.trans h.last,
    h'.cachedLastPoint.trans h.cachedLastPoint⟩

theorem OnlyTodos.needLast {s' : PointStorage} (h : OnlyTodos s s') (now : Int) :
    s'.needLast now = s.needLast now := by
  rw [PointStorage.needLast, h.sysFirstUnitTime]
  rfl

theorem sorted_orderedInsert {todos : List Nat} (h : todos.Pairwise (· < ·)) (hnew : number ∉ todos) :
    (todos.orderedInsert (· ≤ ·) number).Pairwise (· < ·) := by
  have hle : todos.Pairwise (· ≤ ·) := h.imp Nat.le_of_lt
  have hsorted := hle.orderedInsert number todos
  have hnodup : (todos.orderedInsert (· ≤ ·) number).Nodup := by
    refine (perm_orderedInsert _ number todos).nodup_iff.mpr (nodup_cons.mpr ⟨hnew, ?_⟩)
    exact h.imp Nat.ne_of_lt
  exact (hsorted.and hnodup).imp fun h => Nat.lt_of_le_of_ne h.1 h.2

theorem TodoOk.addTODO {now : Int} (h : s.TodoOk now) (hpos : 1 ≤ number)
    (hdue : number ≤ max s.last (s.needLast now)) :
    ∃ s', s.addTODO number = .ok s' ∧ OnlyTodos s s' ∧ s'.TodoOk now ∧
      ∀ n, n ∈ s'.todos ↔ n = number ∨ n ∈ s.todos := by
  unfold PointStorage.addTODO
  rw [if_neg (by omega)]
  by_cases hcached : number ∈ s.todoCache
  · rw [if_pos hcached]
    refine ⟨s, rfl, .refl s, h, fun n => ⟨.inr, ?_⟩⟩
    rintro (rfl | hn)
    · exact h.cached n hcached
    · exact hn
  · rw [if_neg hcached]
    have hmem : ∀ n, n ∈ (if number ∈ s.todos then s.todos
        else s.todos.orderedInsert (· ≤ ·) number) ↔ n = number ∨ n ∈ s.todos := by
      intro n
      by_cases hin : number ∈ s.todos
      · rw [if_pos hin]
        refine ⟨.inr, ?_⟩
        rintro (rfl | hn)
        · exact hin
        · exact hn
      · rw [if_neg hin, mem_orderedInsert]
    refine ⟨_, rfl, ⟨rfl, rfl, rfl, rfl⟩, ⟨?_, ?_, ?_, ?_⟩, hmem⟩
    · dsimp only
      by_cases hin : number ∈ s.todos
      · rw [if_pos hin]
        exact h.sorted
      · rw [if_neg hin]
        exact sorted_orderedInsert h.sorted hin
    · intro n hn
      rcases (hmem n).mp hn with rfl | hn
      · exact hpos
      · exact h.pos n hn
    · intro n hn
      rcases (hmem n).mp hn with rfl | hn
      · exact hdue
      · exact h.due n hn
    · intro n hn
      rw [hmem]
      rcases mem_cons.mp hn with rfl | hn
      · exact .inl rfl
      · exact .inr (h.cached n hn)

theorem TodoOk.addTODOs {now : Int} (h : s.TodoOk now) {numbers : List Nat}
    (hnumbers : ∀ n ∈ numbers, 1 ≤ n ∧ n ≤ max s.last (s.needLast now)) :
    ∃ s', numbers.foldlM PointStorage.addTODO s = .ok s' ∧ OnlyTodos s s' ∧ s'.TodoOk now ∧
      ∀ n, n ∈ s'.todos ↔ n ∈ numbers ∨ n ∈ s.todos := by
  induction numbers generalizing s with
  | nil => exact ⟨s, rfl, .refl s, h, fun n => by simp⟩
  | cons number numbers ih =>
    obtain ⟨hpos, hdue⟩ := hnumbers number (.head _)
    obtain ⟨s₁, hadd, honly, hok, hmem⟩ := h.addTODO hpos hdue
    have hbounds : ∀ n ∈ numbers, 1 ≤ n ∧ n ≤ max s₁.last (s₁.needLast now) := by
      intro n hn
      rw [honly.last, honly.needLast]
      exact hnumbers n (.tail _ hn)
    obtain ⟨s₂, hfold, honly₂, hok₂, hmem₂⟩ := ih hok hbounds
    refine ⟨s₂, ?_, honly.trans honly₂, hok₂, fun n => ?_⟩
    · rw [foldlM_cons, hadd]
      exact hfold
    · rw [hmem₂, hmem, mem_cons]
      tauto

end PointStorage

end Nerthus.Bysolt
