import Nerthus.TxPool.Pool

/-!
# The books of the pool

Three records follow the transactions of the pool: their number, the marks of the free ones, and
the hashes that are being checked. A hash stays in `checking` for good when `AddRemotesTxpipe`
finds the pool full, since this path leaves before the call that would take it out.
-/

namespace Nerthus.TxPool

open Lib Lib.Keyed List

structure Booked (conf : Config) (p : Pool) : Prop where
  checking : ∀ h ∈ p.checking, p.Processing h
  addable : ∀ c h, ¬p.Processing h → (p.setChecking conf c h).isSome = true
  count : p.pendingCount = p.all.size
  marks : ∀ m, m ∈ p.zeroFeePending ↔
    ∃ t ∈ p.all.values, conf.env.isFreeTx t.tx = true ∧ t.mark = m

/-- Each transaction of the pipe is being processed already, or finds room at its turn. -/
def RoomFor (conf : Config) : Pool → List (Answers × PoolTx) → Prop
  | _, [] => True
  | p, (c, t) :: rest =>
    (p.Processing t.hash ∨ p.isFull conf = false) ∧
      match addRemote conf c p t true false with
      | (p, none) => RoomFor conf p rest
      | (_, some _) => True

instance decidableRoomFor (conf : Config) :
    (p : Pool) → (txs : List (Answers × PoolTx)) → Decidable (RoomFor conf p txs)
  | _, [] => isTrue trivial
  | p, (c, t) :: rest =>
    match h : addRemote conf c p t true false with
    | (p', none) =>
      have := decidableRoomFor conf p' rest
      decidable_of_iff ((p.Processing t.hash ∨ p.isFull conf = false) ∧ RoomFor conf p' rest)
        (by simp [RoomFor, h])
    | (_, some _) =>
      decidable_of_iff (p.Processing t.hash ∨ p.isFull conf = false) (by simp [RoomFor, h])

def Roomy (conf : Config) (p : Pool) : Step → Prop
  | .addRemotesTxpipe txs => RoomFor conf p txs
  | _ => True

instance (conf : Config) (p : Pool) : (s : Step) → Decidable (Roomy conf p s)
  | .addRemotesTxpipe txs => decidableRoomFor conf p txs
  | .addLocal .. | .addLocals _ | .addRemote .. | .addRemoteSync .. | .resume .. | .pushTx ..
  | .remove _ => isTrue trivial

def RoomyRun (conf : Config) : Pool → List Step → Prop
  | _, [] => True
  | p, s :: rest => Roomy conf p s ∧ RoomyRun conf (step conf p s) rest

instance decidableRoomyRun (conf : Config) :
    (p : Pool) → (steps : List Step) → Decidable (RoomyRun conf p steps)
  | _, [] => isTrue trivial
  | p, s :: rest =>
    have := decidableRoomyRun conf (step conf p s) rest
    inferInstanceAs (Decidable (Roomy conf p s ∧ RoomyRun conf (step conf p s) rest))

/-! ## Number and marks -/

/-- The number and the marks agree with the pool, and no two free transactions share a mark. -/
structure Tally (conf : Config) (p : Pool) : Prop where
  count : p.pendingCount = p.all.size
  marks : ∀ m, m ∈ p.zeroFeePending ↔
    ∃ t ∈ p.all.values, conf.env.isFreeTx t.tx = true ∧ t.mark = m
  single : ∀ t ∈ p.all.values, ∀ t' ∈ p.all.values, conf.env.isFreeTx t.tx = true →
    conf.env.isFreeTx t'.tx = true → t.mark = t'.mark → t = t'

structure SameBooks (p p' : Pool) : Prop where
  pendingCount : p'.pendingCount = p.pendingCount
  all : p'.all = p.all
  zeroFeePending : p'.zeroFeePending = p.zeroFeePending

section

variable {conf : Config} {c : Answers} {p p' : Pool} {t : PoolTx} {isLocal : Bool}

theorem Tally.congr (h : Tally conf p) (hsame : SameBooks p p') : Tally conf p' := by
  refine ⟨?_, fun m => ?_, ?_⟩
  · rw [hsame.pendingCount, hsame.all, h.count]
  · rw [hsame.zeroFeePending, hsame.all, h.marks m]
  · rw [hsame.all]
    exact h.single

theorem tally_newTxPool (conf : Config) : Tally conf newTxPool :=
  ⟨rfl, fun m => ⟨nofun, fun ⟨_, h, _⟩ => (by cases h)⟩, nofun⟩

theorem verifyTxBaseData_eq_ok {env : Core.Env} {tx : Core.Transaction} {limits : Core.TxLimits}
    {isFree : Bool} (h : Core.verifyTxBaseData env tx limits = .ok isFree) :
    isFree = env.isFreeTx tx := by
  simp only [Core.verifyTxBaseData, ite_eq_ok_iff, bind_eq_ok_iff] at h
  obtain ⟨-, -, -, -, -, -, -, -, -, -, h⟩ := h
  exact (Except.ok.inj h).symm

theorem done_add_eq {q : Pool} (h : p.addPendingFreeTx t = some q) : q.donePendingFreeTx t = p := by
  unfold Pool.addPendingFreeTx at h
  split at h
  · cases h
  · next hnew =>
    cases h
    unfold Pool.donePendingFreeTx
    have hfilter : (t.mark :: p.zeroFeePending).filter (fun m => decide (m ≠ t.mark)) =
        p.zeroFeePending := by
      rw [filter_cons_of_neg (by simp), filter_eq_self]
      intro m hm
      exact decide_eq_true fun he => hnew (he ▸ hm)
    rw [hfilter]

theorem validateTx_cases {mock : Bool} {err : Option PoolErr}
    (h : validateTx conf c p isLocal t mock = (p', err)) :
    (p' = p ∧ (err = none → conf.env.isFreeTx t.tx = false)) ∨
      (err = none ∧ conf.env.isFreeTx t.tx = true ∧ t.mark ∉ p.zeroFeePending ∧
        p' = { p with zeroFeePending := t.mark :: p.zeroFeePending }) := by
  unfold validateTx at h
  split at h
  · cases h
    exact .inl ⟨rfl, nofun⟩
  split at h
  · cases h
    exact .inl ⟨rfl, nofun⟩
  next isFree hbase =>
  have hfree := verifyTxBaseData_eq_ok hbase
  split at h
  · cases h
    exact .inl ⟨rfl, nofun⟩
  split at h
  · next htrue =>
    split at h
    · cases h
      exact .inl ⟨rfl, nofun⟩
    next q hq =>
    split at h
    · cases h
      exact .inl ⟨done_add_eq hq, nofun⟩
    cases h
    unfold Pool.addPendingFreeTx at hq
    split at hq
    · cases hq
    · next hnew =>
      cases hq
      exact .inr ⟨rfl, hfree.symm.trans htrue, hnew, rfl⟩
  · next hfalse =>
    have hpaid : conf.env.isFreeTx t.tx = false := by
      rw [← hfree]
      exact Bool.eq_false_of_not_eq_true hfalse
    split at h
    · cases h
      exact .inl ⟨rfl, nofun⟩
    split at h
    · cases h
      exact .inl ⟨rfl, nofun⟩
    · cases h
      exact .inl ⟨rfl, fun _ => hpaid⟩

structure SameQueues (p p' : Pool) : Prop where
  waiting : p'.waiting = p.waiting
  queue : p'.queue = p.queue

theorem SameQueues.processing (h : SameQueues p p') (x : Hash) :
    p'.Processing x ↔ p.Processing x := by
  rw [Pool.Processing, Pool.Processing, h.waiting, h.queue]

theorem validateAndPut_tally (h : Tally conf p) (hnew : p.all.get t.hash = none) :
    Tally conf (validateAndPut conf c p isLocal t).1 ∧
      (validateAndPut conf c p isLocal t).1.checking = p.checking ∧
      SameQueues p (validateAndPut conf c p isLocal t).1 := by
  unfold validateAndPut
  split
  · exact ⟨h, rfl, rfl, rfl⟩
  cases hvalid : validateTx conf c p isLocal t false with
  | mk p' err =>
    have hcases := validateTx_cases hvalid
    cases err with
    | some err =>
      rcases hcases with ⟨rfl, -⟩ | ⟨herr, -⟩
      · exact ⟨h, rfl, rfl, rfl⟩
      · cases herr
    | none =>
      rcases hcases with ⟨rfl, hpaid⟩ | ⟨-, hfree, hmark, rfl⟩
      · have hpaid := hpaid rfl
        refine ⟨⟨?_, fun m => ?_, fun x hx y hy hxf hyf hxy => ?_⟩, rfl, rfl, rfl⟩
        · change p'.pendingCount + 1 = ((p'.all.put t).size : Int)
          rw [size_put_of_get_eq_none hnew, h.count]
          rfl
        · rw [h.marks m]
          refine exists_congr fun x => ?_
          rw [mem_put]
          constructor
          · rintro ⟨hx, hxf, rfl⟩
            exact ⟨.inr ⟨hx, get_eq_none_iff.mp hnew x hx⟩, hxf, rfl⟩
          · rintro ⟨rfl | ⟨hx, -⟩, hxf, rfl⟩
            · rw [hpaid] at hxf
              cases hxf
            · exact ⟨hx, hxf, rfl⟩
        · rcases mem_put.mp hx with rfl | ⟨hx, -⟩
          · rw [hpaid] at hxf
            cases hxf
          rcases mem_put.mp hy with rfl | ⟨hy, -⟩
          · rw [hpaid] at hyf
            cases hyf
          · exact h.single x hx y hy hxf hyf hxy
      · -- the mark was not set, so that no free transaction of the pool has it
        have hother : ∀ x ∈ p.all.values, conf.env.isFreeTx x.tx = true → x.mark ≠ t.mark :=
          fun x hx hxf he => hmark ((h.marks t.mark).mpr ⟨x, hx, hxf, he⟩)
        refine ⟨⟨?_, fun m => ?_, fun x hx y hy hxf hyf hxy => ?_⟩, rfl, rfl, rfl⟩
        · change p.pendingCount + 1 = ((p.all.put t).size : Int)
          rw [size_put_of_get_eq_none hnew, h.count]
          rfl
        · rw [mem_cons, h.marks m]
          constructor
          · rintro (rfl | ⟨x, hx, hxf, rfl⟩)
            · exact ⟨t, mem_put.mpr (.inl rfl), hfree, rfl⟩
            · exact ⟨x, mem_put.mpr (.inr ⟨hx, get_eq_none_iff.mp hnew x hx⟩), hxf, rfl⟩
          · rintro ⟨x, hx, hxf, rfl⟩
            rcases mem_put.mp hx with rfl | ⟨hx, -⟩
            · exact .inl rfl
            · exact .inr ⟨x, hx, hxf, rfl⟩
        · rcases mem_put.mp hx with rfl | ⟨hx, -⟩
          · rcases mem_put.mp hy with rfl | ⟨hy, -⟩
            · rfl
            · exact absurd hxy.symm (hother y hy hyf)
          · rcases mem_put.mp hy with rfl | ⟨hy, -⟩
            · exact absurd hxy (hother x hx hxf)
            · exact h.single x hx y hy hxf hyf hxy

theorem setChecking_eq_some {h : Hash} (hset : p.setChecking conf c h = some p') :
    SameBooks p p' ∧ SameQueues p p' ∧ ∀ x ∈ p'.checking, x = h ∨ x ∈ p.checking := by
  unfold Pool.setChecking at hset
  split at hset
  · cases hset
  cases hset
  refine ⟨⟨rfl, rfl, rfl⟩, ⟨rfl, rfl⟩, fun x hx => ?_⟩
  rcases mem_cons.mp hx with rfl | hx
  · exact .inl rfl
  right
  split at hx
  · exact (mem_filter.mp hx).1
  · exact hx

theorem setChecking_isSome {h : Hash} (hnot : h ∉ p.checking) :
    (p.setChecking conf c h).isSome = true := by
  rw [Pool.setChecking, if_neg hnot]
  rfl

theorem addTx_spec (h : Tally conf p) :
    Tally conf (addTx conf c p isLocal t).1 ∧ SameQueues p (addTx conf c p isLocal t).1 ∧
      ∀ x ∈ (addTx conf c p isLocal t).1.checking, x ∈ p.checking ∧ x ≠ t.hash := by
  have htry : Tally conf (tryTx conf c p isLocal t).1 ∧ SameQueues p (tryTx conf c p isLocal t).1 ∧
      ∀ x ∈ (tryTx conf c p isLocal t).1.checking, x = t.hash ∨ x ∈ p.checking := by
    unfold tryTx
    split
    · exact ⟨h, ⟨rfl, rfl⟩, fun x hx => .inr hx⟩
    next hnot =>
    have hnew : p.all.get t.hash = none := by simpa using hnot
    split
    · split
      · exact ⟨h, ⟨rfl, rfl⟩, fun x hx => .inr hx⟩
      next q hq =>
      obtain ⟨hbooks, hqueues, hchecking⟩ := setChecking_eq_some hq
      have hnewq : q.all.get t.hash = none := by rw [hbooks.all, hnew]
      obtain ⟨htally, hsame, hput⟩ := validateAndPut_tally (h.congr hbooks) hnewq
      refine ⟨htally, ⟨hput.waiting.trans hqueues.waiting, hput.queue.trans hqueues.queue⟩,
        fun x hx => ?_⟩
      rw [hsame] at hx
      exact hchecking x hx
    · obtain ⟨htally, hsame, hput⟩ := validateAndPut_tally h hnew
      refine ⟨htally, hput, fun x hx => ?_⟩
      rw [hsame] at hx
      exact .inr hx
  obtain ⟨htally, hqueues, hchecking⟩ := htry
  refine ⟨htally.congr ⟨rfl, rfl, rfl⟩, ⟨hqueues.waiting, hqueues.queue⟩, fun x hx => ?_⟩
  obtain ⟨hx, hne⟩ := mem_filter.mp hx
  have hne := of_decide_eq_true hne
  exact ⟨(hchecking x hx).resolve_left hne, hne⟩

/-! ## Steps -/

structure Inv (conf : Config) (p : Pool) : Prop extends Tally conf p where
  checking : ∀ h ∈ p.checking, p.Processing h

theorem Inv.booked (h : Inv conf p) : Booked conf p :=
  ⟨h.checking, fun c x hx => setChecking_isSome fun hmem => hx (h.checking x hmem), h.count,
    h.marks⟩

theorem inv_newTxPool (conf : Config) : Inv conf newTxPool :=
  ⟨tally_newTxPool conf, nofun⟩

theorem Inv.addTx (h : Inv conf p) : Inv conf (addTx conf c p isLocal t).1 := by
  obtain ⟨htally, hqueues, hchecking⟩ := addTx_spec h.toTally (c := c) (t := t)
  exact ⟨htally, fun x hx => (hqueues.processing x).mpr (h.checking x (hchecking x hx).1)⟩

theorem Inv.addTx_taken {q : Pool} (h : Inv conf p) (hbooks : SameBooks p q)
    (hchecking : q.checking = p.checking)
    (htaken : ∀ x, x ≠ t.hash → p.Processing x → q.Processing x) :
    Inv conf (TxPool.addTx conf c q false t).1 := by
  obtain ⟨htally, hqueues, hdone⟩ := addTx_spec (h.toTally.congr hbooks) (c := c) (t := t)
  refine ⟨htally, fun x hx => ?_⟩
  obtain ⟨hx, hne⟩ := hdone x hx
  rw [hchecking] at hx
  exact (hqueues.processing x).mpr (htaken x hne (h.checking x hx))

theorem Inv.queued {q r : Pool} {x : Hash} (h : Inv conf p)
    (hset : p.setChecking conf c x = some q) (hbooks : SameBooks q r)
    (hchecking : r.checking = q.checking) (hx : r.Processing x)
    (hkeep : ∀ y, q.Processing y → r.Processing y) : Inv conf r := by
  obtain ⟨hbooks', hqueues, hold⟩ := setChecking_eq_some hset
  refine ⟨(h.toTally.congr hbooks').congr hbooks, fun y hy => ?_⟩
  rw [hchecking] at hy
  rcases hold y hy with rfl | hy
  · exact hx
  · exact hkeep y ((hqueues.processing y).mpr (h.checking y hy))

theorem Inv.addRemote {sync needWait : Bool} (h : Inv conf p)
    (hroom : needWait = true ∨ p.Processing t.hash ∨ p.isFull conf = false) :
    Inv conf (addRemote conf c p t sync needWait).1 := by
  unfold TxPool.addRemote
  cases hset : p.setChecking conf c t.hash with
  | none => exact h
  | some q =>
    obtain ⟨hbooks, hqueues, hchecking⟩ := setChecking_eq_some hset
    dsimp only
    split
    · next hfull =>
      split
      · refine h.queued hset ⟨rfl, rfl, rfl⟩ rfl ?_ fun y hy => ?_
        · simp [Pool.Processing]
        · simp only [Pool.Processing, map_append, mem_append] at hy ⊢
          exact hy.imp_left .inl
      · next hwait =>
        refine h.queued hset ⟨rfl, rfl, rfl⟩ rfl ((hqueues.processing _).mpr ?_) fun y hy => hy
        rcases hroom with hroom | hroom | hroom
        · exact absurd hroom hwait
        · exact hroom
        · rw [Pool.isFull, hbooks.pendingCount] at hfull
          rw [Pool.isFull, hfull] at hroom
          cases hroom
    split
    · obtain ⟨htally, hsame, hdone⟩ := addTx_spec (h.toTally.congr hbooks) (c := c) (t := t)
      refine ⟨htally, fun x hx => ?_⟩
      obtain ⟨hx, hne⟩ := hdone x hx
      have hmem := h.checking x ((hchecking x hx).resolve_left hne)
      exact (hsame.processing x).mpr ((hqueues.processing x).mpr hmem)
    · refine h.queued hset ⟨rfl, rfl, rfl⟩ rfl ?_ fun y hy => ?_
      · simp [Pool.Processing]
      · simp only [Pool.Processing, map_append, mem_append] at hy ⊢
        exact hy.imp_right .inl

theorem mem_map_eraseIdx {α : Type} {l : List α} {i : Nat} {a : α} {f : α → Hash} {x : Hash}
    (hi : l[i]? = some a) (hne : x ≠ f a) (hx : x ∈ l.map f) : x ∈ (l.eraseIdx i).map f := by
  obtain ⟨b, hb, rfl⟩ := mem_map.mp hx
  refine mem_map_of_mem (mem_eraseIdx_iff_getElem?.mpr ?_)
  obtain ⟨j, hj⟩ := mem_iff_getElem?.mp hb
  refine ⟨j, fun he => hne ?_, hj⟩
  rw [he, hi] at hj
  rw [Option.some.inj hj]

section

variable (h : Inv conf p)
include h

theorem Inv.resume {i : Nat} : Inv conf (resume conf c p i) := by
  unfold TxPool.resume
  split
  · exact h
  next w sync hw =>
  split
  · exact h
  have htaken : ∀ x, x ≠ w.hash → p.Processing x →
      x ∈ (p.waiting.eraseIdx i).map (fun w => w.1.hash) ++ p.queue.map PoolTx.hash := by
    intro x hne hx
    rcases mem_append.mp hx with hx | hx
    · exact mem_append_left _ (mem_map_eraseIdx hw hne hx)
    · exact mem_append_right _ hx
  split
  · exact h.addTx_taken (q := { p with waiting := p.waiting.eraseIdx i }) ⟨rfl, rfl, rfl⟩ rfl htaken
  refine ⟨h.toTally.congr ⟨rfl, rfl, rfl⟩, fun x hx => ?_⟩
  have hold := h.checking x hx
  change x ∈ (p.waiting.eraseIdx i).map (fun w => w.1.hash) ++ (p.queue ++ [w]).map PoolTx.hash
  rw [map_append, ← append_assoc]
  by_cases hne : x = w.hash
  · exact mem_append_right _ (by simp [hne])
  · exact mem_append_left _ (htaken x hne hold)

theorem Inv.pushTx {i : Nat} : Inv conf (pushTx conf c p i) := by
  unfold TxPool.pushTx
  split
  · exact h
  next w hw =>
  refine h.addTx_taken (q := { p with queue := p.queue.eraseIdx i }) ⟨rfl, rfl, rfl⟩ rfl ?_
  intro x hne hx
  rcases mem_append.mp hx with hx | hx
  · exact mem_append_left _ hx
  · exact mem_append_right _ (mem_map_eraseIdx hw hne hx)

theorem Inv.remove {x : Hash} : Inv conf (remove conf p x) := by
  unfold TxPool.remove
  split
  · exact h
  next w hw =>
  obtain ⟨hmem, hkey⟩ := get_eq_some_iff.mp hw
  have hcount : p.pendingCount - 1 = ((p.all.erase x).size : Int) := by
    have hsize := size_erase_of_get_eq_some hw
    rw [h.count]
    omega
  have hsingle : ∀ t ∈ (p.all.erase x).values, ∀ t' ∈ (p.all.erase x).values,
      conf.env.isFreeTx t.tx = true → conf.env.isFreeTx t'.tx = true → t.mark = t'.mark → t = t' :=
    fun t ht t' ht' => h.single t (mem_erase.mp ht).1 t' (mem_erase.mp ht').1
  split
  · next hfree =>
    refine ⟨⟨hcount, fun m => ?_, hsingle⟩, h.checking⟩
    change m ∈ p.zeroFeePending.filter _ ↔ _
    rw [List.mem_filter, h.marks m]
    constructor
    · rintro ⟨⟨t, ht, htf, rfl⟩, hne⟩
      refine ⟨t, mem_erase.mpr ⟨ht, fun he => of_decide_eq_true hne ?_⟩, htf, rfl⟩
      rw [List.inj_on_of_nodup_map p.all.nodup ht hmem (he.trans hkey.symm)]
    · rintro ⟨t, ht, htf, rfl⟩
      obtain ⟨ht, hne⟩ := mem_erase.mp ht
      refine ⟨⟨t, ht, htf, rfl⟩, decide_eq_true fun he => hne ?_⟩
      rw [h.single t ht w hmem htf hfree he, hkey]
  · next hpaid =>
    refine ⟨⟨hcount, fun m => ?_, hsingle⟩, h.checking⟩
    rw [h.marks m]
    refine exists_congr fun t => ?_
    rw [mem_erase]
    constructor
    · rintro ⟨ht, htf, rfl⟩
      refine ⟨⟨ht, fun he => hpaid ?_⟩, htf, rfl⟩
      rwa [List.inj_on_of_nodup_map p.all.nodup hmem ht (hkey.trans he.symm)]
    · rintro ⟨⟨ht, -⟩, htf, rfl⟩
      exact ⟨ht, htf, rfl⟩

theorem Inv.addLocals {txs : List (Answers × PoolTx)} :
    Inv conf (addUntilErr (fun c p t => TxPool.addTx conf c p true t) p txs) := by
  induction txs generalizing p with
  | nil => exact h
  | cons x rest ih =>
    obtain ⟨c, t⟩ := x
    have hadd : Inv conf (TxPool.addTx conf c p true t).1 := h.addTx
    unfold addUntilErr
    cases hres : TxPool.addTx conf c p true t with
    | mk q err =>
      rw [hres] at hadd
      cases err with
      | some err => exact hadd
      | none => exact ih hadd

theorem Inv.addRemotesTxpipe {txs : List (Answers × PoolTx)} (hroom : RoomFor conf p txs) :
    Inv conf (addUntilErr (fun c p t => TxPool.addRemote conf c p t true false) p txs) := by
  induction txs generalizing p with
  | nil => exact h
  | cons x rest ih =>
    obtain ⟨c, t⟩ := x
    obtain ⟨hfirst, hrest⟩ := hroom
    have hadd : Inv conf (TxPool.addRemote conf c p t true false).1 := h.addRemote (.inr hfirst)
    unfold addUntilErr
    cases hres : TxPool.addRemote conf c p t true false with
    | mk q err =>
      rw [hres] at hadd hrest
      cases err with
      | some err => exact hadd
      | none => exact ih hadd hrest

theorem Inv.step {s : Step} (hroom : Roomy conf p s) : Inv conf (step conf p s) := by
  cases s with
  | addLocal c t => exact h.addTx
  | addLocals txs => exact h.addLocals
  | addRemote c t => exact h.addRemote (.inl rfl)
  | addRemoteSync c t => exact h.addRemote (.inl rfl)
  | addRemotesTxpipe txs => exact h.addRemotesTxpipe hroom
  | resume c i => exact h.resume
  | pushTx c i => exact h.pushTx
  | remove x => exact h.remove

theorem Inv.run {steps : List Step} (hroom : RoomyRun conf p steps) :
    Inv conf (run conf p steps) := by
  induction steps generalizing p with
  | nil => exact h
  | cons s rest ih => exact ih (h.step hroom.1) hroom.2

end

end

/-- As long as no pipe finds the pool full, the records agree with the pool after every run. -/
theorem books_agree {conf : Config} {steps : List Step} (h : RoomyRun conf newTxPool steps) :
    Booked conf (run conf newTxPool steps) :=
  ((inv_newTxPool conf).run h).booked

namespace Sample

def env : Core.Env where
  scAccount := ⟨0x01010101 * 2 ^ 128⟩
  scAccount_contract := by decide
  publicPrivateKeyAddr := ⟨7⟩
  genesis := ⟨[], List.nodup_nil⟩
  generateContractAddress _ nonce := ⟨0x01010101 * 2 ^ 128 + 2 + nonce⟩
  createdContract _ := none
  verifyProofWork _ _ := false

def conf (n : Nat) : Config := ⟨env, n, 1, fun h => h.val % 32⟩

def accepting : Answers where
  pick shard := shard.headD .zero
  signed := true
  now := 0
  minGasPrice := 1
  powDiff := 0
  gasLimit := 100000
  scGasLimit := 90000
  balance := 1000000
  getChainWitnessGroup := .ok ()
  getTxNextAction := .ok 1

def payment (n : Nat) : PoolTx :=
  ⟨⟨n⟩, ⟨⟨1⟩, ⟨1⟩, ⟨2⟩, n, 21000, 1, [], 0, 1000, 0, 100, by decide⟩⟩

def heartbeat (n : Nat) : PoolTx :=
  ⟨⟨n⟩, ⟨⟨1⟩, ⟨1⟩, env.scAccount, 0, 0, 0, [0x6b, 0xb4, 0x3e, 0x01], n, 1000, 0, 100, by decide⟩⟩

def heartbeats : List Step :=
  [.addLocal accepting (heartbeat 1), .addRemoteSync accepting (heartbeat 2),
    .addRemote accepting (payment 3), .pushTx accepting 0,
    .addRemotesTxpipe [(accepting, payment 4), (accepting, payment 4)], .remove ⟨1⟩,
    .addLocals [(accepting, heartbeat 2), (accepting, payment 5)]]

theorem heartbeats_booked : (run (conf 4) newTxPool heartbeats).all.size = 4 ∧
      Booked (conf 4) (run (conf 4) newTxPool heartbeats) :=
  ⟨by decide +kernel, books_agree (by decide +kernel)⟩

def turnedAway : List Step :=
  [.addLocal accepting (payment 1), .addRemotesTxpipe [(accepting, payment 2)], .remove ⟨1⟩,
    .addRemoteSync accepting (payment 2)]

theorem never_added : ¬Booked (conf 1) (run (conf 1) newTxPool turnedAway) ∧
      (run (conf 1) newTxPool turnedAway).all.size = 0 := by
  have hleft : (⟨2⟩ : Hash) ∈ (run (conf 1) newTxPool turnedAway).checking ∧
      ¬(run (conf 1) newTxPool turnedAway).Processing ⟨2⟩ := by decide +kernel
  exact ⟨fun h => hleft.2 (h.checking _ hleft.1), by decide +kernel⟩

end Sample

end Nerthus.TxPool
