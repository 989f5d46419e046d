import Nerthus.Witness.Mining

/-!
# The messages of a packing run

`generateUnit` pops messages from the queue of a chain and executes them. Whatever the end of
the run is, a message that was popped must be in the unit, be put back, be removed from the
pool, or have been ignored as invalid.
-/

namespace Nerthus.Witness

open Core Miner List

inductive Place where
  | executed
  | back
  | failed
  | ignored
deriving DecidableEq

/-- What `processTx` has noted: `successMsg`, `rollbackMsg` and `errMsg` are the messages noted as
executed, back and failed. -/
abbrev Notes := List (TxMsg × Place)

def Notes.msgs (notes : Notes) (place : Place) : List TxMsg :=
  (notes.filter fun note => note.2 = place).map Prod.fst

/-- What the loop of `packTxs` finds when it looks at its channels. -/
inductive Signal where
  | timeout
  | done
  | poll
deriving DecidableEq

structure Run (σ : Type) where
  pack : Pack σ
  notes : Notes
  queue : List TxMsg

/-- What `generateUnit` returns, and what it leaves in the queue and takes out of the pool. -/
structure Outcome where
  unit : Option Packed
  queue : List TxMsg
  removed : List Hash

/-- The messages of the node itself; `none` stands for a failure of `newOtherTx`, whose error is in
`e`, but it is `err` that is tested. -/
def others (own : Option (List TxMsg)) : List TxMsg := own.getD []

def PackErr.place : PackErr → Place
  | .process .gasLimitReached => .back
  | .invalidTx => .ignored
  | .rollbackTx => .back
  | _ => .failed

namespace Miner

variable {σ : Type} (n : Miner σ) (header : Header)

def msgID (msg : TxMsg) : Hash × TxAction := (n.txHash msg.tx, msg.action)

/-- `Add` of the list of a queue. Where the message stands in it decides only when it is
popped. -/
def push (queue : List TxMsg) (msg : TxMsg) : List TxMsg :=
  if n.msgID msg ∈ queue.map n.msgID then queue else queue ++ [msg]

def rollback (ignoreTx : List Hash) (queue msgs : List TxMsg) : List TxMsg :=
  msgs.foldl (fun queue m => if n.txHash m.tx ∈ ignoreTx then queue else n.push queue m) queue

/-- The list that `processTx` appends the message to. -/
def placeOf (p : Pack σ) (msg : TxMsg) : Place :=
  if p.work.gasPool < txGas then .back
  else if isZeroGas msg.action = true ∧ zeroGasUseMaxSum ≤ p.zeroGasSum + 1 then .back
  else
    match (n.handleTx header p.work msg).2 with
    | .ok _ => .executed
    | .error err => err.place

def handle (r : Run σ) (msg : TxMsg) : Run σ :=
  { r with
    pack := (n.processTx header r.pack msg).1
    notes := r.notes ++ [(msg, n.placeOf header r.pack msg)] }

/-- The loop of `packTxs`, which says whether it was interrupted. An empty queue is waited
for. -/
def loop (r : Run σ) : List Signal → Run σ × Bool
  | [] => (r, false)
  | .timeout :: _ => (r, false)
  | .done :: _ => (r, true)
  | .poll :: signals =>
    match r.queue with
    | [] => loop r signals
    | msg :: queue =>
      if (n.processTx header r.pack msg).2 then
        loop (n.handle header { r with queue := queue } msg) signals
      else (n.handle header { r with queue := queue } msg, false)

def packRun (s : ChainState σ) (own : Option (List TxMsg)) (queue : List TxMsg)
    (signals : List Signal) : Run σ × Bool :=
  n.loop header ((others own).foldl (n.handle header) ⟨start header s, [], queue⟩) signals

/-- The end of `packTxs`. -/
def finish (p : Pack σ) (interrupted : Bool) : Except PackErr Packed :=
  if p.result.isEmpty then .error .noSuccessTx
  else if interrupted then .error .consensusInterrupt
  else
    .ok ⟨p.result, p.receipts, n.stateRoot p.work.state, p.work.totalGas, n.receiptRoot p.receipts,
      createBloom n.bloom9 p.receipts⟩

def selfHash (own : Option (List TxMsg)) : List Hash :=
  (others own).map fun m => n.txHash m.tx

def packedQueue (selfHash : List Hash) (r : Run σ × Bool) : List TxMsg :=
  n.rollback selfHash r.1.queue
    (r.1.notes.msgs .back ++ if r.2 then r.1.notes.msgs .executed else [])

def outcome (selfHash : List Hash) (r : Run σ × Bool) (signs : Bool) : Outcome :=
  let removed := ((r.1.notes.msgs .failed).map fun m => n.txHash m.tx).filter (· ∉ selfHash)
  let rolledBack := n.rollback selfHash (n.packedQueue selfHash r) (r.1.notes.msgs .executed)
  match n.finish r.1.pack r.2 with
  | .error .noSuccessTx => ⟨none, n.packedQueue selfHash r, removed⟩
  | .error _ => ⟨none, rolledBack, removed⟩
  | .ok unit =>
    if signs then ⟨some unit, n.packedQueue selfHash r, removed⟩ else ⟨none, rolledBack, removed⟩

/-- `generateUnit` for a chain that is not black-listed; `signs`: the unit can be signed. -/
def generateUnit (s : ChainState σ) (own : Option (List TxMsg)) (queue : List TxMsg)
    (signals : List Signal) (signs : Bool) : Outcome :=
  n.outcome (n.selfHash own) (n.packRun header s own queue signals) signs

def Lies (notes : Notes) (out : Outcome) (msg : TxMsg) : Place → Prop
  | .executed => (msg, .executed) ∈ notes ∧
      ∃ unit, out.unit = some unit ∧ filled (n.convertToTxExec msg) ∈ unit.txs
  | .back => msg ∈ out.queue
  | .failed => (msg, .failed) ∈ notes ∧ n.txHash msg.tx ∈ out.removed
  | .ignored => (msg, .ignored) ∈ notes

structure Accounts (s : ChainState σ) (own : Option (List TxMsg)) (queue : List TxMsg)
    (signals : List Signal) (signs : Bool) : Prop where
  once : ∀ msg ∈ queue, ∃! place, n.Lies (n.packRun header s own queue signals).1.notes
    (n.generateUnit header s own queue signals signs) msg place
  nodup : (n.generateUnit header s own queue signals signs).queue.Nodup
  notOwn : ∀ msg ∈ (n.generateUnit header s own queue signals signs).queue,
    n.txHash msg.tx ∉ n.selfHash own
  failed : own = none → (n.generateUnit header s own queue signals signs).unit = none

end Miner

section Message

variable {σ : Type} {n : Miner σ} {header : Header} {p : Pack σ} {msg : TxMsg}

theorem mem_msgs {notes : Notes} {place : Place} : msg ∈ notes.msgs place ↔ (msg, place) ∈ notes := by
  simp [Notes.msgs]

theorem PackErr.place_ne (err : PackErr) : err.place ≠ .executed := by
  unfold PackErr.place
  split <;> exact nofun

theorem handleTx_exec {w : Work σ} {e : TxExec} {r : UnitReceipt}
    (h : (n.handleTx header w msg).2 = .ok (e, r)) : e = filled (n.convertToTxExec msg) := by
  unfold handleTx at h
  split at h
  · cases h
  dsimp only at h
  split at h
  · cases h
  · cases h
    rfl

theorem processTx_result : (n.processTx header p msg).1.result =
    p.result ++ if n.placeOf header p msg = .executed then [filled (n.convertToTxExec msg)] else [] := by
  have hzero : (isZeroGas msg.action = true ∧ zeroGasUseMaxSum ≤
      if isZeroGas msg.action = true then p.zeroGasSum + 1 else p.zeroGasSum) ↔
      isZeroGas msg.action = true ∧ zeroGasUseMaxSum ≤ p.zeroGasSum + 1 :=
    and_congr_right fun h => by rw [if_pos h]
  unfold processTx placeOf
  simp only [hzero]
  split
  · simp
  split
  · simp
  split
  · next hresult =>
    rw [hresult]
    rw [if_neg (PackErr.place_ne _), append_nil]
  · next e r hresult =>
    have he : e = filled (n.convertToTxExec msg) := handleTx_exec (by rw [hresult])
    rw [hresult, he]
    rfl

end Message

section Run

variable {σ : Type} {n : Miner σ} {header : Header}

/-- The notes are those of the own messages and of those popped so far; the unit has those
executed. -/
structure Run.Kept (n : Miner σ) (own queue : List TxMsg) (r : Run σ) : Prop where
  result : r.pack.result = (r.notes.msgs .executed).map fun m => filled (n.convertToTxExec m)
  notes : ∃ first popped : Notes, r.notes = first ++ popped ∧ first.map Prod.fst = own ∧
    popped.map Prod.fst ++ r.queue = queue

variable {r : Run σ} {own queue : List TxMsg}

theorem msgs_append (notes : Notes) (msg : TxMsg) (place noted : Place) :
    Notes.msgs (notes ++ [(msg, noted)]) place =
      notes.msgs place ++ if noted = place then [msg] else [] := by
  unfold Notes.msgs
  rw [filter_append, map_append]
  by_cases h : noted = place
  · simp [h]
  · simp [h]

theorem handle_result {msg : TxMsg}
    (h : r.pack.result = (r.notes.msgs .executed).map fun m => filled (n.convertToTxExec m)) :
    (n.handle header r msg).pack.result =
      ((n.handle header r msg).notes.msgs .executed).map fun m => filled (n.convertToTxExec m) := by
  unfold handle
  rw [processTx_result, msgs_append, map_append, h]
  split
  · rfl
  · rfl

theorem Run.Kept.others {msgs : List TxMsg} (h : Run.Kept n own queue r) (hnone : r.queue = queue) :
    Run.Kept n (own ++ msgs) queue (msgs.foldl (n.handle header) r) := by
  induction msgs generalizing r own with
  | nil => simpa using h
  | cons msg msgs ih =>
    obtain ⟨first, popped, hnotes, hfirst, hpopped⟩ := h.notes
    have hnil : popped = [] := by
      rw [hnone] at hpopped
      simpa using hpopped
    subst hnil
    have hstep : Run.Kept n (own ++ [msg]) queue (n.handle header r msg) := by
      refine ⟨handle_result h.result, r.notes ++ [(msg, n.placeOf header r.pack msg)], [], ?_, ?_, ?_⟩
      · exact (append_nil _).symm
      · rw [map_append, hnotes, append_nil, hfirst]
        rfl
      · exact hnone
    have hrest := ih hstep hnone
    rwa [append_assoc] at hrest

theorem Run.Kept.pop {msg : TxMsg} {rest : List TxMsg} (h : Run.Kept n own queue r)
    (hqueue : r.queue = msg :: rest) :
    Run.Kept n own queue (n.handle header { r with queue := rest } msg) := by
  obtain ⟨first, popped, hnotes, hfirst, hpopped⟩ := h.notes
  refine ⟨handle_result h.result, first, popped ++ [(msg, n.placeOf header r.pack msg)], ?_, hfirst, ?_⟩
  · show r.notes ++ _ = _
    rw [hnotes, append_assoc]
  · show map Prod.fst (popped ++ _) ++ rest = queue
    rw [map_append, append_assoc, ← hpopped, hqueue]
    rfl

theorem Run.Kept.loop {signals : List Signal} (h : Run.Kept n own queue r) :
    Run.Kept n own queue (n.loop header r signals).1 := by
  induction signals generalizing r with
  | nil => exact h
  | cons signal signals ih =>
    cases signal with
    | timeout => exact h
    | done => exact h
    | poll =>
      unfold loop
      cases hqueue : r.queue with
      | nil => exact ih h
      | cons msg rest =>
        dsimp only
        split
        · exact ih (h.pop hqueue)
        · exact h.pop hqueue

theorem packRun_kept (n : Miner σ) (header : Header) (s : ChainState σ) (own : Option (List TxMsg))
    (queue : List TxMsg) (signals : List Signal) :
    Run.Kept n (others own) queue (n.packRun header s own queue signals).1 := by
  have hstart : Run.Kept n [] queue ⟨start header s, [], queue⟩ := ⟨rfl, [], [], rfl, rfl, rfl⟩
  exact (hstart.others rfl).loop

end Run

section Queue

variable {σ : Type} {n : Miner σ} {ignoreTx : List Hash} {all queue msgs : List TxMsg}
  {m msg : TxMsg}

theorem mem_push (hinj : ∀ x ∈ queue, n.msgID x = n.msgID msg → x = msg) :
    m ∈ n.push queue msg ↔ m ∈ queue ∨ m = msg := by
  unfold push
  split
  · next hmem =>
    obtain ⟨x, hx, hid⟩ := mem_map.mp hmem
    have hmsg : msg ∈ queue := hinj x hx hid ▸ hx
    exact ⟨.inl, fun h => h.elim id fun heq => heq ▸ hmsg⟩
  · rw [mem_append, mem_singleton]

theorem nodup_push (h : queue.Nodup) : (n.push queue msg).Nodup := by
  unfold push
  split
  · exact h
  · next hnew =>
    refine nodup_append.mpr ⟨h, nodup_singleton _, fun x hx y hy heq => hnew ?_⟩
    exact mem_map_of_mem (mem_singleton.mp hy ▸ heq ▸ hx)

theorem nodup_rollback (h : queue.Nodup) : (n.rollback ignoreTx queue msgs).Nodup := by
  induction msgs generalizing queue with
  | nil => exact h
  | cons msg msgs ih =>
    apply ih
    dsimp only
    split
    · exact h
    · exact nodup_push h

theorem mem_rollback (hinj : ∀ x ∈ all, ∀ y ∈ all, n.msgID x = n.msgID y → x = y)
    (hqueue : ∀ x ∈ queue, x ∈ all) (hmsgs : ∀ x ∈ msgs, n.txHash x.tx ∉ ignoreTx → x ∈ all) :
    m ∈ n.rollback ignoreTx queue msgs ↔ m ∈ queue ∨ m ∈ msgs ∧ n.txHash m.tx ∉ ignoreTx := by
  induction msgs generalizing queue with
  | nil => simp [rollback]
  | cons msg msgs ih =>
    have hrest : ∀ x ∈ msgs, n.txHash x.tx ∉ ignoreTx → x ∈ all := fun x hx => hmsgs x (.tail _ hx)
    by_cases hself : n.txHash msg.tx ∈ ignoreTx
    · have hskip : n.rollback ignoreTx queue (msg :: msgs) = n.rollback ignoreTx queue msgs := by
        simp only [rollback, foldl_cons, if_pos hself]
      rw [hskip, ih hqueue hrest, mem_cons]
      refine or_congr_right (and_congr_left fun hm => ⟨.inr, fun h => h.resolve_left ?_⟩)
      exact fun heq => hm (heq ▸ hself)
    · have hstep : n.rollback ignoreTx queue (msg :: msgs) =
          n.rollback ignoreTx (n.push queue msg) msgs := by
        simp only [rollback, foldl_cons, if_neg hself]
      have hmsg := hmsgs msg (.head _) hself
      have hmem : ∀ {x}, x ∈ n.push queue msg ↔ x ∈ queue ∨ x = msg :=
        mem_push fun x hx => hinj x (hqueue x hx) msg hmsg
      have hall : ∀ x ∈ n.push queue msg, x ∈ all := fun x hx =>
        (hmem.mp hx).elim (hqueue x) fun heq => heq ▸ hmsg
      rw [hstep, ih hall hrest, hmem, mem_cons, or_assoc]
      refine or_congr_right ⟨?_, ?_⟩
      · rintro (rfl | ⟨hm, hnot⟩)
        · exact ⟨.inl rfl, hself⟩
        · exact ⟨.inr hm, hnot⟩
      · rintro ⟨rfl | hm, hnot⟩
        · exact .inl rfl
        · exact .inr ⟨hm, hnot⟩

end Queue

/-! ## Where the messages are -/

section Outcome

variable {σ : Type} {n : Miner σ} {selfHash : List Hash} {own queue : List TxMsg}
  {r : Run σ × Bool} {signs : Bool} {m : TxMsg}

/-- What the messages of the queue and those of the node have to do with each other. -/
structure Apart (n : Miner σ) (selfHash : List Hash) (queue : List TxMsg) : Prop where
  nodup : (queue.map n.msgID).Nodup
  notOwn : ∀ m ∈ queue, n.txHash m.tx ∉ selfHash

theorem Apart.inj (h : Apart n selfHash queue) :
    ∀ x ∈ queue, ∀ y ∈ queue, n.msgID x = n.msgID y → x = y :=
  fun _ hx _ hy heq => inj_on_of_nodup_map h.nodup hx hy heq

section

variable (h : Run.Kept n own queue r.1)
include h

section

variable (ha : Apart n selfHash queue)
include ha

section

variable (hself : ∀ m ∈ own, n.txHash m.tx ∈ selfHash)
include hself

theorem Run.Kept.cases :
    (∀ m ∈ queue, m ∈ r.1.queue ∨ ∃ place, (m, place) ∈ r.1.notes) ∧
    (∀ m ∈ r.1.queue, m ∈ queue ∧ ∀ place, (m, place) ∉ r.1.notes) ∧
    (∀ m place, (m, place) ∈ r.1.notes → n.txHash m.tx ∉ selfHash → m ∈ queue) ∧
    ∀ m ∈ queue, ∀ place place', (m, place) ∈ r.1.notes → (m, place') ∈ r.1.notes →
      place = place' := by
  obtain ⟨first, popped, hnotes, hfirst, hpopped⟩ := h.notes
  have hnodup : queue.Nodup := ha.nodup.of_map _
  rw [← hpopped] at hnodup
  obtain ⟨hnodupPopped, -, hdisjoint⟩ := nodup_append.mp hnodup
  have hmem : ∀ m place, n.txHash m.tx ∉ selfHash → (m, place) ∈ r.1.notes → (m, place) ∈ popped := by
    intro m place hm hnote
    rw [hnotes] at hnote
    refine (mem_append.mp hnote).resolve_left fun hin => hm (hself m ?_)
    exact hfirst ▸ mem_map_of_mem (f := Prod.fst) hin
  have hin : ∀ m place, (m, place) ∈ popped → m ∈ popped.map Prod.fst :=
    fun m place hnote => mem_map_of_mem (f := Prod.fst) hnote
  refine ⟨fun m hm => ?_, fun m hm => ?_, fun m place hnote hm => ?_,
    fun m hm place place' hnote hnote' => ?_⟩
  · rw [← hpopped] at hm
    refine (mem_append.mp hm).symm.imp_right fun hm => ?_
    obtain ⟨⟨_, place⟩, hnote, rfl⟩ := mem_map.mp hm
    exact ⟨place, hnotes ▸ mem_append_right _ hnote⟩
  · have hqueue : m ∈ queue := hpopped ▸ mem_append_right _ hm
    refine ⟨hqueue, fun place hnote => ?_⟩
    exact hdisjoint m (hin m place (hmem m place (ha.notOwn m hqueue) hnote)) m hm rfl
  · exact hpopped ▸ mem_append_left _ (hin m place (hmem m place hm hnote))
  · have heq := inj_on_of_nodup_map hnodupPopped (hmem m place (ha.notOwn m hm) hnote)
      (hmem m place' (ha.notOwn m hm) hnote') rfl
    exact congrArg Prod.snd heq

theorem mem_packedQueue :
    m ∈ n.packedQueue selfHash r ↔ m ∈ r.1.queue ∨
      ((m, .back) ∈ r.1.notes ∨ r.2 = true ∧ (m, .executed) ∈ r.1.notes) ∧
        n.txHash m.tx ∉ selfHash := by
  obtain ⟨-, hwaits, hnoted, -⟩ := h.cases ha hself
  have hmsgs : ∀ {x}, x ∈ (r.1.notes.msgs .back ++ if r.2 then r.1.notes.msgs .executed else []) ↔
      (x, .back) ∈ r.1.notes ∨ r.2 = true ∧ (x, .executed) ∈ r.1.notes := by
    intro x
    cases r.2 <;> simp [mem_msgs]
  unfold packedQueue
  rw [mem_rollback ha.inj (fun x hx => (hwaits x hx).1), hmsgs]
  intro x hx hnot
  obtain hx | ⟨-, hx⟩ := hmsgs.mp hx
  · exact hnoted x _ hx hnot
  · exact hnoted x _ hx hnot

theorem mem_rolledBack :
    m ∈ n.rollback selfHash (n.packedQueue selfHash r) (r.1.notes.msgs .executed) ↔
      m ∈ r.1.queue ∨ ((m, .back) ∈ r.1.notes ∨ (m, .executed) ∈ r.1.notes) ∧
        n.txHash m.tx ∉ selfHash := by
  obtain ⟨-, hwaits, hnoted, -⟩ := h.cases ha hself
  have hpacked : ∀ x ∈ n.packedQueue selfHash r, x ∈ queue := by
    intro x hx
    obtain hx | ⟨hx | ⟨-, hx⟩, hnot⟩ := (mem_packedQueue h ha hself).mp hx
    · exact (hwaits x hx).1
    · exact hnoted x _ hx hnot
    · exact hnoted x _ hx hnot
  rw [mem_rollback ha.inj hpacked fun x hx => hnoted x _ (mem_msgs.mp hx), mem_packedQueue h ha hself,
    mem_msgs]
  tauto

theorem mem_outcome_queue :
    m ∈ (n.outcome selfHash r signs).queue ↔ m ∈ r.1.queue ∨
      ((m, .back) ∈ r.1.notes ∨
        (n.outcome selfHash r signs).unit = none ∧ (m, .executed) ∈ r.1.notes) ∧
        n.txHash m.tx ∉ selfHash := by
  unfold outcome finish
  by_cases hempty : r.1.pack.result.isEmpty = true
  · have hnone : (m, .executed) ∉ r.1.notes := by
      rw [h.result, List.isEmpty_iff, List.map_eq_nil_iff] at hempty
      rw [← mem_msgs, hempty]
      exact List.not_mem_nil
    simp only [hempty, if_true, mem_packedQueue h ha hself, hnone, and_false]
  · rw [Bool.not_eq_true] at hempty
    cases hinterrupted : r.2 with
    | true => simp [hempty, mem_rolledBack h ha hself]
    | false =>
      cases signs with
      | true => simp [hempty, mem_packedQueue h ha hself, hinterrupted]
      | false => simp [hempty, mem_rolledBack h ha hself]

end

end

end

theorem nodup_outcome_queue (h : r.1.queue.Nodup) : (n.outcome selfHash r signs).queue.Nodup := by
  have hpacked : (n.packedQueue selfHash r).Nodup := nodup_rollback h
  unfold outcome
  split
  · exact hpacked
  · exact nodup_rollback hpacked
  · split
    · exact hpacked
    · exact nodup_rollback hpacked

theorem outcome_removed : (n.outcome selfHash r signs).removed =
    ((r.1.notes.msgs .failed).map fun m => n.txHash m.tx).filter (· ∉ selfHash) := by
  unfold outcome
  split
  · rfl
  · rfl
  · split <;> rfl

theorem outcome_unit {unit : Packed} (h : (n.outcome selfHash r signs).unit = some unit) :
    unit.txs = r.1.pack.result := by
  unfold outcome at h
  split at h
  · cases h
  · cases h
  · next hok =>
    split at h
    · cases h
      unfold finish at hok
      split at hok
      · cases hok
      split at hok
      · cases hok
      cases hok
      rfl
    · cases h

theorem lies_executed (h : Run.Kept n own queue r.1) :
    n.Lies r.1.notes (n.outcome selfHash r signs) m .executed ↔
      (m, .executed) ∈ r.1.notes ∧ (n.outcome selfHash r signs).unit ≠ none := by
  refine and_congr_right fun hnote => ⟨fun ⟨unit, hunit, _⟩ => hunit ▸ nofun, fun hne => ?_⟩
  obtain ⟨unit, hunit⟩ := Option.ne_none_iff_exists'.mp hne
  refine ⟨unit, hunit, ?_⟩
  rw [outcome_unit hunit, h.result]
  exact mem_map_of_mem (mem_msgs.mpr hnote)

theorem exists_place (h : Run.Kept n own queue r.1) (ha : Apart n selfHash queue)
    (hself : ∀ m ∈ own, n.txHash m.tx ∈ selfHash) (hm : m ∈ queue) :
    ∃! place, n.Lies r.1.notes (n.outcome selfHash r signs) m place := by
  obtain ⟨hall, hwaits, -, hunique⟩ := h.cases ha hself
  have hnot := ha.notOwn m hm
  have hback : n.Lies r.1.notes (n.outcome selfHash r signs) m .back ↔ m ∈ r.1.queue ∨
      ((m, .back) ∈ r.1.notes ∨
        (n.outcome selfHash r signs).unit = none ∧ (m, .executed) ∈ r.1.notes) :=
    (mem_outcome_queue h ha hself).trans (by simp [hnot])
  have hfailed : n.Lies r.1.notes (n.outcome selfHash r signs) m .failed ↔
      (m, .failed) ∈ r.1.notes := by
    refine ⟨And.left, fun hnote => ⟨hnote, ?_⟩⟩
    rw [outcome_removed, mem_filter, decide_eq_true_iff]
    exact ⟨mem_map_of_mem (mem_msgs.mpr hnote), hnot⟩
  have hexecuted : n.Lies r.1.notes (n.outcome selfHash r signs) m .executed ↔
      (m, .executed) ∈ r.1.notes ∧ (n.outcome selfHash r signs).unit ≠ none := lies_executed h
  have hignored : n.Lies r.1.notes (n.outcome selfHash r signs) m .ignored ↔
      (m, .ignored) ∈ r.1.notes := Iff.rfl
  obtain hrest | ⟨place, hnote⟩ := hall m hm
  · have hnone := (hwaits m hrest).2
    refine ⟨.back, hback.mpr (.inl hrest), fun place hlies => ?_⟩
    cases place with
    | executed => exact absurd hlies.1 (hnone _)
    | back => rfl
    | failed => exact absurd hlies.1 (hnone _)
    | ignored => exact absurd hlies (hnone _)
  · have hrest : m ∉ r.1.queue := fun hin => (hwaits m hin).2 place hnote
    have hnoted : ∀ place', (m, place') ∈ r.1.notes ↔ place' = place :=
      fun place' => ⟨fun hnote' => hunique m hm _ _ hnote' hnote, fun heq => heq ▸ hnote⟩
    rw [hnoted, hnoted] at hback
    rw [hnoted] at hfailed hexecuted hignored
    -- a message that was executed is back if there is no unit, every other one is where it was put
    by_cases hlost : place = .executed ∧ (n.outcome selfHash r signs).unit = none
    · refine ⟨.back, hback.mpr (.inr (.inr ⟨hlost.2, hlost.1.symm⟩)), fun place' hlies => ?_⟩
      obtain ⟨rfl, hunit⟩ := hlost
      cases place' with
      | executed => exact absurd hunit (hexecuted.mp hlies).2
      | back => rfl
      | failed => cases hfailed.mp hlies
      | ignored => cases hignored.mp hlies
    · have hlies : ∀ place', n.Lies r.1.notes (n.outcome selfHash r signs) m place' ↔
          place' = place := by
        intro place'
        cases place' with
        | executed =>
          rw [hexecuted]
          exact ⟨And.left, fun heq => ⟨heq, fun hunit => hlost ⟨heq.symm, hunit⟩⟩⟩
        | back =>
          rw [hback]
          refine ⟨fun hor => ?_, fun heq => .inr (.inl heq)⟩
          obtain hin | heq | ⟨hunit, heq⟩ := hor
          · exact absurd hin hrest
          · exact heq
          · exact absurd ⟨heq.symm, hunit⟩ hlost
        | failed => exact hfailed
        | ignored => exact hignored
      exact ⟨place, (hlies place).mpr rfl, fun place' h => (hlies place').mp h⟩

end Outcome

theorem mem_selfHash {σ : Type} {n : Miner σ} {own : Option (List TxMsg)} :
    ∀ m ∈ others own, n.txHash m.tx ∈ n.selfHash own :=
  fun _ hm => mem_map_of_mem hm

namespace Sample

theorem payout_packed :
    (miner.generateUnit header state none [payoutMsg] [.poll, .timeout] true).unit ≠ none := by
  decide +kernel

/-- The transactions of the node cannot be made, and there is a unit all the same. -/
theorem unit_after_failure : ¬miner.Accounts header state none [payoutMsg] [.poll, .timeout] true :=
  fun h => payout_packed (h.failed rfl)

end Sample

/-- A run accounts for every message exactly if the transactions of the node itself could be made,
or it ends without a unit. -/
theorem generateUnit_accounts (own : Option (List TxMsg)) :
    (∀ (σ : Type) (n : Miner σ) (header : Header) (s : ChainState σ) (queue : List TxMsg)
      (signals : List Signal) (signs : Bool), Apart n (n.selfHash own) queue →
        (n.Accounts header s own queue signals signs ↔
          own.isSome = true ∨ (n.generateUnit header s own queue signals signs).unit = none)) ∧
    ((∀ (σ : Type) (n : Miner σ) (header : Header) (s : ChainState σ) (queue : List TxMsg)
      (signals : List Signal) (signs : Bool), Apart n (n.selfHash own) queue →
        n.Accounts header s own queue signals signs) ↔ own.isSome = true) := by
  have hrun : ∀ (σ : Type) (n : Miner σ) (header : Header) (s : ChainState σ) (queue : List TxMsg)
      (signals : List Signal) (signs : Bool), Apart n (n.selfHash own) queue →
        (n.Accounts header s own queue signals signs ↔
          own.isSome = true ∨ (n.generateUnit header s own queue signals signs).unit = none) := by
    intro σ n header s queue signals signs ha
    constructor
    · intro h
      cases own with
      | none => exact .inr (h.failed rfl)
      | some txList => exact .inl rfl
    intro hok
    have hkept := packRun_kept n header s own queue signals
    obtain ⟨-, hwaits, -, -⟩ := hkept.cases ha mem_selfHash
    refine ⟨fun m hm => exists_place hkept ha mem_selfHash hm, ?_, fun m hm => ?_, ?_⟩
    · obtain ⟨_, popped, -, -, hpopped⟩ := hkept.notes
      have hnodup : queue.Nodup := ha.nodup.of_map _
      rw [← hpopped] at hnodup
      exact nodup_outcome_queue (nodup_append.mp hnodup).2.1
    · obtain hm | ⟨-, hnot⟩ := (mem_outcome_queue hkept ha mem_selfHash).mp hm
      · exact ha.notOwn m (hwaits m hm).1
      · exact hnot
    · rintro rfl
      exact hok.resolve_left nofun
  refine ⟨hrun, fun h => ?_, fun hok σ n header s queue signals signs ha =>
    (hrun σ n header s queue signals signs ha).mpr (.inl hok)⟩
  cases own with
  | none =>
    have ha : Apart Sample.miner (Sample.miner.selfHash none) [Sample.payoutMsg] :=
      ⟨nodup_singleton _, fun _ _ => not_mem_nil⟩
    exact absurd ((h _ _ Sample.header Sample.state _ [.poll, .timeout] true ha).failed rfl)
      Sample.payout_packed
  | some txList => rfl

end Nerthus.Witness
