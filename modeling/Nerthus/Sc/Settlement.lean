import Nerthus.Sc.SettleCalc

/-!
# Every unit is settled once

A delivered event settles its unit whether or not a scan has done so before: the
proposer's last vote is the only guard. As long as events are delivered before
their marks are scanned, the reports are the sums over the settled units.
-/

namespace Nerthus.Sc.Settle

open SettleCalc List

variable {conf : Config}

def ProposedBy (p : Nat) (w : Address) (u : SettleUnit conf) : Prop :=
  u.period = p ∧ u.proposer = w
deriving Decidable

def VotedBy (p : Nat) (w : Address) (u : SettleUnit conf) : Prop :=
  u.period = p ∧ w ∈ u.witnessLib ∧ (w = u.proposer ∨ w ∈ u.witnesses)
deriving Decidable

def CalledFor (p : Nat) (w : Address) (u : SettleUnit conf) : Prop :=
  u.period = p ∧ w ∈ u.witnessLib
deriving Decidable

structure CountsOnce (units : List (SettleUnit conf)) (p : Nat) (w : Address) (info : Report) :
    Prop where
  fee : info.fee = ((units.filter (ProposedBy p w ·)).map SettleUnit.fee).sum
  createUnits : info.createUnits = units.countP (ProposedBy p w ·)
  votes : info.votes = units.countP (VotedBy p w ·)
  votedTxs : info.votedTxs = ((units.filter (VotedBy p w ·)).map SettleUnit.txCount).sum
  shouldVote : info.shouldVote = units.countP (CalledFor p w ·)

def Exact (units : List (SettleUnit conf)) (reports : Reports) : Prop :=
  ∀ p w, CountsOnce units p w ((reports p w).getD (Report.new false))

variable {u : SettleUnit conf} {units : List (SettleUnit conf)}

theorem CountsOnce.perm {units' : List (SettleUnit conf)} (h : units.Perm units') {p : Nat}
    {w : Address} {info : Report} (hc : CountsOnce units p w info) :
    CountsOnce units' p w info where
  fee := hc.fee.trans ((h.filter _).map _).sum_nat
  createUnits := hc.createUnits.trans (h.countP_eq _)
  votes := hc.votes.trans (h.countP_eq _)
  votedTxs := hc.votedTxs.trans ((h.filter _).map _).sum_nat
  shouldVote := hc.shouldVote.trans (h.countP_eq _)

theorem CountsOnce.new {p : Nat} {w : Address} {r : Option Report} {isSys : Bool}
    (hc : CountsOnce units p w (r.getD (Report.new false))) :
    CountsOnce units p w (r.getD (Report.new isSys)) := by
  cases r with
  | none => exact ⟨hc.fee, hc.createUnits, hc.votes, hc.votedTxs, hc.shouldVote⟩
  | some info => exact hc

theorem CountsOnce.countUnit {w : Address} {info : Report} (hc : CountsOnce units u.period w info)
    (hw : w ∈ u.witnessLib) : CountsOnce (u :: units) u.period w (countUnit u u.fee info w) := by
  have hcalled : CalledFor u.period w u := ⟨rfl, hw⟩
  unfold Settle.countUnit
  by_cases hp : w = u.proposer
  · have hproposed : ProposedBy u.period w u := ⟨rfl, hp.symm⟩
    have hvoted : VotedBy u.period w u := ⟨rfl, hw, .inl hp⟩
    rw [if_pos hp]
    exact ⟨by simp [hc.fee, hproposed, Nat.add_comm], by simp [hc.createUnits, hproposed],
      by simp [hc.votes, hvoted], by simp [hc.votedTxs, hvoted, Nat.add_comm],
      by simp [hc.shouldVote, hcalled]⟩
  · have hproposed : ¬ProposedBy u.period w u := fun h => hp h.2.symm
    rw [if_neg hp]
    by_cases hv : w ∈ u.witnesses
    · have hvoted : VotedBy u.period w u := ⟨rfl, hw, .inr hv⟩
      rw [if_pos hv]
      exact ⟨by simp [hc.fee, hproposed], by simp [hc.createUnits, hproposed],
        by simp [hc.votes, hvoted], by simp [hc.votedTxs, hvoted, Nat.add_comm],
        by simp [hc.shouldVote, hcalled]⟩
    · have hvoted : ¬VotedBy u.period w u := fun h => h.2.2.elim hp hv
      rw [if_neg hv]
      exact ⟨by simp [hc.fee, hproposed], by simp [hc.createUnits, hproposed],
        by simp [hc.votes, hvoted], by simp [hc.votedTxs, hvoted],
        by simp [hc.shouldVote, hcalled]⟩

theorem CountsOnce.skip {p : Nat} {w : Address} {info : Report} (hc : CountsOnce units p w info)
    (hproposer : u.proposer ∈ u.witnessLib) (hskip : ¬(p = u.period ∧ w ∈ u.witnessLib)) :
    CountsOnce (u :: units) p w info := by
  have hcalled : ¬CalledFor p w u := fun h => hskip ⟨h.1.symm, h.2⟩
  have hvoted : ¬VotedBy p w u := fun h => hcalled ⟨h.1, h.2.1⟩
  have hproposed : ¬ProposedBy p w u := fun h => hcalled ⟨h.1, h.2 ▸ hproposer⟩
  exact ⟨by simp [hc.fee, hproposed], by simp [hc.createUnits, hproposed],
    by simp [hc.votes, hvoted], by simp [hc.votedTxs, hvoted], by simp [hc.shouldVote, hcalled]⟩

theorem countUnits_apply {workFee : Nat} {db : Reports}
    (hguard : ((db u.period u.proposer).getD (Report.new u.isSys)).votedLastUnit ≠ u.hash)
    (l : List Address) (hl : l.Nodup) (batch : Reports) (p : Nat) (w : Address) :
    countUnits u workFee db l batch p w =
      if p = u.period ∧ w ∈ l then
        some (countUnit u workFee ((db u.period w).getD (Report.new u.isSys)) w)
      else batch p w := by
  induction l generalizing batch with
  | nil => simp [countUnits]
  | cons x rest ih =>
    obtain ⟨hx, hrest⟩ := nodup_cons.mp hl
    have hgo : ¬(x = u.proposer ∧
        ((db u.period x).getD (Report.new u.isSys)).votedLastUnit = u.hash) := by
      rintro ⟨rfl, h⟩
      exact hguard h
    rw [countUnits, if_neg hgo, ih hrest]
    by_cases hp : p = u.period
    · by_cases hwx : w = x
      · subst hwx
        simp [hp, hx, Reports.put]
      · simp [hp, hwx, Reports.put]
    · simp [hp, Reports.put]

theorem countUnit_votedLastUnit (u : SettleUnit conf) (workFee : Nat) (info : Report) (w : Address) :
    (countUnit u workFee info w).votedLastUnit = u.hash ∨
      (countUnit u workFee info w).votedLastUnit = info.votedLastUnit := by
  unfold countUnit
  split_ifs
  · exact .inl rfl
  · exact .inl rfl
  · exact .inr rfl

/-! ## The invariant -/

/-- `settled` are the units that were counted: those without a mark, each once. -/
structure Balanced (s : SettleCalc conf) (settled : List (SettleUnit conf)) : Prop where
  units_nodup : (s.units.map SettleUnit.hash).Nodup
  marks_nodup : s.marks.Nodup
  mem_marks : ∀ m, m ∈ s.marks ↔
    ∃ u ∈ s.units, u.isBlackUnit = false ∧ u ∉ settled ∧ u.mark = m
  settled_nodup : settled.Nodup
  settled_stored : ∀ u ∈ settled, u ∈ s.units ∧ u.isBlackUnit = false
  exact : Exact settled s.reports
  last : ∀ p w info, s.reports p w = some info →
    info.votedLastUnit = Hash.zero ∨ ∃ u ∈ settled, info.votedLastUnit = u.hash

namespace Balanced

variable {s : SettleCalc conf} {settled : List (SettleUnit conf)}

section

variable (h : Balanced s settled)
include h

section

variable (hu : u ∈ s.units)
include hu

theorem eq_of_hash {v : SettleUnit conf} (hv : v ∈ s.units) (heq : u.hash = v.hash) : u = v :=
  inj_on_of_nodup_map h.units_nodup hu hv heq

theorem notMem_settled (hmark : u.mark ∈ s.marks) :
    u ∉ settled := by
  obtain ⟨v, hv, -, hnot, heq⟩ := (h.mem_marks _).mp hmark
  have hvu : v = u := h.eq_of_hash hv hu (congrArg Mark.hash heq)
  exact hvu ▸ hnot

theorem getUnit_hash : s.getUnit u.hash = some u := by
  obtain ⟨v, hv⟩ : ∃ v, s.getUnit u.hash = some v :=
    Option.isSome_iff_exists.mp (find?_isSome.mpr ⟨u, hu, by simp⟩)
  have hhash : v.hash = u.hash := by simpa using find?_some hv
  rw [hv, h.eq_of_hash (mem_of_find?_eq_some hv) hu hhash]

theorem guard (hnot : u ∉ settled) (p : Nat) (w : Address) :
    ((s.reports p w).getD (Report.new u.isSys)).votedLastUnit ≠ u.hash := by
  cases hr : s.reports p w with
  | none => exact u.hash_ne_zero.symm
  | some info =>
    obtain hzero | ⟨v, hv, heq⟩ := h.last p w info hr
    · rw [Option.getD_some, hzero]
      exact u.hash_ne_zero.symm
    · rw [Option.getD_some, heq]
      intro hhash
      exact hnot (h.eq_of_hash (h.settled_stored v hv).1 hu hhash ▸ hv)

theorem writeWorkFee (hblack : u.isBlackUnit = false) (hmark : u.mark ∈ s.marks) :
    Balanced (s.writeWorkFee u u.fee) (u :: settled) := by
  have hnot := h.notMem_settled hu hmark
  have hproposer : u.proposer ∈ u.witnessLib :=
    u.proposer_mem (by simpa [SettleUnit.isBlackUnit] using hblack)
  have happly : ∀ p w, countUnits u u.fee s.reports u.witnessLib s.reports p w = _ :=
    countUnits_apply (h.guard hu hnot u.period u.proposer) u.witnessLib u.witnessLib_nodup s.reports
  unfold SettleCalc.writeWorkFee
  rw [hblack, if_neg (by simp)]
  refine ⟨h.units_nodup, h.marks_nodup.filter _, ?_, nodup_cons.mpr ⟨hnot, h.settled_nodup⟩,
    ?_, ?_, ?_⟩
  · intro m
    change m ∈ s.marks.filter (fun x => decide (x ≠ u.mark)) ↔ _
    rw [mem_filter, h.mem_marks]
    constructor
    · rintro ⟨⟨v, hv, hvb, hvn, rfl⟩, hne⟩
      refine ⟨v, hv, hvb, ?_, rfl⟩
      rw [mem_cons, not_or]
      exact ⟨fun hvu => by simp [hvu] at hne, hvn⟩
    · rintro ⟨v, hv, hvb, hvn, rfl⟩
      rw [mem_cons, not_or] at hvn
      exact ⟨⟨v, hv, hvb, hvn.2, rfl⟩, decide_eq_true fun hmv =>
        hvn.1 (h.eq_of_hash hv hu (congrArg Mark.hash hmv))⟩
  · intro v hv
    obtain rfl | hv := mem_cons.mp hv
    · exact ⟨hu, hblack⟩
    · exact h.settled_stored v hv
  · intro p w
    change CountsOnce _ _ _ ((countUnits u u.fee s.reports u.witnessLib s.reports p w).getD _)
    rw [happly]
    split_ifs with hw
    · rw [hw.1]
      exact (h.exact u.period w).new.countUnit hw.2
    · exact (h.exact p w).skip hproposer hw
  · intro p w info hinfo
    change countUnits u u.fee s.reports u.witnessLib s.reports p w = some info at hinfo
    rw [happly] at hinfo
    split_ifs at hinfo with hw
    · rw [← Option.some.inj hinfo]
      obtain hself | hold := countUnit_votedLastUnit u u.fee
        ((s.reports u.period w).getD (Report.new u.isSys)) w
      · exact .inr ⟨u, .head _, hself⟩
      · rw [hold]
        cases hr : s.reports u.period w with
        | none => exact .inl rfl
        | some old =>
          exact (h.last _ _ old hr).imp id fun ⟨v, hv, heq⟩ => ⟨v, .tail _ hv, heq⟩
    · obtain hzero | ⟨v, hv, heq⟩ := h.last p w info hinfo
      · exact .inl hzero
      · exact .inr ⟨v, .tail _ hv, heq⟩

theorem process (hmark : u.isBlackUnit = false → u.mark ∈ s.marks) (fails : Bool)
    {receipts : Option (List Nat)} (hreceipts : u.calcUnitFee receipts = u.fee) :
    ∃ settled', Balanced (s.process fails u receipts) settled' := by
  unfold SettleCalc.process
  split
  · exact ⟨settled, h⟩
  cases hblack : u.isBlackUnit with
  | true =>
    rw [SettleCalc.writeWorkFee, if_pos hblack]
    exact ⟨settled, h⟩
  | false =>
    rw [hreceipts]
    exact ⟨_, h.writeWorkFee hu hblack (hmark hblack)⟩

end

theorem exact_of_marks_nil (hmarks : s.marks = []) :
    Exact (s.units.filter fun u => !u.isBlackUnit) s.reports := by
  have hperm : settled.Perm (s.units.filter fun u => !u.isBlackUnit) := by
    refine (perm_ext_iff_of_nodup h.settled_nodup (h.units_nodup.of_map.filter _)).mpr ?_
    intro u
    rw [mem_filter, Bool.not_eq_true']
    refine ⟨h.settled_stored u, fun hu => ?_⟩
    by_contra hnot
    have hmem := (h.mem_marks u.mark).mpr ⟨u, hu.1, hu.2, hnot, rfl⟩
    rw [hmarks] at hmem
    exact absurd hmem not_mem_nil
  exact fun p w => (h.exact p w).perm hperm

end

end Balanced

namespace SettleCalc

variable {s : SettleCalc conf} {settled : List (SettleUnit conf)}

theorem mem_process_marks {fails : Bool} {receipts : Option (List Nat)} {m : Mark}
    (hm : m ∈ s.marks) (hne : m ≠ u.mark) : m ∈ (s.process fails u receipts).marks := by
  unfold process writeWorkFee
  split_ifs
  · exact hm
  · exact hm
  · exact mem_filter.mpr ⟨hm, decide_eq_true hne⟩

theorem foldl_processMark (fails : Hash → Bool) (marks : List Mark) (hmarks : marks.Nodup)
    (hmem : ∀ m ∈ marks, m ∈ s.marks) (h : Balanced s settled) :
    ∃ settled', Balanced (marks.foldl (processMark fails) s) settled' := by
  induction marks generalizing s settled with
  | nil => exact ⟨settled, h⟩
  | cons m rest ih =>
    obtain ⟨hm, hrest⟩ := nodup_cons.mp hmarks
    have hhead := hmem m (.head _)
    obtain ⟨u, hu, -, -, rfl⟩ := (h.mem_marks m).mp hhead
    have hstep : processMark fails s u.mark = s.process (fails u.mark.hash) u none := by
      rw [processMark, show u.mark.hash = u.hash from rfl, h.getUnit_hash hu]
    obtain ⟨settled', h'⟩ := h.process hu (fun _ => hhead) (fails u.mark.hash)
      (show u.calcUnitFee none = u.fee from rfl)
    rw [foldl_cons, hstep]
    refine ih hrest (fun m' hm' => ?_) h'
    exact mem_process_marks (hmem m' (.tail _ hm'))
      fun heq => hm (heq ▸ hm')

theorem processOld_balanced (h : Balanced s settled) (fails : Hash → Bool) :
    ∃ settled', Balanced (s.processOld fails) settled' :=
  foldl_processMark fails s.marks h.marks_nodup (fun _ hm => hm) h

theorem write_balanced (h : Balanced s settled) (u : SettleUnit conf) :
    Balanced (s.write u) settled := by
  unfold write
  by_cases hknown : (s.getUnit u.hash).isSome
  · rwa [if_pos hknown]
  have hfresh : ∀ v ∈ s.units, v.hash ≠ u.hash := by simpa [getUnit] using hknown
  have hunits : ((u :: s.units).map SettleUnit.hash).Nodup := by
    rw [map_cons, nodup_cons]
    refine ⟨fun hmem => ?_, h.units_nodup⟩
    obtain ⟨v, hv, heq⟩ := mem_map.mp hmem
    exact hfresh v hv heq
  have hstored : ∀ v ∈ settled, v ∈ u :: s.units ∧ v.isBlackUnit = false := fun v hv =>
    ⟨.tail _ (h.settled_stored v hv).1, (h.settled_stored v hv).2⟩
  rw [if_neg hknown]
  cases hblack : u.isBlackUnit with
  | true =>
    refine ⟨hunits, h.marks_nodup, fun m => ?_, h.settled_nodup, hstored, h.exact, h.last⟩
    refine (h.mem_marks m).trans ⟨?_, ?_⟩
    · rintro ⟨v, hv, hrest⟩
      exact ⟨v, .tail _ hv, hrest⟩
    · rintro ⟨v, hv, hvb, hrest⟩
      obtain rfl | hv := mem_cons.mp hv
      · rw [hblack] at hvb
        cases hvb
      · exact ⟨v, hv, hvb, hrest⟩
  | false =>
    have hmark : u.mark ∉ s.marks := fun hm => by
      obtain ⟨v, hv, -, -, heq⟩ := (h.mem_marks _).mp hm
      exact hfresh v hv (congrArg Mark.hash heq)
    have hperm := perm_orderedInsert Mark.le u.mark s.marks
    refine ⟨hunits, ?_, fun m => ?_, h.settled_nodup, hstored, h.exact, h.last⟩
    · exact hperm.nodup_iff.mpr (nodup_cons.mpr ⟨hmark, h.marks_nodup⟩)
    · refine hperm.mem_iff.trans ?_
      rw [mem_cons, h.mem_marks]
      constructor
      · rintro (rfl | ⟨v, hv, hrest⟩)
        · exact ⟨u, .head _, hblack,
            fun hu => hfresh u (h.settled_stored u hu).1 rfl, rfl⟩
        · exact ⟨v, .tail _ hv, hrest⟩
      · rintro ⟨v, hv, hrest⟩
        obtain rfl | hv := mem_cons.mp hv
        · exact .inl hrest.2.2.symm
        · exact .inr ⟨v, hv, hrest⟩

/-! ## Runs -/

def Posted (s : SettleCalc conf) : Prop := ∀ u, u ∈ s.unsent ∨ u ∈ s.queue → u ∈ s.units

theorem processMark_posted (fails : Hash → Bool) (m : Mark) (h : Posted s) :
    Posted (processMark fails s m) := by
  unfold processMark
  split
  · exact h
  · unfold process writeWorkFee
    split_ifs <;> exact h

theorem processOld_posted (fails : Hash → Bool) (h : Posted s) : Posted (s.processOld fails) := by
  unfold processOld
  generalize s.marks = marks
  induction marks generalizing s with
  | nil => exact h
  | cons m rest ih => exact ih (processMark_posted fails m h)

theorem step_posted (h : Posted s) (a : Step conf) : Posted (s.step a) := by
  cases a with
  | write u =>
    change Posted (s.write u)
    unfold write
    split_ifs
    · exact h
    all_goals
      rintro v (hv | hv)
      · obtain rfl | hv := mem_cons.mp hv
        · exact .head _
        · exact .tail _ (h v (.inl hv))
      · exact .tail _ (h v (.inr hv))
  | send u =>
    unfold step
    dsimp only
    split_ifs with hu
    · rintro v (hv | hv)
      · exact h v (.inl (mem_of_mem_erase hv))
      · obtain hv | hv := mem_append.mp hv
        · exact h v (.inr hv)
        · rw [mem_singleton.mp hv]
          exact h u (.inl hu)
    · exact h
  | lose u => exact fun v hv => h v (hv.imp_left mem_of_mem_erase)
  | deliver fails =>
    unfold step
    dsimp only
    split
    · exact h
    rename_i u queue hqueue
    have hrest : Posted { s with queue } := fun v hv =>
      h v (hv.imp_right fun hv => hqueue ▸ .tail _ hv)
    unfold process writeWorkFee
    split_ifs <;> exact hrest
  | scan fails => exact processOld_posted fails h
  | restart fails =>
    have hdrop : Posted { s with queue := [] } := fun v hv =>
      h v (hv.imp_right fun hv => absurd hv not_mem_nil)
    exact processOld_posted fails hdrop

def Timely (s : SettleCalc conf) : Step conf → Prop
  | .deliver _ =>
    match s.queue with
    | [] => True
    | u :: _ => u.isBlackUnit = false → u.mark ∈ s.marks
  | _ => True

instance (s : SettleCalc conf) (a : Step conf) : Decidable (Timely s a) :=
  match a with
  | .deliver _ =>
    match h : s.queue with
    | [] => decidable_of_iff True (by simp [Timely, h])
    | u :: _ => decidable_of_iff (u.isBlackUnit = false → u.mark ∈ s.marks) (by simp [Timely, h])
  | .write _ | .send _ | .lose _ | .scan _ | .restart _ => inferInstanceAs (Decidable True)

def TimelyRun : SettleCalc conf → List (Step conf) → Prop
  | _, [] => True
  | s, a :: rest => Timely s a ∧ TimelyRun (s.step a) rest

instance decidableTimelyRun (s : SettleCalc conf) (steps : List (Step conf)) :
    Decidable (TimelyRun s steps) :=
  match steps with
  | [] => inferInstanceAs (Decidable True)
  | a :: rest =>
    have := decidableTimelyRun (s.step a) rest
    inferInstanceAs (Decidable (_ ∧ _))

theorem step_balanced (h : Balanced s settled) (hposted : Posted s) {a : Step conf}
    (ha : Timely s a) : ∃ settled', Balanced (s.step a) settled' := by
  cases a with
  | write u => exact ⟨settled, write_balanced h u⟩
  | send u =>
    refine ⟨settled, ?_⟩
    unfold step
    dsimp only
    split_ifs
    · exact { h with }
    · exact h
  | lose u => exact ⟨settled, { h with }⟩
  | deliver fails =>
    unfold step
    dsimp only
    split
    · exact ⟨settled, h⟩
    rename_i u queue hqueue
    have hrest : Balanced { s with queue } settled := { h with }
    have hu : u ∈ s.units := hposted u (.inr (hqueue ▸ (.head _)))
    rw [Timely, hqueue] at ha
    exact hrest.process hu ha fails rfl
  | scan fails => exact processOld_balanced h fails
  | restart fails =>
    have hdrop : Balanced { s with queue := [] } settled := { h with }
    exact processOld_balanced hdrop fails

theorem run_balanced {steps : List (Step conf)} (h : Balanced s settled) (hposted : Posted s)
    (hrun : TimelyRun s steps) : ∃ settled', Balanced (s.run steps) settled' := by
  induction steps generalizing s settled with
  | nil => exact ⟨settled, h⟩
  | cons a rest ih =>
    obtain ⟨settled', h'⟩ := step_balanced h hposted hrun.1
    exact ih h' (step_posted hposted a) hrun.2

theorem balanced_empty : Balanced (empty : SettleCalc conf) [] where
  units_nodup := nodup_nil
  marks_nodup := nodup_nil
  mem_marks m := by simp [empty]
  settled_nodup := nodup_nil
  settled_stored u hu := absurd hu not_mem_nil
  exact p w := ⟨rfl, rfl, rfl, rfl, rfl⟩
  last p w info h := by cases h

/-- However writing, scans, restarts and timely events are interleaved: once no mark is left, every
report counts every unit once. -/
theorem settled_once (steps : List (Step conf)) (hrun : TimelyRun empty steps)
    (hmarks : (empty.run steps).marks = []) :
    Exact ((empty.run steps).units.filter fun u => !u.isBlackUnit) (empty.run steps).reports := by
  obtain ⟨settled, h⟩ := run_balanced balanced_empty (fun u hu => by simp [empty] at hu) hrun
  exact h.exact_of_marks_nil hmarks

namespace Sample

def config : Config := ⟨100, ⟨9⟩, ⟨100⟩⟩

def unit (hash : Hash) (h : hash ≠ Hash.zero) (proposer : Address) (hp : proposer ∈ [⟨1⟩, ⟨2⟩]) :
    SettleUnit config where
  hash := hash
  mc := ⟨5⟩
  timestamp := hash.val
  scNumber := 10
  proposer := proposer
  witnesses := [⟨1⟩, ⟨2⟩]
  witnessLib := [⟨1⟩, ⟨2⟩]
  transactions := [⟨.transferPayment, 2⟩]
  receipts := [3]
  receipts_length := rfl
  hash_ne_zero := h
  witnessLib_nodup := by decide
  proposer_mem _ := hp

def unit1 : SettleUnit config := unit ⟨1⟩ (by decide) ⟨1⟩ (by decide)

def unit2 : SettleUnit config := unit ⟨2⟩ (by decide) ⟨2⟩ (by decide)

/-- The event of the first unit is delivered, that of the second is lost in a restart. -/
def orderly : List (Step config) :=
  [.write unit1, .send unit1, .deliver false, .write unit2, .send unit2,
    .restart fun _ => false]

def overtaken : List (Step config) :=
  [.write unit1, .send unit1, .write unit2, .send unit2, .scan fun _ => false, .deliver false,
    .deliver false]

end Sample

theorem Sample.orderly_settled : Exact [unit2, unit1] (empty.run orderly).reports :=
  settled_once orderly (by decide) (by decide)

/-- After the scan the proposer of the first unit voted last for the second, so the first is counted
again. -/
theorem Sample.overtaken_counted_twice :
    (empty.run overtaken).marks = [] ∧ (empty.run overtaken).queue = [] ∧
      (empty.run overtaken).unsent = [] ∧
      ¬Exact ((empty.run overtaken).units.filter fun u => !u.isBlackUnit)
        (empty.run overtaken).reports := by
  refine ⟨by decide, by decide, by decide, fun h => ?_⟩
  exact absurd (h 1 ⟨1⟩).fee (by decide)

end SettleCalc

end Nerthus.Sc.Settle
