import Nerthus.Realtime.Rows

/-!
# Rows that are built and opened

`Root` builds the rows that are missing over the ones it can reuse, and a call
that adds leaves first takes the lowest node without a sibling from its parent.
-/

namespace Nerthus.Realtime

open Lib Relation List Nat

variable {H : Bytes → Bytes} {h h' : Heap} {pos : Nat → Nat × Nat} {k i p : Nat} {ls : List Nat}

theorem Sound.newParent {a : Nat} {b : Option Nat} (hs : Sound H h) (ha : Stands h k (2 * i) a ls)
    (hb : ∀ x ∈ b, ∃ ls', Stands h k (2 * i + 1) x ls') : Sound H (h.newParent a b) ∧
      Moved h (h.newParent a b) (a :: b.toList) ∧
      (h.newParent a b).node h.size = .newNode a b ∧
      (∀ q, q = a ∨ q ∈ b → ((h.newParent a b).node q).parent = some h.size) ∧
      ∀ {i p ls}, Stands h k i p ls → Stands (h.newParent a b) k i p ls := by
  obtain ⟨pos, hpos⟩ := hs.placed
  have hposa := ha.pos_eq hpos
  have hposb : ∀ x ∈ b, pos x = (k, 2 * i + 1) := fun x hx => (hb x hx).elim fun _ h => h.pos_eq hpos
  have hlta := ha.lt hpos
  have hltb : ∀ x ∈ b, x < h.size := fun x hx => (hb x hx).elim fun _ h => h.lt hpos
  have hm := Moved.newParent hlta hltb
  have hnode := Heap.newParent_node hlta hltb
  have hnew : (h.newParent a b).node h.size = .newNode a b := by rw [hnode, if_pos rfl]
  have hlt : ∀ q, q = a ∨ q ∈ b → q < h.size := fun q hq => hq.elim (· ▸ hlta) (hltb q)
  have hsize := h.newParent_size a b
  have heq : ∀ p, h.size ≤ p → p < (h.newParent a b).size → p = h.size := fun p hle hlt => by omega
  refine ⟨hs.moved hm (Function.update pos h.size (k + 1, i)) (hpos.moved hm ?_ ?_ ?_) ?_,
    hm, hnew, fun q hq => ?_, fun hp => hp.moved hm hpos (r := k) (m := 0) (fun q hq => ?_)
      (.inl (Nat.le_refl k))⟩
  · exact fun q hq => Function.update_of_ne (Nat.ne_of_lt hq) _ _
  · intro p hlt hle j hj
    rw [heq p hle hlt, hnew] at hj
    cases hj
  · intro q p hqp hle
    rw [hnode] at hqp
    split at hqp
    · cases hqp
    split at hqp
    · rename_i hq
      cases hqp
      rw [hnew, Function.update_self, hsize]
      refine ⟨hlt q hq, Nat.lt_succ_self _, rfl, ?_⟩
      rcases hq with rfl | hq
      · rw [hposa]
        refine ⟨by rw [Nat.mul_div_cancel_left i Nat.two_pos], ?_⟩
        rw [if_pos (Nat.mul_mod_right 2 i)]
        refine ⟨rfl, fun hmem => ?_⟩
        have := hposa.symm.trans (hposb q hmem)
        simp at this
      · rw [hposb q hq]
        refine ⟨by simp; omega, ?_⟩
        rw [if_neg (by simp)]
        exact hq
    · exact absurd hle (Nat.not_le.mpr (hpos.link q p hqp).2.1)
  · intro p hle hlt _
    rw [heq p hle hlt, hnew]
    rfl
  · rw [hnode, if_neg (Nat.ne_of_lt (hlt q hq)), if_pos hq]
  · refine ⟨?_, Nat.zero_le _⟩
    rcases mem_cons.mp hq with rfl | hq
    · rw [hposa]
    · rw [hposb q (Option.mem_toList.mp hq)]

/-! ## One row -/

def Heap.right (h : Heap) (q p : Nat) : Prop :=
  (h.node q).parent = some p ∧ (h.node p).childRight = some q

/-- On the way up from a node each node is on the right, up to one without a parent. -/
def Tip (h : Heap) (x : Nat) : Prop := ∃ y, ReflTransGen h.right x y ∧ (h.node y).parent = none

variable {ns l leafs : List Nat} {x p r q : Nat}

theorem Tip.of_free (hx : (h.node x).parent = none) : Tip h x := ⟨x, .refl, hx⟩

theorem Tip.up (hx : Tip h x) (hup : (h.node x).parent = some p) : Tip h p := by
  obtain ⟨y, hway, hfree⟩ := hx
  rcases hway.cases_head with rfl | ⟨q, ⟨hq, -⟩, hway⟩
  · cases hup.symm.trans hfree
  · cases hup.symm.trans hq
    exact ⟨y, hway, hfree⟩

theorem Tip.free (hx : Tip h x) (hpos : Placed h pos) (heven : (pos x).2 % 2 = 0) :
    (h.node x).parent = none := by
  obtain ⟨y, hway, hfree⟩ := hx
  rcases hway.cases_head with rfl | ⟨q, ⟨hq, hright⟩, -⟩
  · exact hfree
  · have hlink := (hpos.link x q hq).2.2.2.2
    rw [if_pos heven] at hlink
    exact absurd hright hlink.2

theorem Tip.moved (hx : Tip h x) (hm : Moved h h' ns) (hpos : Placed h pos) (hlt : x < h.size)
    (hns : ∀ q ∈ ns, (pos q).1 < (pos x).1 ∨ (pos q).1 = (pos x).1 ∧ (pos q).2 < (pos x).2) :
    Tip h' x := by
  obtain ⟨y, hway, hfree⟩ := hx
  induction hway using ReflTransGen.head_induction_on with
  | refl =>
    refine .of_free ?_
    rw [hm.other y hlt fun hmem => by have := hns y hmem; omega]
    exact hfree
  | @head x p hup hway ih =>
    obtain ⟨-, hp, -, hposp, -⟩ := hpos.link x p hup.1
    obtain ⟨z, hway', hfree'⟩ := ih hp fun q hq => by
      have := hns q hq
      rw [hposp]
      omega
    refine ⟨z, .head ⟨?_, (hm.same hp).2.2.1.trans hup.2⟩ hway', hfree'⟩
    rw [hm.other x hlt fun hmem => by have := hns x hmem; omega]
    exact hup.1

/-- The nodes of a row from the `i`-th on, whose subtrees have the leaves of a list. -/
inductive Row (h : Heap) (k : Nat) : Nat → List Nat → List Nat → Prop
  | last {i p : Nat} {ls : List Nat} (hp : Stands h k i p ls) (htip : Tip h p) : Row h k i [p] ls
  | cons {i p : Nat} {l ls leafs : List Nat} (hp : Stands h k i p ls) (hfull : ls.length = 2 ^ k)
      (hl : Row h k (i + 1) l leafs) : Row h k i (p :: l) (ls ++ leafs)

theorem Row.moved (hl : Row h k i l leafs) (hm : Moved h h' ns) (hpos : Placed h pos)
    (hns : ∀ q ∈ ns, (pos q).1 = k ∧ (pos q).2 < i) : Row h' k i l leafs := by
  have hkeep : ∀ {i p ls}, Stands h k i p ls → Stands h' k i p ls := fun hp =>
    hp.moved hm hpos (m := 0) (fun q hq => ⟨(hns q hq).1, zero_le _⟩) (.inl (le_refl k))
  induction hl with
  | @last i p ls hp htip =>
    refine .last (hkeep hp) (htip.moved hm hpos (hp.lt hpos) fun q hq => .inr ?_)
    rw [hp.pos_eq hpos]
    exact hns q hq
  | cons hp hfull hl ih =>
    exact .cons (hkeep hp) hfull (ih fun q hq => ⟨(hns q hq).1, lt_succ_of_lt (hns q hq).2⟩)

theorem Row.places (hl : Row h k i l leafs) (hpos : Placed h pos) :
    ∀ q ∈ l, (pos q).1 = k ∧ i ≤ (pos q).2 := by
  induction hl with
  | last hp htip =>
    intro q hq
    rw [mem_singleton.mp hq, hp.pos_eq hpos]
    exact ⟨rfl, le_refl _⟩
  | cons hp hfull hl ih =>
    refine forall_mem_cons.mpr ⟨?_, fun q hq => ⟨(ih q hq).1, le_of_succ_le (ih q hq).2⟩⟩
    rw [hp.pos_eq hpos]
    exact ⟨rfl, le_refl _⟩

theorem Sound.pair {a b : Nat} {ls' : List Nat} (hs : Sound H h) (ha : Stands h k (2 * i) a ls)
    (hb : Stands h k (2 * i + 1) b ls') (hfull : ls.length = 2 ^ k) :
    ∃ r h', (∀ rest, h.buildAbove (a :: b :: rest) =
        h'.buildAbove rest >>= fun x => .ok (r :: x.1, x.2)) ∧
      Stands h' (k + 1) i r (ls ++ ls') ∧ Sound H h' ∧ Moved h h' [a, b] ∧
      (Tip h b → Tip h' r) := by
  obtain ⟨pos, hpos⟩ := hs.placed
  have hposa := ha.pos_eq hpos
  have hposb := hb.pos_eq hpos
  by_cases hsame : ∃ p, (h.node a).parent = some p ∧ (h.node b).parent = some p
  · obtain ⟨p, hpa, hpb⟩ := hsame
    have hleft := (hpos.link a p hpa).2.2.2.2
    have hright := (hpos.link b p hpb).2.2.2.2
    rw [hposa, if_pos (mul_mod_right 2 i)] at hleft
    rw [hposb, if_neg (by simp)] at hright
    refine ⟨p, h, fun rest => ?_, .two ha hb hfull hleft.1 hright hpa hpb, hs, .refl _ _,
      fun htip => htip.up hpb⟩
    rw [Heap.buildAbove, hpa]
    exact if_pos hpb
  · have hb' : ∀ x ∈ some b, ∃ ls', Stands h k (2 * i + 1) x ls' := fun x hx => by
      cases hx
      exact ⟨ls', hb⟩
    obtain ⟨hs', hm, hnew, hup, hkeep⟩ := hs.newParent ha hb'
    refine ⟨h.size, h.newParent a (some b), fun rest => ?_, .two (hkeep ha) (hkeep hb) hfull ?_ ?_
      (hup a (.inl rfl)) (hup b (.inr rfl)), hs', hm, fun _ => .of_free ?_⟩
    · rw [Heap.buildAbove]
      cases hpa : (h.node a).parent with
      | none => rfl
      | some p => exact if_neg fun hpb => hsame ⟨p, hpa, hpb⟩
    all_goals
      rw [hnew]
      rfl

theorem Row.buildAbove (hl : Row h k (2 * i) l leafs) (hs : Sound H h) :
    ∃ ps h', h.buildAbove l = .ok (ps, h') ∧ Row h' (k + 1) i ps leafs ∧ Sound H h' ∧
      Moved h h' l ∧ ps.length = (l.length + 1) / 2 := by
  induction l using pairUp.induct generalizing h i leafs with
  | case1 => cases hl
  | case2 a =>
    obtain ⟨ha, hfree⟩ : Stands h k (2 * i) a leafs ∧ (h.node a).parent = none := by
      cases hl with
      | last hp htip =>
        obtain ⟨pos, hpos⟩ := hs.placed
        exact ⟨hp, htip.free hpos (by rw [hp.pos_eq hpos]; exact Nat.mul_mod_right 2 i)⟩
      | cons hp hfull hl => cases hl
    obtain ⟨hs', hm, hnew, hup, hkeep⟩ := hs.newParent (b := none) ha (by simp)
    refine ⟨[h.size], h.newParent a none, ?_, .last (.one (hkeep ha) ?_ ?_ (hup a (.inl rfl)))
      (.of_free ?_), hs', hm, by simp⟩
    · rw [Heap.buildAbove, if_neg (not_not_intro hfree)]
    all_goals
      rw [hnew]
      rfl
  | case3 a b rest ih =>
    cases hl with
    | cons ha hfull hl =>
      cases hl with
      | last hb htip =>
        obtain ⟨r, h', hbuild, hr, hs', hm, htip'⟩ := hs.pair ha hb hfull
        exact ⟨[r], h', hbuild [], .last hr (htip' htip), hs', hm, by simp⟩
      | cons hb hfullb hl =>
        obtain ⟨pos, hpos⟩ := hs.placed
        obtain ⟨r, h₁, hbuild, hr, hs₁, hm, -⟩ := hs.pair ha hb hfull
        have hl₁ : Row h₁ k (2 * (i + 1)) rest _ := hl.moved hm hpos fun q hq => by
          rcases mem_cons.mp hq with rfl | hq
          · rw [ha.pos_eq hpos]
            exact ⟨rfl, by omega⟩
          · rw [mem_singleton.mp hq, hb.pos_eq hpos]
            exact ⟨rfl, by omega⟩
        obtain ⟨ps, h', hbuild', hps, hs', hm', hlen⟩ := ih hl₁ hs₁
        refine ⟨r :: ps, h', ?_, ?_, hs', hm.trans hm', ?_⟩
        · rw [hbuild, hbuild']
          rfl
        · rw [← append_assoc]
          refine .cons ?_ ?_ hps
          · obtain ⟨pos₁, hpos₁⟩ := hs₁.placed
            exact hr.moved hm' hpos₁ (hl₁.places hpos₁) (.inr ⟨rfl, by omega⟩)
          · rw [length_append, hfull, hfullb, Nat.pow_succ]
            omega
        · rw [length_cons, hlen, length_cons, length_cons]
          omega

theorem Heap.refresh_of_singleton (hbuild : h.buildAbove ns = .ok ([r], h')) :
    Returns (fun fuel => h.refresh fuel ns) (r, h') := by
  refine .of_succ (.of_forall fun fuel => ?_)
  rw [refresh, hbuild]
  rfl

theorem Heap.refresh_of_length {ps : List Nat} {h₁ : Heap} (hbuild : h.buildAbove ns = .ok (ps, h₁))
    (hlen : ps.length ≠ 1) (hret : Returns (fun fuel => h₁.refresh fuel ps) (r, h')) :
    Returns (fun fuel => h.refresh fuel ns) (r, h') := by
  refine .of_succ (hret.congr fun fuel => ?_)
  rw [refresh, hbuild]
  match ps with
  | [] => rfl
  | [p] => exact absurd rfl hlen
  | p :: q :: ps => rfl

theorem Row.refresh (hl : Row h k 0 l leafs) (hs : Sound H h) :
    ∃ r top h' ns, Returns (fun fuel => h.refresh fuel l) (r, h') ∧ Stands h' top 0 r leafs ∧
      (h'.node r).parent = none ∧ Sound H h' ∧ Moved h h' ns := by
  -- each row has half the length of the one below
  obtain ⟨n, hn⟩ : ∃ n, l.length ≤ n := ⟨_, le_refl _⟩
  induction n generalizing h k l with
  | zero =>
    rw [length_eq_zero_iff.mp (le_zero.mp hn)] at hl
    cases hl
  | succ n ih =>
    obtain ⟨ps, h₁, hbuild, hps, hs₁, hm, hlen⟩ := Row.buildAbove (i := 0) hl hs
    by_cases hone : ps.length = 1
    · obtain ⟨r, rfl⟩ := length_eq_one_iff.mp hone
      cases hps with
      | last hr htip =>
        obtain ⟨pos, hpos⟩ := hs₁.placed
        exact ⟨r, k + 1, h₁, l, Heap.refresh_of_singleton hbuild, hr,
          htip.free hpos (by rw [hr.pos_eq hpos]; rfl), hs₁, hm⟩
      | cons hr hfull hnil => cases hnil
    · have hpos : ps.length ≠ 0 := fun hzero => by
        rw [length_eq_zero_iff.mp hzero] at hps
        cases hps
      obtain ⟨r, top, h₂, ns, hret, hr, hfree, hs₂, hm₂⟩ := ih hps hs₁ (by omega)
      exact ⟨r, top, h₂, l ++ ns, Heap.refresh_of_length hbuild hone hret, hr, hfree, hs₂,
        hm.trans hm₂⟩

theorem Row.leaves (hne : l ≠ []) (hleaf : ∀ j p, l[j]? = some p →
      p < h.size ∧ (h.node p).leaf = some (i + j) ∧ (h.node p).childLeft = none)
    (htip : ∀ x, l.getLast? = some x → Tip h x) : Row h 0 i l l := by
  induction l generalizing i with
  | nil => exact absurd rfl hne
  | cons p l ih =>
    obtain ⟨hlt, hp, hleft⟩ := hleaf 0 p rfl
    cases l with
    | nil => exact .last (.leaf hlt hp hleft) (htip p rfl)
    | cons q l =>
      refine @Row.cons h 0 i p _ [p] _ (.leaf hlt hp hleft) rfl (ih (cons_ne_nil _ _) ?_ ?_)
      · intro j x hx
        rw [Nat.add_right_comm]
        exact hleaf (j + 1) x hx
      · exact fun x hx => htip x (by rw [getLast?_cons_cons]; exact hx)

namespace Heap

theorem clearSingleParent_up (hq : (h.node q).parent = some p) (hp : (h.node p).childRight = some r)
    (hret : Returns (fun fuel => h.clearSingleParent fuel p) h') :
    Returns (fun fuel => h.clearSingleParent fuel q) h' := by
  refine .of_succ (hret.congr fun fuel => ?_)
  rw [clearSingleParent, hq]
  dsimp only
  rw [hp]

theorem clearSingleParent_way {y : Nat} (hway : ReflTransGen h.right x y)
    (hret : Returns (fun fuel => h.clearSingleParent fuel y) h') :
    Returns (fun fuel => h.clearSingleParent fuel x) h' := by
  induction hway using ReflTransGen.head_induction_on with
  | refl => exact hret
  | head hup _ ih => exact clearSingleParent_up hup.1 hup.2 ih

theorem clearSingleParent_free (hq : (h.node q).parent = none) :
    Returns (fun fuel => h.clearSingleParent fuel q) h := by
  refine .of_succ (.of_forall fun fuel => ?_)
  rw [clearSingleParent, hq]

theorem assignParent_idem (h : Heap) (q : Nat) (x y : Option Nat) :
    (h.assignParent q x).assignParent q y = h.assignParent q y := by
  unfold assignParent
  simp only [Function.update_self, Function.update_idem]

theorem clearSingleParent_cut (hq : (h.node q).parent = some p)
    (hleft : (h.node p).childLeft = some q) (hright : (h.node p).childRight = none) :
    Returns (fun fuel => h.clearSingleParent fuel q) (h.assignParent q none) := by
  have hagain : Returns (fun fuel => (h.assignParent q none).dropParent fuel q)
      (h.assignParent q none) := by
    refine .of_succ (.of_forall fun fuel => ?_)
    rw [dropParent, assignParent_node, if_pos rfl]
    rw [assignParent_idem]
  refine .of_succ (.of_succ (hagain.congr fun fuel => ?_))
  rw [clearSingleParent, hq]
  dsimp only
  rw [hright]
  rw [setParent, dropParent, hq]
  dsimp only
  rw [hleft, hright]
  simp [reduceOption]

end Heap

theorem Stands.edge (hp : Stands h k i p ls) (hlast : ls.getLast? = some x) :
    ∃ y, ReflTransGen h.right x y ∧ (y = p ∨ ∃ q, (h.node y).parent = some q ∧
      (h.node q).childLeft = some y ∧ (h.node q).childRight = none) := by
  induction hp with
  | leaf hlt hleaf hleft =>
    cases hlast
    exact ⟨_, .refl, .inl rfl⟩
  | one ha hleft hright hup ih =>
    obtain ⟨y, hway, rfl | hone⟩ := ih hlast
    · exact ⟨y, hway, .inr ⟨_, hup, hleft, hright⟩⟩
    · exact ⟨y, hway, .inr hone⟩
  | two ha hb hfull hleft hright hup hup' iha ihb =>
    rw [getLast?_append_of_ne_nil _ hb.length.1] at hlast
    obtain ⟨y, hway, rfl | hone⟩ := ihb hlast
    · exact ⟨_, hway.tail ⟨hup', hright⟩, .inl rfl⟩
    · exact ⟨y, hway, .inr hone⟩

theorem Placed.cut {y : Nat} (hpos : Placed h pos) (hway : ReflTransGen h.right x y) :
    x ≤ y ∧ ReflTransGen (h.assignParent y none).right x y := by
  induction hway using ReflTransGen.head_induction_on with
  | refl => exact ⟨Nat.le_refl y, .refl⟩
  | @head x p hstep _ ih =>
    have hlt := Nat.lt_of_lt_of_le (hpos.link x p hstep.1).1 ih.1
    refine ⟨Nat.le_of_lt hlt, .head ⟨?_, ?_⟩ ih.2⟩ <;> rw [h.assignParent_node]
    · rw [if_neg (Nat.ne_of_lt hlt)]
      exact hstep.1
    · split
      · exact hstep.2
      · exact hstep.2

theorem Stands.clear (hp : Stands h k i p ls) (hfree : (h.node p).parent = none) (hs : Sound H h)
    (hlast : ls.getLast? = some x) :
    ∃ h' ns, Returns (fun fuel => h.clearSingleParent fuel x) h' ∧ Tip h' x ∧ Sound H h' ∧
      Moved h h' ns ∧ h'.size = h.size := by
  obtain ⟨y, hway, rfl | ⟨q, hup, hleft, hright⟩⟩ := hp.edge hlast
  · exact ⟨h, [], Heap.clearSingleParent_way hway (Heap.clearSingleParent_free hfree),
      ⟨y, hway, hfree⟩, hs, .refl h _, rfl⟩
  · refine ⟨h.assignParent y none, [y],
      Heap.clearSingleParent_way hway (Heap.clearSingleParent_cut hup hleft hright),
      ⟨y, ?_, ?_⟩, hs.cut y, .assignParent h y, rfl⟩
    · obtain ⟨pos, hpos⟩ := hs.placed
      exact (hpos.cut hway).2
    · rw [h.assignParent_node, if_pos rfl]

end Nerthus.Realtime
