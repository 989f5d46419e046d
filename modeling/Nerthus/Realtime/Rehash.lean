import Nerthus.Realtime.Rows

/-!
# Hashes that are kept and dropped

`Hash` keeps what it computes, and `Update` drops the hashes on the way from the
leaf to the root. Both leave the rows as they are.
-/

namespace Nerthus.Realtime

open Lib Relation List

variable {H : Bytes → Bytes} {h h' : Heap} {pos : Nat → Nat × Nat} {k i p : Nat} {ls : List Nat}

structure Rehashed (h h' : Heap) (ns : List Nat) : Prop where
  size : h'.size = h.size
  node : ∀ q, ∃ v, h'.node q = { h.node q with hash := v }
  leaf : ∀ q, (h.node q).leaf.isSome = true → q ∉ ns → (h'.node q).hash = (h.node q).hash

variable {ns : List Nat}

theorem Rehashed.same (hr : Rehashed h h' ns) (q : Nat) :
    (h'.node q).parent = (h.node q).parent ∧ (h'.node q).leaf = (h.node q).leaf ∧
      (h'.node q).childLeft = (h.node q).childLeft ∧
      (h'.node q).childRight = (h.node q).childRight := by
  obtain ⟨v, hv⟩ := hr.node q
  rw [hv]
  exact ⟨rfl, rfl, rfl, rfl⟩

theorem Rehashed.refl (h : Heap) (ns : List Nat) : Rehashed h h ns :=
  ⟨rfl, fun _ => ⟨_, rfl⟩, fun _ _ _ => rfl⟩

theorem Rehashed.trans {h₁ h₂ h₃ : Heap} (h₁₂ : Rehashed h₁ h₂ ns) (h₂₃ : Rehashed h₂ h₃ ns) :
    Rehashed h₁ h₃ ns := by
  refine ⟨h₂₃.size.trans h₁₂.size, fun q => ?_, fun q hq hnot => ?_⟩
  · obtain ⟨v, hv⟩ := h₁₂.node q
    obtain ⟨v', hv'⟩ := h₂₃.node q
    exact ⟨v', by rw [hv', hv]⟩
  · rw [h₂₃.leaf q ((h₁₂.same q).2.1 ▸ hq) hnot, h₁₂.leaf q hq hnot]

theorem Placed.rehashed (hpos : Placed h pos) (hr : Rehashed h h' ns) : Placed h' pos := by
  refine ⟨fun p hp i hi => hpos.leaf p (hr.size ▸ hp) i ((hr.same p).2.1 ▸ hi), fun q p hqp => ?_⟩
  obtain ⟨-, hleaf, hleft, hright⟩ := hr.same p
  rw [hr.size, hleaf, hleft, hright]
  exact hpos.link q p ((hr.same q).1 ▸ hqp)

theorem Stands.rehashed (hp : Stands h k i p ls) (hr : Rehashed h h' ns) : Stands h' k i p ls := by
  induction hp with
  | @leaf i p hlt hleaf hleft =>
    exact .leaf (hr.size ▸ hlt) ((hr.same p).2.1 ▸ hleaf) ((hr.same p).2.2.1 ▸ hleft)
  | @one k i p a ls ha hleft hright hup ih =>
    exact .one ih ((hr.same p).2.2.1 ▸ hleft) ((hr.same p).2.2.2 ▸ hright) ((hr.same a).1 ▸ hup)
  | @two k i p a b ls ls' ha hb hfull hleft hright hup hup' iha ihb =>
    exact .two iha ihb hfull ((hr.same p).2.2.1 ▸ hleft) ((hr.same p).2.2.2 ▸ hright)
      ((hr.same a).1 ▸ hup) ((hr.same b).1 ▸ hup')

theorem Rehashed.symm (hr : Rehashed h h' ns) : Rehashed h' h ns := by
  refine ⟨hr.size.symm, fun q => ⟨(h.node q).hash, ?_⟩, fun q hq hnot => ?_⟩
  · obtain ⟨v, hv⟩ := hr.node q
    rw [hv]
  · exact (hr.leaf q ((hr.same q).2.1 ▸ hq) hnot).symm

theorem Sound.rehashed (hs : Sound H h) (hr : Rehashed h h' ns)
    (hcache : ∀ {k i p ls}, Stands h (k + 1) i p ls →
      (h'.node p).hash = [] ∨ rootOf H h' ls = some (h'.node p).hash) : Sound H h' := by
  obtain ⟨pos, hpos⟩ := hs.placed
  exact ⟨⟨pos, hpos.rehashed hr⟩, fun hp => hcache (hp.rehashed hr.symm)⟩

theorem Rehashed.rootOf_eq (hr : Rehashed h h' ns) (hp : Stands h k i p ls) (hns : ∀ q ∈ ls, q ∉ ns) :
    rootOf H h' ls = rootOf H h ls :=
  rootOf_congr fun q hq => hr.leaf q (hp.leaves q hq).2 (hns q hq)

theorem Heap.setHash_node (h : Heap) (p q : Nat) (v : Bytes) :
    (h.setHash p v).node q = if q = p then { h.node q with hash := v } else h.node q := by
  by_cases hqp : q = p
  · subst hqp
    rw [if_pos rfl]
    exact Function.update_self _ _ _
  · rw [if_neg hqp]
    exact Function.update_of_ne hqp _ _

theorem Rehashed.setHash (v : Bytes) (hp : p ∈ ns ∨ (h.node p).leaf = none) :
    Rehashed h (h.setHash p v) ns := by
  refine ⟨rfl, fun q => ?_, fun q hq hnot => ?_⟩ <;> rw [h.setHash_node]
  · split
    · exact ⟨v, rfl⟩
    · exact ⟨_, rfl⟩
  · rw [if_neg]
    rintro rfl
    rw [hp.resolve_left hnot] at hq
    cases hq

theorem Sound.setHash {v : Bytes} (hs : Sound H h) (hp : Stands h (k + 1) i p ls)
    (hv : rootOf H h ls = some v) : Rehashed h (h.setHash p v) [] ∧ Sound H (h.setHash p v) := by
  obtain ⟨pos, hpos⟩ := hs.placed
  have hr : Rehashed h (h.setHash p v) [] := .setHash v (.inr (hp.leaf_eq_none hpos))
  refine ⟨hr, hs.rehashed hr fun {k' i' q ls'} hq => ?_⟩
  rw [hr.rootOf_eq hq fun _ _ => not_mem_nil, h.setHash_node]
  split
  · rename_i hqp
    subst hqp
    rw [hq.unique hp hpos]
    exact .inr hv
  · exact hs.cache hq

theorem Heap.hash_kept (hkept : (h.node p).hash ≠ []) :
    Returns (fun fuel => h.hash H fuel p) ((h.node p).hash, h) := by
  refine .of_succ (.of_forall fun fuel => ?_)
  rw [hash, if_pos fun hzero => hkept (length_eq_zero_iff.mp hzero)]

theorem Stands.hash (hp : Stands h k i p ls) (hs : Sound H h) :
    ∃ v h', Returns (fun fuel => h.hash H fuel p) (v, h') ∧ rootOf H h ls = some v ∧
      Rehashed h h' [] ∧ Sound H h' := by
  induction k generalizing h i p ls with
  | zero =>
    cases hp with
    | leaf hlt hleaf hleft =>
      refine ⟨(h.node p).hash, h, ?_, build_of_singleton rfl, .refl h _, hs⟩
      by_cases hkept : (h.node p).hash = []
      · refine .of_succ (.of_forall fun fuel => ?_)
        rw [Heap.hash, hkept, if_neg (by simp), hleft]
      · exact Heap.hash_kept hkept
  | succ k ih =>
    by_cases hkept : (h.node p).hash = []
    · cases id hp with
      | one ha hleft hright hup =>
        obtain ⟨v, h₁, hret, hv, hr, hs₁⟩ := ih ha hs
        obtain ⟨hr₁, hs₂⟩ := hs₁.setHash (hp.rehashed hr)
          ((hr.rootOf_eq hp fun _ _ => not_mem_nil).trans hv)
        refine ⟨v, h₁.setHash p v, .of_succ ?_, hv, hr.trans hr₁, hs₂⟩
        refine hret.map (fun r => (r.1, r.2.setHash p r.1)) fun fuel => ?_
        rw [Heap.hash, hkept, if_neg (by simp), hleft, hright]
      | @two _ _ _ a b ls ls' ha hb hfull hleft hright hup hup' =>
        obtain ⟨x, h₁, hretx, hx, hrx, hs₁⟩ := ih ha hs
        obtain ⟨y, h₂, hrety, hy, hry, hs₂⟩ := ih (hb.rehashed hrx) hs₁
        rw [hrx.rootOf_eq hb fun _ _ => not_mem_nil] at hy
        have hr := hrx.trans hry
        have hv : rootOf H h (ls ++ ls') = some (H (x ++ y)) := by
          rw [rootOf, map_append]
          exact build_append (by rw [length_map, hfull])
            (by rw [length_map]; exact hb.length.2)
            (by rw [Ne, map_eq_nil_iff]; exact hb.length.1) hx hy
        obtain ⟨hr₁, hs₃⟩ := hs₂.setHash (hp.rehashed hr)
          ((hr.rootOf_eq hp fun _ _ => not_mem_nil).trans hv)
        refine ⟨H (x ++ y), h₂.setHash p (H (x ++ y)), .of_succ ?_, hv, hr.trans hr₁, hs₃⟩
        refine (hretx.bind (g := fun fuel l => l.2.hash H fuel b >>= fun r =>
          .ok (H (l.1 ++ r.1), r.2.setHash p (H (l.1 ++ r.1))))
          (hrety.map (fun r => (H (x ++ r.1), r.2.setHash p (H (x ++ r.1)))) fun _ => rfl)).congr
            fun fuel => ?_
        rw [Heap.hash, hkept, if_neg (by simp), hleft, hright]
    · exact ⟨_, h, Heap.hash_kept hkept, (hs.cache hp).resolve_left hkept, .refl h _, hs⟩

def Heap.up (h : Heap) (q p : Nat) : Prop := (h.node q).parent = some p

theorem Rehashed.up_eq (hr : Rehashed h h' ns) : h'.up = h.up := by
  funext q p
  exact congrArg (· = some p) (hr.same q).1

theorem Stands.way {x : Nat} (hp : Stands h k i p ls) (hx : x ∈ ls) : ReflTransGen h.up x p := by
  induction hp with
  | leaf hlt hleaf hleft =>
    rw [mem_singleton.mp hx]
  | one ha hleft hright hup ih => exact (ih hx).tail hup
  | two ha hb hfull hleft hright hup hup' iha ihb =>
    rcases mem_append.mp hx with hx | hx
    · exact (iha hx).tail hup
    · exact (ihb hx).tail hup'

theorem Heap.resetPath_returns (hpos : Placed h pos) (o : Option Nat)
    (ho : ∀ p ∈ o, p < h.size ∧ (h.node p).leaf = none) :
    ∃ h', Returns (fun fuel => h.resetPath fuel o) h' ∧ Rehashed h h' [] ∧
      (∀ q, (h'.node q).hash = (h.node q).hash ∨ (h'.node q).hash = []) ∧
      ∀ p ∈ o, ∀ q, ReflTransGen h.up p q → (h'.node q).hash = [] := by
  -- the places grow on the way up, and the heap ends
  obtain ⟨n, hn⟩ : ∃ n, ∀ p ∈ o, h.size - p < n := ⟨h.size + 1, fun _ _ => by omega⟩
  induction n generalizing h o with
  | zero =>
    cases o with
    | none => exact ⟨h, .of_forall fun fuel => by rw [resetPath], .refl h _, fun _ => .inl rfl, nofun⟩
    | some p => exact absurd (hn p rfl) (Nat.not_lt_zero _)
  | succ n ih =>
    cases o with
    | none => exact ⟨h, .of_forall fun fuel => by rw [resetPath], .refl h _, fun _ => .inl rfl, nofun⟩
    | some p =>
      have hr₁ : Rehashed h (h.setHash p []) [] := .setHash [] (.inr (ho p rfl).2)
      obtain ⟨h', hret, hr₂, hkept, habove⟩ := ih (hpos.rehashed hr₁) (h.node p).parent
        (fun p' hp' => ⟨(hpos.link p p' hp').2.1, (hr₁.same p').2.1.trans (hpos.link p p' hp').2.2.1⟩)
        fun p' hp' => by
          have hlt := (hpos.link p p' hp').1
          have hlen := hn p rfl
          have hbound := (ho p rfl).1
          change h.size - p' < n
          omega
      have hkept' : ∀ q, (h'.node q).hash = (h.node q).hash ∧ q ≠ p ∨ (h'.node q).hash = [] := by
        intro q
        rcases hkept q with hq | hq
        · rw [h.setHash_node] at hq
          split at hq
          · exact .inr hq
          · exact .inl ⟨hq, by assumption⟩
        · exact .inr hq
      refine ⟨h', .of_succ hret, hr₁.trans hr₂, fun q => (hkept' q).imp_left And.left, ?_⟩
      rintro p' hp' q hway
      cases hp'
      rcases hway.cases_head with rfl | ⟨x, hx, hway⟩
      · exact (hkept' p).resolve_left fun hne => hne.2 rfl
      · exact habove x hx q (hr₁.up_eq ▸ hway)

theorem Sound.update (hs : Sound H h) {x : Nat} (hx : (h.node x).leaf.isSome = true) (v : Bytes) :
    ∃ h', Returns (fun fuel => h.update fuel x v) h' ∧ Rehashed h h' [x] ∧ (h'.node x).hash = v ∧
      Sound H h' := by
  obtain ⟨pos, hpos⟩ := hs.placed
  have hr₁ : Rehashed h (h.setHash x v) [x] := .setHash v (.inl (.head _))
  obtain ⟨h', hret, hr₂, hkept, habove⟩ := Heap.resetPath_returns (hpos.rehashed hr₁)
    (h.node x).parent fun p hp => by
      obtain ⟨-, hlt, hleaf, -⟩ := hpos.link x p hp
      exact ⟨hlt, (hr₁.same p).2.1.trans hleaf⟩
  have hr : Rehashed h h' [x] := hr₁.trans ⟨hr₂.size, hr₂.node, fun q hq _ => hr₂.leaf q hq nofun⟩
  refine ⟨h', hret, hr, ?_, hs.rehashed hr fun {k i p ls} hp => ?_⟩
  · rw [hr₂.leaf x ((hr₁.same x).2.1 ▸ hx) nofun, h.setHash_node, if_pos rfl]
  · have hpx : p ≠ x := by
      rintro rfl
      rw [hp.leaf_eq_none hpos] at hx
      cases hx
    by_cases hmem : x ∈ ls
    · rcases (hp.way hmem).cases_head with heq | ⟨q, hq, hway⟩
      · exact absurd heq.symm hpx
      · exact .inl (habove q hq p (hr₁.up_eq ▸ hway))
    · rw [hr.rootOf_eq hp fun q hq hqx => hmem (mem_singleton.mp hqx ▸ hq)]
      rcases hkept p with hkept | hnil
      · rw [hkept, h.setHash_node, if_neg hpx]
        exact hs.cache hp
      · exact .inl hnil

end Nerthus.Realtime
