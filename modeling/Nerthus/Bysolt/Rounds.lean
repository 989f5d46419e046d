import Nerthus.Bysolt.Visits
import Nerthus.Lib.Exchange

/-!
# The rounds of a comparison

What one node sends about the places of a level, the other answers with messages about the places
below. If leaves meet leaves and the rightmost place where the comparison ends is as deep as any
other, both nodes send `RealtimeCmpEnd` last.
-/

namespace Nerthus.Bysolt

open Realtime (Bytes)
open Lib TreeCmptor Visit List

def diffEvent (timeline : Rawdb.Timeline) (node : Node) : RealtimeEvent :=
  let lower := unixNano node.timestamp.beginTime
  let upper := unixNano node.timestamp.endTime
  ⟨.zero, .cmpDiff ⟨lower, upper, (timeline.rangRangeUnits lower upper).map Prod.snd⟩⟩

def hashEvent (status : NodeStatus) (node : Node) (path e : Bytes) : RealtimeEvent :=
  ⟨status, .cmpHash ⟨path, e, [node.children.1.hash, node.children.2.hash]⟩⟩

def endEvent : RealtimeEvent := ⟨.zero, .cmpEnd⟩

def endIf (b : Bool) : List RealtimeEvent := if b then [endEvent] else []

variable {ms ms' : List RealtimeEvent} {ws vs : List Visit} {t : TreeCmptor} {last : Bool}

namespace TreeCmptor

def respond (t : TreeCmptor) (ev : RealtimeEvent) :
    Except CmpFault (TreeCmptor × List RealtimeEvent) :=
  match { t with peerStatus := ev.remoteStatus }.handlePayload ev.payload with
  | .error e => .error e
  | .ok r => .ok (r.cmptor, r.sent)

def status (t : TreeCmptor) (path : Bytes) : NodeStatus :=
  if path.length = 0 then t.currentStatus else .zero

def item (t : TreeCmptor) (d : Node × Bytes) : List RealtimeEvent :=
  (if d.1.isLeaf then [diffEvent t.timeline d.1] else []) ++
    [hashEvent (t.status d.2) d.1 d.2 t.endNodePath]

theorem sendDiffNode_inner {node : Node} {path : Bytes} (h : RightOf t.endNodePath path) :
    t.sendDiffNode node path = (t, t.item (node, path)) := by
  have hcmp : ¬ 0 ≤ cmpWithEndPath t.endNodePath path := Int.not_le.mpr h.cmp_neg
  unfold sendDiffNode item
  cases node.isLeaf
  · rfl
  · simp only [if_true, if_neg hcmp]
    rfl

theorem sendDiffNode_last {node : Node} {path : Bytes}
    (h : node.isLeaf = true → UpTo path t.endNodePath) (hend : t.isEnd = false) :
    t.sendDiffNode node path =
      ({ t with isEnd := node.isLeaf }, t.item (node, path) ++ endIf node.isLeaf) := by
  have hsame : { t with isEnd := false } = t := by rw [← hend]
  unfold sendDiffNode item endIf
  cases hleaf : node.isLeaf
  · simp only [Bool.false_eq_true, if_false, nil_append, append_nil, hsame]
    rfl
  · simp only [if_true, if_pos (show 0 ≤ cmpWithEndPath t.endNodePath path from h hleaf), sendCmpEnd,
      hend,
      Bool.false_eq_true, if_false]
    rfl

theorem sendDiffs_inner {ds : List (Node × Bytes)} (h : ∀ d ∈ ds, RightOf t.endNodePath d.2) :
    t.sendDiffs ds = (t, ds.flatMap t.item) := by
  induction ds with
  | nil => rfl
  | cons d ds ih =>
    have hrest := ih fun d' hd' => h d' (.tail _ hd')
    rw [sendDiffs, sendDiffNode_inner (h d (.head _))]
    dsimp only
    rw [hrest, flatMap_cons]

theorem sendDiffs_append (t : TreeCmptor) (ds ds' : List (Node × Bytes)) : t.sendDiffs (ds ++ ds') =
      (((t.sendDiffs ds).1.sendDiffs ds').1,
        (t.sendDiffs ds).2 ++ ((t.sendDiffs ds).1.sendDiffs ds').2) := by
  induction ds generalizing t with
  | nil => rfl
  | cons d ds ih =>
    simp only [cons_append, sendDiffs, ih, append_assoc]

theorem sendDiffs_last {ds : List (Node × Bytes)} {node : Node} {path : Bytes}
    (h : ∀ d ∈ ds, RightOf t.endNodePath d.2) (hlast : node.isLeaf = true → UpTo path t.endNodePath)
    (hend : t.isEnd = false) : t.sendDiffs (ds ++ [(node, path)]) =
      ({ t with isEnd := node.isLeaf },
        (ds ++ [(node, path)]).flatMap t.item ++ endIf node.isLeaf) := by
  rw [sendDiffs_append, sendDiffs_inner h]
  simp only [sendDiffs, sendDiffNode_last hlast hend, append_nil, flatMap_append,
    flatMap_singleton, append_assoc]

def raise (e : Bytes) (ws : List Visit) : Bytes := ws.foldl (fun e w => maxPath e w.path) e

theorem raise_rightOf {e p : Bytes} (h : RightOf e p) (ws : List Visit) : RightOf (raise e ws) p := by
  induction ws generalizing e with
  | nil => exact h
  | cons w ws ih => exact ih (h.mono (upTo_maxPath_left e w.path))

theorem raise_upTo {e q : Bytes} (h : UpTo q e) (hws : ∀ w ∈ ws, UpTo q w.path) :
    UpTo q (raise e ws) := by
  induction ws generalizing e with
  | nil => exact h
  | cons w ws ih =>
    exact ih (maxPath_upTo h (hws w (.head _))) fun w' hw' =>
      hws w' (.tail _ hw')

theorem upTo_raise_concat (e : Bytes) (ws : List Visit) (w : Visit) :
    UpTo (raise e (ws ++ [w])) w.path := by
  rw [raise, foldl_append]
  exact upTo_maxPath_right _ w.path

theorem discoverDiffs_next (v : Visit) (s : Side) (e : Bytes) :
    discoverDiffs (v.node s.opp) v.path 0
        [(v.node s).children.1.hash, (v.node s).children.2.hash] e =
      (v.next.map fun w => (w.node s.opp, w.path), raise e v.next) := by
  have hleft : (v.node s).children.1.hash ≠ (v.node s.opp).children.1.hash ↔ v.left.Differs :=
    (v.left.differs_iff s).symm
  have hright : (v.node s).children.2.hash ≠ (v.node s.opp).children.2.hash ↔ v.right.Differs :=
    (v.right.differs_iff s).symm
  simp only [discoverDiffs, gt_iff_lt, lt_self_iff_false, if_false, Nat.zero_add, Nat.zero_lt_one,
    if_true, hleft, hright, Visit.next, filter_cons, filter_nil, decide_eq_true_eq]
  by_cases hl : v.left.Differs <;> by_cases hr : v.right.Differs <;>
    simp only [hl, hr, if_true, if_false] <;> rfl

end TreeCmptor

def NoEnd (ms : List RealtimeEvent) : Prop := ∀ m ∈ ms, m.payload ≠ .cmpEnd

theorem NoEnd.cons {m : RealtimeEvent} (h : NoEnd ms) (hm : m.payload ≠ .cmpEnd) :
    NoEnd (m :: ms) :=
  forall_mem_cons.mpr ⟨hm, h⟩

theorem NoEnd.append (h : NoEnd ms) (h' : NoEnd ms') : NoEnd (ms ++ ms') :=
  forall_mem_append.mpr ⟨h, h'⟩

/-- Messages about the places of a level, from left to right, among hashes of leaves. Each end path
is to the right of its place; with `last`, that of the last place need not be. -/
inductive Batch (s : Side) (limit : Bytes) (last : Bool) :
    List Visit → List RealtimeEvent → Prop
  | nil : Batch s limit last [] []
  | diff {vs : List Visit} {ms : List RealtimeEvent} (status : NodeStatus) (data : DiffMessage) :
      Batch s limit last vs ms → Batch s limit last vs (⟨status, .cmpDiff data⟩ :: ms)
  | visit {v : Visit} {vs : List Visit} {ms : List RealtimeEvent} (status : NodeStatus) {e : Bytes} :
      UpTo limit e → (last = false ∨ vs ≠ [] → RightOf e v.path) → Batch s limit last vs ms →
      Batch s limit last (v :: vs) (hashEvent status (v.node s) v.path e :: ms)

namespace Batch

variable {s : Side} {limit : Bytes} {last : Bool} {vs ws : List Visit} {ms ms' : List RealtimeEvent}

theorem append (h : Batch s limit false vs ms) (h' : Batch s limit last ws ms') :
    Batch s limit last (vs ++ ws) (ms ++ ms') := by
  induction h with
  | nil => exact h'
  | diff status data _ ih => exact .diff status data ih
  | visit status hup hright _ ih => exact .visit status hup (fun _ => hright (Or.inl rfl)) ih

theorem noEnd (h : Batch s limit last vs ms) : NoEnd ms := by
  induction h with
  | nil => exact nofun
  | diff status data _ ih => exact ih.cons (nofun)
  | visit status hup hright _ ih => exact ih.cons (nofun)

theorem item (t : TreeCmptor) (v : Visit) (hup : UpTo limit t.endNodePath)
    (hright : last = false → RightOf t.endNodePath v.path) :
    Batch s limit last [v] (t.item (v.node s, v.path)) := by
  have hvisit : Batch s limit last [v]
      [hashEvent (t.status v.path) (v.node s) v.path t.endNodePath] := by
    refine .visit _ hup (fun h => hright ?_) .nil
    rcases h with h | h
    · exact h
    · exact absurd rfl h
  unfold TreeCmptor.item
  cases (v.node s).isLeaf
  · exact hvisit
  · exact .diff _ _ hvisit

theorem items (hup : UpTo limit t.endNodePath) (hright : ∀ w ∈ ws, RightOf t.endNodePath w.path) :
    Batch s limit false ws ((ws.map fun w => (w.node s, w.path)).flatMap t.item) := by
  induction ws with
  | nil => exact .nil
  | cons w ws ih =>
    have hrest := ih fun w' hw' => hright w' (.tail _ hw')
    exact (item t w hup fun _ => hright w (.head _)).append hrest

end Batch

/-! ## One message -/

section Round

variable (tree : Side → Node) (timeline : Side → Rawdb.Timeline) (limit : Bytes)

structure Ready (s : Side) (ended : Bool) (t : TreeCmptor) : Prop where
  tree : t.tree = tree s
  timeline : t.timeline = timeline s
  upTo : UpTo limit t.endNodePath
  isEnd : t.isEnd = ended

def Told (s : Side) (ms : List RealtimeEvent) (v : Visit) : Prop :=
  (v.node s).isLeaf = true → diffEvent (timeline s) (v.node s) ∈ ms

variable {tree timeline limit} {fits : Side → Node → Prop} {s : Side} {ended : Bool}
  {t : TreeCmptor} {v : Visit} {n : Nat} {e q : Bytes}

theorem Told.mono (h : Told timeline s ms v) (hsub : ms ⊆ ms') :
    Told timeline s ms' v := fun hleaf => hsub (h hleaf)

theorem told_items (htimeline : t.timeline = timeline s) {w : Visit} (hw : w ∈ ws) :
    Told timeline s ((ws.map fun w => (w.node s, w.path)).flatMap t.item) w := by
  intro hleaf
  refine mem_flatMap.mpr ⟨(w.node s, w.path), mem_map_of_mem hw, ?_⟩
  rw [item, htimeline, if_pos hleaf]
  exact .head _

theorem Ready.respond_diff (h : Ready tree timeline limit s ended t) (status : NodeStatus)
    (data : DiffMessage) : ∃ t', t.respond ⟨status, .cmpDiff data⟩ = .ok (t', []) ∧
      Ready tree timeline limit s ended t' := by
  refine ⟨{ t with peerStatus := status }, ?_, h.tree, h.timeline, h.upTo, h.isEnd⟩
  simp only [respond, handlePayload]
  by_cases hlength : data.hashes.length > maxSlotUnits
  · rw [if_pos hlength]
  · rw [if_neg hlength]

theorem Ready.respond_end (h : Ready tree timeline limit s true t) :
    ∃ t', t.respond endEvent = .ok (t', []) ∧ Ready tree timeline limit s true t' := by
  refine ⟨{ t with peerStatus := .zero }, ?_, h.tree, h.timeline, h.upTo, h.isEnd⟩
  simp only [respond, endEvent, handlePayload, sendCmpEnd, h.isEnd,
    if_true]

def TreeCmptor.noted (t : TreeCmptor) (status : NodeStatus) (e : Bytes) (ws : List Visit) :
    TreeCmptor :=
  { t with peerStatus := status, endNodePath := raise (maxPath t.endNodePath e) ws }

theorem Ready.noted (h : Ready tree timeline limit s ended t) (status : NodeStatus)
    (hup : UpTo limit e) (hws : ∀ w ∈ ws, UpTo limit w.path) :
    Ready tree timeline limit s ended (t.noted status e ws) :=
  ⟨h.tree, h.timeline, raise_upTo (maxPath_upTo h.upTo hup) hws, h.isEnd⟩

theorem rightOf_noted {p : Bytes} (h : RightOf e p) (t : TreeCmptor) (status : NodeStatus)
    (ws : List Visit) : RightOf (t.noted status e ws).endNodePath p :=
  raise_rightOf (h.mono (upTo_maxPath_right _ _)) ws

theorem respond_leaf (hready : Ready tree timeline limit s.opp ended t) (hin : v.In tree)
    (hleaf : (v.node s.opp).isLeaf = true) (status : NodeStatus) :
    t.respond (hashEvent status (v.node s) v.path e) =
      if 0 ≤ cmpWithEndPath (t.noted status e []).endNodePath v.path then
        .ok ((t.noted status e []).sendCmpEnd.1,
          diffEvent (timeline s.opp) (v.node s.opp) :: (t.noted status e []).sendCmpEnd.2)
      else .ok (t.noted status e [], [diffEvent (timeline s.opp) (v.node s.opp)]) := by
  have hwalk := walk_at (hin s.opp) 0 e
  rw [← hready.tree] at hwalk
  simp only [respond, hashEvent, handlePayload, handleCmpHash, hwalk,
    bind, Except.bind, hleaf, if_true, findDiff, diffEvent, ← hready.timeline, noted,
    raise, foldl_nil]
  split_ifs <;> rfl

theorem respond_branch (hready : Ready tree timeline limit s.opp ended t) (hin : v.In tree)
    (hbranch : (v.node s.opp).isLeaf = false) (status : NodeStatus) :
    t.respond (hashEvent status (v.node s) v.path e) =
      .ok ((t.noted status e v.next).sendDiffs (v.next.map fun w => (w.node s.opp, w.path))) := by
  have hwalk := walk_at (hin s.opp) 0 e
  rw [← hready.tree] at hwalk
  simp only [respond, hashEvent, handlePayload, handleCmpHash, hwalk,
    bind, Except.bind, hbranch, Bool.false_eq_true, if_false, discoverDiffs_next]
  rfl

/-- The answer to a message: messages about the places below, and hashes of leaves. -/
structure Answer (s : Side) (limit : Bytes) (timeline : Side → Rawdb.Timeline) (last : Bool)
    (vs : List Visit) (out : List RealtimeEvent) : Prop where
  batch : Batch s limit last (vs.flatMap next) out
  told : ∀ v ∈ vs, ∀ w ∈ v :: v.next, Told timeline s out w

theorem Answer.append {out out' : List RealtimeEvent} (h : Answer s limit timeline false vs out)
    (h' : Answer s limit timeline last ws out') :
    Answer s limit timeline last (vs ++ ws) (out ++ out') := by
  refine ⟨?_, forall_mem_append.mpr ⟨fun v hv w hw => ?_, fun v hv w hw => ?_⟩⟩
  · rw [flatMap_append]
    exact h.batch.append h'.batch
  · exact (h.told v hv w hw).mono (subset_append_left _ _)
  · exact (h'.told v hv w hw).mono (subset_append_right _ _)

theorem answer_leaf (hleaves : v.Leaves) :
    Answer s limit timeline last [v] [diffEvent (timeline s) (v.node s)] := by
  have hnext := next_of_leaves hleaves
  refine ⟨?_, forall_mem_singleton.mpr ?_⟩
  · rw [flatMap_singleton, hnext]
    exact .diff _ _ .nil
  · rw [hnext]
    exact forall_mem_singleton.mpr fun _ => .head _

theorem answer_branch {out : List RealtimeEvent} (hbranch : v.Branches)
    (hbatch : Batch s limit last v.next out) (htold : ∀ w ∈ v.next, Told timeline s out w) :
    Answer s limit timeline last [v] out := by
  refine ⟨by rw [flatMap_singleton]; exact hbatch, forall_mem_singleton.mpr
    (forall_mem_cons.mpr ⟨fun hleaf => ?_, htold⟩)⟩
  exact absurd (hleaf.symm.trans (hbranch s)) (by decide)

theorem respond_inner (hready : Ready tree timeline limit s.opp ended t) (hin : v.In tree)
    (hends : v.EndsWithin fits n) (hup : UpTo limit e) (hright : RightOf e v.path)
    (status : NodeStatus) :
    ∃ t' out, t.respond (hashEvent status (v.node s) v.path e) = .ok (t', out) ∧
      Ready tree timeline limit s.opp ended t' ∧ Answer s.opp limit timeline false [v] out := by
  have hlimit : RightOf limit v.path := hright.mono hup
  rcases hends.cases with ⟨hleaves, -⟩ | ⟨hbranch, -⟩
  · refine ⟨t.noted status e [], _, ?_, ?_, answer_leaf hleaves⟩
    · rw [respond_leaf hready hin (hleaves s.opp) status]
      exact if_neg (Int.not_le.mpr (rightOf_noted hright t status []).cmp_neg)
    · exact hready.noted status hup nofun
  · have hbelow : ∀ w ∈ v.next, ∀ p, RightOf p v.path → RightOf p w.path := by
      intro w hw p hp
      obtain ⟨i, hi⟩ := path_of_mem_next hw
      rw [hi]
      exact hp.append_right [i]
    have hnoted := fun w hw => hbelow w hw _ (rightOf_noted hright t status v.next)
    have hready' := hready.noted status hup fun w hw => (hbelow w hw _ hlimit).upTo
    refine ⟨t.noted status e v.next,
      (v.next.map fun w => (w.node s.opp, w.path)).flatMap (t.noted status e v.next).item, ?_,
      hready', answer_branch hbranch (Batch.items hready'.upTo hnoted)
        fun w hw => told_items hready'.timeline hw⟩
    rw [respond_branch hready hin (hbranch s.opp) status]
    refine congrArg _ (sendDiffs_inner fun d hd => ?_)
    obtain ⟨w, hw, rfl⟩ := mem_map.mp hd
    exact hnoted w hw

theorem respond_last (hready : Ready tree timeline limit s.opp false t) (hin : v.In tree)
    (hends : v.EndsAt fits q) (hup : UpTo limit e) (hlimit : limit = v.path ++ q)
    (status : NodeStatus) : ∃ t' out, t.respond (hashEvent status (v.node s) v.path e) =
        .ok (t', out ++ endIf (decide (q.length ≤ 1))) ∧
      Ready tree timeline limit s.opp (decide (q.length ≤ 1)) t' ∧
      Answer s.opp limit timeline true [v] out := by
  rcases hends.cases with ⟨hleaves, -, rfl⟩ | ⟨hbranch, i, q', ws, w, rfl, hlast⟩
  · have hready' : Ready tree timeline limit s.opp false (t.noted status e []) :=
      hready.noted status hup nofun
    have hcmp : 0 ≤ cmpWithEndPath (t.noted status e []).endNodePath v.path := by
      have h := hready'.upTo
      rwa [hlimit, append_nil] at h
    refine ⟨{ t.noted status e [] with isEnd := true }, _, ?_, ?_, answer_leaf hleaves⟩
    · rw [respond_leaf hready hin (hleaves s.opp) status, if_pos hcmp, sendCmpEnd,
        hready'.isEnd]
      rfl
    · exact ⟨hready'.tree, hready'.timeline, hready'.upTo, rfl⟩
  · have hpath : limit = w.path ++ q' := by
      rw [hlast.path, hlimit, append_assoc, singleton_append]
    have hwUp : UpTo limit w.path := by
      rw [hpath]
      simpa using UpTo.append w.path (UpTo.nil q')
    have hwsUp : ∀ u ∈ v.next, UpTo limit u.path := by
      rw [hlast.next]
      intro u hu
      rcases mem_append.mp hu with hu | hu
      · exact ((hlast.left u hu).1.mono hwUp).upTo
      · cases mem_singleton.mp hu
        exact hwUp
    have hready' := hready.noted status hup hwsUp
    have hinner : ∀ u ∈ ws, RightOf (t.noted status e v.next).endNodePath u.path := by
      intro u hu
      refine (hlast.left u hu).1.mono ?_
      rw [noted, hlast.next]
      exact upTo_raise_concat _ ws w
    have hleafIff : (w.node s.opp).isLeaf = decide ((i :: q').length ≤ 1) := by
      rcases hlast.ends.cases with ⟨hleaves, -, rfl⟩ | ⟨hbranch', j, q'', us, u, rfl, -⟩
      · rw [hleaves s.opp]
        rfl
      · rw [hbranch' s.opp]
        simp
    have hwLeaf : (w.node s.opp).isLeaf = true →
        UpTo w.path (t.noted status e v.next).endNodePath := by
      intro hleaf
      rw [hleafIff, decide_eq_true_eq] at hleaf
      have hnil : q' = [] := eq_nil_of_length_eq_zero (by simpa using hleaf)
      have h := hready'.upTo
      rwa [hpath, hnil, append_nil] at h
    have hmap : (v.next.map fun w => (w.node s.opp, w.path)) =
        (ws.map fun w => (w.node s.opp, w.path)) ++ [(w.node s.opp, w.path)] := by
      rw [hlast.next, map_append, map_singleton]
    refine ⟨{ t.noted status e v.next with isEnd := decide ((i :: q').length ≤ 1) },
      (v.next.map fun w => (w.node s.opp, w.path)).flatMap (t.noted status e v.next).item, ?_,
      ⟨hready'.tree, hready'.timeline, hready'.upTo, rfl⟩, answer_branch hbranch ?_
        fun u hu => told_items hready'.timeline hu⟩
    · rw [respond_branch hready hin (hbranch s.opp) status, hmap, sendDiffs_last ?_ hwLeaf
        hready'.isEnd, hleafIff]
      intro d hd
      obtain ⟨u, hu, rfl⟩ := mem_map.mp hd
      exact hinner u hu
    · have hitem : Batch s.opp limit true [w]
          ((t.noted status e v.next).item (w.node s.opp, w.path)) :=
        Batch.item _ w hready'.upTo nofun
      have hitems := (Batch.items hready'.upTo hinner).append hitem
      rw [← hlast.next] at hitems
      rw [hmap, flatMap_append, flatMap_singleton]
      exact hitems

/-- The comparison goes on for `n` levels at the last place, and for no more at the others. -/
def Frontier (fits : Side → Node → Prop) (limit : Bytes) (n : Nat) : List Visit → Prop
  | [] => False
  | [v] => ∃ q, v.EndsAt fits q ∧ q.length = n ∧ limit = v.path ++ q
  | v :: w :: vs => v.EndsWithin fits n ∧ Frontier fits limit n (w :: vs)

theorem Frontier.append {us : List Visit} (hus : ∀ u ∈ us, u.EndsWithin fits n)
    (h : Frontier fits limit n vs) : Frontier fits limit n (us ++ vs) := by
  induction us with
  | nil => exact h
  | cons u us ih =>
    have hrest := ih fun u' hu' => hus u' (.tail _ hu')
    cases hcons : us ++ vs with
    | nil =>
      rw [hcons] at hrest
      cases hrest
    | cons w ws =>
      rw [hcons] at hrest
      rw [cons_append, hcons]
      exact ⟨hus u (.head _), hrest⟩

theorem Frontier.next (h : Frontier fits limit (n + 1) vs) :
    Frontier fits limit n (vs.flatMap next) := by
  induction vs with
  | nil => cases h
  | cons v vs ih =>
    cases vs with
    | nil =>
      obtain ⟨q, hends, hlength, rfl⟩ := h
      rcases hends.cases with ⟨-, -, rfl⟩ | ⟨-, i, q', ws, w, rfl, hlast⟩
      · cases hlength
      rw [flatMap_singleton, hlast.next]
      have hq : q'.length = n := Nat.succ.inj hlength
      refine Frontier.append (fun u hu => ?_) ⟨q', hlast.ends, hq, ?_⟩
      · rw [← hq]
        exact (hlast.left u hu).2
      · rw [hlast.path, append_assoc, singleton_append]
    | cons w vs =>
      obtain ⟨hends, hrest⟩ := h
      rw [flatMap_cons]
      refine Frontier.append (fun u hu => ?_) (ih hrest)
      rcases hends.cases with ⟨hleaves, -⟩ | ⟨-, m, hm, hnext⟩
      · rw [next_of_leaves hleaves] at hu
        cases hu
      · rw [Nat.succ.inj hm]
        exact hnext u hu

theorem Frontier.endsWithin (h : Frontier fits limit n vs) : ∀ v ∈ vs, v.EndsWithin fits n := by
  induction vs with
  | nil => cases h
  | cons u us ih =>
    cases us with
    | nil =>
      obtain ⟨q, hends, rfl, -⟩ := h
      exact forall_mem_singleton.mpr hends.endsWithin
    | cons w us => exact forall_mem_cons.mpr ⟨h.1, ih h.2⟩

theorem Frontier.leaves (h : Frontier fits limit 0 vs) {v : Visit} (hv : v ∈ vs) : v.Leaves := by
  rcases (h.endsWithin v hv).cases with ⟨hleaves, -⟩ | ⟨-, m, hm, -⟩
  · exact hleaves
  · cases hm

theorem feed_diffs (hbatch : Batch s limit last [] ms)
    (hready : Ready tree timeline limit s.opp ended t) : ∃ t', feed respond t ms = .ok (t', []) ∧
      Ready tree timeline limit s.opp ended t' := by
  generalize hvs : ([] : List Visit) = vs at hbatch
  induction hbatch generalizing t with
  | nil => exact ⟨t, rfl, hready⟩
  | diff status data _ ih =>
    obtain ⟨t₁, hdiff, hready₁⟩ := hready.respond_diff status data
    obtain ⟨t₂, hrest, hready₂⟩ := ih hready₁ hvs
    exact ⟨t₂, feed_cons hdiff hrest, hready₂⟩
  | visit status hup hright _ _ => cases hvs

theorem feed_level (hbatch : Batch s limit true vs ms) (hfront : Frontier fits limit n vs)
    (hin : ∀ v ∈ vs, v.In tree) (hready : Ready tree timeline limit s.opp false t) :
    ∃ t' out, feed respond t ms = .ok (t', out ++ endIf (decide (n ≤ 1))) ∧
      Ready tree timeline limit s.opp (decide (n ≤ 1)) t' ∧
      Answer s.opp limit timeline true vs out := by
  induction hbatch generalizing t with
  | nil => cases hfront
  | diff status data _ ih =>
    obtain ⟨t₁, hdiff, hready₁⟩ := hready.respond_diff status data
    obtain ⟨t₂, out, hrest, hready₂, hanswer⟩ := ih hfront hin hready₁
    have hfeed := feed_cons hdiff hrest
    exact ⟨t₂, out, hfeed, hready₂, hanswer⟩
  | @visit v vs ms status e hup hright hrest ih =>
    have hinv := hin v (.head _)
    cases vs with
    | nil =>
      -- the last place, and hashes of leaves after it
      obtain ⟨q, hends, rfl, hlimit⟩ := hfront
      obtain ⟨t₁, out, hlast, hready₁, hanswer⟩ :=
        respond_last hready hinv hends hup hlimit status
      obtain ⟨t₂, hdiffs, hready₂⟩ := feed_diffs hrest hready₁
      have hfeed := feed_cons hlast hdiffs
      rw [append_nil] at hfeed
      exact ⟨t₂, out, hfeed, hready₂, hanswer⟩
    | cons w vs =>
      obtain ⟨hends, hfront⟩ := hfront
      have hright := hright (Or.inr (cons_ne_nil w vs))
      obtain ⟨t₁, out₁, hinner, hready₁, hanswer₁⟩ :=
        respond_inner hready hinv hends hup hright status
      obtain ⟨t₂, out₂, hrest, hready₂, hanswer₂⟩ :=
        ih hfront (fun v' hv' => hin v' (.tail _ hv')) hready₁
      refine ⟨t₂, out₁ ++ out₂, ?_, hready₂, hanswer₁.append hanswer₂⟩
      rw [append_assoc]
      exact feed_cons hinner hrest

def EndsOnce (ms : List RealtimeEvent) : Prop := ∃ ms', ms = ms' ++ [endEvent] ∧ NoEnd ms'

theorem EndsOnce.append (h : EndsOnce ms') (hms : NoEnd ms) : EndsOnce (ms ++ ms') := by
  obtain ⟨front, rfl, hfront⟩ := h
  exact ⟨ms ++ front, (append_assoc _ _ _).symm, hms.append hfront⟩

theorem EndsOnce.eq_of_handled (h : EndsOnce ms) (hpre : ms' <+: ms) {m : RealtimeEvent}
    (hm : m ∈ ms') (hend : m.payload = .cmpEnd) : ms' = ms := by
  obtain ⟨front, rfl, hfront⟩ := h
  rcases prefix_concat_iff.mp hpre with heq | hpre
  · exact heq
  · exact absurd hend (hfront m (hpre.subset hm))

/-- All that the two nodes send from a level on; both have the hashes of the leaves where the
comparison ends. -/
structure Exchange (timeline : Side → Rawdb.Timeline) (s : Side) (vs : List Visit)
    (sender receiver : TreeCmptor) (toSender toReceiver new : List RealtimeEvent) : Prop where
  atReceiver : ∃ t', feed respond receiver toReceiver = .ok (t', toSender)
  atSender : ∃ t', feed respond sender toSender = .ok (t', new)
  endsReceiver : EndsOnce toReceiver
  endsSender : EndsOnce toSender
  told : ∀ v ∈ vs, ∀ e, v.Reaches e → e.Leaves →
    diffEvent (timeline s) (e.node s) ∈ toReceiver ∧ diffEvent (timeline s.opp) (e.node s.opp) ∈ toSender

theorem exchange {n : Nat} {s : Side} {sender receiver : TreeCmptor}
    (hbatch : Batch s limit true vs ms) (hfront : Frontier fits limit n vs)
    (hin : ∀ v ∈ vs, v.In tree) (htold : ∀ v ∈ vs, Told timeline s ms v)
    (hsender : Ready tree timeline limit s (decide (n = 0)) sender)
    (hreceiver : Ready tree timeline limit s.opp false receiver) :
    ∃ toSender new, Exchange timeline s vs sender receiver toSender
      (ms ++ endIf (decide (n = 0)) ++ new) new := by
  induction n generalizing s vs ms sender receiver with
  | zero =>
    obtain ⟨t₁, out, hfeed, hready₁, hanswer⟩ := feed_level hbatch hfront hin hreceiver
    have hnext : vs.flatMap next = [] :=
      flatMap_eq_nil_iff.mpr fun v hv => next_of_leaves (hfront.leaves hv)
    have hbatch' := hanswer.batch
    rw [hnext] at hbatch'
    obtain ⟨t₂, hend, -⟩ := hready₁.respond_end
    have hsender' : Ready tree timeline limit s.opp.opp true sender := by
      rw [Realtime.Side.opp_opp]
      exact hsender
    obtain ⟨t₃, hdiffs, hready₃⟩ := feed_diffs hbatch' hsender'
    obtain ⟨t₄, hend', -⟩ := hready₃.respond_end
    refine ⟨out ++ [endEvent], [], ⟨t₂, ?_⟩, ⟨t₄, feed_append hdiffs (feed_singleton hend')⟩,
      ⟨ms, by simp [endIf], hbatch.noEnd⟩, ⟨out, rfl, hbatch'.noEnd⟩, ?_⟩
    · have h := feed_append hfeed (feed_singleton hend)
      simpa [endIf] using h
    · intro v hv e hreach hleaves
      have hv' := hfront.leaves hv
      cases hreach with
      | refl =>
        refine ⟨?_, ?_⟩
        · exact mem_append_left _ (mem_append_left _ (htold v hv (hv' s)))
        · exact mem_append_left _ (hanswer.told v hv v (.head _) (hv' s.opp))
      | step hw _ =>
        rw [next_of_leaves hv'] at hw
        cases hw
  | succ n ih =>
    obtain ⟨t₁, out, hfeed, hready₁, hanswer⟩ := feed_level hbatch hfront hin hreceiver
    have hdecide : decide (n + 1 ≤ 1) = decide (n = 0) := by simp
    rw [hdecide] at hfeed hready₁
    have hin' : ∀ w ∈ vs.flatMap next, w.In tree := by
      intro w hw
      obtain ⟨v, hv, hw⟩ := mem_flatMap.mp hw
      rcases (hfront.endsWithin v hv).cases with ⟨hleaves, -⟩ | ⟨hbranch, -⟩
      · rw [next_of_leaves hleaves] at hw
        cases hw
      · exact (hin v hv).next hbranch hw
    have hsender' : Ready tree timeline limit s.opp.opp false sender := by
      rw [Realtime.Side.opp_opp]
      exact hsender
    have htold' : ∀ w ∈ vs.flatMap next, Told timeline s.opp out w := by
      intro w hw
      obtain ⟨v, hv, hw⟩ := mem_flatMap.mp hw
      exact hanswer.told v hv w (.tail _ hw)
    obtain ⟨toReceiver, new, hex⟩ := ih hanswer.batch hfront.next hin' htold' hready₁ hsender'
    obtain ⟨t₂, hsender₂⟩ := hex.atReceiver
    obtain ⟨t₃, hreceiver₃⟩ := hex.atSender
    refine ⟨out ++ endIf (decide (n = 0)) ++ new, toReceiver, ⟨t₃, ?_⟩, ⟨t₂, hsender₂⟩, ?_, hex.endsReceiver, ?_⟩
    · simpa [endIf] using feed_append hfeed hreceiver₃
    · simpa [endIf] using hex.endsSender.append hbatch.noEnd
    · intro v hv e hreach hleaves
      cases hreach with
      | refl =>
        refine ⟨?_, ?_⟩
        · exact mem_append_left _ (mem_append_left _ (htold v hv (hleaves s)))
        · exact mem_append_left _
            (mem_append_left _ (hanswer.told v hv v (.head _) (hleaves s.opp)))
      | @step v w e hw hreach =>
        have hw' : w ∈ vs.flatMap next := mem_flatMap.mpr ⟨v, hv, hw⟩
        obtain ⟨hopp, hsender⟩ := hex.told w hw' e hreach hleaves
        rw [Realtime.Side.opp_opp] at hsender
        exact ⟨mem_append_right _ hsender, hopp⟩

end Round

end Nerthus.Bysolt
