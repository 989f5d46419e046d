import Nerthus.Bysolt.Rounds

/-!
# What the nodes of a session handle

In any run of a session, what a node has handled is the beginning of the list of
messages that it would get if nobody stopped.
-/

namespace Nerthus.Bysolt

open Realtime (Bytes)
open Lib Realtime.Side TreeCmptor Function List

def gives (timeline : Rawdb.Timeline) (ev : RealtimeEvent) : List Hash :=
  match ev.payload with
  | .cmpDiff data =>
    if data.hashes.length > maxSlotUnits then []
    else data.hashes.filter fun h =>
      h ∉ (timeline.rangRangeUnits data.lower data.upper).map Prod.snd
  | _ => []

namespace TreeCmptor

variable {t : TreeCmptor} {ev : RealtimeEvent}

theorem handleResponse_of_accepts (h : t.accepts ev = true) :
    t.handleResponse ev = { t with peerStatus := ev.remoteStatus }.handlePayload ev.payload := by
  have hstarted : t.started = true := (Bool.and_eq_true_iff.mp h).1
  simp [handleResponse, hstarted, h, NodeStatus.empty]

theorem handleResponse_of_not_accepts (h : t.accepts ev = false) :
    ∃ t', t.handleResponse ev = .ok ⟨t', [], [], none⟩ ∧ t'.started = false ∧
      t'.timeline = t.timeline := by
  cases hstarted : t.started with
  | false => exact ⟨t, by simp [handleResponse, hstarted], hstarted, rfl⟩
  | true =>
    refine ⟨stop { t with peerStatus := ev.remoteStatus }, ?_, ?_, ?_⟩
    · simp [handleResponse, hstarted, h, NodeStatus.empty]
    · simp [stop, hstarted]
    · simp [stop, hstarted]

theorem sendCmpEnd_timeline (t : TreeCmptor) : t.sendCmpEnd.1.timeline = t.timeline := by
  unfold sendCmpEnd
  split_ifs <;> rfl

theorem sendDiffNode_timeline (t : TreeCmptor) (node : Node) (path : Bytes) :
    (t.sendDiffNode node path).1.timeline = t.timeline := by
  unfold sendDiffNode
  split_ifs <;> first | rfl | exact t.sendCmpEnd_timeline

theorem sendDiffs_timeline (t : TreeCmptor) (ds : List (Node × Bytes)) :
    (t.sendDiffs ds).1.timeline = t.timeline := by
  induction ds generalizing t with
  | nil => rfl
  | cons d ds ih => exact (ih _).trans (t.sendDiffNode_timeline d.1 d.2)

theorem handleCmpHash_timeline {data : CmpMessage} {r : TreeCmptor × List RealtimeEvent}
    (h : t.handleCmpHash data = .ok r) : r.1.timeline = t.timeline := by
  obtain ⟨⟨node, e⟩, -, h⟩ := bind_eq_ok_iff.mp h
  dsimp only at h
  split_ifs at h
  · cases h
    exact sendCmpEnd_timeline _
  · cases h
    rfl
  · cases h
    exact sendDiffs_timeline _ _

theorem handlePayload_effect {payload : Payload} {r : Response}
    (h : t.handlePayload payload = .ok r) :
    r.cmptor.timeline = t.timeline ∧ ∀ status, r.synced = gives t.timeline ⟨status, payload⟩ := by
  cases payload with
  | cmpHash data =>
    obtain ⟨p, hp, h⟩ := bind_eq_ok_iff.mp h
    cases h
    exact ⟨handleCmpHash_timeline hp, fun _ => rfl⟩
  | cmpDiff data =>
    rw [handlePayload] at h
    split_ifs at h with hlength
    · cases h
      exact ⟨rfl, fun _ => (if_pos hlength).symm⟩
    · cases h
      exact ⟨rfl, fun _ => (if_neg hlength).symm⟩
  | cmpEnd =>
    cases h
    exact ⟨t.sendCmpEnd_timeline, fun _ => rfl⟩

theorem handleResponse_respond {t' : TreeCmptor} {out : List RealtimeEvent}
    (h : t.accepts ev = true) (hrespond : t.respond ev = .ok (t', out)) :
    ∃ err, t.handleResponse ev = .ok ⟨t', out, gives t.timeline ev, err⟩ ∧
      t'.timeline = t.timeline := by
  rw [handleResponse_of_accepts h]
  rw [respond] at hrespond
  cases hpayload : { t with peerStatus := ev.remoteStatus }.handlePayload ev.payload with
  | error e =>
    rw [hpayload] at hrespond
    cases hrespond
  | ok r =>
    rw [hpayload] at hrespond
    cases hrespond
    obtain ⟨htimeline, hsynced⟩ := handlePayload_effect hpayload
    exact ⟨r.err, by rw [← show r.synced = gives t.timeline ev from hsynced ev.remoteStatus],
      htimeline⟩

end TreeCmptor

/-! ## A run -/

namespace Session

variable (H : Bytes → Bytes) (c : Comparison)

def init (s : Side) : TreeCmptor := (opening H c s).1

def first (s : Side) : List RealtimeEvent := (opening H c s.opp).2

def Full (full : Side → List RealtimeEvent) : Prop :=
  Settled opp respond (init H c) (first H c) full

/-- The node `s` has handled the beginning of its list; what it has sent for that was handled, is
lost or is on its way. -/
structure Follows (full : Side → List RealtimeEvent) (s : Side) (party opp : TreeCmptor)
    (handled handledOpp inboxOpp : List RealtimeEvent) (synced : List Hash) : Prop where
  start : handled <+: full s
  synced : synced = handled.flatMap (gives (c.sto s).timeline)
  timeline : party.timeline = (c.sto s).timeline
  sends : ∃ y out lost, feed respond (init H c s) handled = .ok (y, out) ∧
    (party.started = true → party = y) ∧
    first H c s.opp ++ out = handledOpp ++ lost ++ inboxOpp ∧ (opp.started = true → lost = [])

def FollowsBoth (full : Side → List RealtimeEvent) (x : Session) : Prop :=
  ∀ s, Follows H c full s (x.party s) (x.party s.opp) (x.handled s) (x.handled s.opp)
    (x.inbox s.opp) (x.synced s)

variable {H c} {full : Side → List RealtimeEvent} {x : Session}

theorem follows_start : FollowsBoth H c full (start H c) := by
  refine fun s => ⟨ nil_prefix, rfl, ?_, _, [], [], rfl, fun _ => rfl, append_nil _,
    fun _ => rfl⟩
  simp only [start, opening, TreeCmptor.start, TreeCmptor.stop]
  split_ifs <;> first | rfl | exact TreeCmptor.sendDiffNode_timeline _ _ _

theorem deliver_follows (hfull : Full H c full) (h : FollowsBoth H c full x) (s : Side) :
    ∃ y, x.deliver s = .ok y ∧ FollowsBoth H c full y := by
  have hne := s.opp_ne
  cases hinbox : x.inbox s with
  | nil => exact ⟨x, by rw [deliver, hinbox], h⟩
  | cons ev rest =>
    obtain ⟨hstart, hsynced, htime, y, out, lost, hfeed, hparty, hsent, hlost⟩ := h s
    obtain ⟨hstart', hsynced', htime', y', out', lost', hfeed', hparty', hsent', hlost'⟩ := h s.opp
    rw [opp_opp, hinbox] at hsent'
    rw [opp_opp] at hlost'
    unfold deliver
    rw [hinbox]
    dsimp only
    cases haccepts : (x.party s).accepts ev with
    | false =>
      -- the message is lost, and so is all that follows
      obtain ⟨t', hhandle, hstopped, htimeline⟩ :=
        handleResponse_of_not_accepts haccepts
      have hnot : ¬ t'.started = true := Bool.not_eq_true _ ▸ hstopped
      rw [hhandle]
      refine ⟨_, rfl, s.forall_of_opp ?_ ?_⟩ <;>
        simp only [update_self, update_of_ne hne, update_of_ne hne.symm,
          opp_opp, Bool.false_eq_true, if_false, append_nil]
      · exact ⟨hstart, hsynced, htimeline.trans htime, y, out, lost, hfeed, fun h => absurd h hnot,
          hsent, hlost⟩
      · refine ⟨hstart', hsynced', htime', y', out', lost' ++ [ev], hfeed', hparty', ?_,
          fun h => absurd h hnot⟩
        rw [opp_opp, hsent']
        simp
    | true =>
      have hstarted : (x.party s).started = true := (Bool.and_eq_true_iff.mp haccepts).1
      rw [hlost' hstarted, append_nil] at hsent'
      -- the message is the next one of the list
      have hnext : x.handled s ++ [ev] <+: full s := by
        have hpre := Settled.sent_prefix hfull hstart' hfeed'
        rw [opp_opp, hsent'] at hpre
        exact List.IsPrefix.trans ⟨rest, by simp⟩ hpre
      obtain ⟨z', out₁, hrespond, hfeedNext⟩ := Settled.handles hfull hnext hfeed
      rw [← hparty hstarted] at hrespond
      obtain ⟨err, hhandle, htimeline⟩ :=
        handleResponse_respond haccepts hrespond
      rw [hhandle]
      refine ⟨_, rfl, s.forall_of_opp ?_ ?_⟩ <;>
        simp only [update_self, update_of_ne hne, update_of_ne hne.symm,
          opp_opp, if_true]
      · refine ⟨hnext, ?_, htimeline.trans htime, z', out ++ out₁, lost, hfeedNext, fun _ => rfl, ?_,
          hlost⟩
        · rw [flatMap_append, flatMap_singleton, hsynced, htime]
        · rw [← append_assoc, hsent, append_assoc]
      · refine ⟨hstart', hsynced', htime', y', out', [], hfeed', hparty', ?_, fun _ => rfl⟩
        rw [opp_opp, hsent']
        simp

theorem halt_follows (h : FollowsBoth H c full x) (s : Side) : FollowsBoth H c full (x.halt s) := by
  have hstop : ∀ t : TreeCmptor, t.stop.timeline = t.timeline ∧ ¬ t.stop.started = true := by
    intro t
    unfold stop
    split_ifs with hstarted
    · exact ⟨rfl, by simp⟩
    · exact ⟨rfl, hstarted⟩
  have hparty : ∀ s', ((x.halt s).party s').timeline = (x.party s').timeline ∧
      (((x.halt s).party s').started = true → (x.halt s).party s' = x.party s') := by
    intro s'
    by_cases hs' : s' = s
    · rw [halt, hs']
      dsimp only
      rw [update_self]
      exact ⟨(hstop _).1, fun hstarted => absurd hstarted (hstop _).2⟩
    · rw [halt]
      dsimp only
      rw [update_of_ne hs']
      exact ⟨rfl, fun _ => rfl⟩
  intro s'
  obtain ⟨hstart, hsynced, htime, y, out, lost, hfeed, hself, hsent, hlost⟩ := h s'
  refine ⟨hstart, hsynced, (hparty s').1.trans htime, y, out, lost, hfeed, fun hs => ?_, hsent,
    fun ho => ?_⟩
  · have heq := (hparty s').2 hs
    rw [heq] at hs ⊢
    exact hself hs
  · rw [(hparty s'.opp).2 ho] at ho
    exact hlost ho

theorem run_follows (hfull : Full H c full) (h : FollowsBoth H c full x) (acts : List Act) :
    ∃ y, x.run acts = .ok y ∧ FollowsBoth H c full y := by
  induction acts generalizing x with
  | nil => exact ⟨x, rfl, h⟩
  | cons a acts ih =>
    obtain ⟨y, hact, hy⟩ : ∃ y, x.act a = .ok y ∧ FollowsBoth H c full y := by
      cases a with
      | deliver s => exact deliver_follows hfull h s
      | halt s => exact ⟨x.halt s, rfl, halt_follows h s⟩
    rw [run, hact]
    exact ih hy

/-! ## The lists of a session -/

section Lists

variable (H c)

def views (s : Side) : Node := (c.tree s).view H

def timelines (s : Side) : Rawdb.Timeline := (c.sto s).timeline

def root : Visit := ⟨views H c, []⟩

structure Fresh (s : Side) (t : TreeCmptor) : Prop where
  tree : t.tree = views H c s
  timeline : t.timeline = timelines c s
  endNodePath : t.endNodePath = []
  isEnd : t.isEnd = false

variable {H c} {fits : Side → Node → Prop} {t : TreeCmptor} {p : Bytes}

theorem root_in : (root H c).In (views H c) := by
  intro s
  show (views H c s).at? [] = some (views H c s)
  cases views H c s <;> rfl

theorem Fresh.ready {s : Side} (h : Fresh H c s t) (limit : Bytes) :
    Ready (views H c) (timelines c) limit s false t := by
  refine ⟨h.tree, h.timeline, ?_, h.isEnd⟩
  rw [h.endNodePath]
  exact UpTo.nil limit

def cmptor (H : Bytes → Bytes) (c : Comparison) (s : Side) : TreeCmptor :=
  newTreeCmptor (views H c s) (c.getStatus s) (timelines c s)

theorem opening_eq (s : Side) : opening H c s =
    if (c.remote s).root = (cmptor H c s).currentStatus.root then
      (stop { cmptor H c s with started := true }, [])
    else if s = .main then
      sendDiffNode { cmptor H c s with started := true, peerStatus := c.remote s }
        (views H c s) []
    else ({ cmptor H c s with started := true, peerStatus := c.remote s }, []) := by
  cases s <;> rfl

theorem opening_other : Fresh H c .other (init H c .other) ∧ first H c .main = [] := by
  have hopen := opening_eq (H := H) (c := c) .other
  rw [if_neg (by decide : ¬ other = .main)] at hopen
  split_ifs at hopen
  · rw [init, first, opp, hopen]
    exact ⟨⟨rfl, rfl, rfl, rfl⟩, rfl⟩
  · rw [init, first, opp, hopen]
    exact ⟨⟨rfl, rfl, rfl, rfl⟩, rfl⟩

theorem opening_main : first H c .other = [] ∨
    ∃ t, Fresh H c .main t ∧ opening H c .main = t.sendDiffNode (views H c .main) [] := by
  have hopen := opening_eq (H := H) (c := c) .main
  rw [if_pos (rfl : main = .main)] at hopen
  split_ifs at hopen
  · left
    rw [first, opp, hopen]
  · right
    exact ⟨_, ⟨rfl, rfl, rfl, rfl⟩, hopen⟩

theorem full_of_silent (h : first H c .other = []) : Full H c fun _ => [] := by
  have hfirst : ∀ s, first H c s = [] := Visit.forall_side opening_other.2 h
  exact fun s => ⟨_, [], rfl, by rw [hfirst]; rfl⟩

def lists (toMain toOther : List RealtimeEvent) : Side → List RealtimeEvent
  | .main => toMain
  | .other => toOther

theorem full_lists {toMain new : List RealtimeEvent} {y y' : TreeCmptor}
    (hother : feed respond (init H c .other) (first H c .other ++ new) = .ok (y, toMain))
    (hmain : feed respond (init H c .main) toMain = .ok (y', new)) :
    Full H c (lists toMain (first H c .other ++ new)) := by
  refine Visit.forall_side ⟨y', new, hmain, rfl⟩ ⟨y, toMain, hother, ?_⟩
  show toMain = first H c .main ++ toMain
  rw [opening_other.2, nil_append]

theorem Fresh.opens (h : Fresh H c .main t)
    (hopen : opening H c .main = t.sendDiffNode (views H c .main) []) :
    init H c .main = { t with isEnd := (views H c .main).isLeaf } ∧
      first H c .other = t.item (views H c .main, []) ++ endIf (views H c .main).isLeaf := by
  have hup : UpTo [] t.endNodePath := by
    rw [h.endNodePath]
    exact UpTo.refl []
  rw [sendDiffNode_last (fun _ => hup) h.isEnd] at hopen
  rw [init, first, opp, hopen]
  exact ⟨rfl, rfl⟩

theorem full_of_same (ht : Fresh H c .main t)
    (hopen : opening H c .main = t.sendDiffNode (views H c .main) [])
    (hbranch : (root H c).Branches) (hnext : (root H c).next = []) : ∃ full, Full H c full := by
  obtain ⟨-, hfirst⟩ := ht.opens hopen
  have hleaf : (views H c .main).isLeaf = false := hbranch .main
  have hother := (opening_other (H := H) (c := c)).1.ready []
  have hrespond := respond_branch (s := .main) (e := t.endNodePath) hother root_in (hbranch .other)
    (t.status [])
  rw [hnext] at hrespond
  have hfeed : feed respond (init H c .other) (first H c .other ++ []) =
      .ok ((init H c .other).noted (t.status []) t.endNodePath [], []) := by
    rw [hfirst, item, hleaf, append_nil]
    exact feed_singleton hrespond
  exact ⟨_, full_lists hfeed feed_nil⟩

/-- If the comparison ends with the rightmost leaves, both lists end with `RealtimeCmpEnd`, after
the hashes of all leaves compared. -/
theorem full_of_ends (ht : Fresh H c .main t)
    (hopen : opening H c .main = t.sendDiffNode (views H c .main) [])
    (hends : (root H c).EndsAt fits p) : ∃ full, Full H c full ∧ (∀ s, EndsOnce (full s)) ∧
      ∀ s e, (root H c).Reaches e → e.Leaves →
        diffEvent (timelines c s) (e.node s) ∈ full s.opp := by
  obtain ⟨hinit, hfirst⟩ := ht.opens hopen
  have hleaf : (views H c .main).isLeaf = decide (p.length = 0) := by
    rcases hends.cases with ⟨hleaves, -, rfl⟩ | ⟨hbranch, i, q, ws, w, rfl, -⟩
    · exact hleaves .main
    · exact hbranch .main
  have hfresh := ht.ready p
  have hself : Ready (views H c) (timelines c) p .main (decide (p.length = 0)) (init H c .main) := by
    rw [hinit, hleaf]
    exact ⟨hfresh.tree, hfresh.timeline, hfresh.upTo, rfl⟩
  have hitem : Batch .main p true [root H c] (t.item (views H c .main, [])) :=
    Batch.item t (root H c) hfresh.upTo nofun
  have htold : ∀ v ∈ [root H c], Told (timelines c) .main (t.item (views H c .main, [])) v := by
    intro v hv
    have h := told_items ht.timeline hv
    rwa [map_singleton, flatMap_singleton] at h
  have hfront : Frontier fits p p.length [root H c] := ⟨p, hends, rfl, rfl⟩
  have hin : ∀ v ∈ [root H c], v.In (views H c) := by
    intro v hv
    rw [mem_singleton.mp hv]
    exact root_in
  obtain ⟨toMain, new, hex⟩ := exchange hitem hfront hin htold hself (opening_other.1.ready p)
  rw [← hleaf, ← hfirst] at hex
  obtain ⟨y, hother⟩ := hex.atReceiver
  obtain ⟨y', hmain⟩ := hex.atSender
  refine ⟨lists toMain (first H c .other ++ new), full_lists hother hmain,
    Visit.forall_side hex.endsSender hex.endsReceiver, fun s e hreach hleaves => ?_⟩
  obtain ⟨htoOther, htoMain⟩ := hex.told (root H c) (.head _) e hreach hleaves
  cases s with
  | main => exact htoOther
  | other => exact htoMain

end Lists

end Session

end Nerthus.Bysolt
