import Nerthus.Realtime.Session

/-!
# Down a common subtree

A message has the hashes of the children of a node, and the peer goes on with
those that are equal. So once a comparison has come to a subtree that is the same in
both trees it goes through all of it, and ends at its last leaf.
-/

namespace Nerthus.Realtime

open Lib Node TreeCmptor List Function

variable {c n m : Node} {q e : Bytes} {ev : RealtimeEvent} {rest : List RealtimeEvent}

namespace Node

inductive At : Node → Bytes → Node → Prop
  | here (c : Node) : At c [] c
  | one {l n : Node} {q : Bytes} (h : At l q n) : At (.one l) (0 :: q) n
  | left {l r n : Node} {q : Bytes} (h : At l q n) : At (.two l r) (0 :: q) n
  | right {l r n : Node} {q : Bytes} (h : At r q n) : At (.two l r) (1 :: q) n

theorem At.walk (h : At c q n) : c.walk q = some n := by
  induction h with
  | here c => rfl
  | one h ih => exact ih
  | left h ih => exact ih
  | right h ih => exact ih

theorem At.trans {p : Bytes} (hp : At c p m) (hq : At m q n) : At c (p ++ q) n := by
  induction hp with
  | here c => exact hq
  | one h ih => exact .one (ih hq)
  | left h ih => exact .left (ih hq)
  | right h ih => exact .right (ih hq)

def lastPath : Node → Bytes
  | .leaf _ => []
  | .one l => 0 :: lastPath l
  | .two _ r => 1 :: lastPath r

theorem At.le_lastPath (h : At c q n) : 0 ≤ cmpWithEndPath q (lastPath c) := by
  induction h with
  | here c => cases hlast : lastPath c <;> simp [cmpWithEndPath]
  | one h ih => simpa [lastPath, cmpWithEndPath] using ih
  | left h ih => simp [lastPath, cmpWithEndPath]
  | right h ih => simpa [lastPath, cmpWithEndPath] using ih

theorem At.mem_leaves {l : Leaf} (h : At c q (.leaf l)) : l ∈ c.leaves := by
  generalize hn : (LevelTree.leaf l : Node) = n at h
  induction h with
  | here c =>
    rw [← hn]
    exact mem_singleton_self l
  | one h ih => exact ih hn
  | left h ih => exact mem_append_left _ (ih hn)
  | right h ih => exact mem_append_right _ (ih hn)

theorem eq_leaf (h : ¬n.isLeaf = false) : ∃ l, n = .leaf l := by
  cases n with
  | leaf l => exact ⟨l, rfl⟩
  | one l => exact absurd rfl h
  | two l r => exact absurd rfl h

def kids (path : Bytes) : Node → List (Node × Bytes)
  | .leaf _ => []
  | .one l => [(l, path ++ [0])]
  | .two l r => [(l, path ++ [0]), (r, path ++ [1])]

theorem At.kids {d : UInt8} {ph : Bytes} (h : At c q n) (hm : (m, ph) ∈ n.kids (d :: q)) :
    ∃ q', ph = d :: q' ∧ At c q' m := by
  cases n with
  | leaf l => cases hm
  | one l =>
    cases mem_singleton.mp hm
    exact ⟨q ++ [0], rfl, h.trans (.one (.here m))⟩
  | two l r =>
    rcases mem_cons.mp hm with heq | hm
    · cases heq
      exact ⟨q ++ [0], rfl, h.trans (.left (.here m))⟩
    · cases mem_singleton.mp hm
      exact ⟨q ++ [1], rfl, h.trans (.right (.here m))⟩

theorem exists_lastKid (h : n.isLeaf = false) : ∃ m i,
    n.lastPath = i :: m.lastPath ∧ At n [i] m ∧ ∀ path, (m, path ++ [i]) ∈ n.kids path := by
  cases n with
  | leaf l => cases h
  | one l => exact ⟨l, 0, rfl, .one (.here l), fun _ => .head _⟩
  | two l r => exact ⟨r, 1, rfl, .right (.here r), fun _ => .tail _ (.head _)⟩

end Node

/-! ## The part of the tree that is compared -/

section Compared

variable {H : Bytes → Bytes} {d : UInt8} {c : Node}

/-- A node that has only come to nodes of the subtree `c` at the child `d` of its
root. -/
structure PartyOk (tree : Node) (peer : Nat) (d : UInt8) (c : Node) (t : TreeCmptor) : Prop where
  started : t.started = true
  tree_eq : t.tree = tree
  peer_eq : t.peer = peer
  endPath : 0 ≤ cmpWithEndPath t.endNodePath (d :: c.lastPath)
  noted : ∀ i ∈ t.diffNode, i ∈ c.leaves.map Leaf.index

inductive EventOk (H : Bytes → Bytes) (d : UInt8) (c : Node) : RealtimeEvent → Prop where
  | cmpHash {q e : Bytes} {n : Node} (hat : Node.At c q n)
      (hend : 0 ≤ cmpWithEndPath e (d :: c.lastPath)) :
      EventOk H d c ⟨.zero, .cmpHash ⟨d :: q, e, n.childHashes H⟩⟩
  | cmpEnd (data : List ChainStatus) : EventOk H d c ⟨.zero, .cmpEnd data⟩

theorem EventOk.endPath {status : NodeStatus} {data : CmpMessage}
    (h : EventOk H d c ⟨status, .cmpHash data⟩) :
    0 ≤ cmpWithEndPath data.endPath (d :: c.lastPath) := by
  cases h with
  | cmpHash hat hend => exact hend

def Announced (H : Bytes → Bytes) (d : UInt8) (q : Bytes) (n : Node)
    (evs : List RealtimeEvent) : Prop :=
  (∃ data, (⟨.zero, .cmpEnd data⟩ : RealtimeEvent) ∈ evs) ∨
    n.isLeaf = false ∧
      ∃ e, (⟨.zero, .cmpHash ⟨d :: q, e, n.childHashes H⟩⟩ : RealtimeEvent) ∈ evs

theorem Announced.mono {evs evs' : List RealtimeEvent} (h : Announced H d q n evs)
    (hsub : evs ⊆ evs') : Announced H d q n evs' := by
  rcases h with ⟨data, hmem⟩ | ⟨hleaf, e, hmem⟩
  · exact .inl ⟨data, hsub hmem⟩
  · exact .inr ⟨hleaf, e, hsub hmem⟩

theorem cmpWithEndPath_cons (d : UInt8) (e p : Bytes) :
    cmpWithEndPath (d :: e) (d :: p) = cmpWithEndPath e p := by
  simp [cmpWithEndPath]

variable {tree : Node} {peer : Nat} {t : TreeCmptor}

theorem PartyOk.cacheDiff (ht : PartyOk tree peer d c t) {l : Leaf} (hat : Node.At c q (.leaf l)) :
    PartyOk tree peer d c (t.cacheDiff l.index) := by
  refine ⟨ht.started, ht.tree_eq, ht.peer_eq, ht.endPath, fun i hi => ?_⟩
  rcases mem_append.mp hi with hi | hi
  · exact ht.noted i hi
  · rw [mem_singleton.mp hi]
    exact mem_map_of_mem hat.mem_leaves

theorem PartyOk.moveEnd (ht : PartyOk tree peer d c t) (he : 0 ≤ cmpWithEndPath e (d :: c.lastPath)) :
    PartyOk tree peer d c { t with endNodePath := e } :=
  ⟨ht.started, ht.tree_eq, ht.peer_eq, he, ht.noted⟩

theorem sent_sendCmpEnd (t : TreeCmptor) (i : Nat) :
    sent (t.cacheDiff i).sendCmpEnd = [⟨.zero, .cmpEnd (t.cacheDiff i).diffStatus⟩] := by
  have hlen : (t.cacheDiff i).diffNode.length ≠ 0 := by
    simp [cacheDiff]
  rw [sendCmpEnd, if_neg hlen]
  rfl

theorem sendDiffNode_branch (hleaf : n.isLeaf = false) (v : UInt8) (q : Bytes) :
    t.sendDiffNode H n (v :: q) =
      (t, [.sendMessage ⟨.zero, .cmpHash ⟨v :: q, t.endNodePath, n.childHashes H⟩⟩]) := by
  simp [sendDiffNode, hleaf]

theorem sendDiffNode_leaf (l : Leaf) (v : UInt8) (q : Bytes) :
    t.sendDiffNode H (.leaf l) (v :: q) = (t.cacheDiff l.index,
      .sendMessage ⟨.zero, .cmpHash ⟨v :: q, t.endNodePath, []⟩⟩ ::
        if 0 ≤ cmpWithEndPath t.endNodePath (v :: q) then (t.cacheDiff l.index).sendCmpEnd
        else []) := by
  have hend : (t.cacheDiff l.index).endNodePath = t.endNodePath := rfl
  by_cases h : 0 ≤ cmpWithEndPath t.endNodePath (v :: q) <;>
    simp [sendDiffNode, isLeaf, index, childHashes, children, hend, h]

theorem PartyOk.sendDiffNode (ht : PartyOk tree peer d c t) (hat : Node.At c q n) :
    PartyOk tree peer d c (t.sendDiffNode H n (d :: q)).1 ∧
      (∀ ev ∈ sent (t.sendDiffNode H n (d :: q)).2, EventOk H d c ev) ∧
      (q ++ n.lastPath = c.lastPath →
        Announced H d q n (sent (t.sendDiffNode H n (d :: q)).2)) := by
  have hmsg : EventOk H d c ⟨.zero, .cmpHash ⟨d :: q, t.endNodePath, n.childHashes H⟩⟩ :=
    .cmpHash hat ht.endPath
  by_cases hleaf : n.isLeaf = false
  · rw [sendDiffNode_branch hleaf]
    refine ⟨ht, fun ev hev => ?_, fun _ => .inr ⟨hleaf, t.endNodePath, .head _⟩⟩
    rw [mem_singleton.mp hev]
    exact hmsg
  · obtain ⟨l, rfl⟩ := eq_leaf hleaf
    rw [sendDiffNode_leaf]
    refine ⟨ht.cacheDiff hat, fun ev hev => ?_, fun hlast => .inl ?_⟩
    · rcases mem_cons.mp hev with rfl | hev
      · exact hmsg
      by_cases hend : 0 ≤ cmpWithEndPath t.endNodePath (d :: q)
      · rw [if_pos hend, ← sent, sent_sendCmpEnd] at hev
        rw [mem_singleton.mp hev]
        exact .cmpEnd _
      · rw [if_neg hend] at hev
        cases hev
    · -- no end path is beyond the last leaf
      have hend : 0 ≤ cmpWithEndPath t.endNodePath (d :: q) := by
        have hend := ht.endPath
        rwa [← hlast, lastPath, append_nil] at hend
      rw [if_pos hend]
      refine ⟨(t.cacheDiff l.index).diffStatus, .tail _ ?_⟩
      rw [← sent, sent_sendCmpEnd]
      exact mem_singleton_self _

theorem sent_append (xs ys : List Action) : sent (xs ++ ys) = sent xs ++ sent ys :=
  filterMap_append

theorem PartyOk.sendDiffs (ht : PartyOk tree peer d c t) {diffs : List (Node × Bytes)}
    (hdiffs : ∀ m ph, (m, ph) ∈ diffs → ∃ q, ph = d :: q ∧ Node.At c q m) :
    PartyOk tree peer d c (t.sendDiffs H diffs).1 ∧
      (∀ ev ∈ sent (t.sendDiffs H diffs).2, EventOk H d c ev) ∧
      ∀ m q, (m, d :: q) ∈ diffs → q ++ m.lastPath = c.lastPath →
        Announced H d q m (sent (t.sendDiffs H diffs).2) := by
  induction diffs generalizing t with
  | nil =>
    refine ⟨ht, fun ev hev => ?_, fun m q hm => ?_⟩
    · cases hev
    · cases hm
  | cons e diffs ih =>
    obtain ⟨m, ph⟩ := e
    obtain ⟨q, rfl, hat⟩ := hdiffs m ph (.head _)
    obtain ⟨ht₁, hevs₁, hann₁⟩ := ht.sendDiffNode (H := H) hat
    obtain ⟨ht₂, hevs₂, hann₂⟩ := ih ht₁ fun m ph hm => hdiffs m ph (.tail _ hm)
    have hsent : sent (t.sendDiffs H ((m, d :: q) :: diffs)).2 =
        sent (t.sendDiffNode H m (d :: q)).2 ++
          sent ((t.sendDiffNode H m (d :: q)).1.sendDiffs H diffs).2 := sent_append _ _
    refine ⟨ht₂, fun ev hev => ?_, fun m' q' hm' hlast => ?_⟩
    · rw [hsent] at hev
      rcases mem_append.mp hev with hev | hev
      · exact hevs₁ ev hev
      · exact hevs₂ ev hev
    · rw [hsent]
      rcases mem_cons.mp hm' with heq | hm'
      · cases heq
        exact (hann₁ hlast).mono (subset_append_left _ _)
      · exact (hann₂ m' q' hm' hlast).mono (subset_append_right _ _)

theorem discoverDiffs_self (n : Node) (path e : Bytes) :
    ∃ e', discoverDiffs H n path 0 (n.childHashes H) e = (some (n.kids path), e') ∧
      (e' = e ∨ ∃ m, (m, e') ∈ n.kids path) := by
  cases n with
  | leaf l => exact ⟨e, rfl, .inl rfl⟩
  | one l =>
    by_cases hend : 0 < cmpWithEndPath e (path ++ [0])
    · refine ⟨path ++ [0], ?_, .inr ⟨l, .head _⟩⟩
      simp [discoverDiffs, childHashes, children, kids, hend]
    · refine ⟨e, ?_, .inl rfl⟩
      simp [discoverDiffs, childHashes, children, kids, hend]
  | two l r =>
    by_cases hl : 0 < cmpWithEndPath e (path ++ [0])
    · by_cases hr : 0 < cmpWithEndPath (path ++ [0]) (path ++ [1])
      · refine ⟨path ++ [1], ?_, .inr ⟨r, .tail _ (.head _)⟩⟩
        simp [discoverDiffs, childHashes, children, kids, hl, hr]
      · refine ⟨path ++ [0], ?_, .inr ⟨l, .head _⟩⟩
        simp [discoverDiffs, childHashes, children, kids, hl, hr]
    · by_cases hr : 0 < cmpWithEndPath e (path ++ [1])
      · refine ⟨path ++ [1], ?_, .inr ⟨r, .tail _ (.head _)⟩⟩
        simp [discoverDiffs, childHashes, children, kids, hl, hr]
      · refine ⟨e, ?_, .inl rfl⟩
        simp [discoverDiffs, childHashes, children, kids, hl, hr]

theorem PartyOk.recordEnd (ht : PartyOk tree peer d c t)
    (he : 0 ≤ cmpWithEndPath e (d :: c.lastPath)) : PartyOk tree peer d c (t.recordEnd e) := by
  unfold TreeCmptor.recordEnd
  split
  · exact ht.moveEnd he
  · exact ht

theorem handleCmpHash_leaf {data : CmpMessage} {l : Leaf}
    (hwalk : t.tree.walk data.path = some (.leaf l)) :
    t.handleCmpHash H data = (none, (t.recordEnd data.endPath).cacheDiff l.index,
      if 0 ≤ cmpWithEndPath (t.recordEnd data.endPath).endNodePath data.path then
        ((t.recordEnd data.endPath).cacheDiff l.index).sendCmpEnd else []) := by
  rw [handleCmpHash, hwalk]
  rfl

theorem handleCmpHash_branch {data : CmpMessage} {diffs : List (Node × Bytes)}
    (hwalk : t.tree.walk data.path = some n) (hleaf : n.isLeaf = false)
    (hdiffs : discoverDiffs H n data.path 0 data.children
      (t.recordEnd data.endPath).endNodePath = (some diffs, e)) : t.handleCmpHash H data =
      (none, sendDiffs H { t.recordEnd data.endPath with endNodePath := e } diffs) := by
  rw [handleCmpHash, hwalk]
  simp only [hleaf, Bool.false_eq_true, if_false, hdiffs]

/-- A message about a node of the subtree leads to messages about its children. -/
theorem PartyOk.handleCmpHash (ht : PartyOk tree peer d c t) (hchild : child tree d = some c)
    (hat : Node.At c q n) (he : 0 ≤ cmpWithEndPath e (d :: c.lastPath)) :
    PartyOk tree peer d c (t.handleCmpHash H ⟨d :: q, e, n.childHashes H⟩).2.1 ∧
      (∀ ev ∈ sent (t.handleCmpHash H ⟨d :: q, e, n.childHashes H⟩).2.2, EventOk H d c ev) ∧
      ∀ m q', (m, d :: q') ∈ n.kids (d :: q) → q' ++ m.lastPath = c.lastPath →
        Announced H d q' m (sent (t.handleCmpHash H ⟨d :: q, e, n.childHashes H⟩).2.2) := by
  have hwalk : walk t.tree (d :: q) = some n := by
    rw [walk, ht.tree_eq, hchild, Option.bind_some]
    exact hat.walk
  have ht₁ := ht.recordEnd he
  by_cases hleaf : n.isLeaf = false
  · obtain ⟨e', hdiffs, hend⟩ := discoverDiffs_self (H := H) n (d :: q) (t.recordEnd e).endNodePath
    rw [handleCmpHash_branch hwalk hleaf hdiffs]
    have he' : 0 ≤ cmpWithEndPath e' (d :: c.lastPath) := by
      rcases hend with rfl | ⟨m, hm⟩
      · exact ht₁.endPath
      · obtain ⟨q', rfl, hat'⟩ := hat.kids hm
        rw [cmpWithEndPath_cons]
        exact hat'.le_lastPath
    exact (ht₁.moveEnd he').sendDiffs fun m ph hm => hat.kids hm
  · obtain ⟨l, rfl⟩ := eq_leaf hleaf
    rw [handleCmpHash_leaf hwalk]
    refine ⟨ht₁.cacheDiff hat, fun ev hev => ?_, fun m q' hm => ?_⟩
    · dsimp only at hev
      split at hev
      · rw [sent_sendCmpEnd] at hev
        rw [mem_singleton.mp hev]
        exact .cmpEnd _
      · cases hev
    · cases hm

theorem PartyOk.handleResponse_eq (ht : PartyOk tree peer d c t) (payload : Payload) :
    t.handleResponse H peer ⟨.zero, payload⟩ =
      match payload with
      | .pushChains info => t.handleChainsMsg H info
      | .cmpHash data => t.handleCmpHash H data
      | .cmpEnd data => (none, t, t.handleCmpEnd data) := by
  have hempty : NodeStatus.zero.empty = true := rfl
  cases payload <;> simp [handleResponse, ht.started, ht.peer_eq, hempty]

theorem sent_handleCmpEnd (t : TreeCmptor) (data : List ChainStatus) :
    sent (t.handleCmpEnd data) = [] := by
  unfold handleCmpEnd
  split <;> rfl

theorem PartyOk.handleResponse (ht : PartyOk tree peer d c t) (hchild : child tree d = some c)
    (hev : EventOk H d c ev) : PartyOk tree peer d c (t.handleResponse H peer ev).2.1 ∧
      ∀ ev' ∈ sent (t.handleResponse H peer ev).2.2, EventOk H d c ev' := by
  cases hev with
  | cmpHash hat hend =>
    rw [ht.handleResponse_eq]
    obtain ⟨ht', hevs, -⟩ := ht.handleCmpHash (H := H) hchild hat hend
    exact ⟨ht', hevs⟩
  | cmpEnd data =>
    rw [ht.handleResponse_eq]
    refine ⟨ht, fun ev' hev' => ?_⟩
    rw [sent_handleCmpEnd] at hev'
    cases hev'

end Compared

section Ends

variable {H : Bytes → Bytes} {tree : Side → Node} {d : UInt8} {c : Node} {x : Session} {s : Side}

namespace Session

theorem deliver_party (hinbox : x.inbox s = ev :: rest) : (x.deliver H s).party =
      update x.party s ((x.party s).handleResponse H s.opp.id ev).2.1 := by
  rw [deliver, hinbox]

theorem deliver_inbox_self (hinbox : x.inbox s = ev :: rest) : (x.deliver H s).inbox s = rest := by
  rw [deliver, hinbox]
  exact (update_of_ne s.opp_ne.symm _ _).trans (update_self _ _ _)

theorem deliver_inbox_opp (hinbox : x.inbox s = ev :: rest) : (x.deliver H s).inbox s.opp =
      x.inbox s.opp ++ sent ((x.party s).handleResponse H s.opp.id ev).2.2 := by
  rw [deliver, hinbox]
  exact update_self _ _ _

theorem run_append (x : Session) (acts acts' : List Act) :
    x.run H (acts ++ acts') = (x.run H acts).run H acts' :=
  foldl_append

end Session

structure Good (H : Bytes → Bytes) (tree : Side → Node) (d : UInt8) (c : Node) (x : Session) :
    Prop where
  child : ∀ s, child (tree s) d = some c
  party : ∀ s, PartyOk (tree s) s.opp.id d c (x.party s)
  inbox : ∀ s, ∀ ev ∈ x.inbox s, EventOk H d c ev

theorem Side.eq_or_eq_opp (s s' : Side) : s' = s ∨ s' = s.opp := by
  cases s <;> cases s' <;> simp [opp]

theorem Good.deliver (hg : Good H tree d c x) (s : Side) : Good H tree d c (x.deliver H s) := by
  cases hinbox : x.inbox s with
  | nil =>
    rw [Session.deliver, hinbox]
    exact hg
  | cons ev rest =>
    have hev : EventOk H d c ev := hg.inbox s ev (by rw [hinbox]; exact .head _)
    obtain ⟨ht, hevs⟩ := (hg.party s).handleResponse (hg.child s) hev
    refine ⟨hg.child, fun s' => ?_, fun s' ev' hev' => ?_⟩
    · rw [Session.deliver_party hinbox]
      by_cases hs : s' = s
      · rw [hs, update_self]
        exact ht
      · rw [update_of_ne hs]
        exact hg.party s'
    · rcases s.eq_or_eq_opp s' with rfl | rfl
      · rw [Session.deliver_inbox_self hinbox] at hev'
        exact hg.inbox _ ev' (by rw [hinbox]; exact .tail _ hev')
      rw [Session.deliver_inbox_opp hinbox] at hev'
      rcases mem_append.mp hev' with hev' | hev'
      · exact hg.inbox _ ev' hev'
      · exact hevs ev' hev'

theorem Good.reach_head (hg : Good H tree d c x) {pre post : List RealtimeEvent}
    (hinbox : x.inbox s = pre ++ ev :: post) :
    ∃ acts, Good H tree d c (x.run H acts) ∧ (x.run H acts).inbox s = ev :: post := by
  induction pre generalizing x with
  | nil => exact ⟨[], hg, hinbox⟩
  | cons e pre ih =>
    obtain ⟨acts, hg', hhead⟩ := ih (hg.deliver s) (Session.deliver_inbox_self hinbox)
    exact ⟨.deliver s :: acts, hg', hhead⟩

theorem Good.announce_kid (hg : Good H tree d c x) {q' : Bytes} (hat : Node.At c q n)
    (hm : (m, d :: q') ∈ n.kids (d :: q)) (hlast : q' ++ m.lastPath = c.lastPath)
    (hann : Announced H d q n (x.inbox s)) : ∃ acts s', Good H tree d c (x.run H acts) ∧
      Announced H d q' m ((x.run H acts).inbox s') := by
  rcases hann with hend | ⟨-, e, hmem⟩
  · exact ⟨[], s, hg, .inl hend⟩
  obtain ⟨pre, post, hinbox⟩ := append_of_mem hmem
  obtain ⟨acts, hg', hhead⟩ := hg.reach_head hinbox
  have hev := hg'.inbox s _ (by rw [hhead]; exact .head _)
  obtain ⟨-, -, hann⟩ := (hg'.party s).handleCmpHash (H := H) (hg.child s) hat hev.endPath
  refine ⟨acts ++ [.deliver s], s.opp, ?_, ?_⟩ <;> rw [Session.run_append]
  · exact hg'.deliver s
  · change Announced H d q' m (((x.run H acts).deliver H s).inbox s.opp)
    rw [Session.deliver_inbox_opp hhead, (hg'.party s).handleResponse_eq]
    exact (hann m q' hm hlast).mono (subset_append_right _ _)

theorem Good.ends (hg : Good H tree d c x) (hat : Node.At c q n)
    (hlast : q ++ n.lastPath = c.lastPath) (hann : Announced H d q n (x.inbox s)) :
    ∃ acts s' data rest, Good H tree d c (x.run H acts) ∧
      (x.run H acts).inbox s' = ⟨.zero, .cmpEnd data⟩ :: rest := by
  induction hp : n.lastPath generalizing n x s q with
  | nil =>
    rcases hann with ⟨data, hmem⟩ | ⟨hleaf, -⟩
    · obtain ⟨pre, post, hinbox⟩ := append_of_mem hmem
      obtain ⟨acts, hg', hhead⟩ := hg.reach_head hinbox
      exact ⟨acts, s, data, post, hg', hhead⟩
    · obtain ⟨m, i, hi, -⟩ := exists_lastKid hleaf
      cases hp.symm.trans hi
  | cons i p ih =>
    obtain ⟨m, _, hi, hkid, hmem⟩ := exists_lastKid (n := n) (by cases n <;> first | rfl | cases hp)
    cases hp.symm.trans hi
    have hlast' : q ++ [i] ++ m.lastPath = c.lastPath := by
      rw [append_assoc, ← hlast, hi]
      rfl
    obtain ⟨acts, s₁, hg₁, hann₁⟩ := hg.announce_kid hat (hmem (d :: q)) hlast' hann
    obtain ⟨acts', s₂, data, rest, hg₂, hhead⟩ := ih hg₁ (hat.trans hkid) hlast' hann₁ rfl
    rw [← Session.run_append] at hg₂ hhead
    exact ⟨acts ++ acts', s₂, data, rest, hg₂, hhead⟩

end Ends

end Nerthus.Realtime
