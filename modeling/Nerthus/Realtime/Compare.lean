import Nerthus.Realtime.Descent

/-!
# What a comparison finds

Two nodes with as many chains and different roots compare their trees. The
children that the comparison goes on with are those whose hashes are equal, so
what it notes are chains that do not differ, and it ends only if the roots have
an equal child.
-/

namespace Nerthus.Realtime

open Lib Node TreeCmptor Lib.LevelTree List

/-! ## The leaves of the two trees -/

variable {a b t c : Node} {cs : List ChainStatus}

namespace Node

variable {H : Bytes → Bytes}

def HashInjective (H : Bytes → Bytes) (a b : Node) : Prop :=
  ∀ p ∈ a.pairs (fun x y => H (x ++ y)) Leaf.hash,
    ∀ q ∈ b.pairs (fun x y => H (x ++ y)) Leaf.hash, H (p.1 ++ p.2) = H (q.1 ++ q.2) → p = q
deriving Decidable

theorem eq_of_hash_eq (hshape : a.map Leaf.index = b.map Leaf.index) (hinj : HashInjective H a b)
    (hhash : a.hash H = b.hash H) : a = b := by
  have hmap := map_eq_of_eval_eq hshape hinj hhash
  refine eq_of_map_eq (fun x y hx hy => ?_) hmap hshape
  cases x
  cases y
  simp only at hx hy
  rw [hx, hy]

theorem leavesOf_getElem? (cs : List ChainStatus) (i : Nat) :
    (leavesOf H cs)[i]? = (cs[i]?.map (Content.hash H)).map fun v => ⟨v, i⟩ := by
  rw [leavesOf, getElem?_mapIdx, Option.map_map]
  rfl

theorem mem_leavesOf {l : Leaf} (hl : l ∈ leavesOf H cs) :
    cs[l.index]?.map (Content.hash H) = some l.hash := by
  obtain ⟨i, hi⟩ := mem_iff_getElem?.mp hl
  rw [leavesOf_getElem?] at hi
  obtain ⟨v, hv, rfl⟩ := Option.map_eq_some_iff.mp hi
  exact hv

theorem leavesOf_index (cs : List ChainStatus) :
    (leavesOf H cs).map Leaf.index = range cs.length := by
  refine ext_getElem? fun i => ?_
  rw [getElem?_map, leavesOf_getElem?, Option.map_map, Option.map_map]
  by_cases hi : i < cs.length
  · rw [getElem?_eq_getElem hi, getElem?_range hi]
    rfl
  have hnone : cs[i]? = none := getElem?_eq_none (by omega)
  have hrange : (range cs.length)[i]? = none :=
    getElem?_eq_none (by rw [length_range]; omega)
  rw [hnone, hrange]
  rfl

theorem ofChains_index (h : ofChains H cs = some t) :
    ofList (range cs.length) = some (t.map Leaf.index) := by
  rw [← leavesOf_index (H := H), ofList_map]
  exact congrArg (Option.map _) h

theorem ofChains_length (h : ofChains H cs = some t) : t.leaves.length = cs.length := by
  rw [ofList_leaves h, leavesOf, length_mapIdx]

theorem isLeaf_of_ofChains (h : ofChains H cs = some t) : t.isLeaf = false := by
  cases t with
  | leaf l => exact absurd rfl (ofList_ne_leaf h l)
  | one l => rfl
  | two l r => rfl

theorem child_leaves {d : UInt8} (h : t.child d = some c) : c.leaves ⊆ t.leaves := by
  unfold child at h
  cases t with
  | leaf l => split at h <;> cases h
  | one l =>
    split at h <;> cases h
    exact fun _ hl => hl
  | two l r =>
    split at h <;> cases h
    · exact subset_append_left _ _
    · exact subset_append_right _ _

end Node

section Result

variable {H : Bytes → Bytes} {chains : Side → List ChainStatus} {tree : Side → Node}

theorem differing_ne_nil (htree : ∀ s, ofChains H (chains s) = some (tree s))
    (hlen : (chains .main).length = (chains .other).length)
    (hroot : (tree .main).hash H ≠ (tree .other).hash H) :
    differing H (chains .main) (chains .other) ≠ [] := by
  intro hnil
  apply hroot
  have hleaves : leavesOf H (chains .main) = leavesOf H (chains .other) := by
    refine ext_getElem? fun i => ?_
    rw [leavesOf_getElem?, leavesOf_getElem?]
    by_cases hi : i < (chains .main).length
    · have hmem := filter_eq_nil_iff.mp hnil i (mem_range.mpr hi)
      simp only [ne_eq, decide_not, Bool.not_eq_true', decide_eq_false_iff_not, not_not] at hmem
      rw [hmem]
    · rw [getElem?_eq_none (by omega), getElem?_eq_none (by omega)]
  have heq : some (tree .main) = some (tree .other) := by
    rw [← htree, ← htree, ofChains, ofChains, hleaves]
  rw [Option.some.inj heq]

theorem notMem_differing (htree : ∀ s, ofChains H (chains s) = some (tree s)) {d : UInt8}
    (hchild : ∀ s, child (tree s) d = some c) {i : Nat} (hi : i ∈ c.leaves.map Leaf.index) :
    i ∉ differing H (chains .main) (chains .other) := by
  obtain ⟨l, hl, rfl⟩ := mem_map.mp hi
  have hmem : ∀ s, (chains s)[l.index]?.map (Content.hash H) = some l.hash := by
    intro s
    apply mem_leavesOf
    rw [← ofList_leaves (htree s)]
    exact child_leaves (hchild s) hl
  intro hdiff
  have hne := (mem_filter.mp hdiff).2
  simp only [hmem .main, hmem .other, ne_eq, not_true_eq_false, decide_false] at hne
  cases hne

def NoEqualChild (H : Bytes → Bytes) (a b : Node) : Prop :=
  ∀ d x y, child a d = some x → child b d = some y → hash H x ≠ hash H y

theorem NoEqualChild.discoverDiffs (hno : NoEqualChild H a b)
    (hshape : a.map Leaf.index = b.map Leaf.index) :
    TreeCmptor.discoverDiffs H b [] 0 (a.childHashes H) [] = (some [], []) := by
  cases a with
  | leaf l => rfl
  | one x =>
    cases b with
    | leaf l => cases hshape
    | one y =>
      have hne : hash H x ≠ hash H y := hno 0 x y rfl rfl
      simp [TreeCmptor.discoverDiffs, childHashes, children, hne]
    | two y z => cases hshape
  | two x x' =>
    cases b with
    | leaf l => cases hshape
    | one y => cases hshape
    | two y y' =>
      have hne : hash H x ≠ hash H y := hno 0 x y rfl rfl
      have hne' : hash H x' ≠ hash H y' := hno 1 x' y' rfl rfl
      simp [TreeCmptor.discoverDiffs, childHashes, children, hne, hne']

theorem exists_common_child (hshape : a.map Leaf.index = b.map Leaf.index)
    (hinj : Node.HashInjective H a b) (hroot : a.hash H ≠ b.hash H) (hno : ¬ NoEqualChild H a b) :
    ∃ d c, child a d = some c ∧ child b d = some c ∧
      discoverDiffs H b [] 0 (a.childHashes H) [] = (some [(c, [d])], [d]) := by
  obtain ⟨d, x, y, hx, hy, hxy⟩ : ∃ d x y, child a d = some x ∧ child b d = some y ∧
      hash H x = hash H y := by
    by_contra hnone
    exact hno fun d x y hx hy hxy => hnone ⟨d, x, y, hx, hy, hxy⟩
  cases a with
  | leaf l =>
    unfold child at hx
    split at hx <;> cases hx
  | one l =>
    cases b with
    | leaf r => cases hshape
    | two r r' => cases hshape
    | one r =>
      -- the root has the hash of its only child
      unfold child at hx hy
      split at hx <;> rename_i hd
      · rw [if_pos hd] at hy
        cases hx
        cases hy
        exact absurd hxy hroot
      · cases hx
  | two l l' =>
    cases b with
    | leaf r => cases hshape
    | one r => cases hshape
    | two r r' =>
      obtain ⟨hshapel, hshaper⟩ := two.inj hshape
      have hinjl : Node.HashInjective H l r := fun p hp q hq =>
        hinj p (.tail _ (mem_append_left _ hp)) q
          (.tail _ (mem_append_left _ hq))
      have hinjr : Node.HashInjective H l' r' := fun p hp q hq =>
        hinj p (.tail _ (mem_append_right _ hp)) q
          (.tail _ (mem_append_right _ hq))
      have hboth : ¬ (l = r ∧ l' = r') := by
        rintro ⟨rfl, rfl⟩
        exact hroot rfl
      by_cases hl : hash H l = hash H r
      · have heq := eq_of_hash_eq hshapel hinjl hl
        have hne : hash H l' ≠ hash H r' := fun h =>
          hboth ⟨heq, eq_of_hash_eq hshaper hinjr h⟩
        refine ⟨0, r, congrArg some heq, rfl, ?_⟩
        simp [discoverDiffs, childHashes, children, hl, hne,
          cmpWithEndPath]
      · have hr : hash H l' = hash H r' := by
          unfold child at hx hy
          split at hx <;> rename_i hd
          · rw [if_pos hd] at hy
            cases hx
            cases hy
            exact absurd hxy hl
          · rw [if_neg hd] at hy
            cases hx
            cases hy
            exact hxy
        have heq := eq_of_hash_eq hshaper hinjr hr
        refine ⟨1, r', congrArg some heq, rfl, ?_⟩
        simp [discoverDiffs, childHashes, children, hl, hr,
          cmpWithEndPath]

/-! ## From the start -/

structure Begun (tree : Side → Node) (s : Side) (t : TreeCmptor) : Prop where
  started : t.started = true
  tree_eq : t.tree = tree s
  peer_eq : t.peer = s.opp.id
  diffNode : t.diffNode = []
  endNodePath : t.endNodePath = []

def rootEvent (H : Bytes → Bytes) (tree : Side → Node) : RealtimeEvent :=
  ⟨⟨(tree .main).hash H, (tree .main).leaves.length⟩,
    .cmpHash ⟨[], [], (tree .main).childHashes H⟩⟩

theorem start_spec (htree : ∀ s, ofChains H (chains s) = some (tree s))
    (hlen : (chains .main).length = (chains .other).length)
    (hroot : (tree .main).hash H ≠ (tree .other).hash H) :
    (∀ s, Begun tree s ((Session.start H chains tree).party s)) ∧
      (Session.start H chains tree).inbox .main = [] ∧
      (Session.start H chains tree).inbox .other = [rootEvent H tree] := by
  have hcount : (tree .main).leaves.length = (tree .other).leaves.length := by
    rw [ofChains_length (htree _), ofChains_length (htree _), hlen]
  have hleaf := isLeaf_of_ofChains (htree .main)
  have hmain : Session.opening H chains tree .main =
      ({ newTreeCmptor (tree .main) (chains .main) with
          started := true, peer := Side.other.id,
          peerStatus := ⟨(tree .other).hash H, (tree .other).leaves.length⟩ },
        [.sendMessage (rootEvent H tree)]) := by
    simp [Session.opening, start, newTreeCmptor, currentStatus,
      hroot.symm, sendFirstCmp, sendDiffNode, hcount, hleaf, rootEvent,
      Side.opp]
  have hother : Session.opening H chains tree .other =
      ({ newTreeCmptor (tree .other) (chains .other) with
          started := true, peer := Side.main.id,
          peerStatus := ⟨(tree .main).hash H, (tree .main).leaves.length⟩ }, []) := by
    simp [Session.opening, start, newTreeCmptor, currentStatus,
      hroot, sendFirstCmp, hcount, Side.opp]
  refine ⟨fun s => ?_, ?_, ?_⟩
  · cases s with
    | main =>
      change Begun tree .main (Session.opening H chains tree .main).1
      rw [hmain]
      exact ⟨rfl, rfl, rfl, rfl, rfl⟩
    | other =>
      change Begun tree .other (Session.opening H chains tree .other).1
      rw [hother]
      exact ⟨rfl, rfl, rfl, rfl, rfl⟩
  · change sent (Session.opening H chains tree .other).2 = []
    rw [hother]
    rfl
  · change sent (Session.opening H chains tree .main).2 = _
    rw [hmain]
    rfl

theorem Begun.handle_root {t : TreeCmptor} (ht : Begun tree .other t)
    (hroot : (tree .main).hash H ≠ (tree .other).hash H)
    (hleaf : (tree .other).isLeaf = false) {diffs : List (Node × Bytes)} {e : Bytes}
    (hdiffs : discoverDiffs H (tree .other) [] 0 ((tree .main).childHashes H) [] =
      (some diffs, e)) :
    ∃ t', Begun tree .other t' ∧ t.handleResponse H Side.main.id (rootEvent H tree) =
      (none, sendDiffs H { t' with endNodePath := e } diffs) := by
  have hwork : ∀ t', Begun tree .other t' →
      t'.handleCmpHash H ⟨[], [], (tree .main).childHashes H⟩ =
        (none, sendDiffs H { t' with endNodePath := e } diffs) := by
    intro t' ht'
    have hrecord : t'.recordEnd [] = t' := by
      simp [recordEnd, ht'.endNodePath, cmpWithEndPath]
    have hwalk : walk t'.tree [] = some (tree .other) := congrArg some ht'.tree_eq
    have hdiffs' : discoverDiffs H (tree .other) [] 0 ((tree .main).childHashes H)
        (t'.recordEnd []).endNodePath = (some diffs, e) := by
      rw [hrecord, ht'.endNodePath]
      exact hdiffs
    rw [handleCmpHash_branch hwalk hleaf hdiffs', hrecord]
  have hne : t.tree.hash H ≠ (tree .main).hash H := by
    rw [ht.tree_eq]
    exact hroot.symm
  by_cases hempty : (rootEvent H tree).remoteStatus.empty = true
  · refine ⟨t, ht, ?_⟩
    rw [← hwork t ht]
    rw [rootEvent] at hempty
    simp [handleResponse, ht.started, ht.peer_eq, hempty, Side.opp, rootEvent]
  · have ht' : Begun tree .other { t with peerStatus := (rootEvent H tree).remoteStatus } :=
      ⟨ht.started, ht.tree_eq, ht.peer_eq, ht.diffNode, ht.endNodePath⟩
    refine ⟨_, ht', ?_⟩
    rw [← hwork _ ht']
    rw [rootEvent] at hempty
    simp [handleResponse, ht.started, ht.peer_eq, hempty, Side.opp,
      currentStatus, rootEvent, hne]

structure Quiet (H : Bytes → Bytes) (tree : Side → Node) (x : Session) : Prop where
  main : x.inbox .main = []
  other : x.inbox .other = [] ∨ x.inbox .other = [rootEvent H tree] ∧
    ((x.party .other).started = false ∨ Begun tree .other (x.party .other))

theorem TreeCmptor.stop_started (t : TreeCmptor) : t.stop.started = false := by
  unfold stop
  split
  · rfl
  · exact Bool.eq_false_iff.mpr ‹_›

theorem Quiet.act {x : Session} (hq : Quiet H tree x)
    (hroot : (tree .main).hash H ≠ (tree .other).hash H) (hleaf : (tree .other).isLeaf = false)
    (hdiffs : discoverDiffs H (tree .other) [] 0 ((tree .main).childHashes H) [] =
      (some [], [])) (a : Session.Act) : Quiet H tree (x.act H a) := by
  cases a with
  | halt s =>
    refine ⟨hq.main, hq.other.imp id (And.imp id fun ht => ?_)⟩
    cases s with
    | main => exact ht
    | other => exact .inl (stop_started _)
  | deliver s =>
    cases s with
    | main =>
      rw [Session.act, Session.deliver, hq.main]
      exact hq
    | other =>
      rcases hq.other with hnil | ⟨hinbox, ht⟩
      · rw [Session.act, Session.deliver, hnil]
        exact hq
      have hsent : sent ((x.party .other).handleResponse H Side.main.id
          (rootEvent H tree)).2.2 = [] := by
        rcases ht with hstopped | hbegun
        · simp [handleResponse, hstopped, sent]
        · obtain ⟨t', -, hrun⟩ := hbegun.handle_root hroot hleaf hdiffs
          rw [hrun]
          rfl
      refine ⟨?_, .inl (Session.deliver_inbox_self hinbox)⟩
      refine (Session.deliver_inbox_opp hinbox).trans ?_
      change x.inbox .main ++ sent ((x.party .other).handleResponse H Side.main.id _).2.2 = []
      rw [hq.main, hsent]
      rfl

theorem Quiet.run {x : Session} (hq : Quiet H tree x)
    (hroot : (tree .main).hash H ≠ (tree .other).hash H) (hleaf : (tree .other).isLeaf = false)
    (hdiffs : discoverDiffs H (tree .other) [] 0 ((tree .main).childHashes H) [] =
      (some [], [])) (acts : List Session.Act) : Quiet H tree (x.run H acts) := by
  induction acts generalizing x with
  | nil => exact hq
  | cons a acts ih => exact ih (hq.act hroot hleaf hdiffs a)

theorem Begun.good {x : Session} {d : UInt8} (hbegun : ∀ s, Begun tree s (x.party s))
    (hmain : x.inbox .main = []) (hother : x.inbox .other = [rootEvent H tree])
    (hroot : (tree .main).hash H ≠ (tree .other).hash H) (hleaf : (tree .other).isLeaf = false)
    (hchild : ∀ s, child (tree s) d = some c)
    (hdiffs : discoverDiffs H (tree .other) [] 0 ((tree .main).childHashes H) [] =
      (some [(c, [d])], [d])) : Good H tree d c (x.deliver H .other) ∧
      Announced H d [] c ((x.deliver H .other).inbox .main) := by
  have hfresh : ∀ s t, Begun tree s t → ∀ e, 0 ≤ cmpWithEndPath e (d :: c.lastPath) →
      PartyOk (tree s) s.opp.id d c { t with endNodePath := e } := by
    intro s t ht e he
    refine ⟨ht.started, ht.tree_eq, ht.peer_eq, he, fun i hi => ?_⟩
    rw [ht.diffNode] at hi
    cases hi
  obtain ⟨t', ht', hrun⟩ := (hbegun .other).handle_root hroot hleaf hdiffs
  have hend : 0 ≤ cmpWithEndPath [d] (d :: c.lastPath) := by
    rw [cmpWithEndPath_cons]
    exact (Node.At.here c).le_lastPath
  have hsub : ∀ m ph, (m, ph) ∈ [(c, [d])] → ∃ q, ph = d :: q ∧ Node.At c q m := by
    intro m ph hm
    cases mem_singleton.mp hm
    exact ⟨[], rfl, .here _⟩
  obtain ⟨hparty, hevs, hann⟩ := (hfresh .other t' ht' [d] hend).sendDiffs (H := H) hsub
  have hinbox : (x.deliver H .other).inbox .main =
      sent (sendDiffs H { t' with endNodePath := [d] } [(c, [d])]).2 := by
    refine (Session.deliver_inbox_opp hother).trans ?_
    change x.inbox .main ++ sent ((x.party .other).handleResponse H Side.main.id _).2.2 = _
    rw [hmain, hrun]
    rfl
  refine ⟨⟨hchild, fun s => ?_, fun s ev hev => ?_⟩, ?_⟩
  · rw [Session.deliver_party hother]
    cases s with
    | main =>
      have hok := hfresh .main _ (hbegun .main) [] (by simp [cmpWithEndPath])
      rw [← (hbegun .main).endNodePath] at hok
      exact hok
    | other =>
      rw [Function.update_self]
      change PartyOk _ _ d c ((x.party .other).handleResponse H Side.main.id _).2.1
      rw [hrun]
      exact hparty
  · cases s with
    | main =>
      rw [hinbox] at hev
      exact hevs ev hev
    | other =>
      rw [Session.deliver_inbox_self hother] at hev
      cases hev
  · rw [hinbox]
    exact hann c [] (.head _) rfl

/-- A comparison that ends has found exactly what differs if and only if no child of the root is the
same in both trees. -/
theorem comparesExactly_iff (htree : ∀ s, ofChains H (chains s) = some (tree s))
    (hlen : (chains .main).length = (chains .other).length)
    (hroot : (tree .main).hash H ≠ (tree .other).hash H)
    (hinj : Node.HashInjective H (tree .main) (tree .other)) :
    ComparesExactly H chains tree ↔ NoEqualChild H (tree .main) (tree .other) := by
  have hleaf := isLeaf_of_ofChains (htree .other)
  have hshape : (tree .main).map Leaf.index = (tree .other).map Leaf.index := by
    have hmain := ofChains_index (htree .main)
    rw [hlen, ofChains_index (htree .other)] at hmain
    exact (Option.some.inj hmain).symm
  obtain ⟨hbegun, hmain, hother⟩ := start_spec htree hlen hroot
  constructor
  · intro hexact
    by_contra hno
    obtain ⟨d, c, hchildm, hchildo, hdiffs⟩ := exists_common_child hshape hinj hroot hno
    have hchild : ∀ s, child (tree s) d = some c := by
      intro s
      cases s with
      | main => exact hchildm
      | other => exact hchildo
    obtain ⟨hgood, hann⟩ := Begun.good hbegun hmain hother hroot hleaf hchild hdiffs
    obtain ⟨acts, s, data, rest, hgood', hhead⟩ := hgood.ends (.here c) rfl hann
    have hfound := hexact (.deliver .other :: acts) s _ _ data rest rfl (hgood'.party s).started
      hhead
    -- what is noted does not differ, and something differs
    obtain ⟨i, hi⟩ := exists_mem_of_ne_nil _ (differing_ne_nil htree hlen hroot)
    have hnoted := (hgood'.party s).noted i (hfound.noted.mem_iff.mpr hi)
    exact notMem_differing htree hchild hnoted hi
  · intro hno acts s x status data rest hrun hstarted hinbox
    have hquiet : Quiet H tree x := by
      rw [← hrun]
      exact Quiet.run ⟨hmain, .inr ⟨hother, .inr (hbegun .other)⟩⟩ hroot hleaf
        (hno.discoverDiffs hshape) acts
    cases s with
    | main =>
      rw [hquiet.main] at hinbox
      cases hinbox
    | other =>
      rcases hquiet.other with hnil | ⟨hroot', -⟩
      · rw [hnil] at hinbox
        cases hinbox
      · rw [hroot'] at hinbox
        cases hinbox

end Result

def twoLeaves (c₀ c₁ : ChainStatus) : Node :=
  .two (.leaf ⟨Content.hash fnv32 c₀, 0⟩) (.leaf ⟨Content.hash fnv32 c₁, 1⟩)

theorem comparesExactly_bothDiffer : ComparesExactly fnv32
      (fun
        | .main => [⟨⟨1⟩, 7, 0⟩, ⟨⟨2⟩, 5, 1⟩]
        | .other => [⟨⟨1⟩, 6, 0⟩, ⟨⟨2⟩, 9, 1⟩])
      (fun
        | .main => twoLeaves ⟨⟨1⟩, 7, 0⟩ ⟨⟨2⟩, 5, 1⟩
        | .other => twoLeaves ⟨⟨1⟩, 6, 0⟩ ⟨⟨2⟩, 9, 1⟩) ↔
      NoEqualChild fnv32 (twoLeaves ⟨⟨1⟩, 7, 0⟩ ⟨⟨2⟩, 5, 1⟩)
        (twoLeaves ⟨⟨1⟩, 6, 0⟩ ⟨⟨2⟩, 9, 1⟩) := by
  refine comparesExactly_iff (fun s => ?_) rfl (by decide +kernel) (by decide +kernel)
  cases s <;> rfl

/-- The nodes agree on the first chain only: it is noted, and the higher number of the second is not
sent. -/
theorem equalChain_noted : let chains : Side → List ChainStatus := fun
      | .main => [⟨⟨1⟩, 7, 0⟩, ⟨⟨2⟩, 5, 1⟩]
      | .other => [⟨⟨1⟩, 7, 0⟩, ⟨⟨2⟩, 9, 1⟩]
    let tree : Side → Node := fun
      | .main => twoLeaves ⟨⟨1⟩, 7, 0⟩ ⟨⟨2⟩, 5, 1⟩
      | .other => twoLeaves ⟨⟨1⟩, 7, 0⟩ ⟨⟨2⟩, 9, 1⟩
    (∀ s, ofChains fnv32 (chains s) = some (tree s)) ∧
      (tree .main).hash fnv32 ≠ (tree .other).hash fnv32 ∧
      Node.HashInjective fnv32 (tree .main) (tree .other) ∧
      ¬ ComparesExactly fnv32 chains tree := by
  refine ⟨fun s => ?_, by decide +kernel, by decide +kernel, fun hexact => ?_⟩
  · cases s <;> rfl
  · have hfound := hexact [.deliver .other, .deliver .main] .main _ .zero [⟨⟨1⟩, 7, 0⟩] [] rfl
      (by decide +kernel) (by decide +kernel)
    have hnoted := hfound.noted
    revert hnoted
    decide +kernel

end Nerthus.Realtime
