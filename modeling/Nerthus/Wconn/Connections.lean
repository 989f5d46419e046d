import Nerthus.Wconn.Control

/-!
# Who decides where a witness is reached, and the channel of `listenConn`

A handshake names the witness it comes from and brings a signature, which is never
checked; all other nodes are signed by their witness. And `listenConn` may find its
own channel full.
-/

namespace Nerthus.Wconn

open Lib System List

variable {env : Env} {c c' : Control} {node : WitnessNode} {old : Option WitnessNode}

def Env.Signed (env : Env) (node : WitnessNode) : Prop := env.signer node = some node.witness
deriving Decidable

theorem signed_of_decrypt {data : Bytes} (h : env.decryptConnectInfo data = some node) :
    env.Signed node := by
  rw [Env.decryptConnectInfo, Option.filter_eq_some_iff, decide_eq_true_iff] at h
  exact h.2

theorem signed_knownNodes {entries : List EncryptData} (h : node ∈ Control.knownNodes env entries) :
    env.Signed node := by
  induction entries with
  | nil => cases h
  | cons anther rest ih =>
    rw [Control.knownNodes] at h
    split at h
    · cases h
    split at h
    · cases h
    · next n hdecrypt =>
      rcases mem_cons.mp h with rfl | h
      · exact signed_of_decrypt hdecrypt
      · exact ih h

/-! ## What is held -/

namespace Control

theorem heldNode_store (c : Control) (info : WitnessInfo) (w : Address) :
    (c.store info).heldNode w = if w = info.witness then info.nodeInfo else c.heldNode w := by
  rw [heldNode, store, Keyed.get_put]
  split
  · rfl
  · rfl

theorem heldNode_setStatus {a : Address} {info : WitnessInfo}
    (hget : c.witnessGroup.get a = some info) (status : WitnessNodeStatus) (w : Address) :
    (c.store (info.setStatus status)).heldNode w = c.heldNode w := by
  have hinfo : (info.setStatus status).witness = a ∧
      (info.setStatus status).nodeInfo = info.nodeInfo := by
    unfold WitnessInfo.setStatus
    split <;> exact ⟨(Keyed.get_eq_some_iff.mp hget).2, rfl⟩
  rw [heldNode_store, hinfo.1, hinfo.2]
  split
  · next heq => rw [heq, heldNode, hget, Option.bind_some]
  · rfl

theorem heldNode_joinWitnessNode (c : Control) (node : WitnessNode) (w : Address) :
    (c.joinWitnessNode node).heldNode w = c.heldNode w := by
  unfold joinWitnessNode
  split
  · rfl
  split
  · rfl
  · next hget => exact heldNode_setStatus hget _ w

theorem heldNode_tryConnect (c : Control) (node : WitnessNode) (old : Option WitnessNode)
    (w : Address) : (c.tryConnect node old).heldNode w =
      if w = node.witness ∧ (c.witnessGroup.get w).isSome then some node else c.heldNode w := by
  have hleft : (old.elim c (c.leave node)).witnessGroup = c.witnessGroup := by
    cases old with
    | none => rfl
    | some old =>
      simp only [Option.elim, leave]
      split <;> rfl
  have hheld : (old.elim c (c.leave node)).heldNode w = c.heldNode w := by
    rw [heldNode, hleft, heldNode]
  unfold tryConnect
  dsimp only
  rw [← hleft]
  split
  · next hnone =>
    rw [hheld, if_neg]
    rintro ⟨rfl, hsome⟩
    rw [hnone] at hsome
    cases hsome
  · next info hget =>
    have hwitness := (Keyed.get_eq_some_iff.mp hget).2
    have hstored : ((old.elim c (c.leave node)).store { info with nodeInfo := some node }).heldNode w =
        if w = node.witness ∧ ((old.elim c (c.leave node)).witnessGroup.get w).isSome
          then some node else c.heldNode w := by
      rw [heldNode_store, hheld]
      by_cases heq : w = node.witness
      · rw [if_pos (heq.trans hwitness.symm), if_pos ⟨heq, by rw [heq, hget]; rfl⟩]
      · rw [if_neg fun h => heq (h.trans hwitness), if_neg fun h => heq h.1]
    split
    · exact (heldNode_joinWitnessNode _ _ _).trans hstored
    · refine (heldNode_setStatus (a := node.witness) ?_ _ w).trans hstored
      rw [store, Keyed.get_put, if_pos hwitness.symm]

theorem heldNode_updateNode (c : Control) (node : WitnessNode) (old : Option WitnessNode)
    (w : Address) : (c.updateNode node old).heldNode w =
      if w = node.witness ∧ (c.witnessGroup.get w).isSome then some node else c.heldNode w := by
  unfold updateNode
  dsimp only
  rw [heldNode_tryConnect]
  split <;> rfl

def Keeps (c c' : Control) : Prop := ∀ w, (c.heldNode w).isSome → (c'.heldNode w).isSome

theorem keeps_of_heldNode {P : Address → Prop} [DecidablePred P]
    (h : ∀ w, c'.heldNode w = if P w then some node else c.heldNode w) : c.Keeps c' := by
  intro w hw
  rw [h]
  split
  · rfl
  · exact hw

theorem keeps_tryConnect (c : Control) (node : WitnessNode) (old : Option WitnessNode) :
    c.Keeps (c.tryConnect node old) :=
  keeps_of_heldNode (c.heldNode_tryConnect node old)

theorem keeps_updateNode (c : Control) (node : WitnessNode) (old : Option WitnessNode) :
    c.Keeps (c.updateNode node old) :=
  keeps_of_heldNode (c.heldNode_updateNode node old)

/-- A node that is accepted changes nothing, takes the place of what is held, or is the same. -/
theorem processWitnessNodeInfo_cases {ignoreOld : Bool}
    (hok : c.processWitnessNodeInfo env node ignoreOld = .ok c') :
    c' = c ∨ c' = c.updateNode node (c.heldNode node.witness) ∨
      ∃ old, c.heldNode node.witness = some old ∧ env.compareNodeInfo old node = .ok .eq ∧
        c' = c.tryConnect node none := by
  simp only [processWitnessNodeInfo, guard_eq_ok_iff] at hok
  obtain ⟨-, -, -, hok⟩ := hok
  split at hok
  · cases hok
    exact .inl rfl
  split at hok
  · cases hok
  next info hget =>
  have hheld : c.heldNode node.witness = info.nodeInfo := by rw [heldNode, hget, Option.bind_some]
  rw [hheld]
  split at hok
  · next hnone =>
    cases hok
    rw [hnone]
    exact .inr (.inl rfl)
  next old hsome =>
  rw [hsome]
  obtain ⟨order, horder, hok⟩ := bind_eq_ok_iff.mp hok
  cases order with
  | eq =>
    cases hok
    exact .inr (.inr ⟨old, rfl, horder, rfl⟩)
  | gt =>
    cases hok
    exact .inr (.inl rfl)
  | lt =>
    cases hok
    split
    · exact .inr (.inl rfl)
    · exact .inl rfl

theorem keeps_processWitnessNodeInfo {ignoreOld : Bool}
    (hok : c.processWitnessNodeInfo env node ignoreOld = .ok c') : c.Keeps c' := by
  rcases processWitnessNodeInfo_cases hok with rfl | rfl | ⟨old, -, -, rfl⟩
  · exact fun _ hw => hw
  · exact c.keeps_updateNode _ _
  · exact c.keeps_tryConnect _ _

theorem processConnectInfo_spec (env : Env) (c : Control) (w : Address) (msg : WitnessConnectMsg) :
    (∃ infos, (c.processConnectInfo env w msg).1 = { c with connectInfos := infos }) ∧
      ∀ n, (c.processConnectInfo env w msg).2 = .ok (some n) → env.Signed n := by
  unfold processConnectInfo
  split
  · exact ⟨⟨_, rfl⟩, nofun⟩
  split
  · exact ⟨⟨_, rfl⟩, nofun⟩
  split
  · exact ⟨⟨_, rfl⟩, nofun⟩
  · next n hdecrypt =>
    refine ⟨⟨_, rfl⟩, fun m hm => ?_⟩
    cases hm
    exact signed_of_decrypt hdecrypt

theorem handleStatusMsg_spec (env : Env) (c : Control) (msg : WitnessConnectMsg) :
    (∃ infos, (c.handleStatusMsg env msg).1 = { c with connectInfos := infos }) ∧
      ∀ n ∈ (c.handleStatusMsg env msg).2, env.Signed n := by
  unfold handleStatusMsg
  split
  · exact ⟨⟨_, rfl⟩, nofun⟩
  split
  · exact ⟨⟨_, rfl⟩, nofun⟩
  split
  · exact ⟨⟨_, rfl⟩, nofun⟩
  split
  · exact ⟨⟨_, rfl⟩, nofun⟩
  split
  · exact ⟨⟨_, rfl⟩, nofun⟩
  · next sender _ _ _ _ _ _ _ =>
    obtain ⟨⟨infos, hinfos⟩, hsigned⟩ := c.processConnectInfo_spec env sender msg
    cases hresult : c.processConnectInfo env sender msg with
    | mk c₁ result =>
      rw [hresult] at hinfos hsigned
      cases hinfos
      cases result with
      | error err => exact ⟨⟨infos, rfl⟩, nofun⟩
      | ok found =>
        refine ⟨⟨_, rfl⟩, fun n hn => hsigned n ?_⟩
        rw [Option.mem_toList] at hn
        rw [Option.mem_def.mp hn]

theorem keeps_handleShakeMsg (env : Env) (c : Control) (pid : NodeID) (msg : ShakeMsg) :
    c.Keeps (c.handleShakeMsg env pid msg).1 := by
  unfold handleShakeMsg
  split
  · exact fun _ hw => hw
  split
  · exact fun _ hw => hw
  split
  · exact fun _ hw => hw
  · next hok =>
    split
    · exact keeps_processWitnessNodeInfo hok
    · exact keeps_processWitnessNodeInfo hok

/-- The timer branch uses the node that is held, and sends only if there is none. -/
theorem checkWitness_cases (env : Env) (c : Control) (w : Address) :
    (∃ node, c.heldNode w = some node ∧ (c.checkWitness env w = (c, none) ∨
      c.checkWitness env w = (c.tryConnect node none, none) ∨
        c.checkWitness env w = (c.joinWitnessNode node, none))) ∨
    c.heldNode w = none ∧
      (∃ infos, (c.checkWitness env w).1 = { c with connectInfos := infos }) ∧
        ∀ n ∈ (c.checkWitness env w).2, env.Signed n := by
  unfold checkWitness
  split
  · next hget => exact .inr ⟨by rw [heldNode, hget, Option.bind_none], ⟨_, rfl⟩, nofun⟩
  · next info hget =>
    have hheld : c.heldNode w = info.nodeInfo := by rw [heldNode, hget, Option.bind_some]
    split
    · next node hnode _ => exact .inl ⟨node, hheld.trans hnode, .inr (.inl rfl)⟩
    · next node hnode _ => exact .inl ⟨node, hheld.trans hnode, .inr (.inr rfl)⟩
    · next hnode _ _ => exact .inl ⟨_, hheld.trans hnode, .inl rfl⟩
    · next hnone =>
      refine .inr ⟨hheld.trans hnone, ?_⟩
      split
      · exact ⟨⟨_, rfl⟩, nofun⟩
      · next msg _ =>
        obtain ⟨⟨infos, hinfos⟩, hsigned⟩ := c.processConnectInfo_spec env w msg
        cases hresult : c.processConnectInfo env w msg with
        | mk c₁ result =>
          rw [hresult] at hinfos hsigned
          cases hinfos
          cases result with
          | error err => exact ⟨⟨infos, rfl⟩, nofun⟩
          | ok found => exact ⟨⟨infos, rfl⟩, fun n hn => hsigned n (congrArg Except.ok hn)⟩

theorem keeps_checkWitness (env : Env) (c : Control) (w : Address) :
    c.Keeps (c.checkWitness env w).1 := by
  rcases c.checkWitness_cases env w with ⟨node, -, h | h | h⟩ | ⟨-, ⟨infos, h⟩, -⟩
  · rw [h]
    exact fun _ hv => hv
  · rw [h]
    exact c.keeps_tryConnect _ _
  · rw [h]
    exact fun v hv => by rwa [heldNode_joinWitnessNode]
  · rw [h]
    exact fun _ hv => hv

end Control

theorem Env.id_of_compareNodeInfo (env : Env) {a b : WitnessNode} (hwitness : a.witness = b.witness)
    (h : env.compareNodeInfo a b = .ok .eq) : a.enode.id = b.enode.id := by
  unfold compareNodeInfo at h
  split at h
  · next hversion =>
    split at h
    · cases h
    · next heq =>
      rw [hversion, hwitness, not_not] at heq
      exact env.hash_id _ _ _ _ heq
  split at h
  · cases h
  · cases h

/-! ## Signatures -/

/-- What is held about the other witnesses is signed by them, and they are reached where it says. -/
structure Genuine (env : Env) (c : Control) : Prop where
  held : ∀ w node, c.heldNode w = some node → node.witness = w ∧ env.Signed node
  stored : ∀ w node, w ≠ env.me → c.nodeInfos w = some node → node.witness = w ∧ env.Signed node
  connected : ∀ e ∈ c.connectedWitness.values, ∃ node, c.heldNode e.1 = some node ∧
    node.enode.id = e.2

namespace Genuine

section

variable (h : Genuine env c)
include h

theorem of_heldNode (hheld : ∀ w, c'.heldNode w = c.heldNode w) (hstored : c'.nodeInfos = c.nodeInfos)
    (hconnected : ∀ e ∈ c'.connectedWitness.values, e ∈ c.connectedWitness.values) :
    Genuine env c' := by
  refine ⟨fun w node hnode => h.held w node (hheld w ▸ hnode), hstored ▸ h.stored, fun e he => ?_⟩
  rw [hheld]
  exact h.connected e (hconnected e he)

theorem setStatus {a : Address} {info : WitnessInfo} (hget : c.witnessGroup.get a = some info)
    (status : WitnessNodeStatus) : Genuine env (c.store (info.setStatus status)) :=
  h.of_heldNode (Control.heldNode_setStatus hget status) rfl fun _ he => he

theorem setConnectInfos (infos : Address → Option WitnessConnectMsg) :
    Genuine env { c with connectInfos := infos } :=
  h.of_heldNode (fun _ => rfl) rfl fun _ he => he

theorem setPeers (peers : List NodeID) : Genuine env { c with connectedPeers := peers } :=
  h.of_heldNode (fun _ => rfl) rfl fun _ he => he

theorem joinWitnessNode (hheld : c.heldNode node.witness = some node) :
    Genuine env (c.joinWitnessNode node) := by
  have hjoin := Control.heldNode_joinWitnessNode c node
  refine ⟨fun w n hn => h.held w n (hjoin w ▸ hn), ?_, fun e he => ?_⟩
  · unfold Control.joinWitnessNode
    split
    · exact h.stored
    split
    · exact h.stored
    · exact h.stored
  · rw [hjoin]
    unfold Control.joinWitnessNode at he
    split at he
    · exact h.connected e he
    split at he
    · exact h.connected e he
    rcases Keyed.mem_put.mp he with rfl | ⟨he, -⟩
    · exact ⟨node, hheld, rfl⟩
    · exact h.connected e he

theorem id_of_heldNode {w : Address} {old : WitnessNode} (hheld : c.heldNode w = some old)
    {e : Address × NodeID} (he : e ∈ c.connectedWitness.values) (hw : e.1 = w) :
    e.2 = old.enode.id := by
  obtain ⟨node, hnode, hid⟩ := h.connected e he
  rw [hw, hheld] at hnode
  cases hnode
  exact hid.symm

theorem leave {old : WitnessNode} (hheld : c.heldNode node.witness = some old) :
    Genuine env (c.leave node old) ∧ ∀ e ∈ (c.leave node old).connectedWitness.values,
      e.1 = node.witness → e.2 = node.enode.id := by
  unfold Control.leave
  split
  · next heq => exact ⟨h, fun e he hw => heq ▸ h.id_of_heldNode hheld he hw⟩
  · exact ⟨h.of_heldNode (fun _ => rfl) rfl fun e he => (Keyed.mem_erase.mp he).1,
      fun e he hw => absurd hw (Keyed.mem_erase.mp he).2⟩

theorem store {info : WitnessInfo} (hinfo : node.witness = info.witness) (hnode : env.Signed node)
    (hid : ∀ e ∈ c.connectedWitness.values, e.1 = node.witness → e.2 = node.enode.id) :
    Genuine env (c.store { info with nodeInfo := some node }) := by
  refine ⟨fun w n hn => ?_, h.stored, fun e he => ?_⟩
  · rw [Control.heldNode_store] at hn
    split at hn
    · next heq =>
      cases hn
      exact ⟨hinfo.trans heq.symm, hnode⟩
    · exact h.held w n hn
  · rw [Control.heldNode_store]
    split
    · next heq => exact ⟨node, rfl, (hid e he (heq.trans hinfo.symm)).symm⟩
    · exact h.connected e he

theorem tryConnect (hnode : env.Signed node)
    (hid : ∀ e ∈ c.connectedWitness.values, e.1 = node.witness → e.2 = node.enode.id) :
    Genuine env (c.tryConnect node none) := by
  unfold Control.tryConnect
  dsimp only [Option.elim]
  split
  · exact h
  · next info hget =>
    have hwitness := (Keyed.get_eq_some_iff.mp hget).2
    have hnew : Genuine env { c.store { info with nodeInfo := some node } with
        nodeIds := Function.update c.nodeIds node.enode.id (some info.witness) } :=
      (h.store hwitness.symm hnode hid).of_heldNode (fun _ => rfl) rfl fun _ he => he
    split
    · refine hnew.joinWitnessNode ((Control.heldNode_store _ _ _).trans ?_)
      rw [if_pos hwitness.symm]
    · refine hnew.setStatus (a := node.witness) ?_ _
      rw [Control.store, Keyed.get_put, if_pos hwitness.symm]

theorem updateNode (hnode : env.Signed node) (hheld : c.heldNode node.witness = old) :
    Genuine env (c.updateNode node old) := by
  have hdel : Genuine env (if old.isSome then c.delWitnessConnMsg node.witness else c) := by
    split
    · exact h.setConnectInfos _
    · exact h
  have hwritten : Genuine env { (if old.isSome then c.delWitnessConnMsg node.witness else c) with
      nodeInfos := Function.update
        (if old.isSome then c.delWitnessConnMsg node.witness else c).nodeInfos
        node.witness (some node) } := by
    refine ⟨hdel.held, fun w n hw hn => ?_, hdel.connected⟩
    dsimp only at hn
    by_cases hwn : w = node.witness
    · rw [hwn, Function.update_self] at hn
      cases hn
      exact ⟨hwn.symm, hnode⟩
    · rw [Function.update_of_ne hwn] at hn
      exact hdel.stored w n hw hn
  cases old with
  | none =>
    refine hwritten.tryConnect hnode fun e he hw => ?_
    obtain ⟨n, hn, -⟩ := h.connected e he
    rw [hw, hheld] at hn
    cases hn
  | some old =>
    obtain ⟨hleft, hid⟩ := hwritten.leave hheld
    exact hleft.tryConnect hnode hid

theorem processWitnessNodeInfo (hnode : env.Signed node) {ignoreOld : Bool}
    (hok : c.processWitnessNodeInfo env node ignoreOld = .ok c') : Genuine env c' := by
  rcases Control.processWitnessNodeInfo_cases hok with rfl | rfl | ⟨old, hheld, heq, rfl⟩
  · exact h
  · exact h.updateNode hnode rfl
  · refine h.tryConnect hnode fun e he hw => (h.id_of_heldNode hheld he hw).trans ?_
    exact env.id_of_compareNodeInfo (h.held _ _ hheld).1 heq

end

end Genuine

section

variable (h : Genuine env c)
include h

theorem Genuine.handleShakeMsg (pid : NodeID) {msg : ShakeMsg}
    (hmine : ∀ mine ∈ msg.mine, env.Signed mine) : Genuine env (c.handleShakeMsg env pid msg).1 ∧
      ∀ n ∈ (c.handleShakeMsg env pid msg).2, env.Signed n := by
  unfold Control.handleShakeMsg
  split
  · exact ⟨h, nofun⟩
  · next mine hsome =>
    split
    · exact ⟨h, nofun⟩
    split
    · exact ⟨h, nofun⟩
    · next c₁ hok =>
      have hnew := h.processWitnessNodeInfo (hmine mine hsome) hok
      split
      · exact ⟨hnew, nofun⟩
      · exact ⟨hnew, fun n hn => signed_knownNodes hn⟩

theorem Genuine.shake {a : Address} {w : WitnessInfo} (hw : c.witnessGroup.get a = some w) :
    Genuine env (c.shake w) := by
  have hnew := h.setStatus hw .netConnected
  unfold Control.shake
  dsimp only
  split
  · exact hnew
  split
  · split
    · exact hnew
    · exact hnew.setConnectInfos _
  · exact hnew

theorem Genuine.onConnected (pid : NodeID) : Genuine env (c.onConnected pid) := by
  unfold Control.onConnected
  split
  · exact h
  · next w hw =>
    obtain ⟨a, -, hget⟩ := Option.bind_eq_some_iff.mp hw
    exact h.shake hget

theorem Genuine.onDisconnected (pid : NodeID) : Genuine env (c.onDisconnected pid) := by
  unfold Control.onDisconnected
  split
  · exact h
  · next w hw =>
    obtain ⟨a, -, hget⟩ := Option.bind_eq_some_iff.mp hw
    exact (h.setStatus hget _).of_heldNode (fun _ => rfl) rfl
      fun e he => (Keyed.mem_erase.mp he).1

theorem Genuine.checkWitness (w : Address) :
    Genuine env (c.checkWitness env w).1 ∧ ∀ n ∈ (c.checkWitness env w).2, env.Signed n := by
  rcases c.checkWitness_cases env w with ⟨node, hw, hcheck⟩ | ⟨-, ⟨infos, hinfos⟩, hsigned⟩
  · obtain ⟨hwitness, hnode⟩ := h.held w node hw
    rw [← hwitness] at hw
    rcases hcheck with hcheck | hcheck | hcheck
    · rw [hcheck]
      exact ⟨h, nofun⟩
    · rw [hcheck]
      exact ⟨h.tryConnect hnode fun e he => h.id_of_heldNode hw he, nofun⟩
    · rw [hcheck]
      exact ⟨h.joinWitnessNode hw, nofun⟩
  · rw [hinfos]
    exact ⟨h.setConnectInfos _, hsigned⟩

end

namespace System

variable {s s' : System} {e : Event}

structure Genuine (env : Env) (s : System) : Prop where
  control : Wconn.Genuine env s.control
  queued : ∀ node ∈ s.newConnInfoCh, env.Signed node
  sending : ∀ node ∈ s.sending, env.Signed node

def ShakeSigned (env : Env) (_ : System) : Event → Prop
  | .shakeMsg _ msg => ∀ mine ∈ msg.mine, env.Signed mine
  | _ => True

instance (env : Env) (s : System) (e : Event) : Decidable (ShakeSigned env s e) := by
  cases e <;> unfold ShakeSigned <;> infer_instance

theorem Genuine.step (h : Genuine env s) (hsigned : ShakeSigned env s e)
    (hstep : s.step env e = some s') : Genuine env s' := by
  have happend : ∀ {ns ms : List WitnessNode}, (∀ n ∈ ns, env.Signed n) →
      (∀ n ∈ ms, env.Signed n) → ∀ n ∈ ns ++ ms, env.Signed n := fun hns hms n hn =>
    (mem_append.mp hn).elim (hns n) (hms n)
  cases e with
  | shakeMsg pid msg =>
    cases hstep
    have hshake := h.control.handleShakeMsg pid hsigned
    exact ⟨hshake.1, h.queued, happend h.sending hshake.2⟩
  | statusMsg msg =>
    cases hstep
    obtain ⟨⟨infos, hinfos⟩, hsigned⟩ := s.control.handleStatusMsg_spec env msg
    exact ⟨hinfos ▸ h.control.setConnectInfos infos, h.queued, happend h.sending hsigned⟩
  | send i =>
    rw [step] at hstep
    split at hstep
    · cases hstep
    split at hstep
    · next node hnode _ =>
      cases hstep
      have hsent : ∀ n ∈ [node], env.Signed n := fun n hn =>
        mem_singleton.mp hn ▸ h.sending node (mem_of_getElem? hnode)
      exact ⟨h.control, happend h.queued hsent,
        fun n hn => h.sending n ((eraseIdx_sublist _ _).subset hn)⟩
    · cases hstep
  | addPeer pid | dropPeer pid =>
    cases hstep
    exact ⟨h.control.setPeers _, h.queued, h.sending⟩
  | connected pid =>
    rw [step] at hstep
    split at hstep
    · cases hstep
      exact ⟨h.control.onConnected pid, h.queued, h.sending⟩
    · cases hstep
  | disconnected pid =>
    rw [step] at hstep
    split at hstep
    · cases hstep
      exact ⟨h.control.onDisconnected pid, h.queued, h.sending⟩
    · cases hstep
  | tick =>
    rw [step] at hstep
    split at hstep
    · cases hstep
      exact ⟨h.control, h.queued, h.sending⟩
    · cases hstep
  | check =>
    rw [step] at hstep
    split at hstep
    · cases hstep
    · next w rest _ =>
      have hcheck := h.control.checkWitness w
      cases hresult : s.control.checkWitness env w with
      | mk c₁ found =>
        rw [hresult] at hcheck hstep
        cases found with
        | none =>
          cases hstep
          exact ⟨hcheck.1, h.queued, h.sending⟩
        | some node =>
          dsimp only at hstep
          split at hstep
          · cases hstep
            refine ⟨hcheck.1, happend h.queued fun n hn => ?_, h.sending⟩
            exact mem_singleton.mp hn ▸ hcheck.2 node rfl
          · cases hstep
  | receive =>
    rw [step] at hstep
    split at hstep
    · next node rest _ hch =>
      cases hstep
      have hqueued := h.queued
      rw [hch] at hqueued
      refine ⟨?_, fun n hn => hqueued n (.tail _ hn), h.sending⟩
      cases hresult : s.control.processWitnessNodeInfo env node false with
      | error err => exact h.control
      | ok c₁ =>
        exact h.control.processWitnessNodeInfo (hqueued node (.head _)) hresult
    · cases hstep

/-- As long as every handshake is signed by the witness it names, only a witness decides where it is
reached. -/
theorem reached_where_signed {s₀ : System} (h₀ : Genuine env s₀)
    (h : Reaches (step env) (ShakeSigned env) s₀ s) : Wconn.Genuine env s.control :=
  (h.invariant h₀ fun _ _ _ ht hsigned hstep => ht.step hsigned hstep).control

/-! ## The channel -/

/-- How many of the witnesses have no node that is held: the timer branch may send for them. -/
def unknown (c : Control) (ws : List Address) : Nat := ws.countP fun w => (c.heldNode w).isNone

theorem unknown_le (h : c.Keeps c') (ws : List Address) : unknown c' ws ≤ unknown c ws := by
  refine countP_mono_left fun w _ hnone => ?_
  cases hheld : c.heldNode w with
  | none => rfl
  | some node =>
    have hsome := h w (by rw [hheld]; rfl)
    rw [Option.isNone_iff_eq_none.mp hnone] at hsome
    cases hsome

theorem unknown_cons (c : Control) (w : Address) (rest : List Address) :
    unknown c (w :: rest) = unknown c [w] + unknown c rest :=
  @countP_append _ _ [w] rest

def Roomy (s : System) : Event → Prop
  | .send _ => s.newConnInfoCh.length + unknown s.control s.todo < chanCap
  | .tick => s.newConnInfoCh.length +
      unknown s.control (s.control.witnessGroup.values.map WitnessInfo.witness) ≤ chanCap
  | _ => True

instance (s : System) (e : Event) : Decidable (s.Roomy e) := by
  cases e <;> unfold Roomy <;> infer_instance

def OfLoop (_ : System) : Event → Prop
  | .check | .receive => True
  | _ => False

theorem unknown_of_sends {w : Address} (h : (s.control.checkWitness env w).2.isSome) :
    unknown s.control [w] = 1 := by
  rw [unknown, countP_singleton, if_pos]
  rcases s.control.checkWitness_cases env w with ⟨node, -, hcheck | hcheck | hcheck⟩ | ⟨hnone, -⟩
  · rw [hcheck] at h
    cases h
  · rw [hcheck] at h
    cases h
  · rw [hcheck] at h
    cases h
  · rw [hnone]
    rfl

theorem step_check (env : Env) {w : Address} {rest : List Address} (htodo : s.todo = w :: rest)
    (hroom : s.newConnInfoCh.length + unknown s.control [w] ≤ chanCap) :
    ∃ c sent, s.control.Keeps c ∧ sent.length ≤ unknown s.control [w] ∧
      s.step env .check = some { s with
        control := c, todo := rest, newConnInfoCh := s.newConnInfoCh ++ sent } := by
  have hkeeps := s.control.keeps_checkWitness env w
  have hsends := @unknown_of_sends env s w
  simp only [step, htodo]
  cases hresult : s.control.checkWitness env w with
  | mk c found =>
    rw [hresult] at hkeeps hsends
    cases found with
    | none => exact ⟨c, [], hkeeps, Nat.zero_le _, by rw [append_nil]⟩
    | some node =>
      have hone := hsends rfl
      exact ⟨c, [node], hkeeps, hone.ge, if_pos (by omega)⟩

/-- The timer branch never has more to send than the channel has room for. -/
def Fits (s : System) : Prop :=
  s.todo ≠ [] → s.newConnInfoCh.length + unknown s.control s.todo ≤ chanCap

theorem Fits.of_keeps (h : s.Fits) (hkeeps : s.control.Keeps c) (sending : List WitnessNode) :
    Fits { s with control := c, sending := sending } := fun hne =>
  (Nat.add_le_add_left (unknown_le hkeeps s.todo) _).trans (h hne)

theorem Fits.check (h : s.Fits) (env : Env) {w : Address} {rest : List Address}
    (htodo : s.todo = w :: rest) : ∃ c sent, s.step env .check = some { s with
      control := c, todo := rest, newConnInfoCh := s.newConnInfoCh ++ sent } ∧
      Fits { s with control := c, todo := rest, newConnInfoCh := s.newConnInfoCh ++ sent } := by
  have hfits := h (by rw [htodo]; exact cons_ne_nil _ _)
  rw [htodo, unknown_cons] at hfits
  obtain ⟨c, sent, hkeeps, hsent, hcheck⟩ := step_check env htodo (by omega)
  have hrest := unknown_le hkeeps rest
  refine ⟨c, sent, hcheck, fun _ => ?_⟩
  dsimp only
  rw [length_append]
  omega

theorem Fits.step (h : s.Fits) (hroomy : s.Roomy e) (hstep : s.step env e = some s') : s'.Fits := by
  cases e with
  | shakeMsg pid msg =>
    cases hstep
    exact h.of_keeps (s.control.keeps_handleShakeMsg env pid msg) _
  | statusMsg msg =>
    cases hstep
    obtain ⟨⟨infos, hinfos⟩, -⟩ := s.control.handleStatusMsg_spec env msg
    have hkeeps : s.control.Keeps (s.control.handleStatusMsg env msg).1 := fun w hw => by
      rw [hinfos]
      exact hw
    exact h.of_keeps hkeeps _
  | send i =>
    rw [step] at hstep
    split at hstep
    · cases hstep
    split at hstep
    · cases hstep
      intro _
      dsimp only
      rw [length_append, length_singleton]
      rw [Roomy] at hroomy
      omega
    · cases hstep
  | addPeer pid | dropPeer pid =>
    cases hstep
    exact h
  | connected pid | disconnected pid =>
    rw [step] at hstep
    split at hstep
    · next hnil =>
      cases hstep
      exact fun hne => absurd hnil hne
    · cases hstep
  | tick =>
    rw [step] at hstep
    split at hstep
    · cases hstep
      exact fun _ => hroomy
    · cases hstep
  | check =>
    cases htodo : s.todo with
    | nil =>
      rw [step, htodo] at hstep
      cases hstep
    | cons w rest =>
      obtain ⟨c, sent, hcheck, hfits⟩ := h.check env htodo
      cases hcheck.symm.trans hstep
      exact hfits
  | receive =>
    rw [step] at hstep
    split at hstep
    · next hnil _ =>
      cases hstep
      exact fun hne => absurd hnil hne
    · cases hstep

theorem Fits.ends (env : Env) (h : s.Fits) : ∃ t, Reaches (System.step env) OfLoop s t ∧ t.todo = [] ∧
    s.newConnInfoCh <+: t.newConnInfoCh ∧ t.processed = s.processed := by
  induction htodo : s.todo generalizing s with
  | nil => exact ⟨s, .refl, htodo, prefix_refl _, rfl⟩
  | cons w rest ih =>
    obtain ⟨c, sent, hcheck, hfits⟩ := h.check env htodo
    obtain ⟨t, ht, hdone, hch, hprocessed⟩ := ih hfits rfl
    exact ⟨t, (Reaches.refl.tail trivial hcheck).trans ht, hdone,
      (prefix_append _ _).trans hch, hprocessed⟩

theorem drains (env : Env) (htodo : s.todo = []) : ∃ t, Reaches (step env) OfLoop s t ∧
    t.processed = s.processed ++ s.newConnInfoCh := by
  induction hch : s.newConnInfoCh generalizing s with
  | nil => exact ⟨s, .refl, (append_nil _).symm⟩
  | cons node rest ih =>
    obtain ⟨c, hreceive⟩ : ∃ c, s.step env .receive = some { s with
        control := c, newConnInfoCh := rest, processed := s.processed ++ [node] } := by
      rw [step, htodo, hch]
      exact ⟨_, rfl⟩
    obtain ⟨t, ht, hprocessed⟩ := ih (s := { s with
      control := c, newConnInfoCh := rest, processed := s.processed ++ [node] }) htodo rfl
    refine ⟨t, (Reaches.refl.tail trivial hreceive).trans ht, ?_⟩
    rw [hprocessed, append_assoc]
    rfl

end System

namespace Sample

def witnessEnv : Env where
  me := ⟨1⟩
  group := 3
  signer node := if node.sign = node.witness.hash then some node.witness else none
  msgSigner _ := none
  hash _ e _ := ⟨e.id⟩
  hash_id _ _ _ _ h := Hash.mk.inj h
  decrypt
    | [b] => some ⟨1, ⟨100 + b.toNat, some 9, 30303⟩, ⟨b.toNat⟩, b.toNat⟩
    | _ => none
  getWitnessInfo _ := none

def start : System where
  control := {
    witnessGroup := ⟨(List.range' 2 10).map fun n => ⟨⟨n⟩, none, .unknown⟩, by decide⟩
    nodeIds := fun _ => none
    connectedWitness := .empty
    connectedPeers := []
    nodeInfos := fun _ => none
    connectInfos := fun w => if w = ⟨3⟩ then some ⟨3, 1, [⟨⟨1⟩, [3]⟩], 0⟩ else none }
  newConnInfoCh := []
  sending := []
  todo := []
  processed := []

def shakeBy (sign n : Nat) : Event :=
  .shakeMsg 66 ⟨some ⟨1, ⟨66, some 9, 30303⟩, ⟨2⟩, sign⟩, List.replicate n ⟨⟨1⟩, [4]⟩⟩

theorem genuine_start : System.Genuine witnessEnv start where
  control := {
    held := by
      intro w node hnode
      obtain ⟨info, hinfo, hnode⟩ := Option.bind_eq_some_iff.mp hnode
      obtain ⟨n, -, rfl⟩ := mem_map.mp (Keyed.get_eq_some_iff.mp hinfo).1
      cases hnode
    stored := nofun
    connected := nofun }
  queued := nofun
  sending := nofun

theorem signed_shake_joins : ∃ s : System,
    s.control.connectedWitness.get ⟨2⟩ = some (⟨2⟩, 66) ∧ Genuine witnessEnv s.control := by
  obtain ⟨s, hrun, hpeer⟩ : ∃ s, Reaches (step witnessEnv) (System.ShakeSigned witnessEnv)
      start s ∧ s.control.connectedWitness.get ⟨2⟩ = some (⟨2⟩, 66) :=
    Reaches.exists_of_run [.addPeer 66, shakeBy 2 0] (by decide +kernel)
  exact ⟨s, hpeer, reached_where_signed genuine_start hrun⟩

/-- Peer 66 says that it is witness 2, and takes its place without a signature. -/
theorem forged_shake_joins : ∃ s, Reaches (step witnessEnv) (fun _ _ => True) start s ∧
    s.control.connectedWitness.get ⟨2⟩ = some (⟨2⟩, 66) ∧ ¬Genuine witnessEnv s.control := by
  obtain ⟨s, hrun, hpeer, hstored⟩ : ∃ s, Reaches (step witnessEnv) (fun _ _ => True)
      start s ∧ s.control.connectedWitness.get ⟨2⟩ = some (⟨2⟩, 66) ∧
        s.control.nodeInfos ⟨2⟩ = some ⟨1, ⟨66, some 9, 30303⟩, ⟨2⟩, 0⟩ :=
    Reaches.exists_of_run [.addPeer 66, shakeBy 0 0] (by decide +kernel)
  refine ⟨s, hrun, hpeer, fun hgenuine => ?_⟩
  have hsigned := (hgenuine.stored ⟨2⟩ _ (by decide) hstored).2
  revert hsigned
  decide

end Sample

end Nerthus.Wconn
