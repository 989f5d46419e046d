import Nerthus.Bft.Votes

/-!
# Many nodes and a network

The honest nodes of one chain, each running a core. The network loses, delays, duplicates and
reorders messages, and faulty validators send whatever they can sign: only the signature of an
honest node that has not broadcast the message cannot be delivered.
-/

namespace Nerthus.Bft

open List

/-- A chain with its validators, few of them faulty, and its headers by height. -/
structure Setting where
  config : Config
  chain : Address
  validators : List Address
  faulty : List Address
  headers : Nat → Header
  validators_length : validators.length ≤ 11
  faulty_length : faulty.length ≤ 3

namespace Setting

variable (S : Setting)

def Honest (a : Address) : Prop := a ∈ S.validators ∧ a ∉ S.faulty
deriving Decidable

/-- The backend of an honest node, unless the validators cannot be read. -/
def Serves (b : Backend) : Prop :=
  (b.witnesses = none ∨ b.witnesses = some S.validators) ∧
    b.tailHeader = S.headers b.tailHeader.number
deriving Decidable

end Setting

def Said (nodes : List Core) (m : Message) (s : Address) : Prop :=
  ∃ c ∈ nodes, c.address = s ∧ .broadcast { m with isMe := true } ∈ c.log
deriving Decidable

def Authentic (S : Setting) (nodes : List Core) : Event → Prop
  | .newMessage m =>
    match m.sign with
    | some s => S.Honest s → Said nodes m s
    | none => True
  | _ => True

theorem authentic_newMessage {S : Setting} {nodes : List Core} {m : Message} {s : Address}
    (h : m.sign = some s) : Authentic S nodes (.newMessage m) ↔ (S.Honest s → Said nodes m s) := by
  simp only [Authentic, h]

instance (S : Setting) (nodes : List Core) (ev : Event) : Decidable (Authentic S nodes ev) :=
  match ev with
  | .newMessage m =>
    match h : m.sign with
    | some s => decidable_of_iff (S.Honest s → Said nodes m s) (authentic_newMessage h).symm
    | none => isTrue (by simp [Authentic, h])
  | .newNumber _ => isTrue trivial
  | .newProposal _ => isTrue trivial
  | .newTx => isTrue trivial
  | .newChangeRound _ => isTrue trivial

def stepAt (nodes : List Core) (a : Address) (b : Backend) (ev : Event) : List Core :=
  nodes.map fun c => if c.address = a then c.handleEvent b ev else c

inductive Reach (S : Setting) (P : Core → Backend → Event → Prop) : List Core → Prop where
  | start {nodes : List Core} (hnodup : (nodes.map Core.address).Nodup)
      (hstart : ∀ c ∈ nodes, S.Honest c.address ∧
        ∃ b, S.Serves b ∧ Core.start S.config c.address S.chain b = some c) : Reach S P nodes
  | step {nodes : List Core} (h : Reach S P nodes) {c : Core} (hc : c ∈ nodes) {b : Backend}
      {ev : Event} (hserves : S.Serves b) (hown : ev.Own c.address)
      (hauth : Authentic S nodes ev) (hP : P c b ev) : Reach S P (stepAt nodes c.address b ev)

variable {S : Setting} {P : Core → Backend → Event → Prop} {nodes : List Core}

theorem mem_stepAt {a : Address} {b : Backend} {ev : Event} {c' : Core}
    (h : c' ∈ stepAt nodes a b ev) :
    ∃ c ∈ nodes, c.address = a ∧ c' = c.handleEvent b ev ∨ c.address ≠ a ∧ c' = c := by
  obtain ⟨c, hc, rfl⟩ := mem_map.mp h
  refine ⟨c, hc, ?_⟩
  split
  · rename_i ha
    exact Or.inl ⟨ha, rfl⟩
  · rename_i ha
    exact Or.inr ⟨ha, rfl⟩

theorem handleEvent_mem_stepAt {c : Core} (hc : c ∈ nodes) (b : Backend) (ev : Event) :
    c.handleEvent b ev ∈ stepAt nodes c.address b ev :=
  mem_map.mpr ⟨c, hc, if_pos rfl⟩

theorem stepAt_mem_of_ne {a : Address} {c : Core} (hc : c ∈ nodes) (hne : c.address ≠ a)
    (b : Backend) (ev : Event) : c ∈ stepAt nodes a b ev :=
  mem_map.mpr ⟨c, hc, if_neg hne⟩

structure Nodes (S : Setting) (nodes : List Core) : Prop where
  nodup : (nodes.map Core.address).Nodup
  honest : ∀ c ∈ nodes, S.Honest c.address
  run : ∀ c ∈ nodes, ∃ evs, Run evs c

theorem Nodes.eq_of_address (h : Nodes S nodes) {c c' : Core} (hc : c ∈ nodes) (hc' : c' ∈ nodes)
    (heq : c.address = c'.address) : c = c' :=
  inj_on_of_nodup_map h.nodup hc hc' heq

theorem Nodes.address_eq (h : Nodes S nodes) {c : Core} (hc : c ∈ nodes) (b : Backend)
    {ev : Event} (hown : ev.Own c.address) : (c.handleEvent b ev).address = c.address := by
  obtain ⟨evs, hrun⟩ := h.run c hc
  exact hrun.address_eq b hown

theorem Nodes.step (h : Nodes S nodes) {a : Address} {b : Backend} {ev : Event}
    (hown : ev.Own a) : Nodes S (stepAt nodes a b ev) := by
  have hmoved : ∀ c' ∈ nodes, c'.address = a → ev.Own c'.address := by
    intro c' hc' heq
    rw [heq]
    exact hown
  have haddress : (stepAt nodes a b ev).map Core.address = nodes.map Core.address := by
    unfold stepAt
    rw [map_map]
    refine map_congr_left fun c' hc' => ?_
    rw [Function.comp_apply]
    split
    · rename_i heq
      exact h.address_eq hc' b (hmoved c' hc' heq)
    · rfl
  refine ⟨by rw [haddress]; exact h.nodup, fun c' hc' => ?_, fun c' hc' => ?_⟩
  · obtain ⟨d, hd, ⟨heq, rfl⟩ | ⟨-, rfl⟩⟩ := mem_stepAt hc'
    · rw [h.address_eq hd b (hmoved d hd heq)]
      exact h.honest d hd
    · exact h.honest _ hd
  · obtain ⟨d, hd, ⟨heq, rfl⟩ | ⟨-, rfl⟩⟩ := mem_stepAt hc'
    · obtain ⟨evs, hrun⟩ := h.run d hd
      exact ⟨_, hrun.step b (hmoved d hd heq)⟩
    · exact h.run _ hd

theorem Reach.all_run (h : Reach S P nodes) : Nodes S nodes := by
  induction h with
  | start hnodup hstart =>
    refine ⟨hnodup, fun c hc => (hstart c hc).1, fun c hc => ?_⟩
    obtain ⟨-, b, -, hc⟩ := hstart c hc
    exact ⟨[], .start hc⟩
  | step h hc hserves hown hauth hP ih => exact ih.step hown

def execute (S : Setting) (P : Core → Backend → Event → Prop) [∀ c b ev, Decidable (P c b ev)]
    (b : Backend) : List Core → List (Address × Event) → Option (List Core)
  | nodes, [] => some nodes
  | nodes, (a, ev) :: rest =>
    if (∃ c ∈ nodes, c.address = a ∧ P c b ev) ∧ ev.Own a ∧ Authentic S nodes ev then
      execute S P b (stepAt nodes a b ev) rest
    else none

theorem Reach.execute [∀ c b ev, Decidable (P c b ev)] {b : Backend} (hserves : S.Serves b)
    {evs : List (Address × Event)} {nodes' : List Core} (h : Reach S P nodes)
    (hexec : Bft.execute S P b nodes evs = some nodes') : Reach S P nodes' := by
  induction evs generalizing nodes with
  | nil =>
    cases hexec
    exact h
  | cons e rest ih =>
    obtain ⟨a, ev⟩ := e
    unfold Bft.execute at hexec
    split at hexec
    · rename_i hok
      obtain ⟨⟨c, hc, rfl, hP⟩, hown, hauth⟩ := hok
      exact ih (h.step hc hserves hown hauth hP) hexec
    · cases hexec

def startNodes (S : Setting) (b : Backend) (addresses : List Address) : List Core :=
  (addresses.filter S.Honest).filterMap fun a => Core.start S.config a S.chain b

theorem Reach.startNodes {b : Backend} (hserves : S.Serves b) {addresses : List Address}
    (hnodup : addresses.Nodup) : Reach S P (Bft.startNodes S b addresses) := by
  have hstarted : ∀ c ∈ Bft.startNodes S b addresses,
      c.address ∈ addresses.filter S.Honest ∧
        Core.start S.config c.address S.chain b = some c := by
    intro c hc
    obtain ⟨a, ha, hstart⟩ := mem_filterMap.mp hc
    cases Core.start_address hstart
    exact ⟨ha, hstart⟩
  refine .start (List.Nodup.map_on (fun c hc c' hc' heq => ?_) ?_) fun c hc => ?_
  · have hstart := (hstarted c hc).2
    rw [heq, (hstarted c' hc').2] at hstart
    exact Option.some.inj hstart.symm
  · refine List.Nodup.filterMap (fun a a' c hc hc' => ?_) (hnodup.filter _)
    exact (Core.start_address hc).symm.trans (Core.start_address hc')
  · obtain ⟨ha, hstart⟩ := hstarted c hc
    exact ⟨of_decide_eq_true (mem_filter.mp ha).2, b, hserves, hstart⟩

end Nerthus.Bft
