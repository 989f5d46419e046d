import Nerthus.Core.Commitment

/-!
# Special units

The council brings a dead system chain back with a unit that is proposed with a key everybody
has, so only `verifyArbitrationUnit` decides whether it counts. It looks for the number of a
system unit among the stable units of the chain of the unit, and takes the council from the tail
of the system chain.
-/

namespace Nerthus.Core.Verifier

open Lib

variable {σ : Type} {n m : Verifier σ} {council : UnitHeader → List Address}
  {h parent : UnitHeader} {sign : Bytes} {votes : List WitnessVote}

/-- The tail of the system chain. -/
def scTail (n : Verifier σ) : Option UnitHeader :=
  n.getHeaderByNumber n.env.scAccount (n.tailNumber n.env.scAccount)

/-- A stable unit is found at its own height, and the system chain has a tail. -/
structure Placed (n : Verifier σ) : Prop where
  number {a : Address} {k : Nat} {u : UnitHeader} : n.getHeaderByNumber a k = some u → u.number = k
  tail : ∃ t, n.scTail = some t

def NoneAbove (n : Verifier σ) (h : UnitHeader) : Prop :=
  ∀ p, n.getHeader h.parentHash = some p →
    ∀ x u, n.getHeader x = some u → u.mc = h.mc → u.number ≤ p.number

/-- More than two thirds of the council have signed a unit that follows on the system chain after
the interval. -/
structure Backed (n : Verifier σ) (council : UnitHeader → List Address) (h parent : UnitHeader)
    (votes : List WitnessVote) : Prop where
  onSystemChain : h.mc = n.env.scAccount
  inTime : h.timestamp = parent.timestamp + nanosecondsOf scDeadArbitrationInterval
  signed : ∃ voters : List Address, voters.Nodup ∧
    (∀ v ∈ voters, v ∈ council parent ∧ ∃ vote ∈ votes, n.voter (n.hash h) vote = some v) ∧
    2 * (council parent).length < 3 * voters.length

/-- Both nodes hold the parent, and neither has a unit above it. -/
def Compared (n m : Verifier σ) (h : UnitHeader) : Prop :=
  n.NoneAbove h ∧ m.NoneAbove h ∧
    ∃ parent, n.getHeader h.parentHash = some parent ∧ m.getHeader h.parentHash = some parent

/-- The header passes the check, is not below its tail, and follows the stable unit after the
interval. -/
def Timely (n : Verifier σ) (h : UnitHeader) (sign : Bytes) : Prop :=
  n.checkHeader h sign = .ok () ∧ n.tailNumber h.mc ≤ h.number ∧
    ∃ last, n.getHeaderByNumber h.mc h.scNumber = some last ∧
      last.timestamp + nanosecondsOf scDeadArbitrationInterval = h.timestamp

/-- A header that passes finds a stable unit on its own chain; if it is timely, that is the system
chain, whose tail is its parent. -/
structure Fits (n : Verifier σ) (h : UnitHeader) (sign : Bytes) : Prop where
  found : n.checkHeader h sign = .ok () → n.getHeaderByNumber h.mc h.scNumber ≠ none
  onTail : n.Timely h sign → h.mc = n.env.scAccount ∧ n.scTail = n.getHeader h.parentHash

theorem getUnitVoter_spec {voters out : List Address}
    (hout : n.getUnitVoter h voters votes = .ok out) (hnodup : voters.Nodup) :
    out.Nodup ∧ ∀ v ∈ out, v ∈ voters ∨ ∃ vote ∈ votes, n.voter (n.hash h) vote = some v := by
  induction votes generalizing voters with
  | nil =>
    cases hout
    exact ⟨hnodup, fun v hv => .inl hv⟩
  | cons vote votes ih =>
    unfold getUnitVoter at hout
    split at hout
    · cases hout
    obtain ⟨addr, haddr, hout⟩ := bind_eq_ok_iff.mp hout
    have hvote : n.voter (n.hash h) vote = some addr := orElse_eq_ok.mp haddr
    split at hout
    · obtain ⟨hout, hfrom⟩ := ih hout hnodup
      exact ⟨hout, fun v hv => (hfrom v hv).imp_right fun ⟨w, hw, hv⟩ => ⟨w, .tail _ hw, hv⟩⟩
    next hnew =>
    have hmore : (voters ++ [addr]).Nodup :=
      List.nodup_append.mpr ⟨hnodup, List.nodup_singleton _, fun v hv w hw heq =>
        hnew (List.mem_singleton.mp hw ▸ heq ▸ hv)⟩
    obtain ⟨hout, hfrom⟩ := ih hout hmore
    refine ⟨hout, fun v hv => ?_⟩
    obtain hv | ⟨w, hw, hv⟩ := hfrom v hv
    · obtain hv | hv := List.mem_append.mp hv
      · exact .inl hv
      · exact .inr ⟨vote, .head _, List.mem_singleton.mp hv ▸ hvote⟩
    · exact .inr ⟨w, .tail _ hw, hv⟩

end Nerthus.Core.Verifier

namespace Nerthus.Core.Sample

def specialUnit (mc : Address) (number : Nat) (parentHash : Hash) : UnitHeader :=
  { storedHeader mc number (nanosecondsOf scDeadArbitrationInterval) with
    parentHash := parentHash, scHash := ⟨3⟩, scNumber := 5, proposer := env.publicPrivateKeyAddr }

end Nerthus.Core.Sample
