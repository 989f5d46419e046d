import Nerthus.Core.SpecialUnit

/-!
# The votes of a unit

What `GetUnitVoter` and `VerifySeal` say of the votes that they accept. The round of a vote is in
its extra bytes, and votes of different rounds are no certificate together.
-/

namespace Nerthus.Core

namespace WitnessVote

/-- A commit seal: the code and the round. -/
def Commits (vote : WitnessVote) : Prop :=
  vote.extra.length = extraSealSize ∧ vote.extra.head? = some msgCommit

def round (vote : WitnessVote) : Nat := (vote.extra.drop 1).foldr (fun b r => b.toNat + 256 * r) 0

end WitnessVote

def OneRound (votes : List WitnessVote) : Prop := ∃ r, ∀ vote ∈ votes, vote.round = r

namespace Verifier

variable {σ : Type} (n : Verifier σ) (h : UnitHeader)

def Readable (votes : List WitnessVote) : Prop :=
  ∀ vote ∈ votes, vote.Commits ∧ ∃ a, n.voter (n.hash h) vote = some a

/-- The voters are those who have signed the votes, each once, in one round. -/
structure Voters (votes : List WitnessVote) (voters : List Address) : Prop where
  nodup : voters.Nodup
  signed : ∀ a ∈ voters, ∃ vote ∈ votes, vote.Commits ∧ n.voter (n.hash h) vote = some a
  all : ∀ vote ∈ votes, ∃ a ∈ voters, n.voter (n.hash h) vote = some a
  oneRound : OneRound votes

/-- So many witnesses have committed to the unit in a single round. -/
def Certified (votes : List WitnessVote) (witnesses : List Address) (count : Nat) : Prop :=
  ∃ r, ∃ voters : List Address, voters.Nodup ∧ voters ⊆ witnesses ∧ count ≤ voters.length ∧
    ∀ a ∈ voters, ∃ vote ∈ votes, vote.Commits ∧ vote.round = r ∧ n.voter (n.hash h) vote = some a

variable {n h} {votes : List WitnessVote}

theorem getUnitVoter_readable {voters out : List Address}
    (hout : n.getUnitVoter h voters votes = .ok out) : voters ⊆ out ∧ n.Readable h votes ∧
      ∀ vote ∈ votes, ∃ a ∈ out, n.voter (n.hash h) vote = some a := by
  induction votes generalizing voters with
  | nil =>
    cases hout
    exact ⟨List.Subset.refl _, nofun, nofun⟩
  | cons vote votes ih =>
    unfold getUnitVoter at hout
    simp only [Lib.ite_eq_ok_iff, Lib.bind_eq_ok_iff] at hout
    obtain ⟨hseal, addr, haddr, hout⟩ := hout
    have hvote : n.voter (n.hash h) vote = some addr := orElse_eq_ok.mp haddr
    obtain ⟨more, hsub, hmem, hrest⟩ : ∃ more, voters ⊆ more ∧ addr ∈ more ∧
        n.getUnitVoter h more votes = .ok out := by
      split at hout
      · exact ⟨voters, List.Subset.refl _, by assumption, hout⟩
      · exact ⟨_, List.subset_append_left _ _, by simp, hout⟩
    obtain ⟨hmore, hread, hall⟩ := ih hrest
    refine ⟨fun a ha => hmore (hsub ha), List.forall_mem_cons.mpr ⟨⟨?_, addr, hvote⟩, hread⟩,
      List.forall_mem_cons.mpr ⟨⟨addr, hmore hmem, hvote⟩, hall⟩⟩
    exact ⟨by tauto, by tauto⟩

theorem getUnitVoter_of_readable (hread : n.Readable h votes) (voters : List Address) :
    ∃ out, n.getUnitVoter h voters votes = .ok out := by
  induction votes generalizing voters with
  | nil => exact ⟨voters, rfl⟩
  | cons vote votes ih =>
    obtain ⟨⟨hcommit, addr, hvote⟩, hread⟩ := List.forall_mem_cons.mp hread
    unfold getUnitVoter
    rw [if_neg (by simp [hcommit.1, hcommit.2]), hvote]
    simp only [orElse, bind, Except.bind]
    split
    · exact ih hread _
    · exact ih hread _

theorem Readable.voters (hread : n.Readable h votes) (hround : OneRound votes) {out : List Address}
    (hout : n.getUnitVoter h [] votes = .ok out) : n.Voters h votes out := by
  obtain ⟨hnodup, hfrom⟩ := getUnitVoter_spec hout List.nodup_nil
  refine ⟨hnodup, fun a ha => ?_, (getUnitVoter_readable hout).2.2, hround⟩
  obtain hnil | ⟨vote, hvote, hsigned⟩ := hfrom a ha
  · cases hnil
  · exact ⟨vote, hvote, (hread vote hvote).1, hsigned⟩

theorem voters_of_verifySeal {sign : Bytes} {witnesses : List Address}
    (hok : n.verifySeal h sign votes witnesses = .ok ()) :
    ∃ out, n.getUnitVoter h [] votes = .ok out ∧ out ⊆ witnesses ∧
      Params.getChainMinVoting n.env.scAccount h.mc ≤ out.length := by
  unfold verifySeal at hok
  simp only [Lib.ite_eq_ok_iff, Lib.bind_eq_ok_iff] at hok
  obtain ⟨-, -, _, -, -, out, hout, hcount, hall, -⟩ := hok
  exact ⟨out, hout, not_not.mp hall, by omega⟩

/-- The accepted votes are a certificate of one round exactly if readable votes carry one. -/
theorem unit_votes_sound (n : Verifier σ) (h : UnitHeader) (votes : List WitnessVote) :
    ((∀ out, n.getUnitVoter h [] votes = .ok out → n.Voters h votes out) ∧
      ∀ sign witnesses, n.verifySeal h sign votes witnesses = .ok () →
        n.Certified h votes witnesses (Params.getChainMinVoting n.env.scAccount h.mc)) ↔
      (n.Readable h votes → OneRound votes) := by
  constructor
  · rintro ⟨hvoters, -⟩ hread
    obtain ⟨out, hout⟩ := getUnitVoter_of_readable hread []
    exact (hvoters out hout).oneRound
  · intro hround
    have hvoters : ∀ out, n.getUnitVoter h [] votes = .ok out → n.Voters h votes out := by
      intro out hout
      have hread := (getUnitVoter_readable hout).2.1
      exact hread.voters (hround hread) hout
    refine ⟨hvoters, fun sign witnesses hok => ?_⟩
    obtain ⟨out, hout, hsub, hcount⟩ := voters_of_verifySeal hok
    obtain ⟨r, hr⟩ := (hvoters out hout).oneRound
    refine ⟨r, out, (hvoters out hout).nodup, hsub, hcount, fun a ha => ?_⟩
    obtain ⟨vote, hvote, hcommit, hsigned⟩ := (hvoters out hout).signed a ha
    exact ⟨vote, hvote, hcommit, hr vote hvote, hsigned⟩

end Verifier

namespace Sample

def twoRounds : List WitnessVote := ⟨[3, 1, 0, 0, 0, 0, 0, 0, 0], [0]⟩ :: ballot.drop 1

theorem twoRounds_accepted :
    (importer [] (chainState sender 0)).verifySeal (storedHeader contract 2 1) [] twoRounds
        (⟨9⟩ :: voters) = .ok () ∧
      ¬ ∀ out, (importer [] (chainState sender 0)).getUnitVoter (storedHeader contract 2 1) []
          twoRounds = .ok out →
        (importer [] (chainState sender 0)).Voters (storedHeader contract 2 1) twoRounds out := by
  refine ⟨rfl, fun hvoters => ?_⟩
  obtain ⟨r, hr⟩ := (hvoters voters rfl).oneRound
  have hone : 1 = r := hr _ (.head _)
  have hzero : 0 = r := hr _ (.tail _ (.head _))
  omega

end Sample

end Nerthus.Core
