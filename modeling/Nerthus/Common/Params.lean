import Nerthus.Common.Types

/-!
# Chain parameters

The constants of `params/config.go` that fix the size of a witness group and
the number of votes a unit needs.
-/

namespace Nerthus.Params

def configParamsUCWitness : Nat := 11

def configParamsUCMinVotings : Nat := configParamsUCWitness * 2 / 3 + 1

def configParamsSCWitness : Nat := 11

def configParamsSCMinVotings : Nat := configParamsSCWitness * 2 / 3 + 1

def configParamsSCWitnessCap : Nat := 55

def getChainWitnessCount (scAccount chain : Address) : Nat :=
  if chain = scAccount then configParamsSCWitness else configParamsUCWitness

def getChainMinVoting (scAccount chain : Address) : Nat :=
  if chain = scAccount then configParamsSCMinVotings else configParamsUCMinVotings

@[simp] theorem getChainMinVoting_eq (scAccount chain : Address) :
    getChainMinVoting scAccount chain = 8 := by
  unfold getChainMinVoting
  split <;> rfl

end Nerthus.Params
