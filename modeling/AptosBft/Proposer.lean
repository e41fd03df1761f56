import AptosBft.Traits

/-! `liveness/proposer.rs`: who proposes in a round. `usize` has 64 bits here, so a
round is an index as it stands. -/

namespace AptosBft
open Rust

structure ProposerElectionConfig where
  initialRound : U64
  deriving DecidableEq, Repr

def ProposerElectionConfig.default : ProposerElectionConfig := ⟨1⟩

structure RoundRobinProposer (O : Type) where
  validators : List O
  config : ProposerElectionConfig
  deriving DecidableEq, Repr

namespace RoundRobinProposer
variable {O : Type}

def new (validators : List O) (config : ProposerElectionConfig) : RoundRobinProposer O := ⟨validators, config⟩

def getValidProposer (proposer : RoundRobinProposer O) (round : U64) : Option O :=
  if proposer.validators.isEmpty then none
  else if early : round < proposer.config.initialRound then none
  else
    let roundIndex := round.minus proposer.config.initialRound (not_lt.mp early)
    let proposerIndex := roundIndex.val % proposer.validators.length
    proposer.validators[proposerIndex]?

instance : ProposerElection (RoundRobinProposer O) O := ⟨getValidProposer⟩

end RoundRobinProposer

structure WeightedProposer (O : Type) where
  validators : List (O × U64)
  totalVotingPower : Nat
  config : ProposerElectionConfig
  deriving DecidableEq, Repr

namespace WeightedProposer
variable {O : Type}

def new (profile : Profile) (validators : List (O × U64)) (config : ProposerElectionConfig) :
    Except Panic (WeightedProposer O) := do
  let totalVotingPower ← U128.sum profile (validators.map fun validator => validator.2.val)
  return ⟨validators, totalVotingPower, config⟩

/-- The loop of `select_weighted_proposer`: the first validator whose running sum passes
the target, if there is one. -/
def search (profile : Profile) (target cumulative : Nat) : List (O × U64) → Except Panic (Option O)
  | [] => .ok none
  | (validator, weight) :: rest => do
    let cumulative ← U128.plus profile cumulative weight.val
    if target < cumulative then return some validator
    search profile target cumulative rest

def selectWeightedProposer (profile : Profile) (proposer : WeightedProposer O) (round : U64) : Except Panic (Option O) :=
  if proposer.validators.isEmpty then .ok none
  else if proposer.totalVotingPower = 0 then
    .error (.assertion "attempt to calculate the remainder with a divisor of zero")
  else do
    let target := round.val % proposer.totalVotingPower
    match ← search profile target 0 proposer.validators with
    | some validator => return some validator
    | none => return proposer.validators.getLast?.map Prod.fst

def getValidProposer (profile : Profile) (proposer : WeightedProposer O) (round : U64) : Except Panic (Option O) :=
  if round < proposer.config.initialRound then .ok none else proposer.selectWeightedProposer profile round

end WeightedProposer
end AptosBft
