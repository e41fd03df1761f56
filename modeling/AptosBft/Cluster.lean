import AptosBft.Network
import AptosBft.Restart

/-! A committee of validators that vote by the sequence documented for
`persist_safety_state` and that can crash at any step. An action is one input of one
honest validator, or a Byzantine ballot; proposals and certificates are arbitrary. -/

namespace AptosBft
open Rust

/-- `ballots` are the votes on the network, oldest first. -/
structure Cluster (B D H N : Type) where
  validators : N → Validator B D
  ballots : List (Ballot N H)

namespace Cluster
variable {B D H N QC T : Type}

inductive Action (B QC T D H N : Type) where
  | act (validator : N) (input : Validator.Input B QC T D)
  | cast (ballot : Ballot N H)

/-- A committee that is down, each member with a storage of its own. -/
def initial (storage : N → D) : Cluster B D H N := ⟨fun validator => ⟨none, storage validator⟩, []⟩

def sends [Block B H] (name : N) (validator : Validator B D) : Validator.Input B QC T D → List (Ballot N H)
  | .send => match validator.process with
    | some (_, .persisted proposal) => [⟨name, (Block.epoch proposal, Block.round proposal), Block.id proposal⟩]
    | _ => []
  | _ => []

variable [DecidableEq N] [Block B H] [QuorumCertificate QC H] [ConsensusStorage D] [LawfulStorage D]

def step (profile : Profile) (committee : Committee N) (cluster : Cluster B D H N) : Action B QC T D H N → Unit × Cluster B D H N
  | .act name input =>
    if Network.Honest committee name then
      ((), ⟨Function.update cluster.validators name ((cluster.validators name).step profile input).2,
        cluster.ballots ++ sends name (cluster.validators name) input⟩)
    else ((), cluster)
  | .cast ballot =>
    if ballot.voter ∈ committee.byzantine then ((), { cluster with ballots := cluster.ballots ++ [ballot] })
    else ((), cluster)

end Cluster
end AptosBft
