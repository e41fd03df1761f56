import AptosBft.Calls
import AptosBft.Lib.Mealy
import AptosBft.Lib.Quorum

/-! A committee of validators that run round managers. An action is one call at one
honest validator, one ballot, or one commit decision; proposals, certificates and
Byzantine ballots are arbitrary, so every order of messages is a list of actions.
An action that its validator may not take changes nothing. -/

namespace AptosBft
open Rust

structure Committee (N : Type) where
  members : Finset N
  power : N → Nat
  byzantine : Finset N
  listed : byzantine ⊆ members
  minority : 3 * ∑ member ∈ byzantine, power member < ∑ member ∈ members, power member

abbrev Ballot (N H : Type) := Quorum.Ballot N (U64 × U64) H

/-- `approved` are the votes that `try_vote_for_proposal` allowed at honest
validators, oldest first, and `ballots` the votes that were cast. -/
structure Network (B V QC H N S : Type) where
  managers : N → RoundManager B V QC H S
  approved : List (Ballot N H)
  ballots : List (Ballot N H)

namespace Network
variable {B V QC H N S A T : Type}

inductive Action (B V QC H N S A T : Type) where
  | call (validator : N) (input : RoundManager.Call B V QC N S A T)
  | cast (ballot : Ballot N H)
  | commit (validator : N) (proposal : B)

def initial (config : N → RoundManagerConfig) (epoch : N → U64) : Network B V QC H N S :=
  ⟨fun validator => .new (config validator) (.new (epoch validator)), [], []⟩

def approves [Block B H] (validator : N) : RoundManager.Call B V QC N S A T → RoundManager.Reply H → List (Ballot N H)
  | .tryVoteForProposal proposal _, .voted (.ok ()) =>
    [⟨validator, (Block.epoch proposal, Block.round proposal), Block.id proposal⟩]
  | _, _ => []

/-- The certificate an answered call passed to `observe_qc`. -/
def observes (after : RoundManager B V QC H S) : RoundManager.Call B V QC N S A T → RoundManager.Reply H → Option QC
  | .rules (.observeQc qc), _ => some qc
  | .processVote .., .vote (.ok .quorumCompleted) => after.roundState.quorumCert
  | _, _ => none

variable [DecidableEq H] [DecidableEq N] [DecidableEq S]

abbrev Certified (committee : Committee N) (network : Network B V QC H N S) (slot : U64 × U64) (id : H) : Prop :=
  Quorum.Certified committee.power committee.members network.ballots slot id

def Honest (committee : Committee N) (validator : N) : Prop :=
  validator ∈ committee.members ∧ validator ∉ committee.byzantine

instance (committee : Committee N) (validator : N) : Decidable (Honest committee validator) :=
  inferInstanceAs (Decidable (_ ∧ _))

variable [Block B H] [Vote V B H N S A] [QuorumCertificate QC H] [FromVotes QC V A]

def step (profile : Profile) (committee : Committee N) (network : Network B V QC H N S) :
    Action B V QC H N S A T → Option H × Network B V QC H N S
  | .call validator input =>
    let (reply, after) := (network.managers validator).call profile input
    if Honest committee validator ∧ ∀ qc ∈ observes after input reply,
        Certified committee network (QuorumCertificate.epoch qc, QuorumCertificate.round qc) (QuorumCertificate.blockId qc) then
      (none, { network with
        managers := Function.update network.managers validator after
        approved := network.approved ++ approves validator input reply })
    else (none, network)
  | .cast ballot =>
    if ballot.voter ∈ committee.byzantine ∨ ballot ∈ network.approved then
      (none, { network with ballots := ballot :: network.ballots })
    else (none, network)
  | .commit validator proposal =>
    if Honest committee validator then ((network.managers validator).safetyRules.shouldCommit proposal, network)
    else (none, network)

end Network
end AptosBft
