import AptosBft.SafetyRules.TwoChain
import AptosBft.State
import AptosBft.Votes

/-! `round_manager/mod.rs`, over the 2-chain safety rules, which is how the
consensus engine instantiates it. A call that fails keeps whatever it changed
before it failed. -/

namespace AptosBft
open Rust

structure RoundManagerConfig where
  maxBufferedRounds : U64
  roundTimeoutMs : U64
  maxPendingVotes : U64
  deriving DecidableEq, Repr

def RoundManagerConfig.default : RoundManagerConfig := ⟨10, 5000, 1000⟩

inductive ProposalProcessingResult where
  | accepted
  | rejected (reason : String)
  | oldRound
  | futureRound
  deriving DecidableEq, Repr

structure RoundManager (B V QC H S : Type) where
  roundState : RoundState B QC
  pendingVotes : PendingVotes V H S
  safetyRules : TwoChainSafetyRules
  config : RoundManagerConfig

namespace RoundManager
variable {B V QC H N S A T : Type} [DecidableEq H] [DecidableEq N] [DecidableEq S]

def new (config : RoundManagerConfig) (safetyRules : TwoChainSafetyRules) : RoundManager B V QC H S where
  roundState := RoundState.new ⟨0, 0, config.maxBufferedRounds⟩
  pendingVotes := PendingVotes.new config.maxBufferedRounds
  safetyRules := safetyRules
  config := config

def tryVoteForProposal [Block B H] (manager : RoundManager B V QC H S) (proposal : B)
    (timeoutCert : Option (TwoChainTimeoutCertificate T)) : Except Error Unit × RoundManager B V QC H S :=
  let proposalRound := Block.round proposal
  if proposalRound < manager.safetyRules.state.lastVotedRound then
    (.error ⟨s!"Cannot vote for round {proposalRound}: " ++
      s!"already voted in round {manager.safetyRules.state.lastVotedRound}"⟩, manager)
  else match manager.safetyRules.safeToVote proposal timeoutCert with
    | .error error => (.error error, manager)
    | .ok () =>
      let (result, safetyRules) := manager.safetyRules.recordVote proposalRound
      (result, { manager with safetyRules })

/-- The verifier it is given plays no part. -/
def processProposal [Block B H] (manager : RoundManager B V QC H S) (proposal : B) :
    Except Error ProposalProcessingResult × RoundManager B V QC H S :=
  let proposalRound := Block.round proposal
  if !manager.roundState.isCurrentRound proposalRound then
    if proposalRound < manager.roundState.round then (.ok .oldRound, manager) else (.ok .futureRound, manager)
  else match Block.verifySignature proposal with
    | .error error => (.error error, manager)
    | .ok () => (.ok .accepted, { manager with roundState := manager.roundState.setProposedBlock proposal })

section Votes
variable [Vote V B H N S A] [QuorumCertificate QC H] [FromVotes QC V A]

/-- The first half of `form_quorum_certificate_for_block`, up to `from_votes`. It
checks the quorum again and reads the manager only. -/
def buildQuorumCertificate (order : Iteration V N S) (manager : RoundManager B V QC H S) (blockId : H) (round : U64)
    (verifier : ValidatorVerifier B V N S A) : Except Error QC :=
  let votes := manager.pendingVotes.getVotes order.votes round blockId
  let aggregator := SignatureAggregator.collect verifier votes
  match aggregator.checkQuorum order.formed verifier with
  | .error error => .error error.toError
  | .ok () => match aggregator.aggregate order.formed verifier with
    | .error error => .error error
    | .ok aggregatedSig => FromVotes.fromVotes votes aggregatedSig

def formQuorumCertificateForBlock (profile : Profile) (order : Iteration V N S) (manager : RoundManager B V QC H S)
    (blockId : H) (round : U64) (verifier : ValidatorVerifier B V N S A) :
    Outcome Error Unit × RoundManager B V QC H S :=
  match manager.buildQuorumCertificate order blockId round verifier with
  | .error error => (.error (.err error), manager)
  | .ok (qc : QC) => match manager.safetyRules.observeQc profile qc with
    | (.error failure, safetyRules) => (.error failure, { manager with safetyRules })
    | (.ok (), safetyRules) =>
      (.ok (), { manager with
        safetyRules
        roundState := manager.roundState.setQuorumCert qc
        pendingVotes := manager.pendingVotes.removeRound round })

def processVote (profile : Profile) (order : Iteration V N S) (manager : RoundManager B V QC H S) (vote : V)
    (verifier : ValidatorVerifier B V N S A) : Outcome Error VoteReceptionResult × RoundManager B V QC H S :=
  match Vote.verify vote verifier with
  | .error error => (.error (.err error), manager)
  | .ok () =>
    if !manager.roundState.isCurrentEpoch (Vote.epoch vote) then (.ok (.rejected .rejected), manager)
    else
      let (result, pendingVotes) := manager.pendingVotes.addVote order vote verifier
      let added := { manager with pendingVotes }
      if result = .quorumCompleted then
        match added.formQuorumCertificateForBlock profile order (Vote.blockId vote) (Vote.round vote) verifier with
        | (.error failure, formed) => (.error failure, formed)
        | (.ok (), formed) => (.ok result, formed)
      else (.ok result, added)

end Votes

/-- It looks for no certificate: votes that are gone and a round that is over count as
one. -/
def hasQuorumCertificate (manager : RoundManager B V QC H S) (blockId : H) (round : U64) : Bool :=
  manager.pendingVotes.voteCount round blockId == 0 && round < manager.roundState.round

/-- The reason of the timeout plays no part. -/
def processTimeout (profile : Profile) (manager : RoundManager B V QC H S) :
    Outcome Error Unit × RoundManager B V QC H S :=
  let currentRound := manager.roundState.round
  let qcRound := manager.safetyRules.state.oneChainRound
  match U64.plus profile currentRound 1 with
  | .error reason => (.error (.panic reason), manager)
  | .ok nextRound => match manager.safetyRules.safeToTimeoutImpl nextRound qcRound none with
    | .error (.err error) => (.error (.err ⟨s!"Not safe to timeout: {error.message}"⟩), manager)
    | .error (.panic reason) => (.error (.panic reason), manager)
    | .ok () =>
      let recorded := { manager with safetyRules := manager.safetyRules.recordTimeout currentRound }
      match recorded.roundState.advanceRound profile with
      | .error reason => (.error (.panic reason), recorded)
      | .ok roundState =>
        (.ok (), { recorded with roundState, pendingVotes := recorded.pendingVotes.setRound roundState.round })

def startRound (manager : RoundManager B V QC H S) (round : U64) : RoundManager B V QC H S :=
  { manager with
    roundState := manager.roundState.setRound round
    pendingVotes := manager.pendingVotes.setRound round }

end RoundManager
end AptosBft
