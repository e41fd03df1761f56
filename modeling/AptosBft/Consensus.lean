import AptosBft.EpochManager
import AptosBft.Pacemaker
import AptosBft.Pipeline
import AptosBft.RoundManager

/-! `consensus/mod.rs`: the engine that owns a round manager, a pacemaker, a
pipeline and an epoch manager. Printing is left out. -/

namespace AptosBft
open Rust

structure ConsensusConfig (F : Type) where
  initialRound : U64
  initialEpoch : U64
  pacemakerConfig : PacemakerConfig F
  roundManagerConfig : RoundManagerConfig
  pipelineConfig : PipelineConfig
  maxRoundsPerEpoch : U64
  deriving DecidableEq

def ConsensusConfig.default {F : Type} [Floating F] : ConsensusConfig F := ⟨1, 0, .default, .default, .default, 1000⟩

inductive ConsensusState where
  | bootstrapping
  | running
  | catchingUp
  | stopping
  | stopped
  deriving DecidableEq, Repr

def ConsensusState.display : ConsensusState → String
  | .bootstrapping => "bootstrapping"
  | .running => "running"
  | .catchingUp => "catching_up"
  | .stopping => "stopping"
  | .stopped => "stopped"

structure ProposalResult where
  accepted : Bool
  reason : Option String
  round : U64
  voted : Bool
  deriving DecidableEq, Repr

structure VoteResult where
  accepted : Bool
  round : U64
  deriving DecidableEq, Repr

/-- `E` is the proposer election and `O` the authors it names. -/
structure Consensus (B V QC H S F E O : Type) where
  config : ConsensusConfig F
  state : ConsensusState
  roundManager : RoundManager B V QC H S
  pacemaker : Pacemaker (ExponentialIntervalStrategy F) F
  proposerElection : E
  pipeline : Pipeline
  epochManager : EpochManager
  selfValidatorId : Option O

namespace Consensus
variable {B V QC H N S A F E O : Type}

/-- The round manager is given neither the initial epoch nor the initial round. -/
def new [Floating F] (config : ConsensusConfig F) (proposerElection : E) (selfValidatorId : Option O) :
    Except Panic (Consensus B V QC H S F E O) := do
  let safetyRules := TwoChainSafetyRules.new config.initialEpoch
  let roundManager := RoundManager.new config.roundManagerConfig safetyRules
  let intervalStrategy ← ExponentialIntervalStrategy.new config.pacemakerConfig.baseDuration
    config.pacemakerConfig.exponentBase config.pacemakerConfig.maxExponent
  return {
    config
    state := .bootstrapping
    roundManager
    pacemaker := Pacemaker.new intervalStrategy config.pacemakerConfig
    proposerElection
    pipeline := Pipeline.new config.pipelineConfig
    epochManager := EpochManager.new ⟨config.initialEpoch, false⟩
    selfValidatorId }

def notRunning (engine : Consensus B V QC H S F E O) : Error := ⟨s!"Not in running state: {engine.state.display}"⟩

def start (engine : Consensus B V QC H S F E O) : Except Error Unit × Consensus B V QC H S F E O :=
  if engine.state = .bootstrapping ∨ engine.state = .stopped then (.ok (), { engine with state := .running })
  else (.error ⟨s!"Cannot start consensus from state: {engine.state.display}"⟩, engine)

def stop (engine : Consensus B V QC H S F E O) : Except Error Unit × Consensus B V QC H S F E O :=
  if engine.state = .running ∨ engine.state = .catchingUp then (.ok (), { engine with state := .stopped })
  else (.error ⟨s!"Cannot stop consensus from state: {engine.state.display}"⟩, engine)

def round (engine : Consensus B V QC H S F E O) : U64 := engine.roundManager.roundState.round

def epoch (engine : Consensus B V QC H S F E O) : U64 := engine.epochManager.epoch

def getHighestQuorumCert (engine : Consensus B V QC H S F E O) : Option QC := engine.roundManager.roundState.quorumCert

/-- A validator reports a vote for every proposal the round manager accepts. -/
def processProposal [Block B H] (engine : Consensus B V QC H S F E O) (proposal : B) :
    Except Error ProposalResult × Consensus B V QC H S F E O :=
  let round := Block.round proposal
  if engine.state ≠ .running then (.ok ⟨false, some engine.notRunning.message, round, false⟩, engine)
  else match engine.pipeline.processBlock proposal with
    | (.error error, pipeline) => (.error error, { engine with pipeline })
    | (.ok pipelineResult, pipeline) =>
      if !pipelineResult.isCompleted then
        (.ok ⟨false, some s!"Pipeline rejected: {pipelineResult.debug}", round, false⟩, { engine with pipeline })
      else
        let (result, roundManager) := engine.roundManager.processProposal proposal
        let after := { engine with pipeline, roundManager }
        match result with
        | .error error => (.error error, after)
        | .ok .accepted => (.ok ⟨true, none, round, engine.selfValidatorId.isSome⟩, after)
        | .ok (.rejected reason) => (.ok ⟨false, some reason, round, false⟩, after)
        | .ok .oldRound => (.ok ⟨false, some "Old round", round, false⟩, after)
        | .ok .futureRound => (.ok ⟨false, some "Future round", round, false⟩, after)

section Votes
variable [DecidableEq H] [DecidableEq N] [DecidableEq S] [Vote V B H N S A] [VoteData V] [QuorumCertificate QC H]
  [FromVotes QC V A]

/-- What the round manager answered is dropped unless it failed. -/
def processVote (profile : Profile) (order : Iteration V N S) (engine : Consensus B V QC H S F E O) (vote : V)
    (verifier : ValidatorVerifier B V N S A) : Outcome Error VoteResult × Consensus B V QC H S F E O :=
  if engine.state ≠ .running then (.error (.err engine.notRunning), engine)
  else
    let (result, roundManager) := engine.roundManager.processVote profile order vote verifier
    let after := { engine with roundManager }
    match result with
    | .error failure => (.error failure, after)
    | .ok _ => (.ok ⟨true, VoteData.proposedRound vote⟩, after)

end Votes

/-- Only the pacemaker learns of the certificate. -/
def processQc [QuorumCertificate QC H] (engine : Consensus B V QC H S F E O) (qc : QC) :
    Except Error Unit × Consensus B V QC H S F E O :=
  if engine.state ≠ .running then (.error engine.notRunning, engine)
  else
    let (result, pacemaker) := engine.pacemaker.recordOrderedRound (QuorumCertificate.round qc)
    (result, { engine with pacemaker })

/-- Only the pacemaker moves on. `round + 1` is unchecked. -/
def processTimeout [Floating F] (profile : Profile) (engine : Consensus B V QC H S F E O) (round : U64) :
    Outcome Error Unit × Consensus B V QC H S F E O :=
  if engine.state ≠ .running then (.error (.err engine.notRunning), engine)
  else match U64.plus profile round 1 with
    | .error reason => (.error (.panic reason), engine)
    | .ok nextRound =>
      let (result, pacemaker) := engine.pacemaker.enterNewRound profile nextRound
      (result.map fun _ => (), { engine with pacemaker })

/-- Proposal generation is not implemented: whoever the proposer is, no block
comes out. -/
def generateProposal [DecidableEq O] [ProposerElection E O] (engine : Consensus B V QC H S F E O) : Except Error (Option B) :=
  if engine.state ≠ .running then .error engine.notRunning
  else
    let currentRound := engine.round
    let isProposer := match engine.selfValidatorId, ProposerElection.getValidProposer engine.proposerElection currentRound with
      | some myId, some proposer => myId == proposer
      | _, _ => false
    if !isProposer then .ok none
    else match engine.getHighestQuorumCert with
      | some _parentQc => .ok none
      | none => .ok none

end Consensus
end AptosBft
