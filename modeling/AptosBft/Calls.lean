import AptosBft.Dag
import AptosBft.Reconfig
import AptosBft.Runtime
import AptosBft.StateSync

/-! Every way to call the pending votes, the safety rules, the round manager, the
signature aggregator, the pacemaker, the consensus engine and the runtime around it, the
state sync, the epoch manager, the reconfiguration handler and the DAG store, as one step
function each.
Arguments are unrestricted: certificates need not be valid and proposals need not extend
anything. A run is a list of calls. -/

namespace AptosBft
open Rust

namespace PendingVotes

inductive Call (B V N S A : Type) where
  | addVote (order : Iteration V N S) (vote : V) (verifier : ValidatorVerifier B V N S A)
  | setRound (round : U64)
  | removeRound (round : U64)

variable {B V H N S A : Type} [DecidableEq H] [DecidableEq N] [DecidableEq S] [Vote V B H N S A]

def call (pending : PendingVotes V H S) : Call B V N S A → Option VoteReceptionResult × PendingVotes V H S
  | .addVote order vote verifier => let (result, after) := pending.addVote order vote verifier; (some result, after)
  | .setRound round => (none, pending.setRound round)
  | .removeRound round => (none, pending.removeRound round)

end PendingVotes

namespace TwoChainSafetyRules

inductive Call (B QC T : Type) where
  | observeQc (qc : QC)
  | observeTc (tc : TwoChainTimeoutCertificate T)
  | recordVote (round : U64)
  | recordTimeout (round : U64)
  | safeToVote (proposal : B) (timeoutCert : Option (TwoChainTimeoutCertificate T))
  | safeToTimeout (round qcRound : U64) (timeoutCert : Option (TwoChainTimeoutCertificate T))
  | shouldCommit (proposal : B)

inductive Reply (H : Type) where
  | done (result : Outcome Error Unit)
  | commit (block : Option H)
  deriving DecidableEq, Repr

variable {B H QC T : Type} [Block B H] [QuorumCertificate QC H]

def call (profile : Profile) (rules : TwoChainSafetyRules) : Call B QC T → Reply H × TwoChainSafetyRules
  | .observeQc qc => let (result, after) := rules.observeQc profile qc; (.done result, after)
  | .observeTc tc => let (result, after) := rules.observeTc tc; (.done (returned result), after)
  | .recordVote round => let (result, after) := rules.recordVote round; (.done (returned result), after)
  | .recordTimeout round => (.done (.ok ()), rules.recordTimeout round)
  | .safeToVote proposal timeoutCert => (.done (returned (rules.safeToVote proposal timeoutCert)), rules)
  | .safeToTimeout round qcRound timeoutCert => (.done (rules.safeToTimeout round qcRound timeoutCert), rules)
  | .shouldCommit proposal => (.commit (rules.shouldCommit proposal), rules)

end TwoChainSafetyRules

namespace RoundManager

/-- `rules` calls reach the safety rules through `safety_rules_mut`. -/
inductive Call (B V QC N S A T : Type) where
  | tryVoteForProposal (proposal : B) (timeoutCert : Option (TwoChainTimeoutCertificate T))
  | processProposal (proposal : B)
  | processVote (order : Iteration V N S) (vote : V) (verifier : ValidatorVerifier B V N S A)
  | processTimeout
  | startRound (round : U64)
  | rules (call : TwoChainSafetyRules.Call B QC T)

inductive Reply (H : Type) where
  | voted (result : Except Error Unit)
  | proposal (result : Except Error ProposalProcessingResult)
  | vote (result : Outcome Error VoteReceptionResult)
  | timeout (result : Outcome Error Unit)
  | started
  | rules (reply : TwoChainSafetyRules.Reply H)
  deriving DecidableEq

variable {B V QC H N S A T : Type} [DecidableEq H] [DecidableEq N] [DecidableEq S]
  [Block B H] [Vote V B H N S A] [QuorumCertificate QC H] [FromVotes QC V A]

def call (profile : Profile) (manager : RoundManager B V QC H S) :
    Call B V QC N S A T → Reply H × RoundManager B V QC H S
  | .tryVoteForProposal proposal timeoutCert =>
    let (result, after) := manager.tryVoteForProposal proposal timeoutCert; (.voted result, after)
  | .processProposal proposal => let (result, after) := manager.processProposal proposal; (.proposal result, after)
  | .processVote order vote verifier =>
    let (result, after) := manager.processVote profile order vote verifier; (.vote result, after)
  | .processTimeout => let (result, after) := manager.processTimeout profile; (.timeout result, after)
  | .startRound round => (.started, manager.startRound round)
  | .rules inner =>
    let (reply, safetyRules) := manager.safetyRules.call profile inner
    (.rules reply, { manager with safetyRules })

end RoundManager

namespace SignatureAggregator

inductive Call (N S : Type) where
  | addSignature (validatorId : N) (signature : S) (votingPower : U64)
  | clear
  deriving DecidableEq

variable {N S : Type} [DecidableEq N]

def call (profile : Profile) (aggregator : SignatureAggregator N S) : Call N S → Except Panic Unit × SignatureAggregator N S
  | .addSignature validatorId signature votingPower =>
    aggregator.addSignatureWords profile validatorId signature votingPower
  | .clear => (.ok (), aggregator.clear)

end SignatureAggregator

namespace Pacemaker

inductive Call where
  | enterNewRound (round : U64)
  | recordOrderedRound (round : U64)
  deriving DecidableEq

def Call.round : Call → U64
  | .enterNewRound round => round
  | .recordOrderedRound round => round

inductive Reply where
  | entered (result : Outcome Error NewRoundEvent)
  | recorded (result : Except Error Unit)
  deriving DecidableEq

variable {I F : Type} [RoundIntervalStrategy I]

def call (profile : Profile) (pacemaker : Pacemaker I F) : Call → Reply × Pacemaker I F
  | .enterNewRound round => let (result, after) := pacemaker.enterNewRound profile round; (.entered result, after)
  | .recordOrderedRound round => let (result, after) := pacemaker.recordOrderedRound round; (.recorded result, after)

end Pacemaker

namespace Consensus

inductive Call (B V QC N S A : Type) where
  | start
  | stop
  | processProposal (proposal : B)
  | processVote (order : Iteration V N S) (vote : V) (verifier : ValidatorVerifier B V N S A)
  | processQc (qc : QC)
  | processTimeout (round : U64)
  | generateProposal

inductive Reply (B : Type) where
  | done (result : Outcome Error Unit)
  | proposal (result : Except Error ProposalResult)
  | vote (result : Outcome Error VoteResult)
  | generated (result : Except Error (Option B))
  deriving DecidableEq

variable {B V QC H N S A F E O : Type} [DecidableEq H] [DecidableEq N] [DecidableEq S] [DecidableEq O] [Block B H]
  [Vote V B H N S A] [VoteData V] [QuorumCertificate QC H] [FromVotes QC V A] [Floating F] [ProposerElection E O]

def call (profile : Profile) (engine : Consensus B V QC H S F E O) :
    Call B V QC N S A → Reply B × Consensus B V QC H S F E O
  | .start => let (result, after) := engine.start; (.done (returned result), after)
  | .stop => let (result, after) := engine.stop; (.done (returned result), after)
  | .processProposal proposal => let (result, after) := engine.processProposal proposal; (.proposal result, after)
  | .processVote order vote verifier =>
    let (result, after) := engine.processVote profile order vote verifier; (.vote result, after)
  | .processQc qc => let (result, after) := engine.processQc qc; (.done (returned result), after)
  | .processTimeout round => let (result, after) := engine.processTimeout profile round; (.done result, after)
  | .generateProposal => (.generated engine.generateProposal, engine)

end Consensus

namespace ConsensusRuntime

/-- `engine` calls reach the engine through `consensus_mut`. -/
inductive Call (B V QC N S A : Type) where
  | start
  | shutdown
  | addNetworkMessage (message : NetworkMessage B V QC)
  | processPendingMessages
  | handleNetworkMessage (message : NetworkMessage B V QC)
  | engine (call : Consensus.Call B V QC N S A)

inductive Reply (B V QC : Type) where
  | done (result : Except Error Unit)
  | processed (results : Except Panic (List (NetworkMessage B V QC × ExecutionResult)))
  | handled (result : Except Panic ExecutionResult)
  | engine (reply : Consensus.Reply B)
  deriving DecidableEq

variable {B V QC H N S A F E O : Type} [DecidableEq H] [DecidableEq N] [DecidableEq S] [DecidableEq O] [Block B H]
  [Vote V B H N S A] [VoteData V] [QuorumCertificate QC H] [FromVotes QC V A] [Floating F] [ProposerElection E O]

def call (profile : Profile) (runtime : ConsensusRuntime B V QC H S F E O) :
    Call B V QC N S A → Reply B V QC × ConsensusRuntime B V QC H S F E O
  | .start => let (result, after) := runtime.start; (.done result, after)
  | .shutdown => let (result, after) := runtime.shutdown; (.done result, after)
  | .addNetworkMessage message => (.done (.ok ()), runtime.addNetworkMessage message)
  | .processPendingMessages => let (results, after) := runtime.processPendingMessages profile; (.processed results, after)
  | .handleNetworkMessage message => let (result, after) := runtime.handleNetworkMessage profile message; (.handled result, after)
  | .engine inner =>
    let (reply, consensus) := runtime.consensus.call profile inner
    (.engine reply, { runtime with consensus })

end ConsensusRuntime

namespace StateSync

inductive Call (B : Type) where
  | startSync (targetRound epoch : U64)
  | addSyncResponse (response : SyncResponse B)
  | takeNextRequest
  | readyBlocks
  | updateHighestKnownRound (round : U64)
  | cancel
  | reset

inductive Reply (B : Type) where
  | done (result : Outcome Error Unit)
  | request (request : Option SyncRequest)
  | ready (blocks : Except Panic (List B))
  deriving DecidableEq

variable {B H : Type} [Block B H]

def call (profile : Profile) (sync : StateSync B) : Call B → Reply B × StateSync B
  | .startSync targetRound epoch => let (result, after) := sync.startSync profile targetRound epoch; (.done result, after)
  | .addSyncResponse response => let (result, after) := sync.addSyncResponse profile response; (.done result, after)
  | .takeNextRequest => let (request, after) := sync.takeNextRequest; (.request request, after)
  | .readyBlocks => let (blocks, after) := sync.readyBlocks profile; (.ready blocks, after)
  | .updateHighestKnownRound round => (.done (.ok ()), sync.updateHighestKnownRound round)
  | .cancel => (.done (.ok ()), sync.cancel)
  | .reset => (.done (.ok ()), sync.reset)

end StateSync

namespace EpochManager

/-- `now` is what the system clock shows at the call. -/
inductive Call where
  | startNewEpoch (epoch now : U64)
  | forceNextEpoch (now : U64)
  deriving DecidableEq

def Call.now : Call → U64
  | .startNewEpoch _ now => now
  | .forceNextEpoch now => now

def call (profile : Profile) (manager : EpochManager) : Call → Outcome EpochTransitionError Unit × EpochManager
  | .startNewEpoch epoch now => manager.startNewEpoch profile epoch now
  | .forceNextEpoch now => manager.forceNextEpoch profile now

end EpochManager

namespace ReconfigHandler

inductive Call (N E : Type) where
  | setProposerElection (proposerElection : E)
  | prepareReconfig (newEpoch : U64)
  | setValidatorSet (epoch : U64) (validatorSet : ValidatorSet N)
  | beginReconfig (validatorSet : ValidatorSet N)
  | completeReconfig (now : U64)
  | addEvent (event : ReconfigEvent N)
  | takePendingEvents
  | cancel
  | updateProgress (validatorsProcessed : Nat)

inductive Reply (N : Type) where
  | done (result : Outcome Error Unit)
  | events (events : List (ReconfigEvent N))
  deriving DecidableEq

variable {N E : Type}

def call (profile : Profile) (handler : ReconfigHandler N E) : Call N E → Reply N × ReconfigHandler N E
  | .setProposerElection proposerElection => (.done (.ok ()), handler.setProposerElection proposerElection)
  | .prepareReconfig newEpoch => let (result, after) := handler.prepareReconfig profile newEpoch; (.done result, after)
  | .setValidatorSet epoch validatorSet => (.done (.ok ()), handler.setValidatorSet epoch validatorSet)
  | .beginReconfig validatorSet => let (result, after) := handler.beginReconfig validatorSet; (.done (returned result), after)
  | .completeReconfig now => let (result, after) := handler.completeReconfig profile now; (.done result, after)
  | .addEvent event => (.done (.ok ()), handler.addEvent event)
  | .takePendingEvents => let (events, after) := handler.takePendingEvents; (.events events, after)
  | .cancel => (.done (.ok ()), handler.cancel)
  | .updateProgress validatorsProcessed => (.done (.ok ()), handler.updateProgress validatorsProcessed)

end ReconfigHandler

namespace InMemDag

inductive Call (R A M : Type) where
  | addNode (node : M)
  | markOrdered (round : R) (author : A)
  | pruneBelow (minRound : R)
  | clear
  deriving DecidableEq

variable {R A M : Type} [LinearOrder R] [DecidableEq A] [CertifiedNode M R A] [ToString R] [ToString A]

def call (dag : InMemDag R A M) : Call R A M → Except Error Unit × InMemDag R A M
  | .addNode node => dag.addNode node
  | .markOrdered round author => dag.markOrdered round author
  | .pruneBelow minRound => (.ok (), dag.pruneBelow minRound)
  | .clear => (.ok (), dag.clear)

end InMemDag
end AptosBft
