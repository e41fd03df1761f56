import AptosBft.Dag
import AptosBft.Lib.Consecutive
import AptosBft.Proofs.Admission
import AptosBft.Proofs.Aggregator
import AptosBft.Proofs.Agreement
import AptosBft.Proofs.Backoff
import AptosBft.Proofs.CertificateQuery
import AptosBft.Proofs.Certificates
import AptosBft.Proofs.Checkpoints
import AptosBft.Proofs.Commits
import AptosBft.Proofs.Completion
import AptosBft.Proofs.CrashAgreement
import AptosBft.Proofs.Dag
import AptosBft.Proofs.DagBounds
import AptosBft.Proofs.DagOrder
import AptosBft.Proofs.DagReorder
import AptosBft.Proofs.Engine
import AptosBft.Proofs.Epochs
import AptosBft.Proofs.Hearing
import AptosBft.Proofs.HighestCert
import AptosBft.Proofs.Lifecycles
import AptosBft.Proofs.Limits
import AptosBft.Proofs.Pacemaker
import AptosBft.Proofs.PendingVotes
import AptosBft.Proofs.Progress
import AptosBft.Proofs.Proposer
import AptosBft.Proofs.Queues
import AptosBft.Proofs.QuorumDetection
import AptosBft.Proofs.QuorumUniqueness
import AptosBft.Proofs.Reconfig
import AptosBft.Proofs.Recovery
import AptosBft.Proofs.Representation
import AptosBft.Proofs.Runtime
import AptosBft.Proofs.SafetyLaw
import AptosBft.Proofs.SyncDelivery
import AptosBft.Proofs.SyncEpoch
import AptosBft.Proofs.SyncPeer
import AptosBft.Proofs.SyncRequests
import AptosBft.Proofs.SyncSequence
import AptosBft.Proofs.Timeouts
import AptosBft.Proofs.ValidatorSet
import AptosBft.Proofs.VoteBuffer
import AptosBft.Proofs.VoteLog
import AptosBft.Proofs.VoteOrder
import AptosBft.Proofs.VoteOutcome
import AptosBft.Proofs.Voting
