import AptosBft.Crypto

/-! `votes/pending_votes.rs`: votes stored by round and block, and within a block
by signature. -/

namespace AptosBft
open Rust

inductive VoteStatus where
  | accepted
  | rejected
  | quorumCompleted
  | oldRound
  | futureRound
  deriving DecidableEq, Repr

inductive VoteReceptionResult where
  | accepted
  | rejected (status : VoteStatus)
  | quorumCompleted
  | oldRound
  | futureRound
  deriving DecidableEq, Repr

/-- The orders in which one call walks the hash maps it meets: the votes of a
block, and the signers of the two aggregators built from them. -/
structure Iteration (V N S : Type) where
  votes : Order V
  checked : Order (N × S)
  formed : Order (N × S)

def Iteration.insertion {V N S : Type} : Iteration V N S := ⟨.insertion, .insertion, .insertion⟩

structure PendingVotes (V H S : Type) where
  votes : HashMap (U64 × H) (HashMap S V)
  currentRound : U64
  maxRounds : U64

namespace PendingVotes
variable {B V H N S A : Type} [DecidableEq H] [DecidableEq N] [DecidableEq S] [Vote V B H N S A]

def new (maxRounds : U64) : PendingVotes V H S := ⟨∅, 0, maxRounds⟩

def cleanupOldVotes (pending : PendingVotes V H S) : PendingVotes V H S :=
  let cutoffRound := pending.currentRound.saturatingSub pending.maxRounds
  { pending with votes := pending.votes.retain fun key => key.1 ≥ cutoffRound }

def setRound (pending : PendingVotes V H S) (round : U64) : PendingVotes V H S :=
  cleanupOldVotes { pending with currentRound := round }

def removeRound (pending : PendingVotes V H S) (round : U64) : PendingVotes V H S :=
  { pending with votes := pending.votes.retain fun key => key.1 ≠ round }

def getVotes (order : Order V) (pending : PendingVotes V H S) (round : U64) (blockId : H) : List V :=
  match pending.votes.lookup (round, blockId) with
  | some votes => order.arrange votes.values
  | none => []

def checkQuorum (order : Iteration V N S) (pending : PendingVotes V H S) (key : U64 × H)
    (verifier : ValidatorVerifier B V N S A) : Bool :=
  match pending.votes.lookup key with
  | some votes =>
    match (SignatureAggregator.collect verifier (order.votes.arrange votes.values)).checkQuorum order.checked verifier with
    | .ok () => true
    | .error _ => false
  | none => false

/-- `entry(key).or_insert_with(HashMap::new).insert(signature, vote)`. -/
def store (pending : PendingVotes V H S) (key : U64 × H) (vote : V) : PendingVotes V H S :=
  let bucket := (pending.votes.lookup key).getD ∅
  { pending with votes := pending.votes.insert key (bucket.insert (Vote.signature vote) vote) }

def voteCount (pending : PendingVotes V H S) (round : U64) (blockId : H) : Nat :=
  match pending.votes.lookup (round, blockId) with
  | some votes => votes.len
  | none => 0

/-- The power of every stored vote of an author the verifier knows. -/
def aggregatedVotingPower (pending : PendingVotes V H S) (round : U64) (blockId : H)
    (verifier : ValidatorVerifier B V N S A) : Nat :=
  match pending.votes.lookup (round, blockId) with
  | some votes => ((votes.values.filterMap fun vote => verifier.getVotingPower (Vote.author vote)).map Fin.val).sum
  | none => 0

def canFormQuorum (pending : PendingVotes V H S) (round : U64) (blockId : H) (verifier : ValidatorVerifier B V N S A) : Bool :=
  pending.aggregatedVotingPower round blockId verifier ≥ verifier.quorumVotingPower

def totalVotes (pending : PendingVotes V H S) : Nat := (pending.votes.values.map HashMap.len).sum

def isDuplicate (pending : PendingVotes V H S) (key : U64 × H) (vote : V) : Bool :=
  match pending.votes.lookup key with
  | some votes => Vote.signature vote ∈ votes
  | none => false

def addVote (order : Iteration V N S) (pending : PendingVotes V H S) (vote : V)
    (verifier : ValidatorVerifier B V N S A) : VoteReceptionResult × PendingVotes V H S :=
  let key := (Vote.round vote, Vote.blockId vote)
  if Vote.round vote < pending.currentRound then (.oldRound, pending)
  else if pending.isDuplicate key vote then (.rejected .rejected, pending)
  else
    let stored := pending.store key vote
    if stored.checkQuorum order key verifier then (.quorumCompleted, stored) else (.accepted, stored)

end PendingVotes
end AptosBft
