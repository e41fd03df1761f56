import AptosBft.Lib.HashMap
import AptosBft.Lib.Rust

/-! The traits of `consensus-traits` that the engine is generic over. A
blockchain supplies the types and the methods; each class holds the methods that
modelled code calls. Accessors that read through a part of a value
(`metadata().round()`, `ledger_info().epoch()`) are one method here. -/

namespace AptosBft
open Rust

/-- `anyhow::Error`, which carries the text of the error it was made from. -/
structure Error where
  message : String
  deriving DecidableEq, Repr

inductive VerifyError where
  | unknownAuthor
  | tooLittleVotingPower (votingPower expectedVotingPower : Nat)
  | invalidSignature
  | invalidAggregatedSignature
  deriving DecidableEq, Repr

def VerifyError.toError : VerifyError → Error
  | .unknownAuthor => ⟨"Author is unknown"⟩
  | .tooLittleVotingPower votingPower expectedVotingPower =>
    ⟨s!"The voting power ({votingPower}) is less than expected ({expectedVotingPower})"⟩
  | .invalidSignature => ⟨"Signature verification failed"⟩
  | .invalidAggregatedSignature => ⟨"Aggregated signature is invalid"⟩

class Block (B : Type) (H : outParam Type) where
  id : B → H
  parentId : B → H
  epoch : B → U64
  round : B → U64
  verifySignature : B → Except Error Unit
  newGenesis : B

/-- `QuorumCertificate`; `epoch` and `round` are those of the certified block. -/
class QuorumCertificate (QC : Type) (H : outParam Type) where
  blockId : QC → H
  epoch : QC → U64
  round : QC → U64

/-- `QuorumCertificate::verify`. -/
class VerifiableCert (QC : Type) where
  verify : QC → Except Error Unit

/-- `QuorumCertificate::from_votes`, for the votes `V` and aggregated signatures
`A` of one blockchain. -/
class FromVotes (QC V A : Type) where
  fromVotes : List V → A → Except Error QC

/-- `ValidatorVerifier`. The `u128` totals are natural numbers. The `signers`
and `signatures` iterators are lists in the order the caller produced them. -/
structure ValidatorVerifier (B V N S A : Type) where
  verifyVote : V → Except Error Unit
  verifyBlock : B → Except Error Unit
  getVotingPower : N → Option U64
  totalVotingPower : Nat
  quorumVotingPower : Nat
  checkVotingPower : List N → Bool → Except VerifyError Unit
  aggregateSignatures : List S → Except Error A

/-- `Vote`; `epoch` is `ledger_info().epoch()`. -/
class Vote (V : Type) (B H N S A : outParam Type) where
  author : V → N
  signature : V → S
  blockId : V → H
  round : V → U64
  epoch : V → U64
  verify : V → ValidatorVerifier B V N S A → Except Error Unit

/-- `vote_data().proposed_block().round()`, a method apart from the vote's `round`. -/
class VoteData (V : Type) where
  proposedRound : V → U64

/-- `ProposerElection`; the participation ratio is not read. -/
class ProposerElection (E : Type) (O : outParam Type) where
  getValidProposer : E → U64 → Option O

end AptosBft
