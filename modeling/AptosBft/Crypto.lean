import AptosBft.Traits

/-! `crypto/signature_aggregator.rs`. A signer is counted once, with the first
signature and power it was added with. -/

namespace AptosBft
open Rust

structure SignatureAggregator (N S : Type) where
  signatures : HashMap N S
  votingPower : Nat
  signerCount : Nat

namespace SignatureAggregator
variable {B V H N S A : Type} [DecidableEq N]

def new : SignatureAggregator N S := ⟨∅, 0, 0⟩

def addSignature (aggregator : SignatureAggregator N S) (validatorId : N) (signature : S) (votingPower : U64) :
    SignatureAggregator N S :=
  if validatorId ∈ aggregator.signatures then aggregator
  else
    { signatures := aggregator.signatures.insert validatorId signature
      votingPower := aggregator.votingPower + votingPower.val
      signerCount := aggregator.signerCount + 1 }

/-- `add_signature` in the words of its fields, a `u128` and a `usize`. Neither addition is
checked. -/
def addSignatureWords (profile : Profile) (aggregator : SignatureAggregator N S) (validatorId : N) (signature : S)
    (votingPower : U64) : Except Panic Unit × SignatureAggregator N S :=
  if validatorId ∈ aggregator.signatures then (.ok (), aggregator)
  else match U128.plus profile aggregator.votingPower votingPower.val with
    | .error reason => (.error reason, aggregator)
    | .ok power => match Usize.plus profile aggregator.signerCount 1 with
      | .error reason => (.error reason, { aggregator with votingPower := power })
      | .ok count => (.ok (), ⟨aggregator.signatures.insert validatorId signature, power, count⟩)

/-- The loop of `PendingVotes::check_quorum` and of the certificate formation:
authors the verifier does not know are skipped. -/
def collect [Vote V B H N S A] (verifier : ValidatorVerifier B V N S A) (votes : List V) : SignatureAggregator N S :=
  votes.foldl (fun aggregator vote =>
    match verifier.getVotingPower (Vote.author vote) with
    | some votingPower => aggregator.addSignature (Vote.author vote) (Vote.signature vote) votingPower
    | none => aggregator) new

def checkQuorum (order : Order (N × S)) (aggregator : SignatureAggregator N S)
    (verifier : ValidatorVerifier B V N S A) : Except VerifyError Unit :=
  verifier.checkVotingPower ((order.arrange aggregator.signatures.pairs).map Prod.fst) true

def aggregate (order : Order (N × S)) (aggregator : SignatureAggregator N S)
    (verifier : ValidatorVerifier B V N S A) : Except Error A :=
  verifier.aggregateSignatures ((order.arrange aggregator.signatures.pairs).map Prod.snd)

omit [DecidableEq N] in
def clear (aggregator : SignatureAggregator N S) : SignatureAggregator N S :=
  { aggregator with signatures := ∅, votingPower := 0, signerCount := 0 }

def hasSigned (aggregator : SignatureAggregator N S) (validatorId : N) : Bool := validatorId ∈ aggregator.signatures

def getSignature (aggregator : SignatureAggregator N S) (validatorId : N) : Option S := aggregator.signatures.lookup validatorId

end SignatureAggregator
end AptosBft
