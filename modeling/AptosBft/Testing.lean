import AptosBft.Calls
import AptosBft.SafetyRules.Recovery

/-! The mock blockchain of `testing/`, the instance the repository runs its own
tests on, and the mock storage of the recovery tests. -/

namespace AptosBft
open Rust

structure MockHash where
  byte : UInt8
  deriving DecidableEq, Repr

structure MockSignature where
  byte : UInt8
  deriving DecidableEq, Repr

structure MockAggregatedSignature where
  deriving DecidableEq, Repr

structure MockBlockMetadata where
  epoch : U64
  round : U64
  author : MockHash
  parentId : MockHash
  timestamp : U64
  deriving DecidableEq, Repr

def MockBlockMetadata.genesis : MockBlockMetadata := ⟨0, 0, ⟨0⟩, ⟨0⟩, 0⟩

structure MockQuorumCert where
  metadata : MockBlockMetadata
  blockId : MockHash
  deriving DecidableEq, Repr

/-- The mock block without its transactions, which no modelled code reads. -/
structure MockBlock where
  metadata : MockBlockMetadata
  deriving DecidableEq, Repr

instance : Block MockBlock MockHash where
  id block := ⟨UInt8.ofNat block.metadata.round.val ^^^ block.metadata.author.byte⟩
  parentId block := block.metadata.parentId
  epoch block := block.metadata.epoch
  round block := block.metadata.round
  verifySignature _ := .ok ()
  newGenesis := ⟨.genesis⟩

instance : QuorumCertificate MockQuorumCert MockHash where
  blockId qc := qc.blockId
  epoch qc := qc.metadata.epoch
  round qc := qc.metadata.round

instance : VerifiableCert MockQuorumCert where
  verify _ := .ok ()

structure MockVote where
  author : MockHash
  blockId : MockHash
  round : U64
  signature : MockSignature
  deriving DecidableEq, Repr

/-- `MockVote::new`: the signature repeats the author's byte. -/
def MockVote.new (author blockId : MockHash) (round : U64) : MockVote := ⟨author, blockId, round, ⟨author.byte⟩⟩

instance : Vote MockVote MockBlock MockHash MockHash MockSignature MockAggregatedSignature where
  author vote := vote.author
  signature vote := vote.signature
  blockId vote := vote.blockId
  round vote := vote.round
  epoch _ := 0
  verify _ _ := .ok ()

instance : VoteData MockVote where
  proposedRound _ := MockBlockMetadata.genesis.round

instance : FromVotes MockQuorumCert MockVote MockAggregatedSignature where
  fromVotes _ _ := .ok ⟨.genesis, ⟨0⟩⟩

structure MockValidatorSet where
  validators : HashMap MockHash U64
  totalVotingPower : Nat
  quorumThreshold : Nat

namespace MockValidatorSet

def new (validators : List (MockHash × U64)) : MockValidatorSet :=
  let totalPower := (validators.map fun validator => validator.2.val).sum
  { validators := validators.foldl (fun map validator => map.insert validator.1 validator.2) ∅
    totalVotingPower := totalPower
    quorumThreshold := totalPower * 2 / 3 + 1 }

def checkVotingPower (set : MockValidatorSet) (signers : List MockHash) (checkQuorum : Bool) : Except VerifyError Unit :=
  let power := signers.foldl (fun power signer =>
    match set.validators.lookup signer with
    | some votingPower => power + votingPower.val
    | none => power) 0
  if checkQuorum && power < set.quorumThreshold then .error (.tooLittleVotingPower power set.quorumThreshold)
  else .ok ()

def verifier (set : MockValidatorSet) :
    ValidatorVerifier MockBlock MockVote MockHash MockSignature MockAggregatedSignature where
  verifyVote vote := if vote.author ∈ set.validators then .ok () else .error VerifyError.unknownAuthor.toError
  verifyBlock _ := .ok ()
  getVotingPower validator := set.validators.lookup validator
  totalVotingPower := set.totalVotingPower
  quorumVotingPower := set.quorumThreshold
  checkVotingPower := set.checkVotingPower
  aggregateSignatures _ := .ok ⟨⟩

end MockValidatorSet

def makeBlock (round epoch : U64) (author : UInt8) (parentId : MockHash) : MockBlock :=
  ⟨⟨epoch, round, ⟨author⟩, parentId, round * 1000⟩⟩

def makeQc (round epoch : U64) (blockId : MockHash) : MockQuorumCert :=
  ⟨⟨epoch, round, blockId, blockId, round * 1000⟩, blockId⟩

def makeTc (round epoch hqcRound : U64) : TwoChainTimeoutCertificate MockSignature :=
  ⟨epoch, round, hqcRound, 0, ⟨epoch, round, hqcRound⟩, ⟨0⟩⟩

/-- A word as bincode writes it: its bytes, the lowest first. -/
def bincodeBytes : Nat → Nat → List UInt8
  | 0, _ => []
  | width + 1, value => UInt8.ofNat value :: bincodeBytes width (value / 256)

def ofBincodeBytes : List UInt8 → Nat
  | [] => 0
  | byte :: rest => byte.toNat + 256 * ofBincodeBytes rest

def readBincodeWord (bytes : List UInt8) : Option (U64 × List UInt8) :=
  if bytes.length < 8 then none else some (Fin.ofNat _ (ofBincodeBytes (bytes.take 8)), bytes.drop 8)

/-- bincode, as the serialization tests use it. Their signature is a unit struct,
which takes no bytes; trailing bytes are allowed. -/
def bincode : TwoChainTimeoutCertificate.Format Unit (List UInt8) where
  write fields :=
    bincodeBytes 8 fields.epoch.val ++ bincodeBytes 8 fields.round.val ++ bincodeBytes 8 fields.hqcRound.val ++
      bincodeBytes 8 fields.highestTcRound.val
  read bytes := do
    let (epoch, bytes) ← readBincodeWord bytes
    let (round, bytes) ← readBincodeWord bytes
    let (hqcRound, bytes) ← readBincodeWord bytes
    let (highestTcRound, _) ← readBincodeWord bytes
    return ⟨epoch, round, hqcRound, highestTcRound, ()⟩

abbrev MockManager := RoundManager MockBlock MockVote MockQuorumCert MockHash MockSignature

abbrev MockCall :=
  RoundManager.Call MockBlock MockVote MockQuorumCert MockHash MockSignature MockAggregatedSignature MockSignature

def MockVote.hand (vote : MockVote) (set : MockValidatorSet) : MockCall := .processVote .insertion vote set.verifier

structure TestAuthor where
  byte : UInt8
  deriving DecidableEq, Repr

structure TestProposerElection where
  validators : List TestAuthor
  deriving DecidableEq, Repr

instance : ProposerElection TestProposerElection TestAuthor where
  getValidProposer election round := election.validators[round.val % election.validators.length]?

/-- Whole numbers, which `f64` represents exactly as long as they are small. -/
instance wholeFloating : Floating Nat where
  ofU64 value := value.val
  powf base exponent := base ^ exponent
  mul left right := left * right
  ceil value := value
  lt left right := left < right
  toU64 value := if fits : value < 18446744073709551616 then ⟨value, fits⟩ else u64Max

abbrev MockConsensus :=
  Consensus MockBlock MockVote MockQuorumCert MockHash MockSignature Nat TestProposerElection TestAuthor

abbrev MockRuntime :=
  ConsensusRuntime MockBlock MockVote MockQuorumCert MockHash MockSignature Nat TestProposerElection TestAuthor

/-- The default configuration but for the epoch and the first round of the pacemaker. -/
def mockConfig (epoch round : U64) : ConsensusConfig Nat :=
  { (.default : ConsensusConfig Nat) with
    initialEpoch := epoch
    pacemakerConfig := { (.default : PacemakerConfig Nat) with initialRound := round } }

abbrev MockHandler := ReconfigHandler TestAuthor TestProposerElection

def createTestValidatorSet (epoch : U64) (count : Nat) : ValidatorSet TestAuthor :=
  .new epoch ((List.range count).map fun index => (⟨⟨UInt8.ofNat index⟩, 100⟩ : (_ : TestAuthor) × U64)).toFinmap

instance : ToString TestAuthor := ⟨fun author => s!"TestAuthor({author.byte.toNat})"⟩

structure TestCertifiedNode where
  round : U64
  author : TestAuthor
  deriving DecidableEq, Repr

instance : CertifiedNode TestCertifiedNode U64 TestAuthor := ⟨TestCertifiedNode.round, TestCertifiedNode.author⟩

def createTestNode (round : U64) (author : UInt8) : TestCertifiedNode := ⟨round, ⟨author⟩⟩

abbrev TestDag := InMemDag U64 TestAuthor TestCertifiedNode

structure MockStorage where
  state : Option SafetyStateData
  shouldFail : Bool
  deriving DecidableEq, Repr

/-- The bincode round trip of the mock is the identity on a safety state. -/
instance : ConsensusStorage MockStorage where
  saveSafetyState storage state :=
    if storage.shouldFail then (.error ⟨"Storage error: Storage error"⟩, storage)
    else (.ok (), { storage with state := some state })
  getSafetyState storage :=
    if storage.shouldFail then .error ⟨"Storage error: Storage error"⟩ else .ok storage.state

end AptosBft
