import AptosBft.Proofs.VoteBuffer
import AptosBft.Proofs.VoteOutcome

/-! Votes that wait. A quorum is looked for whenever a vote is stored, so the votes that
stay in the buffer are short of one unless their certificate failed. -/

namespace AptosBft.Proofs.WaitingVotes
open Rust Mealy AptosBft.RoundManager AptosBft.Proofs.RoundManager AptosBft.Proofs.PendingVotes
open AptosBft.Proofs.QuorumUniqueness AptosBft.Proofs.QuorumDetection AptosBft.Proofs.HighestCert

variable {B V QC H N S A T : Type} [DecidableEq H] [DecidableEq N] [DecidableEq S] [Vote V B H N S A] {verifier : ValidatorVerifier B V N S A}
  {pending kept : PendingVotes V H S} {manager : RoundManager B V QC H S} {vote : V} {order : Iteration V N S} {round : U64} {blockId : H}

/-- The stored votes for a block are not a quorum. -/
def Short (verifier : ValidatorVerifier B V N S A) (pending : PendingVotes V H S) (round : U64) (blockId : H) : Prop :=
  ∑ voter ∈ backers verifier (pending.getVotes .insertion round blockId), votingPower verifier voter < verifier.quorumVotingPower

theorem Short.fewer (short : Short verifier pending round blockId)
    (subset : ∀ signature held, Holds kept (round, blockId) signature held → Holds pending (round, blockId) signature held) :
    Short verifier kept round blockId := by
  refine lt_of_le_of_lt (Finset.sum_le_sum_of_subset ?_) short
  intro voter member
  obtain ⟨⟨cast, listed, same⟩, known⟩ := mem_backers.mp member
  obtain ⟨signature, inside⟩ := mem_getVotes.mp listed
  exact mem_backers.mpr ⟨⟨cast, mem_getVotes.mpr ⟨signature, subset signature cast inside⟩, same⟩, known⟩

theorem short_of_none (positive : 0 < verifier.quorumVotingPower)
    (nothing : ∀ signature held, ¬Holds pending (round, blockId) signature held) : Short verifier pending round blockId := by
  have empty : pending.getVotes .insertion round blockId = [] := by
    rw [List.eq_nil_iff_forall_not_mem]
    intro vote listed
    obtain ⟨signature, held⟩ := mem_getVotes.mp listed
    exact nothing signature vote held
  rw [Short, empty]
  exact positive

/-- Whether a vote completes a quorum is told by the votes for its block after it is
stored. -/
theorem completes_iff (tests : TestsQuorum verifier) (order : Iteration V N S) (manager : RoundManager B V QC H S) (vote : V) :
    completes order manager vote verifier = false ↔
      Short verifier (stored manager vote).pendingVotes (Vote.round vote) (Vote.blockId vote) := by
  have bucket : (stored manager vote).pendingVotes.votes.lookup (Vote.round vote, Vote.blockId vote) = some _ :=
    AList.lookup_insert manager.pendingVotes.votes
  have complete := checkQuorum_iff tests order bucket
  rw [backers_order] at complete
  rw [Short, ← not_le, ← complete, Bool.not_eq_true, completes]

/-- No block has a quorum of votes lying about. -/
def NoneWaiting (verifier : ValidatorVerifier B V N S A) (manager : RoundManager B V QC H S) : Prop :=
  ∀ round blockId, Short verifier manager.pendingVotes round blockId

def Uses (verifier : ValidatorVerifier B V N S A) : Call B V QC N S A T → Prop
  | .processVote _ _ other => other = verifier
  | _ => True

/-- A stored vote changes the votes for its own block only. -/
theorem short_stored (idle : NoneWaiting verifier manager) (other : (round, blockId) ≠ (Vote.round vote, Vote.blockId vote)) :
    Short verifier (stored manager vote).pendingVotes round blockId := by
  refine (idle round blockId).fewer ?_
  intro signature held inside
  obtain ⟨same, _, _⟩ | ⟨_, before⟩ := holds_store.mp inside
  · exact absurd same other
  · exact before

theorem noneWaiting_stored (tests : TestsQuorum verifier) (order : Iteration V N S) (idle : NoneWaiting verifier manager) (vote : V) :
    NoneWaiting verifier (stored manager vote) ↔ completes order manager vote verifier = false := by
  rw [completes_iff tests]
  constructor
  · intro waiting
    exact waiting _ _
  · intro short round blockId
    by_cases own : (round, blockId) = (Vote.round vote, Vote.blockId vote)
    · obtain ⟨rfl, rfl⟩ := Prod.mk.inj own
      exact short
    · exact short_stored idle own

variable [Block B H] [QuorumCertificate QC H] [FromVotes QC V A]

/-- A vote that completes a quorum gets its certificate. -/
def FormsItsQuorum (current : ManagerEvent B V QC H N S A T) : Prop :=
  match current.input with
  | .processVote order vote verifier => Fresh current.before vote verifier →
    completes order current.before vote verifier = true → current.output = .vote (.ok .quorumCompleted)
  | _ => True

theorem noneWaiting_vote (profile : Profile) (tests : TestsQuorum verifier) (order : Iteration V N S)
    (idle : NoneWaiting verifier manager) (vote : V) :
    NoneWaiting verifier (manager.processVote profile order vote verifier).2 ↔
      FormsItsQuorum (event (call profile) manager (.processVote order vote verifier : Call B V QC N S A T)) := by
  simp only [FormsItsQuorum, event, call]
  by_cases fresh : Fresh manager vote verifier
  case neg =>
    rw [unfresh_unchanged fresh]
    exact iff_of_true idle fun now => absurd now fresh
  rw [fresh.processVote]
  cases quorum : completes order manager vote verifier with
  | false =>
    exact iff_of_true ((noneWaiting_stored tests order idle vote).mpr quorum) fun _ impossible => absurd impossible Bool.false_ne_true
  | true =>
    obtain ⟨failure, failed⟩ | ⟨qc, _, _, formed⟩ :=
      form_cases profile order (stored manager vote) verifier (Vote.blockId vote) (Vote.round vote)
    · simp only [failed, ite_true]
      refine iff_of_false ?_ fun forms => by cases forms fresh trivial
      intro waiting
      have short := (noneWaiting_stored tests order idle vote).mp waiting
      rw [quorum] at short
      cases short
    · simp only [formed, ite_true]
      refine iff_of_true ?_ fun _ _ => trivial
      intro round blockId
      refine (idle round blockId).fewer ?_
      intro signature held inside
      obtain ⟨apart, before⟩ := holds_removeRound.mp inside
      obtain ⟨same, _, _⟩ | ⟨_, older⟩ := holds_store.mp before
      · exact absurd (congrArg Prod.fst same) apart
      · exact older

/-- The other calls store no vote. -/
theorem noneWaiting_other (profile : Profile) (idle : NoneWaiting verifier manager) {input : Call B V QC N S A T}
    (noVote : ∀ order vote verifier, input ≠ .processVote order vote verifier) :
    NoneWaiting verifier (call profile manager input).2 := by
  have effect := call_effect profile manager input
  generalize call profile manager input = answer at effect ⊢
  obtain ⟨reply, after⟩ := answer
  cases effect with
  | quiet => exact idle
  | proposed => exact idle
  | kept => exact absurd rfl (noVote _ _ _)
  | completed => exact absurd rfl (noVote _ _ _)
  | timedOut => exact fun round blockId => (idle round blockId).fewer fun _ _ inside => (holds_setRound.mp inside).2
  | started => exact fun round blockId => (idle round blockId).fewer fun _ _ inside => (holds_setRound.mp inside).2

theorem noneWaiting_iff (profile : Profile) (tests : TestsQuorum verifier) (idle : NoneWaiting verifier manager)
    {input : Call B V QC N S A T} (uses : Uses verifier input) :
    NoneWaiting verifier (call profile manager input).2 ↔ FormsItsQuorum (event (call profile) manager input) := by
  cases input with
  | processVote order vote other =>
    obtain rfl : other = verifier := uses
    exact noneWaiting_vote profile tests order idle vote
  | _ => exact iff_of_true (noneWaiting_other profile idle (by simp)) trivial

/-- Over a run with one verifier, a quorum of votes for a block lies in the buffer exactly
if a certificate could not be formed of it when its last vote came in. -/
theorem quorums_wait_iff_unformed (profile : Profile) (tests : TestsQuorum verifier) (positive : 0 < verifier.quorumVotingPower)
    (config : RoundManagerConfig) (safetyRules : TwoChainSafetyRules) (calls : List (Call B V QC N S A T))
    (uses : ∀ input ∈ calls, Uses verifier input) :
    let run := trace (call profile) (.new config safetyRules : RoundManager B V QC H S) calls
    (∀ current ∈ run, NoneWaiting verifier current.after) ↔ ∀ current ∈ run, FormsItsQuorum current := by
  intro run
  have used : ∀ current ∈ run, Uses verifier current.input := meets_iff_trace.mp (meets_of_forall uses)
  have both : (∀ current ∈ run, Uses verifier current.input ∧ NoneWaiting verifier current.after) ↔
      ∀ current ∈ run, Uses verifier current.input ∧ FormsItsQuorum current := by
    have initial : NoneWaiting verifier (.new config safetyRules : RoundManager B V QC H S) :=
      fun round blockId => short_of_none positive fun _ _ inside => not_holds_new _ _ _ _ inside
    refine forall_trace_iff ?_ ?_ initial calls
    · intro manager input idle
      exact and_congr_right fun uses => noneWaiting_iff profile tests idle uses
    · intro manager input idle here
      exact (noneWaiting_iff profile tests idle here.1).mpr here.2
  constructor
  · intro waiting current member
    exact (both.mp (fun current member => ⟨used current member, waiting current member⟩) current member).2
  · intro forms current member
    exact (both.mpr (fun current member => ⟨used current member, forms current member⟩) current member).2

theorem third_vote_leaves_none_waiting :
    let set := MockValidatorSet.new [(⟨1⟩, 1), (⟨2⟩, 1), (⟨3⟩, 1), (⟨4⟩, 1)]
    let hand (author : UInt8) : Call MockBlock MockVote VotedCert MockHash MockSignature MockAggregatedSignature MockSignature :=
      .processVote .insertion (.new ⟨author⟩ ⟨7⟩ 1) set.verifier
    let run := trace (call .dev) (.new .default (.new 0) : RoundManager MockBlock MockVote VotedCert MockHash MockSignature)
      [hand 1, hand 2, .processTimeout, hand 3]
    run.getLast?.map Event.output = some (.vote (.ok .quorumCompleted)) ∧
      ∀ current ∈ run, NoneWaiting set.verifier current.after := by
  intro set hand run
  refine ⟨by decide, ?_⟩
  have weighs : Weighs set.verifier set.validators.keys.toFinset := mock_weighs set (by decide)
  have positive : 0 < set.verifier.quorumVotingPower := by decide
  apply (quorums_wait_iff_unformed .dev weighs.checks positive .default (.new 0) _ (by simp [Uses, hand])).mpr
  simp only [forall_trace_cons, forall_trace_nil, and_true]
  refine ⟨?_, ?_, trivial, ?_⟩
  · exact fun _ quorum => absurd quorum (by decide)
  · exact fun _ quorum => absurd quorum (by decide)
  · exact fun _ _ => by decide

end AptosBft.Proofs.WaitingVotes
