import AptosBft.Proofs.Engine
import AptosBft.Proofs.HighestCert
import AptosBft.Proofs.QuorumDetection

/-! What a vote leaves behind, and what its sender is told. A vote that completes a
quorum writes to all three parts of the manager, one after the other, and the
certificate is built in between. -/

namespace AptosBft.Proofs.VoteOutcome
open Rust Mealy AptosBft.RoundManager AptosBft.Proofs.RoundManager AptosBft.Proofs.PendingVotes
open AptosBft.Proofs.QuorumUniqueness AptosBft.Proofs.QuorumDetection AptosBft.Proofs.Representation AptosBft.Proofs.HighestCert

variable {B V QC H N S A T F E O : Type} [DecidableEq H] [DecidableEq N] [DecidableEq S] [Vote V B H N S A]

section Quorum

/-- Whether distinct signers pass `check_voting_power` depends on who they are only. -/
def Unordered (verifier : ValidatorVerifier B V N S A) : Prop :=
  ∀ signers others : List N, signers.Nodup → signers.Perm others →
    verifier.checkVotingPower signers true = .ok () → verifier.checkVotingPower others true = .ok ()

omit [DecidableEq H] [DecidableEq N] [DecidableEq S] in
theorem unordered_of_tests {verifier : ValidatorVerifier B V N S A} (tests : TestsQuorum verifier) : Unordered verifier := by
  intro signers others distinct same passed
  have enough := (tests signers distinct).mp passed
  rw [(same.map _).sum_eq] at enough
  exact (tests others (same.nodup_iff.mp distinct)).mpr enough

omit [DecidableEq H] [DecidableEq S] in
theorem checkQuorum_reordered {verifier : ValidatorVerifier B V N S A} (unordered : Unordered verifier)
    (first second : Order (N × S)) {votes : List V}
    (passed : (SignatureAggregator.collect verifier votes).checkQuorum first verifier = .ok ()) :
    (SignatureAggregator.collect verifier votes).checkQuorum second verifier = .ok () := by
  have here := signers_perm first (SignatureAggregator.collect verifier votes)
  have there := signers_perm second (SignatureAggregator.collect verifier votes)
  have distinct := here.nodup_iff.mpr (SignatureAggregator.collect verifier votes).signatures.keys_nodup
  exact unordered _ _ distinct (here.trans there.symm) passed

/-- What `add_vote` found to be a quorum is one to the second check. -/
theorem quorum_confirmed {verifier : ValidatorVerifier B V N S A} (unordered : Unordered verifier) (order : Iteration V N S)
    {pending : PendingVotes V H S} {vote : V} (reached : (pending.addVote order vote verifier).1 = .quorumCompleted) :
    (SignatureAggregator.collect verifier ((pending.addVote order vote verifier).2.getVotes order.votes (Vote.round vote)
      (Vote.blockId vote))).checkQuorum order.formed verifier = .ok () := by
  simp only [PendingVotes.addVote] at reached ⊢
  split at reached
  · cases reached
  next recent =>
    split at reached
    · cases reached
    next unseen =>
      split at reached
      next quorum =>
        rw [if_neg recent, if_neg unseen, if_pos quorum]
        exact checkQuorum_reordered unordered _ _ (checkQuorum_getVotes quorum)
      next => cases reached

variable [QuorumCertificate QC H]

/-- All that completing a quorum with this vote does to a manager, and all that it
leaves alone. -/
structure Completed (manager after : RoundManager B V QC H S) (vote : V) (qc : QC) : Prop where
  certificate : after.roundState.quorumCert = some qc
  oneChain : after.safetyRules.state.oneChainRound = max manager.safetyRules.state.oneChainRound (Vote.round vote)
  preferred : after.safetyRules.state.preferredRound =
    if (Vote.round vote).val = manager.safetyRules.state.oneChainRound.val + 1 ∧
      manager.safetyRules.state.preferredRound < Vote.round vote then Vote.round vote
    else manager.safetyRules.state.preferredRound
  dropped : ∀ blockId, after.pendingVotes.votes.lookup (Vote.round vote, blockId) = none
  gone : ∀ key signature held, Holds after.pendingVotes key signature held → Vote.round held ≠ Vote.round vote
  others : ∀ key, key.1 ≠ Vote.round vote → after.pendingVotes.votes.lookup key = manager.pendingVotes.votes.lookup key
  round : after.roundState.round = manager.roundState.round
  proposedBlock : after.roundState.proposedBlock = manager.roundState.proposedBlock
  epochs : after.roundState.epoch = manager.roundState.epoch ∧ after.safetyRules.state.epoch = manager.safetyRules.state.epoch
  lastVoted : after.safetyRules.state.lastVotedRound = manager.safetyRules.state.lastVotedRound
  highestTimeout : after.safetyRules.state.highestTimeoutRound = manager.safetyRules.state.highestTimeoutRound

variable [Block B H] [FromVotes QC V A]

omit [QuorumCertificate QC H] [FromVotes QC V A] [Block B H] [DecidableEq N] in
theorem lookup_completed (manager : RoundManager B V QC H S) (vote : V) (key : U64 × H) :
    ((stored manager vote).pendingVotes.removeRound (Vote.round vote)).votes.lookup key =
      if key.1 = Vote.round vote then none else manager.pendingVotes.votes.lookup key := by
  simp only [PendingVotes.removeRound, HashMap.lookup_retain, decide_eq_true_eq, ne_eq, ite_not]
  split
  · rfl
  next other =>
    apply AList.lookup_insert_ne
    intro same
    exact other (congrArg Prod.fst same)

/-- A certificate that is formed of the vote's round leaves nothing else behind. -/
theorem completed_of_forms {profile : Profile} {order : Iteration V N S} {config : RoundManagerConfig}
    {calls : List (Call B V QC N S A T)} {manager : RoundManager B V QC H S} {vote : V}
    {verifier : ValidatorVerifier B V N S A} {qc : QC} (forms : Forms profile order manager vote verifier qc)
    (represents : Represents config calls manager) (round : QuorumCertificate.round qc = Vote.round vote) :
    Completed manager { manager with
      safetyRules := (manager.safetyRules.observeQc profile qc).2
      roundState := manager.roundState.setQuorumCert qc
      pendingVotes := (stored manager vote).pendingVotes.removeRound (Vote.round vote) } vote qc := by
  have state := SafetyRules.observeQc_state profile manager.safetyRules qc
  rw [round] at state
  refine ⟨rfl, congrArg SafetyStateData.oneChainRound state, ?_, ?_, ?_, ?_, rfl, rfl, ⟨rfl, ?_⟩, ?_, ?_⟩
  · refine (congrArg SafetyStateData.preferredRound state).trans ?_
    simp only [Journal.apply, ite_and]
    split
    · exact max_def_lt _ _
    · rfl
  · intro blockId
    rw [lookup_completed, if_pos rfl]
  -- A vote lies under its own round, so dropping the keys of the round drops its votes.
  · intro key signature held inside same
    obtain ⟨apart, before⟩ := holds_removeRound.mp inside
    have place := ((represents.stored order forms.fresh).place key signature held before).1
    exact apart ((congrArg Prod.fst place).trans same)
  · intro key apart
    rw [lookup_completed, if_neg apart]
  · exact (congrArg SafetyStateData.epoch state).trans rfl
  · exact (congrArg SafetyStateData.lastVotedRound state).trans rfl
  · exact (congrArg SafetyStateData.highestTimeoutRound state).trans rfl

/-- A vote that completes a quorum of a manager in any state it can reach has exactly
the effect of `Completed`, with the certificate built from the votes for its block; and
the quorum `add_vote` reports is always confirmed. -/
theorem quorum_completion_exact (profile : Profile) (config : RoundManagerConfig) (safetyRules : TwoChainSafetyRules)
    (calls : List (Call B V QC N S A T)) (order : Iteration V N S) (vote : V) {verifier : ValidatorVerifier B V N S A}
    (unordered : Unordered verifier) (faithful : Faithful QC V A) :
    let manager := exec (call profile) (.new config safetyRules : RoundManager B V QC H S) calls
    ((manager.processVote profile order vote verifier).1 = .ok .quorumCompleted → ∃ qc : QC,
      (stored manager vote).buildQuorumCertificate order (Vote.blockId vote) (Vote.round vote) verifier = .ok qc ∧
      Completed manager (manager.processVote profile order vote verifier).2 vote qc) ∧
    ((manager.pendingVotes.addVote order vote verifier).1 = .quorumCompleted →
      (SignatureAggregator.collect verifier ((manager.pendingVotes.addVote order vote verifier).2.getVotes order.votes
        (Vote.round vote) (Vote.blockId vote))).checkQuorum order.formed verifier = .ok ()) := by
  intro manager
  refine ⟨?_, quorum_confirmed unordered order⟩
  intro done
  have represents := represents_exec profile config safetyRules calls
  obtain ⟨qc, forms⟩ := completed_iff_forms.mp done
  refine ⟨qc, forms.built, ?_⟩
  rw [forms.processVote]
  exact completed_of_forms forms represents (forms.round faithful represents)

theorem third_vote_completes_round :
    let set := MockValidatorSet.new [(⟨1⟩, 1), (⟨2⟩, 1), (⟨3⟩, 1), (⟨4⟩, 1)]
    let vote (author block : UInt8) (round : U64) : MockVote := .new ⟨author⟩ ⟨block⟩ round
    let hand (vote : MockVote) : Call MockBlock MockVote VotedCert MockHash MockSignature MockAggregatedSignature MockSignature :=
      .processVote .insertion vote set.verifier
    let calls := [hand (vote 1 7 1), hand (vote 2 7 1), hand (vote 4 8 1), hand (vote 4 9 2)]
    let manager : RoundManager MockBlock MockVote VotedCert MockHash MockSignature :=
      exec (call .dev) (.new .default (.new 0)) calls
    ∃ qc, Completed manager (manager.processVote .dev .insertion (vote 3 7 1) set.verifier).2 (vote 3 7 1) qc := by
  intro set vote hand calls manager
  have unordered : Unordered set.verifier := unordered_of_tests (mock_weighs set (by decide)).checks
  have exactly := quorum_completion_exact .dev .default (.new 0) calls .insertion (vote 3 7 1) unordered votedCert_faithful
  obtain ⟨qc, _, completed⟩ := exactly.1 (by decide)
  exact ⟨qc, completed⟩

end Quorum

section Atomicity
variable [QuorumCertificate QC H] [Block B H] [FromVotes QC V A]

/-- A vote that ends in an error leaves the manager as it was, so handing it in again
ends the same way. -/
def Atomic (profile : Profile) (current : ManagerEvent B V QC H N S A T) : Prop :=
  match current.input with
  | .processVote .. => ∀ error, current.output = .vote (.error (.err error)) →
    current.after = current.before ∧ (call profile current.after current.input).1 = current.output
  | _ => True

/-- A vote that gets past the checks and completes the quorum of its block is one whose
votes pass the second check, aggregate and make a certificate. -/
def Certifiable (current : ManagerEvent B V QC H N S A T) : Prop :=
  match current.input with
  | .processVote order vote verifier =>
    let votes := (stored current.before vote).pendingVotes.getVotes order.votes (Vote.round vote) (Vote.blockId vote)
    let aggregator := SignatureAggregator.collect verifier votes
    Fresh current.before vote verifier → completes order current.before vote verifier = true →
      aggregator.checkQuorum order.formed verifier = .ok () ∧
        ∃ aggregatedSig, aggregator.aggregate order.formed verifier = .ok aggregatedSig ∧
          ∃ qc : QC, FromVotes.fromVotes votes aggregatedSig = .ok qc
  | _ => True

omit [QuorumCertificate QC H] [FromVotes QC V A] [Block B H] [DecidableEq N] in
/-- A vote that was not stored before shows in the pending votes. -/
theorem stored_ne {manager : RoundManager B V QC H S} {vote : V} {verifier : ValidatorVerifier B V N S A}
    (fresh : Fresh manager vote verifier) : stored manager vote ≠ manager := by
  intro same
  have held : Holds (stored manager vote).pendingVotes (Vote.round vote, Vote.blockId vote) (Vote.signature vote) vote :=
    holds_store.mpr (Or.inl ⟨rfl, rfl, rfl⟩)
  rw [same] at held
  have seen := isDuplicate_iff.mpr ⟨vote, held⟩
  exact Bool.false_ne_true (fresh.unseen.symm.trans seen)

omit [Block B H] in
theorem processVote_unbuilt (profile : Profile) {order : Iteration V N S} {manager : RoundManager B V QC H S} {vote : V}
    {verifier : ValidatorVerifier B V N S A} {error : Error} (fresh : Fresh manager vote verifier)
    (quorum : completes order manager vote verifier = true)
    (unbuilt : (stored manager vote).buildQuorumCertificate order (Vote.blockId vote) (Vote.round vote) verifier =
      (.error error : Except Error QC)) :
    manager.processVote profile order vote verifier = (.error (.err error), stored manager vote) := by
  rw [fresh.processVote, if_pos quorum]
  simp only [formQuorumCertificateForBlock, unbuilt]

omit [Block B H] in
/-- Once the certificate is built only a panic can come. -/
theorem processVote_built (profile : Profile) {order : Iteration V N S} {manager : RoundManager B V QC H S} {vote : V}
    {verifier : ValidatorVerifier B V N S A} {qc : QC} (fresh : Fresh manager vote verifier)
    (quorum : completes order manager vote verifier = true)
    (built : (stored manager vote).buildQuorumCertificate order (Vote.blockId vote) (Vote.round vote) verifier = .ok qc)
    (error : Error) : (manager.processVote profile order vote verifier).1 ≠ .error (.err error) := by
  rw [fresh.processVote, if_pos quorum]
  simp only [formQuorumCertificateForBlock, built, TwoChainSafetyRules.observeQc]
  cases U64.plus profile (stored manager vote).safetyRules.state.oneChainRound 1 with
  | error reason => simp
  | ok next => simp

theorem atomic_iff (profile : Profile) (manager : RoundManager B V QC H S) (input : Call B V QC N S A T) :
    Atomic profile (event (call profile) manager input) ↔ Certifiable (event (call profile) manager input) := by
  cases input with
  | processVote order vote verifier =>
    simp only [Atomic, Certifiable, event, call, Reply.vote.injEq]
    by_cases fresh : Fresh manager vote verifier
    case neg =>
      refine iff_of_true ?_ (fun passed => absurd passed fresh)
      intro error _
      obtain ⟨result, turned, _⟩ | ⟨passed, _⟩ | ⟨passed, _⟩ | ⟨passed, _⟩ :=
        processVote_cases profile order manager vote verifier
      · rw [turned]
        exact ⟨rfl, by rw [turned]⟩
      · exact absurd passed fresh
      · exact absurd passed fresh
      · exact absurd passed fresh
    -- From here on the vote is stored, and only building the certificate can still fail.
    cases quorum : completes order manager vote verifier with
    | false =>
      refine iff_of_true ?_ (fun _ reached => absurd reached Bool.false_ne_true)
      intro error failed
      rw [fresh.processVote, quorum] at failed
      cases failed
    | true =>
      cases built : (stored manager vote).buildQuorumCertificate order (Vote.blockId vote) (Vote.round vote) verifier with
      | error error =>
        have answer := processVote_unbuilt profile fresh quorum built
        refine iff_of_false ?_ ?_
        · intro atomic
          have unchanged := (atomic error (congrArg Prod.fst answer)).1
          rw [answer] at unchanged
          exact stored_ne fresh unchanged
        · intro certifiable
          obtain ⟨passed, aggregatedSig, combined, qc, made⟩ := certifiable fresh rfl
          simp only [buildQuorumCertificate, passed, combined, made] at built
          cases built
      | ok qc =>
        refine iff_of_true (fun error failed => absurd failed (processVote_built profile fresh quorum built error)) ?_
        intro _ _
        obtain ⟨passed, aggregatedSig, combined, made⟩ := build_ok built
        exact ⟨passed, aggregatedSig, combined, qc, made⟩
  | _ => exact Iff.rfl

/-- Votes that fail leave no trace exactly in the runs where every quorum reached can be
certified: the vote that reaches it is stored before the certificate is built. -/
theorem votes_atomic_iff (profile : Profile) (config : RoundManagerConfig) (safetyRules : TwoChainSafetyRules)
    (calls : List (Call B V QC N S A T)) :
    (∀ current ∈ trace (call profile) (.new config safetyRules : RoundManager B V QC H S) calls, Atomic profile current) ↔
      ∀ current ∈ trace (call profile) (.new config safetyRules : RoundManager B V QC H S) calls, Certifiable current :=
  forall_trace_congr (atomic_iff profile)

/-- The third vote fails at the aggregation and stays, so it is a duplicate the second
time. -/
theorem failed_vote_stays :
    let set := MockValidatorSet.new [(⟨1⟩, 1), (⟨2⟩, 1), (⟨3⟩, 1), (⟨4⟩, 1)]
    let verifier := { set.verifier with aggregateSignatures := fun _ => .error VerifyError.invalidSignature.toError }
    let hand (author : UInt8) : MockCall := .processVote .insertion (.new ⟨author⟩ ⟨7⟩ 1) verifier
    let run := trace (call .dev) (.new .default (.new 0) : MockManager) [hand 1, hand 2, hand 3, hand 3]
    run.map Event.output = [.vote (.ok .accepted), .vote (.ok .accepted),
        .vote (.error (.err VerifyError.invalidSignature.toError)), .vote (.ok (.rejected .rejected))] ∧
      ¬ ∀ current ∈ run, Atomic .dev current := by
  intro set verifier hand run
  refine ⟨by decide, ?_⟩
  intro atomic
  let third := event (call .dev) (exec (call .dev) (.new .default (.new 0) : MockManager) [hand 1, hand 2]) (hand 3)
  have member : third ∈ run := List.mem_cons_of_mem _ (List.mem_cons_of_mem _ List.mem_cons_self)
  have failed : third.output = .vote (.error (.err VerifyError.invalidSignature.toError)) := by decide
  have unchanged : third.after = third.before := (atomic third member VerifyError.invalidSignature.toError failed).1
  have kept := congrArg (fun manager => manager.pendingVotes.totalVotes) unchanged
  exact absurd kept (by decide)

end Atomicity

section Reports
variable [VoteData V] [QuorumCertificate QC H] [FromVotes QC V A]

/-- The engine tells its caller that a vote was accepted exactly if its round manager
took it in. -/
structure Reports (profile : Profile) (order : Iteration V N S) (engine : Consensus B V QC H S F E O) (vote : V)
    (verifier : ValidatorVerifier B V N S A) : Prop where
  accepted : (∃ result, (engine.processVote profile order vote verifier).1 = .ok result ∧ result.accepted = true) ↔
    Fresh engine.roundManager vote verifier ∧
      ((engine.roundManager.processVote profile order vote verifier).1 = .ok .accepted ∨
        (engine.roundManager.processVote profile order vote verifier).1 = .ok .quorumCompleted)
  refused : Vote.verify vote verifier = .ok () →
    engine.roundManager.roundState.epoch ≠ Vote.epoch vote ∨
      Vote.round vote < engine.roundManager.pendingVotes.currentRound ∨
      engine.roundManager.pendingVotes.isDuplicate (Vote.round vote, Vote.blockId vote) vote = true →
    (∃ result, (engine.processVote profile order vote verifier).1 = .ok result ∧ result.accepted = false) ∧
      (engine.processVote profile order vote verifier).2 = engine

omit [VoteData V] in
/-- A verified vote that fails a check of the manager is answered, not failed. -/
theorem turned_away (profile : Profile) (order : Iteration V N S) {manager : RoundManager B V QC H S} {vote : V}
    {verifier : ValidatorVerifier B V N S A} (verified : Vote.verify vote verifier = .ok ())
    (stale : ¬ Fresh manager vote verifier) : ∃ status, (manager.processVote profile order vote verifier).1 = .ok status := by
  by_cases current : manager.roundState.epoch = Vote.epoch vote
  case neg => exact ⟨.rejected .rejected, by simp [processVote, verified, RoundState.isCurrentEpoch, current]⟩
  obtain ⟨_, answer⟩ | ⟨_, answer⟩ | ⟨recent, unseen, _⟩ := addVote_cases order manager.pendingVotes vote verifier
  · exact ⟨.oldRound, by simp [processVote, verified, RoundState.isCurrentEpoch, current, answer]⟩
  · exact ⟨.rejected .rejected, by simp [processVote, verified, RoundState.isCurrentEpoch, current, answer]⟩
  · exact absurd ⟨verified, current, recent, unseen⟩ stale

omit [VoteData V] in
theorem taken_in {profile : Profile} {order : Iteration V N S} {manager : RoundManager B V QC H S} {vote : V}
    {verifier : ValidatorVerifier B V N S A} {status : VoteReceptionResult} (fresh : Fresh manager vote verifier)
    (answer : (manager.processVote profile order vote verifier).1 = .ok status) :
    status = .accepted ∨ status = .quorumCompleted := by
  rw [fresh.processVote] at answer
  split at answer
  · split at answer
    · cases answer
    · cases answer
      exact Or.inr rfl
  · cases answer
    exact Or.inl rfl

/-- Whatever the manager answers, the caller hears that the vote was accepted. -/
theorem accepted_iff_answered (profile : Profile) (order : Iteration V N S) {engine : Consensus B V QC H S F E O}
    (running : engine.state = .running) (vote : V) (verifier : ValidatorVerifier B V N S A) :
    (∃ result, (engine.processVote profile order vote verifier).1 = .ok result ∧ result.accepted = true) ↔
      ∃ status, (engine.roundManager.processVote profile order vote verifier).1 = .ok status := by
  simp only [Consensus.processVote, running, ne_eq, not_true_eq_false, ite_false]
  rcases engine.roundManager.processVote profile order vote verifier with ⟨_ | status, roundManager⟩ <;> simp

/-- Acceptance is reported truthfully for exactly the votes that fail their verification
or pass every check of the manager. -/
theorem reports_iff (profile : Profile) (order : Iteration V N S) {engine : Consensus B V QC H S F E O}
    (running : engine.state = .running) (vote : V) (verifier : ValidatorVerifier B V N S A) :
    Reports profile order engine vote verifier ↔
      (Vote.verify vote verifier = .ok () → Fresh engine.roundManager vote verifier) := by
  constructor
  · intro reports verified
    by_contra stale
    have told := (accepted_iff_answered profile order running vote verifier).mpr (turned_away profile order verified stale)
    exact stale (reports.accepted.mp told).1
  · intro checked
    refine ⟨?_, ?_⟩
    · rw [accepted_iff_answered profile order running]
      constructor
      · intro answered
        obtain ⟨status, answer⟩ := answered
        cases verified : Vote.verify vote verifier with
        | error error =>
          simp only [processVote, verified] at answer
          cases answer
        | ok =>
          have fresh := checked verified
          obtain rfl | rfl := taken_in fresh answer
          · exact ⟨fresh, Or.inl answer⟩
          · exact ⟨fresh, Or.inr answer⟩
      · intro taken
        obtain ⟨_, kept | completed⟩ := taken
        · exact ⟨_, kept⟩
        · exact ⟨_, completed⟩
    · intro verified failing
      have fresh := checked verified
      obtain other | old | seen := failing
      · exact absurd fresh.current other
      · exact absurd fresh.recent (not_le.mpr old)
      · exact absurd (fresh.unseen.symm.trans seen) Bool.false_ne_true

theorem first_vote_reported :
    ∃ engine : MockConsensus, Consensus.new (mockConfig 0 1) ⟨[⟨1⟩, ⟨2⟩]⟩ (some ⟨1⟩) = .ok engine ∧
      let set := MockValidatorSet.new [(⟨1⟩, 1), (⟨2⟩, 1), (⟨3⟩, 1), (⟨4⟩, 1)]
      Reports .dev .insertion engine.start.2 (.new ⟨1⟩ ⟨7⟩ 1) set.verifier := by
  refine ⟨_, rfl, ?_⟩
  refine (reports_iff .dev .insertion rfl _ _).mpr ?_
  intro _
  exact ⟨rfl, by decide, by decide, by decide⟩

/-- The same vote a second time. -/
theorem refused_votes_reported_accepted :
    ∃ engine : MockConsensus, Consensus.new (mockConfig 0 1) ⟨[⟨1⟩, ⟨2⟩]⟩ (some ⟨1⟩) = .ok engine ∧
      let set := MockValidatorSet.new [(⟨1⟩, 1), (⟨2⟩, 1), (⟨3⟩, 1), (⟨4⟩, 1)]
      let vote : MockVote := .new ⟨1⟩ ⟨7⟩ 1
      let again := (engine.start.2.processVote .dev .insertion vote set.verifier).2
      (again.roundManager.processVote .dev .insertion vote set.verifier).1 = .ok (.rejected .rejected) ∧
        (again.processVote .dev .insertion vote set.verifier).1 = .ok ⟨true, 0⟩ ∧
        ¬ Reports .dev .insertion again vote set.verifier := by
  refine ⟨_, rfl, by decide, by decide, ?_⟩
  intro reports
  have told := reports.accepted.mp ⟨⟨true, 0⟩, by decide, rfl⟩
  exact absurd told.1.unseen (by decide)

end Reports
end AptosBft.Proofs.VoteOutcome
