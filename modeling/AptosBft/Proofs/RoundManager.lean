import AptosBft.Proofs.SafetyRules

/-! What each call of the round manager can do, and the journal it leaves in the
safety state. -/

namespace AptosBft.Proofs.RoundManager
open Rust Mealy Journal AptosBft.RoundManager

variable {B V QC H N S A T : Type} [Block B H]

theorem tryVote_cases (manager : RoundManager B V QC H S) (proposal : B)
    (timeoutCert : Option (TwoChainTimeoutCertificate T)) :
    (∃ error, manager.tryVoteForProposal proposal timeoutCert = (.error error, manager)) ∨
    ∃ safetyRules, manager.tryVoteForProposal proposal timeoutCert = (.ok (), { manager with safetyRules }) ∧
      manager.safetyRules.state.lastVotedRound ≤ Block.round proposal ∧
      manager.safetyRules.safeToVote proposal timeoutCert = .ok () ∧
      safetyRules.state = apply manager.safetyRules.state (.vote (Block.round proposal)) := by
  simp only [tryVoteForProposal]
  by_cases older : Block.round proposal < manager.safetyRules.state.lastVotedRound
  · left
    simp only [older, ite_true]
    exact ⟨_, rfl⟩
  simp only [older, ite_false]
  cases safe : manager.safetyRules.safeToVote proposal timeoutCert with
  | error error => exact Or.inl ⟨error, rfl⟩
  | ok =>
    obtain ⟨stale, _⟩ | ⟨bound, accepted, raised⟩ :=
      SafetyRules.recordVote_cases manager.safetyRules (Block.round proposal)
    · exact absurd stale older
    · refine Or.inr ⟨(manager.safetyRules.recordVote (Block.round proposal)).2, ?_, bound, rfl, raised⟩
      simp only [← accepted]

theorem tryVote_ok_iff (manager : RoundManager B V QC H S) (proposal : B)
    (timeoutCert : Option (TwoChainTimeoutCertificate T)) :
    (manager.tryVoteForProposal proposal timeoutCert).1 = .ok () ↔
      manager.safetyRules.state.lastVotedRound ≤ Block.round proposal ∧ 0 < (Block.round proposal).val ∧
        ∀ tc ∈ timeoutCert, tc.round < u64Max := by
  have rule : manager.safetyRules.safeToVote proposal timeoutCert = .ok () ↔ _ := SafetyRules.safeToVote_ok
  rw [← rule]
  constructor
  · intro accepted
    obtain ⟨error, refused⟩ | ⟨safetyRules, _, bound, safe, _⟩ := tryVote_cases manager proposal timeoutCert
    · rw [refused] at accepted
      cases accepted
    · exact ⟨bound, safe⟩
  · intro allowed
    obtain ⟨bound, safe⟩ := allowed
    obtain ⟨stale, _⟩ | ⟨_, recorded, _⟩ := SafetyRules.recordVote_cases manager.safetyRules (Block.round proposal)
    · exact absurd stale (not_lt.mpr bound)
    · simp only [tryVoteForProposal, not_lt.mpr bound, ite_false, safe, recorded]

theorem accepts_iff (manager : RoundManager B V QC H S) (proposal : B) :
    (manager.processProposal proposal).1 = .ok .accepted ↔
      Block.round proposal = manager.roundState.round ∧ Block.verifySignature proposal = .ok () := by
  simp only [processProposal, RoundState.isCurrentRound]
  by_cases current : manager.roundState.round = Block.round proposal
  case neg =>
    simp only [beq_eq_false_iff_ne.mpr current, Bool.not_false, ite_true, Ne.symm current, false_and, iff_false]
    split <;> simp
  simp only [current, true_and]
  cases Block.verifySignature proposal <;> simp

omit [Block B H] in
/-- A timeout moves to the next round or changes nothing. In a release build the
successor of the last round is round 0, which the timeout rule refuses. -/
theorem processTimeout_cases (profile : Profile) (manager : RoundManager B V QC H S) :
    (∃ failure, manager.processTimeout profile = (.error failure, manager)) ∨
    ∃ next, next.val = manager.roundState.round.val + 1 ∧
      next.val = manager.safetyRules.state.oneChainRound.val + 1 ∧
      manager.processTimeout profile = (.ok (), { manager with
        safetyRules := manager.safetyRules.recordTimeout manager.roundState.round
        roundState := { manager.roundState with round := next, proposedBlock := none }
        pendingVotes := manager.pendingVotes.setRound next }) := by
  simp only [processTimeout]
  cases sum : U64.plus profile manager.roundState.round 1 with
  | error reason => exact Or.inl ⟨_, rfl⟩
  | ok next =>
    simp only
    cases safe : manager.safetyRules.safeToTimeoutImpl next manager.safetyRules.state.oneChainRound none with
    | error failure =>
      left
      cases failure with
      | err error => exact ⟨_, rfl⟩
      | panic reason => exact ⟨_, rfl⟩
    | ok =>
      have following := (SafetyRules.safeToTimeout_none.mp safe).1
      refine Or.inr ⟨next, ?_, following, ?_⟩
      · obtain ⟨value, same, exactly⟩ | ⟨overflows, panics | wraps⟩ := U64.plus_cases profile manager.roundState.round 1
        · cases sum.symm.trans same
          exact exactly
        · cases sum.symm.trans panics
        · cases sum.symm.trans wraps
          rw [U64.eq_max_of_overflow overflows] at following
          exact absurd following.symm (Nat.succ_ne_zero _)
      · simp only [RoundState.advanceRound, sum]
        rfl

variable [DecidableEq H] [DecidableEq N] [DecidableEq S] [Vote V B H N S A] [QuorumCertificate QC H] [FromVotes QC V A]

section Votes
variable (profile : Profile) (order : Iteration V N S) (manager : RoundManager B V QC H S) (vote : V)
  (verifier : ValidatorVerifier B V N S A)

omit [Block B H] [DecidableEq S] [QuorumCertificate QC H] in
theorem build_ok {order : Iteration V N S} {manager : RoundManager B V QC H S} {blockId : H} {round : U64}
    {verifier : ValidatorVerifier B V N S A} {qc : QC}
    (built : manager.buildQuorumCertificate order blockId round verifier = .ok qc) :
    let votes := manager.pendingVotes.getVotes order.votes round blockId
    let aggregator := SignatureAggregator.collect verifier votes
    aggregator.checkQuorum order.formed verifier = .ok () ∧
      ∃ aggregatedSig, aggregator.aggregate order.formed verifier = .ok aggregatedSig ∧
        FromVotes.fromVotes votes aggregatedSig = .ok qc := by
  intro votes aggregator
  simp only [buildQuorumCertificate] at built
  split at built
  · cases built
  next passed =>
    split at built
    · cases built
    next aggregatedSig combined => exact ⟨passed, aggregatedSig, combined, built⟩

omit [Block B H] [DecidableEq S] in
theorem form_cases (blockId : H) (round : U64) :
    (∃ failure, manager.formQuorumCertificateForBlock profile order blockId round verifier = (.error failure, manager)) ∨
    ∃ qc : QC, manager.buildQuorumCertificate order blockId round verifier = .ok qc ∧
      (manager.safetyRules.observeQc profile qc).1 = .ok () ∧
      manager.formQuorumCertificateForBlock profile order blockId round verifier = (.ok (), { manager with
        safetyRules := (manager.safetyRules.observeQc profile qc).2
        roundState := manager.roundState.setQuorumCert qc
        pendingVotes := manager.pendingVotes.removeRound round }) := by
  simp only [formQuorumCertificateForBlock]
  cases manager.buildQuorumCertificate order blockId round verifier with
  | error error => exact Or.inl ⟨.err error, rfl⟩
  | ok qc =>
    simp only
    rcases observed : manager.safetyRules.observeQc profile qc with ⟨_ | _, safetyRules⟩
    next failure =>
      have same := SafetyRules.observeQc_failed observed
      subst same
      exact Or.inl ⟨failure, rfl⟩
    next => exact Or.inr ⟨qc, rfl, by rw [observed], by rw [observed]⟩

def stored : RoundManager B V QC H S :=
  { manager with pendingVotes := manager.pendingVotes.store (Vote.round vote, Vote.blockId vote) vote }

structure Fresh : Prop where
  verified : Vote.verify vote verifier = .ok ()
  current : manager.roundState.epoch = Vote.epoch vote
  recent : manager.pendingVotes.currentRound ≤ Vote.round vote
  unseen : manager.pendingVotes.isDuplicate (Vote.round vote, Vote.blockId vote) vote = false

def completes : Bool :=
  (stored manager vote).pendingVotes.checkQuorum order (Vote.round vote, Vote.blockId vote) verifier

variable {manager vote verifier}

omit [Block B H] in
theorem Fresh.processVote (fresh : Fresh manager vote verifier) :
    manager.processVote profile order vote verifier =
      if completes order manager vote verifier then
        match (stored manager vote).formQuorumCertificateForBlock profile order (Vote.blockId vote) (Vote.round vote) verifier with
        | (.error failure, formed) => (.error failure, formed)
        | (.ok (), formed) => (.ok .quorumCompleted, formed)
      else (.ok .accepted, stored manager vote) := by
  have added : manager.pendingVotes.addVote order vote verifier =
      if completes order manager vote verifier then (.quorumCompleted, (stored manager vote).pendingVotes)
      else (.accepted, (stored manager vote).pendingVotes) := by
    simp only [PendingVotes.addVote, not_lt.mpr fresh.recent, fresh.unseen, ite_false]
    rfl
  have current : manager.roundState.isCurrentEpoch (Vote.epoch vote) = true := by
    simp [RoundState.isCurrentEpoch, fresh.current]
  simp only [RoundManager.processVote, fresh.verified, current, added, Bool.not_true, Bool.false_eq_true, ite_false]
  cases completes order manager vote verifier <;> rfl

variable (manager vote verifier)

omit [Block B H] in
/-- All outcomes of a vote: turned away, stored, stored although the certificate
of its quorum could not be formed, or completing a quorum. -/
theorem processVote_cases :
    (∃ result, manager.processVote profile order vote verifier = (result, manager) ∧
      result ≠ .ok .accepted ∧ result ≠ .ok .quorumCompleted ∧
      (result = .ok .oldRound → Vote.round vote < manager.pendingVotes.currentRound) ∧
      (Vote.verify vote verifier = .ok () → ∃ reply, result = .ok reply)) ∨
    (Fresh manager vote verifier ∧ completes order manager vote verifier = false ∧
      manager.processVote profile order vote verifier = (.ok .accepted, stored manager vote)) ∨
    (Fresh manager vote verifier ∧ completes order manager vote verifier = true ∧
      ∃ failure, manager.processVote profile order vote verifier = (.error failure, stored manager vote)) ∨
    (Fresh manager vote verifier ∧ completes order manager vote verifier = true ∧
      ∃ qc : QC, (stored manager vote).buildQuorumCertificate order (Vote.blockId vote) (Vote.round vote) verifier = .ok qc ∧
        (manager.safetyRules.observeQc profile qc).1 = .ok () ∧
        manager.processVote profile order vote verifier = (.ok .quorumCompleted, { manager with
          safetyRules := (manager.safetyRules.observeQc profile qc).2
          roundState := manager.roundState.setQuorumCert qc
          pendingVotes := (stored manager vote).pendingVotes.removeRound (Vote.round vote) })) := by
  by_cases fresh : Fresh manager vote verifier
  · rw [fresh.processVote]
    cases quorum : completes order manager vote verifier with
    | false => exact Or.inr (Or.inl ⟨fresh, rfl, rfl⟩)
    | true =>
      obtain ⟨failure, failed⟩ | ⟨qc, built, observed, formed⟩ :=
        form_cases profile order (stored manager vote) verifier (Vote.blockId vote) (Vote.round vote)
      · exact Or.inr (Or.inr (Or.inl ⟨fresh, rfl, failure, by simp only [failed, ite_true]⟩))
      · refine Or.inr (Or.inr (Or.inr ⟨fresh, rfl, qc, built, observed, ?_⟩))
        simp only [formed, ite_true]
        rfl
  · left
    simp only [RoundManager.processVote]
    cases verified : Vote.verify vote verifier with
    | error error => exact ⟨_, rfl, nofun, nofun, nofun, nofun⟩
    | ok =>
      by_cases current : manager.roundState.epoch = Vote.epoch vote
      case neg =>
        exact ⟨.ok (.rejected .rejected), by simp [RoundState.isCurrentEpoch, current], nofun, nofun, nofun, fun _ => ⟨_, rfl⟩⟩
      by_cases old : Vote.round vote < manager.pendingVotes.currentRound
      · exact ⟨.ok .oldRound, by simp [RoundState.isCurrentEpoch, current, PendingVotes.addVote, old], nofun, nofun, fun _ => old,
          fun _ => ⟨_, rfl⟩⟩
      cases seen : manager.pendingVotes.isDuplicate (Vote.round vote, Vote.blockId vote) vote with
      | false => exact absurd ⟨verified, current, not_lt.mp old, seen⟩ fresh
      | true =>
        exact ⟨.ok (.rejected .rejected),
          by simp [RoundState.isCurrentEpoch, current, PendingVotes.addVote, old, seen], nofun, nofun, nofun, fun _ => ⟨_, rfl⟩⟩

end Votes

/-- All that a call can do to the round state and the pending votes. Votes change
only by a fresh vote and by a move to another round. -/
inductive Effect (profile : Profile) (manager : RoundManager B V QC H S) :
    Call B V QC N S A T → Reply H → RoundManager B V QC H S → Prop where
  | quiet {input : Call B V QC N S A T} {reply : Reply H} {safetyRules : TwoChainSafetyRules}
      (notStarted : ∀ round, input ≠ .startRound round) (notKept : reply ≠ .vote (.ok .accepted))
      (notCompleted : reply ≠ .vote (.ok .quorumCompleted))
      (stale : ∀ order vote verifier, input = .processVote order vote verifier → reply = .vote (.ok .oldRound) →
        Vote.round vote < manager.pendingVotes.currentRound) :
      Effect profile manager input reply { manager with safetyRules }
  | proposed {proposal : B} (current : Block.round proposal = manager.roundState.round) :
      Effect profile manager (.processProposal proposal) (.proposal (.ok .accepted))
        { manager with roundState := manager.roundState.setProposedBlock proposal }
  | kept {order : Iteration V N S} {vote : V} {verifier : ValidatorVerifier B V N S A} {result : Outcome Error VoteReceptionResult}
      (fresh : Fresh manager vote verifier) (outcome : result = .ok .accepted ∨ ∃ failure, result = .error failure) :
      Effect profile manager (.processVote order vote verifier) (.vote result) (stored manager vote)
  | completed {order : Iteration V N S} {vote : V} {verifier : ValidatorVerifier B V N S A} {qc : QC}
      (fresh : Fresh manager vote verifier) (quorum : completes order manager vote verifier = true)
      (built : (stored manager vote).buildQuorumCertificate order (Vote.blockId vote) (Vote.round vote) verifier = .ok qc)
      (observed : (manager.safetyRules.observeQc profile qc).1 = .ok ()) :
      Effect profile manager (.processVote order vote verifier) (.vote (.ok .quorumCompleted)) { manager with
        safetyRules := (manager.safetyRules.observeQc profile qc).2
        roundState := manager.roundState.setQuorumCert qc
        pendingVotes := (stored manager vote).pendingVotes.removeRound (Vote.round vote) }
  | timedOut {next : U64} {safetyRules : TwoChainSafetyRules} (following : next.val = manager.roundState.round.val + 1) :
      Effect profile manager .processTimeout (.timeout (.ok ())) { manager with
        safetyRules
        roundState := manager.roundState.setRound next
        pendingVotes := manager.pendingVotes.setRound next }
  | started {round : U64} : Effect profile manager (.startRound round) .started (manager.startRound round)

theorem call_effect (profile : Profile) (manager : RoundManager B V QC H S) (input : Call B V QC N S A T) :
    Effect profile manager input (call profile manager input).1 (call profile manager input).2 := by
  cases input with
  | tryVoteForProposal proposal timeoutCert =>
    obtain ⟨error, refused⟩ | ⟨safetyRules, accepted, _⟩ := tryVote_cases manager proposal timeoutCert
    · simp only [call, refused]
      exact .quiet nofun nofun nofun nofun
    · simp only [call, accepted]
      exact .quiet nofun nofun nofun nofun
  | processProposal proposal =>
    simp only [call, processProposal]
    split
    · split <;> exact .quiet nofun nofun nofun nofun
    next current =>
      have same : manager.roundState.round = Block.round proposal := by
        simpa [RoundState.isCurrentRound] using current
      split
      · exact .quiet nofun nofun nofun nofun
      · exact .proposed same.symm
  | processVote order vote verifier =>
    obtain ⟨result, turned, notKept, notCompleted, stale, _⟩ | ⟨fresh, _, kept⟩ | ⟨fresh, _, failure, failed⟩ |
        ⟨fresh, quorum, qc, built, observed, completed⟩ := processVote_cases profile order manager vote verifier
    · simp only [call, turned]
      refine .quiet nofun (by simpa using notKept) (by simpa using notCompleted) ?_
      intro order other verifier same old
      cases same
      exact stale (Reply.vote.inj old)
    · simp only [call, kept]
      exact .kept fresh (Or.inl rfl)
    · simp only [call, failed]
      exact .kept fresh (Or.inr ⟨failure, rfl⟩)
    · simp only [call, completed]
      exact .completed fresh quorum built observed
  | processTimeout =>
    obtain ⟨failure, failed⟩ | ⟨next, following, _, moved⟩ := processTimeout_cases profile manager
    · simp only [call, failed]
      exact .quiet nofun nofun nofun nofun
    · simp only [call, moved]
      exact .timedOut following
  | startRound round => exact .started
  | rules inner => exact .quiet nofun nofun nofun nofun

theorem call_epoch (profile : Profile) (manager : RoundManager B V QC H S) (input : Call B V QC N S A T) :
    (call profile manager input).2.roundState.epoch = manager.roundState.epoch := by
  have effect := call_effect profile manager input
  generalize call profile manager input = answer at effect ⊢
  obtain ⟨reply, after⟩ := answer
  cases effect <;> rfl

/-- Proposals and votes leave the round alone. -/
theorem call_round (profile : Profile) (manager : RoundManager B V QC H S) {input : Call B V QC N S A T}
    (noTimeout : input ≠ .processTimeout) (noStart : ∀ round, input ≠ .startRound round) :
    (call profile manager input).2.roundState.round = manager.roundState.round := by
  have effect := call_effect profile manager input
  generalize call profile manager input = answer at effect ⊢
  obtain ⟨reply, after⟩ := answer
  cases effect with
  | timedOut following => exact absurd rfl noTimeout
  | started => exact absurd rfl (noStart _)
  | _ => rfl

/-- Proposals and the safety rules leave the votes alone. -/
theorem call_votes (profile : Profile) (manager : RoundManager B V QC H S) {input : Call B V QC N S A T}
    (noVote : ∀ order vote verifier, input ≠ .processVote order vote verifier) (noTimeout : input ≠ .processTimeout)
    (noStart : ∀ round, input ≠ .startRound round) : (call profile manager input).2.pendingVotes = manager.pendingVotes := by
  have effect := call_effect profile manager input
  generalize call profile manager input = answer at effect ⊢
  obtain ⟨reply, after⟩ := answer
  cases effect with
  | kept => exact absurd rfl (noVote _ _ _)
  | completed => exact absurd rfl (noVote _ _ _)
  | timedOut => exact absurd rfl noTimeout
  | started => exact absurd rfl (noStart _)
  | _ => rfl

abbrev ManagerEvent (B V QC H N S A T : Type) := Event (RoundManager B V QC H S) (Call B V QC N S A T) (Reply H)

/-- What a call of the manager recorded in the safety state. A vote that
completes a quorum records the certificate it leaves behind. -/
def recorded (event : ManagerEvent B V QC H N S A T) : List Update :=
  match event.input, event.output with
  | .tryVoteForProposal proposal _, .voted (.ok ()) => [.vote (Block.round proposal)]
  | .processVote .., .vote (.ok .quorumCompleted) =>
    (event.after.roundState.quorumCert.map fun qc => .qc (QuorumCertificate.round qc)).toList
  | .processTimeout, .timeout (.ok ()) => [.timeout event.before.roundState.round]
  | .rules inner, .rules reply => SafetyRules.recorded inner reply
  | _, _ => []

omit [DecidableEq H] [DecidableEq N] [DecidableEq S] [Vote V B H N S A] [FromVotes QC V A] in
theorem certified_recorded {event : ManagerEvent B V QC H N S A T} {round : U64}
    (reported : round ∈ (recorded event).flatMap Update.certified) :
    (∃ order vote verifier, event.input = .processVote order vote verifier ∧ event.output = .vote (.ok .quorumCompleted)) ∨
      ∃ inner reply, event.input = .rules inner ∧ round ∈ (SafetyRules.recorded inner reply).flatMap Update.certified := by
  simp only [recorded] at reported
  split at reported
  next => cases reported
  next order vote verifier given completed => exact Or.inl ⟨order, vote, verifier, given, completed⟩
  next => cases reported
  next inner reply given _ => exact Or.inr ⟨inner, reply, given, reported⟩
  next => cases reported

theorem call_replays (profile : Profile) (manager : RoundManager B V QC H S) (input : Call B V QC N S A T) :
    (call profile manager input).2.safetyRules.state =
      replay manager.safetyRules.state (recorded (event (call profile) manager input)) := by
  cases input with
  | tryVoteForProposal proposal timeoutCert =>
    obtain ⟨error, refused⟩ | ⟨safetyRules, accepted, _, _, raised⟩ := tryVote_cases manager proposal timeoutCert
    · simp [call, event, recorded, refused, replay]
    · simp [call, event, recorded, accepted, replay, raised]
  | processProposal proposal =>
    simp only [call, processProposal, event, recorded, replay, List.foldl_nil]
    split
    · split <;> rfl
    · split <;> rfl
  | processVote order vote verifier =>
    obtain ⟨result, turned, _, incomplete, _⟩ | ⟨_, _, kept⟩ | ⟨_, _, failure, failed⟩ | ⟨_, _, qc, _, _, completed⟩ :=
      processVote_cases profile order manager vote verifier
    · simp only [call, event, recorded, turned]
      split <;> simp_all [replay]
    · simp [call, event, recorded, kept, replay, stored]
    · simp [call, event, recorded, failed, replay, stored]
    · simp [call, event, recorded, completed, replay, RoundState.setQuorumCert, SafetyRules.observeQc_state]
  | processTimeout =>
    obtain ⟨failure, failed⟩ | ⟨next, _, _, moved⟩ := processTimeout_cases profile manager
    · simp [call, event, recorded, failed, replay]
    · simp [call, event, recorded, moved, replay, SafetyRules.recordTimeout_state]
  | startRound round => rfl
  | rules inner => exact SafetyRules.call_replays profile manager.safetyRules inner

theorem exec_replays (profile : Profile) (manager : RoundManager B V QC H S) (calls : List (Call B V QC N S A T)) :
    (exec (call profile) manager calls).safetyRules.state =
      replay manager.safetyRules.state ((trace (call profile) manager calls).flatMap recorded) := by
  induction calls generalizing manager with
  | nil => rfl
  | cons input rest ih =>
    simp only [exec_cons, trace_cons, List.flatMap_cons]
    rw [replay_append, ← call_replays]
    exact ih _

end AptosBft.Proofs.RoundManager
