import AptosBft.Proofs.Pacemaker
import AptosBft.Proofs.RoundManager
import AptosBft.Testing

/-! The consensus engine. Its calls reach the round manager through proposals and
votes only, and the pacemaker through certificates and timeouts only, so each of
the two keeps its own round. -/

namespace AptosBft.Proofs.Engine
open Rust Mealy AptosBft.Consensus

variable {B V QC H N S A F E O : Type}

/-- The calls of the round manager that a call of the engine makes. -/
def relayed (engine : Consensus B V QC H S F E O) : Call B V QC N S A → List (RoundManager.Call B V QC N S A S)
  | .processProposal proposal => if engine.state = .running then [.processProposal proposal] else []
  | .processVote order vote verifier => if engine.state = .running then [.processVote order vote verifier] else []
  | _ => []

theorem relayed_messages (engine : Consensus B V QC H S F E O) (input : Call B V QC N S A) :
    ∀ inner ∈ relayed engine input, inner ≠ .processTimeout ∧ ∀ round, inner ≠ .startRound round := by
  intro inner member
  cases input with
  | processProposal proposal =>
    simp only [relayed] at member
    split at member
    · cases List.mem_singleton.mp member
      exact ⟨nofun, nofun⟩
    · cases member
  | processVote order vote verifier =>
    simp only [relayed] at member
    split at member
    · cases List.mem_singleton.mp member
      exact ⟨nofun, nofun⟩
    · cases member
  | _ => cases member

abbrev EngineEvent (B V QC H N S A F E O : Type) := Event (Consensus B V QC H S F E O) (Call B V QC N S A) (Reply B)

/-- The pacemaker and the round manager each keep a round. -/
def RoundsAgree (engine : Consensus B V QC H S F E O) : Prop := engine.pacemaker.currentRound = engine.round

instance (engine : Consensus B V QC H S F E O) : Decidable (RoundsAgree engine) :=
  inferInstanceAs (Decidable (engine.pacemaker.currentRound = engine.round))

structure Unmoved (engine : Consensus B V QC H S F E O) : Prop where
  manager : engine.round = 0
  pacemaker : engine.pacemaker.currentRound = 0
  ordered : engine.pacemaker.highestOrderedRound = 0

theorem Unmoved.agrees {engine : Consensus B V QC H S F E O} (unmoved : Unmoved engine) : RoundsAgree engine :=
  unmoved.pacemaker.trans unmoved.manager.symm

theorem pipeline_completes (pipeline : Pipeline) (block : B) : ∃ after, pipeline.processBlock block = (.ok .completed, after) :=
  ⟨_, rfl⟩

section Proposals
variable [Block B H]

/-- The engine votes for whatever its round manager accepts. -/
theorem processProposal_running {engine : Consensus B V QC H S F E O} (running : engine.state = .running) (proposal : B) :
    ∃ pipeline, (engine.processProposal proposal).2 =
        { engine with pipeline, roundManager := (engine.roundManager.processProposal proposal).2 } ∧
      ((∃ result, (engine.processProposal proposal).1 = .ok result ∧ result.voted = true) ↔
        (engine.roundManager.processProposal proposal).1 = .ok .accepted ∧ engine.selfValidatorId.isSome) := by
  obtain ⟨pipeline, completed⟩ := pipeline_completes engine.pipeline proposal
  refine ⟨pipeline, ?_⟩
  simp only [Consensus.processProposal, running, completed, PipelineResult.isCompleted]
  rcases engine.roundManager.processProposal proposal with ⟨_ | (_ | _ | _ | _), roundManager⟩ <;> simp

theorem processProposal_idle {engine : Consensus B V QC H S F E O} (idle : engine.state ≠ .running) (proposal : B) :
    (engine.processProposal proposal).2 = engine ∧
      ∃ result, (engine.processProposal proposal).1 = .ok result ∧ result.voted = false := by
  simp only [Consensus.processProposal, idle, ne_eq, not_false_eq_true, ite_true, true_and]
  exact ⟨_, rfl, rfl⟩

theorem votes_iff (engine : Consensus B V QC H S F E O) (proposal : B) :
    (∃ result, (engine.processProposal proposal).1 = .ok result ∧ result.voted = true) ↔
      engine.state = .running ∧ engine.selfValidatorId.isSome ∧
        Block.round proposal = engine.round ∧ Block.verifySignature proposal = .ok () := by
  by_cases running : engine.state = .running
  · obtain ⟨_, _, votes⟩ := processProposal_running running proposal
    rw [votes, RoundManager.accepts_iff, and_comm]
    exact (and_iff_right running).symm
  · obtain ⟨_, result, answered, silent⟩ := processProposal_idle running proposal
    refine iff_of_false ?_ (fun both => running both.1)
    rintro ⟨other, same, voted⟩
    cases answered.symm.trans same
    exact Bool.false_ne_true (silent.symm.trans voted)

end Proposals

theorem new_parts [Floating F] {config : ConsensusConfig F} {election : E} {id : Option O} {engine : Consensus B V QC H S F E O}
    (created : Consensus.new config election id = .ok engine) :
    ∃ strategy, engine.pacemaker = Pacemaker.new strategy config.pacemakerConfig ∧
      engine.roundManager = RoundManager.new config.roundManagerConfig (TwoChainSafetyRules.new config.initialEpoch) ∧
      engine.epochManager = EpochManager.new ⟨config.initialEpoch, false⟩ ∧ engine.selfValidatorId = id := by
  simp only [Consensus.new] at created
  cases made : ExponentialIntervalStrategy.new config.pacemakerConfig.baseDuration config.pacemakerConfig.exponentBase
      config.pacemakerConfig.maxExponent with
  | error reason =>
    rw [made] at created
    cases created
  | ok strategy =>
    rw [made] at created
    cases created
    exact ⟨strategy, rfl, rfl, rfl, rfl⟩

theorem processQc_cases [QuorumCertificate QC H] (engine : Consensus B V QC H S F E O) (qc : QC) :
    (∃ error, engine.processQc qc = (.error error, engine) ∧
      (engine.state = .running → QuorumCertificate.round qc ≤ engine.pacemaker.highestOrderedRound)) ∨
    engine.state = .running ∧ engine.pacemaker.highestOrderedRound < QuorumCertificate.round qc ∧
      engine.processQc qc = (.ok (), { engine with
        pacemaker := { engine.pacemaker with highestOrderedRound := QuorumCertificate.round qc } }) := by
  simp only [processQc, Pacemaker.recordOrderedRound]
  by_cases running : engine.state = .running
  case neg => exact Or.inl ⟨_, if_pos running, fun started => absurd started running⟩
  rw [if_neg (not_not.mpr running)]
  by_cases ordered : QuorumCertificate.round qc ≤ engine.pacemaker.highestOrderedRound
  · rw [if_pos ordered]
    exact Or.inl ⟨_, rfl, fun _ => ordered⟩
  · rw [if_neg ordered]
    exact Or.inr ⟨running, not_le.mp ordered, rfl⟩

theorem processTimeout_cases [Floating F] (profile : Profile) (engine : Consensus B V QC H S F E O) (round : U64) :
    (∃ failure, engine.processTimeout profile round = (.error failure, engine) ∧
      (engine.state = .running → engine.pacemaker.highestOrderedRound ≠ u64Max →
        round = u64Max ∨ round < engine.pacemaker.currentRound)) ∨
    ∃ next, next.val = round.val + 1 ∧ engine.state = .running ∧ engine.processTimeout profile round =
      (.ok (), { engine with pacemaker := { engine.pacemaker with currentRound := next } }) := by
  simp only [processTimeout]
  by_cases running : engine.state = .running
  case neg => exact Or.inl ⟨_, if_pos running, fun started => absurd started running⟩
  rw [if_neg (not_not.mpr running)]
  obtain ⟨next, sum, exactly⟩ | ⟨overflows, panics | wraps⟩ := U64.plus_cases profile round 1
  · simp only [sum]
    obtain ⟨failure, refused, reason⟩ | ⟨entered, _, moved⟩ := Pacemaker.enterNewRound_cases profile engine.pacemaker next
    · simp only [refused]
      refine Or.inl ⟨failure, rfl, fun _ room => Or.inr ?_⟩
      have below := reason room
      change next.val = round.val + 1 at exactly
      rw [Fin.le_def, exactly] at below
      exact below
    · simp only [moved]
      exact Or.inr ⟨next, exactly, running, rfl⟩
  · simp only [panics]
    exact Or.inl ⟨_, rfl, fun _ _ => Or.inl (U64.eq_max_of_overflow overflows)⟩
  -- The successor of the last round wraps to round 0, which is never entered.
  · have last := U64.eq_max_of_overflow overflows
    simp only [wraps]
    obtain ⟨failure, refused, _⟩ | ⟨_, above, _⟩ := Pacemaker.enterNewRound_cases profile engine.pacemaker (round + 1)
    · simp only [refused]
      exact Or.inl ⟨failure, rfl, fun _ _ => Or.inl last⟩
    · rw [last] at above
      exact absurd above (Fin.not_lt_zero _)

variable [DecidableEq H] [DecidableEq N] [DecidableEq S] [DecidableEq O] [Block B H] [Vote V B H N S A] [VoteData V]
  [QuorumCertificate QC H] [FromVotes QC V A] [Floating F] [ProposerElection E O]

/-- What a call leaves alone: the epoch manager and the validator's own name, and
the pacemaker unless it hears of a certificate or a timeout. -/
structure Frame (profile : Profile) (engine : Consensus B V QC H S F E O) (input : Call B V QC N S A)
    (after : Consensus B V QC H S F E O) : Prop where
  epochs : after.epochManager = engine.epochManager
  validator : after.selfValidatorId = engine.selfValidatorId
  relays : after.roundManager = exec (RoundManager.call profile) engine.roundManager (relayed engine input)
  paced : (∀ qc, input ≠ .processQc qc) → (∀ round, input ≠ .processTimeout round) → after.pacemaker = engine.pacemaker

theorem call_frame (profile : Profile) (engine : Consensus B V QC H S F E O) (input : Call B V QC N S A) :
    Frame profile engine input (call profile engine input).2 := by
  cases input with
  | start => simp only [call, start]; split <;> exact ⟨rfl, rfl, rfl, fun _ _ => rfl⟩
  | stop => simp only [call, stop]; split <;> exact ⟨rfl, rfl, rfl, fun _ _ => rfl⟩
  | processProposal proposal =>
    simp only [call]
    by_cases running : engine.state = .running
    · obtain ⟨pipeline, after, _⟩ := processProposal_running running proposal
      rw [after]
      exact ⟨rfl, rfl, by rw [relayed, if_pos running]; rfl, fun _ _ => rfl⟩
    · obtain ⟨after, _⟩ := processProposal_idle running proposal
      rw [after]
      exact ⟨rfl, rfl, by rw [relayed, if_neg running]; rfl, fun _ _ => rfl⟩
  | processVote order vote verifier =>
    simp only [call, processVote]
    by_cases running : engine.state = .running
    · rw [if_neg (not_not.mpr running)]
      cases answer : engine.roundManager.processVote profile order vote verifier with | mk result roundManager =>
      have relays : roundManager =
          exec (RoundManager.call profile) engine.roundManager (relayed engine (.processVote order vote verifier)) := by
        rw [relayed, if_pos running]
        simp only [exec_cons, exec_nil, RoundManager.call, answer]
      cases result <;> exact ⟨rfl, rfl, relays, fun _ _ => rfl⟩
    · rw [if_pos running]
      exact ⟨rfl, rfl, by rw [relayed, if_neg running]; rfl, fun _ _ => rfl⟩
  | processQc qc =>
    simp only [call]
    obtain ⟨error, refused, _⟩ | ⟨_, _, noted⟩ := processQc_cases engine qc
    · rw [refused]
      exact ⟨rfl, rfl, rfl, fun _ _ => rfl⟩
    · rw [noted]
      exact ⟨rfl, rfl, rfl, fun none _ => absurd rfl (none qc)⟩
  | processTimeout round =>
    simp only [call]
    obtain ⟨failure, refused, _⟩ | ⟨next, _, _, moved⟩ := processTimeout_cases profile engine round
    · rw [refused]
      exact ⟨rfl, rfl, rfl, fun _ _ => rfl⟩
    · rw [moved]
      exact ⟨rfl, rfl, rfl, fun _ none => absurd rfl (none round)⟩
  | generateProposal => exact ⟨rfl, rfl, rfl, fun _ _ => rfl⟩

/-- The engine's round manager has run exactly the calls relayed to it. -/
theorem exec_relayed (profile : Profile) (engine : Consensus B V QC H S F E O) (calls : List (Call B V QC N S A)) :
    (exec (call profile) engine calls).roundManager = exec (RoundManager.call profile) engine.roundManager
      ((trace (call profile) engine calls).flatMap fun event => relayed event.before event.input) :=
  exec_component (call profile) (fun engine input => (call_frame profile engine input).relays) engine calls

section Epochs

/-- The epoch is kept three times. -/
structure EpochsAgree (engine : Consensus B V QC H S F E O) : Prop where
  manager : engine.roundManager.roundState.epoch = engine.epoch
  safety : engine.roundManager.safetyRules.state.epoch = engine.epoch
  admits : ∀ (vote : V) (verifier : ValidatorVerifier B V N S A), Vote.verify vote verifier = .ok () →
    Vote.epoch vote = engine.epoch → engine.roundManager.roundState.isCurrentEpoch (Vote.epoch vote) = true

/-- No call changes an epoch, and a new round manager knows epoch 0 only. -/
theorem epochs_agree_iff (profile : Profile) {config : ConsensusConfig F} {election : E} {id : Option O}
    {engine : Consensus B V QC H S F E O} (created : Consensus.new config election id = .ok engine)
    (calls : List (Call B V QC N S A)) : EpochsAgree (exec (call profile) engine calls) ↔ config.initialEpoch = 0 := by
  obtain ⟨strategy, _, fresh, epochs, _⟩ := new_parts created
  have relays := exec_relayed profile engine calls
  have own : (exec (call profile) engine calls).epoch = config.initialEpoch := by
    have kept : (exec (call profile) engine calls).epochManager = engine.epochManager :=
      exec_unchanged (call profile) Consensus.epochManager (fun engine input _ => (call_frame profile engine input).epochs) engine
    rw [Consensus.epoch, kept, epochs]
    rfl
  have manager : (exec (call profile) engine calls).roundManager.roundState.epoch = 0 := by
    rw [relays, exec_unchanged (RoundManager.call profile) (fun manager => manager.roundState.epoch)
      (fun manager input _ => RoundManager.call_epoch profile manager input), fresh]
    rfl
  have safety : (exec (call profile) engine calls).roundManager.safetyRules.state.epoch = config.initialEpoch := by
    rw [relays, RoundManager.exec_replays, Journal.replay_epoch, fresh]
    rfl
  constructor
  · intro agree
    exact (own.symm.trans agree.manager.symm).trans manager
  · intro zero
    have same : (exec (call profile) engine calls).roundManager.roundState.epoch = (exec (call profile) engine calls).epoch := by
      rw [manager, own, zero]
    refine ⟨same, safety.trans own.symm, ?_⟩
    intro vote verifier _ current
    rw [RoundState.isCurrentEpoch, same, current]
    exact beq_self_eq_true _

theorem default_epochs_agree :
    ∃ engine : MockConsensus, Consensus.new (mockConfig 0 1) ⟨[⟨1⟩, ⟨2⟩]⟩ (some ⟨1⟩) = .ok engine ∧
      EpochsAgree (exec (call .dev) engine
        [.start, .processVote .insertion (.new ⟨1⟩ ⟨9⟩ 1) (MockValidatorSet.new [(⟨1⟩, 1)]).verifier, .processTimeout 1]) := by
  refine ⟨_, rfl, ?_⟩
  have created : Consensus.new (mockConfig 0 1) ⟨[⟨1⟩, ⟨2⟩]⟩ (some ⟨1⟩) = .ok (_ : MockConsensus) := rfl
  exact (epochs_agree_iff .dev created _).mpr rfl

theorem later_epoch_disagrees :
    ∃ engine : MockConsensus, Consensus.new (mockConfig 5 1) ⟨[⟨1⟩, ⟨2⟩]⟩ (some ⟨1⟩) = .ok engine ∧
      engine.epoch = 5 ∧ engine.roundManager.safetyRules.state.epoch = 5 ∧ engine.roundManager.roundState.epoch = 0 ∧
      ¬ EpochsAgree engine := by
  refine ⟨_, rfl, rfl, rfl, rfl, ?_⟩
  intro agree
  exact absurd agree.manager (by decide)

end Epochs

section Rounds

/-- No call of the engine moves its round manager to another round. -/
theorem call_round (profile : Profile) (engine : Consensus B V QC H S F E O) (input : Call B V QC N S A) :
    (call profile engine input).2.round = engine.round := by
  rw [Consensus.round, (call_frame profile engine input).relays]
  apply exec_unchanged (RoundManager.call profile) fun manager => manager.roundState.round
  intro manager inner member
  obtain ⟨noTimeout, noStart⟩ := relayed_messages engine input inner member
  exact RoundManager.call_round profile manager noTimeout noStart

/-- A timeout of a round opens the next one to proposals, and a certificate is
followed by a later round. -/
def MovesOn (current : EngineEvent B V QC H N S A F E O) : Prop :=
  match current.input, current.output with
  | .processTimeout expired, .done (.ok ()) =>
    ∀ next, current.after.roundManager.roundState.isCurrentRound next = true ↔ next.val = expired.val + 1
  | .processQc qc, .done (.ok ()) => QuorumCertificate.round qc < current.after.round
  | _, _ => True

/-- A running engine is handed no timeout but that of the last round, and no
certificate but that of genesis. -/
def Undisturbed (current : EngineEvent B V QC H N S A F E O) : Prop :=
  match current.input with
  | .processTimeout expired => current.before.state = .running → expired = u64Max
  | .processQc qc => current.before.state = .running → QuorumCertificate.round qc = 0
  | _ => True

/-- From round 0 on, the first timeout and the first certificate already part the
two rounds or leave the round where it was. -/
theorem Unmoved.step (profile : Profile) {engine : Consensus B V QC H S F E O} (unmoved : Unmoved engine)
    (input : Call B V QC N S A) :
    (RoundsAgree (event (call profile) engine input).after ∧ MovesOn (event (call profile) engine input) ↔
      Undisturbed (event (call profile) engine input)) ∧
    (Undisturbed (event (call profile) engine input) → Unmoved (call profile engine input).2) := by
  have round := (call_round profile engine input).trans unmoved.manager
  have paced := (call_frame profile engine input).paced
  cases input with
  | processTimeout expired =>
    obtain ⟨failure, refused, reason⟩ | ⟨next, following, running, moved⟩ := processTimeout_cases profile engine expired
    · have last : engine.state = .running → expired = u64Max := by
        intro running
        obtain last | below := reason running (by rw [unmoved.ordered]; decide)
        · exact last
        · exact absurd (unmoved.pacemaker ▸ below) (Fin.not_lt_zero _)
      simp only [event, call, MovesOn, Undisturbed, refused]
      exact ⟨iff_of_true ⟨unmoved.agrees, trivial⟩ last, fun _ => unmoved⟩
    · have parted : ¬ next = engine.round := by
        intro same
        rw [same, unmoved.manager] at following
        exact absurd following.symm (Nat.succ_ne_zero _)
      have disturbed : ¬ (engine.state = .running → expired = u64Max) := by
        intro last
        rw [last running] at following
        exact absurd following next.isLt.ne
      simp only [event, call, MovesOn, Undisturbed, moved, RoundsAgree]
      exact ⟨iff_of_false (fun both => parted both.1) disturbed, fun still => absurd still disturbed⟩
  | processQc qc =>
    obtain ⟨error, refused, reason⟩ | ⟨running, higher, noted⟩ := processQc_cases engine qc
    · have genesis : engine.state = .running → QuorumCertificate.round qc = 0 := by
        intro running
        exact Fin.le_zero_iff.mp (unmoved.ordered ▸ reason running)
      simp only [event, call, MovesOn, Undisturbed, refused, returned]
      exact ⟨iff_of_true ⟨unmoved.agrees, trivial⟩ genesis, fun _ => unmoved⟩
    · have disturbed : ¬ (engine.state = .running → QuorumCertificate.round qc = 0) := by
        intro genesis
        rw [unmoved.ordered, genesis running] at higher
        exact absurd higher (lt_irrefl _)
      simp only [call, noted] at round
      simp only [event, call, MovesOn, Undisturbed, noted, returned, round]
      exact ⟨iff_of_false (fun both => Fin.not_lt_zero _ both.2) disturbed, fun still => absurd still disturbed⟩
  | _ =>
    have kept := paced (by simp) (by simp)
    have after : Unmoved (call profile engine _).2 := ⟨round, kept ▸ unmoved.pacemaker, kept ▸ unmoved.ordered⟩
    exact ⟨iff_of_true ⟨after.agrees, trivial⟩ trivial, fun _ => after⟩

/-- The two rounds agree all along exactly when both start at 0 and nothing is
accepted that should move them. -/
theorem rounds_agree_iff (profile : Profile) {config : ConsensusConfig F} {election : E} {id : Option O}
    {engine : Consensus B V QC H S F E O} (created : Consensus.new config election id = .ok engine)
    (calls : List (Call B V QC N S A)) :
    (RoundsAgree engine ∧ ∀ current ∈ trace (call profile) engine calls, RoundsAgree current.after ∧ MovesOn current) ↔
      config.pacemakerConfig.initialRound = 0 ∧ ∀ current ∈ trace (call profile) engine calls, Undisturbed current := by
  obtain ⟨strategy, pacemaker, fresh, _, _⟩ := new_parts created
  have manager : engine.round = 0 := by
    rw [Consensus.round, fresh]
    rfl
  have first : RoundsAgree engine ↔ config.pacemakerConfig.initialRound = 0 := by
    rw [RoundsAgree, manager, pacemaker]
    rfl
  rw [first]
  refine and_congr_right fun zero => ?_
  have unmoved : Unmoved engine := by
    refine ⟨manager, first.mpr zero |>.trans manager, ?_⟩
    rw [pacemaker, Pacemaker.new, zero]
    rfl
  exact forall_trace_iff (fun _ input still => (still.step profile input).1)
    (fun _ input still quiet => (still.step profile input).2 quiet) unmoved calls

theorem undisturbed_rounds_agree :
    ∃ engine : MockConsensus, Consensus.new (mockConfig 0 0) ⟨[⟨1⟩, ⟨2⟩]⟩ (some ⟨1⟩) = .ok engine ∧ RoundsAgree engine ∧
      ∀ current ∈ trace (call .dev) engine [.processTimeout 1, .start, .processProposal (makeBlock 0 0 1 ⟨0⟩),
        .processQc (makeQc 0 0 ⟨0⟩), .processTimeout u64Max], RoundsAgree current.after ∧ MovesOn current := by
  refine ⟨_, rfl, ?_⟩
  have created : Consensus.new (mockConfig 0 0) ⟨[⟨1⟩, ⟨2⟩]⟩ (some ⟨1⟩) = .ok (_ : MockConsensus) := rfl
  refine (rounds_agree_iff .dev created _).mpr ⟨rfl, ?_⟩
  simp only [forall_trace_cons, forall_trace_nil, and_true]
  refine ⟨?_, trivial, trivial, fun _ => rfl, fun _ => rfl⟩
  intro running
  cases running

/-- The default configuration starts with two different rounds. After a timeout
the pacemaker is in round 2, and the engine in round 0. -/
theorem timeout_parts_rounds :
    ∃ engine : MockConsensus, Consensus.new (mockConfig 0 1) ⟨[⟨1⟩, ⟨2⟩]⟩ (some ⟨1⟩) = .ok engine ∧ ¬ RoundsAgree engine ∧
      let first := exec (call .dev) engine [.start]
      let timeout := event (call .dev) first (.processTimeout 1)
      let certificate := event (call .dev) timeout.after (.processQc (makeQc 2 0 ⟨1⟩))
      timeout.output = .done (.ok ()) ∧ timeout.after.pacemaker.currentRound = 2 ∧ timeout.after.round = 0 ∧ ¬ MovesOn timeout ∧
        certificate.output = .done (.ok ()) ∧ certificate.after.round = 0 ∧ ¬ MovesOn certificate := by
  refine ⟨_, rfl, by decide, by decide, by decide, by decide, ?_, by decide, by decide, ?_⟩
  · intro opens
    exact absurd ((opens 2).mpr rfl) (by decide)
  · intro followed
    have higher : (2 : U64) < 0 := followed
    exact absurd higher (by decide)

end Rounds

section Reports

/-- The block the engine says it voted for. -/
def reported (current : EngineEvent B V QC H N S A F E O) : Option B :=
  match current.input, current.output with
  | .processProposal proposal, .proposal (.ok result) => if result.voted then some proposal else none
  | _, _ => none

theorem mem_reported (profile : Profile) (engine : Consensus B V QC H S F E O) (input : Call B V QC N S A) (proposal : B) :
    proposal ∈ reported (event (call profile) engine input) ↔
      input = .processProposal proposal ∧ engine.state = .running ∧ engine.selfValidatorId.isSome ∧
        Block.round proposal = engine.round ∧ Block.verifySignature proposal = .ok () := by
  cases input with
  | processProposal handed =>
    by_cases same : handed = proposal
    · subst same
      rw [← votes_iff]
      simp only [reported, event, call, true_and]
      rcases (engine.processProposal handed).1 with error | result <;> simp
    · refine iff_of_false ?_ (fun both => same (Call.processProposal.inj both.1))
      simp only [reported, event, call]
      rcases (engine.processProposal handed).1 with error | result <;> simp [same]
  | _ => simp [reported]

/-- A vote the engine reports is on record in the safety state, passed the voting
rule, and is for the block reported before in its round. -/
def SafelyVoted (past : List (EngineEvent B V QC H N S A F E O)) (current : EngineEvent B V QC H N S A F E O) : Prop :=
  ∀ proposal ∈ reported current,
    Block.round proposal ≤ current.after.roundManager.safetyRules.state.lastVotedRound ∧
    (∃ timeoutCert : Option (TwoChainTimeoutCertificate S),
      (current.before.roundManager.tryVoteForProposal proposal timeoutCert).1 = .ok ()) ∧
    ∀ earlier ∈ past.filterMap reported, Block.round earlier = Block.round proposal → Block.id earlier = Block.id proposal

/-- A running validator is handed no signed proposal of round 0. -/
def Unasked (current : EngineEvent B V QC H N S A F E O) : Prop :=
  match current.input with
  | .processProposal proposal => current.before.state = .running → current.before.selfValidatorId.isSome →
    Block.round proposal = 0 → Block.verifySignature proposal ≠ .ok ()
  | _ => True

/-- In round 0 the engine reports a vote for whatever is signed, and the voting
rule of the round manager allows none. -/
theorem safelyVoted_iff (profile : Profile) {engine : Consensus B V QC H S F E O} (first : engine.round = 0)
    (past : List (EngineEvent B V QC H N S A F E O)) (input : Call B V QC N S A) :
    SafelyVoted past (event (call profile) engine input) ↔ Unasked (event (call profile) engine input) := by
  constructor
  · intro safe
    cases input with
    | processProposal proposal =>
      intro running validator zero signed
      have voted := (mem_reported profile engine _ proposal).mpr ⟨rfl, running, validator, zero.trans first.symm, signed⟩
      obtain ⟨_, ⟨timeoutCert, allowed⟩, _⟩ := safe proposal voted
      have positive := ((RoundManager.tryVote_ok_iff engine.roundManager proposal timeoutCert).mp allowed).2.1
      rw [zero] at positive
      exact absurd positive (lt_irrefl 0)
    | _ => trivial
  · intro unasked proposal voted
    obtain ⟨rfl, running, validator, current, signed⟩ := (mem_reported profile engine input proposal).mp voted
    exact absurd signed (unasked running validator (current.trans first))

/-- The votes an engine reports are safe exactly when it reports none. -/
theorem safely_voted_iff_unasked (profile : Profile) {config : ConsensusConfig F} {election : E} {id : Option O}
    {engine : Consensus B V QC H S F E O} (created : Consensus.new config election id = .ok engine)
    (calls : List (Call B V QC N S A)) :
    Meets (call profile) SafelyVoted engine calls ↔ ∀ current ∈ trace (call profile) engine calls, Unasked current := by
  rw [← meets_iff_trace]
  apply meets_congr
  intro first past input
  refine safelyVoted_iff profile ?_ past input
  obtain ⟨_, _, fresh, _, _⟩ := new_parts created
  rw [exec_unchanged (call profile) Consensus.round (fun engine input _ => call_round profile engine input), Consensus.round, fresh]
  rfl

theorem later_proposals_unvoted :
    ∃ engine : MockConsensus, Consensus.new (mockConfig 0 1) ⟨[⟨1⟩, ⟨2⟩]⟩ (some ⟨1⟩) = .ok engine ∧
      Meets (call .dev) SafelyVoted engine [.start, .processProposal (makeBlock 1 0 1 ⟨0⟩)] := by
  refine ⟨_, rfl, ?_⟩
  have created : Consensus.new (mockConfig 0 1) ⟨[⟨1⟩, ⟨2⟩]⟩ (some ⟨1⟩) = .ok (_ : MockConsensus) := rfl
  refine (safely_voted_iff_unasked .dev created _).mpr ?_
  simp only [forall_trace_cons, forall_trace_nil, and_true]
  exact ⟨trivial, fun _ _ zero => absurd zero (by decide)⟩

/-- Two blocks of round 0: both are voted for, and neither may be. -/
theorem two_blocks_voted_in_one_round :
    ∃ engine : MockConsensus, Consensus.new (mockConfig 0 1) ⟨[⟨1⟩, ⟨2⟩]⟩ (some ⟨1⟩) = .ok engine ∧
      let calls : List (Call MockBlock MockVote MockQuorumCert MockHash MockSignature MockAggregatedSignature) :=
        [.start, .processProposal (makeBlock 0 0 1 ⟨0⟩), .processProposal (makeBlock 0 0 2 ⟨0⟩)]
      (trace (call .dev) engine calls).filterMap reported = [makeBlock 0 0 1 ⟨0⟩, makeBlock 0 0 2 ⟨0⟩] ∧
        Block.id (makeBlock 0 0 1 ⟨0⟩) ≠ Block.id (makeBlock 0 0 2 ⟨0⟩) ∧ ¬ Meets (call .dev) SafelyVoted engine calls := by
  refine ⟨_, rfl, by decide, by decide, ?_⟩
  intro safe
  obtain ⟨_, ⟨timeoutCert, allowed⟩, _⟩ := safe [_] _ [_] rfl (makeBlock 0 0 1 ⟨0⟩) (by decide)
  have positive := ((RoundManager.tryVote_ok_iff _ _ timeoutCert).mp allowed).2.1
  exact absurd positive (by decide)

end Reports
end AptosBft.Proofs.Engine
