import AptosBft.Proofs.Runtime

/-! The lifecycles of the runtime and of its engine. Each keeps its own state, and the
runtime changes its own before it asks the engine. -/

namespace AptosBft.Proofs.Lifecycles
open Rust Mealy AptosBft.ConsensusRuntime AptosBft.Proofs.Runtime

variable {B V QC H N S A F E O : Type}

abbrev RuntimeEvent (B V QC H N S A F E O : Type) :=
  Event (ConsensusRuntime B V QC H S F E O) (Call B V QC N S A) (Reply B V QC)

/-- A start or a shutdown that fails changes nothing. -/
def FailureKeeps (current : RuntimeEvent B V QC H N S A F E O) : Prop :=
  current.input = .start ∨ current.input = .shutdown →
    ∀ error, current.output = .done (.error error) → current.after = current.before

/-- The runtime is started only if it runs or its engine can be started, and shut down
only if it does not run or its engine can be stopped. -/
def EngineReady (current : RuntimeEvent B V QC H N S A F E O) : Prop :=
  match current.input with
  | .start => current.before.isRunning = true ∨
      current.before.consensus.state = .bootstrapping ∨ current.before.consensus.state = .stopped
  | .shutdown => current.before.isRunning = false ∨
      current.before.consensus.state = .running ∨ current.before.consensus.state = .catchingUp
  | _ => True

/-- The engine is reached through the runtime. -/
def Outside : Call B V QC N S A → Prop
  | .engine _ => False
  | _ => True

def LifecyclesAgree (runtime : ConsensusRuntime B V QC H S F E O) : Prop :=
  runtime.isRunning = true ↔ runtime.consensus.state = .running

section Lifecycles
variable {runtime : ConsensusRuntime B V QC H S F E O}

theorem start_cases (runtime : ConsensusRuntime B V QC H S F E O) :
    (∃ error, runtime.start = (.error error, runtime) ∧ runtime.isRunning = true) ∨
    (∃ error, runtime.start = (.error error, { runtime with isRunning := true }) ∧ runtime.isRunning = false ∧
      ¬(runtime.consensus.state = .bootstrapping ∨ runtime.consensus.state = .stopped)) ∨
    (runtime.start = (.ok (), { runtime with isRunning := true, consensus := { runtime.consensus with state := .running } }) ∧
      runtime.isRunning = false ∧ (runtime.consensus.state = .bootstrapping ∨ runtime.consensus.state = .stopped)) := by
  cases flag : runtime.isRunning with
  | true => exact Or.inl ⟨_, if_pos flag, rfl⟩
  | false =>
    simp only [start, flag, Consensus.start, Bool.false_eq_true, if_false]
    by_cases ready : runtime.consensus.state = .bootstrapping ∨ runtime.consensus.state = .stopped
    · rw [if_pos ready]
      exact Or.inr (Or.inr ⟨rfl, trivial, ready⟩)
    · rw [if_neg ready]
      exact Or.inr (Or.inl ⟨_, rfl, trivial, ready⟩)

theorem shutdown_cases (runtime : ConsensusRuntime B V QC H S F E O) :
    (∃ error, runtime.shutdown = (.error error, runtime) ∧ runtime.isRunning = false) ∨
    (∃ error, runtime.shutdown = (.error error, { runtime with isRunning := false }) ∧ runtime.isRunning = true ∧
      ¬(runtime.consensus.state = .running ∨ runtime.consensus.state = .catchingUp)) ∨
    (runtime.shutdown = (.ok (), { runtime with
        isRunning := false, consensus := { runtime.consensus with state := .stopped }, pendingMessages := [], activeTasks := [] }) ∧
      runtime.isRunning = true ∧ (runtime.consensus.state = .running ∨ runtime.consensus.state = .catchingUp)) := by
  cases flag : runtime.isRunning with
  | false => exact Or.inl ⟨_, if_pos (by rw [flag]; rfl), rfl⟩
  | true =>
    simp only [shutdown, flag, Consensus.stop, Bool.not_true, Bool.false_eq_true, if_false]
    by_cases ready : runtime.consensus.state = .running ∨ runtime.consensus.state = .catchingUp
    · rw [if_pos ready]
      exact Or.inr (Or.inr ⟨rfl, trivial, ready⟩)
    · rw [if_neg ready]
      exact Or.inr (Or.inl ⟨_, rfl, trivial, ready⟩)

theorem loop_lifecycle [QuorumCertificate QC H] [Floating F] (profile : Profile) (queue : List (NetworkMessage B V QC))
    (runtime : ConsensusRuntime B V QC H S F E O) (earlier : List (NetworkMessage B V QC × ExecutionResult)) :
    (processLoop profile runtime earlier queue).2.consensus.state = runtime.consensus.state ∧
      (processLoop profile runtime earlier queue).2.isRunning = runtime.isRunning := by
  induction queue generalizing runtime earlier with
  | nil => exact ⟨rfl, rfl⟩
  | cons message queue ih =>
    have step := handle_lifecycle profile { runtime with pendingMessages := queue } message
    simp only [processLoop, processMessage_eq]
    generalize handleNetworkMessage profile { runtime with pendingMessages := queue } message = outcome at step ⊢
    obtain ⟨answer, after⟩ := outcome
    cases answer with
    | error reason => exact step
    | ok result =>
      obtain ⟨state, flag⟩ := ih after (earlier ++ [(message, result)])
      exact ⟨state.trans step.1, flag.trans step.2⟩

variable [DecidableEq H] [DecidableEq N] [DecidableEq S] [DecidableEq O] [Block B H] [Vote V B H N S A] [VoteData V]
  [QuorumCertificate QC H] [FromVotes QC V A] [Floating F] [ProposerElection E O]

theorem failureKeeps_iff (profile : Profile) (runtime : ConsensusRuntime B V QC H S F E O) (input : Call B V QC N S A) :
    FailureKeeps (event (call profile) runtime input) ↔ EngineReady (event (call profile) runtime input) := by
  cases input with
  | start =>
    simp only [FailureKeeps, EngineReady, event_input, event_output, event_before, event_after, call]
    obtain ⟨error, refused, flag⟩ | ⟨error, failed, flag, unready⟩ | ⟨started, flag, ready⟩ := start_cases runtime
    · rw [refused]
      exact iff_of_true (fun _ _ _ => rfl) (Or.inl flag)
    · rw [failed]
      refine iff_of_false ?_ (by simp [flag, unready])
      intro keeps
      have same := congrArg isRunning (keeps (Or.inl trivial) error rfl)
      cases flag.symm.trans same.symm
    · rw [started]
      exact iff_of_true (fun _ _ failed => by cases failed) (Or.inr ready)
  | shutdown =>
    simp only [FailureKeeps, EngineReady, event_input, event_output, event_before, event_after, call]
    obtain ⟨error, refused, flag⟩ | ⟨error, failed, flag, unready⟩ | ⟨stopped, flag, ready⟩ := shutdown_cases runtime
    · rw [refused]
      exact iff_of_true (fun _ _ _ => rfl) (Or.inl flag)
    · rw [failed]
      refine iff_of_false ?_ (by simp [flag, unready])
      intro keeps
      have same := congrArg isRunning (keeps (Or.inr trivial) error rfl)
      cases flag.symm.trans same.symm
    · rw [stopped]
      exact iff_of_true (fun _ _ failed => by cases failed) (Or.inr ready)
  | _ => exact iff_of_true (fun other => by simp at other) trivial

/-- The states in which the two lifecycles can be together. -/
def InStep (runtime : ConsensusRuntime B V QC H S F E O) : Prop :=
  runtime.isRunning = true ∧ runtime.consensus.state = .running ∨
    runtime.isRunning = false ∧ (runtime.consensus.state = .bootstrapping ∨ runtime.consensus.state = .stopped)

omit [DecidableEq H] [DecidableEq N] [DecidableEq S] [DecidableEq O] [Block B H] [Vote V B H N S A] [VoteData V]
  [QuorumCertificate QC H] [FromVotes QC V A] [Floating F] [ProposerElection E O] in
theorem InStep.agrees (inStep : InStep runtime) : LifecyclesAgree runtime := by
  obtain ⟨flag, running⟩ | ⟨flag, starting | stopped⟩ := inStep
  · exact iff_of_true flag running
  · exact iff_of_false (by simp [flag]) (by simp [starting])
  · exact iff_of_false (by simp [flag]) (by simp [stopped])

theorem InStep.step (profile : Profile) (inStep : InStep runtime) {input : Call B V QC N S A} (outside : Outside input) :
    InStep (AptosBft.ConsensusRuntime.call profile runtime input).2 := by
  have keeps : ∀ {after : ConsensusRuntime B V QC H S F E O},
      after.consensus.state = runtime.consensus.state ∧ after.isRunning = runtime.isRunning → InStep after := by
    intro after same
    rw [InStep, same.1, same.2]
    exact inStep
  cases input with
  | start =>
    simp only [AptosBft.ConsensusRuntime.call]
    obtain ⟨error, refused, _⟩ | ⟨error, _, flag, unready⟩ | ⟨started, _, _⟩ := start_cases runtime
    · rw [refused]
      exact inStep
    · obtain ⟨other, _⟩ | ⟨_, ready⟩ := inStep
      · cases flag.symm.trans other
      · exact absurd ready unready
    · rw [started]
      exact Or.inl ⟨rfl, rfl⟩
  | shutdown =>
    simp only [AptosBft.ConsensusRuntime.call]
    obtain ⟨error, refused, _⟩ | ⟨error, _, flag, unready⟩ | ⟨stopped, _, _⟩ := shutdown_cases runtime
    · rw [refused]
      exact inStep
    · obtain ⟨_, running⟩ | ⟨other, _⟩ := inStep
      · exact absurd (Or.inl running) unready
      · cases flag.symm.trans other
    · rw [stopped]
      exact Or.inr ⟨rfl, Or.inr rfl⟩
  | addNetworkMessage message => exact keeps ⟨rfl, rfl⟩
  | processPendingMessages => exact keeps (loop_lifecycle profile runtime.pendingMessages runtime [])
  | handleNetworkMessage message => exact keeps (handle_lifecycle profile runtime message)
  | engine inner => exact outside.elim

/-- A failed start or shutdown changes nothing exactly if the engine is ready whenever the
runtime turns to it. Over an engine that was never started, and with no call past the
runtime, the two lifecycles agree in any case. -/
theorem lifecycles_in_step_iff (profile : Profile) (engine : Consensus B V QC H S F E O) (calls : List (Call B V QC N S A)) :
    ((∀ current ∈ trace (AptosBft.ConsensusRuntime.call profile) (ConsensusRuntime.new engine) calls, FailureKeeps current) ∧
      (engine.state = .bootstrapping → (∀ input ∈ calls, Outside input) → ∀ first, first <+: calls →
        LifecyclesAgree (exec (AptosBft.ConsensusRuntime.call profile) (ConsensusRuntime.new engine) first))) ↔
    ∀ current ∈ trace (AptosBft.ConsensusRuntime.call profile) (ConsensusRuntime.new engine) calls, EngineReady current := by
  rw [forall_trace_congr (failureKeeps_iff profile)]
  apply and_iff_left
  intro fresh outside first initial
  obtain ⟨later, rfl⟩ := initial
  have only : Meets (AptosBft.ConsensusRuntime.call profile)
      (fun _ (current : RuntimeEvent B V QC H N S A F E O) => Outside current.input) (ConsensusRuntime.new engine) first :=
    meets_of_forall fun input member => outside input (List.mem_append_left later member)
  have inStep := only.history (motive := fun _ runtime => InStep runtime) (Or.inr ⟨rfl, Or.inl fresh⟩)
    (fun _ _ _ inStep here => inStep.step profile here)
  exact inStep.agrees

end Lifecycles

/-- The engine is stopped past the runtime. The shutdown that follows fails, and the
runtime counts as stopped all the same. -/
theorem failed_shutdown_stops_runtime :
    ∃ engine : MockConsensus, Consensus.new (mockConfig 0 1) ⟨[⟨1⟩, ⟨2⟩]⟩ (some ⟨1⟩) = .ok engine ∧
      let calls : List (Call MockBlock MockVote MockQuorumCert MockHash MockSignature MockAggregatedSignature) :=
        [.start, .engine .stop, .shutdown]
      let run := trace (AptosBft.ConsensusRuntime.call .dev) (ConsensusRuntime.new engine) calls
      run.map Event.output = [.done (.ok ()), .engine (.done (.ok ())), .done (.error ⟨"Cannot stop consensus from state: stopped"⟩)] ∧
        (run.map fun current => current.after.isRunning) = [true, true, false] ∧ ¬∀ current ∈ run, FailureKeeps current := by
  refine ⟨_, rfl, ?_⟩
  intro calls run
  refine ⟨by decide, by decide, ?_⟩
  intro keeps
  have last := keeps _ (List.mem_cons_of_mem _ (List.mem_cons_of_mem _ List.mem_cons_self)) (Or.inr rfl) _ rfl
  cases congrArg isRunning last

end AptosBft.Proofs.Lifecycles
