import AptosBft.Proofs.Engine

/-! The messages of the runtime. Two dispatchers do the same work, and the rounds come
unchecked from the network. -/

namespace AptosBft.Proofs.Runtime
open Rust Mealy AptosBft.ConsensusRuntime

variable {B V QC H N S A F E O : Type}

section Pacing

theorem enterNewRound_new {I : Type} [RoundIntervalStrategy I] {pacemaker : Pacemaker I F} {round : U64}
    (new : pacemaker.currentRound < round) :
    (pacemaker.highestOrderedRound ≠ u64Max ∧
      ∃ entered, ∀ profile, pacemaker.enterNewRound profile round = (.ok entered, { pacemaker with currentRound := round })) ∨
    (pacemaker.highestOrderedRound = u64Max ∧
      pacemaker.enterNewRound .dev round = (.error (.panic .overflow), pacemaker) ∧
      ∃ entered, pacemaker.enterNewRound .release round = (.ok entered, { pacemaker with currentRound := round })) := by
  by_cases room : pacemaker.highestOrderedRound = u64Max
  · have allowed : ¬(!pacemaker.canEnterRound round) = true := by simpa [Pacemaker.canEnterRound] using new
    refine Or.inr ⟨room, ?_, ?_⟩
    · rw [Pacemaker.enterNewRound, if_neg allowed, room]
      rfl
    · simp only [Pacemaker.enterNewRound, if_neg allowed, U64.plus_release]
      exact ⟨_, rfl⟩
  · have below : pacemaker.highestOrderedRound < u64Max := lt_of_le_of_ne (Fin.le_last _) room
    exact Or.inl ⟨room, _, fun profile => Pacemaker.enterNewRound_eq profile below new⟩

/-- The additions of a timeout go past the last round. -/
def Overflows (engine : Consensus B V QC H S F E O) (round : U64) : Prop :=
  round = u64Max ∨ engine.pacemaker.highestOrderedRound = u64Max ∧ engine.pacemaker.currentRound ≤ round

variable [Floating F] {engine : Consensus B V QC H S F E O}

/-- Without an overflow the profile does not matter. -/
theorem timeout_exact (running : engine.state = .running) {round : U64} (fits : ¬Overflows engine round) :
    (round < engine.pacemaker.currentRound ∧
      ∃ error, ∀ profile, engine.processTimeout profile round = (.error (.err error), engine)) ∨
    (engine.pacemaker.currentRound ≤ round ∧ ∃ next, next.val = round.val + 1 ∧ ∀ profile,
      engine.processTimeout profile round =
        (.ok (), { engine with pacemaker := { engine.pacemaker with currentRound := next } })) := by
  rw [Overflows, not_or] at fits
  obtain ⟨next, following, sum⟩ := U64.plus_one_of_ne fits.1
  simp only [Consensus.processTimeout, if_neg (not_not.mpr running), sum]
  by_cases old : round < engine.pacemaker.currentRound
  · have refused : next ≤ engine.pacemaker.currentRound := by
      rw [Fin.le_def, following]
      exact old
    obtain ⟨error, same⟩ := Pacemaker.enterNewRound_refused refused
    simp only [same]
    exact Or.inl ⟨old, error, fun _ => rfl⟩
  · have entered : engine.pacemaker.currentRound < next := by
      rw [Fin.lt_def, following]
      exact Nat.lt_succ_of_le (not_lt.mp old)
    obtain ⟨_, event, moved⟩ | ⟨last, _⟩ := enterNewRound_new entered
    · simp only [moved]
      exact Or.inr ⟨not_lt.mp old, next, following, fun _ => rfl⟩
    · exact absurd ⟨last, not_lt.mp old⟩ fits.2

theorem timeout_overflows (running : engine.state = .running) {round : U64} (overflows : Overflows engine round) :
    engine.processTimeout .dev round = (.error (.panic .overflow), engine) := by
  rw [Consensus.processTimeout, if_neg (not_not.mpr running)]
  by_cases last : round = u64Max
  · rw [last]
    rfl
  · obtain ⟨highest, reached⟩ := overflows.resolve_left last
    obtain ⟨next, following, sum⟩ := U64.plus_one_of_ne last
    have entered : engine.pacemaker.currentRound < next := by
      rw [Fin.lt_def, following]
      exact Nat.lt_succ_of_le reached
    obtain ⟨room, _⟩ | ⟨_, panics, _⟩ := enterNewRound_new entered
    · exact absurd highest room
    · simp only [sum, panics]
      rfl

/-- A release build wraps and goes on. -/
theorem timeout_release (engine : Consensus B V QC H S F E O) (round : U64) (reason : Panic) :
    (engine.processTimeout .release round).1 ≠ .error (.panic reason) := by
  rw [Consensus.processTimeout]
  split
  · simp
  · simp only [U64.plus_release]
    by_cases old : round + 1 ≤ engine.pacemaker.currentRound
    · obtain ⟨error, same⟩ := Pacemaker.enterNewRound_refused old
      simp [same, Except.map]
    · obtain ⟨_, event, moved⟩ | ⟨_, _, event, moved⟩ := enterNewRound_new (not_le.mp old)
      · simp [moved, Except.map]
      · simp [moved, Except.map]

end Pacing

section Turns
variable [QuorumCertificate QC H] {engine after : Consensus B V QC H S F E O} {message : NetworkMessage B V QC}
  {result : ExecutionResult}

/-- What handling a message can answer and do to a running engine. -/
inductive Handles (engine : Consensus B V QC H S F E O) :
    NetworkMessage B V QC → ExecutionResult → Consensus B V QC H S F E O → Prop where
  | ordered {qc : QC} (higher : engine.pacemaker.highestOrderedRound < QuorumCertificate.round qc) :
      Handles engine (.quorumCertificate qc) .success
        { engine with pacemaker := { engine.pacemaker with highestOrderedRound := QuorumCertificate.round qc } }
  | oldCert {qc : QC} {text : String} (old : QuorumCertificate.round qc ≤ engine.pacemaker.highestOrderedRound) :
      Handles engine (.quorumCertificate qc) (.failed text) engine
  | entered {round next : U64} (new : engine.pacemaker.currentRound ≤ round) (following : next.val = round.val + 1) :
      Handles engine (.timeout round) .success { engine with pacemaker := { engine.pacemaker with currentRound := next } }
  | oldTimeout {round : U64} {text : String} (old : round < engine.pacemaker.currentRound) :
      Handles engine (.timeout round) (.failed text) engine
  | unpaced {message : NetworkMessage B V QC} {result : ExecutionResult} (noCert : ∀ qc, message ≠ .quorumCertificate qc)
      (noTimeout : ∀ round, message ≠ .timeout round) : Handles engine message result engine

/-- The message is a timeout whose additions overflow. -/
def Fatal (engine : Consensus B V QC H S F E O) (message : NetworkMessage B V QC) : Prop :=
  ∃ round, message = .timeout round ∧ Overflows engine round

/-- A timeout overflows when its turn comes: it is for the last round, or the last round
counts as ordered by then and the timeout is for a later round than all before it. -/
def OverflowsAfter (engine : Consensus B V QC H S F E O) (earlier : List (NetworkMessage B V QC)) (round : U64) : Prop :=
  round = u64Max ∨
    (engine.pacemaker.highestOrderedRound = u64Max ∨
      ∃ qc, .quorumCertificate qc ∈ earlier ∧ QuorumCertificate.round qc = u64Max) ∧
    engine.pacemaker.currentRound ≤ round ∧ ∀ before, .timeout before ∈ earlier → before < round

/-- No timeout of the queue overflows. -/
def Roomy (engine : Consensus B V QC H S F E O) (queue : List (NetworkMessage B V QC)) : Prop :=
  ∀ earlier round later, queue = earlier ++ .timeout round :: later → ¬OverflowsAfter engine earlier round

theorem overflowsAfter_nil {round : U64} :
    OverflowsAfter engine ([] : List (NetworkMessage B V QC)) round ↔ Overflows engine round := by
  simp [OverflowsAfter, Overflows]

theorem eq_max_of_le {bound round : U64} (last : round = u64Max) (below : round ≤ bound) : bound = u64Max :=
  le_antisymm (Fin.le_last bound) (last ▸ below)

theorem Handles.ordered_iff (handles : Handles engine message result after) :
    after.pacemaker.highestOrderedRound = u64Max ↔ engine.pacemaker.highestOrderedRound = u64Max ∨
      ∃ qc, .quorumCertificate qc = message ∧ QuorumCertificate.round qc = u64Max := by
  cases handles with
  | @ordered qc higher =>
    simp only [NetworkMessage.quorumCertificate.injEq, exists_eq_left]
    exact ⟨Or.inr, fun either => either.elim (fun last => eq_max_of_le last (le_of_lt higher)) id⟩
  | @oldCert qc _ old =>
    simp only [NetworkMessage.quorumCertificate.injEq, exists_eq_left]
    exact ⟨Or.inl, fun either => either.elim id (fun last => eq_max_of_le last old)⟩
  | entered new following => simp
  | oldTimeout old => simp
  | unpaced noCert noTimeout => simp [fun qc => (noCert qc).symm]

theorem Handles.reached_iff (handles : Handles engine message result after) (round : U64) :
    after.pacemaker.currentRound ≤ round ↔
      engine.pacemaker.currentRound ≤ round ∧ ∀ before, .timeout before = message → before < round := by
  cases handles with
  | ordered higher => simp
  | oldCert old => simp
  | @entered timeout next new following =>
    simp only [NetworkMessage.timeout.injEq, forall_eq, Fin.le_def, Fin.lt_def, following] at new ⊢
    omega
  | @oldTimeout timeout _ old =>
    simp only [NetworkMessage.timeout.injEq, forall_eq]
    exact ⟨fun below => ⟨below, lt_of_lt_of_le old below⟩, And.left⟩
  | unpaced noCert noTimeout => simp [fun round => (noTimeout round).symm]

/-- What a handled message leaves behind is what the condition remembers of it. -/
theorem Handles.overflowsAfter (handles : Handles engine message result after)
    (earlier : List (NetworkMessage B V QC)) (round : U64) :
    OverflowsAfter after earlier round ↔ OverflowsAfter engine (message :: earlier) round := by
  simp only [OverflowsAfter, List.mem_cons, handles.ordered_iff, handles.reached_iff, or_and_right, exists_or, or_imp,
    forall_and, or_assoc, and_assoc]

theorem Handles.running (handles : Handles engine message result after)
    (running : engine.state = .running) : after.state = .running := by
  cases handles <;> exact running

/-- The first message does not overflow and the others do not after it. -/
theorem roomy_cons {queue : List (NetworkMessage B V QC)} :
    Roomy engine (message :: queue) ↔ ¬Fatal engine message ∧
      ∀ earlier round later, queue = earlier ++ .timeout round :: later → ¬OverflowsAfter engine (message :: earlier) round := by
  constructor
  · intro roomy
    refine ⟨?_, ?_⟩
    · intro fatal
      obtain ⟨round, rfl, overflows⟩ := fatal
      exact roomy [] round queue rfl (overflowsAfter_nil.mpr overflows)
    · intro earlier round later cut
      subst cut
      exact roomy (message :: earlier) round later rfl
  · intro both earlier round later cut
    obtain ⟨fits, others⟩ := both
    cases earlier with
    | nil =>
      obtain ⟨rfl, rfl⟩ := List.cons.inj cut
      exact fun overflows => fits ⟨round, rfl, overflowsAfter_nil.mp overflows⟩
    | cons head earlier =>
      obtain ⟨rfl, rest⟩ := List.cons.inj cut
      exact others earlier round later rest

end Turns

section Batches
variable [QuorumCertificate QC H] [Floating F] {profile : Profile} {runtime : ConsensusRuntime B V QC H S F E O}

theorem processMessage_eq (profile : Profile) (runtime : ConsensusRuntime B V QC H S F E O) (message : NetworkMessage B V QC) :
    runtime.processMessage profile message = runtime.handleNetworkMessage profile message := by
  cases message <;> rfl

/-- The queue is neither read nor written while a message is handled. -/
theorem handle_queue (profile : Profile) (runtime : ConsensusRuntime B V QC H S F E O) (queue : List (NetworkMessage B V QC))
    (message : NetworkMessage B V QC) :
    handleNetworkMessage profile { runtime with pendingMessages := queue } message =
      ((runtime.handleNetworkMessage profile message).1,
        { (runtime.handleNetworkMessage profile message).2 with pendingMessages := queue }) := by
  cases message with
  | quorumCertificate qc =>
    simp only [handleNetworkMessage]
    obtain ⟨result, consensus⟩ := runtime.consensus.processQc qc
    cases result <;> rfl
  | timeout round =>
    simp only [handleNetworkMessage]
    obtain ⟨result, consensus⟩ := runtime.consensus.processTimeout profile round
    cases result with
    | ok => rfl
    | error failure => cases failure <;> rfl
  | _ => rfl

/-- Each message of the queue with the answer it got. -/
def answers (run : List (Event (ConsensusRuntime B V QC H S F E O) (NetworkMessage B V QC) (Except Panic ExecutionResult))) :
    List (NetworkMessage B V QC × Except Panic ExecutionResult) := run.map fun current => (current.input, current.output)

/-- Working off the queue is handling its messages one by one. -/
structure BatchAgrees (profile : Profile) (runtime : ConsensusRuntime B V QC H S F E O)
    (results : List (NetworkMessage B V QC × ExecutionResult)) : Prop where
  returned : (runtime.processPendingMessages profile).1 = .ok results
  once : results.map Prod.fst = runtime.pendingMessages
  answered : answers (trace (handleNetworkMessage profile) runtime runtime.pendingMessages) =
    results.map fun result => (result.1, .ok result.2)
  engine : (runtime.processPendingMessages profile).2.consensus =
    (exec (handleNetworkMessage profile) runtime runtime.pendingMessages).consensus
  emptied : (runtime.processPendingMessages profile).2.pendingMessages = []

/-- The loop stops at the first message that panics, and nowhere else. -/
theorem processLoop_cases (profile : Profile) (queue : List (NetworkMessage B V QC)) (runtime : ConsensusRuntime B V QC H S F E O)
    (earlier : List (NetworkMessage B V QC × ExecutionResult)) :
    (∃ later, processLoop profile { runtime with pendingMessages := queue } earlier queue =
        (.ok (earlier ++ later), { exec (handleNetworkMessage profile) runtime queue with pendingMessages := [] }) ∧
      answers (trace (handleNetworkMessage profile) runtime queue) = later.map fun result => (result.1, .ok result.2)) ∨
    (∃ reason, (processLoop profile { runtime with pendingMessages := queue } earlier queue).1 = .error reason ∧
      ∃ current ∈ trace (handleNetworkMessage profile) runtime queue, current.output = .error reason) := by
  induction queue generalizing runtime earlier with
  | nil => exact Or.inl ⟨[], by simp [processLoop], rfl⟩
  | cons message queue ih =>
    simp only [processLoop, processMessage_eq, handle_queue]
    cases answer : (runtime.handleNetworkMessage profile message).1 with
    | error reason => exact Or.inr ⟨reason, rfl, _, List.mem_cons_self, answer⟩
    | ok result =>
      obtain ⟨later, rest, same⟩ | ⟨reason, failed, current, member, output⟩ :=
        ih (runtime.handleNetworkMessage profile message).2 (earlier ++ [(message, result)])
      · refine Or.inl ⟨(message, result) :: later, ?_, ?_⟩
        · apply rest.trans
          rw [List.append_assoc]
          rfl
        · rw [answers] at same ⊢
          rw [trace_cons, List.map_cons, List.map_cons, same, event_input, event_output, answer]
      · exact Or.inr ⟨reason, failed, current, List.mem_cons_of_mem _ member, output⟩

/-- The batch agrees exactly if no message panics when it is handled on its own. -/
theorem batchAgrees_iff_answered : (∃ results, BatchAgrees profile runtime results) ↔
    ∀ current ∈ trace (handleNetworkMessage profile) runtime runtime.pendingMessages, ∃ result, current.output = .ok result := by
  constructor
  · intro some current member
    obtain ⟨results, agrees⟩ := some
    have listed : (current.input, current.output) ∈ answers (trace (handleNetworkMessage profile) runtime runtime.pendingMessages) :=
      List.mem_map_of_mem member
    rw [agrees.answered] at listed
    obtain ⟨result, _, same⟩ := List.mem_map.mp listed
    exact ⟨result.2, (Prod.mk.inj same).2.symm⟩
  · intro fine
    obtain ⟨results, worked, same⟩ | ⟨reason, _, current, member, failed⟩ :=
      processLoop_cases profile runtime.pendingMessages runtime []
    · have whole : runtime.processPendingMessages profile = (.ok results,
          { exec (handleNetworkMessage profile) runtime runtime.pendingMessages with pendingMessages := [] }) := worked
      refine ⟨results, by rw [whole], ?_, same, by rw [whole], by rw [whole]⟩
      have inputs := congrArg (List.map Prod.fst) same
      rw [answers, List.map_map, List.map_map] at inputs
      exact inputs.symm.trans (trace_inputs _ runtime runtime.pendingMessages)
    · obtain ⟨result, answered⟩ := fine current member
      cases failed.symm.trans answered

theorem handle_fatal (running : runtime.consensus.state = .running) {message : NetworkMessage B V QC}
    (fatal : Fatal runtime.consensus message) : (runtime.handleNetworkMessage .dev message).1 = .error .overflow := by
  obtain ⟨round, rfl, overflows⟩ := fatal
  simp only [handleNetworkMessage, timeout_overflows running overflows]

/-- A message that does not overflow is answered in either profile in the same way. -/
theorem handle_exact (running : runtime.consensus.state = .running) {message : NetworkMessage B V QC}
    (fits : ¬Fatal runtime.consensus message) :
    ∃ result consensus, Handles runtime.consensus message result consensus ∧
      ∀ profile, runtime.handleNetworkMessage profile message = (.ok result, { runtime with consensus }) := by
  cases message with
  | quorumCertificate qc =>
    simp only [handleNetworkMessage]
    obtain ⟨error, refused, old⟩ | ⟨_, higher, moved⟩ := Engine.processQc_cases runtime.consensus qc
    · simp only [refused]
      exact ⟨_, _, .oldCert (old running), fun _ => rfl⟩
    · simp only [moved]
      exact ⟨_, _, .ordered higher, fun _ => rfl⟩
  | timeout round =>
    simp only [handleNetworkMessage]
    obtain ⟨old, error, refused⟩ | ⟨new, next, following, moved⟩ :=
      timeout_exact running (fun overflows => fits ⟨round, rfl, overflows⟩)
    · simp only [refused]
      exact ⟨_, _, .oldTimeout old, fun _ => rfl⟩
    · simp only [moved]
      exact ⟨_, _, .entered new following, fun _ => rfl⟩
  | _ => exact ⟨_, _, .unpaced nofun nofun, fun _ => rfl⟩

/-- Handling a message starts and stops nothing. -/
theorem handle_lifecycle (profile : Profile) (runtime : ConsensusRuntime B V QC H S F E O) (message : NetworkMessage B V QC) :
    (runtime.handleNetworkMessage profile message).2.consensus.state = runtime.consensus.state ∧
      (runtime.handleNetworkMessage profile message).2.isRunning = runtime.isRunning := by
  cases message with
  | quorumCertificate qc =>
    simp only [handleNetworkMessage]
    obtain ⟨error, refused, _⟩ | ⟨_, _, moved⟩ := Engine.processQc_cases runtime.consensus qc
    · rw [refused]
      exact ⟨rfl, rfl⟩
    · rw [moved]
      exact ⟨rfl, rfl⟩
  | timeout round =>
    simp only [handleNetworkMessage]
    obtain ⟨failure, refused, _⟩ | ⟨next, _, _, moved⟩ := Engine.processTimeout_cases profile runtime.consensus round
    · rw [refused]
      cases failure <;> exact ⟨rfl, rfl⟩
    · rw [moved]
      exact ⟨rfl, rfl⟩
  | _ => exact ⟨rfl, rfl⟩

theorem handle_release (runtime : ConsensusRuntime B V QC H S F E O) (message : NetworkMessage B V QC) :
    ∃ result, (runtime.handleNetworkMessage .release message).1 = .ok result := by
  cases message with
  | quorumCertificate qc =>
    simp only [handleNetworkMessage]
    obtain ⟨result, consensus⟩ := runtime.consensus.processQc qc
    cases result <;> exact ⟨_, rfl⟩
  | timeout round =>
    have returns := timeout_release runtime.consensus round
    simp only [handleNetworkMessage]
    generalize runtime.consensus.processTimeout .release round = outcome at returns ⊢
    obtain ⟨result, consensus⟩ := outcome
    cases result with
    | ok => exact ⟨_, rfl⟩
    | error failure =>
      cases failure with
      | err error => exact ⟨_, rfl⟩
      | panic reason => exact absurd rfl (returns reason)
  | _ => exact ⟨_, rfl⟩

/-- A runtime whose engine does not run refuses certificates and timeouts. -/
theorem handle_idle (profile : Profile) (idle : runtime.consensus.state ≠ .running) (message : NetworkMessage B V QC) :
    ∃ result, runtime.handleNetworkMessage profile message = (.ok result, runtime) := by
  cases message with
  | quorumCertificate qc =>
    simp only [handleNetworkMessage, Consensus.processQc, if_pos idle]
    exact ⟨_, rfl⟩
  | timeout round =>
    simp only [handleNetworkMessage, Consensus.processTimeout, if_pos idle]
    exact ⟨_, rfl⟩
  | _ => exact ⟨_, rfl⟩

/-- In a development build the messages are all answered exactly if none overflows. -/
theorem answered_iff_roomy (queue : List (NetworkMessage B V QC)) (running : runtime.consensus.state = .running) :
    (∀ current ∈ trace (handleNetworkMessage .dev) runtime queue, ∃ result, current.output = .ok result) ↔
      Roomy runtime.consensus queue := by
  induction queue generalizing runtime with
  | nil => simp [Roomy]
  | cons message queue ih =>
    rw [forall_trace_cons, event_output, roomy_cons]
    by_cases fatal : Fatal runtime.consensus message
    · refine iff_of_false ?_ (fun both => both.1 fatal)
      intro both
      obtain ⟨⟨result, answered⟩, _⟩ := both
      cases (handle_fatal running fatal).symm.trans answered
    · obtain ⟨result, consensus, handles, step⟩ := handle_exact running fatal
      rw [step .dev, ih (handles.running running)]
      simp only [Roomy, handles.overflowsAfter, fatal, not_false_eq_true, true_and, Except.ok.injEq, exists_eq']

theorem answered_of_idle (idle : runtime.consensus.state ≠ .running) (queue : List (NetworkMessage B V QC)) :
    ∀ current ∈ trace (handleNetworkMessage .dev) runtime queue, ∃ result, current.output = .ok result := by
  induction queue with
  | nil => simp
  | cons message queue ih =>
    obtain ⟨result, step⟩ := handle_idle .dev idle message
    rw [forall_trace_cons, event_output, step]
    exact ⟨⟨result, rfl⟩, ih⟩

/-- Working off the queue is handling its messages one by one exactly if nothing can
panic: in a release build, in an engine that does not run, or in a queue whose
timeouts have room. -/
theorem batch_agrees_iff (profile : Profile) (runtime : ConsensusRuntime B V QC H S F E O) :
    (∃ results, BatchAgrees profile runtime results) ↔
      profile = .release ∨ runtime.consensus.state ≠ .running ∨ Roomy runtime.consensus runtime.pendingMessages := by
  rw [batchAgrees_iff_answered]
  cases profile with
  | release =>
    refine iff_of_true ?_ (Or.inl rfl)
    intro current member
    obtain ⟨first, _, _, here⟩ := mem_trace _ member
    rw [here]
    exact handle_release _ _
  | dev =>
    by_cases running : runtime.consensus.state = .running
    · simp only [answered_iff_roomy _ running, reduceCtorEq, running, ne_eq, not_true_eq_false, false_or]
    · exact iff_of_true (answered_of_idle running runtime.pendingMessages) (Or.inr (Or.inl running))

end Batches

/-- A timeout for the last round stops the batch. The certificate behind it stays in the
queue. -/
theorem last_round_stops_batch :
    ∃ engine : MockConsensus, Consensus.new (mockConfig 0 1) ⟨[⟨1⟩, ⟨2⟩]⟩ (some ⟨1⟩) = .ok engine ∧
      let runtime : MockRuntime := ((ConsensusRuntime.new engine).start.2.addNetworkMessage (.timeout u64Max)).addNetworkMessage
        (.quorumCertificate (makeQc 5 0 ⟨1⟩))
      (runtime.processPendingMessages .dev).1 = .error .overflow ∧
        (runtime.processPendingMessages .dev).2.pendingMessages = [.quorumCertificate (makeQc 5 0 ⟨1⟩)] ∧
        ¬∃ results, BatchAgrees .dev runtime results := by
  refine ⟨_, rfl, ?_⟩
  intro runtime
  have stopped : (runtime.processPendingMessages .dev).1 = .error .overflow := by decide
  refine ⟨stopped, by decide, ?_⟩
  intro some
  obtain ⟨results, agrees⟩ := some
  cases stopped.symm.trans agrees.returned

/-- The round that a certificate or a timeout brings to the pacemaker. -/
def pacedRound [QuorumCertificate QC H] : NetworkMessage B V QC → Option U64
  | .quorumCertificate qc => some (QuorumCertificate.round qc)
  | .timeout round => some round
  | _ => none

/-- What a message does to the pacemaker if it is let in. -/
def Applied {I : Type} [QuorumCertificate QC H] (message : NetworkMessage B V QC) (before after : Pacemaker I F) : Prop :=
  match message with
  | .quorumCertificate qc => after = { before with highestOrderedRound := QuorumCertificate.round qc }
  | .timeout round => ∃ next, next.val = round.val + 1 ∧ after = { before with currentRound := next }
  | _ => after = before

/-- No addition of a step overflows: a development build, which would panic, does the
same. The message is applied or refused, and the pacemaker can tell its timeout. -/
structure OverflowFree [QuorumCertificate QC H] [Floating F]
    (current : Event (ConsensusRuntime B V QC H S F E O) (NetworkMessage B V QC) (Except Panic ExecutionResult)) : Prop where
  sums : current.before.handleNetworkMessage .dev current.input = (current.output, current.after)
  answered : (current.output = .ok .success ∧
      Applied current.input current.before.consensus.pacemaker current.after.consensus.pacemaker) ∨
    (∃ text, current.output = .ok (.failed text)) ∧ current.after.consensus.pacemaker = current.before.consensus.pacemaker
  timed : ∃ duration, current.after.consensus.pacemaker.currentRoundTimeout .dev = .ok duration

section Rounds
variable [QuorumCertificate QC H] [Floating F] {runtime : ConsensusRuntime B V QC H S F E O}

omit [QuorumCertificate QC H] in
theorem timed_iff (engine : Consensus B V QC H S F E O) :
    (∃ duration, engine.pacemaker.currentRoundTimeout .dev = .ok duration) ↔ engine.pacemaker.highestOrderedRound ≠ u64Max := by
  by_cases last : engine.pacemaker.highestOrderedRound = u64Max
  · refine iff_of_false ?_ (not_not.mpr last)
    intro timed
    obtain ⟨duration, told⟩ := timed
    rw [Pacemaker.currentRoundTimeout, last] at told
    cases told
  · have below : engine.pacemaker.highestOrderedRound < u64Max := lt_of_le_of_ne (Fin.le_last _) last
    exact iff_of_true ⟨_, Pacemaker.currentRoundTimeout_eq .dev below⟩ last

omit [Floating F] in
theorem Handles.answered {engine after : Consensus B V QC H S F E O} {message : NetworkMessage B V QC}
    {result : ExecutionResult} (handles : Handles engine message result after) (paced : (pacedRound message).isSome) :
    (result = .success ∧ Applied message engine.pacemaker after.pacemaker) ∨
      (∃ text, result = .failed text) ∧ after.pacemaker = engine.pacemaker := by
  cases handles with
  | ordered higher => exact Or.inl ⟨rfl, rfl⟩
  | oldCert old => exact Or.inr ⟨⟨_, rfl⟩, rfl⟩
  | entered new following => exact Or.inl ⟨rfl, _, following, rfl⟩
  | oldTimeout old => exact Or.inr ⟨⟨_, rfl⟩, rfl⟩
  | unpaced noCert noTimeout =>
    cases message with
    | quorumCertificate qc => exact absurd rfl (noCert qc)
    | timeout round => exact absurd rfl (noTimeout round)
    | _ => cases paced

variable {message : NetworkMessage B V QC} {round : U64}

theorem overflowFree_of_room (profile : Profile) (running : runtime.consensus.state = .running)
    (room : runtime.consensus.pacemaker.highestOrderedRound ≠ u64Max) (paced : pacedRound message = some round)
    (below : round ≠ u64Max) : OverflowFree (event (handleNetworkMessage profile) runtime message) := by
  have fits : ¬Fatal runtime.consensus message := by
    intro fatal
    obtain ⟨other, rfl, last | ⟨ordered, _⟩⟩ := fatal
    · cases paced
      exact below last
    · exact room ordered
  obtain ⟨result, consensus, handles, step⟩ := handle_exact running fits
  refine ⟨?_, ?_, ?_⟩
  · rw [event_before, event_input, event_output, event_after, step, step]
  · simp only [event_before, event_input, event_output, event_after, step, Except.ok.injEq]
    exact handles.answered (by rw [paced]; rfl)
  · rw [event_after, step, timed_iff]
    intro ordered
    obtain before | ⟨qc, rfl, last⟩ := handles.ordered_iff.mp ordered
    · exact room before
    · cases paced
      exact below last

/-- The last round overflows at once as a timeout, and as a certificate it leaves a
pacemaker that cannot tell its timeout. -/
theorem room_of_overflowFree (profile : Profile) (running : runtime.consensus.state = .running)
    (paced : pacedRound message = some round) (free : OverflowFree (event (handleNetworkMessage profile) runtime message)) :
    round ≠ u64Max := by
  intro last
  cases message with
  | quorumCertificate qc =>
    cases paced
    have fits : ¬Fatal runtime.consensus (.quorumCertificate qc : NetworkMessage B V QC) := by
      intro fatal
      obtain ⟨_, same, _⟩ := fatal
      cases same
    obtain ⟨result, consensus, handles, step⟩ := handle_exact running fits
    have timed := free.timed
    rw [event_after, step, timed_iff] at timed
    exact timed (handles.ordered_iff.mpr (Or.inr ⟨qc, rfl, last⟩))
  | timeout other =>
    cases paced
    have panics := handle_fatal running ⟨round, rfl, Or.inl last⟩
    have output := (congrArg Prod.fst free.sums).symm.trans panics
    obtain ⟨success, _⟩ | ⟨⟨_, failed⟩, _⟩ := free.answered
    · cases output.symm.trans success
    · cases output.symm.trans failed
  | _ => cases paced

/-- A run of certificates and timeouts adds without an overflow exactly if the last round
is not ordered at its start and comes in none of its messages. -/
theorem overflow_free_iff (profile : Profile) (running : runtime.consensus.state = .running)
    {messages : List (NetworkMessage B V QC)} (paced : ∀ message ∈ messages, (pacedRound message).isSome) :
    ((∃ duration, runtime.consensus.pacemaker.currentRoundTimeout .dev = .ok duration) ∧
      ∀ current ∈ trace (handleNetworkMessage profile) runtime messages, OverflowFree current) ↔
    runtime.consensus.pacemaker.highestOrderedRound ≠ u64Max ∧
      ∀ message ∈ messages, pacedRound message ≠ some u64Max := by
  induction messages generalizing runtime with
  | nil => simp [timed_iff]
  | cons message messages ih =>
    obtain ⟨here, others⟩ := List.forall_mem_cons.mp paced
    obtain ⟨round, carried⟩ := Option.isSome_iff_exists.mp here
    have still : (runtime.handleNetworkMessage profile message).2.consensus.state = .running :=
      (handle_lifecycle profile runtime message).1.trans running
    rw [timed_iff, forall_trace_cons, List.forall_mem_cons, carried]
    apply and_congr_right
    intro room
    constructor
    · intro both
      obtain ⟨free, rest⟩ := both
      have below := room_of_overflowFree profile running carried free
      exact ⟨fun last => below (Option.some.inj last), ((ih still others).mp ⟨free.timed, rest⟩).2⟩
    · intro both
      obtain ⟨below, rest⟩ := both
      have free := overflowFree_of_room profile running room carried (fun last => below (congrArg some last))
      exact ⟨free, ((ih still others).mpr ⟨(timed_iff _).mp free.timed, rest⟩).2⟩

end Rounds

theorem tested_rounds_overflow_free :
    ∃ engine : MockConsensus, Consensus.new (mockConfig 0 1) ⟨[⟨1⟩, ⟨2⟩]⟩ (some ⟨1⟩) = .ok engine ∧
      let runtime : MockRuntime := (ConsensusRuntime.new engine).start.2
      let messages : List (NetworkMessage MockBlock MockVote MockQuorumCert) :=
        [.timeout 1, .quorumCertificate (makeQc 2 0 ⟨1⟩), .timeout 1]
      runtime.consensus.state = .running ∧
        ∀ current ∈ trace (handleNetworkMessage .release) runtime messages, OverflowFree current := by
  refine ⟨_, rfl, ?_⟩
  intro runtime messages
  exact ⟨rfl, ((overflow_free_iff .release rfl (by decide)).mpr ⟨by decide, by decide⟩).2⟩

/-- A certificate for the last round is taken. The next timeout for a new round stops a
development build. -/
theorem planted_round_overflows :
    ∃ engine : MockConsensus, Consensus.new (mockConfig 0 1) ⟨[⟨1⟩, ⟨2⟩]⟩ (some ⟨1⟩) = .ok engine ∧
      let runtime : MockRuntime := (ConsensusRuntime.new engine).start.2
      let messages : List (NetworkMessage MockBlock MockVote MockQuorumCert) :=
        [.quorumCertificate (makeQc u64Max 0 ⟨1⟩), .timeout 7]
      (trace (handleNetworkMessage .dev) runtime messages).map Event.output = [.ok .success, .error .overflow] ∧
        ¬∀ current ∈ trace (handleNetworkMessage .dev) runtime messages, OverflowFree current := by
  refine ⟨_, rfl, ?_⟩
  intro runtime messages
  refine ⟨by decide, ?_⟩
  intro free
  obtain ⟨duration, told⟩ := (free _ List.mem_cons_self).timed
  cases told

end AptosBft.Proofs.Runtime
