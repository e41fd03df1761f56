import AptosBft.Lib.Ledger
import AptosBft.Proofs.Lifecycles
import AptosBft.Proofs.Reconfig

/-! What is queued comes out once, in order. The runtime queues network messages and the
reconfiguration handler queues events. -/

namespace AptosBft.Proofs.Queues
open Rust Mealy AptosBft.Proofs.Lifecycles

section Messages
open AptosBft.ConsensusRuntime
open AptosBft.Proofs.Runtime (processMessage_eq handle_queue)

variable {B V QC H N S A F E O : Type}

def addedMessages (current : RuntimeEvent B V QC H N S A F E O) : List (NetworkMessage B V QC) :=
  match current.input with
  | .addNetworkMessage message => [message]
  | _ => []

/-- The messages that went out of the queue: those that were answered, those that were
taken up to a panic, and those that a shutdown dropped. -/
def removedMessages (current : RuntimeEvent B V QC H N S A F E O) : List (NetworkMessage B V QC) :=
  match current.input, current.output with
  | .processPendingMessages, .processed (.ok results) => results.map Prod.fst
  | .processPendingMessages, .processed (.error _) =>
    current.before.pendingMessages.take (current.before.pendingMessages.length - current.after.pendingMessages.length)
  | .shutdown, .done (.ok ()) => current.before.pendingMessages
  | _, _ => []

/-- The loop handles its whole queue one message after the other, or up to one that panics. -/
theorem processLoop_queue [QuorumCertificate QC H] [Floating F] (profile : Profile) (queue : List (NetworkMessage B V QC))
    (runtime : ConsensusRuntime B V QC H S F E O) (earlier : List (NetworkMessage B V QC × ExecutionResult)) :
    ∃ taken, queue = taken ++ (processLoop profile { runtime with pendingMessages := queue } earlier queue).2.pendingMessages ∧
      (processLoop profile { runtime with pendingMessages := queue } earlier queue).2.consensus =
        (exec (handleNetworkMessage profile) runtime taken).consensus ∧
      ((∃ results, (processLoop profile { runtime with pendingMessages := queue } earlier queue).1 = .ok results ∧
          results.map Prod.fst = earlier.map Prod.fst ++ taken) ∨
        ∃ reason, (processLoop profile { runtime with pendingMessages := queue } earlier queue).1 = .error reason) := by
  induction queue generalizing runtime earlier with
  | nil => exact ⟨[], rfl, rfl, Or.inl ⟨earlier, rfl, (List.append_nil _).symm⟩⟩
  | cons message queue ih =>
    simp only [processLoop, processMessage_eq, handle_queue]
    cases (runtime.handleNetworkMessage profile message).1 with
    | error reason => exact ⟨[message], rfl, rfl, Or.inr ⟨reason, rfl⟩⟩
    | ok result =>
      obtain ⟨taken, split, engine, outcome⟩ :=
        ih (runtime.handleNetworkMessage profile message).2 (earlier ++ [(message, result)])
      refine ⟨message :: taken, congrArg (message :: ·) split, engine, ?_⟩
      obtain ⟨results, answered, same⟩ | failed := outcome
      · refine Or.inl ⟨results, answered, ?_⟩
        rw [same, List.map_append, List.append_assoc]
        rfl
      · exact Or.inr failed

theorem handle_pending [QuorumCertificate QC H] [Floating F] (profile : Profile) (runtime : ConsensusRuntime B V QC H S F E O)
    (message : NetworkMessage B V QC) :
    (runtime.handleNetworkMessage profile message).2.pendingMessages = runtime.pendingMessages :=
  congrArg (fun outcome => outcome.2.pendingMessages) (handle_queue profile runtime runtime.pendingMessages message)

variable [DecidableEq H] [DecidableEq N] [DecidableEq S] [DecidableEq O] [Block B H] [Vote V B H N S A] [VoteData V]
  [QuorumCertificate QC H] [FromVotes QC V A] [Floating F] [ProposerElection E O]

/-- Working off the queue removes the messages it handles. -/
theorem process_removes (profile : Profile) (runtime : ConsensusRuntime B V QC H S F E O) :
    let current := event (call profile) runtime (.processPendingMessages : Call B V QC N S A)
    runtime.pendingMessages = removedMessages current ++ current.after.pendingMessages ∧
      current.after.consensus = (exec (handleNetworkMessage profile) runtime (removedMessages current)).consensus := by
  intro current
  obtain ⟨taken, split, engine, outcome⟩ := processLoop_queue profile runtime.pendingMessages runtime []
  have removed : removedMessages current = taken := by
    obtain ⟨results, answered, same⟩ | ⟨reason, failed⟩ := outcome
    · simp only [removedMessages, current, event, call, processPendingMessages, answered, same, List.map_nil, List.nil_append]
    · simp only [removedMessages, current, event, call, processPendingMessages, failed]
      generalize (processLoop profile runtime [] runtime.pendingMessages).2.pendingMessages = rest at split ⊢
      rw [split, List.length_append, Nat.add_sub_cancel, List.take_left]
  rw [removed]
  exact ⟨split, engine⟩

theorem messages_step (profile : Profile) (runtime : ConsensusRuntime B V QC H S F E O) (input : Call B V QC N S A) :
    removedMessages (event (call profile) runtime input) ++ (call profile runtime input).2.pendingMessages =
      runtime.pendingMessages ++ addedMessages (event (call profile) runtime input) := by
  cases input with
  | start =>
    have kept : (call profile runtime (.start : Call B V QC N S A)).2.pendingMessages = runtime.pendingMessages := by
      obtain ⟨_, refused, _⟩ | ⟨_, failed, _⟩ | ⟨started, _⟩ := start_cases runtime
      · simp only [call, refused]
      · simp only [call, failed]
      · simp only [call, started]
    simp only [removedMessages, addedMessages, event_input, kept, List.nil_append, List.append_nil]
  | shutdown =>
    obtain ⟨_, refused, _⟩ | ⟨_, failed, _⟩ | ⟨stopped, _⟩ := shutdown_cases runtime
    · simp [removedMessages, addedMessages, event, call, refused]
    · simp [removedMessages, addedMessages, event, call, failed]
    · simp [removedMessages, addedMessages, event, call, stopped]
  | addNetworkMessage message => rfl
  | processPendingMessages =>
    have split := (process_removes profile runtime).1
    simp only [addedMessages, event_input, List.append_nil]
    exact split.symm
  | handleNetworkMessage message =>
    simp only [removedMessages, addedMessages, event, call, handle_pending, List.nil_append, List.append_nil]
  | engine inner => simp only [removedMessages, addedMessages, event, call, List.nil_append, List.append_nil]

/-- Messages come out in the order they were added, none twice and none missing. -/
theorem messages_first_in_first_out (profile : Profile) (engine : Consensus B V QC H S F E O) (calls : List (Call B V QC N S A)) :
    (trace (call profile) (ConsensusRuntime.new engine) calls).flatMap removedMessages ++
        (exec (call profile) (ConsensusRuntime.new engine) calls).pendingMessages =
      (trace (call profile) (ConsensusRuntime.new engine) calls).flatMap addedMessages :=
  queue_balance ConsensusRuntime.pendingMessages (messages_step profile) (ConsensusRuntime.new engine) calls

end Messages

section Events
open AptosBft.ReconfigHandler AptosBft.Proofs.Reconfig
variable {N E : Type}

def addedEvents (current : ReconfigStep N E) : List (ReconfigEvent N) :=
  match current.input with
  | .addEvent event => [event]
  | _ => []

/-- The events that were handed out, and those that a cancelled reconfiguration dropped. -/
def removedEvents (current : ReconfigStep N E) : List (ReconfigEvent N) :=
  match current.input, current.output with
  | .takePendingEvents, .events events => events
  | .cancel, _ => current.before.pendingEvents
  | _, _ => []

/-- The steps of a reconfiguration leave the events alone. -/
theorem prepareReconfig_events (profile : Profile) (handler : ReconfigHandler N E) (newEpoch : U64) :
    (handler.prepareReconfig profile newEpoch).2.pendingEvents = handler.pendingEvents := by
  unfold prepareReconfig
  split
  · rfl
  · split
    · rfl
    · split <;> rfl

theorem beginReconfig_events (handler : ReconfigHandler N E) (validatorSet : ValidatorSet N) :
    (handler.beginReconfig validatorSet).2.pendingEvents = handler.pendingEvents := by
  unfold beginReconfig
  split
  · split <;> rfl
  · rfl

theorem completeReconfig_events (profile : Profile) (handler : ReconfigHandler N E) (now : U64) :
    (handler.completeReconfig profile now).2.pendingEvents = handler.pendingEvents := by
  unfold completeReconfig
  split
  · split
    · rfl
    · split <;> rfl
  · rfl

theorem updateProgress_events (handler : ReconfigHandler N E) (validatorsProcessed : Nat) :
    (handler.updateProgress validatorsProcessed).pendingEvents = handler.pendingEvents := by
  unfold updateProgress
  split <;> rfl

theorem events_step (profile : Profile) (handler : ReconfigHandler N E) (input : Call N E) :
    removedEvents (event (call profile) handler input) ++ (call profile handler input).2.pendingEvents =
      handler.pendingEvents ++ addedEvents (event (call profile) handler input) := by
  cases input with
  | prepareReconfig newEpoch =>
    simpa [removedEvents, addedEvents, event, call] using prepareReconfig_events profile handler newEpoch
  | beginReconfig validatorSet =>
    simpa [removedEvents, addedEvents, event, call] using beginReconfig_events handler validatorSet
  | completeReconfig now =>
    simpa [removedEvents, addedEvents, event, call] using completeReconfig_events profile handler now
  | updateProgress validatorsProcessed =>
    simpa [removedEvents, addedEvents, event, call] using updateProgress_events handler validatorsProcessed
  | setProposerElection proposerElection => exact (List.append_nil _).symm
  | setValidatorSet epoch validatorSet => exact (List.append_nil _).symm
  | addEvent event => rfl
  | takePendingEvents => rfl
  | cancel => rfl

/-- Events are handed out in the order they were added, none twice and none missing. -/
theorem events_first_in_first_out (profile : Profile) (config : ReconfigConfig) (epochManager : EpochManager)
    (calls : List (Call N E)) :
    (trace (call profile) (ReconfigHandler.new config epochManager) calls).flatMap removedEvents ++
        (exec (call profile) (ReconfigHandler.new config epochManager) calls).pendingEvents =
      (trace (call profile) (ReconfigHandler.new config epochManager) calls).flatMap addedEvents :=
  queue_balance ReconfigHandler.pendingEvents (events_step profile) (ReconfigHandler.new config epochManager) calls

end Events
end AptosBft.Proofs.Queues
