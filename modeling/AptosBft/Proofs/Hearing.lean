import AptosBft.Proofs.Queues

/-! What reaches the parts of the engine through the runtime. A certificate comes out of
the queue, is handled on its own, or is handed to the engine directly. -/

namespace AptosBft.Proofs.Hearing
open Rust Mealy AptosBft.ConsensusRuntime AptosBft.Proofs.Lifecycles AptosBft.Proofs.Queues

variable {B V QC H N S A F E O : Type} [QuorumCertificate QC H]

/-- The messages a call hands to a running engine. -/
def heard (current : RuntimeEvent B V QC H N S A F E O) : List (NetworkMessage B V QC) :=
  if current.before.consensus.state ≠ .running then []
  else match current.input with
    | .processPendingMessages => removedMessages current
    | .handleNetworkMessage message => [message]
    | .engine (.processQc qc) => [.quorumCertificate qc]
    | .engine (.processTimeout round) => [.timeout round]
    | _ => []

def certifiedRound : NetworkMessage B V QC → Option U64
  | .quorumCertificate qc => some (QuorumCertificate.round qc)
  | _ => none

/-- The calls of the round manager a call of the runtime makes. -/
def relayed (runtime : ConsensusRuntime B V QC H S F E O) : Call B V QC N S A → List (RoundManager.Call B V QC N S A S)
  | .engine inner => Engine.relayed runtime.consensus inner
  | _ => []

omit [QuorumCertificate QC H] in
theorem start_engine (runtime : ConsensusRuntime B V QC H S F E O) :
    ∃ state, runtime.start.2.consensus = { runtime.consensus with state } := by
  obtain ⟨_, refused, _⟩ | ⟨_, failed, _⟩ | ⟨started, _⟩ := start_cases runtime
  · exact ⟨_, by rw [refused]⟩
  · exact ⟨_, by rw [failed]⟩
  · exact ⟨_, by rw [started]⟩

omit [QuorumCertificate QC H] in
theorem shutdown_engine (runtime : ConsensusRuntime B V QC H S F E O) :
    ∃ state, runtime.shutdown.2.consensus = { runtime.consensus with state } := by
  obtain ⟨_, refused, _⟩ | ⟨_, failed, _⟩ | ⟨stopped, _⟩ := shutdown_cases runtime
  · exact ⟨_, by rw [refused]⟩
  · exact ⟨_, by rw [failed]⟩
  · exact ⟨_, by rw [stopped]⟩

def managerOf (runtime : ConsensusRuntime B V QC H S F E O) : RoundManager B V QC H S := runtime.consensus.roundManager

/-- What a message leaves alone. -/
structure Bystanders (engine after : Consensus B V QC H S F E O) : Prop where
  roundManager : after.roundManager = engine.roundManager
  pipeline : after.pipeline = engine.pipeline
  epochManager : after.epochManager = engine.epochManager
  state : after.state = engine.state

omit [QuorumCertificate QC H] in
theorem Bystanders.refl (engine : Consensus B V QC H S F E O) : Bystanders engine engine := ⟨rfl, rfl, rfl, rfl⟩

omit [QuorumCertificate QC H] in
theorem Bystanders.trans {engine middle after : Consensus B V QC H S F E O} (first : Bystanders engine middle)
    (second : Bystanders middle after) : Bystanders engine after where
  roundManager := second.roundManager.trans first.roundManager
  pipeline := second.pipeline.trans first.pipeline
  epochManager := second.epochManager.trans first.epochManager
  state := second.state.trans first.state

/-- What the highest ordered round becomes when an engine hears of rounds. -/
def raised (engine : Consensus B V QC H S F E O) (rounds : List U64) : U64 :=
  if engine.state = .running then rounds.foldl max engine.pacemaker.highestOrderedRound
  else engine.pacemaker.highestOrderedRound

omit [QuorumCertificate QC H] in
theorem raised_nil (engine : Consensus B V QC H S F E O) : raised engine [] = engine.pacemaker.highestOrderedRound :=
  ite_self _

theorem processQc_heard (engine : Consensus B V QC H S F E O) (qc : QC) :
    Bystanders engine (engine.processQc qc).2 ∧
      (engine.processQc qc).2.pacemaker.highestOrderedRound = raised engine [QuorumCertificate.round qc] := by
  obtain ⟨error, refused, old⟩ | ⟨running, higher, noted⟩ := Engine.processQc_cases engine qc
  · rw [refused]
    refine ⟨.refl engine, ?_⟩
    rw [raised]
    split
    next running => exact (max_eq_left (old running)).symm
    next => rfl
  · rw [noted, raised, if_pos running]
    exact ⟨⟨rfl, rfl, rfl, rfl⟩, (max_eq_right higher.le).symm⟩

variable [Floating F]

omit [QuorumCertificate QC H] in
theorem processTimeout_heard (profile : Profile) (engine : Consensus B V QC H S F E O) (round : U64) :
    Bystanders engine (engine.processTimeout profile round).2 ∧
      (engine.processTimeout profile round).2.pacemaker.highestOrderedRound = engine.pacemaker.highestOrderedRound := by
  obtain ⟨failure, refused, _⟩ | ⟨next, _, _, moved⟩ := Engine.processTimeout_cases profile engine round
  · rw [refused]
    exact ⟨.refl engine, rfl⟩
  · rw [moved]
    exact ⟨⟨rfl, rfl, rfl, rfl⟩, rfl⟩

/-- A message only ever reaches the pacemaker. -/
theorem handle_heard (profile : Profile) (runtime : ConsensusRuntime B V QC H S F E O) (message : NetworkMessage B V QC) :
    Bystanders runtime.consensus (runtime.handleNetworkMessage profile message).2.consensus ∧
      (runtime.handleNetworkMessage profile message).2.consensus.pacemaker.highestOrderedRound =
        raised runtime.consensus (certifiedRound message).toList := by
  cases message with
  | quorumCertificate qc =>
    have heard := processQc_heard runtime.consensus qc
    simp only [handleNetworkMessage]
    generalize runtime.consensus.processQc qc = answer at heard ⊢
    obtain ⟨result, engine⟩ := answer
    cases result <;> exact heard
  | timeout round =>
    have heard := processTimeout_heard profile runtime.consensus round
    simp only [handleNetworkMessage, certifiedRound, Option.toList_none, raised_nil]
    generalize runtime.consensus.processTimeout profile round = answer at heard ⊢
    obtain ⟨result, engine⟩ := answer
    cases result with
    | ok => exact heard
    | error failure => cases failure <;> exact heard
  | proposal block => exact ⟨.refl _, (raised_nil _).symm⟩
  | vote vote => exact ⟨.refl _, (raised_nil _).symm⟩
  | syncRequest targetRound => exact ⟨.refl _, (raised_nil _).symm⟩
  | syncResponse blocks => exact ⟨.refl _, (raised_nil _).symm⟩

theorem handle_all_heard (profile : Profile) (runtime : ConsensusRuntime B V QC H S F E O)
    (messages : List (NetworkMessage B V QC)) :
    Bystanders runtime.consensus (exec (handleNetworkMessage profile) runtime messages).consensus ∧
      (exec (handleNetworkMessage profile) runtime messages).consensus.pacemaker.highestOrderedRound =
        raised runtime.consensus (messages.filterMap certifiedRound) := by
  induction messages generalizing runtime with
  | nil => exact ⟨.refl _, (raised_nil _).symm⟩
  | cons message rest ih =>
    obtain ⟨first, reached⟩ := handle_heard profile runtime message
    obtain ⟨others, highest⟩ := ih (runtime.handleNetworkMessage profile message).2
    refine ⟨first.trans others, ?_⟩
    rw [exec_cons, highest, raised, reached, first.state, raised, raised]
    split
    · cases round : certifiedRound message with
      | none => rw [List.filterMap_cons_none round]; rfl
      | some reported => rw [List.filterMap_cons_some round]; rfl
    · rfl

variable [DecidableEq H] [DecidableEq N] [DecidableEq S] [DecidableEq O] [Block B H] [Vote V B H N S A] [VoteData V]
  [FromVotes QC V A] [ProposerElection E O]

/-- What a call of the runtime does to the parts of the engine. -/
structure Reached (profile : Profile) (runtime : ConsensusRuntime B V QC H S F E O) (input : Call B V QC N S A)
    (after : Consensus B V QC H S F E O) : Prop where
  epochs : after.epochManager = runtime.consensus.epochManager
  relays : after.roundManager = exec (RoundManager.call profile) runtime.consensus.roundManager (relayed runtime input)
  ordered : after.pacemaker.highestOrderedRound =
    ((heard (event (call profile) runtime input)).filterMap certifiedRound).foldl max
      runtime.consensus.pacemaker.highestOrderedRound

/-- A call that hands on messages, to an engine that runs or does not. -/
theorem Reached.of_messages {profile : Profile} {runtime : ConsensusRuntime B V QC H S F E O} {input : Call B V QC N S A}
    {after : Consensus B V QC H S F E O} {messages : List (NetworkMessage B V QC)} (others : Bystanders runtime.consensus after)
    (highest : after.pacemaker.highestOrderedRound = raised runtime.consensus (messages.filterMap certifiedRound))
    (apart : relayed runtime input = [])
    (hears : heard (event (call profile) runtime input) = if runtime.consensus.state ≠ .running then [] else messages) :
    Reached profile runtime input after where
  epochs := others.epochManager
  relays := by
    rw [apart]
    exact others.roundManager
  ordered := by
    rw [highest, hears, raised]
    by_cases running : runtime.consensus.state = .running
    · rw [if_pos running, if_neg (not_not.mpr running)]
    · rw [if_neg running, if_pos running]
      rfl

/-- A call that hands on nothing. -/
theorem Reached.of_engine {profile : Profile} {runtime : ConsensusRuntime B V QC H S F E O} {input : Call B V QC N S A}
    {after : Consensus B V QC H S F E O} (epochs : after.epochManager = runtime.consensus.epochManager)
    (relays : after.roundManager = exec (RoundManager.call profile) runtime.consensus.roundManager (relayed runtime input))
    (paced : after.pacemaker = runtime.consensus.pacemaker) (silent : heard (event (call profile) runtime input) = []) :
    Reached profile runtime input after where
  epochs := epochs
  relays := relays
  ordered := by
    rw [paced, silent]
    rfl

theorem call_reached (profile : Profile) (runtime : ConsensusRuntime B V QC H S F E O) (input : Call B V QC N S A) :
    Reached profile runtime input (call profile runtime input).2.consensus := by
  cases input with
  | start =>
    obtain ⟨state, engine⟩ := start_engine runtime
    change Reached profile runtime .start runtime.start.2.consensus
    rw [engine]
    exact .of_engine rfl rfl rfl (ite_self _)
  | shutdown =>
    obtain ⟨state, engine⟩ := shutdown_engine runtime
    change Reached profile runtime .shutdown runtime.shutdown.2.consensus
    rw [engine]
    exact .of_engine rfl rfl rfl (ite_self _)
  | addNetworkMessage message => exact .of_engine rfl rfl rfl (ite_self _)
  | processPendingMessages =>
    have engine := (process_removes (N := N) (A := A) profile runtime).2
    obtain ⟨others, highest⟩ := handle_all_heard profile runtime
      (removedMessages (event (call profile) runtime (.processPendingMessages : Call B V QC N S A)))
    rw [← engine] at others highest
    exact .of_messages others highest rfl rfl
  | handleNetworkMessage message =>
    obtain ⟨others, highest⟩ := handle_all_heard profile runtime [message]
    exact .of_messages others highest rfl rfl
  | engine inner =>
    have frame := Engine.call_frame profile runtime.consensus inner
    cases inner with
    | processQc qc =>
      obtain ⟨others, highest⟩ := processQc_heard runtime.consensus qc
      exact .of_messages others (highest.trans (congrArg (raised _) rfl)) rfl rfl
    | processTimeout round =>
      obtain ⟨others, highest⟩ := processTimeout_heard profile runtime.consensus round
      exact .of_messages others (highest.trans (raised_nil _).symm) rfl rfl
    | _ => exact .of_engine frame.epochs frame.relays (frame.paced (by simp) (by simp)) (ite_self _)

/-- Over every run of the runtime, the highest ordered round is the highest of the
certificates a running engine was handed, by whichever of the three ways; the round manager
has run the proposals and votes given to the engine directly and nothing a message brought;
and the epoch manager has not been touched. -/
theorem certificates_heard (profile : Profile) (engine : Consensus B V QC H S F E O) (calls : List (Call B V QC N S A)) :
    let run := trace (call profile) (ConsensusRuntime.new engine) calls
    let final := (exec (call profile) (ConsensusRuntime.new engine) calls).consensus
    final.pacemaker.highestOrderedRound =
      ((run.flatMap heard).filterMap certifiedRound).foldl max engine.pacemaker.highestOrderedRound ∧
    final.roundManager = exec (RoundManager.call profile) engine.roundManager
      (run.flatMap fun current => relayed current.before current.input) ∧
    final.epochManager = engine.epochManager := by
  intro run final
  have ordered := highest_report (fun runtime => runtime.consensus.pacemaker.highestOrderedRound)
    (fun current => (heard current).filterMap certifiedRound)
    (fun runtime input => (call_reached profile runtime input).ordered) (ConsensusRuntime.new engine) calls
  refine ⟨?_, ?_, ?_⟩
  · rw [List.filterMap_flatMap]
    exact ordered
  · have relays : ∀ (runtime : ConsensusRuntime B V QC H S F E O) (input : Call B V QC N S A),
        managerOf (call profile runtime input).2 =
          exec (RoundManager.call profile) (managerOf runtime) (relayed runtime input) :=
      fun runtime input => (call_reached profile runtime input).relays
    exact exec_component (call profile) relays (ConsensusRuntime.new engine) calls
  · exact exec_unchanged (call profile) (fun runtime => runtime.consensus.epochManager)
      (fun runtime input _ => (call_reached profile runtime input).epochs) (ConsensusRuntime.new engine)

end AptosBft.Proofs.Hearing
