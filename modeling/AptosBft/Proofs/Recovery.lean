import AptosBft.Proofs.SafetyRules
import AptosBft.Restart
import AptosBft.Testing
import Mathlib.Order.MinMax

/-! What survives a crash. Votes are sent only after the state that records them
was saved, so the saved state bounds every vote ever sent, and whatever a restart
loads is bounded from below by it. Recovery accepts a saved state unless one of
its plausibility checks rejects it. -/

namespace AptosBft.Proofs.Recovery
open Rust Mealy Journal

section Saving
variable {D : Type} [ConsensusStorage D]

theorem persist_ok {storage after : D} {state : SafetyStateData}
    (persisted : persistSafetyState storage state = (.ok (), after)) :
    ConsensusStorage.saveSafetyState storage state = (.ok (), after) := by
  simp only [persistSafetyState] at persisted
  split at persisted
  next saved =>
    cases persisted
    exact saved
  next => cases persisted

theorem persist_failed [LawfulStorage D] {storage after : D} {state : SafetyStateData} {error : RecoveryError}
    (failed : persistSafetyState storage state = (.error error, after)) :
    LawfulStorage.saved after = LawfulStorage.saved storage := by
  simp only [persistSafetyState] at failed
  split at failed
  next => cases failed
  next refused =>
    cases failed
    exact LawfulStorage.saved_of_error refused

end Saving

section Restarts
variable {B H QC T D : Type} [Block B H] [QuorumCertificate QC H] [ConsensusStorage D] [LawfulStorage D]

def Covers (storage : D) (round : U64) : Prop :=
  ∃ state, LawfulStorage.saved storage = some state ∧ round ≤ state.lastVotedRound

/-- What a started vote guarantees: once recorded, no sent vote is above it and the
rules remember it; once persisted, so does the storage. -/
def Secured (sent : List U64) (rules : TwoChainSafetyRules) (storage : D) : Stage B → Prop
  | .idle => True
  | .checked _ => True
  | .recorded proposal =>
    Block.round proposal ≤ rules.state.lastVotedRound ∧ ∀ round ∈ sent, round ≤ Block.round proposal
  | .persisted proposal => Covers storage (Block.round proposal) ∧ ∀ round ∈ sent, round ≤ Block.round proposal

/-- The simulation between the saved state and the votes sent so far. -/
structure Durable (sent : List U64) (validator : Validator B D) : Prop where
  covered : ∀ round ∈ sent, Covers validator.storage round
  memory : ∀ rules stage, validator.process = some (rules, stage) →
    (∀ round, Covers validator.storage round → round ≤ rules.state.lastVotedRound) ∧
      Secured sent rules validator.storage stage

namespace Durable
variable {sent : List U64} {rules : TwoChainSafetyRules} {stage : Stage B} {storage : D}

/-- A validator that is down and has not sent anything. -/
theorem stopped (storage : D) : Durable [] (⟨none, storage⟩ : Validator B D) where
  covered round impossible := by cases impossible
  memory rules stage impossible := by cases impossible

theorem running (covered : ∀ round ∈ sent, Covers storage round)
    (remembered : ∀ round, Covers storage round → round ≤ rules.state.lastVotedRound)
    (secured : Secured sent rules storage stage) : Durable sent ⟨some (rules, stage), storage⟩ := by
  refine ⟨covered, ?_⟩
  intro other current same
  cases same
  exact ⟨remembered, secured⟩

theorem crash {process : Option (TwoChainSafetyRules × Stage B)} (durable : Durable sent ⟨process, storage⟩) :
    Durable sent (⟨none, storage⟩ : Validator B D) := by
  refine ⟨durable.covered, ?_⟩
  intro rules stage impossible
  cases impossible

theorem disturb {process : Option (TwoChainSafetyRules × Stage B)} {other : D} (durable : Durable sent ⟨process, storage⟩)
    (same : LawfulStorage.saved other = LawfulStorage.saved storage) : Durable sent ⟨process, other⟩ := by
  have equal : ∀ round, Covers other round ↔ Covers storage round := by
    intro round
    simp only [Covers]
    rw [same]
  refine ⟨fun round member => (equal round).mpr (durable.covered round member), ?_⟩
  intro rules stage current
  obtain ⟨remembered, secured⟩ := durable.memory rules stage current
  refine ⟨fun round covers => remembered round ((equal round).mp covers), ?_⟩
  cases stage with
  | persisted proposal => exact ⟨(equal _).mpr secured.1, secured.2⟩
  | _ => exact secured

theorem rest (durable : Durable sent ⟨some (rules, stage), storage⟩) (other : Stage B)
    (easy : Secured sent rules storage other) : Durable sent ⟨some (rules, other), storage⟩ :=
  running durable.covered (durable.memory rules stage rfl).1 easy

theorem advance (durable : Durable sent ⟨some (rules, stage), storage⟩) {after : TwoChainSafetyRules}
    (forward : rules.state.lastVotedRound ≤ after.state.lastVotedRound) :
    Durable sent ⟨some (after, stage), storage⟩ := by
  obtain ⟨remembered, secured⟩ := durable.memory rules stage rfl
  refine running durable.covered (fun round covers => (remembered round covers).trans forward) ?_
  cases stage with
  | recorded proposal => exact ⟨secured.1.trans forward, secured.2⟩
  | _ => exact secured

theorem save (durable : Durable sent ⟨some (rules, stage), storage⟩) {after : D}
    (saved : LawfulStorage.saved after = some rules.state) : Durable sent ⟨some (rules, stage), after⟩ := by
  obtain ⟨remembered, secured⟩ := durable.memory rules stage rfl
  have grows : ∀ round, Covers storage round → Covers after round :=
    fun round covers => ⟨rules.state, saved, remembered round covers⟩
  refine running (fun round member => grows round (durable.covered round member)) ?_ ?_
  · intro round covers
    obtain ⟨state, same, bound⟩ := covers
    cases saved.symm.trans same
    exact bound
  · cases stage with
    | persisted proposal => exact ⟨grows _ secured.1, secured.2⟩
    | _ => exact secured

section Votes
variable {proposal : B}

/-- Everything sent was covered, so it is at most the last voted round that the vote was
compared with. -/
theorem record (durable : Durable sent ⟨some (rules, stage), storage⟩) {after : TwoChainSafetyRules}
    (bound : rules.state.lastVotedRound ≤ Block.round proposal)
    (moved : after.state.lastVotedRound = Block.round proposal) :
    Durable sent ⟨some (after, .recorded proposal), storage⟩ := by
  obtain ⟨remembered, _⟩ := durable.memory rules stage rfl
  have highest : ∀ round ∈ sent, round ≤ Block.round proposal :=
    fun round member => (remembered round (durable.covered round member)).trans bound
  exact (durable.advance (bound.trans moved.ge)).rest (.recorded proposal) ⟨moved.ge, highest⟩

theorem persist (durable : Durable sent ⟨some (rules, .recorded proposal), storage⟩) {after : D}
    (saved : LawfulStorage.saved after = some rules.state) :
    Durable sent ⟨some (rules, .persisted proposal), after⟩ := by
  obtain ⟨_, recorded, highest⟩ := durable.memory rules _ rfl
  exact (durable.save saved).rest (.persisted proposal) ⟨⟨rules.state, saved, recorded⟩, highest⟩

theorem send (durable : Durable sent ⟨some (rules, .persisted proposal), storage⟩) :
    Durable (sent ++ [Block.round proposal]) (⟨some (rules, .idle), storage⟩ : Validator B D) := by
  obtain ⟨remembered, covered, _⟩ := durable.memory rules _ rfl
  refine running ?_ remembered trivial
  intro round member
  rcases List.mem_append.mp member with earlier | now
  · exact durable.covered round earlier
  · cases List.mem_singleton.mp now
    exact covered

end Votes
end Durable

theorem quiet {sent : List U64} {vote : Option U64} {after : Validator B D} (silent : vote = none)
    (durable : Durable sent after) :
    Durable (sent ++ vote.toList) after ∧ ∀ round ∈ vote, ∀ earlier ∈ sent, earlier ≤ round := by
  subst silent
  exact ⟨by simpa using durable, nofun⟩

theorem act_durable (profile : Profile) {sent : List U64} {rules : TwoChainSafetyRules} {stage : Stage B} {storage : D}
    (durable : Durable sent ⟨some (rules, stage), storage⟩) (input : Validator.Input B QC T D) :
    let result := Validator.act profile rules stage storage input
    Durable (sent ++ result.1.toList) result.2 ∧ ∀ round ∈ result.1, ∀ earlier ∈ sent, earlier ≤ round := by
  cases input with
  | check proposal timeoutCert =>
    simp only [Validator.act]
    split
    · exact quiet rfl (durable.rest (.checked proposal) trivial)
    · exact quiet rfl durable
  | record =>
    cases stage with
    | checked proposal =>
      obtain ⟨_, ⟨error, refused⟩, same⟩ | ⟨bound, accepted, raised⟩ :=
        SafetyRules.recordVote_cases rules (Block.round proposal)
      · have outcome : rules.recordVote (Block.round proposal) = (.error error, rules) := Prod.ext refused same
        simp only [Validator.act, outcome]
        exact quiet rfl (durable.rest .idle trivial)
      · have outcome : rules.recordVote (Block.round proposal) =
            (.ok (), (rules.recordVote (Block.round proposal)).2) := Prod.ext accepted rfl
        have moved : (rules.recordVote (Block.round proposal)).2.state.lastVotedRound = Block.round proposal := by
          rw [raised]
          exact max_eq_right bound
        simp only [Validator.act]
        rw [outcome]
        exact quiet rfl (durable.record bound moved)
    | _ => exact quiet rfl durable
  | persist =>
    cases stage with
    | recorded proposal =>
      simp only [Validator.act]
      split
      next after persisted => exact quiet rfl (durable.persist (LawfulStorage.saved_of_ok (persist_ok persisted)))
      next error after failed =>
        have kept := persist_failed failed
        exact quiet rfl ((durable.disturb kept).rest .idle trivial)
    | _ => exact quiet rfl durable
  | send =>
    cases stage with
    | persisted proposal =>
      obtain ⟨_, _, highest⟩ := durable.memory rules _ rfl
      refine ⟨durable.send, ?_⟩
      intro round same
      cases same
      exact highest
    | _ => exact quiet rfl durable
  | observeQc qc =>
    apply quiet rfl
    apply durable.advance
    rw [SafetyRules.observeQc_state]
    exact le_rfl
  | observeTc tc =>
    apply quiet rfl
    apply durable.advance
    rw [SafetyRules.observeTc_state]
    exact le_rfl
  | recordTimeout round =>
    apply quiet rfl
    apply durable.advance
    rw [SafetyRules.recordTimeout_state]
    exact le_rfl
  | save =>
    simp only [Validator.act]
    rcases persisted : persistSafetyState storage rules.state with ⟨_ | _, after⟩
    · exact quiet rfl (durable.disturb (persist_failed persisted))
    · exact quiet rfl (durable.save (LawfulStorage.saved_of_ok (persist_ok persisted)))
  | crash => exact quiet rfl durable.crash
  | restart epoch => exact quiet rfl durable
  | disturb other =>
    simp only [Validator.act]
    split
    next same => exact quiet rfl (durable.disturb same)
    next => exact quiet rfl durable

theorem load_durable {profile : Profile} {sent : List U64} {storage : D} {epoch : U64} {rules : TwoChainSafetyRules}
    (durable : Durable sent (⟨none, storage⟩ : Validator B D)) (loaded : loadSafetyRules profile storage epoch = .ok rules) :
    Durable sent (⟨some (rules, .idle), storage⟩ : Validator B D) := by
  simp only [loadSafetyRules] at loaded
  rcases LawfulStorage.get_saved storage with found | ⟨error, failed⟩
  · rw [found] at loaded
    cases saved : LawfulStorage.saved storage with
    | none =>
      have nothing : ∀ round, ¬ Covers storage round := by
        intro round covers
        obtain ⟨state, same, _⟩ := covers
        cases saved.symm.trans same
      exact Durable.running durable.covered (fun round covers => absurd covers (nothing round)) trivial
    | some state =>
      rw [saved] at loaded
      cases valid : validateSafetyState profile state with
      | error failure => simp [valid, bind, Except.bind] at loaded
      | ok =>
        obtain rfl : TwoChainSafetyRules.withState state = rules := by simpa [valid, bind, Except.bind, pure, Except.pure] using loaded
        refine Durable.running durable.covered ?_ trivial
        intro round covers
        obtain ⟨other, same, bound⟩ := covers
        cases saved.symm.trans same
        exact bound
  · rw [failed] at loaded
    cases loaded

theorem step_durable (profile : Profile) {sent : List U64} {validator : Validator B D} (durable : Durable sent validator)
    (input : Validator.Input B QC T D) :
    let result := validator.step profile input
    Durable (sent ++ result.1.toList) result.2 ∧ ∀ round ∈ result.1, ∀ earlier ∈ sent, earlier ≤ round := by
  obtain ⟨process, storage⟩ := validator
  cases process with
  | some running => exact act_durable profile durable input
  | none =>
    cases input with
    | restart epoch =>
      simp only [Validator.step]
      split
      next rules loaded => exact quiet rfl (load_durable durable loaded)
      next => exact quiet rfl durable
    | disturb other =>
      simp only [Validator.step]
      split
      next same => exact quiet rfl (durable.disturb same)
      next => exact quiet rfl durable
    | _ => exact quiet rfl durable

/-- A run from a stopped validator: what was sent is durable at its end, and in order. -/
theorem run_durable (profile : Profile) (storage : D) (inputs : List (Validator.Input B QC T D)) :
    let sent := (trace (Validator.step profile) (⟨none, storage⟩ : Validator B D) inputs).filterMap Event.output
    Durable sent (exec (Validator.step profile) (⟨none, storage⟩ : Validator B D) inputs) ∧ sent.Pairwise (· ≤ ·) := by
  refine history (Validator.step profile) (⟨none, storage⟩ : Validator B D) inputs
    (motive := fun past validator => Durable (past.filterMap Event.output) validator ∧ (past.filterMap Event.output).Pairwise (· ≤ ·))
    ⟨.stopped storage, .nil⟩ ?_
  intro past validator input holds
  obtain ⟨durable, ordered⟩ := holds
  obtain ⟨kept, above⟩ := step_durable profile durable input
  rw [filterMap_snoc]
  refine ⟨kept, List.pairwise_append.mpr ⟨ordered, ?_, ?_⟩⟩
  · rw [event_output]
    cases (validator.step profile input).1 <;> simp
  · intro earlier member round now
    exact above round (Option.mem_toList.mp now) earlier member

/-- Over any run from a stopped validator and any storage, with any number of
crashes, failed saves and restarts, the rounds of the votes sent never decrease. -/
theorem sent_rounds_never_decrease (profile : Profile) (storage : D) (inputs : List (Validator.Input B QC T D)) :
    ((trace (Validator.step profile) (⟨none, storage⟩ : Validator B D) inputs).filterMap Event.output).Pairwise (· ≤ ·) :=
  (run_durable profile storage inputs).2

instance : LawfulStorage MockStorage where
  saved storage := storage.state
  saved_of_ok {storage after state} saved := by
    simp only [ConsensusStorage.saveSafetyState] at saved
    split at saved <;> cases saved
    rfl
  saved_of_error {storage after state error} failed := by
    simp only [ConsensusStorage.saveSafetyState] at failed
    split at failed <;> cases failed
    rfl
  get_saved storage := by
    simp only [ConsensusStorage.getSafetyState]
    split
    · exact Or.inr ⟨_, rfl⟩
    · exact Or.inl rfl

theorem crashing_validator_sends_in_order :
    let vote (round : U64) : List (Validator.Input MockBlock MockQuorumCert MockSignature MockStorage) :=
      [.check (makeBlock round 0 1 ⟨0⟩) none, .record, .persist, .send]
    let inputs := [.restart 0] ++ vote 3 ++ (vote 3).take 3 ++ [.crash, .restart 0] ++ vote 2 ++ vote 3 ++
      [.disturb ⟨some ⟨0, 3, 0, 0, 0⟩, true⟩] ++ vote 4 ++ [.disturb ⟨some ⟨0, 3, 0, 0, 0⟩, false⟩] ++ vote 3 ++ vote 5
    let run := trace (Validator.step .dev) (⟨none, ⟨none, false⟩⟩ : Validator MockBlock MockStorage) inputs
    run.filterMap Event.output = [3, 3, 5] ∧ (run.filterMap Event.output).Pairwise (· ≤ ·) :=
  ⟨by decide, sent_rounds_never_decrease .dev (⟨none, false⟩ : MockStorage) _⟩

end Restarts

section Acceptance
open TwoChainSafetyRules

def Reasonable (state : SafetyStateData) : Prop :=
  state.epoch ≤ maxEpoch ∧ state.preferredRound.val ≤ state.lastVotedRound.val + 100

instance (state : SafetyStateData) : Decidable (Reasonable state) := inferInstanceAs (Decidable (_ ∧ _))

theorem validate_cases (profile : Profile) {state : SafetyStateData} (room : state.lastVotedRound.val + 100 ≤ u64Max.val)
    (ordered : state.oneChainRound ≤ state.preferredRound) :
    (Reasonable state ∧ validateSafetyState profile state = .ok ()) ∨
      (¬ Reasonable state ∧ ∃ message, validateSafetyState profile state = .error (.err (.validation message))) := by
  simp only [validateSafetyState, Reasonable]
  by_cases high : state.epoch > maxEpoch
  · exact Or.inr ⟨fun reasonable => absurd reasonable.1 (not_le.mpr high), _, by simp only [high, ite_true]; rfl⟩
  simp only [high, not_lt.mpr ordered, gt_iff_lt, ite_false]
  obtain ⟨limit, sum, value⟩ | ⟨overflows, _⟩ := U64.plus_cases profile state.lastVotedRound 100
  · have hundred : limit.val = state.lastVotedRound.val + 100 := value
    simp only [sum]
    by_cases far : limit < state.preferredRound
    · refine Or.inr ⟨fun reasonable => ?_, _, by simp only [far, ite_true]; rfl⟩
      have := Fin.lt_def.mp far
      omega
    · have near := Fin.le_def.mp (not_lt.mp far)
      exact Or.inl ⟨⟨not_lt.mp high, by omega⟩, by simp only [far, ite_false]⟩
  · change u64Max.val < state.lastVotedRound.val + 100 at overflows
    omega

variable {B H QC T D : Type} [Block B H] [QuorumCertificate QC H] [ConsensusStorage D]

def rounds : Call B QC T → List U64
  | .observeQc qc => [QuorumCertificate.round qc]
  | .observeTc tc => [tc.round, tc.hqcRound]
  | .recordVote round => [round]
  | .recordTimeout round => [round]
  | _ => []

theorem lastVotedRound_room {profile : Profile} {epoch : U64} {calls : List (Call B QC T)}
    (bounded : ∀ input ∈ calls, ∀ round ∈ rounds input, round.val < u64Max.val - 100) :
    (exec (call profile) (new epoch) calls).state.lastVotedRound.val + 100 ≤ u64Max.val := by
  have small : Meets (call profile) _ (new epoch) calls := meets_of_forall bounded
  refine small.history (motive := fun _ rules => rules.state.lastVotedRound.val + 100 ≤ u64Max.val) ?_ ?_
  · change 0 + 100 ≤ u64Max.val
    decide
  intro _ rules input room below
  have replayed := congrArg SafetyStateData.lastVotedRound (SafetyRules.call_replays profile rules input)
  cases input with
  | recordVote round =>
    obtain ⟨_, _, same⟩ | ⟨_, _, raised⟩ := SafetyRules.recordVote_cases rules round
    · change (rules.recordVote round).2.state.lastVotedRound.val + 100 ≤ _
      rw [same]
      exact room
    · change (rules.recordVote round).2.state.lastVotedRound.val + 100 ≤ _
      have fits : round.val < u64Max.val - 100 := below round List.mem_cons_self
      rw [raised]
      rcases max_choice rules.state.lastVotedRound round with left | right
      · simp only [apply, left]
        exact room
      · simp only [apply, right]
        omega
  | _ =>
    rw [replayed]
    exact room

def Recalls (D : Type) [ConsensusStorage D] : Prop :=
  ∀ (storage after : D) (state : SafetyStateData), ConsensusStorage.saveSafetyState storage state = (.ok (), after) →
    ConsensusStorage.getSafetyState after = .ok (some state)

omit [Block B H] [QuorumCertificate QC H] in
theorem load_saved (recalls : Recalls D) (profile : Profile) {storage after : D} {state : SafetyStateData}
    (persisted : persistSafetyState storage state = (.ok (), after)) (epoch : U64) :
    loadSafetyRules profile after epoch = (validateSafetyState profile state).map fun _ => withState state := by
  simp only [loadSafetyRules]
  rw [recalls storage after state (persist_ok persisted)]
  change (do validateSafetyState profile state; pure (withState state)) = _
  cases validateSafetyState profile state <;> rfl

/-- Recovery of a state that the rules can reach, or that an epoch change made of
one, and that has the documented order of rounds: it succeeds with that state when
the epoch and the distance to the last voted round are reasonable, and is refused
with a validation error otherwise. -/
theorem recovery_accepts_reasonable (recalls : Recalls D) (profile : Profile) (epoch : U64) (_valid : epoch ≤ maxEpoch)
    (calls : List (Call B QC T)) (bounded : ∀ input ∈ calls, ∀ round ∈ rounds input, round.val < u64Max.val - 100)
    (state : SafetyStateData)
    (origin : state = (exec (call profile) (new epoch) calls).state ∨
      ∃ later, epoch < later ∧ state = (exec (call profile) (new epoch) calls).state.newEpoch later)
    (ordered : state.oneChainRound ≤ state.preferredRound) (storage after : D)
    (persisted : persistSafetyState storage state = (.ok (), after)) (restart : U64) :
    (Reasonable state → loadSafetyRules profile after restart = .ok (withState state)) ∧
      (¬ Reasonable state → ∃ message, loadSafetyRules profile after restart = .error (.err (.validation message))) := by
  have room : state.lastVotedRound.val + 100 ≤ u64Max.val := by
    rcases origin with rfl | ⟨later, _, rfl⟩
    · exact lastVotedRound_room bounded
    · change 0 + 100 ≤ u64Max.val
      decide
  rw [load_saved recalls profile persisted restart]
  obtain ⟨reasonable, accepted⟩ | ⟨unreasonable, message, refused⟩ := validate_cases profile room ordered
  · rw [accepted]
    exact ⟨fun _ => rfl, fun unreasonable => absurd reasonable unreasonable⟩
  · rw [refused]
    exact ⟨fun reasonable => absurd reasonable unreasonable, fun _ => ⟨message, rfl⟩⟩

theorem mock_recalls : Recalls MockStorage := by
  intro storage after state saved
  simp only [ConsensusStorage.saveSafetyState] at saved
  split at saved
  · cases saved
  next working =>
    cases saved
    simp [ConsensusStorage.getSafetyState, working]

theorem reasonable_state_recovers :
    loadSafetyRules .dev (⟨some ⟨7, 2, 1, 1, 0⟩, false⟩ : MockStorage) 0 = .ok (withState ⟨7, 2, 1, 1, 0⟩) := by
  let calls : List (Call MockBlock MockQuorumCert MockSignature) := [.observeQc (makeQc 1 7 ⟨1⟩), .recordVote 2]
  have bounded : ∀ input ∈ calls, ∀ round ∈ rounds input, round.val < u64Max.val - 100 := by
    intro input member round inside
    simp only [calls, List.mem_cons, List.not_mem_nil, or_false] at member
    rcases member with rfl | rfl
    · cases List.mem_singleton.mp inside
      decide
    · cases List.mem_singleton.mp inside
      decide
  exact (recovery_accepts_reasonable mock_recalls .dev 7 (by decide) calls bounded ⟨7, 2, 1, 1, 0⟩ (Or.inl (by decide))
    (by decide) ⟨none, false⟩ ⟨some ⟨7, 2, 1, 1, 0⟩, false⟩ (by decide) 0).1 (by decide)

/-- A validator that only listened, up to the QC of round 101. -/
theorem listener_state_rejected :
    let calls : List (Call MockBlock MockQuorumCert MockSignature) := [.observeTc (makeTc 100 0 100), .observeQc (makeQc 101 0 ⟨1⟩)]
    let state := (exec (call .dev) (new 0) calls).state
    state.oneChainRound ≤ state.preferredRound ∧
      persistSafetyState (⟨none, false⟩ : MockStorage) state = (.ok (), ⟨some state, false⟩) ∧
      loadSafetyRules .dev (⟨some state, false⟩ : MockStorage) 0 ≠ .ok (withState state) := by
  decide

end Acceptance
end AptosBft.Proofs.Recovery
