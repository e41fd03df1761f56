import AptosBft.Proofs.Recovery

/-! What a restart brings back. The storage holds the state of the last save that went
through, the memory of a running validator is that state with the updates made since, and
a crash loses these updates and nothing else. -/

namespace AptosBft.Proofs.Checkpoints
open Rust Mealy Journal AptosBft.Proofs.Recovery

variable {B H QC T D : Type} [Block B H] [QuorumCertificate QC H] [ConsensusStorage D] [LawfulStorage D]

abbrev ValidatorEvent (B QC T D : Type) := Event (Validator B D) (Validator.Input B QC T D) (Option U64)

/-- The state that a save wrote. -/
def written (storage : D) (rules : TwoChainSafetyRules) : Option SafetyStateData :=
  match (persistSafetyState storage rules.state).1 with
  | .ok () => some rules.state
  | .error _ => none

def checkpointed (current : ValidatorEvent B QC T D) : Option SafetyStateData :=
  match current.before.process, current.input with
  | some (rules, .recorded _), .persist => written current.before.storage rules
  | some (rules, _), .save => written current.before.storage rules
  | _, _ => none

/-- The epoch a validator was started for. -/
def restarted (current : ValidatorEvent B QC T D) : Option U64 :=
  match current.before.process, current.input, current.after.process with
  | none, .restart epoch, some _ => some epoch
  | _, _, _ => none

/-- The updates that a step makes to the memory. -/
def journaled (current : ValidatorEvent B QC T D) : List Update :=
  match current.before.process, current.input with
  | some (rules, .checked proposal), .record =>
    match (rules.recordVote (Block.round proposal)).1 with
    | .ok () => [.vote (Block.round proposal)]
    | .error _ => []
  | some _, .observeQc qc => [.qc (QuorumCertificate.round qc)]
  | some _, .observeTc tc => [.tc tc.round tc.hqcRound]
  | some _, .recordTimeout round => [.timeout round]
  | _, _ => []

/-- The updates since the last checkpoint or restart. -/
def since (past : List (ValidatorEvent B QC T D)) : List Update :=
  past.foldl (fun journal current =>
    if (checkpointed current).isSome ∨ (restarted current).isSome then [] else journal ++ journaled current) []

omit [LawfulStorage D] in
theorem since_snoc (past : List (ValidatorEvent B QC T D)) (current : ValidatorEvent B QC T D) : since (past ++ [current]) =
    if (checkpointed current).isSome ∨ (restarted current).isSome then [] else since past ++ journaled current := by
  rw [since, List.foldl_append]
  rfl

theorem written_saved (storage : D) (rules : TwoChainSafetyRules) :
    LawfulStorage.saved (persistSafetyState storage rules.state).2 =
      (written storage rules).or (LawfulStorage.saved storage) := by
  rcases persisted : persistSafetyState storage rules.state with ⟨_ | _, after⟩
  · rw [written, persisted]
    exact persist_failed persisted
  · rw [written, persisted]
    exact LawfulStorage.saved_of_ok (persist_ok persisted)

/-- What a step keeps: the storage holds what was written last, and the memory that it
leaves is the memory before with the updates of the step, or what the storage gave. -/
structure Recorded (current : ValidatorEvent B QC T D) : Prop where
  saved : LawfulStorage.saved current.after.storage = (checkpointed current).or (LawfulStorage.saved current.before.storage)
  running : ∀ before after, current.before.process = some before → current.after.process = some after →
    after.1.state = replay before.1.state (journaled current) ∧
      ∀ state ∈ checkpointed current, journaled current = [] ∧ state = before.1.state
  started : ∀ after, current.before.process = none → current.after.process = some after →
    ∃ epoch, restarted current = some epoch ∧ checkpointed current = none ∧
      after.1.state = ((LawfulStorage.saved current.before.storage).getD (TwoChainSafetyRules.new epoch).state)

section Steps
variable {profile : Profile} {rules : TwoChainSafetyRules} {stage : Stage B} {storage : D} {input : Validator.Input B QC T D}
  {vote : Option U64} {after : Validator B D}

/-- A step that writes nothing. -/
theorem Recorded.quiet (kept : LawfulStorage.saved after.storage = LawfulStorage.saved storage)
    (updates : ∀ next, after.process = some next →
      next.1.state = replay rules.state (journaled ⟨⟨some (rules, stage), storage⟩, input, vote, after⟩))
    (unwritten : checkpointed (⟨⟨some (rules, stage), storage⟩, input, vote, after⟩ : ValidatorEvent B QC T D) = none) :
    Recorded (⟨⟨some (rules, stage), storage⟩, input, vote, after⟩ : ValidatorEvent B QC T D) where
  saved := by
    rw [unwritten]
    exact kept
  running before next same later := by
    cases same
    refine ⟨updates next later, ?_⟩
    rw [unwritten]
    intro state impossible
    cases impossible
  started next impossible := by cases impossible

/-- A step that saves the memory, or tries to. -/
theorem Recorded.saves {next : Stage B}
    (writes : checkpointed (⟨⟨some (rules, stage), storage⟩, input, vote, after⟩ : ValidatorEvent B QC T D) = written storage rules)
    (unmoved : journaled (⟨⟨some (rules, stage), storage⟩, input, vote, after⟩ : ValidatorEvent B QC T D) = [])
    (left : after = ⟨some (rules, next), (persistSafetyState storage rules.state).2⟩) :
    Recorded (⟨⟨some (rules, stage), storage⟩, input, vote, after⟩ : ValidatorEvent B QC T D) where
  saved := by
    rw [writes, left]
    exact written_saved storage rules
  running before later same here := by
    cases same
    rw [left] at here
    cases here
    refine ⟨by rw [unmoved]; rfl, ?_⟩
    rw [writes, unmoved, written]
    split
    next =>
      intro state same
      cases same
      exact ⟨rfl, rfl⟩
    next =>
      intro state impossible
      cases impossible
  started next impossible := by cases impossible

/-- A running validator. -/
theorem act_recorded (profile : Profile) (rules : TwoChainSafetyRules) (stage : Stage B) (storage : D)
    (input : Validator.Input B QC T D) :
    Recorded (event (Validator.step profile) (⟨some (rules, stage), storage⟩ : Validator B D) input) := by
  -- the memory is left alone
  have still : ∀ {other : Stage B} {process : D} {vote : Option U64},
      LawfulStorage.saved process = LawfulStorage.saved storage →
      journaled (⟨⟨some (rules, stage), storage⟩, input, vote, ⟨some (rules, other), process⟩⟩ : ValidatorEvent B QC T D) = [] →
      checkpointed (⟨⟨some (rules, stage), storage⟩, input, vote, ⟨some (rules, other), process⟩⟩ : ValidatorEvent B QC T D) = none →
      Recorded (⟨⟨some (rules, stage), storage⟩, input, vote, ⟨some (rules, other), process⟩⟩ : ValidatorEvent B QC T D) := by
    intro other process vote kept unmoved unwritten
    refine .quiet kept ?_ unwritten
    intro next same
    cases same
    rw [unmoved]
    rfl
  cases input with
  | check proposal timeoutCert =>
    cases stage with
    | idle =>
      simp only [event, Validator.step, Validator.act]
      split <;> exact still rfl rfl rfl
    | _ => exact still rfl rfl rfl
  | record =>
    cases stage with
    | checked proposal =>
      obtain ⟨_, ⟨error, refused⟩, same⟩ | ⟨_, accepted, raised⟩ := SafetyRules.recordVote_cases rules (Block.round proposal)
      · have outcome : rules.recordVote (Block.round proposal) = (.error error, rules) := Prod.ext refused same
        simp only [event, Validator.step, Validator.act, outcome]
        exact still rfl (by simp only [journaled, outcome]) rfl
      · have outcome : rules.recordVote (Block.round proposal) = (.ok (), (rules.recordVote (Block.round proposal)).2) :=
          Prod.ext accepted rfl
        simp only [event, Validator.step, Validator.act]
        rw [outcome]
        refine .quiet rfl ?_ rfl
        intro next same
        cases same
        simp only [journaled, accepted]
        exact raised
    | _ => exact still rfl rfl rfl
  | persist =>
    cases stage with
    | recorded proposal =>
      simp only [event, Validator.step, Validator.act]
      split
      next after persisted => exact .saves rfl rfl (by rw [persisted])
      next error after failed => exact .saves rfl rfl (by rw [failed])
    | _ => exact still rfl rfl rfl
  | send => cases stage <;> exact still rfl rfl rfl
  | observeQc qc =>
    refine .quiet rfl ?_ (by cases stage <;> rfl)
    intro next same
    cases same
    cases stage <;> exact SafetyRules.observeQc_state profile rules qc
  | observeTc tc =>
    refine .quiet rfl ?_ (by cases stage <;> rfl)
    intro next same
    cases same
    cases stage <;> exact SafetyRules.observeTc_state rules tc
  | recordTimeout round =>
    refine .quiet rfl ?_ (by cases stage <;> rfl)
    intro next same
    cases same
    cases stage <;> exact SafetyRules.recordTimeout_state rules round
  | save => cases stage <;> exact .saves rfl rfl rfl
  | crash =>
    refine .quiet rfl ?_ (by cases stage <;> rfl)
    intro next impossible
    cases impossible
  | restart epoch => cases stage <;> exact still rfl rfl rfl
  | disturb other =>
    simp only [event, Validator.step, Validator.act]
    split
    next same => cases stage <;> exact still same rfl rfl
    next => cases stage <;> exact still rfl rfl rfl

/-- A stopped validator that stays down. -/
theorem Recorded.down (kept : LawfulStorage.saved after.storage = LawfulStorage.saved storage) (stopped : after.process = none) :
    Recorded (⟨⟨none, storage⟩, input, vote, after⟩ : ValidatorEvent B QC T D) where
  saved := kept
  running before next impossible := by cases impossible
  started next _ here := by cases stopped.symm.trans here

/-- Loading gives the saved state, or a new one for the epoch if nothing was ever saved. -/
theorem load_saved_state {epoch : U64} (loaded : loadSafetyRules profile storage epoch = .ok rules) :
    rules.state = (LawfulStorage.saved storage).getD (TwoChainSafetyRules.new epoch).state := by
  simp only [loadSafetyRules] at loaded
  rcases LawfulStorage.get_saved storage with found | ⟨error, failed⟩
  · rw [found] at loaded
    cases saved : LawfulStorage.saved storage with
    | none =>
      rw [saved] at loaded
      cases loaded
      rfl
    | some state =>
      rw [saved] at loaded
      cases valid : validateSafetyState profile state with
      | error failure => simp [valid, bind, Except.bind] at loaded
      | ok =>
        obtain rfl : TwoChainSafetyRules.withState state = rules := by
          simpa [valid, bind, Except.bind, pure, Except.pure] using loaded
        rfl
  · rw [failed] at loaded
    cases loaded

theorem step_recorded (profile : Profile) (validator : Validator B D) (input : Validator.Input B QC T D) :
    Recorded (event (Validator.step profile) validator input) := by
  obtain ⟨process, storage⟩ := validator
  cases process with
  | some running => exact act_recorded profile running.1 running.2 storage input
  | none =>
    cases input with
    | restart epoch =>
      simp only [event, Validator.step]
      split
      next rules loaded =>
        refine ⟨rfl, ?_, ?_⟩
        · intro before next impossible
          cases impossible
        · intro next _ here
          cases here
          exact ⟨epoch, rfl, rfl, load_saved_state loaded⟩
      next => exact .down rfl rfl
    | disturb other =>
      simp only [event, Validator.step]
      split
      next same => exact .down same rfl
      next => exact .down rfl rfl
    | _ => exact .down rfl rfl

end Steps

/-- The epoch of the last start. -/
def startedFor (past : List (ValidatorEvent B QC T D)) : U64 := (past.filterMap restarted).getLast?.getD 0

/-- The account of a run: the last checkpoint, and the memory as its continuation. -/
structure Kept (first : Option SafetyStateData) (past : List (ValidatorEvent B QC T D)) (validator : Validator B D) : Prop where
  saved : LawfulStorage.saved validator.storage = (past.filterMap checkpointed).getLast?.or first
  memory : ∀ running, validator.process = some running → running.1.state =
    replay ((LawfulStorage.saved validator.storage).getD (TwoChainSafetyRules.new (startedFor past)).state) (since past)

theorem Kept.step {first : Option SafetyStateData} {past : List (ValidatorEvent B QC T D)} {current : ValidatorEvent B QC T D}
    (kept : Kept first past current.before) (recorded : Recorded current) : Kept first (past ++ [current]) current.after where
  saved := by
    rw [recorded.saved, getLast?_filterMap_snoc, kept.saved, Option.or_assoc]
  memory after here := by
    rw [recorded.saved, since_snoc, startedFor, getLast?_filterMap_snoc]
    cases before : current.before.process with
    | none =>
      obtain ⟨epoch, started, unwritten, loaded⟩ := recorded.started after before here
      have anchored : (checkpointed current).isSome ∨ (restarted current).isSome := Or.inr (by rw [started]; rfl)
      rw [if_pos anchored, started, unwritten]
      exact loaded
    | some running =>
      have already : restarted current = none := by simp only [restarted, before]
      obtain ⟨moved, writes⟩ := recorded.running running after before here
      cases saved : checkpointed current with
      | none =>
        rw [already, if_neg (by simp), replay_append]
        exact moved.trans (congrArg (replay · (journaled current)) (kept.memory running before))
      | some state =>
        -- what was written is the memory, and there is nothing on top of it yet
        obtain ⟨nothing, same⟩ := writes state saved
        have anchored : (some state).isSome ∨ (restarted current).isSome := Or.inl rfl
        rw [if_pos anchored, same, moved, nothing]
        rfl

/-- Over any run with crashes, failed saves and restarts, the storage holds the state of
the last save that went through, the memory of a running validator is that state with the
updates since (a crash loses these and no others), and the checkpoint is never behind a
vote that was sent. -/
theorem restarts_resume_checkpoint (profile : Profile) (storage : D) (inputs : List (Validator.Input B QC T D)) :
    let run := trace (Validator.step profile) (⟨none, storage⟩ : Validator B D) inputs
    let final := exec (Validator.step profile) (⟨none, storage⟩ : Validator B D) inputs
    let checkpoint := (run.filterMap checkpointed).getLast?.or (LawfulStorage.saved storage)
    LawfulStorage.saved final.storage = checkpoint ∧
    (∀ rules stage, final.process = some (rules, stage) →
      rules.state = replay (checkpoint.getD (TwoChainSafetyRules.new (startedFor run)).state) (since run)) ∧
    ∀ round ∈ run.filterMap Event.output, ∃ state ∈ checkpoint, round ≤ state.lastVotedRound := by
  intro run final checkpoint
  have kept : Kept (LawfulStorage.saved storage) run final := by
    refine history (Validator.step profile) (⟨none, storage⟩ : Validator B D) inputs ⟨rfl, ?_⟩ ?_
    · intro running impossible
      cases impossible
    · intro past validator input kept
      exact kept.step (step_recorded profile validator input)
  have durable : Durable (run.filterMap Event.output) final := (run_durable profile storage inputs).1
  have last : LawfulStorage.saved final.storage = checkpoint := kept.saved
  refine ⟨last, ?_, ?_⟩
  · intro rules stage here
    rw [← last]
    exact kept.memory (rules, stage) here
  · intro round sent
    obtain ⟨state, same, bound⟩ := durable.covered round sent
    exact ⟨state, last.symm.trans same, bound⟩

/-- A vote is sent, a certificate is observed and not saved, and the validator crashes: the
vote is remembered and the certificate is lost. -/
example :
    let inputs : List (Validator.Input MockBlock MockQuorumCert MockSignature MockStorage) :=
      [.restart 7, .check (makeBlock 3 7 1 ⟨0⟩) none, .record, .persist, .send, .observeQc (makeQc 8 7 ⟨1⟩), .crash, .restart 8]
    let final := exec (Validator.step .dev) (⟨none, ⟨none, false⟩⟩ : Validator MockBlock MockStorage) inputs
    final.process.map (fun running => running.1.state) = some ⟨7, 3, 0, 0, 0⟩ := by decide

end AptosBft.Proofs.Checkpoints
