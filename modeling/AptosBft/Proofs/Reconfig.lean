import AptosBft.Lib.Mealy
import AptosBft.Testing

/-! The reconfiguration handler. The epoch is kept twice, in the status and in the
epoch manager, and a validator set is stored before its epoch is agreed on. -/

namespace AptosBft.Proofs.Reconfig
open Rust Mealy AptosBft.ReconfigHandler

variable {N E : Type}

abbrev ReconfigStep (N E : Type) := Event (ReconfigHandler N E) (Call N E) (Reply N)

section Calls

/-- A new epoch is started only right after the current one. At the last epoch every
other one is old, so the unchecked successor is not reached there. -/
theorem startNewEpoch_cases (profile : Profile) (manager : EpochManager) (epoch now : U64) :
    (epoch.val ≠ manager.epoch.val + 1 ∧ ∃ failure, manager.startNewEpoch profile epoch now = (.error failure, manager)) ∨
    (epoch.val = manager.epoch.val + 1 ∧
      manager.startNewEpoch profile epoch now = (.ok (), { manager with epochState := ⟨epoch, now⟩ })) := by
  simp only [EpochManager.startNewEpoch]
  by_cases old : epoch ≤ manager.epoch
  · refine Or.inl ⟨?_, _, if_pos old⟩
    rw [Fin.le_def] at old
    omega
  · rw [if_neg old]
    obtain ⟨next, sum, following⟩ := U64.plus_one_of_lt profile (not_le.mp old)
    simp only [sum]
    by_cases same : epoch = next
    · subst same
      exact Or.inr ⟨following, by simp⟩
    · refine Or.inl ⟨?_, _, if_pos same⟩
      intro value
      exact same (Fin.ext (value.trans following.symm))

/-- All that a call can do. -/
inductive Moves (profile : Profile) (handler : ReconfigHandler N E) : Call N E → Reply N → ReconfigHandler N E → Prop where
  | refused {input : Call N E} {failure : Failure Error} : Moves profile handler input (.done (.error failure)) handler
  | prepared {newEpoch : U64} (free : handler.status.isInProgress = false)
      (next : U64.plus profile handler.currentEpoch 1 = .ok newEpoch) :
      Moves profile handler (.prepareReconfig newEpoch) (.done (.ok ()))
        { handler with status := .preparing handler.currentEpoch newEpoch }
  | begun {currentEpoch nextEpoch : U64} {validatorSet : ValidatorSet N}
      (ready : handler.status = .preparing currentEpoch nextEpoch) (members : validatorSet.isEmpty = false) :
      Moves profile handler (.beginReconfig validatorSet) (.done (.ok ())) { handler with
        status := .inProgress nextEpoch 0 validatorSet.len
        validatorSets := handler.validatorSets.insert nextEpoch validatorSet }
  | progressed {newEpoch : U64} {processed total : Nat} (validatorsProcessed : Nat)
      (busy : handler.status = .inProgress newEpoch processed total) :
      Moves profile handler (.updateProgress validatorsProcessed) (.done (.ok ()))
        { handler with status := .inProgress newEpoch validatorsProcessed total }
  | completed {newEpoch now : U64} {total : Nat} (finished : handler.status = .inProgress newEpoch total total)
      (next : newEpoch.val = handler.currentEpoch.val + 1) :
      Moves profile handler (.completeReconfig now) (.done (.ok ())) { handler with
        epochManager := { handler.epochManager with epochState := ⟨newEpoch, now⟩ }
        status := .idle }
  | cancelled :
      Moves profile handler .cancel (.done (.ok ())) { handler with status := .idle, pendingEvents := [] }
  | supplied {epoch : U64} {validatorSet : ValidatorSet N} :
      Moves profile handler (.setValidatorSet epoch validatorSet) (.done (.ok ()))
        { handler with validatorSets := handler.validatorSets.insert epoch validatorSet }
  | quiet {input : Call N E} {reply : Reply N} (pendingEvents : List (ReconfigEvent N)) (proposerElection : Option E)
      (notBegun : ∀ validatorSet, input ≠ .beginReconfig validatorSet)
      (notCompleted : ∀ now, input ≠ .completeReconfig now) :
      Moves profile handler input reply { handler with pendingEvents, proposerElection }

theorem call_moves (profile : Profile) (handler : ReconfigHandler N E) (input : Call N E) :
    Moves profile handler input (call profile handler input).1 (call profile handler input).2 := by
  cases input with
  | setProposerElection proposerElection => exact .quiet handler.pendingEvents (some proposerElection) (by simp) (by simp)
  | prepareReconfig newEpoch =>
    simp only [call, prepareReconfig]
    cases free : handler.status.isInProgress with
    | true => exact .refused
    | false =>
      cases sum : U64.plus profile handler.currentEpoch 1 with
      | error reason => exact .refused
      | ok next =>
        by_cases same : newEpoch = next
        · subst same
          simp only [ne_eq, not_true_eq_false, ite_false, Bool.false_eq_true]
          exact .prepared free sum
        · simp only [ne_eq, same, not_false_eq_true, ite_true, Bool.false_eq_true, ite_false]
          exact .refused
  | setValidatorSet epoch validatorSet => exact .supplied
  | beginReconfig validatorSet =>
    simp only [call, beginReconfig]
    cases ready : handler.status with
    | preparing currentEpoch nextEpoch =>
      cases members : validatorSet.isEmpty with
      | true => exact .refused
      | false => exact .begun ready members
    | _ => exact .refused
  | completeReconfig now =>
    simp only [call, completeReconfig]
    cases finished : handler.status with
    | inProgress newEpoch processed total =>
      by_cases all : processed = total
      · subst all
        obtain ⟨_, failure, failed⟩ | ⟨next, started⟩ := startNewEpoch_cases profile handler.epochManager newEpoch now
        · simp only [failed, ne_eq, not_true_eq_false, ite_false]
          rw [← finished]
          exact .refused
        · simp only [started, ne_eq, not_true_eq_false, ite_false]
          exact .completed finished next
      · simp only [ne_eq, all, not_false_eq_true, ite_true]
        exact .refused
    | _ => exact .refused
  | addEvent event => exact .quiet (handler.pendingEvents ++ [event]) handler.proposerElection (by simp) (by simp)
  | takePendingEvents => exact .quiet [] handler.proposerElection (by simp) (by simp)
  | cancel => exact .cancelled
  | updateProgress validatorsProcessed =>
    simp only [call, updateProgress]
    cases busy : handler.status with
    | inProgress newEpoch processed total => exact .progressed validatorsProcessed busy
    | _ => exact .quiet handler.pendingEvents handler.proposerElection (by simp) (by simp)

end Calls

section Machine

/-- The statuses a handler can be in, with the epochs they go with. -/
def Shaped (handler : ReconfigHandler N E) : Prop :=
  match handler.status with
  | .idle => True
  | .preparing currentEpoch nextEpoch => currentEpoch = handler.currentEpoch ∧ nextEpoch.val = currentEpoch.val + 1
  | .inProgress newEpoch _ totalValidators => newEpoch.val = handler.currentEpoch.val + 1 ∧ 0 < totalValidators
  | _ => False

/-- The handler is in shape and has a next epoch to go to, which is not the last. -/
structure Coherent (handler : ReconfigHandler N E) : Prop where
  room : handler.currentEpoch < u64Max
  shape : Shaped handler
  ahead : ∀ next ∈ handler.status.newEpoch, next < u64Max

/-- Epochs are below the last one. -/
def InRange : Call N E → Prop
  | .prepareReconfig newEpoch => newEpoch < u64Max
  | _ => True

theorem Coherent.call {handler : ReconfigHandler N E} (coherent : Coherent handler) {input : Call N E}
    (inRange : InRange input) (profile : Profile) : Coherent (call profile handler input).2 := by
  have moves := call_moves profile handler input
  generalize AptosBft.ReconfigHandler.call profile handler input = answer at moves ⊢
  obtain ⟨reply, after⟩ := answer
  obtain ⟨room, shape, ahead⟩ := coherent
  cases moves with
  | refused => exact ⟨room, shape, ahead⟩
  | @prepared newEpoch free next =>
    refine ⟨room, ⟨rfl, ?_⟩, ?_⟩
    · obtain ⟨successor, same, following⟩ := U64.plus_one_of_lt profile room
      cases next.symm.trans same
      exact following
    · intro epoch same
      cases same
      exact inRange
  | begun ready members =>
    simp only [Shaped, ready] at shape
    refine ⟨room, ⟨?_, ?_⟩, ?_⟩
    · rw [shape.2, shape.1]
      rfl
    · simp only [ValidatorSet.isEmpty, beq_eq_false_iff_ne] at members
      exact Nat.pos_of_ne_zero members
    · rw [ready] at ahead
      exact ahead
  | progressed validatorsProcessed busy =>
    simp only [Shaped, busy] at shape
    rw [busy] at ahead
    exact ⟨room, shape, ahead⟩
  | completed finished next =>
    refine ⟨ahead _ ?_, trivial, ?_⟩
    · rw [finished]
      rfl
    · intro _ none
      cases none
  | cancelled =>
    refine ⟨room, trivial, ?_⟩
    intro _ none
    cases none
  | supplied => exact ⟨room, shape, ahead⟩
  | quiet => exact ⟨room, shape, ahead⟩

def completes (current : ReconfigStep N E) : Bool :=
  match current.input, current.output with
  | .completeReconfig _, .done (.ok ()) => true
  | _, _ => false

/-- Only completed reconfigurations move the epoch, one step each. -/
theorem Moves.epoch {profile : Profile} {handler after : ReconfigHandler N E} {input : Call N E} {reply : Reply N}
    (moves : Moves profile handler input reply after) :
    after.currentEpoch.val = handler.currentEpoch.val + if completes ⟨handler, input, reply, after⟩ then 1 else 0 := by
  cases moves with
  | refused => cases input <;> rfl
  | completed finished next => exact next
  | quiet _ _ _ notCompleted =>
    cases input with
    | completeReconfig now => exact absurd rfl (notCompleted now)
    | _ => rfl
  | _ => rfl

theorem completeReconfig_ok_iff {handler : ReconfigHandler N E} (coherent : Coherent handler) (profile : Profile) (now : U64) :
    (handler.completeReconfig profile now).1 = .ok () ↔
      ∃ newEpoch total, handler.status = .inProgress newEpoch total total := by
  simp only [completeReconfig]
  have shape := coherent.shape
  cases finished : handler.status with
  | inProgress newEpoch processed total =>
    simp only [Shaped, finished] at shape
    by_cases all : processed = total
    · obtain ⟨other, _⟩ | ⟨_, started⟩ := startNewEpoch_cases profile handler.epochManager newEpoch now
      · exact absurd shape.1 other
      · simp [all, started]
    · have other : total ≠ processed := fun same => all same.symm
      simp [all, other]
  | _ => simp

theorem refused_keeps {profile : Profile} {handler : ReconfigHandler N E} {input : Call N E} {failure : Failure Error}
    (refused : (call profile handler input).1 = .done (.error failure)) :
    (call profile handler input).2.currentEpoch = handler.currentEpoch ∧
      (call profile handler input).2.status = handler.status ∧
      (call profile handler input).2.validatorSets = handler.validatorSets := by
  have moves := call_moves profile handler input
  generalize call profile handler input = answer at moves refused ⊢
  obtain ⟨reply, after⟩ := answer
  cases moves with
  | refused => exact ⟨rfl, rfl, rfl⟩
  | quiet => exact ⟨rfl, rfl, rfl⟩
  | _ => cases refused

/-- The epoch the status reports is the epoch manager's, and it is computed without
an underflow. -/
theorem status_epoch {handler : ReconfigHandler N E} (shape : Shaped handler) (profile : Profile) :
    ∃ reported, handler.status.currentEpoch profile = .ok reported ∧ ∀ epoch ∈ reported, epoch = handler.currentEpoch := by
  cases status : handler.status with
  | idle => exact ⟨none, rfl, by simp⟩
  | preparing currentEpoch nextEpoch =>
    simp only [Shaped, status] at shape
    exact ⟨some currentEpoch, rfl, by simp [shape.1]⟩
  | inProgress newEpoch processed total =>
    simp only [Shaped, status] at shape
    have fits : (1 : U64) ≤ newEpoch := by
      rw [Fin.le_def, shape.1]
      exact Nat.le_add_left _ _
    refine ⟨some (newEpoch.minus 1 fits), ?_, ?_⟩
    · simp only [ReconfigStatus.currentEpoch, U64.subtract, dif_pos fits]
      rfl
    · intro epoch same
      cases same
      apply Fin.ext
      rw [U64.minus_val, shape.1]
      rfl
  | completed => simp [Shaped, status] at shape
  | failed => simp [Shaped, status] at shape

/-- In every run the epoch counts the completed reconfigurations and the status goes
with it, so that a reconfiguration whose validators are all processed completes. -/
theorem reconfiguration_coherent (profile : Profile) (config : ReconfigConfig) {manager : EpochManager}
    (below : manager.epoch < u64Max) {calls : List (Call N E)} (inRange : ∀ call ∈ calls, InRange call) :
    let run := trace (call profile) (.new config manager) calls
    let final := exec (call profile) (.new config manager) calls
    final.currentEpoch.val = manager.epoch.val + run.countP completes ∧ Shaped final ∧
    (∀ build, ∃ reported, final.status.currentEpoch build = .ok reported ∧ ∀ epoch ∈ reported, epoch = final.currentEpoch) ∧
    ∀ current ∈ run,
      (∀ now, current.input = .completeReconfig now →
        (current.output = .done (.ok ()) ↔ ∃ newEpoch total, current.before.status = .inProgress newEpoch total total)) ∧
      ∀ error, current.output = .done (.error (.err error)) →
        current.after.currentEpoch = current.before.currentEpoch ∧ current.after.status = current.before.status ∧
          current.after.validatorSets = current.before.validatorSets := by
  intro run final
  have meets : Meets (call profile) (fun _ current => InRange current.input) (.new config manager) calls := meets_of_forall inRange
  have initial : Coherent (.new config manager : ReconfigHandler N E) := ⟨below, trivial, fun _ none => by cases none⟩
  have whole : Coherent final ∧ final.currentEpoch.val = manager.epoch.val + run.countP completes := by
    refine meets.history (motive := fun past handler =>
      Coherent handler ∧ handler.currentEpoch.val = manager.epoch.val + past.countP completes) ⟨initial, rfl⟩ ?_
    intro past handler input before here
    obtain ⟨coherent, counted⟩ := before
    refine ⟨coherent.call here profile, ?_⟩
    have moved := (call_moves profile handler input).epoch
    rw [moved, counted, List.countP_append, List.countP_singleton]
    exact Nat.add_assoc _ _ _
  refine ⟨whole.2, whole.1.shape, status_epoch whole.1.shape, ?_⟩
  refine forall_trace_derive (meets_iff_trace.mp meets) initial ?_ ?_
  · intro _ _ coherent here
    exact coherent.call here profile
  · intro handler input coherent _
    refine ⟨?_, ?_⟩
    · rintro now (rfl : input = _)
      rw [event_before, ← completeReconfig_ok_iff coherent profile now]
      exact Reply.done.injEq _ _ ▸ Iff.rfl
    · intro error refused
      exact refused_keeps refused

end Machine

theorem tested_reconfiguration_coherent :
    let calls : List (Call TestAuthor TestProposerElection) := [.prepareReconfig 2, .beginReconfig (createTestValidatorSet 2 4),
      .completeReconfig 7, .updateProgress 4, .completeReconfig 8, .prepareReconfig 3]
    let final : MockHandler := exec (call .dev) (.new .default (.new ⟨1, false⟩)) calls
    final.status = .preparing 2 3 ∧ final.currentEpoch.val = 1 + 1 ∧ Shaped final := by
  intro calls final
  have inRange : ∀ call ∈ calls, InRange call := by
    simp only [calls, List.forall_mem_cons, InRange, true_and, List.not_mem_nil, false_implies, implies_true, and_true]
    decide
  have below : (EpochManager.new ⟨1, false⟩).epoch < u64Max := by decide
  obtain ⟨counted, shape, _⟩ := reconfiguration_coherent .dev .default below inRange
  exact ⟨by decide, counted, shape⟩

section Sets

def begun (current : ReconfigStep N E) : Option (ValidatorSet N) :=
  match current.input, current.output with
  | .beginReconfig validatorSet, .done (.ok ()) => some validatorSet
  | _, _ => none

/-- The set given to the last reconfiguration that began. -/
def lastBegun (past : List (ReconfigStep N E)) : Option (ValidatorSet N) := (past.filterMap begun).getLast?

/-- Sets are stored under their own epochs, and the one in force after a
reconfiguration is the one the reconfiguration began with. -/
structure AgreedSet (past : List (ReconfigStep N E)) (current : ReconfigStep N E) : Prop where
  keyed : ∀ epoch validatorSet, current.after.validatorSet epoch = some validatorSet → validatorSet.epoch = epoch
  inForce : completes current = true → ∃ validatorSet, lastBegun past = some validatorSet ∧
    validatorSet.isEmpty = false ∧ current.after.currentValidatorSet = some validatorSet

/-- Sets supplied for an epoch are of that epoch. -/
def Labelled : Call N E → Prop
  | .setValidatorSet epoch validatorSet => validatorSet.epoch = epoch
  | _ => True

/-- A reconfiguration begins with a set of its epoch, which is not replaced before
it completes. -/
def Settled (current : ReconfigStep N E) : Prop :=
  match current.input with
  | .beginReconfig validatorSet => ∀ currentEpoch nextEpoch, current.before.status = .preparing currentEpoch nextEpoch →
    validatorSet.isEmpty = false → validatorSet.epoch = nextEpoch
  | .setValidatorSet epoch validatorSet => ∀ processed total, current.before.status = .inProgress epoch processed total →
    current.before.validatorSet epoch = some validatorSet
  | _ => True

/-- The set of the reconfiguration in progress is stored under its epoch. -/
structure Held (past : List (ReconfigStep N E)) (handler : ReconfigHandler N E) : Prop where
  keyed : ∀ epoch validatorSet, handler.validatorSet epoch = some validatorSet → validatorSet.epoch = epoch
  stored : ∀ newEpoch processed total, handler.status = .inProgress newEpoch processed total →
    ∃ validatorSet, lastBegun past = some validatorSet ∧ validatorSet.isEmpty = false ∧
      handler.validatorSet newEpoch = some validatorSet

theorem lastBegun_snoc (past : List (ReconfigStep N E)) (current : ReconfigStep N E) :
    lastBegun (past ++ [current]) = (begun current).or (lastBegun past) :=
  getLast?_filterMap_snoc begun past current

theorem lastBegun_quiet {past : List (ReconfigStep N E)} {current : ReconfigStep N E} (quiet : begun current = none) :
    lastBegun (past ++ [current]) = lastBegun past := by
  rw [lastBegun_snoc, quiet, Option.none_or]

theorem begun_refused (before after : ReconfigHandler N E) (input : Call N E) (failure : Failure Error) :
    begun ⟨before, input, .done (.error failure), after⟩ = none := by cases input <;> rfl

theorem begun_other (before after : ReconfigHandler N E) {input : Call N E} (reply : Reply N)
    (notBegun : ∀ validatorSet, input ≠ .beginReconfig validatorSet) : begun ⟨before, input, reply, after⟩ = none := by
  cases input with
  | beginReconfig validatorSet => exact absurd rfl (notBegun validatorSet)
  | _ => rfl

/-- A stored set stays keyed when one of its epoch is inserted. -/
theorem keyed_insert {handler : ReconfigHandler N E}
    (keyed : ∀ epoch validatorSet, handler.validatorSet epoch = some validatorSet → validatorSet.epoch = epoch)
    {newEpoch : U64} {supplied : ValidatorSet N} (own : supplied.epoch = newEpoch) {epoch : U64} {validatorSet : ValidatorSet N}
    (found : (handler.validatorSets.insert newEpoch supplied).lookup epoch = some validatorSet) :
    validatorSet.epoch = epoch := by
  by_cases same : epoch = newEpoch
  · subst same
    rw [Finmap.lookup_insert] at found
    cases found
    exact own
  · rw [Finmap.lookup_insert_of_ne _ same] at found
    exact keyed epoch validatorSet found

theorem Held.step {past : List (ReconfigStep N E)} {handler : ReconfigHandler N E} (held : Held past handler) {profile : Profile}
    {input : Call N E} (labelled : Labelled input) (settled : Settled (event (call profile) handler input)) :
    Held (past ++ [event (call profile) handler input]) (call profile handler input).2 := by
  have moves := call_moves profile handler input
  simp only [event]
  generalize call profile handler input = answer at moves ⊢
  obtain ⟨reply, after⟩ := answer
  obtain ⟨keyed, stored⟩ := held
  cases moves with
  | refused =>
    refine ⟨keyed, ?_⟩
    rw [lastBegun_quiet (begun_refused _ _ _ _)]
    exact stored
  | prepared free next => exact ⟨keyed, fun _ _ _ busy => by cases busy⟩
  | @begun _ nextEpoch validatorSet ready members =>
    refine ⟨?_, ?_⟩
    · intro epoch other found
      exact keyed_insert keyed (settled _ _ ready members) found
    · intro newEpoch processed total busy
      cases busy
      refine ⟨validatorSet, ?_, members, Finmap.lookup_insert _⟩
      rw [lastBegun_snoc]
      rfl
  | progressed validatorsProcessed busy =>
    refine ⟨keyed, ?_⟩
    intro newEpoch processed total same
    cases same
    rw [lastBegun_quiet rfl]
    exact stored _ _ _ busy
  | completed finished next => exact ⟨keyed, fun _ _ _ busy => by cases busy⟩
  | cancelled => exact ⟨keyed, fun _ _ _ busy => by cases busy⟩
  | @supplied epoch validatorSet =>
    refine ⟨?_, ?_⟩
    · intro other found present
      exact keyed_insert keyed labelled present
    · intro newEpoch processed total busy
      rw [lastBegun_quiet rfl]
      obtain ⟨agreed, latest, members, present⟩ := stored newEpoch processed total busy
      refine ⟨agreed, latest, members, ?_⟩
      change (handler.validatorSets.insert epoch validatorSet).lookup newEpoch = some agreed
      by_cases same : newEpoch = epoch
      · subst same
        cases (settled processed total busy).symm.trans present
        exact Finmap.lookup_insert _
      · rw [Finmap.lookup_insert_of_ne _ same]
        exact present
  | quiet _ _ notBegun =>
    refine ⟨keyed, ?_⟩
    rw [lastBegun_quiet (begun_other _ _ _ notBegun)]
    exact stored

theorem Held.agreed {past : List (ReconfigStep N E)} {handler : ReconfigHandler N E} (held : Held past handler) {profile : Profile}
    {input : Call N E} (labelled : Labelled input) (settled : Settled (event (call profile) handler input)) :
    AgreedSet past (event (call profile) handler input) := by
  refine ⟨(held.step labelled settled).keyed, ?_⟩
  have moves := call_moves profile handler input
  simp only [event]
  generalize call profile handler input = answer at moves ⊢
  obtain ⟨reply, after⟩ := answer
  intro completed
  cases moves with
  | completed finished next => exact held.stored _ _ _ finished
  | refused => cases input <;> cases completed
  | quiet _ _ _ notCompleted =>
    cases input with
    | completeReconfig now => exact absurd rfl (notCompleted now)
    | _ => cases completed
  | _ => cases completed

/-- Where every reconfiguration begins with a set of its own epoch and nothing
replaces it on the way, the set in force is the agreed one. -/
theorem agreed_set_in_force (profile : Profile) (config : ReconfigConfig) (manager : EpochManager) {calls : List (Call N E)}
    (labelled : ∀ call ∈ calls, Labelled call)
    (settled : ∀ current ∈ trace (call profile) (.new config manager) calls, Settled current) :
    Meets (call profile) AgreedSet (.new config manager) calls := by
  have meets : Meets (call profile) (fun _ current => Labelled current.input ∧ Settled current) (.new config manager) calls :=
    (meets_of_forall labelled).and (meets_iff_trace.mpr settled)
  refine meets.derive (motive := Held) ?_ ?_ ?_
  · refine ⟨?_, ?_⟩
    · intro _ _ none
      cases none
    · intro _ _ _ busy
      cases busy
  · intro past handler input held here
    exact held.step here.1 here.2
  · intro past handler input held here
    exact held.agreed here.1 here.2

end Sets

theorem supplied_set_agreed :
    let calls : List (Call TestAuthor TestProposerElection) := [.setValidatorSet 1 (createTestValidatorSet 1 3),
      .prepareReconfig 2, .beginReconfig (createTestValidatorSet 2 4), .updateProgress 4, .completeReconfig 8]
    let start : MockHandler := .new .default (.new ⟨1, false⟩)
    (exec (call .dev) start calls).currentValidatorSet = some (createTestValidatorSet 2 4) ∧
      Meets (call .dev) AgreedSet start calls := by
  intro calls start
  have labelled : ∀ call ∈ calls, Labelled call := by
    simp only [calls, List.forall_mem_cons, Labelled, List.not_mem_nil, false_implies, implies_true, and_true]
    decide
  refine ⟨by decide, agreed_set_in_force .dev .default _ labelled ?_⟩
  simp only [calls, forall_trace_cons, forall_trace_nil, and_true]
  refine ⟨?_, trivial, ?_, trivial, trivial⟩
  · intro _ _ busy
    cases busy
  · intro currentEpoch nextEpoch ready _
    cases ready
    rfl

/-- A reconfiguration to epoch 2 that begins with a set of epoch 9 stores it for
epoch 2; and one whose set is replaced before it completes puts the other one in
force. -/
theorem other_set_in_force :
    let start : MockHandler := .new .default (.new ⟨1, false⟩)
    let foreign : List (Call TestAuthor TestProposerElection) := [.prepareReconfig 2, .beginReconfig (createTestValidatorSet 9 4)]
    let replaced : List (Call TestAuthor TestProposerElection) := [.prepareReconfig 2,
      .beginReconfig (createTestValidatorSet 2 4), .setValidatorSet 2 (createTestValidatorSet 2 1), .updateProgress 4,
      .completeReconfig 8]
    ((exec (call .dev) start foreign).validatorSet 2 = some (createTestValidatorSet 9 4) ∧
      ¬ Meets (call .dev) AgreedSet start foreign) ∧
    ((∀ call ∈ replaced, Labelled call) ∧
      (exec (call .dev) start replaced).currentValidatorSet = some (createTestValidatorSet 2 1) ∧
      ¬ Meets (call .dev) AgreedSet start replaced) := by
  intro start foreign replaced
  have wrong : (exec (call .dev) start foreign).validatorSet 2 = some (createTestValidatorSet 9 4) := by decide
  have other : (exec (call .dev) start replaced).currentValidatorSet = some (createTestValidatorSet 2 1) := by decide
  refine ⟨⟨wrong, ?_⟩, ?_, other, ?_⟩
  · intro agreed
    have second := agreed [event (call .dev) start (.prepareReconfig 2)] _ [] rfl
    exact absurd (second.keyed 2 _ wrong) (by decide)
  · simp only [replaced, List.forall_mem_cons, Labelled, true_and, List.not_mem_nil, false_implies, implies_true, and_true]
    decide
  · intro agreed
    have last := agreed (trace (call .dev) start (replaced.take 4)) _ [] rfl
    obtain ⟨validatorSet, latest, _, inForce⟩ := last.inForce (by decide)
    have given : lastBegun (trace (call .dev) start (replaced.take 4)) = some (createTestValidatorSet 2 4) := by decide
    cases given.symm.trans latest
    exact absurd (other.symm.trans inForce) (by decide)

section Cancel

/-- The calls of a transition on its way. -/
def OnTheWay : Call N E → Prop
  | .beginReconfig _ => True
  | .updateProgress _ => True
  | _ => False

/-- The first set that a reconfiguration can begin with. -/
def firstSet (steps : List (Call N E)) : Option (ValidatorSet N) :=
  steps.findSome? fun step =>
    match step with
    | .beginReconfig validatorSet => if validatorSet.isEmpty then none else some validatorSet
    | _ => none

variable (profile : Profile) {handler : ReconfigHandler N E}

/-- Once it has begun, a transition changes its progress only. -/
theorem underway_run {newEpoch : U64} {processed total : Nat} (busy : handler.status = .inProgress newEpoch processed total)
    {steps : List (Call N E)} (onTheWay : ∀ step ∈ steps, OnTheWay step) :
    ∃ later, exec (call profile) handler steps = { handler with status := .inProgress newEpoch later total } := by
  induction steps generalizing handler processed with
  | nil => exact ⟨processed, by rw [← busy]; rfl⟩
  | cons step rest ih =>
    have others : ∀ step ∈ rest, OnTheWay step := fun step member => onTheWay step (List.mem_cons_of_mem _ member)
    rw [exec_cons]
    cases step with
    | beginReconfig validatorSet =>
      have refused : (call profile handler (.beginReconfig validatorSet)).2 = handler := by
        simp only [call, beginReconfig, busy]
      rw [refused]
      exact ih busy others
    | updateProgress validatorsProcessed =>
      have moved : (call profile handler (.updateProgress validatorsProcessed)).2 =
          { handler with status := .inProgress newEpoch validatorsProcessed total } := by
        simp only [call, updateProgress, busy]
      rw [moved]
      exact ih rfl others
    | _ => exact absurd (onTheWay _ List.mem_cons_self) id

/-- A prepared transition ends up with the first set it could begin with. -/
theorem prepared_run {currentEpoch nextEpoch : U64} (ready : handler.status = .preparing currentEpoch nextEpoch)
    {steps : List (Call N E)} (onTheWay : ∀ step ∈ steps, OnTheWay step) :
    ∃ status, exec (call profile) handler steps = { handler with
      status
      validatorSets := match firstSet steps with
        | some validatorSet => handler.validatorSets.insert nextEpoch validatorSet
        | none => handler.validatorSets } := by
  induction steps with
  | nil => exact ⟨handler.status, rfl⟩
  | cons step rest ih =>
    have others : ∀ step ∈ rest, OnTheWay step := fun step member => onTheWay step (List.mem_cons_of_mem _ member)
    rw [exec_cons]
    cases step with
    | beginReconfig validatorSet =>
      cases members : validatorSet.isEmpty with
      | true =>
        have refused : (call profile handler (.beginReconfig validatorSet)).2 = handler := by
          simp only [call, beginReconfig, ready, members, ite_true]
        have skipped : firstSet (.beginReconfig validatorSet :: rest) = firstSet rest := by
          simp only [firstSet, List.findSome?_cons, members, ite_true]
        rw [refused, skipped]
        exact ih others
      | false =>
        have begins : (call profile handler (.beginReconfig validatorSet)).2 = { handler with
            status := .inProgress nextEpoch 0 validatorSet.len
            validatorSets := handler.validatorSets.insert nextEpoch validatorSet } := by
          simp [call, beginReconfig, ready, members]
        have first : firstSet (.beginReconfig validatorSet :: rest) = some validatorSet := by
          simp [firstSet, members]
        have busy : (call profile handler (.beginReconfig validatorSet)).2.status =
            .inProgress nextEpoch 0 validatorSet.len := congrArg ReconfigHandler.status begins
        obtain ⟨later, left⟩ := underway_run profile busy others
        rw [left, begins, first]
        exact ⟨_, rfl⟩
    | updateProgress validatorsProcessed =>
      have unmoved : (call profile handler (.updateProgress validatorsProcessed)).2 = handler := by
        simp only [call, updateProgress, ready]
      rw [unmoved]
      exact ih others
    | _ => exact absurd (onTheWay _ List.mem_cons_self) id

theorem insert_eq_iff {sets : Finmap fun _ : U64 => ValidatorSet N} {epoch : U64} {validatorSet : ValidatorSet N} :
    sets.insert epoch validatorSet = sets ↔ sets.lookup epoch = some validatorSet := by
  constructor
  · intro same
    rw [← same]
    exact Finmap.lookup_insert _
  · intro present
    apply Finmap.ext_lookup
    intro other
    by_cases same : other = epoch
    · subst same
      rw [Finmap.lookup_insert, present]
    · exact Finmap.lookup_insert_of_ne _ same

theorem prepareReconfig_ok {profile : Profile} {newEpoch : U64}
    (prepared : (handler.prepareReconfig profile newEpoch).1 = .ok ()) :
    (handler.prepareReconfig profile newEpoch).2 = { handler with status := .preparing handler.currentEpoch newEpoch } := by
  simp only [prepareReconfig] at prepared ⊢
  cases free : handler.status.isInProgress with
  | true =>
    rw [free] at prepared
    cases prepared
  | false =>
    rw [free] at prepared
    cases sum : U64.plus profile handler.currentEpoch 1 with
    | error reason =>
      rw [sum] at prepared
      cases prepared
    | ok next =>
      by_cases same : newEpoch = next
      · simp [same]
      · simp [sum, same] at prepared

/-- Cancelling puts the handler back exactly when no set was stored on the way, or
the one that was had been there before. -/
theorem cancel_restores_iff (profile : Profile) (handler : ReconfigHandler N E) (idle : handler.status = .idle)
    (noEvents : handler.pendingEvents = []) {newEpoch : U64}
    (prepared : (handler.prepareReconfig profile newEpoch).1 = .ok ()) {steps : List (Call N E)}
    (onTheWay : ∀ step ∈ steps, OnTheWay step) :
    exec (call profile) handler (.prepareReconfig newEpoch :: steps ++ [.cancel]) = handler ↔
      ∀ validatorSet ∈ firstSet steps, handler.validatorSet newEpoch = some validatorSet := by
  have started : (call profile handler (.prepareReconfig newEpoch)).2 =
      { handler with status := .preparing handler.currentEpoch newEpoch } := prepareReconfig_ok prepared
  have ready : (call profile handler (.prepareReconfig newEpoch)).2.status = .preparing handler.currentEpoch newEpoch :=
    congrArg ReconfigHandler.status started
  obtain ⟨status, left⟩ := prepared_run profile ready onTheWay
  rw [List.cons_append, exec_cons, exec_append, left, started]
  obtain ⟨config, _, epochManager, validatorSets, _, proposerElection⟩ := handler
  cases idle
  cases noEvents
  simp only [exec_cons, exec_nil, call, cancel, ReconfigHandler.mk.injEq, true_and, and_true]
  cases firstSet steps with
  | none => simp
  | some validatorSet =>
    simp only [insert_eq_iff, Option.mem_some_iff, forall_eq']
    exact Iff.rfl

end Cancel

theorem registered_set_restored :
    let handler : MockHandler := exec (call .dev) (.new .default (.new ⟨1, false⟩))
      ([.setValidatorSet 2 (createTestValidatorSet 2 4)] : List (Call TestAuthor TestProposerElection))
    let steps : List (Call TestAuthor TestProposerElection) :=
      [.beginReconfig (createTestValidatorSet 2 0), .beginReconfig (createTestValidatorSet 2 4), .updateProgress 2]
    firstSet steps = some (createTestValidatorSet 2 4) ∧
      exec (call .dev) handler (.prepareReconfig 2 :: steps ++ [.cancel]) = handler := by
  intro handler steps
  have first : firstSet steps = some (createTestValidatorSet 2 4) := by decide
  have onTheWay : ∀ step ∈ steps, OnTheWay step := by
    simp [steps, OnTheWay]
  refine ⟨first, (cancel_restores_iff .dev handler rfl rfl rfl onTheWay).mpr ?_⟩
  intro validatorSet same
  cases first.symm.trans same
  decide

/-- The set of an abandoned transition stays, and replaces one that was registered
before. -/
theorem abandoned_set_stays :
    let fresh : MockHandler := .new .default (.new ⟨1, false⟩)
    let registered : MockHandler := exec (call .dev) fresh
      ([.setValidatorSet 2 (createTestValidatorSet 2 4)] : List (Call TestAuthor TestProposerElection))
    let calls : List (Call TestAuthor TestProposerElection) :=
      [.prepareReconfig 2, .beginReconfig (createTestValidatorSet 2 1), .cancel]
    (fresh.prepareReconfig .dev 2).1 = .ok () ∧ fresh.validatorSet 2 = none ∧
      (exec (call .dev) fresh calls).validatorSet 2 = some (createTestValidatorSet 2 1) ∧
      exec (call .dev) fresh calls ≠ fresh ∧
      registered.validatorSet 2 = some (createTestValidatorSet 2 4) ∧
      (exec (call .dev) registered calls).validatorSet 2 = some (createTestValidatorSet 2 1) ∧
      exec (call .dev) registered calls ≠ registered := by
  intro fresh registered calls
  have absent : fresh.validatorSet 2 = none := by decide
  have left : (exec (call .dev) fresh calls).validatorSet 2 = some (createTestValidatorSet 2 1) := by decide
  have before : registered.validatorSet 2 = some (createTestValidatorSet 2 4) := by decide
  have after : (exec (call .dev) registered calls).validatorSet 2 = some (createTestValidatorSet 2 1) := by decide
  refine ⟨by decide, absent, left, ?_, before, after, ?_⟩
  · intro same
    rw [same, absent] at left
    cases left
  · intro same
    rw [same, before] at after
    exact absurd after (by decide)

end AptosBft.Proofs.Reconfig
