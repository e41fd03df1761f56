import AptosBft.Lib.Ledger
import AptosBft.Proofs.Reconfig

/-! Epochs follow one another. The epoch manager counts its transitions, and the handler
goes through one reconfiguration after another and keeps the validator set of each epoch
it has seen. -/

namespace AptosBft.Proofs.Epochs
open Rust Mealy AptosBft.Proofs.Reconfig

section Manager
open AptosBft.EpochManager

abbrev EpochEvent := Event EpochManager Call (Outcome EpochTransitionError Unit)

/-- The epoch a call asks for, in the manager it is made to. -/
def asked (manager : EpochManager) : Call → Nat
  | .startNewEpoch epoch _ => epoch.val
  | .forceNextEpoch _ => manager.epoch.val + 1

/-- What the last epoch does to `force_next_epoch`: its successor does not exist. -/
def atTheEnd (manager : EpochManager) : Profile → Outcome EpochTransitionError Unit
  | .dev => .error (.panic .overflow)
  | .release => .error (.err (.oldEpoch manager.epoch 0))

/-- A call moves on by one epoch or changes nothing. -/
structure Transition (profile : Profile) (current : EpochEvent) : Prop where
  moves : current.output = .ok () ↔ asked current.before current.input = current.before.epoch.val + 1 ∧ current.before.epoch < u64Max
  next : current.output = .ok () → current.after.epoch.val = current.before.epoch.val + 1 ∧
    current.after.epochState.startTime = current.input.now
  kept : current.output ≠ .ok () → current.after = current.before
  forced : ∀ now, current.input = .forceNextEpoch now → current.before.epoch = u64Max → current.output = atTheEnd current.before profile

theorem startNewEpoch_transition (profile : Profile) (manager : EpochManager) (epoch now : U64) :
    Transition profile (event (call profile) manager (.startNewEpoch epoch now)) := by
  have other : ∀ later, (.startNewEpoch epoch now : Call) ≠ .forceNextEpoch later := by simp
  obtain ⟨different, failure, failed⟩ | ⟨same, started⟩ := startNewEpoch_cases profile manager epoch now
  · refine ⟨?_, ?_, ?_, fun later same => absurd same (other later)⟩
    · simp [event, call, failed, asked, different]
    · simp [event, call, failed]
    · simp [event, call, failed]
  · refine ⟨?_, ?_, ?_, fun later same => absurd same (other later)⟩
    · simp [event, call, started, asked, same, U64.lt_max_of_successor same]
    · simp only [event, call, started]
      exact fun _ => ⟨same, rfl⟩
    · simp [event, call, started]

theorem forceNextEpoch_transition (profile : Profile) (manager : EpochManager) (now : U64) :
    Transition profile (event (call profile) manager (.forceNextEpoch now)) := by
  obtain ⟨next, sum, following⟩ | ⟨last, ends⟩ := U64.plus_one_cases profile manager.epoch
  · have same : call profile manager (.forceNextEpoch now) = call profile manager (.startNewEpoch next now) := by
      simp only [call, forceNextEpoch, sum]
    have transition := startNewEpoch_transition profile manager next now
    simp only [event, ← same] at transition
    have wanted : next.val = manager.epoch.val + 1 ∧ manager.epoch < u64Max ↔
        manager.epoch.val + 1 = manager.epoch.val + 1 ∧ manager.epoch < u64Max := by rw [following]
    refine ⟨transition.moves.trans wanted, transition.next, transition.kept, ?_⟩
    intro _ _ atLast
    exact absurd atLast (U64.lt_max_of_successor following).ne
  · have stopped : call profile manager (.forceNextEpoch now) = (atTheEnd manager profile, manager) := by
      obtain ⟨rfl, panics⟩ | ⟨rfl, wraps⟩ := ends
      · simp only [call, forceNextEpoch, panics, atTheEnd]
      · simp only [call, forceNextEpoch, wraps, startNewEpoch, atTheEnd, if_pos (Fin.zero_le manager.epoch)]
    have failed : atTheEnd manager profile ≠ .ok () := by cases profile <;> simp [atTheEnd]
    refine ⟨?_, ?_, ?_, ?_⟩
    · simp [event, stopped, failed, asked, last]
    · simp [event, stopped, failed]
    · simp [event, stopped]
    · simp [event, stopped]

theorem call_transition (profile : Profile) (manager : EpochManager) (input : Call) :
    Transition profile (event (call profile) manager input) := by
  cases input with
  | startNewEpoch epoch now => exact startNewEpoch_transition profile manager epoch now
  | forceNextEpoch now => exact forceNextEpoch_transition profile manager now

def transitions (current : EpochEvent) : Nat := if current.output = .ok () then 1 else 0

/-- The epoch is the first one and the transitions since, whichever way they were asked
for, and it started when the last of them was made. -/
theorem epochs_count_transitions (profile : Profile) (config : EpochManagerConfig) (calls : List Call) :
    let run := trace (call profile) (EpochManager.new config) calls
    let final := exec (call profile) (EpochManager.new config) calls
    (∀ current ∈ run, Transition profile current) ∧
    final.epoch.val = config.initialEpoch.val + (run.map transitions).sum ∧
    final.epochState.startTime =
      (run.filterMap fun current => if current.output = .ok () then some current.input.now else none).getLast?.getD 0 := by
  intro run final
  refine ⟨?_, ?_, ?_⟩
  · rw [← meets_iff_trace]
    intro past current rest cut
    obtain ⟨_, _, _, _, here, _⟩ := trace_split _ cut
    rw [here]
    exact call_transition profile _ _
  · refine counter_balance (fun manager => manager.epoch.val) ?_ (EpochManager.new config) calls
    intro manager input
    have transition := call_transition profile manager input
    unfold transitions
    split
    next moved => exact (transition.next moved).1
    next stayed => exact congrArg (fun manager => manager.epoch.val) (transition.kept stayed)
  · refine latest_write (fun manager => manager.epochState.startTime) ?_ (EpochManager.new config) calls
    intro manager input
    have transition := call_transition profile manager input
    split
    next moved => exact (transition.next moved).2
    next stayed => exact congrArg (fun manager => manager.epochState.startTime) (transition.kept stayed)

end Manager

section History
open AptosBft.ReconfigHandler
variable {N E : Type}

/-- The set that a call stores for an epoch. -/
def storedSet (epoch : U64) (current : ReconfigStep N E) : Option (ValidatorSet N) :=
  match current.input, current.output with
  | .setValidatorSet named validatorSet, _ => if named = epoch then some validatorSet else none
  | .beginReconfig validatorSet, .done (.ok ()) => if current.before.status.newEpoch = some epoch then some validatorSet else none
  | _, _ => none

theorem lookup_insert_or (sets : Finmap fun _ : U64 => ValidatorSet N) (named epoch : U64) (validatorSet : ValidatorSet N) :
    (sets.insert named validatorSet).lookup epoch =
      (if named = epoch then some validatorSet else none).or (sets.lookup epoch) := by
  by_cases same : named = epoch
  · subst same
    simp [Finmap.lookup_insert]
  · rw [Finmap.lookup_insert_of_ne _ (fun equal => same equal.symm)]
    simp [same]

/-- The other calls store no set. -/
theorem sets_kept (profile : Profile) (handler : ReconfigHandler N E) {input : Call N E}
    (notBegun : ∀ validatorSet, input ≠ .beginReconfig validatorSet)
    (notSupplied : ∀ epoch validatorSet, input ≠ .setValidatorSet epoch validatorSet) :
    (call profile handler input).2.validatorSets = handler.validatorSets := by
  have moves := call_moves profile handler input
  generalize call profile handler input = answer at moves ⊢
  obtain ⟨reply, after⟩ := answer
  cases moves with
  | begun => exact absurd rfl (notBegun _)
  | supplied => exact absurd rfl (notSupplied _ _)
  | _ => rfl

theorem validatorSet_step (profile : Profile) (epoch : U64) (handler : ReconfigHandler N E) (input : Call N E) :
    (call profile handler input).2.validatorSet epoch =
      (storedSet epoch (event (call profile) handler input)).or (handler.validatorSet epoch) := by
  cases input with
  | setValidatorSet named validatorSet => exact lookup_insert_or _ _ _ _
  | beginReconfig validatorSet =>
    have moves := call_moves profile handler (.beginReconfig validatorSet)
    simp only [event]
    generalize call profile handler (.beginReconfig validatorSet) = answer at moves ⊢
    obtain ⟨reply, after⟩ := answer
    cases moves with
    | refused => rfl
    | begun ready =>
      simp only [storedSet, ready, ReconfigStatus.newEpoch, Option.some.injEq]
      exact lookup_insert_or _ _ _ _
    | quiet _ _ notBegun => exact absurd rfl (notBegun validatorSet)
  | _ => refine congrArg (fun sets => sets.lookup epoch) (sets_kept profile handler ?_ ?_) <;> simp

/-- The set of an epoch is the one that was stored for it last. None is ever lost. -/
theorem sets_stored_last (profile : Profile) (config : ReconfigConfig) (epochManager : EpochManager) (calls : List (Call N E))
    (epoch : U64) :
    (exec (call profile) (ReconfigHandler.new config epochManager) calls).validatorSet epoch =
      ((trace (call profile) (ReconfigHandler.new config epochManager) calls).filterMap (storedSet epoch)).getLast? := by
  have latest := latest_entry (fun handler => handler.validatorSet epoch) (validatorSet_step profile epoch) (ReconfigHandler.new config epochManager) calls
  rw [latest]
  exact Option.or_none

end History

section Successive
open AptosBft.ReconfigHandler
variable {N E : Type}

/-- The calls of one whole reconfiguration. -/
def cycle (next : U64) (validatorSet : ValidatorSet N) (now : U64) : List (Call N E) :=
  [.prepareReconfig next, .beginReconfig validatorSet, .updateProgress validatorSet.len, .completeReconfig now]

/-- One reconfiguration after another, each with its validator set and the time it is
completed at. -/
def cycles (epoch : U64) : List (ValidatorSet N × U64) → List (Call N E)
  | [] => []
  | (validatorSet, now) :: rest => cycle (epoch + 1) validatorSet now ++ cycles (epoch + 1) rest

/-- What a whole reconfiguration leaves behind. -/
def installed (handler : ReconfigHandler N E) (next : U64) (validatorSet : ValidatorSet N) (now : U64) : ReconfigHandler N E :=
  { handler with
    epochManager := { handler.epochManager with epochState := ⟨next, now⟩ }
    status := .idle
    validatorSets := handler.validatorSets.insert next validatorSet }

theorem cycle_completes (profile : Profile) {handler : ReconfigHandler N E} (free : handler.status.isInProgress = false)
    {next : U64} (following : next.val = handler.currentEpoch.val + 1) {validatorSet : ValidatorSet N}
    (members : validatorSet.isEmpty = false) (now : U64) :
    (∀ current ∈ trace (call profile) handler (cycle next validatorSet now), current.output = .done (.ok ())) ∧
      exec (call profile) handler (cycle next validatorSet now) = installed handler next validatorSet now := by
  have sum : U64.plus profile handler.currentEpoch 1 = .ok next := by
    obtain ⟨other, sum, value⟩ := U64.plus_one_of_lt profile (U64.lt_max_of_successor following)
    rw [sum, Fin.ext (value.trans following.symm)]
  have prepared : handler.prepareReconfig profile next =
      (.ok (), { handler with status := .preparing handler.currentEpoch next }) := by
    simp [prepareReconfig, free, sum]
  obtain ⟨other, _⟩ | ⟨_, started⟩ := startNewEpoch_cases profile handler.epochManager next now
  · exact absurd following other
  · simp [cycle, event, call, prepared, beginReconfig, members, returned, updateProgress, completeReconfig, started, installed]

/-- Every reconfiguration of a series goes through, and each epoch keeps the set it was
entered with. -/
theorem reconfigurations_follow (profile : Profile) (handler : ReconfigHandler N E) (free : handler.status.isInProgress = false)
    (sets : List (ValidatorSet N × U64)) (room : handler.currentEpoch.val + sets.length ≤ u64Max.val)
    (members : ∀ entry ∈ sets, entry.1.isEmpty = false) :
    let run := trace (call profile) handler (cycles handler.currentEpoch sets)
    let final := exec (call profile) handler (cycles handler.currentEpoch sets)
    (∀ current ∈ run, current.output = .done (.ok ())) ∧
    final.currentEpoch.val = handler.currentEpoch.val + sets.length ∧
    (∀ index entry, sets[index]? = some entry → ∀ epoch : U64, epoch.val = handler.currentEpoch.val + index + 1 →
      final.validatorSet epoch = some entry.1) ∧
    ∀ epoch ≤ handler.currentEpoch, final.validatorSet epoch = handler.validatorSet epoch := by
  induction sets generalizing handler with
  | nil => exact ⟨by simp [cycles], rfl, by simp, fun _ _ => rfl⟩
  | cons entry rest ih =>
    obtain ⟨validatorSet, now⟩ := entry
    have last : u64Max.val = 18446744073709551615 := rfl
    rw [List.length_cons] at room
    have following : (handler.currentEpoch + 1).val = handler.currentEpoch.val + 1 := by
      rw [Fin.val_add]
      exact Nat.mod_eq_of_lt (by change handler.currentEpoch.val + 1 < 18446744073709551616; omega)
    obtain ⟨answered, reached⟩ := cycle_completes profile free following (members _ List.mem_cons_self) now
    have later := ih (installed handler (handler.currentEpoch + 1) validatorSet now) rfl
      (by change (handler.currentEpoch + 1).val + rest.length ≤ _; omega)
      (fun entry member => members entry (List.mem_cons_of_mem _ member))
    have epoch : (installed handler (handler.currentEpoch + 1) validatorSet now).currentEpoch = handler.currentEpoch + 1 := rfl
    simp only [epoch] at later
    obtain ⟨answers, counted, entered, kept⟩ := later
    simp only [cycles, trace_append, exec_append, reached]
    refine ⟨?_, ?_, ?_, ?_⟩
    · intro current member
      obtain early | late := List.mem_append.mp member
      · exact answered current early
      · exact answers current late
    · rw [counted, following, List.length_cons]
      omega
    · intro index entry found epoch value
      cases index with
      | zero =>
        cases found
        have same : epoch = handler.currentEpoch + 1 := Fin.ext (value.trans following.symm)
        rw [same, kept _ le_rfl]
        exact Finmap.lookup_insert _
      | succ index => exact entered index entry found epoch (by rw [value, following]; omega)
    · intro epoch below
      have before : epoch ≠ handler.currentEpoch + 1 := by
        intro same
        rw [same, Fin.le_def, following] at below
        omega
      rw [kept epoch (by rw [Fin.le_def] at below ⊢; omega)]
      exact Finmap.lookup_insert_of_ne _ before

end Successive

theorem tested_reconfigurations_follow :
    let handler : MockHandler := .new .default (.new ⟨1, false⟩)
    let sets : List (ValidatorSet TestAuthor × U64) := [(createTestValidatorSet 2 4, 7), (createTestValidatorSet 3 5, 9)]
    let final := exec (ReconfigHandler.call .dev) handler (cycles handler.currentEpoch sets)
    final.currentEpoch.val = 1 + 2 ∧ final.validatorSet 2 = some (createTestValidatorSet 2 4) ∧
      final.currentValidatorSet = some (createTestValidatorSet 3 5) := by
  intro handler sets final
  have members : ∀ entry ∈ sets, entry.1.isEmpty = false := by
    simp only [sets, List.forall_mem_cons, List.not_mem_nil, false_implies, implies_true, and_true]
    decide
  obtain ⟨_, counted, entered, _⟩ := reconfigurations_follow .dev handler rfl sets (by decide) members
  refine ⟨counted, entered 0 _ rfl 2 rfl, ?_⟩
  have current : final.currentEpoch = 3 := Fin.ext counted
  rw [ReconfigHandler.currentValidatorSet, current]
  exact entered 1 _ rfl 3 rfl

end AptosBft.Proofs.Epochs
