import AptosBft.Calls
import AptosBft.Lib.Mealy
import AptosBft.Testing

/-! The pacemaker over whole runs. Two rounds move on their own, the one entered and the
one ordered, and a timeout depends on how far the first is ahead of the second. -/

namespace AptosBft.Proofs.Pacemaker
open Rust Mealy AptosBft.Pacemaker

variable {I F : Type} [RoundIntervalStrategy I] {profile : Profile} {pacemaker : Pacemaker I F} {round : U64}

/-- How far a round is ahead of the one after the last ordered one: 0 there and before. -/
def sinceOrdered (highestOrdered round : U64) : U64 := ⟨round.val - highestOrdered.val - 1, by omega⟩

def reasonOf (index : U64) : NewRoundReason := if index = 0 then .quorumCertificate else .timeout index

section Steps

theorem saturatingSub_next {highestOrdered next : U64} (following : next.val = highestOrdered.val + 1) (round : U64) :
    round.saturatingSub next = sinceOrdered highestOrdered round := by
  apply Fin.ext
  change round.val - next.val = round.val - highestOrdered.val - 1
  omega

theorem enterNewRound_eq (profile : Profile) (room : pacemaker.highestOrderedRound < u64Max) (new : pacemaker.currentRound < round) :
    pacemaker.enterNewRound profile round =
      (.ok ⟨round, reasonOf (sinceOrdered pacemaker.highestOrderedRound round),
        RoundIntervalStrategy.getRoundDuration pacemaker.intervalStrategy (sinceOrdered pacemaker.highestOrderedRound round)⟩,
      { pacemaker with currentRound := round }) := by
  have allowed : ¬(!pacemaker.canEnterRound round) = true := by simpa [canEnterRound] using new
  obtain ⟨next, sum, following⟩ := U64.plus_one_of_lt profile room
  simp only [enterNewRound, if_neg allowed, sum, saturatingSub_next following, reasonOf, beq_iff_eq]

/-- A round that may be entered is entered, unless counting the rounds since the
last ordered one overflows. -/
theorem enterNewRound_cases (profile : Profile) (pacemaker : Pacemaker I F) (round : U64) :
    (∃ failure, pacemaker.enterNewRound profile round = (.error failure, pacemaker) ∧
      (pacemaker.highestOrderedRound ≠ u64Max → round ≤ pacemaker.currentRound)) ∨
    ∃ entered, pacemaker.currentRound < round ∧
      pacemaker.enterNewRound profile round = (.ok entered, { pacemaker with currentRound := round }) := by
  simp only [enterNewRound, canEnterRound, gt_iff_lt]
  by_cases later : pacemaker.currentRound < round
  case neg => exact Or.inl ⟨_, if_pos (by simpa using not_lt.mp later), fun _ => not_lt.mp later⟩
  rw [if_neg (by simpa using later)]
  obtain ⟨next, sum, _⟩ | ⟨overflows, panics | wraps⟩ := U64.plus_cases profile pacemaker.highestOrderedRound 1
  · simp only [sum]
    exact Or.inr ⟨_, later, rfl⟩
  · simp only [panics]
    exact Or.inl ⟨_, rfl, fun room => absurd (U64.eq_max_of_overflow overflows) room⟩
  · simp only [wraps]
    exact Or.inr ⟨_, later, rfl⟩

theorem enterNewRound_refused (old : round ≤ pacemaker.currentRound) :
    ∃ error, ∀ profile, pacemaker.enterNewRound profile round = (.error (.err error), pacemaker) := by
  have refused : (!pacemaker.canEnterRound round) = true := by simpa [canEnterRound] using old
  exact ⟨_, fun profile => if_pos refused⟩

theorem currentRoundTimeout_eq (profile : Profile) (room : pacemaker.highestOrderedRound < u64Max) :
    pacemaker.currentRoundTimeout profile = .ok (RoundIntervalStrategy.getRoundDuration pacemaker.intervalStrategy
      (sinceOrdered pacemaker.highestOrderedRound pacemaker.currentRound)) := by
  obtain ⟨next, sum, following⟩ := U64.plus_one_of_lt profile room
  rw [currentRoundTimeout, sum, ← saturatingSub_next following]
  rfl

/-- What a call can do while counting from the last ordered round does not overflow. -/
theorem call_cases (profile : Profile) (room : pacemaker.highestOrderedRound < u64Max) (input : Call) :
    (∃ error, (call profile pacemaker input = (.entered (.error (.err error)), pacemaker) ∨
      call profile pacemaker input = (.recorded (.error error), pacemaker))) ∨
    (∃ round, input = .enterNewRound round ∧ pacemaker.currentRound < round ∧ call profile pacemaker input =
      (.entered (.ok ⟨round, reasonOf (sinceOrdered pacemaker.highestOrderedRound round),
        RoundIntervalStrategy.getRoundDuration pacemaker.intervalStrategy (sinceOrdered pacemaker.highestOrderedRound round)⟩),
      { pacemaker with currentRound := round })) ∨
    ∃ round, input = .recordOrderedRound round ∧ pacemaker.highestOrderedRound < round ∧
      call profile pacemaker input = (.recorded (.ok ()), { pacemaker with highestOrderedRound := round }) := by
  cases input with
  | enterNewRound round =>
    simp only [call]
    by_cases new : pacemaker.currentRound < round
    · rw [enterNewRound_eq profile room new]
      exact Or.inr (Or.inl ⟨round, rfl, new, rfl⟩)
    · obtain ⟨error, refused⟩ := enterNewRound_refused (not_lt.mp new)
      rw [refused profile]
      exact Or.inl ⟨error, Or.inl rfl⟩
  | recordOrderedRound round =>
    simp only [call, recordOrderedRound]
    by_cases old : round ≤ pacemaker.highestOrderedRound
    · rw [if_pos old]
      exact Or.inl ⟨_, Or.inr rfl⟩
    · rw [if_neg old]
      exact Or.inr (Or.inr ⟨round, rfl, not_le.mp old, rfl⟩)

end Steps

/-- The law of a single call, for the strategy the pacemaker was made with. -/
structure Lawful (profile : Profile) (strategy : I) (current : Event (Pacemaker I F) Call Reply) : Prop where
  returns : ∀ reason, current.output ≠ .entered (.error (.panic reason))
  refused : ∀ error, current.output = .entered (.error (.err error)) ∨ current.output = .recorded (.error error) →
    current.after = current.before
  entered : ∀ round event, current.input = .enterNewRound round → current.output = .entered (.ok event) →
    current.before.currentRound < current.after.currentRound ∧
    current.after = { current.before with currentRound := round } ∧
    event = ⟨round, reasonOf (sinceOrdered current.before.highestOrderedRound round),
      RoundIntervalStrategy.getRoundDuration strategy (sinceOrdered current.before.highestOrderedRound round)⟩ ∧
    current.after.currentRoundTimeout profile = .ok event.timeoutDuration
  recorded : ∀ round, current.input = .recordOrderedRound round → current.output = .recorded (.ok ()) →
    current.before.highestOrderedRound < current.after.highestOrderedRound ∧
    current.after = { current.before with highestOrderedRound := round }

/-- The last ordered round can still be counted from. -/
structure Paced (strategy : I) (pacemaker : Pacemaker I F) : Prop where
  strategy : pacemaker.intervalStrategy = strategy
  room : pacemaker.highestOrderedRound < u64Max

section Runs
variable {strategy : I}

omit [RoundIntervalStrategy I] in
theorem Paced.new (strategy : I) (config : PacemakerConfig F) : Paced strategy (.new strategy config) where
  strategy := rfl
  room := by
    have bound := config.initialRound.isLt
    change config.initialRound.val - 1 < 18446744073709551615
    omega

theorem Paced.call (paced : Paced strategy pacemaker) {input : Call} (below : input ≠ .recordOrderedRound u64Max)
    (profile : Profile) : Paced strategy (call profile pacemaker input).2 := by
  obtain ⟨_, refused | refused⟩ | ⟨round, _, _, entered⟩ | ⟨round, rfl, _, recorded⟩ := call_cases profile paced.room input
  · rw [refused]
    exact paced
  · rw [refused]
    exact paced
  · rw [entered]
    exact ⟨paced.strategy, paced.room⟩
  · rw [recorded]
    refine ⟨paced.strategy, lt_of_le_of_ne (Fin.le_last round) ?_⟩
    intro last
    exact below (congrArg Call.recordOrderedRound last)

theorem Paced.lawful (paced : Paced strategy pacemaker) (profile : Profile) (input : Call) :
    Lawful profile strategy (event (AptosBft.Pacemaker.call profile) pacemaker input) := by
  obtain ⟨rfl, room⟩ := paced
  obtain ⟨error, refused | refused⟩ | ⟨round, rfl, new, entered⟩ | ⟨round, rfl, higher, recorded⟩ := call_cases profile room input
  · rw [event, refused]
    exact ⟨by simp, fun _ _ => rfl, by simp, by simp⟩
  · rw [event, refused]
    exact ⟨by simp, fun _ _ => rfl, by simp, by simp⟩
  · rw [event, entered]
    refine ⟨by simp, by simp, ?_, by simp⟩
    intro other event same answered
    cases same
    cases answered
    exact ⟨new, rfl, rfl, currentRoundTimeout_eq profile room⟩
  · rw [event, recorded]
    refine ⟨by simp, by simp, by simp, ?_⟩
    intro other same _
    cases same
    exact ⟨higher, rfl⟩

/-- Both rounds only move forward, and the ordered one by successful records only. -/
theorem call_forward (profile : Profile) (pacemaker : Pacemaker I F) (input : Call) :
    pacemaker.currentRound ≤ (call profile pacemaker input).2.currentRound ∧
    pacemaker.highestOrderedRound ≤ (call profile pacemaker input).2.highestOrderedRound ∧
    ((call profile pacemaker input).1 ≠ .recorded (.ok ()) →
      (call profile pacemaker input).2.highestOrderedRound = pacemaker.highestOrderedRound) := by
  cases input with
  | enterNewRound round =>
    simp only [call]
    obtain ⟨failure, refused, _⟩ | ⟨entered, new, moved⟩ := enterNewRound_cases profile pacemaker round
    · rw [refused]
      exact ⟨le_rfl, le_rfl, fun _ => rfl⟩
    · rw [moved]
      exact ⟨new.le, le_rfl, fun _ => rfl⟩
  | recordOrderedRound round =>
    simp only [call, recordOrderedRound]
    by_cases old : round ≤ pacemaker.highestOrderedRound
    · rw [if_pos old]
      exact ⟨le_rfl, le_rfl, fun _ => rfl⟩
    · rw [if_neg old]
      exact ⟨le_rfl, (not_le.mp old).le, fun failed => absurd rfl failed⟩

theorem exec_forward (profile : Profile) (pacemaker : Pacemaker I F) (calls : List Call) :
    pacemaker.currentRound ≤ (exec (call profile) pacemaker calls).currentRound ∧
    pacemaker.highestOrderedRound ≤ (exec (call profile) pacemaker calls).highestOrderedRound := by
  induction calls generalizing pacemaker with
  | nil => exact ⟨le_rfl, le_rfl⟩
  | cons input rest ih =>
    obtain ⟨current, ordered, _⟩ := call_forward profile pacemaker input
    obtain ⟨later, further⟩ := ih (call profile pacemaker input).2
    exact ⟨current.trans later, ordered.trans further⟩

theorem exec_unordered {calls : List Call}
    (unordered : ∀ other ∈ trace (call profile) pacemaker calls, other.output ≠ .recorded (.ok ())) :
    (exec (call profile) pacemaker calls).highestOrderedRound = pacemaker.highestOrderedRound := by
  refine exec_of_trace (motive := fun later => later.highestOrderedRound = pacemaker.highestOrderedRound) unordered rfl ?_
  intro later input same here
  exact ((call_forward profile later input).2.2 here).trans same

theorem sinceOrdered_mono (highestOrdered : U64) : Monotone (sinceOrdered highestOrdered) := by
  intro round later before
  change round.val - highestOrdered.val - 1 ≤ later.val - highestOrdered.val - 1
  have ahead : round.val ≤ later.val := before
  omega

theorem sinceOrdered_eq_zero {highestOrdered : U64} (reached : round.val ≤ highestOrdered.val + 1) :
    sinceOrdered highestOrdered round = 0 := by
  apply Fin.ext
  change round.val - highestOrdered.val - 1 = 0
  omega

/-- Whether or not a record is accepted, the round is ordered after it. -/
theorem recordOrderedRound_reaches (profile : Profile) (pacemaker : Pacemaker I F) (round : U64) :
    round ≤ (call profile pacemaker (.recordOrderedRound round)).2.highestOrderedRound := by
  simp only [call, recordOrderedRound]
  by_cases old : round ≤ pacemaker.highestOrderedRound
  · rw [if_pos old]
    exact old
  · rw [if_neg old]

theorem entered_input {current : Event (Pacemaker I F) Call Reply} {calls : List Call}
    (member : current ∈ trace (call profile) pacemaker calls) {result : Outcome Error NewRoundEvent}
    (answered : current.output = .entered result) : ∃ round, current.input = .enterNewRound round := by
  obtain ⟨_, _, _, here⟩ := mem_trace _ member
  rw [here] at answered
  cases input : current.input with
  | enterNewRound round => exact ⟨round, rfl⟩
  | recordOrderedRound round =>
    rw [input] at answered
    cases answered

/-- From one step of a run to a later one. -/
theorem between_forward {calls : List Call} {past between rest : List (Event (Pacemaker I F) Call Reply)}
    {first second : Event (Pacemaker I F) Call Reply}
    (cut : trace (call profile) pacemaker calls = past ++ first :: (between ++ second :: rest)) :
    first.after.currentRound ≤ second.before.currentRound ∧
    first.after.highestOrderedRound ≤ second.before.highestOrderedRound ∧
    ((∀ other ∈ between, other.output ≠ .recorded (.ok ())) →
      second.before.highestOrderedRound = first.after.highestOrderedRound) := by
  obtain ⟨middle, rfl, here⟩ := trace_split_two _ cut
  rw [here]
  obtain ⟨current, ordered⟩ := exec_forward profile first.after middle
  exact ⟨current, ordered, exec_unordered⟩

theorem run_paced (profile : Profile) (paced : Paced strategy pacemaker) {calls : List Call}
    (bounded : ∀ input ∈ calls, input ≠ .recordOrderedRound u64Max) : Paced strategy (exec (call profile) pacemaker calls) := by
  refine exec_of_trace (motive := Paced strategy) (meets_iff_trace.mp (meets_of_forall bounded)) paced ?_
  intro pacemaker input paced below
  exact paced.call below profile

theorem run_lawful (profile : Profile) (paced : Paced strategy pacemaker) {calls : List Call}
    (bounded : ∀ input ∈ calls, input ≠ .recordOrderedRound u64Max) :
    ∀ current ∈ trace (call profile) pacemaker calls, Lawful profile strategy current := by
  refine forall_trace_derive (motive := Paced strategy) (meets_iff_trace.mp (meets_of_forall bounded)) paced ?_ ?_
  · intro pacemaker input paced below
    exact paced.call below profile
  · intro pacemaker input paced _
    exact paced.lawful profile input

section Between
variable {calls : List Call} {past between rest : List (Event (Pacemaker I F) Call Reply)}
  {first second : Event (Pacemaker I F) Call Reply}
  (lawful : ∀ current ∈ trace (call profile) pacemaker calls, Lawful profile strategy current)
  (cut : trace (call profile) pacemaker calls = past ++ first :: (between ++ second :: rest))
include lawful cut

theorem timeouts_rise (monotone : Monotone (RoundIntervalStrategy.getRoundDuration strategy))
    (unordered : ∀ other ∈ between, other.output ≠ .recorded (.ok ())) {entered later : NewRoundEvent}
    (answered : first.output = .entered (.ok entered)) (replied : second.output = .entered (.ok later)) :
    entered.timeoutDuration ≤ later.timeoutDuration := by
  obtain ⟨inside, within⟩ := mem_of_cut cut
  obtain ⟨ahead, _, held⟩ := between_forward cut
  obtain ⟨round, input⟩ := entered_input inside answered
  obtain ⟨next, asked⟩ := entered_input within replied
  obtain ⟨_, after, rfl, _⟩ := (lawful first inside).entered round entered input answered
  obtain ⟨increases, landed, rfl, _⟩ := (lawful second within).entered next later asked replied
  rw [held unordered, after]
  apply monotone
  apply sinceOrdered_mono
  rw [after] at ahead
  rw [landed] at increases
  exact ahead.trans increases.le

theorem ordered_resets {next : U64} {entered : NewRoundEvent} (input : first.input = .recordOrderedRound round)
    (following : next.val = round.val + 1) (asked : second.input = .enterNewRound next)
    (answered : second.output = .entered (.ok entered)) :
    entered.timeoutDuration = RoundIntervalStrategy.getRoundDuration strategy 0 := by
  obtain ⟨inside, within⟩ := mem_of_cut cut
  obtain ⟨_, ordered, _⟩ := between_forward cut
  obtain ⟨_, _, rfl, _⟩ := (lawful second within).entered next entered asked answered
  have reached : round ≤ first.after.highestOrderedRound := by
    obtain ⟨_, _, _, here⟩ := mem_trace _ inside
    rw [here, input]
    exact recordOrderedRound_reaches profile _ round
  have passed : round.val ≤ second.before.highestOrderedRound.val := reached.trans ordered
  rw [sinceOrdered_eq_zero (by omega)]

end Between
end Runs

/-- Every call of a run is lawful. Under a monotone strategy the timeouts never decrease
until a round is ordered, and the round after an ordered one gets the first of them. -/
theorem pacemaker_law (profile : Profile) (strategy : I) (config : PacemakerConfig F) (calls : List Call)
    (bounded : ∀ input ∈ calls, input.round < u64Max) :
    (∀ current ∈ trace (call profile) (.new strategy config) calls, Lawful profile strategy current) ∧
    (∀ (past between rest : List (Event (Pacemaker I F) Call Reply)) (first second : Event (Pacemaker I F) Call Reply),
      trace (call profile) (.new strategy config) calls = past ++ first :: (between ++ second :: rest) →
      (Monotone (RoundIntervalStrategy.getRoundDuration strategy) →
        (∀ other ∈ between, other.output ≠ .recorded (.ok ())) →
        ∀ entered later : NewRoundEvent, first.output = .entered (.ok entered) → second.output = .entered (.ok later) →
          entered.timeoutDuration ≤ later.timeoutDuration) ∧
      ∀ (round next : U64) (entered : NewRoundEvent), first.input = .recordOrderedRound round → next.val = round.val + 1 →
        second.input = .enterNewRound next → second.output = .entered (.ok entered) →
        entered.timeoutDuration = RoundIntervalStrategy.getRoundDuration strategy 0) := by
  have below : ∀ input ∈ calls, input ≠ .recordOrderedRound u64Max := by
    intro input member last
    have room := bounded input member
    rw [last] at room
    exact lt_irrefl _ room
  have lawful := run_lawful profile (.new strategy config) below
  refine ⟨lawful, ?_⟩
  intro past between rest first second cut
  refine ⟨?_, ?_⟩
  · intro monotone unordered entered later answered replied
    exact timeouts_rise lawful cut monotone unordered answered replied
  · intro round next entered input following asked answered
    exact ordered_resets lawful cut input following asked answered

theorem fixed_interval_lawful :
    let strategy : ExponentialIntervalStrategy Nat := ⟨100, 1, 0⟩
    let config : PacemakerConfig Nat := .default
    let calls : List Call := [.enterNewRound 2, .enterNewRound 7, .recordOrderedRound 7, .recordOrderedRound 3, .enterNewRound 8]
    (∀ current ∈ trace (call .dev) (.new strategy config) calls, Lawful .dev strategy current) ∧
    Monotone (RoundIntervalStrategy.getRoundDuration strategy) ∧
    (trace (call .dev) (.new strategy config) calls).map Event.output =
      [.entered (.ok ⟨2, .timeout 1, Duration.fromMillis 100⟩), .entered (.ok ⟨7, .timeout 6, Duration.fromMillis 100⟩),
        .recorded (.ok ()), .recorded (.error ⟨"Round 3 is not greater than highest ordered round 7"⟩),
        .entered (.ok ⟨8, .quorumCertificate, Duration.fromMillis 100⟩)] := by
  intro strategy config calls
  obtain ⟨lawful, _⟩ := pacemaker_law .dev strategy config calls (by decide)
  refine ⟨lawful, ?_, by decide⟩
  intro index later _
  have constant : ∀ index, strategy.pow index = 0 := fun index => min_eq_right (Fin.zero_le _)
  change Duration.fromMillis (Floating.toU64 (100 * 1 ^ (strategy.pow index).val)) ≤
    Duration.fromMillis (Floating.toU64 (100 * 1 ^ (strategy.pow later).val))
  rw [constant, constant]

end AptosBft.Proofs.Pacemaker
