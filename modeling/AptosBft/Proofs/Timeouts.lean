import AptosBft.Proofs.RoundManager
import AptosBft.Testing

/-! Local timeouts and timeout certificates. The manager asks the timeout rule
about the round after the one it gives up, without a certificate, so a timeout
succeeds in one round only: the one of the highest certificate. -/

namespace AptosBft.Proofs.Timeouts
open Rust Mealy Journal AptosBft.RoundManager AptosBft.Proofs.RoundManager

section Rule
variable {B V QC H S : Type} {profile : Profile} {manager : RoundManager B V QC H S}

theorem processTimeout_failed (failed : (manager.processTimeout profile).1 ≠ .ok ()) :
    (manager.processTimeout profile).2 = manager := by
  obtain ⟨failure, unchanged⟩ | ⟨_, _, _, moved⟩ := processTimeout_cases profile manager
  · rw [unchanged]
  · rw [moved] at failed
    exact absurd rfl failed

theorem processTimeout_moved (accepted : (manager.processTimeout profile).1 = .ok ()) :
    (manager.processTimeout profile).2.roundState.round.val = manager.roundState.round.val + 1 ∧
      (manager.processTimeout profile).2.safetyRules.state =
        apply manager.safetyRules.state (.timeout manager.roundState.round) := by
  obtain ⟨failure, failed⟩ | ⟨next, following, _, moved⟩ := processTimeout_cases profile manager
  · rw [failed] at accepted
    cases accepted
  · rw [moved]
    exact ⟨following, SafetyRules.recordTimeout_state _ _⟩

/-- The rule is asked about the successor of the current round, with the highest
certified round as the round of the QC. -/
theorem processTimeout_ok_iff :
    (manager.processTimeout profile).1 = .ok () ↔
      manager.roundState.round = manager.safetyRules.state.oneChainRound ∧ manager.roundState.round < u64Max := by
  constructor
  · intro accepted
    obtain ⟨failure, failed⟩ | ⟨next, following, rule, _⟩ := processTimeout_cases profile manager
    · rw [failed] at accepted
      cases accepted
    · exact ⟨Fin.ext (by omega), U64.lt_max_of_successor following⟩
  · intro both
    obtain ⟨certified, room⟩ := both
    have below : manager.roundState.round.val < 18446744073709551615 := room
    simp only [processTimeout]
    obtain ⟨next, sum, following⟩ | ⟨overflows, _⟩ := U64.plus_cases profile manager.roundState.round 1
    · have safe : manager.safetyRules.safeToTimeoutImpl next manager.safetyRules.state.oneChainRound none = .ok () :=
        SafetyRules.safeToTimeout_none.mpr ⟨by rw [← certified]; exact following, le_rfl⟩
      simp only [sum, safe, RoundState.advanceRound]
      rfl
    · rw [U64.eq_max_of_overflow overflows] at room
      exact absurd room (lt_irrefl _)

/-- The manager applies the documented rule to the round that times out, and a
timeout does what was allowed or nothing. -/
structure Timely (T : Type) (profile : Profile) (manager : RoundManager B V QC H S) : Prop where
  asked : (manager.processTimeout profile).1 = .ok () ↔
    manager.safetyRules.safeToTimeout manager.roundState.round manager.safetyRules.state.oneChainRound
      (none : Option (TwoChainTimeoutCertificate T)) = .ok ()
  moves : (manager.processTimeout profile).1 = .ok () →
    (manager.processTimeout profile).2.roundState.round.val = manager.roundState.round.val + 1 ∧
    (manager.processTimeout profile).2.safetyRules.state.highestTimeoutRound =
      max manager.safetyRules.state.highestTimeoutRound manager.roundState.round
  keeps : (manager.processTimeout profile).1 ≠ .ok () → (manager.processTimeout profile).2 = manager

/-- The code times out in the certified round, the rule allows it in the next one;
elsewhere both refuse. -/
theorem timely_iff (T : Type) (profile : Profile) (manager : RoundManager B V QC H S)
    (room : manager.roundState.round < u64Max) :
    Timely T profile manager ↔
      manager.roundState.round ≠ manager.safetyRules.state.oneChainRound ∧
      manager.roundState.round.val ≠ manager.safetyRules.state.oneChainRound.val + 1 := by
  have rule : manager.safetyRules.safeToTimeout manager.roundState.round manager.safetyRules.state.oneChainRound
      (none : Option (TwoChainTimeoutCertificate T)) = .ok () ↔
        manager.roundState.round.val = manager.safetyRules.state.oneChainRound.val + 1 := by
    have asked := @SafetyRules.safeToTimeout_none manager.safetyRules manager.roundState.round
      manager.safetyRules.state.oneChainRound
    rwa [and_iff_left le_rfl] at asked
  constructor
  · intro timely
    have same := timely.asked
    rw [rule, processTimeout_ok_iff, and_iff_left room, Fin.ext_iff] at same
    rw [ne_eq, Fin.ext_iff]
    omega
  · intro both
    obtain ⟨apart, notNext⟩ := both
    refine ⟨?_, ?_, processTimeout_failed⟩
    · rw [rule, processTimeout_ok_iff]
      exact iff_of_false (fun certified => apart certified.1) notNext
    · intro accepted
      obtain ⟨moved, recorded⟩ := processTimeout_moved accepted
      exact ⟨moved, by rw [recorded]; rfl⟩

end Rule

theorem uncertified_round_timely :
    let manager : MockManager := exec (call .dev) (.new .default (.new 0)) ([.startRound 5] : List MockCall)
    manager.roundState.round = 5 ∧ Timely MockSignature .dev manager := by
  refine ⟨rfl, (timely_iff MockSignature .dev _ (by decide)).mpr ?_⟩
  decide

/-- In round 0 the manager times out against the rule; in round 1, where the rule
allows the timeout, it refuses. -/
theorem timeout_one_round_early :
    let first : MockManager := .new .default (.new 0)
    let second : MockManager := exec (call .dev) first ([.startRound 1] : List MockCall)
    ((first.processTimeout .dev).1 = .ok () ∧
      first.safetyRules.safeToTimeout 0 0 (none : Option (TwoChainTimeoutCertificate MockSignature)) ≠ .ok () ∧
      ¬ Timely MockSignature .dev first) ∧
    ((second.processTimeout .dev).1 ≠ .ok () ∧
      second.safetyRules.safeToTimeout 1 0 (none : Option (TwoChainTimeoutCertificate MockSignature)) = .ok () ∧
      ¬ Timely MockSignature .dev second) := by
  intro first second
  have early : (first.processTimeout .dev).1 = .ok () := by decide
  have unsafeFirst : first.safetyRules.safeToTimeout 0 0 (none : Option (TwoChainTimeoutCertificate MockSignature)) ≠ .ok () := by
    decide
  have refused : (second.processTimeout .dev).1 ≠ .ok () := by decide
  have allowed : second.safetyRules.safeToTimeout 1 0 (none : Option (TwoChainTimeoutCertificate MockSignature)) = .ok () := by
    decide
  exact ⟨⟨early, unsafeFirst, fun timely => unsafeFirst (timely.asked.mp early)⟩,
    refused, allowed, fun timely => refused (timely.asked.mpr allowed)⟩

section Wedge
variable {B V QC H N S A T : Type} [DecidableEq H] [DecidableEq N] [DecidableEq S]
  [Block B H] [Vote V B H N S A] [QuorumCertificate QC H] [FromVotes QC V A]

/-- A step without progress: no QC is formed or observed, a timeout certificate
carries no later QC than the known one, and no round is entered from outside. Any
other calls may come in between. -/
def Barren (current : ManagerEvent B V QC H N S A T) : Prop :=
  match current.input with
  | .processVote .. => current.output ≠ .vote (.ok .quorumCompleted)
  | .startRound _ => False
  | .rules (.observeQc _) => False
  | .rules (.observeTc tc) => tc.hqcRound ≤ current.before.safetyRules.state.oneChainRound
  | _ => True

def isTimeout : Call B V QC N S A T → Bool
  | .processTimeout => true
  | _ => false

/-- The manager has left the round of the highest certificate it knows. -/
def Wedged (round : U64) (manager : RoundManager B V QC H S) : Prop :=
  manager.roundState.round = round ∧ manager.safetyRules.state.oneChainRound < round

omit [DecidableEq H] [DecidableEq S] [Block B H] [QuorumCertificate QC H] in
theorem Wedged.refuses {profile : Profile} {round : U64} {manager : RoundManager B V QC H S} (wedged : Wedged round manager) :
    (manager.processTimeout profile).1 ≠ .ok () := by
  obtain ⟨rfl, below⟩ := wedged
  intro accepted
  exact below.ne' (processTimeout_ok_iff.mp accepted).1

theorem barren_capped {profile : Profile} {manager : RoundManager B V QC H S} {input : Call B V QC N S A T}
    (barren : Barren (event (call profile) manager input)) :
    ∀ round ∈ (recorded (event (call profile) manager input)).flatMap Update.certified,
      round ≤ manager.safetyRules.state.oneChainRound := by
  intro round reported
  obtain ⟨order, vote, verifier, rfl, completed⟩ | ⟨inner, reply, rfl, reported⟩ := certified_recorded reported
  · exact absurd completed barren
  · obtain ⟨qc, rfl, _⟩ | ⟨tc, rfl, rfl⟩ := SafetyRules.certified_recorded reported
    · exact barren.elim
    · exact barren

theorem Wedged.step {profile : Profile} {round : U64} {manager : RoundManager B V QC H S} (wedged : Wedged round manager)
    {input : Call B V QC N S A T} (barren : Barren (event (call profile) manager input)) :
    Wedged round (call profile manager input).2 := by
  refine ⟨?_, ?_⟩
  · rw [← wedged.1]
    cases input with
    | processTimeout => exact congrArg (·.roundState.round) (processTimeout_failed wedged.refuses)
    | startRound started => exact barren.elim
    | _ => exact call_round profile manager (by simp) (by simp)
  · rw [call_replays, replay_oneChainRound_capped (barren_capped barren)]
    exact wedged.2

theorem Wedged.run {profile : Profile} {round : U64} {manager : RoundManager B V QC H S} (wedged : Wedged round manager)
    {calls : List (Call B V QC N S A T)} (barren : ∀ current ∈ trace (call profile) manager calls, Barren current) :
    Wedged round (exec (call profile) manager calls) ∧
      ∀ current ∈ trace (call profile) manager calls, current.input = .processTimeout → current.output ≠ .timeout (.ok ()) := by
  have meets : Meets (call profile) (fun _ => Barren) manager calls := meets_iff_trace.mpr barren
  refine ⟨?_, ?_⟩
  · apply meets.history (motive := fun _ manager => Wedged round manager) wedged
    intro _ current input here barren
    exact here.step barren
  · refine forall_trace_derive barren wedged ?_ ?_
    · intro current input here barren
      exact here.step barren
    · rintro current input here _ (rfl : input = .processTimeout) answered
      exact here.refuses (Reply.timeout.inj answered)

/-- After a timeout, in any stretch without progress, a further timeout is refused,
whatever timeout certificates the rules were shown. -/
theorem timeouts_go_on_iff (profile : Profile) {manager after : RoundManager B V QC H S}
    (timedOut : manager.processTimeout profile = (.ok (), after)) (calls : List (Call B V QC N S A T))
    (barren : ∀ current ∈ trace (call profile) after calls, Barren current) :
    ((∀ current ∈ trace (call profile) after calls, current.input = .processTimeout → current.output = .timeout (.ok ())) ∧
      (exec (call profile) after calls).roundState.round.val =
        manager.roundState.round.val + 1 + calls.countP isTimeout) ↔
      calls.countP isTimeout = 0 := by
  have accepted : (manager.processTimeout profile).1 = .ok () := by rw [timedOut]
  obtain ⟨moved, recorded⟩ := processTimeout_moved accepted
  rw [timedOut] at moved recorded
  have certified := (processTimeout_ok_iff.mp accepted).1
  have wedged : Wedged after.roundState.round after := by
    refine ⟨rfl, ?_⟩
    rw [recorded, Fin.lt_def, moved]
    change manager.safetyRules.state.oneChainRound.val < _
    rw [← certified]
    exact Nat.lt_succ_self _
  obtain ⟨final, refused⟩ := wedged.run barren
  constructor
  · intro both
    rw [List.countP_eq_zero]
    intro input member asked
    obtain ⟨first, rest, rfl⟩ := List.append_of_mem member
    have seen : event (call profile) (exec (call profile) after first) input ∈ trace (call profile) after (first ++ input :: rest) := by
      rw [trace_append]
      exact List.mem_append_right _ List.mem_cons_self
    have given : input = .processTimeout := by
      cases input with
      | processTimeout => rfl
      | _ => cases asked
    exact refused _ seen given (both.1 _ seen given)
  · intro none
    rw [List.countP_eq_zero] at none
    refine ⟨?_, ?_⟩
    · intro current member asked
      obtain ⟨first, rest, same, _⟩ := mem_trace (call profile) member
      refine absurd (none current.input ?_) ?_
      · rw [same]
        exact List.mem_append_right _ List.mem_cons_self
      · rw [asked]
        simp [isTimeout]
    · rw [final.1, moved, List.countP_eq_zero.mpr none]

end Wedge

theorem single_timeout_passes :
    let manager : MockManager := .new .default (.new 0)
    let calls : List MockCall := [.rules (.observeTc (makeTc 0 0 0)), .processProposal (makeBlock 1 0 1 ⟨0⟩)]
    ∃ after, manager.processTimeout .dev = (.ok (), after) ∧ after.roundState.round = 1 ∧
      (exec (call .dev) after calls).roundState.round.val = 1 + calls.countP isTimeout := by
  intro manager calls
  have timedOut : manager.processTimeout .dev = (.ok (), (manager.processTimeout .dev).2) := rfl
  refine ⟨_, timedOut, rfl, ?_⟩
  have barren : ∀ current ∈ trace (call .dev) (manager.processTimeout .dev).2 calls, Barren current := by
    simp only [calls, forall_trace_cons, forall_trace_nil, and_true]
    exact ⟨Fin.zero_le _, trivial⟩
  exact ((timeouts_go_on_iff .dev timedOut calls barren).mpr rfl).2

/-- Rounds 1 and 2 have faulty leaders: round 1 times out, its certificate is
observed, and the timeout of round 2 is refused. -/
theorem second_timeout_refused :
    let manager : MockManager := exec (call .dev) (.new .default (.new 0))
      ([.rules (.observeQc (makeQc 1 0 ⟨1⟩)), .startRound 1] : List MockCall)
    let tc := makeTc 1 0 0
    ∃ after, manager.processTimeout .dev = (.ok (), after) ∧ manager.roundState.round = 1 ∧
      tc.verify = .ok () ∧ tc.round = manager.roundState.round ∧ tc.hqcRound ≤ after.safetyRules.state.oneChainRound ∧
      let certified : MockManager := exec (call .dev) after ([.rules (.observeTc tc)] : List MockCall)
      certified.roundState.round = 2 ∧ (certified.processTimeout .dev).1 ≠ .ok () := by
  exact ⟨_, rfl, by decide, by decide, by decide, by decide, by decide, by decide⟩

section Certified
open TwoChainTimeoutCertificate
variable {T : Type}

theorem timeout_verify_ok_iff {timeout : TwoChainTimeout} : timeout.verify = .ok () ↔ timeout.hqcRound < timeout.round := by
  simp only [TwoChainTimeout.verify]
  split
  next above => exact iff_of_false nofun (not_lt.mpr above)
  next below => exact iff_of_true rfl (not_le.mp below)

/-- The whole of the certificate's check: three comparisons, none of which reads both
the certificate and its timeout. -/
theorem verify_ok_iff {tc : TwoChainTimeoutCertificate T} :
    tc.verify = .ok () ↔ tc.timeout.hqcRound < tc.timeout.round ∧ tc.hqcRound < tc.round ∧ tc.highestTcRound < tc.round := by
  rw [← timeout_verify_ok_iff]
  simp only [verify]
  cases tc.timeout.verify with
  | error error => simp [bind, Except.bind]
  | ok =>
    by_cases hqc : tc.hqcRound < tc.round
    · by_cases highest : tc.highestTcRound < tc.round
      · simp [bind, Except.bind, pure, Except.pure, hqc, highest, not_le.mpr hqc, not_le.mpr highest]
      · simp [bind, Except.bind, throw, throwThe, MonadExceptOf.throw, highest, not_le.mpr hqc, not_lt.mp highest]
    · simp [bind, Except.bind, throw, throwThe, MonadExceptOf.throw, hqc, not_lt.mp hqc]

/-- A certificate repeats the timeout it certifies, and its rounds are in order. -/
structure Bound (tc : TwoChainTimeoutCertificate T) : Prop where
  epoch : tc.epoch = tc.timeout.epoch
  round : tc.round = tc.timeout.round
  hqcRound : tc.hqcRound = tc.timeout.hqcRound
  effective : tc.effectiveHqcRound < tc.round
  observed : ∀ rules : TwoChainSafetyRules,
    (rules.observeTc tc).2.state.highestTimeoutRound ≤ (rules.observeTc tc).2.state.oneChainRound →
      rules.state.highestTimeoutRound ≤ rules.state.oneChainRound

/-- Certified rounds overtake timed-out ones only by a certificate whose own rounds are
out of order. -/
theorem observed_of_lt {tc : TwoChainTimeoutCertificate T} (below : tc.hqcRound < tc.round) (rules : TwoChainSafetyRules)
    (overtaken : (rules.observeTc tc).2.state.highestTimeoutRound ≤ (rules.observeTc tc).2.state.oneChainRound) :
    rules.state.highestTimeoutRound ≤ rules.state.oneChainRound := by
  rw [SafetyRules.observeTc_state] at overtaken
  change max rules.state.highestTimeoutRound tc.round ≤ max rules.state.oneChainRound tc.hqcRound at overtaken
  obtain ⟨timedOut, given⟩ := max_le_iff.mp overtaken
  rcases le_max_iff.mp given with reached | above
  · rwa [max_eq_left (below.le.trans reached)] at timedOut
  · exact absurd above (not_le.mpr below)

/-- A verified certificate is bound to its timeout exactly if its maker copied the three
fields. -/
theorem verified_bound_iff (tc : TwoChainTimeoutCertificate T) :
    (tc.verify = .ok () → Bound tc) ↔
      (tc.timeout.hqcRound < tc.timeout.round → tc.hqcRound < tc.round → tc.highestTcRound < tc.round →
        tc.epoch = tc.timeout.epoch ∧ tc.round = tc.timeout.round ∧ tc.hqcRound = tc.timeout.hqcRound) := by
  rw [verify_ok_iff]
  constructor
  · intro bound timeout hqc highest
    have certified := bound ⟨timeout, hqc, highest⟩
    exact ⟨certified.epoch, certified.round, certified.hqcRound⟩
  · intro copied ordered
    obtain ⟨timeout, hqc, highest⟩ := ordered
    obtain ⟨epoch, round, hqcRound⟩ := copied timeout hqc highest
    exact ⟨epoch, round, hqcRound, max_lt hqc highest, observed_of_lt hqc⟩

end Certified

/-- A certificate of round 10 over a timeout of round 5 verifies and raises the certified
round above the one the timeout names. -/
theorem unbound_certificate_verifies :
    let tc : TwoChainTimeoutCertificate MockSignature := ⟨2, 10, 7, 0, ⟨1, 5, 4⟩, ⟨0⟩⟩
    tc.verify = .ok () ∧ ((TwoChainSafetyRules.new 1).observeTc tc).2.state.oneChainRound = 7 ∧
      ¬ (tc.verify = .ok () → Bound tc) := by
  intro tc
  have verified : tc.verify = .ok () := by decide
  refine ⟨verified, by decide, ?_⟩
  intro bound
  exact absurd (bound verified).round (by decide)

section Wire
open TwoChainTimeoutCertificate
variable {T W : Type}

/-- What serde's derive promises of the fields that are written. -/
def RoundTrips (format : Format T W) : Prop := ∀ fields, format.read (format.write fields) = some fields

def Survives (format : Format T W) (tc : TwoChainTimeoutCertificate T) : Prop :=
  ∃ decoded, deserialize format (serialize format tc) = some decoded ∧ decoded = tc ∧
    (decoded.verify = .ok () ↔ tc.verify = .ok ())

theorem decoded_eq {format : Format T W} (roundTrips : RoundTrips format) (tc : TwoChainTimeoutCertificate T) :
    deserialize format (serialize format tc) = some { tc with timeout := .default } := by
  rw [deserialize, serialize, roundTrips]
  rfl

/-- The default timeout does not verify, and the certificate's own check begins
with the timeout's. -/
theorem default_timeout_unverified {tc : TwoChainTimeoutCertificate T} (skipped : tc.timeout = .default) :
    tc.verify ≠ .ok () := by
  have refused : ∃ error, tc.timeout.verify = .error error := by
    rw [skipped]
    exact ⟨_, rfl⟩
  obtain ⟨error, refused⟩ := refused
  simp [verify, refused, bind, Except.bind]

/-- Only certificates of the default timeout come back unchanged, and none of them
verifies. -/
theorem survives_iff_default (format : Format T W) (roundTrips : RoundTrips format) (tc : TwoChainTimeoutCertificate T) :
    Survives format tc ↔ tc.timeout = .default := by
  constructor
  · intro survives
    obtain ⟨decoded, read, rfl, _⟩ := survives
    rw [decoded_eq roundTrips] at read
    exact (congrArg (·.timeout) (Option.some.inj read)).symm
  · intro skipped
    have same : { tc with timeout := .default } = tc := by rw [← skipped]
    exact ⟨tc, by rw [decoded_eq roundTrips, same], rfl, Iff.rfl⟩

end Wire

theorem length_bincodeBytes (width value : Nat) : (bincodeBytes width value).length = width := by
  induction width generalizing value with
  | zero => rfl
  | succ width ih => rw [bincodeBytes, List.length_cons, ih]

theorem ofBincodeBytes_bincodeBytes (width value : Nat) :
    ofBincodeBytes (bincodeBytes width value) = value % 256 ^ width := by
  induction width generalizing value with
  | zero => rw [Nat.pow_zero, Nat.mod_one]; rfl
  | succ width ih =>
    rw [bincodeBytes, ofBincodeBytes, ih, Nat.pow_succ', Nat.mod_mul]
    rfl

theorem readBincodeWord_bincodeBytes (value : U64) (rest : List UInt8) :
    readBincodeWord (bincodeBytes 8 value.val ++ rest) = some (value, rest) := by
  have size := length_bincodeBytes 8 value.val
  have whole : Fin.ofNat _ (value.val % 256 ^ 8) = value := by
    have bound := value.isLt
    apply Fin.ext
    change value.val % 256 ^ 8 % 18446744073709551616 = value.val
    omega
  simp only [readBincodeWord, List.length_append, size, List.take_left' size, List.drop_left' size,
    ofBincodeBytes_bincodeBytes, whole]
  simp

theorem bincode_roundTrips : RoundTrips bincode := by
  intro fields
  have last := readBincodeWord_bincodeBytes fields.highestTcRound []
  rw [List.append_nil] at last
  simp [bincode, readBincodeWord_bincodeBytes, last]

theorem empty_certificate_survives : Survives bincode ⟨0, 5, 4, 0, .default, ()⟩ :=
  (survives_iff_default bincode bincode_roundTrips ⟨0, 5, 4, 0, .default, ()⟩).mpr rfl

/-- The certificate of the serialization test. -/
theorem tested_certificate_lost :
    let tc : TwoChainTimeoutCertificate Unit := ⟨1, 5, 4, 0, ⟨1, 5, 4⟩, ()⟩
    tc.verify = .ok () ∧ RoundTrips bincode ∧
      ∃ decoded, TwoChainTimeoutCertificate.deserialize bincode (tc.serialize bincode) = some decoded ∧
        decoded ≠ tc ∧ decoded.verify ≠ .ok () ∧ ¬ Survives bincode tc := by
  intro tc
  have read := decoded_eq bincode_roundTrips tc
  refine ⟨by decide, bincode_roundTrips, _, read, by decide, default_timeout_unverified rfl, ?_⟩
  intro survives
  obtain ⟨decoded, found, same, _⟩ := survives
  cases read.symm.trans found
  exact absurd same (by decide)

end AptosBft.Proofs.Timeouts
