import AptosBft.Proofs.Journal

/-! What each call of the safety rules does to the safety state. The refinement
into journals is proved once per call, for both build profiles, and then holds
along every run. -/

namespace AptosBft

namespace SafetyStateData
open Rust

@[simp] theorem updateOneChainRound_snd (state : SafetyStateData) (round : U64) :
    (state.updateOneChainRound round).2 = { state with oneChainRound := max state.oneChainRound round } := by
  simp only [updateOneChainRound]
  split
  next higher => rw [max_eq_right (le_of_lt higher)]
  next lower => rw [max_eq_left (not_lt.mp lower)]

@[simp] theorem updatePreferredRound_snd (state : SafetyStateData) (round : U64) :
    (state.updatePreferredRound round).2 = { state with preferredRound := max state.preferredRound round } := by
  simp only [updatePreferredRound]
  split
  next higher => rw [max_eq_right (le_of_lt higher)]
  next lower => rw [max_eq_left (not_lt.mp lower)]

@[simp] theorem updateHighestTimeoutRound_snd (state : SafetyStateData) (round : U64) :
    (state.updateHighestTimeoutRound round).2 =
      { state with highestTimeoutRound := max state.highestTimeoutRound round } := by
  simp only [updateHighestTimeoutRound]
  split
  next higher => rw [max_eq_right (le_of_lt higher)]
  next lower => rw [max_eq_left (not_lt.mp lower)]

end SafetyStateData

namespace Proofs.SafetyRules
open Rust Mealy Journal TwoChainSafetyRules

theorem nextRound_ok {round next : U64} : nextRound round = .ok next ↔ next.val = round.val + 1 := by
  simp only [nextRound]
  cases sum : U64.checkedAdd round 1 with
  | some value =>
    have exactly : value.val = round.val + 1 := U64.checkedAdd_eq_some.mp sum
    simp only [Except.ok.injEq, Fin.ext_iff, exactly]
    exact eq_comm
  | none =>
    have overflows := U64.checkedAdd_eq_none.mp sum
    have bound := next.isLt
    change 18446744073709551615 < round.val + 1 at overflows
    simp only [reduceCtorEq, false_iff]
    omega

theorem nextRound_failed {round : U64} {error : Error} (failed : nextRound round = .error error) : round = u64Max := by
  simp only [nextRound] at failed
  split at failed
  · cases failed
  next overflows => exact U64.eq_max_of_overflow (U64.checkedAdd_eq_none.mp overflows)

theorem safeToTimeout_none {rules : TwoChainSafetyRules} {round qcRound : U64} :
    rules.safeToTimeoutImpl round qcRound none = .ok () ↔
      round.val = qcRound.val + 1 ∧ rules.state.oneChainRound ≤ qcRound := by
  rw [← nextRound_ok]
  simp only [safeToTimeoutImpl]
  cases next : nextRound qcRound with
  | error error => simp [returned, bind, Except.bind]
  | ok following =>
    by_cases same : round = following
    · by_cases safe : rules.state.oneChainRound ≤ qcRound
      · simp [returned, bind, Except.bind, pure, Except.pure, same, safe]
      · simp [returned, bind, Except.bind, pure, Except.pure, throw, throwThe, MonadExceptOf.throw, same, safe]
    · simp [returned, bind, Except.bind, pure, Except.pure, throw, throwThe, MonadExceptOf.throw, same, Ne.symm same]

variable {B QC H T : Type} [Block B H] [QuorumCertificate QC H]

omit [QuorumCertificate QC H] in
/-- The whole of the vote rule as the code has it: any block after genesis, unless
the certificate's round has no successor. -/
theorem safeToVote_ok {rules : TwoChainSafetyRules} {proposal : B} {timeoutCert : Option (TwoChainTimeoutCertificate T)} :
    rules.safeToVote proposal timeoutCert = .ok () ↔
      0 < (Block.round proposal).val ∧ ∀ tc ∈ timeoutCert, tc.round < u64Max := by
  have bound := (Block.round proposal).isLt
  have before : ((Block.round proposal).saturatingSub 1).val = (Block.round proposal).val - 1 := rfl
  simp only [safeToVote, safeToVoteImpl]
  cases next : nextRound ((Block.round proposal).saturatingSub 1) with
  | error error =>
    have full : (Block.round proposal).val - 1 = 18446744073709551615 := congrArg Fin.val (nextRound_failed next)
    omega
  | ok following =>
    have successor := nextRound_ok.mp next
    rw [before] at successor
    have normal : Block.round proposal = following ↔ 0 < (Block.round proposal).val := by
      rw [Fin.ext_iff]
      omega
    cases timeoutCert with
    | none =>
      by_cases positive : 0 < (Block.round proposal).val
      · simp [bind, Except.bind, pure, Except.pure, normal, positive]
      · simp [bind, Except.bind, pure, Except.pure, normal, positive]
    | some tc =>
      cases after : nextRound tc.round with
      | error error =>
        have full : ¬ tc.round < u64Max := (nextRound_failed after).ge.not_gt
        simp [bind, Except.bind, after, full]
      | ok reported =>
        have value := nextRound_ok.mp after
        have room := U64.lt_max_of_successor value
        have missed : ¬ 0 < (Block.round proposal).val → Block.round proposal ≠ reported := by
          intro zero same
          exact zero (by rw [same]; omega)
        by_cases positive : 0 < (Block.round proposal).val
        · simp [bind, Except.bind, pure, Except.pure, normal, positive, room, after]
        · simp [bind, Except.bind, pure, Except.pure, normal, positive, missed positive, after]

omit [QuorumCertificate QC H] in
theorem shouldCommit_eq_some {rules : TwoChainSafetyRules} {proposal : B} {id : H} :
    rules.shouldCommit proposal = some id ↔
      (Block.round proposal).val = rules.state.oneChainRound.val + 1 ∧ Block.parentId proposal = id := by
  simp only [shouldCommit]
  split
  next positive =>
    have above : 0 < (Block.round proposal).val := positive
    have certified : rules.state.oneChainRound = (Block.round proposal).minus 1 (Fin.one_le_of_ne_zero positive.ne') ↔
        (Block.round proposal).val = rules.state.oneChainRound.val + 1 := by
      rw [Fin.ext_iff, U64.minus_val]
      change _ = (Block.round proposal).val - 1 ↔ _
      omega
    simp only [beq_iff_eq, certified]
    split
    next follows => simp only [Option.some.injEq, follows, true_and]
    next apart => simp only [reduceCtorEq, apart, false_and]
  next zero =>
    have none : ¬ 0 < (Block.round proposal).val := zero
    constructor
    · intro impossible
      cases impossible
    · intro both
      omega

/-- At the last round there is no successor to compare with. A development build
panics there; a release build compares with round 0, which never raises the
preferred round. Both leave what the natural-number test leaves. -/
theorem observeQc_state (profile : Profile) (rules : TwoChainSafetyRules) (qc : QC) :
    (rules.observeQc profile qc).2.state = apply rules.state (.qc (QuorumCertificate.round qc)) := by
  simp only [observeQc]
  obtain ⟨next, sum, value⟩ | ⟨overflows, sum⟩ := U64.plus_cases profile rules.state.oneChainRound 1
  · by_cases consecutive : QuorumCertificate.round qc = next
    · simp [apply, sum, consecutive, value]
    · have apart : (QuorumCertificate.round qc).val ≠ rules.state.oneChainRound.val + 1 := by
        intro same
        exact consecutive (Fin.ext (same.trans value.symm))
      simp [apply, sum, consecutive, apart]
  · have full := U64.eq_max_of_overflow overflows
    have apart : (QuorumCertificate.round qc).val ≠ rules.state.oneChainRound.val + 1 := by
      have bound := (QuorumCertificate.round qc).isLt
      rw [full]
      change _ ≠ 18446744073709551616
      omega
    have kept : max rules.state.oneChainRound (QuorumCertificate.round qc) = rules.state.oneChainRound := by
      apply max_eq_left
      rw [full]
      exact Fin.le_last _
    have wrapped : rules.state.oneChainRound + 1 = 0 := by rw [full]; rfl
    rcases sum with panics | wraps
    · simp [apply, panics, apart, kept]
    · by_cases zero : QuorumCertificate.round qc = 0
      · simp [apply, wraps, zero, wrapped]
      · simp [apply, wraps, zero, wrapped, apart]

theorem observeQc_failed {profile : Profile} {rules after : TwoChainSafetyRules} {qc : QC} {failure : Failure Error}
    (failed : rules.observeQc profile qc = (.error failure, after)) : after = rules := by
  simp only [observeQc] at failed
  split at failed
  · exact (congrArg Prod.snd failed).symm
  · cases failed

theorem observeTc_state (rules : TwoChainSafetyRules) (tc : TwoChainTimeoutCertificate T) :
    (rules.observeTc tc).2.state = apply rules.state (.tc tc.round tc.hqcRound) := by
  simp [observeTc, apply]

theorem recordTimeout_state (rules : TwoChainSafetyRules) (round : U64) :
    (rules.recordTimeout round).state = apply rules.state (.timeout round) := by
  simp [recordTimeout, apply]

theorem recordVote_cases (rules : TwoChainSafetyRules) (round : U64) :
    (round < rules.state.lastVotedRound ∧ (∃ error, (rules.recordVote round).1 = .error error) ∧
      (rules.recordVote round).2 = rules) ∨
    (rules.state.lastVotedRound ≤ round ∧ (rules.recordVote round).1 = .ok () ∧
      (rules.recordVote round).2.state = apply rules.state (.vote round)) := by
  simp only [recordVote]
  by_cases older : round < rules.state.lastVotedRound
  · exact Or.inl ⟨older, by simp [older], by simp [older]⟩
  · have bound := not_lt.mp older
    by_cases newer : round > rules.state.lastVotedRound
    · exact Or.inr ⟨bound, by simp [older, newer], by simp [older, newer, apply, max_eq_right bound]⟩
    · exact Or.inr ⟨bound, by simp [older, newer], by simp [older, newer, apply, max_eq_left (not_lt.mp newer)]⟩

def recorded : TwoChainSafetyRules.Call B QC T → TwoChainSafetyRules.Reply H → List Update
  | .observeQc qc, _ => [.qc (QuorumCertificate.round qc)]
  | .observeTc tc, _ => [.tc tc.round tc.hqcRound]
  | .recordVote round, .done (.ok ()) => [.vote round]
  | .recordTimeout round, _ => [.timeout round]
  | _, _ => []

omit [Block B H] in
/-- Certified rounds come from observed certificates only. -/
theorem certified_recorded {input : TwoChainSafetyRules.Call B QC T} {reply : TwoChainSafetyRules.Reply H} {round : U64}
    (reported : round ∈ (recorded input reply).flatMap Update.certified) :
    (∃ qc, input = .observeQc qc ∧ round = QuorumCertificate.round qc) ∨
      ∃ tc, input = .observeTc tc ∧ round = tc.hqcRound := by
  unfold recorded at reported
  split at reported
  next qc => exact Or.inl ⟨qc, rfl, List.mem_singleton.mp reported⟩
  next tc => exact Or.inr ⟨tc, rfl, List.mem_singleton.mp reported⟩
  all_goals cases reported

theorem call_replays (profile : Profile) (rules : TwoChainSafetyRules) (input : TwoChainSafetyRules.Call B QC T) :
    (rules.call profile input).2.state = replay rules.state (recorded input (rules.call profile input).1) := by
  cases input with
  | observeQc qc => exact observeQc_state profile rules qc
  | observeTc tc => exact observeTc_state rules tc
  | recordVote round =>
    obtain ⟨_, ⟨error, refused⟩, same⟩ | ⟨_, accepted, raised⟩ := recordVote_cases rules round
    · simp [TwoChainSafetyRules.call, recorded, replay, refused, same, returned]
    · simp [TwoChainSafetyRules.call, recorded, replay, accepted, raised, returned]
  | recordTimeout round => exact recordTimeout_state rules round
  | safeToVote proposal timeoutCert => rfl
  | safeToTimeout round qcRound timeoutCert => rfl
  | shouldCommit proposal => rfl

theorem exec_replays (profile : Profile) (rules : TwoChainSafetyRules) (calls : List (TwoChainSafetyRules.Call B QC T)) :
    (exec (call profile) rules calls).state =
      replay rules.state ((trace (call profile) rules calls).flatMap fun event => recorded event.input event.output) := by
  induction calls generalizing rules with
  | nil => rfl
  | cons input rest ih =>
    simp only [exec_cons, trace_cons, List.flatMap_cons, event_input, event_output]
    rw [replay_append, ← call_replays]
    exact ih _

end Proofs.SafetyRules
end AptosBft
