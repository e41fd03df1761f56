import AptosBft.Proofs.SafetyRules
import AptosBft.Testing

/-! The top of the round range. Successors are taken with a check that returns an error,
with a check that is unwrapped, and with no check at all. A development build panics
exactly where a release build goes on with a wrapped number, so what is total in the one
overflows in neither. -/

namespace AptosBft.Proofs.Limits
open Rust

variable {B H QC T D : Type} [Block B H] [QuorumCertificate QC H] [ConsensusStorage D]

/-- The calls of the safety rules and of what decides for them on certificates and on
stored states. -/
inductive SafetyCall (B QC T D : Type) where
  | rules (call : TwoChainSafetyRules.Call B QC T)
  | verify (tc : TwoChainTimeoutCertificate T)
  | allowsAdvance (tc : TwoChainTimeoutCertificate T)
  | loadSafetyRules (storage : D) (epoch : U64)

/-- Yes, no or a panic. An error is a no. -/
def settle {ε α : Type} : Outcome ε α → Except Panic Bool
  | .ok _ => .ok true
  | .error (.err _) => .ok false
  | .error (.panic reason) => .error reason

def answer (rules : TwoChainSafetyRules) : SafetyCall B QC T D → Except Panic Bool
  | .rules inner => match (rules.call .dev inner).1 with
    | .done result => settle result
    | .commit block => .ok block.isSome
  | .verify tc => settle (returned tc.verify)
  | .allowsAdvance tc => tc.allowsAdvance .dev
  | .loadSafetyRules storage epoch => settle (loadSafetyRules .dev storage epoch)

/-- The rounds whose successors a call needs. A certificate's is not needed once the
first successor explains the round. -/
def needed (rules : TwoChainSafetyRules) : SafetyCall B QC T D → List U64
  | .rules (.safeToVote proposal timeoutCert) =>
    (Block.round proposal).saturatingSub 1 :: (timeoutCert.map (·.round)).toList
  | .rules (.safeToTimeout round qcRound timeoutCert) =>
    qcRound :: if round.val = qcRound.val + 1 then [] else (timeoutCert.map (·.round)).toList
  | .rules (.observeQc _) => [rules.state.oneChainRound]
  | .allowsAdvance tc => tc.hqcRound :: if tc.round.val = tc.hqcRound.val + 1 then [] else [tc.highestTcRound]
  | _ => []

structure Total (rules : TwoChainSafetyRules) (input : SafetyCall B QC T D) : Prop where
  returns : ∃ said, answer rules input = .ok said
  refuses : u64Max ∈ needed rules input → answer rules input = .ok false

/-- The calls that take a successor, or add to a round, without returning an error stay
below the last round. -/
def Room (rules : TwoChainSafetyRules) : SafetyCall B QC T D → Prop
  | .rules (.safeToTimeout round qcRound (some tc)) =>
    qcRound = u64Max ∨ round.val = qcRound.val + 1 ∨ tc.round ≠ u64Max
  | .rules (.observeQc _) => rules.state.oneChainRound ≠ u64Max
  | .allowsAdvance tc => tc.hqcRound ≠ u64Max ∧ (tc.round.val = tc.hqcRound.val + 1 ∨ tc.highestTcRound ≠ u64Max)
  | .loadSafetyRules storage _ => ∀ state, ConsensusStorage.getSafetyState storage = .ok (some state) →
    state.epoch ≤ maxEpoch → state.oneChainRound ≤ state.preferredRound → state.lastVotedRound.val + 100 ≤ u64Max.val
  | _ => True

theorem settle_returned {ε α : Type} (result : Except ε α) : ∃ said, settle (returned result) = .ok said := by
  cases result with
  | ok value => exact ⟨true, rfl⟩
  | error error => exact ⟨false, rfl⟩

theorem not_total {rules : TwoChainSafetyRules} {input : SafetyCall B QC T D} {reason : Panic}
    (panics : answer rules input = .error reason) : ¬ Total rules input := by
  intro total
  obtain ⟨said, returned⟩ := total.returns
  cases panics.symm.trans returned

section Answers
variable (rules : TwoChainSafetyRules)

theorem safeToVote_total (proposal : B) (timeoutCert : Option (TwoChainTimeoutCertificate T)) :
    Total rules (.rules (.safeToVote proposal timeoutCert) : SafetyCall B QC T D) := by
  refine ⟨settle_returned (rules.safeToVote proposal timeoutCert), ?_⟩
  intro last
  have unsafeVote : rules.safeToVote proposal timeoutCert ≠ .ok () := by
    rw [ne_eq, SafetyRules.safeToVote_ok]
    intro allowed
    rcases List.mem_cons.mp last with before | certified
    · have bound := (Block.round proposal).isLt
      have value : 18446744073709551615 = (Block.round proposal).val - 1 := congrArg Fin.val before
      omega
    · obtain ⟨tc, given, full⟩ := Option.mem_map.mp (Option.mem_toList.mp certified)
      exact absurd full (allowed.2 tc given).ne
  change settle (returned (rules.safeToVote proposal timeoutCert)) = .ok false
  cases refused : rules.safeToVote proposal timeoutCert with
  | ok => exact absurd refused unsafeVote
  | error error => rfl

theorem settle_ite {ε : Type} (condition : Bool) (error : ε) :
    settle (if condition then pure () else throw (.err error) : Outcome ε Unit) = .ok condition := by
  cases condition with
  | true => rfl
  | false => rfl

/-- The unwrapped successor is reached only if the checked one before it exists and is
another round. -/
theorem safeToTimeout_cases (round qcRound : U64) (tcRound : Option U64) :
    (qcRound = u64Max ∧ settle (rules.safeToTimeoutImpl round qcRound tcRound) = .ok false) ∨
    (qcRound ≠ u64Max ∧ (round.val = qcRound.val + 1 ∨ u64Max ∉ tcRound) ∧
      ∃ said, settle (rules.safeToTimeoutImpl round qcRound tcRound) = .ok said) ∨
    (qcRound ≠ u64Max ∧ round.val ≠ qcRound.val + 1 ∧ u64Max ∈ tcRound ∧
      settle (rules.safeToTimeoutImpl round qcRound tcRound) = .error .unwrap) := by
  simp only [TwoChainSafetyRules.safeToTimeoutImpl]
  cases next : TwoChainSafetyRules.nextRound qcRound with
  | error error => exact Or.inl ⟨SafetyRules.nextRound_failed next, rfl⟩
  | ok following =>
    have value := SafetyRules.nextRound_ok.mp next
    have below := (U64.lt_max_of_successor value).ne
    refine Or.inr ?_
    by_cases same : round = following
    · refine Or.inl ⟨below, Or.inl (by rw [same, value]), ?_⟩
      simp only [returned, bind, Except.bind, same, beq_self_eq_true, ite_true, pure, Except.pure]
      exact ⟨_, settle_ite _ _⟩
    have apart : round.val ≠ qcRound.val + 1 := by
      rw [← value]
      exact fun equal => same (Fin.ext equal)
    cases tcRound with
    | none =>
      refine Or.inl ⟨below, Or.inr (Option.not_mem_none _), ?_⟩
      simp only [returned, bind, Except.bind, beq_eq_false_iff_ne.mpr same, Bool.false_eq_true, ite_false, pure, Except.pure]
      exact ⟨_, settle_ite _ _⟩
    | some tcRound =>
      cases after : TwoChainSafetyRules.nextRound tcRound with
      | error error =>
        refine Or.inr ⟨below, apart, congrArg some (SafetyRules.nextRound_failed after), ?_⟩
        simp only [returned, bind, Except.bind, beq_eq_false_iff_ne.mpr same, Bool.false_eq_true, ite_false, after]
        rfl
      | ok reported =>
        refine Or.inl ⟨below, Or.inr ?_, ?_⟩
        · intro last
          exact (U64.lt_max_of_successor (SafetyRules.nextRound_ok.mp after)).ne (Option.some.inj last)
        · simp only [returned, bind, Except.bind, beq_eq_false_iff_ne.mpr same, Bool.false_eq_true, ite_false, after, pure,
            Except.pure]
          exact ⟨_, settle_ite _ _⟩

theorem safeToTimeout_total_iff (round qcRound : U64) (timeoutCert : Option (TwoChainTimeoutCertificate T)) :
    Total rules (.rules (.safeToTimeout round qcRound timeoutCert) : SafetyCall B QC T D) ↔
      Room rules (.rules (.safeToTimeout round qcRound timeoutCert) : SafetyCall B QC T D) := by
  have room : Room rules (.rules (.safeToTimeout round qcRound timeoutCert) : SafetyCall B QC T D) ↔
      qcRound = u64Max ∨ round.val = qcRound.val + 1 ∨ u64Max ∉ timeoutCert.map (·.round) := by
    cases timeoutCert with
    | none => exact iff_of_true trivial (Or.inr (Or.inr (Option.not_mem_none _)))
    | some tc => simp [Room]
  have said : answer rules (.rules (.safeToTimeout round qcRound timeoutCert) : SafetyCall B QC T D) =
      settle (rules.safeToTimeoutImpl round qcRound (timeoutCert.map (·.round))) := rfl
  rw [room]
  obtain ⟨last, refused⟩ | ⟨below, explained, answered⟩ | ⟨below, apart, certified, panics⟩ :=
    safeToTimeout_cases rules round qcRound (timeoutCert.map (·.round))
  · exact iff_of_true ⟨⟨false, said.trans refused⟩, fun _ => said.trans refused⟩ (Or.inl last)
  · refine iff_of_true ⟨?_, ?_⟩ (Or.inr explained)
    · rw [said]
      exact answered
    · intro member
      rcases List.mem_cons.mp member with last | certified
      · exact absurd last.symm below
      · split at certified
        · cases certified
        next apart => exact absurd (Option.mem_toList.mp certified) (explained.resolve_left apart)
  · refine iff_of_false (not_total (said.trans panics)) ?_
    intro either
    obtain last | same | unlisted := either
    · exact below last
    · exact apart same
    · exact unlisted certified

theorem observeQc_total_iff (qc : QC) :
    Total rules (.rules (.observeQc qc) : SafetyCall B QC T D) ↔ rules.state.oneChainRound ≠ u64Max := by
  have said : answer rules (.rules (.observeQc qc) : SafetyCall B QC T D) = settle (rules.observeQc .dev qc).1 := rfl
  simp only [TwoChainSafetyRules.observeQc] at said
  obtain ⟨next, sum, value⟩ | ⟨last, ⟨_, panics⟩ | ⟨release, _⟩⟩ := U64.plus_one_cases .dev rules.state.oneChainRound
  · rw [sum] at said
    have below := (U64.lt_max_of_successor value).ne
    refine iff_of_true ⟨⟨true, said⟩, ?_⟩ below
    intro member
    exact absurd (List.mem_singleton.mp member).symm below
  · rw [panics] at said
    exact iff_of_false (not_total said) (not_not.mpr last)
  · cases release

/-- The second successor is computed only if the first is another round. -/
theorem allowsAdvance_total_iff (tc : TwoChainTimeoutCertificate T) :
    Total rules (.allowsAdvance tc : SafetyCall B QC T D) ↔
      tc.hqcRound ≠ u64Max ∧ (tc.round.val = tc.hqcRound.val + 1 ∨ tc.highestTcRound ≠ u64Max) := by
  have said : answer rules (.allowsAdvance tc : SafetyCall B QC T D) = tc.allowsAdvance .dev := rfl
  simp only [TwoChainTimeoutCertificate.allowsAdvance] at said
  obtain ⟨next, sum, value⟩ | ⟨last, ⟨_, panics⟩ | ⟨release, _⟩⟩ := U64.plus_one_cases .dev tc.hqcRound
  · have below := (U64.lt_max_of_successor value).ne
    simp only [sum, bind, Except.bind] at said
    by_cases same : tc.round = next
    · have first : tc.round.val = tc.hqcRound.val + 1 := by rw [same, value]
      rw [same, beq_self_eq_true, if_pos rfl] at said
      refine iff_of_true ⟨⟨true, said⟩, ?_⟩ ⟨below, Or.inl first⟩
      intro member
      rw [needed, if_pos first] at member
      exact absurd (List.mem_singleton.mp member).symm below
    · have apart : tc.round.val ≠ tc.hqcRound.val + 1 := by
        rw [← value]
        exact fun equal => same (Fin.ext equal)
      rw [beq_eq_false_iff_ne.mpr same, if_neg Bool.false_ne_true] at said
      obtain ⟨following, after, reported⟩ | ⟨top, ⟨_, panics⟩ | ⟨release, _⟩⟩ := U64.plus_one_cases .dev tc.highestTcRound
      · have under := (U64.lt_max_of_successor reported).ne
        rw [after] at said
        refine iff_of_true ⟨⟨_, said⟩, ?_⟩ ⟨below, Or.inr under⟩
        intro member
        rw [needed, if_neg apart] at member
        rcases List.mem_cons.mp member with last | certified
        · exact absurd last.symm below
        · exact absurd (List.mem_singleton.mp certified).symm under
      · rw [panics] at said
        exact iff_of_false (not_total said) fun both => both.2.elim apart fun under => under top
      · cases release
  · rw [panics] at said
    exact iff_of_false (not_total said) fun both => both.1 last
  · cases release

theorem validate_settles_iff (state : SafetyStateData) :
    (∃ said, settle (validateSafetyState .dev state) = .ok said) ↔
      (state.epoch ≤ maxEpoch → state.oneChainRound ≤ state.preferredRound → state.lastVotedRound.val + 100 ≤ u64Max.val) := by
  simp only [validateSafetyState]
  by_cases high : state.epoch > maxEpoch
  · rw [if_pos high]
    exact iff_of_true ⟨false, rfl⟩ fun low => absurd high (not_lt.mpr low)
  rw [if_neg high]
  by_cases reversed : state.oneChainRound > state.preferredRound
  · rw [if_pos reversed]
    exact iff_of_true ⟨false, rfl⟩ fun _ ordered => absurd reversed (not_lt.mpr ordered)
  rw [if_neg reversed]
  cases sum : U64.plus .dev state.lastVotedRound 100 with
  | ok limit =>
    have value : limit.val = state.lastVotedRound.val + 100 := U64.plus_dev_ok sum
    have bound := limit.isLt
    refine iff_of_true ?_ (fun _ _ => ?_)
    · by_cases far : state.preferredRound > limit
      · exact ⟨false, by simp only [if_pos far]; rfl⟩
      · exact ⟨true, by simp only [if_neg far]; rfl⟩
    · change state.lastVotedRound.val + 100 ≤ 18446744073709551615
      omega
  | error reason =>
    obtain ⟨limit, exactly, _⟩ | ⟨overflows, _⟩ := U64.plus_cases .dev state.lastVotedRound 100
    · cases sum.symm.trans exactly
    · refine iff_of_false ?_ ?_
      · intro returned
        obtain ⟨said, answered⟩ := returned
        cases answered
      · intro room
        exact absurd (room (not_lt.mp high) (not_lt.mp reversed)) (not_le.mpr overflows)

theorem loadSafetyRules_total_iff (storage : D) (epoch : U64) :
    Total rules (.loadSafetyRules storage epoch : SafetyCall B QC T D) ↔
      Room rules (.loadSafetyRules storage epoch : SafetyCall B QC T D) := by
  have total : Total rules (.loadSafetyRules storage epoch : SafetyCall B QC T D) ↔
      ∃ said, settle (loadSafetyRules .dev storage epoch) = .ok said := ⟨Total.returns, fun returns => ⟨returns, nofun⟩⟩
  rw [total]
  simp only [loadSafetyRules, Room]
  cases found : ConsensusStorage.getSafetyState storage with
  | error error => exact iff_of_true ⟨false, rfl⟩ nofun
  | ok stored =>
    cases stored with
    | none => exact iff_of_true ⟨true, rfl⟩ nofun
    | some state =>
      have only : (∀ other, (.ok (some state) : Except Error (Option SafetyStateData)) = .ok (some other) → other.epoch ≤ maxEpoch →
          other.oneChainRound ≤ other.preferredRound → other.lastVotedRound.val + 100 ≤ u64Max.val) ↔
          (state.epoch ≤ maxEpoch → state.oneChainRound ≤ state.preferredRound → state.lastVotedRound.val + 100 ≤ u64Max.val) := by
        simp
      have loaded : settle (do validateSafetyState .dev state; return TwoChainSafetyRules.withState state) =
          settle (validateSafetyState .dev state) := by
        rcases validateSafetyState .dev state with (_ | _) | _ <;> rfl
      rw [only, ← validate_settles_iff, ← loaded]

/-- The safety rules are total exactly below the last round, where they take a successor
without returning an error, and up to a hundred rounds below it, where they load a state. -/
theorem safety_rules_total_iff (input : SafetyCall B QC T D) : Total rules input ↔ Room rules input := by
  cases input with
  | rules inner =>
    cases inner with
    | observeQc qc => exact observeQc_total_iff rules qc
    | safeToTimeout round qcRound timeoutCert => exact safeToTimeout_total_iff rules round qcRound timeoutCert
    | safeToVote proposal timeoutCert => exact iff_of_true (safeToVote_total rules proposal timeoutCert) trivial
    | observeTc tc => exact iff_of_true ⟨settle_returned (rules.observeTc tc).1, nofun⟩ trivial
    | recordVote round => exact iff_of_true ⟨settle_returned (rules.recordVote round).1, nofun⟩ trivial
    | recordTimeout round => exact iff_of_true ⟨⟨true, rfl⟩, nofun⟩ trivial
    | shouldCommit proposal => exact iff_of_true ⟨⟨_, rfl⟩, nofun⟩ trivial
  | verify tc => exact iff_of_true ⟨settle_returned tc.verify, nofun⟩ trivial
  | allowsAdvance tc => exact allowsAdvance_total_iff rules tc
  | loadSafetyRules storage epoch => exact loadSafetyRules_total_iff rules storage epoch

end Answers

/-- The four ways to fail: an unwrapped successor, two unchecked ones, and an unchecked
margin. -/
theorem last_round_panics :
    let last : TwoChainSafetyRules := .withState ⟨0, 0, 0, u64Max, 0⟩
    let stored : MockStorage := ⟨some ⟨0, u64Max, 0, 0, 0⟩, false⟩
    let calls : List (TwoChainSafetyRules × SafetyCall MockBlock MockQuorumCert MockSignature MockStorage) :=
      [(.new 0, .rules (.safeToTimeout 5 3 (some (makeTc u64Max 0 3)))), (last, .rules (.observeQc (makeQc 1 0 ⟨1⟩))),
        (.new 0, .allowsAdvance (makeTc 5 0 u64Max)), (.new 0, .loadSafetyRules stored 0)]
    calls.map (fun call => answer call.1 call.2) = [.error .unwrap, .error .overflow, .error .overflow, .error .overflow] ∧
      ∀ call ∈ calls, ¬ Total call.1 call.2 := by
  intro last stored calls
  refine ⟨by decide, ?_⟩
  intro call member
  simp only [calls, List.mem_cons, List.not_mem_nil, or_false] at member
  obtain rfl | rfl | rfl | rfl := member
  · exact not_total rfl
  · exact not_total rfl
  · exact not_total rfl
  · exact not_total rfl

end AptosBft.Proofs.Limits
