import AptosBft.Proofs.RoundManager
import AptosBft.Testing

/-! What gets past the entry points: certificates into the safety state, and
proposals into the round. -/

namespace AptosBft.Proofs.Admission
open Rust Mealy TwoChainSafetyRules AptosBft.RoundManager AptosBft.Proofs.RoundManager

section Certificates
variable {QC H T : Type} [QuorumCertificate QC H] [VerifiableCert QC]

inductive Certificate (QC T : Type) where
  | quorum (qc : QC)
  | timeout (tc : TwoChainTimeoutCertificate T)

namespace Certificate

def verify : Certificate QC T → Except Error Unit
  | .quorum qc => VerifiableCert.verify qc
  | .timeout tc => tc.verify

def epoch : Certificate QC T → U64
  | .quorum qc => QuorumCertificate.epoch qc
  | .timeout tc => tc.epoch

def observe (profile : Profile) (rules : TwoChainSafetyRules) : Certificate QC T → Outcome Error Unit × TwoChainSafetyRules
  | .quorum qc => rules.observeQc profile qc
  | .timeout tc => let (result, after) := rules.observeTc tc; (returned result, after)

end Certificate

/-- A certificate that does not verify, or is of another epoch, is answered with an
error and changes nothing. -/
def Guarded (profile : Profile) (rules : TwoChainSafetyRules) (certificate : Certificate QC T) : Prop :=
  certificate.verify ≠ .ok () ∨ certificate.epoch ≠ rules.state.epoch →
    (∃ error, (certificate.observe profile rules).1 = .error (.err error)) ∧
      (certificate.observe profile rules).2 = rules

omit [VerifiableCert QC] in
theorem observe_no_error (profile : Profile) (rules : TwoChainSafetyRules) (certificate : Certificate QC T) (error : Error) :
    (certificate.observe profile rules).1 ≠ .error (.err error) := by
  cases certificate with
  | quorum qc =>
    simp only [Certificate.observe, observeQc]
    split <;> simp
  | timeout tc => simp [Certificate.observe, observeTc, returned]

/-- Neither operation checks anything, so the law holds only where it asks for
nothing. -/
theorem guarded_iff_valid (profile : Profile) (rules : TwoChainSafetyRules) (certificate : Certificate QC T) :
    Guarded profile rules certificate ↔ certificate.verify = .ok () ∧ certificate.epoch = rules.state.epoch := by
  constructor
  · intro guarded
    by_contra invalid
    rw [not_and_or] at invalid
    obtain ⟨⟨error, refused⟩, _⟩ := guarded invalid
    exact observe_no_error profile rules certificate error refused
  · intro valid bad
    exact (bad.elim (absurd valid.1) (absurd valid.2))

end Certificates

/-- A TC with a QC of its own round, and a QC of another epoch, raise the rounds of
the safety state. -/
theorem forged_certificates_raise_rounds :
    let rules := TwoChainSafetyRules.new 0
    let tc : Certificate MockQuorumCert MockSignature := .timeout (makeTc 9 0 9)
    let qc : Certificate MockQuorumCert MockSignature := .quorum (makeQc 7 3 ⟨1⟩)
    (tc.verify ≠ .ok () ∧ (tc.observe .dev rules).1 = .ok () ∧
      (tc.observe .dev rules).2.state = ⟨0, 0, 0, 9, 9⟩ ∧ ¬ Guarded .dev rules tc) ∧
    (qc.epoch ≠ rules.state.epoch ∧ (qc.observe .dev rules).1 = .ok () ∧
      (qc.observe .dev rules).2.state = ⟨0, 0, 0, 7, 0⟩ ∧ ¬ Guarded .dev rules qc) := by
  intro rules tc qc
  have unverified : tc.verify ≠ .ok () := by decide
  have foreign : qc.epoch ≠ rules.state.epoch := by decide
  refine ⟨⟨unverified, by decide, by decide, ?_⟩, foreign, by decide, by decide, ?_⟩
  · intro guarded
    exact absurd (guarded (Or.inl unverified)).2 (by decide)
  · intro guarded
    exact absurd (guarded (Or.inr foreign)).2 (by decide)

section Proposals
variable {B V QC H N S A T : Type} [Block B H]

/-- What each entry point must have checked when it admits the proposal, and that it
changes nothing when it does not. -/
structure Admits (manager : RoundManager B V QC H S) (proposal : B) (verifier : ValidatorVerifier B V N S A)
    (timeoutCert : Option (TwoChainTimeoutCertificate T)) : Prop where
  accepted : (manager.processProposal proposal).1 = .ok .accepted →
    Block.epoch proposal = manager.roundState.epoch ∧ Block.round proposal = manager.roundState.round ∧
      verifier.verifyBlock proposal = .ok ()
  voted : (manager.tryVoteForProposal proposal timeoutCert).1 = .ok () →
    Block.epoch proposal = manager.roundState.epoch ∧ Block.round proposal = manager.roundState.round
  refused : (manager.processProposal proposal).1 ≠ .ok .accepted →
    (manager.processProposal proposal).2.roundState.proposedBlock = manager.roundState.proposedBlock ∧
      (manager.processProposal proposal).2.safetyRules = manager.safetyRules
  unvoted : (manager.tryVoteForProposal proposal timeoutCert).1 ≠ .ok () →
    (manager.tryVoteForProposal proposal timeoutCert).2.roundState.proposedBlock = manager.roundState.proposedBlock ∧
      (manager.tryVoteForProposal proposal timeoutCert).2.safetyRules = manager.safetyRules

theorem processProposal_refused {manager : RoundManager B V QC H S} {proposal : B}
    (refused : (manager.processProposal proposal).1 ≠ .ok .accepted) : (manager.processProposal proposal).2 = manager := by
  simp only [processProposal] at refused ⊢
  split
  · split <;> rfl
  next current =>
    simp only [current] at refused
    cases signed : Block.verifySignature proposal with
    | error error => rfl
    | ok => simp [signed] at refused

theorem tryVote_refused {manager : RoundManager B V QC H S} {proposal : B}
    {timeoutCert : Option (TwoChainTimeoutCertificate T)}
    (refused : (manager.tryVoteForProposal proposal timeoutCert).1 ≠ .ok ()) :
    (manager.tryVoteForProposal proposal timeoutCert).2 = manager := by
  obtain ⟨error, unchanged⟩ | ⟨safetyRules, accepted, _⟩ := tryVote_cases manager proposal timeoutCert
  · rw [unchanged]
  · rw [accepted] at refused
    exact absurd rfl refused

/-- `process_proposal` checks the round and the signature the block carries;
`try_vote_for_proposal` checks the last voted round. -/
theorem admits_iff (manager : RoundManager B V QC H S) (proposal : B) (verifier : ValidatorVerifier B V N S A)
    (timeoutCert : Option (TwoChainTimeoutCertificate T)) :
    Admits manager proposal verifier timeoutCert ↔
      (Block.round proposal = manager.roundState.round → Block.verifySignature proposal = .ok () →
        Block.epoch proposal = manager.roundState.epoch ∧ verifier.verifyBlock proposal = .ok ()) ∧
      (manager.safetyRules.state.lastVotedRound ≤ Block.round proposal → 0 < (Block.round proposal).val →
        (∀ tc ∈ timeoutCert, tc.round < u64Max) →
          Block.epoch proposal = manager.roundState.epoch ∧ Block.round proposal = manager.roundState.round) := by
  constructor
  · intro admits
    refine ⟨?_, ?_⟩
    · intro current signed
      obtain ⟨epoch, _, verified⟩ := admits.accepted ((accepts_iff manager proposal).mpr ⟨current, signed⟩)
      exact ⟨epoch, verified⟩
    · intro later positive room
      exact admits.voted ((tryVote_ok_iff manager proposal timeoutCert).mpr ⟨later, positive, room⟩)
  · intro both
    obtain ⟨proposals, votes⟩ := both
    refine ⟨?_, ?_, ?_, ?_⟩
    · intro accepted
      obtain ⟨current, signed⟩ := (accepts_iff manager proposal).mp accepted
      obtain ⟨epoch, verified⟩ := proposals current signed
      exact ⟨epoch, current, verified⟩
    · intro voted
      obtain ⟨later, positive, room⟩ := (tryVote_ok_iff manager proposal timeoutCert).mp voted
      exact votes later positive room
    · intro refused
      rw [processProposal_refused refused]
      exact ⟨rfl, rfl⟩
    · intro refused
      rw [tryVote_refused refused]
      exact ⟨rfl, rfl⟩

end Proposals

/-- In the new manager's round 0, a block of epoch 9 is accepted, and a vote for a
block of round 100 closes the rounds below it. -/
theorem foreign_proposals_admitted :
    let manager : MockManager := .new .default (.new 0)
    let verifier := (MockValidatorSet.new [(⟨1⟩, 1)]).verifier
    let foreign := makeBlock 0 9 1 ⟨0⟩
    let future := makeBlock 100 0 1 ⟨0⟩
    (manager.processProposal foreign).1 = .ok .accepted ∧ Block.epoch foreign ≠ manager.roundState.epoch ∧
      (manager.tryVoteForProposal future (none : Option (TwoChainTimeoutCertificate MockSignature))).1 = .ok () ∧
      Block.round future ≠ manager.roundState.round ∧
      ¬ Admits manager foreign verifier (none : Option (TwoChainTimeoutCertificate MockSignature)) ∧
      ¬ Admits manager future verifier (none : Option (TwoChainTimeoutCertificate MockSignature)) := by
  intro manager verifier foreign future
  have accepted : (manager.processProposal foreign).1 = .ok .accepted := by decide
  have otherEpoch : Block.epoch foreign ≠ manager.roundState.epoch := by decide
  have voted : (manager.tryVoteForProposal future (none : Option (TwoChainTimeoutCertificate MockSignature))).1 = .ok () := by
    decide
  have otherRound : Block.round future ≠ manager.roundState.round := by decide
  exact ⟨accepted, otherEpoch, voted, otherRound, fun admits => otherEpoch (admits.accepted accepted).1,
    fun admits => otherRound (admits.voted voted).2⟩

end AptosBft.Proofs.Admission
