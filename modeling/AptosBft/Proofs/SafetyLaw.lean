import AptosBft.Proofs.RoundManager

/-! The law of the safety state over whole runs of the manager: every field is
determined by the answers the run gave. -/

namespace AptosBft.Proofs.SafetyLaw
open Rust Mealy Journal AptosBft.RoundManager

variable {B V QC H N S A T : Type} [DecidableEq H] [DecidableEq N] [DecidableEq S]
  [Block B H] [Vote V B H N S A] [QuorumCertificate QC H] [FromVotes QC V A]

def Refused (event : RoundManager.ManagerEvent B V QC H N S A T) : Prop :=
  match event.input, event.output with
  | .tryVoteForProposal .., .voted (.error _) => True
  | .rules (.recordVote _), .rules (.done (.error _)) => True
  | _, _ => False

theorem refused_unchanged (profile : Profile) (manager : RoundManager B V QC H S) (input : Call B V QC N S A T)
    (refused : Refused (event (call profile) manager input)) : (call profile manager input).2 = manager := by
  cases input with
  | tryVoteForProposal proposal timeoutCert =>
    obtain ⟨error, same⟩ | ⟨safetyRules, accepted, _⟩ := RoundManager.tryVote_cases manager proposal timeoutCert
    · simp only [call, same]
    · simp [Refused, event, call, accepted] at refused
  | rules inner =>
    cases inner with
    | recordVote round =>
      obtain ⟨_, _, same⟩ | ⟨_, accepted, _⟩ := SafetyRules.recordVote_cases manager.safetyRules round
      · simp only [call, TwoChainSafetyRules.call, same]
      · simp [Refused, event, call, TwoChainSafetyRules.call, returned, accepted] at refused
    | _ => exact refused.elim
  | _ => exact refused.elim

theorem preferredRound_mono (profile : Profile) (manager : RoundManager B V QC H S) (input : Call B V QC N S A T) :
    manager.safetyRules.state.preferredRound ≤ (call profile manager input).2.safetyRules.state.preferredRound := by
  rw [RoundManager.call_replays]
  exact replay_preferredRound_mono _ _

/-- Start from any manager and make any calls, certificates of any kind and
refused calls included. The epoch stays. The one-chain round, the highest timeout
round and the last voted round are the maxima of their start and of what the run
recorded: rounds of observed QCs with the highest QC rounds of observed TCs,
rounds of observed TCs with recorded timeouts, and rounds of votes that were
answered with success. The preferred round is its start or the round of an
observed QC and no call lowers it. A refused vote changes nothing. -/
theorem safety_state_law (profile : Profile) (manager : RoundManager B V QC H S) (calls : List (Call B V QC N S A T)) :
    let initial := manager.safetyRules.state
    let final := (exec (call profile) manager calls).safetyRules.state
    let journal := (trace (call profile) manager calls).flatMap RoundManager.recorded
    final.epoch = initial.epoch ∧
    final.oneChainRound = (journal.flatMap Update.certified).foldl max initial.oneChainRound ∧
    final.highestTimeoutRound = (journal.flatMap Update.timedOut).foldl max initial.highestTimeoutRound ∧
    final.lastVotedRound = (journal.flatMap Update.voted).foldl max initial.lastVotedRound ∧
    (final.preferredRound = initial.preferredRound ∨ .qc final.preferredRound ∈ journal) ∧
    (∀ event ∈ trace (call profile) manager calls,
      event.before.safetyRules.state.preferredRound ≤ event.after.safetyRules.state.preferredRound) ∧
    ∀ event ∈ trace (call profile) manager calls, Refused event → event.after = event.before := by
  intro initial final journal
  have replayed : final = replay initial journal := RoundManager.exec_replays profile manager calls
  rw [replayed]
  refine ⟨replay_epoch _ _, replay_max _ _ apply_oneChainRound _ _, replay_max _ _ apply_highestTimeoutRound _ _,
    replay_max _ _ apply_lastVotedRound _ _, replay_preferredRound _ _, ?_, ?_⟩
  · intro current member
    obtain ⟨first, _, _, here⟩ := mem_trace _ member
    rw [here]
    exact preferredRound_mono profile _ _
  · intro current member refused
    obtain ⟨first, _, _, here⟩ := mem_trace _ member
    rw [here] at refused ⊢
    exact refused_unchanged profile _ _ refused

end AptosBft.Proofs.SafetyLaw
