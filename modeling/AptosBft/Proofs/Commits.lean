import AptosBft.Lib.Ledger
import AptosBft.Proofs.RoundManager
import AptosBft.Testing

/-! Commits of one validator, in the order it makes them. A commit is one round above the
highest round that was reported as certified, so it can only be repeated for the same round
until a certificate of that round or a later one is reported, and never for an earlier one. -/

namespace AptosBft.Proofs.Commits
open Rust Mealy Journal AptosBft.RoundManager AptosBft.Proofs.RoundManager

variable {B V QC H N S A T : Type} [DecidableEq H] [DecidableEq N] [DecidableEq S]
  [Block B H] [Vote V B H N S A] [QuorumCertificate QC H] [FromVotes QC V A]

/-- The round of a proposal that was found to commit its parent. -/
def commitRound (current : ManagerEvent B V QC H N S A T) : Option U64 :=
  match current.input, current.output with
  | .rules (.shouldCommit proposal), .rules (.commit (some _)) => some (Block.round proposal)
  | _, _ => none

/-- The rounds that were reported as certified. -/
def reported (past : List (ManagerEvent B V QC H N S A T)) : List U64 := (past.flatMap recorded).flatMap Update.certified

theorem commitRound_eq {profile : Profile} {manager : RoundManager B V QC H S} {input : Call B V QC N S A T} {round : U64}
    (commits : commitRound (event (call profile) manager input) = some round) :
    round.val = manager.safetyRules.state.oneChainRound.val + 1 ∧ (call profile manager input).2 = manager := by
  simp only [commitRound, event_input, event_output] at commits
  split at commits
  next proposal id answered =>
    cases commits
    have committed : manager.safetyRules.shouldCommit proposal = some id := by
      simpa [call, TwoChainSafetyRules.call] using answered
    exact ⟨(SafetyRules.shouldCommit_eq_some.mp committed).1, rfl⟩
  next => cases commits

/-- What happens between two points of a run raises the one-chain round to the highest of
what was reported. -/
theorem oneChainRound_between (profile : Profile) (manager : RoundManager B V QC H S) (calls : List (Call B V QC N S A T)) :
    (exec (call profile) manager calls).safetyRules.state.oneChainRound =
      (reported (trace (call profile) manager calls)).foldl max manager.safetyRules.state.oneChainRound := by
  rw [exec_replays, replay_max _ _ apply_oneChainRound]
  rfl

/-- Of two commits of a run, the later one is not for an earlier round, and it is for the
same round exactly if no certificate of that round or a later one was reported between
them. -/
theorem commits_follow_certificates (profile : Profile) (manager : RoundManager B V QC H S) (calls : List (Call B V QC N S A T))
    {past between rest : List (ManagerEvent B V QC H N S A T)} {first second : ManagerEvent B V QC H N S A T}
    (cut : trace (call profile) manager calls = past ++ first :: (between ++ second :: rest)) {round later : U64}
    (commits : commitRound first = some round) (again : commitRound second = some later) :
    round ≤ later ∧ (later = round ↔ ∀ certified ∈ reported between, certified < round) := by
  obtain ⟨_, _, _, _, here, _⟩ := trace_split (call profile) cut
  obtain ⟨middle, through, there⟩ := trace_split_two (call profile) cut
  rw [here] at commits
  rw [there] at again
  obtain ⟨committed, same⟩ := commitRound_eq commits
  obtain ⟨recommitted, _⟩ := commitRound_eq again
  have stayed : first.after.safetyRules.state.oneChainRound.val + 1 = round.val := by
    rw [here, event_after, same, committed]
  have raised := oneChainRound_between profile first.after middle
  rw [← through] at raised
  rw [raised] at recommitted
  -- the one-chain round in between is never below where it stood
  have bound := (foldl_max_le_iff.mp (le_refl ((reported between).foldl max first.after.safetyRules.state.oneChainRound))).1
  refine ⟨?_, ?_⟩
  · rw [Fin.le_def] at bound ⊢
    omega
  · have settled : later = round ↔
        (reported between).foldl max first.after.safetyRules.state.oneChainRound ≤ first.after.safetyRules.state.oneChainRound := by
      rw [Fin.le_def] at bound ⊢
      rw [Fin.ext_iff]
      omega
    rw [settled, foldl_max_le_iff]
    constructor
    · intro capped certified member
      have low := capped.2 certified member
      rw [Fin.le_def] at low
      rw [Fin.lt_def]
      omega
    · intro lower
      refine ⟨le_rfl, ?_⟩
      intro certified member
      have low := lower certified member
      rw [Fin.lt_def] at low
      rw [Fin.le_def]
      omega

/-- A commit at round 2, the certificate of round 2, and a commit at round 3. -/
theorem next_certificate_moves_commit :
    let manager : MockManager := exec (call .dev) (.new .default (.new 0)) ([.rules (.observeQc (makeQc 1 0 ⟨1⟩))] : List MockCall)
    let first : MockCall := .rules (.shouldCommit (makeBlock 2 0 1 ⟨1⟩))
    let observed : List MockCall := [.rules (.observeQc (makeQc 2 0 ⟨2⟩))]
    let between := trace (call .dev) (call .dev manager first).2 observed
    reported between = [2] ∧ (2 : U64) ≤ 3 ∧ ((3 : U64) = 2 ↔ ∀ certified ∈ reported between, certified < 2) := by
  intro manager first observed between
  let second : MockCall := .rules (.shouldCommit (makeBlock 3 0 1 ⟨2⟩))
  have cut : trace (call .dev) manager (first :: (observed ++ [second])) = [] ++ event (call .dev) manager first ::
      (between ++ event (call .dev) (exec (call .dev) (call .dev manager first).2 observed) second :: []) := rfl
  have commits : commitRound (event (call .dev) manager first) = some 2 := by decide
  have again : commitRound (event (call .dev) (exec (call .dev) (call .dev manager first).2 observed) second) = some 3 := by decide
  exact ⟨by decide, commits_follow_certificates .dev manager _ cut commits again⟩

end AptosBft.Proofs.Commits
