import AptosBft.Lib.Quorum
import AptosBft.Proofs.RoundManager
import AptosBft.Testing

/-! The vote rule and the votes of one validator. `safe_to_vote` takes the round
of the block's certificate to be the round before the block's, so it accepts any
block after genesis; `try_vote_for_proposal` remembers the round it voted in and
not the block. Timeouts are recorded apart from votes and no vote looks at them. -/

namespace AptosBft.Proofs.Voting
open Rust Mealy Journal

section Rule
open TwoChainSafetyRules
variable {B H T : Type} [Block B H]

/-- The rule of the documentation, for a block of round `r` whose certified parent
has round `q`. -/
def DocumentedRule (r q : U64) (timeoutCert : Option (TwoChainTimeoutCertificate T)) : Prop :=
  r.val = q.val + 1 ∨ ∃ tc ∈ timeoutCert, r.val = tc.round.val + 1 ∧ tc.hqcRound ≤ q

/-- The rule does not ask for the round of the parent: every block after genesis may be voted
for, with any timeout certificate whose round has a successor or with none. -/
theorem votable_over_any_parent (rules : TwoChainSafetyRules) (block : B) (timeoutCert : Option (TwoChainTimeoutCertificate T))
    (started : 1 ≤ (Block.round block).val) (bounded : ∀ tc ∈ timeoutCert, tc.round < u64Max) :
    rules.safeToVote block timeoutCert = .ok () :=
  SafetyRules.safeToVote_ok.mpr ⟨started, bounded⟩

theorem unrelated_timeout_votable :
    Block.parentId (makeBlock 10 0 1 ⟨4⟩) = Block.id (makeBlock 5 0 1 ⟨3⟩) ∧
    ¬ DocumentedRule 10 5 (some (makeTc 7 0 6)) ∧
    (new 0).safeToVote (makeBlock 10 0 1 ⟨4⟩) (some (makeTc 7 0 6)) = .ok () := by
  have bounded : ∀ tc ∈ some (makeTc 7 0 6), tc.round < u64Max := by
    intro tc given
    cases given
    decide
  refine ⟨by decide, ?_, votable_over_any_parent (new 0) (makeBlock 10 0 1 ⟨4⟩) (some (makeTc 7 0 6)) (by decide) bounded⟩
  intro rule
  obtain direct | ⟨tc, given, follows, _⟩ := rule
  · cases direct
  · cases given
    cases follows

theorem skipping_block_votable :
    Block.parentId (makeBlock 10 0 1 ⟨4⟩) = Block.id (makeBlock 5 0 1 ⟨3⟩) ∧
    (new 0).safeToVote (makeBlock 10 0 1 ⟨4⟩) (none : Option (TwoChainTimeoutCertificate MockSignature)) = .ok () ∧
    ¬ DocumentedRule 10 5 (none : Option (TwoChainTimeoutCertificate MockSignature)) := by
  refine ⟨by decide, by decide, ?_⟩
  intro rule
  obtain direct | ⟨tc, given, _⟩ := rule
  · cases direct
  · cases given

end Rule

section Votes
open AptosBft.RoundManager
variable {B V QC H N S A T : Type} [DecidableEq H] [DecidableEq N] [DecidableEq S]
  [Block B H] [Vote V B H N S A] [QuorumCertificate QC H] [FromVotes QC V A]

def votedFor (event : RoundManager.ManagerEvent B V QC H N S A T) : Option B :=
  match event.input, event.output with
  | .tryVoteForProposal proposal _, .voted (.ok ()) => some proposal
  | _, _ => none

theorem lastVotedRound_mono (profile : Profile) (manager : RoundManager B V QC H S) (input : Call B V QC N S A T) :
    manager.safetyRules.state.lastVotedRound ≤ (call profile manager input).2.safetyRules.state.lastVotedRound := by
  rw [RoundManager.call_replays]
  exact replay_lastVotedRound_mono _ _

theorem votedFor_cases {profile : Profile} {manager : RoundManager B V QC H S} {input : Call B V QC N S A T}
    {proposal : B} (voted : votedFor (event (call profile) manager input) = some proposal) :
    (∃ timeoutCert, input = .tryVoteForProposal proposal timeoutCert) ∧
      manager.safetyRules.state.lastVotedRound ≤ Block.round proposal ∧
      (call profile manager input).2.safetyRules.state.lastVotedRound = Block.round proposal := by
  cases input with
  | tryVoteForProposal block timeoutCert =>
    obtain ⟨error, refused⟩ | ⟨safetyRules, accepted, bound, _, raised⟩ := RoundManager.tryVote_cases manager block timeoutCert
    · simp [votedFor, event, call, refused] at voted
    · simp only [votedFor, event, call, accepted, Option.some.injEq] at voted
      subst voted
      simp only [call, accepted, raised, apply]
      exact ⟨⟨timeoutCert, rfl⟩, bound, max_eq_right bound⟩
  | _ => cases voted

/-- A step that does not ask for a vote on another block in the round of the last
vote. -/
def KeepsBlock (past : List (RoundManager.ManagerEvent B V QC H N S A T)) (current : RoundManager.ManagerEvent B V QC H N S A T) : Prop :=
  match current.input with
  | .tryVoteForProposal proposal _ => ∀ last ∈ (past.filterMap votedFor).getLast?,
      Block.round last = Block.round proposal → Block.id last = Block.id proposal
  | _ => True

theorem votes_steady {profile : Profile} {manager : RoundManager B V QC H S} {calls : List (Call B V QC N S A T)}
    (keeps : Meets (call profile) KeepsBlock manager calls) :
    ((trace (call profile) manager calls).filterMap votedFor).IsChain (Quorum.Steady Block.round Block.id) := by
  have carried := keeps.history (motive := fun past manager =>
    (past.filterMap votedFor).IsChain (Quorum.Steady Block.round Block.id) ∧
      ∀ earlier ∈ past.filterMap votedFor, Block.round earlier ≤ manager.safetyRules.state.lastVotedRound)
    ⟨.nil, by simp⟩ ?_
  · exact carried.1
  intro past manager input holds keep
  obtain ⟨steady, bounded⟩ := holds
  have grows := lastVotedRound_mono profile manager input
  rw [filterMap_snoc]
  cases voted : votedFor (event (call profile) manager input) with
  | none =>
    rw [Option.toList_none, List.append_nil]
    exact ⟨steady, fun earlier member => (bounded earlier member).trans grows⟩
  | some proposal =>
    obtain ⟨⟨timeoutCert, rfl⟩, bound, moved⟩ := votedFor_cases voted
    rw [Option.toList_some]
    constructor
    · exact Quorum.steady_snoc steady (fun last final => (bounded last (List.mem_of_getLast? final)).trans bound) keep
    · intro earlier member
      rw [moved]
      rcases List.mem_append.mp member with before | here
      · exact (bounded earlier before).trans bound
      · rw [List.mem_singleton.mp here]

/-- A validator that is never asked to vote twice in one round for different
blocks, one vote after the other, votes for one block a round over the whole run. -/
theorem votes_agree_per_round {profile : Profile} {manager : RoundManager B V QC H S}
    {calls : List (Call B V QC N S A T)} (keeps : Meets (call profile) KeepsBlock manager calls)
    {first second : B} (left : first ∈ (trace (call profile) manager calls).filterMap votedFor)
    (right : second ∈ (trace (call profile) manager calls).filterMap votedFor)
    (_sameEpoch : Block.epoch first = Block.epoch second) (sameRound : Block.round first = Block.round second) :
    Block.id first = Block.id second :=
  Quorum.steady_agree (votes_steady keeps) left right sameRound

theorem repeated_id_votes_agree :
    let manager : RoundManager MockBlock MockVote MockQuorumCert MockHash MockSignature := .new .default (.new 0)
    let calls : List (Call MockBlock MockVote MockQuorumCert MockHash MockSignature MockAggregatedSignature MockSignature) :=
      [.tryVoteForProposal (makeBlock 1 0 1 ⟨0⟩) none, .tryVoteForProposal (makeBlock 1 0 1 ⟨7⟩) none]
    (trace (call .dev) manager calls).filterMap votedFor = [makeBlock 1 0 1 ⟨0⟩, makeBlock 1 0 1 ⟨7⟩] ∧
      Block.id (makeBlock 1 0 1 ⟨0⟩) = Block.id (makeBlock 1 0 1 ⟨7⟩) := by
  intro manager calls
  have votes : (trace (call .dev) manager calls).filterMap votedFor = [makeBlock 1 0 1 ⟨0⟩, makeBlock 1 0 1 ⟨7⟩] := by
    decide
  have keeps : Meets (call .dev) KeepsBlock manager calls := by
    change Meets (call .dev) KeepsBlock manager ([] ++ [calls[0]] ++ [calls[1]])
    refine meets_snoc.mpr ⟨meets_snoc.mpr ⟨meets_nil _ _, ?_⟩, ?_⟩
    · intro last none
      cases none
    · intro last same _
      cases same
      rfl
  exact ⟨votes, votes_agree_per_round keeps (by decide) (by decide) rfl rfl⟩

theorem equal_round_votes_twice :
    let manager : RoundManager MockBlock MockVote MockQuorumCert MockHash MockSignature := .new .default (.new 0)
    let calls : List (Call MockBlock MockVote MockQuorumCert MockHash MockSignature MockAggregatedSignature MockSignature) :=
      [.tryVoteForProposal (makeBlock 1 0 1 ⟨0⟩) none, .tryVoteForProposal (makeBlock 1 0 2 ⟨0⟩) none]
    (trace (call .dev) manager calls).filterMap votedFor = [makeBlock 1 0 1 ⟨0⟩, makeBlock 1 0 2 ⟨0⟩] ∧
      Block.id (makeBlock 1 0 1 ⟨0⟩) ≠ Block.id (makeBlock 1 0 2 ⟨0⟩) := by
  decide

end Votes

section Timeouts
open AptosBft.RoundManager
variable {B V QC H N S A T : Type} [Block B H] [DecidableEq H] [DecidableEq N] [DecidableEq S] [Vote V B H N S A]
  [QuorumCertificate QC H] [FromVotes QC V A]

/-- The round a call gave up, by a timeout of the current round or on record. -/
def gaveUp (event : RoundManager.ManagerEvent B V QC H N S A T) : Option U64 :=
  match event.input, event.output with
  | .processTimeout, .timeout (.ok ()) => some event.before.roundState.round
  | .rules (.recordTimeout round), _ => some round
  | _, _ => none

/-- A vote of the validator's epoch is for a round above all it gave up before. -/
def VotesAbove (past : List (RoundManager.ManagerEvent B V QC H N S A T))
    (current : RoundManager.ManagerEvent B V QC H N S A T) : Prop :=
  ∀ proposal ∈ votedFor current, Block.epoch proposal = current.before.safetyRules.state.epoch →
    ∀ round ∈ past.filterMap gaveUp, round < Block.round proposal

/-- Asked for a vote in a round it gave up, the validator has voted in a later
one, or the round is that of genesis, or the certificate's round has no successor. -/
def AsksAbove (past : List (RoundManager.ManagerEvent B V QC H N S A T))
    (current : RoundManager.ManagerEvent B V QC H N S A T) : Prop :=
  match current.input with
  | .tryVoteForProposal proposal timeoutCert => Block.epoch proposal = current.before.safetyRules.state.epoch →
    ∀ round ∈ past.filterMap gaveUp, Block.round proposal ≤ round →
      Block.round proposal < current.before.safetyRules.state.lastVotedRound ∨ Block.round proposal = 0 ∨
        ∃ tc ∈ timeoutCert, tc.round = u64Max
  | _ => True

theorem votesAbove_iff (profile : Profile) (past : List (RoundManager.ManagerEvent B V QC H N S A T))
    (manager : RoundManager B V QC H S) (input : Call B V QC N S A T) :
    VotesAbove past (event (call profile) manager input) ↔ AsksAbove past (event (call profile) manager input) := by
  cases input with
  | tryVoteForProposal proposal timeoutCert =>
    have zero : ¬ 0 < (Block.round proposal).val ↔ Block.round proposal = 0 := by
      rw [Nat.not_lt, Nat.le_zero, Fin.ext_iff]
      rfl
    have last : ∀ round : U64, u64Max ≤ round ↔ round = u64Max :=
      fun round => ⟨fun above => le_antisymm (Fin.le_last _) above, fun same => same.ge⟩
    have blocked : ¬ (manager.tryVoteForProposal proposal timeoutCert).1 = .ok () ↔
        Block.round proposal < manager.safetyRules.state.lastVotedRound ∨ Block.round proposal = 0 ∨
          ∃ tc ∈ timeoutCert, tc.round = u64Max := by
      simp only [RoundManager.tryVote_ok_iff, not_and_or, not_le, zero, not_forall, not_lt, last, exists_prop]
    obtain ⟨error, refused⟩ | ⟨safetyRules, accepted, _⟩ := RoundManager.tryVote_cases manager proposal timeoutCert
    · have shut := blocked.mp (by rw [refused]; nofun)
      simp only [VotesAbove, AsksAbove, votedFor, event, call, refused]
      exact iff_of_true (fun _ none => by cases none) (fun _ _ _ _ => shut)
    · have free := blocked.not.mp (not_not.mpr (by rw [accepted]))
      simp only [VotesAbove, AsksAbove, votedFor, event, call, accepted, free, imp_false, not_le, Option.mem_some_iff, forall_eq']
  | _ => simp [VotesAbove, AsksAbove, votedFor, event]

/-- A round given up stays closed for voting exactly when the validator is not
asked to vote in it before it has voted further on. -/
theorem given_up_rounds_closed_iff (profile : Profile) (manager : RoundManager B V QC H S)
    (calls : List (Call B V QC N S A T)) :
    Meets (call profile) VotesAbove manager calls ↔ Meets (call profile) AsksAbove manager calls :=
  meets_congr fun first past input => votesAbove_iff profile past (exec (call profile) manager first) input

theorem timed_out_round_votable :
    let manager : RoundManager MockBlock MockVote MockQuorumCert MockHash MockSignature := .new .default (.new 0)
    let timeouts : List (Call MockBlock MockVote MockQuorumCert MockHash MockSignature MockAggregatedSignature MockSignature) :=
      [.processTimeout, .rules (.observeQc (makeQc 1 0 ⟨1⟩)), .processTimeout]
    let ask : Call MockBlock MockVote MockQuorumCert MockHash MockSignature MockAggregatedSignature MockSignature :=
      .tryVoteForProposal (makeBlock 1 0 1 ⟨0⟩) none
    (trace (call .dev) manager timeouts).filterMap gaveUp = [0, 1] ∧
      (call .dev (exec (call .dev) manager timeouts) ask).1 = .voted (.ok ()) ∧
      ¬ Meets (call .dev) VotesAbove manager (timeouts ++ [ask]) := by
  intro manager timeouts ask
  refine ⟨by decide, by decide, ?_⟩
  intro closed
  have above := (meets_snoc.mp closed).2 (makeBlock 1 0 1 ⟨0⟩) (by decide) (by decide) 1 (by decide)
  exact absurd above (by decide)

end Timeouts
end AptosBft.Proofs.Voting
