import AptosBft.Proofs.Completion
import AptosBft.Proofs.HighestCert

/-! Asking the round manager for a certificate. The answer is read off the votes that are
left and the round that is reached, and neither remembers a certificate: votes come in
after it was formed, and blocks that never got a vote have none left either. -/

namespace AptosBft.Proofs.CertificateQuery
open Rust Mealy AptosBft.RoundManager AptosBft.Proofs.RoundManager AptosBft.Proofs.PendingVotes
open AptosBft.Proofs.QuorumUniqueness AptosBft.Proofs.Representation AptosBft.Proofs.HighestCert AptosBft.Proofs.Completion

variable {B V QC H N S A T : Type} [DecidableEq H] [DecidableEq S]

def Voted (manager : RoundManager B V QC H S) (blockId : H) (round : U64) : Prop :=
  ∃ signature held, Holds manager.pendingVotes (round, blockId) signature held

theorem has_iff {manager : RoundManager B V QC H S} {blockId : H} {round : U64} :
    manager.hasQuorumCertificate blockId round = true ↔ ¬ Voted manager blockId round ∧ round < manager.roundState.round := by
  rw [hasQuorumCertificate, Bool.and_eq_true, beq_iff_eq, decide_eq_true_eq, voteCount_eq_zero_iff]
  rfl

theorem voted_setRound {manager after : RoundManager B V QC H S} {blockId : H} {round next : U64}
    (votes : after.pendingVotes = manager.pendingVotes.setRound next) :
    Voted after blockId round ↔ Voted manager blockId round ∧ next.saturatingSub manager.pendingVotes.maxRounds ≤ round := by
  simp only [Voted, votes, holds_setRound]
  constructor
  · intro held
    obtain ⟨signature, vote, recent, before⟩ := held
    exact ⟨⟨signature, vote, before⟩, recent⟩
  · intro both
    obtain ⟨⟨signature, vote, before⟩, recent⟩ := both
    exact ⟨signature, vote, recent, before⟩

variable [DecidableEq N] [Vote V B H N S A] [Block B H] [QuorumCertificate QC H] [FromVotes QC V A]

/-- The query is right about a block after the calls made so far. -/
def Tells (blockId : H) (round : U64) (past : List (ManagerEvent B V QC H N S A T)) (manager : RoundManager B V QC H S) : Prop :=
  manager.hasQuorumCertificate blockId round = true ↔ (round, blockId) ∈ (past.filterMap completedBy).map slot

/-- The round a call moved to. -/
def entered (current : ManagerEvent B V QC H N S A T) : Option U64 :=
  match current.input, current.output with
  | .startRound next, _ => some next
  | .processTimeout, .timeout (.ok ()) => some current.after.roundState.round
  | _, _ => none

/-- A vote for the block gets past the checks. -/
def Admits (blockId : H) (round : U64) (current : ManagerEvent B V QC H N S A T) : Prop :=
  match current.input with
  | .processVote _ vote verifier => slot vote = (round, blockId) ∧ Fresh current.before vote verifier
  | _ => False

/-- The votes of a round go: it gets a certificate, or a round is entered that is too far
above it. -/
def Drops (maxRounds round : U64) (current : ManagerEvent B V QC H N S A T) : Prop :=
  (∃ vote ∈ completedBy current, Vote.round vote = round) ∨ ∃ next ∈ entered current, round < next.saturatingSub maxRounds

/-- A vote for the block was let in, and its round was not dropped since. -/
def Kept (maxRounds : U64) (blockId : H) (round : U64) (past : List (ManagerEvent B V QC H N S A T)) : Prop :=
  Standing (Admits blockId round) (Drops maxRounds round) past

/-- The round entered last is above. -/
def Over (round : U64) (past : List (ManagerEvent B V QC H N S A T)) : Prop :=
  ∃ last ∈ (past.filterMap entered).getLast?, round < last

/-- Once a block has its certificate, its round is over and no vote for it is kept; before,
the round is not over, or a vote is kept. -/
structure Telling (maxRounds : U64) (blockId : H) (round : U64) (past : List (ManagerEvent B V QC H N S A T)) : Prop where
  certified : (round, blockId) ∈ (past.filterMap completedBy).map slot → Over round past ∧ ¬ Kept maxRounds blockId round past
  uncertified : (round, blockId) ∉ (past.filterMap completedBy).map slot → ¬ Over round past ∨ Kept maxRounds blockId round past

section Step
variable {profile : Profile} {blockId : H} {round : U64} {manager : RoundManager B V QC H S}

omit [DecidableEq N] [Block B H] [QuorumCertificate QC H] [FromVotes QC V A] in
theorem voted_stored {vote : V} :
    Voted (stored manager vote) blockId round ↔ Voted manager blockId round ∨ slot vote = (round, blockId) := by
  constructor
  · intro voted
    obtain ⟨signature, held, inside⟩ := voted
    obtain ⟨own, _, _⟩ | ⟨_, older⟩ := holds_store.mp inside
    · exact Or.inr own.symm
    · exact Or.inl ⟨signature, held, older⟩
  · intro either
    by_cases own : (round, blockId) = (Vote.round vote, Vote.blockId vote)
    · exact ⟨Vote.signature vote, vote, holds_store.mpr (Or.inl ⟨own, rfl, rfl⟩)⟩
    · obtain ⟨signature, held, inside⟩ := either.resolve_right fun same => own same.symm
      exact ⟨signature, held, holds_store.mpr (Or.inr ⟨fun both => own both.1, inside⟩)⟩

theorem mem_completedBy {order : Iteration V N S} {vote cast : V} {verifier : ValidatorVerifier B V N S A} :
    cast ∈ completedBy (event (call profile) manager (.processVote order vote verifier : Call B V QC N S A T)) ↔
      cast = vote ∧ (manager.processVote profile order vote verifier).1 = .ok .quorumCompleted := by
  simp only [completedBy, event, call]
  split
  next given answer =>
    cases given
    rw [Reply.vote.injEq] at answer
    simp only [answer, and_true, Option.mem_some_iff, eq_comm]
  next other =>
    refine iff_of_false (Option.not_mem_none cast) ?_
    intro done
    exact other _ _ _ rfl (congrArg Reply.vote done.2)

/-- A vote drops the votes of its round exactly if it forms a certificate. -/
theorem drops_vote {maxRounds : U64} {order : Iteration V N S} {vote : V} {verifier : ValidatorVerifier B V N S A} :
    Drops maxRounds round (event (call profile) manager (.processVote order vote verifier : Call B V QC N S A T)) ↔
      Vote.round vote = round ∧ ∃ qc : QC, Forms profile order manager vote verifier qc := by
  have stays : entered (event (call profile) manager (.processVote order vote verifier : Call B V QC N S A T)) = none := rfl
  simp only [Drops, stays, Option.not_mem_none, false_and, exists_false, or_false, mem_completedBy, completed_iff_forms]
  constructor
  · intro dropped
    obtain ⟨cast, ⟨rfl, forms⟩, same⟩ := dropped
    exact ⟨same, forms⟩
  · intro both
    exact ⟨vote, ⟨rfl, both.2⟩, both.1⟩

theorem voted_vote (maxRounds : U64) (order : Iteration V N S) (vote : V) (verifier : ValidatorVerifier B V N S A) :
    Voted (manager.processVote profile order vote verifier).2 blockId round ↔
      (Voted manager blockId round ∨ slot vote = (round, blockId) ∧ Fresh manager vote verifier) ∧
        ¬ Drops maxRounds round (event (call profile) manager (.processVote order vote verifier : Call B V QC N S A T)) := by
  rw [drops_vote]
  by_cases fresh : Fresh manager vote verifier
  · rw [and_iff_left fresh, ← voted_stored]
    obtain ⟨unformed, kept⟩ | ⟨qc, forms, dropped⟩ := fresh_cases profile order fresh
    · rw [kept, and_iff_left]
      intro formed
      exact formed.2.elim unformed
    · rw [dropped]
      have removed : Voted ({ manager with
          safetyRules := (manager.safetyRules.observeQc profile qc).2
          roundState := manager.roundState.setQuorumCert qc
          pendingVotes := (stored manager vote).pendingVotes.removeRound (Vote.round vote) } : RoundManager B V QC H S) blockId round ↔
          Voted (stored manager vote) blockId round ∧ round ≠ Vote.round vote := by
        simp only [Voted, holds_removeRound, exists_and_left, and_comm]
      rw [removed, and_iff_left (⟨qc, forms⟩ : ∃ qc : QC, Forms profile order manager vote verifier qc), ne_comm]
  · rw [unfresh_unchanged fresh]
    have unformed : ¬ ∃ qc : QC, Forms profile order manager vote verifier qc := fun formed => fresh formed.choose_spec.fresh
    simp only [fresh, unformed, and_false, or_false, not_false_eq_true, and_true]

/-- A step keeps the account of the votes for a block: there are some if there were or one
is let in, and their round is not dropped. -/
def Accounts (blockId : H) (round : U64) (current : ManagerEvent B V QC H N S A T) : Prop :=
  Voted current.after blockId round ↔
    (Voted current.before blockId round ∨ Admits blockId round current) ∧
      ¬ Drops current.before.pendingVotes.maxRounds round current

omit [DecidableEq N] [Block B H] [QuorumCertificate QC H] [FromVotes QC V A] in
theorem accounts_unmoved {current : ManagerEvent B V QC H N S A T} (same : current.after.pendingVotes = current.before.pendingVotes)
    (shut : ¬ Admits blockId round current) (incomplete : completedBy current = none) (stays : entered current = none) :
    Accounts blockId round current := by
  have kept : Voted current.after blockId round = Voted current.before blockId round := by rw [Voted, Voted, same]
  simp only [Accounts, kept, shut, Drops, incomplete, stays, or_false, Option.not_mem_none, false_and, exists_false,
    not_false_eq_true, and_true]

omit [DecidableEq N] [Block B H] [QuorumCertificate QC H] [FromVotes QC V A] in
theorem accounts_moved {current : ManagerEvent B V QC H N S A T} {next : U64}
    (votes : current.after.pendingVotes = current.before.pendingVotes.setRound next) (shut : ¬ Admits blockId round current)
    (incomplete : completedBy current = none) (moves : entered current = some next) : Accounts blockId round current := by
  simp only [Accounts, voted_setRound votes, shut, Drops, incomplete, moves, or_false, Option.not_mem_none, false_and, exists_false,
    false_or, Option.mem_some_iff, exists_eq_left', not_lt]

theorem call_accounts (input : Call B V QC N S A T) : Accounts blockId round (event (call profile) manager input) := by
  have unvoted : (∀ order vote verifier, input ≠ .processVote order vote verifier) →
      completedBy (event (call profile) manager input) = none := by
    intro other
    rw [Option.eq_none_iff_forall_not_mem]
    intro vote member
    obtain ⟨order, verifier, given, _⟩ := completedBy_fresh member
    exact other order vote verifier given
  cases input with
  | processVote order vote verifier => exact voted_vote _ order vote verifier
  | startRound next => exact accounts_moved rfl id (unvoted (by simp)) rfl
  | processTimeout =>
    obtain ⟨failure, failed⟩ | ⟨next, _, _, advanced⟩ := RoundManager.processTimeout_cases profile manager
    · refine accounts_unmoved ?_ id (unvoted (by simp)) ?_
      · simp only [call, event, failed]
      · simp only [entered, event, call, failed]
    · have moves : entered (event (call profile) manager (.processTimeout : Call B V QC N S A T)) = some next := by
        simp only [entered, event, call, advanced]
      refine accounts_moved ?_ id (unvoted (by simp)) moves
      simp only [call, event, advanced]
  | tryVoteForProposal proposal timeoutCert =>
    exact accounts_unmoved (call_votes profile manager (by simp) (by simp) (by simp)) id (unvoted (by simp)) rfl
  | processProposal proposal =>
    exact accounts_unmoved (call_votes profile manager (by simp) (by simp) (by simp)) id (unvoted (by simp)) rfl
  | rules inner =>
    exact accounts_unmoved (call_votes profile manager (by simp) (by simp) (by simp)) id (unvoted (by simp)) rfl

theorem round_call (input : Call B V QC N S A T) :
    (call profile manager input).2.roundState.round =
      (entered (event (call profile) manager input)).getD manager.roundState.round := by
  cases input with
  | startRound next => rfl
  | processTimeout =>
    obtain ⟨failure, failed⟩ | ⟨next, _, _, advanced⟩ := RoundManager.processTimeout_cases profile manager
    · simp only [call, entered, event, failed, Option.getD_none]
    · simp only [call, entered, event, advanced, Option.getD_some]
  | _ => exact RoundManager.call_round profile manager (by simp) (by simp)

end Step

/-- What a run leaves in the manager: the votes that are kept, and the round entered last. -/
structure Leaves (blockId : H) (round : U64) (config : RoundManagerConfig) (past : List (ManagerEvent B V QC H N S A T))
    (manager : RoundManager B V QC H S) : Prop where
  buffer : manager.pendingVotes.maxRounds = config.maxBufferedRounds
  votes : Voted manager blockId round ↔ Kept config.maxBufferedRounds blockId round past
  round : manager.roundState.round = (past.filterMap entered).getLast?.getD 0

theorem leaves_exec (profile : Profile) (config : RoundManagerConfig) (safetyRules : TwoChainSafetyRules)
    (blockId : H) (round : U64) (calls : List (Call B V QC N S A T)) :
    Leaves blockId round config (trace (call profile) (.new config safetyRules : RoundManager B V QC H S) calls)
      (exec (call profile) (.new config safetyRules) calls) := by
  have represents := meets_represents profile config safetyRules calls
  refine represents.history (motive := Leaves blockId round config) ⟨rfl, ?_, rfl⟩ ?_
  · refine iff_of_false ?_ (not_standing_nil _ _)
    intro voted
    obtain ⟨signature, held, inside⟩ := voted
    exact not_holds_new _ _ _ _ inside
  intro past manager input leaves represents
  refine ⟨(represents.call profile input).buffer, ?_, ?_⟩
  · have accounts : Accounts blockId round (event (call profile) manager input) := call_accounts input
    rw [Accounts, event_before, event_after, leaves.buffer, leaves.votes] at accounts
    exact accounts.trans standing_snoc.symm
  · rw [round_call, leaves.round, getLast?_filterMap_snoc]
    cases entered (event (call profile) manager input) <;> rfl

/-- The query is right about a block at the end of a run exactly if, with a certificate of
the block, the round entered last is above and no vote is kept, and without one, it is not
above or a vote is kept. -/
theorem certificate_query_right_iff (profile : Profile) (config : RoundManagerConfig) (safetyRules : TwoChainSafetyRules)
    (blockId : H) (round : U64) (calls : List (Call B V QC N S A T)) :
    let run := trace (call profile) (.new config safetyRules : RoundManager B V QC H S) calls
    Tells blockId round run (exec (call profile) (.new config safetyRules) calls) ↔
      Telling config.maxBufferedRounds blockId round run := by
  intro run
  have leaves := leaves_exec profile config safetyRules blockId round calls
  have above : Over round run ↔ round < (exec (call profile) (.new config safetyRules : RoundManager B V QC H S) calls).roundState.round := by
    rw [leaves.round, Over]
    cases (run.filterMap entered).getLast? with
    | none => exact iff_of_false (by simp) (Fin.not_lt_zero round)
    | some last => simp
  have answer : (exec (call profile) (.new config safetyRules : RoundManager B V QC H S) calls).hasQuorumCertificate blockId round = true ↔
      Over round run ∧ ¬ Kept config.maxBufferedRounds blockId round run := by
    rw [has_iff, leaves.votes, above, and_comm]
  rw [Tells, answer]
  constructor
  · intro right
    refine ⟨right.mpr, ?_⟩
    intro uncertified
    rw [← right, not_and_or, not_not] at uncertified
    exact uncertified
  · intro telling
    refine ⟨?_, telling.certified⟩
    intro reported
    by_contra uncertified
    exact (telling.uncertified uncertified).elim (fun early => early reported.1) reported.2

/-- The certificate of block 7 is reported neither when it is formed nor, with a late vote
stored, when its round is over; block 8 of the same round got no vote and is reported. -/
theorem query_misses_and_invents :
    let set := MockValidatorSet.new [(⟨1⟩, 1), (⟨2⟩, 1), (⟨3⟩, 1), (⟨4⟩, 1)]
    let hand (author : UInt8) := (MockVote.new ⟨author⟩ ⟨7⟩ 1).hand set
    let formed : List MockCall := [hand 1, hand 2, hand 3]
    let moved : List MockCall := formed ++ [hand 4, .startRound 2]
    let truthful (blockId : MockHash) (calls : List MockCall) : Prop := Tells blockId 1
      (trace (call .dev) (.new .default (.new 0) : MockManager) calls) (exec (call .dev) (.new .default (.new 0)) calls)
    ((trace (call .dev) (.new .default (.new 0) : MockManager) moved).filterMap completedBy).map slot = [(1, ⟨7⟩)] ∧
      ¬ truthful ⟨7⟩ formed ∧ ¬ truthful ⟨7⟩ moved ∧ ¬ truthful ⟨8⟩ moved := by
  refine ⟨by decide, ?_, ?_, ?_⟩
  · unfold Tells
    decide
  · unfold Tells
    decide
  · unfold Tells
    decide

end AptosBft.Proofs.CertificateQuery
