import AptosBft.Lib.Consecutive
import AptosBft.Proofs.WaitingVotes

/-! Rounds in which nothing fails. The proposal of a round arrives, then votes arrive in
any order. Enough of them are for the proposal, and none of the others can count. The
certificate they make lets the proposal of the next round commit the block. -/

namespace AptosBft.Proofs.Progress
open Rust Mealy AptosBft.RoundManager AptosBft.Proofs.RoundManager AptosBft.Proofs.PendingVotes
open AptosBft.Proofs.QuorumUniqueness AptosBft.Proofs.QuorumDetection AptosBft.Proofs.HighestCert AptosBft.Proofs.VoteOutcome
open AptosBft.Proofs.WaitingVotes

variable {B V QC H N S A T : Type}

/-- What arrives in a round. Each vote comes with the orders in which its call walks the
hash maps. -/
structure Turn (B V N S : Type) where
  proposal : B
  votes : List (Iteration V N S × V)

section Turns
variable [Block B H] [Vote V B H N S A]

def Turn.opening (turn : Turn B V N S) : List (Call B V QC N S A T) :=
  [.startRound (Block.round turn.proposal), .processProposal turn.proposal, .tryVoteForProposal turn.proposal none,
    .rules (.shouldCommit turn.proposal)]

def Turn.counting (verifier : ValidatorVerifier B V N S A) (turn : Turn B V N S) : List (Call B V QC N S A T) :=
  turn.votes.map fun entry => .processVote entry.1 entry.2 verifier

def Turn.calls (verifier : ValidatorVerifier B V N S A) (turn : Turn B V N S) : List (Call B V QC N S A T) :=
  turn.opening ++ turn.counting verifier

/-- A vote that counts for a proposal. -/
structure Backs (verifier : ValidatorVerifier B V N S A) (epoch : U64) (proposal : B) (vote : V) : Prop where
  verified : Vote.verify vote verifier = .ok ()
  epoch : Vote.epoch vote = epoch
  slot : (Vote.round vote, Vote.blockId vote) = (Block.round proposal, Block.id proposal)

/-- A vote that counts at all is for the proposal. -/
def Harmless (verifier : ValidatorVerifier B V N S A) (epoch : U64) (proposal : B) (vote : V) : Prop :=
  Vote.verify vote verifier = .ok () → Vote.epoch vote = epoch → Block.round proposal ≤ Vote.round vote →
    Backs verifier epoch proposal vote

/-- A round that can succeed: the proposal is signed, the validators who vote for it are a
quorum, and no two of them share a signature. -/
structure Supported (verifier : ValidatorVerifier B V N S A) (epoch : U64) (turn : Turn B V N S) : Prop where
  signed : Block.verifySignature turn.proposal = .ok ()
  harmless : ∀ entry ∈ turn.votes, Harmless verifier epoch turn.proposal entry.2
  apart : ∀ first ∈ turn.votes, ∀ second ∈ turn.votes, Backs verifier epoch turn.proposal first.2 →
    Backs verifier epoch turn.proposal second.2 → Vote.signature first.2 = Vote.signature second.2 →
    Vote.author first.2 = Vote.author second.2
  quorum : ∃ voters : Finset N, verifier.quorumVotingPower ≤ ∑ voter ∈ voters, votingPower verifier voter ∧
    ∀ voter ∈ voters, (verifier.getVotingPower voter).isSome ∧
      ∃ entry ∈ turn.votes, Backs verifier epoch turn.proposal entry.2 ∧ Vote.author entry.2 = voter

/-- Votes that share round and block can be made into a certificate of them. -/
structure Certifying (QC : Type) [QuorumCertificate QC H] [FromVotes QC V A] (verifier : ValidatorVerifier B V N S A) : Prop where
  aggregates : ∀ signatures, ∃ aggregatedSig, verifier.aggregateSignatures signatures = .ok aggregatedSig
  certifies : ∀ (votes : List V) (aggregatedSig : A) (round : U64) (blockId : H), votes ≠ [] →
    (∀ vote ∈ votes, (Vote.round vote, Vote.blockId vote) = (round, blockId)) →
    ∃ qc : QC, FromVotes.fromVotes votes aggregatedSig = .ok qc ∧
      QuorumCertificate.round qc = round ∧ QuorumCertificate.blockId qc = blockId

end Turns

section Managers
variable [DecidableEq H] [DecidableEq N] [DecidableEq S] [Block B H] [Vote V B H N S A] [QuorumCertificate QC H]

/-- The round before this one is certified and nothing of this one has come in. -/
structure Ready (epoch : U64) (round : Nat) (manager : RoundManager B V QC H S) : Prop where
  epochs : manager.roundState.epoch = epoch
  certified : manager.safetyRules.state.oneChainRound.val + 1 = round
  unvoted : manager.safetyRules.state.lastVotedRound.val ≤ round
  older : ∀ key signature held, Holds manager.pendingVotes key signature held → key.1.val < round

/-- The proposal has its certificate. -/
structure Certified (proposal : B) (manager : RoundManager B V QC H S) : Prop where
  oneChain : manager.safetyRules.state.oneChainRound = Block.round proposal
  stored : ∃ qc, manager.roundState.quorumCert = some qc ∧ QuorumCertificate.round qc = Block.round proposal ∧
    QuorumCertificate.blockId qc = Block.id proposal

/-- Every vote for the proposal so far is represented by a stored one of its author, and
together they are not a quorum yet. -/
structure Waiting (verifier : ValidatorVerifier B V N S A) (epoch : U64) (proposal : B) (seen : List V)
    (manager : RoundManager B V QC H S) : Prop where
  oneChain : manager.safetyRules.state.oneChainRound.val + 1 = (Block.round proposal).val
  represented : ∀ vote ∈ seen, Backs verifier epoch proposal vote → ∃ signature held,
    Holds manager.pendingVotes (Block.round proposal, Block.id proposal) signature held ∧ Vote.author held = Vote.author vote
  short : Short verifier manager.pendingVotes (Block.round proposal) (Block.id proposal)

/-- Votes on a proposal are being counted, and these have been handed in. -/
structure Counting (verifier : ValidatorVerifier B V N S A) (epoch : U64) (proposal : B) (seen : List V)
    (manager : RoundManager B V QC H S) : Prop where
  epochs : manager.roundState.epoch = epoch
  round : manager.pendingVotes.currentRound = Block.round proposal
  voted : manager.safetyRules.state.lastVotedRound = Block.round proposal
  past : ∀ key signature held, Holds manager.pendingVotes key signature held → key.1 ≤ Block.round proposal
  cast : ∀ signature held, Holds manager.pendingVotes (Block.round proposal, Block.id proposal) signature held →
    held ∈ seen ∧ Backs verifier epoch proposal held ∧ Vote.signature held = signature
  outcome : Certified proposal manager ∨ Waiting verifier epoch proposal seen manager

variable [FromVotes QC V A] {profile : Profile} {order : Iteration V N S} {verifier : ValidatorVerifier B V N S A} {epoch : U64}
  {proposal : B} {seen : List V} {manager : RoundManager B V QC H S} {vote : V}

omit [QuorumCertificate QC H] [FromVotes QC V A] [DecidableEq N] in
/-- A fresh vote is for the proposal. -/
theorem backs_of_fresh (current : manager.roundState.epoch = epoch) (round : manager.pendingVotes.currentRound = Block.round proposal)
    (harmless : Harmless verifier epoch proposal vote) (fresh : Fresh manager vote verifier) : Backs verifier epoch proposal vote :=
  harmless fresh.verified (fresh.current.symm.trans current) (round ▸ fresh.recent)

omit [FromVotes QC V A] in
/-- A vote that is turned away adds nothing: if it is for the proposal, its author has
one stored already. -/
theorem Counting.turned (counting : Counting verifier epoch proposal seen manager)
    (apart : ∀ other ∈ seen, Backs verifier epoch proposal other → Backs verifier epoch proposal vote →
      Vote.signature other = Vote.signature vote → Vote.author other = Vote.author vote)
    (stale : ¬Fresh manager vote verifier) : Counting verifier epoch proposal (seen ++ [vote]) manager := by
  obtain ⟨epochs, round, voted, past, cast, outcome⟩ := counting
  refine ⟨epochs, round, voted, past, ?_, ?_⟩
  · intro signature held inside
    obtain ⟨listed, backs, own⟩ := cast signature held inside
    exact ⟨List.mem_append_left _ listed, backs, own⟩
  · refine outcome.imp_right fun waiting => ⟨waiting.oneChain, ?_, waiting.short⟩
    intro other listed backs
    obtain early | last := List.mem_append.mp listed
    · exact waiting.represented other early backs
    · cases List.mem_singleton.mp last
      have seenBefore : manager.pendingVotes.isDuplicate (Vote.round vote, Vote.blockId vote) vote = true := by
        by_contra unseen
        refine stale ⟨backs.verified, epochs.trans backs.epoch.symm, ?_, Bool.eq_false_iff.mpr unseen⟩
        rw [round, (Prod.mk.inj backs.slot).1]
      obtain ⟨held, inside⟩ := isDuplicate_iff.mp seenBefore
      rw [backs.slot] at inside
      obtain ⟨before, backed, own⟩ := cast _ held inside
      exact ⟨_, held, inside, apart held before backed backs own⟩

omit [QuorumCertificate QC H] [FromVotes QC V A] [Block B H] [DecidableEq N] in
theorem unstored_of_fresh (fresh : Fresh manager vote verifier) (held : V) :
    ¬Holds manager.pendingVotes (Vote.round vote, Vote.blockId vote) (Vote.signature vote) held := by
  intro inside
  have seen := isDuplicate_iff.mpr ⟨held, inside⟩
  rw [fresh.unseen] at seen
  cases seen

omit [FromVotes QC V A] in
/-- A vote that is stored and does not complete the quorum. -/
theorem Counting.kept (tests : TestsQuorum verifier) (counting : Counting verifier epoch proposal seen manager)
    (fresh : Fresh manager vote verifier) (backs : Backs verifier epoch proposal vote)
    (short : completes order manager vote verifier = false) :
    Counting verifier epoch proposal (seen ++ [vote]) (stored manager vote) := by
  obtain ⟨epochs, round, voted, past, cast, outcome⟩ := counting
  refine ⟨epochs, round, voted, ?_, ?_, ?_⟩
  · intro key signature held inside
    obtain ⟨rfl, _, _⟩ | ⟨_, before⟩ := holds_store.mp inside
    · rw [backs.slot]
    · exact past key signature held before
  · intro signature held inside
    obtain ⟨_, rfl, rfl⟩ | ⟨_, before⟩ := holds_store.mp inside
    · exact ⟨List.mem_append_right _ List.mem_cons_self, backs, rfl⟩
    · obtain ⟨listed, backed, own⟩ := cast signature held before
      exact ⟨List.mem_append_left _ listed, backed, own⟩
  · refine outcome.imp (fun done => ⟨done.oneChain, done.stored⟩) fun waiting => ⟨waiting.oneChain, ?_, ?_⟩
    · intro other listed backed
      obtain early | last := List.mem_append.mp listed
      · obtain ⟨signature, held, inside, same⟩ := waiting.represented other early backed
        refine ⟨signature, held, holds_store.mpr (Or.inr ⟨?_, inside⟩), same⟩
        intro own
        obtain ⟨_, rfl⟩ := own
        rw [← backs.slot] at inside
        exact unstored_of_fresh fresh held inside
      · cases List.mem_singleton.mp last
        exact ⟨Vote.signature vote, vote, holds_store.mpr (Or.inl ⟨backs.slot.symm, rfl, rfl⟩), rfl⟩
    · rw [← (Prod.mk.inj backs.slot).1, ← (Prod.mk.inj backs.slot).2]
      exact (completes_iff tests order manager vote).mp short

omit [DecidableEq H] [DecidableEq N] [DecidableEq S] [Block B H] [Vote V B H N S A] [FromVotes QC V A] in
theorem observeQc_returns (profile : Profile) {rules : TwoChainSafetyRules} (room : rules.state.oneChainRound < u64Max) (qc : QC) :
    (rules.observeQc profile qc).1 = .ok () := by
  obtain ⟨next, sum, _⟩ := U64.plus_one_of_lt profile room
  simp only [TwoChainSafetyRules.observeQc, sum]

/-- The votes that complete a quorum are made into a certificate of the proposal. -/
theorem Counting.forms (tests : TestsQuorum verifier) (certifying : Certifying QC verifier)
    (counting : Counting verifier epoch proposal seen manager) (room : Block.round proposal < u64Max)
    (fresh : Fresh manager vote verifier) (backs : Backs verifier epoch proposal vote)
    (quorum : completes order manager vote verifier = true) :
    ∃ qc : QC, Forms profile order manager vote verifier qc ∧ QuorumCertificate.round qc = Block.round proposal ∧
      QuorumCertificate.blockId qc = Block.id proposal := by
  let votes := (stored manager vote).pendingVotes.getVotes order.votes (Vote.round vote) (Vote.blockId vote)
  have passed : (SignatureAggregator.collect verifier votes).checkQuorum order.formed verifier = .ok () :=
    checkQuorum_reordered (unordered_of_tests tests) _ _ (checkQuorum_getVotes quorum)
  obtain ⟨aggregatedSig, aggregated⟩ := certifying.aggregates
    ((order.formed.arrange (SignatureAggregator.collect verifier votes).signatures.pairs).map Prod.snd)
  have own : vote ∈ votes := mem_getVotes.mpr ⟨_, holds_store.mpr (Or.inl ⟨rfl, rfl, rfl⟩)⟩
  have shared : ∀ cast ∈ votes, (Vote.round cast, Vote.blockId cast) = (Block.round proposal, Block.id proposal) := by
    intro cast listed
    obtain ⟨signature, inside⟩ := mem_getVotes.mp listed
    obtain ⟨_, _, rfl⟩ | ⟨_, before⟩ := holds_store.mp inside
    · exact backs.slot
    · rw [backs.slot] at before
      exact (counting.cast signature cast before).2.1.slot
  obtain ⟨qc, made, round, block⟩ := certifying.certifies votes aggregatedSig _ _ (List.ne_nil_of_mem own) shared
  refine ⟨qc, ⟨fresh, quorum, ?_, ?_⟩, round, block⟩
  · simp only [buildQuorumCertificate, votes] at passed made ⊢
    simp only [passed, SignatureAggregator.aggregate, aggregated, votes]
    exact made
  · apply observeQc_returns
    obtain done | waiting := counting.outcome
    · rwa [done.oneChain]
    · exact lt_of_lt_of_le (Nat.lt_of_succ_le waiting.oneChain.le) room.le

/-- A vote that completes the quorum. -/
theorem Counting.completed (counting : Counting verifier epoch proposal seen manager) {qc : QC}
    (backs : Backs verifier epoch proposal vote) (round : QuorumCertificate.round qc = Block.round proposal)
    (block : QuorumCertificate.blockId qc = Block.id proposal) (forms : Forms profile order manager vote verifier qc) :
    Counting verifier epoch proposal (seen ++ [vote]) (manager.processVote profile order vote verifier).2 := by
  have state := SafetyRules.observeQc_state profile manager.safetyRules qc
  rw [forms.processVote]
  refine ⟨counting.epochs, counting.round, ?_, ?_, ?_, Or.inl ⟨?_, qc, rfl, round, block⟩⟩
  · exact (congrArg SafetyStateData.lastVotedRound state).trans counting.voted
  · intro key signature held inside
    obtain ⟨apart, before⟩ := holds_removeRound.mp inside
    obtain ⟨rfl, _, _⟩ | ⟨_, older⟩ := holds_store.mp before
    · exact absurd rfl apart
    · exact counting.past key signature held older
  · intro signature held inside
    exact absurd (Prod.mk.inj backs.slot).1.symm (holds_removeRound.mp inside).1
  · refine (congrArg SafetyStateData.oneChainRound state).trans ?_
    rw [round]
    refine max_eq_right ?_
    obtain done | waiting := counting.outcome
    · exact done.oneChain.le
    · exact Nat.le_of_succ_le waiting.oneChain.le

/-- A proposal is accepted and voted for, and a vote that verifies is answered. -/
def Answered (current : ManagerEvent B V QC H N S A T) : Prop :=
  match current.input with
  | .processProposal _ => current.output = .proposal (.ok .accepted)
  | .tryVoteForProposal _ _ => current.output = .voted (.ok ())
  | .processVote _ vote verifier => Vote.verify vote verifier = .ok () → ∃ result, current.output = .vote (.ok result)
  | _ => True

omit [Block B H] in
theorem unfresh_answered (profile : Profile) (order : Iteration V N S) (verified : Vote.verify vote verifier = .ok ())
    (stale : ¬Fresh manager vote verifier) : ∃ result, (manager.processVote profile order vote verifier).1 = .ok result := by
  obtain ⟨result, turned, _, _, _, answers⟩ | ⟨fresh, _⟩ | ⟨fresh, _⟩ | ⟨fresh, _⟩ := processVote_cases profile order manager vote verifier
  · rw [turned]
    exact answers verified
  all_goals exact absurd fresh stale

/-- A vote that verifies is answered: if it completes the quorum, the certificate is made. -/
theorem Counting.answered (tests : TestsQuorum verifier) (certifying : Certifying QC verifier)
    (counting : Counting verifier epoch proposal seen manager) (room : Block.round proposal < u64Max)
    (harmless : Harmless verifier epoch proposal vote) :
    Answered (event (call profile) manager (.processVote order vote verifier : Call B V QC N S A T)) := by
  intro verified
  by_cases fresh : Fresh manager vote verifier
  · have backs := backs_of_fresh counting.epochs counting.round harmless fresh
    cases quorum : completes order manager vote verifier with
    | false =>
      have accepted : (manager.processVote profile order vote verifier).1 = .ok .accepted := by
        rw [fresh.processVote, quorum]
        rfl
      exact ⟨.accepted, congrArg Reply.vote accepted⟩
    | true =>
      obtain ⟨qc, forms, _⟩ : ∃ qc : QC, Forms profile order manager vote verifier qc ∧ _ :=
        counting.forms tests certifying room fresh backs quorum
      exact ⟨.quorumCompleted, congrArg Reply.vote (completed_iff_forms.mpr ⟨qc, forms⟩)⟩
  · obtain ⟨result, answered⟩ := unfresh_answered profile order verified fresh
    exact ⟨result, congrArg Reply.vote answered⟩

/-- One vote more. -/
theorem Counting.step (tests : TestsQuorum verifier) (certifying : Certifying QC verifier)
    (counting : Counting verifier epoch proposal seen manager) (room : Block.round proposal < u64Max)
    (harmless : Harmless verifier epoch proposal vote)
    (apart : ∀ other ∈ seen, Backs verifier epoch proposal other → Backs verifier epoch proposal vote →
      Vote.signature other = Vote.signature vote → Vote.author other = Vote.author vote) :
    Counting verifier epoch proposal (seen ++ [vote]) (manager.processVote profile order vote verifier).2 := by
  by_cases fresh : Fresh manager vote verifier
  · have backs := backs_of_fresh counting.epochs counting.round harmless fresh
    cases quorum : completes order manager vote verifier with
    | false =>
      rw [fresh.processVote, quorum]
      exact counting.kept tests fresh backs quorum
    | true =>
      obtain ⟨qc, forms, round, block⟩ := counting.forms tests certifying room fresh backs quorum
      exact counting.completed backs round block forms
  · rw [unfresh_unchanged fresh]
    exact counting.turned apart fresh

/-- All the votes of a round, in the order they come. -/
theorem Counting.run (profile : Profile) (tests : TestsQuorum verifier) (certifying : Certifying QC verifier) (room : Block.round proposal < u64Max)
    {votes : List (Iteration V N S × V)} (counting : Counting verifier epoch proposal seen manager)
    (harmless : ∀ entry ∈ votes, Harmless verifier epoch proposal entry.2)
    (apart : ∀ first ∈ seen ++ votes.map Prod.snd, ∀ second ∈ seen ++ votes.map Prod.snd, Backs verifier epoch proposal first →
      Backs verifier epoch proposal second → Vote.signature first = Vote.signature second → Vote.author first = Vote.author second) :
    let calls : List (Call B V QC N S A T) := votes.map fun entry => .processVote entry.1 entry.2 verifier
    (∀ current ∈ trace (call profile) manager calls, Answered current) ∧
      Counting verifier epoch proposal (seen ++ votes.map Prod.snd) (exec (call profile) manager calls) := by
  induction votes generalizing seen manager with
  | nil => exact ⟨by simp, by simpa using counting⟩
  | cons entry rest ih =>
    obtain ⟨order, vote⟩ := entry
    have listed : vote ∈ seen ++ ((order, vote) :: rest).map Prod.snd := List.mem_append_right _ List.mem_cons_self
    have next : Counting verifier epoch proposal (seen ++ [vote]) (manager.processVote profile order vote verifier).2 := by
      refine counting.step tests certifying room (harmless _ List.mem_cons_self) ?_
      intro other before backs backed same
      exact apart other (List.mem_append_left _ before) vote listed backs backed same
    have whole : seen ++ ((order, vote) :: rest).map Prod.snd = seen ++ [vote] ++ rest.map Prod.snd := by simp
    rw [whole] at apart ⊢
    obtain ⟨answers, counted⟩ := ih next (fun other member => harmless other (List.mem_cons_of_mem _ member)) apart
    simp only [List.map_cons, forall_trace_cons]
    exact ⟨⟨counting.answered tests certifying room (harmless _ List.mem_cons_self), answers⟩, counted⟩

omit [FromVotes QC V A] in
/-- When the voters are a quorum, waiting is over. -/
theorem Counting.certified (counting : Counting verifier epoch proposal seen manager) {voters : Finset N}
    (quorum : verifier.quorumVotingPower ≤ ∑ voter ∈ voters, votingPower verifier voter)
    (voted : ∀ voter ∈ voters, (verifier.getVotingPower voter).isSome ∧
      ∃ vote ∈ seen, Backs verifier epoch proposal vote ∧ Vote.author vote = voter) : Certified proposal manager := by
  refine counting.outcome.resolve_right fun waiting => ?_
  have counted : voters ⊆
      backers verifier (manager.pendingVotes.getVotes .insertion (Block.round proposal) (Block.id proposal)) := by
    intro voter member
    obtain ⟨known, vote, listed, backs, rfl⟩ := voted voter member
    obtain ⟨signature, held, inside, same⟩ := waiting.represented vote listed backs
    exact mem_backers.mpr ⟨⟨held, mem_getVotes.mpr ⟨signature, inside⟩, same⟩, known⟩
  have enough := quorum.trans (Finset.sum_le_sum_of_subset counted)
  exact absurd waiting.short (not_lt.mpr enough)

/-- A manager that is ready accepts the proposal, votes for it and commits the block
before it. -/
theorem Ready.opens (profile : Profile) {turn : Turn B V N S} (positive : 0 < verifier.quorumVotingPower)
    (ready : Ready epoch (Block.round turn.proposal).val manager) (signed : Block.verifySignature turn.proposal = .ok ()) :
    (trace (call profile) manager (turn.opening : List (Call B V QC N S A T))).map Event.output =
      [.started, .proposal (.ok .accepted), .voted (.ok ()), .rules (.commit (some (Block.parentId turn.proposal)))] ∧
    Counting verifier epoch turn.proposal []
      (exec (call profile) manager (turn.opening : List (Call B V QC N S A T))) := by
  let proposed := { manager.startRound (Block.round turn.proposal) with
    roundState := (manager.startRound (Block.round turn.proposal)).roundState.setProposedBlock turn.proposal }
  have accepted : (manager.startRound (Block.round turn.proposal)).processProposal turn.proposal = (.ok .accepted, proposed) := by
    simp [processProposal, RoundState.isCurrentRound, startRound, RoundState.setRound, signed, proposed]
  have allowed : (proposed.tryVoteForProposal turn.proposal (none : Option (TwoChainTimeoutCertificate T))).1 = .ok () := by
    refine (tryVote_ok_iff _ _ _).mpr ⟨ready.unvoted, ?_, by simp⟩
    have certified := ready.certified
    omega
  obtain ⟨error, refused⟩ | ⟨safetyRules, voted, _, _, recorded⟩ :=
    tryVote_cases proposed turn.proposal (none : Option (TwoChainTimeoutCertificate T))
  · rw [refused] at allowed
    cases allowed
  · have oneChain : safetyRules.state.oneChainRound = manager.safetyRules.state.oneChainRound := by rw [recorded]; rfl
    have lastVoted : safetyRules.state.lastVotedRound = Block.round turn.proposal := by
      rw [recorded]
      exact max_eq_right ready.unvoted
    have commits : safetyRules.shouldCommit turn.proposal = some (Block.parentId turn.proposal) :=
      SafetyRules.shouldCommit_eq_some.mpr ⟨by rw [oneChain, ready.certified], rfl⟩
    have nothing : ∀ signature held,
        ¬Holds proposed.pendingVotes (Block.round turn.proposal, Block.id turn.proposal) signature held := by
      intro signature held inside
      exact absurd (ready.older _ _ _ (holds_setRound.mp inside).2) (lt_irrefl _)
    simp only [Turn.opening, trace_cons, trace_nil, exec_cons, exec_nil, event, call, accepted, voted,
      TwoChainSafetyRules.call, commits, List.map_cons, List.map_nil, true_and]
    refine ⟨ready.epochs, rfl, lastVoted, ?_, ?_, Or.inr ⟨?_, ?_, ?_⟩⟩
    · intro key signature held inside
      exact (ready.older _ _ _ (holds_setRound.mp inside).2).le
    · intro signature held inside
      exact absurd inside (nothing signature held)
    · rw [oneChain, ready.certified]
    · simp
    · exact short_of_none positive nothing

/-- The block a call decided to commit. -/
def committed (current : ManagerEvent B V QC H N S A T) : Option H :=
  match current.output with
  | .rules (.commit block) => block
  | _ => none

omit [DecidableEq H] [DecidableEq N] [DecidableEq S] [Block B H] [Vote V B H N S A] [QuorumCertificate QC H] [FromVotes QC V A] in
theorem committed_of_outputs {run : List (ManagerEvent B V QC H N S A T)} {replies : List (Reply H)}
    (same : run.map Event.output = replies) :
    run.filterMap committed = replies.filterMap fun reply => match reply with
      | .rules (.commit block) => block
      | _ => none := by
  rw [← same, List.filterMap_map]
  rfl

theorem counting_commits_nothing (profile : Profile) (manager : RoundManager B V QC H S) (votes : List (Iteration V N S × V))
    (verifier : ValidatorVerifier B V N S A) :
    (trace (call profile) manager (votes.map fun entry => (.processVote entry.1 entry.2 verifier : Call B V QC N S A T))).filterMap
      committed = [] := by
  induction votes generalizing manager with
  | nil => rfl
  | cons entry rest ih => exact ih (manager.processVote profile entry.1 entry.2 verifier).2

/-- A whole round. -/
theorem Ready.turn (profile : Profile) (tests : TestsQuorum verifier) (positive : 0 < verifier.quorumVotingPower) (certifying : Certifying QC verifier)
    {turn : Turn B V N S} (ready : Ready epoch (Block.round turn.proposal).val manager) (supported : Supported verifier epoch turn)
    (room : Block.round turn.proposal < u64Max) :
    let run := trace (call profile) manager (turn.calls verifier : List (Call B V QC N S A T))
    let final := exec (call profile) manager (turn.calls verifier : List (Call B V QC N S A T))
    run.filterMap committed = [Block.parentId turn.proposal] ∧ (∀ current ∈ run, Answered current) ∧
      Certified turn.proposal final ∧ Ready epoch ((Block.round turn.proposal).val + 1) final := by
  intro run final
  obtain ⟨outputs, opened⟩ := ready.opens profile (T := T) positive supported.signed
  obtain ⟨voters, quorum, voted⟩ := supported.quorum
  have split : run = trace (call profile) manager (turn.opening : List (Call B V QC N S A T)) ++
      trace (call profile) (exec (call profile) manager (turn.opening : List (Call B V QC N S A T)))
        (turn.counting verifier) := trace_append _ _ _ _
  have reached : final = exec (call profile) (exec (call profile) manager (turn.opening : List (Call B V QC N S A T)))
      (turn.counting verifier) := exec_append _ _ _ _
  have apart : ∀ first ∈ [] ++ turn.votes.map Prod.snd, ∀ second ∈ [] ++ turn.votes.map Prod.snd,
      Backs verifier epoch turn.proposal first → Backs verifier epoch turn.proposal second →
      Vote.signature first = Vote.signature second → Vote.author first = Vote.author second := by
    rw [List.nil_append]
    intro first listed second member
    obtain ⟨entry, here, rfl⟩ := List.mem_map.mp listed
    obtain ⟨other, there, rfl⟩ := List.mem_map.mp member
    exact supported.apart entry here other there
  obtain ⟨answers, counted⟩ := opened.run (T := T) profile tests certifying room supported.harmless apart
  rw [List.nil_append] at counted
  change Counting verifier epoch turn.proposal (turn.votes.map Prod.snd) (exec (call profile)
    (exec (call profile) manager (turn.opening : List (Call B V QC N S A T))) (turn.counting verifier)) at counted
  rw [← reached] at counted
  have certified : Certified turn.proposal final := by
    refine counted.certified quorum fun voter member => ?_
    obtain ⟨known, entry, listed, backs, same⟩ := voted voter member
    exact ⟨known, entry.2, List.mem_map_of_mem listed, backs, same⟩
  have quiet := counting_commits_nothing (T := T) profile
    (exec (call profile) manager (turn.opening : List (Call B V QC N S A T))) turn.votes verifier
  refine ⟨?_, ?_, certified, counted.epochs, by rw [certified.oneChain], ?_, ?_⟩
  · rw [split, List.filterMap_append, committed_of_outputs outputs]
    exact congrArg ([Block.parentId turn.proposal] ++ ·) quiet
  · intro current member
    rw [split, List.mem_append] at member
    obtain opening | counting := member
    · simp only [Turn.opening, trace_cons, trace_nil, List.map_cons, List.map_nil, List.cons.injEq, event_output] at outputs
      simp only [Turn.opening, trace_cons, trace_nil, List.mem_cons, List.not_mem_nil, or_false] at opening
      obtain ⟨_, accepted, allowed, _⟩ := outputs
      obtain rfl | rfl | rfl | rfl := opening
      · trivial
      · exact accepted
      · exact allowed
      · trivial
    · exact answers current counting
  · rw [counted.voted]
    exact Nat.le_succ _
  · intro key signature held inside
    exact Nat.lt_succ_of_le (counted.past key signature held inside)

/-- Any number of rounds, one after the other. -/
theorem Ready.turns (profile : Profile) (tests : TestsQuorum verifier) (positive : 0 < verifier.quorumVotingPower)
    (certifying : Certifying QC verifier) {turns : List (Turn B V N S)} {round : Nat} (ready : Ready epoch round manager)
    (supported : ∀ turn ∈ turns, Supported verifier epoch turn)
    (rounds : CountsFrom round (turns.map fun turn => Block.round turn.proposal))
    (room : ∀ turn ∈ turns, Block.round turn.proposal < u64Max) :
    let calls : List (Call B V QC N S A T) := turns.flatMap (Turn.calls verifier)
    (trace (call profile) manager calls).filterMap committed = turns.map (fun turn => Block.parentId turn.proposal) ∧
      (∀ current ∈ trace (call profile) manager calls, Answered current) ∧
      (∀ last ∈ turns.getLast?, Certified last.proposal (exec (call profile) manager calls)) ∧
      Ready epoch (round + turns.length) (exec (call profile) manager calls) := by
  induction turns generalizing round manager with
  | nil => exact ⟨rfl, by simp, by simp, ready⟩
  | cons turn rest ih =>
    obtain ⟨rfl, following⟩ := countsFrom_cons.mp rounds
    obtain ⟨first, answered, certified, next⟩ := ready.turn profile (T := T) tests positive certifying
      (supported turn List.mem_cons_self) (room turn List.mem_cons_self)
    obtain ⟨later, answers, last, final⟩ := ih next (fun other member => supported other (List.mem_cons_of_mem _ member)) following
      (fun other member => room other (List.mem_cons_of_mem _ member))
    simp only [List.flatMap_cons, trace_append, exec_append, List.filterMap_append, first, later, List.map_cons,
      List.length_cons, List.mem_append]
    refine ⟨rfl, ?_, ?_, ?_⟩
    · intro current member
      obtain early | late := member
      · exact answered current early
      · exact answers current late
    · intro other found
      cases rest with
      | nil =>
        cases found
        exact certified
      | cons => exact last other found
    · rw [Nat.add_comm rest.length 1, ← Nat.add_assoc]
      exact final

omit [DecidableEq H] [DecidableEq N] [DecidableEq S] [Vote V B H N S A] [QuorumCertificate QC H] [FromVotes QC V A] in
/-- The parents of a chain of blocks are the blocks themselves but for the last, after the
parent of the first. -/
theorem parents_of_linked {first : Turn B V N S} {rest : List (Turn B V N S)}
    (linked : (first :: rest).IsChain fun turn next => Block.parentId next.proposal = Block.id turn.proposal) :
    (first :: rest).map (fun turn => Block.parentId turn.proposal) =
      Block.parentId first.proposal :: ((first :: rest).map fun turn => Block.id turn.proposal).dropLast := by
  induction rest generalizing first with
  | nil => rfl
  | cons second rest ih =>
    obtain ⟨link, others⟩ := List.isChain_cons_cons.mp linked
    rw [List.map_cons, ih others, link]
    rfl

/-- Rounds in which nothing fails but votes that do not verify commit the chain of their
proposals, each block in the round after its own, whatever the orders in which the votes
come in and the hash maps are walked, and whichever replays, strangers' votes and late votes
come in between. -/
theorem good_rounds_commit (profile : Profile) (tests : TestsQuorum verifier) (positive : 0 < verifier.quorumVotingPower)
    (certifying : Certifying QC verifier) (first : Turn B V N S) (rest : List (Turn B V N S)) {round : Nat}
    (ready : Ready epoch round manager) (supported : ∀ turn ∈ first :: rest, Supported verifier epoch turn)
    (rounds : CountsFrom round ((first :: rest).map fun turn => Block.round turn.proposal))
    (room : ∀ turn ∈ first :: rest, Block.round turn.proposal < u64Max)
    (linked : (first :: rest).IsChain fun turn next => Block.parentId next.proposal = Block.id turn.proposal) :
    let calls : List (Call B V QC N S A T) := (first :: rest).flatMap (Turn.calls verifier)
    let run := trace (call profile) manager calls
    let final := exec (call profile) manager calls
    run.filterMap committed = Block.parentId first.proposal :: ((first :: rest).map fun turn => Block.id turn.proposal).dropLast ∧
      (∀ current ∈ run, Answered current) ∧ (∀ last ∈ (first :: rest).getLast?, Certified last.proposal final) ∧
      Ready epoch (round + (first :: rest).length) final := by
  intro calls run final
  rw [← parents_of_linked linked]
  exact ready.turns profile tests positive certifying supported rounds room

end Managers

section Mock

theorem mock_certifying (set : MockValidatorSet) : Certifying VotedCert set.verifier where
  aggregates _ := ⟨⟨⟩, rfl⟩
  certifies votes aggregatedSig round blockId nonempty shared := by
    cases votes with
    | nil => exact absurd rfl nonempty
    | cons vote rest =>
      have slot := Prod.mk.inj (shared vote List.mem_cons_self)
      exact ⟨⟨vote.blockId, vote.round⟩, rfl, slot.1, slot.2⟩

/-- The votes of these authors for a proposal, among others that are for earlier rounds. -/
def mockTurn (proposal : MockBlock) (authors : List UInt8) (late : List MockVote) : Turn MockBlock MockVote MockHash MockSignature :=
  ⟨proposal, (late ++ authors.map fun author => MockVote.new ⟨author⟩ (Block.id proposal) (Block.round proposal)).map
    fun vote => (.insertion, vote)⟩

theorem mockTurn_supported (set : MockValidatorSet) {proposal : MockBlock} {authors : List UInt8} {late : List MockVote}
    (early : ∀ vote ∈ late, vote.round < Block.round proposal) (voters : List MockHash) (once : voters.Nodup)
    (enough : set.quorumThreshold ≤ (voters.map (votingPower set.verifier)).sum)
    (voted : ∀ voter ∈ voters, voter.byte ∈ authors ∧ (set.validators.lookup voter).isSome) :
    Supported set.verifier 0 (mockTurn proposal authors late) where
  signed := rfl
  harmless := by
    intro entry listed verified epoch recent
    obtain ⟨vote, member, rfl⟩ := List.mem_map.mp listed
    obtain before | own := List.mem_append.mp member
    · exact absurd (early vote before) (not_lt.mpr recent)
    · obtain ⟨author, _, rfl⟩ := List.mem_map.mp own
      exact ⟨rfl, rfl, rfl⟩
  apart := by
    have cast : ∀ entry ∈ (mockTurn proposal authors late).votes, Backs set.verifier 0 proposal entry.2 →
        ∃ author, entry.2 = MockVote.new ⟨author⟩ (Block.id proposal) (Block.round proposal) := by
      intro entry listed backs
      obtain ⟨vote, member, rfl⟩ := List.mem_map.mp listed
      obtain before | own := List.mem_append.mp member
      · exact absurd (Prod.mk.inj backs.slot).1 (early vote before).ne
      · obtain ⟨author, _, rfl⟩ := List.mem_map.mp own
        exact ⟨author, rfl⟩
    intro first listed second member backs backed same
    obtain ⟨author, left⟩ := cast first listed backs
    obtain ⟨other, right⟩ := cast second member backed
    rw [left, right] at same ⊢
    cases same
    rfl
  quorum := by
    refine ⟨voters.toFinset, enough.trans (List.sum_toFinset _ once).ge, ?_⟩
    intro voter member
    obtain ⟨listed, known⟩ := voted voter (List.mem_toFinset.mp member)
    refine ⟨known, (.insertion, MockVote.new voter (Block.id proposal) (Block.round proposal)), ?_, ⟨rfl, rfl, rfl⟩, rfl⟩
    exact List.mem_map.mpr ⟨_, List.mem_append_right _ (List.mem_map.mpr ⟨voter.byte, listed, rfl⟩), rfl⟩

theorem two_rounds_commit :
    let set := MockValidatorSet.new [(⟨1⟩, 1), (⟨2⟩, 1), (⟨3⟩, 1), (⟨4⟩, 1)]
    let parent := makeBlock 1 0 8 ⟨0⟩
    let child := makeBlock 2 0 8 ⟨9⟩
    let calls : List (Call MockBlock MockVote VotedCert MockHash MockSignature MockAggregatedSignature MockSignature) :=
      [mockTurn parent [2, 2, 4, 1] [], mockTurn child [1, 3, 4] [.new ⟨3⟩ ⟨9⟩ 1]].flatMap (Turn.calls set.verifier)
    let manager : RoundManager MockBlock MockVote VotedCert MockHash MockSignature := .new .default (.new 0)
    (trace (call .dev) manager calls).filterMap committed = [⟨0⟩, ⟨9⟩] ∧ Certified child (exec (call .dev) manager calls) := by
  intro set parent child calls manager
  have ready : Ready 0 1 manager := ⟨rfl, rfl, by decide, fun _ _ _ inside => absurd inside (not_holds_new _ _ _ _)⟩
  have supported : ∀ turn ∈ [mockTurn parent [2, 2, 4, 1] [], mockTurn child [1, 3, 4] [.new ⟨3⟩ ⟨9⟩ 1]],
      Supported set.verifier 0 turn := by
    rw [List.forall_mem_cons, List.forall_mem_singleton]
    exact ⟨mockTurn_supported set (by simp) [⟨1⟩, ⟨2⟩, ⟨4⟩] (by decide) (by decide) (by decide),
      mockTurn_supported set (by decide) [⟨1⟩, ⟨3⟩, ⟨4⟩] (by decide) (by decide) (by decide)⟩
  have weighs : Weighs set.verifier set.validators.keys.toFinset := mock_weighs set (by decide)
  have positive : 0 < set.verifier.quorumVotingPower := by decide
  have commits := good_rounds_commit (T := MockSignature) .dev weighs.checks positive
    (mock_certifying set) (mockTurn parent [2, 2, 4, 1] []) [mockTurn child [1, 3, 4] [.new ⟨3⟩ ⟨9⟩ 1]] ready supported
    rfl (by decide) (List.isChain_pair.mpr (by decide))
  exact ⟨commits.1.trans (by decide), commits.2.2.1 _ rfl⟩

end Mock
end AptosBft.Proofs.Progress
