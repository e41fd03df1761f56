import AptosBft.Lib.Quorum
import AptosBft.Proofs.Representation

/-! At most one quorum per round. Votes are stored by round, block and signature,
counted again by author, dropped with their round and possibly sent again. None of
that matters for uniqueness: a completed quorum is a group of known validators
that all voted for its block somewhere in the run. -/

namespace AptosBft.Proofs.QuorumUniqueness
open Rust Mealy AptosBft.RoundManager AptosBft.Proofs.PendingVotes AptosBft.Proofs.Representation

variable {B V QC H N S A T : Type} [Vote V B H N S A]

def votingPower (verifier : ValidatorVerifier B V N S A) (validator : N) : Nat :=
  ((verifier.getVotingPower validator).map Fin.val).getD 0

/-- A verifier over a finite set of validators whose quorum is more than two
thirds of their power and which tests exactly that. -/
structure Weighs (verifier : ValidatorVerifier B V N S A) (validators : Finset N) : Prop where
  known : ∀ validator, (verifier.getVotingPower validator).isSome → validator ∈ validators
  quorum : 2 * ∑ validator ∈ validators, votingPower verifier validator < 3 * verifier.quorumVotingPower
  checks : ∀ signers : List N, signers.Nodup →
    (verifier.checkVotingPower signers true = .ok () ↔ verifier.quorumVotingPower ≤ (signers.map (votingPower verifier)).sum)

section Counting
variable [DecidableEq N]

theorem collect_snoc (verifier : ValidatorVerifier B V N S A) (votes : List V) (vote : V) :
    SignatureAggregator.collect verifier (votes ++ [vote]) = match verifier.getVotingPower (Vote.author vote) with
      | some votingPower =>
        (SignatureAggregator.collect verifier votes).addSignature (Vote.author vote) (Vote.signature vote) votingPower
      | none => SignatureAggregator.collect verifier votes := by
  rw [SignatureAggregator.collect, List.foldl_append]
  rfl

theorem mem_addSignature {aggregator : SignatureAggregator N S} {validator signer : N} {signature : S} {votingPower : U64} :
    signer ∈ (aggregator.addSignature validator signature votingPower).signatures ↔
      signer ∈ aggregator.signatures ∨ signer = validator := by
  rw [SignatureAggregator.addSignature]
  split
  next counted =>
    refine (or_iff_left_of_imp ?_).symm
    rintro rfl
    exact counted
  next => rw [AList.mem_insert, or_comm]

/-- The signers are the known authors, whatever the order of the votes. -/
theorem mem_collect {verifier : ValidatorVerifier B V N S A} {votes : List V} {signer : N} :
    signer ∈ (SignatureAggregator.collect verifier votes).signatures ↔
      (∃ vote ∈ votes, Vote.author vote = signer) ∧ (verifier.getVotingPower signer).isSome := by
  induction votes using List.reverseRecOn with
  | nil => exact iff_of_false (AList.notMem_empty signer) (by simp)
  | append_singleton votes vote ih =>
    have last : (∃ cast ∈ votes ++ [vote], Vote.author cast = signer) ↔
        (∃ cast ∈ votes, Vote.author cast = signer) ∨ Vote.author vote = signer := by
      simp only [List.mem_append, List.mem_singleton, or_and_right, exists_or, exists_eq_left]
    rw [last, or_and_right, ← ih, collect_snoc]
    cases found : verifier.getVotingPower (Vote.author vote) with
    | none =>
      refine (or_iff_left ?_).symm
      rintro ⟨rfl, known⟩
      rw [found] at known
      cases known
    | some votingPower =>
      rw [mem_addSignature]
      refine or_congr_right ⟨?_, ?_⟩
      · rintro rfl
        exact ⟨rfl, by rw [found]; rfl⟩
      · rintro ⟨rfl, _⟩
        rfl

omit [DecidableEq N] in
theorem signers_perm (order : Order (N × S)) (aggregator : SignatureAggregator N S) :
    ((order.arrange aggregator.signatures.pairs).map Prod.fst).Perm aggregator.signatures.keys := by
  rw [← HashMap.pairs_fst]
  exact (order.perm _).map _

/-- A quorum that passes the check is a group of validators with votes of their
own for the block, holding more than two thirds of the power. -/
theorem checkQuorum_group {verifier : ValidatorVerifier B V N S A} {validators : Finset N} (weighs : Weighs verifier validators)
    {order : Order (N × S)} {votes : List V}
    (passed : (SignatureAggregator.collect verifier votes).checkQuorum order verifier = .ok ()) :
    ∃ group ⊆ validators,
      2 * ∑ validator ∈ validators, votingPower verifier validator < 3 * ∑ member ∈ group, votingPower verifier member ∧
      ∀ member ∈ group, ∃ vote ∈ votes, Vote.author vote = member := by
  let aggregator := SignatureAggregator.collect verifier votes
  have arranged := signers_perm order aggregator
  have distinct := arranged.nodup_iff.mpr aggregator.signatures.keys_nodup
  have enough := (weighs.checks _ distinct).mp passed
  refine ⟨aggregator.signatures.keys.toFinset, ?_, ?_, ?_⟩
  · intro member inside
    exact weighs.known member (mem_collect.mp (AList.mem_keys.mpr (List.mem_toFinset.mp inside))).2
  · have total : ∑ member ∈ aggregator.signatures.keys.toFinset, votingPower verifier member =
        (aggregator.signatures.keys.map (votingPower verifier)).sum :=
      List.sum_toFinset _ aggregator.signatures.keys_nodup
    rw [total]
    rw [(arranged.map (votingPower verifier)).sum_eq] at enough
    have share := weighs.quorum
    omega
  · intro member inside
    exact (mem_collect.mp (AList.mem_keys.mpr (List.mem_toFinset.mp inside))).1

end Counting

section Runs
variable [DecidableEq H] [DecidableEq N] [DecidableEq S]

/-- Validators holding a quorum voted, somewhere in the run, for the block that
this vote is for. -/
def Backed (verifier : ValidatorVerifier B V N S A) (validators : Finset N) (received : List V) (vote : V) : Prop :=
  ∃ group ⊆ validators,
    2 * ∑ validator ∈ validators, votingPower verifier validator < 3 * ∑ member ∈ group, votingPower verifier member ∧
    ∀ member ∈ group, ∃ cast ∈ received, Vote.author cast = member ∧ Vote.round cast = Vote.round vote ∧
      Vote.blockId cast = Vote.blockId vote

omit [DecidableEq H] [DecidableEq N] [DecidableEq S] in
theorem Backed.more {verifier : ValidatorVerifier B V N S A} {validators : Finset N} {received later : List V} {vote : V}
    (backed : Backed verifier validators received vote) (grown : received ⊆ later) :
    Backed verifier validators later vote := by
  obtain ⟨group, inside, quorum, voted⟩ := backed
  refine ⟨group, inside, quorum, ?_⟩
  intro member listed
  obtain ⟨cast, member, facts⟩ := voted member listed
  exact ⟨cast, grown member, facts⟩

variable [Block B H] [QuorumCertificate QC H] [FromVotes QC V A]

def handed : Call B V QC N S A T → Option V
  | .processVote _ vote _ => some vote
  | _ => none

def completedBy (event : RoundManager.ManagerEvent B V QC H N S A T) : Option V :=
  match event.input, event.output with
  | .processVote _ vote _, .vote (.ok .quorumCompleted) => some vote
  | _, _ => none

variable {verifier : ValidatorVerifier B V N S A} {validators : Finset N}

omit [FromVotes QC V A] in
theorem completes_backed (weighs : Weighs verifier validators) {config : RoundManagerConfig} {calls : List (Call B V QC N S A T)}
    {manager : RoundManager B V QC H S} (represents : Represents config calls manager) {order : Iteration V N S} {vote : V}
    (fresh : RoundManager.Fresh manager vote verifier) (complete : RoundManager.completes order manager vote verifier = true) :
    Backed verifier validators ((calls ++ [Call.processVote order vote verifier]).filterMap handed) vote := by
  have filed := represents.stored order fresh
  obtain ⟨group, inside, quorum, voted⟩ := checkQuorum_group weighs (checkQuorum_getVotes complete)
  refine ⟨group, inside, quorum, ?_⟩
  intro member listed
  obtain ⟨cast, among, author⟩ := voted member listed
  obtain ⟨signature, held⟩ := mem_getVotes.mp among
  obtain ⟨round, block⟩ := Prod.mk.inj (filed.place _ signature cast held).1
  obtain ⟨_, _, received, _⟩ := filed.verified _ signature cast held
  exact ⟨cast, List.mem_filterMap.mpr ⟨_, received, rfl⟩, author, round.symm, block.symm⟩

theorem completedBy_fresh {profile : Profile} {manager : RoundManager B V QC H S} {input : Call B V QC N S A T} {vote : V}
    (done : completedBy (event (call profile) manager input) = some vote) :
    ∃ order verifier, input = .processVote order vote verifier ∧ RoundManager.Fresh manager vote verifier ∧
      RoundManager.completes order manager vote verifier = true ∧
      (call profile manager input).1 = .vote (.ok .quorumCompleted) ∧
      ∃ qc : QC, (RoundManager.stored manager vote).buildQuorumCertificate order (Vote.blockId vote) (Vote.round vote) verifier =
        .ok qc := by
  have effect := RoundManager.call_effect profile manager input
  simp only [completedBy, event] at done
  generalize call profile manager input = answer at effect done ⊢
  obtain ⟨reply, after⟩ := answer
  cases effect with
  | completed fresh quorum built =>
    cases done
    exact ⟨_, _, rfl, fresh, quorum, rfl, _, built⟩
  | quiet _ _ notCompleted =>
    split at done
    · simp_all
    · cases done
  | kept _ outcome => rcases outcome with rfl | ⟨failure, rfl⟩ <;> cases done
  | _ => cases done

theorem completed_backed (weighs : Weighs verifier validators) {profile : Profile} {config : RoundManagerConfig}
    {safetyRules : TwoChainSafetyRules} {calls : List (Call B V QC N S A T)}
    (fixed : ∀ input ∈ calls, ∀ order vote other, input = .processVote order vote other → other = verifier) {vote : V}
    (completed : vote ∈ (trace (call profile) (.new config safetyRules : RoundManager B V QC H S) calls).filterMap completedBy) :
    Backed verifier validators (calls.filterMap handed) vote := by
  obtain ⟨current, member, done⟩ := List.mem_filterMap.mp completed
  obtain ⟨first, later, same, here⟩ := mem_trace _ member
  rw [here] at done
  obtain ⟨order, other, input, fresh, complete, _⟩ := completedBy_fresh done
  rw [input] at same
  subst same
  obtain rfl := fixed (.processVote order vote other) (by simp) order vote other rfl
  have backed := completes_backed weighs (represents_exec profile config safetyRules first) fresh complete
  refine backed.more (List.Sublist.filterMap handed ?_).subset
  exact (List.singleton_sublist.mpr List.mem_cons_self).append_left first

def equivocators (validators : Finset N) (votes : List V) (round : U64) : Finset N :=
  validators.filter fun author => ∃ first ∈ votes, ∃ second ∈ votes, Vote.author first = author ∧
    Vote.author second = author ∧ Vote.round first = round ∧ Vote.round second = round ∧
    Vote.blockId first ≠ Vote.blockId second

/-- In any run of a fresh manager with one verifier, whatever else is called in
between, at most one block of a round completes a quorum as long as the authors
that voted for two blocks of the round hold at most a third of the power. -/
theorem one_quorum_per_round (weighs : Weighs verifier validators) (profile : Profile) (config : RoundManagerConfig)
    (safetyRules : TwoChainSafetyRules) (calls : List (Call B V QC N S A T))
    (fixed : ∀ input ∈ calls, ∀ order vote other, input = .processVote order vote other → other = verifier) (round : U64)
    (minority : 3 * ∑ author ∈ equivocators validators (calls.filterMap handed) round, votingPower verifier author ≤
      ∑ validator ∈ validators, votingPower verifier validator) (first second : V)
    (left : first ∈ (trace (call profile) (RoundManager.new config safetyRules : RoundManager B V QC H S) calls).filterMap completedBy)
    (right : second ∈ (trace (call profile) (RoundManager.new config safetyRules : RoundManager B V QC H S) calls).filterMap completedBy)
    (here : Vote.round first = round) (there : Vote.round second = round) :
    Vote.blockId first = Vote.blockId second := by
  obtain ⟨firstGroup, firstInside, firstQuorum, firstVoted⟩ := completed_backed weighs fixed left
  obtain ⟨secondGroup, secondInside, secondQuorum, secondVoted⟩ := completed_backed weighs fixed right
  have shared := Quorum.two_thirds_overlap (votingPower verifier) firstInside secondInside firstQuorum secondQuorum
  by_contra different
  have covered : firstGroup ∩ secondGroup ⊆ equivocators validators (calls.filterMap handed) round := by
    intro author inside
    obtain ⟨inFirst, inSecond⟩ := Finset.mem_inter.mp inside
    obtain ⟨one, oneCast, oneAuthor, oneRound, oneBlock⟩ := firstVoted author inFirst
    obtain ⟨two, twoCast, twoAuthor, twoRound, twoBlock⟩ := secondVoted author inSecond
    refine Finset.mem_filter.mpr ⟨firstInside inFirst, one, oneCast, two, twoCast, oneAuthor, twoAuthor, ?_, ?_, ?_⟩
    · exact oneRound.trans here
    · exact twoRound.trans there
    · rw [oneBlock, twoBlock]
      exact different
  have bounded := Finset.sum_le_sum_of_subset (f := votingPower verifier) covered
  omega

end Runs

section Mock

theorem mock_power (set : MockValidatorSet) (signers : List MockHash) (start : Nat) :
    signers.foldl (fun power signer => match set.validators.lookup signer with
      | some votingPower => power + votingPower.val
      | none => power) start = start + (signers.map (votingPower set.verifier)).sum := by
  induction signers generalizing start with
  | nil => rfl
  | cons signer rest ih =>
    rw [List.foldl_cons, ih, List.map_cons, List.sum_cons]
    unfold votingPower MockValidatorSet.verifier
    cases found : set.validators.lookup signer <;> simp [found, Nat.add_assoc]

theorem mock_weighs (set : MockValidatorSet)
    (quorum : 2 * ∑ validator ∈ set.validators.keys.toFinset, votingPower set.verifier validator < 3 * set.quorumThreshold) :
    Weighs set.verifier set.validators.keys.toFinset where
  known validator listed := List.mem_toFinset.mpr (AList.mem_keys.mp (AList.lookup_isSome.mp listed))
  quorum := quorum
  checks signers _ := by
    change MockValidatorSet.checkVotingPower set signers true = .ok () ↔ set.quorumThreshold ≤ _
    have total := (mock_power set signers 0).trans (Nat.zero_add _)
    simp only [MockValidatorSet.checkVotingPower, Bool.true_and, decide_eq_true_eq]
    rw [← total]
    split
    next small => exact ⟨nofun, fun enough => absurd small (Nat.not_lt.mpr enough)⟩
    next enough => exact ⟨fun _ => Nat.not_lt.mp enough, fun _ => rfl⟩

theorem mock_quorum_unique :
    let set := MockValidatorSet.new [(⟨1⟩, 1), (⟨2⟩, 1), (⟨3⟩, 1), (⟨4⟩, 1)]
    let hand (author block : UInt8) :
        Call MockBlock MockVote MockQuorumCert MockHash MockSignature MockAggregatedSignature MockSignature :=
      .processVote .insertion (.new ⟨author⟩ ⟨block⟩ 1) set.verifier
    let calls := [hand 4 8, hand 1 7, hand 4 7, .processTimeout, hand 2 7, .startRound 1, hand 3 7]
    let run := trace (call .dev) (RoundManager.new .default (.new 0) : RoundManager MockBlock MockVote MockQuorumCert MockHash MockSignature) calls
    (run.filterMap completedBy).map Vote.blockId = [⟨7⟩] ∧
      ∀ first ∈ run.filterMap completedBy, ∀ second ∈ run.filterMap completedBy,
        Vote.round first = 1 → Vote.round second = 1 → Vote.blockId first = Vote.blockId second := by
  intro set hand calls run
  have weighs : Weighs set.verifier set.validators.keys.toFinset := mock_weighs set (by decide)
  have fixed : ∀ input ∈ calls, ∀ order vote other, input = .processVote order vote other → other = set.verifier := by
    intro input member order vote other same
    subst same
    simp only [calls, hand, List.mem_cons, Call.processVote.injEq, reduceCtorEq, List.not_mem_nil] at member
    tauto
  refine ⟨by decide, ?_⟩
  intro first left second right here there
  exact one_quorum_per_round weighs .dev .default (.new 0) calls fixed 1 (by decide) first second left right here there

end Mock
end AptosBft.Proofs.QuorumUniqueness
