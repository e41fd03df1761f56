import AptosBft.Proofs.QuorumUniqueness

/-! When a vote completes a quorum. The count goes through two hash maps, one keyed by
signature and one by author, and comes out as the power of a set of authors. -/

namespace AptosBft.Proofs.QuorumDetection
open Rust Mealy AptosBft.PendingVotes AptosBft.Proofs.PendingVotes AptosBft.Proofs.QuorumUniqueness

variable {B V H N S A : Type} [DecidableEq H] [DecidableEq N] [DecidableEq S] [Vote V B H N S A]

/-- `check_voting_power` with the quorum asked for weighs a list of distinct signers
against the quorum. -/
def TestsQuorum (verifier : ValidatorVerifier B V N S A) : Prop :=
  ∀ signers : List N, signers.Nodup →
    (verifier.checkVotingPower signers true = .ok () ↔ verifier.quorumVotingPower ≤ (signers.map (votingPower verifier)).sum)

/-- The distinct authors of some votes that the verifier knows. -/
def backers (verifier : ValidatorVerifier B V N S A) (votes : List V) : Finset N :=
  (votes.map Vote.author).toFinset.filter fun author => (verifier.getVotingPower author).isSome

section Detection
variable {verifier : ValidatorVerifier B V N S A}

omit [DecidableEq H] [DecidableEq S] in
theorem mem_backers {votes : List V} {author : N} :
    author ∈ backers verifier votes ↔ (∃ vote ∈ votes, Vote.author vote = author) ∧ (verifier.getVotingPower author).isSome := by
  rw [backers, Finset.mem_filter, List.mem_toFinset, List.mem_map]

omit [DecidableEq H] [DecidableEq S] in
/-- The aggregator passes the check exactly if the backers of its votes are a quorum. -/
theorem collect_quorum_iff (tests : TestsQuorum verifier) (order : Order (N × S)) (votes : List V) :
    (SignatureAggregator.collect verifier votes).checkQuorum order verifier = .ok () ↔
      verifier.quorumVotingPower ≤ ∑ author ∈ backers verifier votes, votingPower verifier author := by
  have arranged := signers_perm order (SignatureAggregator.collect verifier votes)
  have distinct := (SignatureAggregator.collect verifier votes).signatures.keys_nodup
  have same : (SignatureAggregator.collect verifier votes).signatures.keys.toFinset = backers verifier votes := by
    apply Finset.ext
    intro author
    rw [List.mem_toFinset, mem_backers, ← AList.mem_keys, mem_collect]
  rw [SignatureAggregator.checkQuorum, tests _ (arranged.nodup_iff.mpr distinct), (arranged.map _).sum_eq,
    ← List.sum_toFinset _ distinct, same]

omit [DecidableEq S] in
theorem checkQuorum_iff (tests : TestsQuorum verifier) (order : Iteration V N S) {pending : PendingVotes V H S} {round : U64}
    {blockId : H} {bucket : HashMap S V} (found : pending.votes.lookup (round, blockId) = some bucket) :
    pending.checkQuorum order (round, blockId) verifier = true ↔ verifier.quorumVotingPower ≤
      ∑ author ∈ backers verifier (pending.getVotes order.votes round blockId), votingPower verifier author := by
  rw [← collect_quorum_iff tests order.checked]
  simp only [checkQuorum, getVotes, found]
  cases SignatureAggregator.checkQuorum order.checked
    (SignatureAggregator.collect verifier (order.votes.arrange bucket.values)) verifier with
  | ok => exact iff_of_true rfl rfl
  | error error => exact iff_of_false Bool.false_ne_true (by simp)

/-- The votes that count after a vote is stored are those before and the vote itself. -/
theorem backers_store (order : Order V) {pending : PendingVotes V H S} {vote : V}
    (unstored : ∀ held, ¬Holds pending (Vote.round vote, Vote.blockId vote) (Vote.signature vote) held) :
    backers verifier ((pending.store (Vote.round vote, Vote.blockId vote) vote).getVotes order (Vote.round vote) (Vote.blockId vote)) =
      backers verifier (vote :: pending.getVotes .insertion (Vote.round vote) (Vote.blockId vote)) := by
  apply Finset.ext
  intro author
  rw [mem_backers, mem_backers]
  refine and_congr_left fun _ => exists_congr fun cast => and_congr_left fun _ => ?_
  rw [mem_getVotes, List.mem_cons, mem_getVotes]
  constructor
  · intro stored
    obtain ⟨signature, held⟩ := stored
    obtain ⟨_, _, rfl⟩ | ⟨_, before⟩ := holds_store.mp held
    · exact Or.inl rfl
    · exact Or.inr ⟨signature, before⟩
  · intro either
    obtain rfl | ⟨signature, before⟩ := either
    · exact ⟨Vote.signature cast, holds_store.mpr (Or.inl ⟨rfl, rfl, rfl⟩)⟩
    · refine ⟨signature, holds_store.mpr (Or.inr ⟨?_, before⟩)⟩
      intro own
      obtain ⟨_, rfl⟩ := own
      exact unstored cast before

/-- A vote that is stored completes a quorum exactly if the backers of its block, with
its own author, are one. -/
theorem addVote_quorum (tests : TestsQuorum verifier) (order : Iteration V N S) {pending : PendingVotes V H S} {vote : V}
    (recent : pending.currentRound ≤ Vote.round vote)
    (unstored : ∀ held, ¬Holds pending (Vote.round vote, Vote.blockId vote) (Vote.signature vote) held) :
    (pending.addVote order vote verifier).1 =
      if verifier.quorumVotingPower ≤ ∑ author ∈ backers verifier (vote :: pending.getVotes .insertion (Vote.round vote)
        (Vote.blockId vote)), votingPower verifier author then .quorumCompleted else .accepted := by
  have unseen : ¬pending.isDuplicate (Vote.round vote, Vote.blockId vote) vote = true := by
    rw [isDuplicate_iff]
    intro seen
    obtain ⟨held, stored⟩ := seen
    exact unstored held stored
  have bucket : (pending.store (Vote.round vote, Vote.blockId vote) vote).votes.lookup (Vote.round vote, Vote.blockId vote) =
      some _ := AList.lookup_insert pending.votes
  have complete := checkQuorum_iff tests order bucket
  rw [backers_store _ unstored] at complete
  simp only [addVote, if_neg (not_lt.mpr recent), if_neg unseen]
  by_cases enough : verifier.quorumVotingPower ≤ ∑ author ∈ backers verifier (vote :: pending.getVotes .insertion
      (Vote.round vote) (Vote.blockId vote)), votingPower verifier author
  · rw [if_pos enough, if_pos (complete.mpr enough)]
  · rw [if_neg enough, if_neg (fun reached => enough (complete.mp reached))]

end Detection

/-- The vote that a call hands in. -/
def cast : Call B V N S A → Option V
  | .addVote _ vote _ => some vote
  | _ => none

/-- Equal signatures for the same block of a round mean equal votes. -/
def Signed (votes : List V) : Prop :=
  ∀ vote ∈ votes, ∀ other ∈ votes, (Vote.round vote, Vote.blockId vote) = (Vote.round other, Vote.blockId other) →
    Vote.signature vote = Vote.signature other → vote = other

/-- The store holds exactly the votes handed in that are not old. -/
structure Filled (start : PendingVotes V H S) (votes : List V) (pending : PendingVotes V H S) : Prop where
  round : pending.currentRound = start.currentRound
  populated : pending.votes.Populated
  holds_iff : ∀ key signature vote, Holds pending key signature vote ↔ vote ∈ votes ∧
    key = (Vote.round vote, Vote.blockId vote) ∧ signature = Vote.signature vote ∧ start.currentRound ≤ Vote.round vote

section Permutations

omit [DecidableEq N] in
theorem Filled.empty {start : PendingVotes V H S} (empty : start.votes = ∅) : Filled start [] start := by
  refine ⟨rfl, ?_, ?_⟩
  · intro key bucket found
    rw [empty] at found
    cases found
  · intro key signature vote
    refine iff_of_false ?_ (by simp)
    intro held
    rw [Holds, empty] at held
    cases held

omit [DecidableEq N] in
/-- A vote that is old or was handed in before adds nothing. -/
theorem Filled.idle {start pending : PendingVotes V H S} {votes : List V} (filled : Filled start votes pending) {vote : V}
    (idle : ¬(vote ∉ votes ∧ start.currentRound ≤ Vote.round vote)) : Filled start (votes ++ [vote]) pending := by
  refine ⟨filled.round, filled.populated, ?_⟩
  intro key signature held
  rw [filled.holds_iff, List.mem_append, List.mem_singleton]
  constructor
  · intro before
    obtain ⟨member, facts⟩ := before
    exact ⟨Or.inl member, facts⟩
  · intro counted
    obtain ⟨member | rfl, own, mark, recent⟩ := counted
    · exact ⟨member, own, mark, recent⟩
    · exact ⟨by_contra fun absent => idle ⟨absent, recent⟩, own, mark, recent⟩

omit [DecidableEq N] in
theorem Filled.store {start pending : PendingVotes V H S} {votes : List V} (filled : Filled start votes pending) {vote : V}
    (signed : Signed (votes ++ [vote])) (recent : pending.currentRound ≤ Vote.round vote) :
    Filled start (votes ++ [vote]) (pending.store (Vote.round vote, Vote.blockId vote) vote) := by
  refine ⟨filled.round, filled.populated.put _ _ _, ?_⟩
  intro key signature held
  rw [holds_store, filled.holds_iff, List.mem_append, List.mem_singleton]
  constructor
  · intro either
    obtain ⟨rfl, rfl, rfl⟩ | ⟨_, member, facts⟩ := either
    · exact ⟨Or.inr rfl, rfl, rfl, filled.round ▸ recent⟩
    · exact ⟨Or.inl member, facts⟩
  · intro counted
    obtain ⟨member | rfl, rfl, rfl, late⟩ := counted
    · by_cases same : (Vote.round held, Vote.blockId held) = (Vote.round vote, Vote.blockId vote) ∧
          Vote.signature held = Vote.signature vote
      · obtain rfl := signed held (List.mem_append_left _ member) vote (by simp) same.1 same.2
        exact Or.inl ⟨rfl, rfl, rfl⟩
      · exact Or.inr ⟨same, member, rfl, rfl, late⟩
    · exact Or.inl ⟨rfl, rfl, rfl⟩

theorem Filled.addVote {start pending : PendingVotes V H S} {votes : List V} (filled : Filled start votes pending) {vote : V}
    (signed : Signed (votes ++ [vote])) (order : Iteration V N S) (verifier : ValidatorVerifier B V N S A) :
    Filled start (votes ++ [vote]) (pending.addVote order vote verifier).2 := by
  obtain ⟨old, answer⟩ | ⟨seen, answer⟩ | ⟨recent, unseen, result, _, answer⟩ := addVote_cases order pending vote verifier
  · rw [answer]
    apply filled.idle
    intro new
    rw [filled.round] at old
    exact absurd old (not_lt.mpr new.2)
  · rw [answer]
    apply filled.idle
    intro new
    obtain ⟨held, inside⟩ := isDuplicate_iff.mp seen
    obtain ⟨member, own, mark, _⟩ := (filled.holds_iff _ _ _).mp inside
    obtain rfl := signed vote (by simp) held (List.mem_append_left _ member) own mark
    exact new.1 member
  · rw [answer]
    exact filled.store signed recent

theorem filled_exec {start : PendingVotes V H S} (empty : start.votes = ∅) {calls : List (Call B V N S A)}
    (only : ∀ input ∈ calls, (cast input).isSome) (signed : Signed (calls.filterMap cast)) :
    Filled start (calls.filterMap cast) (exec call start calls) := by
  induction calls using List.reverseRecOn with
  | nil => exact Filled.empty empty
  | append_singleton calls input ih =>
    obtain ⟨vote, handed⟩ := Option.isSome_iff_exists.mp (only input (by simp))
    rw [filterMap_snoc, handed] at signed ⊢
    have earlier := ih (fun other member => only other (List.mem_append_left _ member))
      (fun one member other within => signed one (List.mem_append_left _ member) other (List.mem_append_left _ within))
    rw [exec_append]
    cases input with
    | addVote order cast verifier =>
      cases handed
      exact earlier.addVote signed order verifier
    | _ => cases handed

omit [DecidableEq N] [DecidableEq S] in
/-- Calls that hand in a list of votes in some order hand in nothing else. -/
theorem casts_perm {calls : List (Call B V N S A)} {votes : List V} (perm : (calls.map cast).Perm (votes.map some)) :
    (∀ input ∈ calls, (cast input).isSome) ∧ (calls.filterMap cast).Perm votes := by
  refine ⟨?_, ?_⟩
  · intro input member
    obtain ⟨vote, _, same⟩ := List.mem_map.mp (perm.mem_iff.mp (List.mem_map_of_mem member))
    rw [← same]
    rfl
  · have dropped := perm.filterMap id
    rwa [List.filterMap_map, List.filterMap_map, Function.id_comp, Function.id_comp, List.filterMap_some] at dropped

/-- Votes that tell themselves apart by their signatures are stored alike in every order. -/
theorem permuted_votes {start : PendingVotes V H S} (empty : start.votes = ∅) {votes : List V} (signed : Signed votes)
    {first second : List (Call B V N S A)} (one : (first.map cast).Perm (votes.map some))
    (other : (second.map cast).Perm (votes.map some)) (key : U64 × H) :
    ((exec call start first).votes.lookup key).map AList.toFinmap =
      ((exec call start second).votes.lookup key).map AList.toFinmap := by
  have filled : ∀ {calls : List (Call B V N S A)}, (calls.map cast).Perm (votes.map some) →
      Filled start (calls.filterMap cast) (exec call start calls) := by
    intro calls perm
    obtain ⟨only, same⟩ := casts_perm perm
    apply filled_exec empty only
    intro vote member another within
    exact signed vote (same.mem_iff.mp member) another (same.mem_iff.mp within)
  have members : ∀ vote, vote ∈ first.filterMap cast ↔ vote ∈ second.filterMap cast := by
    intro vote
    rw [(casts_perm one).2.mem_iff, (casts_perm other).2.mem_iff]
  refine HashMap.lookup_eq_of_entry (filled one).populated (filled other).populated ?_ key
  intro place signature
  apply Option.ext
  intro vote
  have here := (filled one).holds_iff place signature vote
  rw [members, ← (filled other).holds_iff] at here
  exact here

end Permutations

/-- A vote that is neither old nor stored completes a quorum exactly if the known authors
of its block, with its own, have the power of one, in whatever order the maps are walked;
and the stored votes do not depend on the order in which they came. -/
theorem quorum_detection_exact {verifier : ValidatorVerifier B V N S A} (tests : TestsQuorum verifier) :
    (∀ (pending : PendingVotes V H S) (order : Iteration V N S) (vote : V), pending.currentRound ≤ Vote.round vote →
      (∀ held, ¬Holds pending (Vote.round vote, Vote.blockId vote) (Vote.signature vote) held) →
      (pending.addVote order vote verifier).1 =
        if verifier.quorumVotingPower ≤ ∑ author ∈ backers verifier (vote :: pending.getVotes .insertion (Vote.round vote)
          (Vote.blockId vote)), votingPower verifier author then .quorumCompleted else .accepted) ∧
    (∀ start : PendingVotes V H S, start.votes = ∅ → ∀ votes : List V, Signed votes → ∀ first second : List (Call B V N S A),
      (first.map cast).Perm (votes.map some) → (second.map cast).Perm (votes.map some) → ∀ key,
        ((exec call start first).votes.lookup key).map AList.toFinmap =
          ((exec call start second).votes.lookup key).map AList.toFinmap) := by
  refine ⟨?_, ?_⟩
  · intro pending order vote recent unstored
    exact addVote_quorum tests order recent unstored
  · intro start empty votes signed first second one other key
    exact permuted_votes empty signed one other key

theorem third_vote_completes :
    let set := MockValidatorSet.new [(⟨1⟩, 1), (⟨2⟩, 1), (⟨3⟩, 1), (⟨4⟩, 1)]
    let hand (vote : MockVote) : Call MockBlock MockVote MockHash MockSignature MockAggregatedSignature :=
      .addVote .insertion vote set.verifier
    let early : List (Call MockBlock MockVote MockHash MockSignature MockAggregatedSignature) :=
      [hand (.new ⟨1⟩ ⟨7⟩ 1), hand (.new ⟨2⟩ ⟨7⟩ 1)]
    let pending : PendingVotes MockVote MockHash MockSignature := exec call (.new 10) early
    (∀ order, (pending.addVote order (.new ⟨3⟩ ⟨7⟩ 1) set.verifier).1 = .quorumCompleted) ∧
      ∀ key, (pending.votes.lookup key).map AList.toFinmap =
        ((exec call (.new 10 : PendingVotes MockVote MockHash MockSignature) early.reverse).votes.lookup key).map AList.toFinmap := by
  intro set hand early pending
  have tests : TestsQuorum set.verifier := (mock_weighs set (by decide)).checks
  obtain ⟨detects, permutes⟩ := quorum_detection_exact (H := MockHash) tests
  have unseen : ∀ held, ¬Holds pending (1, ⟨7⟩) (Vote.signature (.new ⟨3⟩ ⟨7⟩ 1 : MockVote)) held := by
    have unmatched : pending.isDuplicate (1, ⟨7⟩) (.new ⟨3⟩ ⟨7⟩ 1) = false := by decide
    intro held stored
    rw [isDuplicate_iff.mpr ⟨held, stored⟩] at unmatched
    cases unmatched
  refine ⟨?_, ?_⟩
  · intro order
    rw [detects pending order (.new ⟨3⟩ ⟨7⟩ 1) (by decide) unseen]
    decide
  · intro key
    exact permutes (.new 10) rfl [.new ⟨1⟩ ⟨7⟩ 1, .new ⟨2⟩ ⟨7⟩ 1] (by unfold Signed; decide) early early.reverse (by decide)
      (by decide) key

section Tests
variable {verifier : ValidatorVerifier B V N S A}

/-- The two tests say the same of a block, and the power reported for it is that of the
distinct validators behind it. -/
structure TestsAgree (verifier : ValidatorVerifier B V N S A) (pending : PendingVotes V H S) (round : U64) (blockId : H) : Prop where
  quorum : ∀ order, pending.canFormQuorum round blockId verifier = pending.checkQuorum order (round, blockId) verifier
  power : pending.aggregatedVotingPower round blockId verifier =
    ∑ author ∈ backers verifier (pending.getVotes .insertion round blockId), votingPower verifier author

/-- No author of any power has two votes for one block. -/
def CountedOnce (verifier : ValidatorVerifier B V N S A) (pending : PendingVotes V H S) : Prop :=
  ∀ key left right first second, Holds pending key left first → Holds pending key right second →
    Vote.author first = Vote.author second → 0 < votingPower verifier (Vote.author first) → left = right

/-- A vote that gets past the checks and has power comes from an author without a vote
stored for its block. -/
def FirstForBlock (verifier : ValidatorVerifier B V N S A) (current : VoteEvent B V H N S A) : Prop :=
  match current.input with
  | .addVote _ vote _ => current.before.currentRound ≤ Vote.round vote →
      current.before.isDuplicate (Vote.round vote, Vote.blockId vote) vote = false →
      0 < votingPower verifier (Vote.author vote) →
      ∀ signature held, Holds current.before (Vote.round vote, Vote.blockId vote) signature held →
        Vote.author held ≠ Vote.author vote
  | _ => True

omit [DecidableEq H] [DecidableEq N] [DecidableEq S] in
theorem sum_known (votes : List V) :
    ((votes.filterMap fun vote => verifier.getVotingPower (Vote.author vote)).map Fin.val).sum =
      ((votes.map Vote.author).map (votingPower verifier)).sum := by
  induction votes with
  | nil => rfl
  | cons vote votes ih =>
    rw [List.map_cons, List.map_cons, List.sum_cons, ← ih, votingPower]
    cases found : verifier.getVotingPower (Vote.author vote) with
    | none => simp [found]
    | some power => simp [found]

omit [DecidableEq H] [DecidableEq S] in
/-- Authors the verifier does not know weigh nothing. -/
theorem sum_backers (votes : List V) :
    ∑ author ∈ backers verifier votes, votingPower verifier author =
      ∑ author ∈ (votes.map Vote.author).toFinset, votingPower verifier author := by
  apply Finset.sum_filter_of_ne
  intro author _ weighs
  cases found : verifier.getVotingPower author with
  | none =>
    rw [votingPower, found] at weighs
    exact absurd rfl weighs
  | some power => rfl

theorem power_iff {pending : PendingVotes V H S} {round : U64} {blockId : H} {bucket : HashMap S V}
    (found : pending.votes.lookup (round, blockId) = some bucket) :
    pending.aggregatedVotingPower round blockId verifier =
        ∑ author ∈ backers verifier (pending.getVotes .insertion round blockId), votingPower verifier author ↔
      ∀ left right first second, Holds pending (round, blockId) left first → Holds pending (round, blockId) right second →
        Vote.author first = Vote.author second → 0 < votingPower verifier (Vote.author first) → left = right := by
  simp only [aggregatedVotingPower, getVotes, found, sum_known, sum_backers, Order.insertion, id_eq, Holds, HashMap.entry,
    Option.bind_some]
  rw [Quorum.sum_map_eq_iff]
  simp only [HashMap.count_map_values_le_one]
  constructor
  · intro once left right first second here there same weighs
    exact once _ weighs left right first second here there rfl same.symm
  · intro once author weighs left right first second here there one other
    subst one
    exact once left right first second here there other.symm weighs

/-- Which order the votes are walked in does not matter to whom they are by. -/
theorem backers_order (order : Order V) (pending : PendingVotes V H S) (round : U64) (blockId : H) :
    backers verifier (pending.getVotes order round blockId) = backers verifier (pending.getVotes .insertion round blockId) := by
  apply Finset.ext
  intro author
  simp only [mem_backers, mem_getVotes]

theorem tests_agree_iff (tests : TestsQuorum verifier) {pending : PendingVotes V H S} {round : U64} {blockId : H}
    {bucket : HashMap S V} (found : pending.votes.lookup (round, blockId) = some bucket) :
    TestsAgree verifier pending round blockId ↔
      ∀ left right first second, Holds pending (round, blockId) left first → Holds pending (round, blockId) right second →
        Vote.author first = Vote.author second → 0 < votingPower verifier (Vote.author first) → left = right := by
  rw [← power_iff found]
  constructor
  · intro agree
    exact agree.power
  · intro power
    refine ⟨?_, power⟩
    intro order
    rw [Bool.eq_iff_iff, checkQuorum_iff tests order found, backers_order, ← power, canFormQuorum, decide_eq_true_eq]

theorem tests_agree_everywhere (tests : TestsQuorum verifier) (pending : PendingVotes V H S) :
    (∀ round blockId, (∃ signature vote, Holds pending (round, blockId) signature vote) →
      TestsAgree verifier pending round blockId) ↔ CountedOnce verifier pending := by
  have bucket : ∀ {key signature vote}, Holds pending key signature vote → ∃ bucket, pending.votes.lookup key = some bucket := by
    intro key signature vote held
    obtain ⟨bucket, found, _⟩ := Option.bind_eq_some_iff.mp held
    exact ⟨bucket, found⟩
  constructor
  · intro agree key left right first second here there
    obtain ⟨_, found⟩ := bucket here
    exact (tests_agree_iff tests found).mp (agree key.1 key.2 ⟨left, first, here⟩) left right first second here there
  · intro once round blockId stored
    obtain ⟨signature, vote, held⟩ := stored
    obtain ⟨_, found⟩ := bucket held
    exact (tests_agree_iff tests found).mpr (once (round, blockId))

omit [DecidableEq N] in
theorem CountedOnce.fewer {pending kept : PendingVotes V H S} (once : CountedOnce verifier pending)
    (subset : ∀ key signature vote, Holds kept key signature vote → Holds pending key signature vote) :
    CountedOnce verifier kept := by
  intro key left right first second here there
  exact once key left right first second (subset _ _ _ here) (subset _ _ _ there)

/-- One step: authors stay counted once exactly if the vote taken in is the first of its
author for the block. -/
theorem countedOnce_call {pending : PendingVotes V H S} (once : CountedOnce verifier pending) (input : Call B V N S A) :
    CountedOnce verifier (call pending input).2 ↔ FirstForBlock verifier (event call pending input) := by
  cases input with
  | addVote order vote other =>
    simp only [FirstForBlock, event, call]
    obtain ⟨old, answer⟩ | ⟨seen, answer⟩ | ⟨recent, unseen, result, _, answer⟩ := addVote_cases order pending vote other
    · rw [answer]
      exact iff_of_true once fun recent => absurd old (not_lt.mpr recent)
    · rw [answer]
      exact iff_of_true once fun _ unseen => absurd (unseen.symm.trans seen) Bool.false_ne_true
    · rw [answer]
      have unstored : ∀ held, ¬ Holds pending (Vote.round vote, Vote.blockId vote) (Vote.signature vote) held := by
        intro held stored
        exact Bool.false_ne_true (unseen.symm.trans (isDuplicate_iff.mpr ⟨held, stored⟩))
      constructor
      · intro still _ _ weighs signature held inside same
        have before : ¬ (signature = Vote.signature vote) := fun equal => unstored held (equal ▸ inside)
        refine before (still (Vote.round vote, Vote.blockId vote) signature (Vote.signature vote) held vote ?_ ?_ same (same ▸ weighs))
        · exact holds_store.mpr (Or.inr ⟨fun both => before both.2, inside⟩)
        · exact holds_store.mpr (Or.inl ⟨rfl, rfl, rfl⟩)
      · intro first key left right one two here there same weighs
        have apart := first recent unseen
        obtain ⟨rfl, rfl, rfl⟩ | ⟨_, older⟩ := holds_store.mp here
        · obtain ⟨_, rfl, _⟩ | ⟨_, earlier⟩ := holds_store.mp there
          · rfl
          · exact absurd same.symm (apart weighs right two earlier)
        · obtain ⟨rfl, rfl, rfl⟩ | ⟨_, earlier⟩ := holds_store.mp there
          · exact absurd same (apart (same ▸ weighs) left one older)
          · exact once key left right one two older earlier same weighs
  | setRound round => exact iff_of_true (once.fewer fun _ _ _ held => (holds_setRound.mp held).2) trivial
  | removeRound round => exact iff_of_true (once.fewer fun _ _ _ held => (holds_removeRound.mp held).2) trivial

/-- One test counts votes and the other authors. They agree, on every block with a vote
in every state of a run, exactly if no author with power gets a second vote for a block
stored. -/
theorem quorum_tests_agree_iff (tests : TestsQuorum verifier) (maxRounds : U64) (calls : List (Call B V N S A)) :
    (∀ current ∈ trace call (.new maxRounds : PendingVotes V H S) calls, ∀ round blockId,
      (∃ signature vote, Holds current.after (round, blockId) signature vote) → TestsAgree verifier current.after round blockId) ↔
    ∀ current ∈ trace call (.new maxRounds : PendingVotes V H S) calls, FirstForBlock verifier current := by
  have initial : CountedOnce verifier (.new maxRounds : PendingVotes V H S) := by
    intro _ _ _ _ _ held
    exact absurd held (not_holds_new _ _ _ _)
  refine forall_trace_iff ?_ ?_ initial calls
  · intro pending input once
    rw [← countedOnce_call once]
    exact tests_agree_everywhere tests _
  · intro pending input once first
    exact (countedOnce_call once input).mpr first

theorem distinct_authors_tests_agree :
    let set := MockValidatorSet.new [(⟨1⟩, 1), (⟨2⟩, 1), (⟨3⟩, 1), (⟨4⟩, 1)]
    let hand (author : UInt8) : Call MockBlock MockVote MockHash MockSignature MockAggregatedSignature :=
      .addVote .insertion (.new ⟨author⟩ ⟨7⟩ 1) set.verifier
    let calls := [hand 1, hand 2, hand 3]
    ∀ current ∈ trace call (.new 10 : PendingVotes MockVote MockHash MockSignature) calls, ∀ round blockId,
      (∃ signature vote, Holds current.after (round, blockId) signature vote) →
        TestsAgree set.verifier current.after round blockId := by
  intro set hand calls
  have tests : TestsQuorum set.verifier := (mock_weighs set (by decide)).checks
  refine (quorum_tests_agree_iff tests 10 calls).mpr ?_
  simp only [calls, forall_trace_cons, forall_trace_nil, and_true]
  refine ⟨?_, ?_, ?_⟩
  · intro _ _ _
    exact holds_all (by decide)
  · intro _ _ _
    exact holds_all (by decide)
  · intro _ _ _
    exact holds_all (by decide)

/-- One validator of four under three signatures. -/
theorem repeated_author_tests_disagree :
    let set := MockValidatorSet.new [(⟨1⟩, 1), (⟨2⟩, 1), (⟨3⟩, 1), (⟨4⟩, 1)]
    let hand (signature : UInt8) : Call MockBlock MockVote MockHash MockSignature MockAggregatedSignature :=
      .addVote .insertion ⟨⟨1⟩, ⟨7⟩, 1, ⟨signature⟩⟩ set.verifier
    let pending : PendingVotes MockVote MockHash MockSignature := exec call (.new 10) [hand 1, hand 2, hand 3]
    pending.canFormQuorum 1 ⟨7⟩ set.verifier = true ∧ pending.checkQuorum .insertion (1, ⟨7⟩) set.verifier = false ∧
      pending.aggregatedVotingPower 1 ⟨7⟩ set.verifier = 3 ∧
      ¬ ((∃ signature vote, Holds pending (1, ⟨7⟩) signature vote) → TestsAgree set.verifier pending 1 ⟨7⟩) := by
  intro set hand pending
  have can : pending.canFormQuorum 1 ⟨7⟩ set.verifier = true := by decide
  have fails : pending.checkQuorum .insertion (1, ⟨7⟩) set.verifier = false := by decide
  refine ⟨can, fails, by decide, ?_⟩
  intro agree
  have stored : Holds pending (1, ⟨7⟩) ⟨1⟩ ⟨⟨1⟩, ⟨7⟩, 1, ⟨1⟩⟩ := by decide
  have same := (agree ⟨_, _, stored⟩).quorum .insertion
  exact Bool.false_ne_true (fails.symm.trans (same.symm.trans can))

end Tests

end AptosBft.Proofs.QuorumDetection
