import AptosBft.Proofs.QuorumDetection

/-! Completed quorums over a run. A quorum that completes deletes the votes of its
round, and with them everything that tells a repeated vote from a new one, while
the round stays open. Validators that do not vote again leave too little power for
another quorum. -/

namespace AptosBft.Proofs.Completion
open Rust Mealy AptosBft.RoundManager AptosBft.Proofs.RoundManager AptosBft.Proofs.PendingVotes
open AptosBft.Proofs.QuorumUniqueness AptosBft.Proofs.Representation
open QuorumDetection (TestsQuorum backers mem_backers)

variable {B V QC H N S A T : Type} [DecidableEq H] [DecidableEq N] [DecidableEq S]
  [Block B H] [Vote V B H N S A] [QuorumCertificate QC H] [FromVotes QC V A]

def slot (vote : V) : U64 × H := (Vote.round vote, Vote.blockId vote)

section Once

/-- The votes a call certified: those it handed to `from_votes`. -/
def counted (event : ManagerEvent B V QC H N S A T) : List V :=
  match event.input, event.output with
  | .processVote order vote _, .vote (.ok .quorumCompleted) =>
    (stored event.before vote).pendingVotes.getVotes order.votes (Vote.round vote) (Vote.blockId vote)
  | _, _ => []

/-- A verifier over a finite set of validators that weighs quorums, and asks for more than
half of their power. -/
structure Majority (verifier : ValidatorVerifier B V N S A) (validators : Finset N) : Prop where
  known : ∀ validator, (verifier.getVotingPower validator).isSome → validator ∈ validators
  tests : TestsQuorum verifier
  quorum : ∑ validator ∈ validators, votingPower verifier validator < 2 * verifier.quorumVotingPower

omit [DecidableEq H] [DecidableEq N] [DecidableEq S] [Block B H] in
theorem majority_of_weighs {verifier : ValidatorVerifier B V N S A} {validators : Finset N} (weighs : Weighs verifier validators) :
    Majority verifier validators where
  known := weighs.known
  tests := weighs.checks
  quorum := by
    have share := weighs.quorum
    omega

/-- The vote got past the checks in one of the calls. -/
def LetIn (past : List (ManagerEvent B V QC H N S A T)) (vote : V) : Prop :=
  ∃ current ∈ past, ∃ order verifier, current.input = .processVote order vote verifier ∧ Fresh current.before vote verifier

/-- A vote goes to the one verifier, and if it gets past the checks, no vote of its author
for its block did before. -/
def FirstOfAuthor (verifier : ValidatorVerifier B V N S A) (past : List (ManagerEvent B V QC H N S A T))
    (current : ManagerEvent B V QC H N S A T) : Prop :=
  match current.input with
  | .processVote _ vote judge => judge = verifier ∧ (Fresh current.before vote judge →
      ∀ earlier, LetIn past earlier → slot earlier = slot vote → Vote.author earlier ≠ Vote.author vote)
  | _ => True

/-- A completed block has used up a group of its voters: they hold a quorum, and none of
them has a vote for it in store. -/
structure Spent (verifier : ValidatorVerifier B V N S A) (past : List (ManagerEvent B V QC H N S A T))
    (pending : PendingVotes V H S) (place : U64 × H) (group : Finset N) : Prop where
  quorum : verifier.quorumVotingPower ≤ ∑ member ∈ group, votingPower verifier member
  voted : ∀ member ∈ group, ∃ cast, LetIn past cast ∧ slot cast = place ∧ Vote.author cast = member
  gone : ∀ signature held, Holds pending place signature held → Vote.author held ∉ group

structure Settled (verifier : ValidatorVerifier B V N S A) (validators : Finset N) (past : List (ManagerEvent B V QC H N S A T))
    (manager : RoundManager B V QC H S) : Prop where
  once : ((past.filterMap completedBy).map slot).Nodup
  admitted : ∀ key signature vote, Holds manager.pendingVotes key signature vote → LetIn past vote
  certified : ∀ vote ∈ past.flatMap counted, LetIn past vote ∧ ∀ key signature, ¬ Holds manager.pendingVotes key signature vote
  spent : ∀ place ∈ (past.filterMap completedBy).map slot, ∃ group ⊆ validators, Spent verifier past manager.pendingVotes place group

omit [DecidableEq N] [Block B H] [QuorumCertificate QC H] [FromVotes QC V A] in
theorem LetIn.later {past : List (ManagerEvent B V QC H N S A T)} {vote : V} (before : LetIn past vote)
    (last : ManagerEvent B V QC H N S A T) : LetIn (past ++ [last]) vote := by
  obtain ⟨current, member, entry⟩ := before
  exact ⟨current, List.mem_append_left _ member, entry⟩

theorem letIn_snoc {profile : Profile} {past : List (ManagerEvent B V QC H N S A T)} {manager : RoundManager B V QC H S}
    {order : Iteration V N S} {vote : V} {verifier : ValidatorVerifier B V N S A} (fresh : Fresh manager vote verifier) :
    LetIn (past ++ [event (call profile) manager (.processVote order vote verifier)]) vote :=
  ⟨_, List.mem_append_right _ List.mem_cons_self, order, verifier, rfl, fresh⟩

theorem mem_counted {profile : Profile} {manager : RoundManager B V QC H S} {input : Call B V QC N S A T} {vote : V}
    (member : vote ∈ counted (event (call profile) manager input)) :
    ∃ order cast verifier signature, input = .processVote order cast verifier ∧ Fresh manager cast verifier ∧
      Holds (stored manager cast).pendingVotes (slot cast) signature vote ∧
      (call profile manager input).2.pendingVotes = (stored manager cast).pendingVotes.removeRound (Vote.round cast) := by
  have effect := call_effect profile manager input
  simp only [counted, event] at member
  generalize call profile manager input = answer at effect member ⊢
  obtain ⟨reply, after⟩ := answer
  cases effect with
  | completed fresh =>
    obtain ⟨signature, held⟩ := mem_getVotes.mp member
    exact ⟨_, _, _, signature, rfl, fresh, held, rfl⟩
  | quiet _ _ notCompleted =>
    split at member
    · simp_all
    · cases member
  | kept _ outcome => rcases outcome with rfl | ⟨failure, rfl⟩ <;> cases member
  | _ => cases member

/-- A completed block has no votes left. -/
theorem completed_empties {profile : Profile} {manager : RoundManager B V QC H S} {input : Call B V QC N S A T} {vote : V}
    (done : completedBy (event (call profile) manager input) = some vote) (signature : S) (held : V) :
    ¬ Holds (call profile manager input).2.pendingVotes (slot vote) signature held := by
  have effect := call_effect profile manager input
  simp only [completedBy, event] at done
  generalize call profile manager input = answer at effect done ⊢
  obtain ⟨reply, after⟩ := answer
  cases effect with
  | completed =>
    cases done
    intro left
    exact (holds_removeRound.mp left).1 rfl
  | quiet _ _ notCompleted =>
    split at done
    · simp_all
    · cases done
  | kept _ outcome => rcases outcome with rfl | ⟨failure, rfl⟩ <;> cases done
  | _ => cases done

omit [DecidableEq N] [Block B H] [QuorumCertificate QC H] [FromVotes QC V A] in
theorem holds_stored {manager : RoundManager B V QC H S} {cast vote : V} {key : U64 × H} {signature : S}
    (held : Holds (stored manager cast).pendingVotes key signature vote) :
    vote = cast ∨ Holds manager.pendingVotes key signature vote := by
  obtain ⟨_, _, same⟩ | ⟨_, older⟩ := holds_store.mp held
  · exact Or.inl same
  · exact Or.inr older

/-- Whatever is stored after a call was stored before, or is the vote that the call let in. -/
theorem holds_call {profile : Profile} {manager : RoundManager B V QC H S} {input : Call B V QC N S A T} {key : U64 × H}
    {signature : S} {vote : V} (held : Holds (call profile manager input).2.pendingVotes key signature vote) :
    Holds manager.pendingVotes key signature vote ∨
      ∃ order verifier, input = .processVote order vote verifier ∧ Fresh manager vote verifier := by
  have effect := call_effect profile manager input
  generalize call profile manager input = answer at effect held
  obtain ⟨reply, after⟩ := answer
  cases effect with
  | quiet => exact Or.inl held
  | proposed => exact Or.inl held
  | kept fresh =>
    obtain rfl | older := holds_stored held
    · exact Or.inr ⟨_, _, rfl, fresh⟩
    · exact Or.inl older
  | completed fresh =>
    obtain rfl | older := holds_stored (holds_removeRound.mp held).2
    · exact Or.inr ⟨_, _, rfl, fresh⟩
    · exact Or.inl older
  | timedOut => exact Or.inl (holds_setRound.mp held).2
  | started => exact Or.inl (holds_setRound.mp held).2

omit [Block B H] [QuorumCertificate QC H] [FromVotes QC V A] in
/-- The authors that complete a quorum. -/
theorem completing_group {verifier : ValidatorVerifier B V N S A} {validators : Finset N} (majority : Majority verifier validators)
    {manager : RoundManager B V QC H S} {order : Iteration V N S} {vote : V} (quorum : completes order manager vote verifier = true) :
    ∃ group ⊆ validators, verifier.quorumVotingPower ≤ ∑ member ∈ group, votingPower verifier member ∧
      ∀ member ∈ group, ∃ signature cast, Holds (stored manager vote).pendingVotes (slot vote) signature cast ∧
        Vote.author cast = member := by
  have bucket : (stored manager vote).pendingVotes.votes.lookup (Vote.round vote, Vote.blockId vote) = some _ :=
    AList.lookup_insert manager.pendingVotes.votes
  have enough := (QuorumDetection.checkQuorum_iff majority.tests order bucket).mp quorum
  refine ⟨_, ?_, enough, ?_⟩
  · intro member inside
    exact majority.known member (mem_backers.mp inside).2
  · intro member inside
    obtain ⟨⟨cast, among, author⟩, _⟩ := mem_backers.mp inside
    obtain ⟨signature, held⟩ := mem_getVotes.mp among
    exact ⟨signature, cast, held, author⟩

section Step
variable {verifier : ValidatorVerifier B V N S A} {validators : Finset N} {config : RoundManagerConfig} {profile : Profile}
  {past : List (ManagerEvent B V QC H N S A T)} {manager : RoundManager B V QC H S} {input : Call B V QC N S A T}

theorem Settled.admitted_call (settled : Settled verifier validators past manager) {key : U64 × H} {signature : S} {vote : V}
    (held : Holds (call profile manager input).2.pendingVotes key signature vote) :
    LetIn (past ++ [event (call profile) manager input]) vote := by
  obtain older | ⟨order, judge, rfl, fresh⟩ := holds_call held
  · exact (settled.admitted key signature vote older).later _
  · exact letIn_snoc fresh

/-- A vote that is let in is none that was counted before. -/
theorem FirstOfAuthor.new (first : FirstOfAuthor verifier past (event (call profile) manager input)) {order : Iteration V N S} {vote : V}
    {judge : ValidatorVerifier B V N S A} (given : input = .processVote order vote judge) (fresh : Fresh manager vote judge) :
    ¬ LetIn past vote := by
  subst given
  intro before
  exact first.2 fresh vote before rfl rfl

theorem Settled.uncounted (settled : Settled verifier validators past manager)
    (first : FirstOfAuthor verifier past (event (call profile) manager input)) {vote : V} (before : vote ∈ past.flatMap counted) :
    vote ∉ counted (event (call profile) manager input) := by
  intro again
  obtain ⟨order, cast, judge, signature, given, fresh, held, _⟩ := mem_counted again
  obtain ⟨entered, gone⟩ := settled.certified vote before
  obtain rfl | older := holds_stored held
  · exact first.new given fresh entered
  · exact gone _ _ older

/-- No certified vote is stored after the call. What the call itself certified
went with its round. -/
theorem Settled.certified_call (settled : Settled verifier validators past manager)
    (represents : Represents config (past.map Event.input) manager)
    (first : FirstOfAuthor verifier past (event (call profile) manager input)) :
    ∀ vote ∈ (past ++ [event (call profile) manager input]).flatMap counted,
      LetIn (past ++ [event (call profile) manager input]) vote ∧
        ∀ key signature, ¬ Holds (call profile manager input).2.pendingVotes key signature vote := by
  intro vote member
  rw [List.flatMap_append, List.flatMap_singleton] at member
  obtain before | now := List.mem_append.mp member
  · obtain ⟨entered, gone⟩ := settled.certified vote before
    refine ⟨entered.later _, ?_⟩
    intro key signature held
    obtain older | ⟨order, judge, given, fresh⟩ := holds_call held
    · exact gone key signature older
    · exact first.new given fresh entered
  · obtain ⟨order, cast, judge, mark, rfl, fresh, among, removed⟩ := mem_counted now
    refine ⟨?_, ?_⟩
    · obtain rfl | older := holds_stored among
      · exact letIn_snoc fresh
      · exact (settled.admitted _ _ _ older).later _
    · intro key signature held
      rw [removed] at held
      obtain ⟨apart, inside⟩ := holds_removeRound.mp held
      have filed := represents.stored order fresh
      have here := (filed.place key signature vote inside).1
      have there := (filed.place _ mark vote among).1
      rw [here] at apart
      exact apart (congrArg Prod.fst there).symm

/-- A group that is used up stays so: its members have had their vote. -/
theorem Spent.call {place : U64 × H} {group : Finset N} (spent : Spent verifier past manager.pendingVotes place group)
    (represents : Represents config (past.map Event.input) manager)
    (first : FirstOfAuthor verifier past (event (call profile) manager input)) :
    Spent verifier (past ++ [event (call profile) manager input]) (call profile manager input).2.pendingVotes place group where
  quorum := spent.quorum
  voted member inside := by
    obtain ⟨cast, entered, facts⟩ := spent.voted member inside
    exact ⟨cast, entered.later _, facts⟩
  gone signature held stored := by
    have filed := ((represents.call profile input).filed.place place signature held stored).1
    obtain older | ⟨order, judge, rfl, fresh⟩ := holds_call stored
    · exact spent.gone signature held older
    · intro inside
      obtain ⟨cast, entered, same, author⟩ := spent.voted _ inside
      exact first.2 fresh cast entered (same.trans filed) author

/-- A block that completed finds no second quorum: it would share a member with the first
one, who had a vote then and has none that could be counted now. -/
theorem Settled.incomplete (settled : Settled verifier validators past manager) (majority : Majority verifier validators)
    {order : Iteration V N S} {vote : V} (fresh : Fresh manager vote verifier)
    (first : FirstOfAuthor verifier past (event (RoundManager.call profile) manager (.processVote order vote verifier)))
    (quorum : completes order manager vote verifier = true) : slot vote ∉ (past.filterMap completedBy).map slot := by
  intro before
  obtain ⟨group, listed, spent⟩ := settled.spent _ before
  obtain ⟨second, inside, enough, voted⟩ := completing_group majority quorum
  obtain ⟨member, had, has⟩ := Quorum.majorities_meet (votingPower verifier) listed inside majority.quorum spent.quorum enough
  obtain ⟨signature, cast, held, author⟩ := voted member has
  obtain rfl | older := holds_stored held
  · obtain ⟨earlier, entered, same, writer⟩ := spent.voted member had
    exact first.2 fresh earlier entered same (writer.trans author.symm)
  · exact spent.gone signature cast older (author ▸ had)

theorem Settled.step (settled : Settled verifier validators past manager) (majority : Majority verifier validators)
    (represents : Represents config (past.map Event.input) manager)
    (first : FirstOfAuthor verifier past (event (call profile) manager input)) :
    Settled verifier validators (past ++ [event (call profile) manager input]) (call profile manager input).2 := by
  have kept : ∀ place ∈ (past.filterMap completedBy).map slot, ∃ group ⊆ validators,
      Spent verifier (past ++ [event (call profile) manager input]) (call profile manager input).2.pendingVotes place group := by
    intro place before
    obtain ⟨group, listed, spent⟩ := settled.spent place before
    exact ⟨group, listed, spent.call represents first⟩
  have admitted : ∀ key signature vote, Holds (call profile manager input).2.pendingVotes key signature vote →
      LetIn (past ++ [event (call profile) manager input]) vote := fun _ _ _ held => settled.admitted_call held
  cases done : completedBy (event (call profile) manager input) with
  | none =>
    refine ⟨?_, admitted, settled.certified_call represents first, ?_⟩
    · rw [filterMap_snoc, done, Option.toList_none, List.append_nil]
      exact settled.once
    · rw [filterMap_snoc, done, Option.toList_none, List.append_nil]
      exact kept
  | some vote =>
    obtain ⟨order, judge, rfl, fresh, quorum, _⟩ := completedBy_fresh done
    obtain rfl : judge = verifier := first.1
    refine ⟨?_, admitted, settled.certified_call represents first, ?_⟩
    · rw [filterMap_snoc, done, Option.toList_some, List.map_append, List.map_singleton, List.nodup_append]
      refine ⟨settled.once, List.nodup_singleton _, ?_⟩
      intro earlier member here same
      rw [List.mem_singleton.mp same]
      rintro rfl
      exact settled.incomplete majority fresh first quorum member
    · rw [filterMap_snoc, done, Option.toList_some, List.map_append, List.map_singleton, List.forall_mem_append,
        List.forall_mem_singleton]
      refine ⟨kept, ?_⟩
      obtain ⟨group, listed, enough, voted⟩ := completing_group majority quorum
      refine ⟨group, listed, enough, ?_, ?_⟩
      · intro member inside
        obtain ⟨signature, cast, held, author⟩ := voted member inside
        refine ⟨cast, ?_, ((represents.stored order fresh).place _ _ _ held).1.symm, author⟩
        obtain rfl | older := holds_stored held
        · exact letIn_snoc fresh
        · exact (settled.admitted _ _ _ older).later _
      · intro signature held stored
        exact absurd stored (completed_empties done signature held)

end Step

/-- A quorum completes once for each block, and what it certified neither comes back nor
counts again, as long as the votes go to one verifier with a majority quorum and no author
gets past the checks twice for one block. -/
theorem quorum_completes_once {verifier : ValidatorVerifier B V N S A} {validators : Finset N} (majority : Majority verifier validators)
    {profile : Profile} {config : RoundManagerConfig} {safetyRules : TwoChainSafetyRules} {calls : List (Call B V QC N S A T)}
    (first : Meets (call profile) (FirstOfAuthor verifier) (.new config safetyRules : RoundManager B V QC H S) calls) :
    let run := trace (call profile) (.new config safetyRules : RoundManager B V QC H S) calls
    ((run.filterMap completedBy).map slot).Nodup ∧
      ∀ past current rest, run = past ++ current :: rest → ∀ vote ∈ past.flatMap counted,
        vote ∉ counted current ∧ ∀ key signature, ¬ Holds current.after.pendingVotes key signature vote := by
  intro run
  have represents := meets_represents profile config safetyRules calls
  have initial : Settled verifier validators ([] : List (ManagerEvent B V QC H N S A T)) (.new config safetyRules) :=
    ⟨List.nodup_nil, fun _ _ _ held => absurd held (not_holds_new _ _ _ _), by simp, by simp⟩
  have next (past : List (ManagerEvent B V QC H N S A T)) (manager : RoundManager B V QC H S) (input : Call B V QC N S A T)
      (settled : Settled verifier validators past manager)
      (here : Represents config (past.map Event.input) manager ∧ FirstOfAuthor verifier past (event (call profile) manager input)) :
      Settled verifier validators (past ++ [event (call profile) manager input]) (call profile manager input).2 :=
    settled.step majority here.1 here.2
  refine ⟨((represents.and first).history initial next).once, ?_⟩
  refine (represents.and first).derive initial next ?_
  intro past manager input settled here vote before
  refine ⟨settled.uncounted here.2 before, ((next past manager input settled here).certified vote ?_).2⟩
  rw [List.flatMap_append]
  exact List.mem_append_left _ before

omit [DecidableEq N] [Block B H] [QuorumCertificate QC H] [FromVotes QC V A] in
theorem LetIn.handed {past : List (ManagerEvent B V QC H N S A T)} {vote : V} (entered : LetIn past vote) :
    vote ∈ (past.map Event.input).filterMap handed := by
  obtain ⟨current, member, order, verifier, given, _⟩ := entered
  exact List.mem_filterMap.mpr ⟨current.input, List.mem_map_of_mem member, by rw [given]; rfl⟩

theorem late_vote_leaves_quorum :
    let set := MockValidatorSet.new [(⟨1⟩, 1), (⟨2⟩, 1), (⟨3⟩, 1), (⟨4⟩, 1)]
    let hand (author : UInt8) := (MockVote.new ⟨author⟩ ⟨7⟩ 1).hand set
    let run := trace (call .dev) (.new .default (.new 0) : MockManager) [hand 1, hand 2, hand 3, hand 4]
    run.map Event.output = [.vote (.ok .accepted), .vote (.ok .accepted), .vote (.ok .quorumCompleted), .vote (.ok .accepted)] ∧
      ((run.filterMap completedBy).map slot).Nodup := by
  intro set hand run
  have weighs : Weighs set.verifier set.validators.keys.toFinset := mock_weighs set (by decide)
  have apart : ∀ (calls : List MockCall) (vote : MockVote), (∀ earlier ∈ calls.filterMap handed, earlier.author ≠ vote.author) →
      FirstOfAuthor set.verifier (trace (call .dev) (.new .default (.new 0) : MockManager) calls)
        (event (call .dev) (exec (call .dev) (.new .default (.new 0)) calls) (vote.hand set)) := by
    intro calls vote others
    refine ⟨rfl, ?_⟩
    intro _ earlier entered _
    have given := entered.handed
    rw [trace_inputs] at given
    exact others earlier given
  have first : Meets (call .dev) (FirstOfAuthor set.verifier) (.new .default (.new 0) : MockManager)
      ([] ++ [hand 1] ++ [hand 2] ++ [hand 3] ++ [hand 4]) := by
    refine meets_snoc.mpr ⟨meets_snoc.mpr ⟨meets_snoc.mpr ⟨meets_snoc.mpr ⟨meets_nil _ _, ?_⟩, ?_⟩, ?_⟩, ?_⟩
    · exact apart _ _ (by decide)
    · exact apart _ _ (by decide)
    · exact apart _ _ (by decide)
    · exact apart _ _ (by decide)
  exact ⟨by decide, (quorum_completes_once (majority_of_weighs weighs) first).1⟩

theorem replayed_votes_complete_again :
    let set := MockValidatorSet.new [(⟨1⟩, 1), (⟨2⟩, 1), (⟨3⟩, 1), (⟨4⟩, 1)]
    let hand (author : UInt8) := (MockVote.new ⟨author⟩ ⟨7⟩ 1).hand set
    let run := trace (call .dev) (.new .default (.new 0) : MockManager) [hand 1, hand 2, hand 3, hand 1, hand 2, hand 3]
    run.map Event.output = [.vote (.ok .accepted), .vote (.ok .accepted), .vote (.ok .quorumCompleted),
        .vote (.ok .accepted), .vote (.ok .accepted), .vote (.ok .quorumCompleted)] ∧
      ¬ ((run.filterMap completedBy).map slot).Nodup := by
  decide

end Once
section Exact
open SignatureAggregator (addSignature collect)

omit [DecidableEq H] [DecidableEq S] [Block B H] [QuorumCertificate QC H] [FromVotes QC V A] in
/-- Nothing is dropped when every vote has an author of its own that the verifier
knows. -/
theorem collect_distinct {verifier : ValidatorVerifier B V N S A} {votes : List V}
    (distinct : (votes.map Vote.author).Nodup) (known : ∀ vote ∈ votes, (verifier.getVotingPower (Vote.author vote)).isSome) :
    (collect verifier votes).signatures.pairs = (votes.map fun vote => (Vote.author vote, Vote.signature vote)).reverse ∧
      (collect verifier votes).signerCount = votes.length := by
  induction votes using List.reverseRecOn with
  | nil => exact ⟨rfl, rfl⟩
  | append_singleton votes vote ih =>
    rw [List.map_append, List.nodup_append] at distinct
    obtain ⟨earlier, _, apart⟩ := distinct
    obtain ⟨pairs, count⟩ := ih earlier fun cast member => known cast (List.mem_append_left _ member)
    obtain ⟨power, found⟩ := Option.isSome_iff_exists.mp (known vote (by simp))
    have absent : Vote.author vote ∉ (collect verifier votes).signatures := by
      intro counted
      obtain ⟨⟨cast, member, same⟩, _⟩ := mem_collect.mp counted
      exact apart _ (List.mem_map_of_mem member) _ (by simp) same
    have added : collect verifier (votes ++ [vote]) =
        (collect verifier votes).addSignature (Vote.author vote) (Vote.signature vote) power := by
      rw [collect_snoc, found]
    rw [added, addSignature, if_neg absent]
    constructor
    · simp only [HashMap.pairs, AList.entries_insert_of_notMem absent, List.map_cons, List.map_append, List.map_nil,
        List.reverse_append, List.reverse_cons, List.reverse_nil, List.nil_append, List.cons_append, List.cons.injEq, true_and]
      exact pairs
    · simp only [count, List.length_append, List.length_cons, List.length_nil, Nat.zero_add]

/-- The signatures that `aggregate` hands to the verifier. -/
def aggregated (order : Order (N × S)) (verifier : ValidatorVerifier B V N S A) (votes : List V) : List S :=
  (order.arrange (collect verifier votes).signatures.pairs).map Prod.snd

/-- The call reaches `from_votes` with these votes and the aggregate of these
signatures. -/
def Certifies (current : ManagerEvent B V QC H N S A T) (verifier : ValidatorVerifier B V N S A) (votes : List V)
    (signatures : List S) : Prop :=
  ∃ order vote, current.input = .processVote order vote verifier ∧ Fresh current.before vote verifier ∧
    completes order current.before vote verifier = true ∧
    votes = (stored current.before vote).pendingVotes.getVotes order.votes (Vote.round vote) (Vote.blockId vote) ∧
    signatures = aggregated order.formed verifier votes ∧
    (collect verifier votes).checkQuorum order.formed verifier = .ok () ∧
    ∃ aggregatedSig, verifier.aggregateSignatures signatures = .ok aggregatedSig

structure Exact (verifier : ValidatorVerifier B V N S A) (votes : List V) (signatures : List S) : Prop where
  signatures : signatures.Perm (votes.map Vote.signature)
  authors : (votes.map Vote.author).Nodup
  known : ∀ vote ∈ votes, (verifier.getVotingPower (Vote.author vote)).isSome
  count : votes.length = (collect verifier votes).signerCount

omit [DecidableEq H] [DecidableEq S] [Block B H] in
theorem exact_of_distinct {order : Order (N × S)} {verifier : ValidatorVerifier B V N S A} {votes : List V}
    (distinct : (votes.map Vote.author).Nodup) (known : ∀ vote ∈ votes, (verifier.getVotingPower (Vote.author vote)).isSome) :
    Exact verifier votes (aggregated order verifier votes) := by
  obtain ⟨pairs, count⟩ := collect_distinct distinct known
  refine ⟨?_, distinct, known, count.symm⟩
  have reversed : ((collect verifier votes).signatures.pairs.map Prod.snd).Perm (votes.map Vote.signature) := by
    rw [pairs, List.map_reverse, List.map_map]
    exact List.reverse_perm _
  exact ((order.perm _).map _).trans reversed

/-- A vote that gets past the checks has an author the verifier knows and the
votes stored for its block are by other authors it knows. -/
def Separate (current : ManagerEvent B V QC H N S A T) : Prop :=
  match current.input with
  | .processVote _ vote verifier => Fresh current.before vote verifier →
    (verifier.getVotingPower (Vote.author vote)).isSome ∧
      ∀ signature held, Holds current.before.pendingVotes (slot vote) signature held →
        Vote.author held ≠ Vote.author vote ∧ (verifier.getVotingPower (Vote.author held)).isSome
  | _ => True

/-- One vote of each author for a block. -/
def OnePerBlock (pending : PendingVotes V H S) : Prop := Distinct (fun key vote => (key, Vote.author vote)) pending

omit [DecidableEq N] [Block B H] [QuorumCertificate QC H] [FromVotes QC V A] in
theorem OnePerBlock.stored {manager : RoundManager B V QC H S} {vote : V} (one : OnePerBlock manager.pendingVotes)
    {known : V → Prop} (others : ∀ signature held, Holds manager.pendingVotes (slot vote) signature held →
      Vote.author held ≠ Vote.author vote ∧ known held) : OnePerBlock (stored manager vote).pendingVotes := by
  refine Distinct.store one ?_
  intro key signature held inside same
  obtain ⟨rfl, author⟩ := Prod.mk.inj same
  exact (others signature held inside).1 author

theorem OnePerBlock.step {profile : Profile} {manager : RoundManager B V QC H S} {input : Call B V QC N S A T}
    (one : OnePerBlock manager.pendingVotes) (separate : Separate (event (call profile) manager input)) :
    OnePerBlock (call profile manager input).2.pendingVotes := by
  have effect := call_effect profile manager input
  simp only [Separate, event] at separate
  generalize call profile manager input = answer at effect ⊢
  obtain ⟨reply, after⟩ := answer
  cases effect with
  | quiet => exact one
  | proposed => exact one
  | kept fresh => exact one.stored (separate fresh).2
  | completed fresh =>
    exact Distinct.fewer (one.stored (separate fresh).2) fun _ _ _ held => (holds_removeRound.mp held).2
  | timedOut => exact Distinct.fewer one fun _ _ _ held => (holds_setRound.mp held).2
  | started => exact Distinct.fewer one fun _ _ _ held => (holds_setRound.mp held).2

/-- Every certificate is built from exactly the votes whose signatures it
aggregates, as long as no block gets a vote of an unknown author or a second vote
of one author. -/
theorem certified_votes_exact {profile : Profile} {config : RoundManagerConfig} {safetyRules : TwoChainSafetyRules}
    {calls : List (Call B V QC N S A T)}
    (separate : ∀ current ∈ trace (call profile) (.new config safetyRules : RoundManager B V QC H S) calls, Separate current)
    {current : ManagerEvent B V QC H N S A T}
    (member : current ∈ trace (call profile) (.new config safetyRules : RoundManager B V QC H S) calls)
    {verifier : ValidatorVerifier B V N S A} {votes : List V} {signatures : List S}
    (certifies : Certifies current verifier votes signatures) : Exact verifier votes signatures := by
  have always : ∀ current ∈ trace (call profile) (.new config safetyRules : RoundManager B V QC H S) calls,
      OnePerBlock current.before.pendingVotes := by
    refine forall_trace_derive (motive := fun manager => OnePerBlock manager.pendingVotes) separate ?_ ?_ ?_
    · intro _ _ _ _ _ _ held
      exact absurd held (not_holds_new _ _ _ _)
    · intro manager input one here
      exact one.step here
    · intro manager input one _
      exact one
  have one := always current member
  have here := separate current member
  obtain ⟨order, vote, input, fresh, _, rfl, rfl, _, _⟩ := certifies
  simp only [Separate, input] at here
  obtain ⟨known, others⟩ := here fresh
  apply exact_of_distinct
  · apply getVotes_nodup
    intro left right first second inside there same
    exact (one.stored others _ left first _ right second inside there (Prod.ext rfl same)).2
  · intro cast inside
    obtain ⟨signature, held⟩ := mem_getVotes.mp inside
    rcases holds_stored held with rfl | older
    · exact known
    · exact (others signature cast older).2

theorem distinct_votes_certified :
    let set := MockValidatorSet.new [(⟨1⟩, 1), (⟨2⟩, 1), (⟨3⟩, 1), (⟨4⟩, 1)]
    let vote (author : UInt8) := MockVote.new ⟨author⟩ ⟨7⟩ 1
    let calls := [] ++ [(vote 1).hand set] ++ [(vote 2).hand set] ++ [(vote 3).hand set]
    let run := trace (call .dev) (.new .default (.new 0) : MockManager) calls
    ∃ current ∈ run, Certifies current set.verifier [vote 3, vote 2, vote 1] [⟨1⟩, ⟨2⟩, ⟨3⟩] ∧
      Exact set.verifier [vote 3, vote 2, vote 1] [⟨1⟩, ⟨2⟩, ⟨3⟩] := by
  intro set vote calls run
  have separate : ∀ current ∈ run, Separate current := by
    refine meets_iff_trace.mp (meets_snoc.mpr ⟨meets_snoc.mpr ⟨meets_snoc.mpr ⟨meets_nil _ _, ?_⟩, ?_⟩, ?_⟩)
    · intro _
      exact ⟨by decide, holds_all (by decide)⟩
    · intro _
      exact ⟨by decide, holds_all (by decide)⟩
    · intro _
      exact ⟨by decide, holds_all (by decide)⟩
  have last : event (call .dev) (exec (call .dev) (.new .default (.new 0)) (calls.take 2)) ((vote 3).hand set) ∈ run :=
    List.mem_cons_of_mem _ (List.mem_cons_of_mem _ List.mem_cons_self)
  have certifies : Certifies (event (call .dev) (exec (call .dev) (.new .default (.new 0)) (calls.take 2)) ((vote 3).hand set))
      set.verifier [vote 3, vote 2, vote 1] [⟨1⟩, ⟨2⟩, ⟨3⟩] :=
    ⟨.insertion, vote 3, rfl, ⟨rfl, by decide, by decide, by decide⟩, by decide, by decide, by decide, by decide, ⟨⟩, rfl⟩
  exact ⟨_, last, certifies, certified_votes_exact separate last certifies⟩

theorem second_signature_not_aggregated :
    let set := MockValidatorSet.new [(⟨1⟩, 1), (⟨2⟩, 1), (⟨3⟩, 1), (⟨4⟩, 1)]
    let vote (author : UInt8) := MockVote.new ⟨author⟩ ⟨7⟩ 1
    let again : MockVote := ⟨⟨1⟩, ⟨7⟩, 1, ⟨9⟩⟩
    let calls := [(vote 1).hand set, again.hand set, (vote 2).hand set, (vote 3).hand set]
    let run := trace (call .dev) (.new .default (.new 0) : MockManager) calls
    ∃ current ∈ run, Certifies current set.verifier [vote 3, vote 2, again, vote 1] [⟨9⟩, ⟨2⟩, ⟨3⟩] ∧
      ¬ Exact set.verifier [vote 3, vote 2, again, vote 1] [⟨9⟩, ⟨2⟩, ⟨3⟩] := by
  intro set vote again calls run
  have last : event (call .dev) (exec (call .dev) (.new .default (.new 0)) (calls.take 3)) ((vote 3).hand set) ∈ run :=
    List.mem_cons_of_mem _ (List.mem_cons_of_mem _ (List.mem_cons_of_mem _ List.mem_cons_self))
  refine ⟨_, last, ?_, ?_⟩
  · exact ⟨.insertion, vote 3, rfl, ⟨rfl, by decide, by decide, by decide⟩, by decide, by decide, by decide, by decide, ⟨⟩, rfl⟩
  · intro matching
    exact absurd matching.count (by decide)

end Exact
end AptosBft.Proofs.Completion
