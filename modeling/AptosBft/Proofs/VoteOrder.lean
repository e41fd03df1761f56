import AptosBft.Proofs.QuorumDetection
import AptosBft.Proofs.VoteLog

/-! The order in which votes come in. Two buffers that were given the same votes in different
orders cannot be told apart by any later run of calls. -/

namespace AptosBft.Proofs.VoteOrder
open Rust Mealy AptosBft.PendingVotes AptosBft.Proofs.PendingVotes AptosBft.Proofs.QuorumDetection AptosBft.Proofs.VoteLog

variable {B V H N S A : Type} [DecidableEq H] [DecidableEq S] [Vote V B H N S A]

/-- Logs with the same votes. -/
structure Same (left right : Log V) : Prop where
  votes : left.votes.Perm right.votes
  round : left.currentRound = right.currentRound

/-- Votes that a buffer takes for one: same block, same signature. -/
def Alike (first second : V) : Prop := slot first = slot second ∧ Vote.signature first = Vote.signature second

section Logs
variable {left right log : Log V}

omit [DecidableEq H] [DecidableEq S] in
theorem Same.repeats_iff (same : Same left right) (vote : V) : left.Repeats vote ↔ right.Repeats vote := by
  simp only [Log.Repeats, same.votes.mem_iff]

theorem Same.take (same : Same left right) (vote : V) : Same (left.take vote) (right.take vote) := by
  simp only [Log.take, same.round, same.repeats_iff]
  split
  · exact same
  · exact ⟨same.votes.append_right [vote], rfl⟩

theorem take_turned {vote : V} (turned : Vote.round vote < log.currentRound ∨ log.Repeats vote) : log.take vote = log := by
  rw [Log.take, if_pos turned]

theorem take_fresh {vote : V} (fresh : ¬(Vote.round vote < log.currentRound ∨ log.Repeats vote)) :
    log.take vote = { log with votes := log.votes ++ [vote] } := by
  rw [Log.take, if_neg fresh]

theorem take_round (log : Log V) (vote : V) : (log.take vote).currentRound = log.currentRound := by
  rw [Log.take]
  split <;> rfl

/-- A vote that was taken stands in the way of the same vote only. -/
theorem take_repeats {first second : V} (unlike : ¬Alike first second) : (log.take first).Repeats second ↔ log.Repeats second := by
  rw [Log.take]
  split
  next => rfl
  next =>
    simp only [Log.Repeats, List.mem_append, List.mem_singleton]
    constructor
    · rintro ⟨held, inside | rfl, like⟩
      · exact ⟨held, inside, like⟩
      · exact absurd like unlike
    · rintro ⟨held, inside, like⟩
      exact ⟨held, Or.inl inside, like⟩

theorem Same.swap (same : Same left right) {first second : V} (own : Alike first second → first = second) :
    Same ((left.take first).take second) ((right.take second).take first) := by
  by_cases like : Alike first second
  · rw [own like]
    exact (same.take second).take second
  have unlike : ¬Alike second first := fun other => like ⟨other.1.symm, other.2.symm⟩
  have late : (Vote.round second < (left.take first).currentRound ∨ (left.take first).Repeats second) ↔
      (Vote.round second < right.currentRound ∨ right.Repeats second) := by
    rw [take_round, take_repeats like, same.round, same.repeats_iff]
  have early : (Vote.round first < (right.take second).currentRound ∨ (right.take second).Repeats first) ↔
      (Vote.round first < left.currentRound ∨ left.Repeats first) := by
    rw [take_round, take_repeats unlike, same.round, same.repeats_iff]
  by_cases turned : Vote.round first < left.currentRound ∨ left.Repeats first
  · rw [take_turned (early.mpr turned), take_turned turned]
    exact same.take second
  · by_cases stopped : Vote.round second < right.currentRound ∨ right.Repeats second
    · rw [take_turned (late.mpr stopped), take_turned stopped]
      exact same.take first
    · rw [take_fresh (fun other => stopped (late.mp other)), take_fresh (fun other => turned (early.mp other)),
        take_fresh turned, take_fresh stopped]
      refine ⟨?_, same.round⟩
      simp only [List.append_assoc, List.cons_append, List.nil_append]
      exact same.votes.append (List.Perm.swap second first [])

theorem Same.step (maxRounds : U64) (same : Same left right) (input : Call B V N S A) :
    Same (left.step maxRounds input) (right.step maxRounds input) := by
  cases input with
  | addVote order vote verifier => exact same.take vote
  | setRound round => exact ⟨same.votes.filter _, rfl⟩
  | removeRound round => exact ⟨same.votes.filter _, same.round⟩

omit [DecidableEq S] in
theorem Same.cast (same : Same left right) (round : U64) (blockId : H) : (left.cast round blockId).Perm (right.cast round blockId) :=
  same.votes.filter _

end Logs

section Buffers
variable {maxRounds : U64} {pending left right : PendingVotes V H S} {log : Log V}

/-- Buffers that hold the same votes. -/
def Twins (maxRounds : U64) (left right : PendingVotes V H S) : Prop :=
  ∃ log other : Log V, Logged maxRounds left log ∧ Logged maxRounds right other ∧ Same log other

variable [DecidableEq N]

omit [DecidableEq H] [DecidableEq S] in
theorem backers_perm (verifier : ValidatorVerifier B V N S A) {votes others : List V} (perm : votes.Perm others) :
    backers verifier votes = backers verifier others := by
  apply Finset.ext
  intro author
  simp only [mem_backers, perm.mem_iff]

/-- The votes for a block that a verifier would count as a quorum. -/
def Complete (verifier : ValidatorVerifier B V N S A) (votes : List V) : Prop :=
  verifier.quorumVotingPower ≤ ∑ author ∈ backers verifier votes, QuorumUniqueness.votingPower verifier author

instance (verifier : ValidatorVerifier B V N S A) (votes : List V) : Decidable (Complete verifier votes) :=
  inferInstanceAs (Decidable (_ ≤ _))

/-- The answer to a vote, read off the log. -/
theorem answer_eq (logged : Logged maxRounds pending log) (order : Iteration V N S) (vote : V) {verifier : ValidatorVerifier B V N S A}
    (tests : TestsQuorum verifier) :
    (pending.addVote order vote verifier).1 =
      if Vote.round vote < log.currentRound then .oldRound
      else if log.Repeats vote then .rejected .rejected
      else if Complete verifier ((log.take vote).cast (Vote.round vote) (Vote.blockId vote)) then .quorumCompleted
      else .accepted := by
  obtain ⟨old, rejected, taken⟩ := logged.addVote order vote verifier
  split
  next early => exact old.mpr early
  next early =>
    split
    next seen => exact rejected.mpr ⟨not_lt.mp early, seen⟩
    next unseen =>
      have fresh : pending.isDuplicate (Vote.round vote, Vote.blockId vote) vote = false := by
        rw [← Bool.not_eq_true]
        exact fun seen => unseen ((logged.repeats_iff vote).mp seen)
      have current : ¬Vote.round vote < pending.currentRound := by
        rw [logged.round]
        exact early
      have stored : (pending.addVote order vote verifier).2 = pending.store (Vote.round vote, Vote.blockId vote) vote := by
        simp only [addVote, current, fresh, if_false, Bool.false_eq_true]
        split <;> rfl
      rw [stored] at taken
      have quorum : (pending.store (Vote.round vote, Vote.blockId vote) vote).checkQuorum order (Vote.round vote, Vote.blockId vote) verifier = true ↔
          Complete verifier ((log.take vote).cast (Vote.round vote) (Vote.blockId vote)) := by
        rw [checkQuorum_iff tests order (AList.lookup_insert ..), backers_perm verifier (taken.votesFor _ _ _)]
        rfl
      simp only [addVote, current, fresh, if_false, Bool.false_eq_true, quorum]
      split <;> rfl

theorem Twins.next (twins : Twins maxRounds left right) (input : Call B V N S A) :
    Twins maxRounds (call left input).2 (call right input).2 := by
  obtain ⟨log, other, logged, partner, same⟩ := twins
  exact ⟨_, _, logged.step input, partner.step input, same.step maxRounds input⟩

/-- The verifier of a vote weighs its quorums. -/
def Tested : Call B V N S A → Prop
  | .addVote _ _ verifier => TestsQuorum verifier
  | _ => True

theorem Twins.answer (twins : Twins maxRounds left right) {input : Call B V N S A} (tested : Tested input) :
    (call left input).1 = (call right input).1 := by
  obtain ⟨log, other, logged, partner, same⟩ := twins
  cases input with
  | addVote order vote verifier =>
    have complete : Complete verifier ((log.take vote).cast (Vote.round vote) (Vote.blockId vote)) ↔
        Complete verifier ((other.take vote).cast (Vote.round vote) (Vote.blockId vote)) := by
      rw [Complete, backers_perm verifier ((same.take vote).cast _ _)]
      rfl
    have answers : (left.addVote order vote verifier).1 = (right.addVote order vote verifier).1 := by
      rw [answer_eq logged order vote tested, answer_eq partner order vote tested, same.round]
      exact if_congr Iff.rfl rfl (if_congr (same.repeats_iff vote) rfl (if_congr complete rfl rfl))
    exact congrArg some answers
  | setRound round => rfl
  | removeRound round => rfl

theorem Twins.run (twins : Twins maxRounds left right) {inputs : List (Call B V N S A)} (tested : ∀ input ∈ inputs, Tested input) :
    (trace call left inputs).map Event.output = (trace call right inputs).map Event.output ∧
      Twins maxRounds (exec call left inputs) (exec call right inputs) := by
  induction inputs generalizing left right with
  | nil => exact ⟨rfl, twins⟩
  | cons input rest ih =>
    obtain ⟨here, others⟩ := List.forall_mem_cons.mp tested
    obtain ⟨answers, kept⟩ := ih (twins.next input) others
    refine ⟨?_, kept⟩
    rw [trace_cons, trace_cons, List.map_cons, List.map_cons, answers, event_output, event_output, twins.answer here]

def IsVote (input : Call B V N S A) (vote : V) : Prop := ∃ order verifier, input = .addVote order vote verifier

/-- The calls of a batch add votes, and two of them that a buffer takes for one are one. -/
def Batch (inputs : List (Call B V N S A)) : Prop :=
  ∀ first ∈ inputs, ∃ vote, IsVote first vote ∧ ∀ second ∈ inputs, ∀ other, IsVote second other → Alike vote other → vote = other

/-- Votes that come in in different orders leave buffers that no later run can tell apart:
every call is answered alike, and every question about the votes as well. -/
theorem votes_in_any_order (maxRounds : U64) (calls : List (Call B V N S A)) {inputs others : List (Call B V N S A)}
    (perm : inputs.Perm others) (batch : Batch inputs) (later : List (Call B V N S A)) (tested : ∀ input ∈ later, Tested input) :
    let pending : PendingVotes V H S := exec call (.new maxRounds) calls
    let left := exec call pending inputs
    let right := exec call pending others
    (trace call left later).map Event.output = (trace call right later).map Event.output ∧
    (∀ order other round blockId,
      ((exec call left later).getVotes order round blockId).Perm ((exec call right later).getVotes other round blockId)) ∧
    (∀ round blockId (verifier : ValidatorVerifier B V N S A), (exec call left later).aggregatedVotingPower round blockId verifier =
      (exec call right later).aggregatedVotingPower round blockId verifier) ∧
    (exec call left later).totalVotes = (exec call right later).totalVotes := by
  intro pending left right
  have logged : Logged maxRounds pending _ := (Logged.new maxRounds).exec calls
  have twins : Twins maxRounds left right := by
    refine exec_perm call (Twins maxRounds) ?_ ?_ ?_ perm ?_ ⟨_, _, logged, logged, ⟨.refl _, rfl⟩⟩
    · rintro state partner ⟨log, _, held, _, _⟩
      exact ⟨log, log, held, held, ⟨.refl _, rfl⟩⟩
    · rintro one two three ⟨log, middle, first, here, same⟩ ⟨again, last, there, third, further⟩
      refine ⟨log, last, first, third, ?_, ?_⟩
      · exact same.votes.trans ((here.votes.symm.trans there.votes).trans further.votes)
      · rw [same.round, ← here.round, there.round, further.round]
    · intro state partner input twins
      exact twins.next input
    · rintro first early second late state partner ⟨log, other, held, mirrored, same⟩
      obtain ⟨vote, ⟨order, verifier, rfl⟩, own⟩ := batch first early
      obtain ⟨next, ⟨walk, judge, rfl⟩, _⟩ := batch second late
      have alike : Alike vote next → vote = next := own _ late next ⟨walk, judge, rfl⟩
      exact ⟨_, _, (held.step _).step _, (mirrored.step _).step _, same.swap alike⟩
  obtain ⟨answers, log, other, held, mirrored, same⟩ := twins.run tested
  refine ⟨answers, ?_, ?_, ?_⟩
  · intro order walk round blockId
    exact (held.votesFor order round blockId).trans ((same.cast round blockId).trans (mirrored.votesFor walk round blockId).symm)
  · intro round blockId verifier
    rw [held.power, mirrored.power]
    exact (((same.cast round blockId).filterMap _).map _).sum_eq
  · rw [held.total, mirrored.total]
    exact same.votes.length_eq

end Buffers

def fourEqual : MockValidatorSet := .new [(⟨1⟩, 1), (⟨2⟩, 1), (⟨3⟩, 1), (⟨4⟩, 1)]

def handed (author : UInt8) : Call MockBlock MockVote MockHash MockSignature MockAggregatedSignature :=
  .addVote .insertion (.new ⟨author⟩ ⟨7⟩ 1) fourEqual.verifier

theorem handed_batch (authors : List UInt8) : Batch (authors.map handed) := by
  intro first member
  obtain ⟨author, _, rfl⟩ := List.mem_map.mp member
  refine ⟨.new ⟨author⟩ ⟨7⟩ 1, ⟨_, _, rfl⟩, ?_⟩
  rintro second inside other ⟨order, verifier, cast⟩ alike
  obtain ⟨writer, _, rfl⟩ := List.mem_map.mp inside
  obtain ⟨_, rfl, _⟩ := Call.addVote.inj cast
  have same : (⟨author⟩ : MockSignature) = ⟨writer⟩ := alike.2
  cases same
  rfl

/-- Two votes forwards and backwards, one of them repeated, and then the third vote. -/
theorem third_vote_sees_no_order :
    let pending : PendingVotes MockVote MockHash MockSignature := exec call (.new 10) ([9].map handed)
    (trace call (exec call pending ([1, 2, 1].map handed)) ([3].map handed)).map Event.output =
      (trace call (exec call pending ([2, 1, 1].map handed)) ([3].map handed)).map Event.output := by
  intro pending
  have tests : TestsQuorum fourEqual.verifier := (QuorumUniqueness.mock_weighs fourEqual (by decide)).checks
  have perm : ([1, 2, 1].map handed).Perm ([2, 1, 1].map handed) := List.Perm.map handed (List.Perm.swap 2 1 [1])
  have tested : ∀ input ∈ [3].map handed, Tested input := by
    intro input member
    obtain ⟨author, _, rfl⟩ := List.mem_map.mp member
    exact tests
  exact (votes_in_any_order 10 ([9].map handed) perm (handed_batch _) ([3].map handed) tested).1

end AptosBft.Proofs.VoteOrder
