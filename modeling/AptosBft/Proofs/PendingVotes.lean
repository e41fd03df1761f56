import AptosBft.Calls
import AptosBft.Lib.Mealy
import AptosBft.Testing

/-! The pending votes read as one map from round, block and signature to vote.
Each operation is described once by what it does to that map; everything else
about stored votes follows from these descriptions. -/

namespace AptosBft.Proofs.PendingVotes
open Rust Mealy AptosBft.PendingVotes

variable {B V H N S A : Type} [DecidableEq H] [DecidableEq S]

def Holds (pending : PendingVotes V H S) (key : U64 × H) (signature : S) (vote : V) : Prop :=
  pending.votes.entry key signature = some vote

instance [DecidableEq V] (pending : PendingVotes V H S) (key : U64 × H) (signature : S) (vote : V) :
    Decidable (Holds pending key signature vote) := inferInstanceAs (Decidable (_ = _))

theorem not_holds_new (maxRounds : U64) (key : U64 × H) (signature : S) (vote : V) :
    ¬ Holds (.new maxRounds) key signature vote := by
  intro held
  cases held

theorem holds_setRound {pending : PendingVotes V H S} {round : U64} {key : U64 × H} {signature : S} {vote : V} :
    Holds (pending.setRound round) key signature vote ↔
      round.saturatingSub pending.maxRounds ≤ key.1 ∧ Holds pending key signature vote := by
  simp only [Holds, setRound, cleanupOldVotes, HashMap.entry_retain, ge_iff_le, decide_eq_true_eq]
  split <;> simp_all

theorem holds_removeRound {pending : PendingVotes V H S} {round : U64} {key : U64 × H} {signature : S} {vote : V} :
    Holds (pending.removeRound round) key signature vote ↔ key.1 ≠ round ∧ Holds pending key signature vote := by
  simp only [Holds, removeRound, HashMap.entry_retain, decide_eq_true_eq]
  split <;> simp_all

theorem mem_getVotes {order : Order V} {pending : PendingVotes V H S} {round : U64} {blockId : H} {vote : V} :
    vote ∈ pending.getVotes order round blockId ↔ ∃ signature, Holds pending (round, blockId) signature vote := by
  simp only [getVotes, Holds, HashMap.entry]
  cases pending.votes.lookup (round, blockId) with
  | none => simp
  | some bucket => simp only [order.mem_arrange, HashMap.mem_values, Option.bind_some]

theorem voteCount_eq_zero_iff {pending : PendingVotes V H S} {round : U64} {blockId : H} :
    pending.voteCount round blockId = 0 ↔ ¬ ∃ signature vote, Holds pending (round, blockId) signature vote := by
  simp only [voteCount, Holds, HashMap.entry]
  cases pending.votes.lookup (round, blockId) with
  | none => simp
  | some bucket =>
    simp only [Option.bind_some]
    constructor
    · intro empty held
      obtain ⟨signature, vote, found⟩ := held
      rw [HashMap.lookup_of_len_zero empty] at found
      cases found
    · intro none
      by_contra stored
      exact none (HashMap.exists_lookup_of_len_ne_zero stored)

theorem holds_all {pending : PendingVotes V H S} {key : U64 × H} {good : V → Prop}
    (all : ∀ vote ∈ pending.getVotes .insertion key.1 key.2, good vote) (signature : S) (vote : V)
    (held : Holds pending key signature vote) : good vote :=
  all vote (mem_getVotes.mpr ⟨signature, held⟩)

theorem getVotes_nodup {β : Type} {f : V → β} {order : Order V} {pending : PendingVotes V H S} {round : U64} {blockId : H}
    (separate : ∀ left right first second, Holds pending (round, blockId) left first →
      Holds pending (round, blockId) right second → f first = f second → left = right) :
    ((pending.getVotes order round blockId).map f).Nodup := by
  simp only [getVotes]
  cases found : pending.votes.lookup (round, blockId) with
  | none => exact List.nodup_nil
  | some bucket =>
    rw [((order.perm bucket.values).map f).nodup_iff]
    apply HashMap.nodup_map_values
    intro left right first second here there
    apply separate
    · simpa [Holds, HashMap.entry, found] using here
    · simpa [Holds, HashMap.entry, found] using there

variable [Vote V B H N S A]

omit [DecidableEq S] in
theorem checkQuorum_getVotes [DecidableEq N] {order : Iteration V N S} {pending : PendingVotes V H S} {round : U64} {blockId : H}
    {verifier : ValidatorVerifier B V N S A} (reached : pending.checkQuorum order (round, blockId) verifier = true) :
    (SignatureAggregator.collect verifier (pending.getVotes order.votes round blockId)).checkQuorum order.checked verifier =
      .ok () := by
  simp only [checkQuorum] at reached
  simp only [getVotes]
  split at reached
  next bucket found =>
    split at reached
    next passed => exact passed
    next => cases reached
  next => cases reached

theorem holds_store {pending : PendingVotes V H S} {key here : U64 × H} {signature : S} {vote held : V} :
    Holds (pending.store key vote) here signature held ↔
      (here = key ∧ signature = Vote.signature vote ∧ held = vote) ∨
      (¬ (here = key ∧ signature = Vote.signature vote) ∧ Holds pending here signature held) := by
  have written : (pending.store key vote).votes = pending.votes.put key (Vote.signature vote) vote := rfl
  simp only [Holds, written, HashMap.entry_put]
  split
  next own => simp only [Option.some.injEq, own, and_self, true_and, not_true_eq_false, false_and, or_false, eq_comm]
  next other => simp only [other, not_false_eq_true, true_and, ← and_assoc, false_and, false_or]

theorem isDuplicate_iff {pending : PendingVotes V H S} {key : U64 × H} {vote : V} :
    pending.isDuplicate key vote = true ↔ ∃ held, Holds pending key (Vote.signature vote) held := by
  simp only [isDuplicate, Holds, HashMap.entry]
  cases pending.votes.lookup key with
  | none => simp
  | some bucket =>
    simp only [Option.bind_some, decide_eq_true_eq, ← AList.lookup_isSome, Option.isSome_iff_exists]

/-- Stored votes with the same tag are one entry. -/
def Distinct {β : Type} (tag : U64 × H → V → β) (pending : PendingVotes V H S) : Prop :=
  ∀ key signature vote other mark second, Holds pending key signature vote → Holds pending other mark second →
    tag key vote = tag other second → key = other ∧ signature = mark

omit [Vote V B H N S A] in
theorem Distinct.fewer {β : Type} {tag : U64 × H → V → β} {pending kept : PendingVotes V H S} (distinct : Distinct tag pending)
    (subset : ∀ key signature vote, Holds kept key signature vote → Holds pending key signature vote) : Distinct tag kept := by
  intro key signature vote other mark second here there
  exact distinct key signature vote other mark second (subset _ _ _ here) (subset _ _ _ there)

theorem Distinct.store {β : Type} {tag : U64 × H → V → β} {pending : PendingVotes V H S} {key : U64 × H} {vote : V}
    (distinct : Distinct tag pending)
    (apart : ∀ other mark held, Holds pending other mark held → tag other held ≠ tag key vote) :
    Distinct tag (pending.store key vote) := by
  intro first signature cast other mark second here there same
  obtain ⟨rfl, rfl, rfl⟩ | ⟨_, older⟩ := holds_store.mp here
  · obtain ⟨rfl, rfl, _⟩ | ⟨_, earlier⟩ := holds_store.mp there
    · exact ⟨rfl, rfl⟩
    · exact absurd same.symm (apart other mark second earlier)
  · obtain ⟨rfl, rfl, rfl⟩ | ⟨_, earlier⟩ := holds_store.mp there
    · exact absurd same (apart first signature cast older)
    · exact distinct first signature cast other mark second older earlier same

variable [DecidableEq N]

theorem addVote_cases (order : Iteration V N S) (pending : PendingVotes V H S) (vote : V)
    (verifier : ValidatorVerifier B V N S A) :
    (Vote.round vote < pending.currentRound ∧ pending.addVote order vote verifier = (.oldRound, pending)) ∨
    (pending.isDuplicate (Vote.round vote, Vote.blockId vote) vote = true ∧
      pending.addVote order vote verifier = (.rejected .rejected, pending)) ∨
    (pending.currentRound ≤ Vote.round vote ∧ pending.isDuplicate (Vote.round vote, Vote.blockId vote) vote = false ∧
      ∃ result, (result = .accepted ∨ result = .quorumCompleted) ∧
        pending.addVote order vote verifier = (result, pending.store (Vote.round vote, Vote.blockId vote) vote)) := by
  simp only [addVote]
  by_cases old : Vote.round vote < pending.currentRound
  · exact Or.inl ⟨old, by simp only [old, ite_true]⟩
  simp only [old, ite_false]
  cases seen : pending.isDuplicate (Vote.round vote, Vote.blockId vote) vote with
  | true => exact Or.inr (Or.inl ⟨rfl, rfl⟩)
  | false =>
    refine Or.inr (Or.inr ⟨not_lt.mp old, rfl, ?_⟩)
    simp only [Bool.false_eq_true, ite_false]
    split
    · exact ⟨.quorumCompleted, Or.inr rfl, rfl⟩
    · exact ⟨.accepted, Or.inl rfl, rfl⟩

abbrev VoteEvent (B V H N S A : Type) := Event (PendingVotes V H S) (Call B V N S A) (Option VoteReceptionResult)

def OnePerAuthor (pending : PendingVotes V H S) : Prop :=
  Distinct (fun _ vote => (Vote.round vote, Vote.author vote)) pending

/-- Another vote of an author with a stored vote of the round, for the same block
under another signature or for another block, is turned away. -/
def TurnsAwaySecond (current : VoteEvent B V H N S A) : Prop :=
  match current.input with
  | .addVote _ vote _ => ∀ key signature held, Holds current.before key signature held →
      Vote.round held = Vote.round vote → Vote.author held = Vote.author vote →
      (key, signature) ≠ ((Vote.round vote, Vote.blockId vote), Vote.signature vote) →
      (current.output = some (.rejected .rejected) ∨ current.output = some .oldRound) ∧
        current.after.votes = current.before.votes
  | _ => True

/-- A vote that is neither old nor stored already comes from an author without a
stored vote of its round. -/
def FirstOfAuthor (current : VoteEvent B V H N S A) : Prop :=
  match current.input with
  | .addVote _ vote _ => current.before.currentRound ≤ Vote.round vote →
      current.before.isDuplicate (Vote.round vote, Vote.blockId vote) vote = false →
      ∀ key signature held, Holds current.before key signature held →
        Vote.round held = Vote.round vote → Vote.author held ≠ Vote.author vote
  | _ => True

theorem turnsAwaySecond_iff (pending : PendingVotes V H S) (input : Call B V N S A) :
    TurnsAwaySecond (event call pending input) ↔ FirstOfAuthor (event call pending input) := by
  cases input with
  | addVote order vote verifier =>
    obtain ⟨old, answer⟩ | ⟨seen, answer⟩ | ⟨recent, unseen, result, kind, answer⟩ := addVote_cases order pending vote verifier
    · have apart := not_le.mpr old
      simp [TurnsAwaySecond, FirstOfAuthor, event, call, answer, apart]
    · simp [TurnsAwaySecond, FirstOfAuthor, event, call, answer, seen]
    · simp only [TurnsAwaySecond, FirstOfAuthor, event, call, answer, recent, unseen, true_imp_iff]
      constructor
      · intro away key signature held inside round author
        have other : (key, signature) ≠ ((Vote.round vote, Vote.blockId vote), Vote.signature vote) := by
          intro same
          cases same
          exact absurd (isDuplicate_iff.mpr ⟨held, inside⟩) (by rw [unseen]; exact Bool.false_ne_true)
        obtain ⟨refused, _⟩ := away key signature held inside round author other
        rcases kind with rfl | rfl <;> simp at refused
      · intro first key signature held inside round author
        exact absurd author (first key signature held inside round)
  | setRound round => exact Iff.rfl
  | removeRound round => exact Iff.rfl

theorem OnePerAuthor.call {pending : PendingVotes V H S} (one : OnePerAuthor pending) {input : Call B V N S A}
    (first : FirstOfAuthor (event call pending input)) : OnePerAuthor (call pending input).2 := by
  cases input with
  | addVote order vote verifier =>
    obtain ⟨_, answer⟩ | ⟨_, answer⟩ | ⟨recent, unseen, result, _, answer⟩ := addVote_cases order pending vote verifier
    · simpa only [AptosBft.PendingVotes.call, answer] using one
    · simpa only [AptosBft.PendingVotes.call, answer] using one
    · simp only [AptosBft.PendingVotes.call, answer]
      refine Distinct.store one ?_
      intro key signature held inside same
      obtain ⟨round, author⟩ := Prod.mk.inj same
      exact first recent unseen key signature held inside round author
  | setRound round => exact Distinct.fewer one fun _ _ _ held => (holds_setRound.mp held).2
  | removeRound round => exact Distinct.fewer one fun _ _ _ held => (holds_removeRound.mp held).2

/-- Stored votes are told apart by signature and block only. So one vote per
author and round is kept exactly in the runs where no author sends a second one
that is still current and not stored already. -/
theorem one_vote_per_author_iff (maxRounds : U64) (calls : List (Call B V N S A)) :
    (∀ current ∈ trace call (.new maxRounds : PendingVotes V H S) calls,
      OnePerAuthor current.after ∧ TurnsAwaySecond current) ↔
    ∀ current ∈ trace call (.new maxRounds : PendingVotes V H S) calls, FirstOfAuthor current := by
  constructor
  · intro kept
    exact (forall_trace_congr turnsAwaySecond_iff).mp fun current member => (kept current member).2
  · intro every
    refine forall_trace_derive (motive := OnePerAuthor) every ?_ ?_ ?_
    · intro _ _ _ _ _ _ held
      exact absurd held (not_holds_new _ _ _ _)
    · intro pending input one first
      exact one.call first
    · intro pending input one first
      exact ⟨one.call first, (turnsAwaySecond_iff pending input).mpr first⟩

theorem second_signature_and_equivocation_stored :
    let set := MockValidatorSet.new [(⟨1⟩, 1), (⟨2⟩, 1), (⟨3⟩, 1), (⟨4⟩, 1)]
    let hand (vote : MockVote) : Call MockBlock MockVote MockHash MockSignature MockAggregatedSignature :=
      .addVote .insertion vote set.verifier
    let calls := [hand (.new ⟨1⟩ ⟨7⟩ 1), hand ⟨⟨1⟩, ⟨7⟩, 1, ⟨9⟩⟩, hand (.new ⟨1⟩ ⟨8⟩ 1)]
    let run := trace call (.new 10 : PendingVotes MockVote MockHash MockSignature) calls
    run.map Event.output = [some .accepted, some .accepted, some .accepted] ∧
      ¬ ∀ current ∈ run, OnePerAuthor current.after ∧ TurnsAwaySecond current := by
  intro set hand calls run
  refine ⟨by decide, ?_⟩
  intro kept
  have final : event call (exec call (.new 10) (calls.take 2)) (hand (.new ⟨1⟩ ⟨8⟩ 1)) ∈ run :=
    List.mem_cons_of_mem _ (List.mem_cons_of_mem _ List.mem_cons_self)
  obtain ⟨same, _⟩ := (kept _ final).1 (1, ⟨7⟩) ⟨1⟩ (.new ⟨1⟩ ⟨7⟩ 1) (1, ⟨8⟩) ⟨1⟩ (.new ⟨1⟩ ⟨8⟩ 1) (by decide) (by decide) rfl
  exact absurd same (by decide)

end AptosBft.Proofs.PendingVotes
