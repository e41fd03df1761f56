import AptosBft.Proofs.PendingVotes

/-! The pending votes as a log: votes in the order they were taken, of which whole rounds
are dropped. Nothing else about the two levels of hash maps can be seen from outside. -/

namespace AptosBft.Proofs.VoteLog
open Rust Mealy AptosBft.PendingVotes AptosBft.Proofs.PendingVotes

structure Log (V : Type) where
  votes : List V
  currentRound : U64

variable {B V H N S A : Type} [DecidableEq H] [DecidableEq S] [Vote V B H N S A]

/-- The place of a vote. -/
def slot (vote : V) : U64 × H := (Vote.round vote, Vote.blockId vote)

namespace Log

def Repeats (log : Log V) (vote : V) : Prop :=
  ∃ held ∈ log.votes, slot held = slot vote ∧ Vote.signature held = Vote.signature vote

instance (log : Log V) (vote : V) : Decidable (log.Repeats vote) :=
  inferInstanceAs (Decidable (∃ held ∈ log.votes, _))

def take (log : Log V) (vote : V) : Log V :=
  if Vote.round vote < log.currentRound ∨ log.Repeats vote then log
  else { log with votes := log.votes ++ [vote] }

def step (maxRounds : U64) (log : Log V) : Call B V N S A → Log V
  | .addVote _ vote _ => log.take vote
  | .setRound round => ⟨log.votes.filter fun vote => round.saturatingSub maxRounds ≤ Vote.round vote, round⟩
  | .removeRound round => { log with votes := log.votes.filter fun vote => Vote.round vote ≠ round }

def run (maxRounds : U64) (calls : List (Call B V N S A)) : Log V := calls.foldl (step maxRounds) ⟨[], 0⟩

/-- The votes for a block, in the order they came. -/
def cast (log : Log V) (round : U64) (blockId : H) : List V := log.votes.filter fun vote => slot vote = (round, blockId)

end Log

/-- The buffer holds the votes of the log. -/
structure Logged (maxRounds : U64) (pending : PendingVotes V H S) (log : Log V) : Prop where
  width : pending.maxRounds = maxRounds
  round : pending.currentRound = log.currentRound
  filed : pending.votes.Filed slot
  signed : ∀ key signature vote, Holds pending key signature vote → signature = Vote.signature vote
  votes : pending.votes.contents.Perm log.votes

variable {maxRounds : U64} {pending : PendingVotes V H S} {log : Log V}

theorem Logged.new (maxRounds : U64) : Logged maxRounds (.new maxRounds : PendingVotes V H S) ⟨[], 0⟩ where
  width := rfl
  round := rfl
  filed _ _ found := by cases found
  signed _ _ _ held := by cases held
  votes := List.Perm.refl _

/-- The votes for a block are the votes of its bucket. -/
theorem Logged.cast (logged : Logged maxRounds pending log) (round : U64) (blockId : H) :
    (((pending.votes.lookup (round, blockId)).getD ∅).values).Perm (log.cast round blockId) :=
  (HashMap.contents_filter logged.filed (round, blockId)).symm.trans (logged.votes.filter _)

theorem Logged.votesFor (logged : Logged maxRounds pending log) (order : Order V) (round : U64) (blockId : H) :
    (pending.getVotes order round blockId).Perm (log.cast round blockId) := by
  have cast := logged.cast round blockId
  simp only [getVotes]
  cases found : pending.votes.lookup (round, blockId) with
  | none =>
    rw [found] at cast
    exact cast
  | some bucket =>
    rw [found] at cast
    exact (order.perm bucket.values).trans cast

theorem Logged.count (logged : Logged maxRounds pending log) (round : U64) (blockId : H) :
    pending.voteCount round blockId = (log.cast round blockId).length := by
  have cast := (logged.cast round blockId).length_eq
  rw [← cast]
  simp only [voteCount]
  cases pending.votes.lookup (round, blockId) with
  | none => rfl
  | some bucket => exact (List.length_map ..).symm

theorem Logged.power (logged : Logged maxRounds pending log) (round : U64) (blockId : H) (verifier : ValidatorVerifier B V N S A) :
    pending.aggregatedVotingPower round blockId verifier =
      (((log.cast round blockId).filterMap fun vote => verifier.getVotingPower (Vote.author vote)).map Fin.val).sum := by
  have cast := (((logged.cast round blockId).filterMap fun vote => verifier.getVotingPower (Vote.author vote)).map Fin.val).sum_eq
  rw [← cast]
  simp only [aggregatedVotingPower]
  cases pending.votes.lookup (round, blockId) with
  | none => rfl
  | some bucket => rfl

theorem Logged.total (logged : Logged maxRounds pending log) : pending.totalVotes = log.votes.length := by
  rw [← logged.votes.length_eq, HashMap.length_contents]
  rfl

theorem Logged.mem_iff (logged : Logged maxRounds pending log) {vote : V} :
    vote ∈ log.votes ↔ Holds pending (slot vote) (Vote.signature vote) vote := by
  rw [← logged.votes.mem_iff, HashMap.mem_contents]
  constructor
  · intro stored
    obtain ⟨key, signature, held⟩ := stored
    rw [logged.filed.held held, ← logged.signed key signature vote held]
    exact held
  · intro held
    exact ⟨_, _, held⟩

/-- A vote is a duplicate in the buffer exactly if the log has one like it. -/
theorem Logged.repeats_iff (logged : Logged maxRounds pending log) (vote : V) :
    pending.isDuplicate (slot vote) vote = true ↔ log.Repeats vote := by
  rw [isDuplicate_iff]
  constructor
  · intro stored
    obtain ⟨held, found⟩ := stored
    have placed := logged.filed.held found
    have same := logged.signed _ _ _ found
    refine ⟨held, logged.mem_iff.mpr ?_, placed, same.symm⟩
    rw [placed, ← same]
    exact found
  · intro stored
    obtain ⟨held, member, placed, same⟩ := stored
    refine ⟨held, ?_⟩
    rw [← placed, ← same]
    exact logged.mem_iff.mp member

/-- Dropping whole rounds from the buffer drops them from the log. -/
theorem Logged.retain (logged : Logged maxRounds pending log) (keep : U64 → Bool) (round : U64) :
    Logged maxRounds ⟨pending.votes.retain fun key => keep key.1, round, pending.maxRounds⟩
      ⟨log.votes.filter fun vote => keep (Vote.round vote), round⟩ where
  width := logged.width
  round := rfl
  filed := logged.filed.retain _
  signed key signature vote held := by
    refine logged.signed key signature vote ?_
    change (pending.votes.retain fun key => keep key.1).entry key signature = some vote at held
    rw [HashMap.entry_retain] at held
    split at held
    · exact held
    · cases held
  votes := by
    rw [HashMap.contents_retain logged.filed]
    exact logged.votes.filter _

theorem Logged.store (logged : Logged maxRounds pending log) {vote : V} (unseen : pending.isDuplicate (slot vote) vote = false) :
    Logged maxRounds (pending.store (slot vote) vote) { log with votes := log.votes ++ [vote] } where
  width := logged.width
  round := logged.round
  filed := logged.filed.put _ _
  signed key signature held found := by
    obtain ⟨_, rfl, rfl⟩ | ⟨_, before⟩ := holds_store.mp found
    · rfl
    · exact logged.signed key signature held before
  votes := by
    have absent : pending.votes.entry (slot vote) (Vote.signature vote) = none := by
      rw [Option.eq_none_iff_forall_ne_some]
      intro held found
      have seen := isDuplicate_iff.mpr ⟨held, found⟩
      rw [unseen] at seen
      cases seen
    refine (HashMap.contents_put absent vote).trans ?_
    exact ((logged.votes.cons vote)).trans (List.perm_append_singleton vote log.votes).symm

variable [DecidableEq N]

/-- What one call does to the buffer it does to the log, and the answer to a vote can be
read off the log. -/
theorem Logged.addVote (logged : Logged maxRounds pending log) (order : Iteration V N S) (vote : V)
    (verifier : ValidatorVerifier B V N S A) :
    ((pending.addVote order vote verifier).1 = .oldRound ↔ Vote.round vote < log.currentRound) ∧
    ((pending.addVote order vote verifier).1 = .rejected .rejected ↔ log.currentRound ≤ Vote.round vote ∧ log.Repeats vote) ∧
    Logged maxRounds (pending.addVote order vote verifier).2 (log.take vote) := by
  have taken : log.take vote =
      if Vote.round vote < pending.currentRound ∨ pending.isDuplicate (slot vote) vote = true then log
      else { log with votes := log.votes ++ [vote] } := by
    simp only [Log.take, logged.round, logged.repeats_iff]
  rw [← logged.round, ← logged.repeats_iff, taken]
  by_cases old : Vote.round vote < pending.currentRound
  · have answer : pending.addVote order vote verifier = (.oldRound, pending) := by
      simp only [AptosBft.PendingVotes.addVote, old, if_true]
    rw [answer, if_pos (Or.inl old)]
    refine ⟨iff_of_true rfl old, iff_of_false (by simp) ?_, logged⟩
    intro both
    exact absurd old (not_lt.mpr both.1)
  · obtain ⟨early, _⟩ | ⟨seen, answer⟩ | ⟨_, unseen, result, kind, answer⟩ := addVote_cases order pending vote verifier
    · exact absurd early old
    · change pending.isDuplicate (slot vote) vote = true at seen
      rw [answer, if_pos (Or.inr seen)]
      exact ⟨iff_of_false (by simp) old, iff_of_true rfl ⟨not_lt.mp old, seen⟩, logged⟩
    · have fresh : ¬ (Vote.round vote < pending.currentRound ∨ pending.isDuplicate (slot vote) vote = true) := by
        intro either
        obtain early | seen := either
        · exact old early
        · cases unseen.symm.trans seen
      rw [answer, if_neg fresh]
      refine ⟨iff_of_false ?_ old, iff_of_false ?_ fun both => fresh (Or.inr both.2), logged.store unseen⟩
      · obtain rfl | rfl := kind <;> simp
      · obtain rfl | rfl := kind <;> simp

theorem Logged.step (logged : Logged maxRounds pending log) (input : Call B V N S A) :
    Logged maxRounds (call pending input).2 (log.step maxRounds input) := by
  cases input with
  | addVote order vote verifier => exact (logged.addVote order vote verifier).2.2
  | setRound round =>
    have kept := logged.retain (fun other => decide (other ≥ round.saturatingSub pending.maxRounds)) round
    simp only [logged.width] at kept
    simp only [call, setRound, cleanupOldVotes, logged.width]
    exact kept
  | removeRound round =>
    have kept := logged.retain (fun other => decide (other ≠ round)) pending.currentRound
    simp only [Log.step, ← logged.round]
    exact kept

theorem Logged.exec (logged : Logged maxRounds pending log) (calls : List (Call B V N S A)) :
    Logged maxRounds (exec call pending calls) (calls.foldl (Log.step maxRounds) log) := by
  induction calls generalizing pending log with
  | nil => exact logged
  | cons input rest ih => exact ih (logged.step input)

/-- Over every run the buffer is the log: a vote is turned away as old or as a duplicate
exactly if the log says so, and every question about the stored votes is answered from the
votes that were taken and whose round was not dropped since. -/
theorem votes_kept_as_log (maxRounds : U64) (calls : List (Call B V N S A)) :
    let pending : PendingVotes V H S := exec call (.new maxRounds) calls
    let log : Log V := Log.run maxRounds calls
    (∀ (order : Iteration V N S) (vote : V) (verifier : ValidatorVerifier B V N S A),
      ((pending.addVote order vote verifier).1 = .oldRound ↔ Vote.round vote < log.currentRound) ∧
      ((pending.addVote order vote verifier).1 = .rejected .rejected ↔
        log.currentRound ≤ Vote.round vote ∧ log.Repeats vote)) ∧
    (∀ order round blockId, (pending.getVotes order round blockId).Perm (log.cast round blockId)) ∧
    (∀ round blockId, pending.voteCount round blockId = (log.cast round blockId).length) ∧
    (∀ round blockId (verifier : ValidatorVerifier B V N S A), pending.aggregatedVotingPower round blockId verifier =
      (((log.cast round blockId).filterMap fun vote => verifier.getVotingPower (Vote.author vote)).map Fin.val).sum) ∧
    pending.totalVotes = log.votes.length := by
  intro pending log
  have logged : Logged maxRounds pending log := (Logged.new maxRounds).exec calls
  refine ⟨?_, logged.votesFor, logged.count, logged.power, logged.total⟩
  intro order vote verifier
  obtain ⟨old, rejected, _⟩ := logged.addVote order vote verifier
  exact ⟨old, rejected⟩

end AptosBft.Proofs.VoteLog
