import AptosBft.Lib.Consecutive
import AptosBft.Testing

/-! What `verify_sequential` accepts. The successor of a round is unchecked, so the list of an
untrusted peer may run over the last round. -/

namespace AptosBft.Proofs.SyncSequence
open Rust

variable {B H : Type} [Block B H]

def rounds (response : SyncResponse B) : List U64 := response.blocks.map Block.round

/-- The rounds count up to the last one and there are more. In a release build this goes
unnoticed if they go on from 0. -/
def Overruns (profile : Profile) (words : List U64) : Prop :=
  ∃ first rest, words = first ++ rest ∧ rest ≠ [] ∧ Consecutive first ∧ first.getLast? = some u64Max ∧
    (profile = .release → WrapsFrom 0 rest)

/-- `verify_sequential` says what its name says, and the rounds at the ends are the bounds. -/
structure Exact (profile : Profile) (response : SyncResponse B) : Prop where
  returns : ∀ reason, response.verifySequential profile ≠ .error (.panic reason)
  accepts : response.verifySequential profile = .ok () ↔ Consecutive (rounds response)
  lowest : response.verifySequential profile = .ok () → response.lowestRound = (rounds response).min?
  highest : response.verifySequential profile = .ok () → response.highestRound = (rounds response).max?
  length : response.verifySequential profile = .ok () → ∀ low ∈ response.lowestRound, ∀ high ∈ response.highestRound,
    response.len = high.val - low.val + 1

section Windows
variable {profile : Profile} {first second : B} {rest blocks : List B}

theorem overruns_cons_cons {word next : U64} {words : List U64} :
    Overruns profile (word :: next :: words) ↔
      (word = u64Max ∧ (profile = .release → WrapsFrom 0 (next :: words))) ∨
      (next.val = word.val + 1 ∧ Overruns profile (next :: words)) := by
  constructor
  · intro runs
    obtain ⟨counted, remaining, whole, more, consecutive, ending, wraps⟩ := runs
    -- The last round is the first word already, or the first two words follow each other.
    cases counted with
    | nil => cases ending
    | cons head counted =>
      cases counted with
      | nil =>
        cases ending
        obtain ⟨last, rfl⟩ := List.cons.inj whole
        exact Or.inl ⟨last, wraps⟩
      | cons neighbour counted =>
        obtain ⟨rfl, tail⟩ := List.cons.inj whole
        obtain ⟨rfl, _⟩ := List.cons.inj tail
        obtain ⟨follows, later⟩ := consecutive_cons_cons.mp consecutive
        rw [List.getLast?_cons_cons] at ending
        exact Or.inr ⟨follows, next :: counted, remaining, tail, more, later, ending, wraps⟩
  · intro either
    obtain ⟨rfl, wraps⟩ | ⟨follows, counted, remaining, whole, more, consecutive, ending, wraps⟩ := either
    · exact ⟨[u64Max], next :: words, rfl, List.cons_ne_nil _ _, consecutive_singleton _, rfl, wraps⟩
    · cases counted with
      | nil => cases ending
      | cons head counted =>
        obtain ⟨rfl, _⟩ := List.cons.inj whole
        refine ⟨word :: next :: counted, remaining, congrArg (word :: ·) whole, more, ?_, ?_, wraps⟩
        · exact consecutive_cons_cons.mpr ⟨follows, consecutive⟩
        · rwa [List.getLast?_cons_cons]

theorem not_overruns_short {words : List U64} (short : words.length ≤ 1) : ¬ Overruns profile words := by
  intro runs
  obtain ⟨counted, remaining, rfl, more, _, ending, _⟩ := runs
  cases counted with
  | nil => cases ending
  | cons head counted =>
    have some := List.length_pos_iff.mpr more
    rw [List.length_append, List.length_cons] at short
    omega

theorem verifyWindows_release_cons : verifyWindows .release (first :: second :: rest) =
    if Block.round second = Block.round first + 1 then verifyWindows .release (second :: rest)
    else .error (.err ⟨s!"Blocks not sequential: round {Block.round first} followed by round {Block.round second}"⟩) := by
  simp only [verifyWindows, U64.plus_release]

theorem verifyWindows_release_iff :
    verifyWindows .release (first :: rest) = .ok () ↔ WrapsFrom (Block.round first).val ((first :: rest).map Block.round) := by
  induction rest generalizing first with
  | nil =>
    refine iff_of_true rfl ?_
    rw [List.map_cons, wrapsFrom_cons]
    exact ⟨(Nat.mod_eq_of_lt (Block.round first).isLt).symm, by simp [WrapsFrom]⟩
  | cons second rest ih =>
    have following : Block.round second = Block.round first + 1 ↔
        (Block.round second).val = ((Block.round first).val + 1) % 18446744073709551616 := Fin.ext_iff
    rw [verifyWindows_release_cons, List.map_cons, wrapsFrom_cons, Nat.mod_eq_of_lt (Block.round first).isLt]
    by_cases follows : Block.round second = Block.round first + 1
    · rw [if_pos follows, ih, following.mp follows, wrapsFrom_mod]
      exact (and_iff_right rfl).symm
    · rw [if_neg follows]
      refine iff_of_false (by simp) ?_
      intro wraps
      exact follows (following.mpr (wrapsFrom_cons.mp wraps.2).1)

theorem verifyWindows_release_returns (blocks : List B) (reason : Panic) : verifyWindows .release blocks ≠ .error (.panic reason) := by
  induction blocks with
  | nil => simp [verifyWindows]
  | cons first rest ih =>
    cases rest with
    | nil => simp [verifyWindows]
    | cons second rest =>
      rw [verifyWindows_release_cons]
      split
      · exact ih
      · simp

theorem not_successor_max {word next : U64} (last : word = u64Max) (counted : next.val = word.val + 1) : False := by
  have below := U64.lt_max_of_successor counted
  rw [last] at below
  exact lt_irrefl _ below

/-- Rounds that do not run over are accepted exactly if they are consecutive. -/
theorem verifyWindows_exact (inside : ¬ Overruns profile (blocks.map Block.round)) :
    (∀ reason, verifyWindows profile blocks ≠ .error (.panic reason)) ∧
    (verifyWindows profile blocks = .ok () ↔ Consecutive (blocks.map Block.round)) := by
  induction blocks with
  | nil => exact ⟨by simp [verifyWindows], iff_of_true rfl ⟨0, countsFrom_nil 0⟩⟩
  | cons first rest ih =>
    cases rest with
    | nil => exact ⟨by simp [verifyWindows], iff_of_true rfl (consecutive_singleton _)⟩
    | cons second rest =>
      rw [List.map_cons, List.map_cons, overruns_cons_cons, not_or] at inside
      rw [List.map_cons, List.map_cons, consecutive_cons_cons]
      obtain ⟨next, sum, following⟩ | ⟨last, ⟨rfl, _⟩ | ⟨rfl, _⟩⟩ := U64.plus_one_cases profile (Block.round first)
      · simp only [verifyWindows, sum]
        by_cases follows : Block.round second = next
        · have counted : (Block.round second).val = (Block.round first).val + 1 := by rw [follows, following]
          rw [if_pos follows, and_iff_right counted]
          exact ih fun runs => inside.2 ⟨counted, runs⟩
        · rw [if_neg follows]
          refine ⟨by simp, iff_of_false (by simp) ?_⟩
          intro counted
          exact follows (Fin.ext (counted.1.trans following.symm))
      · exact absurd ⟨last, by simp⟩ inside.1
      · refine ⟨verifyWindows_release_returns _, iff_of_false ?_ ?_⟩
        · rw [verifyWindows_release_iff, List.map_cons, wrapsFrom_cons]
          intro wraps
          apply inside.1
          refine ⟨last, fun _ => ?_⟩
          rw [last] at wraps
          exact wrapsFrom_mod.mpr wraps.2
        · intro counted
          exact not_successor_max last counted.1

/-- A development build stops at the last round, a release build goes on. -/
theorem verifyWindows_overruns (runs : Overruns profile (blocks.map Block.round)) :
    (profile = .dev ∧ verifyWindows profile blocks = .error (.panic .overflow)) ∨
    profile = .release ∧ verifyWindows profile blocks = .ok () ∧ ¬ Consecutive (blocks.map Block.round) := by
  induction blocks with
  | nil => exact absurd runs (not_overruns_short (Nat.zero_le 1))
  | cons first rest ih =>
    cases rest with
    | nil => exact absurd runs (not_overruns_short le_rfl)
    | cons second rest =>
      rw [List.map_cons, List.map_cons, overruns_cons_cons] at runs
      rw [List.map_cons, List.map_cons, consecutive_cons_cons]
      obtain ⟨last, wraps⟩ | ⟨counted, further⟩ := runs
      · cases profile with
        | dev =>
          have overflow : U64.plus .dev u64Max 1 = .error .overflow := by decide
          rw [← last] at overflow
          exact Or.inl ⟨rfl, by simp only [verifyWindows, overflow]⟩
        | release =>
          refine Or.inr ⟨rfl, ?_, fun counted => not_successor_max last counted.1⟩
          rw [verifyWindows_release_iff, List.map_cons, wrapsFrom_cons, last]
          exact ⟨rfl, wrapsFrom_mod.mp (wraps rfl)⟩
      · obtain ⟨next, sum, following⟩ := U64.plus_one_of_lt profile (U64.lt_max_of_successor counted)
        have follows : Block.round second = next := Fin.ext (counted.trans following.symm)
        simp only [verifyWindows, sum]
        rw [if_pos follows, and_iff_right counted]
        exact ih further

/-- A development build accepts consecutive rounds only. -/
theorem consecutive_of_verified (verified : verifyWindows .dev blocks = .ok ()) : Consecutive (blocks.map Block.round) := by
  by_cases runs : Overruns .dev (blocks.map Block.round)
  · obtain ⟨_, panics⟩ | ⟨impossible, _⟩ := verifyWindows_overruns runs
    · cases verified.symm.trans panics
    · cases impossible
  · exact (verifyWindows_exact runs).2.mp verified

theorem bounds_of_consecutive {response : SyncResponse B} (consecutive : Consecutive (rounds response)) :
    response.lowestRound = (rounds response).min? ∧ response.highestRound = (rounds response).max? ∧
    ∀ low ∈ response.lowestRound, ∀ high ∈ response.highestRound, response.len = high.val - low.val + 1 := by
  have lowest : response.lowestRound = (rounds response).head? := List.head?_map.symm
  have highest : response.highestRound = (rounds response).getLast? := List.getLast?_map.symm
  refine ⟨lowest.trans consecutive.head?_eq_min?, highest.trans consecutive.getLast?_eq_max?, ?_⟩
  intro low first high last
  obtain ⟨start, counts⟩ := consecutive
  have bottom := counts.head (lowest.symm.trans first)
  have top := counts.last (highest.symm.trans last)
  have size : (rounds response).length = response.len := List.length_map ..
  have inside := (counts.mem (List.mem_of_head? (lowest.symm.trans first))).2
  omega

end Windows

/-- `verify_sequential` is exact for every response whose rounds do not run over the last one. -/
theorem verify_sequential_exact_iff (profile : Profile) (response : SyncResponse B) :
    Exact profile response ↔ ¬ Overruns profile (rounds response) := by
  constructor
  · intro exactly runs
    obtain ⟨_, panics⟩ | ⟨_, verified, broken⟩ := verifyWindows_overruns runs
    · exact exactly.returns _ panics
    · exact broken (exactly.accepts.mp verified)
  · intro inside
    obtain ⟨returns, accepts⟩ := verifyWindows_exact inside
    exact {
      returns := returns
      accepts := accepts
      lowest := fun verified => (bounds_of_consecutive (accepts.mp verified)).1
      highest := fun verified => (bounds_of_consecutive (accepts.mp verified)).2.1
      length := fun verified => (bounds_of_consecutive (accepts.mp verified)).2.2 }

/-- The first round after the last one: a development build panics, a release build takes
the two for consecutive. -/
theorem last_round_then_first :
    let response : SyncResponse MockBlock := ⟨[makeBlock u64Max 1 1 ⟨0⟩, makeBlock 0 1 1 ⟨0⟩], 1, true⟩
    response.verifySequential .dev = .error (.panic .overflow) ∧ response.verifySequential .release = .ok () ∧
    ¬ Consecutive (rounds response) ∧ ¬ Exact .dev response ∧ ¬ Exact .release response := by
  intro response
  have panics : response.verifySequential .dev = .error (.panic .overflow) := by decide
  have verified : response.verifySequential .release = .ok () := by decide
  have broken : ¬ Consecutive (rounds response) := by
    intro consecutive
    exact not_successor_max rfl (consecutive_cons_cons.mp consecutive).1
  exact ⟨panics, verified, broken, fun exactly => exactly.returns _ panics, fun exactly => broken (exactly.accepts.mp verified)⟩

end AptosBft.Proofs.SyncSequence
