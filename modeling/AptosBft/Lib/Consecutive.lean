import AptosBft.Lib.Rust
import Mathlib.Data.List.MinMax

/-! Lists of words that count up by one, as natural numbers or around the end of the word. -/

namespace Rust

/-- The words are `start`, `start + 1` and so on, and none of them wraps. -/
def CountsFrom (start : Nat) (words : List U64) : Prop := words.map Fin.val = List.range' start words.length

def Consecutive (words : List U64) : Prop := ∃ start, CountsFrom start words

/-- The words count up from `start`, and go on at 0 after the last word. -/
def WrapsFrom (start : Nat) (words : List U64) : Prop :=
  ∀ place word, words[place]? = some word → word.val = (start + place) % 18446744073709551616

variable {start : Nat} {first second : U64} {rest words : List U64}

theorem countsFrom_nil (start : Nat) : CountsFrom start [] := rfl

theorem countsFrom_cons : CountsFrom start (first :: rest) ↔ first.val = start ∧ CountsFrom (start + 1) rest := by
  rw [CountsFrom, List.map_cons, List.length_cons, List.range'_succ, List.cons.injEq]
  rfl

theorem consecutive_singleton (word : U64) : Consecutive [word] := ⟨word.val, rfl⟩

theorem consecutive_cons_cons :
    Consecutive (first :: second :: rest) ↔ second.val = first.val + 1 ∧ Consecutive (second :: rest) := by
  constructor
  · intro counted
    obtain ⟨start, counts⟩ := counted
    obtain ⟨rfl, later⟩ := countsFrom_cons.mp counts
    exact ⟨(countsFrom_cons.mp later).1, _, later⟩
  · intro both
    obtain ⟨follows, start, counts⟩ := both
    obtain ⟨rfl, later⟩ := countsFrom_cons.mp counts
    refine ⟨first.val, countsFrom_cons.mpr ⟨rfl, countsFrom_cons.mpr ⟨follows, ?_⟩⟩⟩
    rwa [← follows]

theorem CountsFrom.mem (counts : CountsFrom start words) {word : U64} (member : word ∈ words) :
    start ≤ word.val ∧ word.val < start + words.length := by
  have inside := List.mem_map_of_mem (f := Fin.val) member
  rw [counts] at inside
  exact List.mem_range'_1.mp inside

theorem CountsFrom.head (counts : CountsFrom start words) {low : U64} (found : words.head? = some low) : low.val = start := by
  cases words with
  | nil => cases found
  | cons word rest =>
    cases found
    exact (countsFrom_cons.mp counts).1

theorem CountsFrom.last (counts : CountsFrom start words) {high : U64} (found : words.getLast? = some high) :
    high.val + 1 = start + words.length := by
  have ending := congrArg List.getLast? counts
  rw [List.getLast?_map, found, List.getLast?_range'] at ending
  split at ending
  · cases ending
  next nonempty =>
    have same : high.val = start + words.length - 1 := Option.some.inj ending
    omega

/-- The first word is the least, the last one the greatest. -/
theorem Consecutive.head?_eq_min? (consecutive : Consecutive words) : words.head? = words.min? := by
  obtain ⟨start, counts⟩ := consecutive
  cases found : words.head? with
  | none => rw [List.head?_eq_none_iff.mp found, List.min?_nil]
  | some low =>
    symm
    rw [List.min?_eq_some_iff]
    refine ⟨List.mem_of_head? found, ?_⟩
    intro word member
    rw [Fin.le_def, counts.head found]
    exact (counts.mem member).1

theorem Consecutive.getLast?_eq_max? (consecutive : Consecutive words) : words.getLast? = words.max? := by
  obtain ⟨start, counts⟩ := consecutive
  cases found : words.getLast? with
  | none => rw [List.getLast?_eq_none_iff.mp found, List.max?_nil]
  | some high =>
    symm
    rw [List.max?_eq_some_iff]
    refine ⟨List.mem_of_getLast? found, ?_⟩
    intro word member
    have bound := (counts.mem member).2
    have ending := counts.last found
    rw [Fin.le_def]
    omega

theorem wrapsFrom_cons : WrapsFrom start (first :: rest) ↔
    first.val = start % 18446744073709551616 ∧ WrapsFrom (start + 1) rest := by
  constructor
  · intro wraps
    refine ⟨wraps 0 first rfl, ?_⟩
    intro place word found
    rw [Nat.add_right_comm]
    exact wraps (place + 1) word found
  · intro both place word found
    obtain ⟨here, later⟩ := both
    cases place with
    | zero =>
      cases found
      exact here
    | succ place =>
      have there := later place word found
      rwa [Nat.add_right_comm] at there

theorem wrapsFrom_mod : WrapsFrom (start % 18446744073709551616) words ↔ WrapsFrom start words := by
  simp only [WrapsFrom, Nat.mod_add_mod]

/-- The words of a range of numbers. -/
def wordsFrom (start count : Nat) : List U64 := (List.range' start count).map (Fin.ofNat 18446744073709551616)

theorem wordsFrom_append (start first more : Nat) :
    wordsFrom start first ++ wordsFrom (start + first) more = wordsFrom start (first + more) := by
  rw [wordsFrom, wordsFrom, wordsFrom, ← List.map_append, List.range'_append_1]

@[simp] theorem length_wordsFrom (start count : Nat) : (wordsFrom start count).length = count := by
  rw [wordsFrom, List.length_map, List.length_range']

theorem countsFrom_wordsFrom {count : Nat} (fits : start + count ≤ 18446744073709551616) :
    CountsFrom start (wordsFrom start count) := by
  rw [CountsFrom, length_wordsFrom, wordsFrom, List.map_map]
  conv_rhs => rw [← List.map_id (List.range' start count)]
  apply List.map_congr_left
  intro number member
  have inside := List.mem_range'_1.mp member
  exact Nat.mod_eq_of_lt (inside.2.trans_le fits)

theorem mem_wordsFrom {count : Nat} {word : U64} (fits : start + count ≤ 18446744073709551616) :
    word ∈ wordsFrom start count ↔ start ≤ word.val ∧ word.val < start + count := by
  constructor
  · intro member
    have inside := (countsFrom_wordsFrom fits).mem member
    rwa [length_wordsFrom] at inside
  · intro inside
    exact List.mem_map.mpr ⟨word.val, List.mem_range'_1.mpr inside, Fin.ofNat_val_eq_self word⟩

theorem wordsFrom_cons (word : U64) (count : Nat) : wordsFrom word.val (count + 1) = word :: wordsFrom (word.val + 1) count := by
  rw [wordsFrom, List.range'_succ, List.map_cons, Fin.ofNat_val_eq_self]
  rfl

end Rust
