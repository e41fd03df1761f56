import Mathlib.Algebra.GroupWithZero.Nat
import Mathlib.Data.List.Count
import Mathlib.Data.List.Rotate

/-! Weighted lists. An entry of weight `n` stands for `n` turns in a row. Taking the turns
one after the other, and starting over at the end, is a walk around a circle. -/

namespace Weighted

variable {α : Type}

/-- The turns of all entries in the order of the list. -/
def turns (entries : List (α × Nat)) : List α := entries.flatMap fun entry => List.replicate entry.2 entry.1

def total (entries : List (α × Nat)) : Nat := (entries.map Prod.snd).sum

@[simp] theorem turns_nil : turns ([] : List (α × Nat)) = [] := rfl
@[simp] theorem turns_cons (item : α) (weight : Nat) (rest : List (α × Nat)) :
    turns ((item, weight) :: rest) = List.replicate weight item ++ turns rest := rfl
@[simp] theorem total_cons (item : α) (weight : Nat) (rest : List (α × Nat)) :
    total ((item, weight) :: rest) = weight + total rest := rfl

@[simp] theorem length_turns (entries : List (α × Nat)) : (turns entries).length = total entries := by
  induction entries with
  | nil => rfl
  | cons entry rest ih =>
    obtain ⟨item, weight⟩ := entry
    rw [turns_cons, List.length_append, List.length_replicate, ih, total_cons]

theorem total_le {entries : List (α × Nat)} {bound : Nat} (each : ∀ entry ∈ entries, entry.2 ≤ bound) :
    total entries ≤ entries.length * bound := by
  induction entries with
  | nil => exact Nat.zero_le _
  | cons entry rest ih =>
    obtain ⟨item, weight⟩ := entry
    have first : weight ≤ bound := each (item, weight) List.mem_cons_self
    have later := ih fun other member => each other (List.mem_cons_of_mem _ member)
    rw [total_cons, List.length_cons, Nat.succ_mul]
    omega

theorem total_append (first rest : List (α × Nat)) : total (first ++ rest) = total first + total rest := by
  rw [total, List.map_append, List.sum_append, total, total]

/-- Who has a turn has a weight. -/
theorem mem_turns {entries : List (α × Nat)} {item : α} :
    item ∈ turns entries ↔ ∃ weight, (item, weight) ∈ entries ∧ 0 < weight := by
  rw [turns, List.mem_flatMap]
  constructor
  · intro taken
    obtain ⟨⟨other, weight⟩, listed, inside⟩ := taken
    obtain ⟨positive, rfl⟩ := List.mem_replicate.mp inside
    exact ⟨weight, listed, Nat.pos_of_ne_zero positive⟩
  · intro weighed
    obtain ⟨weight, listed, positive⟩ := weighed
    exact ⟨(item, weight), listed, List.mem_replicate.mpr ⟨positive.ne', rfl⟩⟩

theorem total_pos_iff {entries : List (α × Nat)} : 0 < total entries ↔ ∃ entry ∈ entries, 0 < entry.2 := by
  rw [← length_turns, List.length_pos_iff_exists_mem]
  constructor
  · intro taken
    obtain ⟨item, inside⟩ := taken
    obtain ⟨weight, listed, positive⟩ := mem_turns.mp inside
    exact ⟨(item, weight), listed, positive⟩
  · intro weighed
    obtain ⟨⟨item, weight⟩, listed, positive⟩ := weighed
    exact ⟨item, mem_turns.mpr ⟨weight, listed, positive⟩⟩

/-- A turn belongs to the first entry, or to the rest after the turns of the first. -/
theorem getElem?_turns_cons (item : α) (weight : Nat) (rest : List (α × Nat)) (turn : Nat) :
    (turns ((item, weight) :: rest))[turn]? = if turn < weight then some item else (turns rest)[turn - weight]? := by
  rw [turns_cons, List.getElem?_append, List.length_replicate]
  split
  next inside => rw [List.getElem?_replicate_of_lt inside]
  next => rfl

/-- The entries with their places in the list, which tells equal items apart. -/
def placed (entries : List (α × Nat)) (first : Nat) : List ((α × Nat) × Nat) :=
  (entries.zipIdx first).map fun entry => ((entry.1.1, entry.2), entry.1.2)

@[simp] theorem placed_cons (item : α) (weight first : Nat) (rest : List (α × Nat)) :
    placed ((item, weight) :: rest) first = ((item, first), weight) :: placed rest (first + 1) := rfl

theorem le_of_mem_turns {entries : List (α × Nat)} {first : Nat} {item : α} {place : Nat}
    (member : (item, place) ∈ turns (placed entries first)) : first ≤ place := by
  induction entries generalizing first with
  | nil => cases member
  | cons entry rest ih =>
    obtain ⟨other, weight⟩ := entry
    rw [placed_cons, turns_cons] at member
    rcases List.mem_append.mp member with here | later
    · cases List.eq_of_mem_replicate here
      exact le_rfl
    · exact Nat.le_of_succ_le (ih later)

/-- An entry has as many turns as it weighs. -/
theorem count_turns [DecidableEq α] {entries : List (α × Nat)} {place : Nat} {entry : α × Nat} (found : entries[place]? = some entry)
    (first : Nat) : (turns (placed entries first)).count (entry.1, first + place) = entry.2 := by
  induction entries generalizing first place with
  | nil => cases found
  | cons head rest ih =>
    obtain ⟨item, weight⟩ := head
    rw [placed_cons, turns_cons, List.count_append]
    cases place with
    | zero =>
      cases found
      have later : (item, first) ∉ turns (placed rest (first + 1)) :=
        fun member => absurd (le_of_mem_turns member) (Nat.not_succ_le_self first)
      rw [Nat.add_zero, List.count_replicate_self, List.count_eq_zero.mpr later, Nat.add_zero]
    | succ place =>
      have other : (entry.1, first + (place + 1)) ∉ List.replicate weight (item, first) := by
        intro member
        have same := congrArg Prod.snd (List.eq_of_mem_replicate member)
        simp at same
      have own := ih found (first + 1)
      rw [Nat.add_right_comm, Nat.add_assoc] at own
      rw [List.count_eq_zero.mpr other, Nat.zero_add, own]

/-- As many consecutive numbers as a list is long walk around it once. -/
theorem map_range'_mod (items : List α) (start : Nat) :
    (List.range' start items.length).map (fun number => items[number % items.length]?) = (items.rotate start).map some := by
  apply List.ext_getElem
  · simp
  · intro place inside within
    have short : place < items.length := by simpa using inside
    have bound : (start + place) % items.length < items.length := Nat.mod_lt _ (Nat.zero_lt_of_lt short)
    rw [List.getElem_map, List.getElem_map, List.getElem_range', List.getElem_rotate, Nat.one_mul,
      List.getElem?_eq_getElem bound]
    simp only [Nat.add_comm start place]

end Weighted
