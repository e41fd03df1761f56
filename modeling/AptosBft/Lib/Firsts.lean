import Mathlib.Algebra.BigOperators.Group.Finset.Basic
import Mathlib.Algebra.Order.BigOperators.Group.Finset
import Mathlib.Algebra.GroupWithZero.Nat
import Mathlib.Algebra.Order.Group.Nat

/-! Lists of keyed entries in which the first entry of a key counts and later ones do not. -/

namespace Firsts
open Finset

variable {α κ : Type} [DecidableEq κ] (key : α → κ)

def first (entries : List α) (wanted : κ) : Option α := entries.find? fun entry => key entry = wanted

def keys (entries : List α) : Finset κ := (entries.map key).toFinset

/-- The weights of the first entries. -/
def total (weight : α → Nat) (entries : List α) : Nat := ∑ wanted ∈ keys key entries, ((first key entries wanted).map weight).getD 0

/-- Entries of one key are all the same. -/
def Consistent (entries : List α) : Prop := ∀ left ∈ entries, ∀ right ∈ entries, key left = key right → left = right

variable {key} {weight : α → Nat} {entries others : List α} {entry : α} {wanted : κ}

@[simp] theorem keys_nil : keys key [] = ∅ := rfl

theorem mem_keys : wanted ∈ keys key entries ↔ ∃ entry ∈ entries, key entry = wanted := by
  rw [keys, List.mem_toFinset, List.mem_map]

theorem first_spec (found : first key entries wanted = some entry) : entry ∈ entries ∧ key entry = wanted := by
  have matched : decide (key entry = wanted) = true := List.find?_some (p := fun entry => decide (key entry = wanted)) found
  exact ⟨List.mem_of_find?_eq_some found, of_decide_eq_true matched⟩

theorem first_isSome : (first key entries wanted).isSome ↔ wanted ∈ keys key entries := by
  rw [first, List.find?_isSome, mem_keys]
  simp only [decide_eq_true_eq]

theorem first_eq_none (absent : wanted ∉ keys key entries) : first key entries wanted = none := by
  rw [← Option.not_isSome_iff_eq_none, first_isSome]
  exact absent

theorem first_snoc : first key (entries ++ [entry]) wanted =
    (first key entries wanted).or (if key entry = wanted then some entry else none) := by
  rw [first, List.find?_append, List.find?_singleton]
  simp only [decide_eq_true_eq]
  rfl

theorem keys_snoc : keys key (entries ++ [entry]) = insert (key entry) (keys key entries) := by
  ext wanted
  rw [mem_insert, mem_keys, mem_keys]
  simp only [List.mem_append, List.mem_singleton, or_and_right, exists_or, exists_eq_left]
  rw [or_comm, eq_comm]

section Old
variable (old : key entry ∈ keys key entries)
include old

theorem first_snoc_old (wanted : κ) : first key (entries ++ [entry]) wanted = first key entries wanted := by
  rw [first_snoc]
  split
  next same =>
    subst same
    obtain ⟨found, held⟩ := Option.isSome_iff_exists.mp (first_isSome.mpr old)
    rw [held, Option.some_or]
  next => rw [Option.or_none]

theorem keys_snoc_old : keys key (entries ++ [entry]) = keys key entries := by
  rw [keys_snoc, insert_eq_of_mem old]

theorem total_snoc_old : total key weight (entries ++ [entry]) = total key weight entries := by
  simp only [total, keys_snoc_old old, first_snoc_old old]

end Old

section New
variable (fresh : key entry ∉ keys key entries)
include fresh

theorem first_snoc_new (wanted : κ) :
    first key (entries ++ [entry]) wanted = if wanted = key entry then some entry else first key entries wanted := by
  rw [first_snoc]
  by_cases same : key entry = wanted
  · subst same
    rw [if_pos rfl, if_pos rfl, first_eq_none fresh, Option.none_or]
  · rw [if_neg same, if_neg (Ne.symm same), Option.or_none]

theorem card_keys_snoc_new : (keys key (entries ++ [entry])).card = (keys key entries).card + 1 := by
  rw [keys_snoc, card_insert_of_notMem fresh]

theorem total_snoc_new : total key weight (entries ++ [entry]) = total key weight entries + weight entry := by
  have others : ∀ wanted ∈ keys key entries, ((first key (entries ++ [entry]) wanted).map weight).getD 0 =
      ((first key entries wanted).map weight).getD 0 := by
    intro wanted member
    rw [first_snoc_new fresh, if_neg (ne_of_mem_of_not_mem member fresh)]
  rw [total, keys_snoc, sum_insert fresh, sum_congr rfl others, first_snoc_new fresh, if_pos rfl, Nat.add_comm]
  rfl

end New

theorem total_le {bound : Nat} (each : ∀ entry, weight entry ≤ bound) : total key weight entries ≤ (keys key entries).card * bound := by
  refine sum_le_card_nsmul _ _ bound ?_
  intro wanted _
  cases first key entries wanted with
  | none => exact Nat.zero_le bound
  | some entry => exact each entry

/-- Without conflicting entries it does not matter which one came first. -/
theorem Consistent.first_eq_some (consistent : Consistent key entries) :
    first key entries wanted = some entry ↔ entry ∈ entries ∧ key entry = wanted := by
  constructor
  · exact first_spec
  · intro held
    obtain ⟨member, rfl⟩ := held
    have listed : key entry ∈ keys key entries := mem_keys.mpr ⟨entry, member, rfl⟩
    obtain ⟨other, found⟩ := Option.isSome_iff_exists.mp (first_isSome.mpr listed)
    obtain ⟨inside, same⟩ := first_spec found
    rw [found, consistent other inside entry member same]

omit [DecidableEq κ] in
theorem Consistent.congr (consistent : Consistent key entries) (same : ∀ entry, entry ∈ entries ↔ entry ∈ others) :
    Consistent key others := by
  intro left inside right member
  exact consistent left ((same left).mpr inside) right ((same right).mpr member)

theorem first_congr (consistent : Consistent key entries) (same : ∀ entry, entry ∈ entries ↔ entry ∈ others) (wanted : κ) :
    first key entries wanted = first key others wanted := by
  apply Option.ext
  intro entry
  rw [consistent.first_eq_some, (consistent.congr same).first_eq_some, same]

theorem keys_congr (same : ∀ entry, entry ∈ entries ↔ entry ∈ others) : keys key entries = keys key others := by
  ext wanted
  simp only [mem_keys, same]

theorem total_congr (consistent : Consistent key entries) (same : ∀ entry, entry ∈ entries ↔ entry ∈ others) :
    total key weight entries = total key weight others := by
  simp only [total, keys_congr same, first_congr consistent same]

end Firsts
