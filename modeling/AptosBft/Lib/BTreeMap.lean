import Mathlib.Data.List.Sigma
import Mathlib.Order.Bounds.Basic
import Mathlib.Order.Lattice

/-! Ordered maps. Entries are kept in ascending order of their keys, so a traversal
has only one order. -/

namespace Rust

structure BTreeMap (κ ν : Type) [LinearOrder κ] where
  entries : List ((_ : κ) × ν)
  sorted : entries.Pairwise fun left right => left.1 < right.1

namespace BTreeMap
variable {κ ν : Type} [LinearOrder κ]

def empty : BTreeMap κ ν := ⟨[], .nil⟩

def get (map : BTreeMap κ ν) (key : κ) : Option ν := map.entries.dlookup key

def keys (map : BTreeMap κ ν) : List κ := map.entries.map Sigma.fst

def values (map : BTreeMap κ ν) : List ν := map.entries.map Sigma.snd

/-- Replaces the value of a key that is there already. -/
def place (key : κ) (value : ν) : List ((_ : κ) × ν) → List ((_ : κ) × ν)
  | [] => [⟨key, value⟩]
  | entry :: rest =>
    if key < entry.1 then ⟨key, value⟩ :: entry :: rest
    else if key = entry.1 then ⟨key, value⟩ :: rest
    else entry :: place key value rest

theorem mem_place {key : κ} {value : ν} {entries : List ((_ : κ) × ν)} {entry : (_ : κ) × ν}
    (member : entry ∈ place key value entries) : entry = ⟨key, value⟩ ∨ entry ∈ entries := by
  induction entries with
  | nil => exact Or.inl (List.mem_singleton.mp member)
  | cons head rest ih =>
    rw [place] at member
    split at member
    · exact List.mem_cons.mp member
    · split at member
      · exact (List.mem_cons.mp member).imp id (List.mem_cons_of_mem head)
      · obtain rfl | later := List.mem_cons.mp member
        · exact Or.inr List.mem_cons_self
        · exact (ih later).imp id (List.mem_cons_of_mem head)

theorem place_sorted (key : κ) (value : ν) {entries : List ((_ : κ) × ν)}
    (sorted : entries.Pairwise fun left right => left.1 < right.1) :
    (place key value entries).Pairwise fun left right => left.1 < right.1 := by
  induction entries with
  | nil => exact List.pairwise_singleton _ _
  | cons head rest ih =>
    obtain ⟨first, later⟩ := List.pairwise_cons.mp sorted
    rw [place]
    split
    next before =>
      refine List.pairwise_cons.mpr ⟨?_, sorted⟩
      intro entry member
      obtain rfl | inside := List.mem_cons.mp member
      · exact before
      · exact lt_trans before (first entry inside)
    next notBefore =>
      split
      next same =>
        subst same
        exact List.pairwise_cons.mpr ⟨first, later⟩
      next different =>
        refine List.pairwise_cons.mpr ⟨?_, ih later⟩
        intro entry member
        obtain rfl | inside := mem_place member
        · exact lt_of_le_of_ne (not_lt.mp notBefore) (Ne.symm different)
        · exact first entry inside

theorem dlookup_place_self (key : κ) (value : ν) (entries : List ((_ : κ) × ν)) :
    (place key value entries).dlookup key = some value := by
  induction entries with
  | nil => exact List.dlookup_cons_eq _ _ _
  | cons head rest ih =>
    rw [place]
    split
    · exact List.dlookup_cons_eq _ _ _
    · split
      · exact List.dlookup_cons_eq _ _ _
      next different => rw [List.dlookup_cons_ne _ head different, ih]

theorem dlookup_place_of_ne {key other : κ} (different : other ≠ key) (value : ν) (entries : List ((_ : κ) × ν)) :
    (place key value entries).dlookup other = entries.dlookup other := by
  induction entries with
  | nil => exact List.dlookup_cons_ne _ _ different
  | cons head rest ih =>
    rw [place]
    split
    · exact List.dlookup_cons_ne _ _ different
    · split
      next same =>
        rw [List.dlookup_cons_ne _ _ different, List.dlookup_cons_ne _ head (same ▸ different)]
      next =>
        by_cases here : other = head.1
        · obtain ⟨found, stored⟩ := head
          subst here
          rw [List.dlookup_cons_eq, List.dlookup_cons_eq]
        · rw [List.dlookup_cons_ne _ head here, List.dlookup_cons_ne _ head here, ih]

def insert (map : BTreeMap κ ν) (key : κ) (value : ν) : BTreeMap κ ν :=
  ⟨place key value map.entries, place_sorted key value map.sorted⟩

/-- What `split_off` returns: the part from a key on. -/
def splitOff (map : BTreeMap κ ν) (key : κ) : BTreeMap κ ν :=
  ⟨map.entries.filter fun entry => key ≤ entry.1, map.sorted.filter _⟩

theorem nodupKeys (map : BTreeMap κ ν) : map.entries.NodupKeys :=
  List.nodupKeys_iff_pairwise.mpr (map.sorted.imp ne_of_lt)

theorem get_eq_some {map : BTreeMap κ ν} {key : κ} {value : ν} :
    map.get key = some value ↔ ⟨key, value⟩ ∈ map.entries := List.mem_dlookup_iff map.nodupKeys

theorem mem_values {map : BTreeMap κ ν} {value : ν} : value ∈ map.values ↔ ∃ key, map.get key = some value := by
  constructor
  · intro member
    obtain ⟨⟨key, stored⟩, inside, rfl⟩ := List.mem_map.mp member
    exact ⟨key, get_eq_some.mpr inside⟩
  · intro stored
    obtain ⟨key, found⟩ := stored
    exact List.mem_map.mpr ⟨⟨key, value⟩, get_eq_some.mp found, rfl⟩

theorem mem_keys {map : BTreeMap κ ν} {key : κ} : key ∈ map.keys ↔ ∃ value, map.get key = some value := by
  constructor
  · intro member
    obtain ⟨⟨other, stored⟩, inside, rfl⟩ := List.mem_map.mp member
    exact ⟨stored, get_eq_some.mpr inside⟩
  · intro stored
    obtain ⟨value, found⟩ := stored
    exact List.mem_map.mpr ⟨⟨key, value⟩, get_eq_some.mp found, rfl⟩

theorem keys_sorted (map : BTreeMap κ ν) : map.keys.Pairwise (· ≤ ·) :=
  List.pairwise_map.mpr (map.sorted.imp le_of_lt)

/-- The first key is the least one. -/
theorem isLeast_head {map : BTreeMap κ ν} {key : κ} (first : map.keys.head? = some key) : IsLeast {key | key ∈ map.keys} key := by
  obtain ⟨rest, whole⟩ := List.head?_eq_some_iff.mp first
  have sorted := map.keys_sorted
  rw [whole] at sorted
  refine ⟨List.mem_of_head? first, ?_⟩
  intro other member
  change other ∈ map.keys at member
  rw [whole] at member
  obtain rfl | later := List.mem_cons.mp member
  · exact le_rfl
  · exact (List.pairwise_cons.mp sorted).1 other later

/-- The last key is the greatest one. -/
theorem isGreatest_getLast {map : BTreeMap κ ν} {key : κ} (last : map.keys.getLast? = some key) :
    IsGreatest {key | key ∈ map.keys} key := by
  obtain ⟨earlier, whole⟩ := List.getLast?_eq_some_iff.mp last
  have sorted := map.keys_sorted
  rw [whole] at sorted
  refine ⟨List.mem_of_getLast? last, ?_⟩
  intro other member
  change other ∈ map.keys at member
  rw [whole] at member
  obtain before | here := List.mem_append.mp member
  · exact (List.pairwise_append.mp sorted).2.2 other before key List.mem_cons_self
  · exact le_of_eq (List.mem_singleton.mp here)

/-- What holds of the values of any two keys in order holds along the values. -/
theorem pairwise_values {map : BTreeMap κ ν} {related : ν → ν → Prop}
    (ordered : ∀ low high first second, low < high → map.get low = some first → map.get high = some second →
      related first second) : map.values.Pairwise related := by
  rw [values, List.pairwise_map]
  refine map.sorted.imp_of_mem ?_
  intro left right inside member before
  exact ordered left.1 right.1 left.2 right.2 before (get_eq_some.mpr inside) (get_eq_some.mpr member)

@[simp] theorem get_empty (key : κ) : (empty : BTreeMap κ ν).get key = none := rfl

@[simp] theorem get_insert_self (map : BTreeMap κ ν) (key : κ) (value : ν) : (map.insert key value).get key = some value :=
  dlookup_place_self key value map.entries

theorem get_insert_of_ne (map : BTreeMap κ ν) {key other : κ} (different : other ≠ key) (value : ν) :
    (map.insert key value).get other = map.get other := dlookup_place_of_ne different value map.entries

theorem mem_keys_insert {map : BTreeMap κ ν} {key other : κ} {value : ν} :
    other ∈ (map.insert key value).keys ↔ other = key ∨ other ∈ map.keys := by
  rw [mem_keys, mem_keys]
  by_cases same : other = key
  · subst same
    rw [get_insert_self]
    exact iff_of_true ⟨value, rfl⟩ (Or.inl rfl)
  · rw [get_insert_of_ne map same, or_iff_right same]

/-- A map is what its keys are mapped to. -/
theorem ext_get {map other : BTreeMap κ ν} (same : ∀ key, map.get key = other.get key) : map = other := by
  have perm : map.entries.Perm other.entries := by
    apply List.lookup_ext map.nodupKeys other.nodupKeys
    intro key value
    exact iff_of_eq (congrArg (value ∈ ·) (same key))
  have entries : map.entries = other.entries := by
    apply perm.eq_of_pairwise _ map.sorted other.sorted
    intro left right _ _ before after
    exact absurd before (lt_asymm after)
  cases map
  cases other
  cases entries
  rfl

/-- Two maps that give one key the same value and agree on all others. -/
theorem get_insert (map : BTreeMap κ ν) (key other : κ) (value : ν) :
    (map.insert key value).get other = if other = key then some value else map.get other := by
  split
  next same =>
    subst same
    exact get_insert_self map other value
  next different => exact get_insert_of_ne map different value

theorem get_splitOff (map : BTreeMap κ ν) (bound key : κ) :
    (map.splitOff bound).get key = if key < bound then none else map.get key := by
  apply Option.ext
  intro value
  rw [get_eq_some, splitOff, List.mem_filter, decide_eq_true_iff, ← get_eq_some]
  split
  next below => simp only [not_le.mpr below, and_false, reduceCtorEq]
  next above => simp only [not_lt.mp above, and_true]

theorem mem_keys_splitOff {map : BTreeMap κ ν} {bound key : κ} : key ∈ (map.splitOff bound).keys ↔ bound ≤ key ∧ key ∈ map.keys := by
  rw [mem_keys, mem_keys, get_splitOff]
  split
  next below => simp [not_le.mpr below]
  next above => simp [not_lt.mp above]

end BTreeMap
end Rust
