import Mathlib.Algebra.Order.BigOperators.Group.List
import Mathlib.Algebra.GroupWithZero.Nat
import Mathlib.Algebra.Order.Group.Nat
import Mathlib.Data.Finmap

/-! Hash maps with an unspecified iteration order. The map itself is Mathlib's
association list with distinct keys. A traversal is arranged by an `Order` that
the caller supplies, so a result for every order covers every hasher state. -/

namespace Rust

/-- One traversal order: an arbitrary rearrangement of what is stored. -/
structure Order (α : Type) where
  arrange : List α → List α
  perm : ∀ items, (arrange items).Perm items

def Order.insertion {α : Type} : Order α := ⟨id, fun _ => .refl _⟩

theorem Order.mem_arrange {α : Type} (order : Order α) {items : List α} {item : α} :
    item ∈ order.arrange items ↔ item ∈ items := (order.perm items).mem_iff

abbrev HashMap (κ ν : Type) := AList (fun _ : κ => ν)

namespace HashMap
variable {κ ν : Type}

def values (map : HashMap κ ν) : List ν := map.entries.map Sigma.snd

def pairs (map : HashMap κ ν) : List (κ × ν) := map.entries.map fun entry => (entry.1, entry.2)

def retain (keep : κ → Bool) (map : HashMap κ ν) : HashMap κ ν :=
  ⟨map.entries.filter fun entry => keep entry.1, map.nodupKeys.sublist List.filter_sublist⟩

def len (map : HashMap κ ν) : Nat := map.entries.length

theorem pairs_fst (map : HashMap κ ν) : map.pairs.map Prod.fst = map.keys := by
  simp only [pairs, AList.keys, List.keys, List.map_map, Function.comp_def]

variable [DecidableEq κ]

theorem mem_values {map : HashMap κ ν} {value : ν} :
    value ∈ map.values ↔ ∃ key, map.lookup key = some value := by
  constructor
  · intro member
    obtain ⟨⟨key, stored⟩, inside, rfl⟩ := List.mem_map.mp member
    exact ⟨key, AList.mem_lookup_iff.mpr inside⟩
  · intro stored
    obtain ⟨key, found⟩ := stored
    exact List.mem_map.mpr ⟨⟨key, value⟩, AList.mem_lookup_iff.mp found, rfl⟩

theorem nodup_map_values {β : Type} {map : HashMap κ ν} {f : ν → β}
    (separate : ∀ left right first second, map.lookup left = some first → map.lookup right = some second →
      f first = f second → left = right) : (map.values.map f).Nodup := by
  rw [values, List.map_map]
  refine List.Nodup.map_on ?_ map.nodupKeys.nodup
  intro left inside right member same
  have first := AList.mem_lookup_iff.mpr inside
  have second := AList.mem_lookup_iff.mpr member
  obtain ⟨key, value⟩ := left
  obtain ⟨other, stored⟩ := right
  obtain rfl := separate key other value stored first second same
  cases first.symm.trans second
  rfl

/-- A tag comes at most once among the values exactly if one key at most has it. -/
theorem count_map_values_le_one {β : Type} [DecidableEq β] {map : HashMap κ ν} {f : ν → β} {tag : β} :
    (map.values.map f).count tag ≤ 1 ↔ ∀ left right first second, map.lookup left = some first →
      map.lookup right = some second → f first = tag → f second = tag → left = right := by
  let tagged := (map.entries.filter fun entry => f entry.2 = tag).map Sigma.fst
  have counted : (map.values.map f).count tag = tagged.length := by
    rw [values, List.map_map, List.count_eq_countP, List.countP_map, List.length_map, ← List.countP_eq_length_filter]
    rfl
  have distinct : tagged.Nodup := map.nodupKeys.sublist List.filter_sublist
  have member : ∀ key, key ∈ tagged ↔ ∃ value, map.lookup key = some value ∧ f value = tag := by
    intro key
    constructor
    · intro inside
      obtain ⟨⟨other, value⟩, kept, rfl⟩ := List.mem_map.mp inside
      obtain ⟨stored, same⟩ := List.mem_filter.mp kept
      exact ⟨value, AList.mem_lookup_iff.mpr stored, decide_eq_true_eq.mp same⟩
    · intro stored
      obtain ⟨value, found, same⟩ := stored
      exact List.mem_map.mpr ⟨⟨key, value⟩, List.mem_filter.mpr ⟨AList.mem_lookup_iff.mp found, decide_eq_true same⟩, rfl⟩
  rw [counted, ← List.toFinset_card_of_nodup distinct, Finset.card_le_one]
  simp only [List.mem_toFinset, member]
  constructor
  · intro same left right first second here there one other
    exact same left ⟨first, here, one⟩ right ⟨second, there, other⟩
  · intro same left here right there
    obtain ⟨first, found, one⟩ := here
    obtain ⟨second, stored, other⟩ := there
    exact same left right first second found stored one other

theorem lookup_retain (keep : κ → Bool) (map : HashMap κ ν) (key : κ) :
    (map.retain keep).lookup key = if keep key then map.lookup key else none := by
  apply Option.ext
  intro value
  have inside : (map.retain keep).lookup key = some value ↔ map.lookup key = some value ∧ keep key := by
    simp only [← Option.mem_def, AList.mem_lookup_iff, retain, List.mem_filter]
  rw [inside]
  split <;> simp_all

theorem len_insert {map : HashMap κ ν} {key : κ} (absent : key ∉ map) (value : ν) :
    len (map.insert key value) = map.len + 1 := by
  rw [len, AList.entries_insert_of_notMem absent, List.length_cons, len]

theorem lookup_of_len_zero {map : HashMap κ ν} (empty : map.len = 0) (key : κ) : map.lookup key = none := by
  have none : map.entries = [] := List.eq_nil_of_length_eq_zero empty
  rw [AList.lookup, none]
  rfl

theorem exists_lookup_of_len_ne_zero {map : HashMap κ ν} (stored : map.len ≠ 0) : ∃ key value, map.lookup key = some value := by
  cases whole : map.entries with
  | nil => exact absurd (congrArg List.length whole) stored
  | cons head rest =>
    refine ⟨head.1, head.2, AList.mem_lookup_iff.mpr ?_⟩
    rw [whole]
    exact List.mem_cons_self

theorem len_erase {map : HashMap κ ν} {key : κ} {value : ν} (held : map.lookup key = some value) :
    len (map.erase key) + 1 = map.len := by
  have present : key ∈ map := AList.lookup_isSome.mp (by rw [held]; rfl)
  obtain ⟨stored, first, rest, _, whole, erased⟩ := List.exists_of_kerase present
  have fewer : len (map.erase key) = (first ++ rest).length := congrArg List.length erased
  rw [fewer, len, whole, List.length_append, List.length_append, List.length_cons, Nat.add_assoc]

section Nested
variable {σ : Type} [DecidableEq σ]

/-- A map of maps read as one map with two keys. -/
def entry (map : HashMap κ (HashMap σ ν)) (outer : κ) (inner : σ) : Option ν :=
  (map.lookup outer).bind fun bucket => bucket.lookup inner

def put (map : HashMap κ (HashMap σ ν)) (outer : κ) (inner : σ) (value : ν) : HashMap κ (HashMap σ ν) :=
  map.insert outer (((map.lookup outer).getD ∅).insert inner value)

theorem entry_put (map : HashMap κ (HashMap σ ν)) (outer here : κ) (inner within : σ) (value : ν) :
    (map.put outer inner value).entry here within = if here = outer ∧ within = inner then some value else map.entry here within := by
  simp only [entry, put]
  by_cases same : here = outer
  · subst same
    rw [AList.lookup_insert, Option.bind_some]
    by_cases own : within = inner
    · subst own
      rw [AList.lookup_insert, if_pos ⟨rfl, rfl⟩]
    · rw [AList.lookup_insert_ne own, if_neg (fun both => own both.2)]
      cases map.lookup here <;> rfl
  · rw [AList.lookup_insert_ne same, if_neg (fun both => same both.1)]

theorem entry_retain (keep : κ → Bool) (map : HashMap κ (HashMap σ ν)) (outer : κ) (inner : σ) :
    (map.retain keep).entry outer inner = if keep outer then map.entry outer inner else none := by
  simp only [entry, lookup_retain]
  split <;> rfl

/-- The number of entries of a map of maps. -/
def count (map : HashMap κ (HashMap σ ν)) : Nat := (map.values.map len).sum

omit [DecidableEq κ] [DecidableEq σ] in
theorem count_le_of_sublist {map other : HashMap κ (HashMap σ ν)} (fewer : map.entries.Sublist other.entries) :
    map.count ≤ other.count := by
  simp only [count, values]
  exact ((fewer.map _).map _).sum_le_sum fun _ _ => Nat.zero_le _

omit [DecidableEq κ] [DecidableEq σ] in
theorem count_retain_le (keep : κ → Bool) (map : HashMap κ (HashMap σ ν)) : (map.retain keep).count ≤ map.count :=
  count_le_of_sublist List.filter_sublist

/-- What lies under a key that is not kept does not count. -/
theorem count_retain_put_le {keep : κ → Bool} {outer : κ} (dropped : keep outer = false) (map : HashMap κ (HashMap σ ν))
    (inner : σ) (value : ν) : ((map.put outer inner value).retain keep).count ≤ map.count := by
  apply count_le_of_sublist
  simp only [put, retain, AList.entries_insert, List.filter_cons, dropped, Bool.false_eq_true, ite_false]
  exact List.filter_sublist.trans (List.kerase_sublist _ _)

omit [DecidableEq σ] in
/-- An outer key contributes its own bucket. -/
theorem count_bucket (map : HashMap κ (HashMap σ ν)) (outer : κ) :
    map.count = ((map.lookup outer).getD ∅).len + (((map.entries.kerase outer).map Sigma.snd).map len).sum := by
  cases found : map.lookup outer with
  | none =>
    have absent : outer ∉ map := AList.lookup_eq_none.mp found
    rw [List.kerase_of_notMem_keys absent]
    simp [count, values, len]
  | some bucket =>
    have present : outer ∈ map := AList.lookup_isSome.mp (by rw [found]; rfl)
    obtain ⟨stored, first, rest, _, whole, erased⟩ := List.exists_of_kerase present
    have inside : ⟨outer, stored⟩ ∈ map.entries := by
      rw [whole]
      exact List.mem_append_right _ List.mem_cons_self
    cases found.symm.trans (AList.mem_lookup_iff.mpr inside)
    rw [erased, count, values, whole]
    simp only [List.map_append, List.map_cons, List.sum_append, List.sum_cons, Option.getD_some]
    omega

theorem notMem_bucket {map : HashMap κ (HashMap σ ν)} {outer : κ} {inner : σ} (absent : map.entry outer inner = none) :
    inner ∉ (map.lookup outer).getD ∅ := by
  rw [← AList.lookup_eq_none]
  cases found : map.lookup outer with
  | none => rfl
  | some bucket => simpa [entry, found] using absent

theorem count_put {map : HashMap κ (HashMap σ ν)} {outer : κ} {inner : σ} (absent : map.entry outer inner = none) (value : ν) :
    (map.put outer inner value).count = map.count + 1 := by
  have unused := notMem_bucket absent
  rw [count_bucket map outer]
  simp only [count, values, put, AList.entries_insert, List.map_cons, List.sum_cons, len_insert unused]
  omega

/-- A map of maps without an empty inner map. -/
def Populated (map : HashMap κ (HashMap σ ν)) : Prop := ∀ outer bucket, map.lookup outer = some bucket → bucket ≠ ∅

theorem Populated.put {map : HashMap κ (HashMap σ ν)} (populated : map.Populated) (outer : κ) (inner : σ) (value : ν) :
    (map.put outer inner value).Populated := by
  intro here bucket found
  simp only [HashMap.put] at found
  by_cases same : here = outer
  · subst same
    rw [AList.lookup_insert] at found
    cases found
    intro empty
    have absent := AList.notMem_empty (β := fun _ : σ => ν) inner
    rw [← empty] at absent
    exact absent ((AList.mem_insert _).mpr (Or.inl rfl))
  · rw [AList.lookup_insert_ne same] at found
    exact populated here bucket found

omit [DecidableEq σ] in
theorem Populated.retain {map : HashMap κ (HashMap σ ν)} (populated : map.Populated) (keep : κ → Bool) :
    (map.retain keep).Populated := by
  intro outer bucket found
  rw [lookup_retain] at found
  split at found
  · exact populated outer bucket found
  · cases found

theorem Populated.exists_entry {map : HashMap κ (HashMap σ ν)} (populated : map.Populated) {outer : κ}
    {bucket : HashMap σ ν} (found : map.lookup outer = some bucket) : ∃ inner value, map.entry outer inner = some value := by
  have stored : bucket.len ≠ 0 := fun empty => populated outer bucket found (AList.ext (List.eq_nil_of_length_eq_zero empty))
  obtain ⟨inner, value, held⟩ := exists_lookup_of_len_ne_zero stored
  exact ⟨inner, value, by rw [entry, found, Option.bind_some, held]⟩

/-- Two maps of maps with the same entries have the same contents under every key. -/
theorem lookup_eq_of_entry {left right : HashMap κ (HashMap σ ν)} (populated : left.Populated) (other : right.Populated)
    (same : ∀ outer inner, left.entry outer inner = right.entry outer inner) (outer : κ) :
    (left.lookup outer).map AList.toFinmap = (right.lookup outer).map AList.toFinmap := by
  have absent : ∀ {map : HashMap κ (HashMap σ ν)}, map.lookup outer = none → ∀ inner, map.entry outer inner = none := by
    intro map found inner
    rw [entry, found, Option.bind_none]
  cases found : left.lookup outer with
  | none =>
    cases found' : right.lookup outer with
    | none => rfl
    | some bucket =>
      obtain ⟨inner, value, held⟩ := other.exists_entry found'
      rw [← same, absent found] at held
      cases held
  | some bucket =>
    cases found' : right.lookup outer with
    | none =>
      obtain ⟨inner, value, held⟩ := populated.exists_entry found
      rw [same, absent found'] at held
      cases held
    | some bucket' =>
      refine congrArg some (Finmap.ext_lookup ?_)
      intro inner
      have equal := same outer inner
      simpa only [entry, found, found', Option.bind_some, Finmap.lookup_toFinmap] using equal

/-- The values of all inner maps. -/
def contents (map : HashMap κ (HashMap σ ν)) : List ν := map.entries.flatMap fun entry => values entry.2

theorem mem_contents {map : HashMap κ (HashMap σ ν)} {value : ν} :
    value ∈ map.contents ↔ ∃ outer inner, map.entry outer inner = some value := by
  simp only [contents, List.mem_flatMap, mem_values, entry]
  constructor
  · intro stored
    obtain ⟨⟨outer, bucket⟩, member, inner, found⟩ := stored
    exact ⟨outer, inner, Option.bind_eq_some_iff.mpr ⟨bucket, AList.mem_lookup_iff.mpr member, found⟩⟩
  · intro stored
    obtain ⟨outer, inner, held⟩ := stored
    obtain ⟨bucket, found, inside⟩ := Option.bind_eq_some_iff.mp held
    exact ⟨⟨outer, bucket⟩, AList.mem_lookup_iff.mp found, inner, inside⟩

/-- Every value lies under the key its tag names. -/
def Filed (tag : ν → κ) (map : HashMap κ (HashMap σ ν)) : Prop :=
  ∀ outer bucket, map.lookup outer = some bucket → ∀ value ∈ values bucket, tag value = outer

omit [DecidableEq κ] [DecidableEq σ] in
theorem length_contents (map : HashMap κ (HashMap σ ν)) : map.contents.length = map.count := by
  rw [contents, List.length_flatMap, count, values, List.map_map]
  congr 1
  apply List.map_congr_left
  intro entry _
  exact List.length_map ..

omit [DecidableEq σ] in
/-- The values under a key, and then the others. -/
theorem contents_bucket (map : HashMap κ (HashMap σ ν)) (outer : κ) :
    map.contents.Perm (values ((map.lookup outer).getD ∅) ++ (map.entries.kerase outer).flatMap fun entry => values entry.2) := by
  cases found : map.lookup outer with
  | none =>
    have absent : outer ∉ map := AList.lookup_eq_none.mp found
    rw [List.kerase_of_notMem_keys absent]
    exact List.Perm.refl _
  | some bucket =>
    have present : outer ∈ map := AList.lookup_isSome.mp (by rw [found]; rfl)
    obtain ⟨stored, first, rest, _, whole, erased⟩ := List.exists_of_kerase present
    have inside : ⟨outer, stored⟩ ∈ map.entries := by
      rw [whole]
      exact List.mem_append_right _ List.mem_cons_self
    cases found.symm.trans (AList.mem_lookup_iff.mpr inside)
    rw [erased, contents, whole]
    exact (List.perm_middle.flatMap_right _).trans (List.Perm.refl _)

theorem contents_put {map : HashMap κ (HashMap σ ν)} {outer : κ} {inner : σ} (absent : map.entry outer inner = none) (value : ν) :
    (map.put outer inner value).contents.Perm (value :: map.contents) := by
  have unused := notMem_bucket absent
  have grown : (map.put outer inner value).contents =
      value :: (values ((map.lookup outer).getD ∅) ++ (map.entries.kerase outer).flatMap fun entry => values entry.2) := by
    simp only [contents, put, AList.entries_insert, List.flatMap_cons, values, List.map_cons, List.cons_append]
    rw [List.kerase_of_notMem_keys unused]
  rw [grown]
  exact (map.contents_bucket outer).symm.cons value

omit [DecidableEq σ] in
theorem Filed.mem {tag : ν → κ} {map : HashMap κ (HashMap σ ν)} (filed : map.Filed tag) {key : κ} {bucket : HashMap σ ν}
    (stored : ⟨key, bucket⟩ ∈ map.entries) {value : ν} (member : value ∈ values bucket) : tag value = key :=
  filed key bucket (AList.mem_lookup_iff.mpr stored) value member

theorem Filed.held {tag : ν → κ} {map : HashMap κ (HashMap σ ν)} (filed : map.Filed tag) {outer : κ} {inner : σ} {value : ν}
    (held : map.entry outer inner = some value) : tag value = outer := by
  obtain ⟨bucket, found, inside⟩ := Option.bind_eq_some_iff.mp held
  exact filed outer bucket found value (mem_values.mpr ⟨inner, inside⟩)

omit [DecidableEq σ] in
/-- What is kept by key is kept by tag. -/
theorem contents_retain {tag : ν → κ} {map : HashMap κ (HashMap σ ν)} (filed : map.Filed tag) (keep : κ → Bool) :
    (map.retain keep).contents = map.contents.filter fun value => keep (tag value) := by
  have whole : ∀ entries : List (Sigma fun _ : κ => HashMap σ ν), (∀ entry ∈ entries, ∀ value ∈ values entry.2, tag value = entry.1) →
      (entries.filter fun entry => keep entry.1).flatMap (fun entry => values entry.2) =
        (entries.flatMap fun entry => values entry.2).filter fun value => keep (tag value) := by
    intro entries
    induction entries with
    | nil =>
      intro _
      rfl
    | cons head rest ih =>
      intro tagged
      have own := tagged head List.mem_cons_self
      rw [List.flatMap_cons, List.filter_append, ← ih fun entry member => tagged entry (List.mem_cons_of_mem _ member),
        List.filter_cons]
      cases kept : keep head.1 with
      | true =>
        have all : (values head.2).filter (fun value => keep (tag value)) = values head.2 := by
          apply List.filter_eq_self.mpr
          intro value member
          rw [own value member, kept]
        rw [if_pos rfl, List.flatMap_cons, all]
      | false =>
        have none : (values head.2).filter (fun value => keep (tag value)) = [] := by
          apply List.filter_eq_nil_iff.mpr
          intro value member
          rw [own value member, kept]
          exact Bool.false_ne_true
        rw [if_neg Bool.false_ne_true, none, List.nil_append]
  exact whole map.entries fun entry stored value member => filed.mem stored member

omit [DecidableEq σ] in
/-- The values of a tag are those of its bucket. -/
theorem contents_filter {tag : ν → κ} {map : HashMap κ (HashMap σ ν)} (filed : map.Filed tag) (outer : κ) :
    (map.contents.filter fun value => tag value = outer).Perm (values ((map.lookup outer).getD ∅)) := by
  refine ((map.contents_bucket outer).filter _).trans ?_
  have own : ∀ value ∈ values ((map.lookup outer).getD ∅), tag value = outer := by
    cases found : map.lookup outer with
    | none =>
      intro value member
      cases member
    | some bucket => exact filed outer bucket found
  have others : ∀ value ∈ (map.entries.kerase outer).flatMap (fun entry => values entry.2), tag value ≠ outer := by
    intro value member
    obtain ⟨entry, kept, inside⟩ := List.mem_flatMap.mp member
    rw [filed.mem ((List.kerase_sublist _ _).subset kept) inside]
    intro same
    have erased := List.notMem_keys_kerase outer map.nodupKeys
    rw [← same] at erased kept
    exact erased (List.mem_keys_of_mem kept)
  rw [List.filter_append, List.filter_eq_self.mpr, List.filter_eq_nil_iff.mpr, List.append_nil]
  · intro value member
    simpa using others value member
  · intro value member
    simpa using own value member

theorem Filed.put {tag : ν → κ} {map : HashMap κ (HashMap σ ν)} (filed : map.Filed tag) (inner : σ) (value : ν) :
    (map.put (tag value) inner value).Filed tag := by
  intro outer bucket found other member
  obtain ⟨mark, held⟩ := mem_values.mp member
  have entered : (map.put (tag value) inner value).entry outer mark = some other := by rw [entry, found, Option.bind_some, held]
  rw [entry_put] at entered
  split at entered
  next here =>
    cases entered
    exact here.1.symm
  next => exact filed.held entered

omit [DecidableEq σ] in
theorem Filed.retain {tag : ν → κ} {map : HashMap κ (HashMap σ ν)} (filed : map.Filed tag) (keep : κ → Bool) :
    (map.retain keep).Filed tag := by
  intro outer bucket found
  rw [lookup_retain] at found
  split at found
  · exact filed outer bucket found
  · cases found

end Nested
end HashMap
end Rust
