import AptosBft.Lib.Mealy
import AptosBft.Testing
import Mathlib.Data.Finmap

/-! The DAG store. It behaves as a finite map from rounds and authors to nodes with a
flag, whatever the author list and the history of its vectors. What it forgets is that
a slot was ever there. -/

namespace AptosBft.Proofs.Dag
open Rust Mealy AptosBft.InMemDag

variable {R A M : Type} [LinearOrder R] [DecidableEq A]

section Index

theorem index_concat (authors : List A) (author : A) :
    (new (authors ++ [author]) : InMemDag R A M).authorToIndex =
      (new authors : InMemDag R A M).authorToIndex.insert author authors.length := by
  simp only [new, List.zipIdx_append, List.foldl_append, Nat.zero_add, List.zipIdx_singleton, List.foldl_cons, List.foldl_nil]

/-- The index of an author is a position of that author in the list. -/
theorem listed_at {authors : List A} {author : A} {place : Nat}
    (found : (new authors : InMemDag R A M).authorToIndex.lookup author = some place) : authors[place]? = some author := by
  induction authors using List.reverseRecOn with
  | nil => cases found
  | append_singleton authors last ih =>
    rw [index_concat] at found
    by_cases same : author = last
    · subst same
      rw [AList.lookup_insert] at found
      cases found
      exact List.getElem?_concat_length
    · rw [AList.lookup_insert_ne same] at found
      have early := ih found
      rw [List.getElem?_append_left (List.getElem?_eq_some_iff.mp early).1]
      exact early

theorem known_iff (authors : List A) (author : A) :
    (∃ place, (new authors : InMemDag R A M).authorToIndex.lookup author = some place) ↔ author ∈ authors := by
  induction authors using List.reverseRecOn with
  | nil => simp [new]
  | append_singleton authors last ih =>
    rw [index_concat, List.mem_append, List.mem_singleton]
    by_cases same : author = last
    · subst same
      simp only [AList.lookup_insert, or_true, iff_true]
      exact ⟨authors.length, rfl⟩
    · rw [AList.lookup_insert_ne same, ih]
      simp only [same, or_false]

/-- No two authors share an index. -/
theorem same_author {authors : List A} {author other : A} {place : Nat}
    (found : (new authors : InMemDag R A M).authorToIndex.lookup author = some place)
    (again : (new authors : InMemDag R A M).authorToIndex.lookup other = some place) : author = other :=
  Option.some.inj ((listed_at found).symm.trans (listed_at again))

end Index

section Cells

/-- What one place of a round holds. A round that is not there and a vector that is too
short hold nothing. -/
def cell (dag : InMemDag R A M) (round : R) (place : Nat) : Option (StoredNodeStatus M) :=
  ((dag.nodesByRound.get round).bind fun roundNodes => roundNodes[place]?).join

omit [DecidableEq A] in
theorem cell_of_get {dag : InMemDag R A M} {round : R} {roundNodes : List (Option (StoredNodeStatus M))}
    (found : dag.nodesByRound.get round = some roundNodes) (place : Nat) :
    cell dag round place = roundNodes[place]?.join := by
  rw [cell, found, Option.bind_some]

theorem getNodeStatus_eq (dag : InMemDag R A M) (round : R) (author : A) :
    dag.getNodeStatus round author = (dag.authorToIndex.lookup author).bind (cell dag round) := by
  simp only [getNodeStatus, Option.bind_eq_bind]
  cases dag.authorToIndex.lookup author with
  | none => rfl
  | some place =>
    simp only [Option.bind_some, cell]
    cases dag.nodesByRound.get round with
    | none => rfl
    | some roundNodes => rfl

theorem getNode_eq (dag : InMemDag R A M) (round : R) (author : A) :
    dag.getNode round author = (dag.getNodeStatus round author).map StoredNodeStatus.asNode := by
  simp only [getNode, getNodeStatus, Option.bind_eq_bind]
  cases dag.authorToIndex.lookup author with
  | none => rfl
  | some place =>
    cases dag.nodesByRound.get round with
    | none => rfl
    | some roundNodes =>
      simp only [Option.bind_some]
      cases roundNodes[place]? with
      | none => rfl
      | some status => rfl

theorem getElem?_takeD {α : Type} (items : List α) (size : Nat) (filler : α) (place : Nat) :
    (items.takeD size filler)[place]? = if place < size then some (items[place]?.getD filler) else none := by
  induction size generalizing items place with
  | zero => rfl
  | succ size ih =>
    rw [List.takeD_succ]
    cases place with
    | zero => simp [List.head?_eq_getElem?]
    | succ place => simp [ih, List.getElem?_tail]

/-- The vector that `add_node` works on. -/
def prepared (dag : InMemDag R A M) (round : R) (place : Nat) : List (Option (StoredNodeStatus M)) :=
  let roundNodes := (dag.nodesByRound.get round).getD (.replicate dag.authorToIndex.len none)
  if roundNodes.length ≤ place then roundNodes.takeD (place + 1) none else roundNodes

omit [DecidableEq A] in
theorem prepared_cells (dag : InMemDag R A M) (round : R) (place position : Nat) :
    (prepared dag round place)[position]?.join = cell dag round position := by
  have created : ((dag.nodesByRound.get round).getD (.replicate dag.authorToIndex.len none))[position]?.join =
      cell dag round position := by
    cases found : dag.nodesByRound.get round with
    | none =>
      rw [cell, found, Option.getD_none, List.getElem?_replicate]
      split <;> rfl
    | some roundNodes => rw [cell_of_get found, Option.getD_some]
  simp only [prepared]
  split
  next short =>
    rw [← created, getElem?_takeD]
    split
    · cases ((dag.nodesByRound.get round).getD (.replicate dag.authorToIndex.len none))[position]? <;> rfl
    · rw [List.getElem?_eq_none (by omega)]
  next => exact created

omit [DecidableEq A] in
theorem prepared_room (dag : InMemDag R A M) (round : R) (place : Nat) : place < (prepared dag round place).length := by
  simp only [prepared]
  split
  · rw [List.takeD_length]
    exact Nat.lt_succ_self place
  · omega

/-- The store with the vector of one round replaced. -/
def rewrite (dag : InMemDag R A M) (round : R) (roundNodes : List (Option (StoredNodeStatus M))) : InMemDag R A M :=
  { dag with nodesByRound := dag.nodesByRound.insert round roundNodes }

omit [DecidableEq A] in
theorem cell_rewrite (dag : InMemDag R A M) (round other : R) (roundNodes : List (Option (StoredNodeStatus M)))
    (position : Nat) : cell (rewrite dag round roundNodes) other position =
      if other = round then roundNodes[position]?.join else cell dag other position := by
  split
  next same =>
    subst same
    exact cell_of_get (BTreeMap.get_insert_self dag.nodesByRound other roundNodes) position
  next different => rw [cell, rewrite, BTreeMap.get_insert_of_ne _ different, cell]

/-- The stores hold the same at every place. -/
structure Same (before after : InMemDag R A M) : Prop where
  index : after.authorToIndex = before.authorToIndex
  cells : ∀ round place, cell after round place = cell before round place

/-- One place gets a new content. -/
structure Fills (before after : InMemDag R A M) (round : R) (place : Nat) (status : StoredNodeStatus M) : Prop where
  index : after.authorToIndex = before.authorToIndex
  here : cell after round place = some status
  elsewhere : ∀ other position, ¬(other = round ∧ position = place) → cell after other position = cell before other position

omit [DecidableEq A] in
theorem same_rewrite {dag : InMemDag R A M} {round : R} {roundNodes : List (Option (StoredNodeStatus M))}
    (kept : ∀ position, roundNodes[position]?.join = cell dag round position) : Same dag (rewrite dag round roundNodes) := by
  refine ⟨rfl, ?_⟩
  intro other position
  rw [cell_rewrite]
  split
  next same => rw [kept, same]
  next => rfl

omit [DecidableEq A] in
theorem fills_rewrite {dag : InMemDag R A M} {round : R} {roundNodes : List (Option (StoredNodeStatus M))} {place : Nat}
    (room : place < roundNodes.length) (kept : ∀ position, roundNodes[position]?.join = cell dag round position)
    (status : StoredNodeStatus M) :
    Fills dag (rewrite dag round (roundNodes.set place (some status))) round place status := by
  refine ⟨rfl, ?_, ?_⟩
  · rw [cell_rewrite, if_pos rfl, List.getElem?_set_self room]
    rfl
  · intro other position away
    rw [cell_rewrite]
    split
    next same =>
      subst same
      rw [List.getElem?_set_ne (fun same => away ⟨rfl, same.symm⟩), kept]
    next => rfl

end Cells

section Calls
variable [CertifiedNode M R A] [ToString R] [ToString A]

/-- All that a call can do, seen place by place. -/
inductive Moves (dag : InMemDag R A M) : Call R A M → Except Error Unit → InMemDag R A M → Prop where
  | added {node : M} {place : Nat} {after : InMemDag R A M}
      (known : dag.authorToIndex.lookup (CertifiedNode.author node) = some place)
      (free : cell dag (CertifiedNode.round node) place = none)
      (fills : Fills dag after (CertifiedNode.round node) place (.unordered node 0)) :
      Moves dag (.addNode node) (.ok ()) after
  | rejected {node : M} {error : Error} {after : InMemDag R A M}
      (taken : ∀ place, dag.authorToIndex.lookup (CertifiedNode.author node) = some place →
        (cell dag (CertifiedNode.round node) place).isSome)
      (same : Same dag after) : Moves dag (.addNode node) (.error error) after
  | marked {round : R} {author : A} {place : Nat} {node : M} {power : Nat} {after : InMemDag R A M}
      (known : dag.authorToIndex.lookup author = some place) (waiting : cell dag round place = some (.unordered node power))
      (fills : Fills dag after round place (.ordered node)) : Moves dag (.markOrdered round author) (.ok ()) after
  | refused {round : R} {author : A} {error : Error} {after : InMemDag R A M}
      (settled : ∀ place node power, dag.authorToIndex.lookup author = some place →
        cell dag round place ≠ some (.unordered node power))
      (same : Same dag after) : Moves dag (.markOrdered round author) (.error error) after
  | pruned {minRound : R} {after : InMemDag R A M} (index : after.authorToIndex = dag.authorToIndex)
      (cells : ∀ round place, cell after round place = if round < minRound then none else cell dag round place) :
      Moves dag (.pruneBelow minRound) (.ok ()) after
  | cleared {after : InMemDag R A M} (index : after.authorToIndex = dag.authorToIndex)
      (cells : ∀ round place, cell after round place = none) : Moves dag .clear (.ok ()) after

theorem addNode_moves (dag : InMemDag R A M) (node : M) :
    Moves dag (.addNode node) (dag.addNode node).1 (dag.addNode node).2 := by
  cases known : dag.authorToIndex.lookup (CertifiedNode.author node) with
  | none =>
    simp only [addNode, known]
    exact .rejected (fun place found => by cases known.symm.trans found) ⟨rfl, fun _ _ => rfl⟩
  | some place =>
    have kept := prepared_cells dag (CertifiedNode.round node) place
    have room := prepared_room dag (CertifiedNode.round node) place
    have content := kept place
    obtain ⟨held, found⟩ : ∃ held, (prepared dag (CertifiedNode.round node) place)[place]? = some held :=
      ⟨_, List.getElem?_eq_getElem room⟩
    rw [found] at content
    simp only [addNode, known]
    simp only [prepared] at found
    cases held with
    | none =>
      simp only [found]
      exact .added known content.symm (fills_rewrite room kept _)
    | some status =>
      simp only [found]
      refine .rejected ?_ (same_rewrite kept)
      intro other again
      cases known.symm.trans again
      rw [← content]
      rfl

theorem markOrdered_moves (dag : InMemDag R A M) (round : R) (author : A) :
    Moves dag (.markOrdered round author) (dag.markOrdered round author).1 (dag.markOrdered round author).2 := by
  simp only [markOrdered]
  cases known : dag.authorToIndex.lookup author with
  | none => exact .refused (fun place _ _ found => by cases known.symm.trans found) ⟨rfl, fun _ _ => rfl⟩
  | some place =>
    -- a refusal only has to say what this place holds
    have refuses : ∀ {error : Error} {after : InMemDag R A M}, Same dag after →
        (∀ node power, cell dag round place ≠ some (.unordered node power)) →
        Moves dag (.markOrdered round author) (.error error) after := by
      intro error after same settled
      refine .refused ?_ same
      intro other node power again
      cases known.symm.trans again
      exact settled node power
    cases stored : dag.nodesByRound.get round with
    | none => exact refuses ⟨rfl, fun _ _ => rfl⟩ (by simp [cell, stored])
    | some roundNodes =>
      have held := cell_of_get stored place
      cases found : roundNodes[place]? with
      | none =>
        simp only [found]
        exact refuses ⟨rfl, fun _ _ => rfl⟩ (by simp [held, found])
      | some content =>
        obtain ⟨room, here⟩ := List.getElem?_eq_some_iff.mp found
        simp only [found]
        cases content with
        | none => exact refuses ⟨rfl, fun _ _ => rfl⟩ (by simp [held, found])
        | some status =>
          cases status with
          | unordered node power =>
            rw [found] at held
            exact .marked known held (fills_rewrite room (fun position => (cell_of_get stored position).symm) _)
          | ordered node =>
            refine refuses (same_rewrite ?_) (by simp [held, found])
            intro position
            rw [StoredNodeStatus.markAsOrdered, ← here, List.set_getElem_self, cell_of_get stored]

theorem call_moves (dag : InMemDag R A M) (input : Call R A M) : Moves dag input (call dag input).1 (call dag input).2 := by
  cases input with
  | addNode node => exact addNode_moves dag node
  | markOrdered round author => exact markOrdered_moves dag round author
  | pruneBelow minRound =>
    refine .pruned rfl ?_
    intro round place
    simp only [cell, call, pruneBelow, BTreeMap.get_splitOff]
    split <;> rfl
  | clear => exact .cleared rfl (fun _ _ => rfl)

end Calls

/-- What the store is for: the nodes by round and author, each with the flag that says
whether it is ordered. -/
abbrev Slots (R A M : Type) := Finmap fun _ : R × A => M × Bool

namespace Slots

def prune (slots : Slots R A M) (minRound : R) : Slots R A M where
  entries := slots.entries.filter fun entry => minRound ≤ entry.1.1
  nodupKeys := by
    rw [← Multiset.nodup_keys]
    exact Multiset.nodup_of_le (Multiset.map_le_map (Multiset.filter_le _ _)) slots.nodupKeys.nodup_keys

theorem lookup_prune (slots : Slots R A M) (minRound round : R) (author : A) :
    (slots.prune minRound).lookup (round, author) = if round < minRound then none else slots.lookup (round, author) := by
  apply Option.ext
  intro content
  rw [← Option.mem_def, Finmap.mem_lookup_iff, prune, Multiset.mem_filter, ← Finmap.mem_lookup_iff, Option.mem_def]
  split
  next below => simp only [not_le.mpr below, and_false, reduceCtorEq]
  next above => simp only [not_lt.mp above, and_true]

variable [CertifiedNode M R A]

/-- The calls as updates of the map. -/
def call (authors : List A) (slots : Slots R A M) : Call R A M → Bool × Slots R A M
  | .addNode node =>
    if CertifiedNode.author node ∈ authors ∧ (CertifiedNode.round node, CertifiedNode.author node) ∉ slots then
      (true, slots.insert (CertifiedNode.round node, CertifiedNode.author node) (node, false))
    else (false, slots)
  | .markOrdered round author =>
    match slots.lookup (round, author) with
    | some (node, false) => (true, slots.insert (round, author) (node, true))
    | _ => (false, slots)
  | .pruneBelow minRound => (true, slots.prune minRound)
  | .clear => (true, ∅)

end Slots

section Refinement
variable [CertifiedNode M R A] {authors : List A}

/-- The status that stands for a node and its flag. -/
def status (content : M × Bool) : StoredNodeStatus M :=
  if content.2 then .ordered content.1 else .unordered content.1 0

theorem status_node (content : M × Bool) : (status content).asNode = content.1 := by
  rw [status]
  split <;> rfl

/-- A store and the map it stands for. Every node lies where its own round and author
put it. -/
structure Refines (authors : List A) (slots : Slots R A M) (dag : InMemDag R A M) : Prop where
  index : dag.authorToIndex = (new authors : InMemDag R A M).authorToIndex
  placed : ∀ round place status, cell dag round place = some status →
    CertifiedNode.round status.asNode = round ∧
      dag.authorToIndex.lookup (CertifiedNode.author status.asNode) = some place
  contents : ∀ round author, dag.getNodeStatus round author = (slots.lookup (round, author)).map status

theorem Refines.new (authors : List A) : Refines authors (∅ : Slots R A M) (InMemDag.new authors) := by
  refine ⟨rfl, ?_, ?_⟩
  · intro round place status held
    cases held
  · intro round author
    rw [getNodeStatus_eq]
    cases (InMemDag.new authors : InMemDag R A M).authorToIndex.lookup author <;> rfl

variable {slots : Slots R A M} {dag after : InMemDag R A M}

theorem Refines.same (refines : Refines authors slots dag) (same : Same dag after) : Refines authors slots after := by
  refine ⟨same.index.trans refines.index, ?_, ?_⟩
  · intro round place status held
    rw [same.cells] at held
    rw [same.index]
    exact refines.placed round place status held
  · intro round author
    rw [← refines.contents, getNodeStatus_eq, getNodeStatus_eq, same.index]
    exact congrArg _ (funext (same.cells round))

/-- A node written into the place of its author is a slot written in the map. -/
theorem Refines.fills (refines : Refines authors slots dag) {round : R} {author : A} {place : Nat} {content : M × Bool}
    (own : CertifiedNode.round content.1 = round ∧ CertifiedNode.author content.1 = author)
    (known : dag.authorToIndex.lookup author = some place) (fills : Fills dag after round place (status content)) :
    Refines authors (slots.insert (round, author) content) after := by
  refine ⟨fills.index.trans refines.index, ?_, ?_⟩
  · intro other position found held
    rw [fills.index]
    by_cases here : other = round ∧ position = place
    · obtain ⟨rfl, rfl⟩ := here
      cases fills.here.symm.trans held
      rw [status_node, own.2]
      exact ⟨own.1, known⟩
    · rw [fills.elsewhere other position here] at held
      exact refines.placed other position found held
  · intro other writer
    rw [getNodeStatus_eq, fills.index]
    by_cases here : other = round ∧ writer = author
    · obtain ⟨rfl, rfl⟩ := here
      rw [known, Option.bind_some, fills.here, Finmap.lookup_insert, Option.map_some]
    · have away : (other, writer) ≠ (round, author) := fun same => here (Prod.mk.inj same)
      rw [Finmap.lookup_insert_of_ne _ away, ← refines.contents, getNodeStatus_eq]
      cases found : dag.authorToIndex.lookup writer with
      | none => rfl
      | some position =>
        rw [Option.bind_some, Option.bind_some]
        apply fills.elsewhere
        intro shared
        obtain ⟨rfl, rfl⟩ := shared
        rw [refines.index] at known found
        exact here ⟨rfl, same_author found known⟩

theorem Refines.drops (refines : Refines authors slots dag) (index : after.authorToIndex = dag.authorToIndex)
    (gone : R → Prop) [DecidablePred gone] {kept : Slots R A M}
    (cells : ∀ round place, cell after round place = if gone round then none else cell dag round place)
    (remaining : ∀ round author, kept.lookup (round, author) = if gone round then none else slots.lookup (round, author)) :
    Refines authors kept after := by
  refine ⟨index.trans refines.index, ?_, ?_⟩
  · intro round place status held
    rw [cells] at held
    rw [index]
    split at held
    · cases held
    · exact refines.placed round place status held
  · intro round author
    rw [remaining, getNodeStatus_eq, index]
    by_cases removed : gone round
    · cases dag.authorToIndex.lookup author with
      | none => simp [removed]
      | some place => simp [cells, removed]
    · rw [if_neg removed, ← refines.contents, getNodeStatus_eq]
      refine congrArg _ (funext ?_)
      intro place
      rw [cells, if_neg removed]

/-- A slot of the map and the place it is in. -/
theorem Refines.cell_eq (refines : Refines authors slots dag) {round : R} {author : A} {place : Nat}
    (known : dag.authorToIndex.lookup author = some place) :
    cell dag round place = (slots.lookup (round, author)).map status := by
  rw [← refines.contents, getNodeStatus_eq, known, Option.bind_some]

theorem Refines.known_iff (refines : Refines authors slots dag) (author : A) :
    (∃ place, dag.authorToIndex.lookup author = some place) ↔ author ∈ authors := by
  rw [refines.index]
  exact Dag.known_iff authors author

theorem status_eq_unordered {content : M × Bool} {node : M} {power : Nat} (same : status content = .unordered node power) :
    content = (node, false) := by
  obtain ⟨held, flag⟩ := content
  cases flag with
  | false =>
    obtain ⟨rfl, _⟩ := StoredNodeStatus.unordered.inj same
    rfl
  | true => cases same

/-- A node that waits to be ordered waits in the map. -/
theorem Refines.waiting_iff (refines : Refines authors slots dag) {round : R} {author : A} {node : M} :
    (∃ place power, dag.authorToIndex.lookup author = some place ∧ cell dag round place = some (.unordered node power)) ↔
      slots.lookup (round, author) = some (node, false) := by
  constructor
  · intro waits
    obtain ⟨place, power, known, waiting⟩ := waits
    rw [refines.cell_eq known] at waiting
    obtain ⟨content, found, same⟩ := Option.map_eq_some_iff.mp waiting
    rw [found, status_eq_unordered same]
  · intro found
    have held := refines.contents round author
    rw [found, getNodeStatus_eq, Option.map_some] at held
    obtain ⟨place, known, waiting⟩ := Option.bind_eq_some_iff.mp held
    exact ⟨place, 0, known, waiting⟩

theorem Refines.free_iff (refines : Refines authors slots dag) {round : R} {author : A} {place : Nat}
    (known : dag.authorToIndex.lookup author = some place) : cell dag round place = none ↔ (round, author) ∉ slots := by
  rw [refines.cell_eq known, Option.map_eq_none_iff, Finmap.lookup_eq_none]

/-- A node that finds no free place is no new slot of a listed author. -/
theorem Refines.blocked (refines : Refines authors slots dag) {round : R} {author : A}
    (taken : ∀ place, dag.authorToIndex.lookup author = some place → (cell dag round place).isSome) :
    ¬(author ∈ authors ∧ (round, author) ∉ slots) := by
  intro allowed
  obtain ⟨listed, absent⟩ := allowed
  obtain ⟨place, known⟩ := (refines.known_iff author).mpr listed
  have held := taken place known
  rw [(refines.free_iff known).mpr absent] at held
  cases held

theorem Refines.settled (refines : Refines authors slots dag) {round : R} {author : A}
    (settled : ∀ place node power, dag.authorToIndex.lookup author = some place →
      cell dag round place ≠ some (.unordered node power)) (node : M) :
    slots.lookup (round, author) ≠ some (node, false) := by
  intro found
  obtain ⟨place, power, known, waiting⟩ := refines.waiting_iff.mpr found
  exact settled place node power known waiting

/-- A waiting node is the node of the slot it waits in. -/
theorem Refines.owner (refines : Refines authors slots dag) {round : R} {author : A} {content : M × Bool}
    (found : slots.lookup (round, author) = some content) :
    CertifiedNode.round content.1 = round ∧ CertifiedNode.author content.1 = author := by
  have held := refines.contents round author
  rw [found, getNodeStatus_eq, Option.map_some] at held
  obtain ⟨place, known, here⟩ := Option.bind_eq_some_iff.mp held
  obtain ⟨own, listed⟩ := refines.placed round place _ here
  rw [status_node] at own listed
  rw [refines.index] at known listed
  exact ⟨own, same_author listed known⟩

variable [ToString R] [ToString A]

theorem Refines.addable_iff (refines : Refines authors slots dag) (node : M) :
    (dag.addNode node).1 = .ok () ↔
      CertifiedNode.author node ∈ authors ∧ (CertifiedNode.round node, CertifiedNode.author node) ∉ slots := by
  have moves := addNode_moves dag node
  generalize (dag.addNode node).1 = result at moves ⊢
  generalize (dag.addNode node).2 = after at moves
  cases moves with
  | added known free fills =>
    exact iff_of_true rfl ⟨(refines.known_iff _).mp ⟨_, known⟩, (refines.free_iff known).mp free⟩
  | rejected taken same => exact iff_of_false (by simp) (refines.blocked taken)

theorem Refines.markable_iff (refines : Refines authors slots dag) (round : R) (author : A) :
    (dag.markOrdered round author).1 = .ok () ↔ ∃ node, slots.lookup (round, author) = some (node, false) := by
  have moves := markOrdered_moves dag round author
  generalize (dag.markOrdered round author).1 = result at moves ⊢
  generalize (dag.markOrdered round author).2 = after at moves
  cases moves with
  | marked known waiting fills => exact iff_of_true rfl ⟨_, refines.waiting_iff.mp ⟨_, _, known, waiting⟩⟩
  | refused settled same =>
    apply iff_of_false (by simp)
    intro waits
    obtain ⟨node, found⟩ := waits
    exact refines.settled settled node found

/-- The store follows the map through every call. -/
theorem Refines.step (refines : Refines authors slots dag) (input : Call R A M) :
    Refines authors (slots.call authors input).2 (AptosBft.InMemDag.call dag input).2 := by
  have moves := call_moves dag input
  generalize (AptosBft.InMemDag.call dag input).1 = result at moves
  generalize (AptosBft.InMemDag.call dag input).2 = after at moves ⊢
  cases moves with
  | added known free fills =>
    have allowed := And.intro ((refines.known_iff _).mp ⟨_, known⟩) ((refines.free_iff known).mp free)
    rw [Slots.call, if_pos allowed]
    exact refines.fills ⟨rfl, rfl⟩ known fills
  | rejected taken same =>
    rw [Slots.call, if_neg (refines.blocked taken)]
    exact refines.same same
  | marked known waiting fills =>
    have found := refines.waiting_iff.mp ⟨_, _, known, waiting⟩
    rw [Slots.call]
    simp only [found]
    have own := refines.owner found
    exact refines.fills own known fills
  | @refused round author _ _ settled same =>
    rw [Slots.call]
    split
    next node found => exact absurd found (refines.settled settled node)
    next => exact refines.same same
  | pruned index cells => exact refines.drops index _ cells (slots.lookup_prune _)
  | cleared index cells =>
    refine refines.drops index (fun _ => True) ?_ ?_
    · intro round place
      rw [if_pos trivial, cells]
    · intro round author
      rw [if_pos trivial, Slots.call, Finmap.lookup_empty]

end Refinement

section Queries
variable [CertifiedNode M R A] {authors : List A} {slots : Slots R A M} {dag : InMemDag R A M}

omit [LinearOrder R] [DecidableEq A] [CertifiedNode M R A] in
theorem mem_nodesOf {roundNodes : List (Option (StoredNodeStatus M))} {node : M} :
    node ∈ nodesOf roundNodes ↔ ∃ (place : Nat) (held : StoredNodeStatus M), roundNodes[place]?.join = some held ∧ held.asNode = node := by
  rw [nodesOf, List.mem_filterMap]
  constructor
  · intro inside
    obtain ⟨content, member, found⟩ := inside
    obtain ⟨place, here⟩ := List.mem_iff_getElem?.mp member
    obtain ⟨held, rfl, own⟩ := Option.map_eq_some_iff.mp found
    exact ⟨place, held, by rw [here]; rfl, own⟩
  · intro stored
    obtain ⟨place, held, here, own⟩ := stored
    refine ⟨some held, List.mem_of_getElem? (Option.join_eq_some_iff.mp here), ?_⟩
    rw [Option.map_some, own]

/-- Two nodes in the order the store lists them. -/
def Precedes (left right : M) : Prop :=
  (CertifiedNode.round left : R) < CertifiedNode.round right ∨
    (CertifiedNode.round left : R) = CertifiedNode.round right ∧ (CertifiedNode.author left : A) ≠ CertifiedNode.author right

omit [DecidableEq A] in
theorem Precedes.ne {left right : M} (precedes : Precedes left right) : left ≠ right := by
  intro same
  subst same
  obtain below | ⟨_, different⟩ := precedes
  · exact lt_irrefl _ below
  · exact different rfl

omit [DecidableEq A] in
theorem Precedes.le {left right : M} (precedes : Precedes left right) :
    (CertifiedNode.round left : R) ≤ CertifiedNode.round right := by
  obtain below | ⟨same, _⟩ := precedes
  · exact le_of_lt below
  · exact le_of_eq same

/-- Two places of one round hold nodes of two authors. -/
theorem Refines.precedes (refines : Refines authors slots dag) {round : R} {roundNodes : List (Option (StoredNodeStatus M))}
    (found : dag.nodesByRound.get round = some roundNodes) : (nodesOf roundNodes).Pairwise Precedes := by
  rw [nodesOf, List.pairwise_filterMap, List.pairwise_iff_getElem]
  intro low high inside within before left first right second
  have place : ∀ {position : Nat} {node : M} (bound : position < roundNodes.length),
      roundNodes[position].map StoredNodeStatus.asNode = some node →
      CertifiedNode.round node = round ∧ dag.authorToIndex.lookup (CertifiedNode.author node) = some position := by
    intro position node bound held
    obtain ⟨status, here, rfl⟩ := Option.map_eq_some_iff.mp held
    apply refines.placed round position status
    rw [cell_of_get found, List.getElem?_eq_getElem bound, here]
    rfl
  obtain ⟨leftRound, leftIndex⟩ := place inside first
  obtain ⟨rightRound, rightIndex⟩ := place within second
  refine Or.inr ⟨leftRound.trans rightRound.symm, ?_⟩
  intro same
  rw [same, rightIndex] at leftIndex
  cases leftIndex
  exact lt_irrefl _ before

theorem Refines.listed (refines : Refines authors slots dag) {round : R} {roundNodes : List (Option (StoredNodeStatus M))}
    (found : dag.nodesByRound.get round = some roundNodes) {node : M} :
    node ∈ nodesOf roundNodes ↔ ∃ author flag, slots.lookup (round, author) = some (node, flag) := by
  rw [mem_nodesOf]
  constructor
  · intro stored
    obtain ⟨place, held, here, rfl⟩ := stored
    rw [← cell_of_get found] at here
    obtain ⟨_, known⟩ := refines.placed round place held here
    rw [refines.cell_eq known] at here
    obtain ⟨content, inside, rfl⟩ := Option.map_eq_some_iff.mp here
    rw [status_node]
    exact ⟨_, content.2, inside⟩
  · intro mapped
    obtain ⟨author, flag, inside⟩ := mapped
    have held := refines.contents round author
    rw [inside, getNodeStatus_eq, Option.map_some] at held
    obtain ⟨place, _, here⟩ := Option.bind_eq_some_iff.mp held
    rw [cell_of_get found] at here
    exact ⟨place, _, here, status_node _⟩

theorem Refines.unlisted (refines : Refines authors slots dag) {round : R} (absent : dag.nodesByRound.get round = none)
    (author : A) : slots.lookup (round, author) = none := by
  have held := refines.contents round author
  rw [getNodeStatus_eq] at held
  refine Option.map_eq_none_iff.mp (held.symm.trans ?_)
  cases dag.authorToIndex.lookup author with
  | none => rfl
  | some place => simp [cell, absent]

theorem Refines.mem_getRound (refines : Refines authors slots dag) {round : R} {node : M} :
    node ∈ dag.getRound round ↔ ∃ author flag, slots.lookup (round, author) = some (node, flag) := by
  rw [getRound]
  cases found : dag.nodesByRound.get round with
  | none => simp [refines.unlisted found]
  | some roundNodes => exact refines.listed found

theorem Refines.mem_allNodes (refines : Refines authors slots dag) {node : M} :
    node ∈ dag.allNodes ↔ ∃ round author flag, slots.lookup (round, author) = some (node, flag) := by
  rw [allNodes, List.mem_flatMap]
  constructor
  · intro stored
    obtain ⟨roundNodes, member, inside⟩ := stored
    obtain ⟨round, found⟩ := BTreeMap.mem_values.mp member
    exact ⟨round, (refines.listed found).mp inside⟩
  · intro mapped
    obtain ⟨round, author, flag, held⟩ := mapped
    cases found : dag.nodesByRound.get round with
    | none =>
      rw [refines.unlisted found] at held
      cases held
    | some roundNodes =>
      exact ⟨roundNodes, BTreeMap.mem_values.mpr ⟨round, found⟩, (refines.listed found).mpr ⟨author, flag, held⟩⟩

theorem Refines.allNodes_precede (refines : Refines authors slots dag) : dag.allNodes.Pairwise Precedes := by
  rw [allNodes, List.pairwise_flatMap]
  constructor
  · intro roundNodes member
    obtain ⟨round, found⟩ := BTreeMap.mem_values.mp member
    exact refines.precedes found
  · apply BTreeMap.pairwise_values
    intro low high first second before lower higher left inside right member
    obtain ⟨_, _, leftHeld⟩ := (refines.listed lower).mp inside
    obtain ⟨_, _, rightHeld⟩ := (refines.listed higher).mp member
    apply Or.inl
    rw [(refines.owner leftHeld).1, (refines.owner rightHeld).1]
    exact before

end Queries

/-- Every query of the store agrees with the map. -/
structure Agrees [CertifiedNode M R A] [ToString R] [ToString A] (authors : List A) (slots : Slots R A M)
    (dag : InMemDag R A M) : Prop where
  getNode : ∀ round author, dag.getNode round author = (slots.lookup (round, author)).map Prod.fst
  getNodeStatus : ∀ round author, dag.getNodeStatus round author = (slots.lookup (round, author)).map status
  exists_iff : ∀ round author, dag.exists round author = true ↔ (round, author) ∈ slots
  addNode : ∀ node, (dag.addNode node).1 = .ok () ↔
    CertifiedNode.author node ∈ authors ∧ (CertifiedNode.round node, CertifiedNode.author node) ∉ slots
  markOrdered : ∀ round author, (dag.markOrdered round author).1 = .ok () ↔
    ∃ node, slots.lookup (round, author) = some (node, false)
  getRound : ∀ round, (dag.getRound round : Multiset M) =
    (slots.entries.filter fun entry => entry.1.1 = round).map fun entry => entry.2.1
  allNodes : (dag.allNodes : Multiset M) = slots.entries.map fun entry => entry.2.1
  ascending : dag.allNodes.Pairwise fun left right => (CertifiedNode.round left : R) ≤ CertifiedNode.round right
  len : dag.len = slots.entries.card

section Agreement
variable [CertifiedNode M R A] {authors : List A} {slots : Slots R A M} {dag : InMemDag R A M}

omit [LinearOrder R] [DecidableEq A] [CertifiedNode M R A] in
theorem length_nodesOf (roundNodes : List (Option (StoredNodeStatus M))) :
    (nodesOf roundNodes).length = roundNodes.countP Option.isSome := by
  rw [nodesOf, List.length_filterMap_eq_countP]
  simp only [Option.isSome_map]

omit [DecidableEq A] [CertifiedNode M R A] in
theorem length_allNodes (dag : InMemDag R A M) : dag.allNodes.length = dag.len := by
  rw [allNodes, List.length_flatMap, InMemDag.len]
  simp only [length_nodesOf]

/-- The nodes of a part of the map, each once. -/
theorem Refines.nodup_nodes (refines : Refines authors slots dag) {part : Multiset ((_ : R × A) × M × Bool)}
    (inside : part ≤ slots.entries) : (part.map fun entry => entry.2.1).Nodup := by
  refine Multiset.Nodup.map_on ?_ (Multiset.nodup_of_le inside slots.nodup_entries)
  intro left member right within same
  have leftHeld := Finmap.mem_lookup_iff.mpr (Multiset.mem_of_le inside member)
  have rightHeld := Finmap.mem_lookup_iff.mpr (Multiset.mem_of_le inside within)
  obtain ⟨⟨round, author⟩, content⟩ := left
  obtain ⟨⟨other, writer⟩, held⟩ := right
  have first := refines.owner leftHeld
  have second := refines.owner rightHeld
  rw [same] at first
  obtain rfl := first.1.symm.trans second.1
  obtain rfl := first.2.symm.trans second.2
  cases leftHeld.symm.trans rightHeld
  rfl

theorem Refines.allNodes_eq (refines : Refines authors slots dag) :
    (dag.allNodes : Multiset M) = slots.entries.map fun entry => entry.2.1 := by
  have once : dag.allNodes.Nodup := refines.allNodes_precede.imp Precedes.ne
  refine (Multiset.Nodup.ext (Multiset.coe_nodup.mpr once) (refines.nodup_nodes le_rfl)).mpr ?_
  intro node
  rw [Multiset.mem_coe, refines.mem_allNodes, Multiset.mem_map]
  constructor
  · intro mapped
    obtain ⟨round, author, flag, held⟩ := mapped
    exact ⟨⟨(round, author), (node, flag)⟩, Finmap.mem_lookup_iff.mp held, rfl⟩
  · intro entered
    obtain ⟨⟨⟨round, author⟩, content⟩, member, rfl⟩ := entered
    exact ⟨round, author, content.2, Finmap.mem_lookup_iff.mpr member⟩

theorem Refines.getRound_eq (refines : Refines authors slots dag) (round : R) : (dag.getRound round : Multiset M) =
    (slots.entries.filter fun entry => entry.1.1 = round).map fun entry => entry.2.1 := by
  have once : (dag.getRound round).Nodup := by
    rw [InMemDag.getRound]
    cases found : dag.nodesByRound.get round with
    | none => exact List.nodup_nil
    | some roundNodes => exact (refines.precedes found).imp Precedes.ne
  refine (Multiset.Nodup.ext (Multiset.coe_nodup.mpr once) (refines.nodup_nodes (Multiset.filter_le _ _))).mpr ?_
  intro node
  rw [Multiset.mem_coe, refines.mem_getRound, Multiset.mem_map]
  constructor
  · intro mapped
    obtain ⟨author, flag, held⟩ := mapped
    exact ⟨⟨(round, author), (node, flag)⟩, Multiset.mem_filter.mpr ⟨Finmap.mem_lookup_iff.mp held, rfl⟩, rfl⟩
  · intro entered
    obtain ⟨⟨⟨other, author⟩, content⟩, member, rfl⟩ := entered
    obtain ⟨inside, rfl⟩ := Multiset.mem_filter.mp member
    exact ⟨author, content.2, Finmap.mem_lookup_iff.mpr inside⟩

variable [ToString R] [ToString A]

theorem Refines.agrees (refines : Refines authors slots dag) : Agrees authors slots dag := by
  have nodes : ∀ round author, dag.getNode round author = (slots.lookup (round, author)).map Prod.fst := by
    intro round author
    rw [getNode_eq, refines.contents, Option.map_map]
    exact congrArg (Option.map · _) (funext status_node)
  refine ⟨nodes, refines.contents, ?_, refines.addable_iff, refines.markable_iff, refines.getRound_eq, refines.allNodes_eq,
    refines.allNodes_precede.imp Precedes.le, ?_⟩
  · intro round author
    rw [InMemDag.exists, nodes, Option.isSome_map]
    exact Finmap.lookup_isSome
  · rw [← length_allNodes, ← Multiset.coe_card, refines.allNodes_eq, Multiset.card_map]

/-- The store is the finite map that the calls describe, in every state it reaches and
for every author list. -/
theorem dag_refines_map (authors : List A) (calls : List (Call R A M)) :
    Agrees authors (exec (Slots.call authors) ∅ calls) (exec AptosBft.InMemDag.call (InMemDag.new authors) calls) := by
  have refined : Refines authors (exec (Slots.call authors) ∅ calls) (exec AptosBft.InMemDag.call (InMemDag.new authors) calls) := by
    apply exec_related
    · intro slots dag input refines
      exact refines.step input
    · exact Refines.new authors
  exact refined.agrees

end Agreement

/-- An author who is listed twice has an index past the end of a new vector. -/
example :
    let dag : TestDag := ((InMemDag.new [⟨1⟩, ⟨2⟩, ⟨1⟩] : TestDag).addNode (createTestNode 5 1)).2
    (dag.nodesByRound.get 5).map List.length = some 3 ∧ dag.getNode 5 ⟨1⟩ = some (createTestNode 5 1) := by decide

end AptosBft.Proofs.Dag
