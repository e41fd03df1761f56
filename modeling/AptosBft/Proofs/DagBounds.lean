import AptosBft.Proofs.Dag

/-! The rounds at the ends of the DAG store. They are read off the keys of the map, so a
round without a node must never be left in it. -/

namespace AptosBft.Proofs.DagBounds
open Rust Mealy AptosBft.InMemDag AptosBft.Proofs.Dag

variable {R A M : Type} [LinearOrder R] [DecidableEq A]

/-- Every round in the map has a node. -/
def Occupied (dag : InMemDag R A M) : Prop := ∀ round ∈ dag.nodesByRound.keys, ∃ place, (cell dag round place).isSome

theorem Occupied.new (authors : List A) : Occupied (InMemDag.new authors : InMemDag R A M) := by
  intro round member
  cases member

omit [DecidableEq A] in
/-- A round that comes into the map comes with a node, and no node goes. -/
theorem Occupied.grow {dag after : InMemDag R A M} (occupied : Occupied dag)
    (kept : ∀ round place, (cell dag round place).isSome → (cell after round place).isSome)
    (keys : ∀ round ∈ after.nodesByRound.keys, round ∈ dag.nodesByRound.keys ∨ ∃ place, (cell after round place).isSome) :
    Occupied after := by
  intro round member
  obtain before | here := keys round member
  · obtain ⟨place, held⟩ := occupied round before
    exact ⟨place, kept round place held⟩
  · exact here

omit [DecidableEq A] in
theorem Same.keeps {dag after : InMemDag R A M} (same : Same dag after) (round : R) (place : Nat)
    (held : (cell dag round place).isSome) : (cell after round place).isSome := by
  rw [same.cells]
  exact held

omit [DecidableEq A] in
theorem Fills.keeps {dag after : InMemDag R A M} {here : R} {slot : Nat} {status : StoredNodeStatus M}
    (fills : Fills dag after here slot status) (round : R) (place : Nat) (held : (cell dag round place).isSome) :
    (cell after round place).isSome := by
  by_cases own : round = here ∧ place = slot
  · obtain ⟨rfl, rfl⟩ := own
    rw [fills.here]
    rfl
  · rw [fills.elsewhere round place own]
    exact held

variable [CertifiedNode M R A] [ToString R] [ToString A]

theorem addNode_keys (dag : InMemDag R A M) (node : M) (round : R) (member : round ∈ (dag.addNode node).2.nodesByRound.keys) :
    round ∈ dag.nodesByRound.keys ∨
      round = CertifiedNode.round node ∧ ∃ place, dag.authorToIndex.lookup (CertifiedNode.author node) = some place := by
  simp only [addNode] at member
  split at member
  next => exact Or.inl member
  next place known =>
    have inserted : round = CertifiedNode.round node ∨ round ∈ dag.nodesByRound.keys := by
      split at member
      · exact BTreeMap.mem_keys_insert.mp member
      · exact BTreeMap.mem_keys_insert.mp member
    obtain here | before := inserted
    · exact Or.inr ⟨here, place, known⟩
    · exact Or.inl before

omit [CertifiedNode M R A] in
theorem markOrdered_keys (dag : InMemDag R A M) (round : R) (author : A) (other : R)
    (member : other ∈ (dag.markOrdered round author).2.nodesByRound.keys) : other ∈ dag.nodesByRound.keys := by
  simp only [markOrdered] at member
  split at member
  · exact member
  split at member
  · exact member
  next roundNodes found =>
    split at member
    · exact member
    · exact member
    · obtain rfl | before := BTreeMap.mem_keys_insert.mp member
      · exact BTreeMap.mem_keys.mpr ⟨roundNodes, found⟩
      · exact before

theorem Occupied.addNode {dag : InMemDag R A M} (occupied : Occupied dag) (node : M) : Occupied (dag.addNode node).2 := by
  have keys := addNode_keys dag node
  have moves := addNode_moves dag node
  generalize (dag.addNode node).1 = result at moves
  generalize (dag.addNode node).2 = after at moves keys ⊢
  cases moves with
  | @added _ place _ known free fills =>
    refine occupied.grow (Fills.keeps fills) ?_
    intro round member
    obtain before | ⟨rfl, _⟩ := keys round member
    · exact Or.inl before
    · refine Or.inr ⟨place, ?_⟩
      rw [fills.here]
      rfl
  | rejected taken same =>
    refine occupied.grow (Same.keeps same) ?_
    intro round member
    obtain before | ⟨rfl, place, known⟩ := keys round member
    · exact Or.inl before
    · exact Or.inr ⟨place, Same.keeps same _ place (taken place known)⟩

theorem Occupied.markOrdered {dag : InMemDag R A M} (occupied : Occupied dag) (round : R) (author : A) :
    Occupied (dag.markOrdered round author).2 := by
  have keys := markOrdered_keys dag round author
  have moves := markOrdered_moves dag round author
  generalize (dag.markOrdered round author).1 = result at moves
  generalize (dag.markOrdered round author).2 = after at moves keys ⊢
  cases moves with
  | marked known waiting fills => exact occupied.grow (Fills.keeps fills) fun other member => Or.inl (keys other member)
  | refused settled same => exact occupied.grow (Same.keeps same) fun other member => Or.inl (keys other member)

omit [CertifiedNode M R A] [ToString R] [ToString A] [DecidableEq A] in
theorem Occupied.pruneBelow {dag : InMemDag R A M} (occupied : Occupied dag) (minRound : R) : Occupied (dag.pruneBelow minRound) := by
  intro round member
  obtain ⟨above, before⟩ := BTreeMap.mem_keys_splitOff.mp member
  obtain ⟨place, held⟩ := occupied round before
  refine ⟨place, ?_⟩
  rw [cell] at held ⊢
  rwa [InMemDag.pruneBelow, BTreeMap.get_splitOff, if_neg (not_lt.mpr above)]

theorem Occupied.step {dag : InMemDag R A M} (occupied : Occupied dag) (input : Call R A M) : Occupied (call dag input).2 := by
  cases input with
  | addNode node => exact occupied.addNode node
  | markOrdered round author => exact occupied.markOrdered round author
  | pruneBelow minRound => exact occupied.pruneBelow minRound
  | clear =>
    intro round member
    cases member

/-- The rounds with a node. -/
def stored (dag : InMemDag R A M) : Set R := {round | ∃ author, dag.exists round author = true}

omit [CertifiedNode M R A] [ToString R] [ToString A] in
theorem exists_iff_cell (dag : InMemDag R A M) (round : R) (author : A) :
    dag.exists round author = true ↔ ∃ place, dag.authorToIndex.lookup author = some place ∧ (cell dag round place).isSome := by
  rw [InMemDag.exists, getNode_eq, Option.isSome_map, getNodeStatus_eq]
  cases dag.authorToIndex.lookup author with
  | none => simp
  | some place => simp

omit [ToString R] [ToString A] in
/-- In a store whose nodes lie in their places, the rounds of the map are the rounds with a
node. -/
theorem Occupied.stored_eq {authors : List A} {slots : Slots R A M} {dag : InMemDag R A M} (occupied : Occupied dag)
    (refines : Refines authors slots dag) : stored dag = {round | round ∈ dag.nodesByRound.keys} := by
  ext round
  constructor
  · intro held
    obtain ⟨author, present⟩ := held
    obtain ⟨place, _, found⟩ := (exists_iff_cell dag round author).mp present
    rw [cell] at found
    cases vector : dag.nodesByRound.get round with
    | none =>
      rw [vector] at found
      cases found
    | some roundNodes => exact BTreeMap.mem_keys.mpr ⟨roundNodes, vector⟩
  · intro member
    obtain ⟨place, found⟩ := occupied round member
    obtain ⟨status, held⟩ := Option.isSome_iff_exists.mp found
    have index := (refines.placed round place status held).2
    exact ⟨_, (exists_iff_cell dag round _).mpr ⟨place, index, found⟩⟩

/-- The invariants of a store that a run has made. -/
theorem occupied_run (authors : List A) (calls : List (Call R A M)) :
    Occupied (exec call (InMemDag.new authors) calls) ∧
      ∃ slots, Refines authors slots (exec call (InMemDag.new authors) calls) := by
  refine history call (InMemDag.new authors) calls
    (motive := fun _ dag => Occupied dag ∧ ∃ slots, Refines authors slots dag) ⟨.new authors, ∅, .new authors⟩ ?_
  intro _ dag input holds
  obtain ⟨occupied, slots, refines⟩ := holds
  exact ⟨occupied.step input, _, refines.step input⟩

omit [ToString R] [ToString A] in
/-- The index names every author of the list once. -/
theorem Refines.authors_perm {authors : List A} {slots : Slots R A M} {dag : InMemDag R A M}
    (refines : Refines authors slots dag) (order : Order A) : (dag.authors order).Perm authors.dedup := by
  refine (order.perm _).trans ((List.perm_ext_iff_of_nodup dag.authorToIndex.nodupKeys authors.nodup_dedup).mpr ?_)
  intro author
  rw [List.mem_dedup, ← refines.known_iff, ← Option.isSome_iff_exists, AList.lookup_isSome]
  exact AList.mem_keys.symm

variable [Inhabited R]

omit [ToString R] [ToString A] in
theorem Occupied.ends {authors : List A} {slots : Slots R A M} {dag : InMemDag R A M} (occupied : Occupied dag)
    (refines : Refines authors slots dag) :
    ((stored dag).Nonempty → IsLeast (stored dag) dag.lowestRound ∧ IsGreatest (stored dag) dag.highestRound) ∧
    (stored dag = ∅ → dag.lowestRound = default ∧ dag.highestRound = default) := by
  rw [occupied.stored_eq refines, lowestRound, highestRound]
  constructor
  · intro nonempty
    obtain ⟨round, member⟩ := nonempty
    have filled : dag.nodesByRound.keys ≠ [] := List.ne_nil_of_mem member
    have first := List.head?_eq_some_head filled
    have last := List.getLast?_eq_some_getLast filled
    rw [first, last]
    exact ⟨BTreeMap.isLeast_head first, BTreeMap.isGreatest_getLast last⟩
  · intro nothing
    have empty : dag.nodesByRound.keys = [] :=
      List.eq_nil_iff_forall_not_mem.mpr (Set.eq_empty_iff_forall_notMem.mp nothing)
    rw [empty]
    exact ⟨rfl, rfl⟩

/-- In every state a store reaches, the lowest and the highest round are the least and the
greatest round with a node, pruning leaves the least one that is not below its bound, and
the authors are those of the list, each once. -/
theorem dag_ends (authors : List A) (calls : List (Call R A M)) :
    let dag : InMemDag R A M := exec call (InMemDag.new authors) calls
    ((stored dag).Nonempty → IsLeast (stored dag) dag.lowestRound ∧ IsGreatest (stored dag) dag.highestRound) ∧
    (stored dag = ∅ → dag.lowestRound = default ∧ dag.highestRound = default) ∧
    (∀ minRound, {round ∈ stored dag | minRound ≤ round}.Nonempty →
      IsLeast {round ∈ stored dag | minRound ≤ round} (dag.pruneBelow minRound).lowestRound) ∧
    (∀ order, (dag.authors order).Perm authors.dedup) ∧ dag.numAuthors = authors.dedup.length := by
  intro dag
  obtain ⟨occupied, slots, refines⟩ := occupied_run authors calls
  obtain ⟨ends, empty⟩ := occupied.ends refines
  have named := Refines.authors_perm refines
  have counted : (dag.authors .insertion).length = dag.numAuthors := List.length_map ..
  refine ⟨ends, empty, ?_, named, counted.symm.trans (named .insertion).length_eq⟩
  intro minRound nonempty
  have pruned := refines.step (.pruneBelow minRound)
  have kept : stored (dag.pruneBelow minRound) = {round ∈ stored dag | minRound ≤ round} := by
    rw [(occupied.pruneBelow minRound).stored_eq pruned, occupied.stored_eq refines]
    ext round
    change round ∈ (dag.nodesByRound.splitOff minRound).keys ↔ _
    rw [BTreeMap.mem_keys_splitOff, and_comm]
    rfl
  rw [← kept] at nonempty ⊢
  exact (((occupied.pruneBelow minRound).ends pruned).1 nonempty).1

end AptosBft.Proofs.DagBounds
