import AptosBft.Proofs.Dag

/-! Ordering a slot of the DAG store once. Only the slot itself remembers that it was
ordered, and pruning deletes it. -/

namespace AptosBft.Proofs.DagOrder
open Rust Mealy AptosBft.InMemDag AptosBft.Proofs.Dag

variable {R A M : Type} [LinearOrder R] [DecidableEq A] [CertifiedNode M R A]

abbrev DagEvent (R A M : Type) [LinearOrder R] := Event (InMemDag R A M) (Call R A M) (Except Error Unit)

/-- The round is below the bound of an earlier pruning. -/
def Pruned (past : List (DagEvent R A M)) (round : R) : Prop :=
  ∃ earlier ∈ past, ∃ minRound, earlier.input = .pruneBelow minRound ∧ round < minRound

/-- A node below an earlier bound is turned away, and a slot is marked as ordered once. -/
structure OrderedOnce (past : List (DagEvent R A M)) (current : DagEvent R A M) : Prop where
  late : ∀ node, current.input = .addNode node → Pruned past (CertifiedNode.round node) → ∃ error, current.output = .error error
  once : ∀ round author, current.input = .markOrdered round author → current.output = .ok () →
    ∀ earlier ∈ past, earlier.input = .markOrdered round author → earlier.output ≠ .ok ()

/-- A node of a listed author is not added below an earlier bound. -/
def InTime (authors : List A) (past : List (DagEvent R A M)) (current : DagEvent R A M) : Prop :=
  ∀ node, current.input = .addNode node → Pruned past (CertifiedNode.round node) → CertifiedNode.author node ∉ authors

variable {authors : List A} {past : List (DagEvent R A M)} {dag after : InMemDag R A M} {current : DagEvent R A M}

omit [DecidableEq A] [CertifiedNode M R A] in
theorem pruned_snoc {round : R} : Pruned (past ++ [current]) round ↔
    Pruned past round ∨ ∃ minRound, current.input = .pruneBelow minRound ∧ round < minRound := by
  simp only [Pruned, List.mem_append, List.mem_singleton, or_and_right, exists_or, exists_eq_left]

/-- Nothing is left below a bound, and a slot that was marked is still there unless a
bound passed it. -/
structure Retired (authors : List A) (past : List (DagEvent R A M)) (dag : InMemDag R A M) : Prop where
  index : dag.authorToIndex = (new authors : InMemDag R A M).authorToIndex
  gone : ∀ round, Pruned past round → ∀ place, cell dag round place = none
  marked : ∀ earlier ∈ past, ∀ round author, earlier.input = .markOrdered round author → earlier.output = .ok () →
    Pruned past round ∨
      ∃ place node, dag.authorToIndex.lookup author = some place ∧ cell dag round place = some (.ordered node)

omit [CertifiedNode M R A] in
theorem Retired.new (authors : List A) : Retired authors [] (InMemDag.new authors : InMemDag R A M) := by
  refine ⟨rfl, ?_, ?_⟩
  · intro round pruned
    obtain ⟨_, member, _⟩ := pruned
    cases member
  · intro earlier member
    cases member

omit [CertifiedNode M R A] in
/-- What a call must keep: bounds stay empty and ordered slots stay, unless it prunes them. -/
theorem Retired.next (retired : Retired authors past dag) (index : after.authorToIndex = dag.authorToIndex)
    (gone : ∀ round, Pruned (past ++ [current]) round → ∀ place, cell after round place = none)
    (kept : ∀ round place node, cell dag round place = some (.ordered node) →
      Pruned (past ++ [current]) round ∨ cell after round place = some (.ordered node))
    (marks : ∀ round author, current.input = .markOrdered round author → current.output = .ok () →
      ∃ place node, dag.authorToIndex.lookup author = some place ∧ cell after round place = some (.ordered node)) :
    Retired authors (past ++ [current]) after := by
  refine ⟨index.trans retired.index, gone, ?_⟩
  rw [index]
  intro earlier member round author asked succeeded
  obtain before | here := List.mem_append.mp member
  · obtain below | ⟨place, node, known, ordered⟩ := retired.marked earlier before round author asked succeeded
    · exact Or.inl (pruned_snoc.mpr (Or.inl below))
    · exact (kept round place node ordered).imp id (fun still => ⟨place, node, known, still⟩)
  · rw [List.mem_singleton.mp here] at asked succeeded
    exact Or.inr (marks round author asked succeeded)

omit [CertifiedNode M R A] in
/-- A slot that is filled was not below a bound and was not ordered. -/
theorem Retired.fills (retired : Retired authors past dag) {round : R} {place : Nat} {status : StoredNodeStatus M}
    (fills : Fills dag after round place status) (quiet : ∀ minRound, current.input ≠ .pruneBelow minRound)
    (unpruned : ¬Pruned past round) (unmarked : ∀ node, cell dag round place ≠ some (.ordered node))
    (marks : ∀ other author, current.input = .markOrdered other author → current.output = .ok () →
      ∃ place node, dag.authorToIndex.lookup author = some place ∧ cell after other place = some (.ordered node)) :
    Retired authors (past ++ [current]) after := by
  refine retired.next fills.index ?_ ?_ marks
  · intro other below position
    obtain below | ⟨minRound, asked, _⟩ := pruned_snoc.mp below
    · rw [fills.elsewhere other position (fun here => unpruned (here.1 ▸ below))]
      exact retired.gone other below position
    · exact absurd asked (quiet minRound)
  · intro other position node ordered
    apply Or.inr
    rw [fills.elsewhere other position (fun here => unmarked node (here.1 ▸ here.2 ▸ ordered))]
    exact ordered

omit [CertifiedNode M R A] in
theorem Retired.same (retired : Retired authors past dag) (same : Same dag after)
    (quiet : ∀ minRound, current.input ≠ .pruneBelow minRound)
    (unmarked : ∀ round author, current.input = .markOrdered round author → current.output ≠ .ok ()) :
    Retired authors (past ++ [current]) after := by
  refine retired.next same.index ?_ ?_ ?_
  · intro round below place
    rw [same.cells]
    obtain below | ⟨minRound, asked, _⟩ := pruned_snoc.mp below
    · exact retired.gone round below place
    · exact absurd asked (quiet minRound)
  · intro round place node ordered
    rw [same.cells]
    exact Or.inr ordered
  · intro round author asked succeeded
    exact absurd succeeded (unmarked round author asked)

variable [ToString R] [ToString A]

theorem Retired.step (retired : Retired authors past dag) {input : Call R A M} (keeps : input ≠ .clear)
    (late : ∀ node, input = .addNode node → Pruned past (CertifiedNode.round node) →
      ∃ error, (AptosBft.InMemDag.call dag input).1 = .error error) :
    Retired authors (past ++ [event AptosBft.InMemDag.call dag input]) (AptosBft.InMemDag.call dag input).2 := by
  have moves := call_moves dag input
  have asked : (event AptosBft.InMemDag.call dag input).input = input := rfl
  have answered : (event AptosBft.InMemDag.call dag input).output = (AptosBft.InMemDag.call dag input).1 := rfl
  generalize event AptosBft.InMemDag.call dag input = current at asked answered ⊢
  generalize (AptosBft.InMemDag.call dag input).1 = result at moves late answered
  generalize (AptosBft.InMemDag.call dag input).2 = after at moves ⊢
  cases moves with
  | added known free fills =>
    refine retired.fills fills (by simp [asked]) ?_ (by simp [free]) (by simp [asked])
    intro below
    obtain ⟨_, failed⟩ := late _ rfl below
    cases failed
  | rejected taken same => exact retired.same same (by simp [asked]) (by simp [asked])
  | marked known waiting fills =>
    refine retired.fills fills (by simp [asked]) ?_ (by simp [waiting]) ?_
    · intro below
      rw [retired.gone _ below] at waiting
      cases waiting
    · intro other author same _
      cases asked.symm.trans same
      exact ⟨_, _, known, fills.here⟩
  | refused settled same => exact retired.same same (by simp [asked]) (by simp [answered])
  | @pruned minRound _ index cells =>
    refine retired.next index ?_ ?_ (by simp [asked])
    · intro round below place
      rw [cells]
      split
      · rfl
      next above =>
        obtain below | ⟨bound, same, below⟩ := pruned_snoc.mp below
        · exact retired.gone round below place
        · cases asked.symm.trans same
          exact absurd below above
    · intro round place node ordered
      rw [cells]
      split
      next below => exact Or.inl (pruned_snoc.mpr (Or.inr ⟨minRound, asked, below⟩))
      next => exact Or.inr ordered
  | cleared index cells => exact absurd rfl keeps

/-- A late node is turned away exactly if its author is not listed. -/
theorem Retired.late_iff (retired : Retired authors past dag) {node : M} (below : Pruned past (CertifiedNode.round node)) :
    (∃ error, (dag.addNode node).1 = .error error) ↔ CertifiedNode.author node ∉ authors := by
  have moves := addNode_moves dag node
  rw [← known_iff (R := R) (M := M) authors, ← retired.index]
  generalize (dag.addNode node).1 = result at moves ⊢
  generalize (dag.addNode node).2 = after at moves
  cases moves with
  | added known free fills => exact iff_of_false (by simp) (fun unknown => unknown ⟨_, known⟩)
  | rejected taken same =>
    apply iff_of_true ⟨_, rfl⟩
    intro listed
    obtain ⟨place, known⟩ := listed
    have held := taken place known
    rw [retired.gone _ below] at held
    cases held

/-- A slot that can be marked was never marked. -/
theorem Retired.unmarked (retired : Retired authors past dag) {round : R} {author : A}
    (marks : (dag.markOrdered round author).1 = .ok ()) {earlier : DagEvent R A M} (member : earlier ∈ past)
    (asked : earlier.input = .markOrdered round author) : earlier.output ≠ .ok () := by
  intro succeeded
  have moves := markOrdered_moves dag round author
  rw [marks] at moves
  generalize (dag.markOrdered round author).2 = after at moves
  cases moves with
  | marked known waiting fills =>
    obtain below | ⟨place, node, again, ordered⟩ := retired.marked earlier member round author asked succeeded
    · rw [retired.gone round below] at waiting
      cases waiting
    · cases known.symm.trans again
      cases waiting.symm.trans ordered

/-- A run marks each slot at most once and turns late nodes away exactly if no node of a
listed author is added below an earlier bound. -/
theorem ordered_once_iff (authors : List A) {calls : List (Call R A M)} (keeps : ∀ input ∈ calls, input ≠ .clear) :
    Meets AptosBft.InMemDag.call OrderedOnce (InMemDag.new authors) calls ↔
      Meets AptosBft.InMemDag.call (InTime authors) (InMemDag.new authors) calls := by
  have cleared : Meets AptosBft.InMemDag.call (fun _ (current : DagEvent R A M) => current.input ≠ .clear)
      (InMemDag.new authors) calls := meets_of_forall keeps
  constructor
  · intro once
    refine (once.and cleared).derive (motive := Retired authors) (Retired.new authors) ?_ ?_
    · intro past dag input retired both
      exact retired.step both.2 both.1.late
    · intro past dag input retired both node asked below
      cases asked
      exact (retired.late_iff below).mp (both.1.late node rfl below)
  · intro inTime
    have turned : ∀ {past : List (DagEvent R A M)} {dag : InMemDag R A M} {input : Call R A M}, Retired authors past dag →
        InTime authors past (event AptosBft.InMemDag.call dag input) → ∀ node, input = .addNode node →
        Pruned past (CertifiedNode.round node) → ∃ error, (AptosBft.InMemDag.call dag input).1 = .error error := by
      intro past dag input retired timely node asked below
      subst asked
      exact (retired.late_iff below).mpr (timely node rfl below)
    refine (inTime.and cleared).derive (motive := Retired authors) (Retired.new authors) ?_ ?_
    · intro past dag input retired both
      exact retired.step both.2 (turned retired both.1)
    · intro past dag input retired both
      refine ⟨turned retired both.1, ?_⟩
      intro round author asked succeeded earlier member before
      cases asked
      exact retired.unmarked succeeded member before

/-- A slot is ordered, pruned, and the next round is filled and ordered. -/
theorem next_round_ordered_once :
    let calls : List (Call U64 TestAuthor TestCertifiedNode) := [.addNode (createTestNode 1 1), .markOrdered 1 ⟨1⟩,
      .pruneBelow 2, .addNode (createTestNode 2 1), .markOrdered 2 ⟨1⟩]
    let start : TestDag := .new [⟨1⟩, ⟨2⟩, ⟨3⟩]
    (trace AptosBft.InMemDag.call start calls).map Event.output = List.replicate 5 (.ok ()) ∧
      Meets AptosBft.InMemDag.call OrderedOnce start calls := by
  intro calls start
  refine ⟨by decide, (ordered_once_iff _ (by decide)).mpr ?_⟩
  change Meets _ _ start ((((([] ++ [_]) ++ [_]) ++ [_]) ++ [_]) ++ [_])
  simp only [meets_snoc, meets_nil, true_and]
  refine ⟨⟨⟨⟨?_, ?_⟩, ?_⟩, ?_⟩, ?_⟩
  · intro _ _ pruned
    obtain ⟨_, member, _⟩ := pruned
    cases member
  · intro _ asked
    cases asked
  · intro _ asked
    cases asked
  · intro node asked below
    obtain ⟨earlier, member, minRound, pruned, below⟩ := below
    cases asked
    simp only [List.nil_append, List.cons_append, trace_cons, trace_nil, List.mem_cons, List.not_mem_nil, or_false] at member
    obtain rfl | rfl | rfl := member
    · cases pruned
    · cases pruned
    · cases pruned
      exact absurd below (lt_irrefl 2)
  · intro _ asked
    cases asked

/-- A slot is ordered and pruned. The node comes again, is taken again and is ordered
again. -/
theorem late_node_ordered_again :
    let calls : List (Call U64 TestAuthor TestCertifiedNode) := [.addNode (createTestNode 1 1), .markOrdered 1 ⟨1⟩,
      .pruneBelow 2, .addNode (createTestNode 1 1), .markOrdered 1 ⟨1⟩]
    let start : TestDag := .new [⟨1⟩, ⟨2⟩, ⟨3⟩]
    (trace AptosBft.InMemDag.call start calls).map Event.output = List.replicate 5 (.ok ()) ∧
      ¬ Meets AptosBft.InMemDag.call OrderedOnce start calls := by
  intro calls start
  refine ⟨by decide, ?_⟩
  intro once
  have last := once (trace AptosBft.InMemDag.call start (calls.take 4)) _ [] rfl
  exact last.once 1 ⟨1⟩ rfl (by decide) (event AptosBft.InMemDag.call (exec AptosBft.InMemDag.call start (calls.take 1))
    (.markOrdered 1 ⟨1⟩)) (List.mem_cons_of_mem _ List.mem_cons_self) rfl (by decide)

end AptosBft.Proofs.DagOrder
