import AptosBft.Proofs.Dag

/-! Calls on different slots of the DAG store. A round is one vector, made by the first node
of the round and lengthened on demand, so two calls on one round touch the same data; they
commute all the same, down to the lengths of the vectors. -/

namespace AptosBft.Proofs.DagReorder
open Rust Mealy AptosBft.InMemDag AptosBft.Proofs.Dag

section Vectors
variable {α : Type}

/-- A vector with room for a place. -/
def extended (place : Nat) (cells : List (Option α)) : List (Option α) :=
  if cells.length ≤ place then cells.takeD (place + 1) none else cells

theorem getElem?_extended (place position : Nat) (cells : List (Option α)) : (extended place cells)[position]? =
    if position ≤ place ∨ position < cells.length then some cells[position]?.join else none := by
  rw [extended]
  split
  next short =>
    rw [getElem?_takeD]
    by_cases inside : position ≤ place
    · rw [if_pos (by omega), if_pos (Or.inl inside)]
      cases cells[position]? <;> rfl
    · rw [if_neg (by omega), if_neg (by omega)]
  next long =>
    by_cases inside : position < cells.length
    · rw [if_pos (Or.inr inside), List.getElem?_eq_getElem inside]
      rfl
    · rw [if_neg (by omega), List.getElem?_eq_none (by omega)]

theorem length_extended (place : Nat) (cells : List (Option α)) : (extended place cells).length = max (place + 1) cells.length := by
  rw [extended]
  split
  · rw [List.takeD_length]
    omega
  · omega

theorem getElem?_extended_twice (place other position : Nat) (cells : List (Option α)) :
    (extended place (extended other cells))[position]? =
      if position ≤ place ∨ position ≤ other ∨ position < cells.length then some cells[position]?.join else none := by
  rw [getElem?_extended, length_extended, getElem?_extended]
  by_cases inside : position ≤ place ∨ position < max (other + 1) cells.length
  · have within : position ≤ place ∨ position ≤ other ∨ position < cells.length := by omega
    rw [if_pos inside, if_pos within]
    split
    next => rfl
    next outside => rw [List.getElem?_eq_none (by omega)]
  · have beyond : ¬(position ≤ place ∨ position ≤ other ∨ position < cells.length) := by omega
    rw [if_neg inside, if_neg beyond]

theorem extended_comm (place other : Nat) (cells : List (Option α)) :
    extended place (extended other cells) = extended other (extended place cells) := by
  refine List.ext_getElem? ?_
  intro position
  rw [getElem?_extended_twice, getElem?_extended_twice]
  simp only [or_left_comm]

theorem extended_modify {place other : Nat} {cells : List (Option α)} {change : Option α → Option α}
    (kept : other < cells.length ∨ change none = none) :
    extended place (cells.modify other change) = (extended place cells).modify other change := by
  refine List.ext_getElem? ?_
  intro position
  simp only [getElem?_extended, List.getElem?_modify, List.length_modify, Option.map_eq_map]
  split
  next inside =>
    by_cases same : other = position
    · subst same
      rw [Option.map_some, if_pos rfl]
      simp only [if_pos]
      by_cases room : other < cells.length
      · rw [List.getElem?_eq_getElem room]
        rfl
      · rw [List.getElem?_eq_none (by omega)]
        exact congrArg some (kept.resolve_left room).symm
    · simp only [if_neg same, Option.map_id', Option.map_some]
  next => rfl

theorem modify_found {place : Nat} {cells : List (Option α)} {change : Option α → Option α} {held content : Option α}
    (found : cells[place]? = some held) (changed : change held = content) : cells.modify place change = cells.set place content := by
  rw [List.modify_eq_set, found, ← changed]
  rfl

theorem set_found {place : Nat} {cells : List (Option α)} {held : Option α} (found : cells[place]? = some held) :
    cells.set place held = cells := by
  obtain ⟨_, here⟩ := List.getElem?_eq_some_iff.mp found
  rw [← here, List.set_getElem_self]

/-- What a call does to the vector of its round. -/
inductive Edit (α : Type) where
  | fill (content : α)
  | change (update : α → α)

namespace Edit

def cell : Edit α → Option α → Option α
  | .fill content, held => some (held.getD content)
  | .change update, held => held.map update

def apply (size place : Nat) (edit : Edit α) (cells : Option (List (Option α))) : Option (List (Option α)) :=
  match edit with
  | .fill _ => some ((extended place (cells.getD (.replicate size none))).modify place edit.cell)
  | .change _ => cells.map fun cells => cells.modify place edit.cell

/-- A change finds nothing to change in a new vector. -/
theorem modify_blank (size place other : Nat) (update : α → α) :
    (extended place (.replicate size none)).modify other (cell (.change update)) = extended place (.replicate size none) := by
  refine List.ext_getElem? ?_
  intro position
  have nothing : (List.replicate size (none : Option α))[position]?.join = none := by
    rw [List.getElem?_replicate]
    split <;> rfl
  rw [List.getElem?_modify, getElem?_extended, nothing]
  split <;> split <;> rfl

theorem fill_change (size : Nat) {place other : Nat} (different : place ≠ other) (content : α) (update : α → α)
    (cells : Option (List (Option α))) :
    (fill content).apply size place ((change update).apply size other cells) =
      (change update).apply size other ((fill content).apply size place cells) := by
  simp only [apply, Option.map_some, Option.some.injEq]
  cases cells with
  | none =>
    rw [Option.map_none, Option.getD_none, List.modify_modify_ne _ _ _ different, modify_blank]
  | some cells =>
    rw [Option.map_some, Option.getD_some, Option.getD_some, extended_modify (Or.inr rfl), List.modify_modify_ne _ _ _ different]

theorem apply_comm (size : Nat) {place other : Nat} (different : place ≠ other) (first second : Edit α)
    (cells : Option (List (Option α))) :
    first.apply size place (second.apply size other cells) = second.apply size other (first.apply size place cells) := by
  cases first with
  | fill content =>
    cases second with
    | fill next =>
      have fits : ∀ (here : Nat) (cells : List (Option α)), here < (extended here cells).length := by
        intro here cells
        rw [length_extended]
        omega
      simp only [apply, Option.getD_some, Option.some.injEq]
      rw [extended_modify (Or.inl (fits _ _)), extended_modify (Or.inl (fits _ _)), extended_comm,
        List.modify_modify_ne _ _ _ different]
    | change update => exact fill_change size different content update cells
  | change update =>
    cases second with
    | fill content => exact (fill_change size different.symm content update cells).symm
    | change next =>
      cases cells with
      | none => rfl
      | some cells => exact congrArg some (List.modify_modify_ne _ _ _ different.symm)

end Edit
end Vectors

variable {R A M : Type} [LinearOrder R] [DecidableEq A]

section Edits

/-- Exactly one vector is edited, at one place. -/
structure Edits (before after : InMemDag R A M) (round : R) (place : Nat) (edit : Edit (StoredNodeStatus M)) : Prop where
  index : after.authorToIndex = before.authorToIndex
  rounds : ∀ other, after.nodesByRound.get other =
    if other = round then edit.apply before.authorToIndex.len place (before.nodesByRound.get round)
    else before.nodesByRound.get other

variable {dag left right first second : InMemDag R A M} {round other : R} {place slot : Nat} {edit next : Edit (StoredNodeStatus M)}

omit [DecidableEq A] in
/-- Edits of different places end in the same store, whichever comes first. -/
theorem Edits.commute (one : Edits dag left round place edit) (two : Edits left first other slot next)
    (three : Edits dag right other slot next) (four : Edits right second round place edit)
    (different : ¬(round = other ∧ place = slot)) : first = second := by
  have index : first.authorToIndex = second.authorToIndex := by
    rw [two.index, one.index, four.index, three.index]
  have rounds : first.nodesByRound = second.nodesByRound := by
    apply BTreeMap.ext_get
    intro key
    rw [two.rounds, four.rounds, one.rounds, one.rounds, three.rounds, three.rounds, one.index, three.index]
    by_cases same : round = other
    · subst same
      split
      next =>
        rw [if_pos rfl, if_pos rfl]
        exact Edit.apply_comm _ (fun same => different ⟨rfl, same.symm⟩) _ _ _
      next => rfl
    · by_cases here : key = round
      · subst here
        rw [if_neg same, if_pos rfl, if_pos rfl, if_neg same]
      · rw [if_neg here, if_neg here, if_neg (Ne.symm same)]
  cases first
  cases second
  cases index
  cases rounds
  rfl

end Edits

section Calls
variable [CertifiedNode M R A] [ToString R] [ToString A]

/-- The slot a call is about. -/
def slotOf : Call R A M → Option (R × A)
  | .addNode node => some (CertifiedNode.round node, CertifiedNode.author node)
  | .markOrdered round author => some (round, author)
  | .pruneBelow _ => none
  | .clear => none

def editOf : Call R A M → Edit (StoredNodeStatus M)
  | .addNode node => .fill (.unordered node 0)
  | _ => .change fun status => .ordered status.asNode

theorem addNode_edits (dag : InMemDag R A M) (node : M) {place : Nat}
    (known : dag.authorToIndex.lookup (CertifiedNode.author node) = some place) :
    Edits dag (dag.addNode node).2 (CertifiedNode.round node) place (.fill (.unordered node 0)) := by
  have filled : (dag.addNode node).2 = rewrite dag (CertifiedNode.round node)
      ((prepared dag (CertifiedNode.round node) place).modify place (Edit.cell (.fill (.unordered node 0)))) := by
    obtain ⟨held, found⟩ : ∃ held, (prepared dag (CertifiedNode.round node) place)[place]? = some held :=
      ⟨_, List.getElem?_eq_getElem (prepared_room dag (CertifiedNode.round node) place)⟩
    cases held with
    | none =>
      rw [modify_found found rfl]
      simp only [prepared] at found
      simp only [addNode, known, found]
      rfl
    | some status =>
      have kept := (modify_found found (rfl : Edit.cell (.fill (.unordered node 0)) (some status) = some status)).trans (set_found found)
      rw [kept]
      simp only [prepared] at found
      simp only [addNode, known, found]
      rfl
  rw [filled]
  exact ⟨rfl, fun other => BTreeMap.get_insert _ _ other _⟩

omit [CertifiedNode M R A] in
theorem markOrdered_edits (dag : InMemDag R A M) (round : R) {author : A} {place : Nat}
    (known : dag.authorToIndex.lookup author = some place) :
    Edits dag (dag.markOrdered round author).2 round place (.change fun status => .ordered status.asNode) := by
  -- a vector that the change leaves as it is
  have untouched : ∀ cells, dag.nodesByRound.get round = cells →
      (Edit.change fun status : StoredNodeStatus M => .ordered status.asNode).apply dag.authorToIndex.len place cells = cells →
      Edits dag dag round place (.change fun status => .ordered status.asNode) := by
    intro cells stored same
    refine ⟨rfl, ?_⟩
    intro other
    split
    next here => rw [here, stored, same]
    next => rfl
  simp only [markOrdered, known]
  cases stored : dag.nodesByRound.get round with
  | none => exact untouched none stored rfl
  | some roundNodes =>
    cases found : roundNodes[place]? with
    | none =>
      simp only [found]
      refine untouched _ stored (congrArg some ?_)
      exact List.modify_eq_self (List.getElem?_eq_none_iff.mp found)
    | some held =>
      cases held with
      | none =>
        simp only [found]
        exact untouched _ stored (congrArg some ((modify_found found rfl).trans (set_found found)))
      | some status =>
        simp only [found]
        have marked : status.markAsOrdered.2 = .ordered status.asNode := by
          cases status <;> rfl
        refine ⟨rfl, ?_⟩
        intro other
        rw [BTreeMap.get_insert, stored]
        split
        next => exact congrArg some (modify_found found (congrArg some marked.symm)).symm
        next => rfl

/-- A call on a slot of a known author edits that place, and one of an unknown author does
nothing. -/
theorem call_edits (dag : InMemDag R A M) {input : Call R A M} {round : R} {author : A} (about : slotOf input = some (round, author)) :
    (dag.authorToIndex.lookup author = none → (call dag input).2 = dag) ∧
    ∀ place, dag.authorToIndex.lookup author = some place → Edits dag (call dag input).2 round place (editOf input) := by
  cases input with
  | addNode node =>
    cases about
    refine ⟨?_, fun place known => addNode_edits dag node known⟩
    intro unknown
    simp only [call, addNode, unknown]
  | markOrdered round author =>
    cases about
    refine ⟨?_, fun place known => markOrdered_edits dag round known⟩
    intro unknown
    simp only [call, markOrdered, unknown]
  | pruneBelow minRound => cases about
  | clear => cases about

theorem call_index (dag : InMemDag R A M) (input : Call R A M) : (call dag input).2.authorToIndex = dag.authorToIndex := by
  have moves := call_moves dag input
  generalize call dag input = answer at moves ⊢
  obtain ⟨reply, after⟩ := answer
  cases moves with
  | added _ _ fills => exact fills.index
  | rejected _ same => exact same.index
  | marked _ _ fills => exact fills.index
  | refused _ same => exact same.index
  | pruned index => exact index
  | cleared index => exact index

/-- The store has the index of an author list. -/
def Indexed (authors : List A) (dag : InMemDag R A M) : Prop := dag.authorToIndex = (new authors : InMemDag R A M).authorToIndex

variable {authors : List A} {dag : InMemDag R A M}

theorem Indexed.next (indexed : Indexed authors dag) (input : Call R A M) : Indexed authors (call dag input).2 :=
  (call_index dag input).trans indexed

theorem Indexed.run (indexed : Indexed authors dag) (inputs : List (Call R A M)) : Indexed authors (exec call dag inputs) := by
  induction inputs generalizing dag with
  | nil => exact indexed
  | cons input rest ih => exact ih (indexed.next input)

theorem Indexed.commute (indexed : Indexed authors dag) {first second : Call R A M} {slot other : R × A}
    (about : slotOf first = some slot) (next : slotOf second = some other) (different : slot ≠ other) :
    (call (call dag first).2 second).2 = (call (call dag second).2 first).2 := by
  obtain ⟨round, author⟩ := slot
  obtain ⟨later, writer⟩ := other
  have one := call_edits dag about
  have two := call_edits (call dag first).2 next
  have three := call_edits dag next
  have four := call_edits (call dag second).2 about
  rw [call_index] at two four
  cases known : dag.authorToIndex.lookup author with
  | none => rw [one.1 known, four.1 known]
  | some place =>
    cases listed : dag.authorToIndex.lookup writer with
    | none => rw [two.1 listed, three.1 listed]
    | some spot =>
      apply (one.2 place known).commute (two.2 spot listed) (three.2 spot listed) (four.2 place known)
      intro same
      obtain ⟨rfl, rfl⟩ := same
      rw [indexed] at known listed
      exact different (congrArg (Prod.mk round) (same_author known listed))

/-- Whether a call goes through. -/
def Succeeds (dag : InMemDag R A M) (input : Call R A M) : Prop := (call dag input).1 = .ok ()

/-- What another slot holds has no part in the answer. -/
theorem succeeds_congr {left right : InMemDag R A M} {input : Call R A M} {round : R} {author : A}
    (about : slotOf input = some (round, author)) (index : left.authorToIndex = right.authorToIndex)
    (here : ∀ place, left.authorToIndex.lookup author = some place → cell left round place = cell right round place)
    (succeeds : Succeeds left input) : Succeeds right input := by
  have moves := call_moves left input
  rw [show (call left input).1 = .ok () from succeeds] at moves
  have other := call_moves right input
  rw [Succeeds]
  generalize call right input = answer at other ⊢
  obtain ⟨reply, after⟩ := answer
  cases moves with
  | added known free =>
    cases about
    cases other with
    | added => rfl
    | rejected taken =>
      have held := taken _ (index ▸ known)
      rw [← here _ known, free] at held
      cases held
  | marked known waiting =>
    cases about
    cases other with
    | marked => rfl
    | refused settled => exact absurd (here _ known ▸ waiting) (settled _ _ _ (index ▸ known))
  | pruned => cases about
  | cleared => cases about

/-- A call leaves the other slots alone. -/
theorem Indexed.elsewhere (indexed : Indexed authors dag) {input : Call R A M} {slot : R × A} {round : R} {author : A} {place : Nat}
    (about : slotOf input = some slot) (different : slot ≠ (round, author))
    (known : dag.authorToIndex.lookup author = some place) : cell (call dag input).2 round place = cell dag round place := by
  have moves := call_moves dag input
  generalize call dag input = answer at moves ⊢
  obtain ⟨reply, after⟩ := answer
  -- a place that is filled belongs to the author of the call
  have apart : ∀ {later writer spot}, slot = (later, writer) → dag.authorToIndex.lookup writer = some spot →
      ¬(round = later ∧ place = spot) := by
    intro later writer spot same listed here
    obtain ⟨rfl, rfl⟩ := here
    rw [indexed] at known listed
    rw [same_author listed known] at same
    exact different same
  cases moves with
  | added listed _ fills => exact fills.elsewhere round place (apart (Option.some.inj about).symm listed)
  | rejected _ same => exact same.cells round place
  | marked listed _ fills => exact fills.elsewhere round place (apart (Option.some.inj about).symm listed)
  | refused _ same => exact same.cells round place
  | pruned => cases about
  | cleared => cases about

theorem Indexed.untouched (indexed : Indexed authors dag) {inputs : List (Call R A M)} {round : R} {author : A}
    (away : ∀ input ∈ inputs, ∃ slot, slotOf input = some slot ∧ slot ≠ (round, author)) {place : Nat}
    (known : dag.authorToIndex.lookup author = some place) : cell (exec call dag inputs) round place = cell dag round place := by
  induction inputs generalizing dag with
  | nil => rfl
  | cons input rest ih =>
    obtain ⟨slot, about, different⟩ := away input List.mem_cons_self
    rw [exec_cons, ih (indexed.next input) (fun other member => away other (List.mem_cons_of_mem _ member)) ?_]
    · exact indexed.elsewhere about different known
    · rw [call_index]
      exact known

/-- Every call is on a slot of its own. -/
def Separate (inputs : List (Call R A M)) : Prop :=
  ∀ first ∈ inputs, ∃ slot, slotOf first = some slot ∧ ∀ second ∈ inputs, slotOf second = some slot → second = first

omit [LinearOrder R] [DecidableEq A] [ToString R] [ToString A] in
theorem Separate.perm {inputs others : List (Call R A M)} (separate : Separate inputs) (perm : inputs.Perm others) :
    Separate others := by
  intro first early
  obtain ⟨slot, about, own⟩ := separate first (perm.mem_iff.mpr early)
  exact ⟨slot, about, fun second late => own second (perm.mem_iff.mpr late)⟩

theorem Indexed.answered_alone (indexed : Indexed authors dag) {inputs : List (Call R A M)} (separate : Separate inputs)
    (nodup : inputs.Nodup) {current : Event (InMemDag R A M) (Call R A M) (Except Error Unit)}
    (member : current ∈ trace call dag inputs) : current.output = .ok () ↔ (call dag current.input).1 = .ok () := by
  obtain ⟨first, later, rfl, here⟩ := mem_trace call member
  obtain ⟨⟨round, author⟩, about, own⟩ := separate current.input (List.mem_append_right _ List.mem_cons_self)
  have away : ∀ input ∈ first, ∃ slot, slotOf input = some slot ∧ slot ≠ (round, author) := by
    intro input early
    obtain ⟨slot, placed, _⟩ := separate input (List.mem_append_left _ early)
    refine ⟨slot, placed, ?_⟩
    rintro rfl
    have twice := (List.nodup_append.mp nodup).2.2 input early current.input List.mem_cons_self
    exact twice (own input (List.mem_append_left _ early) placed)
  have index : (exec call dag first).authorToIndex = dag.authorToIndex := (indexed.run first).trans indexed.symm
  have same : ∀ place, dag.authorToIndex.lookup author = some place →
      cell (exec call dag first) round place = cell dag round place := fun place known => indexed.untouched away known
  rw [here]
  constructor
  · intro succeeds
    exact succeeds_congr about index (fun place known => same place (index ▸ known)) succeeds
  · intro succeeds
    exact succeeds_congr about index.symm (fun place known => (same place known).symm) succeeds

/-- Nodes that are added and marked on slots of their own leave the same store in whatever
order the calls are made, the vectors and their lengths included, and each call is
answered as if it were the only one. -/
theorem slots_in_any_order (authors : List A) (calls : List (Call R A M)) {inputs others : List (Call R A M)}
    (perm : inputs.Perm others) (separate : Separate inputs) :
    let dag : InMemDag R A M := exec call (new authors) calls
    exec call dag inputs = exec call dag others ∧
    (inputs.Nodup → ∀ current ∈ trace call dag inputs ++ trace call dag others,
      current.output = .ok () ↔ (call dag current.input).1 = .ok ()) := by
  intro dag
  have indexed : Indexed authors dag := Indexed.run (rfl : Indexed authors (new authors)) calls
  refine ⟨?_, ?_⟩
  · have same : exec call dag inputs = exec call dag others ∧ Indexed authors (exec call dag inputs) := by
      refine exec_perm call (fun state partner => state = partner ∧ Indexed authors state) ?_ ?_ ?_ perm ?_ ⟨rfl, indexed⟩
      · intro state partner related
        exact ⟨rfl, related.2⟩
      · intro one two three related further
        exact ⟨related.1.trans further.1, related.2⟩
      · rintro state _ input ⟨rfl, indexed⟩
        exact ⟨rfl, indexed.next input⟩
      · rintro first early second late state _ ⟨rfl, indexed⟩
        obtain ⟨slot, about, own⟩ := separate first early
        obtain ⟨other, next, _⟩ := separate second late
        refine ⟨?_, (indexed.next first).next second⟩
        by_cases same : slot = other
        · subst same
          rw [own second late next]
        · exact indexed.commute about next same
    exact same.1
  · intro nodup current member
    obtain left | right := List.mem_append.mp member
    · exact indexed.answered_alone separate nodup left
    · exact indexed.answered_alone (separate.perm perm) (perm.nodup_iff.mp nodup) right

end Calls

def mixedCalls : List (Call U64 TestAuthor TestCertifiedNode) :=
  [.addNode (createTestNode 5 1), .markOrdered 4 ⟨1⟩, .addNode (createTestNode 5 2), .addNode (createTestNode 5 9)]

/-- Two nodes of a round, a stranger's node and a mark on an older one, forwards and
backwards. -/
theorem round_fills_either_way :
    let dag : TestDag := exec call (new [⟨1⟩, ⟨2⟩, ⟨1⟩]) [.addNode (createTestNode 4 1)]
    Separate mixedCalls ∧ mixedCalls.Nodup ∧ exec call dag mixedCalls = exec call dag mixedCalls.reverse ∧
      ∀ current ∈ trace call dag mixedCalls ++ trace call dag mixedCalls.reverse,
        current.output = .ok () ↔ (call dag current.input).1 = .ok () := by
  have separate : Separate mixedCalls := by
    intro first member
    simp only [mixedCalls, List.mem_cons, List.not_mem_nil, or_false] at member
    obtain rfl | rfl | rfl | rfl := member <;> exact ⟨_, rfl, by decide⟩
  have nodup : mixedCalls.Nodup := by decide
  obtain ⟨same, alone⟩ := slots_in_any_order [⟨1⟩, ⟨2⟩, ⟨1⟩] [.addNode (createTestNode 4 1)]
    (List.reverse_perm mixedCalls).symm separate
  exact ⟨separate, nodup, same, alone nodup⟩

end AptosBft.Proofs.DagReorder
