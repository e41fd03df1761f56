import Mathlib.Data.List.Induction

/-! Runs of a machine that answers every input and changes its state. A run is
the list of its inputs, so a statement over all inputs covers every order in
which calls can be made. The trace keeps what each step saw and answered. -/

namespace Mealy

structure Event (σ ι ω : Type) where
  before : σ
  input : ι
  output : ω
  after : σ

variable {σ ι ω : Type} (step : σ → ι → ω × σ)

def event (state : σ) (input : ι) : Event σ ι ω :=
  ⟨state, input, (step state input).1, (step state input).2⟩

@[simp] theorem event_before (state : σ) (input : ι) : (event step state input).before = state := rfl
@[simp] theorem event_input (state : σ) (input : ι) : (event step state input).input = input := rfl
@[simp] theorem event_output (state : σ) (input : ι) : (event step state input).output = (step state input).1 := rfl
@[simp] theorem event_after (state : σ) (input : ι) : (event step state input).after = (step state input).2 := rfl

def exec (state : σ) : List ι → σ
  | [] => state
  | input :: rest => exec (step state input).2 rest

def trace (state : σ) : List ι → List (Event σ ι ω)
  | [] => []
  | input :: rest => event step state input :: trace (step state input).2 rest

@[simp] theorem exec_nil (state : σ) : exec step state [] = state := rfl
@[simp] theorem exec_cons (state : σ) (input : ι) (rest : List ι) :
    exec step state (input :: rest) = exec step (step state input).2 rest := rfl
@[simp] theorem trace_nil (state : σ) : trace step state [] = [] := rfl
@[simp] theorem trace_cons (state : σ) (input : ι) (rest : List ι) :
    trace step state (input :: rest) = event step state input :: trace step (step state input).2 rest := rfl

@[simp] theorem forall_trace_nil (property : Event σ ι ω → Prop) (state : σ) :
    (∀ current ∈ trace step state [], property current) ↔ True :=
  iff_true_intro (List.forall_mem_nil property)

@[simp] theorem forall_trace_cons (property : Event σ ι ω → Prop) (state : σ) (input : ι) (rest : List ι) :
    (∀ current ∈ trace step state (input :: rest), property current) ↔
      property (event step state input) ∧ ∀ current ∈ trace step (step state input).2 rest, property current :=
  List.forall_mem_cons

theorem exec_append (state : σ) (first rest : List ι) :
    exec step state (first ++ rest) = exec step (exec step state first) rest := by
  induction first generalizing state with
  | nil => rfl
  | cons input first ih => exact ih _

theorem trace_append (state : σ) (first rest : List ι) :
    trace step state (first ++ rest) = trace step state first ++ trace step (exec step state first) rest := by
  induction first generalizing state with
  | nil => rfl
  | cons input first ih => simp only [List.cons_append, trace_cons, exec_cons, ih]

theorem trace_inputs (state : σ) (inputs : List ι) : (trace step state inputs).map Event.input = inputs := by
  induction inputs generalizing state with
  | nil => rfl
  | cons input rest ih => simp only [trace_cons, List.map_cons, event_input, ih]

theorem trace_split {state : σ} {inputs : List ι} {past rest : List (Event σ ι ω)} {current : Event σ ι ω}
    (cut : trace step state inputs = past ++ current :: rest) :
    ∃ first later, inputs = first ++ current.input :: later ∧ past = trace step state first ∧
      current = event step (exec step state first) current.input ∧
      rest = trace step (exec step state (first ++ [current.input])) later := by
  induction past generalizing state inputs with
  | nil =>
    cases inputs with
    | nil => cases cut
    | cons input later =>
      obtain ⟨rfl, rfl⟩ := List.cons.inj cut
      exact ⟨[], later, rfl, rfl, rfl, rfl⟩
  | cons head past ih =>
    cases inputs with
    | nil => cases cut
    | cons input inputs =>
      obtain ⟨rfl, tail⟩ := List.cons.inj cut
      obtain ⟨first, later, same, early, here, remaining⟩ := ih tail
      subst same early
      exact ⟨input :: first, later, rfl, rfl, here, remaining⟩

/-- Two steps of a run: what lies between them starts where the first ended. -/
theorem trace_split_two {state : σ} {inputs : List ι} {past between rest : List (Event σ ι ω)} {first second : Event σ ι ω}
    (cut : trace step state inputs = past ++ first :: (between ++ second :: rest)) :
    ∃ middle, between = trace step first.after middle ∧ second = event step (exec step first.after middle) second.input := by
  obtain ⟨early, later, _, _, here, remaining⟩ := trace_split step cut
  have reached : exec step state (early ++ [first.input]) = first.after := by
    rw [exec_append, here]
    rfl
  rw [reached] at remaining
  obtain ⟨middle, _, _, through, there, _⟩ := trace_split step remaining.symm
  exact ⟨middle, through, there⟩

theorem mem_of_cut {α : Type} {items past between rest : List α} {first second : α}
    (cut : items = past ++ first :: (between ++ second :: rest)) : first ∈ items ∧ second ∈ items := by
  rw [cut]
  refine ⟨List.mem_append_right _ List.mem_cons_self, ?_⟩
  exact List.mem_append_right _ (List.mem_cons_of_mem _ (List.mem_append_right _ List.mem_cons_self))

theorem mem_trace {state : σ} {inputs : List ι} {current : Event σ ι ω} (member : current ∈ trace step state inputs) :
    ∃ first later, inputs = first ++ current.input :: later ∧
      current = event step (exec step state first) current.input := by
  obtain ⟨past, rest, cut⟩ := List.append_of_mem member
  obtain ⟨first, later, same, _, here, _⟩ := trace_split step cut
  exact ⟨first, later, same, here⟩

theorem exec_unchanged {α : Type} (field : σ → α) {inputs : List ι}
    (keeps : ∀ state, ∀ input ∈ inputs, field (step state input).2 = field state) (state : σ) :
    field (exec step state inputs) = field state := by
  induction inputs generalizing state with
  | nil => rfl
  | cons input rest ih =>
    rw [exec_cons, ih (fun state other member => keeps state other (List.mem_cons_of_mem _ member))]
    exact keeps state input List.mem_cons_self

/-- A part of the state that every step moves by running another machine has run
that machine on everything it was handed. -/
theorem exec_component {τ κ ψ : Type} {inner : τ → κ → ψ × τ} {view : σ → τ} {relay : σ → ι → List κ}
    (simulates : ∀ state input, view (step state input).2 = exec inner (view state) (relay state input))
    (state : σ) (inputs : List ι) :
    view (exec step state inputs) =
      exec inner (view state) ((trace step state inputs).flatMap fun event => relay event.before event.input) := by
  induction inputs generalizing state with
  | nil => rfl
  | cons input rest ih =>
    rw [exec_cons, ih, simulates, trace_cons, List.flatMap_cons, exec_append]
    rfl

/-- Two machines whose steps keep a relation run related. -/
theorem exec_related {τ ψ : Type} {other : τ → ι → ψ × τ} {related : σ → τ → Prop}
    (next : ∀ state partner input, related state partner → related (step state input).2 (other partner input).2)
    {state : σ} {partner : τ} (initial : related state partner) (inputs : List ι) :
    related (exec step state inputs) (exec other partner inputs) := by
  induction inputs generalizing state partner with
  | nil => exact initial
  | cons input rest ih => exact ih (next state partner input initial)

/-- Inputs of which any two can be taken the other way round can be taken in any order, up
to a relation that every step keeps. -/
theorem exec_perm (related : σ → σ → Prop) (self : ∀ {state partner}, related state partner → related state state)
    (trans : ∀ {first second third}, related first second → related second third → related first third)
    (next : ∀ state partner input, related state partner → related (step state input).2 (step partner input).2)
    {inputs others : List ι} (perm : inputs.Perm others)
    (commute : ∀ first ∈ inputs, ∀ second ∈ inputs, ∀ state partner, related state partner →
      related (step (step state first).2 second).2 (step (step partner second).2 first).2)
    {state partner : σ} (initial : related state partner) : related (exec step state inputs) (exec step partner others) := by
  induction perm generalizing state partner with
  | nil => exact initial
  | cons input _ ih =>
    refine ih ?_ (next state partner input initial)
    intro first early second late
    exact commute first (List.mem_cons_of_mem _ early) second (List.mem_cons_of_mem _ late)
  | swap second first rest =>
    have swapped := commute first List.mem_cons_self second (List.mem_cons_of_mem _ List.mem_cons_self) state partner initial
    exact exec_related step next swapped rest
  | trans perm _ ih following =>
    refine trans (ih commute (self initial)) (following ?_ initial)
    intro first early second late
    exact commute first (perm.mem_iff.mpr early) second (perm.mem_iff.mpr late)

theorem filterMap_snoc {α β : Type} (select : α → Option β) (past : List α) (last : α) :
    (past ++ [last]).filterMap select = past.filterMap select ++ (select last).toList := by
  rw [List.filterMap_append]
  cases selected : select last <;> simp [selected]

theorem getLast?_filterMap_snoc {α β : Type} (select : α → Option β) (past : List α) (last : α) :
    ((past ++ [last]).filterMap select).getLast? = (select last).or (past.filterMap select).getLast? := by
  rw [filterMap_snoc, List.getLast?_append]
  cases select last <;> rfl

/-- A cut of a history that has grown by one event is a cut of the history before
it, or stands at the new event. -/
theorem split_snoc {α : Type} {past first later : List α} {last here : α} (cut : past ++ [last] = first ++ here :: later) :
    (∃ earlier, past = first ++ here :: earlier) ∨ (first = past ∧ here = last) := by
  induction later using List.reverseRecOn with
  | nil =>
    obtain ⟨rfl, same⟩ := List.append_inj' cut rfl
    cases same
    exact Or.inr ⟨rfl, rfl⟩
  | append_singleton later ending =>
    rw [← List.cons_append, ← List.append_assoc] at cut
    exact Or.inl ⟨later, (List.append_inj' cut rfl).1⟩

/-- Something that happened in a longer history happened before or happens last. -/
theorem exists_split_snoc {α : Type} {happens : List α → α → Prop} {past : List α} {last : α} :
    (∃ first here later, past ++ [last] = first ++ here :: later ∧ happens first here) ↔
      (∃ first here later, past = first ++ here :: later ∧ happens first here) ∨ happens past last := by
  constructor
  · intro some
    obtain ⟨first, here, later, cut, occurred⟩ := some
    obtain ⟨earlier, cut⟩ | ⟨rfl, rfl⟩ := split_snoc cut
    · exact Or.inl ⟨first, here, earlier, cut, occurred⟩
    · exact Or.inr occurred
  · intro either
    obtain ⟨first, here, later, rfl, occurred⟩ | occurred := either
    · exact ⟨first, here, later ++ [last], by simp, occurred⟩
    · exact ⟨past, last, [], rfl, occurred⟩

/-- Set at some event of a history, and not reset at that event or since. -/
def Standing {α : Type} (sets resets : α → Prop) (past : List α) : Prop :=
  ∃ first here later, past = first ++ here :: later ∧ sets here ∧ ∀ event ∈ here :: later, ¬ resets event

theorem not_standing_nil {α : Type} (sets resets : α → Prop) : ¬ Standing sets resets [] := by
  intro standing
  obtain ⟨first, here, later, cut, _⟩ := standing
  simp at cut

theorem standing_snoc {α : Type} {sets resets : α → Prop} {past : List α} {last : α} :
    Standing sets resets (past ++ [last]) ↔ (Standing sets resets past ∨ sets last) ∧ ¬ resets last := by
  constructor
  · intro standing
    obtain ⟨first, here, later, cut, set, kept⟩ := standing
    obtain rfl | ⟨earlier, ending, rfl⟩ := List.eq_nil_or_concat later
    · obtain ⟨rfl, same⟩ := List.append_inj' cut rfl
      cases same
      exact ⟨Or.inr set, kept _ List.mem_cons_self⟩
    · rw [List.concat_eq_append] at cut kept
      rw [← List.cons_append, ← List.append_assoc] at cut
      obtain ⟨rfl, same⟩ := List.append_inj' cut rfl
      cases same
      rw [← List.cons_append, List.forall_mem_append, List.forall_mem_singleton] at kept
      exact ⟨Or.inl ⟨first, here, earlier, rfl, set, kept.1⟩, kept.2⟩
  · intro both
    obtain ⟨⟨first, here, later, rfl, set, kept⟩ | set, unreset⟩ := both
    · refine ⟨first, here, later ++ [last], by simp, set, ?_⟩
      rw [← List.cons_append, List.forall_mem_append, List.forall_mem_singleton]
      exact ⟨kept, unreset⟩
    · exact ⟨past, last, [], rfl, set, List.forall_mem_singleton.mpr unreset⟩

/-- A condition on each step of a run, given the events before it. -/
def Meets (condition : List (Event σ ι ω) → Event σ ι ω → Prop) (state : σ) (inputs : List ι) : Prop :=
  ∀ past current rest, trace step state inputs = past ++ current :: rest → condition past current

variable {step}

@[simp] theorem meets_nil (condition : List (Event σ ι ω) → Event σ ι ω → Prop) (state : σ) : Meets step condition state [] := by
  intro past current rest cut
  simp at cut

theorem meets_iff_trace {property : Event σ ι ω → Prop} {state : σ} {inputs : List ι} :
    Meets step (fun _ => property) state inputs ↔ ∀ current ∈ trace step state inputs, property current := by
  constructor
  · intro meets current member
    obtain ⟨past, rest, cut⟩ := List.append_of_mem member
    exact meets past current rest cut
  · intro all past current rest cut
    apply all
    rw [cut]
    exact List.mem_append_right _ List.mem_cons_self

theorem Meets.and {condition other : List (Event σ ι ω) → Event σ ι ω → Prop} {state : σ} {inputs : List ι}
    (first : Meets step condition state inputs) (second : Meets step other state inputs) :
    Meets step (fun past current => condition past current ∧ other past current) state inputs :=
  fun past current rest cut => ⟨first past current rest cut, second past current rest cut⟩

/-- Conditions that agree on every step a run can take agree on the run. -/
theorem meets_congr {condition other : List (Event σ ι ω) → Event σ ι ω → Prop} {state : σ} {inputs : List ι}
    (same : ∀ first past input, condition past (event step (exec step state first) input) ↔
      other past (event step (exec step state first) input)) :
    Meets step condition state inputs ↔ Meets step other state inputs := by
  have pointwise : ∀ past current rest, trace step state inputs = past ++ current :: rest →
      (condition past current ↔ other past current) := by
    intro past current rest cut
    obtain ⟨first, _, _, _, here, _⟩ := trace_split step cut
    rw [here]
    exact same first past _
  constructor
  · intro meets past current rest cut
    exact (pointwise past current rest cut).mp (meets past current rest cut)
  · intro meets past current rest cut
    exact (pointwise past current rest cut).mpr (meets past current rest cut)

theorem forall_trace_congr {property other : Event σ ι ω → Prop} {state : σ} {inputs : List ι}
    (same : ∀ state input, property (event step state input) ↔ other (event step state input)) :
    (∀ current ∈ trace step state inputs, property current) ↔ ∀ current ∈ trace step state inputs, other current := by
  rw [← meets_iff_trace, ← meets_iff_trace]
  exact meets_congr fun first _ input => same (exec step state first) input

theorem meets_of_forall {property : ι → Prop} {state : σ} {inputs : List ι} (all : ∀ input ∈ inputs, property input) :
    Meets step (fun _ current => property current.input) state inputs := by
  rw [meets_iff_trace]
  intro current member
  obtain ⟨first, later, rfl, _⟩ := mem_trace step member
  exact all _ (List.mem_append_right _ List.mem_cons_self)

theorem meets_snoc {condition : List (Event σ ι ω) → Event σ ι ω → Prop} {state : σ} {inputs : List ι} {input : ι} :
    Meets step condition state (inputs ++ [input]) ↔
      Meets step condition state inputs ∧ condition (trace step state inputs) (event step (exec step state inputs) input) := by
  have last : trace step state (inputs ++ [input]) =
      trace step state inputs ++ [event step (exec step state inputs) input] := by
    rw [trace_append]
    rfl
  constructor
  · intro meets
    refine ⟨?_, meets _ _ [] last⟩
    intro past current rest cut
    apply meets past current (rest ++ [event step (exec step state inputs) input])
    rw [last, cut, List.append_assoc]
    rfl
  · intro both past current rest cut
    obtain ⟨meets, final⟩ := both
    rw [last] at cut
    obtain ⟨earlier, cut⟩ | ⟨rfl, rfl⟩ := split_snoc cut
    · exact meets past current earlier cut
    · exact final

/-- Induction along a run whose steps all meet a condition. The motive may
mention the whole history, so it can relate a state to what produced it. -/
theorem Meets.history {condition : List (Event σ ι ω) → Event σ ι ω → Prop} {state : σ} {inputs : List ι}
    (meets : Meets step condition state inputs) {motive : List (Event σ ι ω) → σ → Prop}
    (initial : motive [] state)
    (next : ∀ past current input, motive past current → condition past (event step current input) →
      motive (past ++ [event step current input]) (step current input).2) :
    motive (trace step state inputs) (exec step state inputs) := by
  induction inputs using List.reverseRecOn with
  | nil => exact initial
  | append_singleton inputs input ih =>
    obtain ⟨early, final⟩ := meets_snoc.mp meets
    rw [trace_append, exec_append]
    exact next _ _ input (ih early) final

/-- Two conditions that agree on every step from a history of the motive, and stay with
it, agree on every run. -/
theorem meets_iff {condition other : List (Event σ ι ω) → Event σ ι ω → Prop} {motive : List (Event σ ι ω) → σ → Prop}
    (same : ∀ past current input, motive past current →
      (condition past (event step current input) ↔ other past (event step current input)))
    (keeps : ∀ past current input, motive past current → other past (event step current input) →
      motive (past ++ [event step current input]) (step current input).2)
    {state : σ} (initial : motive [] state) (inputs : List ι) :
    Meets step condition state inputs ↔ Meets step other state inputs := by
  induction inputs using List.reverseRecOn with
  | nil => exact iff_of_true (meets_nil _ _) (meets_nil _ _)
  | append_singleton inputs input ih =>
    rw [meets_snoc, meets_snoc, ih]
    exact and_congr_right fun earlier => same _ _ input (earlier.history initial keeps)

/-- The rule at properties of single steps and an invariant of the states. -/
theorem forall_trace_iff {property other : Event σ ι ω → Prop} {inv : σ → Prop}
    (same : ∀ state input, inv state → (property (event step state input) ↔ other (event step state input)))
    (keeps : ∀ state input, inv state → other (event step state input) → inv (step state input).2)
    {state : σ} (initial : inv state) (inputs : List ι) :
    (∀ current ∈ trace step state inputs, property current) ↔ ∀ current ∈ trace step state inputs, other current := by
  rw [← meets_iff_trace, ← meets_iff_trace]
  refine meets_iff (motive := fun _ => inv) ?_ ?_ initial inputs
  · intro _ state input holds
    exact same state input holds
  · intro _ state input holds here
    exact keeps state input holds here

theorem Meets.start {condition : List (Event σ ι ω) → Event σ ι ω → Prop} {state : σ} {first rest : List ι}
    (meets : Meets step condition state (first ++ rest)) : Meets step condition state first := by
  intro past current later cut
  apply meets past current (later ++ trace step (exec step state first) rest)
  rw [trace_append, cut, List.append_assoc, List.cons_append]

/-- The induction rule at any point inside a run: the motive holds before and
after the step found there. -/
theorem Meets.cut {condition : List (Event σ ι ω) → Event σ ι ω → Prop} {state : σ} {inputs : List ι}
    (meets : Meets step condition state inputs) {motive : List (Event σ ι ω) → σ → Prop}
    (initial : motive [] state)
    (next : ∀ past current input, motive past current → condition past (event step current input) →
      motive (past ++ [event step current input]) (step current input).2)
    {past rest : List (Event σ ι ω)} {current : Event σ ι ω} (cut : trace step state inputs = past ++ current :: rest) :
    motive past current.before ∧ motive (past ++ [current]) current.after := by
  obtain ⟨first, later, same, early, here, _⟩ := trace_split step cut
  subst same early
  rw [List.append_cons] at meets
  have before := meets.start.start.history initial next
  rw [here]
  exact ⟨before, next _ _ _ before (here ▸ meets _ _ _ (by rw [← List.append_cons]; exact cut))⟩

/-- What the motive and the condition give at a single step, they give at every step
of the run. -/
theorem Meets.derive {condition conclusion : List (Event σ ι ω) → Event σ ι ω → Prop} {state : σ} {inputs : List ι}
    (meets : Meets step condition state inputs) {motive : List (Event σ ι ω) → σ → Prop}
    (initial : motive [] state)
    (next : ∀ past current input, motive past current → condition past (event step current input) →
      motive (past ++ [event step current input]) (step current input).2)
    (gives : ∀ past current input, motive past current → condition past (event step current input) →
      conclusion past (event step current input)) : Meets step conclusion state inputs := by
  intro past current rest cut
  have before := (meets.cut initial next cut).1
  have met := meets past current rest cut
  obtain ⟨first, _, _, _, here, _⟩ := trace_split step cut
  rw [here] at before met ⊢
  exact gives past _ _ before met

/-- What every step of a run keeps, its last state has. -/
theorem exec_of_trace {property : Event σ ι ω → Prop} {motive : σ → Prop} {state : σ} {inputs : List ι}
    (all : ∀ current ∈ trace step state inputs, property current) (initial : motive state)
    (keeps : ∀ state input, motive state → property (event step state input) → motive (step state input).2) :
    motive (exec step state inputs) := by
  rw [← meets_iff_trace] at all
  refine all.history (motive := fun _ => motive) initial ?_
  intro _ state input holds here
  exact keeps state input holds here

theorem forall_trace_derive {property other : Event σ ι ω → Prop} {motive : σ → Prop} {state : σ} {inputs : List ι}
    (all : ∀ current ∈ trace step state inputs, property current) (initial : motive state)
    (keeps : ∀ state input, motive state → property (event step state input) → motive (step state input).2)
    (gives : ∀ state input, motive state → property (event step state input) → other (event step state input)) :
    ∀ current ∈ trace step state inputs, other current := by
  rw [← meets_iff_trace] at all ⊢
  refine all.derive (motive := fun _ => motive) initial ?_ ?_
  · intro _ state input holds here
    exact keeps state input holds here
  · intro _ state input holds here
    exact gives state input holds here

variable (step) in
theorem history (state : σ) (inputs : List ι) {motive : List (Event σ ι ω) → σ → Prop}
    (initial : motive [] state)
    (next : ∀ past current input, motive past current →
      motive (past ++ [event step current input]) (step current input).2) :
    motive (trace step state inputs) (exec step state inputs) :=
  have always : Meets step (fun _ _ => True) state inputs := fun _ _ _ _ => trivial
  always.history initial (fun past current input holds _ => next past current input holds)

end Mealy
