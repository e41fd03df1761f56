import AptosBft.Lib.Mealy
import Mathlib.Algebra.GroupWithZero.Nat
import Mathlib.Order.MinMax

/-! Accounts of a run: what a machine holds at the end is what it held at first, what
came in and what went out. -/

namespace Mealy
variable {σ ι ω α : Type} {step : σ → ι → ω × σ}

/-- A queue. What left it and then what it still holds is what was in it and then what
entered, in this order. -/
theorem queue_balance (held : σ → List α) {left entered : Event σ ι ω → List α}
    (balance : ∀ state input, left (event step state input) ++ held (step state input).2 =
      held state ++ entered (event step state input)) (state : σ) (inputs : List ι) :
    (trace step state inputs).flatMap left ++ held (exec step state inputs) =
      held state ++ (trace step state inputs).flatMap entered := by
  induction inputs generalizing state with
  | nil => simp
  | cons input rest ih =>
    rw [trace_cons, exec_cons, List.flatMap_cons, List.flatMap_cons, List.append_assoc, ih, ← List.append_assoc, balance,
      List.append_assoc]

/-- A counter. -/
theorem counter_balance (count : σ → Nat) {gain : Event σ ι ω → Nat}
    (balance : ∀ state input, count (step state input).2 = count state + gain (event step state input)) (state : σ)
    (inputs : List ι) :
    count (exec step state inputs) = count state + ((trace step state inputs).map gain).sum := by
  induction inputs generalizing state with
  | nil => rfl
  | cons input rest ih => rw [trace_cons, exec_cons, List.map_cons, List.sum_cons, ih, balance, Nat.add_assoc]

/-- A mark that only rises. It is the highest of what was reported and of where it stood. -/
theorem highest_report [LinearOrder α] (mark : σ → α) (reports : Event σ ι ω → List α)
    (raises : ∀ state input, mark (step state input).2 = (reports (event step state input)).foldl max (mark state))
    (state : σ) (inputs : List ι) :
    mark (exec step state inputs) = ((trace step state inputs).flatMap reports).foldl max (mark state) := by
  induction inputs generalizing state with
  | nil => rfl
  | cons input rest ih => rw [trace_cons, exec_cons, List.flatMap_cons, List.foldl_append, ih, raises]

theorem foldl_max_le_iff [LinearOrder α] {start bound : α} {reports : List α} :
    reports.foldl max start ≤ bound ↔ start ≤ bound ∧ ∀ report ∈ reports, report ≤ bound := by
  induction reports generalizing start with
  | nil => simp
  | cons report rest ih => rw [List.foldl_cons, ih, max_le_iff, List.forall_mem_cons, and_assoc]

/-- A place that can be empty. It holds what was stored there last, or what it held at
first. -/
theorem latest_entry (entry : σ → Option α) {stored : Event σ ι ω → Option α}
    (stores : ∀ state input, entry (step state input).2 = (stored (event step state input)).or (entry state))
    (state : σ) (inputs : List ι) :
    entry (exec step state inputs) = ((trace step state inputs).filterMap stored).getLast?.or (entry state) := by
  refine history step state inputs (motive := fun past current =>
    entry current = (past.filterMap stored).getLast?.or (entry state)) rfl ?_
  intro past current input holds
  rw [stores, getLast?_filterMap_snoc, holds, Option.or_assoc]

/-- A place that is never empty. -/
theorem latest_write (register : σ → α) {written : Event σ ι ω → Option α}
    (writes : ∀ state input, register (step state input).2 = (written (event step state input)).getD (register state))
    (state : σ) (inputs : List ι) :
    register (exec step state inputs) = ((trace step state inputs).filterMap written).getLast?.getD (register state) := by
  have writesSome : ∀ state input,
      some (register (step state input).2) = (written (event step state input)).or (some (register state)) := by
    intro state input
    rw [writes]
    cases written (event step state input) <;> rfl
  have latest := latest_entry (fun state => some (register state)) writesSome state inputs
  generalize ((trace step state inputs).filterMap written).getLast? = last at latest ⊢
  cases last <;> exact Option.some.inj latest

end Mealy
