import AptosBft.Calls
import AptosBft.Lib.Mealy

/-! The safety state as a journal. Whatever a call does to the safety state is one
of four updates with natural-number arithmetic; a panic in the overflow check and
the wrap-around of a release build both leave the journal's account intact. Every
later fact about reachable safety states is a fact about journals. -/

namespace AptosBft.Proofs.Journal
open Rust Mealy

inductive Update where
  | qc (round : U64)
  | tc (round hqcRound : U64)
  | vote (round : U64)
  | timeout (round : U64)
  deriving DecidableEq, Repr

def apply (state : SafetyStateData) : Update → SafetyStateData
  | .qc round =>
    { state with
      preferredRound := if round.val = state.oneChainRound.val + 1 then max state.preferredRound round else state.preferredRound
      oneChainRound := max state.oneChainRound round }
  | .tc round hqcRound =>
    { state with
      highestTimeoutRound := max state.highestTimeoutRound round
      oneChainRound := max state.oneChainRound hqcRound }
  | .vote round => { state with lastVotedRound := max state.lastVotedRound round }
  | .timeout round => { state with highestTimeoutRound := max state.highestTimeoutRound round }

def replay (state : SafetyStateData) (journal : List Update) : SafetyStateData := journal.foldl apply state

theorem replay_append (state : SafetyStateData) (first rest : List Update) :
    replay state (first ++ rest) = replay (replay state first) rest := List.foldl_append

namespace Update

def certified : Update → List U64
  | .qc round => [round]
  | .tc _ hqcRound => [hqcRound]
  | _ => []

def timedOut : Update → List U64
  | .tc round _ => [round]
  | .timeout round => [round]
  | _ => []

def voted : Update → List U64
  | .vote round => [round]
  | _ => []

end Update

theorem apply_epoch (state : SafetyStateData) (update : Update) : (apply state update).epoch = state.epoch := by
  cases update <;> rfl

theorem apply_oneChainRound (state : SafetyStateData) (update : Update) :
    (apply state update).oneChainRound = update.certified.foldl max state.oneChainRound := by
  cases update <;> rfl

theorem apply_highestTimeoutRound (state : SafetyStateData) (update : Update) :
    (apply state update).highestTimeoutRound = update.timedOut.foldl max state.highestTimeoutRound := by
  cases update <;> rfl

theorem apply_lastVotedRound (state : SafetyStateData) (update : Update) :
    (apply state update).lastVotedRound = update.voted.foldl max state.lastVotedRound := by
  cases update <;> rfl

theorem apply_preferredRound (state : SafetyStateData) (update : Update) :
    (apply state update).preferredRound = state.preferredRound ∨
      ∃ round, update = .qc round ∧ round.val = state.oneChainRound.val + 1 ∧
        state.preferredRound < round ∧ (apply state update).preferredRound = round := by
  cases update with
  | qc round =>
    by_cases consecutive : round.val = state.oneChainRound.val + 1
    · simp only [apply, consecutive, ite_true]
      rcases lt_or_ge state.preferredRound round with higher | lower
      · exact Or.inr ⟨round, rfl, consecutive, higher, max_eq_right higher.le⟩
      · exact Or.inl (max_eq_left lower)
    · exact Or.inl (by simp only [apply, consecutive, ite_false])
  | tc round hqcRound => exact Or.inl rfl
  | vote round => exact Or.inl rfl
  | timeout round => exact Or.inl rfl

/-- A field that every update raises to the maximum of what the update reports is
the maximum of everything the journal reports. -/
theorem replay_max (field : SafetyStateData → U64) (reports : Update → List U64)
    (raises : ∀ state update, field (apply state update) = (reports update).foldl max (field state))
    (state : SafetyStateData) (journal : List Update) :
    field (replay state journal) = (journal.flatMap reports).foldl max (field state) := by
  induction journal generalizing state with
  | nil => rfl
  | cons update rest ih =>
    simp only [replay, List.foldl_cons, List.flatMap_cons, List.foldl_append]
    rw [← raises]
    exact ih _

theorem replay_epoch (state : SafetyStateData) (journal : List Update) :
    (replay state journal).epoch = state.epoch := by
  induction journal generalizing state with
  | nil => rfl
  | cons update rest ih => exact (ih _).trans (apply_epoch state update)

theorem replay_mono (field : SafetyStateData → U64) (grows : ∀ state update, field state ≤ field (apply state update))
    (state : SafetyStateData) (journal : List Update) : field state ≤ field (replay state journal) := by
  induction journal generalizing state with
  | nil => exact le_rfl
  | cons update rest ih => exact (grows state update).trans (ih _)

theorem replay_lastVotedRound_mono (state : SafetyStateData) (journal : List Update) :
    state.lastVotedRound ≤ (replay state journal).lastVotedRound := by
  refine replay_mono _ ?_ state journal
  intro state update
  cases update with
  | vote round => exact le_max_left _ _
  | _ => exact le_rfl

theorem replay_oneChainRound_mono (state : SafetyStateData) (journal : List Update) :
    state.oneChainRound ≤ (replay state journal).oneChainRound := by
  refine replay_mono _ ?_ state journal
  intro state update
  cases update with
  | qc round => exact le_max_left _ _
  | tc round hqcRound => exact le_max_left _ _
  | _ => exact le_rfl

theorem replay_oneChainRound_capped {state : SafetyStateData} {journal : List Update}
    (capped : ∀ round ∈ journal.flatMap Update.certified, round ≤ state.oneChainRound) :
    (replay state journal).oneChainRound = state.oneChainRound := by
  rw [replay_max _ _ apply_oneChainRound]
  generalize journal.flatMap Update.certified = reported at capped ⊢
  induction reported with
  | nil => rfl
  | cons round rest ih =>
    rw [List.foldl_cons, max_eq_left (capped round List.mem_cons_self)]
    exact ih fun other inside => capped other (List.mem_cons_of_mem _ inside)

theorem replay_preferredRound_mono (state : SafetyStateData) (journal : List Update) :
    state.preferredRound ≤ (replay state journal).preferredRound := by
  refine replay_mono _ ?_ state journal
  intro state update
  obtain same | ⟨round, _, _, higher, raised⟩ := apply_preferredRound state update
  · exact same.ge
  · exact raised ▸ higher.le

theorem replay_preferredRound (state : SafetyStateData) (journal : List Update) :
    (replay state journal).preferredRound = state.preferredRound ∨
      .qc (replay state journal).preferredRound ∈ journal := by
  induction journal generalizing state with
  | nil => exact Or.inl rfl
  | cons update rest ih =>
    rcases ih (apply state update) with kept | raised
    · obtain same | ⟨round, rfl, _, _, here⟩ := apply_preferredRound state update
      · exact Or.inl (kept.trans same)
      · have value : (replay state (.qc round :: rest)).preferredRound = round := kept.trans here
        exact Or.inr (by rw [value]; exact List.mem_cons_self)
    · exact Or.inr (List.mem_cons_of_mem _ raised)

end AptosBft.Proofs.Journal
