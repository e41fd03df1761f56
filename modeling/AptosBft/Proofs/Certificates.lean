import AptosBft.Proofs.SafetyRules
import AptosBft.Testing
import Mathlib.Data.Set.Finite.Lemmas
import Mathlib.Order.MinMax

/-! What observed certificates do to the one-chain and the preferred round, over
runs of the safety rules from `new`. A QC raises the preferred round only when it
follows the one-chain round directly, and a TC never raises it, so neither the
documented order of the two rounds nor the documented meaning of the preferred
round survives gaps or reordering. -/

namespace AptosBft.Proofs.Certificates
open Rust Mealy Journal TwoChainSafetyRules

variable {B QC H T : Type} [QuorumCertificate QC H]

section Invariant
variable [Block B H]

def Ordered (state : SafetyStateData) : Prop := state.oneChainRound ≤ state.preferredRound

instance (state : SafetyStateData) : Decidable (Ordered state) := inferInstanceAs (Decidable (_ ≤ _))

/-- A certificate the invariant survives: it reports nothing above the preferred
round, or it is a QC that directly follows the one-chain round. -/
def Consecutive (state : SafetyStateData) : Call B QC T → Prop
  | .observeQc qc =>
    QuorumCertificate.round qc ≤ state.preferredRound ∨ (QuorumCertificate.round qc).val = state.oneChainRound.val + 1
  | .observeTc tc => tc.hqcRound ≤ state.preferredRound
  | _ => True

theorem ordered_step (profile : Profile) (rules : TwoChainSafetyRules) (input : Call B QC T) (ordered : Ordered rules.state) :
    Ordered (rules.call profile input).2.state ↔ Consecutive rules.state input := by
  rw [SafetyRules.call_replays]
  simp only [Ordered] at *
  cases input with
  | observeQc qc =>
    by_cases follows : (QuorumCertificate.round qc).val = rules.state.oneChainRound.val + 1
    · simp only [SafetyRules.recorded, replay, List.foldl_cons, List.foldl_nil, apply, Consecutive, follows, ite_true, or_true,
        iff_true]
      exact max_le_max ordered le_rfl
    · simp [SafetyRules.recorded, replay, apply, Consecutive, follows, ordered]
  | observeTc tc => simp [SafetyRules.recorded, replay, apply, Consecutive, ordered]
  | recordVote round =>
    refine ⟨fun _ => trivial, fun _ => ?_⟩
    simp only [SafetyRules.recorded]
    split <;> simp_all [replay, apply]
  | recordTimeout round => exact ⟨fun _ => trivial, fun _ => ordered⟩
  | safeToVote proposal timeoutCert => exact ⟨fun _ => trivial, fun _ => ordered⟩
  | safeToTimeout round qcRound timeoutCert => exact ⟨fun _ => trivial, fun _ => ordered⟩
  | shouldCommit proposal => exact ⟨fun _ => trivial, fun _ => ordered⟩

theorem ordered_run (profile : Profile) (rules : TwoChainSafetyRules) (calls : List (Call B QC T)) (ordered : Ordered rules.state) :
    (∀ event ∈ trace (call profile) rules calls, Ordered event.after.state) ↔
      ∀ event ∈ trace (call profile) rules calls, Consecutive event.before.state event.input := by
  induction calls generalizing rules with
  | nil => simp
  | cons input rest ih =>
    simp only [trace_cons, List.forall_mem_cons, event_after, event_before, event_input]
    rw [ordered_step profile rules input ordered]
    apply and_congr_right
    intro consecutive
    exact ih _ ((ordered_step profile rules input ordered).mpr consecutive)

/-- From `new`, the documented invariant holds in every state of a run exactly
when every certificate of the run is consecutive in the state it arrives in. -/
theorem one_chain_at_most_preferred_iff (profile : Profile) (epoch : U64) (calls : List (Call B QC T)) :
    (∀ event ∈ trace (call profile) (new epoch) calls, Ordered event.after.state) ↔
      ∀ event ∈ trace (call profile) (new epoch) calls, Consecutive event.before.state event.input :=
  ordered_run profile (new epoch) calls (le_refl (0 : U64))

theorem first_qc_breaks_order : ¬ Ordered (exec (call .dev) (new 0)
    [(.observeQc (makeQc 5 0 ⟨5⟩) : Call MockBlock MockQuorumCert MockSignature)]).state := by
  decide

end Invariant

section Order

def observeAll (profile : Profile) (epoch : U64) (qcs : List QC) : SafetyStateData :=
  (qcs.foldl (fun rules qc => (rules.observeQc profile qc).2) (new epoch)).state

/-- Rounds `r - 1` and `r` are both certified; round 0 always is. -/
def TwoChain (qcs : List QC) (round : U64) : Prop :=
  (∃ qc ∈ qcs, QuorumCertificate.round qc = round) ∧
    (round.val = 1 ∨ ∃ qc ∈ qcs, (QuorumCertificate.round qc).val + 1 = round.val)

/-- The documented meaning of the preferred round: the highest 2-chain, or 0. -/
def HighestTwoChain (qcs : List QC) (round : U64) : Prop :=
  (TwoChain qcs round ∧ ∀ other, TwoChain qcs other → other ≤ round) ∨ (round = 0 ∧ ∀ other, ¬ TwoChain qcs other)

theorem observeAll_replays (profile : Profile) (epoch : U64) (qcs : List QC) :
    observeAll profile epoch qcs = replay (new epoch).state ((qcs.map QuorumCertificate.round).map .qc) := by
  simp only [observeAll]
  generalize new epoch = rules
  induction qcs generalizing rules with
  | nil => rfl
  | cons qc rest ih =>
    simp only [List.foldl_cons, List.map_cons, replay]
    rw [← SafetyRules.observeQc_state profile]
    exact ih _

theorem replay_below (state : SafetyStateData) (rounds : List U64) (below : ∀ round ∈ rounds, round ≤ state.oneChainRound) :
    replay state (rounds.map .qc) = state := by
  induction rounds with
  | nil => rfl
  | cons round rest ih =>
    have bound := below round List.mem_cons_self
    have apart : round.val ≠ state.oneChainRound.val + 1 := by
      have := Fin.le_def.mp bound
      omega
    have unchanged : apply state (.qc round) = state := by
      simp [apply, apart, max_eq_left bound]
    simp only [List.map_cons, replay, List.foldl_cons, unchanged]
    exact ih fun other inside => below other (List.mem_cons_of_mem _ inside)

/-- Without two consecutive rounds, the start included, no QC is ever the
successor of the one-chain round, whatever the order. -/
theorem replay_scattered (state : SafetyStateData) (rounds : List U64)
    (scattered : ∀ round ∈ rounds, ∀ earlier ∈ state.oneChainRound :: rounds, round.val ≠ earlier.val + 1) :
    replay state (rounds.map .qc) = { state with oneChainRound := rounds.foldl max state.oneChainRound } := by
  induction rounds generalizing state with
  | nil => rfl
  | cons round rest ih =>
    have apart := scattered round List.mem_cons_self state.oneChainRound List.mem_cons_self
    have here : apply state (.qc round) = { state with oneChainRound := max state.oneChainRound round } := by
      simp [apply, apart]
    simp only [List.map_cons, replay, List.foldl_cons, here]
    apply ih
    intro later inside earlier member
    apply scattered later (List.mem_cons_of_mem _ inside)
    rcases List.mem_cons.mp member with same | member
    · have value : earlier = max state.oneChainRound round := same
      rw [value]
      rcases max_choice state.oneChainRound round with left | right
      · rw [left]
        exact List.mem_cons_self
      · rw [right]
        exact List.mem_cons_of_mem _ List.mem_cons_self
    · exact List.mem_cons_of_mem _ (List.mem_cons_of_mem _ member)

theorem replay_low (state : SafetyStateData) (rounds : List U64) (fresh : state.oneChainRound = 0)
    (unset : state.preferredRound = 0) (low : ∀ round ∈ rounds, round ≤ 1) (one : 1 ∈ rounds) :
    replay state (rounds.map .qc) = { state with preferredRound := 1, oneChainRound := 1 } := by
  induction rounds with
  | nil => cases one
  | cons round rest ih =>
    have bounded : ∀ other ∈ rest, other ≤ 1 := fun other inside => low other (List.mem_cons_of_mem _ inside)
    simp only [List.map_cons, replay, List.foldl_cons]
    have small : round.val ≤ 1 := low round List.mem_cons_self
    rcases Nat.le_one_iff_eq_zero_or_eq_one.mp small with zero | first
    · have same : round = state.oneChainRound := (Fin.ext zero).trans fresh.symm
      have here : apply state (.qc round) = state := by
        rw [same]
        simp [apply]
      rw [here]
      refine ih bounded ?_
      rcases List.mem_cons.mp one with rfl | later
      · cases zero
      · exact later
    · have same : round = 1 := Fin.ext first
      have here : apply state (.qc round) = { state with preferredRound := 1, oneChainRound := 1 } := by
        simp [apply, same, fresh, unset]
      rw [here]
      exact replay_below _ rest bounded

variable (profile : Profile) (epoch : U64)

/-- No 2-chain in the list: only the one-chain round moves, to the maximum. -/
theorem observeAll_scattered {qcs : List QC} (scattered : ∀ round, ¬ TwoChain qcs round) :
    observeAll profile epoch qcs =
      { (new epoch).state with oneChainRound := (qcs.map QuorumCertificate.round).foldl max 0 } := by
  rw [observeAll_replays]
  apply replay_scattered
  intro round inside earlier member follows
  obtain ⟨qc, listed, rfl⟩ := List.mem_map.mp inside
  apply scattered (QuorumCertificate.round qc)
  refine ⟨⟨qc, listed, rfl⟩, ?_⟩
  rcases List.mem_cons.mp member with rfl | member
  · exact Or.inl follows
  · obtain ⟨parent, early, rfl⟩ := List.mem_map.mp member
    exact Or.inr ⟨parent, early, follows.symm⟩

/-- A QC at least as high as all others, observed first. -/
theorem observeAll_top_first {top : QC} {rest : List QC}
    (highest : ∀ qc ∈ rest, QuorumCertificate.round qc ≤ QuorumCertificate.round top) :
    observeAll profile epoch (top :: rest) = apply (new epoch).state (.qc (QuorumCertificate.round top)) := by
  rw [observeAll_replays, List.map_cons, List.map_cons]
  change replay (apply (new epoch).state (.qc (QuorumCertificate.round top))) _ = _
  apply replay_below
  intro round inside
  obtain ⟨qc, listed, rfl⟩ := List.mem_map.mp inside
  exact le_max_of_le_right (highest qc listed)

theorem exists_top {qcs : List QC} {some : QC} (listed : some ∈ qcs) :
    ∃ top rest, qcs.Perm (top :: rest) ∧ QuorumCertificate.round some ≤ QuorumCertificate.round top ∧
      ∀ qc ∈ rest, QuorumCertificate.round qc ≤ QuorumCertificate.round top := by
  obtain ⟨top, inside, highest⟩ := Set.exists_max_image {qc | qc ∈ qcs} QuorumCertificate.round
    (List.finite_toSet qcs) ⟨some, listed⟩
  obtain ⟨before, after, rfl⟩ := List.append_of_mem inside
  refine ⟨top, before ++ after, List.perm_middle, highest some listed, ?_⟩
  intro qc member
  apply highest
  simp only [Set.mem_ofPred_eq, List.mem_append, List.mem_cons] at member ⊢
  tauto

theorem TwoChain.positive {qcs : List QC} {round : U64} (chain : TwoChain qcs round) : 0 < round.val := by
  obtain ⟨_, first | ⟨parent, _, follows⟩⟩ := chain <;> omega

/-- With no round above 1 the only 2-chain is genesis with round 1, and every
order finds it. -/
theorem observeAll_low {qcs : List QC} (low : ∀ qc ∈ qcs, QuorumCertificate.round qc ≤ 1) {round : U64}
    (chain : TwoChain qcs round) :
    round = 1 ∧ observeAll profile epoch qcs = { (new epoch).state with preferredRound := 1, oneChainRound := 1 } := by
  have isOne : ∀ {other : U64}, TwoChain qcs other → other = 1 := by
    intro other here
    obtain ⟨⟨qc, listed, rfl⟩, _⟩ := id here
    have positive := here.positive
    have bound : (QuorumCertificate.round qc).val ≤ 1 := low qc listed
    apply Fin.ext
    change _ = 1
    omega
  have found := isOne chain
  obtain ⟨⟨qc, listed, rfl⟩, _⟩ := chain
  refine ⟨found, ?_⟩
  rw [observeAll_replays]
  apply replay_low _ _ rfl rfl
  · intro round inside
    obtain ⟨other, member, rfl⟩ := List.mem_map.mp inside
    exact low other member
  · exact List.mem_map.mpr ⟨qc, listed, found⟩

/-- Folding `observe_qc` over a list gives the same state in every order, with the
preferred round at the highest 2-chain of the list, exactly when no QC is above
round 1 or the list has no 2-chain at all. In every other list the highest QC can
come first and then no later QC follows the one-chain round. -/
theorem observe_qc_order_independent_iff (qcs : List QC) :
    (∀ reordered, qcs.Perm reordered → observeAll profile epoch reordered = observeAll profile epoch qcs ∧
      HighestTwoChain qcs (observeAll profile epoch reordered).preferredRound) ↔
    (∀ qc ∈ qcs, QuorumCertificate.round qc ≤ 1) ∨ ∀ round, ¬ TwoChain qcs round := by
  have moved : ∀ {reordered round}, qcs.Perm reordered → (TwoChain reordered round ↔ TwoChain qcs round) := by
    intro reordered round same
    simp only [TwoChain, same.mem_iff]
  constructor
  · intro independent
    by_contra neither
    push Not at neither
    obtain ⟨⟨high, listed, above⟩, round, chain⟩ := neither
    obtain ⟨top, rest, same, bound, highest⟩ := exists_top listed
    have final := observeAll_top_first profile epoch highest
    have apart : (QuorumCertificate.round top).val ≠ 1 := by
      have := Fin.lt_def.mp (lt_of_lt_of_le above bound)
      change 1 < _ at this
      omega
    have lost : (observeAll profile epoch (top :: rest)).preferredRound = 0 := by
      rw [final]
      simp [apply, new, apart]
    obtain ⟨found, _⟩ | ⟨_, none⟩ := (independent (top :: rest) same).2
    · rw [lost] at found
      exact absurd found.positive (Nat.lt_irrefl 0)
    · exact none round chain
  · intro cases reordered same
    by_cases scattered : ∀ round, ¬ TwoChain qcs round
    · have kept : ∀ round, ¬ TwoChain reordered round := fun round chain => scattered round ((moved same).mp chain)
      have maxima : (reordered.map QuorumCertificate.round).foldl max 0 = (qcs.map QuorumCertificate.round).foldl max 0 :=
        (same.map QuorumCertificate.round).symm.foldl_eq 0
      rw [observeAll_scattered profile epoch kept, observeAll_scattered profile epoch scattered, maxima]
      exact ⟨rfl, Or.inr ⟨rfl, scattered⟩⟩
    · push Not at scattered
      obtain ⟨round, chain⟩ := scattered
      have low : ∀ qc ∈ qcs, QuorumCertificate.round qc ≤ 1 := by
        rcases cases with low | none
        · exact low
        · exact absurd chain (none round)
      have lowReordered : ∀ qc ∈ reordered, QuorumCertificate.round qc ≤ 1 := fun qc member => low qc (same.mem_iff.mpr member)
      rw [(observeAll_low profile epoch low chain).2, (observeAll_low profile epoch lowReordered ((moved same).mpr chain)).2]
      refine ⟨rfl, Or.inl ⟨?_, ?_⟩⟩
      · rw [(observeAll_low profile epoch low chain).1] at chain
        exact chain
      · intro other also
        exact (observeAll_low profile epoch low also).1.le

theorem reordered_qcs_lose_two_chain :
    [makeQc 1 0 ⟨1⟩, makeQc 2 0 ⟨2⟩].Perm [makeQc 2 0 ⟨2⟩, makeQc 1 0 ⟨1⟩] ∧
      (observeAll .dev 0 [makeQc 1 0 ⟨1⟩, makeQc 2 0 ⟨2⟩]).preferredRound = 2 ∧
      (observeAll .dev 0 [makeQc 2 0 ⟨2⟩, makeQc 1 0 ⟨1⟩]).preferredRound = 0 :=
  ⟨.swap _ _ _, by decide, by decide⟩

end Order

section Commit
variable [Block B H]

def highestCertified (calls : List (Call B QC T)) : U64 :=
  (calls.flatMap fun
    | .observeQc qc => [QuorumCertificate.round qc]
    | .observeTc tc => [tc.hqcRound]
    | _ => []).foldl max 0

theorem one_chain_highest (profile : Profile) (epoch : U64) (calls : List (Call B QC T)) :
    (exec (call profile) (new epoch) calls).state.oneChainRound = highestCertified calls := by
  rw [SafetyRules.exec_replays, replay_max _ _ apply_oneChainRound]
  simp only [highestCertified]
  congr 1
  generalize new epoch = rules
  induction calls generalizing rules with
  | nil => rfl
  | cons input rest ih =>
    simp only [trace_cons, List.flatMap_cons, List.flatMap_append, ih, event_input, event_output]
    congr 1
    cases input with
    | recordVote round =>
      simp only [SafetyRules.recorded]
      split <;> first | rfl | simp_all
    | _ => rfl

def Observed (calls : List (Call B QC T)) (proposal : B) (id : H) : Prop :=
  ∃ qc, .observeQc qc ∈ calls ∧ (QuorumCertificate.round qc).val + 1 = (Block.round proposal).val ∧
    QuorumCertificate.blockId qc = id

/-- Two proposals of one round, in one state: whatever they commit was certified in
the round before, and they do not commit different blocks. -/
def CommitsSoundly (rules : TwoChainSafetyRules) (calls : List (Call B QC T)) (first second : B) : Prop :=
  (∀ id, rules.shouldCommit first = some id → Observed calls first id) ∧
  (∀ id, rules.shouldCommit second = some id → Observed calls second id) ∧
  ∀ id other, rules.shouldCommit first = some id → rules.shouldCommit second = some other → id = other

/-- `should_commit` answers for every proposal that is one round above the highest
reported one, with the parent id the proposal carries. That is sound exactly when
the parent is the block of an observed QC, and not only a round that a TC
reported or an id that the proposer chose. -/
theorem commit_sound_iff (profile : Profile) (epoch : U64) (calls : List (Call B QC T)) (first second : B)
    (paired : Block.round first = Block.round second) :
    CommitsSoundly (exec (call profile) (new epoch) calls) calls first second ↔
      ((Block.round first).val = (highestCertified calls).val + 1 →
        Block.parentId first = Block.parentId second ∧ Observed calls first (Block.parentId first)) := by
  simp only [CommitsSoundly]
  simp only [SafetyRules.shouldCommit_eq_some, one_chain_highest, ← paired]
  constructor
  · intro sound follows
    obtain ⟨backed, _, agree⟩ := sound
    exact ⟨agree _ _ ⟨follows, rfl⟩ ⟨follows, rfl⟩, backed _ ⟨follows, rfl⟩⟩
  · intro sound
    refine ⟨?_, ?_, ?_⟩
    · intro id committed
      obtain ⟨follows, rfl⟩ := committed
      exact (sound follows).2
    · intro id committed
      obtain ⟨follows, rfl⟩ := committed
      obtain ⟨same, qc, member, round, block⟩ := sound follows
      exact ⟨qc, member, paired ▸ round, same ▸ block⟩
    · intro id other left right
      obtain ⟨follows, rfl⟩ := left
      obtain ⟨_, rfl⟩ := right
      exact (sound follows).1

theorem extending_proposals_commit_soundly :
    let calls : List (Call MockBlock MockQuorumCert MockSignature) := [.observeQc (makeQc 1 0 ⟨1⟩)]
    CommitsSoundly (exec (call .dev) (new 0) calls) calls (makeBlock 2 0 1 ⟨1⟩) (makeBlock 2 0 2 ⟨1⟩) :=
  (commit_sound_iff .dev 0 _ (makeBlock 2 0 1 ⟨1⟩) (makeBlock 2 0 2 ⟨1⟩) rfl).mpr fun _ =>
    ⟨rfl, makeQc 1 0 ⟨1⟩, List.mem_cons_self, rfl, rfl⟩

theorem forged_parent_commits :
    let calls : List (Call MockBlock MockQuorumCert MockSignature) := [.observeQc (makeQc 1 0 ⟨1⟩)]
    let rules := exec (call .dev) (new 0) calls
    rules.shouldCommit (makeBlock 2 0 1 ⟨1⟩) = some ⟨1⟩ ∧ rules.shouldCommit (makeBlock 2 0 2 ⟨9⟩) = some ⟨9⟩ ∧
      ¬ CommitsSoundly rules calls (makeBlock 2 0 1 ⟨1⟩) (makeBlock 2 0 2 ⟨9⟩) := by
  intro calls rules
  have left : rules.shouldCommit (makeBlock 2 0 1 ⟨1⟩) = some ⟨1⟩ := by decide
  have right : rules.shouldCommit (makeBlock 2 0 2 ⟨9⟩) = some ⟨9⟩ := by decide
  refine ⟨left, right, ?_⟩
  intro sound
  obtain ⟨_, _, agree⟩ := sound
  exact absurd (agree _ _ left right) (by decide)

end Commit

end AptosBft.Proofs.Certificates
