import AptosBft.Lib.Weighted
import AptosBft.Proposer

/-! Proposer election over a window of rounds. The weighted search walks the turns of the
validators, one round a turn, and the round robin walks the list itself. -/

namespace AptosBft.Proofs.Proposer
open Rust Weighted

variable {O : Type}

section Election

def weights (validators : List (O × U64)) : List (O × Nat) := validators.map fun validator => (validator.1, validator.2.val)

/-- The validators with their places in the list. An election over them tells which entry
it takes. -/
def entries (validators : List (O × U64)) : List ((O × Nat) × U64) :=
  validators.zipIdx.map fun entry => ((entry.1.1, entry.2), entry.1.2)

theorem weights_entries (validators : List (O × U64)) : weights (entries validators) = placed (weights validators) 0 := by
  simp only [weights, entries, placed, List.zipIdx_map, List.map_map]
  rfl

theorem total_entries (validators : List (O × U64)) : total (weights (entries validators)) = total (weights validators) := by
  simp only [total, weights, entries, List.map_map]
  conv_rhs => rw [← List.zipIdx_map_fst 0 validators, List.map_map]
  rfl

/-- The validator of a turn is the one in the entry that has the turn. -/
theorem turns_entries (validators : List (O × U64)) :
    (turns (weights (entries validators))).map Prod.fst = turns (weights validators) := by
  rw [weights_entries]
  generalize 0 = first
  induction validators generalizing first with
  | nil => rfl
  | cons validator rest ih =>
    simp only [weights, List.map_cons, placed_cons, turns_cons, List.map_append, List.map_replicate]
    exact congrArg _ (ih (first + 1))

/-- The running sum passes the target at the turn that the target is. -/
theorem search_eq (profile : Profile) {validators : List (O × U64)} {target cumulative : Nat} (reached : cumulative ≤ target)
    (fits : cumulative + total (weights validators) < U128.size) :
    WeightedProposer.search profile target cumulative validators = .ok (turns (weights validators))[target - cumulative]? := by
  induction validators generalizing cumulative with
  | nil => rfl
  | cons entry rest ih =>
    obtain ⟨validator, weight⟩ := entry
    change cumulative + (weight.val + total (weights rest)) < U128.size at fits
    change _ = Except.ok (turns ((validator, weight.val) :: weights rest))[target - cumulative]?
    rw [getElem?_turns_cons]
    simp only [WeightedProposer.search, U128.plus]
    rw [U128.narrow_of_lt profile (by omega)]
    by_cases passed : target < cumulative + weight.val
    · rw [if_pos (by omega)]
      exact if_pos passed
    · rw [if_neg (by omega), Nat.sub_sub]
      exact (if_neg passed).trans (ih (by omega) (by omega))

theorem new_eq (profile : Profile) {validators : List (O × U64)} (config : ProposerElectionConfig)
    (fits : total (weights validators) < U128.size) :
    WeightedProposer.new profile validators config = .ok ⟨validators, total (weights validators), config⟩ := by
  have powers : validators.map (fun validator => validator.2.val) = (weights validators).map Prod.snd := by
    simp only [weights, List.map_map]
    rfl
  rw [WeightedProposer.new, powers, U128.sum_of_lt profile fits]
  rfl

/-- A round takes the turn of its number. The search finds it and does not fall through. -/
theorem selects (profile : Profile) {validators : List (O × U64)} {config : ProposerElectionConfig} {round : U64}
    (positive : 0 < total (weights validators)) (fits : total (weights validators) < U128.size)
    (started : config.initialRound ≤ round) :
    ∃ validator, (turns (weights validators))[round.val % total (weights validators)]? = some validator ∧
      WeightedProposer.search profile (round.val % total (weights validators)) 0 validators = .ok (some validator) ∧
      (⟨validators, total (weights validators), config⟩ : WeightedProposer O).getValidProposer profile round =
        .ok (some validator) := by
  have inside : round.val % total (weights validators) < (turns (weights validators)).length := by
    rw [length_turns]
    exact Nat.mod_lt _ positive
  have whole : 0 + total (weights validators) < U128.size := by rwa [Nat.zero_add]
  have found : WeightedProposer.search profile (round.val % total (weights validators)) 0 validators = _ :=
    search_eq profile (Nat.zero_le _) whole
  rw [Nat.sub_zero, List.getElem?_eq_getElem inside] at found
  refine ⟨_, List.getElem?_eq_getElem inside, found, ?_⟩
  have listed : validators.isEmpty = false := by
    cases validators with
    | nil => exact absurd positive (Nat.lt_irrefl 0)
    | cons => rfl
  rw [WeightedProposer.getValidProposer, if_neg (not_lt.mpr started), WeightedProposer.selectWeightedProposer, listed,
    if_neg Bool.false_ne_true, if_neg positive.ne']
  simp only [found]
  rfl

theorem window_lt {rounds : List U64} {start count : Nat} (window : rounds.map Fin.val = List.range' start count)
    (positive : 0 < count) : start + count ≤ 18446744073709551616 := by
  have last : start + (count - 1) ∈ rounds.map Fin.val := by
    rw [window]
    exact List.mem_range'_1.mpr (by omega)
  obtain ⟨round, _, same⟩ := List.mem_map.mp last
  have bound := round.isLt
  omega

theorem started_of_mem {rounds : List U64} {start count : Nat} (window : rounds.map Fin.val = List.range' start count)
    {initial round : U64} (later : initial.val ≤ start) (member : round ∈ rounds) : initial ≤ round := by
  have inside := List.mem_map_of_mem (f := Fin.val) member
  rw [window] at inside
  exact later.trans (List.mem_range'_1.mp inside).1

/-- Over a window as long as the total power, the turns are taken once around. -/
theorem window_turns (profile : Profile) {validators : List (O × U64)} {config : ProposerElectionConfig} {rounds : List U64}
    {start : Nat} (positive : 0 < total (weights validators)) (later : config.initialRound.val ≤ start)
    (window : rounds.map Fin.val = List.range' start (total (weights validators))) :
    rounds.map ((⟨validators, total (weights validators), config⟩ : WeightedProposer O).getValidProposer profile) =
      ((turns (weights validators)).rotate start).map fun validator => .ok (some validator) := by
  have fits : total (weights validators) < U128.size := by
    have bound := window_lt window positive
    rw [U128.size]
    omega
  have walk := map_range'_mod (turns (weights validators)) start
  rw [length_turns, ← window, List.map_map] at walk
  have each : rounds.map ((⟨validators, total (weights validators), config⟩ : WeightedProposer O).getValidProposer profile) =
      (rounds.map fun round => (turns (weights validators))[round.val % total (weights validators)]?).map .ok := by
    rw [List.map_map]
    apply List.map_congr_left
    intro round member
    obtain ⟨validator, turn, _, selected⟩ := selects profile positive fits (started_of_mem window later member)
    rw [selected, Function.comp_apply, turn]
  rw [each]
  exact (congrArg (List.map Except.ok) walk).trans (List.map_map ..)

/-- An entry is taken as often as it weighs. -/
theorem window_count [DecidableEq O] (profile : Profile) {validators : List (O × U64)} {config : ProposerElectionConfig}
    {rounds : List U64} {start : Nat} (positive : 0 < total (weights validators)) (later : config.initialRound.val ≤ start)
    (window : rounds.map Fin.val = List.range' start (total (weights validators))) {place : Nat} {entry : O × U64}
    (listed : validators[place]? = some entry) :
    (rounds.map ((⟨entries validators, total (weights (entries validators)), config⟩ :
      WeightedProposer (O × Nat)).getValidProposer profile)).count (.ok (some (entry.1, place))) = entry.2.val := by
  have apart : Function.Injective fun taken : O × Nat => (.ok (some taken) : Except Panic (Option (O × Nat))) := by
    intro left right equal
    exact Option.some.inj (Except.ok.inj equal)
  have held : (weights validators)[place]? = some (entry.1, entry.2.val) := by
    rw [weights, List.getElem?_map, listed]
    rfl
  have own := count_turns held 0
  rw [Nat.zero_add, ← weights_entries] at own
  rw [← total_entries] at positive window
  rw [window_turns profile positive later window]
  exact (List.count_map_of_injective _ _ apart (entry.1, place)).trans (((List.rotate_perm _ _).count_eq _).trans own)

theorem roundRobin_eq (validators : List O) {config : ProposerElectionConfig} {round : U64}
    (started : config.initialRound ≤ round) : (RoundRobinProposer.new validators config).getValidProposer round =
      validators[(round.val - config.initialRound.val) % validators.length]? := by
  cases validators with
  | nil => rfl
  | cons => exact dif_neg (not_lt.mpr started)

theorem roundRobin_window (validators : List O) {config : ProposerElectionConfig} {rounds : List U64} {start : Nat}
    (later : config.initialRound.val ≤ start) (window : rounds.map Fin.val = List.range' start validators.length) :
    rounds.map (RoundRobinProposer.new validators config).getValidProposer =
      (validators.rotate (start - config.initialRound.val)).map some := by
  have each : rounds.map (RoundRobinProposer.new validators config).getValidProposer =
      ((rounds.map Fin.val).map (· - config.initialRound.val)).map fun index => validators[index % validators.length]? := by
    rw [List.map_map, List.map_map]
    apply List.map_congr_left
    intro round member
    exact roundRobin_eq validators (started_of_mem window later member)
  rw [each, window, List.map_sub_range' later]
  exact map_range'_mod validators _

end Election

/-- Over as many rounds as the total power, every entry of a weighted election is taken as
often as it weighs and the search never falls through; over as many rounds as there are
validators, a round robin takes each entry once, around the list. -/
theorem election_fair [DecidableEq O] :
    (∀ (profile : Profile) (validators : List (O × U64)) (config : ProposerElectionConfig) (rounds : List U64) (start : Nat),
      0 < total (weights validators) → config.initialRound.val ≤ start →
      rounds.map Fin.val = List.range' start (total (weights validators)) →
      ∃ proposer placed, WeightedProposer.new profile validators config = .ok proposer ∧
        WeightedProposer.new profile (entries validators) config = .ok placed ∧
        (∀ round ∈ rounds, ∃ validator place,
          WeightedProposer.search profile (round.val % total (weights validators)) 0 validators = .ok (some validator) ∧
          proposer.getValidProposer profile round = .ok (some validator) ∧
          placed.getValidProposer profile round = .ok (some (validator, place))) ∧
        ∀ place entry, validators[place]? = some entry →
          (rounds.map (placed.getValidProposer profile)).count (.ok (some (entry.1, place))) = entry.2.val) ∧
    ∀ (validators : List O) (config : ProposerElectionConfig) (rounds : List U64) (start : Nat),
      config.initialRound.val ≤ start → rounds.map Fin.val = List.range' start validators.length →
        rounds.map (RoundRobinProposer.new validators config).getValidProposer =
          (validators.rotate (start - config.initialRound.val)).map some := by
  refine ⟨?_, ?_⟩
  · intro profile validators config rounds start positive later window
    have fits : total (weights validators) < U128.size := by
      have bound := window_lt window positive
      rw [U128.size]
      omega
    have same := total_entries validators
    have placedFits : total (weights (entries validators)) < U128.size := by rwa [same]
    have placedPositive : 0 < total (weights (entries validators)) := by rwa [same]
    refine ⟨_, _, new_eq profile config fits, new_eq profile config placedFits, ?_, ?_⟩
    · intro round member
      have started := started_of_mem window later member
      obtain ⟨validator, turn, found, selected⟩ := selects profile positive fits started
      obtain ⟨entry, placed, _, taken⟩ := selects profile placedPositive placedFits started
      rw [← turns_entries, List.getElem?_map, ← same, placed] at turn
      cases turn
      exact ⟨entry.1, entry.2, found, selected, taken⟩
    · intro place entry listed
      exact window_count profile positive later window listed
  · intro validators config rounds start later window
    exact roundRobin_window validators later window

theorem three_rounds_fair :
    let validators : List (Nat × U64) := [(1, 2), (2, 0), (3, 1)]
    (∃ proposer placed, WeightedProposer.new .dev validators .default = .ok proposer ∧
      WeightedProposer.new .dev (entries validators) .default = .ok placed ∧
      (∀ round ∈ [4, 5, 6], ∃ validator, proposer.getValidProposer .dev round = .ok (some validator)) ∧
      ([4, 5, 6].map (placed.getValidProposer .dev)).count (.ok (some (1, 0))) = 2) ∧
    [5, 6, 7].map (RoundRobinProposer.new [1, 2, 3] .default).getValidProposer = [some 2, some 3, some 1] := by
  intro validators
  obtain ⟨weighted, robin⟩ := election_fair (O := Nat)
  refine ⟨?_, robin [1, 2, 3] .default [5, 6, 7] 5 (by decide) (by decide)⟩
  obtain ⟨proposer, placed, built, marked, found, taken⟩ :=
    weighted .dev validators .default [4, 5, 6] 4 (by decide) (by decide) (by decide)
  refine ⟨proposer, placed, built, marked, ?_, taken 0 (1, 2) rfl⟩
  intro round member
  obtain ⟨validator, _, _, selected, _⟩ := found round member
  exact ⟨validator, selected⟩

/-- An election that comes to an end: no running sum overflows, and whoever is elected has
power. -/
structure Elects (profile : Profile) (proposer : WeightedProposer O) (round : U64) : Prop where
  sums : ∀ seen, seen <+: proposer.validators → total (weights seen) < U128.size
  returns : ∃ elected, proposer.getValidProposer profile round = .ok elected ∧
    ∀ validator ∈ elected, ∃ power, (validator, power) ∈ proposer.validators ∧ 0 < power

section Totality
variable {profile : Profile} {validators : List (O × U64)} {config : ProposerElectionConfig} {round : U64}

/-- A `Vec` has fewer than `2^64` elements, so its powers add up. -/
theorem total_lt_of_length (addressable : validators.length ≤ u64Max.val) : total (weights validators) < U128.size := by
  have bound : total (weights validators) ≤ (weights validators).length * u64Max.val := by
    apply total_le
    intro entry member
    obtain ⟨validator, _, rfl⟩ := List.mem_map.mp member
    exact Nat.le_of_lt_succ validator.2.isLt
  rw [weights, List.length_map] at bound
  exact U128.lt_size_of_words bound addressable

theorem new_validators {proposer : WeightedProposer O} (accepted : WeightedProposer.new profile validators config = .ok proposer) :
    proposer.validators = validators := by
  simp only [WeightedProposer.new] at accepted
  cases summed : U128.sum profile (validators.map fun validator => validator.2.val) with
  | error reason =>
    rw [summed] at accepted
    cases accepted
  | ok totalVotingPower =>
    rw [summed] at accepted
    cases accepted
    rfl

theorem total_prefix_le {seen : List (O × U64)} (start : seen <+: validators) : total (weights seen) ≤ total (weights validators) := by
  obtain ⟨rest, rfl⟩ := start
  rw [weights, weights, List.map_append, total_append]
  exact Nat.le_add_right _ _

theorem powered_iff : 0 < total (weights validators) ↔ ∃ validator ∈ validators, 0 < validator.2 := by
  rw [total_pos_iff]
  constructor
  · intro weighed
    obtain ⟨entry, member, positive⟩ := weighed
    obtain ⟨validator, listed, rfl⟩ := List.mem_map.mp member
    exact ⟨validator, listed, positive⟩
  · intro weighed
    obtain ⟨validator, listed, positive⟩ := weighed
    exact ⟨_, List.mem_map_of_mem listed, positive⟩

theorem elected_powered (positive : 0 < total (weights validators)) (fits : total (weights validators) < U128.size)
    (started : config.initialRound ≤ round) :
    ∃ elected, (⟨validators, total (weights validators), config⟩ : WeightedProposer O).getValidProposer profile round =
      .ok elected ∧ ∀ validator ∈ elected, ∃ power, (validator, power) ∈ validators ∧ 0 < power := by
  obtain ⟨validator, turn, _, selected⟩ := selects profile positive fits started
  refine ⟨some validator, selected, ?_⟩
  intro other same
  cases same
  obtain ⟨weight, member, weighed⟩ := mem_turns.mp (List.mem_of_getElem? turn)
  obtain ⟨⟨own, power⟩, listed, same⟩ := List.mem_map.mp member
  cases same
  exact ⟨power, listed, weighed⟩

/-- Without any power the remainder is taken by zero. -/
theorem powerless_panics (listed : validators ≠ []) (started : config.initialRound ≤ round) :
    (⟨validators, 0, config⟩ : WeightedProposer O).getValidProposer profile round =
      .error (.assertion "attempt to calculate the remainder with a divisor of zero") := by
  rw [WeightedProposer.getValidProposer, if_neg (not_lt.mpr started), WeightedProposer.selectWeightedProposer,
    if_neg (fun empty => listed (List.isEmpty_iff.mp empty)), if_pos rfl]

end Totality

/-- A proposer that `new` accepts elects at a round exactly if its list is empty, the round is
too early, or some validator has power; the sums fit for every list a `Vec` can hold. -/
theorem elects_iff_powered {profile : Profile} {validators : List (O × U64)} {config : ProposerElectionConfig}
    {proposer : WeightedProposer O} (accepted : WeightedProposer.new profile validators config = .ok proposer) (round : U64) :
    (validators.length ≤ u64Max.val → total (weights validators) < U128.size) ∧
    (Elects profile proposer round ↔ total (weights validators) < U128.size ∧
      (validators = [] ∨ round < config.initialRound ∨ ∃ validator ∈ validators, 0 < validator.2)) := by
  refine ⟨total_lt_of_length, ?_⟩
  constructor
  · intro elects
    have fits : total (weights validators) < U128.size := elects.sums validators (new_validators accepted ▸ List.prefix_rfl)
    refine ⟨fits, ?_⟩
    cases accepted.symm.trans (new_eq profile config fits)
    by_contra powerless
    obtain ⟨listed, remaining⟩ := not_or.mp powerless
    obtain ⟨started, unweighed⟩ := not_or.mp remaining
    have none : total (weights validators) = 0 := Nat.eq_zero_of_not_pos fun positive => unweighed (powered_iff.mp positive)
    obtain ⟨elected, returned, _⟩ := elects.returns
    rw [none, powerless_panics listed (not_lt.mp started)] at returned
    cases returned
  · intro condition
    obtain ⟨fits, able⟩ := condition
    cases accepted.symm.trans (new_eq profile config fits)
    refine ⟨fun seen start => Nat.lt_of_le_of_lt (total_prefix_le start) fits, ?_⟩
    by_cases early : round < config.initialRound
    · exact ⟨none, if_pos early, fun _ member => absurd member (Option.not_mem_none _)⟩
    · obtain rfl | before | powered := able
      · exact ⟨none, if_neg early, fun _ member => absurd member (Option.not_mem_none _)⟩
      · exact absurd before early
      · exact elected_powered (powered_iff.mpr powered) fits (not_lt.mp early)

theorem second_round_elects :
    ∃ proposer : WeightedProposer Nat, WeightedProposer.new .release [(1, 0), (2, 3)] .default = .ok proposer ∧
      Elects .release proposer 2 := by
  have accepted : WeightedProposer.new .release [(1, 0), (2, 3)] .default =
      .ok (⟨[(1, 0), (2, 3)], 3, .default⟩ : WeightedProposer Nat) := by decide
  refine ⟨_, accepted, (elects_iff_powered accepted 2).2.mpr ⟨by decide, Or.inr (Or.inr ?_)⟩⟩
  exact ⟨(2, 3), by decide, by decide⟩

/-- A validator without power is accepted, and no election among such ever returns. -/
theorem powerless_list_panics :
    ∃ proposer : WeightedProposer Nat, WeightedProposer.new .dev [(1, 0)] .default = .ok proposer ∧
      proposer.getValidProposer .dev 1 = .error (.assertion "attempt to calculate the remainder with a divisor of zero") ∧
      ¬ Elects .dev proposer 1 := by
  refine ⟨_, rfl, by decide, ?_⟩
  intro elects
  obtain ⟨elected, returned, _⟩ := elects.returns
  cases returned

end AptosBft.Proofs.Proposer
