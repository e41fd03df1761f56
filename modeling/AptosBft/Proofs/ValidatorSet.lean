import AptosBft.Lib.Quorum
import AptosBft.Testing

/-! Quorums of a validator set. The threshold is computed in whole numbers and in 128
bits. Votes are summed as they come, so a voter that comes twice counts twice. -/

namespace AptosBft.Proofs.ValidatorSet
open Rust AptosBft.ValidatorSet

variable {N : Type} [DecidableEq N]

/-- The power of a voter, which is nothing outside the set. -/
def power (set : ValidatorSet N) (voter : N) : Nat := ((set.getVotingPower voter).map Fin.val).getD 0

section Arithmetic
variable {set : ValidatorSet N} {voters : List N}

theorem sum_votes (set : ValidatorSet N) (voters : List N) :
    ((voters.filterMap set.getVotingPower).map Fin.val).sum = (voters.map (power set)).sum := by
  induction voters with
  | nil => rfl
  | cons voter voters ih =>
    rw [List.map_cons, List.sum_cons, ← ih, power]
    cases found : set.getVotingPower voter with
    | none => rw [List.filterMap_cons_none found, Option.map_none, Option.getD_none, Nat.zero_add]
    | some held => rw [List.filterMap_cons_some found, List.map_cons, List.sum_cons, Option.map_some, Option.getD_some]

omit [DecidableEq N] in
theorem quorumThreshold_of_lt (profile : Profile) (small : set.totalVotingPower * 2 < U128.size) :
    set.quorumThreshold profile = .ok (set.totalVotingPower * 2 / 3 + 1) := by
  have threshold : set.totalVotingPower * 2 / 3 + 1 < U128.size := by
    rw [U128.size] at small ⊢
    omega
  rw [quorumThreshold, U128.times, U128.narrow_of_lt profile small]
  exact U128.narrow_of_lt profile threshold

omit [DecidableEq N] in
theorem quorumThreshold_dev_lt {threshold : Nat} (returned : set.quorumThreshold .dev = .ok threshold) :
    set.totalVotingPower * 2 < U128.size := by
  rw [quorumThreshold, U128.times] at returned
  cases doubled : U128.narrow .dev (set.totalVotingPower * 2) with
  | error reason =>
    rw [doubled] at returned
    cases returned
  | ok value => exact (U128.narrow_dev_ok.mp doubled).1

/-- Where nothing overflows, the powers of all votes are compared with the threshold. -/
theorem hasQuorum_of_lt (profile : Profile) (few : (voters.map (power set)).sum < U128.size)
    (small : set.totalVotingPower * 2 < U128.size) :
    set.hasQuorum profile voters = .ok (decide (set.totalVotingPower * 2 / 3 + 1 ≤ (voters.map (power set)).sum)) := by
  rw [← sum_votes] at few ⊢
  rw [hasQuorum, U128.sum_of_lt profile few, quorumThreshold_of_lt profile small]
  rfl

theorem hasQuorum_dev_lt {answer : Bool} (returned : set.hasQuorum .dev voters = .ok answer) :
    (voters.map (power set)).sum < U128.size ∧ set.totalVotingPower * 2 < U128.size := by
  rw [hasQuorum] at returned
  cases summed : U128.sum .dev ((voters.filterMap set.getVotingPower).map Fin.val) with
  | error reason =>
    rw [summed] at returned
    cases returned
  | ok total =>
    rw [summed] at returned
    cases compared : set.quorumThreshold .dev with
    | error reason =>
      rw [compared] at returned
      cases returned
    | ok threshold =>
      rw [← sum_votes]
      exact ⟨U128.sum_dev_lt summed, quorumThreshold_dev_lt compared⟩

end Arithmetic

section Members
variable {epoch : U64} {validators : Finmap fun _ : N => U64} {voters : List N}

/-- The members of the set among some voters. -/
def present (set : ValidatorSet N) (voters : List N) : Finset N := set.validators.keys.filter fun member => member ∈ voters

/-- The members of the set that do not vote. -/
def missing (set : ValidatorSet N) (voters : List N) : Finset N := set.validators.keys.filter fun member => member ∉ voters

theorem total_eq (epoch : U64) (validators : Finmap fun _ : N => U64) :
    (new epoch validators).totalVotingPower = ∑ member ∈ validators.keys, power (new epoch validators) member := by
  change _ = ((validators.entries.map Sigma.fst).map _).sum
  rw [Multiset.map_map]
  refine congrArg Multiset.sum (Multiset.map_congr rfl ?_)
  intro entry member
  have found : validators.lookup entry.1 = some entry.2 := Finmap.mem_lookup_iff.mpr member
  simp only [Function.comp_apply, power, getVotingPower, new, found, Option.map_some, Option.getD_some]

omit [DecidableEq N] in
theorem total_lt (epoch : U64) (few : validators.entries.card < 2 ^ 63) :
    (new epoch validators).totalVotingPower * 2 < U128.size := by
  have each : ∀ value ∈ validators.entries.map fun entry => entry.2.val, value ≤ 18446744073709551615 := by
    intro value member
    obtain ⟨entry, _, rfl⟩ := Multiset.mem_map.mp member
    have bound := entry.2.isLt
    omega
  have total := Multiset.sum_le_card_nsmul _ _ each
  rw [Multiset.card_map, smul_eq_mul] at total
  change (Multiset.map _ _).sum * 2 < 340282366920938463463374607431768211456
  omega

/-- Voters that come once each weigh what the members among them hold. -/
theorem sum_present {set : ValidatorSet N} (once : voters.Nodup) :
    (voters.map (power set)).sum = ∑ member ∈ present set voters, power set member := by
  rw [← List.sum_toFinset _ once]
  symm
  apply Finset.sum_subset
  · intro member inside
    exact List.mem_toFinset.mpr (Finset.mem_filter.mp inside).2
  · intro voter cast outside
    have unknown : set.validators.lookup voter = none := by
      rw [Finmap.lookup_eq_none]
      intro known
      exact outside (Finset.mem_filter.mpr ⟨Finmap.mem_keys.mpr known, List.mem_toFinset.mp cast⟩)
    rw [power, getVotingPower, unknown]
    rfl

theorem present_add_missing (epoch : U64) (validators : Finmap fun _ : N => U64) (voters : List N) :
    ∑ member ∈ present (new epoch validators) voters, power (new epoch validators) member +
      ∑ member ∈ missing (new epoch validators) voters, power (new epoch validators) member =
        (new epoch validators).totalVotingPower := by
  rw [total_eq]
  exact Finset.sum_filter_add_sum_filter_not _ _ _

/-- A list without repetitions has a quorum if its members hold more than two thirds. -/
theorem hasQuorum_iff (profile : Profile) (few : validators.entries.card < 2 ^ 63) (once : voters.Nodup) :
    (new epoch validators).hasQuorum profile voters = .ok true ↔
      2 * (new epoch validators).totalVotingPower <
        3 * ∑ member ∈ present (new epoch validators) voters, power (new epoch validators) member := by
  have small := total_lt epoch few
  have whole := present_add_missing epoch validators voters
  have fits : (voters.map (power (new epoch validators))).sum < U128.size := by
    rw [sum_present once]
    omega
  rw [hasQuorum_of_lt profile fits small, sum_present once, Except.ok.injEq, decide_eq_true_eq]
  omega

/-- The threshold fits into 128 bits; two quorums share more than a third of the power;
and the members outside of any third of the power are a quorum. -/
theorem quorums_intersect_and_available (profile : Profile) (epoch : U64) {validators : Finmap fun _ : N => U64}
    (few : validators.entries.card < 2 ^ 63) :
    let set := ValidatorSet.new epoch validators
    set.quorumThreshold profile = .ok (set.totalVotingPower * 2 / 3 + 1) ∧
    (∀ first second : List N, first.Nodup → second.Nodup → set.hasQuorum profile first = .ok true →
      set.hasQuorum profile second = .ok true →
        set.totalVotingPower < 3 * ∑ member ∈ present set first ∩ present set second, power set member) ∧
    ∀ voters : List N, voters.Nodup → 3 * ∑ member ∈ missing set voters, power set member < set.totalVotingPower →
      set.hasQuorum profile voters = .ok true := by
  intro set
  refine ⟨quorumThreshold_of_lt profile (total_lt epoch few), ?_, ?_⟩
  · intro first second one other left right
    have firstQuorum := (hasQuorum_iff profile few one).mp left
    have secondQuorum := (hasQuorum_iff profile few other).mp right
    rw [total_eq] at firstQuorum secondQuorum ⊢
    exact Quorum.two_thirds_overlap (power set) (Finset.filter_subset _ _) (Finset.filter_subset _ _) firstQuorum secondQuorum
  · intro voters once minority
    have whole : ∑ member ∈ present set voters, power set member + ∑ member ∈ missing set voters, power set member =
        set.totalVotingPower := present_add_missing epoch validators voters
    have majority : 2 * set.totalVotingPower < 3 * ∑ member ∈ present set voters, power set member := by omega
    exact (hasQuorum_iff profile few once).mpr majority

end Members

/-- Three of four equal validators are a quorum, and two such groups share two of them. -/
theorem tested_quorums_intersect :
    let set := createTestValidatorSet 1 4
    set.totalVotingPower < 3 * ∑ member ∈ present set [⟨0⟩, ⟨1⟩, ⟨2⟩] ∩ present set [⟨1⟩, ⟨2⟩, ⟨3⟩], power set member ∧
      set.hasQuorum .dev [⟨0⟩, ⟨2⟩, ⟨3⟩] = .ok true := by
  intro set
  have few : set.validators.entries.card < 2 ^ 63 := by decide
  obtain ⟨_, shared, available⟩ := quorums_intersect_and_available .dev 1 few
  exact ⟨shared _ _ (by decide) (by decide) (by decide) (by decide), available _ (by decide) (by decide)⟩

section Repetitions
variable {set : ValidatorSet N} {voters : List N}

/-- The power of everyone who votes, counted once. -/
def distinctPower (set : ValidatorSet N) (voters : List N) : Nat := ∑ voter ∈ voters.toFinset, power set voter

/-- The power of the votes that are not the first of their voter. -/
def repeatedPower (set : ValidatorSet N) (voters : List N) : Nat :=
  ∑ voter ∈ voters.toFinset, (voters.count voter - 1) * power set voter

theorem sum_repeated (set : ValidatorSet N) (voters : List N) :
    (voters.map (power set)).sum = distinctPower set voters + repeatedPower set voters := Quorum.sum_map_eq (power set) voters

theorem sum_dedup (set : ValidatorSet N) (voters : List N) :
    (voters.dedup.map (power set)).sum = distinctPower set voters := by
  rw [← List.sum_toFinset _ (List.nodup_dedup voters), distinctPower]
  refine Finset.sum_congr (Finset.ext ?_) (fun _ _ => rfl)
  intro voter
  rw [List.mem_toFinset, List.mem_toFinset, List.mem_dedup]

/-- Both builds answer for the votes as for their voters without repetitions, and no to
voters with at most two thirds of the power. -/
def CountsOnce (set : ValidatorSet N) (voters : List N) : Prop :=
  ∀ profile, ∃ answer, set.hasQuorum profile voters = .ok answer ∧ set.hasQuorum profile voters.dedup = .ok answer ∧
    (3 * distinctPower set voters ≤ 2 * set.totalVotingPower → answer = false)

/-- Repetitions do not matter exactly if they overflow nothing and cannot lift voters
below the threshold to it. -/
theorem counts_once_iff (set : ValidatorSet N) (voters : List N) :
    CountsOnce set voters ↔ set.totalVotingPower * 2 < U128.size ∧
      distinctPower set voters + repeatedPower set voters < U128.size ∧
      (set.totalVotingPower * 2 / 3 + 1 ≤ distinctPower set voters ∨
        distinctPower set voters + repeatedPower set voters < set.totalVotingPower * 2 / 3 + 1) := by
  have answers : ∀ profile, set.totalVotingPower * 2 < U128.size →
      distinctPower set voters + repeatedPower set voters < U128.size →
      set.hasQuorum profile voters = .ok (decide (set.totalVotingPower * 2 / 3 + 1 ≤
        distinctPower set voters + repeatedPower set voters)) ∧
      set.hasQuorum profile voters.dedup = .ok (decide (set.totalVotingPower * 2 / 3 + 1 ≤ distinctPower set voters)) := by
    intro profile small few
    have fits : (voters.map (power set)).sum < U128.size := by rwa [sum_repeated]
    have fewer : (voters.dedup.map (power set)).sum < U128.size := by
      rw [sum_dedup]
      omega
    rw [hasQuorum_of_lt profile fits small, hasQuorum_of_lt profile fewer small, sum_repeated, sum_dedup]
    exact ⟨rfl, rfl⟩
  constructor
  · intro counts
    obtain ⟨answer, all, distinct, _⟩ := counts .dev
    obtain ⟨few, small⟩ := hasQuorum_dev_lt all
    rw [sum_repeated] at few
    refine ⟨small, few, ?_⟩
    obtain ⟨left, right⟩ := answers .dev small few
    have same := (left.symm.trans all).trans (distinct.symm.trans right)
    rw [Except.ok.injEq, decide_eq_decide] at same
    omega
  · intro bounds profile
    obtain ⟨small, few, level⟩ := bounds
    obtain ⟨left, right⟩ := answers profile small few
    refine ⟨_, left, right.trans ?_, ?_⟩
    · rw [Except.ok.injEq, decide_eq_decide]
      omega
    · intro minority
      rw [decide_eq_false_iff_not]
      omega

end Repetitions

/-- One validator of four votes three times and is a quorum. -/
theorem repeated_vote_has_quorum :
    let set := createTestValidatorSet 1 4
    set.hasQuorum .dev [⟨1⟩, ⟨1⟩, ⟨1⟩] = .ok true ∧ set.hasQuorum .dev [⟨1⟩] = .ok false ∧
      ¬CountsOnce set [⟨1⟩, ⟨1⟩, ⟨1⟩] := by
  intro set
  have all : set.hasQuorum .dev [⟨1⟩, ⟨1⟩, ⟨1⟩] = .ok true := by decide
  have once : set.hasQuorum .dev [⟨1⟩] = .ok false := by decide
  refine ⟨all, once, ?_⟩
  intro counts
  obtain ⟨answer, said, distinct, _⟩ := counts .dev
  have deduplicated : [⟨1⟩, ⟨1⟩, ⟨1⟩].dedup = [(⟨1⟩ : TestAuthor)] := by decide
  rw [deduplicated, once] at distinct
  cases all.symm.trans said
  cases distinct

end AptosBft.Proofs.ValidatorSet
