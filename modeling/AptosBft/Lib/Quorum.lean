import Mathlib.Algebra.BigOperators.Group.Finset.Basic
import Mathlib.Algebra.Group.Action.Defs
import Mathlib.Algebra.GroupWithZero.Nat
import Mathlib.Algebra.Order.BigOperators.Group.Finset
import Mathlib.Data.List.Chain

/-! Weighted quorums. Members of a finite committee carry a power; two groups
that each hold more than two thirds of it share more than one third. Over it, a
ballot box in which certificates are quorums of ballots for one value, and voters
that never go back and never change their mind. -/

namespace Quorum

open Finset

variable {N : Type} [DecidableEq N] (power : N → Nat)

theorem overlap {committee first second : Finset N} (left : first ⊆ committee) (right : second ⊆ committee) :
    ∑ member ∈ first, power member + ∑ member ∈ second, power member ≤
      ∑ member ∈ committee, power member + ∑ member ∈ first ∩ second, power member := by
  rw [← sum_union_inter]
  exact Nat.add_le_add_right (sum_le_sum_of_subset (union_subset left right)) _

theorem two_thirds_overlap {committee first second : Finset N}
    (left : first ⊆ committee) (right : second ⊆ committee)
    (firstQuorum : 2 * ∑ member ∈ committee, power member < 3 * ∑ member ∈ first, power member)
    (secondQuorum : 2 * ∑ member ∈ committee, power member < 3 * ∑ member ∈ second, power member) :
    ∑ member ∈ committee, power member < 3 * ∑ member ∈ first ∩ second, power member := by
  have shared := overlap power left right
  omega

/-- Two groups that each hold a quorum of more than half of the power share a member. -/
theorem majorities_meet {committee first second : Finset N} (left : first ⊆ committee) (right : second ⊆ committee) {quorum : Nat}
    (majority : ∑ member ∈ committee, power member < 2 * quorum) (firstQuorum : quorum ≤ ∑ member ∈ first, power member)
    (secondQuorum : quorum ≤ ∑ member ∈ second, power member) : ∃ member ∈ first, member ∈ second := by
  have shared := overlap power left right
  obtain apart | ⟨member, inside⟩ := (first ∩ second).eq_empty_or_nonempty
  · rw [apart, sum_empty] at shared
    omega
  · exact ⟨member, mem_inter.mp inside⟩

theorem exists_outside {group faulty : Finset N}
    (outweighs : ∑ member ∈ faulty, power member < ∑ member ∈ group, power member) :
    ∃ member ∈ group, member ∉ faulty := by
  by_contra covered
  push Not at covered
  exact absurd (sum_le_sum_of_subset (f := power) covered) (Nat.not_le.mpr outweighs)

theorem honest_overlap {committee faulty first second : Finset N}
    (left : first ⊆ committee) (right : second ⊆ committee)
    (firstQuorum : 2 * ∑ member ∈ committee, power member < 3 * ∑ member ∈ first, power member)
    (secondQuorum : 2 * ∑ member ∈ committee, power member < 3 * ∑ member ∈ second, power member)
    (minority : 3 * ∑ member ∈ faulty, power member < ∑ member ∈ committee, power member) :
    ∃ member ∈ first ∩ second, member ∉ faulty := by
  have shared := two_thirds_overlap power left right firstQuorum secondQuorum
  exact exists_outside power (by omega)

/-- A list weighs what its members weigh and once more for each repetition. -/
theorem sum_map_eq (members : List N) :
    (members.map power).sum = ∑ member ∈ members.toFinset, power member +
      ∑ member ∈ members.toFinset, (members.count member - 1) * power member := by
  rw [sum_list_map_count, ← sum_add_distrib]
  apply sum_congr rfl
  intro member inside
  have listed : 0 < members.count member := List.count_pos_iff.mpr (List.mem_toFinset.mp inside)
  obtain ⟨rest, again⟩ := Nat.exists_eq_add_of_lt listed
  rw [again, smul_eq_mul, Nat.zero_add, Nat.add_sub_cancel, Nat.add_mul, Nat.one_mul, Nat.add_comm]

/-- The repetitions do not count exactly if only members without power are repeated. -/
theorem sum_map_eq_iff (members : List N) :
    (members.map power).sum = ∑ member ∈ members.toFinset, power member ↔
      ∀ member, 0 < power member → members.count member ≤ 1 := by
  rw [sum_map_eq, Nat.add_eq_left, sum_eq_zero_iff]
  constructor
  · intro zero member weighs
    by_cases listed : member ∈ members
    · rcases Nat.mul_eq_zero.mp (zero member (List.mem_toFinset.mpr listed)) with once | nothing
      · omega
      · omega
    · rw [List.count_eq_zero.mpr listed]
      exact Nat.zero_le _
  · intro once member _
    rcases Nat.eq_zero_or_pos (power member) with nothing | weighs
    · rw [nothing, Nat.mul_zero]
    · rw [Nat.sub_eq_zero_of_le (once member weighs), Nat.zero_mul]

structure Ballot (N σ η : Type) where
  voter : N
  slot : σ
  value : η
  deriving DecidableEq, Repr

variable {σ η : Type} [DecidableEq σ] [DecidableEq η]

def voters (committee : Finset N) (box : List (Ballot N σ η)) (slot : σ) (value : η) : Finset N :=
  committee.filter fun member => ⟨member, slot, value⟩ ∈ box

theorem mem_voters {committee : Finset N} {box : List (Ballot N σ η)} {slot : σ} {value : η} {member : N} :
    member ∈ voters committee box slot value ↔ member ∈ committee ∧ ⟨member, slot, value⟩ ∈ box := by
  simp only [voters, mem_filter]

def Certified (committee : Finset N) (box : List (Ballot N σ η)) (slot : σ) (value : η) : Prop :=
  2 * ∑ member ∈ committee, power member < 3 * ∑ member ∈ voters committee box slot value, power member

instance (committee : Finset N) (box : List (Ballot N σ η)) (slot : σ) (value : η) :
    Decidable (Certified power committee box slot value) := inferInstanceAs (Decidable (_ < _))

theorem Certified.mono {committee : Finset N} {box later : List (Ballot N σ η)} {slot : σ} {value : η}
    (certified : Certified power committee box slot value) (grown : box ⊆ later) :
    Certified power committee later slot value := by
  have more : voters committee box slot value ⊆ voters committee later slot value := by
    intro member inside
    obtain ⟨listed, cast⟩ := mem_voters.mp inside
    exact mem_voters.mpr ⟨listed, grown cast⟩
  have heavier := sum_le_sum_of_subset (f := power) more
  simp only [Certified] at certified ⊢
  omega

theorem Certified.honest_voter {committee faulty : Finset N} {box : List (Ballot N σ η)} {slot : σ} {value : η}
    (certified : Certified power committee box slot value)
    (minority : 3 * ∑ member ∈ faulty, power member < ∑ member ∈ committee, power member) :
    ∃ member ∈ committee, member ∉ faulty ∧ ⟨member, slot, value⟩ ∈ box := by
  simp only [Certified] at certified
  have outweighs : ∑ member ∈ faulty, power member < ∑ member ∈ voters committee box slot value, power member := by
    omega
  obtain ⟨member, inside, honest⟩ := exists_outside power outweighs
  obtain ⟨listed, cast⟩ := mem_voters.mp inside
  exact ⟨member, listed, honest, cast⟩

/-- Members outside the faulty minority that cast one value per slot make the
certified value of a slot unique. -/
theorem Certified.unique {committee faulty : Finset N} {box : List (Ballot N σ η)} {slot : σ} {first second : η}
    (once : ∀ member ∈ committee, member ∉ faulty → ∀ left right : η,
      ⟨member, slot, left⟩ ∈ box → ⟨member, slot, right⟩ ∈ box → left = right)
    (minority : 3 * ∑ member ∈ faulty, power member < ∑ member ∈ committee, power member)
    (left : Certified power committee box slot first) (right : Certified power committee box slot second) :
    first = second := by
  obtain ⟨member, inside, honest⟩ := honest_overlap power (filter_subset _ _) (filter_subset _ _) left right minority
  obtain ⟨inFirst, inSecond⟩ := mem_inter.mp inside
  obtain ⟨listed, castFirst⟩ := mem_voters.mp inFirst
  exact once member listed honest first second castFirst (mem_voters.mp inSecond).2

section Steady
variable {α ρ ν : Type} [PartialOrder ρ] (key : α → ρ) (value : α → ν)

/-- The later vote has a higher key, or repeats the earlier one's value. -/
def Steady (earlier later : α) : Prop :=
  key earlier < key later ∨ (key earlier = key later ∧ value earlier = value later)

theorem Steady.trans {first second third : α} (left : Steady key value first second)
    (right : Steady key value second third) : Steady key value first third := by
  rcases left with below | ⟨sameKey, sameValue⟩
  · rcases right with above | ⟨levelKey, _⟩
    · exact Or.inl (below.trans above)
    · exact Or.inl (levelKey ▸ below)
  · rcases right with above | ⟨levelKey, levelValue⟩
    · exact Or.inl (sameKey ▸ above)
    · exact Or.inr ⟨sameKey.trans levelKey, sameValue.trans levelValue⟩

instance : IsTrans α (Steady key value) := ⟨fun _ _ _ => Steady.trans key value⟩

variable {key value}

theorem steady_snoc {votes : List α} {next : α} (steady : votes.IsChain (Steady key value))
    (forward : ∀ last ∈ votes.getLast?, key last ≤ key next)
    (keeps : ∀ last ∈ votes.getLast?, key last = key next → value last = value next) :
    (votes ++ [next]).IsChain (Steady key value) := by
  refine List.isChain_append.mpr ⟨steady, .singleton _, ?_⟩
  intro last final other only
  obtain rfl : next = other := Option.some.inj only
  rcases (forward last final).lt_or_eq with lower | level
  · exact Or.inl lower
  · exact Or.inr ⟨level, keeps last final level⟩

/-- Enough that each vote is steady against the one just before it. -/
theorem steady_agree {votes : List α} (steady : votes.IsChain (Steady key value)) {first second : α}
    (left : first ∈ votes) (right : second ∈ votes) (same : key first = key second) :
    value first = value second := by
  have agreed : votes.Pairwise fun one other => key one = key other → value one = value other := by
    refine (List.isChain_iff_pairwise.mp steady).imp ?_
    intro one other steady level
    rcases steady with below | ⟨_, agreed⟩
    · exact absurd level below.ne
    · exact agreed
  have symmetric : Std.Symm fun one other : α => key one = key other → value one = value other :=
    ⟨fun _ _ agree level => (agree level.symm).symm⟩
  exact agreed.forall_of_forall (fun _ _ _ => rfl) left right same

end Steady
end Quorum
