import AptosBft.Proofs.Pacemaker
import AptosBft.Testing

/-! The exponent of the backoff. The index is a 64-bit number that is cut to 32 bits before
it is capped, so an index past `2^32` can stand for a small one. -/

namespace AptosBft.Proofs.Backoff
open Rust Mealy AptosBft.Pacemaker AptosBft.Proofs.Pacemaker

variable {F : Type}

/-- The cut leaves the index alone, or what is left of it is still capped. -/
def Uncut (strategy : ExponentialIntervalStrategy F) (index : U64) : Prop :=
  index.val < 4294967296 ∨ strategy.maxExponent.val ≤ index.val % 4294967296

/-- Powers grow with the exponent, and a longer interval is not rounded to a shorter one. -/
structure Rising [Floating F] (le : F → F → Prop) (strategy : ExponentialIntervalStrategy F) : Prop where
  power : ∀ low high : U64, low ≤ high → high ≤ strategy.maxExponent →
    le (Floating.powf strategy.exponentBase (Floating.ofU64 low)) (Floating.powf strategy.exponentBase (Floating.ofU64 high))
  rounds : ∀ small large, le small large →
    Floating.toU64 (Floating.ceil (Floating.mul (Floating.ofU64 strategy.baseMs) small)) ≤
      Floating.toU64 (Floating.ceil (Floating.mul (Floating.ofU64 strategy.baseMs) large))

section Exponent
variable {strategy : ExponentialIntervalStrategy F} {index earlier : U64}

theorem pow_val (small : strategy.maxExponent < 32) (index : U64) :
    (strategy.pow index).val = min (index.val % 4294967296) strategy.maxExponent.val := by
  have uncut : strategy.maxExponent.asU32 = strategy.maxExponent := by
    apply Fin.ext
    change strategy.maxExponent.val % 4294967296 = strategy.maxExponent.val
    have bound : strategy.maxExponent.val < 32 := small
    omega
  rw [ExponentialIntervalStrategy.pow, uncut]
  exact Fin.coe_min _ _

theorem pow_eq_min_iff (small : strategy.maxExponent < 32) :
    strategy.pow index = min index strategy.maxExponent ↔ Uncut strategy index := by
  have bound : strategy.maxExponent.val < 32 := small
  have capped : (min index strategy.maxExponent).val = min index.val strategy.maxExponent.val := Fin.coe_min _ _
  rw [Fin.ext_iff, pow_val small, capped, Uncut]
  omega

theorem pow_le_of_uncut (small : strategy.maxExponent < 32) (uncut : Uncut strategy index) (before : earlier ≤ index) :
    strategy.pow earlier ≤ strategy.pow index := by
  have bound : strategy.maxExponent.val < 32 := small
  have ahead : earlier.val ≤ index.val := before
  rw [Fin.le_def, pow_val small, pow_val small]
  rw [Uncut] at uncut
  omega

/-- An index that is cut comes after all exponents were reached. -/
theorem pow_le_iff (small : strategy.maxExponent < 32) :
    (∀ earlier ≤ index, strategy.pow earlier ≤ strategy.pow index) ↔ Uncut strategy index := by
  constructor
  · intro rises
    by_contra cut
    have bound : strategy.maxExponent.val < 32 := small
    obtain ⟨wide, low⟩ := not_or.mp cut
    have reached : strategy.pow strategy.maxExponent ≤ strategy.pow index := by
      apply rises
      change strategy.maxExponent.val ≤ index.val
      omega
    rw [Fin.le_def, pow_val small, pow_val small] at reached
    omega
  · intro uncut earlier before
    exact pow_le_of_uncut small uncut before

theorem new_small [Floating F] {base : Duration} {exponentBase : F} {maxExponent : U64}
    (accepted : ExponentialIntervalStrategy.new base exponentBase maxExponent = .ok strategy) : strategy.maxExponent < 32 := by
  rw [ExponentialIntervalStrategy.new] at accepted
  split at accepted
  · cases accepted
  next small =>
    split at accepted
    · cases accepted
    · cases accepted
      exact not_not.mp small

theorem fromMillis_mono : Monotone Duration.fromMillis := by
  intro millis later before
  exact Nat.mul_le_mul_right 1000000 before

theorem duration_le [Floating F] {le : F → F → Prop} (rising : Rising le strategy) (small : strategy.maxExponent < 32)
    (uncut : Uncut strategy index) (before : earlier ≤ index) :
    RoundIntervalStrategy.getRoundDuration strategy earlier ≤ RoundIntervalStrategy.getRoundDuration strategy index := by
  have capped : strategy.pow index ≤ strategy.maxExponent := by
    rw [Fin.le_def, pow_val small]
    exact Nat.min_le_right _ _
  apply fromMillis_mono
  apply rising.rounds
  exact rising.power _ _ (pow_le_of_uncut small uncut before) capped

end Exponent

/-- The exponent is the documented one, and none before it is larger, exactly at the indices
that the cut does not make small. At those the timeouts of a pacemaker grow with the rounds
since the last ordered one. -/
theorem backoff_documented_iff [Floating F] {base : Duration} {exponentBase : F} {maxExponent : U64}
    {strategy : ExponentialIntervalStrategy F}
    (accepted : ExponentialIntervalStrategy.new base exponentBase maxExponent = .ok strategy) :
    (∀ index, (strategy.pow index = min index strategy.maxExponent ↔ Uncut strategy index) ∧
      ((∀ earlier ≤ index, strategy.pow earlier ≤ strategy.pow index) ↔ Uncut strategy index)) ∧
    ∀ (profile : Profile) (config other : PacemakerConfig F) (calls further : List Call),
      (∀ input ∈ calls, input ≠ .recordOrderedRound u64Max) → (∀ input ∈ further, input ≠ .recordOrderedRound u64Max) →
      let first := exec (call profile) (.new strategy config) calls
      let second := exec (call profile) (.new strategy other) further
      let near := sinceOrdered first.highestOrderedRound first.currentRound
      let far := sinceOrdered second.highestOrderedRound second.currentRound
      near ≤ far → Uncut strategy far →
        strategy.pow near ≤ strategy.pow far ∧
        ∀ le, Rising le strategy → ∃ shorter longer, first.currentRoundTimeout profile = .ok shorter ∧
          second.currentRoundTimeout profile = .ok longer ∧ shorter ≤ longer := by
  have small := new_small accepted
  refine ⟨fun index => ⟨pow_eq_min_iff small, pow_le_iff small⟩, ?_⟩
  intro profile config other calls further bounded limited first second near far ahead uncut
  refine ⟨pow_le_of_uncut small uncut ahead, ?_⟩
  intro le rising
  obtain ⟨same, room⟩ := run_paced profile (.new strategy config) bounded
  obtain ⟨equal, space⟩ := run_paced profile (.new strategy other) limited
  refine ⟨_, _, currentRoundTimeout_eq profile room, currentRoundTimeout_eq profile space, ?_⟩
  rw [same, equal]
  exact duration_le rising small uncut ahead

theorem second_turn_still_capped :
    let strategy : ExponentialIntervalStrategy Nat := ⟨1000, 2, 8⟩
    let config : PacemakerConfig Nat := .default
    let first := exec (call .dev) (.new strategy config) [.enterNewRound 4]
    let second := exec (call .dev) (.new strategy config) [.enterNewRound 4294967305]
    strategy.pow 3 ≤ strategy.pow 4294967304 ∧
    ∃ shorter longer, first.currentRoundTimeout .dev = .ok shorter ∧ second.currentRoundTimeout .dev = .ok longer ∧
      shorter ≤ longer := by
  intro strategy config first second
  have accepted : ExponentialIntervalStrategy.new (Duration.fromMillis 1000) 2 8 = .ok strategy := by decide
  obtain ⟨rises, longer⟩ := (backoff_documented_iff accepted).2 .dev config config [.enterNewRound 4]
    [.enterNewRound 4294967305] (by decide) (by decide) (by decide) (Or.inr (by decide))
  refine ⟨rises, longer (· ≤ ·) ⟨?_, ?_⟩⟩
  · intro low high before _
    exact Nat.pow_le_pow_right (by decide) before
  · intro small large before
    have scaled : 1000 * small ≤ 1000 * large := Nat.mul_le_mul_left 1000 before
    change (if fits : 1000 * small < 18446744073709551616 then (⟨1000 * small, fits⟩ : U64) else u64Max) ≤
      if fits : 1000 * large < 18446744073709551616 then ⟨1000 * large, fits⟩ else u64Max
    split
    next fits =>
      split
      · exact scaled
      · exact Fin.le_last _
    next wide =>
      rw [dif_neg (fun fits => wide (Nat.lt_of_le_of_lt scaled fits))]

/-- The round `2^32` rounds late gets the timeout of the first one. -/
theorem cut_index_resets_timeout :
    let config : PacemakerConfig Nat := .default
    ∃ strategy : ExponentialIntervalStrategy Nat,
      ExponentialIntervalStrategy.new (Duration.fromMillis 1000) 2 8 = .ok strategy ∧
      strategy.pow 4294967296 ≠ min 4294967296 strategy.maxExponent ∧
      ¬ strategy.pow 8 ≤ strategy.pow 4294967296 ∧
      (exec (call .dev) (.new strategy config) [.enterNewRound 9]).currentRoundTimeout .dev =
        .ok (Duration.fromMillis 256000) ∧
      (exec (call .dev) (.new strategy config) [.enterNewRound 4294967297]).currentRoundTimeout .dev =
        .ok (Duration.fromMillis 1000) := by
  intro config
  exact ⟨⟨1000, 2, 8⟩, by decide, by decide, by decide, by decide, by decide⟩

end AptosBft.Proofs.Backoff
