import AptosBft.Traits

/-! `liveness/pacemaker.rs`. `usize` has 64 bits. The floating-point numbers of the
backoff are a parameter: the code takes powers and products of them and compares and
rounds the results. -/

namespace AptosBft
open Rust

/-- `std::time::Duration`: whole nanoseconds, at most `u64::MAX` full seconds. -/
abbrev Duration := Fin 18446744073709551616000000000

namespace Duration

def fromMillis (millis : U64) : Duration := ⟨millis.val * 1000000, by omega⟩

def asMillis (duration : Duration) : Nat := duration.val / 1000000

end Duration

/-- The operations of `f64` that the interval strategy uses. -/
class Floating (F : Type) where
  ofU64 : U64 → F
  powf : F → F → F
  mul : F → F → F
  ceil : F → F
  lt : F → F → Bool
  toU64 : F → U64

structure PacemakerConfig (F : Type) where
  baseDurationMs : U64
  exponentBase : F
  maxExponent : U64
  initialRound : U64
  deriving DecidableEq

def PacemakerConfig.default {F : Type} [Floating F] : PacemakerConfig F := ⟨1000, Floating.ofU64 2, 8, 1⟩

def PacemakerConfig.baseDuration {F : Type} (config : PacemakerConfig F) : Duration := Duration.fromMillis config.baseDurationMs

inductive NewRoundReason where
  | quorumCertificate
  | timeout (roundsSinceOrdered : U64)
  deriving DecidableEq, Repr

structure NewRoundEvent where
  round : U64
  reason : NewRoundReason
  timeoutDuration : Duration
  deriving DecidableEq, Repr

class RoundIntervalStrategy (I : Type) where
  getRoundDuration : I → U64 → Duration

structure ExponentialIntervalStrategy (F : Type) where
  baseMs : U64
  exponentBase : F
  maxExponent : U64
  deriving DecidableEq

namespace ExponentialIntervalStrategy
variable {F : Type} [Floating F]

def new (base : Duration) (exponentBase : F) (maxExponent : U64) : Except Panic (ExponentialIntervalStrategy F) :=
  if ¬ maxExponent < 32 then .error (.assertion "max_exponent should be < 32")
  else if !Floating.lt (Floating.ceil (Floating.powf exponentBase (Floating.ofU64 maxExponent))) (Floating.ofU64 4294967295 : F) then
    .error (.assertion "Maximum interval multiplier should be less than u32::MAX")
  else .ok ⟨Fin.ofNat _ base.asMillis, exponentBase, maxExponent⟩

omit [Floating F] in
/-- The exponent of `get_round_duration`. The index is cut to 32 bits before it is capped. -/
def pow (strategy : ExponentialIntervalStrategy F) (roundIndexAfterOrdered : U64) : U64 :=
  min roundIndexAfterOrdered.asU32 strategy.maxExponent.asU32

instance : RoundIntervalStrategy (ExponentialIntervalStrategy F) where
  getRoundDuration strategy roundIndexAfterOrdered :=
    let multiplier := Floating.powf strategy.exponentBase (Floating.ofU64 (strategy.pow roundIndexAfterOrdered))
    let durationMs := Floating.toU64 (Floating.ceil (Floating.mul (Floating.ofU64 strategy.baseMs) multiplier))
    Duration.fromMillis durationMs

end ExponentialIntervalStrategy

structure Pacemaker (I F : Type) where
  intervalStrategy : I
  highestOrderedRound : U64
  currentRound : U64
  config : PacemakerConfig F

namespace Pacemaker
variable {I F : Type}

def new (intervalStrategy : I) (config : PacemakerConfig F) : Pacemaker I F :=
  ⟨intervalStrategy, config.initialRound.saturatingSub 1, config.initialRound, config⟩

def canEnterRound (pacemaker : Pacemaker I F) (round : U64) : Bool := round > pacemaker.currentRound

/-- `highest_ordered_round + 1` is unchecked, and computed only for a round that
may be entered. -/
def enterNewRound [RoundIntervalStrategy I] (profile : Profile) (pacemaker : Pacemaker I F) (round : U64) :
    Outcome Error NewRoundEvent × Pacemaker I F :=
  if !pacemaker.canEnterRound round then
    (.error (.err ⟨s!"Cannot enter round {round}: current round is {pacemaker.currentRound}"⟩), pacemaker)
  else match U64.plus profile pacemaker.highestOrderedRound 1 with
    | .error reason => (.error (.panic reason), pacemaker)
    | .ok next =>
      let roundsSinceOrdered := round.saturatingSub next
      let reason := if roundsSinceOrdered == 0 then .quorumCertificate else .timeout roundsSinceOrdered
      let timeoutDuration := RoundIntervalStrategy.getRoundDuration pacemaker.intervalStrategy roundsSinceOrdered
      (.ok ⟨round, reason, timeoutDuration⟩, { pacemaker with currentRound := round })

def recordOrderedRound (pacemaker : Pacemaker I F) (round : U64) : Except Error Unit × Pacemaker I F :=
  if round ≤ pacemaker.highestOrderedRound then
    (.error ⟨s!"Round {round} is not greater than highest ordered round {pacemaker.highestOrderedRound}"⟩, pacemaker)
  else (.ok (), { pacemaker with highestOrderedRound := round })

/-- `highest_ordered_round + 1` is unchecked here too. -/
def currentRoundTimeout [RoundIntervalStrategy I] (profile : Profile) (pacemaker : Pacemaker I F) : Except Panic Duration := do
  let next ← U64.plus profile pacemaker.highestOrderedRound 1
  return RoundIntervalStrategy.getRoundDuration pacemaker.intervalStrategy (pacemaker.currentRound.saturatingSub next)

end Pacemaker
end AptosBft
