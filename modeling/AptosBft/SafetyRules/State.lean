import AptosBft.Lib.Rust

/-! `safety_rules/state.rs`: the persistent safety state. -/

namespace AptosBft
open Rust

structure SafetyStateData where
  epoch : U64
  lastVotedRound : U64
  preferredRound : U64
  oneChainRound : U64
  highestTimeoutRound : U64
  deriving DecidableEq, Repr

namespace SafetyStateData

def newEpoch (state : SafetyStateData) (epoch : U64) : SafetyStateData :=
  { epoch, lastVotedRound := 0, preferredRound := state.preferredRound, oneChainRound := 0, highestTimeoutRound := 0 }

/-- The three `update_*` methods; the flag tells whether the field changed. -/
def updateOneChainRound (state : SafetyStateData) (newRound : U64) : Bool × SafetyStateData :=
  if newRound > state.oneChainRound then (true, { state with oneChainRound := newRound }) else (false, state)

def updatePreferredRound (state : SafetyStateData) (newRound : U64) : Bool × SafetyStateData :=
  if newRound > state.preferredRound then (true, { state with preferredRound := newRound }) else (false, state)

def updateHighestTimeoutRound (state : SafetyStateData) (newRound : U64) : Bool × SafetyStateData :=
  if newRound > state.highestTimeoutRound then (true, { state with highestTimeoutRound := newRound }) else (false, state)

end SafetyStateData
end AptosBft
