import AptosBft.SafetyRules.TwoChain

/-! `safety_rules/recovery.rs`: saving the safety state and restarting from it. -/

namespace AptosBft
open Rust

inductive RecoveryError where
  | noState
  | storage (message : String)
  | deserialization (message : String)
  | validation (message : String)
  deriving DecidableEq, Repr

/-- The two methods of `ConsensusStorage` that keep the safety state. Saving may
change the storage even when it fails. -/
class ConsensusStorage (D : Type) where
  saveSafetyState : D → SafetyStateData → Except Error Unit × D
  getSafetyState : D → Except Error (Option SafetyStateData)

def maxEpoch : U64 := u64Max.minus 1000 (by decide)

def validateSafetyState (profile : Profile) (state : SafetyStateData) : Outcome RecoveryError Unit :=
  if state.epoch > maxEpoch then .error (.err (.validation s!"Invalid epoch: {state.epoch}"))
  else if state.oneChainRound > state.preferredRound then
    .error (.err (.validation (s!"Invalid state: one_chain_round ({state.oneChainRound}) > " ++
      s!"preferred_round ({state.preferredRound})")))
  else match U64.plus profile state.lastVotedRound 100 with
    | .error reason => .error (.panic reason)
    | .ok limit =>
      if state.preferredRound > limit then
        .error (.err (.validation (s!"Invalid state: preferred_round ({state.preferredRound}) " ++
          s!"far ahead of last_voted_round ({state.lastVotedRound})")))
      else .ok ()

variable {D : Type} [ConsensusStorage D]

def loadSafetyRules (profile : Profile) (storage : D) (epoch : U64) : Outcome RecoveryError TwoChainSafetyRules :=
  match ConsensusStorage.getSafetyState storage with
  | .ok (some state) => do
    validateSafetyState profile state
    return TwoChainSafetyRules.withState state
  | .ok none => .ok (TwoChainSafetyRules.new epoch)
  | .error error => .error (.err (.storage error.message))

def persistSafetyState (storage : D) (state : SafetyStateData) : Except RecoveryError Unit × D :=
  match ConsensusStorage.saveSafetyState storage state with
  | (.ok (), stored) => (.ok (), stored)
  | (.error error, stored) => (.error (.storage error.message), stored)

end AptosBft
