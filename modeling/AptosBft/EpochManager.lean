import AptosBft.Lib.Rust

/-! `epoch_manager/mod.rs`. -/

namespace AptosBft
open Rust

structure EpochManagerConfig where
  initialEpoch : U64
  autoTransition : Bool
  deriving DecidableEq, Repr

structure EpochState where
  epoch : U64
  startTime : U64
  deriving DecidableEq, Repr

structure EpochManager where
  epochState : EpochState
  config : EpochManagerConfig
  deriving DecidableEq, Repr

inductive EpochTransitionError where
  | oldEpoch (current proposed : U64)
  | skippedEpoch (current proposed : U64)
  | invalidTransition (message : String)
  deriving DecidableEq, Repr

def EpochTransitionError.display : EpochTransitionError → String
  | .oldEpoch current proposed => s!"Cannot transition to epoch {proposed}: already at epoch {current}"
  | .skippedEpoch current proposed => s!"Cannot skip epochs: current={current}, proposed={proposed}"
  | .invalidTransition message => s!"Invalid epoch transition: {message}"

namespace EpochManager

def new (config : EpochManagerConfig) : EpochManager := ⟨⟨config.initialEpoch, 0⟩, config⟩

def epoch (manager : EpochManager) : U64 := manager.epochState.epoch

/-- `now` is the system clock in seconds. -/
def startNewEpoch (profile : Profile) (manager : EpochManager) (epoch now : U64) :
    Outcome EpochTransitionError Unit × EpochManager :=
  if epoch ≤ manager.epoch then (.error (.err (.oldEpoch manager.epoch epoch)), manager)
  else match U64.plus profile manager.epoch 1 with
    | .error reason => (.error (.panic reason), manager)
    | .ok next =>
      if epoch ≠ next then (.error (.err (.skippedEpoch manager.epoch epoch)), manager)
      else (.ok (), { manager with epochState := ⟨epoch, now⟩ })

/-- Not implemented: whether transitions are automatic or not, none is ever due. -/
def checkEpochTransition (manager : EpochManager) : Bool :=
  if !manager.config.autoTransition then false else false

/-- The successor is unchecked here before `start_new_epoch` compares it. -/
def forceNextEpoch (profile : Profile) (manager : EpochManager) (now : U64) :
    Outcome EpochTransitionError Unit × EpochManager :=
  match U64.plus profile manager.epoch 1 with
  | .error reason => (.error (.panic reason), manager)
  | .ok nextEpoch => manager.startNewEpoch profile nextEpoch now

end EpochManager
end AptosBft
