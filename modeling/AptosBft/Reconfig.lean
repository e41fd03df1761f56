import AptosBft.EpochManager
import AptosBft.Traits
import Mathlib.Data.Finmap

/-! `consensus/reconfig.rs`: epoch transitions and the validator sets that come with
them. Nothing here depends on the order of a map, so a map is its contents. `usize`
counters are natural numbers. -/

namespace AptosBft
open Rust

structure ReconfigConfig where
  preparationWindow : U64
  deriving DecidableEq, Repr

def ReconfigConfig.default : ReconfigConfig := ⟨5⟩

inductive ReconfigStatus where
  | idle
  | preparing (currentEpoch nextEpoch : U64)
  | inProgress (newEpoch : U64) (validatorsProcessed totalValidators : Nat)
  | completed (epoch : U64) (validatorCount : Nat)
  | failed (error : String)
  deriving DecidableEq, Repr

namespace ReconfigStatus

def isInProgress : ReconfigStatus → Bool
  | .preparing .. => true
  | .inProgress .. => true
  | _ => false

/-- `new_epoch - 1` is unchecked. -/
def currentEpoch (profile : Profile) : ReconfigStatus → Except Panic (Option U64)
  | .preparing currentEpoch _ => .ok (some currentEpoch)
  | .inProgress newEpoch _ _ => (U64.subtract profile newEpoch 1).map some
  | .completed epoch _ => .ok (some epoch)
  | _ => .ok none

def newEpoch : ReconfigStatus → Option U64
  | .preparing _ nextEpoch => some nextEpoch
  | .inProgress newEpoch _ _ => some newEpoch
  | .completed epoch _ => some epoch
  | _ => none

end ReconfigStatus

/-- `N` is the type of validator ids. -/
structure ValidatorSet (N : Type) where
  epoch : U64
  validators : Finmap fun _ : N => U64
  totalVotingPower : Nat
  deriving DecidableEq

namespace ValidatorSet
variable {N : Type}

def new (epoch : U64) (validators : Finmap fun _ : N => U64) : ValidatorSet N :=
  ⟨epoch, validators, (validators.entries.map fun entry => entry.2.val).sum⟩

def len (set : ValidatorSet N) : Nat := set.validators.entries.card

def isEmpty (set : ValidatorSet N) : Bool := set.len == 0

/-- `total_voting_power * 2` is unchecked. -/
def quorumThreshold (profile : Profile) (set : ValidatorSet N) : Except Panic Nat := do
  let doubled ← U128.times profile set.totalVotingPower 2
  U128.plus profile (doubled / 3) 1

variable [DecidableEq N]

def getVotingPower (set : ValidatorSet N) (validator : N) : Option U64 := set.validators.lookup validator

/-- A voter counts as often as it comes. -/
def hasQuorum (profile : Profile) (set : ValidatorSet N) (voters : List N) : Except Panic Bool := do
  let votingPower ← U128.sum profile ((voters.filterMap set.getVotingPower).map Fin.val)
  let threshold ← set.quorumThreshold profile
  return votingPower ≥ threshold

end ValidatorSet

inductive ReconfigEvent (N : Type) where
  | newEpoch (epoch startRound : U64)
  | validatorSetChanged (validatorSet : ValidatorSet N)
  | policyChanged (description : String)
  deriving DecidableEq

/-- `E` is the proposer election. -/
structure ReconfigHandler (N E : Type) where
  config : ReconfigConfig
  status : ReconfigStatus
  epochManager : EpochManager
  validatorSets : Finmap fun _ : U64 => ValidatorSet N
  pendingEvents : List (ReconfigEvent N)
  proposerElection : Option E

namespace ReconfigHandler
variable {N E : Type}

def new (config : ReconfigConfig) (epochManager : EpochManager) : ReconfigHandler N E where
  config := config
  status := .idle
  epochManager := epochManager
  validatorSets := ∅
  pendingEvents := []
  proposerElection := none

def currentEpoch (handler : ReconfigHandler N E) : U64 := handler.epochManager.epoch

def validatorSet (handler : ReconfigHandler N E) (epoch : U64) : Option (ValidatorSet N) :=
  handler.validatorSets.lookup epoch

def currentValidatorSet (handler : ReconfigHandler N E) : Option (ValidatorSet N) :=
  handler.validatorSet handler.currentEpoch

def setProposerElection (handler : ReconfigHandler N E) (proposerElection : E) : ReconfigHandler N E :=
  { handler with proposerElection := some proposerElection }

/-- `current_epoch + 1` is unchecked. -/
def prepareReconfig (profile : Profile) (handler : ReconfigHandler N E) (newEpoch : U64) :
    Outcome Error Unit × ReconfigHandler N E :=
  if handler.status.isInProgress then (.error (.err ⟨"Reconfiguration already in progress"⟩), handler)
  else match U64.plus profile handler.currentEpoch 1 with
    | .error reason => (.error (.panic reason), handler)
    | .ok next =>
      if newEpoch ≠ next then (.error (.err ⟨"Can only transition to the next epoch"⟩), handler)
      else (.ok (), { handler with status := .preparing handler.currentEpoch newEpoch })

def setValidatorSet (handler : ReconfigHandler N E) (epoch : U64) (validatorSet : ValidatorSet N) : ReconfigHandler N E :=
  { handler with validatorSets := handler.validatorSets.insert epoch validatorSet }

/-- The set's own epoch is not looked at. -/
def beginReconfig (handler : ReconfigHandler N E) (validatorSet : ValidatorSet N) :
    Except Error Unit × ReconfigHandler N E :=
  match handler.status with
  | .preparing _ nextEpoch =>
    if validatorSet.isEmpty then (.error ⟨"Validator set cannot be empty"⟩, handler)
    else
      (.ok (), { handler with
        status := .inProgress nextEpoch 0 validatorSet.len
        validatorSets := handler.validatorSets.insert nextEpoch validatorSet })
  | _ => (.error ⟨"Not in preparing state"⟩, handler)

/-- The status is `Completed` for a moment and then `Idle`. -/
def completeReconfig (profile : Profile) (handler : ReconfigHandler N E) (now : U64) :
    Outcome Error Unit × ReconfigHandler N E :=
  match handler.status with
  | .inProgress newEpoch validatorsProcessed totalValidators =>
    if validatorsProcessed ≠ totalValidators then
      (.error (.err ⟨s!"Not all validators processed: {validatorsProcessed}/{totalValidators}"⟩), handler)
    else match handler.epochManager.startNewEpoch profile newEpoch now with
      | (.error failure, epochManager) =>
        (.error (failure.map fun error => ⟨error.display⟩), { handler with epochManager })
      | (.ok (), epochManager) => (.ok (), { handler with epochManager, status := .idle })
  | _ => (.error (.err ⟨"Not in progress state"⟩), handler)

def addEvent (handler : ReconfigHandler N E) (event : ReconfigEvent N) : ReconfigHandler N E :=
  { handler with pendingEvents := handler.pendingEvents ++ [event] }

def takePendingEvents (handler : ReconfigHandler N E) : List (ReconfigEvent N) × ReconfigHandler N E :=
  (handler.pendingEvents, { handler with pendingEvents := [] })

/-- The validator sets stay as they are. -/
def cancel (handler : ReconfigHandler N E) : ReconfigHandler N E := { handler with status := .idle, pendingEvents := [] }

def shouldReconfigure (handler : ReconfigHandler N E) (round epochEndRound : U64) : Bool :=
  round ≥ epochEndRound.saturatingSub handler.config.preparationWindow

def processBlock {B H : Type} [Block B H] (handler : ReconfigHandler N E) (block : B) : Option (ReconfigEvent N) :=
  if Block.epoch block > handler.currentEpoch then some (.newEpoch (Block.epoch block) (Block.round block)) else none

def updateProgress (handler : ReconfigHandler N E) (validatorsProcessed : Nat) : ReconfigHandler N E :=
  match handler.status with
  | .inProgress newEpoch _ totalValidators =>
    { handler with status := .inProgress newEpoch validatorsProcessed totalValidators }
  | _ => handler

end ReconfigHandler
end AptosBft
