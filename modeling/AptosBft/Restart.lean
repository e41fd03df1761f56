import AptosBft.Calls
import AptosBft.SafetyRules.Recovery

/-! A validator that votes by the sequence documented for `persist_safety_state`:
check, record, persist, send. It can crash between any two steps and comes back
through `load_safety_rules`. An input that is not possible in a state changes
nothing. -/

namespace AptosBft
open Rust

/-- A storage that holds the last state it saved successfully. Reading may fail
but never returns anything else. -/
class LawfulStorage (D : Type) [ConsensusStorage D] where
  saved : D → Option SafetyStateData
  saved_of_ok : ∀ {storage after : D} {state : SafetyStateData},
    ConsensusStorage.saveSafetyState storage state = (.ok (), after) → saved after = some state
  saved_of_error : ∀ {storage after : D} {state : SafetyStateData} {error : Error},
    ConsensusStorage.saveSafetyState storage state = (.error error, after) → saved after = saved storage
  get_saved : ∀ storage : D, ConsensusStorage.getSafetyState storage = .ok (saved storage) ∨
    ∃ error, ConsensusStorage.getSafetyState storage = .error error

inductive Stage (B : Type) where
  | idle
  | checked (proposal : B)
  | recorded (proposal : B)
  | persisted (proposal : B)

structure Validator (B D : Type) where
  process : Option (TwoChainSafetyRules × Stage B)
  storage : D

namespace Validator

inductive Input (B QC T D : Type) where
  | check (proposal : B) (timeoutCert : Option (TwoChainTimeoutCertificate T))
  | record
  | persist
  | send
  | observeQc (qc : QC)
  | observeTc (tc : TwoChainTimeoutCertificate T)
  | recordTimeout (round : U64)
  | save
  | crash
  | restart (epoch : U64)
  | disturb (storage : D)

variable {B H QC T D : Type} [Block B H] [QuorumCertificate QC H] [ConsensusStorage D] [LawfulStorage D]

/-- What a running validator does, with the vote it sent. A panic leaves the rules
as they were; the crash that may follow is an input of its own. `disturb` is the
environment: the storage may start or stop failing, and keeps what it saved. -/
def act (profile : Profile) (rules : TwoChainSafetyRules) (stage : Stage B) (storage : D) :
    Input B QC T D → Option U64 × Validator B D
  | .check proposal timeoutCert => match stage, rules.safeToVote proposal timeoutCert with
    | .idle, .ok () => (none, ⟨some (rules, .checked proposal), storage⟩)
    | _, _ => (none, ⟨some (rules, stage), storage⟩)
  | .record => match stage with
    | .checked proposal => match rules.recordVote (Block.round proposal) with
      | (.ok (), rules) => (none, ⟨some (rules, .recorded proposal), storage⟩)
      | (.error _, rules) => (none, ⟨some (rules, .idle), storage⟩)
    | _ => (none, ⟨some (rules, stage), storage⟩)
  | .persist => match stage with
    | .recorded proposal => match persistSafetyState storage rules.state with
      | (.ok (), storage) => (none, ⟨some (rules, .persisted proposal), storage⟩)
      | (.error _, storage) => (none, ⟨some (rules, .idle), storage⟩)
    | _ => (none, ⟨some (rules, stage), storage⟩)
  | .send => match stage with
    | .persisted proposal => (some (Block.round proposal), ⟨some (rules, .idle), storage⟩)
    | _ => (none, ⟨some (rules, stage), storage⟩)
  | .observeQc qc => (none, ⟨some ((rules.observeQc profile qc).2, stage), storage⟩)
  | .observeTc tc => (none, ⟨some ((rules.observeTc tc).2, stage), storage⟩)
  | .recordTimeout round => (none, ⟨some (rules.recordTimeout round, stage), storage⟩)
  | .save => (none, ⟨some (rules, stage), (persistSafetyState storage rules.state).2⟩)
  | .crash => (none, ⟨none, storage⟩)
  | .restart _ => (none, ⟨some (rules, stage), storage⟩)
  | .disturb other =>
    if LawfulStorage.saved other = LawfulStorage.saved storage then (none, ⟨some (rules, stage), other⟩)
    else (none, ⟨some (rules, stage), storage⟩)

def step (profile : Profile) (validator : Validator B D) (input : Input B QC T D) : Option U64 × Validator B D :=
  match validator.process, input with
  | some (rules, stage), input => act profile rules stage validator.storage input
  | none, .restart epoch => match loadSafetyRules profile validator.storage epoch with
    | .ok rules => (none, ⟨some (rules, .idle), validator.storage⟩)
    | .error _ => (none, validator)
  | none, .disturb other =>
    if LawfulStorage.saved other = LawfulStorage.saved validator.storage then (none, ⟨none, other⟩) else (none, validator)
  | none, _ => (none, validator)

end Validator
end AptosBft
