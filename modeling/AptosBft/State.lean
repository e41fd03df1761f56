import AptosBft.Traits

/-! `state/round_state.rs`. -/

namespace AptosBft
open Rust

structure RoundStateConfig where
  initialEpoch : U64
  initialRound : U64
  maxBufferedRounds : U64
  deriving DecidableEq, Repr

structure RoundState (B QC : Type) where
  epoch : U64
  round : U64
  proposedBlock : Option B
  quorumCert : Option QC
  config : RoundStateConfig

namespace RoundState
variable {B QC : Type}

def new (config : RoundStateConfig) : RoundState B QC :=
  ⟨config.initialEpoch, config.initialRound, none, none, config⟩

def setRound (state : RoundState B QC) (round : U64) : RoundState B QC :=
  { state with round, proposedBlock := none }

def setProposedBlock (state : RoundState B QC) (block : B) : RoundState B QC :=
  { state with proposedBlock := some block }

def setQuorumCert (state : RoundState B QC) (qc : QC) : RoundState B QC :=
  { state with quorumCert := some qc }

def advanceRound (profile : Profile) (state : RoundState B QC) : Except Panic (RoundState B QC) := do
  let round ← U64.plus profile state.round 1
  return { state with round, proposedBlock := none }

def isCurrentRound (state : RoundState B QC) (round : U64) : Bool := state.round == round

def isCurrentEpoch (state : RoundState B QC) (epoch : U64) : Bool := state.epoch == epoch

end RoundState
end AptosBft
