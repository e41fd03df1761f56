import AptosBft.SafetyRules.State
import AptosBft.Timeout

/-! `safety_rules/two_chain.rs`: the 2-chain safety rules. Methods on `&mut self`
return what the call answered together with the rules it left behind. -/

namespace AptosBft
open Rust

structure TwoChainSafetyRules where
  state : SafetyStateData
  deriving DecidableEq, Repr

namespace TwoChainSafetyRules

def new (epoch : U64) : TwoChainSafetyRules :=
  ⟨{ epoch, lastVotedRound := 0, preferredRound := 0, oneChainRound := 0, highestTimeoutRound := 0 }⟩

def withState (state : SafetyStateData) : TwoChainSafetyRules := ⟨state⟩

def nextRound (round : U64) : Except Error U64 :=
  match U64.checkedAdd round 1 with
  | some next => .ok next
  | none => .error ⟨s!"Round overflow at {round}"⟩

def safeToVoteImpl (blockRound qcRound : U64) (tcRound tcHqcRound : Option U64) : Except Error Unit := do
  let normalProgression := blockRound == (← nextRound qcRound)
  let withTc ← match tcRound, tcHqcRound with
    | some tcR, some tcHqc => do
      let next ← nextRound tcR
      pure (blockRound == next && qcRound ≥ tcHqc)
    | _, _ => pure false
  if normalProgression || withTc then .ok ()
  else .error ⟨s!"Not safe to vote: block_round={blockRound}, qc_round={qcRound}, " ++
    s!"tc_round={debugOption tcRound}, tc_hqc_round={debugOption tcHqcRound} - " ++
    "must satisfy: block.round == qc.round + 1 OR (block.round == tc.round + 1 && qc.round >= tc.hqc_round)"⟩

variable {B H QC T : Type} [Block B H] [QuorumCertificate QC H]

/-- Blocks do not carry their quorum certificate: its round is taken to be the
round before the block's. The state plays no part. -/
def safeToVote (_rules : TwoChainSafetyRules) (proposal : B)
    (timeoutCert : Option (TwoChainTimeoutCertificate T)) : Except Error Unit :=
  let blockRound := Block.round proposal
  let qcRound := blockRound.saturatingSub 1
  safeToVoteImpl blockRound qcRound (timeoutCert.map (·.round)) (timeoutCert.map (·.hqcRound))

/-- The `unwrap` on the certificate's next round is reached only when the QC does
not already explain the round. -/
def safeToTimeoutImpl (rules : TwoChainSafetyRules) (round qcRound : U64) (tcRound : Option U64) :
    Outcome Error Unit := do
  let next ← returned (nextRound qcRound)
  let roundProgression ← if round == next then pure true else match tcRound with
    | none => pure false
    | some tcR => match nextRound tcR with
      | .ok following => pure (round == following)
      | .error _ => throw (.panic .unwrap)
  let oneChainSafe : Bool := qcRound ≥ rules.state.oneChainRound
  if roundProgression && oneChainSafe then pure ()
  else throw (.err ⟨s!"Not safe to timeout: round={round}, qc_round={qcRound}, tc_round={debugOption tcRound}, " ++
    s!"one_chain_round={rules.state.oneChainRound} - " ++
    "must satisfy: (round == qc.round + 1 OR round == tc.round + 1) AND qc.round >= one_chain_round"⟩)

def safeToTimeout (rules : TwoChainSafetyRules) (round qcRound : U64)
    (timeoutCert : Option (TwoChainTimeoutCertificate T)) : Outcome Error Unit :=
  rules.safeToTimeoutImpl round qcRound (timeoutCert.map (·.round))

/-- The 2-chain test reads `one_chain_round` before it is raised. -/
def observeQc (profile : Profile) (rules : TwoChainSafetyRules) (qc : QC) : Outcome Error Unit × TwoChainSafetyRules :=
  let qcRound := QuorumCertificate.round qc
  match U64.plus profile rules.state.oneChainRound 1 with
  | .error reason => (.error (.panic reason), rules)
  | .ok next =>
    let preferred := if qcRound == next then (rules.state.updatePreferredRound qcRound).2 else rules.state
    (.ok (), ⟨(preferred.updateOneChainRound qcRound).2⟩)

def observeTc (rules : TwoChainSafetyRules) (tc : TwoChainTimeoutCertificate T) :
    Except Error Unit × TwoChainSafetyRules :=
  let timedOut := (rules.state.updateHighestTimeoutRound tc.round).2
  (.ok (), ⟨(timedOut.updateOneChainRound tc.hqcRound).2⟩)

/-- The proposal is the second block of the chain; the id returned is the one it
names as its parent. -/
def shouldCommit (rules : TwoChainSafetyRules) (proposal : B) : Option H :=
  let proposalRound := Block.round proposal
  if positive : 0 < proposalRound then
    if rules.state.oneChainRound == proposalRound.minus 1 (Fin.one_le_of_ne_zero positive.ne') then
      some (Block.parentId proposal)
    else none
  else none

def recordVote (rules : TwoChainSafetyRules) (round : U64) : Except Error Unit × TwoChainSafetyRules :=
  if round < rules.state.lastVotedRound then
    (.error ⟨s!"Cannot record vote for round {round}: already voted in round {rules.state.lastVotedRound}"⟩, rules)
  else if round > rules.state.lastVotedRound then (.ok (), ⟨{ rules.state with lastVotedRound := round }⟩)
  else (.ok (), rules)

def recordTimeout (rules : TwoChainSafetyRules) (round : U64) : TwoChainSafetyRules :=
  ⟨(rules.state.updateHighestTimeoutRound round).2⟩

end TwoChainSafetyRules
end AptosBft
