import AptosBft.Traits

/-! `timeout/two_chain.rs`: timeouts and the certificates made from them. -/

namespace AptosBft
open Rust

structure TwoChainTimeout where
  epoch : U64
  round : U64
  hqcRound : U64
  deriving DecidableEq, Repr

namespace TwoChainTimeout

def default : TwoChainTimeout := ⟨0, 0, 0⟩

def verify (timeout : TwoChainTimeout) : Except Error Unit :=
  if timeout.hqcRound ≥ timeout.round then
    .error ⟨s!"Invalid timeout: hqc_round ({timeout.hqcRound}) >= round ({timeout.round})"⟩
  else .ok ()

end TwoChainTimeout

/-- `T` is the block's signature type. -/
structure TwoChainTimeoutCertificate (T : Type) where
  epoch : U64
  round : U64
  hqcRound : U64
  highestTcRound : U64
  timeout : TwoChainTimeout
  aggregatedSignature : T
  deriving DecidableEq, Repr

namespace TwoChainTimeoutCertificate
variable {T W : Type}

def verify (tc : TwoChainTimeoutCertificate T) : Except Error Unit := do
  tc.timeout.verify
  if tc.hqcRound ≥ tc.round then
    throw ⟨s!"Invalid TC: hqc_round ({tc.hqcRound}) >= round ({tc.round})"⟩
  if tc.highestTcRound ≥ tc.round then
    throw ⟨s!"Invalid TC: highest_tc_round ({tc.highestTcRound}) >= round ({tc.round})"⟩

/-- Both successors are unchecked; the second is computed only if the first does not
match. -/
def allowsAdvance (profile : Profile) (tc : TwoChainTimeoutCertificate T) : Except Panic Bool := do
  let afterHqc ← U64.plus profile tc.hqcRound 1
  if tc.round == afterHqc then return true
  let afterTc ← U64.plus profile tc.highestTcRound 1
  return tc.round == afterTc

def effectiveHqcRound (tc : TwoChainTimeoutCertificate T) : U64 := max tc.hqcRound tc.highestTcRound

/-- What serde's derive writes of a certificate. The timeout is marked
`#[serde(skip)]`. -/
structure Fields (T : Type) where
  epoch : U64
  round : U64
  hqcRound : U64
  highestTcRound : U64
  aggregatedSignature : T
  deriving DecidableEq, Repr

/-- A serde data format with the encodings `W`, at the fields of a certificate. -/
structure Format (T W : Type) where
  write : Fields T → W
  read : W → Option (Fields T)

def serialize (format : Format T W) (tc : TwoChainTimeoutCertificate T) : W :=
  format.write ⟨tc.epoch, tc.round, tc.hqcRound, tc.highestTcRound, tc.aggregatedSignature⟩

/-- A skipped field is filled with its `Default`. -/
def deserialize (format : Format T W) (encoded : W) : Option (TwoChainTimeoutCertificate T) :=
  (format.read encoded).map fun fields =>
    ⟨fields.epoch, fields.round, fields.hqcRound, fields.highestTcRound, .default, fields.aggregatedSignature⟩

end TwoChainTimeoutCertificate
end AptosBft
