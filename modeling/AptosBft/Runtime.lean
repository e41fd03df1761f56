import AptosBft.Consensus

/-! `consensus/runtime.rs`: the runtime around the engine. Messages wait in a queue and
are worked off in one go, or are handled one at a time. The two have their own dispatch.
Printing, the configuration (which is never read), and the operations that only print
are left out. A panic leaves the runtime as it stood at that point. -/

namespace AptosBft
open Rust

inductive ExecutionResult where
  | success
  | failed (message : String)
  | timeout
  | skipped (reason : String)
  deriving DecidableEq, Repr

inductive NetworkMessage (B V QC : Type) where
  | proposal (block : B)
  | vote (vote : V)
  | quorumCertificate (qc : QC)
  | timeout (round : U64)
  | syncRequest (targetRound : U64)
  | syncResponse (blocks : List B)
  deriving DecidableEq, Repr

structure ConsensusRuntime (B V QC H S F E O : Type) where
  consensus : Consensus B V QC H S F E O
  pendingMessages : List (NetworkMessage B V QC)
  activeTasks : List U64
  nextTaskId : U64
  isRunning : Bool

namespace ConsensusRuntime
variable {B V QC H S F E O : Type}

def new (consensus : Consensus B V QC H S F E O) : ConsensusRuntime B V QC H S F E O where
  consensus := consensus
  pendingMessages := []
  activeTasks := []
  nextTaskId := 0
  isRunning := false

def addNetworkMessage (runtime : ConsensusRuntime B V QC H S F E O) (message : NetworkMessage B V QC) :
    ConsensusRuntime B V QC H S F E O :=
  { runtime with pendingMessages := runtime.pendingMessages ++ [message] }

def pendingMessageCount (runtime : ConsensusRuntime B V QC H S F E O) : Nat := runtime.pendingMessages.length

/-- The flag is set before the engine is asked. -/
def start (runtime : ConsensusRuntime B V QC H S F E O) : Except Error Unit × ConsensusRuntime B V QC H S F E O :=
  if runtime.isRunning then (.error ⟨"Runtime is already running"⟩, runtime)
  else
    let runtime := { runtime with isRunning := true }
    match runtime.consensus.start with
    | (.error error, consensus) => (.error error, { runtime with consensus })
    | (.ok (), consensus) => (.ok (), { runtime with consensus })

/-- The flag is cleared before the engine is asked. -/
def shutdown (runtime : ConsensusRuntime B V QC H S F E O) : Except Error Unit × ConsensusRuntime B V QC H S F E O :=
  if !runtime.isRunning then (.error ⟨"Runtime is not running"⟩, runtime)
  else
    let runtime := { runtime with isRunning := false }
    match runtime.consensus.stop with
    | (.error error, consensus) => (.error error, { runtime with consensus })
    | (.ok (), consensus) => (.ok (), { runtime with consensus, pendingMessages := [], activeTasks := [] })

section Messages
variable [QuorumCertificate QC H] [Floating F]

/-- What the loop of `process_pending_messages` does with a message. -/
def processMessage (profile : Profile) (runtime : ConsensusRuntime B V QC H S F E O) (message : NetworkMessage B V QC) :
    Except Panic ExecutionResult × ConsensusRuntime B V QC H S F E O :=
  match message with
  | .proposal _ => (.ok .success, runtime)
  | .vote _ => (.ok .success, runtime)
  | .quorumCertificate qc =>
    match runtime.consensus.processQc qc with
    | (.ok (), consensus) => (.ok .success, { runtime with consensus })
    | (.error error, consensus) => (.ok (.failed error.message), { runtime with consensus })
  | .timeout round =>
    match runtime.consensus.processTimeout profile round with
    | (.ok (), consensus) => (.ok .success, { runtime with consensus })
    | (.error (.err error), consensus) => (.ok (.failed error.message), { runtime with consensus })
    | (.error (.panic reason), consensus) => (.error reason, { runtime with consensus })
  | .syncRequest _ => (.ok (.skipped "State sync not implemented"), runtime)
  | .syncResponse _ => (.ok (.skipped "State sync not implemented"), runtime)

/-- The loop, along the queue it pops from. -/
def processLoop (profile : Profile) (runtime : ConsensusRuntime B V QC H S F E O)
    (results : List (NetworkMessage B V QC × ExecutionResult)) : List (NetworkMessage B V QC) →
    Except Panic (List (NetworkMessage B V QC × ExecutionResult)) × ConsensusRuntime B V QC H S F E O
  | [] => (.ok results, runtime)
  | message :: rest =>
    let runtime := { runtime with pendingMessages := rest }
    match runtime.processMessage profile message with
    | (.error reason, after) => (.error reason, after)
    | (.ok result, after) => processLoop profile after (results ++ [(message, result)]) rest

def processPendingMessages (profile : Profile) (runtime : ConsensusRuntime B V QC H S F E O) :
    Except Panic (List (NetworkMessage B V QC × ExecutionResult)) × ConsensusRuntime B V QC H S F E O :=
  processLoop profile runtime [] runtime.pendingMessages

def handleNetworkMessage (profile : Profile) (runtime : ConsensusRuntime B V QC H S F E O)
    (message : NetworkMessage B V QC) : Except Panic ExecutionResult × ConsensusRuntime B V QC H S F E O :=
  match message with
  | .proposal _ => (.ok .success, runtime)
  | .vote _ => (.ok .success, runtime)
  | .quorumCertificate qc =>
    match runtime.consensus.processQc qc with
    | (.ok (), consensus) => (.ok .success, { runtime with consensus })
    | (.error error, consensus) => (.ok (.failed error.message), { runtime with consensus })
  | .timeout round =>
    match runtime.consensus.processTimeout profile round with
    | (.ok (), consensus) => (.ok .success, { runtime with consensus })
    | (.error (.err error), consensus) => (.ok (.failed error.message), { runtime with consensus })
    | (.error (.panic reason), consensus) => (.error reason, { runtime with consensus })
  | .syncRequest _ => (.ok (.skipped "State sync not implemented"), runtime)
  | .syncResponse _ => (.ok (.skipped "State sync not implemented"), runtime)

end Messages

end ConsensusRuntime
end AptosBft
