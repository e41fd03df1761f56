import AptosBft.Traits

/-! `consensus/state_sync.rs`: catching up by fetching missing blocks. A call that
panics keeps whatever it changed before. -/

namespace AptosBft
open Rust

structure StateSyncConfig where
  maxBatchSize : U64
  deriving DecidableEq, Repr

def StateSyncConfig.default : StateSyncConfig := ⟨100⟩

inductive SyncStatus where
  | idle
  | inProgress (targetRound currentRound : U64) (blocksReceived : Nat)
  | completed (blocksSynced : Nat)
  | failed (error : String)
  deriving DecidableEq, Repr

namespace SyncStatus

def isInProgress : SyncStatus → Bool
  | .inProgress .. => true
  | _ => false

def isCompleted : SyncStatus → Bool
  | .completed _ => true
  | _ => false

def targetRound : SyncStatus → Option U64
  | .inProgress targetRound _ _ => some targetRound
  | _ => none

def currentRound : SyncStatus → Option U64
  | .inProgress _ currentRound _ => some currentRound
  | _ => none

end SyncStatus

structure SyncRequest where
  targetRound : U64
  startRound : U64
  epoch : U64
  deriving DecidableEq, Repr

namespace SyncRequest

def coversRound (request : SyncRequest) (round : U64) : Bool := round ≥ request.startRound && round ≤ request.targetRound

def roundCount (profile : Profile) (request : SyncRequest) : Except Panic U64 :=
  U64.plus profile (request.targetRound.saturatingSub request.startRound) 1

end SyncRequest

structure SyncResponse (B : Type) where
  blocks : List B
  epoch : U64
  isFinal : Bool
  deriving DecidableEq, Repr

/-- The loop of `verify_sequential` over the windows of two blocks. -/
def verifyWindows {B H : Type} [Block B H] (profile : Profile) : List B → Outcome Error Unit
  | current :: next :: rest =>
    match U64.plus profile (Block.round current) 1 with
    | .error reason => .error (.panic reason)
    | .ok following =>
      if Block.round next = following then verifyWindows profile (next :: rest)
      else .error (.err ⟨s!"Blocks not sequential: round {Block.round current} followed by round {Block.round next}"⟩)
  | _ => .ok ()

namespace SyncResponse
variable {B H : Type} [Block B H]

omit [Block B H] in
def len (response : SyncResponse B) : Nat := response.blocks.length

def highestRound (response : SyncResponse B) : Option U64 := response.blocks.getLast?.map Block.round

def lowestRound (response : SyncResponse B) : Option U64 := response.blocks.head?.map Block.round

def verifySequential (profile : Profile) (response : SyncResponse B) : Outcome Error Unit :=
  verifyWindows profile response.blocks

end SyncResponse

structure StateSync (B : Type) where
  config : StateSyncConfig
  status : SyncStatus
  pendingRequests : List SyncRequest
  receivedBlocks : HashMap U64 B
  highestKnownRound : Option U64
  currentRound : U64

namespace StateSync
variable {B H : Type} [Block B H]

def new (config : StateSyncConfig) (currentRound : U64) : StateSync B where
  config := config
  status := .idle
  pendingRequests := []
  receivedBlocks := ∅
  highestKnownRound := none
  currentRound := currentRound

def startSync (profile : Profile) (sync : StateSync B) (targetRound epoch : U64) : Outcome Error Unit × StateSync B :=
  if sync.status.isInProgress then (.error (.err ⟨"Sync already in progress"⟩), sync)
  else if targetRound ≤ sync.currentRound then (.ok (), { sync with status := .completed 0 })
  else
    let roundCount := targetRound.saturatingSub sync.currentRound
    let batchSize := min roundCount sync.config.maxBatchSize
    let started := { sync with status := .inProgress targetRound sync.currentRound 0 }
    match U64.plus profile sync.currentRound batchSize with
    | .error reason => (.error (.panic reason), started)
    | .ok requestTarget => match U64.plus profile sync.currentRound 1 with
      | .error reason => (.error (.panic reason), started)
      | .ok startRound =>
        (.ok (), { started with pendingRequests := sync.pendingRequests ++ [⟨requestTarget, startRound, epoch⟩] })

def insertBlocks (receivedBlocks : HashMap U64 B) (blocks : List B) : HashMap U64 B :=
  blocks.foldl (fun held block => held.insert (Block.round block) block) receivedBlocks

/-- The end of `add_sync_response`, for the highest round held after the blocks were
added. The epoch of the response is taken as it is. -/
def updateStatus (profile : Profile) (sync : StateSync B) (targetRound highest : U64) (response : SyncResponse B) :
    Outcome Error Unit × StateSync B :=
  let blocksReceived := sync.receivedBlocks.len
  if highest ≥ targetRound then (.ok (), { sync with status := .completed blocksReceived })
  else
    let updated := { sync with status := .inProgress targetRound highest blocksReceived }
    if response.isFinal && highest < targetRound then
      match U64.plus profile highest 1 with
      | .error reason => (.error (.panic reason), updated)
      | .ok nextStart => match U64.plus profile highest sync.config.maxBatchSize with
        | .error reason => (.error (.panic reason), updated)
        | .ok batchEnd =>
          let nextEnd := min targetRound batchEnd
          (.ok (), { updated with pendingRequests := sync.pendingRequests ++ [⟨nextEnd, nextStart, response.epoch⟩] })
    else (.ok (), updated)

def addSyncResponse (profile : Profile) (sync : StateSync B) (response : SyncResponse B) :
    Outcome Error Unit × StateSync B :=
  match sync.status.targetRound with
  | none => (.error (.err ⟨"No sync in progress"⟩), sync)
  | some targetRound => match response.verifySequential profile with
    | .error failure => (.error failure, sync)
    | .ok () =>
      let received := { sync with receivedBlocks := insertBlocks sync.receivedBlocks response.blocks }
      match received.receivedBlocks.keys.max? with
      | none => (.ok (), received)
      | some highest => received.updateStatus profile targetRound highest response

/-- `Vec::pop`: requests are taken from the end they are pushed to. -/
def takeNextRequest (sync : StateSync B) : Option SyncRequest × StateSync B :=
  (sync.pendingRequests.getLast?, { sync with pendingRequests := sync.pendingRequests.dropLast })

/-- The body of the loop of `ready_blocks`, once the block of `round` was removed. -/
def advance (sync : StateSync B) (round : U64) : StateSync B :=
  { sync with receivedBlocks := sync.receivedBlocks.erase round, currentRound := round }

/-- The loop of `ready_blocks`. Each turn removes a block, so as many turns as there
are blocks are enough. -/
def readyLoop (profile : Profile) : Nat → StateSync B → U64 → List B → Except Panic (List B) × StateSync B
  | 0, sync, _, ready => (.ok ready, sync)
  | turns + 1, sync, nextRound, ready =>
    match sync.receivedBlocks.lookup nextRound with
    | none => (.ok ready, sync)
    | some block => match U64.plus profile nextRound 1 with
      | .error reason => (.error reason, sync.advance nextRound)
      | .ok following => readyLoop profile turns (sync.advance nextRound) following (ready ++ [block])

def readyBlocks (profile : Profile) (sync : StateSync B) : Except Panic (List B) × StateSync B :=
  match U64.plus profile sync.currentRound 1 with
  | .error reason => (.error reason, sync)
  | .ok nextRound => readyLoop profile sync.receivedBlocks.len sync nextRound []

def updateHighestKnownRound (sync : StateSync B) (round : U64) : StateSync B :=
  match sync.highestKnownRound with
  | some current => { sync with highestKnownRound := some (max current round) }
  | none => { sync with highestKnownRound := some round }

def cancel (sync : StateSync B) : StateSync B :=
  { sync with status := .idle, pendingRequests := [], receivedBlocks := ∅ }

def reset (sync : StateSync B) : StateSync B :=
  { sync with status := .idle, pendingRequests := [], receivedBlocks := ∅, highestKnownRound := none }

def hasBlock (sync : StateSync B) (round : U64) : Bool := round ∈ sync.receivedBlocks

end StateSync
end AptosBft
