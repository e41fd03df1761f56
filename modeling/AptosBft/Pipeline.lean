import AptosBft.Traits

/-! `pipeline/mod.rs`: the stages a block passes. The counters are natural
numbers; nothing reads them back. -/

namespace AptosBft
open Rust

inductive Pipeline.Stage where
  | receiving
  | validation
  | processing
  | commit
  deriving DecidableEq, Repr

namespace Pipeline.Stage

def next : Stage → Option Stage
  | .receiving => some .validation
  | .validation => some .processing
  | .processing => some .commit
  | .commit => none

/-- The stages from one on, as the loop of `process_block` visits them. -/
def onward : Stage → List Stage
  | .receiving => [.receiving, .validation, .processing, .commit]
  | .validation => [.validation, .processing, .commit]
  | .processing => [.processing, .commit]
  | .commit => [.commit]

/-- The loop moves from one stage to the next. -/
example : ∀ stage : Stage, stage.onward = stage :: (stage.next.map onward).getD []
  | .receiving => rfl
  | .validation => rfl
  | .processing => rfl
  | .commit => rfl

/-- The derived `Debug` text. -/
def debug : Stage → String
  | .receiving => "Receiving"
  | .validation => "Validation"
  | .processing => "Processing"
  | .commit => "Commit"

end Pipeline.Stage

structure PipelineConfig where
  stageTimeoutMs : U64
  maxConcurrent : U64
  validateImmediately : Bool
  parallelProcessing : Bool
  deriving DecidableEq, Repr

def PipelineConfig.default : PipelineConfig := ⟨5000, 10, true, false⟩

inductive StageResult where
  | continue_
  | stop (reason : String)
  | skip (reason : String)
  deriving DecidableEq, Repr

structure PipelineStats where
  stageCounts : Pipeline.Stage → Nat
  totalProcessed : Nat
  failed : Nat
  skipped : Nat

namespace PipelineStats

def default : PipelineStats := ⟨fun _ => 0, 0, 0, 0⟩

def record (stats : PipelineStats) (stage : Pipeline.Stage) : PipelineStats :=
  { stats with
    stageCounts := Function.update stats.stageCounts stage (stats.stageCounts stage + 1)
    totalProcessed := stats.totalProcessed + 1 }

end PipelineStats

inductive PipelineResult where
  | completed
  | stopped (stage : Pipeline.Stage) (reason : String)
  | skipped (stage : Pipeline.Stage) (reason : String)
  deriving DecidableEq, Repr

namespace PipelineResult

def isCompleted : PipelineResult → Bool
  | .completed => true
  | _ => false

def debug : PipelineResult → String
  | .completed => "Completed"
  | .stopped stage reason => s!"Stopped \x7b stage: {stage.debug}, reason: {reason.quote} \x7d"
  | .skipped stage reason => s!"Skipped \x7b stage: {stage.debug}, reason: {reason.quote} \x7d"

end PipelineResult

structure Pipeline where
  config : PipelineConfig
  currentStage : Pipeline.Stage
  stats : PipelineStats

namespace Pipeline
variable {B : Type}

def new (config : PipelineConfig) : Pipeline := ⟨config, .receiving, .default⟩

/-- Every stage is a placeholder that lets the block pass. -/
def processAtStage (stage : Stage) (_block : B) : Except Error StageResult :=
  match stage with
  | .receiving => .ok .continue_
  | .validation => .ok .continue_
  | .processing => .ok .continue_
  | .commit => .ok .continue_

def processStages (block : B) (pipeline : Pipeline) : List Stage → Except Error PipelineResult × Pipeline
  | [] => (.ok .completed, pipeline)
  | stage :: rest =>
    let recorded := { pipeline with stats := pipeline.stats.record stage }
    match processAtStage stage block with
    | .error error => (.error error, recorded)
    | .ok .continue_ => processStages block recorded rest
    | .ok (.stop reason) =>
      (.ok (.stopped stage reason), { recorded with stats := { recorded.stats with failed := recorded.stats.failed + 1 } })
    | .ok (.skip reason) =>
      (.ok (.skipped stage reason), { recorded with stats := { recorded.stats with skipped := recorded.stats.skipped + 1 } })

def processBlock (pipeline : Pipeline) (block : B) : Except Error PipelineResult × Pipeline :=
  processStages block pipeline Stage.receiving.onward

end Pipeline
end AptosBft
