import Maqistor.Adaptive.Batch

/-! The controller of a writer's batches: how many requests a batch waits for and how long. It
learns from the times of requests and commits, given in nanoseconds, and from what the commits have
found. -/

namespace Maqistor

open Binary64

/-! ### Durations -/

def nanosPerSec : Nat := 1000000000

/-- `Duration::as_secs_f64`. -/
def asSecsF64 (duration : Nat) : Float :=
  (duration / nanosPerSec).toUInt64.toFloat + (duration % nanosPerSec).toUInt64.toFloat / 1000000000.0

/-- A nearest whole number, the even one of two. -/
def roundHalfEven (x : ℚ) : Nat :=
  if x - ⌊x⌋₊ < 1 / 2 then ⌊x⌋₊
  else if 1 / 2 < x - ⌊x⌋₊ then ⌊x⌋₊ + 1
  else ⌊x⌋₊ + ⌊x⌋₊ % 2

/-- `Duration::from_secs_f64`; `none` where it panics, which is for NaN, below zero and from
`2 ^ 64` seconds on. -/
def fromSecsF64 (secs : Float) : Option Nat :=
  match secs.toModel.unpack with
  | .zero _ => some 0
  | .finite .positive m e _ =>
    let nanos := roundHalfEven (scaled m e * nanosPerSec)
    if nanos < 2 ^ 64 * nanosPerSec then some nanos else none
  | _ => none

/-- `f64::max`. -/
def maxF64 (x y : Float) : Float :=
  if x.isNaN then y else if y.isNaN then x else if x < y then y else x

/-- `f64::MIN_POSITIVE`. -/
def minPositive : Float := Float.ofBits 0x0010000000000000

/-- `Ord::clamp`. -/
def clampDuration (duration low high : Nat) : Nat := max low (min duration high)

/-! ### Options -/

structure BatchOptions where
  batchSizeMin : UInt64
  batchSizeMax : UInt64
  batchWaitMin : Nat
  batchWaitMax : Nat
  ewmaWindow : UInt64
  batchProbeFactor : Float
  batchBackoffFactor : Float

namespace BatchOptions

def enqueueDefaults : BatchOptions :=
  { batchSizeMin := 64, batchSizeMax := 8192, batchWaitMin := 1000000, batchWaitMax := 100000000
    ewmaWindow := 16, batchProbeFactor := 1.10, batchBackoffFactor := 0.80 }

def completionDefaults : BatchOptions :=
  { batchSizeMin := 128, batchSizeMax := 8192, batchWaitMin := 1000000, batchWaitMax := 20000000
    ewmaWindow := 16, batchProbeFactor := 1.25, batchBackoffFactor := 0.80 }

def validate (options : BatchOptions) (sectionName : String) : Except String Unit :=
  if options.ewmaWindow = 0 then .error (sectionName ++ ".ewma_window must be greater than zero")
  else if options.batchProbeFactor.isFinite = false ∨ options.batchProbeFactor ≤ 1.0 then
    .error (sectionName ++ ".batch_probe_factor must be greater than one")
  else if options.batchBackoffFactor.isFinite = false ∨
      ¬(0.0 ≤ options.batchBackoffFactor ∧ options.batchBackoffFactor < 1.0) then
    .error (sectionName ++ ".batch_backoff_factor must be greater than zero and less than one")
  else if options.batchSizeMin = 0 ∨ options.batchSizeMax < options.batchSizeMin then
    .error (sectionName ++ ".batch_size_min must be positive and not exceed batch_size_max")
  else if options.batchWaitMin = 0 ∨ options.batchWaitMax < options.batchWaitMin then
    .error (sectionName ++ ".batch_wait_min_ms must be positive and not exceed batch_wait_max_ms")
  else .ok ()

end BatchOptions

/-! ### The controller -/

inductive FlushReason where
  | fullBatch
  | timeout
deriving DecidableEq, Repr

structure AdaptiveBatchController where
  limits : BatchOptions
  requestRate : Ewma
  commitRate : Ewma
  commitDuration : Ewma
  fillRatio : Ewma
  baselineCommitDuration : Option Float
  batch : AdaptiveBatch
  batchWait : Nat
  backlog : UInt64
  lowFillTimeouts : Nat
  lastRequest : Option Nat
  lastCommit : Option Nat
  waitDirectionStreak : DirectionStreak
  completionGoodput : Ewma
  completionGoodputBaseline : Option Float

/-- What a commit does to the size of the batches. -/
inductive SizeDecision where
  /-- Nothing, as there is nothing to judge by. -/
  | keep
  /-- The batches were not half full for three times. -/
  | backOff
  | observe (direction : Int)
deriving DecidableEq, Repr

/-- What is reported about a commit. -/
structure CommitReport where
  filled : UInt64
  elapsed : Nat
  completedAt : Nat
  backlog : UInt64
  reason : FlushReason
deriving DecidableEq, Repr

namespace AdaptiveBatchController

def new (options : BatchOptions) : AdaptiveBatchController :=
  { limits := options
    requestRate := .new options.ewmaWindow
    commitRate := .new options.ewmaWindow
    commitDuration := .new options.ewmaWindow
    fillRatio := .new options.ewmaWindow
    baselineCommitDuration := none
    batch := .new options.batchSizeMin options.batchSizeMax options.batchProbeFactor
      options.batchBackoffFactor
    batchWait := options.batchWaitMin
    backlog := 0, lowFillTimeouts := 0, lastRequest := none, lastCommit := none
    waitDirectionStreak := .fresh
    completionGoodput := .new options.ewmaWindow
    completionGoodputBaseline := none }

def observeRequest (controller : AdaptiveBatchController) (now : Nat) : AdaptiveBatchController :=
  let observed := { controller with lastRequest := some now }
  match controller.lastRequest with
  | none => observed
  | some previous =>
    let elapsed := asSecsF64 (now - previous)
    if 0.0 < elapsed then { observed with requestRate := controller.requestRate.observe (1.0 / elapsed) }
    else observed

def observeCommitBaseline (controller : AdaptiveBatchController) (sample : Float) :
    AdaptiveBatchController :=
  { controller with
    baselineCommitDuration := match controller.baselineCommitDuration with
      | none => some sample
      | some baseline =>
        if sample < baseline then some sample else some (baseline + (sample - baseline) * 0.02) }

/-- How full the batch of a commit was. -/
def ratio (controller : AdaptiveBatchController) (report : CommitReport) : Float :=
  report.filled.toFloat / (max controller.batch.size 1).toFloat

/-- A timeout with nothing left to do and a batch that is not half full. -/
def lowFill (controller : AdaptiveBatchController) (report : CommitReport) : Bool :=
  report.reason = .timeout ∧ report.backlog = 0 ∧ controller.ratio report < 0.50

def recordFill (controller : AdaptiveBatchController) (report : CommitReport) :
    AdaptiveBatchController :=
  { controller with
    fillRatio := controller.fillRatio.observe (controller.ratio report)
    lowFillTimeouts :=
      if controller.lowFill report then min (controller.lowFillTimeouts + 1) 255 else 0 }

/-- The size backs off, and the count of timeouts and the streak start again. -/
def backOff (controller : AdaptiveBatchController) : AdaptiveBatchController :=
  { controller with
    batch := (controller.batch.setSize (floorToUInt64
      (controller.batch.size.toFloat * controller.limits.batchBackoffFactor))).resetDirection
    lowFillTimeouts := 0 }

def demandExceedsService (controller : AdaptiveBatchController) : Bool :=
  match controller.requestRate.value, controller.commitRate.value with
  | some requestRate, some commitRate =>
    if 0.0 < commitRate then controller.batch.size.toFloat * commitRate < requestRate else false
  | _, _ => false

/-- What `adjust_batch_size` decides. -/
def sizeDecision (controller : AdaptiveBatchController) : SizeDecision :=
  match controller.commitDuration.value, controller.baselineCommitDuration with
  | some commitDuration, some baseline =>
    let queueingRatio := commitDuration / maxF64 baseline minPositive
    if 3 ≤ controller.lowFillTimeouts ∧ queueingRatio ≤ 1.20 then .backOff
    else if 1.20 < queueingRatio then .observe (-1)
    else if 0 < controller.backlog ∨ controller.demandExceedsService then .observe 1
    else .observe 0
  | _, _ => .keep

def adjustBatchSize (controller : AdaptiveBatchController) : AdaptiveBatchController :=
  match controller.sizeDecision with
  | .keep => controller
  | .backOff => controller.backOff
  | .observe direction => { controller with batch := (controller.batch.observeDirection direction).1 }

/-- What `adjust_completion_batch_size` decides. -/
def completionDecision (controller : AdaptiveBatchController) : SizeDecision :=
  match controller.completionGoodput.value with
  | none => .keep
  | some goodput =>
    if 3 ≤ controller.lowFillTimeouts ∧ controller.backlog = 0 then .backOff
    else if controller.backlog = 0 then .observe 0
    else if goodput < controller.completionGoodputBaseline.getD goodput * 0.95 then .observe (-1)
    else .observe 1

/-- The goodput that the next one is compared with. -/
def nextBaseline (controller : AdaptiveBatchController) (goodput : Float) (direction : Int)
    (changed : Bool) : Float :=
  let baseline := controller.completionGoodputBaseline.getD goodput
  if 0 < direction then baseline + (goodput - baseline) * 0.10
  else if changed then goodput
  else baseline

def adjustCompletionBatchSize (controller : AdaptiveBatchController) : AdaptiveBatchController :=
  match controller.completionGoodput.value, controller.completionDecision with
  | some goodput, .backOff => { controller.backOff with completionGoodputBaseline := some goodput }
  | some goodput, .observe direction =>
    let (batch, changed) := controller.batch.observeDirection direction
    { controller with
      batch := batch
      completionGoodputBaseline := some (
        if controller.backlog = 0 then goodput else controller.nextBaseline goodput direction changed) }
  | _, _ => controller

/-- What `adjust_batch_wait` compares with the current wait. -/
def waitDirection (controller : AdaptiveBatchController) (desired : Nat) : Int :=
  if asSecsF64 controller.batchWait * 1.20 < asSecsF64 desired then 1
  else if asSecsF64 desired < asSecsF64 controller.batchWait * 0.80 then -1
  else 0

/-- The wait that would fill three quarters of a batch; `none` where `from_secs_f64` panics. -/
def desiredWait (controller : AdaptiveBatchController) (requestRate : Float) : Option Nat :=
  (fromSecsF64 (maxF64 (controller.batch.size.toFloat * 0.75 / requestRate)
    (asSecsF64 controller.limits.batchWaitMin))).map fun desired =>
      clampDuration desired controller.limits.batchWaitMin controller.limits.batchWaitMax

/-- The wait after a confirmed direction. -/
def nextWait (controller : AdaptiveBatchController) (desired : Nat) (direction : Int) : Option Nat :=
  let next :=
    if direction = 1 then
      (fromSecsF64 (asSecsF64 controller.batchWait * 1.25)).map fun wait => min wait desired
    else if direction = -1 then
      (fromSecsF64 (asSecsF64 controller.batchWait * 0.80)).map fun wait => max wait desired
    else some controller.batchWait
  next.map fun wait => clampDuration wait controller.limits.batchWaitMin controller.limits.batchWaitMax

/-- `adjust_batch_wait`; `none` for a panic. -/
def adjustBatchWait (controller : AdaptiveBatchController) : Option AdaptiveBatchController :=
  match controller.requestRate.value with
  | none => some controller
  | some requestRate =>
    if 0.0 < requestRate then do
      let desired ← controller.desiredWait requestRate
      let direction := controller.waitDirection desired
      let (streak, confirmed) := controller.waitDirectionStreak.confirm direction
      let observed := { controller with waitDirectionStreak := streak }
      if confirmed then
        let wait ← controller.nextWait desired direction
        some { observed with batchWait := wait }
      else some observed
    else some controller

/-- `record_successful_commit` up to the adjustments. -/
def observeCommit (controller : AdaptiveBatchController) (report : CommitReport) :
    AdaptiveBatchController :=
  let duration := asSecsF64 report.elapsed
  let observed := { controller with
    backlog := report.backlog, lastCommit := some report.completedAt
    commitDuration := controller.commitDuration.observe duration }.observeCommitBaseline duration
  let interval := (controller.lastCommit.map fun previous => asSecsF64 (report.completedAt - previous))
  match interval with
  | none => observed.recordFill report
  | some interval =>
    if 0.0 < interval then
      { observed with commitRate := controller.commitRate.observe (1.0 / interval) }.recordFill report
    else observed.recordFill report

def recordSuccessfulCommit (controller : AdaptiveBatchController) (report : CommitReport) :
    Option AdaptiveBatchController :=
  (controller.observeCommit report).adjustBatchSize.adjustBatchWait

/-- `record_successful_completion_commit` up to the adjustments. -/
def observeCompletionCommit (controller : AdaptiveBatchController) (report : CommitReport) :
    AdaptiveBatchController :=
  let observed := { controller with backlog := report.backlog, lastCommit := some report.completedAt }
  let interval := match controller.lastCommit with
    | some previous => report.completedAt - previous
    | none => report.elapsed
  let seconds := asSecsF64 interval
  if 0.0 < seconds then
    { observed with
      completionGoodput := controller.completionGoodput.observe
        (report.filled.toFloat / seconds) }.recordFill report
  else observed.recordFill report

def recordSuccessfulCompletionCommit (controller : AdaptiveBatchController) (report : CommitReport) :
    Option AdaptiveBatchController :=
  (controller.observeCompletionCommit report).adjustCompletionBatchSize.adjustBatchWait

def batchSize (controller : AdaptiveBatchController) : UInt64 := controller.batch.size

end AdaptiveBatchController

end Maqistor
