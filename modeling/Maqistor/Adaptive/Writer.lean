import Maqistor.Adaptive.Limits
import Maqistor.Ingest.Loop
import Maqistor.Lib.WriterBatches
import Maqistor.Results.Loop

/-! The writers with their controllers: the size of a batch that starts is the controller's, each
request that a batch takes is observed, and what a batch has committed is reported. -/

namespace Maqistor

open Runs WriterLoop

/-- What a batch call says of its commit, and when it was over. -/
structure BatchCommit where
  count : Nat
  duration : Nat
  completedAt : Nat
deriving DecidableEq, Repr

/-- What a writer reports: the requests that are still to do, and the call that records a commit. -/
structure Metering (ρ σ ω : Type) where
  backlog : Loop ρ σ ω → Nat
  record : CommitReport → ControllerCall

/-- `run_ingest_turn` and `flush_ingest` count what is in the channel. -/
def IngestWriter.metering : Metering IngestConn.Request IngestWriter
    (Except StoreError IngestConn.Response) where
  backlog loop := loop.channel.length
  record := .commit

/-- `run_complete_turn` counts the queue of completions too; `flush_complete` has emptied it. -/
def ResultsConn.metering : Metering ResultsConn.Request ResultsConn
    (Except StoreError ResultsConn.Response) where
  backlog loop := loop.batched.length + loop.channel.length
  record := .completionCommit

structure TunedWriter (ρ σ ω : Type) where
  loop : Loop ρ σ ω
  controller : AdaptiveBatchController

inductive TunedAction (ρ : Type) (τ : Type*) where
  | arrive (request : ρ)
  | close
  /-- A step of the loop, with the times of the requests that it takes and the commit of a batch
  call. -/
  | work (expired : Bool) (env : τ) (clock : Nat → Nat) (commit : Option BatchCommit)

namespace TunedWriter

variable {ρ σ ω : Type} {τ : Type*}

def initial (conn : σ) (options : BatchOptions) : TunedWriter ρ σ ω :=
  { loop := .initial conn, controller := .new options }

/-- The batch that a step has called, with why it was flushed. -/
def flushed (loop loop' : Loop ρ σ ω) : Option (Nat × FlushReason) :=
  match loop.phase, loop'.phase with
  | .turn _ _, .turn _ _ => none
  | .turn pending target, _ =>
    some (pending.length, if target ≤ pending.length then .fullBatch else .timeout)
  | .stop _, _ => if loop.batched = [] then none else some (loop.batched.length, .timeout)
  | _, _ => none

/-- The calls on the controller in a step of the loop. -/
def controllerCalls (metering : Metering ρ σ ω) (loop loop' : Loop ρ σ ω) (clock : Nat → Nat)
    (commit : Option BatchCommit) : List ControllerCall :=
  (List.range (loop'.pending.length - loop.pending.length)).map (fun place => .observeRequest (clock place)) ++
    match flushed loop loop', commit with
    | some (filled, reason), some commit =>
      [metering.record { filled := (min filled commit.count).toUInt64, elapsed := commit.duration
                         completedAt := commit.completedAt, backlog := (metering.backlog loop').toUInt64
                         reason := reason }]
    | _, _ => []

def step (spec : Spec ρ σ ω τ) (metering : Metering ρ σ ω) (writer : TunedWriter ρ σ ω) :
    TunedAction ρ τ → Option (TunedWriter ρ σ ω × List (Option CommitRecord))
  | .arrive request =>
    (writer.loop.step spec (.arrive request)).map fun result => ({ writer with loop := result.1 }, [])
  | .close => (writer.loop.step spec .close).map fun result => ({ writer with loop := result.1 }, [])
  | .work expired env clock commit => do
    let (loop, _) ← writer.loop.step spec
      (.work { target := writer.controller.batchSize.toNat, expired := expired, env := env })
    let (controller, events) ← exec AdaptiveBatchController.step (fun _ _ => True) writer.controller
      (controllerCalls metering writer.loop loop clock commit)
    some ({ loop := loop, controller := controller }, events)

/-- Requests arrive as `accepts` says. -/
def Admits (accepts : ρ → Prop) (_ : TunedWriter ρ σ ω) : TunedAction ρ τ → Prop
  | .arrive request => accepts request
  | _ => True

variable {spec : Spec ρ σ ω τ} {metering : Metering ρ σ ω} {accepts : ρ → Prop}
  {writer writer' : TunedWriter ρ σ ω} {options : BatchOptions}

/-- What holds of a writer in every state: it answers, its controller keeps to the options, and so
do its batches, also the one that a writer would make of what is queued when it stops. -/
structure Regular (spec : Spec ρ σ ω τ) (does : Does ρ σ ω τ) (conn : σ) (options : BatchOptions)
    (writer : TunedWriter ρ σ ω) : Prop where
  answers : writer.loop.Answers spec does conn
  size : options.batchSizeMin ≤ writer.controller.batchSize ∧
    writer.controller.batchSize ≤ options.batchSizeMax
  turn : writer.loop.pending.length ≤ options.batchSizeMax.toNat
  calls : ∀ call ∈ writer.loop.calls, call.length ≤ options.batchSizeMax.toNat
  stopped : writer.loop.phase.Stopped → writer.loop.batched = []

instance {accepts : ρ → Prop} [DecidablePred accepts] (writer : TunedWriter ρ σ ω)
    (action : TunedAction ρ τ) : Decidable (Admits accepts writer action) :=
  match action with
  | .arrive request => inferInstanceAs (Decidable (accepts request))
  | .close | .work _ _ _ _ => inferInstanceAs (Decidable True)

def fewOptions : SqliteWriteOptions :=
  { SqliteWriteOptions.defaults with
    enqueue := { BatchOptions.enqueueDefaults with batchSizeMin := 1, batchSizeMax := 3 } }

end TunedWriter

end Maqistor
