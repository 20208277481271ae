import Maqistor.Dispatcher.Registry
import Maqistor.Engine.Scheduler
import Maqistor.Types

/-! The engine: the scheduler's task with its passes, the delivery pump and the delivery tasks. A
pass takes one permit of the delivery budget for each slot that the dispatcher reserved; the permit
goes with the job into the delivery channel and is given back when its delivery task ends. -/

namespace Maqistor

/-- The options that the scheduler reads. -/
structure DispatchOptions where
  batchSizeMax : Nat
  maxDeliveryInFlight : Nat
  idleProbeBatchSize : Nat
deriving DecidableEq, Repr

/-- `ReservedDispatch` as the engine sees it: the queue, and what the dispatcher put into it. -/
structure Reserved (π : Type) where
  queueName : String
  permit : π
deriving DecidableEq, Repr

/-- A claimed job on its way to a worker. It holds one permit of the budget. -/
structure DeliveryWork (π : Type) where
  permit : Reserved π
  job : Job
deriving DecidableEq, Repr

/-- Where a delivery task stands. It gives its permit of the budget back when it ends. -/
inductive DeliveryTask (π : Type) where
  | dispatching (work : DeliveryWork π)
  | releasing (job : Job)
  | scheduling (queue : String)
  | ending
deriving DecidableEq, Repr

/-- A queue that a pass is at: its permits, the queues that come after it and the permits of the
other queues. Each permit comes with one of the budget. -/
structure Visit (π : Type) where
  queue : String
  permits : List (Reserved π)
  queues : List String
  held : List (Reserved π)
deriving DecidableEq, Repr

/-- Where `drain_pass` stands. -/
inductive Pass (π : Type) where
  | waiting
  /-- The pass ends early, with one outcome for all its queues. -/
  | finishing (queues : List String) (outcome : PassOutcome)
  | reserving (queues : List String) (requests : List QueueReservation)
  | acquiring (queues : List String) (permits held : List (Reserved π))
  | serving (queues : List String) (held : List (Reserved π))
  | claiming (visit : Visit π)
  | sending (visit : Visit π) (jobs : List Job) (outcome : PassOutcome)
  /-- The channel has refused a job. -/
  | refusing (visit : Visit π) (job : Job) (jobs : List Job) (outcome : PassOutcome)
  /-- The permits that are left go back to the dispatcher. -/
  | returning (visit : Visit π) (outcome : PassOutcome)
  /-- The claim returned more jobs than there were permits. -/
  | panicked (queues : List String)
deriving DecidableEq, Repr

structure Engine (π : Type) where
  scheduling : Scheduling
  available : Nat
  channel : List (DeliveryWork π)
  tasks : List (DeliveryTask π)
  pass : Pass π

/-- The replies that a pass waits for are part of the actions: what the dispatcher reserved and what
the store claimed, with `none` for an error. -/
inductive Engine.Action (π : Type) where
  | scheduling (action : Scheduling.Action)
  | start (order : List String)
  | reserve (permits : Option (List (Reserved π)))
  | claim (jobs : Option (List Job))
  | proceed
  | receive
  | dispatched (task : Nat) (delivered : Bool)
  | released (task : Nat)
  | wake (task : Nat)
  | drop (task : Nat)

namespace Engine

variable {π : Type}

def initial (options : DispatchOptions) : Engine π :=
  { scheduling := .initial, available := options.maxDeliveryInFlight, channel := [], tasks := []
    pass := .waiting }

/-- The requests of a pass over some queues. -/
def requests (options : DispatchOptions) (headroom : Nat) (queues : List String) :
    List QueueReservation :=
  let perQueue := min (max (headroom / max queues.length 1) 1)
    (min options.batchSizeMax maxClaimBatchSize)
  queues.map fun queue => { queueName := queue, count := perQueue }

/-- The start of `drain_pass`. -/
def startPass (options : DispatchOptions) (engine : Engine π) (queues : List String) : Engine π :=
  { engine with
    pass := if engine.available = 0 then .finishing queues .capacityBlocked
      else .reserving queues (requests options engine.available queues) }

/-- `finish_pass` for a queue, after which the pass goes on. -/
def finishQueue (engine : Engine π) (queue : String) (outcome : PassOutcome) (pass : Pass π) :
    Engine π :=
  { engine with scheduling := engine.scheduling.finish queue outcome, pass := pass }

/-- The reply of `reserve`. -/
def reserved (engine : Engine π) (queues : List String) : Option (List (Reserved π)) → Engine π
  | none => { engine with pass := .finishing queues .retry }
  | some permits => { engine with pass := .acquiring queues permits [] }

/-- The reply of `claim_batch`. -/
def claimed (engine : Engine π) (visit : Visit π) : Option (List Job) → Engine π
  | none => { engine with pass := .returning visit .retry }
  | some jobs =>
    { engine with
      pass := .sending visit jobs (if jobs.length = visit.permits.length then .active else .idle) }

/-- `try_acquire_owned` for the next permit; without one the permit goes back to the dispatcher. -/
def acquire (engine : Engine π) (queues : List String) (permit : Reserved π)
    (permits held : List (Reserved π)) : Engine π :=
  if engine.available = 0 then { engine with pass := .acquiring queues permits held }
  else
    { engine with
      available := engine.available - 1
      pass := .acquiring queues permits (held ++ [permit]) }

/-- The permits of the next queue, if it has any. -/
def serve (engine : Engine π) (queue : String) (queues : List String) (held : List (Reserved π)) :
    Engine π :=
  let permits := held.filter fun permit => permit.queueName = queue
  if permits = [] then engine.finishQueue queue .capacityBlocked (.serving queues held)
  else
    { engine with
      pass := .claiming
        { queue := queue, permits := permits, queues := queues
          held := held.filter fun permit => permit.queueName ≠ queue } }

/-- `try_send` of the next job. -/
def trySend (options : DispatchOptions) (engine : Engine π) (visit : Visit π) (job : Job)
    (jobs : List Job) (outcome : PassOutcome) : Engine π :=
  match visit.permits with
  | [] =>
    { engine with
      available := engine.available + visit.held.length
      pass := .panicked (visit.queue :: visit.queues) }
  | permit :: permits =>
    if engine.channel.length < options.maxDeliveryInFlight then
      { engine with
        channel := engine.channel ++ [{ permit := permit, job := job }]
        pass := .sending { visit with permits := permits } jobs outcome }
    else
      { engine with
        available := engine.available + 1
        pass := .refusing { visit with permits := permits } job jobs outcome }

/-- The release of the permits that are left, then the end of the pass over the queue. -/
def giveBack (engine : Engine π) (visit : Visit π) (outcome : PassOutcome) : Engine π :=
  match visit.permits with
  | [] => engine.finishQueue visit.queue outcome (.serving visit.queues visit.held)
  | _ :: permits =>
    { engine with
      available := engine.available + 1
      pass := .returning { visit with permits := permits } outcome }

/-- The next step of `drain_pass`, where it does not wait for a reply. -/
def proceed (options : DispatchOptions) (engine : Engine π) : Option (Engine π) :=
  match engine.pass with
  | .waiting | .reserving _ _ | .claiming _ | .panicked _ => none
  | .finishing [] _ => some { engine with pass := .waiting }
  | .finishing (queue :: queues) outcome =>
    some (engine.finishQueue queue outcome (.finishing queues outcome))
  | .acquiring queues [] held => some { engine with pass := .serving queues held }
  | .acquiring queues (permit :: permits) held => some (engine.acquire queues permit permits held)
  | .serving [] held =>
    -- permits for queues that the pass does not have are dropped with the map
    some { engine with available := engine.available + held.length, pass := .waiting }
  | .serving (queue :: queues) held => some (engine.serve queue queues held)
  | .sending visit [] outcome => some { engine with pass := .returning visit outcome }
  | .sending visit (job :: jobs) outcome => some (engine.trySend options visit job jobs outcome)
  | .refusing visit job jobs outcome =>
    some { engine with
      scheduling := engine.scheduling.schedule job.name
      pass := .sending visit jobs outcome }
  | .returning visit outcome => some (engine.giveBack visit outcome)

/-- What a delivery task does when `dispatch` has returned. -/
def afterDispatch (job : Job) (delivered : Bool) : DeliveryTask π :=
  if !delivered ∧ job.dispatchId.isSome then .releasing job else .scheduling job.name

def step (options : DispatchOptions) (engine : Engine π) : Action π → Option (Engine π × Unit)
  | .scheduling action =>
    match action with
    | .start | .finish _ _ => none
    | _ => do
      let (scheduling, _) ← engine.scheduling.step options.idleProbeBatchSize action
      some ({ engine with scheduling := scheduling }, ())
  | .start order =>
    match engine.pass with
    | .waiting => do
      let (scheduling, _) ← engine.scheduling.step options.idleProbeBatchSize .start
      if order.Perm scheduling.pass then
        some ({ engine with scheduling := scheduling }.startPass options order, ())
      else none
    | _ => none
  | .reserve permits =>
    match engine.pass with
    | .reserving queues _ => some (engine.reserved queues permits, ())
    | _ => none
  | .claim jobs =>
    match engine.pass with
    | .claiming visit => some (engine.claimed visit jobs, ())
    | _ => none
  | .proceed => (engine.proceed options).map fun engine => (engine, ())
  | .receive =>
    match engine.channel with
    | [] => none
    | work :: channel =>
      some ({ engine with channel := channel, tasks := engine.tasks ++ [.dispatching work] }, ())
  | .dispatched task delivered =>
    match engine.tasks[task]? with
    | some (.dispatching work) =>
      some ({ engine with tasks := engine.tasks.set task (afterDispatch work.job delivered) }, ())
    | _ => none
  | .released task =>
    match engine.tasks[task]? with
    | some (.releasing job) =>
      some ({ engine with tasks := engine.tasks.set task (.scheduling job.name) }, ())
    | _ => none
  | .wake task =>
    match engine.tasks[task]? with
    | some (.scheduling queue) =>
      some ({ engine with
        scheduling := engine.scheduling.schedule queue
        tasks := engine.tasks.set task .ending }, ())
    | _ => none
  | .drop task =>
    match engine.tasks[task]? with
    | some .ending =>
      some ({ engine with
        available := engine.available + 1
        tasks := engine.tasks.eraseIdx task }, ())
    | _ => none

/-! ### The transitions -/

/-- The steps of a pass that waits for nothing. -/
inductive Proceeds (options : DispatchOptions) (engine : Engine π) : Engine π → Prop
  | ended {outcome : PassOutcome} (hpass : engine.pass = .finishing [] outcome) :
      Proceeds options engine { engine with pass := .waiting }
  | finish {queue : String} {queues : List String} {outcome : PassOutcome}
      (hpass : engine.pass = .finishing (queue :: queues) outcome) :
      Proceeds options engine (engine.finishQueue queue outcome (.finishing queues outcome))
  | acquired {queues : List String} {held : List (Reserved π)}
      (hpass : engine.pass = .acquiring queues [] held) :
      Proceeds options engine { engine with pass := .serving queues held }
  | acquire {queues : List String} {permit : Reserved π} {permits held : List (Reserved π)}
      (hpass : engine.pass = .acquiring queues (permit :: permits) held) :
      Proceeds options engine (engine.acquire queues permit permits held)
  | served {held : List (Reserved π)} (hpass : engine.pass = .serving [] held) :
      Proceeds options engine
        { engine with available := engine.available + held.length, pass := .waiting }
  | serve {queue : String} {queues : List String} {held : List (Reserved π)}
      (hpass : engine.pass = .serving (queue :: queues) held) :
      Proceeds options engine (engine.serve queue queues held)
  | sent {visit : Visit π} {outcome : PassOutcome} (hpass : engine.pass = .sending visit [] outcome) :
      Proceeds options engine { engine with pass := .returning visit outcome }
  | trySend {visit : Visit π} {job : Job} {jobs : List Job} {outcome : PassOutcome}
      (hpass : engine.pass = .sending visit (job :: jobs) outcome) :
      Proceeds options engine (engine.trySend options visit job jobs outcome)
  | refuse {visit : Visit π} {job : Job} {jobs : List Job} {outcome : PassOutcome}
      (hpass : engine.pass = .refusing visit job jobs outcome) :
      Proceeds options engine
        { engine with
          scheduling := engine.scheduling.schedule job.name
          pass := .sending visit jobs outcome }
  | giveBack {visit : Visit π} {outcome : PassOutcome} (hpass : engine.pass = .returning visit outcome) :
      Proceeds options engine (engine.giveBack visit outcome)

theorem proceed_proceeds {options : DispatchOptions} {engine engine' : Engine π}
    (h : engine.proceed options = some engine') : Proceeds options engine engine' := by
  unfold proceed at h
  split at h
  · cases h
  · cases h
  · cases h
  · cases h
  · next hpass => exact Option.some.inj h ▸ .ended hpass
  · next hpass => exact Option.some.inj h ▸ .finish hpass
  · next hpass => exact Option.some.inj h ▸ .acquired hpass
  · next hpass => exact Option.some.inj h ▸ .acquire hpass
  · next hpass => exact Option.some.inj h ▸ .served hpass
  · next hpass => exact Option.some.inj h ▸ .serve hpass
  · next hpass => exact Option.some.inj h ▸ .sent hpass
  · next hpass => exact Option.some.inj h ▸ .trySend hpass
  · next hpass => exact Option.some.inj h ▸ .refuse hpass
  · next hpass => exact Option.some.inj h ▸ .giveBack hpass

/-- What a step can be, with what it found. -/
inductive Transition (options : DispatchOptions) (engine : Engine π) :
    Action π → Engine π → Prop
  | scheduling {action : Scheduling.Action} {scheduling : Scheduling}
      (hstart : action ≠ .start) (hfinish : ∀ queue outcome, action ≠ .finish queue outcome)
      (hstep : engine.scheduling.step options.idleProbeBatchSize action = some (scheduling, ())) :
      Transition options engine (.scheduling action) { engine with scheduling := scheduling }
  | start {order : List String} {scheduling : Scheduling} (hpass : engine.pass = .waiting)
      (hstep : engine.scheduling.step options.idleProbeBatchSize .start = some (scheduling, ()))
      (hperm : order.Perm scheduling.pass) :
      Transition options engine (.start order)
        ({ engine with scheduling := scheduling }.startPass options order)
  | reserve {queues : List String} {requests : List QueueReservation}
      {permits : Option (List (Reserved π))} (hpass : engine.pass = .reserving queues requests) :
      Transition options engine (.reserve permits) (engine.reserved queues permits)
  | claim {visit : Visit π} {jobs : Option (List Job)} (hpass : engine.pass = .claiming visit) :
      Transition options engine (.claim jobs) (engine.claimed visit jobs)
  | proceed {engine' : Engine π} (h : Proceeds options engine engine') :
      Transition options engine .proceed engine'
  | receive {work : DeliveryWork π} {channel : List (DeliveryWork π)}
      (hchannel : engine.channel = work :: channel) :
      Transition options engine .receive
        { engine with channel := channel, tasks := engine.tasks ++ [.dispatching work] }
  | task {action : Action π} {i : Nat} {old new : DeliveryTask π}
      (hold : engine.tasks[i]? = some old) :
      Transition options engine action { engine with tasks := engine.tasks.set i new }
  | wake {i : Nat} {queue : String} (htask : engine.tasks[i]? = some (.scheduling queue)) :
      Transition options engine (.wake i)
        { engine with
          scheduling := engine.scheduling.schedule queue
          tasks := engine.tasks.set i .ending }
  | drop {i : Nat} (htask : engine.tasks[i]? = some .ending) :
      Transition options engine (.drop i)
        { engine with available := engine.available + 1, tasks := engine.tasks.eraseIdx i }

theorem step_transition {options : DispatchOptions} {engine engine' : Engine π} {action : Action π}
    {event : Unit} (h : engine.step options action = some (engine', event)) :
    Transition options engine action engine' := by
  cases action with
  | scheduling action =>
    simp only [step] at h
    split at h
    · cases h
    · cases h
    · next hstart hfinish =>
      obtain ⟨⟨scheduling, _⟩, hstep, h⟩ := Option.bind_eq_some_iff.mp h
      obtain rfl := congrArg Prod.fst (Option.some.inj h)
      exact .scheduling hstart hfinish hstep
  | start order =>
    simp only [step] at h
    split at h
    · next hpass =>
      obtain ⟨⟨scheduling, _⟩, hstep, h⟩ := Option.bind_eq_some_iff.mp h
      simp only at h
      split at h
      · next hperm =>
        obtain rfl := congrArg Prod.fst (Option.some.inj h)
        exact .start hpass hstep hperm
      · cases h
    · cases h
  | reserve permits =>
    simp only [step] at h
    split at h
    · next hpass =>
      obtain rfl := congrArg Prod.fst (Option.some.inj h)
      exact .reserve hpass
    · cases h
  | claim jobs =>
    simp only [step] at h
    split at h
    · next hpass =>
      obtain rfl := congrArg Prod.fst (Option.some.inj h)
      exact .claim hpass
    · cases h
  | proceed =>
    obtain ⟨after, hproceed, heq⟩ := Option.map_eq_some_iff.mp h
    obtain rfl := congrArg Prod.fst heq
    exact .proceed (proceed_proceeds hproceed)
  | receive =>
    simp only [step] at h
    split at h
    · cases h
    · next hchannel =>
      obtain rfl := congrArg Prod.fst (Option.some.inj h)
      exact .receive hchannel
  | dispatched task delivered | released task =>
    simp only [step] at h
    split at h
    · next htask =>
      obtain rfl := congrArg Prod.fst (Option.some.inj h)
      exact .task htask
    · cases h
  | wake task =>
    simp only [step] at h
    split at h
    · next htask =>
      obtain rfl := congrArg Prod.fst (Option.some.inj h)
      exact .wake htask
    · cases h
  | drop task =>
    simp only [step] at h
    split at h
    · next htask =>
      obtain rfl := congrArg Prod.fst (Option.some.inj h)
      exact .drop htask
    · cases h

end Engine

end Maqistor
