import Maqistor.Lib.Runs
import Mathlib.Data.Finset.Card
import Mathlib.Data.List.AList

/-! The engine's scheduler: which queues are due for a pass, how wake-ups are coalesced, and the
list of idle queues that are probed from time to time. A lock section on the scheduler's state is
one function here; a send on the wake-up channel comes after the lock is released and is a step of
its own. -/

namespace Maqistor

structure QueueSchedule where
  rerun : Bool
  retryCount : Nat
deriving DecidableEq, Repr

/-- `QueueSchedule::default()`. -/
def QueueSchedule.fresh : QueueSchedule := { rerun := false, retryCount := 0 }

inductive PassOutcome where
  | active
  | idle
  | capacityBlocked
  | retry
deriving DecidableEq, Repr

/-- What `finish_pass` does once the lock is released. -/
inductive AfterPass where
  | nothing
  | send
  | retry (delayMs : Nat)
deriving DecidableEq, Repr

/-- The state under the scheduler's lock. -/
structure SchedulerState where
  scheduled : AList fun _ : String => QueueSchedule
  idle : List String
  idleSet : Finset String

namespace SchedulerState

/-- `schedule_queue`, with whether a wake-up has to be sent. -/
def scheduleQueue (state : SchedulerState) (queue : String) : SchedulerState × Bool :=
  match state.scheduled.lookup queue with
  | some schedule =>
    ({ state with scheduled := state.scheduled.insert queue { schedule with rerun := true } }, false)
  | none =>
    ({ state with
      idleSet := state.idleSet.erase queue
      scheduled := state.scheduled.insert queue .fresh }, true)

/-- A queue goes to the end of the idle list, unless the set has it. -/
def pushIdle (state : SchedulerState) (queue : String) : SchedulerState :=
  if queue ∈ state.idleSet then state
  else { state with idleSet := insert queue state.idleSet, idle := state.idle ++ [queue] }

/-- `finish_pass`. -/
def finishPass (state : SchedulerState) (queue : String) (outcome : PassOutcome) :
    SchedulerState × AfterPass :=
  match state.scheduled.lookup queue with
  | none => (state, .nothing)
  | some schedule =>
    match outcome with
    | .active => ({ state with scheduled := state.scheduled.insert queue .fresh }, .send)
    | .idle | .capacityBlocked =>
      if schedule.rerun then
        ({ state with scheduled := state.scheduled.insert queue .fresh }, .send)
      else
        ({ state with scheduled := state.scheduled.erase queue }.pushIdle queue, .nothing)
    | .retry =>
      let retryCount := min (schedule.retryCount + 1) 7
      ({ state with
        scheduled := state.scheduled.insert queue { rerun := false, retryCount := retryCount } },
        .retry (min (10 * (1 <<< retryCount)) 1000))

/-- `resume_retry`: whether a wake-up is sent. -/
def resumeRetry (state : SchedulerState) (queue : String) : Bool := queue ∈ state.scheduled

/-- `seed_idle_queues`, with the names that the store lists. -/
def seedIdleQueues (state : SchedulerState) (queues : List String) : SchedulerState :=
  queues.foldl pushIdle state

/-- The loop of `probe_idle_queues`. A name that is scheduled is dropped and does not count. -/
def probeFrom (batchSize : Nat) (scheduled : AList fun _ : String => QueueSchedule) :
    List String → Finset String → List String → SchedulerState × List String
  | [], idleSet, queues => ({ scheduled := scheduled, idle := [], idleSet := idleSet }, queues)
  | queue :: idle, idleSet, queues =>
    if queues.length < batchSize then
      probeFrom batchSize scheduled idle (idleSet.erase queue)
        (if queue ∈ scheduled then queues else queues ++ [queue])
    else ({ scheduled := scheduled, idle := queue :: idle, idleSet := idleSet }, queues)

/-- `probe_idle_queues` up to the end of its lock section, with the queues to schedule. -/
def probeIdleQueues (batchSize : Nat) (state : SchedulerState) : SchedulerState × List String :=
  probeFrom batchSize state.scheduled state.idle state.idleSet []

/-! ### What the lock sections do -/

section Sections

variable {state : SchedulerState} {queue other : String}

/-- What `schedule_queue` finds: the queue is scheduled, and only its flag is set, or it is
scheduled now. -/
theorem scheduleQueue_cases (state : SchedulerState) (queue : String) :
    (∃ schedule, state.scheduled.lookup queue = some schedule ∧
      state.scheduleQueue queue = ({ state with
        scheduled := state.scheduled.insert queue { schedule with rerun := true } }, false)) ∨
    (queue ∉ state.scheduled ∧ state.scheduleQueue queue = ({ state with
      idleSet := state.idleSet.erase queue
      scheduled := state.scheduled.insert queue .fresh }, true)) := by
  unfold scheduleQueue
  split
  · next schedule hschedule => exact Or.inl ⟨schedule, hschedule, rfl⟩
  · next hnone => exact Or.inr ⟨AList.lookup_eq_none.mp hnone, rfl⟩

@[simp] theorem pushIdle_scheduled (state : SchedulerState) (queue : String) :
    (state.pushIdle queue).scheduled = state.scheduled := by
  unfold pushIdle
  split <;> rfl

@[simp] theorem seedIdleQueues_scheduled (state : SchedulerState) (queues : List String) :
    (state.seedIdleQueues queues).scheduled = state.scheduled := by
  unfold seedIdleQueues
  induction queues generalizing state with
  | nil => rfl
  | cons queue rest ih => rw [List.foldl_cons, ih, pushIdle_scheduled]

theorem probeFrom_scheduled (batchSize : Nat) (scheduled : AList fun _ : String => QueueSchedule)
    (idle : List String) (idleSet : Finset String) (queues : List String) :
    (probeFrom batchSize scheduled idle idleSet queues).1.scheduled = scheduled := by
  induction idle generalizing idleSet queues with
  | nil => rfl
  | cons queue rest ih =>
    unfold probeFrom
    split
    · exact ih _ _
    · rfl

end Sections

end SchedulerState

/-- The scheduler with what its tasks hold: the wake-up channel, the wake-ups that are not sent yet,
the queues of the current pass that are not finished, the timers of retries, and the queues that a
probe still has to schedule. The queues that were ever seeded or scheduled are its history. -/
structure Scheduling where
  state : SchedulerState
  tx : List String
  sending : List String
  pass : List String
  timers : List (String × Nat)
  probing : List String
  known : Finset String

inductive Scheduling.Action where
  | seed (queues : List String)
  | schedule (queue : String)
  | send (wakeup : Nat)
  | start
  | finish (queue : String) (outcome : PassOutcome)
  | fire (timer : Nat)
  | probe
  | probeNext
deriving DecidableEq, Repr

namespace Scheduling

def initial : Scheduling :=
  { state := { scheduled := ∅, idle := [], idleSet := ∅ }, tx := [], sending := [], pass := []
    timers := [], probing := [], known := ∅ }

/-- `schedule_queue` up to its send. -/
def schedule (system : Scheduling) (queue : String) : Scheduling :=
  let (state, shouldSend) := system.state.scheduleQueue queue
  { system with
    state := state
    sending := if shouldSend then system.sending ++ [queue] else system.sending
    known := insert queue system.known }

/-- The end of `finish_pass`, once the lock is released. -/
def afterPass (system : Scheduling) (queue : String) : AfterPass → Scheduling
  | .nothing => system
  | .send => { system with sending := system.sending ++ [queue] }
  | .retry delayMs => { system with timers := system.timers ++ [(queue, delayMs)] }

/-- `finish_pass` up to its send. -/
def finish (system : Scheduling) (queue : String) (outcome : PassOutcome) : Scheduling :=
  let (state, after) := system.state.finishPass queue outcome
  { system with state := state, pass := system.pass.erase queue }.afterPass queue after

section Finish

variable {system : Scheduling} {queue : String}

/-- What `finish_pass` does to a queue that is scheduled: it gets another wake-up, it rests, or it
waits for its timer. -/
inductive Finished (system : Scheduling) (queue : String) (schedule : QueueSchedule) :
    PassOutcome → Scheduling → Prop
  | again {outcome : PassOutcome} (hagain : outcome = .active ∨ schedule.rerun = true) :
      Finished system queue schedule outcome
        { system with
          state := { system.state with scheduled := system.state.scheduled.insert queue .fresh }
          pass := system.pass.erase queue
          sending := system.sending ++ [queue] }
  | rests {outcome : PassOutcome} (hidle : outcome = .idle ∨ outcome = .capacityBlocked)
      (hrerun : schedule.rerun = false) :
      Finished system queue schedule outcome
        { system with
          state :=
            { system.state with scheduled := system.state.scheduled.erase queue }.pushIdle queue
          pass := system.pass.erase queue }
  | retries {retryCount delayMs : Nat} :
      Finished system queue schedule .retry
        { system with
          state := { system.state with
            scheduled := system.state.scheduled.insert queue
              { rerun := false, retryCount := retryCount } }
          pass := system.pass.erase queue
          timers := system.timers ++ [(queue, delayMs)] }

theorem finish_of_mem {schedule : QueueSchedule}
    (h : system.state.scheduled.lookup queue = some schedule) (outcome : PassOutcome) :
    Finished system queue schedule outcome (system.finish queue outcome) := by
  -- The two outcomes that let a queue rest share an arm in the source.
  have hrests : outcome = .idle ∨ outcome = .capacityBlocked →
      Finished system queue schedule outcome (system.finish queue outcome) := by
    intro hidle
    have hfinish : system.state.finishPass queue outcome =
        if schedule.rerun then
          ({ system.state with scheduled := system.state.scheduled.insert queue .fresh }, .send)
        else ({ system.state with scheduled := system.state.scheduled.erase queue }.pushIdle queue,
          .nothing) := by
      unfold SchedulerState.finishPass
      rw [h]
      rcases hidle with rfl | rfl <;> rfl
    unfold finish
    rw [hfinish]
    cases hrerun : schedule.rerun with
    | true => exact .again (Or.inr hrerun)
    | false => exact .rests hidle hrerun
  cases outcome with
  | idle => exact hrests (Or.inl rfl)
  | capacityBlocked => exact hrests (Or.inr rfl)
  | active =>
    rw [finish, SchedulerState.finishPass, h]
    exact .again (Or.inl rfl)
  | retry =>
    rw [finish, SchedulerState.finishPass, h]
    exact .retries

theorem finish_of_notMem (h : queue ∉ system.state.scheduled) (outcome : PassOutcome) :
    system.finish queue outcome = { system with pass := system.pass.erase queue } := by
  rw [finish, SchedulerState.finishPass, AList.lookup_eq_none.mpr h]
  rfl

/-- What holds after `finish_pass`: for a queue that is not scheduled, and for each way to finish
one that is. -/
theorem finish_induction {outcome : PassOutcome} {P : Scheduling → Prop}
    (habsent : queue ∉ system.state.scheduled →
      P { system with pass := system.pass.erase queue })
    (hfinished : ∀ schedule after, system.state.scheduled.lookup queue = some schedule →
      Finished system queue schedule outcome after → P after) :
    P (system.finish queue outcome) := by
  by_cases hmem : queue ∈ system.state.scheduled
  · obtain ⟨schedule, hlookup⟩ := Option.isSome_iff_exists.mp (AList.lookup_isSome.mpr hmem)
    exact hfinished schedule _ hlookup (finish_of_mem hlookup outcome)
  · rw [finish_of_notMem hmem]
    exact habsent hmem

theorem finish_pass (system : Scheduling) (queue : String) (outcome : PassOutcome) :
    (system.finish queue outcome).pass = system.pass.erase queue := by
  refine finish_induction (P := fun after => after.pass = system.pass.erase queue) (fun _ => rfl)
    fun schedule after _ hfinished => ?_
  cases hfinished with
  | again | rests | retries => rfl

end Finish

/-- A step of one of the tasks. A pass takes all names that are in the channel; it starts when there
is one, and when the one before has finished. -/
def step (batchSize : Nat) (system : Scheduling) : Action → Option (Scheduling × Unit)
  | .seed queues =>
    some ({ system with
      state := system.state.seedIdleQueues queues
      known := system.known ∪ queues.toFinset }, ())
  | .schedule queue => some (system.schedule queue, ())
  | .send wakeup => do
    let queue ← system.sending[wakeup]?
    some ({ system with
      sending := system.sending.eraseIdx wakeup
      tx := system.tx ++ [queue] }, ())
  | .start =>
    if system.pass = [] ∧ system.tx ≠ [] then
      some ({ system with tx := [], pass := system.tx.dedup }, ())
    else none
  | .finish queue outcome => some (system.finish queue outcome, ())
  | .fire timer => do
    let (queue, _) ← system.timers[timer]?
    some ({ system with
      timers := system.timers.eraseIdx timer
      sending := if system.state.resumeRetry queue then system.sending ++ [queue]
        else system.sending }, ())
  | .probe =>
    let (state, queues) := system.state.probeIdleQueues batchSize
    some ({ system with state := state, probing := system.probing ++ queues }, ())
  | .probeNext =>
    match system.probing with
    | [] => none
    | queue :: rest => some ({ system with probing := rest }.schedule queue, ())

/-- A pass finishes only queues that it took. -/
def orderly (system : Scheduling) : Action → Bool
  | .finish queue _ => queue ∈ system.pass
  | _ => true

/-- What a step can be, with what it found. -/
inductive Transition (batchSize : Nat) (system : Scheduling) : Action → Scheduling → Prop
  | seed {queues : List String} : Transition batchSize system (.seed queues)
      { system with
        state := system.state.seedIdleQueues queues
        known := system.known ∪ queues.toFinset }
  | schedule {queue : String} :
      Transition batchSize system (.schedule queue) (system.schedule queue)
  | send {i : Nat} {queue : String} (hqueue : system.sending[i]? = some queue) :
      Transition batchSize system (.send i)
        { system with sending := system.sending.eraseIdx i, tx := system.tx ++ [queue] }
  | start (hpass : system.pass = []) (htx : system.tx ≠ []) :
      Transition batchSize system .start { system with tx := [], pass := system.tx.dedup }
  | finish {queue : String} {outcome : PassOutcome} :
      Transition batchSize system (.finish queue outcome) (system.finish queue outcome)
  | fire {i : Nat} {queue : String} {delayMs : Nat}
      (htimer : system.timers[i]? = some (queue, delayMs)) :
      Transition batchSize system (.fire i)
        { system with
          timers := system.timers.eraseIdx i
          sending := if system.state.resumeRetry queue then system.sending ++ [queue]
            else system.sending }
  | probe : Transition batchSize system .probe
      { system with
        state := (system.state.probeIdleQueues batchSize).1
        probing := system.probing ++ (system.state.probeIdleQueues batchSize).2 }
  | probeNext {queue : String} {rest : List String} (hprobing : system.probing = queue :: rest) :
      Transition batchSize system .probeNext ({ system with probing := rest }.schedule queue)

theorem step_transition {batchSize : Nat} {system system' : Scheduling} {action : Action}
    {event : Unit} (h : system.step batchSize action = some (system', event)) :
    Transition batchSize system action system' := by
  cases action with
  | seed queues =>
    obtain rfl := congrArg Prod.fst (Option.some.inj h)
    exact .seed
  | schedule queue =>
    obtain rfl := congrArg Prod.fst (Option.some.inj h)
    exact .schedule
  | send i =>
    obtain ⟨queue, hqueue, h⟩ := Option.bind_eq_some_iff.mp h
    obtain rfl := congrArg Prod.fst (Option.some.inj h)
    exact .send hqueue
  | start =>
    simp only [step] at h
    split at h
    · next hready =>
      obtain rfl := congrArg Prod.fst (Option.some.inj h)
      exact .start hready.1 hready.2
    · cases h
  | finish queue outcome =>
    obtain rfl := congrArg Prod.fst (Option.some.inj h)
    exact .finish
  | fire i =>
    obtain ⟨⟨queue, delayMs⟩, htimer, h⟩ := Option.bind_eq_some_iff.mp h
    obtain rfl := congrArg Prod.fst (Option.some.inj h)
    exact .fire htimer
  | probe =>
    obtain rfl := congrArg Prod.fst (Option.some.inj h)
    exact .probe
  | probeNext =>
    simp only [step] at h
    split at h
    · cases h
    · next queue rest hprobing =>
      obtain rfl := congrArg Prod.fst (Option.some.inj h)
      exact .probeNext hprobing

end Scheduling

end Maqistor
