import Maqistor.Engine.PassCalls

/-! The ledger of the engine: what comes in over a run (permits of the dispatcher, jobs of the
store) and where it goes. Passes, deliveries and wake-ups may be in any order; every job and every
permit that came in has gone out once or is in one place. -/

namespace Maqistor

variable {π : Type}

/-- What the engine does with the dispatcher, the store and its own scheduler. -/
inductive Deed (π : Type) where
  /-- A permit that `reserve` returned. -/
  | reserve (permit : Reserved π)
  /-- `release` of the dispatcher. -/
  | giveBack (permit : Reserved π)
  /-- A job that `claim_batch` returned. -/
  | claim (job : Job)
  /-- `dispatch` has been called and has returned. -/
  | dispatch (work : DeliveryWork π) (delivered : Bool)
  /-- `release_claim` of the store. -/
  | releaseClaim (job : Job)
  /-- `schedule_queue` at the end of a delivery. -/
  | schedule (queue : String)
deriving DecidableEq, Repr

namespace Deed

def reserved : Deed π → Option (Reserved π)
  | .reserve permit => some permit
  | _ => none

def givenBack : Deed π → Option (Reserved π)
  | .giveBack permit => some permit
  | _ => none

def claimed : Deed π → Option Job
  | .claim job => some job
  | _ => none

def dispatched : Deed π → Option (DeliveryWork π)
  | .dispatch work _ => some work
  | _ => none

/-- The job of a dispatch that failed. -/
def failed : Deed π → Option Job
  | .dispatch work delivered => if !delivered ∧ work.job.dispatchId.isSome then some work.job else none
  | _ => none

def claimReleased : Deed π → Option Job
  | .releaseClaim job => some job
  | _ => none

def scheduled : Deed π → Option String
  | .schedule queue => some queue
  | _ => none

end Deed

/-! ### Where things are -/

namespace Pass

/-- The permits that the pass has and has not passed on. -/
def permits : Pass π → List (Reserved π)
  | .acquiring _ permits held => permits ++ held
  | .serving _ held => held
  | .claiming visit | .sending visit _ _ | .refusing visit _ _ _ | .returning visit _ =>
    visit.permits ++ visit.held
  | .waiting | .finishing _ _ | .reserving _ _ | .panicked _ => []

/-- The jobs that the pass has claimed and not sent. -/
def jobs : Pass π → List Job
  | .sending _ jobs _ => jobs
  | .refusing _ job jobs _ => job :: jobs
  | _ => []

end Pass

namespace DeliveryTask

def work : DeliveryTask π → Option (DeliveryWork π)
  | .dispatching work => some work
  | _ => none

def releasing? : DeliveryTask π → Option Job
  | .releasing job => some job
  | _ => none

/-- The queue that a task still has to schedule, once its dispatch has returned. -/
def queue : DeliveryTask π → Option String
  | .releasing job => some job.name
  | .scheduling queue => some queue
  | _ => none

end DeliveryTask

namespace Engine

/-- The work that waits for its dispatch, or whose dispatch has not returned. -/
def works (engine : Engine π) : List (DeliveryWork π) :=
  engine.channel ++ engine.tasks.filterMap DeliveryTask.work

/-- The claimed jobs whose dispatch has not returned. -/
def waitingJobs (engine : Engine π) : List Job :=
  engine.pass.jobs ++ engine.works.map DeliveryWork.job

def heldPermits (engine : Engine π) : List (Reserved π) :=
  engine.pass.permits ++ engine.works.map DeliveryWork.permit

/-- The failed deliveries whose claim has not been released. -/
def releasing (engine : Engine π) : List Job := engine.tasks.filterMap DeliveryTask.releasing?

/-- The queues that delivery tasks still have to schedule. -/
def unscheduled (engine : Engine π) : List String := engine.tasks.filterMap DeliveryTask.queue

/-- The deeds of a pass in a step that waits for nothing. -/
def proceedDeeds (options : DispatchOptions) (engine : Engine π) : List (Deed π) :=
  match engine.pass with
  | .acquiring _ (permit :: _) _ => if engine.available = 0 then [.giveBack permit] else []
  | .sending visit (_ :: _) _ =>
    match visit.permits with
    | [] => []
    | permit :: _ =>
      if engine.channel.length < options.maxDeliveryInFlight then [] else [.giveBack permit]
  | .refusing _ job _ _ => if job.dispatchId.isSome then [.releaseClaim job] else []
  | .returning visit _ =>
    match visit.permits with
    | [] => []
    | permit :: _ => [.giveBack permit]
  | _ => []

/-- The deeds of a step. -/
def deeds (options : DispatchOptions) (engine : Engine π) : Action π → List (Deed π)
  | .reserve permits => (permits.getD []).map .reserve
  | .claim jobs => (jobs.getD []).map .claim
  | .proceed => engine.proceedDeeds options
  | .dispatched task delivered =>
    match engine.tasks[task]? with
    | some (.dispatching work) => [.dispatch work delivered]
    | _ => []
  | .released task =>
    match engine.tasks[task]? with
    | some (.releasing job) => [.releaseClaim job]
    | _ => []
  | .wake task =>
    match engine.tasks[task]? with
    | some (.scheduling queue) => [.schedule queue]
    | _ => []
  | _ => []

/-- A step of the engine, with its deeds. -/
def deedStep (options : DispatchOptions) (engine : Engine π) (action : Action π) :
    Option (Engine π × List (Deed π)) :=
  (engine.step options action).map fun after => (after.1, engine.deeds options action)

/-- The dispatcher reserves permits for queues that it was asked for, and the store claims jobs of
the queue that it was asked for, no more of them than it was asked for. -/
def answered (engine : Engine π) : Action π → Prop
  | .reserve permits =>
    match engine.pass with
    | .reserving queues _ => ∀ permit ∈ permits.getD [], permit.queueName ∈ queues
    | _ => True
  | .claim jobs =>
    match engine.pass with
    | .claiming visit => (jobs.getD []).length ≤ visit.permits.length ∧
        ∀ job ∈ jobs.getD [], job.name = visit.queue
    | _ => True
  | _ => True

instance (engine : Engine π) (action : Action π) : Decidable (engine.answered action) := by
  unfold answered
  split
  · split <;> infer_instance
  · split <;> infer_instance
  · infer_instance

end Engine

/-- The permits at hand are for the queue of the visit, and the others for queues that come
later. -/
structure Visit.Tidy (visit : Visit π) : Prop where
  permits : ∀ permit ∈ visit.permits, permit.queueName = visit.queue
  held : ∀ permit ∈ visit.held, permit.queueName ∈ visit.queues

/-- A pass has permits for its own queues only, and sends jobs of the queue that it is at. -/
def Pass.Tidy : Pass π → Prop
  | .acquiring queues permits held => ∀ permit ∈ permits ++ held, permit.queueName ∈ queues
  | .serving queues held => ∀ permit ∈ held, permit.queueName ∈ queues
  | .claiming visit | .returning visit _ => visit.Tidy
  | .sending visit jobs _ => visit.Tidy ∧ ∀ job ∈ jobs, job.name = visit.queue
  | .refusing visit job jobs _ => visit.Tidy ∧ ∀ other ∈ job :: jobs, other.name = visit.queue
  | .waiting | .finishing _ _ | .reserving _ _ | .panicked _ => True

namespace Engine

/-- The permit of every job in delivery is for its queue. -/
def Matched (engine : Engine π) : Prop :=
  ∀ work ∈ engine.works, work.permit.queueName = work.job.name

/-- What every state has in which the dispatcher and the store have answered what they were
asked. -/
structure Orderly (options : DispatchOptions) (engine : Engine π) : Prop where
  budget : engine.budget = options.maxDeliveryInFlight
  covered : engine.pass.Covered
  tidy : engine.pass.Tidy
  matched : engine.Matched

/-- The deeds of a step account for what has come and gone. -/
structure Balanced (engine engine' : Engine π) (deeds : List (Deed π)) : Prop where
  jobs : (deeds.filterMap Deed.claimed ++ engine.waitingJobs).Perm
    ((deeds.filterMap Deed.dispatched).map DeliveryWork.job ++ engine'.waitingJobs)
  permits : (deeds.filterMap Deed.reserved ++ engine.heldPermits).Perm
    (deeds.filterMap Deed.givenBack ++ (deeds.filterMap Deed.dispatched).map DeliveryWork.permit ++
      engine'.heldPermits)
  failures : (deeds.filterMap Deed.failed ++ engine.releasing).Perm
    (deeds.filterMap Deed.claimReleased ++ engine'.releasing)
  queues : ((deeds.filterMap Deed.dispatched).map (fun work => work.job.name) ++
    engine.unscheduled).Perm (deeds.filterMap Deed.scheduled ++ engine'.unscheduled)

section Proceed

variable {options : DispatchOptions} {engine engine' : Engine π}

/-- A step with no deeds that leaves the deliveries alone. -/
theorem Balanced.quiet (hjobs : engine.pass.jobs = engine'.pass.jobs)
    (hpermits : engine.pass.permits.Perm engine'.pass.permits)
    (hchannel : engine'.channel = engine.channel) (htasks : engine'.tasks = engine.tasks) :
    Balanced engine engine' [] := by
  have hworks : engine'.works = engine.works := by rw [works, works, hchannel, htasks]
  refine ⟨?_, ?_, ?_, ?_⟩
  · simp only [waitingJobs, hworks, hjobs, List.filterMap_nil, List.map_nil, List.nil_append]
    exact .refl _
  · simp only [heldPermits, hworks, List.filterMap_nil, List.map_nil, List.nil_append]
    exact hpermits.append_right _
  · simp only [releasing, htasks, List.filterMap_nil, List.nil_append]
    exact .refl _
  · simp only [unscheduled, htasks, List.filterMap_nil, List.map_nil, List.nil_append]
    exact .refl _

/-- A step that gives one permit back. -/
theorem Balanced.giveBack {permit : Reserved π} (hjobs : engine.pass.jobs = engine'.pass.jobs)
    (hpermits : engine.pass.permits.Perm (permit :: engine'.pass.permits))
    (hchannel : engine'.channel = engine.channel) (htasks : engine'.tasks = engine.tasks) :
    Balanced engine engine' [.giveBack permit] := by
  have hworks : engine'.works = engine.works := by rw [works, works, hchannel, htasks]
  refine ⟨?_, ?_, ?_, ?_⟩
  · simp only [waitingJobs, hworks, hjobs]
    exact .refl _
  · simp only [heldPermits, hworks]
    exact hpermits.append_right _
  · simp only [releasing, htasks]
    exact .refl _
  · simp only [unscheduled, htasks]
    exact .refl _

/-- An item moves from the front of one list behind another one. -/
theorem perm_move {α : Type} (item : α) (first second third : List α) :
    (item :: first ++ (second ++ third)).Perm (first ++ (second ++ [item] ++ third)) := by
  rw [List.cons_append, List.append_assoc second, List.singleton_append, ← List.append_assoc first,
    ← List.append_assoc first]
  exact List.perm_middle.symm

/-- A job goes into the channel with the next permit. -/
theorem Balanced.send {visit : Visit π} {permit : Reserved π} {permits : List (Reserved π)} {job : Job}
    {jobs : List Job} {outcome : PassOutcome} (hpass : engine.pass = .sending visit (job :: jobs) outcome)
    (hpermits : visit.permits = permit :: permits)
    (hpass' : engine'.pass = .sending { visit with permits := permits } jobs outcome)
    (hchannel : engine'.channel = engine.channel ++ [{ permit := permit, job := job }])
    (htasks : engine'.tasks = engine.tasks) : Balanced engine engine' [] := by
  refine ⟨?_, ?_, ?_, ?_⟩
  · simp only [waitingJobs, works, hpass, hpass', hchannel, htasks, Pass.jobs, List.map_append,
      List.filterMap_nil, List.map_nil, List.nil_append]
    exact perm_move job jobs _ _
  · simp only [heldPermits, works, hpass, hpass', hpermits, hchannel, htasks, Pass.permits,
      List.map_append, List.filterMap_nil, List.map_nil, List.nil_append]
    exact perm_move permit (permits ++ visit.held) _ _
  · simp only [releasing, htasks, List.filterMap_nil, List.nil_append]
    exact .refl _
  · simp only [unscheduled, htasks, List.filterMap_nil, List.map_nil, List.nil_append]
    exact .refl _

theorem perm_filter_queue (held : List (Reserved π)) (queue : String) :
    held.Perm ((held.filter fun permit => permit.queueName = queue) ++
      held.filter fun permit => permit.queueName ≠ queue) := by
  have hperm := (List.filter_append_perm (fun permit : Reserved π => decide (permit.queueName = queue))
    held).symm
  simpa using hperm

theorem proceeds_balanced (h : Proceeds options engine engine') (horderly : Orderly options engine) :
    Balanced engine engine' (engine.proceedDeeds options) := by
  cases h with
  | ended hpass | finish hpass | sent hpass =>
    simp only [proceedDeeds, hpass]
    refine .quiet ?_ ?_ rfl rfl
    all_goals simp [finishQueue, hpass, Pass.jobs, Pass.permits]
  | acquired hpass =>
    simp only [proceedDeeds, hpass]
    refine .quiet ?_ ?_ rfl rfl
    all_goals simp [hpass, Pass.jobs, Pass.permits]
  | @acquire queues permit permits held hpass =>
    unfold acquire
    by_cases hfree : engine.available = 0
    · simp only [proceedDeeds, hpass, hfree, if_true]
      refine .giveBack ?_ ?_ rfl rfl
      all_goals simp [hpass, Pass.jobs, Pass.permits]
    · simp only [proceedDeeds, hpass, hfree, if_false]
      refine .quiet ?_ ?_ rfl rfl
      · simp [hpass, Pass.jobs]
      · simp only [hpass, Pass.permits]
        rw [← List.append_assoc]
        exact (List.perm_append_singleton permit (permits ++ held)).symm
  | @served held hpass =>
    have hnone : held = [] := by
      have htidy := horderly.tidy
      rw [hpass] at htidy
      exact List.eq_nil_iff_forall_not_mem.mpr fun permit hpermit =>
        List.not_mem_nil (htidy permit hpermit)
    simp only [proceedDeeds, hpass]
    refine .quiet ?_ ?_ rfl rfl
    all_goals simp [hpass, hnone, Pass.jobs, Pass.permits]
  | @serve queue queues held hpass =>
    simp only [proceedDeeds, hpass]
    unfold serve
    dsimp only
    split
    · refine .quiet ?_ ?_ rfl rfl
      all_goals simp [finishQueue, hpass, Pass.jobs, Pass.permits]
    · refine .quiet ?_ ?_ rfl rfl
      · simp [hpass, Pass.jobs]
      · simp only [hpass, Pass.permits]
        exact perm_filter_queue held queue
  | @trySend visit job jobs outcome hpass =>
    have hcovered := horderly.covered
    rw [hpass] at hcovered
    cases hpermits : visit.permits with
    | nil => simp [Pass.Covered, hpermits] at hcovered
    | cons permit permits =>
      have hheld : 0 < engine.pass.budgets := by
        simp only [hpass, Pass.budgets, hpermits, List.length_cons]
        omega
      have hroom := room_of_budget horderly.budget hheld
      simp only [trySend, proceedDeeds, hpass, hpermits, hroom, if_true]
      exact .send hpass hpermits rfl rfl rfl
  | @refuse visit job jobs outcome hpass =>
    have hcovered := horderly.covered
    rw [hpass] at hcovered
    exact hcovered.elim
  | @giveBack visit outcome hpass =>
    unfold giveBack
    cases hpermits : visit.permits with
    | nil =>
      simp only [proceedDeeds, hpass, hpermits]
      refine .quiet ?_ ?_ rfl rfl
      all_goals simp [finishQueue, hpass, hpermits, Pass.jobs, Pass.permits]
    | cons permit permits =>
      simp only [proceedDeeds, hpass, hpermits]
      refine .giveBack ?_ ?_ rfl rfl
      all_goals simp [hpass, hpermits, Pass.jobs, Pass.permits]

end Proceed

/-! ### Delivery tasks -/

section Task

variable {options : DispatchOptions} {engine engine' : Engine π} {i : Nat} {old new : DeliveryTask π}
  {deeds : List (Deed π)}

/-- What goes in and out of two balanced lists may be exchanged. -/
theorem perm_exchange {α : Type} {a b c d l l' : List α} (hbalance : (d ++ l).Perm (b ++ l'))
    (hsame : a ++ b = c ++ d) : (a ++ l).Perm (c ++ l') := by
  refine (List.perm_append_left_iff b).mp ?_
  have hcommuted : (b ++ (a ++ l)).Perm (a ++ b ++ l) := by
    rw [List.append_assoc]
    exact List.perm_append_comm_assoc _ _ _
  refine hcommuted.trans ?_
  rw [hsame, List.append_assoc]
  exact (hbalance.append_left c).trans (List.perm_append_comm_assoc _ _ _)

/-- A delivery task goes on. -/
theorem Balanced.task (hold : engine.tasks[i]? = some old)
    (hpass : engine'.pass = engine.pass) (hchannel : engine'.channel = engine.channel)
    (htasks : engine'.tasks = engine.tasks.set i new)
    (hclaimed : deeds.filterMap Deed.claimed = []) (hreserved : deeds.filterMap Deed.reserved = [])
    (hgivenBack : deeds.filterMap Deed.givenBack = [])
    (hwork : deeds.filterMap Deed.dispatched = old.work.toList) (hnew : new.work = none)
    (hfailures : deeds.filterMap Deed.failed ++ old.releasing?.toList =
      deeds.filterMap Deed.claimReleased ++ new.releasing?.toList)
    (hqueues : (deeds.filterMap Deed.dispatched).map (fun work => work.job.name) ++
      old.queue.toList = deeds.filterMap Deed.scheduled ++ new.queue.toList) :
    Balanced engine engine' deeds := by
  have hworks : engine.works.Perm (deeds.filterMap Deed.dispatched ++ engine'.works) := by
    have hbalance := Lists.filterMap_set_balance (f := DeliveryTask.work) hold new
    rw [hnew, Option.toList_none, List.nil_append, ← hwork] at hbalance
    rw [works, works, hchannel, htasks]
    exact (hbalance.append_left _).trans (List.perm_append_comm_assoc _ _ _)
  refine ⟨?_, ?_, ?_, ?_⟩
  · rw [hclaimed, List.nil_append, waitingJobs, waitingJobs, hpass]
    refine ((hworks.map DeliveryWork.job).append_left _).trans ?_
    rw [List.map_append]
    exact List.perm_append_comm_assoc _ _ _
  · rw [hreserved, hgivenBack, List.nil_append, List.nil_append, heldPermits, heldPermits, hpass]
    refine ((hworks.map DeliveryWork.permit).append_left _).trans ?_
    rw [List.map_append]
    exact List.perm_append_comm_assoc _ _ _
  · rw [releasing, releasing, htasks]
    exact perm_exchange (Lists.filterMap_set_balance hold new) hfailures
  · rw [unscheduled, unscheduled, htasks]
    exact perm_exchange (Lists.filterMap_set_balance hold new) hqueues

/-- What a delivery task does next when its dispatch has returned. -/
theorem afterDispatch_cases (work : DeliveryWork π) (delivered : Bool) :
    (afterDispatch work.job delivered : DeliveryTask π) = .releasing work.job ∧
        (Deed.dispatch work delivered).failed = some work.job ∨
      (afterDispatch work.job delivered : DeliveryTask π) = .scheduling work.job.name ∧
        (Deed.dispatch work delivered).failed = none := by
  unfold afterDispatch Deed.failed
  by_cases hfailed : !delivered ∧ work.job.dispatchId.isSome
  · exact Or.inl ⟨if_pos hfailed, if_pos hfailed⟩
  · exact Or.inr ⟨if_neg hfailed, if_neg hfailed⟩

/-- A dispatch returns. -/
theorem Balanced.dispatched {work : DeliveryWork π} {delivered : Bool}
    (htask : engine.tasks[i]? = some (.dispatching work)) :
    Balanced engine { engine with tasks := engine.tasks.set i (afterDispatch work.job delivered) }
      [.dispatch work delivered] := by
  rcases afterDispatch_cases work delivered with ⟨hafter, hfailed⟩ | ⟨hafter, hfailed⟩
  · rw [hafter]
    refine .task htask rfl rfl rfl rfl rfl rfl rfl rfl ?_ rfl
    rw [List.filterMap_cons_some hfailed]
    rfl
  · rw [hafter]
    refine .task htask rfl rfl rfl rfl rfl rfl rfl rfl ?_ rfl
    rw [List.filterMap_cons_none hfailed]
    rfl

/-- A delivery task ends. -/
theorem Balanced.drop (htask : engine.tasks[i]? = some .ending) :
    Balanced engine
      { engine with available := engine.available + 1, tasks := engine.tasks.eraseIdx i } [] := by
  have herase : ∀ {α : Type} (f : DeliveryTask π → Option α), f .ending = none →
      (engine.tasks.filterMap f).Perm ((engine.tasks.eraseIdx i).filterMap f) := by
    intro α f hnone
    have hperm := (Lists.perm_eraseIdx htask).filterMap f
    rwa [List.filterMap_cons_none hnone] at hperm
  have hworks := (herase DeliveryTask.work rfl).append_left engine.channel
  exact ⟨(hworks.map _).append_left _, (hworks.map _).append_left _,
    herase DeliveryTask.releasing? rfl, herase DeliveryTask.queue rfl⟩

/-- The pump takes a job out of the channel. -/
theorem works_receive {work : DeliveryWork π} {channel : List (DeliveryWork π)}
    (hchannel : engine.channel = work :: channel) :
    engine.works.Perm (channel ++
      (engine.tasks ++ [DeliveryTask.dispatching work]).filterMap DeliveryTask.work) := by
  rw [works, hchannel, List.filterMap_append, ← List.append_assoc]
  exact (List.perm_append_singleton work _).symm

theorem Balanced.receive {work : DeliveryWork π} {channel : List (DeliveryWork π)}
    (hchannel : engine.channel = work :: channel) :
    Balanced engine
      { engine with channel := channel, tasks := engine.tasks ++ [.dispatching work] } [] := by
  have hworks := works_receive hchannel
  refine ⟨(hworks.map _).append_left _, (hworks.map _).append_left _, ?_, ?_⟩
  · simp [releasing, List.filterMap_cons, DeliveryTask.releasing?]
  · simp [unscheduled, List.filterMap_cons, DeliveryTask.queue]

theorem filterMap_map_none {α β γ : Type} {f : β → γ} {g : γ → Option α} (h : ∀ b, g (f b) = none)
    (items : List β) : (items.map f).filterMap g = [] := by
  rw [List.filterMap_map, List.filterMap_eq_nil_iff]
  exact fun item _ => h item

theorem filterMap_map_some {α γ : Type} {f : α → γ} {g : γ → Option α} (h : ∀ a, g (f a) = some a)
    (items : List α) : (items.map f).filterMap g = items := by
  have hsome : g ∘ f = some := funext h
  rw [List.filterMap_map, hsome, List.filterMap_some]

/-- The dispatcher answers. -/
theorem Balanced.reserve {queues : List String} {requests : List QueueReservation}
    (hpass : engine.pass = .reserving queues requests) (permits : Option (List (Reserved π))) :
    Balanced engine (engine.reserved queues permits) ((permits.getD []).map .reserve) := by
  cases permits with
  | none =>
    refine .quiet ?_ ?_ rfl rfl
    all_goals simp [reserved, hpass, Pass.jobs, Pass.permits]
  | some permits =>
    rw [Option.getD_some]
    refine ⟨?_, ?_, ?_, ?_⟩
    · rw [filterMap_map_none fun _ => rfl, filterMap_map_none fun _ => rfl]
      simp only [waitingJobs, hpass, reserved, Pass.jobs]
      exact .refl _
    · rw [filterMap_map_some (f := Deed.reserve) (g := Deed.reserved) fun _ => rfl,
        filterMap_map_none fun _ => rfl, filterMap_map_none fun _ => rfl]
      simp only [heldPermits, hpass, reserved, Pass.permits, List.append_nil]
      exact .refl _
    · rw [filterMap_map_none fun _ => rfl, filterMap_map_none fun _ => rfl]
      exact .refl _
    · rw [filterMap_map_none fun _ => rfl, filterMap_map_none fun _ => rfl]
      exact .refl _

/-- The store answers. -/
theorem Balanced.claim {visit : Visit π} (hpass : engine.pass = .claiming visit)
    (jobs : Option (List Job)) :
    Balanced engine (engine.claimed visit jobs) ((jobs.getD []).map .claim) := by
  cases jobs with
  | none =>
    refine .quiet ?_ ?_ rfl rfl
    all_goals simp [claimed, hpass, Pass.jobs, Pass.permits]
  | some jobs =>
    rw [Option.getD_some]
    refine ⟨?_, ?_, ?_, ?_⟩
    · rw [filterMap_map_some (f := Deed.claim) (g := Deed.claimed) fun _ => rfl,
        filterMap_map_none fun _ => rfl]
      simp only [waitingJobs, hpass, claimed, Pass.jobs, List.nil_append]
      exact .refl _
    · rw [filterMap_map_none fun _ => rfl, filterMap_map_none fun _ => rfl,
        filterMap_map_none fun _ => rfl]
      simp only [heldPermits, hpass, claimed, Pass.permits]
      exact .refl _
    · rw [filterMap_map_none fun _ => rfl, filterMap_map_none fun _ => rfl]
      exact .refl _
    · rw [filterMap_map_none fun _ => rfl, filterMap_map_none fun _ => rfl]
      exact .refl _

/-- The pass starts. -/
theorem Balanced.start {scheduling : Scheduling} (hpass : engine.pass = .waiting)
    (order : List String) :
    Balanced engine ({ engine with scheduling := scheduling }.startPass options order) [] := by
  unfold startPass
  refine .quiet ?_ ?_ rfl rfl
  all_goals
    dsimp only
    split <;> simp [hpass, Pass.jobs, Pass.permits]

/-- The deeds of every step account for what has come and gone. -/
theorem step_balanced {action : Action π} {event : Unit} (horderly : Orderly options engine)
    (hstep : engine.step options action = some (engine', event)) :
    Balanced engine engine' (engine.deeds options action) := by
  cases action with
  | scheduling action =>
    simp only [step] at hstep
    split at hstep
    · cases hstep
    · cases hstep
    · obtain ⟨⟨scheduling, _⟩, -, hstep⟩ := Option.bind_eq_some_iff.mp hstep
      obtain rfl := congrArg Prod.fst (Option.some.inj hstep)
      exact .quiet rfl (.refl _) rfl rfl
  | start order =>
    simp only [step] at hstep
    split at hstep
    · next hpass =>
      obtain ⟨⟨scheduling, _⟩, -, hstep⟩ := Option.bind_eq_some_iff.mp hstep
      simp only at hstep
      split at hstep
      · obtain rfl := congrArg Prod.fst (Option.some.inj hstep)
        exact .start hpass order
      · cases hstep
    · cases hstep
  | reserve permits =>
    simp only [step] at hstep
    split at hstep
    · next hpass =>
      obtain rfl := congrArg Prod.fst (Option.some.inj hstep)
      exact .reserve hpass permits
    · cases hstep
  | claim jobs =>
    simp only [step] at hstep
    split at hstep
    · next hpass =>
      obtain rfl := congrArg Prod.fst (Option.some.inj hstep)
      exact .claim hpass jobs
    · cases hstep
  | proceed =>
    obtain ⟨after, hproceed, heq⟩ := Option.map_eq_some_iff.mp hstep
    obtain rfl := congrArg Prod.fst heq
    exact proceeds_balanced (proceed_proceeds hproceed) horderly
  | receive =>
    simp only [step] at hstep
    split at hstep
    · cases hstep
    · next hchannel =>
      obtain rfl := congrArg Prod.fst (Option.some.inj hstep)
      exact .receive hchannel
  | dispatched task delivered =>
    simp only [step] at hstep
    split at hstep
    · next work htask =>
      obtain rfl := congrArg Prod.fst (Option.some.inj hstep)
      simp only [deeds, htask]
      exact .dispatched htask
    · cases hstep
  | released task =>
    simp only [step] at hstep
    split at hstep
    · next job htask =>
      obtain rfl := congrArg Prod.fst (Option.some.inj hstep)
      simp only [deeds, htask]
      exact .task htask rfl rfl rfl rfl rfl rfl rfl rfl rfl rfl
    · cases hstep
  | wake task =>
    simp only [step] at hstep
    split at hstep
    · next queue htask =>
      obtain rfl := congrArg Prod.fst (Option.some.inj hstep)
      simp only [deeds, htask]
      exact .task htask rfl rfl rfl rfl rfl rfl rfl rfl rfl rfl
    · cases hstep
  | drop task =>
    simp only [step] at hstep
    split at hstep
    · next htask =>
      obtain rfl := congrArg Prod.fst (Option.some.inj hstep)
      exact .drop htask
    · cases hstep

/-! ### What every state has -/

/-- A task that has no work brings none. -/
theorem mem_works_set (hnew : new.work = none) {tasks : List (DeliveryTask π)} {work : DeliveryWork π}
    (h : work ∈ (tasks.set i new).filterMap DeliveryTask.work) :
    work ∈ tasks.filterMap DeliveryTask.work := by
  obtain ⟨task, htask, hwork⟩ := List.mem_filterMap.mp h
  rcases List.mem_or_eq_of_mem_set htask with htask | rfl
  · exact List.mem_filterMap.mpr ⟨task, htask, hwork⟩
  · rw [hnew] at hwork
    cases hwork

/-- The work that a pass sends is the next job, with a permit of its visit. -/
theorem proceeds_works (h : Proceeds options engine engine') :
    ∀ work ∈ engine'.works, work ∈ engine.works ∨ ∃ visit jobs outcome,
      engine.pass = .sending visit (work.job :: jobs) outcome ∧ work.permit ∈ visit.permits := by
  cases h with
  | ended | finish | acquired | served | sent | refuse => exact fun _ hwork => Or.inl hwork
  | acquire =>
    unfold acquire
    split <;> exact fun _ hwork => Or.inl hwork
  | serve =>
    unfold serve
    dsimp only
    split <;> exact fun _ hwork => Or.inl hwork
  | giveBack =>
    unfold giveBack
    split <;> exact fun _ hwork => Or.inl hwork
  | @trySend visit job jobs outcome hpass =>
    unfold trySend
    split
    · exact fun _ hwork => Or.inl hwork
    · next permit permits hpermits =>
      split
      · intro work hwork
        rcases List.mem_append.mp hwork with hwork | hwork
        · rcases List.mem_append.mp hwork with hwork | hwork
          · exact Or.inl (List.mem_append_left _ hwork)
          · obtain rfl := List.mem_singleton.mp hwork
            exact Or.inr ⟨visit, jobs, outcome, hpass, hpermits ▸ List.mem_cons_self⟩
        · exact Or.inl (List.mem_append_right _ hwork)
      · exact fun _ hwork => Or.inl hwork

/-- Work in delivery was there before, or is a job that the pass has just sent. -/
theorem step_works {action : Action π} {event : Unit}
    (hstep : engine.step options action = some (engine', event)) :
    ∀ work ∈ engine'.works, work ∈ engine.works ∨ ∃ visit jobs outcome,
      engine.pass = .sending visit (work.job :: jobs) outcome ∧ work.permit ∈ visit.permits := by
  have hset : ∀ {i : Nat} {new : DeliveryTask π} {available : Nat} {scheduling : Scheduling}
      {pass : Pass π}, new.work = none → ∀ work ∈ Engine.works
        { scheduling := scheduling, available := available, channel := engine.channel
          tasks := engine.tasks.set i new, pass := pass }, work ∈ engine.works := by
    intro i new available scheduling pass hnew work hwork
    rcases List.mem_append.mp hwork with hwork | hwork
    · exact List.mem_append_left _ hwork
    · exact List.mem_append_right _ (mem_works_set hnew hwork)
  cases action with
  | proceed =>
    obtain ⟨after, hproceed, heq⟩ := Option.map_eq_some_iff.mp hstep
    obtain rfl := congrArg Prod.fst heq
    exact proceeds_works (proceed_proceeds hproceed)
  | dispatched task delivered =>
    simp only [step] at hstep
    split at hstep
    · next work _ =>
      obtain rfl := congrArg Prod.fst (Option.some.inj hstep)
      refine fun _ hwork => Or.inl (hset ?_ _ hwork)
      rcases afterDispatch_cases work delivered with ⟨hafter, -⟩ | ⟨hafter, -⟩
      all_goals
        rw [hafter]
        rfl
    · cases hstep
  | released task | wake task =>
    simp only [step] at hstep
    split at hstep
    · obtain rfl := congrArg Prod.fst (Option.some.inj hstep)
      exact fun _ hwork => Or.inl (hset rfl _ hwork)
    · cases hstep
  | receive =>
    simp only [step] at hstep
    split at hstep
    · cases hstep
    · next hchannel =>
      obtain rfl := congrArg Prod.fst (Option.some.inj hstep)
      exact fun _ hwork => Or.inl ((works_receive hchannel).mem_iff.mpr hwork)
  | drop task =>
    simp only [step] at hstep
    split at hstep
    · obtain rfl := congrArg Prod.fst (Option.some.inj hstep)
      intro work hwork
      rcases List.mem_append.mp hwork with hwork | hwork
      · exact Or.inl (List.mem_append_left _ hwork)
      · exact Or.inl (List.mem_append_right _
          (((List.eraseIdx_sublist _ _).filterMap _).subset hwork))
    · cases hstep
  | scheduling action =>
    simp only [step] at hstep
    split at hstep
    · cases hstep
    · cases hstep
    · obtain ⟨after, -, hstep⟩ := Option.bind_eq_some_iff.mp hstep
      obtain rfl := congrArg Prod.fst (Option.some.inj hstep)
      exact fun _ hwork => Or.inl hwork
  | start order =>
    simp only [step] at hstep
    split at hstep
    · obtain ⟨⟨scheduling, _⟩, -, hstep⟩ := Option.bind_eq_some_iff.mp hstep
      simp only at hstep
      split at hstep
      · obtain rfl := congrArg Prod.fst (Option.some.inj hstep)
        exact fun _ hwork => Or.inl hwork
      · cases hstep
    · cases hstep
  | reserve permits | claim permits =>
    simp only [step] at hstep
    split at hstep
    · obtain rfl := congrArg Prod.fst (Option.some.inj hstep)
      refine fun _ hwork => Or.inl ?_
      cases permits <;> exact hwork
    · cases hstep

theorem proceeds_tidy (h : Proceeds options engine engine') (htidy : engine.pass.Tidy) :
    engine'.pass.Tidy := by
  cases h with
  | ended | finish | served => exact trivial
  | acquired hpass =>
    rw [hpass] at htidy
    exact fun permit hpermit => htidy permit hpermit
  | @acquire queues permit permits held hpass =>
    rw [hpass] at htidy
    have hmem : ∀ other ∈ permit :: (permits ++ held), other.queueName ∈ queues := htidy
    unfold acquire
    split
    · exact fun other hother => hmem other (List.mem_cons_of_mem _ hother)
    · intro other hother
      refine hmem other ?_
      rw [← List.append_assoc] at hother
      exact (List.perm_append_singleton permit (permits ++ held)).mem_iff.mp hother
  | @serve queue queues held hpass =>
    rw [hpass] at htidy
    have hothers : ∀ permit ∈ held, permit.queueName ≠ queue → permit.queueName ∈ queues :=
      fun permit hpermit hne => (List.mem_cons.mp (htidy permit hpermit)).resolve_left hne
    unfold serve
    dsimp only
    split
    · next hnone =>
      intro permit hpermit
      refine hothers permit hpermit fun heq => ?_
      have hkept : permit ∈ held.filter fun permit => permit.queueName = queue :=
        List.mem_filter.mpr ⟨hpermit, decide_eq_true heq⟩
      rw [hnone] at hkept
      exact List.not_mem_nil hkept
    · constructor
      · intro permit hpermit
        exact of_decide_eq_true (List.mem_filter.mp hpermit).2
      · intro permit hpermit
        obtain ⟨hmem, hne⟩ := List.mem_filter.mp hpermit
        exact hothers permit hmem (of_decide_eq_true hne)
  | sent hpass =>
    rw [hpass] at htidy
    exact htidy.1
  | @trySend visit job jobs outcome hpass =>
    rw [hpass] at htidy
    obtain ⟨hvisit, hjobs⟩ := htidy
    unfold trySend
    split
    · exact trivial
    · next permit permits hpermits =>
      have htail : ∀ other ∈ permits, other.queueName = visit.queue := fun other hother =>
        hvisit.permits other (hpermits ▸ List.mem_cons_of_mem _ hother)
      split
      · exact ⟨⟨htail, hvisit.held⟩, fun job hjob => hjobs job (List.mem_cons_of_mem _ hjob)⟩
      · exact ⟨⟨htail, hvisit.held⟩, hjobs⟩
  | refuse hpass =>
    rw [hpass] at htidy
    exact ⟨htidy.1, fun job hjob => htidy.2 job (List.mem_cons_of_mem _ hjob)⟩
  | giveBack hpass =>
    rw [hpass] at htidy
    unfold giveBack
    split
    · exact htidy.held
    · next hpermits =>
      exact ⟨fun permit hpermit => htidy.permits permit (hpermits ▸ List.mem_cons_of_mem _ hpermit),
        htidy.held⟩

theorem transition_tidy {action : Action π} (h : Transition options engine action engine')
    (hanswered : engine.answered action) (htidy : engine.pass.Tidy) : engine'.pass.Tidy := by
  cases h with
  | scheduling | receive | task | wake | drop => exact htidy
  | start =>
    unfold startPass
    dsimp only
    split <;> exact trivial
  | @reserve queues requests permits hpass =>
    cases permits with
    | none => exact trivial
    | some permits =>
      simp only [answered, hpass, Option.getD_some] at hanswered
      intro permit hpermit
      rw [List.append_nil] at hpermit
      exact hanswered permit hpermit
  | @claim visit jobs hpass =>
    rw [hpass] at htidy
    cases jobs with
    | none => exact htidy
    | some jobs =>
      simp only [answered, hpass, Option.getD_some] at hanswered
      exact ⟨htidy, hanswered.2⟩
  | proceed h => exact proceeds_tidy h htidy

theorem answered_withinLimit {action : Action π} (h : engine.answered action) :
    engine.withinLimit action = true := by
  unfold withinLimit
  split
  · split
    · next hpass =>
      simp only [answered, hpass, Option.getD_some] at h
      exact decide_eq_true h.1
    · rfl
  · rfl

theorem initial_orderly (options : DispatchOptions) : Orderly options (initial options : Engine π) where
  budget := initial_budget options
  covered := trivial
  tidy := trivial
  matched := fun _ hwork => (List.not_mem_nil hwork).elim

theorem step_orderly {action : Action π} {event : Unit} (horderly : Orderly options engine)
    (hanswered : engine.answered action)
    (hstep : engine.step options action = some (engine', event)) : Orderly options engine' where
  budget := (transition_budget (step_transition hstep)).trans horderly.budget
  covered := transition_covered (step_transition hstep) (answered_withinLimit hanswered)
    horderly.covered horderly.budget
  tidy := transition_tidy (step_transition hstep) hanswered horderly.tidy
  matched := by
    intro work hwork
    rcases step_works hstep work hwork with hwork | ⟨visit, jobs, outcome, hpass, hpermit⟩
    · exact horderly.matched work hwork
    · have htidy := horderly.tidy
      rw [hpass] at htidy
      exact (htidy.1.permits _ hpermit).trans (htidy.2 _ List.mem_cons_self).symm

end Task

theorem deedStep_step {options : DispatchOptions} {engine engine' : Engine π} {action : Action π}
    {deeds : List (Deed π)} (h : engine.deedStep options action = some (engine', deeds)) :
    engine.step options action = some (engine', ()) ∧ deeds = engine.deeds options action := by
  obtain ⟨⟨after, _⟩, hstep, heq⟩ := Option.map_eq_some_iff.mp h
  obtain ⟨rfl, rfl⟩ := Prod.mk.inj heq
  exact ⟨hstep, rfl⟩

theorem proceedDeeds_dispatched (options : DispatchOptions) (engine : Engine π) :
    (engine.proceedDeeds options).filterMap Deed.dispatched = [] := by
  unfold proceedDeeds
  split
  · split <;> rfl
  · split
    · rfl
    · split <;> rfl
  · split <;> rfl
  · split <;> rfl
  · rfl

/-- A job is dispatched with a permit for its queue. -/
theorem deeds_matched {options : DispatchOptions} {engine : Engine π} {action : Action π}
    (horderly : Orderly options engine) :
    ∀ work ∈ (engine.deeds options action).filterMap Deed.dispatched,
      work.permit.queueName = work.job.name := by
  cases action with
  | dispatched task delivered =>
    simp only [deeds]
    split
    · next work htask =>
      intro other hother
      obtain rfl := List.mem_singleton.mp hother
      exact horderly.matched _ (List.mem_append_right _
        (List.mem_filterMap.mpr ⟨_, List.mem_of_getElem? htask, rfl⟩))
    · exact fun _ hwork => (List.not_mem_nil hwork).elim
  | reserve permits | claim permits =>
    rw [deeds, filterMap_map_none fun _ => rfl]
    exact fun _ hwork => (List.not_mem_nil hwork).elim
  | released task | wake task =>
    simp only [deeds]
    split <;> exact fun _ hwork => (List.not_mem_nil hwork).elim
  | proceed =>
    rw [deeds, proceedDeeds_dispatched]
    exact fun _ hwork => (List.not_mem_nil hwork).elim
  | scheduling | start | receive | drop => exact fun _ hwork => (List.not_mem_nil hwork).elim

end Engine

section Run

variable {options : DispatchOptions} {engine : Engine π} {events : List (List (Deed π))}

theorem filterMap_flatten_eq {α β : Type} (f : α → Option β) (lists : List (List α)) :
    lists.flatMap (fun items => items.filterMap f) = lists.flatten.filterMap f := by
  rw [List.filterMap_flatten, List.flatMap_def]

/-- What one step balances, a run balances. -/
theorem Engine.run_balance {β : Type}
    (hrun : Runs.Run (Engine.deedStep options) (fun engine action => engine.answered action)
      (Engine.initial options) events engine)
    (gains losses : List (Deed π) → List β) (stock : Engine π → List β)
    (hempty : stock (Engine.initial options) = [])
    (hbalance : ∀ {engine engine' : Engine π} {deeds : List (Deed π)},
      Engine.Balanced engine engine' deeds →
        (gains deeds ++ stock engine).Perm (losses deeds ++ stock engine')) :
    (events.flatMap gains).Perm (events.flatMap losses ++ stock engine) := by
  have hall := hrun.balance (Engine.Orderly options) (Engine.initial_orderly options) gains losses
    stock fun horderly hanswered htaken => by
      obtain ⟨hstep, rfl⟩ := Engine.deedStep_step htaken
      exact ⟨Engine.step_orderly horderly hanswered hstep,
        hbalance (Engine.step_balanced horderly hstep)⟩
  rwa [hempty, List.append_nil] at hall

/-- The deeds of a run account for everything that came in. Each job that the store handed out has
been dispatched once, or waits for it; each permit of the dispatcher has been given back or used by
one dispatch, or is still held; the claim of each failed delivery has been released once, or is
about to be; and the queue of each delivery has been scheduled once, or is about to be. Every job is
dispatched with a permit for its queue. -/
theorem deliveries_conserved (options : DispatchOptions) (engine : Engine π)
    (events : List (List (Deed π)))
    (hrun : Runs.Run (Engine.deedStep options) (fun engine action => engine.answered action)
      (Engine.initial options) events engine) :
    (events.flatten.filterMap Deed.claimed).Perm
      ((events.flatten.filterMap Deed.dispatched).map DeliveryWork.job ++ engine.waitingJobs) ∧
    (events.flatten.filterMap Deed.reserved).Perm
      (events.flatten.filterMap Deed.givenBack ++
        (events.flatten.filterMap Deed.dispatched).map DeliveryWork.permit ++ engine.heldPermits) ∧
    (events.flatten.filterMap Deed.failed).Perm
      (events.flatten.filterMap Deed.claimReleased ++ engine.releasing) ∧
    ((events.flatten.filterMap Deed.dispatched).map fun work => work.job.name).Perm
      (events.flatten.filterMap Deed.scheduled ++ engine.unscheduled) ∧
    ∀ work ∈ events.flatten.filterMap Deed.dispatched, work.permit.queueName = work.job.name := by
  refine ⟨?_, ?_, ?_, ?_, ?_⟩
  · have hjobs := Engine.run_balance hrun (fun deeds => deeds.filterMap Deed.claimed)
      (fun deeds => (deeds.filterMap Deed.dispatched).map DeliveryWork.job) Engine.waitingJobs rfl
      Engine.Balanced.jobs
    rwa [← List.map_flatMap, filterMap_flatten_eq, filterMap_flatten_eq] at hjobs
  · have hpermits := Engine.run_balance hrun (fun deeds => deeds.filterMap Deed.reserved)
      (fun deeds => deeds.filterMap Deed.givenBack ++
        (deeds.filterMap Deed.dispatched).map DeliveryWork.permit) Engine.heldPermits rfl
      Engine.Balanced.permits
    have hlosses := List.flatMap_append_perm events (fun deeds => deeds.filterMap Deed.givenBack)
      fun deeds => (deeds.filterMap Deed.dispatched).map DeliveryWork.permit
    rw [filterMap_flatten_eq, ← List.map_flatMap, filterMap_flatten_eq] at hlosses
    rw [filterMap_flatten_eq] at hpermits
    exact hpermits.trans (hlosses.symm.append_right _)
  · have hfailures := Engine.run_balance hrun (fun deeds => deeds.filterMap Deed.failed)
      (fun deeds => deeds.filterMap Deed.claimReleased) Engine.releasing rfl
      Engine.Balanced.failures
    rwa [filterMap_flatten_eq, filterMap_flatten_eq] at hfailures
  · have hqueues := Engine.run_balance hrun
      (fun deeds => (deeds.filterMap Deed.dispatched).map fun work => work.job.name)
      (fun deeds => deeds.filterMap Deed.scheduled) Engine.unscheduled rfl Engine.Balanced.queues
    rwa [← List.map_flatMap, filterMap_flatten_eq, filterMap_flatten_eq] at hqueues
  · have hmatched := hrun.events (Engine.Orderly options)
      (fun deeds => ∀ work ∈ deeds.filterMap Deed.dispatched, work.permit.queueName = work.job.name)
      (Engine.initial_orderly options) fun horderly hanswered htaken => by
        obtain ⟨hstep, rfl⟩ := Engine.deedStep_step htaken
        exact ⟨Engine.step_orderly horderly hanswered hstep, Engine.deeds_matched horderly⟩
    intro work hwork
    rw [← filterMap_flatten_eq] at hwork
    obtain ⟨deeds, hdeeds, hwork⟩ := List.mem_flatMap.mp hwork
    exact hmatched.2 deeds hdeeds work hwork

/-- A delivery that fails: the claim is released, and the queue scheduled again. A permit is left
over. -/
def failedDelivery : Option (Engine Nat × List (List (Deed Nat))) :=
  let job : Job :=
    { id := 7, name := "mail", status := .running, payload := [], executionCount := 1
      leaseExpiresAt := some 30, dispatchId := some "a", resultPayload := none, resultError := none
      createdAt := 0, updatedAt := 0 }
  Runs.exec (Engine.deedStep { batchSizeMax := 8, maxDeliveryInFlight := 2, idleProbeBatchSize := 4 })
    (fun engine action => engine.answered action)
    (Engine.initial { batchSizeMax := 8, maxDeliveryInFlight := 2, idleProbeBatchSize := 4 })
    [.scheduling (.schedule "mail"), .scheduling (.send 0), .start ["mail"],
      .reserve (some [⟨"mail", 0⟩, ⟨"mail", 1⟩]), .proceed, .proceed, .proceed, .proceed,
      .claim (some [job]), .proceed, .proceed, .receive, .dispatched 0 false, .proceed, .released 0,
      .proceed]

theorem failedDelivery_isSome : failedDelivery.isSome := by decide +kernel

theorem deliveries_conserved_failed :
    let deeds := (failedDelivery.get failedDelivery_isSome).2.flatten
    deeds.filterMap Deed.reserved = [⟨"mail", 0⟩, ⟨"mail", 1⟩] ∧
    deeds.filterMap Deed.givenBack = [⟨"mail", 1⟩] ∧
    (deeds.filterMap Deed.failed).map Job.id = [7] ∧
    (deeds.filterMap Deed.failed).Perm (deeds.filterMap Deed.claimReleased ++
      (failedDelivery.get failedDelivery_isSome).1.releasing) ∧
    ((deeds.filterMap Deed.dispatched).map fun work => work.job.name).Perm
      (deeds.filterMap Deed.scheduled ++ ["mail"]) := by
  have hall := deliveries_conserved _ _ _ (Runs.Run.of_exec (Option.some_get failedDelivery_isSome).symm)
  exact ⟨by decide +kernel, by decide +kernel, by decide +kernel, hall.2.2.1, hall.2.2.2.1⟩

end Run

/-! ### The dispatcher and the store -/

namespace Engine

theorem dispatcher_answered {options : DispatchOptions} {engine : Engine ReservedDispatch}
    {headroom : Nat} {queues : List String} (choice : Table.Choice) (workers : WorkerRegistry)
    (hpass : engine.pass = .reserving queues (requests options headroom queues)) :
    engine.answered (.reserve (some (dispatcherReply choice
      (requests options headroom queues) workers))) := by
  have hwell := dispatcher_wellAnswered choice workers hpass
  simp only [answered, hpass, Option.getD_some]
  exact hwell _ _ hpass

theorem taken_name {newDispatchId : Nat → String} {queueName : String} {limit : Nat}
    {conn : IngestConn} {entry : IngestClaimed}
    (h : entry ∈ IngestConn.taken newDispatchId (IngestConn.pendingClaims queueName limit conn)) :
    entry.name = queueName := by
  obtain ⟨item, i, hitem, -, rfl⟩ := IngestConn.mem_taken h
  obtain ⟨row, -, -, -, -, hname⟩ := IngestConn.mem_pendingClaims hitem
  exact hname

/-- The rows of a claim that waits for its dispatch are of the queue that was asked for. -/
theorem claimBatch_name {env : Env} {newDispatchId : Nat → String} {claimedAt : Int} {store : Store}
    {queueName : String} {limit : Nat} {claimed : List IngestClaimed}
    (hids : (store.ingest.acceptedJobs.map AcceptedJob.id).Nodup)
    (h : (store.claimBatch env newDispatchId claimedAt queueName limit).2 =
      .wait (.dispatch claimed claimedAt)) : ∀ entry ∈ claimed, entry.name = queueName := by
  unfold Store.claimBatch at h
  by_cases hqueue : queueName ∈ store.queueNames
  · rw [IngestConn.claimBatch_eq env newDispatchId limit hqueue hids] at h
    split at h
    · cases h
    · cases h
    · next heq =>
      obtain rfl := Except.ok.inj (Prod.mk.inj heq).2
      obtain ⟨rfl, -⟩ := Stage.dispatch.inj (Progress.wait.inj h)
      exact fun entry hentry => taken_name hentry
  · rw [IngestConn.claimBatch, if_neg hqueue] at h
    cases h

/-- What `claim_batch` of the store returns is of the queue of the visit and within its permits. -/
theorem store_answered {engine : Engine π} {env env' : Env} {newDispatchId : Nat → String}
    {claimedAt : Int} {store later : Store} {visit : Visit π} (hpass : engine.pass = .claiming visit)
    (hpermits : visit.permits ≠ []) (hids : (store.ingest.acceptedJobs.map AcceptedJob.id).Nodup) :
    (∀ jobs, (store.claimBatch env newDispatchId claimedAt visit.queue visit.permits.length).2 =
      .done (.claimed (.ok jobs)) → engine.answered (.claim (some jobs))) ∧
    ∀ claimed jobs, (store.claimBatch env newDispatchId claimedAt visit.queue
      visit.permits.length).2 = .wait (.dispatch claimed claimedAt) →
      (later.dispatch env' claimed claimedAt).2 = .done (.claimed (.ok jobs)) →
      engine.answered (.claim (some jobs)) := by
  simp only [answered, hpass, Option.getD_some]
  constructor
  · intro jobs h
    obtain rfl := claimBatch_done h
    exact ⟨Nat.zero_le _, fun _ hmem => absurd hmem List.not_mem_nil⟩
  · intro claimed jobs hwait h
    refine ⟨(store_within_limit hpermits).2 claimed jobs hwait h, fun job hjob => ?_⟩
    unfold Store.dispatch at h
    split at h
    · cases claimed <;> cases h
    · next results dispatched heq =>
      obtain rfl : List.zipWith Store.jobFromClaimed claimed dispatched = jobs := by simpa using h
      rw [← List.map_uncurry_zip_eq_zipWith] at hjob
      obtain ⟨⟨row, execution⟩, hpair, rfl⟩ := List.mem_map.mp hjob
      exact claimBatch_name hids hwait row (List.of_mem_zip hpair).1

end Engine

end Maqistor
