import Maqistor.Sdk.Jobs

/-! What the handler of a worker is called with, and what it returns. A session is followed together
with the calls of its handler: every call is for a dispatch that the session has read, each dispatch
leads to one call at most, and every result that is sent is what the handler returned, or says that
the payload is not valid. -/

namespace Maqistor.Sdk

variable {P : Type}

/-- A call of the handler, with the task that makes it. -/
structure HandlerCall (P : Type) where
  task : Nat
  jobId : Int
  dispatchId : String
  payload : P

/-- A session, with the calls of its handler that have begun and those that have returned. -/
structure Handling (P : Type) where
  session : Session P
  begun : List (HandlerCall P)
  returned : List (HandlerCall P × Except String (List UInt8))

/-- The dispatch that a task was spawned for. -/
def JobTask.origin (task : JobTask P) : WorkerMessage :=
  .jobDispatch task.jobId task.dispatchId task.executionCount task.payload

/-- The call that a task makes with a payload. -/
def JobTask.call (task : JobTask P) (job : Nat) (payload : P) : HandlerCall P :=
  { task := job, jobId := task.jobId, dispatchId := task.dispatchId, payload := payload }

/-- The result that a task has and has not sent yet. -/
def JobTask.result? (task : JobTask P) : Option (Except String (List UInt8)) :=
  match task.phase with
  | .releasing result => some result
  | .reporting result => some result
  | .sending result _ => some result
  | _ => none

/-- The handler has not been called for the task. -/
def JobTask.waits (task : JobTask P) : Bool :=
  match task.phase with
  | .spawned => true
  | .acquiring _ => true
  | _ => false

/-- What `execute_job` reports for a payload that cannot be parsed. -/
def invalidPayload (message : String) : String := "invalid job payload: " ++ message

/-- The call of the handler that begins with an action. -/
def Session.beginning (session : Session P) : Session.Action → Option (HandlerCall P)
  | .job job .acquire => do
    let task ← session.jobs[job]?
    match task.phase with
    | .acquiring payload => some (task.call job payload)
    | _ => none
  | _ => none

/-- The call of the handler that returns with an action. -/
def Session.returning (session : Session P) :
    Session.Action → Option (HandlerCall P × Except String (List UInt8))
  | .job job (.complete result) => do
    let task ← session.jobs[job]?
    match task.phase with
    | .handling payload => some (task.call job payload, result)
    | _ => none
  | _ => none

namespace Handling

def initial (config : Config P) : Handling P := ⟨.initial config, [], []⟩

def step (config : Config P) (codec : Codec) (handling : Handling P) (action : Session.Action) :
    Option (Handling P × Unit) := do
  let (session, _) ← handling.session.step config codec action
  some ({ session := session, begun := handling.begun ++ (handling.session.beginning action).toList
          returned := handling.returned ++ (handling.session.returning action).toList }, ())

/-- A result of a task is what a call of the handler returned, or says that the payload is not
valid. -/
def Accounts (config : Config P) (handling : Handling P) (job : Nat) (task : JobTask P)
    (result : Except String (List UInt8)) : Prop :=
  (∃ payload, (task.call job payload, result) ∈ handling.returned) ∨
    ∃ message, config.parse task.payload = .error message ∧ result = .error (invalidPayload message)

/-- What is known of a task: the dispatch that it was spawned for, the payload that it works with,
and where its result is from. -/
structure Traced (config : Config P) (handling : Handling P) (job : Nat) (task : JobTask P) : Prop where
  dispatched : task.origin ∈ handling.session.received
  parsed : ∀ payload, task.phase = .acquiring payload ∨ task.phase = .handling payload →
    config.parse task.payload = .ok payload
  waiting : task.waits = true → job ∉ handling.begun.map HandlerCall.task
  called : ∀ payload, task.phase = .handling payload → task.call job payload ∈ handling.begun
  result : ∀ result, task.result? = some result → handling.Accounts config job task result

/-- The calls of the handler belong to tasks, and the results that were sent are those of tasks. -/
structure Faithful (config : Config P) (handling : Handling P) : Prop where
  sound : handling.session.Sound config
  traced : ∀ job task, handling.session.jobs[job]? = some task → handling.Traced config job task
  once : (handling.begun.map HandlerCall.task).Nodup
  begun : ∀ call ∈ handling.begun, ∃ task, handling.session.jobs[call.task]? = some task ∧
    call = task.call call.task call.payload ∧ config.parse task.payload = .ok call.payload
  ended : ∀ pair ∈ handling.returned, pair.1 ∈ handling.begun
  sent : ∀ frame ∈ handling.session.sent, ∀ jobId dispatchId result runningJobs freeSlots,
    frame.payload = .jobResult jobId dispatchId result runningJobs freeSlots →
    ∃ job task outcome, handling.session.jobs[job]? = some task ∧ task.ids = (jobId, dispatchId) ∧
      result = reportResult outcome ∧ handling.Accounts config job task outcome

end Handling

/-! ### What a step does to the tasks -/

section Tasks

variable {config : Config P} {codec : Codec} {session session' : Session P} {action : Session.Action}

/-- What a step of a session does to its tasks, with the calls of the handler that begin and
return. -/
inductive JobsStep (config : Config P) (session session' : Session P) : Session.Action → Prop
  | same {action : Session.Action} (hjobs : session'.jobs = session.jobs)
      (hbegins : session.beginning action = none) (hreturns : session.returning action = none) :
      JobsStep config session session' action
  | spawn {jobId : Int} {dispatchId : String} {executionCount : UInt32} {payload : List UInt8}
      (hjobs : session'.jobs =
        session.jobs ++ [JobTask.spawn jobId dispatchId executionCount payload]) :
      JobsStep config session session'
        (.receive (.ok (.jobDispatch jobId dispatchId executionCount payload)))
  | parsed {job : Nat} {task : JobTask P} {payload : P} (htask : session.jobs[job]? = some task)
      (hphase : task.phase = .spawned) (hparse : config.parse task.payload = .ok payload)
      (hjobs : session'.jobs = session.jobs.set job { task with phase := .acquiring payload }) :
      JobsStep config session session' (.job job .parse)
  | invalid {job : Nat} {task : JobTask P} {message : String} (htask : session.jobs[job]? = some task)
      (hphase : task.phase = .spawned) (hparse : config.parse task.payload = .error message)
      (hjobs : session'.jobs = session.jobs.set job
        { task with phase := .reporting (.error (invalidPayload message)) }) :
      JobsStep config session session' (.job job .parse)
  | begins {job : Nat} {task : JobTask P} {payload : P} (htask : session.jobs[job]? = some task)
      (hphase : task.phase = .acquiring payload)
      (hjobs : session'.jobs = session.jobs.set job { task with phase := .handling payload }) :
      JobsStep config session session' (.job job .acquire)
  | returns {job : Nat} {task : JobTask P} {payload : P} {result : Except String (List UInt8)}
      (htask : session.jobs[job]? = some task) (hphase : task.phase = .handling payload)
      (hjobs : session'.jobs = session.jobs.set job { task with phase := .releasing result }) :
      JobsStep config session session' (.job job (.complete result))
  /-- A task goes on after its call, with the result that it has or with none. -/
  | passes {action : Session.Action} {job : Nat} {task : JobTask P} {phase : Phase P}
      {ack : Option Nat} (htask : session.jobs[job]? = some task)
      (hjobs : session'.jobs = session.jobs.set job { task with phase := phase, ack := ack })
      (hwaits : phase ≠ .spawned ∧ ∀ payload, phase ≠ .acquiring payload ∧ phase ≠ .handling payload)
      (hresult : ∀ result, JobTask.result? { task with phase := phase, ack := ack } = some result →
        task.result? = some result)
      (hbegins : session.beginning action = none) (hreturns : session.returning action = none) :
      JobsStep config session session' action

theorem send_jobs (session : Session P) (payload : WorkerMessage) :
    (session.send payload).1.jobs = session.jobs := by
  unfold Session.send
  split <;> rfl

theorem handle_jobs (config : Config P) (session : Session P) (message : WorkerMessage) :
    JobsStep config session
      ({ session with received := session.received ++ [message] }.handle config message)
      (.receive (.ok message)) := by
  cases message with
  | jobDispatch jobId dispatchId executionCount payload =>
    simp only [Session.handle]
    split
    · exact .same rfl rfl rfl
    · exact .spawn rfl
  | registered queueName | draining =>
    simp only [Session.handle]
    split <;> exact .same rfl rfl rfl
  | _ => exact .same rfl rfl rfl

theorem Session.JobStep.handling {job : Nat} {task : JobTask P} {action : JobTask.Action}
    (htask : session.jobs[job]? = some task)
    (h : Session.JobStep config session job task action session') :
    JobsStep config session session' (.job job action) := by
  cases h with
  | parsed hphase hparse => exact .parsed htask hphase hparse rfl
  | invalid hphase hparse => exact .invalid htask hphase hparse rfl
  | acquire hphase => exact .begins htask hphase rfl
  | complete hphase => exact .returns htask hphase rfl
  | panic hphase => exact .passes htask rfl (by simp) (by simp [JobTask.result?]) rfl rfl
  | release hphase | snapshot hphase =>
    exact .passes htask rfl (by simp) (by simp [JobTask.result?, hphase]) rfl rfl
  | report hphase =>
    refine .passes htask (?_ : _ = session.jobs.set job
      { task with phase := .awaiting, ack := some session.acks.length }) (by simp)
      (by simp [JobTask.result?]) rfl rfl
    rw [Session.setJob, send_jobs]
  | unreported hphase => exact .passes htask rfl (by simp) (by simp [JobTask.result?]) rfl rfl
  | resume hphase =>
    exact .passes htask rfl (by simp) (by simp [JobTask.result?]) rfl rfl

theorem Session.Transition.handling (h : Session.Transition config codec session action session') :
    JobsStep config session session' action := by
  cases h with
  | receive hserve => exact handle_jobs config session _
  | job htask hlive hstep => exact hstep.handling htask
  | join hserve htask hphase =>
    exact .passes htask rfl (by simp) (by simp [JobTask.result?]) rfl rfl
  | joinError hserve htask hphase =>
    exact .passes htask rfl (by simp) (by simp [JobTask.result?]) rfl rfl
  | shutdown => exact .same (send_jobs session .drain) rfl rfl
  | heartbeat =>
    refine .same ?_ rfl rfl
    unfold Session.sendUnacknowledged
    split <;> rfl
  | write =>
    refine .same ?_ rfl rfl
    unfold Session.writeNext
    split <;> rfl
  | unsent | drained | undrained | writerStopped | broken => exact .same rfl rfl rfl

end Tasks

/-! ### Every step keeps it -/

namespace Handling

section Step

variable {config : Config P} {codec : Codec} {handling handling' : Handling P} {job : Nat}
  {task task' : JobTask P}

/-- A result stays accounted for while its task stays the one for its dispatch. -/
theorem Accounts.keeps {result : Except String (List UInt8)}
    (h : handling.Accounts config job task result) (horigin : task'.origin = task.origin)
    (hreturned : handling.returned ⊆ handling'.returned) :
    handling'.Accounts config job task' result := by
  injection horigin with hjob hdispatch _ hpayload
  rcases h with ⟨payload, hmem⟩ | ⟨message, hparse, hresult⟩
  · refine Or.inl ⟨payload, hreturned ?_⟩
    rwa [JobTask.call, hjob, hdispatch]
  · exact Or.inr ⟨message, hpayload ▸ hparse, hresult⟩

/-- What is known of a task that a step leaves alone. -/
theorem Traced.keeps (h : handling.Traced config job task)
    (hreceived : handling.session.received ⊆ handling'.session.received)
    (hbegun : handling.begun ⊆ handling'.begun) (hreturned : handling.returned ⊆ handling'.returned)
    (hwaiting : task.waits = true → job ∉ handling'.begun.map HandlerCall.task) :
    handling'.Traced config job task where
  dispatched := hreceived h.dispatched
  parsed := h.parsed
  waiting := hwaiting
  called payload hphase := hbegun (h.called payload hphase)
  result result hresult := (h.result result hresult).keeps rfl hreturned

theorem received_grows {session session' : Session P} {action : Session.Action}
    (h : Session.Transition config codec session action session') :
    session.received ⊆ session'.received := by
  by_cases hread : ∃ message, action = .receive (.ok message)
  · obtain ⟨message, rfl⟩ := hread
    rw [h.read.2, Session.handle_received]
    exact List.subset_append_left _ _
  · rw [h.received fun message heq => hread ⟨message, heq⟩]
    exact List.Subset.refl _

/-- The handling after a step of its session. -/
def after (handling : Handling P) (action : Session.Action) (session : Session P) : Handling P :=
  { session := session, begun := handling.begun ++ (handling.session.beginning action).toList
    returned := handling.returned ++ (handling.session.returning action).toList }

theorem step_after {action : Session.Action} {event : Unit}
    (h : handling.step config codec action = some (handling', event)) : ∃ session,
    Session.Transition config codec handling.session action session ∧
      handling' = handling.after action session := by
  obtain ⟨⟨session, _⟩, hstep, heq⟩ := Option.bind_eq_some_iff.mp h
  exact ⟨session, Session.step_transition hstep, (Prod.mk.inj (Option.some.inj heq)).1.symm⟩

variable {action : Session.Action} {session' : Session P}

/-- A call that returns has begun. -/
theorem Faithful.returning_begun (h : handling.Faithful config)
    {pair : HandlerCall P × Except String (List UInt8)}
    (hpair : handling.session.returning action = some pair) : pair.1 ∈ handling.begun := by
  unfold Session.returning at hpair
  split at hpair
  · obtain ⟨task, htask, hpair⟩ := Option.bind_eq_some_iff.mp hpair
    split at hpair
    · next payload hphase =>
      obtain rfl := Option.some.inj hpair
      exact (h.traced _ task htask).called payload hphase
    · cases hpair
  · cases hpair

/-- The calls and the results after a step whose tasks are all known to be traced. -/
theorem Faithful.of_traced (h : handling.Faithful config)
    (hstep : Session.Transition config codec handling.session action session')
    (hkept : ∀ (job : Nat) (task : JobTask P), handling.session.jobs[job]? = some task →
      ∃ task' : JobTask P, session'.jobs[job]? = some task' ∧ task'.origin = task.origin)
    (htraced : ∀ job task, session'.jobs[job]? = some task →
      (handling.after action session').Traced config job task)
    (hbegins : ∀ call, handling.session.beginning action = some call →
      ∃ task, handling.session.jobs[call.task]? = some task ∧ task.waits = true ∧
        call = task.call call.task call.payload ∧ config.parse task.payload = .ok call.payload) :
    (handling.after action session').Faithful config := by
  have hreturned : handling.returned ⊆ (handling.after action session').returned :=
    List.subset_append_left _ _
  refine ⟨hstep.sound h.sound, htraced, ?_, fun call hcall => ?_, fun pair hpair => ?_, ?_⟩
  · cases hbeginning : handling.session.beginning action with
    | none => simpa [after, hbeginning] using h.once
    | some call =>
      obtain ⟨task, htask, hwaits, -⟩ := hbegins call hbeginning
      simp only [after, hbeginning, Option.toList_some, List.map_append, List.map_singleton]
      refine List.nodup_append.mpr ⟨h.once, List.nodup_singleton _, fun other hother last hlast => ?_⟩
      rw [List.mem_singleton.mp hlast]
      rintro rfl
      exact (h.traced _ task htask).waiting hwaits hother
  · have hold : ∃ task, handling.session.jobs[call.task]? = some task ∧
        call = task.call call.task call.payload ∧ config.parse task.payload = .ok call.payload := by
      rcases List.mem_append.mp hcall with hcall | hcall
      · exact h.begun call hcall
      · obtain ⟨task, htask, -, hsame, hparse⟩ := hbegins call (Option.mem_toList.mp hcall)
        exact ⟨task, htask, hsame, hparse⟩
    obtain ⟨task, htask, hsame, hparse⟩ := hold
    obtain ⟨task', htask', horigin⟩ := hkept _ task htask
    injection horigin with hjob hdispatch _ hpayload
    refine ⟨task', htask', ?_, hpayload ▸ hparse⟩
    rw [JobTask.call, hjob, hdispatch]
    exact hsame
  · refine List.mem_append_left _ ?_
    rcases List.mem_append.mp hpair with hold | hnew
    · exact h.ended pair hold
    · exact h.returning_begun (Option.mem_toList.mp hnew)
  · have hold : ∀ jobId dispatchId result,
        (∃ job task outcome, handling.session.jobs[job]? = some task ∧ task.ids = (jobId, dispatchId) ∧
          result = reportResult outcome ∧ handling.Accounts config job task outcome) →
        ∃ job task outcome, session'.jobs[job]? = some task ∧ task.ids = (jobId, dispatchId) ∧
          result = reportResult outcome ∧
          (handling.after action session').Accounts config job task outcome := by
      rintro jobId dispatchId result ⟨job, task, outcome, htask, hids, hresult, haccounts⟩
      obtain ⟨task', htask', horigin⟩ := hkept job task htask
      refine ⟨job, task', outcome, htask', ?_, hresult, haccounts.keeps horigin hreturned⟩
      injection horigin with hjob hdispatch
      rw [← hids, JobTask.ids, JobTask.ids, hjob, hdispatch]
    intro frame hframe jobId dispatchId result runningJobs freeSlots hpayload
    apply hold
    have hnew : ∀ {sent : OutboundFrame}, session'.sent = handling.session.sent ++ [sent] →
        frame ∈ handling.session.sent ∨ frame = sent := by
      intro sent hsent
      have hmem : frame ∈ session'.sent := hframe
      rw [hsent] at hmem
      exact (List.mem_append.mp hmem).imp_right List.mem_singleton.mp
    cases hstep.sent with
    | same hsent => exact h.sent frame (hsent ▸ hframe) _ _ _ _ _ hpayload
    | heartbeat hsent =>
      rcases hnew hsent with hmem | rfl
      · exact h.sent frame hmem _ _ _ _ _ hpayload
      · cases hpayload
    | drain hsent =>
      rcases hnew hsent with hmem | rfl
      · exact h.sent frame hmem _ _ _ _ _ hpayload
      · cases hpayload
    | @result job task outcome freeSlots htask hphase hsent =>
      rcases hnew hsent with hmem | rfl
      · exact h.sent frame hmem _ _ _ _ _ hpayload
      · injection hpayload with hjob hdispatch hresult
        refine ⟨job, task, outcome, htask, by rw [← hjob, ← hdispatch]; rfl, hresult.symm, ?_⟩
        exact (h.traced job task htask).result outcome (by simp [JobTask.result?, hphase])

/-- A step that moves one task and leaves the others alone. -/
theorem Faithful.of_set (h : handling.Faithful config)
    (hstep : Session.Transition config codec handling.session action session')
    (htask : handling.session.jobs[job]? = some task)
    (hjobs : session'.jobs = handling.session.jobs.set job task') (horigin : task'.origin = task.origin)
    (hbegins : ∀ call, handling.session.beginning action = some call → task.waits = true ∧
      ∃ payload, call = task.call job payload ∧ config.parse task.payload = .ok payload)
    (htraced : (handling.after action session').Traced config job task') :
    (handling.after action session').Faithful config := by
  have hlt := (List.getElem?_eq_some_iff.mp htask).1
  refine h.of_traced hstep (fun other found hfound => ?_) (fun other found hfound => ?_)
    fun call hcall => ?_
  · by_cases heq : other = job
    · subst heq
      obtain rfl := Option.some.inj (htask.symm.trans hfound)
      exact ⟨task', by rw [hjobs, List.getElem?_set_self hlt], horigin⟩
    · exact ⟨found, by rw [hjobs, List.getElem?_set_ne (Ne.symm heq), hfound], rfl⟩
  · by_cases heq : other = job
    · subst heq
      rw [hjobs, List.getElem?_set_self hlt] at hfound
      exact Option.some.inj hfound ▸ htraced
    · rw [hjobs, List.getElem?_set_ne (Ne.symm heq)] at hfound
      refine (h.traced other found hfound).keeps (received_grows hstep) (List.subset_append_left _ _)
        (List.subset_append_left _ _) fun hwaits hmem => ?_
      rw [after, List.map_append] at hmem
      rcases List.mem_append.mp hmem with hmem | hmem
      · exact (h.traced other found hfound).waiting hwaits hmem
      · obtain ⟨call, hcall, rfl⟩ := List.mem_map.mp hmem
        obtain ⟨-, payload, rfl, -⟩ := hbegins call (Option.mem_toList.mp hcall)
        exact heq rfl
  · obtain ⟨hwaits, payload, rfl, hparse⟩ := hbegins call hcall
    exact ⟨task, htask, hwaits, rfl, hparse⟩

theorem faithful_step (h : handling.Faithful config)
    (hstep : Session.Transition config codec handling.session action session') :
    (handling.after action session').Faithful config := by
  have hreceived := received_grows hstep
  have hreturned : handling.returned ⊆ (handling.after action session').returned :=
    List.subset_append_left _ _
  have hbegun : handling.session.beginning action = none →
      (handling.after action session').begun = handling.begun := fun hnone => by
    rw [after, hnone, Option.toList_none, List.append_nil]
  have hnothing : handling.session.beginning action = none → ∀ {task : JobTask P} {job : Nat} call,
      handling.session.beginning action = some call → task.waits = true ∧
        ∃ payload, call = task.call job payload ∧ config.parse task.payload = .ok payload :=
    fun hnone _ _ call hcall => by
      rw [hnone] at hcall
      cases hcall
  have hkeeps : handling.session.beginning action = none → ∀ (job : Nat) (task : JobTask P),
      handling.session.jobs[job]? = some task →
      (handling.after action session').Traced config job task := fun hnone job task htask => by
    refine (h.traced job task htask).keeps hreceived (List.subset_append_left _ _) hreturned ?_
    rw [hbegun hnone]
    exact (h.traced job task htask).waiting
  cases hstep.handling with
  | same hjobs hbegins hreturns =>
    refine h.of_traced hstep (fun job task htask => ⟨task, by rw [hjobs, htask], rfl⟩)
      (fun job task htask => hkeeps hbegins job task (by rw [← hjobs, htask])) fun call hcall => ?_
    rw [hbegins] at hcall
    cases hcall
  | @spawn jobId dispatchId executionCount payload hjobs =>
    refine h.of_traced hstep (fun job task htask => ⟨task, ?_, rfl⟩) (fun job task htask => ?_)
      fun call hcall => by cases hcall
    · rw [hjobs, List.getElem?_append_left (List.getElem?_eq_some_iff.mp htask).1, htask]
    · rw [hjobs] at htask
      by_cases hlt : job < handling.session.jobs.length
      · exact hkeeps rfl job task (by rwa [List.getElem?_append_left hlt] at htask)
      · rw [List.getElem?_append_right (Nat.le_of_not_lt hlt)] at htask
        have hindex := (List.getElem?_eq_some_iff.mp htask).1
        rw [List.length_singleton] at hindex
        obtain rfl : job = handling.session.jobs.length := by omega
        obtain rfl := List.mem_singleton.mp (List.mem_of_getElem? htask)
        refine ⟨?_, by simp [JobTask.spawn], fun _ hmem => ?_, by simp [JobTask.spawn],
          by simp [JobTask.spawn, JobTask.result?]⟩
        · show WorkerMessage.jobDispatch jobId dispatchId executionCount payload ∈ session'.received
          rw [hstep.read.2, Session.handle_received]
          exact List.mem_append_right _ List.mem_cons_self
        · -- a call that has begun belongs to a task that is there
          rw [hbegun rfl] at hmem
          obtain ⟨call, hcall, heq⟩ := List.mem_map.mp hmem
          obtain ⟨task, htask, -⟩ := h.begun call hcall
          rw [heq, List.getElem?_eq_none (Nat.le_refl _)] at htask
          cases htask
  | @parsed job task payload htask hphase hparse hjobs =>
    have htraced := h.traced job task htask
    refine h.of_set hstep htask hjobs rfl (hnothing rfl) ⟨hreceived htraced.dispatched, ?_, ?_, ?_, ?_⟩
    · rintro other (hother | hother)
      · cases hother
        exact hparse
      · cases hother
    · intro _
      rw [hbegun rfl]
      exact htraced.waiting (by simp [JobTask.waits, hphase])
    · rintro other ⟨⟩
    · rintro result ⟨⟩
  | @invalid job task message htask hphase hparse hjobs =>
    have htraced := h.traced job task htask
    refine h.of_set hstep htask hjobs rfl (hnothing rfl) ⟨hreceived htraced.dispatched, ?_, ?_, ?_, ?_⟩
    · rintro other (hother | hother) <;> cases hother
    · rintro ⟨⟩
    · rintro other ⟨⟩
    · intro result hresult
      exact Or.inr ⟨message, hparse, (Option.some.inj hresult).symm⟩
  | @begins job task payload htask hphase hjobs =>
    have htraced := h.traced job task htask
    have hparse := htraced.parsed payload (Or.inl hphase)
    have hbeginning : handling.session.beginning (.job job .acquire) = some (task.call job payload) := by
      simp [Session.beginning, htask, hphase]
    refine h.of_set hstep htask hjobs rfl (fun call hcall => ?_)
      ⟨hreceived htraced.dispatched, ?_, ?_, ?_, ?_⟩
    · obtain rfl := Option.some.inj (hbeginning.symm.trans hcall)
      exact ⟨by simp [JobTask.waits, hphase], payload, rfl, hparse⟩
    · rintro other (hother | hother)
      · cases hother
      · cases hother
        exact hparse
    · rintro ⟨⟩
    · rintro other hother
      cases hother
      rw [after, hbeginning]
      exact List.mem_append_right _ List.mem_cons_self
    · rintro result ⟨⟩
  | @returns job task payload outcome htask hphase hjobs =>
    have htraced := h.traced job task htask
    refine h.of_set hstep htask hjobs rfl (hnothing rfl) ⟨hreceived htraced.dispatched, ?_, ?_, ?_, ?_⟩
    · rintro other (hother | hother) <;> cases hother
    · rintro ⟨⟩
    · rintro other ⟨⟩
    · intro result hresult
      obtain rfl := Option.some.inj hresult
      refine Or.inl ⟨payload, List.mem_append_right _ ?_⟩
      simp [Session.returning, htask, hphase, JobTask.call]
  | @passes _ job task phase ack htask hjobs hwaits hresult hbegins hreturns =>
    have htraced := h.traced job task htask
    refine h.of_set hstep htask hjobs rfl (hnothing hbegins)
      ⟨hreceived htraced.dispatched, ?_, ?_, ?_, ?_⟩
    · rintro other (hother | hother)
      · exact absurd hother (hwaits.2 other).1
      · exact absurd hother (hwaits.2 other).2
    · intro hwaiting
      unfold JobTask.waits at hwaiting
      split at hwaiting
      · next hspawned => exact absurd hspawned hwaits.1
      · next other hother => exact absurd hother (hwaits.2 other).1
      · cases hwaiting
    · exact fun other hother => absurd hother (hwaits.2 other).2
    · exact fun result hnew => (htraced.result result (hresult result hnew)).keeps rfl hreturned

theorem initial_faithful (config : Config P) : (initial config).Faithful config where
  sound := Session.initial_sound config
  traced job task htask := by simp [initial, Session.initial] at htask
  once := List.nodup_nil
  begun call hcall := by cases hcall
  ended pair hpair := by cases hpair
  sent frame hframe := by cases hframe

end Step

end Handling

end Maqistor.Sdk
