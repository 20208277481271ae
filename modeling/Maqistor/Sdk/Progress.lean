import Maqistor.Sdk.Jobs

/-! One result for each dispatch: while every result can be encoded, no job ends the session, and
the tasks of a session can always go on until every job is reported. -/

namespace Maqistor.Sdk

variable {P : Type}

/-- How many steps a task may still take. -/
def JobTask.rank (task : JobTask P) : Nat :=
  match task.phase with
  | .spawned => 9
  | .acquiring _ => 8
  | .handling _ => 7
  | .releasing _ => 6
  | .reporting _ => 5
  | .sending _ _ => 4
  | .awaiting => 2
  | .finished _ | .panicked => 1
  | .joined => 0

/-- The action is one of the job tasks, of the writer task or of `join_next`. -/
def Session.Action.internal : Session.Action → Bool
  | .join _ | .job _ _ | .write _ => true
  | .shutdown | .drainWritten | .writerStopped | .receive _ | .heartbeat => false

namespace Session

/-- The transport accepts every write, handlers return, and the server sends what a registered
worker expects; there is no shutdown. -/
def undisturbed (config : Config P) : Action → Bool
  | .shutdown => false
  | .receive (.ok (.registered queueName)) => queueName = config.queueName
  | .receive (.ok (.jobDispatch _ _ _ _)) | .receive (.ok .heartbeat) => true
  | .receive _ => false
  | .job _ .panic => false
  | .write accepted => accepted
  | .drainWritten | .writerStopped | .join _ | .job _ _ | .heartbeat => true

/-- A result is handed to the writer only when it can be encoded. -/
def reportsEncodable (config : Config P) (codec : Codec) (session : Session P) : Action → Bool
  | .job job .report =>
    session.jobs[job]?.all fun task =>
      match task.phase with
      | .sending result freeSlots => Encodes codec (task.resultFrame config result freeSlots)
      | _ => true
  | _ => true

/-- The steps that a session may still take before all its jobs are joined. -/
def remaining (session : Session P) : Nat :=
  (session.jobs.map JobTask.rank).sum + session.channel.length

/-- No task of the session can take a step, whatever the handlers return. -/
def Quiescent (config : Config P) (codec : Codec) (session : Session P) : Prop :=
  ∀ action, action.internal = true → session.step config codec action = none

/-- A session that no job has disturbed. -/
structure Healthy (codec : Codec) (session : Session P) : Prop where
  serve : session.serve = .selecting
  state : session.state = .serving
  writing : session.writing = true
  channel : ∀ frame ∈ session.channel, Encodes codec frame.payload
  tasks : ∀ task ∈ session.jobs, task.phase ≠ .panicked ∧ ∀ error, task.phase ≠ .finished (.error error)

section Healthy

variable {config : Config P} {codec : Codec} {session session' : Session P} {job : Nat}
  {task task' : JobTask P}

/-- What a task has sent is written or waits in the channel. -/
theorem Sound.sent_of_ack (h : session.Sound config) (hwriting : session.writing = true)
    (htask : task ∈ session.jobs) {ack : Nat} (hack : task.ack = some ack) :
    session.acks[ack]? = some (some true) ∨
      session.acks[ack]? = some none ∧ session.channel ≠ [] := by
  have hkey : (task.ids, some ack) ∈ session.sent.filterMap OutboundFrame.key := by
    rw [h.reports.mem_iff]
    exact List.mem_filterMap.mpr ⟨task, htask, by rw [JobTask.key, hack]; rfl⟩
  obtain ⟨frame, hframe, heq⟩ := List.mem_filterMap.mp hkey
  obtain ⟨ids, -, heq⟩ := Option.map_eq_some_iff.mp heq
  have hwritten : frame.written = some ack := congrArg Prod.snd heq
  obtain ⟨done, rest, hsent, -, hdone, hrest, hchannel⟩ := h.outbox.flow
  simp only [hwriting, ↓reduceIte] at hrest hchannel
  rw [hsent] at hframe
  rcases List.mem_append.mp hframe with hin | hin
  · exact Or.inl (hdone frame hin ack hwritten)
  · refine Or.inr ⟨hrest frame hin ack hwritten, ?_⟩
    rw [hchannel]
    exact List.ne_nil_of_mem hin

theorem Healthy.setJob (h : session.Healthy codec) (hphase : task'.phase ≠ .panicked)
    (herror : ∀ error, task'.phase ≠ .finished (.error error)) (permits : Nat) :
    Healthy codec { session.setJob job task' with permits := permits } where
  serve := h.serve
  state := h.state
  writing := h.writing
  channel := h.channel
  tasks task htask := by
    rcases mem_set htask with rfl | htask
    · exact ⟨hphase, herror⟩
    · exact h.tasks task htask

theorem Healthy.send (h : session.Healthy codec) {payload : WorkerMessage}
    (hpayload : Encodes codec payload) : (session.send payload).1.Healthy codec := by
  rw [Session.send, if_pos h.writing]
  refine { h with channel := fun frame hframe => ?_ }
  rcases List.mem_append.mp hframe with hframe | hframe
  · exact h.channel frame hframe
  · rw [List.mem_singleton.mp hframe]
    exact hpayload

theorem Healthy.loop (h : session.Healthy codec) : session.loop.Healthy codec :=
  { h with serve := by simp [Session.loop, h.state] }

theorem JobStep.healthy {action : JobTask.Action} (hinv : session.Healthy codec)
    (hsound : session.Sound config) (htask : session.jobs[job]? = some task)
    (hok : undisturbed config (.job job action) = true)
    (hencodes : session.reportsEncodable config codec (.job job action) = true)
    (h : JobStep config session job task action session') : session'.Healthy codec := by
  cases h with
  | parsed | invalid | acquire | complete | release | snapshot =>
    exact hinv.setJob (by simp) (by simp) _
  | panic => cases hok
  | @report result freeSlots hphase hwriting =>
    have hframe : Encodes codec (task.resultFrame config result freeSlots) := by
      simpa [reportsEncodable, htask, hphase] using hencodes
    exact (hinv.send hframe).setJob (by simp) (by simp) _
  | unreported hphase hwriting => simp [hinv.writing] at hwriting
  | @resume ack wrote hphase hack hwrote =>
    cases wrote with
    | true => exact hinv.setJob (by simp) (by simp) _
    | false =>
      rcases hsound.sent_of_ack hinv.writing (List.mem_of_getElem? htask) hack with
        hwritten | ⟨hwaiting, -⟩
      · simp [hwrote] at hwritten
      · simp [hwrote] at hwaiting

theorem Healthy.receive (h : session.Healthy codec) {message : WorkerMessage}
    (hok : undisturbed config (.receive (.ok message)) = true) :
    ({ session with received := session.received ++ [message] }.handle config message).Healthy
      codec := by
  cases message with
  | registered queueName =>
    have hqueue : queueName = config.queueName := by simpa [undisturbed] using hok
    simp only [handle, if_pos hqueue]
    exact Healthy.loop ⟨h.serve, h.state, h.writing, h.channel, h.tasks⟩
  | jobDispatch jobId dispatchId executionCount payload =>
    have hserving : ¬session.state = .draining := by simp [h.state]
    simp only [handle, if_neg hserving]
    refine Healthy.loop ⟨h.serve, h.state, h.writing, h.channel, fun task htask => ?_⟩
    rcases List.mem_append.mp htask with htask | htask
    · exact h.tasks task htask
    · rw [List.mem_singleton.mp htask]
      simp [JobTask.spawn]
  | heartbeat => exact Healthy.loop ⟨h.serve, h.state, h.writing, h.channel, h.tasks⟩
  | register | jobResult | drain | draining | error => cases hok

/-- While every result can be encoded, no step disturbs the session. -/
theorem Transition.healthy {action : Action} (hheartbeat : Encodes codec .heartbeat)
    (hinv : session.Healthy codec) (hsound : session.Sound config)
    (hok : undisturbed config action = true)
    (hencodes : session.reportsEncodable config codec action = true)
    (h : Transition config codec session action session') : session'.Healthy codec := by
  cases h with
  | shutdown | unsent | broken => cases hok
  | drained hserve | undrained hserve => simp [hinv.serve] at hserve
  | writerStopped _ hwriting => simp [hinv.writing] at hwriting
  | join => exact (hinv.setJob (by simp) (by simp) _).loop
  | @joinError job task error _ htask hphase =>
    have htasks := hinv.tasks task (List.mem_of_getElem? htask)
    rcases hphase with hphase | hphase
    · exact absurd hphase (htasks.2 error)
    · exact absurd hphase htasks.1
  | receive => exact hinv.receive hok
  | job htask _ hstep => exact hstep.healthy hinv hsound htask hok hencodes
  | heartbeat =>
    rw [sendUnacknowledged, if_pos hinv.writing]
    refine { hinv with channel := fun frame hframe => ?_ }
    rcases List.mem_append.mp hframe with hframe | hframe
    · exact hinv.channel frame hframe
    · rw [List.mem_singleton.mp hframe]
      exact hheartbeat
  | @write frame rest accepted _ _ hchannel =>
    have hhead := hinv.channel frame (by simp [hchannel])
    rw [writeNext, if_pos ⟨hok, hhead⟩]
    refine { hinv with channel := fun other hother => hinv.channel other ?_ }
    rw [hchannel]
    exact List.mem_cons_of_mem _ hother

end Healthy

/-! ### The steps that are left -/

section Progress

variable {config : Config P} {codec : Codec} {session session' : Session P} {job : Nat}
  {task : JobTask P}

theorem rank_setJob {session' : Session P} (htask : session.jobs[job]? = some task)
    {task' : JobTask P} (hjobs : session'.jobs = session.jobs.set job task') {more : Nat}
    (hchannel : session'.channel.length = session.channel.length + more)
    (hrank : task'.rank + more < task.rank) : session'.remaining < session.remaining := by
  have hsum := Lists.sum_set (f := JobTask.rank) htask task'
  rw [remaining, remaining, hjobs]
  omega

theorem JobStep.remaining_lt {action : JobTask.Action} (htask : session.jobs[job]? = some task)
    (h : JobStep config session job task action session') :
    session'.remaining < session.remaining := by
  cases h with
  | parsed hphase | invalid hphase | acquire hphase | complete hphase | panic hphase | release hphase
  | snapshot hphase | unreported hphase | resume hphase =>
    refine rank_setJob htask rfl (Nat.add_zero _).symm ?_
    simp [JobTask.rank, hphase]
  | report hphase hwriting =>
    rw [Session.send, if_pos hwriting]
    refine rank_setJob htask rfl List.length_append ?_
    simp [JobTask.rank, hphase]

/-- Every step of a task brings the session closer to its end. -/
theorem Transition.remaining_lt {action : Action} (hinternal : action.internal = true)
    (h : Transition config codec session action session') :
    session'.remaining < session.remaining := by
  cases h with
  | job htask _ hstep => exact hstep.remaining_lt htask
  | join _ htask hphase =>
    refine rank_setJob htask rfl (Nat.add_zero _).symm ?_
    simp [JobTask.rank, hphase]
  | joinError _ htask hphase =>
    refine rank_setJob htask rfl (Nat.add_zero _).symm ?_
    rcases hphase with hphase | hphase <;> simp [JobTask.rank, hphase]
  | write _ _ hchannel =>
    rw [writeNext, remaining, remaining, hchannel]
    split <;> simp
  | shutdown | unsent | drained | undrained | writerStopped | receive | broken | heartbeat =>
    cases hinternal

/-- A task of a healthy session that holds a slot or waits for none can take a step. -/
theorem Healthy.enabled (h : session.Healthy codec) (hsound : session.Sound config)
    (htask : session.jobs[job]? = some task) (hjoined : task.phase ≠ .joined)
    (hacquires : ∀ payload, task.phase = .acquiring payload → session.permits ≠ 0) :
    ∃ action, action.internal = true ∧ session.step config codec action ≠ none := by
  have hlive : session.returned = false := by simp [Session.returned, h.serve]
  have hjob : ∀ action : JobTask.Action, session.stepJob config job task action ≠ none →
      ∃ action, action.internal = true ∧ session.step config codec action ≠ none := by
    intro action henabled
    refine ⟨.job job action, rfl, ?_⟩
    simpa [step, htask, hlive] using henabled
  cases hphase : task.phase with
  | spawned => exact hjob .parse (by simp [stepJob, hphase])
  | acquiring payload =>
    have hfree := hacquires payload hphase
    exact hjob .acquire (by simp [stepJob, hphase, hfree])
  | handling => exact hjob (.complete (.ok [])) (by simp [stepJob, hphase])
  | releasing => exact hjob .release (by simp [stepJob, hphase])
  | reporting => exact hjob .snapshot (by simp [stepJob, hphase])
  | sending =>
    exact hjob .report (by simp [stepJob, hphase, Session.send, h.writing])
  | awaiting =>
    have hconsistent := hsound.consistent task (List.mem_of_getElem? htask)
    simp only [JobTask.Consistent, hphase] at hconsistent
    obtain ⟨ack, hack⟩ := Option.ne_none_iff_exists'.mp hconsistent
    rcases hsound.sent_of_ack h.writing (List.mem_of_getElem? htask) hack with
      hwritten | ⟨-, hwaiting⟩
    · exact hjob .resume (by simp [stepJob, hphase, hack, hwritten])
    · obtain ⟨frame, rest, hchannel⟩ := List.exists_cons_of_ne_nil hwaiting
      exact ⟨.write true, rfl, by simp [step, h.serve, h.writing, hchannel]⟩
  | finished result =>
    cases result with
    | ok value => exact ⟨.join job, rfl, by simp [step, htask, h.serve, joinTask, hphase]⟩
    | error error =>
      exact absurd hphase ((h.tasks task (List.mem_of_getElem? htask)).2 error)
  | panicked => exact absurd hphase (h.tasks task (List.mem_of_getElem? htask)).1
  | joined => exact absurd hphase hjoined

/-- A healthy session that cannot go on has joined every job. -/
theorem Healthy.joined (h : session.Healthy codec) (hsound : session.Sound config)
    (hquiescent : session.Quiescent config codec) :
    ∀ task ∈ session.jobs, task.phase = .joined := by
  have hstuck : ∀ {task}, task ∈ session.jobs →
      (∀ payload, task.phase = .acquiring payload → session.permits ≠ 0) →
      task.phase = .joined := by
    intro task htask hacquires
    by_contra hjoined
    obtain ⟨job, hjob⟩ := List.getElem?_of_mem htask
    obtain ⟨action, hinternal, henabled⟩ := h.enabled hsound hjob hjoined hacquires
    exact henabled (hquiescent action hinternal)
  -- if no slot is free, some task holds one
  have hfree : session.permits ≠ 0 := by
    intro hzero
    have hslots := hsound.slots
    have hnone : (session.jobs.map JobTask.slots).sum = 0 := by
      refine List.sum_eq_zero fun slots hmem => ?_
      obtain ⟨holder, hholder, rfl⟩ := List.mem_map.mp hmem
      by_contra hholds
      have hjoined := hstuck hholder fun payload hphase => by simp [JobTask.slots, hphase] at hholds
      simp [JobTask.slots, hjoined] at hholds
    have := config.nonzero
    omega
  exact fun task htask => hstuck htask fun _ _ => hfree

theorem step_write (config : Config P) (codec : Codec) (hserve : session.serve = .selecting)
    (hwriting : session.writing = true) {frame : OutboundFrame} {rest : List OutboundFrame}
    (hchannel : session.channel = frame :: rest) (accepted : Bool) :
    session.step config codec (.write accepted) =
      some (session.writeNext codec frame rest accepted, ()) := by
  simp [step, hserve, hwriting, hchannel]

end Progress

/-- While every result can be encoded, whatever the handlers return and in whatever order: `serve`
goes on, no dispatch has two results, every step of a task brings the session closer to its end, and
when no task can go on each dispatch that was read has exactly one result, under its own ids. -/
theorem one_result_per_dispatch (config : Config P) (codec : Codec)
    (hheartbeat : Encodes codec .heartbeat) (session : Session P)
    (h : Runs.Reachable (step config codec) (fun session action =>
      undisturbed config action = true ∧ session.reportsEncodable config codec action = true)
      (initial config) session) :
    session.serve = .selecting ∧
    (session.written.filterMap WorkerMessage.resultIds).Subperm
      (session.received.filterMap WorkerMessage.dispatchIds) ∧
    (∀ action session' event, action.internal = true →
      session.step config codec action = some (session', event) →
      session'.remaining < session.remaining) ∧
    (session.Quiescent config codec → (session.written.filterMap WorkerMessage.resultIds).Perm
      (session.received.filterMap WorkerMessage.dispatchIds)) := by
  have hsound := reachable_sound h
  obtain ⟨events, hrun⟩ := h
  have hhealthy : session.Healthy codec := by
    refine (hrun.invariant (fun session => session.Sound config ∧ session.Healthy codec)
      ⟨initial_sound config, rfl, rfl, rfl, by simp [initial], by simp [initial]⟩ ?_).2
    intro before after action event hinv hok hstep
    have htransition := step_transition hstep
    exact ⟨htransition.sound hinv.1,
      htransition.healthy hheartbeat hinv.2 hinv.1 hok.1 hok.2⟩
  have hunfailed := unfailed_of_selecting hhealthy.serve
  rw [← hsound.spawned hunfailed]
  refine ⟨hhealthy.serve, hsound.results_subperm, fun action session' event hinternal hstep =>
    (step_transition hstep).remaining_lt hinternal, fun hquiescent => ?_⟩
  exact hsound.results_perm fun task htask =>
    hsound.joined hunfailed task htask (hhealthy.joined hsound hquiescent task htask)

/-- Two jobs, the second with a payload that is no JSON. -/
def reportedActions : List Action :=
  [.receive (.ok (.registered "mail")), .receive (.ok (.jobDispatch 1 "a" 1 [1])),
    .receive (.ok (.jobDispatch 2 "b" 1 [])), .job 0 .parse, .job 1 .parse, .job 0 .acquire,
    .job 1 .snapshot, .job 1 .report, .job 0 (.complete (.ok [9])), .write true, .job 0 .release,
    .job 0 .snapshot, .job 1 .resume, .join 1, .job 0 .report, .write true, .job 0 .resume, .join 0]

def reportedRun : Option (Session (List UInt8)) :=
  (Runs.exec (step mailConfig (Codec.cbor [])) (fun session action =>
    undisturbed mailConfig action = true ∧
      session.reportsEncodable mailConfig (Codec.cbor []) action = true) (initial mailConfig)
    reportedActions).map Prod.fst

theorem reportedRun_isSome : reportedRun.isSome := by decide +kernel

theorem one_result_per_dispatch_reported :
    (reportedRun.get reportedRun_isSome).serve = .selecting ∧
    (reportedRun.get reportedRun_isSome).written.filterMap WorkerMessage.resultIds =
      [(2, "b"), (1, "a")] := by
  have hreach : Runs.Reachable (step mailConfig (Codec.cbor [])) (fun session action =>
      undisturbed mailConfig action = true ∧
        session.reportsEncodable mailConfig (Codec.cbor []) action = true) (initial mailConfig)
      (reportedRun.get reportedRun_isSome) :=
    Runs.Reachable.of_exec reportedActions (Option.some_get _).symm
  exact ⟨(one_result_per_dispatch mailConfig (Codec.cbor []) (by decide +kernel) _ hreach).1,
    by decide +kernel⟩

/-- Two jobs run, and the first has a result of any size to report. -/
def resultActions (payload : List UInt8) : List Action :=
  [.receive (.ok (.jobDispatch 1 "a" 1 [1])), .receive (.ok (.jobDispatch 2 "b" 1 [2])),
    .job 0 .parse, .job 0 .acquire, .job 1 .parse, .job 1 .acquire, .job 0 (.complete (.ok payload)),
    .job 0 .release, .job 0 .snapshot, .job 0 .report]

def resultRun (payload : List UInt8) : Option (Session (List UInt8)) :=
  (Runs.exec (step mailConfig (Codec.cbor [])) (fun _ action => undisturbed mailConfig action = true)
    (initial mailConfig) (resultActions payload)).map Prod.fst

theorem resultRun_isSome (payload : List UInt8) : (resultRun payload).isSome := by
  with_unfolding_all rfl

theorem resultRun_channel (payload : List UInt8) :
    ((resultRun payload).get (resultRun_isSome payload)).serve = .selecting ∧
    ((resultRun payload).get (resultRun_isSome payload)).writing = true ∧
    ((resultRun payload).get (resultRun_isSome payload)).channel =
      [⟨.jobResult 1 "a" (.succeeded payload) (saturatingSub32 2 (UInt32.ofNat 1)) (UInt32.ofNat 1),
        some 0⟩] := by
  refine ⟨?_, ?_, ?_⟩
  all_goals with_unfolding_all rfl

/-- A result that cannot be encoded ends the session with both jobs unreported. -/
theorem result_ends_session {payload : List UInt8}
    (hfails : ∀ runningJobs freeSlots, ¬ Encodes (Codec.cbor [])
      (.jobResult 1 "a" (.succeeded payload) runningJobs freeSlots)) :
    ∃ session, Runs.Reachable (step mailConfig (Codec.cbor []))
        (fun _ action => undisturbed mailConfig action = true) (initial mailConfig) session ∧
      session.serve = .returned (.error .stopped) ∧
      session.received.filterMap WorkerMessage.dispatchIds = [(1, "a"), (2, "b")] ∧
      session.written.filterMap WorkerMessage.resultIds = [] := by
  have hreach : Runs.Reachable (step mailConfig (Codec.cbor []))
      (fun _ action => undisturbed mailConfig action = true) (initial mailConfig)
      ((resultRun payload).get (resultRun_isSome payload)) :=
    Runs.Reachable.of_exec _ (Option.some_get _).symm
  have hwrite := step_write mailConfig (Codec.cbor []) (resultRun_channel payload).1
    (resultRun_channel payload).2.1 (resultRun_channel payload).2.2 true
  rw [writeNext, if_neg fun hboth => hfails _ _ hboth.2] at hwrite
  obtain ⟨broken, hbroken, hserve, hwriting, hreceived, hwritten⟩ :
      ∃ broken : Session (List UInt8), step mailConfig (Codec.cbor [])
          ((resultRun payload).get (resultRun_isSome payload)) (.write true) = some (broken, ()) ∧
        broken.serve = .selecting ∧ broken.writing = false ∧
        broken.received.filterMap WorkerMessage.dispatchIds = [(1, "a"), (2, "b")] ∧
        broken.written.filterMap WorkerMessage.resultIds = [] := by
    refine ⟨_, hwrite, ?_, ?_, ?_, ?_⟩
    all_goals with_unfolding_all rfl
  have hstopped : broken.step mailConfig (Codec.cbor []) .writerStopped =
      some (broken.fail .stopped, ()) := by
    simp [step, hserve, hwriting]
  exact ⟨_, (hreach.run (.one rfl hbroken)).run (.one rfl hstopped), rfl, hreceived, hwritten⟩

/-- A handler returns more bytes than a frame holds: the session ends with an error, and the other
job, which was running, is never reported. -/
theorem oversized_result_stops_jobs :
    ∃ session, Runs.Reachable (step mailConfig (Codec.cbor []))
        (fun _ action => undisturbed mailConfig action = true) (initial mailConfig) session ∧
      session.Quiescent mailConfig (Codec.cbor []) ∧
      session.received.filterMap WorkerMessage.dispatchIds = [(1, "a"), (2, "b")] ∧
      ¬ (session.written.filterMap WorkerMessage.resultIds).Perm
        (session.received.filterMap WorkerMessage.dispatchIds) := by
  have hfails : ∀ runningJobs freeSlots, ¬ Encodes (Codec.cbor []) (.jobResult 1 "a"
      (.succeeded (List.replicate (maxFrameBytes + 1) 0)) runningJobs freeSlots) := by
    intro runningJobs freeSlots
    refine not_encodes_cbor (Nat.lt_of_lt_of_le ?_ (Cbor.length_result_le _ _ _ _ _ _))
    rw [List.length_replicate]
    exact Nat.lt_succ_self _
  obtain ⟨session, hreach, hserve, hreceived, hwritten⟩ := result_ends_session hfails
  refine ⟨session, hreach, fun action hinternal => ?_, hreceived, ?_⟩
  · cases action with
    | join job => cases htask : session.jobs[job]? <;> simp [step, hserve, htask]
    | job job action => cases htask : session.jobs[job]? <;> simp [step, returned, hserve, htask]
    | write accepted => simp [step, hserve]
    | shutdown | drainWritten | writerStopped | receive | heartbeat => cases hinternal
  · rw [hwritten, hreceived]
    simp

end Session

end Maqistor.Sdk
