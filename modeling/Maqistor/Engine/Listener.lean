import Maqistor.Dispatcher.Ownership
import Maqistor.Lib.Broadcast

/-! The way of a worker's result to the store: a handler reads the frame and sends an event, the
listener of `start_result_listener` receives it and spawns a task, and the task calls
`complete_worker_result`. The events go through the broadcast channel of the registry, which drops
the oldest one when it is full. -/

namespace Maqistor

/-- The capacity of the registry's channel. -/
def registryCapacity : Nat := 65536

/-- What a result frame says, and what the store is called with. -/
structure WorkerResult where
  jobId : Int
  dispatchId : String
  outcome : JobOutcome
deriving DecidableEq, Repr

def WorkerEvent.workerResult : WorkerEvent → Option WorkerResult
  | .registered _ => none
  | .result _ jobId dispatchId outcome => some ⟨jobId, dispatchId, outcome⟩

/-- The connection whose handler a step belongs to, where it can send an event. -/
def Server.Action.handler? : Server.Action → Option Nat
  | .read connection _ => some connection
  | .acknowledge connection => some connection
  | _ => none

/-- A result frame that the loop of `handle_worker` reads in a step. -/
def Server.resultFrame (server : Server) : Server.Action → Option WorkerResult
  | .read connection (.frame (.jobResult jobId dispatchId result _ _)) =>
    match (server.connections[connection]?).map Connection.handler with
    | some (.serving _) => some ⟨jobId, dispatchId, result.outcome⟩
    | _ => none
  | _ => none

/-- The server, the events that handlers have made and not sent yet, the channel to the listener and
the tasks that it has spawned, with the history: the result frames that were read, the calls of
`complete_worker_result` and the queues that were scheduled. -/
structure Listening where
  server : Server
  sending : List (Nat × WorkerEvent)
  channel : Broadcast WorkerEvent
  tasks : List (String × WorkerResult)
  frames : List WorkerResult
  calls : List WorkerResult
  scheduled : List String

inductive Listening.Action where
  | server (action : Server.Action)
  /-- A handler sends its event. -/
  | send (i : Nat)
  /-- The listener's `recv` returns. -/
  | receive
  /-- A task calls the store, which answers whether the job is pending again. -/
  | complete (i : Nat) (pending : Bool)

/-- A worker that a handler serves is in the registry. -/
theorem Server.Owned.lookup_serving {server : Server} (h : server.Owned) {connection : Nat}
    {conn : Connection} {instanceId : Uuid} (hconn : server.connections[connection]? = some conn)
    (hhandler : conn.handler = .serving instanceId) :
    ∃ state, server.workers.lookup instanceId = some state := by
  have howner : server.owner instanceId = some connection := by
    refine h.entry ?_ (show (Handler.serving instanceId).instance? = some instanceId from rfl)
    rw [handlers, List.getElem?_map, hconn, Option.map_some, hhandler]
  obtain ⟨state, hstate, -⟩ := Option.map_eq_some_iff.mp howner
  exact ⟨state, hstate⟩

/-- Every result frame that a handler reads becomes an event, and nothing else becomes a result. -/
theorem Server.Owned.event_resultFrame {codec : Codec} {allowed : List String}
    {server server' : Server} (h : server.Owned) {action : Server.Action}
    {event : Option WorkerEvent} (hstep : Transition codec allowed server action server' event) :
    event.bind WorkerEvent.workerResult = server.resultFrame action := by
  cases hstep with
  | readFirst hconn hhandler =>
    unfold resultFrame
    split
    · next hread =>
      cases hread
      rw [hconn, Option.map_some, hhandler]
      rfl
    · rfl
  | @readNext c conn instanceId input hconn hhandler =>
    obtain ⟨state, hstate⟩ := h.lookup_serving hconn hhandler
    unfold readNext resultFrame
    cases input with
    | failed => rfl
    | frame message =>
      simp only [hstate]
      cases message <;> simp [hconn, hhandler, WorkerEvent.workerResult]
  | _ => rfl

namespace Listening

/-- The listener has subscribed and no worker has connected. -/
def initial : Listening :=
  { server := .initial, sending := [], channel := .empty, tasks := [], frames := [], calls := []
    scheduled := [] }

/-- A handler sends its event before it reads on. -/
def holdsBack (sys : Listening) (action : Server.Action) : Bool :=
  action.handler?.any fun connection => connection ∈ sys.sending.map Prod.fst

/-- The body of the listener's loop. -/
def handleEvent (sys : Listening) : Broadcast.Received WorkerEvent → Listening
  | .value (.registered queueName) => { sys with scheduled := sys.scheduled ++ [queueName] }
  | .value (.result queueName jobId dispatchId outcome) =>
    { sys with
      tasks := sys.tasks ++ [(queueName, ⟨jobId, dispatchId, outcome⟩)]
      scheduled := sys.scheduled ++ [queueName] }
  | .lagged _ => sys

def step (codec : Codec) (allowed : List String) (capacity : Nat) (sys : Listening) :
    Action → Option (Listening × Unit)
  | .server action =>
    if sys.holdsBack action then none
    else do
      let (server, event) ← sys.server.step codec allowed action
      some ({ sys with
        server := server
        sending := sys.sending ++ (event.map fun event => (action.handler?.getD 0, event)).toList
        frames := sys.frames ++ (sys.server.resultFrame action).toList }, ())
  | .send i => do
    let (_, event) ← sys.sending[i]?
    some ({ sys with
      sending := sys.sending.eraseIdx i
      channel := sys.channel.send capacity event }, ())
  | .receive => do
    let (received, channel) ← sys.channel.recv
    some ({ sys with channel := channel }.handleEvent received, ())
  | .complete i pending => do
    let (queueName, result) ← sys.tasks[i]?
    some ({ sys with
      tasks := sys.tasks.eraseIdx i
      calls := sys.calls ++ [result]
      scheduled := if pending then sys.scheduled ++ [queueName] else sys.scheduled }, ())

/-- The results that are on their way to the store. -/
def inTransit (sys : Listening) : List WorkerResult :=
  sys.tasks.map Prod.snd ++ sys.channel.unread.filterMap WorkerEvent.workerResult ++
    (sys.sending.map Prod.snd).filterMap WorkerEvent.workerResult

/-- The results that the channel has overwritten. -/
def dropped (sys : Listening) : List WorkerResult :=
  sys.channel.overwritten.filterMap WorkerEvent.workerResult

/-! ### The transitions -/

/-- What a step can be. -/
inductive Move (codec : Codec) (allowed : List String) (capacity : Nat) (sys : Listening) :
    Action → Listening → Prop
  | server {action : Server.Action} {server : Server} {event : Option WorkerEvent}
      (hstep : Server.Transition codec allowed sys.server action server event) :
      Move codec allowed capacity sys (.server action) { sys with
        server := server
        sending := sys.sending ++ (event.map fun event => (action.handler?.getD 0, event)).toList
        frames := sys.frames ++ (sys.server.resultFrame action).toList }
  | send {i connection : Nat} {event : WorkerEvent}
      (hevent : sys.sending[i]? = some (connection, event)) :
      Move codec allowed capacity sys (.send i) { sys with
        sending := sys.sending.eraseIdx i
        channel := sys.channel.send capacity event }
  | receive {event : WorkerEvent} {rest : List WorkerEvent}
      (hunread : sys.channel.unread = event :: rest) :
      Move codec allowed capacity sys .receive
        ({ sys with channel := { sys.channel with unread := rest } }.handleEvent (.value event))
  | lagged (hmissed : 0 < sys.channel.missed) : Move codec allowed capacity sys .receive
      { sys with channel := { sys.channel with missed := 0 } }
  | complete {i : Nat} {pending : Bool} {queueName : String} {result : WorkerResult}
      (htask : sys.tasks[i]? = some (queueName, result)) :
      Move codec allowed capacity sys (.complete i pending) { sys with
        tasks := sys.tasks.eraseIdx i
        calls := sys.calls ++ [result]
        scheduled := if pending then sys.scheduled ++ [queueName] else sys.scheduled }

section Step

variable {codec : Codec} {allowed : List String} {capacity : Nat} {sys sys' : Listening}
  {action : Action} {event : Unit}

theorem step_move (h : sys.step codec allowed capacity action = some (sys', event)) :
    Move codec allowed capacity sys action sys' := by
  cases action with
  | server action =>
    simp only [step] at h
    split at h
    · cases h
    · obtain ⟨⟨server, event⟩, hstep, heq⟩ := Option.bind_eq_some_iff.mp h
      cases heq
      exact .server (Server.step_transition hstep)
  | send i =>
    obtain ⟨⟨connection, event⟩, hevent, heq⟩ := Option.bind_eq_some_iff.mp h
    cases heq
    exact .send hevent
  | receive =>
    obtain ⟨⟨received, channel⟩, hrecv, heq⟩ := Option.bind_eq_some_iff.mp h
    cases heq
    rcases Broadcast.recv_cases hrecv with ⟨hmissed, rfl, rfl⟩ | ⟨event, rest, hunread, rfl, rfl⟩
    · exact .lagged hmissed
    · exact .receive hunread
  | complete i pending =>
    obtain ⟨⟨queueName, result⟩, htask, heq⟩ := Option.bind_eq_some_iff.mp h
    cases heq
    exact .complete htask

end Step

/-! ### Conservation -/

/-- Every result frame that was read has led to a call, is on its way to one, or was overwritten. -/
structure Conserved (sys : Listening) : Prop where
  owned : sys.server.Owned
  results : sys.frames.Perm (sys.calls ++ sys.inTransit ++ sys.dropped)

theorem initial_conserved : initial.Conserved :=
  ⟨Server.initial_owned, .nil⟩

section Conserved

variable {codec : Codec} {allowed : List String} {capacity : Nat} {sys sys' : Listening}
  {action : Action}

/-- The results of some events, with one of them apart. -/
theorem count_workerResult {events more : List WorkerEvent} {event : WorkerEvent}
    (h : events.Perm (event :: more)) (result : WorkerResult) :
    (events.filterMap WorkerEvent.workerResult).count result =
      event.workerResult.toList.count result +
        (more.filterMap WorkerEvent.workerResult).count result := by
  rw [(h.filterMap WorkerEvent.workerResult).count_eq, List.filterMap_cons]
  cases event.workerResult with
  | none => simp
  | some other => simp [List.count_cons, Nat.add_comm]

theorem move_conserved (h : sys.Conserved) (hmove : Move codec allowed capacity sys action sys') :
    sys'.Conserved := by
  have hcount := List.perm_iff_count.mp h.results
  simp only [inTransit, dropped, List.count_append] at hcount
  cases hmove with
  | @server action server event hstep =>
    refine ⟨Server.transition_owned h.owned hstep, List.perm_iff_count.mpr fun result => ?_⟩
    have hevents : ((event.map fun event => (action.handler?.getD 0, event)).toList.map
        Prod.snd).filterMap WorkerEvent.workerResult = (sys.server.resultFrame action).toList := by
      rw [← h.owned.event_resultFrame hstep]
      cases event with
      | none => rfl
      | some event => cases event <;> rfl
    simp only [inTransit, dropped, List.map_append, List.filterMap_append, hevents, List.count_append,
      hcount result]
    omega
  | @send i connection event hevent =>
    refine ⟨h.owned, List.perm_iff_count.mpr fun result => ?_⟩
    have hsending := count_workerResult ((Lists.perm_eraseIdx hevent).map Prod.snd) result
    dsimp only at hsending
    have hchannel := count_workerResult (Broadcast.send_perm capacity event sys.channel) result
    simp only [List.filterMap_append, List.count_append] at hchannel
    simp only [inTransit, dropped, List.count_append, hcount result]
    omega
  | @receive event rest hunread =>
    have hrest := count_workerResult (List.Perm.of_eq hunread)
    cases event with
    | registered queueName =>
      refine ⟨h.owned, List.perm_iff_count.mpr fun result => ?_⟩
      have hnone := hrest result
      simp only [WorkerEvent.workerResult, Option.toList_none, List.count_nil] at hnone
      simp only [handleEvent, inTransit, dropped, List.count_append, hcount result]
      omega
    | result queueName jobId dispatchId outcome =>
      refine ⟨h.owned, List.perm_iff_count.mpr fun result => ?_⟩
      have hone := hrest result
      simp only [WorkerEvent.workerResult, Option.toList_some] at hone
      simp only [handleEvent, inTransit, dropped, List.map_append, List.map_cons, List.map_nil,
        List.count_append, hcount result]
      omega
  | lagged hmissed => exact ⟨h.owned, h.results⟩
  | complete htask =>
    refine ⟨h.owned, List.perm_iff_count.mpr fun result => ?_⟩
    have htasks := ((Lists.perm_eraseIdx htask).map Prod.snd).count_eq result
    rw [List.map_cons, ← List.singleton_append, List.count_append] at htasks
    dsimp only at htasks
    simp only [inTransit, dropped, List.count_append, hcount result]
    omega

theorem reachable_conserved {admits : Listening → Action → Prop}
    (h : Runs.Reachable (step codec allowed capacity) admits initial sys) : sys.Conserved := by
  obtain ⟨events, hrun⟩ := h
  exact hrun.invariant Conserved initial_conserved
    fun hinv _ hstep => move_conserved hinv (step_move hstep)

end Conserved

/-! ### Runs that overwrite no result -/

/-- The result that a step overwrites: a send to a full channel whose oldest value is a result. -/
def overwrites (capacity : Nat) (sys : Listening) : Action → Option WorkerResult
  | .send _ =>
    if sys.channel.unread.length < capacity then none
    else sys.channel.unread.head?.bind WorkerEvent.workerResult
  | _ => none

section Overwritten

variable {codec : Codec} {allowed : List String} {capacity : Nat} {sys sys' : Listening}
  {action : Action}

theorem handleEvent_channel (sys : Listening) (received : Broadcast.Received WorkerEvent) :
    (sys.handleEvent received).channel = sys.channel := by
  unfold handleEvent
  split <;> rfl

theorem move_dropped (hmove : Move codec allowed capacity sys action sys') :
    sys'.dropped = sys.dropped ++ (sys.overwrites capacity action).toList := by
  cases hmove with
  | @send i connection event hevent =>
    simp only [dropped, overwrites, Broadcast.send_overwritten]
    split
    · simp
    · cases sys.channel.unread with
      | nil => simp
      | cons oldest rest => cases hresult : oldest.workerResult <;> simp [hresult]
  | receive hunread =>
    rw [dropped, handleEvent_channel]
    exact (List.append_nil _).symm
  | _ => exact (List.append_nil _).symm

/-- A state of any run has lost no result exactly when a run leads to it that overwrites none. -/
theorem dropped_nil_iff
    (h : Runs.Reachable (step codec allowed capacity) (fun _ _ => True) initial sys) :
    sys.dropped = [] ↔ Runs.Reachable (step codec allowed capacity)
      (fun sys action => sys.overwrites capacity action = none) initial sys := by
  constructor
  · obtain ⟨events, hrun⟩ := h
    refine hrun.invariant (fun sys => sys.dropped = [] → Runs.Reachable _ _ initial sys)
      (fun _ => ⟨[], .refl _⟩) ?_
    intro sys sys' action event ih _ hstep hdropped
    rw [move_dropped (step_move hstep), List.append_eq_nil_iff, Option.toList_eq_nil_iff] at hdropped
    exact (ih hdropped.1).run (.one hdropped.2 hstep)
  · rintro ⟨events, hrun⟩
    refine hrun.invariant (fun sys => sys.dropped = []) rfl ?_
    intro sys sys' action event hdropped hkeeps hstep
    rw [move_dropped (step_move hstep), hdropped, hkeeps]
    rfl

/-- What was read is what the store was called with and what is on its way, exactly when nothing was
overwritten. -/
theorem Conserved.frames_perm_iff (h : sys.Conserved) :
    sys.frames.Perm (sys.calls ++ sys.inTransit) ↔ sys.dropped = [] := by
  constructor
  · intro hperm
    have hlength := (hperm.symm.trans h.results).length_eq
    simp only [List.length_append] at hlength
    exact List.eq_nil_of_length_eq_zero (by omega)
  · intro hdropped
    have hresults := h.results
    rwa [hdropped, List.append_nil] at hresults

end Overwritten

section Arrival

variable {codec : Codec} {allowed : List String} {capacity : Nat} {sys sys' : Listening}
  {action : Action}

/-! ### Results on their way arrive -/

/-- A step of the handlers' sends, of the listener or of a task: everything but the server. -/
def Action.carries : Action → Bool
  | .server _ => false
  | _ => true

/-- How many such steps are left, at most. -/
def work (sys : Listening) : Nat :=
  4 * sys.sending.length + 2 * sys.channel.unread.length + sys.channel.missed + sys.tasks.length

/-- No such step is possible. -/
def AtRest (codec : Codec) (allowed : List String) (capacity : Nat) (sys : Listening) : Prop :=
  ∀ action : Action, action.carries = true → sys.step codec allowed capacity action = none

theorem send_work (capacity : Nat) (event : WorkerEvent) (channel : Broadcast WorkerEvent) :
    2 * (channel.send capacity event).unread.length + (channel.send capacity event).missed ≤
      2 * channel.unread.length + channel.missed + 3 := by
  unfold Broadcast.send
  split
  · simp only [List.length_append, List.length_singleton]
    omega
  · simp only [List.length_append, List.length_singleton, List.length_drop]
    omega

/-- A step that carries results on reads no frame, and leaves less to do. -/
theorem move_work (hcarries : action.carries = true)
    (hmove : Move codec allowed capacity sys action sys') :
    sys'.frames = sys.frames ∧ sys'.work < sys.work := by
  cases hmove with
  | server hstep => cases hcarries
  | @send i connection event hevent =>
    have hsend := send_work capacity event sys.channel
    have hlength := (Lists.perm_eraseIdx hevent).length_eq
    rw [List.length_cons] at hlength
    refine ⟨rfl, ?_⟩
    simp only [work]
    omega
  | @receive event rest hunread =>
    cases event with
    | registered queueName =>
      refine ⟨rfl, ?_⟩
      simp only [work, handleEvent, hunread, List.length_cons]
      omega
    | result queueName jobId dispatchId outcome =>
      refine ⟨rfl, ?_⟩
      simp only [work, handleEvent, hunread, List.length_cons, List.length_append, List.length_nil]
      omega
  | lagged hmissed =>
    refine ⟨rfl, ?_⟩
    simp only [work]
    omega
  | complete htask =>
    have hlength := (Lists.perm_eraseIdx htask).length_eq
    rw [List.length_cons] at hlength
    refine ⟨rfl, ?_⟩
    simp only [work]
    omega

/-- A run that only carries results on comes to an end. -/
theorem run_work {admits : Listening → Action → Prop}
    (hadmits : ∀ sys action, admits sys action → action.carries = true) {events : List Unit}
    (h : Runs.Run (step codec allowed capacity) admits sys events sys') :
    sys'.frames = sys.frames ∧ events.length + sys'.work ≤ sys.work := by
  induction h with
  | refl => exact ⟨rfl, by simp⟩
  | step _ hok hstep ih =>
    obtain ⟨hframes, hless⟩ := move_work (hadmits _ _ hok) (step_move hstep)
    refine ⟨hframes.trans ih.1, ?_⟩
    rw [List.length_append, List.length_singleton]
    omega

theorem AtRest.inTransit (h : sys.AtRest codec allowed capacity) : sys.inTransit = [] := by
  have hsending : sys.sending = [] := by
    cases hlist : sys.sending with
    | nil => rfl
    | cons item rest =>
      have hnone := h (.send 0) rfl
      simp [step, hlist] at hnone
  have hunread : sys.channel.unread = [] := by
    have hnone := h .receive rfl
    refine Broadcast.unread_of_recv_none ?_
    cases hrecv : sys.channel.recv with
    | none => rfl
    | some result => simp [step, hrecv] at hnone
  have htasks : sys.tasks = [] := by
    cases hlist : sys.tasks with
    | nil => rfl
    | cons item rest =>
      have hnone := h (.complete 0 false) rfl
      simp [step, hlist] at hnone
  rw [Listening.inTransit, hsending, hunread, htasks]
  rfl

/-- What is left to do goes on: a channel without room has something to read. -/
theorem exists_carries_of_not_atRest (hcapacity : 0 < capacity)
    (h : ¬sys.AtRest codec allowed capacity) :
    ∃ action sys', (sys.overwrites capacity action = none ∧ action.carries = true) ∧
      sys.step codec allowed capacity action = some (sys', ()) := by
  simp only [AtRest, not_forall] at h
  obtain ⟨action, hcarries, hstep⟩ := h
  obtain ⟨⟨sys', ⟨⟩⟩, hstep⟩ := Option.ne_none_iff_exists'.mp hstep
  by_cases hkeeps : sys.overwrites capacity action = none
  · exact ⟨action, sys', ⟨hkeeps, hcarries⟩, hstep⟩
  · have hfull : capacity ≤ sys.channel.unread.length := by
      cases action with
      | send i =>
        rw [overwrites] at hkeeps
        split at hkeeps
        · exact absurd rfl hkeeps
        · omega
      | _ => exact absurd rfl hkeeps
    cases hrecv : sys.channel.recv with
    | none =>
      rw [Broadcast.unread_of_recv_none hrecv] at hfull
      exact absurd hcapacity (Nat.not_lt.mpr hfull)
    | some result =>
      refine ⟨.receive, { sys with channel := result.2 }.handleEvent result.1, ⟨rfl, rfl⟩, ?_⟩
      rw [step, hrecv]
      rfl

/-- No result is lost while none is overwritten. Each result frame that was read has led to one
call, or is on its way to it, exactly when a run without an overwritten result leads to the state;
and however the handlers, the listener and the tasks go on from there without overwriting one, they
go on until they are at rest, and then the calls are the frames. -/
theorem results_reach_store (codec : Codec) (allowed : List String) (sys : Listening)
    (h : Runs.Reachable (step codec allowed registryCapacity) (fun _ _ => True) initial sys) :
    (sys.frames.Perm (sys.calls ++ sys.inTransit) ↔
      Runs.Reachable (step codec allowed registryCapacity)
        (fun sys action => sys.overwrites registryCapacity action = none) initial sys) ∧
    (Runs.Reachable (step codec allowed registryCapacity)
        (fun sys action => sys.overwrites registryCapacity action = none) initial sys →
      ∀ events sys', Runs.Run (step codec allowed registryCapacity) (fun sys action =>
          sys.overwrites registryCapacity action = none ∧ action.carries = true) sys events sys' →
        events.length ≤ sys.work ∧
        (sys'.AtRest codec allowed registryCapacity → sys'.calls.Perm sys.frames) ∧
        (¬sys'.AtRest codec allowed registryCapacity → ∃ action sys'',
          (sys'.overwrites registryCapacity action = none ∧ action.carries = true) ∧
          sys'.step codec allowed registryCapacity action = some (sys'', ()))) := by
  have hlaw : ∀ {sys}, Runs.Reachable (step codec allowed registryCapacity) (fun _ _ => True) initial
      sys → (sys.frames.Perm (sys.calls ++ sys.inTransit) ↔
        Runs.Reachable (step codec allowed registryCapacity)
          (fun sys action => sys.overwrites registryCapacity action = none) initial sys) :=
    fun h => (reachable_conserved h).frames_perm_iff.trans (dropped_nil_iff h)
  refine ⟨hlaw h, fun hkeeps events sys' hrun => ?_⟩
  obtain ⟨hframes, hwork⟩ := run_work (fun _ _ hadmits => hadmits.2) hrun
  refine ⟨by omega, fun hrest => ?_, exists_carries_of_not_atRest (by decide)⟩
  have hkeeps' := hkeeps.run (hrun.mono fun _ _ hadmits => hadmits.1)
  have hend := (hlaw (h.run (hrun.mono fun _ _ _ => trivial))).mpr hkeeps'
  rw [hrest.inTransit, List.append_nil, hframes] at hend
  exact hend.symm

end Arrival

/-! ### A listener that lags behind -/

section Flood

variable {codec : Codec} {allowed : List String} {capacity : Nat} {sys sys' : Listening}
  {action : Action}

/-- The handlers, the listener and the tasks can come to rest, and what was dropped stays
dropped. -/
theorem exists_atRest (hcapacity : 0 < capacity) (sys : Listening) :
    ∃ events sys', Runs.Run (step codec allowed capacity) (fun _ _ => True) sys events sys' ∧
      sys'.AtRest codec allowed capacity ∧ sys.dropped <+: sys'.dropped := by
  generalize hwork : sys.work = n
  induction n using Nat.strongRecOn generalizing sys with
  | ind n ih =>
    by_cases hrest : sys.AtRest codec allowed capacity
    · exact ⟨[], sys, .refl sys, hrest, List.prefix_refl _⟩
    · obtain ⟨action, middle, ⟨-, hcarries⟩, hstep⟩ := exists_carries_of_not_atRest hcapacity hrest
      have hless := (move_work hcarries (step_move hstep)).2
      obtain ⟨events, sys', hrun, hend, hdropped⟩ := ih middle.work (hwork ▸ hless) middle rfl
      rw [move_dropped (step_move hstep)] at hdropped
      exact ⟨_, sys', (Runs.Run.one trivial hstep).trans hrun, hend,
        (List.prefix_append _ _).trans hdropped⟩

/-- A worker has been served, and the channel was given so many results, none of which was read. -/
structure Flooded (capacity sends : Nat) (sys : Listening) : Prop where
  serving : ∃ conn instanceId state, sys.server.connections[0]? = some conn ∧
    conn.handler = .serving instanceId ∧ sys.server.workers.lookup instanceId = some state
  sent : sys.sending = []
  results : ∀ event ∈ sys.channel.unread ++ sys.channel.overwritten, event.workerResult.isSome
  length : (sys.channel.unread ++ sys.channel.overwritten).length = sends
  bounded : sys.channel.unread.length ≤ capacity

theorem length_send (hcapacity : 0 < capacity) (event : WorkerEvent)
    {channel : Broadcast WorkerEvent} (h : channel.unread.length ≤ capacity) :
    (channel.send capacity event).unread.length ≤ capacity := by
  unfold Broadcast.send
  split
  · rw [List.length_append, List.length_singleton]
    omega
  · rw [List.length_append, List.length_drop, List.length_singleton]
    omega

/-- The handler reads another result and sends it, and the listener does not read. -/
theorem Flooded.more (hcapacity : 0 < capacity) {sends : Nat} (h : sys.Flooded capacity sends) :
    ∃ events sys', Runs.Run (step codec allowed capacity) (fun _ _ => True) sys events sys' ∧
      sys'.Flooded capacity (sends + 1) := by
  obtain ⟨conn, instanceId, state, hconn, hhandler, hstate⟩ := h.serving
  have hread : sys.step codec allowed capacity
      (.server (.read 0 (.frame (.jobResult 1 "a" (.succeeded []) 0 1)))) = some ({ sys with
        server := sys.server.recordResult 0 instanceId state "a" 0 1
        sending := [(0, .result state.queueName 1 "a" (.succeeded []))]
        frames := sys.frames ++ [⟨1, "a", .succeeded []⟩] }, ()) := by
    simp [step, holdsBack, Server.step, Server.readNext, Server.resultFrame, Server.Action.handler?,
      JobResult.outcome, h.sent, hconn, hhandler, hstate]
  have hsend : ({ sys with
        server := sys.server.recordResult 0 instanceId state "a" 0 1
        sending := [(0, .result state.queueName 1 "a" (.succeeded []))]
        frames := sys.frames ++ [⟨1, "a", .succeeded []⟩] } : Listening).step codec allowed capacity
      (.send 0) = some ({ sys with
        server := sys.server.recordResult 0 instanceId state "a" 0 1
        sending := []
        channel := sys.channel.send capacity (.result state.queueName 1 "a" (.succeeded []))
        frames := sys.frames ++ [⟨1, "a", .succeeded []⟩] }, ()) := rfl
  have hperm := Broadcast.send_perm capacity
    (WorkerEvent.result state.queueName 1 "a" (.succeeded [])) sys.channel
  refine ⟨_, _, (Runs.Run.one trivial hread).trans (.one trivial hsend), ⟨?_, rfl, ?_, ?_, ?_⟩⟩
  · exact ⟨conn, instanceId, _, hconn, hhandler, AList.lookup_insert _⟩
  · intro event hevent
    rcases List.mem_cons.mp (hperm.mem_iff.mp hevent) with rfl | hevent
    · rfl
    · exact h.results event hevent
  · rw [hperm.length_eq, List.length_cons, h.length]
  · exact length_send hcapacity _ h.bounded

theorem Flooded.many (hcapacity : 0 < capacity) (h : sys.Flooded capacity 0) (sends : Nat) :
    ∃ events sys', Runs.Run (step codec allowed capacity) (fun _ _ => True) sys events sys' ∧
      sys'.Flooded capacity sends := by
  induction sends with
  | zero => exact ⟨[], sys, .refl sys, h⟩
  | succ sends ih =>
    obtain ⟨events, middle, hrun, hmiddle⟩ := ih
    obtain ⟨events', sys', hrun', hmore⟩ := hmiddle.more hcapacity
    exact ⟨_, sys', hrun.trans hrun', hmore⟩

/-- More results than the channel holds: one of them has been overwritten. -/
theorem Flooded.dropped (h : sys.Flooded capacity (capacity + 1)) : sys.dropped ≠ [] := by
  have hlength := h.length
  rw [List.length_append] at hlength
  have hbounded := h.bounded
  cases hover : sys.channel.overwritten with
  | nil =>
    rw [hover, List.length_nil] at hlength
    omega
  | cons event rest =>
    have hevent := h.results event (by simp [hover])
    obtain ⟨result, hresult⟩ := Option.isSome_iff_exists.mp hevent
    rw [Listening.dropped, hover, List.filterMap_cons_some hresult]
    exact List.cons_ne_nil _ _

/-- A worker that is served while the listener is behind by more than the channel holds: a result is
never handed to the store. -/
theorem flood_loses_result (hcapacity : 0 < capacity) (h : sys.Flooded capacity 0)
    (hreach : Runs.Reachable (step codec allowed capacity) (fun _ _ => True) initial sys) :
    ∃ sys', Runs.Reachable (step codec allowed capacity) (fun _ _ => True) initial sys' ∧
      sys'.AtRest codec allowed capacity ∧ ¬sys'.calls.Perm sys'.frames := by
  obtain ⟨events, flooded, hrun, hflooded⟩ :=
    @Flooded.many codec allowed capacity sys hcapacity h (capacity + 1)
  obtain ⟨events', sys', hrun', hrest, hdropped⟩ :=
    @exists_atRest codec allowed capacity hcapacity flooded
  have hreach' := (hreach.run hrun).run hrun'
  refine ⟨sys', hreach', hrest, fun hperm => ?_⟩
  have hlength := (reachable_conserved hreach').results.length_eq
  rw [hrest.inTransit, List.append_nil, List.length_append, ← hperm.length_eq] at hlength
  have hnone : sys'.dropped = [] := List.eq_nil_of_length_eq_zero (by omega)
  rw [hnone] at hdropped
  exact hflooded.dropped (List.prefix_nil.mp hdropped)

end Flood

/-- A worker registers and the listener hears of it; then come some more steps. -/
def servedRun (more : List Action) : Option Listening :=
  (Runs.exec (step (Codec.cbor []) ["mail"] registryCapacity)
    (fun sys action => sys.overwrites registryCapacity action = none) initial
    ([.server .connect, .server (.read 0 (.frame (.register 7 "mail" 0 2))), .server (.register 0),
      .server (.announce 0), .server (.write 0 true), .server (.acknowledge 0), .send 0,
      .receive] ++ more)).map Prod.fst

/-- The worker sends a result, and it goes all the way. -/
def deliveredRun : Option Listening :=
  servedRun [.server (.read 0 (.frame (.jobResult 1 "a" (.succeeded [5]) 0 2))), .send 0, .receive,
    .complete 0 false]

theorem servedRun_isSome : (servedRun []).isSome := by decide +kernel

theorem deliveredRun_isSome : deliveredRun.isSome := by decide +kernel

theorem results_reach_store_delivered :
    (deliveredRun.get deliveredRun_isSome).calls = [⟨1, "a", .succeeded [5]⟩] ∧
    (deliveredRun.get deliveredRun_isSome).inTransit = [] ∧
    (deliveredRun.get deliveredRun_isSome).frames.Perm
      ((deliveredRun.get deliveredRun_isSome).calls ++
        (deliveredRun.get deliveredRun_isSome).inTransit) := by
  have hreach : Runs.Reachable (step (Codec.cbor []) ["mail"] registryCapacity)
      (fun sys action => sys.overwrites registryCapacity action = none) initial
      (deliveredRun.get deliveredRun_isSome) :=
    Runs.Reachable.of_exec _ (Option.some_get _).symm
  exact ⟨by decide +kernel, by decide +kernel,
    (results_reach_store (Codec.cbor []) ["mail"] _ (hreach.mono fun _ _ _ => trivial)).1.mpr hreach⟩

theorem servedRun_flooded :
    ((servedRun []).get servedRun_isSome).Flooded registryCapacity 0 := by
  have hunread : ((servedRun []).get servedRun_isSome).channel.unread = [] := by decide +kernel
  have hover : ((servedRun []).get servedRun_isSome).channel.overwritten = [] := by decide +kernel
  have hconn : (((servedRun []).get servedRun_isSome).server.connections[0]?).map
      Connection.handler = some (.serving 7) := by decide +kernel
  have hworker : (((servedRun []).get servedRun_isSome).server.workers.lookup 7).isSome := by
    decide +kernel
  obtain ⟨conn, hconn, hhandler⟩ := Option.map_eq_some_iff.mp hconn
  obtain ⟨state, hstate⟩ := Option.isSome_iff_exists.mp hworker
  refine ⟨⟨conn, 7, state, hconn, hhandler, hstate⟩, by decide +kernel, ?_, ?_, ?_⟩
  · simp [hunread, hover]
  · simp [hunread, hover]
  · simp [hunread]

/-- The worker sends 65537 results before the listener reads again: the channel overwrites the first
of them, and the store is called for the others only. -/
theorem lagging_listener_loses_result :
    ∃ sys, Runs.Reachable (step (Codec.cbor []) ["mail"] registryCapacity) (fun _ _ => True) initial
      sys ∧ sys.AtRest (Codec.cbor []) ["mail"] registryCapacity ∧ ¬sys.calls.Perm sys.frames := by
  have hreach : Runs.Reachable (step (Codec.cbor []) ["mail"] registryCapacity)
      (fun sys action => sys.overwrites registryCapacity action = none) initial
      ((servedRun []).get servedRun_isSome) :=
    Runs.Reachable.of_exec _ (Option.some_get _).symm
  exact flood_loses_result (by decide) servedRun_flooded (hreach.mono fun _ _ _ => trivial)

end Listening

end Maqistor
