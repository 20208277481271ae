import Maqistor.Dispatcher.Dispatches
import Maqistor.EndToEnd.Convergence
import Maqistor.Engine.Listener
import Maqistor.Sdk.Handling

/-! The server with its listener and all the workers that connect to it, in one start of the server.
A job goes as a frame to a worker, to its handler, and back as a result frame, an event and a call
of `complete_worker_result`: the handlers of all workers together are called once at most for a
dispatch id, with the payload of the job, and the store is only told what a handler returned. -/

namespace Maqistor

open Sdk

variable {P : Type}

/-- A worker on a connection: its session with the calls of its handler, and how many of its frames
the server has read. -/
structure Peer (P : Type) where
  config : Config P
  handling : Handling P
  connection : Nat
  read : Nat

/-- The server with a worker, as the two sides of a link. -/
def Peer.link (peer : Peer P) (server : Server) : Link P :=
  { server := server, session := peer.handling.session, connection := peer.connection
    read := peer.read }

/-- The running server, its workers, and the jobs that the engine has called `dispatch` with. -/
structure Fleet (P : Type) where
  listening : Listening
  peers : List (Peer P)
  handed : List Job

inductive Fleet.Action (P : Type) where
  | connect (config : Config P)
  /-- A step of the server's tasks that needs nothing from a worker. -/
  | listener (action : Listening.Action)
  /-- A worker reads the next frame of its connection. -/
  | toWorker (peer : Nat)
  /-- The server reads the next frame of a worker. -/
  | toServer (peer : Nat)
  | session (peer : Nat) (action : Session.Action)

/-- The steps that need nothing from a worker. -/
def Listening.Action.alone : Listening.Action → Bool
  | .server .connect => false
  | .server (.read _ (.frame _)) => false
  | _ => true

/-- The job that a step is to dispatch. -/
def Listening.Action.job? : Listening.Action → Option Job
  | .server action => action.job?
  | _ => none

def Fleet.Action.job? : Fleet.Action P → Option Job
  | .listener action => action.job?
  | _ => none

/-- A step of a worker on its own. -/
def Fleet.Action.ofWorker : Fleet.Action P → Bool
  | .toWorker _ => true
  | .session _ _ => true
  | _ => false

/-- What a result frame says. -/
def WorkerMessage.workerResult : WorkerMessage → Option WorkerResult
  | .jobResult jobId dispatchId result _ _ => some ⟨jobId, dispatchId, result.outcome⟩
  | _ => none

namespace Fleet

def initial : Fleet P := ⟨.initial, [], []⟩

def step (codec : Codec) (allowed : List String) (state : Fleet P) :
    Action P → Option (Fleet P × Unit)
  | .connect config => do
    let (listening, _) ← state.listening.step codec allowed registryCapacity (.server .connect)
    some ({ state with
      listening := listening
      peers := state.peers ++
        [⟨config, .initial config, state.listening.server.connections.length, 0⟩] }, ())
  | .listener action =>
    if action.alone then do
      let (listening, _) ← state.listening.step codec allowed registryCapacity action
      some ({ state with
        listening := listening, handed := state.handed ++ action.job?.toList }, ())
    else none
  | .toWorker i => do
    let peer ← state.peers[i]?
    let message ← (peer.link state.listening.server).nextFrame
    let (handling, _) ← peer.handling.step peer.config codec (.receive (.ok message))
    some ({ state with peers := state.peers.set i { peer with handling := handling } }, ())
  | .toServer i => do
    let peer ← state.peers[i]?
    let message ← peer.handling.session.written[peer.read]?
    let (listening, _) ← state.listening.step codec allowed registryCapacity
      (.server (.read peer.connection (.frame message)))
    some ({ state with
      listening := listening
      peers := state.peers.set i { peer with read := peer.read + 1 } }, ())
  | .session i action => do
    let peer ← state.peers[i]?
    if Link.receivesFrame action then none
    else do
      let (handling, _) ← peer.handling.step peer.config codec action
      some ({ state with peers := state.peers.set i { peer with handling := handling } }, ())

/-- The engine dispatches jobs under dispatch ids that no job had before. -/
def freshDispatch (state : Fleet P) : Action P → Bool
  | .listener action => action.job?.all fun job => job.dispatchId.all fun dispatchId =>
    state.handed.all fun other => other.dispatchId ≠ some dispatchId
  | _ => true

/-- The dispatch ids that handlers were called for. -/
def begun (state : Fleet P) : List String :=
  state.peers.flatMap fun peer => peer.handling.begun.map HandlerCall.dispatchId

/-- What a step can be. -/
inductive Move (codec : Codec) (allowed : List String) (state : Fleet P) : Action P → Fleet P → Prop
  | connect {config : Config P} {listening : Listening}
      (hstep : Listening.Move codec allowed registryCapacity state.listening (.server .connect)
        listening) :
      Move codec allowed state (.connect config) { state with
        listening := listening
        peers := state.peers ++
          [⟨config, .initial config, state.listening.server.connections.length, 0⟩] }
  | listener {action : Listening.Action} {listening : Listening} (halone : action.alone = true)
      (hstep : Listening.Move codec allowed registryCapacity state.listening action listening) :
      Move codec allowed state (.listener action) { state with
        listening := listening, handed := state.handed ++ action.job?.toList }
  /-- A worker's session steps, as one side of its link. -/
  | worker {action : Action P} {i : Nat} {peer : Peer P} {side : Link.Action}
      {sessionAction : Session.Action} {session : Session P} (hside : action.ofWorker = true)
      (hpeer : state.peers[i]? = some peer)
      (hlink : Link.Move peer.config codec allowed (peer.link state.listening.server) side
        { peer.link state.listening.server with session := session })
      (hstep : Session.Transition peer.config codec peer.handling.session sessionAction session) :
      Move codec allowed state action { state with
        peers := state.peers.set i
          { peer with handling := peer.handling.after sessionAction session } }
  | toServer {i : Nat} {peer : Peer P} {message : WorkerMessage} {listening : Listening}
      (hpeer : state.peers[i]? = some peer)
      (hnext : peer.handling.session.written[peer.read]? = some message)
      (hstep : Listening.Move codec allowed registryCapacity state.listening
        (.server (.read peer.connection (.frame message))) listening) :
      Move codec allowed state (.toServer i) { state with
        listening := listening
        peers := state.peers.set i { peer with read := peer.read + 1 } }

theorem step_move {codec : Codec} {allowed : List String} {state state' : Fleet P}
    {action : Action P} {event : Unit} (h : state.step codec allowed action = some (state', event)) :
    Move codec allowed state action state' := by
  cases action with
  | connect config =>
    simp only [step] at h
    obtain ⟨⟨listening, event⟩, hstep, heq⟩ := Option.bind_eq_some_iff.mp h
    cases heq
    exact .connect (Listening.step_move hstep)
  | listener action =>
    simp only [step] at h
    split at h
    · next halone =>
      obtain ⟨⟨listening, event⟩, hstep, heq⟩ := Option.bind_eq_some_iff.mp h
      cases heq
      exact .listener halone (Listening.step_move hstep)
    · cases h
  | toWorker i =>
    obtain ⟨peer, hpeer, h⟩ := Option.bind_eq_some_iff.mp h
    obtain ⟨message, hnext, h⟩ := Option.bind_eq_some_iff.mp h
    obtain ⟨⟨handling, event⟩, hstep, heq⟩ := Option.bind_eq_some_iff.mp h
    cases heq
    obtain ⟨session, hsession, rfl⟩ := Handling.step_after hstep
    exact .worker rfl hpeer (.toWorker hnext hsession) hsession
  | toServer i =>
    obtain ⟨peer, hpeer, h⟩ := Option.bind_eq_some_iff.mp h
    obtain ⟨message, hnext, h⟩ := Option.bind_eq_some_iff.mp h
    obtain ⟨⟨listening, event⟩, hstep, heq⟩ := Option.bind_eq_some_iff.mp h
    cases heq
    exact .toServer hpeer hnext (Listening.step_move hstep)
  | session i action =>
    obtain ⟨peer, hpeer, h⟩ := Option.bind_eq_some_iff.mp h
    split at h
    · cases h
    · next hother =>
      obtain ⟨⟨handling, event⟩, hstep, heq⟩ := Option.bind_eq_some_iff.mp h
      cases heq
      obtain ⟨session, hsession, rfl⟩ := Handling.step_after hstep
      exact .worker rfl hpeer (.session (Bool.eq_false_iff.mpr hother) hsession) hsession

end Fleet

/-! ### The invariant -/

/-- What a step of the listener's system does to the server and to the frames that were read. -/
theorem Listening.Move.serves {codec : Codec} {allowed : List String} {capacity : Nat}
    {sys sys' : Listening} {action : Listening.Action}
    (h : Listening.Move codec allowed capacity sys action sys') :
    (sys'.server = sys.server ∧ sys'.frames = sys.frames ∧ action.job? = none) ∨
    ∃ serverAction event, action = .server serverAction ∧
      Server.Transition codec allowed sys.server serverAction sys'.server event ∧
      sys'.frames = sys.frames ++ (sys.server.resultFrame serverAction).toList := by
  cases h with
  | server hstep => exact Or.inr ⟨_, _, rfl, hstep, rfl⟩
  | send hevent => exact Or.inl ⟨rfl, rfl, rfl⟩
  | @receive event rest hunread => cases event <;> exact Or.inl ⟨rfl, rfl, rfl⟩
  | lagged hmissed => exact Or.inl ⟨rfl, rfl, rfl⟩
  | complete htask => exact Or.inl ⟨rfl, rfl, rfl⟩

theorem Server.resultFrame_frame {server : Server} {connection : Nat} {message : WorkerMessage}
    {result : WorkerResult} (h : server.resultFrame (.read connection (.frame message)) = some result) :
    message.workerResult = some result := by
  cases message with
  | jobResult =>
    simp only [resultFrame] at h
    split at h
    · exact h
    · cases h
  | _ => cases h

/-- The results that the server has read from a worker. -/
def Peer.results (peer : Peer P) : List WorkerResult :=
  (peer.handling.session.written.take peer.read).filterMap WorkerMessage.workerResult

/-- A result is for a job, and a worker's handler was called for it and has returned this result, or
the payload of the job is not valid and the result says so. -/
def Peer.Handled (peer : Peer P) (job : Job) (result : WorkerResult) : Prop :=
  job.id = result.jobId ∧ job.dispatchId = some result.dispatchId ∧
    ∃ outcome, result.outcome = (reportResult outcome).outcome ∧
      ((∃ call ∈ peer.handling.begun, (call, outcome) ∈ peer.handling.returned ∧
          call.jobId = result.jobId ∧ call.dispatchId = result.dispatchId) ∨
        ∃ message, peer.config.parse job.payload = .error message ∧
          outcome = .error (invalidPayload message))

/-- A worker and the server know of each other, and the handler is called for what the worker has
read. -/
structure Peer.Sound (codec : Codec) (server : Server) (peer : Peer P) : Prop where
  joint : (peer.link server).Joint peer.config codec
  faithful : peer.handling.Faithful peer.config
  read : peer.read ≤ peer.handling.session.written.length

section Peer

variable {codec : Codec} {allowed : List String} {server server' : Server} {peer : Peer P}

theorem Peer.Sound.serves {action : Server.Action} {event : Option WorkerEvent}
    (h : peer.Sound codec server) {read : Nat} (hread : read ≤ peer.handling.session.written.length)
    (hstep : Server.Transition codec allowed server action server' event) :
    { peer with read := read }.Sound codec server' :=
  ⟨h.joint.serves read hstep, h.faithful, hread⟩

theorem Peer.Sound.connection_lt (h : peer.Sound codec server) :
    peer.connection < server.connections.length := by
  obtain ⟨conn, hconn, -⟩ := h.joint.received
  exact (List.getElem?_eq_some_iff.mp hconn).1

end Peer

namespace Fleet

/-- The workers are on connections of their own, and the jobs were dispatched once each. -/
structure Wired (codec : Codec) (state : Fleet P) : Prop where
  conserved : state.listening.Conserved
  regular : state.listening.server.Regular codec
  assigned : state.listening.server.Assigned state.handed
  peers : ∀ peer ∈ state.peers, peer.Sound codec state.listening.server
  places : (state.peers.map Peer.connection).Nodup

/-- The result frames that handlers have read are among those that workers have written. -/
def Traceable (state : Fleet P) : Prop :=
  state.listening.frames.Subperm (state.peers.flatMap Peer.results)

section Step

variable {codec : Codec} {allowed : List String} {state state' : Fleet P} {action : Action P}

theorem initial_wired (codec : Codec) : (initial : Fleet P).Wired codec where
  conserved := Listening.initial_conserved
  regular := Server.initial_regular codec
  assigned := Server.initial_assigned
  peers peer hpeer := by cases hpeer
  places := List.nodup_nil

/-- A worker that steps keeps its place. -/
theorem places_set {peers : List (Peer P)} (h : (peers.map Peer.connection).Nodup) {i : Nat}
    {peer peer' : Peer P} (hpeer : peers[i]? = some peer) (hplace : peer'.connection = peer.connection) :
    ((peers.set i peer').map Peer.connection).Nodup := by
  obtain ⟨before, after, rfl, hset⟩ := Lists.split_set hpeer
  rw [List.map_append, List.map_cons] at h
  rw [hset, List.map_append, List.map_cons, hplace]
  exact h

/-- A step of the server's tasks, with the job that it hands over. -/
theorem Wired.listens (h : state.Wired codec) {listenerAction : Listening.Action} {listening : Listening}
    (hstep : Listening.Move codec allowed registryCapacity state.listening listenerAction listening)
    (hfresh : ∀ job ∈ listenerAction.job?, ∀ dispatchId ∈ job.dispatchId, ∀ other ∈ state.handed,
      other.dispatchId ≠ some dispatchId) :
    Wired codec { state with
      listening := listening, handed := state.handed ++ listenerAction.job?.toList } := by
  have hconserved := Listening.move_conserved h.conserved hstep
  rcases hstep.serves with ⟨hserver, -, hnone⟩ | ⟨serverAction, event, rfl, htransition, -⟩
  · refine ⟨hconserved, ?_, ?_, fun peer hpeer => ?_, h.places⟩
    · rw [hserver]
      exact h.regular
    · rw [hserver, hnone, Option.toList_none, List.append_nil]
      exact h.assigned
    · rw [hserver]
      exact h.peers peer hpeer
  · exact ⟨hconserved, Server.transition_regular h.regular htransition,
      Server.transition_assigned h.assigned hfresh htransition,
      fun peer hpeer => (h.peers peer hpeer).serves (h.peers peer hpeer).read htransition, h.places⟩

theorem Move.wired (h : state.Wired codec) (hfresh : state.freshDispatch action = true)
    (hmove : Move codec allowed state action state') : state'.Wired codec := by
  cases hmove with
  | @connect config listening hstep =>
    have hlistens := h.listens hstep (by rintro job ⟨⟩)
    refine ⟨hlistens.conserved, hlistens.regular, ?_, fun peer hpeer => ?_, ?_⟩
    · simpa [Listening.Action.job?, Server.Action.job?] using hlistens.assigned
    · rcases List.mem_append.mp hpeer with hold | hnew
      · exact hlistens.peers peer hold
      · obtain rfl := List.mem_singleton.mp hnew
        cases hstep with
        | server htransition =>
          cases htransition with
          | connect =>
            exact ⟨Link.start_joint allowed h.regular, Handling.initial_faithful config, Nat.zero_le _⟩
    · -- a new connection has no worker yet
      rw [List.map_append, List.map_singleton]
      refine List.nodup_append.mpr ⟨h.places, List.nodup_singleton _, fun place hplace last hlast => ?_⟩
      obtain ⟨peer, hpeer, rfl⟩ := List.mem_map.mp hplace
      rw [List.mem_singleton.mp hlast]
      exact Nat.ne_of_lt (h.peers peer hpeer).connection_lt
  | listener halone hstep =>
    refine h.listens hstep fun job hjob dispatchId hid other hother => ?_
    rw [Option.mem_def] at hjob hid
    simp only [freshDispatch, hjob, hid, Option.all_some, List.all_eq_true] at hfresh
    exact of_decide_eq_true (hfresh other hother)
  | @worker _ i peer side sessionAction session hside hpeer hlink hstep =>
    have hsound := h.peers peer (List.mem_of_getElem? hpeer)
    refine ⟨h.conserved, h.regular, h.assigned, fun other hother => ?_, places_set h.places hpeer rfl⟩
    rcases List.mem_or_eq_of_mem_set hother with hmem | rfl
    · exact h.peers other hmem
    · exact ⟨hlink.joint hsound.joint, Handling.faithful_step hsound.faithful hstep,
        hsound.read.trans hstep.written_grows.length_le⟩
  | @toServer i peer message listening hpeer hnext hstep =>
    have hlistens := h.listens hstep (by rintro job ⟨⟩)
    refine ⟨hlistens.conserved, hlistens.regular, ?_, fun other hother => ?_,
      places_set h.places hpeer rfl⟩
    · simpa [Listening.Action.job?, Server.Action.job?] using hlistens.assigned
    · rcases List.mem_or_eq_of_mem_set hother with hold | rfl
      · exact hlistens.peers other hold
      · cases hstep with
        | server htransition =>
          exact (h.peers peer (List.mem_of_getElem? hpeer)).serves
            (List.getElem?_eq_some_iff.mp hnext).1 htransition

theorem results_set {peers : List (Peer P)} {i : Nat} {peer peer' : Peer P} {more : List WorkerResult}
    (hpeer : peers[i]? = some peer) (hresults : peer'.results = peer.results ++ more) :
    (peers.flatMap Peer.results ++ more).Perm ((peers.set i peer').flatMap Peer.results) := by
  obtain ⟨before, after, rfl, hset⟩ := Lists.split_set hpeer
  rw [hset, List.flatMap_append, List.flatMap_cons, List.flatMap_append, List.flatMap_cons, hresults,
    List.append_assoc, List.append_assoc, List.append_assoc]
  exact (List.perm_append_comm.append_left _).append_left _

theorem Move.traceable (h : state.Wired codec) (htrace : state.Traceable)
    (hmove : Move codec allowed state action state') : state'.Traceable := by
  cases hmove with
  | @connect config listening hstep =>
    cases hstep with
    | server htransition =>
      show (state.listening.frames ++ []).Subperm _
      rw [List.append_nil, List.flatMap_append]
      exact htrace.trans (List.sublist_append_left _ _).subperm
  | @listener action listening halone hstep =>
    rcases hstep.serves with ⟨-, hframes, -⟩ | ⟨serverAction, event, rfl, -, hframes⟩
    · rw [Traceable, hframes]
      exact htrace
    · have hnone : state.listening.server.resultFrame serverAction = none := by
        unfold Server.resultFrame
        split
        · cases halone
        · rfl
      rw [Traceable, hframes, hnone, Option.toList_none, List.append_nil]
      exact htrace
  | @worker _ i peer side sessionAction session hside hpeer hlink hstep =>
    have hsound := h.peers peer (List.mem_of_getElem? hpeer)
    have hsame : Peer.results { peer with handling := peer.handling.after sessionAction session } =
        peer.results ++ [] := by
      obtain ⟨rest, hrest⟩ := hstep.written_grows
      rw [List.append_nil, Peer.results, Peer.results, Handling.after, ← hrest]
      exact congrArg _ (List.take_append_of_le_length hsound.read)
    refine htrace.trans ?_
    have hperm := results_set hpeer hsame
    rw [List.append_nil] at hperm
    exact hperm.subperm
  | @toServer i peer message listening hpeer hnext hstep =>
    have hmore : Peer.results { peer with read := peer.read + 1 } =
        peer.results ++ message.workerResult.toList := by
      obtain ⟨hlt, rfl⟩ := List.getElem?_eq_some_iff.mp hnext
      rw [Peer.results, Peer.results, List.take_succ_eq_append_getElem hlt, List.filterMap_append]
      cases hresult : (peer.handling.session.written[peer.read]).workerResult <;> simp [hresult]
    cases hstep with
    | server htransition =>
      refine List.Subperm.trans (List.Subperm.append htrace ?_) (results_set hpeer hmore).subperm
      cases hframe : state.listening.server.resultFrame (.read peer.connection (.frame message)) with
      | none => exact List.nil_subperm
      | some result =>
        rw [Server.resultFrame_frame hframe]

end Step

/-! ### What handlers are called for -/

section Peer

variable {codec : Codec} {server : Server} {peer : Peer P} {handed : List Job} {job : Nat}
  {task : JobTask P}

theorem dispatched_ids (server : Server) (peer : Peer P) :
    (peer.link server).dispatched.map Prod.snd = server.idsTo peer.connection := by
  rw [Server.idsTo, Server.dispatchesTo, List.filterMap_filter]
  refine congrArg _ (congrArg (List.filterMap · _) (funext fun message => ?_))
  cases message <;> rfl

/-- The tasks of a worker are for different dispatches. -/
theorem tasks_nodup (h : peer.Sound codec server) (hassigned : server.Assigned handed) :
    (peer.handling.session.jobs.map JobTask.dispatchId).Nodup := by
  obtain ⟨ids, hperm, hsub⟩ := h.joint.jobs_subperm
  have hnodup : (ids.map Prod.snd).Nodup :=
    (hassigned.distinct peer.connection).sublist (dispatched_ids server peer ▸ hsub.map Prod.snd)
  have hids := (hperm.map Prod.snd).nodup_iff.mp hnodup
  rwa [List.map_map] at hids

/-- A task is for a job that was handed over. -/
theorem task_handed (h : peer.Sound codec server) (hassigned : server.Assigned handed)
    (htask : peer.handling.session.jobs[job]? = some task) :
    task.dispatchId ∈ server.idsTo peer.connection ∧ ∃ job ∈ handed, job.id = task.jobId ∧
      job.dispatchId = some task.dispatchId ∧ job.payload = task.payload := by
  have hreceived := (h.faithful.traced job task htask).dispatched
  have hsent : task.origin ∈ server.dispatchesTo peer.connection := by
    rcases h.joint.received_first with hfirst | hrefused
    · exact List.mem_filter.mpr ⟨hfirst.subset hreceived, rfl⟩
    · cases List.mem_singleton.mp (hrefused.subset hreceived)
  refine ⟨List.mem_map.mpr ⟨task.ids, List.mem_filterMap.mpr ⟨_, hsent, rfl⟩, rfl⟩, ?_⟩
  obtain ⟨job, hjob, dispatchId, hid, heq⟩ := hassigned.jobs _ _ hsent
  injection heq with hjobId hdispatch _ hpayload
  exact ⟨job, hjob, hjobId.symm, hdispatch ▸ hid, hpayload.symm⟩

theorem begun_nodup (h : peer.Sound codec server) (hassigned : server.Assigned handed) :
    (peer.handling.begun.map HandlerCall.dispatchId).Nodup := by
  have honce := h.faithful.once
  refine List.Nodup.map_on (fun call hcall other hother heq => ?_) (List.Nodup.of_map _ honce)
  -- calls for one dispatch are made by one task, and a task makes one call
  refine List.inj_on_of_nodup_map honce hcall hother ?_
  obtain ⟨task, htask, hsame, -⟩ := h.faithful.begun call hcall
  obtain ⟨task', htask', hsame', -⟩ := h.faithful.begun other hother
  have hid : task.dispatchId = task'.dispatchId := by
    rw [hsame, hsame'] at heq
    exact heq
  have hlt := (List.getElem?_eq_some_iff.mp htask).1
  refine (List.getElem?_inj (by rwa [List.length_map]) (tasks_nodup h hassigned)).mp ?_
  rw [List.getElem?_map, List.getElem?_map, htask, htask', Option.map_some, Option.map_some, hid]

/-- A worker's handler is called with the payload of a job that was handed over. -/
theorem call_handed (h : peer.Sound codec server) (hassigned : server.Assigned handed)
    {call : HandlerCall P} (hcall : call ∈ peer.handling.begun) :
    call.dispatchId ∈ server.idsTo peer.connection ∧ ∃ job ∈ handed, job.id = call.jobId ∧
      job.dispatchId = some call.dispatchId ∧ peer.config.parse job.payload = .ok call.payload := by
  obtain ⟨task, htask, hsame, hparse⟩ := h.faithful.begun call hcall
  obtain ⟨hmem, job, hjob, hid, hdispatch, hpayload⟩ := task_handed h hassigned htask
  rw [hsame]
  exact ⟨hmem, job, hjob, hid, hdispatch, hpayload ▸ hparse⟩

theorem results_ids (peer : Peer P) : peer.results.map WorkerResult.dispatchId =
    ((peer.handling.session.written.take peer.read).filterMap WorkerMessage.resultIds).map Prod.snd := by
  rw [Peer.results, List.map_filterMap, List.map_filterMap]
  refine congrArg (List.filterMap · _) (funext fun message => ?_)
  cases message <;> rfl

theorem results_subperm (h : peer.Sound codec server) :
    (peer.results.map WorkerResult.dispatchId).Subperm (server.idsTo peer.connection) := by
  obtain ⟨ids, hperm, hsub⟩ := h.joint.processed_subperm
  rw [results_ids, ← dispatched_ids]
  exact ⟨ids.map Prod.snd, hperm.map Prod.snd, hsub.map Prod.snd⟩

/-- A result that the server has read is what a handler has returned, or is about a payload that is
not valid. -/
theorem result_handled (h : peer.Sound codec server) (hassigned : server.Assigned handed)
    {result : WorkerResult} (hresult : result ∈ peer.results) :
    ∃ job ∈ handed, peer.Handled job result := by
  obtain ⟨message, hmessage, hsays⟩ := List.mem_filterMap.mp hresult
  cases message with
  | jobResult jobId dispatchId jobResult runningJobs freeSlots =>
    obtain rfl := Option.some.inj hsays
    obtain ⟨done, rest, hsent, hwritten, -⟩ := h.joint.session.outbox.flow
    have hdone : WorkerMessage.jobResult jobId dispatchId jobResult runningJobs freeSlots ∈
        peer.config.register :: done.map OutboundFrame.payload :=
      hwritten ▸ List.mem_of_mem_take hmessage
    rcases List.mem_cons.mp hdone with hregister | hframe
    · cases hregister
    · obtain ⟨frame, hmem, hpayload⟩ := List.mem_map.mp hframe
      obtain ⟨i, task, outcome, htask, hids, houtcome, haccounts⟩ :=
        h.faithful.sent frame (hsent ▸ List.mem_append_left _ hmem) _ _ _ _ _ hpayload
      obtain ⟨-, job, hjob, hid, hdispatch, hsame⟩ := task_handed h hassigned htask
      obtain ⟨rfl, rfl⟩ := Prod.mk.inj hids
      refine ⟨job, hjob, hid, hdispatch, outcome, congrArg JobResult.outcome houtcome, ?_⟩
      rcases haccounts with ⟨payload, hreturned⟩ | ⟨message, hparse, hinvalid⟩
      · exact Or.inl ⟨_, h.faithful.ended _ hreturned, hreturned, rfl, rfl⟩
      · exact Or.inr ⟨message, hsame ▸ hparse, hinvalid⟩
  | _ => cases hsays

end Peer

/-! ### All workers together -/

section All

variable {codec : Codec} {state : Fleet P}

/-- Dispatch ids that belong to the workers' channels, once each. -/
theorem Wired.nodup_flatMap (h : state.Wired codec) {ids : Peer P → List String}
    (hnodup : ∀ peer ∈ state.peers, (ids peer).Nodup)
    (hids : ∀ peer ∈ state.peers, ids peer ⊆ state.listening.server.idsTo peer.connection) :
    (state.peers.flatMap ids).Nodup := by
  refine List.nodup_flatMap.mpr ⟨hnodup, ?_⟩
  refine (List.pairwise_map.mp h.places).imp_of_mem fun {peer other} hpeer hother hplaces => ?_
  exact fun dispatchId hmem hmem' =>
    hplaces (h.assigned.apart (hids peer hpeer hmem) (hids other hother hmem'))

theorem Wired.begun_nodup (h : state.Wired codec) : state.begun.Nodup := by
  refine h.nodup_flatMap (fun peer hpeer => Fleet.begun_nodup (h.peers peer hpeer) h.assigned)
    fun peer hpeer dispatchId hmem => ?_
  obtain ⟨call, hcall, rfl⟩ := List.mem_map.mp hmem
  exact (call_handed (h.peers peer hpeer) h.assigned hcall).1

theorem Wired.results_nodup (h : state.Wired codec) :
    ((state.peers.flatMap Peer.results).map WorkerResult.dispatchId).Nodup := by
  rw [List.map_flatMap]
  refine h.nodup_flatMap (fun peer hpeer => ?_)
    fun peer hpeer => (results_subperm (h.peers peer hpeer)).subset
  obtain ⟨ids, hperm, hsub⟩ := results_subperm (h.peers peer hpeer)
  exact hperm.nodup_iff.mp ((h.assigned.distinct peer.connection).sublist hsub)

/-- The store is called for results that the server has read, each of them once. -/
theorem Wired.calls_subperm (h : state.Wired codec) (htrace : state.Traceable) :
    state.listening.calls.Subperm (state.peers.flatMap Peer.results) := by
  refine List.Subperm.trans ⟨state.listening.calls, .refl _, ?_⟩
    (h.conserved.results.symm.subperm.trans htrace)
  rw [List.append_assoc]
  exact List.sublist_append_left _ _

/-- The results that the store is called with are for different dispatches. -/
theorem Wired.calls_nodup (h : state.Wired codec) (htrace : state.Traceable) :
    (state.listening.calls.map WorkerResult.dispatchId).Nodup := by
  obtain ⟨results, hperm, hsub⟩ := h.calls_subperm htrace
  exact (hperm.map _).nodup_iff.mp (h.results_nodup.sublist (hsub.map _))

/-- The store is told what a handler has returned, or that a payload is not valid. -/
theorem Wired.call_handled (h : state.Wired codec) (htrace : state.Traceable) {result : WorkerResult}
    (hresult : result ∈ state.listening.calls) : ∃ peer ∈ state.peers, ∃ job ∈ state.handed,
      peer.Handled job result := by
  obtain ⟨peer, hpeer, hread⟩ := List.mem_flatMap.mp ((h.calls_subperm htrace).subset hresult)
  obtain ⟨job, hjob, hhandled⟩ := result_handled (h.peers peer hpeer) h.assigned hread
  exact ⟨peer, hpeer, job, hjob, hhandled⟩

end All

end Fleet

end Maqistor
