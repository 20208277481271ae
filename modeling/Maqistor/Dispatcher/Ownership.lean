import Maqistor.Dispatcher.Server
import Maqistor.Lib.Lists

/-! Who owns an entry of the registry: a connection inserts at most one worker, and a handler that
still has to remove its worker finds it there. -/

namespace Maqistor

namespace Handler

/-- The worker whose entry the handler still has to remove. -/
def instance? : Handler → Option Uuid
  | .inserted instanceId _ | .announcing instanceId _ _ | .serving instanceId
  | .leaving instanceId => some instanceId
  | .accepted | .refusing | .registering _ _ _ _ | .returned => none

/-- The handler may have inserted a worker. -/
def entered : Handler → Bool
  | .accepted | .refusing | .registering _ _ _ _ => false
  | .inserted _ _ | .announcing _ _ _ | .serving _ | .leaving _ | .returned => true

end Handler

namespace Server

/-- The connection that inserted a worker. -/
def owner (server : Server) (workerId : Uuid) : Option Nat :=
  (server.workers.lookup workerId).map WorkerState.outbound

def handlers (server : Server) : List Handler := server.connections.map Connection.handler

theorem owner_eq_some {server : Server} {workerId : Uuid} {connection : Nat} :
    server.owner workerId = some connection ↔
      ∃ state, server.workers.lookup workerId = some state ∧ state.outbound = connection :=
  Option.map_eq_some_iff

theorem handlers_eq_some {server : Server} {connection : Nat} {handler : Handler} :
    server.handlers[connection]? = some handler ↔
      ∃ conn, server.connections[connection]? = some conn ∧ conn.handler = handler := by
  rw [handlers, List.getElem?_map, Option.map_eq_some_iff]

/-! ### Frames -/

section Send

variable (server : Server) (connection : Nat) (message : WorkerMessage)

@[simp] theorem send_workers : (server.send connection message).1.workers = server.workers := by
  unfold send; split <;> [rfl; (split <;> rfl)]

@[simp] theorem send_permits : (server.send connection message).1.permits = server.permits := by
  unfold send; split <;> [rfl; (split <;> rfl)]

@[simp] theorem send_calls : (server.send connection message).1.calls = server.calls := by
  unfold send; split <;> [rfl; (split <;> rfl)]

@[simp] theorem send_enrolled : (server.send connection message).1.enrolled = server.enrolled := by
  unfold send; split <;> [rfl; (split <;> rfl)]

@[simp] theorem send_issued : (server.send connection message).1.issued = server.issued := by
  unfold send; split <;> [rfl; (split <;> rfl)]

@[simp] theorem send_queued : (server.send connection message).1.queued = server.queued := by
  unfold send; split <;> [rfl; (split <;> rfl)]

@[simp] theorem send_answered : (server.send connection message).1.answered = server.answered := by
  unfold send; split <;> [rfl; (split <;> rfl)]

@[simp] theorem send_failed : (server.send connection message).1.failed = server.failed := by
  unfold send; split <;> [rfl; (split <;> rfl)]

@[simp] theorem send_results : (server.send connection message).1.results = server.results := by
  unfold send; split <;> [rfl; (split <;> rfl)]

@[simp] theorem send_handlers : (server.send connection message).1.handlers = server.handlers := by
  unfold send
  split
  · rfl
  · next conn hconn =>
    split
    · exact Lists.map_set_self hconn rfl
    · rfl

end Send

theorem map_handler_modify (connections : List Connection) (connection : Nat) (handler : Handler)
    {f : Connection → Connection} (hf : ∀ conn, (f conn).handler = handler) :
    (connections.modify connection f).map Connection.handler =
      (connections.map Connection.handler).set connection handler := by
  apply List.ext_getElem?
  intro j
  simp only [List.getElem?_map, List.getElem?_modify, List.getElem?_set, List.length_map]
  by_cases heq : connection = j
  · subst heq
    by_cases hlt : connection < connections.length
    · simp [hlt, hf]
    · simp [hlt]
  · simp [heq]

@[simp] theorem setHandler_handlers (server : Server) (connection : Nat) (handler : Handler) :
    (server.setHandler connection handler).handlers = server.handlers.set connection handler :=
  map_handler_modify server.connections connection handler fun _ => rfl

/-! ### The invariant -/

/-- An entry belongs to the connection that inserted it, and a handler that has to remove its worker
finds it. -/
structure Owned (server : Server) : Prop where
  owner : ∀ {workerId connection}, server.owner workerId = some connection →
    ∃ handler, server.handlers[connection]? = some handler ∧ handler.entered = true
  entry : ∀ {connection handler workerId}, server.handlers[connection]? = some handler →
    handler.instance? = some workerId → server.owner workerId = some connection
  distinct : ∀ {workerId other connection}, server.owner workerId = some connection →
    server.owner other = some connection → workerId = other

section Owned

variable {server server' : Server} {connection : Nat}

theorem Owned.of_eq (h : server.Owned) (howner : ∀ workerId, server'.owner workerId =
    server.owner workerId) (hhandlers : server'.handlers = server.handlers) : server'.Owned := by
  constructor
  · intro workerId connection howns
    rw [hhandlers]
    exact h.owner (by rw [← howner, howns])
  · intro connection handler workerId hhandler hinstance
    rw [howner]
    exact h.entry (by rw [← hhandlers, hhandler]) hinstance
  · intro workerId other connection howns hother
    rw [howner] at howns hother
    exact h.distinct howns hother

/-- A handler that keeps its worker, or gives it up, moves on. -/
theorem Owned.move (h : server.Owned) (howner : ∀ workerId, server'.owner workerId =
    server.owner workerId) {old new : Handler} (hold : server.handlers[connection]? = some old)
    (hhandlers : server'.handlers = server.handlers.set connection new)
    (hinstance : new.instance? = none ∨ new.instance? = old.instance?)
    (hentered : old.entered = true → new.entered = true) : server'.Owned := by
  constructor
  · intro workerId other howns
    rw [howner] at howns
    obtain ⟨handler, hhandler, hin⟩ := h.owner howns
    rw [hhandlers]
    by_cases heq : other = connection
    · subst heq
      obtain rfl : old = handler := Option.some.inj (hold.symm.trans hhandler)
      have hlt := (List.getElem?_eq_some_iff.mp hold).1
      exact ⟨new, by rw [List.getElem?_set_self hlt], hentered hin⟩
    · exact ⟨handler, by rw [List.getElem?_set_ne (Ne.symm heq), hhandler], hin⟩
  · intro other handler workerId hhandler hworker
    rw [howner]
    rw [hhandlers] at hhandler
    rcases Lists.getElem?_set_of_some hold hhandler with ⟨rfl, rfl⟩ | ⟨-, hhandler⟩
    · rcases hinstance with hnone | hsame
      · simp [hnone] at hworker
      · exact h.entry hold (hsame ▸ hworker)
    · exact h.entry hhandler hworker
  · intro workerId other connection howns hother
    rw [howner] at howns hother
    exact h.distinct howns hother

theorem Owned.connect (h : server.Owned) (howner : ∀ workerId, server'.owner workerId =
    server.owner workerId) (hhandlers : server'.handlers = server.handlers ++ [.accepted]) :
    server'.Owned := by
  constructor
  · intro workerId other howns
    rw [howner] at howns
    obtain ⟨handler, hhandler, hin⟩ := h.owner howns
    have hlt := (List.getElem?_eq_some_iff.mp hhandler).1
    exact ⟨handler, by rw [hhandlers, List.getElem?_append_left hlt, hhandler], hin⟩
  · intro other handler workerId hhandler hworker
    rw [howner]
    rw [hhandlers, List.getElem?_append] at hhandler
    split at hhandler
    · exact h.entry hhandler hworker
    · have hmem := List.mem_of_getElem? hhandler
      rw [List.mem_singleton.mp hmem] at hworker
      cases hworker
  · intro workerId other connection howns hother
    rw [howner] at howns hother
    exact h.distinct howns hother

/-- A handler that has not entered inserts a new worker. -/
theorem Owned.enroll (h : server.Owned) {old : Handler} {instanceId : Uuid} {queueName : String}
    (hold : server.handlers[connection]? = some old) (hout : old.entered = false)
    (hnew : server.owner instanceId = none) (howner : ∀ workerId, server'.owner workerId =
      if workerId = instanceId then some connection else server.owner workerId)
    (hhandlers : server'.handlers = server.handlers.set connection
      (.inserted instanceId queueName)) : server'.Owned := by
  have hfresh : ∀ workerId, server.owner workerId ≠ some connection := by
    intro workerId howns
    obtain ⟨handler, hhandler, hin⟩ := h.owner howns
    obtain rfl : old = handler := Option.some.inj (hold.symm.trans hhandler)
    simp [hout] at hin
  have hlt := (List.getElem?_eq_some_iff.mp hold).1
  constructor
  · intro workerId other howns
    rw [howner] at howns
    rw [hhandlers]
    by_cases heq : other = connection
    · subst heq
      exact ⟨_, List.getElem?_set_self hlt, rfl⟩
    · split at howns
      · exact absurd (Option.some.inj howns).symm heq
      · obtain ⟨handler, hhandler, hin⟩ := h.owner howns
        exact ⟨handler, by rw [List.getElem?_set_ne (Ne.symm heq), hhandler], hin⟩
  · intro other handler workerId hhandler hworker
    rw [howner]
    rw [hhandlers] at hhandler
    rcases Lists.getElem?_set_of_some hold hhandler with ⟨rfl, rfl⟩ | ⟨-, hhandler⟩
    · obtain rfl : instanceId = workerId := Option.some.inj hworker
      exact if_pos rfl
    · have howns := h.entry hhandler hworker
      rw [if_neg]
      · exact howns
      · rintro rfl
        simp [hnew] at howns
  · intro workerId other connection' howns hother
    rw [howner] at howns hother
    split at howns
    · next hworker =>
      split at hother
      · next hid => rw [hworker, hid]
      · rw [← Option.some.inj howns] at hother
        exact absurd hother (hfresh other)
    · split at hother
      · rw [← Option.some.inj hother] at howns
        exact absurd howns (hfresh workerId)
      · exact h.distinct howns hother

/-- A handler removes its worker and returns. -/
theorem Owned.remove (h : server.Owned) {old : Handler} {instanceId : Uuid}
    (hold : server.handlers[connection]? = some old) (hinstance : old.instance? = some instanceId)
    (howner : ∀ workerId, server'.owner workerId =
      if workerId = instanceId then none else server.owner workerId)
    (hhandlers : server'.handlers = server.handlers.set connection .returned) :
    server'.Owned := by
  have hlt := (List.getElem?_eq_some_iff.mp hold).1
  have hmine := h.entry hold hinstance
  constructor
  · intro workerId other howns
    rw [howner] at howns
    split at howns
    · cases howns
    · obtain ⟨handler, hhandler, hin⟩ := h.owner howns
      rw [hhandlers]
      by_cases heq : other = connection
      · subst heq
        exact ⟨_, List.getElem?_set_self hlt, rfl⟩
      · exact ⟨handler, by rw [List.getElem?_set_ne (Ne.symm heq), hhandler], hin⟩
  · intro other handler workerId hhandler hworker
    rw [howner]
    rw [hhandlers] at hhandler
    rcases Lists.getElem?_set_of_some hold hhandler with ⟨rfl, rfl⟩ | ⟨hne, hhandler⟩
    · simp [Handler.instance?] at hworker
    · have howns := h.entry hhandler hworker
      rw [if_neg]
      · exact howns
      · rintro rfl
        exact hne (Option.some.inj (howns.symm.trans hmine))
  · intro workerId other connection' howns hother
    rw [howner] at howns hother
    split at howns
    · cases howns
    · split at hother
      · cases hother
      · exact h.distinct howns hother

end Owned

/-! ### Every step keeps it -/

theorem owner_insert {server server' : Server} {instanceId : Uuid} {state : WorkerState}
    {connection : Nat} (hworkers : server'.workers = server.workers.insert instanceId state)
    (hstate : state.outbound = connection) (workerId : Uuid) : server'.owner workerId =
      if workerId = instanceId then some connection else server.owner workerId := by
  rw [owner, hworkers]
  split
  · next heq =>
    rw [heq, AList.lookup_insert, Option.map_some, hstate]
  · next hne => rw [AList.lookup_insert_ne hne, owner]

/-- A rewrite of a worker's state that keeps its connection keeps every owner. -/
theorem owner_update {server server' : Server} {instanceId : Uuid} {old new : WorkerState}
    (hold : server.workers.lookup instanceId = some old)
    (hworkers : server'.workers = server.workers.insert instanceId new)
    (hsame : new.outbound = old.outbound) (workerId : Uuid) :
    server'.owner workerId = server.owner workerId := by
  rw [owner_insert hworkers hsame]
  split
  · next heq => rw [heq, owner, hold, Option.map_some]
  · rfl

theorem releasePermit_owner (server : Server) (workerId other : Uuid) :
    (server.releasePermit workerId).owner other = server.owner other := by
  unfold releasePermit
  split
  · rfl
  · next worker hworker => exact owner_update hworker rfl (by rfl) other

theorem releasePermit_handlers (server : Server) (workerId : Uuid) :
    (server.releasePermit workerId).handlers = server.handlers := by
  unfold releasePermit
  split <;> rfl

theorem releaseDispatched_owner (server : Server) (workerId : Uuid) (dispatchId : String)
    (other : Uuid) :
    (server.releaseDispatched workerId dispatchId).owner other = server.owner other := by
  unfold releaseDispatched
  split
  · rfl
  · next worker hworker => exact owner_update hworker rfl (by rfl) other

theorem releaseDispatched_handlers (server : Server) (workerId : Uuid) (dispatchId : String) :
    (server.releaseDispatched workerId dispatchId).handlers = server.handlers := by
  unfold releaseDispatched
  split <;> rfl

theorem dispatchLocked_owner (server : Server) (permit : ReservedDispatch) (job : Job)
    (dispatchId : String) (other : Uuid) :
    (server.dispatchLocked permit job dispatchId).owner other = server.owner other := by
  simp only [dispatchLocked]
  split
  · rfl
  · next worker hworker =>
    split
    · exact owner_update hworker rfl (by rfl) other
    · split
      · exact owner_update hworker rfl (by rfl) other
      · exact owner_update hworker (by rw [send_workers]) (by rfl) other

theorem dispatchLocked_handlers (server : Server) (permit : ReservedDispatch) (job : Job)
    (dispatchId : String) :
    (server.dispatchLocked permit job dispatchId).handlers = server.handlers := by
  simp only [dispatchLocked]
  split
  · rfl
  · split
    · rfl
    · split
      · rfl
      · exact send_handlers server _ _

theorem reserve_owner (choice : Table.Choice) (queues : List QueueReservation)
    {server server' : Server} (hworkers : server'.workers = (reserve choice queues server.workers).1)
    (other : Uuid) : server'.owner other = server.owner other := by
  rw [owner, hworkers]
  refine reserve_induction (fun workers _ => (workers.lookup other).map WorkerState.outbound =
    server.owner other) rfl ?_
  intro workers reserved queueName workerId state hsame hlookup heligible
  rw [← hsame]
  let before : Server := { server with workers := workers }
  let after : Server := { server with workers := workers.insert workerId state.reserveSlot }
  have hafter : after.owner other = before.owner other := owner_update hlookup rfl (by rfl) other
  exact hafter

/-- The permits of a reservation are for workers of connections that own an entry. -/
theorem reserve_owned {choice : Table.Choice} {queues : List QueueReservation} {server : Server} :
    ∀ permit ∈ (reserve choice queues server.workers).2,
      server.owner permit.workerId = some permit.connection := by
  refine (reserve_induction (fun workers reserved =>
    (∀ workerId, (workers.lookup workerId).map WorkerState.outbound = server.owner workerId) ∧
      ∀ permit ∈ reserved, server.owner permit.workerId = some permit.connection)
    ⟨fun _ => rfl, by simp⟩ ?_).2
  rintro workers reserved queueName workerId state ⟨howner, hpermits⟩ hlookup -
  constructor
  · intro other
    let before : Server := { server with workers := workers }
    let after : Server := { server with workers := workers.insert workerId state.reserveSlot }
    have hafter : after.owner other = before.owner other := owner_update hlookup rfl (by rfl) other
    exact hafter.trans (howner other)
  · intro permit hpermit
    rcases List.mem_append.mp hpermit with hpermit | hpermit
    · exact hpermits permit hpermit
    · rw [List.mem_singleton.mp hpermit, ← howner, hlookup, Option.map_some]

theorem readFirst_handlers (allowed : List String) (server : Server) (connection : Nat)
    (input : Input) : ∃ handler, handler.instance? = none ∧
      (server.readFirst allowed connection input).handlers =
        server.handlers.set connection handler := by
  unfold readFirst
  split
  · split
    · exact ⟨_, rfl, setHandler_handlers server connection _⟩
    · exact ⟨_, rfl, map_handler_modify server.connections connection _ fun _ => rfl⟩
  · exact ⟨_, rfl, setHandler_handlers server connection _⟩

theorem readFirst_owner (allowed : List String) (server : Server) (connection : Nat)
    (input : Input) (workerId : Uuid) :
    (server.readFirst allowed connection input).owner workerId = server.owner workerId := by
  unfold readFirst
  split
  · split <;> rfl
  · rfl

/-- A frame in the loop keeps every owner and leaves the handler as it is or lets it leave. -/
theorem ReadStep.owned {server server' : Server} {connection : Nat} {instanceId : Uuid}
    {input : Input} (h : ReadStep server connection instanceId input server') :
    (∀ workerId, server'.owner workerId = server.owner workerId) ∧
    (server'.handlers = server.handlers ∨
      server'.handlers = server.handlers.set connection (.leaving instanceId)) := by
  cases h with
  | leave => exact ⟨fun _ => rfl, Or.inr (setHandler_handlers _ _ _)⟩
  | heartbeat => exact ⟨fun _ => rfl, Or.inl rfl⟩
  | result hstate => exact ⟨owner_update hstate rfl (by rfl), Or.inl rfl⟩
  | drain hstate =>
    exact ⟨owner_update hstate (send_workers _ _ _) (by rfl), Or.inl (send_handlers _ _ _)⟩
  | stopped hstate =>
    refine ⟨owner_update hstate (send_workers _ _ _) (by rfl), Or.inr ?_⟩
    rw [setHandler_handlers, send_handlers]
    rfl

theorem writeNext_handlers {codec : Codec} {server : Server} {connection : Nat} {conn : Connection}
    (hconn : server.connections[connection]? = some conn) (frame : OutboundFrame)
    (rest : List OutboundFrame) (accepted : Bool) :
    (server.writeNext codec connection conn frame rest accepted).handlers = server.handlers := by
  unfold writeNext
  split <;> exact Lists.map_set_self hconn rfl

theorem writeRefusal_handlers (codec : Codec) (server : Server) (connection : Nat)
    (conn : Connection) (accepted : Bool) :
    (server.writeRefusal codec connection conn accepted).handlers =
      server.handlers.set connection .returned :=
  List.map_set

theorem writeNext_owner (codec : Codec) (server : Server) (connection : Nat) (conn : Connection)
    (frame : OutboundFrame) (rest : List OutboundFrame) (accepted : Bool) (workerId : Uuid) :
    (server.writeNext codec connection conn frame rest accepted).owner workerId =
      server.owner workerId := by
  unfold writeNext
  split <;> rfl

theorem dispatch_owner (server : Server) (permit : ReservedDispatch) (job : Job) (other : Uuid) :
    (server.dispatch permit job).owner other = server.owner other := by
  unfold dispatch
  split
  · rfl
  · rw [dispatchLocked_owner]
    rfl

theorem dispatch_handlers (server : Server) (permit : ReservedDispatch) (job : Job) :
    (server.dispatch permit job).handlers = server.handlers := by
  unfold dispatch
  split
  · rfl
  · rw [dispatchLocked_handlers]
    rfl

theorem finish_owner (server : Server) (call : DispatchCall) (wrote : Bool) (other : Uuid) :
    (server.finish call wrote).owner other = server.owner other := by
  unfold finish
  split
  · rfl
  · exact releaseDispatched_owner server call.workerId call.dispatchId other

theorem finish_handlers (server : Server) (call : DispatchCall) (wrote : Bool) :
    (server.finish call wrote).handlers = server.handlers := by
  unfold finish
  split
  · rfl
  · exact releaseDispatched_handlers server call.workerId call.dispatchId

theorem remove_owner (server : Server) (connection : Nat) (instanceId workerId : Uuid) :
    owner { server.setHandler connection .returned with
      workers := server.workers.erase instanceId } workerId =
        if workerId = instanceId then none else server.owner workerId := by
  rw [owner]
  split
  · next heq =>
    rw [heq, AList.lookup_erase]
    rfl
  · next hne => rw [AList.lookup_erase_ne hne, owner]

theorem enroll_owned {server : Server} {connection : Nat} {old : Handler} {instanceId : Uuid}
    {queueName : String} {runningJobs freeSlots : UInt32} (h : server.Owned)
    (hold : server.handlers[connection]? = some old) (hout : old.entered = false) :
    (server.enroll connection instanceId queueName runningJobs freeSlots).Owned := by
  unfold enroll
  split
  · exact h.move (fun _ => rfl) hold (setHandler_handlers _ _ _) (Or.inl rfl) fun _ => rfl
  · next hnew =>
    refine h.enroll hold hout ?_ (owner_insert rfl (by rfl)) (setHandler_handlers _ _ _)
    rw [owner, AList.lookup_eq_none.mpr hnew]
    rfl

theorem announce_owner (server : Server) (connection : Nat) (instanceId : Uuid) (queueName : String)
    (workerId : Uuid) :
    (server.announce connection instanceId queueName).owner workerId = server.owner workerId := by
  have hworkers : (server.announce connection instanceId queueName).workers = server.workers :=
    send_workers server connection (.registered queueName)
  rw [owner, hworkers, owner]

/-- The handler waits for its acknowledgement, or gives up if there is no channel. -/
theorem announce_handlers (server : Server) (connection : Nat) (instanceId : Uuid)
    (queueName : String) : ∃ handler,
      (handler = .announcing instanceId queueName server.acks.length ∨ handler = .returned) ∧
      (server.announce connection instanceId queueName).handlers =
        server.handlers.set connection handler := by
  simp only [announce, setHandler_handlers, send_handlers]
  refine ⟨_, ?_, rfl⟩
  split
  · exact Or.inl rfl
  · exact Or.inr rfl

theorem announce_owned {server : Server} {connection : Nat} {instanceId : Uuid} {queueName : String}
    (h : server.Owned)
    (hold : server.handlers[connection]? = some (.inserted instanceId queueName)) :
    (server.announce connection instanceId queueName).Owned := by
  have howner := announce_owner server connection instanceId queueName
  obtain ⟨handler, rfl | rfl, hhandlers⟩ := announce_handlers server connection instanceId queueName
  · exact h.move howner hold hhandlers (Or.inr rfl) fun _ => rfl
  · exact h.move howner hold hhandlers (Or.inl rfl) fun _ => rfl

theorem initial_owned : initial.Owned := by
  constructor <;> simp [owner, handlers, initial]

/-- Whatever happens, entries keep their owners and handlers find their workers. -/
theorem transition_owned {codec : Codec} {allowed : List String} {server server' : Server}
    {action : Action} {event : Option WorkerEvent} (hinv : server.Owned)
    (h : Transition codec allowed server action server' event) : server'.Owned := by
  cases h with
  | connect => exact hinv.connect (fun _ => rfl) (by simp [handlers])
  | @readFirst c conn input hconn hhandler =>
    obtain ⟨handler, hnone, hset⟩ := readFirst_handlers allowed server c input
    have hold := handlers_eq_some.mpr ⟨conn, hconn, hhandler⟩
    exact hinv.move (readFirst_owner allowed server c input) hold hset (Or.inl hnone)
      fun hentered => by cases hentered
  | @readNext c conn instanceId input hconn hhandler =>
    obtain ⟨howner, hsame | hset⟩ := (readNext_step server c instanceId input).owned
    · exact hinv.of_eq howner hsame
    · have hold := handlers_eq_some.mpr ⟨conn, hconn, hhandler⟩
      exact hinv.move howner hold hset (Or.inr rfl) fun _ => rfl
  | enroll hconn hhandler =>
    exact enroll_owned hinv (handlers_eq_some.mpr ⟨_, hconn, hhandler⟩) rfl
  | announce hconn hhandler =>
    exact announce_owned hinv (handlers_eq_some.mpr ⟨_, hconn, hhandler⟩)
  | acknowledge hconn hhandler =>
    exact hinv.move (fun _ => rfl) (handlers_eq_some.mpr ⟨_, hconn, hhandler⟩)
      (setHandler_handlers _ _ _) (Or.inr rfl) fun _ => rfl
  | abandon hconn hhandler =>
    exact hinv.move (fun _ => rfl) (handlers_eq_some.mpr ⟨_, hconn, hhandler⟩)
      (setHandler_handlers _ _ _) (Or.inl rfl) fun _ => rfl
  | @remove c conn instanceId hconn hhandler =>
    exact hinv.remove (handlers_eq_some.mpr ⟨_, hconn, hhandler⟩) rfl
      (remove_owner server c instanceId) (setHandler_handlers server c .returned)
  | writeRefusal hconn hhandler =>
    exact hinv.move (fun _ => rfl) (handlers_eq_some.mpr ⟨_, hconn, hhandler⟩)
      (writeRefusal_handlers _ _ _ _ _) (Or.inl rfl) fun _ => rfl
  | writeNext hconn =>
    exact hinv.of_eq (writeNext_owner _ _ _ _ _ _ _) (writeNext_handlers hconn _ _ _)
  | reserve => exact hinv.of_eq (reserve_owner _ _ rfl) rfl
  | release => exact hinv.of_eq (releasePermit_owner _ _) (releasePermit_handlers _ _)
  | dispatch => exact hinv.of_eq (dispatch_owner _ _ _) (dispatch_handlers _ _ _)
  | resume => exact hinv.of_eq (finish_owner _ _ _) (finish_handlers _ _ _)

theorem reachable_owned {codec : Codec} {allowed : List String} {server : Server}
    {admits : Server → Action → Prop}
    (h : Runs.Reachable (step codec allowed) admits initial server) : server.Owned := by
  obtain ⟨events, hrun⟩ := h
  exact hrun.invariant Owned initial_owned
    fun hinv _ hstep => transition_owned hinv (step_transition hstep)

/-! ### What a handler can do -/

/-- A step of the handler of one connection. -/
inductive HandlerMove (c : Nat) : Action → Handler → Handler → Prop
  | refuse {input : Input} : HandlerMove c (.read c input) .accepted .refusing
  | reject {input : Input} : HandlerMove c (.read c input) .accepted .returned
  | accept {instanceId : Uuid} {queueName : String} {runningJobs freeSlots : UInt32} :
      HandlerMove c (.read c (.frame (.register instanceId queueName runningJobs freeSlots)))
        .accepted (.registering instanceId queueName runningJobs freeSlots)
  | enroll {instanceId : Uuid} {queueName : String} {runningJobs freeSlots : UInt32}
      {new : Handler} (hnew : new = .inserted instanceId queueName ∨ new = .returned) :
      HandlerMove c (.register c) (.registering instanceId queueName runningJobs freeSlots) new
  | announce {instanceId : Uuid} {queueName : String} {ack : Nat} {new : Handler}
      (hnew : new = .announcing instanceId queueName ack ∨ new = .returned) :
      HandlerMove c (.announce c) (.inserted instanceId queueName) new
  | acknowledge {instanceId : Uuid} {queueName : String} {ack : Nat} {new : Handler}
      (hnew : new = .serving instanceId ∨ new = .returned) :
      HandlerMove c (.acknowledge c) (.announcing instanceId queueName ack) new
  | leave {instanceId : Uuid} {input : Input} :
      HandlerMove c (.read c input) (.serving instanceId) (.leaving instanceId)
  | remove {instanceId : Uuid} : HandlerMove c (.remove c) (.leaving instanceId) .returned
  | refused {accepted : Bool} : HandlerMove c (.write c accepted) .refusing .returned

/-- What a step does to the handlers: one of them moves at most, or a connection is added. -/
inductive HandlerStep (server : Server) (action : Action) (handlers' : List Handler) : Prop
  | same (h : handlers' = server.handlers)
  | connect (h : handlers' = server.handlers ++ [.accepted])
  | move {c : Nat} {old new : Handler} (hold : server.handlers[c]? = some old)
      (hmove : HandlerMove c action old new) (h : handlers' = server.handlers.set c new)

section Handlers

variable {codec : Codec} {allowed : List String} {server server' : Server} {action : Action}
  {event : Option WorkerEvent} {connection : Nat}

theorem readFirst_move {conn : Connection} (allowed : List String)
    (hconn : server.connections[connection]? = some conn) (hhandler : conn.handler = .accepted)
    (input : Input) : HandlerStep server (.read connection input)
      (server.readFirst allowed connection input).handlers := by
  have hold := handlers_eq_some.mpr ⟨conn, hconn, hhandler⟩
  unfold readFirst
  split
  · split
    · exact .move hold .refuse (setHandler_handlers _ _ _)
    · exact .move hold .accept (map_handler_modify server.connections connection _ fun _ => rfl)
  · exact .move hold .reject (setHandler_handlers _ _ _)

theorem transition_handlers (h : Transition codec allowed server action server' event) :
    HandlerStep server action server'.handlers := by
  cases h with
  | connect => exact .connect (by simp [handlers])
  | readFirst hconn hhandler => exact readFirst_move allowed hconn hhandler _
  | @readNext c conn instanceId input hconn hhandler =>
    obtain ⟨-, hsame | hset⟩ := (readNext_step server c instanceId input).owned
    · exact .same hsame
    · exact .move (handlers_eq_some.mpr ⟨conn, hconn, hhandler⟩) .leave hset
  | @enroll c conn instanceId queueName runningJobs freeSlots hconn hhandler =>
    have hold := handlers_eq_some.mpr ⟨conn, hconn, hhandler⟩
    unfold enroll
    split
    · exact .move hold (.enroll (Or.inr rfl)) (setHandler_handlers _ _ _)
    · exact .move hold (.enroll (Or.inl rfl)) (setHandler_handlers server c _)
  | @announce c conn instanceId queueName hconn hhandler =>
    obtain ⟨handler, hnew, hset⟩ := announce_handlers server c instanceId queueName
    exact .move (handlers_eq_some.mpr ⟨conn, hconn, hhandler⟩) (.announce hnew) hset
  | acknowledge hconn hhandler =>
    exact .move (handlers_eq_some.mpr ⟨_, hconn, hhandler⟩) (.acknowledge (Or.inl rfl))
      (setHandler_handlers _ _ _)
  | abandon hconn hhandler =>
    exact .move (handlers_eq_some.mpr ⟨_, hconn, hhandler⟩) (.acknowledge (Or.inr rfl))
      (setHandler_handlers _ _ _)
  | @remove c conn instanceId hconn hhandler =>
    exact .move (handlers_eq_some.mpr ⟨conn, hconn, hhandler⟩) .remove
      (setHandler_handlers server c .returned)
  | writeRefusal hconn hhandler =>
    exact .move (handlers_eq_some.mpr ⟨_, hconn, hhandler⟩) .refused
      (writeRefusal_handlers _ _ _ _ _)
  | writeNext hconn => exact .same (writeNext_handlers hconn _ _ _)
  | reserve => exact .same rfl
  | release => exact .same (releasePermit_handlers _ _)
  | dispatch => exact .same (dispatch_handlers _ _ _)
  | resume => exact .same (finish_handlers _ _ _)

/-- Handlers that may have inserted a worker stay so. -/
theorem transition_entered (h : Transition codec allowed server action server' event)
    (hin : server.handlers[connection]?.any Handler.entered = true) :
    server'.handlers[connection]?.any Handler.entered = true := by
  cases hhandler : server.handlers[connection]? with
  | none => simp [hhandler] at hin
  | some handler =>
    rw [hhandler, Option.any_some] at hin
    cases transition_handlers h with
    | same hsame => rwa [hsame, hhandler, Option.any_some]
    | connect happend =>
      have hlt := (List.getElem?_eq_some_iff.mp hhandler).1
      rwa [happend, List.getElem?_append_left hlt, hhandler, Option.any_some]
    | @move c old new hold hmove hset =>
      rw [hset]
      by_cases heq : c = connection
      · subst heq
        obtain rfl := Option.some.inj (hold.symm.trans hhandler)
        rw [List.getElem?_set_self (List.getElem?_eq_some_iff.mp hold).1, Option.any_some]
        cases hmove with
        | refuse | reject | accept | refused => cases hin
        | enroll hnew | announce hnew | acknowledge hnew => rcases hnew with rfl | rfl <;> rfl
        | leave | remove => rfl
      · rwa [List.getElem?_set_ne heq, hhandler, Option.any_some]

/-- A handler registers what its first frame says. -/
theorem transition_registering (h : Transition codec allowed server action server' event)
    {instanceId : Uuid} {queueName : String} {runningJobs freeSlots : UInt32}
    (hafter : server'.handlers[connection]? =
      some (.registering instanceId queueName runningJobs freeSlots)) :
    server.handlers[connection]? =
        some (.registering instanceId queueName runningJobs freeSlots) ∨
      action = .read connection
        (.frame (.register instanceId queueName runningJobs freeSlots)) := by
  cases transition_handlers h with
  | same hsame => exact Or.inl (hsame ▸ hafter)
  | connect happend =>
    rw [happend, List.getElem?_append] at hafter
    split at hafter
    · exact Or.inl hafter
    · have hmem := List.mem_of_getElem? hafter
      simp at hmem
  | @move c old new hold hmove hset =>
    rw [hset] at hafter
    rcases Lists.getElem?_set_of_some hold hafter with ⟨rfl, rfl⟩ | ⟨-, hbefore⟩
    · cases hmove with
      | accept => exact Or.inr rfl
      | enroll hnew | announce hnew | acknowledge hnew => rcases hnew with hnew | hnew <;> cases hnew
    · exact Or.inl hbefore

end Handlers

end Server

end Maqistor
