import Maqistor.Dispatcher.Delivery

/-! What one step of the dispatcher does to the registry and to the frames of each connection. -/

namespace Maqistor.Server

/-- Every entry comes from an entry of the same worker, by a change that `R` allows. -/
def Follows (R : WorkerState → WorkerState → Prop) (workers workers' : WorkerRegistry) : Prop :=
  ∀ {workerId state'}, workers'.lookup workerId = some state' →
    ∃ state, workers.lookup workerId = some state ∧ R state state'

/-- `R` allows what reservations and dispatches change. -/
structure Allows (R : WorkerState → WorkerState → Prop) : Prop where
  refl : ∀ state, R state state
  trans : ∀ {state state' state''}, R state state' → R state' state'' → R state state''
  reserve : ∀ state, R state state.reserveSlot
  release : ∀ state, R state state.releaseSlot
  flight : ∀ state dispatches, R state { state with inFlightDispatches := dispatches }

section Follows

variable {R : WorkerState → WorkerState → Prop} {workers workers' : WorkerRegistry}

theorem Follows.refl (hrefl : ∀ state, R state state) (workers : WorkerRegistry) : Follows R workers workers :=
  fun hlookup => ⟨_, hlookup, hrefl _⟩

theorem Follows.insert (hrefl : ∀ state, R state state) {workerId : Uuid} {old new : WorkerState}
    (hold : workers.lookup workerId = some old) (hnew : R old new) :
    Follows R workers (workers.insert workerId new) := by
  intro other state' hlookup
  by_cases heq : other = workerId
  · subst heq
    rw [AList.lookup_insert, Option.some.injEq] at hlookup
    exact ⟨old, hold, hlookup ▸ hnew⟩
  · rw [AList.lookup_insert_ne heq] at hlookup
    exact ⟨state', hlookup, hrefl _⟩

theorem Follows.erase (hrefl : ∀ state, R state state) (workerId : Uuid) :
    Follows R workers (workers.erase workerId) := by
  intro other state' hlookup
  by_cases heq : other = workerId
  · subst heq
    rw [AList.lookup_erase] at hlookup
    cases hlookup
  · rw [AList.lookup_erase_ne heq] at hlookup
    exact ⟨state', hlookup, hrefl _⟩

theorem Follows.reserve (hrefl : ∀ state, R state state)
    (htrans : ∀ {state state' state''}, R state state' → R state' state'' → R state state'')
    (hreserve : ∀ state, R state state.reserveSlot) (choice : Table.Choice)
    (queues : List QueueReservation) (workers : WorkerRegistry) :
    Follows R workers (Maqistor.reserve choice queues workers).1 := by
  refine reserve_induction (fun after _ => Follows R workers after) (Follows.refl hrefl workers) ?_
  intro after reserved queueName workerId state hfollows hlookup _ other state' hother
  obtain ⟨middle, hmiddle, hchange⟩ := Follows.insert hrefl hlookup (hreserve state) hother
  obtain ⟨first, hfirst, hbefore⟩ := hfollows hmiddle
  exact ⟨first, hfirst, htrans hbefore hchange⟩

end Follows

/-- What a step does to the registry, up to changes that `R` allows: a worker is inserted by its
handler, a result is recorded, a drain begins, or none of these. -/
inductive RegistryStep (R : WorkerState → WorkerState → Prop) (server : Server)
    (workers' : WorkerRegistry) : Action → Prop
  | follows {action : Action} (h : Follows R server.workers workers') :
      RegistryStep R server workers' action
  | enroll {c : Nat} {conn : Connection} {instanceId : Uuid} {queueName : String}
      {runningJobs freeSlots : UInt32} (hconn : server.connections[c]? = some conn)
      (hhandler : conn.handler = .registering instanceId queueName runningJobs freeSlots)
      (hworkers : workers' = server.workers.insert instanceId
        (.registered queueName runningJobs freeSlots c)) :
      RegistryStep R server workers' (.register c)
  | result {c : Nat} {conn : Connection} {instanceId : Uuid} {state : WorkerState}
      {jobId : Int} {dispatchId : String} {result : JobResult} {runningJobs freeSlots : UInt32}
      (hconn : server.connections[c]? = some conn) (hhandler : conn.handler = .serving instanceId)
      (hstate : server.workers.lookup instanceId = some state)
      (hworkers : workers' = server.workers.insert instanceId
        (state.recordWorkerResult dispatchId runningJobs freeSlots)) :
      RegistryStep R server workers'
        (.read c (.frame (.jobResult jobId dispatchId result runningJobs freeSlots)))
  | drain {c : Nat} {conn : Connection} {instanceId : Uuid} {state : WorkerState}
      (hconn : server.connections[c]? = some conn) (hhandler : conn.handler = .serving instanceId)
      (hstate : server.workers.lookup instanceId = some state)
      (hworkers : workers' = server.workers.insert instanceId state.beginDrain) :
      RegistryStep R server workers' (.read c (.frame .drain))

section RegistryStep

variable {R : WorkerState → WorkerState → Prop} {codec : Codec} {allowed : List String}
  {server server' : Server} {action : Action} {event : Option WorkerEvent}

theorem dispatchLocked_follows (hR : Allows R) (server : Server) (permit : ReservedDispatch)
    (job : Job) (dispatchId : String) :
    Follows R server.workers (server.dispatchLocked permit job dispatchId).workers := by
  simp only [dispatchLocked]
  split
  · exact Follows.refl hR.refl _
  · next worker hworker =>
    split
    · exact Follows.insert hR.refl hworker (hR.release worker)
    · split
      · exact Follows.insert hR.refl hworker (hR.release worker)
      · rw [send_workers]
        exact Follows.insert hR.refl hworker (hR.trans (hR.release worker) (hR.flight _ _))

theorem ReadStep.registry {c : Nat} {conn : Connection} {instanceId : Uuid} {input : Input}
    (h : ReadStep server c instanceId input server') (hR : Allows R)
    (hconn : server.connections[c]? = some conn) (hhandler : conn.handler = .serving instanceId) :
    RegistryStep R server server'.workers (.read c input) := by
  cases h with
  | leave | heartbeat => exact .follows (Follows.refl hR.refl _)
  | result hstate => exact .result hconn hhandler hstate rfl
  | drain hstate | stopped hstate => exact .drain hconn hhandler hstate (send_workers _ _ _)

theorem transition_registry (hR : Allows R)
    (h : Transition codec allowed server action server' event) :
    RegistryStep R server server'.workers action := by
  have hsame : ∀ {action}, RegistryStep R server server.workers action :=
    .follows (Follows.refl hR.refl _)
  cases h with
  | connect | acknowledge | abandon | writeRefusal => exact hsame
  | readFirst =>
    unfold readFirst
    split
    · split <;> exact hsame
    · exact hsame
  | readNext hconn hhandler => exact (readNext_step server _ _ _).registry hR hconn hhandler
  | enroll hconn hhandler =>
    unfold enroll
    split
    · exact hsame
    · exact .enroll hconn hhandler rfl
  | @announce c _ instanceId queueName =>
    have hworkers : (server.announce c instanceId queueName).workers = server.workers :=
      send_workers server c (.registered queueName)
    rw [hworkers]
    exact hsame
  | remove => exact .follows (Follows.erase hR.refl _)
  | writeNext =>
    unfold writeNext
    split <;> exact hsame
  | reserve => exact .follows (Follows.reserve hR.refl hR.trans hR.reserve _ _ _)
  | @release i permit hpermit =>
    unfold releasePermit
    split
    · exact hsame
    · next worker hworker => exact .follows (Follows.insert hR.refl hworker (hR.release worker))
  | @dispatch i permit job hpermit =>
    unfold dispatch
    split
    · exact hsame
    · exact .follows (dispatchLocked_follows hR _ permit job _)
  | @resume i call wrote hcall hack =>
    unfold finish releaseDispatched
    split
    · exact hsame
    · split
      · exact hsame
      · next worker hworker => exact .follows (Follows.insert hR.refl hworker (hR.flight worker _))

end RegistryStep

/-! ### The frames of a connection -/

/-- The messages that were put on a connection's channel. -/
def sentTo (server : Server) (connection : Nat) : List WorkerMessage :=
  match server.connections[connection]? with
  | some conn => conn.sent.map OutboundFrame.message
  | none => []

/-- A step that puts no frame on a channel. -/
def SameSent (server server' : Server) : Prop := ∀ c, server'.sentTo c = server.sentTo c

section Sent

variable {codec : Codec} {allowed : List String} {server server' : Server} {c : Nat}
  {conn : Connection} {action : Action} {event : Option WorkerEvent}

theorem sentTo_eq (hconn : server.connections[c]? = some conn) :
    server.sentTo c = conn.sent.map OutboundFrame.message := by
  rw [sentTo, hconn]

theorem sameSent_of_eq (h : server'.connections = server.connections) : SameSent server server' := by
  intro c
  rw [sentTo, h, sentTo]

theorem sameSent_set {conn' : Connection} (hconn : server.connections[c]? = some conn)
    (h : server'.connections = server.connections.set c conn') (hsent : conn'.sent = conn.sent) :
    SameSent server server' := by
  intro other
  by_cases heq : other = c
  · subst heq
    have hlt := (List.getElem?_eq_some_iff.mp hconn).1
    rw [sentTo, h, List.getElem?_set_self hlt, sentTo_eq hconn, ← hsent]
  · rw [sentTo, h, List.getElem?_set_ne (Ne.symm heq), sentTo]

theorem sameSent_setHandler (hconn : server.connections[c]? = some conn) (handler : Handler) :
    SameSent server (server.setHandler c handler) :=
  sameSent_set hconn (Lists.modify_of_some hconn) rfl

/-- A send puts its message on the channel, or there is no channel. -/
theorem send_sent (server : Server) (target : Nat) (message : WorkerMessage) :
    ((server.send target message).2 = true ∧ ∀ c, (server.send target message).1.sentTo c =
      if c = target then server.sentTo c ++ [message] else server.sentTo c) ∨
    ((server.send target message).2 = false ∧ SameSent server (server.send target message).1) := by
  cases hconn : server.connections[target]? with
  | none => exact Or.inr ⟨by simp [Server.send, hconn], fun c => by simp [Server.send, hconn, sentTo]⟩
  | some conn =>
    rcases send_connections hconn message with ⟨-, hqueued, hconnections, -⟩ |
      ⟨-, hqueued, hconnections, -⟩
    · refine Or.inl ⟨hqueued, fun c => ?_⟩
      split
      · next heq =>
        subst heq
        have hlt := (List.getElem?_eq_some_iff.mp hconn).1
        rw [sentTo, hconnections, List.getElem?_set_self hlt, sentTo_eq hconn]
        simp
      · next hne => rw [sentTo, hconnections, List.getElem?_set_ne (Ne.symm hne), sentTo]
    · exact Or.inr ⟨hqueued, sameSent_of_eq hconnections⟩

/-- What a step does to the channels: it leaves them alone, or puts one frame on one of them, which
announces a worker, ends its reservations or dispatches a job to it. -/
inductive ChannelStep (server server' : Server) : Prop
  | same (hsent : SameSent server server') (hqueued : server'.queued = server.queued)
  | registered {target : Nat} {queueName : String}
      (hsent : ∀ c, server'.sentTo c =
        if c = target then server.sentTo c ++ [.registered queueName] else server.sentTo c)
      (hqueued : server'.queued = server.queued)
  | draining {target : Nat} {instanceId : Uuid} {state : WorkerState}
      (hsent : ∀ c, server'.sentTo c =
        if c = target then server.sentTo c ++ [.draining] else server.sentTo c)
      (hqueued : server'.queued = server.queued)
      (hstate : server.workers.lookup instanceId = some state) (htarget : state.outbound = target)
      (hworkers : server'.workers = server.workers.insert instanceId state.beginDrain)
  | dispatch {target : Nat} {workerId : Uuid} {state : WorkerState} {job : Job} {dispatchId : String}
      (hsent : ∀ c, server'.sentTo c = if c = target then
        server.sentTo c ++ [dispatchMessage job dispatchId] else server.sentTo c)
      (hqueued : server'.queued = (target, dispatchId) :: server.queued)
      (hstate : server.workers.lookup workerId = some state) (htarget : state.outbound = target)
      (hserving : state.draining = false)

theorem dispatchLocked_channels (server : Server) (permit : ReservedDispatch) (job : Job)
    (dispatchId : String) : ChannelStep server (server.dispatchLocked permit job dispatchId) := by
  simp only [dispatchLocked]
  split
  · exact .same (fun _ => rfl) rfl
  · next worker hworker =>
    split
    · exact .same (fun _ => rfl) rfl
    · next hserving =>
      split
      · exact .same (fun _ => rfl) rfl
      · rcases send_sent server worker.outbound (dispatchMessage job dispatchId) with
          ⟨hqueued, hsent⟩ | ⟨hqueued, hsent⟩
        · refine .dispatch hsent ?_ hworker rfl (Bool.eq_false_iff.mpr hserving)
          simp [hqueued]
        · refine .same hsent ?_
          simp [hqueued]

theorem ChannelStep.of_eq {before : Server} (h : ChannelStep before server')
    (hconnections : before.connections = server.connections)
    (hworkers : before.workers = server.workers) (hqueued : before.queued = server.queued) :
    ChannelStep server server' := by
  have hsame : ∀ c, before.sentTo c = server.sentTo c := fun c => by rw [sentTo, hconnections, sentTo]
  cases h with
  | same hsent hkept => exact .same (fun c => (hsent c).trans (hsame c)) (hkept.trans hqueued)
  | registered hsent hkept => exact .registered (by simpa only [hsame] using hsent) (hkept.trans hqueued)
  | draining hsent hkept hstate htarget hdrained =>
    exact .draining (by simpa only [hsame] using hsent) (hkept.trans hqueued) (hworkers ▸ hstate)
      htarget (hworkers ▸ hdrained)
  | dispatch hsent hadded hstate htarget hserving =>
    exact .dispatch (by simpa only [hsame] using hsent) (by rw [hadded, hqueued])
      (hworkers ▸ hstate) htarget hserving

theorem ReadStep.channels {instanceId : Uuid} {input : Input}
    (h : ReadStep server c instanceId input server') (hconn : server.connections[c]? = some conn)
    (hhandler : conn.handler = .serving instanceId) : ChannelStep server server' := by
  cases h with
  | leave => exact .same (sameSent_setHandler hconn _) rfl
  | heartbeat | result => exact .same (fun _ => rfl) rfl
  | @drain state hstate hqueued =>
    rcases send_sent (server.markDraining instanceId state) state.outbound .draining with
      ⟨-, hsent⟩ | ⟨hrefused, -⟩
    · exact .draining hsent (send_queued _ _ _) hstate rfl (send_workers _ _ _)
    · simp [hqueued] at hrefused
  | @stopped state hstate hqueued =>
    rcases send_sent (server.markDraining instanceId state) state.outbound .draining with
      ⟨hsent, -⟩ | ⟨-, hsent⟩
    · simp [hqueued] at hsent
    · have hsame := send_handlers (server.markDraining instanceId state) state.outbound .draining
      obtain ⟨after, hafter, -⟩ := handlers_eq_some.mp
        (hsame ▸ handlers_eq_some.mpr ⟨conn, hconn, hhandler⟩)
      exact .same (fun c => (sameSent_setHandler hafter _ c).trans (hsent c)) (send_queued _ _ _)

theorem transition_channels (h : Transition codec allowed server action server' event) :
    ChannelStep server server' := by
  cases h with
  | connect =>
    refine .same (fun c => ?_) rfl
    rw [sentTo, sentTo]
    by_cases hlt : c < server.connections.length
    · rw [List.getElem?_append_left hlt]
    · rw [List.getElem?_eq_none (Nat.le_of_not_lt hlt)]
      split
      · next conn hconn =>
        rw [List.getElem?_append_right (Nat.le_of_not_lt hlt)] at hconn
        rw [List.mem_singleton.mp (List.mem_of_getElem? hconn)]
        rfl
      · rfl
  | @readFirst c conn input hconn =>
    unfold readFirst
    split
    · split
      · exact .same (sameSent_setHandler hconn _) rfl
      · exact .same (sameSent_set hconn (Lists.modify_of_some hconn) rfl) rfl
    · exact .same (sameSent_setHandler hconn _) rfl
  | readNext hconn hhandler => exact (readNext_step server _ _ _).channels hconn hhandler
  | enroll hconn hhandler =>
    unfold enroll
    split <;> exact .same (sameSent_setHandler hconn _) rfl
  | @announce c conn instanceId queueName hconn hhandler =>
    have hold := handlers_eq_some.mpr ⟨conn, hconn, hhandler⟩
    rw [← send_handlers server c (.registered queueName)] at hold
    obtain ⟨after, hafter, -⟩ := handlers_eq_some.mp hold
    simp only [announce]
    rcases send_sent server c (.registered queueName) with ⟨-, hsent⟩ | ⟨-, hsent⟩
    · exact .registered (fun other => (sameSent_setHandler hafter _ other).trans (hsent other))
        (send_queued _ _ _)
    · exact .same (fun other => (sameSent_setHandler hafter _ other).trans (hsent other))
        (send_queued _ _ _)
  | acknowledge hconn | abandon hconn | remove hconn =>
    exact .same (sameSent_setHandler hconn _) rfl
  | writeRefusal hconn => exact .same (sameSent_set hconn rfl rfl) rfl
  | writeNext hconn =>
    unfold writeNext
    split <;> exact .same (sameSent_set hconn rfl rfl) rfl
  | reserve => exact .same (fun _ => rfl) rfl
  | release =>
    unfold releasePermit
    split <;> exact .same (fun _ => rfl) rfl
  | @dispatch i permit job hpermit =>
    unfold dispatch
    split
    · exact .same (fun _ => rfl) rfl
    · exact (dispatchLocked_channels _ permit job _).of_eq rfl rfl rfl
  | @resume i call wrote hcall hack =>
    unfold finish releaseDispatched
    split
    · exact .same (fun _ => rfl) rfl
    · split <;> exact .same (fun _ => rfl) rfl

/-- Connections stay, and what was written to them stays written. -/
def Grows (server server' : Server) : Prop :=
  ∀ (c : Nat) (conn : Connection), server.connections[c]? = some conn →
    ∃ conn', server'.connections[c]? = some conn' ∧ conn.written <+: conn'.written

theorem grows_of_eq (h : server'.connections = server.connections) : Grows server server' :=
  fun _ conn hconn => ⟨conn, by rw [h, hconn], List.prefix_refl _⟩

theorem grows_set {conn' : Connection} (hconn : server.connections[c]? = some conn)
    (h : server'.connections = server.connections.set c conn')
    (hwritten : conn.written <+: conn'.written) : Grows server server' := by
  intro other before hbefore
  by_cases heq : other = c
  · subst heq
    obtain rfl : conn = before := Option.some.inj (hconn.symm.trans hbefore)
    have hlt := (List.getElem?_eq_some_iff.mp hconn).1
    exact ⟨conn', by rw [h, List.getElem?_set_self hlt], hwritten⟩
  · exact ⟨before, by rw [h, List.getElem?_set_ne (Ne.symm heq), hbefore], List.prefix_refl _⟩

theorem grows_setHandler (hconn : server.connections[c]? = some conn) (handler : Handler) :
    Grows server (server.setHandler c handler) :=
  grows_set hconn (Lists.modify_of_some hconn) (by exact List.prefix_refl _)

theorem grows_send (server : Server) (target : Nat) (message : WorkerMessage) :
    Grows server (server.send target message).1 := by
  cases hconn : server.connections[target]? with
  | none => exact grows_of_eq (by simp [Server.send, hconn])
  | some conn =>
    rcases send_connections hconn message with ⟨-, -, hconnections, -⟩ | ⟨-, -, hconnections, -⟩
    · exact grows_set hconn hconnections (by exact List.prefix_refl _)
    · exact grows_of_eq hconnections

theorem Grows.trans {middle : Server} (h : Grows server middle) (h' : Grows middle server') :
    Grows server server' := by
  intro c conn hconn
  obtain ⟨between, hbetween, hfirst⟩ := h c conn hconn
  obtain ⟨after, hafter, hsecond⟩ := h' c between hbetween
  exact ⟨after, hafter, hfirst.trans hsecond⟩

theorem grows_send_setHandler (server : Server) {target : Nat}
    (hconn : server.connections[c]? = some conn)
    (message : WorkerMessage) (handler : Handler) :
    Grows server ((server.send target message).1.setHandler c handler) := by
  obtain ⟨after, hafter, -⟩ := grows_send server target message c conn hconn
  exact (grows_send server target message).trans (grows_setHandler hafter handler)

theorem ReadStep.grows {instanceId : Uuid} {input : Input}
    (h : ReadStep server c instanceId input server') (hconn : server.connections[c]? = some conn) :
    Grows server server' := by
  cases h with
  | leave => exact grows_setHandler hconn _
  | heartbeat | result => exact grows_of_eq rfl
  | @drain state => exact grows_send (server.markDraining instanceId state) _ _
  | @stopped state => exact grows_send_setHandler (server.markDraining instanceId state) hconn _ _

theorem transition_grows (h : Transition codec allowed server action server' event) :
    Grows server server' := by
  cases h with
  | connect =>
    intro c conn hconn
    exact ⟨conn, (List.getElem?_append_left (List.getElem?_eq_some_iff.mp hconn).1).trans hconn,
      List.prefix_refl _⟩
  | @readFirst c conn input hconn =>
    unfold readFirst
    split
    · split
      · exact grows_setHandler hconn _
      · exact grows_set hconn (Lists.modify_of_some hconn) (by exact List.prefix_refl _)
    · exact grows_setHandler hconn _
  | readNext hconn => exact (readNext_step server _ _ _).grows hconn
  | enroll hconn =>
    unfold enroll
    split <;> exact grows_setHandler hconn _
  | announce hconn => exact grows_send_setHandler server hconn _ _
  | acknowledge hconn | abandon hconn | remove hconn => exact grows_setHandler hconn _
  | writeRefusal hconn =>
    refine grows_set hconn rfl ?_
    dsimp only
    split
    · exact List.prefix_append _ _
    · exact List.prefix_refl _
  | writeNext hconn =>
    unfold writeNext
    split
    · exact grows_set hconn rfl (by exact List.prefix_append _ _)
    · exact grows_set hconn rfl (by exact List.prefix_refl _)
  | reserve => exact grows_of_eq rfl
  | release =>
    unfold releasePermit
    split <;> exact grows_of_eq rfl
  | @dispatch i permit job hpermit =>
    unfold dispatch
    split
    · exact grows_of_eq rfl
    · simp only [dispatchLocked]
      split
      · exact grows_of_eq rfl
      · split
        · exact grows_of_eq rfl
        · split
          · exact grows_of_eq rfl
          · exact grows_send { server with
              permits := server.permits.eraseIdx i, issued := _ :: server.issued } _ _
  | @resume i call wrote hcall hack =>
    exact grows_of_eq (finish_frames { server with calls := server.calls.eraseIdx i } call wrote).1

/-- What was put on a channel stays there. -/
theorem transition_sent_grows (h : Transition codec allowed server action server' event) (c : Nat) :
    server.sentTo c <+: server'.sentTo c := by
  have hpush : ∀ {target : Nat} {message : WorkerMessage}, (∀ c, server'.sentTo c =
      if c = target then server.sentTo c ++ [message] else server.sentTo c) →
      server.sentTo c <+: server'.sentTo c := by
    intro target message hsent
    rw [hsent]
    split
    · exact List.prefix_append _ _
    · exact List.prefix_refl _
  cases transition_channels h with
  | same hsent => rw [hsent]
  | registered hsent => exact hpush hsent
  | draining hsent => exact hpush hsent
  | dispatch hsent => exact hpush hsent

end Sent

/-! ### Dispatches in flight -/

/-- What a step does to the dispatches in flight of a worker that it leaves with `state'`: a new
worker has none, and one id at most is added, with its frame. -/
inductive FlightStep (server server' : Server) (workerId : Uuid) (state' : WorkerState) : Prop
  | empty (hflight : state'.inFlightDispatches = ∅)
  | fewer {state : WorkerState} (hstate : server.workers.lookup workerId = some state)
      (hflight : state'.inFlightDispatches ⊆ state.inFlightDispatches)
  | dispatch {state : WorkerState} {job : Job} {dispatchId : String}
      (hstate : server.workers.lookup workerId = some state)
      (hflight : state'.inFlightDispatches = insert dispatchId state.inFlightDispatches)
      (hsent : server'.sentTo state.outbound =
        server.sentTo state.outbound ++ [dispatchMessage job dispatchId])

/-- A change that leaves the dispatches in flight alone. -/
def SameFlight (state state' : WorkerState) : Prop :=
  state'.inFlightDispatches = state.inFlightDispatches

/-- A flight step for every worker. -/
def Flies (server server' : Server) : Prop :=
  ∀ workerId state', server'.workers.lookup workerId = some state' →
    FlightStep server server' workerId state'

section Flight

variable {codec : Codec} {allowed : List String} {server server' : Server} {action : Action}
  {event : Option WorkerEvent}

theorem flies_of_follows (h : Follows SameFlight server.workers server'.workers) :
    Flies server server' := by
  intro workerId state' hlookup
  obtain ⟨state, hstate, heq⟩ := h hlookup
  exact .fewer hstate (Finset.subset_of_eq heq)

theorem flies_of_eq (h : server'.workers = server.workers) : Flies server server' :=
  fun _ _ hlookup => .fewer (h ▸ hlookup) (Finset.Subset.refl _)

/-- Only the entry of one worker is written. -/
theorem flies_of_insert {workerId : Uuid} {new : WorkerState}
    (hworkers : server'.workers = server.workers.insert workerId new)
    (hnew : FlightStep server server' workerId new) : Flies server server' := by
  intro other state' hlookup
  rw [hworkers] at hlookup
  rcases lookup_insert_cases hlookup with ⟨rfl, rfl⟩ | ⟨-, hold⟩
  · exact hnew
  · exact .fewer hold (Finset.Subset.refl _)

theorem Flies.of_eq {before : Server} (h : Flies before server')
    (hconnections : before.connections = server.connections)
    (hworkers : before.workers = server.workers) : Flies server server' := by
  intro workerId state' hlookup
  have hsame : ∀ c, before.sentTo c = server.sentTo c := fun c => by rw [sentTo, hconnections, sentTo]
  cases h workerId state' hlookup with
  | empty hflight => exact .empty hflight
  | fewer hstate hflight => exact .fewer (hworkers ▸ hstate) hflight
  | dispatch hstate hflight hsent =>
    exact .dispatch (hworkers ▸ hstate) hflight (hsent.trans (by rw [hsame]))

theorem dispatchLocked_flies (server : Server) (permit : ReservedDispatch) (job : Job)
    (dispatchId : String) : Flies server (server.dispatchLocked permit job dispatchId) := by
  simp only [dispatchLocked]
  split
  · exact flies_of_eq rfl
  · next worker hworker =>
    split
    · exact flies_of_insert rfl (.fewer hworker (Finset.Subset.refl _))
    · split
      · exact flies_of_insert rfl (.fewer hworker (Finset.Subset.refl _))
      · refine flies_of_insert (by rw [send_workers]) ?_
        rcases send_sent server worker.outbound (dispatchMessage job dispatchId) with
          ⟨hqueued, hsent⟩ | ⟨hqueued, -⟩
        · exact .dispatch hworker (if_pos hqueued) ((hsent worker.outbound).trans (if_pos rfl))
        · refine .fewer hworker ?_
          simp only [hqueued, Bool.false_eq_true, if_false]
          exact Finset.erase_insert_subset _ _

theorem ReadStep.flies {c : Nat} {instanceId : Uuid} {input : Input}
    (h : ReadStep server c instanceId input server') : Flies server server' := by
  cases h with
  | leave | heartbeat => exact flies_of_eq rfl
  | result hstate => exact flies_of_insert rfl (.fewer hstate (Finset.erase_subset _ _))
  | @drain state hstate | @stopped state hstate =>
    have hflight : SameFlight state state.beginDrain := rfl
    exact flies_of_insert (send_workers _ _ _) (.fewer hstate (Finset.subset_of_eq hflight))

theorem transition_flies (h : Transition codec allowed server action server' event) :
    Flies server server' := by
  have hrefl : ∀ state, SameFlight state state := fun _ => rfl
  cases h with
  | connect | acknowledge | abandon | writeRefusal => exact flies_of_eq rfl
  | readFirst =>
    unfold readFirst
    split
    · split <;> exact flies_of_eq rfl
    · exact flies_of_eq rfl
  | readNext => exact (readNext_step server _ _ _).flies
  | enroll =>
    unfold enroll
    split
    · exact flies_of_eq rfl
    · exact flies_of_insert rfl (.empty rfl)
  | @announce c _ _ queueName => exact flies_of_eq (send_workers server c (.registered queueName))
  | @remove c conn instanceId =>
    have hfollows : Follows SameFlight server.workers (server.workers.erase instanceId) :=
      Follows.erase hrefl instanceId
    exact flies_of_follows hfollows
  | writeNext =>
    unfold writeNext
    split <;> exact flies_of_eq rfl
  | @reserve choice queues =>
    have hfollows : Follows SameFlight server.workers
        (Maqistor.reserve choice queues server.workers).1 :=
      Follows.reserve hrefl (fun h h' => Eq.trans h' h) (fun _ => rfl) choice queues _
    exact flies_of_follows hfollows
  | release =>
    unfold releasePermit
    split
    · exact flies_of_eq rfl
    · next worker hworker => exact flies_of_insert rfl (.fewer hworker (Finset.Subset.refl _))
  | @dispatch i permit job hpermit =>
    unfold dispatch
    split
    · exact flies_of_eq rfl
    · exact (dispatchLocked_flies _ permit job _).of_eq rfl rfl
  | @resume i call wrote hcall hack =>
    unfold finish releaseDispatched
    split
    · exact flies_of_eq rfl
    · split
      · exact flies_of_eq rfl
      · next worker hworker => exact flies_of_insert rfl (.fewer hworker (Finset.erase_subset _ _))

end Flight

end Maqistor.Server
