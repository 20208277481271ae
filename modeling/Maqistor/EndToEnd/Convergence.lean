import Maqistor.Dispatcher.Reservations
import Maqistor.EndToEnd.Link

/-! The server's view of a worker's capacity. A result carries the slots that its task read before
it was sent, so the view at rest is what the last result says. It is right in every run where no
result that is the last one outstanding carries slots that have changed since they were read. -/

namespace Maqistor

/-- The capacity that a result reports. -/
def WorkerMessage.snapshot : WorkerMessage → Option (UInt32 × UInt32)
  | .jobResult _ _ _ runningJobs freeSlots => some (runningJobs, freeSlots)
  | _ => none

theorem WorkerMessage.snapshot_eq_none {message : WorkerMessage} (h : message.resultIds = none) :
    message.snapshot = none := by
  cases message with
  | jobResult => cases h
  | _ => rfl

open Sdk

variable {P : Type}

namespace Link

/-- The last capacity that a worker reported, or the one it registered with. -/
def lastSnapshot (config : Config P) (messages : List WorkerMessage) : UInt32 × UInt32 :=
  (messages.filterMap WorkerMessage.snapshot).getLast?.getD (0, config.concurrency)

section Snapshots

variable {config : Config P} {messages rest : List WorkerMessage}

theorem lastSnapshot_append (h : rest.filterMap WorkerMessage.resultIds = []) :
    lastSnapshot config (messages ++ rest) = lastSnapshot config messages := by
  have hnone : rest.filterMap WorkerMessage.snapshot = [] := by
    rw [List.filterMap_eq_nil_iff] at h ⊢
    exact fun message hmem => WorkerMessage.snapshot_eq_none (h message hmem)
  rw [lastSnapshot, List.filterMap_append, hnone, List.append_nil, lastSnapshot]

theorem lastSnapshot_none (h : messages.filterMap WorkerMessage.resultIds = []) :
    lastSnapshot config messages = (0, config.concurrency) := by
  rw [← List.nil_append messages, lastSnapshot_append h]
  rfl

theorem lastSnapshot_result (jobId : Int) (dispatchId : String) (result : JobResult)
    (runningJobs freeSlots : UInt32) :
    lastSnapshot config (messages ++ [.jobResult jobId dispatchId result runningJobs freeSlots]) =
      (runningJobs, freeSlots) := by
  simp [lastSnapshot, WorkerMessage.snapshot]

end Snapshots

/-- The frames of the session that the server has read. -/
def processed (link : Link P) : List WorkerMessage := link.session.written.take link.read

/-- The jobs that were put on the channel of the connection. -/
def dispatched (link : Link P) : List (Int × String) :=
  (link.server.sentTo link.connection).filterMap WorkerMessage.dispatchIds

/-- The results that the session has sent. -/
def reported (link : Link P) : List (Int × String) :=
  (link.session.sent.map OutboundFrame.payload).filterMap WorkerMessage.resultIds

/-! ### Counting -/

section Counting

variable {config : Config P} {codec : Codec} {link : Link P}

/-- Jobs run for dispatches that were put on the channel, once for each. -/
theorem Joint.jobs_subperm (h : link.Joint config codec) :
    (link.session.jobs.map JobTask.ids).Subperm link.dispatched := by
  refine h.session.accepted.subperm.trans ?_
  rcases h.received_first with hsent | hrefused
  · exact (hsent.sublist.filterMap _).subperm
  · have hnone : link.session.received.filterMap WorkerMessage.dispatchIds = [] := by
      rw [List.filterMap_eq_nil_iff]
      intro message hmem
      rw [List.mem_singleton.mp (hrefused.subset hmem)]
      rfl
    rw [hnone]
    exact List.nil_subperm

theorem Joint.reported_subperm (h : link.Joint config codec) :
    link.reported.Subperm link.dispatched := by
  refine List.Subperm.trans ?_ h.jobs_subperm
  rw [reported, ← Session.map_key_fst]
  exact (h.session.reports.map _).subperm.trans (Session.keys_sublist _).subperm

/-- The results that were written are the first that were sent. -/
theorem Joint.written_first (h : link.Joint config codec) :
    link.session.written.filterMap WorkerMessage.resultIds <+: link.reported := by
  obtain ⟨done, rest, hsent, hwritten, -⟩ := h.session.outbox.flow
  rw [reported, hsent, hwritten, List.filterMap_cons_none rfl, List.map_append,
    List.filterMap_append]
  exact List.prefix_append _ _

theorem Joint.processed_subperm (h : link.Joint config codec) :
    (link.processed.filterMap WorkerMessage.resultIds).Subperm link.dispatched := by
  have htake : (link.processed.filterMap WorkerMessage.resultIds).Sublist
      (link.session.written.filterMap WorkerMessage.resultIds) :=
    (List.take_sublist _ _).filterMap _
  exact (htake.trans h.written_first.sublist).subperm.trans h.reported_subperm

theorem Joint.processed_count_le (h : link.Joint config codec) (dispatchId : String) :
    ((link.processed.filterMap WorkerMessage.resultIds).map Prod.snd).count dispatchId ≤
      (link.dispatched.map Prod.snd).count dispatchId := by
  obtain ⟨results, hperm, hsub⟩ := h.processed_subperm
  rw [← (hperm.map Prod.snd).count_eq]
  exact (hsub.map Prod.snd).count_le dispatchId

/-- A task that has sent its result holds no slot. -/
theorem slots_of_sent {task : JobTask P} {acks : List (Option Bool)} (h : task.Consistent acks)
    (hsent : task.key.isSome) : task.slots = 0 := by
  obtain ⟨ack, hack⟩ : ∃ ack, task.ack = some ack := by
    rw [JobTask.key, Option.isSome_map] at hsent
    exact Option.isSome_iff_exists.mp hsent
  unfold JobTask.slots
  split
  · next hphase =>
    rw [JobTask.Consistent, hphase, hack] at h
    cases h
  · next hphase =>
    rw [JobTask.Consistent, hphase, hack] at h
    cases h
  · rfl

/-- The last outstanding result is sent when every slot is free. -/
theorem Joint.permits_last (h : link.Joint config codec) {job : Nat} {task : JobTask P}
    {result : Except String (List UInt8)} {freeSlots : UInt32}
    (htask : link.session.jobs[job]? = some task) (hphase : task.phase = .sending result freeSlots)
    (hlast : link.dispatched.length ≤ link.reported.length + 1) :
    link.session.permits = config.concurrency.toNat := by
  obtain ⟨before, after, hjobs, -⟩ := Lists.split_set htask
  have hack := h.session.consistent task (List.mem_of_getElem? htask)
  have hunsent : task.key = none := by
    rw [JobTask.Consistent, hphase] at hack
    rw [JobTask.key, hack]
    rfl
  -- every other job has sent its result
  have hkeys : link.reported.length = (before.filterMap JobTask.key).length +
      (after.filterMap JobTask.key).length := by
    rw [reported, ← Session.map_key_fst, List.length_map, h.session.reports.length_eq, hjobs,
      List.filterMap_append, List.filterMap_cons_none hunsent, List.length_append]
  have hcount := h.jobs_subperm.length_le
  rw [List.length_map, hjobs, List.length_append, List.length_cons] at hcount
  have hbefore := List.length_filterMap_le JobTask.key before
  have hafter := List.length_filterMap_le JobTask.key after
  have hfree : ∀ other ∈ link.session.jobs, other.slots = 0 := by
    intro other hother
    have hconsistent := h.session.consistent other hother
    rw [hjobs] at hother
    rcases List.mem_append.mp hother with hmem | hmem
    · exact slots_of_sent hconsistent
        (List.filterMap_length_eq_length.mp (by omega) other hmem)
    · rcases List.mem_cons.mp hmem with rfl | hmem
      · simp [JobTask.slots, hphase]
      · exact slots_of_sent hconsistent
          (List.filterMap_length_eq_length.mp (by omega) other hmem)
  have hsum : (link.session.jobs.map JobTask.slots).sum = 0 := by
    refine List.sum_eq_zero fun slots hslots => ?_
    obtain ⟨other, hother, rfl⟩ := List.mem_map.mp hslots
    exact hfree other hother
  have hslots := h.session.slots
  omega

end Counting

/-! ### The invariant -/

/-- The worker does not shut down, and the jobs that are dispatched were claimed. -/
def staysInService : Action → Bool
  | .session .shutdown => false
  | .server action => Server.claimedJobs action
  | _ => true

/-- A job that sends its result carries the slots that are free now, or another result is still
outstanding. -/
def reportsCurrent (link : Link P) : Action → Bool
  | .session (.job job .report) =>
    link.session.jobs[job]?.all fun task =>
      match task.phase with
      | .sending _ freeSlots =>
        decide (freeSlots.toNat = link.session.permits ∨
          link.reported.length + 1 < link.dispatched.length)
      | _ => true
  | _ => true

/-- What the server has recorded of the worker of the connection. -/
structure Mirror (config : Config P) (link : Link P) (state : WorkerState) : Prop where
  capacity : state.capacitySlots = config.concurrency
  serving : state.draining = false
  view : (state.runningJobs, state.freeSlots) = lastSnapshot config link.processed
  flight : ∀ dispatchId ∈ state.inFlightDispatches,
    ((link.processed.filterMap WorkerMessage.resultIds).map Prod.snd).count dispatchId <
      (link.dispatched.map Prod.snd).count dispatchId

/-- The server's record follows the results that it has read, and when every dispatch has its result
the last one says that all slots are free. -/
structure Tracked (config : Config P) (codec : Codec) (link : Link P) : Prop where
  joint : link.Joint config codec
  backed : link.server.Backed
  quiet : ∀ frame ∈ link.session.sent, frame.payload = .heartbeat ∨ frame.payload.resultIds ≠ none
  read : link.read ≤ link.session.written.length
  registering : ∀ {instanceId queueName runningJobs freeSlots},
    link.server.handlers[link.connection]? =
      some (.registering instanceId queueName runningJobs freeSlots) →
    runningJobs = 0 ∧ freeSlots = config.concurrency
  record : ∀ {workerId state}, link.server.workers.lookup workerId = some state →
    state.outbound = link.connection → link.Mirror config state
  settled : link.reported.length = link.dispatched.length →
    lastSnapshot config (link.session.sent.map OutboundFrame.payload) = (0, config.concurrency)

section Tracked

variable {config : Config P} {codec : Codec} {allowed : List String} {link link' : Link P}

/-- The frames that the session writes while the worker is in service. -/
theorem Tracked.mem_written (h : link.Tracked config codec) {message : WorkerMessage}
    (hmem : message ∈ link.session.written) :
    message = config.register ∨ message = .heartbeat ∨ message.resultIds ≠ none := by
  obtain ⟨done, rest, hsent, hwritten, -⟩ := h.joint.session.outbox.flow
  rw [hwritten] at hmem
  rcases List.mem_cons.mp hmem with rfl | hmem
  · exact Or.inl rfl
  · obtain ⟨frame, hframe, rfl⟩ := List.mem_map.mp hmem
    exact Or.inr (h.quiet frame (hsent ▸ List.mem_append_left _ hframe))

theorem Mirror.of_eq {state : WorkerState} (h : link.Mirror config state)
    (hprocessed : link'.processed = link.processed) (hdispatched : link'.dispatched = link.dispatched) :
    link'.Mirror config state where
  capacity := h.capacity
  serving := h.serving
  view := by rw [hprocessed, h.view]
  flight := by
    rw [hprocessed, hdispatched]
    exact h.flight

/-- A step that sends no result leaves what the results say as it is. -/
theorem Tracked.settled_same (h : link.Tracked config codec) {session' : Session P}
    {frames : List Sdk.OutboundFrame} (hsent : session'.sent = link.session.sent ++ frames)
    (hnone : (frames.map OutboundFrame.payload).filterMap WorkerMessage.resultIds = [])
    (hall : (reported { link with session := session' }).length = link.dispatched.length) :
    lastSnapshot config (session'.sent.map OutboundFrame.payload) = (0, config.concurrency) := by
  have hsame : reported { link with session := session' } = link.reported := by
    rw [reported, reported, hsent, List.map_append, List.filterMap_append, hnone, List.append_nil]
  rw [hsent, List.map_append, lastSnapshot_append hnone]
  exact h.settled (hsame ▸ hall)

/-- The last outstanding result says that all slots are free, if it says what is free now. -/
theorem Tracked.settled_report (h : link.Tracked config codec) {session' : Session P} {job : Nat}
    {task : JobTask P} {result : Except String (List UInt8)} {freeSlots : UInt32} {ack : Option Nat}
    (htask : link.session.jobs[job]? = some task) (hphase : task.phase = .sending result freeSlots)
    (hsent : session'.sent =
      link.session.sent ++ [⟨task.resultFrame config result freeSlots, ack⟩])
    (hcurrent : freeSlots.toNat = link.session.permits ∨
      link.reported.length + 1 < link.dispatched.length)
    (hall : (reported { link with session := session' }).length = link.dispatched.length) :
    lastSnapshot config (session'.sent.map OutboundFrame.payload) = (0, config.concurrency) := by
  have hone : (reported { link with session := session' }).length = link.reported.length + 1 := by
    rw [reported, reported, hsent, List.map_append, List.filterMap_append, List.length_append]
    rfl
  have hpermits := h.joint.permits_last htask hphase (by omega)
  have hfree : freeSlots = config.concurrency := UInt32.toNat_inj.mp (by omega)
  have hnone : saturatingSub32 config.concurrency config.concurrency = 0 := by
    refine UInt32.toNat_inj.mp ?_
    rw [toNat_saturatingSub32, Nat.sub_self, UInt32.toNat_zero]
  rw [hsent, List.map_append, hfree]
  exact (lastSnapshot_result _ _ _ _ _).trans (by rw [hnone])

/-- A step of the session that is not the shutdown. -/
theorem Tracked.session (h : link.Tracked config codec) {action : Session.Action}
    {session' : Session P} (hjoint : Joint config codec { link with session := session' })
    (hshutdown : action ≠ .shutdown)
    (hcurrent : link.reportsCurrent (.session action) = true)
    (hstep : Session.Transition config codec link.session action session') :
    Tracked config codec { link with session := session' } := by
  have hprocessed : processed { link with session := session' } = link.processed := by
    obtain ⟨rest, hrest⟩ := hstep.written_grows
    simp only [processed]
    rw [← hrest, List.take_append_of_le_length h.read]
  have hbooks : ∀ {frames : List Sdk.OutboundFrame}, session'.sent = link.session.sent ++ frames →
      (∀ frame ∈ frames, frame.payload = .heartbeat ∨ frame.payload.resultIds ≠ none) →
      ((reported { link with session := session' }).length = link.dispatched.length →
        lastSnapshot config (session'.sent.map OutboundFrame.payload) = (0, config.concurrency)) →
      Tracked config codec { link with session := session' } := fun hsent hquiet hsettled =>
    { joint := hjoint
      backed := h.backed
      quiet := fun frame hframe => by
        rcases List.mem_append.mp (hsent ▸ hframe) with hframe | hframe
        · exact h.quiet frame hframe
        · exact hquiet frame hframe
      read := h.read.trans hstep.written_grows.length_le
      registering := h.registering
      record := fun hlookup howner => (h.record hlookup howner).of_eq hprocessed rfl
      settled := hsettled }
  cases hstep.sent with
  | same hsent =>
    have hnothing := hsent.trans (List.append_nil _).symm
    exact hbooks hnothing (by simp) (h.settled_same hnothing rfl)
  | heartbeat hsent => exact hbooks hsent (by simp) (h.settled_same hsent rfl)
  | drain => exact absurd rfl hshutdown
  | @result job task result freeSlots htask hphase hsent =>
    refine hbooks hsent (by simp [JobTask.resultFrame, WorkerMessage.resultIds]) fun hall => ?_
    refine h.settled_report htask hphase hsent ?_ hall
    simpa [reportsCurrent, htask, hphase] using hcurrent

end Tracked

/-- A worker keeps what it registered with and what it reported. -/
structure Steady (state state' : WorkerState) : Prop where
  outbound : state'.outbound = state.outbound
  capacity : state'.capacitySlots = state.capacitySlots
  running : state'.runningJobs = state.runningJobs
  free : state'.freeSlots = state.freeSlots
  draining : state'.draining = state.draining

theorem steady_allows : Server.Allows Steady where
  refl _ := ⟨rfl, rfl, rfl, rfl, rfl⟩
  trans h h' := ⟨h'.outbound.trans h.outbound, h'.capacity.trans h.capacity,
    h'.running.trans h.running, h'.free.trans h.free, h'.draining.trans h.draining⟩
  reserve _ := ⟨rfl, rfl, rfl, rfl, rfl⟩
  release _ := ⟨rfl, rfl, rfl, rfl, rfl⟩
  flight _ _ := ⟨rfl, rfl, rfl, rfl, rfl⟩

section Server

variable {config : Config P} {codec : Codec} {allowed : List String} {link : Link P}
  {action : Server.Action} {server' : Server} {event : Option WorkerEvent}

theorem dispatched_grows (hstep : Server.Transition codec allowed link.server action server' event)
    (read : Nat) : link.dispatched <+: dispatched { link with server := server', read := read } := by
  obtain ⟨rest, hrest⟩ := Server.transition_sent_grows hstep link.connection
  simp only [dispatched]
  rw [← hrest, List.filterMap_append]
  exact List.prefix_append _ _

/-- A job that is dispatched is one result more that is outstanding. -/
theorem Tracked.settled_server (h : link.Tracked config codec)
    (hstep : Server.Transition codec allowed link.server action server' event) {read : Nat}
    (hall : link.reported.length =
      (dispatched { link with server := server', read := read }).length) :
    lastSnapshot config (link.session.sent.map OutboundFrame.payload) = (0, config.concurrency) := by
  have hle := h.joint.reported_subperm.length_le
  have hgrown := (dispatched_grows hstep read).length_le
  exact h.settled (by omega)

/-- A dispatch in flight has no result that the server has read. -/
theorem Tracked.flight (h : link.Tracked config codec)
    (hstep : Server.Transition codec allowed link.server action server' event) {workerId : Uuid}
    {state state' : WorkerState} (hstate : link.server.workers.lookup workerId = some state)
    (howner : state.outbound = link.connection)
    (hlookup : server'.workers.lookup workerId = some state') :
    ∀ dispatchId ∈ state'.inFlightDispatches,
      ((link.processed.filterMap WorkerMessage.resultIds).map Prod.snd).count dispatchId <
        ((dispatched { link with server := server' }).map Prod.snd).count dispatchId := by
  have hgrown : ∀ dispatchId, (link.dispatched.map Prod.snd).count dispatchId ≤
      ((dispatched { link with server := server' }).map Prod.snd).count dispatchId := fun dispatchId =>
    ((dispatched_grows hstep link.read).sublist.map _).count_le dispatchId
  have hflight := (h.record hstate howner).flight
  intro dispatchId hmem
  cases Server.transition_flies hstep workerId state' hlookup with
  | empty hempty => simp [hempty] at hmem
  | fewer hbefore hfewer =>
    obtain rfl := Option.some.inj (hbefore.symm.trans hstate)
    exact (hflight dispatchId (hfewer hmem)).trans_le (hgrown dispatchId)
  | @dispatch before job added hbefore hadded hsent =>
    obtain rfl := Option.some.inj (hbefore.symm.trans hstate)
    rw [hadded] at hmem
    rcases Finset.mem_insert.mp hmem with rfl | hmem
    · have hle := h.joint.processed_count_le dispatchId
      have hone : dispatched { link with server := server' } =
          link.dispatched ++ [(job.id, dispatchId)] := by
        simp only [dispatched]
        rw [← howner, hsent, List.filterMap_append]
        rfl
      rw [hone, List.map_append, List.count_append, List.map_singleton, List.count_singleton_self]
      omega
    · exact (hflight dispatchId hmem).trans_le (hgrown dispatchId)

/-- What a step that reads no frame of the session leaves of the worker of the connection: the
worker that was there, or a new one. -/
theorem Tracked.worker (h : link.Tracked config codec)
    (hother : readsFrame link.connection action = false)
    (hstep : Server.Transition codec allowed link.server action server' event) {workerId : Uuid}
    {state' : WorkerState} (hlookup : server'.workers.lookup workerId = some state')
    (howner : state'.outbound = link.connection) :
    (∃ state, link.server.workers.lookup workerId = some state ∧ Steady state state') ∨
      link.dispatched = [] ∧ ∃ queueName, state' = .registered queueName 0 config.concurrency
        link.connection := by
  -- a handler in its loop owns its worker, so another connection changes another worker
  have hkept : ∀ {c : Nat} {conn : Connection} {instanceId : Uuid} {old new : WorkerState},
      link.server.connections[c]? = some conn → conn.handler = .serving instanceId →
      link.server.workers.lookup instanceId = some old →
      server'.workers = link.server.workers.insert instanceId new → new.outbound = old.outbound →
      c ≠ link.connection →
      ∃ state, link.server.workers.lookup workerId = some state ∧ Steady state state' := by
    intro c conn instanceId old new hconn hhandler hold hworkers hnew hne
    rw [hworkers] at hlookup
    rcases Server.lookup_insert_cases hlookup with ⟨rfl, rfl⟩ | ⟨-, hbefore⟩
    · have hentry := h.joint.server.owned.entry
        (Server.handlers_eq_some.mpr ⟨conn, hconn, hhandler⟩) rfl
      obtain ⟨found, hfound, heq⟩ := Server.owner_eq_some.mp hentry
      obtain rfl := Option.some.inj (hold.symm.trans hfound)
      exact absurd (heq.symm.trans (hnew.symm.trans howner)) hne
    · exact ⟨state', hbefore, steady_allows.refl _⟩
  cases Server.transition_registry steady_allows hstep with
  | follows hfollows => exact Or.inl (hfollows hlookup)
  | @enroll c conn instanceId queueName runningJobs freeSlots hconn hhandler hworkers =>
    rw [hworkers] at hlookup
    rcases Server.lookup_insert_cases hlookup with ⟨rfl, rfl⟩ | ⟨-, hold⟩
    · obtain rfl : c = link.connection := howner
      obtain ⟨rfl, rfl⟩ :=
        h.registering (Server.handlers_eq_some.mpr ⟨conn, hconn, hhandler⟩)
      have hentry := (h.joint.server.delivery.pipes hconn).entry
      simp only [Connection.Entry, hhandler] at hentry
      refine Or.inr ⟨?_, queueName, rfl⟩
      rw [dispatched, Server.sentTo_eq hconn, hentry.2.1]
      rfl
    · exact Or.inl ⟨state', hold, steady_allows.refl _⟩
  | result hconn hhandler hstate hworkers =>
    exact Or.inl (hkept hconn hhandler hstate hworkers rfl (by simpa [readsFrame] using hother))
  | drain hconn hhandler hstate hworkers =>
    exact Or.inl (hkept hconn hhandler hstate hworkers rfl (by simpa [readsFrame] using hother))

theorem Tracked.server (h : link.Tracked config codec)
    (hjoint : Joint config codec { link with server := server' })
    (hother : readsFrame link.connection action = false)
    (hclaimed : Server.claimedJobs action = true)
    (hstep : Server.Transition codec allowed link.server action server' event) :
    Tracked config codec { link with server := server' } where
  joint := hjoint
  backed := Server.transition_backed h.backed hclaimed hstep
  quiet := h.quiet
  read := h.read
  registering hregistering := by
    rcases Server.transition_registering hstep hregistering with hbefore | rfl
    · exact h.registering hbefore
    · simp [readsFrame] at hother
  record {workerId state'} hlookup howner := by
    rcases h.worker hother hstep hlookup howner with ⟨state, hstate, hsteady⟩ | ⟨hnone, queueName, rfl⟩
    · have hmine := hsteady.outbound.symm.trans howner
      have hmirror := h.record hstate hmine
      refine ⟨?_, ?_, ?_, h.flight hstep hstate hmine hlookup⟩
      · rw [hsteady.capacity, hmirror.capacity]
      · rw [hsteady.draining, hmirror.serving]
      · rw [hsteady.running, hsteady.free]
        exact hmirror.view
    · have hresults : link.processed.filterMap WorkerMessage.resultIds = [] := by
        have hle := h.joint.processed_subperm
        rw [hnone] at hle
        exact List.subperm_nil.mp hle
      refine ⟨?_, rfl, (lastSnapshot_none hresults).symm, fun dispatchId hmem => ?_⟩
      · refine UInt32.toNat_inj.mp ?_
        have hlt := config.concurrency.toNat_lt
        simp only [WorkerState.registered, toNat_saturatingAdd32, UInt32.toNat_zero]
        omega
      · simp [WorkerState.registered] at hmem
  settled := h.settled_server hstep

/-- The server has read one more frame. -/
theorem processed_succ {message : WorkerMessage}
    (hnext : link.session.written[link.read]? = some message) :
    processed { link with server := server', read := link.read + 1 } =
      link.processed ++ [message] := by
  rw [processed, processed, List.take_add_one, hnext]
  rfl

/-- A frame that is no result leaves the record as it is. -/
theorem Mirror.read {link' : Link P} {state : WorkerState} {message : WorkerMessage}
    (h : link.Mirror config state) (hprocessed : link'.processed = link.processed ++ [message])
    (hnone : message.resultIds = none) (hgrown : link.dispatched <+: link'.dispatched) :
    link'.Mirror config state where
  capacity := h.capacity
  serving := h.serving
  view := by rw [hprocessed, lastSnapshot_append (by simp [hnone]), h.view]
  flight dispatchId hmem := by
    rw [hprocessed, List.filterMap_append, List.filterMap_cons_none hnone, List.filterMap_nil,
      List.append_nil]
    exact (h.flight dispatchId hmem).trans_le ((hgrown.sublist.map _).count_le dispatchId)

/-- A result is recorded. -/
theorem Mirror.result {link' : Link P} {state : WorkerState} {jobId : Int} {dispatchId : String}
    {result : JobResult} {runningJobs freeSlots : UInt32} (h : link.Mirror config state)
    (hprocessed : link'.processed =
      link.processed ++ [.jobResult jobId dispatchId result runningJobs freeSlots])
    (hgrown : link.dispatched <+: link'.dispatched) :
    link'.Mirror config (state.recordWorkerResult dispatchId runningJobs freeSlots) where
  capacity := h.capacity
  serving := h.serving
  view := by rw [hprocessed, lastSnapshot_result]; rfl
  flight other hmem := by
    obtain ⟨hne, hbefore⟩ := Finset.mem_erase.mp hmem
    have hlt := (h.flight other hbefore).trans_le ((hgrown.sublist.map _).count_le other)
    rw [hprocessed, List.filterMap_append, List.map_append, List.count_append]
    have hzero : (([WorkerMessage.jobResult jobId dispatchId result runningJobs freeSlots].filterMap
        WorkerMessage.resultIds).map Prod.snd).count other = 0 := by
      rw [List.count_eq_zero]
      simpa [WorkerMessage.resultIds] using hne
    rwa [hzero, Nat.add_zero]

/-- The record after the server has read a frame of the session. -/
theorem Tracked.record_toServer (h : link.Tracked config codec) {message : WorkerMessage}
    (hnext : link.session.written[link.read]? = some message)
    (hstep : Server.Transition codec allowed link.server (.read link.connection (.frame message))
      server' event) {workerId : Uuid} {state : WorkerState}
    (hlookup : server'.workers.lookup workerId = some state)
    (howner : state.outbound = link.connection) :
    Mirror config { link with server := server', read := link.read + 1 } state := by
  have hprocessed : processed { link with server := server', read := link.read + 1 } = _ :=
    processed_succ hnext
  have hgrown := dispatched_grows hstep (link.read + 1)
  have howned := h.joint.server.owned
  have hwritten := h.mem_written (List.mem_of_getElem? hnext)
  cases hstep with
  | @readFirst _ conn input hconn hhandler =>
    -- no worker of the connection is registered yet
    rw [(Server.Untouched.readFirst allowed link.server link.connection _).workers] at hlookup
    obtain ⟨handler, hfound, hentered⟩ :=
      howned.owner (Server.owner_eq_some.mpr ⟨state, hlookup, howner⟩)
    rw [Server.handlers_eq_some.mpr ⟨conn, hconn, hhandler⟩] at hfound
    cases hfound
    cases hentered
  | @readNext _ conn instanceId input hconn hhandler =>
    obtain ⟨old, hold, hmine⟩ := Server.owner_eq_some.mp
      (howned.entry (Server.handlers_eq_some.mpr ⟨conn, hconn, hhandler⟩) rfl)
    have hsame : (link.server.readNext link.connection instanceId (.frame message)).1.workers =
        link.server.workers → message.resultIds = none →
        Mirror config { link with
          server := (link.server.readNext link.connection instanceId (.frame message)).1
          read := link.read + 1 } state := by
      intro hworkers hnone
      rw [hworkers] at hlookup
      exact (h.record hlookup howner).read hprocessed hnone hgrown
    rcases hwritten with rfl | rfl | hresult
    · exact hsame (by simp [Server.readNext, hold, Config.register, Server.setHandler]) rfl
    · exact hsame (by simp [Server.readNext, hold]) rfl
    · cases message with
      | jobResult jobId dispatchId result runningJobs freeSlots =>
        have hworkers : (link.server.readNext link.connection instanceId
            (.frame (.jobResult jobId dispatchId result runningJobs freeSlots))).1.workers =
            link.server.workers.insert instanceId
              (old.recordWorkerResult dispatchId runningJobs freeSlots) := by
          simp [Server.readNext, hold, Server.recordResult]
        rw [hworkers] at hlookup
        rcases Server.lookup_insert_cases hlookup with ⟨rfl, rfl⟩ | ⟨hne, hbefore⟩
        · exact (h.record hold hmine).result hprocessed hgrown
        · exact absurd (howned.distinct (Server.owner_eq_some.mpr ⟨state, hbefore, howner⟩)
            (Server.owner_eq_some.mpr ⟨old, hold, hmine⟩)) hne
      | _ => exact absurd rfl hresult

theorem Tracked.toServer (h : link.Tracked config codec) {message : WorkerMessage}
    (hjoint : Joint config codec { link with server := server', read := link.read + 1 })
    (hnext : link.session.written[link.read]? = some message)
    (hstep : Server.Transition codec allowed link.server (.read link.connection (.frame message))
      server' event) :
    Tracked config codec { link with server := server', read := link.read + 1 } where
  joint := hjoint
  backed := Server.transition_backed h.backed rfl hstep
  quiet := h.quiet
  read := (List.getElem?_eq_some_iff.mp hnext).1
  registering hregistering := by
    rcases Server.transition_registering hstep hregistering with hbefore | hread
    · exact h.registering hbefore
    · obtain rfl := Input.frame.inj (Server.Action.read.inj hread).2
      rcases h.mem_written (List.mem_of_getElem? hnext) with heq | heq | hresult
      · rw [Config.register, WorkerMessage.register.injEq] at heq
        exact ⟨heq.2.2.1, heq.2.2.2⟩
      · cases heq
      · exact absurd rfl hresult
  record hlookup howner := h.record_toServer hnext hstep hlookup howner
  settled := h.settled_server hstep

end Server

/-! ### Runs -/

section Runs

variable {config : Config P} {codec : Codec} {allowed : List String} {link link' : Link P}

theorem start_tracked {server : Server} (allowed : List String) (hserver : server.Regular codec)
    (hbacked : server.Backed) : (start config server).Tracked config codec where
  joint := start_joint allowed hserver
  backed := hbacked.keep id rfl
  quiet := by simp [start, Session.initial]
  read := Nat.zero_le _
  registering hregistering := by
    obtain ⟨conn, hconn, hhandler⟩ := Server.handlers_eq_some.mp hregistering
    rw [start, List.getElem?_concat_length, Option.some.injEq] at hconn
    rw [← hconn] at hhandler
    cases hhandler
  record {workerId state} hlookup howner := by
    -- the connection is new, so no worker has it yet
    obtain ⟨handler, hhandler, -⟩ :=
      hserver.owned.owner (Server.owner_eq_some.mpr ⟨state, hlookup, howner⟩)
    obtain ⟨conn, hconn, -⟩ := Server.handlers_eq_some.mp hhandler
    have hlt := (List.getElem?_eq_some_iff.mp hconn).1
    exact absurd hlt (Nat.lt_irrefl _)
  settled _ := rfl

theorem Move.tracked {action : Action} (hinv : link.Tracked config codec)
    (hservice : staysInService action = true) (hcurrent : link.reportsCurrent action = true)
    (h : Move config codec allowed link action link') : link'.Tracked config codec := by
  have hjoint := h.joint hinv.joint
  cases h with
  | server hother hstep => exact hinv.server hjoint hother hservice hstep
  | session hother hstep =>
    refine hinv.session hjoint ?_ hcurrent hstep
    rintro rfl
    cases hservice
  | toWorker hnext hstep => exact hinv.session hjoint (by simp) rfl hstep
  | toServer hnext hstep => exact hinv.toServer hjoint hnext hstep

theorem reachable_tracked {server : Server} (hserver : server.Regular codec)
    (hbacked : server.Backed)
    (h : Runs.Reachable (step config codec allowed) (fun link action =>
      staysInService action = true ∧ link.reportsCurrent action = true) (start config server) link) :
    link.Tracked config codec := by
  obtain ⟨events, hrun⟩ := h
  exact hrun.invariant (Tracked config codec) (start_tracked allowed hserver hbacked)
    fun hinv hok hstep => (step_move hstep).tracked hinv hok.1 hok.2

end Runs

/-- Every dispatched job is reported, every result is read by the server, and no permit names the
worker. -/
structure AtRest (config : Config P) (link : Link P) : Prop where
  reported : (link.session.written.filterMap WorkerMessage.resultIds).Perm link.dispatched
  processed : ∀ message ∈ link.session.written.drop link.read, message.resultIds = none
  permits : link.server.permitsFor config.instanceId = 0

/-- The record of a worker with nothing to do. -/
def Converged (config : Config P) (state : WorkerState) : Prop :=
  state.runningJobs = 0 ∧ state.freeSlots = config.concurrency ∧
    state.availableSlots = state.capacitySlots

section AtRest

variable {config : Config P} {codec : Codec} {link : Link P}

/-- At rest the server has read every result. -/
theorem AtRest.results_eq (h : link.AtRest config) :
    link.processed.filterMap WorkerMessage.resultIds =
      link.session.written.filterMap WorkerMessage.resultIds := by
  conv_rhs => rw [← List.take_append_drop link.read link.session.written]
  rw [List.filterMap_append, List.filterMap_eq_nil_iff.mpr h.processed, List.append_nil]
  rfl

/-- At rest the record says what the last result that was sent says. -/
theorem Tracked.view_at_rest (h : link.Tracked config codec) (hrest : link.AtRest config) :
    lastSnapshot config link.processed = (0, config.concurrency) := by
  obtain ⟨done, rest, hsent, hwritten, -⟩ := h.joint.session.outbox.flow
  have hle := h.joint.reported_subperm.length_le
  have hall := hrest.reported.length_eq
  have hparts : link.reported = link.session.written.filterMap WorkerMessage.resultIds ++
      (rest.map OutboundFrame.payload).filterMap WorkerMessage.resultIds := by
    rw [reported, hsent, hwritten, List.filterMap_cons_none rfl, List.map_append,
      List.filterMap_append]
  rw [hparts, List.length_append] at hle
  -- no result waits in the channel
  have hnone : (rest.map OutboundFrame.payload).filterMap WorkerMessage.resultIds = [] :=
    List.length_eq_zero_iff.mp (by omega)
  have hsettled := h.settled (by rw [hparts, hnone, List.append_nil, hall])
  have hread : lastSnapshot config link.session.written = lastSnapshot config link.processed := by
    rw [← List.take_append_drop link.read link.session.written]
    exact lastSnapshot_append (List.filterMap_eq_nil_iff.mpr hrest.processed)
  rw [← hread, hwritten, ← hsettled, hsent, List.map_append, lastSnapshot_append hnone]
  rfl

theorem Tracked.converged (h : link.Tracked config codec) (hrest : link.AtRest config)
    {state : WorkerState} (hstate : link.server.workers.lookup config.instanceId = some state)
    (howner : state.outbound = link.connection) : Converged config state := by
  obtain ⟨hcapacity, -, hview, hflight⟩ := h.record hstate howner
  rw [h.view_at_rest hrest, Prod.mk.injEq] at hview
  have hreserved := h.backed.permitted hstate
  rw [hrest.permits] at hreserved
  have hempty : state.inFlightDispatches = ∅ := by
    refine Finset.eq_empty_of_forall_notMem fun dispatchId hmem => ?_
    have hlt := hflight dispatchId hmem
    rw [hrest.results_eq, (hrest.reported.map Prod.snd).count_eq] at hlt
    exact Nat.lt_irrefl _ hlt
  refine ⟨hview.1, hview.2, UInt32.toNat_inj.mp ?_⟩
  simp only [WorkerState.availableSlots, WorkerState.usedSlots, toNat_saturatingSub32,
    toNat_saturatingAdd32, toNat_max32, toNat_u32OfLen, hview.1, hempty, Finset.card_empty,
    UInt32.toNat_zero]
  omega

end AtRest

/-- In every run of a server and a worker in service where a result carries the slots that are free
when it is sent, unless another one is outstanding: once every dispatched job is reported, every
result read and no permit left, the server's record of the worker shows no running job and all its
slots free. -/
theorem capacity_view_converges (config : Config P) (codec : Codec) (allowed : List String)
    (server : Server)
    (hserver : Runs.Reachable (Server.step codec allowed)
      (fun _ action => Server.claimedJobs action = true) Server.initial server)
    (link : Link P)
    (h : Runs.Reachable (step config codec allowed) (fun link action =>
      staysInService action = true ∧ link.reportsCurrent action = true) (start config server) link)
    (hrest : link.AtRest config) (state : WorkerState)
    (hstate : link.server.workers.lookup config.instanceId = some state)
    (howner : state.outbound = link.connection) : Converged config state :=
  (reachable_tracked (Server.reachable_regular hserver) (Server.reachable_backed hserver) h).converged
    hrest hstate howner

/-- Two jobs are dispatched to a worker with two slots, and both run. -/
def runningActions : List Action :=
  [.toServer, .server (.register 0), .server (.announce 0), .server (.write 0 true),
    .server (.acknowledge 0), .toWorker, .server (.reserve Table.Choice.first [⟨"mail", 2⟩]),
    .server (.dispatch 0 (Server.mailJob 1 "a" [1])),
    .server (.dispatch 0 (Server.mailJob 2 "b" [2])), .server (.write 0 true),
    .server (.write 0 true), .toWorker, .toWorker, .session (.job 0 .parse),
    .session (.job 0 .acquire), .session (.job 1 .parse), .session (.job 1 .acquire)]

/-- A job ends, and its task reads the free slots. -/
def endActions (job : Nat) : List Action :=
  [.session (.job job (.complete (.ok [3]))), .session (.job job .release),
    .session (.job job .snapshot)]

/-- Both results are sent in turn, written, and read by the server. -/
def reportActions (first second : Nat) : List Action :=
  [.session (.job first .report), .session (.job second .report), .session (.write true),
    .session (.write true), .toServer, .toServer]

def convergedActions : List Action :=
  runningActions ++ endActions 0 ++ endActions 1 ++ reportActions 0 1

def convergedRun : Option (Link (List UInt8)) :=
  (Runs.exec (step mailConfig (Codec.cbor []) ["mail"]) (fun link action =>
    staysInService action = true ∧ link.reportsCurrent action = true)
    (start mailConfig Server.initial) convergedActions).map Prod.fst

theorem convergedRun_isSome : convergedRun.isSome := by decide +kernel

/-- The server's record of the worker in the concrete runs. -/
def mailRecord (link : Link (List UInt8)) : Option WorkerState :=
  link.server.workers.lookup mailConfig.instanceId

theorem convergedRecord_isSome :
    (mailRecord (convergedRun.get convergedRun_isSome)).isSome := by decide +kernel

theorem capacity_view_converges_two_jobs :
    let link := convergedRun.get convergedRun_isSome
    link.AtRest mailConfig ∧
      Converged mailConfig ((mailRecord link).get convergedRecord_isSome) := by
  have hreach : Runs.Reachable (step mailConfig (Codec.cbor []) ["mail"]) (fun link action =>
      staysInService action = true ∧ link.reportsCurrent action = true)
      (start mailConfig Server.initial) (convergedRun.get convergedRun_isSome) :=
    Runs.Reachable.of_exec convergedActions (Option.some_get _).symm
  have hrest : (convergedRun.get convergedRun_isSome).AtRest mailConfig :=
    ⟨by decide +kernel, by decide +kernel, by decide +kernel⟩
  exact ⟨hrest, capacity_view_converges mailConfig (Codec.cbor []) ["mail"] Server.initial
    ⟨[], .refl _⟩ _ hreach hrest _ (Option.some_get _).symm (by decide +kernel)⟩

/-- The first job reads the free slots while the second still runs, and sends its result last. -/
def staleActions : List Action :=
  runningActions ++ endActions 0 ++ endActions 1 ++ reportActions 1 0

def staleRun : Option (Link (List UInt8)) :=
  (Runs.exec (step mailConfig (Codec.cbor []) ["mail"]) (fun _ action =>
    staysInService action = true) (start mailConfig Server.initial) staleActions).map Prod.fst

theorem staleRun_isSome : staleRun.isSome := by decide +kernel

theorem staleRecord_isSome : (mailRecord (staleRun.get staleRun_isSome)).isSome := by
  decide +kernel

theorem stale_snapshot_arrives_last :
    ¬∀ link : Link (List UInt8),
      Runs.Reachable (step mailConfig (Codec.cbor []) ["mail"])
        (fun _ action => staysInService action = true) (start mailConfig Server.initial) link →
      link.AtRest mailConfig → ∀ state, mailRecord link = some state →
      state.outbound = link.connection → Converged mailConfig state := by
  intro hall
  have hreach : Runs.Reachable (step mailConfig (Codec.cbor []) ["mail"])
      (fun _ action => staysInService action = true) (start mailConfig Server.initial)
      (staleRun.get staleRun_isSome) :=
    Runs.Reachable.of_exec staleActions (Option.some_get _).symm
  have hrest : (staleRun.get staleRun_isSome).AtRest mailConfig :=
    ⟨by decide +kernel, by decide +kernel, by decide +kernel⟩
  have hconverged := hall _ hreach hrest _ (Option.some_get staleRecord_isSome).symm
    (by decide +kernel)
  have hrunning : ((mailRecord (staleRun.get staleRun_isSome)).get staleRecord_isSome).runningJobs =
      1 := by decide +kernel
  rw [hconverged.1] at hrunning
  cases hrunning

end Link

end Maqistor
