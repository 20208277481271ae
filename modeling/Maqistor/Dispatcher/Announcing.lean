import Maqistor.Dispatcher.Effects

/-! The first frame of a worker. The handler inserts its worker under the lock and sends
`Registered` after it, so a dispatch that comes in between is first on the channel. -/

namespace Maqistor

/-- The worker is in the registry and nothing has been sent to it. -/
def Handler.isInserted : Handler → Bool
  | .inserted _ _ => true
  | _ => false

/-- If there is a first message, it is `Registered`. -/
def AnnouncedFirst (messages : List WorkerMessage) : Prop :=
  ∀ message ∈ messages.head?, ∃ queueName, message = .registered queueName

namespace Server

/-- A dispatch goes to a worker whose handler has sent `Registered`, if its permit's worker is
registered at all and its job has a dispatch id. -/
def dispatchesAfterwards (server : Server) : Action → Bool
  | .dispatch permit job =>
    job.dispatchId = none ∨ server.permits[permit]?.all fun held =>
      (server.owner held.workerId).all fun connection =>
        server.handlers[connection]?.all fun handler => !handler.isInserted
  | _ => true

/-- Every channel starts with `Registered`, and the channel of a registered worker whose handler has
come past its send is not empty, or has no receiver any more. -/
structure Announced (server : Server) : Prop where
  first : ∀ {c : Nat} {conn : Connection}, server.connections[c]? = some conn →
    AnnouncedFirst (conn.sent.map OutboundFrame.message)
  sent : ∀ {workerId : Uuid} {c : Nat} {conn : Connection}, server.owner workerId = some c →
    server.connections[c]? = some conn → conn.handler.isInserted = false →
    conn.sent ≠ [] ∨ conn.writing = false

theorem announcedFirst_append {messages : List WorkerMessage} (h : AnnouncedFirst messages)
    (hsent : messages ≠ []) (more : List WorkerMessage) : AnnouncedFirst (messages ++ more) := by
  intro message hmessage
  rw [List.head?_append_of_ne_nil _ hsent] at hmessage
  exact h message hmessage

section Announced

variable {codec : Codec} {allowed : List String} {server server' : Server} {c : Nat}
  {conn conn' : Connection} {action : Action} {event : Option WorkerEvent}

theorem Announced.of_eq (h : server.Announced)
    (howner : ∀ workerId, server'.owner workerId = server.owner workerId)
    (hconnections : server'.connections = server.connections) : server'.Announced := by
  constructor
  · rw [hconnections]
    exact h.first
  · intro workerId c conn howns
    rw [hconnections]
    exact h.sent (by rw [← howner, howns])

/-- One connection changes, and no worker of another one is inserted. -/
theorem Announced.rewrite (h : server.Announced) (hconn : server.connections[c]? = some conn)
    (hconnections : server'.connections = server.connections.set c conn')
    (howner : ∀ {workerId other}, other ≠ c → server'.owner workerId = some other →
      server.owner workerId = some other)
    (hfirst : AnnouncedFirst (conn'.sent.map OutboundFrame.message))
    (hsent : ∀ workerId, server'.owner workerId = some c → conn'.handler.isInserted = false →
      conn'.sent ≠ [] ∨ conn'.writing = false) : server'.Announced := by
  constructor
  · intro other conn'' hother
    rw [hconnections] at hother
    rcases Lists.getElem?_set_of_some hconn hother with ⟨rfl, rfl⟩ | ⟨-, hother⟩
    · exact hfirst
    · exact h.first hother
  · intro workerId other conn'' howns hother hpast
    rw [hconnections] at hother
    rcases Lists.getElem?_set_of_some hconn hother with ⟨rfl, rfl⟩ | ⟨hne, hother⟩
    · exact hsent workerId howns hpast
    · exact h.sent (howner hne howns) hother hpast

/-- One connection changes, and no worker is inserted. -/
theorem Announced.replace (h : server.Announced)
    (howner : ∀ {workerId c}, server'.owner workerId = some c → server.owner workerId = some c)
    (hconn : server.connections[c]? = some conn)
    (hconnections : server'.connections = server.connections.set c conn')
    (hfirst : AnnouncedFirst (conn'.sent.map OutboundFrame.message))
    (hsent : ∀ workerId, server.owner workerId = some c → conn'.handler.isInserted = false →
      conn'.sent ≠ [] ∨ conn'.writing = false) : server'.Announced :=
  h.rewrite hconn hconnections (fun _ howns => howner howns) hfirst
    fun workerId howns => hsent workerId (howner howns)

/-- The handler of a connection moves on, where something was sent or nothing can be. -/
theorem Announced.move (h : server.Announced)
    (howner : ∀ {workerId c}, server'.owner workerId = some c → server.owner workerId = some c)
    (hconn : server.connections[c]? = some conn) {handler : Handler}
    (hconnections : server'.connections = (server.setHandler c handler).connections)
    (hsent : ∀ workerId, server.owner workerId = some c →
      conn.sent ≠ [] ∨ conn.writing = false) : server'.Announced := by
  have hfirst := h.first hconn
  exact h.replace howner hconn (hconnections.trans (Lists.modify_of_some hconn)) hfirst
    fun workerId howns _ => hsent workerId howns

/-- A frame that may stand where it comes. -/
theorem Announced.send (h : server.Announced) (hconn : server.connections[c]? = some conn)
    (message : WorkerMessage) (hok : conn.writing = true →
      AnnouncedFirst (conn.sent.map OutboundFrame.message ++ [message])) :
    (server.send c message).1.Announced := by
  have howner : ∀ workerId, (server.send c message).1.owner workerId = server.owner workerId := by
    intro workerId
    rw [owner, send_workers, owner]
  rcases send_connections hconn message with ⟨hwriting, -, hconnections, -⟩ |
    ⟨-, -, hconnections, -⟩
  · refine h.replace (fun howns => by rw [← howner, howns]) hconn hconnections ?_
      fun _ _ _ => Or.inl (by simp)
    simpa using hok hwriting
  · exact h.of_eq howner hconnections

/-- A frame for a registered worker whose handler has come past its send. -/
theorem Announced.send_later (h : server.Announced) {workerId : Uuid}
    (howns : server.owner workerId = some c) (hconn : server.connections[c]? = some conn)
    (hpast : conn.handler.isInserted = false) (message : WorkerMessage) :
    (server.send c message).1.Announced := by
  refine h.send hconn message fun hwriting => ?_
  apply announcedFirst_append (h.first hconn)
  rcases h.sent howns hconn hpast with hsent | hstopped
  · simpa using hsent
  · simp [hwriting] at hstopped

/-- After a send the channel is not empty, or it has no receiver. -/
theorem send_started (hconn : server.connections[c]? = some conn) (message : WorkerMessage) :
    ∃ conn', (server.send c message).1.connections[c]? = some conn' ∧
      (conn'.sent ≠ [] ∨ conn'.writing = false) := by
  have hlt := (List.getElem?_eq_some_iff.mp hconn).1
  rcases send_connections hconn message with ⟨-, -, hconnections, -⟩ |
    ⟨hstopped, -, hconnections, -⟩
  · exact ⟨_, by rw [hconnections, List.getElem?_set_self hlt], Or.inl (by simp)⟩
  · exact ⟨conn, by rw [hconnections, hconn], Or.inr hstopped⟩

/-- A connection whose handler has not entered owns no worker. -/
theorem Owned.not_owner (h : server.Owned) (hconn : server.connections[c]? = some conn)
    (hout : conn.handler.entered = false) (workerId : Uuid) : server.owner workerId ≠ some c := by
  intro howns
  obtain ⟨handler, hhandler, hin⟩ := h.owner howns
  obtain ⟨other, hother, rfl⟩ := handlers_eq_some.mp hhandler
  obtain rfl : conn = other := Option.some.inj (hconn.symm.trans hother)
  simp [hout] at hin

theorem initial_announced : initial.Announced := by
  constructor
  · intro c conn hconn
    simp [initial] at hconn
  · intro workerId c conn howns
    simp [owner, initial] at howns

/-- A handler that owns no worker changes its connection, and sends nothing. -/
theorem Announced.outside (h : server.Announced) (howned : server.Owned)
    (howner : ∀ workerId, server'.owner workerId = server.owner workerId)
    (hconn : server.connections[c]? = some conn) (hout : conn.handler.entered = false)
    (hconnections : server'.connections = server.connections.set c conn')
    (hsent : conn'.sent = conn.sent) : server'.Announced :=
  h.replace (fun howns => by rw [← howner, howns]) hconn hconnections (hsent ▸ h.first hconn)
    fun workerId howns => absurd howns (howned.not_owner hconn hout workerId)

theorem Announced.connect (h : server.Announced) (howned : server.Owned) :
    Announced { server with
      connections := server.connections ++
        [{ handler := .accepted, writing := false, channel := [], sent := [], written := [] }] } := by
  constructor
  · intro c conn hconn
    rw [List.getElem?_append] at hconn
    split at hconn
    · exact h.first hconn
    · rw [List.mem_singleton.mp (List.mem_of_getElem? hconn)]
      intro message hmessage
      cases hmessage
  · intro workerId c conn howns hconn
    obtain ⟨handler, hhandler, -⟩ := howned.owner howns
    obtain ⟨before, hbefore, -⟩ := handlers_eq_some.mp hhandler
    have hlt := (List.getElem?_eq_some_iff.mp hbefore).1
    rw [List.getElem?_append_left hlt] at hconn
    exact h.sent howns hconn

/-- The insertion of a worker: its handler has not sent `Registered` yet. -/
theorem Announced.enroll (h : server.Announced) {instanceId : Uuid} {queueName : String}
    (hconn : server.connections[c]? = some conn) (howner : ∀ workerId, server'.owner workerId =
      if workerId = instanceId then some c else server.owner workerId)
    (hconnections : server'.connections = server.connections.set c
      { conn with handler := .inserted instanceId queueName }) : server'.Announced := by
  have hfirst := h.first hconn
  refine h.rewrite hconn hconnections ?_ hfirst fun _ _ hpast => by cases hpast
  intro workerId other hne howns
  rw [howner] at howns
  split at howns
  · exact absurd (Option.some.inj howns).symm hne
  · exact howns

/-- The send of `Registered`: it is the first message, or another one was. -/
theorem Announced.announce (h : server.Announced) (hconn : server.connections[c]? = some conn)
    (instanceId : Uuid) (queueName : String) :
    (server.announce c instanceId queueName).Announced := by
  have hafter : (server.send c (.registered queueName)).1.Announced := by
    refine h.send hconn _ fun _ => ?_
    cases hsent : conn.sent with
    | nil =>
      intro message hmessage
      exact ⟨queueName, (Option.some.inj hmessage).symm⟩
    | cons frame rest =>
      rw [← hsent]
      exact announcedFirst_append (h.first hconn) (by simp [hsent]) _
  obtain ⟨conn', hconn', hstarted⟩ := send_started hconn (.registered queueName)
  exact hafter.move id hconn' rfl fun _ _ => hstarted

/-! ### Every step keeps it -/

theorem ReadStep.announced {instanceId : Uuid} {input : Input}
    (hread : ReadStep server c instanceId input server') (h : server.Announced)
    (howned : server.Owned) (hconn : server.connections[c]? = some conn)
    (hhandler : conn.handler = .serving instanceId) : server'.Announced := by
  have hpast : conn.handler.isInserted = false := by rw [hhandler]; rfl
  have howns := howned.entry (handlers_eq_some.mpr ⟨conn, hconn, hhandler⟩) rfl
  have hsent := h.sent howns hconn hpast
  -- the entry that begins to drain still belongs to this connection
  have hmark : ∀ {state : WorkerState}, server.workers.lookup instanceId = some state →
      state.outbound = c ∧ (server.markDraining instanceId state).Announced ∧
        (server.markDraining instanceId state).owner instanceId = some c := by
    intro state hstate
    have howner : ∀ workerId, (server.markDraining instanceId state).owner workerId =
        server.owner workerId := owner_update hstate rfl rfl
    obtain ⟨other, hother, heq⟩ := owner_eq_some.mp howns
    rw [hstate, Option.some.injEq] at hother
    exact ⟨hother ▸ heq, h.of_eq howner rfl, (howner instanceId).trans howns⟩
  cases hread with
  | leave => exact h.move id hconn rfl fun _ _ => hsent
  | heartbeat => exact h
  | result hstate => exact h.of_eq (owner_update hstate rfl rfl) rfl
  | @drain state hstate hqueued =>
    obtain ⟨rfl, hmarked, hmine⟩ := hmark hstate
    exact hmarked.send_later hmine hconn hpast _
  | @stopped state hstate hqueued =>
    obtain ⟨rfl, hmarked, hmine⟩ := hmark hstate
    have hsame : (server.markDraining instanceId state).connections[state.outbound]? = some conn :=
      hconn
    obtain ⟨conn', hconn', hstarted⟩ := send_started hsame .draining
    exact (hmarked.send_later hmine hconn hpast _).move id hconn' rfl fun _ _ => hstarted

/-- A dispatch to a worker whose handler has sent `Registered`, or to none. -/
theorem dispatchLocked_announced (h : server.Announced) (howned : server.Owned)
    {permit : ReservedDispatch} (hpast : ∀ connection handler,
      server.owner permit.workerId = some connection →
      server.handlers[connection]? = some handler → handler.isInserted = false)
    (job : Job) (dispatchId : String) :
    (server.dispatchLocked permit job dispatchId).Announced := by
  simp only [dispatchLocked]
  split
  · exact h.of_eq (fun _ => rfl) rfl
  · next worker hworker =>
    split
    · exact h.of_eq (owner_update hworker rfl (by rfl)) rfl
    · split
      · exact h.of_eq (owner_update hworker rfl (by rfl)) rfl
      · have howns := owner_eq_some.mpr ⟨worker, hworker, rfl⟩
        obtain ⟨handler, hhandler, -⟩ := howned.owner howns
        obtain ⟨conn, hconn, rfl⟩ := handlers_eq_some.mp hhandler
        have hsent := h.send_later howns hconn (hpast _ _ howns hhandler)
          (dispatchMessage job dispatchId)
        have hlookup : (server.send worker.outbound
            (dispatchMessage job dispatchId)).1.workers.lookup permit.workerId = some worker := by
          rw [send_workers, hworker]
        exact hsent.of_eq (owner_update hlookup rfl (by rfl)) rfl

theorem transition_announced (howned : server.Owned) (hinv : server.Announced)
    (hok : server.dispatchesAfterwards action = true)
    (h : Transition codec allowed server action server' event) : server'.Announced := by
  cases h with
  | connect => exact hinv.connect howned
  | @readFirst c conn input hconn hhandler =>
    have hout : conn.handler.entered = false := by rw [hhandler]; rfl
    unfold readFirst
    split
    · split <;>
        exact hinv.outside howned (fun _ => rfl) hconn hout (Lists.modify_of_some hconn) rfl
    · exact hinv.outside howned (fun _ => rfl) hconn hout (Lists.modify_of_some hconn) rfl
  | readNext hconn hhandler =>
    exact (readNext_step server _ _ _).announced hinv howned hconn hhandler
  | @enroll c conn instanceId queueName runningJobs freeSlots hconn hhandler =>
    have hout : conn.handler.entered = false := by rw [hhandler]; rfl
    unfold enroll
    split
    · exact hinv.outside howned (fun _ => rfl) hconn hout (Lists.modify_of_some hconn) rfl
    · exact hinv.enroll hconn (owner_insert rfl (by rfl)) (Lists.modify_of_some hconn)
  | announce hconn => exact hinv.announce hconn _ _
  | @acknowledge c conn instanceId queueName ack hconn hhandler
  | @abandon c conn instanceId queueName ack hconn hhandler =>
    have hpast : conn.handler.isInserted = false := by rw [hhandler]; rfl
    exact hinv.move id hconn rfl fun _ howns => hinv.sent howns hconn hpast
  | @remove c conn instanceId hconn hhandler =>
    have hpast : conn.handler.isInserted = false := by rw [hhandler]; rfl
    refine hinv.move ?_ hconn rfl fun _ howns => hinv.sent howns hconn hpast
    intro workerId other howns
    rw [remove_owner] at howns
    split at howns
    · cases howns
    · exact howns
  | @writeRefusal c conn accepted hconn hhandler =>
    have hout : conn.handler.entered = false := by rw [hhandler]; rfl
    exact hinv.outside howned (fun _ => rfl) hconn hout rfl rfl
  | @writeNext c conn accepted frame rest hconn hwriting hchannel =>
    have hfirst := hinv.first hconn
    unfold writeNext
    split
    · refine hinv.replace id hconn rfl hfirst fun _ howns hpast => ?_
      have hsent := hinv.sent howns hconn hpast
      exact hsent
    · exact hinv.replace id hconn rfl hfirst fun _ _ _ => Or.inr rfl
  | reserve => exact hinv.of_eq (reserve_owner _ _ rfl) rfl
  | @release i permit hpermit =>
    refine hinv.of_eq (releasePermit_owner _ _) ?_
    unfold releasePermit
    split <;> rfl
  | @dispatch i permit job hpermit =>
    unfold dispatch
    split
    · exact hinv.of_eq (fun _ => rfl) rfl
    · next dispatchId hid =>
      have hinv' : Announced { server with
          permits := server.permits.eraseIdx i, issued := dispatchId :: server.issued } :=
        hinv.of_eq (fun _ => rfl) rfl
      have howned' : Owned { server with
          permits := server.permits.eraseIdx i, issued := dispatchId :: server.issued } :=
        howned.of_eq (fun _ => rfl) rfl
      refine dispatchLocked_announced hinv' howned' (fun connection handler howns hhandler => ?_)
        job dispatchId
      have howns : server.owner permit.workerId = some connection := howns
      have hhandler : server.handlers[connection]? = some handler := hhandler
      simpa [dispatchesAfterwards, hid, hpermit, howns, hhandler] using hok
  | @resume i call wrote hcall hack =>
    exact hinv.of_eq (finish_owner _ _ _)
      (finish_frames { server with calls := server.calls.eraseIdx i } call wrote).1

end Announced

theorem reachable_announced {codec : Codec} {allowed : List String} {server : Server}
    (h : Runs.Reachable (step codec allowed)
      (fun server action => server.dispatchesAfterwards action = true) initial server) :
    server.Announced := by
  obtain ⟨events, hrun⟩ := h
  refine (hrun.invariant (fun server => server.Owned ∧ server.Announced)
    ⟨initial_owned, initial_announced⟩ fun hinv hok hstep => ?_).2
  have htransition := step_transition hstep
  exact ⟨transition_owned hinv.1 htransition,
    transition_announced hinv.1 hinv.2 hok htransition⟩

/-- When no dispatch comes between the insertion of a worker and the send of its `Registered`, the
first frame on every outbound channel is `Registered`, and every dispatch stands behind one. -/
theorem registered_comes_first (codec : Codec) (allowed : List String) (server : Server)
    (h : Runs.Reachable (step codec allowed)
      (fun server action => server.dispatchesAfterwards action = true) initial server)
    (connection : Nat) (conn : Connection) (hconn : server.connections[connection]? = some conn) :
    AnnouncedFirst (conn.sent.map OutboundFrame.message) ∧
      ∀ before frame after, conn.sent = before ++ frame :: after → frame.message.dispatchIds ≠ none →
        ∃ earlier ∈ before, ∃ queueName, earlier.message = .registered queueName := by
  have hfirst := (reachable_announced h).first hconn
  refine ⟨hfirst, fun before frame after hsent hdispatch => ?_⟩
  rw [hsent] at hfirst
  cases before with
  | nil =>
    obtain ⟨queueName, hmessage⟩ := hfirst frame.message rfl
    rw [hmessage] at hdispatch
    exact absurd rfl hdispatch
  | cons earlier rest =>
    exact ⟨earlier, List.mem_cons_self, hfirst earlier.message rfl⟩

/-- A worker registers and a job is dispatched to it; what comes between is given. -/
def announcingActions (between : List Action) : List Action :=
  [.connect, .read 0 (.frame (.register 7 "mail" 0 2)), .register 0,
    .reserve Table.Choice.first [⟨"mail", 1⟩]] ++ between

/-- The handler sends `Registered` before the dispatch. -/
def announcedRun : Option Server :=
  (Runs.exec (step (Codec.cbor []) ["mail"])
    (fun server action => server.dispatchesAfterwards action = true) initial
    (announcingActions [.announce 0, .dispatch 0 (mailJob 1 "a" [1])])).map Prod.fst

/-- The dispatch takes the lock before the handler sends `Registered`. -/
def overtakenRun : Option Server :=
  (Runs.exec (step (Codec.cbor []) ["mail"]) (fun _ _ => True) initial
    (announcingActions [.dispatch 0 (mailJob 1 "a" [1]), .announce 0])).map Prod.fst

theorem announcedRun_isSome : announcedRun.isSome := by decide +kernel

theorem overtakenRun_isSome : overtakenRun.isSome := by decide +kernel

theorem registered_comes_first_announced :
    (announcedRun.get announcedRun_isSome).sentTo 0 =
      [.registered "mail", dispatchMessage (mailJob 1 "a" [1]) "a"] ∧
    ∃ conn, (announcedRun.get announcedRun_isSome).connections[0]? = some conn ∧
      AnnouncedFirst (conn.sent.map OutboundFrame.message) := by
  have hreach : Runs.Reachable (step (Codec.cbor []) ["mail"])
      (fun server action => server.dispatchesAfterwards action = true) initial
      (announcedRun.get announcedRun_isSome) :=
    Runs.Reachable.of_exec _ (Option.some_get _).symm
  have hlt : 0 < (announcedRun.get announcedRun_isSome).connections.length := by decide +kernel
  have hconn := List.getElem?_eq_getElem hlt
  exact ⟨by decide +kernel, _, hconn, (registered_comes_first _ _ _ hreach 0 _ hconn).1⟩

/-- The job is the first frame on the worker's channel. -/
theorem dispatch_overtakes_registered :
    Runs.Reachable (step (Codec.cbor []) ["mail"]) (fun _ _ => True) initial
      (overtakenRun.get overtakenRun_isSome) ∧
    (overtakenRun.get overtakenRun_isSome).sentTo 0 =
      [dispatchMessage (mailJob 1 "a" [1]) "a", .registered "mail"] ∧
    ¬AnnouncedFirst ((overtakenRun.get overtakenRun_isSome).sentTo 0) := by
  have hsent : (overtakenRun.get overtakenRun_isSome).sentTo 0 =
      [dispatchMessage (mailJob 1 "a" [1]) "a", .registered "mail"] := by decide +kernel
  refine ⟨Runs.Reachable.of_exec _ (Option.some_get _).symm, hsent, ?_⟩
  rw [hsent]
  intro hfirst
  obtain ⟨queueName, hmessage⟩ := hfirst _ rfl
  cases hmessage

end Server

end Maqistor
