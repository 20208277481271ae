import Maqistor.Dispatcher.Delivery

/-! Which dispatches are in flight. The registry's set of them is compared with the frames on the
worker's channel: a dispatch is outstanding until its answer has come or its call has returned with
a failed write. -/

namespace Maqistor

/-- The dispatch that a frame hands to the worker. -/
def OutboundFrame.dispatchId? (frame : OutboundFrame) : Option String :=
  frame.message.dispatchIds.map Prod.snd

namespace Server

/-- The frames that were put on a connection's channel. -/
def framesTo (server : Server) (connection : Nat) : List OutboundFrame :=
  match server.connections[connection]? with
  | some conn => conn.sent
  | none => []

/-- A call of `dispatch` waits for this acknowledgement. -/
def Waits (server : Server) (ack : Nat) : Prop := ∃ call ∈ server.calls, call.ack = ack

instance (server : Server) (ack : Nat) : Decidable (server.Waits ack) :=
  inferInstanceAs (Decidable (∃ call ∈ server.calls, call.ack = ack))

/-- A dispatch was put on the connection's channel, no result frame has answered it, and its write
has not failed: its call still waits, or the writer has acknowledged the frame. -/
def Outstanding (server : Server) (connection : Nat) (dispatchId : String) : Prop :=
  (connection, dispatchId) ∉ server.answered ∧
    ∃ frame ∈ server.framesTo connection, frame.dispatchId? = some dispatchId ∧
      (server.Waits frame.ack ∨ server.acks[frame.ack]? = some (some true))

/-- What is known of the frames of dispatches: each was queued, its call is the one that waits for
it, and once none does, its write has failed exactly if the call was cleaned up. -/
structure Tracked (server : Server) : Prop where
  bound : ∀ call ∈ server.calls, call.ack < server.acks.length
  distinct : (server.calls.map DispatchCall.dispatchId).Nodup
  own : ∀ call ∈ server.calls, ∀ {c frame dispatchId}, frame ∈ server.framesTo c →
    frame.dispatchId? = some dispatchId →
    (frame.ack = call.ack ↔ c = call.connection ∧ dispatchId = call.dispatchId)
  queued : ∀ {c dispatchId}, (c, dispatchId) ∈ server.queued ↔
    ∃ frame ∈ server.framesTo c, frame.dispatchId? = some dispatchId
  waiting : ∀ {c frame dispatchId}, frame ∈ server.framesTo c → frame.dispatchId? = some dispatchId →
    server.Waits frame.ack → (c, dispatchId) ∉ server.failed
  settled : ∀ {c frame dispatchId}, frame ∈ server.framesTo c → frame.dispatchId? = some dispatchId →
    ¬ server.Waits frame.ack → ∃ wrote, server.acks[frame.ack]? = some (some wrote) ∧
      ((c, dispatchId) ∈ server.failed ↔ wrote = false)

/-- So the dispatches that the logs leave open are the outstanding ones. -/
theorem Tracked.open_iff {server : Server} (h : server.Tracked) (connection : Nat) (dispatchId : String) :
    server.Open connection dispatchId ↔ server.Outstanding connection dispatchId := by
  constructor
  · rintro ⟨hqueued, hanswered, hfailed⟩
    obtain ⟨frame, hframe, hid⟩ := h.queued.mp hqueued
    refine ⟨hanswered, frame, hframe, hid, ?_⟩
    by_cases hwaits : server.Waits frame.ack
    · exact Or.inl hwaits
    · obtain ⟨wrote, hack, hiff⟩ := h.settled hframe hid hwaits
      cases wrote with
      | true => exact Or.inr hack
      | false => exact absurd (hiff.mpr rfl) hfailed
  · rintro ⟨hanswered, frame, hframe, hid, hfate⟩
    refine ⟨h.queued.mpr ⟨frame, hframe, hid⟩, hanswered, fun hfailed => ?_⟩
    by_cases hwaits : server.Waits frame.ack
    · exact h.waiting hframe hid hwaits hfailed
    · obtain ⟨wrote, hack, hiff⟩ := h.settled hframe hid hwaits
      rw [hiff.mp hfailed] at hack
      simp [hack, hwaits] at hfate

/-! ### Steps that dispatch nothing -/

section Steps

variable {codec : Codec} {allowed : List String} {server middle server' : Server} {c : Nat}
  {conn : Connection} {action : Action} {event : Option WorkerEvent}

theorem framesTo_eq (hconn : server.connections[c]? = some conn) : server.framesTo c = conn.sent := by
  rw [framesTo, hconn]

theorem framesTo_of_eq (h : server'.connections = server.connections) (c : Nat) :
    server'.framesTo c = server.framesTo c := by
  rw [framesTo, h, framesTo]

theorem framesTo_set {conn' : Connection} (hconn : server.connections[c]? = some conn)
    (h : server'.connections = server.connections.set c conn') (other : Nat) :
    server'.framesTo other = if other = c then conn'.sent else server.framesTo other := by
  split
  · next heq =>
    subst heq
    have hlt := (List.getElem?_eq_some_iff.mp hconn).1
    rw [framesTo, h, List.getElem?_set_self hlt]
  · next hne => rw [framesTo, h, List.getElem?_set_ne (Ne.symm hne), framesTo]

/-- A step that neither puts a dispatch on a channel nor ends one. -/
structure Quiet (server server' : Server) : Prop where
  frames : ∀ {c frame dispatchId}, frame.dispatchId? = some dispatchId →
    (frame ∈ server'.framesTo c ↔ frame ∈ server.framesTo c)
  acks : Settles server.acks server'.acks
  length : server.acks.length ≤ server'.acks.length
  calls : server'.calls = server.calls
  queued : server'.queued = server.queued
  failed : server'.failed = server.failed

theorem Quiet.trans (h : Quiet server middle) (h' : Quiet middle server') : Quiet server server' where
  frames hid := (h'.frames hid).trans (h.frames hid)
  acks i result hi := h'.acks i result (h.acks i result hi)
  length := h.length.trans h'.length
  calls := h'.calls.trans h.calls
  queued := h'.queued.trans h.queued
  failed := h'.failed.trans h.failed

theorem Quiet.tracked (hquiet : Quiet server server') (h : server.Tracked) : server'.Tracked := by
  have hwaits : ∀ ack, server'.Waits ack ↔ server.Waits ack := by
    intro ack
    rw [Waits, hquiet.calls, Waits]
  constructor
  · rw [hquiet.calls]
    exact fun call hcall => (h.bound call hcall).trans_le hquiet.length
  · rw [hquiet.calls]
    exact h.distinct
  · rw [hquiet.calls]
    exact fun call hcall _ _ _ hframe hid => h.own call hcall ((hquiet.frames hid).mp hframe) hid
  · intro c dispatchId
    rw [hquiet.queued, h.queued]
    constructor
    · rintro ⟨frame, hframe, hid⟩
      exact ⟨frame, (hquiet.frames hid).mpr hframe, hid⟩
    · rintro ⟨frame, hframe, hid⟩
      exact ⟨frame, (hquiet.frames hid).mp hframe, hid⟩
  · intro c frame dispatchId hframe hid hwaiting
    rw [hquiet.failed]
    exact h.waiting ((hquiet.frames hid).mp hframe) hid ((hwaits _).mp hwaiting)
  · intro c frame dispatchId hframe hid hdone
    rw [hwaits] at hdone
    obtain ⟨wrote, hack, hiff⟩ := h.settled ((hquiet.frames hid).mp hframe) hid hdone
    refine ⟨wrote, hquiet.acks _ _ hack, ?_⟩
    rw [hquiet.failed]
    exact hiff

theorem quiet_of_eq (hconnections : server'.connections = server.connections)
    (hacks : server'.acks = server.acks) (hcalls : server'.calls = server.calls)
    (hqueued : server'.queued = server.queued) (hfailed : server'.failed = server.failed) :
    Quiet server server' where
  frames _ := by rw [framesTo_of_eq hconnections]
  acks := by
    rw [hacks]
    exact Settles.refl _
  length := by rw [hacks]
  calls := hcalls
  queued := hqueued
  failed := hfailed

theorem Tracked.of_eq (h : server.Tracked) (hconnections : server'.connections = server.connections)
    (hacks : server'.acks = server.acks) (hcalls : server'.calls = server.calls)
    (hqueued : server'.queued = server.queued) (hfailed : server'.failed = server.failed) :
    server'.Tracked :=
  (quiet_of_eq hconnections hacks hcalls hqueued hfailed).tracked h

/-- A connection moves on without a new frame. -/
theorem quiet_set {conn' : Connection} (hconn : server.connections[c]? = some conn)
    (hconnections : server'.connections = server.connections.set c conn') (hsent : conn'.sent = conn.sent)
    (hacks : Settles server.acks server'.acks) (hlength : server.acks.length ≤ server'.acks.length)
    (hcalls : server'.calls = server.calls) (hqueued : server'.queued = server.queued)
    (hfailed : server'.failed = server.failed) : Quiet server server' where
  frames {other _ _} _ := by
    rw [framesTo_set hconn hconnections, hsent]
    split
    · next heq =>
      subst heq
      rw [framesTo_eq hconn]
    · rfl
  acks := hacks
  length := hlength
  calls := hcalls
  queued := hqueued
  failed := hfailed

theorem quiet_setHandler (hconn : server.connections[c]? = some conn) (handler : Handler) :
    Quiet server (server.setHandler c handler) :=
  quiet_set hconn (Lists.modify_of_some hconn) rfl (Settles.refl _) (Nat.le_refl _) rfl rfl rfl

/-- The frames after a send: a new one at the end, or the same. -/
theorem send_frames (server : Server) (target : Nat) (message : WorkerMessage) :
    ((server.send target message).2 = true ∧ (server.send target message).1.acks = server.acks ++ [none] ∧
      ∀ c, (server.send target message).1.framesTo c = if c = target then
        server.framesTo c ++ [⟨message, server.acks.length⟩] else server.framesTo c) ∨
    ((server.send target message).2 = false ∧
      (server.send target message).1.acks = server.acks ++ [some false] ∧
      ∀ c, (server.send target message).1.framesTo c = server.framesTo c) := by
  cases hconn : server.connections[target]? with
  | none =>
    refine Or.inr ⟨by simp [Server.send, hconn], by simp [Server.send, hconn], fun c => ?_⟩
    exact framesTo_of_eq (by simp [Server.send, hconn]) c
  | some conn =>
    rcases send_connections hconn message with ⟨-, hqueued, hconnections, hacks⟩ |
      ⟨-, hqueued, hconnections, hacks⟩
    · refine Or.inl ⟨hqueued, hacks, fun c => ?_⟩
      rw [framesTo_set hconn hconnections]
      split
      · next heq =>
        subst heq
        rw [framesTo_eq hconn]
      · rfl
    · exact Or.inr ⟨hqueued, hacks, framesTo_of_eq hconnections⟩

theorem quiet_send (server : Server) (target : Nat) {message : WorkerMessage}
    (hmessage : message.dispatchIds = none) : Quiet server (server.send target message).1 := by
  have hkept : (server.send target message).1.calls = server.calls ∧
      (server.send target message).1.queued = server.queued ∧
      (server.send target message).1.failed = server.failed :=
    ⟨send_calls _ _ _, send_queued _ _ _, send_failed _ _ _⟩
  obtain ⟨hcalls, hqueued, hfailed⟩ := hkept
  rcases send_frames server target message with ⟨-, hacks, hframes⟩ | ⟨-, hacks, hframes⟩
  · refine ⟨fun {c frame dispatchId} hid => ?_, ?_, ?_, hcalls, hqueued, hfailed⟩
    · rw [hframes]
      split
      · rw [List.mem_append, List.mem_singleton]
        refine ⟨fun hmem => hmem.resolve_right ?_, Or.inl⟩
        rintro rfl
        simp [OutboundFrame.dispatchId?, hmessage] at hid
      · rfl
    · rw [hacks]
      exact settles_append _ _
    · simp [hacks]
  · refine ⟨fun {c frame dispatchId} hid => by rw [hframes], ?_, ?_, hcalls, hqueued, hfailed⟩
    · rw [hacks]
      exact settles_append _ _
    · simp [hacks]

theorem ReadStep.quiet {instanceId : Uuid} {input : Input}
    (h : ReadStep server c instanceId input server') (hconn : server.connections[c]? = some conn)
    (hhandler : conn.handler = .serving instanceId) : Quiet server server' := by
  have hmark : ∀ state, Quiet server (server.markDraining instanceId state) := fun _ =>
    quiet_of_eq rfl rfl rfl rfl rfl
  cases h with
  | leave => exact quiet_setHandler hconn _
  | heartbeat | result => exact quiet_of_eq rfl rfl rfl rfl rfl
  | @drain state hstate hqueued => exact (hmark state).trans (quiet_send _ _ rfl)
  | @stopped state hstate hqueued =>
    have hsame := send_handlers (server.markDraining instanceId state) state.outbound .draining
    obtain ⟨after, hafter, -⟩ := handlers_eq_some.mp
      (hsame ▸ handlers_eq_some.mpr ⟨conn, hconn, hhandler⟩)
    exact ((hmark state).trans (quiet_send _ _ rfl)).trans (quiet_setHandler hafter _)

/-- Every step is quiet but for a dispatch and the end of one. -/
theorem transition_quiet {fails : WorkerMessage → Prop} (hdelivery : Delivery codec fails server)
    (h : Transition codec allowed server action server' event)
    (hdispatch : ∀ permit job, action ≠ .dispatch permit job) (hresume : ∀ i, action ≠ .resume i) :
    Quiet server server' := by
  cases h with
  | connect =>
    refine ⟨fun {c frame dispatchId} _ => ?_, Settles.refl _, Nat.le_refl _, rfl, rfl, rfl⟩
    rw [framesTo, framesTo]
    by_cases hlt : c < server.connections.length
    · rw [List.getElem?_append_left hlt]
    · rw [List.getElem?_eq_none (Nat.le_of_not_lt hlt)]
      split
      · next conn hconn =>
        rw [List.getElem?_append_right (Nat.le_of_not_lt hlt)] at hconn
        rw [List.mem_singleton.mp (List.mem_of_getElem? hconn)]
      · rfl
  | @readFirst c conn input hconn =>
    unfold readFirst
    split
    · split
      · exact quiet_setHandler hconn _
      · exact quiet_set hconn (Lists.modify_of_some hconn) rfl (Settles.refl _) (Nat.le_refl _) rfl rfl
          rfl
    · exact quiet_setHandler hconn _
  | readNext hconn hhandler => exact (readNext_step server _ _ _).quiet hconn hhandler
  | @enroll c conn instanceId queueName runningJobs freeSlots hconn hhandler =>
    unfold enroll
    split
    · exact quiet_setHandler hconn _
    · exact (quiet_setHandler hconn _).trans (quiet_of_eq rfl rfl rfl rfl rfl)
  | @announce c conn instanceId queueName hconn hhandler =>
    have hold := handlers_eq_some.mpr ⟨conn, hconn, hhandler⟩
    rw [← send_handlers server c (.registered queueName)] at hold
    obtain ⟨after, hafter, -⟩ := handlers_eq_some.mp hold
    exact (quiet_send server c rfl).trans (quiet_setHandler hafter _)
  | acknowledge hconn | abandon hconn => exact quiet_setHandler hconn _
  | remove hconn => exact (quiet_setHandler hconn _).trans (quiet_of_eq rfl rfl rfl rfl rfl)
  | writeRefusal hconn =>
    exact quiet_set hconn rfl rfl (Settles.refl _) (Nat.le_refl _) rfl rfl rfl
  | @writeNext c conn accepted frame rest hconn hwriting hchannel =>
    -- the frames that leave the channel had no acknowledgement yet
    obtain ⟨-, -, -, -, hwaiting⟩ := (hdelivery.pipes hconn).head hwriting hchannel
    unfold writeNext
    split
    · refine quiet_set hconn rfl rfl (settles_set (hwaiting frame List.mem_cons_self) true)
        (by simp) rfl rfl rfl
    · exact quiet_set hconn rfl rfl (settles_foldl_set hwaiting)
        (Nat.le_of_eq (length_foldl_set _ _).symm) rfl rfl rfl
  | reserve => exact quiet_of_eq rfl rfl rfl rfl rfl
  | release =>
    unfold releasePermit
    split <;> exact quiet_of_eq rfl rfl rfl rfl rfl
  | dispatch => exact absurd rfl (hdispatch _ _)
  | resume => exact absurd rfl (hresume _)

/-! ### A dispatch begins and ends -/

/-- A call with a new dispatch id waits for the next acknowledgement; `queued` says whether its
frame is on the channel. -/
theorem Tracked.begin (h : server.Tracked) {call : DispatchCall} {frame : OutboundFrame}
    (queued : Bool) (hbound : ∀ {c frame}, frame ∈ server.framesTo c → frame.ack < server.acks.length)
    (hfresh : ∀ c, (c, call.dispatchId) ∉ server.queued ∧ (c, call.dispatchId) ∉ server.failed)
    (hnew : ∀ other ∈ server.calls, other.dispatchId ≠ call.dispatchId)
    (hack : call.ack = server.acks.length) (hframeAck : frame.ack = server.acks.length)
    (hid : frame.dispatchId? = some call.dispatchId)
    (hframes : ∀ {c other}, other ∈ server'.framesTo c ↔
      other ∈ server.framesTo c ∨ queued = true ∧ c = call.connection ∧ other = frame)
    (hacks : Settles server.acks server'.acks) (hlength : server.acks.length < server'.acks.length)
    (hcalls : server'.calls = server.calls ++ [call])
    (hqueued : ∀ {pair}, pair ∈ server'.queued ↔
      pair ∈ server.queued ∨ queued = true ∧ pair = (call.connection, call.dispatchId))
    (hfailed : server'.failed = server.failed) : server'.Tracked := by
  have hwaits : ∀ ack, server'.Waits ack ↔ server.Waits ack ∨ ack = server.acks.length := by
    intro ack
    simp only [Waits, hcalls, List.mem_append, List.mem_singleton, or_and_right, exists_or,
      exists_eq_left, hack]
    rw [eq_comm (b := ack)]
  have hold : ∀ {c other}, other ∈ server.framesTo c → (server'.Waits other.ack ↔ server.Waits other.ack) := by
    intro c other hother
    rw [hwaits, or_iff_left (Nat.ne_of_lt (hbound hother))]
  constructor
  · intro other hother
    rw [hcalls, List.mem_append, List.mem_singleton] at hother
    rcases hother with hother | rfl
    · exact (h.bound other hother).trans hlength
    · rw [hack]
      exact hlength
  · rw [hcalls, List.map_append, List.map_singleton, List.nodup_append]
    refine ⟨h.distinct, List.nodup_singleton _, fun id hmem last hlast => ?_⟩
    obtain ⟨other, hother, rfl⟩ := List.mem_map.mp hmem
    rw [List.mem_singleton.mp hlast]
    exact hnew other hother
  · intro other hother c item dispatchId hitem hitemId
    rw [hcalls, List.mem_append, List.mem_singleton] at hother
    rw [hframes] at hitem
    rcases hother with hother | rfl
    · rcases hitem with hitem | ⟨-, rfl, rfl⟩
      · exact h.own other hother hitem hitemId
      · obtain rfl := Option.some.inj (hid.symm.trans hitemId)
        have hlt := h.bound other hother
        exact ⟨fun heq => by omega, fun heq => absurd heq.2.symm (hnew other hother)⟩
    · rcases hitem with hitem | ⟨-, rfl, rfl⟩
      · have hlt := hbound hitem
        refine ⟨fun heq => by omega, fun heq => absurd ?_ (hfresh c).1⟩
        exact h.queued.mpr ⟨item, hitem, heq.2 ▸ hitemId⟩
      · obtain rfl := Option.some.inj (hid.symm.trans hitemId)
        exact ⟨fun _ => ⟨rfl, rfl⟩, fun _ => by rw [hframeAck, hack]⟩
  · intro c dispatchId
    rw [hqueued, h.queued]
    constructor
    · rintro (⟨item, hitem, hitemId⟩ | ⟨hin, heq⟩)
      · exact ⟨item, hframes.mpr (Or.inl hitem), hitemId⟩
      · obtain ⟨rfl, rfl⟩ := Prod.mk.inj heq
        exact ⟨frame, hframes.mpr (Or.inr ⟨hin, rfl, rfl⟩), hid⟩
    · rintro ⟨item, hitem, hitemId⟩
      rcases hframes.mp hitem with hitem | ⟨hin, rfl, rfl⟩
      · exact Or.inl ⟨item, hitem, hitemId⟩
      · obtain rfl := Option.some.inj (hid.symm.trans hitemId)
        exact Or.inr ⟨hin, rfl⟩
  · intro c item dispatchId hitem hitemId hwaiting
    rw [hfailed]
    rcases hframes.mp hitem with hitem | ⟨-, rfl, rfl⟩
    · exact h.waiting hitem hitemId ((hold hitem).mp hwaiting)
    · obtain rfl := Option.some.inj (hid.symm.trans hitemId)
      exact (hfresh _).2
  · intro c item dispatchId hitem hitemId hdone
    rw [hfailed]
    rcases hframes.mp hitem with hitem | ⟨-, rfl, rfl⟩
    · rw [hold hitem] at hdone
      obtain ⟨wrote, hwrote, hiff⟩ := h.settled hitem hitemId hdone
      exact ⟨wrote, hacks _ _ hwrote, hiff⟩
    · exact absurd ((hwaits _).mpr (Or.inr hframeAck)) hdone

/-- What the end of a dispatch leaves in the logs. -/
theorem finish_logs (server : Server) (call : DispatchCall) (wrote : Bool) :
    (server.finish call wrote).queued = server.queued ∧
    (server.finish call wrote).failed = if wrote then server.failed
      else (call.connection, call.dispatchId) :: server.failed := by
  unfold finish releaseDispatched
  cases wrote with
  | true => exact ⟨rfl, rfl⟩
  | false =>
    simp only [Bool.false_eq_true, if_false]
    split <;> simp

/-- A call returns with its acknowledgement, and is cleaned up if the write has failed. -/
theorem Tracked.finish (h : server.Tracked) {i : Nat} {call : DispatchCall} {wrote : Bool}
    (hcall : server.calls[i]? = some call) (hack : server.acks[call.ack]? = some (some wrote))
    (hframes : ∀ c, server'.framesTo c = server.framesTo c) (hacks : server'.acks = server.acks)
    (hcalls : server'.calls = server.calls.eraseIdx i) (hqueued : server'.queued = server.queued)
    (hfailed : server'.failed = if wrote then server.failed
      else (call.connection, call.dispatchId) :: server.failed) : server'.Tracked := by
  have hmem := List.mem_of_getElem? hcall
  have hsub : ∀ other ∈ server'.calls, other ∈ server.calls := by
    rw [hcalls]
    exact fun other => List.mem_of_mem_eraseIdx
  have hperm := (Lists.perm_eraseIdx hcall).map DispatchCall.dispatchId
  have hdistinct := hperm.nodup_iff.mp h.distinct
  rw [List.map_cons, List.nodup_cons, ← hcalls] at hdistinct
  -- the frame of the call is the one that carries its dispatch id
  have hfailed' : ∀ {c dispatchId}, (c, dispatchId) ∈ server'.failed ↔ (c, dispatchId) ∈ server.failed ∨
      wrote = false ∧ c = call.connection ∧ dispatchId = call.dispatchId := by
    intro c dispatchId
    rw [hfailed]
    cases wrote <;> simp [or_comm]
  constructor
  · rw [hacks]
    exact fun other hother => h.bound other (hsub other hother)
  · exact hdistinct.2
  · intro other hother c frame dispatchId hframe
    rw [hframes] at hframe
    exact h.own other (hsub other hother) hframe
  · intro c dispatchId
    rw [hqueued, hframes]
    exact h.queued
  · intro c frame dispatchId hframe hid hwaiting
    rw [hframes] at hframe
    obtain ⟨other, hother, hotherAck⟩ := hwaiting
    rw [hfailed']
    rintro (hold | ⟨-, hplace⟩)
    · exact h.waiting hframe hid ⟨other, hsub other hother, hotherAck⟩ hold
    · have hmine := ((h.own other (hsub other hother) hframe hid).mp hotherAck.symm).2
      rw [hplace.2] at hmine
      exact hdistinct.1 (hmine ▸ List.mem_map_of_mem hother)
  · intro c frame dispatchId hframe hid hdone
    rw [hframes] at hframe
    rw [hacks]
    have hown := h.own call hmem hframe hid
    by_cases hmine : frame.ack = call.ack
    · refine ⟨wrote, by rw [hmine, hack], ?_⟩
      have hnot := h.waiting hframe hid ⟨call, hmem, hmine.symm⟩
      rw [hfailed', or_iff_right hnot, and_iff_left (hown.mp hmine)]
    · have hother : ¬ server.Waits frame.ack := by
        rintro ⟨other, hin, hotherAck⟩
        rcases List.mem_cons.mp ((Lists.perm_eraseIdx hcall).mem_iff.mp hin) with rfl | hin
        · exact hmine hotherAck.symm
        · exact hdone ⟨other, hcalls ▸ hin, hotherAck⟩
      obtain ⟨result, hresult, hiff⟩ := h.settled hframe hid hother
      refine ⟨result, hresult, ?_⟩
      rw [hfailed', ← hiff]
      exact or_iff_left fun hplace => hmine (hown.mpr hplace.2)

theorem dispatchLocked_tracked (h : server.Tracked)
    (hbound : ∀ {c frame}, frame ∈ server.framesTo c → frame.ack < server.acks.length)
    (permit : ReservedDispatch) (job : Job) {dispatchId : String}
    (hfresh : ∀ c, (c, dispatchId) ∉ server.queued ∧ (c, dispatchId) ∉ server.failed)
    (hnew : ∀ other ∈ server.calls, other.dispatchId ≠ dispatchId) :
    (server.dispatchLocked permit job dispatchId).Tracked := by
  simp only [dispatchLocked]
  split
  · exact h.of_eq rfl rfl rfl rfl rfl
  · next worker hworker =>
    split
    · exact h.of_eq rfl rfl rfl rfl rfl
    · split
      · exact h.of_eq rfl rfl rfl rfl rfl
      · let frame : OutboundFrame := ⟨dispatchMessage job dispatchId, server.acks.length⟩
        have hid : frame.dispatchId? = some dispatchId := rfl
        rcases send_frames server worker.outbound (dispatchMessage job dispatchId) with
          ⟨hqueued, hacks, hframes⟩ | ⟨hqueued, hacks, hframes⟩
        · refine h.begin true hbound hfresh hnew rfl rfl hid (fun {c other} => ?_) ?_ ?_
            (by rw [send_calls]) (fun {pair} => ?_) (send_failed _ _ _)
          · refine Iff.trans (Iff.of_eq (congrArg (other ∈ ·) (hframes c))) ?_
            split
            · next heq => simp [heq, frame]
            · next hne => simp [hne]
          · exact hacks ▸ settles_append _ _
          · simp [hacks]
          · simp [hqueued, send_queued, or_comm]
        · refine h.begin false hbound hfresh hnew rfl rfl hid (fun {c other} => ?_) ?_ ?_
            (by rw [send_calls]) (fun {pair} => ?_) (send_failed _ _ _)
          · refine Iff.trans (Iff.of_eq (congrArg (other ∈ ·) (hframes c))) (by simp)
          · exact hacks ▸ settles_append _ _
          · simp [hacks]
          · simp [hqueued, send_queued]

/-- A step on fresh ids keeps track of the dispatches. -/
theorem transition_tracked {fails : WorkerMessage → Prop} (h : server.Tracked)
    (haccounts : server.Accounts) (hdelivery : Delivery codec fails server)
    (hfresh : server.freshIds action = true)
    (hstep : Transition codec allowed server action server' event) : server'.Tracked := by
  have hbound : ∀ {c frame}, frame ∈ server.framesTo c → frame.ack < server.acks.length := by
    intro c frame hframe
    unfold framesTo at hframe
    split at hframe
    · next conn hconn => exact (hdelivery.pipes hconn).bound frame hframe
    · cases hframe
  by_cases hdispatch : ∃ permit job, action = .dispatch permit job
  · obtain ⟨permit, job, rfl⟩ := hdispatch
    cases hstep with
    | @dispatch _ held _ hpermit =>
      obtain ⟨dispatchId, hjob, hnew⟩ : ∃ dispatchId, job.dispatchId = some dispatchId ∧
          dispatchId ∉ server.issued := by
        simpa [freshIds, Option.any_eq_true] using hfresh
      unfold Server.dispatch
      rw [hjob]
      have hopened : Tracked { server with
          permits := server.permits.eraseIdx permit, issued := dispatchId :: server.issued } :=
        h.of_eq rfl rfl rfl rfl rfl
      refine dispatchLocked_tracked hopened hbound held job (fun c => ⟨fun hmem => ?_, fun hmem => ?_⟩)
        fun other hother heq => ?_
      · exact hnew (haccounts.history.queued hmem).1
      · exact hnew (haccounts.history.settled (Or.inr hmem))
      · exact hnew (heq ▸ (haccounts.history.calls other hother).2.1)
  · by_cases hresume : ∃ i, action = .resume i
    · obtain ⟨i, rfl⟩ := hresume
      cases hstep with
      | @resume _ call wrote hcall hack =>
        obtain ⟨hconnections, hacks, hcalls, -⟩ :=
          finish_frames { server with calls := server.calls.eraseIdx i } call wrote
        obtain ⟨hqueued, hfailed⟩ := finish_logs { server with calls := server.calls.eraseIdx i } call wrote
        exact h.finish hcall hack (framesTo_of_eq hconnections) hacks hcalls hqueued hfailed
    · have hquiet := transition_quiet hdelivery hstep (fun permit job heq => hdispatch ⟨permit, job, heq⟩)
        fun i heq => hresume ⟨i, heq⟩
      exact hquiet.tracked h

end Steps

/-! ### The slots of every worker -/

theorem initial_tracked : initial.Tracked := by
  constructor <;> simp [initial, framesTo]

theorem reachable_tracked {codec : Codec} {allowed : List String} {server : Server}
    (h : Runs.Reachable (step codec allowed)
      (fun server action => server.freshIds action = true) initial server) :
    server.Accounts ∧ server.Tracked := by
  obtain ⟨events, hrun⟩ := h
  have hall := hrun.invariant (fun server => server.Accounts ∧
    Delivery codec (fun _ => True) server ∧ server.Tracked)
    ⟨initial_accounts, initial_delivery, initial_tracked⟩ ?_
  · exact ⟨hall.1, hall.2.2⟩
  intro server server' action event ⟨haccounts, hdelivery, htracked⟩ hfresh hstep
  have htransition := step_transition hstep
  exact ⟨transition_accounts haccounts hfresh htransition,
    transition_delivery hdelivery haccounts.owned (fun _ _ => trivial) (fun _ _ _ => trivial) htransition,
    transition_tracked htracked haccounts hdelivery hfresh htransition⟩

/-- A result frame on the connection of a worker takes its dispatch out of the worker's set. -/
theorem read_result {codec : Codec} {allowed : List String} {server server' : Server} {workerId : Uuid}
    {state : WorkerState} {jobId : Int} {dispatchId : String} {result : JobResult}
    {runningJobs freeSlots : UInt32} {event : Option WorkerEvent} (howned : server.Owned)
    (hstate : server.workers.lookup workerId = some state)
    (h : server.step codec allowed (.read state.outbound
      (.frame (.jobResult jobId dispatchId result runningJobs freeSlots))) = some (server', event)) :
    ∃ state', server'.workers.lookup workerId = some state' ∧
      state'.inFlightDispatches = state.inFlightDispatches.erase dispatchId := by
  have howns : server.owner workerId = some state.outbound := owner_eq_some.mpr ⟨state, hstate, rfl⟩
  obtain ⟨handler, hin, hentered⟩ := howned.owner howns
  cases step_transition h with
  | readFirst hconn hhandler =>
    have hold := hin.symm.trans (handlers_eq_some.mpr ⟨_, hconn, hhandler⟩)
    rw [Option.some.inj hold] at hentered
    cases hentered
  | @readNext _ conn instanceId _ hconn hhandler =>
    have hmine := howned.entry (handlers_eq_some.mpr ⟨conn, hconn, hhandler⟩) rfl
    obtain rfl := howned.distinct hmine howns
    simp only [readNext, hstate]
    exact ⟨_, AList.lookup_insert _, rfl⟩

/-- In every state that steps on fresh ids reach, a registered worker's reservations are the permits
that name it, they fit into its slots beside its dispatches in flight, and a permit that names it
finds a slot to give back. Its dispatches in flight are the outstanding ones of its connection, and
a result frame takes its own out. -/
theorem capacity_respected (codec : Codec) (allowed : List String) (server : Server)
    (h : Runs.Reachable (step codec allowed)
      (fun server action => server.freshIds action = true) initial server)
    (workerId : Uuid) (state : WorkerState)
    (hstate : server.workers.lookup workerId = some state) :
    state.reservedSlots.toNat = server.permitsFor workerId ∧
    state.reservedSlots.toNat + state.inFlightDispatches.card ≤ state.capacitySlots.toNat ∧
    (∀ permit ∈ server.permits, permit.workerId = workerId → 0 < state.reservedSlots.toNat) ∧
    (∀ dispatchId, dispatchId ∈ state.inFlightDispatches ↔
      server.Outstanding state.outbound dispatchId) ∧
    ∀ jobId dispatchId result runningJobs freeSlots server' event,
      server.step codec allowed (.read state.outbound
        (.frame (.jobResult jobId dispatchId result runningJobs freeSlots))) = some (server', event) →
      ∃ state', server'.workers.lookup workerId = some state' ∧
        state'.inFlightDispatches = state.inFlightDispatches.erase dispatchId := by
  obtain ⟨haccounts, htracked⟩ := reachable_tracked h
  obtain ⟨hreserved, hroom, hflight⟩ := haccounts.slots.fits hstate
  refine ⟨hreserved, hroom, fun permit hpermit hnames => ?_, fun dispatchId => ?_,
    fun _ _ _ _ _ _ _ hread => read_result haccounts.owned hstate hread⟩
  · rw [hreserved]
    exact List.countP_pos_iff.mpr ⟨permit, hpermit, by simpa using hnames⟩
  · exact (hflight dispatchId).trans (htracked.open_iff _ _)

/-- A worker with two slots answers the first of its jobs. The frame of the third cannot be written,
and when its call has returned, the slot is reserved once more. -/
def capacityActions : List Action :=
  [.connect, .read 0 (.frame (.register 7 "mail" 0 2)), .register 0, .announce 0, .write 0 true,
    .acknowledge 0, .reserve Table.Choice.first [⟨"mail", 3⟩],
    .dispatch 0 (mailJob 1 "a" [1]), .dispatch 0 (mailJob 2 "b" [2]), .write 0 true,
    .read 0 (.frame (.jobResult 1 "a" (.succeeded [9]) 1 1)), .resume 0,
    .reserve Table.Choice.first [⟨"mail", 3⟩], .dispatch 0 (mailJob 3 "c" [3]), .write 0 true,
    .write 0 false, .resume 1, .reserve Table.Choice.first [⟨"mail", 3⟩]]

def capacityRun : Option Server :=
  (Runs.exec (step (Codec.cbor []) ["mail"])
    (fun server action => server.freshIds action = true) initial capacityActions).map Prod.fst

theorem capacityRun_isSome : capacityRun.isSome := by decide +kernel

/-- The worker of the run. -/
def capacityWorker : Option WorkerState :=
  (capacityRun.get capacityRun_isSome).workers.lookup 7

theorem capacityWorker_isSome : capacityWorker.isSome := by decide +kernel

theorem capacity_respected_run :
    (capacityWorker.get capacityWorker_isSome).reservedSlots.toNat =
      (capacityRun.get capacityRun_isSome).permitsFor 7 ∧
    (capacityRun.get capacityRun_isSome).permitsFor 7 = 1 ∧
    (capacityRun.get capacityRun_isSome).Outstanding 0 "b" ∧
    ¬ (capacityRun.get capacityRun_isSome).Outstanding 0 "a" ∧
    ¬ (capacityRun.get capacityRun_isSome).Outstanding 0 "c" := by
  have hreach : Runs.Reachable (step (Codec.cbor []) ["mail"])
      (fun server action => server.freshIds action = true) initial
      (capacityRun.get capacityRun_isSome) :=
    Runs.Reachable.of_exec capacityActions (Option.some_get _).symm
  obtain ⟨hreserved, -, -, hflight, -⟩ :=
    capacity_respected _ _ _ hreach 7 _ (Option.some_get capacityWorker_isSome).symm
  have houtbound : (capacityWorker.get capacityWorker_isSome).outbound = 0 := by decide +kernel
  rw [houtbound] at hflight
  refine ⟨hreserved, by decide +kernel, (hflight "b").mp (by decide +kernel), ?_, ?_⟩
  · rw [← hflight]
    decide +kernel
  · rw [← hflight]
    decide +kernel

end Server

end Maqistor
