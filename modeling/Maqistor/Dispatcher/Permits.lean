import Maqistor.Dispatcher.Effects

/-! Permits of an earlier registration. A permit names its worker by the instance id alone, so once
the id is registered again it is used on the new entry. -/

namespace Maqistor

/-- A slot less is reserved, unless there was none. -/
theorem WorkerState.releaseSlot_eq_self {worker : WorkerState} :
    worker.releaseSlot = worker ↔ worker.reservedSlots = 0 := by
  have hzero : (0 : UInt32).toNat = 0 := rfl
  have hone : (1 : UInt32).toNat = 1 := rfl
  constructor
  · intro h
    have hnat := congrArg (fun worker => worker.reservedSlots.toNat) h
    simp only [releaseSlot_toNat] at hnat
    apply UInt32.toNat_inj.mp
    omega
  · intro h
    have hreserved : saturatingSub32 worker.reservedSlots 1 = worker.reservedSlots := by
      apply UInt32.toNat_inj.mp
      rw [toNat_saturatingSub32, h]
      omega
    rw [releaseSlot, hreserved]

namespace Server

/-- The worker and the registration of the permit or the call that a step uses. -/
def uses (server : Server) : Action → Option (Uuid × Nat)
  | .release i | .dispatch i _ =>
    server.permits[i]?.map fun permit => (permit.workerId, permit.connection)
  | .resume i => server.calls[i]?.map fun call => (call.workerId, call.connection)
  | _ => none

/-- The writer task of a connection runs. -/
def writes (server : Server) (connection : Nat) : Bool :=
  server.connections[connection]?.any Connection.writing

/-- A registration is as it was: the worker's entry and what was sent to it. -/
structure Spares (server server' : Server) (workerId : Uuid) (worker : WorkerState) : Prop where
  entry : server'.workers.lookup workerId = some worker
  frames : server'.sentTo worker.outbound = server.sentTo worker.outbound

/-- The step finds nothing to change in the entry of its worker. -/
def harmless (server : Server) (worker : WorkerState) : Action → Bool
  | .release _ => worker.reservedSlots = 0
  | .dispatch _ job =>
    match job.dispatchId with
    | none => true
    | some dispatchId => worker.reservedSlots = 0 ∧ (worker.draining = true ∨
        dispatchId ∈ worker.inFlightDispatches ∨ server.writes worker.outbound = false)
  | .resume i =>
    server.calls[i]?.all fun call => server.acks[call.ack]? = some (some true) ∨
      call.dispatchId ∉ worker.inFlightDispatches
  | _ => true

section Spares

variable {codec : Codec} {allowed : List String} {server server' : Server} {workerId : Uuid}
  {worker new : WorkerState} {action : Action} {event : Option WorkerEvent}

/-- The entry is written and nothing is sent. -/
theorem spares_of_insert (hworkers : server'.workers = server.workers.insert workerId new)
    (hsent : SameSent server server') : Spares server server' workerId worker ↔ new = worker := by
  constructor
  · intro h
    have hentry := h.entry
    rw [hworkers, AList.lookup_insert, Option.some.injEq] at hentry
    exact hentry
  · rintro rfl
    exact ⟨by rw [hworkers, AList.lookup_insert], hsent _⟩

theorem spares_of_eq (hworker : server.workers.lookup workerId = some worker)
    (hworkers : server'.workers = server.workers) (hsent : SameSent server server') :
    Spares server server' workerId worker :=
  ⟨by rw [hworkers, hworker], hsent _⟩

theorem send_queued_iff (server : Server) (connection : Nat) (message : WorkerMessage) :
    (server.send connection message).2 = server.writes connection := by
  unfold Server.send writes
  split
  · next hconn => rw [hconn]; rfl
  · next conn hconn =>
    rw [hconn]
    cases hwriting : conn.writing <;> simp [hwriting]

/-- Only a slot is given back. -/
theorem spares_of_releaseSlot
    (hworkers : server'.workers = server.workers.insert workerId worker.releaseSlot)
    (hsent : SameSent server server') :
    Spares server server' workerId worker ↔ worker.reservedSlots = 0 := by
  rw [spares_of_insert hworkers hsent, WorkerState.releaseSlot_eq_self]

/-- What was sent is read off the connections alone. -/
theorem Spares.iff_of_eq {before : Server} {condition : Prop}
    (h : Spares before server' workerId worker ↔ condition)
    (hconnections : before.connections = server.connections) :
    Spares server server' workerId worker ↔ condition := by
  have hsame : ∀ c, before.sentTo c = server.sentTo c := fun c => by rw [sentTo, hconnections, sentTo]
  rw [← h]
  constructor
  · intro h
    exact ⟨h.entry, by rw [h.frames, hsame]⟩
  · intro h
    exact ⟨h.entry, by rw [h.frames, hsame]⟩

theorem releasePermit_spares (hworker : server.workers.lookup workerId = some worker) :
    Spares server (server.releasePermit workerId) workerId worker ↔ worker.reservedSlots = 0 := by
  simp only [releasePermit, hworker]
  exact spares_of_releaseSlot rfl fun _ => rfl

/-- A dispatch that reaches the channel adds its id to the entry; one that does not only gives back
the slot. -/
theorem dispatchLocked_spares {permit : ReservedDispatch} (job : Job) (dispatchId : String)
    (hworker : server.workers.lookup permit.workerId = some worker) :
    Spares server (server.dispatchLocked permit job dispatchId) permit.workerId worker ↔
      worker.reservedSlots = 0 ∧ (worker.draining = true ∨
        dispatchId ∈ worker.inFlightDispatches ∨ server.writes worker.outbound = false) := by
  simp only [dispatchLocked, hworker]
  split
  · next hdraining =>
    simp only [hdraining, true_or, and_true]
    exact spares_of_releaseSlot rfl fun _ => rfl
  · next hserving =>
    split
    · next hdouble =>
      simp only [hdouble, true_or, or_true, and_true]
      exact spares_of_releaseSlot rfl fun _ => rfl
    · next hnew =>
      rcases send_sent server worker.outbound (dispatchMessage job dispatchId) with
        ⟨hqueued, -⟩ | ⟨hqueued, hsent⟩
      · -- the id is in flight afterwards and was not before
        have hwrites : server.writes worker.outbound = true := by rw [← send_queued_iff, hqueued]
        constructor
        · intro h
          have hentry := h.entry
          rw [send_workers, AList.lookup_insert, Option.some.injEq, if_pos hqueued] at hentry
          refine absurd ?_ hnew
          rw [← hentry]
          exact Finset.mem_insert_self _ _
        · simp [hserving, hnew, hwrites]
      · have hwrites : server.writes worker.outbound = false := by rw [← send_queued_iff, hqueued]
        simp only [hwrites, or_true, and_true]
        refine spares_of_releaseSlot ?_ hsent
        simp only [send_workers, hqueued, Bool.false_eq_true, if_false, Finset.erase_insert hnew]
        rfl

theorem releaseDispatched_spares (dispatchId : String)
    (hworker : server.workers.lookup workerId = some worker) :
    Spares server (server.releaseDispatched workerId dispatchId) workerId worker ↔
      dispatchId ∉ worker.inFlightDispatches := by
  have herased : ({ worker with inFlightDispatches := worker.inFlightDispatches.erase dispatchId } =
      worker) ↔ dispatchId ∉ worker.inFlightDispatches := by
    rw [← Finset.erase_eq_self]
    constructor
    · intro h
      exact congrArg WorkerState.inFlightDispatches h
    · intro h
      rw [h]
  rw [← herased]
  simp only [releaseDispatched, hworker]
  exact spares_of_insert rfl fun _ => rfl

theorem dispatch_spares {permit : ReservedDispatch} (i : Nat) (job : Job)
    (hworker : server.workers.lookup permit.workerId = some worker) :
    Spares server (server.dispatch permit job) permit.workerId worker ↔
      server.harmless worker (.dispatch i job) = true := by
  unfold dispatch harmless
  split
  · next hnone =>
    simp only [hnone, iff_true]
    exact spares_of_eq hworker rfl fun _ => rfl
  · next dispatchId hsome =>
    simp only [hsome, decide_eq_true_eq]
    exact Spares.iff_of_eq (dispatchLocked_spares job dispatchId hworker) rfl

/-- The rest of a dispatch whose frame was written leaves the registry alone. -/
theorem finish_spares {call : DispatchCall} {wrote : Bool}
    (hworker : server.workers.lookup call.workerId = some worker) :
    Spares server (server.finish call wrote) call.workerId worker ↔
      wrote = true ∨ call.dispatchId ∉ worker.inFlightDispatches := by
  unfold finish
  cases wrote with
  | true =>
    simp only [if_true, true_or, iff_true]
    exact spares_of_eq hworker rfl fun _ => rfl
  | false =>
    simp only [Bool.false_eq_true, if_false, false_or]
    rw [← releaseDispatched_spares call.dispatchId hworker]
    exact ⟨fun h => ⟨h.entry, h.frames⟩, fun h => ⟨h.entry, h.frames⟩⟩

/-- A step that uses a permit or a call leaves the entry of its worker alone exactly when it finds
nothing to change there, whoever the permit was taken from. -/
theorem transition_spares (h : Transition codec allowed server action server' event)
    {connection : Nat} (huses : server.uses action = some (workerId, connection))
    (hworker : server.workers.lookup workerId = some worker) :
    Spares server server' workerId worker ↔ server.harmless worker action = true := by
  cases h with
  | @release i permit hpermit =>
    obtain ⟨rfl, -⟩ : permit.workerId = workerId ∧ permit.connection = connection := by
      simpa [uses, hpermit] using huses
    rw [harmless, decide_eq_true_eq]
    exact Spares.iff_of_eq (releasePermit_spares hworker) rfl
  | @dispatch i permit job hpermit =>
    obtain ⟨rfl, -⟩ : permit.workerId = workerId ∧ permit.connection = connection := by
      simpa [uses, hpermit] using huses
    exact Spares.iff_of_eq (dispatch_spares i job hworker) rfl
  | @resume i call wrote hcall hack =>
    obtain ⟨rfl, -⟩ : call.workerId = workerId ∧ call.connection = connection := by
      simpa [uses, hcall] using huses
    simp only [harmless, hcall, Option.all_some, hack, decide_eq_true_eq, Option.some.injEq]
    exact Spares.iff_of_eq (finish_spares hworker) rfl
  | _ => simp [uses] at huses

/-- A handler that leaves removes the entry it inserted, so an entry of another connection stays. -/
theorem remove_spares {c : Nat} (h : Transition codec allowed server (.remove c) server' event)
    (howned : server.Owned) (hworker : server.workers.lookup workerId = some worker)
    (hother : worker.outbound ≠ c) : Spares server server' workerId worker := by
  cases h with
  | @remove _ conn instanceId hconn hhandler =>
    have hmine : server.owner instanceId = some c :=
      howned.entry (handlers_eq_some.mpr ⟨conn, hconn, hhandler⟩) rfl
    have hne : workerId ≠ instanceId := by
      rintro rfl
      rw [owner, hworker] at hmine
      exact hother (Option.some.inj hmine)
    refine ⟨?_, sameSent_setHandler hconn .returned worker.outbound⟩
    rw [AList.lookup_erase_ne hne, hworker]

end Spares

/-- For every step of every run: a permit or a call of an earlier registration leaves the later
entry of its worker alone exactly when the step finds nothing to change there, and the end of an
earlier handler always leaves it alone. -/
theorem old_permit_spares_iff (codec : Codec) (allowed : List String) (server server' : Server)
    (h : Runs.Reachable (step codec allowed) (fun _ _ => True) initial server) (action : Action)
    (event : Option WorkerEvent) (hstep : server.step codec allowed action = some (server', event))
    (workerId : Uuid) (worker : WorkerState)
    (hworker : server.workers.lookup workerId = some worker) :
    (∀ connection, server.uses action = some (workerId, connection) →
      worker.outbound ≠ connection →
      (Spares server server' workerId worker ↔ server.harmless worker action = true)) ∧
    ∀ connection, action = .remove connection → worker.outbound ≠ connection →
      Spares server server' workerId worker := by
  have htransition := step_transition hstep
  constructor
  · intro connection huses hother
    exact transition_spares htransition huses hworker
  · rintro connection rfl hother
    exact remove_spares htransition (reachable_owned h) hworker hother

/-- A worker registers, a slot is reserved on it, it disconnects and registers again on another
connection. -/
def reregisteredActions : List Action :=
  [.connect, .read 0 (.frame (.register 7 "mail" 0 2)), .register 0, .announce 0, .write 0 true,
    .acknowledge 0, .reserve Table.Choice.first [⟨"mail", 1⟩], .read 0 .failed, .remove 0,
    .connect, .read 1 (.frame (.register 7 "mail" 0 2)), .register 1]

/-- The worker is registered again and nothing is reserved on its new entry. -/
def reregisteredRun : Option Server :=
  (Runs.exec (step (Codec.cbor []) ["mail"]) (fun _ _ => True) initial
    reregisteredActions).map Prod.fst

/-- One slot of the new entry is reserved. -/
def rereservedRun : Option Server :=
  (Runs.exec (step (Codec.cbor []) ["mail"]) (fun _ _ => True) initial
    (reregisteredActions ++ [.reserve Table.Choice.first [⟨"mail", 1⟩]])).map Prod.fst

theorem reregisteredRun_isSome : reregisteredRun.isSome := by decide +kernel

theorem rereservedRun_isSome : rereservedRun.isSome := by decide +kernel

/-- Where nothing is reserved on the new entry, the old permit has nothing to give back. -/
theorem old_permit_spares_iff_unreserved :
    ∃ server' event,
      (reregisteredRun.get reregisteredRun_isSome).step (Codec.cbor []) ["mail"] (.release 0) =
        some (server', event) ∧
      (reregisteredRun.get reregisteredRun_isSome).uses (.release 0) = some (7, 0) ∧
      (reregisteredRun.get reregisteredRun_isSome).workers.lookup 7 =
        some (.registered "mail" 0 2 1) ∧
      Spares (reregisteredRun.get reregisteredRun_isSome) server' 7 (.registered "mail" 0 2 1) := by
  have hreach : Runs.Reachable (step (Codec.cbor []) ["mail"]) (fun _ _ => True) initial
      (reregisteredRun.get reregisteredRun_isSome) :=
    Runs.Reachable.of_exec _ (Option.some_get _).symm
  have hsome : ((reregisteredRun.get reregisteredRun_isSome).step (Codec.cbor []) ["mail"]
      (.release 0)).isSome := by decide +kernel
  obtain ⟨⟨server', event⟩, hstep⟩ := Option.isSome_iff_exists.mp hsome
  have huses : (reregisteredRun.get reregisteredRun_isSome).uses (.release 0) = some (7, 0) := by
    decide +kernel
  have hworker : (reregisteredRun.get reregisteredRun_isSome).workers.lookup 7 =
      some (.registered "mail" 0 2 1) := by decide +kernel
  have hiff := (old_permit_spares_iff _ _ _ _ hreach _ _ hstep 7 _ hworker).1 0 huses (by decide)
  exact ⟨server', event, hstep, huses, hworker, hiff.mpr (by decide)⟩

/-- The entry of the worker on connection 1 with one slot reserved. -/
def rereserved : WorkerState := (WorkerState.registered "mail" 0 2 1).reserveSlot

/-- The release of the permit that was taken on connection 0 takes away the reservation of the
worker on connection 1. -/
theorem old_permit_frees_slot :
    ∃ server' event,
      Runs.Reachable (step (Codec.cbor []) ["mail"]) (fun _ _ => True) initial
        (rereservedRun.get rereservedRun_isSome) ∧
      (rereservedRun.get rereservedRun_isSome).step (Codec.cbor []) ["mail"] (.release 0) =
        some (server', event) ∧
      (rereservedRun.get rereservedRun_isSome).uses (.release 0) = some (7, 0) ∧
      (rereservedRun.get rereservedRun_isSome).workers.lookup 7 = some rereserved ∧
      rereserved.outbound = 1 ∧ rereserved.reservedSlots = 1 ∧
      (server'.workers.lookup 7).map WorkerState.reservedSlots = some 0 ∧
      ¬Spares (rereservedRun.get rereservedRun_isSome) server' 7 rereserved := by
  have hreach : Runs.Reachable (step (Codec.cbor []) ["mail"]) (fun _ _ => True) initial
      (rereservedRun.get rereservedRun_isSome) :=
    Runs.Reachable.of_exec _ (Option.some_get _).symm
  have hafter : ((rereservedRun.get rereservedRun_isSome).step (Codec.cbor []) ["mail"]
      (.release 0)).map (fun next => (next.1.workers.lookup 7).map WorkerState.reservedSlots) =
        some (some 0) := by decide +kernel
  obtain ⟨⟨server', event⟩, hstep, hfreed⟩ := Option.map_eq_some_iff.mp hafter
  refine ⟨server', event, hreach, hstep, by decide +kernel, by decide +kernel, rfl, by decide, hfreed,
    fun h => ?_⟩
  have hentry := congrArg (Option.map WorkerState.reservedSlots) h.entry
  rw [hfreed] at hentry
  exact absurd hentry (by decide)

end Server

end Maqistor
