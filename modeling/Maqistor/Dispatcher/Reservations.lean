import Maqistor.Dispatcher.Capacity

/-! No slot is reserved without a permit, whatever ids are used: a worker's reservations are at most
the permits that name it. The one leak is a job without a dispatch id, whose permit is gone before
the registry is locked. -/

namespace Maqistor.Server

/-- Every reservation is backed by a permit. -/
structure Backed (server : Server) : Prop where
  permitted : ∀ {workerId state}, server.workers.lookup workerId = some state →
    state.reservedSlots.toNat ≤ server.permitsFor workerId

/-- A job that is dispatched was claimed, so it has a dispatch id. -/
def claimedJobs : Action → Bool
  | .dispatch _ job => job.dispatchId.isSome
  | _ => true

section Backed

variable {codec : Codec} {allowed : List String} {server server' : Server} {action : Action}
  {event : Option WorkerEvent}

theorem Backed.keep (h : server.Backed)
    (hworkers : ∀ {workerId state}, server'.workers.lookup workerId = some state →
      server.workers.lookup workerId = some state)
    (hpermits : server'.permits = server.permits) : server'.Backed := by
  refine ⟨fun hlookup => ?_⟩
  rw [permitsFor, hpermits]
  exact h.permitted (hworkers hlookup)

/-- An entry is written that has no more reservations than permits. -/
theorem Backed.insert (h : server.Backed) {workerId : Uuid} {new : WorkerState}
    (hworkers : server'.workers = server.workers.insert workerId new)
    (hpermits : server'.permits = server.permits)
    (hnew : new.reservedSlots.toNat ≤ server.permitsFor workerId) : server'.Backed := by
  refine ⟨fun hlookup => ?_⟩
  rw [hworkers] at hlookup
  rw [permitsFor, hpermits]
  rcases lookup_insert_cases hlookup with ⟨rfl, rfl⟩ | ⟨-, hold⟩
  · exact hnew
  · exact h.permitted hold

/-- An entry is changed that keeps its reservations. -/
theorem Backed.update (h : server.Backed) {workerId : Uuid} {old new : WorkerState}
    (hold : server.workers.lookup workerId = some old)
    (hreserved : new.reservedSlots = old.reservedSlots)
    (hworkers : server'.workers = server.workers.insert workerId new)
    (hpermits : server'.permits = server.permits) : server'.Backed := by
  refine h.insert hworkers hpermits ?_
  rw [hreserved]
  exact h.permitted hold

/-- A permit is used up, and the worker that it names, if it is there, has a slot less reserved. -/
theorem Backed.spend (h : server.Backed) {i : Nat} {permit : ReservedDispatch}
    (hpermit : server.permits[i]? = some permit)
    (hpermits : server'.permits = server.permits.eraseIdx i)
    (hworkers : server.workers.lookup permit.workerId = none ∧ server'.workers = server.workers ∨
      ∃ worker new, server.workers.lookup permit.workerId = some worker ∧
        new.reservedSlots = worker.releaseSlot.reservedSlots ∧
        server'.workers = server.workers.insert permit.workerId new) : server'.Backed := by
  have hcount := permitsFor_eraseIdx hpermit hpermits
  have hothers : ∀ {other state}, other ≠ permit.workerId →
      server.workers.lookup other = some state →
      state.reservedSlots.toNat ≤ server'.permitsFor other := by
    intro other state hne hlookup
    have hbefore := h.permitted hlookup
    rwa [hcount, if_neg (Ne.symm hne), Nat.add_zero] at hbefore
  refine ⟨fun {other state} hlookup => ?_⟩
  rcases hworkers with ⟨hnone, hworkers⟩ | ⟨worker, new, hworker, hreserved, hworkers⟩
  · rw [hworkers] at hlookup
    refine hothers ?_ hlookup
    rintro rfl
    rw [hnone] at hlookup
    cases hlookup
  · rw [hworkers] at hlookup
    rcases lookup_insert_cases hlookup with ⟨rfl, rfl⟩ | ⟨hne, hold⟩
    · have hbefore := h.permitted hworker
      rw [hcount, if_pos rfl] at hbefore
      rw [hreserved, worker.releaseSlot_toNat]
      omega
    · exact hothers hne hold

theorem dispatchLocked_backed (h : server.Backed) {i : Nat} {permit : ReservedDispatch}
    (hpermit : server.permits[i]? = some permit) {before : Server}
    (hworkers : before.workers = server.workers)
    (hpermits : before.permits = server.permits.eraseIdx i) (job : Job) (dispatchId : String) :
    (before.dispatchLocked permit job dispatchId).Backed := by
  simp only [dispatchLocked]
  split
  · next hnone => exact h.spend hpermit hpermits (Or.inl ⟨hworkers ▸ hnone, hworkers⟩)
  · next worker hworker =>
    rw [hworkers] at hworker
    split
    · exact h.spend hpermit hpermits (Or.inr ⟨worker, _, hworker, rfl, by rw [hworkers]⟩)
    · split
      · exact h.spend hpermit hpermits (Or.inr ⟨worker, _, hworker, rfl, by rw [hworkers]⟩)
      · rw [send_workers, hworkers]
        exact h.spend hpermit ((send_permits _ _ _).trans hpermits)
          (Or.inr ⟨worker, _, hworker, by rfl, rfl⟩)

theorem reserve_backed (h : server.Backed) (choice : Table.Choice)
    (queues : List QueueReservation) :
    Backed { server with
      workers := (Maqistor.reserve choice queues server.workers).1
      permits := server.permits ++ (Maqistor.reserve choice queues server.workers).2 } := by
  refine reserve_induction (fun workers reserved =>
    Backed { server with workers := workers, permits := server.permits ++ reserved })
    (by simpa using h) ?_
  intro workers reserved queueName workerId state hbacked hlookup _
  refine ⟨fun {other entry} hentry => ?_⟩
  have hcount : permitsFor { server with
        workers := workers.insert workerId state.reserveSlot
        permits := server.permits ++ (reserved ++ [⟨queueName, workerId, state.outbound⟩]) } other =
      permitsFor { server with workers := workers, permits := server.permits ++ reserved } other +
        if workerId = other then 1 else 0 := by
    simp only [permitsFor, ← List.append_assoc, List.countP_append, List.countP_singleton,
      decide_eq_true_eq]
  rw [hcount]
  rcases lookup_insert_cases hentry with ⟨rfl, rfl⟩ | ⟨-, hold⟩
  · have hbefore := hbacked.permitted hlookup
    have hone : (1 : UInt32).toNat = 1 := rfl
    simp only [WorkerState.reserveSlot, toNat_saturatingAdd32, hone, if_true]
    omega
  · exact Nat.le_add_right_of_le (hbacked.permitted hold)

theorem ReadStep.backed {c : Nat} {instanceId : Uuid} {input : Input}
    (hstep : ReadStep server c instanceId input server') (h : server.Backed) : server'.Backed := by
  have hmarked : ∀ {state : WorkerState}, server.workers.lookup instanceId = some state →
      ((server.markDraining instanceId state).send state.outbound .draining).1.Backed :=
    fun hstate => h.update hstate (by rfl) (send_workers _ _ _) (send_permits _ _ _)
  cases hstep with
  | leave => exact h.keep id rfl
  | heartbeat => exact h
  | result hstate => exact h.update hstate (by rfl) rfl rfl
  | drain hstate => exact hmarked hstate
  | stopped hstate => exact (hmarked hstate).keep id rfl

/-- Every step on claimed jobs keeps reservations backed by permits. -/
theorem transition_backed (hinv : server.Backed) (hclaimed : claimedJobs action = true)
    (h : Transition codec allowed server action server' event) : server'.Backed := by
  cases h with
  | connect | acknowledge | abandon | writeRefusal => exact hinv.keep id rfl
  | readFirst =>
    unfold readFirst
    split
    · split <;> exact hinv.keep id rfl
    · exact hinv.keep id rfl
  | readNext => exact (readNext_step server _ _ _).backed hinv
  | enroll =>
    unfold enroll
    split
    · exact hinv.keep id rfl
    · exact hinv.insert rfl rfl (Nat.zero_le _)
  | @announce c _ instanceId queueName =>
    refine hinv.keep (fun hlookup => ?_) (send_permits server c (.registered queueName))
    rwa [show (server.announce c instanceId queueName).workers = server.workers from
      send_workers server c (.registered queueName)] at hlookup
  | @remove c conn instanceId =>
    refine hinv.keep (fun {workerId state} hlookup => ?_) rfl
    by_cases heq : workerId = instanceId
    · rw [heq, AList.lookup_erase] at hlookup
      cases hlookup
    · rwa [AList.lookup_erase_ne heq] at hlookup
  | writeNext =>
    unfold writeNext
    split <;> exact hinv.keep id rfl
  | reserve => exact reserve_backed hinv _ _
  | release hpermit =>
    unfold releasePermit
    split
    · next hnone => exact hinv.spend hpermit rfl (Or.inl ⟨hnone, rfl⟩)
    · next worker hworker => exact hinv.spend hpermit rfl (Or.inr ⟨worker, _, hworker, rfl, rfl⟩)
  | @dispatch i permit job hpermit =>
    obtain ⟨dispatchId, hjob⟩ := Option.isSome_iff_exists.mp hclaimed
    simp only [dispatch, hjob]
    exact dispatchLocked_backed hinv hpermit (by rfl) (by rfl) job dispatchId
  | resume =>
    unfold finish releaseDispatched
    split
    · exact hinv.keep id rfl
    · split
      · exact hinv.keep id rfl
      · next worker hworker => exact hinv.update hworker (by rfl) rfl rfl

theorem initial_backed : initial.Backed := by
  refine ⟨fun hlookup => ?_⟩
  simp [initial] at hlookup

theorem reachable_backed (h : Runs.Reachable (step codec allowed)
    (fun _ action => claimedJobs action = true) initial server) : server.Backed := by
  obtain ⟨events, hrun⟩ := h
  exact hrun.invariant Backed initial_backed
    fun hinv hclaimed hstep => transition_backed hinv hclaimed (step_transition hstep)

end Backed

end Maqistor.Server
