import Maqistor.Dispatcher.Ownership

/-! Entries that no handler will remove. A handler removes its worker on every way out of its loop,
but not when it leaves between the insertion and the loop. -/

namespace Maqistor.Server

/-- Every entry has a handler that will remove it. -/
structure Attended (server : Server) : Prop where
  attendant : ∀ {workerId connection handler}, server.owner workerId = some connection →
    server.handlers[connection]? = some handler → handler.instance? = some workerId

/-- A registration goes through: when `Registered` is sent the writer still runs, and when the
handler goes on it has been written. -/
def registersThrough (server : Server) : Action → Bool
  | .announce connection => server.connections[connection]?.all Connection.writing
  | .acknowledge connection =>
    server.connections[connection]?.all fun conn =>
      match conn.handler with
      | .announcing _ _ ack => server.acks[ack]? ≠ some (some false)
      | _ => true
  | _ => true

section Attended

variable {server server' : Server} {connection : Nat}

theorem Attended.of_eq (h : server.Attended) (howner : ∀ workerId, server'.owner workerId =
    server.owner workerId) (hhandlers : server'.handlers = server.handlers) :
    server'.Attended := by
  constructor
  intro workerId connection handler howns hhandler
  rw [howner] at howns
  rw [hhandlers] at hhandler
  exact h.attendant howns hhandler

theorem Attended.move (h : server.Attended) (howner : ∀ workerId, server'.owner workerId =
    server.owner workerId) {old new : Handler} (hold : server.handlers[connection]? = some old)
    (hhandlers : server'.handlers = server.handlers.set connection new)
    (hinstance : new.instance? = old.instance?) : server'.Attended := by
  constructor
  intro workerId other handler howns hhandler
  rw [howner] at howns
  rw [hhandlers] at hhandler
  rcases Lists.getElem?_set_of_some hold hhandler with ⟨rfl, rfl⟩ | ⟨-, hhandler⟩
  · rw [hinstance]
    exact h.attendant howns hold
  · exact h.attendant howns hhandler

theorem Attended.connect (h : server.Attended) (howned : server.Owned)
    (howner : ∀ workerId, server'.owner workerId = server.owner workerId)
    (hhandlers : server'.handlers = server.handlers ++ [.accepted]) : server'.Attended := by
  constructor
  intro workerId connection handler howns hhandler
  rw [howner] at howns
  obtain ⟨before, hbefore, -⟩ := howned.owner howns
  have hlt := (List.getElem?_eq_some_iff.mp hbefore).1
  rw [hhandlers, List.getElem?_append_left hlt] at hhandler
  exact h.attendant howns hhandler

theorem Attended.enroll (h : server.Attended) (howned : server.Owned) {old : Handler}
    {instanceId : Uuid} {queueName : String} (hold : server.handlers[connection]? = some old)
    (hout : old.entered = false) (howner : ∀ workerId, server'.owner workerId =
      if workerId = instanceId then some connection else server.owner workerId)
    (hhandlers : server'.handlers = server.handlers.set connection
      (.inserted instanceId queueName)) : server'.Attended := by
  constructor
  intro workerId other handler howns hhandler
  rw [howner] at howns
  rw [hhandlers] at hhandler
  rcases Lists.getElem?_set_of_some hold hhandler with ⟨rfl, rfl⟩ | ⟨hne, hhandler⟩
  · split at howns
    · next heq => rw [heq]; rfl
    · obtain ⟨before, hbefore, hin⟩ := howned.owner howns
      obtain rfl : old = before := Option.some.inj (hold.symm.trans hbefore)
      simp [hout] at hin
  · split at howns
    · exact absurd (Option.some.inj howns).symm hne
    · exact h.attendant howns hhandler

theorem Attended.remove (h : server.Attended) (howned : server.Owned) {old : Handler}
    {instanceId : Uuid} (hold : server.handlers[connection]? = some old)
    (hinstance : old.instance? = some instanceId) (howner : ∀ workerId, server'.owner workerId =
      if workerId = instanceId then none else server.owner workerId)
    (hhandlers : server'.handlers = server.handlers.set connection .returned) :
    server'.Attended := by
  constructor
  intro workerId other handler howns hhandler
  rw [howner] at howns
  rw [hhandlers] at hhandler
  split at howns
  · cases howns
  · next hne =>
    rcases Lists.getElem?_set_of_some hold hhandler with ⟨rfl, rfl⟩ | ⟨-, hhandler⟩
    · exact absurd (howned.distinct howns (howned.entry hold hinstance)) hne
    · exact h.attendant howns hhandler

end Attended

theorem initial_attended : initial.Attended := by
  constructor
  intro workerId connection handler howns
  simp [owner, initial] at howns

/-- The send of `Registered` finds the writer. -/
theorem announce_writing {server : Server} {connection : Nat} {conn : Connection}
    (instanceId : Uuid) (queueName : String) (hconn : server.connections[connection]? = some conn)
    (hok : server.registersThrough (.announce connection) = true) :
    (server.announce connection instanceId queueName).handlers = server.handlers.set connection
      (.announcing instanceId queueName server.acks.length) := by
  have hwriting : conn.writing = true := by simpa [registersThrough, hconn] using hok
  have hqueued : (server.send connection (.registered queueName)).2 = true := by
    simp [send, hconn, hwriting]
  simp only [announce]
  rw [setHandler_handlers, send_handlers, if_pos hqueued]

/-- While registrations go through, every entry keeps a handler. -/
theorem transition_attended {codec : Codec} {allowed : List String} {server server' : Server}
    {action : Action} {event : Option WorkerEvent} (howned : server.Owned)
    (hinv : server.Attended) (hok : server.registersThrough action = true)
    (h : Transition codec allowed server action server' event) : server'.Attended := by
  cases h with
  | connect => exact hinv.connect howned (fun _ => rfl) (by simp [handlers])
  | @readFirst c conn input hconn hhandler =>
    obtain ⟨handler, hnone, hset⟩ := readFirst_handlers allowed server c input
    exact hinv.move (readFirst_owner allowed server c input)
      (handlers_eq_some.mpr ⟨conn, hconn, hhandler⟩) hset hnone
  | @readNext c conn instanceId input hconn hhandler =>
    obtain ⟨howner, hsame | hset⟩ := (readNext_step server c instanceId input).owned
    · exact hinv.of_eq howner hsame
    · exact hinv.move howner (handlers_eq_some.mpr ⟨conn, hconn, hhandler⟩) hset rfl
  | @enroll c conn instanceId queueName runningJobs freeSlots hconn hhandler =>
    have hold := handlers_eq_some.mpr ⟨_, hconn, hhandler⟩
    unfold enroll
    split
    · exact hinv.move (fun _ => rfl) hold (setHandler_handlers _ _ _) rfl
    · exact hinv.enroll howned hold rfl (owner_insert rfl (by rfl)) (setHandler_handlers _ _ _)
  | @announce c conn instanceId queueName hconn hhandler =>
    have hhandlers := announce_writing instanceId queueName hconn hok
    exact hinv.move (announce_owner server c instanceId queueName)
      (handlers_eq_some.mpr ⟨_, hconn, hhandler⟩) hhandlers rfl
  | acknowledge hconn hhandler =>
    exact hinv.move (fun _ => rfl) (handlers_eq_some.mpr ⟨_, hconn, hhandler⟩)
      (setHandler_handlers _ _ _) rfl
  | abandon hconn hhandler hack => simp [registersThrough, hconn, hhandler, hack] at hok
  | @remove c conn instanceId hconn hhandler =>
    exact hinv.remove howned (handlers_eq_some.mpr ⟨_, hconn, hhandler⟩) rfl
      (remove_owner server c instanceId) (setHandler_handlers server c .returned)
  | writeRefusal hconn hhandler =>
    exact hinv.move (fun _ => rfl) (handlers_eq_some.mpr ⟨_, hconn, hhandler⟩)
      (writeRefusal_handlers _ _ _ _ _) rfl
  | writeNext hconn =>
    exact hinv.of_eq (writeNext_owner _ _ _ _ _ _ _) (writeNext_handlers hconn _ _ _)
  | reserve => exact hinv.of_eq (reserve_owner _ _ rfl) rfl
  | release => exact hinv.of_eq (releasePermit_owner _ _) (releasePermit_handlers _ _)
  | dispatch => exact hinv.of_eq (dispatch_owner _ _ _) (dispatch_handlers _ _ _)
  | resume => exact hinv.of_eq (finish_owner _ _ _) (finish_handlers _ _ _)

theorem reachable_attended {codec : Codec} {allowed : List String} {server : Server}
    (h : Runs.Reachable (step codec allowed)
      (fun server action => server.registersThrough action = true) initial server) :
    server.Attended := by
  obtain ⟨events, hrun⟩ := h
  refine (hrun.invariant (fun server => server.Owned ∧ server.Attended)
    ⟨initial_owned, initial_attended⟩ fun hinv hok hstep => ?_).2
  have htransition := step_transition hstep
  exact ⟨transition_owned hinv.1 htransition, transition_attended hinv.1 hinv.2 hok htransition⟩

/-- An entry leaves the registry only by the handler of the connection that inserted it. -/
theorem transition_keeps {codec : Codec} {allowed : List String} {server server' : Server}
    {action : Action} {event : Option WorkerEvent} (howned : server.Owned)
    (h : Transition codec allowed server action server' event) {workerId : Uuid} {connection : Nat}
    (howns : server.owner workerId = some connection) :
    server'.owner workerId = some connection ∨ action = .remove connection := by
  cases h with
  | readFirst => exact Or.inl (by rw [readFirst_owner, howns])
  | @readNext c _ instanceId input =>
    exact Or.inl (by rw [(readNext_step server c instanceId input).owned.1, howns])
  | @enroll c conn instanceId queueName runningJobs freeSlots hconn hhandler =>
    refine Or.inl ?_
    unfold enroll
    split
    · exact howns
    · next hnew =>
      have hother : workerId ≠ instanceId := by
        rintro rfl
        rw [owner, AList.lookup_eq_none.mpr hnew] at howns
        cases howns
      rw [owner_insert rfl (by rfl), if_neg hother, howns]
  | announce => exact Or.inl (by rw [announce_owner, howns])
  | @remove c conn instanceId hconn hhandler =>
    by_cases heq : workerId = instanceId
    · subst heq
      have hmine := howned.entry (handlers_eq_some.mpr ⟨_, hconn, hhandler⟩) rfl
      exact Or.inr (by rw [Option.some.inj (hmine.symm.trans howns)])
    · exact Or.inl (by rw [remove_owner, if_neg heq, howns])
  | writeNext => exact Or.inl (by rw [writeNext_owner, howns])
  | reserve => exact Or.inl (by rw [reserve_owner _ _ rfl, howns])
  | release => exact Or.inl ((releasePermit_owner _ _ _).trans howns)
  | dispatch => exact Or.inl ((dispatch_owner _ _ _ _).trans howns)
  | resume => exact Or.inl ((finish_owner _ _ _ _).trans howns)
  | connect | acknowledge | abandon | writeRefusal => exact Or.inl howns

/-- When registrations go through, a handler that has returned has left no entry behind, so no
reservation takes a slot of its worker; and no handler ever removes the entry of another. -/
theorem no_ghost_workers (codec : Codec) (allowed : List String) :
    (∀ server, Runs.Reachable (step codec allowed)
        (fun server action => server.registersThrough action = true) initial server →
      ∀ connection conn, server.connections[connection]? = some conn → conn.handler = .returned →
        (∀ workerId state, server.workers.lookup workerId = some state →
          state.outbound ≠ connection) ∧
        ∀ choice queues, ∀ permit ∈ (reserve choice queues server.workers).2,
          permit.connection ≠ connection) ∧
    ∀ server server' action event,
      Runs.Reachable (step codec allowed) (fun _ _ => True) initial server →
      server.step codec allowed action = some (server', event) →
      ∀ workerId state, server.workers.lookup workerId = some state →
        action = .remove state.outbound ∨
          ∃ state', server'.workers.lookup workerId = some state' ∧
            state'.outbound = state.outbound := by
  constructor
  · intro server hreach connection conn hconn hreturned
    have hattended := reachable_attended hreach
    have hnone : ∀ workerId, server.owner workerId ≠ some connection := by
      intro workerId howns
      have hinstance := hattended.attendant howns (handlers_eq_some.mpr ⟨conn, hconn, hreturned⟩)
      cases hinstance
    constructor
    · rintro workerId state hlookup rfl
      exact hnone workerId (owner_eq_some.mpr ⟨state, hlookup, rfl⟩)
    · rintro choice queues permit hpermit rfl
      exact hnone permit.workerId (reserve_owned permit hpermit)
  · intro server server' action event hreach hstep workerId state hlookup
    have howns := owner_eq_some.mpr ⟨state, hlookup, rfl⟩
    rcases transition_keeps (reachable_owned hreach) (step_transition hstep) howns with
      hkept | hremoved
    · exact Or.inr (owner_eq_some.mp hkept)
    · exact Or.inl hremoved

/-- Two workers register; the first disconnects and is removed. -/
def leavingActions : List Action :=
  [.connect, .read 0 (.frame (.register 7 "mail" 0 2)), .register 0, .announce 0, .write 0 true,
    .acknowledge 0, .connect, .read 1 (.frame (.register 8 "mail" 0 1)), .register 1, .announce 1,
    .write 1 true, .acknowledge 1, .read 0 .failed, .remove 0]

/-- A worker whose connection breaks before `Registered` is written. -/
def ghostActions : List Action :=
  [.connect, .read 0 (.frame (.register 7 "mail" 0 2)), .register 0, .announce 0, .write 0 false,
    .acknowledge 0]

def leavingRun : Option Server :=
  (Runs.exec (step (Codec.cbor []) ["mail"])
    (fun server action => server.registersThrough action = true) initial leavingActions).map Prod.fst

def ghostRun : Option Server :=
  (Runs.exec (step (Codec.cbor []) ["mail"]) (fun _ _ => True) initial ghostActions).map Prod.fst

theorem leavingRun_isSome : leavingRun.isSome := by decide +kernel

theorem ghostRun_isSome : ghostRun.isSome := by decide +kernel

theorem no_ghost_workers_leaving :
    ((leavingRun.get leavingRun_isSome).connections[0]?.map Connection.handler = some .returned) ∧
    (∀ workerId state, (leavingRun.get leavingRun_isSome).workers.lookup workerId = some state →
      state.outbound ≠ 0) ∧
    (leavingRun.get leavingRun_isSome).owner 8 = some 1 := by
  have hreach : Runs.Reachable (step (Codec.cbor []) ["mail"])
      (fun server action => server.registersThrough action = true) initial
      (leavingRun.get leavingRun_isSome) :=
    Runs.Reachable.of_exec leavingActions (Option.some_get _).symm
  have hhandler : (leavingRun.get leavingRun_isSome).connections[0]?.map Connection.handler =
      some .returned := by decide +kernel
  refine ⟨hhandler, ?_, by decide +kernel⟩
  obtain ⟨conn, hconn, hreturned⟩ := Option.map_eq_some_iff.mp hhandler
  exact ((no_ghost_workers (Codec.cbor []) ["mail"]).1 _ hreach 0 conn hconn hreturned).1

/-- The handler of the first connection has returned, its worker is still registered and gets the
next reservation. -/
theorem ghost_worker_reserved :
    Runs.Reachable (step (Codec.cbor []) ["mail"]) (fun _ _ => True) initial
      (ghostRun.get ghostRun_isSome) ∧
    (ghostRun.get ghostRun_isSome).connections[0]?.map Connection.handler = some .returned ∧
    (ghostRun.get ghostRun_isSome).owner 7 = some 0 ∧
    (reserve Table.Choice.first [⟨"mail", 1⟩] (ghostRun.get ghostRun_isSome).workers).2 =
      [⟨"mail", 7, 0⟩] := by
  refine ⟨Runs.Reachable.of_exec ghostActions (Option.some_get _).symm, ?_, ?_, ?_⟩
  all_goals decide +kernel

end Maqistor.Server
