import Maqistor.Dispatcher.Ownership

/-! A worker never gets more than it can hold: its reservations are the permits that name it, and
together with its dispatches in flight they fit into its slots. -/

namespace Maqistor.Server

/-- The permits that name a worker. -/
def permitsFor (server : Server) (workerId : Uuid) : Nat :=
  server.permits.countP fun permit => permit.workerId = workerId

/-- The ids that were queued on a connection and are neither answered nor cleaned up. -/
def Open (server : Server) (connection : Nat) (dispatchId : String) : Prop :=
  (connection, dispatchId) ∈ server.queued ∧ (connection, dispatchId) ∉ server.answered ∧
    (connection, dispatchId) ∉ server.failed

/-- The slots of one worker. -/
structure Fits (server : Server) (workerId : Uuid) (state : WorkerState) : Prop where
  reserved : state.reservedSlots.toNat = server.permitsFor workerId
  room : state.reservedSlots.toNat + state.inFlightDispatches.card ≤ state.capacitySlots.toNat
  inFlight : ∀ dispatchId, dispatchId ∈ state.inFlightDispatches ↔
    server.Open state.outbound dispatchId

/-- Instance ids are not used again once their worker is gone, and jobs carry new dispatch ids. -/
def freshIds (server : Server) : Action → Bool
  | .register connection =>
    server.connections[connection]?.all fun conn =>
      match conn.handler with
      | .registering instanceId _ _ _ =>
        decide (instanceId ∈ server.enrolled → instanceId ∈ server.workers)
      | _ => true
  | .dispatch _ job => job.dispatchId.any fun dispatchId => dispatchId ∉ server.issued
  | _ => true

/-! ### What the history says -/

/-- Workers, permits and calls name ids that were inserted, and dispatches ids that were used. -/
structure History (server : Server) : Prop where
  workers : ∀ {workerId connection}, server.owner workerId = some connection →
    workerId ∈ server.enrolled
  permits : ∀ permit ∈ server.permits, permit.workerId ∈ server.enrolled
  calls : ∀ call ∈ server.calls, call.workerId ∈ server.enrolled ∧
    call.dispatchId ∈ server.issued ∧
    server.handlers[call.connection]?.any Handler.entered = true ∧
    ∀ {workerId connection}, server.owner workerId = some connection →
      (workerId = call.workerId ↔ connection = call.connection)
  queued : ∀ {connection dispatchId}, (connection, dispatchId) ∈ server.queued →
    dispatchId ∈ server.issued ∧ server.handlers[connection]?.any Handler.entered = true
  settled : ∀ {connection dispatchId}, (connection, dispatchId) ∈ server.answered ∨
    (connection, dispatchId) ∈ server.failed → dispatchId ∈ server.issued

/-- What a step adds to the history, while no worker comes or goes. -/
structure Adds (server server' : Server) : Prop where
  enrolled : server'.enrolled = server.enrolled
  issued : server.issued ⊆ server'.issued
  permits : ∀ permit ∈ server'.permits, permit ∈ server.permits ∨
    ∃ connection, server.owner permit.workerId = some connection
  calls : ∀ call ∈ server'.calls, call ∈ server.calls ∨
    server.owner call.workerId = some call.connection ∧ call.dispatchId ∈ server'.issued
  queued : ∀ connection dispatchId, (connection, dispatchId) ∈ server'.queued →
    (connection, dispatchId) ∈ server.queued ∨
      dispatchId ∈ server'.issued ∧ ∃ workerId, server.owner workerId = some connection
  settled : ∀ connection dispatchId, (connection, dispatchId) ∈ server'.answered ∨
    (connection, dispatchId) ∈ server'.failed → (connection, dispatchId) ∈ server.answered ∨
      (connection, dispatchId) ∈ server.failed ∨ dispatchId ∈ server'.issued

theorem Adds.nothing {server server' : Server} (hpermits : server'.permits = server.permits)
    (hcalls : server'.calls = server.calls) (henrolled : server'.enrolled = server.enrolled)
    (hissued : server'.issued = server.issued) (hqueued : server'.queued = server.queued)
    (hanswered : server'.answered = server.answered) (hfailed : server'.failed = server.failed) :
    Adds server server' := by
  refine ⟨henrolled, ?_, ?_, ?_, ?_, ?_⟩
  · rw [hissued]
    exact List.Subset.refl _
  · rw [hpermits]
    exact fun permit hpermit => Or.inl hpermit
  · rw [hcalls]
    exact fun call hcall => Or.inl hcall
  · rw [hqueued]
    exact fun _ _ hpair => Or.inl hpair
  · rw [hanswered, hfailed]
    exact fun _ _ hpair => hpair.elim Or.inl fun hfailed => Or.inr (Or.inl hfailed)

theorem History.adds {server server' : Server} (h : server.History) (howned : server.Owned)
    (hadds : Adds server server')
    (howner : ∀ workerId, server'.owner workerId = server.owner workerId)
    (hentered : ∀ connection : Nat, server.handlers[connection]?.any Handler.entered = true →
      server'.handlers[connection]?.any Handler.entered = true) : server'.History := by
  constructor
  · intro workerId connection howns
    rw [howner] at howns
    rw [hadds.enrolled]
    exact h.workers howns
  · intro permit hpermit
    rw [hadds.enrolled]
    rcases hadds.permits permit hpermit with hold | ⟨connection, howns⟩
    · exact h.permits permit hold
    · exact h.workers howns
  · intro call hcall
    rw [hadds.enrolled]
    rcases hadds.calls call hcall with hold | ⟨howns, hissued⟩
    · obtain ⟨henrolled, hissued, hin, hnames⟩ := h.calls call hold
      refine ⟨henrolled, hadds.issued hissued, hentered _ hin, fun hother => ?_⟩
      rw [howner] at hother
      exact hnames hother
    · obtain ⟨handler, hhandler, hin⟩ := howned.owner howns
      refine ⟨h.workers howns, hissued, hentered _ (by rw [hhandler]; exact hin), fun hother => ?_⟩
      rw [howner] at hother
      constructor
      · rintro rfl
        exact Option.some.inj (hother.symm.trans howns)
      · rintro rfl
        exact howned.distinct hother howns
  · intro connection dispatchId hpair
    rcases hadds.queued connection dispatchId hpair with hold | ⟨hissued, workerId, howns⟩
    · exact ⟨hadds.issued (h.queued hold).1, hentered connection (h.queued hold).2⟩
    · obtain ⟨handler, hhandler, hin⟩ := howned.owner howns
      exact ⟨hissued, hentered connection (by rw [hhandler]; exact hin)⟩
  · intro connection dispatchId hpair
    rcases hadds.settled connection dispatchId hpair with hold | hold | hissued
    · exact hadds.issued (h.settled (Or.inl hold))
    · exact hadds.issued (h.settled (Or.inr hold))
    · exact hissued

/-! ### Slots -/

/-- Every worker's slots. -/
structure Slots (server : Server) : Prop where
  fits : ∀ {workerId state}, server.workers.lookup workerId = some state →
    server.Fits workerId state

theorem lookup_insert_cases {workers : WorkerRegistry} {workerId other : Uuid}
    {new state : WorkerState} (h : (workers.insert workerId new).lookup other = some state) :
    other = workerId ∧ state = new ∨ other ≠ workerId ∧ workers.lookup other = some state := by
  by_cases heq : other = workerId
  · subst heq
    rw [AList.lookup_insert] at h
    exact Or.inl ⟨rfl, (Option.some.inj h).symm⟩
  · rw [AList.lookup_insert_ne heq] at h
    exact Or.inr ⟨heq, h⟩

/-- The slots of a worker that a step did not touch. -/
theorem Fits.same {server server' : Server} {workerId : Uuid} {state : WorkerState}
    (h : server.Fits workerId state)
    (hpermits : server'.permitsFor workerId = server.permitsFor workerId)
    (hopen : ∀ dispatchId, server'.Open state.outbound dispatchId ↔
      server.Open state.outbound dispatchId) : server'.Fits workerId state :=
  ⟨by rw [hpermits]; exact h.reserved, h.room, fun dispatchId => by
    rw [hopen]; exact h.inFlight dispatchId⟩

/-- A step that changes one worker: the permits that name others and their dispatches stay. -/
theorem Slots.change {server server' : Server} (h : server.Slots) {workerId : Uuid}
    {new : WorkerState} (hworkers : server'.workers = server.workers.insert workerId new)
    (hnew : server'.Fits workerId new)
    (hpermits : ∀ other, other ≠ workerId → server'.permitsFor other = server.permitsFor other)
    (hopen : ∀ {other state}, other ≠ workerId → server.workers.lookup other = some state →
      ∀ dispatchId, server'.Open state.outbound dispatchId ↔
        server.Open state.outbound dispatchId) : server'.Slots := by
  constructor
  intro other state hlookup
  rw [hworkers] at hlookup
  rcases lookup_insert_cases hlookup with ⟨rfl, rfl⟩ | ⟨hne, hlookup⟩
  · exact hnew
  · exact (h.fits hlookup).same (hpermits other hne) (hopen hne hlookup)

/-- A step that touches no slot. -/
theorem Slots.keep {server server' : Server} (h : server.Slots)
    (hworkers : ∀ {workerId state}, server'.workers.lookup workerId = some state →
      server.workers.lookup workerId = some state)
    (hpermits : server'.permits = server.permits) (hqueued : server'.queued = server.queued)
    (hanswered : server'.answered = server.answered) (hfailed : server'.failed = server.failed) :
    server'.Slots := by
  constructor
  intro workerId state hlookup
  refine (h.fits (hworkers hlookup)).same ?_ fun dispatchId => ?_
  · rw [permitsFor, hpermits, permitsFor]
  · rw [Open, hqueued, hanswered, hfailed, Open]

/-- The connection of a worker and of no other. -/
theorem Owned.outbound_iff {server : Server} (h : server.Owned) {workerId : Uuid}
    {connection : Nat} (howns : server.owner workerId = some connection) {other : Uuid}
    {state : WorkerState} (hlookup : server.workers.lookup other = some state) :
    state.outbound = connection ↔ other = workerId := by
  constructor
  · intro heq
    exact h.distinct (owner_eq_some.mpr ⟨state, hlookup, heq⟩) howns
  · rintro rfl
    obtain ⟨found, hfound, hconnection⟩ := owner_eq_some.mp howns
    rwa [Option.some.inj (hlookup.symm.trans hfound)]

/-- Two workers have two connections. -/
theorem Owned.outbound_ne {server : Server} (h : server.Owned) {workerId other : Uuid}
    {worker state : WorkerState} (hworker : server.workers.lookup workerId = some worker)
    (hlookup : server.workers.lookup other = some state) (hne : other ≠ workerId) :
    state.outbound ≠ worker.outbound :=
  fun heq => hne ((h.outbound_iff (owner_eq_some.mpr ⟨worker, hworker, rfl⟩) hlookup).mp heq)

/-- A dispatch of a worker is closed, as answered or as failed. -/
theorem Slots.close {server server' : Server} (h : server.Slots) (howned : server.Owned)
    {workerId : Uuid} {old new : WorkerState} {dispatchId : String}
    (hold : server.workers.lookup workerId = some old)
    (hworkers : server'.workers = server.workers.insert workerId new)
    (hreserved : new.reservedSlots = old.reservedSlots)
    (hcapacity : new.capacitySlots = old.capacitySlots) (houtbound : new.outbound = old.outbound)
    (hinFlight : new.inFlightDispatches = old.inFlightDispatches.erase dispatchId)
    (hpermits : server'.permits = server.permits)
    (hopen : ∀ connection other, server'.Open connection other ↔
      server.Open connection other ∧ ¬(connection = old.outbound ∧ other = dispatchId)) :
    server'.Slots := by
  obtain ⟨hpermitted, hroom, hflight⟩ := h.fits hold
  refine h.change hworkers ⟨?_, ?_, fun other => ?_⟩ ?_ ?_
  · rw [hreserved, permitsFor, hpermits]
    exact hpermitted
  · have hcard := Finset.card_erase_le (a := dispatchId) (s := old.inFlightDispatches)
    rw [hreserved, hcapacity, hinFlight]
    omega
  · rw [hinFlight, Finset.mem_erase, hflight, houtbound, hopen]
    tauto
  · intro other _
    rw [permitsFor, hpermits, permitsFor]
  · intro other state hne hlookup item
    have houtside := howned.outbound_ne hold hlookup hne
    rw [hopen]
    exact ⟨fun hitem => hitem.1, fun hitem => ⟨hitem, fun heq => houtside heq.1⟩⟩

/-- The permits that are left when one is used up. -/
theorem permitsFor_eraseIdx {server server' : Server} {i : Nat} {permit : ReservedDispatch}
    (hpermit : server.permits[i]? = some permit)
    (hpermits : server'.permits = server.permits.eraseIdx i) (workerId : Uuid) :
    server.permitsFor workerId =
      server'.permitsFor workerId + if permit.workerId = workerId then 1 else 0 := by
  rw [permitsFor, permitsFor, hpermits, (Lists.perm_eraseIdx hpermit).countP_eq, List.countP_cons]
  simp

theorem mem_permits_eraseIdx {server server' : Server} {i : Nat}
    (hpermits : server'.permits = server.permits.eraseIdx i) :
    ∀ permit ∈ server'.permits, permit ∈ server.permits := by
  intro permit hmem
  rw [hpermits] at hmem
  exact List.mem_of_mem_eraseIdx hmem

/-- A permit is used up and its slot given back. -/
theorem Slots.release {server server' : Server} (h : server.Slots) {i : Nat}
    {permit : ReservedDispatch} (hpermit : server.permits[i]? = some permit)
    (hpermits : server'.permits = server.permits.eraseIdx i)
    (hworkers : server'.workers = match server.workers.lookup permit.workerId with
      | none => server.workers
      | some worker => server.workers.insert permit.workerId worker.releaseSlot)
    (hqueued : server'.queued = server.queued) (hanswered : server'.answered = server.answered)
    (hfailed : server'.failed = server.failed) : server'.Slots := by
  have hcount := permitsFor_eraseIdx hpermit hpermits
  have hopen : ∀ connection dispatchId, server'.Open connection dispatchId ↔
      server.Open connection dispatchId := by
    intro connection dispatchId
    rw [Open, hqueued, hanswered, hfailed, Open]
  have hothers : ∀ other, other ≠ permit.workerId →
      server'.permitsFor other = server.permitsFor other := by
    intro other hne
    rw [hcount, if_neg (Ne.symm hne), Nat.add_zero]
  cases hlookup : server.workers.lookup permit.workerId with
  | none =>
    rw [hlookup] at hworkers
    constructor
    intro other state hother
    rw [hworkers] at hother
    refine (h.fits hother).same (hothers other ?_) fun _ => hopen _ _
    rintro rfl
    rw [hlookup] at hother
    cases hother
  | some worker =>
    rw [hlookup] at hworkers
    obtain ⟨hreserved, hroom, hflight⟩ := h.fits hlookup
    have hmine := hcount permit.workerId
    rw [if_pos rfl] at hmine
    refine h.change hworkers ⟨?_, ?_, fun dispatchId => ?_⟩ hothers fun _ _ _ => hopen _ _
    · rw [worker.releaseSlot_toNat]
      omega
    · rw [worker.releaseSlot_toNat]
      simp only [WorkerState.releaseSlot]
      omega
    · rw [hopen]
      exact hflight dispatchId

/-- A job is queued in the slot that its permit has left free. -/
theorem Slots.enqueue {server server' : Server} (h : server.Slots) (howned : server.Owned)
    {workerId : Uuid} {old new : WorkerState} {dispatchId : String}
    (hold : server.workers.lookup workerId = some old)
    (hworkers : server'.workers = server.workers.insert workerId new)
    (hfree : old.reservedSlots.toNat + old.inFlightDispatches.card < old.capacitySlots.toNat)
    (hreserved : new.reservedSlots = old.reservedSlots)
    (hcapacity : new.capacitySlots = old.capacitySlots) (houtbound : new.outbound = old.outbound)
    (hinFlight : new.inFlightDispatches = insert dispatchId old.inFlightDispatches)
    (hpermits : server'.permits = server.permits)
    (hopen : ∀ connection other, server'.Open connection other ↔
      server.Open connection other ∨ connection = old.outbound ∧ other = dispatchId) :
    server'.Slots := by
  obtain ⟨hpermitted, hroom, hflight⟩ := h.fits hold
  refine h.change hworkers ⟨?_, ?_, fun other => ?_⟩ ?_ ?_
  · rw [hreserved, permitsFor, hpermits]
    exact hpermitted
  · have hcard := Finset.card_insert_le dispatchId old.inFlightDispatches
    rw [hreserved, hcapacity, hinFlight]
    omega
  · rw [hinFlight, Finset.mem_insert, hflight, houtbound, hopen]
    tauto
  · intro other _
    rw [permitsFor, hpermits, permitsFor]
  · intro other state hne hlookup item
    have houtside := howned.outbound_ne hold hlookup hne
    rw [hopen]
    exact ⟨fun hitem => hitem.resolve_right fun heq => houtside heq.1, Or.inl⟩

/-- Slots are reserved for new permits. -/
theorem Slots.reserve {server server' : Server} {choice : Table.Choice}
    {queues : List QueueReservation} (h : server.Slots)
    (hworkers : server'.workers = (Maqistor.reserve choice queues server.workers).1)
    (hpermits : server'.permits =
      server.permits ++ (Maqistor.reserve choice queues server.workers).2)
    (hqueued : server'.queued = server.queued) (hanswered : server'.answered = server.answered)
    (hfailed : server'.failed = server.failed) : server'.Slots := by
  have hall : Slots { server with
      workers := (Maqistor.reserve choice queues server.workers).1
      permits := server.permits ++ (Maqistor.reserve choice queues server.workers).2 } := by
    refine reserve_induction (fun workers reserved =>
      Slots { server with workers := workers, permits := server.permits ++ reserved })
      (by simpa using h) ?_
    intro workers reserved queueName workerId state hslots hlookup heligible
    obtain ⟨hreserved, hroom, hflight⟩ := hslots.fits hlookup
    have hfree := (WorkerState.eligible_room heligible).2
    have hone := state.reserveSlot_toNat (by omega)
    have hcount : ∀ other, permitsFor { server with
          workers := workers.insert workerId state.reserveSlot
          permits := server.permits ++ (reserved ++ [⟨queueName, workerId, state.outbound⟩]) } other =
        permitsFor { server with workers := workers, permits := server.permits ++ reserved } other +
          if workerId = other then 1 else 0 := by
      intro other
      simp only [permitsFor, ← List.append_assoc, List.countP_append, List.countP_singleton,
        decide_eq_true_eq]
    refine hslots.change rfl ⟨?_, ?_, hflight⟩ ?_ fun _ _ _ => Iff.rfl
    · rw [hone, hcount, if_pos rfl, hreserved]
    · rw [hone]
      simp only [WorkerState.reserveSlot]
      omega
    · intro other hne
      rw [hcount, if_neg (Ne.symm hne), Nat.add_zero]
  exact hall.keep (fun hlookup => by rw [hworkers] at hlookup; exact hlookup) hpermits hqueued
    hanswered hfailed

/-- A new worker has no permits and no dispatches. -/
theorem Slots.enroll {server server' : Server} (h : server.Slots) (hhistory : server.History)
    {connection : Nat} {workerId : Uuid} {queueName : String} {runningJobs freeSlots : UInt32}
    (hnew : workerId ∉ server.enrolled)
    (hout : server.handlers[connection]?.any Handler.entered = false)
    (hworkers : server'.workers = server.workers.insert workerId
      (.registered queueName runningJobs freeSlots connection))
    (hpermits : server'.permits = server.permits) (hqueued : server'.queued = server.queued)
    (hanswered : server'.answered = server.answered) (hfailed : server'.failed = server.failed) :
    server'.Slots := by
  have hopen : ∀ connection dispatchId, server'.Open connection dispatchId ↔
      server.Open connection dispatchId := by
    intro connection dispatchId
    rw [Open, hqueued, hanswered, hfailed, Open]
  refine h.change hworkers ⟨?_, ?_, fun dispatchId => ?_⟩ ?_ fun _ _ _ => hopen _ _
  · rw [permitsFor, hpermits, eq_comm]
    apply List.countP_eq_zero.mpr
    intro permit hpermit hnames
    rw [decide_eq_true_eq] at hnames
    exact hnew (hnames ▸ hhistory.permits permit hpermit)
  · simp [WorkerState.registered]
  · rw [hopen]
    simp only [WorkerState.registered, Finset.notMem_empty, false_iff]
    rintro ⟨hpair, -⟩
    rw [(hhistory.queued hpair).2] at hout
    cases hout
  · intro other _
    rw [permitsFor, hpermits, permitsFor]

/-- A worker is rewritten outside its slots. -/
theorem Slots.rewrite {server server' : Server} (h : server.Slots) {workerId : Uuid}
    {old new : WorkerState} (hold : server.workers.lookup workerId = some old)
    (hworkers : server'.workers = server.workers.insert workerId new)
    (hreserved : new.reservedSlots = old.reservedSlots)
    (hcapacity : new.capacitySlots = old.capacitySlots)
    (hinFlight : new.inFlightDispatches = old.inFlightDispatches)
    (houtbound : new.outbound = old.outbound) (hpermits : server'.permits = server.permits)
    (hopen : ∀ connection other, server'.Open connection other ↔ server.Open connection other) :
    server'.Slots := by
  obtain ⟨hpermitted, hroom, hflight⟩ := h.fits hold
  refine h.change hworkers ⟨?_, ?_, fun other => ?_⟩ ?_ fun _ _ _ => hopen _ _
  · rw [hreserved, permitsFor, hpermits]
    exact hpermitted
  · rw [hreserved, hcapacity, hinFlight]
    exact hroom
  · rw [hinFlight, houtbound, hopen]
    exact hflight other
  · intro other _
    rw [permitsFor, hpermits, permitsFor]

/-! ### Every step keeps them -/

/-- The books of a step that touches neither workers nor dispatches. -/
structure Untouched (server server' : Server) : Prop where
  workers : server'.workers = server.workers
  permits : server'.permits = server.permits
  calls : server'.calls = server.calls
  enrolled : server'.enrolled = server.enrolled
  issued : server'.issued = server.issued
  queued : server'.queued = server.queued
  answered : server'.answered = server.answered
  failed : server'.failed = server.failed

theorem Untouched.setHandler (server : Server) (connection : Nat) (handler : Handler) :
    Untouched server (server.setHandler connection handler) :=
  ⟨rfl, rfl, rfl, rfl, rfl, rfl, rfl, rfl⟩

theorem Untouched.send (server : Server) (connection : Nat) (message : WorkerMessage) :
    Untouched server (server.send connection message).1 :=
  ⟨send_workers _ _ _, send_permits _ _ _, send_calls _ _ _, send_enrolled _ _ _,
    send_issued _ _ _, send_queued _ _ _, send_answered _ _ _, send_failed _ _ _⟩

theorem Untouched.trans {server server' server'' : Server} (h : Untouched server server')
    (h' : Untouched server' server'') : Untouched server server'' :=
  ⟨h'.workers.trans h.workers, h'.permits.trans h.permits, h'.calls.trans h.calls,
    h'.enrolled.trans h.enrolled, h'.issued.trans h.issued, h'.queued.trans h.queued,
    h'.answered.trans h.answered, h'.failed.trans h.failed⟩

theorem Untouched.adds {server server' : Server} (h : Untouched server server') :
    Adds server server' :=
  Adds.nothing h.permits h.calls h.enrolled h.issued h.queued h.answered h.failed

theorem Untouched.slots {server server' : Server} (h : Untouched server server')
    (hslots : server.Slots) : server'.Slots :=
  hslots.keep (fun hlookup => h.workers ▸ hlookup) h.permits h.queued h.answered h.failed

theorem Untouched.readFirst (allowed : List String) (server : Server) (connection : Nat)
    (input : Input) : Untouched server (server.readFirst allowed connection input) := by
  unfold Server.readFirst
  split
  · split <;> exact ⟨rfl, rfl, rfl, rfl, rfl, rfl, rfl, rfl⟩
  · exact ⟨rfl, rfl, rfl, rfl, rfl, rfl, rfl, rfl⟩

theorem Untouched.announce (server : Server) (connection : Nat) (instanceId : Uuid)
    (queueName : String) : Untouched server (server.announce connection instanceId queueName) :=
  (Untouched.send server connection (.registered queueName)).trans (Untouched.setHandler _ _ _)

theorem Untouched.writeNext (codec : Codec) (server : Server) (connection : Nat)
    (conn : Connection) (frame : OutboundFrame) (rest : List OutboundFrame) (accepted : Bool) :
    Untouched server (server.writeNext codec connection conn frame rest accepted) := by
  unfold Server.writeNext
  split <;> exact ⟨rfl, rfl, rfl, rfl, rfl, rfl, rfl, rfl⟩

/-- The handlers' ownership, the history and the slots. -/
structure Accounts (server : Server) : Prop where
  owned : server.Owned
  history : server.History
  slots : server.Slots

theorem initial_accounts : initial.Accounts := by
  refine ⟨initial_owned, ?_, ⟨?_⟩⟩
  · constructor <;> simp [owner, initial]
  · intro workerId state hlookup
    simp [initial] at hlookup

/-- A result frame closes its dispatch. -/
theorem recordResult_slots {server : Server} (h : server.Accounts) {connection : Nat}
    {workerId : Uuid} {state : WorkerState}
    (hhandler : server.handlers[connection]? = some (.serving workerId))
    (hstate : server.workers.lookup workerId = some state) (dispatchId : String)
    (runningJobs freeSlots : UInt32) :
    Adds server (server.recordResult connection workerId state dispatchId runningJobs freeSlots) ∧
      (server.recordResult connection workerId state dispatchId runningJobs freeSlots).Slots := by
  have houtbound : state.outbound = connection :=
    (h.owned.outbound_iff (h.owned.entry hhandler rfl) hstate).mpr rfl
  have hanswered : ∀ pair, pair ∈ (server.recordResult connection workerId state dispatchId
      runningJobs freeSlots).answered ↔ pair ∈ server.answered ∨
        pair = (connection, dispatchId) ∧ (connection, dispatchId) ∈ server.queued := by
    intro pair
    simp only [recordResult]
    split
    · next hqueued => simp [hqueued, or_comm]
    · next hqueued => simp [hqueued]
  constructor
  · refine ⟨rfl, List.Subset.refl _, fun _ => Or.inl, fun _ => Or.inl, fun _ _ => Or.inl, ?_⟩
    rintro other item (hmem | hmem)
    · rcases (hanswered _).mp hmem with hold | ⟨heq, hqueued⟩
      · exact Or.inl hold
      · obtain ⟨rfl, rfl⟩ := Prod.mk.inj heq
        exact Or.inr (Or.inr (h.history.queued hqueued).1)
    · exact Or.inr (Or.inl hmem)
  · refine h.slots.close h.owned hstate rfl rfl rfl rfl rfl rfl fun other item => ?_
    rw [houtbound, Open, Open, hanswered, Prod.mk.injEq]
    refine ⟨?_, ?_⟩
    · rintro ⟨hqueued, hanswer, hfailed⟩
      refine ⟨⟨hqueued, fun hmem => hanswer (Or.inl hmem), hfailed⟩, fun heq => ?_⟩
      obtain ⟨rfl, rfl⟩ := heq
      exact hanswer (Or.inr ⟨⟨rfl, rfl⟩, hqueued⟩)
    · rintro ⟨⟨hqueued, hanswer, hfailed⟩, hne⟩
      exact ⟨hqueued, fun hmem => hmem.elim hanswer fun heq => hne heq.1, hfailed⟩

theorem ReadStep.slots {server server' : Server} {connection : Nat} {workerId : Uuid}
    {input : Input} (hstep : ReadStep server connection workerId input server') (h : server.Accounts)
    (hhandler : server.handlers[connection]? = some (.serving workerId)) :
    Adds server server' ∧ server'.Slots := by
  -- the worker is marked before the message is sent
  have hmarked : ∀ {state : WorkerState} {after : Server},
      server.workers.lookup workerId = some state →
      Untouched (server.markDraining workerId state) after → Adds server after ∧ after.Slots := by
    intro state after hstate hafter
    refine ⟨Adds.nothing hafter.permits hafter.calls hafter.enrolled hafter.issued hafter.queued
      hafter.answered hafter.failed, hafter.slots ?_⟩
    exact h.slots.rewrite hstate rfl rfl rfl rfl rfl rfl fun _ _ => Iff.rfl
  cases hstep with
  | leave =>
    have hleave := Untouched.setHandler server connection (.leaving workerId)
    exact ⟨hleave.adds, hleave.slots h.slots⟩
  | heartbeat => exact ⟨Adds.nothing rfl rfl rfl rfl rfl rfl rfl, h.slots⟩
  | result hstate => exact recordResult_slots h hhandler hstate _ _ _
  | drain hstate => exact hmarked hstate (Untouched.send _ _ _)
  | stopped hstate =>
    exact hmarked hstate ((Untouched.send _ _ _).trans (Untouched.setHandler _ _ _))

/-- The end of a dispatch that does not reach the channel: only its permit is gone. -/
theorem dispatch_refused {server server' : Server} (h : server.Accounts) {i : Nat}
    {permit : ReservedDispatch} {dispatchId : String}
    (hpermit : server.permits[i]? = some permit)
    (hpermits : server'.permits = server.permits.eraseIdx i)
    (hworkers : server'.workers = match server.workers.lookup permit.workerId with
      | none => server.workers
      | some worker => server.workers.insert permit.workerId worker.releaseSlot)
    (hcalls : server'.calls = server.calls) (henrolled : server'.enrolled = server.enrolled)
    (hissued : server'.issued = dispatchId :: server.issued)
    (hqueued : server'.queued = server.queued) (hanswered : server'.answered = server.answered)
    (hfailed : server'.failed = server.failed) : Adds server server' ∧ server'.Slots := by
  refine ⟨⟨henrolled, ?_, fun other hother => Or.inl (mem_permits_eraseIdx hpermits other hother),
    fun call hcall => Or.inl (hcalls ▸ hcall), fun _ _ hpair => Or.inl (hqueued ▸ hpair), ?_⟩,
    h.slots.release hpermit hpermits hworkers hqueued hanswered hfailed⟩
  · rw [hissued]
    exact List.subset_cons_self _ _
  · rw [hanswered, hfailed]
    exact fun _ _ hpair => hpair.elim Or.inl fun hmem => Or.inr (Or.inl hmem)

/-- The history after a dispatch that reaches the channel. -/
theorem Adds.dispatch {server server' : Server} {i : Nat} {workerId : Uuid} {worker : WorkerState}
    {dispatchId : String} {queued : Bool} {message : WorkerMessage} {ack : Nat}
    (hlookup : server.workers.lookup workerId = some worker)
    (hpermits : server'.permits = server.permits.eraseIdx i)
    (hcalls : server'.calls = server.calls ++ [⟨workerId, dispatchId, message, worker.outbound, ack⟩])
    (henrolled : server'.enrolled = server.enrolled)
    (hissued : server'.issued = dispatchId :: server.issued)
    (hqueued : server'.queued = if queued then (worker.outbound, dispatchId) :: server.queued
      else server.queued)
    (hanswered : server'.answered = server.answered) (hfailed : server'.failed = server.failed) :
    Adds server server' := by
  have howns : server.owner workerId = some worker.outbound :=
    owner_eq_some.mpr ⟨worker, hlookup, rfl⟩
  refine ⟨henrolled, ?_, fun other hother => Or.inl (mem_permits_eraseIdx hpermits other hother),
    fun call hcall => ?_, fun connection item hpair => ?_, ?_⟩
  · rw [hissued]
    exact List.subset_cons_self _ _
  · rw [hcalls, List.mem_append, List.mem_singleton] at hcall
    rcases hcall with hcall | rfl
    · exact Or.inl hcall
    · rw [hissued]
      exact Or.inr ⟨howns, List.mem_cons_self⟩
  · rw [hqueued] at hpair
    split at hpair
    · rcases List.mem_cons.mp hpair with heq | hpair
      · obtain ⟨rfl, rfl⟩ := Prod.mk.inj heq
        rw [hissued]
        exact Or.inr ⟨List.mem_cons_self, workerId, howns⟩
      · exact Or.inl hpair
    · exact Or.inl hpair
  · rw [hanswered, hfailed]
    exact fun _ _ hpair => hpair.elim Or.inl fun hmem => Or.inr (Or.inl hmem)

/-- The end of a dispatch that reaches the channel: its slot is given back, and taken by the job if
the channel takes the frame. -/
theorem Accounts.dispatch {server server' : Server} (h : server.Accounts) {i : Nat}
    {permit : ReservedDispatch} {worker : WorkerState} {dispatchId : String} {queued : Bool}
    (hpermit : server.permits[i]? = some permit)
    (hlookup : server.workers.lookup permit.workerId = some worker)
    (hfresh : dispatchId ∉ server.issued) (hnotin : dispatchId ∉ worker.inFlightDispatches)
    (hpermits : server'.permits = server.permits.eraseIdx i)
    (hworkers : server'.workers = server.workers.insert permit.workerId
      { worker.releaseSlot with
        inFlightDispatches := if queued then insert dispatchId worker.inFlightDispatches
          else (insert dispatchId worker.inFlightDispatches).erase dispatchId })
    (hqueued : server'.queued = if queued then (worker.outbound, dispatchId) :: server.queued
      else server.queued)
    (hanswered : server'.answered = server.answered) (hfailed : server'.failed = server.failed) :
    server'.Slots := by
  let released : Server :=
    { server with
      permits := server.permits.eraseIdx i
      workers := server.workers.insert permit.workerId worker.releaseSlot }
  have hslots : released.Slots :=
    h.slots.release hpermit rfl (by simp only [released, hlookup]) rfl rfl rfl
  have hreleased : released.workers.lookup permit.workerId = some worker.releaseSlot :=
    AList.lookup_insert _
  have hafter : ∀ new, server.workers.insert permit.workerId new =
      released.workers.insert permit.workerId new := fun new =>
    (AList.insert_insert server.workers).symm
  have hclosed : ∀ connection, (connection, dispatchId) ∉ server.answered ∧
      (connection, dispatchId) ∉ server.failed := fun connection =>
    ⟨fun hmem => hfresh (h.history.settled (Or.inl hmem)),
      fun hmem => hfresh (h.history.settled (Or.inr hmem))⟩
  cases queued with
  | true =>
    have hfree : worker.releaseSlot.reservedSlots.toNat +
        worker.releaseSlot.inFlightDispatches.card < worker.releaseSlot.capacitySlots.toNat := by
      obtain ⟨hreserved, hroom, -⟩ := h.slots.fits hlookup
      have hmine := permitsFor_eraseIdx hpermit hpermits permit.workerId
      rw [if_pos rfl] at hmine
      rw [worker.releaseSlot_toNat]
      simp only [WorkerState.releaseSlot]
      omega
    refine hslots.enqueue (h.owned.of_eq (owner_update hlookup rfl (by rfl)) rfl) hreleased
      (hworkers.trans (hafter _)) hfree rfl rfl rfl rfl hpermits fun connection item => ?_
    rw [Open, hqueued, hanswered, hfailed, if_pos rfl, List.mem_cons, Prod.mk.injEq]
    constructor
    · rintro ⟨hpair | hpair, hrest⟩
      · exact Or.inr hpair
      · exact Or.inl ⟨hpair, hrest⟩
    · rintro (⟨hpair, hrest⟩ | ⟨rfl, rfl⟩)
      · exact ⟨Or.inr hpair, hrest⟩
      · exact ⟨Or.inl ⟨rfl, rfl⟩, hclosed _⟩
  | false =>
    refine hslots.rewrite hreleased (hworkers.trans (hafter _)) rfl rfl ?_ rfl hpermits
      fun connection item => ?_
    · exact Finset.erase_insert hnotin
    · rw [Open, hqueued, hanswered, hfailed]
      rfl

theorem dispatch_slots {server : Server} (h : server.Accounts) {i : Nat}
    {permit : ReservedDispatch} (hpermit : server.permits[i]? = some permit) {job : Job}
    {dispatchId : String} (hjob : job.dispatchId = some dispatchId)
    (hfresh : dispatchId ∉ server.issued) :
    Adds server ({ server with permits := server.permits.eraseIdx i }.dispatch permit job) ∧
      ({ server with permits := server.permits.eraseIdx i }.dispatch permit job).Slots := by
  simp only [dispatch, hjob, dispatchLocked]
  cases hlookup : server.workers.lookup permit.workerId with
  | none =>
    exact dispatch_refused h hpermit rfl (by simp only [hlookup]) rfl rfl rfl rfl rfl rfl
  | some worker =>
    dsimp only
    split
    · exact dispatch_refused h hpermit rfl (by simp only [hlookup]) rfl rfl rfl rfl rfl rfl
    · split
      · exact dispatch_refused h hpermit rfl (by simp only [hlookup]) rfl rfl rfl rfl rfl rfl
      · next hnotin =>
        have hsent := Untouched.send { server with
          permits := server.permits.eraseIdx i, issued := dispatchId :: server.issued }
          worker.outbound (dispatchMessage job dispatchId)
        exact ⟨.dispatch hlookup hsent.permits (by rw [hsent.calls]) hsent.enrolled hsent.issued
            (by rw [hsent.queued]) hsent.answered hsent.failed,
          h.dispatch hpermit hlookup hfresh hnotin hsent.permits (by rw [hsent.workers])
            (by rw [hsent.queued]) hsent.answered hsent.failed⟩

theorem finish_slots {server : Server} (h : server.Accounts) {i : Nat} {call : DispatchCall}
    (hcall : server.calls[i]? = some call) (wrote : Bool) :
    Adds server ({ server with calls := server.calls.eraseIdx i }.finish call wrote) ∧
      ({ server with calls := server.calls.eraseIdx i }.finish call wrote).Slots := by
  obtain ⟨-, hissued, -, hnames⟩ := h.history.calls call (List.mem_of_getElem? hcall)
  have hcalls : ∀ other ∈ server.calls.eraseIdx i, other ∈ server.calls ∨
      server.owner other.workerId = some other.connection ∧ other.dispatchId ∈ server.issued :=
    fun other hother => Or.inl (List.mem_of_mem_eraseIdx hother)
  have hsettled : ∀ connection item, (connection, item) ∈ server.answered ∨
      (connection, item) ∈ (call.connection, call.dispatchId) :: server.failed →
      (connection, item) ∈ server.answered ∨ (connection, item) ∈ server.failed ∨
        item ∈ server.issued := by
    rintro connection item (hmem | hmem)
    · exact Or.inl hmem
    · rcases List.mem_cons.mp hmem with heq | hmem
      · obtain ⟨rfl, rfl⟩ := Prod.mk.inj heq
        exact Or.inr (Or.inr hissued)
      · exact Or.inr (Or.inl hmem)
  have hopen : ∀ connection item, (((connection, item) ∈ server.queued ∧
      (connection, item) ∉ server.answered ∧
      (connection, item) ∉ (call.connection, call.dispatchId) :: server.failed) ↔
      server.Open connection item ∧
        ¬(connection = call.connection ∧ item = call.dispatchId)) := by
    intro connection item
    rw [Open, List.mem_cons, Prod.mk.injEq]
    tauto
  unfold finish
  split
  · exact ⟨⟨rfl, List.Subset.refl _, fun _ => Or.inl, hcalls, fun _ _ => Or.inl,
      fun _ _ hpair => hpair.elim Or.inl fun hmem => Or.inr (Or.inl hmem)⟩,
      h.slots.keep id rfl rfl rfl rfl⟩
  · unfold releaseDispatched
    split
    · next hnone =>
      refine ⟨⟨rfl, List.Subset.refl _, fun _ => Or.inl, hcalls, fun _ _ => Or.inl, hsettled⟩, ⟨?_⟩⟩
      intro workerId state hlookup
      refine (h.slots.fits hlookup).same rfl fun item => ?_
      have hother : state.outbound ≠ call.connection := by
        intro heq
        have hgone := (hnames (owner_eq_some.mpr ⟨state, hlookup, heq⟩)).mpr rfl
        rw [hgone, hnone] at hlookup
        cases hlookup
      exact (hopen state.outbound item).trans
        ⟨fun hitem => hitem.1, fun hitem => ⟨hitem, fun heq => hother heq.1⟩⟩
    · next worker hworker =>
      refine ⟨⟨rfl, List.Subset.refl _, fun _ => Or.inl, hcalls, fun _ _ => Or.inl, hsettled⟩, ?_⟩
      have houtbound := (hnames (owner_eq_some.mpr ⟨worker, hworker, rfl⟩)).mp rfl
      refine h.slots.close h.owned hworker rfl rfl rfl rfl rfl rfl fun connection item => ?_
      rw [houtbound]
      exact hopen connection item

theorem release_slots {server : Server} (h : server.Accounts) {i : Nat}
    {permit : ReservedDispatch} (hpermit : server.permits[i]? = some permit) :
    Adds server ({ server with permits := server.permits.eraseIdx i }.releasePermit
        permit.workerId) ∧
      ({ server with permits := server.permits.eraseIdx i }.releasePermit
        permit.workerId).Slots := by
  have hadds : ∀ workers, Adds server
      { server with permits := server.permits.eraseIdx i, workers := workers } := fun workers =>
    ⟨rfl, List.Subset.refl _, fun other hother => Or.inl (mem_permits_eraseIdx rfl other hother),
      fun _ => Or.inl, fun _ _ => Or.inl,
      fun _ _ hpair => hpair.elim Or.inl fun hmem => Or.inr (Or.inl hmem)⟩
  unfold releasePermit
  split
  · next hnone =>
    exact ⟨hadds _, h.slots.release hpermit rfl (by rw [hnone]) rfl rfl rfl⟩
  · next worker hworker =>
    exact ⟨hadds _, h.slots.release hpermit rfl (by rw [hworker]) rfl rfl rfl⟩

/-- The history when a connection inserts a worker under a new id. -/
theorem History.enroll {server server' : Server} (h : server.History) {connection : Nat}
    {instanceId : Uuid} (hnew : instanceId ∉ server.enrolled)
    (hout : server.handlers[connection]?.any Handler.entered = false)
    (howner : ∀ workerId, server'.owner workerId =
      if workerId = instanceId then some connection else server.owner workerId)
    (hentered : ∀ connection : Nat, server.handlers[connection]?.any Handler.entered = true →
      server'.handlers[connection]?.any Handler.entered = true)
    (henrolled : server'.enrolled = instanceId :: server.enrolled)
    (hpermits : server'.permits = server.permits) (hcalls : server'.calls = server.calls)
    (hissued : server'.issued = server.issued) (hqueued : server'.queued = server.queued)
    (hanswered : server'.answered = server.answered) (hfailed : server'.failed = server.failed) :
    server'.History := by
  constructor
  · intro workerId other howns
    rw [howner] at howns
    rw [henrolled]
    split at howns
    · next heq => exact heq ▸ List.mem_cons_self
    · exact List.mem_cons_of_mem _ (h.workers howns)
  · rw [hpermits, henrolled]
    exact fun permit hpermit => List.mem_cons_of_mem _ (h.permits permit hpermit)
  · rw [hcalls, henrolled, hissued]
    intro call hcall
    obtain ⟨hknown, hused, hin, hnames⟩ := h.calls call hcall
    refine ⟨List.mem_cons_of_mem _ hknown, hused, hentered _ hin, fun {workerId other} howns => ?_⟩
    rw [howner] at howns
    split at howns
    · next heq =>
      subst heq
      obtain rfl := Option.some.inj howns
      refine ⟨fun hsame => absurd (hsame ▸ hknown) hnew, fun hsame => ?_⟩
      rw [hsame, hin] at hout
      cases hout
    · exact hnames howns
  · rw [hqueued, hissued]
    exact fun hpair => ⟨(h.queued hpair).1, hentered _ (h.queued hpair).2⟩
  · rw [hanswered, hfailed, hissued]
    exact h.settled

/-- The history when a worker is removed. -/
theorem History.remove {server server' : Server} (h : server.History) {instanceId : Uuid}
    (howner : ∀ workerId, server'.owner workerId =
      if workerId = instanceId then none else server.owner workerId)
    (hentered : ∀ connection : Nat, server.handlers[connection]?.any Handler.entered = true →
      server'.handlers[connection]?.any Handler.entered = true)
    (henrolled : server'.enrolled = server.enrolled)
    (hpermits : server'.permits = server.permits) (hcalls : server'.calls = server.calls)
    (hissued : server'.issued = server.issued) (hqueued : server'.queued = server.queued)
    (hanswered : server'.answered = server.answered) (hfailed : server'.failed = server.failed) :
    server'.History := by
  have hbefore : ∀ {workerId connection}, server'.owner workerId = some connection →
      server.owner workerId = some connection := by
    intro workerId connection howns
    rw [howner] at howns
    split at howns
    · cases howns
    · exact howns
  constructor
  · rw [henrolled]
    exact fun howns => h.workers (hbefore howns)
  · rw [hpermits, henrolled]
    exact h.permits
  · rw [hcalls, henrolled, hissued]
    intro call hcall
    obtain ⟨hknown, hused, hin, hnames⟩ := h.calls call hcall
    exact ⟨hknown, hused, hentered _ hin, fun howns => hnames (hbefore howns)⟩
  · rw [hqueued, hissued]
    exact fun hpair => ⟨(h.queued hpair).1, hentered _ (h.queued hpair).2⟩
  · rw [hanswered, hfailed, hissued]
    exact h.settled

/-- Every step on fresh ids keeps the slots of every worker in order. -/
theorem transition_accounts {codec : Codec} {allowed : List String} {server server' : Server}
    {action : Action} {event : Option WorkerEvent} (hinv : server.Accounts)
    (hfresh : server.freshIds action = true)
    (h : Transition codec allowed server action server' event) : server'.Accounts := by
  have howned := transition_owned hinv.owned h
  have hentered : ∀ connection : Nat, server.handlers[connection]?.any Handler.entered = true →
      server'.handlers[connection]?.any Handler.entered = true :=
    fun connection hin => transition_entered h hin
  have hadds : Adds server server' ∧ server'.Slots →
      (∀ workerId, server'.owner workerId = server.owner workerId) → server'.Accounts :=
    fun hboth howner =>
      ⟨howned, hinv.history.adds hinv.owned hboth.1 howner hentered, hboth.2⟩
  have huntouched : Untouched server server' → server'.Accounts := fun hsame =>
    hadds ⟨hsame.adds, hsame.slots hinv.slots⟩ fun workerId => by
      rw [owner, hsame.workers, owner]
  cases h with
  | connect => exact huntouched ⟨rfl, rfl, rfl, rfl, rfl, rfl, rfl, rfl⟩
  | readFirst => exact huntouched (Untouched.readFirst _ _ _ _)
  | @readNext c conn instanceId input hconn hhandler =>
    have hread := readNext_step server c instanceId input
    exact hadds (hread.slots hinv (handlers_eq_some.mpr ⟨_, hconn, hhandler⟩)) hread.owned.1
  | @enroll c conn instanceId queueName runningJobs freeSlots hconn hhandler =>
    have hout : server.handlers[c]?.any Handler.entered = false := by
      rw [handlers_eq_some.mpr ⟨_, hconn, hhandler⟩]
      rfl
    unfold enroll at howned hentered hadds huntouched ⊢
    split
    · next hknown =>
      rw [if_pos hknown] at huntouched
      exact huntouched (Untouched.setHandler _ _ _)
    · next hunknown =>
      rw [if_neg hunknown] at howned hentered
      have hnew : instanceId ∉ server.enrolled := by
        have hreused : instanceId ∉ server.enrolled ∨ instanceId ∈ server.workers := by
          simpa [freshIds, hconn, hhandler] using hfresh
        exact hreused.resolve_right hunknown
      exact ⟨howned, hinv.history.enroll hnew hout (owner_insert rfl (by rfl)) hentered rfl rfl rfl
        rfl rfl rfl rfl, hinv.slots.enroll hinv.history hnew hout rfl rfl rfl rfl rfl⟩
  | announce => exact huntouched (Untouched.announce _ _ _ _)
  | acknowledge => exact huntouched (Untouched.setHandler _ _ _)
  | abandon => exact huntouched (Untouched.setHandler _ _ _)
  | @remove c conn instanceId hconn hhandler =>
    refine ⟨howned, hinv.history.remove (remove_owner server c instanceId) hentered rfl rfl rfl rfl
      rfl rfl rfl, hinv.slots.keep (fun {workerId state} hlookup => ?_) rfl rfl rfl rfl⟩
    by_cases heq : workerId = instanceId
    · rw [heq, AList.lookup_erase] at hlookup
      cases hlookup
    · rwa [AList.lookup_erase_ne heq] at hlookup
  | writeRefusal => exact huntouched ⟨rfl, rfl, rfl, rfl, rfl, rfl, rfl, rfl⟩
  | writeNext => exact huntouched (Untouched.writeNext _ _ _ _ _ _ _)
  | @reserve choice queues =>
    refine hadds ⟨⟨rfl, List.Subset.refl _, fun permit hpermit => ?_, fun _ => Or.inl,
      fun _ _ => Or.inl, fun _ _ hpair => hpair.elim Or.inl fun hmem => Or.inr (Or.inl hmem)⟩,
      hinv.slots.reserve rfl rfl rfl rfl rfl⟩ (reserve_owner _ _ rfl)
    rcases List.mem_append.mp hpermit with hold | hnew
    · exact Or.inl hold
    · exact Or.inr ⟨_, reserve_owned permit hnew⟩
  | release hpermit => exact hadds (release_slots hinv hpermit) (releasePermit_owner _ _)
  | @dispatch i permit job hpermit =>
    obtain ⟨dispatchId, hjob, hnew⟩ : ∃ dispatchId, job.dispatchId = some dispatchId ∧
        dispatchId ∉ server.issued := by
      simpa [freshIds, Option.any_eq_true] using hfresh
    exact hadds (dispatch_slots hinv hpermit hjob hnew) (dispatch_owner _ _ _)
  | @resume i call wrote hcall =>
    exact hadds (finish_slots hinv hcall wrote) (finish_owner _ _ _)

/-- A job of the concrete runs. -/
def mailJob (id : Int) (dispatchId : String) (payload : List UInt8) : Job :=
  { id := id, name := "mail", status := .running, payload := payload, executionCount := 1
    leaseExpiresAt := some 30, dispatchId := some dispatchId, resultPayload := none
    resultError := none, createdAt := 0, updatedAt := 0 }

end Maqistor.Server
