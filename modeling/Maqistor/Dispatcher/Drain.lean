import Maqistor.Dispatcher.Effects

/-! The end of a worker's reservations: once `Draining` is on a connection's channel, the worker
that owns the connection is draining, and no dispatch follows. -/

namespace Maqistor

/-- No dispatch comes after `Draining`. -/
def DispatchesFirst (messages : List WorkerMessage) : Prop :=
  messages.Pairwise fun earlier later => earlier = .draining → later.dispatchIds = none

/-- What follows a part with `Draining` in it dispatches nothing. -/
theorem DispatchesFirst.after {first rest : List WorkerMessage} (h : DispatchesFirst (first ++ rest))
    (hdraining : WorkerMessage.draining ∈ first) : ∀ message ∈ rest, message.dispatchIds = none :=
  fun message hmem => (List.pairwise_append.mp h).2.2 _ hdraining message hmem rfl

namespace Server

structure DrainOrder (server : Server) : Prop where
  order : ∀ c, DispatchesFirst (server.sentTo c)
  marked : ∀ {c workerId state}, WorkerMessage.draining ∈ server.sentTo c →
    server.workers.lookup workerId = some state → state.outbound = c → state.draining = true

/-- A worker keeps its connection and stays draining. -/
def StaysDraining (state state' : WorkerState) : Prop :=
  state'.outbound = state.outbound ∧ (state.draining = true → state'.draining = true)

theorem staysDraining_allows : Allows StaysDraining where
  refl _ := ⟨rfl, id⟩
  trans h h' := ⟨h'.1.trans h.1, fun hdraining => h'.2 (h.2 hdraining)⟩
  reserve _ := ⟨rfl, id⟩
  release _ := ⟨rfl, id⟩
  flight _ _ := ⟨rfl, id⟩

section DrainOrder

variable {codec : Codec} {allowed : List String} {server server' : Server} {action : Action}
  {event : Option WorkerEvent}

/-- Whatever a step does to the registry, workers of a connection with `Draining` stay draining. -/
theorem DrainOrder.marked_after (h : server.DrainOrder)
    (hentry : ∀ {c : Nat} {conn : Connection}, server.connections[c]? = some conn → conn.Entry)
    (hstep : RegistryStep StaysDraining server server'.workers action) {c : Nat} {workerId : Uuid}
    {state : WorkerState} (hdraining : WorkerMessage.draining ∈ server.sentTo c)
    (hlookup : server'.workers.lookup workerId = some state) (howner : state.outbound = c) :
    state.draining = true := by
  have hfollows : Follows StaysDraining server.workers server'.workers → state.draining = true := by
    intro hfollows
    obtain ⟨before, hbefore, hsame, hstays⟩ := hfollows hlookup
    exact hstays (h.marked hdraining hbefore (hsame.symm.trans howner))
  cases hstep with
  | follows hf => exact hfollows hf
  | @result _ _ _ old _ dispatchId _ runningJobs freeSlots _ _ hstate hworkers =>
    have hstays : StaysDraining old (old.recordWorkerResult dispatchId runningJobs freeSlots) :=
      ⟨rfl, id⟩
    exact hfollows (hworkers ▸ Follows.insert staysDraining_allows.refl hstate hstays)
  | @drain _ _ _ old _ _ hstate hworkers =>
    have hstays : StaysDraining old old.beginDrain := ⟨rfl, fun _ => rfl⟩
    exact hfollows (hworkers ▸ Follows.insert staysDraining_allows.refl hstate hstays)
  | @enroll target conn instanceId queueName runningJobs freeSlots hconn hhandler hworkers =>
    by_cases heq : workerId = instanceId
    · -- nothing is sent to a worker before it is inserted
      subst heq
      rw [hworkers, AList.lookup_insert, Option.some.injEq] at hlookup
      obtain rfl : target = c := by
        rw [← howner, ← hlookup]
        rfl
      have hnothing := hentry hconn
      simp only [Connection.Entry, hhandler] at hnothing
      simp [sentTo_eq hconn, hnothing.2.1] at hdraining
    · rw [hworkers, AList.lookup_insert_ne heq] at hlookup
      exact h.marked hdraining hlookup howner

theorem transition_drainOrder (hinv : server.DrainOrder) (howned : server'.Owned)
    (hentry : ∀ {c : Nat} {conn : Connection}, server.connections[c]? = some conn → conn.Entry)
    (h : Transition codec allowed server action server' event) : server'.DrainOrder := by
  have hmarked : ∀ {c : Nat} {workerId : Uuid} {state : WorkerState},
      WorkerMessage.draining ∈ server.sentTo c → server'.workers.lookup workerId = some state →
      state.outbound = c → state.draining = true := fun hdraining hlookup howner =>
    hinv.marked_after hentry (transition_registry staysDraining_allows h) hdraining hlookup howner
  -- one more message that is not `Draining`
  have hpush : ∀ {target message}, message ≠ WorkerMessage.draining →
      (∀ c, server'.sentTo c = if c = target then server.sentTo c ++ [message] else server.sentTo c) →
      (WorkerMessage.draining ∈ server.sentTo target → message.dispatchIds = none) →
      server'.DrainOrder := by
    intro target message hne hsent hquiet
    constructor
    · intro c
      rw [hsent]
      split
      · next heq =>
        subst heq
        refine List.pairwise_append.mpr ⟨hinv.order c, List.pairwise_singleton _ _, ?_⟩
        rintro earlier hearlier later hlater rfl
        rw [List.mem_singleton.mp hlater]
        exact hquiet hearlier
      · exact hinv.order c
    · intro c workerId state hdraining hlookup howner
      rw [hsent] at hdraining
      split at hdraining
      · rcases List.mem_append.mp hdraining with hdraining | hdraining
        · exact hmarked hdraining hlookup howner
        · exact absurd (List.mem_singleton.mp hdraining).symm hne
      · exact hmarked hdraining hlookup howner
  cases transition_channels h with
  | same hsent =>
    constructor
    · intro c
      rw [hsent]
      exact hinv.order c
    · intro c workerId state hdraining
      rw [hsent] at hdraining
      exact hmarked hdraining
  | registered hsent => exact hpush (by simp) hsent fun _ => rfl
  | @draining target instanceId old hsent _ hstate htarget hworkers =>
    constructor
    · intro c
      rw [hsent]
      split
      · refine List.pairwise_append.mpr ⟨hinv.order c, List.pairwise_singleton _ _, ?_⟩
        intro earlier _ later hlater _
        rw [List.mem_singleton.mp hlater]
        rfl
      · exact hinv.order c
    · intro c workerId state hdraining hlookup howner
      rw [hsent] at hdraining
      split at hdraining
      · next heq =>
        -- the connection has one worker, and it is draining now
        have hmine : server'.workers.lookup instanceId = some old.beginDrain := by
          rw [hworkers, AList.lookup_insert]
        have hsame := howned.distinct (owner_eq_some.mpr ⟨state, hlookup, howner⟩)
          (owner_eq_some.mpr ⟨old.beginDrain, hmine, htarget.trans heq.symm⟩)
        rw [hsame, hmine, Option.some.injEq] at hlookup
        rw [← hlookup]
        rfl
      · exact hmarked hdraining hlookup howner
  | @dispatch target workerId state job dispatchId hsent _ hstate htarget hserving =>
    refine hpush (by simp [dispatchMessage]) hsent fun hdraining => ?_
    simp [hinv.marked hdraining hstate htarget] at hserving

end DrainOrder

theorem initial_drainOrder : initial.DrainOrder := by
  constructor
  · exact fun c => List.Pairwise.nil
  · intro c workerId state hdraining
    simp [sentTo, initial] at hdraining

/-- What is known of every server that can be reached. -/
structure Regular (codec : Codec) (server : Server) : Prop where
  owned : server.Owned
  delivery : Delivery codec (fun _ => True) server
  drainOrder : server.DrainOrder

theorem initial_regular (codec : Codec) : initial.Regular codec :=
  ⟨initial_owned, initial_delivery, initial_drainOrder⟩

theorem transition_regular {codec : Codec} {allowed : List String} {server server' : Server}
    {action : Action} {event : Option WorkerEvent} (hinv : server.Regular codec)
    (h : Transition codec allowed server action server' event) : server'.Regular codec := by
  have howned := transition_owned hinv.owned h
  exact ⟨howned,
    transition_delivery hinv.delivery hinv.owned (fun _ _ => trivial) (fun _ _ _ => trivial) h,
    transition_drainOrder hinv.drainOrder howned (fun hconn => (hinv.delivery.pipes hconn).entry) h⟩

theorem reachable_regular {codec : Codec} {allowed : List String} {server : Server}
    {admits : Server → Action → Prop}
    (h : Runs.Reachable (step codec allowed) admits initial server) : server.Regular codec := by
  obtain ⟨events, hrun⟩ := h
  exact hrun.invariant (Regular codec) (initial_regular codec)
    fun hinv _ hstep => transition_regular hinv (step_transition hstep)

end Server

end Maqistor
