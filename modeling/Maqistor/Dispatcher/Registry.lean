import Maqistor.Lib.Table
import Maqistor.Protocol.Message
import Mathlib.Data.Finset.Card
import Mathlib.Data.List.AList

/-! The worker registry: what the dispatcher knows about each worker, how it chooses one and how it
reserves slots. A lock section on the registry is one function here. -/

namespace Maqistor

/-! ### Arithmetic of `u32` -/

def u32Max : UInt32 := 4294967295

/-- `saturating_add`. -/
def saturatingAdd32 (a b : UInt32) : UInt32 :=
  if a.toNat + b.toNat < 4294967296 then a + b else u32Max

/-- `saturating_sub`. -/
def saturatingSub32 (a b : UInt32) : UInt32 := if b ≤ a then a - b else 0

/-- `u32::try_from(n).unwrap_or(u32::MAX)`. -/
def u32OfLen (n : Nat) : UInt32 := if n < 4294967296 then UInt32.ofNat n else u32Max

/-- `max` of `u32`. -/
def max32 (a b : UInt32) : UInt32 := if a ≤ b then b else a

@[simp] theorem toNat_saturatingAdd32 (a b : UInt32) :
    (saturatingAdd32 a b).toNat = min (a.toNat + b.toNat) 4294967295 := by
  unfold saturatingAdd32
  split
  · next hlt =>
    rw [UInt32.toNat_add, Nat.mod_eq_of_lt hlt]
    omega
  · next hge =>
    have hmax : u32Max.toNat = 4294967295 := rfl
    omega

@[simp] theorem toNat_saturatingSub32 (a b : UInt32) :
    (saturatingSub32 a b).toNat = a.toNat - b.toNat := by
  unfold saturatingSub32
  split
  · next hle => exact UInt32.toNat_sub_of_le _ _ hle
  · next hlt =>
    have hnat : ¬b.toNat ≤ a.toNat := fun hle => hlt (UInt32.le_iff_toNat_le.mpr hle)
    have hzero : (0 : UInt32).toNat = 0 := rfl
    omega

@[simp] theorem toNat_u32OfLen (n : Nat) : (u32OfLen n).toNat = min n 4294967295 := by
  unfold u32OfLen
  split
  · next hlt =>
    rw [UInt32.toNat_ofNat', Nat.mod_eq_of_lt hlt]
    omega
  · next hge =>
    have hmax : u32Max.toNat = 4294967295 := rfl
    omega

@[simp] theorem toNat_max32 (a b : UInt32) : (max32 a b).toNat = max a.toNat b.toNat := by
  unfold max32
  split
  · next hle =>
    have := UInt32.le_iff_toNat_le.mp hle
    omega
  · next hlt =>
    have hnat : ¬a.toNat ≤ b.toNat := fun hle => hlt (UInt32.le_iff_toNat_le.mpr hle)
    omega

/-! ### Workers -/

/-- `outbound` is the number of the connection whose writer it reaches. -/
structure WorkerState where
  queueName : String
  capacitySlots : UInt32
  runningJobs : UInt32
  freeSlots : UInt32
  reservedSlots : UInt32
  inFlightDispatches : Finset String
  draining : Bool
  outbound : Nat
deriving DecidableEq

abbrev WorkerRegistry := AList fun _ : Uuid => WorkerState

namespace WorkerState

def usedSlots (state : WorkerState) : UInt32 :=
  saturatingAdd32 state.reservedSlots
    (max32 state.runningJobs (u32OfLen state.inFlightDispatches.card))

def availableSlots (state : WorkerState) : UInt32 :=
  saturatingSub32 state.capacitySlots state.usedSlots

def compareLoad (left right : WorkerState) : Ordering :=
  let leftScaled := left.usedSlots.toUInt64 * (max32 right.capacitySlots 1).toUInt64
  let rightScaled := right.usedSlots.toUInt64 * (max32 left.capacitySlots 1).toUInt64
  compare leftScaled rightScaled

/-- The state of a worker that has just registered. -/
def registered (queueName : String) (runningJobs freeSlots : UInt32) (outbound : Nat) :
    WorkerState :=
  { queueName := queueName, capacitySlots := saturatingAdd32 runningJobs freeSlots
    runningJobs := runningJobs, freeSlots := freeSlots, reservedSlots := 0
    inFlightDispatches := ∅, draining := false, outbound := outbound }

/-- One more slot is reserved. -/
def reserveSlot (state : WorkerState) : WorkerState :=
  { state with reservedSlots := saturatingAdd32 state.reservedSlots 1 }

/-- One slot less is reserved. -/
def releaseSlot (state : WorkerState) : WorkerState :=
  { state with reservedSlots := saturatingSub32 state.reservedSlots 1 }

def recordWorkerResult (state : WorkerState) (dispatchId : String)
    (runningJobs freeSlots : UInt32) : WorkerState :=
  { state with
    runningJobs := runningJobs, freeSlots := freeSlots
    inFlightDispatches := state.inFlightDispatches.erase dispatchId }

/-- `begin_drain`, up to its message. -/
def beginDrain (state : WorkerState) : WorkerState :=
  { state with draining := true, freeSlots := 0 }

/-- The workers that may get a job of a queue. -/
def eligible (queueName : String) (state : WorkerState) : Bool :=
  !state.draining && decide (state.queueName = queueName) && decide (0 < state.availableSlots)

end WorkerState

open WorkerState

/-! ### Reservations -/

structure QueueReservation where
  queueName : String
  count : Nat
deriving DecidableEq, Repr

/-- A permit for one slot of a worker, with the connection that had registered the worker. -/
structure ReservedDispatch where
  queueName : String
  workerId : Uuid
  connection : Nat
deriving DecidableEq, Repr

/-- One turn of the loop of `find_ideal_worker`. -/
def better (queueName : String) (ideal : Option (Uuid × WorkerState))
    (entry : Uuid × WorkerState) : Option (Uuid × WorkerState) :=
  if entry.2.eligible queueName then
    match ideal with
    | none => some entry
    | some current =>
      match compareLoad entry.2 current.2 with
      | .lt => some entry
      | .eq => if entry.1 < current.1 then some entry else ideal
      | .gt => ideal
  else ideal

/-- `find_ideal_worker`, in an order of iteration that the hash map chooses. -/
def findIdealWorker (choice : Table.Choice) (queueName : String) (workers : WorkerRegistry) :
    Option (Uuid × WorkerState) :=
  (choice.order (workers.entries.map fun entry => (entry.1, entry.2))).foldl (better queueName) none

/-- Up to `count` slots of one queue, as long as a worker has one. -/
def reserveSlots (choice : Table.Choice) (queueName : String) :
    Nat → WorkerRegistry × List ReservedDispatch → WorkerRegistry × List ReservedDispatch
  | 0, state => state
  | count + 1, (workers, reserved) =>
    match findIdealWorker choice queueName workers with
    | none => (workers, reserved)
    | some (workerId, state) =>
      reserveSlots choice queueName count
        (workers.insert workerId state.reserveSlot,
          reserved ++ [⟨queueName, workerId, state.outbound⟩])

/-- `reserve`. -/
def reserve (choice : Table.Choice) (queues : List QueueReservation) (workers : WorkerRegistry) :
    WorkerRegistry × List ReservedDispatch :=
  queues.foldl (fun state request => reserveSlots choice request.queueName request.count state)
    (workers, [])

/-! ### What a reservation does -/

theorem foldl_better {queueName : String} (entries : List (Uuid × WorkerState))
    (ideal : Option (Uuid × WorkerState)) (P : Uuid × WorkerState → Prop)
    (hideal : ∀ entry, ideal = some entry → P entry)
    (hentries : ∀ entry ∈ entries, entry.2.eligible queueName → P entry)
    {entry : Uuid × WorkerState} (h : entries.foldl (better queueName) ideal = some entry) :
    P entry := by
  induction entries generalizing ideal with
  | nil => exact hideal entry h
  | cons first rest ih =>
    refine ih (better queueName ideal first) ?_
      (fun entry hentry => hentries entry (List.mem_cons_of_mem _ hentry)) h
    intro entry hbetter
    have hfirst := hentries first List.mem_cons_self
    unfold better at hbetter
    split at hbetter
    · next heligible =>
      split at hbetter
      · obtain rfl := Option.some.inj hbetter
        exact hfirst heligible
      · split at hbetter
        · obtain rfl := Option.some.inj hbetter
          exact hfirst heligible
        · split at hbetter
          · obtain rfl := Option.some.inj hbetter
            exact hfirst heligible
          · exact hideal entry hbetter
        · exact hideal entry hbetter
    · exact hideal entry hbetter

/-- The chosen worker is registered and may get a job of the queue. -/
theorem findIdealWorker_some {choice : Table.Choice} {queueName : String} {workers : WorkerRegistry}
    {workerId : Uuid} {state : WorkerState}
    (h : findIdealWorker choice queueName workers = some (workerId, state)) :
    workers.lookup workerId = some state ∧ state.eligible queueName := by
  refine foldl_better _ none
    (fun entry => workers.lookup entry.1 = some entry.2 ∧ entry.2.eligible queueName)
    (by simp) ?_ h
  intro entry hentry heligible
  rw [Table.Choice.mem_order, List.mem_map] at hentry
  obtain ⟨⟨id, state⟩, hmem, rfl⟩ := hentry
  exact ⟨AList.mem_lookup_iff.mpr hmem, heligible⟩

/-- An eligible worker has room for one more reservation beside its jobs in flight. -/
theorem WorkerState.eligible_room {queueName : String} {state : WorkerState}
    (h : state.eligible queueName) : state.draining = false ∧
      state.reservedSlots.toNat + state.inFlightDispatches.card < state.capacitySlots.toNat := by
  simp only [eligible, Bool.and_eq_true, Bool.not_eq_true', decide_eq_true_eq] at h
  obtain ⟨⟨hdraining, -⟩, havailable⟩ := h
  have hpos := UInt32.lt_iff_toNat_lt.mp havailable
  have hcapacity : state.capacitySlots.toNat < 4294967296 := state.capacitySlots.toNat_lt
  simp only [availableSlots, usedSlots, toNat_saturatingSub32, toNat_saturatingAdd32, toNat_max32,
    toNat_u32OfLen, UInt32.toNat_zero] at hpos
  exact ⟨hdraining, by omega⟩

theorem WorkerState.reserveSlot_toNat {state : WorkerState}
    (h : state.reservedSlots.toNat < state.capacitySlots.toNat) :
    state.reserveSlot.reservedSlots.toNat = state.reservedSlots.toNat + 1 := by
  have hcapacity : state.capacitySlots.toNat < 4294967296 := state.capacitySlots.toNat_lt
  have hone : (1 : UInt32).toNat = 1 := rfl
  simp only [reserveSlot, toNat_saturatingAdd32]
  omega

theorem WorkerState.releaseSlot_toNat (state : WorkerState) :
    state.releaseSlot.reservedSlots.toNat = state.reservedSlots.toNat - 1 := by
  simp [releaseSlot]

/-- A reservation takes slots one by one from workers that have room: a property of the registry and
the permits that each such step keeps holds afterwards. -/
theorem reserve_induction {choice : Table.Choice} {queues : List QueueReservation}
    {workers : WorkerRegistry} (P : WorkerRegistry → List ReservedDispatch → Prop)
    (hstart : P workers [])
    (hstep : ∀ {workers reserved queueName workerId state}, P workers reserved →
      workers.lookup workerId = some state → state.eligible queueName →
      P (workers.insert workerId state.reserveSlot)
        (reserved ++ [⟨queueName, workerId, state.outbound⟩])) :
    P (reserve choice queues workers).1 (reserve choice queues workers).2 := by
  have hslots : ∀ queueName count (state : WorkerRegistry × List ReservedDispatch),
      P state.1 state.2 → P (reserveSlots choice queueName count state).1
        (reserveSlots choice queueName count state).2 := by
    intro queueName count
    induction count with
    | zero => exact fun _ h => h
    | succ count ih =>
      rintro ⟨workers, reserved⟩ h
      rw [reserveSlots]
      split
      · exact h
      · next workerId state hfind =>
        obtain ⟨hlookup, heligible⟩ := findIdealWorker_some hfind
        exact ih _ (hstep h hlookup heligible)
  have hfold : ∀ (queues : List QueueReservation) (state : WorkerRegistry × List ReservedDispatch),
      P state.1 state.2 → P (queues.foldl (fun state request =>
        reserveSlots choice request.queueName request.count state) state).1
        (queues.foldl (fun state request =>
          reserveSlots choice request.queueName request.count state) state).2 := by
    intro queues
    induction queues with
    | nil => exact fun _ h => h
    | cons request rest ih => exact fun state h => ih _ (hslots _ _ _ h)
  exact hfold queues (workers, []) hstart

end Maqistor
