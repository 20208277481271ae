import Maqistor.Dispatcher.Registry
import Mathlib.Algebra.Order.Field.Basic
import Mathlib.Algebra.Order.Ring.Rat
import Mathlib.Data.List.MinMax
import Mathlib.Data.Prod.Lex

/-! Which worker gets the next job of a queue, and how many slots a reservation takes. The scan over
the hash map keeps the first entry that is least for one total order, the load as an exact fraction
and then the instance id, so the order of the map does not matter. A reservation is such scans one
after another, and each of them takes one free slot of the queue as long as there is one. -/

namespace Maqistor

namespace WorkerState

/-- The share of a worker's slots that are in use. -/
def load (state : WorkerState) : ℚ := state.usedSlots.toNat / state.capacitySlots.toNat

/-- The load as `compare_load` scales it: a capacity of zero counts as one. -/
def scaledLoad (state : WorkerState) : ℚ :=
  state.usedSlots.toNat / (max state.capacitySlots.toNat 1 : Nat)

/-- The workers that a request for a queue can be served by. -/
def Serves (queueName : String) (state : WorkerState) : Prop :=
  state.draining = false ∧ state.queueName = queueName ∧ 0 < state.availableSlots.toNat

theorem eligible_iff {queueName : String} {state : WorkerState} :
    state.eligible queueName = true ↔ state.Serves queueName := by
  simp only [eligible, Serves, Bool.and_eq_true, Bool.not_eq_true', decide_eq_true_eq, and_assoc,
    UInt32.lt_iff_toNat_lt, UInt32.toNat_zero]

theorem toNat_availableSlots (state : WorkerState) :
    state.availableSlots.toNat = state.capacitySlots.toNat - state.usedSlots.toNat := by
  simp only [availableSlots, toNat_saturatingSub32]

theorem scaledLoad_eq_load {state : WorkerState} (h : 0 < state.availableSlots.toNat) :
    state.scaledLoad = state.load := by
  have hcapacity : max state.capacitySlots.toNat 1 = state.capacitySlots.toNat := by
    rw [toNat_availableSlots] at h
    omega
  rw [scaledLoad, load, hcapacity]

/-- The products of `compare_load` are exact. -/
theorem toNat_scaled (used capacity : UInt32) :
    (used.toUInt64 * (max32 capacity 1).toUInt64).toNat = used.toNat * max capacity.toNat 1 := by
  have hused : used.toNat < 4294967296 := used.toNat_lt
  have hcapacity : max capacity.toNat 1 < 4294967296 := by
    have := capacity.toNat_lt
    omega
  have hproduct := Nat.mul_lt_mul'' hused hcapacity
  have hone : (1 : UInt32).toNat = 1 := rfl
  rw [UInt64.toNat_mul, UInt32.toNat_toUInt64, UInt32.toNat_toUInt64, toNat_max32, hone]
  exact Nat.mod_eq_of_lt hproduct

theorem scaledLoad_lt {left right : WorkerState} : left.scaledLoad < right.scaledLoad ↔
    left.usedSlots.toNat * max right.capacitySlots.toNat 1 <
      right.usedSlots.toNat * max left.capacitySlots.toNat 1 := by
  have hpos : ∀ n : Nat, (0 : ℚ) < (max n 1 : Nat) := by
    intro n
    exact_mod_cast Nat.lt_of_lt_of_le Nat.zero_lt_one (Nat.le_max_right n 1)
  rw [scaledLoad, scaledLoad, div_lt_div_iff₀ (hpos _) (hpos _)]
  norm_cast

theorem compareLoad_eq_lt {left right : WorkerState} :
    compareLoad left right = .lt ↔ left.scaledLoad < right.scaledLoad := by
  rw [compareLoad, Std.compare_eq_lt, UInt64.lt_iff_toNat_lt, toNat_scaled, toNat_scaled,
    scaledLoad_lt]

theorem compareLoad_eq_gt {left right : WorkerState} :
    compareLoad left right = .gt ↔ right.scaledLoad < left.scaledLoad := by
  rw [compareLoad, Std.compare_eq_gt, UInt64.lt_iff_toNat_lt, toNat_scaled, toNat_scaled,
    scaledLoad_lt]

end WorkerState

open WorkerState

/-! ### The scan -/

/-- What a scan compares: the load, then the instance id. -/
def rank (entry : Uuid × WorkerState) : ℚ ×ₗ Nat := toLex (entry.2.scaledLoad, entry.1.toNat)

theorem rank_lt {left right : Uuid × WorkerState} : rank left < rank right ↔
    left.2.scaledLoad < right.2.scaledLoad ∨
      left.2.scaledLoad = right.2.scaledLoad ∧ left.1 < right.1 := by
  rw [rank, rank, Prod.Lex.toLex_lt_toLex, BitVec.lt_def]

/-- One turn of the loop keeps the entry of least rank. -/
theorem better_eq_argAux (queueName : String) (ideal : Option (Uuid × WorkerState))
    (entry : Uuid × WorkerState) : better queueName ideal entry =
      if entry.2.eligible queueName then
        List.argAux (fun left right => rank left < rank right) ideal entry
      else ideal := by
  unfold better
  split
  · cases ideal with
    | none => rfl
    | some current =>
      show _ = if rank entry < rank current then some entry else some current
      dsimp only
      split
      · next hless => rw [if_pos (rank_lt.mpr (Or.inl (compareLoad_eq_lt.mp hless)))]
      · next hequal =>
        have hnot : ¬entry.2.scaledLoad < current.2.scaledLoad := by
          rw [← compareLoad_eq_lt, hequal]
          decide
        have hnot' : ¬current.2.scaledLoad < entry.2.scaledLoad := by
          rw [← compareLoad_eq_gt, hequal]
          decide
        have hsame : entry.2.scaledLoad = current.2.scaledLoad :=
          le_antisymm (not_lt.mp hnot') (not_lt.mp hnot)
        by_cases hid : entry.1 < current.1
        · rw [if_pos hid, if_pos (rank_lt.mpr (Or.inr ⟨hsame, hid⟩))]
        · rw [if_neg hid, if_neg]
          rw [rank_lt, not_or]
          exact ⟨hnot, fun h => hid h.2⟩
      · next hgreater =>
        rw [if_neg]
        rw [rank_lt, not_or]
        have hlt := compareLoad_eq_gt.mp hgreater
        exact ⟨lt_asymm hlt, fun h => hlt.ne h.1.symm⟩
  · rfl

/-- The entries that a scan in some order compares. -/
def scanned (choice : Table.Choice) (queueName : String) (workers : WorkerRegistry) :
    List (Uuid × WorkerState) :=
  (choice.order (workers.entries.map fun entry => (entry.1, entry.2))).filter
    fun entry => entry.2.eligible queueName

section Scan

variable {choice : Table.Choice} {queueName : String} {workers : WorkerRegistry}

theorem findIdealWorker_eq_argmin : findIdealWorker choice queueName workers =
    (scanned choice queueName workers).argmin rank := by
  rw [findIdealWorker, scanned, List.argmin, List.foldl_filter]
  congr 1
  funext ideal entry
  exact better_eq_argAux queueName ideal entry

theorem mem_scanned {workerId : Uuid} {state : WorkerState} :
    (workerId, state) ∈ scanned choice queueName workers ↔
      workers.lookup workerId = some state ∧ state.Serves queueName := by
  rw [scanned, List.mem_filter, Table.Choice.mem_order, eligible_iff, List.mem_map]
  refine and_congr_left fun _ => ⟨?_, fun h => ?_⟩
  · rintro ⟨entry, hmem, heq⟩
    obtain ⟨rfl, rfl⟩ := Prod.mk.inj heq
    exact AList.mem_lookup_iff.mpr hmem
  · exact ⟨⟨workerId, state⟩, AList.mem_lookup_iff.mp h, rfl⟩

theorem findIdealWorker_eq_none : findIdealWorker choice queueName workers = none ↔
    ∀ workerId state, workers.lookup workerId = some state → ¬state.Serves queueName := by
  rw [findIdealWorker_eq_argmin, List.argmin_eq_none, List.eq_nil_iff_forall_not_mem]
  simp only [Prod.forall, mem_scanned, not_and]

theorem rank_lt_iff_load {workerId other : Uuid} {state rival : WorkerState}
    (hstate : state.Serves queueName) (hrival : rival.Serves queueName) :
    rank (workerId, state) < rank (other, rival) ↔
      state.load < rival.load ∨ state.load = rival.load ∧ workerId < other := by
  rw [rank_lt, scaledLoad_eq_load hstate.2.2, scaledLoad_eq_load hrival.2.2]

theorem findIdealWorker_eq_some {workerId : Uuid} {state : WorkerState} :
    findIdealWorker choice queueName workers = some (workerId, state) ↔
      workers.lookup workerId = some state ∧ state.Serves queueName ∧
        ∀ other rival, workers.lookup other = some rival → rival.Serves queueName →
          other ≠ workerId →
          state.load < rival.load ∨ state.load = rival.load ∧ workerId < other := by
  rw [findIdealWorker_eq_argmin]
  constructor
  · intro hfind
    obtain ⟨hlookup, hserves⟩ := mem_scanned.mp (List.argmin_mem hfind)
    refine ⟨hlookup, hserves, fun other rival hother hrival hne => ?_⟩
    have hle := List.le_of_mem_argmin (mem_scanned.mpr ⟨hother, hrival⟩) hfind
    refine (rank_lt_iff_load hserves hrival).mp (lt_of_le_of_ne hle fun heq => hne ?_)
    exact (BitVec.eq_of_toNat_eq (congrArg (fun r => (ofLex r).2) heq)).symm
  · rintro ⟨hlookup, hserves, hleast⟩
    have hmem : (workerId, state) ∈ scanned choice queueName workers :=
      mem_scanned.mpr ⟨hlookup, hserves⟩
    cases hfind : (scanned choice queueName workers).argmin rank with
    | none =>
      rw [List.argmin_eq_none.mp hfind] at hmem
      cases hmem
    | some found =>
      obtain ⟨hfound, hfoundServes⟩ := mem_scanned.mp (List.argmin_mem hfind)
      by_cases hid : found.1 = workerId
      · rw [hid, hlookup, Option.some.injEq] at hfound
        exact congrArg some (Prod.ext hid hfound.symm)
      · have hlt := (rank_lt_iff_load hserves hfoundServes).mpr
          (hleast found.1 found.2 hfound hfoundServes hid)
        exact absurd hlt (not_lt.mpr (List.le_of_mem_argmin hmem hfind))

end Scan

/-- `find_ideal_worker` finds no worker exactly when none can serve the queue, and otherwise the one
whose load, and then whose id, is less than that of every other. The products that it compares do
not overflow. -/
theorem ideal_worker_least_loaded (choice : Table.Choice) (queueName : String)
    (workers : WorkerRegistry) :
    (findIdealWorker choice queueName workers = none ↔
      ∀ workerId state, workers.lookup workerId = some state → ¬state.Serves queueName) ∧
    (∀ workerId state, findIdealWorker choice queueName workers = some (workerId, state) ↔
      workers.lookup workerId = some state ∧ state.Serves queueName ∧
        ∀ other rival, workers.lookup other = some rival → rival.Serves queueName →
          other ≠ workerId →
          state.load < rival.load ∨ state.load = rival.load ∧ workerId < other) ∧
    ∀ left right : WorkerState,
      (left.usedSlots.toUInt64 * (max32 right.capacitySlots 1).toUInt64).toNat =
        left.usedSlots.toNat * max right.capacitySlots.toNat 1 :=
  ⟨findIdealWorker_eq_none, fun _ _ => findIdealWorker_eq_some, fun _ _ => toNat_scaled _ _⟩

/-! ### The slots that are free -/

namespace WorkerState

/-- The slots that a worker has for a queue. -/
def slotsFor (queueName : String) (state : WorkerState) : Nat :=
  if state.draining = false ∧ state.queueName = queueName then state.availableSlots.toNat else 0

theorem slotsFor_pos {queueName : String} {state : WorkerState} :
    0 < state.slotsFor queueName ↔ state.Serves queueName := by
  unfold slotsFor Serves
  split
  · next h => simp [h]
  · next h =>
    rw [← and_assoc]
    simp [h]

/-- A worker that can serve has one slot less free once a slot is reserved. -/
theorem availableSlots_reserveSlot {state : WorkerState} (h : 0 < state.availableSlots.toNat) :
    state.reserveSlot.reservedSlots.toNat = state.reservedSlots.toNat + 1 ∧
      state.reserveSlot.availableSlots.toNat + 1 = state.availableSlots.toNat := by
  have hcapacity : state.capacitySlots.toNat < 4294967296 := state.capacitySlots.toNat_lt
  have hone : (1 : UInt32).toNat = 1 := rfl
  simp only [toNat_availableSlots, usedSlots, reserveSlot, toNat_saturatingAdd32, toNat_max32,
    toNat_u32OfLen, hone] at h ⊢
  omega

theorem slotsFor_reserveSlot {queueName : String} {state : WorkerState}
    (h : state.Serves queueName) :
    state.reserveSlot.slotsFor queueName + 1 = state.slotsFor queueName := by
  have hslot := (availableSlots_reserveSlot h.2.2).2
  have hserves : state.draining = false ∧ state.queueName = queueName := ⟨h.1, h.2.1⟩
  rw [slotsFor, slotsFor, if_pos hserves, if_pos (show state.reserveSlot.draining = false ∧
    state.reserveSlot.queueName = queueName from hserves), hslot]

end WorkerState

/-- The free slots of a queue's workers. -/
def freeSlots (queueName : String) (workers : WorkerRegistry) : Nat :=
  (workers.entries.map fun entry => entry.2.slotsFor queueName).sum

theorem freeSlots_eq_zero {queueName : String} {workers : WorkerRegistry} :
    freeSlots queueName workers = 0 ↔
      ∀ workerId state, workers.lookup workerId = some state → ¬state.Serves queueName := by
  rw [freeSlots, List.sum_eq_zero_iff_forall_eq_nat]
  simp only [← slotsFor_pos, Nat.not_lt, Nat.le_zero, List.mem_map, forall_exists_index, and_imp]
  constructor
  · intro h workerId state hlookup
    exact h _ ⟨workerId, state⟩ (AList.mem_lookup_iff.mp hlookup) rfl
  · rintro h _ ⟨workerId, state⟩ hmem rfl
    exact h workerId state (AList.mem_lookup_iff.mpr hmem)

/-- Only the entry that is written counts differently. -/
theorem freeSlots_insert {queueName : String} {workers : WorkerRegistry} {workerId : Uuid}
    {old new : WorkerState} (h : workers.lookup workerId = some old) :
    freeSlots queueName (workers.insert workerId new) + old.slotsFor queueName =
      freeSlots queueName workers + new.slotsFor queueName := by
  have hmem : workerId ∈ workers.entries.keys :=
    List.mem_keys_of_mem (AList.mem_lookup_iff.mp h)
  obtain ⟨found, before, after, -, hentries, herase⟩ := List.exists_of_kerase hmem
  obtain rfl : old = found := by
    have hfound : (⟨workerId, found⟩ : Sigma fun _ : Uuid => WorkerState) ∈ workers.entries := by
      rw [hentries]
      exact List.mem_append_right _ List.mem_cons_self
    exact Option.some.inj (h.symm.trans (AList.mem_lookup_iff.mpr hfound))
  have hinsert : (workers.insert workerId new).entries = ⟨workerId, new⟩ :: (before ++ after) := by
    rw [← herase]
    rfl
  rw [freeSlots, freeSlots, hinsert, hentries]
  simp only [List.map_cons, List.map_append, List.sum_cons, List.sum_append]
  omega

/-! ### Reservations -/

/-- The permits that name a worker. -/
def permitsOf (workerId : Uuid) (permits : List ReservedDispatch) : Nat :=
  permits.countP fun permit => permit.workerId = workerId

/-- A worker with so many more slots reserved, and nothing else changed. -/
structure WorkerState.Grown (slots : Nat) (old new : WorkerState) : Prop where
  same : new = { old with reservedSlots := new.reservedSlots }
  reserved : new.reservedSlots.toNat = old.reservedSlots.toNat + slots
  available : new.availableSlots.toNat + slots = old.availableSlots.toNat

/-- What some permits cost: the same workers are registered, and each of them has one more slot
reserved for every permit that names it, out of the slots that were free. -/
structure Takes (before after : WorkerRegistry) (permits : List ReservedDispatch) : Prop where
  workers : ∀ workerId, workerId ∈ after ↔ workerId ∈ before
  named : ∀ permit ∈ permits, permit.workerId ∈ before
  grown : ∀ {workerId old}, before.lookup workerId = some old →
    ∃ new, after.lookup workerId = some new ∧ Grown (permitsOf workerId permits) old new

/-- What serving one request does: it takes as many slots as are asked for, or all that are free,
from workers of the queue that are not draining. -/
structure Grants (request : QueueReservation) (before after : WorkerRegistry)
    (permits : List ReservedDispatch) : Prop extends Takes before after permits where
  count : permits.length = min request.count (freeSlots request.queueName before)
  queue : ∀ permit ∈ permits, permit.queueName = request.queueName
  serves : ∀ permit ∈ permits, ∃ state, before.lookup permit.workerId = some state ∧
    state.Serves request.queueName

/-- Requests that are served one after another, each with what is free at that moment. -/
inductive Serving : List QueueReservation → WorkerRegistry → WorkerRegistry →
    List ReservedDispatch → Prop
  | nil {workers : WorkerRegistry} : Serving [] workers workers []
  | cons {request : QueueReservation} {queues : List QueueReservation}
      {before middle after : WorkerRegistry} {permits rest : List ReservedDispatch} :
      Grants request before middle permits → Serving queues middle after rest →
      Serving (request :: queues) before after (permits ++ rest)

theorem WorkerState.Grown.refl (state : WorkerState) : Grown 0 state state := ⟨rfl, rfl, rfl⟩

theorem WorkerState.Grown.trans {slots more : Nat} {old middle new : WorkerState}
    (h : Grown slots old middle) (h' : Grown more middle new) : Grown (slots + more) old new := by
  refine ⟨?_, ?_, ?_⟩
  · rw [h'.same, h.same]
  · rw [h'.reserved, h.reserved]
    omega
  · rw [← h.available, ← h'.available]
    omega

theorem permitsOf_append (workerId : Uuid) (permits more : List ReservedDispatch) :
    permitsOf workerId (permits ++ more) = permitsOf workerId permits + permitsOf workerId more :=
  List.countP_append

section Takes

variable {before middle after : WorkerRegistry} {permits rest : List ReservedDispatch}

theorem Takes.refl (workers : WorkerRegistry) : Takes workers workers [] :=
  ⟨fun _ => Iff.rfl, fun _ h => absurd h List.not_mem_nil,
    fun h => ⟨_, h, Grown.refl _⟩⟩

theorem Takes.trans (h : Takes before middle permits) (h' : Takes middle after rest) :
    Takes before after (permits ++ rest) := by
  refine ⟨fun workerId => (h'.workers workerId).trans (h.workers workerId), ?_, ?_⟩
  · intro permit hpermit
    rcases List.mem_append.mp hpermit with hpermit | hpermit
    · exact h.named permit hpermit
    · exact (h.workers _).mp (h'.named permit hpermit)
  · intro workerId old hold
    obtain ⟨state, hstate, hgrown⟩ := h.grown hold
    obtain ⟨new, hnew, hgrown'⟩ := h'.grown hstate
    rw [permitsOf_append]
    exact ⟨new, hnew, hgrown.trans hgrown'⟩

/-- One slot of a worker that can serve. -/
theorem takes_one {workers : WorkerRegistry} {workerId : Uuid} {state : WorkerState}
    (hlookup : workers.lookup workerId = some state) (h : 0 < state.availableSlots.toNat)
    {permit : ReservedDispatch} (hpermit : permit.workerId = workerId) :
    Takes workers (workers.insert workerId state.reserveSlot) [permit] := by
  have hmem : workerId ∈ workers := AList.lookup_isSome.mp (Option.isSome_of_eq_some hlookup)
  obtain ⟨hreserved, havailable⟩ := availableSlots_reserveSlot h
  refine ⟨fun other => ?_, ?_, ?_⟩
  · rw [AList.mem_insert, or_iff_right_iff_imp]
    rintro rfl
    exact hmem
  · intro other hother
    rw [List.mem_singleton.mp hother, hpermit]
    exact hmem
  · intro other old hold
    by_cases heq : other = workerId
    · subst heq
      obtain rfl := Option.some.inj (hlookup.symm.trans hold)
      refine ⟨_, AList.lookup_insert _, ?_⟩
      rw [permitsOf, List.countP_singleton, if_pos (by simpa using hpermit)]
      exact ⟨rfl, hreserved, havailable⟩
    · refine ⟨old, by rwa [AList.lookup_insert_ne heq], ?_⟩
      rw [permitsOf, List.countP_singleton, if_neg]
      · exact Grown.refl old
      · simpa [hpermit] using Ne.symm heq

end Takes

/-- The loop for one request. -/
theorem reserveSlots_grants (choice : Table.Choice) (queueName : String) (count : Nat)
    (workers : WorkerRegistry) (reserved : List ReservedDispatch) :
    ∃ after permits, reserveSlots choice queueName count (workers, reserved) =
        (after, reserved ++ permits) ∧ Grants ⟨queueName, count⟩ workers after permits := by
  induction count generalizing workers reserved with
  | zero =>
    refine ⟨workers, [], by rw [reserveSlots, List.append_nil], Takes.refl workers, ?_, ?_, ?_⟩
    · rw [Nat.zero_min, List.length_nil]
    · exact fun _ h => absurd h List.not_mem_nil
    · exact fun _ h => absurd h List.not_mem_nil
  | succ count ih =>
    rw [reserveSlots]
    cases hfind : findIdealWorker choice queueName workers with
    | none =>
      have hfree := freeSlots_eq_zero.mpr (findIdealWorker_eq_none.mp hfind)
      refine ⟨workers, [], by rw [List.append_nil], Takes.refl workers, ?_, ?_, ?_⟩
      · rw [hfree, Nat.min_zero, List.length_nil]
      · exact fun _ h => absurd h List.not_mem_nil
      · exact fun _ h => absurd h List.not_mem_nil
    | some found =>
      obtain ⟨workerId, state⟩ := found
      obtain ⟨hlookup, hserves, -⟩ := findIdealWorker_eq_some.mp hfind
      obtain ⟨after, permits, heq, hgrants⟩ := ih (workers.insert workerId state.reserveSlot)
        (reserved ++ [⟨queueName, workerId, state.outbound⟩])
      have hone : Takes workers (workers.insert workerId state.reserveSlot)
          [⟨queueName, workerId, state.outbound⟩] := takes_one hlookup hserves.2.2 rfl
      refine ⟨after, ⟨queueName, workerId, state.outbound⟩ :: permits, ?_,
        hone.trans hgrants.toTakes, ?_, ?_, ?_⟩
      · rw [List.append_cons]
        exact heq
      · have hfree : freeSlots queueName (workers.insert workerId state.reserveSlot) +
            state.slotsFor queueName =
              freeSlots queueName workers + state.reserveSlot.slotsFor queueName :=
          freeSlots_insert hlookup
        have hslots := slotsFor_reserveSlot hserves
        have hcount := hgrants.count
        rw [List.length_cons]
        dsimp only at hcount ⊢
        omega
      · intro permit hpermit
        rcases List.mem_cons.mp hpermit with rfl | hpermit
        · rfl
        · exact hgrants.queue permit hpermit
      · intro permit hpermit
        rcases List.mem_cons.mp hpermit with rfl | hpermit
        · exact ⟨state, hlookup, hserves⟩
        · -- A worker that could serve after a slot was taken could serve before.
          obtain ⟨later, hlater, hlaterServes⟩ := hgrants.serves permit hpermit
          by_cases hid : permit.workerId = workerId
          · exact ⟨state, hid ▸ hlookup, hserves⟩
          · rw [AList.lookup_insert_ne hid] at hlater
            exact ⟨later, hlater, hlaterServes⟩

theorem foldl_reserveSlots (choice : Table.Choice) (queues : List QueueReservation)
    (workers : WorkerRegistry) (reserved : List ReservedDispatch) :
    ∃ after permits, queues.foldl (fun state request =>
        reserveSlots choice request.queueName request.count state) (workers, reserved) =
        (after, reserved ++ permits) ∧ Serving queues workers after permits ∧
        Takes workers after permits := by
  induction queues generalizing workers reserved with
  | nil => exact ⟨workers, [], by simp, Serving.nil, Takes.refl workers⟩
  | cons request queues ih =>
    obtain ⟨middle, permits, heq, hgrants⟩ :=
      reserveSlots_grants choice request.queueName request.count workers reserved
    obtain ⟨after, rest, hfold, hserving, htakes⟩ := ih middle (reserved ++ permits)
    refine ⟨after, permits ++ rest, ?_, Serving.cons hgrants hserving, hgrants.toTakes.trans htakes⟩
    rw [List.foldl_cons, heq, hfold, List.append_assoc]

theorem Serving.queueName {queues : List QueueReservation} {before after : WorkerRegistry}
    {permits : List ReservedDispatch} (h : Serving queues before after permits) :
    ∀ permit ∈ permits, permit.queueName ∈ queues.map QueueReservation.queueName := by
  induction h with
  | nil => exact fun _ hmem => absurd hmem List.not_mem_nil
  | cons hgrants _ ih =>
    intro permit hmem
    rcases List.mem_append.mp hmem with hmem | hmem
    · rw [hgrants.queue permit hmem]
      exact List.mem_cons_self
    · exact List.mem_cons_of_mem _ (ih permit hmem)

/-- Every permit is for a queue that was asked for. -/
theorem reserve_queueName (choice : Table.Choice) (queues : List QueueReservation)
    (workers : WorkerRegistry) :
    ∀ permit ∈ (reserve choice queues workers).2,
      permit.queueName ∈ queues.map QueueReservation.queueName := by
  obtain ⟨after, permits, heq, hserving, -⟩ := foldl_reserveSlots choice queues workers []
  rw [reserve, heq, List.nil_append]
  exact hserving.queueName

/-- `reserve` serves its requests in their order: for each it takes exactly the slots that are asked
for and free at that moment, and altogether the registry changes by its permits alone. -/
theorem reserve_takes_free (choice : Table.Choice) (queues : List QueueReservation)
    (workers : WorkerRegistry) :
    Serving queues workers (reserve choice queues workers).1 (reserve choice queues workers).2 ∧
      Takes workers (reserve choice queues workers).1 (reserve choice queues workers).2 := by
  obtain ⟨after, permits, heq, hserving, htakes⟩ := foldl_reserveSlots choice queues workers []
  rw [reserve, heq, List.nil_append]
  exact ⟨hserving, htakes⟩

end Maqistor
