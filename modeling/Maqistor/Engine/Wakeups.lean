import Maqistor.Engine.Scheduler
import Maqistor.Lib.Lists

/-! No wake-up is lost and none is doubled: a scheduled queue has exactly one wake-up, pass or
timer, and a request that came while it was scheduled is kept in the flag until a pass starts after
it. -/

namespace Maqistor.Scheduling

/-- The wake-ups, passes and timers that a queue has. -/
def wakeups (system : Scheduling) (queue : String) : Nat :=
  (system.tx ++ system.sending).count queue + system.pass.count queue +
    (system.timers.map Prod.fst).count queue

/-- A scheduled queue has one of them, and any other queue has none. -/
def Coalesced (system : Scheduling) : Prop :=
  ∀ queue, system.wakeups queue = if queue ∈ system.state.scheduled then 1 else 0

/-- The queue is scheduled, and a pass over it will start: a wake-up or a timer is pending, or the
pass that it is in will ask for another. -/
def Due (system : Scheduling) (queue : String) : Prop :=
  ∃ schedule, system.state.scheduled.lookup queue = some schedule ∧
    (queue ∈ system.tx ++ system.sending ∨ queue ∈ system.timers.map Prod.fst ∨
      queue ∈ system.pass ∧ schedule.rerun = true)

/-- The queue that a step calls `schedule_queue` for. -/
def schedules (system : Scheduling) : Action → Option String
  | .schedule queue => some queue
  | .probeNext => system.probing.head?
  | _ => none

/-- The step starts a pass over the queue. -/
def startsOver (system : Scheduling) (queue : String) : Action → Bool
  | .start => queue ∈ system.tx
  | _ => false

section Coalesced

variable {batchSize : Nat} {system system' : Scheduling} {queue : String} {action : Action}

theorem Coalesced.of_eq (h : system.Coalesced) (hwakeups : ∀ queue, system'.wakeups queue =
    system.wakeups queue) (hscheduled : system'.state.scheduled = system.state.scheduled) :
    system'.Coalesced := by
  intro queue
  rw [hwakeups, hscheduled, h]

/-- A queue with a wake-up, a pass or a timer is scheduled. -/
theorem Coalesced.mem (h : system.Coalesced) (hpos : 0 < system.wakeups queue) :
    queue ∈ system.state.scheduled := by
  by_contra hout
  rw [h, if_neg hout] at hpos
  omega

theorem Coalesced.mem_of_pass (h : system.Coalesced) (hpass : queue ∈ system.pass) :
    queue ∈ system.state.scheduled := by
  have hpos := List.count_pos_iff.mpr hpass
  apply h.mem
  unfold wakeups
  omega

/-- A queue in a pass has no wake-up and no timer. -/
theorem Coalesced.alone (h : system.Coalesced) (hpass : queue ∈ system.pass) :
    queue ∉ system.tx ++ system.sending ∧ queue ∉ system.timers.map Prod.fst := by
  have hone := h queue
  rw [if_pos (h.mem_of_pass hpass)] at hone
  have hpos := List.count_pos_iff.mpr hpass
  unfold wakeups at hone
  constructor
  · intro hmem
    have hwakeup := List.count_pos_iff.mpr hmem
    omega
  · intro hmem
    have htimer := List.count_pos_iff.mpr hmem
    omega

theorem Coalesced.nodup_tx (h : system.Coalesced) : system.tx.Nodup := by
  apply List.nodup_iff_count_le_one.mpr
  intro queue
  have hone : system.wakeups queue ≤ 1 := by
    rw [h]
    split <;> omega
  unfold wakeups at hone
  rw [List.count_append] at hone
  omega

/-- The queue gets a wake-up together with its entry, or neither. -/
theorem Coalesced.schedule (h : system.Coalesced) (queue : String) :
    (system.schedule queue).Coalesced := by
  intro other
  unfold Scheduling.schedule
  rcases system.state.scheduleQueue_cases queue with ⟨schedule, hlookup, heq⟩ | ⟨hout, heq⟩
  · have hmem : queue ∈ system.state.scheduled := AList.lookup_isSome.mp (by rw [hlookup]; rfl)
    simp only [heq, Bool.false_eq_true, if_false, AList.mem_insert]
    have hsame : (other = queue ∨ other ∈ system.state.scheduled) ↔
        other ∈ system.state.scheduled :=
      ⟨fun hor => hor.elim (fun heq => heq ▸ hmem) id, Or.inr⟩
    simp only [hsame]
    exact h other
  · simp only [heq, if_true, AList.mem_insert]
    have hother := h other
    unfold wakeups at hother ⊢
    simp only [List.count_append, List.count_singleton'] at hother ⊢
    by_cases hsame : other = queue
    · subst hsame
      rw [if_neg hout] at hother
      rw [if_pos rfl, if_pos (Or.inl rfl)]
      omega
    · rw [if_neg (Ne.symm hsame)]
      simp only [hsame, false_or]
      omega

/-- The end of a pass over a queue leaves it with a wake-up or a timer, or takes its entry away. -/
theorem Coalesced.finish (h : system.Coalesced) (hpass : queue ∈ system.pass)
    (outcome : PassOutcome) : (system.finish queue outcome).Coalesced := by
  have hmem := h.mem_of_pass hpass
  obtain ⟨schedule, hlookup⟩ := Option.isSome_iff_exists.mp (AList.lookup_isSome.mpr hmem)
  have hpos := List.count_pos_iff.mpr hpass
  intro other
  have hother := h other
  have hfinished := finish_of_mem hlookup outcome
  generalize system.finish queue outcome = after at hfinished ⊢
  by_cases hsame : other = queue
  · subst hsame
    rw [if_pos hmem] at hother
    unfold wakeups at hother ⊢
    cases hfinished with
    | again | rests | retries =>
      simp only [List.count_append, List.map_append, List.map_cons, List.map_nil,
        List.count_singleton_self, List.count_erase_self, AList.mem_insert, true_or, if_true,
        SchedulerState.pushIdle_scheduled, AList.mem_erase, ne_eq, not_true_eq_false, false_and,
        if_false] at hother ⊢
      omega
  · unfold wakeups at hother ⊢
    cases hfinished with
    | again | rests | retries =>
      simp only [List.count_append, List.map_append, List.map_cons, List.map_nil,
        List.count_singleton', Ne.symm hsame, List.count_erase_of_ne hsame, AList.mem_insert, hsame,
        false_or, SchedulerState.pushIdle_scheduled, AList.mem_erase, ne_eq, not_false_eq_true,
        true_and, if_false, Nat.add_zero] at hother ⊢
      exact hother

theorem initial_coalesced : initial.Coalesced := by
  intro queue
  have hnone : queue ∉ (∅ : AList fun _ : String => QueueSchedule) := AList.notMem_empty queue
  simp [wakeups, initial, hnone]

theorem transition_coalesced (h : system.Coalesced) (hok : system.orderly action = true)
    (hstep : Transition batchSize system action system') : system'.Coalesced := by
  cases hstep with
  | seed => exact h.of_eq (fun _ => rfl) (SchedulerState.seedIdleQueues_scheduled _ _)
  | @schedule queue => exact h.schedule queue
  | send hqueue =>
    refine h.of_eq (fun other => ?_) rfl
    have hcount := (Lists.perm_eraseIdx hqueue).count_eq other
    simp only [wakeups, List.count_append, List.count_cons, List.count_nil] at hcount ⊢
    omega
  | start hpass =>
    refine h.of_eq (fun other => ?_) rfl
    simp only [wakeups, h.nodup_tx.dedup, hpass, List.count_append, List.count_nil]
    omega
  | @finish queue outcome => exact h.finish (of_decide_eq_true hok) outcome
  | @fire i queue delayMs htimer =>
    have hperm := (Lists.perm_eraseIdx htimer).map Prod.fst
    have hmem : queue ∈ system.state.scheduled := by
      have hpos : 0 < (system.timers.map Prod.fst).count queue :=
        List.count_pos_iff.mpr (hperm.mem_iff.mpr List.mem_cons_self)
      apply h.mem
      unfold wakeups
      omega
    have hresumes : system.state.resumeRetry queue = true := decide_eq_true hmem
    refine h.of_eq (fun other => ?_) rfl
    have hcount := hperm.count_eq other
    simp only [wakeups, hresumes, if_true, List.count_append, List.map_cons, List.count_cons,
      List.count_nil] at hcount ⊢
    omega
  | probe => exact h.of_eq (fun _ => rfl) (SchedulerState.probeFrom_scheduled _ _ _ _ _)
  | @probeNext queue rest =>
    have hrest : Coalesced { system with probing := rest } := h.of_eq (fun _ => rfl) rfl
    exact hrest.schedule queue

/-! ### Requests -/

/-- After `schedule_queue` a pass over the queue will start. -/
theorem Coalesced.schedule_due (h : system.Coalesced) (queue : String) :
    (system.schedule queue).Due queue := by
  unfold Scheduling.schedule
  rcases system.state.scheduleQueue_cases queue with ⟨schedule, hlookup, heq⟩ | ⟨hout, heq⟩
  · refine ⟨{ schedule with rerun := true }, by rw [heq]; exact AList.lookup_insert _, ?_⟩
    -- the one wake-up, pass or timer that the queue has
    have hmem : queue ∈ system.state.scheduled := AList.lookup_isSome.mp (by rw [hlookup]; rfl)
    have hone := h queue
    rw [if_pos hmem, wakeups] at hone
    simp only [heq, Bool.false_eq_true, if_false]
    by_cases hwakeup : queue ∈ system.tx ++ system.sending
    · exact Or.inl hwakeup
    · by_cases htimer : queue ∈ system.timers.map Prod.fst
      · exact Or.inr (Or.inl htimer)
      · rw [List.count_eq_zero.mpr hwakeup, List.count_eq_zero.mpr htimer] at hone
        exact Or.inr (Or.inr ⟨List.count_pos_iff.mp (by omega), trivial⟩)
  · refine ⟨.fresh, by rw [heq]; exact AList.lookup_insert _, Or.inl ?_⟩
    simp [heq]

theorem Due.of_eq (h : system.Due queue)
    (hlookup : system'.state.scheduled.lookup queue = system.state.scheduled.lookup queue)
    (hwakeup : queue ∈ system.tx ++ system.sending → queue ∈ system'.tx ++ system'.sending)
    (htimer : queue ∈ system.timers.map Prod.fst →
      queue ∈ system'.tx ++ system'.sending ∨ queue ∈ system'.timers.map Prod.fst)
    (hpass : queue ∈ system.pass → queue ∈ system'.pass) : system'.Due queue := by
  obtain ⟨schedule, hsome, hpending⟩ := h
  refine ⟨schedule, hlookup.trans hsome, ?_⟩
  rcases hpending with hin | hin | ⟨hin, hrerun⟩
  · exact Or.inl (hwakeup hin)
  · exact (htimer hin).imp id Or.inl
  · exact Or.inr (Or.inr ⟨hpass hin, hrerun⟩)

/-- Another request changes nothing, or sets the flag. -/
theorem Due.schedule (h : system.Due queue) (hinv : system.Coalesced) (other : String) :
    (system.schedule other).Due queue := by
  by_cases hsame : queue = other
  · subst hsame
    exact hinv.schedule_due queue
  · unfold Scheduling.schedule
    rcases system.state.scheduleQueue_cases other with ⟨schedule, -, heq⟩ | ⟨-, heq⟩
    · rw [heq]
      exact h.of_eq (AList.lookup_insert_ne hsame) id Or.inr id
    · rw [heq]
      refine h.of_eq (AList.lookup_insert_ne hsame) (fun hin => ?_) Or.inr id
      simp only [List.mem_append] at hin ⊢
      exact hin.imp id fun hsending => by simp [hsending]

/-- The end of a pass over another queue changes nothing; the end of a pass over this queue finds
the flag set, and leaves a wake-up or a timer. -/
theorem Due.finish (h : system.Due queue) (hinv : system.Coalesced) {other : String}
    (hother : other ∈ system.pass) (outcome : PassOutcome) :
    (system.finish other outcome).Due queue := by
  obtain ⟨schedule', hlookup'⟩ :=
    Option.isSome_iff_exists.mp (AList.lookup_isSome.mpr (hinv.mem_of_pass hother))
  have hfinished := finish_of_mem hlookup' outcome
  generalize system.finish other outcome = after at hfinished ⊢
  by_cases hsame : queue = other
  · subst hsame
    obtain ⟨schedule, hlookup, hpending⟩ := h
    obtain ⟨hwakeup, htimer⟩ := hinv.alone hother
    have hrerun : schedule.rerun = true := by simpa [hwakeup, htimer, hother] using hpending
    obtain rfl : schedule' = schedule := Option.some.inj (hlookup'.symm.trans hlookup)
    cases hfinished with
    | again => exact ⟨.fresh, AList.lookup_insert _, Or.inl (by simp)⟩
    | rests _ hrests => simp [hrerun] at hrests
    | retries => exact ⟨_, AList.lookup_insert _, Or.inr (Or.inl (by simp))⟩
  · have hpass : queue ∈ system.pass → queue ∈ system.pass.erase other :=
      (List.mem_erase_of_ne hsame).mpr
    cases hfinished with
    | again =>
      refine h.of_eq (AList.lookup_insert_ne hsame) (fun hin => ?_) Or.inr hpass
      simp only [List.mem_append] at hin ⊢
      exact hin.imp id Or.inl
    | rests =>
      refine h.of_eq ?_ id Or.inr hpass
      rw [SchedulerState.pushIdle_scheduled]
      exact AList.lookup_erase_ne hsame
    | retries =>
      refine h.of_eq (AList.lookup_insert_ne hsame) id (fun hin => Or.inr ?_) hpass
      rw [List.map_append]
      exact List.mem_append_left _ hin

theorem transition_due (h : system.Due queue) (hinv : system.Coalesced)
    (hok : system.orderly action = true) (hnew : system.startsOver queue action = false)
    (hstep : Transition batchSize system action system') : system'.Due queue := by
  cases hstep with
  | seed => exact h.of_eq (by rw [SchedulerState.seedIdleQueues_scheduled]) id Or.inr id
  | @schedule other => exact h.schedule hinv other
  | @send i other hother =>
    refine h.of_eq rfl (fun hin => ?_) Or.inr id
    have hperm := (Lists.perm_eraseIdx hother).mem_iff (a := queue)
    simp only [List.mem_append, hperm, List.mem_cons, List.not_mem_nil, or_false] at hin ⊢
    tauto
  | start hpass =>
    have hout : queue ∉ system.tx := by simpa [startsOver] using hnew
    refine h.of_eq rfl (fun hin => ?_) Or.inr (fun hin => ?_)
    · exact (List.mem_append.mp hin).resolve_left hout
    · simp [hpass] at hin
  | @finish other outcome => exact h.finish hinv (of_decide_eq_true hok) outcome
  | @fire i other delayMs htimer =>
    have hperm := ((Lists.perm_eraseIdx htimer).map Prod.fst).mem_iff (a := queue)
    obtain ⟨schedule, hlookup, -⟩ := id h
    refine h.of_eq rfl (fun hin => ?_) (fun hin => ?_) id
    · split
      · exact List.mem_append.mpr ((List.mem_append.mp hin).imp id (List.mem_append_left _))
      · exact hin
    · rcases List.mem_cons.mp (hperm.mp hin) with rfl | hrest
      · have hresumes : system.state.resumeRetry queue = true :=
          decide_eq_true (AList.lookup_isSome.mp (by rw [hlookup]; rfl))
        left
        simp [hresumes]
      · exact Or.inr hrest
  | probe =>
    refine h.of_eq ?_ id Or.inr id
    rw [SchedulerState.probeIdleQueues, SchedulerState.probeFrom_scheduled]
  | @probeNext other rest =>
    have hrest : Coalesced { system with probing := rest } := hinv.of_eq (fun _ => rfl) rfl
    have hdue : Due { system with probing := rest } queue := h.of_eq rfl id Or.inr id
    exact hdue.schedule hrest other

end Coalesced

section Runs

variable {batchSize : Nat} {system system' : Scheduling} {queue : String} {action : Action}

theorem reachable_coalesced (h : Runs.Reachable (step batchSize)
    (fun system action => system.orderly action = true) initial system) : system.Coalesced := by
  obtain ⟨events, hrun⟩ := h
  exact hrun.invariant Coalesced initial_coalesced fun hinv hok hstep =>
    transition_coalesced hinv hok (step_transition hstep)

/-- A step that calls `schedule_queue` leaves the queue due. -/
theorem transition_schedules (hinv : system.Coalesced)
    (hcall : system.schedules action = some queue)
    (hstep : Transition batchSize system action system') : system'.Due queue := by
  cases hstep with
  | @schedule other =>
    obtain rfl : other = queue := Option.some.inj hcall
    exact hinv.schedule_due other
  | @probeNext other rest hprobing =>
    obtain rfl : other = queue := by simpa [schedules, hprobing] using hcall
    have hrest : Coalesced { system with probing := rest } := hinv.of_eq (fun _ => rfl) rfl
    exact hrest.schedule_due other
  | _ => cases hcall

/-- In every state a queue is scheduled if it has exactly one wake-up, pass or timer, and none has
two; and from a call of `schedule_queue` until a pass over the queue starts, the queue stays due. -/
theorem no_lost_wakeup (batchSize : Nat) (system : Scheduling)
    (h : Runs.Reachable (step batchSize) (fun system action => system.orderly action = true) initial
      system) :
    (∀ queue, (queue ∈ system.state.scheduled ↔ system.wakeups queue = 1) ∧
      system.wakeups queue ≤ 1) ∧
    ∀ queue action system' event, system.orderly action = true →
      system.schedules action = some queue →
      system.step batchSize action = some (system', event) →
      ∀ later events, Runs.Run (step batchSize)
        (fun system action => system.orderly action = true ∧
          system.startsOver queue action = false) system' events later →
      later.Due queue := by
  have hinv := reachable_coalesced h
  constructor
  · intro queue
    rw [hinv queue]
    split
    · next hmem => exact ⟨⟨fun _ => rfl, fun _ => hmem⟩, Nat.le_refl 1⟩
    · next hout => exact ⟨⟨fun hmem => absurd hmem hout, fun heq => by cases heq⟩, Nat.zero_le 1⟩
  · intro queue action system' event hok hcall hstep later events hrun
    have htransition := step_transition hstep
    exact (hrun.invariant (fun system => system.Coalesced ∧ system.Due queue)
      ⟨transition_coalesced hinv hok htransition, transition_schedules hinv hcall htransition⟩
      fun hboth hsteps hnext =>
        ⟨transition_coalesced hboth.1 hsteps.1 (step_transition hnext),
          transition_due hboth.2 hboth.1 hsteps.1 hsteps.2 (step_transition hnext)⟩).2

end Runs

/-- A pass over one queue has started. -/
def startedRun : Option Scheduling :=
  (Runs.exec (step 1) (fun system action => system.orderly action = true) initial
    [.schedule "mail", .send 0, .start]).map Prod.fst

theorem startedRun_isSome : startedRun.isSome := by decide +kernel

/-- A request during the pass is sent again when the pass has found nothing. -/
theorem no_lost_wakeup_during_pass :
    (startedRun.get startedRun_isSome).pass = ["mail"] ∧
    (startedRun.get startedRun_isSome).wakeups "mail" ≤ 1 ∧
    (((startedRun.get startedRun_isSome).schedule "mail").finish "mail" .idle).sending = ["mail"] ∧
    (((startedRun.get startedRun_isSome).schedule "mail").finish "mail" .idle).Due "mail" := by
  have hreach : Runs.Reachable (step 1) (fun system action => system.orderly action = true) initial
      (startedRun.get startedRun_isSome) :=
    Runs.Reachable.of_exec _ (Option.some_get _).symm
  have hall := no_lost_wakeup 1 _ hreach
  have hok : ((startedRun.get startedRun_isSome).schedule "mail").orderly (.finish "mail" .idle) =
      true := by decide +kernel
  exact ⟨by decide +kernel, (hall.1 "mail").2, by decide +kernel,
    hall.2 "mail" (.schedule "mail") _ () rfl rfl rfl _ [()] (Runs.Run.one ⟨hok, rfl⟩ rfl)⟩

end Maqistor.Scheduling
