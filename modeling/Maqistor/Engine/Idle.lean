import Maqistor.Engine.Scheduler

/-! The idle list. No known queue falls out of the scheduler: it is scheduled, on the list or about
to be scheduled by a probe. But `schedule_queue` takes a queue out of the set and leaves it on the
list, so a queue that rests again is on the list twice. -/

namespace Maqistor

namespace SchedulerState

variable {state : SchedulerState} {queue other : String}

/-- Every queue of the set is on the list. -/
def Marked (state : SchedulerState) : Prop := ∀ queue ∈ state.idleSet, queue ∈ state.idle

theorem Marked.of_subset {state' : SchedulerState} (h : state.Marked)
    (hset : state'.idleSet ⊆ state.idleSet) (hidle : state'.idle = state.idle) : state'.Marked :=
  fun queue hqueue => hidle ▸ h queue (hset hqueue)

theorem pushIdle_cases (state : SchedulerState) (queue : String) :
    queue ∈ state.idleSet ∧ state.pushIdle queue = state ∨
    queue ∉ state.idleSet ∧ state.pushIdle queue =
      { state with idleSet := insert queue state.idleSet, idle := state.idle ++ [queue] } := by
  unfold pushIdle
  split
  · next hset => exact Or.inl ⟨hset, rfl⟩
  · next hnew => exact Or.inr ⟨hnew, rfl⟩

theorem pushIdle_sublist (state : SchedulerState) (queue : String) :
    state.idle.Sublist (state.pushIdle queue).idle := by
  rcases state.pushIdle_cases queue with ⟨-, heq⟩ | ⟨-, heq⟩
  · rw [heq]
  · rw [heq]
    exact List.sublist_append_left _ _

theorem Marked.pushIdle (h : state.Marked) (queue : String) :
    (state.pushIdle queue).Marked ∧ queue ∈ (state.pushIdle queue).idle := by
  rcases state.pushIdle_cases queue with ⟨hset, heq⟩ | ⟨hnew, heq⟩
  · rw [heq]
    exact ⟨h, h queue hset⟩
  · rw [heq]
    refine ⟨fun other hother => ?_, by simp⟩
    rcases Finset.mem_insert.mp hother with rfl | hold
    · simp
    · exact List.mem_append_left _ (h other hold)

theorem mem_pushIdle (h : other ∈ (state.pushIdle queue).idle) : other = queue ∨ other ∈ state.idle := by
  rcases state.pushIdle_cases queue with ⟨-, heq⟩ | ⟨-, heq⟩
  · exact Or.inr (heq ▸ h)
  · rw [heq] at h
    rcases List.mem_append.mp h with hold | hnew
    · exact Or.inr hold
    · exact Or.inl (List.mem_singleton.mp hnew)

/-! ### Seeding -/

theorem seedIdleQueues_cons (state : SchedulerState) (queue : String) (rest : List String) :
    state.seedIdleQueues (queue :: rest) = (state.pushIdle queue).seedIdleQueues rest := rfl

theorem seedIdleQueues_sublist (state : SchedulerState) (queues : List String) :
    state.idle.Sublist (state.seedIdleQueues queues).idle := by
  induction queues generalizing state with
  | nil => exact List.Sublist.refl _
  | cons queue rest ih => exact (state.pushIdle_sublist queue).trans (ih _)

theorem Marked.seedIdleQueues (h : state.Marked) (queues : List String) :
    (state.seedIdleQueues queues).Marked ∧
      ∀ queue ∈ queues, queue ∈ (state.seedIdleQueues queues).idle := by
  induction queues generalizing state with
  | nil => exact ⟨h, by simp⟩
  | cons queue rest ih =>
    obtain ⟨hpushed, hin⟩ := h.pushIdle queue
    obtain ⟨hmarked, hrest⟩ := ih hpushed
    refine ⟨hmarked, fun other hother => ?_⟩
    rcases List.mem_cons.mp hother with rfl | hother
    · exact (seedIdleQueues_sublist _ rest).mem hin
    · exact hrest other hother

theorem mem_seedIdleQueues {queues : List String} (h : other ∈ (state.seedIdleQueues queues).idle) :
    other ∈ queues ∨ other ∈ state.idle := by
  induction queues generalizing state with
  | nil => exact Or.inr h
  | cons queue rest ih =>
    rcases ih h with hrest | hpushed
    · exact Or.inl (List.mem_cons_of_mem _ hrest)
    · rcases mem_pushIdle hpushed with rfl | hold
      · exact Or.inl List.mem_cons_self
      · exact Or.inr hold

/-- A queue that goes to the list is there twice if it was there. -/
theorem pushIdle_nodup (h : state.idle.Nodup) (queue : String) :
    (state.pushIdle queue).idle.Nodup ↔ (queue ∉ state.idleSet → queue ∉ state.idle) := by
  rcases state.pushIdle_cases queue with ⟨hset, heq⟩ | ⟨hnew, heq⟩
  · simp [heq, h, hset]
  · rw [heq]
    simp only [hnew, not_false_eq_true, true_implies]
    rw [List.nodup_append_comm]
    simp [h]

theorem seedIdleQueues_nodup (h : state.idle.Nodup) (queues : List String) :
    (state.seedIdleQueues queues).idle.Nodup ↔
      ∀ queue ∈ queues, queue ∉ state.idleSet → queue ∉ state.idle := by
  induction queues generalizing state with
  | nil => exact iff_of_true h (by simp)
  | cons queue rest ih =>
    rw [seedIdleQueues_cons, List.forall_mem_cons]
    by_cases hfirst : queue ∉ state.idleSet → queue ∉ state.idle
    · rw [ih ((pushIdle_nodup h queue).mpr hfirst), and_iff_right hfirst]
      -- the first name is in the set afterwards, and nothing changes for the others
      refine forall₂_congr fun other hother => ?_
      rcases state.pushIdle_cases queue with ⟨-, heq⟩ | ⟨hnew, heq⟩
      · rw [heq]
      · rw [heq]
        by_cases hsame : other = queue
        · subst hsame
          simpa using hfirst
        · simp [hsame]
    · refine iff_of_false (fun hnodup => hfirst ?_) fun hall => hfirst hall.1
      exact (pushIdle_nodup h queue).mp (hnodup.sublist (seedIdleQueues_sublist _ rest))

/-! ### Probing -/

section Probe

variable {batchSize : Nat} {scheduled : AList fun _ : String => QueueSchedule}

theorem probeFrom_suffix (idle : List String) (idleSet : Finset String) (queues : List String) :
    (probeFrom batchSize scheduled idle idleSet queues).1.idle <:+ idle := by
  induction idle generalizing idleSet queues with
  | nil => exact List.suffix_refl _
  | cons queue rest ih =>
    unfold probeFrom
    split
    · exact (ih _ _).trans (List.suffix_cons _ _)
    · exact List.suffix_refl _

theorem probeFrom_queues (idle : List String) (idleSet : Finset String) {queues : List String}
    (h : other ∈ queues) : other ∈ (probeFrom batchSize scheduled idle idleSet queues).2 := by
  induction idle generalizing idleSet queues with
  | nil => exact h
  | cons queue rest ih =>
    unfold probeFrom
    split
    · refine ih _ ?_
      split
      · exact h
      · exact List.mem_append_left _ h
    · exact h

/-- A name that a probe takes off the list is scheduled, or the probe goes on to schedule it. -/
theorem probeFrom_keeps {idle : List String} (h : other ∈ idle) (idleSet : Finset String)
    (queues : List String) :
    other ∈ scheduled ∨ other ∈ (probeFrom batchSize scheduled idle idleSet queues).1.idle ∨
      other ∈ (probeFrom batchSize scheduled idle idleSet queues).2 := by
  induction idle generalizing idleSet queues with
  | nil => cases h
  | cons queue rest ih =>
    unfold probeFrom
    split
    · rcases List.mem_cons.mp h with rfl | hrest
      · by_cases hmem : other ∈ scheduled
        · exact Or.inl hmem
        · rw [if_neg hmem]
          exact Or.inr (Or.inr (probeFrom_queues _ _ (by simp)))
      · exact ih hrest _ _
    · exact Or.inr (Or.inl h)

theorem probeFrom_marked {idle : List String} {idleSet : Finset String}
    (h : ∀ queue ∈ idleSet, queue ∈ idle) (queues : List String) :
    (probeFrom batchSize scheduled idle idleSet queues).1.Marked := by
  induction idle generalizing idleSet queues with
  | nil => exact h
  | cons queue rest ih =>
    unfold probeFrom
    split
    · refine ih (fun other hother => ?_) _
      obtain ⟨hne, hin⟩ := Finset.mem_erase.mp hother
      exact (List.mem_cons.mp (h other hin)).resolve_left hne
    · exact h

end Probe

end SchedulerState

namespace Scheduling

/-- Every known queue is scheduled, on the idle list or about to be scheduled by a probe, and the
set is part of the list. -/
structure Probed (system : Scheduling) : Prop where
  known : ∀ queue ∈ system.known, queue ∈ system.state.scheduled ∨ queue ∈ system.state.idle ∨
    queue ∈ system.probing
  marked : system.state.Marked

section Probed

variable {batchSize : Nat} {system system' : Scheduling} {queue : String} {action : Action}

/-- A request for a queue; the others are where they were. -/
theorem probed_schedule (hmarked : system.state.Marked)
    (hknown : ∀ other ∈ system.known, other = queue ∨ other ∈ system.state.scheduled ∨
      other ∈ system.state.idle ∨ other ∈ system.probing) : (system.schedule queue).Probed := by
  unfold Scheduling.schedule
  have hkeeps : ∀ schedule other, other ∈ insert queue system.known →
      other ∈ system.state.scheduled.insert queue schedule ∨ other ∈ system.state.idle ∨
        other ∈ system.probing := by
    intro schedule other hother
    rw [AList.mem_insert, or_assoc]
    rcases Finset.mem_insert.mp hother with heq | hold
    · exact Or.inl heq
    · exact hknown other hold
  rcases system.state.scheduleQueue_cases queue with ⟨schedule, -, heq⟩ | ⟨-, heq⟩
  · rw [heq]
    exact ⟨hkeeps _, hmarked⟩
  · rw [heq]
    exact ⟨hkeeps _, hmarked.of_subset (Finset.erase_subset _ _) rfl⟩

/-- A queue loses its entry and goes to the idle list. -/
theorem Probed.rest (h : system.Probed) (queue : String) :
    Probed { system with
      state := { system.state with scheduled := system.state.scheduled.erase queue }.pushIdle queue
      pass := system.pass.erase queue } := by
  have hsame : SchedulerState.Marked
      { system.state with scheduled := system.state.scheduled.erase queue } := h.marked
  obtain ⟨hmarked, hin⟩ := hsame.pushIdle queue
  have hsub := SchedulerState.pushIdle_sublist
    { system.state with scheduled := system.state.scheduled.erase queue } queue
  refine ⟨fun other hother => ?_, hmarked⟩
  rw [SchedulerState.pushIdle_scheduled, AList.mem_erase]
  by_cases heq : other = queue
  · exact Or.inr (Or.inl (heq ▸ hin))
  · rcases h.known other hother with hold | hidle | hprobing
    · exact Or.inl ⟨heq, hold⟩
    · exact Or.inr (Or.inl (hsub.mem hidle))
    · exact Or.inr (Or.inr hprobing)

theorem Probed.finish (h : system.Probed) (queue : String) (outcome : PassOutcome) :
    (system.finish queue outcome).Probed := by
  have hkeeps : ∀ schedule other, other ∈ system.known →
      other ∈ system.state.scheduled.insert queue schedule ∨ other ∈ system.state.idle ∨
        other ∈ system.probing := by
    intro schedule other hother
    rw [AList.mem_insert]
    exact (h.known other hother).imp Or.inr id
  refine finish_induction (fun _ => ⟨h.known, h.marked⟩) fun schedule after _ hfinished => ?_
  cases hfinished with
  | again | retries => exact ⟨hkeeps _, h.marked⟩
  | rests => exact h.rest queue

theorem initial_probed : initial.Probed := by
  constructor
  · intro queue hqueue
    exact absurd hqueue (Finset.notMem_empty queue)
  · intro queue hqueue
    exact absurd hqueue (Finset.notMem_empty queue)

theorem transition_probed (h : system.Probed)
    (hstep : Transition batchSize system action system') : system'.Probed := by
  cases hstep with
  | @seed queues =>
    obtain ⟨hmarked, hin⟩ := h.marked.seedIdleQueues queues
    refine ⟨fun other hother => ?_, hmarked⟩
    rw [SchedulerState.seedIdleQueues_scheduled]
    rcases Finset.mem_union.mp hother with hold | hnew
    · have hsub := SchedulerState.seedIdleQueues_sublist system.state queues
      exact (h.known other hold).imp id (Or.imp hsub.mem id)
    · exact Or.inr (Or.inl (hin other (List.mem_toFinset.mp hnew)))
  | schedule => exact probed_schedule h.marked fun other hother => Or.inr (h.known other hother)
  | send | start | fire => exact ⟨h.known, h.marked⟩
  | @finish queue outcome => exact h.finish queue outcome
  | probe =>
    refine ⟨fun other hother => ?_, SchedulerState.probeFrom_marked h.marked _⟩
    rw [SchedulerState.probeIdleQueues, SchedulerState.probeFrom_scheduled]
    rcases h.known other hother with hold | hidle | hprobing
    · exact Or.inl hold
    · rcases SchedulerState.probeFrom_keeps hidle system.state.idleSet [] with hold | hin | hin
      · exact Or.inl hold
      · exact Or.inr (Or.inl hin)
      · exact Or.inr (Or.inr (List.mem_append_right _ hin))
    · exact Or.inr (Or.inr (List.mem_append_left _ hprobing))
  | @probeNext queue rest hprobing =>
    refine probed_schedule h.marked fun other hother => ?_
    rcases h.known other hother with hold | hidle | hnext
    · exact Or.inr (Or.inl hold)
    · exact Or.inr (Or.inr (Or.inl hidle))
    · rw [hprobing] at hnext
      exact (List.mem_cons.mp hnext).imp id fun hrest => Or.inr (Or.inr hrest)

/-- In every state that the scheduler can come to, whatever passes are finished and in whatever
order, every queue that was ever seeded or scheduled is scheduled, on the idle list or about to be
scheduled by a probe, and every queue of the idle set is on the list. -/
theorem known_queues_probed (batchSize : Nat) (system : Scheduling)
    (h : Runs.Reachable (step batchSize) (fun _ _ => True) initial system) :
    (∀ queue ∈ system.known, queue ∈ system.state.scheduled ∨ queue ∈ system.state.idle ∨
      queue ∈ system.probing) ∧
    ∀ queue ∈ system.state.idleSet, queue ∈ system.state.idle := by
  obtain ⟨events, hrun⟩ := h
  have hinv := hrun.invariant Probed initial_probed fun hinv _ hstep =>
    transition_probed hinv (step_transition hstep)
  exact ⟨hinv.known, hinv.marked⟩

/-- A queue is seeded and scheduled, its pass finds nothing, and a probe takes it off the list. -/
def probedRun : Option Scheduling :=
  (Runs.exec (step 1) (fun _ _ => True) initial
    [.seed ["mail", "news"], .schedule "mail", .send 0, .start, .finish "mail" .idle, .probe]).map
      Prod.fst

theorem probedRun_isSome : probedRun.isSome := by decide +kernel

theorem known_queues_probed_during_probe :
    (probedRun.get probedRun_isSome).probing = ["mail"] ∧
    (probedRun.get probedRun_isSome).state.idle = ["news", "mail"] ∧
    ∀ queue ∈ (probedRun.get probedRun_isSome).known,
      queue ∈ (probedRun.get probedRun_isSome).state.scheduled ∨
        queue ∈ (probedRun.get probedRun_isSome).state.idle ∨
        queue ∈ (probedRun.get probedRun_isSome).probing := by
  have hreach : Runs.Reachable (step 1) (fun _ _ => True) initial (probedRun.get probedRun_isSome) :=
    Runs.Reachable.of_exec _ (Option.some_get _).symm
  exact ⟨by decide +kernel, by decide +kernel, (known_queues_probed 1 _ hreach).1⟩

end Probed

/-! ### Entries that are left behind -/

/-- The names that a probe takes off the list. -/
def popped (batchSize : Nat) (system : Scheduling) : List String :=
  system.state.idle.take
    (system.state.idle.length - (system.state.probeIdleQueues batchSize).1.idle.length)

/-- The scheduler with the queues that were left behind: `schedule_queue` took them out of the set
while they rested, and no probe has taken them off the list since. -/
structure Watched where
  system : Scheduling
  leftBehind : Finset String

namespace Watched

def initial : Watched := { system := Scheduling.initial, leftBehind := ∅ }

/-- A queue that rests is left behind when it is scheduled. -/
def leave (watched : Watched) (queue : String) : Finset String :=
  if queue ∉ watched.system.state.scheduled ∧ queue ∈ watched.system.state.idleSet then
    insert queue watched.leftBehind
  else watched.leftBehind

/-- The queues left behind after a step. -/
def leftAfter (batchSize : Nat) (watched : Watched) : Action → Finset String
  | .schedule queue => watched.leave queue
  | .probeNext =>
    match watched.system.probing with
    | [] => watched.leftBehind
    | queue :: _ => watched.leave queue
  | .probe => watched.leftBehind \ (watched.system.popped batchSize).toFinset
  | _ => watched.leftBehind

def step (batchSize : Nat) (watched : Watched) (action : Action) : Option (Watched × Unit) :=
  (watched.system.step batchSize action).map fun next =>
    ({ system := next.1, leftBehind := watched.leftAfter batchSize action }, ())

/-- No queue that was left behind rests again: it is neither seeded, nor does a pass over it end
idle or blocked without a request in between. -/
def restsClear (watched : Watched) : Action → Bool
  | .finish queue outcome =>
    (watched.system.state.scheduled.lookup queue).all fun schedule =>
      (outcome = .idle ∨ outcome = .capacityBlocked) → schedule.rerun = false →
        queue ∉ watched.leftBehind
  | .seed queues => ∀ queue ∈ queues, queue ∉ watched.leftBehind
  | _ => true

end Watched

/-- What is on the list or scheduled is known. -/
structure Listed (system : Scheduling) : Prop where
  scheduled : ∀ queue ∈ system.state.scheduled, queue ∈ system.known
  idle : ∀ queue ∈ system.state.idle, queue ∈ system.known

section Listed

variable {batchSize : Nat} {system system' : Scheduling} {queue : String} {action : Action}

theorem Listed.schedule (h : system.Listed) (queue : String) : (system.schedule queue).Listed := by
  unfold Scheduling.schedule
  have hkeeps : ∀ schedule other, other ∈ system.state.scheduled.insert queue schedule →
      other ∈ insert queue system.known := by
    intro schedule other hother
    rw [AList.mem_insert] at hother
    rw [Finset.mem_insert]
    exact hother.imp id (h.scheduled other)
  have hidle : ∀ other ∈ system.state.idle, other ∈ insert queue system.known :=
    fun other hother => Finset.mem_insert_of_mem (h.idle other hother)
  rcases system.state.scheduleQueue_cases queue with ⟨schedule, -, heq⟩ | ⟨-, heq⟩
  · rw [heq]
    exact ⟨hkeeps _, hidle⟩
  · rw [heq]
    exact ⟨hkeeps _, hidle⟩

theorem Listed.finish (h : system.Listed) (queue : String) (outcome : PassOutcome) :
    (system.finish queue outcome).Listed := by
  refine finish_induction (fun _ => ⟨h.scheduled, h.idle⟩) fun schedule after hlookup hfinished => ?_
  have hknown := h.scheduled queue (AList.lookup_isSome.mp (by rw [hlookup]; rfl))
  have hkeeps : ∀ schedule other, other ∈ system.state.scheduled.insert queue schedule →
      other ∈ system.known := by
    intro schedule other hother
    rw [AList.mem_insert] at hother
    exact hother.elim (fun heq => heq ▸ hknown) (h.scheduled other)
  cases hfinished with
  | again | retries => exact ⟨hkeeps _, h.idle⟩
  | rests =>
    constructor
    · intro other hother
      rw [SchedulerState.pushIdle_scheduled] at hother
      exact h.scheduled other (AList.mem_erase.mp hother).2
    · intro other hother
      exact (SchedulerState.mem_pushIdle hother).elim (fun heq => heq ▸ hknown) (h.idle other)

theorem initial_listed : initial.Listed := by
  constructor
  · intro queue hqueue
    exact absurd hqueue (AList.notMem_empty queue)
  · intro queue hqueue
    cases hqueue

theorem transition_listed (h : system.Listed) (hstep : Transition batchSize system action system') :
    system'.Listed := by
  cases hstep with
  | @seed queues =>
    constructor
    · intro other hother
      rw [SchedulerState.seedIdleQueues_scheduled] at hother
      exact Finset.mem_union_left _ (h.scheduled other hother)
    · intro other hother
      rcases SchedulerState.mem_seedIdleQueues hother with hnew | hold
      · exact Finset.mem_union_right _ (List.mem_toFinset.mpr hnew)
      · exact Finset.mem_union_left _ (h.idle other hold)
  | @schedule queue => exact h.schedule queue
  | send | start | fire => exact ⟨h.scheduled, h.idle⟩
  | @finish queue outcome => exact h.finish queue outcome
  | probe =>
    constructor
    · intro other hother
      rw [SchedulerState.probeIdleQueues, SchedulerState.probeFrom_scheduled] at hother
      exact h.scheduled other hother
    · intro other hother
      exact h.idle other ((SchedulerState.probeFrom_suffix _ _ _).subset hother)
  | @probeNext queue rest =>
    have hrest : Listed { system with probing := rest } := ⟨h.scheduled, h.idle⟩
    exact hrest.schedule queue

end Listed

/-! ### The queues left behind -/

end Scheduling

namespace SchedulerState

variable {state : SchedulerState} {queue other : String}

/-- The names that the list has and the set has not stay the same when a queue rests that is not one
of them. -/
theorem pushIdle_left (h : queue ∉ state.idleSet → queue ∉ state.idle) :
    other ∈ (state.pushIdle queue).idle ∧ other ∉ (state.pushIdle queue).idleSet ↔
      other ∈ state.idle ∧ other ∉ state.idleSet := by
  rcases state.pushIdle_cases queue with ⟨-, heq⟩ | ⟨hnew, heq⟩
  · rw [heq]
  · rw [heq]
    by_cases hsame : other = queue
    · subst hsame
      simp [h hnew]
    · simp [hsame]

theorem seedIdleQueues_left {queues : List String}
    (h : ∀ queue ∈ queues, queue ∉ state.idleSet → queue ∉ state.idle) :
    other ∈ (state.seedIdleQueues queues).idle ∧ other ∉ (state.seedIdleQueues queues).idleSet ↔
      other ∈ state.idle ∧ other ∉ state.idleSet := by
  induction queues generalizing state with
  | nil => rfl
  | cons queue rest ih =>
    rw [List.forall_mem_cons] at h
    rw [seedIdleQueues_cons, ih, pushIdle_left h.1]
    intro next hnext hset hidle
    have hleft := (pushIdle_left h.1).mp ⟨hidle, hset⟩
    exact h.2 next hnext hleft.2 hleft.1

/-- A probe takes names off the front of the list and out of the set. -/
theorem probeFrom_split (batchSize : Nat) (scheduled : AList fun _ : String => QueueSchedule)
    (idle : List String) (idleSet : Finset String) (queues : List String) :
    ∃ names, idle = names ++ (probeFrom batchSize scheduled idle idleSet queues).1.idle ∧
      (probeFrom batchSize scheduled idle idleSet queues).1.idleSet = idleSet \ names.toFinset := by
  induction idle generalizing idleSet queues with
  | nil => exact ⟨[], rfl, by simp [probeFrom]⟩
  | cons queue rest ih =>
    unfold probeFrom
    split
    · obtain ⟨names, hidle, hset⟩ := ih (idleSet.erase queue)
        (if queue ∈ scheduled then queues else queues ++ [queue])
      refine ⟨queue :: names, by rw [List.cons_append, ← hidle], ?_⟩
      rw [hset]
      ext other
      simp only [Finset.mem_sdiff, Finset.mem_erase, List.toFinset_cons, Finset.mem_insert]
      tauto
    · exact ⟨[], rfl, by simp⟩

end SchedulerState

namespace Scheduling

/-- What a probe takes off the list is its front. -/
theorem popped_split (batchSize : Nat) (system : Scheduling) :
    system.state.idle = system.popped batchSize ++ (system.state.probeIdleQueues batchSize).1.idle ∧
    (system.state.probeIdleQueues batchSize).1.idleSet =
      system.state.idleSet \ (system.popped batchSize).toFinset := by
  obtain ⟨names, hidle, hset⟩ := SchedulerState.probeFrom_split batchSize system.state.scheduled
    system.state.idle system.state.idleSet []
  have hnames : system.popped batchSize = names := by
    have hlength := congrArg List.length hidle
    rw [List.length_append] at hlength
    have htake : system.state.idle.take names.length = names := by
      conv_lhs => rw [hidle]
      exact List.take_left
    rw [popped, SchedulerState.probeIdleQueues, hlength, Nat.add_sub_cancel, htake]
  rw [hnames]
  exact ⟨hidle, hset⟩

namespace Watched

/-- The list has no name twice, and the names left behind are those of the list that the set does
not have. -/
structure Clear (watched : Watched) : Prop where
  nodup : watched.system.state.idle.Nodup
  probed : watched.system.Probed
  listed : watched.system.Listed
  left : ∀ {queue}, queue ∈ watched.leftBehind ↔
    queue ∈ watched.system.state.idle ∧ queue ∉ watched.system.state.idleSet

variable {batchSize : Nat} {watched watched' : Watched} {system' : Scheduling} {queue : String}
  {action : Action} {event : Unit}

theorem initial_clear : initial.Clear :=
  ⟨List.nodup_nil, initial_probed, initial_listed, by simp [initial, Scheduling.initial]⟩

theorem Clear.notMem_left (h : watched.Clear) :
    queue ∉ watched.leftBehind ↔
      (queue ∉ watched.system.state.idleSet → queue ∉ watched.system.state.idle) := by
  rw [h.left]
  tauto

theorem finish_nodup (h : watched.Clear) (queue : String) (outcome : PassOutcome) :
    (watched.system.finish queue outcome).state.idle.Nodup ↔
      watched.restsClear (.finish queue outcome) = true := by
  refine finish_induction (P := fun after => after.state.idle.Nodup ↔
    watched.restsClear (.finish queue outcome) = true) (fun hmem => ?_)
    fun schedule after hlookup hfinished => ?_
  · rw [restsClear, AList.lookup_eq_none.mpr hmem]
    exact iff_of_true h.nodup rfl
  · rw [restsClear, hlookup, Option.all_some, decide_eq_true_eq]
    cases hfinished with
    | again hagain =>
      refine iff_of_true h.nodup fun hidle hrerun => ?_
      rcases hagain with rfl | hset
      · simp at hidle
      · simp [hrerun] at hset
    | rests hidle hrerun =>
      simp only [hidle, hrerun, true_implies]
      have hsame : ({ watched.system.state with
          scheduled := watched.system.state.scheduled.erase queue } : SchedulerState).idle.Nodup := h.nodup
      rw [SchedulerState.pushIdle_nodup hsame queue, h.notMem_left]
    | retries => exact iff_of_true h.nodup fun hidle => by simp at hidle

/-- A name stands twice after a step exactly if a queue that was left behind rests. -/
theorem transition_nodup (h : watched.Clear)
    (hstep : Transition batchSize watched.system action system') :
    system'.state.idle.Nodup ↔ watched.restsClear action = true := by
  cases hstep with
  | @seed queues =>
    rw [restsClear, decide_eq_true_eq]
    refine (SchedulerState.seedIdleQueues_nodup h.nodup queues).trans ?_
    exact forall₂_congr fun queue _ => h.notMem_left.symm
  | @schedule queue | @probeNext queue =>
    simp only [restsClear, iff_true]
    unfold Scheduling.schedule
    rcases watched.system.state.scheduleQueue_cases queue with ⟨schedule, -, heq⟩ | ⟨-, heq⟩
    · rw [heq]
      exact h.nodup
    · rw [heq]
      exact h.nodup
  | send | start | fire =>
    simp only [restsClear, iff_true]
    exact h.nodup
  | @finish queue outcome => exact finish_nodup h queue outcome
  | probe =>
    simp only [restsClear, iff_true]
    exact h.nodup.sublist (SchedulerState.probeFrom_suffix _ _ _).sublist

/-- A queue is left behind when it is scheduled while it rests. -/
theorem schedule_left (h : watched.Clear) {system : Scheduling} (hstate : system.state = watched.system.state)
    {other : String} : other ∈ watched.leave queue ↔
      other ∈ (system.schedule queue).state.idle ∧ other ∉ (system.schedule queue).state.idleSet := by
  unfold leave Scheduling.schedule
  rw [hstate]
  rcases watched.system.state.scheduleQueue_cases queue with ⟨schedule, hfound, heq⟩ | ⟨hnew, heq⟩
  · have hmem : queue ∈ watched.system.state.scheduled :=
      AList.lookup_isSome.mp (by rw [hfound]; rfl)
    rw [if_neg fun hboth => hboth.1 hmem, heq]
    exact h.left
  · rw [heq]
    simp only [Finset.mem_erase, hnew, not_false_eq_true, true_and]
    by_cases hset : queue ∈ watched.system.state.idleSet
    · -- the entry of the queue stays on the list
      have hentry := h.probed.marked queue hset
      rw [if_pos hset, Finset.mem_insert, h.left]
      by_cases hsame : other = queue
      · subst hsame
        simp [hentry]
      · simp [hsame]
    · rw [if_neg hset, h.left]
      by_cases hsame : other = queue
      · subst hsame
        simp [hset]
      · simp [hsame]

theorem finish_left (h : watched.Clear) {outcome : PassOutcome}
    (hclear : watched.restsClear (.finish queue outcome) = true) {other : String} :
    other ∈ watched.leftBehind ↔ other ∈ (watched.system.finish queue outcome).state.idle ∧
      other ∉ (watched.system.finish queue outcome).state.idleSet := by
  refine finish_induction (P := fun after => other ∈ watched.leftBehind ↔
    other ∈ after.state.idle ∧ other ∉ after.state.idleSet) (fun _ => h.left)
    fun schedule after hlookup hfinished => ?_
  cases hfinished with
  | again | retries => exact h.left
  | rests hidle hrerun =>
    rw [restsClear, hlookup, Option.all_some, decide_eq_true_eq] at hclear
    let erased : SchedulerState :=
      { watched.system.state with scheduled := watched.system.state.scheduled.erase queue }
    have hrests : queue ∉ erased.idleSet → queue ∉ erased.idle := h.notMem_left.mp (hclear hidle hrerun)
    exact h.left.trans (SchedulerState.pushIdle_left hrests).symm

theorem probe_left (h : watched.Clear) {other : String} :
    other ∈ watched.leftBehind \ (watched.system.popped batchSize).toFinset ↔
      other ∈ (watched.system.state.probeIdleQueues batchSize).1.idle ∧
        other ∉ (watched.system.state.probeIdleQueues batchSize).1.idleSet := by
  obtain ⟨hidle, hset⟩ := popped_split batchSize watched.system
  have hnodup := h.nodup
  rw [hidle, List.nodup_append] at hnodup
  have hapart : other ∈ watched.system.popped batchSize →
      other ∉ (watched.system.state.probeIdleQueues batchSize).1.idle :=
    fun hpopped hkept => hnodup.2.2 other hpopped other hkept rfl
  have hmem : other ∈ watched.system.state.idle ↔ other ∈ watched.system.popped batchSize ∨
      other ∈ (watched.system.state.probeIdleQueues batchSize).1.idle := by
    conv_lhs => rw [hidle, List.mem_append]
  rw [Finset.mem_sdiff, h.left, hset, Finset.mem_sdiff, List.mem_toFinset, hmem]
  tauto

theorem transition_left (h : watched.Clear) (hclear : watched.restsClear action = true)
    (hstep : Transition batchSize watched.system action system') {other : String} :
    other ∈ watched.leftAfter batchSize action ↔
      other ∈ system'.state.idle ∧ other ∉ system'.state.idleSet := by
  cases hstep with
  | @seed queues =>
    rw [restsClear, decide_eq_true_eq] at hclear
    have hrests := fun queue hqueue => h.notMem_left.mp (hclear queue hqueue)
    exact h.left.trans (SchedulerState.seedIdleQueues_left hrests).symm
  | schedule => exact schedule_left h rfl
  | @probeNext queue rest hprobing =>
    simp only [leftAfter, hprobing]
    exact schedule_left h rfl
  | send | start | fire => exact h.left
  | finish => exact finish_left h hclear
  | probe => exact probe_left h

theorem step_eq (h : watched.step batchSize action = some (watched', event)) :
    Transition batchSize watched.system action watched'.system ∧
      watched'.leftBehind = watched.leftAfter batchSize action := by
  obtain ⟨next, hnext, heq⟩ := Option.map_eq_some_iff.mp h
  obtain ⟨rfl, -⟩ := Prod.mk.inj heq
  exact ⟨step_transition hnext, rfl⟩

theorem step_clear (h : watched.Clear) (hclear : watched.restsClear action = true)
    (hstep : watched.step batchSize action = some (watched', event)) : watched'.Clear := by
  obtain ⟨htransition, hleft⟩ := step_eq hstep
  refine ⟨(transition_nodup h htransition).mpr hclear, transition_probed h.probed htransition,
    transition_listed h.listed htransition, ?_⟩
  rw [hleft]
  exact transition_left h hclear htransition

/-- Every run of the scheduler can be watched. -/
theorem reachable_watched {system : Scheduling}
    (h : Runs.Reachable (Scheduling.step batchSize) (fun _ _ => True) Scheduling.initial system) :
    ∃ leftBehind, Runs.Reachable (step batchSize) (fun _ _ => True) initial ⟨system, leftBehind⟩ := by
  obtain ⟨events, hrun⟩ := h
  induction hrun with
  | refl => exact ⟨∅, [], .refl _⟩
  | @step system system' events action event _ _ hstep ih =>
    obtain ⟨leftBehind, sofar, hwatched⟩ := ih
    refine ⟨Watched.leftAfter batchSize ⟨system, leftBehind⟩ action, sofar ++ [()],
      hwatched.step trivial (a := action) ?_⟩
    rw [step, hstep]
    rfl

end Watched

/-- Every run of the scheduler can be watched, and as long as no queue rests that was left behind,
the idle list has no name twice and is no longer than the number of queues: the names left behind
are those of the list that the set has lost. The first queue left behind that rests is on the list
twice. -/
theorem idle_list_bounded (batchSize : Nat) :
    (∀ system, Runs.Reachable (step batchSize) (fun _ _ => True) initial system →
      ∃ leftBehind, Runs.Reachable (Watched.step batchSize) (fun _ _ => True) .initial
        ⟨system, leftBehind⟩) ∧
    ∀ watched, Runs.Reachable (Watched.step batchSize)
        (fun watched action => watched.restsClear action = true) .initial watched →
      watched.system.state.idle.Nodup ∧
      watched.system.state.idle.length ≤ watched.system.known.card ∧
      (∀ queue, queue ∈ watched.leftBehind ↔
        queue ∈ watched.system.state.idle ∧ queue ∉ watched.system.state.idleSet) ∧
      ∀ action watched' event, watched.step batchSize action = some (watched', event) →
        (watched'.system.state.idle.Nodup ↔ watched.restsClear action = true) := by
  refine ⟨fun system h => Watched.reachable_watched h, fun watched h => ?_⟩
  obtain ⟨events, hrun⟩ := h
  have hinv := hrun.invariant Watched.Clear Watched.initial_clear
    fun hinv hclear hstep => Watched.step_clear hinv hclear hstep
  refine ⟨hinv.nodup, ?_, fun queue => hinv.left, fun action watched' event hstep =>
    Watched.transition_nodup hinv (Watched.step_eq hstep).1⟩
  calc watched.system.state.idle.length
      = watched.system.state.idle.toFinset.card := (List.toFinset_card_of_nodup hinv.nodup).symm
    _ ≤ watched.system.known.card := Finset.card_le_card fun queue hqueue =>
        hinv.listed.idle queue (List.mem_toFinset.mp hqueue)

/-- The queue is left behind, a probe takes it off the list before its pass ends, and it is left
behind again. -/
def poppedRun : Option Watched :=
  (Runs.exec (Watched.step 1) (fun watched action => watched.restsClear action = true) .initial
    [.seed ["mail"], .schedule "mail", .send 0, .start, .probe, .finish "mail" .idle,
      .schedule "mail"]).map Prod.fst

/-- The same without the probe. -/
def doubledRun : Option Scheduling :=
  (Runs.exec (step 1) (fun system action => system.orderly action = true) initial
    [.seed ["mail"], .schedule "mail", .send 0, .start, .finish "mail" .idle]).map Prod.fst

theorem poppedRun_isSome : poppedRun.isSome := by decide +kernel

theorem doubledRun_isSome : doubledRun.isSome := by decide +kernel

theorem idle_list_bounded_popped :
    (poppedRun.get poppedRun_isSome).system.state.idle = ["mail"] ∧
    (poppedRun.get poppedRun_isSome).leftBehind = {"mail"} ∧
    (poppedRun.get poppedRun_isSome).system.state.idle.length ≤
      (poppedRun.get poppedRun_isSome).system.known.card := by
  have hreach : Runs.Reachable (Watched.step 1)
      (fun watched action => watched.restsClear action = true) .initial (poppedRun.get poppedRun_isSome) :=
    Runs.Reachable.of_exec _ (Option.some_get _).symm
  exact ⟨by decide +kernel, by decide +kernel, ((idle_list_bounded 1).2 _ hreach).2.1⟩

/-- One queue that was seeded and woken once is on the list twice when its pass has found
nothing. -/
theorem idle_list_doubled :
    Runs.Reachable (step 1) (fun system action => system.orderly action = true) initial
      (doubledRun.get doubledRun_isSome) ∧
    (doubledRun.get doubledRun_isSome).state.idle = ["mail", "mail"] ∧
    (doubledRun.get doubledRun_isSome).known.card = 1 ∧
    ¬(doubledRun.get doubledRun_isSome).state.idle.Nodup :=
  ⟨Runs.Reachable.of_exec _ (Option.some_get _).symm, by decide +kernel, by decide +kernel,
    by decide +kernel⟩

end Scheduling

end Maqistor
