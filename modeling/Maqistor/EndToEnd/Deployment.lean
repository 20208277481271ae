import Maqistor.EndToEnd.Fleet
import Maqistor.Store.Handing
import Maqistor.Store.Recorded

/-! The whole system: the store, the engine's hold on the jobs that it has claimed, the server with
its listener, and the workers. The server may crash at any time and start again; the workers of an
earlier start run on until they notice. Dispatch ids come from claims, so no handler of any start is
called twice for one.

The frames of a connection are taken to arrive whole and in the order in which they were written,
which `Sdk.Wire.handled_in_order` gives for a worker whose pending read is never dropped with bytes
that it has taken. The ids that a claim draws are taken to be distinct and to differ from all that
were drawn before. -/

namespace Maqistor

open Sdk

variable {P : Type}

/-- The store, the running server and the earlier ones, the jobs that the engine has claimed and not
dispatched yet, and all jobs that claims have returned. -/
structure Deployment (P : Type) where
  system : System
  fleet : Fleet P
  past : List (Fleet P)
  held : List Job
  handed : List Job

inductive Deployment.Action (P : Type) where
  /-- Any call of the store but a completion, and the crash of the server. -/
  | store (action : Maqistor.Action)
  /-- Some tasks of the listener have their results committed together, and learn whether their job
  is pending again. -/
  | complete (env : Env) (picks : List (Nat × Bool))
  /-- A step of the running server or of its workers. -/
  | fleet (action : Fleet.Action P)
  /-- The engine dispatches a job that it has claimed. -/
  | dispatch (permit job : Nat)
  /-- The engine gives up a job that it has claimed. -/
  | discard (job : Nat)
  /-- A step of a worker of an earlier start. -/
  | stray (start : Nat) (action : Fleet.Action P)

/-- The completion that `complete_worker_result` submits. -/
def WorkerResult.completion (result : WorkerResult) : PendingCompletion × Submitter :=
  (⟨result.jobId, result.dispatchId, result.outcome⟩, .completeWorkerResult)

/-- A step that the engine does not take part in. -/
def Fleet.Action.aside : Fleet.Action P → Bool
  | .listener (.server (.dispatch _ _)) => false
  | .listener (.complete _ _) => false
  | _ => true

/-- The listener's tasks call the store. -/
def Fleet.complete (codec : Codec) (allowed : List String) :
    List (Nat × Bool) → Fleet P → Option (Fleet P × List WorkerResult)
  | [], fleet => some (fleet, [])
  | (task, pending) :: rest, fleet => do
    let (_, result) ← fleet.listening.tasks[task]?
    let (fleet, _) ← fleet.step codec allowed (.listener (.complete task pending))
    let (fleet, results) ← complete codec allowed rest fleet
    some (fleet, result :: results)

namespace Deployment

def initial : Deployment P := ⟨.initial, .initial, [], [], []⟩

/-- The running server and the earlier ones. -/
def fleets (state : Deployment P) : List (Fleet P) := state.fleet :: state.past

/-- The store after a step; the engine gets the jobs that claims return. -/
def answer (state : Deployment P) (system : System) (replied : Replied) : Deployment P :=
  { state with
    system := system
    held := state.held ++ handedJobs replied
    handed := state.handed ++ handedJobs replied }

/-- The server starts anew, and its workers are left to themselves. -/
def restart (state : Deployment P) : Deployment P :=
  { state with fleet := .initial, past := state.fleet :: state.past, held := [] }

def step (codec : Codec) (allowed : List String) (state : Deployment P) :
    Action P → Option (Deployment P × Replied)
  | .store (.complete _ _) => none
  | .store .crash => do
    let (system, replied) ← state.system.step .crash
    some ((state.answer system replied).restart, replied)
  | .store action => do
    let (system, replied) ← state.system.step action
    some (state.answer system replied, replied)
  | .complete env picks => do
    let (fleet, results) ← state.fleet.complete codec allowed picks
    let (system, replied) ← state.system.step (.complete env (results.map WorkerResult.completion))
    some ({ state with fleet := fleet }.answer system replied, replied)
  | .fleet action =>
    if action.aside = true ∧ state.system.phase = .serving then do
      let (fleet, _) ← state.fleet.step codec allowed action
      some ({ state with fleet := fleet }, [])
    else none
  | .dispatch permit index => do
    let job ← state.held[index]?
    let (fleet, _) ← state.fleet.step codec allowed (.listener (.server (.dispatch permit job)))
    some ({ state with fleet := fleet, held := state.held.eraseIdx index }, [])
  | .discard index => some ({ state with held := state.held.eraseIdx index }, [])
  | .stray start action =>
    if action.ofWorker then do
      let fleet ← state.past[start]?
      let (fleet, _) ← fleet.step codec allowed action
      some ({ state with past := state.past.set start fleet }, [])
    else none

end Deployment

/-! ### The steps of a start of the server -/

namespace Fleet

section Step

variable {codec : Codec} {allowed : List String} {fleet fleet' : Fleet P} {action : Action P}

theorem ofWorker_job (h : action.ofWorker = true) : action.job? = none := by
  cases action with
  | listener action => cases h
  | _ => rfl

theorem Move.handed (h : Move codec allowed fleet action fleet') :
    fleet'.handed = fleet.handed ++ action.job?.toList := by
  cases h with
  | listener halone hstep => rfl
  | worker hside hpeer hlink hstep => rw [ofWorker_job hside, Option.toList_none, List.append_nil]
  | connect | toServer => exact (List.append_nil _).symm

/-- A step keeps what is known of a start of the server, if its job has a dispatch id of its own. -/
theorem step_keeps {event : Unit} (h : fleet.Wired codec ∧ fleet.Traceable)
    (hfresh : fleet.freshDispatch action = true)
    (hstep : fleet.step codec allowed action = some (fleet', event)) :
    (fleet'.Wired codec ∧ fleet'.Traceable) ∧ fleet'.handed = fleet.handed ++ action.job?.toList :=
  ⟨⟨(step_move hstep).wired h.1 hfresh, (step_move hstep).traceable h.1 h.2⟩, (step_move hstep).handed⟩

theorem freshDispatch_none (h : action.job? = none) : fleet.freshDispatch action = true := by
  cases action with
  | listener action =>
    have hnone : action.job? = none := h
    rw [freshDispatch, hnone]
    rfl
  | _ => rfl

theorem aside_job (h : action.aside = true) : action.job? = none := by
  unfold Action.aside at h
  split at h
  · cases h
  · cases h
  · next hdispatch hcomplete =>
    cases action with
    | listener action =>
      cases action with
      | server action =>
        cases action with
        | dispatch permit job => exact absurd rfl (hdispatch permit job)
        | _ => rfl
      | _ => rfl
    | _ => rfl

theorem Move.calls (h : Move codec allowed fleet action fleet') :
    fleet.listening.calls ⊆ fleet'.listening.calls := by
  have hlistens : ∀ {listenerAction : Listening.Action} {listening : Listening},
      Listening.Move codec allowed registryCapacity fleet.listening listenerAction listening →
      fleet.listening.calls ⊆ listening.calls := fun hstep => by
    cases hstep with
    | complete htask => exact List.subset_append_left _ _
    | @receive event rest hunread => cases event <;> exact List.Subset.refl _
    | _ => exact List.Subset.refl _
  cases h with
  | connect hstep => exact hlistens hstep
  | listener halone hstep => exact hlistens hstep
  | worker hside hpeer hlink hstep => exact List.Subset.refl _
  | toServer hpeer hnext hstep => exact hlistens hstep

/-- The calls of the tasks that are picked. -/
theorem complete_calls {picks : List (Nat × Bool)} {results : List WorkerResult}
    (hcomplete : fleet.complete codec allowed picks = some (fleet', results)) :
    fleet'.listening.calls = fleet.listening.calls ++ results := by
  induction picks generalizing fleet results with
  | nil =>
    cases hcomplete
    exact (List.append_nil _).symm
  | cons pick rest ih =>
    obtain ⟨task, pending⟩ := pick
    obtain ⟨⟨queueName, result⟩, htask, hcomplete⟩ := Option.bind_eq_some_iff.mp hcomplete
    obtain ⟨⟨next, event⟩, hstep, hcomplete⟩ := Option.bind_eq_some_iff.mp hcomplete
    obtain ⟨⟨last, more⟩, hrest, heq⟩ := Option.bind_eq_some_iff.mp hcomplete
    cases heq
    cases step_move hstep with
    | worker hside hpeer hlink hmove => cases hside
    | listener halone hmove =>
      cases hmove with
      | complete hpicked =>
        obtain rfl := (Prod.mk.inj (Option.some.inj (hpicked.symm.trans htask))).2
        rw [ih hrest, List.append_assoc, List.singleton_append]

/-- The tasks that call the store leave the rest of what is known as it is. -/
theorem complete_keeps {picks : List (Nat × Bool)} {results : List WorkerResult}
    (h : fleet.Wired codec ∧ fleet.Traceable)
    (hcomplete : fleet.complete codec allowed picks = some (fleet', results)) :
    (fleet'.Wired codec ∧ fleet'.Traceable) ∧ fleet'.handed = fleet.handed := by
  induction picks generalizing fleet results with
  | nil =>
    cases hcomplete
    exact ⟨h, rfl⟩
  | cons pick rest ih =>
    obtain ⟨task, pending⟩ := pick
    obtain ⟨⟨queueName, result⟩, htask, hcomplete⟩ := Option.bind_eq_some_iff.mp hcomplete
    obtain ⟨⟨next, event⟩, hstep, hcomplete⟩ := Option.bind_eq_some_iff.mp hcomplete
    obtain ⟨⟨last, more⟩, hrest, heq⟩ := Option.bind_eq_some_iff.mp hcomplete
    cases heq
    obtain ⟨hnext, hhanded⟩ := step_keeps h (freshDispatch_none rfl) hstep
    obtain ⟨hlast, hsame⟩ := ih hnext hrest
    exact ⟨hlast, hsame.trans (hhanded.trans (List.append_nil _))⟩

end Step

end Fleet

/-! ### The dispatch ids -/

/-- The dispatch ids of some jobs. -/
def dispatchIds (jobs : List Job) : List String := jobs.filterMap Job.dispatchId

theorem dispatchIds_of_handsOut {claimed : List IngestClaimed} {jobs : List Job}
    (h : List.Forall₂ HandsOut claimed jobs) :
    dispatchIds jobs = claimed.map IngestClaimed.dispatchId := by
  induction h with
  | nil => rfl
  | cons hhands _ ih => rw [dispatchIds, List.filterMap_cons_some hhands.2, ← dispatchIds, ih, List.map_cons]

namespace Deployment

/-- The jobs that each start of the server has dispatched. -/
def dispatched (state : Deployment P) : List (List Job) := state.fleets.map Fleet.handed

theorem dispatched_eq (state : Deployment P) :
    state.dispatched = state.fleet.handed :: state.past.map Fleet.handed := rfl

/-- The dispatch ids that are drawn: a claim awaits its dispatch, the engine holds the job, or a
start of the server has dispatched it. -/
def drawn (state : Deployment P) : List String :=
  (collect Stage.awaiting state.system.pool).map IngestClaimed.dispatchId ++
    (dispatchIds state.held ++ state.dispatched.flatMap dispatchIds)

structure Sound (codec : Codec) (state : Deployment P) : Prop where
  formed : state.system.store.WellFormed
  keyed : Keyed state.system
  fleets : ∀ fleet ∈ state.fleets, fleet.Wired codec ∧ fleet.Traceable
  distinct : state.drawn.Nodup
  issued : state.drawn ⊆ state.system.issued.map Prod.snd
  held : state.held ⊆ state.handed
  jobs : ∀ jobs ∈ state.dispatched, jobs ⊆ state.handed

section Step

variable {codec : Codec} {allowed : List String} {state state' : Deployment P} {action : Action P}

theorem initial_sound (codec : Codec) : (initial : Deployment P).Sound codec where
  formed := initial_wellFormed
  keyed entry hentry := by cases hentry
  fleets fleet hfleet := by
    rw [List.mem_singleton.mp hfleet]
    exact ⟨Fleet.initial_wired codec, List.nil_subperm⟩
  distinct := List.nodup_nil
  issued := List.nil_subset _
  held := List.nil_subset _
  jobs jobs hjobs := by
    rw [List.mem_singleton.mp hjobs]
    exact List.nil_subset _

theorem Sound.answer (h : state.Sound codec) {maqistorAction : Maqistor.Action} {system : System}
    {replied : Replied} (hstep : state.system.step maqistorAction = some (system, replied)) :
    (state.answer system replied).Sound codec := by
  obtain ⟨hhands, hkeyed⟩ := step_hands h.formed h.keyed hstep
  have hheld : state.held ++ handedJobs replied ⊆ state.handed ++ handedJobs replied :=
    List.append_subset.mpr ⟨List.subset_append_of_subset_left _ h.held, List.subset_append_right _ _⟩
  have hjobs : ∀ jobs ∈ state.dispatched, jobs ⊆ state.handed ++ handedJobs replied :=
    fun jobs hmem => List.subset_append_of_subset_left _ (h.jobs jobs hmem)
  suffices hdrawn : (state.answer system replied).drawn.Nodup ∧
      (state.answer system replied).drawn ⊆ system.issued.map Prod.snd from
    ⟨step_wellFormed h.formed hstep, hkeyed, h.fleets, hdrawn.1, hdrawn.2, hheld, hjobs⟩
  cases hhands with
  | keep hawaiting hissued hreplied =>
    have hsub : (state.answer system replied).drawn.Sublist state.drawn := by
      simp only [drawn, Deployment.answer, hreplied, List.append_nil]
      exact (hawaiting.map _).append_right _
    rw [hissued]
    exact ⟨h.distinct.sublist hsub, List.Subset.trans hsub.subset h.issued⟩
  | claim claimed hfresh hawaiting hissued hreplied =>
    have heq : (state.answer system replied).drawn =
        claimed.map IngestClaimed.dispatchId ++ state.drawn := by
      simp only [drawn, Deployment.answer, hreplied, List.append_nil, hawaiting, List.map_append,
        List.append_assoc]
      rfl
    rw [heq, hissued, List.map_append, List.map_map]
    constructor
    · refine List.nodup_append.mpr ⟨hfresh.1, h.distinct, ?_⟩
      rintro dispatchId hnew other hold rfl
      obtain ⟨entry, hentry, rfl⟩ := List.mem_map.mp hnew
      exact hfresh.2 entry hentry (h.issued hold)
    · exact List.append_subset.mpr ⟨List.subset_append_left _ _,
        List.subset_append_of_subset_right _ h.issued⟩
  | hand claimed hawaiting hissued hreplied =>
    have hperm : (state.answer system replied).drawn.Perm state.drawn := by
      refine List.perm_iff_count.mpr fun dispatchId => ?_
      have hcount := (hawaiting.map IngestClaimed.dispatchId).count_eq dispatchId
      rw [List.map_append, List.count_append, ← dispatchIds_of_handsOut hreplied] at hcount
      have hsame : (state.answer system replied).dispatched = state.dispatched := rfl
      simp only [drawn, hsame, List.count_append]
      simp only [Deployment.answer, dispatchIds, List.filterMap_append, List.count_append] at hcount ⊢
      omega
    rw [hissued]
    exact ⟨hperm.nodup_iff.mpr h.distinct, List.Subset.trans hperm.subset h.issued⟩

/-- The server starts anew: what the engine held is lost, and its dispatch ids with it. -/
theorem Sound.restart (h : state.Sound codec) : state.restart.Sound codec := by
  have hsub : state.restart.drawn.Sublist state.drawn :=
    (List.Sublist.refl _).append (List.sublist_append_right _ _)
  refine ⟨h.formed, h.keyed, fun fleet hfleet => ?_, h.distinct.sublist hsub,
    List.Subset.trans hsub.subset h.issued, List.nil_subset _, fun jobs hjobs => ?_⟩
  · rcases List.mem_cons.mp hfleet with rfl | hold
    · exact ⟨Fleet.initial_wired codec, List.nil_subperm⟩
    · exact h.fleets fleet hold
  · rcases List.mem_cons.mp hjobs with rfl | hold
    · exact List.nil_subset _
    · exact h.jobs jobs hold

/-- Starts of the server that step, without a dispatch. -/
theorem Sound.of_same (h : state.Sound codec) (hsystem : state'.system = state.system)
    (hheld : state'.held.Sublist state.held) (hhanded : state'.handed = state.handed)
    (hfleets : ∀ fleet ∈ state'.fleets, fleet.Wired codec ∧ fleet.Traceable)
    (hdispatched : state'.dispatched = state.dispatched) : state'.Sound codec := by
  have hsub : state'.drawn.Sublist state.drawn := by
    rw [drawn, hsystem, hdispatched]
    exact ((hheld.filterMap _).append_right _).append_left _
  refine ⟨hsystem ▸ h.formed, hsystem ▸ h.keyed, hfleets, h.distinct.sublist hsub, ?_, ?_, ?_⟩
  · rw [hsystem]
    exact List.Subset.trans hsub.subset h.issued
  · rw [hhanded]
    exact List.Subset.trans hheld.subset h.held
  · rw [hhanded, hdispatched]
    exact h.jobs

/-- The running server steps, without a dispatch. -/
theorem Sound.steps (h : state.Sound codec) {fleet : Fleet P}
    (hfleet : fleet.Wired codec ∧ fleet.Traceable) (hhanded : fleet.handed = state.fleet.handed) :
    Sound codec { state with fleet := fleet } := by
  refine h.of_same rfl (List.Sublist.refl _) rfl (fun other hother => ?_) ?_
  · rcases List.mem_cons.mp hother with rfl | hpast
    · exact hfleet
    · exact h.fleets other (List.mem_cons_of_mem _ hpast)
  · exact congrArg (· :: state.past.map Fleet.handed) hhanded

theorem Sound.strays (h : state.Sound codec) {start : Nat} {fleet fleet' : Fleet P}
    (hstart : state.past[start]? = some fleet) (hfleet : fleet'.Wired codec ∧ fleet'.Traceable)
    (hhanded : fleet'.handed = fleet.handed) :
    Sound codec { state with past := state.past.set start fleet' } := by
  refine h.of_same rfl (List.Sublist.refl _) rfl (fun other hother => ?_) ?_
  · rcases List.mem_cons.mp hother with rfl | hpast
    · exact h.fleets _ List.mem_cons_self
    · rcases List.mem_or_eq_of_mem_set hpast with hold | rfl
      · exact h.fleets other (List.mem_cons_of_mem _ hold)
      · exact hfleet
  · obtain ⟨before, after, hpast, hset⟩ := Lists.split_set hstart
    simp only [dispatched_eq, hset, List.map_append, List.map_cons, hhanded]
    rw [hpast, List.map_append, List.map_cons]

/-- A job that the engine holds has a dispatch id that no start has dispatched. -/
theorem Sound.fresh (h : state.Sound codec) {index permit : Nat} {job : Job}
    (hjob : state.held[index]? = some job) :
    state.fleet.freshDispatch (.listener (.server (.dispatch permit job))) = true := by
  have hdistinct := (List.nodup_append.mp (List.nodup_append.mp h.distinct).2.1).2.2
  cases hid : job.dispatchId with
  | none => simp [Fleet.freshDispatch, Listening.Action.job?, Server.Action.job?, hid]
  | some dispatchId =>
    simp only [Fleet.freshDispatch, Listening.Action.job?, Server.Action.job?, Option.all_some, hid,
      List.all_eq_true]
    refine fun other hother => decide_eq_true fun hsame => ?_
    refine hdistinct dispatchId ?_ dispatchId ?_ rfl
    · exact List.mem_filterMap.mpr ⟨job, List.mem_of_getElem? hjob, hid⟩
    · exact List.mem_flatMap.mpr ⟨state.fleet.handed, List.mem_cons_self,
        List.mem_filterMap.mpr ⟨other, hother, hsame⟩⟩

/-- The engine dispatches a job that it holds. -/
theorem Sound.dispatches (h : state.Sound codec) {index : Nat} {job : Job} {fleet : Fleet P}
    (hjob : state.held[index]? = some job) (hfleet : fleet.Wired codec ∧ fleet.Traceable)
    (hhanded : fleet.handed = state.fleet.handed ++ [job]) :
    Sound codec { state with fleet := fleet, held := state.held.eraseIdx index } := by
  have hperm : (drawn { state with fleet := fleet, held := state.held.eraseIdx index }).Perm
      state.drawn := by
    refine List.perm_iff_count.mpr fun dispatchId => ?_
    have hcount := ((Lists.perm_eraseIdx hjob).filterMap Job.dispatchId).count_eq dispatchId
    rw [← List.singleton_append, List.filterMap_append, List.count_append] at hcount
    simp only [drawn, dispatched_eq, List.flatMap_cons, hhanded, dispatchIds, List.filterMap_append,
      List.count_append]
    omega
  refine ⟨h.formed, h.keyed, fun other hother => ?_, hperm.nodup_iff.mpr h.distinct,
    List.Subset.trans hperm.subset h.issued,
    List.Subset.trans (List.eraseIdx_sublist _ _).subset h.held, fun jobs hjobs => ?_⟩
  · rcases List.mem_cons.mp hother with rfl | hpast
    · exact hfleet
    · exact h.fleets other (List.mem_cons_of_mem _ hpast)
  · rcases List.mem_cons.mp hjobs with rfl | hpast
    · rw [hhanded]
      exact List.append_subset.mpr ⟨h.jobs _ List.mem_cons_self,
        List.cons_subset.mpr ⟨h.held (List.mem_of_getElem? hjob), List.nil_subset _⟩⟩
    · exact h.jobs jobs (List.mem_cons_of_mem _ hpast)

theorem step_sound {replied : Replied} (h : state.Sound codec)
    (hstep : state.step codec allowed action = some (state', replied)) : state'.Sound codec := by
  cases action with
  | store action =>
    cases action with
    | complete env batch => cases hstep
    | _ =>
      obtain ⟨⟨system, reply⟩, hsystem, heq⟩ := Option.bind_eq_some_iff.mp hstep
      cases heq
      first
        | exact h.answer hsystem
        | exact (h.answer hsystem).restart
  | complete env picks =>
    obtain ⟨⟨fleet, results⟩, hcomplete, hstep⟩ := Option.bind_eq_some_iff.mp hstep
    obtain ⟨⟨system, reply⟩, hsystem, heq⟩ := Option.bind_eq_some_iff.mp hstep
    cases heq
    obtain ⟨hfleet, hhanded⟩ := Fleet.complete_keeps (h.fleets _ List.mem_cons_self) hcomplete
    exact (h.steps hfleet hhanded).answer hsystem
  | fleet action =>
    simp only [step] at hstep
    split at hstep
    · next hok =>
      obtain ⟨⟨fleet, event⟩, hfleet, heq⟩ := Option.bind_eq_some_iff.mp hstep
      cases heq
      have hnone := Fleet.aside_job hok.1
      obtain ⟨hkept, hhanded⟩ := Fleet.step_keeps (h.fleets _ List.mem_cons_self)
        (Fleet.freshDispatch_none hnone) hfleet
      rw [hnone, Option.toList_none, List.append_nil] at hhanded
      exact h.steps hkept hhanded
    · cases hstep
  | dispatch permit index =>
    obtain ⟨job, hjob, hstep⟩ := Option.bind_eq_some_iff.mp hstep
    obtain ⟨⟨fleet, event⟩, hfleet, heq⟩ := Option.bind_eq_some_iff.mp hstep
    cases heq
    obtain ⟨hkept, hhanded⟩ := Fleet.step_keeps (h.fleets _ List.mem_cons_self) (h.fresh hjob) hfleet
    exact h.dispatches hjob hkept hhanded
  | discard index =>
    cases hstep
    exact h.of_same rfl (List.eraseIdx_sublist _ _) rfl h.fleets rfl
  | stray start action =>
    simp only [step] at hstep
    split at hstep
    · next hworker =>
      obtain ⟨fleet, hstart, hstep⟩ := Option.bind_eq_some_iff.mp hstep
      obtain ⟨⟨fleet', event⟩, hfleet, heq⟩ := Option.bind_eq_some_iff.mp hstep
      cases heq
      have hnone := Fleet.ofWorker_job hworker
      obtain ⟨hkept, hhanded⟩ := Fleet.step_keeps
        (h.fleets fleet (List.mem_cons_of_mem _ (List.mem_of_getElem? hstart)))
        (Fleet.freshDispatch_none hnone) hfleet
      rw [hnone, Option.toList_none, List.append_nil] at hhanded
      exact h.strays hstart hkept hhanded
    · cases hstep

/-- The completions that the store was called with under any start of the server. -/
def submitted (state : Deployment P) : List PendingCompletion :=
  state.fleets.flatMap fun fleet => fleet.listening.calls.map fun result => result.completion.1

theorem submitted_steps {fleet : Fleet P} (hcalls : state.fleet.listening.calls ⊆ fleet.listening.calls) :
    state.submitted ⊆ submitted { state with fleet := fleet } := by
  intro request hrequest
  obtain ⟨other, hother, hmem⟩ := List.mem_flatMap.mp hrequest
  rcases List.mem_cons.mp hother with rfl | hpast
  · exact List.mem_flatMap.mpr ⟨fleet, List.mem_cons_self, List.map_subset _ hcalls hmem⟩
  · exact List.mem_flatMap.mpr ⟨other, List.mem_cons_of_mem _ hpast, hmem⟩

theorem submitted_strays {start : Nat} {fleet fleet' : Fleet P}
    (hstart : state.past[start]? = some fleet)
    (hcalls : fleet.listening.calls ⊆ fleet'.listening.calls) :
    state.submitted ⊆ submitted { state with past := state.past.set start fleet' } := by
  obtain ⟨before, after, hpast, hset⟩ := Lists.split_set hstart
  intro request hrequest
  obtain ⟨other, hother, hmem⟩ := List.mem_flatMap.mp hrequest
  refine List.mem_flatMap.mpr ?_
  simp only [Deployment.fleets, hpast, List.mem_cons, List.mem_append] at hother
  simp only [Deployment.fleets, hset, List.mem_cons, List.mem_append]
  rcases hother with rfl | hbefore | rfl | hafter
  · exact ⟨_, Or.inl rfl, hmem⟩
  · exact ⟨other, Or.inr (Or.inl hbefore), hmem⟩
  · exact ⟨fleet', Or.inr (Or.inr (Or.inl rfl)), List.map_subset _ hcalls hmem⟩
  · exact ⟨other, Or.inr (Or.inr (Or.inr hafter)), hmem⟩

/-- Every attempt in the store records what tasks of the listener have called it with. -/
theorem step_recorded {replied : Replied} (h : state.Sound codec)
    (hrecords : state.system.store.Records state.submitted)
    (hstep : state.step codec allowed action = some (state', replied)) :
    state'.system.store.Records state'.submitted := by
  cases action with
  | store action =>
    cases action with
    | complete env batch => cases hstep
    | _ =>
      obtain ⟨⟨system, reply⟩, hsystem, heq⟩ := Option.bind_eq_some_iff.mp hstep
      cases heq
      have hkept : system.store.Records (state.submitted ++ []) :=
        step_records hrecords h.formed hsystem
      rwa [List.append_nil] at hkept
  | complete env picks =>
    obtain ⟨⟨fleet, results⟩, hcomplete, hstep⟩ := Option.bind_eq_some_iff.mp hstep
    obtain ⟨⟨system, reply⟩, hsystem, heq⟩ := Option.bind_eq_some_iff.mp hstep
    cases heq
    have hcalls := Fleet.complete_calls hcomplete
    refine (step_records hrecords h.formed hsystem).mono (List.append_subset.mpr ⟨?_, ?_⟩)
    · refine submitted_steps (?_ : state.fleet.listening.calls ⊆ fleet.listening.calls)
      rw [hcalls]
      exact List.subset_append_left _ _
    · intro request hrequest
      refine List.mem_flatMap.mpr ⟨fleet, List.mem_cons_self, ?_⟩
      rw [hcalls, List.map_append]
      refine List.mem_append_right _ ?_
      rwa [Maqistor.Action.submitted, List.map_map] at hrequest
  | fleet action =>
    simp only [step] at hstep
    split at hstep
    · obtain ⟨⟨fleet, event⟩, hfleet, heq⟩ := Option.bind_eq_some_iff.mp hstep
      cases heq
      exact hrecords.mono (submitted_steps (Fleet.step_move hfleet).calls)
    · cases hstep
  | dispatch permit index =>
    obtain ⟨job, hjob, hstep⟩ := Option.bind_eq_some_iff.mp hstep
    obtain ⟨⟨fleet, event⟩, hfleet, heq⟩ := Option.bind_eq_some_iff.mp hstep
    cases heq
    exact hrecords.mono (submitted_steps (Fleet.step_move hfleet).calls)
  | discard index =>
    cases hstep
    exact hrecords
  | stray start action =>
    simp only [step] at hstep
    split at hstep
    · obtain ⟨fleet, hstart, hstep⟩ := Option.bind_eq_some_iff.mp hstep
      obtain ⟨⟨fleet', event⟩, hfleet, heq⟩ := Option.bind_eq_some_iff.mp hstep
      cases heq
      exact hrecords.mono (submitted_strays hstart (Fleet.step_move hfleet).calls)
    · cases hstep

theorem reachable_sound {admits : Deployment P → Action P → Prop}
    (h : Runs.Reachable (step codec allowed) admits initial state) :
    state.Sound codec ∧ state.system.store.Records state.submitted := by
  obtain ⟨events, hrun⟩ := h
  refine hrun.invariant (fun state => state.Sound codec ∧ state.system.store.Records state.submitted)
    ⟨initial_sound codec, fun row hrow => by cases hrow⟩ fun hinv _ hstep => ?_
  exact ⟨step_sound hinv.1 hstep, step_recorded hinv.1 hinv.2 hstep⟩

/-- Dispatch ids of jobs that each start has dispatched, once under each start, are distinct over
all. -/
theorem Sound.nodup_flatMap (h : state.Sound codec) {ids : Fleet P → List String}
    (hnodup : ∀ fleet ∈ state.fleets, (ids fleet).Nodup)
    (hids : ∀ fleet ∈ state.fleets, ids fleet ⊆ dispatchIds fleet.handed) :
    (state.fleets.flatMap ids).Nodup := by
  have hdispatched := (List.nodup_append.mp (List.nodup_append.mp h.distinct).2.1).2.1
  have hapart := List.pairwise_map.mp (List.nodup_flatMap.mp hdispatched).2
  refine List.nodup_flatMap.mpr ⟨hnodup, hapart.imp_of_mem fun hfleet hother hdisjoint => ?_⟩
  exact fun dispatchId hmem hmem' => hdisjoint (hids _ hfleet hmem) (hids _ hother hmem')

end Step

/-- In every run of the whole system, through crashes and starts of the server: no two calls of
handlers, of whatever worker and under whatever start, are for one dispatch id, and every call is
for a job that a claim has returned, with what the payload of the job parses to. -/
theorem handlers_called_once (codec : Codec) (allowed : List String) (state : Deployment P)
    (h : Runs.Reachable (step codec allowed) (fun _ _ => True) initial state) :
    (state.fleets.flatMap Fleet.begun).Nodup ∧
    ∀ fleet ∈ state.fleets, ∀ peer ∈ fleet.peers, ∀ call ∈ peer.handling.begun,
      ∃ job ∈ state.handed, job.id = call.jobId ∧ job.dispatchId = some call.dispatchId ∧
        peer.config.parse job.payload = .ok call.payload := by
  have hsound := (reachable_sound h).1
  have hcalled : ∀ fleet ∈ state.fleets, ∀ peer ∈ fleet.peers, ∀ call ∈ peer.handling.begun,
      ∃ job ∈ fleet.handed, job.id = call.jobId ∧ job.dispatchId = some call.dispatchId ∧
        peer.config.parse job.payload = .ok call.payload := fun fleet hfleet peer hpeer call hcall => by
    have hwired := (hsound.fleets fleet hfleet).1
    exact (Fleet.call_handed (hwired.peers peer hpeer) hwired.assigned hcall).2
  refine ⟨hsound.nodup_flatMap (fun fleet hfleet => (hsound.fleets fleet hfleet).1.begun_nodup)
    fun fleet hfleet dispatchId hmem => ?_, fun fleet hfleet peer hpeer call hcall => ?_⟩
  · obtain ⟨peer, hpeer, hids⟩ := List.mem_flatMap.mp hmem
    obtain ⟨call, hcall, rfl⟩ := List.mem_map.mp hids
    obtain ⟨job, hjob, -, hid, -⟩ := hcalled fleet hfleet peer hpeer call hcall
    exact List.mem_filterMap.mpr ⟨job, hjob, hid⟩
  · obtain ⟨job, hjob, hrest⟩ := hcalled fleet hfleet peer hpeer call hcall
    exact ⟨job, hsound.jobs _ (List.mem_map_of_mem hfleet) hjob, hrest⟩

/-- A queue is written, a job is enqueued and claimed, and a worker connects, gets the job and calls
its handler. -/
def handledActions : List (Action (List UInt8)) :=
  (mailActions [⟨0, "mail", [1], none, 0, 0⟩] ++ [mailClaim "a" 1 1, .resume (.atTime 1) 0]).map .store ++
  [.fleet (.connect mailConfig), .fleet (.toServer 0), .fleet (.listener (.server (.register 0))),
    .fleet (.listener (.server (.announce 0))), .fleet (.listener (.server (.write 0 true))),
    .fleet (.listener (.server (.acknowledge 0))), .fleet (.listener (.send 0)), .fleet (.toWorker 0),
    .fleet (.listener (.server (.reserve Table.Choice.first [⟨"mail", 1⟩]))), .dispatch 0 0,
    .fleet (.listener (.server (.write 0 true))), .fleet (.toWorker 0),
    .fleet (.session 0 (.job 0 .parse)), .fleet (.session 0 (.job 0 .acquire))]

/-- The handler returns, its result reaches the store, and the server crashes. -/
def finishedActions : List (Action (List UInt8)) :=
  [.fleet (.session 0 (.job 0 (.complete (.ok [2])))), .fleet (.session 0 (.job 0 .release)),
    .fleet (.session 0 (.job 0 .snapshot)), .fleet (.session 0 (.job 0 .report)),
    .fleet (.session 0 (.write true)), .fleet (.toServer 0), .fleet (.listener (.send 0)),
    .fleet (.listener .receive), .fleet (.listener .receive), .complete (.atTime 2) [(0, false)],
    .store .crash]

def handledRun : Option (Deployment (List UInt8)) :=
  (Runs.exec (step (Codec.cbor []) ["mail"]) (fun _ _ => True) initial
    (handledActions ++ finishedActions)).map Prod.fst

theorem handledRun_isSome : handledRun.isSome := by decide +kernel

theorem handledRun_reachable : Runs.Reachable (step (Codec.cbor []) ["mail"]) (fun _ _ => True) initial
    (handledRun.get handledRun_isSome) :=
  Runs.Reachable.of_exec (handledActions ++ finishedActions) (Option.some_get _).symm

theorem handlers_called_once_mail :
    let state := handledRun.get handledRun_isSome
    state.fleets.flatMap Fleet.begun = ["a0"] ∧ (state.fleets.flatMap Fleet.begun).Nodup := by
  exact ⟨by decide +kernel, (handlers_called_once (Codec.cbor []) ["mail"] _ handledRun_reachable).1⟩

/-- In every such run the store is told at most one result for each dispatch id, and every result is
for a job that a claim has returned: a worker's handler was called for it and has returned this
result, or the payload of the job is not valid and the result says so. -/
theorem completions_handled (codec : Codec) (allowed : List String) (state : Deployment P)
    (h : Runs.Reachable (step codec allowed) (fun _ _ => True) initial state) :
    (state.fleets.flatMap fun fleet => fleet.listening.calls.map WorkerResult.dispatchId).Nodup ∧
    ∀ fleet ∈ state.fleets, ∀ result ∈ fleet.listening.calls, ∃ peer ∈ fleet.peers,
      ∃ job ∈ state.handed, peer.Handled job result := by
  have hsound := (reachable_sound h).1
  refine ⟨hsound.nodup_flatMap (fun fleet hfleet => ?_) fun fleet hfleet dispatchId hmem => ?_,
    fun fleet hfleet result hresult => ?_⟩
  · obtain ⟨hwired, htrace⟩ := hsound.fleets fleet hfleet
    exact hwired.calls_nodup htrace
  · obtain ⟨hwired, htrace⟩ := hsound.fleets fleet hfleet
    obtain ⟨result, hresult, rfl⟩ := List.mem_map.mp hmem
    obtain ⟨peer, -, job, hjob, -, hid, -⟩ := hwired.call_handled htrace hresult
    exact List.mem_filterMap.mpr ⟨job, hjob, hid⟩
  · obtain ⟨hwired, htrace⟩ := hsound.fleets fleet hfleet
    obtain ⟨peer, hpeer, job, hjob, hhandled⟩ := hwired.call_handled htrace hresult
    exact ⟨peer, hpeer, job, hsound.jobs _ (List.mem_map_of_mem hfleet) hjob, hhandled⟩

theorem completions_handled_mail :
    let state := handledRun.get handledRun_isSome
    (state.fleets.flatMap fun fleet => fleet.listening.calls) = [⟨1, "a0", .succeeded [2]⟩] ∧
    (state.fleets.flatMap fun fleet => fleet.listening.calls.map WorkerResult.dispatchId).Nodup := by
  exact ⟨by decide +kernel,
    (completions_handled (Codec.cbor []) ["mail"] _ handledRun_reachable).1⟩

/-- In every such run an attempt that is in the store is running, was given up by the store, or
records what a worker's handler has returned for the job of the attempt under its dispatch id (or
that the payload of the job is not valid). -/
theorem outcomes_are_from_handlers (codec : Codec) (allowed : List String) (state : Deployment P)
    (h : Runs.Reachable (step codec allowed) (fun _ _ => True) initial state) (row : Execution)
    (hrow : row ∈ state.system.store.results.executions) :
    row.status = .running ∨
    row.outcome? = some (.failed "abandoned") ∨ row.outcome? = some (.failed "lease expired") ∨
    ∃ fleet ∈ state.fleets, ∃ peer ∈ fleet.peers, ∃ job ∈ state.handed, ∃ result : WorkerResult,
      (result.jobId, result.dispatchId) = row.key ∧ row.outcome? = some result.outcome ∧
        peer.Handled job result := by
  obtain ⟨hsound, hrecords⟩ := reachable_sound h
  cases hrecords row hrow with
  | running hstatus => exact Or.inl hstatus
  | givenUp message hmessage houtcome =>
    rcases hmessage with rfl | rfl
    · exact Or.inr (Or.inl houtcome)
    · exact Or.inr (Or.inr (Or.inl houtcome))
  | completion request hsubmitted hkey houtcome =>
    obtain ⟨fleet, hfleet, hcalls⟩ := List.mem_flatMap.mp hsubmitted
    obtain ⟨result, hresult, rfl⟩ := List.mem_map.mp hcalls
    obtain ⟨hwired, htrace⟩ := hsound.fleets fleet hfleet
    obtain ⟨peer, hpeer, job, hjob, hhandled⟩ := hwired.call_handled htrace hresult
    exact Or.inr (Or.inr (Or.inr ⟨fleet, hfleet, peer, hpeer, job,
      hsound.jobs _ (List.mem_map_of_mem hfleet) hjob, result, hkey, houtcome, hhandled⟩))

/-- The row of the job in the concrete run. -/
def handledRow : Option Execution :=
  (handledRun.get handledRun_isSome).system.store.results.executions.head?

theorem handledRow_isSome : handledRow.isSome := by decide +kernel

theorem outcomes_are_from_handlers_mail :
    let state := handledRun.get handledRun_isSome
    let row := handledRow.get handledRow_isSome
    row.outcome? = some (.succeeded [2]) ∧
    ∃ fleet ∈ state.fleets, ∃ peer ∈ fleet.peers, ∃ job ∈ state.handed, ∃ result : WorkerResult,
      (result.jobId, result.dispatchId) = row.key ∧ row.outcome? = some result.outcome ∧
        peer.Handled job result := by
  have hmem : handledRow.get handledRow_isSome ∈
      (handledRun.get handledRun_isSome).system.store.results.executions :=
    List.mem_of_head? (Option.some_get _).symm
  have houtcome : (handledRow.get handledRow_isSome).outcome? = some (.succeeded [2]) := by
    decide +kernel
  have hstatus : (handledRow.get handledRow_isSome).status ≠ .running := by decide +kernel
  refine ⟨houtcome, ?_⟩
  rcases outcomes_are_from_handlers (Codec.cbor []) ["mail"] _ handledRun_reachable _ hmem with
    hrunning | habandoned | hexpired | hhandled
  · exact absurd hrunning hstatus
  · rw [houtcome] at habandoned
    cases habandoned
  · rw [houtcome] at hexpired
    cases hexpired
  · exact hhandled

end Deployment

end Maqistor
