import Maqistor.Engine.Pass
import Maqistor.Ingest.Claim
import Maqistor.Lib.Lists
import Maqistor.Store.Calls

/-! The delivery budget: every permit is free, in the channel, with a delivery task or with the
pass, so the channel, which has as many places, has room for every job that a pass sends. -/

namespace Maqistor

variable {π : Type}

namespace Pass

/-- The permits of the budget that the pass holds. -/
def budgets : Pass π → Nat
  | .acquiring _ _ held | .serving _ held => held.length
  | .claiming visit | .sending visit _ _ | .refusing visit _ _ _ | .returning visit _ =>
    visit.permits.length + visit.held.length
  | .waiting | .finishing _ _ | .reserving _ _ | .panicked _ => 0

/-- The jobs that the pass has claimed, and that are not in the channel. While the claim runs it may
have claimed as many as it has permits for. -/
def claims : Pass π → Nat
  | .claiming visit => visit.permits.length
  | .sending _ jobs _ => jobs.length
  | .refusing _ _ jobs _ => jobs.length + 1
  | _ => 0

/-- There is a permit for every job that is left, and none was refused. -/
def Covered : Pass π → Prop
  | .sending visit jobs _ => jobs.length ≤ visit.permits.length
  | .refusing _ _ _ _ | .panicked _ => False
  | _ => True

/-- The queues that the pass has not finished. -/
def unfinished : Pass π → List String
  | .waiting => []
  | .finishing queues _ | .reserving queues _ | .acquiring queues _ _ | .serving queues _
  | .panicked queues => queues
  | .claiming visit | .sending visit _ _ | .refusing visit _ _ _ | .returning visit _ =>
    visit.queue :: visit.queues

theorem Covered.claims_le {pass : Pass π} (h : pass.Covered) : pass.claims ≤ pass.budgets := by
  cases pass with
  | sending visit jobs outcome =>
    have hle : jobs.length ≤ visit.permits.length := h
    simp only [claims, budgets]
    omega
  | refusing => exact h.elim
  | claiming visit => exact Nat.le_add_right _ _
  | _ => exact Nat.zero_le _

end Pass

namespace Engine

/-- The permits of the budget, wherever they are. -/
def budget (engine : Engine π) : Nat :=
  engine.available + engine.channel.length + engine.tasks.length + engine.pass.budgets

/-- The claimed jobs whose delivery has not ended. -/
def undelivered (engine : Engine π) : Nat :=
  engine.pass.claims + engine.channel.length + engine.tasks.length

/-- The store claims no more jobs than it was asked for. -/
def withinLimit (engine : Engine π) : Action π → Bool
  | .claim (some jobs) =>
    match engine.pass with
    | .claiming visit => jobs.length ≤ visit.permits.length
    | _ => true
  | _ => true

section Budget

variable {options : DispatchOptions} {engine engine' : Engine π} {action : Action π}

/-- The permits of one queue and those of the others. -/
theorem length_filter_queue (held : List (Reserved π)) (queue : String) :
    (held.filter fun permit => permit.queueName = queue).length +
      (held.filter fun permit => permit.queueName ≠ queue).length = held.length := by
  rw [← List.countP_eq_length_filter, ← List.countP_eq_length_filter,
    List.length_eq_countP_add_countP (fun permit : Reserved π => permit.queueName = queue)]
  simp

theorem proceeds_budget (h : Proceeds options engine engine') : engine'.budget = engine.budget := by
  cases h with
  | ended hpass | finish hpass | acquired hpass | sent hpass | refuse hpass =>
    simp only [budget, finishQueue, hpass, Pass.budgets]
  | acquire hpass =>
    unfold acquire
    split
    · simp only [budget, hpass, Pass.budgets]
    · simp only [budget, hpass, Pass.budgets, List.length_append, List.length_singleton]
      omega
  | served hpass =>
    simp only [budget, hpass, Pass.budgets]
    omega
  | @serve queue queues held hpass =>
    unfold serve
    have hlength := length_filter_queue held queue
    dsimp only
    split
    · simp only [budget, finishQueue, hpass, Pass.budgets]
    · simp only [budget, hpass, Pass.budgets]
      omega
  | trySend hpass =>
    unfold trySend
    split
    · next hnone =>
      simp only [budget, hpass, Pass.budgets, hnone, List.length_nil]
      omega
    · next hsome =>
      split
      · simp only [budget, hpass, Pass.budgets, hsome, List.length_cons, List.length_append,
          List.length_nil]
        omega
      · simp only [budget, hpass, Pass.budgets, hsome, List.length_cons]
        omega
  | giveBack hpass =>
    unfold giveBack
    split
    · next hnone => simp only [budget, finishQueue, hpass, Pass.budgets, hnone, List.length_nil]; omega
    · next hsome =>
      simp only [budget, hpass, Pass.budgets, hsome, List.length_cons]
      omega

/-- No step makes or loses a permit. -/
theorem transition_budget (h : Transition options engine action engine') :
    engine'.budget = engine.budget := by
  cases h with
  | scheduling => rfl
  | start hpass =>
    unfold startPass
    simp only [budget, hpass]
    split <;> rfl
  | @reserve _ _ permits hpass =>
    cases permits with
    | none | some => simp only [budget, reserved, hpass, Pass.budgets, List.length_nil]
  | @claim _ jobs hpass =>
    cases jobs with
    | none | some => simp only [budget, claimed, hpass, Pass.budgets]
  | proceed h => exact proceeds_budget h
  | receive hchannel =>
    simp only [budget, hchannel, List.length_cons, List.length_append, List.length_nil]
    omega
  | task | wake => simp only [budget, List.length_set]
  | drop htask =>
    have hlength := (Lists.perm_eraseIdx htask).length_eq
    simp only [budget, List.length_cons] at hlength ⊢
    omega

/-- A pass that is about to send a job with a permit finds room in the channel. -/
theorem room_of_budget (hbudget : engine.budget = options.maxDeliveryInFlight)
    (hheld : 0 < engine.pass.budgets) : engine.channel.length < options.maxDeliveryInFlight := by
  rw [← hbudget]
  unfold budget
  omega

theorem proceeds_covered (h : Proceeds options engine engine') (hcovered : engine.pass.Covered)
    (hbudget : engine.budget = options.maxDeliveryInFlight) : engine'.pass.Covered := by
  cases h with
  | ended | finish | acquired | served | sent => exact trivial
  | acquire =>
    unfold acquire
    split <;> exact trivial
  | serve =>
    unfold serve
    dsimp only
    split <;> exact trivial
  | trySend hpass =>
    rw [hpass] at hcovered
    unfold trySend
    split
    · next hnone => simp [Pass.Covered, hnone] at hcovered
    · next hsome =>
      have hheld : 0 < engine.pass.budgets := by
        simp only [hpass, Pass.budgets, hsome, List.length_cons]
        omega
      have hroom := room_of_budget hbudget hheld
      rw [if_pos hroom]
      simpa [Pass.Covered, hsome] using hcovered
  | refuse hpass =>
    rw [hpass] at hcovered
    exact hcovered.elim
  | giveBack =>
    unfold giveBack
    split <;> exact trivial

theorem transition_covered (h : Transition options engine action engine')
    (hok : engine.withinLimit action = true) (hcovered : engine.pass.Covered)
    (hbudget : engine.budget = options.maxDeliveryInFlight) : engine'.pass.Covered := by
  cases h with
  | scheduling | receive | task | wake | drop => exact hcovered
  | start =>
    unfold startPass
    dsimp only
    split <;> exact trivial
  | @reserve _ _ permits => cases permits <;> exact trivial
  | @claim visit jobs hpass =>
    cases jobs with
    | none => exact trivial
    | some jobs => simpa [withinLimit, hpass, Pass.Covered, claimed] using hok
  | proceed h => exact proceeds_covered h hcovered hbudget

theorem initial_budget (options : DispatchOptions) :
    (initial options : Engine π).budget = options.maxDeliveryInFlight := by
  simp [budget, initial, Pass.budgets]

theorem reachable_budget {admits : Engine π → Action π → Prop}
    (h : Runs.Reachable (step options) admits (initial options) engine) :
    engine.budget = options.maxDeliveryInFlight := by
  obtain ⟨events, hrun⟩ := h
  exact hrun.invariant (fun engine => engine.budget = options.maxDeliveryInFlight)
    (initial_budget options) fun hinv _ hstep =>
      (transition_budget (step_transition hstep)).trans hinv

theorem reachable_covered (h : Runs.Reachable (step options)
    (fun engine action => engine.withinLimit action = true) (initial options) engine) :
    engine.pass.Covered := by
  obtain ⟨events, hrun⟩ := h
  exact (hrun.invariant
    (fun engine => engine.budget = options.maxDeliveryInFlight ∧ engine.pass.Covered)
    ⟨initial_budget options, trivial⟩ fun hinv hok hstep =>
      ⟨(transition_budget (step_transition hstep)).trans hinv.1,
        transition_covered (step_transition hstep) hok hinv.2 hinv.1⟩).2

end Budget

/-- In every state of the engine the free permits, the jobs in the channel, the delivery tasks and
the permits of the pass add up to the budget; a pass that sends a job finds room in the channel; and
when the store claims no more jobs than it was asked for, no more jobs than the budget are between
their claim and the end of their delivery. -/
theorem delivery_budget (options : DispatchOptions) (engine : Engine π)
    (h : Runs.Reachable (step options) (fun _ _ => True) (initial options) engine) :
    engine.available + engine.channel.length + engine.tasks.length + engine.pass.budgets =
      options.maxDeliveryInFlight ∧
    (∀ visit job jobs outcome, engine.pass = .sending visit (job :: jobs) outcome →
      visit.permits ≠ [] → engine.channel.length < options.maxDeliveryInFlight) ∧
    (Runs.Reachable (step options) (fun engine action => engine.withinLimit action = true)
      (initial options) engine → engine.undelivered ≤ options.maxDeliveryInFlight) := by
  have hbudget := reachable_budget h
  refine ⟨hbudget, fun visit job jobs outcome hpass hne => ?_, fun hwithin => ?_⟩
  · apply room_of_budget hbudget
    have hpos := List.length_pos_iff.mpr hne
    rw [hpass, Pass.budgets]
    omega
  · have hclaims := (reachable_covered hwithin).claims_le
    rw [← hbudget]
    unfold undelivered budget
    omega

/-- One job of one queue is claimed and not yet sent. -/
def claimedRun : Option (Engine Unit) :=
  (Runs.exec (step { batchSizeMax := 8, maxDeliveryInFlight := 1, idleProbeBatchSize := 4 })
    (fun engine action => engine.withinLimit action = true)
    (initial { batchSizeMax := 8, maxDeliveryInFlight := 1, idleProbeBatchSize := 4 })
    [.scheduling (.schedule "mail"), .scheduling (.send 0), .start ["mail"],
      .reserve (some [⟨"mail", ()⟩]), .proceed, .proceed, .proceed,
      .claim (some [{ id := 1, name := "mail", status := .running, payload := [], executionCount := 1
                      leaseExpiresAt := some 30, dispatchId := some "a", resultPayload := none
                      resultError := none, createdAt := 0, updatedAt := 0 }])]).map Prod.fst

theorem claimedRun_isSome : claimedRun.isSome := by decide +kernel

theorem delivery_budget_claimed :
    (claimedRun.get claimedRun_isSome).available = 0 ∧
    (claimedRun.get claimedRun_isSome).pass.budgets = 1 ∧
    (claimedRun.get claimedRun_isSome).channel.length < 1 ∧
    (claimedRun.get claimedRun_isSome).undelivered ≤ 1 := by
  have hwithin : Runs.Reachable
      (step { batchSizeMax := 8, maxDeliveryInFlight := 1, idleProbeBatchSize := 4 })
      (fun engine action => engine.withinLimit action = true)
      (initial { batchSizeMax := 8, maxDeliveryInFlight := 1, idleProbeBatchSize := 4 })
      (claimedRun.get claimedRun_isSome) :=
    Runs.Reachable.of_exec _ (Option.some_get _).symm
  have hall := delivery_budget _ _ (hwithin.imp fun _ hrun => hrun.mono fun _ _ _ => trivial)
  have hsending : ∃ visit job jobs outcome, (claimedRun.get claimedRun_isSome).pass =
      .sending visit (job :: jobs) outcome ∧ visit.permits ≠ [] :=
    ⟨_, _, _, _, rfl, by simp⟩
  obtain ⟨visit, job, jobs, outcome, hpass, hne⟩ := hsending
  exact ⟨by decide +kernel, by decide +kernel, hall.2.1 visit job jobs outcome hpass hne,
    hall.2.2 hwithin⟩

/-- The store that the engine runs on keeps to the limit: what `claim_batch` returns, whether it
ends at once or after its dispatch, is at most as long as the list of permits that the pass had. -/
theorem store_within_limit {env env' : Env} {newDispatchId : Nat → String} {claimedAt : Int}
    {store later : Store} {visit : Visit π} (hpermits : visit.permits ≠ []) :
    (∀ jobs, (store.claimBatch env newDispatchId claimedAt visit.queue visit.permits.length).2 =
      .done (.claimed (.ok jobs)) → jobs.length ≤ visit.permits.length) ∧
    ∀ claimed jobs, (store.claimBatch env newDispatchId claimedAt visit.queue
      visit.permits.length).2 = .wait (.dispatch claimed claimedAt) →
      (later.dispatch env' claimed claimedAt).2 = .done (.claimed (.ok jobs)) →
      jobs.length ≤ visit.permits.length := by
  have hpos := List.length_pos_iff.mpr hpermits
  unfold Store.claimBatch
  split
  · constructor
    · intro jobs h
      cases h
    · intro claimed jobs h
      cases h
  · constructor
    · intro jobs h
      obtain rfl : [] = jobs := by simpa using h
      exact Nat.zero_le _
    · intro claimed jobs h
      cases h
  · next ingest claimed hclaimed heq =>
    constructor
    · intro jobs h
      cases h
    · intro claimed' jobs hwait hdone
      obtain rfl : claimed = claimed' := by simpa using hwait
      have hlength := IngestConn.claimBatch_length hpos heq
      unfold Store.dispatch at hdone
      split at hdone
      · cases claimed <;> cases hdone
      · obtain rfl : List.zipWith Store.jobFromClaimed claimed _ = jobs := by simpa using hdone
        rw [List.length_zipWith]
        omega

/-! ### The scheduler of the engine -/

/-- The queues that the scheduler has in its pass are those that the pass has not finished. -/
def Tracks (engine : Engine π) : Prop :=
  engine.scheduling.pass.Perm engine.pass.unfinished

/-- The scheduler of one state comes to that of the other by steps that only finish queues of the
pass. -/
def Follows (options : DispatchOptions) (scheduling scheduling' : Scheduling) : Prop :=
  ∃ events, Runs.Run (Scheduling.step options.idleProbeBatchSize)
    (fun scheduling action => scheduling.orderly action = true) scheduling events scheduling'

section Tracks

variable {options : DispatchOptions} {engine engine' : Engine π} {action : Action π}
  {scheduling scheduling' : Scheduling} {queue : String} {queues : List String}

theorem follows_refl (scheduling : Scheduling) : Follows options scheduling scheduling :=
  ⟨[], Runs.Run.refl scheduling⟩

theorem follows_schedule (scheduling : Scheduling) (queue : String) :
    Follows options scheduling (scheduling.schedule queue) :=
  ⟨[()], Runs.Run.one (a := .schedule queue) rfl rfl⟩

/-- A queue of the pass is finished. -/
theorem finish_tracks (hperm : scheduling.pass.Perm (queue :: queues)) (outcome : PassOutcome) :
    Follows options scheduling (scheduling.finish queue outcome) ∧
      (scheduling.finish queue outcome).pass.Perm queues := by
  have hmem : queue ∈ scheduling.pass := hperm.mem_iff.mpr List.mem_cons_self
  have horderly : scheduling.orderly (.finish queue outcome) = true := decide_eq_true hmem
  constructor
  · exact ⟨[()], Runs.Run.one horderly rfl⟩
  · rw [Scheduling.finish_pass]
    simpa using hperm.erase queue

theorem proceeds_tracks (h : Proceeds options engine engine') (htracks : engine.Tracks) :
    Follows options engine.scheduling engine'.scheduling ∧ engine'.Tracks := by
  unfold Tracks at htracks
  cases h with
  | ended hpass | acquired hpass | served hpass | sent hpass =>
    rw [hpass] at htracks
    exact ⟨follows_refl _, htracks⟩
  | @finish queue queues outcome hpass =>
    rw [hpass] at htracks
    exact finish_tracks htracks outcome
  | acquire hpass =>
    rw [hpass] at htracks
    unfold acquire
    split <;> exact ⟨follows_refl _, htracks⟩
  | @serve queue queues held hpass =>
    rw [hpass] at htracks
    unfold serve
    dsimp only
    split
    · exact finish_tracks htracks .capacityBlocked
    · exact ⟨follows_refl _, htracks⟩
  | trySend hpass =>
    rw [hpass] at htracks
    unfold trySend
    split
    · exact ⟨follows_refl _, htracks⟩
    · split <;> exact ⟨follows_refl _, htracks⟩
  | @refuse visit job jobs outcome hpass =>
    rw [hpass] at htracks
    exact ⟨follows_schedule _ job.name, htracks⟩
  | @giveBack visit outcome hpass =>
    rw [hpass] at htracks
    unfold giveBack
    split
    · exact finish_tracks htracks outcome
    · exact ⟨follows_refl _, htracks⟩

/-- Every step of the engine is a step of its scheduler, or leaves it alone. -/
theorem transition_tracks (h : Transition options engine action engine') (htracks : engine.Tracks) :
    Follows options engine.scheduling engine'.scheduling ∧ engine'.Tracks := by
  cases h with
  | @scheduling action scheduling hstart hfinish hstep =>
    have horderly : engine.scheduling.orderly action = true := by
      cases action with
      | finish queue outcome => exact absurd rfl (hfinish queue outcome)
      | _ => rfl
    refine ⟨⟨[()], Runs.Run.one horderly hstep⟩, ?_⟩
    have hpass : scheduling.pass = engine.scheduling.pass := by
      cases Scheduling.step_transition hstep with
      | start => exact absurd rfl hstart
      | @finish queue outcome => exact absurd rfl (hfinish queue outcome)
      | _ => rfl
    unfold Tracks
    rw [hpass]
    exact htracks
  | @start order scheduling hpass hstep hperm =>
    have hfollows : Follows options engine.scheduling scheduling :=
      ⟨[()], Runs.Run.one (a := .start) rfl hstep⟩
    unfold startPass
    refine ⟨hfollows, ?_⟩
    unfold Tracks
    dsimp only
    split <;> exact hperm.symm
  | @reserve _ _ permits hpass =>
    unfold Tracks at htracks
    rw [hpass] at htracks
    cases permits <;> exact ⟨follows_refl _, htracks⟩
  | @claim _ jobs hpass =>
    unfold Tracks at htracks
    rw [hpass] at htracks
    cases jobs <;> exact ⟨follows_refl _, htracks⟩
  | proceed h => exact proceeds_tracks h htracks
  | receive | task | drop => exact ⟨follows_refl _, htracks⟩
  | @wake i queue => exact ⟨follows_schedule _ queue, htracks⟩

/-- Whatever the engine does, its scheduler runs in order: it finishes only queues that it has taken
into its pass. -/
theorem reachable_orderly {admits : Engine π → Action π → Prop}
    (h : Runs.Reachable (step options) admits (initial options) engine) :
    Runs.Reachable (Scheduling.step options.idleProbeBatchSize)
      (fun scheduling action => scheduling.orderly action = true) .initial engine.scheduling := by
  obtain ⟨events, hrun⟩ := h
  refine (hrun.invariant (fun engine => Follows options .initial engine.scheduling ∧ engine.Tracks)
    ⟨follows_refl _, List.Perm.refl _⟩ fun hinv _ hstep => ?_).1
  obtain ⟨⟨first, hfirst⟩, htracks⟩ := hinv
  obtain ⟨⟨second, hsecond⟩, htracks'⟩ := transition_tracks (step_transition hstep) htracks
  exact ⟨⟨_, hfirst.trans hsecond⟩, htracks'⟩

end Tracks

end Engine

end Maqistor
