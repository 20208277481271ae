import Maqistor.Engine.Pass
import Mathlib.Algebra.Order.Group.Multiset
import Mathlib.Tactic.Abel

/-! One scheduling pass, from its queues to its last call. `drain_pass` is a function here of
everything that it is told: what the dispatcher reserved, whether the budget had a permit for each
reservation, what the store claimed for each queue, and whether the delivery channel took each
job. -/

namespace Maqistor

/-- What a pass is told. A reserved permit comes with whether `try_acquire_owned` succeeds for it, a
claimed job with whether `try_send` does; `none` is an error. -/
structure PassAnswers (π : Type) where
  reserve : List QueueReservation → Option (List (Reserved π × Bool))
  claim : String → Nat → Option (List (Job × Bool))

/-- What a pass does. A permit of the budget that is queued with a job stays with it. -/
inductive PassCall (π : Type) where
  | reserve (requests : List QueueReservation)
  | acquire
  | drop
  | release (permit : Reserved π)
  | claim (queue : String) (limit : Nat)
  | queued (work : DeliveryWork π)
  | releaseClaim (job : Int) (dispatchId : String)
  | schedule (queue : String)
  | finish (queue : String) (outcome : PassOutcome)
  /-- "claim cannot exceed reserved permits" -/
  | panic
deriving DecidableEq, Repr

variable {π : Type}

/-- `try_acquire_owned` for each reserved permit, with those that go into the map. -/
def acquirePermits : List (Reserved π × Bool) → List (PassCall π) × List (Reserved π)
  | [] => ([], [])
  | (permit, true) :: rest =>
    let (calls, held) := acquirePermits rest
    (.acquire :: calls, permit :: held)
  | (permit, false) :: rest =>
    let (calls, held) := acquirePermits rest
    (.release permit :: calls, held)

/-- The calls for a job that the channel refused. -/
def refuse (permit : Reserved π) (job : Job) : List (PassCall π) :=
  [.drop, .release permit] ++ (job.dispatchId.map (PassCall.releaseClaim job.id)).toList ++
    [.schedule job.name]

/-- The loop over the claimed jobs, with the permits that are left after it, or `none` when there
were too few. -/
def sendJobs : List (Job × Bool) → List (Reserved π) →
    List (PassCall π) × Option (List (Reserved π))
  | [], permits => ([], some permits)
  | _ :: _, [] => ([.panic], none)
  | (job, true) :: jobs, permit :: permits =>
    let (calls, left) := sendJobs jobs permits
    (.queued { permit := permit, job := job } :: calls, left)
  | (job, false) :: jobs, permit :: permits =>
    let (calls, left) := sendJobs jobs permits
    (refuse permit job ++ calls, left)

/-- The release of permits with those of the budget. -/
def returnPermits (permits : List (Reserved π)) : List (PassCall π) :=
  permits.flatMap fun permit => [.release permit, .drop]

/-- The body of the loop over the queues, for one with permits; `false` when it panics. -/
def visitQueue (answers : PassAnswers π) (queue : String) (permits : List (Reserved π)) :
    List (PassCall π) × Bool :=
  match answers.claim queue permits.length with
  | none =>
    (.claim queue permits.length :: returnPermits permits ++ [.finish queue .retry], true)
  | some jobs =>
    let outcome : PassOutcome := if jobs.length = permits.length then .active else .idle
    match sendJobs jobs permits with
    | (calls, none) => (.claim queue permits.length :: calls, false)
    | (calls, some left) =>
      (.claim queue permits.length :: calls ++ returnPermits left ++ [.finish queue outcome], true)

/-- The loop over the queues, with the permits in the map. What is left there at the end, or after a
panic, is dropped. -/
def serveQueues (answers : PassAnswers π) : List String → List (Reserved π) → List (PassCall π)
  | [], held => held.map fun _ => .drop
  | queue :: queues, held =>
    let permits := held.filter fun permit => permit.queueName = queue
    let others := held.filter fun permit => permit.queueName ≠ queue
    if permits = [] then .finish queue .capacityBlocked :: serveQueues answers queues held
    else
      match visitQueue answers queue permits with
      | (calls, true) => calls ++ serveQueues answers queues others
      | (calls, false) => calls ++ others.map fun _ => .drop

/-- `drain_pass`, with the permits of the budget that are available and the queues in the order of
the set. -/
def drainPass (options : DispatchOptions) (headroom : Nat) (queues : List String)
    (answers : PassAnswers π) : List (PassCall π) :=
  if headroom = 0 then queues.map fun queue => .finish queue .capacityBlocked
  else
    let requests := Engine.requests options headroom queues
    match answers.reserve requests with
    | none => .reserve requests :: queues.map fun queue => .finish queue .retry
    | some permits =>
      let (calls, held) := acquirePermits permits
      .reserve requests :: calls ++ serveQueues answers queues held

/-! ### What happened in a pass -/

namespace PassCall

def released : PassCall π → Option (Reserved π)
  | .release permit => some permit
  | _ => none

def work : PassCall π → Option (DeliveryWork π)
  | .queued work => some work
  | _ => none

def claimReleased : PassCall π → Option (Int × String)
  | .releaseClaim job dispatchId => some (job, dispatchId)
  | _ => none

def finished : PassCall π → Option String
  | .finish queue _ => some queue
  | _ => none

/-- The permits that a call reserves. -/
def reserved (answers : PassAnswers π) : PassCall π → List (Reserved π)
  | .reserve requests => ((answers.reserve requests).getD []).map Prod.fst
  | _ => []

/-- The jobs that a call claims. -/
def claimed (answers : PassAnswers π) : PassCall π → List Job
  | .claim queue limit => ((answers.claim queue limit).getD []).map Prod.fst
  | _ => []

/-- What a call adds to the permits of the budget that the pass holds. -/
def budget : PassCall π → Int
  | .acquire => 1
  | .drop => -1
  | _ => 0

end PassCall

/-- A pass passes on what it got: every reserved permit is released once or queued once, every
claimed job is queued once or its claim is released once, what it keeps of the budget is queued, and
it finishes every queue once. -/
structure Conserves (answers : PassAnswers π) (queues : List String) (calls : List (PassCall π)) :
    Prop where
  permits : (calls.filterMap PassCall.released ++
    (calls.filterMap PassCall.work).map DeliveryWork.permit).Perm
      (calls.flatMap (PassCall.reserved answers))
  jobs : ∃ refused : List Job,
    ((calls.filterMap PassCall.work).map DeliveryWork.job ++ refused).Perm
      (calls.flatMap (PassCall.claimed answers)) ∧
    ((calls.filterMap PassCall.claimReleased).map fun release => (release.1, some release.2)).Perm
      (refused.map fun job => (job.id, job.dispatchId))
  budget : (calls.map PassCall.budget).sum = (calls.filterMap PassCall.work).length
  finished : calls.filterMap PassCall.finished = queues
  noPanic : PassCall.panic ∉ calls

/-! ### Accounts -/

/-- What a pass holds: permits of the dispatcher, claimed jobs and permits of the budget. -/
structure Holding (π : Type) where
  permits : Multiset (Reserved π)
  jobs : Multiset Job
  budget : Int

/-- Calls that take a pass from one holding to another and finish some queues. -/
structure Accounts (answers : PassAnswers π) (before : Holding π) (calls : List (PassCall π))
    (queues : List String) (after : Holding π) : Prop where
  permits : before.permits + ↑(calls.flatMap (PassCall.reserved answers)) =
    ↑(calls.filterMap PassCall.released) +
      ↑((calls.filterMap PassCall.work).map DeliveryWork.permit) + after.permits
  jobs : ∃ refused : Multiset Job,
    before.jobs + ↑(calls.flatMap (PassCall.claimed answers)) =
      ↑((calls.filterMap PassCall.work).map DeliveryWork.job) + refused + after.jobs ∧
    (↑((calls.filterMap PassCall.claimReleased).map fun release => (release.1, some release.2)) :
      Multiset (Int × Option String)) = refused.map fun job => (job.id, job.dispatchId)
  budget : before.budget + (calls.map PassCall.budget).sum =
    (calls.filterMap PassCall.work).length + after.budget
  finished : calls.filterMap PassCall.finished = queues
  noPanic : PassCall.panic ∉ calls

namespace Accounts

variable {answers : PassAnswers π} {before between after : Holding π}
  {calls calls' : List (PassCall π)} {queues queues' : List String}

theorem nil : Accounts answers before [] [] before where
  permits := by simp
  jobs := ⟨0, by simp⟩
  budget := by simp
  finished := rfl
  noPanic := List.not_mem_nil

theorem append (h : Accounts answers before calls queues between)
    (h' : Accounts answers between calls' queues' after) :
    Accounts answers before (calls ++ calls') (queues ++ queues') after where
  permits := by
    rw [List.flatMap_append, List.filterMap_append, List.filterMap_append, List.map_append,
      ← Multiset.coe_add, ← Multiset.coe_add, ← Multiset.coe_add, ← add_assoc, h.permits, add_assoc,
      h'.permits]
    abel
  jobs := by
    obtain ⟨refused, hjobs, hreleased⟩ := h.jobs
    obtain ⟨refused', hjobs', hreleased'⟩ := h'.jobs
    refine ⟨refused + refused', ?_, ?_⟩
    · rw [List.flatMap_append, List.filterMap_append, List.map_append, ← Multiset.coe_add,
        ← Multiset.coe_add, ← add_assoc, hjobs, add_assoc, hjobs']
      abel
    · rw [List.filterMap_append, List.map_append, ← Multiset.coe_add, hreleased, hreleased',
        Multiset.map_add]
  budget := by
    have hbudget := h.budget
    have hbudget' := h'.budget
    rw [List.map_append, List.sum_append, List.filterMap_append, List.length_append]
    omega
  finished := by rw [List.filterMap_append, h.finished, h'.finished]
  noPanic := by
    intro hmem
    rcases List.mem_append.mp hmem with hmem | hmem
    · exact h.noPanic hmem
    · exact h'.noPanic hmem

section Calls

variable {permits : Multiset (Reserved π)} {jobs : Multiset Job} {budget : Int}

theorem reserve {requests : List QueueReservation} {reserved : List (Reserved π × Bool)}
    (h : answers.reserve requests = some reserved) :
    Accounts answers ⟨permits, jobs, budget⟩ [.reserve requests] []
      ⟨permits + ↑(reserved.map Prod.fst), jobs, budget⟩ where
  permits := by simp [PassCall.reserved, PassCall.released, PassCall.work, h]
  jobs := ⟨0, by simp [PassCall.claimed, PassCall.work, PassCall.claimReleased]⟩
  budget := by simp [PassCall.budget, PassCall.work]
  finished := rfl
  noPanic := by simp

theorem claim {queue : String} {limit : Nat} {claimed : List (Job × Bool)}
    (h : answers.claim queue limit = some claimed) :
    Accounts answers ⟨permits, jobs, budget⟩ [.claim queue limit] []
      ⟨permits, jobs + ↑(claimed.map Prod.fst), budget⟩ where
  permits := by simp [PassCall.reserved, PassCall.released, PassCall.work, List.filterMap_cons]
  jobs := ⟨0, by simp [PassCall.claimed, PassCall.work, PassCall.claimReleased, h]⟩
  budget := by simp [PassCall.budget, PassCall.work]
  finished := rfl
  noPanic := by simp

theorem queued {permit : Reserved π} {job : Job} :
    Accounts answers ⟨permit ::ₘ permits, job ::ₘ jobs, budget + 1⟩
      [.queued { permit := permit, job := job }] [] ⟨permits, jobs, budget⟩ where
  permits := by simp [PassCall.reserved, PassCall.released, PassCall.work, List.filterMap_cons]
  jobs := ⟨0, by simp [PassCall.claimed, PassCall.work, PassCall.claimReleased]⟩
  budget := by simp [PassCall.budget, PassCall.work, add_comm]
  finished := rfl
  noPanic := by simp

theorem releaseClaim {job : Job} {dispatchId : String} (h : job.dispatchId = some dispatchId) :
    Accounts answers ⟨permits, job ::ₘ jobs, budget⟩ [.releaseClaim job.id dispatchId] []
      ⟨permits, jobs, budget⟩ where
  permits := by simp [PassCall.reserved, PassCall.released, PassCall.work, List.filterMap_cons]
  jobs := ⟨{job}, by
    simp [PassCall.claimed, PassCall.work, PassCall.claimReleased, List.filterMap_cons, h]⟩
  budget := by simp [PassCall.budget, PassCall.work]
  finished := rfl
  noPanic := by simp

theorem release {permit : Reserved π} :
    Accounts answers ⟨permit ::ₘ permits, jobs, budget⟩ [.release permit] []
      ⟨permits, jobs, budget⟩ where
  permits := by simp [PassCall.reserved, PassCall.released, PassCall.work, List.filterMap_cons]
  jobs := ⟨0, by simp [PassCall.claimed, PassCall.work, PassCall.claimReleased]⟩
  budget := by simp [PassCall.budget, PassCall.work]
  finished := rfl
  noPanic := by simp

/-- The calls that pass on neither a permit nor a job. -/
theorem other {call : PassCall π} {budget' : Int} (hreserved : call.reserved answers = [])
    (hclaimed : call.claimed answers = []) (hreleased : call.released = none)
    (hwork : call.work = none) (hrelease : call.claimReleased = none) (hpanic : call ≠ .panic)
    (hbudget : budget' = budget + call.budget) :
    Accounts answers ⟨permits, jobs, budget⟩ [call] call.finished.toList
      ⟨permits, jobs, budget'⟩ where
  permits := by simp [hreserved, hreleased, hwork]
  jobs := ⟨0, by simp [hclaimed, hwork, hrelease]⟩
  budget := by simp [hwork, hbudget]
  finished := by cases h : call.finished <;> simp [h]
  noPanic := by simpa using hpanic.symm

theorem acquire : Accounts answers ⟨permits, jobs, budget⟩ [.acquire] []
    ⟨permits, jobs, budget + 1⟩ :=
  other rfl rfl rfl rfl rfl (by simp) rfl

theorem drop : Accounts answers ⟨permits, jobs, budget + 1⟩ [.drop] [] ⟨permits, jobs, budget⟩ :=
  other rfl rfl rfl rfl rfl (by simp) (by simp [PassCall.budget])

theorem finish {queue : String} {outcome : PassOutcome} :
    Accounts answers ⟨permits, jobs, budget⟩ [.finish queue outcome] [queue]
      ⟨permits, jobs, budget⟩ :=
  other rfl rfl rfl rfl rfl (by simp) (by simp [PassCall.budget])

theorem schedule {queue : String} :
    Accounts answers ⟨permits, jobs, budget⟩ [.schedule queue] [] ⟨permits, jobs, budget⟩ :=
  other rfl rfl rfl rfl rfl (by simp) (by simp [PassCall.budget])

/-- A claim that fails. -/
theorem claim_error {queue : String} {limit : Nat} (h : answers.claim queue limit = none) :
    Accounts answers ⟨permits, jobs, budget⟩ [.claim queue limit] [] ⟨permits, jobs, budget⟩ :=
  other rfl (by simp [PassCall.claimed, h]) rfl rfl rfl (by simp) (by simp [PassCall.budget])

/-- A reservation that fails. -/
theorem reserve_error {requests : List QueueReservation} (h : answers.reserve requests = none) :
    Accounts answers ⟨permits, jobs, budget⟩ [.reserve requests] [] ⟨permits, jobs, budget⟩ :=
  other (by simp [PassCall.reserved, h]) rfl rfl rfl rfl (by simp) (by simp [PassCall.budget])

end Calls

end Accounts

/-! ### The loops of a pass -/

section Loops

variable {answers : PassAnswers π}

theorem acquirePermits_accounts (reserved : List (Reserved π × Bool))
    (permits : Multiset (Reserved π)) (jobs : Multiset Job) (budget : Int) :
    Accounts answers ⟨permits + ↑(reserved.map Prod.fst), jobs, budget⟩ (acquirePermits reserved).1 []
      ⟨permits + ↑(acquirePermits reserved).2, jobs,
        budget + (acquirePermits reserved).2.length⟩ := by
  induction reserved generalizing permits budget with
  | nil => simpa [acquirePermits] using Accounts.nil
  | cons entry rest ih =>
    obtain ⟨permit, acquired⟩ := entry
    cases acquired with
    | true =>
      have hcalls := Accounts.acquire.append (ih (permit ::ₘ permits) (budget + 1))
      have hbudget : budget + ((acquirePermits rest).2.length + 1 : Nat) =
          budget + 1 + (acquirePermits rest).2.length := by omega
      simp only [acquirePermits, List.map_cons, List.length_cons, ← Multiset.cons_coe,
        Multiset.add_cons, hbudget]
      rwa [Multiset.cons_add, Multiset.cons_add] at hcalls
    | false =>
      simp only [acquirePermits, List.map_cons, ← Multiset.cons_coe, Multiset.add_cons]
      exact Accounts.release.append (ih permits budget)

theorem refuse_accounts {permit : Reserved π} {job : Job} (hjob : job.dispatchId.isSome)
    (permits : Multiset (Reserved π)) (jobs : Multiset Job) (budget : Int) :
    Accounts answers ⟨permit ::ₘ permits, job ::ₘ jobs, budget + 1⟩ (refuse permit job) []
      ⟨permits, jobs, budget⟩ := by
  obtain ⟨dispatchId, hdispatchId⟩ := Option.isSome_iff_exists.mp hjob
  unfold refuse
  rw [hdispatchId]
  exact ((Accounts.drop.append Accounts.release).append (Accounts.releaseClaim hdispatchId)).append
    Accounts.schedule

/-- With enough permits the loop over the jobs does not panic, and leaves one permit of the budget
for each of the dispatcher's that it leaves. -/
theorem sendJobs_accounts (answers : PassAnswers π) {jobs : List (Job × Bool)} {permits : List (Reserved π)}
    (hlength : jobs.length ≤ permits.length) (hjobs : ∀ entry ∈ jobs, entry.1.dispatchId.isSome)
    (others : Multiset (Reserved π)) (budget : Int) :
    ∃ left, (sendJobs jobs permits).2 = some left ∧
      Accounts answers ⟨others + ↑permits, ↑(jobs.map Prod.fst), budget + permits.length⟩
        (sendJobs jobs permits).1 [] ⟨others + ↑left, 0, budget + left.length⟩ := by
  induction jobs generalizing permits with
  | nil => exact ⟨permits, by simp [sendJobs], by simpa [sendJobs] using Accounts.nil⟩
  | cons entry rest ih =>
    cases permits with
    | nil => simp at hlength
    | cons permit permits =>
      obtain ⟨job, taken⟩ := entry
      obtain ⟨left, hleft, hrest⟩ := ih (Nat.le_of_succ_le_succ hlength)
        fun entry hentry => hjobs entry (List.mem_cons_of_mem _ hentry)
      have hbudget : budget + ((permits.length + 1 : Nat) : Int) = budget + permits.length + 1 := by
        omega
      simp only [List.map_cons, List.length_cons, ← Multiset.cons_coe, Multiset.add_cons, hbudget]
      refine ⟨left, ?_⟩
      cases taken with
      | true =>
        refine ⟨by simpa [sendJobs] using hleft, ?_⟩
        exact Accounts.queued.append hrest
      | false =>
        refine ⟨by simpa [sendJobs] using hleft, ?_⟩
        exact (refuse_accounts (hjobs _ List.mem_cons_self) _ _ _).append hrest

theorem returnPermits_accounts (permits : List (Reserved π)) (others : Multiset (Reserved π))
    (jobs : Multiset Job) (budget : Int) :
    Accounts answers ⟨others + ↑permits, jobs, budget + permits.length⟩ (returnPermits permits) []
      ⟨others, jobs, budget⟩ := by
  induction permits with
  | nil => simpa [returnPermits] using Accounts.nil
  | cons permit permits ih =>
    have hbudget : budget + ((permits.length + 1 : Nat) : Int) = budget + permits.length + 1 := by
      omega
    simp only [List.length_cons, ← Multiset.cons_coe, Multiset.add_cons, hbudget]
    exact (Accounts.release.append Accounts.drop).append ih

/-- The claims that a store may answer: no more jobs than were asked for, each with a dispatch
id. -/
def PassAnswers.ClaimsWithin (answers : PassAnswers π) : Prop :=
  ∀ queue limit jobs, answers.claim queue limit = some jobs →
    jobs.length ≤ limit ∧ ∀ entry ∈ jobs, entry.1.dispatchId.isSome

theorem visitQueue_error {queue : String} {permits : List (Reserved π)}
    (h : answers.claim queue permits.length = none) :
    visitQueue answers queue permits =
      (.claim queue permits.length :: returnPermits permits ++ [.finish queue .retry], true) := by
  rw [visitQueue, h]

theorem visitQueue_sent {queue : String} {permits left : List (Reserved π)} {jobs : List (Job × Bool)}
    (h : answers.claim queue permits.length = some jobs)
    (hleft : (sendJobs jobs permits).2 = some left) :
    visitQueue answers queue permits =
      (.claim queue permits.length :: (sendJobs jobs permits).1 ++ returnPermits left ++
        [.finish queue (if jobs.length = permits.length then .active else .idle)], true) := by
  simp only [visitQueue, h]
  generalize sendJobs jobs permits = sent at hleft
  obtain ⟨calls, after⟩ := sent
  obtain rfl : after = some left := hleft
  rfl

theorem visitQueue_accounts (hclaims : answers.ClaimsWithin) (queue : String)
    (permits : List (Reserved π)) (others : Multiset (Reserved π)) (budget : Int) :
    (visitQueue answers queue permits).2 = true ∧
      Accounts answers ⟨others + ↑permits, 0, budget + permits.length⟩
        (visitQueue answers queue permits).1 [queue] ⟨others, 0, budget⟩ := by
  cases hclaim : answers.claim queue permits.length with
  | none =>
    rw [visitQueue_error hclaim]
    exact ⟨rfl, ((Accounts.claim_error hclaim).append
      (returnPermits_accounts permits others 0 budget)).append Accounts.finish⟩
  | some jobs =>
    obtain ⟨hlength, hjobs⟩ := hclaims queue permits.length jobs hclaim
    obtain ⟨left, hleft, hsent⟩ := sendJobs_accounts answers hlength hjobs others budget
    have hclaimed : Accounts answers ⟨others + ↑permits, 0, budget + permits.length⟩
        [.claim queue permits.length] []
        ⟨others + ↑permits, 0 + ↑(jobs.map Prod.fst), budget + permits.length⟩ :=
      Accounts.claim hclaim
    rw [zero_add] at hclaimed
    rw [visitQueue_sent hclaim hleft]
    exact ⟨rfl, ((hclaimed.append hsent).append
      (returnPermits_accounts left others 0 budget)).append Accounts.finish⟩

/-- The loop over the queues, when the map has permits only for queues that are to come. -/
theorem serveQueues_accounts (hclaims : answers.ClaimsWithin) (queues : List String)
    {held : List (Reserved π)} (hheld : ∀ permit ∈ held, permit.queueName ∈ queues) :
    Accounts answers ⟨↑held, 0, held.length⟩ (serveQueues answers queues held) queues ⟨0, 0, 0⟩ := by
  induction queues generalizing held with
  | nil =>
    have hnone : held = [] := List.eq_nil_iff_forall_not_mem.mpr fun permit hmem =>
      List.not_mem_nil (hheld permit hmem)
    rw [hnone]
    exact Accounts.nil
  | cons queue queues ih =>
    rw [serveQueues]
    split
    · next hnone =>
      have hother : ∀ permit ∈ held, permit.queueName ∈ queues := by
        intro permit hmem
        have hne : permit.queueName ≠ queue := by
          simpa using List.filter_eq_nil_iff.mp hnone permit hmem
        exact (List.mem_cons.mp (hheld permit hmem)).resolve_left hne
      exact Accounts.finish.append (ih hother)
    · generalize hpermits : (held.filter fun permit => permit.queueName = queue) = permits
      generalize hothers : (held.filter fun permit => permit.queueName ≠ queue) = others
      have hsplit : (others : Multiset (Reserved π)) + ↑permits = ↑held := by
        rw [← hothers, ← hpermits, add_comm, Multiset.coe_add, Multiset.coe_eq_coe]
        simpa using List.filter_append_perm (fun permit => permit.queueName = queue) held
      have hlength : (others.length : Int) + permits.length = held.length := by
        have hcard := congrArg Multiset.card hsplit
        rw [Multiset.card_add, Multiset.coe_card, Multiset.coe_card, Multiset.coe_card] at hcard
        omega
      have hother : ∀ permit ∈ others, permit.queueName ∈ queues := by
        intro permit hmem
        obtain ⟨hmem, hne⟩ := List.mem_filter.mp (hothers ▸ hmem)
        exact (List.mem_cons.mp (hheld permit hmem)).resolve_left (by simpa using hne)
      obtain ⟨hok, hvisit⟩ := visitQueue_accounts hclaims queue permits ↑others others.length
      generalize visitQueue answers queue permits = visited at hok hvisit
      obtain ⟨calls, ok⟩ := visited
      obtain rfl : ok = true := hok
      rw [← hsplit, ← hlength]
      exact hvisit.append (ih hother)

theorem finishAll_accounts (answers : PassAnswers π) (queues : List String) (outcome : PassOutcome)
    (holding : Holding π) :
    Accounts answers holding (queues.map fun queue => .finish queue outcome) queues holding := by
  induction queues with
  | nil => exact Accounts.nil
  | cons queue queues ih => exact Accounts.finish.append ih

end Loops

/-! ### The whole pass -/

theorem mem_acquirePermits {reserved : List (Reserved π × Bool)} {permit : Reserved π}
    (h : permit ∈ (acquirePermits reserved).2) : ∃ entry ∈ reserved, entry.1 = permit := by
  induction reserved with
  | nil => cases h
  | cons entry rest ih =>
    obtain ⟨first, acquired⟩ := entry
    cases acquired with
    | true =>
      rcases List.mem_cons.mp h with rfl | h
      · exact ⟨_, List.mem_cons_self, rfl⟩
      · obtain ⟨entry, hentry, hpermit⟩ := ih h
        exact ⟨entry, List.mem_cons_of_mem _ hentry, hpermit⟩
    | false =>
      obtain ⟨entry, hentry, hpermit⟩ := ih h
      exact ⟨entry, List.mem_cons_of_mem _ hentry, hpermit⟩

/-- A pass starts with nothing and keeps nothing but what it queued. -/
theorem drainPass_accounts {options : DispatchOptions} {headroom : Nat} {queues : List String}
    {answers : PassAnswers π} (hclaims : answers.ClaimsWithin)
    (hreserved : ∀ permits, answers.reserve (Engine.requests options headroom queues) = some permits →
      ∀ entry ∈ permits, entry.1.queueName ∈ queues) :
    Accounts answers ⟨0, 0, 0⟩ (drainPass options headroom queues answers) queues ⟨0, 0, 0⟩ := by
  rw [drainPass]
  split
  · exact finishAll_accounts answers queues .capacityBlocked _
  · cases hreserve : answers.reserve (Engine.requests options headroom queues) with
    | none =>
      simp only [hreserve]
      exact (Accounts.reserve_error hreserve).append (finishAll_accounts answers queues .retry _)
    | some permits =>
      have hheld : ∀ permit ∈ (acquirePermits permits).2, permit.queueName ∈ queues := by
        intro permit hmem
        obtain ⟨entry, hentry, rfl⟩ := mem_acquirePermits hmem
        exact hreserved permits hreserve entry hentry
      have hacquired : Accounts answers ⟨0 + ↑(permits.map Prod.fst), 0, 0⟩ (acquirePermits permits).1
          [] ⟨0 + ↑(acquirePermits permits).2, 0, 0 + (acquirePermits permits).2.length⟩ :=
        acquirePermits_accounts permits 0 0 0
      rw [zero_add ((acquirePermits permits).2 : Multiset (Reserved π)), zero_add (_ : Int)]
        at hacquired
      simp only [hreserve]
      exact ((Accounts.reserve hreserve).append hacquired).append
        (serveQueues_accounts hclaims queues hheld)

/-- Calls that start and end with nothing pass on what they got. -/
theorem Accounts.conserves {answers : PassAnswers π} {calls : List (PassCall π)}
    {queues : List String} (h : Accounts answers ⟨0, 0, 0⟩ calls queues ⟨0, 0, 0⟩) :
    Conserves answers queues calls := by
  obtain ⟨refused, hjobs, hreleased⟩ := h.jobs
  refine ⟨?_, ⟨refused.toList, ?_, ?_⟩, ?_, h.finished, h.noPanic⟩
  · have hpermits := h.permits
    rw [zero_add, add_zero, Multiset.coe_add, Multiset.coe_eq_coe] at hpermits
    exact hpermits.symm
  · rw [← Multiset.coe_eq_coe, ← Multiset.coe_add, Multiset.coe_toList]
    rw [zero_add, add_zero] at hjobs
    exact hjobs.symm
  · rw [← Multiset.coe_eq_coe, ← Multiset.map_coe _ refused.toList, Multiset.coe_toList]
    exact hreleased
  · have hbudget := h.budget
    rwa [zero_add, add_zero] at hbudget

/-- For every set of queues, every headroom and every answer, a pass conserves permits, claims, the
budget and queues, and never has more jobs than permits. -/
theorem pass_conserves {options : DispatchOptions} {headroom : Nat} {queues : List String}
    {answers : PassAnswers π} (hclaims : answers.ClaimsWithin)
    (hreserved : ∀ permits, answers.reserve (Engine.requests options headroom queues) = some permits →
      ∀ entry ∈ permits, entry.1.queueName ∈ queues) :
    Conserves answers queues (drainPass options headroom queues answers) := by
  have haccounts := drainPass_accounts hclaims hreserved
  exact haccounts.conserves

/-- A job of the queue `mail`, claimed under the dispatch id `d`. -/
def mailJob (id : Int) : Job :=
  { id := id, name := "mail", status := .running, payload := [], executionCount := 1
    leaseExpiresAt := none, dispatchId := some "d", resultPayload := none, resultError := none
    createdAt := 0, updatedAt := 0 }

/-- Five permits for two queues, one beyond the budget; the channel takes the first job of `mail`
and refuses the second, and the claim for `bulk` fails. -/
def mailAnswers : PassAnswers Nat where
  reserve _ := some [({ queueName := "mail", permit := 0 }, true),
    ({ queueName := "mail", permit := 1 }, true), ({ queueName := "bulk", permit := 2 }, true),
    ({ queueName := "mail", permit := 3 }, true), ({ queueName := "bulk", permit := 4 }, false)]
  claim queue limit :=
    if queue = "mail" then some ([(mailJob 7, true), (mailJob 8, false)].take limit) else none

theorem pass_conserves_mail :
    let options := { batchSizeMax := 4, maxDeliveryInFlight := 4, idleProbeBatchSize := 1 }
    let calls := drainPass options 4 ["mail", "bulk"] mailAnswers
    calls.filterMap PassCall.work =
      [{ permit := { queueName := "mail", permit := 0 }, job := mailJob 7 }] ∧
    Conserves mailAnswers ["mail", "bulk"] calls := by
  refine ⟨by decide, pass_conserves ?_ ?_⟩
  · intro queue limit jobs hclaim
    simp only [mailAnswers] at hclaim
    split at hclaim
    · obtain rfl := Option.some.inj hclaim
      refine ⟨List.length_take_le _ _, fun entry hentry => ?_⟩
      have hmem := List.mem_of_mem_take hentry
      simp only [List.mem_cons, List.not_mem_nil, or_false] at hmem
      rcases hmem with rfl | rfl <;> rfl
    · cases hclaim
  · intro permits hpermits
    obtain rfl := Option.some.inj hpermits
    decide

end Maqistor
