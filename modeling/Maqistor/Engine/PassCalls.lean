import Maqistor.Dispatcher.Selection
import Maqistor.Engine.Delivery
import Maqistor.Engine.DrainPass

/-! The calls of a pass in a run of the engine. While a pass waits for a reply, or between two of
its steps, the other tasks go on; what the pass does all the same is what `drainPass` does when it
is told the replies of the run. -/

namespace Maqistor

variable {π : Type}

namespace Engine

/-- The calls of a pass in a step that waits for nothing. -/
def proceedCalls (options : DispatchOptions) (engine : Engine π) : List (PassCall π) :=
  match engine.pass with
  | .waiting | .reserving _ _ | .claiming _ | .panicked _ => []
  | .finishing [] _ | .acquiring _ [] _ | .sending _ [] _ => []
  | .finishing (queue :: _) outcome => [.finish queue outcome]
  | .acquiring _ (permit :: _) _ => if engine.available = 0 then [.release permit] else [.acquire]
  | .serving [] held => held.map fun _ => .drop
  | .serving (queue :: _) held =>
    if (held.filter fun permit => permit.queueName = queue) = [] then
      [.finish queue .capacityBlocked]
    else []
  | .sending visit (job :: _) _ =>
    match visit.permits with
    | [] => .panic :: visit.held.map fun _ => .drop
    | permit :: _ =>
      if engine.channel.length < options.maxDeliveryInFlight then
        [.queued { permit := permit, job := job }]
      else [.drop, .release permit]
  | .refusing _ job _ _ =>
    (job.dispatchId.map (PassCall.releaseClaim job.id)).toList ++ [.schedule job.name]
  | .returning visit outcome =>
    match visit.permits with
    | [] => [.finish visit.queue outcome]
    | permit :: _ => [.release permit, .drop]

/-- The calls of a pass in a step of the engine. -/
def calls (options : DispatchOptions) (engine : Engine π) : Action π → List (PassCall π)
  | .reserve _ =>
    match engine.pass with
    | .reserving _ requests => [.reserve requests]
    | _ => []
  | .claim _ =>
    match engine.pass with
    | .claiming visit => [.claim visit.queue visit.permits.length]
    | _ => []
  | .proceed => engine.proceedCalls options
  | _ => []

/-- A step of the engine, with the calls of the pass. -/
def callStep (options : DispatchOptions) (engine : Engine π) (action : Action π) :
    Option (Engine π × List (PassCall π)) :=
  (engine.step options action).map fun after => (after.1, engine.calls options action)

/-- No new pass starts. -/
def samePass : Action π → Bool
  | .start _ => false
  | _ => true

/-- The dispatcher reserves permits for queues that it was asked for, and the store claims no more
jobs than it was asked for and gives each a dispatch id. -/
def wellAnswered (engine : Engine π) : Action π → Prop
  | .reserve (some permits) =>
    ∀ queues requests, engine.pass = .reserving queues requests →
      ∀ permit ∈ permits, permit.queueName ∈ queues
  | .claim (some jobs) =>
    ∀ visit, engine.pass = .claiming visit →
      jobs.length ≤ visit.permits.length ∧ ∀ job ∈ jobs, job.dispatchId.isSome
  | _ => True

end Engine

/-! ### What is left of a pass -/

/-- What is left once the loop over the jobs of a queue has ended. -/
def afterSending (answers : PassAnswers π) (visit : Visit π) (outcome : PassOutcome) :
    List (PassCall π) × Option (List (Reserved π)) → List (PassCall π)
  | (calls, none) => calls ++ visit.held.map fun _ => .drop
  | (calls, some left) =>
    calls ++ (returnPermits left ++
      .finish visit.queue outcome :: serveQueues answers visit.queues visit.held)

/-- The calls that a pass makes from where it stands, when it is told `answers`. The permits and the
jobs that it has at hand come with what it will be told about each. -/
inductive Pass.Rest (answers : PassAnswers π) : Pass π → List (PassCall π) → Prop
  | waiting : Rest answers .waiting []
  | panicked {queues : List String} : Rest answers (.panicked queues) []
  | finishing {queues : List String} {outcome : PassOutcome} :
      Rest answers (.finishing queues outcome) (queues.map fun queue => .finish queue outcome)
  | unreserved {queues : List String} {requests : List QueueReservation}
      (h : answers.reserve requests = none) :
      Rest answers (.reserving queues requests)
        (.reserve requests :: queues.map fun queue => .finish queue .retry)
  | reserving {queues : List String} {requests : List QueueReservation}
      {entries : List (Reserved π × Bool)} (h : answers.reserve requests = some entries) :
      Rest answers (.reserving queues requests)
        (.reserve requests :: ((acquirePermits entries).1 ++
          serveQueues answers queues (acquirePermits entries).2))
  | acquiring {queues : List String} {permits held : List (Reserved π)}
      (entries : List (Reserved π × Bool)) (h : entries.map Prod.fst = permits) :
      Rest answers (.acquiring queues permits held)
        ((acquirePermits entries).1 ++
          serveQueues answers queues (held ++ (acquirePermits entries).2))
  | serving {queues : List String} {held : List (Reserved π)} :
      Rest answers (.serving queues held) (serveQueues answers queues held)
  | unclaimed {visit : Visit π} (h : answers.claim visit.queue visit.permits.length = none) :
      Rest answers (.claiming visit)
        (.claim visit.queue visit.permits.length :: (returnPermits visit.permits ++
          .finish visit.queue .retry :: serveQueues answers visit.queues visit.held))
  | claiming {visit : Visit π} {entries : List (Job × Bool)}
      (h : answers.claim visit.queue visit.permits.length = some entries) :
      Rest answers (.claiming visit)
        (.claim visit.queue visit.permits.length :: afterSending answers visit
          (if entries.length = visit.permits.length then .active else .idle)
          (sendJobs entries visit.permits))
  | sending {visit : Visit π} {jobs : List Job} {outcome : PassOutcome}
      (entries : List (Job × Bool)) (h : entries.map Prod.fst = jobs) :
      Rest answers (.sending visit jobs outcome)
        (afterSending answers visit outcome (sendJobs entries visit.permits))
  | refusing {visit : Visit π} {job : Job} {jobs : List Job} {outcome : PassOutcome}
      (entries : List (Job × Bool)) (h : entries.map Prod.fst = jobs) :
      Rest answers (.refusing visit job jobs outcome)
        ((job.dispatchId.map (PassCall.releaseClaim job.id)).toList ++
          .schedule job.name :: afterSending answers visit outcome (sendJobs entries visit.permits))
  | returning {visit : Visit π} {outcome : PassOutcome} :
      Rest answers (.returning visit outcome)
        (returnPermits visit.permits ++
          .finish visit.queue outcome :: serveQueues answers visit.queues visit.held)

/-- The answers, with another one for the reservation. -/
def PassAnswers.withReserve (answers : PassAnswers π) (permits : Option (List (Reserved π × Bool))) :
    PassAnswers π :=
  { answers with reserve := fun _ => permits }

/-- The answers, with another one for a claim. -/
def PassAnswers.withClaim (answers : PassAnswers π) (queue : String) (limit : Nat)
    (jobs : Option (List (Job × Bool))) : PassAnswers π :=
  { answers with
    claim := fun queue' limit' =>
      if queue' = queue ∧ limit' = limit then jobs else answers.claim queue' limit' }

/-- The answers that a pass may rely on from where it stands. -/
structure Pass.Trusts (pass : Pass π) (answers : PassAnswers π) : Prop where
  claims : answers.ClaimsWithin
  reserved : ∀ queues requests permits, pass = .reserving queues requests →
    answers.reserve requests = some permits → ∀ entry ∈ permits, entry.1.queueName ∈ queues

section Rest

variable {answers answers' : PassAnswers π}

theorem withClaim_same (answers : PassAnswers π) (queue : String) (limit : Nat)
    (jobs : Option (List (Job × Bool))) :
    (answers.withClaim queue limit jobs).claim queue limit = jobs :=
  if_pos ⟨rfl, rfl⟩

theorem withClaim_other {queue : String} {queues : List String} (h : queue ∉ queues) (limit : Nat)
    (jobs : Option (List (Job × Bool))) :
    ∀ other ∈ queues, answers.claim other = (answers.withClaim queue limit jobs).claim other := by
  intro other hother
  funext limit'
  have hne : ¬(other = queue ∧ limit' = limit) := fun heq => h (heq.1 ▸ hother)
  exact (if_neg hne).symm

theorem withClaim_claimsWithin (hanswers : answers.ClaimsWithin) {queue : String} {limit : Nat}
    {jobs : Option (List (Job × Bool))}
    (hjobs : ∀ entries, jobs = some entries →
      entries.length ≤ limit ∧ ∀ entry ∈ entries, entry.1.dispatchId.isSome) :
    (answers.withClaim queue limit jobs).ClaimsWithin := by
  intro queue' limit' entries h
  simp only [PassAnswers.withClaim] at h
  split at h
  · next heq =>
    rw [heq.2]
    exact hjobs entries h
  · exact hanswers queue' limit' entries h

theorem visitQueue_congr {queue : String} (h : answers.claim queue = answers'.claim queue)
    (permits : List (Reserved π)) :
    visitQueue answers queue permits = visitQueue answers' queue permits := by
  rw [visitQueue, visitQueue, h]

/-- The loop over the queues depends only on what is claimed for them. -/
theorem serveQueues_congr {queues : List String}
    (h : ∀ queue ∈ queues, answers.claim queue = answers'.claim queue) (held : List (Reserved π)) :
    serveQueues answers queues held = serveQueues answers' queues held := by
  induction queues generalizing held with
  | nil => rfl
  | cons queue queues ih =>
    have hrest := fun held => ih (fun other hother => h other (List.mem_cons_of_mem _ hother)) held
    rw [serveQueues, serveQueues, visitQueue_congr (h queue List.mem_cons_self), hrest]
    split
    · rfl
    · split
      · rw [hrest]
      · rfl

theorem afterSending_congr {visit : Visit π}
    (h : ∀ queue ∈ visit.queues, answers.claim queue = answers'.claim queue) (outcome : PassOutcome)
    (sent : List (PassCall π) × Option (List (Reserved π))) :
    afterSending answers visit outcome sent = afterSending answers' visit outcome sent := by
  obtain ⟨calls, left⟩ := sent
  cases left with
  | none => rfl
  | some left => rw [afterSending, afterSending, serveQueues_congr h]

theorem afterSending_append (answers : PassAnswers π) (visit : Visit π) (outcome : PassOutcome)
    (calls : List (PassCall π)) (sent : List (PassCall π) × Option (List (Reserved π))) :
    afterSending answers visit outcome (calls ++ sent.1, sent.2) =
      calls ++ afterSending answers visit outcome sent := by
  obtain ⟨more, left⟩ := sent
  cases left with
  | none => exact List.append_assoc _ _ _
  | some left => exact List.append_assoc _ _ _

theorem afterSending_refuse (answers : PassAnswers π) (visit : Visit π) (outcome : PassOutcome)
    (permit : Reserved π) (job : Job) (sent : List (PassCall π) × Option (List (Reserved π))) :
    afterSending answers visit outcome (refuse permit job ++ sent.1, sent.2) =
      [.drop, .release permit] ++ ((job.dispatchId.map (PassCall.releaseClaim job.id)).toList ++
        .schedule job.name :: afterSending answers visit outcome sent) := by
  rw [afterSending_append, refuse, List.append_assoc, List.append_assoc, List.singleton_append]

/-- A queue with permits is visited. -/
theorem serveQueues_visit {queue : String} {queues : List String} {held : List (Reserved π)}
    (h : (held.filter fun permit => permit.queueName = queue) ≠ []) {calls : List (PassCall π)}
    (hrest : Pass.Rest answers
      (.claiming
        { queue := queue, permits := held.filter fun permit => permit.queueName = queue
          queues := queues, held := held.filter fun permit => permit.queueName ≠ queue }) calls) :
    serveQueues answers (queue :: queues) held = calls := by
  rw [serveQueues, if_neg h]
  cases hrest with
  | unclaimed hclaim =>
    rw [visitQueue_error hclaim]
    simp
  | @claiming _ entries hclaim =>
    rw [visitQueue, hclaim]
    dsimp only
    generalize sendJobs entries _ = sent
    obtain ⟨calls, left⟩ := sent
    cases left with
    | none => rfl
    | some left => simp [afterSending]

end Rest

namespace Engine

section Steps

variable {options : DispatchOptions} {engine engine' : Engine π} {answers : PassAnswers π}
  {calls : List (PassCall π)}

theorem acquire_rest {queues : List String} {permit : Reserved π} {permits held : List (Reserved π)}
    (hpass : engine.pass = .acquiring queues (permit :: permits) held)
    (h : Pass.Rest answers (engine.acquire queues permit permits held).pass calls) :
    Pass.Rest answers engine.pass (engine.proceedCalls options ++ calls) := by
  simp only [proceedCalls, hpass]
  unfold acquire at h
  split at h
  · next hnone =>
    rw [if_pos hnone]
    cases h with
    | acquiring entries hentries =>
      exact .acquiring ((permit, false) :: entries) (by rw [List.map_cons, hentries])
  · next hsome =>
    rw [if_neg hsome]
    cases h with
    | acquiring entries hentries =>
      rw [List.append_assoc]
      exact .acquiring ((permit, true) :: entries) (by rw [List.map_cons, hentries])

theorem serve_rest {queue : String} {queues : List String} {held : List (Reserved π)}
    (hpass : engine.pass = .serving (queue :: queues) held)
    (h : Pass.Rest answers (engine.serve queue queues held).pass calls) :
    Pass.Rest answers engine.pass (engine.proceedCalls options ++ calls) := by
  simp only [proceedCalls, hpass]
  unfold serve at h
  dsimp only at h
  split at h
  · next hnone =>
    cases h with
    | serving =>
      have hserve : serveQueues answers (queue :: queues) held =
          .finish queue .capacityBlocked :: serveQueues answers queues held := by
        rw [serveQueues, if_pos hnone]
      rw [if_pos hnone, List.singleton_append, ← hserve]
      exact .serving
  · next hsome =>
    rw [if_neg hsome, List.nil_append, ← serveQueues_visit hsome h]
    exact .serving

theorem trySend_rest {visit : Visit π} {job : Job} {jobs : List Job} {outcome : PassOutcome}
    (hpass : engine.pass = .sending visit (job :: jobs) outcome)
    (h : Pass.Rest answers (engine.trySend options visit job jobs outcome).pass calls) :
    Pass.Rest answers engine.pass (engine.proceedCalls options ++ calls) := by
  obtain ⟨queue, permits, queues, held⟩ := visit
  simp only [proceedCalls, hpass]
  cases permits with
  | nil =>
    cases h with
    | panicked =>
      rw [List.append_nil]
      exact .sending ((job, false) :: jobs.map fun job => (job, false)) (by simp [Function.comp_def])
  | cons permit permits =>
    unfold trySend at h
    dsimp only at h ⊢
    split at h
    · next hroom =>
      rw [if_pos hroom]
      cases h with
      | sending entries hentries =>
        rw [← afterSending_append answers _ outcome]
        exact .sending ((job, true) :: entries) (by rw [List.map_cons, hentries])
    · next hfull =>
      rw [if_neg hfull]
      cases h with
      | refusing entries hentries =>
        rw [← afterSending_refuse answers _ outcome permit job]
        exact .sending ((job, false) :: entries) (by rw [List.map_cons, hentries])

theorem giveBack_rest {visit : Visit π} {outcome : PassOutcome}
    (hpass : engine.pass = .returning visit outcome)
    (h : Pass.Rest answers (engine.giveBack visit outcome).pass calls) :
    Pass.Rest answers engine.pass (engine.proceedCalls options ++ calls) := by
  obtain ⟨queue, permits, queues, held⟩ := visit
  simp only [proceedCalls, hpass]
  cases permits with
  | nil =>
    cases h with
    | serving => exact .returning
  | cons permit permits =>
    cases h with
    | returning => exact .returning

/-- A step back: what a pass does from here is what it does in a step and what it does from
there. -/
theorem proceeds_rest (h : Proceeds options engine engine') (hrest : engine'.pass.Rest answers calls) :
    engine.pass.Rest answers (engine.proceedCalls options ++ calls) := by
  cases h with
  | ended hpass =>
    simp only [proceedCalls, hpass]
    cases hrest with
    | waiting => exact .finishing
  | finish hpass =>
    simp only [proceedCalls, hpass]
    cases hrest with
    | finishing => exact .finishing
  | @acquired queues held hpass =>
    simp only [proceedCalls, hpass]
    cases hrest with
    | serving =>
      have hserve : Pass.Rest answers (.acquiring queues [] held)
          ([] ++ serveQueues answers queues (held ++ [])) := .acquiring [] rfl
      rwa [List.append_nil] at hserve
  | acquire hpass => exact acquire_rest hpass hrest
  | served hpass =>
    simp only [proceedCalls, hpass]
    cases hrest with
    | waiting =>
      rw [List.append_nil]
      exact .serving
  | serve hpass => exact serve_rest hpass hrest
  | sent hpass =>
    simp only [proceedCalls, hpass]
    cases hrest with
    | returning => exact .sending [] rfl
  | trySend hpass => exact trySend_rest hpass hrest
  | refuse hpass =>
    simp only [proceedCalls, hpass]
    cases hrest with
    | sending entries hentries =>
      rw [List.append_assoc]
      exact .refusing entries hentries
  | giveBack hpass => exact giveBack_rest hpass hrest

/-- The reply of `reserve`, with what becomes of each permit. -/
theorem reserved_rest {queues : List String} {reply : Option (List (Reserved π))}
    (requests : List QueueReservation)
    (h : Pass.Rest answers (engine.reserved queues reply).pass calls) :
    ∃ permits : Option (List (Reserved π × Bool)), permits.map (List.map Prod.fst) = reply ∧
      Pass.Rest (answers.withReserve permits) (.reserving queues requests)
        (.reserve requests :: calls) := by
  cases reply with
  | none =>
    refine ⟨none, rfl, ?_⟩
    cases h with
    | finishing => exact .unreserved rfl
  | some permits =>
    cases h with
    | acquiring entries hentries =>
      refine ⟨some entries, congrArg some hentries, ?_⟩
      have hserve : serveQueues answers queues (acquirePermits entries).2 =
          serveQueues (answers.withReserve (some entries)) queues (acquirePermits entries).2 := by
        apply serveQueues_congr
        intro queue _
        rfl
      rw [List.nil_append, hserve]
      exact .reserving rfl

/-- The reply of `claim_batch`, with what becomes of each job. -/
theorem claimed_rest {visit : Visit π} {reply : Option (List Job)}
    (hqueue : visit.queue ∉ visit.queues)
    (h : Pass.Rest answers (engine.claimed visit reply).pass calls) :
    ∃ jobs : Option (List (Job × Bool)), jobs.map (List.map Prod.fst) = reply ∧
      Pass.Rest (answers.withClaim visit.queue visit.permits.length jobs) (.claiming visit)
        (.claim visit.queue visit.permits.length :: calls) := by
  cases reply with
  | none =>
    refine ⟨none, rfl, ?_⟩
    cases h with
    | returning =>
      rw [serveQueues_congr (withClaim_other hqueue visit.permits.length none)]
      exact .unclaimed (withClaim_same _ _ _ _)
  | some jobs =>
    cases h with
    | sending entries hentries =>
      refine ⟨some entries, congrArg some hentries, ?_⟩
      rw [afterSending_congr (withClaim_other hqueue visit.permits.length (some entries)),
        ← hentries, List.length_map]
      exact .claiming (withClaim_same _ _ _ _)

theorem proceeds_unfinished (h : Proceeds options engine engine') :
    engine'.pass.unfinished.Sublist engine.pass.unfinished := by
  cases h with
  | ended hpass | served hpass => exact List.nil_sublist _
  | finish hpass =>
    rw [hpass]
    exact List.sublist_cons_self _ _
  | acquired hpass | sent hpass | refuse hpass =>
    rw [hpass]
    exact List.Sublist.refl _
  | acquire hpass =>
    rw [hpass]
    unfold acquire
    split <;> exact List.Sublist.refl _
  | serve hpass =>
    rw [hpass]
    unfold serve
    dsimp only
    split
    · exact List.sublist_cons_self _ _
    · exact List.Sublist.refl _
  | trySend hpass =>
    rw [hpass]
    unfold trySend
    split
    · exact List.Sublist.refl _
    · split <;> exact List.Sublist.refl _
  | giveBack hpass =>
    rw [hpass]
    unfold giveBack
    split
    · exact List.sublist_cons_self _ _
    · exact List.Sublist.refl _

/-- What a step is for the pass that runs: a reply, a step of its own, or a step of another task. -/
inductive PassStep (options : DispatchOptions) (engine : Engine π) :
    Action π → List (PassCall π) → Engine π → Prop
  | reserve {queues : List String} {requests : List QueueReservation}
      {reply : Option (List (Reserved π))} (hpass : engine.pass = .reserving queues requests) :
      PassStep options engine (.reserve reply) [.reserve requests] (engine.reserved queues reply)
  | claim {visit : Visit π} {reply : Option (List Job)} (hpass : engine.pass = .claiming visit) :
      PassStep options engine (.claim reply) [.claim visit.queue visit.permits.length]
        (engine.claimed visit reply)
  | proceed {engine' : Engine π} (h : Proceeds options engine engine') :
      PassStep options engine .proceed (engine.proceedCalls options) engine'
  | other {action : Action π} {engine' : Engine π} (hpass : engine'.pass = engine.pass) :
      PassStep options engine action [] engine'

theorem callStep_passStep {action : Action π} (hsame : samePass action = true)
    (h : engine.callStep options action = some (engine', calls)) :
    PassStep options engine action calls engine' := by
  obtain ⟨⟨_, event⟩, hstep, heq⟩ := Option.map_eq_some_iff.mp h
  obtain ⟨rfl, rfl⟩ := Prod.mk.inj heq
  cases action with
  | start order => cases hsame
  | reserve reply =>
    simp only [step] at hstep
    split at hstep
    · next queues requests hpass =>
      obtain rfl := congrArg Prod.fst (Option.some.inj hstep)
      simp only [Engine.calls, hpass]
      exact .reserve hpass
    · cases hstep
  | claim reply =>
    simp only [step] at hstep
    split at hstep
    · next visit hpass =>
      obtain rfl := congrArg Prod.fst (Option.some.inj hstep)
      simp only [Engine.calls, hpass]
      exact .claim hpass
    · cases hstep
  | proceed =>
    obtain ⟨after, hproceed, heq⟩ := Option.map_eq_some_iff.mp hstep
    obtain rfl := congrArg Prod.fst heq
    exact .proceed (proceed_proceeds hproceed)
  | scheduling action | receive | dispatched task delivered | released task | wake task | drop task =>
    refine .other ?_
    cases step_transition hstep with
    | _ => rfl

theorem passStep_unfinished {action : Action π} (h : PassStep options engine action calls engine') :
    engine'.pass.unfinished.Sublist engine.pass.unfinished := by
  cases h with
  | @reserve _ _ reply hpass =>
    rw [hpass]
    cases reply <;> exact List.Sublist.refl _
  | @claim _ reply hpass =>
    rw [hpass]
    cases reply <;> exact List.Sublist.refl _
  | proceed h => exact proceeds_unfinished h
  | other hpass =>
    rw [hpass]

/-- A step back, with the reply of the step among the answers. -/
theorem passStep_rest {action : Action π} {more : List (PassCall π)}
    (h : PassStep options engine action calls engine') (hnodup : engine.pass.unfinished.Nodup)
    (hrest : engine'.pass.Rest answers more) :
    ∃ answers', engine.pass.Rest answers' (calls ++ more) ∧
      (engine.wellAnswered action → engine'.pass.Trusts answers → engine.pass.Trusts answers') := by
  cases h with
  | @reserve queues requests reply hpass =>
    obtain ⟨permits, rfl, hbefore⟩ := reserved_rest requests hrest
    rw [hpass]
    refine ⟨_, hbefore, fun hwell htrusts => ⟨htrusts.claims, ?_⟩⟩
    rintro _ _ entries ⟨rfl, rfl⟩ hentries entry hentry
    obtain rfl : permits = some entries := hentries
    exact hwell queues requests hpass _ (List.mem_map_of_mem hentry)
  | @claim visit reply hpass =>
    rw [hpass] at hnodup
    obtain ⟨jobs, rfl, hbefore⟩ := claimed_rest (List.nodup_cons.mp hnodup).1 hrest
    rw [hpass]
    refine ⟨_, hbefore, fun hwell htrusts => ⟨withClaim_claimsWithin htrusts.claims ?_, ?_⟩⟩
    · rintro entries rfl
      obtain ⟨hlength, hjobs⟩ := hwell visit hpass
      rw [List.length_map] at hlength
      exact ⟨hlength, fun entry hentry => hjobs _ (List.mem_map_of_mem hentry)⟩
    · intro queues requests permits heq
      cases heq
  | proceed h =>
    refine ⟨answers, proceeds_rest h hrest, fun _ htrusts => ⟨htrusts.claims, ?_⟩⟩
    intro queues requests permits hpass
    cases h with
    | ended hpass' | finish hpass' | acquired hpass' | acquire hpass' | served hpass' | serve hpass'
    | sent hpass' | trySend hpass' | refuse hpass' | giveBack hpass' =>
      rw [hpass'] at hpass
      cases hpass
  | other hpass =>
    rw [hpass] at hrest
    refine ⟨answers, hrest, fun _ htrusts => ?_⟩
    rwa [hpass] at htrusts

end Steps

/-- The pass has ended, or panicked. -/
def ended (engine : Engine π) : Prop :=
  engine.pass = .waiting ∨ ∃ queues, engine.pass = .panicked queues

/-- The rest of a pass in a run is what it does when it is told the replies of the run. -/
theorem run_rest {options : DispatchOptions} {admits : Engine π → Action π → Prop}
    {engine last : Engine π} {events : List (List (PassCall π))}
    (hsame : ∀ engine action, admits engine action → samePass action = true)
    (hrun : Runs.Run (callStep options) admits engine events last) (hlast : last.ended)
    (hnodup : engine.pass.unfinished.Nodup) :
    ∃ answers, engine.pass.Rest answers events.flatten ∧
      ((∀ engine action, admits engine action → engine.wellAnswered action) →
        engine.pass.Trusts answers) := by
  refine Runs.Run.head_induction (motive := fun engine events => engine.pass.unfinished.Nodup →
    ∃ answers, engine.pass.Rest answers events.flatten ∧
      ((∀ engine action, admits engine action → engine.wellAnswered action) →
        engine.pass.Trusts answers)) hrun ?_ ?_ hnodup
  · intro _
    refine ⟨{ reserve := fun _ => none, claim := fun _ _ => none }, ?_, fun _ => ⟨?_, ?_⟩⟩
    · rcases hlast with hlast | ⟨queues, hlast⟩
      · rw [hlast]
        exact .waiting
      · rw [hlast]
        exact .panicked
    · intro _ _ _ h
      cases h
    · intro _ _ _ _ h
      cases h
  · intro engine engine' action calls events hok hstep ih hnodup
    have hpassStep := callStep_passStep (hsame engine action hok) hstep
    obtain ⟨answers, hrest, htrusts⟩ := ih (hnodup.sublist (passStep_unfinished hpassStep))
    obtain ⟨answers', hrest', htrusts'⟩ := passStep_rest hpassStep hnodup hrest
    exact ⟨answers', hrest', fun hwell => htrusts' (hwell engine action hok) (htrusts hwell)⟩


section Whole

variable {options : DispatchOptions} {engine started last : Engine π} {order : List String}
  {answers : PassAnswers π} {calls : List (PassCall π)}

/-- A pass starts with each of its queues once. -/
theorem step_start {event : Unit} (h : engine.step options (.start order) = some (started, event)) :
    order.Nodup ∧ started.pass =
      if engine.available = 0 then .finishing order .capacityBlocked
      else .reserving order (requests options engine.available order) := by
  simp only [step] at h
  split at h
  · obtain ⟨⟨scheduling, _⟩, hstep, h⟩ := Option.bind_eq_some_iff.mp h
    simp only at h
    split at h
    · next hperm =>
      obtain rfl := congrArg Prod.fst (Option.some.inj h)
      refine ⟨hperm.nodup_iff.mpr ?_, rfl⟩
      cases Scheduling.step_transition hstep with
      | start => exact List.nodup_dedup _
    · cases h
  · cases h

theorem drainPass_of_rest {headroom : Nat} (hheadroom : headroom ≠ 0)
    (h : Pass.Rest answers (.reserving order (requests options headroom order)) calls) :
    calls = drainPass options headroom order answers := by
  rw [drainPass, if_neg hheadroom]
  cases h with
  | unreserved hreserve => simp only [hreserve]
  | reserving hreserve => simp only [hreserve, List.cons_append]

/-- In every run of the engine from the start of a pass to its end, whatever its other tasks do
between the steps of the pass, the calls of the pass are those of `drainPass` with the replies of
the run. When the dispatcher and the store answer as they should, they conserve permits, claims, the
budget and queues. -/
theorem run_drainPass {admits : Engine π → Action π → Prop} {events : List (List (PassCall π))}
    {event : Unit} (hstart : engine.step options (.start order) = some (started, event))
    (hsame : ∀ engine action, admits engine action → samePass action = true)
    (hrun : Runs.Run (callStep options) admits started events last) (hlast : last.ended) :
    ∃ answers, events.flatten = drainPass options engine.available order answers ∧
      ((∀ engine action, admits engine action → engine.wellAnswered action) →
        Conserves answers order events.flatten) := by
  obtain ⟨hnodup, hpass⟩ := step_start hstart
  have hunfinished : started.pass.unfinished.Nodup := by
    rw [hpass]
    split <;> exact hnodup
  obtain ⟨answers, hrest, htrusts⟩ := run_rest hsame hrun hlast hunfinished
  rw [hpass] at hrest htrusts
  generalize events.flatten = calls at hrest ⊢
  refine ⟨answers, ?_⟩
  by_cases havailable : engine.available = 0
  · rw [if_pos havailable] at hrest
    rw [drainPass, if_pos havailable]
    cases hrest with
    | finishing =>
      exact ⟨rfl, fun _ => (finishAll_accounts answers order .capacityBlocked _).conserves⟩
  · rw [if_neg havailable] at hrest htrusts
    obtain rfl := drainPass_of_rest havailable hrest
    refine ⟨rfl, fun hwell => ?_⟩
    apply Accounts.conserves
    apply drainPass_accounts (htrusts hwell).claims
    intro permits hpermits
    exact (htrusts hwell).reserved order _ permits rfl hpermits

end Whole

/-- A pass with one permit. While it waits for the store, a wake-up for another queue is sent; the
job that it then claims goes into the channel. -/
example :
    let options := { batchSizeMax := 8, maxDeliveryInFlight := 1, idleProbeBatchSize := 4 }
    let job : Job :=
      { id := 7, name := "mail", status := .running, payload := [], executionCount := 1
        leaseExpiresAt := none, dispatchId := some "d", resultPayload := none, resultError := none
        createdAt := 0, updatedAt := 0 }
    let actions : List (Action Nat) :=
      [.reserve (some [⟨"mail", 0⟩]), .proceed, .proceed, .proceed, .scheduling (.schedule "bulk"),
        .claim (some [job]), .proceed, .proceed, .proceed, .proceed]
    let started := (Runs.exec (step options) (fun _ _ => True) (initial options)
      [.scheduling (.schedule "mail"), .scheduling (.send 0), .start ["mail"]]).map Prod.fst
    (started.bind fun engine => Runs.exec (callStep options) (fun _ action => samePass action = true)
        engine actions).map (fun result => result.2.flatten) =
      some [.reserve [⟨"mail", 1⟩], .acquire, .claim "mail" 1, .queued ⟨⟨"mail", 0⟩, job⟩,
        .finish "mail" .active] := by
  decide +kernel

/-! ### The dispatcher and the store -/

/-- What `reserve` of the dispatcher returns, as the engine sees it. -/
def dispatcherReply (choice : Table.Choice) (requests : List QueueReservation)
    (workers : WorkerRegistry) : List (Reserved ReservedDispatch) :=
  (reserve choice requests workers).2.map fun permit =>
    { queueName := permit.queueName, permit := permit }

theorem dispatcher_wellAnswered {options : DispatchOptions} {engine : Engine ReservedDispatch}
    {headroom : Nat} {queues : List String} (choice : Table.Choice) (workers : WorkerRegistry)
    (hpass : engine.pass = .reserving queues (requests options headroom queues)) :
    engine.wellAnswered (.reserve (some (dispatcherReply choice
      (requests options headroom queues) workers))) := by
  intro queues' requests' hpass' permit hpermit
  obtain ⟨rfl, -⟩ := Pass.reserving.inj (hpass.symm.trans hpass')
  obtain ⟨reserved, hreserved, rfl⟩ := List.mem_map.mp hpermit
  have hname := reserve_queueName choice _ workers reserved hreserved
  simpa [requests, Function.comp_def] using hname

/-- A claim that ends at once has found no job. -/
theorem claimBatch_done {env : Env} {newDispatchId : Nat → String} {claimedAt : Int} {store : Store}
    {queue : String} {limit : Nat} {jobs : List Job}
    (h : (store.claimBatch env newDispatchId claimedAt queue limit).2 = .done (.claimed (.ok jobs))) :
    jobs = [] := by
  unfold Store.claimBatch at h
  split at h
  · cases h
  · cases h
    rfl
  · cases h

theorem dispatch_dispatchId {env : Env} {claimed : List IngestClaimed} {claimedAt : Int}
    {store : Store} {jobs : List Job}
    (h : (store.dispatch env claimed claimedAt).2 = .done (.claimed (.ok jobs))) :
    ∀ job ∈ jobs, job.dispatchId.isSome := by
  unfold Store.dispatch at h
  split at h
  · cases claimed <;> cases h
  · next results dispatched heq =>
    obtain rfl : List.zipWith Store.jobFromClaimed claimed dispatched = jobs := by simpa using h
    intro job hjob
    rw [← List.map_uncurry_zip_eq_zipWith] at hjob
    obtain ⟨⟨row, execution⟩, -, rfl⟩ := List.mem_map.mp hjob
    rfl

/-- What `claim_batch` returns, whether it ends at once or after its dispatch, is within the limit
of the pass and has a dispatch id for every job. -/
theorem store_wellAnswered {engine : Engine π} {env env' : Env} {newDispatchId : Nat → String}
    {claimedAt : Int} {store later : Store} {visit : Visit π} (hpass : engine.pass = .claiming visit)
    (hpermits : visit.permits ≠ []) :
    (∀ jobs, (store.claimBatch env newDispatchId claimedAt visit.queue visit.permits.length).2 =
      .done (.claimed (.ok jobs)) → engine.wellAnswered (.claim (some jobs))) ∧
    ∀ claimed jobs, (store.claimBatch env newDispatchId claimedAt visit.queue
      visit.permits.length).2 = .wait (.dispatch claimed claimedAt) →
      (later.dispatch env' claimed claimedAt).2 = .done (.claimed (.ok jobs)) →
      engine.wellAnswered (.claim (some jobs)) := by
  constructor
  · intro jobs h visit' hpass'
    obtain rfl := Pass.claiming.inj (hpass.symm.trans hpass')
    obtain rfl := claimBatch_done h
    exact ⟨Nat.zero_le _, fun _ hmem => absurd hmem List.not_mem_nil⟩
  · intro claimed jobs hwait h visit' hpass'
    obtain rfl := Pass.claiming.inj (hpass.symm.trans hpass')
    have hlength := (store_within_limit hpermits).2 claimed jobs hwait h
    exact ⟨hlength, dispatch_dispatchId h⟩

end Engine

end Maqistor
