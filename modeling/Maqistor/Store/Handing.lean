import Mathlib.Data.List.Flatten
import Maqistor.Results.Commit
import Maqistor.Store.Durable
import Maqistor.Store.Effects
import Maqistor.Store.Schema

/-! Which jobs the store hands out, in any run at all: the reply to a claim carries the rows that
the claim has marked, each under the dispatch id that was drawn for it, and no dispatch id is handed
out twice. -/

namespace Maqistor

open ResultsConn IngestConn

/-- The jobs that a step hands out to the callers of claims. -/
def handedJobs (replied : Replied) : List Job :=
  replied.flatMap fun reply =>
    match reply.2 with
    | .claimed (.ok jobs) => jobs
    | _ => []

theorem handedJobs_of_noClaim {replied : Replied} (h : NoClaim replied) : handedJobs replied = [] := by
  rw [handedJobs, List.flatMap_eq_nil_iff]
  rintro ⟨id, reply⟩ hmem
  dsimp only
  split
  · next jobs => exact h id jobs hmem
  · rfl

/-- A job is what a claim has marked, under its dispatch id. -/
def HandsOut (entry : IngestClaimed) (job : Job) : Prop :=
  job.content = entry.content ∧ job.dispatchId = some entry.dispatchId

/-- The claims in flight hold distinct jobs each. -/
def Keyed (sys : System) : Prop :=
  ∀ entry ∈ sys.pool, (entry.2.awaiting.map IngestClaimed.id).Nodup

/-- What a step does with the jobs that are claimed: it drops some, marks some more, or hands out
those that one claim holds. -/
inductive Hands (sys sys' : System) (replied : Replied) : Prop
  | keep (hawaiting : (collect Stage.awaiting sys'.pool).Sublist (collect Stage.awaiting sys.pool))
      (hissued : sys'.issued = sys.issued) (hreplied : handedJobs replied = [])
  | claim (claimed : List IngestClaimed) (hfresh : System.FreshIds sys.issued claimed)
      (hawaiting : collect Stage.awaiting sys'.pool = claimed ++ collect Stage.awaiting sys.pool)
      (hissued : sys'.issued = claimed.map IngestClaimed.key ++ sys.issued)
      (hreplied : handedJobs replied = [])
  | hand (claimed : List IngestClaimed)
      (hawaiting : (collect Stage.awaiting sys.pool).Perm
        (claimed ++ collect Stage.awaiting sys'.pool))
      (hissued : sys'.issued = sys.issued)
      (hreplied : List.Forall₂ HandsOut claimed (handedJobs replied))

section Dispatch

variable {store : Store} {claimed : List IngestClaimed}

/-- The answer of a dispatch that commits names every job under the dispatch id of its row. -/
theorem dispatchBatch_named {env : Env} {claimedAt : Int} {results : ResultsConn}
    {dispatched : List DispatchedExecution} (hids : (claimed.map IngestClaimed.id).Nodup)
    (h : store.results.dispatchBatch env (claimed.map (Store.dispatchRow claimedAt)) =
      (results, .ok dispatched)) :
    List.Forall₂ (fun (entry : IngestClaimed) dispatch => dispatch.dispatchId = entry.dispatchId) claimed
      dispatched := by
  have hrows : ((claimed.map (Store.dispatchRow claimedAt)).map DispatchInsert.jobId).Nodup := by
    rw [List.map_map]
    exact hids
  rcases dispatchBatch_cases env (claimed.map (Store.dispatchRow claimedAt)) store.results with
    ⟨error, heq, -⟩ | ⟨executions, returned, byJob, heq, hspec, hby, -⟩
  · rw [heq] at h
    cases h
  · have hcollect : collectDispatched (claimed.map (Store.dispatchRow claimedAt)) byJob =
        .ok dispatched := congrArg Prod.snd (heq.symm.trans h)
    obtain ⟨out, hout, hall⟩ := collectDispatched_ok hrows fun row hrow => by
      cases hentry : Table.lookup DispatchedExecution.jobId row.jobId byJob with
      | some entry => exact ⟨entry, rfl⟩
      | none =>
        obtain ⟨error, herror⟩ := collectDispatched_error hrow hentry
        rw [hcollect] at herror
        cases herror
    obtain rfl := Except.ok.inj (hout.symm.trans hcollect)
    rw [List.forall₂_map_left_iff] at hall
    refine List.forall₂_iff_zip.mpr ⟨hall.length_eq, fun {entry found} hmem => ?_⟩
    have hlookup := (List.forall₂_iff_zip.mp hall).2 hmem
    obtain ⟨attempt, hattempt, hjob, hdescribes⟩ := hby.sound hlookup
    obtain ⟨hnamed, havailable, hafter⟩ := hspec.returns attempt hattempt
    obtain ⟨source, hsource, hsourceJob, other, hother, -, hdispatch⟩ :=
      hspec.started attempt.jobId hnamed havailable
    obtain rfl := Option.some.inj (hafter.symm.trans hother)
    have hentryMem : Store.dispatchRow claimedAt entry ∈ claimed.map (Store.dispatchRow claimedAt) :=
      List.mem_map_of_mem (List.of_mem_zip hmem).1
    obtain rfl : source = Store.dispatchRow claimedAt entry :=
      List.inj_on_of_nodup_map hrows hsource hentryMem (hsourceJob.trans hjob)
    rw [hdescribes.dispatchId, hdispatch.dispatchId]
    rfl

/-- A dispatch hands out the jobs of the claim, or awaits nothing any more. -/
theorem dispatch_hands (store : Store) (env : Env) (claimedAt : Int)
    (hids : (claimed.map IngestClaimed.id).Nodup) :
    (store.dispatch env claimed claimedAt).2.Silent ∨
    ∃ jobs, (store.dispatch env claimed claimedAt).2 = .done (.claimed (.ok jobs)) ∧
      List.Forall₂ HandsOut claimed jobs := by
  unfold Store.dispatch
  split
  · exact Or.inl (undoClaims_silent _ _)
  · next results dispatched heq =>
    refine Or.inr ⟨_, rfl, ?_⟩
    exact Store.forall₂_zipWith (dispatchBatch_named hids heq) fun entry dispatch hid =>
      ⟨rfl, congrArg some hid⟩

end Dispatch

section Step

variable {sys sys' : System} {action : Action} {replied : Replied}

theorem hands_enter {store : Store} {progress : List Progress} (h : ∀ item ∈ progress, item.Silent) :
    Hands sys (sys.enter store progress).1 (sys.enter store progress).2 := by
  refine .keep ?_ rfl (handedJobs_of_noClaim (enter_silent h).2)
  rw [collect_enter, flatMap_nil fun item hitem => (h item hitem).1]
  exact List.Sublist.refl _

theorem hands_proceed {store : Store} {i id : Nat} {stage : Stage} {progress : Progress}
    (hentry : sys.pool[i]? = some (id, stage)) (h : progress.Silent) :
    Hands sys (sys.proceed i id store progress).1 (sys.proceed i id store progress).2 := by
  refine .keep ?_ rfl (handedJobs_of_noClaim (proceed_silent store hentry h).2)
  rw [collect_proceed, h.1]
  exact List.Sublist.flatMap (List.eraseIdx_sublist _ _) _

/-- Every later step of a call but the dispatch of a claim is silent. -/
theorem advance_silent (env : Env) (store : Store) {stage : Stage}
    (hdispatch : ∀ claimed claimedAt, stage ≠ .dispatch claimed claimedAt) :
    (store.advance env stage).2.Silent := by
  cases stage with
  | upsertResults queue =>
    simp only [Store.advance]
    split <;> exact silent_done (by simp)
  | dispatch claimed claimedAt => exact absurd rfl (hdispatch claimed claimedAt)
  | undoClaim row rest error => exact undoClaims_silent _ _
  | rependCompleted submitter jobId dispatchId =>
    cases submitter with
    | complete => exact silent_wait rfl
    | completeWorkerResult => exact silent_done (by simp)
  | readAccepted jobId => exact composedJob_silent _ _ _
  | readExecution reader accepted =>
    cases reader <;> exact silent_done (by simp [Store.composedReply])
  | rependStale item rest jobs => exact silent_wait rfl
  | readStaleAccepted item rest jobs =>
    simp only [Store.advance]
    split
    · exact silent_done (by simp)
    · exact silent_wait rfl
  | readStaleExecution accepted rest jobs =>
    simp only [Store.advance]
    split
    · exact silent_done (by simp)
    · exact recoverItems_silent _ _
  | abandon jobId dispatchId => exact silent_wait rfl
  | rependReleased jobId dispatchId => exact silent_done (by simp)
  | cleanupResults cutoff deleted => exact silent_done (by simp)

/-- The first step of a call but a claim is silent. -/
theorem start_silent {store : Store} {progress : List Progress} (hformed : sys.store.WellFormed)
    (h : sys.store.start action = some (store, progress))
    (hclaim : ∀ env newDispatchId claimedAt queueName limit,
      action ≠ .claimBatch env newDispatchId claimedAt queueName limit) :
    ∀ item ∈ progress, item.Silent := by
  cases action with
  | upsertQueue env queue =>
    obtain ⟨-, rfl⟩ := eq_of_some_eq h
    rcases Store.upsertQueue_cases env queue sys.store with
      ⟨error, heq⟩ | ⟨queues, names, reply, heq, -⟩
    · rw [heq]
      exact silent_singleton (silent_done (by simp))
    · rw [heq]
      exact silent_singleton (silent_wait rfl)
  | enqueue batch =>
    obtain ⟨-, rfl⟩ := eq_of_some_eq h
    intro item hitem
    obtain ⟨reply, -, rfl⟩ := List.mem_map.mp hitem
    exact silent_done (by simp)
  | claimBatch env newDispatchId claimedAt queueName limit => exact absurd rfl (hclaim _ _ _ _ _)
  | complete env batch =>
    obtain ⟨dispositions, heq, -⟩ := Store.completeBatch_eq env batch hformed.valid
    rw [Store.start, heq] at h
    obtain ⟨-, rfl⟩ := eq_of_some_eq h
    intro item hitem
    obtain ⟨pair, -, rfl⟩ := List.mem_map.mp hitem
    exact afterCompletion_silent _ _ _
  | releaseClaim jobId dispatchId =>
    obtain ⟨-, rfl⟩ := eq_of_some_eq h
    refine silent_singleton ?_
    unfold Store.releaseClaim
    split
    · exact silent_done (by simp)
    · split
      · exact silent_wait rfl
      · exact silent_done (by simp)
  | recoverStaleLeases choice now =>
    obtain ⟨-, rfl⟩ := eq_of_some_eq h
    refine silent_singleton ?_
    unfold Store.recoverStaleLeases
    split
    · exact silent_done (by simp)
    · exact recoverItems_silent _ _
  | cleanupExpiredRecords cutoff =>
    obtain ⟨-, rfl⟩ := eq_of_some_eq h
    exact silent_singleton (silent_wait rfl)
  | getJob jobId =>
    obtain ⟨-, rfl⟩ := eq_of_some_eq h
    exact silent_singleton (composedJob_silent _ _ _)
  | _ => cases h

theorem keyed_waiting {items : List (Progress × Nat)} (hkeyed : ∀ entry ∈ sys.pool,
      (entry.2.awaiting.map IngestClaimed.id).Nodup) {pool : List (Nat × Stage)}
    (hpool : pool ⊆ sys.pool)
    (h : ∀ item ∈ items, ((item.1.collect Stage.awaiting).map IngestClaimed.id).Nodup) :
    ∀ entry ∈ System.waiting items ++ pool, (entry.2.awaiting.map IngestClaimed.id).Nodup := by
  intro entry hentry
  rcases List.mem_append.mp hentry with hnew | hold
  · obtain ⟨item, hitem, heq⟩ := List.mem_filterMap.mp hnew
    split at heq
    · next stage hwait =>
      obtain rfl := Option.some.inj heq
      have hnodup := h item hitem
      rw [hwait] at hnodup
      exact hnodup
    · cases heq
  · exact hkeyed entry (hpool hold)

theorem keyed_enter (store : Store) {progress : List Progress} (hkeyed : Keyed sys)
    (h : ∀ item ∈ progress, ((item.collect Stage.awaiting).map IngestClaimed.id).Nodup) :
    Keyed (sys.enter store progress).1 :=
  keyed_waiting hkeyed (List.Subset.refl _) fun item hitem => h item.1 (List.fst_mem_of_mem_zipIdx hitem)

theorem keyed_proceed {store : Store} {i id : Nat} {progress : Progress} (hkeyed : Keyed sys)
    (h : progress.collect Stage.awaiting = []) : Keyed (sys.proceed i id store progress).1 := by
  refine keyed_waiting hkeyed (List.eraseIdx_sublist _ _).subset fun item hitem => ?_
  rw [List.mem_singleton.mp hitem, h]
  exact List.nodup_nil

theorem silent_enter {store : Store} {progress : List Progress} (hkeyed : Keyed sys)
    (h : ∀ item ∈ progress, item.Silent) :
    Hands sys (sys.enter store progress).1 (sys.enter store progress).2 ∧
      Keyed (sys.enter store progress).1 := by
  refine ⟨hands_enter h, keyed_enter store hkeyed fun item hitem => ?_⟩
  rw [(h item hitem).1]
  exact List.nodup_nil

theorem silent_proceed {store : Store} {i id : Nat} {stage : Stage} {progress : Progress}
    (hkeyed : Keyed sys) (hentry : sys.pool[i]? = some (id, stage)) (h : progress.Silent) :
    Hands sys (sys.proceed i id store progress).1 (sys.proceed i id store progress).2 ∧
      Keyed (sys.proceed i id store progress).1 :=
  ⟨hands_proceed hentry h, keyed_proceed hkeyed h.1⟩

theorem claimBatch_hands {env : Env} {newDispatchId : Nat → String} {claimedAt : Int}
    {queueName : String} {limit : Nat} (hformed : sys.store.WellFormed) (hkeyed : Keyed sys)
    (hstep : sys.serve (.claimBatch env newDispatchId claimedAt queueName limit) =
      some (sys', replied)) : Hands sys sys' replied ∧ Keyed sys' := by
  rcases Store.claimBatch_cases env newDispatchId claimedAt queueName limit hformed.ids with
    ⟨result, heq, hresult⟩ | ⟨claimed, -, heq, hclaimed⟩
  · simp only [System.serve, heq] at hstep
    split at hstep
    · obtain ⟨rfl, rfl⟩ := eq_of_some_eq hstep
      refine silent_enter hkeyed (silent_singleton (silent_done fun jobs hjobs => ?_))
      rcases hresult with rfl | ⟨error, rfl⟩
      · simpa using hjobs.symm
      · simp at hjobs
    · cases hstep
  · simp only [System.serve, heq] at hstep
    split at hstep
    · next hfresh =>
      obtain ⟨rfl, rfl⟩ := eq_of_some_eq hstep
      refine ⟨.claim claimed hfresh ?_ rfl rfl, keyed_enter sys.store hkeyed fun item hitem => ?_⟩
      · rw [collect_enter, List.flatMap_singleton]
        rfl
      · rw [List.mem_singleton.mp hitem]
        exact hclaimed.ids
    · cases hstep

theorem resume_hands {env : Env} {i : Nat} (hkeyed : Keyed sys)
    (hstep : sys.serve (.resume env i) = some (sys', replied)) :
    Hands sys sys' replied ∧ Keyed sys' := by
  obtain ⟨id, stage, hentry, rfl, rfl⟩ := serve_resume hstep
  by_cases hdispatch : ∃ claimed claimedAt, stage = .dispatch claimed claimedAt
  · obtain ⟨claimed, claimedAt, rfl⟩ := hdispatch
    have hids : (claimed.map IngestClaimed.id).Nodup := hkeyed _ (List.mem_of_getElem? hentry)
    rcases dispatch_hands sys.store env claimedAt hids with
      hsilent | ⟨jobs, hdone, hjobs⟩
    · exact silent_proceed hkeyed hentry hsilent
    · have hadvance : (sys.store.advance env (.dispatch claimed claimedAt)).2 =
          .done (.claimed (.ok jobs)) := hdone
      rw [hadvance]
      refine ⟨.hand claimed ?_ rfl ?_, keyed_proceed hkeyed rfl⟩
      · exact collect_perm Stage.awaiting (Lists.perm_eraseIdx hentry)
      · simpa [handedJobs, System.proceed, System.ended] using hjobs
  · exact silent_proceed hkeyed hentry
      (advance_silent env sys.store fun claimed claimedAt heq => hdispatch ⟨claimed, claimedAt, heq⟩)

theorem step_hands (hformed : sys.store.WellFormed) (hkeyed : Keyed sys)
    (hstep : sys.step action = some (sys', replied)) : Hands sys sys' replied ∧ Keyed sys' := by
  have hstart : ∀ {store : Store} {progress : List Progress},
      sys.store.start action = some (store, progress) →
      (∀ env newDispatchId claimedAt queueName limit,
        action ≠ .claimBatch env newDispatchId claimedAt queueName limit) →
      Hands sys (sys.enter store progress).1 (sys.enter store progress).2 ∧
        Keyed (sys.enter store progress).1 := fun hstart hclaim =>
    silent_enter hkeyed (start_silent hformed hstart hclaim)
  rcases step_cases hstep with ⟨-, hserve⟩ | ⟨-, rfl, names, phase, rfl⟩ |
    ⟨env, key, rest, -, rfl, rfl⟩
  · cases action with
    | claimBatch env newDispatchId claimedAt queueName limit =>
      exact claimBatch_hands hformed hkeyed hserve
    | resume env i => exact resume_hands hkeyed hserve
    | fault error i =>
      obtain ⟨id, stage, hentry, rfl, rfl⟩ := serve_fault hserve
      exact silent_proceed hkeyed hentry (faulted_silent error stage)
    | crash =>
      obtain ⟨rfl, rfl⟩ := eq_of_some_eq hserve
      exact ⟨.keep (List.nil_sublist _) rfl rfl, fun entry hentry => by cases hentry⟩
    | reopen choice => cases hserve
    | heal env => cases hserve
    | upsertQueue | enqueue | complete | releaseClaim | recoverStaleLeases | cleanupExpiredRecords |
        getJob =>
      obtain ⟨rfl, rfl⟩ := eq_of_some_eq hserve
      exact hstart rfl (by simp)
  · exact ⟨.keep (List.Sublist.refl _) rfl rfl, hkeyed⟩
  · exact ⟨.keep (List.Sublist.refl _) rfl rfl, hkeyed⟩

end Step

end Maqistor
