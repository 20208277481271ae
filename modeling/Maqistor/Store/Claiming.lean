import Maqistor.Results.Commit
import Maqistor.Store.Alone

/-! `claim_batch` on its own: what it takes, how the claims come back when the dispatch fails, and
when a claim that fails leaves the executions alone. -/

namespace Maqistor

open ResultsConn IngestConn

namespace Store

/-- The jobs that a claim takes. -/
def takes (queueName : String) (limit : Nat) (store : Store) : List PendingClaim :=
  if queueName ∈ store.queueNames then pendingClaims queueName (clampLimit limit) store.ingest else []

/-- The store between the two commits of a claim: the rows are marked, and not yet dispatched. -/
def afterMarking (now : Int) (claimed : List IngestClaimed) (store : Store) : Store :=
  { store with ingest := { store.ingest with
      acceptedJobs := store.ingest.acceptedJobs.map (claimedRow now claimed) } }

/-- New ids: all different, and none that a database holds. -/
structure FreshIds (newDispatchId : Nat → String) (store : Store) : Prop where
  distinct : Function.Injective newDispatchId
  accepted : ∀ i, ∀ row ∈ store.ingest.acceptedJobs, row.dispatchId ≠ some (newDispatchId i)
  executions : ∀ i, ∀ row ∈ store.results.executions, row.dispatchId ≠ newDispatchId i

section Claim

variable {store : Store} {env : Env} {envs : Stage → Env} {newDispatchId : Nat → String}
  {claimedAt : Int} {queueName : String} {limit : Nat} {claimed : List IngestClaimed}

/-- A claim that finds nothing ends at once; any other one waits for its dispatch. -/
theorem claimBatch_takes (env : Env) (newDispatchId : Nat → String) (claimedAt : Int)
    (queueName : String) (limit : Nat) (h : store.WellFormed) :
    (∃ result, store.takes queueName limit = [] ∧ (queueName ∈ store.queueNames → result = .ok []) ∧
      store.claimBatch env newDispatchId claimedAt queueName limit = (store, .done (.claimed result))) ∨
    (store.takes queueName limit ≠ [] ∧ queueName ∈ store.queueNames ∧
      store.claimBatch env newDispatchId claimedAt queueName limit =
        (store.afterMarking env.now (taken newDispatchId (store.takes queueName limit)),
          .wait (.dispatch (taken newDispatchId (store.takes queueName limit)) claimedAt))) := by
  unfold claimBatch takes
  by_cases hqueue : queueName ∈ store.queueNames
  · rw [claimBatch_eq env newDispatchId limit hqueue h.ids, if_pos hqueue]
    cases hpending : pendingClaims queueName (clampLimit limit) store.ingest with
    | nil =>
      refine Or.inl ⟨.ok [], rfl, fun _ => rfl, ?_⟩
      rw [show taken newDispatchId [] = [] from rfl, show claimedRow env.now [] = id from rfl,
        List.map_id]
    | cons first rest => exact Or.inr ⟨List.cons_ne_nil _ _, hqueue, rfl⟩
  · rw [IngestConn.claimBatch, if_neg hqueue, if_neg hqueue]
    exact Or.inl ⟨_, rfl, fun hknown => absurd hknown hqueue, rfl⟩

theorem takes_claimed (newDispatchId : Nat → String) (queueName : String) (limit : Nat)
    (h : store.WellFormed) : Claimed store.ingest.acceptedJobs queueName
      (taken newDispatchId (store.takes queueName limit)) := by
  unfold takes
  split
  · exact taken_claimed newDispatchId queueName _ h.ids
  · exact ⟨List.nodup_nil, fun entry hentry => by cases hentry⟩

/-! ### The rows of the dispatch -/

theorem dispatchRow_jobIds (claimedAt : Int) (claimed : List IngestClaimed) :
    (claimed.map (dispatchRow claimedAt)).map DispatchInsert.jobId = claimed.map IngestClaimed.id := by
  rw [List.map_map]
  rfl

theorem dispatchRow_dispatchIds (claimedAt : Int) (claimed : List IngestClaimed) :
    (claimed.map (dispatchRow claimedAt)).map DispatchInsert.dispatchId =
      claimed.map IngestClaimed.dispatchId := by
  rw [List.map_map]
  rfl

/-- What a claim under new ids hands to the dispatch. -/
theorem freshRows_taken (hfresh : store.FreshIds newDispatchId) (claimedAt : Int)
    {pending : List PendingClaim} (hids : (pending.map PendingClaim.id).Nodup) :
    FreshRows ((taken newDispatchId pending).map (dispatchRow claimedAt))
      store.results.executions := by
  refine ⟨?_, ?_, fun row hrow other hother => ?_⟩
  · rwa [dispatchRow_jobIds, taken_ids]
  · rw [dispatchRow_dispatchIds, taken_dispatchIds]
    exact List.nodup_range.map hfresh.distinct
  · obtain ⟨entry, hentry, rfl⟩ := List.mem_map.mp hrow
    obtain ⟨item, i, -, -, rfl⟩ := mem_taken hentry
    exact hfresh.executions i other hother

/-- A statement about the rows of the dispatch, read off the jobs that the claim takes. -/
theorem forall_dispatchRow {P : Int → String → Prop} {pending : List PendingClaim} :
    (∀ row ∈ (taken newDispatchId pending).map (dispatchRow claimedAt), P row.jobId row.queueName) ↔
      ∀ job ∈ pending, P job.id job.name := by
  constructor
  · intro h job hjob
    obtain ⟨i, hi⟩ := List.mem_iff_getElem?.mp hjob
    exact h (dispatchRow claimedAt (toClaimed (job, newDispatchId i)))
      (List.mem_map_of_mem (List.mem_map.mpr ⟨(job, newDispatchId i), List.mem_map.mpr
        ⟨(job, i), List.mem_zipIdx_iff_getElem?.mpr hi, rfl⟩, rfl⟩))
  · intro h row hrow
    obtain ⟨entry, hentry, rfl⟩ := List.mem_map.mp hrow
    obtain ⟨item, i, hitem, -, rfl⟩ := mem_taken hentry
    exact h item hitem

/-! ### The loop after a failed dispatch -/

theorem alone_undoClaims (store : Store) (error : StoreError) (claimed : List IngestClaimed) :
    ∃ f, Repends (claimed.map IngestClaimed.key) f ∧
      alone envs (store, undoClaims error claimed) =
        ({ store with ingest := { store.ingest with
            acceptedJobs := store.ingest.acceptedJobs.map f } }, .done (.claimed (.error error))) := by
  induction claimed generalizing store with
  | nil =>
    refine ⟨_, Repends.nil, ?_⟩
    rw [undoClaims, alone_done, List.map_id']
  | cons row rest ih =>
    obtain ⟨f, hf, hend⟩ := ih (store.repend (envs (.undoClaim row rest error)) row.id row.dispatchId)
    refine ⟨f ∘ rependRow (envs (.undoClaim row rest error)).now row.key, hf.cons _ row.key, ?_⟩
    rw [undoClaims, alone_wait, advance, hend, repend_eq, ← List.map_map]
    rfl

theorem alone_dispatch_error {results : ResultsConn} {error : StoreError}
    (hdispatch : store.results.dispatchBatch (envs (.dispatch claimed claimedAt))
      (claimed.map (dispatchRow claimedAt)) = (results, .error error)) :
    ∃ f, Repends (claimed.map IngestClaimed.key) f ∧
      alone envs (store, .wait (.dispatch claimed claimedAt)) =
        ({ store with
            ingest := { store.ingest with acceptedJobs := store.ingest.acceptedJobs.map f }
            results := results }, .done (.claimed (.error error))) := by
  rw [alone_wait, advance, dispatch, hdispatch]
  exact alone_undoClaims { store with results := results } error claimed

/-- A claim that is taken back leaves a row as it was, up to its update time. -/
theorem untimed_undone {rows : List AcceptedJob} (hids : (rows.map AcceptedJob.id).Nodup)
    (hclaimed : Claimed rows queueName claimed) {f : AcceptedJob → AcceptedJob}
    (hf : Repends (claimed.map IngestClaimed.key) f) (now : Int) {row : AcceptedJob}
    (hrow : row ∈ rows) : (f (claimedRow now claimed row)).untimed = row.untimed := by
  rw [hf]
  rcases claimedRow_cases now claimed row with ⟨heq, hnone⟩ | ⟨entry, hentry, hfree, heq⟩
  · rw [heq, if_neg]
    intro hany
    obtain ⟨key, hkey, hunder⟩ := List.any_eq_true.mp hany
    obtain ⟨entry, hentry, rfl⟩ := List.mem_map.mp hkey
    obtain ⟨hid, hclaim⟩ := of_decide_eq_true hunder
    -- the row that the entry was claimed from was free
    obtain ⟨source, hsource, hsourceId, hsourceFree, -⟩ := hclaimed.free entry hentry
    have hsame : source = row := List.inj_on_of_nodup_map hids hsource hrow (hsourceId.trans hid.symm)
    rw [hsame, hclaim] at hsourceFree
    cases hsourceFree
  · have hunder : (claimed.map IngestClaimed.key).any
        (claimedUnder (marked now row entry.dispatchId)) = true := by
      refine List.any_eq_true.mpr
        ⟨entry.key, List.mem_map_of_mem (Table.mem_of_lookup hentry), ?_⟩
      simp [claimedUnder, marked, IngestClaimed.key, Table.key_of_lookup hentry]
    rw [heq, if_pos hunder]
    simp [AcceptedJob.untimed, marked, hfree]

/-! ### Claims that fail -/

/-- The call when its database reports an error at the dispatch and commits nothing, or reports
none. -/
def claimCall (envs : Stage → Env) (fault : Option StoreError) (call : Store × Progress) :
    Store × Progress :=
  match fault, call with
  | some error, (store, .wait stage) => alone envs (store, faulted error stage)
  | _, call => alone envs call

theorem claimCall_none (call : Store × Progress) : claimCall envs none call = alone envs call := rfl

/-- The accepted rows are back, up to their update times, and the executions have not changed. -/
structure Unchanged (store store' : Store) : Prop where
  accepted : store'.ingest.acceptedJobs.map AcceptedJob.untimed =
    store.ingest.acceptedJobs.map AcceptedJob.untimed
  executions : store'.results.executions = store.results.executions

/-- A claim that answers an error has changed nothing. -/
def FailsClean (newDispatchId : Nat → String) (queueName : String) (limit : Nat) (store : Store) :
    Prop :=
  ∀ env envs claimedAt fault store' error,
    claimCall envs fault (store.claimBatch env newDispatchId claimedAt queueName limit) =
      (store', .done (.claimed (.error error))) →
    store.Unchanged store'

/-- What the loop after a failed dispatch leaves of a claim. -/
theorem unchanged_undone (h : store.WellFormed) (env : Env) (error : StoreError)
    (hclaimed : Claimed store.ingest.acceptedJobs queueName claimed) {store' : Store} {reply : Reply}
    (hend : alone envs (store.afterMarking env.now claimed, undoClaims error claimed) =
      (store', .done reply)) : store.Unchanged store' := by
  obtain ⟨f, hf, hundone⟩ := @alone_undoClaims envs (store.afterMarking env.now claimed) error claimed
  rw [hundone] at hend
  obtain ⟨rfl, -⟩ := Prod.mk.inj hend
  refine ⟨?_, rfl⟩
  dsimp only [afterMarking]
  rw [List.map_map, List.map_map]
  exact List.map_congr_left fun row hrow => untimed_undone h.ids hclaimed hf env.now hrow

/-- Whether the batch of a claim mixes jobs, in terms of the jobs that it takes. -/
theorem mixed_taken (claimedAt : Int) {pending : List PendingClaim} :
    Mixed store.results.executionQueues ((taken newDispatchId pending).map (dispatchRow claimedAt))
      store.results.executions ↔
    (∃ job ∈ pending, ¬Available (store.results.execution job.id)) ∧
    (∃ job ∈ pending, Available (store.results.execution job.id)) ∧
    ∀ job ∈ pending, Available (store.results.execution job.id) →
      Startable store.results.executionQueues job.name (store.results.execution job.id) := by
  have hbusy := not_congr (@forall_dispatchRow newDispatchId claimedAt
    (fun id _ => Available (store.results.execution id)) pending)
  have havailable := not_congr (@forall_dispatchRow newDispatchId claimedAt
    (fun id _ => ¬Available (store.results.execution id)) pending)
  have hstart := @forall_dispatchRow newDispatchId claimedAt
    (fun id name => Available (store.results.execution id) →
      Startable store.results.executionQueues name (store.results.execution id)) pending
  push Not at hbusy havailable
  constructor
  · rintro ⟨hsome, hother, hall⟩
    exact ⟨hbusy.mp hsome, havailable.mp hother, hstart.mp hall⟩
  · rintro ⟨hsome, hother, hall⟩
    exact ⟨hbusy.mpr hsome, havailable.mpr hother, hstart.mpr hall⟩

/-- A claim that fails changes nothing, exactly when its batch does not mix a job that runs or is
done with one that can be started while nothing in it makes the dispatch roll back. -/
theorem failed_claim_clean_iff (h : store.WellFormed) (hfresh : store.FreshIds newDispatchId) :
    store.FailsClean newDispatchId queueName limit ↔
      ¬((∃ job ∈ store.takes queueName limit, ¬Available (store.results.execution job.id)) ∧
        (∃ job ∈ store.takes queueName limit, Available (store.results.execution job.id)) ∧
        ∀ job ∈ store.takes queueName limit, Available (store.results.execution job.id) →
          Startable store.results.executionQueues job.name (store.results.execution job.id)) := by
  have hclaimed := takes_claimed newDispatchId queueName limit h
  constructor
  · intro hclean hmixed
    obtain ⟨job, hjob, -⟩ := hmixed.1
    rw [← @mixed_taken store newDispatchId 0] at hmixed
    rcases claimBatch_takes (Env.atTime 0) newDispatchId 0 queueName limit h with
      ⟨-, hnil, -, -⟩ | ⟨-, -, hclaim⟩
    · rw [hnil] at hjob
      cases hjob
    · have hids : ((store.takes queueName limit).map PendingClaim.id).Nodup := by
        rw [← taken_ids newDispatchId]
        exact hclaimed.ids
      obtain ⟨executions, error, hdispatch, hchanged⟩ :=
        hmixed.strands (Env.atTime 0) (freshRows_taken hfresh 0 hids) h.valid
      obtain ⟨f, -, hundone⟩ := @alone_dispatch_error
        (store.afterMarking 0 (taken newDispatchId (store.takes queueName limit)))
        (fun _ => Env.atTime 0) 0 _ _ error hdispatch
      have hkept := hclean (Env.atTime 0) (fun _ => Env.atTime 0) 0 none
      rw [hclaim] at hkept
      exact hchanged (hkept _ _ hundone).executions
  · intro hmixed env envs claimedAt fault store' error hrun
    rw [← @mixed_taken store newDispatchId claimedAt] at hmixed
    rcases claimBatch_takes env newDispatchId claimedAt queueName limit h with
      ⟨result, -, -, hclaim⟩ | ⟨-, -, hclaim⟩
    · have hsame : store' = store := by
        rw [hclaim] at hrun
        cases fault <;> exact (Prod.mk.inj ((alone_done store _).symm.trans hrun)).1.symm
      exact hsame ▸ ⟨rfl, rfl⟩
    · rw [hclaim] at hrun
      cases fault with
      | some fault => exact unchanged_undone h env fault hclaimed hrun
      | none =>
        rw [claimCall_none, alone_wait, advance, dispatch] at hrun
        split at hrun
        · next results other hdispatch =>
          obtain rfl := dispatchBatch_error_keeps (by rw [dispatchRow_jobIds]; exact hclaimed.ids)
            h.valid hmixed hdispatch
          exact unchanged_undone h env other hclaimed hrun
        · rw [alone_done] at hrun
          cases (Prod.mk.inj hrun).2

end Claim

/-- New ids for concrete runs: each is one letter longer than the one before. -/
def countedId (i : Nat) : String := String.ofList (List.replicate (i + 1) 'n')

theorem countedId_injective : Function.Injective countedId := by
  intro i j h
  have hlength := congrArg List.length (String.ofList_injective h)
  simpa using hlength

theorem countedId_ne (i : Nat) : "a" ≠ countedId i := by
  intro h
  have hletters : ['a'] = List.replicate (i + 1) 'n' := String.ofList_injective h
  exact absurd (List.head_eq_of_cons_eq hletters) (by decide)

/-- Two free jobs, the first of which has an execution. -/
def attemptedMail (status : ExecutionStatus) : Store :=
  { ingest := { jobQueues := [mailQueue]
                acceptedJobs := [⟨1, "mail", [], none, 0, 5⟩, ⟨2, "mail", [], none, 1, 6⟩] }
    queueNames := ["mail"]
    results := { executionQueues := [mailQueue]
                 executions := [⟨1, 1, "mail", status, 1, some 35, "a", none, none, 5, 5⟩] } }

theorem attemptedMail_wellFormed (status : ExecutionStatus) : (attemptedMail status).WellFormed := by
  refine ⟨?_, ⟨?_, ?_, ?_, ?_⟩⟩ <;> simp [attemptedMail, mailQueue]

theorem attemptedMail_freshIds (status : ExecutionStatus) :
    (attemptedMail status).FreshIds countedId := by
  refine ⟨countedId_injective, fun i row hrow => ?_, fun i row hrow => ?_⟩
  · simp only [attemptedMail, List.mem_cons, List.not_mem_nil, or_false] at hrow
    rcases hrow with rfl | rfl <;> simp
  · simp only [attemptedMail, List.mem_singleton] at hrow
    subst hrow
    exact countedId_ne i

theorem failed_claim_clean_iff_failed_attempt :
    (attemptedMail .failed).FailsClean countedId "mail" 2 :=
  (failed_claim_clean_iff (attemptedMail_wellFormed .failed) (attemptedMail_freshIds .failed)).mpr
    fun hmixed => absurd hmixed.1 (by decide)

/-- The first job is running: the dispatch refuses it after it has committed the second one, which
is then claimable and has a live execution that nobody was handed. -/
theorem failed_claim_strands_job :
    (attemptedMail .running).WellFormed ∧ (attemptedMail .running).FreshIds countedId ∧
    claimCall (fun _ => .atTime 9) none
        ((attemptedMail .running).claimBatch (.atTime 8) countedId 8 "mail" 2) =
      ({ attemptedMail .running with
          ingest := { jobQueues := [mailQueue]
                      acceptedJobs := [⟨1, "mail", [], none, 0, 9⟩, ⟨2, "mail", [], none, 1, 9⟩] }
          results := { executionQueues := [mailQueue]
                       executions := [⟨1, 1, "mail", .running, 1, some 35, "a", none, none, 5, 5⟩,
                         ⟨2, 2, "mail", .running, 1, some 30008, countedId 1, none, none, 9, 9⟩] } },
        .done (.claimed (.error (dispatchMissing 1)))) ∧
    ¬(attemptedMail .running).FailsClean countedId "mail" 2 := by
  have hrun : claimCall (fun _ => .atTime 9) none
        ((attemptedMail .running).claimBatch (.atTime 8) countedId 8 "mail" 2) =
      ({ attemptedMail .running with
          ingest := { jobQueues := [mailQueue]
                      acceptedJobs := [⟨1, "mail", [], none, 0, 9⟩, ⟨2, "mail", [], none, 1, 9⟩] }
          results := { executionQueues := [mailQueue]
                       executions := [⟨1, 1, "mail", .running, 1, some 35, "a", none, none, 5, 5⟩,
                         ⟨2, 2, "mail", .running, 1, some 30008, countedId 1, none, none, 9, 9⟩] } },
        .done (.claimed (.error (dispatchMissing 1)))) := by decide
  refine ⟨attemptedMail_wellFormed .running, attemptedMail_freshIds .running, hrun, fun hclean => ?_⟩
  have hexecutions := (hclean _ _ _ _ _ _ hrun).executions
  revert hexecutions
  decide

end Store

end Maqistor
