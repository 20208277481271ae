import Maqistor.Store.Fifo

/-! A claim of many jobs against the loop over `claim_next` that `DurableStore` gives to a store
without a `claim_batch` of its own. Both are calls on their own, and the loop reads its clocks and
draws its ids in every round. -/

namespace Maqistor

open ResultsConn IngestConn

/-! ### What the clocks and the ids leave open -/

/-- A job without what its claim stamped on it. -/
def Job.unstamped (job : Job) : Job :=
  { job with dispatchId := none, leaseExpiresAt := none, updatedAt := 0 }

/-- A row of which only remains whether it is claimed, besides what the enqueue wrote. -/
def AcceptedJob.unstamped (row : AcceptedJob) : AcceptedJob :=
  { row with dispatchId := row.dispatchId.map fun _ => "", updatedAt := 0 }

def Execution.unstamped (row : Execution) : Execution :=
  { row with id := 0, dispatchId := "", leaseExpiresAt := row.leaseExpiresAt.map fun _ => 0
             createdAt := 0, updatedAt := 0 }

namespace Store

/-- Two stores with the same jobs in the same states. -/
structure SameJobs (a b : Store) : Prop where
  accepted : ∀ id, (Table.lookup AcceptedJob.id id a.ingest.acceptedJobs).map AcceptedJob.unstamped =
    (Table.lookup AcceptedJob.id id b.ingest.acceptedJobs).map AcceptedJob.unstamped
  executions : ∀ id, (a.results.execution id).map Execution.unstamped =
    (b.results.execution id).map Execution.unstamped
  jobQueues : a.ingest.jobQueues = b.ingest.jobQueues
  queueNames : a.queueNames = b.queueNames
  executionQueues : a.results.executionQueues = b.results.executionQueues

/-! ### The loop -/

/-- What one round of the loop takes from outside. -/
structure ClaimRound where
  env : Env
  envs : Stage → Env
  newDispatchId : Nat → String
  claimedAt : Int

/-- What a claim answers; no call of `claim_batch` ends with another reply. -/
def claimReply : Progress → Except StoreError (List Job)
  | .done (.claimed result) => result
  | _ => .ok []

/-- `claim_next`: a `claim_batch` of one job, then `pop`. -/
def claimNext (round : ClaimRound) (queueName : String) (store : Store) :
    Store × Except StoreError (Option Job) :=
  let (store', progress) := alone round.envs
    (store.claimBatch round.env round.newDispatchId round.claimedAt queueName 1)
  (store', (claimReply progress).map List.getLast?)

/-- The loop of `DurableStore::claim_batch` with so many rounds left: the jobs so far, then the
next. -/
def claimRounds (rounds : Nat → ClaimRound) (queueName : String) :
    Nat → Store → List Job → Store × Except StoreError (List Job)
  | 0, store, jobs => (store, .ok jobs)
  | left + 1, store, jobs =>
    match store.claimNext (rounds left) queueName with
    | (store', .error error) => (store', .error error)
    | (store', .ok none) => (store', .ok jobs)
    | (store', .ok (some job)) => claimRounds rounds queueName left store' (jobs ++ [job])

/-- `claim_batch` as the trait `DurableStore` has it. -/
def claimBatchDefault (rounds : Nat → ClaimRound) (queueName : String) (limit : Nat) (store : Store) :
    Store × Except StoreError (List Job) :=
  claimRounds rounds queueName (min limit maxClaimBatchSize) store []

/-! ### What either of them does -/

/-- The job that is handed out for a claimable row, as far as no clock or id has a part in it. -/
def handedJob (before : Store) (row : AcceptedJob) : Job :=
  { id := row.id, name := row.queueName, status := .running, payload := row.payload
    executionCount := attempts (before.results.execution row.id) + 1
    leaseExpiresAt := none, dispatchId := none, resultPayload := none, resultError := none
    createdAt := row.createdAt, updatedAt := 0 }

/-- The attempt that is started for a claimable row, likewise. -/
def handedExecution (before : Store) (row : AcceptedJob) : Execution :=
  { id := 0, jobId := row.id
    queueName := ((before.results.execution row.id).map (·.queueName)).getD row.queueName
    status := .running, executionCount := attempts (before.results.execution row.id) + 1
    leaseExpiresAt := some 0, dispatchId := "", resultPayload := none, resultError := none
    createdAt := 0, updatedAt := 0 }

/-- A claimable row has been handed out. -/
structure HandedOut (before after : Store) (row : AcceptedJob) (job : Job) : Prop where
  job : job.unstamped = handedJob before row
  accepted : (Table.lookup AcceptedJob.id row.id after.ingest.acceptedJobs).map AcceptedJob.unstamped =
    some { row with dispatchId := some "", updatedAt := 0 }
  execution : (after.results.execution row.id).map Execution.unstamped =
    some (handedExecution before row)

section Handing

variable {queue : JobQueue} {claimedAt markedAt dispatchedAt : Int} {before after store store' : Store}
  {row : AcceptedJob} {job : Job} {rows : List AcceptedJob} {jobs : List Job} {dispatchId : String}

theorem Handed.handedOut (h : Handed queue claimedAt markedAt dispatchedAt before after row job dispatchId) :
    HandedOut before after row job := by
  refine ⟨?_, ?_, ?_⟩
  · rw [h.job]
    rfl
  · rw [h.accepted]
    rfl
  · obtain ⟨attempt, hattempt, hdispatch⟩ := h.execution
    rw [hattempt, Option.map_some, Execution.unstamped, hdispatch.jobId, hdispatch.queueName,
      hdispatch.status, hdispatch.executionCount, hdispatch.leaseExpiresAt, hdispatch.resultPayload,
      hdispatch.resultError]
    rfl

theorem HandedOut.id (h : HandedOut before after row job) : job.id = row.id :=
  congrArg Job.id h.job

theorem handedOut_ids (h : List.Forall₂ (HandedOut before after) rows jobs) :
    jobs.map Job.id = rows.map AcceptedJob.id :=
  (Lists.map_eq_of_forall₂ h fun _ _ hrow => hrow.id.symm).symm

theorem exists_handedOut (h : List.Forall₂ (HandedOut before after) rows jobs) (hrow : row ∈ rows) :
    ∃ job, HandedOut before after row job := by
  induction h with
  | nil => cases hrow
  | cons hfirst _ ih =>
    rcases List.mem_cons.mp hrow with rfl | hrest
    · exact ⟨_, hfirst⟩
    · exact ih hrest

/-- Two ways to hand out the same rows, neither of which touches others. -/
theorem sameJobs_of_handedOut {a b : Store} {jobs' : List Job}
    (ha : List.Forall₂ (HandedOut store a) rows jobs) (hkeepsA : KeepsOthers jobs store a)
    (hb : List.Forall₂ (HandedOut store b) rows jobs') (hkeepsB : KeepsOthers jobs' store b) :
    SameJobs a b := by
  have hrowsA := handedOut_ids ha
  have hrowsB := handedOut_ids hb
  refine ⟨fun id => ?_, fun id => ?_, hkeepsA.jobQueues.trans hkeepsB.jobQueues.symm,
    hkeepsA.queueNames.trans hkeepsB.queueNames.symm,
    hkeepsA.executionQueues.trans hkeepsB.executionQueues.symm⟩
  · by_cases hid : id ∈ rows.map AcceptedJob.id
    · obtain ⟨row, hrow, rfl⟩ := List.mem_map.mp hid
      obtain ⟨_, hrowA⟩ := exists_handedOut ha hrow
      obtain ⟨_, hrowB⟩ := exists_handedOut hb hrow
      rw [hrowA.accepted, hrowB.accepted]
    · rw [hkeepsA.accepted id (hrowsA ▸ hid), hkeepsB.accepted id (hrowsB ▸ hid)]
  · by_cases hid : id ∈ rows.map AcceptedJob.id
    · obtain ⟨row, hrow, rfl⟩ := List.mem_map.mp hid
      obtain ⟨_, hrowA⟩ := exists_handedOut ha hrow
      obtain ⟨_, hrowB⟩ := exists_handedOut hb hrow
      rw [hrowA.execution, hrowB.execution]
    · rw [hkeepsA.executions id (hrowsA ▸ hid), hkeepsB.executions id (hrowsB ▸ hid)]

theorem KeepsOthers.trans {jobs' : List Job} {store'' : Store} (h : KeepsOthers jobs store store')
    (h' : KeepsOthers jobs' store' store'') : KeepsOthers (jobs ++ jobs') store store'' := by
  refine ⟨fun id hid => ?_, fun id hid => ?_, h'.jobQueues.trans h.jobQueues,
    h'.queueNames.trans h.queueNames, h'.executionQueues.trans h.executionQueues⟩
  all_goals rw [List.map_append, List.mem_append, not_or] at hid
  · rw [h'.accepted id hid.2, h.accepted id hid.1]
  · rw [h'.executions id hid.2, h.executions id hid.1]

/-! ### The queue after its first job is handed out -/

/-- What is left of a queue of which the first job has been claimed. -/
theorem ordered_of_handedOut (h : store.WellFormed) (h' : store'.WellFormed) {rest : List AcceptedJob}
    (hordered : store.ingest.ordered queue.name = row :: rest) (hrow : HandedOut store store' row job)
    (hkeeps : KeepsOthers [job] store store') : store'.ingest.ordered queue.name = rest := by
  have hids := ordered_ids_nodup queue.name h.ids
  rw [hordered, List.map_cons, List.nodup_cons] at hids
  have hmem : ∀ other, other ∈ store'.ingest.claimable queue.name ↔ other ∈ rest := by
    intro other
    have hbefore : other ∈ store.ingest.claimable queue.name ↔ other = row ∨ other ∈ rest := by
      rw [← (ordered_perm queue.name store.ingest).mem_iff, hordered, List.mem_cons]
    by_cases hid : other.id = row.id
    · -- the row of the job is claimed now, and no later one has its id
      have hrest : other ∉ rest := fun hrest => hids.1 (hid ▸ List.mem_map_of_mem hrest)
      refine iff_of_false (fun hclaimable => ?_) hrest
      obtain ⟨hstored, -, hfree⟩ := mem_claimable.mp hclaimable
      have haccepted := hrow.accepted
      rw [← hid, Table.lookup_of_mem h'.ids hstored, Option.map_some] at haccepted
      have hclaim := congrArg AcceptedJob.dispatchId (Option.some.inj haccepted)
      simp only [AcceptedJob.unstamped, hfree, Option.map_none] at hclaim
      cases hclaim
    · have hlookup := hkeeps.accepted other.id (by simpa [hrow.id] using hid)
      have hstored : other ∈ store'.ingest.acceptedJobs ↔ other ∈ store.ingest.acceptedJobs := by
        constructor
        · intro hin
          rw [Table.lookup_of_mem h'.ids hin] at hlookup
          exact Table.mem_of_lookup hlookup.symm
        · intro hin
          rw [Table.lookup_of_mem h.ids hin] at hlookup
          exact Table.mem_of_lookup hlookup
      have hne : other ≠ row := fun hsame => hid (congrArg AcceptedJob.id hsame)
      rw [mem_claimable, hstored, ← mem_claimable, hbefore]
      simp [hne]
  have hperm : (store'.ingest.ordered queue.name).Perm rest := by
    refine (List.perm_ext_iff_of_nodup (List.Nodup.of_map _ (ordered_ids_nodup _ h'.ids))
      (List.Nodup.of_map _ hids.2)).mpr fun other => ?_
    rw [(ordered_perm queue.name store'.ingest).mem_iff, hmem]
  have hsorted := ordered_pairwise queue.name store.ingest
  rw [hordered] at hsorted
  refine hperm.eq_of_pairwise (fun a b ha hb hab hba => ?_) (ordered_pairwise _ _) hsorted.of_cons
  rw [claimOrder_iff] at hab hba
  have hplace := congrArg (fun place => (ofLex place).2) (le_antisymm hab hba)
  exact List.inj_on_of_nodup_map hids.2 (hperm.mem_iff.mp ha) hb hplace

/-- The jobs that are left can be claimed as before. -/
theorem retriable_of_handedOut (hretriable : store.Retriable queue.name)
    {rest : List AcceptedJob} (hordered : store.ingest.ordered queue.name = row :: rest)
    (hordered' : store'.ingest.ordered queue.name = rest) (h : store.WellFormed)
    (hrow : HandedOut store store' row job) (hkeeps : KeepsOthers [job] store store') :
    store'.Retriable queue.name := by
  have hids := ordered_ids_nodup queue.name h.ids
  rw [hordered, List.map_cons, List.nodup_cons] at hids
  intro other hother execution hexecution
  have hrest : other ∈ rest := by
    rw [← hordered']
    exact (ordered_perm queue.name store'.ingest).mem_iff.mpr hother
  have hid : other.id ∉ [job].map Job.id := by
    rw [List.map_singleton, List.mem_singleton, hrow.id]
    exact fun hsame => hids.1 (hsame ▸ List.mem_map_of_mem hrest)
  refine hretriable other ?_ execution (hkeeps.executions other.id hid ▸ hexecution)
  rw [← (ordered_perm queue.name store.ingest).mem_iff, hordered]
  exact List.mem_cons_of_mem _ hrest

/-- What was handed out by a later round, seen from before the first one. -/
theorem HandedOut.before_keeps {store'' : Store} (h : HandedOut store' store'' row job)
    (hkeeps : KeepsOthers jobs store store') (hrow : row.id ∉ jobs.map Job.id) :
    HandedOut store store'' row job := by
  have hexecution := hkeeps.executions row.id hrow
  refine ⟨h.job.trans ?_, h.accepted, h.execution.trans ?_⟩
  · rw [handedJob, handedJob, hexecution]
  · rw [handedExecution, handedExecution, hexecution]

/-- What the first round handed out, seen from behind the later ones. -/
theorem HandedOut.after_keeps {store'' : Store} (h : HandedOut store store' row job)
    (hkeeps : KeepsOthers jobs store' store'') (hrow : row.id ∉ jobs.map Job.id) :
    HandedOut store store'' row job := by
  refine ⟨h.job, ?_, ?_⟩
  · rw [hkeeps.accepted row.id hrow]
    exact h.accepted
  · rw [hkeeps.executions row.id hrow]
    exact h.execution

end Handing

/-! ### New ids stay new -/

section Fresh

variable {store store' : Store} {queue : JobQueue} {newDispatchId other : Nat → String} {limit : Nat}
  {progress : Progress}

/-- Ids that are new, and that a claim does not draw, are new after it. -/
theorem FreshIds.after_claim (h : store.WellFormed) (hserves : store.Serves queue)
    (hretriable : store.Retriable queue.name) (hfresh : store.FreshIds newDispatchId)
    (hother : store.FreshIds other) (hdisjoint : ∀ i j, newDispatchId i ≠ other j) {env : Env}
    {envs : Stage → Env} {claimedAt : Int}
    (hrun : alone envs (store.claimBatch env newDispatchId claimedAt queue.name limit) =
      (store', progress)) : store'.FreshIds other := by
  obtain ⟨claimed, dispatchedAt, executions, returned, byJob, out, rfl, hend, hcommitted, hvalid, -⟩ :=
    alone_claimBatch_commits h hserves hretriable hfresh env envs claimedAt limit
  obtain ⟨rfl, -⟩ := Prod.mk.inj (hend.symm.trans hrun)
  refine ⟨hother.distinct, fun i row hrow hclaim => ?_, fun i row hrow hclaim => ?_⟩
  · obtain ⟨source, hsource, rfl⟩ := List.mem_map.mp hrow
    rcases claimedRow_cases env.now (taken newDispatchId (store.takes queue.name limit)) source with
      ⟨hsame, -⟩ | ⟨entry, hentry, -, hmarked⟩
    · rw [hsame] at hclaim
      exact hother.accepted i source hsource hclaim
    · obtain ⟨item, j, -, -, rfl⟩ := mem_taken (Table.mem_of_lookup hentry)
      rw [hmarked] at hclaim
      exact hdisjoint j i (Option.some.inj hclaim)
  · have hlookup := Table.lookup_of_mem hvalid.jobs hrow
    have hold : Table.lookup Execution.jobId row.jobId store.results.executions = some row → False :=
      fun hold => hother.executions i row (Table.mem_of_lookup hold) hclaim
    by_cases hjob : row.jobId ∈ ((taken newDispatchId (store.takes queue.name limit)).map
        (dispatchRow claimedAt)).map DispatchInsert.jobId
    · by_cases havailable :
          Available (Table.lookup Execution.jobId row.jobId store.results.executions)
      · obtain ⟨insert, hinsert, -, attempt, hattempt, -, hdispatch⟩ :=
          hcommitted.spec.started row.jobId hjob havailable
        obtain ⟨entry, hentry, rfl⟩ := List.mem_map.mp hinsert
        obtain ⟨item, j, -, -, rfl⟩ := mem_taken hentry
        rw [hlookup] at hattempt
        obtain rfl := Option.some.inj hattempt
        exact hdisjoint j i (hdispatch.dispatchId.symm.trans hclaim)
      · exact hold (hcommitted.spec.busy row.jobId havailable ▸ hlookup)
    · exact hold (hcommitted.spec.other row.jobId hjob ▸ hlookup)

end Fresh

/-! ### The loop agrees -/

section Loop

variable {store store' : Store} {queue : JobQueue} {rounds : Nat → ClaimRound}

/-- The ids of the rounds to come are new, and no two rounds draw the same. -/
structure FreshRounds (rounds : Nat → ClaimRound) (left : Nat) (store : Store) : Prop where
  fresh : ∀ i < left, store.FreshIds (rounds i).newDispatchId
  disjoint : ∀ i < left, ∀ j < i, ∀ k l, (rounds i).newDispatchId k ≠ (rounds j).newDispatchId l

/-- One round hands out the first job of the queue, if there is one. -/
theorem claimNext_hands_out (h : store.WellFormed) (hserves : store.Serves queue)
    (hretriable : store.Retriable queue.name) {round : ClaimRound}
    (hfresh : store.FreshIds round.newDispatchId) :
    ∃ store' jobs, store.claimNext round queue.name = (store', .ok jobs.getLast?) ∧
      alone round.envs (store.claimBatch round.env round.newDispatchId round.claimedAt queue.name 1) =
        (store', .done (.claimed (.ok jobs))) ∧
      List.Forall₂ (HandedOut store store') ((store.ingest.ordered queue.name).take 1) jobs ∧
      KeepsOthers jobs store store' ∧ store'.WellFormed := by
  obtain ⟨jobs, store', dispatchedAt, hrun, hhanded, -, hkeeps, hformed⟩ :=
    claim_hands_out h hserves hretriable hfresh Nat.one_pos round.env round.envs round.claimedAt
  refine ⟨store', jobs, ?_, hrun, ?_, hkeeps, hformed⟩
  · rw [claimNext, hrun]
    rfl
  · exact hhanded.imp fun row job ⟨dispatchId, hrow⟩ => hrow.handedOut

/-- The loop hands out the first jobs of the queue, as many as it has rounds. -/
theorem claimRounds_hands_out {left : Nat} (h : store.WellFormed) (hserves : store.Serves queue)
    (hretriable : store.Retriable queue.name) (hfresh : store.FreshRounds rounds left)
    (earlier : List Job) :
    ∃ store' jobs, claimRounds rounds queue.name left store earlier = (store', .ok (earlier ++ jobs)) ∧
      List.Forall₂ (HandedOut store store') ((store.ingest.ordered queue.name).take left) jobs ∧
      KeepsOthers jobs store store' := by
  induction left generalizing store earlier with
  | zero =>
    refine ⟨store, [], ?_, .nil, fun _ _ => rfl, fun _ _ => rfl, rfl, rfl, rfl⟩
    rw [claimRounds, List.append_nil]
  | succ left ih =>
    have hround := hfresh.fresh left (Nat.lt_succ_self left)
    obtain ⟨store₁, jobs, hnext, hrun, hhanded, hkeeps, hformed⟩ :=
      claimNext_hands_out h hserves hretriable hround
    cases hordered : store.ingest.ordered queue.name with
    | nil =>
      -- an empty queue ends the loop early
      rw [hordered, List.take_nil] at hhanded
      cases hhanded
      refine ⟨store₁, [], ?_, .nil, hkeeps⟩
      rw [claimRounds, hnext, List.append_nil]
      rfl
    | cons row rest =>
      rw [hordered, List.take_succ_cons, List.take_zero] at hhanded
      obtain ⟨job, _, hrow, hnil, rfl⟩ := List.forall₂_cons_left_iff.mp hhanded
      cases hnil
      have hrest := ordered_of_handedOut h hformed hordered hrow hkeeps
      have hids := ordered_ids_nodup queue.name h.ids
      rw [hordered, List.map_cons, List.nodup_cons] at hids
      have hfresh₁ : store₁.FreshRounds rounds left := by
        refine ⟨fun i hi => ?_, fun i hi j hj => hfresh.disjoint i (Nat.lt_succ_of_lt hi) j hj⟩
        exact FreshIds.after_claim h hserves hretriable hround (hfresh.fresh i (Nat.lt_succ_of_lt hi))
          (hfresh.disjoint left (Nat.lt_succ_self left) i hi) hrun
      obtain ⟨store₂, later, hlater, hhandedLater, hkeepsLater⟩ := ih hformed
        (hserves.of_keeps hkeeps)
        (retriable_of_handedOut hretriable hordered hrest h hrow hkeeps) hfresh₁ (earlier ++ [job])
      rw [hrest] at hhandedLater
      have hlaterIds := handedOut_ids hhandedLater
      have hrowLater : row.id ∉ later.map Job.id := by
        rw [hlaterIds]
        exact fun hmem => hids.1 ((List.take_sublist left rest).map _ |>.subset hmem)
      refine ⟨store₂, job :: later, ?_, .cons (hrow.after_keeps hkeepsLater hrowLater) ?_,
        hkeeps.trans hkeepsLater⟩
      · rw [claimRounds, hnext, List.append_cons]
        exact hlater
      · refine (Lists.forall₂_mem hhandedLater).imp fun other job' ⟨hother, _, hhanded⟩ => ?_
        refine hhanded.before_keeps hkeeps ?_
        rw [List.map_singleton, List.mem_singleton, hrow.id]
        exact fun hsame => hids.1 (hsame ▸ List.mem_map_of_mem (List.mem_of_mem_take hother))

/-- The claim of a batch does what the loop over single claims does: it hands out the same jobs in
the same order, and leaves both databases with the same jobs in the same states. -/
theorem claim_batch_agrees_with_loop {newDispatchId : Nat → String} {limit : Nat} (h : store.WellFormed)
    (hserves : store.Serves queue) (hretriable : store.Retriable queue.name)
    (hfresh : store.FreshIds newDispatchId)
    (hrounds : store.FreshRounds rounds (min limit maxClaimBatchSize)) (hlimit : 0 < limit) (env : Env)
    (envs : Stage → Env) (claimedAt : Int) :
    ∃ batchStore batchJobs loopStore loopJobs,
      alone envs (store.claimBatch env newDispatchId claimedAt queue.name limit) =
        (batchStore, .done (.claimed (.ok batchJobs))) ∧
      store.claimBatchDefault rounds queue.name limit = (loopStore, .ok loopJobs) ∧
      batchJobs.map Job.unstamped = loopJobs.map Job.unstamped ∧ SameJobs batchStore loopStore := by
  obtain ⟨batchJobs, batchStore, dispatchedAt, hrun, hhanded, -, hkeeps, -⟩ :=
    claim_hands_out h hserves hretriable hfresh hlimit env envs claimedAt
  obtain ⟨loopStore, loopJobs, hloop, hhandedLoop, hkeepsLoop⟩ :=
    claimRounds_hands_out h hserves hretriable hrounds []
  have hhandedBatch := hhanded.imp fun row job ⟨dispatchId, hrow⟩ => Handed.handedOut hrow
  refine ⟨batchStore, batchJobs, loopStore, loopJobs, hrun, hloop, ?_,
    sameJobs_of_handedOut hhandedBatch hkeeps hhandedLoop hkeepsLoop⟩
  exact (Lists.map_eq_of_forall₂ hhandedBatch fun _ _ hrow => hrow.job.symm).symm.trans
    (Lists.map_eq_of_forall₂ hhandedLoop fun _ _ hrow => hrow.job.symm)

/-- Rounds for concrete runs: the ids of each start with a letter for every round so far. -/
def countedRound (i : Nat) : ClaimRound :=
  { env := Env.atTime 8, envs := fun _ => Env.atTime 9, claimedAt := 8
    newDispatchId := fun k => String.ofList (List.replicate (i + 1) 'r' ++ List.replicate k 'n') }

theorem countedRound_injective {i j k l : Nat}
    (h : (countedRound i).newDispatchId k = (countedRound j).newDispatchId l) : i = j ∧ k = l := by
  have hletters := String.ofList_injective h
  have hrounds := congrArg (List.count 'r') hletters
  have hlength := congrArg List.length hletters
  simp [List.count_append, List.count_replicate] at hrounds hlength
  omega

theorem attemptedMail_freshRounds (status : ExecutionStatus) (left : Nat) :
    (attemptedMail status).FreshRounds countedRound left := by
  refine ⟨fun i _ => ⟨fun k l h => (countedRound_injective h).2, fun k row hrow => ?_,
    fun k row hrow => ?_⟩, fun i _ j hj k l h => hj.ne' (countedRound_injective h).1⟩
  · simp only [attemptedMail, List.mem_cons, List.not_mem_nil, or_false] at hrow
    rcases hrow with rfl | rfl <;> simp
  · simp only [attemptedMail, List.mem_singleton] at hrow
    subst hrow
    intro h
    have hletters : ['a'] = List.replicate (i + 1) 'r' ++ List.replicate k 'n' :=
      String.ofList_injective h
    rw [List.replicate_succ, List.cons_append] at hletters
    exact absurd (List.head_eq_of_cons_eq hletters) (by decide)

/-- Two free jobs, the first of which has failed once: the loop and the claim hand out both. -/
theorem claim_batch_agrees_with_loop_both : ∃ batchStore batchJobs loopStore loopJobs,
    alone (fun _ => Env.atTime 9)
      ((attemptedMail .failed).claimBatch (Env.atTime 8) countedId 8 "mail" 2) =
      (batchStore, .done (.claimed (.ok batchJobs))) ∧
    (attemptedMail .failed).claimBatchDefault countedRound "mail" 2 = (loopStore, .ok loopJobs) ∧
    batchJobs.map Job.unstamped = loopJobs.map Job.unstamped ∧ SameJobs batchStore loopStore := by
  have hretriable : (attemptedMail .failed).Retriable mailQueue.name := by
    intro row hrow execution hexecution
    obtain rfl : execution = ⟨1, 1, "mail", .failed, 1, some 35, "a", none, none, 5, 5⟩ :=
      List.mem_singleton.mp (Table.mem_of_lookup hexecution)
    exact ⟨rfl, by decide, by decide⟩
  exact claim_batch_agrees_with_loop (attemptedMail_wellFormed .failed)
    ⟨by decide, by decide, by decide, by decide⟩ hretriable (attemptedMail_freshIds .failed)
    (attemptedMail_freshRounds .failed _) (by decide) (Env.atTime 8) (fun _ => Env.atTime 9) 8

end Loop

end Store

end Maqistor
