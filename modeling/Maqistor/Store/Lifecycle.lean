import Maqistor.Store.Rows
import Maqistor.Store.Retries

/-! The life of a job. Above the two databases stands a machine with one state for each stage of a
job, whose edges are the only ways from one stage to the next; the store refines it: every step of
the store moves every job along one edge, or leaves it where it is. -/

namespace Maqistor

open ResultsConn IngestConn

/-! ### The abstract machine -/

/-- Where a job stands, with the attempts that have started and the dispatch id that it is marked
with. -/
inductive JobStage where
  /-- It may be claimed. -/
  | pending (attempts : Int)
  /-- A claim has marked it; the attempt has not started. -/
  | claimed (attempts : Int) (dispatchId : String)
  | running (attempts : Int) (dispatchId : String)
  /-- The attempt has failed, another one is left, and the mark is still there. -/
  | retrying (attempts : Int) (dispatchId : String)
  | completed (attempts : Int)
  /-- The last attempt has failed. -/
  | exhausted (attempts : Int)
deriving DecidableEq, Repr

namespace JobStage

/-- The edges between the stages of a job of a queue with so many retries. -/
inductive Step (limit : Int) : JobStage → JobStage → Prop
  | claim (n : Int) (dispatchId : String) : Step limit (.pending n) (.claimed n dispatchId)
  | undo (n : Int) (dispatchId : String) : Step limit (.claimed n dispatchId) (.pending n)
  | dispatch (n : Int) (dispatchId : String) :
      Step limit (.claimed n dispatchId) (.running (n + 1) dispatchId)
  | succeed (n : Int) (dispatchId : String) : Step limit (.running n dispatchId) (.completed n)
  | fail {n : Int} (dispatchId : String) (hleft : n ≤ limit) :
      Step limit (.running n dispatchId) (.retrying n dispatchId)
  | exhaust {n : Int} (dispatchId : String) (hlast : limit < n) :
      Step limit (.running n dispatchId) (.exhausted n)
  | repend (n : Int) (dispatchId : String) : Step limit (.retrying n dispatchId) (.pending n)

/-- The status that a reader of the job sees. -/
def status : JobStage → ExecutionStatus
  | .pending _ => .pending
  | .claimed n _ => if n = 0 then .pending else .failed
  | .running _ _ => .running
  | .retrying _ _ => .failed
  | .completed _ => .completed
  | .exhausted _ => .failed

def attempts : JobStage → Int
  | .pending n => n
  | .claimed n _ => n
  | .running n _ => n
  | .retrying n _ => n
  | .completed n => n
  | .exhausted n => n

/-- How many attempts a job may have had at a stage. -/
def Bounded (limit : Int) : JobStage → Prop
  | .pending n => n ≤ limit
  | .claimed n _ => n ≤ limit
  | .running n _ => n ≤ limit + 1
  | .retrying n _ => n ≤ limit
  | .completed n => n ≤ limit + 1
  | .exhausted n => n = limit + 1

theorem Step.bounded {limit : Int} {a b : JobStage} (h : Step limit a b) (ha : a.Bounded limit) :
    b.Bounded limit := by
  cases h with
  | dispatch n dispatchId =>
    simp only [Bounded] at ha ⊢
    omega
  | exhaust dispatchId hlast =>
    simp only [Bounded] at ha ⊢
    omega
  | fail dispatchId hleft => exact hleft
  | _ => exact ha

end JobStage

/-- A job that has not come yet, or the queue of one with its stage. -/
abbrev JobLife := Option (String × JobStage)

/-- The edges in the life of a job: it is enqueued once and stays in its queue. -/
inductive JobLife.Step (limits : String → UInt32) : JobLife → JobLife → Prop
  | enqueue (queueName : String) : Step limits none (some (queueName, .pending 0))
  | move {queueName : String} {a b : JobStage} (h : a.Step (limits queueName).toNat b) :
      Step limits (some (queueName, a)) (some (queueName, b))

/-- A life along the edges keeps to the bound of its queue. -/
theorem JobLife.bounded {limits : String → UInt32} {life : JobLife}
    (h : Relation.ReflTransGen (JobLife.Step limits) none life) :
    ∀ queueName stage, life = some (queueName, stage) →
      stage.Bounded (limits queueName).toNat := by
  induction h with
  | refl => exact fun _ _ hnone => by cases hnone
  | tail _ hedge ih =>
    rintro queueName stage rfl
    cases hedge with
    | enqueue => exact Int.natCast_nonneg _
    | move hmove => exact hmove.bounded (ih _ _ rfl)

/-! ### The stage of a job in the store -/

/-- The stage of an accepted row with the execution of its job. -/
def jobStage (limit : Int) (row : AcceptedJob) (execution : Option Execution) : JobStage :=
  match row.dispatchId, execution with
  | none, execution => .pending (attempts execution)
  | some dispatchId, none => .claimed 0 dispatchId
  | some dispatchId, some attempt =>
    if attempt.dispatchId = dispatchId then
      match attempt.status with
      | .pending => .claimed attempt.executionCount dispatchId
      | .running => .running attempt.executionCount dispatchId
      | .completed => .completed attempt.executionCount
      | .failed =>
        if attempt.executionCount ≤ limit then .retrying attempt.executionCount dispatchId
        else .exhausted attempt.executionCount
    else .claimed attempt.executionCount dispatchId

def Store.jobLife (limits : String → UInt32) (jobId : Int) (store : Store) : JobLife :=
  (Table.lookup AcceptedJob.id jobId store.ingest.acceptedJobs).map fun row =>
    (row.queueName, jobStage (limits row.queueName).toNat row (store.results.execution jobId))

section Stage

variable {limit : Int} {row : AcceptedJob} {execution : Option Execution} {dispatchId : String}

theorem jobStage_free (h : row.dispatchId = none) :
    jobStage limit row execution = .pending (attempts execution) := by
  unfold jobStage
  rw [h]

/-- A marked job waits for its dispatch while no execution carries the mark. -/
theorem jobStage_claimed (h : row.dispatchId = some dispatchId)
    (hother : ∀ attempt, execution = some attempt → attempt.dispatchId ≠ dispatchId) :
    jobStage limit row execution = .claimed (attempts execution) dispatchId := by
  unfold jobStage
  rw [h]
  cases execution with
  | none => rfl
  | some attempt => exact if_neg (hother attempt rfl)

theorem jobStage_running (attempt : Execution) (h : row.dispatchId = some attempt.dispatchId)
    (hstatus : attempt.status = .running) :
    jobStage limit row (some attempt) = .running attempt.executionCount attempt.dispatchId := by
  simp only [jobStage, h, if_true, hstatus]

theorem jobStage_completed (attempt : Execution) (h : row.dispatchId = some attempt.dispatchId)
    (hstatus : attempt.status = .completed) :
    jobStage limit row (some attempt) = .completed attempt.executionCount := by
  simp only [jobStage, h, if_true, hstatus]

theorem jobStage_failed (attempt : Execution) (h : row.dispatchId = some attempt.dispatchId)
    (hstatus : attempt.status = .failed) :
    jobStage limit row (some attempt) =
      if attempt.executionCount ≤ limit then .retrying attempt.executionCount attempt.dispatchId
      else .exhausted attempt.executionCount := by
  simp only [jobStage, h, if_true, hstatus]

end Stage

/-! ### Every step of the store is an edge -/

section Refinement

variable {limits : String → UInt32} {sys sys' : System} {action : Action} {replied : Replied}

/-- What stands under the id of an accepted job after a step. -/
theorem step_row {row : AcceptedJob} (hids : (sys.store.ingest.acceptedJobs.map AcceptedJob.id).Nodup)
    (hok : Lasting (always limits) sys action) (hstep : sys.step action = some (sys', replied))
    {jobId : Int} (hrow : Table.lookup AcceptedJob.id jobId sys.store.ingest.acceptedJobs = some row) :
    ∃ row', Table.lookup AcceptedJob.id jobId sys'.store.ingest.acceptedJobs = some row' ∧
      RowMove row row' := by
  have hmoves := step_rows hids hstep
  generalize sys'.store.ingest.acceptedJobs = rows' at hmoves
  cases hmoves with
  | each f hf =>
    refine ⟨f row, ?_, hf row⟩
    have hkeeps : ∀ row, (f row).id = row.id := fun row => congrArg JobContent.id (hf row).content
    rw [Table.lookup_map hkeeps, hrow]
    rfl
  | enqueue jobs =>
    refine ⟨row, ?_, .same row⟩
    rw [Table.lookup_append, hrow]
    rfl
  | cleanup cutoff hcutoff =>
    rw [hcutoff] at hok
    cases hok.2.1

/-- The attempt of a job that is not marked with it may be followed by another one. -/
theorem Sound.again (h : Sound (always limits) sys) {row : AcceptedJob} {attempt : Execution}
    {jobId : Int} (hrow : Table.lookup AcceptedJob.id jobId sys.store.ingest.acceptedJobs = some row)
    (hattempt : sys.store.results.execution jobId = some attempt)
    (hmark : row.dispatchId ≠ some attempt.dispatchId) : attempt.status = .failed ∧
      attempt.executionCount ≤ (limits row.queueName).toNat := by
  have hjob := Table.mem_of_lookup hrow
  have hexecution := Table.mem_of_lookup hattempt
  have hid : row.id = attempt.jobId :=
    (Table.key_of_lookup hrow).trans (Table.key_of_lookup hattempt).symm
  have hagain : Again (always limits) attempt := by
    by_contra hnot
    exact hmark (h.consistent.held attempt hexecution hnot row hjob hid)
  refine ⟨hagain.1, hagain.2 _ ?_⟩
  rw [h.consistent.named attempt hexecution row hjob hid]
  rfl

/-- A step that only marks rows, or frees them. -/
theorem jobLife_of_rowMove (h : Sound (always limits) sys) (h' : Sound (always limits) sys')
    (hexecutions : sys'.store.results.executions = sys.store.results.executions)
    {row row' : AcceptedJob} {jobId : Int}
    (hrow' : Table.lookup AcceptedJob.id jobId sys'.store.ingest.acceptedJobs = some row')
    (hmove : RowMove row row')
    (hfresh : ∀ dispatchId, row.dispatchId = none → row'.dispatchId = some dispatchId →
      dispatchId ∉ sys.issued.map Prod.snd) :
    jobStage (limits row.queueName).toNat row' (sys.store.results.execution jobId) =
        jobStage (limits row.queueName).toNat row (sys.store.results.execution jobId) ∨
      (jobStage (limits row.queueName).toNat row (sys.store.results.execution jobId)).Step
        (limits row.queueName).toNat
        (jobStage (limits row.queueName).toNat row' (sys.store.results.execution jobId)) := by
  have hsame : sys'.store.results.execution jobId = sys.store.results.execution jobId := by
    rw [ResultsConn.execution, hexecutions]
    rfl
  cases hmove with
  | same => exact Or.inl rfl
  | claim now dispatchId hfree =>
    right
    have hother : ∀ attempt, sys.store.results.execution jobId = some attempt →
        attempt.dispatchId ≠ dispatchId := by
      rintro attempt hattempt rfl
      refine hfresh _ hfree rfl ?_
      exact List.mem_map_of_mem
        (h.consistent.executed attempt (Table.mem_of_lookup hattempt))
    rw [jobStage_free hfree, jobStage_claimed (show (marked now row dispatchId).dispatchId = _ from rfl)
      hother]
    exact .claim _ _
  | @repend now dispatchId hmarked =>
    right
    rw [jobStage_free (show (released now row).dispatchId = none from rfl)]
    by_cases hcarried : ∃ attempt, sys.store.results.execution jobId = some attempt ∧
        attempt.dispatchId = dispatchId
    · obtain ⟨attempt, hattempt, rfl⟩ := hcarried
      obtain ⟨hfailed, hle⟩ := h'.again hrow' (hsame.trans hattempt) (by simp [released])
      have hleft : attempt.executionCount ≤ (limits row.queueName).toNat := hle
      rw [hattempt, jobStage_failed attempt hmarked hfailed, if_pos hleft]
      exact .repend _ _
    · rw [jobStage_claimed hmarked fun attempt hattempt hid => hcarried ⟨attempt, hattempt, hid⟩]
      exact .undo _ _

/-- A commit that finishes attempts. -/
theorem jobStage_of_finishes (h : Sound (always limits) sys) {f : Execution → Execution}
    (hf : Writer.Finishes f) {row : AcceptedJob} {jobId : Int}
    (hrow : Table.lookup AcceptedJob.id jobId sys.store.ingest.acceptedJobs = some row) :
    jobStage (limits row.queueName).toNat row ((sys.store.results.execution jobId).map f) =
        jobStage (limits row.queueName).toNat row (sys.store.results.execution jobId) ∨
      (jobStage (limits row.queueName).toNat row (sys.store.results.execution jobId)).Step
        (limits row.queueName).toNat
        (jobStage (limits row.queueName).toNat row ((sys.store.results.execution jobId).map f)) := by
  cases hattempt : sys.store.results.execution jobId with
  | none => exact Or.inl rfl
  | some attempt =>
    rw [Option.map_some]
    rcases hf attempt with hsame | ⟨hrunning, now, outcome, hfinished⟩
    · exact Or.inl (by rw [hsame])
    · right
      have hmark : row.dispatchId = some attempt.dispatchId := by
        by_contra hnot
        have hagain := h.again hrow hattempt hnot
        rw [hrunning] at hagain
        cases hagain.1
      rw [hfinished, jobStage_running attempt hmark hrunning]
      cases outcome with
      | succeeded payload =>
        rw [jobStage_completed (finished now attempt (.succeeded payload)) hmark rfl]
        exact .succeed _ _
      | failed message =>
        rw [jobStage_failed (finished now attempt (.failed message)) hmark rfl]
        split
        · next hleft => exact .fail _ hleft
        · next hlast => exact .exhaust _ (Int.not_le.mp hlast)

/-- A dispatch starts the attempts of the jobs that a claim has marked. -/
theorem jobStage_of_dispatch (h : Sound (always limits) sys) {now claimedAt : Int}
    {claimed : List IngestClaimed} {after returned : List Execution}
    (hspec : DispatchSpec now (claimed.map (Store.dispatchRow claimedAt))
      sys.store.results.executions after returned)
    (hawaiting : ∀ entry ∈ claimed, entry ∈ collect Stage.awaiting sys.pool)
    {row : AcceptedJob} {jobId : Int}
    (hrow : Table.lookup AcceptedJob.id jobId sys.store.ingest.acceptedJobs = some row) :
    jobStage (limits row.queueName).toNat row (Table.lookup Execution.jobId jobId after) =
        jobStage (limits row.queueName).toNat row (sys.store.results.execution jobId) ∨
      (jobStage (limits row.queueName).toNat row (sys.store.results.execution jobId)).Step
        (limits row.queueName).toNat
        (jobStage (limits row.queueName).toNat row (Table.lookup Execution.jobId jobId after)) := by
  by_cases hmem : jobId ∈ (claimed.map (Store.dispatchRow claimedAt)).map DispatchInsert.jobId
  · right
    obtain ⟨insert, hinsert, hinsertId⟩ := List.mem_map.mp hmem
    obtain ⟨entry, hentry, rfl⟩ := List.mem_map.mp hinsert
    have havailable : Available (Table.lookup Execution.jobId jobId sys.store.results.executions) := by
      rw [← hinsertId]
      exact h.consistent.available (hawaiting entry hentry)
    obtain ⟨started, hstarted, hstartedId, attempt, hattempt, -, hdispatch⟩ :=
      hspec.started jobId hmem havailable
    obtain ⟨entry, hentry, rfl⟩ := List.mem_map.mp hstarted
    have hawaits := h.consistent.awaits entry (hawaiting entry hentry)
    have hmark : row.dispatchId = some entry.dispatchId :=
      (hawaits.accepted row (Table.mem_of_lookup hrow)
        ((Table.key_of_lookup hrow).trans hstartedId.symm)).1
    have hattemptId : attempt.dispatchId = entry.dispatchId := hdispatch.dispatchId
    rw [hattempt, jobStage_running attempt (hattemptId ▸ hmark) hdispatch.status, hdispatch.executionCount,
      hattemptId, jobStage_claimed hmark]
    · exact .dispatch _ _
    · intro earlier hearlier
      exact (hawaits.executions earlier (Table.mem_of_lookup hearlier)
        ((Table.key_of_lookup hearlier).trans hstartedId.symm)).2
  · left
    rw [hspec.other jobId hmem]
    rfl

/-- A job comes in free, and no execution has its id. -/
theorem jobStage_of_absent (h : Sound (always limits) sys) (haccounted : Accounted sys)
    (hok : Lasting (always limits) sys action) (hstep : sys.step action = some (sys', replied))
    {jobId : Int} (hnone : Table.lookup AcceptedJob.id jobId sys.store.ingest.acceptedJobs = none)
    {row : AcceptedJob}
    (hrow : Table.lookup AcceptedJob.id jobId sys'.store.ingest.acceptedJobs = some row) (limit : Int) :
    jobStage limit row (sys'.store.results.execution jobId) = .pending 0 := by
  cases step_effect h hok.1 hstep with
  | rewrite f hf haccepted =>
    rw [haccepted, Table.lookup_map hf.id, hnone] at hrow
    cases hrow
  | enqueue jobs haccepted hexecutions =>
    rw [haccepted, Table.lookup_append, hnone] at hrow
    obtain ⟨job, -, rfl⟩ := List.mem_map.mp (Table.mem_of_lookup hrow)
    have hunexecuted : sys'.store.results.execution jobId = none := by
      rw [ResultsConn.execution, hexecutions]
      refine Table.lookup_eq_none.mpr fun attempt hattempt hid => ?_
      obtain ⟨job, hjob, hjobId⟩ := haccounted.executions attempt hattempt
      exact Table.lookup_eq_none.mp hnone job hjob (hjobId.trans hid)
    rw [hunexecuted, jobStage_free (show (unclaimed job).dispatchId = none from rfl)]
    rfl
  | finish f hf haccepted =>
    rw [haccepted, hnone] at hrow
    cases hrow
  | dispatch now claimedAt id claimed returned jobs haccepted =>
    rw [haccepted, hnone] at hrow
    cases hrow
  | cleanup p q hcleans => exact absurd hcleans (by simp [hok.2.1])

/-- Every step moves every job along one edge of its life, or leaves it. -/
theorem step_jobLife (h : Sound (always limits) sys) (haccounted : Accounted sys)
    (hok : Lasting (always limits) sys action) (hstep : sys.step action = some (sys', replied))
    (jobId : Int) : sys'.store.jobLife limits jobId = sys.store.jobLife limits jobId ∨
      JobLife.Step limits (sys.store.jobLife limits jobId) (sys'.store.jobLife limits jobId) := by
  have h' := step_sound h (hok.careful haccounted) hstep
  cases hrow : Table.lookup AcceptedJob.id jobId sys.store.ingest.acceptedJobs with
  | none =>
    cases hrow' : Table.lookup AcceptedJob.id jobId sys'.store.ingest.acceptedJobs with
    | none =>
      left
      rw [Store.jobLife, Store.jobLife, hrow, hrow', Option.map_none, Option.map_none]
    | some row' =>
      right
      rw [Store.jobLife, Store.jobLife, hrow, hrow', Option.map_none, Option.map_some,
        jobStage_of_absent h haccounted hok hstep hrow hrow']
      exact .enqueue _
  | some row =>
    obtain ⟨row', hrow', hmove⟩ := step_row h.consistent.ids hok hstep hrow
    have hqueue : row'.queueName = row.queueName := congrArg JobContent.queueName hmove.content
    rw [Store.jobLife, Store.jobLife, hrow, hrow', Option.map_some, Option.map_some, hqueue]
    suffices hedge :
        jobStage (limits row.queueName).toNat row' (sys'.store.results.execution jobId) =
            jobStage (limits row.queueName).toNat row (sys.store.results.execution jobId) ∨
          (jobStage (limits row.queueName).toNat row (sys.store.results.execution jobId)).Step
            (limits row.queueName).toNat
            (jobStage (limits row.queueName).toNat row' (sys'.store.results.execution jobId)) by
      rcases hedge with hsame | hedge
      · exact Or.inl (by rw [hsame])
      · exact Or.inr (.move hedge)
    cases step_effect h hok.1 hstep with
    | rewrite f hf haccepted hexecutions hawaiting hreplied =>
      have hsame : sys'.store.results.execution jobId = sys.store.results.execution jobId := by
        rw [ResultsConn.execution, hexecutions]
        rfl
      rw [hsame]
      refine jobLife_of_rowMove h h' hexecutions hrow' hmove fun dispatchId hfree hmarked => ?_
      have hrewritten : f row = row' := by
        rw [haccepted, Table.lookup_map hf.id, hrow] at hrow'
        exact Option.some.inj hrow'
      refine (hf.marks row dispatchId (hrewritten ▸ hmarked)).resolve_left fun hmark => ?_
      rw [hfree] at hmark
      cases hmark
    | enqueue jobs haccepted hexecutions hawaiting hreplied =>
      left
      rw [haccepted, Table.lookup_append, hrow] at hrow'
      obtain rfl := Option.some.inj hrow'
      rw [ResultsConn.execution, hexecutions]
      rfl
    | finish f hf haccepted hexecutions hdue hawaiting hreplied =>
      have hkept : row' = row := Option.some.inj (hrow'.symm.trans (haccepted ▸ hrow))
      have hmapped : sys'.store.results.execution jobId =
          (sys.store.results.execution jobId).map f := by
        rw [ResultsConn.execution, hexecutions]
        exact Table.lookup_map (hf.keeps Execution.jobId fun _ _ _ => finished_jobId _ _ _)
      rw [hkept, hmapped]
      exact jobStage_of_finishes h hf hrow
    | dispatch now claimedAt id claimed returned jobs haccepted hspec hjobs hawaiting hreplied =>
      have hkept : row' = row := Option.some.inj (hrow'.symm.trans (haccepted ▸ hrow))
      rw [hkept]
      exact jobStage_of_dispatch h hspec
        (fun entry hentry => hawaiting.mem_iff.mpr (List.mem_append_left _ hentry)) hrow
    | cleanup p q hcleans => exact absurd hcleans (by simp [hok.2.1])

/-- What a reader of both rows of a job sees is what its stage says. -/
theorem Sound.reads (h : Sound (always limits) sys) {row : AcceptedJob} {jobId : Int}
    (hrow : Table.lookup AcceptedJob.id jobId sys.store.ingest.acceptedJobs = some row) :
    (Job.fromAccepted row (sys.store.results.execution jobId)).status =
        (jobStage (limits row.queueName).toNat row (sys.store.results.execution jobId)).status ∧
      (Job.fromAccepted row (sys.store.results.execution jobId)).executionCount =
        (jobStage (limits row.queueName).toNat row (sys.store.results.execution jobId)).attempts := by
  cases hattempt : sys.store.results.execution jobId with
  | none =>
    cases hmark : row.dispatchId with
    | none =>
      rw [jobStage_free hmark]
      exact ⟨rfl, rfl⟩
    | some dispatchId =>
      rw [jobStage_claimed hmark fun _ hnone => by cases hnone]
      exact ⟨rfl, rfl⟩
  | some attempt =>
    have hpositive := (h.consistent.counted attempt (Table.mem_of_lookup hattempt)).1
    have hattempts : attempts (some attempt) = attempt.executionCount := rfl
    by_cases hcarried : row.dispatchId = some attempt.dispatchId
    · have hread : (Job.fromAccepted row (some attempt)).status = attempt.status := by
        simp [Job.fromAccepted, hcarried]
      rw [hread]
      cases hstatus : attempt.status with
      | pending => exact absurd hstatus (h.consistent.started attempt (Table.mem_of_lookup hattempt))
      | running =>
        rw [jobStage_running attempt hcarried hstatus]
        exact ⟨rfl, rfl⟩
      | completed =>
        rw [jobStage_completed attempt hcarried hstatus]
        exact ⟨rfl, rfl⟩
      | failed =>
        rw [jobStage_failed attempt hcarried hstatus]
        split <;> exact ⟨rfl, rfl⟩
    · obtain ⟨hfailed, -⟩ := h.again hrow hattempt hcarried
      cases hmark : row.dispatchId with
      | none =>
        rw [jobStage_free hmark]
        refine ⟨?_, rfl⟩
        simp [Job.fromAccepted, hmark, hfailed, JobStage.status]
      | some dispatchId =>
        have hother : ∀ other, some attempt = some other → other.dispatchId ≠ dispatchId := by
          rintro other hsame rfl
          obtain rfl := Option.some.inj hsame
          exact hcarried hmark
        rw [jobStage_claimed hmark hother, hattempts]
        refine ⟨?_, rfl⟩
        simp only [Job.fromAccepted, hfailed, hmark, JobStage.status]
        rw [if_neg (by simp), if_neg (by omega)]

/-- The store refines the machine: in every run without releases and cleanups, under limits that
stay the same, each step moves every job along one edge of its life or leaves it. A reader of both
rows sees the status and the attempts of its stage, and a job is given up after one attempt more
than its queue has retries, no sooner and no later. -/
theorem jobs_follow_lifecycle {events : List Replied}
    (h : System.Run (Lasting (always limits)) System.initial events sys) (jobId : Int) :
    Relation.ReflTransGen (JobLife.Step limits) none (sys.store.jobLife limits jobId) ∧
    (∀ action sys' replied, Lasting (always limits) sys action →
      sys.step action = some (sys', replied) →
      sys'.store.jobLife limits jobId = sys.store.jobLife limits jobId ∨
        JobLife.Step limits (sys.store.jobLife limits jobId) (sys'.store.jobLife limits jobId)) ∧
    (∀ row, Table.lookup AcceptedJob.id jobId sys.store.ingest.acceptedJobs = some row →
      ∃ stage, sys.store.jobLife limits jobId = some (row.queueName, stage) ∧
        (Job.fromAccepted row (sys.store.results.execution jobId)).status = stage.status ∧
        (Job.fromAccepted row (sys.store.results.execution jobId)).executionCount = stage.attempts) ∧
    ∀ queueName attempts, sys.store.jobLife limits jobId = some (queueName, .exhausted attempts) →
      attempts = (limits queueName).toNat + 1 := by
  have hsound := lasting_sound h
  have haccounted := lasting_accounted h
  have hedges : Relation.ReflTransGen (JobLife.Step limits) none (sys.store.jobLife limits jobId) := by
    refine h.simulates (fun sys => Sound (always limits) sys ∧ Accounted sys)
      ⟨initial_sound, initial_accounted⟩ (fun sys => sys.store.jobLife limits jobId) _ ?_
    rintro sys sys' action replied ⟨hsound, haccounted⟩ hok hstep
    exact ⟨⟨step_sound hsound (hok.careful haccounted) hstep, step_accounted hsound hok hstep haccounted⟩,
      step_jobLife hsound haccounted hok hstep jobId⟩
  refine ⟨hedges, fun action sys' replied hok hstep => step_jobLife hsound haccounted hok hstep jobId,
    fun row hrow => ⟨_, ?_, hsound.reads hrow⟩, fun queueName attempts hlife => ?_⟩
  · rw [Store.jobLife, hrow]
    rfl
  · exact JobLife.bounded hedges queueName _ hlife

/-- The first attempt of a job runs. -/
def runningMail : System where
  store := mailStore [⟨1, "mail", [7], some "a0", 0, 1⟩]
    [⟨1, 1, "mail", .running, 1, some 30001, "a0", none, none, 1, 1⟩]
  phase := .serving
  pool := []
  nextCall := 3
  issued := [(1, "a0")]

theorem jobs_follow_lifecycle_running :
    Relation.ReflTransGen (JobLife.Step fun _ => 2) none (some ("mail", .running 1 "a0")) := by
  obtain ⟨events, hrun⟩ :
      Runs.Reachable System.step (Lasting (always fun _ => 2)) System.initial runningMail :=
    .of_exec (mailActions [⟨0, "mail", [7], none, 0, 0⟩] ++ [mailClaim "a" 1 1, .resume (.atTime 1) 0])
      (by decide)
  have hlife : runningMail.store.jobLife (fun _ => 2) 1 = some ("mail", .running 1 "a0") := by decide
  exact hlife ▸ (jobs_follow_lifecycle hrun 1).1

end Refinement

end Maqistor
