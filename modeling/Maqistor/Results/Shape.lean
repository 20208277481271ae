import Maqistor.Results.Writer

/-! The shape of an execution row: which columns are set under each status, and the moves that a
call makes. The dispatch ids may repeat here; the schema's unique columns are all that a call can
rely on. -/

namespace Maqistor

open ResultsConn

namespace Execution

/-- The columns of a row under its status; a row has been dispatched at least once. -/
structure Shaped (row : Execution) : Prop where
  count : 1 ≤ row.executionCount
  started : row.status ≠ .pending
  running : row.status = .running →
    row.leaseExpiresAt.isSome ∧ row.resultPayload = none ∧ row.resultError = none
  completed : row.status = .completed →
    row.leaseExpiresAt = none ∧ row.resultPayload.isSome ∧ row.resultError = none
  failed : row.status = .failed →
    row.leaseExpiresAt = none ∧ row.resultPayload = none ∧ row.resultError.isSome

/-- A row that stays where it is, ends its attempt, or starts the next one. -/
inductive Moves (row row' : Execution) : Prop
  | stay (hstatus : row'.status = row.status) (hcount : row'.executionCount = row.executionCount)
  | complete (hrunning : row.status = .running) (hstatus : row'.status = .completed)
      (hcount : row'.executionCount = row.executionCount)
  | fail (hrunning : row.status = .running) (hstatus : row'.status = .failed)
      (hcount : row'.executionCount = row.executionCount)
  | retry (hfailed : row.status = .failed) (hstatus : row'.status = .running)
      (hcount : row'.executionCount = row.executionCount + 1)

end Execution

namespace ResultsConn

/-- The database after a call of the writer, whatever dispatch ids it carries. -/
def serve (conn : ResultsConn) : Writer.Call → ResultsConn
  | .handle env request => (conn.handle env request).1
  | .completeBatch env batch => (conn.completeBatch env batch).1

def step (conn : ResultsConn) (call : Writer.Call) : Option (ResultsConn × Unit) :=
  some (conn.serve call, ())

/-- The invariant of the table: unique columns and shaped rows. -/
structure WellShaped (conn : ResultsConn) : Prop where
  valid : Valid conn.executionQueues conn.executions
  shaped : ∀ row ∈ conn.executions, row.Shaped

theorem initial_wellShaped (queues : List JobQueue) : WellShaped ⟨queues, []⟩ := by
  constructor
  · constructor <;> simp
  · simp

/-- What a call does to the rows: finish some running ones, remove some, or dispatch. -/
inductive Effect (conn conn' : ResultsConn) : Prop
  | finish (f : Execution → Execution) (hf : Writer.Finishes f)
      (hrows : conn'.executions = conn.executions.map f)
  | remove (p : Execution → Bool) (hrows : conn'.executions = conn.executions.filter p)
  | dispatch (now : Int) (rows : List DispatchInsert) (returned : List Execution)
      (hspec : DispatchSpec now rows conn.executions conn'.executions returned)

/-- A call of the writer on its own, as a step of the writer whose ids are those of the table. -/
theorem serve_of_step {conn : ResultsConn} (h : WellShaped conn) (call : Writer.Call)
    {writer' : Writer} {answered : Writer.Replies}
    (hstep : Writer.step ⟨conn, conn.executions.map Execution.dispatchId⟩ call =
      some (writer', answered)) :
    Effect conn writer'.conn ∧ Valid writer'.conn.executionQueues writer'.conn.executions := by
  have hinv : Writer.Inv ⟨conn, conn.executions.map Execution.dispatchId⟩ :=
    ⟨h.valid, fun row hrow => List.mem_map_of_mem hrow⟩
  refine ⟨?_, (Writer.step_inv hinv hstep).valid⟩
  cases (Writer.step_effect hinv hstep).1 with
  | finish f hf hrows hissued => exact .finish f hf hrows
  | dispatch returned hfresh hspec hvalid hissued => exact .dispatch _ _ returned hspec
  | cleanup p hrows hissued => exact .remove p hrows

theorem serve_effect {conn : ResultsConn} (h : WellShaped conn) (call : Writer.Call) :
    Effect conn (conn.serve call) ∧
      Valid (conn.serve call).executionQueues (conn.serve call).executions := by
  cases call with
  | completeBatch env batch => exact serve_of_step h (.completeBatch env batch) rfl
  | handle env request =>
    cases request with
    | dispatch rows =>
      -- The only call whose step asks for new ids, which are not to be had here.
      simp only [serve, handle]
      rcases dispatchBatch_cases env rows conn with
        ⟨error, heq, -⟩ | ⟨executions, returned, byJob, heq, hspec, -, hvalid⟩
      · rw [heq]
        exact ⟨.finish id Writer.finishes_id (List.map_id _).symm, h.valid⟩
      · rw [heq]
        exact ⟨.dispatch env.now rows returned hspec, hvalid h.valid⟩
    | upsertQueue queue => exact serve_of_step h (.handle env (.upsertQueue queue)) rfl
    | complete pending => exact serve_of_step h (.handle env (.complete pending)) rfl
    | abandon jobId dispatchId =>
      exact serve_of_step h (.handle env (.abandon jobId dispatchId)) rfl
    | recoverStale now => exact serve_of_step h (.handle env (.recoverStale now)) rfl
    | cleanupExpiredRecords cutoff =>
      exact serve_of_step h (.handle env (.cleanupExpiredRecords cutoff)) rfl
    | vacuum => exact serve_of_step h (.handle env .vacuum) rfl

/-! ### Rows -/

theorem shaped_finished {now : Int} {row : Execution} (h : row.Shaped)
    (hrunning : row.status = .running) (outcome : JobOutcome) :
    (finished now row outcome).Shaped := by
  obtain ⟨-, hpayload, -⟩ := h.running hrunning
  cases outcome with
  | succeeded payload =>
    constructor <;> simp [ResultsConn.finished, setCompleted, h.count]
  | failed message =>
    constructor <;> simp [ResultsConn.finished, setFailed, h.count, hpayload]

/-- The count of a job's row after its dispatch, over the row that it had before. -/
theorem shaped_of_dispatch {now : Int} {insert : DispatchInsert} {before : Option Execution}
    {row : Execution} (hbefore : ∀ old, before = some old → old.Shaped)
    (h : IsDispatch now insert before row) : row.Shaped := by
  have hcount : 1 ≤ row.executionCount := by
    rw [h.executionCount]
    cases before with
    | none => simp [attempts]
    | some old =>
      have hold := (hbefore old rfl).count
      simp only [attempts, Option.map_some, Option.getD_some]
      omega
  constructor
  · exact hcount
  · simp [h.status]
  · simp [h.leaseExpiresAt, h.resultPayload, h.resultError]
  · simp [h.status]
  · simp [h.status]

theorem Effect.shaped {conn conn' : ResultsConn} (h : WellShaped conn)
    (hvalid : Valid conn'.executionQueues conn'.executions) (heffect : Effect conn conn') :
    ∀ row ∈ conn'.executions, row.Shaped := by
  cases heffect with
  | finish f hf hrows =>
    intro row' hrow'
    rw [hrows] at hrow'
    obtain ⟨row, hrow, rfl⟩ := List.mem_map.mp hrow'
    rcases hf row with heq | ⟨hrunning, now, outcome, heq⟩
    · rw [heq]
      exact h.shaped row hrow
    · rw [heq]
      exact shaped_finished (h.shaped row hrow) hrunning outcome
  | remove p hrows =>
    intro row hrow
    rw [hrows] at hrow
    exact h.shaped row (List.mem_filter.mp hrow).1
  | dispatch now rows returned hspec =>
    intro row hrow
    rcases hspec.row_cases hvalid.jobs hrow with hold | ⟨-, insert, -, -, hdispatch⟩
    · exact h.shaped row (Table.mem_of_lookup hold)
    · refine shaped_of_dispatch (fun old hlookup => ?_) hdispatch
      exact h.shaped old (Table.mem_of_lookup hlookup)

/-- A finished row, against the row that ran. -/
theorem moves_finished (now : Int) {row : Execution} (hrunning : row.status = .running)
    (outcome : JobOutcome) : row.Moves (finished now row outcome) := by
  cases outcome with
  | succeeded payload => exact .complete hrunning rfl rfl
  | failed message => exact .fail hrunning rfl rfl

theorem Effect.moves {conn conn' : ResultsConn} (h : WellShaped conn)
    (hvalid : Valid conn'.executionQueues conn'.executions) (heffect : Effect conn conn')
    {row row' : Execution} (hrow : row ∈ conn.executions) (hrow' : row' ∈ conn'.executions)
    (hjob : row'.jobId = row.jobId) : row.Moves row' := by
  have hlookup := Table.lookup_of_mem h.valid.jobs hrow
  cases heffect with
  | finish f hf hrows =>
    rw [hrows] at hrow'
    obtain ⟨before, hbefore, rfl⟩ := List.mem_map.mp hrow'
    rw [hf.keeps Execution.jobId fun _ _ _ => finished_jobId _ _ _] at hjob
    obtain rfl := List.inj_on_of_nodup_map h.valid.jobs hbefore hrow hjob
    rcases hf before with heq | ⟨hrunning, now, outcome, heq⟩
    · rw [heq]
      exact .stay rfl rfl
    · rw [heq]
      exact moves_finished now hrunning outcome
  | remove p hrows =>
    rw [hrows] at hrow'
    obtain rfl := List.inj_on_of_nodup_map h.valid.jobs (List.mem_filter.mp hrow').1 hrow hjob
    exact .stay rfl rfl
  | dispatch now rows returned hspec =>
    rcases hspec.row_cases hvalid.jobs hrow' with hold | ⟨havailable, insert, -, -, hdispatch⟩
    · rw [hjob, hlookup] at hold
      obtain rfl := Option.some.inj hold
      exact .stay rfl rfl
    · rw [hjob, hlookup] at havailable hdispatch
      rcases havailable row rfl with hfailed | hpending
      · exact .retry hfailed hdispatch.status hdispatch.executionCount
      · exact absurd hpending (h.shaped row hrow).started

theorem serve_wellShaped {conn : ResultsConn} (h : WellShaped conn) (call : Writer.Call) :
    WellShaped (conn.serve call) := by
  obtain ⟨heffect, hvalid⟩ := serve_effect h call
  exact ⟨hvalid, heffect.shaped h hvalid⟩

theorem run_wellShaped {conn conn' : ResultsConn} {events : List Unit}
    (h : Runs.Run step (fun _ _ => True) conn events conn') (hshaped : WellShaped conn) :
    WellShaped conn' := by
  refine h.invariant WellShaped hshaped ?_
  rintro conn conn' call answered hshaped - hstep
  obtain ⟨rfl, -⟩ := Prod.mk.inj (Option.some.inj hstep)
  exact serve_wellShaped hshaped call

/-- In every state that calls reach from an empty table: the unique columns hold, every row has the
shape of its status, and the next call moves a row that survives it only to the end of its attempt
or from a failure to the next attempt. -/
theorem executions_shaped {queues : List JobQueue} {conn : ResultsConn} {events : List Unit}
    (h : Runs.Run step (fun _ _ => True) ⟨queues, []⟩ events conn) :
    (conn.executions.map Execution.jobId).Nodup ∧
      (conn.executions.map Execution.dispatchId).Nodup ∧
      (∀ row ∈ conn.executions, row.Shaped) ∧
      ∀ call, ∀ row ∈ conn.executions, ∀ row' ∈ (conn.serve call).executions,
        row'.jobId = row.jobId → row.Moves row' := by
  have hshaped := run_wellShaped h (initial_wellShaped queues)
  refine ⟨hshaped.valid.jobs, hshaped.valid.dispatches, hshaped.shaped, ?_⟩
  intro call row hrow row' hrow' hjob
  obtain ⟨heffect, hvalid⟩ := serve_effect hshaped call
  exact heffect.moves hshaped hvalid hrow hrow' hjob

/-- A job whose first attempt has failed. -/
def failedMail : Execution := ⟨1, 1, "mail", .failed, 1, none, "a", none, some "no", 0, 5⟩

/-- Its row after the next dispatch. -/
def retriedMail : Execution := ⟨1, 1, "mail", .running, 2, some 36, "b", none, none, 0, 6⟩

theorem executions_shaped_retry :
    Runs.exec step (fun _ _ => True) ⟨[mailQueue], []⟩
        [.handle (.atTime 0) (.dispatch [⟨1, "mail", "a", 30⟩]),
          .completeBatch (.atTime 5) [⟨1, "a", .failed "no"⟩]] =
      some (⟨[mailQueue], [failedMail]⟩, [(), ()]) ∧
    failedMail.Shaped ∧ failedMail.Moves retriedMail := by
  have hrun : Runs.exec step (fun _ _ => True) ⟨[mailQueue], []⟩
        [.handle (.atTime 0) (.dispatch [⟨1, "mail", "a", 30⟩]),
          .completeBatch (.atTime 5) [⟨1, "a", .failed "no"⟩]] =
      some (⟨[mailQueue], [failedMail]⟩, [(), ()]) := by decide
  obtain ⟨-, -, hshaped, hmoves⟩ := executions_shaped (Runs.Run.of_exec hrun)
  have hretried : retriedMail ∈ (serve ⟨[mailQueue], [failedMail]⟩
      (.handle (.atTime 6) (.dispatch [⟨1, "mail", "b", 36⟩]))).executions := by decide
  exact ⟨hrun, hshaped failedMail (List.mem_singleton_self _),
    hmoves _ failedMail (List.mem_singleton_self _) retriedMail hretried rfl⟩

end ResultsConn

end Maqistor
