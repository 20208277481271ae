import Maqistor.Results.Recover
import Maqistor.Lib.Runs

/-! Runs of the results writer: any sequence of single requests and completion batches, from a
database whose `executions` is empty. The ids that `new_dispatch_id` hands out never repeat, so a
dispatch may only use ids that no earlier dispatch used. -/

namespace Maqistor

open ResultsConn

/-- The writer's database, with the dispatch ids used so far. -/
structure Writer where
  conn : ResultsConn
  issued : List String
deriving DecidableEq

namespace Writer

/-- What the writer loop runs: a request on its own, or a batch of completions. -/
inductive Call where
  | handle (env : Env) (request : Request)
  | completeBatch (env : Env) (batch : List PendingCompletion)

/-- The completions that a call answers, with their dispositions. -/
abbrev Replies := List (PendingCompletion × CompletionDisposition)

/-- The dispatch ids of the rows are distinct and new. -/
def Fresh (issued : List String) (ids : List String) : Prop :=
  ids.Nodup ∧ ∀ id ∈ ids, id ∉ issued

instance (issued ids : List String) : Decidable (Fresh issued ids) :=
  inferInstanceAs (Decidable (_ ∧ _))

def initial (queues : List JobQueue) : Writer := ⟨⟨queues, []⟩, []⟩

/-- The replies to a batch: an error answers no request with a disposition. -/
def replies (batch : List PendingCompletion) :
    Except StoreError (List CompletionDisposition) → Replies
  | .error _ => []
  | .ok dispositions => batch.zip dispositions

def step (writer : Writer) : Call → Option (Writer × Replies)
  | .completeBatch env batch =>
    let (conn, result) := writer.conn.completeBatch env batch
    some (⟨conn, writer.issued⟩, replies batch result)
  | .handle env (.complete pending) =>
    let (conn, result) := writer.conn.completeBatch env [pending]
    some (⟨conn, writer.issued⟩, replies [pending] result)
  | .handle env (.dispatch rows) =>
    let ids := rows.map DispatchInsert.dispatchId
    if Fresh writer.issued ids then
      some (⟨(writer.conn.dispatchBatch env rows).1, ids ++ writer.issued⟩, [])
    else none
  | .handle env request => some (⟨(writer.conn.handle env request).1, writer.issued⟩, [])

/-- A run of the writer, with every reply it gave. -/
abbrev Run (admits : Writer → Call → Prop) : Writer → List Replies → Writer → Prop :=
  Runs.Run step admits

def Call.isCleanup : Call → Bool
  | .handle _ (.cleanupExpiredRecords _) => true
  | _ => false

/-- A call other than a cleanup. -/
def KeepsRecords (_ : Writer) (call : Call) : Prop := call.isCleanup = false

instance (writer : Writer) (call : Call) : Decidable (KeepsRecords writer call) :=
  inferInstanceAs (Decidable (_ = _))

/-- The schema's constraints hold and every dispatch id in the table has been issued. -/
structure Inv (writer : Writer) : Prop where
  valid : Valid writer.conn.executionQueues writer.conn.executions
  issued : ∀ row ∈ writer.conn.executions, row.dispatchId ∈ writer.issued

theorem initial_inv (queues : List JobQueue) : Inv (initial queues) := by
  constructor
  · constructor <;> simp [initial]
  · simp [initial]

/-- A rewrite that at most finishes running rows. -/
def Finishes (f : Execution → Execution) : Prop :=
  ∀ row, f row = row ∨ row.status = .running ∧ ∃ now outcome, f row = finished now row outcome

theorem Finishes.keeps {γ : Type} {f : Execution → Execution} (h : Finishes f)
    (column : Execution → γ) (hcolumn : ∀ now row outcome, column (finished now row outcome) =
      column row) (row : Execution) : column (f row) = column row := by
  rcases h row with heq | ⟨-, now, outcome, heq⟩
  · rw [heq]
  · rw [heq, hcolumn]

theorem Finishes.map_keeps {γ : Type} {f : Execution → Execution} (h : Finishes f)
    (column : Execution → γ) (hcolumn : ∀ now row outcome, column (finished now row outcome) =
      column row) (executions : List Execution) :
    (executions.map f).map column = executions.map column := by
  rw [List.map_map]
  exact List.map_congr_left fun row _ => h.keeps column hcolumn row

theorem Finishes.valid {f : Execution → Execution} (h : Finishes f) {queues : List JobQueue}
    {executions : List Execution} (hvalid : Valid queues executions) :
    Valid queues (executions.map f) := by
  constructor
  · rw [h.map_keeps Execution.id fun _ _ _ => finished_id _ _ _]
    exact hvalid.ids
  · rw [h.map_keeps Execution.jobId fun _ _ _ => finished_jobId _ _ _]
    exact hvalid.jobs
  · rw [h.map_keeps Execution.dispatchId fun _ _ _ => finished_dispatchId _ _ _]
    exact hvalid.dispatches
  · intro row' hrow'
    obtain ⟨row, hrow, rfl⟩ := List.mem_map.mp hrow'
    rw [h.keeps Execution.queueName fun _ _ _ => finished_queueName _ _ _]
    exact hvalid.queues row hrow

theorem finishes_id : Finishes id := fun _ => Or.inl rfl

theorem finishes_batchRow (env : Env) (batch : List PendingCompletion) :
    Finishes (batchRow env batch) := by
  intro row
  rcases batchRow_cases env batch row with ⟨-, heq⟩ | ⟨request, -, hfences, heq⟩
  · exact Or.inl heq
  · exact Or.inr ⟨(fences_iff.mp hfences).2, env.now, request.outcome, heq⟩

theorem finishes_abandonRow (now : Int) (key : Int × String) : Finishes (abandonRow now key) := by
  intro row
  rcases abandonRow_cases now key row with ⟨-, heq⟩ | ⟨hfences, heq⟩
  · exact Or.inl heq
  · exact Or.inr ⟨(fences_iff.mp hfences).2, now, _, heq⟩

theorem finishes_recoverRow (now : Int) : Finishes (recoverRow now) := by
  intro row
  rcases recoverRow_cases now row with ⟨-, heq⟩ | ⟨hrunning, -, heq⟩
  · exact Or.inl heq
  · exact Or.inr ⟨hrunning, now, _, heq⟩

/-- What a call can do to the rows: finish some running ones, dispatch rows under new ids, or
remove old ones. -/
inductive Effect (writer writer' : Writer) : Call → Prop
  | finish {call : Call} (f : Execution → Execution) (hf : Finishes f)
      (hrows : writer'.conn.executions = writer.conn.executions.map f)
      (hissued : writer.issued ⊆ writer'.issued) : Effect writer writer' call
  | dispatch {env : Env} {rows : List DispatchInsert} (returned : List Execution)
      (hfresh : Fresh writer.issued (rows.map DispatchInsert.dispatchId))
      (hspec : DispatchSpec env.now rows writer.conn.executions writer'.conn.executions returned)
      (hvalid : Valid writer'.conn.executionQueues writer'.conn.executions)
      (hissued : writer'.issued = rows.map DispatchInsert.dispatchId ++ writer.issued) :
      Effect writer writer' (.handle env (.dispatch rows))
  | cleanup {env : Env} {cutoff : Int} (p : Execution → Bool)
      (hrows : writer'.conn.executions = writer.conn.executions.filter p)
      (hissued : writer'.issued = writer.issued) :
      Effect writer writer' (.handle env (.cleanupExpiredRecords cutoff))

theorem finish_unchanged {writer writer' : Writer} {call : Call}
    (hrows : writer'.conn.executions = writer.conn.executions)
    (hissued : writer.issued ⊆ writer'.issued) : Effect writer writer' call :=
  .finish id finishes_id (by rw [hrows, List.map_id]) hissued

theorem completeBatch_step {writer : Writer} (hinv : Inv writer) (env : Env)
    (batch : List PendingCompletion) : ∃ dispositions,
      step writer (.completeBatch env batch) =
        some (⟨{ writer.conn with
            executions := writer.conn.executions.map (batchRow env batch) }, writer.issued⟩,
          batch.zip dispositions) ∧
      writer.conn.completeBatch env batch =
        ({ writer.conn with executions := writer.conn.executions.map (batchRow env batch) },
          .ok dispositions) ∧
      dispositions.length = batch.length ∧
      (batch.zip dispositions).Perm
        ((answers env writer.conn.executionQueues (statements batch) writer.conn.executions).map
          fun answer => (answer.1.1, answer.2)) := by
  obtain ⟨dispositions, heq, hlength, hperm⟩ :=
    completeBatch_replies env batch hinv.valid.jobs hinv.valid.queues
  exact ⟨dispositions, by rw [step, heq]; rfl, heq, hlength, hperm⟩

/-- Every call has one of the effects, and a queue that is known stays known. -/
theorem step_effect {writer writer' : Writer} {call : Call} {answered : Replies}
    (hinv : Inv writer) (h : step writer call = some (writer', answered)) :
    Effect writer writer' call ∧ ∀ name ∈ writer.conn.executionQueues.map JobQueue.name,
      name ∈ writer'.conn.executionQueues.map JobQueue.name := by
  have hbatch : ∀ env batch, step writer (.completeBatch env batch) = some (writer', answered) →
      Effect writer writer' call ∧ ∀ name ∈ writer.conn.executionQueues.map JobQueue.name,
        name ∈ writer'.conn.executionQueues.map JobQueue.name := by
    intro env batch hstep
    obtain ⟨dispositions, hstep', -⟩ := completeBatch_step hinv env batch
    rw [hstep', Option.some.injEq, Prod.mk.injEq] at hstep
    obtain ⟨rfl, -⟩ := hstep
    exact ⟨.finish _ (finishes_batchRow env batch) rfl (List.Subset.refl _), fun _ h => h⟩
  cases call with
  | completeBatch env batch => exact hbatch env batch h
  | handle env request =>
    cases request with
    | complete pending => exact hbatch env [pending] h
    | upsertQueue queue =>
      simp only [step, handle, ResultsConn.upsertQueue, Option.some.injEq, Prod.mk.injEq] at h
      obtain ⟨rfl, -⟩ := h
      cases hupsert : upsertQueueRow env.now queue writer.conn.executionQueues with
      | error error => exact ⟨finish_unchanged rfl (List.Subset.refl _), fun _ h => h⟩
      | ok result =>
        refine ⟨finish_unchanged rfl (List.Subset.refl _), fun name hname => ?_⟩
        exact (upsertQueueRow_names hupsert name).mpr (Or.inr hname)
    | dispatch rows =>
      simp only [step] at h
      split at h
      · next hfresh =>
        simp only [Option.some.injEq, Prod.mk.injEq] at h
        obtain ⟨rfl, -⟩ := h
        rcases dispatchBatch_cases env rows writer.conn with
          ⟨error, heq, -⟩ | ⟨executions, returned, byJob, heq, hspec, -, hvalid⟩
        · rw [heq]
          exact ⟨finish_unchanged rfl (List.subset_append_right _ _), fun _ h => h⟩
        · rw [heq]
          exact ⟨.dispatch returned hfresh hspec (hvalid hinv.valid) rfl, fun _ h => h⟩
      · cases h
    | abandon jobId dispatchId =>
      simp only [step, handle, abandon_eq, Option.some.injEq, Prod.mk.injEq] at h
      obtain ⟨rfl, -⟩ := h
      exact ⟨.finish _ (finishes_abandonRow _ _) rfl (List.Subset.refl _), fun _ h => h⟩
    | recoverStale now =>
      simp only [step, handle, Option.some.injEq, Prod.mk.injEq] at h
      obtain ⟨rfl, -⟩ := h
      rcases recoverStale_cases env.choice now hinv.valid with
        ⟨error, heq⟩ | ⟨recovered, heq, -⟩
      · rw [heq]
        exact ⟨finish_unchanged rfl (List.Subset.refl _), fun _ h => h⟩
      · rw [heq]
        exact ⟨.finish _ (finishes_recoverRow now) rfl (List.Subset.refl _), fun _ h => h⟩
    | cleanupExpiredRecords cutoff =>
      simp only [step, handle, ResultsConn.cleanupExpiredRecords, Option.some.injEq,
        Prod.mk.injEq] at h
      obtain ⟨rfl, -⟩ := h
      exact ⟨.cleanup _ rfl rfl, fun _ h => h⟩
    | vacuum =>
      simp only [step, handle, Option.some.injEq, Prod.mk.injEq] at h
      obtain ⟨rfl, -⟩ := h
      exact ⟨finish_unchanged rfl (List.Subset.refl _), fun _ h => h⟩

theorem step_inv {writer writer' : Writer} {call : Call} {answered : Replies}
    (hinv : Inv writer) (h : step writer call = some (writer', answered)) : Inv writer' := by
  obtain ⟨heffect, hnames⟩ := step_effect hinv h
  have hvalid := hinv.valid.mono hnames
  cases heffect with
  | finish f hf hrows hissued =>
    constructor
    · rw [hrows]
      exact hf.valid hvalid
    · intro row' hrow'
      rw [hrows] at hrow'
      obtain ⟨row, hrow, rfl⟩ := List.mem_map.mp hrow'
      rw [hf.keeps Execution.dispatchId fun _ _ _ => finished_dispatchId _ _ _]
      exact hissued (hinv.issued row hrow)
  | @dispatch env rows returned hfresh hspec hafter hissued =>
    refine ⟨hafter, fun row' hrow' => ?_⟩
    rw [hissued, List.mem_append]
    rcases hspec.row_cases hafter.jobs hrow' with hold | ⟨-, row, hrow, -, hdispatch⟩
    · exact Or.inr (hinv.issued row' (Table.mem_of_lookup hold))
    · rw [hdispatch.dispatchId]
      exact Or.inl (List.mem_map_of_mem hrow)
  | cleanup p hrows hissued =>
    constructor
    · rw [hrows]
      exact hvalid.filter p
    · intro row hrow
      rw [hrows] at hrow
      rw [hissued]
      exact hinv.issued row (List.mem_filter.mp hrow).1

theorem run_inv {admits : Writer → Call → Prop} {writer writer' : Writer} {events : List Replies}
    (h : Run admits writer events writer') (hinv : Inv writer) : Inv writer' :=
  h.invariant Inv hinv fun hinv _ hstep => step_inv hinv hstep

/-- A property that every admitted call keeps, in states with the invariant, holds at the end. -/
theorem run_keeps {admits : Writer → Call → Prop} {writer writer' : Writer}
    {events : List Replies} (h : Run admits writer events writer') (hinv : Inv writer)
    (P : Writer → Prop) (hstart : P writer)
    (hkeep : ∀ {writer writer' call answered}, Inv writer → P writer → admits writer call →
      step writer call = some (writer', answered) → P writer') : P writer' := by
  refine (h.invariant (fun writer => Inv writer ∧ P writer) ⟨hinv, hstart⟩ ?_).2
  intro writer writer' call answered hboth hok hstep
  exact ⟨step_inv hboth.1 hstep, hkeep hboth.1 hboth.2 hok hstep⟩

end Writer

end Maqistor
