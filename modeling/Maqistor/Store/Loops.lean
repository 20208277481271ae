import Maqistor.Ingest.Loop
import Maqistor.Results.Loop

/-! Both writer loops answer every request that they take: whatever arrives and whenever, however
large the batches may grow, whichever lane is preferred and whenever the channel is closed. -/

namespace Maqistor

open WriterLoop WriterLoop.Loop

/-- In every state of either loop, the requests are answered: by calls that execute what they ask
for. -/
theorem writer_loops_answer :
    (∀ (writer : IngestWriter) (state : Loop _ _ _), Runs.Reachable (step IngestWriter.loop)
      (Admits fun _ => True) (initial writer) state →
        Answers IngestWriter.loop IngestWriter.Executes writer state) ∧
    ∀ (conn : ResultsConn) (state : Loop _ _ _), Runs.Reachable (step ResultsConn.loop)
      (Admits ResultsConn.CarriesRows) (initial conn) state →
        Answers ResultsConn.loop ResultsConn.Executes conn state :=
  ⟨fun _ _ h => reachable_answers IngestWriter.loop_sound IngestWriter.loop_performs h,
    fun _ _ h => reachable_answers ResultsConn.loop_sound ResultsConn.loop_performs h⟩

instance {ρ σ ω : Type} {τ : Type*} {accepts : ρ → Prop} [DecidablePred accepts]
    (state : Loop ρ σ ω) (action : Action ρ τ) : Decidable (Admits accepts state action) :=
  match action with
  | .arrive request => inferInstanceAs (Decidable (accepts request))
  | .close => inferInstanceAs (Decidable True)
  | .work tick => inferInstanceAs (Decidable (1 ≤ tick.target))

instance : DecidablePred ResultsConn.CarriesRows := fun request =>
  match request with
  | .dispatch rows => inferInstanceAs (Decidable (rows ≠ []))
  | .upsertQueue _ | .complete _ | .abandon _ _ | .recoverStale _ | .cleanupExpiredRecords _
  | .vacuum => .isTrue trivial

/-- An enqueue and a claim arrive behind the queue they need, and the channel is closed. -/
def ingestActions : List (Action IngestConn.Request IngestWriter.Turn) :=
  [.arrive (.enqueue
      { id := 0, queueName := "mail", payload := [7], dispatchId := none, createdAt := 1,
        updatedAt := 1 }),
    .arrive (.claimBatch "mail" 1), .arrive (.upsertQueue mailQueue), .close] ++
  List.replicate 10 (.work ⟨2, false, ⟨Env.atTime 1, fun _ => "d", none⟩⟩)

/-- A batch is cut short by a request to abandon; the dispatch behind it is still executed. -/
def resultsActions : List (Action ResultsConn.Request ResultsConn.Turn) :=
  [.arrive (.complete ⟨1, "a", .succeeded [7]⟩), .work ⟨3, false, ⟨Env.atTime 1, none, .completion⟩⟩,
    .work ⟨3, false, ⟨Env.atTime 1, none, .completion⟩⟩,
    .arrive (.complete ⟨2, "b", .failed "late"⟩), .arrive (.dispatch [⟨3, "mail", "c", 9⟩]),
    .arrive (.abandon 1 "a"), .close] ++
  List.replicate 9 (.work ⟨3, false, ⟨Env.atTime 1, none, .completion⟩⟩)

/-- Where the actions of the ingest writer lead. -/
def ingestDone : Option (Loop IngestConn.Request IngestWriter
    (Except StoreError IngestConn.Response)) :=
  (Runs.exec (step IngestWriter.loop) (Admits fun _ => True) (initial ⟨⟨[], []⟩, []⟩)
    ingestActions).map Prod.fst

/-- Where the actions of the results writer lead. -/
def resultsDone : Option (Loop ResultsConn.Request ResultsConn
    (Except StoreError ResultsConn.Response)) :=
  (Runs.exec (step ResultsConn.loop) (Admits ResultsConn.CarriesRows) (initial ⟨[mailQueue], []⟩)
    resultsActions).map Prod.fst

theorem ingestDone_isSome : ingestDone.isSome := by decide +kernel

theorem resultsDone_isSome : resultsDone.isSome := by decide +kernel

theorem writer_loops_answer_closed :
    (Answers IngestWriter.loop IngestWriter.Executes ⟨⟨[], []⟩, []⟩
        (ingestDone.get ingestDone_isSome) ∧
      (ingestDone.get ingestDone_isSome).phase = .ended ∧
      (ingestDone.get ingestDone_isSome).replies.map Prod.fst = [2, 1, 0] ∧
      (ingestDone.get ingestDone_isSome).conn.conn.acceptedJobs.map AcceptedJob.id = [1]) ∧
    Answers ResultsConn.loop ResultsConn.Executes ⟨[mailQueue], []⟩
        (resultsDone.get resultsDone_isSome) ∧
      (resultsDone.get resultsDone_isSome).phase = .ended ∧
      (resultsDone.get resultsDone_isSome).calls.map (fun call => call.map Prod.fst) =
        [[0, 1], [3], [2]] ∧
      (resultsDone.get resultsDone_isSome).conn.executions.map Execution.jobId = [3] := by
  refine ⟨⟨writer_loops_answer.1 ⟨⟨[], []⟩, []⟩ _
    (Runs.Reachable.of_exec ingestActions (Option.some_get _).symm), ?_, ?_, ?_⟩,
    writer_loops_answer.2 ⟨[mailQueue], []⟩ _
    (Runs.Reachable.of_exec resultsActions (Option.some_get _).symm), ?_, ?_, ?_⟩
  all_goals decide +kernel

end Maqistor
