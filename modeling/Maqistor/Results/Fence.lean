import Maqistor.Results.Writer

/-! The fence of dispatch ids over whole runs of the results writer: an attempt that has left
`running` never runs again under its id, so every later completion or abandon for it changes
nothing, and a completed row stays. -/

namespace Maqistor

open ResultsConn

namespace ResultsConn

/-- Finishing rows starts no attempt. -/
theorem running_of_running_map {f : Execution → Execution} (hf : Writer.Finishes f)
    {executions : List Execution} {key : Int × String}
    (h : running (executions.map f) key = true) : running executions key = true := by
  obtain ⟨row', hrow', hkey, hstatus⟩ := running_iff.mp h
  obtain ⟨row, hrow, rfl⟩ := List.mem_map.mp hrow'
  rcases hf row with heq | ⟨-, now, outcome, heq⟩
  · rw [heq] at hkey hstatus
    exact running_iff.mpr ⟨row, hrow, hkey, hstatus⟩
  · rw [heq] at hstatus
    exact absurd hstatus (finished_not_running now row outcome)

theorem finishes_statementRow (env : Env) (chunk : List Entry) :
    Writer.Finishes (statementRow env chunk) := by
  intro row
  rcases statementRow_cases env chunk row with ⟨-, heq⟩ | ⟨entry, -, hfences, heq⟩
  · exact Or.inl heq
  · exact Or.inr ⟨(fences_iff.mp hfences).2, env.now, entry.1.outcome, heq⟩

/-- No statement of a batch finds a row for a key that runs nowhere when the batch starts. -/
theorem answers_ignored {env : Env} {queues : List JobQueue} {chunks : List (List Entry)}
    {executions : List Execution} {key : Int × String} (h : running executions key = false)
    {answer : Entry × CompletionDisposition} (hanswer : answer ∈ answers env queues chunks executions)
    (hkey : answer.1.1.key = key) : answer.2 = .ignored := by
  induction chunks generalizing executions with
  | nil => cases hanswer
  | cons chunk chunks ih =>
    rw [answers, List.mem_append] at hanswer
    rcases hanswer with hanswer | hanswer
    · obtain ⟨entry, -, rfl⟩ := List.mem_map.mp hanswer
      exact dispose_eq_ignored.mpr (hkey ▸ h)
    · refine ih ?_ hanswer
      rw [Bool.eq_false_iff] at h ⊢
      exact fun hrunning => h (running_of_running_map (finishes_statementRow env chunk) hrunning)

/-- The rows that an operation rewrites all satisfy `p`, and no other row changes. -/
def ChangesOnly (p : Execution → Prop) (before after : ResultsConn) : Prop :=
  after.executionQueues = before.executionQueues ∧
    List.Forall₂ (fun row row' => row' = row ∨ p row) before.executions after.executions

theorem changesOnly_map {p : Execution → Prop} {f : Execution → Execution} (conn : ResultsConn)
    (hf : ∀ row, f row = row ∨ p row) :
    ChangesOnly p conn { conn with executions := conn.executions.map f } :=
  ⟨rfl, List.forall₂_map_right_iff.mpr (List.forall₂_same.mpr fun row _ => hf row)⟩

theorem completeBatch_changesOnly (env : Env) (batch : List PendingCompletion) {conn : ResultsConn}
    (hvalid : Valid conn.executionQueues conn.executions) :
    ChangesOnly (fun row => row.status = .running ∧ row.key ∈ batch.map PendingCompletion.key) conn
      (conn.completeBatch env batch).1 := by
  rw [completeBatch_eq env batch hvalid.jobs hvalid.queues]
  apply changesOnly_map conn
  intro row
  rcases batchRow_cases env batch row with ⟨-, heq⟩ | ⟨request, hrequest, hfences, -⟩
  · exact Or.inl heq
  · obtain ⟨hkey, hstatus⟩ := fences_iff.mp hfences
    exact Or.inr ⟨hstatus, hkey ▸ List.mem_map_of_mem hrequest⟩

theorem abandon_changesOnly (env : Env) (jobId : Int) (dispatchId : String) (conn : ResultsConn) :
    ChangesOnly (fun row => row.status = .running ∧ row.key = (jobId, dispatchId)) conn
      (conn.abandon env jobId dispatchId) := by
  rw [abandon_eq]
  apply changesOnly_map conn
  intro row
  rcases abandonRow_cases env.now (jobId, dispatchId) row with ⟨-, heq⟩ | ⟨hfences, -⟩
  · exact Or.inl heq
  · exact Or.inr (fences_iff.mp hfences).symm

theorem ChangesOnly.unchanged {p : Execution → Prop} {before after : ResultsConn}
    (h : ChangesOnly p before after) (hp : ∀ row ∈ before.executions, ¬p row) : after = before := by
  obtain ⟨queues, executions⟩ := before
  obtain ⟨queues', executions'⟩ := after
  obtain ⟨hqueues, hrows⟩ := h
  have hsame : executions' = executions := by
    dsimp only at hrows hp
    clear hqueues
    induction hrows with
    | nil => rfl
    | @cons row row' rows rows' hrow _ ih =>
      rw [hrow.resolve_right (hp row List.mem_cons_self),
        ih fun other hother => hp other (List.mem_cons_of_mem _ hother)]
  exact ResultsConn.mk.injEq .. ▸ ⟨hqueues, hsame⟩

end ResultsConn

namespace Writer

/-- The job has no row that runs under the dispatch id: its attempt has ended, or the job was
dispatched again. -/
def Left (writer : Writer) (jobId : Int) (dispatchId : String) : Prop :=
  ∀ row ∈ writer.conn.executions, row.jobId = jobId →
    row.status ≠ .running ∨ row.dispatchId ≠ dispatchId

theorem left_iff {writer : Writer} {jobId : Int} {dispatchId : String} :
    writer.Left jobId dispatchId ↔
      running writer.conn.executions (jobId, dispatchId) = false := by
  rw [Bool.eq_false_iff, ne_eq, running_iff]
  constructor
  · rintro h ⟨row, hrow, hkey, hstatus⟩
    obtain ⟨hjob, hdispatch⟩ := Prod.mk.inj hkey
    rcases h row hrow hjob with h | h
    · exact h hstatus
    · exact h hdispatch
  · intro h row hrow hjob
    by_contra hboth
    rw [not_or, not_not, not_not] at hboth
    exact h ⟨row, hrow, Prod.ext hjob hboth.2, hboth.1⟩

/-- A used dispatch id under which nothing runs stays so: only a dispatch starts an attempt, and
it takes new ids. -/
theorem step_left {writer writer' : Writer} {call : Call} {answered : Replies} (hinv : Inv writer)
    (h : step writer call = some (writer', answered)) {key : Int × String}
    (hissued : key.2 ∈ writer.issued) (hleft : running writer.conn.executions key = false) :
    key.2 ∈ writer'.issued ∧ running writer'.conn.executions key = false := by
  rw [Bool.eq_false_iff] at hleft ⊢
  cases (step_effect hinv h).1 with
  | finish f hf hrows hsub =>
    refine ⟨hsub hissued, fun hrunning => hleft ?_⟩
    rw [hrows] at hrunning
    exact running_of_running_map hf hrunning
  | @dispatch env rows returned hfresh hspec hvalid hids =>
    refine ⟨by rw [hids]; exact List.mem_append_right _ hissued, fun hrunning => ?_⟩
    obtain ⟨row', hrow', hkey, hstatus⟩ := running_iff.mp hrunning
    rcases hspec.row_cases hvalid.jobs hrow' with hold | ⟨-, row, hrow, -, hdispatch⟩
    · exact hleft (running_iff.mpr ⟨row', Table.mem_of_lookup hold, hkey, hstatus⟩)
    · have hnew := hfresh.2 row.dispatchId (List.mem_map_of_mem hrow)
      have hid : row'.dispatchId = key.2 := congrArg Prod.snd hkey
      rw [← hdispatch.dispatchId, hid] at hnew
      exact hnew hissued
  | cleanup p hrows hids =>
    refine ⟨hids ▸ hissued, fun hrunning => hleft ?_⟩
    obtain ⟨row, hrow, hkey⟩ := running_iff.mp hrunning
    rw [hrows] at hrow
    exact running_iff.mpr ⟨row, (List.mem_filter.mp hrow).1, hkey⟩

theorem run_left {admits : Writer → Call → Prop} {writer writer' : Writer} {events : List Replies}
    (h : Run admits writer events writer') (hinv : Inv writer) {key : Int × String}
    (hissued : key.2 ∈ writer.issued) (hleft : running writer.conn.executions key = false) :
    key.2 ∈ writer'.issued ∧ running writer'.conn.executions key = false :=
  run_keeps h hinv
    (fun writer => key.2 ∈ writer.issued ∧ running writer.conn.executions key = false)
    ⟨hissued, hleft⟩ fun hinv hkept _ hstep => step_left hinv hstep hkept.1 hkept.2

theorem issued_of_running {writer : Writer} (hinv : Inv writer) {key : Int × String}
    (h : running writer.conn.executions key = true) : key.2 ∈ writer.issued := by
  obtain ⟨row, hrow, rfl, -⟩ := running_iff.mp h
  exact hinv.issued row hrow

theorem run_issued {admits : Writer → Call → Prop} {writer writer' : Writer}
    {events : List Replies} (h : Run admits writer events writer') (hinv : Inv writer)
    {dispatchId : String} (hissued : dispatchId ∈ writer.issued) :
    dispatchId ∈ writer'.issued := by
  apply run_keeps h hinv (dispatchId ∈ ·.issued) hissued
  intro writer writer' call answered hinv hkept _ hstep
  cases (step_effect hinv hstep).1 with
  | finish f hf hrows hsub => exact hsub hkept
  | dispatch returned hfresh hspec hvalid hids =>
    rw [hids]
    exact List.mem_append_right _ hkept
  | cleanup p hrows hids => exact hids ▸ hkept

/-- A completed row is no row that an operation other than a cleanup can touch. -/
theorem step_completed {writer writer' : Writer} {call : Call} {answered : Replies}
    (hinv : Inv writer) (hkeeps : KeepsRecords writer call)
    (h : step writer call = some (writer', answered)) {row : Execution}
    (hrow : row ∈ writer.conn.executions) (hstatus : row.status = .completed) :
    row ∈ writer'.conn.executions := by
  cases (step_effect hinv h).1 with
  | finish f hf hrows hsub =>
    rw [hrows]
    refine List.mem_map.mpr ⟨row, hrow, ?_⟩
    rcases hf row with heq | ⟨hrunning, -⟩
    · exact heq
    · rw [hstatus] at hrunning
      cases hrunning
  | dispatch returned hfresh hspec hvalid hids =>
    have hlookup := Table.lookup_of_mem hinv.valid.jobs hrow
    have hbusy : ¬Available (Table.lookup Execution.jobId row.jobId writer.conn.executions) := by
      intro havailable
      have := havailable row hlookup
      simp [hstatus] at this
    exact Table.mem_of_lookup ((hspec.busy _ hbusy).trans hlookup)
  | cleanup p hrows hids => cases hkeeps

theorem run_completed {writer writer' : Writer} {events : List Replies}
    (h : Run KeepsRecords writer events writer') (hinv : Inv writer) {row : Execution}
    (hrow : row ∈ writer.conn.executions) (hstatus : row.status = .completed) :
    row ∈ writer'.conn.executions :=
  run_keeps h hinv (row ∈ ·.conn.executions) hrow
    fun hinv hkept hkeeps hstep => step_completed hinv hkeeps hstep hkept hstatus

/-- What a completion or an abandon for an attempt that has left `running` does: nothing. -/
structure Fenced (writer : Writer) (jobId : Int) (dispatchId : String) : Prop where
  batch : ∀ env batch, (∀ request ∈ batch, request.key = (jobId, dispatchId)) →
    writer.conn.completeBatch env batch =
      (writer.conn, .ok (List.replicate batch.length .ignored))
  mixed : ∀ env batch, ∃ dispositions,
    (writer.conn.completeBatch env batch).2 = .ok dispositions ∧
      dispositions.length = batch.length ∧
      ∀ reply ∈ batch.zip dispositions, reply.1.key = (jobId, dispatchId) → reply.2 = .ignored
  abandon : ∀ env, writer.conn.abandon env jobId dispatchId = writer.conn

theorem fenced_of_left {writer : Writer} {jobId : Int} {dispatchId : String} (hinv : Inv writer)
    (hleft : running writer.conn.executions (jobId, dispatchId) = false) :
    writer.Fenced jobId dispatchId := by
  have hrow : ∀ row ∈ writer.conn.executions,
      ¬(row.status = .running ∧ row.key = (jobId, dispatchId)) := by
    rintro row hrow ⟨hstatus, hkey⟩
    rw [Bool.eq_false_iff] at hleft
    exact hleft (running_iff.mpr ⟨row, hrow, hkey, hstatus⟩)
  have hmixed : ∀ env batch, ∃ dispositions,
      (writer.conn.completeBatch env batch).2 = .ok dispositions ∧
        dispositions.length = batch.length ∧
        ∀ reply ∈ batch.zip dispositions, reply.1.key = (jobId, dispatchId) →
          reply.2 = .ignored := by
    intro env batch
    obtain ⟨dispositions, -, heq, hlength, hperm⟩ := completeBatch_step hinv env batch
    refine ⟨dispositions, by rw [heq], hlength, fun reply hreply hkey => ?_⟩
    obtain ⟨answer, hanswer, rfl⟩ := List.mem_map.mp (hperm.mem_iff.mp hreply)
    exact answers_ignored hleft hanswer hkey
  refine ⟨fun env batch hbatch => ?_, hmixed, fun env => ?_⟩
  · obtain ⟨dispositions, heq, hlength, hignored⟩ := hmixed env batch
    refine Prod.ext ?_ (heq.trans (congrArg _ ?_))
    · apply (completeBatch_changesOnly env batch hinv.valid).unchanged
      rintro row hmem ⟨hstatus, hkey⟩
      obtain ⟨request, hrequest, hsame⟩ := List.mem_map.mp hkey
      exact hrow row hmem ⟨hstatus, hsame.symm.trans (hbatch request hrequest)⟩
    · refine List.eq_replicate_iff.mpr ⟨hlength, fun disposition hmem => ?_⟩
      obtain ⟨i, hi, rfl⟩ := List.getElem_of_mem hmem
      have hzip : (batch[i], dispositions[i]) ∈ batch.zip dispositions := by
        rw [← List.getElem_zip (h := by simp; omega)]
        exact List.getElem_mem _
      exact hignored _ hzip (hbatch _ (List.getElem_mem _))
  · exact (abandon_changesOnly env jobId dispatchId writer.conn).unchanged hrow

/-- A completion or abandon changes only the row that runs under exactly its key; once an attempt
has left `running`, nothing that arrives for it later has any effect; a completed row stays. -/
theorem results_fenced {queues : List JobQueue} {writer : Writer} {events : List Replies}
    (h : Run KeepsRecords (initial queues) events writer) :
    (∀ env batch, ChangesOnly
      (fun row => row.status = .running ∧ row.key ∈ batch.map PendingCompletion.key) writer.conn
      (writer.conn.completeBatch env batch).1) ∧
    (∀ env jobId dispatchId, ChangesOnly
      (fun row => row.status = .running ∧ row.key = (jobId, dispatchId)) writer.conn
      (writer.conn.abandon env jobId dispatchId)) ∧
    (∀ jobId dispatchId, running writer.conn.executions (jobId, dispatchId) = true →
      ∀ ended later events' events'', Run KeepsRecords writer events' ended →
        ended.Left jobId dispatchId → Run KeepsRecords ended events'' later →
        later.Fenced jobId dispatchId) ∧
    (∀ row ∈ writer.conn.executions, row.status = .completed →
      ∀ later events', Run KeepsRecords writer events' later → row ∈ later.conn.executions) := by
  have hinv := run_inv h (initial_inv queues)
  refine ⟨fun env batch => completeBatch_changesOnly env batch hinv.valid,
    fun env jobId dispatchId => abandon_changesOnly env jobId dispatchId writer.conn, ?_, ?_⟩
  · intro jobId dispatchId hran ended later events' events'' hended hleft hlater
    have hissued := run_issued hended hinv (issued_of_running hinv hran)
    have hinv' := run_inv hended hinv
    have hquiet := run_left hlater hinv' hissued (left_iff.mp hleft)
    exact fenced_of_left (run_inv hlater hinv') hquiet.2
  · intro row hrow hstatus later events' hlater
    exact run_completed hlater hinv hrow hstatus

/-- A lease expires, the job is dispatched again, and the first worker answers late. -/
theorem results_fenced_late_worker : ∃ ran ended,
    Runs.exec step KeepsRecords (initial [mailQueue])
      [.handle (.atTime 0) (.dispatch [⟨1, "mail", "d", 30⟩])] = some (ran, [[]]) ∧
    running ran.conn.executions (1, "d") = true ∧
    Runs.exec step KeepsRecords ran [.handle (.atTime 40) (.recoverStale 40),
      .handle (.atTime 41) (.dispatch [⟨1, "mail", "e", 71⟩])] = some (ended, [[], []]) ∧
    ended.Left 1 "d" ∧ ended.Fenced 1 "d" := by
  have hran : Runs.exec step KeepsRecords (initial [mailQueue])
      [.handle (.atTime 0) (.dispatch [⟨1, "mail", "d", 30⟩])] =
      some (⟨⟨[mailQueue], [⟨1, 1, "mail", .running, 1, some 30, "d", none, none, 0, 0⟩]⟩,
        ["d"]⟩, [[]]) := by decide
  have hended : Runs.exec step KeepsRecords
      ⟨⟨[mailQueue], [⟨1, 1, "mail", .running, 1, some 30, "d", none, none, 0, 0⟩]⟩, ["d"]⟩
      [.handle (.atTime 40) (.recoverStale 40),
        .handle (.atTime 41) (.dispatch [⟨1, "mail", "e", 71⟩])] =
      some (⟨⟨[mailQueue], [⟨1, 1, "mail", .running, 2, some 71, "e", none, none, 0, 41⟩]⟩,
        ["e", "d"]⟩, [[], []]) := by decide
  refine ⟨_, _, hran, by decide, hended, left_iff.mpr (by decide), ?_⟩
  exact (results_fenced (Runs.Run.of_exec hran)).2.2.1 1 "d" (by decide) _ _ _ _
    (Runs.Run.of_exec hended) (left_iff.mpr (by decide)) (Runs.Run.refl _)

end Writer

end Maqistor
