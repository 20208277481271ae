import Maqistor.Results.Dispatch

/-! What `recover_stale`, `abandon` and the cleanup do to the table. The recovery selects the
expired leases first and then fails them by execution id; the ids are unique, so it fails exactly
the rows it selected. -/

namespace Maqistor.ResultsConn

/-- A row after `recover_stale`. -/
def recoverRow (now : Int) (row : Execution) : Execution :=
  if leaseExpired now row then finished now row (.failed "lease expired") else row

/-- The report of a recovered row. -/
def recoveredItem (queues : List JobQueue) (row : Execution) : RecoveredStale :=
  { jobId := row.jobId, dispatchId := row.dispatchId,
    shouldRepend := row.executionCount ≤ limitOf queues row.queueName }

theorem leaseExpired_running {now : Int} {row : Execution} (h : leaseExpired now row = true) :
    row.status = .running := by
  simp only [leaseExpired, decide_eq_true_eq] at h
  exact h.1

theorem leaseExpired_lease {now : Int} {row : Execution} (h : leaseExpired now row = true) :
    ∃ lease, row.leaseExpiresAt = some lease ∧ lease < now := by
  simp only [leaseExpired, decide_eq_true_eq, Option.any_eq_true] at h
  exact h.2

section

variable {choice : Table.Choice} {now : Int} {conn : ResultsConn}
  {stale : List (Execution × JobQueue)}

theorem selectStale_ok (h : selectStale choice now conn = .ok stale) {item : Execution × JobQueue} :
    item ∈ stale ↔ item.1 ∈ conn.executions ∧ leaseExpired now item.1 = true ∧
      Table.lookup JobQueue.name item.1.queueName conn.executionQueues = some item.2 := by
  -- The conversion of each row only checks its count.
  have hsame : ∀ {items results : List (Execution × JobQueue)},
      items.mapM (fun item => do
        let _ ← rowCount item.1.executionCount
        return item) = Except.ok results → results = items := by
    intro items results h
    have hall := (Outcome.mapM_ok h).imp fun item result hitem => by
      obtain ⟨-, -, heq⟩ := Outcome.map_eq_ok.mp hitem
      exact heq
    exact (List.forall₂_eq_eq_eq ▸ hall : items = results).symm
  rw [hsame h, Table.Choice.mem_order, List.mem_filterMap]
  constructor
  · rintro ⟨row, hrow, hitem⟩
    obtain ⟨queue, hqueue, rfl⟩ := Option.map_eq_some_iff.mp hitem
    exact ⟨(List.mem_filter.mp hrow).1, (List.mem_filter.mp hrow).2, hqueue⟩
  · rintro ⟨hrow, hexpired, hqueue⟩
    exact ⟨item.1, List.mem_filter.mpr ⟨hrow, hexpired⟩, by simp [hqueue]⟩

/-- A row of the table is selected exactly when its lease has expired, and then its limit is its
queue's. -/
theorem stale_row (h : selectStale choice now conn = .ok stale)
    (hvalid : Valid conn.executionQueues conn.executions) {row : Execution}
    (hrow : row ∈ conn.executions) :
    ((∃ item ∈ stale, row.id = item.1.id) ↔ leaseExpired now row = true) ∧
      (leaseExpired now row = true → staleLimit stale row.id =
        limitOf conn.executionQueues row.queueName) := by
  have hself : ∀ item ∈ stale, row.id = item.1.id → item.1 = row := by
    intro item hitem hid
    obtain ⟨hmem, -, -⟩ := (selectStale_ok h).mp hitem
    have := Table.lookup_of_mem hvalid.ids hmem
    rw [← hid, Table.lookup_of_mem hvalid.ids hrow] at this
    exact (Option.some.inj this).symm
  obtain ⟨queue, hqueue⟩ : ∃ queue,
      Table.lookup JobQueue.name row.queueName conn.executionQueues = some queue := by
    obtain ⟨queue, hmem, hname⟩ := List.mem_map.mp (hvalid.queues row hrow)
    cases hlookup : Table.lookup JobQueue.name row.queueName conn.executionQueues with
    | none => exact absurd hname (Table.lookup_eq_none.mp hlookup queue hmem)
    | some found => exact ⟨found, rfl⟩
  refine ⟨⟨?_, fun hexpired => ?_⟩, fun hexpired => ?_⟩
  · rintro ⟨item, hitem, hid⟩
    obtain ⟨-, hexpired, -⟩ := (selectStale_ok h).mp hitem
    rwa [hself item hitem hid] at hexpired
  · exact ⟨(row, queue), (selectStale_ok h).mpr ⟨hrow, hexpired, hqueue⟩, rfl⟩
  · unfold staleLimit limitOf
    rw [hqueue]
    cases hlookup : Table.lookup (fun item : Execution × JobQueue => item.1.id) row.id stale with
    | none =>
      have hmem := (selectStale_ok h).mpr
        (show (row, queue).1 ∈ conn.executions ∧ _ from ⟨hrow, hexpired, hqueue⟩)
      exact absurd rfl (Table.lookup_eq_none.mp hlookup _ hmem)
    | some item =>
      have hitem := Table.mem_of_lookup hlookup
      have hrow' := hself item hitem (Table.key_of_lookup hlookup).symm
      have hfound := ((selectStale_ok h).mp hitem).2.2
      rw [hrow', hqueue] at hfound
      rw [Option.some.inj hfound]
      rfl

/-- The rows that a statement keyed by the ids of `items` fails. -/
def selected (items : List (Execution × JobQueue)) (row : Execution) : Bool :=
  row.status = .running ∧ row.id ∈ items.map fun item => item.1.id

def expire (now : Int) (items : List (Execution × JobQueue)) (row : Execution) : Execution :=
  if selected items row then finished now row (.failed "lease expired") else row

def staleReport (stale : List (Execution × JobQueue)) (row : Execution) : RecoveredStale :=
  { jobId := row.jobId, dispatchId := row.dispatchId,
    shouldRepend := row.executionCount ≤ staleLimit stale row.id }

theorem selected_append (items more : List (Execution × JobQueue)) (row : Execution) :
    selected (items ++ more) row = (selected items row || selected more row) := by
  simp only [selected, List.map_append, List.mem_append, Bool.decide_and, Bool.decide_or]
  cases decide (row.status = .running) <;> simp

/-- A row that one statement fails is not running for the next. -/
theorem selected_expire (items more : List (Execution × JobQueue)) (row : Execution) :
    selected more (expire now items row) = (!selected items row && selected more row) := by
  unfold expire
  cases h : selected items row with
  | true => simp [selected, finished_not_running]
  | false => simp

theorem updatedRow_recover (chunk : List (Execution × JobQueue)) (row : Execution) :
    Table.updatedRow choice
      (fun row (_ : Execution × JobQueue) => setFailed now "lease expired" row)
      (fun row item => row.id = item.1.id ∧ row.status = .running) chunk row =
      if selected chunk row then some (finished now row (.failed "lease expired")) else none := by
  cases hupdated : Table.updatedRow choice
      (fun row (_ : Execution × JobQueue) => setFailed now "lease expired" row)
      (fun row item => row.id = item.1.id ∧ row.status = .running) chunk row with
  | none =>
    have hnone := Table.updatedRow_eq_none.mp hupdated
    rw [if_neg]
    intro hselected
    simp only [selected, decide_eq_true_eq, List.mem_map] at hselected
    obtain ⟨hrunning, item, hitem, hid⟩ := hselected
    have := hnone item hitem
    simp [hid, hrunning] at this
  | some row' =>
    obtain ⟨item, hitem, hcond, rfl⟩ := Table.updatedRow_eq_some hupdated
    simp only [decide_eq_true_eq] at hcond
    rw [if_pos]
    · rfl
    · simp only [selected, decide_eq_true_eq, List.mem_map]
      exact ⟨hcond.2, item, hitem, hcond.1.symm⟩

theorem recoverChunk_ok {chunk : List (Execution × JobQueue)}
    {state state' : List Execution × List RecoveredStale}
    (h : recoverChunk choice now stale state chunk = .ok state') :
    state'.1 = state.1.map (expire now chunk) ∧
    ∀ report, report ∈ state'.2 ↔ report ∈ state.2 ∨
      ∃ row ∈ state.1, selected chunk row = true ∧ report = staleReport stale row := by
  obtain ⟨reports, hreports, rfl⟩ := Outcome.map_eq_ok.mp h
  constructor
  · apply List.map_congr_left
    intro row _
    rw [Table.rowAfter, updatedRow_recover, expire]
    split <;> rfl
  · intro report
    rw [List.mem_append]
    apply or_congr_right
    have hmap : reports = ((Table.updateFrom choice
        (fun row (_ : Execution × JobQueue) => setFailed now "lease expired" row)
        (fun row item => row.id = item.1.id ∧ row.status = .running) chunk state.1).2).map
          (staleReport stale) := by
      rw [← List.forall₂_eq_eq_eq, List.forall₂_map_right_iff]
      refine ((Outcome.mapM_ok hreports).imp fun row report hreport => ?_).flip
      obtain ⟨count, hcount, rfl⟩ := Outcome.map_eq_ok.mp hreport
      obtain ⟨-, rfl⟩ := u32TryFrom_eq_ok.mp hcount
      rfl
    rw [hmap, List.mem_map]
    constructor
    · rintro ⟨row', hrow', rfl⟩
      obtain ⟨row, hrow, hupdated⟩ := Table.mem_updateFrom_returned.mp hrow'
      rw [updatedRow_recover] at hupdated
      split at hupdated
      · next hselected =>
        obtain rfl := Option.some.inj hupdated
        exact ⟨row, hrow, hselected, rfl⟩
      · cases hupdated
    · rintro ⟨row, hrow, hselected, rfl⟩
      refine ⟨finished now row (.failed "lease expired"), ?_, rfl⟩
      refine Table.mem_updateFrom_returned.mpr ⟨row, hrow, ?_⟩
      rw [updatedRow_recover, if_pos hselected]

/-- The statements of the recovery, one after another. -/
theorem foldlM_recoverChunk {chunks : List (List (Execution × JobQueue))}
    {state state' : List Execution × List RecoveredStale}
    (h : chunks.foldlM (recoverChunk choice now stale) state = .ok state') :
    state'.1 = state.1.map (expire now chunks.flatten) ∧
    ∀ report, report ∈ state'.2 ↔ report ∈ state.2 ∨
      ∃ row ∈ state.1, selected chunks.flatten row = true ∧ report = staleReport stale row := by
  induction chunks generalizing state with
  | nil =>
    obtain rfl := Except.ok.inj h
    refine ⟨(List.map_id'' (fun row => ?_) state.1).symm, by simp [selected]⟩
    simp [expire, selected]
  | cons chunk chunks ih =>
    rw [List.foldlM_cons, Outcome.bind_eq_ok] at h
    obtain ⟨middle, hfirst, hrest⟩ := h
    obtain ⟨htable, hreports⟩ := recoverChunk_ok hfirst
    obtain ⟨htable', hreports'⟩ := ih hrest
    constructor
    · rw [htable', htable, List.map_map]
      apply List.map_congr_left
      intro row _
      rw [Function.comp_apply, expire, selected_expire, List.flatten_cons]
      unfold expire
      rw [selected_append]
      cases selected chunk row <;> simp
    · intro report
      rw [hreports' report, hreports report, or_assoc]
      apply or_congr_right
      simp only [htable, List.flatten_cons, selected_append, Bool.or_eq_true]
      constructor
      · rintro (⟨row, hrow, hselected, rfl⟩ | ⟨row', hrow', hselected, rfl⟩)
        · exact ⟨row, hrow, Or.inl hselected, rfl⟩
        · obtain ⟨row, hrow, rfl⟩ := List.mem_map.mp hrow'
          rw [selected_expire, Bool.and_eq_true, Bool.not_eq_true'] at hselected
          have hsame : expire now chunk row = row := by simp [expire, hselected.1]
          rw [hsame]
          exact ⟨row, hrow, Or.inr hselected.2, rfl⟩
      · rintro ⟨row, hrow, hselected, rfl⟩
        by_cases hfirst : selected chunk row = true
        · exact Or.inl ⟨row, hrow, hfirst, rfl⟩
        · have hsame : expire now chunk row = row := by simp [expire, hfirst]
          refine Or.inr ⟨row, ?_, hselected.resolve_left hfirst, rfl⟩
          exact List.mem_map.mpr ⟨row, hrow, hsame⟩

end

/-- `recover_stale` fails and changes nothing, or fails exactly the running rows whose lease has
expired and reports each of them. -/
theorem recoverStale_cases (choice : Table.Choice) (now : Int) {conn : ResultsConn}
    (hvalid : Valid conn.executionQueues conn.executions) :
    (∃ error, recoverStale choice now conn = (conn, .error error)) ∨
    ∃ recovered,
      recoverStale choice now conn =
        ({ conn with executions := conn.executions.map (recoverRow now) }, .ok recovered) ∧
      ∀ report, report ∈ recovered ↔ ∃ row ∈ conn.executions, leaseExpired now row = true ∧
        report = recoveredItem conn.executionQueues row := by
  unfold recoverStale
  cases hstale : selectStale choice now conn with
  | error error => exact Or.inl ⟨error, rfl⟩
  | ok stale =>
    cases hfold : (Table.chunks rowsPerStatement stale).foldlM (recoverChunk choice now stale)
        (conn.executions, []) with
    | error error => exact Or.inl ⟨error, by simp only [hfold]⟩
    | ok state =>
      obtain ⟨htable, hreports⟩ := foldlM_recoverChunk hfold
      rw [Table.chunks_flatten rowsPerStatement_pos] at htable hreports
      have hselected : ∀ row ∈ conn.executions, selected stale row = leaseExpired now row := by
        intro row hrow
        have hiff := (stale_row hstale hvalid hrow).1
        rw [Bool.eq_iff_iff, ← hiff]
        simp only [selected, decide_eq_true_eq, List.mem_map]
        constructor
        · rintro ⟨-, item, hitem, hid⟩
          exact ⟨item, hitem, hid.symm⟩
        · rintro ⟨item, hitem, hid⟩
          refine ⟨leaseExpired_running (hiff.mp ⟨item, hitem, hid⟩), item, hitem, hid.symm⟩
      refine Or.inr ⟨state.2, ?_, fun report => ?_⟩
      · simp only [hfold, htable, Prod.mk.injEq, and_true]
        congr 1
        apply List.map_congr_left
        intro row hrow
        rw [expire, recoverRow, hselected row hrow]
      · rw [hreports report]
        simp only [List.not_mem_nil, false_or]
        refine exists_congr fun row => and_congr_right fun hrow => ?_
        rw [hselected row hrow]
        apply and_congr_right
        intro hexpired
        rw [staleReport, recoveredItem, (stale_row hstale hvalid hrow).2 hexpired]

theorem recoverRow_cases (now : Int) (row : Execution) :
    (leaseExpired now row = false ∧ recoverRow now row = row) ∨
      (row.status = .running ∧ leaseExpired now row = true ∧
        recoverRow now row = finished now row (.failed "lease expired")) := by
  unfold recoverRow
  cases h : leaseExpired now row with
  | false => exact Or.inl ⟨rfl, rfl⟩
  | true => exact Or.inr ⟨leaseExpired_running h, rfl, rfl⟩

/-! ### `abandon` -/

/-- A row after `abandon`. -/
def abandonRow (now : Int) (key : Int × String) (row : Execution) : Execution :=
  if fences row key then finished now row (.failed "abandoned") else row

theorem abandon_eq (env : Env) (jobId : Int) (dispatchId : String) (conn : ResultsConn) :
    abandon env jobId dispatchId conn =
      { conn with executions := conn.executions.map (abandonRow env.now (jobId, dispatchId)) } :=
  rfl

theorem abandonRow_cases (now : Int) (key : Int × String) (row : Execution) :
    (fences row key = false ∧ abandonRow now key row = row) ∨
      (fences row key = true ∧ abandonRow now key row = finished now row (.failed "abandoned")) := by
  unfold abandonRow
  cases h : fences row key with
  | false => exact Or.inl ⟨rfl, rfl⟩
  | true => exact Or.inr ⟨rfl, rfl⟩

end Maqistor.ResultsConn
