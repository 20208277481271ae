import Maqistor.Store.Alone
import Mathlib.Data.List.TakeWhile

/-! `recover_stale_leases` on its own. One transaction fails all expired executions; the jobs that
may be retried are then repended one by one, and the loop that does it also reads each job back. A
job whose accepted row is gone ends the loop, so the jobs that come after it stay claimed. -/

namespace Maqistor

open ResultsConn IngestConn

namespace ResultsConn

section Statements

variable {choice : Table.Choice} {now : Int} {stale : List (Execution × JobQueue)}

theorem recoverChunk_eq {chunk : List (Execution × JobQueue)}
    {state : List Execution × List RecoveredStale}
    (hfits : ∀ row ∈ state.1, selected chunk row = true → FitsU32 row.executionCount) :
    recoverChunk choice now stale state chunk =
      .ok (state.1.map (expire now chunk), state.2 ++ (choice.order (state.1.filterMap fun row =>
        if selected chunk row then some (finished now row (.failed "lease expired"))
        else none)).map (staleReport stale)) := by
  have hupdated : (fun row => Table.updatedRow choice
      (fun row (_ : Execution × JobQueue) => setFailed now "lease expired" row)
      (fun row item => row.id = item.1.id ∧ row.status = .running) chunk row) = fun row =>
      if selected chunk row then some (finished now row (.failed "lease expired")) else none :=
    funext fun row => updatedRow_recover chunk row
  have htable : state.1.map (Table.rowAfter choice
      (fun row (_ : Execution × JobQueue) => setFailed now "lease expired" row)
      (fun row item => row.id = item.1.id ∧ row.status = .running) chunk) =
      state.1.map (expire now chunk) := by
    apply List.map_congr_left
    intro row _
    rw [Table.rowAfter, updatedRow_recover, expire]
    split <;> rfl
  simp only [recoverChunk, Table.updateFrom, htable, hupdated]
  rw [Outcome.mapM_of_ok (g := staleReport stale)]
  · rfl
  · intro row hrow
    obtain ⟨before, hbefore, hrow⟩ := List.mem_filterMap.mp (choice.mem_order.mp hrow)
    split at hrow
    · next hselected =>
      obtain rfl := Option.some.inj hrow
      have hcount := hfits before hbefore hselected
      simp only [finished_executionCount, u32TryFrom_of_fits hcount]
      rfl
    · cases hrow

/-- The statements of the recovery succeed when the counts of the rows that they fail fit. -/
theorem foldlM_recoverChunk_ok (chunks : List (List (Execution × JobQueue)))
    {state : List Execution × List RecoveredStale}
    (hfits : ∀ row ∈ state.1, selected chunks.flatten row = true → FitsU32 row.executionCount) :
    ∃ state', chunks.foldlM (recoverChunk choice now stale) state = .ok state' := by
  induction chunks generalizing state with
  | nil => exact ⟨state, rfl⟩
  | cons chunk chunks ih =>
    rw [List.flatten_cons] at hfits
    have hfirst := @recoverChunk_eq choice now stale chunk state fun row hrow hselected =>
      hfits row hrow (by rw [selected_append, hselected, Bool.true_or])
    rw [List.foldlM_cons, hfirst]
    apply ih
    intro row' hrow' hselected
    obtain ⟨row, hrow, rfl⟩ := List.mem_map.mp hrow'
    rw [selected_expire, Bool.and_eq_true, Bool.not_eq_true'] at hselected
    have hsame : expire now chunk row = row := by simp [expire, hselected.1]
    rw [hsame]
    exact hfits row hrow (by rw [selected_append, hselected.2, Bool.or_true])

end Statements

section Whole

variable {choice : Table.Choice} {now : Int} {conn : ResultsConn}

/-- The selection converts every count, so it fails on one that does not fit. -/
theorem selectStale_fits {stale : List (Execution × JobQueue)}
    (h : selectStale choice now conn = .ok stale) {item : Execution × JobQueue} (hitem : item ∈ stale) :
    FitsU32 item.1.executionCount := by
  obtain ⟨item, -, hresult⟩ := Outcome.exists_of_mapM_ok h hitem
  obtain ⟨count, hcount, rfl⟩ := Outcome.map_eq_ok.mp hresult
  exact (rowCount_eq_ok.mp hcount).1

theorem selectStale_of_fits (hfits : ∀ row ∈ conn.executions, leaseExpired now row = true →
    FitsU32 row.executionCount) :
    selectStale choice now conn = .ok (choice.order
      ((conn.executions.filter (leaseExpired now)).filterMap fun row =>
        (Table.lookup JobQueue.name row.queueName conn.executionQueues).map fun queue =>
          (row, queue))) := by
  rw [selectStale, Outcome.mapM_of_ok (g := id), List.map_id]
  intro item hitem
  obtain ⟨row, hrow, hjoin⟩ := List.mem_filterMap.mp (choice.mem_order.mp hitem)
  obtain ⟨queue, -, rfl⟩ := Option.map_eq_some_iff.mp hjoin
  obtain ⟨hmem, hexpired⟩ := List.mem_filter.mp hrow
  simp only [rowCount_of_fits (hfits row hmem hexpired)]
  rfl

/-- `recover_stale` succeeds when the counts of the expired rows fit. -/
theorem recoverStale_of_fits (hvalid : Valid conn.executionQueues conn.executions)
    (hfits : ∀ row ∈ conn.executions, leaseExpired now row = true → FitsU32 row.executionCount) :
    ∃ recovered, recoverStale choice now conn =
        ({ conn with executions := conn.executions.map (recoverRow now) }, .ok recovered) ∧
      ∀ report, report ∈ recovered ↔ ∃ row ∈ conn.executions, leaseExpired now row = true ∧
        report = recoveredItem conn.executionQueues row := by
  rcases recoverStale_cases choice now hvalid with ⟨error, herror⟩ | hok
  · have hstale := @selectStale_of_fits choice now conn hfits
    rw [recoverStale, hstale] at herror
    generalize hitems : choice.order _ = stale at hstale herror
    obtain ⟨state, hstate⟩ := @foldlM_recoverChunk_ok choice now stale
      (Table.chunks rowsPerStatement stale) (conn.executions, []) fun row hrow hselected => by
        rw [Table.chunks_flatten rowsPerStatement_pos] at hselected
        simp only [selected, decide_eq_true_eq, List.mem_map] at hselected
        obtain ⟨-, item, hitem, hid⟩ := hselected
        exact hfits row hrow ((stale_row hstale hvalid hrow).1.mp ⟨item, hitem, hid.symm⟩)
    simp only [hstate, Prod.mk.injEq, reduceCtorEq, and_false] at herror
  · exact hok

/-- `recover_stale` fails and changes nothing when the count of an expired row does not fit. -/
theorem recoverStale_of_unfit (hvalid : Valid conn.executionQueues conn.executions) {row : Execution}
    (hrow : row ∈ conn.executions) (hexpired : leaseExpired now row = true)
    (hunfit : ¬FitsU32 row.executionCount) :
    ∃ error, recoverStale choice now conn = (conn, .error error) := by
  cases hstale : selectStale choice now conn with
  | error error => exact ⟨error, by rw [recoverStale, hstale]⟩
  | ok stale =>
    obtain ⟨item, hitem, hid⟩ := (stale_row hstale hvalid hrow).1.mpr hexpired
    have hmem := ((selectStale_ok hstale).mp hitem).1
    have hsame : item.1 = row := List.inj_on_of_nodup_map hvalid.ids hmem hrow hid.symm
    exact absurd (hsame ▸ selectStale_fits hstale hitem) hunfit

/-! The order of the reports, for a choice that takes all lists alike. -/

/-- A choice that orders what is left of some rows as it orders the rows. -/
def Uniform (choice : Table.Choice) : Prop :=
  ∀ {α β : Type} (f : α → Option β) (rows : List α),
    choice.order (rows.filterMap f) = (choice.order rows).filterMap f

theorem first_uniform : Uniform Table.Choice.first := fun _ _ => rfl

/-- The choice that returns rows in the reverse of the table's order. -/
def reversed : Table.Choice where
  pick _ b _ := b
  pick_mem _ _ _ := List.mem_cons_self
  order rows := rows.reverse
  order_perm := List.reverse_perm

theorem reversed_uniform : Uniform reversed := fun _ _ => List.filterMap_reverse.symm

theorem expire_append (items more : List (Execution × JobQueue)) (row : Execution) :
    expire now more (expire now items row) = expire now (items ++ more) row := by
  rw [expire, selected_expire]
  unfold expire
  rw [selected_append]
  cases selected items row <;> simp

/-- A row that a later statement selects was not selected before. -/
theorem selected_of_nodup {earlier chunk : List (Execution × JobQueue)}
    (hids : ((earlier ++ chunk).map fun item => item.1.id).Nodup) {row : Execution}
    (h : selected chunk row = true) : selected earlier row = false := by
  rw [List.map_append, List.nodup_append] at hids
  simp only [selected, decide_eq_true_eq, decide_eq_false_iff_not, not_and] at h ⊢
  exact fun _ hmem => hids.2.2 _ hmem _ h.2 rfl

theorem foldlM_recoverChunk_reports (huniform : Uniform choice) {rows : List Execution}
    {stale : List (Execution × JobQueue)} (chunks : List (List (Execution × JobQueue)))
    (earlier : List (Execution × JobQueue)) (reports : List RecoveredStale)
    (hids : ((earlier ++ chunks.flatten).map fun item => item.1.id).Nodup)
    (hfits : ∀ row ∈ rows, selected chunks.flatten row = true → FitsU32 row.executionCount) :
    ∃ table, chunks.foldlM (recoverChunk choice now stale) (rows.map (expire now earlier), reports) =
      .ok (table, reports ++ chunks.flatMap fun chunk =>
        ((choice.order rows).filter (selected chunk)).map (staleReport stale)) := by
  induction chunks generalizing earlier reports with
  | nil => exact ⟨_, by rw [List.flatMap_nil, List.append_nil]; rfl⟩
  | cons chunk chunks ih =>
    rw [List.flatten_cons] at hids hfits
    have hchunk : ((earlier ++ chunk).map fun item => item.1.id).Nodup := by
      rw [← List.append_assoc, List.map_append] at hids
      exact hids.of_append_left
    have hselected : ∀ row, selected chunk (expire now earlier row) = selected chunk row := by
      intro row
      rw [selected_expire]
      cases h : selected chunk row with
      | false => rw [Bool.and_false]
      | true => rw [selected_of_nodup hchunk h]; rfl
    have hstate := @recoverChunk_eq choice now stale chunk (rows.map (expire now earlier), reports)
      fun row' hrow' h => by
        obtain ⟨row, hrow, rfl⟩ := List.mem_map.mp hrow'
        rw [hselected] at h
        have hsame : expire now earlier row = row := by simp [expire, selected_of_nodup hchunk h]
        rw [hsame]
        exact hfits row hrow (by rw [selected_append, h, Bool.true_or])
    have htable : (rows.map (expire now earlier)).map (expire now chunk) =
        rows.map (expire now (earlier ++ chunk)) := by
      rw [List.map_map]
      exact List.map_congr_left fun row _ => expire_append earlier chunk row
    have hreports : (choice.order ((rows.map (expire now earlier)).filterMap fun row =>
        if selected chunk row then some (finished now row (.failed "lease expired"))
        else none)).map (staleReport stale) =
        ((choice.order rows).filter (selected chunk)).map (staleReport stale) := by
      rw [List.filterMap_map, huniform, List.map_filterMap, ← List.filterMap_eq_filter,
        List.map_filterMap]
      apply List.filterMap_congr
      intro row _
      rw [Function.comp_apply, hselected]
      cases h : selected chunk row with
      | false => simp [h]
      | true =>
        have hsame : expire now earlier row = row := by simp [expire, selected_of_nodup hchunk h]
        simp only [hsame, if_true, Option.map_some, Option.guard, h]
        rfl
    obtain ⟨table, hfold⟩ := ih (earlier ++ chunk)
      (reports ++ ((choice.order rows).filter (selected chunk)).map (staleReport stale))
      (by rwa [List.append_assoc]) fun row hrow h =>
        hfits row hrow (by rw [selected_append, h, Bool.or_true])
    refine ⟨table, ?_⟩
    rw [List.foldlM_cons, hstate]
    simp only [htable, hreports]
    rw [List.flatMap_cons, ← List.append_assoc]
    exact hfold

/-- A part of distinct rows is what is left of them when the others are taken out. -/
theorem filter_eq_of_sublist {α : Type} {rows part : List α} {p : α → Bool} (hsub : part.Sublist rows)
    (hrows : rows.Nodup) (hp : ∀ row ∈ rows, p row = true ↔ row ∈ part) : rows.filter p = part := by
  have hkept : part.filter p = part :=
    List.filter_eq_self.mpr fun row hrow => (hp row (hsub.subset hrow)).mpr hrow
  have hsub' : part.Sublist (rows.filter p) := hkept ▸ hsub.filter p
  have hperm : part.Perm (rows.filter p) := by
    refine (List.perm_ext_iff_of_nodup (hrows.sublist hsub) (hrows.filter p)).mpr fun row => ?_
    rw [List.mem_filter]
    exact ⟨fun hrow => ⟨hsub.subset hrow, (hp row (hsub.subset hrow)).mpr hrow⟩,
      fun ⟨hrow, hrow'⟩ => (hp row hrow).mp hrow'⟩
  exact (hsub'.eq_of_length hperm.length_eq).symm

theorem selectStale_rows (huniform : Uniform choice)
    (hvalid : Valid conn.executionQueues conn.executions) :
    (choice.order ((conn.executions.filter (leaseExpired now)).filterMap fun row =>
      (Table.lookup JobQueue.name row.queueName conn.executionQueues).map fun queue =>
        (row, queue))).map Prod.fst =
      (choice.order conn.executions).filter (leaseExpired now) := by
  have hfilter : choice.order (conn.executions.filter (leaseExpired now)) =
      (choice.order conn.executions).filter (leaseExpired now) := by
    rw [← List.filterMap_eq_filter, huniform, List.filterMap_eq_filter]
  rw [huniform, hfilter, List.map_filterMap]
  refine (List.filterMap_congr fun row hrow => ?_).trans List.filterMap_some
  have hrow' := choice.mem_order.mp (List.mem_filter.mp hrow).1
  cases hlookup : Table.lookup JobQueue.name row.queueName conn.executionQueues with
  | none =>
    obtain ⟨queue, hqueue, hname⟩ := List.mem_map.mp (hvalid.queues row hrow')
    exact absurd hname (Table.lookup_eq_none.mp hlookup queue hqueue)
  | some queue => rfl

/-- The statement for a chunk of the stale rows selects the rows of the chunk. -/
theorem filter_selected_chunk {stale chunk : List (Execution × JobQueue)}
    (hvalid : Valid conn.executionQueues conn.executions) (hstale : selectStale choice now conn = .ok stale)
    (hrows : stale.map Prod.fst = (choice.order conn.executions).filter (leaseExpired now))
    (hchunk : chunk ∈ Table.chunks rowsPerStatement stale) :
    (choice.order conn.executions).filter (selected chunk) = chunk.map Prod.fst := by
  have hnodup : (choice.order conn.executions).Nodup :=
    (choice.order_perm _).symm.nodup (List.Nodup.of_map _ hvalid.ids)
  have hsub : chunk.Sublist stale := by
    have hflat := List.sublist_flatten_of_mem hchunk
    rwa [Table.chunks_flatten rowsPerStatement_pos] at hflat
  have hmem : ∀ item ∈ chunk, item.1 ∈ conn.executions ∧ leaseExpired now item.1 = true := by
    intro item hitem
    obtain ⟨hrow, hexpired, -⟩ := (selectStale_ok hstale).mp (hsub.subset hitem)
    exact ⟨hrow, hexpired⟩
  apply filter_eq_of_sublist ((hrows ▸ hsub.map Prod.fst).trans List.filter_sublist) hnodup
  intro row hrow
  rw [choice.mem_order] at hrow
  simp only [selected, decide_eq_true_eq, List.mem_map]
  constructor
  · rintro ⟨-, item, hitem, hid⟩
    exact ⟨item, hitem, List.inj_on_of_nodup_map hvalid.ids (hmem item hitem).1 hrow hid⟩
  · rintro ⟨item, hitem, rfl⟩
    exact ⟨leaseExpired_running (hmem item hitem).2, item, hitem, rfl⟩

/-- The reports of all statements, in their order. -/
theorem reports_of_chunks {stale : List (Execution × JobQueue)}
    (hvalid : Valid conn.executionQueues conn.executions) (hstale : selectStale choice now conn = .ok stale)
    (hrows : stale.map Prod.fst = (choice.order conn.executions).filter (leaseExpired now)) :
    ((Table.chunks rowsPerStatement stale).flatMap fun chunk =>
      ((choice.order conn.executions).filter (selected chunk)).map (staleReport stale)) =
      ((choice.order conn.executions).filter (leaseExpired now)).map
        (recoveredItem conn.executionQueues) := by
  calc ((Table.chunks rowsPerStatement stale).flatMap fun chunk =>
        ((choice.order conn.executions).filter (selected chunk)).map (staleReport stale))
      = (Table.chunks rowsPerStatement stale).flatMap fun chunk =>
          chunk.map fun item => staleReport stale item.1 :=
        List.flatMap_congr fun chunk hchunk => by
          rw [filter_selected_chunk hvalid hstale hrows hchunk, List.map_map]
          rfl
    _ = (stale.map Prod.fst).map (staleReport stale) := by
        rw [Table.chunks_flatMap_map rowsPerStatement_pos, List.map_map]
        rfl
    _ = ((choice.order conn.executions).filter (leaseExpired now)).map
          (recoveredItem conn.executionQueues) := by
        rw [hrows]
        refine List.map_congr_left fun row hrow => ?_
        obtain ⟨hrow, hexpired⟩ := List.mem_filter.mp hrow
        rw [staleReport, recoveredItem,
          (stale_row hstale hvalid (choice.mem_order.mp hrow)).2 hexpired]

/-- With a uniform choice the expired rows are reported in its order of the table. -/
theorem recoverStale_order (huniform : Uniform choice)
    (hvalid : Valid conn.executionQueues conn.executions)
    (hfits : ∀ row ∈ conn.executions, leaseExpired now row = true → FitsU32 row.executionCount) :
    recoverStale choice now conn =
      ({ conn with executions := conn.executions.map (recoverRow now) },
        .ok (((choice.order conn.executions).filter (leaseExpired now)).map
          (recoveredItem conn.executionQueues))) := by
  have hstale := @selectStale_of_fits choice now conn hfits
  generalize hitems : choice.order _ = stale at hstale
  have hrows := hitems ▸ selectStale_rows huniform hvalid
  have hids : (stale.map fun item => item.1.id).Nodup := by
    have hsub : (stale.map Prod.fst).Sublist (choice.order conn.executions) :=
      hrows ▸ List.filter_sublist
    have horder : ((choice.order conn.executions).map Execution.id).Nodup :=
      ((choice.order_perm _).map _).symm.nodup hvalid.ids
    have hmapped := horder.sublist (hsub.map Execution.id)
    rwa [List.map_map] at hmapped
  obtain ⟨table, hfold⟩ := @foldlM_recoverChunk_reports choice now huniform conn.executions stale
    (Table.chunks rowsPerStatement stale) [] []
    (by rwa [List.nil_append, Table.chunks_flatten rowsPerStatement_pos]) fun row hrow h => by
      rw [Table.chunks_flatten rowsPerStatement_pos] at h
      simp only [selected, decide_eq_true_eq, List.mem_map] at h
      obtain ⟨-, item, hitem, hid⟩ := h
      exact hfits row hrow ((stale_row hstale hvalid hrow).1.mp ⟨item, hitem, hid.symm⟩)
  have hstart : conn.executions.map (expire now []) = conn.executions :=
    (List.map_congr_left fun row _ => by simp [expire, selected]).trans (List.map_id' _)
  obtain ⟨recovered, hok, -⟩ := recoverStale_of_fits hvalid hfits
  rw [hstart, List.nil_append, reports_of_chunks hvalid hstale hrows] at hfold
  rw [recoverStale, hstale] at hok ⊢
  simp only [hfold, Prod.mk.injEq] at hok ⊢
  exact ⟨hok.1, trivial⟩

end Whole

end ResultsConn

namespace Store

/-! ### The loop -/

/-- Whether the accepted row of a recovered job is still there. -/
def present (rows : List AcceptedJob) (item : RecoveredStale) : Bool :=
  (Table.lookup AcceptedJob.id item.jobId rows).isSome

/-- The keys of the items that are to be repended. -/
def retried (items : List RecoveredStale) : List (Int × String) :=
  (items.filter fun item => item.shouldRepend).map fun item => (item.jobId, item.dispatchId)

/-- The items that the loop comes to: those before the first one whose accepted row is gone. -/
def reached (store : Store) (items : List RecoveredStale) : List RecoveredStale :=
  items.takeWhile (present store.ingest.acceptedJobs)

section Loop

variable {store : Store} {envs : Stage → Env} {items : List RecoveredStale} {item : RecoveredStale}

theorem present_map {rows : List AcceptedJob} {f : AcceptedJob → AcceptedJob}
    (hf : ∀ row, (f row).id = row.id) (item : RecoveredStale) :
    present (rows.map f) item = present rows item := by
  rw [present, present, Table.lookup_map hf, Option.isSome_map]

/-- The repend of the first item of the loop, if it is to be made, comes before the others. -/
theorem alone_recoverItems_cons (jobs : List Job) (rest : List RecoveredStale) :
    ∃ g, (∀ keys f, Repends keys f → Repends (retried [item] ++ keys) (f ∘ g)) ∧
      alone envs (store, recoverItems jobs (item :: rest)) =
        alone envs ({ store with ingest := { store.ingest with
          acceptedJobs := store.ingest.acceptedJobs.map g } },
          .wait (.readStaleAccepted item rest jobs)) := by
  rw [recoverItems]
  split
  · next hrepend =>
    refine ⟨rependRow (envs (.rependStale item rest jobs)).now (item.jobId, item.dispatchId), ?_, ?_⟩
    · intro keys f hf
      simpa [retried, hrepend] using hf.cons _ (item.jobId, item.dispatchId)
    · rw [alone_wait, advance, repend_eq]
  · next hkept =>
    refine ⟨fun row => row, fun keys f hf => ?_, by rw [List.map_id']⟩
    have hnone : retried [item] = [] := by simp [retried, hkept]
    rw [hnone]
    exact hf

theorem retried_cons (rest : List RecoveredStale) :
    retried (item :: rest) = retried [item] ++ retried rest := by
  cases h : item.shouldRepend <;> simp [retried, h]

/-- What the loop does to the store: the claims of the items that it comes to are taken back, where
the item says so. -/
theorem alone_recoverItems (jobs : List Job)
    (hread : ∀ item ∈ items, ∃ execution, store.results.readExecution item.jobId = .ok execution) :
    ∃ f, Repends (retried (store.reached items)) f ∧
      (alone envs (store, recoverItems jobs items)).1 =
        { store with ingest := { store.ingest with
          acceptedJobs := store.ingest.acceptedJobs.map f } } := by
  induction items generalizing store jobs with
  | nil =>
    refine ⟨_, Repends.nil, ?_⟩
    rw [recoverItems, alone_done, List.map_id']
  | cons item rest ih =>
    obtain ⟨g, hg, hrepended⟩ := @alone_recoverItems_cons store envs item jobs rest
    have hgid : ∀ row, (g row).id = row.id := (hg [] _ Repends.nil).id
    rw [hrepended, alone_wait, advance, reached, List.takeWhile_cons, acceptedRow,
      Table.lookup_map hgid]
    cases hlookup : Table.lookup AcceptedJob.id item.jobId store.ingest.acceptedJobs with
    | none =>
      -- no row has the item's id, so its repend changes nothing
      have hkept : store.ingest.acceptedJobs.map g =
          store.ingest.acceptedJobs.map fun row => if row.id = item.jobId then row else g row :=
        List.map_congr_left fun row hrow => (if_neg (Table.lookup_eq_none.mp hlookup row hrow)).symm
      have habsent : present store.ingest.acceptedJobs item = false := by simp [present, hlookup]
      refine ⟨fun row => if row.id = item.jobId then row else g row, fun row => ?_, ?_⟩
      · simp only [habsent, Bool.false_eq_true, if_false, retried, List.filter_nil, List.map_nil,
          List.any_nil]
        split
        · rfl
        · next hne =>
          have hnone : (retried [item] ++ []).any (claimedUnder row) = false := by
            simp only [retried, List.append_nil, List.any_map, List.any_eq_false]
            intro other hother
            rw [List.mem_singleton.mp (List.mem_filter.mp hother).1]
            simp [claimedUnder, hne]
          have hrow := hg [] _ Repends.nil row
          rwa [hnone] at hrow
      · simp only [Option.map_none, alone_done, hkept]
    | some accepted =>
      have hid : (g accepted).id = item.jobId := (hgid accepted).trans (Table.key_of_lookup hlookup)
      obtain ⟨execution, hexecution⟩ := hread item List.mem_cons_self
      obtain ⟨f, hf, hend⟩ := @ih { store with ingest := { store.ingest with
        acceptedJobs := store.ingest.acceptedJobs.map g } }
        (jobs ++ [Job.fromAccepted (g accepted) execution])
        fun other hother => hread other (List.mem_cons_of_mem _ hother)
      have hpresent : present store.ingest.acceptedJobs item = true := by simp [present, hlookup]
      have hreached : reached { store with ingest := { store.ingest with
          acceptedJobs := store.ingest.acceptedJobs.map g } } rest =
          rest.takeWhile (present store.ingest.acceptedJobs) := by
        unfold reached
        congr 1
        exact funext fun other => present_map hgid other
      refine ⟨f ∘ g, ?_, ?_⟩
      · rw [if_pos hpresent, retried_cons]
        exact hg _ f (hreached ▸ hf)
      · simp only [Option.map_some]
        rw [alone_wait, advance, hid, hexecution]
        simp only [hend, List.map_map]

end Loop

/-! ### What a recovery is for -/

/-- A recovery from `store` to `store'` is complete: the running executions whose lease is over are
failed and nothing else happens to the executions, and every job that may be retried and is still
claimed by that attempt is claimable again. -/
structure RecoveryComplete (now : Int) (store store' : Store) : Prop where
  executions : store'.results.executions = store.results.executions.map (recoverRow now)
  claimable : ∀ row ∈ store.results.executions, leaseExpired now row = true →
    row.executionCount ≤ limitOf store.results.executionQueues row.queueName →
    ∀ accepted ∈ store.ingest.acceptedJobs, accepted.id = row.jobId →
      accepted.dispatchId = some row.dispatchId →
      ∃ accepted' ∈ store'.ingest.acceptedJobs, accepted'.id = row.jobId ∧
        accepted'.dispatchId = none

/-- `recover_stale_leases` is complete, whatever the order of the rows that the statements
return. -/
def Recovers (now : Int) (store : Store) : Prop :=
  ∀ choice envs, RecoveryComplete now store (alone envs (store.recoverStaleLeases choice now)).1

/-- An expired execution whose accepted row is gone. -/
def Lost (now : Int) (store : Store) (row : Execution) : Prop :=
  row ∈ store.results.executions ∧ leaseExpired now row = true ∧
    ∀ accepted ∈ store.ingest.acceptedJobs, accepted.id ≠ row.jobId

/-- An expired execution whose job is to be claimable again. -/
def Retryable (now : Int) (store : Store) (row : Execution) : Prop :=
  row ∈ store.results.executions ∧ leaseExpired now row = true ∧
    row.executionCount ≤ limitOf store.results.executionQueues row.queueName ∧
    ∃ accepted ∈ store.ingest.acceptedJobs, accepted.id = row.jobId ∧
      accepted.dispatchId = some row.dispatchId

section Recovery

variable {store : Store} {now : Int} {choice : Table.Choice} {envs : Stage → Env}

/-- The loop of the recovery reads back the rows that were just failed, whose counts fit. -/
theorem alone_recoverStaleLeases {recovered : List RecoveredStale} (h : store.WellFormed)
    (hrecovered : store.results.recoverStale choice now =
      ({ store.results with executions := store.results.executions.map (recoverRow now) },
        .ok recovered))
    (hreports : ∀ report ∈ recovered, ∃ row ∈ store.results.executions,
      report.jobId = row.jobId ∧ FitsU32 row.executionCount) :
    ∃ f, Repends (retried (store.reached recovered)) f ∧
      (alone envs (store.recoverStaleLeases choice now)).1 =
        { store with
          ingest := { store.ingest with acceptedJobs := store.ingest.acceptedJobs.map f }
          results := { store.results with
            executions := store.results.executions.map (recoverRow now) } } := by
  rw [recoverStaleLeases, hrecovered]
  refine @alone_recoverItems { store with results := { store.results with
    executions := store.results.executions.map (recoverRow now) } } envs recovered []
    fun report hreport => ?_
  obtain ⟨row, hrow, hjob, hcount⟩ := hreports report hreport
  have hkeeps : ∀ row, (recoverRow now row).jobId = row.jobId :=
    (Writer.finishes_recoverRow now).keeps Execution.jobId fun _ _ _ => finished_jobId _ _ _
  have hcounts : (recoverRow now row).executionCount = row.executionCount :=
    (Writer.finishes_recoverRow now).keeps Execution.executionCount
      (fun _ _ _ => finished_executionCount _ _ _) row
  refine ⟨some (recoverRow now row), ?_⟩
  rw [hjob]
  apply readExecution_of_lookup
  · rw [Table.lookup_map hkeeps, Table.lookup_of_mem h.valid.jobs hrow, Option.map_some]
  · rwa [hcounts]

/-- Counts that fit, and no lost execution among those that are recovered, or none to retry. -/
theorem recovers_of (h : store.WellFormed)
    (hfits : ∀ row ∈ store.results.executions, leaseExpired now row = true →
      FitsU32 row.executionCount)
    (hlost : (∃ row, Lost now store row) → ¬∃ row, Retryable now store row) :
    store.Recovers now := by
  intro choice envs
  obtain ⟨recovered, heq, hreports⟩ := @recoverStale_of_fits choice now store.results h.valid hfits
  obtain ⟨f, hf, hend⟩ := @alone_recoverStaleLeases store now choice envs recovered h heq
    fun report hreport => by
      obtain ⟨row, hrow, hexpired, rfl⟩ := (hreports report).mp hreport
      exact ⟨row, hrow, rfl, hfits row hrow hexpired⟩
  rw [hend]
  refine ⟨rfl, fun row hrow hexpired hcount accepted haccepted hid hclaim => ?_⟩
  refine ⟨f accepted, List.mem_map_of_mem haccepted, (hf.id accepted).trans hid, ?_⟩
  have hpresent : ∀ report ∈ recovered, present store.ingest.acceptedJobs report = true := by
    intro report hreport
    obtain ⟨other, hother, hexpired', rfl⟩ := (hreports report).mp hreport
    by_contra habsent
    refine hlost ⟨other, hother, hexpired', ?_⟩ ⟨row, hrow, hexpired, hcount, accepted, haccepted,
      hid, hclaim⟩
    have hnone : Table.lookup AcceptedJob.id other.jobId store.ingest.acceptedJobs = none := by
      simpa [present, recoveredItem] using habsent
    exact Table.lookup_eq_none.mp hnone
  have hreached : store.reached recovered = recovered := List.takeWhile_eq_self_iff.mpr hpresent
  have hitem : recoveredItem store.results.executionQueues row ∈ recovered :=
    (hreports _).mpr ⟨row, hrow, hexpired, rfl⟩
  rw [hf.dispatchId, hreached, if_pos]
  refine List.any_eq_true.mpr ⟨(row.jobId, row.dispatchId), List.mem_map.mpr ⟨_,
    List.mem_filter.mpr ⟨hitem, by simpa [recoveredItem] using hcount⟩, rfl⟩, ?_⟩
  simp [claimedUnder, hid, hclaim]

theorem fits_of_recovers (h : store.WellFormed) (hrecovers : store.Recovers now) :
    ∀ row ∈ store.results.executions, leaseExpired now row = true → FitsU32 row.executionCount := by
  intro row hrow hexpired
  by_contra hunfit
  obtain ⟨error, heq⟩ :=
    @recoverStale_of_unfit Table.Choice.first now store.results h.valid row hrow hexpired hunfit
  have hsame := (hrecovers Table.Choice.first fun _ => Env.atTime 0).executions
  rw [recoverStaleLeases, heq, alone_done] at hsame
  have hrow' := List.map_inj_left.mp ((List.map_id _).trans hsame) row hrow
  rw [id, recoverRow, if_pos hexpired] at hrow'
  exact finished_not_running now row _ (hrow' ▸ leaseExpired_running hexpired)

/-- Some uniform choice has one of two expired rows before the other. -/
theorem exists_order {rows : List Execution} (hrows : rows.Nodup) {first second : Execution}
    (hfirst : first ∈ rows) :
    ∃ choice, Uniform choice ∧ ∃ before after,
      choice.order rows = before ++ first :: after ∧ second ∉ before := by
  obtain ⟨before, after, rfl⟩ := List.append_of_mem hfirst
  by_cases hsecond : second ∈ before
  · refine ⟨reversed, reversed_uniform, after.reverse, before.reverse, ?_, fun hmem => ?_⟩
    · simp [reversed]
    · have hdisjoint := (List.nodup_append.mp hrows).2.2 second hsecond second
        (List.mem_cons_of_mem _ (List.mem_reverse.mp hmem))
      exact hdisjoint rfl
  · exact ⟨Table.Choice.first, first_uniform, before, after, rfl, hsecond⟩

/-- The loop does not come to what stands behind a job whose accepted row is gone. -/
theorem mem_reached_append {before after : List RecoveredStale} {item other : RecoveredStale}
    (habsent : present store.ingest.acceptedJobs item = false)
    (h : other ∈ store.reached (before ++ item :: after)) : other ∈ before := by
  rw [reached, List.takeWhile_append, List.takeWhile_cons, habsent] at h
  split at h
  · simpa using h
  · exact (List.takeWhile_sublist _).subset h

/-- A lost execution that comes first keeps a job that may be retried claimed. -/
theorem not_recovers (h : store.WellFormed) {lost row : Execution} (hlost : Lost now store lost)
    (hrow : Retryable now store row) : ¬store.Recovers now := by
  intro hrecovers
  obtain ⟨hlostRow, hlostExpired, hgone⟩ := hlost
  obtain ⟨hmem, hexpired, hcount, accepted, haccepted, hid, hclaim⟩ := hrow
  have hfits := fits_of_recovers h hrecovers
  have hnodup : store.results.executions.Nodup := List.Nodup.of_map _ h.valid.ids
  obtain ⟨choice, huniform, before, after, horder, hnot⟩ := @exists_order _ hnodup lost row hlostRow
  obtain ⟨f, hf, hend⟩ := @alone_recoverStaleLeases store now choice (fun _ => Env.atTime 0) _ h
    (recoverStale_order huniform h.valid hfits) fun report hreport => by
      obtain ⟨other, hother, rfl⟩ := List.mem_map.mp hreport
      obtain ⟨hother, hotherExpired⟩ := List.mem_filter.mp hother
      rw [choice.mem_order] at hother
      exact ⟨other, hother, rfl, hfits other hother hotherExpired⟩
  obtain ⟨accepted', haccepted', hid', hfree⟩ :=
    (hrecovers choice fun _ => Env.atTime 0).claimable row hmem hexpired hcount accepted haccepted
      hid hclaim
  rw [hend] at haccepted'
  obtain ⟨source, hsource, rfl⟩ := List.mem_map.mp haccepted'
  have hsame : source = accepted := by
    refine List.inj_on_of_nodup_map h.ids hsource haccepted ?_
    rw [← hf.id source, hid', hid]
  rw [hsame, hf.dispatchId, hclaim] at hfree
  split at hfree
  · next hany =>
    obtain ⟨key, hkey, hclaimed⟩ := List.any_eq_true.mp hany
    obtain ⟨item, hitem, rfl⟩ := List.mem_map.mp hkey
    obtain ⟨hitem, -⟩ := List.mem_filter.mp hitem
    rw [horder, List.filter_append, List.filter_cons_of_pos hlostExpired, List.map_append,
      List.map_cons] at hitem
    have hnone : Table.lookup AcceptedJob.id lost.jobId store.ingest.acceptedJobs = none :=
      Table.lookup_eq_none.mpr hgone
    have hbefore := mem_reached_append (by simp [present, recoveredItem, hnone]) hitem
    obtain ⟨other, hother, rfl⟩ := List.mem_map.mp hbefore
    obtain ⟨hother, -⟩ := List.mem_filter.mp hother
    have hotherRow : other ∈ store.results.executions := by
      rw [← choice.mem_order, horder]
      exact List.mem_append_left _ hother
    have hsameId : accepted.id = other.jobId := (of_decide_eq_true hclaimed).1
    have hjob : other.jobId = row.jobId := by rw [← hsameId, hid]
    exact hnot (List.inj_on_of_nodup_map h.valid.jobs hotherRow hmem hjob ▸ hother)
  · cases hfree

/-- A recovery is complete, in every order, exactly when the counts fit and no expired execution
that has lost its accepted row comes together with one whose job has to be claimable again. -/
theorem recovery_complete_iff (h : store.WellFormed) :
    store.Recovers now ↔
      (∀ row ∈ store.results.executions, leaseExpired now row = true → FitsU32 row.executionCount) ∧
      ¬((∃ row, Lost now store row) ∧ ∃ row, Retryable now store row) := by
  constructor
  · intro hrecovers
    refine ⟨fits_of_recovers h hrecovers, ?_⟩
    rintro ⟨⟨lost, hlost⟩, row, hrow⟩
    exact not_recovers h hlost hrow hrecovers
  · rintro ⟨hfits, hnot⟩
    exact recovers_of h hfits fun hlost hrow => hnot ⟨hlost, hrow⟩

end Recovery

/-- Two expired attempts, the second of a job that is claimed by it. -/
def expiredMail (accepted : List AcceptedJob) : Store :=
  { ingest := { jobQueues := [mailQueue], acceptedJobs := accepted }
    queueNames := ["mail"]
    results := { executionQueues := [mailQueue],
                 executions := [⟨1, 1, "mail", .running, 1, some 35, "a", none, none, 5, 5⟩,
                   ⟨2, 2, "mail", .running, 1, some 36, "b", none, none, 6, 6⟩] } }

theorem recovery_complete_iff_both_accepted :
    (expiredMail [⟨1, "mail", [], some "a", 0, 5⟩, ⟨2, "mail", [], some "b", 1, 6⟩]).Recovers 100 := by
  refine (recovery_complete_iff ⟨by decide, ⟨by decide, by decide, by decide, by decide⟩⟩).mpr
    ⟨?_, ?_⟩
  · decide
  · rintro ⟨⟨row, hrow, -, hgone⟩, -⟩
    revert row
    decide

/-- The accepted row of the first job is gone, as after a cleanup: its recovery ends the call with
an error, and the second job stays claimed by the attempt that has just been failed. -/
theorem recovery_stops_at_lost_job :
    (expiredMail [⟨2, "mail", [], some "b", 1, 6⟩]).WellFormed ∧
    alone (fun _ => .atTime 100)
      ((expiredMail [⟨2, "mail", [], some "b", 1, 6⟩]).recoverStaleLeases .first 100) =
      ({ expiredMail [⟨2, "mail", [], some "b", 1, 6⟩] with
        results := { executionQueues := [mailQueue],
                     executions := [⟨1, 1, "mail", .failed, 1, none, "a", none, some "lease expired", 5,
                       100⟩, ⟨2, 2, "mail", .failed, 1, none, "b", none, some "lease expired", 6, 100⟩] } },
        .done (.recovered (.error (.notFound 1)))) ∧
    ¬(expiredMail [⟨2, "mail", [], some "b", 1, 6⟩]).Recovers 100 := by
  have hend : alone (fun _ => .atTime 100)
      ((expiredMail [⟨2, "mail", [], some "b", 1, 6⟩]).recoverStaleLeases .first 100) =
      ({ expiredMail [⟨2, "mail", [], some "b", 1, 6⟩] with
        results := { executionQueues := [mailQueue],
                     executions := [⟨1, 1, "mail", .failed, 1, none, "a", none, some "lease expired", 5,
                       100⟩, ⟨2, 2, "mail", .failed, 1, none, "b", none, some "lease expired", 6, 100⟩] } },
        .done (.recovered (.error (.notFound 1)))) := by decide
  refine ⟨⟨by decide, ⟨by decide, by decide, by decide, by decide⟩⟩, hend, fun hrecovers => ?_⟩
  have hclaimable := (hrecovers .first fun _ => .atTime 100).claimable
  rw [hend] at hclaimable
  revert hclaimable
  decide

end Store

end Maqistor
