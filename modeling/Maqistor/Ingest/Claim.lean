import Maqistor.Ingest.Conn
import Maqistor.Lib.Lists

/-! What `claim_batch` and `repend` do to the accepted jobs: a claim gives each row it returns its
own dispatch id, and only rows without one; a repend takes exactly the given id away. -/

namespace Maqistor

/-- The key of the attempt that a claim is for. -/
def IngestClaimed.key (claimed : IngestClaimed) : Int × String := (claimed.id, claimed.dispatchId)

namespace IngestConn

/-- A row after a claim. -/
def claimedRow (now : Int) (claimed : List IngestClaimed) (row : AcceptedJob) : AcceptedJob :=
  match Table.lookup IngestClaimed.id row.id claimed with
  | none => row
  | some entry => if row.dispatchId = none then marked now row entry.dispatchId else row

theorem claimedRow_cases (now : Int) (claimed : List IngestClaimed) (row : AcceptedJob) :
    (claimedRow now claimed row = row ∧
      (row.dispatchId = none → Table.lookup IngestClaimed.id row.id claimed = none)) ∨
    ∃ entry, Table.lookup IngestClaimed.id row.id claimed = some entry ∧ row.dispatchId = none ∧
      claimedRow now claimed row = marked now row entry.dispatchId := by
  unfold claimedRow
  cases h : Table.lookup IngestClaimed.id row.id claimed with
  | none => exact Or.inl ⟨rfl, fun _ => rfl⟩
  | some entry =>
    by_cases hfree : row.dispatchId = none
    · exact Or.inr ⟨entry, rfl, hfree, if_pos hfree⟩
    · exact Or.inl ⟨if_neg hfree, fun h => absurd h hfree⟩

@[simp] theorem claimedRow_id (now : Int) (claimed : List IngestClaimed) (row : AcceptedJob) :
    (claimedRow now claimed row).id = row.id := by
  rcases claimedRow_cases now claimed row with ⟨heq, -⟩ | ⟨entry, -, -, heq⟩ <;> rw [heq]
  rfl

@[simp] theorem claimedRow_queueName (now : Int) (claimed : List IngestClaimed)
    (row : AcceptedJob) : (claimedRow now claimed row).queueName = row.queueName := by
  rcases claimedRow_cases now claimed row with ⟨heq, -⟩ | ⟨entry, -, -, heq⟩ <;> rw [heq]
  rfl

/-- Statements that run one after another: a row that the first one takes is not free any more. -/
theorem claimedRow_append (now : Int) (first second : List IngestClaimed) (row : AcceptedJob) :
    claimedRow now second (claimedRow now first row) = claimedRow now (first ++ second) row := by
  rcases claimedRow_cases now first row with ⟨heq, hnone⟩ | ⟨entry, hentry, hfree, heq⟩
  · rw [heq, claimedRow, claimedRow, Table.lookup_append]
    by_cases hfree : row.dispatchId = none
    · rw [hnone hfree, Option.none_or]
    · cases Table.lookup IngestClaimed.id row.id first <;>
        cases Table.lookup IngestClaimed.id row.id second <;> simp [hfree]
  · have hkept : claimedRow now second (marked now row entry.dispatchId) =
        marked now row entry.dispatchId := by
      rcases claimedRow_cases now second (marked now row entry.dispatchId) with
        ⟨heq, -⟩ | ⟨_, -, htaken, -⟩
      · exact heq
      · cases htaken
    rw [heq, hkept, claimedRow, Table.lookup_append, hentry]
    exact (if_pos hfree).symm

section Chunk

variable {env : Env} {rows : List AcceptedJob} {chunk : List (PendingClaim × String)}

/-- Every item of a statement is for a row of the table that is free. -/
def Free (rows : List AcceptedJob) (items : List (PendingClaim × String)) : Prop :=
  ∀ item ∈ items, ∃ row ∈ rows, row.id = item.1.id ∧ row.dispatchId = none

theorem eq_of_id_eq (hitems : (chunk.map fun item => item.1.id).Nodup)
    {item other : PendingClaim × String} (hitem : item ∈ chunk) (hother : other ∈ chunk)
    (h : item.1.id = other.1.id) : item = other :=
  List.inj_on_of_nodup_map hitems hitem hother h

theorem lookup_toClaimed (hitems : (chunk.map fun item => item.1.id).Nodup)
    {item : PendingClaim × String} (hitem : item ∈ chunk) :
    Table.lookup IngestClaimed.id item.1.id (chunk.map toClaimed) = some (toClaimed item) := by
  have hunique : ((chunk.map toClaimed).map IngestClaimed.id).Nodup := by
    rw [List.map_map]
    exact hitems
  exact Table.lookup_of_mem hunique (List.mem_map_of_mem hitem)

theorem rowAfter_claim (hitems : (chunk.map fun item => item.1.id).Nodup) (row : AcceptedJob) :
    Table.rowAfter env.choice (fun row (item : PendingClaim × String) => marked env.now row item.2)
      (fun row item => row.id = item.1.id ∧ row.dispatchId = none) chunk row =
      claimedRow env.now (chunk.map toClaimed) row := by
  rcases Table.rowAfter_cases env.choice
      (fun row (item : PendingClaim × String) => marked env.now row item.2)
      (fun row item => row.id = item.1.id ∧ row.dispatchId = none) chunk row with
    ⟨hnone, heq⟩ | ⟨item, hitem, hcond, heq⟩
  · rw [heq]
    rcases claimedRow_cases env.now (chunk.map toClaimed) row with
      ⟨hsame, -⟩ | ⟨entry, hentry, hfree, -⟩
    · exact hsame.symm
    · obtain ⟨item, hitem, rfl⟩ := List.mem_map.mp (Table.mem_of_lookup hentry)
      have hmiss := hnone item hitem
      rw [decide_eq_false_iff_not, not_and] at hmiss
      exact absurd hfree (hmiss (Table.key_of_lookup hentry).symm)
  · rw [decide_eq_true_eq] at hcond
    rw [heq, claimedRow, hcond.1, lookup_toClaimed hitems hitem]
    exact (if_pos hcond.2).symm

/-- One statement takes every row that it is for. -/
theorem claimChunk_eq (hitems : (chunk.map fun item => item.1.id).Nodup) (hfree : Free rows chunk)
    (claimed : List IngestClaimed) :
    claimChunk env (rows, claimed) chunk =
      (rows.map (claimedRow env.now (chunk.map toClaimed)), claimed ++ chunk.map toClaimed) := by
  unfold claimChunk
  dsimp only
  refine Prod.ext (List.map_congr_left fun row _ => rowAfter_claim hitems row) ?_
  dsimp only
  rw [List.append_cancel_left_eq, ← List.filterMap_eq_map]
  apply List.filterMap_congr
  intro item hitem
  -- The only returned row with the item's id is the one that the item marked.
  have hmarked : ∀ row' ∈ (Table.updateFrom env.choice
      (fun row (item : PendingClaim × String) => marked env.now row item.2)
      (fun row item => row.id = item.1.id ∧ row.dispatchId = none) chunk rows).2,
      row'.id = item.1.id → row'.dispatchId = some item.2 := by
    intro row' hrow' hid
    obtain ⟨row, -, hupdated⟩ := Table.mem_updateFrom_returned.mp hrow'
    obtain ⟨other, hother, hcond, rfl⟩ := Table.updatedRow_eq_some hupdated
    rw [decide_eq_true_eq] at hcond
    rw [eq_of_id_eq hitems hitem hother (hid.symm.trans hcond.1)]
    rfl
  cases hlookup : Table.lookup AcceptedJob.id item.1.id (Table.updateFrom env.choice
      (fun row (item : PendingClaim × String) => marked env.now row item.2)
      (fun row item => row.id = item.1.id ∧ row.dispatchId = none) chunk rows).2 with
  | none =>
    obtain ⟨row, hrow, hid, hnull⟩ := hfree item hitem
    have hsome : (Table.updatedRow env.choice
        (fun row (item : PendingClaim × String) => marked env.now row item.2)
        (fun row item => row.id = item.1.id ∧ row.dispatchId = none) chunk row).isSome :=
      Table.updatedRow_isSome.mpr ⟨item, hitem, by simp [hid, hnull]⟩
    obtain ⟨row', hrow'⟩ := Option.isSome_iff_exists.mp hsome
    have hmem := Table.mem_updateFrom_returned.mpr ⟨row, hrow, hrow'⟩
    obtain ⟨other, -, -, rfl⟩ := Table.updatedRow_eq_some hrow'
    exact absurd hid (Table.lookup_eq_none.mp hlookup (marked env.now row other.2) hmem)
  | some row' =>
    rw [Option.bind_some, hmarked row' (Table.mem_of_lookup hlookup) (Table.key_of_lookup hlookup)]
    rfl

end Chunk

theorem foldl_claimChunk {env : Env} (chunks : List (List (PendingClaim × String)))
    (rows : List AcceptedJob) (claimed : List IngestClaimed)
    (hitems : (chunks.flatten.map fun item => item.1.id).Nodup)
    (hfree : Free rows chunks.flatten) :
    chunks.foldl (claimChunk env) (rows, claimed) =
      (rows.map (claimedRow env.now (chunks.flatten.map toClaimed)),
        claimed ++ chunks.flatten.map toClaimed) := by
  induction chunks generalizing rows claimed with
  | nil =>
    simp only [List.foldl_nil, List.flatten_nil, List.map_nil, List.append_nil]
    exact Prod.ext (List.map_id rows).symm rfl
  | cons chunk chunks ih =>
    rw [List.flatten_cons, List.map_append, List.nodup_append] at hitems
    obtain ⟨hchunk, hrest, hdisjoint⟩ := hitems
    have hfirst : Free rows chunk := fun item hitem => hfree item (List.mem_append_left _ hitem)
    have hlater : Free (rows.map (claimedRow env.now (chunk.map toClaimed))) chunks.flatten := by
      intro item hitem
      obtain ⟨row, hrow, hid, hnull⟩ := hfree item (List.mem_append_right _ hitem)
      refine ⟨row, List.mem_map.mpr ⟨row, hrow, ?_⟩, hid, hnull⟩
      rcases claimedRow_cases env.now (chunk.map toClaimed) row with
        ⟨heq, -⟩ | ⟨entry, hentry, -, -⟩
      · exact heq
      · obtain ⟨other, hother, rfl⟩ := List.mem_map.mp (Table.mem_of_lookup hentry)
        have hsame : other.1.id = item.1.id := (Table.key_of_lookup hentry).trans hid
        exact absurd hsame (hdisjoint _ (List.mem_map_of_mem hother) _ (List.mem_map_of_mem hitem))
    rw [List.foldl_cons, claimChunk_eq hchunk hfirst, ih _ _ hrest hlater, List.flatten_cons,
      List.map_append, List.map_map, List.append_assoc]
    refine Prod.ext (List.map_congr_left fun row _ => ?_) rfl
    exact claimedRow_append env.now (chunk.map toClaimed) (chunks.flatten.map toClaimed) row

theorem mem_pendingClaims {queueName : String} {limit : Nat} {conn : IngestConn}
    {pending : PendingClaim} (h : pending ∈ pendingClaims queueName limit conn) :
    ∃ row ∈ conn.acceptedJobs, row.id = pending.id ∧ row.dispatchId = none ∧
      row.queueName = pending.name ∧ pending.name = queueName := by
  obtain ⟨row, hrow, hjoin⟩ := List.mem_filterMap.mp (List.mem_of_mem_take h)
  obtain ⟨queue, -, rfl⟩ := Option.map_eq_some_iff.mp hjoin
  rw [List.mem_insertionSort, List.mem_filter, decide_eq_true_eq] at hrow
  exact ⟨row, hrow.1, rfl, hrow.2.2, rfl, hrow.2.1⟩

theorem pendingClaims_ids_nodup {queueName : String} {limit : Nat} {conn : IngestConn}
    (hids : (conn.acceptedJobs.map AcceptedJob.id).Nodup) :
    ((pendingClaims queueName limit conn).map PendingClaim.id).Nodup := by
  have hsorted : ((conn.acceptedJobs.filter fun row =>
      row.queueName = queueName ∧ row.dispatchId = none).insertionSort claimOrder).Pairwise
      fun a b => a.id ≠ b.id := by
    refine List.pairwise_map.mp (((List.perm_insertionSort _ _).map AcceptedJob.id).symm.nodup ?_)
    exact hids.sublist (List.filter_sublist.map AcceptedJob.id)
  refine List.pairwise_map.mpr (List.Pairwise.sublist (List.take_sublist _ _) ?_)
  refine List.pairwise_filterMap.mpr (hsorted.imp ?_)
  intro a b hne pa hpa pb hpb
  obtain ⟨_, -, rfl⟩ := Option.map_eq_some_iff.mp hpa
  obtain ⟨_, -, rfl⟩ := Option.map_eq_some_iff.mp hpb
  exact hne

/-- What a claim returns, on the rows before it: distinct jobs of the queue, all of them free. -/
structure Claimed (rows : List AcceptedJob) (queueName : String) (claimed : List IngestClaimed) :
    Prop where
  ids : (claimed.map IngestClaimed.id).Nodup
  free : ∀ entry ∈ claimed, ∃ row ∈ rows, row.id = entry.id ∧ row.dispatchId = none ∧
    row.queueName = entry.name ∧ entry.name = queueName

/-- The rows that `claim_batch` returns for the pending ones, each under an id of its own. -/
def taken (newDispatchId : Nat → String) (pending : List PendingClaim) : List IngestClaimed :=
  (pending.zipIdx.map fun item => (item.1, newDispatchId item.2)).map toClaimed

theorem taken_ids (newDispatchId : Nat → String) (pending : List PendingClaim) :
    (taken newDispatchId pending).map IngestClaimed.id = pending.map PendingClaim.id := by
  rw [taken, List.map_map, List.map_map]
  conv_rhs => rw [← List.zipIdx_map_fst 0 pending, List.map_map]
  rfl

theorem taken_dispatchIds (newDispatchId : Nat → String) (pending : List PendingClaim) :
    (taken newDispatchId pending).map IngestClaimed.dispatchId =
      (List.range pending.length).map newDispatchId := by
  rw [List.range_eq_range', ← List.zipIdx_map_snd 0 pending, taken, List.map_map, List.map_map,
    List.map_map]
  rfl

theorem mem_taken {newDispatchId : Nat → String} {pending : List PendingClaim}
    {entry : IngestClaimed} (h : entry ∈ taken newDispatchId pending) :
    ∃ item i, item ∈ pending ∧ pending[i]? = some item ∧
      entry = toClaimed (item, newDispatchId i) := by
  obtain ⟨pair, hpair, rfl⟩ := List.mem_map.mp h
  obtain ⟨indexed, hindexed, rfl⟩ := List.mem_map.mp hpair
  exact ⟨indexed.1, indexed.2, List.fst_mem_of_mem_zipIdx hindexed,
    List.mem_zipIdx_iff_getElem?.mp hindexed, rfl⟩

/-- The claim of each pending row, which is the one that stands under its id. -/
theorem taken_forall₂ (newDispatchId : Nat → String) {pending : List PendingClaim}
    (hids : (pending.map PendingClaim.id).Nodup) :
    List.Forall₂ (fun item entry => (∃ i, entry = toClaimed (item, newDispatchId i)) ∧
      Table.lookup IngestClaimed.id item.id (taken newDispatchId pending) = some entry)
      pending (taken newDispatchId pending) := by
  have hnumbered : ∀ (items : List PendingClaim) (n : Nat),
      List.Forall₂ (fun item pair => item = pair.1) items (items.zipIdx n) := by
    intro items
    induction items with
    | nil => exact fun n => .nil
    | cons item items ih => exact fun n => .cons rfl (ih (n + 1))
  have hentries : List.Forall₂ (fun item entry => ∃ i, entry = toClaimed (item, newDispatchId i))
      pending (taken newDispatchId pending) := by
    rw [taken, List.map_map, List.forall₂_map_right_iff]
    exact (hnumbered pending 0).imp fun item pair hitem => ⟨pair.2, by rw [hitem]; rfl⟩
  refine (Lists.forall₂_mem hentries).imp ?_
  rintro item entry ⟨-, hmem, i, rfl⟩
  have hnodup : ((taken newDispatchId pending).map IngestClaimed.id).Nodup := by rwa [taken_ids]
  exact ⟨⟨i, rfl⟩, Table.lookup_of_mem hnodup hmem⟩

theorem taken_claimed (newDispatchId : Nat → String) (queueName : String) (limit : Nat)
    {conn : IngestConn} (hids : (conn.acceptedJobs.map AcceptedJob.id).Nodup) :
    Claimed conn.acceptedJobs queueName (taken newDispatchId (pendingClaims queueName limit conn)) := by
  refine ⟨?_, fun entry hentry => ?_⟩
  · rw [taken_ids]
    exact pendingClaims_ids_nodup hids
  · obtain ⟨item, i, hitem, -, rfl⟩ := mem_taken hentry
    exact mem_pendingClaims hitem

/-- `claim_batch` of a known queue marks exactly the rows that it returns. -/
theorem claimBatch_eq (env : Env) (newDispatchId : Nat → String) {queueName : String} (limit : Nat)
    {queueNames : List String} (hqueue : queueName ∈ queueNames) {conn : IngestConn}
    (hids : (conn.acceptedJobs.map AcceptedJob.id).Nodup) :
    claimBatch env newDispatchId queueName limit queueNames conn =
      ({ conn with acceptedJobs := conn.acceptedJobs.map (claimedRow env.now
          (taken newDispatchId (pendingClaims queueName (clampLimit limit) conn))) },
        .ok (taken newDispatchId (pendingClaims queueName (clampLimit limit) conn))) := by
  rw [claimBatch, if_pos hqueue]
  dsimp only
  generalize hpending : pendingClaims queueName (clampLimit limit) conn = pending
  have hitems : ((pending.zipIdx.map fun item => (item.1, newDispatchId item.2)).map
      fun item => item.1.id) = pending.map PendingClaim.id := by
    rw [← taken_ids newDispatchId pending, taken, List.map_map, List.map_map, List.map_map]
    rfl
  have hnodup : (pending.map PendingClaim.id).Nodup := hpending ▸ pendingClaims_ids_nodup hids
  have hfold := @foldl_claimChunk env (Table.chunks rowsPerStatement
    (pending.zipIdx.map fun item => (item.1, newDispatchId item.2))) conn.acceptedJobs []
  rw [Table.chunks_flatten rowsPerStatement_pos, hitems] at hfold
  rw [hfold hnodup fun item hitem => ?_]
  · rfl
  · obtain ⟨indexed, hindexed, rfl⟩ := List.mem_map.mp hitem
    obtain ⟨row, hrow, hid, hnull, -⟩ :=
      mem_pendingClaims (hpending ▸ List.fst_mem_of_mem_zipIdx hindexed)
    exact ⟨row, hrow, hid, hnull⟩

/-- `claim_batch` finds no such queue, or marks exactly the rows that it returns. -/
theorem claimBatch_cases (env : Env) (newDispatchId : Nat → String) (queueName : String)
    (limit : Nat) (queueNames : List String) {conn : IngestConn}
    (hids : (conn.acceptedJobs.map AcceptedJob.id).Nodup) :
    claimBatch env newDispatchId queueName limit queueNames conn =
      (conn, .error (.queueNotFound queueName)) ∨
    ∃ claimed, claimBatch env newDispatchId queueName limit queueNames conn =
        ({ conn with acceptedJobs := conn.acceptedJobs.map (claimedRow env.now claimed) },
          .ok claimed) ∧ Claimed conn.acceptedJobs queueName claimed := by
  by_cases hqueue : queueName ∈ queueNames
  · exact Or.inr ⟨_, claimBatch_eq env newDispatchId limit hqueue hids,
      taken_claimed newDispatchId queueName _ hids⟩
  · rw [claimBatch, if_neg hqueue]
    exact Or.inl rfl

/-- A statement returns no more claims than it was given items. -/
theorem length_foldl_claimChunk (env : Env) (chunks : List (List (PendingClaim × String)))
    (state : List AcceptedJob × List IngestClaimed) :
    (chunks.foldl (claimChunk env) state).2.length ≤ state.2.length + chunks.flatten.length := by
  induction chunks generalizing state with
  | nil => simp
  | cons chunk rest ih =>
    have hchunk : (claimChunk env state chunk).2.length ≤ state.2.length + chunk.length := by
      simp only [claimChunk, List.length_append]
      exact Nat.add_le_add_left (List.length_filterMap_le _ _) _
    have hrest := ih (claimChunk env state chunk)
    rw [List.foldl_cons, List.flatten_cons, List.length_append]
    omega

/-- `claim_batch` claims at most as many jobs as it is asked for, where that is not zero. -/
theorem claimBatch_length {env : Env} {newDispatchId : Nat → String} {queueName : String}
    {limit : Nat} {queueNames : List String} {conn conn' : IngestConn}
    {claimed : List IngestClaimed} (hlimit : 0 < limit)
    (h : claimBatch env newDispatchId queueName limit queueNames conn = (conn', .ok claimed)) :
    claimed.length ≤ limit := by
  unfold claimBatch at h
  split at h
  · have hlength := length_foldl_claimChunk env (Table.chunks rowsPerStatement
      ((pendingClaims queueName (clampLimit limit) conn).zipIdx.map
        fun item => (item.1, newDispatchId item.2))) (conn.acceptedJobs, [])
    have hpending : (pendingClaims queueName (clampLimit limit) conn).length ≤ clampLimit limit :=
      List.length_take_le _ _
    have hclamp : clampLimit limit ≤ limit := by
      unfold clampLimit
      omega
    rw [Table.chunks_flatten rowsPerStatement_pos, List.length_map, List.length_zipIdx] at hlength
    obtain rfl := Except.ok.inj (Prod.mk.inj h).2
    simp only [List.length_nil, Nat.zero_add] at hlength
    exact hlength.trans (hpending.trans hclamp)
  · simp at h

theorem pendingClaims_timeout {queueName : String} {limit : Nat} {conn : IngestConn}
    {pending : PendingClaim} (h : pending ∈ pendingClaims queueName limit conn) :
    ∃ queue ∈ conn.jobQueues, pending.timeoutSecs = queue.timeoutSecs := by
  obtain ⟨row, -, hjoin⟩ := List.mem_filterMap.mp (List.mem_of_mem_take h)
  obtain ⟨queue, hqueue, rfl⟩ := Option.map_eq_some_iff.mp hjoin
  exact ⟨queue, Table.mem_of_lookup hqueue, rfl⟩

theorem foldl_claimChunk_timeouts {env : Env} (chunks : List (List (PendingClaim × String)))
    (state : List AcceptedJob × List IngestClaimed) {entry : IngestClaimed}
    (h : entry ∈ (chunks.foldl (claimChunk env) state).2) :
    entry ∈ state.2 ∨ ∃ item ∈ chunks.flatten, entry.timeoutSecs = item.1.timeoutSecs := by
  induction chunks generalizing state with
  | nil => exact Or.inl h
  | cons chunk rest ih =>
    rw [List.foldl_cons] at h
    rcases ih _ h with hstate | ⟨item, hitem, htimeout⟩
    · simp only [claimChunk, List.mem_append, List.mem_filterMap] at hstate
      rcases hstate with hstate | ⟨item, hitem, hclaimed⟩
      · exact Or.inl hstate
      · obtain ⟨dispatchId, -, rfl⟩ := Option.map_eq_some_iff.mp hclaimed
        exact Or.inr ⟨item, List.mem_append_left _ hitem, rfl⟩
    · exact Or.inr ⟨item, List.mem_append_right _ hitem, htimeout⟩

/-- The timeouts that `claim_batch` returns are those of the queues. -/
theorem claimBatch_timeouts {env : Env} {newDispatchId : Nat → String} {queueName : String}
    {limit : Nat} {queueNames : List String} {conn conn' : IngestConn}
    {claimed : List IngestClaimed}
    (h : claimBatch env newDispatchId queueName limit queueNames conn = (conn', .ok claimed))
    {entry : IngestClaimed} (hentry : entry ∈ claimed) :
    ∃ queue ∈ conn.jobQueues, entry.timeoutSecs = queue.timeoutSecs := by
  unfold claimBatch at h
  split at h
  · obtain rfl := Except.ok.inj (Prod.mk.inj h).2
    rcases foldl_claimChunk_timeouts _ _ hentry with hnone | ⟨item, hitem, htimeout⟩
    · cases hnone
    · rw [Table.chunks_flatten rowsPerStatement_pos] at hitem
      obtain ⟨indexed, hindexed, rfl⟩ := List.mem_map.mp hitem
      obtain ⟨queue, hqueue, hsame⟩ :=
        pendingClaims_timeout (List.fst_mem_of_mem_zipIdx hindexed)
      exact ⟨queue, hqueue, htimeout.trans hsame⟩
  · simp at h

/-! ### `repend` -/

/-- A row after a repend. -/
def rependRow (now : Int) (key : Int × String) (row : AcceptedJob) : AcceptedJob :=
  if row.id = key.1 ∧ row.dispatchId = some key.2 then released now row else row

theorem repend_eq (env : Env) (jobId : Int) (dispatchId : String) (conn : IngestConn) :
    conn.repend env jobId dispatchId =
      { conn with
        acceptedJobs := conn.acceptedJobs.map (rependRow env.now (jobId, dispatchId)) } := by
  rw [repend, rependBatch, Table.chunks_of_length_le (List.cons_ne_nil _ _) (by simp [rowsPerStatement])]
  simp only [List.foldl_cons, List.foldl_nil, Table.updateFrom]
  congr 1
  apply List.map_congr_left
  intro row _
  rw [rependRow]
  rcases Table.rowAfter_cases env.choice (fun row (_ : Int × String) => released env.now row)
      (fun row pair => row.id = pair.1 ∧ row.dispatchId = some pair.2) [(jobId, dispatchId)] row
    with ⟨hnone, heq⟩ | ⟨pair, hpair, hcond, heq⟩
  · rw [heq, if_neg]
    simpa using hnone
  · rw [List.mem_singleton.mp hpair, decide_eq_true_eq] at hcond
    rw [heq, if_pos hcond]

theorem rependRow_cases (now : Int) (key : Int × String) (row : AcceptedJob) :
    (rependRow now key row = row ∧ ¬(row.id = key.1 ∧ row.dispatchId = some key.2)) ∨
      (row.id = key.1 ∧ row.dispatchId = some key.2 ∧ rependRow now key row = released now row) := by
  unfold rependRow
  by_cases h : row.id = key.1 ∧ row.dispatchId = some key.2
  · exact Or.inr ⟨h.1, h.2, if_pos h⟩
  · exact Or.inl ⟨if_neg h, h⟩

@[simp] theorem rependRow_id (now : Int) (key : Int × String) (row : AcceptedJob) :
    (rependRow now key row).id = row.id := by
  unfold rependRow
  split <;> rfl

@[simp] theorem rependRow_queueName (now : Int) (key : Int × String) (row : AcceptedJob) :
    (rependRow now key row).queueName = row.queueName := by
  unfold rependRow
  split <;> rfl

end IngestConn

end Maqistor
