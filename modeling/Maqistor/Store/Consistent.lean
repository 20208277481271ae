import Maqistor.Store.Moves
import Maqistor.Ingest.Enqueue
import Maqistor.Results.Writer

/-! The consistency of the two databases. A snapshot is what the tables and the calls in flight say
about the jobs; every commit of a store without `release_claim` keeps it consistent. -/

namespace Maqistor

open ResultsConn IngestConn

/-- The key of the attempt that a recovered lease was for. -/
def RecoveredStale.key (item : RecoveredStale) : Int × String := (item.jobId, item.dispatchId)

namespace Stage

/-- The retries that a call has decided on and not yet carried out. -/
def retries : Stage → List (Int × String)
  | .rependCompleted _ jobId dispatchId => [(jobId, dispatchId)]
  | .rependStale item rest _ => item.key :: (rest.filter (·.shouldRepend)).map RecoveredStale.key
  | .readStaleAccepted _ rest _ => (rest.filter (·.shouldRepend)).map RecoveredStale.key
  | .readStaleExecution _ rest _ => (rest.filter (·.shouldRepend)).map RecoveredStale.key
  | _ => []

/-- The claims that a call still has to give back after its dispatch failed. -/
def undos : Stage → List (Int × String)
  | .undoClaim row rest _ => (row :: rest).map IngestClaimed.key
  | _ => []

/-- The repends that are due. -/
def owed (stage : Stage) : List (Int × String) := stage.retries ++ stage.undos

/-- The queue that a call still has to write to the results database. -/
def upserts : Stage → List JobQueue
  | .upsertResults queue => [queue]
  | _ => []

/-- The claim that a call is about to release. -/
def releases : Stage → List (Int × String)
  | .abandon jobId dispatchId => [(jobId, dispatchId)]
  | .rependReleased jobId dispatchId => [(jobId, dispatchId)]
  | _ => []

end Stage

structure Snapshot where
  accepted : List AcceptedJob
  executions : List Execution
  queues : List JobQueue
  awaiting : List IngestClaimed
  owed : List (Int × String)
  upserts : List JobQueue
  releases : List (Int × String)
  issued : List (Int × String)

def snapshot (store : Store) (pool : List (Nat × Stage)) (issued : List (Int × String)) :
    Snapshot :=
  { accepted := store.ingest.acceptedJobs, executions := store.results.executions
    queues := store.results.executionQueues, awaiting := collect Stage.awaiting pool
    owed := collect Stage.owed pool, upserts := collect Stage.upserts pool
    releases := collect Stage.releases pool, issued := issued }

def System.snapshot (sys : System) : Snapshot := Maqistor.snapshot sys.store sys.pool sys.issued

section

variable (pinned : String → Option UInt32)

/-- A failed attempt that leaves its job another one: `pinned` gives the limits that never
change. -/
def Again (row : Execution) : Prop :=
  row.status = .failed ∧
    ∀ limit, pinned row.queueName = some limit → row.executionCount ≤ limit.toNat

/-- A row that a call has claimed under a new dispatch id and not yet dispatched. -/
structure Awaits (s : Snapshot) (claimed : IngestClaimed) : Prop where
  issued : claimed.key ∈ s.issued
  bounded : ∃ row ∈ s.accepted, claimed.id ≤ row.id
  accepted : ∀ row ∈ s.accepted, row.id = claimed.id →
    row.dispatchId = some claimed.dispatchId ∧ row.queueName = claimed.name
  executions : ∀ row ∈ s.executions, row.jobId = claimed.id →
    Again pinned row ∧ row.dispatchId ≠ claimed.dispatchId

/-- An attempt whose accepted row may be set free. -/
structure Rependable (s : Snapshot) (key : Int × String) : Prop where
  awaiting : key ∉ s.awaiting.map IngestClaimed.key
  executions : ∀ row ∈ s.executions, row.key = key → Again pinned row

structure Consistent (s : Snapshot) : Prop where
  ids : (s.accepted.map AcceptedJob.id).Nodup
  valid : Valid s.queues s.executions
  ledger : (s.issued.map Prod.snd).Nodup
  claims : ∀ row ∈ s.accepted, ∀ dispatchId, row.dispatchId = some dispatchId →
    (row.id, dispatchId) ∈ s.issued
  executed : ∀ row ∈ s.executions, row.key ∈ s.issued
  named : ∀ row ∈ s.executions, ∀ job ∈ s.accepted, job.id = row.jobId →
    row.queueName = job.queueName
  held : ∀ row ∈ s.executions, ¬Again pinned row → ∀ job ∈ s.accepted, job.id = row.jobId →
    job.dispatchId = some row.dispatchId
  started : ∀ row ∈ s.executions, row.status ≠ .pending
  leased : ∀ row ∈ s.executions, row.status = .running → row.leaseExpiresAt.isSome
  counted : ∀ row ∈ s.executions, 1 ≤ row.executionCount ∧ row.executionCount < 4294967296 ∧
    ∀ limit, pinned row.queueName = some limit → row.executionCount ≤ limit.toNat + 1
  limits : ∀ queue ∈ s.queues ++ s.upserts, ∀ limit, pinned queue.name = some limit →
    queue.maxRetries = limit
  distinct : (s.awaiting.map IngestClaimed.id).Nodup
  awaits : ∀ claimed ∈ s.awaiting, Awaits pinned s claimed
  owes : ∀ key ∈ s.owed, key ∈ s.issued ∧ Rependable pinned s key
  calm : s.releases = []

end

variable {pinned : String → Option UInt32} {s : Snapshot}

theorem Again.not_running {row : Execution} (h : Again pinned row) : row.status ≠ .running := by
  simp [h.1]

theorem not_again_of_running {row : Execution} (h : row.status = .running) : ¬Again pinned row :=
  fun hagain => hagain.not_running h

/-- Calls that end, or go on with less to do, keep a snapshot consistent. -/
theorem Consistent.mono (h : Consistent pinned s) {awaiting : List IngestClaimed}
    {owed : List (Int × String)} {upserts : List JobQueue} {releases : List (Int × String)}
    (hdistinct : (awaiting.map IngestClaimed.id).Nodup) (hawaiting : awaiting ⊆ s.awaiting)
    (howed : ∀ key ∈ owed, key ∈ s.owed) (hupserts : upserts ⊆ s.upserts)
    (hreleases : releases = []) :
    Consistent pinned { s with
      awaiting := awaiting, owed := owed, upserts := upserts, releases := releases } := by
  refine { h with
    limits := ?limits, distinct := hdistinct, awaits := ?awaits, owes := ?owes, calm := hreleases }
  case limits =>
    intro queue hqueue
    apply h.limits queue
    rcases List.mem_append.mp hqueue with hqueue | hqueue
    · exact List.mem_append_left _ hqueue
    · exact List.mem_append_right _ (hupserts hqueue)
  case awaits =>
    intro claimed hclaimed
    obtain ⟨hissued, hbounded, haccepted, hexecutions⟩ := h.awaits claimed (hawaiting hclaimed)
    exact ⟨hissued, hbounded, haccepted, hexecutions⟩
  case owes =>
    intro key hkey
    obtain ⟨hissued, hfree, hagain⟩ := h.owes key (howed key hkey)
    refine ⟨hissued, fun hmem => hfree ?_, hagain⟩
    obtain ⟨claimed, hclaimed, rfl⟩ := List.mem_map.mp hmem
    exact List.mem_map_of_mem (hawaiting hclaimed)

/-! ### Commits of the ingest database -/

/-- Rewrites of the accepted rows that keep ids and queues, under an unchanged pool. -/
theorem Consistent.map_accepted (h : Consistent pinned s) {f : AcceptedJob → AcceptedJob}
    (hid : ∀ row, (f row).id = row.id) (hqueue : ∀ row, (f row).queueName = row.queueName)
    (hclaims : ∀ row ∈ s.accepted, ∀ dispatchId, (f row).dispatchId = some dispatchId →
      (row.id, dispatchId) ∈ s.issued)
    (hheld : ∀ row ∈ s.executions, ¬Again pinned row → ∀ job ∈ s.accepted, job.id = row.jobId →
      (f job).dispatchId = some row.dispatchId)
    (hawaits : ∀ claimed ∈ s.awaiting, ∀ row ∈ s.accepted, row.id = claimed.id →
      (f row).dispatchId = some claimed.dispatchId) :
    Consistent pinned { s with accepted := s.accepted.map f } := by
  have hmem : ∀ {row'}, row' ∈ s.accepted.map f → ∃ row ∈ s.accepted, f row = row' :=
    List.mem_map.mp
  have hbounded : ∀ {n : Int}, (∃ job ∈ s.accepted, n ≤ job.id) →
      ∃ job ∈ s.accepted.map f, n ≤ job.id := by
    rintro n ⟨job, hjob, hle⟩
    exact ⟨f job, List.mem_map_of_mem hjob, by rw [hid]; exact hle⟩
  refine { h with
    ids := ?ids, claims := ?claims, named := ?named, held := ?held, awaits := ?awaits, owes := ?owes }
  case ids =>
    rw [List.map_map, show AcceptedJob.id ∘ f = AcceptedJob.id from funext hid]
    exact h.ids
  case claims =>
    intro row' hrow' dispatchId hdispatch
    obtain ⟨row, hrow, rfl⟩ := hmem hrow'
    rw [hid]
    exact hclaims row hrow dispatchId hdispatch
  case named =>
    intro row hrow job' hjob' hjobId
    obtain ⟨job, hjob, rfl⟩ := hmem hjob'
    rw [hqueue]
    exact h.named row hrow job hjob ((hid job).symm.trans hjobId)
  case held =>
    intro row hrow hagain job' hjob' hjobId
    obtain ⟨job, hjob, rfl⟩ := hmem hjob'
    exact hheld row hrow hagain job hjob ((hid job).symm.trans hjobId)
  case awaits =>
    intro claimed hclaimed
    have hold := h.awaits claimed hclaimed
    refine ⟨hold.issued, hbounded hold.bounded, fun row' hrow' hrowId => ?_, hold.executions⟩
    obtain ⟨row, hrow, rfl⟩ := hmem hrow'
    rw [hid] at hrowId
    exact ⟨hawaits claimed hclaimed row hrow hrowId,
      (hqueue row).trans (hold.accepted row hrow hrowId).2⟩
  case owes =>
    intro key hkey
    obtain ⟨hissued, hfree, hagain⟩ := h.owes key hkey
    exact ⟨hissued, hfree, hagain⟩

/-- A repend of an attempt that may be repeated. -/
theorem Consistent.repend (h : Consistent pinned s) {key : Int × String} (now : Int)
    (hkey : Rependable pinned s key) :
    Consistent pinned { s with accepted := s.accepted.map (rependRow now key) } := by
  apply h.map_accepted (rependRow_id now key) (rependRow_queueName now key)
  · intro row hrow dispatchId hdispatch
    rcases rependRow_cases now key row with ⟨heq, -⟩ | ⟨-, -, heq⟩
    · rw [heq] at hdispatch
      exact h.claims row hrow dispatchId hdispatch
    · rw [heq] at hdispatch
      cases hdispatch
  · intro row hrow hagain job hjob hjobId
    have hdispatch := h.held row hrow hagain job hjob hjobId
    rcases rependRow_cases now key job with ⟨heq, -⟩ | ⟨hid, hsame, -⟩
    · rw [heq]
      exact hdispatch
    · rw [hdispatch, Option.some.injEq] at hsame
      exact absurd (hkey.executions row hrow (Prod.ext (hjobId.symm.trans hid) hsame)) hagain
  · intro claimed hclaimed row hrow hrowId
    have hdispatch := ((h.awaits claimed hclaimed).accepted row hrow hrowId).1
    rcases rependRow_cases now key row with ⟨heq, -⟩ | ⟨hid, hsame, -⟩
    · rw [heq]
      exact hdispatch
    · rw [hdispatch, Option.some.injEq] at hsame
      refine absurd (List.mem_map.mpr ⟨claimed, hclaimed, ?_⟩) hkey.awaiting
      exact Prod.ext (hrowId.symm.trans hid) hsame

theorem Consistent.accepted_eq (h : Consistent pinned s) {job other : AcceptedJob}
    (hjob : job ∈ s.accepted) (hother : other ∈ s.accepted) (hid : job.id = other.id) :
    job = other :=
  List.inj_on_of_nodup_map h.ids hjob hother hid

/-- A free row's execution, if it has one, may be repeated. -/
theorem Consistent.again_of_free (h : Consistent pinned s) {job : AcceptedJob}
    (hjob : job ∈ s.accepted) (hfree : job.dispatchId = none) {row : Execution}
    (hrow : row ∈ s.executions) (hid : job.id = row.jobId) : Again pinned row := by
  by_contra hagain
  have := h.held row hrow hagain job hjob hid
  rw [hfree] at this
  cases this

/-- The dispatch ids of a claim keep the ledger free of duplicates. -/
theorem System.FreshIds.ledger {issued : List (Int × String)} {claimed : List IngestClaimed}
    (h : System.FreshIds issued claimed) (hledger : (issued.map Prod.snd).Nodup) :
    ((claimed.map IngestClaimed.key ++ issued).map Prod.snd).Nodup := by
  rw [List.map_append, List.map_map, List.nodup_append]
  refine ⟨h.1, hledger, ?_⟩
  rintro a ha b hb rfl
  obtain ⟨entry, hentry, rfl⟩ := List.mem_map.mp ha
  exact h.2 entry hentry hb

/-- A longer ledger. -/
theorem Consistent.issue (h : Consistent pinned s) {claimed : List IngestClaimed}
    (hfresh : System.FreshIds s.issued claimed) :
    Consistent pinned { s with issued := claimed.map IngestClaimed.key ++ s.issued } := by
  have hissued : ∀ {key}, key ∈ s.issued → key ∈ claimed.map IngestClaimed.key ++ s.issued :=
    fun hkey => List.mem_append_right _ hkey
  refine { h with
    ledger := hfresh.ledger h.ledger
    claims := fun row hrow dispatchId hd => hissued (h.claims row hrow dispatchId hd)
    executed := fun row hrow => hissued (h.executed row hrow), awaits := ?awaits, owes := ?owes }
  case awaits =>
    intro other hother
    obtain ⟨hkey, hbounded, haccepted, hexecutions⟩ := h.awaits other hother
    exact ⟨hissued hkey, hbounded, haccepted, hexecutions⟩
  case owes =>
    intro key hkey
    obtain ⟨hmem, hfree, hagain⟩ := h.owes key hkey
    exact ⟨hissued hmem, hfree, hagain⟩

/-- The marks of a claim whose dispatch ids are in the ledger. -/
theorem Consistent.mark (h : Consistent pinned s) (now : Int) {claimed : List IngestClaimed}
    (hissued : ∀ entry ∈ claimed, entry.key ∈ s.issued) :
    Consistent pinned { s with accepted := s.accepted.map (claimedRow now claimed) } := by
  -- A row that was marked before the claim keeps its mark.
  have hkept : ∀ {row : AcceptedJob} {dispatchId : String}, row.dispatchId = some dispatchId →
      (claimedRow now claimed row).dispatchId = some dispatchId := by
    intro row dispatchId hdispatch
    rcases claimedRow_cases now claimed row with ⟨heq, -⟩ | ⟨_, -, hfree, -⟩
    · rw [heq]
      exact hdispatch
    · rw [hfree] at hdispatch
      cases hdispatch
  apply h.map_accepted (claimedRow_id now claimed) (claimedRow_queueName now claimed)
  · intro row hrow dispatchId hdispatch
    rcases claimedRow_cases now claimed row with ⟨heq, -⟩ | ⟨entry, hentry, -, heq⟩
    · rw [heq] at hdispatch
      exact h.claims row hrow dispatchId hdispatch
    · rw [heq] at hdispatch
      have hid : entry.id = row.id := Table.key_of_lookup hentry
      have hkey : entry.key = (row.id, dispatchId) := Prod.ext hid (Option.some.inj hdispatch)
      rw [← hkey]
      exact hissued entry (Table.mem_of_lookup hentry)
  · intro row hrow hagain job hjob hid
    exact hkept (h.held row hrow hagain job hjob hid)
  · intro other hother row hrow hid
    exact hkept ((h.awaits other hother).accepted row hrow hid).1

/-- A claimed row was free, so no call awaits its dispatch. -/
theorem Consistent.not_awaited (h : Consistent pinned s) {queueName : String}
    {claimed : List IngestClaimed} (hclaimed : Claimed s.accepted queueName claimed)
    {entry other : IngestClaimed} (hentry : entry ∈ claimed) (hother : other ∈ s.awaiting) :
    entry.id ≠ other.id := by
  intro hsame
  obtain ⟨row, hrow, hid, hfree, -⟩ := hclaimed.free entry hentry
  have hdispatch := ((h.awaits other hother).accepted row hrow (hid.trans hsame)).1
  rw [hfree] at hdispatch
  cases hdispatch

/-- A claimed row awaits its dispatch. -/
theorem Consistent.claimed_awaits (h : Consistent pinned s) (now : Int) {queueName : String}
    {claimed : List IngestClaimed} (hclaimed : Claimed s.accepted queueName claimed)
    (hfresh : System.FreshIds s.issued claimed) {entry : IngestClaimed} (hentry : entry ∈ claimed) :
    Awaits pinned { s with
      accepted := s.accepted.map (claimedRow now claimed), awaiting := claimed ++ s.awaiting
      issued := claimed.map IngestClaimed.key ++ s.issued } entry := by
  obtain ⟨row, hrow, hid, hfree, hname, -⟩ := hclaimed.free entry hentry
  refine ⟨List.mem_append_left _ (List.mem_map_of_mem hentry), ?_, ?_, ?_⟩
  · exact ⟨_, List.mem_map_of_mem hrow, by rw [claimedRow_id, hid]⟩
  · intro other' hother' hotherId
    obtain ⟨other, hother, rfl⟩ := List.mem_map.mp hother'
    rw [claimedRow_id] at hotherId
    obtain rfl := h.accepted_eq hother hrow (hotherId.trans hid.symm)
    have hlookup : Table.lookup IngestClaimed.id other.id claimed = some entry :=
      hid ▸ Table.lookup_of_mem hclaimed.ids hentry
    rw [claimedRow_queueName, claimedRow, hlookup]
    exact ⟨by simp [hfree, marked], hname⟩
  · intro execution hexecution hjob
    refine ⟨h.again_of_free hrow hfree hexecution (hid.trans hjob.symm), fun hsame => ?_⟩
    apply hfresh.2 entry hentry
    rw [← hsame]
    exact List.mem_map_of_mem (h.executed execution hexecution)

/-- A claim: the rows it takes become rows awaiting their dispatch. -/
theorem Consistent.claim (h : Consistent pinned s) (now : Int) {queueName : String}
    {claimed : List IngestClaimed} (hclaimed : Claimed s.accepted queueName claimed)
    (hfresh : System.FreshIds s.issued claimed) :
    Consistent pinned { s with
      accepted := s.accepted.map (claimedRow now claimed), awaiting := claimed ++ s.awaiting
      issued := claimed.map IngestClaimed.key ++ s.issued } := by
  have hmarked := (h.issue hfresh).mark now fun entry hentry =>
    List.mem_append_left _ (List.mem_map_of_mem hentry)
  refine { hmarked with distinct := ?distinct, awaits := ?awaits, owes := ?owes }
  case distinct =>
    rw [List.map_append, List.nodup_append]
    refine ⟨hclaimed.ids, h.distinct, ?_⟩
    rintro a ha b hb rfl
    obtain ⟨entry, hentry, rfl⟩ := List.mem_map.mp ha
    obtain ⟨other, hother, hsame⟩ := List.mem_map.mp hb
    exact h.not_awaited hclaimed hentry hother hsame.symm
  case awaits =>
    intro entry hentry
    rcases List.mem_append.mp hentry with hentry | hentry
    · exact h.claimed_awaits now hclaimed hfresh hentry
    · obtain ⟨hkey, hbounded, haccepted, hexecutions⟩ := hmarked.awaits entry hentry
      exact ⟨hkey, hbounded, haccepted, hexecutions⟩
  case owes =>
    intro key hkey
    obtain ⟨hmem, hfree, hagain⟩ := h.owes key hkey
    refine ⟨List.mem_append_right _ hmem, fun hawaiting => ?_, hagain⟩
    rw [List.map_append, List.mem_append] at hawaiting
    rcases hawaiting with hawaiting | hawaiting
    · obtain ⟨entry, hentry, rfl⟩ := List.mem_map.mp hawaiting
      exact hfresh.2 entry hentry (List.mem_map.mpr ⟨entry.key, hmem, rfl⟩)
    · exact hfree hawaiting

/-- New jobs under ids above all others, while no execution lies above the accepted rows. -/
theorem Consistent.enqueue (h : Consistent pinned s)
    (hcovered : ∀ row ∈ s.executions, ∃ job ∈ s.accepted, row.jobId ≤ job.id) (jobs : List AcceptedJob)
    (hids : (jobs.map AcceptedJob.id).Nodup) (hfree : ∀ job ∈ jobs, job.dispatchId = none)
    (habove : ∀ row ∈ s.accepted, ∀ job ∈ jobs, row.id < job.id) :
    Consistent pinned { s with accepted := s.accepted ++ jobs } := by
  have hbounded : ∀ {n : Int}, (∃ row ∈ s.accepted, n ≤ row.id) →
      ∃ row ∈ s.accepted ++ jobs, n ≤ row.id := by
    rintro n ⟨row, hrow, hle⟩
    exact ⟨row, List.mem_append_left _ hrow, hle⟩
  -- No execution and no claim in flight has one of the new ids.
  have hother : ∀ {n : Int}, (∃ row ∈ s.accepted, n ≤ row.id) → ∀ job ∈ jobs, job.id ≠ n := by
    rintro n ⟨row, hrow, hle⟩ job hjob rfl
    exact absurd (habove row hrow job hjob) (Int.not_lt.mpr hle)
  have hsplit : ∀ {n : Int}, (∃ row ∈ s.accepted, n ≤ row.id) → ∀ job ∈ s.accepted ++ jobs,
      job.id = n → job ∈ s.accepted := by
    intro n hn job hjob hid
    rcases List.mem_append.mp hjob with hjob | hjob
    · exact hjob
    · exact absurd hid (hother hn job hjob)
  refine { h with
    ids := ?ids, claims := ?claims, named := ?named, held := ?held, awaits := ?awaits, owes := ?owes }
  case ids =>
    rw [List.map_append, List.nodup_append]
    refine ⟨h.ids, hids, ?_⟩
    rintro a ha b hb rfl
    obtain ⟨row, hrow, rfl⟩ := List.mem_map.mp ha
    obtain ⟨job, hjob, hsame⟩ := List.mem_map.mp hb
    have := habove row hrow job hjob
    omega
  case claims =>
    intro row hrow dispatchId hdispatch
    rcases List.mem_append.mp hrow with hrow | hrow
    · exact h.claims row hrow dispatchId hdispatch
    · rw [hfree row hrow] at hdispatch
      cases hdispatch
  case named =>
    intro row hrow job hjob hid
    exact h.named row hrow job (hsplit (hcovered row hrow) job hjob hid) hid
  case held =>
    intro row hrow hagain job hjob hid
    exact h.held row hrow hagain job (hsplit (hcovered row hrow) job hjob hid) hid
  case awaits =>
    intro claimed hclaimed
    obtain ⟨hissued, hle, haccepted, hexecutions⟩ := h.awaits claimed hclaimed
    exact ⟨hissued, hbounded hle, fun row hrow hid => haccepted row (hsplit hle row hrow hid) hid,
      hexecutions⟩
  case owes =>
    intro key hkey
    obtain ⟨hmem, hnone, hagain⟩ := h.owes key hkey
    exact ⟨hmem, hnone, hagain⟩

/-- Accepted rows may go as long as one stays that no claim in flight lies above. -/
theorem Consistent.remove_accepted (h : Consistent pinned s) {p : AcceptedJob → Bool}
    (hawaiting : ∀ claimed ∈ s.awaiting, ∃ job ∈ s.accepted.filter p, claimed.id ≤ job.id) :
    Consistent pinned { s with accepted := s.accepted.filter p } := by
  have hmem : ∀ {job}, job ∈ s.accepted.filter p → job ∈ s.accepted :=
    fun hjob => (List.mem_filter.mp hjob).1
  refine { h with
    ids := h.ids.sublist (List.filter_sublist.map _)
    claims := fun row hrow => h.claims row (hmem hrow)
    named := fun row hrow job hjob => h.named row hrow job (hmem hjob)
    held := fun row hrow hagain job hjob => h.held row hrow hagain job (hmem hjob)
    awaits := ?awaits, owes := ?owes }
  case awaits =>
    intro claimed hclaimed
    obtain ⟨hissued, -, haccepted, hagain⟩ := h.awaits claimed hclaimed
    exact ⟨hissued, hawaiting claimed hclaimed, fun row hrow => haccepted row (hmem hrow), hagain⟩
  case owes =>
    intro key hkey
    obtain ⟨hissued, hfree, hagain⟩ := h.owes key hkey
    exact ⟨hissued, hfree, hagain⟩

/-! ### Commits of the results database -/

/-- Executions of a job are unique. -/
theorem Consistent.execution_eq (h : Consistent pinned s) {row other : Execution}
    (hrow : row ∈ s.executions) (hother : other ∈ s.executions) (hjob : row.jobId = other.jobId) :
    row = other :=
  List.inj_on_of_nodup_map h.valid.jobs hrow hother hjob

theorem Writer.Finishes.eq_of_again {f : Execution → Execution} (hf : Writer.Finishes f)
    {row : Execution} (h : Again pinned row) : f row = row := by
  rcases hf row with heq | ⟨hrunning, -⟩
  · exact heq
  · exact absurd hrunning h.not_running

theorem Writer.Finishes.key {f : Execution → Execution} (hf : Writer.Finishes f)
    (row : Execution) : (f row).key = row.key :=
  hf.keeps Execution.key (fun _ _ _ => finished_key _ _ _) row

/-- An attempt that ended and leaves another one: no call awaits the dispatch of a running job. -/
theorem Consistent.rependable_finished (h : Consistent pinned s) {f : Execution → Execution}
    (hf : Writer.Finishes f) (owed : List (Int × String)) {row : Execution}
    (hrow : row ∈ s.executions) (hrunning : row.status = .running) (hagain : Again pinned (f row)) :
    Rependable pinned { s with executions := s.executions.map f, owed := owed } row.key := by
  constructor
  · intro hawaiting
    obtain ⟨claimed, hclaimed, hkey⟩ := List.mem_map.mp hawaiting
    have hid : row.jobId = claimed.id := (congrArg Prod.fst hkey).symm
    exact ((h.awaits claimed hclaimed).executions row hrow hid).1.not_running hrunning
  · intro row' hrow' hkey
    obtain ⟨other, hother, rfl⟩ := List.mem_map.mp hrow'
    rw [hf.key] at hkey
    rwa [h.execution_eq hother hrow (congrArg Prod.fst hkey)]

/-- Attempts end; those that leave another one are now due to be repended. -/
theorem Consistent.finish (h : Consistent pinned s) {f : Execution → Execution}
    (hf : Writer.Finishes f) (due : List (Int × String))
    (hdue : ∀ key ∈ due, ∃ row ∈ s.executions, row.key = key ∧ row.status = .running ∧
      Again pinned (f row)) :
    Consistent pinned { s with executions := s.executions.map f, owed := due ++ s.owed } := by
  have hjob := hf.keeps Execution.jobId fun _ _ _ => finished_jobId _ _ _
  have hqueue := hf.keeps Execution.queueName fun _ _ _ => finished_queueName _ _ _
  have hdispatch := hf.keeps Execution.dispatchId fun _ _ _ => finished_dispatchId _ _ _
  have hcount := hf.keeps Execution.executionCount fun _ _ _ => finished_executionCount _ _ _
  have hmem : ∀ {row'}, row' ∈ s.executions.map f → ∃ row ∈ s.executions, f row = row' :=
    List.mem_map.mp
  refine { h with
    valid := hf.valid h.valid, executed := ?executed, named := ?named, held := ?held
    started := ?started, leased := ?leased, counted := ?counted, awaits := ?awaits, owes := ?owes }
  case executed =>
    intro row' hrow'
    obtain ⟨row, hrow, rfl⟩ := hmem hrow'
    rw [hf.key]
    exact h.executed row hrow
  case named =>
    intro row' hrow' job hjob' hid
    obtain ⟨row, hrow, rfl⟩ := hmem hrow'
    rw [hqueue]
    exact h.named row hrow job hjob' (hid.trans (hjob row))
  case held =>
    intro row' hrow' hagain job hjob' hid
    obtain ⟨row, hrow, rfl⟩ := hmem hrow'
    rw [hdispatch]
    refine h.held row hrow (fun hbefore => hagain ?_) job hjob' (hid.trans (hjob row))
    rwa [hf.eq_of_again hbefore]
  case started =>
    intro row' hrow'
    obtain ⟨row, hrow, rfl⟩ := hmem hrow'
    rcases hf row with heq | ⟨-, now, outcome, heq⟩
    · rw [heq]
      exact h.started row hrow
    · rw [heq, finished_status]
      split <;> simp
  case leased =>
    intro row' hrow' hrunning
    obtain ⟨row, hrow, rfl⟩ := hmem hrow'
    rcases hf row with heq | ⟨-, now, outcome, heq⟩
    · rw [heq] at hrunning ⊢
      exact h.leased row hrow hrunning
    · rw [heq] at hrunning
      exact absurd hrunning (finished_not_running now row outcome)
  case counted =>
    intro row' hrow'
    obtain ⟨row, hrow, rfl⟩ := hmem hrow'
    rw [hcount, hqueue]
    exact h.counted row hrow
  case awaits =>
    intro claimed hclaimed
    obtain ⟨hissued, hbounded, haccepted, hexecutions⟩ := h.awaits claimed hclaimed
    refine ⟨hissued, hbounded, haccepted, fun row' hrow' hid => ?_⟩
    obtain ⟨row, hrow, rfl⟩ := hmem hrow'
    have hagain := hexecutions row hrow ((hjob row).symm.trans hid)
    rwa [hf.eq_of_again hagain.1]
  case owes =>
    intro key hkeyDue
    rcases List.mem_append.mp hkeyDue with hkeyDue | hkeyOwed
    · obtain ⟨row, hrow, rfl, hrunning, hagain⟩ := hdue key hkeyDue
      exact ⟨h.executed row hrow, h.rependable_finished hf _ hrow hrunning hagain⟩
    · obtain ⟨hissued, hfree, hagain⟩ := h.owes key hkeyOwed
      refine ⟨hissued, hfree, fun row' hrow' hrowKey => ?_⟩
      obtain ⟨row, hrow, rfl⟩ := hmem hrow'
      have hbefore := hagain row hrow ((hf.key row).symm.trans hrowKey)
      rwa [hf.eq_of_again hbefore]

/-- What a dispatch relies on: the rows that await it are for jobs that have no attempt, or one that
may be repeated. -/
theorem Consistent.available (h : Consistent pinned s) {claimed : IngestClaimed}
    (hclaimed : claimed ∈ s.awaiting) :
    Available (Table.lookup Execution.jobId claimed.id s.executions) := by
  intro row hrow
  have hagain := (h.awaits claimed hclaimed).executions row (Table.mem_of_lookup hrow)
    (Table.key_of_lookup hrow)
  exact Or.inl hagain.1.1

/-- The attempt that a dispatch repeats. -/
theorem Consistent.repeats (h : Consistent pinned s) {entry : IngestClaimed}
    (hentry : entry ∈ s.awaiting) {before : Execution}
    (hlookup : Table.lookup Execution.jobId entry.id s.executions = some before) :
    before ∈ s.executions ∧ before.jobId = entry.id ∧ Again pinned before := by
  have hmem := Table.mem_of_lookup hlookup
  have hid : before.jobId = entry.id := Table.key_of_lookup hlookup
  exact ⟨hmem, hid, ((h.awaits entry hentry).executions before hmem hid).1⟩

/-- A row after a dispatch is an old one, or the attempt of a claimed row. -/
theorem dispatch_row_cases {now claimedAt : Int} {claimed : List IngestClaimed}
    {before after returned : List Execution}
    (hspec : DispatchSpec now (claimed.map (Store.dispatchRow claimedAt)) before after returned)
    (hfits : ∀ attempt ∈ returned, attempt.executionCount < 4294967296)
    (hjobs : (after.map Execution.jobId).Nodup) {row : Execution} (hrow : row ∈ after) :
    row ∈ before ∨ ∃ entry ∈ claimed,
      IsDispatch now (Store.dispatchRow claimedAt entry)
        (Table.lookup Execution.jobId entry.id before) row ∧
      row.executionCount < 4294967296 := by
  rcases hspec.row_cases hjobs hrow with hold | ⟨havailable, insert, hinsert, hjob, hdispatch⟩
  · exact Or.inl (Table.mem_of_lookup hold)
  · obtain ⟨entry, hentry, rfl⟩ := List.mem_map.mp hinsert
    have hnamed : row.jobId ∈ (claimed.map (Store.dispatchRow claimedAt)).map
        DispatchInsert.jobId := hjob ▸ List.mem_map_of_mem hinsert
    obtain ⟨_, -, -, attempt, hattempt, hreturned, -⟩ := hspec.started _ hnamed havailable
    rw [Table.lookup_of_mem hjobs hrow, Option.some.injEq] at hattempt
    have hid : entry.id = row.jobId := hjob
    rw [← hid] at hdispatch
    exact Or.inr ⟨entry, hentry, hdispatch, hfits row (hattempt ▸ hreturned)⟩

theorem ResultsConn.IsDispatch.key {now claimedAt : Int} {entry : IngestClaimed} {before : Option Execution}
    {row : Execution} (h : IsDispatch now (Store.dispatchRow claimedAt entry) before row) :
    row.key = entry.key :=
  Prod.ext h.jobId h.dispatchId

/-- The attempt after one that may be repeated is within the budget. -/
theorem Consistent.attempt_counted (h : Consistent pinned s) {now claimedAt : Int}
    {entry : IngestClaimed} (hentry : entry ∈ s.awaiting) {row : Execution}
    (hdispatch : IsDispatch now (Store.dispatchRow claimedAt entry)
      (Table.lookup Execution.jobId entry.id s.executions) row) :
    1 ≤ row.executionCount ∧
      ∀ limit, pinned row.queueName = some limit → row.executionCount ≤ limit.toNat + 1 := by
  rw [hdispatch.queueName, hdispatch.executionCount]
  cases hlookup : Table.lookup Execution.jobId entry.id s.executions with
  | none =>
    simp only [attempts, Option.map_none, Option.getD_none]
    exact ⟨by omega, fun limit _ => by omega⟩
  | some before =>
    obtain ⟨hmem, -, hagain⟩ := h.repeats hentry hlookup
    have hcount := (h.counted before hmem).1
    simp only [attempts, Option.map_some, Option.getD_some]
    refine ⟨by omega, fun limit hlimit => ?_⟩
    have hle := hagain.2 limit hlimit
    omega

theorem Consistent.dispatch (h : Consistent pinned s) {now claimedAt : Int}
    {claimed rest : List IngestClaimed} (hawaiting : s.awaiting = claimed ++ rest)
    {executions returned : List Execution}
    (hspec : DispatchSpec now (claimed.map (Store.dispatchRow claimedAt)) s.executions executions
      returned) (hfits : ∀ attempt ∈ returned, attempt.executionCount < 4294967296)
    (hvalid : Valid s.queues executions) :
    Consistent pinned { s with executions := executions, awaiting := rest } := by
  have hcases := fun (row : Execution) (hrow : row ∈ executions) =>
    dispatch_row_cases hspec hfits hvalid.jobs hrow
  have hmem : ∀ entry ∈ claimed, entry ∈ s.awaiting := fun entry hentry =>
    hawaiting ▸ List.mem_append_left _ hentry
  have hdistinct := h.distinct
  rw [hawaiting, List.map_append, List.nodup_append] at hdistinct
  refine { h with
    valid := hvalid, executed := ?executed, named := ?named, held := ?held
    started := ?started, leased := ?leased, counted := ?counted, distinct := hdistinct.2.1
    awaits := ?awaits, owes := ?owes }
  case executed =>
    intro row hrow
    rcases hcases row hrow with hold | ⟨entry, hentry, hdispatch, -⟩
    · exact h.executed row hold
    · rw [hdispatch.key]
      exact (h.awaits entry (hmem entry hentry)).issued
  case named =>
    intro row hrow job hjob hid
    rcases hcases row hrow with hold | ⟨entry, hentry, hdispatch, -⟩
    · exact h.named row hold job hjob hid
    · rw [hdispatch.jobId] at hid
      rw [hdispatch.queueName]
      cases hlookup : Table.lookup Execution.jobId entry.id s.executions with
      | none => exact (((h.awaits entry (hmem entry hentry)).accepted job hjob hid).2).symm
      | some before =>
        obtain ⟨hold, hbeforeId, -⟩ := h.repeats (hmem entry hentry) hlookup
        exact h.named before hold job hjob (hid.trans hbeforeId.symm)
  case held =>
    intro row hrow hagain job hjob hid
    rcases hcases row hrow with hold | ⟨entry, hentry, hdispatch, -⟩
    · exact h.held row hold hagain job hjob hid
    · rw [hdispatch.jobId] at hid
      rw [hdispatch.dispatchId]
      exact ((h.awaits entry (hmem entry hentry)).accepted job hjob hid).1
  case started =>
    intro row hrow
    rcases hcases row hrow with hold | ⟨entry, -, hdispatch, -⟩
    · exact h.started row hold
    · simp [hdispatch.status]
  case leased =>
    intro row hrow hrunning
    rcases hcases row hrow with hold | ⟨entry, -, hdispatch, -⟩
    · exact h.leased row hold hrunning
    · simp [hdispatch.leaseExpiresAt]
  case counted =>
    intro row hrow
    rcases hcases row hrow with hold | ⟨entry, hentry, hdispatch, hfit⟩
    · exact h.counted row hold
    · obtain ⟨hone, hbudget⟩ := h.attempt_counted (hmem entry hentry) hdispatch
      exact ⟨hone, hfit, hbudget⟩
  case awaits =>
    intro other hother
    have hsource : other ∈ s.awaiting := hawaiting ▸ List.mem_append_right _ hother
    obtain ⟨hissued, hbounded, haccepted, hexecutions⟩ := h.awaits other hsource
    refine ⟨hissued, hbounded, haccepted, fun row hrow hid => ?_⟩
    rcases hcases row hrow with hold | ⟨entry, hentry, hdispatch, -⟩
    · exact hexecutions row hold hid
    · have hsame : entry.id = other.id := hdispatch.jobId.symm.trans hid
      exact absurd hsame (hdistinct.2.2 _ (List.mem_map_of_mem hentry) _
        (List.mem_map_of_mem hother))
  case owes =>
    intro key hkey
    obtain ⟨hissued, hfree, hagain⟩ := h.owes key hkey
    rw [hawaiting, List.map_append, List.mem_append, not_or] at hfree
    refine ⟨hissued, hfree.2, fun row hrow hrowKey => ?_⟩
    rcases hcases row hrow with hold | ⟨entry, hentry, hdispatch, -⟩
    · exact hagain row hold hrowKey
    · have hkeyEq : entry.key = key := hdispatch.key.symm.trans hrowKey
      exact absurd (hkeyEq ▸ List.mem_map_of_mem hentry) hfree.1

/-- A dispatch that failed: its claims are due to be given back. -/
theorem Consistent.undo (h : Consistent pinned s) {claimed rest : List IngestClaimed}
    (hawaiting : s.awaiting = claimed ++ rest) :
    Consistent pinned { s with
      awaiting := rest, owed := claimed.map IngestClaimed.key ++ s.owed } := by
  have hdistinct := h.distinct
  rw [hawaiting, List.map_append, List.nodup_append] at hdistinct
  have hrest : ∀ entry ∈ rest, entry ∈ s.awaiting := fun entry hentry =>
    hawaiting ▸ List.mem_append_right _ hentry
  refine { h with distinct := hdistinct.2.1, awaits := ?awaits, owes := ?owes }
  case awaits =>
    intro entry hentry
    obtain ⟨hissued, hbounded, haccepted, hexecutions⟩ := h.awaits entry (hrest entry hentry)
    exact ⟨hissued, hbounded, haccepted, hexecutions⟩
  case owes =>
    intro key hkey
    rcases List.mem_append.mp hkey with hkey | hkey
    · obtain ⟨entry, hentry, rfl⟩ := List.mem_map.mp hkey
      have hold := h.awaits entry (hawaiting ▸ List.mem_append_left _ hentry)
      refine ⟨hold.issued, fun hmem => ?_, fun row hrow hrowKey => ?_⟩
      · obtain ⟨other, hother, hsame⟩ := List.mem_map.mp hmem
        exact hdistinct.2.2 _ (List.mem_map_of_mem hentry) _ (List.mem_map_of_mem hother)
          (congrArg Prod.fst hsame).symm
      · have hid : row.jobId = entry.id := congrArg Prod.fst hrowKey
        exact absurd (congrArg Prod.snd hrowKey) (hold.executions row hrow hid).2
    · obtain ⟨hissued, hfree, hagain⟩ := h.owes key hkey
      refine ⟨hissued, fun hmem => hfree ?_, hagain⟩
      obtain ⟨entry, hentry, rfl⟩ := List.mem_map.mp hmem
      exact List.mem_map_of_mem (hrest entry hentry)

theorem Consistent.remove_executions (h : Consistent pinned s) (p : Execution → Bool) :
    Consistent pinned { s with executions := s.executions.filter p } := by
  have hmem : ∀ {row}, row ∈ s.executions.filter p → row ∈ s.executions :=
    fun hrow => (List.mem_filter.mp hrow).1
  refine { h with
    valid := h.valid.filter p, executed := fun row hrow => h.executed row (hmem hrow)
    named := fun row hrow => h.named row (hmem hrow)
    held := fun row hrow => h.held row (hmem hrow)
    started := fun row hrow => h.started row (hmem hrow)
    leased := fun row hrow => h.leased row (hmem hrow)
    counted := fun row hrow => h.counted row (hmem hrow), awaits := ?awaits, owes := ?owes }
  case awaits =>
    intro claimed hclaimed
    obtain ⟨hissued, hbounded, haccepted, hexecutions⟩ := h.awaits claimed hclaimed
    exact ⟨hissued, hbounded, haccepted, fun row hrow => hexecutions row (hmem hrow)⟩
  case owes =>
    intro key hkey
    obtain ⟨hissued, hfree, hagain⟩ := h.owes key hkey
    exact ⟨hissued, hfree, fun row hrow => hagain row (hmem hrow)⟩

/-- Queues may be added, and rewritten with the limits that are pinned. -/
theorem Consistent.upsert (h : Consistent pinned s) (queues upserts : List JobQueue)
    (hnames : ∀ name ∈ s.queues.map JobQueue.name, name ∈ queues.map JobQueue.name)
    (hlimits : ∀ queue ∈ queues ++ upserts, ∀ limit, pinned queue.name = some limit →
      queue.maxRetries = limit) :
    Consistent pinned { s with queues := queues, upserts := upserts } := by
  refine { h with
    valid := h.valid.mono hnames, limits := hlimits, awaits := ?awaits, owes := ?owes }
  case awaits =>
    intro claimed hclaimed
    obtain ⟨hissued, hbounded, haccepted, hexecutions⟩ := h.awaits claimed hclaimed
    exact ⟨hissued, hbounded, haccepted, hexecutions⟩
  case owes =>
    intro key hkey
    obtain ⟨hissued, hfree, hagain⟩ := h.owes key hkey
    exact ⟨hissued, hfree, hagain⟩

end Maqistor
