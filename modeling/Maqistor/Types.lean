import Maqistor.Lib.Table

/-! The engine's data: queues, accepted jobs, executions and the job view composed of the last
two, with the errors of a store. Integers that the source declares as `i64` are `Int`; a count is
checked against the range of `u32` where the source converts it. -/

namespace Maqistor

/-- `MAX_CLAIM_BATCH_SIZE` of the engine. -/
def maxClaimBatchSize : Nat := 1048576

/-- `ROWS_PER_STATEMENT` of the SQLite store. -/
def rowsPerStatement : Nat := 256

theorem rowsPerStatement_pos : 0 < rowsPerStatement := by decide

inductive ExecutionStatus where
  | pending
  | running
  | completed
  | failed
deriving DecidableEq, Repr

structure JobQueue where
  name : String
  maxRetries : UInt32
  timeoutSecs : UInt64
  createdAt : Int
  updatedAt : Int
deriving DecidableEq, Repr

structure AcceptedJob where
  id : Int
  queueName : String
  payload : List UInt8
  dispatchId : Option String
  createdAt : Int
  updatedAt : Int
deriving DecidableEq, Repr

/-- A row of `executions`; its count is the stored `INTEGER`. -/
structure Execution where
  id : Int
  jobId : Int
  queueName : String
  status : ExecutionStatus
  executionCount : Int
  leaseExpiresAt : Option Int
  dispatchId : String
  resultPayload : Option (List UInt8)
  resultError : Option String
  createdAt : Int
  updatedAt : Int
deriving DecidableEq, Repr

structure Job where
  id : Int
  name : String
  status : ExecutionStatus
  payload : List UInt8
  executionCount : Int
  leaseExpiresAt : Option Int
  dispatchId : Option String
  resultPayload : Option (List UInt8)
  resultError : Option String
  createdAt : Int
  updatedAt : Int
deriving DecidableEq, Repr

inductive JobOutcome where
  | succeeded (payload : List UInt8)
  | failed (message : String)
deriving DecidableEq, Repr

def JobOutcome.isSuccess : JobOutcome → Bool
  | .succeeded _ => true
  | .failed _ => false

/-- What an internal error says: a text, or that a stored integer does not fit, which std words and
rusqlite reports with the column that it reads. -/
inductive ErrorText where
  | text (words : String)
  | tryFromInt
  | column (index : Nat)
deriving DecidableEq, Repr

/-- The words of an internal error, given those of std's `TryFromIntError`. -/
def ErrorText.render (tryFromIntError : String) : ErrorText → String
  | .text words => words
  | .tryFromInt => tryFromIntError
  | .column index =>
    "Conversion error from type Integer at index: " ++ toString index ++ ", " ++ tryFromIntError

@[simp] theorem ErrorText.render_text (tryFromIntError words : String) :
    (ErrorText.text words).render tryFromIntError = words := rfl

@[simp] theorem ErrorText.render_tryFromInt (tryFromIntError : String) :
    ErrorText.tryFromInt.render tryFromIntError = tryFromIntError := rfl

inductive StoreError where
  | notFound (jobId : Int)
  | queueNotFound (name : String)
  | internal (message : ErrorText)
deriving DecidableEq, Repr

/-- What `err.to_string()` gives for the failures the store can meet. -/
def outOfRange : StoreError := .internal .tryFromInt

def noRows : StoreError := .internal (.text "Query returned no rows")

def uniqueViolation : StoreError :=
  .internal (.text "UNIQUE constraint failed: executions.dispatch_id")

def foreignKeyViolation : StoreError := .internal (.text "FOREIGN KEY constraint failed")

/-- A stored count that `u32` holds. -/
def FitsU32 (count : Int) : Prop := 0 ≤ count ∧ count < 4294967296

instance (count : Int) : Decidable (FitsU32 count) := inferInstanceAs (Decidable (_ ∧ _))

/-- `u32::try_from` of a stored count. -/
def u32TryFrom (n : Int) : Except StoreError Int :=
  if 0 ≤ n ∧ n < 4294967296 then .ok n else .error outOfRange

/-- The count that `row_to_execution` reads: column 4 of the row. -/
def rowCount (n : Int) : Except StoreError Int :=
  if 0 ≤ n ∧ n < 4294967296 then .ok n else .error (.internal (.column 4))

/-- A conversion to `u32` succeeds on what fits, whatever its error. -/
theorem fitting_eq_ok {n m : Int} {error : StoreError} :
    (if 0 ≤ n ∧ n < 4294967296 then (.ok n : Except StoreError Int) else .error error) = .ok m ↔
      FitsU32 n ∧ m = n := by
  unfold FitsU32
  constructor
  · intro h
    split at h
    · next hfits => exact ⟨hfits, (Except.ok.inj h).symm⟩
    · cases h
  · rintro ⟨hfits, rfl⟩
    rw [if_pos hfits]

theorem u32TryFrom_eq_ok {n m : Int} : u32TryFrom n = .ok m ↔ FitsU32 n ∧ m = n := fitting_eq_ok

theorem u32TryFrom_of_fits {n : Int} (h : FitsU32 n) : u32TryFrom n = .ok n :=
  u32TryFrom_eq_ok.mpr ⟨h, rfl⟩

theorem rowCount_eq_ok {n m : Int} : rowCount n = .ok m ↔ FitsU32 n ∧ m = n := fitting_eq_ok

theorem rowCount_of_fits {n : Int} (h : FitsU32 n) : rowCount n = .ok n :=
  rowCount_eq_ok.mpr ⟨h, rfl⟩

/-- Addition of `i64` values that stops at the ends of the range. -/
def saturatingAdd (a b : Int) : Int :=
  max (-9223372036854775808) (min 9223372036854775807 (a + b))

/-- Durations are counted in nanoseconds. -/
def nanosPerMilli : Nat := 1000000

/-- Multiplication of `i64` values that stops at the ends of the range. -/
def saturatingMul (a b : Int) : Int :=
  max (-9223372036854775808) (min 9223372036854775807 (a * b))

/-- `Job::from_accepted`: a failed attempt of a job that is available again reads as pending. -/
def Job.fromAccepted (accepted : AcceptedJob) (execution : Option Execution) : Job :=
  match execution with
  | none =>
    { id := accepted.id, name := accepted.queueName, status := .pending,
      payload := accepted.payload, executionCount := 0, leaseExpiresAt := none,
      dispatchId := accepted.dispatchId, resultPayload := none, resultError := none,
      createdAt := accepted.createdAt, updatedAt := accepted.updatedAt }
  | some execution =>
    { id := accepted.id, name := accepted.queueName,
      status := if execution.status = .failed ∧ accepted.dispatchId = none then .pending
        else execution.status
      payload := accepted.payload, executionCount := execution.executionCount,
      leaseExpiresAt := execution.leaseExpiresAt, dispatchId := some execution.dispatchId,
      resultPayload := execution.resultPayload, resultError := execution.resultError,
      createdAt := accepted.createdAt, updatedAt := execution.updatedAt }

/-- What a statement takes from outside: the clock reading `unix_now()` and the choices that SQL
leaves open. -/
structure Env where
  now : Int
  choice : Table.Choice

/-- An environment for concrete runs. -/
def Env.atTime (now : Int) : Env := ⟨now, Table.Choice.first⟩

/-- The queue of the concrete runs: two retries and a timeout of thirty seconds. -/
def mailQueue : JobQueue :=
  { name := "mail", maxRetries := 2, timeoutSecs := 30, createdAt := 0, updatedAt := 0 }

/-- The rewrite of a queue's row in `ON CONFLICT(name) DO UPDATE`: its creation time stays. -/
def overwriteQueue (queue row : JobQueue) : JobQueue :=
  { row with
    maxRetries := queue.maxRetries, timeoutSecs := queue.timeoutSecs,
    updatedAt := queue.updatedAt }

/-- The upsert of a queue by its name, the same statement on `job_queues` and on
`execution_queues`. A timeout beyond `i64` cannot be bound as a parameter. -/
def upsertQueueRow (now : Int) (queue : JobQueue) (queues : List JobQueue) :
    Except StoreError (List JobQueue × JobQueue) :=
  if 9223372036854775808 ≤ queue.timeoutSecs.toNat then .error outOfRange
  else
    let queue := { queue with updatedAt := now }
    match Table.lookup JobQueue.name queue.name queues with
    | none => .ok (queues ++ [queue], queue)
    | some row => .ok (queues.map fun other =>
        if other.name = queue.name then overwriteQueue queue other else other,
        overwriteQueue queue row)

/-- What an upsert does: it adds the queue, or rewrites the row that has its name. -/
theorem upsertQueueRow_cases {now : Int} {queue reply : JobQueue} {queues queues' : List JobQueue}
    (h : upsertQueueRow now queue queues = .ok (queues', reply)) :
    queue.timeoutSecs.toNat < 9223372036854775808 ∧
    ((queues' = queues ++ [{ queue with updatedAt := now }] ∧
        reply = { queue with updatedAt := now }) ∨
      ∃ row ∈ queues, row.name = queue.name ∧
        reply = overwriteQueue { queue with updatedAt := now } row ∧
        queues' = queues.map fun other => if other.name = queue.name then
          overwriteQueue { queue with updatedAt := now } other else other) := by
  unfold upsertQueueRow at h
  split at h
  · cases h
  · next hfits =>
    refine ⟨Nat.lt_of_not_le hfits, ?_⟩
    dsimp only at h
    split at h
    · obtain ⟨rfl, rfl⟩ := Prod.mk.inj (Except.ok.inj h)
      exact Or.inl ⟨rfl, rfl⟩
    · next row hrow =>
      obtain ⟨rfl, rfl⟩ := Prod.mk.inj (Except.ok.inj h)
      exact Or.inr ⟨row, Table.mem_of_lookup hrow, Table.key_of_lookup hrow, rfl, rfl⟩

theorem upsertQueueRow_names {now : Int} {queue reply : JobQueue} {queues queues' : List JobQueue}
    (h : upsertQueueRow now queue queues = .ok (queues', reply)) (name : String) :
    name ∈ queues'.map JobQueue.name ↔ name = queue.name ∨ name ∈ queues.map JobQueue.name := by
  obtain ⟨-, ⟨rfl, -⟩ | ⟨row, hrow, hname, -, rfl⟩⟩ := upsertQueueRow_cases h
  · simp [or_comm]
  · have hnames : (queues.map fun other => if other.name = queue.name then
        overwriteQueue { queue with updatedAt := now } other else other).map JobQueue.name =
        queues.map JobQueue.name := by
      rw [List.map_map]
      apply List.map_congr_left
      intro other _
      simp only [Function.comp_apply]
      split <;> rfl
    have hmem : queue.name ∈ queues.map JobQueue.name := List.mem_map.mpr ⟨row, hrow, hname⟩
    rw [hnames]
    exact ⟨Or.inr, fun h => h.elim (fun h => h ▸ hmem) id⟩

/-- A queue after an upsert is an old one, or has the limit that was written. -/
theorem upsertQueueRow_limits {now : Int} {queue reply : JobQueue} {queues queues' : List JobQueue}
    (h : upsertQueueRow now queue queues = .ok (queues', reply)) :
    (reply.name = queue.name ∧ reply.maxRetries = queue.maxRetries) ∧ ∀ other ∈ queues',
      other ∈ queues ∨ other.name = queue.name ∧ other.maxRetries = queue.maxRetries := by
  obtain ⟨-, ⟨rfl, rfl⟩ | ⟨row, hrow, hname, rfl, rfl⟩⟩ := upsertQueueRow_cases h
  · refine ⟨⟨rfl, rfl⟩, fun other hother => ?_⟩
    rcases List.mem_append.mp hother with hother | hother
    · exact Or.inl hother
    · rw [List.mem_singleton.mp hother]
      exact Or.inr ⟨rfl, rfl⟩
  · refine ⟨⟨hname, rfl⟩, fun other hother => ?_⟩
    obtain ⟨before, hbefore, rfl⟩ := List.mem_map.mp hother
    split
    · next hsame => exact Or.inr ⟨hsame, rfl⟩
    · exact Or.inl hbefore

/-- A queue after an upsert is an old one, or has a timeout that `i64` holds. -/
theorem upsertQueueRow_timeouts {now : Int} {queue reply : JobQueue}
    {queues queues' : List JobQueue} (h : upsertQueueRow now queue queues = .ok (queues', reply)) :
    ∀ other ∈ queues', other ∈ queues ∨ other.timeoutSecs.toNat < 9223372036854775808 := by
  intro other hother
  obtain ⟨hfits, ⟨rfl, -⟩ | ⟨row, -, -, -, rfl⟩⟩ := upsertQueueRow_cases h
  · rcases List.mem_append.mp hother with hother | hother
    · exact Or.inl hother
    · rw [List.mem_singleton.mp hother]
      exact Or.inr hfits
  · obtain ⟨before, hbefore, rfl⟩ := List.mem_map.mp hother
    split
    · exact Or.inr hfits
    · exact Or.inl hbefore

end Maqistor
