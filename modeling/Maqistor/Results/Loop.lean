import Maqistor.Results.Complete
import Maqistor.Lib.Lists
import Maqistor.Lib.WriterCalls

/-! The results writer's loop with its lanes `meta`, `dispatch` and `complete`. Which lane has the
next turn when both have rows is the lane controller's choice. -/

namespace Maqistor

inductive ResultsLane where
  | dispatch
  | completion
deriving DecidableEq, Repr

def ResultsLane.queue : ResultsLane → WriterLoop.Lane
  | .dispatch => .single
  | .completion => .batched

namespace ResultsConn

/-- What a call takes from outside: the clock and the choices of SQL, the error with which the
database refuses it, if it does, and the lane that the controller prefers. -/
structure Turn where
  env : Env
  fault : Option StoreError
  preferred : ResultsLane

/-- The request's part in a batch of completions. -/
def Request.completion? : Request → Option PendingCompletion
  | .complete pending => some pending
  | _ => none

/-- `handle`, on a database that may refuse the call. -/
def attempt (turn : Turn) (conn : ResultsConn) (request : Request) :
    ResultsConn × Except StoreError Response :=
  match turn.fault with
  | none =>
    let (conn, response) := conn.handle turn.env request
    (conn, .ok response)
  | some error => (conn, .error error)

/-- The replies of `complete_batch`, at their places in the batch. -/
def batchReplies (batch : List PendingCompletion) :
    Except StoreError (List CompletionDisposition) → List (Except StoreError Response)
  | .error error => batch.map fun _ => .error error
  | .ok dispositions => (batch.zip dispositions).map fun reply => .ok (.disposition (.ok reply.2))

/-- `complete_batch`, on a database that may refuse it. -/
def attemptBatch (turn : Turn) (conn : ResultsConn) (batch : List PendingCompletion) :
    ResultsConn × List (Except StoreError Response) :=
  match turn.fault with
  | none =>
    let (conn, result) := conn.completeBatch turn.env batch
    (conn, batchReplies batch result)
  | some error => (conn, batchReplies batch (.error error))

/-- The queue that `ResultsQueues::push` puts a request into. -/
def lane : Request → WriterLoop.Lane
  | .complete _ => .batched
  | .dispatch _ => .single
  | .upsertQueue _ | .abandon _ _ | .recoverStale _ | .cleanupExpiredRecords _ | .vacuum => .first

/-- The requests that end an open batch in `run_complete_turn`. -/
def preempts : Request → Bool
  | .upsertQueue _ | .abandon _ _ | .recoverStale _ => true
  | _ => false

/-- The rows of a dispatch request. -/
def Request.rows : Request → List DispatchInsert
  | .dispatch rows => rows
  | _ => []

/-- `dispatch_rows`. -/
def dispatchRows (dispatch : List Request) : Nat :=
  (dispatch.map fun request => request.rows.length).sum

/-- `ResultsLaneController::select`; a lane is active when it has rows. -/
def select (preferred : ResultsLane) (dispatchRows completionRows : Nat) : Option ResultsLane :=
  match decide (0 < dispatchRows), decide (0 < completionRows) with
  | false, false => none
  | true, false => some .dispatch
  | false, true => some .completion
  | true, true => some preferred

/-- `results_writer_loop`: after the loop it empties the dispatches only if a batch found the
channel closed. -/
def loop : WriterLoop.Spec Request ResultsConn (Except StoreError Response) Turn where
  lane := lane
  preempts := preempts
  handle := attempt
  batch turn conn requests := conn.attemptBatch turn (requests.filterMap Request.completion?)
  select turn dispatch complete :=
    (select turn.preferred (dispatchRows dispatch) complete.length).map ResultsLane.queue
  drainsSingle disconnected := disconnected

/-- A dispatch carries at least one row. -/
def CarriesRows : Request → Prop
  | .dispatch rows => rows ≠ []
  | _ => True

/-! ### Every completion is answered -/

theorem length_completeSuccess (env : Env) (state : List Execution × List CompletionDisposition)
    (chunk : List Entry) : (completeSuccess env state chunk).2.length = state.2.length := by
  apply Lists.length_foldl
  intro list entry
  split <;> simp

theorem length_completeFailure {env : Env} {queues : List JobQueue}
    {state state' : List Execution × List CompletionDisposition} {chunk : List Entry}
    (h : completeFailure env queues state chunk = .ok state') :
    state'.2.length = state.2.length := by
  obtain ⟨byKey, -, heq⟩ := Outcome.bind_eq_ok.mp h
  obtain rfl := Except.ok.inj heq
  apply Lists.length_foldl
  intro list entry
  simp

/-- An answer of `complete_batch` has a disposition for each request, in any database. -/
theorem length_completeBatch {env : Env} {batch : List PendingCompletion}
    {conn conn' : ResultsConn} {dispositions : List CompletionDisposition}
    (h : conn.completeBatch env batch = (conn', .ok dispositions)) :
    dispositions.length = batch.length := by
  have hsuccess : ∀ (chunks : List (List Entry)) state,
      (chunks.foldl (completeSuccess env) state).2.length = state.2.length := by
    intro chunks
    induction chunks with
    | nil => exact fun _ => rfl
    | cons chunk chunks ih =>
      intro state
      rw [List.foldl_cons, ih, length_completeSuccess]
  have hfailure : ∀ (chunks : List (List Entry)) state state',
      chunks.foldlM (completeFailure env conn.executionQueues) state = .ok state' →
      state'.2.length = state.2.length := by
    intro chunks
    induction chunks with
    | nil =>
      intro state state' hfold
      rw [← Except.ok.inj hfold]
    | cons chunk chunks ih =>
      intro state state' hfold
      rw [List.foldlM_cons, Outcome.bind_eq_ok] at hfold
      obtain ⟨middle, hchunk, hrest⟩ := hfold
      rw [ih _ _ hrest, length_completeFailure hchunk]
  simp only [completeBatch] at h
  split at h
  · cases h
  · next executions answered hfold =>
    obtain ⟨-, hanswer⟩ := Prod.mk.inj h
    obtain rfl := Except.ok.inj hanswer
    have hlength := hfailure _ _ _ hfold
    rw [hsuccess] at hlength
    simpa using hlength

theorem length_attemptBatch (turn : Turn) (conn : ResultsConn) (batch : List PendingCompletion) :
    (conn.attemptBatch turn batch).2.length = batch.length := by
  unfold attemptBatch
  split
  · rcases hbatch : conn.completeBatch turn.env batch with ⟨conn', error | dispositions⟩
    · simp [batchReplies]
    · simp [batchReplies, length_completeBatch hbatch]
  · simp [batchReplies]

theorem length_completions {requests : List Request}
    (h : ∀ request ∈ requests, loop.lane request = .batched) :
    (requests.filterMap Request.completion?).length = requests.length := by
  rw [List.length_filterMap_eq_countP, List.countP_eq_length]
  intro request hrequest
  have hlane := h request hrequest
  cases request <;> first | rfl | cases hlane

theorem dispatchRows_pos {dispatch : List Request} (hdispatch : ∀ request ∈ dispatch,
    CarriesRows request ∧ loop.lane request = .single) (hne : dispatch ≠ []) :
    0 < dispatchRows dispatch := by
  cases dispatch with
  | nil => exact absurd rfl hne
  | cons request rest =>
    obtain ⟨hrows, hlane⟩ := hdispatch request List.mem_cons_self
    cases request with
    | dispatch rows =>
      have hpos : 0 < rows.length := List.length_pos_of_ne_nil hrows
      simp only [dispatchRows, List.map_cons, List.sum_cons, Request.rows]
      omega
    | _ => cases hlane

theorem loop_sound : loop.Sound CarriesRows := by
  constructor
  · intro turn conn batch hbatch
    simp only [loop]
    rw [length_attemptBatch, length_completions hbatch]
  · intro turn dispatch complete hdispatch hqueued
    have hrows : dispatch = [] → dispatchRows dispatch = 0 := by
      rintro rfl
      rfl
    simp only [loop, select]
    by_cases hne : dispatch = []
    · have hcomplete := hqueued.resolve_left (not_not_intro hne)
      rw [hrows hne, decide_eq_true (List.length_pos_of_ne_nil hcomplete)]
      exact Or.inr ⟨rfl, hcomplete⟩
    · rw [decide_eq_true (dispatchRows_pos hdispatch hne)]
      by_cases hcomplete : complete = []
      · rw [hcomplete]
        exact Or.inl ⟨rfl, hne⟩
      · rw [decide_eq_true (List.length_pos_of_ne_nil hcomplete)]
        cases turn.preferred with
        | dispatch => exact Or.inl ⟨rfl, hne⟩
        | completion => exact Or.inr ⟨rfl, hcomplete⟩
  · rfl

/-! ### What a call executes -/

/-- What one call executes on the connection, and its replies: the operation that the requests ask
for, or nothing when the database refuses it. -/
inductive Executes (turn : Turn) (conn : ResultsConn) :
    List Request → ResultsConn → List (Except StoreError Response) → Prop
  | upserted {queue result conn'} : turn.fault = none →
      conn.upsertQueue turn.env queue = (conn', result) →
      Executes turn conn [.upsertQueue queue] conn' [.ok (.queue result)]
  | dispatched {rows result conn'} : turn.fault = none →
      conn.dispatchBatch turn.env rows = (conn', result) →
      Executes turn conn [.dispatch rows] conn' [.ok (.dispatched result)]
  | completed {batch dispositions conn'} : turn.fault = none →
      conn.completeBatch turn.env batch = (conn', .ok dispositions) →
      Executes turn conn (batch.map .complete) conn'
        (dispositions.map fun disposition => .ok (.disposition (.ok disposition)))
  | rolledBack {batch error conn'} : turn.fault = none →
      conn.completeBatch turn.env batch = (conn', .error error) →
      Executes turn conn (batch.map .complete) conn' (batch.map fun _ => .error error)
  | abandoned {jobId dispatchId} : turn.fault = none →
      Executes turn conn [.abandon jobId dispatchId] (conn.abandon turn.env jobId dispatchId)
        [.ok .abandoned]
  | recovered {now result conn'} : turn.fault = none →
      conn.recoverStale turn.env.choice now = (conn', result) →
      Executes turn conn [.recoverStale now] conn' [.ok (.recovered result)]
  | cleaned {cutoff deleted conn'} : turn.fault = none →
      conn.cleanupExpiredRecords cutoff = (conn', deleted) →
      Executes turn conn [.cleanupExpiredRecords cutoff] conn' [.ok (.deleted deleted)]
  | vacuumed : turn.fault = none → Executes turn conn [.vacuum] conn [.ok .vacuumed]
  | refused {requests error} : turn.fault = some error →
      Executes turn conn requests conn (requests.map fun _ => .error error)

theorem eq_completes {requests : List Request}
    (h : ∀ request ∈ requests, loop.lane request = .batched) :
    requests = (requests.filterMap Request.completion?).map .complete := by
  induction requests with
  | nil => rfl
  | cons request rest ih =>
    have hlane := h request List.mem_cons_self
    rw [List.forall_mem_cons] at h
    cases request with
    | complete pending => simpa [Request.completion?] using ih h.2
    | _ => cases hlane

theorem loop_performs : loop.Performs Executes := by
  constructor
  · intro turn conn request hlane
    rcases hfault : turn.fault with _ | error
    · simp only [loop, attempt, hfault]
      cases request with
      | upsertQueue queue => exact .upserted hfault rfl
      | dispatch rows => exact .dispatched hfault rfl
      | complete pending => exact absurd rfl hlane
      | abandon jobId dispatchId => exact .abandoned hfault
      | recoverStale now => exact .recovered hfault rfl
      | cleanupExpiredRecords cutoff => exact .cleaned hfault rfl
      | vacuum => exact .vacuumed hfault
    · simp only [loop, attempt, hfault]
      exact .refused hfault
  · intro turn conn requests hrequests
    have heq := eq_completes hrequests
    generalize hbatch : requests.filterMap Request.completion? = batch at heq
    subst heq
    simp only [loop, hbatch]
    rcases hfault : turn.fault with _ | error
    · rcases hcomplete : conn.completeBatch turn.env batch with ⟨conn', error | dispositions⟩
      · simp only [attemptBatch, hfault, hcomplete, batchReplies]
        exact .rolledBack hfault hcomplete
      · have hlength := length_completeBatch hcomplete
        have hreplies : batchReplies batch (.ok dispositions) =
            dispositions.map fun disposition => .ok (.disposition (.ok disposition)) := by
          have hzip : (batch.zip dispositions).map Prod.snd = dispositions :=
            List.map_snd_zip (Nat.le_of_eq hlength)
          conv_rhs => rw [← hzip, List.map_map]
          rfl
        simp only [attemptBatch, hfault, hcomplete, hreplies]
        exact .completed hfault hcomplete
    · have hrefused : Executes turn conn (batch.map .complete) conn
          ((batch.map Request.complete).map fun _ => .error error) := .refused hfault
      rw [List.map_map] at hrefused
      simp only [attemptBatch, hfault]
      exact hrefused

end ResultsConn

end Maqistor
