import Maqistor.Store.Calls
import Maqistor.Ingest.Claim
import Maqistor.Lib.Runs

/-! The store with its calls in flight. Every step is one commit or read of one database, and any
call may take the next step; a crash drops the calls in flight, and the store opens again after
`heal_orphan_claims` has gone through the claims one by one. -/

namespace Maqistor

inductive Phase where
  | serving
  | closed
  | healing (orphans : List (Int × String))
deriving DecidableEq, Repr

/-- The store, the calls in flight under their numbers, and the attempts that claims have drawn
dispatch ids for. -/
structure System where
  store : Store
  phase : Phase
  pool : List (Nat × Stage)
  nextCall : Nat
  issued : List (Int × String)
deriving DecidableEq

inductive Action where
  | upsertQueue (env : Env) (queue : JobQueue)
  | enqueue (batch : List AcceptedJob)
  | claimBatch (env : Env) (newDispatchId : Nat → String) (claimedAt : Int) (queueName : String)
      (limit : Nat)
  | complete (env : Env) (batch : List (PendingCompletion × Submitter))
  | releaseClaim (jobId : Int) (dispatchId : String)
  | recoverStaleLeases (choice : Table.Choice) (now : Int)
  | cleanupExpiredRecords (cutoff : Int)
  | getJob (jobId : Int)
  | resume (env : Env) (i : Nat)
  | fault (error : StoreError) (i : Nat)
  | crash
  | reopen (choice : Table.Choice)
  | heal (env : Env)

/-- The replies of a step, with the numbers of the calls they end. -/
abbrev Replied := List (Nat × Reply)

namespace System

/-- The calls that go on. -/
def waiting (items : List (Progress × Nat)) : List (Nat × Stage) :=
  items.filterMap fun item =>
    match item.1 with
    | .wait stage => some (item.2, stage)
    | .done _ => none

/-- The calls that end, with their replies. -/
def ended (items : List (Progress × Nat)) : Replied :=
  items.filterMap fun item =>
    match item.1 with
    | .wait _ => none
    | .done reply => some (item.2, reply)

/-- New calls that have taken their first step together. -/
def enter (sys : System) (store : Store) (progress : List Progress) : System × Replied :=
  ({ sys with
      store := store, pool := waiting (progress.zipIdx sys.nextCall) ++ sys.pool
      nextCall := sys.nextCall + progress.length },
    ended (progress.zipIdx sys.nextCall))

/-- A call in flight that has taken its next step. -/
def proceed (sys : System) (i id : Nat) (store : Store) (progress : Progress) :
    System × Replied :=
  ({ sys with store := store, pool := waiting [(progress, id)] ++ sys.pool.eraseIdx i },
    ended [(progress, id)])

/-- `new_dispatch_id` never repeats: the ids of a claim are distinct and new. -/
def FreshIds (issued : List (Int × String)) (claimed : List IngestClaimed) : Prop :=
  (claimed.map IngestClaimed.dispatchId).Nodup ∧
    ∀ entry ∈ claimed, entry.dispatchId ∉ issued.map Prod.snd

instance (issued : List (Int × String)) (claimed : List IngestClaimed) :
    Decidable (FreshIds issued claimed) :=
  inferInstanceAs (Decidable (_ ∧ _))

/-- The steps of a store that is open. -/
def serve (sys : System) : Action → Option (System × Replied)
  | .upsertQueue env queue =>
    let (store, progress) := sys.store.upsertQueue env queue
    some (sys.enter store [progress])
  | .enqueue batch =>
    let (store, progress) := sys.store.enqueueBatch batch
    some (sys.enter store progress)
  | .claimBatch env newDispatchId claimedAt queueName limit =>
    let (store, progress) := sys.store.claimBatch env newDispatchId claimedAt queueName limit
    if FreshIds sys.issued progress.awaiting then
      let (sys', replied) := sys.enter store [progress]
      some ({ sys' with issued := progress.awaiting.map IngestClaimed.key ++ sys.issued }, replied)
    else none
  | .complete env batch =>
    let (store, progress) := sys.store.completeBatch env batch
    some (sys.enter store progress)
  | .releaseClaim jobId dispatchId =>
    some (sys.enter sys.store [sys.store.releaseClaim jobId dispatchId])
  | .recoverStaleLeases choice now =>
    let (store, progress) := sys.store.recoverStaleLeases choice now
    some (sys.enter store [progress])
  | .cleanupExpiredRecords cutoff =>
    let (store, progress) := sys.store.cleanupIngest cutoff
    some (sys.enter store [progress])
  | .getJob jobId => some (sys.enter sys.store [sys.store.composedJob .getJob jobId])
  | .resume env i =>
    match sys.pool[i]? with
    | none => none
    | some (id, stage) =>
      let (store, progress) := sys.store.advance env stage
      some (sys.proceed i id store progress)
  | .fault error i =>
    match sys.pool[i]? with
    | none => none
    | some (id, stage) => some (sys.proceed i id sys.store (Store.faulted error stage))
  | .crash => some ({ sys with phase := .closed, pool := [] }, [])
  | .reopen _ => none
  | .heal _ => none

def step (sys : System) (action : Action) : Option (System × Replied) :=
  match sys.phase, action with
  | .serving, action => sys.serve action
  | .closed, .reopen choice =>
    some ({ sys with
      store := { sys.store with queueNames := sys.store.ingest.queueNames }
      phase := .healing (sys.store.claims choice) }, [])
  | .healing [], .heal _ => some ({ sys with phase := .serving }, [])
  | .healing (key :: rest), .heal env =>
    some ({ sys with store := sys.store.healOrphan env key, phase := .healing rest }, [])
  | .closed, .crash => some (sys, [])
  | .healing _, .crash => some ({ sys with phase := .closed }, [])
  | _, _ => none

/-- Two new database files, opened. -/
def initial : System :=
  { store := ⟨⟨[], []⟩, [], ⟨[], []⟩⟩, phase := .serving, pool := [], nextCall := 0, issued := [] }

abbrev Run (admits : System → Action → Prop) : System → List Replied → System → Prop :=
  Runs.Run step admits

end System

/-- The store of the concrete runs: its queue is known to both databases. -/
def mailStore (accepted : List AcceptedJob) (executions : List Execution) : Store :=
  ⟨⟨[mailQueue], accepted⟩, ["mail"], ⟨[mailQueue], executions⟩⟩

/-- The first actions of the concrete runs: the queue is written and jobs are enqueued. -/
def mailActions (jobs : List AcceptedJob) : List Action :=
  [.upsertQueue (.atTime 0) mailQueue, .resume (.atTime 0) 0, .enqueue jobs]

/-- A claim of the concrete runs, with the dispatch ids `name ++ "0"`, `name ++ "1"` and so on. -/
def mailClaim (name : String) (now : Int) (limit : Nat) : Action :=
  .claimBatch (.atTime now) (fun i => name ++ toString i) now "mail" limit

end Maqistor
