import Maqistor.Store.Rows
import Maqistor.Store.Observers

/-! An accepted job lasts: from the reply to its enqueue on, through crashes and reopenings, its row
is there with the queue, the payload and the time that it was enqueued with, and this is what every
later call reports about it. -/

namespace Maqistor

open ResultsConn IngestConn

/-! ### What a call has read about jobs -/

/-- The jobs that a call in flight will report. -/
def Stage.mentions : Stage → List JobContent
  | .dispatch claimed _ => claimed.map IngestClaimed.content
  | .readExecution _ accepted => [accepted.content]
  | .rependStale _ _ jobs => jobs.map Job.content
  | .readStaleAccepted _ _ jobs => jobs.map Job.content
  | .readStaleExecution accepted _ jobs => accepted.content :: jobs.map Job.content
  | _ => []

/-- The jobs that a reply reports. -/
def Reply.mentions : Reply → List JobContent
  | .accepted (.ok row) => [row.content]
  | .claimed (.ok jobs) => jobs.map Job.content
  | .completed (.ok (some found)) => [found.content]
  | .recovered (.ok jobs) => jobs.map Job.content
  | .job (.ok found) => [found.content]
  | _ => []

def Progress.mentions : Progress → List JobContent
  | .wait stage => stage.mentions
  | .done reply => reply.mentions

/-- What a store says about its jobs. -/
def Store.contents (store : Store) : List JobContent :=
  store.ingest.acceptedJobs.map AcceptedJob.content

section Mentions

variable {store store' : Store} {stage : Stage} {content : JobContent}

theorem acceptedRow_content {jobId : Int} {accepted : AcceptedJob}
    (h : store.ingest.acceptedRow jobId = .ok accepted) : accepted.content ∈ store.contents := by
  unfold IngestConn.acceptedRow at h
  split at h
  · cases h
  · next row hlookup =>
    obtain rfl := Except.ok.inj h
    exact List.mem_map_of_mem (Table.mem_of_lookup hlookup)

theorem composedJob_mentions {reader : Reader} {jobId : Int}
    (h : content ∈ (store.composedJob reader jobId).mentions) : content ∈ store.contents := by
  unfold Store.composedJob at h
  split at h
  · cases reader <;> cases h
  · next accepted hrow =>
    obtain rfl := List.mem_singleton.mp h
    exact acceptedRow_content hrow

theorem recoverItems_mentions (jobs : List Job) (items : List RecoveredStale) :
    (Store.recoverItems jobs items).mentions = jobs.map Job.content := by
  cases items with
  | nil => rfl
  | cons item rest =>
    rw [Store.recoverItems]
    split <;> rfl

theorem undoClaims_mentions (error : StoreError) (claimed : List IngestClaimed) :
    (Store.undoClaims error claimed).mentions = [] := by
  cases claimed <;> rfl

theorem afterCompletion_mentions (request : PendingCompletion) (submitter : Submitter)
    (result : Except StoreError CompletionDisposition) :
    (Store.afterCompletion request submitter result).mentions = [] := by
  rcases result with error | disposition
  · cases submitter <;> rfl
  · cases submitter <;> cases disposition <;> rfl

theorem zipWith_jobFromClaimed_content {claimed : List IngestClaimed}
    {dispatched : List DispatchedExecution}
    (h : content ∈ (List.zipWith Store.jobFromClaimed claimed dispatched).map Job.content) :
    content ∈ claimed.map IngestClaimed.content := by
  obtain ⟨job, hjob, rfl⟩ := List.mem_map.mp h
  rw [← List.map_uncurry_zip_eq_zipWith] at hjob
  obtain ⟨pair, hpair, rfl⟩ := List.mem_map.mp hjob
  exact List.mem_map_of_mem (List.of_mem_zip hpair).1

/-- A step of a call in flight reports what the call has read, or what the store says. -/
theorem advance_mentions (env : Env) (h : content ∈ (store.advance env stage).2.mentions) :
    content ∈ stage.mentions ∨ content ∈ store.contents := by
  cases stage with
  | upsertResults queue =>
    simp only [Store.advance] at h
    split at h <;> cases h
  | dispatch claimed claimedAt =>
    simp only [Store.advance, Store.dispatch] at h
    split at h
    · rw [undoClaims_mentions] at h
      cases h
    · exact Or.inl (zipWith_jobFromClaimed_content h)
  | undoClaim row rest error =>
    rw [Store.advance, undoClaims_mentions] at h
    cases h
  | rependCompleted submitter jobId dispatchId => cases submitter <;> cases h
  | readAccepted jobId => exact Or.inr (composedJob_mentions h)
  | readExecution reader accepted =>
    simp only [Store.advance] at h
    cases hread : store.results.readExecution accepted.id with
    | error error =>
      rw [hread] at h
      cases reader <;> cases h
    | ok execution =>
      rw [hread] at h
      cases reader <;> exact Or.inl (by simpa [Progress.mentions, Reply.mentions, Store.composedReply,
        Except.map, Stage.mentions] using h)
  | rependStale item rest jobs => exact Or.inl h
  | readStaleAccepted item rest jobs =>
    simp only [Store.advance] at h
    split at h
    · cases h
    · next accepted hrow =>
      rcases List.mem_cons.mp h with rfl | hjobs
      · exact Or.inr (acceptedRow_content hrow)
      · exact Or.inl hjobs
  | readStaleExecution accepted rest jobs =>
    simp only [Store.advance] at h
    split at h
    · cases h
    · rw [recoverItems_mentions, List.map_append, List.mem_append] at h
      left
      rcases h with hjobs | hlast
      · exact List.mem_cons_of_mem _ hjobs
      · rw [List.map_singleton, List.mem_singleton, fromAccepted_content] at hlast
        exact hlast ▸ List.mem_cons_self
  | abandon jobId dispatchId => cases h
  | rependReleased jobId dispatchId => cases h
  | cleanupResults cutoff deleted => cases h

theorem faulted_mentions (error : StoreError) (stage : Stage) :
    (Store.faulted error stage).mentions = [] := by
  cases stage with
  | dispatch claimed claimedAt => exact undoClaims_mentions error claimed
  | undoClaim row rest first => exact undoClaims_mentions first rest
  | rependCompleted submitter jobId dispatchId => cases submitter <;> rfl
  | readExecution reader accepted => cases reader <;> rfl
  | _ => rfl

theorem taken_contents {newDispatchId : Nat → String} {queueName : String} {limit : Nat}
    (h : content ∈ (taken newDispatchId (pendingClaims queueName limit store.ingest)).map
      IngestClaimed.content) : content ∈ store.contents := by
  obtain ⟨entry, hentry, rfl⟩ := List.mem_map.mp h
  obtain ⟨item, i, hitem, -, rfl⟩ := mem_taken hentry
  obtain ⟨row, hrow, hjoin⟩ := List.mem_filterMap.mp (List.mem_of_mem_take hitem)
  obtain ⟨queue, -, rfl⟩ := Option.map_eq_some_iff.mp hjoin
  rw [List.mem_insertionSort, List.mem_filter] at hrow
  exact List.mem_map.mpr ⟨row, hrow.1, rfl⟩

/-- A claim holds what the rows it marks say. -/
theorem claimBatch_mentions {env : Env} {newDispatchId : Nat → String} {claimedAt : Int}
    {queueName : String} {limit : Nat}
    (hids : (store.ingest.acceptedJobs.map AcceptedJob.id).Nodup)
    (h : content ∈ (store.claimBatch env newDispatchId claimedAt queueName limit).2.mentions) :
    content ∈ store.contents := by
  unfold Store.claimBatch at h
  by_cases hqueue : queueName ∈ store.queueNames
  · rw [claimBatch_eq env newDispatchId limit hqueue hids] at h
    split at h
    · cases h
    · cases h
    · next heq =>
      obtain rfl := Except.ok.inj (Prod.mk.inj heq).2
      exact taken_contents h
  · rw [IngestConn.claimBatch, if_neg hqueue] at h
    cases h

/-- The first step of a call reports what the store says after it. -/
theorem start_mentions {action : Action} {progress : List Progress}
    (hids : (store.ingest.acceptedJobs.map AcceptedJob.id).Nodup)
    (h : store.start action = some (store', progress)) {first : Progress} (hfirst : first ∈ progress)
    (hcontent : content ∈ first.mentions) : content ∈ store'.contents := by
  cases action with
  | upsertQueue env queue =>
    obtain ⟨-, rfl⟩ := eq_of_some_eq h
    obtain rfl := List.mem_singleton.mp hfirst
    rcases Store.upsertQueue_cases env queue store with ⟨error, heq⟩ | ⟨queues, names, reply, heq, -⟩
    all_goals
      rw [heq] at hcontent
      cases hcontent
  | enqueue batch =>
    obtain ⟨jobs, replies, heq, hreplies⟩ := Store.enqueueBatch_cases batch store
    rw [Store.start, heq] at h
    obtain ⟨rfl, rfl⟩ := eq_of_some_eq h
    obtain ⟨reply, hreply, rfl⟩ := List.mem_map.mp hfirst
    cases reply with
    | error error => cases hcontent
    | ok job =>
      obtain rfl := List.mem_singleton.mp hcontent
      rw [Store.contents, List.map_append, List.map_map]
      exact List.mem_append_right _ (List.mem_map.mpr ⟨job, hreplies job hreply, rfl⟩)
  | claimBatch env newDispatchId claimedAt queueName limit =>
    have hrows := start_rows hids h
    obtain ⟨-, rfl⟩ := eq_of_some_eq h
    obtain rfl := List.mem_singleton.mp hfirst
    exact hrows.keeps (claimBatch_mentions hids hcontent) fun _ hcleanup => by cases hcleanup
  | complete env batch =>
    obtain ⟨-, rfl⟩ := eq_of_some_eq h
    unfold Store.completeBatch at hfirst
    split at hfirst
    all_goals
      obtain ⟨pair, -, rfl⟩ := List.mem_map.mp hfirst
      rw [afterCompletion_mentions] at hcontent
      cases hcontent
  | releaseClaim jobId dispatchId =>
    obtain ⟨-, rfl⟩ := eq_of_some_eq h
    obtain rfl := List.mem_singleton.mp hfirst
    unfold Store.releaseClaim at hcontent
    split at hcontent
    · cases hcontent
    · split at hcontent <;> cases hcontent
  | recoverStaleLeases choice now =>
    obtain ⟨-, rfl⟩ := eq_of_some_eq h
    obtain rfl := List.mem_singleton.mp hfirst
    unfold Store.recoverStaleLeases at hcontent
    split at hcontent
    · cases hcontent
    · rw [recoverItems_mentions] at hcontent
      cases hcontent
  | cleanupExpiredRecords cutoff =>
    obtain ⟨-, rfl⟩ := eq_of_some_eq h
    obtain rfl := List.mem_singleton.mp hfirst
    cases hcontent
  | getJob jobId =>
    obtain ⟨rfl, rfl⟩ := eq_of_some_eq h
    obtain rfl := List.mem_singleton.mp hfirst
    exact composedJob_mentions hcontent
  | _ => cases h

end Mentions

/-! ### Jobs that are not found -/

/-- The job that a reader or a release has not found. -/
def Reply.missing : Reply → Option Int
  | .job (.error (.notFound jobId)) => some jobId
  | .released (.error (.notFound jobId)) => some jobId
  | _ => none

def Progress.missing : Progress → Option Int
  | .wait _ => none
  | .done reply => reply.missing

section Missing

variable {store store' : Store} {stage : Stage} {jobId : Int}

theorem acceptedRow_error {id : Int} {error : StoreError}
    (h : store.ingest.acceptedRow id = .error error) :
    error = .notFound id ∧ id ∉ store.contents.map JobContent.id := by
  unfold IngestConn.acceptedRow at h
  split at h
  · next hlookup =>
    refine ⟨(Except.error.inj h).symm, fun hmem => ?_⟩
    rw [Store.contents, List.map_map] at hmem
    obtain ⟨row, hrow, hid⟩ := List.mem_map.mp hmem
    exact Table.lookup_eq_none.mp hlookup row hrow hid
  · cases h

theorem readExecution_error {conn : ResultsConn} {id : Int} {error : StoreError}
    (h : conn.readExecution id = .error error) : error ≠ .notFound jobId := by
  rintro rfl
  unfold ResultsConn.readExecution at h
  split at h
  · cases h
  · unfold rowCount at h
    split at h <;> cases h

/-- The first step of a call misses only what the store does not have. -/
theorem start_missing {action : Action} {progress : List Progress}
    (h : store.start action = some (store', progress)) {first : Progress} (hfirst : first ∈ progress)
    (hmissing : first.missing = some jobId) : jobId ∉ store.contents.map JobContent.id := by
  cases action with
  | upsertQueue env queue =>
    obtain ⟨-, rfl⟩ := eq_of_some_eq h
    obtain rfl := List.mem_singleton.mp hfirst
    rcases Store.upsertQueue_cases env queue store with ⟨error, heq⟩ | ⟨queues, names, reply, heq, -⟩
    all_goals
      rw [heq] at hmissing
      cases hmissing
  | enqueue batch =>
    obtain ⟨-, rfl⟩ := eq_of_some_eq h
    obtain ⟨reply, -, rfl⟩ := List.mem_map.mp hfirst
    cases hmissing
  | claimBatch env newDispatchId claimedAt queueName limit =>
    obtain ⟨-, rfl⟩ := eq_of_some_eq h
    obtain rfl := List.mem_singleton.mp hfirst
    unfold Store.claimBatch at hmissing
    split at hmissing <;> cases hmissing
  | complete env batch =>
    obtain ⟨-, rfl⟩ := eq_of_some_eq h
    have hnone : ∀ request submitter result,
        (Store.afterCompletion request submitter result).missing = none := by
      intro request submitter result
      rcases result with error | disposition
      · cases submitter <;> rfl
      · cases submitter <;> cases disposition <;> rfl
    unfold Store.completeBatch at hfirst
    split at hfirst
    all_goals
      obtain ⟨pair, -, rfl⟩ := List.mem_map.mp hfirst
      rw [hnone] at hmissing
      cases hmissing
  | releaseClaim id dispatchId =>
    obtain ⟨-, rfl⟩ := eq_of_some_eq h
    obtain rfl := List.mem_singleton.mp hfirst
    unfold Store.releaseClaim at hmissing
    split at hmissing
    · next error herror =>
      obtain ⟨rfl, hnot⟩ := acceptedRow_error herror
      obtain rfl := Option.some.inj hmissing
      exact hnot
    · split at hmissing <;> cases hmissing
  | recoverStaleLeases choice now =>
    obtain ⟨-, rfl⟩ := eq_of_some_eq h
    obtain rfl := List.mem_singleton.mp hfirst
    unfold Store.recoverStaleLeases at hmissing
    split at hmissing
    · cases hmissing
    · next recovered _ =>
      cases recovered with
      | nil => cases hmissing
      | cons item rest =>
        rw [Store.recoverItems] at hmissing
        split at hmissing <;> cases hmissing
  | cleanupExpiredRecords cutoff =>
    obtain ⟨-, rfl⟩ := eq_of_some_eq h
    obtain rfl := List.mem_singleton.mp hfirst
    cases hmissing
  | getJob id =>
    obtain ⟨-, rfl⟩ := eq_of_some_eq h
    obtain rfl := List.mem_singleton.mp hfirst
    unfold Store.composedJob at hmissing
    split at hmissing
    · next error herror =>
      obtain ⟨rfl, hnot⟩ := acceptedRow_error herror
      obtain rfl := Option.some.inj hmissing
      exact hnot
    · cases hmissing
  | _ => cases h

/-- A later step misses nothing. -/
theorem advance_missing (env : Env) (store : Store) (stage : Stage) :
    (store.advance env stage).2.missing = none := by
  have hundo : ∀ error claimed, (Store.undoClaims error claimed).missing = none := by
    intro error claimed
    cases claimed <;> rfl
  cases stage with
  | upsertResults queue =>
    simp only [Store.advance]
    split <;> rfl
  | dispatch claimed claimedAt =>
    simp only [Store.advance, Store.dispatch]
    split
    · exact hundo _ _
    · rfl
  | undoClaim row rest error => exact hundo error rest
  | rependCompleted submitter jobId dispatchId => cases submitter <;> rfl
  | readAccepted jobId =>
    simp only [Store.advance, Store.composedJob]
    split <;> rfl
  | readExecution reader accepted =>
    simp only [Store.advance]
    cases hread : store.results.readExecution accepted.id with
    | ok execution => cases reader <;> rfl
    | error error =>
      cases reader with
      | complete => rfl
      | getJob =>
        cases error with
        | notFound id => exact absurd rfl (readExecution_error hread)
        | queueNotFound name => rfl
        | internal message => rfl
  | readStaleAccepted item rest jobs =>
    simp only [Store.advance]
    split <;> rfl
  | readStaleExecution accepted rest jobs =>
    simp only [Store.advance]
    split
    · rfl
    · cases rest with
      | nil => rfl
      | cons item rest =>
        rw [Store.recoverItems]
        split <;> rfl
  | _ => rfl

theorem faulted_missing {error : StoreError} (h : (Store.faulted error stage).missing = some jobId) :
    error = .notFound jobId := by
  have hundo : ∀ error claimed, (Store.undoClaims error claimed).missing = none := by
    intro error claimed
    cases claimed <;> rfl
  have hnotFound : ∀ {reply : Reply}, reply.missing = some jobId →
      reply = .job (.error error) ∨ reply = .released (.error error) → error = .notFound jobId := by
    rintro reply hreply (rfl | rfl)
    all_goals
      cases error with
      | notFound id => exact congrArg _ (Option.some.inj hreply)
      | queueNotFound name => cases hreply
      | internal message => cases hreply
  cases stage with
  | dispatch claimed claimedAt =>
    rw [Store.faulted, hundo] at h
    cases h
  | undoClaim row rest first =>
    rw [Store.faulted, hundo] at h
    cases h
  | rependCompleted submitter jobId dispatchId => cases submitter <;> cases h
  | readExecution reader accepted =>
    cases reader with
    | getJob => exact hnotFound h (Or.inl rfl)
    | complete => cases h
  | abandon id dispatchId => exact hnotFound h (Or.inr rfl)
  | rependReleased id dispatchId => exact hnotFound h (Or.inr rfl)
  | _ => cases h

end Missing

/-! ### An accepted job lasts -/

/-- The actions under which a job is retained: no cleanup finds it expired, and no database claims
by an error of its own that the job is missing. -/
def Retains (content : JobContent) (_ : System) : Action → Prop
  | .cleanupExpiredRecords cutoff => cutoff ≤ content.createdAt
  | .fault error _ => error ≠ .notFound content.id
  | _ => True

instance (content : JobContent) (sys : System) (action : Action) :
    Decidable (Retains content sys action) := by
  unfold Retains
  split <;> infer_instance

/-- A job is there with its content, and the calls from a number on have read nothing else about
it. -/
structure Lasts (start : Nat) (content : JobContent) (sys : System) : Prop where
  ids : (sys.store.ingest.acceptedJobs.map AcceptedJob.id).Nodup
  stored : content ∈ sys.store.contents
  told : ∀ entry ∈ sys.pool, start ≤ entry.1 → ∀ other ∈ entry.2.mentions, other.id = content.id →
    other = content

/-- The replies to the calls from a number on report a job as it is, and none misses it. -/
def Truthful (start : Nat) (content : JobContent) (replied : Replied) : Prop :=
  ∀ id reply, (id, reply) ∈ replied → start ≤ id →
    (∀ other ∈ reply.mentions, other.id = content.id → other = content) ∧
      reply.missing ≠ some content.id

section Lasting

variable {sys sys' : System} {action : Action} {replied : Replied} {start : Nat} {content : JobContent}

theorem contents_inj {store : Store} (hids : (store.ingest.acceptedJobs.map AcceptedJob.id).Nodup)
    {a b : JobContent} (ha : a ∈ store.contents) (hb : b ∈ store.contents) (hid : a.id = b.id) :
    a = b := by
  obtain ⟨row, hrow, rfl⟩ := List.mem_map.mp ha
  obtain ⟨row', hrow', rfl⟩ := List.mem_map.mp hb
  rw [List.inj_on_of_nodup_map hids hrow hrow' hid]

theorem Lasts.rows (h : Lasts start content sys) (hok : Retains content sys action)
    (hstep : sys.step action = some (sys', replied)) :
    (sys'.store.ingest.acceptedJobs.map AcceptedJob.id).Nodup ∧ content ∈ sys'.store.contents := by
  have hrows := step_rows h.ids hstep
  refine ⟨hrows.ids h.ids, hrows.keeps h.stored fun cutoff hcutoff => ?_⟩
  rw [hcutoff] at hok
  exact hok

/-- A step keeps a job, and what it replies is true of it. -/
theorem step_lasts (h : Lasts start content sys) (hok : Retains content sys action)
    (hstep : sys.step action = some (sys', replied)) :
    Lasts start content sys' ∧ Truthful start content replied := by
  obtain ⟨hids', hstored'⟩ := h.rows hok hstep
  have hid : content.id ∈ sys.store.contents.map JobContent.id := List.mem_map_of_mem h.stored
  have hcases := step_moves hstep
  cases hcases with
  | @start _ store progress issued hphase hstart =>
    have htrue : ∀ first ∈ progress, ∀ other ∈ first.mentions, other.id = content.id →
        other = content := fun first hfirst other hother =>
      contents_inj hids' (start_mentions h.ids hstart hfirst hother) hstored'
    refine ⟨⟨hids', hstored', fun entry hentry hnumber => ?_⟩, fun id reply hreply _ => ?_⟩
    · rcases mem_enter_pool store hentry with hold | ⟨hnew, -⟩
      · exact h.told entry hold hnumber
      · exact htrue _ hnew
    · obtain ⟨hdone, -⟩ := mem_enter_replied hreply
      exact ⟨htrue _ hdone, fun hmissing => start_missing hstart hdone hmissing hid⟩
  | @resume i id stage env hphase hentry =>
    have hcall := List.mem_of_getElem? hentry
    have htrue : start ≤ id → ∀ other ∈ (sys.store.advance env stage).2.mentions,
        other.id = content.id → other = content := by
      intro hnumber other hother hsame
      rcases advance_mentions env hother with hread | hstored
      · exact h.told (id, stage) hcall hnumber other hread hsame
      · exact contents_inj h.ids hstored h.stored hsame
    refine ⟨⟨hids', hstored', fun entry hin hnumber => ?_⟩, fun n reply hreply hnumber => ?_⟩
    · rcases mem_proceed_pool hin with hold | ⟨hsame, hwait⟩
      · exact h.told entry hold hnumber
      · have hmentions := htrue (hsame ▸ hnumber)
        rw [hwait] at hmentions
        exact hmentions
    · obtain ⟨rfl, hdone⟩ := mem_proceed_replied hreply
      have hmentions := htrue hnumber
      have hmissing := advance_missing env sys.store stage
      rw [hdone] at hmentions hmissing
      refine ⟨hmentions, fun hsome => ?_⟩
      cases hsome.symm.trans hmissing
  | @fault i id stage error hphase hentry =>
    refine ⟨⟨hids', hstored', fun entry hin hnumber => ?_⟩, fun n reply hreply hnumber => ?_⟩
    · rcases mem_proceed_pool hin with hold | ⟨-, hwait⟩
      · exact h.told entry hold hnumber
      · have hmentions := faulted_mentions error stage
        rw [hwait] at hmentions
        intro other hother
        rw [show entry.2.mentions = [] from hmentions] at hother
        cases hother
    · obtain ⟨rfl, hdone⟩ := mem_proceed_replied hreply
      have hmentions := faulted_mentions error stage
      have hmissing : (Store.faulted error stage).missing = some content.id →
          error = .notFound content.id := faulted_missing
      rw [hdone] at hmentions hmissing
      refine ⟨fun other hother => ?_, fun hsome => hok (hmissing hsome)⟩
      rw [show reply.mentions = [] from hmentions] at hother
      cases hother
  | crash hphase => exact ⟨⟨hids', hstored', by simp⟩, by simp [Truthful]⟩
  | close hphase => exact ⟨⟨hids', hstored', h.told⟩, by simp [Truthful]⟩
  | reopen choice hphase => exact ⟨⟨hids', hstored', h.told⟩, by simp [Truthful]⟩
  | heal env hphase => exact ⟨⟨hids', hstored', h.told⟩, by simp [Truthful]⟩
  | opened env hphase => exact ⟨⟨hids', hstored', h.told⟩, by simp [Truthful]⟩

/-- The job that an enqueue accepts is the one that was asked for, under a new id. -/
theorem enqueueBatch_requested {batch : List AcceptedJob} {queueNames : List String} {conn : IngestConn}
    {job : AcceptedJob} (h : .ok job ∈ (IngestConn.enqueueBatch batch queueNames conn).2) :
    ∃ request ∈ batch, job = { request with id := job.id } := by
  unfold IngestConn.enqueueBatch at h
  dsimp only at h
  cases hfold : (Table.chunks rowsPerStatement (batch.filter fun job =>
      job.queueName ∈ queueNames)).foldlM (enqueueChunk conn.jobQueues) (conn.acceptedJobs, []) with
  | error error =>
    rw [hfold] at h
    obtain ⟨_, -, heq⟩ := List.mem_map.mp (mem_enqueueReplies (by simp) h)
    cases heq
  | ok state =>
    have hstate := foldlM_enqueueChunk (fun chunk => Table.chunks_ne_nil rowsPerStatement_pos) hfold
    rw [Table.chunks_flatten rowsPerStatement_pos, List.nil_append] at hstate
    rw [hfold, hstate] at h
    obtain ⟨found, hfound, heq⟩ := List.mem_map.mp (mem_enqueueReplies (by simp) h)
    obtain rfl := Except.ok.inj heq
    obtain ⟨item, hitem, rfl⟩ := List.mem_map.mp hfound
    exact ⟨item.1, (List.mem_filter.mp (List.fst_mem_of_mem_zipIdx hitem)).1, rfl⟩

/-- The calls that begin after the reply to an enqueue know the job as it was accepted. -/
theorem enqueue_lasts (hids : (sys.store.ingest.acceptedJobs.map AcceptedJob.id).Nodup)
    (hnumbered : Numbered sys) {batch : List AcceptedJob}
    (hstep : sys.step (.enqueue batch) = some (sys', replied)) {id : Nat} {job : AcceptedJob}
    (haccepted : (id, Reply.accepted (.ok job)) ∈ replied) :
    Lasts sys'.nextCall job.content sys' ∧ ∃ request ∈ batch, job = { request with id := job.id } := by
  have hids' := step_ids hstep hids
  have hnumbered' := step_numbered hstep hnumbered
  have hmoves := step_moves hstep
  cases hmoves with
  | @start _ store progress issued hphase hstart =>
    obtain ⟨hdone, -⟩ := mem_enter_replied haccepted
    refine ⟨⟨hids', start_mentions hids hstart hdone List.mem_cons_self, ?_⟩, ?_⟩
    · intro entry hentry hnumber
      exact absurd (hnumbered' entry hentry) (Nat.not_lt.mpr hnumber)
    · obtain ⟨-, rfl⟩ := eq_of_some_eq hstart
      obtain ⟨reply, hreply, hsame⟩ := List.mem_map.mp hdone
      obtain rfl := Reply.accepted.inj (Progress.done.inj hsame)
      exact enqueueBatch_requested hreply

/-- A job that an enqueue has accepted lasts: in every later state, with any calls, errors, crashes
and reopenings in between, its row is found under its id with the queue, the payload and the time of
the request. Calls that begin later report nothing else about the job, and none of them misses
it. -/
theorem accepted_job_lasts {sys'' : System} {events more : List Replied} {batch : List AcceptedJob}
    (h : System.Run (fun _ _ => True) System.initial events sys)
    (hstep : sys.step (.enqueue batch) = some (sys', replied)) {id : Nat} {job : AcceptedJob}
    (haccepted : (id, Reply.accepted (.ok job)) ∈ replied)
    (hmore : System.Run (Retains job.content) sys' more sys'') :
    (∃ request ∈ batch, job = { request with id := job.id }) ∧
    (∃ row, Table.lookup AcceptedJob.id job.id sys''.store.ingest.acceptedJobs = some row ∧
      row.content = job.content) ∧
    ∀ later ∈ more, Truthful sys'.nextCall job.content later := by
  have hnumbered : Numbered sys := h.invariant Numbered (by simp [Numbered, System.initial])
    fun hbefore _ hnext => step_numbered hnext hbefore
  obtain ⟨hlasts, hrequest⟩ := enqueue_lasts (run_ids h) hnumbered hstep haccepted
  obtain ⟨hend, htrue⟩ := hmore.events (Lasts sys'.nextCall job.content)
    (Truthful sys'.nextCall job.content) hlasts fun hbefore hok hnext => step_lasts hbefore hok hnext
  refine ⟨hrequest, ?_, htrue⟩
  obtain ⟨row, hrow, hcontent⟩ := List.mem_map.mp hend.stored
  have hid : row.id = job.id := congrArg JobContent.id hcontent
  exact ⟨row, hid ▸ Table.lookup_of_mem hend.ids hrow, hcontent⟩

/-- The queue is written and no job has come yet. -/
def mailOpened : System where
  store := mailStore [] []
  phase := .serving
  pool := []
  nextCall := 1
  issued := []

/-- The first job has been claimed, and the store has crashed before the dispatch and is open
again. -/
def mailReopened : System where
  store := mailStore [⟨1, "mail", [7], none, 3, 9⟩] []
  phase := .serving
  pool := [(3, .readExecution .getJob ⟨1, "mail", [7], none, 3, 9⟩)]
  nextCall := 4
  issued := [(1, "a0")]

theorem accepted_job_lasts_crash : ∃ row,
    Table.lookup AcceptedJob.id 1 mailReopened.store.ingest.acceptedJobs = some row ∧
      row.content = ⟨1, "mail", [7], 3⟩ := by
  obtain ⟨events, hrun⟩ :
      Runs.Reachable System.step (fun _ _ => True) System.initial mailOpened :=
    .of_exec [.upsertQueue (.atTime 0) mailQueue, .resume (.atTime 0) 0] (by decide)
  have hstep : mailOpened.step (.enqueue [⟨0, "mail", [7], none, 3, 3⟩]) =
      some ({ mailOpened with
        store := mailStore [⟨1, "mail", [7], none, 3, 3⟩] [], nextCall := 2 },
        [(1, .accepted (.ok ⟨1, "mail", [7], none, 3, 3⟩))]) := by decide
  obtain ⟨more, hmore⟩ : Runs.Reachable System.step (Retains ⟨1, "mail", [7], 3⟩)
      { mailOpened with store := mailStore [⟨1, "mail", [7], none, 3, 3⟩] [], nextCall := 2 }
      mailReopened :=
    .of_exec [mailClaim "a" 4 1, .crash, .reopen Table.Choice.first, .heal (.atTime 9),
      .heal (.atTime 9), .getJob 1] (by decide)
  exact (accepted_job_lasts hrun hstep (List.mem_singleton_self _) hmore).2.1

end Lasting

end Maqistor
