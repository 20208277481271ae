import Maqistor.Dispatcher.Effects

/-! Which steps put a dispatch on the channel of a connection: only a call of `dispatch`, and it
puts there the frame of its own job. So jobs with distinct dispatch ids go to one connection each,
once. -/

namespace Maqistor.Server

/-- The dispatches that were put on a connection's channel. -/
def dispatchesTo (server : Server) (connection : Nat) : List WorkerMessage :=
  (server.sentTo connection).filter fun message => message.dispatchIds.isSome

/-- What a step does to the dispatches on the channels: nothing, or it adds the frame of the job
that the call of `dispatch` is for. -/
inductive DispatchStep (server server' : Server) (action : Action) : Prop
  | quiet (h : ∀ connection, server'.dispatchesTo connection = server.dispatchesTo connection)
  | dispatch {permit target : Nat} {job : Job} {dispatchId : String}
      (haction : action = .dispatch permit job) (hid : job.dispatchId = some dispatchId)
      (h : ∀ connection, server'.dispatchesTo connection = if connection = target then
        server.dispatchesTo connection ++ [dispatchMessage job dispatchId]
        else server.dispatchesTo connection)

section Step

variable {codec : Codec} {allowed : List String} {server server' : Server} {action : Action}
  {event : Option WorkerEvent}

theorem ReadStep.queued {connection : Nat} {instanceId : Uuid} {input : Input}
    (h : ReadStep server connection instanceId input server') : server'.queued = server.queued := by
  cases h with
  | drain hstate hqueued => exact send_queued _ _ _
  | stopped hstate hqueued => exact send_queued _ _ _
  | _ => rfl

/-- Only `dispatch` queues a dispatch. -/
theorem transition_queued (h : Transition codec allowed server action server' event)
    (hother : ∀ permit job, action ≠ .dispatch permit job) : server'.queued = server.queued := by
  cases h with
  | readFirst hconn hhandler =>
    unfold readFirst
    split
    · split <;> rfl
    · rfl
  | readNext hconn hhandler => exact (readNext_step server _ _ _).queued
  | enroll hconn hhandler =>
    unfold enroll
    split <;> rfl
  | announce hconn hhandler => exact send_queued _ _ _
  | writeNext hconn hwriting hchannel =>
    unfold writeNext
    split <;> rfl
  | release hpermit =>
    unfold releasePermit
    split <;> rfl
  | dispatch hpermit => exact absurd rfl (hother _ _)
  | resume hcall hack =>
    unfold finish releaseDispatched
    split
    · rfl
    · split <;> rfl
  | _ => rfl

theorem dispatchesTo_same (h : SameSent server server') (connection : Nat) :
    server'.dispatchesTo connection = server.dispatchesTo connection := by
  rw [dispatchesTo, h, dispatchesTo]

theorem dispatchesTo_push {target : Nat} {message : WorkerMessage}
    (h : ∀ connection, server'.sentTo connection = if connection = target then
      server.sentTo connection ++ [message] else server.sentTo connection) (connection : Nat) :
    server'.dispatchesTo connection = if connection = target then
      server.dispatchesTo connection ++ if message.dispatchIds.isSome then [message] else []
      else server.dispatchesTo connection := by
  rw [dispatchesTo, h]
  split
  · rw [List.filter_append, List.filter_singleton, dispatchesTo]
    cases message.dispatchIds.isSome <;> rfl
  · rfl

theorem dispatchLocked_dispatches (server : Server) (permit : ReservedDispatch) (job : Job)
    (dispatchId : String) :
    (∀ connection, (server.dispatchLocked permit job dispatchId).dispatchesTo connection =
      server.dispatchesTo connection) ∨
    ∃ target, ∀ connection, (server.dispatchLocked permit job dispatchId).dispatchesTo connection =
      if connection = target then server.dispatchesTo connection ++ [dispatchMessage job dispatchId]
      else server.dispatchesTo connection := by
  simp only [dispatchLocked]
  split
  · exact Or.inl fun _ => rfl
  · next worker hworker =>
    split
    · exact Or.inl fun _ => rfl
    · split
      · exact Or.inl fun _ => rfl
      · rcases send_sent server worker.outbound (dispatchMessage job dispatchId) with
          ⟨-, hsent⟩ | ⟨-, hsent⟩
        · exact Or.inr ⟨worker.outbound, dispatchesTo_push hsent⟩
        · exact Or.inl (dispatchesTo_same hsent)

theorem transition_dispatches (h : Transition codec allowed server action server' event) :
    DispatchStep server server' action := by
  by_cases hdispatch : ∃ permit job, action = .dispatch permit job
  · obtain ⟨permit, job, rfl⟩ := hdispatch
    cases h with
    | @dispatch _ held _ hpermit =>
      unfold Server.dispatch
      cases hid : job.dispatchId with
      | none => exact .quiet fun _ => rfl
      | some dispatchId =>
        rcases dispatchLocked_dispatches { server with
            permits := server.permits.eraseIdx permit, issued := dispatchId :: server.issued }
            held job dispatchId with hquiet | ⟨target, hpush⟩
        · exact .quiet hquiet
        · exact .dispatch rfl hid hpush
  · have hqueued := transition_queued h fun permit job heq => hdispatch ⟨permit, job, heq⟩
    cases transition_channels h with
    | same hsent => exact .quiet (dispatchesTo_same hsent)
    | registered hsent =>
      refine .quiet fun connection => (dispatchesTo_push hsent connection).trans ?_
      simp [WorkerMessage.dispatchIds]
    | draining hsent =>
      refine .quiet fun connection => (dispatchesTo_push hsent connection).trans ?_
      simp [WorkerMessage.dispatchIds]
    | dispatch hsent hadded =>
      have hlength := congrArg List.length (hadded.symm.trans hqueued)
      simp at hlength

end Step

/-! ### Jobs with distinct dispatch ids -/

/-- The job that a step is to dispatch. -/
def Action.job? : Action → Option Job
  | .dispatch _ job => some job
  | _ => none

/-- The dispatch ids that were put on a connection's channel. -/
def idsTo (server : Server) (connection : Nat) : List String :=
  ((server.dispatchesTo connection).filterMap WorkerMessage.dispatchIds).map Prod.snd

/-- What was dispatched are jobs that were handed over, each of them on one channel and once. -/
structure Assigned (server : Server) (handed : List Job) : Prop where
  jobs : ∀ connection, ∀ message ∈ server.dispatchesTo connection, ∃ job ∈ handed, ∃ dispatchId,
    job.dispatchId = some dispatchId ∧ message = dispatchMessage job dispatchId
  distinct : ∀ connection, (server.idsTo connection).Nodup
  apart : ∀ {connection other : Nat} {dispatchId : String}, dispatchId ∈ server.idsTo connection →
    dispatchId ∈ server.idsTo other → connection = other

section Assigned

variable {codec : Codec} {allowed : List String} {server server' : Server} {action : Action}
  {event : Option WorkerEvent} {handed : List Job}

theorem initial_assigned : initial.Assigned [] where
  jobs connection message hmem := by simp [dispatchesTo, sentTo, initial] at hmem
  distinct connection := by simp [idsTo, dispatchesTo, sentTo, initial]
  apart hmem := by simp [idsTo, dispatchesTo, sentTo, initial] at hmem

theorem Assigned.id_handed (h : server.Assigned handed) {connection : Nat} {dispatchId : String}
    (hmem : dispatchId ∈ server.idsTo connection) : ∃ job ∈ handed, job.dispatchId = some dispatchId := by
  obtain ⟨ids, hids, rfl⟩ := List.mem_map.mp hmem
  obtain ⟨message, hmessage, hfound⟩ := List.mem_filterMap.mp hids
  obtain ⟨job, hjob, id, hid, rfl⟩ := h.jobs connection message hmessage
  obtain rfl := Option.some.inj hfound
  exact ⟨job, hjob, hid⟩

theorem Assigned.of_same (h : server.Assigned handed)
    (hsame : ∀ connection, server'.dispatchesTo connection = server.dispatchesTo connection)
    (more : List Job) : server'.Assigned (handed ++ more) where
  jobs connection message hmem := by
    obtain ⟨job, hjob, hrest⟩ := h.jobs connection message (hsame connection ▸ hmem)
    exact ⟨job, List.mem_append_left _ hjob, hrest⟩
  distinct connection := by
    rw [idsTo, hsame]
    exact h.distinct connection
  apart hmem hother := by
    rw [idsTo, hsame] at hmem hother
    exact h.apart hmem hother

/-- A job with a dispatch id that no job had before goes on one channel. -/
theorem Assigned.push (h : server.Assigned handed) {job : Job} {dispatchId : String} {target : Nat}
    (hid : job.dispatchId = some dispatchId)
    (hfresh : ∀ other ∈ handed, other.dispatchId ≠ some dispatchId)
    (hpush : ∀ connection, server'.dispatchesTo connection = if connection = target then
      server.dispatchesTo connection ++ [dispatchMessage job dispatchId]
      else server.dispatchesTo connection) : server'.Assigned (handed ++ [job]) := by
  have hids : ∀ connection, server'.idsTo connection = if connection = target then
      server.idsTo connection ++ [dispatchId] else server.idsTo connection := by
    intro connection
    rw [idsTo, hpush, idsTo]
    split
    · rw [List.filterMap_append, List.map_append]
      rfl
    · rfl
  have hnew : ∀ connection, dispatchId ∉ server.idsTo connection := fun connection hmem => by
    obtain ⟨other, hother, heq⟩ := h.id_handed hmem
    exact hfresh other hother heq
  refine ⟨fun connection message hmem => ?_, fun connection => ?_, ?_⟩
  · have hcases : message ∈ server.dispatchesTo connection ∨
        message = dispatchMessage job dispatchId := by
      rw [hpush] at hmem
      split at hmem
      · exact (List.mem_append.mp hmem).imp_right List.mem_singleton.mp
      · exact Or.inl hmem
    rcases hcases with hold | rfl
    · obtain ⟨other, hother, hrest⟩ := h.jobs connection message hold
      exact ⟨other, List.mem_append_left _ hother, hrest⟩
    · exact ⟨job, by simp, dispatchId, hid, rfl⟩
  · rw [hids]
    split
    · exact List.nodup_append.mpr ⟨h.distinct connection, List.nodup_singleton _,
        fun id hmem last hlast heq => hnew connection (List.mem_singleton.mp hlast ▸ heq ▸ hmem)⟩
    · exact h.distinct connection
  · intro connection other id hmem hother
    have hwhere : ∀ {place : Nat}, id ∈ server'.idsTo place →
        id ∈ server.idsTo place ∨ (id = dispatchId ∧ place = target) := by
      intro place hplace
      rw [hids] at hplace
      split at hplace
      · next heq =>
        exact (List.mem_append.mp hplace).imp_right fun hlast => ⟨List.mem_singleton.mp hlast, heq⟩
      · exact Or.inl hplace
    rcases hwhere hmem with hold | ⟨rfl, hplace⟩ <;> rcases hwhere hother with hold' | ⟨heq, hplace'⟩
    · exact h.apart hold hold'
    · exact absurd (heq ▸ hold) (hnew _)
    · exact absurd hold' (hnew _)
    · rw [hplace, hplace']

theorem transition_assigned (h : server.Assigned handed)
    (hfresh : ∀ job ∈ action.job?, ∀ dispatchId ∈ job.dispatchId, ∀ other ∈ handed,
      other.dispatchId ≠ some dispatchId)
    (hstep : Transition codec allowed server action server' event) :
    server'.Assigned (handed ++ action.job?.toList) := by
  cases transition_dispatches hstep with
  | quiet hsame => exact h.of_same hsame _
  | dispatch haction hid hpush =>
    subst haction
    exact h.push hid (hfresh _ rfl _ hid) hpush

end Assigned

end Maqistor.Server
