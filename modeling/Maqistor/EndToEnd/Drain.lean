import Maqistor.EndToEnd.Link

/-! Graceful drain, end to end: no dispatch follows `Draining`, the worker accepts every dispatch it
reads, and when `serve` returns after a drain every dispatch has been read and has its result. -/

namespace Maqistor

open Sdk

variable {P : Type}

namespace Link

section Joint

variable {config : Config P} {codec : Codec} {allowed : List String} {link link' : Link P}

/-- Once the session has read `Draining`, it has read every dispatch. -/
theorem Joint.dispatches_read (h : link.Joint config codec)
    (hdraining : WorkerMessage.draining ∈ link.session.received) :
    (link.server.sentTo link.connection).filterMap WorkerMessage.dispatchIds =
      link.session.received.filterMap WorkerMessage.dispatchIds := by
  rcases h.received_first with ⟨rest, hrest⟩ | hrefused
  · have horder := h.server.drainOrder.order link.connection
    rw [← hrest] at horder ⊢
    rw [List.filterMap_append, List.filterMap_eq_nil_iff.mpr (horder.after hdraining),
      List.append_nil]
  · exact absurd (hrefused.subset hdraining) (by simp [Server.unknownQueue])

/-- A dispatch that the session reads finds it before `Draining`. -/
theorem Joint.dispatch_accepted (h : link.Joint config codec) {message : WorkerMessage}
    (hnext : link.nextFrame = some message) (hdispatch : message.dispatchIds ≠ none) :
    link.session.state ≠ .draining := by
  intro hstate
  have hdraining := h.session.drained hstate
  obtain ⟨conn, hconn, hreceived⟩ := h.received
  have hextended := nextFrame_extends hconn hreceived hnext
  rcases (h.server.delivery.pipes hconn).written_first with hsent | hrefused
  · obtain ⟨rest, hrest⟩ := hextended.trans hsent
    have horder := h.server.drainOrder.order link.connection
    rw [Server.sentTo_eq hconn, ← hrest, List.append_assoc] at horder
    exact hdispatch (horder.after hdraining message (by simp))
  · rw [hrefused] at hreceived
    exact absurd (hreceived.subset hdraining) (by simp [Server.unknownQueue])

/-- A session that is not draining starts the job of a dispatch and goes on. -/
theorem handle_dispatch {session : Session P} {message : WorkerMessage}
    (hdispatch : message.dispatchIds ≠ none) (hstate : session.state ≠ .draining) :
    (session.handle config message).serve = .selecting ∧
      (session.handle config message).jobs.length = session.jobs.length + 1 := by
  cases message with
  | jobDispatch jobId dispatchId executionCount payload =>
    simp [Session.handle, Session.loop, hstate]
  | register | registered | jobResult | heartbeat | drain | draining | error =>
    exact absurd rfl hdispatch

end Joint

/-- In every run of a server and a session on one of its connections: nothing is dispatched on a
connection after `Draining`; a dispatch that the worker reads never ends its session; and when
`serve` has returned after a drain, the worker has read every dispatch that was put on its channel
and has written exactly one result for each. -/
theorem graceful_drain_safe (config : Config P) (codec : Codec) (allowed : List String)
    (server : Server)
    (hserver : Runs.Reachable (Server.step codec allowed) (fun _ _ => True) Server.initial server)
    (link : Link P)
    (h : Runs.Reachable (step config codec allowed) (fun _ _ => True) (start config server) link) :
    (∀ connection before after,
      link.server.sentTo connection = before ++ WorkerMessage.draining :: after →
      ∀ message ∈ after, message.dispatchIds = none) ∧
    (∀ message link', link.nextFrame = some message → message.dispatchIds ≠ none →
      link.step config codec allowed .toWorker = some (link', ()) →
      link'.session.serve = .selecting ∧
        link'.session.jobs.length = link.session.jobs.length + 1) ∧
    (link.session.serve = .returned (.ok ()) →
      (link.server.sentTo link.connection).filterMap WorkerMessage.dispatchIds =
        link.session.received.filterMap WorkerMessage.dispatchIds ∧
      (link.session.written.filterMap WorkerMessage.resultIds).Perm
        ((link.server.sentTo link.connection).filterMap WorkerMessage.dispatchIds)) := by
  have hjoint := reachable_joint (Server.reachable_regular hserver) h
  refine ⟨fun connection before after hsent => ?_, fun message link' hnext hdispatch hstep => ?_,
    fun hreturned => ?_⟩
  · have horder := hjoint.server.drainOrder.order connection
    rw [hsent, ← List.singleton_append, ← List.append_assoc] at horder
    exact horder.after (by simp)
  · have hstate := hjoint.dispatch_accepted hnext hdispatch
    cases step_move hstep with
    | toWorker hread hmove =>
      obtain rfl := Option.some.inj (hread.symm.trans hnext)
      rw [hmove.read.2]
      exact handle_dispatch hdispatch hstate
  · obtain ⟨hstate, hjoined⟩ := hjoint.session.returned hreturned
    have hunfailed : link.session.Unfailed := fun error heq => by simp [hreturned] at heq
    have hread := hjoint.dispatches_read (hjoint.session.drained hstate)
    refine ⟨hread, ?_⟩
    rw [hread, ← hjoint.session.spawned hunfailed]
    exact hjoint.session.results_perm fun task htask =>
      hjoint.session.joined hunfailed task htask (hjoined task htask)

/-- A job is dispatched, the worker announces its drain before it reads the job, and the
acknowledgement arrives while the job runs. -/
def drainedActions : List Action :=
  [.toServer, .server (.register 0), .server (.announce 0), .server (.write 0 true),
    .server (.acknowledge 0), .toWorker, .server (.reserve Table.Choice.first [⟨"mail", 1⟩]),
    .server (.dispatch 0 (Server.mailJob 1 "a" [1])), .server (.write 0 true), .session .shutdown,
    .session (.write true), .session .drainWritten, .toServer, .toWorker,
    .session (.job 0 .parse), .session (.job 0 .acquire), .server (.write 0 true), .toWorker,
    .session (.job 0 (.complete (.ok [2]))), .session (.job 0 .release),
    .session (.job 0 .snapshot), .session (.job 0 .report), .session (.write true),
    .session (.job 0 .resume), .session (.join 0)]

def drainedRun : Option (Link (List UInt8)) :=
  (Runs.exec (step mailConfig (Codec.cbor []) ["mail"]) (fun _ _ => True)
    (start mailConfig Server.initial) drainedActions).map Prod.fst

theorem drainedRun_isSome : drainedRun.isSome := by decide +kernel

theorem graceful_drain_safe_drained :
    let link := drainedRun.get drainedRun_isSome
    link.session.serve = .returned (.ok ()) ∧
    link.session.written.filterMap WorkerMessage.resultIds = [(1, "a")] ∧
    (link.session.written.filterMap WorkerMessage.resultIds).Perm
      ((link.server.sentTo link.connection).filterMap WorkerMessage.dispatchIds) := by
  have hreturned : (drainedRun.get drainedRun_isSome).session.serve = .returned (.ok ()) := by
    decide +kernel
  have hreach : Runs.Reachable (step mailConfig (Codec.cbor []) ["mail"]) (fun _ _ => True)
      (start mailConfig Server.initial) (drainedRun.get drainedRun_isSome) :=
    Runs.Reachable.of_exec drainedActions (Option.some_get _).symm
  exact ⟨hreturned, by decide +kernel, ((graceful_drain_safe mailConfig (Codec.cbor []) ["mail"]
    Server.initial ⟨[], .refl _⟩ _ hreach).2.2 hreturned).2⟩

end Link

end Maqistor
