import Maqistor.Dispatcher.Drain
import Maqistor.Sdk.Jobs

/-! A server and an SDK session on one of its connections. The frames that one side writes are what
the other reads, whole and in order; everything else about the server, its other connections
included, is left open. -/

namespace Maqistor

open Sdk

variable {P : Type}

/-- A server, a session on one of its connections, and how many of the session's frames the server
has read. The session has read as many frames of its connection as it has received. -/
structure Link (P : Type) where
  server : Server
  session : Session P
  connection : Nat
  read : Nat

inductive Link.Action where
  | server (action : Server.Action)
  | session (action : Session.Action)
  /-- The session reads the next frame of its connection. -/
  | toWorker
  /-- The server reads the next frame of the session. -/
  | toServer

namespace Link

/-- A session has connected to a server and written `Register`. -/
def start (config : Config P) (server : Server) : Link P :=
  { server := { server with
      connections := server.connections ++
        [{ handler := .accepted, writing := false, channel := [], sent := [], written := [] }] }
    session := .initial config, connection := server.connections.length, read := 0 }

/-- The frame that the session reads next. -/
def nextFrame (link : Link P) : Option WorkerMessage := do
  let conn ← link.server.connections[link.connection]?
  conn.written[link.session.received.length]?

/-- The action hands a frame to the handler of the connection. -/
def readsFrame (connection : Nat) : Server.Action → Bool
  | .read other (.frame _) => other = connection
  | _ => false

/-- The action hands a frame to `serve`. -/
def receivesFrame : Session.Action → Bool
  | .receive (.ok _) => true
  | _ => false

def step (config : Config P) (codec : Codec) (allowed : List String) (link : Link P) :
    Action → Option (Link P × Unit)
  | .server action =>
    if readsFrame link.connection action then none
    else (link.server.step codec allowed action).map fun after =>
      ({ link with server := after.1 }, ())
  | .session action =>
    if receivesFrame action then none
    else (link.session.step config codec action).map fun after =>
      ({ link with session := after.1 }, ())
  | .toWorker => do
    let message ← link.nextFrame
    let after ← link.session.step config codec (.receive (.ok message))
    some ({ link with session := after.1 }, ())
  | .toServer => do
    let message ← link.session.written[link.read]?
    let after ← link.server.step codec allowed (.read link.connection (.frame message))
    some ({ link with server := after.1, read := link.read + 1 }, ())

/-- What a step of the two can be. -/
inductive Move (config : Config P) (codec : Codec) (allowed : List String) (link : Link P) :
    Action → Link P → Prop
  | server {action : Server.Action} {server' : Server} {event : Option WorkerEvent}
      (hother : readsFrame link.connection action = false)
      (hstep : Server.Transition codec allowed link.server action server' event) :
      Move config codec allowed link (.server action) { link with server := server' }
  | session {action : Session.Action} {session' : Session P}
      (hother : receivesFrame action = false)
      (hstep : Session.Transition config codec link.session action session') :
      Move config codec allowed link (.session action) { link with session := session' }
  | toWorker {message : WorkerMessage} {session' : Session P}
      (hnext : link.nextFrame = some message)
      (hstep : Session.Transition config codec link.session (.receive (.ok message)) session') :
      Move config codec allowed link .toWorker { link with session := session' }
  | toServer {message : WorkerMessage} {server' : Server} {event : Option WorkerEvent}
      (hnext : link.session.written[link.read]? = some message)
      (hstep : Server.Transition codec allowed link.server
        (.read link.connection (.frame message)) server' event) :
      Move config codec allowed link .toServer { link with server := server', read := link.read + 1 }

theorem step_move {config : Config P} {codec : Codec} {allowed : List String} {link link' : Link P}
    {action : Action} {event : Unit}
    (h : link.step config codec allowed action = some (link', event)) :
    Move config codec allowed link action link' := by
  cases action with
  | server action =>
    simp only [step] at h
    split at h
    · cases h
    · next hother =>
      obtain ⟨⟨server', event⟩, hstep, heq⟩ := Option.map_eq_some_iff.mp h
      cases heq
      exact .server (Bool.eq_false_iff.mpr hother) (Server.step_transition hstep)
  | session action =>
    simp only [step] at h
    split at h
    · cases h
    · next hother =>
      obtain ⟨⟨session', event⟩, hstep, heq⟩ := Option.map_eq_some_iff.mp h
      cases heq
      exact .session (Bool.eq_false_iff.mpr hother) (Session.step_transition hstep)
  | toWorker =>
    obtain ⟨message, hnext, h⟩ := Option.bind_eq_some_iff.mp h
    obtain ⟨⟨session', event⟩, hstep, heq⟩ := Option.bind_eq_some_iff.mp h
    cases heq
    exact .toWorker hnext (Session.step_transition hstep)
  | toServer =>
    obtain ⟨message, hnext, h⟩ := Option.bind_eq_some_iff.mp h
    obtain ⟨⟨server', event⟩, hstep, heq⟩ := Option.bind_eq_some_iff.mp h
    cases heq
    exact .toServer hnext (Server.step_transition hstep)

/-! ### What both sides know of each other -/

/-- Both sides are sound, and the session has read the first frames that its connection wrote. -/
structure Joint (config : Config P) (codec : Codec) (link : Link P) : Prop where
  server : link.server.Regular codec
  session : link.session.Sound config
  received : ∃ conn, link.server.connections[link.connection]? = some conn ∧
    link.session.received <+: conn.written

section Joint

variable {config : Config P} {codec : Codec} {allowed : List String} {link link' : Link P}
  {action : Action}

/-- The next frame extends what the session has read. -/
theorem nextFrame_extends {conn : Connection} {message : WorkerMessage}
    (hconn : link.server.connections[link.connection]? = some conn)
    (hreceived : link.session.received <+: conn.written) (hnext : link.nextFrame = some message) :
    link.session.received ++ [message] <+: conn.written := by
  have hmessage : conn.written[link.session.received.length]? = some message := by
    simpa [nextFrame, hconn] using hnext
  obtain ⟨rest, hrest⟩ := hreceived
  rw [← hrest, List.getElem?_append_right (Nat.le_refl _), Nat.sub_self] at hmessage
  cases rest with
  | nil => cases hmessage
  | cons head rest =>
    obtain rfl : head = message := Option.some.inj hmessage
    exact ⟨rest, by rw [List.append_assoc, List.singleton_append, hrest]⟩

/-- What the session has read is the first of what was sent to it, unless it was refused. -/
theorem Joint.received_first (h : link.Joint config codec) :
    link.session.received <+: link.server.sentTo link.connection ∨
      link.session.received <+: [Server.unknownQueue] := by
  obtain ⟨conn, hconn, hreceived⟩ := h.received
  rcases (h.server.delivery.pipes hconn).written_first with hsent | hrefused
  · exact Or.inl (Server.sentTo_eq hconn ▸ hreceived.trans hsent)
  · exact Or.inr (hrefused ▸ hreceived)

/-- A step of the server leaves the two joint, however many frames it has read. -/
theorem Joint.serves (h : link.Joint config codec) {server' : Server} {action : Server.Action}
    {event : Option WorkerEvent} (read : Nat)
    (hstep : Server.Transition codec allowed link.server action server' event) :
    Joint config codec { link with server := server', read := read } := by
  obtain ⟨conn, hconn, hreceived⟩ := h.received
  obtain ⟨conn', hconn', hgrows⟩ := Server.transition_grows hstep link.connection conn hconn
  exact ⟨Server.transition_regular h.server hstep, h.session, conn', hconn', hreceived.trans hgrows⟩

theorem Move.joint (hinv : link.Joint config codec) (h : Move config codec allowed link action link') :
    link'.Joint config codec := by
  obtain ⟨conn, hconn, hreceived⟩ := hinv.received
  cases h with
  | server _ hstep => exact hinv.serves _ hstep
  | toServer _ hstep => exact hinv.serves _ hstep
  | @session action session' hother hstep =>
    refine ⟨hinv.server, hstep.sound hinv.session, conn, hconn, ?_⟩
    rw [hstep.received fun message heq => by simp [heq, receivesFrame] at hother]
    exact hreceived
  | @toWorker message session' hnext hstep =>
    refine ⟨hinv.server, hstep.sound hinv.session, conn, hconn, ?_⟩
    rw [hstep.read.2, Session.handle_received]
    exact nextFrame_extends hconn hreceived hnext

theorem start_joint {server : Server} (allowed : List String) (h : server.Regular codec) :
    (start config server).Joint config codec := by
  have hconnected := Server.transition_regular h
    (.connect : Server.Transition codec allowed server .connect _ none)
  exact ⟨hconnected, Session.initial_sound config, _, List.getElem?_concat_length, List.nil_prefix⟩

theorem reachable_joint {server : Server} {admits : Link P → Action → Prop}
    (hserver : server.Regular codec)
    (h : Runs.Reachable (step config codec allowed) admits (start config server) link) :
    link.Joint config codec := by
  obtain ⟨events, hrun⟩ := h
  exact hrun.invariant (Joint config codec) (start_joint allowed hserver)
    fun hinv _ hstep => (step_move hstep).joint hinv

end Joint

end Link

end Maqistor
