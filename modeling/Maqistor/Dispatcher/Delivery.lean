import Maqistor.Dispatcher.Capacity

/-! What becomes of a frame: the writer task of a connection writes the frames of its channel in
order until one of them fails, and from then on every frame fails. -/

namespace Maqistor

/-- Nothing is sent before the handler has entered, and the writer runs once it registers. -/
def Connection.Entry (conn : Connection) : Prop :=
  match conn.handler with
  | .accepted | .refusing =>
    conn.writing = false ∧ conn.sent = [] ∧ conn.channel = [] ∧ conn.written = []
  | .registering _ _ _ _ =>
    conn.writing = true ∧ conn.sent = [] ∧ conn.channel = [] ∧ conn.written = []
  | _ => True

theorem Connection.entry_of_entered {conn : Connection} (h : conn.handler.entered = true) :
    conn.Entry := by
  unfold Connection.Entry
  cases hhandler : conn.handler <;> simp_all [Handler.entered]

theorem Connection.Entry.entered {conn : Connection} (h : conn.Entry) {frame : OutboundFrame}
    (hframe : frame ∈ conn.sent) : conn.handler.entered = true := by
  unfold Connection.Entry at h
  cases hhandler : conn.handler <;> simp_all [Handler.entered]

/-- The writer runs, or has had something to write. -/
def Connection.Started (conn : Connection) : Prop := conn.writing = true ∨ conn.sent ≠ []

namespace Server

/-- How far a connection's frames have come. `fails` says which messages may end the writer. -/
inductive Flow (codec : Codec) (fails : WorkerMessage → Prop) (acks : List (Option Bool))
    (conn : Connection) : Prop
  | idle (hwriting : conn.writing = false) (hsent : conn.sent = []) (hchannel : conn.channel = [])
      (hwritten : conn.written = [] ∨ conn.written = [unknownQueue])
  | running (done : List OutboundFrame) (hwriting : conn.writing = true)
      (hsent : conn.sent = done ++ conn.channel)
      (hwritten : conn.written = done.map OutboundFrame.message)
      (hdone : ∀ frame ∈ done, Encodes codec frame.message ∧ acks[frame.ack]? = some (some true))
      (hchannel : ∀ frame ∈ conn.channel, acks[frame.ack]? = some none)
  | broken (done : List OutboundFrame) (bad : OutboundFrame) (dropped : List OutboundFrame)
      (hwriting : conn.writing = false) (hsent : conn.sent = done ++ bad :: dropped)
      (hwritten : conn.written = done.map OutboundFrame.message)
      (hdone : ∀ frame ∈ done, Encodes codec frame.message ∧ acks[frame.ack]? = some (some true))
      (hbad : fails bad.message)
      (hdropped : ∀ frame ∈ bad :: dropped, acks[frame.ack]? = some (some false))
      (hchannel : conn.channel = [])

/-- A connection's frames are numbered in the order they were sent. -/
structure Pipe (codec : Codec) (fails : WorkerMessage → Prop) (acks : List (Option Bool))
    (conn : Connection) : Prop where
  flow : Flow codec fails acks conn
  order : (conn.sent.map OutboundFrame.ack).Pairwise (· < ·)
  bound : ∀ frame ∈ conn.sent, frame.ack < acks.length
  entry : conn.Entry

/-- What is known of an acknowledgement stays known. -/
def Settles (acks acks' : List (Option Bool)) : Prop :=
  ∀ (i : Nat) (result : Bool), acks[i]? = some (some result) → acks'[i]? = some (some result)

/-- A dispatch that reached the channel: its frame was sent, or the writer had already stopped. -/
def Handed (fails : WorkerMessage → Prop) (server : Server) (call : DispatchCall) : Prop :=
  ∃ conn, server.connections[call.connection]? = some conn ∧
    ((∃ frame ∈ conn.sent, frame.ack = call.ack ∧ frame.message = call.message) ∨
      server.acks[call.ack]? = some (some false) ∧
        ∃ bad ∈ conn.sent, fails bad.message ∧ bad.ack < call.ack)

/-- Every connection's frames, the dispatches that wait for theirs, and those that have returned. -/
structure Delivery (codec : Codec) (fails : WorkerMessage → Prop) (server : Server) : Prop where
  pipes : ∀ {c : Nat} {conn : Connection}, server.connections[c]? = some conn →
    Pipe codec fails server.acks conn
  apart : ∀ {c c' : Nat} {conn conn' : Connection}, server.connections[c]? = some conn →
    server.connections[c']? = some conn' → c ≠ c' →
    ∀ frame ∈ conn.sent, ∀ frame' ∈ conn'.sent, frame.ack ≠ frame'.ack
  owners : ∀ {workerId : Uuid} {c : Nat} {conn : Connection}, server.owner workerId = some c →
    server.connections[c]? = some conn → conn.Started
  calls : ∀ call ∈ server.calls, Handed fails server call
  results : ∀ call wrote, (call, outcome wrote) ∈ server.results →
    Handed fails server call ∧ server.acks[call.ack]? = some (some wrote)

section

variable {codec : Codec} {fails : WorkerMessage → Prop} {server server' : Server} {c : Nat}
  {acks acks' : List (Option Bool)} {conn conn' : Connection}

theorem Flow.of_acks (h : Flow codec fails acks conn)
    (hsame : ∀ frame ∈ conn.sent, acks'[frame.ack]? = acks[frame.ack]?) :
    Flow codec fails acks' conn := by
  cases h with
  | idle hwriting hsent hchannel hwritten => exact .idle hwriting hsent hchannel hwritten
  | running done hwriting hsent hwritten hdone hchannel =>
    refine .running done hwriting hsent hwritten (fun frame hframe => ?_) fun frame hframe => ?_
    · rw [hsame frame (by rw [hsent]; exact List.mem_append_left _ hframe)]
      exact hdone frame hframe
    · rw [hsame frame (by rw [hsent]; exact List.mem_append_right _ hframe)]
      exact hchannel frame hframe
  | broken done bad dropped hwriting hsent hwritten hdone hbad hdropped hchannel =>
    refine .broken done bad dropped hwriting hsent hwritten (fun frame hframe => ?_) hbad
      (fun frame hframe => ?_) hchannel
    · rw [hsame frame (by rw [hsent]; exact List.mem_append_left _ hframe)]
      exact hdone frame hframe
    · rw [hsame frame (by rw [hsent]; exact List.mem_append_right _ hframe)]
      exact hdropped frame hframe

theorem Pipe.of_acks (h : Pipe codec fails acks conn) (hlength : acks.length ≤ acks'.length)
    (hsame : ∀ frame ∈ conn.sent, acks'[frame.ack]? = acks[frame.ack]?) :
    Pipe codec fails acks' conn :=
  ⟨h.flow.of_acks hsame, h.order, fun frame hframe => (h.bound frame hframe).trans_le hlength,
    h.entry⟩

/-- A handler plays no part in the flow of its connection. -/
theorem Flow.handler (h : Flow codec fails acks conn) (handler : Handler) :
    Flow codec fails acks { conn with handler := handler } := by
  cases h with
  | idle hwriting hsent hchannel hwritten => exact .idle hwriting hsent hchannel hwritten
  | running done hwriting hsent hwritten hdone hchannel =>
    exact .running done hwriting hsent hwritten hdone hchannel
  | broken done bad dropped hwriting hsent hwritten hdone hbad hdropped hchannel =>
    exact .broken done bad dropped hwriting hsent hwritten hdone hbad hdropped hchannel

/-- A writer that has stopped after it started was stopped by a frame. -/
theorem Pipe.stopped (h : Pipe codec fails acks conn) (hstarted : conn.Started)
    (hwriting : conn.writing = false) :
    ∃ bad ∈ conn.sent, fails bad.message ∧ bad.ack < acks.length := by
  cases h.flow with
  | idle _ hsent _ _ =>
    rcases hstarted with hrunning | hsome
    · simp [hwriting] at hrunning
    · exact absurd hsent hsome
  | running _ hrunning _ _ _ _ => simp [hwriting] at hrunning
  | broken done bad dropped _ hsent _ _ hbad _ _ =>
    have hmem : bad ∈ conn.sent := by simp [hsent]
    exact ⟨bad, hmem, hbad, h.bound bad hmem⟩

theorem Settles.refl (acks : List (Option Bool)) : Settles acks acks := fun _ _ h => h

theorem settles_append (acks : List (Option Bool)) (item : Option Bool) :
    Settles acks (acks ++ [item]) := by
  intro i result h
  rw [List.getElem?_append_left (List.getElem?_eq_some_iff.mp h).1, h]

theorem Handed.mono {call : DispatchCall} (h : Handed fails server call)
    (hgrow : ∀ {c : Nat} {conn : Connection}, server.connections[c]? = some conn →
      ∃ conn', server'.connections[c]? = some conn' ∧ conn.sent ⊆ conn'.sent)
    (hsettles : Settles server.acks server'.acks) : Handed fails server' call := by
  obtain ⟨conn, hconn, hcall⟩ := h
  obtain ⟨conn', hconn', hsubset⟩ := hgrow hconn
  refine ⟨conn', hconn', ?_⟩
  rcases hcall with ⟨frame, hframe, hack⟩ | ⟨hfailed, bad, hbad, hrest⟩
  · exact Or.inl ⟨frame, hsubset hframe, hack⟩
  · exact Or.inr ⟨hsettles _ _ hfailed, bad, hsubset hbad, hrest⟩

/-- A step that leaves the connections and acknowledgements alone: what it adds to the calls was
handed over, and what it adds to the results was acknowledged. -/
theorem Delivery.keep (h : Delivery codec fails server)
    (hconnections : server'.connections = server.connections) (hacks : server'.acks = server.acks)
    (howners : ∀ workerId c, server'.owner workerId = some c → server.owner workerId = some c)
    (hcalls : ∀ call ∈ server'.calls, call ∈ server.calls ∨ Handed fails server call)
    (hresults : ∀ call wrote, (call, outcome wrote) ∈ server'.results →
      (call, outcome wrote) ∈ server.results ∨
        call ∈ server.calls ∧ server.acks[call.ack]? = some (some wrote)) :
    Delivery codec fails server' := by
  have hhanded : ∀ {call}, Handed fails server call → Handed fails server' call := by
    intro call hcall
    rw [Handed, hconnections, hacks]
    exact hcall
  refine ⟨?_, ?_, ?_, fun call hcall => ?_, fun call wrote hresult => ?_⟩
  · rw [hconnections, hacks]
    exact h.pipes
  · rw [hconnections]
    exact h.apart
  · rw [hconnections]
    exact fun howns => h.owners (howners _ _ howns)
  · rcases hcalls call hcall with hold | hnew
    · exact hhanded (h.calls call hold)
    · exact hhanded hnew
  · rw [hacks]
    rcases hresults call wrote hresult with hold | ⟨hcall, hack⟩
    · exact ⟨hhanded (h.results call wrote hold).1, (h.results call wrote hold).2⟩
    · exact ⟨hhanded (h.calls call hcall), hack⟩

/-- One connection moves on, with the acknowledgements of its own frames. -/
theorem Delivery.replace (h : Delivery codec fails server)
    (hconn : server.connections[c]? = some conn)
    (hconnections : server'.connections = server.connections.set c conn')
    (hgrow : conn.sent ⊆ conn'.sent)
    (hnew : ∀ frame ∈ conn'.sent, frame ∈ conn.sent ∨ frame.ack = server.acks.length)
    (hlength : server.acks.length ≤ server'.acks.length)
    (hsame : ∀ i < server.acks.length, (∀ frame ∈ conn.sent, frame.ack ≠ i) →
      server'.acks[i]? = server.acks[i]?)
    (hsettles : Settles server.acks server'.acks) (hpipe : Pipe codec fails server'.acks conn')
    (hstarted : conn.Started → conn'.Started)
    (howners : ∀ workerId other, server'.owner workerId = some other →
      server.owner workerId = some other ∨ other = c ∧ conn'.Started)
    (hcalls : server'.calls = server.calls) (hresults : server'.results = server.results) :
    Delivery codec fails server' := by
  have hlt := (List.getElem?_eq_some_iff.mp hconn).1
  have hhanded : ∀ {call}, Handed fails server call → Handed fails server' call := by
    intro call hcall
    refine hcall.mono (fun {other before} hbefore => ?_) hsettles
    rw [hconnections]
    by_cases heq : other = c
    · subst heq
      obtain rfl : conn = before := Option.some.inj (hconn.symm.trans hbefore)
      exact ⟨conn', List.getElem?_set_self hlt, hgrow⟩
    · exact ⟨before, by rw [List.getElem?_set_ne (Ne.symm heq), hbefore], List.Subset.refl _⟩
  -- a frame of this connection against one of another
  have hapart : ∀ {other} {before : Connection}, other ≠ c →
      server.connections[other]? = some before →
      ∀ frame ∈ conn'.sent, ∀ frame' ∈ before.sent, frame.ack ≠ frame'.ack := by
    intro other before hne hbefore frame hframe frame' hframe'
    rcases hnew frame hframe with hold | hfresh
    · exact h.apart hconn hbefore (Ne.symm hne) frame hold frame' hframe'
    · rw [hfresh]
      exact Nat.ne_of_gt ((h.pipes hbefore).bound frame' hframe')
  refine ⟨fun {other after} hafter => ?_, fun {i j one two} hone htwo hne => ?_,
    fun {workerId other after} howns hafter => ?_, fun call hcall => ?_,
    fun call wrote hresult => ?_⟩
  · rw [hconnections] at hafter
    rcases Lists.getElem?_set_of_some hconn hafter with ⟨rfl, rfl⟩ | ⟨hne, hafter⟩
    · exact hpipe
    · refine (h.pipes hafter).of_acks hlength fun frame hframe => ?_
      exact hsame _ ((h.pipes hafter).bound frame hframe) fun mine hmine =>
        h.apart hconn hafter (Ne.symm hne) mine hmine frame hframe
  · rw [hconnections] at hone htwo
    rcases Lists.getElem?_set_of_some hconn hone with ⟨rfl, rfl⟩ | ⟨hi, hbefore⟩
    · rcases Lists.getElem?_set_of_some hconn htwo with ⟨rfl, rfl⟩ | ⟨hj, htwo⟩
      · exact absurd rfl hne
      · exact hapart hj htwo
    · rcases Lists.getElem?_set_of_some hconn htwo with ⟨rfl, rfl⟩ | ⟨hj, hother⟩
      · exact fun frame hframe frame' hframe' =>
          Ne.symm (hapart hi hbefore frame' hframe' frame hframe)
      · exact h.apart hbefore hother hne
  · rw [hconnections] at hafter
    rcases Lists.getElem?_set_of_some hconn hafter with ⟨rfl, rfl⟩ | ⟨hne, hafter⟩
    · rcases howners workerId other howns with hold | ⟨-, hnow⟩
      · exact hstarted (h.owners hold hconn)
      · exact hnow
    · rcases howners workerId other howns with hold | ⟨heq, -⟩
      · exact h.owners hold hafter
      · exact absurd heq hne
  · rw [hcalls] at hcall
    exact hhanded (h.calls call hcall)
  · rw [hresults] at hresult
    exact ⟨hhanded (h.results call wrote hresult).1, hsettles _ _ (h.results call wrote hresult).2⟩

/-- A connection moves on and none of its frames do. -/
theorem Delivery.move (h : Delivery codec fails server)
    (hconn : server.connections[c]? = some conn)
    (hconnections : server'.connections = server.connections.set c conn')
    (hacks : server'.acks = server.acks) (hsent : conn'.sent = conn.sent)
    (hflow : Flow codec fails server.acks conn') (hentry : conn'.Entry)
    (hstarted : conn.Started → conn'.Started)
    (howners : ∀ workerId other, server'.owner workerId = some other →
      server.owner workerId = some other ∨ other = c ∧ conn'.Started)
    (hcalls : server'.calls = server.calls) (hresults : server'.results = server.results) :
    Delivery codec fails server' := by
  refine h.replace hconn hconnections (by rw [hsent]; exact List.Subset.refl _)
    (fun frame hframe => Or.inl (hsent ▸ hframe)) (by rw [hacks]) (fun i _ _ => by rw [hacks])
    (by rw [hacks]; exact Settles.refl _) ?_ hstarted howners hcalls hresults
  rw [hacks]
  exact ⟨hflow, by rw [hsent]; exact (h.pipes hconn).order,
    by rw [hsent]; exact (h.pipes hconn).bound, hentry⟩

/-- A handler that is past its registration moves on. -/
theorem Delivery.setHandler (h : Delivery codec fails server)
    (hconn : server.connections[c]? = some conn) (handler : Handler)
    (hentered : handler.entered = true) : Delivery codec fails (server.setHandler c handler) :=
  h.move hconn (Lists.modify_of_some hconn) rfl rfl ((h.pipes hconn).flow.handler handler)
    (Connection.entry_of_entered hentered) id (fun _ _ => Or.inl) rfl rfl

/-! ### Frames enter the channel -/

/-- What a send does to a connection. -/
theorem send_connections (hconn : server.connections[c]? = some conn) (message : WorkerMessage) :
    (conn.writing = true ∧ (server.send c message).2 = true ∧
      (server.send c message).1.connections = server.connections.set c
        { conn with
          channel := conn.channel ++ [⟨message, server.acks.length⟩]
          sent := conn.sent ++ [⟨message, server.acks.length⟩] } ∧
      (server.send c message).1.acks = server.acks ++ [none]) ∨
    (conn.writing = false ∧ (server.send c message).2 = false ∧
      (server.send c message).1.connections = server.connections ∧
      (server.send c message).1.acks = server.acks ++ [some false]) := by
  cases hwriting : conn.writing with
  | false => exact Or.inr (by simp [Server.send, hconn, hwriting])
  | true => exact Or.inl (by simp [Server.send, hconn, hwriting])

theorem Pipe.send (h : Pipe codec fails acks conn) (hwriting : conn.writing = true)
    (hentered : conn.handler.entered = true) (message : WorkerMessage) :
    Pipe codec fails (acks ++ [none])
      { conn with
        channel := conn.channel ++ [⟨message, acks.length⟩]
        sent := conn.sent ++ [⟨message, acks.length⟩] } := by
  have hold : ∀ frame ∈ conn.sent, (acks ++ [none])[frame.ack]? = acks[frame.ack]? :=
    fun frame hframe => List.getElem?_append_left (h.bound frame hframe)
  refine ⟨?_, ?_, fun frame hframe => ?_, Connection.entry_of_entered hentered⟩
  · cases h.flow.of_acks hold with
    | idle hstopped _ _ _ => simp [hwriting] at hstopped
    | broken _ _ _ hstopped _ _ _ _ _ _ => simp [hwriting] at hstopped
    | running done _ hsent hwritten hdone hchannel =>
      refine .running done hwriting ?_ hwritten hdone fun frame hframe => ?_
      · rw [hsent, List.append_assoc]
      · rcases List.mem_append.mp hframe with hframe | hframe
        · exact hchannel frame hframe
        · rw [List.mem_singleton.mp hframe]
          simp
  · rw [List.map_append, List.pairwise_append]
    refine ⟨h.order, by simp, fun ack hack last hlast => ?_⟩
    obtain ⟨frame, hframe, rfl⟩ := List.mem_map.mp hack
    obtain rfl : last = acks.length := by simpa using hlast
    exact h.bound frame hframe
  · rw [List.length_append, List.length_singleton]
    rcases List.mem_append.mp hframe with hframe | hframe
    · exact Nat.lt_succ_of_lt (h.bound frame hframe)
    · rw [List.mem_singleton.mp hframe]
      exact Nat.lt_succ_self _

theorem Delivery.send (h : Delivery codec fails server)
    (hconn : server.connections[c]? = some conn) (hentered : conn.handler.entered = true)
    (message : WorkerMessage) : Delivery codec fails (server.send c message).1 := by
  have howner : ∀ workerId other, (server.send c message).1.owner workerId = some other →
      server.owner workerId = some other := by
    intro workerId other howns
    rwa [owner, send_workers] at howns
  rcases send_connections hconn message with ⟨hwriting, -, hconnections, hacks⟩ |
    ⟨hwriting, -, hconnections, hacks⟩
  · refine h.replace hconn hconnections (List.subset_append_left _ _) (fun frame hframe => ?_)
      (by simp [hacks]) (fun i hi _ => by rw [hacks, List.getElem?_append_left hi])
      (by rw [hacks]; exact settles_append _ _)
      (by rw [hacks]; exact (h.pipes hconn).send hwriting hentered message)
      (fun _ => Or.inl hwriting) (fun workerId other howns => Or.inl (howner _ _ howns))
      (send_calls _ _ _) (send_results _ _ _)
    rcases List.mem_append.mp hframe with hframe | hframe
    · exact Or.inl hframe
    · rw [List.mem_singleton.mp hframe]
      exact Or.inr rfl
  · have hset : server.connections = server.connections.set c conn := by
      obtain ⟨hlt, hat⟩ := List.getElem?_eq_some_iff.mp hconn
      rw [← hat, List.set_getElem_self hlt]
    refine h.replace hconn (hconnections.trans hset) (List.Subset.refl _) (fun _ => Or.inl)
      (by simp [hacks]) (fun i hi _ => by rw [hacks, List.getElem?_append_left hi])
      (by rw [hacks]; exact settles_append _ _) ?_ id
      (fun workerId other howns => Or.inl (howner _ _ howns)) (send_calls _ _ _) (send_results _ _ _)
    rw [hacks]
    refine (h.pipes hconn).of_acks (by simp) fun frame hframe => ?_
    exact List.getElem?_append_left ((h.pipes hconn).bound frame hframe)

/-- A message sent to a connection that has started was handed over. -/
theorem Delivery.handed (h : Delivery codec fails server)
    (hconn : server.connections[c]? = some conn) (hstarted : conn.Started) {call : DispatchCall}
    {message : WorkerMessage} (hmessage : call.message = message)
    (hconnection : call.connection = c) (hack : call.ack = server.acks.length) :
    Handed fails (server.send c message).1 call := by
  have hlt := (List.getElem?_eq_some_iff.mp hconn).1
  rcases send_connections hconn message with ⟨hwriting, -, hconnections, hacks⟩ |
    ⟨hwriting, -, hconnections, hacks⟩
  · refine ⟨_, by rw [hconnections, hconnection, List.getElem?_set_self hlt],
      Or.inl ⟨⟨message, server.acks.length⟩, ?_, hack.symm, hmessage.symm⟩⟩
    simp
  · refine ⟨conn, by rw [hconnections, hconnection, hconn], Or.inr ⟨?_, ?_⟩⟩
    · rw [hacks, hack]
      simp
    · rw [hack]
      exact (h.pipes hconn).stopped hstarted hwriting

theorem dispatchLocked_delivery (h : Delivery codec fails server) (howned : server.Owned)
    (permit : ReservedDispatch) (job : Job) (dispatchId : String) :
    Delivery codec fails (server.dispatchLocked permit job dispatchId) := by
  -- an error that is not about the write adds nothing to the dispatches that reached the channel
  have hfail : ∀ {server' : Server} {call : DispatchCall} {message : String},
      server'.connections = server.connections → server'.acks = server.acks →
      (∀ workerId, server'.owner workerId = server.owner workerId) →
      server'.calls = server.calls → message ≠ "worker dispatch write failed" →
      server'.results = server.results ++ [(call, .error ⟨message⟩)] →
      Delivery codec fails server' := by
    intro server' call message hconnections hacks howner hcalls hmessage hresults
    refine h.keep hconnections hacks (fun workerId c howns => by rwa [← howner])
      (fun other hother => Or.inl (hcalls ▸ hother)) fun other wrote hmem => ?_
    rw [hresults] at hmem
    rcases List.mem_append.mp hmem with hold | hnew
    · exact Or.inl hold
    · cases wrote <;> simp_all [outcome, DispatchError.writeFailed]
  simp only [dispatchLocked]
  split
  · exact hfail rfl rfl (fun _ => rfl) rfl (by decide) rfl
  · next worker hworker =>
    split
    · exact hfail rfl rfl (owner_update hworker rfl (by rfl)) rfl (by decide) rfl
    · split
      · exact hfail rfl rfl (owner_update hworker rfl (by rfl)) rfl (by decide) rfl
      · have howns := owner_eq_some.mpr ⟨worker, hworker, rfl⟩
        obtain ⟨handler, hhandler, hentered⟩ := howned.owner howns
        obtain ⟨conn, hconn, rfl⟩ := handlers_eq_some.mp hhandler
        refine (h.send hconn hentered _).keep rfl rfl (fun workerId c hmine => ?_)
          (fun call hcall => ?_) fun call wrote hresult => Or.inl hresult
        · rwa [owner_update (by rw [send_workers]; exact hworker) rfl (by rfl)] at hmine
        · rcases List.mem_append.mp hcall with hold | hnew
          · exact Or.inl hold
          · rw [List.mem_singleton.mp hnew]
            exact Or.inr (h.handed hconn (h.owners howns hconn) rfl rfl rfl)

/-! ### Frames leave the channel -/

theorem length_foldl_set (frames : List OutboundFrame) (acks : List (Option Bool)) :
    (frames.foldl (fun acks frame => acks.set frame.ack (some false)) acks).length =
      acks.length :=
  Lists.length_foldl (fun _ _ => List.length_set) frames acks

theorem foldl_set_other {frames : List OutboundFrame} {i : Nat}
    (hother : ∀ frame ∈ frames, frame.ack ≠ i) (acks : List (Option Bool)) :
    (frames.foldl (fun acks frame => acks.set frame.ack (some false)) acks)[i]? = acks[i]? :=
  Lists.getElem?_foldl_of_keep (fun frame hframe _ => List.getElem?_set_ne (hother frame hframe)) acks

/-- The frames that are dropped are acknowledged with a failure. -/
theorem foldl_set_self {frames : List OutboundFrame} {acks : List (Option Bool)} {frame : OutboundFrame}
    (hframe : frame ∈ frames) (hlt : frame.ack < acks.length) :
    (frames.foldl (fun acks frame => acks.set frame.ack (some false)) acks)[frame.ack]? =
      some (some false) := by
  refine Lists.getElem?_foldl_of_set (fun _ _ => List.length_set) (fun acks other => ?_)
    (Or.inr ⟨frame, hframe, fun _ => List.getElem?_set_self⟩) hlt
  rw [List.getElem?_set]
  split
  · next heq =>
    split
    · exact Or.inr rfl
    · next hout => exact Or.inl (List.getElem?_eq_none (by omega)).symm
  · exact Or.inl rfl

/-- What was not known is all that becomes known. -/
theorem settles_set {acks : List (Option Bool)} {i : Nat} (hwaiting : acks[i]? = some none) (result : Bool) :
    Settles acks (acks.set i (some result)) := by
  intro j other hj
  have hne : i ≠ j := by
    rintro rfl
    rw [hwaiting] at hj
    cases hj
  exact (List.getElem?_set_ne hne).trans hj

theorem settles_foldl_set {acks : List (Option Bool)} {frames : List OutboundFrame}
    (hwaiting : ∀ frame ∈ frames, acks[frame.ack]? = some none) :
    Settles acks (frames.foldl (fun acks frame => acks.set frame.ack (some false)) acks) := by
  intro i result hi
  refine (foldl_set_other (fun frame hframe heq => ?_) _).trans hi
  rw [← heq, hwaiting frame hframe] at hi
  cases hi

/-- In a channel, every other frame has another number. -/
theorem Pipe.distinct (h : Pipe codec fails acks conn) {done rest : List OutboundFrame}
    {frame : OutboundFrame} (hsent : conn.sent = done ++ frame :: rest) :
    (∀ other ∈ done, frame.ack ≠ other.ack) ∧ ∀ other ∈ rest, frame.ack ≠ other.ack := by
  have horder := h.order
  rw [hsent, List.map_append, List.map_cons, List.pairwise_append, List.pairwise_cons] at horder
  constructor
  · intro other hother
    exact Nat.ne_of_gt (horder.2.2 other.ack (List.mem_map_of_mem hother) frame.ack
      List.mem_cons_self)
  · intro other hother
    exact Nat.ne_of_lt (horder.2.1.1 other.ack (List.mem_map_of_mem hother))

/-- The frame at the head of a running writer's channel. -/
theorem Pipe.head (h : Pipe codec fails acks conn) {frame : OutboundFrame}
    {rest : List OutboundFrame} (hwriting : conn.writing = true)
    (hchannel : conn.channel = frame :: rest) :
    ∃ done, conn.sent = done ++ frame :: rest ∧ conn.written = done.map OutboundFrame.message ∧
      (∀ other ∈ done, Encodes codec other.message ∧ acks[other.ack]? = some (some true)) ∧
      ∀ other ∈ frame :: rest, acks[other.ack]? = some none := by
  cases h.flow with
  | idle hstopped _ _ _ => simp [hwriting] at hstopped
  | broken _ _ _ hstopped _ _ _ _ _ _ => simp [hwriting] at hstopped
  | running done _ hsent hwritten hdone hwaiting =>
    rw [hchannel] at hsent hwaiting
    exact ⟨done, hsent, hwritten, hdone, hwaiting⟩

theorem Delivery.written (h : Delivery codec fails server)
    (hconn : server.connections[c]? = some conn) (hwriting : conn.writing = true)
    {frame : OutboundFrame} {rest : List OutboundFrame} (hchannel : conn.channel = frame :: rest)
    (hencodes : Encodes codec frame.message) :
    Delivery codec fails { server with
      connections := server.connections.set c
        { conn with channel := rest, written := conn.written ++ [frame.message] }
      acks := server.acks.set frame.ack (some true) } := by
  have hpipe := h.pipes hconn
  obtain ⟨done, hsent, hwritten, hdone, hwaiting⟩ := hpipe.head hwriting hchannel
  obtain ⟨hbefore, hbehind⟩ := hpipe.distinct hsent
  have hmem : frame ∈ conn.sent := by simp [hsent]
  have hlt := hpipe.bound frame hmem
  refine h.replace hconn rfl (List.Subset.refl _) (fun _ => Or.inl) (by simp)
    (fun i _ hother => List.getElem?_set_ne (hother frame hmem))
    (settles_set (hwaiting frame List.mem_cons_self) true) ⟨.running (done ++ [frame]) hwriting (by simp [hsent]) (by simp [hwritten])
      (fun other hother => ?_) (fun other hother => ?_), hpipe.order, by simpa using hpipe.bound,
      ?_⟩ (fun _ => Or.inl hwriting) (fun _ _ => Or.inl) rfl rfl
  · rcases List.mem_append.mp hother with hother | hother
    · rw [List.getElem?_set_ne (hbefore other hother)]
      exact hdone other hother
    · rw [List.mem_singleton.mp hother]
      exact ⟨hencodes, List.getElem?_set_self hlt⟩
  · rw [List.getElem?_set_ne (hbehind other hother)]
    exact hwaiting other (List.mem_cons_of_mem _ hother)
  · exact Connection.entry_of_entered (hpipe.entry.entered hmem)

theorem Delivery.dropped (h : Delivery codec fails server)
    (hconn : server.connections[c]? = some conn) (hwriting : conn.writing = true)
    {frame : OutboundFrame} {rest : List OutboundFrame} (hchannel : conn.channel = frame :: rest)
    (hfails : fails frame.message) :
    Delivery codec fails { server with
      connections := server.connections.set c { conn with channel := [], writing := false }
      acks := (frame :: rest).foldl (fun acks frame => acks.set frame.ack (some false))
        server.acks } := by
  have hpipe := h.pipes hconn
  obtain ⟨done, hsent, hwritten, hdone, hwaiting⟩ := hpipe.head hwriting hchannel
  have hmem : ∀ other ∈ frame :: rest, other ∈ conn.sent := by
    intro other hother
    rw [hsent]
    exact List.mem_append_right _ hother
  have hentered := hpipe.entry.entered (hmem frame List.mem_cons_self)
  have hlength := length_foldl_set (frame :: rest) server.acks
  refine h.replace hconn rfl (List.Subset.refl _) (fun _ => Or.inl) (Nat.le_of_eq hlength.symm)
    (fun i _ hother => foldl_set_other (fun other hin => hother other (hmem other hin)) _)
    (settles_foldl_set hwaiting) ⟨.broken done frame rest rfl hsent hwritten (fun other hother => ?_)
      hfails (fun other hother => ?_) rfl, hpipe.order, fun other hother => ?_,
      Connection.entry_of_entered hentered⟩ (fun _ => Or.inr ?_) (fun _ _ => Or.inl) rfl rfl
  · refine ⟨(hdone other hother).1, (foldl_set_other (fun later hlater heq => ?_) _).trans
      (hdone other hother).2⟩
    have hsome := hwaiting later hlater
    rw [heq, (hdone other hother).2] at hsome
    cases hsome
  · exact foldl_set_self hother (hpipe.bound other (hmem other hother))
  · exact (hpipe.bound other hother).trans_eq hlength.symm
  · rw [hsent]
    simp

/-! ### Every step keeps it -/

theorem Delivery.connect (h : Delivery codec fails server) (howned : server.Owned)
    (hsent : conn.sent = []) (hpipe : Pipe codec fails server.acks conn) :
    Delivery codec fails { server with connections := server.connections ++ [conn] } := by
  have hcases : ∀ {other : Nat} {after : Connection},
      (server.connections ++ [conn])[other]? = some after →
      server.connections[other]? = some after ∨ after = conn := by
    intro other after hafter
    rw [List.getElem?_append] at hafter
    split at hafter
    · exact Or.inl hafter
    · exact Or.inr (List.mem_singleton.mp (List.mem_of_getElem? hafter))
  have hhanded : ∀ {call}, Handed fails server call →
      Handed fails { server with connections := server.connections ++ [conn] } call := by
    intro call hcall
    refine hcall.mono (fun {other before} hbefore => ⟨before, ?_, List.Subset.refl _⟩)
      (Settles.refl _)
    exact (List.getElem?_append_left (List.getElem?_eq_some_iff.mp hbefore).1).trans hbefore
  refine ⟨fun hafter => ?_, fun hone htwo hne frame hframe frame' hframe' => ?_,
    fun howns hafter => ?_, fun call hcall => hhanded (h.calls call hcall),
    fun call wrote hresult => ⟨hhanded (h.results call wrote hresult).1,
      (h.results call wrote hresult).2⟩⟩
  · rcases hcases hafter with hold | rfl
    · exact h.pipes hold
    · exact hpipe
  · rcases hcases hone with hone | rfl
    · rcases hcases htwo with htwo | rfl
      · exact h.apart hone htwo hne frame hframe frame' hframe'
      · simp [hsent] at hframe'
    · simp [hsent] at hframe
  · obtain ⟨handler, hhandler, -⟩ := howned.owner howns
    obtain ⟨before, hbefore, -⟩ := handlers_eq_some.mp hhandler
    rw [List.getElem?_append_left (List.getElem?_eq_some_iff.mp hbefore).1] at hafter
    exact h.owners howns hafter

theorem readFirst_delivery (h : Delivery codec fails server) (allowed : List String)
    (hconn : server.connections[c]? = some conn) (hhandler : conn.handler = .accepted)
    (input : Input) : Delivery codec fails (server.readFirst allowed c input) := by
  have hentry := (h.pipes hconn).entry
  simp only [Connection.Entry, hhandler] at hentry
  obtain ⟨hwriting, hsent, hchannel, hwritten⟩ := hentry
  unfold readFirst
  split
  · split
    · exact h.move hconn (Lists.modify_of_some hconn) rfl rfl ((h.pipes hconn).flow.handler _)
        ⟨hwriting, hsent, hchannel, hwritten⟩ id (fun _ _ => Or.inl) rfl rfl
    · exact h.move hconn (Lists.modify_of_some hconn) rfl rfl
        (.running [] rfl (by simp [hsent, hchannel]) (by simp [hwritten])
          (fun _ hframe => (List.not_mem_nil hframe).elim) (by simp [hchannel]))
        ⟨rfl, hsent, hchannel, hwritten⟩ (fun _ => Or.inl rfl) (fun _ _ => Or.inl) rfl rfl
  · exact h.setHandler hconn _ rfl

theorem ReadStep.delivery {instanceId : Uuid} {input : Input}
    (hstep : ReadStep server c instanceId input server') (h : Delivery codec fails server)
    (howned : server.Owned) (hconn : server.connections[c]? = some conn)
    (hhandler : conn.handler = .serving instanceId) : Delivery codec fails server' := by
  have hdrained : ∀ {state : WorkerState}, server.workers.lookup instanceId = some state →
      Delivery codec fails
        ((server.markDraining instanceId state).send state.outbound .draining).1 := by
    intro state hstate
    have howns := howned.entry (handlers_eq_some.mpr ⟨conn, hconn, hhandler⟩) rfl
    obtain rfl : state.outbound = c := by
      simpa [owner, hstate] using howns
    have hmarked : Delivery codec fails (server.markDraining instanceId state) :=
      h.keep rfl rfl (fun workerId other howns => by
        rwa [owner_update hstate rfl (by rfl)] at howns) (fun _ => Or.inl) fun _ _ => Or.inl
    exact hmarked.send hconn (by rw [hhandler]; rfl) .draining
  cases hstep with
  | leave => exact h.setHandler hconn (.leaving instanceId) rfl
  | heartbeat => exact h
  | result hstate =>
    exact h.keep rfl rfl (fun workerId other howns => by
      rwa [owner_update hstate rfl (by rfl)] at howns) (fun _ => Or.inl) fun _ _ => Or.inl
  | drain hstate => exact hdrained hstate
  | @stopped state hstate =>
    have hsame := send_handlers (server.markDraining instanceId state) state.outbound .draining
    obtain ⟨after, hafter, -⟩ := handlers_eq_some.mp
      (hsame ▸ handlers_eq_some.mpr ⟨conn, hconn, hhandler⟩)
    exact (hdrained hstate).setHandler hafter _ rfl

theorem enroll_delivery (h : Delivery codec fails server) {instanceId : Uuid} {queueName : String}
    {runningJobs freeSlots : UInt32} (hconn : server.connections[c]? = some conn)
    (hhandler : conn.handler = .registering instanceId queueName runningJobs freeSlots) :
    Delivery codec fails (server.enroll c instanceId queueName runningJobs freeSlots) := by
  have hentry := (h.pipes hconn).entry
  simp only [Connection.Entry, hhandler] at hentry
  unfold enroll
  split
  · exact h.setHandler hconn _ rfl
  · refine h.move hconn (Lists.modify_of_some hconn) rfl rfl ((h.pipes hconn).flow.handler _)
      (Connection.entry_of_entered rfl) id (fun workerId other howns => ?_) rfl rfl
    rw [owner_insert rfl (by rfl)] at howns
    split at howns
    · exact Or.inr ⟨(Option.some.inj howns).symm, Or.inl hentry.1⟩
    · exact Or.inl howns

theorem announce_delivery (h : Delivery codec fails server) {instanceId : Uuid} {queueName : String}
    (hconn : server.connections[c]? = some conn)
    (hhandler : conn.handler = .inserted instanceId queueName) :
    Delivery codec fails (server.announce c instanceId queueName) := by
  have hsent := h.send hconn (by rw [hhandler]; rfl) (.registered queueName)
  have hold := handlers_eq_some.mpr ⟨conn, hconn, hhandler⟩
  rw [← send_handlers server c (.registered queueName)] at hold
  obtain ⟨after, hafter, -⟩ := handlers_eq_some.mp hold
  simp only [announce]
  split <;> exact hsent.setHandler hafter _ rfl

/-- The end of a dispatch leaves the connections and acknowledgements alone. -/
theorem finish_frames (server : Server) (call : DispatchCall) (wrote : Bool) :
    (server.finish call wrote).connections = server.connections ∧
    (server.finish call wrote).acks = server.acks ∧
    (server.finish call wrote).calls = server.calls ∧
    (server.finish call wrote).results = server.results ++ [(call, outcome wrote)] := by
  unfold finish releaseDispatched
  split
  · exact ⟨rfl, rfl, rfl, rfl⟩
  · split <;> exact ⟨rfl, rfl, rfl, rfl⟩

theorem finish_delivery (h : Delivery codec fails server) {i : Nat} {call : DispatchCall}
    {wrote : Bool} (hcall : server.calls[i]? = some call)
    (hack : server.acks[call.ack]? = some (some wrote)) :
    Delivery codec fails ({ server with calls := server.calls.eraseIdx i }.finish call wrote) := by
  have howner := finish_owner { server with calls := server.calls.eraseIdx i } call wrote
  obtain ⟨hconnections, hacks, hcalls, hresults⟩ :=
    finish_frames { server with calls := server.calls.eraseIdx i } call wrote
  refine h.keep hconnections hacks (fun workerId c howns => by rwa [howner] at howns)
    (fun other hother => Or.inl ?_) fun other result hresult => ?_
  · rw [hcalls] at hother
    exact List.mem_of_mem_eraseIdx hother
  · rw [hresults] at hresult
    rcases List.mem_append.mp hresult with hold | hnew
    · exact Or.inl hold
    · obtain ⟨rfl, hsame⟩ := Prod.mk.inj (List.mem_singleton.mp hnew)
      obtain rfl : result = wrote := by
        cases result <;> cases wrote <;> simp_all [outcome]
      exact Or.inr ⟨List.mem_of_getElem? hcall, hack⟩

theorem initial_delivery : Delivery codec fails initial := by
  constructor <;> simp [initial, owner]

/-- A write may fail only on messages that `fails` names. -/
theorem transition_delivery {allowed : List String} {action : Action} {event : Option WorkerEvent}
    (hinv : Delivery codec fails server) (howned : server.Owned)
    (hencodes : ∀ message, ¬ Encodes codec message → fails message)
    (haccepts : ∀ c, action = .write c false → ∀ message, fails message)
    (h : Transition codec allowed server action server' event) : Delivery codec fails server' := by
  cases h with
  | connect =>
    exact hinv.connect howned rfl ⟨.idle rfl rfl rfl (Or.inl rfl), List.Pairwise.nil,
      fun _ hframe => (List.not_mem_nil hframe).elim, ⟨rfl, rfl, rfl, rfl⟩⟩
  | readFirst hconn hhandler => exact readFirst_delivery hinv allowed hconn hhandler _
  | readNext hconn hhandler =>
    exact (readNext_step server _ _ _).delivery hinv howned hconn hhandler
  | enroll hconn hhandler => exact enroll_delivery hinv hconn hhandler
  | announce hconn hhandler => exact announce_delivery hinv hconn hhandler
  | acknowledge hconn hhandler => exact hinv.setHandler hconn _ rfl
  | abandon hconn hhandler => exact hinv.setHandler hconn _ rfl
  | @remove c conn instanceId hconn hhandler =>
    refine (hinv.setHandler hconn .returned rfl).keep rfl rfl (fun workerId other howns => ?_)
      (fun _ => Or.inl) fun _ _ => Or.inl
    rw [remove_owner] at howns
    split at howns
    · cases howns
    · exact howns
  | writeRefusal hconn hhandler =>
    have hentry := (hinv.pipes hconn).entry
    simp only [Connection.Entry, hhandler] at hentry
    refine hinv.move hconn rfl rfl rfl (.idle hentry.1 hentry.2.1 hentry.2.2.1 ?_)
      (Connection.entry_of_entered rfl) id (fun _ _ => Or.inl) rfl rfl
    dsimp only
    split
    · exact Or.inr (by rw [hentry.2.2.2]; rfl)
    · exact Or.inl hentry.2.2.2
  | @writeNext c conn accepted frame rest hconn hwriting hchannel =>
    unfold writeNext
    split
    · next hok => exact hinv.written hconn hwriting hchannel hok.2
    · next hfailed =>
      refine hinv.dropped hconn hwriting hchannel ?_
      cases accepted with
      | false => exact haccepts c rfl frame.message
      | true => exact hencodes _ fun hok => hfailed ⟨rfl, hok⟩
  | reserve =>
    exact hinv.keep rfl rfl (fun workerId c howns => by rwa [reserve_owner _ _ rfl] at howns)
      (fun _ => Or.inl) fun _ _ => Or.inl
  | @release i permit hpermit =>
    unfold releasePermit
    split
    · exact hinv.keep rfl rfl (fun _ _ => id) (fun _ => Or.inl) fun _ _ => Or.inl
    · next worker hworker =>
      refine hinv.keep rfl rfl (fun workerId c howns => ?_) (fun _ => Or.inl) fun _ _ => Or.inl
      exact (owner_update hworker rfl (by rfl) workerId).symm.trans howns
  | @dispatch i permit job hpermit =>
    unfold dispatch
    split
    · exact hinv.keep rfl rfl (fun _ _ => id) (fun _ => Or.inl) fun _ _ => Or.inl
    · refine dispatchLocked_delivery ?_ ?_ permit job _
      · exact hinv.keep rfl rfl (fun _ _ => id) (fun _ => Or.inl) fun _ _ => Or.inl
      · exact howned.of_eq (fun _ => rfl) rfl
  | resume hcall hack => exact finish_delivery hinv hcall hack

theorem reachable_delivery {allowed : List String} {admits : Server → Action → Prop}
    (hencodes : ∀ message, ¬ Encodes codec message → fails message)
    (haccepts : ∀ server c, admits server (.write c false) → ∀ message, fails message)
    (h : Runs.Reachable (step codec allowed) admits initial server) :
    Delivery codec fails server := by
  obtain ⟨events, hrun⟩ := h
  refine (hrun.invariant (fun server => server.Owned ∧ Delivery codec fails server)
    ⟨initial_owned, initial_delivery⟩ fun hinv hok hstep => ?_).2
  have htransition := step_transition hstep
  refine ⟨transition_owned hinv.1 htransition,
    transition_delivery hinv.2 hinv.1 hencodes (fun c heq => ?_) htransition⟩
  rw [heq] at hok
  exact haccepts _ c hok

/-! ### The fate of a dispatch -/

/-- The writer writes the first frames of its channel; a refused connection gets its error. -/
theorem Pipe.written_first (h : Pipe codec fails acks conn) :
    conn.written <+: conn.sent.map OutboundFrame.message ∨ conn.written = [unknownQueue] := by
  cases h.flow with
  | idle _ _ _ hwritten =>
    refine hwritten.imp_left fun hempty => ?_
    rw [hempty]
    exact List.nil_prefix
  | running done _ hsent hwritten _ _ | broken done _ _ _ hsent hwritten _ _ _ _ =>
    refine Or.inl ?_
    rw [hwritten, hsent, List.map_append]
    exact List.prefix_append _ _

/-- An acknowledged frame was written, and so was every frame before it. -/
theorem Pipe.acknowledged (h : Pipe codec fails acks conn) {frame : OutboundFrame}
    (hframe : frame ∈ conn.sent) (hack : acks[frame.ack]? = some (some true)) :
    Encodes codec frame.message ∧ frame.message ∈ conn.written ∧
      ∀ earlier ∈ conn.sent, earlier.ack < frame.ack → Encodes codec earlier.message := by
  obtain ⟨done, rest, hsent, hwritten, hdone, hrest⟩ : ∃ done rest, conn.sent = done ++ rest ∧
      conn.written = done.map OutboundFrame.message ∧
      (∀ other ∈ done, Encodes codec other.message ∧ acks[other.ack]? = some (some true)) ∧
      ∀ other ∈ rest, acks[other.ack]? ≠ some (some true) := by
    cases h.flow with
    | idle _ hsent _ _ => simp [hsent] at hframe
    | running done _ hsent hwritten hdone hchannel =>
      exact ⟨done, _, hsent, hwritten, hdone, fun other hother => by simp [hchannel other hother]⟩
    | broken done bad dropped _ hsent hwritten hdone _ hdropped _ =>
      exact ⟨done, _, hsent, hwritten, hdone, fun other hother => by simp [hdropped other hother]⟩
  have hin : frame ∈ done := by
    rw [hsent] at hframe
    exact (List.mem_append.mp hframe).resolve_right fun hlate => hrest frame hlate hack
  refine ⟨(hdone frame hin).1, hwritten ▸ List.mem_map_of_mem hin, fun earlier hmem hlt => ?_⟩
  have horder := h.order
  rw [hsent] at hmem horder
  rcases List.mem_append.mp hmem with hmem | hlate
  · exact (hdone earlier hmem).1
  · rw [List.map_append, List.pairwise_append] at horder
    have := horder.2.2 _ (List.mem_map_of_mem hin) _ (List.mem_map_of_mem hlate)
    omega

/-- A frame that failed is the one that ended the writer, or comes after it. -/
theorem Pipe.refused (h : Pipe codec fails acks conn) {frame : OutboundFrame}
    (hframe : frame ∈ conn.sent) (hack : acks[frame.ack]? = some (some false)) :
    fails frame.message ∨ ∃ bad ∈ conn.sent, fails bad.message ∧ bad.ack < frame.ack := by
  cases h.flow with
  | idle _ hsent _ _ => simp [hsent] at hframe
  | running done _ hsent _ hdone hchannel =>
    rw [hsent] at hframe
    rcases List.mem_append.mp hframe with hin | hin
    · simp [(hdone frame hin).2] at hack
    · simp [hchannel frame hin] at hack
  | broken done bad dropped _ hsent _ hdone hbad _ _ =>
    have horder := h.order
    rw [hsent] at hframe horder
    rcases List.mem_append.mp hframe with hin | hin
    · simp [(hdone frame hin).2] at hack
    · rcases List.mem_cons.mp hin with rfl | hin
      · exact Or.inl hbad
      · rw [List.map_append, List.pairwise_append, List.map_cons, List.pairwise_cons] at horder
        exact Or.inr ⟨bad, by simp [hsent], hbad, horder.2.1.1 _ (List.mem_map_of_mem hin)⟩

theorem step_write (codec : Codec) (allowed : List String)
    (hconn : server.connections[c]? = some conn)
    (hentered : conn.handler.entered = true) (hwriting : conn.writing = true)
    {frame : OutboundFrame} {rest : List OutboundFrame} (hchannel : conn.channel = frame :: rest)
    (accepted : Bool) : server.step codec allowed (.write c accepted) =
      some (server.writeNext codec c conn frame rest accepted, none) := by
  simp only [step, hconn, Option.bind_eq_bind, Option.bind_some, hwriting, hchannel]
  cases hhandler : conn.handler with
  | refusing => simp [hhandler, Handler.entered] at hentered
  | _ => rfl

theorem step_resume (codec : Codec) (allowed : List String) {i : Nat} {call : DispatchCall}
    {wrote : Bool} (hcall : server.calls[i]? = some call)
    (hack : server.acks[call.ack]? = some (some wrote)) :
    server.step codec allowed (.resume i) =
      some ({ server with calls := server.calls.eraseIdx i }.finish call wrote, none) := by
  simp only [step, hcall, Option.bind_eq_bind, Option.bind_some, hack]

/-- The writer task on its own gets to every frame of its channel. -/
theorem Delivery.settle {allowed : List String} {frame : OutboundFrame}
    {before rest : List OutboundFrame} (h : Delivery codec fails server)
    (hconn : server.connections[c]? = some conn) (hwriting : conn.writing = true)
    (hchannel : conn.channel = before ++ frame :: rest) :
    ∃ events server', Runs.Run (step codec allowed) (fun _ action => action = .write c true) server
      events server' ∧ server'.calls = server.calls ∧
      ∃ wrote, server'.acks[frame.ack]? = some (some wrote) := by
  induction before generalizing server conn with
  | nil =>
    have hpipe := h.pipes hconn
    obtain ⟨done, hsent, -⟩ := hpipe.head hwriting hchannel
    have hmem : frame ∈ conn.sent := by simp [hsent]
    have hstep := step_write codec allowed hconn (hpipe.entry.entered hmem) hwriting
      hchannel true
    refine ⟨_, _, Runs.Run.one rfl hstep, ?_⟩
    unfold writeNext
    split
    · exact ⟨rfl, true, List.getElem?_set_self (hpipe.bound frame hmem)⟩
    · exact ⟨rfl, false, foldl_set_self List.mem_cons_self
        (hpipe.bound frame hmem)⟩
  | cons head before ih =>
    have hpipe := h.pipes hconn
    obtain ⟨done, hsent, -⟩ := hpipe.head hwriting hchannel
    have hmem : head ∈ conn.sent := by simp [hsent]
    have hstep := step_write codec allowed hconn (hpipe.entry.entered hmem) hwriting
      hchannel true
    by_cases hok : Encodes codec head.message
    · have hwritten := h.written hconn hwriting hchannel hok
      rw [writeNext, if_pos ⟨rfl, hok⟩] at hstep
      obtain ⟨events, server', hrun, hcalls, hack⟩ := ih hwritten
        (List.getElem?_set_self (List.getElem?_eq_some_iff.mp hconn).1) hwriting rfl
      have hone : Runs.Run (step codec allowed) (fun _ action => action = .write c true) server _ _ :=
        Runs.Run.one rfl hstep
      exact ⟨_, server', hone.trans hrun, hcalls, hack⟩
    · rw [writeNext, if_neg fun hboth => hok hboth.2] at hstep
      refine ⟨_, _, Runs.Run.one rfl hstep, rfl, false, foldl_set_self ?_
        (hpipe.bound frame ?_)⟩
      · simp
      · simp [hsent]

/-- A dispatch that waits for its acknowledgement gets it from the writer task alone. -/
theorem Delivery.answer {allowed : List String} {call : DispatchCall}
    (h : Delivery codec fails server) (hcall : call ∈ server.calls) :
    ∃ events server', Runs.Run (step codec allowed)
      (fun _ action => action = .write call.connection true) server events server' ∧
      server'.calls = server.calls ∧ ∃ wrote, server'.acks[call.ack]? = some (some wrote) := by
  obtain ⟨conn, hconn, ⟨frame, hframe, hack, -⟩ | ⟨hfailed, -⟩⟩ := h.calls call hcall
  · cases (h.pipes hconn).flow with
    | idle _ hsent _ _ => simp [hsent] at hframe
    | running done hwriting hsent _ hdone hchannel =>
      rw [hsent] at hframe
      rcases List.mem_append.mp hframe with hin | hin
      · exact ⟨[], server, .refl _, rfl, true, hack ▸ (hdone frame hin).2⟩
      · obtain ⟨before, rest, hsplit⟩ := List.append_of_mem hin
        exact hack ▸ h.settle hconn hwriting hsplit
    | broken done bad dropped _ hsent _ hdone _ hdropped _ =>
      rw [hsent] at hframe
      rcases List.mem_append.mp hframe with hin | hin
      · exact ⟨[], server, .refl _, rfl, true, hack ▸ (hdone frame hin).2⟩
      · exact ⟨[], server, .refl _, rfl, false, hack ▸ hdropped frame hin⟩
  · exact ⟨[], server, .refl _, rfl, false, hfailed⟩

end

/-- Every transport accepts what is written to it. -/
def transportAccepts : Action → Bool
  | .write _ accepted => accepted
  | _ => true

/-- A dispatch that was answered with `wrote` fails alone: an encodable job was written and
acknowledged, and only a job that cannot be encoded got an error. -/
def FailsAlone (codec : Codec) (server : Server) (call : DispatchCall) (wrote : Bool) : Prop :=
  if Encodes codec call.message then
    wrote = true ∧ ∃ conn, server.connections[call.connection]? = some conn ∧
      call.message ∈ conn.written
  else wrote = false

/-- Every frame that the dispatch found before its own in the worker's channel can be encoded. -/
def Unobstructed (codec : Codec) (server : Server) (call : DispatchCall) : Prop :=
  ∀ conn, server.connections[call.connection]? = some conn → ∀ frame ∈ conn.sent,
    frame.ack < call.ack → Encodes codec frame.message

theorem Delivery.failsAlone_iff {codec : Codec} {server : Server} {call : DispatchCall}
    {wrote : Bool} (h : Delivery codec (fun message => ¬ Encodes codec message) server)
    (hresult : (call, outcome wrote) ∈ server.results) :
    FailsAlone codec server call wrote ↔
      (Encodes codec call.message → Unobstructed codec server call) := by
  obtain ⟨⟨conn, hconn, hfate⟩, hack⟩ := h.results call wrote hresult
  have hpipe := h.pipes hconn
  unfold FailsAlone
  split
  · next hok =>
    constructor
    · rintro ⟨rfl, -⟩ -
      rcases hfate with ⟨frame, hframe, heq, -⟩ | ⟨hfailed, -⟩
      · intro conn' hconn' earlier hearlier hlt
        obtain rfl : conn = conn' := Option.some.inj (hconn.symm.trans hconn')
        rw [← heq] at hack hlt
        exact (hpipe.acknowledged hframe hack).2.2 earlier hearlier hlt
      · simp [hack] at hfailed
    · intro hclear
      -- a frame that ended the writer would be before this one
      have hnone : ∀ bad ∈ conn.sent, ¬ Encodes codec bad.message → ¬ bad.ack < call.ack :=
        fun bad hbad hfails hlt => hfails (hclear hok conn hconn bad hbad hlt)
      rcases hfate with ⟨frame, hframe, heq, hmessage⟩ | ⟨-, bad, hbad, hfails, hlt⟩
      · rw [← heq] at hack hnone
        rw [← hmessage] at hok ⊢
        cases wrote with
        | true => exact ⟨rfl, conn, hconn, (hpipe.acknowledged hframe hack).2.1⟩
        | false =>
          rcases hpipe.refused hframe hack with hfails | ⟨bad, hbad, hfails, hlt⟩
          · exact absurd hok hfails
          · exact absurd hlt (hnone bad hbad hfails)
      · exact absurd hlt (hnone bad hbad hfails)
  · next hfails =>
    refine ⟨fun _ hok => absurd hok hfails, fun _ => ?_⟩
    cases wrote with
    | false => rfl
    | true =>
      rcases hfate with ⟨frame, hframe, heq, hmessage⟩ | ⟨hfailed, -⟩
      · rw [← heq] at hack
        exact absurd (hmessage ▸ (hpipe.acknowledged hframe hack).1) hfails
      · simp [hack] at hfailed

/-- Over transports that accept every write, a dispatch fails alone exactly if it cannot be encoded
itself or no frame before it in the worker's channel could not be encoded; and a dispatch that waits
returns once the writer task has worked off the frames before it. -/
theorem undeliverable_fails_alone_iff (codec : Codec) (allowed : List String) (server : Server)
    (h : Runs.Reachable (step codec allowed) (fun _ action => transportAccepts action = true) initial
      server) :
    (∀ call wrote, (call, outcome wrote) ∈ server.results →
      (FailsAlone codec server call wrote ↔
        (Encodes codec call.message → Unobstructed codec server call))) ∧
    ∀ i call, server.calls[i]? = some call →
      ∃ events server' server'' wrote,
        Runs.Run (step codec allowed) (fun _ action => action = .write call.connection true) server
          events server' ∧
        server'.step codec allowed (.resume i) = some (server'', none) ∧
        (call, outcome wrote) ∈ server''.results := by
  have hdelivery : Delivery codec (fun message => ¬ Encodes codec message) server :=
    reachable_delivery (fun _ => id) (fun _ _ hfalse => by cases hfalse) h
  refine ⟨fun call wrote hresult => hdelivery.failsAlone_iff hresult, fun i call hcall => ?_⟩
  obtain ⟨events, server', hrun, hcalls, wrote, hack⟩ :=
    hdelivery.answer (List.mem_of_getElem? hcall)
  refine ⟨events, server', _, wrote, hrun, step_resume codec allowed (hcalls ▸ hcall) hack, ?_⟩
  rw [(finish_frames _ call wrote).2.2.2]
  simp

/-- Two jobs are dispatched to one worker, the first with a payload of any size. -/
def twoJobsActions (payload : List UInt8) : List Action :=
  [.connect, .read 0 (.frame (.register 7 "mail" 0 2)), .register 0, .announce 0, .write 0 true,
    .acknowledge 0, .reserve Table.Choice.first [⟨"mail", 2⟩],
    .dispatch 0 (mailJob 1 "a" payload), .dispatch 0 (mailJob 2 "b" [1])]

def twoJobsRun (payload : List UInt8) : Option Server :=
  (Runs.exec (step (Codec.cbor []) ["mail"]) (fun _ action => transportAccepts action = true) initial
    (twoJobsActions payload)).map Prod.fst

theorem twoJobsRun_isSome (payload : List UInt8) : (twoJobsRun payload).isSome := by
  with_unfolding_all rfl

/-- The second of the two dispatches. -/
def secondCall : DispatchCall :=
  { workerId := 7, dispatchId := "b", message := dispatchMessage (mailJob 2 "b" [1]) "b"
    connection := 0, ack := 2 }

def bothWrittenRun : Option Server :=
  (Runs.exec (step (Codec.cbor []) ["mail"]) (fun _ action => transportAccepts action = true) initial
    (twoJobsActions [9] ++ [.write 0 true, .write 0 true, .resume 0, .resume 0])).map Prod.fst

theorem bothWrittenRun_isSome : bothWrittenRun.isSome := by decide +kernel

theorem undeliverable_fails_alone_iff_both :
    (secondCall, outcome true) ∈ (bothWrittenRun.get bothWrittenRun_isSome).results ∧
    (FailsAlone (Codec.cbor []) (bothWrittenRun.get bothWrittenRun_isSome) secondCall true ↔
      (Encodes (Codec.cbor []) secondCall.message →
        Unobstructed (Codec.cbor []) (bothWrittenRun.get bothWrittenRun_isSome) secondCall)) := by
  have hreach : Runs.Reachable (step (Codec.cbor []) ["mail"])
      (fun _ action => transportAccepts action = true) initial
      (bothWrittenRun.get bothWrittenRun_isSome) :=
    Runs.Reachable.of_exec _ (Option.some_get _).symm
  have hresult : (secondCall, outcome true) ∈
      (bothWrittenRun.get bothWrittenRun_isSome).results := by decide +kernel
  exact ⟨hresult, (undeliverable_fails_alone_iff _ _ _ hreach).1 _ _ hresult⟩

/-- The connection of the two jobs before either is written. -/
theorem twoJobsRun_connection (payload : List UInt8) :
    ((twoJobsRun payload).get (twoJobsRun_isSome payload)).connections[0]? = some
      { handler := .serving 7, writing := true
        channel := [⟨dispatchMessage (mailJob 1 "a" payload) "a", 1⟩, ⟨secondCall.message, 2⟩]
        sent := [⟨.registered "mail", 0⟩, ⟨dispatchMessage (mailJob 1 "a" payload) "a", 1⟩,
          ⟨secondCall.message, 2⟩]
        written := [.registered "mail"] } := by
  with_unfolding_all rfl

/-- A first job that cannot be encoded takes the second with it. -/
theorem twoJobs_broken {payload : List UInt8}
    (hfails : ¬ Encodes (Codec.cbor []) (dispatchMessage (mailJob 1 "a" payload) "a")) :
    ∃ server, Runs.Reachable (step (Codec.cbor []) ["mail"])
        (fun _ action => transportAccepts action = true) initial server ∧
      server.owner 7 = some 0 ∧ (secondCall, outcome false) ∈ server.results := by
  have hreach : Runs.Reachable (step (Codec.cbor []) ["mail"])
      (fun _ action => transportAccepts action = true) initial
      ((twoJobsRun payload).get (twoJobsRun_isSome payload)) :=
    Runs.Reachable.of_exec _ (Option.some_get _).symm
  have hwrite := step_write (Codec.cbor []) ["mail"] (twoJobsRun_connection payload) rfl rfl rfl true
  rw [writeNext, if_neg fun hboth => hfails hboth.2] at hwrite
  obtain ⟨broken, hbroken, hcall, hack, howns⟩ : ∃ broken : Server,
      step (Codec.cbor []) ["mail"] ((twoJobsRun payload).get (twoJobsRun_isSome payload))
        (.write 0 true) = some (broken, none) ∧ broken.calls[1]? = some secondCall ∧
      broken.acks[secondCall.ack]? = some (some false) ∧ broken.owner 7 = some 0 := by
    refine ⟨_, hwrite, ?_, ?_, ?_⟩
    all_goals with_unfolding_all rfl
  have hresume := step_resume (Codec.cbor []) ["mail"] hcall hack
  refine ⟨_, (hreach.run (.one rfl hbroken)).run (.one rfl hresume), ?_, ?_⟩
  · rw [finish_owner]
    exact howns
  · rw [(finish_frames _ secondCall false).2.2.2]
    simp

/-- A job with a payload over the limit is dispatched first: a second, small job to the same worker
gets an error although it can be encoded and the worker stays registered. -/
theorem oversized_job_blocks_worker :
    ∃ server, Runs.Reachable (step (Codec.cbor []) ["mail"])
        (fun _ action => transportAccepts action = true) initial server ∧
      server.owner 7 = some 0 ∧ (secondCall, outcome false) ∈ server.results ∧
      Encodes (Codec.cbor []) secondCall.message ∧
      ¬ FailsAlone (Codec.cbor []) server secondCall false := by
  have hfails : ¬ Encodes (Codec.cbor [])
      (dispatchMessage (mailJob 1 "a" (List.replicate (maxFrameBytes + 1) 0)) "a") := by
    refine not_encodes_cbor (Nat.lt_of_lt_of_le ?_ (Cbor.length_payload_le _ _ _ _ _))
    rw [mailJob, List.length_replicate]
    exact Nat.lt_succ_self _
  have hok : Encodes (Codec.cbor []) secondCall.message := by decide +kernel
  obtain ⟨server, hreach, howns, hresult⟩ := twoJobs_broken hfails
  refine ⟨server, hreach, howns, hresult, hok, fun halone => ?_⟩
  rw [FailsAlone, if_pos hok] at halone
  cases halone.1

end Server

end Maqistor
