import Maqistor.Sdk.Session

/-! The bytes under a session: the frames that the server sends arrive in chunks, and a read takes
the bytes there are until its frame is complete. When another branch of the select completes first,
the read is dropped with the bytes it has taken. -/

namespace Maqistor.Sdk

open Bytes

/-- What a poll of `read_async_frame` comes to: the bytes do not make a frame yet, or they do and
these are left. -/
inductive Poll where
  | pending
  | ready (result : Except ProtocolError WireFrame) (rest : List UInt8)

/-- `read_async_frame` on the bytes it has taken and those that have arrived. -/
def pollRead (codec : Codec) (bytes : List UInt8) : Poll :=
  if bytes.length < 4 then .pending
  else
    let size := beNat (bytes.take 4)
    if maxFrameBytes < size then .ready (.error .frameTooLarge) (bytes.drop 4)
    else if bytes.length < 4 + size then .pending
    else .ready (decodeFrame codec (bytes.take (4 + size))) (bytes.drop (4 + size))

/-- A session on its stream: the bytes that arrived and were not read, those that the pending read
has taken, and all that ever arrived. -/
structure Wire (P : Type) where
  session : Session P
  arrived : List UInt8
  taken : List UInt8
  stream : List UInt8

inductive Wire.Action where
  | arrive (chunk : List UInt8)
  | poll
  | other (action : Session.Action)

/-- The action completes a branch of the select that is not the read. -/
def Session.Action.selects : Session.Action → Bool
  | .shutdown | .writerStopped | .join _ | .receive _ => true
  | .drainWritten | .job _ _ | .heartbeat | .write _ => false

/-- The bytes of a frame, if it can be encoded. -/
def frameBytes (codec : Codec) (message : WorkerMessage) : List UInt8 :=
  match encodeFrame codec (.v1 message) with
  | .ok bytes => bytes
  | .error _ => []

variable {P : Type}

namespace Wire

def initial (config : Config P) : Wire P :=
  { session := .initial config, arrived := [], taken := [], stream := [] }

def step (config : Config P) (codec : Codec) (wire : Wire P) : Action → Option (Wire P × Unit)
  | .arrive chunk =>
    some ({ wire with arrived := wire.arrived ++ chunk, stream := wire.stream ++ chunk }, ())
  | .poll =>
    match wire.session.serve with
    | .selecting =>
      match pollRead codec (wire.taken ++ wire.arrived) with
      | .pending => some ({ wire with taken := wire.taken ++ wire.arrived, arrived := [] }, ())
      | .ready result rest =>
        (wire.session.step config codec (.receive (result.map ProtocolFrame.payload))).map fun after =>
          ({ wire with session := after.1, taken := [], arrived := rest }, ())
    | _ => none
  | .other (.receive (.ok _)) => none
  | .other action =>
    (wire.session.step config codec action).map fun after =>
      ({ wire with session := after.1, taken := if action.selects then [] else wire.taken }, ())

/-- Another branch completes only while the pending read has taken nothing, unless `serve` returns
with it. -/
def keepsRead (config : Config P) (codec : Codec) (wire : Wire P) : Action → Bool
  | .other action =>
    match wire.session.step config codec action with
    | some (session, _) => !action.selects || wire.taken.isEmpty || session.returned
    | none => true
  | _ => true

end Wire

section Poll

variable {codec : Codec}

theorem frameBytes_eq {message : WorkerMessage} (h : Encodes codec message) :
    ∃ body, codec.toVec (.v1 message) = .ok body ∧ body.length ≤ maxFrameBytes ∧
      frameBytes codec message = beBytes 4 body.length ++ body := by
  unfold Encodes at h
  cases hencode : encodeFrame codec (.v1 message) with
  | error error => simp [hencode, Except.isOk, Except.toBool] at h
  | ok bytes =>
    obtain ⟨body, hbody, hlength, heq, -⟩ := encodeFrame_ok hencode
    exact ⟨body, hbody, hlength, by rw [frameBytes, hencode, heq]⟩

theorem take_of_initial {α : Type} {list whole : List α} {n : Nat} (h : list <+: whole)
    (hn : n ≤ list.length) : list.take n = whole.take n := by
  obtain ⟨rest, rfl⟩ := h
  rw [List.take_append_of_le_length hn]

/-- On the start of an encoded frame and more, a poll waits for the rest of the frame or returns
it. -/
theorem pollRead_encoded {message : WorkerMessage} {bytes more : List UInt8}
    (hencodes : Encodes codec message)
    (hdecodes : ∀ body, codec.toVec (.v1 message) = .ok body →
      codec.fromSlice body = .ok (.v1 message))
    (hextends : bytes <+: frameBytes codec message ++ more) :
    pollRead codec bytes = .pending ∨
      ∃ rest, pollRead codec bytes = .ready (.ok (.v1 message)) rest ∧
        bytes = frameBytes codec message ++ rest := by
  obtain ⟨body, hbody, hlength, hframe⟩ := frameBytes_eq hencodes
  rw [hframe] at hextends ⊢
  unfold pollRead
  split
  · exact Or.inl rfl
  · next hfour =>
    have hfield : bytes.take 4 = beBytes 4 body.length := by
      rw [take_of_initial hextends (Nat.le_of_not_lt hfour), List.append_assoc,
        List.take_left' (length_beBytes _ _)]
    have hsize : beNat (bytes.take 4) = body.length := by
      rw [hfield, beNat_beBytes_of_lt]
      simp only [maxFrameBytes] at hlength
      omega
    simp only [hsize, if_neg (Nat.not_lt.mpr hlength)]
    split
    · exact Or.inl rfl
    · next hlong =>
      have htaken : bytes.take (4 + body.length) = beBytes 4 body.length ++ body := by
        rw [take_of_initial hextends (Nat.le_of_not_lt hlong), List.take_left' (by simp)]
      refine Or.inr ⟨bytes.drop (4 + body.length), ?_, ?_⟩
      · rw [htaken, (decodeFrame_length hlength).mpr ⟨hdecodes body hbody, rfl⟩]
      · rw [← htaken, List.take_append_drop]

/-- A read that begins inside a frame, at a byte that is not zero, takes it for the start of a
length: it waits for four bytes, and then fails. No byte of a JSON text is zero. -/
theorem pollRead_midway {first : UInt8} (hfirst : first ≠ 0) (rest : List UInt8) :
    pollRead codec (first :: rest) = .pending ∨
      pollRead codec (first :: rest) = .ready (.error .frameTooLarge) (rest.drop 3) := by
  match rest with
  | second :: third :: fourth :: rest =>
    have hpositive : 0 < first.toNat := Nat.pos_of_ne_zero fun hzero => hfirst (UInt8.toNat_inj.mp hzero)
    have hlarge : maxFrameBytes < beNat ((first :: second :: third :: fourth :: rest).take 4) := by
      simp only [List.take_succ_cons, List.take_zero, beNat, List.foldl_cons, List.foldl_nil,
        maxFrameBytes]
      omega
    refine Or.inr ?_
    rw [pollRead, if_neg (by simp), if_pos hlarge]
    rfl
  | [_, _] => exact Or.inl rfl
  | [_] => exact Or.inl rfl
  | [] => exact Or.inl rfl

end Poll

/-! ### Whole runs -/

namespace Wire

/-- What a step on the bytes can be. -/
theorem step_cases {config : Config P} {codec : Codec} {wire wire' : Wire P} {action : Action}
    {event : Unit} (h : wire.step config codec action = some (wire', event)) :
    (∃ chunk, action = .arrive chunk ∧
      wire' = { wire with arrived := wire.arrived ++ chunk, stream := wire.stream ++ chunk }) ∨
    (action = .poll ∧ wire.session.serve = .selecting ∧
      pollRead codec (wire.taken ++ wire.arrived) = .pending ∧
      wire' = { wire with taken := wire.taken ++ wire.arrived, arrived := [] }) ∨
    (∃ result rest, action = .poll ∧ wire.session.serve = .selecting ∧
      pollRead codec (wire.taken ++ wire.arrived) = .ready result rest ∧
      wire'.stream = wire.stream ∧ wire'.taken = [] ∧ wire'.arrived = rest ∧
      wire.session.step config codec (.receive (result.map ProtocolFrame.payload)) =
        some (wire'.session, ())) ∨
    ∃ other, action = .other other ∧ (∀ message, other ≠ .receive (.ok message)) ∧
      wire.session.step config codec other = some (wire'.session, ()) ∧
      wire'.stream = wire.stream ∧ wire'.arrived = wire.arrived ∧
      wire'.taken = if other.selects then [] else wire.taken := by
  cases action with
  | arrive chunk =>
    cases h
    exact Or.inl ⟨chunk, rfl, rfl⟩
  | poll =>
    simp only [step] at h
    split at h
    · next hserve =>
      split at h
      · next hpending =>
        cases h
        exact Or.inr (Or.inl ⟨rfl, hserve, hpending, rfl⟩)
      · next result rest hready =>
        obtain ⟨after, hafter, heq⟩ := Option.map_eq_some_iff.mp h
        obtain ⟨rfl, -⟩ := Prod.mk.inj heq
        exact Or.inr (Or.inr (Or.inl ⟨result, rest, rfl, hserve, hready, rfl, rfl, rfl, hafter⟩))
    · cases h
  | other other =>
    by_cases hread : ∃ message, other = .receive (.ok message)
    · obtain ⟨message, rfl⟩ := hread
      cases h
    · have hread : ∀ message, other ≠ .receive (.ok message) := fun message heq =>
        hread ⟨message, heq⟩
      have hstep : wire.step config codec (.other other) =
          (wire.session.step config codec other).map fun after => ({ wire with
            session := after.1, taken := if other.selects then [] else wire.taken }, ()) := by
        cases other with
        | receive input =>
          cases input with
          | ok message => exact absurd rfl (hread message)
          | error error => rfl
        | _ => rfl
      rw [hstep] at h
      obtain ⟨after, hafter, heq⟩ := Option.map_eq_some_iff.mp h
      obtain ⟨rfl, -⟩ := Prod.mk.inj heq
      exact Or.inr (Or.inr (Or.inr ⟨other, rfl, hread, hafter, rfl, rfl, rfl⟩))

/-- A poll that begins inside a frame, at a byte that is not zero, hands `serve` no message: it
waits, or `serve` returns with the error. -/
theorem poll_midway {config : Config P} {codec : Codec} {wire wire' : Wire P} {event : Unit}
    {first : UInt8} {rest : List UInt8} (hfirst : first ≠ 0)
    (hbytes : wire.taken ++ wire.arrived = first :: rest)
    (h : wire.step config codec .poll = some (wire', event)) :
    wire' = { wire with taken := wire.taken ++ wire.arrived, arrived := [] } ∨
      wire'.session = wire.session.fail (.protocol .frameTooLarge) := by
  rcases step_cases h with ⟨chunk, heq, -⟩ | ⟨-, -, -, hwaits⟩ |
    ⟨result, left, -, hserve, hready, -, -, -, hstep⟩ | ⟨other, heq, -⟩
  · cases heq
  · exact Or.inl hwaits
  · rw [hbytes] at hready
    rcases @pollRead_midway codec first hfirst rest with hpending | hfails
    · simp [hpending] at hready
    · obtain ⟨rfl, -⟩ := Poll.ready.inj (hfails.symm.trans hready)
      simp only [Session.step, hserve, Except.map, Option.some.injEq, Prod.mk.injEq] at hstep
      exact Or.inr hstep.1.symm
  · cases heq

/-- The messages that were read are the first that were sent, and the bytes of all others are still
there to read. -/
structure Aligned (codec : Codec) (messages : List WorkerMessage) (wire : Wire P) : Prop where
  received : wire.session.received <+: messages
  bytes : wire.session.returned = false →
    wire.stream = wire.session.received.flatMap (frameBytes codec) ++ (wire.taken ++ wire.arrived)

section Aligned

variable {config : Config P} {codec : Codec} {messages : List WorkerMessage} {wire wire' : Wire P}

/-- A poll reads the next message or waits for it. -/
theorem Aligned.poll (h : wire.Aligned codec messages)
    (hencodes : ∀ message ∈ messages, Encodes codec message)
    (hdecodes : ∀ message ∈ messages, ∀ body, codec.toVec (.v1 message) = .ok body →
      codec.fromSlice body = .ok (.v1 message))
    (harrived : wire.stream <+: messages.flatMap (frameBytes codec))
    (hserve : wire.session.returned = false) :
    pollRead codec (wire.taken ++ wire.arrived) = .pending ∨
      ∃ message rest, pollRead codec (wire.taken ++ wire.arrived) = .ready (.ok (.v1 message)) rest ∧
        wire.session.received ++ [message] <+: messages ∧
        wire.taken ++ wire.arrived = frameBytes codec message ++ rest := by
  obtain ⟨later, hlater⟩ := h.received
  rw [h.bytes hserve, ← hlater, List.flatMap_append, List.prefix_append_right_inj] at harrived
  cases later with
  | nil =>
    rw [List.flatMap_nil, List.prefix_nil] at harrived
    rw [harrived]
    exact Or.inl rfl
  | cons message later =>
    rw [List.flatMap_cons] at harrived
    have hmem : message ∈ messages := by simp [← hlater]
    rcases pollRead_encoded (hencodes message hmem) (hdecodes message hmem) harrived with
      hpending | ⟨rest, hready, hsplit⟩
    · exact Or.inl hpending
    · refine Or.inr ⟨message, rest, hready, ⟨later, ?_⟩, hsplit⟩
      rw [List.append_assoc, List.singleton_append, hlater]

/-- Every step that keeps the pending read keeps the stream aligned. -/
theorem step_aligned {action : Action} {event : Unit}
    (hencodes : ∀ message ∈ messages, Encodes codec message)
    (hdecodes : ∀ message ∈ messages, ∀ body, codec.toVec (.v1 message) = .ok body →
      codec.fromSlice body = .ok (.v1 message))
    (hinv : wire.Aligned codec messages) (hkeeps : wire.keepsRead config codec action = true)
    (harrived : wire.stream <+: messages.flatMap (frameBytes codec))
    (h : wire.step config codec action = some (wire', event)) : wire'.Aligned codec messages := by
  rcases step_cases h with ⟨chunk, -, rfl⟩ | ⟨-, hserve, -, rfl⟩ |
    ⟨result, rest, -, hserve, hready, hstream, htaken, hrest, hstep⟩ |
    ⟨other, rfl, hread, hstep, hstream, hsame, htaken⟩
  · refine ⟨hinv.received, fun hlive => ?_⟩
    rw [hinv.bytes hlive, List.append_assoc, List.append_assoc]
  · refine ⟨hinv.received, fun hlive => ?_⟩
    rw [List.append_nil]
    exact hinv.bytes hlive
  · have hlive : wire.session.returned = false := by simp [Session.returned, hserve]
    rcases hinv.poll hencodes hdecodes harrived hlive with hpending | ⟨message, rest', hok, hnext, hsplit⟩
    · simp [hpending] at hready
    · rw [hok] at hready
      obtain ⟨rfl, rfl⟩ := Poll.ready.inj hready
      simp only [Session.step, hserve, Except.map, Option.some.injEq, Prod.mk.injEq] at hstep
      have hreceived : wire'.session.received = wire.session.received ++ [message] := by
        rw [← hstep.1, Session.handle_received]
        rfl
      refine ⟨by rw [hreceived]; exact hnext, fun _ => ?_⟩
      rw [hstream, hinv.bytes hlive, hsplit, hreceived, htaken, hrest]
      simp
  · have htransition := Session.step_transition hstep
    have hreceived := htransition.received hread
    refine ⟨by rw [hreceived]; exact hinv.received, fun hlive' => ?_⟩
    have hlive : wire.session.returned = false := by
      by_contra hreturned
      have hboth := (htransition.of_returned (by simpa using hreturned)).1
      simp only [Session.returned, hboth] at hlive' hreturned
      exact hreturned hlive'
    have hkept : wire'.taken = wire.taken := by
      rw [htaken]
      split
      · next hselects =>
        simp only [keepsRead, hstep, hselects, hlive', Bool.or_false, Bool.not_true, Bool.false_or,
          List.isEmpty_iff] at hkeeps
        exact hkeeps.symm
      · rfl
    rw [hstream, hinv.bytes hlive, hreceived, hkept, hsame]

end Aligned

/-- While no other branch of the select completes over a read that has taken part of a frame, the
messages that `serve` handles are the first of those that were sent, whatever the chunks they arrive
in; no byte is lost, and a poll waits for the next message or brings it. -/
theorem handled_in_order (config : Config P) (codec : Codec) (messages : List WorkerMessage)
    (hencodes : ∀ message ∈ messages, Encodes codec message)
    (hdecodes : ∀ message ∈ messages, ∀ body, codec.toVec (.v1 message) = .ok body →
      codec.fromSlice body = .ok (.v1 message))
    (wire : Wire P)
    (h : Runs.Reachable (step config codec)
      (fun wire action => wire.keepsRead config codec action = true) (initial config) wire)
    (harrived : wire.stream <+: messages.flatMap (frameBytes codec)) :
    wire.session.received <+: messages ∧
    (wire.session.returned = false → wire.stream =
      wire.session.received.flatMap (frameBytes codec) ++ (wire.taken ++ wire.arrived)) ∧
    (wire.session.returned = false →
      pollRead codec (wire.taken ++ wire.arrived) = .pending ∨
      ∃ message rest, pollRead codec (wire.taken ++ wire.arrived) = .ready (.ok (.v1 message)) rest ∧
        wire.session.received ++ [message] <+: messages) := by
  obtain ⟨events, hrun⟩ := h
  have haligned : wire.stream <+: messages.flatMap (frameBytes codec) →
      wire.Aligned codec messages := by
    refine hrun.invariant (fun wire => wire.stream <+: messages.flatMap (frameBytes codec) →
      wire.Aligned codec messages) (fun _ => ⟨List.nil_prefix, fun _ => rfl⟩) ?_
    intro before after action event hinv hkeeps hstep hafter
    have hbefore : before.stream <+: messages.flatMap (frameBytes codec) := by
      refine List.IsPrefix.trans ?_ hafter
      rcases step_cases hstep with ⟨chunk, -, rfl⟩ | ⟨-, -, -, rfl⟩ |
        ⟨-, -, -, -, -, hstream, -⟩ | ⟨-, -, -, -, hstream, -⟩
      · exact List.prefix_append _ _
      · exact List.prefix_refl _
      · rw [hstream]
      · rw [hstream]
    exact step_aligned hencodes hdecodes (hinv hbefore) hkeeps hbefore hstep
  refine ⟨(haligned harrived).received, (haligned harrived).bytes, fun hlive => ?_⟩
  rcases (haligned harrived).poll hencodes hdecodes harrived hlive with
    hpending | ⟨message, rest, hready, hnext, -⟩
  · exact Or.inl hpending
  · exact Or.inr ⟨message, rest, hready, hnext⟩

/-- A dispatch whose payload spells a frame of its own. -/
def nestedDispatch : WorkerMessage :=
  .jobDispatch 1 "a" 1 (frameBytes (Codec.cbor []) .heartbeat)

/-- The codec of the runs below. -/
def nestedCodec : Codec := Codec.cbor [.v1 nestedDispatch, .v1 .heartbeat]

/-- A frame arrives in two chunks, its last bytes in the second one, and the shutdown signal comes
before that or after it. -/
def chunkActions (frame last : List UInt8) (early : Bool) : List Action :=
  [.arrive (frame.take (frame.length - last.length)), .poll] ++
    (if early then [.other .shutdown, .other (.write true), .other .drainWritten] else []) ++
    [.arrive last, .poll] ++
    (if early then [] else [.other .shutdown, .other (.write true), .other .drainWritten])

/-- The chunks of the dispatch above, its payload by itself. -/
def nestedActions (early : Bool) : List Action :=
  chunkActions (frameBytes nestedCodec nestedDispatch) (frameBytes nestedCodec .heartbeat) early

def alignedRun : Option (Wire (List UInt8)) :=
  (Runs.exec (step mailConfig nestedCodec)
    (fun wire action => wire.keepsRead mailConfig nestedCodec action = true) (initial mailConfig)
    (nestedActions false)).map Prod.fst

def tornRun : Option (Wire (List UInt8)) :=
  (Runs.exec (step mailConfig nestedCodec) (fun _ _ => True) (initial mailConfig)
    (nestedActions true)).map Prod.fst

theorem alignedRun_isSome : alignedRun.isSome := by decide +kernel

theorem tornRun_isSome : tornRun.isSome := by decide +kernel

theorem handled_in_order_aligned :
    (alignedRun.get alignedRun_isSome).session.received <+: [nestedDispatch] ∧
    (alignedRun.get alignedRun_isSome).session.received = [nestedDispatch] := by
  have hreach : Runs.Reachable (step mailConfig nestedCodec)
      (fun wire action => wire.keepsRead mailConfig nestedCodec action = true) (initial mailConfig)
      (alignedRun.get alignedRun_isSome) :=
    Runs.Reachable.of_exec (nestedActions false) (Option.some_get _).symm
  refine ⟨(handled_in_order mailConfig nestedCodec [nestedDispatch] ?_ ?_ _ hreach ?_).1,
    by decide +kernel⟩
  · decide +kernel
  · intro message hmem body hbody
    rw [List.mem_singleton.mp hmem] at hbody ⊢
    rw [← Except.ok.inj hbody]
    decide +kernel
  · decide +kernel

/-- The shutdown signal comes while the read has taken the dispatch up to its payload: the payload
is then read as a frame, and the dispatch is lost. -/
theorem dispatch_torn_by_shutdown :
    Runs.Reachable (step mailConfig nestedCodec) (fun _ _ => True) (initial mailConfig)
      (tornRun.get tornRun_isSome) ∧
    (tornRun.get tornRun_isSome).stream = frameBytes nestedCodec nestedDispatch ∧
    (tornRun.get tornRun_isSome).session.received = [.heartbeat] ∧
    ¬ (tornRun.get tornRun_isSome).session.received <+: [nestedDispatch] := by
  refine ⟨Runs.Reachable.of_exec (nestedActions true) (Option.some_get _).symm, ?_, ?_, ?_⟩
  all_goals decide +kernel

/-- A JSON text, as the payloads of submitted jobs are: an object with one number. -/
def jsonPayload : List UInt8 := [123, 34, 110, 34, 58, 49, 125]

def jsonDispatch : WorkerMessage := .jobDispatch 1 "a" 1 jsonPayload

def jsonCodec : Codec := Codec.cbor [.v1 jsonDispatch]

def jsonTornRun : Option (Wire (List UInt8)) :=
  (Runs.exec (step mailConfig jsonCodec) (fun _ _ => True) (initial mailConfig)
    (chunkActions (frameBytes jsonCodec jsonDispatch) jsonPayload true)).map Prod.fst

theorem jsonTornRun_isSome : jsonTornRun.isSome := by decide +kernel

/-- The same with a JSON payload: its first bytes are read as a length, and `serve` returns with the
error while it drains. The whole dispatch has arrived, and no handler sees it. -/
theorem json_dispatch_torn_by_shutdown :
    Runs.Reachable (step mailConfig jsonCodec) (fun _ _ => True) (initial mailConfig)
      (jsonTornRun.get jsonTornRun_isSome) ∧
    (jsonTornRun.get jsonTornRun_isSome).stream = frameBytes jsonCodec jsonDispatch ∧
    (jsonTornRun.get jsonTornRun_isSome).session.received = [] ∧
    (jsonTornRun.get jsonTornRun_isSome).session.serve =
      .returned (.error (.protocol .frameTooLarge)) := by
  refine ⟨Runs.Reachable.of_exec _ (Option.some_get _).symm, ?_, ?_, ?_⟩
  all_goals decide +kernel

end Wire

end Maqistor.Sdk
