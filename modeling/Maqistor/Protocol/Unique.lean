import Maqistor.Protocol.Stream

/-! The bytes of a frame determine it. The encoding of a CBOR item tells where the item ends and
what it is, so nothing that is written behind it can change how it reads. -/

namespace Maqistor

open Bytes

/-- The bytes of an array are its data. -/
theorem byteArray_toList (array : ByteArray) : array.toList = array.data.toList := by
  have hloop : ∀ i read, ByteArray.toList.loop array i read =
      read.reverse ++ array.data.toList.drop i := by
    intro i read
    fun_induction ByteArray.toList.loop array i read with
    | case1 i read hlt ih =>
      have hlength : i < array.data.toList.length := hlt
      have hget : array.get! i = array.data.toList[i] := getElem!_pos array.data i hlt
      rw [ih, List.drop_eq_getElem_cons hlength, List.reverse_cons, List.append_assoc, hget,
        List.singleton_append]
    | case2 i read hge =>
      have hnil : array.data.toList.drop i = [] :=
        List.drop_eq_nil_of_le (Nat.le_of_not_lt hge)
      rw [hnil, List.append_nil]
  rw [ByteArray.toList, hloop]
  rfl

namespace Cbor

/-! ### The head of an item -/

/-- The low five bits of the initial byte. -/
def info (n : Nat) : Nat :=
  if n < 24 then n else if n < 256 then 24 else if n < 65536 then 25 else if n < 4294967296 then 26
  else 27

/-- How many bytes follow for the argument. -/
def width (info : Nat) : Nat :=
  if info < 24 then 0 else if info = 24 then 1 else if info = 25 then 2 else if info = 26 then 4 else 8

theorem head_eq (major n : Nat) :
    head major n = UInt8.ofNat (major * 32 + info n) :: beBytes (width (info n)) n := by
  unfold head info
  split
  · next hsmall =>
    rw [width, if_pos hsmall]
    rfl
  · split
    · rfl
    · split
      · rfl
      · split <;> rfl

theorem info_lt (n : Nat) : info n < 32 := by
  unfold info
  split
  · omega
  · split
    · omega
    · split
      · omega
      · split <;> omega

/-- An argument fits the bytes that it is given. -/
theorem lt_width {n : Nat} (h : n < 2 ^ 64) (hlong : ¬info n < 24) : n < 256 ^ width (info n) := by
  unfold info at hlong ⊢
  split
  · next hsmall => exact absurd (by rwa [if_pos hsmall]) hlong
  · split
    · next hone =>
      show n < 256 ^ 1
      omega
    · split
      · next htwo =>
        show n < 256 ^ 2
        omega
      · split
        · next hfour =>
          show n < 256 ^ 4
          omega
        · show n < 256 ^ 8
          omega

theorem info_small {n : Nat} (h : info n < 24) : info n = n := by
  unfold info at h ⊢
  split
  · rfl
  · next hlarge =>
    rw [if_neg hlarge] at h
    split at h
    · omega
    · split at h
      · omega
      · split at h <;> omega

/-- The head of an item gives its kind and its argument away. -/
theorem head_unique {major major' n n' : Nat} {rest rest' : List UInt8} (hmajor : major < 8)
    (hmajor' : major' < 8) (hn : n < 2 ^ 64) (hn' : n' < 2 ^ 64)
    (h : head major n ++ rest = head major' n' ++ rest') : major = major' ∧ n = n' ∧ rest = rest' := by
  rw [head_eq, head_eq, List.cons_append, List.cons_append] at h
  obtain ⟨hbyte, htail⟩ := List.cons.inj h
  have hsum : major * 32 + info n = major' * 32 + info n' := by
    have hlt := info_lt n
    have hlt' := info_lt n'
    have hnat := congrArg UInt8.toNat hbyte
    rw [UInt8.toNat_ofNat', UInt8.toNat_ofNat'] at hnat
    omega
  have hinfo : info n = info n' := by
    have hlt := info_lt n
    have hlt' := info_lt n'
    omega
  have hlength : (beBytes (width (info n)) n).length = (beBytes (width (info n')) n').length := by
    rw [length_beBytes, length_beBytes, hinfo]
  obtain ⟨hbytes, hrest⟩ := List.append_inj htail hlength
  refine ⟨by omega, ?_, hrest⟩
  by_cases hsmall : info n < 24
  · rw [← info_small hsmall, hinfo, info_small (hinfo ▸ hsmall)]
  · have hvalue := congrArg beNat hbytes
    rwa [beNat_beBytes_of_lt (lt_width hn hsmall),
      beNat_beBytes_of_lt (lt_width hn' (hinfo ▸ hsmall))] at hvalue

/-! ### Items -/

def major : Cbor → Nat
  | .unsigned _ => 0
  | .negative _ => 1
  | .bytes _ => 2
  | .text _ => 3
  | .array _ => 4
  | .map _ => 5

/-- The argument of an item's head. -/
def argument : Cbor → Nat
  | .unsigned n | .negative n => n
  | .bytes payload => payload.length
  | .text string => string.utf8ByteSize
  | .array items => items.length
  | .map entries => entries.length

/-- The bytes behind an item's head. -/
def body : Cbor → List UInt8
  | .unsigned _ | .negative _ => []
  | .bytes payload => payload
  | .text string => string.toUTF8.toList
  | .array items => encodeItems items
  | .map entries => encodeEntries entries

theorem encode_eq (item : Cbor) : item.encode = head item.major item.argument ++ item.body := by
  cases item with
  | unsigned n | negative n =>
    rw [encode, body, List.append_nil]
    rfl
  | bytes payload | array items | map entries =>
    rw [encode]
    rfl
  | text string =>
    rw [encode]
    rfl

theorem major_lt (item : Cbor) : item.major < 8 := by
  cases item <;> simp [major]

theorem length_head_pos (major n : Nat) : 0 < (head major n).length := by
  rw [head_eq, List.length_cons]
  exact Nat.succ_pos _

theorem length_encode_pos (item : Cbor) : 0 < item.encode.length := by
  rw [encode_eq, List.length_append]
  have hpos := length_head_pos item.major item.argument
  omega

mutual

/-- The numbers in an item are of 64 bits. -/
def Bounded : Cbor → Prop
  | .unsigned n | .negative n => n < 2 ^ 64
  | .bytes _ | .text _ => True
  | .array items => BoundedItems items
  | .map entries => BoundedEntries entries

def BoundedItems : List Cbor → Prop
  | [] => True
  | item :: rest => item.Bounded ∧ BoundedItems rest

def BoundedEntries : List (String × Cbor) → Prop
  | [] => True
  | (_, value) :: rest => value.Bounded ∧ BoundedEntries rest

end

theorem length_items_le (items : List Cbor) : items.length ≤ (encodeItems items).length := by
  induction items with
  | nil => exact Nat.zero_le _
  | cons item items ih =>
    have hpos := length_encode_pos item
    rw [encodeItems, List.length_append, List.length_cons]
    omega

theorem length_entries_le (entries : List (String × Cbor)) :
    entries.length ≤ (encodeEntries entries).length := by
  induction entries with
  | nil => exact Nat.zero_le _
  | cons entry entries ih =>
    have hpos := length_encode_pos entry.2
    rw [encodeEntries, List.length_append, List.length_append, List.length_cons]
    omega

theorem length_utf8 (string : String) : string.toUTF8.toList.length = string.utf8ByteSize := by
  rw [byteArray_toList]
  rfl

/-- Lengths fit a head when the whole item does. -/
theorem argument_lt {item : Cbor} (hbounded : item.Bounded) (hlength : item.encode.length < 2 ^ 64) :
    item.argument < 2 ^ 64 := by
  rw [encode_eq, List.length_append] at hlength
  cases item with
  | unsigned n | negative n => exact hbounded
  | bytes payload =>
    simp only [argument, body] at hlength ⊢
    omega
  | text string =>
    have hutf8 := length_utf8 string
    simp only [argument, body] at hlength ⊢
    omega
  | array items =>
    have hitems := length_items_le items
    simp only [argument, body] at hlength ⊢
    omega
  | map entries =>
    have hentries := length_entries_le entries
    simp only [argument, body] at hlength ⊢
    omega

theorem utf8_unique {string other : String} {rest rest' : List UInt8}
    (hsize : string.utf8ByteSize = other.utf8ByteSize)
    (h : string.toUTF8.toList ++ rest = other.toUTF8.toList ++ rest') :
    string = other ∧ rest = rest' := by
  obtain ⟨hbytes, hrest⟩ := List.append_inj h (by rw [length_utf8, length_utf8, hsize])
  rw [byteArray_toList, byteArray_toList, Array.toList_inj] at hbytes
  exact ⟨String.toByteArray_inj.mp (ByteArray.ext hbytes), hrest⟩

theorem textBytes_unique {string other : String} {rest rest' : List UInt8}
    (hlength : (textBytes string).length < 2 ^ 64) (hlength' : (textBytes other).length < 2 ^ 64)
    (h : textBytes string ++ rest = textBytes other ++ rest') : string = other ∧ rest = rest' := by
  have hutf8 := length_utf8 string
  have hutf8' := length_utf8 other
  rw [textBytes, List.length_append] at hlength hlength'
  rw [textBytes, textBytes, List.append_assoc, List.append_assoc] at h
  obtain ⟨-, hsize, hbody⟩ := head_unique (by decide) (by decide) (by omega) (by omega) h
  exact utf8_unique hsize hbody

mutual

/-- The bytes of an item determine it, whatever follows. -/
theorem encode_unique {item other : Cbor} {rest rest' : List UInt8} (hbounded : item.Bounded)
    (hbounded' : other.Bounded) (hlength : item.encode.length < 2 ^ 64)
    (hlength' : other.encode.length < 2 ^ 64) (h : item.encode ++ rest = other.encode ++ rest') :
    item = other ∧ rest = rest' := by
  have hhead := h
  rw [encode_eq, encode_eq, List.append_assoc, List.append_assoc] at hhead
  obtain ⟨hmajor, hargument, hbody⟩ := head_unique (major_lt item) (major_lt other)
    (argument_lt hbounded hlength) (argument_lt hbounded' hlength') hhead
  cases item with
  | unsigned n =>
    cases other with
    | unsigned m => exact ⟨congrArg _ hargument, hbody⟩
    | _ => cases hmajor
  | negative n =>
    cases other with
    | negative m => exact ⟨congrArg _ hargument, hbody⟩
    | _ => cases hmajor
  | bytes payload =>
    cases other with
    | bytes other =>
      obtain ⟨hpayload, hrest⟩ := List.append_inj hbody hargument
      exact ⟨congrArg _ hpayload, hrest⟩
    | _ => cases hmajor
  | text string =>
    cases other with
    | text other =>
      obtain ⟨hstring, hrest⟩ := utf8_unique hargument hbody
      exact ⟨congrArg _ hstring, hrest⟩
    | _ => cases hmajor
  | array items =>
    cases other with
    | array others =>
      rw [encode, List.length_append] at hlength hlength'
      obtain ⟨hitems, hrest⟩ := encodeItems_unique hbounded hbounded' (by omega) (by omega)
        hargument hbody
      exact ⟨congrArg _ hitems, hrest⟩
    | _ => cases hmajor
  | map entries =>
    cases other with
    | map others =>
      rw [encode, List.length_append] at hlength hlength'
      obtain ⟨hentries, hrest⟩ := encodeEntries_unique hbounded hbounded' (by omega) (by omega)
        hargument hbody
      exact ⟨congrArg _ hentries, hrest⟩
    | _ => cases hmajor

theorem encodeItems_unique {items others : List Cbor} {rest rest' : List UInt8}
    (hbounded : BoundedItems items) (hbounded' : BoundedItems others)
    (hlength : (encodeItems items).length < 2 ^ 64) (hlength' : (encodeItems others).length < 2 ^ 64)
    (hsame : items.length = others.length) (h : encodeItems items ++ rest = encodeItems others ++ rest') :
    items = others ∧ rest = rest' := by
  cases items with
  | nil =>
    cases others with
    | nil => exact ⟨rfl, h⟩
    | cons other others => cases hsame
  | cons item items =>
    cases others with
    | nil => cases hsame
    | cons other others =>
      rw [encodeItems, List.length_append] at hlength hlength'
      rw [encodeItems, encodeItems, List.append_assoc, List.append_assoc] at h
      obtain ⟨rfl, hmore⟩ := encode_unique hbounded.1 hbounded'.1 (by omega) (by omega) h
      obtain ⟨rfl, hrest⟩ := encodeItems_unique hbounded.2 hbounded'.2 (by omega) (by omega)
        (Nat.succ.inj hsame) hmore
      exact ⟨rfl, hrest⟩

theorem encodeEntries_unique {entries others : List (String × Cbor)} {rest rest' : List UInt8}
    (hbounded : BoundedEntries entries) (hbounded' : BoundedEntries others)
    (hlength : (encodeEntries entries).length < 2 ^ 64)
    (hlength' : (encodeEntries others).length < 2 ^ 64) (hsame : entries.length = others.length)
    (h : encodeEntries entries ++ rest = encodeEntries others ++ rest') :
    entries = others ∧ rest = rest' := by
  match entries, others with
  | [], [] => exact ⟨rfl, h⟩
  | [], _ :: _ => cases hsame
  | _ :: _, [] => cases hsame
  | (key, value) :: entries, (key', value') :: others =>
    rw [encodeEntries, List.length_append, List.length_append] at hlength hlength'
    rw [encodeEntries, encodeEntries, List.append_assoc, List.append_assoc, List.append_assoc,
      List.append_assoc] at h
    obtain ⟨rfl, hvalue⟩ := textBytes_unique (by omega) (by omega) h
    obtain ⟨rfl, hmore⟩ := encode_unique hbounded.1 hbounded'.1 (by omega) (by omega) hvalue
    obtain ⟨rfl, hrest⟩ := encodeEntries_unique hbounded.2 hbounded'.2 (by omega) (by omega)
      (Nat.succ.inj hsame) hmore
    exact ⟨rfl, hrest⟩

end

/-! ### Frames -/

@[simp] theorem ofInt_inj {n m : Int} : ofInt n = ofInt m ↔ n = m := by
  refine ⟨fun h => ?_, congrArg ofInt⟩
  unfold ofInt at h
  split at h
  · split at h
    · have hnat := Cbor.unsigned.inj h
      omega
    · cases h
  · split at h
    · cases h
    · have hnat := Cbor.negative.inj h
      omega

@[simp] theorem ofUuid_inj {id other : Uuid} : ofUuid id = ofUuid other ↔ id = other := by
  refine ⟨fun h => ?_, congrArg ofUuid⟩
  have hvalue := congrArg beNat (Cbor.bytes.inj h)
  have hlt : ∀ id : Uuid, id.toNat < 256 ^ 16 := fun id => id.isLt
  rw [beNat_beBytes_of_lt (hlt id), beNat_beBytes_of_lt (hlt other)] at hvalue
  exact BitVec.eq_of_toNat_eq hvalue

@[simp] theorem ofJobResult_inj {result other : JobResult} :
    ofJobResult result = ofJobResult other ↔ result = other := by
  cases result <;> cases other <;> simp [ofJobResult]

theorem ofMessage_injective {message other : WorkerMessage} (h : ofMessage message = ofMessage other) :
    message = other := by
  cases message <;> cases other <;> simp_all [ofMessage, UInt32.toNat_inj]

theorem ofFrame_injective {frame other : WireFrame} (h : ofFrame frame = ofFrame other) :
    frame = other := by
  obtain ⟨version, message⟩ := frame
  obtain ⟨version', message'⟩ := other
  simp only [ofFrame, Cbor.map.injEq, List.cons.injEq, Prod.mk.injEq, Cbor.unsigned.injEq,
    true_and, and_true] at h
  rw [UInt16.toNat_inj.mp h.1, ofMessage_injective h.2]

end Cbor

/-- The job ids of a message are of type `i64`. -/
def WorkerMessage.InRange : WorkerMessage → Prop
  | .jobDispatch jobId _ _ _ | .jobResult jobId _ _ _ _ =>
    -9223372036854775808 ≤ jobId ∧ jobId < 9223372036854775808
  | _ => True

namespace Cbor

theorem ofInt_bounded {n : Int} (h : -9223372036854775808 ≤ n ∧ n < 9223372036854775808) :
    (ofInt n).Bounded := by
  unfold ofInt
  split
  · show n.toNat < 2 ^ 64
    omega
  · show (-1 - n).toNat < 2 ^ 64
    omega

theorem ofFrame_bounded {frame : WireFrame} (h : frame.payload.InRange) : (ofFrame frame).Bounded := by
  obtain ⟨version, message⟩ := frame
  have hversion : version.toNat < 2 ^ 64 := version.toNat_lt.trans (by decide)
  have hword : ∀ word : UInt32, word.toNat < 2 ^ 64 := fun word => word.toNat_lt.trans (by decide)
  have hmessage : (ofMessage message).Bounded := by
    cases message with
    | register instanceId queueName runningJobs freeSlots =>
      exact ⟨trivial, trivial, trivial, hword _, hword _, trivial⟩
    | jobDispatch jobId dispatchId executionCount payload =>
      exact ⟨trivial, ofInt_bounded h, trivial, hword _, trivial, trivial⟩
    | jobResult jobId dispatchId result runningJobs freeSlots =>
      have hresult : (ofJobResult result).Bounded := by
        cases result <;> exact ⟨trivial, trivial, trivial⟩
      exact ⟨trivial, ofInt_bounded h, trivial, hresult, hword _, hword _, trivial⟩
    | drain | draining | heartbeat => exact ⟨trivial, trivial⟩
    | registered queueName => exact ⟨trivial, trivial, trivial⟩
    | error code message => exact ⟨trivial, trivial, trivial, trivial⟩
  exact ⟨hversion, hmessage, trivial⟩

end Cbor

section Wire

variable {codec : Codec}

/-- The body of a frame that was encoded fits its length field, and is what the codec writes. -/
theorem encodeFrame_body (hwrites : ∀ frame, codec.toVec frame = .ok (Cbor.ofFrame frame).encode)
    {frame : WireFrame} {bytes : List UInt8} (h : encodeFrame codec frame = .ok bytes) :
    (Cbor.ofFrame frame).encode.length ≤ maxFrameBytes ∧
      bytes = beBytes 4 (Cbor.ofFrame frame).encode.length ++ (Cbor.ofFrame frame).encode := by
  obtain ⟨body, hbody, hlength, hbytes, -⟩ := encodeFrame_ok h
  obtain rfl : (Cbor.ofFrame frame).encode = body := Except.ok.inj ((hwrites frame).symm.trans hbody)
  exact ⟨hlength, hbytes⟩

/-- The first frame of a stream is determined by the bytes that the stream starts with. -/
theorem encodeFrame_unique (hwrites : ∀ frame, codec.toVec frame = .ok (Cbor.ofFrame frame).encode)
    {frame other : WireFrame} {bytes bytes' rest rest' : List UInt8}
    (hrange : frame.payload.InRange) (hrange' : other.payload.InRange)
    (h : encodeFrame codec frame = .ok bytes) (h' : encodeFrame codec other = .ok bytes')
    (hsame : bytes ++ rest = bytes' ++ rest') : frame = other ∧ rest = rest' := by
  obtain ⟨hlength, rfl⟩ := encodeFrame_body hwrites h
  obtain ⟨hlength', rfl⟩ := encodeFrame_body hwrites h'
  simp only [maxFrameBytes] at hlength hlength'
  rw [List.append_assoc, List.append_assoc] at hsame
  obtain ⟨-, hbody⟩ := List.append_inj hsame (by rw [length_beBytes, length_beBytes])
  obtain ⟨hitem, hrest⟩ := Cbor.encode_unique (Cbor.ofFrame_bounded hrange)
    (Cbor.ofFrame_bounded hrange') (by omega) (by omega) hbody
  exact ⟨Cbor.ofFrame_injective hitem, hrest⟩

/-- The frames of a stream come one after another. -/
theorem encodings_unique (hwrites : ∀ frame, codec.toVec frame = .ok (Cbor.ofFrame frame).encode)
    {frames others : List WireFrame} {encodings encodings' : List (List UInt8)}
    (hrange : ∀ frame ∈ frames, frame.payload.InRange)
    (hrange' : ∀ frame ∈ others, frame.payload.InRange)
    (h : List.Forall₂ (fun frame bytes => encodeFrame codec frame = .ok bytes) frames encodings)
    (h' : List.Forall₂ (fun frame bytes => encodeFrame codec frame = .ok bytes) others encodings')
    (hbegins : encodings.flatten <+: encodings'.flatten) : frames <+: others := by
  induction h generalizing others encodings' with
  | nil => exact List.nil_prefix
  | @cons frame bytes frames encodings hframe _ ih =>
    obtain ⟨rest, hrest⟩ := hbegins
    rw [List.flatten_cons, List.append_assoc] at hrest
    cases h' with
    | nil =>
      have hshort := (length_of_encodes hframe).1
      have hlength := congrArg List.length hrest
      rw [List.length_append, List.flatten_nil, List.length_nil] at hlength
      omega
    | cons hother hothers =>
      obtain ⟨rfl, hmore⟩ := encodeFrame_unique hwrites (hrange _ List.mem_cons_self)
        (hrange' _ List.mem_cons_self) hframe hother hrest
      have htail := ih (fun other hother => hrange other (List.mem_cons_of_mem _ hother))
        (fun other hother => hrange' other (List.mem_cons_of_mem _ hother)) hothers ⟨rest, hmore⟩
      exact List.cons_prefix_cons.mpr ⟨rfl, htail⟩

end Wire

/-- The bytes on a connection determine the frames, whatever strings, payloads and ids these carry:
where the encodings of some frames are a beginning of the encodings of others, the frames are the
first of the others. -/
theorem wire_determines_frames (codec : Codec)
    (hwrites : ∀ frame, codec.toVec frame = .ok (Cbor.ofFrame frame).encode)
    (frames others : List WireFrame) (hrange : ∀ frame ∈ frames, frame.payload.InRange)
    (hrange' : ∀ frame ∈ others, frame.payload.InRange) (encodings encodings' : List (List UInt8))
    (h : frames.mapM (encodeFrame codec) = .ok encodings)
    (h' : others.mapM (encodeFrame codec) = .ok encodings')
    (hbegins : encodings.flatten <+: encodings'.flatten) : frames <+: others :=
  encodings_unique hwrites hrange hrange' (Outcome.mapM_ok h) (Outcome.mapM_ok h') hbegins

/-- Two frames of the short session, and all three of them. -/
theorem wire_determines_frames_session : sessionFrames.take 2 <+: sessionFrames := by
  have hwrites : ∀ frame, (Codec.cbor []).toVec frame = .ok (Cbor.ofFrame frame).encode := fun _ => rfl
  have hrange : ∀ frame ∈ sessionFrames, frame.payload.InRange := by
    simp [sessionFrames, ProtocolFrame.v1, WorkerMessage.InRange]
  exact wire_determines_frames (Codec.cbor []) hwrites (sessionFrames.take 2) sessionFrames
    (fun frame hframe => hrange frame (List.mem_of_mem_take hframe)) hrange (sessionEncodings.take 2)
    sessionEncodings (by decide +kernel) (by decide +kernel) (by decide +kernel)

end Maqistor
