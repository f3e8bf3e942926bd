/-
This file proves what `ProtoMsgCodec` writes into a buffer, and what it makes of
several frames in one buffer.

The encoder reserves the header, has the serializer write behind the name, and
stores the lengths through an offset from the read index. The serializer may
make any legal sequence of calls, so the storage may slide or grow between any
two of them; the frame is behind the readable bytes all the same. A serializer
that fails, on the other hand, leaves the reserved header and the name there.

The decoder parses everything behind the name of the first frame, and takes
everything off. A sequence of calls therefore returns the messages that were
encoded, each with its own frame, if and only if there is one message and
nothing behind it.
-/

import YYNet.Net.ProtoMsg

namespace YYNet

open Checked Storage BigEndian

namespace TcpBuffer

/-- Bytes stored over readable ones. -/
theorem copyIn_readable {b : TcpBuffer} (valid : b.Valid) {front old rest : List UInt8}
    (readable : b.readable = front ++ old ++ rest) (data : List UInt8)
    (same : old.length = data.length) :
    ∃ after, b.copyIn (b.readIndex + front.length) data = .ok after ∧ after.Valid ∧
      after.readIndex = b.readIndex ∧ after.readable = front ++ data ++ rest := by
  have inside : front.length + data.length ≤ b.readableSize := by
    rw [← valid.readable_length, readable, List.length_append, List.length_append]
    omega
  have := valid.read_add_readable
  have := valid.write_le_size
  have size : (overwrite b.buffer (b.readIndex + front.length) data).length = b.buffer.length :=
    overwrite_length _ _ _ (by omega)
  refine ⟨{ b with buffer := overwrite b.buffer (b.readIndex + front.length) data },
    if_neg (by omega), ⟨valid.prepend_le_read, valid.read_le_write, ?_, ?_⟩, rfl, ?_⟩
  · show b.writeIndex ≤ (overwrite _ _ _).length
    omega
  · show (overwrite _ _ _).length ≤ maxSize
    rw [size]
    exact valid.size_le_max
  · have overwritten : stretch (overwrite b.buffer (b.readIndex + front.length) data)
        b.readIndex b.readableSize = overwrite b.readable front.length data :=
      stretch_overwrite_inside _ _ _ _ _ inside (by omega)
    rw [readable, overwrite_append front old rest data same] at overwritten
    exact overwritten

end TcpBuffer

namespace ProtoMsgCodec

variable {Descriptor Prototype Message : Type} (proto : Protobuf Descriptor Prototype Message)

/-! ### What the encoder leaves -/

/-- The length of a frame. -/
def frameLength (message : Message) (body : List UInt8) : Nat :=
  8 + (typeName proto message).length + body.length

/-- The bytes of a frame. -/
def frame (message : Message) (body : List UInt8) : List UInt8 :=
  bytesOf 4 (frameLength proto message body) ++
    bytesOf 4 (typeName proto message).length ++ typeName proto message ++ body

@[simp] theorem frame_length (message : Message) (body : List UInt8) :
    (frame proto message body).length = frameLength proto message body := by
  simp only [frame, frameLength, List.length_append, bytesOf_length]

section

variable (build : Build) {b named : TcpBuffer} {message : Message} {body : List UInt8}
  {stream : ProtoBufOutputStream}

/-- What has been reserved for the header, and the name. -/
theorem reserve_returns (valid : b.Valid) (reserved : reserve proto build message b = .ok named) :
    TcpBuffer.Appended b named (bytesOf 4 0 ++ (bytesOf 4 0 ++ typeName proto message)) := by
  obtain ⟨placed, first, reserved⟩ := bind_eq_ok reserved
  obtain ⟨both, second, third⟩ := bind_eq_ok reserved
  have one := TcpBuffer.append_returns build valid first
  have two := TcpBuffer.append_returns build one.valid second
  have three := TcpBuffer.append_returns build two.valid third
  refine ⟨three.valid, ?_, three.prepend_eq.trans (two.prepend_eq.trans one.prepend_eq)⟩
  rw [three.readable_eq, two.readable_eq, one.readable_eq]
  simp only [List.append_assoc]

/-- The lengths find their place, wherever the serializer's calls have moved the storage. -/
theorem encode_of_calls (valid : b.Valid) (reserved : reserve proto build message b = .ok named)
    (serializes : proto.serializeToZeroCopyStream build message (.create named) =
      .ok (true, stream))
    (calls : ProtoBufOutputStream.Calls build (.create named) body stream) :
    ∃ encoded, encode proto build message b = .ok encoded ∧ encoded.Valid ∧
      encoded.readable = b.readable ++ frame proto message body ∧
      stream.byteCount = body.length := by
  have one := reserve_returns proto build valid reserved
  obtain ⟨written, counted⟩ := calls.spec one.valid
  have placeholders : stream.buffer.readable =
      b.readable ++ bytesOf 4 0 ++ (bytesOf 4 0 ++ typeName proto message ++ body) := by
    rw [written.readable_eq]
    show named.readable ++ body = _
    rw [one.readable_eq]
    simp only [List.append_assoc]
  have total : subSize stream.buffer.readableSize b.readableSize =
      frameLength proto message body := by
    have sizes := congrArg List.length placeholders
    simp only [List.length_append, bytesOf_length, written.valid.readable_length,
      valid.readable_length] at sizes
    rw [subSize_of_le (by omega), frameLength]
    omega
  obtain ⟨measured, first, measuredValid, sameIndex, measuredReadable⟩ :=
    TcpBuffer.copyIn_readable written.valid placeholders
      (bytesOf 4 (frameLength proto message body)) (by rw [bytesOf_length, bytesOf_length])
  have split : measured.readable = b.readable ++ bytesOf 4 (frameLength proto message body) ++
      bytesOf 4 0 ++ (typeName proto message ++ body) := by
    rw [measuredReadable]
    simp only [List.append_assoc]
  obtain ⟨encoded, second, encodedValid, -, encodedReadable⟩ :=
    TcpBuffer.copyIn_readable measuredValid split
      (bytesOf 4 (typeName proto message).length) (by rw [bytesOf_length, bytesOf_length])
  have next : stream.buffer.readIndex + b.readableSize + 4 = measured.readIndex +
      (b.readable ++ bytesOf 4 (frameLength proto message body)).length := by
    rw [sameIndex, List.length_append, bytesOf_length, valid.readable_length, Nat.add_assoc]
  rw [valid.readable_length] at first
  rw [← next] at second
  refine ⟨encoded, ?_, encodedValid, ?_, ?_⟩
  · rw [encode, reserved, ok_bind, serializes, ok_bind]
    simp only [if_true, total, first, ok_bind, second]
  · rw [encodedReadable]
    simp only [frame, List.append_assoc]
  · rw [counted]
    exact zero_add _

/-- An empty buffer. The serializer gets a region of 4096 bytes behind the first frame's name. -/
def emptyBuffer : TcpBuffer := holding [] (List.replicate 16 0)

/-- A serializer that fails leaves the reserved header, the name and what it wrote. -/
theorem encode_of_failure (valid : b.Valid) (reserved : reserve proto build message b = .ok named)
    (fails : proto.serializeToZeroCopyStream build message (.create named) =
      .ok (false, stream))
    (calls : ProtoBufOutputStream.Calls build (.create named) body stream) :
    encode proto build message b = .ok stream.buffer ∧
      stream.buffer.readable = b.readable ++
        (bytesOf 4 0 ++ bytesOf 4 0 ++ typeName proto message ++ body) := by
  have one := reserve_returns proto build valid reserved
  obtain ⟨written, -⟩ := calls.spec one.valid
  constructor
  · rw [encode, reserved, ok_bind, fails, ok_bind]
    rfl
  · rw [written.readable_eq]
    show named.readable ++ body = _
    rw [one.readable_eq]
    simp only [List.append_assoc]

/-- A call of the encoder leaves the readable bytes as they were. -/
def LeavesReadable (proto : Protobuf Descriptor Prototype Message) (build : Build)
    (message : Message) (b : TcpBuffer) : Prop :=
  ∃ after, encode proto build message b = .ok after ∧ after.readable = b.readable

/-- The encoder never leaves the buffer as it was when the serializer fails, after whichever legal
calls. -/
theorem not_leavesReadable (b : TcpBuffer) (valid : b.Valid) (message : Message)
    (fails : ∀ named, reserve proto build message b = .ok named →
      ∃ written stream, proto.serializeToZeroCopyStream build message (.create named) =
          .ok (false, stream) ∧
        ProtoBufOutputStream.Calls build (.create named) written stream) :
    ¬ LeavesReadable proto build message b := by
  rintro ⟨after, returned, same⟩
  obtain ⟨named, reserved, -⟩ := bind_eq_ok returned
  obtain ⟨written, stream, failed, calls⟩ := fails named reserved
  obtain ⟨ended, readable⟩ := encode_of_failure proto build valid reserved failed calls
  obtain rfl := Except.ok.inj (ended.symm.trans returned)
  have lengths := congrArg List.length (readable.symm.trans same)
  simp only [List.length_append, bytesOf_length] at lengths
  omega

/-- The library for messages that cannot be serialized. -/
def refusingProto : Protobuf Unit Unit Bool :=
  { flagProto with serializeToZeroCopyStream := fun _ _ s => .ok (false, s) }

/-- A refused message behind a frame that is queued. -/
theorem not_leavesReadable_refused :
    ¬ LeavesReadable refusingProto .debug true (holding flagFrame (List.replicate 16 0)) :=
  not_leavesReadable refusingProto .debug _ (holding_valid (by decide)) true fun named _ =>
    ⟨[], .create named, rfl, .none _⟩

/-- A header of zeros and a name are left behind the frame that is queued. -/
theorem leaves_header_refused :
    ∃ after, encode refusingProto .release true (holding flagFrame (List.replicate 16 0)) =
        .ok after ∧
      after.readable = flagFrame ++ [0, 0, 0, 0, 0, 0, 0, 0, 84] ∧
      ¬ LeavesReadable refusingProto .release true (holding flagFrame (List.replicate 16 0)) := by
  have returned : encode refusingProto .release true (holding flagFrame (List.replicate 16 0)) =
      .ok (holding (flagFrame ++ [0, 0, 0, 0, 0, 0, 0, 0, 84]) (List.replicate 7 0)) := by
    decide +kernel
  refine ⟨_, returned, by decide, ?_⟩
  rintro ⟨after, returns, same⟩
  obtain rfl := Except.ok.inj (returned.symm.trans returns)
  exact absurd same (by decide)

end

/-! ### Several messages -/

/-- What is assumed of the library: the name of a message's type resolves to the type, its
serializer makes legal calls that leave the body of the message or fails, and its prototype parses
the body. -/
structure Lawful (bodyOf : Message → Option (List UInt8)) : Prop where
  finds : ∀ message, proto.findMessageTypeByName (typeName proto message) =
    some (proto.descriptor message)
  serializes : ∀ build message (s : ProtoBufOutputStream) success stream, s.buffer.Valid →
    proto.serializeToZeroCopyStream build message s = .ok (success, stream) →
      ∃ written, ProtoBufOutputStream.Calls build s written stream ∧
        (∀ body, bodyOf message = some body → success = true ∧ written = body)
  parses : ∀ message body, bodyOf message = some body →
    ∃ prototype, proto.getPrototype (proto.descriptor message) = some prototype ∧
      proto.parse prototype body = some message

/-- Messages encoded one after another. -/
def encodeAll (build : Build) : TcpBuffer → List Message → Except Fault TcpBuffer
  | b, [] => .ok b
  | b, message :: rest => do
    let encoded ← encode proto build message b
    encodeAll build encoded rest

/-- The encoding of a message is within the limits of the decoder. -/
def Within (message : Message) (body : List UInt8) : Prop :=
  frameLength proto message body ≤ maxMessageSize ∧
    (typeName proto message).length ≤ maxNameLength

variable {bodyOf : Message → Option (List UInt8)}

/-- An encoder that returned left a frame behind the readable bytes. -/
theorem encode_returns (lawful : Lawful proto bodyOf) (build : Build) {b encoded : TcpBuffer}
    (valid : b.Valid) {message : Message} {body : List UInt8} (serializes : bodyOf message = body)
    (returned : encode proto build message b = .ok encoded) :
    encoded.Valid ∧ encoded.readable = b.readable ++ frame proto message body := by
  obtain ⟨named, reserved, later⟩ := bind_eq_ok returned
  obtain ⟨⟨success, stream⟩, answers, -⟩ := bind_eq_ok later
  obtain ⟨written, calls, succeeds⟩ := lawful.serializes build message _ success stream
    (reserve_returns proto build valid reserved).valid answers
  obtain ⟨rfl, rfl⟩ := succeeds body serializes
  obtain ⟨other, same, otherValid, readable, -⟩ :=
    encode_of_calls proto build valid reserved answers calls
  obtain rfl := Except.ok.inj (same.symm.trans returned)
  exact ⟨otherValid, readable⟩

/-- What the encoder appends for a message. -/
def encoding (bodyOf : Message → Option (List UInt8)) (message : Message) : List UInt8 :=
  match bodyOf message with
  | none => []
  | some body => frame proto message body

theorem encoding_eq {message : Message} {body : List UInt8} (serializes : bodyOf message = body) :
    encoding proto bodyOf message = frame proto message body := by
  rw [encoding, serializes]

theorem encoding_ne_nil {message : Message} {body : List UInt8}
    (serializes : bodyOf message = body) : encoding proto bodyOf message ≠ [] := by
  intro empty
  have length := congrArg List.length ((encoding_eq proto serializes).symm.trans empty)
  rw [frame_length, frameLength, List.length_nil] at length
  omega

/-- The encodings of messages stand one behind another. -/
theorem encodeAll_returns (lawful : Lawful proto bodyOf) (build : Build) {b encoded : TcpBuffer}
    (valid : b.Valid) {messages : List Message}
    (serializes : ∀ message ∈ messages, ∃ body : List UInt8, bodyOf message = body)
    (returned : encodeAll proto build b messages = .ok encoded) :
    encoded.Valid ∧
      encoded.readable = b.readable ++ messages.flatMap (encoding proto bodyOf) := by
  induction messages generalizing b with
  | nil =>
    obtain rfl : b = encoded := Except.ok.inj returned
    exact ⟨valid, (List.append_nil _).symm⟩
  | cons message rest inductionHypothesis =>
    obtain ⟨next, first, later⟩ := bind_eq_ok returned
    obtain ⟨body, isBody⟩ := serializes message List.mem_cons_self
    obtain ⟨nextValid, nextReadable⟩ := encode_returns proto lawful build valid isBody first
    obtain ⟨encodedValid, readable⟩ := inductionHypothesis nextValid
      (fun other member => serializes other (List.mem_cons_of_mem _ member)) later
    refine ⟨encodedValid, ?_⟩
    rw [readable, nextReadable, List.flatMap_cons, encoding_eq proto isBody, List.append_assoc]

/-! ### The first frame of a buffer -/

section

variable {b : TcpBuffer} {message : Message} {bytes rest : List UInt8}

/-- The readable bytes of a buffer, and the parts of the frame in front of them. -/
structure Begins (b : TcpBuffer) (message : Message) (bytes rest : List UInt8) : Prop where
  valid : b.Valid
  within : Within proto message bytes
  readable_eq : b.readable = frame proto message bytes ++ rest

variable {proto}

theorem Begins.readableSize_eq (begins : Begins proto b message bytes rest) :
    b.readableSize = frameLength proto message bytes + rest.length := by
  rw [← begins.valid.readable_length, begins.readable_eq, List.length_append, frame_length]

theorem Begins.totalLen_eq (begins : Begins proto b message bytes rest) :
    totalLen b = frameLength proto message bytes := by
  have inside : (0 : Nat) + 4 ≤ b.readableSize := by
    rw [begins.readableSize_eq, frameLength]
    omega
  have small : frameLength proto message bytes < 256 ^ 4 :=
    lt_of_le_of_lt begins.within.1 (by norm_num [maxMessageSize])
  have word : stretch b.readable 0 4 = bytesOf 4 (frameLength proto message bytes) := by
    rw [begins.readable_eq, frame, stretch, List.drop_zero, List.append_assoc, List.append_assoc,
      List.append_assoc, List.take_left' (bytesOf_length _ _)]
  rw [totalLen, bytesAt_eq inside, word, valueOf_bytesOf, Nat.mod_eq_of_lt small]

theorem Begins.nameLen_eq (begins : Begins proto b message bytes rest) :
    nameLen b = (typeName proto message).length := by
  have inside : (4 : Nat) + 4 ≤ b.readableSize := by
    rw [begins.readableSize_eq, frameLength]
    omega
  have small : (typeName proto message).length < 256 ^ 4 :=
    lt_of_le_of_lt begins.within.2 (by norm_num [maxNameLength])
  have word : stretch b.readable 4 4 = bytesOf 4 (typeName proto message).length := by
    rw [begins.readable_eq, frame, stretch, List.append_assoc, List.append_assoc,
      List.append_assoc, List.drop_left' (bytesOf_length _ _),
      List.take_left' (bytesOf_length _ _)]
  rw [nameLen, bytesAt_eq inside, word, valueOf_bytesOf, Nat.mod_eq_of_lt small]

theorem Begins.passes (begins : Begins proto b message bytes rest) : HeaderPasses b := by
  have size := begins.readableSize_eq
  refine ⟨?_, ?_, ?_, ?_⟩
  · rw [size, frameLength]
    omega
  · rw [begins.totalLen_eq]
    exact begins.within.1
  · rw [begins.nameLen_eq]
    exact begins.within.2
  · rw [begins.totalLen_eq, size]
    exact Nat.le_add_right _ _

theorem Begins.inside (begins : Begins proto b message bytes rest) :
    8 + nameLen b ≤ b.readableSize := by
  rw [begins.nameLen_eq, begins.readableSize_eq, frameLength]
  omega

theorem Begins.name_eq (begins : Begins proto b message bytes rest) :
    b.bytesAt ⟨8, nameLen b⟩ = typeName proto message := by
  have header : (bytesOf 4 (frameLength proto message bytes) ++
      bytesOf 4 (typeName proto message).length).length = 8 := by simp
  rw [bytesAt_eq begins.inside, begins.nameLen_eq, begins.readable_eq, frame, stretch,
    List.append_assoc, List.append_assoc, List.drop_left' header, List.take_left]

/-- Behind the name are the rest of the frame and the rest of the buffer. -/
theorem Begins.body_eq (begins : Begins proto b message bytes rest) : body b = bytes ++ rest := by
  have header : (bytesOf 4 (frameLength proto message bytes) ++
      bytesOf 4 (typeName proto message).length ++ typeName proto message).length =
        8 + (typeName proto message).length := by
    simp only [List.length_append, bytesOf_length]
  rw [body, begins.nameLen_eq, begins.readable_eq, frame, List.append_assoc,
    List.drop_left' header]

end

/-! ### A sequence of calls -/

/-- One call after the other returns the messages in order, each call takes off exactly the frame
of its message. -/
def DecodesInOrder (proto : Protobuf Descriptor Prototype Message)
    (bodyOf : Message → Option (List UInt8)) (build : Build) : TcpBuffer → List Message → Prop
  | _, [] => True
  | b, message :: rest =>
    ∃ after, (decode proto build b).outcome = .message message after ∧
      after.readable = b.readable.drop (encoding proto bodyOf message).length ∧
      DecodesInOrder proto bodyOf build after rest

section

variable (build : Build) {b : TcpBuffer} {message : Message} {bytes rest : List UInt8}

/-- A call for a frame takes it off and nothing else only if there is nothing else. -/
theorem rest_eq_nil {after : TcpBuffer} (begins : Begins proto b message bytes rest)
    (serializes : bodyOf message = bytes)
    (returned : (decode proto build b).outcome = .message message after)
    (exactly : after.readable = b.readable.drop (encoding proto bodyOf message).length) :
    rest = [] := by
  obtain ⟨-, -, -, rfl, -⟩ := (decode_message_iff proto build begins.valid).mp returned
  have emptied : (b.consumed b.readableSize).readable = [] := by
    rw [TcpBuffer.consumed_readable begins.valid, ← begins.valid.readable_length, List.drop_length]
  rw [emptied, encoding_eq proto serializes, begins.readable_eq, List.drop_left] at exactly
  exact exactly.symm

/-- A frame that is alone in its buffer is decoded. -/
theorem decode_of_alone (lawful : Lawful proto bodyOf) (begins : Begins proto b message bytes [])
    (serializes : bodyOf message = bytes) : DecodesInOrder proto bodyOf build b [message] := by
  obtain ⟨prototype, created, parses⟩ := lawful.parses message bytes serializes
  have short : behind b < 2 ^ 31 := by
    have limit := begins.within.1
    have size := begins.readableSize_eq
    have small : maxMessageSize < 2 ^ 31 := by
      norm_num [maxMessageSize]
    rw [List.length_nil] at size
    unfold behind
    omega
  have returned : (decode proto build b).outcome =
      .message message (b.consumed b.readableSize) := by
    refine (decode_message_iff proto build begins.valid).mpr
      ⟨begins.passes, begins.inside, short, rfl, prototype, ?_, ?_⟩
    · rw [begins.name_eq, createMessage, lawful.finds message]
      exact created
    · rw [begins.body_eq, List.append_nil]
      exact parses
  refine ⟨_, returned, ?_, trivial⟩
  rw [TcpBuffer.consumed_readable begins.valid, ← begins.valid.readable_length,
    begins.readable_eq, List.append_nil, encoding_eq proto serializes]

/-- Messages that were encoded into one buffer are decoded one after the other, each call taking
off its own frame, if and only if there is one message and nothing behind it. -/
theorem decodesInOrder_iff (lawful : Lawful proto bodyOf) (messages : List Message)
    (some : messages ≠ [])
    (within : ∀ message ∈ messages, ∃ body : List UInt8, bodyOf message = body ∧
      Within proto message body)
    (trailing : List UInt8) (sender encoded b : TcpBuffer) (senderValid : sender.Valid)
    (unread : sender.readable = []) (encodes : encodeAll proto build sender messages = .ok encoded)
    (appends : encoded.append build trailing = .ok b) :
    DecodesInOrder proto bodyOf build b messages ↔ (messages.length = 1 ∧ trailing = []) := by
  obtain ⟨encodedValid, encodedReadable⟩ := encodeAll_returns proto lawful build senderValid
    (fun message member => (within message member).imp fun _ both => both.1) encodes
  have appended := TcpBuffer.append_returns build encodedValid appends
  obtain ⟨message, rest, rfl⟩ := List.exists_cons_of_ne_nil some
  obtain ⟨bytes, serializes, isWithin⟩ := within message List.mem_cons_self
  have begins : Begins proto b message bytes
      (rest.flatMap (encoding proto bodyOf) ++ trailing) := by
    refine ⟨appended.valid, isWithin, ?_⟩
    rw [appended.readable_eq, encodedReadable, unread, List.nil_append, List.flatMap_cons,
      encoding_eq proto serializes, List.append_assoc]
  constructor
  · rintro ⟨after, returned, exactly, -⟩
    obtain ⟨noMore, noTrailing⟩ := List.append_eq_nil_iff.mp
      (rest_eq_nil proto build begins serializes returned exactly)
    refine ⟨?_, noTrailing⟩
    cases rest with
    | nil => rfl
    | cons other later =>
      obtain ⟨otherBytes, otherSerializes, -⟩ :=
        within other (List.mem_cons_of_mem _ List.mem_cons_self)
      rw [List.flatMap_cons] at noMore
      exact absurd (List.append_eq_nil_iff.mp noMore).1 (encoding_ne_nil proto otherSerializes)
  · rintro ⟨one, rfl⟩
    obtain rfl : rest = [] := by
      rw [List.length_cons] at one
      exact List.eq_nil_of_length_eq_zero (by omega)
    exact decode_of_alone proto build lawful begins serializes

end

theorem flagProto_lawful : Lawful flagProto (some ∘ flagBody) := by
  refine ⟨fun _ => rfl, ?_, ?_⟩
  · intro build flag s success stream valid returned
    obtain ⟨final, writes, same⟩ := bind_eq_ok returned
    obtain ⟨rfl, rfl⟩ : true = success ∧ final = stream := by
      simpa using same
    refine ⟨flagBody flag, ProtoBufOutputStream.write_calls build valid (le_refl _) writes, ?_⟩
    intro body isBody
    exact ⟨rfl, Option.some.inj isBody⟩
  · intro flag body isBody
    obtain rfl : flagBody flag = body := Option.some.inj isBody
    refine ⟨(), rfl, ?_⟩
    cases flag <;> rfl

set_option maxRecDepth 100000 in
/-- One message that is encoded into an empty buffer is decoded. -/
theorem decodesInOrder_iff_one_message :
    DecodesInOrder flagProto (some ∘ flagBody) .debug
      (holding flagFrame (List.replicate 4094 0)) [true] := by
  have encodes : encodeAll flagProto .debug emptyBuffer [true] =
      .ok (holding flagFrame (List.replicate 4094 0)) := by decide +kernel
  have appends : (holding flagFrame (List.replicate 4094 0)).append .debug [] =
      .ok (holding flagFrame (List.replicate 4094 0)) := by decide +kernel
  exact (decodesInOrder_iff flagProto .debug flagProto_lawful [true] (by decide)
    (fun message _ => ⟨flagBody message, rfl, by cases message <;> exact ⟨by decide, by decide⟩⟩)
    [] emptyBuffer _ _ (holding_valid (by decide)) (by decide) encodes appends).mpr
      ⟨rfl, rfl⟩

set_option maxRecDepth 100000 in
/-- Of two messages that are encoded into an empty buffer not even the first is decoded. -/
theorem not_decodesInOrder :
    ∃ encoded, encodeAll flagProto .release emptyBuffer [true, true] = .ok encoded ∧
      encoded.append .release [] = .ok encoded ∧
      (decode flagProto .release encoded).outcome.returns encoded = some encoded ∧
      ¬ DecodesInOrder flagProto (some ∘ flagBody) .release encoded [true, true] := by
  have encodes : encodeAll flagProto .release emptyBuffer [true, true] =
      .ok (holding (flagFrame ++ flagFrame) (List.replicate 4094 0)) := by decide +kernel
  have appends : (holding (flagFrame ++ flagFrame) (List.replicate 4094 0)).append .release [] =
      .ok (holding (flagFrame ++ flagFrame) (List.replicate 4094 0)) := by decide +kernel
  have rejected : (decode flagProto .release
      (holding (flagFrame ++ flagFrame) (List.replicate 4094 0))).outcome.returns
        (holding (flagFrame ++ flagFrame) (List.replicate 4094 0)) =
      some (holding (flagFrame ++ flagFrame) (List.replicate 4094 0)) := by decide +kernel
  refine ⟨_, encodes, appends, rejected, ?_⟩
  rintro ⟨after, returned, exactly, -⟩
  rw [returned] at rejected
  obtain rfl := Option.some.inj rejected
  exact absurd exactly (by decide)

end ProtoMsgCodec

end YYNet
