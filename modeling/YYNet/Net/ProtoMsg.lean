/-
This file models `ProtoMsgCodec`, the framing of protobuf messages on a
`TcpBuffer`, and proves when it does what a framing is for.

A frame is its total length, the length of the type name, the name and the body.
The decoder compares each of the two lengths with a limit and the total length
with what is readable, and from there on it forgets the total length: the name
is read wherever its length ends, and the body is everything behind the name,
because the stream that protobuf parses ends where the buffer does.

Three things follow. The decoder takes nothing off unless everything behind the
name of the first frame is one message, so a receive loop that waits for another
frame to be complete stays with a rejected one for ever. It stays inside its
frame if and only if nothing is readable behind it. And of the frames in a
buffer it decodes one, when that is the only thing there.

The protobuf library is a parameter: how it names types, resolves names,
serializes and parses.
-/

import YYNet.Lib.Loop
import YYNet.Net.ProtoBuffer

namespace YYNet

open Checked Storage BigEndian

/-! ### The library -/

/-- What the codec calls of protobuf. `serializeToZeroCopyStream` calls the stream it is given and
answers whether it succeeded; `parse` gets the bytes that the stream of the other direction hands
out. -/
structure Protobuf (Descriptor Prototype Message : Type) where
  descriptor : Message → Descriptor
  fullName : Descriptor → List UInt8
  findMessageTypeByName : List UInt8 → Option Descriptor
  getPrototype : Descriptor → Option Prototype
  serializeToZeroCopyStream : Build → Message → ProtoBufOutputStream →
    Except Fault (Bool × ProtoBufOutputStream)
  parse : Prototype → List UInt8 → Option Message

namespace ProtoMsgCodec

variable {Descriptor Prototype Message : Type}

/-! ### The codec -/

def maxMessageSize : Nat := 64 * 1024 * 1024

def maxNameLength : Nat := 256

/-- The full name of a message's type. -/
def typeName (proto : Protobuf Descriptor Prototype Message) (message : Message) : List UInt8 :=
  proto.fullName (proto.descriptor message)

/-- The first half of `encode`: placeholders for the two lengths, and the name. -/
def reserve (proto : Protobuf Descriptor Prototype Message) (build : Build) (message : Message)
    (b : TcpBuffer) : Except Fault TcpBuffer := do
  let placed ← b.fluentAppend build (bytesOf 4 0)
  let both ← placed.append build (bytesOf 4 0)
  both.append build (typeName proto message)

/-- `encode`: a serializer that fails leaves what there is by then; otherwise the lengths are
stored in their place. -/
def encode (proto : Protobuf Descriptor Prototype Message) (build : Build) (message : Message)
    (b : TcpBuffer) : Except Fault TcpBuffer := do
  let lenPos := b.readableSize
  let named ← reserve proto build message b
  let (success, stream) ← proto.serializeToZeroCopyStream build message (.create named)
  let written := stream.buffer
  if success then
    let totalLen := subSize written.readableSize lenPos
    let measured ← written.copyIn (written.readIndex + lenPos) (bytesOf 4 totalLen)
    measured.copyIn (written.readIndex + lenPos + 4) (bytesOf 4 (typeName proto message).length)
  else return written

/-- `createMessage`: the prototype of the new message. -/
def createMessage (proto : Protobuf Descriptor Prototype Message) (name : List UInt8) :
    Option Prototype := do
  let descriptor ← proto.findMessageTypeByName name
  proto.getPrototype descriptor

/-- The first field of a header. -/
def totalLen (b : TcpBuffer) : Nat := valueOf (b.bytesAt ⟨0, 4⟩)

/-- The second field of a header. -/
def nameLen (b : TcpBuffer) : Nat := valueOf (b.bytesAt ⟨4, 4⟩)

/-- How a call of `decode` ends: with the null pointer, with a message and the buffer it was
taken off, with a fault, or never. -/
inductive Outcome (Message : Type)
  | null
  | message (message : Message) (after : TcpBuffer)
  | faulted (fault : Fault)
  | endless

/-- A call of `decode`: what it read as the type name, what it handed out as the body, and how it
ended. -/
structure Decoded (Message : Type) where
  name : Option Window
  body : List Window
  outcome : Outcome Message

/-- `decode` behind the check of `Skip`: `ParseFromZeroCopyStream` and `consume`. -/
def parseBody (proto : Protobuf Descriptor Prototype Message) (build : Build) (b : TcpBuffer)
    (prototype : Prototype) : List Window × Reading → Outcome Message
  | (windows, .finished stream) =>
    match proto.parse prototype (windows.flatMap b.bytesAt) with
    | none => .null
    | some message =>
      match stream.consume build with
      | .error fault => .faulted fault
      | .ok after => .message message after
  | (_, .broken) => .faulted .outOfBounds
  | (_, .endless) => .endless

/-- `decode`. The name is read from the storage, whether or not it is readable. -/
def decode (proto : Protobuf Descriptor Prototype Message) (build : Build) (b : TcpBuffer) :
    Decoded Message :=
  if b.readableSize < 8 then ⟨none, [], .null⟩
  else if maxMessageSize < totalLen b ∨ maxNameLength < nameLen b then ⟨none, [], .null⟩
  else if b.readableSize < totalLen b then ⟨none, [], .null⟩
  else if b.buffer.length < b.readIndex + 8 + nameLen b then
    ⟨some ⟨8, nameLen b⟩, [], .faulted .outOfBounds⟩
  else
    match createMessage proto (b.bytesAt ⟨8, nameLen b⟩) with
    | none => ⟨some ⟨8, nameLen b⟩, [], .null⟩
    | some prototype =>
      match (ProtoBufInputStream.create b).skip ((8 + nameLen b : Nat) : Int) with
      | none => ⟨some ⟨8, nameLen b⟩, [], .null⟩
      | some stream =>
        ⟨some ⟨8, nameLen b⟩, stream.read.1, parseBody proto build b prototype stream.read⟩

/-- `msgComplete`: a debug build peeks at the first four bytes before it asks whether they are
readable. -/
def msgComplete (build : Build) (b : TcpBuffer) : Except Fault Bool :=
  if build = .debug ∧ b.buffer.length < b.readIndex + 4 then .error .outOfBounds
  else .ok (decide (4 ≤ b.readableSize ∧ totalLen b ≤ b.readableSize))

/-- A round of the receive loop, `while (msgComplete(buf)) decode(buf)`. A call that never returns
is a round that starts again. -/
def round (proto : Protobuf Descriptor Prototype Message) (build : Build) (b : TcpBuffer) :
    Except Fault (Bool × TcpBuffer) := do
  if ← msgComplete build b then
    match (decode proto build b).outcome with
    | .null => return (false, b)
    | .message _ after => return (false, after)
    | .faulted fault => throw fault
    | .endless => return (false, b)
  else return (true, b)

/-! ### What a call of `decode` does -/

/-- The header passes the checks of the decoder. -/
structure HeaderPasses (b : TcpBuffer) : Prop where
  readable : 8 ≤ b.readableSize
  total_le : totalLen b ≤ maxMessageSize
  name_le : nameLen b ≤ maxNameLength
  arrived : totalLen b ≤ b.readableSize

instance headerPassesDecidable (b : TcpBuffer) : Decidable (HeaderPasses b) :=
  decidable_of_iff (8 ≤ b.readableSize ∧ totalLen b ≤ maxMessageSize ∧
      nameLen b ≤ maxNameLength ∧ totalLen b ≤ b.readableSize)
    ⟨fun ⟨readable, total, name, arrived⟩ => ⟨readable, total, name, arrived⟩,
      fun passes => ⟨passes.readable, passes.total_le, passes.name_le, passes.arrived⟩⟩

/-- How many bytes are readable behind the type name. -/
def behind (b : TcpBuffer) : Nat := b.readableSize - (8 + nameLen b)

/-- The bytes that are readable behind the type name. -/
def body (b : TcpBuffer) : List UInt8 := b.readable.drop (8 + nameLen b)

section

variable (proto : Protobuf Descriptor Prototype Message) (build : Build) {b : TcpBuffer}

/-- A header that does not pass is rejected before anything is read. -/
theorem decode_of_not_passes (rejected : ¬ HeaderPasses b) :
    decode proto build b = ⟨none, [], .null⟩ := by
  unfold decode
  split
  · rfl
  · split
    · rfl
    · split
      · rfl
      · exact absurd ⟨by omega, by omega, by omega, by omega⟩ rejected

/-- A header that passes leads to the type name. -/
theorem decode_of_passes (passes : HeaderPasses b) :
    decode proto build b =
      if b.buffer.length < b.readIndex + 8 + nameLen b then
        ⟨some ⟨8, nameLen b⟩, [], .faulted .outOfBounds⟩
      else
        match createMessage proto (b.bytesAt ⟨8, nameLen b⟩) with
        | none => ⟨some ⟨8, nameLen b⟩, [], .null⟩
        | some prototype =>
          match (ProtoBufInputStream.create b).skip ((8 + nameLen b : Nat) : Int) with
          | none => ⟨some ⟨8, nameLen b⟩, [], .null⟩
          | some stream =>
            ⟨some ⟨8, nameLen b⟩, stream.read.1, parseBody proto build b prototype stream.read⟩ := by
  have := passes.readable
  have := passes.total_le
  have := passes.name_le
  have := passes.arrived
  rw [decode, if_neg (by omega), if_neg (by omega), if_neg (by omega)]

/-- A window of the readable bytes. -/
theorem bytesAt_eq {window : Window}
    (inside : window.start + window.size ≤ b.readableSize) :
    b.bytesAt window = stretch b.readable window.start window.size := by
  rw [TcpBuffer.bytesAt, TcpBuffer.readable, stretch, stretch, stretch, List.drop_take,
    List.take_take, List.drop_drop, Nat.min_eq_left (by omega)]

/-- `Skip` passes over the header if that is readable. -/
theorem skip_eq (passes : HeaderPasses b) :
    (ProtoBufInputStream.create b).skip ((8 + nameLen b : Nat) : Int) =
      if b.readableSize < 8 + nameLen b then none
      else some ⟨b, 8 + nameLen b, b.readableSize⟩ := by
  have small : 8 + nameLen b < sizeModulus := by
    have := passes.name_le
    have limit : 8 + maxNameLength < sizeModulus := by
      simp only [maxNameLength, sizeModulus]
      norm_num
    omega
  have moved : addSize 0 (sizeOfInt ((8 + nameLen b : Nat) : Int)) = 8 + nameLen b := by
    rw [sizeOfInt_of_nonneg small, addSize_of_lt (by omega), Nat.zero_add]
  unfold ProtoBufInputStream.skip ProtoBufInputStream.create
  simp only [moved]
  by_cases outside : b.readableSize < 8 + nameLen b
  · rw [if_pos (.inr outside), if_pos outside]
  · rw [if_neg (by omega), if_neg outside]

/-- The stream behind the header. -/
def bodyStream (b : TcpBuffer) : ProtoBufInputStream := ⟨b, 8 + nameLen b, b.readableSize⟩

@[simp] theorem bodyStream_remaining : (bodyStream b).remaining = behind b := rfl

theorem read_bodyStream (valid : b.Valid) (inside : 8 + nameLen b ≤ b.readableSize) :
    (bodyStream b).read =
      if behind b < 2 ^ 31 then ((bodyStream b).wholeWindow, .finished (bodyStream b).drained)
      else if 2 ^ 31 ≤ behind b % 2 ^ 32 then ([], .broken)
      else ((bodyStream b).wholeWindow, .endless) := by
  have isSize : b.readableSize < sizeModulus := by
    have := valid.read_add_readable
    have := valid.write_le_size
    have := valid.size_lt
    omega
  exact ProtoBufInputStream.read_spec inside isSize

/-- The bytes that a parser gets of a stream it reads to its end. -/
theorem flatMap_wholeWindow (valid : b.Valid) (inside : 8 + nameLen b ≤ b.readableSize)
    (short : behind b < 2 ^ 31) : (bodyStream b).wholeWindow.flatMap b.bytesAt = body b := by
  have modulo : behind b % 2 ^ 32 = behind b := Nat.mod_eq_of_lt (by omega)
  have measured := valid.readable_length
  have length : (body b).length = behind b := by
    rw [body, List.length_drop, measured]
    rfl
  rw [ProtoBufInputStream.wholeWindow, bodyStream_remaining, modulo]
  by_cases none : behind b = 0
  · rw [if_pos none, List.flatMap_nil, List.eq_nil_of_length_eq_zero (length.trans none)]
  · rw [if_neg none, List.flatMap_singleton, bytesAt_eq]
    · show (b.readable.drop (8 + nameLen b)).take (behind b) = _
      rw [← length]
      exact List.take_length
    · show 8 + nameLen b + behind b ≤ b.readableSize
      unfold behind
      omega

/-- The outcome of a call that comes to the body. -/
def bodyOutcome (b : TcpBuffer) (prototype : Prototype) : Outcome Message :=
  if behind b < 2 ^ 31 then
    match proto.parse prototype (body b) with
    | none => .null
    | some message => .message message (b.consumed b.readableSize)
  else if 2 ^ 31 ≤ behind b % 2 ^ 32 then .faulted .outOfBounds
  else .endless

/-- A call that comes to the body parses what is behind the name, all of it. -/
theorem parseBody_eq (valid : b.Valid) (inside : 8 + nameLen b ≤ b.readableSize)
    (prototype : Prototype) :
    parseBody proto build b prototype (bodyStream b).read = bodyOutcome proto b prototype := by
  rw [read_bodyStream valid inside, bodyOutcome]
  by_cases short : behind b < 2 ^ 31
  · rw [if_pos short, if_pos short, parseBody, flatMap_wholeWindow valid inside short]
    have consumes : (bodyStream b).drained.consume build =
        .ok (b.consumed b.readableSize) :=
      TcpBuffer.consume_eq build valid (le_refl _)
    rw [consumes]
  · rw [if_neg short, if_neg short]
    split <;> rfl

/-- A call whose header passes and whose name is in the storage. -/
theorem decode_of_named (valid : b.Valid) (passes : HeaderPasses b)
    (stored : b.readIndex + 8 + nameLen b ≤ b.buffer.length) :
    decode proto build b =
      match createMessage proto (b.bytesAt ⟨8, nameLen b⟩) with
      | none => ⟨some ⟨8, nameLen b⟩, [], .null⟩
      | some prototype =>
        if b.readableSize < 8 + nameLen b then ⟨some ⟨8, nameLen b⟩, [], .null⟩
        else ⟨some ⟨8, nameLen b⟩, (bodyStream b).read.1, bodyOutcome proto b prototype⟩ := by
  rw [decode_of_passes proto build passes, if_neg (by omega), skip_eq passes]
  cases createMessage proto (b.bytesAt ⟨8, nameLen b⟩) with
  | none => rfl
  | some prototype =>
    by_cases outside : b.readableSize < 8 + nameLen b
    · simp only [if_pos outside]
    · have parses := parseBody_eq proto build valid (not_lt.mp outside) prototype
      simp only [if_neg outside]
      exact congrArg (Decoded.mk _ _) parses

/-- What is readable is in the storage. -/
theorem stored_of_inside (valid : b.Valid) (inside : 8 + nameLen b ≤ b.readableSize) :
    b.readIndex + 8 + nameLen b ≤ b.buffer.length := by
  have := valid.read_add_readable
  have := valid.write_le_size
  omega

/-- A call returns a message if and only if everything behind the type name is that message, and
then it takes everything off. -/
theorem decode_message_iff (valid : b.Valid) {message : Message} {after : TcpBuffer} :
    (decode proto build b).outcome = .message message after ↔
      HeaderPasses b ∧ 8 + nameLen b ≤ b.readableSize ∧ behind b < 2 ^ 31 ∧
        after = b.consumed b.readableSize ∧
        ∃ prototype, createMessage proto (b.bytesAt ⟨8, nameLen b⟩) = some prototype ∧
          proto.parse prototype (body b) = some message := by
  constructor
  · intro returned
    by_cases passes : HeaderPasses b
    · by_cases stored : b.readIndex + 8 + nameLen b ≤ b.buffer.length
      · rw [decode_of_named proto build valid passes stored] at returned
        split at returned
        · cases returned
        · rename_i prototype created
          split at returned
          · cases returned
          · rename_i inside
            simp only [bodyOutcome] at returned
            split at returned
            · rename_i short
              split at returned
              · cases returned
              · rename_i parsed parses
                obtain ⟨rfl, rfl⟩ : parsed = message ∧ b.consumed b.readableSize = after := by
                  simpa using returned
                exact ⟨passes, not_lt.mp inside, short, rfl, prototype, created, parses⟩
            · split at returned
              · cases returned
              · cases returned
      · rw [decode_of_passes proto build passes, if_pos (not_le.mp stored)] at returned
        cases returned
    · rw [decode_of_not_passes proto build passes] at returned
      cases returned
  · rintro ⟨passes, inside, short, rfl, prototype, created, parses⟩
    rw [decode_of_named proto build valid passes (stored_of_inside valid inside), created]
    simp only
    rw [if_neg (not_lt.mpr inside), bodyOutcome, if_pos short, parses]

/-! ### One type of messages -/

/-- The fields of a message with one bool, behind the value read last. -/
def parseFlags : Bool → List UInt8 → Option Bool
  | flag, [] => some flag
  | _, 8 :: 1 :: rest => parseFlags true rest
  | _, 8 :: 0 :: rest => parseFlags false rest
  | _, _ => none

/-- What a message is serialized to. A bool that is false is left out. -/
def flagBody (flag : Bool) : List UInt8 := if flag then [8, 1] else []

/-- The library for one type of messages: the name is `T`, and a message is one bool, the first
field. The last one of several counts. -/
def flagProto : Protobuf Unit Unit Bool where
  descriptor := fun _ => ()
  fullName := fun _ => [84]
  findMessageTypeByName := fun name => if name = [84] then some () else none
  getPrototype := fun _ => some ()
  serializeToZeroCopyStream := fun build flag s => do
    let final ← s.write build (flagBody flag).length (flagBody flag)
    return (true, final)
  parse := fun _ => parseFlags false

/-- The frame of a message that is true. -/
def flagFrame : List UInt8 := [0, 0, 0, 11, 0, 0, 0, 1, 84, 8, 1]

/-- A buffer whose readable bytes are given, with bytes that are left from before behind them. -/
def holding (bytes stale : List UInt8) : TcpBuffer where
  buffer := List.replicate 8 0 ++ bytes ++ stale
  prependSize := 8
  readIndex := 8
  writeIndex := 8 + bytes.length

theorem holding_valid {bytes stale : List UInt8} (small : bytes.length + stale.length ≤ 1024) :
    (holding bytes stale).Valid := by
  have limit : 2048 ≤ maxSize := by
    unfold maxSize
    norm_num
  have length : (holding bytes stale).buffer.length = 8 + bytes.length + stale.length := by
    rw [holding, List.length_append, List.length_append, List.length_replicate]
  exact ⟨le_refl _, Nat.le_add_right _ _, by rw [length]; exact Nat.le_add_right _ _,
    by rw [length]; omega⟩

/-! ### Progress -/

/-- The buffer after a call that has returned. -/
def Outcome.returns (b : TcpBuffer) : Outcome Message → Option TcpBuffer
  | .null => some b
  | .message _ after => some after
  | .faulted _ => none
  | .endless => none

/-- A call of `decode` returns and leaves fewer bytes to read. -/
def Progresses (b : TcpBuffer) : Prop :=
  ∃ after, (decode proto build b).outcome.returns b = some after ∧
    after.readableSize < b.readableSize

/-- The receive loop comes to its end. -/
def LoopEnds (b : TcpBuffer) : Prop :=
  ∃ fuel final, Loop.run (round proto build) fuel b = some (.ok final)

/-- A debug build finds the four bytes it peeks at in the storage. -/
def PeekInside (b : TcpBuffer) : Prop := build = .debug → b.readIndex + 4 ≤ b.buffer.length

/-- The header passes, its type name is readable and resolves, and what is behind the name is one
message of the type, no longer than an `int` counts. -/
structure Accepted (b : TcpBuffer) : Prop where
  passes : HeaderPasses b
  inside : 8 + nameLen b ≤ b.readableSize
  short : behind b < 2 ^ 31
  parses : ∃ prototype message,
    createMessage proto (b.bytesAt ⟨8, nameLen b⟩) = some prototype ∧
      proto.parse prototype (body b) = some message

theorem msgComplete_eq (peeks : PeekInside build b) :
    msgComplete build b = .ok (decide (4 ≤ b.readableSize ∧ totalLen b ≤ b.readableSize)) :=
  if_neg fun fails => absurd (peeks fails.1) (by omega)

theorem peekInside_of_msgComplete {complete : Bool}
    (returned : msgComplete build b = .ok complete) : PeekInside build b := by
  intro debug
  by_contra outside
  rw [msgComplete, if_pos ⟨debug, by omega⟩] at returned
  cases returned

theorem progresses_iff_accepted (valid : b.Valid) :
    Progresses proto build b ↔ Accepted proto b := by
  constructor
  · rintro ⟨after, returns, less⟩
    cases ended : (decode proto build b).outcome with
    | null =>
      rw [ended] at returns
      obtain rfl := Option.some.inj returns
      exact absurd less (lt_irrefl _)
    | message message taken =>
      obtain ⟨passes, inside, short, -, prototype, created, parses⟩ :=
        (decode_message_iff proto build valid).mp ended
      exact ⟨passes, inside, short, prototype, message, created, parses⟩
    | faulted fault =>
      rw [ended] at returns
      cases returns
    | endless =>
      rw [ended] at returns
      cases returns
  · rintro ⟨passes, inside, short, prototype, message, created, parses⟩
    have ended := (decode_message_iff proto build valid).mpr
      ⟨passes, inside, short, rfl, prototype, created, parses⟩
    refine ⟨b.consumed b.readableSize, by rw [ended]; rfl, ?_⟩
    have := passes.readable
    rw [TcpBuffer.consumed_readableSize valid]
    omega

/-- A complete frame that is not accepted is there in every round. -/
theorem not_loopEnds (valid : b.Valid) (complete : msgComplete build b = .ok true)
    (rejected : ¬ Accepted proto b) : ¬ LoopEnds proto build b := by
  rintro ⟨fuel, final, returned⟩
  have first : round proto build b = match (decode proto build b).outcome with
      | .null => .ok (false, b)
      | .message _ after => .ok (false, after)
      | .faulted fault => .error fault
      | .endless => .ok (false, b) := by
    rw [round, complete]
    rfl
  have stays : round proto build b = .ok (false, b) →
      Loop.run (round proto build) fuel b = none := fun same =>
    Loop.run_eq_none (· = b) (fun state is => ⟨b, by rw [is, same], rfl⟩) rfl fuel
  cases ended : (decode proto build b).outcome with
  | null =>
    rw [stays (by rw [first, ended])] at returned
    cases returned
  | message message taken =>
    obtain ⟨passes, inside, short, -, prototype, created, parses⟩ :=
      (decode_message_iff proto build valid).mp ended
    exact rejected ⟨passes, inside, short, prototype, message, created, parses⟩
  | faulted fault =>
    rw [ended] at first
    cases fuel with
    | zero => cases returned
    | succ fuel =>
      rw [Loop.run, first] at returned
      cases Option.some.inj returned
  | endless =>
    rw [stays (by rw [first, ended])] at returned
    cases returned

/-- A buffer stays as it is: its frame is complete, a call makes no progress, and the loop does not
end. -/
structure Stays (b : TcpBuffer) : Prop where
  complete : msgComplete build b = .ok true
  notProgresses : ¬ Progresses proto build b
  notEnds : ¬ LoopEnds proto build b

theorem stays_of_null (valid : b.Valid) (complete : msgComplete build b = .ok true)
    (unchanged : (decode proto build b).outcome.returns b = some b) : Stays proto build b := by
  have stuck : ¬ Progresses proto build b := by
    rintro ⟨after, returns, less⟩
    obtain rfl := Option.some.inj (unchanged.symm.trans returns)
    exact absurd less (lt_irrefl _)
  exact ⟨complete, stuck, not_loopEnds proto build valid complete fun accepted =>
    stuck ((progresses_iff_accepted proto build valid).mpr accepted)⟩

/-- A loop that has taken everything off ends in the next round. -/
theorem loopEnds_of_accepted (valid : b.Valid) (peeks : PeekInside build b)
    (complete : msgComplete build b = .ok true) (accepted : Accepted proto b) :
    LoopEnds proto build b := by
  obtain ⟨passes, inside, short, prototype, message, created, parses⟩ := accepted
  have ended := (decode_message_iff proto build valid).mpr
    ⟨passes, inside, short, rfl, prototype, created, parses⟩
  have first : round proto build b = .ok (false, b.consumed b.readableSize) := by
    rw [round, complete, ok_bind]
    simp only [if_true, ended, pure_eq_ok]
  have emptied : (b.consumed b.readableSize).readableSize = 0 := by
    rw [TcpBuffer.consumed_readableSize valid, Nat.sub_self]
  have peeksAgain : PeekInside build (b.consumed b.readableSize) := by
    intro debug
    have := peeks debug
    have := valid.prepend_le_read
    rw [TcpBuffer.consumed_buffer, TcpBuffer.consumed, if_neg (lt_irrefl _)]
    simp only
    omega
  have second : round proto build (b.consumed b.readableSize) =
      .ok (true, b.consumed b.readableSize) := by
    have none : ¬ (4 ≤ (b.consumed b.readableSize).readableSize ∧
        totalLen (b.consumed b.readableSize) ≤ (b.consumed b.readableSize).readableSize) := by
      omega
    rw [round, msgComplete_eq build peeksAgain, decide_eq_false none]
    rfl
  refine ⟨2, b.consumed b.readableSize, ?_⟩
  simp only [Loop.run, first, second]

/-- A complete frame makes progress and the loop over the frames ends, if and only if a debug
build can peek and a complete frame is accepted. -/
theorem progresses_iff (b : TcpBuffer) (valid : b.Valid) :
    ((msgComplete build b = .ok true → Progresses proto build b) ∧ LoopEnds proto build b) ↔
      (PeekInside build b ∧
        (4 ≤ b.readableSize ∧ totalLen b ≤ b.readableSize → Accepted proto b)) := by
  constructor
  · rintro ⟨progresses, ends⟩
    have peeks : PeekInside build b := by
      obtain ⟨fuel, final, returned⟩ := ends
      cases answered : msgComplete build b with
      | ok complete => exact peekInside_of_msgComplete build answered
      | error fault =>
        cases fuel with
        | zero => cases returned
        | succ fuel =>
          rw [Loop.run, round, answered] at returned
          cases Option.some.inj returned
    refine ⟨peeks, fun complete => ?_⟩
    have answered : msgComplete build b = .ok true := by
      rw [msgComplete_eq build peeks, decide_eq_true complete]
    exact (progresses_iff_accepted proto build valid).mp (progresses answered)
  · rintro ⟨peeks, accepted⟩
    have answer := msgComplete_eq build peeks
    by_cases complete : 4 ≤ b.readableSize ∧ totalLen b ≤ b.readableSize
    · rw [decide_eq_true complete] at answer
      exact ⟨fun _ => (progresses_iff_accepted proto build valid).mpr (accepted complete),
        loopEnds_of_accepted proto build valid peeks answer (accepted complete)⟩
    · rw [decide_eq_false complete] at answer
      refine ⟨fun isComplete => ?_, 0 + 1, b, ?_⟩
      · rw [answer] at isComplete
        cases Except.ok.inj isComplete
      · rw [Loop.run, round, answer]
        rfl

/-- A buffer that holds one message makes progress. -/
theorem progresses_iff_one_frame :
    (msgComplete .debug (holding flagFrame []) = .ok true →
        Progresses flagProto .debug (holding flagFrame [])) ∧
      LoopEnds flagProto .debug (holding flagFrame []) :=
  (progresses_iff flagProto .debug _ (holding_valid (by decide))).mpr
    ⟨by unfold PeekInside; decide, fun _ => ⟨by decide, by decide,
      by decide, (), true, by decide, by decide⟩⟩

/-- A frame of length zero, a frame of an unknown type, and two messages that arrived together are
complete, and neither of them ever leaves the buffer. -/
theorem not_progresses :
    Stays flagProto .release (holding [0, 0, 0, 0, 0, 0, 0, 0] []) ∧
      Stays flagProto .release (holding [0, 0, 0, 9, 0, 0, 0, 1, 85] []) ∧
      Stays flagProto .release (holding (flagFrame ++ flagFrame) []) :=
  ⟨stays_of_null flagProto .release (holding_valid (by decide)) (by decide)
      (by decide),
    stays_of_null flagProto .release (holding_valid (by decide)) (by decide)
      (by decide),
    stays_of_null flagProto .release (holding_valid (by decide)) (by decide)
      (by decide +kernel)⟩

/-! ### The bounds of a frame -/

/-- A call read a byte behind the read index as part of the type name or of the body. -/
def Reads (call : Decoded Message) (index : Nat) : Prop :=
  ∃ window ∈ call.name.toList ++ call.body,
    window.start ≤ index ∧ index < window.start + window.size

/-- A call stays inside its frame: it reads no byte that is not, and a frame that is shorter than
its header and its name is rejected before the name is read. -/
structure StaysInside (b : TcpBuffer) : Prop where
  inside : ∀ index, Reads (decode proto build b) index →
    index < min (totalLen b) b.readableSize
  noFault : (decode proto build b).outcome ≠ .faulted .outOfBounds
  rejects : totalLen b < 8 + nameLen b → decode proto build b = ⟨none, [], .null⟩

/-- The frame reaches behind its name, and over what a call is handed as the body if the name
resolves: what is readable behind the name, modulo `2 ^ 32`. -/
def FrameCovers (b : TcpBuffer) : Prop :=
  8 + nameLen b ≤ totalLen b ∧
    ∀ prototype, createMessage proto (b.bytesAt ⟨8, nameLen b⟩) = some prototype →
      8 + nameLen b + behind b % 2 ^ 32 ≤ totalLen b

theorem staysInside_of_not_passes (rejected : ¬ HeaderPasses b) : StaysInside proto build b := by
  have none := decode_of_not_passes proto build rejected
  refine ⟨?_, ?_, fun _ => none⟩
  · rintro index ⟨window, member, -⟩
    rw [none] at member
    cases member
  · rw [none]
    intro fault
    cases fault

/-- A call that reads a name without its last byte in the frame does not stay inside. -/
theorem covers_name (passes : HeaderPasses b) (stays : StaysInside proto build b) :
    8 + nameLen b ≤ totalLen b := by
  by_contra short
  have none := stays.rejects (not_le.mp short)
  rw [decode_of_passes proto build passes] at none
  split at none
  · cases none
  · split at none
    · cases none
    · split at none
      · cases none
      · cases none

/-- The call of a frame that reaches behind its name. -/
theorem decode_of_covered (valid : b.Valid) (passes : HeaderPasses b)
    (covered : 8 + nameLen b ≤ totalLen b) :
    decode proto build b =
      match createMessage proto (b.bytesAt ⟨8, nameLen b⟩) with
      | none => ⟨some ⟨8, nameLen b⟩, [], .null⟩
      | some prototype =>
        ⟨some ⟨8, nameLen b⟩, (bodyStream b).read.1, bodyOutcome proto b prototype⟩ := by
  have inside : 8 + nameLen b ≤ b.readableSize := covered.trans passes.arrived
  rw [decode_of_named proto build valid passes (stored_of_inside valid inside)]
  simp only [if_neg (not_lt.mpr inside)]

/-- The bytes a call is handed as the body. -/
theorem mem_read_bodyStream (valid : b.Valid) (inside : 8 + nameLen b ≤ b.readableSize)
    (sound : behind b < 2 ^ 31 ∨ behind b % 2 ^ 32 < 2 ^ 31) (window : Window) :
    window ∈ (bodyStream b).read.1 ↔
      behind b % 2 ^ 32 ≠ 0 ∧ window = ⟨8 + nameLen b, behind b % 2 ^ 32⟩ := by
  have windows : (bodyStream b).read.1 = (bodyStream b).wholeWindow := by
    rw [read_bodyStream valid inside]
    split
    · rfl
    · rw [if_neg (by omega)]
  rw [windows, ProtoBufInputStream.wholeWindow, bodyStream_remaining]
  by_cases none : behind b % 2 ^ 32 = 0
  · rw [if_pos none]
    refine ⟨fun member => ?_, fun same => absurd none same.1⟩
    cases member
  · rw [if_neg none, List.mem_singleton]
    exact ⟨fun same => ⟨none, same⟩, fun same => same.2⟩

/-- A frame of a call that stays inside covers what the call reads. -/
theorem frameCovers_of_stays (valid : b.Valid) (passes : HeaderPasses b)
    (stays : StaysInside proto build b) : FrameCovers proto b := by
  have covered := covers_name proto build passes stays
  have inside : 8 + nameLen b ≤ b.readableSize := covered.trans passes.arrived
  refine ⟨covered, fun prototype created => ?_⟩
  have call := decode_of_covered proto build valid passes covered
  rw [created] at call
  have sound : behind b < 2 ^ 31 ∨ behind b % 2 ^ 32 < 2 ^ 31 := by
    by_contra unsound
    refine stays.noFault ?_
    rw [call]
    simp only [bodyOutcome]
    rw [if_neg (by omega), if_pos (by omega)]
  by_cases none : behind b % 2 ^ 32 = 0
  · omega
  · -- The last byte of the window is one the call reads.
    have last := stays.inside (8 + nameLen b + behind b % 2 ^ 32 - 1) (by
      rw [call]
      refine ⟨⟨8 + nameLen b, behind b % 2 ^ 32⟩, List.mem_append_right _ ?_, ?_, ?_⟩
      · exact (mem_read_bodyStream valid inside sound _).mpr ⟨none, rfl⟩
      · show 8 + nameLen b ≤ _
        omega
      · show _ < 8 + nameLen b + behind b % 2 ^ 32
        omega)
    omega

/-- A call reads no more than the frame covers. -/
theorem stays_of_frameCovers (valid : b.Valid) (passes : HeaderPasses b)
    (covers : FrameCovers proto b) : StaysInside proto build b := by
  obtain ⟨covered, reaches⟩ := covers
  have inside : 8 + nameLen b ≤ b.readableSize := covered.trans passes.arrived
  have arrived := passes.arrived
  have limit : totalLen b < 2 ^ 31 :=
    lt_of_le_of_lt passes.total_le (by simp only [maxMessageSize]; norm_num)
  have call := decode_of_covered proto build valid passes covered
  cases created : createMessage proto (b.bytesAt ⟨8, nameLen b⟩) with
  | none =>
    rw [created] at call
    refine ⟨?_, ?_, fun short => absurd covered (not_le.mpr short)⟩
    · rintro index ⟨window, member, starts, ends⟩
      rw [call] at member
      obtain rfl : window = ⟨8, nameLen b⟩ := by simpa using member
      simp only at starts ends
      omega
    · rw [call]
      intro fault
      cases fault
  | some prototype =>
    have reached := reaches prototype created
    rw [created] at call
    refine ⟨?_, ?_, fun short => absurd covered (not_le.mpr short)⟩
    · rintro index ⟨window, member, starts, ends⟩
      rw [call] at member
      rcases List.mem_append.mp member with isName | isBody
      · obtain rfl : window = ⟨8, nameLen b⟩ := by simpa using isName
        simp only at starts ends
        omega
      · obtain ⟨-, rfl⟩ := (mem_read_bodyStream valid inside (by omega) window).mp isBody
        simp only at starts ends
        omega
    · rw [call]
      simp only [bodyOutcome]
      split
      · split
        · intro fault
          cases fault
        · intro fault
          cases fault
      · rw [if_neg (by omega)]
        intro fault
        cases fault

/-- A call stays inside its frame if and only if its header does not pass, or the frame covers what
the call reads. -/
theorem staysInside_iff (b : TcpBuffer) (valid : b.Valid) :
    StaysInside proto build b ↔ (HeaderPasses b → FrameCovers proto b) := by
  constructor
  · intro stays passes
    exact frameCovers_of_stays proto build valid passes stays
  · intro covers
    by_cases passes : HeaderPasses b
    · exact stays_of_frameCovers proto build valid passes (covers passes)
    · exact staysInside_of_not_passes proto build passes

end

/-- The call for a frame with nothing behind it stays inside. -/
theorem staysInside_iff_one_frame : StaysInside flagProto .debug (holding flagFrame []) :=
  (staysInside_iff flagProto .debug _ (holding_valid (by decide))).mpr fun _ =>
    ⟨by decide, fun _ _ => by decide⟩

/-- A frame of nine bytes that claims a name of two reads a byte that an earlier message left in
the storage, and a frame with another one behind it parses that as well. -/
theorem not_staysInside :
    ¬ StaysInside flagProto .release (holding [0, 0, 0, 9, 0, 0, 0, 2, 84] [85]) ∧
      ¬ StaysInside flagProto .release (holding (flagFrame ++ flagFrame) []) := by
  have named : (decode flagProto .release (holding [0, 0, 0, 9, 0, 0, 0, 2, 84] [85])).name =
      some ⟨8, 2⟩ := by decide
  have parsed : (decode flagProto .release (holding (flagFrame ++ flagFrame) [])).body =
      [⟨9, 13⟩] := by decide +kernel
  constructor
  · intro stays
    have outside := stays.inside 9 ⟨⟨8, 2⟩, by rw [named]; exact List.mem_cons_self,
      by decide, by decide⟩
    exact absurd outside (by decide)
  · intro stays
    have outside := stays.inside 11 ⟨⟨9, 13⟩, by rw [parsed]; simp, by decide, by decide⟩
    exact absurd outside (by decide)

end ProtoMsgCodec

end YYNet
