/-
This file models the two ends of a remote call, `MprpcChannel::CallMethod` and
`RpcProvider::OnMessage`, and proves when every request is dispatched once.

A request is the size of its header, the header and the arguments. The handler
looks for one request at the beginning of the receive buffer and dispatches it,
and takes nothing off: the stream that it reads with is never consumed. So each
call of the handler that finds the first request dispatches the first request,
and no other one is ever seen. Where a read fails the handler goes on with what
it has, but what it then dispatches is never the request itself.

The protobuf library is a parameter: its coded streams, and how it serializes and
parses a header.
-/

import YYNet.Lib.OrderedMap
import YYNet.Common.StringPiece
import YYNet.Net.ProtoBuffer

namespace YYNet

open Checked Storage

/-! ### The library -/

/-- `RPC::RpcHeader`. -/
structure RpcHeader where
  serviceName : List UInt8
  methodName : List UInt8
  argsSize : Nat
  deriving DecidableEq, Repr

/-- What the two ends use of protobuf. A read returns what it stores, also when it fails, and what
is left of the stream. -/
structure RpcCodec where
  writeVarint32 : Nat → List UInt8
  readVarint32 : List UInt8 → Nat × List UInt8
  readString : Nat → List UInt8 → Bool × List UInt8 × List UInt8
  serialize : RpcHeader → List UInt8
  parse : List UInt8 → Option RpcHeader

namespace RpcCodec

/-- Coded streams read what was written. A number takes a byte at least, and no more bytes than it
counts. A string is read whole, or the read fails. What a read stores and what it leaves was
there. -/
structure Lawful (codec : RpcCodec) : Prop where
  varint_nonempty : ∀ number < 2 ^ 32, codec.writeVarint32 number ≠ []
  varint_length : ∀ number < 2 ^ 32, 0 < number → (codec.writeVarint32 number).length ≤ number
  varint_read : ∀ number rest, number < 2 ^ 32 →
    codec.readVarint32 (codec.writeVarint32 number ++ rest) = (number, rest)
  varint_left : ∀ bytes, (codec.readVarint32 bytes).2.length ≤ bytes.length
  string_read : ∀ size bytes, size < 2 ^ 31 → size ≤ bytes.length →
    codec.readString size bytes = (true, bytes.take size, bytes.drop size)
  string_short : ∀ size bytes, bytes.length < size → (codec.readString size bytes).1 = false
  string_parts : ∀ size bytes, (codec.readString size bytes).2.1.length +
    (codec.readString size bytes).2.2.length ≤ bytes.length

/-- A string that is read successfully is all there. -/
theorem Lawful.string_success {codec : RpcCodec} (lawful : codec.Lawful) {size : Nat}
    {bytes : List UInt8} (short : bytes.length < 2 ^ 31)
    (success : (codec.readString size bytes).1 = true) :
    size ≤ bytes.length ∧
      codec.readString size bytes = (true, bytes.take size, bytes.drop size) := by
  have inside : size ≤ bytes.length := by
    by_contra outside
    rw [lawful.string_short size bytes (Nat.lt_of_not_le outside)] at success
    cases success
  exact ⟨inside, lawful.string_read size bytes (by omega) inside⟩

/-- A header is parsed from its serialization, and from no fewer bytes. It has names, so it is
not serialized to nothing. -/
structure Serializes (codec : RpcCodec) (header : RpcHeader) : Prop where
  nonempty : codec.serialize header ≠ []
  inverse : codec.parse (codec.serialize header) = some header
  shortest : ∀ bytes, codec.parse bytes = some header →
    (codec.serialize header).length ≤ bytes.length

end RpcCodec

/-! ### The two ends -/

/-- A request, and a call of `service->CallMethod`: the names of the service and the method, and
the bytes of the arguments. -/
structure RpcRequest where
  serviceName : List UInt8
  methodName : List UInt8
  args : List UInt8
  deriving DecidableEq, Repr

namespace RpcRequest

/-- The header that `CallMethod` makes. -/
def header (request : RpcRequest) : RpcHeader where
  serviceName := request.serviceName
  methodName := request.methodName
  argsSize := request.args.length % 2 ^ 32

/-- `MprpcChannel::CallMethod`: the bytes that it sends. -/
def frame (codec : RpcCodec) (request : RpcRequest) : List UInt8 :=
  codec.writeVarint32 ((codec.serialize request.header).length % 2 ^ 32) ++
    codec.serialize request.header ++ request.args

/-- The bytes of some requests. -/
def stream (codec : RpcCodec) (requests : List RpcRequest) : List UInt8 :=
  requests.flatMap (frame codec)

end RpcRequest

/-- `RpcProvider`: the codec, `m_serviceMap` with the names of the methods of each service, and
whether the prototype of a method's request parses some bytes. -/
structure RpcProvider where
  codec : RpcCodec
  serviceMap : OrderedMap (List UInt8) (List (List UInt8))
  parseRequest : List UInt8 → List UInt8 → List UInt8 → Bool

/-- A connection of the provider, and the calls of `service->CallMethod`, the first one first. -/
structure RpcSession where
  buffer : TcpBuffer
  calls : List RpcRequest
  deriving DecidableEq

namespace RpcProvider

/-- `NotifyService`. A service that is there already stays. -/
def notifyService (provider : RpcProvider) (serviceName : List UInt8)
    (methods : List (List UInt8)) : RpcProvider :=
  match provider.serviceMap.find serviceName with
  | some _ => provider
  | none => { provider with serviceMap := provider.serviceMap.set serviceName methods }

/-- `OnMessage` behind the reads: a service or a method that is not there is looked up at the end
of a map. -/
def callMethod (provider : RpcProvider) (header : RpcHeader) (args : List UInt8) :
    Except Fault (Option RpcRequest) :=
  match provider.serviceMap.find header.serviceName with
  | none => throw .outOfBounds
  | some methods =>
    if header.methodName ∉ methods then throw .outOfBounds
    else if provider.parseRequest header.serviceName header.methodName args then
      return some ⟨header.serviceName, header.methodName, args⟩
    else return none

/-- `OnMessage` on the bytes that the stream hands out. Whether the number and the header are
there is not asked, and the limit that is pushed for the header is the size that is read. -/
def dispatch (provider : RpcProvider) (bytes : List UInt8) : Except Fault (Option RpcRequest) :=
  let headerSize := provider.codec.readVarint32 bytes
  let headerStr := provider.codec.readString headerSize.1 headerSize.2
  match provider.codec.parse headerStr.2.1 with
  | none => return none
  | some header =>
    let argsStr := provider.codec.readString header.argsSize headerStr.2.2
    if argsStr.1 then provider.callMethod header argsStr.2.1 else return none

/-- What a stream over a buffer hands out first. -/
def firstWindow (b : TcpBuffer) : List UInt8 :=
  match (ProtoBufInputStream.create b).next with
  | none => []
  | some ((start, size), _) => b.bytesAt ⟨start, size.toNat⟩

/-- `OnMessage`. The stream is dropped, and the buffer stays as it is. -/
def onMessage (provider : RpcProvider) (session : RpcSession) : Except Fault RpcSession := do
  let call ← provider.dispatch (firstWindow session.buffer)
  return { session with calls := session.calls ++ call.toList }

/-- Every chunk is appended to the receive buffer and followed by `OnMessage`. -/
def receive (build : Build) (provider : RpcProvider) :
    RpcSession → List (List UInt8) → Except Fault RpcSession
  | session, [] => return session
  | session, chunk :: more => do
    let buffer ← session.buffer.append build chunk
    let next ← provider.onMessage { session with buffer := buffer }
    receive build provider next more

/-- The service and the method of a request are registered. -/
def Registered (provider : RpcProvider) (request : RpcRequest) : Prop :=
  ∃ methods ∈ provider.serviceMap.find request.serviceName, request.methodName ∈ methods

instance registeredDecidable (provider : RpcProvider) (request : RpcRequest) :
    Decidable (provider.Registered request) :=
  inferInstanceAs (Decidable (∃ methods ∈ provider.serviceMap.find request.serviceName, _))

/-- No request is read of some bytes: what is read as the header does not parse, or the arguments
that it asks for are not there, or they do not parse for a method that is registered. -/
def Silent (provider : RpcProvider) (bytes : List UInt8) : Prop :=
  let headerSize := provider.codec.readVarint32 bytes
  let headerStr := provider.codec.readString headerSize.1 headerSize.2
  ∀ header, provider.codec.parse headerStr.2.1 = some header →
    let argsStr := provider.codec.readString header.argsSize headerStr.2.2
    argsStr.1 = true →
      provider.Registered ⟨header.serviceName, header.methodName, argsStr.2.1⟩ ∧
        provider.parseRequest header.serviceName header.methodName argsStr.2.1 = false

/-! ### What one call dispatches -/

/-- A short buffer is handed out whole. -/
theorem firstWindow_eq {b : TcpBuffer} (valid : b.Valid) (short : b.readable.length < 2 ^ 31) :
    firstWindow b = b.readable := by
  have size := valid.readable_length
  have remaining : (ProtoBufInputStream.create b).remaining = b.readableSize := Nat.sub_zero _
  unfold firstWindow
  by_cases empty : b.readableSize = 0
  · obtain ⟨ended, -⟩ := ProtoBufInputStream.next_of_drained (remaining.trans empty)
      (Nat.zero_le _)
    rw [ended]
    exact (List.length_eq_zero_iff.mp (size.trans empty)).symm
  · rw [ProtoBufInputStream.next_of_remaining (by omega), remaining, castInt_of_lt (by omega)]
    rfl

/-- The names of a request that is registered are found. -/
theorem callMethod_of_registered {provider : RpcProvider} {request : RpcRequest}
    (registered : provider.Registered request)
    (accepted : provider.parseRequest request.serviceName request.methodName request.args = true) :
    provider.callMethod request.header request.args = .ok (some request) := by
  obtain ⟨methods, found, isMethod⟩ := registered
  unfold callMethod RpcRequest.header
  rw [Option.mem_def.mp found]
  simp only
  rw [if_neg (not_not.mpr isMethod), if_pos accepted]
  rfl

/-- Where the handler returns behind the lookups, the names were found. -/
theorem registered_of_callMethod {provider : RpcProvider} {request : RpcRequest}
    {args : List UInt8} {found : Option RpcRequest}
    (called : provider.callMethod request.header args = .ok found) :
    provider.Registered request := by
  unfold callMethod at called
  split at called
  · cases called
  · rename_i methods isService
    split at called
    · cases called
    · rename_i isMethod
      exact ⟨methods, isService, not_not.mp isMethod⟩

/-- A call was made for the names and the arguments that were read. -/
theorem callMethod_eq_some {provider : RpcProvider} {header : RpcHeader} {args : List UInt8}
    {request : RpcRequest} (called : provider.callMethod header args = .ok (some request)) :
    request = ⟨header.serviceName, header.methodName, args⟩ := by
  unfold callMethod at called
  split at called
  · cases called
  · split at called
    · cases called
    · split at called
      · exact (Option.some.inj (Except.ok.inj called)).symm
      · cases Except.ok.inj called

theorem callMethod_eq_none_iff (provider : RpcProvider) (header : RpcHeader) (args : List UInt8) :
    provider.callMethod header args = .ok none ↔
      provider.Registered ⟨header.serviceName, header.methodName, args⟩ ∧
        provider.parseRequest header.serviceName header.methodName args = false := by
  unfold callMethod Registered
  cases provider.serviceMap.find header.serviceName with
  | none => exact iff_of_false nofun fun ⟨⟨_, found, _⟩, _⟩ => nomatch found
  | some methods =>
    by_cases isMethod : header.methodName ∈ methods
    · cases provider.parseRequest header.serviceName header.methodName args with
      | true => simp [isMethod, pure, Except.pure]
      | false => simp [isMethod, pure, Except.pure]
    · simp [isMethod, throw, throwThe, MonadExceptOf.throw]

/-- The handler returns and calls no method. -/
theorem silent_iff (provider : RpcProvider) (bytes : List UInt8) :
    provider.Silent bytes ↔ provider.dispatch bytes = .ok none := by
  unfold Silent dispatch
  simp only
  generalize provider.codec.readString (provider.codec.readVarint32 bytes).1
    (provider.codec.readVarint32 bytes).2 = headerStr
  cases provider.codec.parse headerStr.2.1 with
  | none => exact iff_of_true nofun rfl
  | some header =>
    simp only [Option.some.injEq, forall_eq']
    cases success : (provider.codec.readString header.argsSize headerStr.2.2).1 with
    | false => exact iff_of_true nofun rfl
    | true =>
      rw [if_pos rfl, callMethod_eq_none_iff]
      exact ⟨fun silent => silent rfl, fun silent _ => silent⟩

instance silentDecidable (provider : RpcProvider) (bytes : List UInt8) :
    Decidable (provider.Silent bytes) :=
  decidable_of_iff (provider.dispatch bytes = .ok none) (silent_iff provider bytes).symm

section

variable {provider : RpcProvider} (lawful : provider.codec.Lawful) {request : RpcRequest}
  (serializes : provider.codec.Serializes request.header)

include lawful serializes

/-- With the first request in front, the handler reads that request. -/
theorem dispatch_frame {more : List UInt8}
    (short : (request.frame provider.codec ++ more).length < 2 ^ 31) :
    provider.dispatch (request.frame provider.codec ++ more) =
      provider.callMethod request.header request.args := by
  unfold RpcRequest.frame at short ⊢
  simp only [List.length_append] at short
  have headerSize : (provider.codec.serialize request.header).length % 2 ^ 32 =
      (provider.codec.serialize request.header).length := Nat.mod_eq_of_lt (by omega)
  have argsSize : request.header.argsSize = request.args.length := Nat.mod_eq_of_lt (by omega)
  unfold dispatch
  rw [headerSize] at short ⊢
  rw [List.append_assoc, List.append_assoc, lawful.varint_read _ _ (by omega)]
  simp only
  rw [lawful.string_read _ _ (by omega) (by rw [List.length_append]; omega), List.take_left,
    List.drop_left]
  simp only
  rw [serializes.inverse]
  simp only
  rw [argsSize, lawful.string_read _ _ (by omega) (by rw [List.length_append]; omega),
    List.take_left]
  rfl

/-- With a part of it, the handler does not call what the request asks for. -/
theorem dispatch_part {part : List UInt8} (isPart : part <+: request.frame provider.codec)
    (shorter : part.length < (request.frame provider.codec).length)
    (short : (request.frame provider.codec).length < 2 ^ 31) :
    provider.dispatch part ≠ .ok (some request) := by
  intro called
  unfold dispatch at called
  simp only at called
  split at called
  · cases Except.ok.inj called
  rename_i header parsed
  split at called
  swap
  · cases Except.ok.inj called
  rename_i success
  have same := callMethod_eq_some called
  have sizeLeft := lawful.varint_left part
  have stringParts := lawful.string_parts (provider.codec.readVarint32 part).1
    (provider.codec.readVarint32 part).2
  -- The arguments have the size that was read, so the header that was read is the request's.
  obtain ⟨inside, argsRead⟩ := lawful.string_success (by omega) success
  have args : request.args.length = header.argsSize := by
    rw [same, argsRead]
    exact List.length_take_of_le inside
  have isHeader : header = request.header := by
    have fields : header = ⟨request.serviceName, request.methodName, request.args.length⟩ := by
      rw [args, same]
    rw [fields, RpcRequest.header, Nat.mod_eq_of_lt (by omega)]
  rw [isHeader] at parsed inside
  have size := serializes.shortest _ parsed
  have positive := List.length_pos_of_ne_nil serializes.nonempty
  unfold RpcRequest.frame at isPart shorter short
  simp only [List.length_append] at shorter short
  have headerSize : (provider.codec.serialize request.header).length % 2 ^ 32 =
      (provider.codec.serialize request.header).length := Nat.mod_eq_of_lt (by omega)
  rw [headerSize] at isPart shorter short
  have varintSize := lawful.varint_length _ (by omega) positive
  have varintPart :
      provider.codec.writeVarint32 (provider.codec.serialize request.header).length <+: part := by
    refine List.prefix_of_prefix_length_le ?_ isPart (by omega)
    exact (List.prefix_append _ _).trans (List.prefix_append _ _)
  -- The size is all there, so the header is, and so are the arguments.
  obtain ⟨behind, rfl⟩ := varintPart
  rw [lawful.varint_read _ _ (by omega)] at size stringParts inside
  simp only at size stringParts inside
  rw [List.length_append] at shorter
  rw [lawful.string_read _ _ (by omega) (by omega), List.length_drop] at inside
  have argsSize : request.header.argsSize = request.args.length := by rw [← isHeader, args]
  omega

end

/-! ### Runs -/

/-- The receive buffer at each call of the handler, behind what it holds at first. -/
def held : List UInt8 → List (List UInt8) → List (List UInt8)
  | _, [] => []
  | front, chunk :: more => (front ++ chunk) :: held (front ++ chunk) more

theorem held_between {front bytes : List UInt8} {chunks : List (List UInt8)}
    (member : bytes ∈ held front chunks) : front <+: bytes ∧ bytes <+: front ++ chunks.flatten := by
  induction chunks generalizing front with
  | nil => cases member
  | cons chunk more inductionHypothesis =>
    rw [List.flatten_cons, ← List.append_assoc]
    rcases List.mem_cons.mp member with rfl | later
    · exact ⟨List.prefix_append _ _, List.prefix_append _ _⟩
    · obtain ⟨behind, inside⟩ := inductionHypothesis later
      exact ⟨(List.prefix_append _ _).trans behind, inside⟩

/-- At the last call everything is there. -/
theorem mem_held (front : List UInt8) {chunks : List (List UInt8)} (nonempty : chunks ≠ []) :
    front ++ chunks.flatten ∈ held front chunks := by
  induction chunks generalizing front with
  | nil => exact absurd rfl nonempty
  | cons chunk more inductionHypothesis =>
    rw [List.flatten_cons, ← List.append_assoc]
    by_cases last : more = []
    · subst last
      rw [List.flatten_nil, List.append_nil]
      exact List.mem_cons_self
    · exact List.mem_cons_of_mem _ (inductionHypothesis _ last)

/-- The handler returns on each of these buffers, and makes these calls. -/
inductive Dispatches (provider : RpcProvider) : List (List UInt8) → List RpcRequest → Prop
  | done : Dispatches provider [] []
  | call {bytes : List UInt8} {buffers : List (List UInt8)} {found : Option RpcRequest}
      {calls : List RpcRequest} (dispatched : provider.dispatch bytes = .ok found)
      (later : Dispatches provider buffers calls) :
      Dispatches provider (bytes :: buffers) (found.toList ++ calls)

theorem Dispatches.returns {provider : RpcProvider} {buffers : List (List UInt8)}
    {calls : List RpcRequest} (dispatches : provider.Dispatches buffers calls) {bytes : List UInt8}
    (member : bytes ∈ buffers) : ∃ found, provider.dispatch bytes = .ok found := by
  induction dispatches with
  | done => cases member
  | call dispatched later inductionHypothesis =>
    rcases List.mem_cons.mp member with rfl | behind
    · exact ⟨_, dispatched⟩
    · exact inductionHypothesis behind

/-- Calls are added to those that were made. -/
theorem receive_extends {build : Build} {provider : RpcProvider} {session final : RpcSession}
    {chunks : List (List UInt8)} (received : receive build provider session chunks = .ok final) :
    ∃ calls, final.calls = session.calls ++ calls := by
  induction chunks generalizing session with
  | nil =>
    obtain rfl := Except.ok.inj received
    exact ⟨[], (List.append_nil _).symm⟩
  | cons chunk more inductionHypothesis =>
    obtain ⟨buffer, -, handled⟩ := bind_eq_ok received
    obtain ⟨next, dispatched, later⟩ := bind_eq_ok handled
    obtain ⟨found, -, same⟩ := bind_eq_ok dispatched
    obtain rfl := Except.ok.inj same
    obtain ⟨calls, extended⟩ := inductionHypothesis later
    exact ⟨found.toList ++ calls, by rw [extended, List.append_assoc]⟩

/-- A run makes the calls that the handler makes on its buffers. -/
theorem receive_iff (build : Build) (provider : RpcProvider) {session : RpcSession}
    (valid : session.buffer.Valid) {chunks : List (List UInt8)}
    (room : session.buffer.prependSize + (session.buffer.readable ++ chunks.flatten).length ≤
      maxSize)
    (short : (session.buffer.readable ++ chunks.flatten).length < 2 ^ 31)
    (calls : List RpcRequest) :
    (∃ final, receive build provider session chunks = .ok final ∧
        final.calls = session.calls ++ calls) ↔
      provider.Dispatches (held session.buffer.readable chunks) calls := by
  induction chunks generalizing session calls with
  | nil =>
    constructor
    · rintro ⟨final, received, extended⟩
      obtain rfl := Except.ok.inj received
      rw [List.self_eq_append_right.mp extended]
      exact .done
    · intro dispatches
      cases dispatches
      exact ⟨session, rfl, (List.append_nil _).symm⟩
  | cons chunk more inductionHypothesis =>
    rw [List.flatten_cons, ← List.append_assoc] at room short
    have sizes : (session.buffer.readable ++ chunk ++ more.flatten).length =
        session.buffer.readableSize + chunk.length + more.flatten.length := by
      rw [List.length_append, List.length_append, valid.readable_length]
    rcases TcpBuffer.append_spec build valid (by omega : chunk.length ≤ maxSize) with
      ⟨large, -⟩ | ⟨after, appends, spec⟩
    · omega
    have isBytes := spec.readable_eq
    have window : firstWindow after = session.buffer.readable ++ chunk := by
      have small : after.readable.length < 2 ^ 31 := by
        rw [isBytes, List.length_append, valid.readable_length]
        omega
      rw [firstWindow_eq spec.valid small, isBytes]
    rw [receive, appends, ok_bind, held, onMessage]
    simp only
    rw [window]
    cases handled : provider.dispatch (session.buffer.readable ++ chunk) with
    | error fault =>
      refine iff_of_false (fun ⟨_, received, _⟩ => nomatch received) fun dispatches => ?_
      obtain ⟨found, dispatched⟩ := dispatches.returns List.mem_cons_self
      rw [handled] at dispatched
      cases dispatched
    | ok found =>
      rw [← isBytes] at room short
      have step := @inductionHypothesis ⟨after, session.calls ++ found.toList⟩ spec.valid
        (by rw [spec.prepend_eq]; exact room) short
      rw [ok_bind]
      rw [isBytes] at step
      constructor
      · rintro ⟨final, received, extended⟩
        obtain ⟨later, isLater⟩ := receive_extends received
        have split : calls = found.toList ++ later := by
          rw [extended, List.append_assoc] at isLater
          exact List.append_cancel_left isLater
        rw [split]
        exact .call handled ((step later).mp ⟨final, received, isLater⟩)
      · rintro (_ | @⟨_, _, other, later, dispatched, dispatches⟩)
        obtain rfl := Except.ok.inj (handled.symm.trans dispatched)
        obtain ⟨final, received, extended⟩ := (step later).mpr dispatches
        exact ⟨final, received, by rw [extended, List.append_assoc]⟩

/-- The handler makes no call if and only if it makes none on any buffer. -/
theorem dispatches_nil_iff {provider : RpcProvider} {buffers : List (List UInt8)} :
    provider.Dispatches buffers [] ↔ ∀ bytes ∈ buffers, provider.Silent bytes := by
  constructor
  · generalize none : ([] : List RpcRequest) = calls
    intro dispatches
    induction dispatches with
    | done => nofun
    | @call bytes buffers found calls dispatched later inductionHypothesis =>
      obtain ⟨nothing, rest⟩ := List.append_eq_nil_iff.mp none.symm
      cases found with
      | some request => cases nothing
      | none =>
        exact List.forall_mem_cons.mpr
          ⟨(silent_iff provider bytes).mpr dispatched, inductionHypothesis rest.symm⟩
  · intro silent
    induction buffers with
    | nil => exact .done
    | cons bytes buffers inductionHypothesis =>
      obtain ⟨here, later⟩ := List.forall_mem_cons.mp silent
      exact .call ((silent_iff provider bytes).mp here) (inductionHypothesis later)

/-- Where each buffer that is long enough leads to one call, and the others to none, the call is
made as often as there are long ones. -/
theorem dispatches_iff_replicate {provider : RpcProvider} {first : RpcRequest} {size : Nat}
    {buffers : List (List UInt8)}
    (silent : ∀ bytes ∈ buffers, bytes.length < size → provider.Silent bytes)
    (called : ∀ bytes ∈ buffers, size ≤ bytes.length → provider.dispatch bytes = .ok (some first))
    (calls : List RpcRequest) :
    provider.Dispatches buffers calls ↔
      calls = List.replicate (buffers.countP fun bytes => size ≤ bytes.length) first := by
  induction buffers generalizing calls with
  | nil =>
    constructor
    · intro dispatches
      cases dispatches
      rfl
    · rintro rfl
      exact .done
  | cons bytes buffers inductionHypothesis =>
    obtain ⟨silentHere, silentLater⟩ := List.forall_mem_cons.mp silent
    obtain ⟨calledHere, calledLater⟩ := List.forall_mem_cons.mp called
    have later := inductionHypothesis silentLater calledLater
    have step {found : Option RpcRequest} (here : provider.dispatch bytes = .ok found) :
        provider.Dispatches (bytes :: buffers) calls ↔ calls = found.toList ++
          List.replicate (buffers.countP fun bytes => size ≤ bytes.length) first := by
      constructor
      · rintro (_ | @⟨_, _, other, more, dispatched, dispatches⟩)
        obtain rfl := Except.ok.inj (here.symm.trans dispatched)
        rw [(later more).mp dispatches]
      · rintro rfl
        exact .call here ((later _).mpr rfl)
    by_cases long : size ≤ bytes.length
    · rw [step (calledHere long), List.countP_cons_of_pos (by simpa using long),
        List.replicate_succ]
      rfl
    · rw [step ((silent_iff provider bytes).mp (silentHere (Nat.lt_of_not_le long))),
        List.countP_cons_of_neg (by simpa using long)]
      rfl

/-- If the first call is the first request, no call was made before it is there. -/
theorem silent_of_dispatches {provider : RpcProvider} {first : RpcRequest} {size : Nat}
    {front : List UInt8} {chunks : List (List UInt8)} {rest : List RpcRequest}
    (other : ∀ bytes ∈ held front chunks, bytes.length < size →
      provider.dispatch bytes ≠ .ok (some first))
    (dispatches : provider.Dispatches (held front chunks) (first :: rest)) :
    ∀ bytes ∈ held front chunks, bytes.length < size → provider.Silent bytes := by
  induction chunks generalizing front with
  | nil => nofun
  | cons chunk more inductionHypothesis =>
    obtain ⟨otherHere, otherLater⟩ := List.forall_mem_cons.mp other
    by_cases short : (front ++ chunk).length < size
    · generalize isCalls : first :: rest = calls at dispatches
      rcases dispatches with _ | @⟨_, _, found, later, dispatched, dispatchesLater⟩
      cases found with
      | some request =>
        obtain rfl := (List.cons.inj isCalls).1
        exact absurd dispatched (otherHere short)
      | none =>
        obtain rfl : first :: rest = later := isCalls
        exact List.forall_mem_cons.mpr
          ⟨fun _ => (silent_iff provider _).mpr dispatched,
            inductionHypothesis otherLater dispatchesLater⟩
    · refine List.forall_mem_cons.mpr ⟨fun less => absurd less short, fun bytes member less => ?_⟩
      have behind := (held_between member).1.length_le
      omega

section

variable {provider : RpcProvider} (lawful : provider.codec.Lawful) {first : RpcRequest}
  (serializes : provider.codec.Serializes first.header) {chunks : List (List UInt8)}
  (within : first.frame provider.codec <+: chunks.flatten) (short : chunks.flatten.length < 2 ^ 31)

include lawful serializes within short

/-- Before the first request is there, it is not called. -/
theorem dispatch_held_part : ∀ bytes ∈ held [] chunks,
    bytes.length < (first.frame provider.codec).length →
      provider.dispatch bytes ≠ .ok (some first) := fun _ member shorter =>
  dispatch_part lawful serializes
    (List.prefix_of_prefix_length_le (held_between member).2 within shorter.le) shorter
    (within.length_le.trans_lt short)

/-- From then on, it is read. -/
theorem dispatch_held_whole : ∀ bytes ∈ held [] chunks,
    (first.frame provider.codec).length ≤ bytes.length →
      provider.dispatch bytes = provider.callMethod first.header first.args := by
  intro bytes member long
  have inside : bytes <+: chunks.flatten := (held_between member).2
  obtain ⟨more, rfl⟩ := List.prefix_of_prefix_length_le within inside long
  exact dispatch_frame lawful serializes (inside.length_le.trans_lt short)

/-- A run that does not fail has the first request registered. -/
theorem registered_of_dispatches {calls : List RpcRequest}
    (dispatches : provider.Dispatches (held [] chunks) calls) : provider.Registered first := by
  have nonempty : chunks ≠ [] := by
    rintro rfl
    have nothing := List.prefix_nil.mp within
    rw [RpcRequest.frame, List.append_assoc] at nothing
    refine lawful.varint_nonempty _ ?_ (List.append_eq_nil_iff.mp nothing).1
    exact Nat.mod_lt _ (by norm_num)
  have full := mem_held [] nonempty
  rw [List.nil_append] at full
  obtain ⟨found, dispatched⟩ := dispatches.returns full
  rw [dispatch_held_whole lawful serializes within short _ full within.length_le] at dispatched
  exact registered_of_callMethod dispatched

end

/-! ### When every request is dispatched once -/

/-- The run makes one call for each request that is registered, in their order, and no other. -/
def DispatchesOnce (build : Build) (provider : RpcProvider) (session : RpcSession)
    (requests : List RpcRequest) (chunks : List (List UInt8)) : Prop :=
  ∃ final, receive build provider session chunks = .ok final ∧
    final.calls = session.calls ++ requests.filter fun request => provider.Registered request

/-- Without a request, the handler must be silent. With one, the first must be registered, the
handler must be silent till it is there, the chunks that end at its end or behind it must be as
many as the registered requests, and these must all be the first one again. -/
def OnlyFirst (provider : RpcProvider) (requests : List RpcRequest)
    (chunks : List (List UInt8)) : Prop :=
  match requests with
  | [] => ∀ bytes ∈ held [] chunks, provider.Silent bytes
  | first :: others =>
    provider.Registered first ∧
      (∀ bytes ∈ held [] chunks, bytes.length < (first.frame provider.codec).length →
        provider.Silent bytes) ∧
      (held [] chunks).countP (fun bytes =>
        (first.frame provider.codec).length ≤ bytes.length) =
        ((first :: others).filter fun request => provider.Registered request).length ∧
      ∀ request ∈ others, provider.Registered request → request = first

/-- For all requests and all ways of cutting their bytes, every request is dispatched once exactly
when the first request stands for all of them. The bytes are fewer than an `int` counts, and the
arguments of each registered request parse. -/
theorem dispatchesOnce_iff (build : Build) (provider : RpcProvider)
    (lawful : provider.codec.Lawful) (requests : List RpcRequest)
    (serializes : ∀ request ∈ requests, provider.codec.Serializes request.header)
    (accepted : ∀ request ∈ requests, provider.Registered request →
      provider.parseRequest request.serviceName request.methodName request.args = true)
    (session : RpcSession) (valid : session.buffer.Valid) (empty : session.buffer.readable = [])
    (chunks : List (List UInt8)) (sent : chunks.flatten = RpcRequest.stream provider.codec requests)
    (short : chunks.flatten.length < 2 ^ 31)
    (room : session.buffer.prependSize + chunks.flatten.length ≤ maxSize) :
    DispatchesOnce build provider session requests chunks ↔ provider.OnlyFirst requests chunks := by
  have front : session.buffer.readable ++ chunks.flatten = chunks.flatten := by
    rw [empty, List.nil_append]
  have runs := receive_iff build provider valid (by rw [front]; exact room)
    (by rw [front]; exact short) (requests.filter fun request => provider.Registered request)
  rw [empty] at runs
  rw [DispatchesOnce, runs]
  cases requests with
  | nil => exact dispatches_nil_iff
  | cons first others =>
    have within : first.frame provider.codec <+: chunks.flatten := by
      rw [sent]
      exact List.prefix_append _ (RpcRequest.stream provider.codec others)
    have isHeader := serializes first List.mem_cons_self
    have called (registered : provider.Registered first) : ∀ bytes ∈ held [] chunks,
        (first.frame provider.codec).length ≤ bytes.length →
        provider.dispatch bytes = .ok (some first) := fun bytes member long =>
      (dispatch_held_whole lawful isHeader within short bytes member long).trans
        (callMethod_of_registered registered (accepted first List.mem_cons_self registered))
    constructor
    · intro dispatches
      have registered := registered_of_dispatches lawful isHeader within short dispatches
      have kept : ((first :: others).filter fun request => provider.Registered request) =
          first :: others.filter fun request => provider.Registered request :=
        List.filter_cons_of_pos (decide_eq_true registered)
      rw [kept] at dispatches
      have silent := silent_of_dispatches
        (dispatch_held_part lawful isHeader within short) dispatches
      have same := (dispatches_iff_replicate silent (called registered) _).mp dispatches
      refine ⟨registered, silent, ?_, fun request member isRegistered => ?_⟩
      · rw [kept, same, List.length_replicate]
      · have again : request ∈ first :: others.filter fun request => provider.Registered request :=
          List.mem_cons_of_mem _ (List.mem_filter.mpr ⟨member, decide_eq_true isRegistered⟩)
        rw [same] at again
        exact List.eq_of_mem_replicate again
    · rintro ⟨registered, silent, count, same⟩
      refine (dispatches_iff_replicate silent (called registered) _).mpr ?_
      rw [count]
      refine List.eq_replicate_of_mem fun request member => ?_
      obtain ⟨isRequest, isRegistered⟩ := List.mem_filter.mp member
      rcases List.mem_cons.mp isRequest with rfl | behind
      · rfl
      · exact same request behind (of_decide_eq_true isRegistered)

/-! ### A provider of one service -/

/-- A number in base 128, the lowest digit first, with a mark on each digit but the last. -/
def writeBase128 : Nat → Nat → List UInt8
  | 0, number => [UInt8.ofNat number]
  | digits + 1, number =>
    if number < 128 then [UInt8.ofNat number]
    else UInt8.ofNat (number % 128 + 128) :: writeBase128 digits (number / 128)

def readBase128 : List UInt8 → Nat × List UInt8
  | [] => (0, [])
  | byte :: rest =>
    if byte.toNat < 128 then (byte.toNat, rest)
    else (byte.toNat - 128 + 128 * (readBase128 rest).1, (readBase128 rest).2)

theorem readBase128_write {digits number : Nat} (fits : number < 128 ^ (digits + 1))
    (rest : List UInt8) : readBase128 (writeBase128 digits number ++ rest) = (number, rest) := by
  have last {number : Nat} (small : number < 128) :
      readBase128 (UInt8.ofNat number :: rest) = (number, rest) := by
    have value : (UInt8.ofNat number).toNat = number := Nat.mod_eq_of_lt (by omega)
    rw [readBase128, value, if_pos small]
  induction digits generalizing number with
  | zero => exact last fits
  | succ digits inductionHypothesis =>
    rw [writeBase128]
    split
    · rename_i small
      exact last small
    · have marked : (UInt8.ofNat (number % 128 + 128)).toNat = number % 128 + 128 :=
        Nat.mod_eq_of_lt (by omega)
      have higher : number / 128 < 128 ^ (digits + 1) := by
        rw [Nat.div_lt_iff_lt_mul (by norm_num), ← pow_succ]
        exact fits
      rw [List.cons_append, readBase128, marked, if_neg (by omega), inductionHypothesis higher]
      simp only
      rw [Nat.add_sub_cancel, Nat.mod_add_div]

theorem writeBase128_length (digits number : Nat) (positive : 0 < number) :
    (writeBase128 digits number).length ≤ number := by
  induction digits generalizing number with
  | zero => exact positive
  | succ digits inductionHypothesis =>
    rw [writeBase128]
    split
    · exact positive
    · have shorter := inductionHypothesis (number / 128) (by omega)
      rw [List.length_cons]
      omega

theorem writeBase128_ne_nil (digits number : Nat) : writeBase128 digits number ≠ [] := by
  cases digits with
  | zero => exact List.cons_ne_nil _ _
  | succ digits =>
    rw [writeBase128]
    split <;> exact List.cons_ne_nil _ _

/-- The serialization of a header: the fields that are not empty, each behind its tag. -/
def serializeHeader (header : RpcHeader) : List UInt8 :=
  let string (tag : UInt8) (bytes : List UInt8) : List UInt8 :=
    if bytes = [] then [] else tag :: (writeBase128 4 bytes.length ++ bytes)
  string 10 header.serviceName ++ string 18 header.methodName ++
    if header.argsSize = 0 then [] else 24 :: writeBase128 4 header.argsSize

/-- A codec that knows the serializations of some headers. -/
def codecOf (known : List RpcHeader) : RpcCodec where
  writeVarint32 := writeBase128 4
  readVarint32 := readBase128
  readString size bytes :=
    if size ≤ bytes.length ∧ size < 2 ^ 31 then (true, bytes.take size, bytes.drop size)
    else (false, [], [])
  serialize := serializeHeader
  parse bytes := known.find? fun header => serializeHeader header = bytes

theorem codecOf_lawful (known : List RpcHeader) : (codecOf known).Lawful where
  varint_nonempty number _ := writeBase128_ne_nil 4 number
  varint_length number _ := writeBase128_length 4 number
  varint_read number rest fits := readBase128_write (fits.trans (by norm_num)) rest
  varint_left bytes := by
    show (readBase128 bytes).2.length ≤ bytes.length
    induction bytes with
    | nil => exact le_rfl
    | cons byte rest inductionHypothesis =>
      rw [readBase128]
      split
      · exact Nat.le_succ _
      · exact inductionHypothesis.trans (Nat.le_succ _)
  string_read _ _ small inside := if_pos ⟨inside, small⟩
  string_short _ _ short := by
    unfold codecOf
    simp only
    rw [if_neg fun whole => absurd whole.1 (Nat.not_le_of_lt short)]
  string_parts size bytes := by
    unfold codecOf
    simp only
    split
    · rw [← List.length_append, List.take_append_drop]
    · exact Nat.zero_le _

theorem codecOf_serializes {known : List RpcHeader} {header : RpcHeader}
    (nonempty : serializeHeader header ≠ [])
    (inverse : (codecOf known).parse (serializeHeader header) = some header) :
    (codecOf known).Serializes header where
  nonempty := nonempty
  inverse := inverse
  shortest bytes parsed := by
    have same := List.find?_some parsed
    rw [← of_decide_eq_true same]
    exact le_rfl

/-- Two different requests to log in. -/
def loginRequest : RpcRequest := ⟨text "User", text "Login", text "yy"⟩

def otherRequest : RpcRequest := ⟨text "User", text "Login", text "net"⟩

/-- A provider of the service to which they belong. -/
def userProvider : RpcProvider :=
  notifyService ⟨codecOf [loginRequest.header, otherRequest.header], OrderedMap.empty,
    fun _ _ _ => true⟩ (text "User") [text "Login"]

/-- A new connection. -/
def newRpcSession : RpcSession where
  buffer := { buffer := List.replicate 16 0, prependSize := 8, readIndex := 8, writeIndex := 8 }
  calls := []

theorem newRpcSession_valid : newRpcSession.buffer.Valid :=
  ⟨by decide, by decide, by decide, TcpBuffer.le_maxSize (by decide)⟩

/-- One request twice, in one chunk each. -/
theorem dispatchesOnce_iff_twice :
    DispatchesOnce .release userProvider newRpcSession [loginRequest, loginRequest]
      [loginRequest.frame userProvider.codec, loginRequest.frame userProvider.codec] := by
  have serializes : ∀ request ∈ [loginRequest, loginRequest],
      userProvider.codec.Serializes request.header := by
    have alone : userProvider.codec.Serializes loginRequest.header :=
      codecOf_serializes (by decide) (by decide)
    exact List.forall_mem_cons.mpr ⟨alone, List.forall_mem_singleton.mpr alone⟩
  refine (dispatchesOnce_iff .release userProvider (codecOf_lawful _) [loginRequest, loginRequest]
    serializes (fun _ _ _ => rfl) newRpcSession newRpcSession_valid (by decide)
    [loginRequest.frame userProvider.codec, loginRequest.frame userProvider.codec]
    (by decide +kernel) (by decide +kernel) (by decide +kernel)).mpr ?_
  exact ⟨by decide, by decide, by decide,
    List.forall_mem_singleton.mpr fun _ => rfl⟩

/-- The first request is dispatched again in place of the second. -/
theorem not_dispatchesOnce_two :
    (receive .release userProvider newRpcSession [loginRequest.frame userProvider.codec,
        otherRequest.frame userProvider.codec]).toOption.map RpcSession.calls =
          some [loginRequest, loginRequest] ∧
      ¬ DispatchesOnce .release userProvider newRpcSession [loginRequest, otherRequest]
        [loginRequest.frame userProvider.codec, otherRequest.frame userProvider.codec] := by
  have calls : (receive .release userProvider newRpcSession
      [loginRequest.frame userProvider.codec, otherRequest.frame userProvider.codec]).toOption.map
        RpcSession.calls = some [loginRequest, loginRequest] := by decide +kernel
  refine ⟨calls, ?_⟩
  rintro ⟨final, received, once⟩
  rw [received] at calls
  have twice : final.calls = [loginRequest, loginRequest] := Option.some.inj calls
  rw [twice] at once
  revert once
  decide

end RpcProvider

end YYNet
