/-
This file proves that `TcpBuffer` refines a byte queue: run any operations on a
buffer and on a plain list of bytes side by side, and the readable bytes are the
list after every operation, the indices stay ordered inside the storage, and no
assertion fires.

There is one exception, and the refinement theorem is an equivalence that names
it. The constructor adds its two sizes and `expend` adds the prefix, the readable
bytes and the requested room. Where such a sum leaves 64 bits, the constructor
makes a buffer whose indices lie outside its storage, and `ensureWritableBytes`
fires its own assertion or cuts the storage below the write index.
-/

import YYNet.Net.TcpBuffer

namespace YYNet

open Checked Storage Transition

/-! ### Operations on a queue and on a buffer -/

/-- What an operation does to a queue of bytes. -/
inductive QueueOp
  | keep
  | push (data : List UInt8)
  | dropFront (count : Nat)
  | dropBack (count : Nat)

def QueueOp.apply : QueueOp → List UInt8 → List UInt8
  | .keep, queue => queue
  | .push data, queue => queue ++ data
  | .dropFront count, queue => queue.drop count
  | .dropBack count, queue => queue.take (queue.length - count)

/-- The calls a client of `TcpBuffer` makes. `place` is the client storing bytes through the
pointer `BeginWrite()` returned, and `appendFormFd` carries what `readv` answered. -/
inductive BufferOp
  | append (data : List UInt8)
  | fluentAppend (data : List UInt8)
  | appendFormFd (answer : Option (List UInt8))
  | consume (size : UInt64)
  | retrieve (size : UInt64)
  | retrieveAll
  | ensureWritableBytes (len : UInt64)
  | place (data : List UInt8)
  | hasWritten (len : UInt64)
  | unwrite (len : UInt64)

namespace BufferOp

/-- The call on the buffer. -/
def apply (build : Build) (b : TcpBuffer) : BufferOp → Except Fault TcpBuffer
  | append data => b.append build data
  | fluentAppend data => b.fluentAppend build data
  | appendFormFd answer => do
    let (_, after) ← b.appendFormFd build answer
    return after
  | consume size => b.consume build size.toNat
  | retrieve size => do
    let (_, after) ← b.retrieve build size.toNat
    return after
  | retrieveAll => do
    let (_, after) ← b.retrieveAll build
    return after
  | ensureWritableBytes len => b.ensureWritableBytes build len.toNat
  | place data => b.copyIn b.writeIndex data
  | hasWritten len => b.hasWritten build len.toNat
  | unwrite len => b.unwrite build len.toNat

/-- What the caller of an operation has to respect. -/
def Allowed (b : TcpBuffer) : BufferOp → Prop
  | append data => data.length ≤ maxSize
  | fluentAppend data => data.length ≤ maxSize
  | appendFormFd answer => ∀ received, answer = some received → received.length ≤ b.offered
  | consume size => size.toNat ≤ b.readableSize
  | retrieve _ => True
  | retrieveAll => True
  | ensureWritableBytes _ => True
  | place data => data.length ≤ b.writableSize
  | hasWritten len => len.toNat ≤ b.writableSize
  | unwrite len => len.toNat ≤ b.readableSize

/-- What the operation is for, on the queue. -/
def queueOp (b : TcpBuffer) (queue : List UInt8) : BufferOp → QueueOp
  | append data => .push data
  | fluentAppend data => .push data
  | appendFormFd none => .keep
  | appendFormFd (some received) => .push received
  | consume size => .dropFront size.toNat
  | retrieve size => if size.toNat ≤ queue.length then .dropFront size.toNat else .keep
  | retrieveAll => .dropFront queue.length
  | ensureWritableBytes _ => .keep
  | place _ => .keep
  | hasWritten len => .push (b.beginWrite len.toNat)
  | unwrite len => .dropBack len.toNat

/-- The condition `ensureWritableBytes` asserts before it returns. -/
def Ensured (after : TcpBuffer) : BufferOp → Prop
  | ensureWritableBytes len => len.toNat ≤ after.writableSize
  | _ => True

/-- The call makes room for bytes, and with the prefix and the readable bytes they are more than a
vector can hold. The calls that make no room are never refused. -/
def Refused (b : TcpBuffer) : BufferOp → Prop
  | append data => maxSize < b.prependSize + b.readableSize + data.length
  | fluentAppend data => maxSize < b.prependSize + b.readableSize + data.length
  | appendFormFd (some received) => maxSize < b.prependSize + b.readableSize + received.length
  | ensureWritableBytes len => maxSize < b.prependSize + b.readableSize + len.toNat
  | _ => False

/-- The room `ensureWritableBytes` has to make is a size that does not overflow. -/
def NoOverflow (b : TcpBuffer) : BufferOp → Prop
  | ensureWritableBytes len => b.writableSize < len.toNat → b.Fits len.toNat
  | _ => True

end BufferOp

/-! ### One operation -/

theorem uint64_lt (size : UInt64) : size.toNat < sizeModulus := by
  have := size.toNat_lt
  simp only [sizeModulus]
  exact this

/-- An operation did what it is for: the buffer is valid, holds what the queue holds, and has
the room that was asked for. -/
structure Refined (op : BufferOp) (before after : TcpBuffer) (queue : List UInt8) : Prop where
  valid : after.Valid
  readable_eq : after.readable = (op.queueOp before queue).apply queue
  ensured : op.Ensured after

section

variable (build : Build) {b : TcpBuffer}

/-- The write index at the end of the storage, behind the bytes the kernel filled in. -/
theorem filled_to_end (valid : b.Valid) {front : List UInt8}
    (whole : front.length = b.writableSize) :
    TcpBuffer.Appended b { b.filled front with writeIndex := (b.filled front).buffer.length }
      front := by
  have room : front.length ≤ b.writableSize := le_of_eq whole
  have moved : ({ b.filled front with writeIndex := (b.filled front).buffer.length } : TcpBuffer) =
      (b.filled front).written front.length := by
    rw [TcpBuffer.filled_size valid room, ← valid.write_add_writable, ← whole]
    rfl
  rw [moved]
  exact TcpBuffer.appended_of_roomy ⟨valid, rfl, rfl, room⟩

/-- The stack buffer holds what did not fit. -/
theorem extrabuf_holds_rest {received : List UInt8} (inside : received.length ≤ b.offered) :
    (received.drop b.writableSize).length ≤ maxSize := by
  have stackSize : TcpBuffer.extrabufSize ≤ maxSize := by
    simp only [TcpBuffer.extrabufSize, maxSize]
    norm_num
  rw [List.length_drop]
  unfold TcpBuffer.offered at inside
  split at inside <;> omega

/-- Scatter reading: what fits is in place, and the rest is appended from the stack. -/
theorem appendFormFd_spec (valid : b.Valid) (received : List UInt8)
    (inside : received.length ≤ b.offered) :
    (maxSize < b.prependSize + b.readableSize + received.length ∧
        b.appendFormFd build (some received) = .error .lengthError) ∨
      ∃ after, b.appendFormFd build (some received) = .ok (received.length, after) ∧
        TcpBuffer.Appended b after received := by
  have front : (received.take b.writableSize).length ≤ b.writableSize := by
    rw [List.length_take]
    omega
  unfold TcpBuffer.appendFormFd
  simp only [TcpBuffer.copyIn_eq_filled valid front, ok_bind,
    TcpBuffer.filled_writableSize valid front, pure_eq_ok]
  by_cases fits : received.length ≤ b.writableSize
  · have all : received.take b.writableSize = received := List.take_of_length_le fits
    have roomy : TcpBuffer.Roomy b b received.length := ⟨valid, rfl, rfl, fits⟩
    have moved := TcpBuffer.moveWriteIndex_eq build (TcpBuffer.filled_valid valid fits)
      (le_of_le_of_eq fits (TcpBuffer.filled_writableSize valid fits).symm)
    rw [if_pos fits, all, moved, ok_bind]
    by_cases some : 0 < received.length
    · rw [if_pos some]
      exact .inr ⟨_, rfl, TcpBuffer.appended_of_roomy roomy⟩
    · obtain rfl : received = [] := List.length_eq_zero_iff.mp (by omega)
      rw [if_neg some]
      refine .inr ⟨_, rfl, TcpBuffer.filled_valid valid fits, ?_, rfl⟩
      rw [TcpBuffer.filled_readable valid, List.append_nil]
  · have whole : (received.take b.writableSize).length = b.writableSize := by
      rw [List.length_take]
      omega
    have full := filled_to_end valid whole
    rw [if_pos (by omega), if_neg fits]
    rcases TcpBuffer.append_spec build full.valid (extrabuf_holds_rest inside) with
      ⟨large, refused⟩ | ⟨after, appended, spec⟩
    · refine .inl ⟨?_, by rw [refused, error_bind]⟩
      rw [full.prepend_eq, ← full.valid.readable_length, full.readable_eq, List.length_append,
        valid.readable_length, whole, List.length_drop] at large
      omega
    · refine .inr ⟨after, by rw [appended, ok_bind], spec.valid, ?_, ?_⟩
      · rw [spec.readable_eq, full.readable_eq, List.append_assoc, List.take_append_drop]
      · rw [spec.prepend_eq, full.prepend_eq]

/-- An operation that respects its caller's side and overflows nothing refines the queue
operation, or the vector cannot hold what it asks for. -/
theorem apply_spec (op : BufferOp) {queue : List UInt8} (valid : b.Valid)
    (same : b.readable = queue) (allowed : op.Allowed b) (small : op.NoOverflow b) :
    (op.Refused b ∧ op.apply build b = .error .lengthError) ∨
      ∃ after, op.apply build b = .ok after ∧ Refined op b after queue := by
  subst same
  cases op with
  | append data =>
    rcases TcpBuffer.append_spec build valid allowed with ⟨large, refused⟩ | ⟨after, appended, spec⟩
    · exact .inl ⟨large, refused⟩
    · exact .inr ⟨after, appended, spec.valid, spec.readable_eq, trivial⟩
  | fluentAppend data =>
    rcases TcpBuffer.append_spec build valid allowed with ⟨large, refused⟩ | ⟨after, appended, spec⟩
    · exact .inl ⟨large, refused⟩
    · exact .inr ⟨after, appended, spec.valid, spec.readable_eq, trivial⟩
  | appendFormFd answer =>
    cases answer with
    | none => exact .inr ⟨b, rfl, valid, rfl, trivial⟩
    | some received =>
      rcases appendFormFd_spec build valid received (allowed received rfl) with
        ⟨large, refused⟩ | ⟨after, appended, spec⟩
      · exact .inl ⟨large, by rw [BufferOp.apply, refused, error_bind]⟩
      · exact .inr ⟨after, by rw [BufferOp.apply, appended, ok_bind]; rfl, spec.valid,
          spec.readable_eq, trivial⟩
  | consume size =>
    exact .inr ⟨_, TcpBuffer.consume_eq build valid allowed, TcpBuffer.consumed_valid valid _,
      TcpBuffer.consumed_readable valid _, trivial⟩
  | retrieve size =>
    by_cases inside : size.toNat ≤ b.readableSize
    · have consumes := TcpBuffer.consume_eq build valid inside
      rw [TcpBuffer.consume] at consumes
      refine .inr ⟨_, ?_, TcpBuffer.consumed_valid valid size.toNat, ?_, trivial⟩
      · rw [BufferOp.apply, TcpBuffer.retrieve, if_pos inside, consumes, ok_bind]
        rfl
      · rw [BufferOp.queueOp, if_pos (by rw [valid.readable_length]; exact inside)]
        exact TcpBuffer.consumed_readable valid _
    · refine .inr ⟨b, ?_, valid, ?_, trivial⟩
      · rw [BufferOp.apply, TcpBuffer.retrieve, if_neg inside]
        rfl
      · rw [BufferOp.queueOp, if_neg (by rw [valid.readable_length]; exact inside)]
        rfl
  | retrieveAll =>
    have consumes := TcpBuffer.consume_eq build valid (le_refl b.readableSize)
    rw [TcpBuffer.consume] at consumes
    refine .inr ⟨_, ?_, TcpBuffer.consumed_valid valid b.readableSize, ?_, trivial⟩
    · rw [BufferOp.apply, TcpBuffer.retrieveAll, TcpBuffer.retrieve, if_pos (le_refl _), consumes,
        ok_bind]
      rfl
    · rw [BufferOp.queueOp, valid.readable_length]
      exact TcpBuffer.consumed_readable valid _
  | ensureWritableBytes len =>
    rcases TcpBuffer.ensureAppendable_spec build valid small with
      ⟨large, refused⟩ | ⟨roomy, ensured, spec⟩
    · exact .inl ⟨large, refused⟩
    · exact .inr ⟨roomy, ensured, spec.valid, spec.readable_eq, spec.room⟩
  | place data =>
    exact .inr ⟨_, TcpBuffer.copyIn_eq_filled valid allowed, TcpBuffer.filled_valid valid allowed,
      TcpBuffer.filled_readable valid data, trivial⟩
  | hasWritten len =>
    exact .inr ⟨_, TcpBuffer.hasWritten_eq build valid allowed,
      TcpBuffer.written_valid valid allowed, TcpBuffer.written_readable valid allowed, trivial⟩
  | unwrite len =>
    exact .inr ⟨_, TcpBuffer.unwrite_eq build valid allowed,
      TcpBuffer.unwritten_valid valid allowed, TcpBuffer.unwritten_readable valid allowed, trivial⟩

/-- What the refinement asks of one call: it refines the queue operation, or it makes room for more
than a vector can hold and throws `std::length_error`; no assertion fires and no access leaves the
storage. -/
def CallRefines (state : TcpBuffer × List UInt8) (op : BufferOp) : Prop :=
  op.Allowed state.1 → (op.Refused state.1 ∧ op.apply build state.1 = .error .lengthError) ∨
    ∃ after, op.apply build state.1 = .ok after ∧ Refined op state.1 after state.2

/-- The overflow condition on one call, in the state before it. -/
def CallFits (state : TcpBuffer × List UInt8) (op : BufferOp) : Prop :=
  op.Allowed state.1 → op.NoOverflow state.1

/-- On a valid buffer a call refines its queue operation exactly when it overflows nothing. -/
theorem callRefines_iff {queue : List UInt8} (valid : b.Valid) (same : b.readable = queue)
    (op : BufferOp) : CallRefines build (b, queue) op ↔ CallFits (b, queue) op := by
  constructor
  · intro refines allowed
    cases op with
    | ensureWritableBytes len =>
      intro short
      by_contra overflows
      have missing := TcpBuffer.ensureAppendable_overflow build valid short (uint64_lt len) overflows
      rcases refines allowed with ⟨-, refused⟩ | ⟨after, ensured, spec⟩
      · change b.ensureAppendable build len.toNat = .error .lengthError at refused
        rw [refused] at missing
        rcases missing with fault | ⟨_, returned, _⟩
        · cases fault
        · cases returned
      · change b.ensureAppendable build len.toNat = .ok after at ensured
        rw [ensured] at missing
        rcases missing with fault | ⟨roomy, returned, outside⟩
        · cases fault
        · obtain rfl : after = roomy := Except.ok.inj returned
          have := spec.valid.write_add_writable
          have room : len.toNat ≤ after.writableSize := spec.ensured
          omega
    | _ => trivial
  · intro fits allowed
    exact apply_spec build op valid same allowed (fits allowed)

end

/-! ### Whole runs -/

/-- The buffer and the queue take one operation side by side. -/
def bufferStep (build : Build) (state : TcpBuffer × List UInt8) (op : BufferOp)
    (next : TcpBuffer × List UInt8) : Prop :=
  op.Allowed state.1 ∧ op.apply build state.1 = .ok next.1 ∧
    next.2 = (op.queueOp state.1 state.2).apply state.2

/-- The buffer is valid and holds what the queue holds. -/
def InStep (state : TcpBuffer × List UInt8) : Prop :=
  state.1.Valid ∧ state.1.readable = state.2

theorem bufferStep_inStep (build : Build) (state : TcpBuffer × List UInt8) (op : BufferOp)
    (next : TcpBuffer × List UInt8) (refines : CallRefines build state op)
    (step : bufferStep build state op next) : InStep next := by
  obtain ⟨allowed, applied, queued⟩ := step
  rcases refines allowed with ⟨-, refused⟩ | ⟨after, returned, spec⟩
  · rw [refused] at applied
    cases applied
  · rw [returned] at applied
    obtain rfl : after = next.1 := Except.ok.inj applied
    exact ⟨spec.valid, spec.readable_eq.trans queued.symm⟩

/-- A buffer of the given sizes refines the queue along a sequence of calls. -/
def Refines (build : Build) (initialSize prependSize : UInt64) (ops : List BufferOp) : Prop :=
  ∀ b, TcpBuffer.create initialSize.toNat prependSize.toNat = .ok b →
    InStep (b, []) ∧ Meets (bufferStep build) (CallRefines build) (b, []) ops

/-- Neither the constructor's sum nor the room any call asks for overflows. A constructor whose
sum overflows by more than the vector's limit throws and makes no buffer. -/
def NothingOverflows (build : Build) (initialSize prependSize : UInt64) (ops : List BufferOp) :
    Prop :=
  (prependSize.toNat + initialSize.toNat < sizeModulus ∨
      sizeModulus + maxSize < prependSize.toNat + initialSize.toNat) ∧
    ∀ b, TcpBuffer.create initialSize.toNat prependSize.toNat = .ok b →
      Meets (bufferStep build) CallFits (b, []) ops

theorem create_eq {initialSize prependSize : Nat}
    (small : addSize prependSize initialSize ≤ maxSize) :
    TcpBuffer.create initialSize prependSize =
      .ok ⟨List.replicate (addSize prependSize initialSize) 0, prependSize, prependSize,
        prependSize⟩ :=
  if_neg (by omega)

/-- A fresh buffer is valid exactly when its size did not overflow. -/
theorem create_inStep_iff {initialSize prependSize : Nat} {b : TcpBuffer}
    (isSize : initialSize < sizeModulus) (isPrefix : prependSize < sizeModulus)
    (created : TcpBuffer.create initialSize prependSize = .ok b) :
    InStep (b, []) ↔ prependSize + initialSize < sizeModulus := by
  have small : addSize prependSize initialSize ≤ maxSize := by
    by_contra large
    rw [TcpBuffer.create, if_pos (by omega)] at created
    cases created
  rw [create_eq small] at created
  obtain rfl := Except.ok.inj created
  constructor
  · rintro ⟨valid, _⟩
    by_contra overflows
    have inside := valid.write_le_size
    rw [addSize_of_ge (by omega) (by omega)] at inside
    simp only [List.length_replicate] at inside
    omega
  · intro fits
    rw [addSize_of_lt fits] at small ⊢
    have size : (List.replicate (prependSize + initialSize) (0 : UInt8)).length =
        prependSize + initialSize := List.length_replicate
    have valid : TcpBuffer.Valid ⟨List.replicate (prependSize + initialSize) 0, prependSize,
        prependSize, prependSize⟩ :=
      ⟨le_refl _, le_refl _, by simp only [size]; omega, by simp only [size]; exact small⟩
    refine ⟨valid, List.length_eq_zero_iff.mp ?_⟩
    rw [valid.readable_length, valid.readableSize_eq]
    exact Nat.sub_self _

/-- Along every sequence of calls, in both builds and for every pair of constructor sizes, the
buffer refines the byte queue exactly when nothing overflows. -/
theorem tcpBuffer_refines_iff (build : Build) (initialSize prependSize : UInt64)
    (ops : List BufferOp) :
    Refines build initialSize prependSize ops ↔
      NothingOverflows build initialSize prependSize ops := by
  have isSize := uint64_lt initialSize
  have isPrefix := uint64_lt prependSize
  have along : ∀ b, InStep (b, []) →
      (Meets (bufferStep build) (CallRefines build) (b, []) ops ↔
        Meets (bufferStep build) CallFits (b, []) ops) := fun b inStep =>
    meets_congr inStep
      (fun state op holds => callRefines_iff build holds.1 holds.2 op)
      fun state op next _ refines step => bufferStep_inStep build state op next refines step
  constructor
  · intro refines
    refine ⟨?_, fun b created => (along b (refines b created).1).mp (refines b created).2⟩
    by_contra wraps
    have overflowed := addSize_of_ge (Nat.le_of_not_lt fun fits => wraps (.inl fits))
      (by omega : prependSize.toNat + initialSize.toNat < 2 * sizeModulus)
    have small : addSize prependSize.toNat initialSize.toNat ≤ maxSize := by omega
    have inStep := (refines _ (create_eq small)).1
    exact wraps (.inl ((create_inStep_iff isSize isPrefix (create_eq small)).mp inStep))
  · rintro ⟨constructorFits, callsFit⟩ b created
    have fits : prependSize.toNat + initialSize.toNat < sizeModulus := by
      rcases constructorFits with fits | wraps
      · exact fits
      · have overflowed : addSize prependSize.toNat initialSize.toNat =
            prependSize.toNat + initialSize.toNat - sizeModulus :=
          addSize_of_ge (by omega) (by omega)
        rw [TcpBuffer.create, if_pos (by omega)] at created
        cases created
    have inStep := (create_inStep_iff isSize isPrefix created).mpr fits
    exact ⟨inStep, (along b inStep).mpr (callsFit b created)⟩

/-- A fresh buffer asked for all of the address space: the test of `expend` overflows, nothing
is grown, and the assertion of `ensureWritableBytes` fires. -/
theorem tcpBuffer_refines_fails :
    ¬ Refines .debug 0 8 [.ensureWritableBytes 18446744073709551615] := by
  intro refines
  have created : TcpBuffer.create 0 8 = .ok ⟨List.replicate 8 0, 8, 8, 8⟩ := by decide +kernel
  obtain ⟨_, meets⟩ := refines _ created
  have asserts : (BufferOp.ensureWritableBytes 18446744073709551615).apply .debug
      ⟨List.replicate 8 0, 8, 8, 8⟩ = .error .assertFailed := by decide +kernel
  rcases meets [] _ [] rfl _ (.nil _) trivial with ⟨-, refused⟩ | ⟨after, returned, _⟩
  · rw [asserts] at refused
    cases refused
  · rw [asserts] at returned
    cases returned

end YYNet
