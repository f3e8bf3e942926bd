/-
This file models the two operations of `TcpBuffer` that touch the prefix of its
storage, and proves exactly when they keep what the other operations rely on.

`shrink` cuts the storage to the prefix, the readable bytes and a reserve. The
readable bytes may start behind the prefix, by as much as has been consumed, and
what is cut off then is theirs: they are kept if and only if the reserve is at
least what has been consumed.

`prepend` stores bytes in front of the readable ones. In the space that consumed
bytes have left this is harmless. In the prefix proper it moves the read index
in front of the prefix's end, and that is a lower bound for every operation that
makes room: a debug build stops at the next append, and a release build copies
the bytes back past the end of the storage when they leave no room behind them.
-/

import YYNet.Net.TcpBuffer

namespace YYNet

open Checked Storage

namespace TcpBuffer

/-- `shrink`. -/
def shrink (b : TcpBuffer) (reserve : Nat) : Except Fault TcpBuffer :=
  b.resize (addSize (addSize b.readableSize reserve) b.prependSize)

/-- `prepend`. -/
def prepend (build : Build) (b : TcpBuffer) (data : List UInt8) : Except Fault TcpBuffer := do
  assert build (data.length ≤ b.prependableSize)
  let moved := { b with readIndex := subSize b.readIndex data.length }
  moved.copyIn moved.readIndex data

/-! ### Shrinking -/

/-- What is left after shrinking: the readable bytes, indices inside the storage, and the reserve
behind the readable bytes or in front of them. -/
structure Shrunk (b after : TcpBuffer) (reserve : Nat) : Prop where
  valid : after.Valid
  readable_eq : after.readable = b.readable
  room : reserve ≤ after.writableSize + (after.readIndex - after.prependSize)

/-- The call returns and leaves what it should. -/
def Shrinks (b : TcpBuffer) (reserve : Nat) : Prop :=
  ∃ after, b.shrink reserve = .ok after ∧ Shrunk b after reserve

variable {b : TcpBuffer}

/-- The size that `shrink` asks for. -/
theorem shrink_of_fits {reserve : Nat}
    (fits : b.prependSize + b.readableSize + reserve < sizeModulus) :
    b.shrink reserve = b.resize (b.prependSize + b.readableSize + reserve) := by
  have first : addSize b.readableSize reserve = b.readableSize + reserve :=
    addSize_of_lt (by omega)
  rw [shrink, first, addSize_of_lt (by omega)]
  congr 1
  omega

/-- A size that overflows is smaller than the write index. -/
theorem shrink_of_overflow (valid : b.Valid) {reserve : Nat} (isSize : reserve < sizeModulus)
    (overflows : sizeModulus ≤ b.prependSize + b.readableSize + reserve) :
    ∃ size, size < b.writeIndex ∧ b.shrink reserve = b.resize size := by
  have := valid.prepend_le_read
  have := valid.read_add_readable
  have := valid.write_le_size
  have := valid.size_le_max
  have := maxSize_lt_sizeModulus
  refine ⟨_, ?_, rfl⟩
  by_cases first : b.readableSize + reserve < sizeModulus
  · rw [addSize_of_lt first, addSize_of_ge (by omega) (by omega)]
    omega
  · have wrapped : addSize b.readableSize reserve = b.readableSize + reserve - sizeModulus :=
      addSize_of_ge (by omega) (by omega)
    rw [wrapped, addSize_of_lt (by omega)]
    omega

/-- A storage that is cut in front of the write index leaves an index outside. -/
theorem not_shrunk_of_lt {size reserve : Nat} (cut : size < b.writeIndex) :
    ¬ Shrunk b (b.resized size) reserve := by
  intro shrunk
  have inside := shrunk.valid.write_le_size
  rw [resized_size, resized_writeIndex] at inside
  omega

/-- Shrinking keeps what it should if and only if the reserve is at least what has been consumed
and the vector can have the size. -/
theorem shrinks_iff (b : TcpBuffer) (valid : b.Valid) (reserve : UInt64) :
    Shrinks b reserve.toNat ↔
      (b.readIndex - b.prependSize ≤ reserve.toNat ∧
        b.prependSize + b.readableSize + reserve.toNat ≤ maxSize) := by
  have isSize : reserve.toNat < sizeModulus := by
    have := reserve.toNat_lt
    simp only [sizeModulus]
    exact this
  have := valid.prepend_le_read
  have := valid.read_add_readable
  constructor
  · rintro ⟨after, returned, shrunk⟩
    have fits : b.prependSize + b.readableSize + reserve.toNat < sizeModulus := by
      by_contra overflows
      obtain ⟨size, cut, asks⟩ := shrink_of_overflow valid isSize (not_lt.mp overflows)
      rw [asks, resize] at returned
      split at returned
      · cases returned
      · obtain rfl := Except.ok.inj returned
        exact not_shrunk_of_lt cut shrunk
    rw [shrink_of_fits fits] at returned
    have small : b.prependSize + b.readableSize + reserve.toNat ≤ maxSize := by
      by_contra large
      rw [resize, if_pos (by omega)] at returned
      cases returned
    rw [resize_of_le small] at returned
    obtain rfl := Except.ok.inj returned
    refine ⟨?_, small⟩
    by_contra consumed
    exact not_shrunk_of_lt (by omega) shrunk
  · rintro ⟨reserved, small⟩
    have keeps : b.writeIndex ≤ b.prependSize + b.readableSize + reserve.toNat := by omega
    have fits : b.prependSize + b.readableSize + reserve.toNat < sizeModulus := by
      have := maxSize_lt_sizeModulus
      omega
    refine ⟨_, (shrink_of_fits fits).trans (resize_of_le small),
      resized_valid valid keeps small, resized_readable valid keeps, ?_⟩
    rw [resized_writableSize valid keeps small, resized_readIndex, resized_prependSize]
    omega

/-- A buffer that has received three bytes and given up two of them. -/
def twoConsumed : TcpBuffer where
  buffer := [0, 0, 0, 0, 0, 0, 0, 0, 97, 98, 99]
  prependSize := 8
  readIndex := 10
  writeIndex := 11

theorem twoConsumed_valid : twoConsumed.Valid := by
  have small : 11 ≤ maxSize := by
    unfold maxSize
    norm_num
  exact ⟨by decide, by decide, by decide, small⟩

theorem shrinks_iff_two : Shrinks twoConsumed (2 : UInt64).toNat := by
  refine (shrinks_iff twoConsumed twoConsumed_valid 2).mpr ⟨by decide, ?_⟩
  unfold maxSize
  decide

/-- With a smaller reserve the byte that is left is cut off. -/
theorem not_shrinks_zero :
    ∃ fresh appended, create 3 8 = .ok fresh ∧
      fresh.append .debug [97, 98, 99] = .ok appended ∧
      appended.consume .debug 2 = .ok twoConsumed ∧
      twoConsumed.shrink 0 = .ok (twoConsumed.resized 9) ∧
      twoConsumed.readable = [99] ∧ (twoConsumed.resized 9).readable = [] ∧
      ¬ Shrinks twoConsumed 0 := by
  have returned : twoConsumed.shrink 0 = .ok (twoConsumed.resized 9) := by decide +kernel
  refine ⟨⟨List.replicate 11 0, 8, 8, 8⟩, ⟨[0, 0, 0, 0, 0, 0, 0, 0, 97, 98, 99], 8, 8, 11⟩,
    by decide +kernel, by decide +kernel, by decide +kernel, returned, by decide +kernel,
    by decide, ?_⟩
  rintro ⟨after, returns, shrunk⟩
  obtain rfl := Except.ok.inj (returned.symm.trans returns)
  exact not_shrunk_of_lt (by decide) shrunk

/-! ### Prepending -/

/-- The indices are ordered and lie inside the storage, wherever the prefix ends. -/
structure InBounds (b : TcpBuffer) : Prop where
  prepend_le_size : b.prependSize ≤ b.buffer.length
  read_le_write : b.readIndex ≤ b.writeIndex
  write_le_size : b.writeIndex ≤ b.buffer.length
  size_le_max : b.buffer.length ≤ maxSize

theorem Valid.inBounds (valid : b.Valid) : b.InBounds := by
  have := valid.prepend_le_read
  have := valid.read_le_write
  have := valid.write_le_size
  exact ⟨by omega, valid.read_le_write, valid.write_le_size, valid.size_le_max⟩

/-- One append after the other. -/
def appendAll (build : Build) : TcpBuffer → List (List UInt8) → Except Fault TcpBuffer
  | b, [] => .ok b
  | b, chunk :: rest => do
    let next ← b.append build chunk
    appendAll build next rest

/-- The prepended bytes survive: they are in front of the readable ones, and they still are after
any appends, none of which faults, unless the prefix and all these bytes together are more than a
vector can hold and it refuses to grow. -/
structure Survives (build : Build) (b : TcpBuffer) (data : List UInt8) (pre : TcpBuffer) :
    Prop where
  readable_eq : pre.readable = data ++ b.readable
  inside : pre.writeIndex ≤ pre.buffer.length
  appends : ∀ chunks : List (List UInt8), (∀ chunk ∈ chunks, chunk.length ≤ maxSize) →
    (maxSize < b.prependSize + (data ++ b.readable ++ chunks.flatten).length ∧
        pre.appendAll build chunks = .error .lengthError) ∨
      ∃ after, pre.appendAll build chunks = .ok after ∧
        after.readable = data ++ b.readable ++ chunks.flatten ∧
        after.writeIndex ≤ after.buffer.length

/-- A call of `prepend` returns, and its bytes survive. -/
def Prepends (build : Build) (b : TcpBuffer) (data : List UInt8) : Prop :=
  ∃ pre, b.prepend build data = .ok pre ∧ Survives build b data pre

/-- The buffer after bytes have been stored in front of the readable ones. -/
def prepended (b : TcpBuffer) (data : List UInt8) : TcpBuffer := { b with
  buffer := overwrite b.buffer (b.readIndex - data.length) data
  readIndex := b.readIndex - data.length }

section

variable (build : Build) {data : List UInt8}

theorem prepended_size (inBounds : b.InBounds) (room : data.length ≤ b.readIndex) :
    (b.prepended data).buffer.length = b.buffer.length := by
  have := inBounds.read_le_write
  have := inBounds.write_le_size
  exact overwrite_length _ _ _ (by omega)

theorem prepend_eq (inBounds : b.InBounds) (room : data.length ≤ b.readIndex) :
    b.prepend build data = .ok (b.prepended data) := by
  have := inBounds.read_le_write
  have := inBounds.write_le_size
  have moved : subSize b.readIndex data.length = b.readIndex - data.length := subSize_of_le room
  have passes : assert build (data.length ≤ b.prependableSize) = .ok () :=
    assert_of_holds build room
  rw [prepend, passes, ok_bind]
  simp only [moved, copyIn]
  rw [if_neg (by omega), pure_eq_ok, prepended]

/-- The prepended bytes are readable, in front of the others. -/
theorem prepended_readable (inBounds : b.InBounds) (room : data.length ≤ b.readIndex) :
    (b.prepended data).readable = data ++ b.readable := by
  have := inBounds.read_le_write
  have := inBounds.write_le_size
  have sizes : (b.prepended data).readableSize = data.length + b.readableSize := by
    have before : b.readableSize = b.writeIndex - b.readIndex := subSize_of_le inBounds.read_le_write
    have after : (b.prepended data).readableSize =
        b.writeIndex - (b.readIndex - data.length) :=
      subSize_of_le (by show b.readIndex - data.length ≤ b.writeIndex; omega)
    omega
  have behind : stretch (overwrite b.buffer (b.readIndex - data.length) data) b.readIndex
      b.readableSize = b.readable := by
    have front : (b.buffer.take (b.readIndex - data.length) ++ data).length = b.readIndex := by
      rw [List.length_append, List.length_take]
      omega
    have rest : b.readIndex - data.length + data.length = b.readIndex := by omega
    rw [stretch, overwrite, rest, List.drop_left' front]
    rfl
  have start : b.readIndex - data.length + data.length = b.readIndex := by omega
  rw [readable, sizes, stretch_add]
  show stretch (overwrite _ _ _) (b.readIndex - data.length) _ ++
    stretch _ (b.readIndex - data.length + data.length) _ = _
  rw [stretch_overwrite_self _ _ _ (by omega), start]
  exact congrArg (data ++ ·) behind

/-- In the space that consumed bytes have left the buffer stays valid. -/
theorem prepended_valid (valid : b.Valid) (consumed : b.prependSize + data.length ≤ b.readIndex) :
    (b.prepended data).Valid := by
  have room : data.length ≤ b.readIndex := by omega
  have size := prepended_size valid.inBounds room
  have := valid.read_le_write
  refine ⟨?_, ?_, ?_, ?_⟩
  · show b.prependSize ≤ b.readIndex - data.length
    omega
  · show b.readIndex - data.length ≤ b.writeIndex
    omega
  · rw [size]
    exact valid.write_le_size
  · rw [size]
    exact valid.size_le_max

/-- Appends to a valid buffer keep what is readable, or there is too much of it for a vector. -/
theorem appendAll_spec (valid : b.Valid) {chunks : List (List UInt8)}
    (areArrays : ∀ chunk ∈ chunks, chunk.length ≤ maxSize) :
    (maxSize < b.prependSize + (b.readable ++ chunks.flatten).length ∧
        b.appendAll build chunks = .error .lengthError) ∨
      ∃ after, b.appendAll build chunks = .ok after ∧ after.Valid ∧
        after.readable = b.readable ++ chunks.flatten := by
  induction chunks generalizing b with
  | nil => exact .inr ⟨b, rfl, valid, (List.append_nil _).symm⟩
  | cons chunk rest inductionHypothesis =>
    rcases append_spec build valid (areArrays chunk List.mem_cons_self) with
      ⟨large, refused⟩ | ⟨next, appended, spec⟩
    · refine .inl ⟨?_, by rw [appendAll, refused, error_bind]⟩
      rw [List.length_append, List.flatten_cons, List.length_append, valid.readable_length]
      omega
    · rcases inductionHypothesis spec.valid
        (fun other member => areArrays other (List.mem_cons_of_mem _ member)) with
        ⟨large, refused⟩ | ⟨after, returned, afterValid, readable⟩
      · refine .inl ⟨?_, by rw [appendAll, appended, ok_bind, refused]⟩
        rwa [spec.prepend_eq, spec.readable_eq, List.append_assoc, ← List.flatten_cons] at large
      · refine .inr ⟨after, by rw [appendAll, appended, ok_bind, returned], afterValid, ?_⟩
        rw [readable, spec.readable_eq, List.flatten_cons, List.append_assoc]

/-! ### A read index in the prefix -/

/-- A debug build stops at the first append, even of nothing. -/
theorem append_in_prefix_debug (early : b.readIndex < b.prependSize) :
    b.append .debug [] = .error .assertFailed := by
  have checked : b.checkIndexValidity .debug = .error .assertFailed := by
    rw [checkIndexValidity, assert_debug_of_fails (by omega), error_bind]
  have roomy : ¬ b.writableSize < 0 := Nat.not_lt_zero _
  have room : 0 ≤ b.writableSize := Nat.zero_le _
  rw [append, appendImp, ensureAppendable, List.length_nil, if_neg roomy, pure_eq_ok, ok_bind,
    assert_of_holds .debug room, ok_bind, checked, error_bind, error_bind]

/-- An append of what fits moves the write index, wherever the read index is. -/
theorem append_full_release (inBounds : b.InBounds) {chunk : List UInt8}
    (full : chunk.length = b.writableSize) :
    ∃ after, b.append .release chunk = .ok after ∧ after.InBounds ∧
      after.readIndex = b.readIndex ∧ after.prependSize = b.prependSize ∧
      after.writeIndex = after.buffer.length := by
  have := inBounds.read_le_write
  have := inBounds.write_le_size
  have := inBounds.size_le_max
  have := maxSize_lt_sizeModulus
  have writable : b.writableSize = b.buffer.length - b.writeIndex :=
    subSize_of_le inBounds.write_le_size
  have size : (b.filled chunk).buffer.length = b.buffer.length :=
    overwrite_length _ _ _ (by omega)
  have stored : b.copyIn b.writeIndex chunk = .ok (b.filled chunk) := if_neg (by omega)
  have moved : addSize b.writeIndex chunk.length = b.buffer.length := by
    rw [addSize_of_lt (by omega)]
    omega
  refine ⟨{ b.filled chunk with writeIndex := b.buffer.length }, ?_, ⟨?_, ?_, ?_, ?_⟩, rfl, rfl,
    size.symm⟩
  · rw [append, appendImp, ensureAppendable, if_neg (by omega), pure_eq_ok, ok_bind,
      assert_release, ok_bind, checkIndexValidity, assert_release, ok_bind, assert_release,
      ok_bind, pure_eq_ok, ok_bind, stored, ok_bind, moveWriteIndex, assert_release, ok_bind,
      pure_eq_ok]
    show Except.ok { b.filled chunk with writeIndex := addSize b.writeIndex chunk.length } = _
    rw [moved]
  · exact inBounds.prepend_le_size.trans (le_of_eq size.symm)
  · show b.readIndex ≤ b.buffer.length
    omega
  · exact le_of_eq size.symm
  · show (b.filled chunk).buffer.length ≤ maxSize
    omega

/-- A full buffer that has to make room for a byte copies its bytes past the end. -/
theorem append_in_prefix_release (inBounds : b.InBounds) (early : b.readIndex < b.prependSize)
    (full : b.writeIndex = b.buffer.length) (byte : UInt8) :
    b.append .release [byte] = .error .outOfBounds := by
  have := inBounds.prepend_le_size
  have := inBounds.size_le_max
  have := maxSize_lt_sizeModulus
  have readable : b.readableSize = b.writeIndex - b.readIndex :=
    subSize_of_le inBounds.read_le_write
  have writable : b.writableSize = 0 := by
    rw [writableSize, full, subSize_of_le (le_refl _), Nat.sub_self]
  have := inBounds.read_le_write
  have outside : b.reusePrependableSpace .release = .error .outOfBounds :=
    if_pos (by omega)
  have checked : b.checkIndexValidity .release = .ok () := by
    rw [checkIndexValidity, assert_release, ok_bind, assert_release]
  have grows : ¬ addSize 1 b.prependSize < addSize b.writableSize b.prependableSize := by
    rw [writable, prependableSize, addSize_of_lt (by omega), addSize_of_lt (by omega)]
    omega
  have expands : b.expend .release 1 = .error .outOfBounds := by
    rw [expend, checked, ok_bind, if_neg grows, outside, error_bind]
  rw [append, appendImp, ensureAppendable, List.length_singleton, if_pos (by omega), expands,
    error_bind, error_bind]

/-- Appends that break a buffer whose read index is in the prefix. -/
theorem appends_in_prefix (inBounds : b.InBounds) (early : b.readIndex < b.prependSize) :
    ∃ chunks : List (List UInt8), (∀ chunk ∈ chunks, chunk.length ≤ maxSize) ∧
      (b.appendAll build chunks = .error .assertFailed ∨
        b.appendAll build chunks = .error .outOfBounds) := by
  cases build with
  | debug =>
    refine ⟨[[]], by simp, .inl ?_⟩
    rw [appendAll, append_in_prefix_debug early, error_bind]
  | release =>
    have writable : b.writableSize = b.buffer.length - b.writeIndex :=
      subSize_of_le inBounds.write_le_size
    have := inBounds.size_le_max
    have one : 1 ≤ maxSize := by
      unfold maxSize
      norm_num
    have fills : (List.replicate b.writableSize (0 : UInt8)).length = b.writableSize :=
      List.length_replicate
    obtain ⟨after, returned, afterBounds, sameRead, samePrefix, full⟩ :=
      append_full_release inBounds fills
    refine ⟨[List.replicate b.writableSize 0, [0]], ?_, .inr ?_⟩
    · intro chunk member
      rcases List.mem_cons.mp member with rfl | member
      · rw [List.length_replicate]
        omega
      · obtain rfl := List.mem_singleton.mp member
        exact one
    · rw [appendAll, returned, ok_bind, appendAll,
        append_in_prefix_release afterBounds (by omega) full, error_bind]

/-- Prepended bytes survive if and only if they fit in the space that consumed bytes have left. -/
theorem prepends_iff (b : TcpBuffer) (inBounds : b.InBounds) (data : List UInt8)
    (room : data.length ≤ b.prependableSize) :
    Prepends build b data ↔ b.prependSize + data.length ≤ b.readIndex := by
  have returned := prepend_eq build inBounds room
  have readable := prepended_readable inBounds room
  have size := prepended_size inBounds room
  constructor
  · rintro ⟨pre, returns, survives⟩
    obtain rfl := Except.ok.inj (returned.symm.trans returns)
    by_contra outside
    have early : b.readIndex - data.length < b.prependSize := by
      have inFront : data.length ≤ b.readIndex := room
      omega
    have preBounds : (b.prepended data).InBounds := by
      have := inBounds.read_le_write
      refine ⟨inBounds.prepend_le_size.trans (le_of_eq size.symm), ?_,
        inBounds.write_le_size.trans (le_of_eq size.symm), ?_⟩
      · show b.readIndex - data.length ≤ b.writeIndex
        omega
      · rw [size]
        exact inBounds.size_le_max
    obtain ⟨chunks, areArrays, fails⟩ := appends_in_prefix build preBounds early
    rcases survives.appends chunks areArrays with ⟨-, refused⟩ | ⟨after, appended, -⟩
    · rcases fails with fault | fault
      · cases refused.symm.trans fault
      · cases refused.symm.trans fault
    · rcases fails with fault | fault
      · cases appended.symm.trans fault
      · cases appended.symm.trans fault
  · intro consumed
    have valid : b.Valid :=
      ⟨by omega, inBounds.read_le_write, inBounds.write_le_size, inBounds.size_le_max⟩
    have preValid := prepended_valid valid consumed
    refine ⟨b.prepended data, returned, readable, preValid.write_le_size, ?_⟩
    intro chunks areArrays
    rcases appendAll_spec build preValid areArrays with
      ⟨large, refused⟩ | ⟨after, appended, afterValid, appendedReadable⟩
    · exact .inl ⟨by rwa [readable] at large, refused⟩
    · exact .inr ⟨after, appended, by rw [appendedReadable, readable], afterValid.write_le_size⟩

theorem prepends_iff_consumed : Prepends .debug twoConsumed [98] :=
  (prepends_iff .debug twoConsumed twoConsumed_valid.inBounds [98] (by decide)).mpr (by decide)

/-- A byte in the prefix of a fresh buffer: the next append stops a debug build, and a release
build copies past the end of the storage when it has to make room. -/
theorem not_prepends_fresh :
    ∃ fresh, create 4 8 = .ok fresh ∧ fresh.prepend .debug [1] = .ok (fresh.prepended [1]) ∧
      (fresh.prepended [1]).appendAll .debug [[97]] = .error .assertFailed ∧
      (fresh.prepended [1]).appendAll .release [[97, 98, 99, 100], [101]] =
        .error .outOfBounds ∧
      ¬ Prepends .debug fresh [1] ∧ ¬ Prepends .release fresh [1] := by
  have small : 4 ≤ maxSize := by
    unfold maxSize
    norm_num
  have stops : (prepended ⟨List.replicate 12 0, 8, 8, 8⟩ [1]).appendAll .debug [[97]] =
      .error .assertFailed := by decide
  have copies : (prepended ⟨List.replicate 12 0, 8, 8, 8⟩ [1]).appendAll .release
      [[97, 98, 99, 100], [101]] = .error .outOfBounds := by decide +kernel
  refine ⟨⟨List.replicate 12 0, 8, 8, 8⟩, by decide +kernel, by decide +kernel, stops, copies,
    ?_, ?_⟩
  · rintro ⟨pre, returns, survives⟩
    have returned : prepend .debug ⟨List.replicate 12 0, 8, 8, 8⟩ [1] =
        .ok (prepended ⟨List.replicate 12 0, 8, 8, 8⟩ [1]) := by decide
    obtain rfl := Except.ok.inj (returned.symm.trans returns)
    rcases survives.appends [[97]] (fun chunk member => by
      obtain rfl := List.mem_singleton.mp member
      exact le_trans (by decide) small) with ⟨-, refused⟩ | ⟨after, appended, -⟩
    · cases refused.symm.trans stops
    · cases appended.symm.trans stops
  · rintro ⟨pre, returns, survives⟩
    have returned : prepend .release ⟨List.replicate 12 0, 8, 8, 8⟩ [1] =
        .ok (prepended ⟨List.replicate 12 0, 8, 8, 8⟩ [1]) := by decide
    obtain rfl := Except.ok.inj (returned.symm.trans returns)
    rcases survives.appends [[97, 98, 99, 100], [101]] (fun chunk member => by
      fin_cases member
      · exact small
      · exact le_trans (by decide) small) with ⟨-, refused⟩ | ⟨after, appended, -⟩
    · cases refused.symm.trans copies
    · cases appended.symm.trans copies

end

end TcpBuffer

end YYNet
