/-
This file models `TcpBuffer`, the flat byte buffer of a connection, and proves
that it refines a byte queue.

The storage is one vector. The bytes between the read index and the write index
are readable, the ones behind the write index are writable, and the ones before
the read index are free again down to the configured prefix. A write that does
not fit slides the readable bytes to the front and, if that is not enough, grows
the vector by what is missing. The scatter read offers the writable bytes and a
stack buffer to one `readv` and appends what landed in the stack buffer.

The indices are 64-bit sizes. Every sum that is not bounded by the vector's size
is written with its wrap-around, because two of them can overflow: the size the
constructor asks for, and the size `expend` asks for when the caller of
`ensureWritableBytes` wants more than the address space.
-/

import YYNet.Lib.Transition
import YYNet.Lib.Checked
import YYNet.Lib.Storage

namespace YYNet

open Checked Storage Transition

/-! ### The buffer -/

/-- `std::vector<char>::max_size()`: a vector asked for more throws `std::length_error`. -/
@[irreducible] def maxSize : Nat := 2 ^ 63 - 1

/-- `TcpBuffer`: the storage, the size of the prefix and the two indices. -/
structure TcpBuffer where
  buffer : List UInt8
  prependSize : Nat
  readIndex : Nat
  writeIndex : Nat
  deriving DecidableEq, Repr

namespace TcpBuffer

/-- The constructor: value-initialised storage for the prefix and the initial size. -/
def create (initialSize prependSize : Nat) : Except Fault TcpBuffer :=
  if maxSize < addSize prependSize initialSize then throw .lengthError
  else return {
    buffer := List.replicate (addSize prependSize initialSize) 0
    prependSize := prependSize
    readIndex := prependSize
    writeIndex := prependSize }

def readableSize (b : TcpBuffer) : Nat := subSize b.writeIndex b.readIndex

def writableSize (b : TcpBuffer) : Nat := subSize b.buffer.length b.writeIndex

def prependableSize (b : TcpBuffer) : Nat := b.readIndex

/-- The readable bytes: `readable_size()` bytes from `peek()` on. -/
def readable (b : TcpBuffer) : List UInt8 := stretch b.buffer b.readIndex b.readableSize

/-- The bytes behind `BeginWrite()`, `count` of them. -/
def beginWrite (b : TcpBuffer) (count : Nat) : List UInt8 := stretch b.buffer b.writeIndex count

/-- What a pointer into the readable bytes finds behind them: the writable bytes, whatever is in
them. -/
def writable (b : TcpBuffer) : List UInt8 := b.buffer.drop b.writeIndex

def checkIndexValidity (build : Build) (b : TcpBuffer) : Except Fault Unit := do
  assert build (b.prependSize ≤ b.readIndex)
  assert build (b.readIndex ≤ b.writeIndex)

/-- The buffer with its storage cut to a size or filled up with zeros. -/
def resized (b : TcpBuffer) (size : Nat) : TcpBuffer :=
  { b with buffer := b.buffer.take size ++ List.replicate (size - b.buffer.length) 0 }

/-- `buffer_.resize(size)`. -/
def resize (b : TcpBuffer) (size : Nat) : Except Fault TcpBuffer :=
  if maxSize < size then throw .lengthError else return b.resized size

/-- `std::copy` of bytes from outside the buffer to a position of the storage. -/
def copyIn (b : TcpBuffer) (position : Nat) (data : List UInt8) : Except Fault TcpBuffer :=
  if b.buffer.length < position + data.length then throw .outOfBounds
  else return { b with buffer := overwrite b.buffer position data }

/-- `reuse_prependable_space`: a read index in front of the prefix's end makes the copy move the
bytes back, and then they need not fit. `std::copy` of characters is one `memmove`. -/
def reusePrependableSpace (build : Build) (b : TcpBuffer) : Except Fault TcpBuffer := do
  let readable := b.readableSize
  if b.buffer.length < b.prependSize + readable then throw .outOfBounds
  else
    let moved := { b with
      buffer := copyWithin b.buffer b.readIndex b.prependSize readable
      readIndex := b.prependSize
      writeIndex := addSize b.prependSize readable }
    moved.checkIndexValidity build
    return moved

def expend (build : Build) (b : TcpBuffer) (size : Nat) : Except Fault TcpBuffer := do
  b.checkIndexValidity build
  if addSize size b.prependSize < addSize b.writableSize b.prependableSize then
    b.reusePrependableSpace build
  else
    let moved ← b.reusePrependableSpace build
    let grown ← moved.resize (addSize moved.writeIndex size)
    grown.checkIndexValidity build
    return grown

/-- `ensure_appendable` and `ensureWritableBytes`: the two have the same body. -/
def ensureAppendable (build : Build) (b : TcpBuffer) (size : Nat) : Except Fault TcpBuffer := do
  let roomy ← (if b.writableSize < size then b.expend build size else pure b)
  assert build (size ≤ roomy.writableSize)
  roomy.checkIndexValidity build
  return roomy

def ensureWritableBytes (build : Build) (b : TcpBuffer) (len : Nat) : Except Fault TcpBuffer :=
  b.ensureAppendable build len

def moveWriteIndex (build : Build) (b : TcpBuffer) (size : Nat) : Except Fault TcpBuffer := do
  assert build (size ≤ b.writableSize)
  return { b with writeIndex := addSize b.writeIndex size }

def moveReadIndex (build : Build) (b : TcpBuffer) (size : Nat) : Except Fault TcpBuffer := do
  assert build (size ≤ b.readableSize)
  if size < b.readableSize then
    let moved := { b with readIndex := addSize b.readIndex size }
    moved.checkIndexValidity build
    return moved
  else
    b.checkIndexValidity build
    let emptied := { b with readIndex := b.prependSize, writeIndex := b.prependSize }
    emptied.checkIndexValidity build
    return emptied

def appendImp (build : Build) (b : TcpBuffer) (data : List UInt8) : Except Fault TcpBuffer := do
  let roomy ← b.ensureAppendable build data.length
  let filled ← roomy.copyIn roomy.writeIndex data
  filled.moveWriteIndex build data.length

def append (build : Build) (b : TcpBuffer) (data : List UInt8) : Except Fault TcpBuffer :=
  b.appendImp build data

def fluentAppend (build : Build) (b : TcpBuffer) (data : List UInt8) : Except Fault TcpBuffer :=
  b.appendImp build data

def consume (build : Build) (b : TcpBuffer) (size : Nat) : Except Fault TcpBuffer :=
  b.moveReadIndex build size

/-- `retrieve`: the pointer is the read index before the move, or null. -/
def retrieve (build : Build) (b : TcpBuffer) (size : Nat) :
    Except Fault (Option Nat × TcpBuffer) := do
  if size ≤ b.readableSize then
    let moved ← b.moveReadIndex build size
    return (some b.readIndex, moved)
  else return (none, b)

def retrieveAll (build : Build) (b : TcpBuffer) : Except Fault (Option Nat × TcpBuffer) :=
  b.retrieve build b.readableSize

def hasWritten (build : Build) (b : TcpBuffer) (len : Nat) : Except Fault TcpBuffer := do
  assert build (len ≤ b.writableSize)
  let moved := { b with writeIndex := addSize b.writeIndex len }
  moved.checkIndexValidity build
  return moved

def unwrite (build : Build) (b : TcpBuffer) (len : Nat) : Except Fault TcpBuffer := do
  assert build (len ≤ b.readableSize)
  let moved := { b with writeIndex := subSize b.writeIndex len }
  moved.checkIndexValidity build
  return moved

/-- `sizeof extrabuf` of `appendFormFd`. -/
def extrabufSize : Nat := 65536

/-- How many bytes the iovecs of `appendFormFd` offer to `readv`. -/
def offered (b : TcpBuffer) : Nat :=
  if b.writableSize < extrabufSize then b.writableSize + extrabufSize else b.writableSize

/-- `appendFormFd`: the argument is what `readv` answered, the received bytes or a failure.
The kernel fills the writable bytes first and `extrabuf` behind them. -/
def appendFormFd (build : Build) (b : TcpBuffer) :
    Option (List UInt8) → Except Fault (Int × TcpBuffer)
  | none => return (-1, b)
  | some received => do
    let writable := b.writableSize
    let filled ← b.copyIn b.writeIndex (received.take writable)
    if 0 < received.length then
      if received.length ≤ filled.writableSize then
        let moved ← filled.moveWriteIndex build received.length
        return (received.length, moved)
      else
        let full := { filled with writeIndex := filled.buffer.length }
        let appended ← full.append build (received.drop writable)
        return (received.length, appended)
    else return (received.length, filled)

/-! ### The index invariant -/

/-- The indices are ordered and lie inside the storage. -/
structure Valid (b : TcpBuffer) : Prop where
  prepend_le_read : b.prependSize ≤ b.readIndex
  read_le_write : b.readIndex ≤ b.writeIndex
  write_le_size : b.writeIndex ≤ b.buffer.length
  size_le_max : b.buffer.length ≤ maxSize

theorem checkIndexValidity_of_le {b : TcpBuffer} (build : Build)
    (prependLe : b.prependSize ≤ b.readIndex) (readLe : b.readIndex ≤ b.writeIndex) :
    b.checkIndexValidity build = .ok () := by
  rw [checkIndexValidity, assert_of_holds build prependLe, ok_bind, assert_of_holds build readLe]

theorem le_maxSize {size : Nat} (small : size < 2 ^ 62) : size ≤ maxSize := by
  unfold maxSize
  omega

theorem maxSize_lt : maxSize < 2 ^ 63 := by
  unfold maxSize
  omega

theorem maxSize_lt_sizeModulus : 2 * maxSize + 1 < sizeModulus := by
  simp only [maxSize, sizeModulus]
  norm_num

namespace Valid

variable {b : TcpBuffer}

theorem size_lt (valid : b.Valid) : b.buffer.length < sizeModulus := by
  have := valid.size_le_max
  have := maxSize_lt_sizeModulus
  omega

theorem readableSize_eq (valid : b.Valid) : b.readableSize = b.writeIndex - b.readIndex :=
  subSize_of_le valid.read_le_write

theorem writableSize_eq (valid : b.Valid) :
    b.writableSize = b.buffer.length - b.writeIndex :=
  subSize_of_le valid.write_le_size

theorem read_add_readable (valid : b.Valid) : b.readIndex + b.readableSize = b.writeIndex := by
  have := valid.read_le_write
  rw [valid.readableSize_eq]
  omega

theorem write_add_writable (valid : b.Valid) :
    b.writeIndex + b.writableSize = b.buffer.length := by
  have := valid.write_le_size
  rw [valid.writableSize_eq]
  omega

theorem readable_length (valid : b.Valid) : b.readable.length = b.readableSize := by
  have := valid.write_le_size
  exact stretch_length _ _ _ (by rw [valid.read_add_readable]; exact this)

theorem checkIndexValidity_eq (valid : b.Valid) (build : Build) :
    b.checkIndexValidity build = .ok () :=
  checkIndexValidity_of_le build valid.prepend_le_read valid.read_le_write

end Valid

/-! ### What each operation does to a valid buffer -/

section

variable (build : Build) {b : TcpBuffer}

/-- The buffer after sliding the readable bytes to the front. -/
def slid (b : TcpBuffer) : TcpBuffer := { b with
  buffer := overwrite b.buffer b.prependSize b.readable
  readIndex := b.prependSize
  writeIndex := b.prependSize + b.readableSize }

@[simp] theorem slid_prependSize : b.slid.prependSize = b.prependSize := rfl

@[simp] theorem slid_readIndex : b.slid.readIndex = b.prependSize := rfl

@[simp] theorem slid_writeIndex : b.slid.writeIndex = b.prependSize + b.readableSize := rfl

theorem slid_valid (valid : b.Valid) : b.slid.Valid := by
  have fits : b.prependSize + b.readable.length ≤ b.buffer.length := by
    have := valid.prepend_le_read
    have := valid.read_add_readable
    have := valid.write_le_size
    rw [valid.readable_length]
    omega
  have size : b.slid.buffer.length = b.buffer.length := overwrite_length _ _ _ fits
  refine ⟨le_refl _, Nat.le_add_right _ _, ?_, ?_⟩
  · rw [size, slid_writeIndex, ← valid.readable_length]
    exact fits
  · rw [size]
    exact valid.size_le_max

theorem slid_size (valid : b.Valid) : b.slid.buffer.length = b.buffer.length := by
  refine overwrite_length _ _ _ ?_
  have := valid.prepend_le_read
  have := valid.read_add_readable
  have := valid.write_le_size
  rw [valid.readable_length]
  omega

theorem slid_readableSize (valid : b.Valid) : b.slid.readableSize = b.readableSize := by
  rw [(slid_valid valid).readableSize_eq]
  simp only [slid]
  omega

theorem slid_readable (valid : b.Valid) : b.slid.readable = b.readable := by
  have front : b.prependSize ≤ b.buffer.length := by
    have := valid.prepend_le_read
    have := valid.read_le_write
    have := valid.write_le_size
    omega
  have whole := stretch_overwrite_self b.buffer b.prependSize b.readable front
  rw [readable, slid_readableSize valid, ← valid.readable_length]
  exact whole

/-- Sliding gives back the consumed prefix. -/
theorem slid_writableSize (valid : b.Valid) :
    b.slid.writableSize = b.writableSize + (b.readIndex - b.prependSize) := by
  have := valid.prepend_le_read
  have := valid.read_add_readable
  have := valid.write_add_writable
  rw [(slid_valid valid).writableSize_eq, slid_size valid]
  simp only [slid]
  omega

theorem reusePrependableSpace_eq (valid : b.Valid) :
    b.reusePrependableSpace build = .ok b.slid := by
  have inside : b.prependSize + b.readableSize ≤ b.buffer.length := by
    have := valid.prepend_le_read
    have := valid.read_add_readable
    have := valid.write_le_size
    omega
  have fits : b.prependSize + b.readableSize < sizeModulus := lt_of_le_of_lt inside valid.size_lt
  have moved : ({ b with
      buffer := copyWithin b.buffer b.readIndex b.prependSize b.readableSize
      readIndex := b.prependSize
      writeIndex := addSize b.prependSize b.readableSize } : TcpBuffer) = b.slid := by
    rw [addSize_of_lt fits, slid, copyWithin, readable]
  simp only [reusePrependableSpace]
  rw [if_neg (not_lt.mpr inside), moved, (slid_valid valid).checkIndexValidity_eq, ok_bind,
    pure_eq_ok]

@[simp] theorem resized_prependSize (size : Nat) :
    (b.resized size).prependSize = b.prependSize := rfl

@[simp] theorem resized_readIndex (size : Nat) :
    (b.resized size).readIndex = b.readIndex := rfl

@[simp] theorem resized_writeIndex (size : Nat) :
    (b.resized size).writeIndex = b.writeIndex := rfl

theorem resized_size (size : Nat) : (b.resized size).buffer.length = size := by
  simp only [resized, List.length_append, List.length_take, List.length_replicate]
  omega

theorem resize_of_le {size : Nat} (small : size ≤ maxSize) :
    b.resize size = .ok (b.resized size) :=
  if_neg (by omega)

theorem resized_valid (valid : b.Valid) {size : Nat} (keeps : b.writeIndex ≤ size)
    (small : size ≤ maxSize) : (b.resized size).Valid :=
  ⟨valid.prepend_le_read, valid.read_le_write, by rw [resized_size]; exact keeps,
    by rw [resized_size]; exact small⟩

theorem resized_readable (valid : b.Valid) {size : Nat} (keeps : b.writeIndex ≤ size) :
    (b.resized size).readable = b.readable := by
  have inside : b.readIndex + b.readableSize ≤ (b.buffer.take size).length := by
    have := valid.write_le_size
    rw [valid.read_add_readable, List.length_take]
    omega
  have cut : b.readIndex + b.readableSize ≤ size := by
    rw [valid.read_add_readable]
    exact keeps
  exact (stretch_append _ _ _ _ inside).trans (stretch_take _ _ _ _ cut)

theorem resized_writableSize (valid : b.Valid) {size : Nat} (keeps : b.writeIndex ≤ size)
    (small : size ≤ maxSize) : (b.resized size).writableSize = size - b.writeIndex := by
  rw [(resized_valid valid keeps small).writableSize_eq, resized_size]
  rfl

/-- The size `expend` asks for does not overflow. -/
def Fits (b : TcpBuffer) (size : Nat) : Prop :=
  b.prependSize + b.readableSize + size < sizeModulus

/-- `roomy` holds the readable bytes of `b` and has room for `size` more. -/
structure Roomy (b roomy : TcpBuffer) (size : Nat) : Prop where
  valid : roomy.Valid
  readable_eq : roomy.readable = b.readable
  prepend_eq : roomy.prependSize = b.prependSize
  room : size ≤ roomy.writableSize

theorem fits_of_le (valid : b.Valid) {size : Nat} (small : size ≤ maxSize) : b.Fits size := by
  have := valid.prepend_le_read
  have := valid.read_add_readable
  have := valid.write_le_size
  have := valid.size_le_max
  have := maxSize_lt_sizeModulus
  unfold Fits
  omega

/-- The test of `expend`, without the wrap-around of its two sums. -/
theorem expend_test (valid : b.Valid) {size : Nat} (fits : b.Fits size) :
    addSize size b.prependSize < addSize b.writableSize b.prependableSize ↔
      size + b.prependSize < b.writableSize + b.readIndex := by
  have := valid.read_le_write
  have := valid.write_add_writable
  have := valid.size_lt
  unfold Fits at fits
  rw [addSize_of_lt (by omega), prependableSize, addSize_of_lt (by omega)]

/-- `expend` slides when that frees enough room, and slides and grows otherwise. -/
theorem expend_spec (valid : b.Valid) {size : Nat} (fits : b.Fits size) :
    (maxSize < b.prependSize + b.readableSize + size ∧
        b.expend build size = .error .lengthError) ∨
      ∃ roomy, b.expend build size = .ok roomy ∧ Roomy b roomy size := by
  have := valid.prepend_le_read
  have slidValid := slid_valid valid
  have slidRoom := slid_writableSize valid
  have slidWrite := @slid_writeIndex b
  have start : b.expend build size = if size + b.prependSize < b.writableSize + b.readIndex then
      .ok b.slid else b.slid.resize (b.slid.writeIndex + size) >>= fun grown =>
        grown.checkIndexValidity build >>= fun _ => .ok grown := by
    have grownTo : addSize b.slid.writeIndex size = b.slid.writeIndex + size :=
      addSize_of_lt fits
    rw [expend, valid.checkIndexValidity_eq, ok_bind, reusePrependableSpace_eq build valid,
      ok_bind, grownTo]
    simp only [expend_test valid fits, pure_eq_ok]
  rw [start]
  by_cases enough : size + b.prependSize < b.writableSize + b.readIndex
  · rw [if_pos enough]
    exact .inr ⟨b.slid, rfl, slidValid, slid_readable valid, rfl, by omega⟩
  · rw [if_neg enough]
    by_cases small : b.slid.writeIndex + size ≤ maxSize
    · have keeps : b.slid.writeIndex ≤ b.slid.writeIndex + size := Nat.le_add_right _ _
      have grownValid := resized_valid slidValid keeps small
      rw [resize_of_le small, ok_bind, grownValid.checkIndexValidity_eq, ok_bind]
      refine .inr ⟨_, rfl, grownValid, ?_, ?_, ?_⟩
      · rw [resized_readable slidValid keeps, slid_readable valid]
      · rw [resized_prependSize, slid_prependSize]
      · rw [resized_writableSize slidValid keeps small]
        omega
    · refine .inl ⟨by omega, ?_⟩
      rw [resize, if_pos (by omega), throw_eq_error, error_bind]

/-- The room a caller asks for is there afterwards, or the vector refused to grow. -/
theorem ensureAppendable_spec (valid : b.Valid) {size : Nat}
    (fits : b.writableSize < size → b.Fits size) :
    (maxSize < b.prependSize + b.readableSize + size ∧
        b.ensureAppendable build size = .error .lengthError) ∨
      ∃ roomy, b.ensureAppendable build size = .ok roomy ∧ Roomy b roomy size := by
  unfold ensureAppendable
  by_cases short : b.writableSize < size
  · rw [if_pos short]
    rcases expend_spec build valid (fits short) with ⟨large, refused⟩ | ⟨roomy, expended, spec⟩
    · exact .inl ⟨large, by rw [refused, error_bind]⟩
    · refine .inr ⟨roomy, ?_, spec⟩
      simp only [expended, ok_bind, assert_of_holds build spec.room,
        spec.valid.checkIndexValidity_eq, pure_eq_ok]
  · have room : size ≤ b.writableSize := by omega
    refine .inr ⟨b, ?_, valid, rfl, rfl, room⟩
    simp only [if_neg short, pure_eq_ok, ok_bind, assert_of_holds build room,
      valid.checkIndexValidity_eq]

/-- When the size `expend` asks for overflows, the room is missing afterwards: either the test
takes the wrong branch, or the storage is cut below the write index. -/
theorem expend_overflow (valid : b.Valid) {size : Nat} (isSize : size < sizeModulus)
    (overflows : ¬ b.Fits size) :
    ∃ roomy, b.expend build size = .ok roomy ∧
      roomy.buffer.length < roomy.writeIndex + size := by
  have := valid.prepend_le_read
  have := valid.read_add_readable
  have := valid.write_add_writable
  have := valid.size_le_max
  have := maxSize_lt_sizeModulus
  have slidWrite := @slid_writeIndex b
  have freeSum : addSize b.writableSize b.prependableSize = b.writableSize + b.readIndex :=
    addSize_of_lt (by simp only [prependableSize]; omega)
  unfold Fits at overflows
  rw [expend, valid.checkIndexValidity_eq, ok_bind, reusePrependableSpace_eq build valid,
    ok_bind, freeSum]
  by_cases wraps : sizeModulus ≤ size + b.prependSize
  · rw [addSize_of_ge wraps (by omega), if_pos (by omega)]
    refine ⟨b.slid, rfl, ?_⟩
    rw [slid_size valid]
    omega
  · have askedFor : addSize size b.prependSize = size + b.prependSize := addSize_of_lt (by omega)
    have grownTo : addSize b.slid.writeIndex size = b.slid.writeIndex + size - sizeModulus :=
      addSize_of_ge (by omega) (by omega)
    have checked : (b.slid.resized (b.slid.writeIndex + size - sizeModulus)).checkIndexValidity
        build = .ok () :=
      checkIndexValidity_of_le build (slid_valid valid).prepend_le_read
        (slid_valid valid).read_le_write
    rw [askedFor, if_neg (by omega), grownTo, resize_of_le (by omega), ok_bind, checked, ok_bind]
    refine ⟨_, rfl, ?_⟩
    rw [resized_size, resized_writeIndex]
    omega

/-- When the size `expend` asks for overflows, an assertion fires or the room is missing. -/
theorem ensureAppendable_overflow (valid : b.Valid) {size : Nat} (short : b.writableSize < size)
    (isSize : size < sizeModulus) (overflows : ¬ b.Fits size) :
    b.ensureAppendable build size = .error .assertFailed ∨
      ∃ roomy, b.ensureAppendable build size = .ok roomy ∧
        roomy.buffer.length < roomy.writeIndex + size := by
  obtain ⟨roomy, expended, missing⟩ := expend_overflow build valid isSize overflows
  unfold ensureAppendable
  simp only [if_pos short, expended, ok_bind]
  rcases assert_cases build (size ≤ roomy.writableSize) with passed | failed
  · rw [passed, ok_bind, checkIndexValidity]
    rcases assert_cases build (roomy.prependSize ≤ roomy.readIndex) with passed | failed
    · rw [passed, ok_bind]
      rcases assert_cases build (roomy.readIndex ≤ roomy.writeIndex) with passed | failed
      · exact .inr ⟨roomy, by rw [passed, ok_bind, pure_eq_ok], missing⟩
      · exact .inl (by rw [failed, error_bind])
    · exact .inl (by rw [failed, error_bind, error_bind])
  · exact .inl (by rw [failed, error_bind])

/-! ### Writing behind the write index -/

/-- The buffer after bytes have been stored behind the write index. -/
def filled (b : TcpBuffer) (data : List UInt8) : TcpBuffer :=
  { b with buffer := overwrite b.buffer b.writeIndex data }

/-- The buffer after the write index moved over `count` bytes. -/
def written (b : TcpBuffer) (count : Nat) : TcpBuffer :=
  { b with writeIndex := b.writeIndex + count }

theorem filled_size (valid : b.Valid) {data : List UInt8} (room : data.length ≤ b.writableSize) :
    (b.filled data).buffer.length = b.buffer.length := by
  have := valid.write_add_writable
  exact overwrite_length _ _ _ (by omega)

theorem filled_valid (valid : b.Valid) {data : List UInt8} (room : data.length ≤ b.writableSize) :
    (b.filled data).Valid := by
  have size := filled_size valid room
  exact ⟨valid.prepend_le_read, valid.read_le_write, by rw [size]; exact valid.write_le_size,
    by rw [size]; exact valid.size_le_max⟩

theorem filled_writableSize (valid : b.Valid) {data : List UInt8}
    (room : data.length ≤ b.writableSize) : (b.filled data).writableSize = b.writableSize := by
  rw [writableSize, filled_size valid room]
  rfl

theorem filled_readable (valid : b.Valid) (data : List UInt8) :
    (b.filled data).readable = b.readable :=
  stretch_overwrite_before _ _ _ _ _ (le_of_eq valid.read_add_readable) valid.write_le_size

theorem filled_beginWrite (valid : b.Valid) (data : List UInt8) :
    (b.filled data).beginWrite data.length = data :=
  stretch_overwrite_self _ _ _ valid.write_le_size

theorem copyIn_eq_filled (valid : b.Valid) {data : List UInt8}
    (room : data.length ≤ b.writableSize) : b.copyIn b.writeIndex data = .ok (b.filled data) := by
  have := valid.write_add_writable
  rw [copyIn, if_neg (by omega), pure_eq_ok, filled]

theorem written_valid (valid : b.Valid) {count : Nat} (room : count ≤ b.writableSize) :
    (b.written count).Valid := by
  have := valid.read_le_write
  have := valid.write_add_writable
  exact ⟨valid.prepend_le_read, by simp only [written]; omega, by simp only [written]; omega,
    valid.size_le_max⟩

/-- Moving the write index makes the bytes behind it readable. -/
theorem written_readable (valid : b.Valid) {count : Nat} (room : count ≤ b.writableSize) :
    (b.written count).readable = b.readable ++ b.beginWrite count := by
  have size : (b.written count).readableSize = b.readableSize + count := by
    have := valid.read_add_readable
    rw [(written_valid valid room).readableSize_eq]
    simp only [written]
    omega
  rw [readable, size, stretch_add]
  show b.readable ++ stretch b.buffer (b.readIndex + b.readableSize) count = _
  rw [valid.read_add_readable]
  rfl

theorem moveWriteIndex_eq (valid : b.Valid) {count : Nat} (room : count ≤ b.writableSize) :
    b.moveWriteIndex build count = .ok (b.written count) := by
  have fits : b.writeIndex + count < sizeModulus := by
    have := valid.write_add_writable
    have := valid.size_lt
    omega
  rw [moveWriteIndex, assert_of_holds build room, ok_bind, addSize_of_lt fits, pure_eq_ok, written]

theorem hasWritten_eq (valid : b.Valid) {count : Nat} (room : count ≤ b.writableSize) :
    b.hasWritten build count = .ok (b.written count) := by
  have fits : b.writeIndex + count < sizeModulus := by
    have := valid.write_add_writable
    have := valid.size_lt
    omega
  have checked := (written_valid valid room).checkIndexValidity_eq build
  unfold written at checked
  simp only [hasWritten, assert_of_holds build room, ok_bind, addSize_of_lt fits, checked,
    pure_eq_ok, written]

/-- Appending bytes that fit is storing them and moving the write index. -/
theorem appendImp_of_roomy {data : List UInt8} {roomy : TcpBuffer}
    (ensured : b.ensureAppendable build data.length = .ok roomy) (spec : Roomy b roomy data.length) :
    b.appendImp build data = .ok ((roomy.filled data).written data.length) := by
  have room := filled_writableSize spec.valid spec.room
  rw [appendImp, ensured, ok_bind, copyIn_eq_filled spec.valid spec.room, ok_bind,
    moveWriteIndex_eq build (filled_valid spec.valid spec.room) (by rw [room]; exact spec.room)]

/-- `after` holds the readable bytes of `b` followed by `data`. -/
structure Appended (b after : TcpBuffer) (data : List UInt8) : Prop where
  valid : after.Valid
  readable_eq : after.readable = b.readable ++ data
  prepend_eq : after.prependSize = b.prependSize

theorem Appended.readableSize_eq {after : TcpBuffer} {data : List UInt8}
    (appended : Appended b after data) (valid : b.Valid) :
    after.readableSize = b.readableSize + data.length := by
  rw [← appended.valid.readable_length, appended.readable_eq, List.length_append,
    valid.readable_length]

theorem appended_of_roomy {data : List UInt8} {roomy : TcpBuffer}
    (spec : Roomy b roomy data.length) :
    Appended b ((roomy.filled data).written data.length) data := by
  have filledValid := filled_valid spec.valid spec.room
  have room : data.length ≤ (roomy.filled data).writableSize := by
    rw [filled_writableSize spec.valid spec.room]
    exact spec.room
  refine ⟨written_valid filledValid room, ?_, spec.prepend_eq⟩
  rw [written_readable filledValid room, filled_readable spec.valid,
    filled_beginWrite spec.valid, spec.readable_eq]

/-- Appending an array of the program appends its bytes, or the vector refuses to grow. -/
theorem append_spec (valid : b.Valid) {data : List UInt8} (isArray : data.length ≤ maxSize) :
    (maxSize < b.prependSize + b.readableSize + data.length ∧
        b.append build data = .error .lengthError) ∨
      ∃ after, b.append build data = .ok after ∧ Appended b after data := by
  rcases ensureAppendable_spec build valid (fun _ => fits_of_le valid isArray) with
    ⟨large, refused⟩ | ⟨roomy, ensured, spec⟩
  · exact .inl ⟨large, by rw [append, appendImp, refused, error_bind]⟩
  · exact .inr ⟨_, appendImp_of_roomy build ensured spec, appended_of_roomy spec⟩

/-- The storage a caller of `ensure_appendable` gets is one the vector can have. -/
theorem ensureAppendable_size_le (valid : b.Valid) {size : Nat} {roomy : TcpBuffer}
    (ensured : b.ensureAppendable build size = .ok roomy) : roomy.buffer.length ≤ maxSize := by
  obtain ⟨candidate, expended, checked⟩ := bind_eq_ok ensured
  obtain ⟨_, _, checked⟩ := bind_eq_ok checked
  obtain ⟨_, _, same⟩ := bind_eq_ok checked
  obtain rfl : candidate = roomy := Except.ok.inj same
  split at expended
  · rw [expend, valid.checkIndexValidity_eq, ok_bind, reusePrependableSpace_eq build valid]
      at expended
    split at expended
    · obtain rfl : b.slid = candidate := Except.ok.inj expended
      rw [slid_size valid]
      exact valid.size_le_max
    · rw [ok_bind] at expended
      obtain ⟨resizedTo, resizes, checks⟩ := bind_eq_ok expended
      obtain ⟨_, _, sameGrown⟩ := bind_eq_ok checks
      obtain rfl : resizedTo = candidate := Except.ok.inj sameGrown
      by_cases small : addSize b.slid.writeIndex size ≤ maxSize
      · rw [resize_of_le small] at resizes
        obtain rfl := Except.ok.inj resizes
        rw [resized_size]
        exact small
      · rw [resize, if_pos (by omega)] at resizes
        cases resizes
  · obtain rfl : b = candidate := Except.ok.inj expended
    exact valid.size_le_max

/-- An `append` that returned appended the bytes. -/
theorem append_returns (valid : b.Valid) {data : List UInt8} {after : TcpBuffer}
    (returned : b.append build data = .ok after) : Appended b after data := by
  by_cases isArray : data.length ≤ maxSize
  · rcases append_spec build valid isArray with ⟨_, refused⟩ | ⟨same, appended, spec⟩
    · rw [refused] at returned
      cases returned
    · rw [appended] at returned
      obtain rfl := Except.ok.inj returned
      exact spec
  · obtain ⟨roomy, ensured, copied⟩ := bind_eq_ok returned
    obtain ⟨_, stored, _⟩ := bind_eq_ok copied
    have := ensureAppendable_size_le build valid ensured
    rw [copyIn, if_pos (by omega)] at stored
    cases stored

/-! ### Moving the read index -/

/-- The buffer after `size` readable bytes have been given up; giving up all of them moves
both indices back to the prefix. -/
def consumed (b : TcpBuffer) (size : Nat) : TcpBuffer :=
  if size < b.readableSize then { b with readIndex := b.readIndex + size }
  else { b with readIndex := b.prependSize, writeIndex := b.prependSize }

theorem consumed_valid (valid : b.Valid) (size : Nat) : (b.consumed size).Valid := by
  have := valid.prepend_le_read
  have := valid.read_add_readable
  have := valid.write_le_size
  unfold consumed
  split
  · exact ⟨by simp only; omega, by simp only; omega, valid.write_le_size, valid.size_le_max⟩
  · exact ⟨le_refl _, le_refl _, by simp only; omega, valid.size_le_max⟩

theorem consumed_buffer (size : Nat) : (b.consumed size).buffer = b.buffer := by
  unfold consumed
  split <;> rfl

theorem consumed_prependSize (size : Nat) : (b.consumed size).prependSize = b.prependSize := by
  unfold consumed
  split <;> rfl

theorem consumed_readableSize (valid : b.Valid) (size : Nat) :
    (b.consumed size).readableSize = b.readableSize - size := by
  have := valid.read_add_readable
  have measured := (consumed_valid valid size).readableSize_eq
  unfold consumed at measured ⊢
  split at measured
  · rw [if_pos (by assumption), measured]
    simp only
    omega
  · rw [if_neg (by assumption), measured]
    simp only
    omega

theorem consumed_readable (valid : b.Valid) (size : Nat) :
    (b.consumed size).readable = b.readable.drop size := by
  rw [readable, consumed_readableSize valid, consumed_buffer]
  by_cases some : size < b.readableSize
  · have split : b.readableSize = size + (b.readableSize - size) := by omega
    have front : (stretch b.buffer b.readIndex size).length = size := by
      have := valid.read_add_readable
      have := valid.write_le_size
      exact stretch_length _ _ _ (by omega)
    rw [consumed, if_pos some, readable]
    conv_rhs => rw [split, stretch_add]
    rw [List.drop_left' front]
  · rw [Nat.sub_eq_zero_of_le (by omega), stretch_zero, List.drop_eq_nil_of_le]
    rw [valid.readable_length]
    omega

theorem consumed_checks (valid : b.Valid) (size : Nat) :
    (if size < b.readableSize then
      ({ b with readIndex := addSize b.readIndex size } : TcpBuffer).checkIndexValidity build >>=
        fun _ => (.ok { b with readIndex := addSize b.readIndex size } : Except Fault TcpBuffer)
    else b.checkIndexValidity build >>= fun _ =>
      ({ b with readIndex := b.prependSize, writeIndex := b.prependSize } :
        TcpBuffer).checkIndexValidity build >>= fun _ =>
          .ok { b with readIndex := b.prependSize, writeIndex := b.prependSize }) =
      .ok (b.consumed size) := by
  have := valid.read_add_readable
  have := valid.write_le_size
  have := valid.size_lt
  have checked := (consumed_valid valid size).checkIndexValidity_eq build
  unfold consumed at checked ⊢
  split
  · rename_i some
    rw [if_pos some] at checked
    rw [addSize_of_lt (by omega), checked, ok_bind]
  · rename_i all
    rw [if_neg all] at checked
    rw [valid.checkIndexValidity_eq, ok_bind, checked, ok_bind]

/-- Consuming readable bytes drops them. -/
theorem consume_eq (valid : b.Valid) {size : Nat} (inside : size ≤ b.readableSize) :
    b.consume build size = .ok (b.consumed size) := by
  rw [consume, moveReadIndex, assert_of_holds build inside, ok_bind]
  exact consumed_checks build valid size

/-- A release build drops what there is when it is asked to consume more. -/
theorem consume_release (valid : b.Valid) (size : Nat) :
    b.consume .release size = .ok (b.consumed size) := by
  rw [consume, moveReadIndex, assert_release, ok_bind]
  exact consumed_checks .release valid size

/-- A debug build stops when it is asked to consume more than there is. -/
theorem consume_debug_of_gt {size : Nat} (outside : b.readableSize < size) :
    b.consume .debug size = .error .assertFailed := by
  rw [consume, moveReadIndex, assert_debug_of_fails (by omega), error_bind]

/-- A `consume` that returned dropped what it was asked to, or what there was. -/
theorem consume_returns (valid : b.Valid) {size : Nat} {after : TcpBuffer}
    (returned : b.consume build size = .ok after) : after = b.consumed size := by
  cases build with
  | release =>
    rw [consume_release valid] at returned
    exact (Except.ok.inj returned).symm
  | debug =>
    by_cases inside : size ≤ b.readableSize
    · rw [consume_eq .debug valid inside] at returned
      exact (Except.ok.inj returned).symm
    · rw [consume_debug_of_gt (by omega)] at returned
      cases returned

/-! ### Moving the write index back -/

/-- The buffer after the last `count` readable bytes have been taken back. -/
def unwritten (b : TcpBuffer) (count : Nat) : TcpBuffer :=
  { b with writeIndex := b.writeIndex - count }

theorem unwritten_valid (valid : b.Valid) {count : Nat} (inside : count ≤ b.readableSize) :
    (b.unwritten count).Valid := by
  have := valid.read_add_readable
  have := valid.write_le_size
  exact ⟨valid.prepend_le_read, by simp only [unwritten]; omega, by simp only [unwritten]; omega,
    valid.size_le_max⟩

theorem unwritten_readable (valid : b.Valid) {count : Nat} (inside : count ≤ b.readableSize) :
    (b.unwritten count).readable = b.readable.take (b.readable.length - count) := by
  have size : (b.unwritten count).readableSize = b.readableSize - count := by
    have := valid.read_add_readable
    rw [(unwritten_valid valid inside).readableSize_eq]
    simp only [unwritten]
    omega
  rw [readable, size, valid.readable_length, readable, stretch, stretch, List.take_take,
    Nat.min_eq_left (by omega)]
  rfl

theorem unwrite_eq (valid : b.Valid) {count : Nat} (inside : count ≤ b.readableSize) :
    b.unwrite build count = .ok (b.unwritten count) := by
  have moved : subSize b.writeIndex count = b.writeIndex - count := by
    have := valid.read_add_readable
    exact subSize_of_le (by omega)
  have checked := (unwritten_valid valid inside).checkIndexValidity_eq build
  unfold unwritten at checked
  simp only [unwrite, assert_of_holds build inside, ok_bind, moved, checked, pure_eq_ok, unwritten]

end

end TcpBuffer

end YYNet
