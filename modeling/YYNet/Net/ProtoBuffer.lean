/-
This file models the two zero-copy streams that let protobuf read from and write
to a `TcpBuffer`, and proves what the library gets through them.

The output stream hands out the whole writable region and marks it as written
before a byte of it is; what is not used is taken back. Any legal sequence of calls
leaves exactly the bytes that it kept of its regions behind the readable ones,
wherever the storage was moved to in between.

The input stream hands out everything that is readable behind its position as
one region. It knows of no frame: the end of its data is the end of the buffer.
The size of a region is an `int`, so that regions from `2 ^ 31` bytes on have a
negative size, a zero size, or the size modulo `2 ^ 32`.
-/

import YYNet.Net.Codec

namespace YYNet

open Checked Storage

/-! ### Sizes as integers -/

/-- The conversion of an `int` to a size. -/
def sizeOfInt (number : Int) : Nat := (number % sizeModulus).toNat

theorem sizeOfInt_of_nonneg {size : Nat} (small : size < sizeModulus) :
    sizeOfInt size = size := by
  rw [sizeOfInt, Int.emod_eq_of_lt (Int.natCast_nonneg _) (by exact_mod_cast small),
    Int.toNat_natCast]

/-- A size as an `int`: its lowest 32 bits, negative in the upper half. -/
theorem castInt_eq (size : Nat) :
    castInt size = if size % 2 ^ 32 < 2 ^ 31 then ((size % 2 ^ 32 : Nat) : Int)
      else ((size % 2 ^ 32 : Nat) : Int) - 2 ^ 32 := by
  unfold castInt
  rw [Int.bmod_def]
  split <;> split <;> omega

/-! ### Reading -/

/-- `ProtoBufInputStream`. -/
structure ProtoBufInputStream where
  buffer : TcpBuffer
  position : Nat
  totalBytes : Nat

/-- A stretch of the bytes behind the read index: where it starts and how long it is. -/
structure Window where
  start : Nat
  size : Nat
  deriving DecidableEq, Repr

/-- The bytes of a window. -/
def TcpBuffer.bytesAt (b : TcpBuffer) (window : Window) : List UInt8 :=
  stretch b.buffer (b.readIndex + window.start) window.size

/-- How a reader that asks a stream for windows till there are none comes to its end: there are
none, or it was handed one of negative size, or it asks for ever. -/
inductive Reading
  | finished (stream : ProtoBufInputStream)
  | broken
  | endless

namespace ProtoBufInputStream

/-- The constructor. -/
def create (b : TcpBuffer) : ProtoBufInputStream := ⟨b, 0, b.readableSize⟩

/-- `Next`: where the window starts and its size, if there is one. -/
def next (s : ProtoBufInputStream) : Option ((Nat × Int) × ProtoBufInputStream) :=
  if s.totalBytes ≤ s.position then none
  else
    let size := castInt (s.totalBytes - s.position)
    some ((s.position, size), { s with position := addSize s.position (sizeOfInt size) })

/-- `Skip`. -/
def skip (s : ProtoBufInputStream) (count : Int) : Option ProtoBufInputStream :=
  if count < 0 ∨ s.totalBytes < addSize s.position (sizeOfInt count) then none
  else some { s with position := addSize s.position (sizeOfInt count) }

/-- `consume`. -/
def consume (build : Build) (s : ProtoBufInputStream) : Except Fault TcpBuffer :=
  s.buffer.consume build s.position

/-- A reader of the library: it asks for windows till `Next` returns false. It passes over
empty windows, and one of negative size is none it can read. -/
def readAll : Nat → ProtoBufInputStream → List Window × Reading
  | 0, _ => ([], .endless)
  | fuel + 1, s =>
    match s.next with
    | none => ([], .finished s)
    | some ((start, size), later) =>
      if size < 0 then ([], .broken)
      else if size = 0 then readAll fuel later
      else (⟨start, size.toNat⟩ :: (readAll fuel later).1, (readAll fuel later).2)

/-- A window for each byte and one more round are enough for a reader that makes progress. -/
def read (s : ProtoBufInputStream) : List Window × Reading := s.readAll (s.totalBytes + 1)

/-- The stream with everything read. -/
def drained (s : ProtoBufInputStream) : ProtoBufInputStream := { s with position := s.totalBytes }

/-- What is behind the position. -/
def remaining (s : ProtoBufInputStream) : Nat := s.totalBytes - s.position

/-- The one window a reader is handed from a position on. -/
def wholeWindow (s : ProtoBufInputStream) : List Window :=
  if s.remaining % 2 ^ 32 = 0 then [] else [⟨s.position, s.remaining % 2 ^ 32⟩]

theorem next_of_remaining {s : ProtoBufInputStream} (some : 0 < s.remaining) :
    s.next = Option.some ((s.position, castInt s.remaining),
      { s with position := addSize s.position (sizeOfInt (castInt s.remaining)) }) :=
  if_neg (by unfold remaining at some; omega)

theorem next_of_drained {s : ProtoBufInputStream} (none : s.remaining = 0)
    (inside : s.position ≤ s.totalBytes) : s.next = Option.none ∧ s.drained = s := by
  have same : s.totalBytes = s.position := by
    unfold remaining at none
    omega
  exact ⟨if_pos (le_of_eq same), congrArg (ProtoBufInputStream.mk s.buffer · s.totalBytes) same⟩

/-- A stream with no more bytes than an `int` counts is read as one window. -/
theorem readAll_short {s : ProtoBufInputStream} (inside : s.position ≤ s.totalBytes)
    (isSize : s.totalBytes < sizeModulus) (short : s.remaining < 2 ^ 31) (fuel : Nat) :
    s.readAll (fuel + 2) = (s.wholeWindow, .finished s.drained) := by
  have modulo : s.remaining % 2 ^ 32 = s.remaining := Nat.mod_eq_of_lt (by omega)
  unfold wholeWindow
  rw [modulo]
  by_cases none : s.remaining = 0
  · obtain ⟨ended, same⟩ := next_of_drained none inside
    rw [if_pos none, readAll, ended, same]
  · have moved : addSize s.position (sizeOfInt s.remaining) = s.totalBytes := by
      unfold remaining
      rw [sizeOfInt_of_nonneg (by omega), addSize_of_lt (by omega)]
      omega
    have rest : s.drained.readAll (fuel + 1) = ([], .finished s.drained) := by
      have ended : s.drained.next = Option.none := if_pos (le_refl _)
      rw [readAll, ended]
    rw [if_neg none, readAll, next_of_remaining (by omega), castInt_of_lt short]
    simp only
    rw [if_neg (by omega), if_neg (by omega), moved]
    show (_ :: (s.drained.readAll (fuel + 1)).1, (s.drained.readAll (fuel + 1)).2) = _
    rw [rest, Int.toNat_natCast]

/-- A reader that is handed an empty window is handed empty windows for ever. -/
theorem readAll_empty {s : ProtoBufInputStream} (some : 0 < s.remaining)
    (isSize : s.totalBytes < sizeModulus) (whole : s.remaining % 2 ^ 32 = 0) (fuel : Nat) :
    s.readAll fuel = ([], .endless) := by
  have empty : castInt s.remaining = 0 := by
    rw [castInt_eq, whole]
    rfl
  have same : ({ s with position := addSize s.position (sizeOfInt 0) } :
      ProtoBufInputStream) = s := by
    have zero : sizeOfInt 0 = 0 := by
      rw [sizeOfInt, Int.zero_emod]
      rfl
    have stays : addSize s.position 0 = s.position :=
      addSize_of_lt (by unfold remaining at some; omega)
    rw [zero, stays]
  induction fuel with
  | zero => rfl
  | succ fuel inductionHypothesis =>
    rw [readAll, next_of_remaining some, empty]
    simp only [lt_irrefl, if_false, if_true]
    rw [same, inductionHypothesis]

/-- A stream with more bytes than an `int` counts is never read to its end: the reader is handed
a window of negative size, or one of the size modulo `2 ^ 32` and empty ones from there on. -/
theorem readAll_long {s : ProtoBufInputStream} (isSize : s.totalBytes < sizeModulus)
    (long : 2 ^ 31 ≤ s.remaining) (fuel : Nat) :
    s.readAll (fuel + 1) =
      if 2 ^ 31 ≤ s.remaining % 2 ^ 32 then ([], .broken) else (s.wholeWindow, .endless) := by
  have some : 0 < s.remaining := lt_of_lt_of_le (by norm_num) long
  by_cases upper : 2 ^ 31 ≤ s.remaining % 2 ^ 32
  · have negative : castInt s.remaining < 0 := by
      rw [castInt_eq, if_neg (by omega)]
      omega
    rw [if_pos upper, readAll, next_of_remaining some]
    simp only
    rw [if_pos negative]
  · have size : castInt s.remaining = ((s.remaining % 2 ^ 32 : Nat) : Int) := by
      rw [castInt_eq, if_pos (by omega)]
    rw [if_neg upper]
    by_cases whole : s.remaining % 2 ^ 32 = 0
    · rw [wholeWindow, if_pos whole, readAll_empty some isSize whole]
    · have smaller : s.remaining % 2 ^ 32 ≤ s.remaining := Nat.mod_le _ _
      have sum : s.position + s.remaining = s.totalBytes := by
        unfold remaining at some ⊢
        omega
      have moved : addSize s.position (sizeOfInt ((s.remaining % 2 ^ 32 : Nat) : Int)) =
          s.position + s.remaining % 2 ^ 32 := by
        rw [sizeOfInt_of_nonneg (by omega), addSize_of_lt (by omega)]
      rw [wholeWindow, if_neg whole, readAll, next_of_remaining some, size]
      simp only
      rw [if_neg (by omega), if_neg (by omega), moved]
      let later : ProtoBufInputStream := { s with position := s.position + s.remaining % 2 ^ 32 }
      have behind : later.remaining = s.remaining - s.remaining % 2 ^ 32 := by
        show s.totalBytes - (s.position + s.remaining % 2 ^ 32) = _
        omega
      have rest : later.readAll fuel = ([], .endless) :=
        readAll_empty (s := later) (by rw [behind]; omega) isSize (by rw [behind]; omega) fuel
      show (_ :: (later.readAll fuel).1, (later.readAll fuel).2) = _
      rw [rest, Int.toNat_natCast]

/-- A reader comes to the end of a stream if and only if an `int` counts its bytes. -/
theorem read_spec {s : ProtoBufInputStream} (inside : s.position ≤ s.totalBytes)
    (isSize : s.totalBytes < sizeModulus) :
    s.read = if s.remaining < 2 ^ 31 then (s.wholeWindow, .finished s.drained)
      else if 2 ^ 31 ≤ s.remaining % 2 ^ 32 then ([], .broken) else (s.wholeWindow, .endless) := by
  by_cases short : s.remaining < 2 ^ 31
  · rw [if_pos short, read]
    by_cases none : s.totalBytes = 0
    · have noneLeft : s.remaining = 0 := by
        unfold remaining
        omega
      obtain ⟨ended, same⟩ := next_of_drained noneLeft inside
      rw [none, readAll, ended, same, wholeWindow, noneLeft]
      rfl
    · obtain ⟨fuel, enough⟩ : ∃ fuel, s.totalBytes + 1 = fuel + 2 :=
        ⟨s.totalBytes - 1, by omega⟩
      rw [enough, readAll_short inside isSize short]
  · rw [if_neg short, read, readAll_long isSize (by omega)]

end ProtoBufInputStream

/-! ### Writing -/

/-- `ProtoBufOutputStream`. -/
structure ProtoBufOutputStream where
  buffer : TcpBuffer
  byteCount : Int
  deriving DecidableEq, Repr

namespace ProtoBufOutputStream

/-- The constructor. -/
def create (b : TcpBuffer) : ProtoBufOutputStream := ⟨b, 0⟩

/-- `Next`: where the region starts and its size, which is marked as written. -/
def next (build : Build) (s : ProtoBufOutputStream) :
    Except Fault ((Nat × Int) × ProtoBufOutputStream) := do
  let roomy ← (if s.buffer.writableSize < 4096 then s.buffer.ensureWritableBytes build 4096
    else pure s.buffer)
  let size := castInt roomy.writableSize
  let marked ← roomy.hasWritten build (sizeOfInt size)
  return ((roomy.writeIndex, size), ⟨marked, s.byteCount + size⟩)

/-- `BackUp`. -/
def backUp (build : Build) (s : ProtoBufOutputStream) (count : Int) :
    Except Fault ProtoBufOutputStream :=
  if 0 < count then do
    let shorter ← s.buffer.unwrite build (sizeOfInt count)
    return ⟨shorter, s.byteCount - count⟩
  else return s

/-- A legal sequence of calls, and the bytes it leaves. In a region that it was handed a serializer
stores some bytes, and it backs up no more than the region; what it keeps is the region without
what it backed up. -/
inductive Calls (build : Build) : ProtoBufOutputStream → List UInt8 → ProtoBufOutputStream → Prop
  | none (s : ProtoBufOutputStream) : Calls build s [] s
  | region {s marked backed final : ProtoBufOutputStream} {start : Nat} {size count : Int}
      {data more : List UInt8} {stored : TcpBuffer}
      (hands : s.next build = .ok ((start, size), marked))
      (stores : marked.buffer.copyIn start data = .ok stored) (fits : data.length ≤ size)
      (nonneg : 0 ≤ count) (inside : count ≤ size)
      (backs : backUp build { marked with buffer := stored } count = .ok backed)
      (later : Calls build backed more final) :
      Calls build s (stretch stored.buffer start (size - count).toNat ++ more) final

/-- A serializer of the library: it fills the regions it is handed one after the other and backs
up what it does not need of the last one. A region without a byte is none it can fill. -/
def write (build : Build) : Nat → ProtoBufOutputStream → List UInt8 →
    Except Fault ProtoBufOutputStream
  | 0, s, _ => return s
  | fuel + 1, s, bytes => do
    let ((start, size), marked) ← s.next build
    if size ≤ 0 then throw .outOfBounds
    else
      let stored ← marked.buffer.copyIn start (bytes.take size.toNat)
      if bytes.length ≤ size.toNat then
        backUp build { marked with buffer := stored } (size - bytes.length)
      else write build fuel { marked with buffer := stored } (bytes.drop size.toNat)

/-! ### What a serializer leaves -/

/-- A region that has been handed out is the writable region of a buffer with the same readable
bytes. -/
structure Handed (b : TcpBuffer) (start size : Nat) (marked : TcpBuffer) (roomy : TcpBuffer) :
    Prop where
  spec : TcpBuffer.Roomy b roomy size
  start_eq : start = roomy.writeIndex
  marked_eq : marked = roomy.written size

section

variable (build : Build)

theorem next_returns {s marked : ProtoBufOutputStream} (valid : s.buffer.Valid)
    {start : Nat} {size : Int} (returned : s.next build = .ok ((start, size), marked))
    (nonneg : 0 ≤ size) :
    (∃ roomy, Handed s.buffer start size.toNat marked.buffer roomy) ∧
      marked.byteCount = s.byteCount + size := by
  obtain ⟨roomy, ensured, later⟩ := bind_eq_ok returned
  obtain ⟨counted, marks, same⟩ := bind_eq_ok later
  obtain ⟨⟨rfl, rfl⟩, rfl⟩ : (roomy.writeIndex = start ∧ castInt roomy.writableSize = size) ∧
      ⟨counted, s.byteCount + castInt roomy.writableSize⟩ = marked := by
    simpa using same
  have spec : TcpBuffer.Roomy s.buffer roomy 0 := by
    split at ensured
    · have small : 4096 ≤ maxSize := by
        unfold maxSize
        norm_num
      rcases TcpBuffer.ensureAppendable_spec build valid
        (fun _ => TcpBuffer.fits_of_le valid small) with ⟨-, refused⟩ | ⟨other, made, spec⟩
      · rw [TcpBuffer.ensureWritableBytes, refused] at ensured
        cases ensured
      · rw [TcpBuffer.ensureWritableBytes, made] at ensured
        obtain rfl := Except.ok.inj ensured
        exact ⟨spec.valid, spec.readable_eq, spec.prepend_eq, Nat.zero_le _⟩
    · obtain rfl := Except.ok.inj ensured
      exact ⟨valid, rfl, rfl, Nat.zero_le _⟩
  have fits : (castInt roomy.writableSize).toNat ≤ roomy.writableSize := by
    have := Nat.mod_le roomy.writableSize (2 ^ 32)
    rw [castInt_eq]
    split <;> omega
  have isSize : (castInt roomy.writableSize).toNat < sizeModulus := by
    have := spec.valid.write_add_writable
    have := spec.valid.size_lt
    omega
  have converted : sizeOfInt (castInt roomy.writableSize) = (castInt roomy.writableSize).toNat := by
    rw [← sizeOfInt_of_nonneg isSize, Int.toNat_of_nonneg nonneg]
  rw [converted, TcpBuffer.hasWritten_eq build spec.valid fits] at marks
  obtain rfl := Except.ok.inj marks
  exact ⟨⟨roomy, ⟨spec.valid, spec.readable_eq, spec.prepend_eq, fits⟩, rfl, rfl⟩, rfl⟩

variable {b marked roomy stored : TcpBuffer} {start size : Nat} {data : List UInt8}

/-- What has been stored in a region that was handed out. -/
theorem copyIn_handed (handed : Handed b start size marked roomy) (fits : data.length ≤ size)
    (returned : marked.copyIn start data = .ok stored) :
    stored = (roomy.filled data).written size := by
  have room : ¬ (roomy.written size).buffer.length < roomy.writeIndex + data.length := by
    have := handed.spec.valid.write_add_writable
    have := handed.spec.room
    show ¬ roomy.buffer.length < _
    omega
  rw [handed.start_eq, handed.marked_eq, TcpBuffer.copyIn, if_neg room] at returned
  exact (Except.ok.inj returned).symm

theorem filled_room (handed : Handed b start size marked roomy) (fits : data.length ≤ size) :
    (roomy.filled data).Valid ∧ size ≤ (roomy.filled data).writableSize := by
  have room := fits.trans handed.spec.room
  refine ⟨TcpBuffer.filled_valid handed.spec.valid room, ?_⟩
  rw [TcpBuffer.filled_writableSize handed.spec.valid room]
  exact handed.spec.room

/-- Backing up gives back the end of a region. -/
theorem backUp_handed (handed : Handed b start size marked roomy) (fits : data.length ≤ size)
    {count : Nat} (inside : count ≤ size) {bytes : Int} {backed : ProtoBufOutputStream}
    (returned : backUp build ⟨(roomy.filled data).written size, bytes⟩ count = .ok backed) :
    backed = ⟨(roomy.filled data).written (size - count), bytes - count⟩ := by
  obtain ⟨valid, room⟩ := filled_room handed fits
  have marked := TcpBuffer.written_valid valid room
  unfold backUp at returned
  split at returned
  · obtain ⟨shorter, unwrites, same⟩ := bind_eq_ok returned
    obtain rfl := Except.ok.inj same
    have insideReadable : count ≤ ((roomy.filled data).written size).readableSize := by
      have measured := congrArg List.length (TcpBuffer.written_readable valid room)
      rw [marked.readable_length, List.length_append] at measured
      have region : ((roomy.filled data).beginWrite size).length = size := by
        have := valid.write_add_writable
        exact stretch_length _ _ _ (by omega)
      omega
    have isSize : count < sizeModulus := by
      have := valid.write_add_writable
      have := valid.size_lt
      omega
    rw [sizeOfInt_of_nonneg isSize, TcpBuffer.unwrite_eq build marked insideReadable] at unwrites
    obtain rfl := Except.ok.inj unwrites
    have index : (roomy.filled data).writeIndex + size - count =
        (roomy.filled data).writeIndex + (size - count) := by omega
    congr 1
    simp only [TcpBuffer.unwritten, TcpBuffer.written, index]
  · obtain rfl := Except.ok.inj returned
    obtain rfl : count = 0 := by omega
    rw [Nat.sub_zero, Int.natCast_zero, sub_zero]

/-- The part of a region that was kept is behind the readable bytes. -/
theorem appended_of_handed (handed : Handed b start size marked roomy) (fits : data.length ≤ size)
    {kept : Nat} (inside : kept ≤ size) :
    TcpBuffer.Appended b ((roomy.filled data).written kept)
      (stretch (roomy.filled data).buffer start kept) := by
  obtain ⟨valid, room⟩ := filled_room handed fits
  refine ⟨TcpBuffer.written_valid valid (inside.trans room), ?_, handed.spec.prepend_eq⟩
  rw [TcpBuffer.written_readable valid (inside.trans room),
    TcpBuffer.filled_readable handed.spec.valid, handed.spec.readable_eq, handed.start_eq]
  rfl

/-- A legal sequence of calls leaves its bytes behind the readable ones, and the stream counted
them. -/
theorem Calls.spec {build : Build} {s final : ProtoBufOutputStream} {bytes : List UInt8}
    (calls : Calls build s bytes final) (valid : s.buffer.Valid) :
    TcpBuffer.Appended s.buffer final.buffer bytes ∧
      final.byteCount = s.byteCount + bytes.length := by
  induction calls with
  | none s => exact ⟨⟨valid, (List.append_nil _).symm, rfl⟩, by simp⟩
  | @region s marked backed final start size count data more stored hands stores fits nonneg
      inside backs later inductionHypothesis =>
    obtain ⟨⟨roomy, handed⟩, counted⟩ := next_returns build valid hands (by omega)
    have stored_fits : data.length ≤ size.toNat := by omega
    obtain rfl := copyIn_handed handed stored_fits stores
    have toNat : ((count.toNat : Nat) : Int) = count := Int.toNat_of_nonneg nonneg
    rw [← toNat] at backs
    obtain rfl := backUp_handed build handed stored_fits (by omega) backs
    have kept : (size - count).toNat = size.toNat - count.toNat := by omega
    have first := appended_of_handed handed stored_fits (Nat.sub_le size.toNat count.toNat)
    obtain ⟨rest, total⟩ := inductionHypothesis first.valid
    have length : (stretch ((roomy.filled data).written size.toNat).buffer start
        (size - count).toNat).length = size.toNat - count.toNat := by
      obtain ⟨filledValid, room⟩ := filled_room handed stored_fits
      have := filledValid.write_add_writable
      have := handed.start_eq
      have same : (roomy.filled data).writeIndex = roomy.writeIndex := rfl
      rw [kept]
      refine stretch_length _ _ _ ?_
      show _ ≤ (roomy.filled data).buffer.length
      omega
    refine ⟨⟨rest.valid, ?_, rest.prepend_eq.trans first.prepend_eq⟩, ?_⟩
    · rw [rest.readable_eq, first.readable_eq, List.append_assoc, kept]
      rfl
    · rw [total, List.length_append, length]
      simp only [counted]
      omega

/-- The serializer makes a legal sequence of calls that leaves its bytes. -/
theorem write_calls {fuel : Nat} {s final : ProtoBufOutputStream} (valid : s.buffer.Valid)
    {bytes : List UInt8} (enough : bytes.length ≤ fuel)
    (returned : s.write build fuel bytes = .ok final) : Calls build s bytes final := by
  induction fuel generalizing s bytes with
  | zero =>
    obtain rfl : bytes = [] := List.eq_nil_of_length_eq_zero (by omega)
    obtain rfl := Except.ok.inj returned
    exact .none _
  | succ fuel inductionHypothesis =>
    obtain ⟨⟨⟨start, size⟩, marked⟩, hands, later⟩ := bind_eq_ok returned
    simp only at later
    split at later
    · cases later
    · obtain ⟨⟨roomy, handed⟩, -⟩ := next_returns build valid hands (by omega)
      obtain ⟨stored, stores, later⟩ := bind_eq_ok later
      have fits : (bytes.take size.toNat).length ≤ size.toNat := by
        rw [List.length_take]
        exact Nat.min_le_left _ _
      have stored_eq := copyIn_handed handed fits stores
      -- What is kept of the region is what was stored in it.
      have kept : stretch stored.buffer start (bytes.take size.toNat).length =
          bytes.take size.toNat := by
        rw [stored_eq, handed.start_eq]
        exact TcpBuffer.filled_beginWrite handed.spec.valid _
      split at later
      · rename_i last
        rw [List.take_of_length_le last] at kept
        have step := Calls.region hands stores (by omega) (by omega) (by omega) later (.none final)
        have rest : (size - (size - bytes.length)).toNat = bytes.length := by omega
        rw [rest, kept, List.append_nil] at step
        exact step
      · have length : (bytes.take size.toNat).length = size.toNat := by
          rw [List.length_take]
          omega
        have first := appended_of_handed handed fits (le_refl _)
        have backs : backUp build { marked with buffer := stored } 0 =
            .ok { marked with buffer := stored } := if_neg (lt_irrefl _)
        have more := inductionHypothesis (s := { marked with buffer := stored })
          (by rw [stored_eq]; exact first.valid) (by rw [List.length_drop]; omega) later
        have step := Calls.region hands stores (by omega) (le_refl _) (by omega) backs more
        rw [sub_zero, ← length, kept, List.length_take, Nat.min_eq_left (by omega),
          List.take_append_drop] at step
        exact step

end

end ProtoBufOutputStream

end YYNet
