/-
This file models the asynchronous log and proves that it always loses the line
that was appended last.

A line goes into the ring in the reception buffer. The logging thread hands a full
ring over to the background thread and takes an empty one, and the background
thread writes what it was handed. Nobody hands over a ring that is not full, and
the destructor only stops and joins the background thread: the ring in the
reception buffer, which holds the last line, is destroyed with the log. So every
line has been written when the destructor returns, if and only if there was none.
-/

import YYNet.Lib.Transition
import YYNet.Common.LockFreeQueue

namespace YYNet

open Checked Storage Transition

namespace AsyncLog

/-! ### The code -/

/-- A line of the log. -/
abbrev Line := List UInt8

/-- `RingBuffer<std::string>`, which is a `LockFreeCurcularQueue` by another name. -/
abbrev Buffer := LockFreeCurcularQueue Line

/-- `RingBuffer::append`. -/
def Buffer.append (buffer : Buffer) (line : Line) : Option (Buffer × Bool) := buffer.enqueue line

/-- `RingBuffer::retrieve`. -/
def Buffer.retrieve (buffer : Buffer) : Option (Buffer × Option Line) := buffer.dequeue

/-- Where the logging thread stands in `append`. -/
inductive Logger
  | idle
  | testing (line : Line)
  | locking (line : Line)
  | pushing (line : Line)
  | unlocking (line : Line)
  | replacing (line : Line)
  | moving (line : Line)
  | making (line : Line)
  | storing (line : Line)
  | falling (line : Line)
  deriving DecidableEq, Repr

/-- Where the background thread stands in `loop`. -/
inductive Background
  | starting
  | checking
  | locking
  | swapping
  | unlocking
  | testingSpare
  | makingSpare
  | testingReception
  | makingReception
  | draining
  | gathering
  | writing (temp : List Line)
  | ended
  deriving DecidableEq, Repr

/-- Where the destructor stands. -/
inductive Destructor
  | notBegun
  | joining
  | returned
  deriving DecidableEq, Repr

/-- What is passed to the appender: the line of the constructor, a line of the program, the line
of the destructor. -/
inductive Output
  | opening
  | line (line : Line)
  | closing
  deriving DecidableEq, Repr

end AsyncLog

open AsyncLog

/-- The log with its two threads, and all lines that were given to it. -/
structure AsyncLog where
  receptionBuffer : Option Buffer
  spareBuffer : Option Buffer
  backstageBuffers : List (Option Buffer)
  writeBuffer : List (Option Buffer)
  secondaryBuffer : List Line
  isRunning : Bool
  locked : Bool
  logger : Logger
  background : Background
  destructor : Destructor
  output : List Output
  appended : List Line
  deriving DecidableEq, Repr

namespace AsyncLog

/-- One step of `append`. A step that does not return has no successor: there is no buffer, the
buffer has no slot, or the lock is taken. -/
def appendStep (fresh : Buffer) (s : AsyncLog) : Option AsyncLog :=
  match s.logger with
  | .idle => none
  | .testing line =>
    s.receptionBuffer.map fun buffer =>
      { s with logger := if buffer.full then .locking line else .storing line }
  | .locking line =>
    if s.locked then none else some { s with locked := true, logger := .pushing line }
  | .pushing line => some { s with
      backstageBuffers := s.backstageBuffers ++ [s.receptionBuffer]
      receptionBuffer := none
      logger := .unlocking line }
  | .unlocking line => some { s with locked := false, logger := .replacing line }
  | .replacing line =>
    some { s with logger := if s.spareBuffer.isSome then .moving line else .making line }
  | .moving line => some { s with
      receptionBuffer := s.spareBuffer
      spareBuffer := none
      logger := .storing line }
  | .making line => some { s with receptionBuffer := some fresh, logger := .storing line }
  | .storing line =>
    match s.receptionBuffer with
    | none => none
    | some buffer =>
      (buffer.append line).map fun outcome =>
        { s with
          receptionBuffer := some outcome.1
          logger := if outcome.2 then .idle else .falling line }
  | .falling line =>
    some { s with secondaryBuffer := s.secondaryBuffer ++ [line], logger := .idle }

/-- One step of `loop`. The buffers in front of the one that is being emptied are left out of
`WriteBuffer`, which is cleared when all are empty. -/
def loopStep (fresh : Buffer) (s : AsyncLog) : Option AsyncLog :=
  match s.background with
  | .starting => some { s with isRunning := true, background := .checking }
  | .checking => some { s with background := if s.isRunning then .locking else .ended }
  | .locking =>
    if s.locked then none else some { s with locked := true, background := .swapping }
  | .swapping =>
    if s.backstageBuffers.isEmpty then some { s with background := .unlocking }
    else some { s with
      backstageBuffers := s.writeBuffer
      writeBuffer := s.backstageBuffers
      background := .unlocking }
  | .unlocking => some { s with locked := false, background := .testingSpare }
  | .testingSpare =>
    some { s with background := if s.spareBuffer.isNone then .makingSpare else .testingReception }
  | .makingSpare => some { s with spareBuffer := some fresh, background := .testingReception }
  | .testingReception =>
    some { s with background := if s.receptionBuffer.isNone then .makingReception else .draining }
  | .makingReception => some { s with receptionBuffer := some fresh, background := .draining }
  | .draining =>
    match s.writeBuffer with
    | [] => some { s with background := .gathering }
    | none :: rest => some { s with writeBuffer := rest }
    | some buffer :: rest =>
      match buffer.retrieve with
      | none => none
      | some (after, some line) => some { s with
          writeBuffer := some after :: rest
          output := s.output ++ [.line line] }
      | some (_, none) => some { s with writeBuffer := rest }
  | .gathering =>
    some { s with background := .writing s.secondaryBuffer, secondaryBuffer := [] }
  | .writing [] => some { s with background := .checking }
  | .writing (line :: rest) =>
    some { s with background := .writing rest, output := s.output ++ [.line line] }
  | .ended => none

/-- What can happen next. -/
inductive Act
  | append (line : Line)
  | logger
  | background
  | destroy
  | join
  deriving DecidableEq, Repr

/-- The logging thread makes a call or goes on in it, the background thread goes on, and when no
call is running the destructor begins: it clears the flag and joins. -/
def step (build : Build) (fresh : Buffer) (s : AsyncLog) : Act → Option AsyncLog
  | .append line =>
    if s.logger = .idle ∧ s.destructor = .notBegun ∧ assert build (line ≠ []) = .ok () then
      some { s with logger := .testing line, appended := s.appended ++ [line] }
    else none
  | .logger => s.appendStep fresh
  | .background => s.loopStep fresh
  | .destroy =>
    if s.logger = .idle ∧ s.destructor = .notBegun then
      some { s with isRunning := false, destructor := .joining }
    else none
  | .join =>
    if s.destructor = .joining ∧ s.background = .ended then
      some { s with destructor := .returned, output := s.output ++ [.closing] }
    else none

/-- Behind the constructor. -/
def start (fresh : Buffer) : AsyncLog where
  receptionBuffer := some fresh
  spareBuffer := some fresh
  backstageBuffers := []
  writeBuffer := []
  secondaryBuffer := []
  isRunning := false
  locked := false
  logger := .idle
  background := .starting
  destructor := .notBegun
  output := [.opening]
  appended := []

/-- The lines of the program among what was passed to the appender. -/
def lines (output : List Output) : List Line :=
  output.filterMap fun
    | .line line => some line
    | _ => none

/-! ### Rings that are filled once -/

/-- A ring without a slot, or one that is filled at most once: the counters stay below the number
of slots. -/
def Sound (buffer : Buffer) : Prop :=
  (buffer.buffer = [] ∧ buffer.enqueuePos = 0 ∧ buffer.dequeuePos = 0) ∨
    ∃ exponent items, 1 ≤ exponent ∧ exponent ≤ 62 ∧ buffer.Holds exponent items ∧
      buffer.enqueuePos ≤ 2 ^ exponent

/-- A ring that nothing has been taken from. -/
def Filling (buffer : Buffer) : Prop := Sound buffer ∧ buffer.dequeuePos = 0

/-- How many lines a buffer holds. -/
def held : Option Buffer → Nat
  | none => 0
  | some buffer => buffer.getRemainCapacity

theorem held_of_holds {buffer : Buffer} {exponent : Nat} {items : List Line}
    (holds : buffer.Holds exponent items) : held (some buffer) = items.length := by
  have tail := holds.tail
  rw [held, LockFreeCurcularQueue.getRemainCapacity, subSize_of_le (by omega)]
  omega

/-- A line that is taken is held no more. -/
theorem Sound.retrieve {buffer after : Buffer} {line : Line} (sound : Sound buffer)
    (taken : buffer.retrieve = some (after, some line)) :
    Sound after ∧ held (some after) + 1 = held (some buffer) := by
  have taken : buffer.dequeue = some (after, some line) := taken
  rcases sound with ⟨none, -⟩ | ⟨exponent, items, several, small, holds, bounded⟩
  · rw [LockFreeCurcularQueue.dequeue, LockFreeCurcularQueue.slot, none] at taken
    cases taken
  · have most : 2 ^ exponent ≤ 2 ^ 62 := Nat.pow_le_pow_right Nat.two_pos small
    have tail := holds.tail
    cases items with
    | nil =>
      rw [holds.dequeue_empty (by omega)] at taken
      cases taken
    | cons item rest =>
      obtain ⟨released, isTaken, releasedHolds, head⟩ := holds.dequeue_cons small (by omega)
      rw [isTaken] at taken
      obtain rfl : released = after := congrArg Prod.fst (Option.some.inj taken)
      rw [held_of_holds holds, held_of_holds releasedHolds, List.length_cons]
      have releasedTail := releasedHolds.tail
      rw [List.length_cons] at tail
      exact ⟨.inr ⟨exponent, rest, several, small, releasedHolds, by omega⟩, rfl⟩

/-- A line that is accepted is held. -/
theorem Filling.append {buffer after : Buffer} {line : Line} (filling : Filling buffer)
    (accepted : buffer.append line = some (after, true)) :
    Filling after ∧ held (some after) = held (some buffer) + 1 := by
  have accepted : buffer.enqueue line = some (after, true) := accepted
  obtain ⟨none | ⟨exponent, items, several, small, holds, bounded⟩, head⟩ := filling
  · rw [LockFreeCurcularQueue.enqueue_none none.1] at accepted
    cases accepted
  · have most : 2 ^ exponent ≤ 2 ^ 62 := Nat.pow_le_pow_right Nat.two_pos small
    have tail := holds.tail
    have room : items.length < 2 ^ exponent := by
      refine lt_of_le_of_ne holds.bounded fun isFull => ?_
      rw [holds.enqueue_full several (by omega) isFull] at accepted
      cases accepted
    obtain ⟨stored, isStored, storedHolds, sameHead⟩ := holds.enqueue_room (by omega) room line
    rw [isStored] at accepted
    obtain rfl : stored = after := congrArg Prod.fst (Option.some.inj accepted)
    have storedTail := storedHolds.tail
    rw [List.length_append, List.length_singleton] at storedTail
    rw [held_of_holds holds, held_of_holds storedHolds, List.length_append, List.length_singleton]
    exact ⟨⟨.inr ⟨exponent, _, several, small, storedHolds, by omega⟩, by omega⟩, rfl⟩

/-- A ring that is not full refuses nothing. -/
theorem Filling.accepts {buffer : Buffer} (filling : Filling buffer) (room : buffer.full = false)
    (line : Line) (after : Buffer) : buffer.append line ≠ some (after, false) := by
  intro refused
  have refused : buffer.enqueue line = some (after, false) := refused
  obtain ⟨none | ⟨exponent, items, several, small, holds, bounded⟩, head⟩ := filling
  · rw [LockFreeCurcularQueue.enqueue_none none.1] at refused
    cases refused
  · have most : 2 ^ exponent ≤ 2 ^ 62 := Nat.pow_le_pow_right Nat.two_pos small
    have tail := holds.tail
    have inside : items.length < 2 ^ exponent := by
      rw [LockFreeCurcularQueue.full, subSize_of_le (by omega), holds.size,
        decide_eq_false_iff_not] at room
      omega
    obtain ⟨stored, isStored, -⟩ := holds.enqueue_room (by omega) inside line
    rw [isStored] at refused
    cases refused

/-- What the constructor of a ring builds. -/
structure Fresh (fresh : Buffer) : Prop where
  filling : Filling fresh
  empty : held (some fresh) = 0
  accepts : ∀ line after, fresh.append line ≠ some (after, false)

theorem fresh_of_create {build : Build} {bufferSize : Nat} (least : 2 ≤ bufferSize)
    (isSize : bufferSize < 2 ^ 64) {fresh : Buffer}
    (created : LockFreeCurcularQueue.create build 40 bufferSize = .ok fresh) : Fresh fresh := by
  by_cases most : bufferSize ≤ 2 ^ 63
  · obtain ⟨holds, head, small⟩ :=
      LockFreeCurcularQueue.create_holds build 40 (by omega) most created
    have several : 0 < (bufferSize - 1).size := Nat.lt_size.mpr (by omega)
    have tail := holds.tail
    rw [head] at tail
    have filling : Filling fresh :=
      ⟨.inr ⟨_, [], several, small, holds, by rw [tail]; exact Nat.zero_le _⟩, head⟩
    refine ⟨filling, held_of_holds holds, filling.accepts ?_⟩
    rw [LockFreeCurcularQueue.full, tail, head, holds.size, decide_eq_false_iff_not]
    exact not_le.mpr (Nat.two_pow_pos _)
  · have rounded := LockFreeCurcularQueue.roundUpToPowerOf2_eq build
      (show 0 < bufferSize by omega) isSize
    rw [if_neg most] at rounded
    obtain ⟨-, rfl⟩ := LockFreeCurcularQueue.create_eq rounded created
    refine ⟨⟨.inl ⟨rfl, rfl, rfl⟩, rfl⟩, rfl, fun line after refused => ?_⟩
    have none := LockFreeCurcularQueue.enqueue_none
      (q := (⟨0, 0, (List.range 0).map fun index => ⟨index, default⟩, subSize 0 1⟩ : Buffer))
      rfl line
    cases none.symm.trans refused

/-! ### No line is written more than once, and the last one never -/

/-- The lines that buffers hold. -/
def heldBy (buffers : List (Option Buffer)) : Nat := (buffers.map held).sum

/-- The lines the background thread has taken out of the secondary buffer. -/
def Background.temp : Background → List Line
  | .writing temp => temp
  | _ => []

/-- The lines that have left the logging thread: written, or on their way. -/
def past (s : AsyncLog) : Nat :=
  (lines s.output).length + heldBy s.writeBuffer + heldBy s.backstageBuffers +
    s.secondaryBuffer.length + s.background.temp.length

/-- The line the logging thread has not stored yet. -/
def Logger.pending : Logger → Nat
  | .idle => 0
  | _ => 1

/-- Every line is counted once at most, and the last one is not among those that have left the
logging thread. -/
structure Accounted (fresh : Buffer) (s : AsyncLog) : Prop where
  reception : ∀ buffer, s.receptionBuffer = some buffer → Filling buffer
  spare : ∀ buffer, s.spareBuffer = some buffer → buffer = fresh
  stored : ∀ buffer, some buffer ∈ s.backstageBuffers ∨ some buffer ∈ s.writeBuffer → Sound buffer
  room : ∀ line, s.logger = .storing line → ∀ buffer, s.receptionBuffer = some buffer →
    ∀ after, buffer.append line ≠ some (after, false)
  accepted : ∀ line, s.logger ≠ .falling line
  once : s.past + held s.receptionBuffer + s.logger.pending ≤ s.appended.length
  last : s.appended ≠ [] → s.past + 1 ≤ s.appended.length

theorem lines_snoc (output : List Output) (line : Line) :
    (lines (output ++ [.line line])).length = (lines output).length + 1 := by
  rw [lines, List.filterMap_append, List.length_append]
  rfl

variable {fresh : Buffer} {s after : AsyncLog}

/-- One step of `append`. -/
theorem Accounted.appendStep (isFresh : Fresh fresh) (accounted : Accounted fresh s)
    (steps : s.appendStep fresh = some after) : Accounted fresh after := by
  obtain ⟨reception, spare, stored, room, accepted, once, last⟩ := accounted
  unfold AsyncLog.appendStep at steps
  cases logger : s.logger with
  | idle =>
    rw [logger] at steps
    cases steps
  | testing line =>
    rw [logger] at steps once
    obtain ⟨buffer, isBuffer, rfl⟩ := Option.map_eq_some_iff.mp steps
    cases isFull : buffer.full with
    | true =>
      simp only [if_true]
      exact ⟨reception, spare, stored, by rintro _ ⟨⟩, by rintro _ ⟨⟩, once, last⟩
    | false =>
      simp only [Bool.false_eq_true, if_false]
      refine ⟨reception, spare, stored, ?_, by rintro _ ⟨⟩, once, last⟩
      rintro _ ⟨⟩ other isOther
      obtain rfl := Option.some.inj (isBuffer.symm.trans isOther)
      exact (reception buffer isBuffer).accepts isFull line
  | locking line =>
    rw [logger] at steps once
    simp only at steps
    split at steps
    · cases steps
    · obtain rfl := Option.some.inj steps
      exact ⟨reception, spare, stored, by rintro _ ⟨⟩, by rintro _ ⟨⟩, once, last⟩
  | pushing line =>
    rw [logger] at steps once
    obtain rfl := Option.some.inj steps
    have total : heldBy (s.backstageBuffers ++ [s.receptionBuffer]) =
        heldBy s.backstageBuffers + held s.receptionBuffer := by simp [heldBy]
    have once' : past { s with
        backstageBuffers := s.backstageBuffers ++ [s.receptionBuffer]
        receptionBuffer := none
        logger := .unlocking line } + 0 + 1 ≤ s.appended.length := by
      have pending : (Logger.pushing line).pending = 1 := rfl
      unfold past at once ⊢
      simp only [total]
      omega
    refine ⟨by rintro _ ⟨⟩, spare, ?_, by rintro _ ⟨⟩, by rintro _ ⟨⟩, once', fun _ => once'⟩
    rintro buffer (backstage | write)
    · rcases List.mem_append.mp backstage with old | new
      · exact stored buffer (.inl old)
      · exact (reception buffer (List.mem_singleton.mp new).symm).1
    · exact stored buffer (.inr write)
  | unlocking line =>
    rw [logger] at steps once
    obtain rfl := Option.some.inj steps
    exact ⟨reception, spare, stored, by rintro _ ⟨⟩, by rintro _ ⟨⟩, once, last⟩
  | replacing line =>
    rw [logger] at steps once
    obtain rfl := Option.some.inj steps
    cases s.spareBuffer.isSome with
    | true => exact ⟨reception, spare, stored, by rintro _ ⟨⟩, by rintro _ ⟨⟩, once, last⟩
    | false => exact ⟨reception, spare, stored, by rintro _ ⟨⟩, by rintro _ ⟨⟩, once, last⟩
  | moving line =>
    rw [logger] at steps once
    obtain rfl := Option.some.inj steps
    have empty : held s.spareBuffer = 0 := by
      cases isSpare : s.spareBuffer with
      | none => rfl
      | some buffer =>
        rw [spare buffer isSpare]
        exact isFresh.empty
    have once' : s.past + held s.spareBuffer + 1 ≤ s.appended.length := by
      have pending : (Logger.moving line).pending = 1 := rfl
      omega
    refine ⟨?_, by rintro _ ⟨⟩, stored, ?_, by rintro _ ⟨⟩, once', last⟩
    · intro buffer isSpare
      rw [spare buffer isSpare]
      exact isFresh.filling
    · rintro _ ⟨⟩ buffer isSpare
      rw [spare buffer isSpare]
      exact isFresh.accepts line
  | making line =>
    rw [logger] at steps once
    obtain rfl := Option.some.inj steps
    have once' : s.past + held (some fresh) + 1 ≤ s.appended.length := by
      have pending : (Logger.making line).pending = 1 := rfl
      have empty := isFresh.empty
      omega
    refine ⟨?_, spare, stored, ?_, by rintro _ ⟨⟩, once', last⟩
    · rintro _ ⟨⟩
      exact isFresh.filling
    · rintro _ ⟨⟩ _ ⟨⟩
      exact isFresh.accepts line
  | storing line =>
    rw [logger] at steps once
    cases isReception : s.receptionBuffer with
    | none =>
      rw [isReception] at steps
      cases steps
    | some buffer =>
      rw [isReception] at steps once
      obtain ⟨⟨ring, isAccepted⟩, appends, rfl⟩ := Option.map_eq_some_iff.mp steps
      cases isAccepted with
      | false => exact absurd appends (room line logger buffer isReception ring)
      | true =>
        obtain ⟨filling, more⟩ := (reception buffer isReception).append appends
        have once' : s.past + held (some ring) + 0 ≤ s.appended.length := by
          have pending : (Logger.storing line).pending = 1 := rfl
          omega
        refine ⟨?_, spare, stored, by rintro _ ⟨⟩, by rintro _ ⟨⟩, once', ?_⟩
        · rintro _ ⟨⟩
          exact filling
        · intro _
          show s.past + 1 ≤ s.appended.length
          omega
  | falling line => exact absurd logger (accepted line)

/-- The background thread hands no line back: it leaves the reception buffer alone or puts an empty
ring there, and what has left the logging thread is no more than before. -/
theorem Accounted.elsewhere (isFresh : Fresh fresh) (accounted : Accounted fresh s)
    (sameLogger : after.logger = s.logger) (sameAppended : after.appended = s.appended)
    (reception : after.receptionBuffer = s.receptionBuffer ∨ after.receptionBuffer = some fresh)
    (spare : after.spareBuffer = s.spareBuffer ∨ after.spareBuffer = some fresh)
    (stored : ∀ buffer, some buffer ∈ after.backstageBuffers ∨ some buffer ∈ after.writeBuffer →
      Sound buffer)
    (noMore : after.past ≤ s.past) : Accounted fresh after := by
  have once := accounted.once
  have last := accounted.last
  refine ⟨?_, ?_, stored, ?_, ?_, ?_, ?_⟩
  · intro buffer isBuffer
    rcases reception with same | made
    · exact accounted.reception buffer (same.symm.trans isBuffer)
    · rw [← Option.some.inj (made.symm.trans isBuffer)]
      exact isFresh.filling
  · intro buffer isBuffer
    rcases spare with same | made
    · exact accounted.spare buffer (same.symm.trans isBuffer)
    · exact (Option.some.inj (made.symm.trans isBuffer)).symm
  · intro line storing buffer isBuffer
    rcases reception with same | made
    · exact accounted.room line (sameLogger ▸ storing) buffer (same.symm.trans isBuffer)
    · rw [← Option.some.inj (made.symm.trans isBuffer)]
      exact isFresh.accepts line
  · intro line
    rw [sameLogger]
    exact accounted.accepted line
  · rw [sameLogger, sameAppended]
    rcases reception with same | made
    · rw [same]
      omega
    · rw [made, isFresh.empty]
      omega
  · rw [sameAppended]
    intro some
    have := last some
    omega

/-- One step of `loop`. -/
theorem Accounted.loopStep (isFresh : Fresh fresh) (accounted : Accounted fresh s)
    (steps : s.loopStep fresh = some after) : Accounted fresh after := by
  have stored := accounted.stored
  unfold AsyncLog.loopStep at steps
  cases background : s.background with
  | starting | unlocking =>
    rw [background] at steps
    obtain rfl := Option.some.inj steps
    refine accounted.elsewhere isFresh rfl rfl (.inl rfl) (.inl rfl) stored ?_
    simp [past, background, Background.temp]
  | checking | testingSpare | testingReception =>
    rw [background] at steps
    obtain rfl := Option.some.inj steps
    refine accounted.elsewhere isFresh rfl rfl (.inl rfl) (.inl rfl) stored ?_
    simp only [past, background]
    split <;> simp [Background.temp]
  | locking =>
    rw [background] at steps
    simp only at steps
    split at steps
    · cases steps
    · obtain rfl := Option.some.inj steps
      refine accounted.elsewhere isFresh rfl rfl (.inl rfl) (.inl rfl) stored ?_
      simp [past, background, Background.temp]
  | swapping =>
    rw [background] at steps
    simp only at steps
    split at steps
    · obtain rfl := Option.some.inj steps
      refine accounted.elsewhere isFresh rfl rfl (.inl rfl) (.inl rfl) stored ?_
      simp [past, background, Background.temp]
    · obtain rfl := Option.some.inj steps
      refine accounted.elsewhere isFresh rfl rfl (.inl rfl) (.inl rfl)
        (fun buffer member => stored buffer member.symm) ?_
      simp only [past, background, Background.temp]
      omega
  | makingSpare =>
    rw [background] at steps
    obtain rfl := Option.some.inj steps
    refine accounted.elsewhere isFresh rfl rfl (.inl rfl) (.inr rfl) stored ?_
    simp [past, background, Background.temp]
  | makingReception =>
    rw [background] at steps
    obtain rfl := Option.some.inj steps
    refine accounted.elsewhere isFresh rfl rfl (.inr rfl) (.inl rfl) stored ?_
    simp [past, background, Background.temp]
  | draining =>
    rw [background] at steps
    simp only at steps
    split at steps
    · obtain rfl := Option.some.inj steps
      refine accounted.elsewhere isFresh rfl rfl (.inl rfl) (.inl rfl) stored ?_
      simp [past, background, Background.temp]
    · rename_i rest shape
      obtain rfl := Option.some.inj steps
      refine accounted.elsewhere isFresh rfl rfl (.inl rfl) (.inl rfl) ?_ ?_
      · rintro buffer (member | member)
        · exact stored buffer (.inl member)
        · exact stored buffer (.inr (by rw [shape]; exact List.mem_cons_of_mem _ member))
      · simp only [past, shape, background, heldBy, List.map_cons, List.sum_cons]
        omega
    · rename_i buffer rest shape
      have sound : Sound buffer := stored buffer (.inr (by rw [shape]; exact List.mem_cons_self))
      have others : ∀ other, some other ∈ rest → Sound other := fun other member =>
        stored other (.inr (by rw [shape]; exact List.mem_cons_of_mem _ member))
      split at steps
      · cases steps
      · rename_i ring line taken
        obtain ⟨ringSound, less⟩ := sound.retrieve taken
        obtain rfl := Option.some.inj steps
        refine accounted.elsewhere isFresh rfl rfl (.inl rfl) (.inl rfl) ?_ ?_
        · rintro other (member | member)
          · exact stored other (.inl member)
          · rcases List.mem_cons.mp member with same | member
            · rw [Option.some.inj same]
              exact ringSound
            · exact others other member
        · simp only [past, shape, background, heldBy, List.map_cons, List.sum_cons, lines_snoc]
          omega
      · obtain rfl := Option.some.inj steps
        refine accounted.elsewhere isFresh rfl rfl (.inl rfl) (.inl rfl) ?_ ?_
        · rintro other (member | member)
          · exact stored other (.inl member)
          · exact others other member
        · simp only [past, shape, background, heldBy, List.map_cons, List.sum_cons]
          omega
  | gathering =>
    rw [background] at steps
    obtain rfl := Option.some.inj steps
    refine accounted.elsewhere isFresh rfl rfl (.inl rfl) (.inl rfl) stored ?_
    simp only [past, background, Background.temp, List.length_nil]
    omega
  | writing temp =>
    rw [background] at steps
    cases temp with
    | nil =>
      obtain rfl := Option.some.inj steps
      refine accounted.elsewhere isFresh rfl rfl (.inl rfl) (.inl rfl) stored ?_
      simp [past, background, Background.temp]
    | cons line rest =>
      obtain rfl := Option.some.inj steps
      refine accounted.elsewhere isFresh rfl rfl (.inl rfl) (.inl rfl) stored ?_
      simp only [past, background, Background.temp, lines_snoc, List.length_cons]
      omega
  | ended =>
    rw [background] at steps
    cases steps

/-- Every step keeps the account. -/
theorem Accounted.step {build : Build} (isFresh : Fresh fresh) (accounted : Accounted fresh s)
    {act : Act} (steps : s.step build fresh act = some after) : Accounted fresh after := by
  cases act with
  | append line =>
    simp only [AsyncLog.step] at steps
    split at steps
    · rename_i guard
      obtain rfl := Option.some.inj steps
      have once := accounted.once
      rw [guard.1] at once
      have once' : s.past + held s.receptionBuffer + 1 ≤ (s.appended ++ [line]).length := by
        have pending : Logger.idle.pending = 0 := rfl
        rw [List.length_append, List.length_singleton]
        omega
      refine ⟨accounted.reception, accounted.spare, accounted.stored, by rintro _ ⟨⟩,
        by rintro _ ⟨⟩, once', fun _ => ?_⟩
      show s.past + 1 ≤ (s.appended ++ [line]).length
      omega
    · cases steps
  | logger => exact accounted.appendStep isFresh steps
  | background => exact accounted.loopStep isFresh steps
  | destroy =>
    simp only [AsyncLog.step] at steps
    split at steps
    · obtain rfl := Option.some.inj steps
      exact accounted.elsewhere isFresh rfl rfl (.inl rfl) (.inl rfl) accounted.stored le_rfl
    · cases steps
  | join =>
    simp only [AsyncLog.step] at steps
    split at steps
    · obtain rfl := Option.some.inj steps
      refine accounted.elsewhere isFresh rfl rfl (.inl rfl) (.inl rfl) accounted.stored ?_
      simp [past, lines]
    · cases steps

theorem accounted_start (isFresh : Fresh fresh) : Accounted fresh (start fresh) := by
  refine ⟨?_, ?_, ?_, by rintro _ ⟨⟩, by rintro _ ⟨⟩, ?_, fun some => absurd rfl some⟩
  · rintro _ ⟨⟩
    exact isFresh.filling
  · rintro _ ⟨⟩
    rfl
  · rintro buffer (member | member)
    · cases member
    · cases member
  · show 0 + held (some fresh) + 0 ≤ 0
    rw [isFresh.empty]

/-! ### The main theorem -/

/-- For every size of the buffers that is at least two and admitted, every sequence of calls of
`append` and every order of the steps of the two threads: in every state, and so also when the
destructor has returned, every line has been passed to the appender exactly once if and only if
there was no line. -/
theorem written_iff_none (build : Build) (bufferSize : Nat) (least : 2 ≤ bufferSize)
    (isSize : bufferSize < 2 ^ 64) (fresh : Buffer)
    (created : LockFreeCurcularQueue.create build 40 bufferSize = .ok fresh) (acts : List Act)
    (s : AsyncLog) (isRun : Run (StepOf (step build fresh)) (start fresh) acts s) :
    (lines s.output).Perm s.appended ↔ s.appended = [] := by
  have isFresh := fresh_of_create least isSize created
  have accounted : Accounted fresh s := isRun.invariant_of_step (accounted_start isFresh)
    fun state action next accounted steps => accounted.step isFresh steps
  have written : (lines s.output).length ≤ s.past := by
    unfold past
    omega
  constructor
  · intro all
    by_contra some
    have := all.length_eq
    have := accounted.last some
    omega
  · intro none
    have once := accounted.once
    rw [none] at once ⊢
    rw [List.length_nil] at once
    rw [List.length_eq_zero_iff.mp (show (lines s.output).length = 0 by omega)]

/-- A ring of two slots. -/
def twoSlots : Buffer := ⟨0, 0, [⟨0, []⟩, ⟨1, []⟩], 1⟩

/-- Three lines: the first two fill a ring and are written, the last one stays behind. -/
def threeLines : List Act :=
  List.flatten [
    [.background],
    .append [97] :: List.replicate 2 .logger,
    .append [98] :: List.replicate 2 .logger,
    .append [99] :: List.replicate 7 .logger,
    List.replicate 13 .background,
    [.destroy, .background, .join]]

/-- Without a line the destructor returns and has lost nothing. -/
theorem written_iff_none_empty : ∃ s,
    exec (step .debug twoSlots) (start twoSlots)
      [.background, .destroy, .background, .join] = some s ∧
        s.destructor = .returned ∧ (lines s.output).Perm s.appended := by
  have done : ((exec (step .debug twoSlots) (start twoSlots)
      [.background, .destroy, .background, .join]).map fun s => (s.destructor, s.appended)) =
        some (.returned, []) := by decide
  obtain ⟨s, executed, same⟩ := Option.map_eq_some_iff.mp done
  refine ⟨s, executed, congrArg Prod.fst same, ?_⟩
  exact (written_iff_none .debug 2 (by decide) (by decide) twoSlots (by decide +kernel) _ s
    (run_of_exec executed)).mpr (congrArg Prod.snd same)

/-- The destructor returns, and the last of three lines was never written. -/
theorem not_written_last : ∃ s,
    Run (StepOf (step .debug twoSlots)) (start twoSlots) threeLines s ∧
      LockFreeCurcularQueue.create .debug 40 2 = .ok twoSlots ∧ s.destructor = .returned ∧
      s.appended = [[97], [98], [99]] ∧ lines s.output = [[97], [98]] ∧
      ¬ (lines s.output).Perm s.appended := by
  have done : ((exec (step .debug twoSlots) (start twoSlots) threeLines).map fun s =>
      (s.destructor, s.appended, lines s.output)) =
        some (.returned, [[97], [98], [99]], [[97], [98]]) := by decide +kernel
  obtain ⟨s, executed, same⟩ := Option.map_eq_some_iff.mp done
  have lost : lines s.output = [[97], [98]] := congrArg (·.2.2) same
  have given : s.appended = [[97], [98], [99]] := congrArg (·.2.1) same
  refine ⟨s, run_of_exec executed, by decide +kernel, congrArg Prod.fst same, given, lost, ?_⟩
  rw [lost, given]
  exact fun all => absurd all.length_eq (by decide)

end AsyncLog

end YYNet
