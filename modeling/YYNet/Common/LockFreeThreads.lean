/-
This file proves that the ring stays a queue in ticket order when any number of
threads use it at once, in any order of their atomic steps.

The position a thread wins is its ticket. A thread that has won a ticket owns the
slot of the ticket until it stores the sequence number, and nobody else touches
the slot meanwhile: the sequence number of a slot is the ticket while the slot is
free or written, one more while it is full or being emptied, and nothing else.
What a thread read before its exchange may be old, but not when the exchange
succeeds: a sequence number only moves when its ticket has been won.

The counters are the only thing all threads write. There are fewer than `2 ^ 63`
operations, each wins once at most, and so neither counter wraps.
-/

import YYNet.Lib.Transition
import YYNet.Common.LockFreeQueue

namespace YYNet

open Checked Storage Transition

namespace LockFreeCurcularQueue

/-! ### Threads -/

/-- What the threads have done to the ring. -/
inductive Event (Value : Type*)
  | wonEnqueue (ticket : Nat) (data : Value)
  | wrote (ticket : Nat) (data : Value)
  | wonDequeue (ticket : Nat)
  | took (ticket : Nat) (data : Value)
  | returned (ticket : Nat) (data : Value)
  deriving DecidableEq, Repr

/-- The ring, where each thread stands in its call, how many operations have begun, what has been
done, and whether an access left the ring. -/
structure Concurrent (Thread Value : Type) where
  queue : LockFreeCurcularQueue Value
  running : Thread → Option (Frame Value)
  started : Nat
  history : List (Event Value)
  fault : Option Fault

/-- A thread begins an operation or makes one atomic step. -/
inductive Act (Thread Value : Type)
  | enqueue (thread : Thread) (data : Value)
  | dequeue (thread : Thread)
  | proceed (thread : Thread) (spurious : Bool)

section

variable {Thread Value : Type}

/-- What a step does to the ring, as far as it is recorded. -/
def record : Frame Value → Next Value → List (Event Value)
  | .enqueueSwap data pos, .goesOn (.enqueueWrite ..) => [.wonEnqueue pos data]
  | .enqueueWrite data pos, _ => [.wrote pos data]
  | .dequeueSwap pos, .goesOn (.dequeueTake ..) => [.wonDequeue pos]
  | .dequeueTake pos, .goesOn (.dequeueRelease _ data) => [.took pos data]
  | .dequeueRelease pos data, _ => [.returned pos data]
  | _, _ => []

/-- The frame behind a step. -/
def Next.frame : Next Value → Option (Frame Value)
  | .goesOn frame => some frame
  | .returns _ => none

namespace Concurrent

variable [DecidableEq Thread]

/-- Begin an operation. -/
def begin (s : Concurrent Thread Value) (thread : Thread) (frame : Frame Value) :
    Option (Concurrent Thread Value) :=
  if s.fault = none ∧ (s.running thread).isNone then
    some { s with
      running := Function.update s.running thread (some frame)
      started := s.started + 1 }
  else none

def step (s : Concurrent Thread Value) : Act Thread Value → Option (Concurrent Thread Value)
  | .enqueue thread data => s.begin thread (.enqueueLoad data)
  | .dequeue thread => s.begin thread .dequeueLoad
  | .proceed thread spurious =>
    if s.fault = none then
      match s.running thread with
      | none => none
      | some frame =>
        match s.queue.advance spurious frame with
        | .error fault => some { s with fault := some fault }
        | .ok (queue, next) => some { s with
            queue := queue
            running := Function.update s.running thread next.frame
            history := s.history ++ record frame next }
    else none

/-- Nobody has begun. -/
def start (queue : LockFreeCurcularQueue Value) : Concurrent Thread Value where
  queue := queue
  running := fun _ => none
  started := 0
  history := []
  fault := none

end Concurrent

/-! ### What the ring is for -/

/-- The tickets that were won for a `dequeue`. -/
def dequeued (history : List (Event Value)) : List Nat :=
  history.filterMap fun
    | .wonDequeue ticket => some ticket
    | _ => none

/-- Tickets of one slot are the same or at least a lap apart. -/
theorem lap_apart {size first second : Nat} (same : first % size = second % size) :
    first = second ∨ first + size ≤ second ∨ second + size ≤ first := by
  rcases Nat.lt_trichotomy first second with less | equal | greater
  · have := Nat.le_of_dvd (by omega) ((Nat.modEq_iff_dvd' less.le).mp same)
    omega
  · exact .inl equal
  · have := Nat.le_of_dvd (by omega) ((Nat.modEq_iff_dvd' greater.le).mp same.symm)
    omega

/-- The sequence number of the slot of a position. -/
def sequenceAt (q : LockFreeCurcularQueue Value) (pos : Nat) : Nat :=
  match q.buffer[pos &&& q.bufferMask]? with
  | some slot => slot.sequence
  | none => 0

/-- The data in the slot of a position. -/
def dataAt (q : LockFreeCurcularQueue Value) (pos : Nat) : Option Value :=
  q.buffer[pos &&& q.bufferMask]?.map Slot.data

/-- A ring of at least two slots. -/
structure Ring (q : LockFreeCurcularQueue Value) (exponent : Nat) : Prop where
  size : q.buffer.length = 2 ^ exponent
  mask : q.bufferMask = 2 ^ exponent - 1
  several : 2 ≤ 2 ^ exponent
  small : 2 ^ exponent ≤ 2 ^ 62

section

variable {q : LockFreeCurcularQueue Value} {exponent : Nat}

/-- Every position has its slot. -/
theorem Ring.cell (ring : q.Ring exponent) (pos : Nat) :
    ∃ slot, q.buffer[pos % 2 ^ exponent]? = some slot := by
  have inside : pos % 2 ^ exponent < q.buffer.length := by
    rw [ring.size]
    exact Nat.mod_lt _ (Nat.two_pow_pos _)
  exact ⟨_, List.getElem?_eq_getElem inside⟩

theorem Ring.there (ring : q.Ring exponent) (pos : Nat) :
    ∃ data, q.buffer[pos % 2 ^ exponent]? = some ⟨q.sequenceAt pos, data⟩ ∧
      q.dataAt pos = some data := by
  obtain ⟨slot, found⟩ := ring.cell pos
  rw [sequenceAt, dataAt, ring.mask, Nat.and_two_pow_sub_one_eq_mod, found]
  exact ⟨slot.data, rfl, rfl⟩

theorem Ring.slot_eq (ring : q.Ring exponent) (pos : Nat) :
    ∃ data, q.slot pos = .ok ⟨q.sequenceAt pos, data⟩ ∧ q.dataAt pos = some data := by
  obtain ⟨data, there, same⟩ := ring.there pos
  refine ⟨data, ?_, same⟩
  rw [LockFreeCurcularQueue.slot, ring.mask, Nat.and_two_pow_sub_one_eq_mod, there]

theorem Ring.sequenceAt_congr (ring : q.Ring exponent) {first second : Nat}
    (same : first % 2 ^ exponent = second % 2 ^ exponent) :
    q.sequenceAt first = q.sequenceAt second := by
  rw [sequenceAt, sequenceAt, ring.mask, Nat.and_two_pow_sub_one_eq_mod,
    Nat.and_two_pow_sub_one_eq_mod, same]

theorem Ring.updateSlot (ring : q.Ring exponent) (pos : Nat) (update : Slot Value → Slot Value) :
    (q.updateSlot pos update).Ring exponent := by
  refine ⟨?_, ring.mask, ring.several, ring.small⟩
  rw [LockFreeCurcularQueue.updateSlot, List.length_modify, ring.size]

@[simp] theorem updateSlot_enqueuePos (pos : Nat) (update : Slot Value → Slot Value) :
    (q.updateSlot pos update).enqueuePos = q.enqueuePos := rfl

@[simp] theorem updateSlot_dequeuePos (pos : Nat) (update : Slot Value → Slot Value) :
    (q.updateSlot pos update).dequeuePos = q.dequeuePos := rfl

theorem Ring.sequenceAt_store (ring : q.Ring exponent) (pos sequence position : Nat) :
    (q.updateSlot pos ({ · with sequence := sequence })).sequenceAt position =
      if position % 2 ^ exponent = pos % 2 ^ exponent then sequence
      else q.sequenceAt position := by
  obtain ⟨slot, there⟩ := ring.cell position
  simp only [sequenceAt, LockFreeCurcularQueue.updateSlot, ring.mask,
    Nat.and_two_pow_sub_one_eq_mod, List.getElem?_modify, there]
  by_cases same : pos % 2 ^ exponent = position % 2 ^ exponent
  · simp [same]
  · simp [same, Ne.symm same]

/-- A sequence number that is not below the old one is below none. -/
theorem Ring.sequenceAt_le_store (ring : q.Ring exponent) {pos sequence : Nat}
    (grows : q.sequenceAt pos ≤ sequence) (position : Nat) :
    q.sequenceAt position ≤
      if position % 2 ^ exponent = pos % 2 ^ exponent then sequence
      else q.sequenceAt position := by
  split
  · rename_i same
    rwa [ring.sequenceAt_congr same]
  · exact le_rfl

theorem Ring.dataAt_store (ring : q.Ring exponent) (pos sequence position : Nat) :
    (q.updateSlot pos ({ · with sequence := sequence })).dataAt position = q.dataAt position := by
  obtain ⟨slot, there⟩ := ring.cell position
  simp only [dataAt, LockFreeCurcularQueue.updateSlot, ring.mask,
    Nat.and_two_pow_sub_one_eq_mod, List.getElem?_modify, there]
  by_cases same : pos % 2 ^ exponent = position % 2 ^ exponent
  · simp [same]
  · simp [same]

theorem Ring.sequenceAt_write (ring : q.Ring exponent) (pos : Nat) (data : Value)
    (position : Nat) :
    (q.updateSlot pos ({ · with data := data })).sequenceAt position = q.sequenceAt position := by
  obtain ⟨slot, there⟩ := ring.cell position
  simp only [sequenceAt, LockFreeCurcularQueue.updateSlot, ring.mask,
    Nat.and_two_pow_sub_one_eq_mod, List.getElem?_modify, there]
  by_cases same : pos % 2 ^ exponent = position % 2 ^ exponent
  · simp [same]
  · simp [same]

theorem Ring.dataAt_write (ring : q.Ring exponent) (pos : Nat) (data : Value) (position : Nat) :
    (q.updateSlot pos ({ · with data := data })).dataAt position =
      if position % 2 ^ exponent = pos % 2 ^ exponent then some data else q.dataAt position := by
  obtain ⟨slot, there⟩ := ring.cell position
  simp only [dataAt, LockFreeCurcularQueue.updateSlot, ring.mask,
    Nat.and_two_pow_sub_one_eq_mod, List.getElem?_modify, there]
  by_cases same : pos % 2 ^ exponent = position % 2 ^ exponent
  · simp [same]
  · simp [same, Ne.symm same]

end

/-! ### The invariant -/

/-- The ticket a frame is going to write or has written. -/
def Frame.writes : Frame Value → Option Nat
  | .enqueueWrite _ pos => some pos
  | .enqueuePublish pos => some pos
  | _ => none

/-- The ticket a frame is going to take or has taken. -/
def Frame.reads : Frame Value → Option Nat
  | .dequeueTake pos => some pos
  | .dequeueRelease pos _ => some pos
  | _ => none

/-- The call has not won a ticket. -/
def Frame.Waits (frame : Frame Value) : Prop := frame.writes = none ∧ frame.reads = none

/-- What a thread knows about the ring. -/
def Frame.Ok (q : LockFreeCurcularQueue Value) (history : List (Event Value)) :
    Frame Value → Prop
  | .enqueueLoad _ => True
  | .enqueueRead _ pos => pos ≤ q.enqueuePos
  | .enqueueSwap _ pos => pos ≤ q.enqueuePos ∧ (pos = q.enqueuePos → q.sequenceAt pos = pos)
  | .enqueueWrite data pos => pos < q.enqueuePos ∧ q.sequenceAt pos = pos ∧
      .wonEnqueue pos data ∈ history ∧ ∀ other, .wrote pos other ∉ history
  | .enqueuePublish pos => pos < q.enqueuePos ∧ q.sequenceAt pos = pos ∧
      ∃ data, .wrote pos data ∈ history ∧ q.dataAt pos = some data
  | .dequeueLoad => True
  | .dequeueRead pos => pos ≤ q.dequeuePos
  | .dequeueSwap pos => pos ≤ q.dequeuePos ∧ (pos = q.dequeuePos → q.sequenceAt pos = pos + 1)
  | .dequeueTake pos => pos < q.dequeuePos ∧ q.sequenceAt pos = pos + 1
  | .dequeueRelease pos data => pos < q.dequeuePos ∧ q.sequenceAt pos = pos + 1 ∧
      .took pos data ∈ history

/-- What a ticket is worth: from the sequence number of its slot one reads off whether it has been
published or released, and whoever has won it without having stored the sequence number is
running. -/
structure Tickets (q : LockFreeCurcularQueue Value)
    (running : Thread → Option (Frame Value)) (history : List (Event Value)) : Prop where
  head_le : q.dequeuePos ≤ q.enqueuePos
  small : ∀ pos, q.sequenceAt pos < 2 ^ 64
  unwon : ∀ pos, q.sequenceAt pos < pos → q.enqueuePos ≤ pos
  untaken : ∀ pos, q.sequenceAt pos ≤ pos → q.dequeuePos ≤ pos
  published : ∀ pos, pos < q.sequenceAt pos → pos < q.enqueuePos ∧
    ∃ data, .wrote pos data ∈ history ∧ (q.sequenceAt pos = pos + 1 → q.dataAt pos = some data)
  released : ∀ pos, pos + 1 < q.sequenceAt pos → pos < q.dequeuePos ∧
    ∃ data, .took pos data ∈ history ∧ .returned pos data ∈ history
  writer : ∀ pos, q.sequenceAt pos = pos → pos < q.enqueuePos →
    ∃ thread frame, running thread = some frame ∧ frame.writes = some pos
  reader : ∀ pos, q.sequenceAt pos = pos + 1 → pos < q.dequeuePos →
    ∃ thread frame, running thread = some frame ∧ frame.reads = some pos

/-- What the running threads know is true, and no two own one ticket. -/
structure Owners (q : LockFreeCurcularQueue Value) (running : Thread → Option (Frame Value))
    (history : List (Event Value)) : Prop where
  frames : ∀ thread frame, running thread = some frame → frame.Ok q history
  one_writer : ∀ first second firstFrame secondFrame pos, running first = some firstFrame →
    running second = some secondFrame → firstFrame.writes = some pos →
      secondFrame.writes = some pos → first = second
  one_reader : ∀ first second firstFrame secondFrame pos, running first = some firstFrame →
    running second = some secondFrame → firstFrame.reads = some pos →
      secondFrame.reads = some pos → first = second

/-- What has been done. -/
structure Recorded (size : Nat) (q : LockFreeCurcularQueue Value) (history : List (Event Value)) :
    Prop where
  won : ∀ pos, pos < q.enqueuePos ↔ ∃ data, .wonEnqueue pos data ∈ history
  won_once : ∀ pos first second, .wonEnqueue pos first ∈ history →
    .wonEnqueue pos second ∈ history → first = second
  wrote_won : ∀ pos data, .wrote pos data ∈ history → .wonEnqueue pos data ∈ history
  took_wrote : ∀ pos data, .took pos data ∈ history → .wrote pos data ∈ history
  returned_took : ∀ pos data, .returned pos data ∈ history → .took pos data ∈ history
  returned_lt : ∀ pos data, .returned pos data ∈ history → pos < q.dequeuePos
  dequeued_lt : ∀ pos ∈ dequeued history, pos < q.dequeuePos
  once : (dequeued history).Nodup
  written_when_taken : ∀ before after ticket data, history = before ++ .wrote ticket data :: after →
    ∀ earlier old, .wrote earlier old ∈ before → earlier % size = ticket % size →
      .took earlier old ∈ before

/-- What holds of the ring, the running threads and the history. -/
structure Shared (exponent : Nat) (q : LockFreeCurcularQueue Value)
    (running : Thread → Option (Frame Value)) (history : List (Event Value)) : Prop where
  ring : q.Ring exponent
  tickets : Tickets q running history
  owners : Owners q running history
  recorded : Recorded (2 ^ exponent) q history

/-- Every ticket belongs to an operation of its own, and so do the calls that have won none. -/
def Few (s : Concurrent Thread Value) : Prop :=
  ∃ waiting : Finset Thread,
    (∀ thread, thread ∈ waiting ↔ ∃ frame, s.running thread = some frame ∧ frame.Waits) ∧
      s.queue.enqueuePos + s.queue.dequeuePos + waiting.card ≤ s.started

structure Consistent (exponent : Nat) (s : Concurrent Thread Value) : Prop where
  inside : s.fault = none
  shared : Shared exponent s.queue s.running s.history
  few : Few s

/-! ### Steps of one thread -/

section

variable [DecidableEq Thread] {running : Thread → Option (Frame Value)} {thread : Thread}
  {exponent : Nat} {q : LockFreeCurcularQueue Value} {history : List (Event Value)}

/-- Another thread owns what it owned. -/
theorem owner_update (owns : Frame Value → Option Nat) {pos : Nat} (next : Option (Frame Value))
    (owner : ∃ other frame, running other = some frame ∧ owns frame = some pos)
    (notThis : ∀ frame, running thread = some frame → owns frame ≠ some pos) :
    ∃ other frame, Function.update running thread next other = some frame ∧
      owns frame = some pos := by
  obtain ⟨other, frame, runs, owned⟩ := owner
  have different : other ≠ thread := by
    rintro rfl
    exact notThis frame runs owned
  exact ⟨other, frame, by rwa [Function.update_of_ne different], owned⟩

/-- A ticket that the moved thread does not own keeps its owner. -/
theorem owner_moved (owns : Frame Value → Option Nat) {pos : Nat} (next : Option (Frame Value))
    {moved : Frame Value} (runs : running thread = some moved)
    (owner : ∃ other frame, running other = some frame ∧ owns frame = some pos)
    (notMoved : owns moved ≠ some pos) :
    ∃ other frame, Function.update running thread next other = some frame ∧
      owns frame = some pos := by
  refine owner_update owns next owner ?_
  intro frame isFrame
  obtain rfl := Option.some.inj (runs.symm.trans isFrame)
  exact notMoved

/-- No two threads own one ticket, when nobody else owns what the moved thread now owns. -/
theorem one_update (owns : Frame Value → Option Nat) (next : Option (Frame Value))
    (one : ∀ first second firstFrame secondFrame pos, running first = some firstFrame →
      running second = some secondFrame → owns firstFrame = some pos →
        owns secondFrame = some pos → first = second)
    (alone : ∀ frame pos, next = some frame → owns frame = some pos →
      ∀ other otherFrame, other ≠ thread → running other = some otherFrame →
        owns otherFrame ≠ some pos) :
    ∀ first second firstFrame secondFrame pos,
      Function.update running thread next first = some firstFrame →
      Function.update running thread next second = some secondFrame →
        owns firstFrame = some pos → owns secondFrame = some pos → first = second := by
  intro first second firstFrame secondFrame pos firstRuns secondRuns firstOwns secondOwns
  by_cases isFirst : first = thread
  · by_cases isSecond : second = thread
    · rw [isFirst, isSecond]
    · rw [isFirst, Function.update_self] at firstRuns
      rw [Function.update_of_ne isSecond] at secondRuns
      exact absurd secondOwns (alone _ _ firstRuns firstOwns _ _ isSecond secondRuns)
  · rw [Function.update_of_ne isFirst] at firstRuns
    by_cases isSecond : second = thread
    · rw [isSecond, Function.update_self] at secondRuns
      exact absurd firstOwns (alone _ _ secondRuns secondOwns _ _ isFirst firstRuns)
    · rw [Function.update_of_ne isSecond] at secondRuns
      exact one first second firstFrame secondFrame pos firstRuns secondRuns firstOwns secondOwns

/-- The frames of all threads behind a step: that of the moved one, and those of the others. -/
theorem frames_update {next : Option (Frame Value)} {after : LockFreeCurcularQueue Value}
    {more : List (Event Value)} (moved : ∀ frame, next = some frame → frame.Ok after more)
    (others : ∀ other frame, other ≠ thread → running other = some frame → frame.Ok after more) :
    ∀ other frame, Function.update running thread next other = some frame →
      frame.Ok after more := by
  intro other frame runs
  by_cases same : other = thread
  · rw [same, Function.update_self] at runs
    exact moved frame runs
  · rw [Function.update_of_ne same] at runs
    exact others other frame same runs

/-- A new event of another thread changes nothing a frame knows, unless it is a write. -/
theorem Frame.Ok.record {frame : Frame Value} (ok : frame.Ok q history) {event : Event Value}
    (noWrite : ∀ pos data, event ≠ .wrote pos data) : frame.Ok q (history ++ [event]) := by
  have grows {known : Event Value} (there : known ∈ history) : known ∈ history ++ [event] :=
    List.mem_append_left _ there
  cases frame with
  | enqueueWrite data pos =>
    refine ⟨ok.1, ok.2.1, grows ok.2.2.1, fun other wrote => ?_⟩
    rcases List.mem_append.mp wrote with before | now
    · exact ok.2.2.2 other before
    · exact noWrite pos other (List.mem_singleton.mp now).symm
  | enqueuePublish pos =>
    obtain ⟨less, same, data, wrote, there⟩ := ok
    exact ⟨less, same, data, grows wrote, there⟩
  | dequeueRelease pos data => exact ⟨ok.1, ok.2.1, grows ok.2.2⟩
  | _ => exact ok

/-- What a frame knows survives that a sequence number is stored in a slot, unless the frame
relies on that slot: it is at the position that is next, or owns a ticket of the slot. -/
theorem Frame.Ok.store (ring : q.Ring exponent) {frame : Frame Value} (ok : frame.Ok q history)
    {pos sequence : Nat}
    (writes : ∀ position, position % 2 ^ exponent = pos % 2 ^ exponent →
      q.sequenceAt position = position →
        frame.writes ≠ some position ∧ position ≠ q.enqueuePos)
    (reads : ∀ position, position % 2 ^ exponent = pos % 2 ^ exponent →
      q.sequenceAt position = position + 1 →
        frame.reads ≠ some position ∧ position ≠ q.dequeuePos) :
    frame.Ok (q.updateSlot pos ({ · with sequence := sequence })) history := by
  cases frame <;>
    simp only [Frame.Ok, ring.sequenceAt_store, ring.dataAt_store, updateSlot_enqueuePos,
      updateSlot_dequeuePos] at ok ⊢
  case enqueueRead => exact ok
  case enqueueSwap value position =>
    refine ⟨ok.1, fun current => ?_⟩
    rw [if_neg fun same => (writes position same (ok.2 current)).2 current]
    exact ok.2 current
  case enqueueWrite value position =>
    refine ⟨ok.1, ?_, ok.2.2⟩
    rw [if_neg fun same => (writes position same ok.2.1).1 rfl]
    exact ok.2.1
  case enqueuePublish position =>
    refine ⟨ok.1, ?_, ok.2.2⟩
    rw [if_neg fun same => (writes position same ok.2.1).1 rfl]
    exact ok.2.1
  case dequeueRead => exact ok
  case dequeueSwap position =>
    refine ⟨ok.1, fun current => ?_⟩
    rw [if_neg fun same => (reads position same (ok.2 current)).2 current]
    exact ok.2 current
  case dequeueTake position =>
    refine ⟨ok.1, ?_⟩
    rw [if_neg fun same => (reads position same ok.2).1 rfl]
    exact ok.2
  case dequeueRelease position value =>
    refine ⟨ok.1, ?_, ok.2.2⟩
    rw [if_neg fun same => (reads position same ok.2.1).1 rfl]
    exact ok.2.1

/-- A thread that owns no ticket moves, and leaves the ring alone. -/
theorem Shared.move (shared : Shared exponent q running history)
    (waited : ∀ frame, running thread = some frame → frame.Waits) {next : Option (Frame Value)}
    (waits : ∀ frame, next = some frame → frame.Waits ∧ frame.Ok q history) :
    Shared exponent q (Function.update running thread next) history where
  ring := shared.ring
  recorded := shared.recorded
  tickets := { shared.tickets with
    writer := fun pos same less => owner_update Frame.writes next
      (shared.tickets.writer pos same less) fun frame runs owned => by
        rw [(waited frame runs).1] at owned
        cases owned
    reader := fun pos same less => owner_update Frame.reads next
      (shared.tickets.reader pos same less) fun frame runs owned => by
        rw [(waited frame runs).2] at owned
        cases owned }
  owners := {
    frames := frames_update (fun frame isNext => (waits frame isNext).2)
      fun other frame _ runs => shared.owners.frames other frame runs
    one_writer := one_update Frame.writes next shared.owners.one_writer
      fun frame pos isNext owned => by
        rw [(waits frame isNext).1.1] at owned
        cases owned
    one_reader := one_update Frame.reads next shared.owners.one_reader
      fun frame pos isNext owned => by
        rw [(waits frame isNext).1.2] at owned
        cases owned }

/-- The order of writes and takes, when one more event is recorded. -/
theorem written_snoc {size : Nat} (event : Event Value)
    (written : ∀ before after ticket data, history = before ++ .wrote ticket data :: after →
      ∀ earlier old, .wrote earlier old ∈ before → earlier % size = ticket % size →
        .took earlier old ∈ before)
    (last : ∀ ticket data, event = .wrote ticket data → ∀ earlier old,
      .wrote earlier old ∈ history → earlier % size = ticket % size → .took earlier old ∈ history) :
    ∀ before after ticket data, history ++ [event] = before ++ .wrote ticket data :: after →
      ∀ earlier old, .wrote earlier old ∈ before → earlier % size = ticket % size →
        .took earlier old ∈ before := by
  intro before after ticket data shape
  rcases List.eq_nil_or_concat after with rfl | ⟨rest, final, rfl⟩
  · obtain ⟨rfl, same⟩ := List.append_inj' shape rfl
    exact last ticket data (List.singleton_inj.mp same)
  · rw [List.concat_eq_append, ← List.cons_append, ← List.append_assoc] at shape
    exact written before rest ticket data (List.append_inj' shape rfl).1

/-- What an event needs before it, and what it makes of the counters. -/
def Event.Follows (size : Nat) (q after : LockFreeCurcularQueue Value)
    (history : List (Event Value)) : Event Value → Prop
  | .wonEnqueue pos _ => pos = q.enqueuePos ∧ after.enqueuePos = pos + 1 ∧
      after.dequeuePos = q.dequeuePos
  | .wrote pos data => .wonEnqueue pos data ∈ history ∧
      (∀ earlier old, .wrote earlier old ∈ history → earlier % size = pos % size →
        .took earlier old ∈ history) ∧
      after.enqueuePos = q.enqueuePos ∧ after.dequeuePos = q.dequeuePos
  | .wonDequeue pos => pos = q.dequeuePos ∧ after.enqueuePos = q.enqueuePos ∧
      after.dequeuePos = pos + 1
  | .took pos data => .wrote pos data ∈ history ∧ after.enqueuePos = q.enqueuePos ∧
      after.dequeuePos = q.dequeuePos
  | .returned pos data => .took pos data ∈ history ∧ pos < q.dequeuePos ∧
      after.enqueuePos = q.enqueuePos ∧ after.dequeuePos = q.dequeuePos

theorem Recorded.snoc {size : Nat} (recorded : Recorded size q history)
    {after : LockFreeCurcularQueue Value} {event : Event Value}
    (follows : event.Follows size q after history) :
    Recorded size after (history ++ [event]) := by
  have written := written_snoc event recorded.written_when_taken (by
    rintro ticket data rfl
    exact follows.2.1)
  have tickets : dequeued (history ++ [event]) = dequeued history ++ dequeued [event] :=
    List.filterMap_append
  have unwon : ∀ data, .wonEnqueue q.enqueuePos data ∉ history := by
    intro data won
    exact lt_irrefl _ ((recorded.won q.enqueuePos).mpr ⟨data, won⟩)
  cases event with
  | wonEnqueue pos data =>
    obtain ⟨rfl, tail, head⟩ := follows
    constructor
    case written_when_taken => exact written
    all_goals simp only [tickets, tail, head, List.mem_append, List.mem_singleton,
      reduceCtorEq, or_false, Event.wonEnqueue.injEq]
    · intro pos
      constructor
      · intro less
        by_cases last : pos = q.enqueuePos
        · exact ⟨data, .inr ⟨last, rfl⟩⟩
        · obtain ⟨old, won⟩ := (recorded.won pos).mp (by omega)
          exact ⟨old, .inl won⟩
      · rintro ⟨old, won | ⟨rfl, -⟩⟩
        · have := (recorded.won pos).mpr ⟨old, won⟩
          omega
        · omega
    · rintro pos first second (firstWon | ⟨rfl, rfl⟩) (secondWon | ⟨same, rfl⟩)
      · exact recorded.won_once pos first second firstWon secondWon
      · rw [same] at firstWon
        exact absurd firstWon (unwon first)
      · exact absurd secondWon (unwon second)
      · rfl
    · intro pos old wrote
      exact .inl (recorded.wrote_won pos old wrote)
    · exact recorded.took_wrote
    · exact recorded.returned_took
    · exact recorded.returned_lt
    · simpa [dequeued] using recorded.dequeued_lt
    · simpa [dequeued] using recorded.once
  | wrote pos data =>
    obtain ⟨won, -, tail, head⟩ := follows
    constructor
    case written_when_taken => exact written
    all_goals simp only [tickets, tail, head, List.mem_append, List.mem_singleton,
      reduceCtorEq, or_false, Event.wrote.injEq]
    · exact recorded.won
    · exact recorded.won_once
    · rintro position old (wrote | ⟨rfl, rfl⟩)
      · exact recorded.wrote_won position old wrote
      · exact won
    · intro position old taken
      exact .inl (recorded.took_wrote position old taken)
    · exact recorded.returned_took
    · exact recorded.returned_lt
    · simpa [dequeued] using recorded.dequeued_lt
    · simpa [dequeued] using recorded.once
  | wonDequeue pos =>
    obtain ⟨rfl, tail, head⟩ := follows
    have one : dequeued [(Event.wonDequeue q.dequeuePos : Event Value)] = [q.dequeuePos] := rfl
    constructor
    case written_when_taken => exact written
    all_goals simp only [tickets, one, tail, head, List.mem_append, List.mem_singleton,
      reduceCtorEq, or_false]
    · exact recorded.won
    · exact recorded.won_once
    · exact recorded.wrote_won
    · exact recorded.took_wrote
    · exact recorded.returned_took
    · intro position old returned
      have := recorded.returned_lt position old returned
      omega
    · rintro position (earlier | rfl)
      · have := recorded.dequeued_lt position earlier
        omega
      · omega
    · refine recorded.once.append (List.nodup_singleton _) ?_
      intro position earlier last
      have := recorded.dequeued_lt position earlier
      have := List.mem_singleton.mp last
      omega
  | took pos data =>
    obtain ⟨wrote, tail, head⟩ := follows
    constructor
    case written_when_taken => exact written
    all_goals simp only [tickets, tail, head, List.mem_append, List.mem_singleton,
      reduceCtorEq, or_false, Event.took.injEq]
    · exact recorded.won
    · exact recorded.won_once
    · exact recorded.wrote_won
    · rintro position old (taken | ⟨rfl, rfl⟩)
      · exact recorded.took_wrote position old taken
      · exact wrote
    · intro position old returned
      exact .inl (recorded.returned_took position old returned)
    · exact recorded.returned_lt
    · simpa [dequeued] using recorded.dequeued_lt
    · simpa [dequeued] using recorded.once
  | returned pos data =>
    obtain ⟨taken, less, tail, head⟩ := follows
    constructor
    case written_when_taken => exact written
    all_goals simp only [tickets, tail, head, List.mem_append, List.mem_singleton,
      reduceCtorEq, or_false, Event.returned.injEq]
    · exact recorded.won
    · exact recorded.won_once
    · exact recorded.wrote_won
    · exact recorded.took_wrote
    · rintro position old (returned | ⟨rfl, rfl⟩)
      · exact recorded.returned_took position old returned
      · exact taken
    · rintro position old (returned | ⟨rfl, -⟩)
      · exact recorded.returned_lt position old returned
      · exact less
    · simpa [dequeued] using recorded.dequeued_lt
    · simpa [dequeued] using recorded.once

/-- The history speaks about the counters only. -/
theorem Recorded.updateSlot {size : Nat} (recorded : Recorded size q history) (pos : Nat)
    (update : Slot Value → Slot Value) : Recorded size (q.updateSlot pos update) history :=
  { recorded with }

/-- The exchange of `enqueueImpl` succeeds: the sequence number that was read is still there. -/
theorem Shared.win_enqueue (shared : Shared exponent q running history) {data : Value} {pos : Nat}
    (runs : running thread = some (.enqueueSwap data pos)) (current : q.enqueuePos = pos)
    {after : LockFreeCurcularQueue Value} (ring : after.Ring exponent)
    (tail : after.enqueuePos = pos + 1) (head : after.dequeuePos = q.dequeuePos)
    (sequence : ∀ position, after.sequenceAt position = q.sequenceAt position)
    (content : ∀ position, after.dataAt position = q.dataAt position) :
    Shared exponent after (Function.update running thread (some (.enqueueWrite data pos)))
      (history ++ [.wonEnqueue pos data]) := by
  obtain ⟨ring', tickets, owners, recorded⟩ := shared
  have free : q.sequenceAt pos = pos := (owners.frames _ _ runs).2 current.symm
  have unwritten : ∀ other, .wrote pos other ∉ history := by
    intro other written
    have := (recorded.won pos).mpr ⟨other, recorded.wrote_won pos other written⟩
    omega
  refine ⟨ring, ?_, ?_, ?_⟩
  · constructor <;> simp only [sequence, content, head, tail, List.mem_append, List.mem_singleton,
      reduceCtorEq, or_false]
    · have := tickets.head_le
      omega
    · exact tickets.small
    · intro position less
      have := tickets.unwon position less
      have : position ≠ pos := by
        rintro rfl
        omega
      omega
    · exact tickets.untaken
    · intro position less
      obtain ⟨won, written⟩ := tickets.published position less
      exact ⟨by omega, written⟩
    · exact tickets.released
    · intro position same less
      by_cases this : position = pos
      · exact ⟨thread, _, Function.update_self .., by rw [this]; rfl⟩
      · refine owner_moved Frame.writes _ runs (tickets.writer position same (by omega)) ?_
        rintro ⟨⟩
    · intro position same less
      refine owner_moved Frame.reads _ runs (tickets.reader position same less) ?_
      rintro ⟨⟩
  · refine ⟨frames_update ?_ ?_, one_update Frame.writes _ owners.one_writer ?_,
      one_update Frame.reads _ owners.one_reader ?_⟩
    · rintro _ ⟨⟩
      refine ⟨by omega, (sequence pos).trans free, by simp, fun other written => ?_⟩
      rw [List.mem_append, List.mem_singleton] at written
      rcases written with written | same
      · exact unwritten other written
      · cases same
    · intro other frame _ isFrame
      have ok := owners.frames other frame isFrame
      cases frame <;>
        simp only [Frame.Ok, sequence, content, head, tail, List.mem_append, List.mem_singleton,
          reduceCtorEq, or_false] at ok ⊢
      case enqueueRead => omega
      case enqueueSwap => omega
      case enqueueWrite =>
        exact ⟨by omega, ok.2.1, .inl ok.2.2.1, ok.2.2.2⟩
      case enqueuePublish => exact ⟨by omega, ok.2⟩
      case dequeueRead => exact ok
      case dequeueSwap => exact ok
      case dequeueTake => exact ok
      case dequeueRelease => exact ok
    · rintro _ position ⟨⟩ ⟨⟩ other frame _ isFrame owned
      have ok := owners.frames other frame isFrame
      cases frame <;> cases owned
      · exact absurd ok.1 (by omega)
      · exact absurd ok.1 (by omega)
    · rintro _ position ⟨⟩ ⟨⟩
  · exact recorded.snoc ⟨current.symm, tail, head⟩

/-- The owner of a ticket writes: whatever the slot held before has been taken. -/
theorem Shared.write (shared : Shared exponent q running history) {data : Value} {pos : Nat}
    (runs : running thread = some (.enqueueWrite data pos)) :
    Shared exponent (q.updateSlot pos ({ · with data := data }))
      (Function.update running thread (some (.enqueuePublish pos)))
      (history ++ [.wrote pos data]) := by
  obtain ⟨ring, tickets, owners, recorded⟩ := shared
  obtain ⟨less, free, won, unwritten⟩ := owners.frames _ _ runs
  have several := ring.several
  -- A slot that is free for this ticket is full for no ticket.
  have notFull : ∀ position, position % 2 ^ exponent = pos % 2 ^ exponent →
      q.sequenceAt position ≠ position + 1 := by
    intro position same full
    rw [ring.sequenceAt_congr same, free] at full
    have := lap_apart same
    omega
  refine ⟨ring.updateSlot _ _, ?_, ?_, recorded.snoc ⟨won, ?_, rfl, rfl⟩⟩
  · constructor <;> simp only [ring.sequenceAt_write, ring.dataAt_write, updateSlot_enqueuePos,
      updateSlot_dequeuePos, List.mem_append, List.mem_singleton, reduceCtorEq, or_false]
    · exact tickets.head_le
    · exact tickets.small
    · exact tickets.unwon
    · exact tickets.untaken
    · intro position later
      obtain ⟨isWon, old, wrote, there⟩ := tickets.published position later
      refine ⟨isWon, old, .inl wrote, fun full => ?_⟩
      rw [if_neg fun same => notFull position same full]
      exact there full
    · exact tickets.released
    · intro position same isWon
      by_cases this : position = pos
      · exact ⟨thread, _, Function.update_self .., by rw [this]; rfl⟩
      · refine owner_moved Frame.writes _ runs (tickets.writer position same isWon) ?_
        exact fun owned => this (Option.some.inj owned).symm
    · intro position same isWon
      refine owner_moved Frame.reads _ runs (tickets.reader position same isWon) ?_
      rintro ⟨⟩
  · refine ⟨frames_update ?_ ?_, one_update Frame.writes _ owners.one_writer ?_,
      one_update Frame.reads _ owners.one_reader ?_⟩
    · rintro _ ⟨⟩
      refine ⟨less, (ring.sequenceAt_write ..).trans free, data, by simp, ?_⟩
      rw [ring.dataAt_write, if_pos rfl]
    · intro other frame different isFrame
      have ok := owners.frames other frame isFrame
      have alone : frame.writes ≠ some pos := fun owned =>
        different (owners.one_writer other thread _ _ pos isFrame runs owned rfl)
      cases frame <;>
        simp only [Frame.Ok, ring.sequenceAt_write, ring.dataAt_write, updateSlot_enqueuePos,
          updateSlot_dequeuePos, List.mem_append, List.mem_singleton, reduceCtorEq, or_false,
          Event.wrote.injEq] at ok ⊢
      case enqueueRead => exact ok
      case enqueueSwap => exact ok
      case enqueueWrite old position =>
        refine ⟨ok.1, ok.2.1, ok.2.2.1, ?_⟩
        rintro value (wrote | ⟨rfl, -⟩)
        · exact ok.2.2.2 value wrote
        · exact alone rfl
      case enqueuePublish position =>
        obtain ⟨isWon, same, old, wrote, there⟩ := ok
        refine ⟨isWon, same, old, .inl wrote, ?_⟩
        rw [if_neg]
        · exact there
        · intro sameSlot
          rw [ring.sequenceAt_congr sameSlot, free] at same
          exact alone (by rw [same]; rfl)
      case dequeueRead => exact ok
      case dequeueSwap => exact ok
      case dequeueTake => exact ok
      case dequeueRelease => exact ok
    · rintro _ position ⟨⟩ ⟨⟩ other frame different isFrame owned
      exact different (owners.one_writer other thread _ _ pos isFrame runs owned rfl)
    · rintro _ position ⟨⟩ ⟨⟩
  · intro earlier old wrote same
    have sequence := ring.sequenceAt_congr same
    rw [free] at sequence
    rcases lap_apart same with rfl | before | behind
    · exact absurd wrote (unwritten old)
    · obtain ⟨-, value, took, -⟩ := tickets.released earlier (by omega)
      have same := recorded.won_once earlier old value (recorded.wrote_won _ _ wrote)
        (recorded.wrote_won _ _ (recorded.took_wrote _ _ took))
      rwa [same]
    · have isWon := (recorded.won earlier).mpr ⟨old, recorded.wrote_won _ _ wrote⟩
      have := tickets.unwon earlier (by omega)
      omega

/-- The owner of a ticket publishes what it has written. -/
theorem Shared.publish (shared : Shared exponent q running history) {pos : Nat}
    (runs : running thread = some (.enqueuePublish pos)) (unwrapped : pos + 1 < 2 ^ 64) :
    Shared exponent (q.updateSlot pos ({ · with sequence := pos + 1 }))
      (Function.update running thread none) history := by
  obtain ⟨ring, tickets, owners, recorded⟩ := shared
  obtain ⟨less, free, data, wrote, there⟩ := owners.frames _ _ runs
  have several := ring.several
  have untaken := tickets.untaken pos free.le
  have grows : q.sequenceAt pos ≤ pos + 1 := by omega
  -- What is known of the tickets of this slot: none but this one is this one.
  have slot : ∀ position, position % 2 ^ exponent = pos % 2 ^ exponent →
      q.sequenceAt position = pos ∧ (position = pos ∨ position + 2 ^ exponent ≤ pos ∨
        pos + 2 ^ exponent ≤ position) := by
    intro position same
    exact ⟨(ring.sequenceAt_congr same).trans free, lap_apart same⟩
  refine ⟨ring.updateSlot _ _, ?_, ?_, recorded.updateSlot _ _⟩
  · constructor <;> simp only [ring.sequenceAt_store, ring.dataAt_store, updateSlot_enqueuePos,
      updateSlot_dequeuePos]
    · exact tickets.head_le
    · intro position
      split
      · exact unwrapped
      · exact tickets.small position
    · intro position behind
      exact tickets.unwon position ((ring.sequenceAt_le_store grows position).trans_lt behind)
    · intro position behind
      exact tickets.untaken position ((ring.sequenceAt_le_store grows position).trans behind)
    · intro position
      split
      · rename_i same
        obtain ⟨sequence, apart⟩ := slot position same
        intro later
        by_cases this : position = pos
        · subst this
          exact ⟨less, data, wrote, fun _ => there⟩
        · obtain ⟨isWon, old, wrote, -⟩ := tickets.published position (by omega)
          exact ⟨isWon, old, wrote, fun full => absurd full (by omega)⟩
      · exact tickets.published position
    · intro position
      split
      · rename_i same
        obtain ⟨sequence, apart⟩ := slot position same
        intro later
        exact tickets.released position (by omega)
      · exact tickets.released position
    · intro position
      split
      · rename_i same
        obtain ⟨sequence, apart⟩ := slot position same
        intro next
        omega
      · rename_i other
        intro same isWon
        refine owner_moved Frame.writes _ runs (tickets.writer position same isWon) ?_
        intro owned
        exact other (by rw [Option.some.inj owned])
    · intro position
      split
      · rename_i same
        obtain ⟨sequence, apart⟩ := slot position same
        intro next taken
        omega
      · intro same taken
        refine owner_moved Frame.reads _ runs (tickets.reader position same taken) ?_
        rintro ⟨⟩
  · refine ⟨frames_update (by rintro _ ⟨⟩) ?_, one_update Frame.writes _ owners.one_writer
      (by rintro _ _ ⟨⟩), one_update Frame.reads _ owners.one_reader (by rintro _ _ ⟨⟩)⟩
    intro other frame different isFrame
    have alone : frame.writes ≠ some pos := fun owned =>
      different (owners.one_writer other thread _ _ pos isFrame runs owned rfl)
    refine (owners.frames other frame isFrame).store ring ?_ ?_
    · intro position same writable
      obtain rfl : position = pos := writable.symm.trans (slot position same).1
      exact ⟨alone, less.ne⟩
    · intro position same readable
      have := slot position same
      omega

/-- The exchange of `dequeue` succeeds: the ticket is still published. -/
theorem Shared.win_dequeue (shared : Shared exponent q running history) {pos : Nat}
    (runs : running thread = some (.dequeueSwap pos)) (current : q.dequeuePos = pos)
    {after : LockFreeCurcularQueue Value} (ring : after.Ring exponent)
    (tail : after.enqueuePos = q.enqueuePos) (head : after.dequeuePos = pos + 1)
    (sequence : ∀ position, after.sequenceAt position = q.sequenceAt position)
    (content : ∀ position, after.dataAt position = q.dataAt position) :
    Shared exponent after (Function.update running thread (some (.dequeueTake pos)))
      (history ++ [.wonDequeue pos]) := by
  obtain ⟨ring', tickets, owners, recorded⟩ := shared
  have full : q.sequenceAt pos = pos + 1 := (owners.frames _ _ runs).2 current.symm
  have won := (tickets.published pos (by omega)).1
  refine ⟨ring, ?_, ?_, recorded.snoc ⟨current.symm, tail, head⟩⟩
  · constructor <;> simp only [sequence, content, head, tail, List.mem_append, List.mem_singleton,
      reduceCtorEq, or_false]
    · omega
    · exact tickets.small
    · exact tickets.unwon
    · intro position notLess
      have := tickets.untaken position notLess
      have : position ≠ pos := by
        rintro rfl
        omega
      omega
    · exact tickets.published
    · intro position less
      obtain ⟨taken, returned⟩ := tickets.released position less
      exact ⟨by omega, returned⟩
    · intro position same isWon
      refine owner_moved Frame.writes _ runs (tickets.writer position same isWon) ?_
      rintro ⟨⟩
    · intro position same taken
      by_cases this : position = pos
      · exact ⟨thread, _, Function.update_self .., by rw [this]; rfl⟩
      · refine owner_moved Frame.reads _ runs (tickets.reader position same (by omega)) ?_
        rintro ⟨⟩
  · refine ⟨frames_update ?_ ?_, one_update Frame.writes _ owners.one_writer ?_,
      one_update Frame.reads _ owners.one_reader ?_⟩
    · rintro _ ⟨⟩
      exact ⟨by omega, (sequence pos).trans full⟩
    · intro other frame _ isFrame
      have ok := owners.frames other frame isFrame
      cases frame <;>
        simp only [Frame.Ok, sequence, content, head, tail, List.mem_append, List.mem_singleton,
          reduceCtorEq, or_false] at ok ⊢
      case enqueueRead => exact ok
      case enqueueSwap => exact ok
      case enqueueWrite => exact ok
      case enqueuePublish => exact ok
      case dequeueRead => omega
      case dequeueSwap => omega
      case dequeueTake => omega
      case dequeueRelease => exact ⟨by omega, ok.2⟩
    · rintro _ position ⟨⟩ ⟨⟩
    · rintro _ position ⟨⟩ ⟨⟩ other frame _ isFrame owned
      have ok := owners.frames other frame isFrame
      cases frame <;> cases owned
      · exact absurd ok.1 (by omega)
      · exact absurd ok.1 (by omega)

/-- The owner of a ticket takes what was written with it. -/
theorem Shared.take (shared : Shared exponent q running history) {data : Value} {pos : Nat}
    (runs : running thread = some (.dequeueTake pos)) (there : q.dataAt pos = some data) :
    Shared exponent q (Function.update running thread (some (.dequeueRelease pos data)))
      (history ++ [.took pos data]) := by
  obtain ⟨ring, tickets, owners, recorded⟩ := shared
  obtain ⟨less, full⟩ := owners.frames _ _ runs
  have wrote : .wrote pos data ∈ history := by
    obtain ⟨-, old, wrote, same⟩ := tickets.published pos (by omega)
    rwa [Option.some.inj (there.symm.trans (same full))]
  refine ⟨ring, ?_, ?_, recorded.snoc ⟨wrote, rfl, rfl⟩⟩
  · refine ⟨tickets.head_le, tickets.small, tickets.unwon, tickets.untaken, ?_, ?_, ?_, ?_⟩
    · intro position later
      obtain ⟨isWon, old, wrote, same⟩ := tickets.published position later
      exact ⟨isWon, old, List.mem_append_left _ wrote, same⟩
    · intro position later
      obtain ⟨taken, old, took, returned⟩ := tickets.released position later
      exact ⟨taken, old, List.mem_append_left _ took, List.mem_append_left _ returned⟩
    · intro position same isWon
      refine owner_moved Frame.writes _ runs (tickets.writer position same isWon) ?_
      rintro ⟨⟩
    · intro position same taken
      by_cases this : position = pos
      · exact ⟨thread, _, Function.update_self .., by rw [this]; rfl⟩
      · refine owner_moved Frame.reads _ runs (tickets.reader position same taken) ?_
        exact fun owned => this (Option.some.inj owned).symm
  · refine ⟨frames_update ?_ ?_, one_update Frame.writes _ owners.one_writer ?_,
      one_update Frame.reads _ owners.one_reader ?_⟩
    · rintro _ ⟨⟩
      exact ⟨less, full, by simp⟩
    · intro other frame _ isFrame
      exact (owners.frames other frame isFrame).record (by rintro _ _ ⟨⟩)
    · rintro _ position ⟨⟩ ⟨⟩
    · rintro _ position ⟨⟩ ⟨⟩ other frame different isFrame owned
      exact different (owners.one_reader other thread _ _ pos isFrame runs owned rfl)

/-- The owner of a ticket releases the slot for the ticket of the next lap. -/
theorem Shared.release (shared : Shared exponent q running history) {data : Value} {pos : Nat}
    (runs : running thread = some (.dequeueRelease pos data))
    (unwrapped : pos + 2 ^ exponent < 2 ^ 64) :
    Shared exponent (q.updateSlot pos ({ · with sequence := pos + 2 ^ exponent }))
      (Function.update running thread none) (history ++ [.returned pos data]) := by
  obtain ⟨ring, tickets, owners, recorded⟩ := shared
  obtain ⟨less, full, took⟩ := owners.frames _ _ runs
  have several := ring.several
  have grows : q.sequenceAt pos ≤ pos + 2 ^ exponent := by omega
  have published := tickets.published pos (by omega)
  have slot : ∀ position, position % 2 ^ exponent = pos % 2 ^ exponent →
      q.sequenceAt position = pos + 1 ∧ (position = pos ∨ position + 2 ^ exponent ≤ pos ∨
        pos + 2 ^ exponent ≤ position) := by
    intro position same
    exact ⟨(ring.sequenceAt_congr same).trans full, lap_apart same⟩
  refine ⟨ring.updateSlot _ _, ?_, ?_, recorded.snoc ⟨took, less, rfl, rfl⟩⟩
  · constructor <;> simp only [ring.sequenceAt_store, ring.dataAt_store, updateSlot_enqueuePos,
      updateSlot_dequeuePos, List.mem_append, List.mem_singleton, reduceCtorEq, or_false,
      Event.returned.injEq]
    · exact tickets.head_le
    · intro position
      split
      · exact unwrapped
      · exact tickets.small position
    · intro position behind
      exact tickets.unwon position ((ring.sequenceAt_le_store grows position).trans_lt behind)
    · intro position behind
      exact tickets.untaken position ((ring.sequenceAt_le_store grows position).trans behind)
    · intro position
      split
      · rename_i same
        obtain ⟨sequence, apart⟩ := slot position same
        intro later
        obtain ⟨isWon, old, wrote, -⟩ := tickets.published position (by omega)
        exact ⟨isWon, old, wrote, fun next => absurd next (by omega)⟩
      · exact tickets.published position
    · intro position
      split
      · rename_i same
        obtain ⟨sequence, apart⟩ := slot position same
        intro later
        by_cases this : position = pos
        · subst this
          exact ⟨less, data, took, .inr ⟨rfl, rfl⟩⟩
        · obtain ⟨taken, old, took, returned⟩ := tickets.released position (by omega)
          exact ⟨taken, old, took, .inl returned⟩
      · intro later
        obtain ⟨taken, old, took, returned⟩ := tickets.released position later
        exact ⟨taken, old, took, .inl returned⟩
    · intro position
      split
      · rename_i same
        obtain ⟨sequence, apart⟩ := slot position same
        intro next isWon
        have := tickets.unwon position (by omega)
        omega
      · intro same isWon
        refine owner_moved Frame.writes _ runs (tickets.writer position same isWon) ?_
        rintro ⟨⟩
    · intro position
      split
      · rename_i same
        obtain ⟨sequence, apart⟩ := slot position same
        intro next taken
        omega
      · rename_i other
        intro same taken
        refine owner_moved Frame.reads _ runs (tickets.reader position same taken) ?_
        intro owned
        exact other (by rw [Option.some.inj owned])
  · refine ⟨frames_update (by rintro _ ⟨⟩) ?_, one_update Frame.writes _ owners.one_writer
      (by rintro _ _ ⟨⟩), one_update Frame.reads _ owners.one_reader (by rintro _ _ ⟨⟩)⟩
    intro other frame different isFrame
    have alone : frame.reads ≠ some pos := fun owned =>
      different (owners.one_reader other thread _ _ pos isFrame runs owned rfl)
    refine ((owners.frames other frame isFrame).store ring ?_ ?_).record (by rintro _ _ ⟨⟩)
    · intro position same writable
      have := slot position same
      omega
    · intro position same readable
      obtain rfl : position = pos :=
        Nat.succ.inj (readable.symm.trans (slot position same).1)
      exact ⟨alone, less.ne⟩

/-! ### Operations and tickets -/

/-- The threads whose call has won no ticket. -/
def Waiting (running : Thread → Option (Frame Value)) (waiting : Finset Thread) : Prop :=
  ∀ thread, thread ∈ waiting ↔ ∃ frame, running thread = some frame ∧ frame.Waits

theorem Waiting.insert {waiting : Finset Thread} (isWaiting : Waiting running waiting)
    {frame : Frame Value} (waits : frame.Waits) :
    Waiting (Function.update running thread (some frame)) (insert thread waiting) := by
  intro other
  rw [Finset.mem_insert]
  by_cases same : other = thread
  · rw [same, Function.update_self]
    exact ⟨fun _ => ⟨frame, rfl, waits⟩, fun _ => .inl rfl⟩
  · rw [Function.update_of_ne same, isWaiting other]
    exact or_iff_right same

theorem Waiting.erase {waiting : Finset Thread} (isWaiting : Waiting running waiting)
    {next : Option (Frame Value)} (stops : ∀ frame, next = some frame → ¬ frame.Waits) :
    Waiting (Function.update running thread next) (waiting.erase thread) := by
  intro other
  rw [Finset.mem_erase]
  by_cases same : other = thread
  · rw [same, Function.update_self]
    exact ⟨fun member => absurd rfl member.1, fun ⟨frame, isFrame, waits⟩ =>
      absurd waits (stops frame isFrame)⟩
  · rw [Function.update_of_ne same, isWaiting other]
    exact and_iff_right same

end

section

variable [DecidableEq Thread] {exponent : Nat} {s : Concurrent Thread Value} {thread : Thread}
  {frame : Frame Value}

/-- A call that waits goes on waiting. -/
theorem Few.keep (few : Few s) (runs : s.running thread = some frame) (waited : frame.Waits)
    {next : Frame Value} (waits : next.Waits) :
    Few { s with running := Function.update s.running thread (some next) } := by
  obtain ⟨waiting, isWaiting, enough⟩ := few
  have member : thread ∈ waiting := (isWaiting thread).mpr ⟨frame, runs, waited⟩
  refine ⟨insert thread waiting, Waiting.insert isWaiting waits, ?_⟩
  rwa [Finset.insert_eq_of_mem member]

/-- A call stops waiting, or had stopped before; if it wins a ticket now, it waited. -/
theorem Few.stop (few : Few s) (runs : s.running thread = some frame)
    {next : Option (Frame Value)} (stops : ∀ frame, next = some frame → ¬ frame.Waits)
    {queue : LockFreeCurcularQueue Value} (history : List (Event Value))
    (counters : queue.enqueuePos + queue.dequeuePos = s.queue.enqueuePos + s.queue.dequeuePos ∨
      (frame.Waits ∧ queue.enqueuePos + queue.dequeuePos =
        s.queue.enqueuePos + s.queue.dequeuePos + 1)) :
    Few { s with
      queue := queue
      running := Function.update s.running thread next
      history := history } := by
  obtain ⟨waiting, isWaiting, enough⟩ := few
  refine ⟨waiting.erase thread, Waiting.erase isWaiting stops, ?_⟩
  have less := Finset.card_erase_le (a := thread) (s := waiting)
  show queue.enqueuePos + queue.dequeuePos + (waiting.erase thread).card ≤ s.started
  rcases counters with same | ⟨waits, more⟩
  · omega
  · have member : thread ∈ waiting := (isWaiting thread).mpr ⟨frame, runs, waits⟩
    have := Finset.card_erase_of_mem member
    have := Finset.card_pos.mpr ⟨thread, member⟩
    omega

omit [DecidableEq Thread] in
/-- The counters stay small, with room for one more ticket while a call waits. -/
theorem Few.counters (few : Few s) (thread : Thread) (frame : Frame Value) :
    s.queue.enqueuePos + s.queue.dequeuePos ≤ s.started ∧
      (s.running thread = some frame → frame.Waits →
        s.queue.enqueuePos + s.queue.dequeuePos + 1 ≤ s.started) := by
  obtain ⟨waiting, isWaiting, enough⟩ := few
  refine ⟨by omega, fun runs waits => ?_⟩
  have := Finset.card_pos.mpr ⟨thread, (isWaiting thread).mpr ⟨frame, runs, waits⟩⟩
  omega

theorem castIntptr_inj {first second : Nat} (firstSmall : first < 2 ^ 64)
    (secondSmall : second < 2 ^ 64) (same : castIntptr first - castIntptr second = 0) :
    first = second := by
  unfold castIntptr at same
  rw [Int.bmod_def, Int.bmod_def] at same
  split at same <;> split at same <;> omega

/-- A call begins. -/
theorem Consistent.begin (consistent : Consistent exponent s) {first : Frame Value}
    {after : Concurrent Thread Value} (begins : s.begin thread first = some after)
    (waits : first.Waits) (ok : first.Ok s.queue s.history) : Consistent exponent after := by
  unfold Concurrent.begin at begins
  split at begins
  · rename_i guard
    obtain rfl := Option.some.inj begins
    have idle : s.running thread = none := Option.isNone_iff_eq_none.mp guard.2
    refine ⟨consistent.inside, consistent.shared.move ?_ ?_, ?_⟩
    · intro frame runs
      rw [idle] at runs
      cases runs
    · rintro _ ⟨⟩
      exact ⟨waits, ok⟩
    · obtain ⟨waiting, isWaiting, enough⟩ := consistent.few
      refine ⟨insert thread waiting, Waiting.insert isWaiting waits, ?_⟩
      have := Finset.card_insert_le thread waiting
      show s.queue.enqueuePos + s.queue.dequeuePos + (insert thread waiting).card ≤ s.started + 1
      omega
  · cases begins

/-- A call that has won no ticket looks at the ring and goes on. -/
theorem Consistent.look (consistent : Consistent exponent s)
    (runs : s.running thread = some frame) (waited : frame.Waits) {next : Frame Value}
    (waits : next.Waits) (ok : next.Ok s.queue s.history) :
    Consistent exponent { s with
      running := Function.update s.running thread (some next)
      history := s.history ++ [] } := by
  rw [List.append_nil]
  refine ⟨consistent.inside, consistent.shared.move ?_ ?_, consistent.few.keep runs waited waits⟩
  · intro other isOther
    rwa [Option.some.inj (isOther.symm.trans runs)]
  · rintro _ ⟨⟩
    exact ⟨waits, ok⟩

/-- A call that has won no ticket looks at the ring and gives up. -/
theorem Consistent.giveUp (consistent : Consistent exponent s)
    (runs : s.running thread = some frame) (waited : frame.Waits) :
    Consistent exponent { s with
      running := Function.update s.running thread none
      history := s.history ++ [] } := by
  refine ⟨consistent.inside, ?_, consistent.few.stop runs (by rintro _ ⟨⟩) _ (.inl rfl)⟩
  show Shared exponent s.queue _ (s.history ++ [])
  rw [List.append_nil]
  refine consistent.shared.move ?_ (by rintro _ ⟨⟩)
  intro other isOther
  rwa [Option.some.inj (isOther.symm.trans runs)]

/-- One atomic step of a call. -/
theorem Consistent.advance (consistent : Consistent exponent s)
    (total : s.started < 2 ^ 63) (runs : s.running thread = some frame) (spurious : Bool) :
    ∃ queue next, s.queue.advance spurious frame = .ok (queue, next) ∧
      Consistent exponent { s with
        queue := queue
        running := Function.update s.running thread next.frame
        history := s.history ++ record frame next } := by
  have modulus : sizeModulus = 2 ^ 64 := by unfold sizeModulus; rfl
  have shared := consistent.shared
  have ok := shared.owners.frames thread frame runs
  obtain ⟨counters, room⟩ := consistent.few.counters thread frame
  cases frame with
  | enqueueLoad data =>
    refine ⟨_, _, rfl, consistent.look runs ⟨rfl, rfl⟩ ⟨rfl, rfl⟩ ?_⟩
    exact le_refl _
  | enqueueRead data pos =>
    have less : pos ≤ s.queue.enqueuePos := ok
    obtain ⟨old, found, -⟩ := shared.ring.slot_eq pos
    rw [LockFreeCurcularQueue.advance, found, ok_bind]
    by_cases free : castIntptr (s.queue.sequenceAt pos) - castIntptr pos = 0
    · refine ⟨_, _, if_pos free, consistent.look runs ⟨rfl, rfl⟩ ⟨rfl, rfl⟩ ⟨less, fun _ => ?_⟩⟩
      exact castIntptr_inj (shared.tickets.small pos) (by omega) free
    · simp only [if_neg free]
      by_cases behind : castIntptr (s.queue.sequenceAt pos) - castIntptr pos < 0
      · exact ⟨_, _, if_pos behind, consistent.giveUp runs ⟨rfl, rfl⟩⟩
      · exact ⟨_, _, if_neg behind, consistent.look runs ⟨rfl, rfl⟩ ⟨rfl, rfl⟩ trivial⟩
  | enqueueSwap data pos =>
    rw [LockFreeCurcularQueue.advance]
    by_cases wins : spurious = false ∧ s.queue.enqueuePos = pos
    · have next : addSize pos 1 = pos + 1 := addSize_of_lt (by omega)
      have more := room runs ⟨rfl, rfl⟩
      refine ⟨_, _, if_pos wins, consistent.inside, ?_, ?_⟩
      · refine shared.win_enqueue runs wins.2 ⟨shared.ring.size, shared.ring.mask,
          shared.ring.several, shared.ring.small⟩ next rfl (fun _ => rfl) (fun _ => rfl)
      · refine consistent.few.stop runs ?_ _ (.inr ⟨⟨rfl, rfl⟩, ?_⟩)
        · rintro _ ⟨⟩ waits
          cases waits.1
        · show addSize pos 1 + s.queue.dequeuePos = _
          omega
    · refine ⟨_, _, if_neg wins, consistent.look runs ⟨rfl, rfl⟩ ⟨rfl, rfl⟩ ?_⟩
      exact le_refl _
  | enqueueWrite data pos =>
    refine ⟨_, _, rfl, consistent.inside, shared.write runs, ?_⟩
    refine consistent.few.stop runs ?_ _ (.inl rfl)
    rintro _ ⟨⟩ waits
    cases waits.1
  | enqueuePublish pos =>
    have less : pos < s.queue.enqueuePos := ok.1
    have next : addSize pos 1 = pos + 1 := addSize_of_lt (by omega)
    refine ⟨_, _, rfl, consistent.inside, ?_, consistent.few.stop runs (by rintro _ ⟨⟩) _ (.inl rfl)⟩
    have published := shared.publish runs (by omega)
    rw [← next] at published
    show Shared exponent _ _ (s.history ++ [])
    rw [List.append_nil]
    exact published
  | dequeueLoad =>
    refine ⟨_, _, rfl, consistent.look runs ⟨rfl, rfl⟩ ⟨rfl, rfl⟩ ?_⟩
    exact le_refl _
  | dequeueRead pos =>
    have less : pos ≤ s.queue.dequeuePos := ok
    have headLe := shared.tickets.head_le
    have next : addSize pos 1 = pos + 1 := addSize_of_lt (by omega)
    obtain ⟨old, found, -⟩ := shared.ring.slot_eq pos
    rw [LockFreeCurcularQueue.advance, found, ok_bind, next]
    by_cases full : castIntptr (s.queue.sequenceAt pos) - castIntptr (pos + 1) = 0
    · refine ⟨_, _, if_pos full, consistent.look runs ⟨rfl, rfl⟩ ⟨rfl, rfl⟩ ⟨less, fun _ => ?_⟩⟩
      exact castIntptr_inj (shared.tickets.small pos) (by omega) full
    · simp only [if_neg full]
      by_cases behind : castIntptr (s.queue.sequenceAt pos) - castIntptr (pos + 1) < 0
      · exact ⟨_, _, if_pos behind, consistent.giveUp runs ⟨rfl, rfl⟩⟩
      · exact ⟨_, _, if_neg behind, consistent.look runs ⟨rfl, rfl⟩ ⟨rfl, rfl⟩ trivial⟩
  | dequeueSwap pos =>
    rw [LockFreeCurcularQueue.advance]
    by_cases wins : spurious = false ∧ s.queue.dequeuePos = pos
    · have next : addSize pos 1 = pos + 1 := addSize_of_lt (by omega)
      refine ⟨_, _, if_pos wins, consistent.inside, ?_, ?_⟩
      · refine shared.win_dequeue runs wins.2 ⟨shared.ring.size, shared.ring.mask,
          shared.ring.several, shared.ring.small⟩ rfl next (fun _ => rfl) (fun _ => rfl)
      · refine consistent.few.stop runs ?_ _ (.inr ⟨⟨rfl, rfl⟩, ?_⟩)
        · rintro _ ⟨⟩ waits
          cases waits.2
        · show s.queue.enqueuePos + addSize pos 1 = _
          omega
    · refine ⟨_, _, if_neg wins, consistent.look runs ⟨rfl, rfl⟩ ⟨rfl, rfl⟩ ?_⟩
      exact le_refl _
  | dequeueTake pos =>
    obtain ⟨data, found, there⟩ := shared.ring.slot_eq pos
    rw [LockFreeCurcularQueue.advance, found, ok_bind]
    refine ⟨_, _, rfl, consistent.inside, shared.take runs there, ?_⟩
    refine consistent.few.stop runs ?_ _ (.inl rfl)
    rintro _ ⟨⟩ waits
    cases waits.2
  | dequeueRelease pos data =>
    have less : pos < s.queue.dequeuePos := ok.1
    have small := shared.ring.small
    have next : addSize pos s.queue.buffer.length = pos + 2 ^ exponent := by
      rw [shared.ring.size]
      exact addSize_of_lt (by omega)
    rw [LockFreeCurcularQueue.advance, next]
    refine ⟨_, _, rfl, consistent.inside, shared.release runs (by omega), ?_⟩
    exact consistent.few.stop runs (by rintro _ ⟨⟩) _ (.inl rfl)

/-- No operation is forgotten. -/
theorem Concurrent.started_le {act : Act Thread Value} {after : Concurrent Thread Value}
    (steps : s.step act = some after) : s.started ≤ after.started := by
  cases act with
  | enqueue thread data =>
    simp only [Concurrent.step, Concurrent.begin] at steps
    split at steps
    · rw [← Option.some.inj steps]
      exact Nat.le_succ _
    · cases steps
  | dequeue thread =>
    simp only [Concurrent.step, Concurrent.begin] at steps
    split at steps
    · rw [← Option.some.inj steps]
      exact Nat.le_succ _
    · cases steps
  | proceed thread spurious =>
    simp only [Concurrent.step] at steps
    split at steps
    · split at steps
      · cases steps
      · split at steps
        · rw [← Option.some.inj steps]
        · rw [← Option.some.inj steps]
    · cases steps

/-- A step of any thread keeps the ring consistent. -/
theorem Consistent.step (consistent : Consistent exponent s) {act : Act Thread Value}
    {after : Concurrent Thread Value} (total : after.started < 2 ^ 63)
    (steps : s.step act = some after) : Consistent exponent after := by
  have before := (Concurrent.started_le steps).trans_lt total
  cases act with
  | enqueue thread data => exact consistent.begin steps ⟨rfl, rfl⟩ trivial
  | dequeue thread => exact consistent.begin steps ⟨rfl, rfl⟩ trivial
  | proceed thread spurious =>
    simp only [Concurrent.step] at steps
    rw [if_pos consistent.inside] at steps
    cases runs : s.running thread with
    | none =>
      rw [runs] at steps
      cases steps
    | some frame =>
      obtain ⟨queue, next, advances, kept⟩ := consistent.advance before runs spurious
      simp only [runs, advances] at steps
      obtain rfl := Option.some.inj steps
      exact kept

end

/-! ### The main theorem -/

/-- A ring that nobody has used. -/
theorem consistent_start {q : LockFreeCurcularQueue Value} {exponent : Nat}
    (holds : q.Holds exponent []) (head : q.dequeuePos = 0) (several : 1 ≤ exponent)
    (small : exponent ≤ 62) :
    Consistent exponent (Concurrent.start q : Concurrent Thread Value) := by
  have tail : q.enqueuePos = 0 := by rw [holds.tail, head]; rfl
  have ring : q.Ring exponent :=
    ⟨holds.size, holds.mask, Nat.pow_le_pow_right Nat.two_pos several,
      Nat.pow_le_pow_right Nat.two_pos small⟩
  have sequence : ∀ pos, q.sequenceAt pos = pos % 2 ^ exponent := by
    intro pos
    have inside : pos % 2 ^ exponent < 2 ^ exponent := Nat.mod_lt _ (Nat.two_pow_pos _)
    obtain ⟨data, there⟩ := holds.free (pos % 2 ^ exponent) (Nat.zero_le _) inside
    rw [head, Nat.zero_add, Nat.mod_mod] at there
    rw [sequenceAt, holds.mask, Nat.and_two_pow_sub_one_eq_mod, there]
  have below : ∀ pos, q.sequenceAt pos ≤ pos := fun pos => by
    rw [sequence]
    exact Nat.mod_le _ _
  refine ⟨rfl, ⟨ring, ?_, ?_, ?_⟩, ⟨∅, ?_, ?_⟩⟩
  · refine ⟨by rw [Concurrent.start, head]; exact Nat.zero_le _, ?_, ?_, ?_, ?_, ?_, ?_, ?_⟩
    · intro pos
      have := Nat.mod_lt pos (Nat.two_pow_pos exponent)
      have := ring.small
      show q.sequenceAt pos < 2 ^ 64
      rw [sequence]
      omega
    · intro pos _
      rw [Concurrent.start, tail]
      exact Nat.zero_le _
    · intro pos _
      rw [Concurrent.start, head]
      exact Nat.zero_le _
    · intro pos later
      exact absurd later (not_lt.mpr (below pos))
    · intro pos later
      exact absurd (Nat.lt_of_succ_lt later) (not_lt.mpr (below pos))
    · intro pos _ less
      rw [Concurrent.start, tail] at less
      cases less
    · intro pos _ less
      rw [Concurrent.start, head] at less
      cases less
  · exact ⟨by rintro _ _ ⟨⟩, by rintro _ _ _ _ _ ⟨⟩, by rintro _ _ _ _ _ ⟨⟩⟩
  · refine ⟨?_, by simp [Concurrent.start], by simp [Concurrent.start],
      by simp [Concurrent.start], by simp [Concurrent.start], by simp [Concurrent.start],
      by simp [Concurrent.start, dequeued], by simp [Concurrent.start, dequeued],
      by simp [Concurrent.start]⟩
    intro pos
    simp [Concurrent.start, tail]
  · intro thread
    simp [Concurrent.start]
  · simp [Concurrent.start, tail, head]

/-- In every run of fewer than `2 ^ 63` operations the ring stays consistent. -/
theorem consistent_run [DecidableEq Thread] {q : LockFreeCurcularQueue Value} {exponent : Nat}
    (initially : Consistent exponent (Concurrent.start q : Concurrent Thread Value))
    {acts : List (Act Thread Value)} {s : Concurrent Thread Value}
    (isRun : Run (StepOf Concurrent.step) (Concurrent.start q) acts s)
    (total : s.started < 2 ^ 63) : Consistent exponent s := by
  induction isRun with
  | nil => exact initially
  | snoc _ last inductionHypothesis =>
    have before := (Concurrent.started_le last).trans_lt total
    exact (inductionHypothesis before).step total last

/-- Two threads and two slots: a value goes in and comes out while a second one is written. -/
def twoThreads : List (Act (Fin 2) Nat) :=
  [.enqueue 0 7, .proceed 0 false, .proceed 0 false, .proceed 0 true, .proceed 0 false,
    .proceed 0 false, .proceed 0 false, .proceed 0 false, .dequeue 1, .enqueue 0 8,
    .proceed 1 false, .proceed 0 false, .proceed 1 false, .proceed 0 false, .proceed 1 false,
    .proceed 0 false, .proceed 0 false, .proceed 1 false]

end

end LockFreeCurcularQueue

end YYNet
