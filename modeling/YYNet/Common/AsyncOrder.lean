/-
This file proves in which order the asynchronous log writes its lines.

A line moves from the call into the ring in the reception buffer, with the ring to
the backstage, with the backstage to the background thread, and from there to the
appender. Each of these is first in, first out, and the background thread takes a new
backstage only when the old one is written. So read from the appender backwards to
the call, the log holds the lines in the order in which they were appended.

Lines leave this chain in one place. The background thread looks whether there is a
reception buffer and makes one if not, and it does not hold the lock. When the
logging thread has put a ring there in between, that ring is replaced with the lines
it holds. As long as this does not happen, every line is somewhere in the chain.
-/

import YYNet.Common.AsyncLog

namespace YYNet

open Checked Storage Transition

namespace AsyncLog

/-! ### Where the lines are -/

/-- The lines in a ring, oldest first. -/
def Buffer.content (buffer : Buffer) : List Line :=
  ((buffer.buffer.rotate buffer.dequeuePos).take
    (buffer.enqueuePos - buffer.dequeuePos)).map Slot.data

/-- The lines behind a pointer. -/
def content : Option Buffer → List Line
  | none => []
  | some buffer => buffer.content

/-- The lines in several buffers. -/
def contents (buffers : List (Option Buffer)) : List Line := buffers.flatMap content

/-- The line the logging thread has not stored yet. -/
def Logger.inHand : Logger → List Line
  | .idle => []
  | .testing line | .locking line | .pushing line | .unlocking line | .replacing line
  | .moving line | .making line | .storing line | .falling line => [line]

/-- All lines the log has, from the appender backwards to the call. -/
def flow (s : AsyncLog) : List Line :=
  lines s.output ++ contents s.writeBuffer ++ contents s.backstageBuffers ++
    content s.receptionBuffer ++ s.logger.inHand

/-- The background thread does not replace a reception buffer with lines in it. -/
def SparesReception (s : AsyncLog) : Act → Prop
  | .background => s.background = .makingReception → content s.receptionBuffer = []
  | _ => True

instance sparesReceptionDecidable (s : AsyncLog) : (act : Act) → Decidable (SparesReception s act)
  | .background => inferInstanceAs (Decidable (_ → _))
  | .append _ | .logger | .destroy | .join => .isTrue trivial

/-! ### Rings -/

theorem content_of_holds {buffer : Buffer} {exponent : Nat} {items : List Line}
    (holds : buffer.Holds exponent items) : buffer.content = items := by
  have tail := holds.tail
  have bounded := holds.bounded
  refine List.ext_getElem? fun offset => ?_
  rw [Buffer.content, List.getElem?_map, tail, Nat.add_sub_cancel_left]
  by_cases inside : offset < items.length
  · have there := holds.held offset items[offset] (List.getElem?_eq_getElem inside)
    rw [List.getElem?_take_of_lt inside,
      List.getElem?_rotate (by rw [holds.size]; omega), holds.size, Nat.add_comm, there,
      List.getElem?_eq_getElem inside]
    rfl
  · rw [List.getElem?_eq_none (by simpa using .inl (not_lt.mp inside)),
      List.getElem?_eq_none (not_lt.mp inside)]
    rfl

/-- A ring gives its oldest line, or is empty. -/
theorem Sound.content_retrieve {buffer after : Buffer} {taken : Option Line}
    (sound : Sound buffer) (retrieves : buffer.retrieve = some (after, taken)) :
    buffer.content = taken.toList ++ after.content ∧ (taken = none → buffer.content = []) := by
  have retrieves : buffer.dequeue = some (after, taken) := retrieves
  rcases sound with ⟨none, -⟩ | ⟨exponent, items, several, small, holds, bounded⟩
  · rw [LockFreeCurcularQueue.dequeue, LockFreeCurcularQueue.slot, none] at retrieves
    cases retrieves
  · have most : 2 ^ exponent ≤ 2 ^ 62 := Nat.pow_le_pow_right Nat.two_pos small
    have tail := holds.tail
    cases items with
    | nil =>
      rw [holds.dequeue_empty (by omega)] at retrieves
      obtain ⟨rfl, rfl⟩ := Prod.mk.inj (Option.some.inj retrieves)
      exact ⟨rfl, fun _ => content_of_holds holds⟩
    | cons item rest =>
      obtain ⟨released, isTaken, releasedHolds, -⟩ := holds.dequeue_cons small (by omega)
      rw [isTaken] at retrieves
      obtain ⟨rfl, rfl⟩ := Prod.mk.inj (Option.some.inj retrieves)
      rw [content_of_holds holds, content_of_holds releasedHolds]
      exact ⟨rfl, by rintro ⟨⟩⟩

/-- A line that is accepted stands behind the others. -/
theorem Filling.content_append {buffer after : Buffer} {line : Line} (filling : Filling buffer)
    (accepted : buffer.append line = some (after, true)) :
    after.content = buffer.content ++ [line] := by
  have accepted : buffer.enqueue line = some (after, true) := accepted
  obtain ⟨none | ⟨exponent, items, several, small, holds, bounded⟩, head⟩ := filling
  · rw [LockFreeCurcularQueue.enqueue_none none.1] at accepted
    cases accepted
  · have most : 2 ^ exponent ≤ 2 ^ 62 := Nat.pow_le_pow_right Nat.two_pos small
    have tail := holds.tail
    have room : items.length < 2 ^ exponent := by
      refine lt_of_le_of_ne holds.bounded fun isFull => ?_
      rw [holds.enqueue_full several (by omega) isFull] at accepted
      cases accepted
    obtain ⟨stored, isStored, storedHolds, -⟩ := holds.enqueue_room (by omega) room line
    rw [isStored] at accepted
    obtain rfl : stored = after := congrArg Prod.fst (Option.some.inj accepted)
    rw [content_of_holds holds, content_of_holds storedHolds]

/-- What the constructor of a ring builds holds nothing. -/
theorem Fresh.content {fresh : Buffer} (isFresh : Fresh fresh) : fresh.content = [] := by
  have none : fresh.enqueuePos - fresh.dequeuePos = 0 := by
    have empty := isFresh.empty
    have head := isFresh.filling.2
    rw [held, LockFreeCurcularQueue.getRemainCapacity, subSize_of_le (by omega)] at empty
    exact empty
  rw [Buffer.content, none, List.take_zero, List.map_nil]

theorem contents_cons (first : Option Buffer) (rest : List (Option Buffer)) :
    contents (first :: rest) = content first ++ contents rest :=
  List.flatMap_cons

/-! ### One step -/

/-- Whether the background thread may have buffers to write. -/
def Background.holding : Background → Bool
  | .unlocking | .testingSpare | .makingSpare | .testingReception | .makingReception
  | .draining => true
  | _ => false

/-- Whether the logging thread has given its ring away and not got another one. -/
def Logger.replaces : Logger → Bool
  | .unlocking _ | .replacing _ | .moving _ | .making _ => true
  | _ => false

/-- What keeps the chain in order: nothing goes through the secondary buffer, the background thread
takes no backstage before the old one is written, and a ring that is still to be replaced holds
nothing. -/
structure Chained (s : AsyncLog) : Prop where
  secondary : s.secondaryBuffer = []
  temp : s.background.temp = []
  written : s.background.holding = false → s.writeBuffer = []
  replaced : s.logger.replaces = true → content s.receptionBuffer = []

section

variable {fresh : Buffer} {s after : AsyncLog}

/-- A step of `append` moves lines and loses none. -/
theorem Chained.appendStep (isFresh : Fresh fresh) (accounted : Accounted fresh s)
    (chained : Chained s) (steps : s.appendStep fresh = some after) :
    Chained after ∧ after.flow = s.flow ∧ after.appended = s.appended := by
  obtain ⟨secondary, temp, written, replaced⟩ := chained
  unfold AsyncLog.appendStep at steps
  cases logger : s.logger with
  | idle =>
    rw [logger] at steps
    cases steps
  | testing line =>
    rw [logger] at steps
    obtain ⟨buffer, -, rfl⟩ := Option.map_eq_some_iff.mp steps
    cases buffer.full with
    | true =>
      refine ⟨⟨secondary, temp, written, by rintro ⟨⟩⟩, ?_, rfl⟩
      simp [flow, logger, Logger.inHand]
    | false =>
      refine ⟨⟨secondary, temp, written, by rintro ⟨⟩⟩, ?_, rfl⟩
      simp [flow, logger, Logger.inHand]
  | locking line =>
    rw [logger] at steps
    simp only at steps
    split at steps
    · cases steps
    · obtain rfl := Option.some.inj steps
      refine ⟨⟨secondary, temp, written, by rintro ⟨⟩⟩, ?_, rfl⟩
      simp [flow, logger, Logger.inHand]
  | pushing line =>
    rw [logger] at steps
    obtain rfl := Option.some.inj steps
    refine ⟨⟨secondary, temp, written, fun _ => rfl⟩, ?_, rfl⟩
    simp [flow, logger, Logger.inHand, contents, content]
  | unlocking line =>
    rw [logger] at steps
    obtain rfl := Option.some.inj steps
    refine ⟨⟨secondary, temp, written, fun _ => replaced (by rw [logger]; rfl)⟩, ?_, rfl⟩
    simp [flow, logger, Logger.inHand]
  | replacing line =>
    rw [logger] at steps
    obtain rfl := Option.some.inj steps
    have none : content s.receptionBuffer = [] := replaced (by rw [logger]; rfl)
    refine ⟨⟨secondary, temp, written, fun _ => none⟩, ?_, rfl⟩
    simp only [flow, logger]
    split <;> rfl
  | moving line =>
    rw [logger] at steps
    obtain rfl := Option.some.inj steps
    have none : content s.receptionBuffer = [] := replaced (by rw [logger]; rfl)
    have empty : content s.spareBuffer = [] := by
      cases isSpare : s.spareBuffer with
      | none => rfl
      | some buffer =>
        rw [accounted.spare buffer isSpare]
        exact isFresh.content
    refine ⟨⟨secondary, temp, written, by rintro ⟨⟩⟩, ?_, rfl⟩
    simp [flow, logger, Logger.inHand, none, empty]
  | making line =>
    rw [logger] at steps
    obtain rfl := Option.some.inj steps
    have none : content s.receptionBuffer = [] := replaced (by rw [logger]; rfl)
    have empty : content (some fresh) = [] := isFresh.content
    refine ⟨⟨secondary, temp, written, by rintro ⟨⟩⟩, ?_, rfl⟩
    simp [flow, logger, Logger.inHand, none, empty]
  | storing line =>
    rw [logger] at steps
    cases isReception : s.receptionBuffer with
    | none =>
      rw [isReception] at steps
      cases steps
    | some buffer =>
      rw [isReception] at steps
      obtain ⟨⟨ring, isAccepted⟩, appends, rfl⟩ := Option.map_eq_some_iff.mp steps
      cases isAccepted with
      | false => exact absurd appends (accounted.room line logger buffer isReception ring)
      | true =>
        have more := (accounted.reception buffer isReception).content_append appends
        refine ⟨⟨secondary, temp, written, by rintro ⟨⟩⟩, ?_, rfl⟩
        simp [flow, logger, isReception, Logger.inHand, content, more]
  | falling line => exact absurd logger (accounted.accepted line)

/-- A step of `loop` moves lines, and loses some only where it replaces a ring that holds them. -/
theorem Chained.loopStep (isFresh : Fresh fresh) (accounted : Accounted fresh s)
    (chained : Chained s) (steps : s.loopStep fresh = some after) :
    Chained after ∧ after.appended = s.appended ∧ after.flow.Sublist s.flow ∧
      (after.flow = s.flow ↔ SparesReception s .background) := by
  obtain ⟨secondary, temp, written, replaced⟩ := chained
  -- Where no ring is made for the reception, all lines stay in the chain.
  have stays (elsewhere : s.background ≠ .makingReception) (kept : Chained after)
      (sameAppended : after.appended = s.appended) (sameFlow : after.flow = s.flow) :
      Chained after ∧ after.appended = s.appended ∧ after.flow.Sublist s.flow ∧
        (after.flow = s.flow ↔ SparesReception s .background) :=
    ⟨kept, sameAppended, sameFlow ▸ List.Sublist.refl _,
      iff_of_true sameFlow fun making => absurd making elsewhere⟩
  unfold AsyncLog.loopStep at steps
  cases background : s.background with
  | starting =>
    rw [background] at steps stays written
    obtain rfl := Option.some.inj steps
    exact stays (by rintro ⟨⟩) ⟨secondary, rfl, written, replaced⟩ rfl rfl
  | checking =>
    rw [background] at steps stays written
    obtain rfl := Option.some.inj steps
    refine stays (by rintro ⟨⟩) ⟨secondary, ?_, fun _ => written rfl, replaced⟩ rfl rfl
    show Background.temp (if s.isRunning then .locking else .ended) = []
    split <;> rfl
  | locking =>
    rw [background] at steps stays written
    simp only at steps
    split at steps
    · cases steps
    · obtain rfl := Option.some.inj steps
      exact stays (by rintro ⟨⟩) ⟨secondary, rfl, written, replaced⟩ rfl rfl
  | swapping =>
    rw [background] at steps stays written
    simp only at steps
    split at steps
    · obtain rfl := Option.some.inj steps
      exact stays (by rintro ⟨⟩) ⟨secondary, rfl, by rintro ⟨⟩, replaced⟩ rfl rfl
    · obtain rfl := Option.some.inj steps
      refine stays (by rintro ⟨⟩) ⟨secondary, rfl, by rintro ⟨⟩, replaced⟩ rfl ?_
      simp [flow, written rfl, contents]
  | unlocking =>
    rw [background] at steps stays
    obtain rfl := Option.some.inj steps
    exact stays (by rintro ⟨⟩) ⟨secondary, rfl, by rintro ⟨⟩, replaced⟩ rfl rfl
  | testingSpare =>
    rw [background] at steps stays
    obtain rfl := Option.some.inj steps
    refine stays (by rintro ⟨⟩) ?_ rfl rfl
    cases s.spareBuffer.isNone
    · exact ⟨secondary, rfl, by rintro ⟨⟩, replaced⟩
    · exact ⟨secondary, rfl, by rintro ⟨⟩, replaced⟩
  | makingSpare =>
    rw [background] at steps stays
    obtain rfl := Option.some.inj steps
    exact stays (by rintro ⟨⟩) ⟨secondary, rfl, by rintro ⟨⟩, replaced⟩ rfl rfl
  | testingReception =>
    rw [background] at steps stays
    obtain rfl := Option.some.inj steps
    refine stays (by rintro ⟨⟩) ?_ rfl rfl
    cases s.receptionBuffer.isNone
    · exact ⟨secondary, rfl, by rintro ⟨⟩, replaced⟩
    · exact ⟨secondary, rfl, by rintro ⟨⟩, replaced⟩
  | makingReception =>
    rw [background] at steps
    obtain rfl := Option.some.inj steps
    have empty : content (some fresh) = [] := isFresh.content
    have shape : s.flow = (lines s.output ++ contents s.writeBuffer ++
        contents s.backstageBuffers) ++ content s.receptionBuffer ++ s.logger.inHand := rfl
    have replacedFlow : flow { s with
        receptionBuffer := some fresh
        background := .draining } = (lines s.output ++ contents s.writeBuffer ++
          contents s.backstageBuffers) ++ s.logger.inHand := by
      simp [flow, empty]
    refine ⟨⟨secondary, rfl, by rintro ⟨⟩, fun _ => empty⟩, rfl, ?_, ?_⟩
    · rw [shape, replacedFlow]
      exact (List.sublist_append_left _ _).append (List.Sublist.refl _)
    · rw [shape, replacedFlow, List.append_left_inj, List.self_eq_append_right]
      exact ⟨fun none _ => none, fun spares => spares background⟩
  | draining =>
    rw [background] at steps stays
    simp only at steps
    split at steps
    · rename_i shape
      obtain rfl := Option.some.inj steps
      exact stays (by rintro ⟨⟩) ⟨secondary, rfl, fun _ => shape, replaced⟩ rfl rfl
    · rename_i rest shape
      obtain rfl := Option.some.inj steps
      refine stays (by rintro ⟨⟩) ⟨secondary, rfl, by rintro ⟨⟩, replaced⟩ rfl ?_
      simp [flow, shape, contents_cons, content]
    · rename_i buffer rest shape
      have sound : Sound buffer :=
        accounted.stored buffer (.inr (by rw [shape]; exact List.mem_cons_self))
      split at steps
      · cases steps
      · rename_i ring line taken
        obtain rfl := Option.some.inj steps
        refine stays (by rintro ⟨⟩) ⟨secondary, rfl, by rintro ⟨⟩, replaced⟩ rfl ?_
        have split := (sound.content_retrieve taken).1
        simp [flow, shape, contents_cons, content, split, lines]
      · rename_i ring taken
        obtain rfl := Option.some.inj steps
        refine stays (by rintro ⟨⟩) ⟨secondary, rfl, by rintro ⟨⟩, replaced⟩ rfl ?_
        have empty := (sound.content_retrieve taken).2 rfl
        simp [flow, shape, contents_cons, content, empty]
  | gathering =>
    rw [background] at steps stays written
    obtain rfl := Option.some.inj steps
    exact stays (by rintro ⟨⟩) ⟨rfl, secondary, fun _ => written rfl, replaced⟩ rfl rfl
  | writing rest =>
    rw [background] at steps stays written temp
    obtain rfl : rest = [] := temp
    obtain rfl := Option.some.inj steps
    exact stays (by rintro ⟨⟩) ⟨secondary, rfl, written, replaced⟩ rfl rfl
  | ended =>
    rw [background] at steps
    cases steps

/-- The line a call brings. -/
def Act.brought : Act → List Line
  | .append line => [line]
  | _ => []

/-- Every step keeps the chain in order. What it holds stays, with the line of a call behind it, if
and only if no ring with lines in it is replaced, and otherwise some of it stays. -/
theorem Chained.step {build : Build} (isFresh : Fresh fresh) (accounted : Accounted fresh s)
    (chained : Chained s) {act : Act} (steps : s.step build fresh act = some after) :
    Chained after ∧ after.appended = s.appended ++ act.brought ∧
      after.flow.Sublist (s.flow ++ act.brought) ∧
      (after.flow = s.flow ++ act.brought ↔ SparesReception s act) := by
  cases act with
  | append line =>
    simp only [AsyncLog.step] at steps
    split at steps
    · rename_i guard
      obtain rfl := Option.some.inj steps
      have whole : flow { s with
          logger := .testing line
          appended := s.appended ++ [line] } = s.flow ++ [line] := by
        simp [flow, guard.1, Logger.inHand]
      exact ⟨⟨chained.secondary, chained.temp, chained.written, by rintro ⟨⟩⟩, rfl,
        whole ▸ List.Sublist.refl _, iff_of_true whole trivial⟩
    · cases steps
  | logger =>
    obtain ⟨kept, whole, same⟩ := chained.appendStep isFresh accounted steps
    simp only [Act.brought, List.append_nil]
    exact ⟨kept, same, whole ▸ List.Sublist.refl _, iff_of_true whole trivial⟩
  | background =>
    obtain ⟨kept, same, sublist, spares⟩ := chained.loopStep isFresh accounted steps
    simp only [Act.brought, List.append_nil]
    exact ⟨kept, same, sublist, spares⟩
  | destroy =>
    simp only [AsyncLog.step] at steps
    split at steps
    · obtain rfl := Option.some.inj steps
      simp only [Act.brought, List.append_nil]
      exact ⟨⟨chained.secondary, chained.temp, chained.written, chained.replaced⟩, trivial,
        List.Sublist.refl _, iff_of_true rfl trivial⟩
    · cases steps
  | join =>
    simp only [AsyncLog.step] at steps
    split at steps
    · obtain rfl := Option.some.inj steps
      have whole : flow { s with
          destructor := .returned
          output := s.output ++ [.closing] } = s.flow := by
        simp [flow, lines]
      simp only [Act.brought, List.append_nil]
      exact ⟨⟨chained.secondary, chained.temp, chained.written, chained.replaced⟩, trivial,
        whole ▸ List.Sublist.refl _, iff_of_true whole trivial⟩
    · cases steps

theorem chained_start (isFresh : Fresh fresh) :
    Chained (start fresh) ∧ (start fresh).flow = [] := by
  have empty : content (some fresh) = [] := isFresh.content
  exact ⟨⟨rfl, rfl, fun _ => rfl, by rintro ⟨⟩⟩, by simp [flow, start, empty, lines, contents,
    Logger.inHand]⟩

end

/-! ### A run -/

/-- The state is accounted for, its chain is in order and holds lines in the order of the calls. -/
structure InOrder (fresh : Buffer) (s : AsyncLog) : Prop where
  accounted : Accounted fresh s
  chained : Chained s
  ordered : s.flow.Sublist s.appended

/-- Every line is in the chain. -/
structure Whole (fresh : Buffer) (s : AsyncLog) : Prop where
  inOrder : InOrder fresh s
  whole : s.flow = s.appended

/-- For every size of the buffers that is at least two and admitted, every sequence of calls of
`append` and every order of the steps of the two threads: the lines passed to the appender are lines
of the program in the order of the calls, each once at most, and so are they together with those in
the buffers. None has dropped out in any state of a run, if and only if the background thread never
replaces a reception buffer with lines in it. -/
theorem written_in_order (build : Build) (bufferSize : Nat) (least : 2 ≤ bufferSize)
    (isSize : bufferSize < 2 ^ 64) (fresh : Buffer)
    (created : LockFreeCurcularQueue.create build 40 bufferSize = .ok fresh) (acts : List Act)
    (s : AsyncLog) (isRun : Run (StepOf (step build fresh)) (start fresh) acts s) :
    (lines s.output).Sublist s.appended ∧ s.flow.Sublist s.appended ∧
      ((∀ before, before <+: acts → ∀ state,
          Run (StepOf (step build fresh)) (start fresh) before state →
            state.flow = state.appended) ↔
        Meets (StepOf (step build fresh)) SparesReception (start fresh) acts) := by
  have isFresh := fresh_of_create least isSize created
  obtain ⟨chainedStart, emptyStart⟩ := chained_start isFresh
  have keeps : ∀ state action next, InOrder fresh state →
      StepOf (step build fresh) state action next → InOrder fresh next := by
    rintro state action next ⟨accounted, chained, ordered⟩ steps
    obtain ⟨kept, appended, fewer, -⟩ := chained.step isFresh accounted steps
    refine ⟨accounted.step isFresh steps, kept, fewer.trans ?_⟩
    rw [appended]
    exact ordered.append (List.Sublist.refl _)
  have initially : InOrder fresh (start fresh) :=
    ⟨accounted_start isFresh, chainedStart, by rw [emptyStart]; exact List.nil_sublist _⟩
  have inOrder := isRun.invariant_of_step initially keeps
  have written : (lines s.output).Sublist s.flow := by
    simp only [flow, List.append_assoc]
    exact List.sublist_append_left _ _
  refine ⟨written.trans inOrder.ordered, inOrder.ordered, ?_⟩
  refine isRun.always_iff (stepOf_deterministic _) (Whole.mk initially emptyStart)
    (fun _ good => good.whole) ?_ ?_
  · rintro state action next - ⟨good, whole⟩ spares steps
    obtain ⟨-, appended, -, same⟩ := good.chained.step isFresh good.accounted steps
    exact ⟨keeps _ _ _ good steps, by rw [same.mpr spares, appended, whole]⟩
  · rintro state action next - ⟨good, whole⟩ steps nextWhole
    obtain ⟨-, appended, -, same⟩ := good.chained.step isFresh good.accounted steps
    exact same.mp (by rw [nextWhole, appended, whole])

/-- The background thread finds no reception buffer, the logging thread gets one and stores its line
there, and the background thread replaces it. -/
def replacedRing : List Act :=
  List.flatten [
    .append [97] :: List.replicate 2 .logger,
    .append [98] :: List.replicate 2 .logger,
    .append [99] :: List.replicate 4 .logger,
    List.replicate 7 .background,
    List.replicate 3 .logger,
    List.replicate 4 .background]

/-- The two lines in front are written, and the third one is nowhere. -/
theorem written_in_order_replaced : ∃ s,
    exec (step .debug twoSlots) (start twoSlots) replacedRing = some s ∧
      s.appended = [[97], [98], [99]] ∧ s.flow = [[97], [98]] ∧
      (lines s.output).Sublist s.appended ∧
      ¬ Meets (StepOf (step .debug twoSlots)) SparesReception (start twoSlots) replacedRing := by
  have done : ((exec (step .debug twoSlots) (start twoSlots) replacedRing).map fun s =>
      (s.appended, s.flow)) = some ([[97], [98], [99]], [[97], [98]]) := by decide +kernel
  obtain ⟨s, executed, same⟩ := Option.map_eq_some_iff.mp done
  have given : s.appended = [[97], [98], [99]] := congrArg Prod.fst same
  have kept : s.flow = [[97], [98]] := congrArg Prod.snd same
  obtain ⟨ordered, -, spares⟩ := written_in_order .debug 2 (by decide) (by decide) twoSlots
    (by decide +kernel) replacedRing s (run_of_exec executed)
  refine ⟨s, executed, given, kept, ordered, fun meets => ?_⟩
  have whole := spares.mpr meets replacedRing List.prefix_rfl s (run_of_exec executed)
  rw [given, kept] at whole
  exact absurd whole (by decide)

end AsyncLog

end YYNet
