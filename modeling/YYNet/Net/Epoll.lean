/-
This file models the registration of event handlers with `Epoll` and proves
when it means what the handlers ask for.

`operator_epoll` passes the handler's own mask to `epoll_ctl` unchanged. The
bits for reading, exceptional data and writing have the kernel's positions;
those for a half-closed peer, edge triggering and one-shot delivery do not.
The bookkeeping is exact: along any run the handlers in the `Added` state, the
map of the poller and the interest list of the kernel agree. The kernel's mask
means what the handler asked for, in every state of a run, if and only if no
handler is added, or updated, with one of the three displaced bits set.
-/

import YYNet.Lib.Transition
import YYNet.Net.Event

namespace YYNet

open Transition

/-! ### Handlers, poller and kernel -/

/-- The status of a handler: `New`, `Added` or `Delete`. -/
inductive HandlerStatus
  | new
  | added
  | delete
  deriving DecidableEq, Repr

/-- The part of `EventHandler` the poller looks at. -/
structure EventHandler where
  status : HandlerStatus
  events : Event
  deriving DecidableEq, Repr

/-- `Epoll`: the handlers of a loop, the map `handlers_`, and the interest list of the kernel
with the mask and the pointer given to `epoll_ctl`. -/
structure Epoll (Handler : Type) where
  handler : Handler → EventHandler
  handlers : Nat → Option Handler
  interest : Nat → Option (BitVec 32 × Handler)

/-- The members of `EventHandler` that change the mask and update the registration. -/
inductive EventOp
  | setEvent (event : Event)
  | setReading
  | cancelReading
  | setWriting
  | cancelWriting
  | setExcept
  | cancelExcept
  | disableAll
  deriving DecidableEq, Repr

/-- The calls made on a poller. -/
inductive PollerAction (Handler : Type)
  | addListen (h : Handler)
  | update (h : Handler) (op : EventOp)
  | removeListen (h : Handler)
  deriving DecidableEq, Repr

/-- The mask after the call. -/
def EventOp.apply (e : Event) : EventOp → Event
  | setEvent event => event
  | setReading => e.add .read
  | cancelReading => e.remove .read
  | setWriting => e.add .write
  | cancelWriting => e.remove .write
  | setExcept => e.add .except
  | cancelExcept => e.remove .except
  | disableAll => ⟨0#32⟩

/-- The bits of `epoll_ctl` that a handler can ask for. -/
inductive EpollBit
  | epollIn
  | epollPri
  | epollOut
  | epollRdHup
  | epollEt
  | epollOneShot
  deriving DecidableEq, Repr

namespace EpollBit

/-- The positions Linux gives the bits. -/
def shift : EpollBit → Nat
  | epollIn => 0
  | epollPri => 1
  | epollOut => 2
  | epollRdHup => 13
  | epollEt => 31
  | epollOneShot => 30

def value (bit : EpollBit) : BitVec 32 := 1#32 <<< bit.shift

/-- What a handler asks for with the bit. -/
def logic : EpollBit → LogicEvent
  | epollIn => .read
  | epollPri => .except
  | epollOut => .write
  | epollRdHup => .rdHup
  | epollEt => .edge
  | epollOneShot => .oneShot

end EpollBit

namespace Epoll

variable {Handler : Type} (fd : Handler → Nat)

/-- A poller with no handler added yet. -/
def initial (events : Handler → Event) : Epoll Handler where
  handler h := ⟨.new, events h⟩
  handlers _ := none
  interest _ := none

section

variable [DecidableEq Handler]

/-- One call. It is made when its assertions hold, and `epoll_ctl` does not fail: it adds a
descriptor that is not registered, and changes or removes one that is. -/
def step (s : Epoll Handler) : PollerAction Handler → Option (Epoll Handler)
  | .addListen h =>
    if (s.handler h).status ≠ .added ∧ s.handlers (fd h) = none ∧ s.interest (fd h) = none then
      some {
        handler := Function.update s.handler h { s.handler h with status := .added }
        handlers := Function.update s.handlers (fd h) (some h)
        interest := Function.update s.interest (fd h) (some ((s.handler h).events.events, h)) }
    else none
  | .update h op =>
    if (s.handler h).status = .added ∧ (s.handlers (fd h)).isSome ∧ (s.interest (fd h)).isSome ∧
        (op.apply (s.handler h).events).validate then
      some { s with
        handler := Function.update s.handler h
          { s.handler h with events := op.apply (s.handler h).events }
        interest := Function.update s.interest (fd h)
          (some ((op.apply (s.handler h).events).events, h)) }
    else none
  | .removeListen h =>
    if (s.handler h).status = .added ∧ (s.handlers (fd h)).isSome ∧ (s.interest (fd h)).isSome then
      some {
        handler := Function.update s.handler h { s.handler h with status := .delete }
        handlers := Function.update s.handlers (fd h) none
        interest := Function.update s.interest (fd h) none }
    else none

end

/-! ### What is promised, and when -/

/-- The kernel's masks mean what the added handlers ask for, no other descriptor is registered,
and the poller's map holds exactly the added handlers. -/
structure Faithful (s : Epoll Handler) : Prop where
  masks : ∀ h, (s.handler h).status = .added → ∃ mask, s.interest (fd h) = some (mask, h) ∧
    ∀ bit : EpollBit, (mask &&& bit.value != 0#32) = (s.handler h).events.has bit.logic
  absent : ∀ descriptor, (∀ h, fd h = descriptor → (s.handler h).status ≠ .added) →
    s.interest descriptor = none
  map : ∀ descriptor h, s.handlers descriptor = some h ↔
    fd h = descriptor ∧ (s.handler h).status = .added

/-- A mask with none of the bits the kernel has elsewhere. -/
def Plain (e : Event) : Prop :=
  e.has .rdHup = false ∧ e.has .edge = false ∧ e.has .oneShot = false

/-- The mask the call gives to `epoll_ctl` is plain. -/
def GivesPlain (s : Epoll Handler) : PollerAction Handler → Prop
  | .addListen h => Plain (s.handler h).events
  | .update h op => Plain (op.apply (s.handler h).events)
  | .removeListen _ => True

instance givesPlainDecidable (s : Epoll Handler) : (action : PollerAction Handler) →
    Decidable (GivesPlain s action)
  | .addListen _ => inferInstanceAs (Decidable (_ = _ ∧ _ = _ ∧ _ = _))
  | .update _ _ => inferInstanceAs (Decidable (_ = _ ∧ _ = _ ∧ _ = _))
  | .removeListen _ => .isTrue trivial

/-! ### The books of the poller -/

/-- The interest list and the map agree with the handlers, whose masks are valid. -/
structure Registered (s : Epoll Handler) : Prop where
  added : ∀ h, (s.handler h).status = .added →
    s.handlers (fd h) = some h ∧ s.interest (fd h) = some ((s.handler h).events.events, h)
  mapped : ∀ descriptor h, s.handlers descriptor = some h →
    fd h = descriptor ∧ (s.handler h).status = .added
  listed : ∀ descriptor mask h, s.interest descriptor = some (mask, h) →
    fd h = descriptor ∧ (s.handler h).status = .added
  valid : ∀ h, (s.handler h).events.validate = true

theorem initial_registered (events : Handler → Event)
    (valid : ∀ h, (events h).validate = true) : Registered fd (initial events) :=
  ⟨nofun, nofun, nofun, valid⟩

/-- Two added handlers do not share a descriptor. -/
theorem Registered.unique (s : Epoll Handler) (registered : Registered fd s) (h other : Handler)
    (added : (s.handler h).status = .added) (otherAdded : (s.handler other).status = .added)
    (same : fd other = fd h) : other = h := by
  have first := (registered.added h added).1
  have second := (registered.added other otherAdded).1
  rw [same, first] at second
  exact (Option.some.inj second).symm

/-- The kernel's bits are the handler's bits exactly when the mask is plain. -/
theorem bits_iff (e : Event) (valid : e.validate = true) :
    (∀ bit : EpollBit, (e.events &&& bit.value != 0#32) = e.has bit.logic) ↔ Plain e := by
  have inside (bit : EpollBit) : bit.shift < 32 := by cases bit <;> decide
  have high := (Event.validate_iff e).mp valid
  have displaced (bit : EpollBit) (far : 9 ≤ bit.shift) :
      (e.events &&& bit.value != 0#32) = false := by
    rw [EpollBit.value, Event.mask_ne_zero _ _ (inside bit)]
    exact high _ far
  constructor
  · intro same
    exact ⟨(same .epollRdHup).symm.trans (displaced .epollRdHup (by decide)),
      (same .epollEt).symm.trans (displaced .epollEt (by decide)),
      (same .epollOneShot).symm.trans (displaced .epollOneShot (by decide))⟩
  · rintro ⟨rdHup, edge, oneShot⟩ bit
    cases bit with
    | epollIn | epollPri | epollOut => rfl
    | epollRdHup =>
      rw [displaced .epollRdHup (by decide)]
      exact rdHup.symm
    | epollEt =>
      rw [displaced .epollEt (by decide)]
      exact edge.symm
    | epollOneShot =>
      rw [displaced .epollOneShot (by decide)]
      exact oneShot.symm

/-- With the books in order, the registration is faithful exactly when every added handler's
mask is plain. -/
theorem faithful_iff (s : Epoll Handler) (registered : Registered fd s) :
    Faithful fd s ↔ ∀ h, (s.handler h).status = .added → Plain (s.handler h).events := by
  constructor
  · intro faithful h added
    obtain ⟨mask, listed, bits⟩ := faithful.masks h added
    rw [(registered.added h added).2] at listed
    obtain ⟨rfl, -⟩ := Prod.mk.inj (Option.some.inj listed)
    exact (bits_iff _ (registered.valid h)).mp bits
  · intro plain
    refine ⟨fun h added => ⟨_, (registered.added h added).2,
      (bits_iff _ (registered.valid h)).mpr (plain h added)⟩, fun descriptor nobody => ?_,
      fun descriptor h => ⟨registered.mapped descriptor h, ?_⟩⟩
    · cases entry : s.interest descriptor with
      | none => rfl
      | some pair =>
        obtain ⟨same, added⟩ := registered.listed descriptor pair.1 pair.2 entry
        exact absurd added (nobody pair.2 same)
    · rintro ⟨rfl, added⟩
      exact (registered.added h added).1

section

variable [DecidableEq Handler]

/-- Give a handler a status and a mask, and its descriptor an entry in the map and in the
interest list if the status is `Added`. -/
def write (s : Epoll Handler) (h : Handler) (record : EventHandler) : Epoll Handler where
  handler := Function.update s.handler h record
  handlers := Function.update s.handlers (fd h) (if record.status = .added then some h else none)
  interest := Function.update s.interest (fd h)
    (if record.status = .added then some (record.events.events, h) else none)

/-- No other added handler has the descriptor of `h`. -/
def Alone (s : Epoll Handler) (h : Handler) : Prop :=
  ∀ other, other ≠ h → (s.handler other).status = .added → fd other ≠ fd h

/-- Every call writes one handler whose descriptor no other added handler has. -/
theorem step_cases (s t : Epoll Handler) (action : PollerAction Handler)
    (registered : Registered fd s) (taken : s.step fd action = some t) :
    ∃ h record, t = s.write fd h record ∧ Alone fd s h ∧ record.events.validate = true ∧
      (GivesPlain s action ↔ (record.status = .added → Plain record.events)) := by
  have alone (h : Handler) (added : (s.handler h).status = .added) : Alone fd s h :=
    fun other isOther otherAdded same =>
      isOther (registered.unique fd s h other added otherAdded same)
  cases action with
  | addListen h =>
    simp only [step] at taken
    split at taken
    · rename_i allowed
      obtain rfl := Option.some.inj taken
      refine ⟨h, { s.handler h with status := .added }, rfl, fun other _ otherAdded same => ?_,
        registered.valid h, ⟨fun plain _ => plain, fun plain => plain rfl⟩⟩
      have taken := (registered.added other otherAdded).1
      rw [same, allowed.2.1] at taken
      cases taken
    · cases taken
  | update h op =>
    simp only [step] at taken
    split at taken
    · rename_i allowed
      obtain rfl := Option.some.inj taken
      refine ⟨h, { s.handler h with events := op.apply (s.handler h).events }, ?_,
        alone h allowed.1, allowed.2.2.2,
        ⟨fun plain _ => plain, fun plain => plain allowed.1⟩⟩
      have mapped : Function.update s.handlers (fd h) (some h) = s.handlers :=
        Function.update_eq_self_iff.mpr (registered.added h allowed.1).1.symm
      rw [write, if_pos allowed.1, if_pos allowed.1, mapped]
    · cases taken
  | removeListen h =>
    simp only [step] at taken
    split at taken
    · rename_i allowed
      obtain rfl := Option.some.inj taken
      exact ⟨h, { s.handler h with status := .delete }, rfl, alone h allowed.1,
        registered.valid h, ⟨fun _ => nofun, fun _ => trivial⟩⟩
    · cases taken

/-- A write keeps the books. -/
theorem write_registered (s : Epoll Handler) (h : Handler) (record : EventHandler)
    (registered : Registered fd s) (alone : Alone fd s h)
    (valid : record.events.validate = true) : Registered fd (s.write fd h record) := by
  have at_h : (s.write fd h record).handler h = record := Function.update_self _ _ _
  have stays (other : Handler) (isOther : other ≠ h) :
      (s.write fd h record).handler other = s.handler other := Function.update_of_ne isOther _ _
  refine ⟨fun other added => ?_, fun descriptor other mapped => ?_,
    fun descriptor mask other listed => ?_, fun other => ?_⟩
  · by_cases isH : other = h
    · subst isH
      rw [at_h] at added ⊢
      simp [write, added]
    · rw [stays other isH] at added ⊢
      have elsewhere := alone other isH added
      simp only [write, Function.update_of_ne elsewhere]
      exact registered.added other added
  · by_cases here : descriptor = fd h
    · simp only [write, here, Function.update_self] at mapped
      split at mapped
      · obtain rfl := Option.some.inj mapped
        rw [at_h]
        exact ⟨here.symm, ‹_›⟩
      · cases mapped
    · simp only [write, Function.update_of_ne here] at mapped
      obtain ⟨same, added⟩ := registered.mapped descriptor other mapped
      rw [stays other fun isH => here (by rw [← same, isH])]
      exact ⟨same, added⟩
  · by_cases here : descriptor = fd h
    · simp only [write, here, Function.update_self] at listed
      split at listed
      · obtain ⟨-, rfl⟩ := Prod.mk.inj (Option.some.inj listed)
        rw [at_h]
        exact ⟨here.symm, ‹_›⟩
      · cases listed
    · simp only [write, Function.update_of_ne here] at listed
      obtain ⟨same, added⟩ := registered.listed descriptor mask other listed
      rw [stays other fun isH => here (by rw [← same, isH])]
      exact ⟨same, added⟩
  · by_cases isH : other = h
    · rw [isH, at_h]
      exact valid
    · rw [stays other isH]
      exact registered.valid other

theorem step_registered (s t : Epoll Handler) (action : PollerAction Handler)
    (registered : Registered fd s) (taken : s.step fd action = some t) : Registered fd t := by
  obtain ⟨h, record, rfl, alone, valid, -⟩ := step_cases fd s t action registered taken
  exact write_registered fd s h record registered alone valid

/-- The invariant of a run that gives plain masks only. -/
def Exact (s : Epoll Handler) : Prop := Registered fd s ∧ Faithful fd s

/-- From a faithful registration, a call leads to a faithful one exactly when it gives a plain
mask. -/
theorem step_faithful_iff (s t : Epoll Handler) (action : PollerAction Handler)
    (registered : Registered fd s) (faithful : Faithful fd s) (taken : s.step fd action = some t) :
    Faithful fd t ↔ GivesPlain s action := by
  have next := step_registered fd s t action registered taken
  obtain ⟨h, record, rfl, -, -, gives⟩ := step_cases fd s t action registered taken
  rw [faithful_iff fd _ next, gives]
  constructor
  · intro plain added
    have here := plain h
    rw [show (s.write fd h record).handler h = record from Function.update_self _ _ _] at here
    exact here added
  · intro plain other added
    by_cases isH : other = h
    · subst isH
      rw [show (s.write fd other record).handler other = record from
        Function.update_self _ _ _] at added ⊢
      exact plain added
    · rw [show (s.write fd h record).handler other = s.handler other from
        Function.update_of_ne isH _ _] at added ⊢
      exact (faithful_iff fd s registered).mp faithful other added

/-! ### Whole runs -/

/-- Along any run of calls the registration is faithful in every state if and only if every
call gives the kernel a plain mask. -/
theorem faithful_iff_givesPlain (events : Handler → Event)
    (valid : ∀ h, (events h).validate = true) (actions : List (PollerAction Handler))
    (final : Epoll Handler) (run : Run (StepOf (step fd)) (initial events) actions final) :
    (∀ before, before <+: actions → ∀ s, Run (StepOf (step fd)) (initial events) before s →
      Faithful fd s) ↔ Meets (StepOf (step fd)) GivesPlain (initial events) actions := by
  have start := initial_registered fd events valid
  have empty : Exact fd (initial events) := ⟨start, (faithful_iff fd _ start).mpr nofun⟩
  refine run.always_iff (stepOf_deterministic _) empty (fun _ both => both.2)
    (fun s action t _ both plain taken => ?_) fun s action t _ both taken faithful => ?_
  · exact ⟨step_registered fd s t action both.1 taken,
      (step_faithful_iff fd s t action both.1 both.2 taken).mpr plain⟩
  · exact (step_faithful_iff fd s t action both.1 both.2 taken).mp faithful

end

/-- Two handlers that ask for reading. -/
def readers : Bool → Event := fun _ => ⟨0x1#32⟩

/-- The descriptor of a handler. -/
def descriptor (h : Bool) : Nat := if h then 4 else 3

/-- Both are added, one asks for writing too and no longer, and the other one is removed and added
again without bits. -/
def registrations : List (PollerAction Bool) :=
  [.addListen true, .addListen false, .update true .setWriting, .update false .disableAll,
    .removeListen false, .update true .cancelWriting, .addListen false, .update true .setWriting]

theorem faithful_iff_givesPlain_readers :
    ∃ final, Run (StepOf (step descriptor)) (initial readers) registrations final ∧
      final.interest 3 = some (0x0#32, false) ∧ final.interest 4 = some (0x5#32, true) ∧
      Meets (StepOf (step descriptor)) GivesPlain (initial readers) registrations ∧
      ∀ before, before <+: registrations → ∀ s,
        Run (StepOf (step descriptor)) (initial readers) before s → Faithful descriptor s := by
  have done : ((exec (step descriptor) (initial readers) registrations).map fun s =>
      (s.interest 3, s.interest 4)) = some (some (0x0#32, false), some (0x5#32, true)) := by
    decide
  have plain : checks (step descriptor) GivesPlain (initial readers) registrations = true := by
    decide
  obtain ⟨final, executed, same⟩ := Option.map_eq_some_iff.mp done
  obtain ⟨first, second⟩ := Prod.mk.inj same
  have run := run_of_exec executed
  exact ⟨final, run, first, second, meets_of_checks plain,
    (faithful_iff_givesPlain descriptor readers (by decide) registrations final run).mpr
      (meets_of_checks plain)⟩

/-- A handler that asks for reading, edge-triggered, as the wake handler of a loop does. -/
def edgeReader : Unit → Event := fun _ => ⟨0x81#32⟩

/-- An edge-triggered handler is registered as level-triggered. -/
theorem faithful_fails :
    (∀ h, (edgeReader h).validate = true) ∧
      ∃ final, Run (StepOf (step fun _ => 3)) (initial edgeReader) [.addListen ()] final ∧
        ¬ Faithful (fun _ => 3) final := by
  refine ⟨fun () => by decide, _, Run.snoc (Run.nil (initial edgeReader)) rfl, fun faithful => ?_⟩
  obtain ⟨mask, listed, bits⟩ := faithful.masks () rfl
  obtain ⟨rfl, -⟩ := Prod.mk.inj (Option.some.inj listed)
  exact absurd (bits .epollEt) (by decide)

end Epoll

end YYNet
