/-
This file models the operations on a whole `TcpBuffer` and proves when they respect
its prefix, and when its contents survive being returned as a string.

`clear` and `reset` set both indices to eight, whatever the prefix is, and `swap`
exchanges the storage and the indices and leaves the prefix where it is. The buffer
is empty after the first two and the readable bytes have changed places after the
third, but the order of the indices is kept in every state of a run if and only if
the prefix ends at eight or before, eight lies inside the storage, and two buffers
are swapped only when neither prefix reaches behind the other's read index.

`retrieveAllToString` makes a string from a pointer, so the string ends at the first
NUL. It is what was readable if and only if that NUL is the byte right behind it.
-/

import YYNet.Common.StringPiece
import YYNet.Net.ByteQueue

namespace YYNet

open Checked Storage Transition

namespace TcpBuffer

/-! ### Clearing and swapping -/

/-- `clear`. -/
def clear (b : TcpBuffer) : TcpBuffer := { b with readIndex := 8, writeIndex := 8 }

/-- `reset`. -/
def reset (b : TcpBuffer) : TcpBuffer := { b with readIndex := 8, writeIndex := 8 }

/-- `swap`: the buffer and the other one behind it. -/
def swap (b other : TcpBuffer) : TcpBuffer × TcpBuffer :=
  ({ b with
      buffer := other.buffer, readIndex := other.readIndex, writeIndex := other.writeIndex },
    { other with buffer := b.buffer, readIndex := b.readIndex, writeIndex := b.writeIndex })

/-- The order of the indices and the storage. -/
structure InOrder (b : TcpBuffer) : Prop where
  prepend_le_read : b.prependSize ≤ b.readIndex
  read_le_write : b.readIndex ≤ b.writeIndex
  write_le_size : b.writeIndex ≤ b.buffer.length

/-- Nothing is readable. -/
def IsEmpty (b : TcpBuffer) : Prop := b.readableSize = 0 ∧ b.readable = []

variable {b : TcpBuffer}

theorem Valid.inOrder (valid : b.Valid) : b.InOrder :=
  ⟨valid.prepend_le_read, valid.read_le_write, valid.write_le_size⟩

theorem isEmpty_of_same (same : b.readIndex = b.writeIndex) : b.IsEmpty := by
  have size : b.readableSize = 0 := by
    rw [readableSize, same, subSize_of_le (le_refl _), Nat.sub_self]
  exact ⟨size, by rw [readable, size, stretch_zero]⟩

theorem create_valid {initialSize prependSize : Nat}
    (created : create initialSize prependSize = .ok b) (inOrder : b.InOrder) : b.Valid := by
  unfold create at created
  split at created
  · cases created
  · rename_i small
    obtain rfl := Except.ok.inj created
    refine ⟨inOrder.prepend_le_read, inOrder.read_le_write, inOrder.write_le_size, ?_⟩
    rw [List.length_replicate]
    exact not_lt.mp small

/-- A new buffer has its indices in order when its size did not overflow. -/
theorem create_inOrder_iff {initialSize prependSize : UInt64}
    (created : create initialSize.toNat prependSize.toNat = .ok b) :
    b.InOrder ↔ prependSize.toNat + initialSize.toNat < sizeModulus := by
  rw [← create_inStep_iff (uint64_lt initialSize) (uint64_lt prependSize) created]
  refine ⟨fun inOrder => ⟨create_valid created inOrder, ?_⟩, fun same => same.1.inOrder⟩
  unfold create at created
  split at created
  · cases created
  · obtain rfl := Except.ok.inj created
    exact (isEmpty_of_same rfl).2

end TcpBuffer

/-! ### Calls on any number of buffers -/

/-- A call on one of several buffers, or on two of them. `appendFormFd` carries what `readv`
answered. -/
inductive WholeOp (Name : Type)
  | append (name : Name) (data : List UInt8)
  | fluentAppend (name : Name) (data : List UInt8)
  | appendFormFd (name : Name) (answer : Option (List UInt8))
  | consume (name : Name) (size : Nat)
  | clear (name : Name)
  | reset (name : Name)
  | swap (first second : Name)

namespace WholeOp

variable {Name : Type} [DecidableEq Name]

/-- The call, when it returns. -/
def apply (build : Build) (s : Name → TcpBuffer) : WholeOp Name → Except Fault (Name → TcpBuffer)
  | append name data => do
    let after ← (s name).append build data
    return Function.update s name after
  | fluentAppend name data => do
    let after ← (s name).fluentAppend build data
    return Function.update s name after
  | appendFormFd name answer => do
    let read ← (s name).appendFormFd build answer
    return Function.update s name read.2
  | consume name size => do
    let after ← (s name).consume build size
    return Function.update s name after
  | clear name => return Function.update s name (s name).clear
  | reset name => return Function.update s name (s name).reset
  | swap first second =>
    return Function.update (Function.update s first ((s first).swap (s second)).1) second
      ((s first).swap (s second)).2

/-- The kernel fills no more than it was offered. -/
def Possible (s : Name → TcpBuffer) : WholeOp Name → Prop
  | appendFormFd name answer => ∀ received ∈ answer, received.length ≤ (s name).offered
  | _ => True

/-- A call that returns. -/
def Step (build : Build) (s : Name → TcpBuffer) (op : WholeOp Name) (next : Name → TcpBuffer) :
    Prop :=
  op.Possible s ∧ op.apply build s = .ok next

/-- The prefix ends at eight or before and eight lies inside the storage, and neither prefix of
two swapped buffers reaches behind the other's read index. -/
def RespectsPrefix (s : Name → TcpBuffer) : WholeOp Name → Prop
  | clear name => (s name).prependSize ≤ 8 ∧ 8 ≤ (s name).buffer.length
  | reset name => (s name).prependSize ≤ 8 ∧ 8 ≤ (s name).buffer.length
  | swap first second =>
    (s first).prependSize ≤ (s second).readIndex ∧ (s second).prependSize ≤ (s first).readIndex
  | _ => True

/-! ### One call -/

/-- All indices are in order, and no storage is larger than a vector can be. -/
def AllValid (s : Name → TcpBuffer) : Prop := ∀ name, (s name).Valid

section

variable (build : Build) {s next : Name → TcpBuffer}

theorem step_deterministic :
    Deterministic (Step build : (Name → TcpBuffer) → WholeOp Name → (Name → TcpBuffer) → Prop) :=
  fun _ _ _ _ first second => Except.ok.inj (first.2.symm.trans second.2)

/-- One buffer of several changes. -/
theorem valid_update (valid : AllValid s) {name : Name} {after : TcpBuffer}
    (changed : after.Valid) : AllValid (Function.update s name after) := by
  intro other
  by_cases same : other = name
  · subst same
    rw [Function.update_self]
    exact changed
  · rw [Function.update_of_ne same]
    exact valid other

/-- A call that respects the prefix keeps all buffers valid. -/
theorem step_valid (valid : AllValid s) {op : WholeOp Name}
    (respects : op.RespectsPrefix s) (step : op.Step build s next) : AllValid next := by
  obtain ⟨possible, applied⟩ := step
  cases op with
  | append name data =>
    obtain ⟨after, appended, same⟩ := bind_eq_ok applied
    obtain rfl := Except.ok.inj same
    exact valid_update valid (TcpBuffer.append_returns build (valid name) appended).valid
  | fluentAppend name data =>
    obtain ⟨after, appended, same⟩ := bind_eq_ok applied
    obtain rfl := Except.ok.inj same
    exact valid_update valid (TcpBuffer.append_returns build (valid name) appended).valid
  | appendFormFd name answer =>
    obtain ⟨read, received, same⟩ := bind_eq_ok applied
    obtain rfl := Except.ok.inj same
    cases answer with
    | none =>
      obtain rfl := Except.ok.inj received
      exact valid_update valid (valid name)
    | some bytes =>
      rcases appendFormFd_spec build (valid name) bytes (possible bytes rfl) with
        ⟨-, refused⟩ | ⟨after, appended, spec⟩
      · rw [refused] at received
        cases received
      · rw [appended] at received
        obtain rfl := Except.ok.inj received
        exact valid_update valid spec.valid
  | consume name size =>
    obtain ⟨after, consumed, same⟩ := bind_eq_ok applied
    obtain rfl := Except.ok.inj same
    rw [TcpBuffer.consume_returns build (valid name) consumed]
    exact valid_update valid (TcpBuffer.consumed_valid (valid name) size)
  | clear name =>
    obtain rfl := Except.ok.inj applied
    exact valid_update valid
      ⟨respects.1, le_refl _, respects.2, (valid name).size_le_max⟩
  | reset name =>
    obtain rfl := Except.ok.inj applied
    exact valid_update valid
      ⟨respects.1, le_refl _, respects.2, (valid name).size_le_max⟩
  | swap first second =>
    obtain rfl := Except.ok.inj applied
    refine valid_update (valid_update valid ?_) ?_
    · exact ⟨respects.1, (valid second).read_le_write, (valid second).write_le_size,
        (valid second).size_le_max⟩
    · exact ⟨respects.2, (valid first).read_le_write, (valid first).write_le_size,
        (valid first).size_le_max⟩

/-- A call behind which all indices are in order respected the prefix. -/
theorem respectsPrefix_of_inOrder {op : WholeOp Name} (step : op.Step build s next)
    (inOrder : ∀ name, (next name).InOrder) : op.RespectsPrefix s := by
  have applied := step.2
  cases op with
  | clear name =>
    obtain rfl := Except.ok.inj applied
    have cleared := inOrder name
    rw [Function.update_self] at cleared
    exact ⟨cleared.prepend_le_read, cleared.write_le_size⟩
  | reset name =>
    obtain rfl := Except.ok.inj applied
    have cleared := inOrder name
    rw [Function.update_self] at cleared
    exact ⟨cleared.prepend_le_read, cleared.write_le_size⟩
  | swap first second =>
    obtain rfl := Except.ok.inj applied
    have behind := inOrder second
    rw [Function.update_self] at behind
    refine ⟨?_, behind.prepend_le_read⟩
    by_cases same : first = second
    · subst same
      exact behind.prepend_le_read
    · have front := inOrder first
      rw [Function.update_of_ne same, Function.update_self] at front
      exact front.prepend_le_read
  | _ => trivial

/-- What a call on a whole buffer is for: `clear` and `reset` leave it empty, and `swap` exchanges
the readable bytes. -/
def Done (s next : Name → TcpBuffer) : WholeOp Name → Prop
  | clear name => (next name).IsEmpty
  | reset name => (next name).IsEmpty
  | swap first second =>
    (next first).readable = (s second).readable ∧ (next second).readable = (s first).readable
  | _ => True

/-- The calls on a whole buffer do what they are for, whatever the indices are. -/
theorem step_done {op : WholeOp Name} (step : op.Step build s next) : op.Done s next := by
  have applied := step.2
  cases op with
  | clear name =>
    obtain rfl := Except.ok.inj applied
    show TcpBuffer.IsEmpty (Function.update s name (s name).clear name)
    rw [Function.update_self]
    exact TcpBuffer.isEmpty_of_same rfl
  | reset name =>
    obtain rfl := Except.ok.inj applied
    show TcpBuffer.IsEmpty (Function.update s name (s name).reset name)
    rw [Function.update_self]
    exact TcpBuffer.isEmpty_of_same rfl
  | swap first second =>
    obtain rfl := Except.ok.inj applied
    refine ⟨?_, by rw [Function.update_self]; rfl⟩
    by_cases same : first = second
    · subst same
      rw [Function.update_self]
      rfl
    · rw [Function.update_of_ne same, Function.update_self]
      rfl
  | _ => trivial

end

/-! ### Whole runs -/

/-- In every run of buffers of any sizes, all indices stay in order if and only if no constructor
overflows and every call respects the prefixes; and every call on a whole buffer does what it is
for. -/
theorem keepsPrefix_iff (build : Build) (initialSize prependSize : Name → UInt64)
    (start : Name → TcpBuffer)
    (constructed : ∀ name,
      TcpBuffer.create (initialSize name).toNat (prependSize name).toNat = .ok (start name))
    (ops : List (WholeOp Name)) (final : Name → TcpBuffer)
    (run : Run (Step build) start ops final) :
    ((∀ before, before <+: ops → ∀ s, Run (Step build) start before s →
        ∀ name, (s name).InOrder) ↔
      (∀ name, (prependSize name).toNat + (initialSize name).toNat < sizeModulus) ∧
        Meets (Step build) RespectsPrefix start ops) ∧
      ∀ (s : Name → TcpBuffer) (op : WholeOp Name) (next : Name → TcpBuffer),
        Step build s op next → op.Done s next := by
  refine ⟨?_, fun s op next step => step_done build step⟩
  have ordered : (∀ name, (start name).InOrder) ↔
      ∀ name, (prependSize name).toNat + (initialSize name).toNat < sizeModulus :=
    forall_congr' fun name => TcpBuffer.create_inOrder_iff (constructed name)
  by_cases fits : ∀ name, (prependSize name).toNat + (initialSize name).toNat < sizeModulus
  · have valid : AllValid start := fun name =>
      TcpBuffer.create_valid (constructed name) (ordered.mpr fits name)
    rw [and_iff_right fits]
    refine run.always_iff (step_deterministic build) valid
      (fun s valid name => (valid name).inOrder) ?_ ?_
    · exact fun s op next _ valid respects step => step_valid build valid respects step
    · exact fun s op next _ _ step inOrder => respectsPrefix_of_inOrder build step inOrder
  · refine iff_of_false (fun always => fits (ordered.mp ?_)) fun inside => fits inside.1
    exact always [] List.nil_prefix start (Run.nil start)

/-- A buffer of four bytes behind a prefix of eight. -/
def fourBytes : TcpBuffer := ⟨List.replicate 12 0, 8, 8, 8⟩

/-- One buffer that receives a byte and is cleared. -/
theorem keepsPrefix_iff_cleared : ∃ final : Unit → TcpBuffer,
    Run (Step .debug) (fun _ => fourBytes) [.append () [97], .clear ()] final ∧
      ∀ name, (final name).InOrder := by
  have constructed : ∀ _ : Unit, TcpBuffer.create (4 : UInt64).toNat (8 : UInt64).toNat =
      .ok fourBytes := fun _ => by decide +kernel
  have appended : fourBytes.append .debug [97] =
      .ok ⟨List.replicate 8 0 ++ [97, 0, 0, 0], 8, 8, 9⟩ := by decide +kernel
  have first : Run (Step .debug) (fun _ : Unit => fourBytes) [.append () [97]] _ :=
    (Run.nil _).snoc ⟨trivial, by rw [apply, appended, ok_bind]; rfl⟩
  have whole : Run (Step .debug) (fun _ : Unit => fourBytes) [.append () [97], .clear ()] _ :=
    first.snoc ⟨trivial, rfl⟩
  have respects : Meets (Step .debug) RespectsPrefix (fun _ : Unit => fourBytes)
      ([.append () [97]] ++ [.clear ()]) := by
    refine (meets_snoc _ _ _ _ _).mpr ⟨?_, fun s reached => ?_⟩
    · exact (meets_snoc _ _ _ [] _).mpr ⟨meets_nil _ _ _, fun _ _ => trivial⟩
    · obtain rfl := first.unique (step_deterministic .debug) reached
      exact ⟨by decide, by decide⟩
  have ordered := (keepsPrefix_iff .debug (fun _ => 4) (fun _ => 8) _ constructed _ _ whole).1.mpr
    ⟨fun _ => by decide +kernel, respects⟩
  exact ⟨_, whole, ordered _ (List.prefix_refl _) _ whole⟩

/-- A buffer of four bytes without a prefix: after clearing it both indices are behind the
storage. Two buffers with prefixes of four and of sixteen bytes: after swapping them the second
one reads from its prefix. -/
theorem not_keepsPrefix :
    (∃ b, TcpBuffer.create 4 0 = .ok b ∧ ¬ b.clear.InOrder ∧ ¬ b.reset.InOrder) ∧
      ∃ first second, TcpBuffer.create 4 4 = .ok first ∧ TcpBuffer.create 4 16 = .ok second ∧
        ¬ (first.swap second).2.InOrder := by
  refine ⟨⟨⟨List.replicate 4 0, 0, 0, 0⟩, by decide +kernel, ?_, ?_⟩,
    ⟨List.replicate 8 0, 4, 4, 4⟩, ⟨List.replicate 20 0, 16, 16, 16⟩, by decide +kernel,
    by decide +kernel, ?_⟩
  · exact fun cleared => absurd cleared.write_le_size (by decide)
  · exact fun cleared => absurd cleared.write_le_size (by decide)
  · exact fun swapped => absurd swapped.prepend_le_read (by decide)

end WholeOp

namespace TcpBuffer

/-! ### The contents as a string -/

/-- `std::string` from a pointer into the storage: the bytes in front of the first NUL. Without a
NUL the search leaves the storage. -/
def stringAt (b : TcpBuffer) (position : Nat) : Except Fault (List UInt8) :=
  if (cStr (b.buffer.drop position)).length < (b.buffer.drop position).length then
    .ok (cStr (b.buffer.drop position))
  else .error .outOfBounds

/-- `retrieveAllToString`: the string, and the buffer behind the call. A string cannot be made
from a null pointer. -/
def retrieveAllToString (build : Build) (b : TcpBuffer) :
    Except Fault (List UInt8 × TcpBuffer) := do
  let retrieved ← b.retrieveAll build
  match retrieved.1 with
  | none => throw .outOfBounds
  | some position =>
    let string ← retrieved.2.stringAt position
    return (string, retrieved.2)

/-- The call returns what was readable, all `readable_size()` bytes of it, and leaves the buffer
empty. -/
def ReturnsReadable (build : Build) (b : TcpBuffer) : Prop :=
  ∃ after, b.retrieveAllToString build = .ok (b.readable, after) ∧
    b.readable.length = b.readableSize ∧ after.IsEmpty

/-- The indices pass the check of the build, no readable byte is NUL, and the byte right behind
them is, inside the storage. -/
structure EndsInNul (build : Build) (b : TcpBuffer) : Prop where
  checked : b.checkIndexValidity build = .ok ()
  read_le_write : b.readIndex ≤ b.writeIndex
  noNul : 0 ∉ b.readable
  ends : b.buffer[b.writeIndex]? = some 0

variable {b : TcpBuffer}

/-- Taking everything moves both indices to the prefix, when the indices pass the check. -/
theorem retrieveAll_eq (build : Build) (b : TcpBuffer) :
    b.retrieveAll build = (b.checkIndexValidity build).map fun _ =>
      (some b.readIndex, { b with readIndex := b.prependSize, writeIndex := b.prependSize }) := by
  have emptied : ({ b with readIndex := b.prependSize, writeIndex := b.prependSize } :
      TcpBuffer).checkIndexValidity build = .ok () :=
    checkIndexValidity_of_le build (le_refl _) (le_refl _)
  rw [retrieveAll, retrieve, if_pos (le_refl _), moveReadIndex, assert_of_holds build (le_refl _),
    ok_bind, if_neg (lt_irrefl _)]
  cases b.checkIndexValidity build with
  | error fault => rfl
  | ok _ =>
    simp only [ok_bind, emptied]
    rfl

/-- A string is a given piece of the storage when the piece holds no NUL and one follows it. -/
theorem stringAt_eq_iff (position : Nat) (piece : List UInt8) :
    b.stringAt position = .ok piece ↔
      0 ∉ piece ∧ ∃ rest, b.buffer.drop position = piece ++ 0 :: rest := by
  have cut (front rest : List UInt8) (noNul : 0 ∉ front) : cStr (front ++ 0 :: rest) = front := by
    have solid : ∀ byte ∈ front, decide (byte ≠ 0) = true := by
      intro byte member
      exact decide_eq_true (ne_of_mem_of_not_mem member noNul)
    rw [cStr, List.takeWhile_append_of_pos solid, List.takeWhile_cons_of_neg (by simp),
      List.append_nil]
  unfold stringAt
  constructor
  · intro found
    split at found
    · rename_i shorter
      have there : 0 ∈ b.buffer.drop position := by
        by_contra absent
        rw [cStr_of_not_mem absent] at shorter
        exact lt_irrefl _ shorter
      obtain ⟨front, rest, split, noNul⟩ := List.eq_append_cons_of_mem there
      rw [split, cut front rest noNul] at found
      obtain rfl := Except.ok.inj found
      exact ⟨noNul, rest, split⟩
    · cases found
  · rintro ⟨noNul, rest, split⟩
    rw [split, cut piece rest noNul, if_pos (by simp)]

/-- The call returns what the string is, when the indices pass the check. -/
theorem returnsReadable_iff_stringAt (build : Build) (b : TcpBuffer) :
    ReturnsReadable build b ↔ b.checkIndexValidity build = .ok () ∧
      b.stringAt b.readIndex = .ok b.readable ∧ b.readable.length = b.readableSize := by
  have empty : IsEmpty { b with readIndex := b.prependSize, writeIndex := b.prependSize } :=
    isEmpty_of_same rfl
  have same : ({ b with readIndex := b.prependSize, writeIndex := b.prependSize } :
      TcpBuffer).stringAt b.readIndex = b.stringAt b.readIndex := rfl
  unfold ReturnsReadable retrieveAllToString
  rw [retrieveAll_eq]
  cases b.checkIndexValidity build with
  | error fault =>
    refine iff_of_false ?_ fun checked => nomatch checked.1
    rintro ⟨_, returned, -⟩
    cases returned
  | ok _ =>
    simp only [Except.map, ok_bind, same, pure_eq_ok]
    constructor
    · rintro ⟨after, returned, whole, -⟩
      obtain ⟨string, found, isString⟩ := bind_eq_ok returned
      rw [(Prod.mk.inj (Except.ok.inj isString)).1] at found
      exact ⟨trivial, found, whole⟩
    · rintro ⟨-, found, whole⟩
      exact ⟨_, by rw [found, ok_bind], whole, empty⟩

/-- In every state, the call returns exactly what was readable and leaves the buffer empty if and
only if the readable bytes hold no NUL and are followed by one. -/
theorem returnsReadable_iff (build : Build) (b : TcpBuffer) (isVector : b.buffer.length ≤ maxSize) :
    ReturnsReadable build b ↔ EndsInNul build b := by
  rw [returnsReadable_iff_stringAt, stringAt_eq_iff]
  constructor
  · rintro ⟨checked, ⟨noNul, rest, split⟩, whole⟩
    have nul : b.buffer[b.readIndex + b.readableSize]? = some 0 := by
      rw [← List.getElem?_drop, split, ← whole, List.getElem?_append_right (le_refl _),
        Nat.sub_self]
      rfl
    have inside := (List.getElem?_eq_some_iff.mp nul).1
    have ordered : b.readIndex ≤ b.writeIndex := by
      by_contra wraps
      have := maxSize_lt_sizeModulus
      rw [readableSize, subSize, if_neg wraps] at inside
      omega
    have toWrite : b.readIndex + b.readableSize = b.writeIndex := by
      rw [readableSize, subSize_of_le ordered]
      omega
    exact ⟨checked, ordered, noNul, toWrite ▸ nul⟩
  · rintro ⟨checked, ordered, noNul, nul⟩
    obtain ⟨inside, isNul⟩ := List.getElem?_eq_some_iff.mp nul
    have size : b.readableSize = b.writeIndex - b.readIndex := subSize_of_le ordered
    have split : b.buffer.drop b.readIndex = b.readable ++ b.buffer.drop b.writeIndex := by
      have back : b.buffer.drop b.writeIndex =
          (b.buffer.drop b.readIndex).drop b.readableSize := by
        rw [List.drop_drop, size, Nat.add_sub_cancel' ordered]
      rw [back]
      exact (List.take_append_drop _ _).symm
    rw [List.drop_eq_getElem_cons inside, isNul] at split
    refine ⟨checked, ⟨noNul, _, split⟩, stretch_length _ _ _ ?_⟩
    omega

/-- A byte in a new buffer, with zeros behind it. -/
theorem returnsReadable_iff_fresh :
    ReturnsReadable .debug ⟨List.replicate 8 0 ++ [97, 0, 0, 0], 8, 8, 9⟩ :=
  (returnsReadable_iff .debug _ (le_maxSize (by decide))).mpr
    ⟨by decide, by decide, by decide, by decide⟩

/-- Three bytes are received and consumed, then one: the string goes on into the old bytes. A NUL
among the readable bytes ends the string early, and full storage has no end for it at all. -/
theorem not_returnsReadable :
    (∃ received consumed again : TcpBuffer,
      (⟨List.replicate 12 0, 8, 8, 8⟩ : TcpBuffer).append .debug [97, 98, 99] = .ok received ∧
        received.consume .debug 3 = .ok consumed ∧ consumed.append .debug [120] = .ok again ∧
        again.readable = [120] ∧
        (again.retrieveAllToString .debug).map Prod.fst = .ok [120, 98, 99] ∧
        ¬ ReturnsReadable .debug again) ∧
      ((⟨List.replicate 8 0 ++ [97, 0, 98, 0], 8, 8, 11⟩ : TcpBuffer).retrieveAllToString
        .debug).map Prod.fst = .ok [97] ∧
      (⟨List.replicate 8 0 ++ [97, 98, 99, 100], 8, 8, 12⟩ : TcpBuffer).retrieveAllToString
        .debug = .error .outOfBounds := by
  refine ⟨⟨⟨List.replicate 8 0 ++ [97, 98, 99, 0], 8, 8, 11⟩,
    ⟨List.replicate 8 0 ++ [97, 98, 99, 0], 8, 8, 8⟩,
    ⟨List.replicate 8 0 ++ [120, 98, 99, 0], 8, 8, 9⟩, by decide +kernel, by decide +kernel,
    by decide +kernel, by decide, by decide +kernel, ?_⟩, by decide +kernel, by decide +kernel⟩
  intro returns
  have found := ((returnsReadable_iff_stringAt _ _).mp returns).2.1
  exact absurd found (by decide)

end TcpBuffer

end YYNet
