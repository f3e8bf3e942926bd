/-
This file models buffered streams that were opened for appending.

A stream holds back some bytes and hands the others to the file at its path. When it
does so is its own affair; what counts is what the files hold once it has handed over
all of them. Writing appends to that, and flushing, opening and closing leave it alone.
Flushing and closing succeed here; a write may take less than it was given.
-/

import Mathlib.Logic.Function.Basic

namespace AppendStream

/-- What the files hold. A file that does not exist is empty. -/
abbrev Disk (Path Byte : Type) := Path → List Byte

/-- A stream in append mode: the path of its file, and the bytes it holds back. -/
structure Handle (Path Byte : Type) where
  path : Path
  held : List Byte
  deriving DecidableEq, Repr

namespace Handle

variable {Path Byte : Type} [DecidableEq Path]

/-- Open a file for appending. -/
def opened (path : Path) : Handle Path Byte := ⟨path, []⟩

/-- The files once the stream has handed over what it holds back. -/
def settled (disk : Disk Path Byte) (stream : Handle Path Byte) : Disk Path Byte :=
  Function.update disk stream.path (disk stream.path ++ stream.held)

/-- Write some bytes, and hand over the first `flushed` of those that are then held back. -/
def write (disk : Disk Path Byte) (stream : Handle Path Byte) (data : List Byte)
    (flushed : Nat) : Disk Path Byte × Handle Path Byte :=
  (Function.update disk stream.path (disk stream.path ++ (stream.held ++ data).take flushed),
    ⟨stream.path, (stream.held ++ data).drop flushed⟩)

/-- Hand over everything. The medium takes all of it. -/
def flush (disk : Disk Path Byte) (stream : Handle Path Byte) :
    Disk Path Byte × Handle Path Byte :=
  (stream.settled disk, ⟨stream.path, []⟩)

section

variable (disk : Disk Path Byte) (stream : Handle Path Byte)

/-- A stream that holds nothing back. -/
theorem settled_of_nil (nothing : stream.held = []) : stream.settled disk = disk := by
  unfold settled
  rw [nothing, List.append_nil, Function.update_eq_self]

theorem settled_opened (path : Path) : (opened path).settled disk = disk :=
  settled_of_nil disk _ rfl

@[simp] theorem write_path (data : List Byte) (flushed : Nat) :
    (stream.write disk data flushed).2.path = stream.path := rfl

/-- Writing appends, whatever is handed over at once. -/
theorem settled_write (data : List Byte) (flushed : Nat) :
    (stream.write disk data flushed).2.settled (stream.write disk data flushed).1 =
      Function.update (stream.settled disk) stream.path
        (stream.settled disk stream.path ++ data) := by
  unfold write settled
  simp only [Function.update_self, Function.update_idem]
  rw [List.append_assoc, List.append_assoc, List.take_append_drop]

theorem settled_flush : (stream.flush disk).2.settled (stream.flush disk).1 =
    stream.settled disk :=
  settled_of_nil _ _ rfl

end

end Handle

end AppendStream
