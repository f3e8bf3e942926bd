/-
This file models the files of the log and proves what they hold.

An appender writes lines through a buffered stream in append mode, and starts a new
file when it has written more than `rollSize_` bytes to the one it has. The name of the
new file is the time in seconds, so that a new file may be the old one: the appender
then goes on behind what is there, and counts from zero again.

The invariant follows the lines by the file that was open when they were written. What
the files hold once the last stream is closed is what they held at first, and behind it
the lines of each file in the order they were written, none of them split between two
files. The synchronous log flushes behind every line, so its files hold all this
whenever a call has returned.
-/

import YYNet.Lib.AppendStream
import YYNet.Lib.Transition

namespace YYNet

open AppendStream Transition

/-! ### The appender -/

/-- A name or a line. -/
abbrev Text := List UInt8

/-- `getFileName`: what is in front of the last dot, or everything. -/
def getFileName (filename : Text) : Text :=
  if filename.contains 46 then ((filename.reverse.dropWhile (· ≠ 46)).drop 1).reverse else filename

/-- `getSuffix`: the last dot and what is behind it. Without a dot `substr` throws. -/
def getSuffix (filename : Text) : Option Text :=
  if filename.contains 46 then some (46 :: (filename.reverse.takeWhile (· ≠ 46)).reverse) else none

/-- `BaseLogAppender`: its stream, `type_` and `writtenBytes_`. -/
structure BaseLogAppender where
  stream : Handle Text UInt8
  type : Text
  writtenBytes : Nat
  deriving DecidableEq, Repr

/-- The answer of `fwrite`: how much it took, whether `ferror` reports an error behind it, and how
much the stream handed over. -/
structure WriteAnswer where
  count : Nat
  error : Bool
  flushed : Nat
  deriving DecidableEq, Repr

/-- The time when a file is named, and whether `fopen` succeeds. -/
structure Opening where
  nowToString : Text
  opens : Bool
  deriving DecidableEq, Repr

/-- The answers that one line gets: those of `fwrite`, what happens if `fileno` reports a bad
descriptor, what happens if the file is full, and the time otherwise. -/
structure AppendAnswers where
  writes : List WriteAnswer
  invalid : Option Opening
  rolls : Opening
  now : Int
  deriving DecidableEq, Repr

/-- A line, and how much of it `fwrite` took. -/
structure Written where
  line : Text
  stored : Text
  deriving DecidableEq, Repr

/-- What was written while one file was open, and whether the file was given up because of its
descriptor. -/
structure Generation where
  path : Text
  lines : List Written
  invalid : Bool
  deriving DecidableEq, Repr

namespace BaseLogAppender

/-- The constructor. The process ends if the file cannot be opened. -/
def make (filename : Text) (opens : Bool) : Option BaseLogAppender :=
  (getSuffix filename).bind fun type =>
    if opens then some ⟨Handle.opened filename, type, 0⟩ else none

/-- The loop of `append`, for the rest of a line. There is no result while it waits for an answer,
or if an answer takes more than there is. -/
def writeLoop (disk : Disk Text UInt8) (stream : Handle Text UInt8) (rest : Text) :
    List WriteAnswer → Option (Disk Text UInt8 × Handle Text UInt8 × Text)
  | [] => if rest = [] then some (disk, stream, []) else none
  | answer :: more =>
    if rest = [] then some (disk, stream, [])
    else if answer.count ≤ rest.length then
      let (disk, stream) := stream.write disk (rest.take answer.count) answer.flushed
      if answer.count ≠ rest.length ∧ answer.error = true then
        some (disk, stream, rest.take answer.count)
      else
        (writeLoop disk stream (rest.drop answer.count) more).map fun (disk, stream, stored) =>
          (disk, stream, rest.take answer.count ++ stored)
    else none

end BaseLogAppender

/-- `LogAppender` with the disk and the static variables of `Timeflush`, the generations that are
closed, and what was written to the file that is open. -/
structure LogAppender where
  disk : Disk Text UInt8
  base : BaseLogAppender
  logFileName : Text
  count : Nat
  nextFlushTime : Option Int
  closed : List Generation
  current : List Written

namespace LogAppender

/-- `rollSize_`. -/
def rollSize : Nat := 2 * 1024

/-- `flushInterval_` in nanoseconds. -/
def flushInterval : Int := 20 * 10 ^ 9

/-- `checkInterval` of `Timeflush`. -/
def checkInterval : Nat := 5

/-- The constructor. -/
def make (disk : Disk Text UInt8) (filename : Text) (opens : Bool) : Option LogAppender :=
  (BaseLogAppender.make filename opens).map fun base =>
    ⟨disk, base, getFileName filename, 0, none, [], []⟩

/-- `getLogFileName`. -/
def getLogFileName (s : LogAppender) (nowToString : Text) : Text :=
  s.logFileName ++ nowToString ++ s.base.type

/-- `rollFile`. The new file is opened before the old one is closed. -/
def rollFile (opening : Opening) (invalid : Bool) (s : LogAppender) : Option LogAppender :=
  (BaseLogAppender.make (s.getLogFileName opening.nowToString) opening.opens).map fun base =>
    { s with
      disk := s.base.stream.settled s.disk
      base := base
      closed := s.closed ++ [⟨s.base.stream.path, s.current, invalid⟩]
      current := [] }

/-- `flush`. -/
def flush (s : LogAppender) : LogAppender :=
  let (disk, stream) := s.base.stream.flush s.disk
  { s with disk := disk, base := { s.base with stream := stream } }

/-- `Timeflush`. `NextFlushTime` is made when it is first reached, and is the time of the last
flush from the first flush on. -/
def timeflush (now : Int) (s : LogAppender) : LogAppender :=
  let counted := { s with count := s.count + 1 }
  if counted.count < checkInterval then counted
  else
    let next := counted.nextFlushTime.getD (now + flushInterval)
    if next < now then { counted.flush with nextFlushTime := some now }
    else { counted with nextFlushTime := some next }

/-- `BaseLogAppender::append`. The length of the line is counted also if an error cut it. -/
def write (line : Text) (writes : List WriteAnswer) (s : LogAppender) : Option LogAppender :=
  (BaseLogAppender.writeLoop s.disk s.base.stream line writes).map fun (disk, stream, stored) =>
    { s with
      disk := disk
      base := { s.base with
        stream := stream
        writtenBytes := s.base.writtenBytes + line.length }
      current := s.current ++ [⟨line, stored⟩] }

/-- `append`. -/
def append (line : Text) (answers : AppendAnswers) (s : LogAppender) : Option LogAppender :=
  (s.write line answers.writes).bind fun s =>
    if rollSize < s.base.writtenBytes then s.rollFile answers.rolls false
    else some (s.timeflush answers.now)

/-- `safeAppend`, which holds the lock. -/
def safeAppend (line : Text) (answers : AppendAnswers) (s : LogAppender) : Option LogAppender :=
  match answers.invalid with
  | some opening => (s.rollFile opening true).bind fun s => s.append line answers
  | none => s.append line answers

/-- The destructor closes the stream. -/
def destroyed (s : LogAppender) : Disk Text UInt8 := s.base.stream.settled s.disk

/-- All generations, the one that is open last. -/
def generations (s : LogAppender) : List Generation :=
  s.closed ++ [⟨s.base.stream.path, s.current, false⟩]

/-- What the callers do. -/
inductive Act
  | append (line : Text) (answers : AppendAnswers)
  | safeAppend (line : Text) (answers : AppendAnswers)
  | flush
  deriving DecidableEq, Repr

def step (s : LogAppender) : Act → Option LogAppender
  | .append line answers => s.append line answers
  | .safeAppend line answers => s.safeAppend line answers
  | .flush => some s.flush

end LogAppender

/-! ### Names -/

/-- The suffix of a name with a dot. -/
theorem getSuffix_append (front : Text) {suffix : Text} (noDot : 46 ∉ suffix) :
    getSuffix (front ++ 46 :: suffix) = some (46 :: suffix) := by
  have before : ∀ byte ∈ suffix.reverse, decide (byte ≠ 46) = true := by
    intro byte member
    refine decide_eq_true fun same => noDot ?_
    rw [← same]
    exact List.mem_reverse.mp member
  have reversed : (front ++ 46 :: suffix).reverse = suffix.reverse ++ 46 :: front.reverse := by
    simp
  unfold getSuffix
  rw [if_pos (by simp), reversed, List.takeWhile_append_of_pos before,
    List.takeWhile_cons_of_neg (by decide), List.append_nil, List.reverse_reverse]

/-- A suffix is a dot and what is behind it. -/
theorem getSuffix_eq_some {filename type : Text} (found : getSuffix filename = some type) :
    ∃ suffix, type = 46 :: suffix ∧ 46 ∉ suffix := by
  unfold getSuffix at found
  split at found
  · refine ⟨_, (Option.some.inj found).symm, fun member => ?_⟩
    have isOther := List.mem_takeWhile_imp (List.mem_reverse.mp member)
    exact absurd isOther (by decide)
  · cases found

/-! ### One line -/

/-- How much of a line some answers of `fwrite` take. -/
def storedBy : Text → List WriteAnswer → Text
  | _, [] => []
  | rest, answer :: more =>
    if rest = [] then []
    else if answer.count ≠ rest.length ∧ answer.error = true then rest.take answer.count
    else rest.take answer.count ++ storedBy (rest.drop answer.count) more

namespace BaseLogAppender

/-- The loop of `append` puts what `fwrite` takes behind the file, and takes everything if no
error is reported. -/
theorem writeLoop_spec {disk after : Disk Text UInt8} {stream next : Handle Text UInt8}
    {line stored : Text} {writes : List WriteAnswer}
    (returned : writeLoop disk stream line writes = some (after, next, stored)) :
    stored = storedBy line writes ∧ next.path = stream.path ∧
      next.settled after = Function.update (stream.settled disk) stream.path
        (stream.settled disk stream.path ++ stored) ∧
      ((∀ answer ∈ writes, answer.error = false) → stored = line) := by
  have nothing : stream.settled disk = Function.update (stream.settled disk) stream.path
      (stream.settled disk stream.path ++ []) := by
    rw [List.append_nil, Function.update_eq_self]
  induction writes generalizing disk stream line after next stored with
  | nil =>
    unfold writeLoop at returned
    split at returned
    · rename_i isEmpty
      obtain ⟨rfl, rfl, rfl⟩ := returned
      exact ⟨rfl, rfl, nothing, fun _ => isEmpty.symm⟩
    · cases returned
  | cons answer more inductionHypothesis =>
    unfold writeLoop at returned
    unfold storedBy
    split at returned
    · rename_i isEmpty
      obtain ⟨rfl, rfl, rfl⟩ := returned
      rw [if_pos isEmpty]
      exact ⟨rfl, rfl, nothing, fun _ => isEmpty.symm⟩
    · rename_i nonempty
      rw [if_neg nonempty]
      split at returned
      · have settled := Handle.settled_write disk stream (line.take answer.count) answer.flushed
        simp only at returned
        split at returned
        · rename_i cut
          obtain ⟨rfl, rfl, rfl⟩ := returned
          rw [if_pos cut]
          refine ⟨rfl, rfl, settled, fun fine => ?_⟩
          have reported := fine answer List.mem_cons_self
          rw [cut.2] at reported
          cases reported
        · rename_i goesOn
          rw [if_neg goesOn]
          obtain ⟨⟨disk', stream', rest⟩, again, same⟩ := Option.map_eq_some_iff.mp returned
          obtain ⟨rfl, rfl, rfl⟩ := same
          obtain ⟨isStored, path, later, complete⟩ := inductionHypothesis again (by
            rw [List.append_nil, Function.update_eq_self])
          refine ⟨by rw [isStored], path, ?_, fun fine => ?_⟩
          · rw [later, settled]
            simp only [Handle.write_path, Function.update_self, Function.update_idem,
              List.append_assoc]
          · rw [complete fun other member => fine other (List.mem_cons_of_mem _ member),
              List.take_append_drop]
      · cases returned

end BaseLogAppender

/-! ### Generations -/

namespace Generation

/-- The bytes of the lines that were asked for. -/
def size (lines : List Written) : Nat := (lines.map fun written => written.line.length).sum

theorem size_append (first second : List Written) :
    size (first ++ second) = size first + size second := by
  unfold size
  rw [List.map_append, List.sum_append]

/-- What some generations put into a file. -/
def inFile (generations : List Generation) (path : Text) : Text :=
  generations.flatMap fun generation =>
    if generation.path = path then generation.lines.flatMap Written.stored else []

theorem inFile_snoc (generations : List Generation) (last : Generation) (path : Text) :
    inFile (generations ++ [last]) path = inFile generations path ++
      if last.path = path then last.lines.flatMap Written.stored else [] := by
  unfold inFile
  rw [List.flatMap_append, List.flatMap_singleton]

end Generation

namespace LogAppender

open Generation

/-! ### What a call does -/

/-- The files hold what they held at first, and behind it the lines of their generations; a
generation is rolled by its last line, and by no other; and the names are those of the first file
with a time in between. The file that is open may be full. -/
structure Filling (initial : Disk Text UInt8) (filename : Text) (s : LogAppender) : Prop where
  contents : ∀ path, s.destroyed path = initial path ++ inFile s.generations path
  counted : s.base.writtenBytes = size s.current
  last : ∀ generation ∈ s.generations, size generation.lines.dropLast ≤ rollSize
  full : ∀ generation ∈ s.closed, generation.invalid = false → rollSize < size generation.lines
  suffix : getSuffix filename = some s.base.type
  front : s.logFileName = getFileName filename
  named : ∀ generation ∈ s.generations, generation.path = filename ∨
    ∃ time, generation.path = getFileName filename ++ time ++ s.base.type

/-- The invariant between two calls. -/
structure Kept (initial : Disk Text UInt8) (filename : Text) (s : LogAppender) : Prop where
  filling : s.Filling initial filename
  within : size s.current ≤ rollSize

/-- All lines of the generations. -/
def written (s : LogAppender) : List Written := s.generations.flatMap Generation.lines

theorem written_eq (s : LogAppender) :
    s.written = s.closed.flatMap Generation.lines ++ s.current := by
  unfold written generations
  rw [List.flatMap_append, List.flatMap_singleton]

theorem forall_mem_generations (s : LogAppender) (property : Generation → Prop) :
    (∀ generation ∈ s.generations, property generation) ↔
      (∀ generation ∈ s.closed, property generation) ∧
        property ⟨s.base.stream.path, s.current, false⟩ := by
  unfold generations
  rw [List.forall_mem_append, List.forall_mem_singleton]

section

variable {initial : Disk Text UInt8} {filename : Text} {s next : LogAppender}

/-- Handing bytes over changes none of it. -/
theorem Filling.of_settled (filling : s.Filling initial filename)
    (settled : next.destroyed = s.destroyed) (path : next.base.stream.path = s.base.stream.path)
    (writtenBytes : next.base.writtenBytes = s.base.writtenBytes)
    (type : next.base.type = s.base.type) (front : next.logFileName = s.logFileName)
    (closed : next.closed = s.closed) (current : next.current = s.current) :
    next.Filling initial filename := by
  have generations : next.generations = s.generations := by
    unfold LogAppender.generations
    rw [closed, path, current]
  refine ⟨?_, ?_, ?_, ?_, ?_, front.trans filling.front, ?_⟩
  · rw [settled, generations]
    exact filling.contents
  · rw [writtenBytes, current]
    exact filling.counted
  · rw [generations]
    exact filling.last
  · rw [closed]
    exact filling.full
  · rw [type]
    exact filling.suffix
  · rw [generations, type]
    exact filling.named

theorem flush_kept (kept : s.Kept initial filename) : s.flush.Kept initial filename :=
  ⟨kept.filling.of_settled (Handle.settled_flush s.disk s.base.stream) rfl rfl rfl rfl rfl rfl,
    kept.within⟩

/-- `Timeflush` flushes or does nothing but count. -/
theorem timeflush_kept (kept : s.Kept initial filename) (now : Int) :
    (s.timeflush now).Kept initial filename ∧ (s.timeflush now).written = s.written := by
  have flushed := flush_kept kept
  unfold timeflush
  simp only
  split
  · exact ⟨⟨kept.filling.of_settled rfl rfl rfl rfl rfl rfl rfl, kept.within⟩, rfl⟩
  · split
    · exact ⟨⟨flushed.filling.of_settled rfl rfl rfl rfl rfl rfl rfl, kept.within⟩, rfl⟩
    · exact ⟨⟨kept.filling.of_settled rfl rfl rfl rfl rfl rfl rfl, kept.within⟩, rfl⟩

/-- Rolling closes a generation and begins an empty one. -/
theorem rollFile_eq_some {opening : Opening} {invalid : Bool}
    (rolled : s.rollFile opening invalid = some next) :
    ∃ type, getSuffix (s.getLogFileName opening.nowToString) = some type ∧ next = { s with
      disk := s.base.stream.settled s.disk
      base := ⟨.opened (s.getLogFileName opening.nowToString), type, 0⟩
      closed := s.closed ++ [⟨s.base.stream.path, s.current, invalid⟩]
      current := [] } := by
  obtain ⟨base, made, rfl⟩ := Option.map_eq_some_iff.mp rolled
  obtain ⟨type, found, made⟩ := Option.bind_eq_some_iff.mp made
  split at made
  · obtain rfl := Option.some.inj made
    exact ⟨type, found, rfl⟩
  · cases made

/-- The new file may be the old one, and then goes on behind it. -/
theorem rollFile_kept {opening : Opening} {invalid : Bool} (filling : s.Filling initial filename)
    (full : invalid = false → rollSize < size s.current)
    (rolled : s.rollFile opening invalid = some next) :
    next.Kept initial filename ∧ next.written = s.written := by
  obtain ⟨type, found, rfl⟩ := rollFile_eq_some rolled
  obtain ⟨tail, isType, noDot⟩ := getSuffix_eq_some filling.suffix
  obtain rfl : type = s.base.type := by
    unfold getLogFileName at found
    rw [isType, getSuffix_append _ noDot] at found
    exact (Option.some.inj found).symm.trans isType.symm
  obtain ⟨lastClosed, lastCurrent⟩ := (forall_mem_generations s _).mp filling.last
  obtain ⟨namedClosed, namedCurrent⟩ := (forall_mem_generations s _).mp filling.named
  refine ⟨⟨⟨fun path => ?_, rfl, ?_, ?_, filling.suffix, filling.front, ?_⟩, Nat.zero_le _⟩, ?_⟩
  · show (Handle.opened _).settled (s.base.stream.settled s.disk) path = _
    have before := filling.contents path
    unfold destroyed generations at before
    unfold generations
    rw [Handle.settled_opened, before, inFile_snoc, inFile_snoc, inFile_snoc]
    simp
  · rw [forall_mem_generations, List.forall_mem_append, List.forall_mem_singleton]
    exact ⟨⟨lastClosed, lastCurrent⟩, Nat.zero_le _⟩
  · rw [List.forall_mem_append, List.forall_mem_singleton]
    exact ⟨filling.full, full⟩
  · rw [forall_mem_generations, List.forall_mem_append, List.forall_mem_singleton]
    refine ⟨⟨namedClosed, namedCurrent⟩, .inr ⟨opening.nowToString, ?_⟩⟩
    show s.getLogFileName opening.nowToString = _
    unfold getLogFileName
    rw [filling.front]
  · rw [written_eq, written_eq, List.flatMap_append, List.flatMap_singleton, List.append_nil]

/-- A line goes behind the lines of the file that is open. -/
theorem write_filling {line : Text} {writes : List WriteAnswer} (kept : s.Kept initial filename)
    (returned : s.write line writes = some next) :
    next.Filling initial filename ∧ next.written = s.written ++ [⟨line, storedBy line writes⟩] ∧
      next.current = s.current ++ [⟨line, storedBy line writes⟩] ∧
      ((∀ answer ∈ writes, answer.error = false) → storedBy line writes = line) := by
  obtain ⟨⟨disk, stream, stored⟩, looped, rfl⟩ := Option.map_eq_some_iff.mp returned
  obtain ⟨rfl, path, settled, complete⟩ := BaseLogAppender.writeLoop_spec looped
  obtain ⟨lastClosed, -⟩ := (forall_mem_generations s _).mp kept.filling.last
  obtain ⟨namedClosed, namedCurrent⟩ := (forall_mem_generations s _).mp kept.filling.named
  refine ⟨⟨fun other => ?_, ?_, ?_, kept.filling.full, kept.filling.suffix, kept.filling.front,
    ?_⟩, ?_, rfl, complete⟩
  · show stream.settled disk other = _
    have before := kept.filling.contents other
    unfold destroyed generations at before
    rw [inFile_snoc] at before
    unfold generations
    rw [settled, inFile_snoc]
    simp only [path, List.flatMap_append, List.flatMap_singleton]
    by_cases same : s.base.stream.path = other
    · subst same
      rw [if_pos rfl] at before
      rw [Function.update_self, if_pos rfl, before, List.append_assoc, List.append_assoc]
    · rw [if_neg same] at before
      rw [Function.update_of_ne (Ne.symm same), if_neg same, before]
  · show s.base.writtenBytes + line.length = size (s.current ++ _)
    rw [kept.filling.counted, size_append]
    rfl
  · rw [forall_mem_generations]
    refine ⟨lastClosed, ?_⟩
    show size (s.current ++ _).dropLast ≤ rollSize
    rw [List.dropLast_concat]
    exact kept.within
  · rw [forall_mem_generations]
    exact ⟨namedClosed, path ▸ namedCurrent⟩
  · rw [written_eq, written_eq, List.append_assoc]

theorem append_kept {line : Text} {answers : AppendAnswers} (kept : s.Kept initial filename)
    (returned : s.append line answers = some next) :
    next.Kept initial filename ∧
      next.written = s.written ++ [⟨line, storedBy line answers.writes⟩] ∧
      ((∀ answer ∈ answers.writes, answer.error = false) →
        storedBy line answers.writes = line) := by
  obtain ⟨middle, wrote, returned⟩ := Option.bind_eq_some_iff.mp returned
  obtain ⟨filling, lines, -, complete⟩ := write_filling kept wrote
  split at returned
  · rename_i full
    rw [filling.counted] at full
    obtain ⟨keptNext, same⟩ := rollFile_kept filling (fun _ => full) returned
    exact ⟨keptNext, same.trans lines, complete⟩
  · rename_i within
    rw [filling.counted] at within
    obtain rfl := Option.some.inj returned
    obtain ⟨keptNext, same⟩ := timeflush_kept ⟨filling, Nat.le_of_not_lt within⟩ answers.now
    exact ⟨keptNext, same.trans lines, complete⟩

theorem safeAppend_kept {line : Text} {answers : AppendAnswers} (kept : s.Kept initial filename)
    (returned : s.safeAppend line answers = some next) :
    next.Kept initial filename ∧
      next.written = s.written ++ [⟨line, storedBy line answers.writes⟩] ∧
      ((∀ answer ∈ answers.writes, answer.error = false) →
        storedBy line answers.writes = line) := by
  unfold safeAppend at returned
  split at returned
  · obtain ⟨middle, rolled, returned⟩ := Option.bind_eq_some_iff.mp returned
    obtain ⟨keptMiddle, same⟩ := rollFile_kept kept.filling
      (fun impossible : true = false => by cases impossible) rolled
    rw [← same]
    exact append_kept keptMiddle returned
  · exact append_kept kept returned

end

/-! ### Whole runs -/

/-- The line of an act, and how much of it is taken. -/
def Act.written : Act → List Written
  | .append line answers => [⟨line, storedBy line answers.writes⟩]
  | .safeAppend line answers => [⟨line, storedBy line answers.writes⟩]
  | .flush => []

/-- No write of an act reports an error. -/
def Act.Fine : Act → Prop
  | .append _ answers => ∀ answer ∈ answers.writes, answer.error = false
  | .safeAppend _ answers => ∀ answer ∈ answers.writes, answer.error = false
  | .flush => True

theorem step_kept {initial : Disk Text UInt8} {filename : Text} {s next : LogAppender} {act : Act}
    (kept : s.Kept initial filename) (taken : s.step act = some next) :
    next.Kept initial filename ∧ next.written = s.written ++ act.written ∧
      (act.Fine → ∀ written ∈ act.written, written.stored = written.line) := by
  cases act with
  | append line answers =>
    obtain ⟨keptNext, lines, complete⟩ := append_kept kept taken
    exact ⟨keptNext, lines, fun fine => List.forall_mem_singleton.mpr (complete fine)⟩
  | safeAppend line answers =>
    obtain ⟨keptNext, lines, complete⟩ := safeAppend_kept kept taken
    exact ⟨keptNext, lines, fun fine => List.forall_mem_singleton.mpr (complete fine)⟩
  | flush =>
    obtain rfl := Option.some.inj taken
    exact ⟨flush_kept kept, (List.append_nil _).symm, nofun⟩

theorem make_kept {initial : Disk Text UInt8} {filename : Text} {opens : Bool}
    {start : LogAppender} (made : make initial filename opens = some start) :
    start.Kept initial filename ∧ start.written = [] := by
  obtain ⟨base, opened, rfl⟩ := Option.map_eq_some_iff.mp made
  obtain ⟨type, found, opened⟩ := Option.bind_eq_some_iff.mp opened
  split at opened
  · obtain rfl := Option.some.inj opened
    refine ⟨⟨⟨fun path => ?_, rfl, ?_, nofun, found, rfl, ?_⟩, Nat.zero_le _⟩, rfl⟩
    · unfold destroyed
      rw [Handle.settled_opened]
      simp [generations, inFile]
    · rw [forall_mem_generations]
      exact ⟨nofun, Nat.zero_le _⟩
    · rw [forall_mem_generations]
      exact ⟨nofun, .inl rfl⟩
  · cases opened

theorem run_kept {initial : Disk Text UInt8} {filename : Text} {opens : Bool}
    {start final : LogAppender} (made : make initial filename opens = some start)
    {acts : List Act} (run : Run (StepOf step) start acts final) :
    final.Kept initial filename ∧ final.written = acts.flatMap Act.written ∧
      ((∀ act ∈ acts, act.Fine) → ∀ written ∈ final.written, written.stored = written.line) := by
  induction run with
  | nil =>
    obtain ⟨kept, nothing⟩ := make_kept made
    rw [nothing]
    exact ⟨kept, rfl, fun _ => nofun⟩
  | @snoc _ _ acts act run last inductionHypothesis =>
    obtain ⟨kept, lines, complete⟩ := inductionHypothesis
    obtain ⟨keptNext, more, completeLast⟩ := step_kept kept last
    refine ⟨keptNext, by rw [more, lines, List.flatMap_append, List.flatMap_singleton],
      fun fine => ?_⟩
    obtain ⟨fineBefore, fineLast⟩ := List.forall_mem_append.mp fine
    rw [more, List.forall_mem_append]
    exact ⟨complete fineBefore, completeLast (List.forall_mem_singleton.mp fineLast)⟩

/-- Along any run of `append`, `safeAppend` and `flush`, with any answers of the file system and the
clock, also if several files get one name: once the appender is destroyed, every file holds what it
held at first and behind it the lines that were written while it was open, in order; the lines of
all files in their order are the lines of the calls, whole unless a write failed, and none is in two
files; only the last line of a file leads beyond `rollSize_`, and a file is given up only then, or
if its descriptor is bad; and each file after the first is named by a time between the two parts of
the first name. -/
theorem files_keep_lines (initial : Disk Text UInt8) (filename : Text) (opens : Bool)
    (start final : LogAppender) (made : make initial filename opens = some start)
    (acts : List Act) (run : Run (StepOf step) start acts final) :
    (∀ path, final.destroyed path = initial path ++ inFile final.generations path) ∧
      final.generations.flatMap Generation.lines = acts.flatMap Act.written ∧
      ((∀ act ∈ acts, act.Fine) → ∀ generation ∈ final.generations,
        ∀ written ∈ generation.lines, written.stored = written.line) ∧
      (∀ generation ∈ final.generations, size generation.lines.dropLast ≤ rollSize) ∧
      (∀ generation ∈ final.closed,
        generation.invalid = false → rollSize < size generation.lines) ∧
      ∃ type, getSuffix filename = some type ∧ ∀ generation ∈ final.generations,
        generation.path = filename ∨
          ∃ time, generation.path = getFileName filename ++ time ++ type := by
  obtain ⟨kept, lines, complete⟩ := run_kept made run
  refine ⟨kept.filling.contents, lines, fun fine generation member written isLine => ?_,
    kept.filling.last, kept.filling.full, _, kept.filling.suffix, kept.filling.named⟩
  exact complete fine written (List.mem_flatMap.mpr ⟨generation, member, isLine⟩)

/-- Two lines in one second fill the file, and the new file is the one with the name of that
second. A third line fills it again, and the newest file goes on behind it. The first write of the
fourth line fails. -/
def oneSecond : List Act :=
  [.append (List.replicate 2000 97) ⟨[⟨2000, false, 1990⟩], none, ⟨[55], true⟩, 0⟩,
    .append (List.replicate 100 98) ⟨[⟨100, false, 105⟩], none, ⟨[55], true⟩, 0⟩,
    .safeAppend (List.replicate 2100 99) ⟨[⟨2100, false, 0⟩], none, ⟨[55], true⟩, 0⟩,
    .append [100, 101] ⟨[⟨1, true, 0⟩], none, ⟨[55], true⟩, 0⟩]

/-- The appender of the file `a.l`. -/
def opened : LogAppender :=
  ⟨fun _ => [], ⟨.opened [97, 46, 108], [46, 108], 0⟩, [97], 0, none, [], []⟩

theorem files_keep_lines_second : ∃ final,
    exec step opened oneSecond = some final ∧
      (∀ path, final.destroyed path = inFile final.generations path) ∧
      final.generations.flatMap Generation.lines = oneSecond.flatMap Act.written ∧
      (∀ generation ∈ final.generations, size generation.lines.dropLast ≤ rollSize) ∧
      ∀ generation ∈ final.closed,
        generation.invalid = false → rollSize < size generation.lines := by
  have done : (exec step opened oneSecond).isSome = true := by decide +kernel
  obtain ⟨final, executed⟩ := Option.isSome_iff_exists.mp done
  obtain ⟨contents, lines, -, last, full, -⟩ := files_keep_lines (fun _ => []) [97, 46, 108] true
    opened final rfl oneSecond (run_of_exec executed)
  exact ⟨final, executed, contents, lines, last, full⟩

end LogAppender

/-! ### The synchronous log -/

/-- `SyncLog`, which is its appender. -/
abbrev SyncLog := LogAppender

namespace SyncLog

open Generation LogAppender

/-- A line between two rules. -/
def banner (words : Text) : Text :=
  List.replicate 36 61 ++ [32] ++ words ++ [32] ++ List.replicate 36 61 ++ [32, 10]

/-- The first line of a log. -/
def openingLine : Text :=
  banner [0xE6, 0x97, 0xA5, 0xE5, 0xBF, 0x97, 0xE5, 0x90, 0xAF, 0xE5, 0x8A, 0xA8]

/-- The last line of a log. -/
def closingLine : Text :=
  banner [0xE6, 0x97, 0xA5, 0xE5, 0xBF, 0x97, 0xE7, 0xBB, 0x93, 0xE6, 0x9D, 0x9F]

/-- `append`, and the same two calls in the constructor and in the destructor. -/
def append (s : SyncLog) (log : Text) (answers : AppendAnswers) : Option SyncLog :=
  (s.safeAppend log answers).map LogAppender.flush

/-- The constructor. -/
def make (disk : Disk Text UInt8) (filename : Text) (opens : Bool) (answers : AppendAnswers) :
    Option SyncLog :=
  (LogAppender.make disk filename opens).bind fun s => append s openingLine answers

/-- The destructor. -/
def destroy (s : SyncLog) (answers : AppendAnswers) : Option (Disk Text UInt8) :=
  (append s closingLine answers).map LogAppender.destroyed

/-- A call of `append`. -/
def step (s : SyncLog) (call : Text × AppendAnswers) : Option SyncLog := append s call.1 call.2

/-- The line of a call, and how much of it is taken. -/
def writtenBy (call : Text × AppendAnswers) : Written := ⟨call.1, storedBy call.1 call.2.writes⟩

/-- No write of a call reports an error. -/
def Fine (call : Text × AppendAnswers) : Prop := ∀ answer ∈ call.2.writes, answer.error = false

/-- Between two calls the stream holds nothing back. -/
structure Synced (initial : Disk Text UInt8) (filename : Text) (s : SyncLog) : Prop where
  kept : s.Kept initial filename
  nothingHeld : s.base.stream.held = []

theorem append_synced {initial : Disk Text UInt8} {filename : Text} {s next : SyncLog}
    (call : Text × AppendAnswers) (kept : s.Kept initial filename)
    (taken : append s call.1 call.2 = some next) :
    Synced initial filename next ∧ next.written = s.written ++ [writtenBy call] ∧
      (Fine call → (writtenBy call).stored = call.1) := by
  obtain ⟨middle, appended, rfl⟩ := Option.map_eq_some_iff.mp taken
  obtain ⟨keptMiddle, lines, complete⟩ := safeAppend_kept kept appended
  exact ⟨⟨flush_kept keptMiddle, rfl⟩, lines, complete⟩

theorem run_synced {initial : Disk Text UInt8} {filename : Text} {opens : Bool}
    {answers : AppendAnswers} {start final : SyncLog}
    (made : make initial filename opens answers = some start) {calls : List (Text × AppendAnswers)}
    (run : Run (StepOf step) start calls final) :
    Synced initial filename final ∧
      final.written = ((openingLine, answers) :: calls).map writtenBy ∧
      ∀ call ∈ (openingLine, answers) :: calls, Fine call → (writtenBy call).stored = call.1 := by
  induction run with
  | nil =>
    obtain ⟨appender, opened, appended⟩ := Option.bind_eq_some_iff.mp made
    obtain ⟨kept, nothing⟩ := make_kept opened
    obtain ⟨synced, lines, complete⟩ := append_synced (openingLine, answers) kept appended
    rw [nothing] at lines
    exact ⟨synced, lines, List.forall_mem_singleton.mpr complete⟩
  | snoc run last inductionHypothesis =>
    obtain ⟨synced, lines, complete⟩ := inductionHypothesis
    obtain ⟨syncedNext, more, completeLast⟩ := append_synced _ synced.kept last
    refine ⟨syncedNext, ?_, ?_⟩
    · rw [more, lines, ← List.cons_append, List.map_append]
      rfl
    · rw [← List.cons_append, List.forall_mem_append, List.forall_mem_singleton]
      exact ⟨complete, completeLast⟩

/-- Whenever a call of the synchronous log has returned, its line is in the files: every file
holds what it held at first and behind it what `fwrite` took of the lines that were written while
it was open, the opening line and those of the calls so far, in order. A line is whole unless one
of its own writes reported an error. Nothing waits to be flushed, and when the destructor returns,
the closing line is there too. `fflush` and `fclose` succeed. -/
theorem lines_are_on_disk (initial : Disk Text UInt8) (filename : Text) (opens : Bool)
    (answers : AppendAnswers) (start final : SyncLog)
    (made : make initial filename opens answers = some start)
    (calls : List (Text × AppendAnswers)) (run : Run (StepOf step) start calls final) :
    (∀ path, final.disk path = initial path ++ inFile final.generations path) ∧
      final.generations.flatMap Generation.lines =
        ((openingLine, answers) :: calls).map writtenBy ∧
      (∀ call ∈ (openingLine, answers) :: calls,
        Fine call → (writtenBy call).stored = call.1) ∧
      ∀ closing disk, destroy final closing = some disk → ∃ generations,
        (∀ path, disk path = initial path ++ inFile generations path) ∧
          generations.flatMap Generation.lines =
            ((openingLine, answers) :: calls ++ [(closingLine, closing)]).map writtenBy ∧
          (Fine (closingLine, closing) →
            (writtenBy (closingLine, closing)).stored = closingLine) := by
  obtain ⟨synced, lines, complete⟩ := run_synced made run
  refine ⟨fun path => ?_, lines, complete, fun closing disk destroyed => ?_⟩
  · rw [← synced.kept.filling.contents path]
    unfold destroyed
    rw [Handle.settled_of_nil _ _ synced.nothingHeld]
  · obtain ⟨last, appended, rfl⟩ := Option.map_eq_some_iff.mp destroyed
    obtain ⟨syncedLast, more, completeLast⟩ :=
      append_synced (closingLine, closing) synced.kept appended
    refine ⟨last.generations, syncedLast.kept.filling.contents, ?_, completeLast⟩
    rw [List.map_append, ← lines]
    exact more

/-- The answers of a file system that takes a line as a whole and hands over ten bytes of it. -/
def whole (line : Text) : AppendAnswers :=
  ⟨[⟨line.length, false, 10⟩], none, ⟨[55], true⟩, 0⟩

/-- The answers of a file system that takes one byte of a line and then reports an error. -/
def cut : AppendAnswers := ⟨[⟨1, true, 0⟩], none, ⟨[55], true⟩, 0⟩

/-- One line is taken as a whole, and of the next line one byte. -/
theorem lines_are_on_disk_cut : ∃ start final,
    make (fun _ => []) [97, 46, 108] true (whole openingLine) = some start ∧
      exec step start [([98, 10], whole [98, 10]), ([99, 10], cut)] = some final ∧
      (∀ path, final.disk path = inFile final.generations path) ∧
      final.generations.flatMap Generation.lines =
        [⟨openingLine, openingLine⟩, ⟨[98, 10], [98, 10]⟩, ⟨[99, 10], [99]⟩] := by
  have done : ((make (fun _ => []) [97, 46, 108] true (whole openingLine)).bind fun start =>
      exec step start [([98, 10], whole [98, 10]), ([99, 10], cut)]).isSome = true := by
    decide +kernel
  obtain ⟨final, executed⟩ := Option.isSome_iff_exists.mp done
  obtain ⟨start, made, executed⟩ := Option.bind_eq_some_iff.mp executed
  obtain ⟨contents, lines, complete, -⟩ := lines_are_on_disk (fun _ => []) [97, 46, 108] true
    (whole openingLine) start final made _ (run_of_exec executed)
  refine ⟨start, final, made, executed, contents, lines.trans ?_⟩
  have opening : writtenBy (openingLine, whole openingLine) = ⟨openingLine, openingLine⟩ :=
    congrArg (Written.mk openingLine)
      (complete _ List.mem_cons_self (List.forall_mem_singleton.mpr rfl))
  have first : writtenBy ([98, 10], whole [98, 10]) = ⟨[98, 10], [98, 10]⟩ :=
    congrArg (Written.mk [98, 10])
      (complete _ (List.mem_cons_of_mem _ List.mem_cons_self) (List.forall_mem_singleton.mpr rfl))
  rw [List.map_cons, List.map_cons, opening, first]
  rfl

end SyncLog

end YYNet
