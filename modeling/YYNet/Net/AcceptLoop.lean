/-
This file models the loop of `Acceptor::accept` and proves when it survives and
loses nothing.

The loop takes connections until the queue of the listening socket is empty. The
acceptor keeps a reserve descriptor for the time when the process has no other:
it closes the reserve, accepts one connection in its place, closes that and
opens the reserve again. But the second call is not made on the listening
socket. It is made on the result of the first, which is -1, so that the system
answers EBADF, and for that `acceptAutoOrDie` ends the process.
-/

import YYNet.Lib.Checked
import YYNet.Lib.Loop

namespace YYNet

open Loop

/-! ### The acceptor -/

/-- `errno` after `::accept`, with the values that the switch names. -/
inductive AcceptErrno
  | intr
  | again
  | connAborted
  | proto
  | perm
  | mFile
  | badF
  | fault
  | inval
  | nFile
  | noBufs
  | noMem
  | notSock
  | opNotSupp
  | other
  deriving DecidableEq, Repr

/-- The errors for which `acceptAutoOrDie` returns. -/
def AcceptErrno.tolerated : AcceptErrno → Bool
  | .intr | .again | .connAborted | .proto | .perm | .mFile => true
  | _ => false

/-- What `::accept` answers. -/
inductive AcceptAnswer
  | connection (descriptor : Nat)
  | failure (errno : AcceptErrno)
  deriving DecidableEq, Repr

/-- What `idleFd_` refers to: `/dev/null`, a connection, nothing any more, or -1. -/
inductive IdleFd
  | reserve
  | connection (descriptor : Nat)
  | closed
  | invalid
  deriving DecidableEq, Repr

/-- `acceptAutoOrDie` ends the process. -/
inductive AcceptFault
  | sysFatal
  deriving DecidableEq, Repr

/-- `Acceptor`, with the answers of the system. -/
structure Acceptor where
  /-- The descriptor of the listening socket. -/
  handlerFd : Nat
  /-- What `::accept` on the listening socket answers, until its queue is empty. -/
  answers : List AcceptAnswer
  errno : AcceptErrno
  idleFd : IdleFd
  /-- The connections that were passed to `NewConnection`. -/
  passed : List Nat
  /-- The connections that were closed by the acceptor. -/
  closed : List Nat
  deriving DecidableEq, Repr

namespace Acceptor

/-- `::accept`. -/
def callAccept (acceptor : Acceptor) (fd : Int) : AcceptAnswer × Acceptor :=
  if fd = acceptor.handlerFd then
    match acceptor.answers with
    | [] => (.failure .again, acceptor)
    | answer :: later => (answer, { acceptor with answers := later })
  else if fd < 0 then (.failure .badF, acceptor)
  else (.failure .inval, acceptor)

def acceptAutoOrDie (acceptor : Acceptor) (fd : Int) : Except AcceptFault (Int × Acceptor) :=
  match acceptor.callAccept fd with
  | (.connection descriptor, next) => .ok (descriptor, next)
  | (.failure errno, next) =>
    if errno.tolerated then .ok (-1, { next with errno := errno }) else .error .sysFatal

/-- `close(idleFd_)`. -/
def closeIdle (acceptor : Acceptor) : Acceptor :=
  match acceptor.idleFd with
  | .reserve => { acceptor with idleFd := .closed }
  | .connection descriptor =>
    { acceptor with idleFd := .closed, closed := acceptor.closed ++ [descriptor] }
  | .closed | .invalid => { acceptor with errno := .badF }

/-- `NewConnection`. -/
def newConnection (acceptor : Acceptor) (fd : Int) : Acceptor :=
  { acceptor with passed := acceptor.passed ++ [fd.toNat] }

/-- The branch for EMFILE, which is given the result of the call that failed. -/
def recover (acceptor : Acceptor) (fd : Int) : Except AcceptFault Acceptor := do
  let (idleFd, accepted) ← acceptor.closeIdle.acceptAutoOrDie fd
  let held : IdleFd := if idleFd < 0 then .invalid else .connection idleFd.toNat
  .ok { closeIdle { accepted with idleFd := held } with idleFd := .reserve }

/-- The branch for a result that is not positive. -/
def refused (acceptor : Acceptor) (fd : Int) : Except AcceptFault (Bool × Acceptor) := do
  let next ← if acceptor.errno = .mFile then acceptor.recover fd else .ok acceptor
  .ok (next.errno = .again, next)

/-- One round of the loop of `accept`. -/
def acceptRound (acceptor : Acceptor) : Except AcceptFault (Bool × Acceptor) := do
  let (fd, taken) ← acceptor.acceptAutoOrDie acceptor.handlerFd
  if 0 < fd then .ok (false, taken.newConnection fd) else taken.refused fd

/-- `accept`. -/
def accept (acceptor : Acceptor) : Option (Except AcceptFault Acceptor) :=
  run acceptRound (acceptor.answers.length + 1) acceptor

end Acceptor

/-! ### What the loop should do -/

/-- The connections that are accepted normally, until the queue is empty. The answer behind an
EMFILE is the one to the call that follows it. -/
def acceptedIn : List AcceptAnswer → List Nat
  | [] => []
  | .connection descriptor :: later => descriptor :: acceptedIn later
  | .failure .again :: _ => []
  | [.failure .mFile] => []
  | .failure .mFile :: _ :: later => acceptedIn later
  | .failure _ :: later => acceptedIn later

/-- The connections that are taken off the queue in place of the reserve. -/
def recoveredIn : List AcceptAnswer → List Nat
  | [] => []
  | .connection _ :: later => recoveredIn later
  | .failure .again :: _ => []
  | [.failure .mFile] => []
  | .failure .mFile :: .connection descriptor :: later => descriptor :: recoveredIn later
  | .failure .mFile :: .failure _ :: later => recoveredIn later
  | .failure _ :: later => recoveredIn later

namespace Acceptor

/-- The call returns, has passed on what was accepted normally, has closed what was taken in place
of the reserve, and has a reserve again. -/
def Survives (acceptor : Acceptor) : Prop :=
  ∃ final, acceptor.accept = some (.ok final) ∧
    final.passed = acceptor.passed ++ acceptedIn acceptor.answers ∧
    final.closed = acceptor.closed ++ recoveredIn acceptor.answers ∧
    final.idleFd = .reserve

end Acceptor

/-- Until the queue is empty the system has descriptors to give, and gives positive ones. -/
def Undisturbed : List AcceptAnswer → Prop
  | [] => True
  | .connection descriptor :: later => 0 < descriptor ∧ Undisturbed later
  | .failure errno :: later =>
    errno = .again ∨ errno.tolerated = true ∧ errno ≠ .mFile ∧ Undisturbed later

/-! ### One round -/

namespace Acceptor

theorem callAccept_eq {acceptor : Acceptor} {answer : AcceptAnswer} {later : List AcceptAnswer}
    (first : acceptor.answers = answer :: later) :
    acceptor.callAccept acceptor.handlerFd = (answer, { acceptor with answers := later }) := by
  rw [callAccept, if_pos rfl, first]

theorem acceptAutoOrDie_failure {acceptor next : Acceptor} {fd : Int} {errno : AcceptErrno}
    (failed : acceptor.callAccept fd = (.failure errno, next)) :
    acceptor.acceptAutoOrDie fd =
      if errno.tolerated then .ok (-1, { next with errno := errno }) else .error .sysFatal := by
  rw [acceptAutoOrDie, failed]

theorem acceptRound_drained {acceptor : Acceptor} (drained : acceptor.answers = []) :
    acceptor.acceptRound = .ok (true, { acceptor with errno := .again }) := by
  have failed : acceptor.callAccept acceptor.handlerFd = (.failure .again, acceptor) := by
    rw [callAccept, if_pos rfl, drained]
  rw [acceptRound, acceptAutoOrDie_failure failed]
  rfl

variable {acceptor : Acceptor} {later : List AcceptAnswer}

/-- A tolerated error leads to the branch for a result that is not positive. -/
theorem acceptRound_failure {errno : AcceptErrno}
    (first : acceptor.answers = .failure errno :: later) (tolerated : errno.tolerated = true) :
    acceptor.acceptRound =
      refused { acceptor with answers := later, errno := errno } (-1) := by
  rw [acceptRound, acceptAutoOrDie_failure (callAccept_eq first), if_pos tolerated]
  rfl

theorem acceptRound_again (first : acceptor.answers = .failure .again :: later) :
    acceptor.acceptRound = .ok (true, { acceptor with answers := later, errno := .again }) := by
  rw [acceptRound_failure first rfl]
  rfl

theorem acceptRound_connection {descriptor : Nat}
    (first : acceptor.answers = .connection descriptor :: later) (positive : 0 < descriptor) :
    acceptor.acceptRound = .ok (false,
      { acceptor with answers := later, passed := acceptor.passed ++ [descriptor] }) := by
  rw [acceptRound, acceptAutoOrDie, callAccept_eq first]
  exact if_pos (Int.natCast_pos.mpr positive)

theorem acceptRound_tolerated {errno : AcceptErrno}
    (first : acceptor.answers = .failure errno :: later) (tolerated : errno.tolerated = true)
    (other : errno ≠ .mFile) (goesOn : errno ≠ .again) :
    acceptor.acceptRound =
      .ok (false, { acceptor with answers := later, errno := errno }) := by
  rw [acceptRound_failure first tolerated, refused, if_neg other]
  show Except.ok (decide (errno = .again), _) = _
  rw [decide_eq_false goesOn]

theorem acceptRound_fatal {errno : AcceptErrno}
    (first : acceptor.answers = .failure errno :: later) (fatal : errno.tolerated = false) :
    acceptor.acceptRound = .error .sysFatal := by
  rw [acceptRound, acceptAutoOrDie_failure (callAccept_eq first), if_neg (by simp [fatal])]
  rfl

/-- Without a descriptor the second call is made on -1, and the process ends. -/
theorem acceptRound_mFile (first : acceptor.answers = .failure .mFile :: later) :
    acceptor.acceptRound = .error .sysFatal := by
  have dies (closed : Acceptor) : closed.acceptAutoOrDie (-1) = .error .sysFatal := by
    have failed : closed.callAccept (-1) = (.failure .badF, closed) := by
      rw [callAccept, if_neg (by omega), if_pos (by decide)]
    rw [acceptAutoOrDie_failure failed]
    rfl
  rw [acceptRound_failure first rfl, refused, if_pos rfl, recover, dies]
  rfl

theorem acceptAutoOrDie_passed {fd connfd : Int} {next : Acceptor}
    (taken : acceptor.acceptAutoOrDie fd = .ok (connfd, next)) :
    next.passed = acceptor.passed := by
  have called : (acceptor.callAccept fd).2.passed = acceptor.passed := by
    unfold callAccept
    split
    · split <;> rfl
    · split <;> rfl
  rw [acceptAutoOrDie] at taken
  split at taken
  · rename_i found
    cases taken
    rw [← called, found]
  · rename_i found
    split at taken
    · cases taken
      rw [← called, found]
    · cases taken

theorem closeIdle_passed (acceptor : Acceptor) : acceptor.closeIdle.passed = acceptor.passed := by
  unfold closeIdle
  split <;> rfl

/-- A round passes on one connection with a positive descriptor, or none. -/
theorem acceptRound_passed {ends : Bool} {next : Acceptor}
    (taken : acceptor.acceptRound = .ok (ends, next)) :
    ∃ more, next.passed = acceptor.passed ++ more ∧ ∀ descriptor ∈ more, 0 < descriptor := by
  obtain ⟨⟨fd, accepted⟩, called, rest⟩ := Checked.bind_eq_ok taken
  rw [← acceptAutoOrDie_passed called]
  dsimp only at rest
  split at rest
  · rename_i positive
    cases rest
    exact ⟨[fd.toNat], rfl, by simpa using positive⟩
  · refine ⟨[], ?_, by simp⟩
    rw [List.append_nil]
    rw [refused] at rest
    split at rest
    · obtain ⟨recovered, branch, last⟩ := Checked.bind_eq_ok rest
      cases last
      rw [recover] at branch
      obtain ⟨⟨idleFd, again⟩, second, built⟩ := Checked.bind_eq_ok branch
      cases built
      exact (closeIdle_passed _).trans ((acceptAutoOrDie_passed second).trans (closeIdle_passed _))
    · cases rest
      rfl

/-! ### The loop -/

/-- The connections that a loop passes on have positive descriptors. -/
theorem run_passed {fuel : Nat} {final : Acceptor}
    (returned : run acceptRound fuel acceptor = some (.ok final)) :
    ∃ more, final.passed = acceptor.passed ++ more ∧ ∀ descriptor ∈ more, 0 < descriptor := by
  obtain ⟨last, reached, returns⟩ := rounds_of_run returned
  have extended : ∃ more, last.passed = acceptor.passed ++ more ∧
      ∀ descriptor ∈ more, 0 < descriptor := by
    refine reached.always
      (fun state => ∃ more, state.passed = acceptor.passed ++ more ∧
        ∀ descriptor ∈ more, 0 < descriptor) ⟨[], by simp, by simp⟩ ?_
    rintro state next - ⟨more, extended, positive⟩ round
    obtain ⟨new, added, alsoPositive⟩ := acceptRound_passed round
    refine ⟨more ++ new, by rw [added, extended, List.append_assoc], ?_⟩
    exact List.forall_mem_append.mpr ⟨positive, alsoPositive⟩
  obtain ⟨more, earlier, positive⟩ := extended
  obtain ⟨new, added, alsoPositive⟩ := acceptRound_passed returns
  refine ⟨more ++ new, by rw [added, earlier, List.append_assoc], ?_⟩
  exact List.forall_mem_append.mpr ⟨positive, alsoPositive⟩

/-- Undisturbed, the loop passes on every connection and keeps its reserve. -/
theorem run_undisturbed (undisturbed : Undisturbed acceptor.answers) :
    ∃ final, run acceptRound (acceptor.answers.length + 1) acceptor = some (.ok final) ∧
      final.passed = acceptor.passed ++ acceptedIn acceptor.answers ∧
      final.closed = acceptor.closed ++ recoveredIn acceptor.answers ∧
      final.idleFd = acceptor.idleFd := by
  generalize answers : acceptor.answers = list at undisturbed
  induction list generalizing acceptor with
  | nil =>
    refine ⟨{ acceptor with errno := .again }, ?_, (List.append_nil _).symm,
      (List.append_nil _).symm, rfl⟩
    rw [run, acceptRound_drained answers]
  | cons answer later inductionHypothesis =>
    rw [List.length_cons, run]
    cases answer with
    | connection descriptor =>
      let next := { acceptor with answers := later, passed := acceptor.passed ++ [descriptor] }
      have rest : next.answers = later := rfl
      obtain ⟨final, returned, passed, closed, idle⟩ := inductionHypothesis rest undisturbed.2
      rw [acceptRound_connection answers undisturbed.1]
      refine ⟨final, returned, ?_, closed, idle⟩
      rw [passed, List.append_assoc]
      rfl
    | failure errno =>
      by_cases drained : errno = .again
      · subst drained
        rw [acceptRound_again answers]
        exact ⟨_, rfl, (List.append_nil _).symm, (List.append_nil _).symm, rfl⟩
      · obtain ⟨tolerated, other, rest⟩ := undisturbed.resolve_left drained
        let next := { acceptor with answers := later, errno := errno }
        have left : next.answers = later := rfl
        obtain ⟨final, returned, passed, closed, idle⟩ := inductionHypothesis left rest
        rw [acceptRound_tolerated answers tolerated other drained]
        refine ⟨final, returned, ?_, ?_, idle⟩
        · rw [passed]
          cases errno <;> first | rfl | exact absurd rfl drained | exact absurd rfl other
        · rw [closed]
          cases errno <;> first | rfl | exact absurd rfl drained | exact absurd rfl other

/-- Disturbed, the loop ends the process or has lost a connection. -/
theorem run_disturbed {fuel : Nat} {final : Acceptor}
    (returned : run acceptRound fuel acceptor = some (.ok final))
    (whole : final.passed = acceptor.passed ++ acceptedIn acceptor.answers) :
    Undisturbed acceptor.answers := by
  generalize answers : acceptor.answers = list at whole ⊢
  induction list generalizing acceptor fuel with
  | nil => trivial
  | cons answer later inductionHypothesis =>
    obtain ⟨fuel, rfl⟩ : ∃ less, fuel = less + 1 :=
      ⟨fuel - 1, by cases fuel <;> [cases returned; rfl]⟩
    have round := returned
    rw [run] at round
    cases answer with
    | connection descriptor =>
      rcases Nat.eq_zero_or_pos descriptor with rfl | positive
      · obtain ⟨more, extended, allPositive⟩ := run_passed returned
        have same : more = 0 :: acceptedIn later :=
          List.append_cancel_left (extended.symm.trans whole)
        exact absurd (allPositive 0 (same ▸ List.mem_cons_self)) (lt_irrefl 0)
      · rw [acceptRound_connection answers positive] at round
        refine ⟨positive, inductionHypothesis round rfl ?_⟩
        rw [whole, List.append_assoc]
        rfl
    | failure errno =>
      by_cases drained : errno = .again
      · exact .inl drained
      · by_cases tolerated : errno.tolerated = true
        · by_cases full : errno = .mFile
          · subst full
            rw [acceptRound_mFile answers] at round
            cases round
          · rw [acceptRound_tolerated answers tolerated full drained] at round
            refine .inr ⟨tolerated, full, inductionHypothesis round rfl ?_⟩
            rw [whole]
            cases errno <;> first | rfl | exact absurd rfl drained | exact absurd rfl full
        · rw [acceptRound_fatal answers (Bool.eq_false_iff.mpr tolerated)] at round
          cases round

/-! ### When the loop survives -/

/-- `accept` survives, keeps its reserve and loses no connection when the system always has a
descriptor to give, and at no other time. -/
theorem survives_iff (acceptor : Acceptor) (reserved : acceptor.idleFd = .reserve) :
    acceptor.Survives ↔ Undisturbed acceptor.answers := by
  constructor
  · rintro ⟨final, returned, passed, -, -⟩
    exact run_disturbed returned passed
  · intro undisturbed
    obtain ⟨final, returned, passed, closed, idle⟩ := run_undisturbed undisturbed
    exact ⟨final, returned, passed, closed, idle.trans reserved⟩

/-- An acceptor with its reserve, for the given answers. -/
def listening (answers : List AcceptAnswer) : Acceptor where
  handlerFd := 3
  answers := answers
  errno := .again
  idleFd := .reserve
  passed := []
  closed := []

/-- An interrupted call, two connections, and an empty queue. -/
theorem survives_iff_two :
    (listening [.failure .intr, .connection 5, .connection 6, .failure .again]).Survives :=
  (survives_iff _ rfl).mpr (.inr ⟨rfl, nofun, by decide, by decide, .inl rfl⟩)

/-- The process ends at the first connection for which it has no descriptor. -/
theorem not_survives_full :
    (listening [.connection 5, .failure .mFile, .connection 6]).accept =
        some (.error .sysFatal) ∧
      ¬ (listening [.connection 5, .failure .mFile, .connection 6]).Survives := by
  have dies : (listening [.connection 5, .failure .mFile, .connection 6]).accept =
      some (.error .sysFatal) := by decide
  refine ⟨dies, fun ⟨final, returned, _⟩ => ?_⟩
  rw [dies] at returned
  cases returned

end Acceptor

end YYNet
