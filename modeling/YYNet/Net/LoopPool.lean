/-
This file models the choice of a loop by `EventLoopThreadPool` and proves in which
processes it goes round.

The cursor `nextId` is a static variable of the function, so there is one for all
pools of the process, and each call takes it modulo the size of its own pool. With
a single pool the cursor counts the calls, and with pools of one thread it stays at
zero. In every other process some order of calls goes wrong: a small pool finds the
cursor behind its end, or a pool starts over because another one has brought the
cursor back to zero. That is so already when the calls come one after another, as
they do here.
-/

import YYNet.Lib.Checked
import YYNet.Lib.Storage

namespace YYNet

open Checked Storage

/-! ### The pools -/

/-- `EventLoopThread`: it is known by its number, and so is the loop it runs. -/
structure EventLoopThread where
  id : Nat
  deriving DecidableEq, Repr

/-- The loop of a thread. -/
def EventLoopThread.getEventLoop (thread : EventLoopThread) : Nat := thread.id

/-- `EventLoopThreadPool`. -/
structure EventLoopThreadPool where
  threads : List EventLoopThread
  deriving DecidableEq, Repr

namespace EventLoopThreadPool

/-- The constructor. -/
def create (num : Nat) : EventLoopThreadPool where
  threads := (List.range num).map EventLoopThread.mk

/-- `getEventLoop`: the loop, and what becomes of the static cursor. -/
def getEventLoop (build : Build) (pool : EventLoopThreadPool) (nextId : Nat) :
    Except Fault (Nat × Nat) := do
  assert build (nextId < pool.threads.length)
  match pool.threads[nextId]? with
  | none => throw .outOfBounds
  | some thread => return (thread.getEventLoop, addSize nextId 1 % pool.threads.length)

end EventLoopThreadPool

/-- The static cursor, and which pools have handed out which loops. -/
structure LoopSelection (Pool : Type) where
  nextId : Nat
  served : List (Pool × Nat)
  deriving DecidableEq, Repr

namespace LoopSelection

variable {Pool : Type}

/-- Before the first call. -/
def start : LoopSelection Pool where
  nextId := 0
  served := []

/-- A call of `getEventLoop` on one of the pools, which have so many threads each. Loading the
cursor, indexing with it and storing the next one are one step, since the calls do not overlap. -/
def call (build : Build) (size : Pool → Nat) (s : LoopSelection Pool) (pool : Pool) :
    Except Fault (LoopSelection Pool) := do
  let chosen ← (EventLoopThreadPool.create (size pool)).getEventLoop build s.nextId
  return { nextId := chosen.2, served := s.served ++ [(pool, chosen.1)] }

/-- The loops that a pool has handed out. -/
def servedBy [DecidableEq Pool] (s : LoopSelection Pool) (pool : Pool) : List Nat :=
  (s.served.filter fun choice => choice.1 = pool).map Prod.snd

/-- In every order of calls each call stays inside its pool, and any `size pool` consecutive calls
on a pool hand out each of its loops once. -/
def GoesRound [DecidableEq Pool] (build : Build) (size : Pool → Nat) : Prop :=
  ∀ calls : List Pool, ∃ s, calls.foldlM (call build size) start = .ok s ∧
    ∀ pool window, window <:+: s.servedBy pool → window.length = size pool →
      ∀ loop < size pool, window.count loop = 1

/-! ### One call -/

section

variable (build : Build) (size : Pool → Nat)

/-- A call with the cursor inside the pool. -/
theorem call_inside {s : LoopSelection Pool} {pool : Pool} (inside : s.nextId < size pool)
    (small : size pool < 2 ^ 31) :
    s.call build size pool =
      .ok ⟨(s.nextId + 1) % size pool, s.served ++ [(pool, s.nextId)]⟩ := by
  have threads : (EventLoopThreadPool.create (size pool)).threads.length = size pool := by
    simp [EventLoopThreadPool.create]
  have found : (EventLoopThreadPool.create (size pool)).threads[s.nextId]? = some ⟨s.nextId⟩ := by
    simp [EventLoopThreadPool.create, inside]
  have next : addSize s.nextId 1 = s.nextId + 1 := by
    refine addSize_of_lt ?_
    unfold sizeModulus
    omega
  rw [call, EventLoopThreadPool.getEventLoop, threads, assert_of_holds build inside, ok_bind,
    found, next]
  rfl

/-- A call with the cursor behind the end of the pool. -/
theorem call_outside {s : LoopSelection Pool} {pool : Pool} (outside : size pool ≤ s.nextId)
    (after : LoopSelection Pool) : s.call build size pool ≠ .ok after := by
  have missing : (EventLoopThreadPool.create (size pool)).threads[s.nextId]? = none := by
    simp [EventLoopThreadPool.create, outside]
  intro returned
  obtain ⟨chosen, chooses, -⟩ := bind_eq_ok returned
  obtain ⟨-, -, indexed⟩ := bind_eq_ok chooses
  rw [missing] at indexed
  cases indexed

/-- Calls on one pool that bring the cursor to its end bring it back to zero. -/
theorem calls_to_end {s : LoopSelection Pool} {pool : Pool} {count : Nat} (positive : 0 < count)
    (toEnd : s.nextId + count = size pool) (small : size pool < 2 ^ 31) :
    (List.replicate count pool).foldlM (call build size) s =
      .ok ⟨0, s.served ++ (List.range count).map fun turn => (pool, s.nextId + turn)⟩ := by
  induction count generalizing s with
  | zero => cases positive
  | succ count inductionHypothesis =>
    rw [List.replicate_succ, List.foldlM_cons, call_inside build size (by omega) small, ok_bind]
    by_cases last : count = 0
    · subst last
      rw [toEnd, Nat.mod_self]
      rfl
    · rw [Nat.mod_eq_of_lt (by omega), inductionHypothesis (by omega) (by simp only; omega)]
      simp [List.range_succ_eq_map, Nat.add_comm, Nat.add_left_comm]

/-! ### Pools that go round -/

section

variable [DecidableEq Pool]

theorem servedBy_snoc (nextId next : Nat) (served : List (Pool × Nat)) (called pool : Pool)
    (loop : Nat) :
    servedBy ⟨next, served ++ [(called, loop)]⟩ pool =
      servedBy ⟨nextId, served⟩ pool ++ if called = pool then [loop] else [] := by
  by_cases same : called = pool <;> simp [servedBy, same]

/-- Each pool has handed out its loops in turn, and the cursor is where its next turn is. -/
structure Turning (s : LoopSelection Pool) : Prop where
  turns : ∀ pool, s.servedBy pool =
    (List.range (s.servedBy pool).length).map fun turn => turn % size pool
  cursor : ∀ pool, s.nextId = (s.servedBy pool).length % size pool

theorem start_turning : Turning size (start : LoopSelection Pool) :=
  ⟨fun _ => rfl, fun pool => (Nat.zero_mod (size pool)).symm⟩

/-- With one pool, or with pools of one thread, a call keeps all pools in turn. -/
theorem Turning.call {s : LoopSelection Pool} (turning : Turning size s)
    (positive : ∀ pool, 0 < size pool) (small : ∀ pool, size pool < 2 ^ 31)
    (alone : (∀ first second : Pool, first = second) ∨ ∀ pool, size pool = 1) (pool : Pool) :
    ∃ after, s.call build size pool = .ok after ∧ Turning size after := by
  have inside : s.nextId < size pool := by
    rw [turning.cursor pool]
    exact Nat.mod_lt _ (positive pool)
  refine ⟨_, call_inside build size inside (small pool), fun other => ?_, fun other => ?_⟩
  · rw [servedBy_snoc s.nextId]
    have before := turning.turns other
    by_cases same : pool = other
    · subst same
      rw [if_pos rfl, List.length_append, List.length_singleton, List.range_succ, List.map_append,
        List.map_singleton, ← before, ← turning.cursor pool]
    · rw [if_neg same, List.append_nil]
      exact before
  · rw [servedBy_snoc s.nextId]
    by_cases same : pool = other
    · subst same
      rw [if_pos rfl, List.length_append, List.length_singleton, turning.cursor pool,
        Nat.mod_add_mod]
      rfl
    · have single : ∀ pool, size pool = 1 := alone.resolve_left fun one => same (one pool other)
      simp only
      rw [single pool, single other, Nat.mod_one, Nat.mod_one]

/-- All calls of a process with one pool, or with pools of one thread. -/
theorem Turning.calls {s : LoopSelection Pool} (turning : Turning size s)
    (positive : ∀ pool, 0 < size pool) (small : ∀ pool, size pool < 2 ^ 31)
    (alone : (∀ first second : Pool, first = second) ∨ ∀ pool, size pool = 1)
    (calls : List Pool) :
    ∃ after, calls.foldlM (LoopSelection.call build size) s = .ok after ∧ Turning size after := by
  induction calls generalizing s with
  | nil => exact ⟨s, rfl, turning⟩
  | cons pool rest inductionHypothesis =>
    obtain ⟨next, calls, nextTurning⟩ := turning.call build size positive small alone pool
    rw [List.foldlM_cons, calls, ok_bind]
    exact inductionHypothesis nextTurning

/-- A window as long as the pool is large holds every turn once. -/
theorem count_window {width count : Nat} {window : List Nat}
    (inside : window <:+: (List.range count).map fun turn => turn % width)
    (whole : window.length = width) {loop : Nat} (isLoop : loop < width) :
    window.count loop = 1 := by
  obtain ⟨front, back, split⟩ := inside
  have turn : ∀ index (less : index < window.length),
      window[index] = (front.length + index) % width := by
    intro index less
    have found : (front ++ window ++ back)[front.length + index]? = some window[index] := by
      rw [List.append_assoc, List.getElem?_append_right (Nat.le_add_right _ _),
        Nat.add_sub_cancel_left, List.getElem?_append_left less, List.getElem?_eq_getElem less]
    rw [split, List.getElem?_map] at found
    obtain ⟨number, there, same⟩ := Option.map_eq_some_iff.mp found
    obtain ⟨less, isNumber⟩ := List.getElem?_eq_some_iff.mp there
    rw [List.getElem_range] at isNumber
    rw [← same, ← isNumber]
  have shape : window = (List.range width).map fun index => (front.length + index) % width := by
    refine List.ext_getElem (by simp [whole]) fun index less _ => ?_
    rw [turn index less]
    simp
  have distinct : window.Nodup := by
    rw [shape]
    refine List.Nodup.map_on (fun first isFirst second isSecond same => ?_) List.nodup_range
    have congruent : first ≡ second [MOD width] := Nat.ModEq.add_left_cancel' front.length same
    rwa [Nat.ModEq, Nat.mod_eq_of_lt (List.mem_range.mp isFirst),
      Nat.mod_eq_of_lt (List.mem_range.mp isSecond)] at congruent
  have below : window ⊆ List.range width := by
    intro other member
    rw [shape] at member
    obtain ⟨index, -, rfl⟩ := List.mem_map.mp member
    exact List.mem_range.mpr (Nat.mod_lt _ (by omega))
  have all : window.Perm (List.range width) :=
    (List.subperm_of_subset distinct below).perm_of_length_le (by simp [whole])
  rw [all.count_eq]
  exact List.count_eq_one_of_mem List.nodup_range (List.mem_range.mpr isLoop)

/-! ### The main theorem -/

/-- Where a pool has several threads, another pool makes some order of calls go wrong. -/
theorem not_goesRound {several other : Pool} (differ : several ≠ other)
    (many : 2 ≤ size several) (positive : 0 < size other)
    (small : ∀ pool, size pool < 2 ^ 31) : ¬ GoesRound build size := by
  intro goesRound
  have first : start.call build size several = .ok ⟨1, [(several, 0)]⟩ := by
    have inside : (start : LoopSelection Pool).nextId < size several := by
      show 0 < size several
      omega
    have called := call_inside build size inside (small several)
    rw [called, show (start : LoopSelection Pool).nextId + 1 = 1 from rfl,
      Nat.mod_eq_of_lt (by omega)]
    rfl
  by_cases single : size other = 1
  · -- the other pool has one thread, and the cursor is behind it
    obtain ⟨s, returned, -⟩ := goesRound [several, other]
    rw [List.foldlM_cons, first, ok_bind, List.foldlM_cons] at returned
    obtain ⟨after, called, -⟩ := bind_eq_ok returned
    exact call_outside build size (by simp only; omega) after called
  · -- the other pool brings the cursor back to zero, and the first one starts over
    obtain ⟨s, returned, windows⟩ := goesRound
      (several :: (List.replicate (size other - 1) other ++
        List.replicate (size several) several))
    rw [List.foldlM_cons, first, ok_bind, List.foldlM_append,
      calls_to_end build size (by omega) (by simp only; omega) (small other), ok_bind,
      calls_to_end build size (by omega) (by simp) (small several)] at returned
    obtain rfl := Except.ok.inj returned
    have handedOut : servedBy ⟨0, [(several, 0)] ++ ((List.range (size other - 1)).map
        fun turn => (other, 1 + turn)) ++ (List.range (size several)).map
          fun turn => (several, 0 + turn)⟩ several = 0 :: List.range (size several) := by
      simp [servedBy, List.filter_map, differ.symm, Function.comp_def]
    have lastTurn : List.range (size several) =
        List.range (size several - 1) ++ [size several - 1] := by
      rw [← List.range_succ, Nat.succ_eq_add_one, Nat.sub_add_cancel (by omega)]
    have inside : (0 :: List.range (size several - 1)) <:+: 0 :: List.range (size several) :=
      ⟨[], [size several - 1], by rw [lastTurn]; rfl⟩
    rw [← handedOut] at inside
    have once := windows several _ inside (by simp; omega) 0 (by omega)
    rw [List.count_cons_self, List.count_eq_one_of_mem List.nodup_range
      (List.mem_range.mpr (by omega))] at once
    cases once

/-- In a process with given pools, every order of calls goes round if and only if there is only
one pool, or every pool has exactly one thread. -/
theorem goesRound_iff (positive : ∀ pool, 0 < size pool) (small : ∀ pool, size pool < 2 ^ 31) :
    GoesRound build size ↔
      (∀ first second : Pool, first = second) ∨ ∀ pool, size pool = 1 := by
  constructor
  · intro goesRound
    by_contra neither
    obtain ⟨several, manyOf⟩ : ∃ pool, size pool ≠ 1 :=
      not_forall.mp fun single => neither (.inr single)
    obtain ⟨other, differ⟩ : ∃ other, several ≠ other := by
      by_contra same
      simp only [not_exists, not_not] at same
      exact neither (.inl fun first second => (same first).symm.trans (same second))
    have := positive several
    exact not_goesRound build size differ (by omega) (positive other) small goesRound
  · intro alone calls
    obtain ⟨s, returned, turning⟩ :=
      (start_turning size).calls build size positive small alone calls
    refine ⟨s, returned, fun pool window inside whole loop isLoop => ?_⟩
    rw [turning.turns pool] at inside
    exact count_window inside whole isLoop

/-- A process with one pool of two threads. -/
theorem goesRound_iff_alone : GoesRound .debug fun _ : Unit => 2 :=
  (goesRound_iff .debug (fun _ : Unit => 2) (fun _ => by decide) (fun _ => by decide)).mpr
    (.inl fun _ _ => rfl)

/-- A pool of two threads next to a pool of one: the second call leaves the second pool, and a
debug build stops there. -/
theorem not_goesRound_two :
    [true, false].foldlM (call .release fun wide : Bool => if wide then 2 else 1) start =
        .error .outOfBounds ∧
      [true, false].foldlM (call .debug fun wide : Bool => if wide then 2 else 1) start =
        .error .assertFailed ∧
      ¬ GoesRound .release fun wide : Bool => if wide then 2 else 1 := by
  have leaves : [true, false].foldlM (call .release fun wide : Bool => if wide then 2 else 1)
      start = .error .outOfBounds := by decide +kernel
  refine ⟨leaves, by decide +kernel, fun goesRound => ?_⟩
  obtain ⟨s, returned, -⟩ := goesRound [true, false]
  rw [leaves] at returned
  cases returned

end

end

end LoopSelection

end YYNet
