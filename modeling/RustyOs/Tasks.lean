import Mathlib

/-!
The executor (`src/task/executor.rs` and `src/task/mod.rs`).

The loop of `run_ready_tasks` is cut at the pop of an id, at the start of a poll and at its end,
and wakers may be called in between. A wake only appends to the queue, which no other statement
of the loop reads or writes, so these are all the points an interrupt can tell apart. What a task
does when it is polled is left open; it may return in either way.
-/

namespace RustyOs.Tasks

/-- A task, of which the program knows the id. The serial number, the place of the task among all
that were ever created, tells tasks apart even if they had the same id; the program never sees
it. A queue entry and a waker carry the id of a task, with the serial number of the task whose
spawn or whose waker they come from. -/
structure Task where
  id : UInt64
  serial : ℕ
  deriving DecidableEq

def queueCapacity : ℕ := 100

structure Executor where
  tasks : UInt64 → Option Task
  taskQueue : List Task
  wakerCache : UInt64 → Option Task

def Executor.new : Executor := ⟨fun _ => none, [], fun _ => none⟩

namespace Executor

variable (x : Executor)

/-- The push of an id, which panics when the queue is full. -/
def push (t : Task) : Option Executor :=
  if x.taskQueue.length < queueCapacity then some { x with taskQueue := x.taskQueue ++ [t] }
  else none

def spawn (task : Task) : Option Executor :=
  if (x.tasks task.id).isSome then none
  else push { x with tasks := Function.update x.tasks task.id (some task) } task

/-- The entry of the waker cache for an id, made if it was missing. -/
def wakerFor (id : UInt64) (task : Task) : Task := (x.wakerCache id).getD ⟨id, task.serial⟩

/-- The executor with the waker of the popped id in its cache. -/
def withWaker (id : UInt64) (task : Task) : Executor :=
  { x with wakerCache := Function.update x.wakerCache id (some (x.wakerFor id task)) }

/-- The removal of a task that has finished. -/
def remove (id : UInt64) : Executor :=
  { x with
    tasks := Function.update x.tasks id none
    wakerCache := Function.update x.wakerCache id none }

end Executor

/-- Where the executor stands: outside `run_ready_tasks`, at the head of its loop, with an entry
popped, or in the poll of a task that an entry has led to. -/
inductive Phase
  | outside
  | loop
  | popped (entry : Task)
  | polling (entry task : Task)
  deriving DecidableEq

structure Sys where
  executor : Executor
  phase : Phase
  /-- How many tasks have been created; the next id is this number as a `u64`. -/
  created : ℕ
  unspawned : List Task
  /-- The wakers ever created. -/
  wakers : List Task
  /-- Spawned and not polled yet, or woken since the last poll began; by serial number. -/
  notified : ℕ → Bool
  /-- A poll has returned `Ready`; by serial number. -/
  finished : ℕ → Bool

def Sys.initial : Sys := ⟨.new, .outside, 0, [], [], fun _ => false, fun _ => false⟩

inductive Event
  | create
  | spawn (task : Task)
  | enter
  | pop
  | look
  | ready
  | pending
  | wake (waker : Task)

def Sys.next (s : Sys) : Event → Option Sys
  | .create => some
      { s with
        created := s.created + 1
        unspawned := ⟨UInt64.ofNat s.created, s.created⟩ :: s.unspawned }
  | .spawn task =>
    if s.phase = .outside ∧ task ∈ s.unspawned then
      (s.executor.spawn task).map fun x =>
        { s with
          executor := x
          unspawned := s.unspawned.erase task
          notified := Function.update s.notified task.serial true }
    else none
  | .enter => if s.phase = .outside then some { s with phase := .loop } else none
  | .pop =>
    if s.phase = .loop then
      match s.executor.taskQueue with
      | [] => some { s with phase := .outside }
      | entry :: rest => some
          { s with executor := { s.executor with taskQueue := rest }, phase := .popped entry }
    else none
  | .look =>
    match s.phase with
    | .popped entry =>
      match s.executor.tasks entry.id with
      | none => some { s with phase := .loop }
      | some task => some
          { s with
            executor := s.executor.withWaker entry.id task
            phase := .polling entry task
            wakers := s.executor.wakerFor entry.id task :: s.wakers
            notified := Function.update s.notified task.serial false }
    | _ => none
  | .ready =>
    match s.phase with
    | .polling entry task => some
        { s with
          executor := s.executor.remove entry.id
          phase := .loop
          finished := Function.update s.finished task.serial true }
    | _ => none
  | .pending =>
    match s.phase with
    | .polling _ _ => some { s with phase := .loop }
    | _ => none
  | .wake waker =>
    if waker ∈ s.wakers then
      (s.executor.push waker).map fun x =>
        { s with executor := x, notified := Function.update s.notified waker.serial true }
    else none

end RustyOs.Tasks
