import Mathlib.Algebra.Ring.Int.Defs

/-!
# `cpputil/hthreadpool.h`: `HThreadPool`

Every read and every update of the atomic counters is a step of its own, also within a critical section. Who holds
`task_mutex` and `thread_mutex` is told by how far the threads have got. The pool has been started and is not
stopped: `start()` has set `status` and is about to create its threads.
-/

namespace HvVerified.Cpputil

/-- A worker thread, in the function that `createThread` gives it. -/
inductive Worker where
  /-- at the beginning of `while (status != STOP)` -/
  | loop
  /-- in `wait_for`, or about to lock `task_mutex` -/
  | waiting
  /-- holds `task_mutex`, `--idle_thread_num` is done -/
  | taking
  | running (task : Nat)
  /-- the task is done, `++idle_thread_num` is not -/
  | ran
  /-- holds `task_mutex`, has found `cur_thread_num > min_thread_num` -/
  | deleting
  /-- in `delThread`: holds both mutexes, `--cur_thread_num` is done -/
  | deletedCur
  /-- `--idle_thread_num` is done, too -/
  | deletedIdle
  /-- has released both mutexes and is about to return -/
  | retired
  | exited
  deriving DecidableEq, Repr

namespace Worker

/-- The worker has locked `task_mutex`. -/
@[simp]
def holdsTaskMutex : Worker → Bool
  | taking | deleting | deletedCur | deletedIdle => true
  | _ => false

/-- The worker has locked `thread_mutex`. -/
def holdsThreadMutex : Worker → Bool
  | deletedCur | deletedIdle => true
  | _ => false

/-- The thread has not ended. -/
@[simp]
def live (w : Worker) : Bool := w ≠ exited

end Worker

/-- Where `createThread` returns to: the loop of `start`, with this many threads to go, or `commit`. -/
inductive Return where
  | start (n : Nat)
  | commit
  deriving DecidableEq, Repr

/-- A call of `wait`. For its history: the tasks that had been committed when it was called, how often `commit` had
    been called then, and that no call of `commit` or `start` was running. -/
structure WaitCall where
  before : List Nat
  begun : Nat
  calm : Bool
  deriving DecidableEq, Repr

/-- Where a thread that uses the pool is. -/
inductive Caller where
  | outside
  | start (n : Nat)
  /-- in `commit`: what has been read of `idle_thread_num <= tasks.size()`, in either order -/
  | commit (idle : Option Int) (size : Option Nat)
  /-- about to read `cur_thread_num` in `commit` -/
  | commitCur
  /-- in `createThread`, about to read `cur_thread_num` -/
  | create (ret : Return)
  /-- has found `cur_thread_num < max_thread_num`, about to start the thread -/
  | spawn (ret : Return)
  /-- in `addThread`, about to lock `thread_mutex` -/
  | addCur (ret : Return)
  /-- holds `thread_mutex`, `++cur_thread_num` is done -/
  | addIdle (ret : Return)
  /-- in `commit`, about to lock `task_mutex` -/
  | push
  /-- about to test `tasks.empty()` in `wait` -/
  | wait (call : WaitCall)
  /-- `tasks` was empty; what has been read of `idle_thread_num == cur_thread_num`, in either order -/
  | waitRead (call : WaitCall) (idle cur : Option Int)
  /-- `wait` has returned; `quiet` says that no `commit` ran meanwhile -/
  | waited (call : WaitCall) (quiet : Bool)
  deriving DecidableEq, Repr

namespace Caller

/-- The caller has locked `thread_mutex`. -/
def holdsThreadMutex : Caller → Bool
  | addIdle _ => true
  | _ => false

/-- A call of `createThread` is about to look for room. -/
def isCreate : Caller → Bool
  | create _ => true
  | _ => false

/-- A call of `createThread` has found room and is about to start a thread. -/
def isSpawn : Caller → Bool
  | spawn _ => true
  | _ => false

/-- One of the two counters has been read in `wait`. -/
def betweenReads : Caller → Bool
  | waitRead _ (some _) none | waitRead _ none (some _) => true
  | _ => false

/-- The next step of `wait` reads `idle_thread_num`. -/
def readsIdle (right : Bool) : Caller → Bool
  | waitRead _ none none => !right
  | waitRead _ none (some _) => true
  | _ => false

/-- The caller is in `start`. -/
def inStart : Caller → Bool
  | start _ | create (.start _) | spawn (.start _) | addCur (.start _) | addIdle (.start _) => true
  | _ => false

/-- The caller is in `start` or `commit`. -/
def inCommit : Caller → Bool
  | outside | wait _ | waitRead _ _ _ | waited _ _ => false
  | _ => true

end Caller

/-- Where the caller goes on after `createThread`. -/
def Return.caller : Return → Caller
  | start n => .start n
  | commit => .push

/-- The pool and the threads that use it. `begun`, `committed` and `finished` are history variables: the number of
    calls of `commit`, the tasks that have been pushed, and those that have been executed. -/
structure Pool where
  minThreadNum : Nat
  maxThreadNum : Nat
  paused : Bool := false
  curThreadNum : Int := 0
  idleThreadNum : Int := 0
  tasks : List Nat := []
  workers : List Worker := []
  callers : List Caller
  begun : Nat := 0
  committed : List Nat := []
  finished : List Nat := []
  deriving DecidableEq, Repr

variable (s : Pool)

namespace Pool

/-- No thread has locked `task_mutex`. -/
def taskMutexFree : Bool := s.workers.all fun w => !w.holdsTaskMutex

/-- No thread has locked `thread_mutex`. -/
def threadMutexFree : Bool :=
  (s.workers.all fun w => !w.holdsThreadMutex) && s.callers.all fun c => !c.holdsThreadMutex

/-- The next step of a worker. A worker that waits is woken for a task, or its time is over. -/
def workerStep : Worker → Option (Pool × Worker)
  | .loop => if s.paused then none else some (s, .waiting)
  | .waiting =>
    if s.taskMutexFree then
      match s.tasks with
      | [] => if s.curThreadNum > s.minThreadNum then some (s, .deleting) else some (s, .loop)
      | _ :: _ => some ({ s with idleThreadNum := s.idleThreadNum - 1 }, .taking)
    else none
  | .taking =>
    match s.tasks with
    | [] => none
    | task :: rest => some ({ s with tasks := rest }, .running task)
  | .running task => some ({ s with finished := s.finished ++ [task] }, .ran)
  | .ran => some ({ s with idleThreadNum := s.idleThreadNum + 1 }, .loop)
  | .deleting =>
    if s.threadMutexFree then some ({ s with curThreadNum := s.curThreadNum - 1 }, .deletedCur) else none
  | .deletedCur => some ({ s with idleThreadNum := s.idleThreadNum - 1 }, .deletedIdle)
  | .deletedIdle => some (s, .retired)
  | .retired => some (s, .exited)
  | .exited => none

/-- The next step of a thread that uses the pool; `right` says which operand of a comparison is read first. -/
def callerStep (right : Bool) : Caller → Option (Pool × Caller)
  | .outside => none
  | .start 0 => some (s, .outside)
  | .start (n + 1) => some (s, .create (.start n))
  | .commit none none =>
    if right then some (s, .commit none (some s.tasks.length)) else some (s, .commit (some s.idleThreadNum) none)
  | .commit (some idle) none => some (s, .commit (some idle) (some s.tasks.length))
  | .commit none (some size) => some (s, .commit (some s.idleThreadNum) (some size))
  | .commit (some idle) (some size) =>
    -- the `int` is converted to `size_t`
    if idle % 2 ^ 64 ≤ size then some (s, .commitCur) else some (s, .push)
  | .commitCur => if s.curThreadNum < s.maxThreadNum then some (s, .create .commit) else some (s, .push)
  | .create ret => if s.curThreadNum ≥ s.maxThreadNum then some (s, ret.caller) else some (s, .spawn ret)
  | .spawn ret => some ({ s with workers := s.workers ++ [.loop] }, .addCur ret)
  | .addCur ret =>
    if s.threadMutexFree then some ({ s with curThreadNum := s.curThreadNum + 1 }, .addIdle ret) else none
  | .addIdle ret => some ({ s with idleThreadNum := s.idleThreadNum + 1 }, ret.caller)
  | .push =>
    if s.taskMutexFree then
      some ({ s with
        tasks := s.tasks ++ [s.committed.length]
        committed := s.committed ++ [s.committed.length] }, .outside)
    else none
  | .wait call => if s.tasks.isEmpty then some (s, .waitRead call none none) else some (s, .wait call)
  | .waitRead call none none =>
    if right then some (s, .waitRead call none (some s.curThreadNum))
    else some (s, .waitRead call (some s.idleThreadNum) none)
  | .waitRead call (some idle) none => some (s, .waitRead call (some idle) (some s.curThreadNum))
  | .waitRead call none (some cur) => some (s, .waitRead call (some s.idleThreadNum) (some cur))
  | .waitRead call (some idle) (some cur) =>
    if idle = cur then some (s, .waited call (call.calm && call.begun = s.begun)) else some (s, .wait call)
  | .waited _ _ => some (s, .outside)

end Pool

/-- A step of a worker or of a caller, or a call that begins. -/
inductive PoolAct where
  | worker (i : Nat)
  | caller (i : Nat) (right : Bool)
  | commit (i : Nat)
  | wait (i : Nat)
  | pause
  | resume
  deriving DecidableEq, Repr

/-- One step of one thread. -/
def poolStep : PoolAct → Option Pool
  | .worker i =>
    s.workers[i]?.bind fun w => (s.workerStep w).map fun r => { r.1 with workers := r.1.workers.set i r.2 }
  | .caller i right =>
    s.callers[i]?.bind fun c => (s.callerStep right c).map fun r => { r.1 with callers := r.1.callers.set i r.2 }
  | .commit i =>
    if s.callers[i]? = some .outside then
      some { s with
        begun := s.begun + 1
        callers := s.callers.set i (.commit none none) }
    else none
  | .wait i =>
    if s.callers[i]? = some .outside then
      some { s with
        callers := s.callers.set i (.wait {
          before := s.committed
          begun := s.begun
          calm := s.callers.all fun c => !c.inCommit }) }
    else none
  | .pause => some { s with paused := true }
  | .resume => some { s with paused := false }

/-- `start(startThreads)` has set `status`; `n` other threads use the pool. -/
def poolStart (minThreadNum maxThreadNum startThreads n : Nat) : Pool where
  minThreadNum
  maxThreadNum
  callers := .start (min (max startThreads minThreadNum) maxThreadNum) :: List.replicate n .outside

/-- The pools in which runs begin. -/
def poolStarted : Prop :=
  ∃ minThreadNum maxThreadNum startThreads n, minThreadNum ≤ maxThreadNum ∧
    s = poolStart minThreadNum maxThreadNum startThreads n

/-! ## What the counters are for -/

namespace Pool

/-- How many worker threads have not ended. -/
def liveNum : Nat := s.workers.countP Worker.live

/-- How many callers are about to start a thread. -/
def spawningNum : Nat := s.callers.countP Caller.isSpawn

/-- No call of `start` is running. -/
def started : Bool := s.callers.all fun c => !c.inStart

/-- A call of `createThread` that finds room finds it also for the threads that others are about to start, that are
    not counted yet, or that are still running although they are not counted any more. -/
def roomForThread : PoolAct → Bool
  | .caller i _ =>
    !s.callers[i]?.any Caller.isCreate || s.curThreadNum ≥ s.maxThreadNum ||
      s.liveNum + s.spawningNum < s.maxThreadNum
  | _ => true

/-- No thread retires between the two reads of `wait`, and `wait` does not read `idle_thread_num` between the two
    updates of `delThread`. -/
def retiresApart : PoolAct → Bool
  | .worker i => s.workers[i]? ≠ some .deleting || s.callers.all fun c => !c.betweenReads
  | .caller i right => !s.callers[i]?.any (Caller.readsIdle right) || s.workers.all fun w => w ≠ .deletedCur
  | _ => true

end Pool

end HvVerified.Cpputil
