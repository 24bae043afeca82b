import HvVerified.Base.Queue

/-!
# Custom events: `hloop_post_event` and `eventfd_read_cb`

Any thread may post an event: under `custom_events_mutex`, `hloop_post_event` writes to the event
descriptor, which wakes up the loop, and then pushes the event. The loop thread reads the descriptor
without the mutex, and `eventfd_read_cb` takes as many events from the queue as the reading says,
each under the mutex, and calls their callbacks without it.

A step is one action of one thread. The threads that post differ only by what they do while they hold
the mutex, so the holder of the mutex is all that is kept of them. Descriptors may be eventfds, where
a read returns the whole counter, or pipes, where it returns some of the bytes.
-/

namespace HvVerified.Event

open Base
open Lib

/-- Where `hloop_post_event` is, once it holds the mutex. -/
inductive PostPc where
  /-- before the event descriptors are created, if they do not exist -/
  | create
  | write
  | push
  | unlock
  deriving DecidableEq, Repr

/-- Who holds the mutex of the queue, and where it is. -/
inductive Holder (ε : Type) where
  /-- `hloop_post_event`; `byLoop` if it is called from a callback of the loop thread -/
  | post (byLoop : Bool) (ev : ε) (pc : PostPc)
  /-- `eventfd_read_cb` -/
  | reader

/-- Where the loop thread is. `left` is the number of iterations of `eventfd_read_cb` that have not taken
    an event. -/
inductive ReadPc (ε : Type) where
  /-- not in `eventfd_read_cb` -/
  | waiting
  /-- before the next iteration -/
  | iterate (left : Nat)
  /-- in an iteration, with the mutex -/
  | locked (left : Nat)
  /-- the event has been popped -/
  | popped (ev : ε) (left : Nat)
  /-- the queue was empty: `goto unlock` -/
  | giveUp
  /-- in the callback of the event -/
  | callback (ev : ε) (left : Nat)

/-- The part of `hloop_t` that concerns custom events. `counter` is what has been written to the event
    descriptor and not read. `pushed` and `dispatched` are history variables: the events that have been
    pushed, and those whose callback has been called. -/
structure CustomEvents (ε : Type) where
  mutex : Option (Holder ε)
  eventfds : Bool
  counter : Nat
  customEvents : Queue ε
  reader : ReadPc ε
  pushed : List ε
  dispatched : List ε

/-- `CUSTOM_EVENT_QUEUE_INIT_SIZE` -/
def customEventQueueInitSize : Nat := 16

variable {ε : Type} [Inhabited ε]

/-- A loop to which nothing has been posted. -/
def customInit : CustomEvents ε where
  mutex := none
  eventfds := false
  counter := 0
  customEvents := Queue.zero
  reader := .waiting
  pushed := []
  dispatched := []

/-- The steps of the threads. `ok` is the result of creating the descriptors, or of the write. -/
inductive CustomAct (ε : Type) where
  | hloopRun (ok : Bool)
  | postLock (byLoop : Bool) (ev : ε)
  | postCreate (ok : Bool)
  | postWrite (ok : Bool)
  | postPush
  | postUnlock
  | read (count : Nat)
  | lock
  | take
  | unlock
  | ret
  | leave

/-- The end of `hloop_post_event`'s critical section for the event `ev`. -/
def pushEvent (s : CustomEvents ε) (ev : ε) : CustomEvents ε :=
  let queue := if s.customEvents.maxsize = 0 then Queue.init customEventQueueInitSize else s.customEvents
  { s with customEvents := queue.pushBack ev, pushed := s.pushed ++ [ev] }

/-- The reader takes the event at the front, or stops if there is none. -/
def takeEvent (s : CustomEvents ε) (left : Nat) : CustomEvents ε :=
  if h : 0 < s.customEvents.size then
    { s with
      reader := .popped (s.customEvents.ptr s.customEvents.offset) left
      customEvents := s.customEvents.popFront h }
  else { s with reader := .giveUp }

/-- `whole`: a read returns the whole counter (eventfd). -/
def customStep (whole : Bool) (s : CustomEvents ε) (act : CustomAct ε) : Option (CustomEvents ε) :=
  match act, s.mutex, s.reader with
  -- hloop_run creates the descriptors under the mutex
  | .hloopRun ok, none, .waiting => some { s with eventfds := s.eventfds || ok }
  -- hloop_post_event
  | .postLock false ev, none, _ => some { s with mutex := some (.post false ev .create) }
  | .postLock true ev, none, .callback _ _ => some { s with mutex := some (.post true ev .create) }
  | .postCreate ok, some (.post byLoop ev .create), _ =>
    if s.eventfds || ok then
      some { s with eventfds := true, mutex := some (.post byLoop ev .write) }
    else some { s with mutex := some (.post byLoop ev .unlock) }
  | .postWrite ok, some (.post byLoop ev .write), _ =>
    if ok then some { s with counter := s.counter + 1, mutex := some (.post byLoop ev .push) }
    else some { s with mutex := some (.post byLoop ev .unlock) }
  | .postPush, some (.post byLoop ev .push), _ =>
    some { pushEvent s ev with mutex := some (.post byLoop ev .unlock) }
  | .postUnlock, some (.post _ _ .unlock), _ => some { s with mutex := none }
  -- the loop thread
  | .read count, _, .waiting =>
    if s.eventfds ∧ 0 < count ∧ count ≤ s.counter ∧ (whole → count = s.counter) then
      some { s with counter := s.counter - count, reader := .iterate count }
    else none
  | .lock, none, .iterate (left + 1) => some { s with mutex := some .reader, reader := .locked left }
  | .take, some .reader, .locked left => some (takeEvent s left)
  | .unlock, some .reader, .popped ev left =>
    some { s with mutex := none, reader := .callback ev left, dispatched := s.dispatched ++ [ev] }
  | .unlock, some .reader, .giveUp => some { s with mutex := none, reader := .waiting }
  -- the callback returns when it is not inside hloop_post_event
  | .ret, some (.post true _ _), .callback _ _ => none
  | .ret, _, .callback _ left => some { s with reader := .iterate left }
  | .leave, _, .iterate 0 => some { s with reader := .waiting }
  | _, _, _ => none

/-- How many events the reader still looks for. -/
def ReadPc.left : ReadPc ε → Nat
  | .waiting | .giveUp => 0
  | .iterate left | .popped _ left | .callback _ left => left
  | .locked left => left + 1

/-- The event that has been taken and not been dispatched. -/
def ReadPc.taken : ReadPc ε → List ε
  | .popped ev _ => [ev]
  | _ => []

/-- The event descriptor has been written to, and the event is about to be pushed. -/
def announced : Option (Holder ε) → Nat
  | some (.post _ _ .push) => 1
  | _ => 0

end HvVerified.Event
