import HvVerified.Lib.Runs

/-!
# The event loop: pending lists

`hloop_process_events` collects the events that are due (ios reported by the poll, expired timers,
idles) in one intrusive list per priority, and `hloop_process_pendings` goes through the lists and
calls the callbacks, which may add, reset and delete events. The memory is a map from addresses to
event objects; an address without an object has not been allocated or has been freed, and the
allocator may give out any such address.

The model performs one iteration of each loop per step, so that the calls made by a callback happen
while `hloop_process_pendings` is suspended in the middle of a list.
-/

namespace HvVerified.Event

/-- The kinds of events that are put in a pending list (`HEVENT_TYPE_*`). -/
inductive HeventType where
  | io
  | timeout
  | period
  | idle
  deriving DecidableEq, Repr

/-- `HEVENT_PRIORITY_SIZE` -/
def heventPrioritySize : Nat := 11

/-- `INFINITE` -/
def infinite : UInt32 := 0xffffffff

/-- `HV_RDWR` -/
def hvRdwr : UInt32 := 0x5

/-- The fields of `hevent_t` and of the types that extend it which decide when its callback is called.
    The priority is the index of its list. -/
structure Hevent where
  eventType : HeventType
  priority : Fin heventPrioritySize
  cb : Bool := true
  active : Bool := true
  pending : Bool := false
  destroy : Bool := false
  pendingNext : Option Nat := none
  /-- hio_t -/
  ready : Bool := true
  events : UInt32 := 0
  /-- hidle_t, htimer_t -/
  repeats : UInt32 := 0
  /-- htimer_t; `timeout` in milliseconds, `nextTimeout` in microseconds -/
  timeout : Nat := 0
  nextTimeout : Nat := 0

/-- Where `hloop_process_events` is. -/
inductive LoopPhase where
  /-- not in `hloop_process_events` -/
  | idle
  /-- in `hloop_process_ios` -/
  | poll
  /-- in `__hloop_process_timers`, of `timers` or `realtimers`; the timers up to `limit` are due -/
  | timers (real : Bool) (limit now : Nat)
  /-- in `hloop_process_idles`, before the idles `rest` -/
  | idles (rest : List Nat)
  /-- in `hloop_process_pendings`, in the list `i`, before the event `cur` -/
  | pass (i : Nat) (cur : Option Nat)
  /-- in the callback of `cur`, with the saved `next` -/
  | callback (i cur : Nat) (next : Option Nat)
  /-- a freed event has been accessed -/
  | undefined
  deriving DecidableEq, Repr

/-- The loop and the event objects it refers to. The heaps and the list of idles are given by their
    elements. `cleared` and `called` are history variables: the events whose pending flag was cleared
    while they were waiting in a list, or while their callback was running, and the events whose
    callback has been called in the current pass. -/
structure Hloop where
  stopped : Bool := true
  running : Bool := false
  phase : LoopPhase := .idle
  mem : Nat → Option Hevent := fun _ => none
  pendings : Nat → Option Nat := fun _ => none
  npendings : Int := 0
  timers : List Nat := []
  realtimers : List Nat := []
  ntimers : Int := 0
  idles : List Nat := []
  nidles : Int := 0
  nios : Int := 0
  curHrtime : Nat := 0
  cleared : List Nat := []
  called : List Nat := []

variable (s : Hloop)

namespace Hloop

/-- The object at `a` is written. -/
def set (a : Nat) (ev : Hevent) : Hloop :=
  { s with mem := Function.update s.mem a (some ev) }

/-- The object at `a` is freed. -/
def free (a : Nat) : Hloop :=
  { s with mem := Function.update s.mem a none }

end Hloop

/-! ## The event macros -/

/-- `EVENT_PENDING`: the event is put at the front of the list of its priority. -/
def eventPending (a : Nat) (ev : Hevent) : Hloop :=
  if ev.pending then s.set a ev
  else
    { s.set a { ev with pending := true, pendingNext := s.pendings ev.priority } with
      npendings := s.npendings + 1
      pendings := Function.update s.pendings ev.priority (some a) }

/-- `EVENT_DEL`: a pending event is freed later. -/
def eventDel (a : Nat) (ev : Hevent) : Hloop :=
  if ev.pending then s.set a { ev with active := false }
  else s.free a

/-- `EVENT_RESET` -/
def eventReset (a : Nat) (ev : Hevent) : Hloop :=
  { s.set a { ev with destroy := false, active := true, pending := false } with
    cleared := if ev.pending then a :: s.cleared else s.cleared }

/-- `EVENT_UNPENDING`, which leaves the event in its list. -/
def eventUnpending (a : Nat) (ev : Hevent) : Hloop :=
  if ev.pending then
    { s.set a { ev with pending := false } with
      npendings := s.npendings - 1
      cleared := a :: s.cleared }
  else s.set a ev

/-! ## Events -/

/-- `hio_get` of a file descriptor that has no io yet. -/
def hioGet (a : Nat) : Hloop :=
  s.set a { eventType := .io, priority := ⟨5, by decide⟩, cb := false, active := false }

/-- `hio_add` -/
def hioAdd (a : Nat) (io : Hevent) (cb : Bool) (events : UInt32) : Hloop :=
  let s := if io.active then s else { s with nios := s.nios + 1 }
  let io := if io.active then io else { io with cb, active := true }
  let io := if io.ready then io else { io with ready := true, events := 0 }
  let io := if cb then { io with cb := true } else io
  s.set a (if io.events &&& events = 0 then { io with events := io.events ||| events } else io)

/-- `hio_del`: the io becomes inactive with its last event. -/
def hioDel (a : Nat) (io : Hevent) (events : UInt32) : Hloop :=
  if !io.active then s.set a io
  else
    let io := if io.events &&& events = 0 then io else { io with events := io.events &&& ~~~events }
    if io.events = 0 then
      eventUnpending { s with nios := s.nios - 1 } a { io with active := false }
    else s.set a io

/-- The part of `hio_done` that concerns the loop. -/
def hioDoneEvents (a : Nat) (io : Hevent) : Hloop :=
  if io.ready then hioDel s a { io with ready := false } hvRdwr else s

/-- `hidle_add` -/
def hidleAdd (a : Nat) (repeats : UInt32) (cb : Bool) : Hloop :=
  { s.set a { eventType := .idle, priority := ⟨0, by decide⟩, cb, repeats } with
    idles := a :: s.idles
    nidles := s.nidles + 1 }

/-- What `__hidle_del` does to the loop; the idle is marked by `destroy`. -/
def hidleUnlink (a : Nat) (idle : Hevent) : Hloop :=
  if idle.destroy then s else { s with idles := s.idles.erase a, nidles := s.nidles - 1 }

/-- `hidle_del` -/
def hidleDel (a : Nat) (idle : Hevent) : Hloop :=
  if !idle.active then s
  else eventDel (hidleUnlink s a idle) a { idle with destroy := true }

/-- The limit on the granularity of timeouts: 100 ms for whole multiples of it from one second on. -/
def roundTimeout (timeout nextTimeout : Nat) : Nat :=
  if timeout ≥ 1000 ∧ timeout % 100 = 0 then nextTimeout / 100000 * 100000 else nextTimeout

/-- `htimer_add`, with the time `now` that `hloop_update_time` reads. -/
def htimerAdd (a : Nat) (timeout : Nat) (repeats : UInt32) (cb : Bool) (now : Nat) : Hloop :=
  if timeout = 0 then s
  else
    { s.set a { eventType := .timeout, priority := ⟨10, by decide⟩, cb, repeats, timeout,
                nextTimeout := roundTimeout timeout (now + timeout * 1000) } with
      curHrtime := now
      timers := a :: s.timers
      ntimers := s.ntimers + 1 }

/-- `htimer_add_period`, with the result of `cron_next_timeout`. -/
def htimerAddPeriod (a : Nat) (repeats : UInt32) (cb : Bool) (cron : Nat) : Hloop :=
  { s.set a { eventType := .period, priority := ⟨8, by decide⟩, cb, repeats,
              nextTimeout := cron * 1000000 } with
    realtimers := a :: s.realtimers
    ntimers := s.ntimers + 1 }

/-- `htimer_reset`, which does nothing to a period. -/
def htimerReset (a : Nat) (timer : Hevent) (timeout : Nat) : Hloop :=
  if timer.eventType ≠ .timeout then s
  else
    let s := if timer.destroy then { s with ntimers := s.ntimers + 1 }
      else { s with timers := s.timers.erase a }
    let timer := { timer with
      repeats := if timer.repeats = 0 then 1 else timer.repeats
      timeout := if timeout > 0 then timeout else timer.timeout }
    eventReset { s with timers := a :: s.timers } a { timer with
      nextTimeout := roundTimeout timer.timeout (s.curHrtime + timer.timeout * 1000) }

/-- What `__htimer_del` does to the loop; the timer is marked by `destroy`. -/
def htimerUnlink (a : Nat) (timer : Hevent) : Hloop :=
  if timer.destroy then s
  else
    match timer.eventType with
    | .timeout => { s with timers := s.timers.erase a, ntimers := s.ntimers - 1 }
    | .period => { s with realtimers := s.realtimers.erase a, ntimers := s.ntimers - 1 }
    | _ => { s with ntimers := s.ntimers - 1 }

/-- `htimer_del` -/
def htimerDel (a : Nat) (timer : Hevent) : Hloop :=
  if !timer.active then s
  else eventDel (htimerUnlink s a timer) a { timer with destroy := true }

/-- The calls that user code makes, in a callback or outside the loop. The address of a new object is
    the allocator's choice; a handle that is passed refers to a live object of the right type. -/
inductive LoopOp where
  | hioGet (a : Nat)
  | hioAdd (a : Nat) (cb : Bool) (events : UInt32)
  | hioDel (a : Nat) (events : UInt32)
  | hioDone (a : Nat)
  | hidleAdd (a : Nat) (repeats : UInt32) (cb : Bool)
  | hidleDel (a : Nat)
  | htimerAdd (a : Nat) (timeout : Nat) (repeats : UInt32) (cb : Bool) (now : Nat)
  | htimerAddPeriod (a : Nat) (repeats : UInt32) (cb : Bool) (cron : Nat)
  | htimerReset (a : Nat) (timeout : Nat)
  | htimerDel (a : Nat)
  | heventSetPriority (a : Nat) (priority : Fin heventPrioritySize)
  deriving DecidableEq

/-- `f` of the object at `a`, if it is live and of a type that `isType` accepts. -/
def withHandle (a : Nat) (isType : HeventType → Bool) (f : Hevent → Hloop) : Option Hloop :=
  match s.mem a with
  | none => none
  | some ev => if isType ev.eventType then some (f ev) else none

/-- A call that allocates an object at `a`. -/
def withFresh (a : Nat) (f : Hloop) : Option Hloop :=
  if (s.mem a).isNone then some f else none

/-- A call by user code. -/
def callOp : LoopOp → Option Hloop
  | .hioGet a => withFresh s a (hioGet s a)
  | .hioAdd a cb events => withHandle s a (· = .io) fun io => hioAdd s a io cb events
  | .hioDel a events => withHandle s a (· = .io) fun io => hioDel s a io events
  | .hioDone a => withHandle s a (· = .io) fun io => hioDoneEvents s a io
  | .hidleAdd a repeats cb => withFresh s a (hidleAdd s a repeats cb)
  | .hidleDel a => withHandle s a (· = .idle) fun idle => hidleDel s a idle
  | .htimerAdd a timeout repeats cb now => withFresh s a (htimerAdd s a timeout repeats cb now)
  | .htimerAddPeriod a repeats cb cron => withFresh s a (htimerAddPeriod s a repeats cb cron)
  | .htimerReset a timeout =>
    withHandle s a (fun t => t = .timeout || t = .period) fun timer => htimerReset s a timer timeout
  | .htimerDel a =>
    withHandle s a (fun t => t = .timeout || t = .period) fun timer => htimerDel s a timer
  | .heventSetPriority a priority =>
    withHandle s a (fun _ => true) fun ev => s.set a { ev with priority }

/-! ## Collecting the events that are due -/

/-- The heap of the timers, or that of the periods. -/
def Hloop.heap (real : Bool) : List Nat := if real then s.realtimers else s.timers

/-- When the timer at `t` is due. -/
def Hloop.nextTimeout (s : Hloop) (t : Nat) : Nat :=
  match s.mem t with
  | some timer => timer.nextTimeout
  | none => 0

/-- `t` can be the root of the heap, and its timeout is not beyond `limit`. -/
def Hloop.isDue (real : Bool) (limit t : Nat) : Bool :=
  (s.heap real).contains t && s.nextTimeout t ≤ limit &&
    (s.heap real).all fun u => s.nextTimeout t ≤ s.nextTimeout u

/-- `while (next_timeout <= limit) next_timeout += step`. -/
def advanceTimeout (step limit : Nat) : Nat → Nat → Nat
  | 0, next => next
  | fuel + 1, next => if next ≤ limit then advanceTimeout step limit fuel (next + step) else next

/-- A repeat is used up, unless there is no limit. -/
def countDown (repeats : UInt32) : UInt32 := if repeats = infinite then repeats else repeats - 1

/-- One iteration of `__hloop_process_timers`, for the timer at the root of the heap. -/
def processTimer (t : Nat) (timer : Hevent) (limit cron : Nat) : Hloop :=
  let timer := { timer with repeats := countDown timer.repeats }
  if timer.repeats = 0 then
    eventPending (htimerUnlink s t timer) t { timer with destroy := true }
  else
    eventPending s t { timer with
      nextTimeout := match timer.eventType with
        | .timeout => advanceTimeout (timer.timeout * 1000) limit (limit + 1) timer.nextTimeout
        | .period => cron * 1000000
        | _ => timer.nextTimeout }

/-- An iteration of `hloop_process_idles`. -/
def processIdle (a : Nat) (idle : Hevent) : Hloop :=
  let idle := { idle with repeats := countDown idle.repeats }
  if idle.repeats = 0 then eventPending (hidleUnlink s a idle) a { idle with destroy := true }
  else eventPending s a idle

/-! ## `hloop_process_pendings` -/

/-- The end of an iteration of `hloop_process_pendings`: the event is done, and freed if it was deleted. -/
def finishEvent (i cur : Nat) (next : Option Nat) : Hloop :=
  match s.mem cur with
  | none => { s with phase := .undefined }
  | some ev =>
    let s := { s with phase := .pass i next, cleared := s.cleared.filter (· ≠ cur) }
    if ev.destroy then eventDel s cur { ev with pending := false }
    else s.set cur { ev with pending := false }

/-- The beginning of an iteration, up to the call of the callback. -/
def visitEvent (i cur : Nat) : Hloop :=
  match s.mem cur with
  | none => { s with phase := .undefined }
  | some ev =>
    if ev.pending then
      if ev.active && ev.cb then
        { s with phase := .callback i cur ev.pendingNext, called := cur :: s.called }
      else finishEvent s i cur ev.pendingNext
    else { s with phase := .pass i ev.pendingNext, cleared := s.cleared.filter (· ≠ cur) }

/-- The end of a list; the next one has a lower priority. -/
def finishList : Nat → Hloop
  | 0 =>
    { s with pendings := Function.update s.pendings 0 none, npendings := 0, phase := .idle, cleared := [] }
  | i + 1 =>
    { s with pendings := Function.update s.pendings (i + 1) none, phase := .pass i (s.pendings i) }

/-- `hloop_process_pendings` begins with the highest priority. -/
def processPendings : Hloop :=
  if s.npendings = 0 then { s with phase := .idle }
  else { s with phase := .pass (heventPrioritySize - 1) (s.pendings (heventPrioritySize - 1)), called := [] }

/-- `hloop_process_events` after the timers: the idles are processed if nothing else is pending. -/
def processIdles : Hloop :=
  if s.npendings = 0 ∧ s.nidles ≠ 0 then { s with phase := .idles s.idles } else processPendings s

/-! ## Steps -/

/-- The steps of the loop thread and of the user code that it calls. The times are the values that the
    clocks have, and `cron` is a result of `cron_next_timeout`. -/
inductive LoopAct where
  | call (op : LoopOp)
  | hloopStop
  | hloopRun
  | leaveRun
  | processEvents (timeoutMs : Int) (now realNow : Nat)
  | mark (a : Nat)
  | polled (now realNow : Nat)
  | expire (t cron : Nat)
  | timersDone
  | idleNext
  | visit
  | ret
  deriving DecidableEq

/-- The block time is negative: a timer is overdue, and the poll is left out. -/
def Hloop.overdue (timeoutMs : Int) (now realNow : Nat) : Bool :=
  s.ntimers ≠ 0 && (timeoutMs < 0 || (s.timers.any fun t => s.nextTimeout t < now) ||
    s.realtimers.any fun t => s.nextTimeout t < realNow)

/-- One step of the loop or of user code. -/
def loopStep (act : LoopAct) : Option Hloop :=
  match s.phase, act with
  -- user code runs outside `hloop_run` or in a callback
  | .idle, .call op => if s.running then none else callOp s op
  | .callback _ _ _, .call op => callOp s op
  -- from any thread
  | _, .hloopStop => some { s with stopped := true }
  | .idle, .hloopRun => if s.running then none else some { s with running := true, stopped := false }
  | .idle, .leaveRun => if s.running then some { s with running := false, stopped := true } else none
  | .idle, .processEvents timeoutMs now realNow =>
    if s.running && s.stopped then none
    else
      let s := if s.ntimers ≠ 0 then { s with curHrtime := now } else s
      some { s with phase := if s.overdue timeoutMs now realNow then .timers false now realNow else .poll }
  -- the watcher reports ios that are registered
  | .poll, .mark a =>
    match s.mem a with
    | none => none
    | some io =>
      if io.eventType = .io ∧ io.events ≠ 0 ∧ s.nios ≠ 0 then some (eventPending s a io) else none
  | .poll, .polled now realNow =>
    let s := { s with curHrtime := now }
    -- woken up by `hloop_stop`
    if s.stopped then some { s with phase := .idle }
    else if s.ntimers ≠ 0 then some { s with phase := .timers false now realNow }
    else some (processIdles s)
  | .timers real limit _, .expire t cron =>
    if s.isDue real limit t then
      match s.mem t with
      | none => some { s with phase := .undefined }
      | some timer => some (processTimer s t timer limit cron)
    else none
  | .timers real limit now, .timersDone =>
    if (s.heap real).any fun t => s.nextTimeout t ≤ limit then none
    else if real then some (processIdles s)
    else some { s with phase := .timers true now now }
  | .idles [], .idleNext => some (processPendings s)
  | .idles (a :: rest), .idleNext =>
    match s.mem a with
    | none => some { s with phase := .undefined }
    | some idle => some (processIdle { s with phase := .idles rest } a idle)
  | .pass i none, .visit => some (finishList s i)
  | .pass i (some cur), .visit => some (visitEvent s i cur)
  | .callback i cur next, .ret => some (finishEvent s i cur next)
  | _, _ => none

/-- A new loop. -/
def LoopInit : Prop := s = {}

/-! ## What the pending lists are for -/

/-- Where the part of the list `i` starts that is still to be visited. -/
def Hloop.unvisited (i : Nat) : Option Nat :=
  match s.phase with
  | .pass j cur => if i = j then cur else s.pendings i
  | .callback j _ next => if i = j then next else s.pendings i
  | .undefined => none
  | _ => s.pendings i

/-- The link of the event at `a`. -/
def Hloop.next (a : Nat) : Option (Option Nat) := (s.mem a).map Hevent.pendingNext

/-- No io is reported whose flag `hio_del` has cleared while it was waiting in a list that has not been
    visited since, and no timer is deleted that has been reset while it was waiting in a list, or in
    its own callback, before its turn is over. -/
def LoopAllowed (act : LoopAct) : Prop :=
  ∀ a ∈ s.cleared, act ≠ .mark a ∧ act ≠ .call (.htimerDel a)

instance (s : Hloop) (act : LoopAct) : Decidable (LoopAllowed s act) :=
  inferInstanceAs (Decidable (∀ a ∈ s.cleared, act ≠ .mark a ∧ act ≠ .call (.htimerDel a)))

/-- The steps that can happen inside one call of `hloop_process_pendings`. -/
def LoopAct.inPass : LoopAct → Bool
  | .call _ | .hloopStop | .visit | .ret => true
  | _ => false

/-- The step visits an event of a list. -/
def LoopAct.isVisit : LoopAct → Bool
  | .visit => true
  | _ => false

end HvVerified.Event
