import HvVerified.Event.Hloop

/-!
# `evpp/EventLoop.h`: timers

An `EventLoop` keeps a map `timers` from timer IDs to `Timer` objects. A `Timer` refers to the
`htimer_t` that `setTimer` has added to the `hloop_t`, and counts the remaining repeats a second time.
`killTimer`, `resetTimer` and `setTimerInLoop` take effect at once if they are called by the thread of
the running loop, and are queued as functors otherwise. `onTimer` is the callback of all these
`htimer_t`.

The `hloop_t` is the one of `Event/Hloop.lean`; of its other events there are ios, in whose callbacks
user code runs and queued functors are run. The thread that creates the `EventLoop` runs it, and `stop`
and `pause` are not called, so that `isRunning` says that `hloop_run` has been called.
-/

namespace HvVerified.Evpp

open Event

/-- `TimerID` -/
abbrev TimerID := UInt64

/-- `INVALID_TIMER_ID` -/
def invalidTimerID : TimerID := 0xffffffffffffffff

/-- A `Timer`; `timer` is the address of its `htimer_t`. The other fields are history variables: the ID
    it was set with, how often the `htimer_t` has expired, how often the callback has been called, and
    that the timer was killed or its ID was set anew. -/
structure Timer where
  timer : Nat
  repeats : UInt32
  id : TimerID
  expired : Nat := 0
  ran : Nat := 0
  ended : Bool := false
  deriving DecidableEq, Repr

/-- A call of the timer interface. -/
inductive TimerCall where
  | setTimer (timeout : Nat) (repeats : UInt32) (timerID : TimerID)
  | killTimer (timerID : TimerID)
  | resetTimer (timerID : TimerID) (timeout : Nat)
  deriving DecidableEq, Repr

/-- A queued functor. -/
inductive TimerFunctor where
  | call (call : TimerCall)
  /-- the `killTimer` that `setTimer` calls -/
  | killOld (timerID : TimerID)
  deriving DecidableEq, Repr

/-- `timers` gives the number of the `Timer` object, the objects being numbered in the order in which they
    are made, and `eventId` the ID of an `htimer_t` of `setTimer`. `current` is the local `timer` of the
    `onTimer` that is running. `left` is a history variable: how many expirations are left of a timer that
    has been set and has since been neither killed nor exhausted. -/
structure EventLoop where
  hloop : Hloop := {}
  tid : UInt64 := 0
  nextTimerID : TimerID := 0
  timers : TimerID → Option Nat := fun _ => none
  objects : Nat → Timer := fun _ => { timer := 0, repeats := 0, id := 0 }
  nobjects : Nat := 0
  eventId : Nat → Option TimerID := fun _ => none
  customEvents : List TimerFunctor := []
  current : Option Nat := none
  left : TimerID → Option UInt32 := fun _ => none

variable (s : EventLoop) (timerID : TimerID)

namespace EventLoop

/-- `isRunning` -/
def isRunning : Bool := s.hloop.running

/-- `generateTimerID` for the value `next` of the incremented counter. -/
def generateTimerID (next : TimerID) : TimerID :=
  ((s.tid &&& 0xffffffff) <<< 32) ||| next

/-- The ID that `setTimer` uses. -/
def chosenID : TimerID :=
  if timerID = invalidTimerID then s.generateTimerID (s.nextTimerID + 1) else timerID

/-- The counter after a call with the argument `timerID`. -/
def chooseID : EventLoop :=
  if timerID = invalidTimerID then { s with nextTimerID := s.nextTimerID + 1 } else s

/-- A call with the handle of an `htimer_t`, which may have been freed. -/
def onHandle (op : LoopOp) : Hloop :=
  (callOp s.hloop op).getD { s.hloop with phase := .undefined }

/-! ## The calls in the loop -/

/-- The lambda of `killTimer`; `ended` says that the timer is meant to end. -/
def deleteTimer (ended : Bool) : EventLoop :=
  match s.timers timerID with
  | none => s
  | some o =>
    { s with
      hloop := s.onHandle (.htimerDel (s.objects o).timer)
      timers := Function.update s.timers timerID none
      objects := Function.update s.objects o { s.objects o with ended := ended || (s.objects o).ended } }

/-- The functor of `killTimer`. -/
def killTimerNow : EventLoop :=
  let s := s.deleteTimer timerID true
  { s with left := Function.update s.left timerID none }

/-- The functor of `resetTimer`. -/
def resetTimerNow (timeout : Nat) : EventLoop :=
  match s.timers timerID with
  | none => s
  | some o =>
    { s with
      hloop := s.onHandle (.htimerReset (s.objects o).timer timeout)
      objects := Function.update s.objects o
        { s.objects o with repeats := if (s.objects o).repeats = 0 then 1 else (s.objects o).repeats }
      left := Function.update s.left timerID (some ((s.left timerID).getD 1)) }

/-- `setTimer` stores the new `Timer` -/
def putTimer (a : Nat) (repeats : UInt32) : EventLoop :=
  { s with
    timers := Function.update s.timers timerID (some s.nobjects)
    objects := Function.update s.objects s.nobjects { timer := a, repeats, id := timerID }
    nobjects := s.nobjects + 1
    left := Function.update s.left timerID (if repeats = 0 then none else some repeats) }

/-- `setTimer` adds the `htimer_t` -/
def addHtimer (timeout : Nat) (repeats : UInt32) (timerID : TimerID) (now a : Nat) :
    EventLoop :=
  { s with
    hloop := htimerAdd s.hloop a timeout repeats true now
    eventId := Function.update s.eventId a (some timerID) }

/-- The `killTimer` of `setTimer`. -/
def killOldTimer : EventLoop :=
  if s.isRunning then s.deleteTimer timerID true
  else { s with customEvents := s.customEvents ++ [.killOld timerID] }

/-- `setTimer`, with the address `a` for the `htimer_t`. There is no result if the assertion fails that
    `htimer_add` has made one. -/
def setTimer (timeout : Nat) (repeats : UInt32) (timerID : TimerID) (now a : Nat) :
    Option EventLoop :=
  if timeout = 0 ∨ (s.hloop.mem a).isSome then none
  else
    let id := s.chosenID timerID
    some ((((s.chooseID timerID).addHtimer timeout repeats id now a).killOldTimer id).putTimer id a repeats)

/-- Runs a functor. -/
def runFunctor (now a : Nat) : TimerFunctor → Option EventLoop
  | .call (.setTimer timeout repeats timerID) => s.setTimer timeout repeats timerID now a
  | .call (.killTimer timerID) => some (s.killTimerNow timerID)
  | .call (.resetTimer timerID timeout) => some (s.resetTimerNow timerID timeout)
  | .killOld timerID => some (s.deleteTimer timerID false)

/-- `runInLoop` -/
def runInLoop (inLoopThread : Bool) (now a : Nat) (fn : TimerFunctor) : Option EventLoop :=
  if s.isRunning && inLoopThread then s.runFunctor now a fn
  else some { s with customEvents := s.customEvents ++ [fn] }

/-! ## `onTimer` -/

/-- `onTimer` up to the call of the callback. -/
def enterOnTimer (htimer : Nat) : EventLoop :=
  match s.eventId htimer with
  | none => s
  | some timerID =>
    match s.timers timerID with
    | none => s
    | some o =>
      { s with
        objects := Function.update s.objects o
          { s.objects o with repeats := countDown (s.objects o).repeats, ran := (s.objects o).ran + 1 }
        current := some o }

/-- `onTimer` after the callback -/
def leaveOnTimer : EventLoop :=
  match s.current with
  | none => s
  | some o =>
    { s with
      timers := if (s.objects o).repeats = 0 then Function.update s.timers (s.objects o).id none else s.timers
      current := none }

/-- Counts an expiration. -/
def noteExpired (t : Nat) : EventLoop :=
  match s.eventId t with
  | none => s
  | some timerID =>
    { s with
      objects := fun o =>
        if s.timers timerID = some o then { s.objects o with expired := (s.objects o).expired + 1 }
        else s.objects o
      left := Function.update s.left timerID
        ((s.left timerID).bind fun l => if countDown l = 0 then none else some (countDown l)) }

/-- User code of the loop thread is running: before `run`, or in a callback. -/
def inUserCode : Bool :=
  match s.hloop.phase with
  | .idle => !s.isRunning
  | .callback _ cur _ => (s.eventId cur).isNone || s.current.isSome
  | _ => false

/-- An io callback is running. -/
def inIoCallback : Bool :=
  match s.hloop.phase with
  | .callback _ cur _ => (s.eventId cur).isNone
  | _ => false

end EventLoop

/-! ## Steps -/

/-- A step of a thread. -/
inductive TimerAct where
  | setTimer (timeout : Nat) (repeats : UInt32) (timerID : TimerID) (now a : Nat)
  /-- `setTimerInLoop`, `killTimer` and `resetTimer`, by the loop thread or by another one -/
  | setTimerInLoop (inLoopThread : Bool) (timeout : Nat) (repeats : UInt32) (timerID : TimerID) (now a : Nat)
  | killTimer (inLoopThread : Bool) (timerID : TimerID)
  | resetTimer (inLoopThread : Bool) (timerID : TimerID) (timeout : Nat)
  | onCustomEvent (now a : Nat)
  /-- a step of the `hloop_t` -/
  | run
  | processEvents (timeoutMs : Int) (now realNow : Nat)
  | mark (a : Nat)
  | polled (now realNow : Nat)
  | expire (t cron : Nat)
  | timersDone
  | idleNext
  | visit
  | ret
  /-- ios are made and registered -/
  | hioGet (a : Nat)
  | hioAdd (a : Nat) (cb : Bool) (events : UInt32)
  deriving DecidableEq

/-- A step of the `hloop_t`. -/
def EventLoop.hloopStep (act : LoopAct) : Option EventLoop :=
  (loopStep s.hloop act).map fun hloop => { s with hloop }

/-- `onTimer` is entered if the callback of an `htimer_t` of `setTimer` is called. -/
def EventLoop.enterCallback : EventLoop :=
  match s.hloop.phase with
  | .callback _ cur _ => s.enterOnTimer cur
  | _ => s

/-- One step of the loop or of another thread. -/
def timerStep : TimerAct → Option EventLoop
  | .setTimer timeout repeats timerID now a =>
    if s.inUserCode then s.setTimer timeout repeats timerID now a else none
  | .setTimerInLoop inLoopThread timeout repeats timerID now a =>
    if inLoopThread && !s.inUserCode then none
    else (s.chooseID timerID).runInLoop inLoopThread now a (.call (.setTimer timeout repeats (s.chosenID timerID)))
  | .killTimer inLoopThread timerID =>
    if inLoopThread && !s.inUserCode then none
    else s.runInLoop inLoopThread 0 0 (.call (.killTimer timerID))
  | .resetTimer inLoopThread timerID timeout =>
    if inLoopThread && !s.inUserCode then none
    else s.runInLoop inLoopThread 0 0 (.call (.resetTimer timerID timeout))
  | .onCustomEvent now a =>
    match s.customEvents with
    | [] => none
    | fn :: rest => if s.inIoCallback then { s with customEvents := rest }.runFunctor now a fn else none
  | .run => s.hloopStep .hloopRun
  | .processEvents timeoutMs now realNow =>
    if s.isRunning then s.hloopStep (.processEvents timeoutMs now realNow) else none
  | .mark a => s.hloopStep (.mark a)
  | .polled now realNow => s.hloopStep (.polled now realNow)
  | .expire t cron => (s.hloopStep (.expire t cron)).map (·.noteExpired t)
  | .timersDone => s.hloopStep .timersDone
  | .idleNext => s.hloopStep .idleNext
  | .visit => (s.hloopStep .visit).map EventLoop.enterCallback
  | .ret => s.leaveOnTimer.hloopStep .ret
  | .hioGet a =>
    if s.inUserCode then
      ({ s with eventId := Function.update s.eventId a none } : EventLoop).hloopStep (.call (.hioGet a))
    else none
  | .hioAdd a cb events => if s.inUserCode then s.hloopStep (.call (.hioAdd a cb events)) else none

/-- A new loop. -/
def TimersInit : Prop := ∃ tid, s = { tid }

/-! ## What the map is for -/

/-- A timer that is set and neither killed nor exhausted has its entry, whose `htimer_t` is in the heap
    with the expirations that are left; the `htimer_t` of `setTimer` in the heap are those of the entries;
    and between the passes there are no other entries, and the callback of every timer that was not
    killed has been called at each of its expirations. -/
structure TimersAgree (s : EventLoop) : Prop where
  entry : ∀ id l, s.left id = some l → ∃ o ev, s.timers id = some o ∧
    (s.objects o).timer ∈ s.hloop.timers ∧ s.eventId (s.objects o).timer = some id ∧
    s.hloop.mem (s.objects o).timer = some ev ∧ ev.repeats = l
  live : ∀ a ∈ s.hloop.timers, ∀ id, s.eventId a = some id →
    s.left id ≠ none ∧ ∃ o, s.timers id = some o ∧ (s.objects o).timer = a
  between : s.hloop.phase = .idle → ∀ id, s.timers id ≠ none → s.left id ≠ none
  called : s.hloop.phase = .idle → ∀ o < s.nobjects, (s.objects o).ended = false →
    (s.objects o).ran = (s.objects o).expired
  safe : s.hloop.phase ≠ .undefined

namespace EventLoop

/-- The `htimer_t` of the entry has not been reset in its own callback, or this callback is over. -/
def mayDelete : Bool :=
  match s.timers timerID with
  | none => true
  | some o => !s.hloop.cleared.contains (s.objects o).timer

/-- The loop runs, the timer is to expire, and it is not set in its own last callback. -/
def maySet (repeats : UInt32) (timerID : TimerID) : Bool :=
  s.isRunning && repeats ≠ 0 && s.mayDelete timerID &&
    match s.current with
    | none => true
    | some o => (s.objects o).repeats ≠ 0 || (s.objects o).id ≠ timerID

/-- The timer has not expired without its callback having been called. -/
def mayReset : Bool :=
  match s.timers timerID with
  | none => true
  | some o => s.current = some o || !(s.hloop.mem (s.objects o).timer).any Hevent.pending

/-- The functor keeps to the rules of `maySet`, `mayDelete` and `mayReset`. -/
def mayRun : TimerFunctor → Bool
  | .call (.setTimer _ repeats timerID) => s.maySet repeats (s.chosenID timerID)
  | .call (.killTimer timerID) => s.mayDelete timerID
  | .call (.resetTimer timerID _) => s.mayReset timerID
  | .killOld _ => true

end EventLoop

/-- The calls that take effect are made when they may be. -/
def timersAllowed : TimerAct → Bool
  | .setTimer _ repeats timerID _ _ => s.maySet repeats (s.chosenID timerID)
  | .setTimerInLoop inLoopThread timeout repeats timerID _ _ =>
    !(s.isRunning && inLoopThread) ||
      (s.chooseID timerID).mayRun (.call (.setTimer timeout repeats (s.chosenID timerID)))
  | .killTimer inLoopThread timerID => !(s.isRunning && inLoopThread) || s.mayDelete timerID
  | .resetTimer inLoopThread timerID _ => !(s.isRunning && inLoopThread) || s.mayReset timerID
  | .onCustomEvent _ _ => s.customEvents.head?.all s.mayRun
  | _ => true

end HvVerified.Evpp
