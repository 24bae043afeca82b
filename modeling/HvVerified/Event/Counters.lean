import HvVerified.Lib.Count
import HvVerified.Event.Hloop

/-!
# The event loop: the counters

The loop together with its signals and with `nactives`, the number of active events. The counters
`ntimers`, `nidles` and `nios` are part of the loop already; here every step of the loop is taken
together with what its calls of `EVENT_ACTIVE` and `EVENT_INACTIVE` do to `nactives`.
-/

namespace HvVerified.Event

open Lib Function

/-- `EVENT_ACTIVE`, for an event whose flag is `active`. -/
def eventActive (active : Bool) (nactives : Int) : Int := if active then nactives else nactives + 1

/-- `EVENT_INACTIVE` -/
def eventInactive (active : Bool) (nactives : Int) : Int := if active then nactives - 1 else nactives

variable (s : Hloop)

/-- The event at `a` is active. -/
def Hloop.isActive (a : Nat) : Bool := (s.mem a).any Hevent.active

/-! ## What the steps of the loop do to `nactives` -/

/-- `hio_del`: the io becomes inactive when none of its events is left. -/
def hioDelActives (io : Hevent) (events : UInt32) (nactives : Int) : Int :=
  let left := if io.events &&& events = 0 then io.events else io.events &&& ~~~events
  if !io.active then nactives else if left = 0 then eventInactive io.active nactives else nactives

/-- `htimer_reset`, for `nactives`. -/
def htimerResetActives (timer : Hevent) (nactives : Int) : Int :=
  if timer.eventType ≠ .timeout then nactives else eventActive timer.active nactives

/-- What a call does to `nactives`. -/
def callActives (nactives : Int) : LoopOp → Int
  | .hioGet _ => nactives
  | .hioAdd a _ _ => eventActive (s.isActive a) nactives
  | .hioDel a events => (s.mem a).elim nactives fun io => hioDelActives io events nactives
  | .hioDone a =>
    (s.mem a).elim nactives fun io => if io.ready then hioDelActives io hvRdwr nactives else nactives
  | .hidleAdd _ _ _ => eventActive false nactives
  | .hidleDel a => eventInactive (s.isActive a) nactives
  | .htimerAdd _ timeout _ _ _ => if timeout = 0 then nactives else eventActive false nactives
  | .htimerAddPeriod _ _ _ _ => eventActive false nactives
  | .htimerReset a _ => (s.mem a).elim nactives fun timer => htimerResetActives timer nactives
  | .htimerDel a => eventInactive (s.isActive a) nactives
  | .heventSetPriority _ _ => nactives

/-- `EVENT_DEL` of an event that is marked as destroyed, after its callback. -/
def finishActives (cur : Nat) (nactives : Int) : Int :=
  (s.mem cur).elim nactives fun ev => if ev.destroy then eventInactive ev.active nactives else nactives

/-- The next event of a list, if its callback is not called. -/
def visitActives (cur : Nat) (nactives : Int) : Int :=
  (s.mem cur).elim nactives fun ev =>
    if ev.pending then if ev.active && ev.cb then nactives else finishActives s cur nactives else nactives

/-- What a step of the loop does to `nactives`. -/
def stepActives (nactives : Int) (act : LoopAct) : Int :=
  match s.phase, act with
  | _, .call op => callActives s nactives op
  | .pass _ (some cur), .visit => visitActives s cur nactives
  | .callback _ cur _, .ret => finishActives s cur nactives
  | _, _ => nactives

/-! ## Signals -/

/-- The fields of `hsignal_t` that matter here; `event_id` is the number of the signal. An `hsignal_t`
    is never put in a pending list: the signal handler posts a copy of it. -/
structure Hsignal where
  signo : Int
  active : Bool

/-- The loop, the array `signals` of its signals and the objects in it, and the counters. -/
structure CountedLoop where
  loop : Hloop := {}
  signals : Int → Option Nat := fun _ => none
  sigs : Nat → Option Hsignal := fun _ => none
  nsignals : Int := 0
  nactives : Int := 0

/-- One more than the largest number of a signal. -/
def maxSigno : Int := 65

/-- `hsignal_add`; the address `a` is the allocator's choice. -/
def hsignalAdd (s : CountedLoop) (a : Nat) (signo : Int) : CountedLoop :=
  if signo ≤ 0 ∨ signo ≥ maxSigno then s
  else
    match s.signals signo with
    | none =>
      { s with
        sigs := update s.sigs a (some { signo, active := true })
        signals := update s.signals signo (some a)
        nsignals := s.nsignals + 1
        nactives := eventActive false s.nactives }
    | some b =>
      match s.sigs b with
      | none => { s with loop := { s.loop with phase := .undefined } }
      | some sig =>
        { s with
          sigs := update s.sigs b (some { sig with active := true })
          nactives := eventActive sig.active s.nactives }

/-- `hsignal_del` -/
def hsignalDel (s : CountedLoop) (a : Nat) (sig : Hsignal) : CountedLoop :=
  if !sig.active then s
  else
    { s with
      signals := update s.signals sig.signo none
      nsignals := s.nsignals - 1
      sigs := update s.sigs a none
      nactives := eventInactive sig.active s.nactives }

/-- User code runs outside `hloop_run` or in a callback. -/
def Hloop.inUserCode : Bool :=
  match s.phase with
  | .idle => !s.running
  | .callback _ _ _ => true
  | _ => false

/-- A step of the loop, or a call for a signal. -/
inductive CountedAct where
  | loop (act : LoopAct)
  | hsignalAdd (a : Nat) (signo : Int)
  | hsignalDel (a : Nat)

/-- A step with the counters. -/
def countedStep (s : CountedLoop) : CountedAct → Option CountedLoop
  | .loop act =>
    (loopStep s.loop act).map fun loop => { s with loop, nactives := stepActives s.loop s.nactives act }
  | .hsignalAdd a signo =>
    if s.loop.inUserCode && (s.sigs a).isNone then some (hsignalAdd s a signo) else none
  | .hsignalDel a =>
    match s.sigs a with
    | none => none
    | some sig => if s.loop.inUserCode then some (hsignalDel s a sig) else none

/-- A new loop. -/
def CountedInit (s : CountedLoop) : Prop := s = {}

/-! ## What the counters are for -/

/-- The event is an io that is active. -/
def Hevent.isActiveIo (ev : Hevent) : Bool := ev.eventType = .io && ev.active

/-- The counters say how many events there are of each kind. -/
structure CountersExact (s : CountedLoop) : Prop where
  ntimers : s.loop.ntimers = s.loop.timers.length + s.loop.realtimers.length
  nidles : s.loop.nidles = s.loop.idles.length
  nios : Numbers s.loop.mem Hevent.isActiveIo s.loop.nios
  nsignals : Numbers s.signals (fun _ => true) s.nsignals
  nactives : ∃ events signals, Numbers s.loop.mem Hevent.active events ∧
    Numbers s.sigs Hsignal.active signals ∧ s.nactives = events + signals

end HvVerified.Event
