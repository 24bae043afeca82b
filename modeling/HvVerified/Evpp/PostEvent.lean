import HvVerified.Event.CustomEvents

/-!
# `evpp/EventLoop.h`: posted functors

`EventLoop::postEvent` pushes the functor to the queue `customEvents`, under the mutex of the
`EventLoop`, and then posts an event to the `hloop_t`, under the mutex of that. When the event is
dispatched, `onCustomEvent` runs the functor at the front of `customEvents`. Functors are numbered in
the order of the pushes; other events may be posted to the same loop.
-/

namespace HvVerified.Evpp

open Event

/-- The events that are posted to the loop. -/
inductive LoopEvent where
  /-- posted by `postEvent` for the functor `id`; its callback is `onCustomEvent` -/
  | functor (id : Nat)
  | other
  deriving DecidableEq, Repr

instance : Inhabited LoopEvent := ⟨.other⟩

/-- The `EventLoop` and its `hloop_t`. `posting` are the calls of `postEvent`, by the loop thread or by
    another one, that are about to call `hloop_post_event`; `entered` says that the running
    `onCustomEvent` has taken its functor. `ran` and `broken` are history variables: the functors that
    have been run, and that `front` was called on the empty queue. -/
structure FunctorLoop where
  hloop : CustomEvents LoopEvent
  customEvents : List Nat
  next : Nat
  posting : List (Bool × Nat)
  entered : Bool
  ran : List Nat
  broken : Bool

/-- An `EventLoop` to which nothing has been posted. -/
def functorInit : FunctorLoop where
  hloop := customInit
  customEvents := []
  next := 0
  posting := []
  entered := false
  ran := []
  broken := false

/-- A step of `postEvent`, of `onCustomEvent` or of the `hloop_t`. -/
inductive FunctorAct where
  /-- `postEvent` up to the call of `hloop_post_event` -/
  | postEvent (byLoop : Bool)
  | onCustomEvent
  | hloop (act : CustomAct LoopEvent)

variable (s : FunctorLoop)

/-- The loop thread runs user code. -/
def FunctorLoop.inUserCode : Bool :=
  match s.hloop.reader with
  | .callback .other _ => true
  | .callback (.functor _) _ => s.entered
  | _ => false

/-- The calls of the loop thread that have not returned. -/
def FunctorLoop.loopIsPosting : Bool := s.posting.any Prod.fst

/-- One step. If `whole`, nothing comes between the two parts of `postEvent`. -/
def functorStep (whole : Bool) (s : FunctorLoop) : FunctorAct → Option FunctorLoop
  | .postEvent byLoop =>
    if byLoop && (!s.inUserCode || s.loopIsPosting) then none
    else
      some { s with
        customEvents := s.customEvents ++ [s.next]
        posting := s.posting ++ [(byLoop, s.next)]
        next := s.next + 1 }
  | .onCustomEvent =>
    match s.hloop.reader with
    | .callback (.functor _) _ =>
      if s.entered then none
      else
        match s.customEvents with
        | [] => some { s with broken := true, entered := true }
        | id :: rest => some { s with customEvents := rest, ran := s.ran ++ [id], entered := true }
    | _ => none
  | .hloop (.postLock byLoop (.functor id)) =>
    if s.posting.contains (byLoop, id) then
      (customStep whole s.hloop (.postLock byLoop (.functor id))).map fun hloop =>
        { s with hloop, posting := s.posting.erase (byLoop, id) }
    else none
  | .hloop .ret =>
    if s.inUserCode && !s.loopIsPosting then
      (customStep whole s.hloop .ret).map fun hloop => { s with hloop, entered := false }
    else none
  | .hloop act => (customStep whole s.hloop act).map fun hloop => { s with hloop }

/-! ## What the functors are for -/

/-- The functor that an event was posted for. -/
def LoopEvent.functor? : LoopEvent → Option Nat
  | .functor id => some id
  | .other => none

/-- The functors that the events were posted for. -/
def functorIds (events : List LoopEvent) : List Nat := events.filterMap LoopEvent.functor?

/-- No thread is in `postEvent`, and the loop is in no callback. -/
def FunctorLoop.quiescent : Bool :=
  s.posting.isEmpty && s.hloop.mutex.isNone &&
    match s.hloop.reader with
    | .callback _ _ => false
    | _ => true

/-- The functors that have run are those whose event has been dispatched, and each has run once. -/
def Paired : Prop :=
  s.ran.Nodup ∧ ∀ id, id ∈ s.ran ↔ id ∈ functorIds s.hloop.dispatched

/-- The event that `hloop_post_event` is about to push. -/
def inFlight : Option (Holder LoopEvent) → List Nat
  | some (.post _ (.functor _) .unlock) => []
  | some (.post _ (.functor id) _) => [id]
  | _ => []

/-- No `hloop_post_event` of a functor fails, and none overtakes another: it takes the mutex for the
    functor that was pushed first among those that are being posted. -/
def functorAllowed : FunctorAct → Bool
  | .hloop (.postLock byLoop (.functor id)) => s.posting.head? = some (byLoop, id)
  | .hloop (.postCreate ok) => s.hloop.eventfds || ok || (inFlight s.hloop.mutex).isEmpty
  | .hloop (.postWrite ok) => ok || (inFlight s.hloop.mutex).isEmpty
  | _ => true

end HvVerified.Evpp
