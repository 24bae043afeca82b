import HvVerified.Evpp.PostEvent
import HvVerified.Event.Proofs.CustomEventsProofs

/-!
# Proofs: posted functors and their events

The queue of functors and the queue of events are kept in step only by their order: `onCustomEvent` runs
the functor that was pushed first, whichever event it was called for. As long as every event is posted,
and in the order of the functors, that is the functor of the event.
-/

namespace HvVerified.Evpp

open Base List Option FunctorLoop
open Event
open Lib

variable {id left : Nat} {byLoop : Bool} {hloop : CustomEvents LoopEvent} {ev : LoopEvent}
  {act : CustomAct LoopEvent} {whole : Bool} {s s' : FunctorLoop}

@[simp] theorem functorIds_append (l l' : List LoopEvent) :
    functorIds (l ++ l') = functorIds l ++ functorIds l' := filterMap_append

@[simp] theorem functorIds_functor (id : Nat) : functorIds [.functor id] = [id] := rfl

@[simp] theorem functorIds_other : functorIds [.other] = [] := rfl

/-- The functor whose event has been dispatched, and which `onCustomEvent` has not taken. -/
def FunctorLoop.expected (s : FunctorLoop) : List Nat :=
  match s.hloop.reader with
  | .callback ev _ => if s.entered then [] else functorIds [ev]
  | _ => []

theorem expected_eq_nil (h : ∀ ev left, s.hloop.reader ≠ .callback ev left) : s.expected = [] := by
  unfold expected
  split
  next hcb => exact absurd hcb (h _ _)
  next => rfl

/-- What holds in the runs that `functorAllowed` admits. -/
structure FunctorInv (s : FunctorLoop) : Prop where
  custom : CustomInv s.hloop
  posted : functorIds s.hloop.pushed ++ inFlight s.hloop.mutex ++ s.posting.map Prod.snd = List.range s.next
  queued : s.ran ++ s.customEvents = List.range s.next
  dispatched : s.ran ++ s.expected = functorIds s.hloop.dispatched
  entered : s.entered → ∃ id left, s.hloop.reader = .callback (.functor id) left
  broken : s.broken = false

section

variable (h : FunctorInv s)

include h

theorem FunctorInv.front (hreader : s.hloop.reader = .callback (.functor id) left)
    (hentered : s.entered = false) : ∃ rest, s.customEvents = id :: rest := by
  have hexpected : s.expected = [id] := by
    rw [expected, hreader]
    simp [hentered]
  -- what has been dispatched is the first part of what has been posted
  have hprefix : s.ran ++ [id] <+: range s.next := by
    rw [← h.posted, h.custom.order, ← hexpected, h.dispatched]
    simp only [functorIds_append, append_assoc]
    exact prefix_append _ _
  rw [← h.queued] at hprefix
  obtain ⟨rest, hrest⟩ := (prefix_append_right_inj s.ran).1 hprefix
  exact ⟨rest, hrest.symm⟩

theorem functorInv_postEvent : FunctorInv { s with
      customEvents := s.customEvents ++ [s.next]
      posting := s.posting ++ [(byLoop, s.next)]
      next := s.next + 1 } := by
  refine ⟨h.custom, ?_, ?_, h.dispatched, h.entered, h.broken⟩
  · rw [range_succ, ← h.posted]
    simp
  · rw [range_succ, ← h.queued, append_assoc]

theorem functorInv_onCustomEvent
    (hreader : s.hloop.reader = .callback (.functor id) left) (hentered : s.entered = false) {rest : List Nat}
    (hrest : s.customEvents = id :: rest) :
    FunctorInv { s with customEvents := rest, ran := s.ran ++ [id], entered := true } := by
  have hqueued := h.queued
  have hdispatched := h.dispatched
  rw [expected, hreader] at hdispatched
  rw [hrest] at hqueued
  refine ⟨h.custom, h.posted, ?_, ?_, fun _ => ⟨id, left, hreader⟩, h.broken⟩
  · rw [append_assoc]
    exact hqueued
  · simp only [hentered, Bool.false_eq_true, if_false, functorIds_functor] at hdispatched
    simp only [expected, hreader, if_true, append_nil]
    exact hdispatched

theorem functorInv_hloop (hcustom : CustomInv hloop) (hpushed : functorIds hloop.pushed ++ inFlight hloop.mutex =
      functorIds s.hloop.pushed ++ inFlight s.hloop.mutex)
    (hdispatched : hloop.dispatched = s.hloop.dispatched) (hreader : hloop.reader = s.hloop.reader ∨
      (∀ ev left, hloop.reader ≠ .callback ev left) ∧ ∀ ev left, s.hloop.reader ≠ .callback ev left) :
    FunctorInv { s with hloop } := by
  have hsame : expected { s with hloop } = s.expected := by
    rcases hreader with heq | ⟨hnew, hold⟩
    · simp only [expected, heq]
    · rw [expected_eq_nil hold, expected_eq_nil hnew]
  refine ⟨hcustom, ?_, h.queued, ?_, fun hentered => ?_, h.broken⟩
  · rw [hpushed]
    exact h.posted
  · rw [hsame, hdispatched]
    exact h.dispatched
  · obtain ⟨id, left, hcb⟩ := h.entered hentered
    rcases hreader with heq | ⟨-, hold⟩
    · exact ⟨id, left, heq.trans hcb⟩
    · exact absurd hcb (hold _ _)

theorem functorInv_dispatch (hreader : s.hloop.reader = .popped ev left) (hcustom : CustomInv { s.hloop with
      mutex := none, reader := .callback ev left, dispatched := s.hloop.dispatched ++ [ev] })
    (hmutex : inFlight s.hloop.mutex = []) : FunctorInv { s with hloop := { s.hloop with
      mutex := none, reader := .callback ev left, dispatched := s.hloop.dispatched ++ [ev] } } := by
  have hentered : s.entered = false := by
    by_contra hne
    obtain ⟨id, left', hcb⟩ := h.entered (by simpa using hne)
    simp [hreader] at hcb
  have hposted := h.posted
  have hdispatched := h.dispatched
  rw [hmutex] at hposted
  rw [expected_eq_nil (by simp [hreader]), append_nil] at hdispatched
  refine ⟨hcustom, hposted, h.queued, ?_, fun he => ?_, h.broken⟩
  · simp only [expected, hentered, Bool.false_eq_true, if_false, functorIds_append, hdispatched]
  · simp [hentered] at he

theorem functorInv_ret (hreader : s.hloop.reader = .callback ev left) (huser : s.inUserCode)
    (hcustom : CustomInv { s.hloop with reader := .iterate left }) :
    FunctorInv { s with hloop := { s.hloop with reader := .iterate left }, entered := false } := by
  have hexpected : s.expected = [] := by
    rw [expected, hreader]
    rw [inUserCode, hreader] at huser
    cases ev with
    | functor id => simpa using huser
    | other => simp
  have hdispatched := h.dispatched
  rw [hexpected] at hdispatched
  exact ⟨hcustom, h.posted, h.queued, hdispatched, nofun, h.broken⟩

theorem functorInv_postLock (hmutex : s.hloop.mutex = none) (hhead : s.posting.head? = some (byLoop, id))
    (hcustom : CustomInv { s.hloop with mutex := some (.post byLoop (.functor id) .create) }) :
    FunctorInv { s with
      hloop := { s.hloop with mutex := some (.post byLoop (.functor id) .create) }
      posting := s.posting.erase (byLoop, id) } := by
  obtain ⟨posting, hposting⟩ : ∃ posting, s.posting = (byLoop, id) :: posting := by
    cases hp : s.posting with
    | nil => simp [hp] at hhead
    | cons first posting =>
      rw [hp] at hhead
      exact ⟨posting, by rw [← some.inj hhead]⟩
  have hposted := h.posted
  rw [hmutex, hposting] at hposted
  refine ⟨hcustom, ?_, h.queued, h.dispatched, h.entered, h.broken⟩
  rw [hposting, erase_cons_head, ← hposted]
  simp [inFlight]

theorem functorInv_custom (hok : functorAllowed s (.hloop act)) (hs : customStep whole s.hloop act = some hloop)
    (hlock : ∀ byLoop id, act ≠ .postLock byLoop (.functor id)) (hret : act ≠ .ret) :
    FunctorInv { s with hloop } := by
  have hcustom := customInv_step h.custom hs
  cases customStep_cases hs with
  | hloopRun ok => exact functorInv_hloop h hcustom rfl rfl (.inl rfl)
  | postLock byLoop ev hmutex =>
    cases ev with
    | functor id => exact absurd rfl (hlock byLoop id)
    | other => exact functorInv_hloop h hcustom (by simp [hmutex, inFlight]) rfl (.inl rfl)
  | @created byLoop ev ok hmutex =>
    refine functorInv_hloop h hcustom ?_ rfl (.inl rfl)
    cases ev <;> simp [hmutex, inFlight]
  | @createFailed byLoop ev hmutex hfds =>
    refine functorInv_hloop h hcustom ?_ rfl (.inl rfl)
    cases ev with
    | functor id => simp [functorAllowed, hmutex, hfds, inFlight] at hok
    | other => simp [hmutex, inFlight]
  | @written byLoop ev hmutex =>
    refine functorInv_hloop h hcustom ?_ rfl (.inl rfl)
    cases ev <;> simp [hmutex, inFlight]
  | @writeFailed byLoop ev hmutex =>
    refine functorInv_hloop h hcustom ?_ rfl (.inl rfl)
    cases ev with
    | functor id => simp [functorAllowed, hmutex, inFlight] at hok
    | other => simp [hmutex, inFlight]
  | @push byLoop ev hmutex =>
    refine functorInv_hloop h hcustom ?_ rfl (.inl rfl)
    cases ev <;> simp [hmutex, inFlight, pushEvent]
  | @postUnlock byLoop ev hmutex =>
    refine functorInv_hloop h hcustom ?_ rfl (.inl rfl)
    cases ev <;> simp [hmutex, inFlight]
  | read hreader => exact functorInv_hloop h hcustom rfl rfl (.inr ⟨by simp, by simp [hreader]⟩)
  | lock hmutex hreader =>
    exact functorInv_hloop h hcustom (by simp [hmutex, inFlight]) rfl (.inr ⟨by simp, by simp [hreader]⟩)
  | @take left hmutex hreader =>
    have htake : (takeEvent s.hloop left).pushed = s.hloop.pushed ∧
        (takeEvent s.hloop left).mutex = s.hloop.mutex ∧
        (takeEvent s.hloop left).dispatched = s.hloop.dispatched ∧
        ∀ ev left', (takeEvent s.hloop left).reader ≠ .callback ev left' := by
      unfold takeEvent
      split <;> exact ⟨rfl, rfl, rfl, by simp⟩
    obtain ⟨hpushed, hmutex', hdispatched, hnot⟩ := htake
    exact functorInv_hloop h hcustom (by rw [hpushed, hmutex']) hdispatched (.inr ⟨hnot, by simp [hreader]⟩)
  | dispatch hmutex hreader => exact functorInv_dispatch h hreader hcustom (by rw [hmutex]; rfl)
  | giveUp hreader => exact absurd hreader h.custom.found
  | ret _ => exact absurd rfl hret
  | leave hreader => exact functorInv_hloop h hcustom rfl rfl (.inr ⟨by simp, by simp [hreader]⟩)

end

theorem functorStep_hloop (hlock : ∀ byLoop id, act ≠ .postLock byLoop (.functor id)) (hret : act ≠ .ret) :
    functorStep whole s (.hloop act) = (customStep whole s.hloop act).map fun hloop => { s with hloop } := by
  cases act with
  | postLock byLoop ev =>
    cases ev with
    | functor id => exact absurd rfl (hlock byLoop id)
    | other => rfl
  | ret => exact absurd rfl hret
  | _ => rfl

theorem functorInv_step {act : FunctorAct} (h : FunctorInv s) (hok : functorAllowed s act)
    (hs : functorStep whole s act = some s') : FunctorInv s' := by
  cases act with
  | postEvent byLoop =>
    rw [functorStep] at hs
    split_ifs at hs
    cases hs
    exact functorInv_postEvent h
  | onCustomEvent =>
    rw [functorStep] at hs
    split at hs
    next id left hreader =>
      split_ifs at hs with hentered
      have hentered : s.entered = false := by simpa using hentered
      obtain ⟨rest, hrest⟩ := h.front hreader hentered
      rw [hrest] at hs
      cases hs
      exact functorInv_onCustomEvent h hreader hentered hrest
    next => cases hs
  | hloop act =>
    by_cases hret : act = .ret
    · subst hret
      rw [functorStep] at hs
      split_ifs at hs with huser
      obtain ⟨hloop, hcs, rfl⟩ := map_eq_some_iff.1 hs
      have hcustom := customInv_step h.custom hcs
      cases customStep_cases hcs with
      | ret hreader => exact functorInv_ret h hreader (Bool.and_eq_true_iff.1 huser).1 hcustom
    by_cases hlock : ∃ byLoop id, act = .postLock byLoop (.functor id)
    · obtain ⟨byLoop, id, rfl⟩ := hlock
      rw [functorStep] at hs
      split_ifs at hs
      obtain ⟨hloop, hcs, rfl⟩ := map_eq_some_iff.1 hs
      have hcustom := customInv_step h.custom hcs
      cases customStep_cases hcs with
      | postLock _ _ hmutex => exact functorInv_postLock h hmutex (by simpa [functorAllowed] using hok) hcustom
    · have hlock : ∀ byLoop id, act ≠ .postLock byLoop (.functor id) :=
        fun byLoop id heq => hlock ⟨byLoop, id, heq⟩
      rw [functorStep_hloop hlock hret] at hs
      obtain ⟨hloop, hcs, rfl⟩ := map_eq_some_iff.1 hs
      exact functorInv_custom h hok hcs hlock hret

theorem functorInv_init : FunctorInv functorInit :=
  ⟨customInv_init, rfl, rfl, rfl, nofun, rfl⟩

/-- In the runs in which no post of a functor fails or overtakes another one: at every quiescent point,
    the functors that have run are those whose event has been dispatched, each once. -/
theorem functors_paired (h : Reachable (functorStep whole) (fun s act => functorAllowed s act = true)
      (· = functorInit) s) (hquiescent : s.quiescent = true) : Paired s ∧ s.broken = false := by
  have hinv : FunctorInv s := by
    refine h.invariant (I := FunctorInv) ?_ ?_
    · rintro s rfl
      exact functorInv_init
    · exact fun s act s' hinv hok hs => functorInv_step hinv hok hs
  have hnot : ∀ ev left, s.hloop.reader ≠ .callback ev left := by
    intro ev left hreader
    simp [quiescent, hreader] at hquiescent
  have hran := hinv.dispatched
  rw [expected_eq_nil hnot, append_nil] at hran
  refine ⟨⟨?_, fun id => by rw [hran]⟩, hinv.broken⟩
  have hprefix : s.ran <+: range s.next := by
    rw [← hinv.queued]
    exact prefix_append _ _
  exact nodup_range.sublist hprefix.sublist

def post (id : Nat) (created written : Bool) : List FunctorAct :=
  [.postEvent false, .hloop (.postLock false (.functor id)), .hloop (.postCreate created)] ++
    (if created then [.hloop (.postWrite written)] ++ (if written then [.hloop .postPush] else []) else []) ++
    [.hloop .postUnlock]

def dispatchOne : List FunctorAct :=
  [.hloop (.read 1), .hloop .lock, .hloop .take, .hloop .unlock, .onCustomEvent, .hloop .ret, .hloop .leave]

theorem functors_paired_two_posts :
    ∃ s, runFrom (guarded (functorStep true) fun s act => functorAllowed s act = true) functorInit
        (post 0 true true ++ post 1 true true ++ [.hloop (.read 2)] ++ dispatchOne.tail.dropLast) = some s ∧
      s.quiescent = true ∧ s.hloop.dispatched = [.functor 0] ∧ s.ran = [0] ∧ Paired s := by
  refine exists_run rfl fun s hs => ⟨?_, ?_, ?_, (functors_paired (Reachable.runGuarded _ (.start rfl) hs) ?_).1⟩
  all_goals exact Option.some.inj hs ▸ rfl

/-- The write of the first post fails; the event of the second one runs the first functor, and the second
    functor stays in the queue. -/
theorem failed_post_runs_later : ∃ s, Reachable (functorStep true) Always (· = functorInit) s ∧
      runFrom (functorStep true) functorInit (post 0 true false ++ post 1 true true ++ dispatchOne) = some s ∧
      s.quiescent = true ∧ s.hloop.dispatched = [.functor 1] ∧ s.ran = [0] ∧ s.customEvents = [1] ∧ ¬ Paired s := by
  have hrun : ∃ s, runFrom (functorStep true) functorInit
        (post 0 true false ++ post 1 true true ++ dispatchOne) = some s ∧
      s.quiescent ∧ s.hloop.dispatched = [.functor 1] ∧ s.ran = [0] ∧ s.customEvents = [1] :=
    ⟨_, rfl, rfl, rfl, rfl, rfl⟩
  obtain ⟨s, hs, hquiescent, hdispatched, hran, hqueue⟩ := hrun
  refine ⟨s, Reachable.run _ (.start rfl) hs, hs, hquiescent, hdispatched, hran, hqueue, fun hpaired => ?_⟩
  have hzero := (hpaired.2 0).1 (by simp [hran])
  simp [hdispatched] at hzero

end HvVerified.Evpp
