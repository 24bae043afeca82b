import HvVerified.Event.CustomEvents

/-!
# Proofs: custom events are neither lost nor duplicated

The write to the event descriptor comes before the push, and both are under the mutex, so that the queue
is at most one event behind the counter, and only while the mutex is held. Every iteration of
`eventfd_read_cb` therefore finds an event.
-/

namespace HvVerified.Event

open Base List Queue
open Lib

variable {ε : Type} [Inhabited ε] {whole : Bool} {s s' : CustomEvents ε} {act : CustomAct ε}

inductive CustomCase (whole : Bool) (s : CustomEvents ε) : CustomAct ε → CustomEvents ε → Prop where
  | hloopRun (ok : Bool) : CustomCase whole s (.hloopRun ok) { s with eventfds := s.eventfds || ok }
  | postLock (byLoop : Bool) (ev : ε) (hmutex : s.mutex = none) :
      CustomCase whole s (.postLock byLoop ev) { s with mutex := some (.post byLoop ev .create) }
  | created {byLoop : Bool} {ev : ε} (ok : Bool) (hmutex : s.mutex = some (.post byLoop ev .create)) :
      CustomCase whole s (.postCreate ok) { s with eventfds := true, mutex := some (.post byLoop ev .write) }
  | createFailed {byLoop : Bool} {ev : ε} (hmutex : s.mutex = some (.post byLoop ev .create))
      (hfds : s.eventfds = false) :
      CustomCase whole s (.postCreate false) { s with mutex := some (.post byLoop ev .unlock) }
  | written {byLoop : Bool} {ev : ε} (hmutex : s.mutex = some (.post byLoop ev .write)) :
      CustomCase whole s (.postWrite true)
        { s with counter := s.counter + 1, mutex := some (.post byLoop ev .push) }
  | writeFailed {byLoop : Bool} {ev : ε} (hmutex : s.mutex = some (.post byLoop ev .write)) :
      CustomCase whole s (.postWrite false) { s with mutex := some (.post byLoop ev .unlock) }
  | push {byLoop : Bool} {ev : ε} (hmutex : s.mutex = some (.post byLoop ev .push)) :
      CustomCase whole s .postPush { pushEvent s ev with mutex := some (.post byLoop ev .unlock) }
  | postUnlock {byLoop : Bool} {ev : ε} (hmutex : s.mutex = some (.post byLoop ev .unlock)) :
      CustomCase whole s .postUnlock { s with mutex := none }
  | read {count : Nat} (hreader : s.reader = .waiting) (hle : count ≤ s.counter)
      (hwhole : whole → count = s.counter) :
      CustomCase whole s (.read count) { s with counter := s.counter - count, reader := .iterate count }
  | lock {left : Nat} (hmutex : s.mutex = none) (hreader : s.reader = .iterate (left + 1)) :
      CustomCase whole s .lock { s with mutex := some .reader, reader := .locked left }
  | take {left : Nat} (hmutex : s.mutex = some .reader) (hreader : s.reader = .locked left) :
      CustomCase whole s .take (takeEvent s left)
  | dispatch {ev : ε} {left : Nat} (hmutex : s.mutex = some .reader) (hreader : s.reader = .popped ev left) :
      CustomCase whole s .unlock
        { s with mutex := none, reader := .callback ev left, dispatched := s.dispatched ++ [ev] }
  | giveUp (hreader : s.reader = .giveUp) :
      CustomCase whole s .unlock { s with mutex := none, reader := .waiting }
  | ret {ev : ε} {left : Nat} (hreader : s.reader = .callback ev left) :
      CustomCase whole s .ret { s with reader := .iterate left }
  | leave (hreader : s.reader = .iterate 0) : CustomCase whole s .leave { s with reader := .waiting }

theorem customStep_cases (hs : customStep whole s act = some s') : CustomCase whole s act s' := by
  unfold customStep at hs
  split at hs
  next ok _ _ =>
    cases hs
    exact .hloopRun ok
  next ev hmutex =>
    cases hs
    exact .postLock false ev hmutex
  next ev _ _ hmutex _ =>
    cases hs
    exact .postLock true ev hmutex
  next ok byLoop ev hmutex =>
    split_ifs at hs with hok
    · cases hs
      exact .created ok hmutex
    · cases hs
      cases ok with
      | false => exact .createFailed hmutex (by simpa using hok)
      | true => simp at hok
  next ok byLoop ev hmutex =>
    split_ifs at hs with hok
    · cases hs
      subst hok
      exact .written hmutex
    · cases hs
      obtain rfl := eq_false_of_ne_true hok
      exact .writeFailed hmutex
  next byLoop ev hmutex =>
    cases hs
    exact .push hmutex
  next byLoop ev hmutex =>
    cases hs
    exact .postUnlock hmutex
  next count hreader =>
    split_ifs at hs with hok
    cases hs
    exact .read hreader hok.2.2.1 hok.2.2.2
  next left hmutex hreader =>
    cases hs
    exact .lock hmutex hreader
  next left hmutex hreader =>
    cases hs
    exact .take hmutex hreader
  next ev left hmutex hreader =>
    cases hs
    exact .dispatch hmutex hreader
  next hmutex hreader =>
    cases hs
    exact .giveUp hreader
  next => cases hs
  next ev left hreader _ =>
    cases hs
    exact .ret hreader
  next hreader =>
    cases hs
    exact .leave hreader
  next => cases hs

structure CustomInv (s : CustomEvents ε) : Prop where
  count : s.customEvents.toList.length + announced s.mutex = s.counter + s.reader.left
  order : s.pushed = s.dispatched ++ s.reader.taken ++ s.customEvents.toList
  found : s.reader ≠ .giveUp

theorem toList_pushEvent (s : CustomEvents ε) (ev : ε) :
    (pushEvent s ev).customEvents.toList = s.customEvents.toList ++ [ev] := by
  unfold pushEvent
  rw [toList_pushBack]
  split_ifs with hmax
  · have hfits := s.customEvents.fits
    have hnil : s.customEvents.toList = [] := by
      rw [← length_eq_zero_iff, length_toList]
      omega
    rw [hnil]
    rfl
  · rfl

omit [Inhabited ε] in
theorem customInv_take {left : Nat} (h : CustomInv s) (hmutex : s.mutex = some .reader)
    (hreader : s.reader = .locked left) : CustomInv (takeEvent s left) := by
  have hcount := h.count
  rw [hmutex, hreader, length_toList] at hcount
  have hpos : 0 < s.customEvents.size := by
    simp only [announced, ReadPc.left] at hcount
    omega
  have hfront : s.customEvents.toList =
      s.customEvents.ptr s.customEvents.offset :: (s.customEvents.popFront hpos).toList := by
    have hhead := s.customEvents.front_eq_head
    rw [front, if_neg (Nat.ne_of_gt hpos)] at hhead
    rw [toList_popFront]
    exact (cons_head?_tail hhead.symm).symm
  rw [takeEvent, dif_pos hpos]
  refine ⟨?_, ?_, by simp⟩
  · rw [hmutex, length_toList]
    show s.customEvents.size - 1 + 0 = s.counter + left
    simp only [announced, ReadPc.left] at hcount
    omega
  · have horder := h.order
    rw [hreader, hfront] at horder
    simpa [ReadPc.taken] using horder

theorem customInv_step (h : CustomInv s) (hs : customStep whole s act = some s') : CustomInv s' := by
  have hcount := h.count
  have horder := h.order
  cases customStep_cases hs with
  | hloopRun ok => exact ⟨h.count, h.order, h.found⟩
  | postLock byLoop ev hmutex =>
    rw [hmutex] at hcount
    exact ⟨hcount, h.order, h.found⟩
  | created ok hmutex =>
    rw [hmutex] at hcount
    exact ⟨hcount, h.order, h.found⟩
  | createFailed hmutex _ =>
    rw [hmutex] at hcount
    exact ⟨hcount, h.order, h.found⟩
  | written hmutex =>
    refine ⟨?_, h.order, h.found⟩
    rw [hmutex] at hcount
    simp only [announced] at hcount ⊢
    omega
  | writeFailed hmutex =>
    rw [hmutex] at hcount
    exact ⟨hcount, h.order, h.found⟩
  | push hmutex =>
    refine ⟨?_, ?_, h.found⟩
    · rw [hmutex] at hcount
      rw [toList_pushEvent, length_append]
      exact hcount
    · show s.pushed ++ [_] = s.dispatched ++ s.reader.taken ++ (pushEvent s _).customEvents.toList
      rw [toList_pushEvent, horder, append_assoc _ _ [_]]
  | postUnlock hmutex =>
    rw [hmutex] at hcount
    exact ⟨hcount, h.order, h.found⟩
  | @read count hreader hle =>
    rw [hreader] at hcount horder
    refine ⟨?_, horder, by simp⟩
    simp only [ReadPc.left] at hcount ⊢
    omega
  | lock hmutex hreader =>
    rw [hmutex, hreader] at hcount
    rw [hreader] at horder
    exact ⟨hcount, horder, by simp⟩
  | take hmutex hreader => exact customInv_take h hmutex hreader
  | dispatch hmutex hreader =>
    rw [hmutex, hreader] at hcount
    rw [hreader] at horder
    refine ⟨hcount, ?_, by simp⟩
    simpa [ReadPc.taken] using horder
  | giveUp hreader => exact absurd hreader h.found
  | ret hreader =>
    rw [hreader] at hcount horder
    exact ⟨hcount, horder, by simp⟩
  | leave hreader =>
    rw [hreader] at hcount horder
    exact ⟨hcount, horder, by simp⟩

theorem customInv_init : CustomInv (customInit : CustomEvents ε) := ⟨rfl, rfl, by simp [customInit]⟩

/-- In every interleaving, the events are dispatched in the order of the pushes, each at most once, and
    whenever the mutex is free, there are as many events in the queue as wake-ups that have not been
    read and iterations that have not taken their event; an iteration never finds the queue empty. -/
theorem custom_events_balanced (h : Reachable (customStep whole) Always (· = customInit) s) :
    s.dispatched <+: s.pushed ∧ s.pushed = s.dispatched ++ s.reader.taken ++ s.customEvents.toList ∧
      (s.mutex = none → s.customEvents.toList.length = s.counter + s.reader.left) ∧ s.reader ≠ .giveUp := by
  have hinv : CustomInv s := by
    refine h.invariant (I := CustomInv) ?_ ?_
    · rintro s rfl
      exact customInv_init
    · exact fun s act s' hinv _ hs => customInv_step hinv hs
  refine ⟨?_, hinv.order, fun hmutex => ?_, hinv.found⟩
  · rw [hinv.order, append_assoc]
    exact prefix_append _ _
  · have hcount := hinv.count
    rw [hmutex] at hcount
    exact hcount

/-- The loop reads the counter between the write and the push of the second event, while the first one
    waits in the queue. -/
theorem custom_events_balanced_read_before_push :
    ∃ s : CustomEvents Nat, runFrom (customStep true) customInit
        [.postLock false 7, .postCreate true, .postWrite true, .postPush, .postUnlock, .postLock false 8,
          .postCreate true, .postWrite true, .read 2, .postPush, .postUnlock, .lock, .take, .unlock] = some s ∧
      s.mutex = none ∧ s.dispatched = [7] ∧ s.pushed = [7, 8] ∧
      s.customEvents.toList.length = s.counter + s.reader.left := by
  refine exists_run rfl fun s hs => ⟨?_, ?_, ?_, (custom_events_balanced (Reachable.run _ (.start rfl) hs)).2.2.1 ?_⟩
  all_goals exact Option.some.inj hs ▸ rfl

end HvVerified.Event
