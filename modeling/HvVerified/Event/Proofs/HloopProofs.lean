import Mathlib.Data.List.Nodup
import HvVerified.Event.Hloop

/-!
# Proofs: what the calls do to the events

Every call of the user changes one event object at most. `Change` lists what can happen to it, as far
as the pending lists are concerned.
-/

namespace HvVerified.Event

open Function

variable {s s' : Hloop} {a : Nat}

/-- The fields that the pending lists are read from, apart from the event objects. -/
structure SameLists (s s' : Hloop) : Prop where
  phase : s'.phase = s.phase
  pendings : s'.pendings = s.pendings
  called : s'.called = s.called

/-- The same event for the lists: same type, link and flag. -/
structure Alike (ev ev' : Hevent) : Prop where
  type : ev'.eventType = ev.eventType
  next : ev'.pendingNext = ev.pendingNext
  pending : ev'.pending = ev.pending

/-- What happens to the object at `a`: nothing, it is changed in respects that do not concern the
    lists, its flag is cleared, it is allocated, or it is freed (only if `mayFree`). -/
inductive Change (s s' : Hloop) (a : Nat) (mayFree : Prop) : Prop where
  | same (mem : s'.mem = s.mem) (cleared : s'.cleared = s.cleared) (npendings : s'.npendings = s.npendings)
  | kept (ev ev' : Hevent) (old : s.mem a = some ev) (mem : s'.mem = update s.mem a (some ev'))
      (alike : Alike ev ev') (cleared : s'.cleared = s.cleared) (npendings : s'.npendings = s.npendings)
  | unpended (ev ev' : Hevent) (old : s.mem a = some ev)
      (mem : s'.mem = update s.mem a (some ev'))
      (type : ev'.eventType = ev.eventType) (next : ev'.pendingNext = ev.pendingNext)
      (was : ev.pending) (pending : ev'.pending = false)
      (resettable : ev.eventType = .io ∨ ev.eventType = .timeout)
      (cleared : s'.cleared = a :: s.cleared) (npendings : s.npendings - 1 ≤ s'.npendings)
  | alloc (ev' : Hevent) (old : s.mem a = none) (mem : s'.mem = update s.mem a (some ev'))
      (pending : ev'.pending = false) (cleared : s'.cleared = s.cleared)
      (npendings : s'.npendings = s.npendings)
  | freed (ev : Hevent) (old : s.mem a = some ev) (mem : s'.mem = update s.mem a none)
      (pending : ev.pending = false) (type : ev.eventType ≠ .io) (may : mayFree)
      (cleared : s'.cleared = s.cleared) (npendings : s'.npendings = s.npendings)

theorem withHandle_eq_some {isType : HeventType → Bool} {f : Hevent → Hloop}
    (h : withHandle s a isType f = some s') : ∃ ev, s.mem a = some ev ∧ isType ev.eventType ∧ f ev = s' := by
  unfold withHandle at h
  split at h
  · cases h
  next ev hmem =>
    split_ifs at h with ht
    exact ⟨ev, hmem, ht, Option.some.inj h⟩

theorem withFresh_eq_some {f : Hloop} (h : withFresh s a f = some s') : s.mem a = none ∧ f = s' := by
  unfold withFresh at h
  split_ifs at h with hnone
  exact ⟨Option.isNone_iff_eq_none.1 hnone, Option.some.inj h⟩

theorem hidleUnlink_eq (s : Hloop) (a : Nat) (idle : Hevent) :
    ∃ idles nidles, hidleUnlink s a idle = { s with idles, nidles } := by
  unfold hidleUnlink
  split_ifs
  · exact ⟨_, _, rfl⟩
  · exact ⟨_, _, rfl⟩

theorem htimerReset_timers (s : Hloop) (a : Nat) (destroy : Bool) : ∃ timers ntimers,
    (if destroy then { s with ntimers := s.ntimers + 1 } else { s with timers := s.timers.erase a }) =
      { s with timers, ntimers } ∧ ∀ b, b ≠ a → b ∈ s.timers → b ∈ timers := by
  split_ifs
  · exact ⟨_, _, rfl, fun b _ hb => hb⟩
  · exact ⟨_, _, rfl, fun b hne hb => (List.mem_erase_of_ne hne).2 hb⟩

theorem htimerUnlink_eq (s : Hloop) (a : Nat) (timer : Hevent) :
    ∃ timers realtimers ntimers, htimerUnlink s a timer = { s with timers, realtimers, ntimers } ∧
      ∀ b, b ≠ a → b ∈ s.timers → b ∈ timers := by
  unfold htimerUnlink
  split_ifs
  · exact ⟨_, _, _, rfl, fun b _ hb => hb⟩
  · split
    · exact ⟨_, _, _, rfl, fun b hne hb => (List.mem_erase_of_ne hne).2 hb⟩
    · exact ⟨_, _, _, rfl, fun b _ hb => hb⟩
    · exact ⟨_, _, _, rfl, fun b _ hb => hb⟩

theorem finishEvent_eq {cur : Nat} {ev : Hevent} (i : Nat) (next : Option Nat) (old : s.mem cur = some ev) :
    finishEvent s i cur next = { s with
      phase := .pass i next
      cleared := s.cleared.filter (· ≠ cur)
      mem := update s.mem cur (if ev.destroy then none else some { ev with pending := false }) } := by
  unfold finishEvent eventDel
  rw [old]
  dsimp only
  split_ifs with hd hp
  · cases hp
  · rfl
  · rfl

/-! ## The calls -/

section

variable {mayFree : Prop} {ev : Hevent} (old : s.mem a = some ev)

include old

theorem hioAdd_change (cb : Bool) (events : UInt32) :
    SameLists s (hioAdd s a ev cb events) ∧ Change s (hioAdd s a ev cb events) a mayFree := by
  unfold hioAdd
  dsimp only
  split_ifs <;> exact ⟨⟨rfl, rfl, rfl⟩, .kept _ _ old rfl ⟨rfl, rfl, rfl⟩ rfl rfl⟩

theorem hioDel_change (ev' : Hevent) (halike : Alike ev ev') (hio : ev.eventType = .io) (events : UInt32) :
    SameLists s (hioDel s a ev' events) ∧ Change s (hioDel s a ev' events) a mayFree := by
  have hkept : ∀ ev'', Alike ev' ev'' → Alike ev ev'' := fun ev'' h =>
    ⟨h.type.trans halike.type, h.next.trans halike.next, h.pending.trans halike.pending⟩
  unfold hioDel eventUnpending
  dsimp only
  split_ifs
  all_goals first
    | exact ⟨⟨rfl, rfl, rfl⟩, .kept _ _ old rfl (hkept _ ⟨rfl, rfl, rfl⟩) rfl rfl⟩
    | exact ⟨⟨rfl, rfl, rfl⟩, .unpended _ _ old rfl halike.type halike.next
        (halike.pending.symm.trans ‹_›) rfl (.inl hio) rfl (Int.le_rfl)⟩

theorem hioDoneEvents_change (hio : ev.eventType = .io) :
    SameLists s (hioDoneEvents s a ev) ∧ Change s (hioDoneEvents s a ev) a mayFree := by
  unfold hioDoneEvents
  split_ifs
  · exact hioDel_change old { ev with ready := false } ⟨rfl, rfl, rfl⟩ hio _
  · exact ⟨⟨rfl, rfl, rfl⟩, .same rfl rfl rfl⟩

theorem hidleDel_change (hidle : ev.eventType = .idle) (may : mayFree) :
    SameLists s (hidleDel s a ev) ∧ Change s (hidleDel s a ev) a mayFree := by
  unfold hidleDel eventDel
  obtain ⟨idles, nidles, heq⟩ := hidleUnlink_eq s a ev
  rw [heq]
  split_ifs with _ hp
  · exact ⟨⟨rfl, rfl, rfl⟩, .same rfl rfl rfl⟩
  · exact ⟨⟨rfl, rfl, rfl⟩, .kept _ _ old rfl ⟨rfl, rfl, rfl⟩ rfl rfl⟩
  · exact ⟨⟨rfl, rfl, rfl⟩, .freed _ old rfl (eq_false_of_ne_true hp) (by simp [hidle]) may rfl rfl⟩

theorem htimerDel_change (htimer : ev.eventType = .timeout ∨ ev.eventType = .period) (may : mayFree) :
    SameLists s (htimerDel s a ev) ∧ Change s (htimerDel s a ev) a mayFree := by
  have hio : ev.eventType ≠ .io := by
    rcases htimer with h | h <;> simp [h]
  unfold htimerDel eventDel
  obtain ⟨timers, realtimers, ntimers, heq, -⟩ := htimerUnlink_eq s a ev
  rw [heq]
  split_ifs with _ hp
  · exact ⟨⟨rfl, rfl, rfl⟩, .same rfl rfl rfl⟩
  · exact ⟨⟨rfl, rfl, rfl⟩, .kept _ _ old rfl ⟨rfl, rfl, rfl⟩ rfl rfl⟩
  · exact ⟨⟨rfl, rfl, rfl⟩, .freed _ old rfl (eq_false_of_ne_true hp) hio may rfl rfl⟩

theorem htimerReset_change (timeout : Nat) :
    SameLists s (htimerReset s a ev timeout) ∧ Change s (htimerReset s a ev timeout) a mayFree := by
  obtain ⟨timers, ntimers, heq, -⟩ := htimerReset_timers s a ev.destroy
  unfold htimerReset eventReset
  rw [heq]
  by_cases htype : ev.eventType = .timeout
  · rw [if_neg (not_not.2 htype)]
    by_cases hp : ev.pending
    · exact ⟨⟨rfl, rfl, rfl⟩, .unpended _ _ old rfl rfl rfl hp rfl (.inr htype) (if_pos hp)
        (Int.sub_le_self _ (by decide))⟩
    · exact ⟨⟨rfl, rfl, rfl⟩, .kept _ _ old rfl ⟨rfl, rfl, (eq_false_of_ne_true hp).symm⟩ (if_neg hp) rfl⟩
  · rw [if_pos htype]
    exact ⟨⟨rfl, rfl, rfl⟩, .same rfl rfl rfl⟩

end

/-- A call changes one object; it frees a timer that is deleted, or an idle. -/
theorem callOp_change {op : LoopOp} (h : callOp s op = some s') : ∃ a, SameLists s s' ∧ Change s s' a
      (op = .htimerDel a ∨ ∃ ev, s.mem a = some ev ∧ ev.eventType = .idle) := by
  cases op <;> rw [callOp] at h
  case hioGet a =>
    obtain ⟨old, rfl⟩ := withFresh_eq_some h
    exact ⟨a, ⟨rfl, rfl, rfl⟩, .alloc _ old rfl rfl rfl rfl⟩
  case hioAdd a cb events =>
    obtain ⟨io, old, -, rfl⟩ := withHandle_eq_some h
    exact ⟨a, hioAdd_change old cb events⟩
  case hioDel a events =>
    obtain ⟨io, old, hio, rfl⟩ := withHandle_eq_some h
    exact ⟨a, hioDel_change old io ⟨rfl, rfl, rfl⟩ (by simpa using hio) events⟩
  case hioDone a =>
    obtain ⟨io, old, hio, rfl⟩ := withHandle_eq_some h
    exact ⟨a, hioDoneEvents_change old (by simpa using hio)⟩
  case hidleAdd a repeats cb =>
    obtain ⟨old, rfl⟩ := withFresh_eq_some h
    exact ⟨a, ⟨rfl, rfl, rfl⟩, .alloc _ old rfl rfl rfl rfl⟩
  case hidleDel a =>
    obtain ⟨idle, old, hidle, rfl⟩ := withHandle_eq_some h
    have hidle : idle.eventType = .idle := by simpa using hidle
    exact ⟨a, hidleDel_change old hidle (.inr ⟨idle, old, hidle⟩)⟩
  case htimerAdd a timeout repeats cb now =>
    obtain ⟨old, rfl⟩ := withFresh_eq_some h
    unfold htimerAdd
    split_ifs
    · exact ⟨a, ⟨rfl, rfl, rfl⟩, .same rfl rfl rfl⟩
    · exact ⟨a, ⟨rfl, rfl, rfl⟩, .alloc _ old rfl rfl rfl rfl⟩
  case htimerAddPeriod a repeats cb cron =>
    obtain ⟨old, rfl⟩ := withFresh_eq_some h
    exact ⟨a, ⟨rfl, rfl, rfl⟩, .alloc _ old rfl rfl rfl rfl⟩
  case htimerReset a timeout =>
    obtain ⟨timer, old, -, rfl⟩ := withHandle_eq_some h
    exact ⟨a, htimerReset_change old timeout⟩
  case htimerDel a =>
    obtain ⟨timer, old, htimer, rfl⟩ := withHandle_eq_some h
    exact ⟨a, htimerDel_change old (by simpa using htimer) (.inl rfl)⟩
  case heventSetPriority a priority =>
    obtain ⟨ev, old, -, rfl⟩ := withHandle_eq_some h
    exact ⟨a, ⟨rfl, rfl, rfl⟩, .kept _ _ old rfl ⟨rfl, rfl, rfl⟩ rfl rfl⟩

/-! ## The steps -/

/-- No list is being visited. -/
def LoopPhase.collecting : LoopPhase → Bool
  | .idle | .poll | .timers _ _ _ | .idles _ => true
  | _ => false

/-- Only ios have been collected. -/
def LoopPhase.outside : LoopPhase → Bool
  | .idle | .poll => true
  | _ => false

/-- `hloop_process_pendings` is running. -/
def LoopPhase.inPass : LoopPhase → Bool
  | .pass _ _ | .callback _ _ _ => true
  | _ => false

inductive LoopCase (s : Hloop) : LoopAct → Hloop → Prop where
  | call {op : LoopOp} {s' : Hloop} (hs : callOp s op = some s')
      (hphase : s.phase = .idle ∨ ∃ i cur next, s.phase = .callback i cur next) :
      LoopCase s (.call op) s'
  | status {act : LoopAct} (stopped running : Bool) (hact : act.isVisit = false) :
      LoopCase s act { s with stopped, running }
  | move {act : LoopAct} (phase : LoopPhase) (curHrtime : Nat) (hold : s.phase.collecting)
      (hnew : phase.collecting) (hout : s.phase.outside ∨ ∃ limit now, phase = .timers true limit now)
      (hidles : ∀ rest, phase ≠ .idles rest) (hact : act.inPass = false) :
      LoopCase s act { s with phase, curHrtime }
  | processIdles {act : LoopAct} (curHrtime : Nat) (hold : s.phase.collecting)
      (hact : act.inPass = false) : LoopCase s act (processIdles { s with curHrtime })
  | processPendings (hphase : s.phase = .idles []) : LoopCase s .idleNext (processPendings s)
  | mark {a : Nat} {io : Hevent} (hphase : s.phase = .poll) (hmem : s.mem a = some io)
      (hio : io.eventType = .io) : LoopCase s (.mark a) (eventPending s a io)
  | expire {real : Bool} {limit now t cron : Nat} {timer : Hevent}
      (hphase : s.phase = .timers real limit now) (hmem : s.mem t = some timer) (hheap : t ∈ s.heap real) :
      LoopCase s (.expire t cron) (processTimer s t timer limit cron)
  | expireFreed {real : Bool} {t cron : Nat} (hmem : s.mem t = none) (hheap : t ∈ s.heap real) :
      LoopCase s (.expire t cron) { s with phase := .undefined }
  | idle {a : Nat} {rest : List Nat} {idle : Hevent} (hphase : s.phase = .idles (a :: rest))
      (hmem : s.mem a = some idle) : LoopCase s .idleNext (processIdle { s with phase := .idles rest } a idle)
  | idleFreed {a : Nat} {rest : List Nat} (hphase : s.phase = .idles (a :: rest)) (hmem : s.mem a = none) :
      LoopCase s .idleNext { s with phase := .undefined }
  | endList {i : Nat} (hphase : s.phase = .pass i none) : LoopCase s .visit (finishList s i)
  | visit {i cur : Nat} (hphase : s.phase = .pass i (some cur)) : LoopCase s .visit (visitEvent s i cur)
  | ret {i cur : Nat} {next : Option Nat} (hphase : s.phase = .callback i cur next) :
      LoopCase s .ret (finishEvent s i cur next)

theorem loopStep_cases {act : LoopAct} (h : loopStep s act = some s') : LoopCase s act s' := by
  unfold loopStep at h
  split at h
  next op hphase =>
    split_ifs at h
    exact .call h (.inl hphase)
  next i cur next op hphase => exact .call h (.inr ⟨i, cur, next, hphase⟩)
  next =>
    cases h
    exact .status true s.running rfl
  next =>
    split_ifs at h
    cases h
    exact .status false true rfl
  next =>
    split_ifs at h
    cases h
    exact .status true false rfl
  next timeoutMs now realNow hphase =>
    have hcollect : s.phase.collecting := by rw [hphase]; rfl
    have hout : s.phase.outside := by rw [hphase]; rfl
    split_ifs at h
    all_goals
      cases h
      refine .move _ _ hcollect ?_ (.inl hout) (fun rest => ?_) rfl
      all_goals split_ifs <;> simp [LoopPhase.collecting]
  next a hphase =>
    split at h
    · cases h
    next io hmem =>
      split_ifs at h with hio
      cases h
      exact .mark hphase hmem hio.1
  next now realNow hphase =>
    have hcollect : s.phase.collecting := by rw [hphase]; rfl
    have hout : s.phase.outside := by rw [hphase]; rfl
    dsimp only at h
    split_ifs at h
    · cases h
      exact .move _ now hcollect rfl (.inl hout) (by simp) rfl
    · cases h
      exact .move _ now hcollect rfl (.inl hout) (by simp) rfl
    · cases h
      exact .processIdles now hcollect rfl
  next real limit now t cron hphase =>
    split_ifs at h with hdue
    have hheap : t ∈ s.heap real := by
      simp only [Hloop.isDue, Bool.and_eq_true, List.contains_iff_mem] at hdue
      exact hdue.1.1
    split at h
    next hmem =>
      cases h
      exact .expireFreed hmem hheap
    next timer hmem =>
      cases h
      exact .expire hphase hmem hheap
  next real limit now hphase =>
    have hcollect : s.phase.collecting := by rw [hphase]; rfl
    split_ifs at h
    · cases h
      exact .processIdles s.curHrtime hcollect rfl
    · cases h
      exact .move _ s.curHrtime hcollect rfl (.inr ⟨_, _, rfl⟩) (by simp) rfl
  next hphase =>
    cases h
    exact .processPendings hphase
  next a rest hphase =>
    split at h
    next hmem =>
      cases h
      exact .idleFreed hphase hmem
    next idle hmem =>
      cases h
      exact .idle hphase hmem
  next i hphase =>
    cases h
    exact .endList hphase
  next i cur hphase =>
    cases h
    exact .visit hphase
  next i cur next hphase =>
    cases h
    exact .ret hphase
  · cases h

end HvVerified.Event
