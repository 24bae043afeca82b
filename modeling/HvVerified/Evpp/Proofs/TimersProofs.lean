import HvVerified.Evpp.Timers
import HvVerified.Event.Proofs.TimerOrderProofs

/-!
# Proofs: the entries of `timers`

The invariant of the timers of an `EventLoop`, and that `setTimer`, `killTimer` and `resetTimer` keep it.
The repeats are counted in the `Timer` and in the `htimer_t`; the two counters agree except between an
expiry and the call of the callback, when the `Timer` is one behind.
-/

namespace HvVerified.Evpp

open Lib Event Function List Option EventLoop

variable {timeout i cur : Nat} {l : Hloop} {next : Option Nat} {repeats : UInt32}

/-! ## The calls on an `htimer_t` -/

section

variable {s : Hloop} {a : Nat} {ev : Hevent}

theorem callOp_htimerDel (old : s.mem a = some ev) (htype : ev.eventType = .timeout)
    (hactive : ev.active) : ∃ new timers realtimers ntimers, callOp s (.htimerDel a) =
        some { s with mem := update s.mem a new, timers, realtimers, ntimers } ∧
      (∀ b, b ≠ a → b ∈ s.timers → b ∈ timers) ∧
      ∀ ev', new = some ev' → ev' = { ev with destroy := true, active := false } := by
  obtain ⟨timers, realtimers, ntimers, heq, hsub⟩ := htimerUnlink_eq s a ev
  have hcall : callOp s (.htimerDel a) = some (htimerDel s a ev) := by
    simp [callOp, withHandle, old, htype]
  rw [hcall, htimerDel, if_neg (by simp [hactive]), heq, eventDel]
  split_ifs
  · refine ⟨_, _, _, _, rfl, hsub, fun ev' h => ?_⟩
    exact (some.inj h).symm
  · exact ⟨none, _, _, _, rfl, hsub, fun ev' h => by cases h⟩

theorem htimerAdd_eq (a : Nat) (repeats : UInt32) (now : Nat) (htimeout : timeout ≠ 0) :
    ∃ ev, htimerAdd s a timeout repeats true now =
        { s with
          mem := update s.mem a (some ev)
          curHrtime := now
          timers := a :: s.timers
          ntimers := s.ntimers + 1 } ∧
      ev.eventType = .timeout ∧ ev.cb ∧ ev.timeout = timeout ∧ ev.active ∧ ev.pending = false ∧
      ev.destroy = false ∧ ev.repeats = repeats := by
  rw [htimerAdd, if_neg htimeout]
  exact ⟨_, rfl, rfl, rfl, rfl, rfl, rfl, rfl, rfl⟩

theorem callOp_htimerDel_add {b : Nat} (timeout : Nat) (repeats : UInt32) (now : Nat) (htimeout : timeout ≠ 0)
    (hab : a ≠ b) (old : s.mem a = some ev) (htype : ev.eventType = .timeout) :
    callOp (htimerAdd s b timeout repeats true now) (.htimerDel a) =
      (callOp s (.htimerDel a)).map fun s => htimerAdd s b timeout repeats true now := by
  have hdel : ∀ {s : Hloop}, s.mem a = some ev → callOp s (.htimerDel a) = some (htimerDel s a ev) := by
    intro s old
    simp [callOp, withHandle, old, htype]
  have hold : (htimerAdd s b timeout repeats true now).mem a = some ev := by
    rw [htimerAdd, if_neg htimeout]
    exact (update_of_ne hab _ _).trans old
  rw [hdel old, hdel hold, map_some]
  unfold htimerDel htimerAdd eventDel htimerUnlink
  simp only [if_neg htimeout, htype, Hloop.set, Hloop.free]
  have herase : (b :: s.timers).erase a = b :: s.timers.erase a := by
    rw [erase_cons_tail (by simpa using Ne.symm hab)]
  have hcount : s.ntimers + 1 - 1 = s.ntimers - 1 + 1 := by omega
  split_ifs
  · rfl
  all_goals simp only [herase, hcount, update_comm hab]

theorem callOp_htimerReset (timeout : Nat) (old : s.mem a = some ev) (htype : ev.eventType = .timeout)
    (hpos : 0 < ev.timeout) : ∃ ev' timers ntimers cleared, callOp s (.htimerReset a timeout) =
        some { s with mem := update s.mem a (some ev'), timers, ntimers, cleared } ∧
      ev'.eventType = .timeout ∧ ev'.cb = ev.cb ∧ 0 < ev'.timeout ∧ ev'.active ∧
      ev'.pending = false ∧ ev'.destroy = false ∧ ev'.repeats = (if ev.repeats = 0 then 1 else ev.repeats) ∧
      a ∈ timers ∧ (∀ b, b ≠ a → b ∈ s.timers → b ∈ timers) ∧ ∀ b ∈ cleared, b = a ∨ b ∈ s.cleared := by
  have hcall : callOp s (.htimerReset a timeout) = some (htimerReset s a ev timeout) := by
    simp [callOp, withHandle, old, htype]
  have hcleared : ∀ b ∈ if ev.pending then a :: s.cleared else s.cleared, b = a ∨ b ∈ s.cleared := by
    intro b hb
    split_ifs at hb
    · exact mem_cons.1 hb
    · exact .inr hb
  have hpos' : 0 < if timeout > 0 then timeout else ev.timeout := by
    split_ifs with h
    · exact h
    · exact hpos
  obtain ⟨timers, ntimers, heq, hsub⟩ := htimerReset_timers s a ev.destroy
  rw [hcall, htimerReset, if_neg (not_not.2 htype), heq]
  exact ⟨_, a :: timers, ntimers, _, rfl, htype, rfl, hpos', rfl, rfl, rfl, rfl, mem_cons_self,
    fun b hne hb => mem_cons_of_mem _ (hsub b hne hb), hcleared⟩

end

/-! ## The invariant -/

variable {s s' : EventLoop} {id : TimerID} {o a : Nat} {ev : Hevent}

/-- The entry of `id` is the object `o`, and `ev` is its `htimer_t`. -/
structure Entry (s : EventLoop) (id : TimerID) (o : Nat) (ev : Hevent) : Prop where
  made : o < s.nobjects
  key : (s.objects o).id = id
  own : s.eventId (s.objects o).timer = some id
  htimer : s.hloop.mem (s.objects o).timer = some ev
  active : ev.active
  destroy : ev.destroy ↔ ev.repeats = 0
  heap : ev.destroy = false → (s.objects o).timer ∈ s.hloop.timers
  waits : ev.destroy → ev.pending
  -- the callback has still to be called
  due : ev.pending → s.current ≠ some o →
    countDown (s.objects o).repeats = ev.repeats ∧ (s.objects o).expired = (s.objects o).ran + 1
  settled : ev.pending = false ∨ s.current = some o →
    (s.objects o).repeats = ev.repeats ∧ (s.objects o).expired = (s.objects o).ran
  left : s.left id = if ev.destroy then none else some ev.repeats

structure Running (s : EventLoop) (o : Nat) : Prop where
  made : o < s.nobjects
  phase : s.hloop.Current (s.objects o).timer
  own : s.eventId (s.objects o).timer = some (s.objects o).id
  -- in the last callback the ID has not been set anew
  last : (s.objects o).repeats = 0 → s.timers (s.objects o).id = some o ∨ s.timers (s.objects o).id = none
  unique : ∀ id o', s.timers id = some o' → (s.objects o').timer = (s.objects o).timer → o' = o

structure TimerInv (s : EventLoop) : Prop where
  reach : Reachable loopStep LoopAllowed LoopInit s.hloop
  entry : ∀ id o, s.timers id = some o → ∃ ev, Entry s id o ev
  -- what is not deleted has its entry
  alive : ∀ a id ev, s.eventId a = some id → s.hloop.mem a = some ev →
    ev.active ∨ ev.destroy = false → ∃ o, s.timers id = some o ∧ (s.objects o).timer = a
  type : ∀ a id ev, s.eventId a = some id → s.hloop.mem a = some ev →
    ev.eventType = .timeout ∧ ev.cb ∧ 0 < ev.timeout
  current : ∀ o, s.current = some o → Running s o
  entered : ∀ a id, s.hloop.Current a → s.eventId a = some id → ∃ o, s.current = some o ∧ (s.objects o).timer = a
  unset : ∀ id, s.timers id = none → s.left id = none
  -- no timer expires twice before its callback is called
  once : ∀ limit now, s.hloop.phase = .timers false limit now → ∀ a id ev, s.eventId a = some id →
    s.hloop.mem a = some ev → ev.pending → ev.destroy = false → limit < ev.nextTimeout
  cleared : ∀ a ∈ s.hloop.cleared, ∃ id, s.eventId a = some id
  queue : ∀ fn ∈ s.customEvents, ∃ call, fn = .call call
  finished : ∀ o < s.nobjects, (s.objects o).ended = false → s.timers (s.objects o).id ≠ some o →
    (s.objects o).expired = (s.objects o).ran

/-- A step does not concern the entry `o` of `id`. -/
structure Untouched (s s' : EventLoop) (id : TimerID) (o : Nat) : Prop where
  object : s'.objects o = s.objects o
  own : s'.eventId (s.objects o).timer = s.eventId (s.objects o).timer
  htimer : s'.hloop.mem (s.objects o).timer = s.hloop.mem (s.objects o).timer
  heap : (s.objects o).timer ∈ s.hloop.timers → (s.objects o).timer ∈ s'.hloop.timers
  current : s'.current = some o ↔ s.current = some o
  left : s'.left id = s.left id

theorem Entry.frame (h : Entry s id o ev) (hn : s.nobjects ≤ s'.nobjects) (hsame : Untouched s s' id o) :
    Entry s' id o ev := by
  obtain ⟨hobject, hown, hhtimer, hheap, hcurrent, hleft⟩ := hsame
  refine ⟨h.made.trans_le hn, ?_, ?_, ?_, h.active, h.destroy, ?_, h.waits, ?_, ?_, hleft.trans h.left⟩
  all_goals rw [hobject]
  · exact h.key
  · exact hown.trans h.own
  · exact hhtimer.trans h.htimer
  · exact fun hd => hheap (h.heap hd)
  · exact fun hp hne => h.due hp fun hc => hne (hcurrent.2 hc)
  · exact fun hs => h.settled (hs.imp_right hcurrent.1)

theorem TimerInv.registered (h : TimerInv s) : Registered s.hloop := (pass_invariant h.reach).1

theorem TimerInv.live (h : TimerInv s) (hcur : s.hloop.Current a) : ∃ ev, s.hloop.mem a = some ev := by
  obtain ⟨-, lists, hinv⟩ := pass_invariant h.reach
  exact hinv.current_live hcur

theorem TimerInv.cleared_live (h : TimerInv s) (ha : a ∈ s.hloop.cleared) : s.hloop.mem a ≠ none := by
  obtain ⟨-, lists, hinv⟩ := pass_invariant h.reach
  exact hinv.cleared_live ha

theorem update_object {β : Type} (f : Timer → β) (objects : Nat → Timer) (t : Timer) (ht : f t = f (objects o))
    (o' : Nat) : f (update objects o t o') = f (objects o') := by
  by_cases h : o' = o
  · subst h
    rw [update_self, ht]
  · rw [update_of_ne h]

/-! ## The change of one entry -/

/-- The `htimer_t` at `a` and the object `o` are those of `id`, or they are new. -/
structure Belongs (s : EventLoop) (a : Nat) (id : TimerID) (o : Nat) : Prop where
  event : s.hloop.mem a = none ∨ s.eventId a = some id
  object : s.nobjects ≤ o ∨ (s.objects o).timer = a ∧ (s.objects o).id = id
  entry : ∀ o', s.timers id = some o' → o' = o

theorem Entry.belongs (he : Entry s id o ev) (ho : s.timers id = some o) : Belongs s (s.objects o).timer id o :=
  ⟨.inr he.own, .inr ⟨rfl, he.key⟩, fun _ ho' => some.inj (ho'.symm.trans ho)⟩

theorem Belongs.distinct {id' : TimerID} {o' : Nat} {ev' : Hevent} (h : Belongs s a id o) (he : Entry s id' o' ev')
    (hne : id' ≠ id) : o' ≠ o ∧ (s.objects o').timer ≠ a := by
  constructor
  · rintro rfl
    rcases h.object with hle | ⟨-, hkey⟩
    · exact absurd he.made (Nat.not_lt.2 hle)
    · exact hne (he.key.symm.trans hkey)
  · rintro rfl
    rcases h.event with hnone | hown
    · simp [he.htimer] at hnone
    · exact hne (some.inj (he.own.symm.trans hown))

/-- From `s` to `s'` only the `htimer_t` at `a`, the object `o` and the entry of `id` change. -/
structure Frame (s s' : EventLoop) (a : Nat) (id : TimerID) (o : Nat) : Prop where
  objects : ∀ o', o' ≠ o → s'.objects o' = s.objects o'
  nobjects : s.nobjects ≤ s'.nobjects ∧ ∀ o' < s'.nobjects, o' ≠ o → o' < s.nobjects
  timers : ∀ id', id' ≠ id → s'.timers id' = s.timers id'
  left : ∀ id', id' ≠ id → s'.left id' = s.left id'
  current : ∀ o', o' ≠ o → (s'.current = some o' ↔ s.current = some o')
  eventId : ∀ b, b ≠ a → s'.eventId b = s.eventId b
  mem : ∀ b, b ≠ a → s'.hloop.mem b = s.hloop.mem b
  heap : ∀ b, b ≠ a → b ∈ s.hloop.timers → b ∈ s'.hloop.timers
  cleared : ∀ b ∈ s'.hloop.cleared, b = a ∨ b ∈ s.hloop.cleared
  queue : s'.customEvents = s.customEvents

/-- What the invariant says of an `htimer_t` of `setTimer`. -/
structure Htimer (s : EventLoop) (a : Nat) (id : TimerID) (ev : Hevent) : Prop where
  alive : ev.active ∨ ev.destroy = false → ∃ o, s.timers id = some o ∧ (s.objects o).timer = a
  type : ev.eventType = .timeout ∧ ev.cb ∧ 0 < ev.timeout
  once : ∀ limit now, s.hloop.phase = .timers false limit now → ev.pending → ev.destroy = false →
    limit < ev.nextTimeout

/-- What has to be shown when one entry changes. -/
theorem TimerInv.frame (h : TimerInv s) (hb : Belongs s a id o) (hf : Frame s s' a id o)
    (hreach : Reachable loopStep LoopAllowed LoopInit s'.hloop)
    (hphase : ∀ limit now, s'.hloop.phase = .timers false limit now → s.hloop.phase = s'.hloop.phase)
    (hentry : ∀ o', s'.timers id = some o' → ∃ ev, Entry s' id o' ev) (hunset : s'.timers id = none → s'.left id = none)
    (hhtimer : ∀ id' ev, s'.eventId a = some id' → s'.hloop.mem a = some ev → Htimer s' a id' ev)
    (hcleared : a ∈ s'.hloop.cleared → ∃ id', s'.eventId a = some id')
    (hcurrent : ∀ o', s'.current = some o' → Running s' o')
    (hentered : ∀ b id', s'.hloop.Current b → s'.eventId b = some id' →
      ∃ o', s'.current = some o' ∧ (s'.objects o').timer = b)
    (hfinished : (s'.objects o).ended = false → s'.timers (s'.objects o).id ≠ some o →
      (s'.objects o).expired = (s'.objects o).ran) : TimerInv s' := by
  refine ⟨hreach, fun id' o' ho' => ?_, fun b id' ev hown hev hor => ?_, fun b id' ev hown hev => ?_, hcurrent,
    hentered, fun id' hnone => ?_, fun limit now hp b id' ev hown hev => ?_, fun b hmem => ?_,
    fun fn hfn => h.queue fn (hf.queue ▸ hfn), fun o' hlt hended hne => ?_⟩
  · by_cases hid : id' = id
    · subst hid
      exact hentry o' ho'
    · rw [hf.timers id' hid] at ho'
      obtain ⟨ev, he⟩ := h.entry id' o' ho'
      obtain ⟨hobj, haddr⟩ := hb.distinct he hid
      exact ⟨ev, he.frame hf.nobjects.1 ⟨hf.objects o' hobj, hf.eventId _ haddr, hf.mem _ haddr, hf.heap _ haddr,
        hf.current o' hobj, hf.left id' hid⟩⟩
  · by_cases hba : b = a
    · subst hba
      exact (hhtimer id' ev hown hev).alive hor
    · rw [hf.eventId b hba] at hown
      rw [hf.mem b hba] at hev
      obtain ⟨o', ho', rfl⟩ := h.alive b id' ev hown hev hor
      obtain ⟨_, he⟩ := h.entry id' o' ho'
      -- the entry of `id` is at `a`
      have hid : id' ≠ id := by
        rintro rfl
        obtain rfl := hb.entry o' ho'
        rcases hb.object with hle | ⟨haddr, -⟩
        · exact absurd he.made (Nat.not_lt.2 hle)
        · exact hba haddr
      exact ⟨o', (hf.timers id' hid).trans ho', by rw [hf.objects o' (hb.distinct he hid).1]⟩
  · by_cases hba : b = a
    · subst hba
      exact (hhtimer id' ev hown hev).type
    · exact h.type b id' ev ((hf.eventId b hba).symm.trans hown) ((hf.mem b hba).symm.trans hev)
  · by_cases hid : id' = id
    · subst hid
      exact hunset hnone
    · exact (hf.left id' hid).trans (h.unset id' ((hf.timers id' hid).symm.trans hnone))
  · by_cases hba : b = a
    · subst hba
      exact (hhtimer id' ev hown hev).once limit now hp
    · exact h.once limit now ((hphase limit now hp).trans hp) b id' ev ((hf.eventId b hba).symm.trans hown)
        ((hf.mem b hba).symm.trans hev)
  · by_cases hba : b = a
    · subst hba
      exact hcleared hmem
    · obtain ⟨id', hid'⟩ := h.cleared b ((hf.cleared b hmem).resolve_left hba)
      exact ⟨id', (hf.eventId b hba).trans hid'⟩
  · by_cases hobj : o' = o
    · subst hobj
      exact hfinished hended hne
    · rw [hf.objects o' hobj] at hended hne ⊢
      refine h.finished o' (hf.nobjects.2 o' hlt hobj) hended fun heq => ?_
      by_cases hid : (s.objects o').id = id
      · rw [hid] at heq
        exact hobj (hb.entry o' heq)
      · exact hne ((hf.timers _ hid).trans heq)

theorem TimerInv.current_none (h : TimerInv s) (hphase : ∀ i x next, s.hloop.phase ≠ .callback i x next) :
    s.current = none := by
  refine eq_none_iff_forall_ne_some.2 fun o ho => ?_
  obtain ⟨i, next, hp⟩ := (h.current o ho).phase
  exact hphase i _ next hp

/-- The loop changes, but not the `htimer_t` of the entries; those that are freed have no entry. -/
theorem TimerInv.outer (h : TimerInv s) (nextTimerID : TimerID) (customEvents : List TimerFunctor)
    (hreach : Reachable loopStep LoopAllowed LoopInit l)
    (hmem : ∀ a id, s.eventId a = some id → l.mem a = s.hloop.mem a ∨
      l.mem a = none ∧ ∀ id o, s.timers id = some o → (s.objects o).timer ≠ a)
    (htimers : ∀ a id, s.eventId a = some id → a ∈ s.hloop.timers → a ∈ l.timers)
    (hcurrent : ∀ a id, s.eventId a = some id → (l.Current a ↔ s.hloop.Current a))
    (honce : ∀ limit now, l.phase = .timers false limit now →
      s.hloop.phase = l.phase ∨ s.hloop.phase.outside)
    (hcleared : l.cleared ⊆ s.hloop.cleared) (hqueue : ∀ fn ∈ customEvents, ∃ call, fn = .call call) :
    TimerInv { s with hloop := l, nextTimerID, customEvents } := by
  have hold : ∀ {a id ev}, s.eventId a = some id → l.mem a = some ev → s.hloop.mem a = some ev := by
    intro a id ev hown hev
    rcases hmem a id hown with heq | ⟨hnone, -⟩
    · exact heq.symm.trans hev
    · simp [hnone] at hev
  refine ⟨hreach, fun id o ho => ?_, fun a id ev hown hev => h.alive a id ev hown (hold hown hev),
    fun a id ev hown hev => h.type a id ev hown (hold hown hev), fun o ho => ?_, fun a id hcur hown => ?_, h.unset,
    fun limit now hphase a id ev hown hev hp hd => ?_, fun a ha => h.cleared a (hcleared ha), hqueue, h.finished⟩
  · obtain ⟨ev, he⟩ := h.entry id o ho
    refine ⟨ev, he.frame le_rfl ⟨rfl, rfl, ?_, htimers _ id he.own, Iff.rfl, rfl⟩⟩
    rcases hmem _ id he.own with heq | ⟨-, hnot⟩
    · exact heq
    · exact absurd rfl (hnot id o ho)
  · have hr := h.current o ho
    exact ⟨hr.made, (hcurrent _ _ hr.own).2 hr.phase, hr.own, hr.last, hr.unique⟩
  · exact h.entered a id ((hcurrent a id hown).1 hcur) hown
  · have hev' := hold hown hev
    rcases honce limit now hphase with heq | hout
    · exact h.once limit now (heq.trans hphase) a id ev hown hev' hp hd
    · -- outside of the passes only ios are pending
      obtain ⟨-, lists, hinv⟩ := pass_invariant h.reach
      obtain ⟨ev', hev'', hio⟩ := hinv.outside hout a ⟨ev, hev', hp⟩
      cases hev'.symm.trans hev''
      simp [(h.type a id ev hown hev').1] at hio

theorem TimerInv.requeue (h : TimerInv s) (nextTimerID : TimerID) (customEvents : List TimerFunctor)
    (hqueue : ∀ fn ∈ customEvents, ∃ call, fn = .call call) : TimerInv { s with nextTimerID, customEvents } :=
  h.outer nextTimerID customEvents h.reach (fun _ _ _ => .inl rfl) (fun _ _ _ ha => ha) (fun _ _ _ => Iff.rfl)
    (fun _ _ _ => .inl rfl) (List.Subset.refl _) hqueue

/-! ## `killTimer` -/

theorem loopStep_call (op : LoopOp)
    (hphase : l.phase = .callback i cur next) : loopStep l (.call op) = callOp l op := by
  simp [loopStep, hphase]

theorem killTimerNow_of_none (h : TimerInv s) (hnone : s.timers id = none) : s.killTimerNow id = s := by
  have hleft : update s.left id none = s.left := by
    rw [← h.unset id hnone, update_eq_self]
  simp only [killTimerNow, deleteTimer, hnone, hleft]

theorem timerInv_kill (h : TimerInv s) (hphase : s.hloop.phase = .callback i cur next) (hok : s.mayDelete id) :
    TimerInv (s.killTimerNow id) := by
  cases ho : s.timers id with
  | none =>
    rw [killTimerNow_of_none h ho]
    exact h
  | some o =>
    obtain ⟨ev, he⟩ := h.entry id o ho
    have hcleared : (s.objects o).timer ∉ s.hloop.cleared := by
      simpa [mayDelete, ho] using hok
    have htype := h.type _ id ev he.own he.htimer
    obtain ⟨new, timers, realtimers, ntimers, hcall, hsub, hnew⟩ := callOp_htimerDel he.htimer htype.1 he.active
    have hreach := h.reach.step (a := .call (.htimerDel (s.objects o).timer))
      (fun b hb => ⟨by simp, by rintro heq; cases heq; exact hcleared hb⟩)
      ((loopStep_call _ hphase).trans hcall)
    simp only [killTimerNow, deleteTimer, ho, onHandle, hcall, getD_some,
      Bool.true_or]
    have htimer := update_object (o := o) Timer.timer s.objects { s.objects o with ended := true } rfl
    have hid := update_object (o := o) Timer.id s.objects { s.objects o with ended := true } rfl
    have hrepeats := update_object (o := o) Timer.repeats s.objects { s.objects o with ended := true } rfl
    have hentry : ∀ id' o', update s.timers id none id' = some o' → s.timers id' = some o' := by
      intro id' o' ho'
      rcases update_cases ho' with ⟨-, ho'⟩ | ⟨-, ho'⟩
      · cases ho'
      · exact ho'
    refine h.frame (he.belongs ho) ⟨fun _ => update_other _, ⟨le_rfl, fun _ hlt _ => hlt⟩,
      fun _ => update_other _, fun _ => update_other _, fun _ _ => Iff.rfl, fun _ _ => rfl, fun _ => update_other _,
      hsub, fun _ => .inr, rfl⟩ hreach (fun _ _ hp => ?_) (fun o' ho' => ?_) (fun _ => update_self _ _ _)
      (fun id' ev' hown hev => ?_) (fun hmem => absurd hmem hcleared) (fun o' ho' => ?_) (fun b id' hcur hown => ?_)
      (fun hended => ?_)
    · simp [hphase] at hp
    · simp at ho'
    · -- the deleted timer is neither active nor in the heap
      obtain rfl := hnew ev' (by simpa using hev)
      exact ⟨by simp, htype, by simp [hphase]⟩
    · have hr := h.current o' ho'
      refine ⟨hr.made, ?_, ?_, fun hz => ?_, fun id' o'' ho'' haddr => ?_⟩
      · rw [htimer]
        exact hr.phase
      · rw [htimer, hid]
        exact hr.own
      · rw [hid]
        dsimp only
        by_cases heq : (s.objects o').id = id
        · exact .inr (by rw [heq, update_self])
        · rw [update_of_ne heq]
          exact hr.last ((hrepeats o').symm.trans hz)
      · rw [htimer, htimer] at haddr
        exact hr.unique id' o'' (hentry id' o'' ho'') haddr
    · obtain ⟨o', ho', haddr⟩ := h.entered b id' hcur hown
      exact ⟨o', ho', (htimer o').trans haddr⟩
    · simp at hended

/-- What `setTimer` has to know of the `killTimer` that it calls. -/
structure Killed (s s' : EventLoop) (id : TimerID) : Prop where
  gone : s'.timers id = none
  phase : s'.hloop.phase = s.hloop.phase
  fresh : ∀ a, s.hloop.mem a = none → s'.hloop.mem a = none
  current : s'.current = s.current
  repeats : ∀ o, (s'.objects o).repeats = (s.objects o).repeats
  id : ∀ o, (s'.objects o).id = (s.objects o).id

theorem killed_killTimerNow (h : TimerInv s) (id : TimerID) : Killed s (s.killTimerNow id) id := by
  cases ho : s.timers id with
  | none =>
    rw [killTimerNow_of_none h ho]
    exact ⟨ho, rfl, fun _ ha => ha, rfl, fun _ => rfl, fun _ => rfl⟩
  | some o =>
    obtain ⟨ev, he⟩ := h.entry id o ho
    obtain ⟨new, timers, realtimers, ntimers, hcall, -⟩ :=
      callOp_htimerDel he.htimer (h.type _ id ev he.own he.htimer).1 he.active
    simp only [killTimerNow, deleteTimer, ho, onHandle, hcall, getD_some]
    refine ⟨update_self _ _ _, rfl, fun a ha => ?_, rfl, ?_, ?_⟩
    · have hne : a ≠ (s.objects o).timer := by
        rintro rfl
        simp [he.htimer] at ha
      exact (update_of_ne hne _ _).trans ha
    · exact update_object (o := o) Timer.repeats s.objects { s.objects o with ended := _ } rfl
    · exact update_object (o := o) Timer.id s.objects { s.objects o with ended := _ } rfl

/-! ## `setTimer` -/

theorem timerInv_put (h : TimerInv s) (now : Nat)
    (hphase : s.hloop.phase = .callback i cur next) (hnone : s.timers id = none) (hfresh : s.hloop.mem a = none)
    (htimeout : timeout ≠ 0) (hrepeats : repeats ≠ 0)
    (hlast : ∀ o, s.current = some o → (s.objects o).repeats = 0 → (s.objects o).id ≠ id) :
    TimerInv ((s.addHtimer timeout repeats id now a).putTimer id a repeats) := by
  obtain ⟨ev₀, heq, htype, hcb, htime, hactive, hpending, hdestroy, hcount⟩ :=
    htimerAdd_eq (s := s.hloop) a repeats now htimeout
  have hreach := h.reach.step (a := .call (.htimerAdd a timeout repeats true now)) (fun b _ => ⟨by simp, by simp⟩)
    ((loopStep_call _ hphase).trans (by rw [callOp, withFresh, hfresh, heq]; rfl))
  have hother : ∀ {b ev}, s.hloop.mem b = some ev → b ≠ a := by
    rintro b ev hev rfl
    simp [hfresh] at hev
  have hown : ∀ {b}, b ≠ a → update s.eventId a (some id) b = s.eventId b := update_other _
  have hold : ∀ {o'}, o' < s.nobjects → ∀ t, update s.objects s.nobjects t o' = s.objects o' :=
    fun hlt _ => update_of_ne hlt.ne _ _
  simp only [addHtimer, putTimer, heq]
  refine h.frame (show Belongs s a id s.nobjects from ⟨.inl hfresh, .inl le_rfl, by simp [hnone]⟩)
    ⟨fun _ => update_other _, ⟨Nat.le_succ _, fun o' hlt hne => by dsimp only at hlt; omega⟩, fun _ => update_other _,
      fun _ => update_other _, fun _ _ => Iff.rfl, fun _ => update_other _, fun _ => update_other _,
      fun _ _ => mem_cons_of_mem _, fun _ => .inr, rfl⟩ hreach (fun _ _ hp => ?_) (fun o' ho' => ?_)
    (fun hnone => ?_) (fun id' ev' hid' hev => ?_) (fun _ => ⟨id, update_self _ _ _⟩) (fun o' ho' => ?_)
    (fun b id' hcur hb => ?_) (fun _ _ => ?_)
  · simp [hphase] at hp
  · obtain rfl : o' = s.nobjects := by simpa [eq_comm] using ho'
    refine ⟨ev₀, ⟨Nat.lt_succ_self _, ?_, ?_, ?_, hactive, ?_, ?_, ?_, ?_, ?_, ?_⟩⟩
    all_goals simp [hdestroy, hpending, hcount, hrepeats]
  · simp at hnone
  · obtain rfl : ev' = ev₀ := by simpa [eq_comm] using hev
    obtain rfl : id' = id := by simpa [eq_comm] using hid'
    exact ⟨fun _ => ⟨s.nobjects, update_self _ _ _, by simp⟩, ⟨htype, hcb, by omega⟩, by simp [hphase]⟩
  · have hr := h.current o' ho'
    obtain ⟨ev', hev'⟩ := h.live hr.phase
    have hobj := hold hr.made { timer := a, repeats, id }
    refine ⟨Nat.lt_succ_of_lt hr.made, ?_, ?_, fun hz => ?_, fun id' o'' ho'' haddr => ?_⟩
    all_goals dsimp only at *
    all_goals rw [hobj] at *
    · exact hr.phase
    · exact (hown (hother hev')).trans hr.own
    · rw [update_of_ne (hlast o' ho' hz)]
      exact hr.last hz
    · rcases update_cases ho'' with ⟨-, hnew⟩ | ⟨-, ho''⟩
      · cases hnew
        rw [update_self] at haddr
        exact absurd haddr.symm (hother hev')
      · obtain ⟨_, he''⟩ := h.entry id' o'' ho''
        rw [hold he''.made] at haddr
        exact hr.unique id' o'' ho'' haddr
  · obtain ⟨ev', hev'⟩ := h.live hcur
    obtain ⟨o', ho', haddr⟩ := h.entered b id' hcur ((hown (hother hev')).symm.trans hb)
    exact ⟨o', ho', (congrArg Timer.timer (hold (h.current o' ho').made _)).trans haddr⟩
  · simp

/-- `setTimer` adds the new `htimer_t` before it deletes the old one; the result is the same the other way
    round. -/
theorem setTimer_eq (h : TimerInv s) (repeats : UInt32) (now : Nat) (hrun : s.isRunning)
    (hfresh : s.hloop.mem a = none) (htimeout : timeout ≠ 0) :
    ((s.addHtimer timeout repeats id now a).killOldTimer id).putTimer id a repeats =
      ((s.killTimerNow id).addHtimer timeout repeats id now a).putTimer id a repeats := by
  have hrun' : (s.addHtimer timeout repeats id now a).isRunning := by
    rw [isRunning, addHtimer, htimerAdd, if_neg htimeout]
    exact hrun
  rw [killOldTimer, if_pos hrun']
  cases ho : s.timers id with
  | none =>
    rw [killTimerNow_of_none h ho]
    simp only [deleteTimer, addHtimer, ho]
  | some o =>
    obtain ⟨ev, he⟩ := h.entry id o ho
    have htype := (h.type _ id ev he.own he.htimer).1
    have hne : (s.objects o).timer ≠ a := by
      intro heq
      have hlive := he.htimer
      simp [heq, hfresh] at hlive
    obtain ⟨new, timers, realtimers, ntimers, hcall, -⟩ := callOp_htimerDel he.htimer htype he.active
    have hcomm := callOp_htimerDel_add timeout repeats now htimeout hne he.htimer htype
    simp only [killTimerNow, deleteTimer, addHtimer, putTimer,
      onHandle, ho, hcall, hcomm, map_some, getD_some, update_idem]

theorem chooseID_eq (s : EventLoop) (timerID : TimerID) :
    ∃ nextTimerID, s.chooseID timerID = { s with nextTimerID } := by
  unfold chooseID
  split_ifs
  · exact ⟨_, rfl⟩
  · exact ⟨_, rfl⟩

theorem timerInv_setTimer {timerID : TimerID} {now : Nat}
    (h : TimerInv s) (hphase : s.hloop.phase = .callback i cur next) (hok : s.maySet repeats (s.chosenID timerID))
    (hs : s.setTimer timeout repeats timerID now a = some s') : TimerInv s' := by
  unfold setTimer at hs
  split_ifs at hs with hnot
  obtain ⟨htimeout, hfresh⟩ := not_or.1 hnot
  have hfresh : s.hloop.mem a = none := by simpa using hfresh
  cases hs
  simp only [maySet, Bool.and_eq_true, decide_eq_true_eq] at hok
  obtain ⟨⟨⟨hrun, hrepeats⟩, hdel⟩, hlast⟩ := hok
  obtain ⟨nextTimerID, heq⟩ := chooseID_eq s timerID
  have h' := h.requeue nextTimerID s.customEvents h.queue
  rw [heq, setTimer_eq h' repeats now hrun hfresh htimeout]
  generalize s.chosenID timerID = id at hdel hlast ⊢
  have hkilled := killed_killTimerNow h' id
  refine timerInv_put (timerInv_kill h' hphase hdel) now (hkilled.phase.trans hphase) hkilled.gone
    (hkilled.fresh a hfresh) htimeout hrepeats fun o ho hz => ?_
  rw [hkilled.current] at ho
  rw [hkilled.repeats] at hz
  rw [hkilled.id]
  simp only [show s.current = some o from ho, Bool.or_eq_true, decide_eq_true_eq] at hlast
  exact hlast.resolve_left (not_not.2 hz)

/-! ## `resetTimer` -/

theorem timerInv_reset (h : TimerInv s) (timeout : Nat)
    (hphase : s.hloop.phase = .callback i cur next) (hok : s.mayReset id) :
    TimerInv (s.resetTimerNow id timeout) := by
  cases ho : s.timers id with
  | none =>
    simp only [resetTimerNow, ho]
    exact h
  | some o =>
    obtain ⟨ev, he⟩ := h.entry id o ho
    have hwas := h.type _ id ev he.own he.htimer
    obtain ⟨ev', timers, ntimers, cleared, hcall, htype, hcb, hpos, hactive, hpending, hdestroy, hcount, hheap, hsub,
      hcleared⟩ := callOp_htimerReset timeout he.htimer hwas.1 hwas.2.2
    have hreach := h.reach.step (a := .call (.htimerReset (s.objects o).timer timeout))
      (fun b _ => ⟨by simp, by simp⟩) ((loopStep_call _ hphase).trans hcall)
    -- the two counters agree before the reset
    have hsettled : (s.objects o).repeats = ev.repeats ∧ (s.objects o).expired = (s.objects o).ran := by
      refine he.settled ?_
      simpa [mayReset, ho, he.htimer, or_comm] using hok
    have hnonzero : ev'.repeats ≠ 0 := by
      rw [hcount]
      split_ifs with hz
      · decide
      · exact hz
    have hleft : (s.left id).getD 1 = ev'.repeats := by
      rw [he.left, hcount]
      by_cases hd : ev.destroy
      · rw [if_pos hd, if_pos (he.destroy.1 hd)]
        rfl
      · rw [if_neg hd, if_neg fun hz => hd (he.destroy.2 hz)]
        rfl
    simp only [resetTimerNow, ho, onHandle, hcall, getD_some, hleft, hsettled.1, ← hcount]
    have htimer := update_object (o := o) Timer.timer s.objects { s.objects o with repeats := ev'.repeats } rfl
    have hid := update_object (o := o) Timer.id s.objects { s.objects o with repeats := ev'.repeats } rfl
    refine h.frame (he.belongs ho) ⟨fun _ => update_other _, ⟨le_rfl, fun _ hlt _ => hlt⟩, fun _ _ => rfl,
      fun _ => update_other _, fun _ _ => Iff.rfl, fun _ _ => rfl, fun _ => update_other _, hsub, hcleared, rfl⟩ hreach
      (fun _ _ hp => ?_) (fun o' ho' => ?_) (fun hnone => ?_) (fun id' ev'' hown hev => ?_) (fun _ => ⟨id, he.own⟩)
      (fun o' ho' => ?_) (fun b id' hcur hown => ?_) (fun _ hne => ?_)
    · simp [hphase] at hp
    · cases ho.symm.trans ho'
      refine ⟨ev', ⟨he.made, ?_, ?_, ?_, hactive, ?_, ?_, ?_, ?_, ?_, ?_⟩⟩
      all_goals simp [hdestroy, hpending, hnonzero, he.key, he.own, hheap, hsettled.2]
    · simp [ho] at hnone
    · cases he.own.symm.trans hown
      obtain rfl : ev'' = ev' := by simpa [eq_comm] using hev
      exact ⟨fun _ => ⟨o, ho, htimer o⟩, ⟨htype, hcb.trans hwas.2.1, hpos⟩, by simp [hphase]⟩
    · have hr := h.current o' ho'
      refine ⟨hr.made, ?_, ?_, fun hz => ?_, fun id' o'' ho'' haddr => ?_⟩
      · rw [htimer]
        exact hr.phase
      · rw [htimer, hid]
        exact hr.own
      · by_cases hobj : o' = o
        · subst hobj
          simp [hnonzero] at hz
        · dsimp only at hz ⊢
          rw [update_of_ne hobj] at hz ⊢
          exact hr.last hz
      · rw [htimer, htimer] at haddr
        exact hr.unique id' o'' ho'' haddr
    · obtain ⟨o', ho', haddr⟩ := h.entered b id' hcur hown
      exact ⟨o', ho', (htimer o').trans haddr⟩
    · simp [he.key, ho] at hne

end HvVerified.Evpp
