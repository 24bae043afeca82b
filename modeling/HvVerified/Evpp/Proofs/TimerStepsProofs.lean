import HvVerified.Evpp.Proofs.TimersProofs

/-!
# Proofs: the timers of an `EventLoop` in all runs

The steps of the loop keep the invariant of `timers`: an expiry takes one of the expirations that are left
and makes the callback due, `onTimer` counts it in the `Timer`, and what follows the callback frees the
`htimer_t` of a timer that is exhausted, whose entry `onTimer` has erased.
-/

namespace HvVerified.Evpp

open Lib Event Function List Option EventLoop

variable {x i limit now t cron cur : Nat} {next : Option Nat} {real : Bool} {idle timer : Hevent}
  {rest : List Nat} {call : TimerCall} {s s' : EventLoop} {id : TimerID} {o a : Nat} {ev : Hevent} {l : Hloop}

/-! ## Steps of the loop that do not concern the timers -/

section

variable {l l' : Hloop} {act : LoopAct}

theorem current_iff {y : Nat} (hp : l.phase = .callback i x next) : l.Current y ↔ y = x := by
  constructor
  · rintro ⟨j, next', hp'⟩
    rw [hp] at hp'
    cases hp'
    rfl
  · rintro rfl
    exact ⟨i, next, hp⟩

/-- The steps in which no timer expires and no list is visited. -/
def quiet : LoopAct → Bool
  | .hloopRun | .processEvents _ _ _ | .mark _ | .polled _ _ | .timersDone | .idleNext => true
  | .call (.hioGet _) | .call (.hioAdd _ _ _) => true
  | _ => false

theorem processPendings_phase : (processPendings l).phase ≠ .timers real limit now := by
  unfold processPendings
  split_ifs <;> simp

theorem processIdles_phase : (processIdles l).phase ≠ .timers real limit now := by
  unfold processIdles
  split_ifs
  · simp
  · exact processPendings_phase

theorem enters_timers (hact : quiet act) (hs : loopStep l act = some l')
    (hp : l'.phase = .timers false limit now) : l.phase = l'.phase ∨ l.phase.outside := by
  cases loopStep_cases hs with
  | call hcall _ =>
    obtain ⟨-, hlists, -⟩ := callOp_change hcall
    exact .inl hlists.phase.symm
  | status => exact .inl rfl
  | move phase hr _ _ hout _ _ =>
    refine .inr (hout.resolve_right ?_)
    rintro ⟨limit', now', rfl⟩
    cases hp
  | processIdles => exact absurd hp processIdles_phase
  | processPendings => exact absurd hp processPendings_phase
  | mark hphase _ _ => exact .inr (by rw [hphase]; rfl)
  | idle =>
    rw [processIdle_phase] at hp
    cases hp
  | idleFreed => cases hp
  | expire | expireFreed | endList | visit | ret => cases hact

/-- What such a step does: no timeout is changed, and no callback is entered or left. -/
structure KeepsTimeouts (l l' : Hloop) (act : LoopAct) : Prop where
  mem : ∀ b, l'.mem b = l.mem b ∨ (∃ ev, l.mem b = some ev ∧ ev.eventType ≠ .timeout) ∨ act = .call (.hioGet b)
  timers : l'.timers = l.timers
  current : ∀ b, l'.Current b ↔ l.Current b
  cleared : l'.cleared = l.cleared

theorem mem_of_update {new : Option Hevent} (old : l.mem x = some ev) (htype : ev.eventType ≠ .timeout)
    (hmem : l'.mem = update l.mem x new) (b : Nat) :
    l'.mem b = l.mem b ∨ (∃ ev, l.mem b = some ev ∧ ev.eventType ≠ .timeout) ∨ act = .call (.hioGet b) := by
  by_cases hb : b = x
  · subst hb
    exact .inr (.inl ⟨ev, old, htype⟩)
  · exact .inl (by rw [hmem, update_of_ne hb])

theorem KeepsTimeouts.of_collecting (hold : l.phase.collecting) (hnew : ∀ i x next, l'.phase ≠ .callback i x next)
    (hmem : ∀ b, l'.mem b = l.mem b ∨ (∃ ev, l.mem b = some ev ∧ ev.eventType ≠ .timeout) ∨
      act = .call (.hioGet b))
    (htimers : l'.timers = l.timers) (hcleared : l'.cleared = l.cleared) : KeepsTimeouts l l' act := by
  refine ⟨hmem, htimers, fun b => iff_of_false ?_ (not_current_of_collecting hold b), hcleared⟩
  rintro ⟨i, next, hp⟩
  exact hnew i b next hp

theorem quiet_processPendings (hold : l.phase.collecting) : KeepsTimeouts l (processPendings l) act := by
  unfold processPendings
  split_ifs
  all_goals exact .of_collecting hold (by simp) (fun _ => .inl rfl) rfl rfl

theorem quiet_processIdle (hphase : l.phase = .idles (a :: rest))
    (old : l.mem a = some idle) (hidle : idle.eventType = .idle) :
    KeepsTimeouts l (processIdle { l with phase := .idles rest } a idle) act := by
  obtain ⟨idle', idles, nidles, npendings, pendings, heq⟩ := processIdle_eq { l with phase := .idles rest } a idle
  rw [heq]
  exact .of_collecting (by rw [hphase]; rfl) (by simp) (mem_of_update old (by simp [hidle]) rfl) rfl rfl

theorem quiet_step (hreg : Registered l) (hact : quiet act) (hs : loopStep l act = some l') :
    KeepsTimeouts l l' act := by
  cases loopStep_cases hs with
  | @call op l' hcall _ =>
    obtain ⟨x, hlists, -⟩ := callOp_change hcall
    cases op with
    | hioGet b =>
      obtain ⟨-, rfl⟩ := withFresh_eq_some hcall
      refine ⟨fun b' => ?_, rfl, hlists.current, rfl⟩
      by_cases hb : b' = b
      · exact .inr (.inr (by rw [hb]))
      · exact .inl (update_of_ne hb _ _)
    | hioAdd b cb events =>
      rw [callOp] at hcall
      obtain ⟨io, old, hio, rfl⟩ := withHandle_eq_some hcall
      have hio : io.eventType = .io := by simpa using hio
      have heq : ∃ io' nios, hioAdd l b io cb events =
          { l with mem := update l.mem b (some io'), nios } := by
        unfold hioAdd
        split_ifs <;> exact ⟨_, _, rfl⟩
      obtain ⟨io', nios, heq⟩ := heq
      rw [heq] at hlists ⊢
      exact ⟨mem_of_update old (by simp [hio]) rfl, rfl, hlists.current, rfl⟩
    | _ => cases hact
  | status _ _ _ => exact ⟨fun _ => .inl rfl, rfl, fun _ => Iff.rfl, rfl⟩
  | move phase hr hold hnew _ _ _ =>
    refine .of_collecting hold (fun i x next hp => ?_) (fun _ => .inl rfl) rfl rfl
    dsimp only at hp
    simp [hp, LoopPhase.collecting] at hnew
  | processIdles hr hold _ =>
    unfold processIdles processPendings
    split_ifs
    all_goals exact .of_collecting hold (by simp) (fun _ => .inl rfl) rfl rfl
  | processPendings hphase => exact quiet_processPendings (by rw [hphase]; rfl)
  | @mark a io hphase old hio =>
    obtain ⟨io', npendings, pendings, -, heq⟩ := eventPending_eq l a io
    rw [heq]
    exact ⟨mem_of_update old (by simp [hio]) rfl, rfl, fun _ => Iff.rfl, rfl⟩
  | @idle a rest idle hphase old =>
    exact quiet_processIdle hphase old (hreg.idleType hphase old)
  | idleFreed hphase old =>
    exact absurd ((hreg.rest _ hphase).2 mem_cons_self) (hreg.idles.notMem (by simp [old]))
  | expire | expireFreed | endList | visit | ret => cases hact

end

/-- The guard of the loop. Only `htimer_t` have had their flag cleared, and these are no ios. -/
theorem TimerInv.allowed {act : LoopAct} (h : TimerInv s) (hdel : ∀ b, act ≠ .call (.htimerDel b))
    (hs : loopStep s.hloop act = some l) : LoopAllowed s.hloop act := by
  refine fun b hb => ⟨?_, hdel b⟩
  rintro rfl
  obtain ⟨id, hown⟩ := h.cleared b hb
  obtain ⟨ev, hev⟩ := ne_none_iff_exists'.1 (h.cleared_live hb)
  have htype := (h.type b id ev hown hev).1
  cases hph : s.hloop.phase <;> simp [loopStep, hph, hev, htype] at hs

theorem timerInv_quiet {act : LoopAct} (h : TimerInv s) (hact : quiet act)
    (hget : ∀ b, act = .call (.hioGet b) → s.eventId b = none) (hs : s.hloopStep act = some s') : TimerInv s' := by
  obtain ⟨l, hl, rfl⟩ := map_eq_some_iff.1 hs
  have hq := quiet_step h.registered hact hl
  have hok : LoopAllowed s.hloop act := by
    refine h.allowed (fun b => ?_) hl
    rintro rfl
    cases hact
  refine h.outer s.nextTimerID s.customEvents (h.reach.step hok hl) (fun b id hown => ?_)
    (fun b _ _ hb => by rw [hq.timers]; exact hb) (fun b _ _ => hq.current b)
    (fun limit now hp => enters_timers hact hl hp) (by rw [hq.cleared]; exact List.Subset.refl _) h.queue
  rcases hq.mem b with heq | ⟨ev, hev, htype⟩ | heq
  · exact .inl heq
  · exact absurd (h.type b id ev hown hev).1 htype
  · simp [hget b heq] at hown

theorem TimerInv.forget (h : TimerInv s) (hfresh : s.hloop.mem a = none) :
    TimerInv { s with eventId := update s.eventId a none } := by
  have hother : ∀ {b ev}, s.hloop.mem b = some ev → b ≠ a := by
    rintro b ev hev rfl
    simp [hfresh] at hev
  have hold : ∀ {b id}, update s.eventId a none b = some id → s.eventId b = some id := by
    intro b id hb
    rcases update_cases hb with ⟨-, hb⟩ | ⟨-, hb⟩
    · cases hb
    · exact hb
  refine ⟨h.reach, fun id o ho => ?_, fun b id ev hb => h.alive b id ev (hold hb),
    fun b id ev hb => h.type b id ev (hold hb), fun o ho => ?_, fun b id hcur hb => h.entered b id hcur (hold hb),
    h.unset, fun limit now hp b id ev hb => h.once limit now hp b id ev (hold hb), fun b hb => ?_, h.queue, h.finished⟩
  · obtain ⟨ev, he⟩ := h.entry id o ho
    exact ⟨ev, he.frame le_rfl ⟨rfl, update_other _ (hother he.htimer), rfl, fun hb => hb, Iff.rfl, rfl⟩⟩
  · have hr := h.current o ho
    obtain ⟨ev, hev⟩ := h.live hr.phase
    exact ⟨hr.made, hr.phase, (update_other _ (hother hev)).trans hr.own, hr.last, hr.unique⟩
  · obtain ⟨id, hid⟩ := h.cleared b hb
    obtain ⟨ev, hev⟩ := ne_none_iff_exists'.1 (h.cleared_live hb)
    exact ⟨id, (update_other _ (hother hev)).trans hid⟩

/-! ## Expiry -/

theorem loopStep_expire_cases {l l' : Hloop} (hs : loopStep l (.expire t cron) = some l') :
    ∃ real limit now, l.phase = .timers real limit now ∧ t ∈ l.heap real ∧ l.nextTimeout t ≤ limit ∧
      (l.mem t = none ∨ ∃ timer, l.mem t = some timer ∧ l' = processTimer l t timer limit cron) := by
  cases hph : l.phase with
  | timers real limit now =>
    simp only [loopStep, hph] at hs
    split_ifs at hs with hdue
    simp only [Hloop.isDue, Bool.and_eq_true, contains_iff_mem, decide_eq_true_eq] at hdue
    refine ⟨real, limit, now, rfl, hdue.1.1, hdue.1.2, ?_⟩
    split at hs
    next hmem => exact .inl hmem
    next timer hmem => exact .inr ⟨timer, hmem, (some.inj hs).symm⟩
  | _ => simp [loopStep, hph] at hs

/-- What an expiry does to the loop and to the timeout at `t`, which was `timer` and becomes `timer'`. -/
structure Expiry (l l' : Hloop) (t limit : Nat) (timer timer' : Hevent) : Prop where
  mem : l'.mem = Function.update l.mem t (some timer')
  phase : l'.phase = l.phase
  cleared : l'.cleared = l.cleared
  heap : ∀ b, b ≠ t → b ∈ l.timers → b ∈ l'.timers
  pending : timer'.pending
  type : timer'.eventType = .timeout
  active : timer'.active = timer.active
  cb : timer'.cb = timer.cb
  timeout : timer'.timeout = timer.timeout
  repeats : timer'.repeats = countDown timer.repeats
  exhausted : timer'.destroy ∧ timer'.repeats = 0 ∨
    timer'.destroy = false ∧ timer'.repeats ≠ 0 ∧ t ∈ l'.timers ∧ limit < timer'.nextTimeout

theorem expiry_processTimer (limit cron : Nat) (hheap : t ∈ l.timers)
    (htype : timer.eventType = .timeout) (hd : timer.destroy = false) (hp : timer.pending = false)
    (hpos : 0 < timer.timeout) : ∃ timer', Expiry l (processTimer l t timer limit cron) t limit timer timer' := by
  obtain ⟨_, _, _, _, _, _, heq', hsub⟩ := processTimer_eq l t timer limit cron
  obtain ⟨timer', timers, ntimers, heq, hp', -, htype', hactive, hcb, htimeout, hrepeats, hcases⟩ :=
    processTimer_spec (s := l) limit t cron htype hd hp hpos
  refine ⟨timer', by rw [heq], processTimer_phase, by rw [heq'], by rwa [heq'], hp', htype', hactive, hcb, htimeout,
    hrepeats, ?_⟩
  rcases hcases with ⟨-, hd', hz⟩ | ⟨htimers, hd', hz, hlt⟩
  · exact .inl ⟨hd', hz⟩
  · refine .inr ⟨hd', hz, ?_, hlt⟩
    rw [heq, htimers]
    exact hheap

theorem timerInv_expired {timer' : Hevent} (h : TimerInv s)
    (hphase : s.hloop.phase = .timers false limit now) (hown : s.eventId t = some id)
    (old : s.hloop.mem t = some timer) (hd : timer.destroy = false) (hp : timer.pending = false)
    (hreach : Reachable loopStep LoopAllowed LoopInit l) (hexpiry : Expiry s.hloop l t limit timer timer') :
    TimerInv (({ s with hloop := l } : EventLoop).noteExpired t) := by
  obtain ⟨hmem, hphase', hcleared, hsub, hp', htype, hactive, hcb, htimeout, hrepeats, hcases⟩ := hexpiry
  have hidle : s.current = none := h.current_none (by simp [hphase])
  obtain ⟨o, ho, haddr⟩ := h.alive t id timer hown old (.inr hd)
  obtain ⟨ev, he⟩ := h.entry id o ho
  obtain rfl : ev = timer := some.inj (he.htimer.symm.trans (by rw [haddr]; exact old))
  obtain ⟨hcount, hran⟩ := he.settled (.inl hp)
  have hobjects : (fun o' => if s.timers id = some o' then { s.objects o' with expired := (s.objects o').expired + 1 }
      else s.objects o') = update s.objects o { s.objects o with expired := (s.objects o).expired + 1 } := by
    funext o'
    by_cases hobj : o' = o
    · subst hobj
      rw [if_pos ho, update_self]
    · rw [if_neg (by rw [ho]; exact fun heq => hobj (some.inj heq).symm), update_of_ne hobj]
  have hleft : (s.left id).bind (fun l => if countDown l = 0 then none else some (countDown l)) =
      if timer'.destroy then none else some timer'.repeats := by
    rw [he.left, if_neg (by simp [hd]), bind_some, ← hrepeats]
    rcases hcases with ⟨hd', hz⟩ | ⟨hd', hz, -⟩
    · rw [if_pos hz, if_pos hd']
    · rw [if_neg hz, if_neg (by simp [hd'])]
  simp only [noteExpired, hown, hobjects, hleft]
  have htimer := update_object (o := o) Timer.timer s.objects
    { s.objects o with expired := (s.objects o).expired + 1 } rfl
  subst haddr
  refine h.frame (he.belongs ho) ⟨fun _ => update_other _, ⟨le_rfl, fun _ hlt _ => hlt⟩, fun _ _ => rfl,
    fun _ => update_other _, fun _ _ => Iff.rfl, fun _ _ => rfl, fun b hb => ?_, hsub, fun b hb => ?_, rfl⟩ hreach
    (fun _ _ _ => hphase'.symm) (fun o' ho' => ?_) (fun hnone => ?_) (fun id' ev' hid' hev => ?_) (fun _ => ⟨id, hown⟩)
    (fun o' ho' => ?_) (fun b id' hcur => ?_) (fun _ hne => ?_)
  · rw [hmem, update_of_ne hb]
  · exact .inr (hcleared ▸ hb)
  · cases ho.symm.trans ho'
    refine ⟨timer', ⟨he.made, ?_, ?_, ?_, hactive.trans he.active, ?_, fun hdes => ?_, fun _ => hp', fun _ _ => ?_,
      fun hor => ?_, update_self _ _ _⟩⟩
    · simp [he.key]
    · simp [he.own]
    · simp [hmem]
    · rcases hcases with ⟨hd', hz⟩ | ⟨hd', hz, -⟩ <;> simp [hd', hz]
    · rw [htimer]
      rcases hcases with ⟨hd', -⟩ | ⟨-, -, hin, -⟩
      · simp [hd'] at hdes
      · exact hin
    · simp [hcount, hrepeats, hran]
    · simp [hp', hidle] at hor
  · simp [ho] at hnone
  · cases hown.symm.trans hid'
    obtain rfl : ev' = timer' := by simpa [hmem, eq_comm] using hev
    obtain ⟨-, hcb', hpos⟩ := h.type _ id ev hown old
    refine ⟨fun _ => ⟨o, ho, htimer o⟩, ⟨htype, hcb.trans hcb', by omega⟩, fun limit' now' hph hpend hdes => ?_⟩
    obtain ⟨-, rfl, -⟩ := LoopPhase.timers.inj (hphase.symm.trans (hphase'.symm.trans hph))
    rcases hcases with ⟨hd', -⟩ | ⟨-, -, -, hlt⟩
    · simp [hd'] at hdes
    · exact hlt
  · simp [hidle] at ho'
  · obtain ⟨i, next, hcb⟩ := hcur
    rw [hphase', hphase] at hcb
    cases hcb
  · simp [he.key, ho] at hne

theorem timerInv_expire (h : TimerInv s)
    (hs : (s.hloopStep (.expire t cron)).map (·.noteExpired t) = some s') : TimerInv s' := by
  obtain ⟨s₁, hs₁, rfl⟩ := map_eq_some_iff.1 hs
  obtain ⟨l, hl, rfl⟩ := map_eq_some_iff.1 hs₁
  have hreach := h.reach.step (h.allowed (by simp) hl) hl
  have hreg := h.registered
  obtain ⟨real, limit, now, hphase, hheap, hle, hmem⟩ := loopStep_expire_cases hl
  have hlive : ∃ timer, s.hloop.mem t = some timer ∧ timer.destroy = false ∧
      (timer.eventType = .timeout → real = false) := by
    cases real with
    | false =>
      obtain ⟨timer, old, -, hd⟩ := hreg.timers.live t hheap
      exact ⟨timer, old, hd, fun _ => rfl⟩
    | true =>
      obtain ⟨timer, old, htype, hd⟩ := hreg.realtimers.live t hheap
      exact ⟨timer, old, hd, fun htype' => by simp [htype] at htype'⟩
  obtain ⟨timer, old, hd, hreal⟩ := hlive
  have hprocess : l = processTimer s.hloop t timer limit cron := by
    rcases hmem with hnone | ⟨timer', old', rfl⟩
    · simp [old] at hnone
    · rw [some.inj (old.symm.trans old')]
  cases hown : s.eventId t with
  | none =>
    simp only [noteExpired, hown]
    obtain ⟨timer', timers, realtimers, ntimers, npendings, pendings, heq, hsub⟩ :=
      processTimer_eq s.hloop t timer limit cron
    obtain rfl := hprocess.trans heq
    have hne : ∀ b id, s.eventId b = some id → b ≠ t := by
      rintro b id hb rfl
      simp [hown] at hb
    refine h.outer s.nextTimerID s.customEvents hreach (fun b id hb => .inl (update_of_ne (hne b id hb) _ _))
      (fun b id hb => hsub b (hne b id hb)) (fun b _ _ => Iff.rfl) (fun _ _ _ => .inl rfl)
      (List.Subset.refl _) h.queue
  | some id =>
    obtain ⟨htype, -, hpos⟩ := h.type t id timer hown old
    obtain rfl := hreal htype
    rw [nextTimeout_eq old] at hle
    -- a pending timer is not due again
    have hp : timer.pending = false := by
      refine eq_false_of_ne_true fun hp => ?_
      have hlt := h.once limit now hphase t id timer hown old hp hd
      omega
    obtain ⟨timer', hexpiry⟩ := expiry_processTimer limit cron hheap htype hd hp hpos
    rw [← hprocess] at hexpiry
    exact timerInv_expired h hphase hown old hd hp hreach hexpiry

/-! ## `onTimer` -/

theorem loopStep_visit_cases {l l' : Hloop} (hs : loopStep l .visit = some l') :
    ∃ i, l.phase = .pass i none ∧ l' = finishList l i ∨
      ∃ cur, l.phase = .pass i (some cur) ∧ l' = visitEvent l i cur := by
  cases loopStep_cases hs with
  | endList hphase => exact ⟨_, .inl ⟨hphase, rfl⟩⟩
  | visit hphase => exact ⟨_, .inr ⟨_, hphase, rfl⟩⟩
  | status _ _ hact => cases hact
  | move _ _ _ _ _ _ hact => cases hact
  | processIdles _ _ hact => cases hact

theorem TimerInv.passes (h : TimerInv s) (hidle : s.current = none)
    (hreach : Reachable loopStep LoopAllowed LoopInit l)
    (hmem : ∀ a id, s.eventId a = some id → l.mem a = s.hloop.mem a ∨
      l.mem a = none ∧ ∀ id o, s.timers id = some o → (s.objects o).timer ≠ a)
    (htimers : l.timers = s.hloop.timers) (hphase : ∀ i b next, l.phase = .callback i b next → s.eventId b = none)
    (hcollect : ∀ limit now, l.phase ≠ .timers false limit now)
    (hcleared : l.cleared ⊆ s.hloop.cleared) : TimerInv { s with hloop := l } := by
  refine h.outer s.nextTimerID s.customEvents hreach hmem (fun b _ _ hb => by rw [htimers]; exact hb)
    (fun b id hb => iff_of_false ?_ fun hcur => ?_)
    (fun limit now hp => absurd hp (hcollect limit now)) hcleared h.queue
  · rintro ⟨i, next, hp⟩
    simp [hphase i b next hp] at hb
  · obtain ⟨o, ho, -⟩ := h.entered b id hcur hb
    simp [hidle] at ho

theorem timerInv_enter (h : TimerInv s) (hidle : s.current = none)
    (hown : s.eventId cur = some id) (old : s.hloop.mem cur = some ev) (hp : ev.pending)
    (hactive : ev.active) (hreach : Reachable loopStep LoopAllowed LoopInit l)
    (hmem : l.mem = s.hloop.mem) (htimers : l.timers = s.hloop.timers) (hphase : l.phase = .callback i cur next)
    (hcleared : l.cleared = s.hloop.cleared) : TimerInv (({ s with hloop := l } : EventLoop).enterOnTimer cur) := by
  obtain ⟨o, ho, haddr⟩ := h.alive cur id ev hown old (.inl hactive)
  obtain ⟨ev', he⟩ := h.entry id o ho
  obtain rfl : ev' = ev := some.inj (he.htimer.symm.trans (by rw [haddr]; exact old))
  obtain ⟨hcount, hran⟩ := he.due hp (by simp [hidle])
  simp only [enterOnTimer, hown, ho]
  have htimer := update_object (o := o) Timer.timer s.objects
    { s.objects o with repeats := countDown (s.objects o).repeats, ran := (s.objects o).ran + 1 } rfl
  subst haddr
  refine h.frame (he.belongs ho) ⟨fun _ => update_other _, ⟨le_rfl, fun _ hlt _ => hlt⟩, fun _ _ => rfl,
    fun _ _ => rfl, fun o' hobj => ?_, fun _ _ => rfl, fun b _ => congrFun hmem b, fun b _ hb => ?_,
    fun b hb => .inr (hcleared ▸ hb), rfl⟩ hreach (fun _ _ hp => ?_) (fun o' ho' => ?_) (fun hnone => ?_)
    (fun id' ev hid' hev => ?_) (fun _ => ⟨id, hown⟩) (fun o' ho' => ?_) (fun b id' hcur _ => ?_) (fun _ hne => ?_)
  · simp [hidle, Ne.symm hobj]
  · exact htimers ▸ hb
  · simp [hphase] at hp
  · cases ho.symm.trans ho'
    refine ⟨ev', ⟨he.made, ?_, ?_, ?_, he.active, he.destroy, fun hd => ?_, he.waits, fun _ hcur => absurd rfl hcur,
      fun _ => ?_, he.left⟩⟩
    · simp [he.key]
    · simp [he.own]
    · simp [hmem, he.htimer]
    · simp [htimers, he.heap hd]
    · simp [hcount, hran]
  · simp [ho] at hnone
  · rw [show l.mem _ = _ from congrFun hmem _] at hev
    exact ⟨fun hor => by simpa [htimer] using h.alive _ id' ev hid' hev hor, h.type _ id' ev hid' hev, by simp [hphase]⟩
  · cases ho'
    refine ⟨he.made, ?_, ?_, fun _ => ?_, fun id' o' ho' heq => ?_⟩
    · rw [htimer]
      exact ⟨i, next, hphase⟩
    · simp [he.key, he.own]
    · simp [he.key, ho]
    · rw [htimer, htimer] at heq
      obtain ⟨_, he'⟩ := h.entry id' o' ho'
      by_contra hobj
      refine ((he.belongs ho).distinct he' ?_).2 heq
      rintro rfl
      exact hobj (some.inj (ho'.symm.trans ho))
  · obtain rfl := (current_iff hphase).1 hcur
    exact ⟨o, rfl, htimer o⟩
  · simp [he.key, ho] at hne

theorem filter_ne_subset (l : List Nat) (x : Nat) : l.filter (· ≠ x) ⊆ l := fun _ hb => (mem_filter.1 hb).1

theorem timerInv_visit (h : TimerInv s) (hs : (s.hloopStep .visit).map enterCallback = some s') : TimerInv s' := by
  obtain ⟨s₁, hs₁, rfl⟩ := map_eq_some_iff.1 hs
  obtain ⟨l, hl, rfl⟩ := map_eq_some_iff.1 hs₁
  have hreach := h.reach.step (h.allowed (by simp) hl) hl
  obtain ⟨-, lists, hinv⟩ := pass_invariant hreach
  have hidle : ∀ {i cur}, s.hloop.phase = .pass i cur → s.current = none :=
    fun hphase => h.current_none (by simp [hphase])
  obtain ⟨i, ⟨hphase, rfl⟩ | ⟨cur, hphase, rfl⟩⟩ := loopStep_visit_cases hl
  · -- the end of a list
    have heq : ∃ pendings npendings phase cleared, finishList s.hloop i =
        { s.hloop with pendings, npendings, phase, cleared } ∧ cleared ⊆ s.hloop.cleared ∧
        (phase = .idle ∨ ∃ j cur, phase = .pass j cur) := by
      cases i with
      | zero => exact ⟨_, _, _, _, rfl, nil_subset _, .inl rfl⟩
      | succ i => exact ⟨_, _, _, _, rfl, List.Subset.refl _, .inr ⟨_, _, rfl⟩⟩
    obtain ⟨pendings, npendings, phase, cleared, heq, hsub, hph⟩ := heq
    rw [heq] at hreach ⊢
    have hstay : ({ s with hloop := { s.hloop with pendings, npendings, phase, cleared } } : EventLoop).enterCallback =
        { s with hloop := { s.hloop with pendings, npendings, phase, cleared } } := by
      rcases hph with rfl | ⟨j, cur, rfl⟩ <;> rfl
    rw [hstay]
    refine h.passes (hidle hphase) hreach (fun _ _ _ => .inl rfl) rfl ?_ ?_ hsub
    · rcases hph with rfl | ⟨j, cur, rfl⟩ <;> simp
    · rcases hph with rfl | ⟨j, cur, rfl⟩ <;> simp
  · cases old : s.hloop.mem cur with
    | none =>
      refine absurd ?_ hinv.safe
      simp [visitEvent, old]
    | some ev =>
      by_cases hp : ev.pending
      · by_cases hcall : (ev.active && ev.cb)
        · have heq : visitEvent s.hloop i cur =
              { s.hloop with phase := .callback i cur ev.pendingNext, called := cur :: s.hloop.called } := by
            simp only [visitEvent, old, hp, hcall, if_true]
          rw [heq] at hreach ⊢
          cases hown : s.eventId cur with
          | none =>
            -- the callback of an io
            simp only [enterCallback, enterOnTimer, hown]
            refine h.passes (hidle hphase) hreach (fun _ _ _ => .inl rfl) rfl (fun j b next hp => ?_) (by simp)
              (List.Subset.refl _)
            cases hp
            exact hown
          | some id =>
            have hactive : ev.active := (Bool.and_eq_true_iff.1 hcall).1
            exact timerInv_enter h (hidle hphase) hown old hp hactive hreach rfl rfl rfl rfl
        · have heq : visitEvent s.hloop i cur = finishEvent s.hloop i cur ev.pendingNext := by
            simp only [visitEvent, old, hp, if_true]
            rw [if_neg hcall]
          rw [heq, finishEvent_eq i ev.pendingNext old] at hreach ⊢
          refine h.passes (hidle hphase) hreach (fun b id hb => ?_) rfl (by simp) (by simp) (filter_ne_subset _ _)
          · by_cases hbc : b = cur
            · subst hbc
              -- it has been killed, so that it has no entry and is freed
              have hinactive : ev.active = false := by
                simpa [(h.type b id ev hb old).2.1] using hcall
              have hnone : ∀ id' o, s.timers id' = some o → (s.objects o).timer ≠ b := by
                intro id' o ho haddr
                obtain ⟨ev', he⟩ := h.entry id' o ho
                have hev := he.htimer
                rw [haddr, old] at hev
                cases hev
                simp [he.active] at hinactive
              have hd : ev.destroy := by
                by_contra hd
                obtain ⟨o, ho, haddr⟩ := h.alive b id ev hb old (.inr (eq_false_of_ne_true hd))
                exact hnone id o ho haddr
              refine .inr ⟨?_, hnone⟩
              dsimp only
              rw [update_self, if_pos hd]
            · exact .inl (update_of_ne hbc _ _)
      · have heq : visitEvent s.hloop i cur =
            { s.hloop with phase := .pass i ev.pendingNext, cleared := s.hloop.cleared.filter (· ≠ cur) } := by
          simp only [visitEvent, old]
          rw [if_neg hp]
        rw [heq] at hreach ⊢
        exact h.passes (hidle hphase) hreach (fun _ _ _ => .inl rfl) rfl (by simp) (by simp) (filter_ne_subset _ _)

/-- The callback of `o` returns, and its `htimer_t` is freed: the timer is exhausted or was killed. -/
theorem timerInv_leave_freed {timers : TimerID → Option Nat} (h : TimerInv s) (hcur : s.current = some o)
    (old : s.hloop.mem (s.objects o).timer = some ev) (hd : ev.destroy)
    (hkeep : ∀ id o', timers id = some o' ↔ s.timers id = some o' ∧ o' ≠ o)
    (hreach : Reachable loopStep LoopAllowed LoopInit l)
    (hmem : l.mem = update s.hloop.mem (s.objects o).timer none) (htimers : l.timers = s.hloop.timers)
    (hphase : ∃ i next, l.phase = .pass i next) (hcleared : l.cleared ⊆ s.hloop.cleared) :
    TimerInv { s with hloop := l, timers, current := none } := by
  have hr := h.current o hcur
  have hself : l.mem (s.objects o).timer = none := by rw [hmem, update_self]
  have hother : ∀ {b}, b ≠ (s.objects o).timer → l.mem b = s.hloop.mem b := by
    intro b hb
    rw [hmem, update_of_ne hb]
  have hlive : ∀ {b ev'}, l.mem b = some ev' → b ≠ (s.objects o).timer := by
    rintro b ev' hev rfl
    simp [hself] at hev
  obtain ⟨i, next, hphase⟩ := hphase
  -- the entry that is erased is exhausted
  have hentry : s.timers (s.objects o).id = some o → ∀ ev', Entry s (s.objects o).id o ev' →
      s.left (s.objects o).id = none ∧ (s.objects o).expired = (s.objects o).ran := by
    intro _ ev' he
    cases old.symm.trans he.htimer
    exact ⟨he.left.trans (if_pos hd), (he.settled (.inr hcur)).2⟩
  refine ⟨hreach, fun id o' ho' => ?_, fun b id ev' hb hev hor => ?_,
    fun b id ev' hb hev => h.type b id ev' hb ((hother (hlive hev)).symm.trans hev), fun o' ho' => (by cases ho'),
    fun b id hc => ?_, fun id hnone => ?_, fun limit now hph => (by simp [hphase] at hph),
    fun b hb => h.cleared b (hcleared hb), h.queue, fun o' hlt hended hne => ?_⟩
  · obtain ⟨ho', hobj⟩ := (hkeep id o').1 ho'
    obtain ⟨ev', he'⟩ := h.entry id o' ho'
    have haddr : (s.objects o').timer ≠ (s.objects o).timer := fun heq => hobj (hr.unique id o' ho' heq)
    refine ⟨ev', he'.frame le_rfl ⟨rfl, rfl, hother haddr, ?_, ?_, rfl⟩⟩
    · rw [htimers]
      exact fun hb => hb
    · simp [hcur, Ne.symm hobj]
  · obtain ⟨o', ho', haddr⟩ := h.alive b id ev' hb ((hother (hlive hev)).symm.trans hev) hor
    refine ⟨o', (hkeep id o').2 ⟨ho', ?_⟩, haddr⟩
    rintro rfl
    exact hlive hev haddr.symm
  · obtain ⟨j, next', hp⟩ := hc
    simp [hphase] at hp
  · cases ho' : s.timers id with
    | none => exact h.unset id ho'
    | some o' =>
      have hobj : o' = o := by
        by_contra hobj
        have hstill : timers id = some o' := (hkeep id o').2 ⟨ho', hobj⟩
        have hnone : timers id = none := hnone
        simp [hnone] at hstill
      subst hobj
      obtain ⟨ev', he⟩ := h.entry id o' ho'
      obtain rfl := he.key
      exact (hentry ho' ev' he).1
  · by_cases ho' : s.timers (s.objects o').id = some o'
    · have hobj : o' = o := by
        by_contra hobj
        exact hne ((hkeep _ o').2 ⟨ho', hobj⟩)
      subst hobj
      obtain ⟨ev', he⟩ := h.entry _ o' ho'
      exact (hentry ho' ev' he).2
    · exact h.finished o' hlt hended ho'

theorem timerInv_leave_kept (h : TimerInv s) (hcur : s.current = some o) (he : Entry s id o ev)
    (ho : s.timers id = some o) (hd : ev.destroy = false) (hreach : Reachable loopStep LoopAllowed LoopInit l)
    (hmem : l.mem = update s.hloop.mem (s.objects o).timer (some { ev with pending := false }))
    (htimers : l.timers = s.hloop.timers) (hphase : ∃ i next, l.phase = .pass i next)
    (hcleared : l.cleared ⊆ s.hloop.cleared) : TimerInv { s with hloop := l, current := none } := by
  obtain ⟨i, next, hphase⟩ := hphase
  refine h.frame (he.belongs ho) ⟨fun _ _ => rfl, ⟨le_rfl, fun _ hlt _ => hlt⟩, fun _ _ => rfl, fun _ _ => rfl,
    fun o' hobj => ?_, fun _ _ => rfl, fun b hb => ?_, fun b _ hb => ?_, fun b hb => .inr (hcleared hb), rfl⟩ hreach
    (fun _ _ hp => ?_) (fun o' ho' => ?_) (h.unset id) (fun id' ev' hid' hev => ?_) (fun _ => ⟨id, he.own⟩)
    (fun o' ho' => (by cases ho')) (fun b id' hc => ?_) (h.finished o he.made)
  · simp [hcur, Ne.symm hobj]
  · simp [hmem, hb]
  · exact htimers ▸ hb
  · simp [hphase] at hp
  · cases ho.symm.trans ho'
    refine ⟨{ ev with pending := false }, ⟨he.made, he.key, he.own, by simp [hmem], he.active, he.destroy, fun hd => ?_,
      by simp [hd], by simp, fun _ => he.settled (.inr hcur), he.left⟩⟩
    simp [htimers, he.heap hd]
  · cases he.own.symm.trans hid'
    obtain rfl : ev' = { ev with pending := false } := by simpa [hmem, eq_comm] using hev
    exact ⟨fun _ => ⟨o, ho, rfl⟩, h.type _ id ev he.own he.htimer, by simp⟩
  · obtain ⟨j, next', hp⟩ := hc
    simp [hphase] at hp

theorem timerInv_ret (h : TimerInv s) (hs : s.leaveOnTimer.hloopStep .ret = some s') : TimerInv s' := by
  obtain ⟨l, hl, rfl⟩ := map_eq_some_iff.1 hs
  have hloop : s.leaveOnTimer.hloop = s.hloop := by
    unfold leaveOnTimer
    split <;> rfl
  rw [hloop] at hl
  have hreach := h.reach.step (h.allowed (by simp) hl) hl
  obtain ⟨i, cur, next, hphase, rfl⟩ := finishEvent_of_loopStep hl
  obtain ⟨ev, old⟩ := h.live ((current_iff hphase).2 rfl)
  rw [finishEvent_eq i next old] at hreach ⊢
  cases hown : s.eventId cur with
  | none =>
    have hidle : s.current = none := by
      refine eq_none_iff_forall_ne_some.2 fun o ho => ?_
      have hr := h.current o ho
      have hown' := hr.own
      rw [(current_iff hphase).1 hr.phase, hown] at hown'
      cases hown'
    have hleave : s.leaveOnTimer = s := by simp only [leaveOnTimer, hidle]
    rw [hleave]
    refine h.passes hidle hreach (fun b id hb => .inl ?_) rfl (by simp) (by simp) (filter_ne_subset _ _)
    refine update_of_ne ?_ _ _
    rintro rfl
    simp [hown] at hb
  | some id =>
    obtain ⟨o, hcur, rfl⟩ := h.entered cur id ((current_iff hphase).2 rfl) hown
    have hr := h.current o hcur
    cases hown.symm.trans hr.own
    simp only [leaveOnTimer, hcur]
    by_cases hkept : s.timers (s.objects o).id = some o ∧ ev.destroy = false
    · obtain ⟨ho, hd⟩ := hkept
      obtain ⟨ev', he⟩ := h.entry _ o ho
      cases old.symm.trans he.htimer
      have hz : (s.objects o).repeats ≠ 0 := by
        rw [(he.settled (.inr hcur)).1]
        exact fun hz => by simp [he.destroy.2 hz] at hd
      rw [if_neg hz]
      rw [if_neg (by simp [hd])] at hreach ⊢
      exact timerInv_leave_kept h hcur he ho hd hreach rfl rfl ⟨i, next, rfl⟩ (filter_ne_subset _ _)
    · -- without its entry the timer has been killed
      have hd : ev.destroy := by
        by_contra hd
        obtain ⟨o', ho', haddr⟩ := h.alive _ _ ev hown old (.inr (eq_false_of_ne_true hd))
        obtain rfl := hr.unique _ o' ho' haddr
        exact hkept ⟨ho', eq_false_of_ne_true hd⟩
      rw [if_pos hd] at hreach ⊢
      refine timerInv_leave_freed h hcur old hd (fun id o' => ?_) hreach rfl rfl ⟨i, next, rfl⟩ (filter_ne_subset _ _)
      have hzero : s.timers (s.objects o).id = some o → (s.objects o).repeats = 0 := by
        intro ho
        obtain ⟨ev', he⟩ := h.entry _ o ho
        cases old.symm.trans he.htimer
        rw [(he.settled (.inr hcur)).1]
        exact he.destroy.1 hd
      have hkey : s.timers id = some o → id = (s.objects o).id := by
        intro ho
        obtain ⟨_, he⟩ := h.entry id o ho
        exact he.key.symm
      have hlast : (s.objects o).repeats = 0 → ∀ o', s.timers (s.objects o).id = some o' → o' = o := by
        intro hz o' ho'
        rcases hr.last hz with heq | heq
        · exact some.inj (ho'.symm.trans heq)
        · simp [heq] at ho'
      split_ifs with hz
      · by_cases hid : id = (s.objects o).id
        · subst hid
          refine iff_of_false (by simp) ?_
          rintro ⟨ho', hne⟩
          exact hne (hlast hz o' ho')
        · rw [update_of_ne hid]
          refine ⟨fun ho' => ⟨ho', ?_⟩, fun h => h.1⟩
          rintro rfl
          exact hid (hkey ho')
      · refine ⟨fun ho' => ⟨ho', ?_⟩, fun h => h.1⟩
        rintro rfl
        obtain rfl := hkey ho'
        exact hz (hzero ho')

/-! ## All runs -/

theorem timerInv_runFunctor (h : TimerInv s)
    (hphase : s.hloop.phase = .callback i cur next) (hok : s.mayRun (.call call))
    (hs : s.runFunctor now a (.call call) = some s') : TimerInv s' := by
  cases call with
  | setTimer timeout repeats timerID => exact timerInv_setTimer h hphase hok hs
  | killTimer timerID =>
    cases hs
    exact timerInv_kill h hphase hok
  | resetTimer timerID timeout =>
    cases hs
    exact timerInv_reset h timeout hphase hok

theorem callback_of_inUserCode (hrun : s.isRunning) (huser : s.inUserCode) :
    ∃ i cur next, s.hloop.phase = .callback i cur next := by
  cases hph : s.hloop.phase with
  | callback i cur next => exact ⟨i, cur, next, rfl⟩
  | _ => simp [inUserCode, hph, hrun] at huser

theorem timerInv_runInLoop {inLoopThread : Bool} (h : TimerInv s) (huser : inLoopThread → s.inUserCode)
    (hok : (s.isRunning && inLoopThread) → s.mayRun (.call call))
    (hs : s.runInLoop inLoopThread now a (.call call) = some s') : TimerInv s' := by
  unfold runInLoop at hs
  split_ifs at hs with hnow
  · obtain ⟨hrun, hthread⟩ := Bool.and_eq_true_iff.1 hnow
    obtain ⟨i, cur, next, hphase⟩ := callback_of_inUserCode hrun (huser hthread)
    exact timerInv_runFunctor h hphase (hok hnow) hs
  · cases hs
    refine h.requeue s.nextTimerID _ fun fn hfn => ?_
    rcases mem_append.1 hfn with hfn | hfn
    · exact h.queue fn hfn
    · exact ⟨call, mem_singleton.1 hfn⟩

theorem timerInv_step {act : TimerAct} (h : TimerInv s) (hok : timersAllowed s act)
    (hs : timerStep s act = some s') : TimerInv s' := by
  cases act with
  | setTimer timeout repeats timerID now a =>
    rw [timerStep] at hs
    split_ifs at hs with huser
    have hrun : s.isRunning := by
      simp only [timersAllowed, maySet, Bool.and_eq_true] at hok
      exact hok.1.1.1
    obtain ⟨i, cur, next, hphase⟩ := callback_of_inUserCode hrun huser
    exact timerInv_setTimer h hphase hok hs
  | setTimerInLoop inLoopThread timeout repeats timerID now a =>
    rw [timerStep] at hs
    split_ifs at hs with hnot
    obtain ⟨nextTimerID, heq⟩ := chooseID_eq s timerID
    rw [timersAllowed, heq] at hok
    rw [heq] at hs
    have huser : inLoopThread → s.inUserCode := fun hthread => by simpa [hthread] using hnot
    refine timerInv_runInLoop (h.requeue nextTimerID s.customEvents h.queue) huser (fun hnow => ?_) hs
    have hnow : (s.isRunning && inLoopThread) := hnow
    simpa [hnow] using hok
  | killTimer | resetTimer =>
    rw [timerStep] at hs
    split_ifs at hs with hnot
    refine timerInv_runInLoop h (fun hthread => by simpa [hthread] using hnot) (fun hnow => ?_) hs
    simpa [timersAllowed, mayRun, hnow] using hok
  | onCustomEvent now a =>
    rw [timerStep] at hs
    split at hs
    · cases hs
    next fn rest hqueue =>
      split_ifs at hs with hio
      obtain ⟨call, rfl⟩ := h.queue fn (by rw [hqueue]; exact mem_cons_self)
      have hphase : ∃ i cur next, s.hloop.phase = .callback i cur next := by
        cases hph : s.hloop.phase with
        | callback i cur next => exact ⟨i, cur, next, rfl⟩
        | _ => simp [inIoCallback, hph] at hio
      obtain ⟨i, cur, next, hphase⟩ := hphase
      have hok : s.mayRun (.call call) := by
        simpa [timersAllowed, hqueue] using hok
      have h' := h.requeue s.nextTimerID rest fun fn hfn =>
        h.queue fn (by rw [hqueue]; exact mem_cons_of_mem _ hfn)
      refine timerInv_runFunctor h' hphase ?_ hs
      cases call <;> exact hok
  | run | mark | polled | timersDone | idleNext => exact timerInv_quiet h rfl (by simp) hs
  | processEvents | hioAdd =>
    rw [timerStep] at hs
    split_ifs at hs
    exact timerInv_quiet h rfl (by simp) hs
  | expire t cron => exact timerInv_expire h hs
  | visit => exact timerInv_visit h hs
  | ret => exact timerInv_ret h hs
  | hioGet a =>
    rw [timerStep] at hs
    split_ifs at hs
    have hfresh : s.hloop.mem a = none := by
      obtain ⟨l, hl, -⟩ := map_eq_some_iff.1 hs
      exact (withFresh_eq_some (callOp_of_loopStep hl)).1
    refine timerInv_quiet (h.forget hfresh) rfl (fun b hb => ?_) hs
    cases hb
    exact update_self _ _ _

theorem timerInv_init (h : TimersInit s) : TimerInv s := by
  obtain ⟨tid, rfl⟩ := h
  exact ⟨.start rfl, nofun, nofun, nofun, nofun, nofun, fun _ _ => rfl, nofun, nofun, nofun, nofun⟩

theorem TimerInv.agree (h : TimerInv s) : TimersAgree s := by
  obtain ⟨hreg, lists, hinv⟩ := pass_invariant h.reach
  -- between the passes no timer is pending
  have hnone : s.hloop.phase = .idle → ∀ id o ev, Entry s id o ev → ev.pending = false := by
    intro hphase id o ev he
    refine eq_false_of_ne_true fun hp => ?_
    obtain ⟨ev', hev', hio⟩ := hinv.outside (by rw [hphase]; rfl) _ ⟨ev, he.htimer, hp⟩
    cases he.htimer.symm.trans hev'
    simp [(h.type _ id ev he.own he.htimer).1] at hio
  refine ⟨fun id l hl => ?_, fun a ha id hown => ?_, fun hphase id hid => ?_, fun hphase o hlt hended => ?_, hinv.safe⟩
  · cases ho : s.timers id with
    | none => simp [h.unset id ho] at hl
    | some o =>
      obtain ⟨ev, he⟩ := h.entry id o ho
      rw [he.left] at hl
      split_ifs at hl with hd
      exact ⟨o, ev, rfl, he.heap (eq_false_of_ne_true hd), he.own, he.htimer, some.inj hl⟩
  · obtain ⟨ev, hev, -, hd⟩ := hreg.timers.live a ha
    obtain ⟨o, ho, rfl⟩ := h.alive a id ev hown hev (.inr hd)
    obtain ⟨ev', he⟩ := h.entry id o ho
    cases hev.symm.trans he.htimer
    refine ⟨?_, o, ho, rfl⟩
    rw [he.left, if_neg (by simp [hd])]
    simp
  · obtain ⟨o, ho⟩ := ne_none_iff_exists'.1 hid
    obtain ⟨ev, he⟩ := h.entry id o ho
    have hd : ¬ ev.destroy := by
      intro hd
      have hp := he.waits hd
      simp [hnone hphase id o ev he] at hp
    rw [he.left, if_neg hd]
    simp
  · by_cases ho : s.timers (s.objects o).id = some o
    · obtain ⟨ev, he⟩ := h.entry _ o ho
      exact (he.settled (.inl (hnone hphase _ o ev he))).2.symm
    · exact (h.finished o hlt hended ho).symm

/-- In the runs in which every call is made when `timersAllowed` admits it, `timers` agrees with the live
    timers, and every timer runs its callback at each expiry. -/
theorem timers_agree (h : Reachable timerStep (fun s act => timersAllowed s act = true) TimersInit s) :
    TimersAgree s := by
  refine TimerInv.agree (h.invariant (I := TimerInv) (fun s hinit => timerInv_init hinit) ?_)
  exact fun s act s' hinv hok hs => timerInv_step hinv hok hs

def ioCallback : List TimerAct :=
  [.hioGet 0, .hioAdd 0 true 1, .run, .processEvents 100 0 0, .mark 0, .polled 0 0, .visit, .visit, .visit, .visit,
    .visit, .visit]

def ioReturn : List TimerAct := [.ret, .visit, .visit, .visit, .visit, .visit, .visit]

/-- A timer that expires twice is set by a functor that was queued before `run`; its first callback sets
    another timer. -/
def setInLoop : List TimerAct :=
  [.setTimerInLoop true 10 2 7 0 0] ++ ioCallback ++ [.onCustomEvent 0 1] ++ ioReturn ++
    [.processEvents 100 20000 0, .expire 1 0, .timersDone, .timersDone, .visit, .setTimer 10 1 8 20000 2, .ret] ++
    List.replicate 11 .visit

/-- After the run of `setInLoop` both timers are live, and the first one has run once. -/
theorem timers_agree_set_in_loop :
    ∃ s, runFrom (guarded timerStep fun s act => timersAllowed s act = true) {} setInLoop = some s ∧
      s.hloop.phase = .idle ∧ s.left 7 = some 1 ∧ s.left 8 = some 1 ∧ (s.objects 0).ran = 1 ∧ TimersAgree s := by
  refine exists_run rfl fun s hs => ⟨?_, ?_, ?_, ?_, timers_agree (Reachable.runGuarded _ (.start ⟨0, rfl⟩) hs)⟩
  all_goals exact Option.some.inj hs ▸ rfl

def setBeforeRun : List TimerAct :=
  [.setTimer 10 1 7 0 1, .hioGet 0, .hioAdd 0 true 1, .run, .processEvents 100 0 0, .mark 0, .polled 0 0, .timersDone,
    .timersDone, .visit, .visit, .visit, .visit, .visit, .visit, .onCustomEvent 0 0]

/-- `setTimer` before `run` queues the `killTimer` that it calls, which then deletes the timer that has just
    been set: the ID is neither killed nor exhausted, and has no entry. -/
theorem early_timer_killed :
    ∃ s, runFrom timerStep {} setBeforeRun = some s ∧ s.left 7 = some 1 ∧ s.timers 7 = none ∧ s.hloop.timers = [] ∧
      ¬ TimersAgree s := by
  refine exists_run (by decide +kernel) fun s hs => ?_
  obtain ⟨hleft, htimers, hheap⟩ : s.left 7 = some 1 ∧ s.timers 7 = none ∧ s.hloop.timers = [] := of_run hs
    (by decide +kernel)
  refine ⟨hleft, htimers, hheap, fun h => ?_⟩
  obtain ⟨o, ev, ho, -⟩ := h.entry 7 1 hleft
  simp [htimers] at ho

end HvVerified.Evpp
