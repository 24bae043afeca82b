import Mathlib.Data.Finset.Max
import HvVerified.Event.Proofs.CountersProofs

/-!
# Proofs: the order in which timers fire

`__hloop_process_timers` takes the timers that are due from the heap, the earliest deadline first, and
`EVENT_PENDING` puts each of them in front of its pending list. The list is then visited from the front,
so that the callbacks of one priority are called in the reverse order: the latest deadline first.
-/

namespace HvVerified.Event

open Lib Function List

variable {s s' : Hloop} {limit now : Nat} {p : Fin heventPrioritySize} {l : List Nat} {timer : Hevent}

structure NonePending (s : Hloop) : Prop where
  npendings : s.npendings = 0
  lists : ∀ i, s.pendings i = none
  flags : ∀ a ev, s.mem a = some ev → ev.pending = false

structure DueTimer (s : Hloop) (limit t : Nat) (timer : Hevent) : Prop where
  heap : t ∈ s.timers
  object : s.mem t = some timer
  due : timer.nextTimeout ≤ limit

def Hloop.hasCb (s : Hloop) (x : Nat) : Bool := (s.mem x).any Hevent.cb

/-- The steps of `hloop_process_timers` and of the `hloop_process_pendings` that follows it. -/
def LoopAct.ofTimers : LoopAct → Bool
  | .expire _ _ | .timersDone | .call _ | .hloopStop | .visit | .ret => true
  | _ => false

/-- Whatever the callbacks do: they are called in the order of the deadlines that their timers had when
    `hloop_process_timers` started, in the state `s`. -/
def FiresInOrder (s : Hloop) : Prop :=
  ∀ acts s', Steps loopStep Always s acts s' → (∀ act ∈ acts, act.ofTimers) →
    s'.phase.inPass → (s'.called.reverse.map s.nextTimeout).Pairwise (· ≤ ·)

def PassReaches (s s' : Hloop) : Prop :=
  ∃ acts, Steps loopStep Always s acts s' ∧ ∀ act ∈ acts, act.ofTimers

theorem PassReaches.refl (s : Hloop) : PassReaches s s := ⟨[], .nil, by simp⟩

theorem PassReaches.cons {s₁ : Hloop} {a : LoopAct} (hs : loopStep s a = some s₁) (hact : a.ofTimers)
    (h : PassReaches s₁ s') : PassReaches s s' := by
  obtain ⟨acts, hrun, hacts⟩ := h
  exact ⟨a :: acts, .cons trivial hs hrun, forall_mem_cons.2 ⟨hact, hacts⟩⟩

/-! ## One timer -/

theorem lt_advanceTimeout {step : Nat} (hstep : 0 < step) :
    ∀ {fuel next : Nat}, limit < next + fuel → limit < advanceTimeout step limit fuel next := by
  intro fuel
  induction fuel with
  | zero => exact fun h => h
  | succ fuel ih =>
    intro next h
    rw [advanceTimeout]
    split_ifs with hle
    · exact ih (by omega)
    · omega

theorem processTimer_spec (limit t cron : Nat) (htype : timer.eventType = .timeout)
    (hd : timer.destroy = false) (hp : timer.pending = false) (hpos : 0 < timer.timeout) :
    ∃ timer' timers ntimers, processTimer s t timer limit cron =
        { s with
          mem := update s.mem t (some timer')
          timers, ntimers
          npendings := s.npendings + 1
          pendings := update s.pendings timer.priority (some t) } ∧
      timer'.pending ∧ timer'.pendingNext = s.pendings timer.priority ∧
      timer'.eventType = .timeout ∧ timer'.active = timer.active ∧ timer'.cb = timer.cb ∧
      timer'.timeout = timer.timeout ∧ timer'.repeats = countDown timer.repeats ∧
      (timers = s.timers.erase t ∧ timer'.destroy ∧ timer'.repeats = 0 ∨
        timers = s.timers ∧ timer'.destroy = false ∧ timer'.repeats ≠ 0 ∧ limit < timer'.nextTimeout) := by
  have hunlink : ∀ timer' : Hevent, timer'.eventType = .timeout → timer'.destroy = false →
      htimerUnlink s t timer' = { s with timers := s.timers.erase t, ntimers := s.ntimers - 1 } := by
    intro timer' htype' hd'
    rw [htimerUnlink, if_neg (by simp [hd']), htype']
  unfold processTimer
  dsimp only
  split_ifs with hz
  · rw [hunlink { timer with repeats := countDown timer.repeats } htype hd, eventPending, if_neg (by simp [hp])]
    exact ⟨_, _, _, rfl, rfl, rfl, htype, rfl, rfl, rfl, rfl, .inl ⟨rfl, rfl, hz⟩⟩
  · rw [eventPending, if_neg (by simp [hp])]
    refine ⟨_, _, _, rfl, rfl, rfl, htype, rfl, rfl, rfl, rfl, .inr ⟨rfl, hd, hz, ?_⟩⟩
    rw [htype]
    exact lt_advanceTimeout (by omega) (by omega)

/-! ## Collecting the timers -/

/-- In `hloop_process_timers`, with the timers `l` collected, the last one first; `s₀` is the state in which
    it started. -/
structure Collected (s₀ s : Hloop) (p : Fin heventPrioritySize) (limit now : Nat) (l : List Nat) : Prop where
  registered : Registered s
  exact : ∃ n, Exact s n
  chain : IsChain s.next (s.pendings p) l
  others : ∀ i : Nat, i ≠ p → s.pendings i = none
  npendings : s.npendings = l.length
  sorted : l.Pairwise fun x y => s₀.nextTimeout y ≤ s₀.nextTimeout x
  waiting : ∀ t timer, DueTimer s limit t timer →
    t ∉ l ∧ DueTimer s₀ limit t timer ∧ timer.pending = false ∧ timer.priority = p ∧
      ∀ x ∈ l, s₀.nextTimeout x ≤ timer.nextTimeout
  ready : ∀ x ∈ l, ∃ timer₀ timer, DueTimer s₀ limit x timer₀ ∧ s.mem x = some timer ∧
    timer.pending ∧ timer.active ∧ timer.cb = timer₀.cb
  every : ∀ t timer, DueTimer s₀ limit t timer → t ∈ l ∨ DueTimer s limit t timer
  flags : ∀ x ev, s.mem x = some ev → ev.pending → ev.eventType = .timeout ∧ ev.cb = s₀.hasCb x
  periods : ∀ t ∈ s.realtimers, now < s.nextTimeout t

theorem nextTimeout_eq {t : Nat} (h : s.mem t = some timer) : s.nextTimeout t = timer.nextTimeout := by
  rw [Hloop.nextTimeout, h]

theorem loopStep_expire {t : Nat} (cron : Nat) (hphase : s.phase = .timers false limit now)
    (hdue : DueTimer s limit t timer) (hmin : ∀ u ∈ s.timers, timer.nextTimeout ≤ s.nextTimeout u) :
    loopStep s (.expire t cron) = some (processTimer s t timer limit cron) := by
  have hisDue : s.isDue false limit t := by
    simp [Hloop.isDue, Hloop.heap, nextTimeout_eq hdue.object, hdue.heap, hdue.due]
    exact hmin
  simp [loopStep, hphase, hisDue, hdue.object]

section

variable {s₀ : Hloop} {t cron : Nat} {timer : Hevent}

theorem Collected.timeout (h : Collected s₀ s p limit now l) (hdue : DueTimer s limit t timer) :
    timer.eventType = .timeout ∧ timer.destroy = false ∧ timer.active ∧ 0 < timer.timeout := by
  obtain ⟨ev, hev, htype, hd⟩ := h.registered.timers.live t hdue.heap
  cases hdue.object.symm.trans hev
  obtain ⟨n, hexact⟩ := h.exact
  have hk := hexact.kept t timer hdue.object
  exact ⟨htype, hd, hk.active (by simp [htype]) hd, hk.positive htype⟩

theorem collected_expire (cron : Nat) (h : Collected s₀ s p limit now l) (hphase : s.phase = .timers false limit now)
    (hdue : DueTimer s limit t timer) (hmin : ∀ u ∈ s.timers, timer.nextTimeout ≤ s.nextTimeout u) :
    Collected s₀ (processTimer s t timer limit cron) p limit now (t :: l) := by
  obtain ⟨htype, hd, hactive, hpos⟩ := h.timeout hdue
  obtain ⟨hnot, hdue₀, hp, hprio, hle⟩ := h.waiting t timer hdue
  have hreg := registered_step h.registered (loopStep_expire cron hphase hdue hmin)
  have hexact : ∃ n, Exact (processTimer s t timer limit cron) n := by
    obtain ⟨n, hn⟩ := h.exact
    exact ⟨_, exact_step h.registered hn (loopStep_expire cron hphase hdue hmin)⟩
  obtain ⟨timer', timers, ntimers, heq, hp', hnext, htype', hactive', hcb, -, -, hcases⟩ :=
    processTimer_spec (s := s) limit t cron htype hd hp hpos
  have htimers : timers = s.timers.erase t ∨ timers = s.timers ∧ limit < timer'.nextTimeout :=
    hcases.imp (fun h => h.1) fun h => ⟨h.1, h.2.2.2⟩
  rw [hprio] at heq hnext
  rw [heq] at hreg hexact ⊢
  have hdeadline : s₀.nextTimeout t = timer.nextTimeout := nextTimeout_eq hdue₀.object
  have hother : ∀ {x}, x ≠ t → update s.mem t (some timer') x = s.mem x :=
    fun hx => update_of_ne hx _ _
  have hne : ∀ {x}, x ∈ l → x ≠ t := by
    rintro x hx rfl
    exact hnot hx
  have hsub : ∀ u, u ∈ timers → u ∈ s.timers := by
    intro u hu
    rcases htimers with rfl | ⟨rfl, -⟩
    · exact mem_of_mem_erase hu
    · exact hu
  refine ⟨hreg, hexact, ?_, fun i hi => ?_, ?_, ?_, fun u timerU hu => ?_, fun x hx => ?_, fun u timerU hu => ?_,
    fun x ev hev hpend => ?_, fun u hu => ?_⟩
  · refine ⟨update_self _ _ _, s.pendings p, ?_, h.chain.congr fun x hx => ?_⟩
    · simp [Hloop.next, hnext]
    · exact congrArg (Option.map Hevent.pendingNext) (hother (hne hx))
  · exact (update_of_ne hi _ _).trans (h.others i hi)
  · show s.npendings + 1 = ((t :: l).length : Int)
    rw [h.npendings, length_cons]
    omega
  · refine pairwise_cons.2 ⟨fun x hx => ?_, h.sorted⟩
    rw [hdeadline]
    exact hle x hx
  · -- the timer itself has left the heap, or its deadline is in the future
    have hut : u ≠ t := by
      rintro rfl
      have hobject : update s.mem u (some timer') u = some timerU := hu.object
      rw [update_self] at hobject
      rcases htimers with rfl | ⟨-, hlt⟩
      · exact h.registered.timers.notMem_erase hu.heap
      · rw [Option.some.inj hobject] at hlt
        have := hu.due
        omega
    have hold : DueTimer s limit u timerU := ⟨hsub u hu.heap, (hother hut).symm.trans hu.object, hu.due⟩
    obtain ⟨hnotU, hdueU, hpU, hprioU, hleU⟩ := h.waiting u timerU hold
    refine ⟨?_, hdueU, hpU, hprioU, fun x hx => ?_⟩
    · rw [mem_cons]
      exact not_or.2 ⟨hut, hnotU⟩
    · rcases mem_cons.1 hx with rfl | hx
      · rw [hdeadline, ← nextTimeout_eq hold.object]
        exact hmin u hold.heap
      · exact hleU x hx
  · rcases mem_cons.1 hx with rfl | hx
    · exact ⟨timer, timer', hdue₀, update_self _ _ _, hp', hactive'.trans hactive, hcb⟩
    · obtain ⟨timer₀, timerX, hdueX, hmemX, hrest⟩ := h.ready x hx
      exact ⟨timer₀, timerX, hdueX, (hother (hne hx)).trans hmemX, hrest⟩
  · by_cases hut : u = t
    · subst hut
      exact .inl mem_cons_self
    · rcases h.every u timerU hu with hl | hold
      · exact .inl (mem_cons_of_mem _ hl)
      · refine .inr ⟨?_, (hother hut).trans hold.object, hold.due⟩
        rcases htimers with rfl | ⟨rfl, -⟩
        · exact (mem_erase_of_ne hut).2 hold.heap
        · exact hold.heap
  · by_cases hxt : x = t
    · subst hxt
      have hobject : update s.mem x (some timer') x = some ev := hev
      rw [update_self] at hobject
      cases hobject
      exact ⟨htype', by simp [hcb, Hloop.hasCb, hdue₀.object]⟩
    · exact h.flags x ev ((hother hxt).symm.trans hev) hpend
  · have hut : u ≠ t := by
      rintro rfl
      exact h.registered.realtimers.notMem (by simp [hdue.object, Hevent.liveAs, htype]) hu
    have hsame : Hloop.nextTimeout { s with
        mem := update s.mem t (some timer')
        timers, ntimers
        npendings := s.npendings + 1
        pendings := update s.pendings p (some t) } u = s.nextTimeout u := by
      unfold Hloop.nextTimeout
      dsimp only
      rw [hother hut]
    rw [hsame]
    exact h.periods u hu

theorem collected_all (hphase : s.phase = .timers false limit now) (h : Collected s₀ s p limit now l) :
    ∃ s' l', PassReaches s s' ∧ s'.phase = .timers false limit now ∧ Collected s₀ s' p limit now l' ∧
      ∀ t timer, ¬ DueTimer s' limit t timer := by
  -- the number of timers that have not been collected decreases
  generalize hk : (s₀.timers.toFinset \ l.toFinset).card = k
  induction k using Nat.strong_induction_on generalizing s l with
  | _ k ih =>
    by_cases hnone : ∀ t timer, ¬ DueTimer s limit t timer
    · exact ⟨s, l, .refl s, hphase, h, hnone⟩
    push Not at hnone
    obtain ⟨u, timerU, hu⟩ := hnone
    obtain ⟨t, ht, hmin⟩ := s.timers.toFinset.exists_min_image s.nextTimeout ⟨u, mem_toFinset.2 hu.heap⟩
    have ht : t ∈ s.timers := mem_toFinset.1 ht
    obtain ⟨timer, hmem, -⟩ := h.registered.timers.live t ht
    have hle := hmin u (mem_toFinset.2 hu.heap)
    rw [nextTimeout_eq hmem, nextTimeout_eq hu.object] at hle
    have hdue : DueTimer s limit t timer := ⟨ht, hmem, hle.trans hu.due⟩
    have hmin' : ∀ u ∈ s.timers, timer.nextTimeout ≤ s.nextTimeout u := by
      intro u hu
      rw [← nextTimeout_eq hmem]
      exact hmin u (mem_toFinset.2 hu)
    have hstep := loopStep_expire 0 hphase hdue hmin'
    have h' := collected_expire 0 h hphase hdue hmin'
    obtain ⟨hnot, hdue₀, -⟩ := h.waiting t timer hdue
    have hless : (s₀.timers.toFinset \ (t :: l).toFinset).card < k := by
      rw [← hk]
      refine Finset.card_lt_card ⟨fun x hx => ?_, fun hsub => ?_⟩
      · simp only [toFinset_cons, Finset.mem_sdiff, Finset.mem_insert, not_or] at hx ⊢
        exact ⟨hx.1, hx.2.2⟩
      · have hin : t ∈ s₀.timers.toFinset \ l.toFinset :=
          Finset.mem_sdiff.2 ⟨mem_toFinset.2 hdue₀.heap, fun hl => hnot (mem_toFinset.1 hl)⟩
        simpa using hsub hin
    obtain ⟨s', l', hreach, hphase', hall⟩ := ih _ hless (processTimer_phase.trans hphase) h' rfl
    exact ⟨s', l', .cons hstep rfl hreach, hphase', hall⟩

theorem Collected.status (h : Collected s₀ s p limit now l) (stopped : Bool) (phase : LoopPhase)
    (hphase : ∀ rest, phase ≠ .idles rest) : Collected s₀ { s with stopped, phase } p limit now l := by
  have hdue : ∀ t timer, DueTimer { s with stopped, phase } limit t timer ↔ DueTimer s limit t timer :=
    fun t timer => ⟨fun hd => ⟨hd.heap, hd.object, hd.due⟩, fun hd => ⟨hd.heap, hd.object, hd.due⟩⟩
  have hreg := h.registered
  obtain ⟨n, hn⟩ := h.exact
  refine ⟨⟨hreg.timers, hreg.realtimers, hreg.idles, fun rest hr => absurd hr (hphase rest)⟩,
    ⟨n, exact_of_effects hn (effects_same (a := 0) rfl)⟩, h.chain, h.others, h.npendings, h.sorted, ?_, h.ready, ?_,
    h.flags, h.periods⟩
  · exact fun t timer hd => h.waiting t timer ((hdue t timer).1 hd)
  · exact fun t timer hd => (h.every t timer hd).imp id (hdue t timer).2

end

/-! ## Visiting the list -/

/-- What a change of an event object keeps while the lists are visited: the link, and what decides whether
    the callback is called, if it is still pending. -/
structure Follows (ev ev' : Hevent) : Prop where
  next : ev'.pendingNext = ev.pendingNext
  pending : ev'.pending → ev.pending
  type : ev'.eventType = ev.eventType
  cb : ev.eventType = .timeout → ev'.cb = ev.cb

/-- The event objects are the old ones, or new ones that are not linked. -/
def LinksKept (s s' : Hloop) : Prop :=
  ∀ x ev', s'.mem x = some ev' →
    ev'.pendingNext = none ∧ ev'.pending = false ∨ ∃ ev, s.mem x = some ev ∧ Follows ev ev'

theorem linksKept_of_mem (hmem : s'.mem = s.mem) : LinksKept s s' := by
  intro x ev' hev'
  rw [hmem] at hev'
  exact .inr ⟨ev', hev', rfl, id, rfl, fun _ => rfl⟩

theorem linksKept_update {a : Nat} {new : Option Hevent} (hmem : s'.mem = update s.mem a new)
    (hnew : ∀ ev', new = some ev' →
      ev'.pendingNext = none ∧ ev'.pending = false ∨ ∃ ev, s.mem a = some ev ∧ Follows ev ev') :
    LinksKept s s' := by
  intro x ev' hev'
  rw [hmem] at hev'
  by_cases hx : x = a
  · subst hx
    rw [update_self] at hev'
    exact hnew ev' hev'
  · rw [update_of_ne hx] at hev'
    exact .inr ⟨ev', hev', rfl, id, rfl, fun _ => rfl⟩

theorem linksKept_callOp {op : LoopOp} (hs : callOp s op = some s') : LinksKept s s' := by
  obtain ⟨a, -, hc⟩ := callOp_change hs
  obtain ⟨b, heffects⟩ := callOp_effects (n := 0) hs
  have hself : ∀ {ev'}, s'.mem = update s.mem a (some ev') → Replaces (s.mem a) ev' := by
    intro ev' hmem
    exact heffects.object (by rw [hmem, update_self])
  cases hc with
  | same hmem _ _ => exact linksKept_of_mem hmem
  | kept ev ev' old hmem halike _ _ =>
    refine linksKept_update hmem ?_
    rintro _ ⟨⟩
    exact .inr ⟨ev, old, halike.next, fun hp => halike.pending.symm.trans hp, halike.type, (hself hmem).cb ev old⟩
  | unpended ev ev' old hmem htype hnext was _ _ _ _ =>
    refine linksKept_update hmem ?_
    rintro _ ⟨⟩
    exact .inr ⟨ev, old, hnext, fun _ => was, htype, (hself hmem).cb ev old⟩
  | alloc ev' old hmem hp _ _ =>
    refine linksKept_update hmem ?_
    rintro _ ⟨⟩
    exact .inl ⟨(hself hmem).next old, hp⟩
  | freed _ _ hmem _ _ _ _ _ => exact linksKept_update hmem (by simp)

/-- In the pass over the lists, of which only the list `p` had events, the events `l`. An event that a
    callback frees breaks the list off there; the order stays. -/
structure Firing (s₀ : Hloop) (p : Fin heventPrioritySize) (l : List Nat) (s : Hloop) (i : Nat)
    (cur : Option Nat) : Prop where
  links : ∀ pre x post ev, l = pre ++ x :: post → s.mem x = some ev →
    ev.pendingNext = none ∨ ev.pendingNext = post.head?
  rest : ∃ r, r <:+ l ∧ (cur = none ∨ i = p ∧ cur = r.head?) ∧ (s.called.reverse ++ r).Sublist l
  later : ∀ j < i, s.pendings j = none ∨ j = p ∧ s.pendings j = l.head? ∧ s.called = []
  flags : ∀ x ev, s.mem x = some ev → ev.pending → ev.eventType = .timeout ∧ ev.cb = s₀.hasCb x
  called : ∀ x ∈ s.called, s₀.hasCb x

section

variable {s₀ : Hloop} {i : Nat} {cur : Option Nat}

theorem Firing.sublist (h : Firing s₀ p l s i cur) : s.called.reverse.Sublist l := by
  obtain ⟨r, -, -, hsub⟩ := h.rest
  exact (sublist_append_left _ _).trans hsub

theorem LinksKept.links (hkept : LinksKept s s') (h : ∀ pre x post ev, l = pre ++ x :: post → s.mem x = some ev →
      ev.pendingNext = none ∨ ev.pendingNext = post.head?) :
    ∀ pre x post ev, l = pre ++ x :: post → s'.mem x = some ev →
      ev.pendingNext = none ∨ ev.pendingNext = post.head? := by
  intro pre x post ev' heq hev'
  rcases hkept x ev' hev' with hnew | ⟨ev, hev, hfollows⟩
  · exact .inl hnew.1
  · rw [hfollows.next]
    exact h pre x post ev heq hev

theorem LinksKept.flags (hkept : LinksKept s s')
    (h : ∀ x ev, s.mem x = some ev → ev.pending → ev.eventType = .timeout ∧ ev.cb = s₀.hasCb x) :
    ∀ x ev, s'.mem x = some ev → ev.pending → ev.eventType = .timeout ∧ ev.cb = s₀.hasCb x := by
  intro x ev' hev' hp
  rcases hkept x ev' hev' with ⟨-, hnot⟩ | ⟨ev, hev, hfollows⟩
  · simp [hnot] at hp
  · obtain ⟨htype, hcb⟩ := h x ev hev (hfollows.pending hp)
    exact ⟨hfollows.type.trans htype, (hfollows.cb htype).trans hcb⟩

theorem Firing.congr (h : Firing s₀ p l s i cur) (hkept : LinksKept s s') (hcalled : s'.called = s.called)
    (hpendings : s'.pendings = s.pendings) : Firing s₀ p l s' i cur := by
  refine ⟨hkept.links h.links, ?_, ?_, hkept.flags h.flags, ?_⟩
  · rw [hcalled]
    exact h.rest
  · rw [hcalled, hpendings]
    exact h.later
  · rw [hcalled]
    exact h.called

theorem links_of_chain {q : Option Nat} (h : IsChain s.next q l) :
    ∀ pre x post ev, l = pre ++ x :: post → s.mem x = some ev → ev.pendingNext = post.head? := by
  rintro pre x post ev rfl hev
  obtain ⟨-, q', hq', hchain⟩ := h.suffix
  have hnext : ev.pendingNext = q' := by
    rw [Hloop.next, hev] at hq'
    exact Option.some.inj hq'
  rw [hnext]
  cases post with
  | nil => exact hchain
  | cons y post => exact hchain.1

theorem firing_start (h : Collected s₀ s p limit now l) :
    Firing s₀ p l { s with phase := .pass 10 (s.pendings 10), called := [] } 10 (s.pendings 10) := by
  have hhead : s.pendings p = l.head? := by
    cases l with
    | nil => exact h.chain
    | cons x l => exact h.chain.1
  have hlist : ∀ j, s.pendings j = none ∨ j = p ∧ s.pendings j = l.head? := by
    intro j
    by_cases hj : j = p
    · exact .inr ⟨hj, by rw [hj, hhead]⟩
    · exact .inl (h.others j hj)
  refine ⟨fun pre x post ev heq hev => .inr (links_of_chain h.chain pre x post ev heq hev), ?_, ?_, h.flags,
    by simp⟩
  · refine ⟨l, suffix_refl l, (hlist 10).imp id fun hp => ⟨hp.1, hp.2⟩, ?_⟩
    simp
  · exact fun j _ => (hlist j).imp id fun hp => ⟨hp.1, hp.2, rfl⟩

theorem firing_finishList (h : Firing s₀ p l s (i + 1) none) :
    Firing s₀ p l (finishList s (i + 1)) i (s.pendings i) := by
  have hpend : ∀ j < i + 1, (finishList s (i + 1)).pendings j = s.pendings j := by
    intro j hj
    exact update_of_ne (by omega) _ _
  refine ⟨h.links, ?_, fun j hj => ?_, h.flags, h.called⟩
  · rcases h.later i (by omega) with hnone | ⟨hip, hhead, hcalled⟩
    · refine ⟨[], nil_suffix, .inl hnone, ?_⟩
      rw [append_nil]
      exact h.sublist
    · refine ⟨l, suffix_refl l, .inr ⟨hip, hhead⟩, ?_⟩
      show (s.called.reverse ++ l).Sublist l
      simp [hcalled]
  · rw [hpend j (by omega)]
    exact h.later j (by omega)

theorem Firing.next {x : Nat} {ev : Hevent} (h : Firing s₀ p l s i (some x)) (hev : s.mem x = some ev) :
    i = p ∧ ∃ post, (x :: post) <:+ l ∧ (s.called.reverse ++ x :: post).Sublist l ∧
      (ev.pendingNext = none ∨ ev.pendingNext = post.head?) := by
  obtain ⟨r, hsuf, hcur, hsub⟩ := h.rest
  obtain ⟨hip, hhead⟩ := hcur.resolve_left (by simp)
  cases r with
  | nil => simp at hhead
  | cons y post =>
    cases hhead
    obtain ⟨pre, rfl⟩ := hsuf
    exact ⟨hip, post, ⟨pre, rfl⟩, hsub, h.links pre x post ev rfl hev⟩

theorem firing_next {x : Nat} {ev : Hevent} (h : Firing s₀ p l s i (some x)) (hev : s.mem x = some ev)
    (hkept : LinksKept s s') (hpendings : s'.pendings = s.pendings)
    (hcalled : s'.called = s.called ∨ s'.called = x :: s.called ∧ s₀.hasCb x) :
    Firing s₀ p l s' i ev.pendingNext := by
  obtain ⟨hip, post, hsuf, hsub, hnext⟩ := h.next hev
  have hpost : post <:+ l := (suffix_cons x post).trans hsuf
  refine ⟨hkept.links h.links, ⟨post, hpost, hnext.imp id fun hn => ⟨hip, hn⟩, ?_⟩, fun j hj => ?_,
    hkept.flags h.flags, fun y hy => ?_⟩
  · rcases hcalled with hc | ⟨hc, -⟩
    · rw [hc]
      exact ((sublist_cons_self x post).append_left _).trans hsub
    · rw [hc, reverse_cons, append_assoc]
      exact hsub
  · rw [hpendings]
    rcases h.later j hj with hnone | ⟨hjp, -⟩
    · exact .inl hnone
    · omega
  · rcases hcalled with hc | ⟨hc, hcb⟩
    · exact h.called y (hc ▸ hy)
    · rw [hc] at hy
      rcases mem_cons.1 hy with rfl | hy
      · exact hcb
      · exact h.called y hy

end

/-! ## Runs -/

/-- The events `l` are timers that were due in `s₀`, the latest deadline first. -/
structure Ordered (s₀ : Hloop) (limit : Nat) (l : List Nat) : Prop where
  sorted : l.Pairwise fun x y => s₀.nextTimeout y ≤ s₀.nextTimeout x
  due : ∀ x ∈ l, ∃ timer, DueTimer s₀ limit x timer

theorem Collected.ordered {s₀ : Hloop} (h : Collected s₀ s p limit now l) : Ordered s₀ limit l := by
  refine ⟨h.sorted, fun x hx => ?_⟩
  obtain ⟨timer₀, timer, hdue, -⟩ := h.ready x hx
  exact ⟨timer₀, hdue⟩

/-- The states of `hloop_process_timers`, started in `s₀`, and of the pass that follows. -/
inductive TimerPass (s₀ : Hloop) (p : Fin heventPrioritySize) (limit now : Nat) (s : Hloop) : Prop where
  | collecting {l : List Nat} (hphase : s.phase = .timers false limit now) (h : Collected s₀ s p limit now l)
  | periods {l : List Nat} (hphase : s.phase = .timers true now now) (h : Collected s₀ s p limit now l)
  | visiting {l : List Nat} {i : Nat} {cur : Option Nat} (hphase : s.phase = .pass i cur)
      (hl : Ordered s₀ limit l) (h : Firing s₀ p l s i cur)
  | calling {l : List Nat} {i cur : Nat} {next : Option Nat} (hphase : s.phase = .callback i cur next)
      (hl : Ordered s₀ limit l) (h : Firing s₀ p l s i next)
  | afterwards (hphase : s.phase = .idle ∨ (∃ rest, s.phase = .idles rest) ∨ s.phase = .undefined)

section

variable {s₀ : Hloop} {act : LoopAct}

theorem timerPass_processIdles (h : Collected s₀ s p limit now l) : TimerPass s₀ p limit now (processIdles s) := by
  unfold processIdles processPendings
  split_ifs
  · exact .afterwards (.inr (.inl ⟨_, rfl⟩))
  · exact .afterwards (.inl rfl)
  · exact .visiting rfl h.ordered (firing_start h)

theorem timerPass_collecting (hphase : s.phase = .timers false limit now) (h : Collected s₀ s p limit now l)
    (hact : act.ofTimers) (hs : loopStep s act = some s') : TimerPass s₀ p limit now s' := by
  cases act <;> simp only [LoopAct.ofTimers, Bool.false_eq_true] at hact <;>
    simp only [loopStep, hphase, reduceCtorEq, Bool.false_eq_true, if_false] at hs
  case hloopStop =>
    cases hs
    exact .collecting rfl (h.status true (.timers false limit now) (by simp))
  case expire t cron =>
    split_ifs at hs with hdue
    simp only [Hloop.isDue, Hloop.heap, Bool.and_eq_true, contains_iff_mem, decide_eq_true_eq,
      all_eq_true, Bool.false_eq_true, if_false] at hdue
    obtain ⟨⟨hheap, hle⟩, hmin⟩ := hdue
    obtain ⟨timer, hmem, -⟩ := h.registered.timers.live t hheap
    rw [hmem] at hs
    cases hs
    rw [nextTimeout_eq hmem] at hle hmin
    exact .collecting (processTimer_phase.trans hphase) (collected_expire _ h hphase ⟨hheap, hmem, hle⟩ hmin)
  case timersDone =>
    split_ifs at hs
    cases hs
    exact .periods rfl (h.status s.stopped (.timers true now now) (by simp))

theorem timerPass_periods (hphase : s.phase = .timers true now now) (h : Collected s₀ s p limit now l)
    (hact : act.ofTimers) (hs : loopStep s act = some s') : TimerPass s₀ p limit now s' := by
  cases act <;> simp only [LoopAct.ofTimers, Bool.false_eq_true] at hact <;>
    simp only [loopStep, hphase, reduceCtorEq, if_true] at hs
  case hloopStop =>
    cases hs
    exact .periods rfl (h.status true (.timers true now now) (by simp))
  case expire t cron =>
    -- no period is due
    split_ifs at hs with hdue
    simp only [Hloop.isDue, Hloop.heap, Bool.and_eq_true, contains_iff_mem, decide_eq_true_eq,
      if_true] at hdue
    have := h.periods t hdue.1.1
    omega
  case timersDone =>
    split_ifs at hs
    cases hs
    exact timerPass_processIdles h

theorem finishEvent_firing {i cur : Nat} {next : Option Nat}
    (hl : Ordered s₀ limit l) (h : Firing s₀ p l s i next) :
    TimerPass s₀ p limit now (finishEvent s i cur next) := by
  unfold finishEvent eventDel
  cases hev : s.mem cur with
  | none => exact .afterwards (.inr (.inr rfl))
  | some ev =>
    dsimp only
    split_ifs with hd hp
    · cases hp
    · exact .visiting rfl hl (h.congr (linksKept_update rfl (by simp)) rfl rfl)
    · refine .visiting rfl hl (h.congr (linksKept_update (a := cur) rfl ?_) rfl rfl)
      rintro _ ⟨⟩
      exact .inr ⟨ev, hev, rfl, nofun, rfl, fun _ => rfl⟩

theorem timerPass_visit {i : Nat} {cur : Option Nat} (hphase : s.phase = .pass i cur)
    (hl : Ordered s₀ limit l) (h : Firing s₀ p l s i cur)
    (hs : loopStep s .visit = some s') : TimerPass s₀ p limit now s' := by
  cases cur with
  | none =>
    simp only [loopStep, hphase] at hs
    cases hs
    cases i with
    | zero => exact .afterwards (.inl rfl)
    | succ i => exact .visiting rfl hl (firing_finishList h)
  | some x =>
    simp only [loopStep, hphase] at hs
    cases hs
    unfold visitEvent
    cases hev : s.mem x with
    | none => exact .afterwards (.inr (.inr rfl))
    | some ev =>
      dsimp only
      split_ifs with hp hcb
      · have hcb : s₀.hasCb x := by
          rw [← (h.flags x ev hev hp).2]
          exact (Bool.and_eq_true_iff.1 hcb).2
        exact .calling rfl hl (firing_next h hev (linksKept_of_mem rfl) rfl (.inr ⟨rfl, hcb⟩))
      · exact finishEvent_firing hl (firing_next h hev (linksKept_of_mem rfl) rfl (.inl rfl))
      · exact .visiting rfl hl (firing_next h hev (linksKept_of_mem rfl) rfl (.inl rfl))

theorem timerPass_step (h : TimerPass s₀ p limit now s) (hact : act.ofTimers)
    (hs : loopStep s act = some s') : TimerPass s₀ p limit now s' := by
  cases h with
  | collecting hphase h => exact timerPass_collecting hphase h hact hs
  | periods hphase h => exact timerPass_periods hphase h hact hs
  | @visiting l i cur hphase hl h =>
    cases act with
    | visit => exact timerPass_visit hphase hl h hs
    | hloopStop =>
      simp only [loopStep, hphase] at hs
      cases hs
      exact .visiting rfl hl (h.congr (linksKept_of_mem rfl) rfl rfl)
    | _ => simp [LoopAct.ofTimers, loopStep, hphase] at hact hs
  | @calling l i cur next hphase hl h =>
    cases act with
    | call op =>
      simp only [loopStep, hphase] at hs
      obtain ⟨a, hlists, -⟩ := callOp_change hs
      exact .calling (hlists.phase.trans hphase) hl (h.congr (linksKept_callOp hs) hlists.called hlists.pendings)
    | ret =>
      simp only [loopStep, hphase] at hs
      cases hs
      exact finishEvent_firing hl h
    | hloopStop =>
      simp only [loopStep, hphase] at hs
      cases hs
      exact .calling rfl hl (h.congr (linksKept_of_mem rfl) rfl rfl)
    | _ => simp [LoopAct.ofTimers, loopStep, hphase] at hact hs
  | afterwards hphase =>
    refine .afterwards ?_
    cases act with
    | call op =>
      obtain ⟨a, hlists, -⟩ := callOp_change (callOp_of_loopStep hs)
      rw [hlists.phase]
      exact hphase
    | hloopStop =>
      obtain rfl : { s with stopped := true } = s' := by
        rcases hphase with e | ⟨rest, e⟩ | e <;> simpa [loopStep, e] using hs
      exact hphase
    | _ =>
      rcases hphase with e | ⟨rest, e⟩ | e
      all_goals simp [LoopAct.ofTimers, loopStep, e] at hact hs

theorem timerPass_steps {acts : List LoopAct} (hrun : Steps loopStep Always s acts s') :
    TimerPass s₀ p limit now s → (∀ act ∈ acts, act.ofTimers) → TimerPass s₀ p limit now s' := by
  induction hrun with
  | nil => exact fun h _ => h
  | cons _ hs _ ih =>
    intro h hacts
    exact ih (timerPass_step h (hacts _ mem_cons_self) hs) fun act hact =>
      hacts act (mem_cons_of_mem _ hact)

/-- The callbacks that are called are those of timers that were due, in the reverse order of the deadlines. -/
theorem TimerPass.reversed (h : TimerPass s₀ p limit now s) (hin : s.phase.inPass) :
    (s.called.reverse.map s₀.nextTimeout).Pairwise (· ≥ ·) ∧
      ∀ x ∈ s.called, ∃ timer, DueTimer s₀ limit x timer ∧ timer.cb := by
  have hfiring : ∃ l i cur, Ordered s₀ limit l ∧ Firing s₀ p l s i cur := by
    cases h with
    | collecting hphase _ => simp [hphase, LoopPhase.inPass] at hin
    | periods hphase _ => simp [hphase, LoopPhase.inPass] at hin
    | visiting _ hl h => exact ⟨_, _, _, hl, h⟩
    | calling _ hl h => exact ⟨_, _, _, hl, h⟩
    | afterwards hphase => rcases hphase with e | ⟨rest, e⟩ | e <;> simp [e, LoopPhase.inPass] at hin
  obtain ⟨l, i, cur, hl, h⟩ := hfiring
  refine ⟨?_, fun x hx => ?_⟩
  · rw [pairwise_map]
    exact hl.sorted.sublist h.sublist
  · obtain ⟨timer, hdue⟩ := hl.due x (h.sublist.subset (mem_reverse.2 hx))
    have hcb := h.called x hx
    rw [Hloop.hasCb, hdue.object] at hcb
    exact ⟨timer, hdue, hcb⟩

end

/-! ## A pass in which the callbacks do nothing -/

theorem PassReaches.trans {s₁ : Hloop} (h : PassReaches s s₁) (h' : PassReaches s₁ s') : PassReaches s s' := by
  obtain ⟨acts, hrun, hacts⟩ := h
  induction hrun with
  | nil => exact h'
  | cons _ hs _ ih =>
    exact .cons hs (hacts _ mem_cons_self) (ih h' fun act hact => hacts act (mem_cons_of_mem _ hact))

theorem visit_first {i x : Nat} {ev : Hevent} (hphase : s.phase = .pass i (some x)) (hev : s.mem x = some ev)
    (hp : ev.pending) (hactive : ev.active) :
    ∃ s' new, PassReaches s s' ∧ s'.phase = .pass i ev.pendingNext ∧ s'.mem = update s.mem x new ∧
      s.called ⊆ s'.called ∧ (ev.cb → x ∈ s'.called) := by
  have hvisit : loopStep s .visit = some (visitEvent s i x) := by simp [loopStep, hphase]
  by_cases hcb : ev.cb
  · have heq : visitEvent s i x = { s with phase := .callback i x ev.pendingNext, called := x :: s.called } := by
      simp [visitEvent, hev, hp, hactive, hcb]
    rw [heq] at hvisit
    have hfinish := finishEvent_eq i ev.pendingNext
      (s := { s with phase := .callback i x ev.pendingNext, called := x :: s.called }) hev
    refine ⟨_, if ev.destroy then none else some { ev with pending := false },
      .cons hvisit rfl (.cons (a := .ret) rfl rfl (.refl _)), ?_⟩
    rw [hfinish]
    exact ⟨rfl, rfl, subset_cons_self x s.called, fun _ => mem_cons_self⟩
  · have heq : visitEvent s i x = finishEvent s i x ev.pendingNext := by
      simp [visitEvent, hev, hp, hcb]
    rw [heq] at hvisit
    have hfinish := finishEvent_eq i ev.pendingNext hev
    refine ⟨_, if ev.destroy then none else some { ev with pending := false }, .cons hvisit rfl (.refl _), ?_⟩
    rw [hfinish]
    exact ⟨rfl, rfl, fun _ hx => hx, fun h => absurd h hcb⟩

theorem visit_list {i : Nat} : ∀ {l : List Nat} {s : Hloop} {q : Option Nat}, s.phase = .pass i q →
    IsChain s.next q l → (∀ x ∈ l, ∃ ev, s.mem x = some ev ∧ ev.pending ∧ ev.active) →
    ∃ s', PassReaches s s' ∧ s'.phase = .pass i none ∧ s.called ⊆ s'.called ∧
      ∀ x ∈ l, ∀ ev, s.mem x = some ev → ev.cb → x ∈ s'.called := by
  intro l
  induction l with
  | nil =>
    intro s q hphase hchain _
    obtain rfl : q = none := hchain
    exact ⟨s, .refl s, hphase, fun _ hx => hx, by simp⟩
  | cons x l ih =>
    intro s q hphase hchain hready
    have hnot := (nodup_cons.1 hchain.nodup).1
    obtain ⟨rfl, q, hq, hchain⟩ := hchain
    obtain ⟨ev, hev, hp, hactive⟩ := hready x mem_cons_self
    obtain rfl : ev.pendingNext = q := by
      rw [Hloop.next, hev] at hq
      exact Option.some.inj hq
    obtain ⟨s₁, new, hreach, hphase₁, hmem, hcalled, hcb⟩ := visit_first hphase hev hp hactive
    have hother : ∀ y ∈ l, s₁.mem y = s.mem y := by
      intro y hy
      rw [hmem, update_of_ne]
      rintro rfl
      exact hnot hy
    obtain ⟨s', hreach', hphase', hcalled', hall⟩ := ih hphase₁
      (hchain.congr fun y hy => by rw [Hloop.next, Hloop.next, hother y hy])
      (fun y hy => by
        rw [hother y hy]
        exact hready y (mem_cons_of_mem x hy))
    refine ⟨s', hreach.trans hreach', hphase', fun y hy => hcalled' (hcalled hy), fun y hy evy hevy hcby => ?_⟩
    rcases mem_cons.1 hy with rfl | hy
    · cases hev.symm.trans hevy
      exact hcalled' (hcb hcby)
    · exact hall y hy evy ((hother y hy).trans hevy) hcby

theorem visit_empty {j : Nat} (hj : (p : Nat) ≤ j) : ∀ {s : Hloop}, s.phase = .pass j (s.pendings j) →
    (∀ i : Nat, i ≠ p → s.pendings i = none) →
    ∃ s', PassReaches s s' ∧ s'.phase = .pass p (s.pendings p) ∧ s'.mem = s.mem := by
  induction j, hj using Nat.le_induction with
  | base => exact fun {s} hphase _ => ⟨s, .refl s, hphase, rfl⟩
  | succ j hj ih =>
    intro s hphase hnone
    have hvisit : loopStep s .visit = some (finishList s (j + 1)) := by
      simp [loopStep, hphase, hnone (j + 1) (by omega)]
    have hpend : ∀ i : Nat, i ≠ j + 1 → (finishList s (j + 1)).pendings i = s.pendings i :=
      fun i hi => update_of_ne hi _ _
    have hphase' : (finishList s (j + 1)).phase = .pass j ((finishList s (j + 1)).pendings j) := by
      rw [hpend j (by omega)]
      rfl
    obtain ⟨s', hreach, hp, hmem⟩ := ih hphase' fun i hi => by
      by_cases hij : i = j + 1
      · rw [hij]
        exact update_self _ _ _
      · rw [hpend i hij]
        exact hnone i hi
    refine ⟨s', .cons hvisit rfl hreach, ?_, hmem⟩
    rw [hp, hpend p (by omega)]

theorem collected_fire {s₀ : Hloop} (h : Collected s₀ s p limit now l) (hphase : s.phase = .timers false limit now)
    (hnone : ∀ t timer, ¬ DueTimer s limit t timer) (hl : l ≠ []) : ∃ s', PassReaches s s' ∧ s'.phase.inPass ∧
      ∀ t timer, DueTimer s₀ limit t timer → timer.cb → t ∈ s'.called := by
  have htimers : (s.heap false).any (fun t => s.nextTimeout t ≤ limit) = false := by
    rw [any_eq_false]
    intro t ht hle
    obtain ⟨timer, hmem, -⟩ := h.registered.timers.live t ht
    refine hnone t timer ⟨ht, hmem, ?_⟩
    rw [← nextTimeout_eq hmem]
    simpa using hle
  have hperiods : (s.heap true).any (fun t => s.nextTimeout t ≤ now) = false := by
    rw [any_eq_false]
    intro t ht hle
    have := h.periods t ht
    simp only [decide_eq_true_eq] at hle
    omega
  have hnp : s.npendings ≠ 0 := by
    rw [h.npendings]
    have := length_pos_of_ne_nil hl
    omega
  -- no other timer is due, and the lists are visited
  have hdone : loopStep s .timersDone = some { s with phase := .timers true now now } := by
    simp [loopStep, hphase, htimers]
  have hpass : loopStep { s with phase := .timers true now now } .timersDone =
      some { s with phase := .pass 10 (s.pendings 10), called := [] } := by
    have hany : (Hloop.heap { s with phase := .timers true now now } true).any
        (fun t => Hloop.nextTimeout { s with phase := .timers true now now } t ≤ now) = false := hperiods
    simp only [loopStep, hany, Bool.false_eq_true, if_false, if_true]
    unfold processIdles processPendings
    simp [hnp, heventPrioritySize]
  have hp : (p : Nat) ≤ 10 := by
    have : (p : Nat) < 11 := p.isLt
    omega
  obtain ⟨s₁, hreach₁, hphase₁, hmem₁⟩ :=
    visit_empty (s := { s with phase := .pass 10 (s.pendings 10), called := [] }) hp rfl h.others
  obtain ⟨s', hreach', hphase', -, hall⟩ := visit_list hphase₁
    (h.chain.congr fun x _ => by
      unfold Hloop.next
      rw [hmem₁])
    (fun x hx => by
      obtain ⟨timer₀, timer, -, hmem, hpend, hactive, -⟩ := h.ready x hx
      exact ⟨timer, by rw [hmem₁]; exact hmem, hpend, hactive⟩)
  refine ⟨s', .cons hdone rfl (.cons hpass rfl (hreach₁.trans hreach')), by rw [hphase']; rfl, ?_⟩
  intro t timer hdue hcb
  have hin : t ∈ l := (h.every t timer hdue).resolve_right (hnone t timer)
  obtain ⟨timer₀, timer', hdue₀, hmem, -, -, hcb'⟩ := h.ready t hin
  cases hdue.object.symm.trans hdue₀.object
  exact hall t hin timer' (by rw [hmem₁]; exact hmem) (hcb'.trans hcb)

/-! ## When timers fire in order -/

theorem collected_nil (h : Reachable loopStep Always LoopInit s) (hnone : NonePending s)
    (hprio : ∀ t timer, DueTimer s limit t timer → timer.priority = p)
    (hperiod : ∀ t ∈ s.realtimers, now < s.nextTimeout t) : Collected s s p limit now [] := by
  have hinv : Registered s ∧ ∃ n, Exact s n := by
    refine h.invariant (I := fun s => Registered s ∧ ∃ n, Exact s n) ?_ ?_
    · rintro s rfl
      exact ⟨registered_init rfl, 0, fun a ev hev => (by cases hev), rfl, rfl, numbers_empty, numbers_empty⟩
    · rintro s act s' ⟨hreg, n, hn⟩ - hs
      exact ⟨registered_step hreg hs, _, exact_step hreg hn hs⟩
  refine ⟨hinv.1, hinv.2, hnone.lists p, fun i _ => hnone.lists i, hnone.npendings, .nil, ?_, by simp, ?_, ?_,
    hperiod⟩
  · exact fun t timer hdue => ⟨by simp, hdue, hnone.flags t timer hdue.object, hprio t timer hdue, by simp⟩
  · exact fun t timer hdue => .inr hdue
  · intro x ev hev hp
    simp [hnone.flags x ev hev] at hp

/-- Timers of one priority that are due in the same pass, with nothing else pending, fire in the order of
    their deadlines if and only if those that have a callback have the same deadline. -/
theorem timers_fire_in_order_iff (h : Reachable loopStep Always LoopInit s)
    (hphase : s.phase = .timers false limit now) (hnone : NonePending s)
    (hprio : ∀ t timer, DueTimer s limit t timer → timer.priority = p)
    (hperiod : ∀ t ∈ s.realtimers, now < s.nextTimeout t) :
    FiresInOrder s ↔ ∀ t timer t' timer', DueTimer s limit t timer → DueTimer s limit t' timer' →
      timer.cb = true → timer'.cb = true → timer.nextTimeout = timer'.nextTimeout := by
  have hstart := collected_nil h hnone hprio hperiod
  refine ⟨fun horder t timer t' timer' hdue hdue' hcb hcb' => ?_, fun hsame acts s' hrun hacts hin => ?_⟩
  · obtain ⟨s₁, l, hreach₁, hphase₁, hcollected, hnone₁⟩ := collected_all hphase hstart
    have hin : t ∈ l := (hcollected.every t timer hdue).resolve_right (hnone₁ t timer)
    obtain ⟨s', hreach, hpass, hall⟩ := collected_fire hcollected hphase₁ hnone₁ (ne_nil_of_mem hin)
    obtain ⟨acts', hrun', hacts'⟩ := hreach₁.trans hreach
    -- in one order by assumption, in the other by construction
    have hup := horder acts' s' hrun' hacts' hpass
    have hdown := ((timerPass_steps hrun' (.collecting hphase hstart) hacts').reversed hpass).1
    have hmem : ∀ u timerU, DueTimer s limit u timerU → timerU.cb →
        timerU.nextTimeout ∈ s'.called.reverse.map s.nextTimeout := by
      intro u timerU hu hcbU
      refine mem_map.2 ⟨u, mem_reverse.2 (hall u timerU hu hcbU), nextTimeout_eq hu.object⟩
    have heq : (s'.called.reverse.map s.nextTimeout).Pairwise (· = ·) :=
      (hup.and hdown).imp fun h => Nat.le_antisymm h.1 h.2
    exact List.Pairwise.forall_of_forall (fun _ _ => rfl) heq (hmem t timer hdue hcb) (hmem t' timer' hdue' hcb')
  · obtain ⟨-, hcalled⟩ := (timerPass_steps hrun (.collecting hphase hstart) hacts).reversed hin
    rw [pairwise_map]
    refine pairwise_of_forall_mem_list fun x hx y hy => ?_
    obtain ⟨timer, hdue, hcb⟩ := hcalled x (mem_reverse.1 hx)
    obtain ⟨timer', hdue', hcb'⟩ := hcalled y (mem_reverse.1 hy)
    rw [nextTimeout_eq hdue.object, nextTimeout_eq hdue'.object]
    exact (hsame x timer y timer' hdue hdue' hcb hcb').le

def twoDue (timeout : Nat) : List LoopAct :=
  [.call (.htimerAdd 0 1 1 true 0), .call (.htimerAdd 1 timeout 1 true 0), .hloopRun, .processEvents 100 0 0,
    .polled 3000 3000]

theorem twoDue_state {timeout : Nat} (h : timeout = 1 ∨ timeout = 2) :
    ∃ s, runFrom loopStep {} (twoDue timeout) = some s ∧ s.phase = .timers false 3000 3000 ∧ NonePending s ∧
      (∀ t timer, DueTimer s 3000 t timer →
        timer.priority = ⟨10, by decide⟩ ∧ (timer.nextTimeout = 1000 ∨ timer.nextTimeout = timeout * 1000)) ∧
      s.realtimers = [] := by
  have hrun : ∃ s, runFrom loopStep {} (twoDue timeout) = some s ∧ s.phase = .timers false 3000 3000 ∧
      s.npendings = 0 ∧ s.pendings = (fun _ => none) ∧ s.realtimers = [] ∧
      s.mem = update (update (fun _ => none) 0
        (some { eventType := .timeout, priority := ⟨10, by decide⟩, repeats := 1, timeout := 1, nextTimeout := 1000 })) 1
        (some { eventType := .timeout, priority := ⟨10, by decide⟩, repeats := 1, timeout,
                nextTimeout := timeout * 1000 }) := by
    rcases h with rfl | rfl <;> exact ⟨_, rfl, rfl, rfl, rfl, rfl, rfl⟩
  obtain ⟨s, hs, hphase, hnp, hpendings, hreal, hmem⟩ := hrun
  have hobject : ∀ a ev, s.mem a = some ev → ev.pending = false ∧ ev.priority = ⟨10, by decide⟩ ∧
      (ev.nextTimeout = 1000 ∨ ev.nextTimeout = timeout * 1000) := by
    intro a ev hev
    rw [hmem] at hev
    by_cases h1 : a = 1
    · subst h1
      cases hev
      exact ⟨rfl, rfl, .inr rfl⟩
    rw [update_of_ne h1] at hev
    by_cases h0 : a = 0
    · subst h0
      cases hev
      exact ⟨rfl, rfl, .inl rfl⟩
    · rw [update_of_ne h0] at hev
      cases hev
  refine ⟨s, hs, hphase, ⟨hnp, fun i => by rw [hpendings], fun a ev hev => (hobject a ev hev).1⟩, ?_, hreal⟩
  exact fun t timer hdue => (hobject t timer hdue.object).2

/-- Two timers with the same deadline. -/
theorem timers_fire_in_order_iff_same_deadline :
    ∃ s, runFrom loopStep {} (twoDue 1) = some s ∧ FiresInOrder s := by
  obtain ⟨s, hs, hphase, hnone, hdue, hreal⟩ := twoDue_state (.inl rfl)
  have hreach : Reachable loopStep Always LoopInit s := Reachable.run _ (.start rfl) hs
  refine ⟨s, hs, (timers_fire_in_order_iff hreach hphase hnone (fun t timer h => (hdue t timer h).1)
    (by simp [hreal])).2 fun t timer t' timer' h h' _ _ => ?_⟩
  rw [(hdue t timer h).2.elim id id, (hdue t' timer' h').2.elim id id]

/-- With deadlines of one and of two milliseconds, the later timer fires first. -/
theorem later_timer_fires_first :
    ∃ s, runFrom loopStep {} (twoDue 2) = some s ∧ s.phase = .timers false 3000 3000 ∧ NonePending s ∧
      (∀ t timer, DueTimer s 3000 t timer → timer.priority = ⟨10, by decide⟩) ∧ s.realtimers = [] ∧
      (∃ s', runFrom loopStep s [.expire 0 0, .expire 1 0, .timersDone, .timersDone, .visit, .ret, .visit] = some s' ∧
        s'.called.reverse = [1, 0] ∧ s'.called.reverse.map s.nextTimeout = [2000, 1000]) ∧ ¬ FiresInOrder s := by
  obtain ⟨s, hs, hphase, hnone, hdue, hreal⟩ := twoDue_state (.inr rfl)
  have hrun : ∃ s s', runFrom loopStep {} (twoDue 2) = some s ∧
      runFrom loopStep s [.expire 0 0, .expire 1 0, .timersDone, .timersDone, .visit, .ret, .visit] = some s' ∧
      s'.called.reverse = [1, 0] ∧ s'.called.reverse.map s.nextTimeout = [2000, 1000] ∧
      s'.phase.inPass := ⟨_, _, rfl, rfl, rfl, rfl, rfl⟩
  obtain ⟨s₁, s', hs₁, hs', hcalled, hdeadlines, hin⟩ := hrun
  cases hs.symm.trans hs₁
  refine ⟨s, hs, hphase, hnone, fun t timer h => (hdue t timer h).1, hreal, ⟨s', hs', hcalled, hdeadlines⟩,
    fun horder => ?_⟩
  have hle := horder _ s' (Steps.of_run hs') (by decide) hin
  rw [hdeadlines] at hle
  simp at hle

end HvVerified.Event
