import HvVerified.Event.Proofs.PendingProofs

/-!
# Proofs: the pass over the pending lists

What an iteration of `hloop_process_pendings` leaves of the lists, and the results about runs: the
lists stay finite chains, a pass takes as many iterations as there are events in them, calls each
callback at most once, and never frees an event that it is still to visit.
-/

namespace HvVerified.Event

open Lib Function List Option Hloop LoopPhase Reachable

variable {s s' : Hloop} {lists : Nat → List Nat} {ev : Hevent}

/-! ## Collecting -/

theorem PassInv.notMem_cleared (h : PassInv s lists) (hcollect : s.phase.collecting) {a : Nat}
    (old : s.mem a = some ev) (htype : ev.eventType ≠ .io) : a ∉ s.cleared := by
  intro hmem
  rcases h.cleared a hmem with ⟨ev', hev', ht⟩ | ⟨hin, -⟩
  · cases old.symm.trans hev'
    exact htype ht
  · simp [not_inPass_of_collecting hcollect] at hin

theorem passInv_processTimer {real : Bool} {limit now t cron : Nat} {timer : Hevent} (h : PassInv s lists)
    (hphase : s.phase = .timers real limit now) (old : s.mem t = some timer)
    (htype : timer.eventType ≠ .io) : ∃ lists', PassInv (processTimer s t timer limit cron) lists' := by
  have hcollect : s.phase.collecting := by rw [hphase]; rfl
  have hout : s.phase.outside ≠ true := by simp [hphase, outside]
  have hc := h.notMem_cleared hcollect old htype
  unfold processTimer
  dsimp only
  split_ifs
  · obtain ⟨timers, realtimers, ntimers, heq, -⟩ :=
      htimerUnlink_eq s t { timer with repeats := countDown timer.repeats }
    rw [heq]
    have h' : PassInv { s with timers, realtimers, ntimers } lists :=
      h.congr ⟨rfl, rfl, rfl⟩ rfl rfl rfl
    exact passInv_eventPending h' hcollect old ⟨rfl, rfl, rfl⟩ hc fun ho => absurd ho hout
  · exact passInv_eventPending h hcollect old ⟨rfl, rfl, rfl⟩ hc fun ho => absurd ho hout

theorem passInv_processIdle {a : Nat} {rest : List Nat} {idle : Hevent} (h : PassInv s lists)
    (hphase : s.phase = .idles (a :: rest)) (old : s.mem a = some idle) (htype : idle.eventType ≠ .io) :
    ∃ lists', PassInv (processIdle { s with phase := .idles rest } a idle) lists' := by
  have hcollect : s.phase.collecting := by rw [hphase]; rfl
  have hc := h.notMem_cleared hcollect old htype
  have hrest : PassInv { s with phase := .idles rest } lists :=
    passInv_move h hcollect rfl nofun rfl rfl rfl rfl rfl
  unfold processIdle hidleUnlink
  dsimp only
  split_ifs
  · exact passInv_eventPending hrest rfl old ⟨rfl, rfl, rfl⟩ hc nofun
  · have h' : PassInv { s with phase := .idles rest, idles := s.idles.erase a, nidles := s.nidles - 1 } lists :=
      hrest.congr ⟨rfl, rfl, rfl⟩ rfl rfl rfl
    exact passInv_eventPending h' rfl old ⟨rfl, rfl, rfl⟩ hc nofun
  · exact passInv_eventPending hrest rfl old ⟨rfl, rfl, rfl⟩ hc nofun

theorem passInv_processPendings (h : PassInv s lists) (hcollect : s.phase.collecting) :
    PassInv (processPendings s) lists := by
  have hnone : ∀ x, ¬ s.Current x := not_current_of_collecting hcollect
  unfold processPendings
  split_ifs with hnp
  · refine passInv_move h hcollect rfl (fun _ x hx => ?_) rfl rfl rfl rfl rfl
    -- the counter says that no flag is set
    obtain ⟨P, hP, hlen⟩ := h.counts
    have : P = [] := length_eq_zero_iff.1 (by omega)
    exact absurd (hP x hx) (by simp [this])
  · refine ⟨fun i => ?_, h.disjoint, h.waits, fun x hx => ?_, fun x hx => ?_, fun x hx => ?_,
      nofun, h.counts, nodup_nil, fun _ x hx => (by cases hx), h.bound,
      fun i hi j hj => ?_, (by simp)⟩
    · have := h.chain i
      rw [unvisited_of_collecting hcollect] at this
      have hun : unvisited { s with
          phase := .pass (heventPrioritySize - 1) (s.pendings (heventPrioritySize - 1)), called := [] } i =
          s.pendings i := by
        unfold unvisited
        dsimp only
        split_ifs with hi
        · rw [hi]
        · rfl
      rw [hun]
      exact this
    · exact .inl ((h.listed x hx).resolve_right (hnone x))
    · obtain ⟨i, next, hp⟩ := hx
      cases hp
    · exact .inl ((h.cleared x hx).resolve_right fun hin => by
        simp [not_inPass_of_collecting hcollect] at hin)
    · cases hi
      exact h.bound j (by omega)

/-! ## Visiting a list -/

/-- What is left of the lists when the first event of the list `i` is taken. -/
structure Taken (s : Hloop) (lists lists' : Nat → List Nat) (i cur : Nat) (next : Option Nat) : Prop where
  chain : ∀ j, IsChain s.next (if j = i then next else s.pendings j) (lists' j)
  was : cur ∈ lists i
  sub : ∀ j x, x ∈ lists' j → x ∈ lists j ∧ x ≠ cur
  rest : ∀ j x, x ∈ lists j → x = cur ∨ x ∈ lists' j

theorem passInv_front {i cur : Nat} (h : PassInv s lists) (hphase : s.phase = .pass i (some cur)) :
    ∃ l ev, lists i = cur :: l ∧ s.mem cur = some ev ∧
      Taken s lists (update lists i l) i cur ev.pendingNext := by
  have hun : ∀ j, s.unvisited j = if j = i then some cur else s.pendings j := by
    intro j
    rw [unvisited, hphase]
  have hi := h.chain i
  rw [hun, if_pos rfl] at hi
  cases hl : lists i with
  | nil => simp [hl, Lib.IsChain] at hi
  | cons x l =>
    rw [hl] at hi
    have hnodup := nodup_cons.1 hi.nodup
    obtain ⟨hcur, q, hq, hchain⟩ := hi
    obtain rfl := some.inj hcur
    clear hcur
    obtain ⟨ev, hev, rfl⟩ := map_eq_some_iff.1 hq
    have hwas : cur ∈ lists i := by rw [hl]; exact mem_cons_self
    refine ⟨l, ev, rfl, hev, fun j => ?_, hwas, fun j x hx => ?_, fun j x hx => ?_⟩
    · by_cases hj : j = i
      · subst hj
        rw [if_pos rfl, update_self]
        exact hchain
      · have := h.chain j
        rw [hun, if_neg hj] at this
        rw [if_neg hj, update_of_ne hj]
        exact this
    · by_cases hj : j = i
      · subst hj
        rw [update_self] at hx
        refine ⟨by rw [hl]; exact mem_cons_of_mem _ hx, ?_⟩
        rintro rfl
        exact hnodup.1 hx
      · rw [update_of_ne hj] at hx
        refine ⟨hx, ?_⟩
        rintro rfl
        exact hj (h.disjoint j i x hx hwas)
    · by_cases hj : j = i
      · subst hj
        rw [update_self]
        rw [hl] at hx
        exact mem_cons.1 hx
      · rw [update_of_ne hj]
        exact .inr hx

variable {lists' : Nat → List Nat} {i cur : Nat} {next : Option Nat}

theorem passInv_enter (h : PassInv s lists) (hphase : s.phase = .pass i (some cur))
    (ht : Taken s lists lists' i cur next) (hev : s.mem cur = some ev) (hp : ev.pending) :
    PassInv { s with phase := .callback i cur next } lists' where
  chain := ht.chain
  disjoint j k x hj hk := h.disjoint j k x (ht.sub j x hj).1 (ht.sub k x hk).1
  waits j x hx := h.waits j x (ht.sub j x hx).1
  listed x hx := by
    rcases h.listed x hx with ⟨j, hj⟩ | ⟨j, next', hc⟩
    · rcases ht.rest j x hj with rfl | hj
      · exact .inr ⟨i, next, rfl⟩
      · exact .inl ⟨j, hj⟩
    · simp [hphase] at hc
  current x hx := by
    obtain ⟨j, next', hc⟩ := hx
    obtain ⟨-, rfl, -⟩ := callback.inj hc
    exact ⟨.inl ⟨ev, hev, hp⟩, fun j hj => (ht.sub j _ hj).2 rfl⟩
  cleared x hx := (h.cleared x hx).imp id fun hx => ⟨rfl, hx.2⟩
  outside hout := by cases hout
  counts := h.counts
  calledNodup := h.calledNodup
  calledGone _ x hx j hj := h.calledGone (by rw [hphase]; rfl) x hx j (ht.sub j x hj).1
  bound := h.bound
  finished j hj := h.finished j (by rw [hphase]; exact hj)
  safe := by simp

theorem passInv_skip (h : PassInv s lists) (hphase : s.phase = .pass i (some cur))
    (ht : Taken s lists lists' i cur next) (hev : s.mem cur = some ev) (hp : ev.pending = false) :
    PassInv { s with phase := .pass i next, cleared := s.cleared.filter (· ≠ cur) } lists' where
  chain := ht.chain
  disjoint j k x hj hk := h.disjoint j k x (ht.sub j x hj).1 (ht.sub k x hk).1
  waits j x hx := by
    obtain ⟨hx, hne⟩ := ht.sub j x hx
    exact (h.waits j x hx).imp id fun hc => mem_filter.2 ⟨hc, by simpa using hne⟩
  listed x hx := by
    rcases h.listed x hx with ⟨j, hj⟩ | ⟨j, next', hc⟩
    · rcases ht.rest j x hj with rfl | hj
      · obtain ⟨ev', hev', hp'⟩ := hx
        cases hev.symm.trans hev'
        simp [hp] at hp'
      · exact .inl ⟨j, hj⟩
    · simp [hphase] at hc
  current x hx := by
    obtain ⟨j, next', hc⟩ := hx
    cases hc
  cleared x hx := (h.cleared x (mem_filter.1 hx).1).imp id fun hx => ⟨rfl, hx.2⟩
  outside hout := by cases hout
  counts := h.counts
  calledNodup := h.calledNodup
  calledGone _ x hx j hj := h.calledGone (by rw [hphase]; rfl) x hx j (ht.sub j x hj).1
  bound := h.bound
  finished j hj := h.finished j (by rw [hphase]; exact hj)
  safe := by simp

theorem PassInv.current_live (h : PassInv s lists) (hcur : s.Current cur) : ∃ ev, s.mem cur = some ev := by
  rcases (h.current cur hcur).1 with ⟨ev, hev, -⟩ | hmem
  · exact ⟨ev, hev⟩
  · exact ne_none_iff_exists'.1 (h.cleared_live hmem)

theorem finishEvent_list? (hev : s.mem cur = some ev) : (finishEvent s i cur next).phase.list? = some i := by
  rw [finishEvent_eq i next hev]
  rfl

/-- After the callback: the current event is in no list, so that it can be freed. -/
theorem passInv_finishEvent (h : PassInv s lists) (hphase : s.phase = .callback i cur next) :
    PassInv (finishEvent s i cur next) lists := by
  have hcur := h.current cur ⟨i, next, hphase⟩
  obtain ⟨ev, hev⟩ := h.current_live ⟨i, next, hphase⟩
  rw [finishEvent_eq i next hev]
  have hnew : ∀ ev', (if ev.destroy then none else some { ev with pending := false }) = some ev' →
      ev'.pending = false := by
    intro ev' hev'
    split_ifs at hev'
    rw [← Option.some.inj hev']
  generalize (if ev.destroy then none else some { ev with pending := false }) = new at hnew ⊢
  have hother : ∀ {x}, x ≠ cur → update s.mem cur new x = s.mem x :=
    fun hx => update_of_ne hx _ _
  have hpend : ∀ x ev', update s.mem cur new x = some ev' → ev'.pending →
      x ≠ cur ∧ s.Pending x := by
    intro x ev' hev' hp
    have hx : x ≠ cur := by
      rintro rfl
      rw [update_self] at hev'
      simp [hnew ev' hev'] at hp
    exact ⟨hx, ev', (hother hx).symm.trans hev', hp⟩
  have hwaits : ∀ j x, x ∈ lists j → x ≠ cur := by
    rintro j x hx rfl
    exact hcur.2 j hx
  have htype : ∀ {x t}, x ≠ cur → s.HasType x t →
      ∃ ev', update s.mem cur new x = some ev' ∧ ev'.eventType = t := by
    rintro x t hx ⟨ev', hev', ht⟩
    exact ⟨ev', (hother hx).trans hev', ht⟩
  refine ⟨fun j => ?_, h.disjoint, fun j x hx => ?_, fun x hx => ?_, fun x hx => ?_, fun x hx => ?_,
    nofun, ?_, h.calledNodup, fun _ => ?_, h.bound, fun j hj => ?_, (by simp)⟩
  · have := h.chain j
    rw [unvisited, hphase] at this
    refine this.congr fun x hx => ?_
    exact congrArg (Option.map Hevent.pendingNext) (hother (hwaits j x hx))
  · have hne := hwaits j x hx
    rcases h.waits j x hx with ⟨ev', hev', hp⟩ | hc
    · exact .inl ⟨ev', (hother hne).trans hev', hp⟩
    · exact .inr (mem_filter.2 ⟨hc, by simpa using hne⟩)
  · obtain ⟨ev', hev', hp⟩ := hx
    obtain ⟨hne, hx⟩ := hpend x ev' hev' hp
    rcases h.listed x hx with hl | ⟨j, next', hc⟩
    · exact .inl hl
    · rw [hphase] at hc
      exact absurd (callback.inj hc).2.1.symm hne
  · obtain ⟨j, next', hc⟩ := hx
    cases hc
  · obtain ⟨hc, hne⟩ := mem_filter.1 hx
    have hne : x ≠ cur := by simpa using hne
    exact (h.cleared x hc).imp (htype hne) fun hx => ⟨rfl, htype hne hx.2⟩
  · obtain ⟨P, hP, hlen⟩ := h.counts
    refine ⟨P, fun x hx => ?_, hlen⟩
    obtain ⟨ev', hev', hp⟩ := hx
    exact hP x (hpend x ev' hev' hp).2
  · exact h.calledGone (by rw [hphase]; rfl)
  · exact h.finished j (by rw [hphase]; exact hj)

/-- The iterations of the loops of `hloop_process_pendings` that are left. -/
def iterations (s : Hloop) (lists : Nat → List Nat) : Nat :=
  match s.phase.list? with
  | some i => ∑ j ∈ Finset.range (i + 1), ((lists j).length + 1)
  | none => 0

theorem iterations_take {l : List Nat} (hl : lists i = cur :: l) :
    (∑ j ∈ Finset.range (i + 1), ((update lists i l j).length + 1)) + 1 =
      ∑ j ∈ Finset.range (i + 1), ((lists j).length + 1) := by
  rw [Finset.sum_range_succ, Finset.sum_range_succ, update_self, hl]
  have heq : ∑ j ∈ Finset.range i, ((update lists i l j).length + 1) =
      ∑ j ∈ Finset.range i, ((lists j).length + 1) := by
    refine Finset.sum_congr rfl fun j hj => ?_
    rw [update_of_ne (by have := Finset.mem_range.1 hj; omega)]
  rw [heq, length_cons]
  omega

theorem passInv_visitEvent (h : PassInv s lists) (hphase : s.phase = .pass i (some cur)) :
    ∃ lists', PassInv (visitEvent s i cur) lists' ∧
      iterations (visitEvent s i cur) lists' + 1 = iterations s lists := by
  obtain ⟨l, ev, hl, hev, ht⟩ := passInv_front h hphase
  have hiter : iterations s lists = ∑ j ∈ Finset.range (i + 1), ((lists j).length + 1) := by
    rw [iterations, hphase]
    rfl
  rw [hiter, ← iterations_take hl]
  refine ⟨update lists i l, ?_⟩
  unfold visitEvent
  rw [hev]
  dsimp only
  split_ifs with hp hcb
  · have henter := passInv_enter h hphase ht hev hp
    refine ⟨?_, rfl⟩
    refine ⟨henter.chain, henter.disjoint, henter.waits, henter.listed, henter.current, henter.cleared,
      henter.outside, henter.counts, ?_, fun hin x hx => ?_, henter.bound, henter.finished, henter.safe⟩
    · refine nodup_cons.2 ⟨fun hmem => ?_, h.calledNodup⟩
      exact h.calledGone (by rw [hphase]; rfl) cur hmem i ht.was
    · rcases mem_cons.1 hx with rfl | hx
      · exact (henter.current x ⟨i, _, rfl⟩).2
      · exact henter.calledGone hin x hx
  · -- without a callback, as if it had returned at once
    have henter := passInv_enter h hphase ht hev hp
    have hfinish := passInv_finishEvent henter rfl
    have heq : finishEvent { s with phase := .callback i cur ev.pendingNext } i cur ev.pendingNext =
        finishEvent s i cur ev.pendingNext := rfl
    refine ⟨hfinish, ?_⟩
    rw [iterations, finishEvent_list? hev]
  · exact ⟨passInv_skip h hphase ht hev (eq_false_of_ne_true hp), rfl⟩

theorem passInv_finishList_zero (h : PassInv s lists) (hphase : s.phase = .pass 0 none) :
    PassInv (finishList s 0) lists := by
  have hpendings : ∀ j, 0 < j → s.pendings j = none := h.finished 0 (by rw [hphase]; rfl)
  have hnil : ∀ j, lists j = [] := by
    intro j
    have := h.chain j
    rw [unvisited, hphase] at this
    by_cases hj : j = 0
    · simp only [hj, if_true] at this
      rw [hj]
      exact this.eq_nil
    · simp only [hj, if_false, hpendings j (by omega)] at this
      exact this.eq_nil
  have hnot : ∀ x, ¬ s.Pending x := by
    intro x hx
    rcases h.listed x hx with ⟨j, hj⟩ | ⟨j, next', hc⟩
    · simp [hnil] at hj
    · simp [hphase] at hc
  have hnone : ∀ j, update s.pendings 0 none j = none := by
    intro j
    by_cases hj : j = 0
    · rw [hj, update_self]
    · rw [update_of_ne hj]
      exact hpendings j (by omega)
  refine ⟨fun j => ?_, h.disjoint, fun j x hx => ?_, fun x hx => absurd hx (hnot x), fun x hx => ?_,
    fun x hx => (by cases hx), fun _ x hx => absurd hx (hnot x), ⟨[], fun x hx => absurd hx (hnot x), Int.le_rfl⟩,
    h.calledNodup, fun hin => (by cases hin), fun j _ => hnone j, fun j hj => (by cases hj), (by simp [finishList])⟩
  · rw [hnil]
    exact hnone j
  · simp [hnil] at hx
  · obtain ⟨j, next', hc⟩ := hx
    cases hc

theorem passInv_finishList_succ (h : PassInv s lists) (hphase : s.phase = .pass (i + 1) none) :
    PassInv (finishList s (i + 1)) lists := by
  have hpendings : ∀ j, i + 1 < j → s.pendings j = none := h.finished (i + 1) (by rw [hphase]; rfl)
  refine ⟨fun j => ?_, h.disjoint, h.waits, fun x hx => ?_, fun x hx => ?_,
    fun x hx => (h.cleared x hx).imp id fun hx => ⟨rfl, hx.2⟩, nofun, h.counts,
    h.calledNodup, fun _ => h.calledGone (by rw [hphase]; rfl), fun j hj => ?_, fun j hj k hk => ?_,
    (by simp [finishList])⟩
  · have := h.chain j
    rw [unvisited, hphase] at this
    show IsChain _ (if j = i then s.pendings i else update s.pendings (i + 1) none j) _
    by_cases hji : j = i
    · rw [if_pos hji, ← hji]
      simp only [if_neg (show j ≠ i + 1 by omega)] at this
      exact this
    · rw [if_neg hji]
      by_cases hj : j = i + 1
      · subst hj
        simp only [if_true] at this
        rw [update_self]
        exact this
      · simp only [if_neg hj] at this
        rw [update_of_ne hj]
        exact this
  · rcases h.listed x hx with hlisted | hcallback
    · exact .inl hlisted
    · obtain ⟨j, next', hc⟩ := hcallback
      simp [hphase] at hc
  · obtain ⟨j, next', hc⟩ := hx
    cases hc
  · show update s.pendings (i + 1) none j = none
    by_cases hj' : j = i + 1
    · rw [hj', update_self]
    · rw [update_of_ne hj']
      exact h.bound j hj
  · cases hj
    show update s.pendings (i + 1) none k = none
    by_cases hk' : k = i + 1
    · rw [hk', update_self]
    · rw [update_of_ne hk']
      exact hpendings k (by omega)

theorem passInv_finishList (h : PassInv s lists) (hphase : s.phase = .pass i none) :
    PassInv (finishList s i) lists ∧ iterations (finishList s i) lists + 1 ≤ iterations s lists := by
  have hiter : iterations s lists = ∑ j ∈ Finset.range (i + 1), ((lists j).length + 1) := by
    rw [iterations, hphase]
    rfl
  rw [hiter, Finset.sum_range_succ]
  cases i with
  | zero =>
    refine ⟨passInv_finishList_zero h hphase, ?_⟩
    show 0 + 1 ≤ _
    omega
  | succ i =>
    refine ⟨passInv_finishList_succ h hphase, ?_⟩
    show (∑ j ∈ Finset.range (i + 1), ((lists j).length + 1)) + 1 ≤ _
    omega

/-! ## Runs -/

/-- A step keeps the invariant; in a pass it does not add iterations, and an iteration takes one. -/
theorem passInv_step {act : LoopAct} (hreg : Registered s) (h : PassInv s lists) (hok : LoopAllowed s act)
    (hs : loopStep s act = some s') : ∃ lists', PassInv s' lists' ∧ (act.inPass →
      iterations s' lists' + (if act.isVisit then 1 else 0) ≤ iterations s lists) := by
  cases loopStep_cases hs with
  | @call op s' hs hphase =>
    refine ⟨lists, passInv_callOp h hok hs hphase, fun _ => ?_⟩
    obtain ⟨a, hlists, -⟩ := callOp_change hs
    rw [iterations, iterations, hlists.phase]
    exact le_rfl
  | status stopped running hact =>
    refine ⟨lists, h.congr ⟨rfl, rfl, rfl⟩ rfl rfl rfl, fun _ => ?_⟩
    rw [if_neg (by simp [hact])]
    exact le_rfl
  | move phase hr hold hnew hout _ hact =>
    refine ⟨lists, passInv_move h hold hnew (fun ho => ?_) rfl rfl rfl rfl rfl, fun hin => ?_⟩
    · rcases hout with hout | ⟨limit, now, rfl⟩
      · exact h.outside hout
      · cases ho
    · simp [hact] at hin
  | processIdles hr hold hact =>
    have h' : PassInv { s with curHrtime := hr } lists := h.congr ⟨rfl, rfl, rfl⟩ rfl rfl rfl
    refine ⟨lists, ?_, fun hin => (by simp [hact] at hin)⟩
    unfold processIdles
    split_ifs
    · exact passInv_move h' hold rfl nofun rfl rfl rfl rfl rfl
    · exact passInv_processPendings h' hold
  | processPendings hphase =>
    exact ⟨lists, passInv_processPendings h (by rw [hphase]; rfl), nofun⟩
  | @mark a io hphase old hio =>
    have hc : a ∉ s.cleared := fun hmem => (hok a hmem).1 rfl
    obtain ⟨lists', h'⟩ := passInv_eventPending h (by rw [hphase]; rfl) old ⟨rfl, rfl, rfl⟩ hc fun _ => hio
    exact ⟨lists', h', nofun⟩
  | @expire real limit now t cron timer hphase old hheap =>
    have htype : timer.eventType ≠ .io := by
      rcases hreg.timerType old hheap with htype | htype <;> simp [htype]
    obtain ⟨lists', h'⟩ := passInv_processTimer h hphase old htype
    exact ⟨lists', h', nofun⟩
  | @expireFreed real t cron old hheap =>
    cases real with
    | false => exact absurd hheap (hreg.timers.notMem (by simp [old]))
    | true => exact absurd hheap (hreg.realtimers.notMem (by simp [old]))
  | @idle a rest idle hphase old =>
    obtain ⟨lists', h'⟩ := passInv_processIdle h hphase old (by simp [hreg.idleType hphase old])
    exact ⟨lists', h', nofun⟩
  | idleFreed hphase old =>
    exact absurd ((hreg.rest _ hphase).2 mem_cons_self) (hreg.idles.notMem (by simp [old]))
  | endList hphase =>
    obtain ⟨h', hle⟩ := passInv_finishList h hphase
    exact ⟨lists, h', fun _ => hle⟩
  | visit hphase =>
    obtain ⟨lists', h', heq⟩ := passInv_visitEvent h hphase
    exact ⟨lists', h', fun _ => heq.le⟩
  | @ret i cur next hphase =>
    obtain ⟨ev, hev⟩ := h.current_live ⟨i, next, hphase⟩
    refine ⟨lists, passInv_finishEvent h hphase, fun _ => ?_⟩
    rw [iterations, finishEvent_list? hev, iterations, hphase]
    exact le_rfl

theorem passInv_init (h : LoopInit s) : PassInv s fun _ => [] := by
  obtain rfl := h
  refine ⟨fun _ => rfl, nofun, nofun, ?_, ?_, nofun,
    ?_, ⟨[], ?_, Int.le_rfl⟩, nodup_nil, nofun, fun _ _ => rfl, nofun,
    by simp⟩
  · rintro x ⟨ev, hev, -⟩
    cases hev
  · rintro x ⟨i, next, hp⟩
    cases hp
  · rintro - x ⟨ev, hev, -⟩
    cases hev
  · rintro x ⟨ev, hev, -⟩
    cases hev

theorem pass_invariant (h : Reachable loopStep LoopAllowed LoopInit s) :
    Registered s ∧ ∃ lists, PassInv s lists := by
  refine h.invariant (I := fun s => Registered s ∧ ∃ lists, PassInv s lists) ?_ ?_
  · exact fun s hinit => ⟨registered_init hinit, _, passInv_init hinit⟩
  · rintro s act s' ⟨hreg, lists, hinv⟩ hok hs
    obtain ⟨lists', hinv', -⟩ := passInv_step hreg hinv hok hs
    exact ⟨registered_step hreg hs, lists', hinv'⟩

/-- In the runs that `LoopAllowed` admits, the part of every pending list that is still to be visited is
    finite and contains no event twice, a pass calls the callback of an event at most once and takes
    a bounded number of iterations, and no freed event is accessed. -/
theorem pending_lists_finite (h : Reachable loopStep LoopAllowed LoopInit s) :
    (∀ i, ∃ l, IsChain s.next (s.unvisited i) l ∧ l.Nodup) ∧ s.called.Nodup ∧ s.phase ≠ .undefined ∧
      ∃ n, ∀ acts s', Steps loopStep LoopAllowed s acts s' → (∀ act ∈ acts, act.inPass = true) →
        acts.countP LoopAct.isVisit ≤ n := by
  obtain ⟨hreg, lists, hinv⟩ := pass_invariant h
  refine ⟨fun i => ⟨lists i, hinv.chain i, (hinv.chain i).nodup⟩, hinv.calledNodup, hinv.safe,
    iterations s lists, fun acts s' hrun hin => ?_⟩
  refine hrun.countP_le (fun act => act.inPass)
    (fun s n => Registered s ∧ ∃ lists, PassInv s lists ∧ iterations s lists = n)
    ?_ ⟨hreg, lists, hinv, rfl⟩ hin
  rintro s act s' n ⟨hreg, lists, hinv, rfl⟩ hact hok hs
  obtain ⟨lists', hinv', hle⟩ := passInv_step hreg hinv hok hs
  exact ⟨_, ⟨registered_step hreg hs, lists', hinv', rfl⟩, hle hact⟩

def twoTimers : List LoopAct :=
  [.call (.htimerAdd 0 1 1 true 0), .call (.htimerAdd 1 1 1 true 0), .hloopRun, .processEvents 100 0 0,
    .polled 1000 1000, .expire 0 0, .expire 1 0, .timersDone, .timersDone, .visit]

theorem pending_lists_finite_two_timers :
    ∃ s, runFrom (guarded loopStep LoopAllowed) {} twoTimers = some s ∧
      s.phase = .callback 10 1 (some 0) ∧ (∃ l, IsChain s.next (some 0) l ∧ l.Nodup) ∧ s.called.Nodup := by
  refine exists_run (by decide +kernel) fun s hs => ?_
  have hphase : s.phase = .callback 10 1 (some 0) := of_run hs (by decide +kernel)
  obtain ⟨hlists, hcalled, -⟩ := pending_lists_finite (runGuarded _ (.start rfl) hs)
  have hten := hlists 10
  rw [unvisited, hphase] at hten
  exact ⟨hphase, hten, hcalled⟩

/-- An io that a stopped iteration has left in its list, and that is removed and added again, is linked
    to itself by the next poll. -/
theorem stopped_poll_links_twice :
    ∃ s, Reachable loopStep Always LoopInit s ∧ s.pendings 5 = some 0 ∧ s.next 0 = some (some 0) ∧
      ¬ ∃ l, IsChain s.next (s.unvisited 5) l := by
  refine exists_reached [.call (.hioGet 0), .call (.hioAdd 0 true 1), .hloopRun, .processEvents 100 0 0, .mark 0,
    .hloopStop, .polled 0 0, .leaveRun, .call (.hioDel 0 1), .call (.hioAdd 0 true 1), .hloopRun, .processEvents 100 0 0,
    .mark 0] rfl (by decide +kernel) fun s _ hs => ?_
  obtain ⟨hhead, hun, hnext⟩ : s.pendings 5 = some 0 ∧ s.unvisited 5 = some 0 ∧ s.next 0 = some (some 0) :=
    of_run hs (by decide +kernel)
  refine ⟨hhead, hnext, ?_⟩
  rintro ⟨l, hl⟩
  rw [hun] at hl
  have hcons : IsChain s.next (some 0) (0 :: l) := ⟨rfl, some 0, hnext, hl⟩
  have hlen := congrArg length (hl.unique hcons)
  simp at hlen

/-- In these runs, an event that a step frees is not reachable from the parts of the lists that are
    still to be visited. -/
theorem freed_event_not_linked {act : LoopAct} {x : Nat} (h : Reachable loopStep LoopAllowed LoopInit s)
    (hok : LoopAllowed s act) (hs : loopStep s act = some s') (hfreed : s.mem x ≠ none ∧ s'.mem x = none) :
    ∀ i, ¬ Reaches s'.next (s'.unvisited i) x := by
  intro i hreach
  obtain ⟨-, lists, hinv⟩ := pass_invariant (h.step hok hs)
  obtain ⟨q, hq⟩ := (hinv.chain i).exists (hreach.mem (hinv.chain i))
  simp [Hloop.next, hfreed.2] at hq

/-- The first timer is freed after its callback, while the other one is still to be visited. -/
theorem freed_event_not_linked_first_timer :
    ∃ s s', runFrom (guarded loopStep LoopAllowed) {} twoTimers = some s ∧ loopStep s .ret = some s' ∧
      s'.mem 1 = none ∧ ¬ Reaches s'.next (some 0) 1 := by
  have hrun : ∃ s s', runFrom (guarded loopStep LoopAllowed) {} twoTimers = some s ∧
      loopStep s .ret = some s' ∧ (s.mem 1).isSome ∧ s'.mem 1 = none ∧ s'.unvisited 10 = some 0 ∧
      s.cleared = [] := ⟨_, _, rfl, rfl, rfl, rfl, rfl, rfl⟩
  obtain ⟨s, s', hs, hret, hlive, hfreed, hun, hcl⟩ := hrun
  have hreach : Reachable loopStep LoopAllowed LoopInit s := runGuarded _ (.start rfl) hs
  have hnot := freed_event_not_linked hreach (fun a ha => by simp [hcl] at ha) hret
    ⟨fun hnone => by simp [hnone] at hlive, hfreed⟩ 10
  exact ⟨s, s', hs, hret, hfreed, hun ▸ hnot⟩

/-- If the callback of the first timer resets and deletes the other one, that is freed as well, and is the
    next event to be visited. -/
theorem reset_and_deleted_timer_stays_linked :
    ∃ s s', Reachable loopStep Always LoopInit s ∧ loopStep s (.call (.htimerDel 0)) = some s' ∧
      s'.phase = .callback 10 1 (some 0) ∧ s.mem 0 ≠ none ∧ s'.mem 0 = none ∧
      Reaches s'.next (s'.unvisited 10) 0 := by
  have hrun : ∃ s s', runFrom loopStep {} (twoTimers ++ [.call (.htimerReset 0 0)]) = some s ∧
      loopStep s (.call (.htimerDel 0)) = some s' ∧ s'.phase = .callback 10 1 (some 0) ∧
      (s.mem 0).isSome ∧ s'.mem 0 = none ∧ s'.unvisited 10 = some 0 :=
    ⟨_, _, rfl, rfl, rfl, rfl, rfl, rfl⟩
  obtain ⟨s, s', hs, hdel, hphase, hlive, hfreed, hun⟩ := hrun
  refine ⟨s, s', run _ (.start rfl) hs, hdel, hphase, fun hnone => ?_, hfreed, ?_⟩
  · simp [hnone] at hlive
  · rw [hun]
    exact .here

end HvVerified.Event
