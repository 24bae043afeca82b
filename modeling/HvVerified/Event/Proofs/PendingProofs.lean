import Mathlib.Algebra.Order.BigOperators.Group.Finset
import HvVerified.Lib.Chain
import HvVerified.Event.Proofs.RegisteredProofs

/-!
# Proofs: the pending lists

The invariant of the pending lists relates the links, the pending flags and the history: the part of
each list that is still to be visited is a finite chain, the lists are disjoint, and each event in
them has its flag set unless the flag was cleared while the event was waiting. An event without flag
that is not recorded as cleared is therefore in no list, and may be linked or freed.
-/

namespace HvVerified.Event

open Lib Function List LoopPhase

variable {s s' : Hloop} {a : Nat} {lists : Nat → List Nat}

namespace Hloop

/-- The flag of the event at `x` is set. -/
def Pending (s : Hloop) (x : Nat) : Prop := ∃ ev, s.mem x = some ev ∧ ev.pending

def HasType (s : Hloop) (x : Nat) (type : HeventType) : Prop :=
  ∃ ev, s.mem x = some ev ∧ ev.eventType = type

def Current (s : Hloop) (x : Nat) : Prop := ∃ i next, s.phase = .callback i x next

/-- `x` may be linked: its flag is set, or was cleared while `x` was waiting. -/
def Waits (s : Hloop) (x : Nat) : Prop := s.Pending x ∨ x ∈ s.cleared

def Counts (s : Hloop) (np : Int) : Prop :=
  ∃ P : List Nat, (∀ x, s.Pending x → x ∈ P) ∧ (P.length : Int) ≤ np

end Hloop

def LoopPhase.list? : LoopPhase → Option Nat
  | .pass i _ | .callback i _ _ => some i
  | _ => none

/-- `lists i` is the part of the list `i` still to be visited. -/
structure PassInv (s : Hloop) (lists : Nat → List Nat) : Prop where
  chain : ∀ i, IsChain s.next (s.unvisited i) (lists i)
  disjoint : ∀ i j x, x ∈ lists i → x ∈ lists j → i = j
  waits : ∀ i, ∀ x ∈ lists i, s.Waits x
  listed : ∀ x, s.Pending x → (∃ i, x ∈ lists i) ∨ s.Current x
  current : ∀ x, s.Current x → s.Waits x ∧ ∀ i, x ∉ lists i
  cleared : ∀ x ∈ s.cleared, s.HasType x .io ∨ s.phase.inPass ∧ s.HasType x .timeout
  outside : s.phase.outside → ∀ x, s.Pending x → s.HasType x .io
  counts : s.Counts s.npendings
  calledNodup : s.called.Nodup
  calledGone : s.phase.inPass → ∀ x ∈ s.called, ∀ i, x ∉ lists i
  bound : ∀ i, heventPrioritySize ≤ i → s.pendings i = none
  finished : ∀ i, s.phase.list? = some i → ∀ j, i < j → s.pendings j = none
  safe : s.phase ≠ .undefined

theorem PassInv.congr (h : PassInv s lists) (hlists : SameLists s s') (hmem : s'.mem = s.mem)
    (hcleared : s'.cleared = s.cleared) (hnp : s'.npendings = s.npendings) : PassInv s' lists := by
  obtain ⟨hphase, hpendings, hcalled⟩ := hlists
  cases s
  cases s'
  subst hphase hpendings hcalled hmem hcleared hnp
  exact ⟨h.chain, h.disjoint, h.waits, h.listed, h.current, h.cleared, h.outside, h.counts, h.calledNodup,
    h.calledGone, h.bound, h.finished, h.safe⟩

/-! ## Calls of the user -/

/-- What the lists need to know of a change. -/
structure Quiet (s s' : Hloop) : Prop where
  next : ∀ x, s.Waits x → s'.next x = s.next x
  type : ∀ x t, s.Waits x → s.HasType x t → s'.HasType x t
  pending : ∀ x, s'.Pending x → s.Pending x
  waits : ∀ x, s.Waits x → s'.Waits x
  cleared : ∀ x ∈ s'.cleared, x ∈ s.cleared ∨ s.Pending x ∧ (s.HasType x .io ∨ s.HasType x .timeout)
  counts : s.Counts s.npendings → s'.Counts s'.npendings

theorem Counts_mono {np np' : Int} (hp : ∀ x, s'.Pending x → s.Pending x) (hnp : np ≤ np')
    (h : s.Counts np) : s'.Counts np' := by
  obtain ⟨P, hP, hlen⟩ := h
  exact ⟨P, fun x hx => hP x (hp x hx), hlen.trans hnp⟩

theorem pending_of_update {x : Nat} {new : Option Hevent} (hmem : s'.mem = update s.mem a new)
    (hnew : ∀ ev, new = some ev → ev.pending → s.Pending a) (hx : s'.Pending x) : s.Pending x := by
  obtain ⟨ev, hev, hp⟩ := hx
  rw [hmem] at hev
  by_cases hxa : x = a
  · subst hxa
    rw [update_self] at hev
    exact hnew ev hev hp
  · rw [update_of_ne hxa] at hev
    exact ⟨ev, hev, hp⟩

/-- The object at `a` is replaced, and it does not wait or is replaced by one with the same link and type. -/
theorem quiet_update (new : Option Hevent) (hmem : s'.mem = update s.mem a new)
    (hlink : s.Waits a → ∃ ev ev', s.mem a = some ev ∧ new = some ev' ∧ ev'.eventType = ev.eventType ∧
      ev'.pendingNext = ev.pendingNext ∧ (ev'.pending = ev.pending ∨ a ∈ s'.cleared))
    (hnew : ∀ ev, new = some ev → ev.pending → s.Pending a) (hsub : ∀ x ∈ s.cleared, x ∈ s'.cleared)
    (hcleared : ∀ x ∈ s'.cleared, x ∈ s.cleared ∨ s.Pending x ∧ (s.HasType x .io ∨ s.HasType x .timeout))
    (hcounts : s.Counts s.npendings → s'.Counts s'.npendings) : Quiet s s' := by
  have hother : ∀ {x}, x ≠ a → s'.mem x = s.mem x := by
    intro x hx
    rw [hmem, update_of_ne hx]
  have hself : s'.mem a = new := by rw [hmem, update_self]
  refine ⟨fun x hx => ?_, fun x t hx ht => ?_, fun x hx => pending_of_update hmem hnew hx,
    fun x hx => ?_, hcleared, hcounts⟩
  · by_cases hxa : x = a
    · subst hxa
      obtain ⟨ev, ev', hev, rfl, -, hnext, -⟩ := hlink hx
      simp [Hloop.next, hself, hev, hnext]
    · simp [Hloop.next, hother hxa]
  · by_cases hxa : x = a
    · subst hxa
      obtain ⟨ev, ev', hev, rfl, htype, -, -⟩ := hlink hx
      obtain ⟨ev'', hev'', rfl⟩ := ht
      cases hev.symm.trans hev''
      exact ⟨ev', hself, htype⟩
    · obtain ⟨ev, hev, htype⟩ := ht
      exact ⟨ev, (hother hxa).trans hev, htype⟩
  · rcases hx with hp | hc
    · by_cases hxa : x = a
      · subst hxa
        obtain ⟨ev, ev', hev, rfl, -, -, hpend⟩ := hlink (.inl hp)
        obtain ⟨ev'', hev'', hp''⟩ := hp
        cases hev.symm.trans hev''
        rcases hpend with hpend | hmem'
        · exact .inl ⟨ev', hself, hpend.trans hp''⟩
        · exact .inr hmem'
      · obtain ⟨ev, hev, hp⟩ := hp
        exact .inl ⟨ev, (hother hxa).trans hev, hp⟩
    · exact .inr (hsub x hc)

/-- A change that clears no flag of a waiting event. -/
theorem quiet_update_same (new : Option Hevent) (hmem : s'.mem = update s.mem a new)
    (hlink : s.Waits a → ∃ ev ev', s.mem a = some ev ∧ new = some ev' ∧ Alike ev ev')
    (hnew : ∀ ev, new = some ev → ev.pending → s.Pending a) (hcl : s'.cleared = s.cleared)
    (hnp : s'.npendings = s.npendings) : Quiet s s' := by
  refine quiet_update new hmem (fun h => ?_) hnew (by simp [hcl]) (fun x hx => .inl (hcl ▸ hx))
    (Counts_mono (fun x hx => pending_of_update hmem hnew hx) (by rw [hnp]))
  obtain ⟨ev, ev', old, rfl, halike⟩ := hlink h
  exact ⟨ev, ev', old, rfl, halike.type, halike.next, .inl halike.pending⟩

theorem quiet_of_change {mayFree : Prop} (hc : Change s s' a mayFree) (hfree : mayFree → a ∉ s.cleared)
    (hlive : ∀ x ∈ s.cleared, s.mem x ≠ none) : Quiet s s' := by
  cases hc with
  | same hmem hcl hnp =>
    refine quiet_update_same (a := a) (s.mem a) (by rw [hmem, update_eq_self]) (fun hw => ?_)
      (fun ev hev hp => ⟨ev, hev, hp⟩) hcl hnp
    obtain ⟨ev, hev⟩ : ∃ ev, s.mem a = some ev := by
      rcases hw with ⟨ev, hev, -⟩ | hmem'
      · exact ⟨ev, hev⟩
      · exact Option.ne_none_iff_exists'.1 (hlive a hmem')
    exact ⟨ev, ev, hev, hev, rfl, rfl, rfl⟩
  | kept ev ev' old hmem halike hcl hnp =>
    refine quiet_update_same _ hmem (fun _ => ⟨ev, ev', old, rfl, halike⟩) (fun ev'' heq hp => ?_) hcl hnp
    cases heq
    exact ⟨ev, old, halike.pending.symm.trans hp⟩
  | unpended ev ev' old hmem htype hnext was hp hres hcl hnp =>
    have hpend : s.Pending a := ⟨ev, old, was⟩
    refine quiet_update _ hmem
      (fun _ => ⟨ev, ev', old, rfl, htype, hnext, .inr (by rw [hcl]; exact mem_cons_self)⟩)
      (fun _ _ _ => hpend) (fun x hx => by rw [hcl]; exact mem_cons_of_mem _ hx) ?_ ?_
    · intro x hx
      rw [hcl] at hx
      rcases mem_cons.1 hx with rfl | hx
      · exact .inr ⟨hpend, hres.imp (⟨ev, old, ·⟩) (⟨ev, old, ·⟩)⟩
      · exact .inl hx
    · rintro ⟨P, hP, hlen⟩
      have hlen' : P.length = (P.erase a).length + 1 := by
        rw [length_erase_of_mem (hP a hpend)]
        have := length_pos_of_mem (hP a hpend)
        omega
      refine ⟨P.erase a, fun x hx => ?_, by omega⟩
      have hxa : x ≠ a := by
        rintro rfl
        obtain ⟨ev'', hev'', hp''⟩ := hx
        rw [hmem, update_self] at hev''
        cases hev''
        simp [hp] at hp''
      exact (mem_erase_of_ne hxa).2 (hP x (pending_of_update hmem (fun _ _ _ => hpend) hx))
  | alloc ev' old hmem hp hcl hnp =>
    refine quiet_update_same _ hmem ?_ (fun ev'' heq hp' => ?_) hcl hnp
    · rintro (⟨ev, hev, -⟩ | hmem')
      · simp [old] at hev
      · exact absurd old (hlive a hmem')
    · cases heq
      simp [hp] at hp'
  | freed ev old hmem hp htype may hcl hnp =>
    refine quiet_update_same _ hmem ?_ nofun hcl hnp
    rintro (⟨ev', hev', hp'⟩ | hmem')
    · cases old.symm.trans hev'
      simp [hp] at hp'
    · exact absurd hmem' (hfree may)

theorem SameLists.unvisited (h : SameLists s s') (i : Nat) : s'.unvisited i = s.unvisited i := by
  rw [Hloop.unvisited, Hloop.unvisited, h.phase, h.pendings]

theorem SameLists.current (h : SameLists s s') (x : Nat) : s'.Current x ↔ s.Current x := by
  rw [Hloop.Current, Hloop.Current, h.phase]

theorem passInv_quiet (h : PassInv s lists) (hlists : SameLists s s') (hq : Quiet s s')
    (hphase : s.phase.outside ∨ s.phase.inPass ∨ s'.cleared = s.cleared) : PassInv s' lists where
  chain i := by
    rw [hlists.unvisited]
    exact (h.chain i).congr fun x hx => hq.next x (h.waits i x hx)
  disjoint := h.disjoint
  waits i x hx := hq.waits x (h.waits i x hx)
  listed x hx := (h.listed x (hq.pending x hx)).imp id (hlists.current x).2
  current x hx :=
    have hcur := h.current x ((hlists.current x).1 hx)
    ⟨hq.waits x hcur.1, hcur.2⟩
  cleared x hx := by
    rw [hlists.phase]
    have hold : x ∈ s.cleared → s'.HasType x .io ∨ s.phase.inPass ∧ s'.HasType x .timeout :=
      fun hc => (h.cleared x hc).imp (hq.type x _ (.inr hc)) (And.imp_right (hq.type x _ (.inr hc)))
    rcases hq.cleared x hx with hc | ⟨hp, htype⟩
    · exact hold hc
    · rcases hphase with hout | hin | hsame
      · exact .inl (hq.type x _ (.inl hp) (h.outside hout x hp))
      · exact htype.imp (hq.type x _ (.inl hp)) fun ht => ⟨hin, hq.type x _ (.inl hp) ht⟩
      · exact hold (hsame ▸ hx)
  outside hout x hx := by
    rw [hlists.phase] at hout
    exact hq.type x _ (.inl (hq.pending x hx)) (h.outside hout x (hq.pending x hx))
  counts := hq.counts h.counts
  calledNodup := by
    rw [hlists.called]
    exact h.calledNodup
  calledGone hin x hx := by
    rw [hlists.phase] at hin
    rw [hlists.called] at hx
    exact h.calledGone hin x hx
  bound i hi := by
    rw [hlists.pendings]
    exact h.bound i hi
  finished i hi j hj := by
    rw [hlists.phase] at hi
    rw [hlists.pendings]
    exact h.finished i hi j hj
  safe := by
    rw [hlists.phase]
    exact h.safe

theorem PassInv.cleared_live (h : PassInv s lists) {x : Nat} (hx : x ∈ s.cleared) : s.mem x ≠ none := by
  rcases h.cleared x hx with ⟨ev, hev, -⟩ | ⟨-, ev, hev, -⟩
  · simp [hev]
  · simp [hev]

theorem passInv_callOp {op : LoopOp} (h : PassInv s lists) (hok : LoopAllowed s (.call op))
    (hs : callOp s op = some s')
    (hphase : s.phase = .idle ∨ ∃ i cur next, s.phase = .callback i cur next) : PassInv s' lists := by
  obtain ⟨a, hlists, hc⟩ := callOp_change hs
  refine passInv_quiet h hlists (quiet_of_change hc ?_ fun x hx => h.cleared_live hx) ?_
  · rintro (hop | ⟨ev, hev, hidle⟩) hmem
    · exact (hok a hmem).2 (by rw [hop])
    · -- an idle is never reset
      rcases h.cleared a hmem with ⟨ev', hev', ht⟩ | ⟨-, ev', hev', ht⟩
      all_goals
        cases hev.symm.trans hev'
        simp [hidle] at ht
  · rcases hphase with e | ⟨i, cur, next, e⟩
    · exact .inl (by rw [e]; rfl)
    · exact .inr (.inl (by rw [e]; rfl))

/-! ## Collecting events -/

section

variable (hcollect : s.phase.collecting)

include hcollect

theorem unvisited_of_collecting (i : Nat) : s.unvisited i = s.pendings i := by
  unfold Hloop.unvisited
  split <;> simp_all [collecting]

theorem not_inPass_of_collecting : s.phase.inPass = false := by
  cases hp : s.phase <;> simp_all [collecting, inPass]

theorem not_current_of_collecting (x : Nat) : ¬ s.Current x := by
  rintro ⟨i, next, hp⟩
  simp [hp, collecting] at hcollect

theorem list?_of_collecting : s.phase.list? = none := by
  cases hp : s.phase <;> simp_all [collecting, list?]

theorem safe_of_collecting : s.phase ≠ .undefined := by
  rintro hp
  simp [hp, collecting] at hcollect

end

theorem passInv_move (h : PassInv s lists) (hold : s.phase.collecting) (hnew : s'.phase.collecting)
    (hout : s'.phase.outside → ∀ x, s.Pending x → s.HasType x .io) (hmem : s'.mem = s.mem)
    (hpendings : s'.pendings = s.pendings) (hnp : s'.npendings = s.npendings)
    (hcleared : s'.cleared = s.cleared) (hcalled : s'.called = s.called) : PassInv s' lists where
  chain i := by
    have := h.chain i
    rw [unvisited_of_collecting hold] at this
    rw [unvisited_of_collecting hnew, hpendings]
    exact this.congr fun x _ => by rw [Hloop.next, Hloop.next, hmem]
  disjoint := h.disjoint
  waits i x hx := by
    have := h.waits i x hx
    rwa [Hloop.Waits, Hloop.Pending, hmem, hcleared]
  listed x hx := by
    rw [Hloop.Pending, hmem] at hx
    exact (h.listed x hx).imp_right fun hc => absurd hc (not_current_of_collecting hold x)
  current x hx := absurd hx (not_current_of_collecting hnew x)
  cleared x hx := by
    rw [hcleared] at hx
    rcases h.cleared x hx with hio | ⟨hin, -⟩
    · left
      rwa [Hloop.HasType, hmem]
    · simp [not_inPass_of_collecting hold] at hin
  outside ho x hx := by
    rw [Hloop.Pending, hmem] at hx
    rw [Hloop.HasType, hmem]
    exact hout ho x hx
  counts := by
    rw [hnp]
    exact Counts_mono (fun x hx => by rwa [Hloop.Pending, hmem] at hx) (Int.le_rfl) h.counts
  calledNodup := hcalled ▸ h.calledNodup
  calledGone hin := by simp [not_inPass_of_collecting hnew] at hin
  bound := hpendings ▸ h.bound
  finished i hi := by simp [list?_of_collecting hnew] at hi
  safe := safe_of_collecting hnew

theorem passInv_link {ev₀ : Hevent} (ev : Hevent) (h : PassInv s lists)
    (hcollect : s.phase.collecting) (old : s.mem a = some ev₀) (htype : ev.eventType = ev₀.eventType)
    (hpend : ev.pending) (hnext : ev.pendingNext = s.pendings ev.priority)
    (hio : s.phase.outside → ev.eventType = .io) (hnot : ¬ s.Waits a) : PassInv
      { s with
        mem := update s.mem a (some ev)
        npendings := s.npendings + 1
        pendings := update s.pendings ev.priority (some a) }
      (update lists ev.priority (a :: lists ev.priority)) := by
  set s' : Hloop := { s with
    mem := update s.mem a (some ev)
    npendings := s.npendings + 1
    pendings := update s.pendings ev.priority (some a) } with hs'
  set lists' := update lists ev.priority (a :: lists ev.priority) with hlists'
  have hself : s'.mem a = some ev := update_self _ _ _
  have hother : ∀ {x}, x ≠ a → s'.mem x = s.mem x := fun hx => update_of_ne hx _ _
  have hcollect' : s'.phase.collecting := hcollect
  have hnotin : ∀ i, a ∉ lists i := fun i hi => hnot (h.waits i a hi)
  have hmem : ∀ i x, x ∈ lists' i ↔ x ∈ lists i ∨ i = ev.priority ∧ x = a := by
    intro i x
    by_cases hi : i = ev.priority
    · subst hi
      rw [hlists', update_self]
      simp [or_comm]
    · rw [hlists', update_of_ne hi]
      simp [hi]
  have hwaits : ∀ x, s.Waits x → s'.Waits x := by
    rintro x (⟨evx, hevx, hp⟩ | hc)
    · have hxa : x ≠ a := by
        rintro rfl
        exact hnot (.inl ⟨evx, hevx, hp⟩)
      exact .inl ⟨evx, (hother hxa).trans hevx, hp⟩
    · exact .inr hc
  have hpending : ∀ x, s'.Pending x → x = a ∨ s.Pending x := by
    rintro x ⟨evx, hevx, hp⟩
    by_cases hxa : x = a
    · exact .inl hxa
    · exact .inr ⟨evx, (hother hxa).symm.trans hevx, hp⟩
  have htypes : ∀ x t, s.HasType x t → s'.HasType x t := by
    rintro x t ⟨evx, hevx, ht⟩
    by_cases hxa : x = a
    · subst hxa
      cases old.symm.trans hevx
      exact ⟨ev, hself, htype.trans ht⟩
    · exact ⟨evx, (hother hxa).trans hevx, ht⟩
  have hchain : ∀ i, IsChain s'.next (s.pendings i) (lists i) := by
    intro i
    have := h.chain i
    rw [unvisited_of_collecting hcollect] at this
    refine this.congr fun x hx => ?_
    rw [Hloop.next, hother (by rintro rfl; exact hnotin i hx)]
    rfl
  refine ⟨fun i => ?_, fun i j x hi hj => ?_, fun i x hx => ?_, fun x hx => ?_, fun x hx => ?_,
    fun x hx => ?_, fun hout x hx => ?_, ?_, h.calledNodup, fun hin => ?_, fun i hi => ?_, fun i hi => ?_, h.safe⟩
  · rw [unvisited_of_collecting hcollect']
    by_cases hi : i = ev.priority
    · subst hi
      rw [hlists', update_self]
      refine ⟨update_self _ _ _, s.pendings ev.priority, ?_, hchain _⟩
      simp [Hloop.next, hself, hnext]
    · rw [hlists', update_of_ne hi]
      show IsChain _ (update s.pendings ev.priority (some a) i) _
      rw [update_of_ne hi]
      exact hchain i
  · rw [hmem] at hi hj
    rcases hi with hi | ⟨hi, rfl⟩
    · rcases hj with hj | ⟨hj, rfl⟩
      · exact h.disjoint i j x hi hj
      · exact absurd hi (hnotin i)
    · rcases hj with hj | ⟨hj, -⟩
      · exact absurd hj (hnotin j)
      · exact hi.trans hj.symm
  · rcases (hmem i x).1 hx with hx | ⟨-, rfl⟩
    · exact hwaits x (h.waits i x hx)
    · exact .inl ⟨ev, hself, hpend⟩
  · rcases hpending x hx with rfl | hx
    · exact .inl ⟨ev.priority, (hmem _ _).2 (.inr ⟨rfl, rfl⟩)⟩
    · rcases h.listed x hx with ⟨i, hi⟩ | hcur
      · exact .inl ⟨i, (hmem _ _).2 (.inl hi)⟩
      · exact absurd hcur (not_current_of_collecting hcollect x)
  · exact absurd hx (not_current_of_collecting hcollect' x)
  · exact (h.cleared x hx).imp (htypes x _) (And.imp_right (htypes x _))
  · rcases hpending x hx with rfl | hx
    · exact ⟨ev, hself, hio hout⟩
    · exact htypes x _ (h.outside hout x hx)
  · obtain ⟨P, hP, hlen⟩ := h.counts
    refine ⟨a :: P, fun x hx => ?_, ?_⟩
    · rcases hpending x hx with rfl | hx
      · exact mem_cons_self
      · exact mem_cons_of_mem _ (hP x hx)
    · show (((a :: P).length : Nat) : Int) ≤ s.npendings + 1
      rw [length_cons]
      omega
  · simp [not_inPass_of_collecting hcollect'] at hin
  · show update s.pendings ev.priority (some a) i = none
    rw [update_of_ne (by omega)]
    exact h.bound i hi
  · simp [list?_of_collecting hcollect'] at hi

theorem passInv_eventPending {ev₀ ev : Hevent} (h : PassInv s lists) (hcollect : s.phase.collecting)
    (old : s.mem a = some ev₀) (halike : Alike ev₀ ev) (hc : a ∉ s.cleared)
    (hio : s.phase.outside → ev.eventType = .io) : ∃ lists', PassInv (eventPending s a ev) lists' := by
  by_cases hp : ev.pending
  · refine ⟨lists, ?_⟩
    rw [eventPending, if_pos hp]
    have hchange : Change s (s.set a ev) a False := .kept ev₀ ev old rfl halike rfl rfl
    exact passInv_quiet h ⟨rfl, rfl, rfl⟩
      (quiet_of_change hchange (fun h => h.elim) fun x hx => h.cleared_live hx) (.inr (.inr rfl))
  · have hnot : ¬ s.Waits a := by
      rintro (⟨ev', hev', hp'⟩ | hmem)
      · cases old.symm.trans hev'
        exact hp (halike.pending.trans hp')
      · exact hc hmem
    rw [eventPending, if_neg hp]
    exact ⟨_, passInv_link { ev with pending := true, pendingNext := s.pendings ev.priority } h hcollect old
      halike.type rfl rfl hio hnot⟩

end HvVerified.Event
