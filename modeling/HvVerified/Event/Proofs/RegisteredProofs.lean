import HvVerified.Event.Counters
import HvVerified.Event.Proofs.HloopProofs

/-!
# Proofs: the timers and idles of the loop are live

A step of the loop replaces at most one event object, and the heaps of timers, the list of idles and the
counters change by what the old and the new object contribute (`Effect`). The lists refer to live objects
only, which are not marked as destroyed, so that the loops that collect the due events never access a
freed one. This holds in all runs.
-/

namespace HvVerified.Event

open Lib Function List Hevent Hloop

variable {s s' s₁ : Hloop} {a : Nat} {mem : Nat → Option Hevent} {type : HeventType} {l l' : List Nat}
  {x old₀ : Option Hevent} {ev ev' : Hevent} {n : Int} {rest : List Nat} {n' : Int}

/-- The elements of `l` are distinct live objects of the given type, none of them destroyed. -/
structure Live (mem : Nat → Option Hevent) (type : HeventType) (l : List Nat) : Prop where
  nodup : l.Nodup
  live : ∀ a ∈ l, ∃ ev, mem a = some ev ∧ ev.eventType = type ∧ ev.destroy = false

def Hevent.liveAs (type : HeventType) (ev : Hevent) : Bool := ev.eventType = type && !ev.destroy

theorem any_liveAs : x.any (liveAs type) ↔ ∃ ev, x = some ev ∧ ev.eventType = type ∧ ev.destroy = false := by
  cases x <;> simp [liveAs]

theorem Live.notMem (h : Live mem type l) (ha : (mem a).any (liveAs type) = false) : a ∉ l := by
  intro hmem
  simp [any_liveAs.2 (h.live a hmem)] at ha

theorem Live.notMem_erase (h : Live mem type l) : a ∉ l.erase a := h.nodup.not_mem_erase

/-! ## What a step does to the lists -/

/-- What becomes of the list of a type when the object at `a` is replaced by `x`. -/
inductive ListChange (type : HeventType) (a : Nat) (old x : Option Hevent) (l : List Nat) : List Nat → Prop
  | same (h : x.any (liveAs type) = old.any (liveAs type)) : ListChange type a old x l l
  | removed (hold : old.any (liveAs type)) (hx : x.any (liveAs type) = false) :
      ListChange type a old x l (l.erase a)
  | added (hold : old.any (liveAs type) = false) (hx : x.any (liveAs type)) :
      ListChange type a old x l (a :: l)
  | moved (hold : old.any (liveAs type)) (hx : x.any (liveAs type)) :
      ListChange type a old x l (a :: l.erase a)

theorem ListChange.mem_of_ne {b : Nat} (hc : ListChange type a old₀ x l l') (hb : b ≠ a) : b ∈ l' ↔ b ∈ l := by
  cases hc <;> simp [hb, mem_erase_of_ne hb]

theorem Live.change (h : Live mem type l) (hc : ListChange type a (mem a) x l l') :
    Live (update mem a x) type l' := by
  refine ⟨?_, fun b hb => any_liveAs.1 ?_⟩
  · cases hc with
    | same _ => exact h.nodup
    | removed _ _ => exact h.nodup.erase a
    | added hold _ => exact nodup_cons.2 ⟨h.notMem hold, h.nodup⟩
    | moved _ _ => exact nodup_cons.2 ⟨h.notMem_erase, h.nodup.erase a⟩
  · by_cases hba : b = a
    · subst hba
      rw [update_self]
      cases hc with
      | same hx => exact hx.trans (any_liveAs.2 (h.live b hb))
      | removed _ _ => exact absurd hb h.notMem_erase
      | added _ hx => exact hx
      | moved _ hx => exact hx
    · rw [update_of_ne hba]
      exact any_liveAs.2 (h.live b ((hc.mem_of_ne hba).1 hb))

theorem ListChange.listed (hc : ListChange type a (mem a) x l l') (h : ∀ b, (mem b).any (liveAs type) → b ∈ l) {b : Nat}
    (hb : (update mem a x b).any (liveAs type)) : b ∈ l' := by
  by_cases hba : b = a
  · subst hba
    rw [update_self] at hb
    cases hc with
    | same hx => exact h b (hx.symm.trans hb)
    | removed _ hx => simp [hx] at hb
    | added | moved => exact mem_cons_self
  · rw [update_of_ne hba] at hb
    exact (hc.mem_of_ne hba).2 (h b hb)

theorem ListChange.length (hc : ListChange type a old₀ x l l') (h : old₀.any (liveAs type) → a ∈ l) :
    (l'.length : Int) = l.length - weight (liveAs type) old₀ + weight (liveAs type) x := by
  have herase : a ∈ l → ((l.erase a).length : Int) = l.length - 1 := by
    intro ha
    have hpos := length_pos_of_mem ha
    rw [length_erase_of_mem ha]
    omega
  cases hc with
  | same hx => simp [weight, hx]
  | removed hold hx => simp [weight, hold, hx, herase (h hold)]
  | added hold hx => simp [weight, hold, hx]
  | moved hold hx => simp [weight, hold, hx, herase (h hold)]

/-! ## What a step does to the loop -/

/-- The list that the loop has for the events of a type; there is none for ios. -/
def Hloop.listOf (s : Hloop) : HeventType → List Nat
  | .io => []
  | .timeout => s.timers
  | .period => s.realtimers
  | .idle => s.idles

def timerWeight (x : Option Hevent) : Int := weight (liveAs .timeout) x + weight (liveAs .period) x

/-- An io is never destroyed; another event is active unless it is destroyed. -/
structure Sound (ev : Hevent) : Prop where
  io : ev.eventType = .io → ev.destroy = false
  active : ev.eventType ≠ .io → ev.destroy = false → ev.active
  positive : ev.eventType = .timeout → 0 < ev.timeout

/-- A new object is not linked, and the callback of a timer is never replaced. -/
structure Replaces (old : Option Hevent) (ev' : Hevent) : Prop where
  next : old = none → ev'.pendingNext = none
  cb : ∀ ev, old = some ev → ev.eventType = .timeout → ev'.cb = ev.cb

/-- The object at `a` is replaced by `x`; the lists and the counters change by what the two contribute. -/
structure Effect (s s' : Hloop) (a : Nat) (x : Option Hevent) : Prop where
  mem : s'.mem = update s.mem a x
  lists : ∀ type ≠ .io, ListChange type a (s.mem a) x (s.listOf type) (s'.listOf type)
  ntimers : s'.ntimers = s.ntimers - timerWeight (s.mem a) + timerWeight x
  nidles : s'.nidles = s.nidles - weight (liveAs .idle) (s.mem a) + weight (liveAs .idle) x
  nios : (∀ ev, s.mem a = some ev → Sound ev) → s'.nios = s.nios - weight isActiveIo (s.mem a) + weight isActiveIo x
  sound : (∀ ev, s.mem a = some ev → Sound ev) → ∀ ev, x = some ev → Sound ev
  object : ∀ ev, x = some ev → Replaces (s.mem a) ev

/-- The loop without the phase, the pending lists, the clock and the history. -/
def Hloop.bare (s : Hloop) : Hloop where
  mem := s.mem
  timers := s.timers
  realtimers := s.realtimers
  ntimers := s.ntimers
  idles := s.idles
  nidles := s.nidles
  nios := s.nios

theorem listOf_bare (type : HeventType) : s.bare.listOf type = s.listOf type := by
  cases type <;> rfl

theorem Effect.congr (h : Effect s s₁ a x) (hbare : s'.bare = s₁.bare) : Effect s s' a x where
  mem := (congrArg Hloop.mem hbare).trans h.mem
  lists type hne := by
    rw [← listOf_bare (s := s'), hbare, listOf_bare]
    exact h.lists type hne
  ntimers := (congrArg Hloop.ntimers hbare).trans h.ntimers
  nidles := (congrArg Hloop.nidles hbare).trans h.nidles
  nios hsound := (congrArg Hloop.nios hbare).trans (h.nios hsound)
  sound := h.sound
  object := h.object

theorem replaces_of_cb (old : s.mem a = some ev) (hcb : ev.eventType = .timeout → ev'.cb = ev.cb) :
    Replaces (s.mem a) ev' := by
  refine ⟨by simp [old], fun ev₀ hev₀ => ?_⟩
  cases old.symm.trans hev₀
  exact hcb

theorem effect_same (hbare : s'.bare = s.bare) : Effect s s' a (s.mem a) :=
  Effect.congr ⟨(update_eq_self a s.mem).symm, fun _ _ => .same rfl, by omega, by omega, fun _ => by omega, id,
    fun _ hev => replaces_of_cb hev fun _ => rfl⟩ hbare

section Kept

variable (ev') (old : s.mem a = some ev) (htype : ev'.eventType = ev.eventType) (hd : ev'.destroy = ev.destroy)

include old htype hd

theorem effect_set (nios : Int) (hnios : nios = s.nios - weight isActiveIo (some ev) + weight isActiveIo (some ev'))
    (hsound : Sound ev → Sound ev') (hcb : ev.eventType = .timeout → ev'.cb = ev.cb) :
    Effect s { s.set a ev' with nios } a (some ev') := by
  have hlive : ∀ type, (some ev').any (liveAs type) = (some ev).any (liveAs type) := by
    simp [liveAs, htype, hd]
  refine ⟨rfl, fun type _ => ?_, ?_, ?_, fun _ => ?_, fun h ev'' hev'' => ?_, fun ev'' hev'' => ?_⟩
  · rw [old]
    exact .same (hlive type)
  · rw [old]
    simp [timerWeight, weight, hlive, Hloop.set]
  · rw [old]
    simp [weight, hlive, Hloop.set]
  · rwa [old]
  · cases hev''
    exact hsound (h ev old)
  · cases hev''
    exact replaces_of_cb old hcb

theorem effect_io (hio : ev.eventType = .io) (nios : Int)
    (hnios : nios = s.nios - weight active (some ev) + weight active (some ev')) :
    Effect s { s.set a ev' with nios } a (some ev') := by
  refine effect_set ev' old htype hd nios ?_ (fun h => ⟨fun _ => hd.trans (h.io hio), ?_, ?_⟩) (by simp [hio])
  · rw [hnios]
    simp [weight, isActiveIo, htype, hio]
  · simp [htype, hio]
  · simp [htype, hio]

theorem effect_kept (hactive : ev'.active = ev.active) (htimeout : ev'.timeout = ev.timeout) (hcb : ev'.cb = ev.cb) :
    Effect s (s.set a ev') a (some ev') := by
  refine effect_set ev' old htype hd s.nios ?_ (fun h => ⟨?_, ?_, ?_⟩) fun _ => hcb
  · simp [weight, isActiveIo, htype, hactive]
  · rw [htype, hd]
    exact h.io
  · rw [htype, hd, hactive]
    exact h.active
  · rw [htype, htimeout]
    exact h.positive

end Kept

/-! ## The calls -/

section Calls

/-- What `hio_add` puts at `a`: an active io that is destroyed if it was before. -/
def AddedIo (io io' : Hevent) : Prop := io'.eventType = .io ∧ io'.destroy = io.destroy ∧ io'.active

theorem hioAdd_eq {io : Hevent} (hio : io.eventType = .io) (cb : Bool) (events : UInt32) : ∃ io', AddedIo io io' ∧
      hioAdd s a io cb events = { s.set a io' with nios := if io.active then s.nios else s.nios + 1 } := by
  -- each line of `hio_add` keeps what the first one has made
  have hactive : AddedIo io (if io.active then io else { io with cb, active := true }) := by
    split_ifs with hwas
    · exact ⟨hio, rfl, hwas⟩
    · exact ⟨hio, rfl, rfl⟩
  have hready : ∀ e, AddedIo io e → AddedIo io (if e.ready then e else { e with ready := true, events := 0 }) := by
    intro e he
    split_ifs <;> exact he
  have hcb : ∀ e, AddedIo io e → AddedIo io (if cb then { e with cb := true } else e) := by
    intro e he
    split_ifs <;> exact he
  have hevents : ∀ e, AddedIo io e →
      AddedIo io (if e.events &&& events = 0 then { e with events := e.events ||| events } else e) := by
    intro e he
    split_ifs <;> exact he
  have hnios : (if io.active then s else { s with nios := s.nios + 1 }) =
      { s with nios := if io.active then s.nios else s.nios + 1 } := by
    split_ifs <;> rfl
  refine ⟨_, hevents _ (hcb _ (hready _ hactive)), ?_⟩
  unfold hioAdd
  rw [hnios]
  rfl

/-- The effect of a step that takes `nactives` from `n` to `n'`. -/
def Effects (s s' : Hloop) (a : Nat) (n n' : Int) : Prop :=
  ∃ x, Effect s s' a x ∧ n' = n - weight active (s.mem a) + weight active x

theorem effects_same (hbare : s'.bare = s.bare) : Effects s s' a n n := ⟨s.mem a, effect_same hbare, by omega⟩

theorem Effects.congr (h : Effects s s₁ a n n') (hbare : s'.bare = s₁.bare) : Effects s s' a n n' := by
  obtain ⟨x, hx, hn⟩ := h
  exact ⟨x, hx.congr hbare, hn⟩

theorem effects_hioAdd (old : s.mem a = some ev) (hio : ev.eventType = .io) (cb : Bool) (events : UInt32) :
    Effects s (hioAdd s a ev cb events) a n (eventActive ev.active n) := by
  obtain ⟨io', ⟨hio', hd, hactive⟩, heq⟩ := @hioAdd_eq s a ev hio cb events
  rw [heq]
  refine ⟨some io', effect_io io' old (hio'.trans hio.symm) hd hio _ ?_, ?_⟩
  · cases hwas : ev.active <;> simp [weight, hwas, hactive]
  · cases hwas : ev.active <;> simp [weight, eventActive, old, hwas, hactive]

theorem effects_hioDel (old : s.mem a = some ev) (hio : ev.eventType = .io) (htype : ev'.eventType = ev.eventType)
    (hd : ev'.destroy = ev.destroy) (hactive : ev'.active = ev.active) (events : UInt32) :
    Effects s (hioDel s a ev' events) a n (hioDelActives ev' events n) := by
  have hkept : ∀ io' : Hevent, io'.eventType = ev.eventType → io'.destroy = ev.destroy → io'.active = ev.active →
      Effects s (s.set a io') a n n := fun io' htype hd hactive =>
    ⟨some io', effect_io io' old htype hd hio s.nios (by simp [weight, hactive]), by simp [weight, old, hactive]⟩
  -- the last event is removed
  have hgone : ∀ io' : Hevent, io'.eventType = ev.eventType → io'.destroy = ev.destroy → ev.active →
      io'.active = false → Effects s { s.set a io' with nios := s.nios - 1 } a n (n - 1) :=
    fun io' htype hd hwas hactive => ⟨some io', effect_io io' old htype hd hio _ (by simp [weight, hwas, hactive]),
      by simp [weight, old, hwas, hactive]⟩
  unfold hioDel hioDelActives eventInactive eventUnpending
  dsimp only
  by_cases hwas : ev'.active
  · have hnot : ¬ (!ev'.active) := by simp [hwas]
    split_ifs
    all_goals first
      | exact (hgone _ (by exact htype) (by exact hd) (hactive.symm.trans hwas) (by rfl)).congr
          rfl
      | exact hkept _ htype hd hactive
  · rw [if_pos (by simp [hwas]), if_pos (by simp [hwas])]
    exact hkept ev' htype hd hactive

/-- `__htimer_del` and `__hidle_del` take an event out of its list. -/
structure Unlinked (s s₁ : Hloop) (a : Nat) (ev : Hevent) : Prop where
  mem : s₁.mem = s.mem
  lists : ∀ type ≠ .io, s₁.listOf type = if ev.liveAs type then (s.listOf type).erase a else s.listOf type
  ntimers : s₁.ntimers = s.ntimers - timerWeight (some ev)
  nidles : s₁.nidles = s.nidles - weight (liveAs .idle) (some ev)
  nios : s₁.nios = s.nios

theorem unlinked_of_destroy (hd : ev.destroy) : Unlinked s s a ev :=
  ⟨rfl, by simp [liveAs, hd], by simp [timerWeight, weight, liveAs, hd], by simp [weight, liveAs, hd], rfl⟩

theorem unlinked_htimerUnlink (htimer : ev.eventType = .timeout ∨ ev.eventType = .period)
    (htype : ev'.eventType = ev.eventType) (hd : ev'.destroy = ev.destroy) :
    Unlinked s (htimerUnlink s a ev') a ev := by
  unfold htimerUnlink
  rw [hd]
  split_ifs with hdestroy
  · exact unlinked_of_destroy hdestroy
  · rcases htimer with e | e
    all_goals
      rw [htype, e]
      refine ⟨rfl, fun type _ => ?_, by simp [timerWeight, weight, liveAs, e, hdestroy],
        by simp [weight, liveAs, e], rfl⟩
      cases type <;> simp [listOf, liveAs, e, hdestroy]

theorem unlinked_hidleUnlink (hidle : ev.eventType = .idle) (hd : ev'.destroy = ev.destroy) :
    Unlinked s (hidleUnlink s a ev') a ev := by
  unfold hidleUnlink
  rw [hd]
  split_ifs with hdestroy
  · exact unlinked_of_destroy hdestroy
  · refine ⟨rfl, fun type _ => ?_, by simp [timerWeight, weight, liveAs, hidle],
      by simp [weight, liveAs, hidle, hdestroy], rfl⟩
    cases type <;> simp [listOf, liveAs, hidle, hdestroy]

theorem effect_destroyed (old : s.mem a = some ev) (hio : Sound ev → ev.eventType ≠ .io) (hunlinked : Unlinked s s₁ a ev)
    (hx : ∀ ev', x = some ev' → ev'.eventType = ev.eventType ∧ ev'.destroy ∧ ev'.timeout = ev.timeout ∧
      ev'.cb = ev.cb) : Effect s { s₁ with mem := update s.mem a x } a x := by
  have hgone : ∀ type, x.any (liveAs type) = false := by
    intro type
    cases x with
    | none => rfl
    | some ev' => simp [liveAs, (hx ev' rfl).2.1]
  refine ⟨rfl, fun type htype => ?_, ?_, ?_, fun h => ?_, fun h ev' hev' => ?_,
    fun ev' hev' => replaces_of_cb old fun _ => (hx ev' hev').2.2.2⟩
  · show ListChange type a (s.mem a) x (s.listOf type) (s₁.listOf type)
    rw [hunlinked.lists type htype, old]
    split_ifs with hlive
    · exact .removed hlive (hgone type)
    · exact .same ((hgone type).trans (eq_false_of_ne_true hlive).symm)
  · rw [old]
    simp [hunlinked.ntimers, timerWeight, weight, hgone]
  · rw [old]
    simp [hunlinked.nidles, weight, hgone]
  · have hio := hio (h ev old)
    have hnew : weight isActiveIo x = 0 := by
      cases x with
      | none => rfl
      | some ev' => simp [weight, isActiveIo, (hx ev' rfl).1, hio]
    rw [old, hnew]
    simp [hunlinked.nios, weight, isActiveIo, hio]
  · obtain ⟨htype, hd, htimeout, -⟩ := hx ev' hev'
    refine ⟨fun e => absurd (htype.symm.trans e) (hio (h ev old)), by simp [hd], fun e => ?_⟩
    rw [htimeout]
    exact (h ev old).positive (htype.symm.trans e)

theorem effects_eventDel (old : s.mem a = some ev) (hio : ev.eventType ≠ .io) (hunlinked : Unlinked s s₁ a ev)
    (htype : ev'.eventType = ev.eventType) (hd : ev'.destroy) (htimeout : ev'.timeout = ev.timeout) (hcb : ev'.cb = ev.cb) :
    Effects s (eventDel s₁ a ev') a n (eventInactive ev.active n) := by
  have hn : ∀ x : Option Hevent, weight active x = 0 →
      eventInactive ev.active n = n - weight active (s.mem a) + weight active x := by
    intro x hx
    rw [hx, old]
    cases hactive : ev.active <;> simp [weight, eventInactive, hactive]
  unfold eventDel Hloop.set Hloop.free
  rw [hunlinked.mem]
  split_ifs
  · refine ⟨some { ev' with active := false }, effect_destroyed old (fun _ => hio) hunlinked ?_, hn _ rfl⟩
    rintro _ ⟨⟩
    exact ⟨htype, hd, htimeout, hcb⟩
  · exact ⟨none, effect_destroyed old (fun _ => hio) hunlinked (by simp), hn _ rfl⟩

theorem effects_htimerReset (old : s.mem a = some ev) (timeout : Nat) :
    Effects s (htimerReset s a ev timeout) a n (htimerResetActives ev n) := by
  unfold htimerReset htimerResetActives
  by_cases htype : ev.eventType = .timeout
  · rw [if_neg (not_not.2 htype), if_neg (not_not.2 htype)]
    by_cases hd : ev.destroy
    all_goals
      simp only [hd, if_true, Bool.false_eq_true, if_false]
      refine ⟨_, ⟨rfl, fun type hne => ?_, ?_, ?_, fun _ => ?_, fun h ev' hev' => ?_, ?_⟩, ?_⟩
      · rw [old]
        cases type with
        | io => exact absurd rfl hne
        | timeout =>
          first
            | exact .added (by simp [liveAs, hd]) (by simp [liveAs, htype])
            | exact .moved (by simp [liveAs, hd, htype]) (by simp [liveAs, htype])
        | period | idle => exact .same (by simp [liveAs, htype])
      · simp [eventReset, Hloop.set, timerWeight, weight, liveAs, old, htype, hd]
      · simp [eventReset, Hloop.set, weight, liveAs, old, htype]
      · simp [eventReset, Hloop.set, weight, isActiveIo, old, htype]
      · cases hev'
        refine ⟨fun _ => rfl, fun _ _ => rfl, fun _ => ?_⟩
        show 0 < if timeout > 0 then timeout else ev.timeout
        split_ifs with ht
        · exact ht
        · exact (h ev old).positive htype
      · rintro _ ⟨⟩
        exact replaces_of_cb old fun _ => rfl
      · cases hactive : ev.active <;> simp [weight, eventActive, old, hactive]
  · rw [if_pos htype, if_pos htype]
    exact effects_same rfl

theorem effects_alloc (old : s.mem a = none) (hmem : s'.mem = update s.mem a (some ev)) (hd : ev.destroy = false)
    (hlists : ∀ type ≠ .io, s'.listOf type = if ev.eventType = type then a :: s.listOf type else s.listOf type)
    (hntimers : s'.ntimers = s.ntimers + timerWeight (some ev))
    (hnidles : s'.nidles = s.nidles + weight (liveAs .idle) (some ev))
    (hnios : s'.nios = s.nios + weight isActiveIo (some ev)) (hsound : Sound ev) (hnext : ev.pendingNext = none)
    (hn : n' = n + weight active (some ev)) : Effects s s' a n n' := by
  refine ⟨some ev, ⟨hmem, fun type hne => ?_, ?_, ?_, fun _ => ?_, fun _ ev' hev' => ?_, fun ev' hev' => ?_⟩, ?_⟩
  · rw [hlists type hne, old]
    split_ifs with htype
    · exact .added rfl (by simp [liveAs, htype, hd])
    · exact .same (by simp [liveAs, htype])
  · simp [hntimers, old, timerWeight, weight]
  · simp [hnidles, old, weight]
  · simp [hnios, old, weight]
  · cases hev'
    exact hsound
  · cases hev'
    exact ⟨fun _ => hnext, by simp [old]⟩
  · simp [hn, old, weight]

theorem callOp_effects {op : LoopOp} (hs : callOp s op = some s') : ∃ a, Effects s s' a n (callActives s n op) := by
  cases op <;> rw [callOp] at hs
  case hioGet a =>
    obtain ⟨old, rfl⟩ := withFresh_eq_some hs
    refine ⟨a, effects_alloc old rfl rfl ?_ (Int.add_zero _).symm (Int.add_zero _).symm (Int.add_zero _).symm
      ⟨fun _ => rfl, by simp, by simp⟩ rfl (Int.add_zero _).symm⟩
    rintro (_ | _ | _ | _) hne <;> first | exact absurd rfl hne | rfl
  case hioAdd a cb events =>
    obtain ⟨io, old, hio, rfl⟩ := withHandle_eq_some hs
    rw [callActives, isActive, old]
    exact ⟨a, effects_hioAdd old (by simpa using hio) cb events⟩
  case hioDel a events =>
    obtain ⟨io, old, hio, rfl⟩ := withHandle_eq_some hs
    rw [callActives, old]
    exact ⟨a, effects_hioDel old (by simpa using hio) rfl rfl rfl events⟩
  case hioDone a =>
    obtain ⟨io, old, hio, rfl⟩ := withHandle_eq_some hs
    rw [callActives, old]
    unfold hioDoneEvents
    dsimp only [Option.elim]
    split_ifs
    · exact ⟨a, @effects_hioDel s a io { io with ready := false } n old (by simpa using hio) rfl rfl rfl hvRdwr⟩
    · exact ⟨a, effects_same rfl⟩
  case hidleAdd a repeats cb =>
    obtain ⟨old, rfl⟩ := withFresh_eq_some hs
    refine ⟨a, effects_alloc old rfl rfl ?_ (Int.add_zero _).symm rfl (Int.add_zero _).symm
      ⟨fun _ => rfl, fun _ _ => rfl, by simp⟩ rfl rfl⟩
    rintro (_ | _ | _ | _) _ <;> rfl
  case hidleDel a =>
    obtain ⟨idle, old, hidle, rfl⟩ := withHandle_eq_some hs
    have hidle : idle.eventType = .idle := by simpa using hidle
    rw [callActives, isActive, old]
    unfold hidleDel
    split_ifs with hactive
    · rw [Option.any_some, eventInactive, if_neg (by simpa using hactive)]
      exact ⟨a, effects_same rfl⟩
    · exact ⟨a, effects_eventDel old (by simp [hidle]) (unlinked_hidleUnlink hidle rfl) rfl rfl rfl rfl⟩
  case htimerAdd a timeout repeats cb now =>
    obtain ⟨old, rfl⟩ := withFresh_eq_some hs
    rw [callActives]
    unfold htimerAdd
    split_ifs with ht
    · exact ⟨a, effects_same rfl⟩
    · refine ⟨a, effects_alloc old rfl rfl ?_ rfl (Int.add_zero _).symm (Int.add_zero _).symm
        ⟨fun _ => rfl, fun _ _ => rfl, fun _ => ?_⟩ rfl rfl⟩
      · rintro (_ | _ | _ | _) _ <;> rfl
      · exact Nat.pos_of_ne_zero ht
  case htimerAddPeriod a repeats cb cron =>
    obtain ⟨old, rfl⟩ := withFresh_eq_some hs
    refine ⟨a, effects_alloc old rfl rfl ?_ rfl (Int.add_zero _).symm (Int.add_zero _).symm
      ⟨fun _ => rfl, fun _ _ => rfl, by simp⟩ rfl rfl⟩
    rintro (_ | _ | _ | _) _ <;> rfl
  case htimerReset a timeout =>
    obtain ⟨timer, old, -, rfl⟩ := withHandle_eq_some hs
    rw [callActives, old]
    exact ⟨a, effects_htimerReset old timeout⟩
  case htimerDel a =>
    obtain ⟨timer, old, htimer, rfl⟩ := withHandle_eq_some hs
    have htimer : timer.eventType = .timeout ∨ timer.eventType = .period := by simpa using htimer
    rw [callActives, isActive, old]
    unfold htimerDel
    split_ifs with hactive
    · rw [Option.any_some, eventInactive, if_neg (by simpa using hactive)]
      exact ⟨a, effects_same rfl⟩
    · have hio : timer.eventType ≠ .io := by
        rcases htimer with e | e <;> simp [e]
      exact ⟨a, effects_eventDel old hio (unlinked_htimerUnlink htimer rfl rfl) rfl rfl rfl rfl⟩
  case heventSetPriority a priority =>
    obtain ⟨ev, old, -, rfl⟩ := withHandle_eq_some hs
    exact ⟨a, _, effect_kept _ old rfl rfl rfl rfl rfl, by simp [callActives, weight, old]⟩

end Calls

/-! ## The steps -/

section Steps

variable {cur i limit cron : Nat} {next : Option Nat} {act : LoopAct}

theorem eventPending_eq (s : Hloop) (a : Nat) (ev : Hevent) :
    ∃ ev' npendings pendings, (ev'.eventType = ev.eventType ∧ ev'.destroy = ev.destroy ∧ ev'.active = ev.active ∧
      ev'.timeout = ev.timeout ∧ ev'.cb = ev.cb) ∧
      eventPending s a ev = { s with mem := update s.mem a (some ev'), npendings, pendings } := by
  unfold eventPending
  split_ifs
  · exact ⟨ev, _, _, ⟨rfl, rfl, rfl, rfl, rfl⟩, rfl⟩
  · exact ⟨{ ev with pending := true, pendingNext := s.pendings ev.priority }, _, _, ⟨rfl, rfl, rfl, rfl, rfl⟩, rfl⟩

theorem effects_eventPending (ev' : Hevent) (old : s.mem a = some ev) (htype : ev'.eventType = ev.eventType)
    (hd : ev'.destroy = ev.destroy) (hactive : ev'.active = ev.active) (htimeout : ev'.timeout = ev.timeout)
    (hcb : ev'.cb = ev.cb) : Effects s (eventPending s a ev') a n n := by
  obtain ⟨ev'', npendings, pendings, ⟨htype', hd', hactive', htimeout', hcb'⟩, heq⟩ := eventPending_eq s a ev'
  rw [heq]
  exact ⟨some ev'', (effect_kept ev'' old (htype'.trans htype) (hd'.trans hd) (hactive'.trans hactive)
    (htimeout'.trans htimeout) (hcb'.trans hcb)).congr rfl, by simp [weight, old, hactive', hactive]⟩

/-- `EVENT_PENDING` of an event that has been taken out of its list; it stays active until its callback has
    been called. -/
theorem effects_eventPending_destroyed (old : s.mem a = some ev) (hio : ev.eventType ≠ .io)
    (hunlinked : Unlinked s s₁ a ev) (htype : ev'.eventType = ev.eventType) (hd : ev'.destroy)
    (hactive : ev'.active = ev.active) (htimeout : ev'.timeout = ev.timeout) (hcb : ev'.cb = ev.cb) :
    Effects s (eventPending s₁ a ev') a n n := by
  obtain ⟨ev'', npendings, pendings, ⟨htype', hd', hactive', htimeout', hcb'⟩, heq⟩ := eventPending_eq s₁ a ev'
  rw [heq, hunlinked.mem]
  refine ⟨some ev'', (effect_destroyed old (fun _ => hio) hunlinked ?_).congr rfl,
    by simp [weight, old, hactive', hactive]⟩
  rintro _ ⟨⟩
  exact ⟨htype'.trans htype, hd'.trans hd, htimeout'.trans htimeout, hcb'.trans hcb⟩

theorem effects_processTimer (old : s.mem a = some ev) (htimer : ev.eventType = .timeout ∨ ev.eventType = .period) :
    Effects s (processTimer s a ev limit cron) a n n := by
  have hio : ev.eventType ≠ .io := by
    rcases htimer with e | e <;> simp [e]
  unfold processTimer
  dsimp only
  split_ifs
  · exact effects_eventPending_destroyed old hio (unlinked_htimerUnlink htimer rfl rfl) rfl rfl rfl rfl rfl
  · exact effects_eventPending _ old rfl rfl rfl rfl rfl

theorem effects_processIdle (old : s.mem a = some ev) (hidle : ev.eventType = .idle) :
    Effects s (processIdle s a ev) a n n := by
  unfold processIdle
  dsimp only
  split_ifs
  · exact effects_eventPending_destroyed old (by simp [hidle]) (unlinked_hidleUnlink hidle rfl) rfl rfl rfl rfl rfl
  · exact effects_eventPending _ old rfl rfl rfl rfl rfl

theorem effects_finishEvent : Effects s (finishEvent s i cur next) cur n (finishActives s cur n) := by
  cases old : s.mem cur with
  | none =>
    rw [finishEvent, finishActives, old]
    exact effects_same rfl
  | some ev =>
    rw [finishEvent_eq i next old, finishActives, old]
    dsimp only [Option.elim]
    split_ifs with hd
    · have hio : Sound ev → ev.eventType ≠ .io := fun h e => by simp [h.io e] at hd
      refine ⟨none, (effect_destroyed old hio (unlinked_of_destroy hd) (by simp)).congr
        rfl, ?_⟩
      cases hactive : ev.active <;> simp [weight, eventInactive, old, hactive]
    · exact ⟨_, (effect_kept { ev with pending := false } old rfl rfl rfl rfl rfl).congr
        rfl, by simp [weight, old]⟩

theorem effects_visitEvent : Effects s (visitEvent s i cur) cur n (visitActives s cur n) := by
  unfold visitEvent visitActives
  cases old : s.mem cur with
  | none => exact effects_same rfl
  | some ev =>
    dsimp only [Option.elim]
    split_ifs
    · exact effects_same rfl
    · exact effects_finishEvent
    · exact effects_same rfl

theorem bare_processPendings : (processPendings s).bare = s.bare := by
  unfold processPendings
  split_ifs <;> exact rfl

/-- The heaps and the list of idles are live, and so are the idles still to be processed. -/
structure Registered (s : Hloop) : Prop where
  timers : Live s.mem .timeout s.timers
  realtimers : Live s.mem .period s.realtimers
  idles : Live s.mem .idle s.idles
  rest : ∀ rest, s.phase = .idles rest → rest.Nodup ∧ rest ⊆ s.idles

theorem Registered.listOf (h : Registered s) (hne : type ≠ .io) : Live s.mem type (s.listOf type) := by
  cases type with
  | io => exact absurd rfl hne
  | timeout => exact h.timers
  | period => exact h.realtimers
  | idle => exact h.idles

theorem Registered.timerType {real : Bool} {timer : Hevent} (h : Registered s) (old : s.mem a = some timer)
    (hheap : a ∈ s.heap real) : timer.eventType = .timeout ∨ timer.eventType = .period := by
  cases real with
  | false =>
    obtain ⟨ev, hev, htype, -⟩ := h.timers.live a hheap
    cases old.symm.trans hev
    exact .inl htype
  | true =>
    obtain ⟨ev, hev, htype, -⟩ := h.realtimers.live a hheap
    cases old.symm.trans hev
    exact .inr htype

theorem Registered.idleType {idle : Hevent} (h : Registered s) (hphase : s.phase = .idles (a :: rest))
    (old : s.mem a = some idle) : idle.eventType = .idle := by
  obtain ⟨ev, hev, htype, -⟩ := h.idles.live a ((h.rest _ hphase).2 mem_cons_self)
  cases old.symm.trans hev
  exact htype

/-- The steps other than calls, `visit` and `ret` do not change `nactives`. -/
theorem stepActives_eq (hcall : ∀ op, act ≠ .call op) (hvisit : act ≠ .visit)
    (hret : act ≠ .ret) : stepActives s n act = n := by
  unfold stepActives
  split
  · exact absurd rfl (hcall _)
  · exact absurd rfl hvisit
  · exact absurd rfl hret
  · rfl

theorem stepActives_of_not_inPass (hact : act.inPass = false) : stepActives s n act = n := by
  refine stepActives_eq ?_ ?_ ?_
  · rintro op rfl
    cases hact
  · rintro rfl
    cases hact
  · rintro rfl
    cases hact

theorem callOp_of_loopStep {op : LoopOp} (hs : loopStep s (.call op) = some s') : callOp s op = some s' := by
  cases hphase : s.phase with
  | idle =>
    simp only [loopStep, hphase] at hs
    split_ifs at hs
    exact hs
  | callback i cur next =>
    simp only [loopStep, hphase] at hs
    exact hs
  | _ => simp [loopStep, hphase] at hs

theorem finishEvent_of_loopStep (hs : loopStep s .ret = some s') :
    ∃ i cur next, s.phase = .callback i cur next ∧ finishEvent s i cur next = s' := by
  cases hphase : s.phase with
  | callback i cur next =>
    simp only [loopStep, hphase, Option.some.injEq] at hs
    exact ⟨i, cur, next, rfl, hs⟩
  | _ => simp [loopStep, hphase] at hs

/-- A step of the loop replaces one object; `s₀` is the loop with another phase. -/
theorem loopStep_effects (h : Registered s) (hs : loopStep s act = some s') :
    ∃ s₀ a, s₀.bare = s.bare ∧ Effects s₀ s' a n (stepActives s n act) := by
  have hsame : s'.bare = s.bare → ∃ s₀ a, s₀.bare = s.bare ∧ Effects s₀ s' a n n :=
    fun hbare => ⟨s, 0, rfl, effects_same hbare⟩
  have hcall : ∀ op, callOp s op = some s' → ∃ s₀ a, s₀.bare = s.bare ∧ Effects s₀ s' a n (callActives s n op) := by
    intro op hs
    obtain ⟨a, heffects⟩ := callOp_effects hs
    exact ⟨s, a, rfl, heffects⟩
  cases loopStep_cases hs with
  | call hs _ =>
    exact hcall _ hs
  | status stopped running hact =>
    by_cases hop : ∃ op, act = .call op
    · obtain ⟨op, rfl⟩ := hop
      exact hcall _ (callOp_of_loopStep hs)
    by_cases hret : act = .ret
    · subst hret
      obtain ⟨i, cur, next, hphase, heq⟩ := finishEvent_of_loopStep hs
      rw [← heq]
      simp only [stepActives, hphase]
      exact ⟨s, cur, rfl, effects_finishEvent⟩
    · have hvisit : act ≠ .visit := by
        rintro rfl
        cases hact
      rw [stepActives_eq (not_exists.1 hop) hvisit hret]
      exact hsame rfl
  | move phase hr _ _ _ _ hact =>
    rw [stepActives_of_not_inPass hact]
    exact hsame rfl
  | processIdles hr _ hact =>
    rw [stepActives_of_not_inPass hact]
    refine hsame ?_
    unfold processIdles
    split_ifs
    · rfl
    · exact bare_processPendings
  | processPendings _ =>
    exact hsame bare_processPendings
  | @mark a io _ old _ =>
    exact ⟨s, a, rfl, effects_eventPending io old rfl rfl rfl rfl rfl⟩
  | @expire real limit now t cron timer hphase old hheap =>
    exact ⟨s, t, rfl, effects_processTimer old (h.timerType old hheap)⟩
  | expireFreed | idleFreed =>
    exact hsame rfl
  | @idle a rest idle hphase old =>
    exact ⟨{ s with phase := .idles rest }, a, rfl,
      effects_processIdle old (h.idleType hphase old)⟩
  | @endList i hphase =>
    simp only [stepActives, hphase]
    cases i <;> exact hsame rfl
  | @visit i cur hphase =>
    simp only [stepActives, hphase]
    exact ⟨s, cur, rfl, effects_visitEvent⟩
  | @ret i cur next hphase =>
    simp only [stepActives, hphase]
    exact ⟨s, cur, rfl, effects_finishEvent⟩

theorem Effects.object (h : Effects s s' a n n') {b : Nat} (hev : s'.mem b = some ev) : Replaces (s.mem b) ev := by
  obtain ⟨x, hx, -⟩ := h
  rw [hx.mem] at hev
  by_cases hb : b = a
  · subst hb
    rw [update_self] at hev
    exact hx.object ev hev
  · rw [update_of_ne hb] at hev
    exact replaces_of_cb hev fun _ => rfl

theorem Effects.live (h : Effects s s' a n n') (hlive : ∀ type ≠ .io, Live s.mem type (s.listOf type)) :
    ∀ type ≠ .io, Live s'.mem type (s'.listOf type) := by
  obtain ⟨x, hx, -⟩ := h
  intro type hne
  rw [hx.mem]
  exact (hlive type hne).change (hx.lists type hne)

theorem processTimer_eq (s : Hloop) (a : Nat) (ev : Hevent) (limit cron : Nat) :
    ∃ ev' timers realtimers ntimers npendings pendings, processTimer s a ev limit cron =
      { s with mem := update s.mem a (some ev'), timers, realtimers, ntimers, npendings, pendings } ∧
      ∀ b, b ≠ a → b ∈ s.timers → b ∈ timers := by
  unfold processTimer
  dsimp only
  obtain ⟨timers, realtimers, ntimers, heq, hsub⟩ := htimerUnlink_eq s a { ev with repeats := countDown ev.repeats }
  rw [heq]
  split_ifs
  all_goals
    obtain ⟨ev', npendings, pendings, -, heq⟩ := eventPending_eq _ a _
    rw [heq]
  · exact ⟨_, _, _, _, _, _, rfl, hsub⟩
  · exact ⟨_, _, _, _, _, _, rfl, fun b _ hb => hb⟩

theorem processIdle_eq (s : Hloop) (a : Nat) (ev : Hevent) : ∃ ev' idles nidles npendings pendings,
    processIdle s a ev = { s with mem := update s.mem a (some ev'), idles, nidles, npendings, pendings } := by
  unfold processIdle
  dsimp only
  obtain ⟨idles, nidles, heq⟩ := hidleUnlink_eq s a { ev with repeats := countDown ev.repeats }
  rw [heq]
  split_ifs
  all_goals
    obtain ⟨ev', npendings, pendings, -, heq⟩ := eventPending_eq _ a _
    rw [heq]
    exact ⟨_, _, _, _, _, rfl⟩

theorem processTimer_phase : (processTimer s a ev limit cron).phase = s.phase := by
  obtain ⟨_, _, _, _, _, _, heq, -⟩ := processTimer_eq s a ev limit cron
  rw [heq]

theorem processIdle_phase : (processIdle s a ev).phase = s.phase := by
  obtain ⟨_, _, _, _, _, heq⟩ := processIdle_eq s a ev
  rw [heq]

theorem processPendings_phase : (processPendings s).phase ≠ .idles rest := by
  unfold processPendings
  split_ifs <;> simp

theorem finishEvent_phase : (finishEvent s i cur next).phase ≠ .idles rest := by
  cases old : s.mem cur with
  | none => simp [finishEvent, old]
  | some ev => simp [finishEvent_eq i next old]

theorem registered_step (h : Registered s) (hs : loopStep s act = some s') : Registered s' := by
  obtain ⟨s₀, a, hsame, heffects⟩ := @loopStep_effects s s' 0 act h hs
  have hlive := heffects.live ((@effects_same s s₀ 0 0 hsame).live fun type hne => h.listOf hne)
  refine ⟨hlive .timeout nofun, hlive .period nofun, hlive .idle nofun, fun rest hrest => ?_⟩
  cases loopStep_cases hs with
  | call hs hphase =>
    obtain ⟨-, hlists, -⟩ := callOp_change hs
    rcases hphase with e | ⟨i, cur, next, e⟩ <;> simp [hlists.phase, e] at hrest
  | status stopped running _ => exact h.rest rest hrest
  | move phase hr _ _ _ hidles _ => exact absurd hrest (hidles rest)
  | processIdles hr _ _ =>
    unfold processIdles at hrest ⊢
    split_ifs at hrest ⊢
    · obtain rfl := LoopPhase.idles.inj hrest
      exact ⟨h.idles.nodup, fun _ hb => hb⟩
    · exact absurd hrest processPendings_phase
  | processPendings _ => exact absurd hrest processPendings_phase
  | @mark a io hphase _ _ =>
    obtain ⟨io', npendings, pendings, -, heq⟩ := eventPending_eq s a io
    simp [heq, hphase] at hrest
  | expire hphase _ _ => simp [processTimer_phase, hphase] at hrest
  | expireFreed | idleFreed => cases hrest
  | @idle a rest' idle hphase old =>
    obtain rfl := LoopPhase.idles.inj (processIdle_phase.symm.trans hrest)
    obtain ⟨hnodup, hsub⟩ := h.rest _ hphase
    obtain ⟨ha, hnodup⟩ := nodup_cons.1 hnodup
    obtain ⟨x, hx, -⟩ := @effects_processIdle { s with phase := .idles rest' } a idle 0 old (h.idleType hphase old)
    refine ⟨hnodup, fun b hb => ((hx.lists .idle nofun).mem_of_ne ?_).2 (hsub (mem_cons_of_mem _ hb))⟩
    rintro rfl
    exact ha hb
  | @endList i _ => cases i <;> cases hrest
  | @visit i cur _ =>
    unfold visitEvent at hrest
    split at hrest
    · cases hrest
    · split_ifs at hrest
      exact absurd hrest finishEvent_phase
  | ret _ => exact absurd hrest finishEvent_phase

theorem registered_init (h : LoopInit s) : Registered s := by
  obtain rfl := h
  have hnil : ∀ type, Live (fun _ => none) type [] := fun type => ⟨nodup_nil, by simp⟩
  exact ⟨hnil _, hnil _, hnil _, fun rest e => by cases e⟩

end Steps

end HvVerified.Event
