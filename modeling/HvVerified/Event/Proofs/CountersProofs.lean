import HvVerified.Event.Proofs.PassProofs

/-!
# Proofs: the counters of the loop are exact

A step of the loop replaces at most one event object, so that each counter changes by what the old and
the new object contribute. The counters of the timers and of the idles are lengths: an event that is
not marked as destroyed is in its heap or in the list of idles, and leaves it when it is marked.
-/

namespace HvVerified.Event

open Lib Function List Option Hevent

variable {x : Option Hevent} {ev ev' io idle timer : Hevent} {s₁ : Hloop} {op : LoopOp} {i cur : Nat}
  {act : LoopAct} {sig : Hsignal} {s s' : Hloop} {a : Nat} {n n' : Int}

/-- An event that is not destroyed is registered with the loop, and active unless it is an io; an io is
    never destroyed. -/
structure Kept (s : Hloop) (a : Nat) (ev : Hevent) : Prop where
  io : ev.eventType = .io → ev.destroy = false
  timeout : ev.eventType = .timeout → ev.destroy = false → a ∈ s.timers
  period : ev.eventType = .period → ev.destroy = false → a ∈ s.realtimers
  idle : ev.eventType = .idle → ev.destroy = false → a ∈ s.idles
  active : ev.eventType ≠ .io → ev.destroy = false → ev.active
  positive : ev.eventType = .timeout → 0 < ev.timeout

/-- The counters of the loop, and the number `n` of its active events. -/
structure Exact (s : Hloop) (n : Int) : Prop where
  kept : ∀ a ev, s.mem a = some ev → Kept s a ev
  ntimers : s.ntimers = s.timers.length + s.realtimers.length
  nidles : s.nidles = s.idles.length
  nios : Numbers s.mem isActiveIo s.nios
  nactives : Numbers s.mem active n

theorem Exact.listed {type : HeventType} (h : Exact s n) (hne : type ≠ .io) {b : Nat}
    (hb : (s.mem b).any (liveAs type)) : b ∈ s.listOf type := by
  obtain ⟨ev, hev, htype, hd⟩ := any_liveAs.1 hb
  have hk := h.kept b ev hev
  cases type with
  | io => exact absurd rfl hne
  | timeout => exact hk.timeout htype hd
  | period => exact hk.period htype hd
  | idle => exact hk.idle htype hd

theorem Exact.sound (h : Exact s n) (hev : s.mem a = some ev) : Sound ev :=
  have hk := h.kept a ev hev
  ⟨hk.io, hk.active, hk.positive⟩

/-- The counters change by what the replaced object contributes. -/
theorem exact_of_effects (h : Exact s n) (heffects : Effects s s' a n n') : Exact s' n' := by
  obtain ⟨x, hx, hn⟩ := heffects
  have hsound : ∀ ev, s.mem a = some ev → Sound ev := fun ev => h.sound
  have hlength := fun type hne => (hx.lists type hne).length (h.listed hne)
  have hlisted : ∀ type ≠ .io, ∀ {b : Nat} {ev : Hevent}, s'.mem b = some ev → ev.eventType = type →
      ev.destroy = false → b ∈ s'.listOf type := by
    intro type hne b ev hev htype hd
    rw [hx.mem] at hev
    exact (hx.lists type hne).listed (fun b => h.listed hne) (any_liveAs.2 ⟨ev, hev, htype, hd⟩)
  refine ⟨fun b ev hev => ?_, ?_, ?_, ?_, ?_⟩
  · have hk : Sound ev := by
      rw [hx.mem] at hev
      by_cases hb : b = a
      · subst hb
        rw [update_self] at hev
        exact hx.sound hsound ev hev
      · rw [update_of_ne hb] at hev
        exact h.sound hev
    exact ⟨hk.io, hlisted .timeout nofun hev, hlisted .period nofun hev, hlisted .idle nofun hev, hk.active,
      hk.positive⟩
  · have htimers : (s'.timers.length : Int) = _ := hlength .timeout nofun
    have hreal : (s'.realtimers.length : Int) = _ := hlength .period nofun
    rw [hx.ntimers, h.ntimers, htimers, hreal, timerWeight, timerWeight]
    simp only [Hloop.listOf]
    omega
  · have hidles : (s'.idles.length : Int) = _ := hlength .idle nofun
    rw [hx.nidles, h.nidles, hidles]
    rfl
  · rw [hx.mem]
    exact h.nios.update x (hx.nios hsound)
  · rw [hx.mem]
    exact h.nactives.update x hn

theorem exact_step (hreg : Registered s) (h : Exact s n) (hs : loopStep s act = some s') :
    Exact s' (stepActives s n act) := by
  obtain ⟨s₀, a, hbare, heffects⟩ := loopStep_effects hreg hs
  exact exact_of_effects (exact_of_effects h (effects_same (a := a) hbare)) heffects

/-! ## Signals, and all runs -/

variable {c c' : CountedLoop}

/-- The array and the signal objects refer to each other. -/
structure SignalsInv (c : CountedLoop) : Prop where
  slot : ∀ a sig, c.sigs a = some sig → c.signals sig.signo = some a
  object : ∀ signo a, c.signals signo = some a → ∃ sig, c.sigs a = some sig ∧ sig.signo = signo
  nsignals : Numbers c.signals (fun _ => true) c.nsignals

theorem signalsInv_hsignalAdd {a : Nat} (signo : Int) (h : SignalsInv c) (hnew : c.sigs a = none) :
    SignalsInv (hsignalAdd c a signo) := by
  unfold hsignalAdd
  split_ifs
  · exact h
  split
  next hfree =>
    refine ⟨fun b sig hsig => ?_, fun signo' b hb => ?_, ?_⟩
    · dsimp only at hsig ⊢
      by_cases hb : b = a
      · subst hb
        rw [update_self] at hsig
        cases hsig
        exact update_self _ _ _
      · rw [update_of_ne hb] at hsig
        have hslot := h.slot b sig hsig
        rw [update_of_ne (by rintro rfl; simp [hfree] at hslot)]
        exact hslot
    · dsimp only at hb ⊢
      by_cases hs : signo' = signo
      · subst hs
        rw [update_self] at hb
        cases hb
        exact ⟨_, update_self _ _ _, rfl⟩
      · rw [update_of_ne hs] at hb
        obtain ⟨sig, hsig, rfl⟩ := h.object signo' b hb
        refine ⟨sig, ?_, rfl⟩
        rw [update_of_ne (by rintro rfl; simp [hnew] at hsig)]
        exact hsig
    · refine h.nsignals.update _ ?_
      simp [weight, hfree]
  next b hb =>
    split
    · exact ⟨h.slot, h.object, h.nsignals⟩
    next sig hsig =>
      refine ⟨fun b' sig' hsig' => ?_, fun signo' b' hb' => ?_, h.nsignals⟩
      · dsimp only at hsig' ⊢
        by_cases hbb : b' = b
        · subst hbb
          rw [update_self] at hsig'
          cases hsig'
          exact h.slot b' sig hsig
        · rw [update_of_ne hbb] at hsig'
          exact h.slot b' sig' hsig'
      · obtain ⟨sig', hsig', rfl⟩ := h.object signo' b' hb'
        by_cases hbb : b' = b
        · subst hbb
          cases hsig.symm.trans hsig'
          exact ⟨_, update_self _ _ _, rfl⟩
        · refine ⟨sig', ?_, rfl⟩
          dsimp only
          rw [update_of_ne hbb]
          exact hsig'

theorem signalsInv_hsignalDel {a : Nat} (h : SignalsInv c) (old : c.sigs a = some sig) :
    SignalsInv (hsignalDel c a sig) := by
  unfold hsignalDel
  split_ifs
  · exact h
  · have hslot := h.slot a sig old
    refine ⟨fun b sig' hsig' => ?_, fun signo b hb => ?_, ?_⟩
    · dsimp only at hsig' ⊢
      have hb : b ≠ a := by
        rintro rfl
        simp at hsig'
      rw [update_of_ne hb] at hsig'
      have hslot' := h.slot b sig' hsig'
      rw [update_of_ne]
      · exact hslot'
      · intro heq
        rw [heq, hslot] at hslot'
        exact hb (some.inj hslot').symm
    · dsimp only at hb ⊢
      have hs : signo ≠ sig.signo := by
        rintro rfl
        simp at hb
      rw [update_of_ne hs] at hb
      obtain ⟨sig', hsig', rfl⟩ := h.object signo b hb
      refine ⟨sig', ?_, rfl⟩
      rw [update_of_ne]
      · exact hsig'
      · rintro rfl
        cases old.symm.trans hsig'
        exact hs rfl
    · refine h.nsignals.update _ ?_
      simp [weight, hslot]

section

variable (k : Int)

/-! `EVENT_ACTIVE` and `EVENT_INACTIVE` add to `nactives` whatever else it counts. -/

theorem eventActive_add (b : Bool) : eventActive b (n + k) = eventActive b n + k := by
  unfold eventActive
  split_ifs <;> omega

theorem eventInactive_add (b : Bool) : eventInactive b (n + k) = eventInactive b n + k := by
  unfold eventInactive
  split_ifs <;> omega

theorem hioDelActives_add (io : Hevent) (events : UInt32) :
    hioDelActives io events (n + k) = hioDelActives io events n + k := by
  unfold hioDelActives
  dsimp only
  rw [eventInactive_add]
  split_ifs <;> rfl

theorem finishActives_add (cur : Nat) : finishActives s cur (n + k) = finishActives s cur n + k := by
  unfold finishActives
  cases s.mem cur with
  | none => rfl
  | some ev =>
    dsimp only [Option.elim]
    rw [eventInactive_add]
    split_ifs <;> rfl

theorem visitActives_add (cur : Nat) : visitActives s cur (n + k) = visitActives s cur n + k := by
  unfold visitActives
  rw [finishActives_add]
  cases s.mem cur with
  | none => rfl
  | some ev =>
    dsimp only [Option.elim]
    split_ifs <;> rfl

theorem callActives_add (op : LoopOp) : callActives s (n + k) op = callActives s n op + k := by
  cases op with
  | hioGet | heventSetPriority => rfl
  | hioAdd | hidleAdd | htimerAddPeriod => exact eventActive_add k _
  | hioDel a events =>
    rw [callActives, callActives]
    cases s.mem a with
    | none => rfl
    | some io => exact hioDelActives_add k io events
  | hioDone a =>
    rw [callActives, callActives]
    cases s.mem a with
    | none => rfl
    | some io =>
      dsimp only [Option.elim]
      rw [hioDelActives_add]
      split_ifs <;> rfl
  | hidleDel | htimerDel => exact eventInactive_add k _
  | htimerAdd _ timeout _ _ _ =>
    rw [callActives, callActives, eventActive_add]
    split_ifs <;> rfl
  | htimerReset a _ =>
    rw [callActives, callActives]
    cases s.mem a with
    | none => rfl
    | some timer =>
      dsimp only [Option.elim, htimerResetActives]
      rw [eventActive_add]
      split_ifs <;> rfl

theorem stepActives_add (act : LoopAct) : stepActives s (n + k) act = stepActives s n act + k := by
  unfold stepActives
  split
  · exact callActives_add k _
  · exact visitActives_add k _
  · exact finishActives_add k _
  · rfl

end

/-- What holds in all runs: the loop's own counters, and the active events and signals. -/
structure CountedInv (c : CountedLoop) : Prop where
  registered : Registered c.loop
  signals : SignalsInv c
  active : ∃ events sigs, Exact c.loop events ∧ Numbers c.sigs Hsignal.active sigs ∧
    c.nactives = events + sigs

theorem countedInv_loop {loop : Hloop} (h : CountedInv c) (hs : loopStep c.loop act = some loop) :
    CountedInv { c with loop, nactives := stepActives c.loop c.nactives act } := by
  obtain ⟨events, sigs, hexact, hsigs, hn⟩ := h.active
  refine ⟨registered_step h.registered hs, ⟨h.signals.slot, h.signals.object, h.signals.nsignals⟩,
    stepActives c.loop events act, sigs, exact_step h.registered hexact hs, hsigs, ?_⟩
  rw [hn, stepActives_add]

theorem countedInv_hsignalAdd {a : Nat} {signo : Int} (h : CountedInv c) (hnew : c.sigs a = none) :
    CountedInv (hsignalAdd c a signo) := by
  have hsignals := signalsInv_hsignalAdd signo h.signals hnew
  obtain ⟨events, sigs, hexact, hsigs, hn⟩ := h.active
  unfold hsignalAdd at hsignals ⊢
  split_ifs at hsignals ⊢
  · exact h
  cases hslot : c.signals signo with
  | none =>
    rw [hslot] at hsignals
    refine ⟨h.registered, hsignals, events, sigs + 1, hexact, hsigs.update _ ?_, ?_⟩
    · simp [weight, hnew]
    · show c.nactives + 1 = _
      omega
  | some b =>
    obtain ⟨sig, hsig, -⟩ := h.signals.object signo b hslot
    rw [hslot] at hsignals
    dsimp only at hsignals ⊢
    rw [hsig] at hsignals ⊢
    refine ⟨h.registered, hsignals, events, eventActive sig.active sigs, hexact, hsigs.update _ ?_, ?_⟩
    · cases hactive : sig.active <;> simp [weight, hsig, eventActive, hactive]
    · show eventActive sig.active c.nactives = _
      unfold eventActive
      split_ifs <;> omega

theorem countedInv_hsignalDel {a : Nat} (h : CountedInv c) (old : c.sigs a = some sig) :
    CountedInv (hsignalDel c a sig) := by
  have hsignals := signalsInv_hsignalDel h.signals old
  obtain ⟨events, sigs, hexact, hsigs, hn⟩ := h.active
  unfold hsignalDel at hsignals ⊢
  split_ifs at hsignals ⊢ with hactive
  · exact h
  · have hactive : sig.active := by simpa using hactive
    refine ⟨h.registered, hsignals, events, sigs - 1, hexact, hsigs.update _ ?_, ?_⟩
    · simp [weight, old, hactive]
    · show eventInactive sig.active c.nactives = _
      rw [eventInactive, if_pos hactive]
      omega

theorem countedInv_step {act : CountedAct} (h : CountedInv c) (hs : countedStep c act = some c') :
    CountedInv c' := by
  cases act with
  | loop act =>
    obtain ⟨loop, hloop, rfl⟩ := map_eq_some_iff.1 hs
    exact countedInv_loop h hloop
  | hsignalAdd a signo =>
    rw [countedStep] at hs
    split_ifs at hs with hok
    cases hs
    rw [Bool.and_eq_true] at hok
    exact countedInv_hsignalAdd h (isNone_iff_eq_none.1 hok.2)
  | hsignalDel a =>
    rw [countedStep] at hs
    split at hs
    · cases hs
    next sig old =>
      split_ifs at hs
      cases hs
      exact countedInv_hsignalDel h old

theorem countedInv_init (h : CountedInit c) : CountedInv c := by
  obtain rfl := h
  refine ⟨registered_init rfl, ⟨fun a sig hsig => (by cases hsig), fun signo a ha => (by cases ha), numbers_empty⟩,
    0, 0, ⟨fun a ev hev => (by cases hev), rfl, rfl, numbers_empty, numbers_empty⟩, numbers_empty, rfl⟩

/-- In every run, `ntimers` is the number of the timers in the two heaps, `nidles` that of the idles in the
    list, `nios` that of the active ios, `nsignals` that of the signals, and `nactives` that of the events
    whose active flag is set. -/
theorem loop_counters_exact (h : Reachable countedStep Always CountedInit c) : CountersExact c := by
  have hinv : CountedInv c :=
    h.invariant (I := CountedInv) (fun c hinit => countedInv_init hinit)
      fun c act c' hinv _ hs => countedInv_step hinv hs
  obtain ⟨events, sigs, hexact, hsigs, hn⟩ := hinv.active
  exact ⟨hexact.ntimers, hexact.nidles, hexact.nios, hinv.signals.nsignals, events, sigs, hexact.nactives, hsigs,
    hn⟩

/-- Two timers, an idle, an io and a signal; in the callback of the second timer, the first one is reset
    and the signal deleted. -/
theorem loop_counters_exact_callback :
    ∃ c, runFrom countedStep {} ([.loop (.call (.hioGet 2)), .loop (.call (.hioAdd 2 true 1)),
        .loop (.call (.hidleAdd 3 1 true)), .hsignalAdd 0 15] ++ twoTimers.map .loop ++
        [.loop (.call (.htimerReset 0 5)), .hsignalDel 0]) = some c ∧
      c.loop.ntimers = 1 ∧ c.loop.nidles = 1 ∧ c.loop.nios = 1 ∧ c.nactives = 4 ∧ CountersExact c := by
  refine exists_run rfl fun c hs => ⟨?_, ?_, ?_, ?_, loop_counters_exact (Reachable.run _ (.start rfl) hs)⟩
  all_goals exact Option.some.inj hs ▸ rfl

/-- In every run the two heaps and the list of idles hold exactly the events that are not to be destroyed, each once. -/
theorem listOf_exact (h : Reachable countedStep Always CountedInit c) {type : HeventType} (hne : type ≠ .io) :
    (c.loop.listOf type).Nodup ∧ ∀ a, a ∈ c.loop.listOf type ↔ (c.loop.mem a).any (liveAs type) := by
  have hinv : CountedInv c := h.invariant (fun _ => countedInv_init) fun _ _ _ hinv _ hs => countedInv_step hinv hs
  obtain ⟨events, sigs, hexact, -⟩ := hinv.active
  have hlive := hinv.registered.listOf hne
  exact ⟨hlive.nodup, fun a => ⟨fun ha => any_liveAs.2 (hlive.live a ha), hexact.listed hne⟩⟩

/-- Two timers that have fired for the last time. -/
theorem listOf_exact_fired : ∃ c, runFrom countedStep {} (twoTimers.map .loop) = some c ∧
    c.loop.timers = [] ∧ ∀ a, a ∈ c.loop.listOf .timeout ↔ (c.loop.mem a).any (liveAs .timeout) := by
  refine exists_run rfl fun c hs => ⟨Option.some.inj hs ▸ rfl,
    (listOf_exact (Reachable.run _ (.start rfl) hs) (by decide)).2⟩

end HvVerified.Event
