import Mathlib.Algebra.Ring.Int.Defs
import Mathlib.Algebra.Ring.Nat
import Mathlib.Data.List.Basic

/-!
# Runs of a partial step function

A system is given by a step function `step : σ → α → Option σ`: performing the action `a` in the
state `s` either leads to a state or is not possible there (`none`). `Reachable` are the states of
all runs whose every step satisfies a guard `ok`; the safety theorems of this development are all
proved by `Reachable.invariant`. `runFrom` performs a fixed list of actions, which is how concrete
runs are exhibited.
-/

namespace HvVerified.Lib

open List

variable {σ α : Type} {step : σ → α → Option σ} {ok : σ → α → Prop} {init : σ → Prop}

/-- Perform the actions `as` one after the other; `none` if one of them is not possible. -/
def runFrom (step : σ → α → Option σ) (s : σ) : List α → Option σ
  | [] => some s
  | a :: as =>
    match step s a with
    | none => none
    | some s' => runFrom step s' as

/-- The states of the runs from a state of `init` in which every step is taken under `ok`. -/
inductive Reachable (step : σ → α → Option σ) (ok : σ → α → Prop) (init : σ → Prop) : σ → Prop where
  /-- The empty run. -/
  | start {s : σ} (h : init s) : Reachable step ok init s
  /-- One more step. -/
  | step {s s' : σ} {a : α} (h : Reachable step ok init s) (hok : ok s a) (hs : step s a = some s') :
      Reachable step ok init s'

/-- The guard of an unrestricted run. -/
def Always (_ : σ) (_ : α) : Prop := True

/-- A property that holds initially and is kept by every guarded step holds in every reachable
    state. -/
theorem Reachable.invariant {I : σ → Prop} (h0 : ∀ s, init s → I s)
    (hstep : ∀ s a s', I s → ok s a → step s a = some s' → I s') {s : σ} (h : Reachable step ok init s) : I s := by
  induction h with
  | start h => exact h0 _ h
  | step _ hok hs ih => exact hstep _ _ _ ih hok hs

/-- A step that is taken only where `ok` holds. -/
def guarded (step : σ → α → Option σ) (ok : σ → α → Prop) [∀ s a, Decidable (ok s a)] (s : σ) (a : α) :
    Option σ :=
  if ok s a then step s a else none

/-- The states of a run whose steps are steps under the guard. -/
theorem Reachable.runAdmitted {step step' : σ → α → Option σ} :
    ∀ (as : List α) {s s' : σ}, (∀ a ∈ as, ∀ s s', step' s a = some s' → ok s a ∧ step s a = some s') →
      Reachable step ok init s → runFrom step' s as = some s' → Reachable step ok init s' := by
  intro as
  induction as with
  | nil =>
    intro s s' _ h hr
    cases hr
    exact h
  | cons a as ih =>
    intro s s' hok h hr
    rw [runFrom] at hr
    cases hs : step' s a with
    | none => simp [hs] at hr
    | some s₁ =>
      rw [hs] at hr
      obtain ⟨hguard, hstep⟩ := hok a mem_cons_self s s₁ hs
      exact ih (fun a ha => hok a (mem_cons_of_mem _ ha)) (.step h hguard hstep) hr

theorem Reachable.runGuarded [∀ s a, Decidable (ok s a)] (as : List α) {s s' : σ} (h : Reachable step ok init s)
    (hr : runFrom (guarded step ok) s as = some s') : Reachable step ok init s' := by
  refine h.runAdmitted as (fun a _ s s' hs => ?_) hr
  unfold guarded at hs
  split_ifs at hs with hok
  exact ⟨hok, hs⟩

/-- A run of a system is a run of another one that its steps are mapped to. -/
theorem map_runFrom {τ : Type} {step' : τ → α → Option τ} {f : σ → τ}
    (h : ∀ s a, (step s a).map f = step' (f s) a) (s : σ) (as : List α) :
    (runFrom step s as).map f = runFrom step' (f s) as := by
  induction as generalizing s with
  | nil => rfl
  | cons a as ih =>
    rw [runFrom, runFrom, ← h]
    cases step s a with
    | none => rfl
    | some s₁ => exact ih s₁

instance (s : σ) (a : α) : Decidable (Always s a) := .isTrue trivial

theorem Reachable.run (as : List α) {s s' : σ}
    (h : Reachable step Always init s) (hr : runFrom step s as = some s') : Reachable step Always init s' :=
  h.runAdmitted as (fun _ _ _ _ hs => ⟨trivial, hs⟩) hr

/-! What a computation shows of the state at the end of a run. -/

section

variable {step : σ → α → Option σ} {ok : σ → α → Prop} {init : σ → Prop} {s s' : σ} {as : List α} {P : σ → Prop}

@[elab_as_elim] theorem of_run [DecidablePred P] (hrun : runFrom step s as = some s')
    (h : (runFrom step s as).all (fun s => decide (P s))) : P s' := by
  simpa [hrun] using h

theorem exists_run (hsome : (runFrom step s as).isSome) (h : ∀ s', runFrom step s as = some s' → P s') :
    ∃ s', runFrom step s as = some s' ∧ P s' := by
  obtain ⟨s', hrun⟩ := Option.isSome_iff_exists.1 hsome
  exact ⟨s', hrun, h s' hrun⟩

theorem exists_reached [∀ s a, Decidable (ok s a)] (as : List α) (h0 : init s)
    (hsome : (runFrom (guarded step ok) s as).isSome)
    (h : ∀ s', Reachable step ok init s' → runFrom (guarded step ok) s as = some s' → P s') :
    ∃ s', Reachable step ok init s' ∧ P s' := by
  obtain ⟨s', hrun⟩ := Option.isSome_iff_exists.1 hsome
  have hreach := (Reachable.start h0).runGuarded as hrun
  exact ⟨s', hreach, h s' hreach hrun⟩

end

/-- `s'` is reached from `s` by performing the actions `as`, each under `ok`. -/
inductive Steps (step : σ → α → Option σ) (ok : σ → α → Prop) : σ → List α → σ → Prop where
  | nil {s : σ} : Steps step ok s [] s
  | cons {s s' s'' : σ} {a : α} {as : List α} (hok : ok s a) (hs : step s a = some s')
      (h : Steps step ok s' as s'') : Steps step ok s (a :: as) s''

theorem Steps.of_run : ∀ {as : List α} {s s' : σ}, runFrom step s as = some s' → Steps step Always s as s' := by
  intro as
  induction as with
  | nil =>
    intro s s' h
    cases h
    exact .nil
  | cons a as ih =>
    intro s s' h
    rw [runFrom] at h
    cases hs : step s a with
    | none => simp [hs] at h
    | some s₁ =>
      rw [hs] at h
      exact .cons trivial hs (ih h)

/-- If the actions of a class `inside` never increase a measure of the state, and those of them that
    satisfy `p` decrease it, then there are at most as many of the latter as the measure says.
    The measure is given as a relation, since it need not be computed from the state. -/
theorem Steps.countP_le {p : α → Bool} (inside : α → Prop) (measured : σ → Nat → Prop)
    (hstep : ∀ s a s' n, measured s n → inside a → ok s a → step s a = some s' →
      ∃ n', measured s' n' ∧ n' + (if p a then 1 else 0) ≤ n) {s s' : σ} {as : List α} (h : Steps step ok s as s') :
    ∀ {n : Nat}, measured s n → (∀ a ∈ as, inside a) → as.countP p ≤ n := by
  induction h with
  | nil =>
    intro n _ _
    simp
  | cons hok hs _ ih =>
    intro n hn hin
    obtain ⟨n', hn', hle⟩ := hstep _ _ _ _ hn (hin _ mem_cons_self) hok hs
    have hrest := ih hn' fun a ha => hin a (mem_cons_of_mem _ ha)
    rw [countP_cons]
    omega

/-! ## What a history has brought about and not undone -/

variable {α : Type} {p q : α → Prop} {l : List α} {x : α}

/-- An event that satisfies `p` and is not followed by one that satisfies `q`. -/
def Since (p q : α → Prop) (l : List α) : Prop :=
  ∃ before x after, l = before ++ x :: after ∧ p x ∧ ∀ y ∈ after, ¬ q y

theorem not_since_nil : ¬ Since p q [] := by
  rintro ⟨before, x, after, heq, -, -⟩
  simp at heq

theorem since_append_singleton : Since p q (l ++ [x]) ↔ p x ∨ Since p q l ∧ ¬ q x := by
  constructor
  · rintro ⟨before, y, after, heq, hy, hafter⟩
    -- the last event is the one that satisfies `p`, or it comes after that one
    rcases List.eq_nil_or_concat after with rfl | ⟨after, z, rfl⟩
    · obtain ⟨-, hx⟩ := List.append_inj' heq rfl
      obtain rfl : x = y := by simpa using hx
      exact .inl hy
    · have heq' : l ++ [x] = (before ++ y :: after) ++ [z] := by
        rw [heq]
        simp
      obtain ⟨rfl, hz⟩ := List.append_inj' heq' rfl
      obtain rfl : x = z := by simpa using hz
      refine .inr ⟨⟨before, y, after, rfl, hy, ?_⟩, hafter x (by simp)⟩
      intro w hw
      exact hafter w (by simp [hw])
  · rintro (hx | ⟨⟨before, y, after, rfl, hy, hafter⟩, hx⟩)
    · exact ⟨l, x, [], rfl, hx, by simp⟩
    · refine ⟨before, y, after ++ [x], by simp, hy, ?_⟩
      intro w hw
      rcases List.mem_append.1 hw with hw | hw
      · exact hafter w hw
      · obtain rfl : w = x := by simpa using hw
        exact hx

end HvVerified.Lib
