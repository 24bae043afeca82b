import Mathlib.Logic.Basic

/-!
# While loops

The body of a loop is a function that either continues with a new loop state or leaves the loop
with a result. `loopRun` runs it with a bound on the number of iterations, `LoopHead` are the states
in which the body is entered, and a loop terminates when some bound is enough for it.
-/

namespace HvVerified.Lib

/-- What one turn of a loop does. -/
inductive LoopStep (σ ρ : Type) where
  | next (s : σ)
  | done (r : ρ)

variable {σ ρ : Type}

/-- Run the loop for at most `n` iterations; `none` if it has not been left by then. -/
def loopRun (body : σ → LoopStep σ ρ) : Nat → σ → Option ρ
  | 0, _ => none
  | n + 1, s =>
    match body s with
    | .next s' => loopRun body n s'
    | .done r => some r

/-- The states in which an iteration of the loop entered at `s0` starts. -/
inductive LoopHead (body : σ → LoopStep σ ρ) (s0 : σ) : σ → Prop where
  | entry : LoopHead body s0 s0
  | again {s s' : σ} (h : LoopHead body s0 s) (hb : body s = .next s') : LoopHead body s0 s'

/-- The loop is left after finitely many iterations. -/
def LoopTerminates (body : σ → LoopStep σ ρ) (s : σ) : Prop := ∃ n r, loopRun body n s = some r

theorem loopRun_next {body : σ → LoopStep σ ρ} {s s' : σ} (h : body s = .next s') (n : Nat) :
    loopRun body (n + 1) s = loopRun body n s' := by
  rw [loopRun, h]

theorem loopRun_done {body : σ → LoopStep σ ρ} {s : σ} {r : ρ} (h : body s = .done r) (n : Nat) :
    loopRun body (n + 1) s = some r := by
  rw [loopRun, h]

theorem LoopHead.eq_entry {body : σ → LoopStep σ ρ} {s0 s : σ} {r : ρ} (hdone : body s0 = .done r)
    (h : LoopHead body s0 s) : s = s0 := by
  induction h with
  | entry => rfl
  | again _ hb ih => rw [ih, hdone] at hb; cases hb

theorem LoopHead.invariant {body : σ → LoopStep σ ρ} {I : σ → Prop} {s0 s : σ}
    (h : LoopHead body s0 s) (h0 : I s0) (hstep : ∀ s s', I s → body s = .next s' → I s') : I s := by
  induction h with
  | entry => exact h0
  | again _ hb ih => exact hstep _ _ ih hb

/-- A loop whose iterations keep an invariant and decrease a measure is left within as many iterations
    as the measure says. -/
theorem loopRun_rule {body : σ → LoopStep σ ρ} (I : σ → Prop) (μ : σ → Nat) {Q : ρ → Prop}
    (hstep : ∀ s, I s → match body s with | .next s' => I s' ∧ μ s' < μ s | .done r => Q r) :
    ∀ (n : Nat) (s : σ), I s → μ s < n → ∃ r, loopRun body n s = some r ∧ Q r := by
  intro n
  induction n with
  | zero => intro s _ h; omega
  | succ n ih =>
    intro s hI hμ
    have h := hstep s hI
    cases hb : body s with
    | next s' =>
      rw [hb] at h
      rw [loopRun_next hb]
      exact ih s' h.1 (by omega)
    | done r =>
      rw [hb] at h
      exact ⟨r, loopRun_done hb n, h⟩

theorem not_terminates_of_stuck {body : σ → LoopStep σ ρ} (I : σ → Prop)
    (hstep : ∀ s, I s → ∃ s', body s = .next s' ∧ I s') {s : σ} (h : I s) : ¬ LoopTerminates body s := by
  rintro ⟨n, r, hr⟩
  induction n generalizing s with
  | zero => simp [loopRun] at hr
  | succ n ih =>
    obtain ⟨s', hb, hI⟩ := hstep s h
    rw [loopRun_next hb] at hr
    exact ih hI hr

theorem loopTerminates_next {body : σ → LoopStep σ ρ} {s s' : σ} (hb : body s = .next s') :
    LoopTerminates body s ↔ LoopTerminates body s' := by
  constructor
  · rintro ⟨n, r, h⟩
    cases n with
    | zero => simp [loopRun] at h
    | succ n => exact ⟨n, r, by rw [← loopRun_next hb]; exact h⟩
  · rintro ⟨n, r, h⟩
    exact ⟨n + 1, r, by rw [loopRun_next hb]; exact h⟩

theorem LoopHead.terminates_iff {body : σ → LoopStep σ ρ} {s0 s : σ} (h : LoopHead body s0 s) :
    LoopTerminates body s0 ↔ LoopTerminates body s := by
  induction h with
  | entry => rfl
  | again _ hb ih => exact ih.trans (loopTerminates_next hb)

theorem loopRun_eq_none {body : σ → LoopStep σ ρ} {s : σ} (h : ¬ LoopTerminates body s) (n : Nat) :
    loopRun body n s = none := by
  cases hr : loopRun body n s with
  | none => rfl
  | some r => exact absurd ⟨n, r, hr⟩ h

end HvVerified.Lib
