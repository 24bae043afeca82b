import Mathlib.Order.Defs.Unbundled
import Mathlib.Tactic.SplitIfs

/-!
# Heaps in level order

The nodes of a complete binary tree are numbered level by level from the left, starting with 1 at the
root: node `k` has the parent `k / 2` and the children `2 * k` and `2 * k + 1`. A heap of `n` elements
is then a function on the positions `1, …, n` in which no element is less than the one at the parent.
`UpOrdered` and `HoleOrdered` are the orders that hold while an element is being sifted up or down.
-/

namespace HvVerified.Lib

variable {α : Type} {lt : α → α → Prop} {n i : Nat} {a : Nat → α}

/-- Positions `i` and `j` swapped. -/
def swapAt (a : Nat → α) (i j : Nat) : Nat → α :=
  fun k => if k = i then a j else if k = j then a i else a k

/-- No element is less than its parent. -/
def LevelOrdered (lt : α → α → Prop) (n : Nat) (a : Nat → α) : Prop :=
  ∀ k, 2 ≤ k → k ≤ n → ¬ lt (a k) (a (k / 2))

/-- The order, but the element at `i` may be less than its parent. -/
structure UpOrdered (lt : α → α → Prop) (n : Nat) (a : Nat → α) (i : Nat) : Prop where
  pairs : ∀ k, 2 ≤ k → k ≤ n → k ≠ i → ¬ lt (a k) (a (k / 2))
  grand : ∀ k, 2 ≤ k → k ≤ n → k / 2 = i → 2 ≤ i → ¬ lt (a k) (a (i / 2))

/-- The order, but the element at `i` may stand in any relation to its parent and its children. -/
structure HoleOrdered (lt : α → α → Prop) (n : Nat) (a : Nat → α) (i : Nat) : Prop where
  pairs : ∀ k, 2 ≤ k → k ≤ n → k ≠ i → k / 2 ≠ i → ¬ lt (a k) (a (k / 2))
  grand : ∀ k, 2 ≤ k → k ≤ n → k / 2 = i → 2 ≤ i → ¬ lt (a k) (a (i / 2))

theorem swapAt_left (a : Nat → α) (i j : Nat) : swapAt a i j i = a j := by
  simp [swapAt]

theorem swapAt_right (a : Nat → α) (i j : Nat) : swapAt a i j j = a i := by
  by_cases h : j = i
  · simp [swapAt, h]
  · simp [swapAt, h]

theorem swapAt_other (a : Nat → α) {i j k : Nat} (hi : k ≠ i) (hj : k ≠ j) : swapAt a i j k = a k := by
  simp [swapAt, hi, hj]

section Order

variable [IsStrictWeakOrder α lt]

theorem not_lt_trans {x y z : α} (hxy : ¬ lt x y) (hyz : ¬ lt y z) : ¬ lt x z := by
  intro hxz
  by_cases hyx : lt y x
  · exact hyz (IsTrans.trans y x z hyx hxz)
  · by_cases hzy : lt z y
    · exact hxy (IsTrans.trans x z y hxz hzy)
    · exact (IsStrictWeakOrder.incomp_trans x y z ⟨hxy, hyx⟩ ⟨hyz, hzy⟩).1 hxz

theorem not_lt_of_lt {x y : α} (h : lt x y) : ¬ lt y x :=
  fun h' => Std.Irrefl.irrefl (r := lt) x (IsTrans.trans x y x h h')

theorem LevelOrdered.root_minimal (h : LevelOrdered lt n a) : ∀ k, 1 ≤ k → k ≤ n → ¬ lt (a k) (a 1) := by
  intro k
  induction k using Nat.strongRecOn with
  | ind k ih =>
    intro h1 hn
    by_cases hk : k = 1
    · rw [hk]
      exact Std.Irrefl.irrefl (r := lt) (a 1)
    · exact not_lt_trans (h k (by omega) hn) (ih (k / 2) (by omega) (by omega) (by omega))

/-! ## Sifting up -/

theorem UpOrdered.move (h : UpOrdered lt n a i) (h2 : 2 ≤ i) (hn : i ≤ n)
    (hlt : lt (a i) (a (i / 2))) : UpOrdered lt n (swapAt a (i / 2) i) (i / 2) := by
  have hsib : ∀ k, 2 ≤ k → k ≤ n → k / 2 = i / 2 → k ≠ i → ¬ lt (a k) (a (i / 2)) := by
    intro k hk hkn hkp hki
    rw [← hkp]
    exact h.pairs k hk hkn hki
  constructor
  · intro k hk hkn hkp
    by_cases hki : k = i
    · subst hki
      rw [swapAt_right, swapAt_left]
      exact not_lt_of_lt hlt
    · rw [swapAt_other a hkp hki]
      by_cases hp : k / 2 = i / 2
      · -- a sibling of `i`
        rw [hp, swapAt_left]
        exact fun hk' => hsib k hk hkn hp hki (IsTrans.trans _ _ _ hk' hlt)
      · by_cases hc : k / 2 = i
        · rw [hc, swapAt_right]
          exact h.grand k hk hkn hc h2
        · rw [swapAt_other a hp hc]
          exact h.pairs k hk hkn hki
  · intro k hk hkn hkp hp2
    have hup : ¬ lt (a (i / 2)) (a (i / 2 / 2)) := h.pairs (i / 2) hp2 (by omega) (by omega)
    rw [swapAt_other a (k := i / 2 / 2) (by omega) (by omega)]
    by_cases hki : k = i
    · rw [hki, swapAt_right]
      exact hup
    · rw [swapAt_other a (by omega) hki]
      exact not_lt_trans (hsib k hk hkn hkp hki) hup

end Order

theorem UpOrdered.finish (h : UpOrdered lt n a i) (hi : 2 ≤ i → i ≤ n → ¬ lt (a i) (a (i / 2))) :
    LevelOrdered lt n a := by
  intro k hk hn
  by_cases hki : k = i
  · subst hki
    exact hi hk hn
  · exact h.pairs k hk hn hki

/-! ## Sifting down -/

/-- When the element at the hole is less than its children it may only still have to go up. -/
theorem HoleOrdered.up (h : HoleOrdered lt n a i)
    (hi : ∀ k, 2 ≤ k → k ≤ n → k / 2 = i → ¬ lt (a k) (a i)) : UpOrdered lt n a i := by
  refine ⟨fun k hk hn hki => ?_, h.grand⟩
  by_cases hp : k / 2 = i
  · rw [hp]
    exact hi k hk hn hp
  · exact h.pairs k hk hn hki hp

theorem HoleOrdered.move (h : HoleOrdered lt n a i) {c : Nat} (h2 : 2 ≤ c) (hn : c ≤ n)
    (hc : c / 2 = i) (hmin : ∀ k, 2 ≤ k → k ≤ n → k / 2 = i → ¬ lt (a k) (a c)) :
    HoleOrdered lt n (swapAt a i c) c := by
  constructor
  · intro k hk hkn hkc hkp
    by_cases hki : k = i
    · subst hki
      rw [swapAt_left, swapAt_other a (k := k / 2) (by omega) (by omega)]
      exact h.grand c h2 hn hc hk
    · rw [swapAt_other a hki hkc]
      by_cases hp : k / 2 = i
      · rw [hp, swapAt_left]
        exact hmin k hk hkn hp
      · rw [swapAt_other a hp hkp]
        exact h.pairs k hk hkn hki hp
  · intro k hk hkn hkp _
    rw [hc, swapAt_left, swapAt_other a (by omega) (by omega), ← hkp]
    exact h.pairs k hk hkn (by omega) (by omega)

/-! ## The elements of a heap -/

/-- The elements at positions `1` to `n`. -/
def levelElems (n : Nat) (a : Nat → α) : Set α := {x | ∃ k, 1 ≤ k ∧ k ≤ n ∧ a k = x}

theorem levelElems_swapAt {j : Nat} (hi : 1 ≤ i ∧ i ≤ n) (hj : 1 ≤ j ∧ j ≤ n) :
    levelElems n (swapAt a i j) = levelElems n a := by
  ext x
  constructor
  · rintro ⟨k, h1, hn, rfl⟩
    unfold swapAt
    split_ifs
    · exact ⟨j, hj.1, hj.2, rfl⟩
    · exact ⟨i, hi.1, hi.2, rfl⟩
    · exact ⟨k, h1, hn, rfl⟩
  · rintro ⟨k, h1, hn, rfl⟩
    by_cases hki : k = i
    · exact ⟨j, hj.1, hj.2, by rw [swapAt_right, hki]⟩
    · by_cases hkj : k = j
      · exact ⟨i, hi.1, hi.2, by rw [swapAt_left, hkj]⟩
      · exact ⟨k, h1, hn, swapAt_other a hki hkj⟩

end HvVerified.Lib
