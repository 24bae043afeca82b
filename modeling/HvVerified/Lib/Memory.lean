import Mathlib.Data.List.Range
import Mathlib.Tactic.Ring

/-!
# Memory blocks and their slices

A memory block is a function from offsets to cells: what a C program sees through a base pointer.
`slice m lo hi` is the list of the cells at the offsets `lo ≤ i < hi`, `store` overwrites a run of
cells and `move` is `memmove` inside one block.
-/

namespace HvVerified.Lib

open List Option

variable {lo hi i at_ : Nat} {α : Type} (m : Nat → α)

/-- The cells at the offsets `lo ≤ i < hi`. -/
def slice (m : Nat → α) (lo hi : Nat) : List α := (List.range' lo (hi - lo)).map m

/-- `xs` written at `at_` -/
def store (m : Nat → α) (at_ : Nat) (xs : List α) : Nat → α :=
  fun i => if i < at_ then m i else (xs[i - at_]?).getD (m i)

/-- Copy the `n` cells at offset `src` to offset `dst`; the two areas may overlap. -/
def move (m : Nat → α) (dst src n : Nat) : Nat → α :=
  fun i => if dst ≤ i ∧ i < dst + n then m (src + (i - dst)) else m i

@[simp] theorem length_slice (lo hi : Nat) : (slice m lo hi).length = hi - lo := by
  simp [slice]

theorem getElem?_slice (lo hi i : Nat) : (slice m lo hi)[i]? = if i < hi - lo then some (m (lo + i)) else none := by
  unfold slice
  rw [getElem?_map]
  split_ifs with h
  · rw [getElem?_range' (by omega)]; simp
  · rw [getElem?_eq_none (by simp; omega)]; rfl

@[simp] theorem slice_self (lo : Nat) : slice m lo lo = [] := by
  simp [slice]

theorem slice_eq_nil {m : Nat → α} (h : hi ≤ lo) : slice m lo hi = [] := by
  rw [← length_eq_zero_iff, length_slice]; omega

theorem slice_ne_nil {m : Nat → α} (h : lo < hi) : slice m lo hi ≠ [] := by
  rw [← length_pos_iff, length_slice]; omega

theorem slice_congr {m m' : Nat → α} {lo' hi' : Nat} (hlen : hi - lo = hi' - lo')
    (h : ∀ i, i < hi - lo → m (lo + i) = m' (lo' + i)) : slice m lo hi = slice m' lo' hi' := by
  apply ext_getElem?
  intro i
  rw [getElem?_slice, getElem?_slice, ← hlen]
  split_ifs with hi
  · rw [h i hi]
  · rfl

theorem slice_append (mid : Nat) (h1 : lo ≤ mid) (h2 : mid ≤ hi) :
    slice m lo mid ++ slice m mid hi = slice m lo hi := by
  unfold slice
  rw [← map_append]
  have h := @range'_append lo (mid - lo) (hi - mid) 1
  simp only [Nat.one_mul] at h
  rw [show lo + (mid - lo) = mid by omega, show mid - lo + (hi - mid) = hi - lo by omega] at h
  rw [h]

theorem slice_succ (h : lo < hi) : slice m lo hi = m lo :: slice m (lo + 1) hi := by
  rw [← slice_append m (lo + 1) (by omega) (by omega)]
  simp [slice]

theorem take_slice {lo hi n : Nat} (h : lo + n ≤ hi) : (slice m lo hi).take n = slice m lo (lo + n) := by
  rw [← slice_append m (lo + n) (by omega) h]
  rw [take_append_of_le_length (by simp)]
  exact take_of_length_le (by simp)

theorem drop_slice {n : Nat} (h : lo + n ≤ hi) : (slice m lo hi).drop n = slice m (lo + n) hi := by
  rw [← slice_append m (lo + n) (by omega) h]
  rw [drop_append_of_le_length (by simp)]
  simp [drop_of_length_le]

theorem mem_of_slice_eq {m : Nat → α} {xs : List α} (h : slice m lo hi = xs)
    (hi' : i < xs.length) : xs[i]? = some (m (lo + i)) := by
  subst h
  rw [length_slice] at hi'
  rw [getElem?_slice, if_pos hi']

theorem take_of_findIdx? [BEq α] [LawfulBEq α] {c : α} : ∀ {l : List α} {i : Nat}, l.findIdx? (· == c) = some i →
      i < l.length ∧ ∃ xs, l.take (i + 1) = xs ++ [c] ∧ c ∉ xs := by
  intro l
  induction l with
  | nil =>
    intro i h
    cases h
  | cons x l ih =>
    intro i h
    rw [findIdx?_cons] at h
    by_cases hx : x = c
    · subst hx
      simp only [beq_self_eq_true, if_true, some.injEq] at h
      subst h
      exact ⟨by simp, [], by simp, by simp⟩
    · rw [if_neg (by simpa using hx)] at h
      obtain ⟨j, hj, rfl⟩ := map_eq_some_iff.1 h
      obtain ⟨hlt, xs, htake, hnot⟩ := ih hj
      refine ⟨by simpa using hlt, x :: xs, by rw [take_succ_cons, htake]; rfl, ?_⟩
      simp only [mem_cons, not_or]
      exact ⟨fun hc => hx hc.symm, hnot⟩

theorem notMem_of_findIdx? [BEq α] [LawfulBEq α] {c : α} {l : List α} (h : l.findIdx? (· == c) = none) : c ∉ l := by
  intro hmem
  have := findIdx?_eq_none_iff.1 h c hmem
  simp at this

/-! ## Slices of a written block -/

theorem store_before (xs : List α) (h : i < at_) : store m at_ xs i = m i := by
  simp [store, h]

theorem store_inside (xs : List α) (h1 : at_ ≤ i)
    (h2 : i < at_ + xs.length) : some (store m at_ xs i) = xs[i - at_]? := by
  unfold store
  rw [if_neg (by omega), getElem?_eq_getElem (by omega)]
  rfl

theorem slice_store_before (xs : List α) (h : hi ≤ at_) : slice (store m at_ xs) lo hi = slice m lo hi :=
  slice_congr rfl fun i hi' => store_before m xs (by omega)

theorem slice_store_same (at_ : Nat) (xs : List α) : slice (store m at_ xs) at_ (at_ + xs.length) = xs := by
  apply ext_getElem?
  intro i
  rw [getElem?_slice]
  split_ifs with h
  · rw [store_inside m xs (by omega) (by omega)]; simp
  · rw [getElem?_eq_none (by omega)]

theorem slice_store_append (xs : List α) (h : lo ≤ at_) :
    slice (store m at_ xs) lo (at_ + xs.length) = slice m lo at_ ++ xs := by
  rw [← slice_append _ at_ h (by omega), slice_store_before m xs le_rfl, slice_store_same]

theorem slice_store_after (xs : List α) (h : at_ + xs.length ≤ lo) :
    slice (store m at_ xs) lo hi = slice m lo hi := by
  refine slice_congr rfl fun i _ => ?_
  unfold store
  rw [if_neg (by omega), getElem?_eq_none (by omega), getD_none]

theorem slice_store_prepend {mid : Nat} (xs : List α) (h : xs.length ≤ mid) (hle : mid ≤ hi) :
    slice (store m (mid - xs.length) xs) (mid - xs.length) hi = xs ++ slice m mid hi := by
  have hsame := slice_store_same m (mid - xs.length) xs
  rw [Nat.sub_add_cancel h] at hsame
  rw [← slice_append _ mid (by omega) hle, hsame, slice_store_after m xs (by omega)]

/-! ## Slices of a moved block -/

theorem slice_move (dst src n : Nat) : slice (move m dst src n) dst (dst + n) = slice m src (src + n) := by
  apply slice_congr (by omega)
  intro i hi
  unfold move
  rw [if_pos (by omega)]
  congr 1; omega

/-! ## Reading from left to right -/

variable {α : Type} {m : Int → α} {p : Int} {l l' : List α}

/-- The cells from the address `p` on. -/
def Holds (m : Int → α) (p : Int) (l : List α) : Prop := ∀ i a, l[i]? = some a → m (p + (i : Nat)) = a

theorem holds_nil (m : Int → α) (p : Int) : Holds m p [] := by
  intro i a h
  simp at h

theorem holds_cons {a : α} : Holds m p (a :: l) ↔ m p = a ∧ Holds m (p + 1) l := by
  constructor
  · intro h
    refine ⟨by simpa using h 0 a rfl, ?_⟩
    intro i b hb
    have hi := h (i + 1) b (by simpa using hb)
    rw [← hi]
    congr 1
    push_cast
    ring
  · rintro ⟨ha, h⟩ i b hb
    cases i with
    | zero =>
      obtain rfl : a = b := by simpa using hb
      simpa using ha
    | succ i =>
      rw [← h i b (by simpa using hb)]
      congr 1
      push_cast
      ring

theorem holds_append : Holds m p (l ++ l') ↔ Holds m p l ∧ Holds m (p + l.length) l' := by
  induction l generalizing p with
  | nil => simp [holds_nil]
  | cons a l ih =>
    rw [cons_append, holds_cons, holds_cons, ih, and_assoc, length_cons]
    have hp : p + 1 + (l.length : Int) = p + ((l.length + 1 : Nat) : Int) := by
      push_cast
      ring
    rw [hp]

theorem map_range_of_holds (h : Holds m p l) : (range l.length).map (fun i => m (p + (i : Nat))) = l := by
  apply ext_getElem (by simp)
  intro i hi hi'
  rw [getElem_map, getElem_range]
  exact h i _ (getElem?_eq_getElem hi')

theorem holds_congr {m' : Int → α} (h : ∀ i, i < l.length → m (p + (i : Nat)) = m' (p + (i : Nat))) :
    Holds m p l ↔ Holds m' p l := by
  refine forall_congr' fun i => forall_congr' fun a => ?_
  constructor
  · intro hm ha
    rw [← h i (List.getElem?_eq_some_iff.1 ha).1]
    exact hm ha
  · intro hm ha
    rw [h i (List.getElem?_eq_some_iff.1 ha).1]
    exact hm ha

end HvVerified.Lib
