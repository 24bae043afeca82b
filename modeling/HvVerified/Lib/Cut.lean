import Mathlib.Data.List.Infix

/-!
# Cutting a stream into packages

A stream is cut as soon as the package collected so far is full. What has been collected when the
stream pauses is all the state there is, so the packages do not depend on where the stream was
interrupted (`cutFrom_append`). Two notions of a full package are used: one that ends with a delimiter,
which cuts at the leftmost matches that do not overlap, and one of a fixed length.
-/

namespace HvVerified.Lib

open List

variable {α : Type} {n : Nat}

/-- The packages of `s` and what is left of it, where `cur` has been collected before. -/
def cutFrom (full : List α → Bool) : List α → List α → List (List α) × List α
  | cur, [] => ([], cur)
  | cur, x :: xs =>
    if full (cur ++ [x]) then ((cur ++ [x]) :: (cutFrom full [] xs).1, (cutFrom full [] xs).2)
    else cutFrom full (cur ++ [x]) xs

/-- The pieces of `s`, each up to where it is full, and the rest. -/
def cut (full : List α → Bool) (s : List α) : List (List α) × List α := cutFrom full [] s

/-- Nothing can be cut off. -/
def Pending (full : List α → Bool) (s : List α) : Prop := ∀ p, p ≠ [] → p <+: s → full p = false

section

variable {full : List α → Bool} {cur s p t : List α}

theorem pending_nil : Pending full [] := by
  intro p hp hpre
  exact absurd (prefix_nil.1 hpre) hp

theorem Pending.concat {x : α} (h : Pending full cur) (hx : full (cur ++ [x]) = false) :
    Pending full (cur ++ [x]) := by
  intro p hp hpre
  rcases prefix_concat_iff.1 hpre with rfl | hpre
  · exact hx
  · exact h p hp hpre

/-- The stream may be interrupted anywhere. -/
theorem cutFrom_append (cur a b : List α) :
    cutFrom full cur (a ++ b) = ((cutFrom full cur a).1 ++ (cutFrom full (cutFrom full cur a).2 b).1,
      (cutFrom full (cutFrom full cur a).2 b).2) := by
  induction a generalizing cur with
  | nil => rfl
  | cons x a ih =>
    rw [cons_append, cutFrom, cutFrom]
    by_cases hx : full (cur ++ [x])
    · rw [if_pos hx, if_pos hx, ih]
      rfl
    · rw [if_neg hx, if_neg hx]
      exact ih (cur ++ [x])

theorem cutFrom_of_pending (h : Pending full (cur ++ s)) : cutFrom full cur s = ([], cur ++ s) := by
  induction s generalizing cur with
  | nil =>
    rw [cutFrom, append_nil]
  | cons x s ih =>
    have hcons : cur ++ x :: s = cur ++ [x] ++ s := by simp
    rw [hcons] at h ⊢
    have hx : full (cur ++ [x]) = false := h _ (by simp) (prefix_append _ _)
    rw [cutFrom, if_neg (by simp [hx])]
    exact ih h

theorem cut_of_pending (h : Pending full s) : cut full s = ([], s) := cutFrom_of_pending h

theorem cutFrom_eq_cut (h : Pending full cur) (s : List α) : cutFrom full cur s = cut full (cur ++ s) := by
  rw [cut, cutFrom_append, show cutFrom full [] cur = ([], cur) from cut_of_pending h]
  rfl

theorem pending_cutFrom (h : Pending full cur) (s : List α) : Pending full (cutFrom full cur s).2 := by
  induction s generalizing cur with
  | nil => exact h
  | cons x s ih =>
    rw [cutFrom]
    by_cases hx : full (cur ++ [x])
    · rw [if_pos hx]
      exact ih pending_nil
    · rw [if_neg hx]
      exact ih (h.concat (by simpa using hx))

theorem pending_cut (s : List α) : Pending full (cut full s).2 := pending_cutFrom pending_nil s

theorem cutFrom_eq_cons {ps : List (List α)} (h : (cutFrom full cur s).1 = p :: ps) : p ≠ [] ∧ p <+: cur ++ s := by
  induction s generalizing cur with
  | nil => cases h
  | cons x xs ih =>
    rw [cutFrom] at h
    split_ifs at h
    · obtain ⟨rfl, -⟩ := cons.inj h
      exact ⟨by simp, xs, by simp⟩
    · rw [append_cons]
      exact ih h

/-- The first package is the beginning of the stream. -/
theorem cut_eq_cons {ps : List (List α)} (h : (cut full s).1 = p :: ps) : p ≠ [] ∧ p <+: s := cutFrom_eq_cons h

theorem cut_append (a b : List α) :
    cut full (a ++ b) = ((cut full a).1 ++ (cut full ((cut full a).2 ++ b)).1, (cut full ((cut full a).2 ++ b)).2) := by
  rw [← cutFrom_eq_cut (pending_cut a)]
  exact cutFrom_append [] a b

theorem cut_of_full (hfull : full p) (hp : p ≠ []) (hmin : Pending full p.dropLast) :
    cut full (p ++ t) = (p :: (cut full t).1, (cut full t).2) := by
  obtain ⟨q, x, rfl⟩ : ∃ q x, p = q ++ [x] := ⟨_, _, (dropLast_append_getLast hp).symm⟩
  rw [dropLast_concat] at hmin
  rw [cut, append_assoc, singleton_append, cutFrom_append,
    show cutFrom full [] q = ([], q) from cut_of_pending hmin]
  rw [cutFrom, if_pos hfull]
  rfl

/-- Every package and what is left is shorter than `n`. -/
def Short (n : Nat) (r : List (List α) × List α) : Prop := (∀ p ∈ r.1, p.length < n) ∧ r.2.length < n

theorem Short.length_lt (h : Short n (cutFrom full cur s)) : cur.length < n := by
  induction s generalizing cur with
  | nil => exact h.2
  | cons x s ih =>
    have hlt : (cur ++ [x]).length < n := by
      rw [cutFrom] at h
      by_cases hx : full (cur ++ [x])
      · rw [if_pos hx] at h
        exact h.1 _ mem_cons_self
      · rw [if_neg hx] at h
        exact ih h
    rw [length_append] at hlt
    omega

theorem Short.left {a b : List α} (h : Short n (cut full (a ++ b))) : (cut full a).2.length < n := by
  rw [cut, cutFrom_append] at h
  exact Short.length_lt ⟨fun p hp => h.1 p (mem_append_right _ hp), h.2⟩

end

/-! ## Delimiters -/

theorem match_of_suffix {d p s : List α} (hps : p <+: s) (hd : d <:+ p) : d <+: s.drop (p.length - d.length) := by
  obtain ⟨t, rfl⟩ := hps
  obtain ⟨q, rfl⟩ := hd
  have hlen : (q ++ d).length - d.length = q.length := by simp
  rw [hlen, append_assoc, drop_left]
  exact prefix_append d t

section

variable [DecidableEq α] {d s : List α}

/-- The packages that end with the delimiter. -/
def cutAtDelimiter (d : List α) (s : List α) : List (List α) × List α := cut (fun p => decide (d <:+ p)) s

theorem pending_delimiter (h : ∀ j, ¬ d <+: s.drop j) : Pending (fun p => decide (d <:+ p)) s := by
  intro p _ hpre
  by_contra hfull
  have hsuffix : d <:+ p := by simpa using hfull
  exact h _ (match_of_suffix hpre hsuffix)

theorem not_match_of_pending (hd : d ≠ []) (h : Pending (fun p => decide (d <:+ p)) s) (j : Nat) :
    ¬ d <+: s.drop j := by
  rintro ⟨t, ht⟩
  have hpre : s.take j ++ d <+: s := ⟨t, by rw [append_assoc, ht, take_append_drop]⟩
  have hfull := h (s.take j ++ d) (by simp [hd]) hpre
  simp at hfull

theorem cutAtDelimiter_of_not_match (h : ∀ j, ¬ d <+: s.drop j) : cutAtDelimiter d s = ([], s) :=
  cut_of_pending (pending_delimiter h)

/-- The stream is cut behind the leftmost match, and then from there on. -/
theorem cutAtDelimiter_of_match {i : Nat} (hd : d ≠ []) (hi : d <+: s.drop i) (hmin : ∀ j < i, ¬ d <+: s.drop j) :
    cutAtDelimiter d s = (s.take (i + d.length) :: (cutAtDelimiter d (s.drop (i + d.length))).1,
      (cutAtDelimiter d (s.drop (i + d.length))).2) := by
  have hpos : 0 < d.length := length_pos_iff.2 hd
  have hlen : i + d.length ≤ s.length := by
    have hle := hi.length_le
    rw [length_drop] at hle
    omega
  have htake : s.take (i + d.length) = s.take i ++ d := by
    rw [take_add, prefix_iff_eq_take.1 hi, length_take, length_drop]
    congr 2
    omega
  have hne : s.take (i + d.length) ≠ [] := by
    rw [htake]
    simp [hd]
  have hpending : Pending (fun p => decide (d <:+ p)) (s.take (i + d.length)).dropLast := by
    apply pending_delimiter
    intro j hj
    have hle := hj.length_le
    rw [length_drop, length_dropLast, length_take] at hle
    refine hmin j (by omega) (hj.trans ?_)
    exact (( dropLast_prefix _).trans ( take_prefix _ _)).drop j
  have hcut := cut_of_full (t := s.drop (i + d.length)) (by rw [htake]; simp) hne hpending
  rw [take_append_drop] at hcut
  exact hcut

end

/-! ## Fixed lengths -/

/-- The pieces of length `n` and the rest. -/
def cutByLength (n : Nat) (s : List α) : List (List α) × List α := cut (fun p => p.length == n) s

theorem pending_length {s : List α} (h : s.length < n) : Pending (fun p => p.length == n) s := by
  intro p _ hpre
  have hle := hpre.length_le
  exact beq_false_of_ne (by omega)

theorem cutByLength_of_lt {s : List α} (h : s.length < n) : cutByLength n s = ([], s) :=
  cut_of_pending (pending_length h)

theorem cutByLength_of_le {s : List α} (hn : 0 < n) (h : n ≤ s.length) :
    cutByLength n s = (s.take n :: (cutByLength n (s.drop n)).1, (cutByLength n (s.drop n)).2) := by
  have hlen : (s.take n).length = n := length_take_of_le h
  have hne : s.take n ≠ [] := length_pos_iff.1 (by omega)
  have hpending : Pending (fun p => p.length == n) (s.take n).dropLast :=
    pending_length (by rw [length_dropLast]; omega)
  have hfull : ((s.take n).length == n) := beq_iff_eq.2 hlen
  have hcut := cut_of_full (t := s.drop n) hfull hne hpending
  rw [take_append_drop] at hcut
  exact hcut

end HvVerified.Lib
