import HvVerified.Lib.Runs
import Mathlib.Data.Set.Card

/-!
# Counting objects

A memory maps addresses to objects. `Numbers mem p n` says that `n` is the number of the objects that
satisfy `p`; when one object is replaced, the number changes by what the old and the new object
contribute (`Numbers.update`). So it does in a list, of whose elements one is replaced or removed.
-/

namespace HvVerified.Lib

open Function List

variable {ν ω : Type}

/-- The addresses of the objects that satisfy `p`. -/
def holders (mem : ν → Option ω) (p : ω → Bool) : Set ν := {a | ∃ x, mem a = some x ∧ p x = true}

/-- There are `n` objects that satisfy `p`. -/
def Numbers (mem : ν → Option ω) (p : ω → Bool) (n : Int) : Prop :=
  (holders mem p).Finite ∧ n = (holders mem p).ncard

/-- What the object at one address contributes. -/
def weight (p : ω → Bool) (x : Option ω) : Int := if x.any p then 1 else 0

variable {mem : ν → Option ω} {p : ω → Bool} {n n' : Int} {a : ν}

theorem mem_holders : a ∈ holders mem p ↔ (mem a).any p := by
  cases h : mem a <;> simp [holders, h]

theorem numbers_empty : Numbers (fun _ : ν => none) p 0 := by
  have hnone : holders (fun _ : ν => none) p = ∅ := by
    ext a
    simp [mem_holders]
  rw [Numbers, hnone]
  simp

variable [DecidableEq ν]

theorem holders_update (x : Option ω) : holders (update mem a x) p =
      if x.any p then insert a (holders mem p) else holders mem p \ {a} := by
  ext b
  by_cases hb : b = a
  · subst hb
    rw [mem_holders, update_self]
    split_ifs with hx <;> simp [hx]
  · have hold : b ∈ holders (update mem a x) p ↔ b ∈ holders mem p := by
      rw [mem_holders, mem_holders, update_of_ne hb]
    rw [hold]
    split_ifs <;> simp [hb]

theorem Numbers.update (h : Numbers mem p n) (x : Option ω) (hn : n' = n - weight p (mem a) + weight p x) :
    Numbers (update mem a x) p n' := by
  obtain ⟨hfin, hcard⟩ := h
  rw [Numbers, holders_update]
  unfold weight at hn
  by_cases hold : (mem a).any p
  · have hmem : a ∈ holders mem p := mem_holders.2 hold
    rw [if_pos hold] at hn
    split_ifs at hn ⊢ with hx
    · rw [Set.insert_eq_of_mem hmem]
      exact ⟨hfin, by omega⟩
    · have hlt := Set.ncard_sdiff_singleton_add_one hmem hfin
      exact ⟨hfin.sdiff, by omega⟩
  · have hmem : a ∉ holders mem p := fun ha => hold (mem_holders.1 ha)
    rw [if_neg hold] at hn
    split_ifs at hn ⊢ with hx
    · have hlt := Set.ncard_insert_of_notMem hmem hfin
      exact ⟨hfin.insert a, by omega⟩
    · rw [Set.sdiff_singleton_eq_self hmem]
      exact ⟨hfin, by omega⟩

section Lists

variable {α κ ι : Type} [DecidableEq κ] [DecidableEq ι]

theorem countP_update {f : ι → α} {l : List ι} (hnodup : l.Nodup) {i : ι} (hi : i ∈ l) (x : α) (p : α → Bool) :
    l.countP (fun j => p (update f i x j)) + (p (f i)).toNat = l.countP (fun j => p (f j)) + (p x).toNat := by
  induction l with
  | nil => cases hi
  | cons j l ih =>
    rw [nodup_cons] at hnodup
    rw [countP_cons, countP_cons]
    by_cases hj : j = i
    · subst hj
      have hrest : l.countP (fun k => p (update f j x k)) = l.countP (fun k => p (f k)) := by
        refine countP_congr fun k hk => ?_
        have hne : k ≠ j := by
          rintro rfl
          exact hnodup.1 hk
        rw [update_of_ne hne]
      rw [hrest, update_self]
      cases p x <;> cases p (f j) <;> simp
    · have hi' := (mem_cons.1 hi).resolve_left (fun h => hj h.symm)
      have hrest := ih hnodup.2 hi'
      rw [update_of_ne hj]
      omega

theorem countP_change (key : α → κ) {l : List α} (hnodup : (l.map key).Nodup) {c : α} (hc : c ∈ l) (g : α → α)
    (p : α → Bool) : (l.map fun x => if key x = key c then g x else x).countP p + (p c).toNat =
      l.countP p + (p (g c)).toNat := by
  induction l with
  | nil => cases hc
  | cons a l ih =>
    rw [map_cons, nodup_cons] at hnodup
    rw [map_cons, countP_cons, countP_cons]
    rcases mem_cons.1 hc with rfl | hc'
    · have hrest : (l.map fun x => if key x = key c then g x else x) = l := by
        refine (map_congr_left fun x hx => ?_).trans (map_id l)
        rw [if_neg (fun h => hnodup.1 (mem_map.2 ⟨x, hx, h⟩))]
        rfl
      rw [hrest, if_pos rfl]
      cases p c <;> cases p (g c) <;> simp
    · have hne : key a ≠ key c := fun h => hnodup.1 (h ▸ mem_map_of_mem hc')
      have hrest := ih hnodup.2 hc'
      rw [if_neg hne]
      omega

theorem countP_remove (key : α → κ) {l : List α} (hnodup : (l.map key).Nodup) {c : α} (hc : c ∈ l) (p : α → Bool) :
    (l.filter fun x => key x ≠ key c).countP p + (p c).toNat = l.countP p := by
  induction l with
  | nil => cases hc
  | cons a l ih =>
    rw [map_cons, nodup_cons] at hnodup
    rw [filter_cons, countP_cons]
    rcases mem_cons.1 hc with rfl | hc'
    · have hrest : (l.filter fun x => key x ≠ key c) = l := by
        refine filter_eq_self.2 fun x hx => ?_
        exact decide_eq_true fun h => hnodup.1 (mem_map.2 ⟨x, hx, h⟩)
      rw [hrest, if_neg (by simp)]
      cases p c <;> simp
    · have hne : key a ≠ key c := fun h => hnodup.1 (h ▸ mem_map_of_mem hc')
      have hrest := ih hnodup.2 hc'
      rw [if_pos (decide_eq_true hne), countP_cons]
      omega

omit [DecidableEq κ] [DecidableEq ι] in
theorem sum_set {l : List α} {i : Nat} {a : α} (h : l[i]? = some a) (b : α) (f : α → Nat) :
    ((l.set i b).map f).sum + f a = (l.map f).sum + f b := by
  induction l generalizing i with
  | nil => cases h
  | cons c l ih =>
    cases i with
    | zero =>
      obtain rfl : c = a := Option.some.inj h
      simp only [set_cons_zero, map_cons, sum_cons]
      omega
    | succ i =>
      have hrest := ih (i := i) h
      simp only [set_cons_succ, map_cons, sum_cons]
      omega

omit [DecidableEq κ] [DecidableEq ι] in
theorem countP_set {l : List α} {i : Nat} {a : α} (h : l[i]? = some a) (b : α) (p : α → Bool) :
    (l.set i b).countP p + (p a).toNat = l.countP p + (p b).toNat := by
  obtain ⟨hi, rfl⟩ := List.getElem?_eq_some_iff.1 h
  rw [List.countP_set hi]
  cases hp : p l[i] with
  | true =>
    have hpos : 0 < l.countP p := List.countP_pos_iff.2 ⟨_, List.getElem_mem hi, hp⟩
    cases p b <;> simp <;> omega
  | false => cases p b <;> simp

end Lists

/-! ## Tables in which one entry is changed -/

variable {α β : Type} [DecidableEq α] {f : α → β} {a b : α} {v x : β}

theorem update_cases (h : update f a v b = x) : b = a ∧ v = x ∨ b ≠ a ∧ f b = x := by
  by_cases hb : b = a
  · subst hb
    exact .inl ⟨rfl, (update_self _ _ _).symm.trans h⟩
  · exact .inr ⟨hb, (update_of_ne hb _ _).symm.trans h⟩

theorem update_other (v : β) (h : b ≠ a) : update f a v b = f b := update_of_ne h v f

end HvVerified.Lib
