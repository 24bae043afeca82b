import Mathlib.Data.List.Basic

/-!
# Chains of links

Nodes that are linked in one direction: `next x = none` says that there is no node `x`, and
`next x = some p` that its link is `p`, the null link being `none`. `IsChain next p l` says that the
links followed from `p` lead through the nodes of `l` to the null link. Since a node has one link,
a chain that ends contains no node twice.
-/

namespace HvVerified.Lib

open List

variable {ν : Type}

/-- The links from `p` lead through `l`, in this order, to the null link. -/
def IsChain (next : ν → Option (Option ν)) : Option ν → List ν → Prop
  | p, [] => p = none
  | p, x :: l => p = some x ∧ ∃ q, next x = some q ∧ IsChain next q l

variable {next next' : ν → Option (Option ν)} {p : Option ν} {l l' : List ν}

theorem IsChain.congr (h : IsChain next p l) (heq : ∀ x ∈ l, next' x = next x) : IsChain next' p l := by
  induction l generalizing p with
  | nil => exact h
  | cons x l ih =>
    obtain ⟨hp, q, hq, hl⟩ := h
    exact ⟨hp, q, (heq x mem_cons_self).trans hq,
      ih hl fun y hy => heq y (mem_cons_of_mem x hy)⟩

theorem IsChain.eq_nil (h : IsChain next none l) : l = [] := by
  cases l with
  | nil => rfl
  | cons x l => exact absurd h.1 (by simp)

theorem IsChain.unique (h : IsChain next p l) (h' : IsChain next p l') : l = l' := by
  induction l generalizing p l' with
  | nil =>
    obtain rfl : p = none := h
    exact h'.eq_nil.symm
  | cons x l ih =>
    obtain ⟨rfl, q, hq, hl⟩ := h
    cases l' with
    | nil => exact absurd h' (by simp [IsChain])
    | cons y l' =>
      obtain ⟨hy, q', hq', hl'⟩ := h'
      cases hy
      cases hq.symm.trans hq'
      rw [ih hl hl']

theorem IsChain.suffix {x : ν} {l₁ l₂ : List ν} (h : IsChain next p (l₁ ++ x :: l₂)) :
    IsChain next (some x) (x :: l₂) := by
  induction l₁ generalizing p with
  | nil =>
    obtain ⟨-, hrest⟩ := h
    exact ⟨rfl, hrest⟩
  | cons y l₁ ih =>
    obtain ⟨-, q, -, hl⟩ := h
    exact ih hl

theorem IsChain.nodup (h : IsChain next p l) : l.Nodup := by
  induction l generalizing p with
  | nil => exact nodup_nil
  | cons x l ih =>
    obtain ⟨q, hq, hl⟩ := h.2
    refine nodup_cons.2 ⟨fun hmem => ?_, ih hl⟩
    -- a second occurrence would start the same chain, only shorter
    obtain ⟨l₁, l₂, rfl⟩ := append_of_mem hmem
    have hx : IsChain next (some x) (x :: (l₁ ++ x :: l₂)) := ⟨rfl, q, hq, hl⟩
    have heq := hl.suffix.unique hx
    have hlen := congrArg length heq
    simp at hlen
    omega

theorem IsChain.exists {x : ν} (h : IsChain next p l) (hx : x ∈ l) : ∃ q, next x = some q := by
  obtain ⟨l₁, l₂, rfl⟩ := append_of_mem hx
  obtain ⟨-, q, hq, -⟩ := h.suffix
  exact ⟨q, hq⟩

/-- The links from `p` lead to the node `y`, whether it exists or not. -/
inductive Reaches (next : ν → Option (Option ν)) : Option ν → ν → Prop where
  | here {y : ν} : Reaches next (some y) y
  | there {x y : ν} {q : Option ν} (hx : next x = some q) (h : Reaches next q y) : Reaches next (some x) y

theorem Reaches.mem {y : ν} (h : Reaches next p y) (hl : IsChain next p l) : y ∈ l := by
  induction h generalizing l with
  | here =>
    cases l with
    | nil => exact absurd hl (by simp [IsChain])
    | cons x l =>
      obtain rfl := Option.some.inj hl.1
      exact mem_cons_self
  | there hx _ ih =>
    cases l with
    | nil => exact absurd hl (by simp [IsChain])
    | cons x l =>
      obtain ⟨hp, q, hq, hl⟩ := hl
      cases hp
      cases hx.symm.trans hq
      exact mem_cons_of_mem _ (ih hl)

end HvVerified.Lib
