import Mathlib.Data.List.AList

/-!
# Tokens in a finite map

Each value of a finite map may hold a token. `held` are the tokens of the whole map; the lemmas say how
they change with one entry, which is what a proof needs that no token is lost and none is held twice.
-/

namespace HvVerified.Lib

open List Option AList

variable {α β τ : Type} [DecidableEq α] {m : AList fun _ : α => β} (f : β → Option τ)

/-- What the entries of `m` hold, with repetitions. -/
def held (f : β → Option τ) (m : AList fun _ : α => β) : List τ := m.entries.filterMap fun s => f s.2

theorem held_insert (m : AList fun _ : α => β) (a : α) (b : β) :
    held f (m.insert a b) = (f b).toList ++ held f (m.erase a) := by
  unfold held
  rw [entries_insert, filterMap_cons]
  cases f b with
  | none => rfl
  | some t => rfl

theorem held_perm {a : α} {b : β} (h : m.lookup a = some b) :
    (held f m).Perm ((f b).toList ++ held f (m.erase a)) := by
  obtain ⟨b', l₁, l₂, ha, hl, herase⟩ := exists_of_kerase (lookup_isSome.1 (isSome_of_eq_some h))
  have hb : b' = b := by
    have hmem := mem_lookup_iff.2 (show (⟨a, b'⟩ : Sigma fun _ : α => β) ∈ m.entries by rw [hl]; simp)
    rw [mem_def, h] at hmem
    exact (some.inj hmem).symm
  subst hb
  have hperm : m.entries.Perm (⟨a, b'⟩ :: (m.erase a).entries) := by
    rw [show (m.erase a).entries = l₁ ++ l₂ from herase, hl]
    exact perm_middle
  have heq : (filterMap (fun s => f s.2) (⟨a, b'⟩ :: (m.erase a).entries)) = (f b').toList ++ held f (m.erase a) := by
    rw [filterMap_cons]
    cases f b' with
    | none => rfl
    | some t => rfl
  rw [← heq]
  exact hperm.filterMap _

theorem mem_held {f : β → Option τ} {t : τ} : t ∈ held f m ↔ ∃ a b, m.lookup a = some b ∧ f b = some t := by
  unfold held
  rw [mem_filterMap]
  constructor
  · rintro ⟨⟨a, b⟩, hmem, ht⟩
    exact ⟨a, b, mem_lookup_iff.2 hmem, ht⟩
  · rintro ⟨a, b, hlookup, ht⟩
    exact ⟨⟨a, b⟩, mem_lookup_iff.1 hlookup, ht⟩

theorem held_erase_of_lookup_none {a : α} (h : m.lookup a = none) : held f (m.erase a) = held f m := by
  unfold held
  rw [show (m.erase a).entries = m.entries from kerase_of_notMem_keys (lookup_eq_none.1 h)]

section Count

variable [DecidableEq τ]

theorem count_held_insert (m : AList fun _ : α => β) (a : α) (b : β) (t : τ) :
    (held f (m.insert a b)).count t = (f b).toList.count t + (held f (m.erase a)).count t := by
  rw [held_insert, count_append]

theorem count_held {a : α} {b : β} (h : m.lookup a = some b) (t : τ) :
    (held f m).count t = (f b).toList.count t + (held f (m.erase a)).count t := by
  rw [(held_perm f h).count_eq, count_append]

end Count

end HvVerified.Lib
