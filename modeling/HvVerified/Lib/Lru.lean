import Mathlib.Data.List.Basic

/-!
# Maps in the order of their last use

A bounded map as the list of its nodes, the one used last in front: looking a key up moves its node to
the front, and a key that is put into a full map drops the node at the end.
-/

namespace HvVerified.Lib

open List Option

variable {κ ν : Type} [DecidableEq κ] {node : κ × ν} {key : κ}

/-- The nodes, the newest first. -/
abbrev Lru (κ ν : Type) := List (κ × ν)

namespace Lru

/-- The value of `key`. -/
def find (key : κ) (nodes : Lru κ ν) : Option ν := (nodes.find? fun node => node.1 = key).map Prod.snd

/-- Moves the node of `key` to the front. -/
def touch (key : κ) (nodes : Lru κ ν) : Lru κ ν :=
  match nodes.find? fun node => node.1 = key with
  | some node => node :: nodes.eraseP fun node => node.1 = key
  | none => nodes

/-- Changes the value of `key` in place. -/
def write (key : κ) (value : ν) (nodes : Lru κ ν) : Lru κ ν :=
  nodes.map fun node => if node.1 = key then (node.1, value) else node

/-- The key gets a value and the front place; a new key drops the last node of a full map. -/
def put (capacity : Nat) (key : κ) (value : ν) (nodes : Lru κ ν) : Lru κ ν :=
  if (find key nodes).isSome then touch key (write key value nodes)
  else (key, value) :: if capacity ≤ nodes.length then nodes.dropLast else nodes

theorem mem_of_find {value : ν} {nodes : Lru κ ν} (h : find key nodes = some value) : (key, value) ∈ nodes := by
  obtain ⟨node, hnode, rfl⟩ := map_eq_some_iff.1 h
  have hkey : node.1 = key := by simpa using find?_some hnode
  subst hkey
  exact mem_of_find?_eq_some hnode

theorem ne_of_find_eq_none {nodes : Lru κ ν} (h : find key nodes = none) (hmem : node ∈ nodes) : node.1 ≠ key := by
  have := find?_eq_none.1 (map_eq_none_iff.1 h) node hmem
  simpa using this

theorem mem_touch {nodes : Lru κ ν} (h : node ∈ touch key nodes) : node ∈ nodes := by
  unfold touch at h
  split at h
  · next front hfront =>
    rcases mem_cons.1 h with rfl | h
    · exact mem_of_find?_eq_some hfront
    · exact mem_of_mem_eraseP h
  · exact h

theorem mem_write {value : ν} {nodes : Lru κ ν} (h : node ∈ write key value nodes) :
    node = (key, value) ∨ node.1 ≠ key ∧ node ∈ nodes := by
  obtain ⟨old, hold, rfl⟩ := mem_map.1 h
  split_ifs with hkey
  · exact .inl (by rw [hkey])
  · exact .inr ⟨hkey, hold⟩

theorem mem_put_new {capacity : Nat} {value : ν} {nodes : Lru κ ν}
    (hfind : find key nodes = none) (h : node ∈ put capacity key value nodes) :
    node = (key, value) ∨ node.1 ≠ key ∧ node ∈ nodes := by
  unfold put at h
  rw [hfind, isSome_none, if_neg (by simp)] at h
  rcases mem_cons.1 h with rfl | h
  · exact .inl rfl
  · have hmem : node ∈ nodes := by
      split_ifs at h
      · exact (dropLast_subset nodes) h
      · exact h
    exact .inr ⟨ne_of_find_eq_none hfind hmem, hmem⟩

end Lru

end HvVerified.Lib
