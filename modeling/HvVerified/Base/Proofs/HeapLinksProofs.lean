import HvVerified.Base.Heap
import HvVerified.Lib.LevelOrder

/-!
# Proofs: the links of the heap

`Layout h a` says that the links of `h` are those of the complete binary tree with `nelts` nodes whose
node number `k` in level order is `a k`. The link functions are followed on the numbers: each of
`heap_swap` and `heap_replace` changes a layout into another one.
-/

namespace HvVerified.Base

open Lib Function Heap

variable {k j i c : Nat} {ν : Type}

/-- The pointer to node number `k` of a tree with `n` nodes. -/
def slot (n : Nat) (a : Nat → ν) (k : Nat) : Option ν := if 1 ≤ k ∧ k ≤ n then some (a k) else none

theorem slot_some {n : Nat} {a : Nat → ν} (h1 : 1 ≤ k) (hn : k ≤ n) : slot n a k = some (a k) := if_pos ⟨h1, hn⟩

theorem slot_none {n : Nat} {a : Nat → ν} (h : k = 0 ∨ n < k) : slot n a k = none :=
  if_neg (by omega)

def Distinct (n : Nat) (a : Nat → ν) : Prop :=
  ∀ i j, 1 ≤ i → i ≤ n → 1 ≤ j → j ≤ n → a i = a j → i = j

/-- The links of `h` are those of a complete binary tree, filled level by level from the left. -/
structure Layout (h : Heap ν) (a : Nat → ν) : Prop where
  distinct : Distinct h.nelts a
  root : h.root = slot h.nelts a 1
  parent : ∀ k, 1 ≤ k → k ≤ h.nelts → h.parent (a k) = slot h.nelts a (k / 2)
  left : ∀ k, 1 ≤ k → k ≤ h.nelts → h.left (a k) = slot h.nelts a (2 * k)
  right : ∀ k, 1 ≤ k → k ≤ h.nelts → h.right (a k) = slot h.nelts a (2 * k + 1)

theorem slot_eq_some {n : Nat} {a : Nat → ν} (hd : Distinct n a) (h1 : 1 ≤ k) (hn : k ≤ n) :
    slot n a j = some (a k) ↔ j = k := by
  constructor
  · intro h
    by_cases hj : 1 ≤ j ∧ j ≤ n
    · rw [slot_some hj.1 hj.2] at h
      exact hd j k hj.1 hj.2 h1 hn (Option.some.inj h)
    · rw [slot, if_neg hj] at h
      cases h
  · rintro rfl
    exact slot_some h1 hn

/-! ## Writing a link -/

/-- The three links of a node. -/
inductive Dir where
  | parent
  | left
  | right
  deriving DecidableEq

def Heap.link (h : Heap ν) : Dir → ν → Option ν
  | .parent => h.parent
  | .left => h.left
  | .right => h.right

/-- The number that a link of node number `k` leads to. -/
def Dir.to : Dir → Nat → Nat
  | .parent, k => k / 2
  | .left, k => 2 * k
  | .right, k => 2 * k + 1

section Write

variable [DecidableEq ν] (h : Heap ν) (p v : Option ν) (x y : ν) (d : Dir)

@[simp] theorem setParent_none : h.setParent none v = h := rfl
@[simp] theorem setParent_left : (h.setParent p v).left = h.left := by cases p <;> rfl
@[simp] theorem setParent_right : (h.setParent p v).right = h.right := by cases p <;> rfl
@[simp] theorem setParent_root : (h.setParent p v).root = h.root := by cases p <;> rfl
@[simp] theorem setParent_nelts : (h.setParent p v).nelts = h.nelts := by cases p <;> rfl
@[simp] theorem setLeft_root : (h.setLeft x v).root = h.root := rfl
@[simp] theorem setLeft_right : (h.setLeft x v).right = h.right := rfl
@[simp] theorem setLeft_nelts : (h.setLeft x v).nelts = h.nelts := rfl
@[simp] theorem setRight_root : (h.setRight x v).root = h.root := rfl
@[simp] theorem setRight_nelts : (h.setRight x v).nelts = h.nelts := rfl

theorem link_setParent : (h.setParent (some x) v).link d y = if d = .parent ∧ y = x then v else h.link d y := by
  cases d <;> simp [link, setParent, update_apply]

theorem link_setLeft : (h.setLeft x v).link d y = if d = .left ∧ y = x then v else h.link d y := by
  cases d <;> simp [link, setLeft, update_apply]

theorem link_setRight : (h.setRight x v).link d y = if d = .right ∧ y = x then v else h.link d y := by
  cases d <;> simp [link, setRight, update_apply]

@[simp] theorem relink_parent : (h.relink p x v).parent = h.parent := by
  unfold relink
  cases p with
  | none => rfl
  | some q => simp only; split_ifs <;> rfl

@[simp] theorem relink_nelts : (h.relink p x v).nelts = h.nelts := by
  unfold relink
  cases p with
  | none => rfl
  | some q => simp only; split_ifs <;> rfl

end Write

/-! ## Links by number -/

section Numbers

variable [DecidableEq ν] {h : Heap ν} {n : Nat} {a : Nat → ν}

omit [DecidableEq ν] in
theorem Layout.link (hl : Layout h a) (d : Dir) (hk : 1 ≤ k ∧ k ≤ h.nelts) :
    h.link d (a k) = slot h.nelts a (d.to k) := by
  cases d with
  | parent => exact hl.parent k hk.1 hk.2
  | left => exact hl.left k hk.1 hk.2
  | right => exact hl.right k hk.1 hk.2

omit [DecidableEq ν] in
theorem layout_of_link (hnelts : h.nelts = n) (hd : Distinct n a) (hroot : h.root = slot n a 1)
    (hlink : ∀ d k, 1 ≤ k ∧ k ≤ n → h.link d (a k) = slot n a (d.to k)) : Layout h a := by
  subst hnelts
  exact ⟨hd, hroot, fun k h1 hn => hlink .parent k ⟨h1, hn⟩, fun k h1 hn => hlink .left k ⟨h1, hn⟩,
    fun k h1 hn => hlink .right k ⟨h1, hn⟩⟩

omit [DecidableEq ν] in
theorem distinct_eq_iff (hd : Distinct n a) (hi : 1 ≤ i ∧ i ≤ n) (hj : 1 ≤ j ∧ j ≤ n) : a i = a j ↔ i = j :=
  ⟨hd i j hi.1 hi.2 hj.1 hj.2, fun h => by rw [h]⟩

theorem link_setParent_slot (hd : Distinct n a) (hi : 1 ≤ i ∧ i ≤ n) (j : Nat) (v : Option ν) (d : Dir) :
    (h.setParent (slot n a j) v).link d (a i) =
      if d = .parent ∧ i = j then v else h.link d (a i) := by
  by_cases hj : 1 ≤ j ∧ j ≤ n
  · rw [slot_some hj.1 hj.2, link_setParent]
    simp only [distinct_eq_iff hd hi hj]
  · rw [slot, if_neg hj, if_neg (by omega)]
    rfl

/-- The write of the child link that leads to number `j`. -/
theorem link_setChild (hd : Distinct n a) (hi : 1 ≤ i ∧ i ≤ n) (hj : 2 ≤ j ∧ j / 2 ≤ n) (v : Option ν) (d : Dir) :
    (if j % 2 = 1 then h.setRight (a (j / 2)) v else h.setLeft (a (j / 2)) v).link d (a i) =
      if d ≠ .parent ∧ d.to i = j then v else h.link d (a i) := by
  have hp : 1 ≤ j / 2 ∧ j / 2 ≤ n := by omega
  by_cases hodd : j % 2 = 1
  · rw [if_pos hodd, link_setRight]
    refine if_congr ?_ rfl rfl
    cases d <;> simp [Dir.to, distinct_eq_iff hd hi hp] <;> omega
  · rw [if_neg hodd, link_setLeft]
    refine if_congr ?_ rfl rfl
    cases d <;> simp [Dir.to, distinct_eq_iff hd hi hp] <;> omega

theorem relink_root (hj : 1 ≤ j ∧ j ≤ h.nelts) (r : Option ν) :
    (h.relink (slot h.nelts a (j / 2)) (a j) r).root = if j = 1 then r else h.root := by
  by_cases h1 : j = 1
  · subst h1
    rfl
  · rw [slot_some (by omega) (by omega), if_neg h1]
    unfold relink
    simp only
    split_ifs <;> rfl

theorem link_relink (hl : Layout h a) (hj : 1 ≤ j ∧ j ≤ h.nelts) (hi : 1 ≤ i ∧ i ≤ h.nelts)
    (r : Option ν) (d : Dir) : (h.relink (slot h.nelts a (j / 2)) (a j) r).link d (a i) =
      if d ≠ .parent ∧ d.to i = j then r else h.link d (a i) := by
  by_cases h1 : j = 1
  · rw [slot_none (by omega), if_neg]
    · rfl
    · cases d <;> simp [Dir.to] <;> omega
  · have hp : 1 ≤ j / 2 ∧ j / 2 ≤ h.nelts := by omega
    rw [slot_some hp.1 hp.2]
    unfold relink
    simp only [hl.left _ hp.1 hp.2, hl.right _ hp.1 hp.2, slot_eq_some hl.distinct hj.1 hj.2]
    rw [← link_setChild hl.distinct hi (by omega)]
    by_cases hodd : j % 2 = 1
    · rw [if_neg (by omega), if_pos (by omega), if_pos hodd]
    · rw [if_pos (by omega), if_neg hodd]

theorem relink_self (hl : Layout h a) (hj : 1 ≤ j ∧ j ≤ h.nelts) (r : Option ν) :
    (h.relink (slot h.nelts a (j / 2)) (a j) r).left (a j) = slot h.nelts a (2 * j) ∧
      (h.relink (slot h.nelts a (j / 2)) (a j) r).right (a j) = slot h.nelts a (2 * j + 1) := by
  have hlink := link_relink hl hj hj r
  constructor
  · exact (hlink .left).trans (by rw [if_neg (by simp [Dir.to]; omega), hl.link .left hj]; rfl)
  · exact (hlink .right).trans (by rw [if_neg (by simp [Dir.to]; omega), hl.link .right hj]; rfl)

/-! ## `heap_swap` -/

/-- Which number a node gets when the numbers `i` and `j` are exchanged. -/
def exch (i j k : Nat) : Nat := if k = i then j else if k = j then i else k

omit [DecidableEq ν] in
theorem slot_swapAt (hi : 1 ≤ i ∧ i ≤ n) (hj : 1 ≤ j ∧ j ≤ n) (k : Nat) :
    slot n (swapAt a i j) k = slot n a (exch i j k) := by
  unfold slot exch swapAt
  by_cases hki : k = i
  · simp [hki, hi, hj]
  · by_cases hkj : k = j
    · subst hkj
      simp [hki, hi, hj]
    · simp [hki, hkj]

omit [DecidableEq ν] in
theorem layout_swapAt {h' : Heap ν} (hd : Distinct n a) (hnelts : h'.nelts = n)
    (hi : 1 ≤ i ∧ i ≤ n) (hj : 1 ≤ j ∧ j ≤ n) (hroot : h'.root = slot n a (exch i j 1))
    (hlink : ∀ d k, 1 ≤ k ∧ k ≤ n → h'.link d (a k) = slot n a (exch i j (d.to (exch i j k)))) :
    Layout h' (swapAt a i j) := by
  have hrange : ∀ k, 1 ≤ k ∧ k ≤ n → 1 ≤ exch i j k ∧ exch i j k ≤ n := by
    intro k hk
    unfold exch
    split_ifs <;> omega
  have hexch : ∀ k, exch i j (exch i j k) = k := by
    intro k
    unfold exch
    split_ifs <;> omega
  have hval : ∀ k, swapAt a i j k = a (exch i j k) := by
    intro k
    unfold exch swapAt
    split_ifs <;> rfl
  refine layout_of_link hnelts ?_ (by rw [slot_swapAt hi hj]; exact hroot) fun d k hk => ?_
  · intro k l hk hkn hl hln heq
    rw [hval, hval, distinct_eq_iff hd (hrange k ⟨hk, hkn⟩) (hrange l ⟨hl, hln⟩)] at heq
    rw [← hexch k, heq, hexch]
  · rw [hval, slot_swapAt hi hj, hlink d _ (hrange k hk), hexch]

/-- The links that `heap_swap` writes. The child is on one side of the parent and the sibling on the
    other; `x` and `y` are the numbers that the child's new left and right link point to. -/
theorem swapLinks_layout (hl : Layout h a) {x y sibling : Nat} (h2 : 2 ≤ c) (hn : c ≤ h.nelts)
    (hside : (c = 2 * (c / 2) ∧ x = c / 2 ∧ y = c + 1 ∧ sibling = c + 1) ∨
      (c = 2 * (c / 2) + 1 ∧ x = c - 1 ∧ y = c / 2 ∧ sibling = c - 1)) :
    Layout ((((((((((h.relink (slot h.nelts a (c / 2 / 2)) (a (c / 2)) (some (a c))).setParent
      (slot h.nelts a (2 * c)) (some (a (c / 2)))).setParent
      (slot h.nelts a (2 * c + 1)) (some (a (c / 2)))).setParent
      (some (a c)) (slot h.nelts a (c / 2 / 2))).setLeft (a c) (slot h.nelts a x)).setRight
      (a c) (slot h.nelts a y)).setParent (slot h.nelts a sibling) (some (a c))).setParent
      (some (a (c / 2))) (some (a c))).setLeft (a (c / 2)) (slot h.nelts a (2 * c))).setRight
      (a (c / 2)) (slot h.nelts a (2 * c + 1))) (swapAt a (c / 2) c) := by
  have hd := hl.distinct
  have hc : 1 ≤ c ∧ c ≤ h.nelts := by omega
  have hp : 1 ≤ c / 2 ∧ c / 2 ≤ h.nelts := by omega
  have hsc : some (a c) = slot h.nelts a c := (slot_some hc.1 hc.2).symm
  have hsp : some (a (c / 2)) = slot h.nelts a (c / 2) := (slot_some hp.1 hp.2).symm
  rw [hsc, hsp]
  refine layout_swapAt hd (by simp) hp hc ?_ fun d k hk => ?_
  · simp only [setRight_root, setLeft_root, setParent_root, relink_root hp]
    rw [hl.root]
    unfold exch
    split_ifs <;> exact congrArg (slot h.nelts a) (by omega)
  · simp only [link_setRight, link_setLeft, link_setParent_slot hd hk, link_relink hl hp hk, hl.link d hk,
      distinct_eq_iff hd hk hp, distinct_eq_iff hd hk hc]
    cases d <;> simp only [Dir.to, exch, reduceCtorEq, ne_eq, not_true, not_false_eq_true, true_and,
      false_and, if_false] <;> split_ifs <;> exact congrArg (slot h.nelts a) (by omega)

theorem heapSwap_layout (hl : Layout h a) (h2 : 2 ≤ c) (hn : c ≤ h.nelts) :
    ∃ h', heapSwap h (a (c / 2)) (a c) = some h' ∧ h'.nelts = h.nelts ∧
      Layout h' (swapAt a (c / 2) c) := by
  have hd := hl.distinct
  have hc : 1 ≤ c ∧ c ≤ h.nelts := by omega
  have hp : 1 ≤ c / 2 ∧ c / 2 ≤ h.nelts := by omega
  have hassert : h.parent (a c) = some (a (c / 2)) ∧
      (h.left (a (c / 2)) = some (a c) ∨ h.right (a (c / 2)) = some (a c)) := by
    rw [hl.parent c hc.1 hc.2, hl.left _ hp.1 hp.2, hl.right _ hp.1 hp.2, slot_eq_some hd hp.1 hp.2,
      slot_eq_some hd hc.1 hc.2, slot_eq_some hd hc.1 hc.2]
    omega
  -- the links of the parent itself are not changed before they are read
  obtain ⟨hleft, hright⟩ := relink_self hl hp (some (a c))
  unfold heapSwap
  rw [if_pos hassert, hl.parent _ hp.1 hp.2, hl.left _ hc.1 hc.2, hl.right _ hc.1 hc.2]
  simp only [setParent_left, setParent_right, hleft, hright, slot_eq_some hd hc.1 hc.2]
  by_cases hside : 2 * (c / 2) = c
  · rw [if_pos hside, ← slot_some hp.1 hp.2]
    have hl' := swapLinks_layout hl h2 hn (Or.inl ⟨hside.symm, rfl, rfl, rfl⟩)
    rw [← slot_some hp.1 hp.2] at hl'
    rw [hside]
    exact ⟨_, rfl, by simp, hl'⟩
  · rw [if_neg hside]
    have hl' := swapLinks_layout hl h2 hn (Or.inr ⟨by omega, rfl, rfl, rfl⟩)
    rw [← slot_some hp.1 hp.2] at hl' ⊢
    rw [show 2 * (c / 2) = c - 1 by omega]
    exact ⟨_, rfl, by simp, hl'⟩

/-! ## `heap_replace` -/

omit [DecidableEq ν] in
theorem slot_update (hi : 1 ≤ i ∧ i ≤ n) (r : ν) (k : Nat) :
    slot n (update a i r) k = if k = i then some r else slot n a k := by
  unfold slot
  by_cases hk : k = i
  · subst hk
    simp [hi]
  · simp [hk]

omit [DecidableEq ν] in
/-- A new node gets the number `i`, where all other numbers up to `m` were in use. -/
theorem distinct_update {m : Nat} {r : ν} (hd : Distinct n a) (hr : ∀ k, 1 ≤ k → k ≤ n → a k ≠ r)
    (hm : ∀ k, k ≤ m → k ≠ i → k ≤ n) : Distinct m (update a i r) := by
  intro k l hk hkm hl hlm heq
  by_cases hki : k = i <;> by_cases hli : l = i
  · rw [hki, hli]
  · rw [hki, update_self, update_of_ne hli] at heq
    exact absurd heq.symm (hr l hl (hm l hlm hli))
  · rw [hli, update_self, update_of_ne hki] at heq
    exact absurd heq (hr k hk (hm k hkm hki))
  · rw [update_of_ne hki, update_of_ne hli] at heq
    exact hd k l hk (hm k hkm hki) hl (hm l hlm hli) heq

theorem heapReplace_layout (hl : Layout h a) (hi : 1 ≤ i ∧ i ≤ h.nelts) {r : ν}
    (hr : ∀ k, 1 ≤ k → k ≤ h.nelts → a k ≠ r) : (heapReplace h (a i) r).nelts = h.nelts ∧
      Layout (heapReplace h (a i) r) (update a i r) := by
  have hd := hl.distinct
  obtain ⟨hleft, hright⟩ := relink_self hl hi (some r)
  have hnelts : (heapReplace h (a i) r).nelts = h.nelts := by simp [heapReplace]
  refine ⟨hnelts, ?_⟩
  unfold heapReplace at hnelts ⊢
  have hparent : ∀ (h' : Heap ν) {j}, i ≠ j →
      (h'.setParent (slot h.nelts a j) (some r)).parent (a i) = h'.parent (a i) := fun h' j hj => by
    exact (link_setParent_slot hd hi j _ .parent).trans (if_neg (by simp [hj]))
  simp only [hl.parent i hi.1 hi.2, setParent_left, setParent_right, setLeft_right, hleft, hright,
    hparent _ (show i ≠ 2 * i + 1 by omega), hparent _ (show i ≠ 2 * i by omega),
    relink_parent] at hnelts ⊢
  refine layout_of_link hnelts (distinct_update hd hr fun k hk _ => hk) ?_ fun d k hk => ?_
  · rw [slot_update hi]
    simp only [setRight_root, setLeft_root, setParent_root, relink_root hi, hl.root,
      show (1 = i) = (i = 1) from propext eq_comm]
  · by_cases hki : k = i
    · subst hki
      rw [update_self, slot_update hi, if_neg (by cases d <;> (simp only [Dir.to]; omega))]
      cases d <;> simp [link_setRight, link_setLeft, link_setParent, Dir.to]
    · rw [update_of_ne hki]
      simp only [link_setRight, link_setLeft, link_setParent, hr k hk.1 hk.2, and_false, if_false,
        link_setParent_slot hd hk, link_relink hl hi hk, hl.link d hk]
      cases d <;> simp only [Dir.to, slot_update hi, reduceCtorEq, ne_eq, not_true, not_false_eq_true,
        true_and, false_and, if_false]
      split_ifs <;> first | rfl | omega

/-! ## Nodes outside the tree -/

omit [DecidableEq ν] in
theorem Layout.congr {h' : Heap ν} (hl : Layout h a) (hnelts : h'.nelts = h.nelts) (hroot : h'.root = h.root)
    (hlink : ∀ d k, 1 ≤ k ∧ k ≤ h.nelts → h'.link d (a k) = h.link d (a k)) : Layout h' a := by
  refine layout_of_link hnelts hl.distinct (by rw [hroot, hl.root]) fun d k hk => ?_
  rw [hlink d k hk, hl.link d hk]

theorem write_layout (hl : Layout h a) {x : ν} (hx : ∀ k, 1 ≤ k → k ≤ h.nelts → a k ≠ x)
    (p l r : Option ν) : Layout (((h.setParent (some x) p).setLeft x l).setRight x r) a := by
  refine hl.congr (by simp) (by simp) fun d k hk => ?_
  simp only [link_setRight, link_setLeft, link_setParent, hx k hk.1 hk.2, and_false, if_false]

/-! ## The way to the last node -/

theorem shiftRight_one (n : Nat) : n >>> 1 = n / 2 := by
  rw [Nat.shiftRight_eq_div_pow, Nat.pow_one]

omit [DecidableEq ν] in
theorem descend_succ {x : ν} {path : Nat} : ∀ {steps path0 : Nat} {p : Option ν},
    descend h steps path0 p = some (some x, path) →
    descend h (steps + 1) path0 p = some (if path &&& 1 = 1 then h.right x else h.left x, path >>> 1) := by
  intro steps
  induction steps with
  | zero =>
    intro path0 p hs
    obtain ⟨rfl, rfl⟩ := hs
    rfl
  | succ steps ih =>
    intro path0 p hs
    cases p with
    | none => simp [descend] at hs
    | some y =>
      exact ih hs

omit [DecidableEq ν] in
/-- The path of node `n` leads to it, with the bits that were there before left over. The induction
    follows the loop, from the bottom up. -/
theorem lastPath_descend (hl : Layout h a) : ∀ (fuel n path d : Nat), 1 ≤ n → n ≤ h.nelts → n ≤ fuel →
      d ≤ (lastPath fuel n path d).2 ∧
      descend h ((lastPath fuel n path d).2 - d) (lastPath fuel n path d).1 h.root =
        some (some (a n), path) := by
  intro fuel
  induction fuel with
  | zero => intro n path d h1 hn hf; omega
  | succ fuel ih =>
    intro n path d h1 hn hf
    rw [lastPath]
    by_cases h2 : n ≥ 2
    · rw [if_pos h2]
      have hhalf : n >>> 1 = n / 2 := shiftRight_one n
      have hbit : n &&& 1 = n % 2 := Nat.and_one_is_mod n
      have hpath : (path <<< 1) ||| (n &&& 1) = 2 * path + n % 2 := by
        rw [hbit, Nat.shiftLeft_eq, Nat.pow_one, Nat.mul_comm]
        exact (Nat.two_pow_add_eq_or_of_lt (i := 1) (by omega) path).symm
      obtain ⟨hd, hdesc⟩ := ih (n >>> 1) ((path <<< 1) ||| (n &&& 1)) (d + 1) (by omega) (by omega)
        (by omega)
      refine ⟨by omega, ?_⟩
      have hstep := descend_succ hdesc
      rw [show (lastPath fuel (n >>> 1) ((path <<< 1) ||| (n &&& 1)) (d + 1)).2 - (d + 1) + 1 =
        (lastPath fuel (n >>> 1) ((path <<< 1) ||| (n &&& 1)) (d + 1)).2 - d by omega] at hstep
      rw [hstep, hpath, hhalf, hl.right _ (by omega) (by omega), hl.left _ (by omega) (by omega),
        Nat.and_one_is_mod, shiftRight_one]
      by_cases hodd : n % 2 = 1
      · rw [if_pos (by omega), slot_some (by omega) (by omega), show 2 * (n / 2) + 1 = n by omega,
          show (2 * path + n % 2) / 2 = path by omega]
      · rw [if_neg (by omega), slot_some (by omega) (by omega), show 2 * (n / 2) = n by omega,
          show (2 * path + n % 2) / 2 = path by omega]
    · rw [if_neg h2, hl.root, slot_some (by omega) (by omega), show n = 1 by omega]
      simp [descend]

omit [DecidableEq ν] in
theorem lastParent_layout (hl : Layout h a) {n : Nat} (h2 : 2 ≤ n) (hn : n / 2 ≤ h.nelts) :
    lastParent h n = some (some (a (n / 2)), n % 2) := by
  unfold lastParent
  obtain ⟨m, rfl⟩ : ∃ m, n = m + 1 := ⟨n - 1, by omega⟩
  rw [lastPath, if_pos h2, shiftRight_one, Nat.and_one_is_mod]
  simp only [Nat.zero_shiftLeft, Nat.zero_or, Nat.zero_add]
  exact (lastPath_descend hl m ((m + 1) / 2) ((m + 1) % 2) 1 (by omega) hn (by omega)).2

omit [DecidableEq ν] in
theorem descend_nelts (m : Nat) : ∀ (steps path : Nat) (p : Option ν),
      descend { h with nelts := m } steps path p = descend h steps path p := by
  intro steps
  induction steps with
  | zero => intro path p; rfl
  | succ steps ih =>
    intro path p
    cases p with
    | none => rfl
    | some x => rw [descend, descend, ih]

omit [DecidableEq ν] in
theorem lastParent_one (h : Heap ν) : lastParent h 1 = some (h.root, 0) := rfl

end Numbers

end HvVerified.Base
