import HvVerified.Base.Proofs.HeapLinksProofs

/-!
# Proofs: the heap operations

Along the numbering of `Layout` the sift loops are those of an array heap, so that their order
arguments are the ones of level-ordered functions. Every operation takes a heap to a heap and changes
its set of nodes as it should; by induction this holds in every run.
-/

namespace HvVerified.Base

open Lib Function Option Heap

variable {ν : Type} {compare : ν → ν → Bool} {h : Heap ν} {a : Nat → ν}

def Less (compare : ν → ν → Bool) (x y : ν) : Prop := compare x y

def IsHeap (compare : ν → ν → Bool) (h : Heap ν) (a : Nat → ν) : Prop :=
  Layout h a ∧ LevelOrdered (Less compare) h.nelts a

theorem heapMem_iff (hl : Layout h a) (x : ν) : HeapMem h x ↔ x ∈ levelElems h.nelts a := by
  constructor
  · intro hm
    induction hm with
    | root hx =>
      rw [hl.root] at hx
      by_cases h0 : h.nelts = 0
      · rw [slot_none (by omega)] at hx
        cases hx
      · rw [slot_some (by omega) (by omega)] at hx
        exact ⟨1, Nat.le_refl 1, by omega, some.inj hx⟩
    | left _ hy ih =>
      obtain ⟨k, h1, hn, rfl⟩ := ih
      rw [hl.left k h1 hn, slot] at hy
      split_ifs at hy with hk
      exact ⟨2 * k, hk.1, hk.2, some.inj hy⟩
    | right _ hy ih =>
      obtain ⟨k, h1, hn, rfl⟩ := ih
      rw [hl.right k h1 hn, slot] at hy
      split_ifs at hy with hk
      exact ⟨2 * k + 1, hk.1, hk.2, some.inj hy⟩
  · rintro ⟨k, h1, hn, rfl⟩
    induction k using Nat.strongRecOn with
    | ind k ih =>
      by_cases hk : k = 1
      · subst hk
        exact .root (by rw [hl.root, slot_some h1 hn])
      · have hp := ih (k / 2) (by omega) (by omega) (by omega)
        by_cases hodd : k % 2 = 1
        · refine .right hp ?_
          rw [hl.right _ (by omega) (by omega), show 2 * (k / 2) + 1 = k by omega, slot_some h1 hn]
        · refine .left hp ?_
          rw [hl.left _ (by omega) (by omega), show 2 * (k / 2) = k by omega, slot_some h1 hn]

variable [DecidableEq ν]

omit [DecidableEq ν] in
theorem isHeap_of_empty (hn : h.nelts = 0) (hroot : h.root = none) : IsHeap compare h a := by
  refine ⟨layout_of_link hn (fun i j hi hin => by omega) hroot fun d k hk => by omega, fun k hk hkn => ?_⟩
  omega

/-! ## The sift loops -/

theorem siftUp_loop [IsStrictWeakOrder ν (Less compare)] :
    ∀ (fuel j : Nat) (h : Heap ν) (a : Nat → ν), Layout h a → 1 ≤ j → j ≤ h.nelts →
      UpOrdered (Less compare) h.nelts a j → j < fuel →
      ∃ h' a', loopRun (siftUpIter compare (a j)) fuel h = some (some h') ∧ h'.nelts = h.nelts ∧
        IsHeap compare h' a' ∧ levelElems h.nelts a' = levelElems h.nelts a := by
  intro fuel
  induction fuel with
  | zero => intro j h a _ _ _ _ hf; omega
  | succ fuel ih =>
    intro j h a hl h1 hn hup hf
    have hparent := hl.parent j h1 hn
    by_cases hj : j = 1
    · have hiter : siftUpIter compare (a j) h = .done (some h) := by
        unfold siftUpIter
        rw [hparent, slot_none (by omega)]
      exact ⟨h, a, loopRun_done hiter fuel, rfl, ⟨hl, hup.finish (by omega)⟩, rfl⟩
    · rw [slot_some (by omega) (by omega)] at hparent
      by_cases hless : compare (a j) (a (j / 2))
      · obtain ⟨h', hswap, hnelts, hl'⟩ := heapSwap_layout hl (c := j) (by omega) hn
        have hiter : siftUpIter compare (a j) h = .next h' := by
          unfold siftUpIter
          simp only [hparent, hless, if_true, hswap]
        have hup' := hup.move (by omega) hn hless
        rw [← hnelts] at hup'
        obtain ⟨h'', a'', hrun, hn'', hheap, helems⟩ := ih (j / 2) h' (swapAt a (j / 2) j) hl' (by omega)
          (by omega) hup' (by omega)
        rw [swapAt_left] at hrun
        refine ⟨h'', a'', by rw [loopRun_next hiter]; exact hrun, by omega, hheap, ?_⟩
        rw [hnelts] at helems
        rw [helems, levelElems_swapAt (by omega) (by omega)]
      · have hiter : siftUpIter compare (a j) h = .done (some h) := by
          unfold siftUpIter
          simp only [hparent, hless, if_false, Bool.false_eq_true]
        exact ⟨h, a, loopRun_done hiter fuel, rfl, ⟨hl, hup.finish fun _ _ => hless⟩, rfl⟩

omit [DecidableEq ν] in
theorem choose_min (compare : ν → ν → Bool) [IsStrictWeakOrder ν (Less compare)] (x y : ν) :
    ¬ Less compare x (if compare x y then x else y) ∧
      ¬ Less compare y (if compare x y then x else y) := by
  by_cases hc : compare x y
  · rw [if_pos hc]
    exact ⟨Std.Irrefl.irrefl (r := Less compare) x, not_lt_of_lt (show Less compare x y from hc)⟩
  · rw [if_neg hc]
    exact ⟨hc, Std.Irrefl.irrefl (r := Less compare) y⟩

omit [DecidableEq ν] in
theorem heapEst_layout (compare : ν → ν → Bool) [IsStrictWeakOrder ν (Less compare)] (hl : Layout h a) {j : Nat}
    (h1 : 1 ≤ j) (hn : j ≤ h.nelts) :
    ∃ c, (c = j ∨ (2 ≤ c ∧ c ≤ h.nelts ∧ c / 2 = j)) ∧ heapEst compare h (a j) = a c ∧
      ∀ k, 2 ≤ k → k ≤ h.nelts → k / 2 = j → ¬ Less compare (a k) (a c) := by
  have hchild : ∀ k, k / 2 = j → k = 2 * j ∨ k = 2 * j + 1 := by omega
  unfold heapEst
  rw [hl.left j h1 hn, hl.right j h1 hn]
  by_cases hleft : 2 * j ≤ h.nelts
  · -- the number chosen after the left child has been looked at
    obtain ⟨m, hm, hmEq, hmLeft⟩ : ∃ m, (m = j ∨ m = 2 * j) ∧
        (if compare (a j) (a (2 * j)) then a j else a (2 * j)) = a m ∧
        ¬ Less compare (a (2 * j)) (a m) := by
      have hmin := (choose_min compare (a j) (a (2 * j))).2
      split_ifs at hmin ⊢
      · exact ⟨j, Or.inl rfl, rfl, hmin⟩
      · exact ⟨2 * j, Or.inr rfl, rfl, hmin⟩
    rw [slot_some (by omega) hleft]
    simp only [hmEq]
    by_cases hright : 2 * j + 1 ≤ h.nelts
    · rw [slot_some (by omega) hright]
      obtain ⟨hmin1, hmin2⟩ := choose_min compare (a m) (a (2 * j + 1))
      simp only
      split_ifs at hmin1 hmin2 ⊢
      · refine ⟨m, by omega, rfl, fun k _ _ hkj => ?_⟩
        rcases hchild k hkj with rfl | rfl
        · exact hmLeft
        · exact hmin2
      · refine ⟨2 * j + 1, by omega, rfl, fun k _ _ hkj => ?_⟩
        rcases hchild k hkj with rfl | rfl
        · exact not_lt_trans hmLeft hmin1
        · exact hmin2
    · rw [slot_none (by omega)]
      refine ⟨m, by omega, rfl, fun k _ hk hkj => ?_⟩
      rcases hchild k hkj with rfl | rfl
      · exact hmLeft
      · omega
  · rw [slot_none (by omega), slot_none (by omega)]
    exact ⟨j, Or.inl rfl, rfl, fun k _ hk hkj => by rcases hchild k hkj with rfl | rfl <;> omega⟩

/-- "sift down", from node number `j` on; the node ends at a number where it is not greater than its
    children. -/
theorem siftDown_loop [IsStrictWeakOrder ν (Less compare)] :
    ∀ (fuel j : Nat) (h : Heap ν) (a : Nat → ν), Layout h a → 1 ≤ j → j ≤ h.nelts →
      HoleOrdered (Less compare) h.nelts a j → h.nelts < j + fuel →
      ∃ h' a' j', loopRun (siftDownIter compare (a j)) fuel h = some (some h') ∧ h'.nelts = h.nelts ∧
        Layout h' a' ∧ 1 ≤ j' ∧ j' ≤ h.nelts ∧ a' j' = a j ∧
        UpOrdered (Less compare) h.nelts a' j' ∧ levelElems h.nelts a' = levelElems h.nelts a := by
  intro fuel
  induction fuel with
  | zero => intro j h a _ _ _ _ hf; omega
  | succ fuel ih =>
    intro j h a hl h1 hn hhole hf
    obtain ⟨c, hc, hest, hmin⟩ := heapEst_layout compare hl h1 hn
    rcases hc with rfl | ⟨hc2, hcn, hcj⟩
    · have hiter : siftDownIter compare (a c) h = .done (some h) := by
        unfold siftDownIter
        simp only [hest, if_true]
      exact ⟨h, a, c, loopRun_done hiter fuel, rfl, hl, h1, hn, rfl, hhole.up hmin, rfl⟩
    · subst hcj
      have hne : a c ≠ a (c / 2) := by
        intro heq
        have := hl.distinct c (c / 2) (by omega) hcn h1 hn heq
        omega
      obtain ⟨h', hswap, hnelts, hl'⟩ := heapSwap_layout hl hc2 hcn
      have hiter : siftDownIter compare (a (c / 2)) h = .next h' := by
        unfold siftDownIter
        simp only [hest, hne, if_false, hswap]
      have hhole' := hhole.move hc2 hcn rfl hmin
      rw [← hnelts] at hhole'
      obtain ⟨h'', a'', j', hrun, hn'', hl'', hj1, hjn, haj, hup, helems⟩ :=
        ih c h' (swapAt a (c / 2) c) hl' (by omega) (by omega) hhole' (by omega)
      rw [swapAt_right] at hrun haj
      rw [hnelts] at helems hup hjn
      refine ⟨h'', a'', j', by rw [loopRun_next hiter]; exact hrun, by omega, hl'', hj1, hjn, haj, hup, ?_⟩
      rw [helems, levelElems_swapAt (by omega) (by omega)]

/-! ## `heap_insert` -/

omit [DecidableEq ν] in
theorem insertLinks_layout (hl : Layout h a) {x : ν} (hx : ∀ k, 1 ≤ k → k ≤ h.nelts → a k ≠ x)
    {h' : Heap ν} (hnelts : h'.nelts = h.nelts + 1) (hroot : h'.root = if h.nelts = 0 then some x else h.root)
    (hnew : ∀ d, h'.link d x = if d = .parent then slot h.nelts a ((h.nelts + 1) / 2) else none)
    (hlink : ∀ d k, 1 ≤ k ∧ k ≤ h.nelts →
      h'.link d (a k) = if d ≠ .parent ∧ d.to k = h.nelts + 1 then some x else h.link d (a k)) :
    Layout h' (update a (h.nelts + 1) x) := by
  have hslot : ∀ k, slot (h.nelts + 1) (update a (h.nelts + 1) x) k =
      if k = h.nelts + 1 then some x else slot h.nelts a k := by
    intro k
    rw [slot_update (by omega)]
    unfold slot
    split_ifs <;> first | rfl | omega
  refine layout_of_link hnelts (distinct_update hl.distinct hx (by omega)) ?_ fun d k hk => ?_
  · rw [hroot, hslot, hl.root]
    split_ifs <;> first | rfl | omega
  · by_cases hkx : k = h.nelts + 1
    · rw [hkx, update_self, hnew]
      cases d <;> simp only [Dir.to, hslot, reduceCtorEq, if_true, if_false]
      · rw [if_neg (by omega)]
      all_goals rw [if_neg (by omega), slot_none (by omega)]
    · rw [update_of_ne hkx, hlink d k (by omega), hl.link d (by omega)]
      cases d <;> simp only [Dir.to, hslot, reduceCtorEq, ne_eq, not_true, not_false_eq_true, true_and,
        false_and, if_false]
      rw [if_neg (by omega)]

theorem siftUp_inserted [IsStrictWeakOrder ν (Less compare)] {h1 : Heap ν} {n : Nat} {x : ν}
    (hl : Layout h1 (update a (n + 1) x)) (hnelts : h1.nelts = n + 1) (hord : LevelOrdered (Less compare) n a) :
    ∃ h' a', siftUp compare x h1 = some h' ∧ h'.nelts = n + 1 ∧ IsHeap compare h' a' ∧
      ∀ y, y ∈ levelElems (n + 1) a' ↔ y ∈ levelElems n a ∨ y = x := by
  have hold : ∀ k, k ≤ n → update a (n + 1) x k = a k :=
    fun k hk => update_of_ne (by omega) _ _
  have hup : UpOrdered (Less compare) h1.nelts (update a (n + 1) x) (n + 1) := by
    refine ⟨fun k hk hkn hne => ?_, fun k _ hkn hkp _ => by omega⟩
    rw [hold k (by omega), hold (k / 2) (by omega)]
    exact hord k hk (by omega)
  obtain ⟨h', a', hrun, hn', hheap, helems⟩ := siftUp_loop (h1.nelts + 1) (n + 1) h1 _ hl (by omega)
    (by omega) hup (by omega)
  rw [update_self] at hrun
  rw [hnelts] at helems
  refine ⟨h', a', by unfold siftUp; rw [hrun]; rfl, by omega, hheap, fun y => ?_⟩
  rw [helems]
  constructor
  · rintro ⟨k, hk, hkn, rfl⟩
    by_cases hkx : k = n + 1
    · rw [hkx, update_self]
      exact Or.inr rfl
    · rw [hold k (by omega)]
      exact Or.inl ⟨k, hk, by omega, rfl⟩
  · rintro (⟨k, hk, hkn, rfl⟩ | rfl)
    · exact ⟨k, hk, by omega, hold k hkn⟩
    · exact ⟨n + 1, by omega, le_rfl, update_self ..⟩

theorem heapInsert_spec [IsStrictWeakOrder ν (Less compare)] (hh : IsHeap compare h a) {x : ν}
    (hx : ∀ k, 1 ≤ k → k ≤ h.nelts → a k ≠ x) (hleft : h.left x = none) (hright : h.right x = none) :
    ∃ h' a', heapInsert (some compare) h x = some h' ∧ h'.nelts = h.nelts + 1 ∧ IsHeap compare h' a' ∧
      ∀ y, y ∈ levelElems (h.nelts + 1) a' ↔ y ∈ levelElems h.nelts a ∨ y = x := by
  obtain ⟨hl, hord⟩ := hh
  by_cases h0 : h.nelts = 0
  · -- the new node becomes the root
    have hroot : h.root = none := by rw [hl.root, slot_none (by omega)]
    have hlast : lastParent { h with nelts := h.nelts + 1 } (h.nelts + 1) = some (none, 0) := by
      rw [h0, lastParent_one, hroot]
    have hlinks : Layout { { h with nelts := h.nelts + 1 }.setParent (some x) none with root := some x }
        (update a (h.nelts + 1) x) := by
      refine insertLinks_layout hl hx rfl (by rw [if_pos h0]) (fun d => ?_) fun d k hk => by omega
      rw [slot_none (by omega)]
      cases d <;> simp [link, setParent, hleft, hright]
    obtain ⟨h', a', hsift, hrest⟩ := siftUp_inserted hlinks rfl hord
    refine ⟨h', a', ?_, hrest⟩
    unfold heapInsert
    simp only [hlast, bind_eq_bind, bind_some]
    exact hsift
  · have hp : 1 ≤ (h.nelts + 1) / 2 ∧ (h.nelts + 1) / 2 ≤ h.nelts := by omega
    have hlast : lastParent { h with nelts := h.nelts + 1 } (h.nelts + 1) =
        some (some (a ((h.nelts + 1) / 2)), (h.nelts + 1) % 2) := by
      rw [← lastParent_layout hl (by omega) hp.2]
      simp only [lastParent, descend_nelts]
    unfold heapInsert
    simp only [hlast, bind_eq_bind, bind_some, Nat.and_one_is_mod, Nat.mod_mod]
    refine siftUp_inserted (insertLinks_layout hl hx ?_ ?_ (fun d => ?_) fun d k hk => ?_) ?_ hord
    · split_ifs <;> rfl
    · rw [if_neg h0]
      split_ifs <;> rfl
    · have hpx : x ≠ a ((h.nelts + 1) / 2) := fun heq => hx _ hp.1 hp.2 heq.symm
      split_ifs <;> cases d <;>
        simp_all [link_setRight, link_setLeft, link_setParent, slot_some hp.1 hp.2] <;> assumption
    · rw [link_setChild hl.distinct hk (by omega), link_setParent]
      simp only [hx k hk.1 hk.2, and_false, if_false]
      rfl
    · split_ifs <;> rfl

/-! ## `heap_remove` -/

omit [DecidableEq ν] in
theorem cutLast_layout (hl : Layout h a) (h2 : 2 ≤ h.nelts) {h' : Heap ν}
    (hnelts : h'.nelts = h.nelts - 1) (hroot : h'.root = h.root) (hlink : ∀ d k, 1 ≤ k ∧ k ≤ h.nelts →
      h'.link d (a k) = if d ≠ .parent ∧ d.to k = h.nelts then none else h.link d (a k)) : Layout h' a := by
  have hslot : ∀ k, slot (h.nelts - 1) a k = if k = h.nelts then none else slot h.nelts a k := by
    intro k
    unfold slot
    split_ifs <;> first | rfl | omega
  refine layout_of_link hnelts ?_ ?_ fun d k hk => ?_
  · intro i j hi hin hj hjn
    exact hl.distinct i j hi (by omega) hj (by omega)
  · rw [hroot, hslot, if_neg (by omega), hl.root]
  · rw [hlink d k (by omega), hl.link d (by omega)]
    cases d <;> simp only [Dir.to, hslot, reduceCtorEq, ne_eq, not_true, not_false_eq_true, true_and,
      false_and, if_false]
    rw [if_neg (by omega)]

theorem heapRemove_eq (compare : ν → ν → Bool) (hl : Layout h a) (h2 : 2 ≤ h.nelts) (x : ν) :
    ∃ h1, h1.nelts = h.nelts - 1 ∧ Layout h1 a ∧ (∀ k, 1 ≤ k → k ≤ h1.nelts → a k ≠ a h.nelts) ∧
      h1.parent = h.parent ∧ h1.left (a h.nelts) = none ∧ h1.right (a h.nelts) = none ∧
      heapRemove (some compare) h x =
        (siftDown compare (a h.nelts) ((((heapReplace h1 x (a h.nelts)).setParent (some x) none).setLeft
          x none).setRight x none)).bind (siftUp compare (a h.nelts)) := by
  have hp : 1 ≤ h.nelts / 2 ∧ h.nelts / 2 ≤ h.nelts := by omega
  have hlast : ∀ d : Dir, d.to (h.nelts / 2) = h.nelts → h.link d (a (h.nelts / 2)) = some (a h.nelts) := by
    intro d hd
    rw [hl.link d hp, hd, slot_some (by omega) le_rfl]
  have hlink := fun d k hk => link_setChild (h := { h with nelts := h.nelts - 1 }) (i := k) hl.distinct hk
    ⟨h2, hp.2⟩ none d
  have hleaf : ∀ d : Dir, h.nelts < d.to h.nelts → (if h.nelts % 2 = 1 then
      { h with nelts := h.nelts - 1 }.setRight (a (h.nelts / 2)) none else
      { h with nelts := h.nelts - 1 }.setLeft (a (h.nelts / 2)) none).link d (a h.nelts) = none := by
    intro d hd
    rw [hlink d _ (by omega), if_neg (by omega)]
    exact (hl.link d (by omega)).trans (slot_none (by omega))
  have hout : ∀ k, 1 ≤ k → k ≤ h.nelts - 1 → a k ≠ a h.nelts := by
    intro k hk hkn heq
    have := hl.distinct k h.nelts hk (by omega) (by omega) le_rfl heq
    omega
  refine ⟨_, ?_, cutLast_layout hl h2 ?_ ?_ hlink, ?_, ?_, hleaf .left (by simp only [Dir.to]; omega),
    hleaf .right (by simp only [Dir.to]; omega), ?_⟩
  iterate 3 split_ifs <;> rfl
  · split_ifs <;> exact hout
  · split_ifs <;> rfl
  unfold heapRemove
  rw [if_neg (by omega), lastParent_layout hl h2 hp.2]
  by_cases hodd : h.nelts % 2 = 1
  · have hright : h.right (a (h.nelts / 2)) = _ := hlast .right (by simp only [Dir.to]; omega)
    simp only [bind_eq_bind, bind_some, Nat.and_one_is_mod, hodd, if_true, hright]
  · have hleft : h.left (a (h.nelts / 2)) = _ := hlast .left (by simp only [Dir.to]; omega)
    simp only [bind_eq_bind, bind_some, Nat.and_one_is_mod, Nat.mod_mod, hodd, if_false, hleft]

theorem heapRemove_last (hh : IsHeap compare h a) (h2 : 2 ≤ h.nelts) :
    ∃ h', heapRemove (some compare) h (a h.nelts) = some h' ∧ h'.nelts = h.nelts - 1 ∧
      IsHeap compare h' a := by
  obtain ⟨hl, hord⟩ := hh
  obtain ⟨h1, hnelts, hl1, hout, hparent, hleft, hright, hrem⟩ :=
    heapRemove_eq compare hl h2 (a h.nelts)
  -- no link leads to the last node any more, so `heap_replace` only writes to the node itself
  have hrelink : h1.relink (h1.parent (a h.nelts)) (a h.nelts) (some (a h.nelts)) = h1 := by
    have hp : 1 ≤ h.nelts / 2 ∧ h.nelts / 2 ≤ h1.nelts := by omega
    have hslot : ∀ k, slot h1.nelts a k ≠ some (a h.nelts) := by
      intro k hk
      unfold slot at hk
      split_ifs at hk with hr
      exact hout k hr.1 hr.2 (some.inj hk)
    rw [hparent, hl.parent _ (by omega) le_rfl, slot_some hp.1 (by omega)]
    unfold relink
    simp only [hl1.left _ hp.1 hp.2, hl1.right _ hp.1 hp.2, hslot, if_false]
  have hreplace : heapReplace h1 (a h.nelts) (a h.nelts) =
      ((h1.setParent (some (a h.nelts)) (h1.parent (a h.nelts))).setLeft (a h.nelts) none).setRight
        (a h.nelts) none := by
    unfold heapReplace
    simp only [hrelink, hleft, hright, setParent_none, setParent_left, setParent_right, setLeft_right]
  rw [hreplace] at hrem
  generalize hh4 : (((((h1.setParent (some (a h.nelts)) (h1.parent (a h.nelts))).setLeft (a h.nelts)
    none).setRight (a h.nelts) none).setParent (some (a h.nelts)) none).setLeft (a h.nelts)
    none).setRight (a h.nelts) none = h4 at hrem
  have hl4 : Layout h4 a := by
    rw [← hh4]
    exact write_layout (write_layout hl1 hout _ _ _) (by simpa using hout) _ _ _
  have hn4 : h4.nelts = h.nelts - 1 := by rw [← hh4, ← hnelts]; simp
  have hlinks : h4.parent (a h.nelts) = none ∧ h4.left (a h.nelts) = none ∧
      h4.right (a h.nelts) = none := by
    rw [← hh4]
    simp [setParent, setLeft, setRight]
  have hdown : siftDown compare (a h.nelts) h4 = some h4 := by
    unfold siftDown
    rw [loopRun_done (r := some h4)]
    · rfl
    · simp [siftDownIter, heapEst, hlinks]
  have hup : siftUp compare (a h.nelts) h4 = some h4 := by
    unfold siftUp
    rw [loopRun_done (r := some h4)]
    · rfl
    · simp [siftUpIter, hlinks]
  rw [hdown, bind_some, hup] at hrem
  exact ⟨h4, hrem, hn4, hl4, fun k hk hkn => hord k hk (by omega)⟩

theorem heapRemove_inner [IsStrictWeakOrder ν (Less compare)] (hh : IsHeap compare h a) {i : Nat}
    (h1 : 1 ≤ i) (hi : i < h.nelts) :
    ∃ h' a', heapRemove (some compare) h (a i) = some h' ∧ h'.nelts = h.nelts - 1 ∧
      IsHeap compare h' a' ∧
      levelElems (h.nelts - 1) a' = levelElems (h.nelts - 1) (update a i (a h.nelts)) := by
  obtain ⟨hl, hord⟩ := hh
  obtain ⟨hc, hnelts, hlc, hout, -, -, -, hrem⟩ := heapRemove_eq compare hl (by omega) (a i)
  obtain ⟨hnr, hlr⟩ := heapReplace_layout hlc (i := i) (by omega) hout
  have hgone : ∀ k, 1 ≤ k → k ≤ (heapReplace hc (a i) (a h.nelts)).nelts →
      update a i (a h.nelts) k ≠ a i := by
    intro k hk hkn
    by_cases hki : k = i
    · rw [hki, update_self]
      exact (hout i h1 (by omega)).symm
    · rw [update_of_ne hki]
      exact fun heq => hki (hl.distinct k i hk (by omega) h1 (by omega) heq)
  have hlw := write_layout hlr hgone none none none
  generalize hhw : (((heapReplace hc (a i) (a h.nelts)).setParent (some (a i)) none).setLeft (a i)
    none).setRight (a i) none = hw at hrem hlw
  have hnw : hw.nelts = h.nelts - 1 := by rw [← hhw]; simp [hnr, hnelts]
  have hother : ∀ k, k ≠ i → update a i (a h.nelts) k = a k :=
    fun k hk => update_of_ne hk _ _
  have hhole : HoleOrdered (Less compare) hw.nelts (update a i (a h.nelts)) i := by
    constructor
    · intro k hk hkn hki hkp
      rw [hother k hki, hother _ hkp]
      exact hord k hk (by omega)
    · intro k hk hkn hkp hi2
      rw [hother k (by omega), hother _ (by omega)]
      have hk' := hord k hk (by omega)
      rw [hkp] at hk'
      exact not_lt_trans hk' (hord i hi2 (by omega))
  obtain ⟨hd, ad, j, hrun, hnd, hld, hj1, hjn, haj, hupd, helems⟩ :=
    siftDown_loop (hw.nelts + 1) i hw _ hlw h1 (by omega) hhole (by omega)
  rw [update_self] at hrun haj
  rw [← hnd] at hupd
  obtain ⟨h', a', hrun', hn', hheap, helems'⟩ :=
    siftUp_loop (hd.nelts + 1) j hd ad hld hj1 (by omega) hupd (by omega)
  rw [haj] at hrun'
  have hdown : siftDown compare (a h.nelts) hw = some hd := by unfold siftDown; rw [hrun]; rfl
  have hup : siftUp compare (a h.nelts) hd = some h' := by unfold siftUp; rw [hrun']; rfl
  rw [hdown, bind_some, hup] at hrem
  refine ⟨h', a', hrem, by omega, hheap, ?_⟩
  rw [hnd, hnw] at helems'
  rw [hnw] at helems
  rw [helems', helems]

omit [DecidableEq ν] in
theorem levelElems_remove {n i : Nat} (hd : Distinct n a) (hi : 1 ≤ i ∧ i ≤ n) (y : ν) :
    y ∈ levelElems (n - 1) (update a i (a n)) ↔ y ∈ levelElems n a ∧ y ≠ a i := by
  constructor
  · rintro ⟨k, hk, hkn, rfl⟩
    by_cases hki : k = i
    · rw [hki, update_self]
      refine ⟨⟨n, by omega, le_rfl, rfl⟩, fun heq => ?_⟩
      have := hd n i (by omega) le_rfl hi.1 hi.2 heq
      omega
    · rw [update_of_ne hki]
      exact ⟨⟨k, hk, by omega, rfl⟩, fun heq => hki (hd k i hk (by omega) hi.1 hi.2 heq)⟩
  · rintro ⟨⟨k, hk, hkn, rfl⟩, hne⟩
    have hki : k ≠ i := fun hki => hne (by rw [hki])
    by_cases hkl : k = n
    · exact ⟨i, hi.1, by omega, by rw [update_self, hkl]⟩
    · exact ⟨k, hk, by omega, update_of_ne hki _ _⟩

theorem heapRemove_spec [IsStrictWeakOrder ν (Less compare)] (hh : IsHeap compare h a) {i : Nat}
    (h1 : 1 ≤ i) (hi : i ≤ h.nelts) :
    ∃ h' a', heapRemove (some compare) h (a i) = some h' ∧ h'.nelts = h.nelts - 1 ∧
      IsHeap compare h' a' ∧
      ∀ y, y ∈ levelElems (h.nelts - 1) a' ↔ y ∈ levelElems h.nelts a ∧ y ≠ a i := by
  have helems := levelElems_remove hh.1.distinct ⟨h1, hi⟩
  by_cases hlast : i = h.nelts
  · subst hlast
    rw [update_eq_self] at helems
    by_cases h2 : 2 ≤ h.nelts
    · obtain ⟨h', hrem, hn', hheap⟩ := heapRemove_last hh h2
      exact ⟨h', a, hrem, hn', hheap, helems⟩
    · -- the only node: the heap becomes empty
      have hone : h.nelts = 1 := by omega
      have hroot : h.root = some (a 1) := by rw [hh.1.root, slot_some (by omega) (by omega)]
      have hleft : h.left (a 1) = none := by
        rw [hh.1.left 1 (by omega) (by omega), slot_none (by omega)]
      have hrem : heapRemove (some compare) h (a h.nelts) =
          some { { h with nelts := h.nelts - 1 }.setLeft (a 1) none with root := none } := by
        unfold heapRemove
        rw [if_neg (by omega), hone, lastParent_one, hroot]
        simp [hleft]
      exact ⟨_, a, hrem, rfl, isHeap_of_empty (by show h.nelts - 1 = 0; omega) rfl, helems⟩
  · obtain ⟨h', a', hrem, hn', hheap, hel⟩ := heapRemove_inner hh h1 (by omega)
    exact ⟨h', a', hrem, hn', hheap, fun y => by rw [hel, helems]⟩

/-! ## Runs -/

theorem heapStep_spec [IsStrictWeakOrder ν (Less compare)] (hh : IsHeap compare h a) (op : HeapOp ν)
    (huse : HeapUse h op) : ∃ h' a', heapStep compare h op = some h' ∧ IsHeap compare h' a' ∧
      ∀ y, HeapMem h' y ↔ HeapAfter h op y := by
  have hmem := heapMem_iff hh.1
  have houtside : ∀ {x}, ¬ HeapMem h x → ∀ k, 1 ≤ k → k ≤ h.nelts → a k ≠ x := by
    intro x hx k hk hkn heq
    exact hx ((hmem x).mpr ⟨k, hk, hkn, heq⟩)
  have hremove : ∀ {x}, HeapMem h x → ∃ h' a', heapRemove (some compare) h x = some h' ∧
      IsHeap compare h' a' ∧ ∀ y, HeapMem h' y ↔ HeapMem h y ∧ y ≠ x := by
    intro x hx
    obtain ⟨i, h1, hi, rfl⟩ := (hmem x).mp hx
    obtain ⟨h', a', hrem, hn', hheap, hel⟩ := heapRemove_spec hh h1 hi
    refine ⟨h', a', hrem, hheap, fun y => ?_⟩
    rw [heapMem_iff hheap.1, hn', hel, hmem]
  cases op with
  | insert x =>
    obtain ⟨hx, hleft, hright⟩ := huse
    obtain ⟨h', a', hins, hn', hheap, hel⟩ := heapInsert_spec hh (houtside hx) hleft hright
    refine ⟨h', a', hins, hheap, fun y => ?_⟩
    rw [heapMem_iff hheap.1, hn', hel, ← hmem]
    rfl
  | remove x => exact hremove huse
  | dequeue =>
    obtain ⟨r, hr⟩ := ne_none_iff_exists'.mp huse
    obtain ⟨h', a', hrem, hheap, hel⟩ := hremove (.root hr)
    refine ⟨h', a', by simp [heapStep, heapDequeue, hr, hrem], hheap, fun y => ?_⟩
    rw [hel]
    simp only [HeapAfter, hr, ne_eq, some.injEq, eq_comm]
  | write x p l r =>
    have hw := write_layout hh.1 (houtside huse) p l r
    refine ⟨_, a, rfl, ⟨hw, by simpa using hh.2⟩, fun y => ?_⟩
    rw [heapMem_iff hw, HeapAfter, hmem]
    simp

theorem heap_invariant [Nonempty ν] [IsStrictWeakOrder ν (Less compare)]
    (hr : Reachable (heapStep compare) HeapUse (fun h => ∃ h0, h = heapInit h0) h) : ∃ a, IsHeap compare h a := by
  refine hr.invariant (I := fun h => ∃ a, IsHeap compare h a) ?_ ?_
  · rintro h ⟨h0, rfl⟩
    exact ⟨fun _ => Classical.arbitrary ν, isHeap_of_empty rfl rfl⟩
  · rintro h op h' ⟨a, hh⟩ huse hstep
    obtain ⟨h1, a1, hs, hh1, -⟩ := heapStep_spec hh op huse
    obtain rfl : h1 = h' := some.inj (hs.symm.trans hstep)
    exact ⟨a1, hh1⟩

/-- In every run of heap operations from an empty heap the nodes form the complete binary tree with
    `nelts` nodes, no child is less than its parent, the root is a minimal node, and every operation
    returns and changes the set of nodes by exactly the inserted or removed node. -/
theorem heap_runs [Nonempty ν] [IsStrictWeakOrder ν (Less compare)]
    (hr : Reachable (heapStep compare) HeapUse (fun h => ∃ h0, h = heapInit h0) h) :
    (∃ a, Layout h a ∧ LevelOrdered (Less compare) h.nelts a ∧
      ∀ x, HeapMem h x ↔ x ∈ levelElems h.nelts a) ∧
    (∀ r, h.root = some r → ∀ x, HeapMem h x → ¬ Less compare x r) ∧
    ∀ op, HeapUse h op → ∃ h', heapStep compare h op = some h' ∧ ∀ y, HeapMem h' y ↔ HeapAfter h op y := by
  obtain ⟨a, hh⟩ := heap_invariant hr
  refine ⟨⟨a, hh.1, hh.2, heapMem_iff hh.1⟩, ?_, ?_⟩
  · intro r hroot x hx
    obtain ⟨k, hk, hkn, rfl⟩ := (heapMem_iff hh.1 x).mp hx
    rw [hh.1.root, slot_some (by omega) (by omega)] at hroot
    rw [← some.inj hroot]
    exact hh.2.root_minimal k hk hkn
  · intro op huse
    obtain ⟨h', a', hstep, -, hmem⟩ := heapStep_spec hh op huse
    exact ⟨h', hstep, hmem⟩

def natLess (x y : Nat) : Bool := decide (x < y)

instance : IsStrictWeakOrder Nat (Less natLess) where
  irrefl x := by simp [Less, natLess]
  trans x y z := by simp only [Less, natLess, decide_eq_true_eq]; omega
  incomp_trans x y z := by simp only [Less, natLess, decide_eq_true_eq]; omega

def unlinked : Heap Nat :=
  { root := none, nelts := 0, parent := fun _ => none, left := fun _ => none, right := fun _ => none }

/-- The node 3 is inserted above the node 5, and is the root then. -/
theorem heap_runs_two_inserts : ∃ h : Heap Nat, h.nelts = 2 ∧ h.root = some 3 ∧ h.left 3 = some 5 ∧
      (∀ x, HeapMem h x → ¬ Less natLess x 3) := by
  have hempty : ∀ x, ¬ HeapMem (heapInit unlinked) x := by
    intro x hx
    induction hx with
    | root hx => cases hx
    | left _ _ ih => exact ih
    | right _ _ ih => exact ih
  have h0 : Reachable (heapStep natLess) HeapUse (fun h => ∃ h0, h = heapInit h0) (heapInit unlinked) :=
    .start ⟨_, rfl⟩
  have huse5 : HeapUse (heapInit unlinked) (.insert 5) := ⟨hempty 5, rfl, rfl⟩
  obtain ⟨h1, hstep5, hmem5⟩ := (heap_runs h0).2.2 _ huse5
  have h1r := Reachable.step h0 huse5 hstep5
  have huse3 : HeapUse h1 (.insert 3) := by
    refine ⟨?_, ?_, ?_⟩
    · rw [hmem5]
      simp [HeapAfter, hempty]
    · cases hstep5
      rfl
    · cases hstep5
      rfl
  obtain ⟨h2, hstep3, hmem3⟩ := (heap_runs h1r).2.2 _ huse3
  have hmin := (heap_runs (.step h1r huse3 hstep3)).2.1 3
  have hlinks : h2.nelts = 2 ∧ h2.root = some 3 ∧ h2.left 3 = some 5 := by
    cases hstep5
    cases hstep3
    exact ⟨rfl, rfl, rfl⟩
  exact ⟨h2, hlinks.1, hlinks.2.1, hlinks.2.2, hmin hlinks.2.1⟩

end HvVerified.Base
