import HvVerified.Lib.Runs

/-!
# `base/queue.h`

A queue in an array: the elements are the cells `offset, …, offset + size - 1`. `push_back` writes
behind them; if the array ends there, the elements are moved to its start, and if it is full it is
doubled. `ptr` gives the contents of the cells, and cells that have not been written are zero. The sizes
are unbounded here: `_resize` is given an `int`, so that an array of `2 ^ 30` cells cannot be doubled.
-/

namespace HvVerified.Base

open List Lib

variable {α : Type}

/-- `QUEUE_DECL`. The elements lie within the array. -/
structure Queue (α : Type) where
  ptr : Nat → α
  size : Nat
  maxsize : Nat
  offset : Nat
  fits : offset + size ≤ maxsize

/-- `QUEUE_INIT_SIZE` -/
def queueInitSize : Nat := 16

namespace Queue

section

variable [Inhabited α]

/-- A queue that has not been initialized. -/
def zero : Queue α := ⟨fun _ => default, 0, 0, 0, Nat.le_refl 0⟩

/-- `init` -/
def init (maxsize : Nat) : Queue α := ⟨fun _ => default, 0, maxsize, 0, by omega⟩

/-- `double_resize`: the new cells are at the end. -/
def doubleResize (q : Queue α) : Queue α where
  ptr i := if i < q.maxsize then q.ptr i else default
  size := q.size
  maxsize := if q.maxsize * 2 = 0 then queueInitSize else q.maxsize * 2
  offset := q.offset
  fits := by
    have := q.fits
    split_ifs <;> omega

/-- The `memmove` of `_push_back`. -/
def moveToFront (q : Queue α) : Queue α where
  ptr i := if i < q.size then q.ptr (q.offset + i) else q.ptr i
  size := q.size
  maxsize := q.maxsize
  offset := 0
  fits := by
    have := q.fits
    omega

/-- The first part of `_push_back`: a free cell behind the elements. -/
def makeRoom (q : Queue α) : Queue α :=
  if q.size = q.maxsize then q.doubleResize
  else if q.offset + q.size = q.maxsize then q.moveToFront
  else q

theorem makeRoom_lt (q : Queue α) : q.makeRoom.offset + q.makeRoom.size < q.makeRoom.maxsize := by
  have hfits := q.fits
  unfold makeRoom
  split_ifs with hfull hend
  · show q.offset + q.size < if q.maxsize * 2 = 0 then queueInitSize else q.maxsize * 2
    unfold queueInitSize
    split_ifs <;> omega
  · show 0 + q.size < q.maxsize
    omega
  · omega

/-- `push_back` -/
def pushBack (q : Queue α) (elem : α) : Queue α where
  ptr := Function.update q.makeRoom.ptr (q.makeRoom.offset + q.makeRoom.size) elem
  size := q.makeRoom.size + 1
  maxsize := q.makeRoom.maxsize
  offset := q.makeRoom.offset
  fits := q.makeRoom_lt

end

/-- `front` -/
def front (q : Queue α) : Option α := if q.size = 0 then none else some (q.ptr q.offset)

/-- `back` -/
def back (q : Queue α) : Option α := if q.size = 0 then none else some (q.ptr (q.offset + q.size - 1))

/-- `_pop_front`, which asserts that there is an element. -/
def popFront (q : Queue α) (h : 0 < q.size) : Queue α where
  ptr := q.ptr
  size := q.size - 1
  maxsize := q.maxsize
  offset := if q.offset + 1 = q.maxsize then 0 else q.offset + 1
  fits := by
    have := q.fits
    split_ifs <;> omega

/-- `pop_back` -/
def popBack (q : Queue α) (_ : 0 < q.size) : Queue α where
  ptr := q.ptr
  size := q.size - 1
  maxsize := q.maxsize
  offset := q.offset
  fits := by
    have := q.fits
    omega

/-- The calls that change the queue. -/
inductive Op (α : Type) where
  | pushBack (elem : α)
  | popFront
  | popBack

/-- An operation. It is not possible if an assertion fails. -/
def step [Inhabited α] (q : Queue α) : Op α → Option (Queue α)
  | .pushBack elem => some (q.pushBack elem)
  | .popFront => if h : 0 < q.size then some (q.popFront h) else none
  | .popBack => if h : 0 < q.size then some (q.popBack h) else none

/-! ## What a queue is for -/

/-- The operations of a list whose first element is the front. -/
def fifoStep (l : List α) : Op α → Option (List α)
  | .pushBack elem => some (l ++ [elem])
  | .popFront => if 0 < l.length then some l.tail else none
  | .popBack => if 0 < l.length then some l.dropLast else none

/-- The elements, from the front. -/
def toList (q : Queue α) : List α := (List.range q.size).map fun i => q.ptr (q.offset + i)

@[simp] theorem length_toList (q : Queue α) : q.toList.length = q.size := by simp [toList]

theorem toList_eq_of_cells {q q' : Queue α} (hsize : q'.size = q.size)
    (hcells : ∀ i < q.size, q'.ptr (q'.offset + i) = q.ptr (q.offset + i)) : q'.toList = q.toList := by
  unfold toList
  rw [hsize]
  exact map_congr_left fun i hi => hcells i (mem_range.1 hi)

theorem front_eq_head (q : Queue α) : q.front = q.toList.head? := by
  unfold front toList
  split_ifs with h
  · simp [h]
  · obtain ⟨n, hn⟩ := Nat.exists_eq_succ_of_ne_zero h
    simp [hn, range_succ_eq_map]

theorem toList_popBack (q : Queue α) (h : 0 < q.size) : (q.popBack h).toList = q.toList.dropLast := by
  obtain ⟨n, hn⟩ := Nat.exists_eq_succ_of_ne_zero (Nat.ne_of_gt h)
  simp [toList, popBack, hn, range_succ]

theorem back_eq_getLast (q : Queue α) : q.back = q.toList.getLast? := by
  unfold back toList
  split_ifs with h
  · simp [h]
  · obtain ⟨n, hn⟩ := Nat.exists_eq_succ_of_ne_zero h
    simp [hn, range_succ]

theorem toList_popFront (q : Queue α) (h : 0 < q.size) : (q.popFront h).toList = q.toList.tail := by
  have hfits := q.fits
  obtain ⟨n, hn⟩ := Nat.exists_eq_succ_of_ne_zero (Nat.ne_of_gt h)
  unfold toList popFront
  dsimp only
  rw [hn, range_succ_eq_map, map_cons, tail_cons, map_map]
  refine map_congr_left fun i hi => ?_
  have hi := mem_range.1 hi
  -- the offset can only wrap around when no element is left
  rw [if_neg (by simp at hi; omega), Function.comp_apply]
  congr 1
  omega

section

variable [Inhabited α]

theorem toList_makeRoom (q : Queue α) : q.makeRoom.toList = q.toList := by
  have hfits := q.fits
  unfold makeRoom
  split_ifs
  · refine toList_eq_of_cells rfl fun i hi => ?_
    show (if q.offset + i < q.maxsize then q.ptr (q.offset + i) else default) = _
    rw [if_pos (by omega)]
  · refine toList_eq_of_cells rfl fun i hi => ?_
    show (if 0 + i < q.size then q.ptr (q.offset + (0 + i)) else q.ptr (0 + i)) = _
    rw [Nat.zero_add, if_pos hi]
  · rfl

theorem toList_pushBack (q : Queue α) (elem : α) : (q.pushBack elem).toList = q.toList ++ [elem] := by
  rw [← q.toList_makeRoom]
  unfold toList pushBack
  dsimp only
  rw [range_succ, map_append]
  congr 1
  · refine map_congr_left fun i hi => ?_
    have hi := mem_range.1 hi
    exact Function.update_of_ne (by omega) _ _
  · simp

theorem toList_step (q : Queue α) (op : Op α) : (q.step op).map toList = fifoStep q.toList op := by
  unfold step fifoStep
  cases op with
  | pushBack elem => simp [toList_pushBack]
  | popFront =>
    rw [length_toList]
    split_ifs with h
    · simp [toList_popFront]
    · rfl
  | popBack =>
    rw [length_toList]
    split_ifs with h
    · simp [toList_popBack]
    · rfl

/-- A queue does what a list does: the same operations are possible, and the elements from front to
    back are those of the list. -/
theorem refines_list (maxsize : Nat) (ops : List (Op α)) :
    (runFrom step (init maxsize) ops).map toList = runFrom fifoStep [] ops ∧
      ∀ q, runFrom step (init maxsize : Queue α) ops = some q →
        q.offset + q.size ≤ q.maxsize ∧ q.front = q.toList.head? ∧ q.back = q.toList.getLast? :=
  ⟨map_runFrom toList_step (init maxsize) ops, fun q _ => ⟨q.fits, q.front_eq_head, q.back_eq_getLast⟩⟩

end

end Queue

end HvVerified.Base
