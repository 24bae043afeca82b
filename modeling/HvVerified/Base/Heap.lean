import HvVerified.Lib.Loop
import HvVerified.Lib.Runs

/-!
# `base/heap.h`: the intrusive binary heap

The nodes are of an arbitrary type; the links of all nodes are kept in three functions, and a null
pointer is `none`. A function returns `none` when it follows a null pointer or when its assertion
fails. `compare` decides from the contents of the nodes, which the heap does not change.
-/

namespace HvVerified.Base

open Lib Function

/-- `struct heap`, with the links of the nodes. -/
structure Heap (ν : Type) where
  root : Option ν
  nelts : Nat
  parent : ν → Option ν
  left : ν → Option ν
  right : ν → Option ν

variable {ν : Type} [DecidableEq ν] (h : Heap ν)

/-- `p->parent = v`, if `p` is not null. -/
def Heap.setParent (p : Option ν) (v : Option ν) : Heap ν :=
  match p with
  | none => h
  | some x => { h with parent := update h.parent x v }

/-- `x->left = v` -/
def Heap.setLeft (x : ν) (v : Option ν) : Heap ν :=
  { h with left := update h.left x v }

/-- `x->right = v` -/
def Heap.setRight (x : ν) (v : Option ν) : Heap ν :=
  { h with right := update h.right x v }

/-- Let the place that points down to `s` point to `r`: the root, or a child link of the parent. -/
def Heap.relink (parent : Option ν) (s : ν) (r : Option ν) : Heap ν :=
  match parent with
  | none => { h with root := r }
  | some p =>
    if h.left p = some s then h.setLeft p r
    else if h.right p = some s then h.setRight p r
    else h

/-- `heap_replace`, with `r` not null. -/
def heapReplace (s r : ν) : Heap ν :=
  let h := h.relink (h.parent s) s (some r)
  let h := h.setParent (h.left s) (some r)
  let h := h.setParent (h.right s) (some r)
  let h := h.setParent (some r) (h.parent s)
  let h := h.setLeft r (h.left s)
  h.setRight r (h.right s)

/-- `heap_swap`, for a parent and its child; otherwise the links are not those of a tree. -/
def heapSwap (parent child : ν) : Option (Heap ν) :=
  if h.parent child = some parent ∧ (h.left parent = some child ∨ h.right parent = some child) then
    let pparent := h.parent parent
    let lchild := h.left child
    let rchild := h.right child
    let h := h.relink pparent parent (some child)
    let h := h.setParent lchild (some parent)
    let h := h.setParent rchild (some parent)
    let h := h.setParent (some child) pparent
    let (h, sibling) :=
      if h.left parent = some child then
        let sibling := h.right parent
        ((h.setLeft child (some parent)).setRight child sibling, sibling)
      else
        let sibling := h.left parent
        ((h.setLeft child sibling).setRight child (some parent), sibling)
    let h := h.setParent sibling (some child)
    let h := h.setParent (some parent) (some child)
    let h := h.setLeft parent lchild
    some (h.setRight parent rchild)
  else none

/-! ## The path to the last node -/

/-- The loop that collects the path to node `n`, from the bottom up: `path` and `d`. The first
    argument bounds the number of iterations. -/
def lastPath : Nat → Nat → Nat → Nat → Nat × Nat
  | 0, _, path, d => (path, d)
  | fuel + 1, n, path, d =>
    if n ≥ 2 then lastPath fuel (n >>> 1) ((path <<< 1) ||| (n &&& 1)) (d + 1) else (path, d)

/-- The loop that follows the path from `p` for `steps` steps, with the path that is left over. -/
def descend (h : Heap ν) : Nat → Nat → Option ν → Option (Option ν × Nat)
  | 0, path, p => some (p, path)
  | _ + 1, _, none => none
  | steps + 1, path, some x =>
    descend h steps (path >>> 1) (if path &&& 1 = 1 then h.right x else h.left x)

/-- The parent of node `n`, the last one in level order, and the bit that says which child it is. -/
def lastParent (n : Nat) : Option (Option ν × Nat) :=
  let (path, d) := lastPath n n 0 0
  descend h (d - 1) path h.root

/-! ## Sifting -/

/-- An iteration of the loop at the end of `heap_insert`. -/
def siftUpIter (compare : ν → ν → Bool) (node : ν) (h : Heap ν) :
    LoopStep (Heap ν) (Option (Heap ν)) :=
  match h.parent node with
  | none => .done (some h)
  | some p =>
    if compare node p then
      match heapSwap h p node with
      | none => .done none
      | some h' => .next h'
    else .done (some h)

/-- `est` in "sift down": which of the node and its children goes to the top. -/
def heapEst (compare : ν → ν → Bool) (h : Heap ν) (v : ν) : ν :=
  let est :=
    match h.left v with
    | none => v
    | some l => if compare v l then v else l
  match h.right v with
  | none => est
  | some r => if compare est r then est else r

/-- An iteration of the loop at the end of `heap_remove`. -/
def siftDownIter (compare : ν → ν → Bool) (v : ν) (h : Heap ν) :
    LoopStep (Heap ν) (Option (Heap ν)) :=
  let est := heapEst compare h v
  if est = v then .done (some h)
  else
    match heapSwap h v est with
    | none => .done none
    | some h' => .next h'

/-- The loop "sift up"; a node is at most `nelts` steps below the root. -/
def siftUp (compare : ν → ν → Bool) (node : ν) (h : Heap ν) : Option (Heap ν) :=
  (loopRun (siftUpIter compare node) (h.nelts + 1) h).join

/-- The whole loop, which ends within the number of nodes. -/
def siftDown (compare : ν → ν → Bool) (v : ν) (h : Heap ν) : Option (Heap ν) :=
  (loopRun (siftDownIter compare v) (h.nelts + 1) h).join

/-! ## Operations -/

/-- `heap_init` -/
def heapInit : Heap ν := { h with root := none, nelts := 0 }

/-- `heap_insert` -/
def heapInsert (compare : Option (ν → ν → Bool)) (h : Heap ν) (node : ν) : Option (Heap ν) := do
  let h := { h with nelts := h.nelts + 1 }
  let (parent, path) ← lastParent h h.nelts
  let h := h.setParent (some node) parent
  let h :=
    match parent with
    | none => { h with root := some node }
    | some p => if path &&& 1 = 1 then h.setRight p (some node) else h.setLeft p (some node)
  match compare with
  | none => some h
  | some compare => siftUp compare node h

/-- `heap_remove` -/
def heapRemove (compare : Option (ν → ν → Bool)) (h : Heap ν) (node : ν) : Option (Heap ν) :=
  if h.nelts = 0 then some h
  else do
    let (parent, path) ← lastParent h h.nelts
    let h := { h with nelts := h.nelts - 1 }
    match parent with
    | none => some h
    | some p =>
      let (last, h) :=
        if path &&& 1 = 1 then (h.right p, h.setRight p none) else (h.left p, h.setLeft p none)
      match last with
      | none => some (if h.root = some node then { h with root := none } else h)
      | some last =>
        let h := heapReplace h node last
        let h := ((h.setParent (some node) none).setLeft node none).setRight node none
        match compare with
        | none => some h
        | some compare => do
          let h ← siftDown compare last h
          siftUp compare last h

/-- `heap_dequeue` of a heap whose root is not null. -/
def heapDequeue (compare : Option (ν → ν → Bool)) (h : Heap ν) : Option (Heap ν) := do
  let root ← h.root
  heapRemove compare h root

/-! ## Runs -/

/-- What is done with a heap. A node that is not in the heap may be overwritten by its owner. -/
inductive HeapOp (ν : Type) where
  | insert (node : ν)
  | remove (node : ν)
  | dequeue
  | write (node : ν) (parent left right : Option ν)

/-- The nodes of the heap: those that the child links lead to from the root. -/
inductive HeapMem (h : Heap ν) : ν → Prop where
  | root {x : ν} (hx : h.root = some x) : HeapMem h x
  | left {x y : ν} (hx : HeapMem h x) (hy : h.left x = some y) : HeapMem h y
  | right {x y : ν} (hx : HeapMem h x) (hy : h.right x = some y) : HeapMem h y

/-- One call on the heap, or a write to a node outside of it. -/
def heapStep (compare : ν → ν → Bool) (h : Heap ν) : HeapOp ν → Option (Heap ν)
  | .insert node => heapInsert (some compare) h node
  | .remove node => heapRemove (some compare) h node
  | .dequeue => heapDequeue (some compare) h
  | .write node p l r => some (((h.setParent (some node) p).setLeft node l).setRight node r)

/-- How the operations may be used: a node that is inserted is not in the heap and has no children, one
    that is removed is in the heap, and only a heap that is not empty is dequeued. -/
def HeapUse : HeapOp ν → Prop
  | .insert node => ¬ HeapMem h node ∧ h.left node = none ∧ h.right node = none
  | .remove node => HeapMem h node
  | .dequeue => h.root ≠ none
  | .write node _ _ _ => ¬ HeapMem h node

/-- The elements after a call. -/
def HeapAfter : HeapOp ν → ν → Prop
  | .insert node, y => HeapMem h y ∨ y = node
  | .remove node, y => HeapMem h y ∧ y ≠ node
  | .dequeue, y => HeapMem h y ∧ h.root ≠ some y
  | .write _ _ _ _, y => HeapMem h y

end HvVerified.Base
