import HvVerified.Lib.Runs

/-!
# `HRingBuf` of `base/hbuf.h`

The blocks are allocated and freed in the same order. `free` is only given a length: where the block
is that it frees follows from the layout of the blocks, which is kept by both operations.
-/

namespace HvVerified.Base

open List Lib

/-- `HRingBuf`: the offsets in the buffer, whose bytes do not matter here. -/
structure HRingBuf where
  len : Nat
  head : Nat
  tail : Nat
  size : Nat

namespace HRingBuf

/-- `alloc`, with the offset of the block that is returned -/
def alloc (b : HRingBuf) (len : Nat) : HRingBuf × Option Nat :=
  if b.head < b.tail ∨ b.size = 0 then
    if b.len - b.tail ≥ len then
      ({ b with tail := if b.tail + len = b.len then 0 else b.tail + len, size := b.size + len }, some b.tail)
    else if b.head ≥ len then ({ b with tail := len, size := b.size + len }, some 0)
    else (b, none)
  else if b.head - b.tail ≥ len then ({ b with tail := b.tail + len, size := b.size + len }, some b.tail)
  else (b, none)

/-- `HRingBuf::free`: `len` bytes at the head are given back. -/
def free (b : HRingBuf) (len : Nat) : HRingBuf :=
  if len ≤ b.len - b.head then
    { b with head := if b.head + len = b.len then 0 else b.head + len, size := b.size - len }
  else { b with head := len, size := b.size - len }

end HRingBuf

/-- The buffer, with the offsets and lengths of the blocks that are not freed, the oldest first. -/
structure RingWorld where
  buf : HRingBuf
  blocks : List (Nat × Nat)

/-- A call with a positive length, and the release of the oldest block. -/
inductive RingAct where
  | alloc (len : Nat)
  | free

/-- One call; the blocks are released in the order in which they were given out. -/
def ringStep (w : RingWorld) : RingAct → Option RingWorld
  | .alloc len =>
    if len = 0 then none
    else some ⟨(w.buf.alloc len).1, w.blocks ++ ((w.buf.alloc len).2.map fun ret => (ret, len)).toList⟩
  | .free =>
    match w.blocks with
    | [] => none
    | block :: blocks => some ⟨w.buf.free block.2, blocks⟩

/-! ## The layout of the blocks -/

/-- The blocks lie one behind the other from `lo` to `hi`. -/
def Tiled (lo : Nat) : List (Nat × Nat) → Nat → Prop
  | [], hi => lo = hi
  | block :: blocks, hi => block.1 = lo ∧ 0 < block.2 ∧ Tiled (lo + block.2) blocks hi

section

variable {lo hi len : Nat} {blocks : List (Nat × Nat)}

theorem Tiled.append (h : Tiled lo blocks hi) (hlen : 0 < len) : Tiled lo (blocks ++ [(hi, len)]) (hi + len) := by
  induction blocks generalizing lo with
  | nil =>
    obtain rfl : lo = hi := h
    exact ⟨rfl, hlen, rfl⟩
  | cons block blocks ih => exact ⟨h.1, h.2.1, ih h.2.2⟩

theorem Tiled.sum_eq (h : Tiled lo blocks hi) : lo + (blocks.map Prod.snd).sum = hi := by
  induction blocks generalizing lo with
  | nil => exact h
  | cons block blocks ih =>
    rw [map_cons, sum_cons, ← Nat.add_assoc]
    exact ih h.2.2

theorem Tiled.inside (h : Tiled lo blocks hi) : ∀ b ∈ blocks, lo ≤ b.1 ∧ b.1 + b.2 ≤ hi := by
  induction blocks generalizing lo with
  | nil => simp
  | cons block blocks ih =>
    obtain ⟨hlo, -, hrest⟩ := h
    have hsum := hrest.sum_eq
    intro b hb
    rcases mem_cons.1 hb with rfl | hb
    · omega
    · have := ih hrest b hb
      omega

theorem Tiled.pairwise (h : Tiled lo blocks hi) : blocks.Pairwise fun b c => b.1 + b.2 ≤ c.1 := by
  induction blocks generalizing lo with
  | nil => exact .nil
  | cons block blocks ih =>
    obtain ⟨rfl, -, hrest⟩ := h
    exact .cons (fun c hc => (hrest.inside c hc).1) (ih hrest)

end

/-- Where the blocks are. The old ones may be followed by a gap at the end of the buffer that was too
    small for the first of the young ones. -/
inductive RingLayout (b : HRingBuf) : List (Nat × Nat) → Prop where
  | straight {blocks : List (Nat × Nat)} (h : Tiled b.head blocks b.tail) (htail : b.tail ≤ b.len - 1) :
      RingLayout b blocks
  | wrapped {blocks old young : List (Nat × Nat)} {gap : Nat} (hblocks : blocks = old ++ young)
      (hold : Tiled b.head old gap) (hyoung : Tiled 0 young b.tail) (hgap : gap ≤ b.len) (htail : b.tail ≤ b.head)
      (hhead : b.head < b.len) (hfirst : ∀ block ∈ young.head?, b.len < gap + block.2)
      (hnil : young = [] → gap = b.len) : RingLayout b blocks

/-- The blocks that are out fill the part of the buffer in use. -/
structure RingInv (cap : Nat) (w : RingWorld) : Prop where
  len : w.buf.len = cap
  size : w.buf.size = (w.blocks.map Prod.snd).sum
  layout : RingLayout w.buf w.blocks

theorem ringLayout_alloc {b : HRingBuf} {blocks : List (Nat × Nat)} {len : Nat}
    (hsize : b.size = (blocks.map Prod.snd).sum) (hlen : 0 < len) (h : RingLayout b blocks) :
    RingLayout (b.alloc len).1 (blocks ++ ((b.alloc len).2.map fun ret => (ret, len)).toList) := by
  unfold HRingBuf.alloc
  cases h with
  | straight h htail =>
    have hsum := h.sum_eq
    rw [if_pos (by omega)]
    split_ifs with hfits hend hfront
    · refine .wrapped (append_nil _).symm (h.append hlen) rfl (Nat.le_of_eq hend) (Nat.zero_le _) ?_ (by simp) fun _ => hend
      dsimp only
      omega
    · refine .straight (h.append hlen) ?_
      dsimp only
      omega
    · refine .wrapped rfl h ⟨rfl, hlen, Nat.zero_add _⟩ ?_ hfront ?_ ?_ (by simp)
      all_goals simp
      all_goals omega
    · simpa using RingLayout.straight h htail
  | @wrapped old young gap hblocks hold hyoung hgap htail hhead hfirst hnil =>
    subst hblocks
    have hold' := hold.sum_eq
    have hyoung' := hyoung.sum_eq
    rw [map_append, sum_append] at hsize
    have hused : ¬ (b.head < b.tail ∨ b.size = 0) := by
      cases young with
      | nil =>
        have := hnil rfl
        omega
      | cons block young =>
        have := hyoung.2.2.sum_eq
        have := hyoung.2.1
        omega
    rw [if_neg hused]
    split_ifs with hfits
    · refine .wrapped (append_assoc old young _) hold (hyoung.append hlen) hgap ?_ hhead ?_ (by simp)
      · dsimp only
        omega
      · cases young with
        | nil =>
          rw [hnil rfl]
          simpa using hlen
        | cons block young => exact hfirst
    · rw [Option.map_none, Option.toList_none, append_nil]
      exact .wrapped rfl hold hyoung hgap htail hhead hfirst hnil

theorem ringLayout_free {b : HRingBuf} {block : Nat × Nat} {blocks : List (Nat × Nat)}
    (h : RingLayout b (block :: blocks)) : RingLayout (b.free block.2) blocks := by
  unfold HRingBuf.free
  cases h with
  | straight h htail =>
    obtain ⟨-, hpos, hrest⟩ := h
    have hsum := hrest.sum_eq
    rw [if_pos (by omega), if_neg (by omega)]
    exact .straight hrest htail
  | @wrapped old young gap hblocks hold hyoung hgap htail hhead hfirst hnil =>
    cases old with
    | nil =>
      obtain rfl : b.head = gap := hold
      obtain rfl : block :: blocks = young := hblocks
      obtain ⟨-, hpos, hrest⟩ := hyoung
      have hgap := hfirst block rfl
      rw [if_neg (by omega)]
      rw [Nat.zero_add] at hrest
      exact .straight hrest (by dsimp only; omega)
    | cons block' old =>
      obtain ⟨rfl, rfl⟩ := cons_eq_cons.1 hblocks
      obtain ⟨-, hpos, hrest⟩ := hold
      have hsum := hrest.sum_eq
      rw [if_pos (by omega)]
      split_ifs with hend
      · -- the last block before the end of the buffer: the young ones become the old ones
        cases old with
        | nil => exact .straight hyoung (by dsimp only; omega)
        | cons block' old =>
          have := hrest.2.2.sum_eq
          have := hrest.2.1
          omega
      · exact .wrapped rfl hrest hyoung hgap (by dsimp only; omega) (by dsimp only; omega) hfirst hnil

theorem ringInv_step {cap : Nat} {w w' : RingWorld} {act : RingAct} (hinv : RingInv cap w)
    (hs : ringStep w act = some w') : RingInv cap w' := by
  obtain ⟨hcap, hsize, hlayout⟩ := hinv
  cases act with
  | alloc len =>
    rw [ringStep] at hs
    split_ifs at hs with hlen
    cases hs
    refine ⟨?_, ?_, ringLayout_alloc hsize (Nat.pos_of_ne_zero hlen) hlayout⟩
    · unfold HRingBuf.alloc
      split_ifs <;> exact hcap
    · unfold HRingBuf.alloc
      split_ifs <;> simp [hsize]
  | free =>
    obtain ⟨buf, blocks⟩ := w
    cases blocks with
    | nil => cases hs
    | cons block blocks =>
      cases hs
      refine ⟨?_, ?_, ringLayout_free hlayout⟩
      · unfold HRingBuf.free
        split_ifs <;> exact hcap
      · unfold HRingBuf.free
        dsimp only at hsize
        split_ifs <;> simp [hsize]

/-- The blocks that are not freed lie inside the buffer and are disjoint, and `size` is the sum of
    their lengths. -/
theorem ring_blocks_disjoint {cap : Nat} {w : RingWorld}
    (h : Reachable ringStep Always (· = ⟨⟨cap, 0, 0, 0⟩, []⟩) w) :
    (∀ b ∈ w.blocks, b.1 + b.2 ≤ cap) ∧
      w.blocks.Pairwise (fun b c => b.1 + b.2 ≤ c.1 ∨ c.1 + c.2 ≤ b.1) ∧
      w.buf.size = (w.blocks.map Prod.snd).sum := by
  have hinv : RingInv cap w := by
    refine h.invariant ?_ fun _ _ _ hinv _ hs => ringInv_step hinv hs
    rintro _ rfl
    exact ⟨rfl, rfl, .straight rfl (Nat.zero_le _)⟩
  obtain ⟨hcap, hsize, hlayout⟩ := hinv
  cases hlayout with
  | straight h htail =>
    refine ⟨fun b hb => ?_, h.pairwise.imp .inl, hsize⟩
    have := h.inside b hb
    omega
  | wrapped hblocks hold hyoung hgap htail =>
    rw [hblocks]
    rw [hblocks] at hsize
    refine ⟨fun b hb => ?_, pairwise_append.2 ⟨hold.pairwise.imp .inl, hyoung.pairwise.imp .inl, ?_⟩, hsize⟩
    · rcases mem_append.1 hb with hb | hb
      · have := hold.inside b hb
        omega
      · have := hyoung.inside b hb
        omega
    · intro b hb c hc
      have := hold.inside b hb
      have := hyoung.inside c hc
      omega

theorem ring_blocks_wrapped : ∃ w, Reachable ringStep Always (· = ⟨⟨10, 0, 0, 0⟩, []⟩) w ∧
    w.blocks = [(6, 3), (0, 4)] ∧ (∀ b ∈ w.blocks, b.1 + b.2 ≤ 10) ∧ w.buf.size = 7 := by
  refine exists_reached [.alloc 6, .alloc 3, .free, .alloc 4] rfl rfl fun w hreach hrun => ?_
  obtain ⟨hinside, -, hsize⟩ := ring_blocks_disjoint hreach
  cases hrun
  exact ⟨rfl, hinside, hsize⟩

end HvVerified.Base
