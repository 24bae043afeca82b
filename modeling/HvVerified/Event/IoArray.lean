import HvVerified.Base.Proofs.HmathProofs
import HvVerified.Lib.Runs

/-!
# `event/hloop.c`: the table of the ios of a loop

`loop->ios` is indexed by descriptors and grows when `hio_get` is called with one that it does not cover.
-/

namespace HvVerified.Event

open Lib Base List

variable {ν : Type}

/-- `io_array`: the pointers `ptr[0]` to `ptr[maxsize - 1]`, `none` for `NULL`. -/
abbrev IoArray (ν : Type) := List (Option ν)

/-- `IO_ARRAY_INIT_SIZE` -/
def ioArrayInitSize : Nat := 1024

namespace IoArray

variable (ios : IoArray ν) (fd : Nat)

/-- `io_array_resize`: `hv_realloc` keeps what fits and clears what is new. -/
def resize (maxsize : Nat) : IoArray ν :=
  let maxsize := if maxsize = 0 then 16 else maxsize
  ios.take maxsize ++ replicate (maxsize - ios.length) none

/-- `newsize` after the maximum: as an `int`, `ceil2e(fd)` is negative from `2^31` on. -/
def newSize : Nat :=
  let newsize := (ceil2e (UInt64.ofNat fd)).toNat % 2 ^ 32
  if newsize < 2 ^ 31 then max newsize ioArrayInitSize else ioArrayInitSize

/-- The size that `__hio_get` grows the table to; `none` when `2*fd` is not an `int`. -/
def growSize : Option Nat :=
  if fd < newSize fd then some (newSize fd) else if 2 * fd < 2 ^ 31 then some (2 * fd) else none

/-- `__hio_get` up to its `return`: the table, which has grown when `fd` was not below its size. -/
def cover : Option (IoArray ν) :=
  if ios.length ≤ fd then (growSize fd).map ios.resize else some ios

/-- `hio_get`: the table and the io that is returned. `io` is what `HV_ALLOC_SIZEOF` allocates, and `none` is
    an access outside the table. -/
def hioGet (io : ν) : Option (IoArray ν × ν) := do
  let ios ← ios.cover fd
  match ← ios[fd]? with
  | some old => return (ios, old)
  | none => return (ios.set fd (some io), io)

/-- `hio_get` for a descriptor, with the object for a new io. -/
def getStep (call : Nat × ν) : Option (IoArray ν) := (ios.hioGet call.1 call.2).map Prod.fst

end IoArray

open IoArray

variable {ios : IoArray ν} {fd : Nat} {calls : List (Nat × ν)}

/-- The table after `calls` holds the first io that was stored for each descriptor. -/
structure Holds (calls : List (Nat × ν)) (ios : IoArray ν) : Prop where
  covers : ∀ c ∈ calls, c.1 < ios.length
  slots : ∀ i < ios.length, ios[i]? = some (calls.lookup i)

theorem growSize_spec (h : fd ≤ 2 ^ 29) : ∃ m, growSize fd = some m ∧ fd < m := by
  have hinit : ioArrayInitSize ≤ newSize fd := by
    rw [newSize]
    split_ifs
    · exact Nat.le_max_right _ _
    · exact le_refl _
  rw [ioArrayInitSize] at hinit
  rw [growSize]
  -- `fd` is a power of two from 1024 on in the second case
  split_ifs with hnew hdouble
  · exact ⟨_, rfl, hnew⟩
  · exact ⟨_, rfl, by omega⟩
  · omega

theorem Holds.lookup_eq_none (h : Holds calls ios) {i : Nat} (hi : ios.length ≤ i) : calls.lookup i = none := by
  refine List.lookup_eq_none_iff.2 fun c hc => ?_
  have hlt := h.covers c hc
  simp; omega

/-- After `__hio_get` has grown the table it covers the descriptor, and holds what it held. -/
theorem Holds.cover (h : Holds calls ios) (hfd : fd ≤ 2 ^ 29) :
    ∃ ios', ios.cover fd = some ios' ∧ fd < ios'.length ∧ Holds calls ios' := by
  rw [IoArray.cover]
  split_ifs with hgrow
  · obtain ⟨m, hm, hlt⟩ := growSize_spec hfd
    have hresize : ios.resize m = ios ++ replicate (m - ios.length) none := by
      rw [resize, if_neg (by omega), take_of_length_le (by omega)]
    have hlen : (ios.resize m).length = m := by rw [hresize, length_append, length_replicate]; omega
    refine ⟨ios.resize m, by rw [hm]; rfl, by omega, fun c hc => ?_, fun i hi => ?_⟩
    · have hold := h.covers c hc
      omega
    · rw [hresize]
      rcases Nat.lt_or_ge i ios.length with hin | hout
      · rw [getElem?_append_left hin, h.slots i hin]
      · rw [getElem?_append_right hout, getElem?_replicate_of_lt (by omega), h.lookup_eq_none hout]
  · exact ⟨ios, rfl, by omega, h⟩

theorem Holds.getStep (h : Holds calls ios) (hfd : fd ≤ 2 ^ 29) (io : ν) :
    ∃ ios', ios.getStep (fd, io) = some ios' ∧ Holds (calls ++ [(fd, io)]) ios' := by
  obtain ⟨ios₁, hcover, hlt, h₁⟩ := h.cover hfd
  have hslot := h₁.slots fd hlt
  -- either way the slot of `fd` is the io that is returned
  refine ⟨ios₁.set fd (some ((calls.lookup fd).getD io)), ?_, fun c hc => ?_, fun i hi => ?_⟩
  · cases hc : calls.lookup fd with
    | none => simp [IoArray.getStep, IoArray.hioGet, hcover, hslot, hc]
    | some old =>
      have hget : ios₁[fd] = some old := Option.some.inj (by rw [← getElem?_eq_getElem, hslot, hc])
      have hsame : ios₁.set fd (some old) = ios₁ := hget ▸ set_getElem_self hlt
      simp [IoArray.getStep, IoArray.hioGet, hcover, hslot, hc, hsame]
  · rw [length_set]
    rcases mem_append.1 hc with hold | hnew
    · exact h₁.covers c hold
    · obtain rfl := mem_singleton.1 hnew
      exact hlt
  · rw [length_set] at hi
    rw [getElem?_set, lookup_append]
    rcases eq_or_ne fd i with rfl | hne
    · cases hc : calls.lookup fd <;> simp [hlt]
    · have hbeq : (i == fd) = false := by simpa using hne.symm
      simp [hne, hbeq, lookup_cons, h₁.slots i hi]

theorem Holds.run {past : List (Nat × ν)} (h : Holds past ios) (hfd : ∀ c ∈ calls, c.1 ≤ 2 ^ 29) :
    ∃ ios', runFrom IoArray.getStep ios calls = some ios' ∧ Holds (past ++ calls) ios' := by
  induction calls generalizing past ios with
  | nil => exact ⟨ios, rfl, by rwa [append_nil]⟩
  | cons c calls ih =>
    obtain ⟨ios₁, hstep, h₁⟩ := h.getStep (hfd c mem_cons_self) c.2
    obtain ⟨ios₂, hrun, h₂⟩ := ih h₁ fun c hc => hfd c (mem_cons_of_mem _ hc)
    exact ⟨ios₂, by rw [runFrom, hstep]; exact hrun, by rwa [append_assoc] at h₂⟩

/-- After any calls of `hio_get` with descriptors up to `2^29` the table covers every descriptor of a call, an io
    is where it was stored first, and the other slots are `NULL`; and `ceil2e n` is the least power of two that
    is not below `n` exactly up to `2^63`. -/
theorem io_table_covers (calls : List (Nat × ν)) (hfd : ∀ c ∈ calls, c.1 ≤ 2 ^ 29) :
    (∃ ios, runFrom IoArray.getStep [] calls = some ios ∧ (∀ c ∈ calls, c.1 < ios.length) ∧
      ∀ i < ios.length, ios[i]? = some (calls.lookup i)) ∧
    ∀ n : UInt64, 1 ≤ n.toNat →
      (IsLeast {p | n.toNat ≤ p ∧ ∃ e, p = 2 ^ e} (ceil2e n).toNat ↔ n.toNat ≤ 2 ^ 63) := by
  have hempty : Holds [] ([] : IoArray ν) := ⟨by simp, by simp⟩
  obtain ⟨ios, hrun, h⟩ := hempty.run hfd
  exact ⟨⟨ios, hrun, h.covers, h.slots⟩, fun n hn => isLeast_ceil2e_iff hn⟩

theorem io_table_covers_reused :
    ∃ ios, runFrom IoArray.getStep [] [(5, 0), (1024, 1), (5, 2)] = some ios ∧
      (∀ c ∈ [(5, 0), (1024, 1), (5, 2)], c.1 < ios.length) ∧
      ∀ i < ios.length, ios[i]? = some ([(5, 0), (1024, 1), (5, 2)].lookup i) :=
  (io_table_covers _ (by simp)).1

/-- No `unsigned long` is a power of two that is not below `2^63 + 1`: the shifts end in 0. -/
theorem ceil2e_overflows : ¬ (9223372036854775809 : UInt64) ≤ ceil2e 9223372036854775809 := by decide +kernel

end HvVerified.Event
