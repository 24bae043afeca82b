import HvVerified.Http.Reserve

/-!
# Proofs: how much room is reserved

`MIN(size + 1, limit)` in `int` is at most the limit, but for a size whose low 32 bits are 2 ^ 31 or more, except
for 2 ^ 32 - 1, it is negative, and as a `size_t` close to 2 ^ 64. For 2 ^ 31 - 1 the sum overflows.
-/

namespace HvVerified.Http.Proofs

open Base Lib Http

/-- The sum of the size and one is negative in `int`, or no `int`. -/
def WrapsInt (size : Nat) : Prop := 2 ^ 31 - 1 ≤ size % 2 ^ 32 ∧ size % 2 ^ 32 < 2 ^ 32 - 1

instance (size : Nat) : Decidable (WrapsInt size) := inferInstanceAs (Decidable (_ ∧ _))

theorem sizeToInt_cases (size : Nat) :
    size % 2 ^ 32 < 2 ^ 31 ∧ sizeToInt size = (size % 2 ^ 32 : Nat) ∨
      2 ^ 31 ≤ size % 2 ^ 32 ∧ sizeToInt size + 2 ^ 32 = (size % 2 ^ 32 : Nat) := by
  unfold sizeToInt
  rw [Int.bmod_def]
  split_ifs <;> omega

theorem reserveLength_of_not_wraps {limit size : Nat} (h : ¬ WrapsInt size) (hlimit : limit < 2 ^ 64) :
    ∃ n, reserveLength limit size = some n ∧ n ≤ limit := by
  have hsize := sizeToInt_cases size
  unfold WrapsInt at h
  unfold reserveLength
  dsimp only
  rw [if_pos (by omega)]
  refine ⟨_, rfl, ?_⟩
  unfold toSizeT
  omega

theorem le_of_wraps {limit size n : Nat} (h : WrapsInt size) (hn : reserveLength limit size = some n) :
    2 ^ 63 ≤ n := by
  have hsize := sizeToInt_cases size
  unfold WrapsInt at h
  unfold reserveLength at hn
  dsimp only at hn
  split_ifs at hn with hsum
  rw [← Option.some.inj hn, toSizeT]
  omega

/-- A callback has a result, and what it reserves, if anything, is at most 2 ^ 24. -/
def ReservesBounded (result : Option (Option Nat)) : Prop := ∃ call, result = some call ∧ ∀ n ∈ call, n ≤ 2 ^ 24

/-- A string never has a capacity of 2 ^ 63, so that `reserve` is called if the sum is negative. -/
theorem reservesBounded_iff {size capacity : Nat} (hcapacity : capacity < 2 ^ 63) :
    ReservesBounded ((reserveLength (2 ^ 24) size).map (reserveCall · capacity)) ↔ ¬ WrapsInt size := by
  constructor
  · rintro ⟨call, hcall, hbounded⟩ hwraps
    obtain ⟨n, hlength, rfl⟩ := Option.map_eq_some_iff.1 hcall
    have hlarge := le_of_wraps hwraps hlength
    have := hbounded n (if_pos (by omega))
    omega
  · intro hwraps
    obtain ⟨n, hlength, hle⟩ := @reserveLength_of_not_wraps (2 ^ 24) size hwraps (by decide)
    refine ⟨_, congrArg (Option.map _) hlength, fun n' hn' => ?_⟩
    obtain ⟨-, hn'⟩ := Option.ite_none_right_eq_some.1 hn'
    exact Option.some.inj hn' ▸ hle

theorem headersReserve_le {value : ByteString} {skipBody : Bool} {capacity n : Nat}
    (h : headersReserve value skipBody capacity = some n) : n ≤ maxContentLength := by
  unfold headersReserve reserveCall at h
  dsimp only at h
  split_ifs at h
  cases h
  exact Nat.min_le_right _ _

/-- All three callbacks have a result and reserve at most 2 ^ 24 bytes exactly if the length of the frame and the size
    of the chunk, with one more, are neither negative in `int` nor too large for it. -/
theorem reservations_bounded_iff (frameLength size : Nat) (value : ByteString) (skipBody : Bool)
    {capacity₁ capacity₂ capacity₃ : Nat} (h₁ : capacity₁ < 2 ^ 63) (h₂ : capacity₂ < 2 ^ 63) :
    (ReservesBounded (frameReserve frameLength capacity₁) ∧ ReservesBounded (chunkReserve size capacity₂) ∧
        ReservesBounded (some (headersReserve value skipBody capacity₃))) ↔
      ¬ WrapsInt frameLength ∧ ¬ WrapsInt size := by
  have hheaders : ReservesBounded (some (headersReserve value skipBody capacity₃)) :=
    ⟨_, rfl, fun n hn => headersReserve_le hn⟩
  rw [and_iff_left hheaders]
  exact and_congr (reservesBounded_iff h₁) (reservesBounded_iff h₂)

/-- A frame of 1000 bytes, a chunk of 26 bytes and the length -1. -/
theorem reservations_bounded_small : chunkSize (ascii "1a\r\n") = some 26 ∧
    ReservesBounded (frameReserve 1000 15) ∧ ReservesBounded (chunkReserve 26 15) ∧
      ReservesBounded (some (headersReserve (ascii "-1") false 15)) := by
  refine ⟨by decide, ?_⟩
  exact (reservations_bounded_iff 1000 26 (ascii "-1") false (by decide) (by decide)).2 ⟨by decide, by decide⟩

/-- For a frame and for a chunk of 2 ^ 31 bytes, nearly 2 ^ 64 bytes are reserved. -/
theorem reservations_exceed : frameReserve (2 ^ 31) 15 = some (some (2 ^ 64 - 2 ^ 31 + 1)) ∧
    chunkSize (ascii "80000000\r\n") = some (2 ^ 31) ∧
    chunkReserve (2 ^ 31) 15 = some (some (2 ^ 64 - 2 ^ 31 + 1)) := by
  decide +kernel

end HvVerified.Http.Proofs
