import Mathlib.Data.List.Basic
import Mathlib.Tactic.Ring

/-!
# Numbers and keys on the wire

`bigEndian k n` are the last `k` bytes of a number, the highest first; a reader that shifts its value by
one byte and adds the next one gets the number back (`foldl_bigEndian`). `xorKey` combines bytes with a
key that is repeated from some offset on, as a reader does that gets the bytes piece by piece.
-/

namespace HvVerified.Lib

open List

variable (offset : Nat)

/-! ## Big-endian numbers -/

/-- The last `k` bytes of `n`, the highest first. -/
def bigEndian : Nat → Nat → List UInt8
  | 0, _ => []
  | k + 1, n => bigEndian k (n / 256) ++ [UInt8.ofNat n]

@[simp] theorem length_bigEndian (k n : Nat) : (bigEndian k n).length = k := by
  induction k generalizing n with
  | zero => rfl
  | succ k ih => simp [bigEndian, ih]

theorem foldl_bigEndian (k n value : Nat) :
    (bigEndian k n).foldl (fun v (b : UInt8) => v * 256 + b.toNat) value = value * 256 ^ k + n % 256 ^ k := by
  induction k generalizing n with
  | zero => simp [bigEndian, Nat.mod_one]
  | succ k ih =>
    have hsplit : n % 256 ^ (k + 1) = n / 256 % 256 ^ k * 256 + n % 256 := by
      rw [pow_succ, Nat.mul_comm (256 ^ k), Nat.mod_mul, Nat.mul_comm 256, Nat.add_comm]
    have hbyte : (UInt8.ofNat n).toNat = n % 256 := UInt8.toNat_ofNat'
    rw [bigEndian, foldl_append, ih, foldl_cons, foldl_nil, hbyte, hsplit]
    ring

/-! ## Keys -/

section Keys

variable {n : Nat} [NeZero n] (key : Fin n → UInt8)

/-- The bytes combined with the repeated key, from position `offset` of the key on. -/
def xorKey (offset : Nat) (data : List UInt8) : List UInt8 :=
  data.mapIdx fun i b => b ^^^ key (Fin.ofNat n (i + offset))

@[simp] theorem length_xorKey (data : List UInt8) : (xorKey key offset data).length = data.length := length_mapIdx

@[simp] theorem xorKey_nil : xorKey key offset [] = [] := rfl

theorem xorKey_cons (b : UInt8) (data : List UInt8) :
    xorKey key offset (b :: data) = (b ^^^ key (Fin.ofNat n offset)) :: xorKey key (offset + 1) data := by
  unfold xorKey
  rw [mapIdx_cons, Nat.zero_add]
  congr 2
  funext i b
  rw [Nat.add_assoc, Nat.add_comm 1 offset]

theorem xorKey_mod (data : List UInt8) : xorKey key (offset % n) data = xorKey key offset data := by
  unfold xorKey
  congr 1
  funext i b
  have hfin : Fin.ofNat n (i + offset % n) = Fin.ofNat n (i + offset) := by
    apply Fin.ext
    simp [Fin.ofNat]
  rw [hfin]

theorem xorKey_xorKey (data : List UInt8) : xorKey key offset (xorKey key offset data) = data := by
  induction data generalizing offset with
  | nil => rfl
  | cons b data ih =>
    rw [xorKey_cons, xorKey_cons, ih, UInt8.xor_assoc, UInt8.xor_self, UInt8.xor_zero]

end Keys

end HvVerified.Lib
