import Mathlib.Data.List.Basic
import Mathlib.Tactic.Ring

/-!
# `base/hmath.h`: powers of two, variable-length integers

A pointer into a buffer is the function from offsets to the bytes behind it. The decoders take
`int* len` as an in/out parameter: on entry the number of bytes that may be read (0 means that no
limit is given), on return the number of bytes of the code, 0 when it is not complete, and -1 when
it is not valid. Here the two results are returned as a pair, the `long long` value in its
two's-complement bits.
-/

namespace HvVerified.Base

open List

/-- A pointer to bytes: every index can be read. -/
abbrev BytePtr := Nat → UInt8

/-- `while (n>>=1) ++e;`: a 64-bit value is 0 after 64 shifts. -/
def shiftRightLoop : Nat → UInt64 → Nat → Nat
  | 0, _, e => e
  | k + 1, n, e => if n >>> 1 = 0 then e else shiftRightLoop k (n >>> 1) (e + 1)

/-- `while (e--) ret<<=1;` -/
def shiftLeftLoop : Nat → UInt64 → UInt64
  | 0, ret => ret
  | e + 1, ret => shiftLeftLoop e (ret <<< 1)

/-- `ceil2e` -/
def ceil2e (num : UInt64) : UInt64 :=
  if num = 0 ∨ num = 1 then 1 else shiftLeftLoop (shiftRightLoop 64 (num - 1) 1) 1

/-- The loop of `varint_decode`: `n` more bytes may be read, `bytes` have been, and `ret` holds
    their seven-bit groups. -/
def varintDecodeLoop (buf : BytePtr) (len : Int) : Nat → Nat → UInt64 → UInt64 × Int
  | 0, _, ret => (ret, -1)
  | n + 1, bytes, ret =>
    if len ≠ 0 ∧ (bytes : Int) = len then
      -- Not enough length
      (0, 0)
    else
      let ret := ret ||| ((buf bytes &&& 0x7F).toUInt64 <<< (7 * bytes).toUInt64)
      if buf bytes &&& 0x80 = 0 then (ret, (bytes + 1 : Nat)) else varintDecodeLoop buf len n (bytes + 1) ret

/-- `varint_decode`: the value and the result, which is not positive if the code is not complete. -/
def varintDecode (buf : BytePtr) (len : Int) : UInt64 × Int := varintDecodeLoop buf len 10 0 0

/-- The loop of `varint_encode`, for at most as many bytes as a `long long` has groups. -/
def varintEncodeLoop : Nat → Nat → List UInt8
  | 0, _ => []
  | n + 1, value =>
    let ch := UInt8.ofNat (value % 128)
    if value / 128 = 0 then [ch] else (ch ||| 0x80) :: varintEncodeLoop n (value / 128)

/-- `varint_encode` of a value that is not negative -/
def varintEncode (value : Nat) : List UInt8 := varintEncodeLoop 10 value

/-- The loop of `asn1_decode`: `lenBytes` bytes of the length are still to be read, `bytes` have
    been (the tag included). -/
def asn1DecodeLoop (buf : BytePtr) (len : Int) : Nat → Nat → UInt64 → UInt64 × Int
  | 0, bytes, ret => (ret, bytes)
  | lenBytes + 1, bytes, ret =>
    if len ≠ 0 ∧ (bytes : Int) = len then
      -- Not enough length
      (0, 0)
    else asn1DecodeLoop buf len lenBytes (bytes + 1) ((ret <<< 8) ||| (buf bytes).toUInt64)

/-- `asn1_decode` -/
def asn1Decode (buf : BytePtr) (len : Int) : UInt64 × Int :=
  let tag := buf 0
  if tag < 128 then
    -- Single-byte data
    (tag.toUInt64, 1)
  else if tag = 0x80 then
    -- invalid data
    (0, -1)
  else asn1DecodeLoop buf len (tag &&& 0x7F).toNat 1 0

/-- `asn1_encode` of a value that is not negative -/
def asn1Encode (value : Nat) : List UInt8 :=
  if value < 128 then [UInt8.ofNat value]
  else if value < 256 then [0x81, UInt8.ofNat value]
  else if value < 65536 then [0x82, UInt8.ofNat (value >>> 8), UInt8.ofNat value]
  else if value < 16777126 then
    [0x83, UInt8.ofNat (value >>> 16), UInt8.ofNat (value >>> 8), UInt8.ofNat value]
  else
    [0x84, UInt8.ofNat (value >>> 24), UInt8.ofNat (value >>> 16), UInt8.ofNat (value >>> 8),
      UInt8.ofNat value]

/-- The bytes of a list, with zeros behind them. -/
def ptrOf (s : List UInt8) : BytePtr := fun i => s.getD i 0

/-! ## The code words of the length codings, as plain arithmetic -/

/-- The number with these digits to the base 256, the first one weighing most. -/
def beValue (c : List UInt8) : Nat := c.foldl (fun v b => 256 * v + b.toNat) 0

/-- The same with the last one weighing most. -/
def leValue : List UInt8 → Nat
  | [] => 0
  | b :: c => b.toNat + 256 * leValue c

/-- The number that a variable-length code stands for. -/
def varintValue : List UInt8 → Nat
  | [] => 0
  | b :: c => b.toNat % 128 + 128 * varintValue c

/-- The byte string ends with its only byte below 128. -/
def VarintShape : List UInt8 → Prop
  | [] => False
  | [b] => b.toNat < 128
  | b :: c => 128 ≤ b.toNat ∧ VarintShape c

/-- A variable-length code of at most ten bytes, and its value. -/
def IsVarint (c : List UInt8) (v : Nat) : Prop :=
  VarintShape c ∧ c.length ≤ 10 ∧ v = varintValue c

/-- `c` is an ASN.1 length with value `v`: one byte below 128, or a byte `0x80 + k` with `k ≠ 0`
    and `k` bytes of a big-endian number. -/
def IsAsn1 (c : List UInt8) (v : Nat) : Prop :=
  ∃ tag c', c = tag :: c' ∧
    ((tag.toNat < 128 ∧ c' = [] ∧ v = tag.toNat) ∨
      (128 < tag.toNat ∧ c'.length = tag.toNat - 128 ∧ v = beValue c'))

theorem VarintShape.length_pos : ∀ {c : List UInt8}, VarintShape c → 0 < c.length
  | _ :: _, _ => by simp

theorem VarintShape.cons_cons {b b' : UInt8} {c : List UInt8} (h : VarintShape (b :: b' :: c)) :
    128 ≤ b.toNat ∧ VarintShape (b' :: c) := h

theorem IsAsn1.length_le {c : List UInt8} {v : Nat} (h : IsAsn1 c v) : 0 < c.length ∧ c.length ≤ 128 := by
  obtain ⟨tag, c', rfl, h⟩ := h
  have := tag.toNat_lt
  rcases h with ⟨_, rfl, _⟩ | ⟨_, hl, _⟩
  · simp
  · simp only [length_cons]; omega

theorem beValue_append (c d : List UInt8) : beValue (c ++ d) = beValue c * 256 ^ d.length + beValue d := by
  unfold beValue
  rw [foldl_append]
  generalize foldl (fun v (b : UInt8) => 256 * v + b.toNat) 0 c = a
  have h : ∀ (d : List UInt8) (a : Nat), d.foldl (fun v b => 256 * v + b.toNat) a =
      a * 256 ^ d.length + d.foldl (fun v b => 256 * v + b.toNat) 0 := by
    intro d
    induction d with
    | nil => intro a; simp
    | cons b d ih =>
      intro a
      rw [foldl_cons, foldl_cons, ih, ih (256 * 0 + b.toNat), length_cons, pow_succ]
      ring
  exact h d a

@[simp] theorem beValue_nil : beValue [] = 0 := rfl

@[simp] theorem beValue_singleton (b : UInt8) : beValue [b] = b.toNat := by simp [beValue]

theorem beValue_cons (b : UInt8) (c : List UInt8) : beValue (b :: c) = b.toNat * 256 ^ c.length + beValue c := by
  rw [← singleton_append, beValue_append, beValue_singleton]

end HvVerified.Base
