import Mathlib.Algebra.Ring.Nat
import Mathlib.Algebra.Ring.Int.Defs

/-!
# Byte strings

The `std::string` values and C strings of the source as lists of bytes, with the functions of the C and
C++ libraries that the HTTP code calls on them.
-/

namespace HvVerified.Base

open List

/-- The bytes of a string. -/
abbrev ByteString := List UInt8

/-- The bytes of a text in the source. -/
def ascii (s : String) : ByteString := s.toList.map fun c => c.toNat.toUInt8

/-- `c_str()`, as far as the C functions read it -/
def cStr (s : ByteString) : ByteString := s.takeWhile (· ≠ 0)

/-- `tolower` in the C locale. -/
def tolower (b : UInt8) : UInt8 := if 65 ≤ b ∧ b ≤ 90 then b + 32 else b

/-- What `strcasecmp` compares. -/
def foldCase (s : ByteString) : ByteString := (cStr s).map tolower

/-- `std::string::find`: the position of the first occurrence of `needle` -/
def find (needle : ByteString) : ByteString → Option Nat
  | [] => if needle = [] then some 0 else none
  | b :: s => if needle.isPrefixOf (b :: s) then some 0 else (find needle s).map (· + 1)

/-- The first occurrence of `needle` is removed. -/
def eraseFirst (needle s : ByteString) : ByteString :=
  match find needle s with
  | some pos => s.take pos ++ s.drop (pos + needle.length)
  | none => s

/-- The digits at the beginning, as `atoi` reads them. -/
def leadingNumber : ByteString → Nat → Nat
  | [], value => value
  | b :: s, value => if 48 ≤ b ∧ b ≤ 57 then leadingNumber s (value * 10 + (b.toNat - 48)) else value

/-- `isspace` in the C locale. -/
def isspace (b : UInt8) : Bool := b = 32 || (9 ≤ b && b ≤ 13)

/-- `atoll`, which keeps to the range of `long long` -/
def atoll (s : ByteString) : Int :=
  match s.dropWhile isspace with
  | [] => 0
  | b :: rest =>
    if b = 45 then max (-(leadingNumber rest 0 : Int)) (-2 ^ 63)
    else min (leadingNumber (if b = 43 then rest else b :: rest) 0 : Int) (2 ^ 63 - 1)

/-- `isdigit` -/
def isdigit (b : UInt8) : Bool := 48 ≤ b && b ≤ 57

/-- `%ld` of `sscanf`: the number at the front, kept to the range of `long`, and what follows it -/
def scanLong (s : ByteString) : Option (Int × ByteString) :=
  let s := s.dropWhile isspace
  let negative := s.head? = some 45
  let s := if negative ∨ s.head? = some 43 then s.tail else s
  let digits := s.takeWhile isdigit
  if digits = [] then none
  else
    let value : Int := leadingNumber digits 0
    some (if negative then max (-value) (-2 ^ 63) else min value (2 ^ 63 - 1), s.drop digits.length)

/-- The conversion to `size_t`. -/
def toSizeT (i : Int) : Nat := (i % 2 ^ 64).toNat

/-- The conversion to `int`. -/
def toInt (n : Nat) : Int := (n + 2 ^ 31 : Int) % 2 ^ 32 - 2 ^ 31

/-- The format `%d`. -/
def decimal (n : Int) : ByteString := ascii (toString n)

theorem cStr_of_notMem {s : ByteString} (h : (0 : UInt8) ∉ s) : cStr s = s := by
  have hne : ∀ b ∈ s, decide (b ≠ 0) := by
    intro b hb
    exact decide_eq_true (fun hzero => h (hzero ▸ hb))
  have htake := @takeWhile_append_of_pos _ (fun b : UInt8 => decide (b ≠ 0)) s [] hne
  rw [append_nil, takeWhile_nil, append_nil] at htake
  exact htake

theorem zero_notMem_cStr (s : ByteString) : (0 : UInt8) ∉ cStr s := fun h => by
  simpa using all_eq_true.1 all_takeWhile 0 h

theorem toSizeT_natCast {n : Nat} (h : n < 2 ^ 64) : toSizeT (n : Int) = n := by
  unfold toSizeT
  omega

theorem toInt_of_lt {n : Nat} (h : n < 2 ^ 31) : toInt n = n := by
  unfold toInt
  omega

theorem toSizeT_of_nonneg {k : Int} (hk : 0 ≤ k ∧ k < 2 ^ 64) : toSizeT k = k.toNat := by
  unfold toSizeT
  omega

end HvVerified.Base
