import Mathlib.Data.Nat.Digits.Defs

/-!
# The chunked transfer coding

A body is sent as a sequence of chunks: the size of the chunk in hexadecimal, a line end, that many
bytes and another line end. A chunk of size zero, trailer lines and an empty line end the body.
`decodeChunked` reads one such body from the front of a byte string and returns the bytes of the body
and what follows it.
-/

namespace HvVerified.Lib

open List

/-- The end of a line. -/
def crlf : List UInt8 := [13, 10]

/-- The digit of `d`, in lower case. -/
def hexDigit (d : Nat) : UInt8 := if d < 10 then UInt8.ofNat (48 + d) else UInt8.ofNat (87 + d)

/-- The hexadecimal text of `n`. -/
def hex (n : Nat) : List UInt8 := if n = 0 then [48] else (Nat.digits 16 n).reverse.map hexDigit

/-- The value of a digit. -/
def hexVal (b : UInt8) : Option Nat :=
  if 48 ≤ b ∧ b ≤ 57 then some (b.toNat - 48)
  else if 97 ≤ b ∧ b ≤ 102 then some (b.toNat - 87)
  else if 65 ≤ b ∧ b ≤ 70 then some (b.toNat - 55)
  else none

/-- The chunk of `d`. -/
def chunk (d : List UInt8) : List UInt8 := hex d.length ++ crlf ++ d ++ crlf

/-- The states of the decoder. -/
inductive ChunkedState where
  /-- digits of a chunk size; `seen` says that there was one -/
  | size (value : Nat) (seen : Bool)
  /-- the rest of a size line -/
  | extension (value : Nat)
  | sizeLf (value : Nat)
  /-- the bytes of a chunk, `left + 1` of them -/
  | data (left : Nat)
  | dataCr
  | dataLf
  /-- the first byte of a line of the trailer -/
  | lineStart
  | line
  | lineLf
  | lastLf
  deriving DecidableEq, Repr

/-- What follows a size line. -/
def ChunkedState.afterSize : Nat → ChunkedState
  | 0 => .lineStart
  | n + 1 => .data n

/-- What follows one byte of a chunk that has `left` more. -/
def ChunkedState.afterData : Nat → ChunkedState
  | 0 => .dataCr
  | n + 1 => .data n

/-- The decoder, one byte at a time. It returns the decoded bytes and the rest of the input, and fails
    on malformed input and on input that ends before the body does. -/
def decodeFrom : ChunkedState → List UInt8 → Option (List UInt8 × List UInt8)
  | _, [] => none
  | .size value seen, b :: bs =>
    match hexVal b with
    | some d => decodeFrom (.size (value * 16 + d) true) bs
    | none =>
      if !seen then none
      else if b = 13 then decodeFrom (.sizeLf value) bs
      else if b = 59 ∨ b = 32 ∨ b = 9 then decodeFrom (.extension value) bs
      else none
  | .extension value, b :: bs => decodeFrom (if b = 13 then .sizeLf value else .extension value) bs
  | .sizeLf value, b :: bs => if b = 10 then decodeFrom (.afterSize value) bs else none
  | .data left, b :: bs => (decodeFrom (.afterData left) bs).map (Prod.map (b :: ·) id)
  | .dataCr, b :: bs => if b = 13 then decodeFrom .dataLf bs else none
  | .dataLf, b :: bs => if b = 10 then decodeFrom (.size 0 false) bs else none
  | .lineStart, b :: bs => decodeFrom (if b = 13 then .lastLf else .line) bs
  | .line, b :: bs => decodeFrom (if b = 13 then .lineLf else .line) bs
  | .lineLf, b :: bs => if b = 10 then decodeFrom .lineStart bs else none
  | .lastLf, b :: bs => if b = 10 then some ([], bs) else none

/-- The body of a chunked stream and the bytes behind it. -/
def decodeChunked (bs : List UInt8) : Option (List UInt8 × List UInt8) := decodeFrom (.size 0 false) bs

/-! ## Sizes -/

theorem hexVal_hexDigit : ∀ d < 16, hexVal (hexDigit d) = some d := by decide

theorem decodeFrom_digits {ds : List Nat} (hds : ∀ d ∈ ds, d < 16) (value : Nat) (seen : Bool) (tail : List UInt8)
    (hseen : seen ∨ ds ≠ []) : decodeFrom (.size value seen) (ds.map hexDigit ++ tail) =
      decodeFrom (.size (ds.foldl (fun v d => v * 16 + d) value) true) tail := by
  induction ds generalizing value seen with
  | nil =>
    rcases hseen with rfl | hne
    · rfl
    · exact absurd rfl hne
  | cons d ds ih =>
    have hd := hexVal_hexDigit d (hds d mem_cons_self)
    rw [map_cons, cons_append, decodeFrom, hd]
    exact ih (fun x hx => hds x (mem_cons_of_mem d hx)) _ true (.inl rfl)

theorem foldl_digits (n : Nat) : (Nat.digits 16 n).reverse.foldl (fun v d => v * 16 + d) 0 = n := by
  rw [foldl_reverse]
  have h := Nat.ofDigits_eq_foldr 16 (Nat.digits 16 n)
  rw [Nat.ofDigits_digits] at h
  conv_rhs => rw [h]
  congr 1
  funext d v
  simp [Nat.mul_comm, Nat.add_comm]

theorem decodeFrom_hex (n : Nat) (tail : List UInt8) :
    decodeFrom (.size 0 false) (hex n ++ tail) = decodeFrom (.size n true) tail := by
  unfold hex
  split_ifs with h
  · subst h
    rfl
  · have hds : ∀ d ∈ (Nat.digits 16 n).reverse, d < 16 := fun d hd =>
      Nat.digits_lt_base (by decide) (mem_reverse.1 hd)
    rw [decodeFrom_digits hds 0 false tail (.inr (by simp [Nat.digits_eq_nil_iff_eq_zero, h])), foldl_digits]

theorem decodeChunked_size (n : Nat) (tail : List UInt8) :
    decodeChunked (hex n ++ crlf ++ tail) = decodeFrom (.afterSize n) tail := by
  rw [decodeChunked, append_assoc, decodeFrom_hex]
  rfl

/-! ## Whole chunks -/

theorem decodeFrom_data (d tail : List UInt8) (left : Nat) (h : d.length = left + 1) :
    decodeFrom (.data left) (d ++ tail) = (decodeFrom .dataCr tail).map (Prod.map (d ++ ·) id) := by
  induction left generalizing d with
  | zero =>
    obtain ⟨b, rfl⟩ := length_eq_one_iff.1 h
    rfl
  | succ left ih =>
    cases d with
    | nil => simp at h
    | cons b d =>
      rw [cons_append, decodeFrom, ChunkedState.afterData, ih d (by simpa using h), Option.map_map]
      rfl

theorem decodeChunked_chunk {d : List UInt8} (hd : d ≠ []) (tail : List UInt8) :
    decodeChunked (chunk d ++ tail) = (decodeChunked tail).map (Prod.map (d ++ ·) id) := by
  obtain ⟨left, hleft⟩ : ∃ left, d.length = left + 1 := ⟨d.length - 1, by
    have := length_pos_iff.2 hd
    omega⟩
  have hassoc : chunk d ++ tail = hex d.length ++ crlf ++ (d ++ (crlf ++ tail)) := by simp [chunk]
  rw [hassoc, decodeChunked_size, hleft]
  exact decodeFrom_data d (crlf ++ tail) left hleft

theorem decodeChunked_last (tail : List UInt8) : decodeChunked (chunk [] ++ tail) = some ([], tail) := by
  have hassoc : chunk [] ++ tail = hex 0 ++ crlf ++ (crlf ++ tail) := by simp [chunk]
  rw [hassoc, decodeChunked_size]
  rfl

theorem decodeChunked_chunks {ds : List (List UInt8)} (hds : ∀ d ∈ ds, d ≠ []) (tail : List UInt8) :
    decodeChunked (ds.flatMap chunk ++ (chunk [] ++ tail)) = some (ds.flatten, tail) := by
  induction ds with
  | nil => exact decodeChunked_last tail
  | cons d ds ih =>
    rw [flatMap_cons, append_assoc, decodeChunked_chunk (hds d mem_cons_self),
      ih fun x hx => hds x (mem_cons_of_mem d hx)]
    rfl

theorem length_lt_of_decodeFrom {st : ChunkedState} {bs d rest : List UInt8}
    (h : decodeFrom st bs = some (d, rest)) : d.length + rest.length < bs.length := by
  fun_induction decodeFrom st bs generalizing d rest with
  | case10 left b bs ih =>
    obtain ⟨⟨d', rest'⟩, hd, heq⟩ := Option.map_eq_some_iff.1 h
    cases heq
    have hlt := ih hd
    simp only [length_cons, id_eq]
    omega
  | case19 bs =>
    cases h
    simp
  -- the other bytes are not part of the body
  | case3 | case6 | case9 | case12 | case14 | case18 | case20 | case1 => cases h
  | case2 _ _ _ _ _ _ ih | case4 _ _ _ _ _ ih | case5 _ _ _ _ _ _ _ _ ih | case7 _ _ _ ih | case8 _ _ ih
  | case11 _ ih | case13 _ ih | case15 _ _ ih | case16 _ _ ih | case17 _ ih => exact Nat.lt_succ_of_lt (ih h)

end HvVerified.Lib
