import HvVerified.Http.HttpService
import HvVerified.Lib.Chunked

/-!
# `http/http_content.cpp`: query parameters

A pointer into the query string is the text from there on, without the terminator, and the null pointer is
the empty text.
-/

namespace HvVerified.Http

open Base Lib List

/-- A text whose length is an `int`, as are the lengths that the loops below count. -/
abbrev IntString := { s : ByteString // s.length < 2 ^ 31 }

/-- The variables of the loop: `key` and `value` are the pointers. -/
structure QueryScan where
  inValue : Bool := false
  key : ByteString
  value : ByteString := []
  keyLen : Nat := 0
  valueLen : Nat := 0

/-- The C string in `std::string(p, len)`, which the terminator ends. There is none if bytes behind the
    terminator are used. -/
def stdString (p : ByteString) (len : Nat) : Option ByteString := if len ≤ p.length + 1 then some (p.take len) else none

variable (q : QueryScan)

/-- The assignment to `query_params`, if there is a key. -/
def QueryScan.store : List (Option ByteString × Option ByteString) :=
  if q.keyLen ≠ 0 then [((stdString q.key q.keyLen).map unescape, (stdString q.value q.valueLen).map unescape)]
  else []

/-- The scan after `&`. -/
def QueryScan.next (p : ByteString) : QueryScan :=
  { q with inValue := false, key := p, keyLen := 0, valueLen := if q.keyLen ≠ 0 then 0 else q.valueLen }

/-- The loop of `parse_query_params`, and of `splitKV` of `cpputil/hstring.cpp`, which has the same variables; the two
    differ in the separators, in what they store and in the variables behind a separator. -/
def scanPairs {α : Type} (kvKv kV : UInt8) (store : QueryScan → List α) (next : QueryScan → ByteString → QueryScan)
    (q : QueryScan) : ByteString → List α
  | [] => store q
  | b :: p =>
    if b = kvKv then store q ++ scanPairs kvKv kV store next (next q p) p
    else if b = kV ∧ q.inValue = false then scanPairs kvKv kV store next { q with inValue := true, value := p } p
    else if q.inValue then scanPairs kvKv kV store next { q with valueLen := q.valueLen + 1 } p
    else scanPairs kvKv kV store next { q with keyLen := q.keyLen + 1 } p

/-- The text behind the first question mark, or all of it. -/
def queryStart (s : ByteString) : ByteString := if 63 ∈ s then (s.dropWhile (· ≠ 63)).tail else s

/-- `parse_query_params`: the assignments to `query_params` in their order. -/
def parseQueryParams (queryString : IntString) : List (Option ByteString × Option ByteString) :=
  scanPairs 38 61 QueryScan.store QueryScan.next { key := queryStart queryString.1 } (queryStart queryString.1)

/-- An assignment to a map; there is none if bytes behind the terminator are used. -/
def storePair (kvs : ByteString → Option ByteString) (pair : Option ByteString × Option ByteString) :
    Option (ByteString → Option ByteString) := do
  let key ← pair.1
  let value ← pair.2
  return Function.update kvs key (some value)

/-- The map after some assignments to an empty one. -/
def storeAll (pairs : List (Option ByteString × Option ByteString)) : Option (ByteString → Option ByteString) :=
  pairs.foldlM storePair fun _ => none

/-! ## `splitKV` -/

/-- The bytes of `std::string(p, len)`, the terminator among them. There are none if bytes behind it are used. -/
def stdBytes (p : ByteString) (len : Nat) : Option ByteString :=
  if len ≤ p.length + 1 then some ((p ++ [0]).take len) else none

/-- The store of `splitKV`. -/
def QueryScan.storeKV : List (Option ByteString × Option ByteString) :=
  if q.keyLen ≠ 0 ∧ q.valueLen ≠ 0 then [(stdBytes q.key q.keyLen, stdBytes q.value q.valueLen)] else []

/-- The scan of `splitKV` after a pair. -/
def QueryScan.nextKV (p : ByteString) : QueryScan :=
  if q.keyLen ≠ 0 ∧ q.valueLen ≠ 0 then { q with inValue := false, key := p, keyLen := 0, valueLen := 0 }
  else { q with inValue := false, key := p }

/-- The stores of `splitKV`, in order. -/
def splitKVStores (str : IntString) (kvKv kV : UInt8) : List (Option ByteString × Option ByteString) :=
  scanPairs kvKv kV QueryScan.storeKV QueryScan.nextKV { key := str.1 } str.1

/-- `splitKV`: the map `kvs`, for a string without a NUL. -/
def splitKV (str : IntString) (kvKv kV : UInt8) : Option (ByteString → Option ByteString) :=
  storeAll (splitKVStores str kvKv kV)

/-! ## `dump_query_params` -/

/-- The bytes that `escape` keeps. -/
def isUnambiguous (c : UInt8) : Bool :=
  (97 ≤ c && c ≤ 122) || (65 ≤ c && c ≤ 90) || isdigit c || c == 45 || c == 95 || c == 46 || c == 126

/-- One turn of the loop of `escape`. -/
def escapeByte (p : UInt8) : ByteString :=
  let tab := ascii "0123456789ABCDEF"
  if isUnambiguous p then [p] else [37, tab.getD (p >>> 4).toNat 0, tab.getD (p &&& 0xF).toNat 0]

/-- `HUrl::escape`, with no other characters to leave as they are -/
def escape (str : ByteString) : ByteString := (cStr str).flatMap escapeByte

/-- One turn of the loop of `dump_query_params`. -/
def dumpPair (queryString : ByteString) (pair : ByteString × ByteString) : ByteString :=
  (if queryString.length ≠ 0 then queryString ++ [38] else queryString) ++ escape pair.1 ++ [61] ++ escape pair.2

/-- `dump_query_params` -/
def dumpQueryParams (queryParams : List (ByteString × ByteString)) : ByteString := queryParams.foldl dumpPair []

/-! ## The reference -/

/-- Percent decoding: a percent sign with two hexadecimal digits stands for a byte, every other byte for itself. -/
def percentDecode : ByteString → ByteString
  | b :: h :: l :: rest =>
    if b = 37 ∧ (hexVal h).isSome ∧ (hexVal l).isSome then
      UInt8.ofNat (16 * (hexVal h).getD 0 + (hexVal l).getD 0) :: percentDecode rest
    else b :: percentDecode (h :: l :: rest)
  | s => s

/-- The key of a piece, in front of its first `k_v`. -/
def keyOf (kV : UInt8) (piece : ByteString) : ByteString := piece.takeWhile (· ≠ kV)

/-- The value of a piece, behind its first `k_v`; empty if there is none. -/
def valueOf (kV : UInt8) (piece : ByteString) : ByteString := (piece.dropWhile (· ≠ kV)).tail

/-- A store into the map. -/
def overwrite (kvs : ByteString → Option ByteString) (pair : ByteString × ByteString) : ByteString → Option ByteString :=
  Function.update kvs pair.1 (some pair.2)

/-- The map of some pairs; a later key overwrites an earlier one. -/
def mapOf (pairs : List (ByteString × ByteString)) : ByteString → Option ByteString := pairs.foldl overwrite fun _ => none

/-- The decoded pairs of the pieces between the ampersands that have a key. -/
def queryPairs (s : ByteString) : List (ByteString × ByteString) :=
  ((s.splitOn 38).filter (keyOf 61 · ≠ [])).map fun piece =>
    (percentDecode (keyOf 61 piece), percentDecode (valueOf 61 piece))

/-- The pair of a piece, if it has a key and a value. -/
def piecePair (kV : UInt8) (piece : ByteString) : List (ByteString × ByteString) :=
  if keyOf kV piece ≠ [] ∧ valueOf kV piece ≠ [] then [(keyOf kV piece, valueOf kV piece)] else []

/-- The pairs of a text without empty keys and values. -/
def kvPairs (str : ByteString) (kvKv kV : UInt8) : List (ByteString × ByteString) :=
  (str.splitOn kvKv).flatMap (piecePair kV)

/-- What `splitKV` is for. -/
def splitKVRef (str : ByteString) (kvKv kV : UInt8) : ByteString → Option ByteString := mapOf (kvPairs str kvKv kV)

end HvVerified.Http
