import HvVerified.Base.Hstring
import HvVerified.Lib.Chunked

/-!
# `http/WebSocketParser.cpp` and `http/Http1Parser.cpp`: room for an announced size

Before the bytes of a frame, a chunk or a body arrive, the callbacks reserve room for the size that the
peer has announced. Two of them compute the room in `int`, where a sum that overflows has no result. What is
here is the argument of `std::string::reserve`, if it is called.
-/

namespace HvVerified.Http

open Base Lib

/-- `MAX_PAYLOAD_LENGTH` -/
def maxPayloadLength : Nat := 1 <<< 24

/-- `MAX_CONTENT_LENGTH` -/
def maxContentLength : Nat := 1 <<< 24

/-- The conversion of a size to `int`. -/
def sizeToInt (n : Nat) : Int := Int.bmod n (2 ^ 32)

/-- `MIN(size + 1, limit)` in `int`, converted to `size_t`. -/
def reserveLength (limit size : Nat) : Option Nat :=
  let length := sizeToInt size
  if length + 1 < 2 ^ 31 then some (toSizeT (min (length + 1) limit)) else none

/-- The argument of `reserve` for a string with the given capacity. -/
def reserveCall (reserve capacity : Nat) : Option Nat := if reserve > capacity then some reserve else none

/-- `on_frame_header` -/
def frameReserve (length capacity : Nat) : Option (Option Nat) :=
  (reserveLength maxPayloadLength length).map (reserveCall · capacity)

/-- `on_chunk_header` -/
def chunkReserve (chunkSize capacity : Nat) : Option (Option Nat) :=
  (reserveLength maxContentLength chunkSize).map (reserveCall · capacity)

/-- `on_headers_complete` for the value of a Content-Length header -/
def headersReserve (value : ByteString) (skipBody : Bool) (capacity : Nat) : Option Nat :=
  let contentLength := toSizeT (atoll (cStr value))
  let reserveLength := min ((contentLength + 1) % 2 ^ 64) maxContentLength
  if skipBody then none else reserveCall reserveLength capacity

/-! ## Chunk sizes -/

/-- `s_chunk_size` of `http_parser_execute` after the first digit: the size when the line ends or a
    parameter begins -/
def chunkSizeLoop (contentLength : Nat) : ByteString → Option Nat
  | [] => none
  | ch :: rest =>
    if ch = 13 then some contentLength
    else
      match hexVal ch with
      | none => if ch = 59 ∨ ch = 32 then some contentLength else none
      | some digit =>
        if (2 ^ 64 - 1 - 16) / 16 < contentLength then none
        else chunkSizeLoop ((contentLength * 16 + digit) % 2 ^ 64) rest

/-- `s_chunk_size_start` and `s_chunk_size`: the size that the line announces, if it is accepted -/
def chunkSize : ByteString → Option Nat
  | [] => none
  | ch :: rest => (hexVal ch).bind fun digit => chunkSizeLoop digit rest

end HvVerified.Http
