import HvVerified.Event.Unpack

/-!
# Progress of `hio_unpack`

What it means that a call of `hio_unpack` makes progress, and the condition on the setting and the
received bytes under which it does.
-/

namespace HvVerified.Event

open Lib Base

/-- A call of `hio_unpack`: the setting has been accepted by `hio_set_unpack`, the io is open, and the
    last `readbytes` bytes of `[head, tail)` have just been received. -/
structure UnpackCall where
  setting : UnpackSetting
  io : Hio
  readbytes : Nat
  accepted : ∃ io0 raw io1, hioSetUnpack io0 raw = .ok io1 ∧ io1.unpackSetting = some setting
  opened : io.closed = false
  received : io.readbuf.head + readbytes ≤ io.readbuf.tail
  fits : io.readbuf.tail ≤ io.readbuf.len ∧ io.readbuf.len < 2 ^ 31

/-- Every iteration of the loop that does not leave it consumes at least one byte, and passes no empty
    package to `read_cb`. -/
def Consumes {σ ρ : Type} (body : σ → LoopStep σ ρ) (remain : σ → Int) (io : σ → Hio) (s0 : σ) : Prop :=
  ∀ s s', LoopHead body s0 s → body s = .next s' →
    remain s' < remain s ∧ ∀ package, (io s').readCbs = (io s).readCbs ++ [package] → package ≠ []

variable (c : UnpackCall)

/-- The iterations of the package loop of the call. Without a mode there is no loop, and the received
    bytes are the package. -/
def UnpackCall.LoopConsumes : Prop :=
  match c.setting.mode with
  | .none =>
    ∀ fuel io' n, hioUnpack fuel c.setting c.io c.readbytes = .ok (io', n) →
      ∀ package, io'.readCbs = c.io.readCbs ++ [package] → package ≠ []
  | .byFixedLength fixedLength =>
    Consumes (fixedLengthIter fixedLength.toNat) (fun s => s.remain) (fun s => s.io)
      (packageLoopEntry c.io)
  | .byDelimiter s =>
    Consumes (delimiterIter s) (fun s => s.remain) (fun s => s.io)
      (delimiterLoopEntry s c.io c.readbytes)
  | .byLengthField s =>
    Consumes (lengthFieldIter s) (fun s => s.remain) (fun s => s.io) (lengthFieldLoopEntry s c.io)

/-- The call returns, and each package moves its loop forward. -/
def UnpackCall.Progress : Prop :=
  (∃ fuel, hioUnpack fuel c.setting c.io c.readbytes ≠ .error .outOfFuel) ∧ c.LoopConsumes

/-! ## When there is progress -/

/-- At offset `p`, where `remain` bytes are left, there is a header with the given lengths. -/
def HeaderAt (s : LengthFieldSetting) (base : BytePtr) (p remain : Nat) (headLen bodyLen : UInt32) :
    Prop :=
  s.bodyOffset.toNat ≤ remain ∧
    readLengthField s (fun i => base (p + s.lengthFieldOffset.toNat + i))
      (remain - s.lengthFieldOffset.toNat) = .ok headLen bodyLen

/-- The offsets at which a package begins, with the bytes left there, when the lengths in the headers
    are followed from `p0` on. Lengths are added modulo `2^32`. -/
inductive Boundary (s : LengthFieldSetting) (base : BytePtr) (p0 remain0 : Nat) : Nat → Nat → Prop where
  | first : Boundary s base p0 remain0 p0 remain0
  | next {p remain len : Nat} {headLen bodyLen : UInt32} (h : Boundary s base p0 remain0 p remain)
      (hh : HeaderAt s base p remain headLen bodyLen)
      (hlen : (len : Int) = (headLen.toNat + bodyLen.toNat + s.lengthAdjustment.toInt) % 2 ^ 32)
      (hle : len ≤ remain) : Boundary s base p0 remain0 (p + len) (remain - len)

/-- No package of the received bytes has length 0: the delimiter is not empty, and no header that is
    met has lengths whose sum is a multiple of `2^32`. -/
def UnpackCall.NonzeroLengths : Prop :=
  match c.setting.mode with
  | .none => c.readbytes ≠ 0
  | .byFixedLength _ => True
  | .byDelimiter s => s.delimiterBytes ≠ 0 ∨ c.readbytes = 0
  | .byLengthField s =>
    ∀ p remain headLen bodyLen,
      Boundary s c.io.readbuf.base c.io.readbuf.head (c.io.readbuf.tail - c.io.readbuf.head) p remain →
      HeaderAt s c.io.readbuf.base p remain headLen bodyLen →
      ¬ (2 ^ 32 : Int) ∣ headLen.toNat + bodyLen.toNat + s.lengthAdjustment.toInt

end HvVerified.Event
