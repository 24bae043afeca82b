import HvVerified.Mqtt.Server

/-!
# `mqtt/mqtt_server.cpp`: where the strings of a packet lie

The walk of `onMqttMessage` over the body of a packet, with the addresses of the strings instead of
their bytes. It ends early where the handler returns before it has used a string, and where
it follows the null pointer that `parseProp` returns for a malformed length.
-/

namespace HvVerified.Mqtt

open Base Lib

/-- `mqtt_str_t`: an address and a length. -/
structure Slice where
  start : Int
  len : Nat
  deriving DecidableEq, Repr

variable (mem : PacketMem)

/-- The bytes of a string in the memory. -/
def Slice.read (slice : Slice) : StdString := mem.bytes slice.start slice.len

/-- Why the walk ends early. -/
inductive Stop where
  | rejected
  | null
  deriving DecidableEq, Repr

/-- `POPSTR`: the place of a string, and the pointer behind it. -/
def popSlice (p : Int) : Slice × Int :=
  let (len, p) := pop16 mem p
  ({ start := p, len }, p + len)

/-- The length of a property as an `int`. -/
def propLen (p : Int) : Int := Int.bmod (varintDecode (mem.ptr p) 0).1.toNat (2 ^ 32)

/-- How many bytes the length takes up, not positive if it is malformed. -/
def propBytes (p : Int) : Int := (varintDecode (mem.ptr p) 0).2

/-- The length of a property as an `unsigned short`. -/
def propStrLen (p : Int) : Nat := (propLen mem p % 2 ^ 16).toNat

variable (version : Nat)

/-- `MqttSession::parseProp` -/
def propSlice (mem : PacketMem) (p : Int) : Except Stop (Option Slice × Int) :=
  if version ≠ mqttProtocolV5 then .ok (none, p)
  else if propBytes mem p ≤ 0 then .error .null
  else
    .ok (some { start := p + propBytes mem p, len := propStrLen mem p }, p + propBytes mem p + propLen mem p)

/-- A string that must end within the packet. -/
def checkedSlice (p pend : Int) : Except Stop (Slice × Int) :=
  let (slice, p) := popSlice mem p
  if p > pend then .error .rejected else .ok (slice, p)

/-- The strings of a will. -/
structure WillSlices where
  prop : Option Slice
  topic : Slice
  payload : Slice
  deriving DecidableEq, Repr

/-- The part of the walk over a CONNECT packet that reads the will. -/
def willSlices (mem : PacketMem) (p pend : Int) : Except Stop (WillSlices × Int) := do
  let (prop, p) ← propSlice version mem p
  let (topic, p) ← checkedSlice mem p pend
  let (payload, p) ← checkedSlice mem p pend
  return ({ prop, topic, payload }, p)

/-- A part of a CONNECT packet that its flags announce. -/
def whenPresent {α : Type} (present : Bool) (p : Int) (part : Except Stop (α × Int)) :
    Except Stop (Option α × Int) :=
  if present then part.map fun (a, p) => (some a, p) else .ok (none, p)

/-- The strings of a CONNECT packet but for the name of the protocol. -/
structure ConnectSlices where
  clientId : Slice
  will : Option WillSlices
  userName : Option Slice
  password : Option Slice
  deriving DecidableEq, Repr

/-- The walk over a CONNECT packet. -/
def connectSlices (p pend : Int) : Except Stop ConnectSlices := do
  let (_, p) := popSlice mem p
  let version := (mem p).toNat
  let connFlag := mem (p + 1)
  let (_, p) := pop16 mem (p + 2)
  let (_, p) ← propSlice version mem p
  let (clientId, p) ← checkedSlice mem p pend
  let (will, p) ← whenPresent (connFlag &&& 0x04 ≠ 0) p (willSlices version mem p pend)
  let (userName, p) ← whenPresent (connFlag &&& 0x80 ≠ 0) p (checkedSlice mem p pend)
  let (password, _) ← whenPresent (connFlag &&& 0x40 ≠ 0) p (checkedSlice mem p pend)
  return { clientId, will, userName, password }

/-- The strings of a PUBLISH packet; the length of the payload is an `unsigned int`. -/
structure PublishSlices where
  topic : Slice
  prop : Option Slice
  payload : Slice
  deriving DecidableEq, Repr

/-- The walk over a PUBLISH packet. -/
def publishSlices (head : MqttHead) (mem : PacketMem) (p : Int) : Except Stop PublishSlices :=
  if head.length < 2 then .error .rejected
  else
    let pend := p + head.length
    let (topic, p) := popSlice mem p
    if head.qos.val > 0 ∧ pend - p < 2 then .error .rejected
    else do
      let (_, p) := if head.qos.val > 0 then pop16 mem p else (0, p)
      let (prop, p) ← propSlice version mem p
      return { topic, prop, payload := { start := p, len := ((pend - p) % 2 ^ 32).toNat } }

/-- The filter of a SUBSCRIBE or UNSUBSCRIBE packet. -/
def filterSlice (mem : PacketMem) (p : Int) : Except Stop Slice := do
  let (_, p) := pop16 mem p
  let (_, p) ← propSlice version mem p
  return (popSlice mem p).1

/-- The strings of a packet that is handled. -/
inductive PacketSlices where
  | connect (slices : ConnectSlices)
  | publish (slices : PublishSlices)
  | filter (topic : Slice)
  | nothing
  deriving DecidableEq, Repr

/-- The walk over a packet of a session with the given version. -/
def packetSlices (packet : Packet) : Except Stop PacketSlices :=
  let { head, mem, p, .. } := packet
  match head.type with
  | .connect => (connectSlices mem p (p + head.length)).map .connect
  | .publish => (publishSlices version head mem p).map .publish
  | .subscribe | .unsubscribe =>
    if head.length > 1 then (filterSlice version mem p).map .filter else .ok .nothing
  | _ => .ok .nothing

end HvVerified.Mqtt
