import HvVerified.Base.Hmath
import HvVerified.Lib.Memory

/-!
# `mqtt/mqtt_protocol.h`: packets

A `std::string` and a `mqtt_str_t` are lists of bytes. The memory around a packet is a function from
addresses relative to its first byte, so that a pointer that leaves the packet, in either direction,
still has a meaning.
-/

namespace HvVerified.Mqtt

open Base Lib

/-- The bytes of a string, which may contain zeros. -/
abbrev StdString := List UInt8

/-- `mqtt_type_e`. The four bits of a header can also be 0, which has no name in the source. -/
inductive MqttType where
  | reserved
  | connect
  | connack
  | publish
  | puback
  | pubrec
  | pubrel
  | pubcomp
  | subscribe
  | suback
  | unsubscribe
  | unsuback
  | pingreq
  | pingresp
  | disconnect
  | auth
  deriving DecidableEq, Repr

/-- The number of a type in the first byte of a packet. -/
def MqttType.code : MqttType → Nat
  | reserved => 0
  | connect => 1
  | connack => 2
  | publish => 3
  | puback => 4
  | pubrec => 5
  | pubrel => 6
  | pubcomp => 7
  | subscribe => 8
  | suback => 9
  | unsubscribe => 10
  | unsuback => 11
  | pingreq => 12
  | pingresp => 13
  | disconnect => 14
  | auth => 15

/-- The type in the first byte of a packet. -/
def MqttType.ofCode : Nat → MqttType
  | 1 => connect
  | 2 => connack
  | 3 => publish
  | 4 => puback
  | 5 => pubrec
  | 6 => pubrel
  | 7 => pubcomp
  | 8 => subscribe
  | 9 => suback
  | 10 => unsubscribe
  | 11 => unsuback
  | 12 => pingreq
  | 13 => pingresp
  | 14 => disconnect
  | 15 => auth
  | _ => reserved

/-- `mqtt_connack_e`: the answers to a CONNECT packet. -/
inductive MqttConnack where
  | accepted
  | refusedProtocolVersion
  | refusedIdentifierRejected
  | refusedServerUnavailable
  | refusedBadUsernamePassword
  | refusedNotAuthorized
  deriving DecidableEq, Repr

/-- The return code in the CONNACK packet. -/
def MqttConnack.code : MqttConnack → UInt8
  | accepted => 0
  | refusedProtocolVersion => 1
  | refusedIdentifierRejected => 2
  | refusedServerUnavailable => 3
  | refusedBadUsernamePassword => 4
  | refusedNotAuthorized => 5

def mqttProtocolV311 : Nat := 4
def mqttProtocolV5 : Nat := 5

instance qosNeZero : NeZero 4 := ⟨by decide⟩

/-- `mqtt_head_t`; `length` is an `unsigned int`. -/
structure MqttHead where
  type : MqttType
  dup : Bool := false
  qos : Fin 4 := 0
  retain : Bool := false
  length : Nat := 0
  deriving DecidableEq, Repr

/-- `mqtt_head_pack` -/
def mqttHeadPack (head : MqttHead) : List UInt8 :=
  UInt8.ofNat (head.type.code * 16 + head.dup.toNat * 8 + head.qos * 2 + head.retain.toNat) ::
    varintEncode head.length

/-- `mqtt_head_unpack`, with its result, which is not positive if the length is not complete. -/
def mqttHeadUnpack (buf : BytePtr) (len : Int) : MqttHead × Int :=
  let b := (buf 0).toNat
  let (length, bytes) := varintDecode (fun i => buf (i + 1)) (len - 1)
  let head : MqttHead := {
    type := .ofCode (b / 16)
    dup := b / 8 % 2 = 1
    qos := ⟨b / 2 % 4, Nat.mod_lt _ (by decide)⟩
    retain := b % 2 = 1
    length := length.toNat % 2 ^ 32 }
  (head, if bytes ≤ 0 then bytes else 1 + bytes)

/-- `mqtt_conn_t`: what a CONNECT packet says, for `onAuth`. -/
structure MqttConn where
  protocol : StdString
  version : Nat
  connFlag : UInt8
  keepalive : Nat
  clientId : StdString
  willTopic : StdString := []
  willPayload : StdString := []
  userName : StdString := []
  password : StdString := []
  deriving DecidableEq, Repr

variable (conn : MqttConn)

/-- The flags of the CONNECT packet that announce a will, a password and a user name. -/
def MqttConn.hasWill : Bool := conn.connFlag &&& 0x04 ≠ 0
def MqttConn.hasPassword : Bool := conn.connFlag &&& 0x40 ≠ 0
def MqttConn.hasUsername : Bool := conn.connFlag &&& 0x80 ≠ 0

/-- `mqtt_message_t`, with the bytes that its pointers stand for; `qos` is an `unsigned char`. -/
structure MqttMessage where
  topic : StdString
  payload : StdString
  qos : Nat
  retain : Bool
  prop : StdString
  deriving DecidableEq, Repr

/-! ## Reading and writing -/

/-- The memory around a packet, by the distance from its first byte. -/
abbrev PacketMem := Int → UInt8

variable (mem : PacketMem)

/-- The pointer `p` as an array. -/
def PacketMem.ptr (p : Int) : BytePtr := fun i => mem (p + i)

/-- The `n` bytes from `p` on. -/
def PacketMem.bytes (p : Int) (n : Nat) : List UInt8 := slice (mem.ptr p) 0 n

/-- `POP16`: a number in two bytes, and the pointer behind it. -/
def pop16 (p : Int) : Nat × Int :=
  ((mem p).toNat * 256 + (mem (p + 1)).toNat, p + 2)

/-- `POPSTR`: a string behind its length, and the pointer behind it. Nothing is checked. -/
def popStr (p : Int) : StdString × Int :=
  let (len, p) := pop16 mem p
  (mem.bytes p len, p + len)

/-- `PUSH16` -/
def push16 (v : Nat) : List UInt8 := [UInt8.ofNat (v / 256), UInt8.ofNat v]

/-- A packet in a memory that is zero around it. -/
def PacketMem.ofList (packet : List UInt8) : PacketMem
  | .ofNat i => packet.getD i 0
  | .negSucc _ => 0

end HvVerified.Mqtt
