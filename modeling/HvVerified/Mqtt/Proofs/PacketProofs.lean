import HvVerified.Base.Proofs.HmathProofs
import HvVerified.Mqtt.MqttClient
import HvVerified.Mqtt.Server

/-!
# Proofs: packets written and read

A header that was packed is unpacked again, whatever follows it (`mqttHeadUnpack_pack`). A stream of
packets is therefore cut into just these packets (`clientPackets_append`).
-/

namespace HvVerified.Mqtt

open Base Lib List PacketMem

/-! ## Memory that holds a list -/

section Memory

variable {l : List UInt8} {p n : Nat}

theorem PacketMem.ofList_nat (l : List UInt8) (i : Nat) : ofList l i = l.getD i 0 := rfl

theorem PacketMem.ptr_zero_ofList (l : List UInt8) (i : Nat) : (ofList l).ptr 0 i = l.getD i 0 := by
  rw [ptr, Int.zero_add, ofList_nat]

theorem push16_toNat {v : Nat} (hv : v < 2 ^ 16) :
    (UInt8.ofNat (v / 256)).toNat * 256 + (UInt8.ofNat v).toNat = v := by
  rw [UInt8.toNat_ofNat', UInt8.toNat_ofNat']
  omega

end Memory

/-! ## Headers -/

theorem MqttType.ofCode_code (type : MqttType) : MqttType.ofCode type.code = type := by
  cases type <;> rfl

section Header

variable {head : MqttHead} {rest : List UInt8}

theorem headByte_toNat (head : MqttHead) :
    (UInt8.ofNat (head.type.code * 16 + head.dup.toNat * 8 + head.qos * 2 + head.retain.toNat)).toNat =
      head.type.code * 16 + head.dup.toNat * 8 + head.qos * 2 + head.retain.toNat := by
  have hcode : head.type.code ≤ 15 := by cases head.type <;> decide
  have hdup := head.dup.toNat_le
  have hretain := head.retain.toNat_le
  rw [UInt8.toNat_ofNat']
  omega

theorem mqttHeadUnpack_pack (hlength : head.length < 2 ^ 32) {len : Nat}
    (hlen : (mqttHeadPack head).length ≤ len) {buf : BytePtr}
    (hbuf : ∀ i b, (mqttHeadPack head)[i]? = some b → buf i = b) :
    mqttHeadUnpack buf len = (head, ((mqttHeadPack head).length : Int)) := by
  have hpack : (mqttHeadPack head).length = (varintEncode head.length).length + 1 := rfl
  have hfirst : (buf 0).toNat = head.type.code * 16 + head.dup.toNat * 8 + head.qos * 2 +
      head.retain.toNat := by rw [hbuf 0 _ rfl, headByte_toNat]
  have hvarint := isVarint_encode (hlength.trans (by decide))
  have hpos := hvarint.1.length_pos
  obtain ⟨hbytes, hvalue⟩ := (decodes_varint hvarint).complete (fun i => buf (i + 1)) ((len : Int) - 1)
    (fun i b hb => hbuf (i + 1) b (by simpa [mqttHeadPack] using hb)) (.inr (by omega))
  have hdup := head.dup.toNat_le
  have hretain := head.retain.toNat_le
  have hqos := head.qos.isLt
  unfold mqttHeadUnpack
  dsimp only
  rw [hbytes, hvalue, if_neg (by omega), hpack]
  obtain ⟨type, dup, qos, retain, length⟩ := head
  dsimp only at hfirst hdup hretain hqos ⊢
  simp only [Prod.mk.injEq, MqttHead.mk.injEq]
  refine ⟨⟨?_, ?_, ?_, ?_, ?_⟩, by push_cast; omega⟩
  · rw [show (buf 0).toNat / 16 = type.code by omega]
    exact type.ofCode_code
  · rw [show (buf 0).toNat / 8 % 2 = dup.toNat by omega]
    cases dup <;> rfl
  · exact Fin.ext (by dsimp only; omega)
  · rw [show (buf 0).toNat % 2 = retain.toNat by omega]
    cases retain <;> rfl
  · dsimp only at hlength
    omega

theorem two_le_headlen {buf : BytePtr} {len : Int} (h : (mqttHeadUnpack buf len).2 > 0) :
    2 ≤ (mqttHeadUnpack buf len).2 := by
  unfold mqttHeadUnpack at h ⊢
  dsimp only at h ⊢
  split_ifs at h ⊢ <;> omega

theorem mqttHeadUnpack_ofList (hlength : head.length < 2 ^ 32) {l : List UInt8} (hl : mqttHeadPack head <+: l) :
    mqttHeadUnpack ((ofList l).ptr 0) l.length = (head, ((mqttHeadPack head).length : Int)) := by
  refine mqttHeadUnpack_pack hlength hl.length_le ?_
  intro i b hb
  obtain ⟨rest, rfl⟩ := hl
  have hi : i < (mqttHeadPack head).length := (List.getElem?_eq_some_iff.1 hb).1
  rw [ptr_zero_ofList, List.getD_eq_getElem?_getD, List.getElem?_append_left hi, hb]
  rfl

theorem not_wholePacket_of_short (hlength : head.length < 2 ^ 32) {q : List UInt8}
    (hq : q <+: mqttHeadPack head) (hlt : q.length < (mqttHeadPack head).length) : wholePacket q = false := by
  unfold wholePacket
  rw [Bool.and_eq_false_iff]
  by_cases hone : q.length ≤ 1
  · by_cases hpos : (mqttHeadUnpack ((ofList q).ptr 0) q.length).2 > 0
    · have := two_le_headlen hpos
      exact .inr (decide_eq_false (by omega))
    · exact .inl (decide_eq_false hpos)
  · left
    have hpack : (mqttHeadPack head).length = (varintEncode head.length).length + 1 := rfl
    have hincomplete := (decodes_varint (isVarint_encode (hlength.trans (by decide)))).incomplete
      (fun i => (ofList q).ptr 0 (i + 1)) ((q.length : Int) - 1) (by
        intro i b hi hb
        obtain ⟨rest, hrest⟩ := hq
        have hiq : i + 1 < q.length := by omega
        rw [ptr_zero_ofList, getD_eq_getElem?_getD]
        have hget : (q ++ rest)[i + 1]? = some b := by
          rw [hrest]
          simpa [mqttHeadPack] using hb
        rw [getElem?_append_left hiq] at hget
        rw [hget]
        rfl) (by omega) (by omega)
    refine decide_eq_false ?_
    unfold mqttHeadUnpack
    rw [hincomplete]
    simp

theorem clientPackets_append (hlength : head.length < 2 ^ 32) {body : List UInt8}
    (hbody : body.length = head.length) (stream : List UInt8) :
    clientPackets ((mqttHeadPack head ++ body) ++ stream) =
      (mqttHeadPack head ++ body) :: clientPackets stream := by
  have hwhole : wholePacket (mqttHeadPack head ++ body) := by
    unfold wholePacket
    rw [mqttHeadUnpack_ofList hlength (prefix_append _ _)]
    simp [hbody, mqttHeadPack]
    omega
  have hpending : Pending wholePacket (mqttHeadPack head ++ body).dropLast := by
    intro q hq hpre
    have hlt : q.length < (mqttHeadPack head ++ body).length := by
      have := hpre.length_le
      rw [length_dropLast] at this
      have hne : 0 < (mqttHeadPack head ++ body).length := by simp [mqttHeadPack]
      omega
    have hprefix : q <+: mqttHeadPack head ++ body := hpre.trans ( dropLast_prefix _)
    by_cases hhead : q.length < (mqttHeadPack head).length
    · exact not_wholePacket_of_short hlength
        (prefix_of_prefix_length_le hprefix (prefix_append _ _) (Nat.le_of_lt hhead)) hhead
    · -- the header is there, and it announces more bytes than follow
      have hpack := prefix_of_prefix_length_le (prefix_append _ _) hprefix (Nat.not_lt.1 hhead)
      unfold wholePacket
      rw [mqttHeadUnpack_ofList hlength hpack]
      rw [length_append, hbody] at hlt
      rw [Bool.and_eq_false_iff]
      exact .inr (decide_eq_false (by omega))
  unfold clientPackets
  rw [cut_of_full hwhole (by simp [mqttHeadPack]) hpending]

end Header

end HvVerified.Mqtt
