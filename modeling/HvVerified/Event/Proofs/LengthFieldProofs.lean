import HvVerified.Event.Unpack
import HvVerified.Base.Proofs.HmathProofs

/-!
# Proofs: reading the length field of a frame

For a byte string that starts with a frame, `readLengthField` and `packageLen` compute the length
of that frame; for a proper prefix of a frame they either do so too, or report that the length
field is not complete.
-/

namespace HvVerified.Event

open Base Lib List

variable {lp : BytePtr} {w f : List UInt8} {n v remain : Nat} {avail : Int}

/-- The bytes behind the pointer `lp` start with `c`. -/
def BytesAt (lp : BytePtr) (w : List UInt8) : Prop := ∀ i b, w[i]? = some b → lp i = b

theorem BytesAt.eq_map (h : BytesAt lp w) : (range w.length).map lp = w := by
  apply ext_getElem?
  intro i
  by_cases hi : i < w.length
  · have hc := getElem?_eq_getElem hi
    rw [getElem?_map, getElem?_range hi, hc]
    exact congrArg some (h i _ hc)
  · rw [getElem?_eq_none (by simp; omega), getElem?_eq_none (by omega)]

/-! ## Fixed-width fields -/

theorem shift8_or_toNat32 (x : UInt32) (b : UInt8) :
    ((x <<< 8) ||| b.toUInt32).toNat = (256 * x.toNat + b.toNat) % 2 ^ 32 := by
  rw [UInt32.toNat_or, UInt32.toNat_shiftLeft, UInt8.toNat_toUInt32, Nat.mul_comm]
  exact shift8_or _ 24 b

theorem bigEndianField_toNat (lp : BytePtr) (n : Nat) :
    (bigEndianField lp n).toNat = beValue ((range n).map lp) % 2 ^ 32 := by
  induction n with
  | zero => rfl
  | succ n ih =>
    unfold bigEndianField at ih ⊢
    rw [range_succ, foldl_append, map_append, beValue_append]
    simp only [foldl_cons, foldl_nil, map_cons, map_nil, length_singleton,
      pow_one, beValue_singleton]
    rw [shift8_or_toNat32, ih]
    omega

theorem leValue_append (w d : List UInt8) : leValue (w ++ d) = leValue w + 256 ^ w.length * leValue d := by
  induction w with
  | nil => simp [leValue]
  | cons b w ih =>
    rw [cons_append, leValue, leValue, ih, length_cons, pow_succ]
    ring

theorem leValue_lt (w : List UInt8) : leValue w < 256 ^ w.length := by
  induction w with
  | nil => simp [leValue]
  | cons b w ih =>
    have := b.toNat_lt
    rw [leValue, length_cons, pow_succ]
    omega

theorem or_shift_toNat32 (x : UInt32) (b : UInt8) (hn : n < 4) (hx : x.toNat < 256 ^ n) :
    (x ||| (b.toUInt32 <<< (n * 8).toUInt32)).toNat = x.toNat + 256 ^ n * b.toNat := by
  have hb := b.toNat_lt
  have hpow : (256 : Nat) ^ n = 2 ^ (n * 8) := by
    rw [Nat.mul_comm, pow_mul]; norm_num
  have hk : (n * 8).toUInt32.toNat % 32 = n * 8 := by
    simp [Nat.toUInt32, UInt32.toNat_ofNat']; omega
  rw [UInt32.toNat_or, UInt32.toNat_shiftLeft, UInt8.toNat_toUInt32, hk, Nat.shiftLeft_eq]
  have hlt : b.toNat * 2 ^ (n * 8) < 2 ^ 32 := by
    calc b.toNat * 2 ^ (n * 8) < 2 ^ 8 * 2 ^ (n * 8) :=
          Nat.mul_lt_mul_of_pos_right hb (Nat.two_pow_pos _)
      _ = 2 ^ (8 + n * 8) := by rw [pow_add]
      _ ≤ 2 ^ 32 := Nat.pow_le_pow_right (by omega) (by omega)
  rw [hpow] at hx ⊢
  rw [Nat.mod_eq_of_lt hlt, Nat.or_comm, Nat.mul_comm, ← Nat.two_pow_add_eq_or_of_lt hx, Nat.add_comm]

theorem littleEndianField_toNat (lp : BytePtr) (hn : n ≤ 4) :
    (littleEndianField lp n).toNat = leValue ((range n).map lp) := by
  induction n with
  | zero => rfl
  | succ n ih =>
    have ih' := ih (by omega)
    unfold littleEndianField at ih' ⊢
    rw [range_succ, foldl_append, map_append, leValue_append]
    simp only [foldl_cons, foldl_nil, map_cons, map_nil, length_map,
      length_range, leValue, Nat.mul_zero, Nat.add_zero]
    have hlt := leValue_lt ((range n).map lp)
    simp only [length_map, length_range] at hlt
    rw [or_shift_toNat32 _ _ (by omega) (by rw [ih']; exact hlt), ih']

/-! ## The package length -/

theorem toNat_ofInt32 (x : Int) : ((UInt32.ofInt x).toNat : Int) = x % 2 ^ 32 := by
  unfold UInt32.ofInt
  rw [UInt32.toNat_ofNat']
  omega

theorem packageLen_toNat (setting : LengthFieldSetting) (h b : UInt32) : ((packageLen setting h b).toNat : Int) =
      (h.toNat + b.toNat + setting.lengthAdjustment.toInt) % 2 ^ 32 := by
  unfold packageLen
  rw [UInt32.toNat_add, UInt32.toNat_add]
  have := toNat_ofInt32 setting.lengthAdjustment.toInt
  omega

/-! ## Reading the field -/

variable {setting : LengthFieldSetting} {maxLen : Nat}

theorem codedField_ok {decoded : UInt64 × Int} (hn : 0 < n) (h2 : decoded.2 = n)
    (h1 : decoded.1.toNat = v % 2 ^ 64) : ∃ h b, codedField setting decoded = .ok h b ∧
      (h.toNat : Int) = (setting.bodyOffset.toNat + n - setting.lengthFieldBytes.toNat : Int) % 2 ^ 32 ∧
      b.toNat = v % 2 ^ 32 := by
  obtain ⟨value, bytes⟩ := decoded
  subst h2
  unfold codedField
  simp only
  rw [if_neg (by omega), if_neg (by omega)]
  refine ⟨_, _, rfl, toNat_ofInt32 _, ?_⟩
  rw [UInt64.toNat_toUInt32, h1]
  omega

theorem CodeWord.length_bounds (hlfb : 1 ≤ setting.lengthFieldBytes.toNat)
    (hlfb4 : setting.lengthFieldBytes.toNat ≤ 4) (h : CodeWord setting w v) : 1 ≤ w.length ∧ w.length ≤ 128 := by
  unfold CodeWord at h
  cases hcod : setting.lengthFieldCoding <;> simp only [hcod] at h
  · exact ⟨h.1.length_pos, by have := h.2.1; omega⟩
  · omega
  · omega
  · exact h.length_le

theorem readLengthField_complete
    (hlfb : 1 ≤ setting.lengthFieldBytes.toNat) (hlfb4 : setting.lengthFieldBytes.toNat ≤ 4)
    (hc : CodeWord setting w v) (hat : BytesAt lp w) (havail : (w.length : Int) ≤ avail) :
    ∃ h b, readLengthField setting lp avail = .ok h b ∧
      (h.toNat : Int) =
        (setting.bodyOffset.toNat + w.length - setting.lengthFieldBytes.toNat : Int) % 2 ^ 32 ∧
      b.toNat = v % 2 ^ 32 := by
  have hpos := (hc.length_bounds hlfb hlfb4).1
  have hbo : (setting.bodyOffset.toUInt32.toNat : Int) = (setting.bodyOffset.toNat : Int) % 2 ^ 32 := by
    have := setting.bodyOffset.toNat_lt
    rw [UInt16.toNat_toUInt32]; omega
  unfold CodeWord at hc
  unfold readLengthField
  cases hcod : setting.lengthFieldCoding <;> simp only [hcod] at hc ⊢
  · -- varint
    obtain ⟨h2, h1⟩ := (decodes_varint hc).complete _ _ hat (.inr havail)
    exact codedField_ok hpos h2 h1
  · -- little-endian
    obtain ⟨hl, rfl⟩ := hc
    refine ⟨_, _, rfl, by rw [hbo]; congr 1; omega, ?_⟩
    rw [littleEndianField_toNat lp hlfb4, ← hl, hat.eq_map, Nat.mod_eq_of_lt]
    calc leValue w < 256 ^ w.length := leValue_lt w
      _ ≤ 256 ^ 4 := Nat.pow_le_pow_right (by omega) (by omega)
      _ = 2 ^ 32 := by norm_num
  · -- big-endian
    obtain ⟨hl, rfl⟩ := hc
    refine ⟨_, _, rfl, by rw [hbo]; congr 1; omega, ?_⟩
    rw [bigEndianField_toNat, ← hl, hat.eq_map]
  · -- ASN.1
    obtain ⟨h2, h1⟩ := (decodes_asn1 hc).complete _ _ hat (.inr havail)
    exact codedField_ok hpos h2 h1

/-- Reading a length field of which at least one byte, but not all, has been received. This only
    happens to the codings of variable length. -/
theorem readLengthField_incomplete (hc : CodeWord setting w v)
    (hat : ∀ (i : Nat) (b : UInt8), (i : Int) < avail → w[i]? = some b → lp i = b) (h0 : 0 < avail)
    (hlfb : (setting.lengthFieldBytes.toNat : Int) ≤ avail) (havail : avail < w.length) :
    readLengthField setting lp avail = .incomplete := by
  unfold CodeWord at hc
  unfold readLengthField
  cases hcod : setting.lengthFieldCoding <;> simp only [hcod] at hc ⊢
  · rw [(decodes_varint hc).incomplete _ _ hat h0 havail]; rfl
  · omega
  · omega
  · rw [(decodes_asn1 hc).incomplete _ _ hat h0 havail]; rfl

/-! ## Frames in the read buffer -/

variable {base : BytePtr} {p : Nat}

theorem packageLen_frame {h b : UInt32} (hmax : maxLen < 2 ^ 31)
    (hlen : (f.length : Int) = setting.bodyOffset.toNat + w.length - setting.lengthFieldBytes.toNat + v
      + setting.lengthAdjustment.toInt) (hle : f.length ≤ maxLen) (hh : (h.toNat : Int) =
      (setting.bodyOffset.toNat + w.length - setting.lengthFieldBytes.toNat : Int) % 2 ^ 32)
    (hb : b.toNat = v % 2 ^ 32) : (packageLen setting h b).toNat = f.length := by
  have := packageLen_toNat setting h b
  omega

theorem readLengthField_frame
    (hlfb : 1 ≤ setting.lengthFieldBytes.toNat) (hlfb4 : setting.lengthFieldBytes.toNat ≤ 4)
    (hmax : maxLen < 2 ^ 31) (hf : IsFrame setting maxLen f) (hat : slice base p (p + f.length) = f)
    (hremain : f.length ≤ remain) :
    ∃ h b, readLengthField setting (fun i => base (p + setting.lengthFieldOffset.toNat + i))
        (remain - setting.lengthFieldOffset.toNat : Int) = .ok h b ∧
      (packageLen setting h b).toNat = f.length := by
  obtain ⟨pre, w, rest, v, hf, hpre, hc, hlen, -, hle⟩ := hf
  have hfl : f.length = pre.length + w.length + rest.length := by rw [hf]; simp; omega
  have hbytes : BytesAt (fun i => base (p + setting.lengthFieldOffset.toNat + i)) w := by
    intro i b hi
    have hic : i < w.length := (List.getElem?_eq_some_iff.mp hi).1
    have h1 := mem_of_slice_eq hat (i := pre.length + i) (by omega)
    rw [hf, List.append_assoc, List.getElem?_append_right (by omega), Nat.add_sub_cancel_left,
      List.getElem?_append_left hic, hi] at h1
    show base (p + setting.lengthFieldOffset.toNat + i) = b
    rw [← hpre, Nat.add_assoc]
    exact (Option.some.inj h1).symm
  have havail : (w.length : Int) ≤ remain - setting.lengthFieldOffset.toNat := by omega
  obtain ⟨h, b, hread, hh, hb⟩ := readLengthField_complete hlfb hlfb4 hc hbytes havail
  exact ⟨h, b, hread, packageLen_frame hmax hlen hle hh hb⟩

theorem readLengthField_framePrefix
    (hbo : setting.lengthFieldOffset.toNat + setting.lengthFieldBytes.toNat ≤ setting.bodyOffset.toNat)
    (hlfb : 1 ≤ setting.lengthFieldBytes.toNat) (hlfb4 : setting.lengthFieldBytes.toNat ≤ 4)
    (hmax : maxLen < 2 ^ 31) (hf : IsFrame setting maxLen f)
    (hat : slice base p (p + remain) <+: f) (hremain : setting.bodyOffset.toNat ≤ remain) :
    (readLengthField setting (fun i => base (p + setting.lengthFieldOffset.toNat + i))
        (remain - setting.lengthFieldOffset.toNat : Int) = .incomplete ∧
      remain < setting.bodyOffset.toNat + 128) ∨
    ∃ h b, readLengthField setting (fun i => base (p + setting.lengthFieldOffset.toNat + i))
        (remain - setting.lengthFieldOffset.toNat : Int) = .ok h b ∧
      (packageLen setting h b).toNat = f.length := by
  obtain ⟨pre, w, rest, v, hf, hpre, hc, hlen, -, hle⟩ := hf
  have hcb := hc.length_bounds hlfb hlfb4
  have hbytes : ∀ (i : Nat) (b : UInt8), (i : Int) < remain - setting.lengthFieldOffset.toNat →
      w[i]? = some b → base (p + setting.lengthFieldOffset.toNat + i) = b := by
    intro i b hi hib
    have hic : i < w.length := (List.getElem?_eq_some_iff.mp hib).1
    have h1 : f[pre.length + i]? = (slice base p (p + remain))[pre.length + i]? := by
      obtain ⟨t, ht⟩ := hat
      rw [← ht, List.getElem?_append_left (by rw [length_slice]; omega)]
    rw [getElem?_slice, if_pos (by omega)] at h1
    rw [hf, List.append_assoc, List.getElem?_append_right (by omega), Nat.add_sub_cancel_left,
      List.getElem?_append_left hic, hib] at h1
    rw [← hpre, Nat.add_assoc]
    exact (Option.some.inj h1).symm
  by_cases hcomplete : (w.length : Int) ≤ remain - setting.lengthFieldOffset.toNat
  · right
    obtain ⟨h, b, hread, hh, hb⟩ := readLengthField_complete hlfb hlfb4 hc
      (fun i b hib => hbytes i b (by
        have hic : i < w.length := (List.getElem?_eq_some_iff.mp hib).1
        omega) hib) hcomplete
    exact ⟨h, b, hread, packageLen_frame hmax hlen hle hh hb⟩
  · left
    exact ⟨readLengthField_incomplete hc hbytes (by omega) (by omega) (by omega), by omega⟩

end HvVerified.Event
