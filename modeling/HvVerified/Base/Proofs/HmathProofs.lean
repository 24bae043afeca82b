import HvVerified.Base.Hmath
import Mathlib.Tactic.Linarith

/-!
# Proofs: the decoders of `base/hmath.h`

A decoder that is given a complete code word returns its value (modulo `2^64`) and its length; one
that is given a proper prefix of a code word as all that may be read reports an incomplete code.
-/

namespace HvVerified.Base

open List

variable (buf : BytePtr)

/-! ## Bytes -/

theorem and_7F (b : UInt8) : (b &&& 0x7F).toNat = b.toNat % 128 := by
  exact Nat.and_two_pow_sub_one_eq_mod b.toNat 7

theorem and_80_eq_zero (b : UInt8) : b &&& 0x80 = 0 ↔ b.toNat < 128 := by
  have h : ∀ i : Fin 256, UInt8.ofNat i.val &&& 0x80 = 0 ↔ i.val < 128 := by decide +kernel
  simpa using h ⟨b.toNat, b.toNat_lt⟩

theorem or_shift_toNat (ret x : UInt64) {k : Nat} (hk : k < 64) (hret : ret.toNat < 2 ^ k) :
    (ret ||| (x <<< k.toUInt64)).toNat = (ret.toNat + 2 ^ k * x.toNat) % 2 ^ 64 := by
  rw [UInt64.toNat_or, UInt64.toNat_shiftLeft]
  have hk64 : k.toUInt64.toNat % 64 = k := by
    simp [Nat.toUInt64, UInt64.toNat_ofNat']; omega
  rw [hk64, Nat.shiftLeft_eq]
  have hsplit : 2 ^ 64 = 2 ^ k * 2 ^ (64 - k) := by rw [← pow_add]; congr 1; omega
  have hmod : x.toNat * 2 ^ k % 2 ^ 64 = 2 ^ k * (x.toNat % 2 ^ (64 - k)) := by
    rw [hsplit, Nat.mul_comm x.toNat, Nat.mul_mod_mul_left]
  rw [hmod, Nat.or_comm, ← Nat.two_pow_add_eq_or_of_lt hret]
  have hlt : 2 ^ k * (x.toNat % 2 ^ (64 - k)) + ret.toNat < 2 ^ 64 := by
    have h1 : x.toNat % 2 ^ (64 - k) + 1 ≤ 2 ^ (64 - k) := Nat.mod_lt _ (Nat.two_pow_pos _)
    have h2 := Nat.mul_le_mul_left (2 ^ k) h1
    rw [Nat.mul_add, Nat.mul_one] at h2
    omega
  rw [← Nat.mod_eq_of_lt hlt, Nat.add_comm ret.toNat]
  have hx : 2 ^ k * x.toNat % 2 ^ 64 = 2 ^ k * (x.toNat % 2 ^ (64 - k)) := by
    rw [Nat.mul_comm, hmod]
  rw [Nat.add_mod (2 ^ k * x.toNat), hx, Nat.add_mod (2 ^ k * (x.toNat % 2 ^ (64 - k)))]
  congr 2
  exact Nat.mod_eq_of_lt (by omega)

/-! ## `varint_decode` -/

theorem varintDecodeLoop_complete (len : Int) :
    ∀ (w : List UInt8) (n bytes : Nat) (ret : UInt64), VarintShape w → w.length ≤ n → n + bytes ≤ 10 →
      (∀ i b, w[i]? = some b → buf (bytes + i) = b) → (len = 0 ∨ (bytes + w.length : Int) ≤ len) →
      ret.toNat < 2 ^ (7 * bytes) →
      (varintDecodeLoop buf len n bytes ret).2 = (bytes + w.length : Nat) ∧
      (varintDecodeLoop buf len n bytes ret).1.toNat =
        (ret.toNat + 2 ^ (7 * bytes) * varintValue w) % 2 ^ 64 := by
  intro w
  induction w with
  | nil => intro n bytes ret h; exact absurd h (by simp [VarintShape])
  | cons b w ih =>
    intro n bytes ret hc hn hb hbuf hlen hret
    obtain ⟨m, rfl⟩ : ∃ m, n = m + 1 := ⟨n - 1, by simp only [length_cons] at hn; omega⟩
    simp only [length_cons] at hn hlen
    have hb0 : buf bytes = b := by simpa using hbuf 0 b (by simp)
    have hne : ¬ (len ≠ 0 ∧ (bytes : Int) = len) := by
      rintro ⟨h1, h2⟩
      rcases hlen with h | h <;> omega
    have hstep := or_shift_toNat ret (b &&& 0x7F).toUInt64 (k := 7 * bytes) (by omega) hret
    rw [UInt8.toNat_toUInt64, and_7F] at hstep
    rw [varintDecodeLoop, if_neg hne, hb0]
    cases w with
    | nil =>
      have hlt : b &&& 0x80 = 0 := (and_80_eq_zero b).mpr hc
      simp only [hlt, if_true, length_cons, length_nil, varintValue, Nat.mul_zero, Nat.add_zero]
      exact ⟨trivial, hstep⟩
    | cons b' w =>
      obtain ⟨hge, hc'⟩ := hc.cons_cons
      have hnlt : ¬ (b &&& 0x80 = 0) := by rw [and_80_eq_zero]; omega
      simp only [hnlt, if_false]
      simp only [length_cons] at hn
      -- two more bytes follow, so the group just added fits
      have hsmall : ret.toNat + 2 ^ (7 * bytes) * (b.toNat % 128) < 2 ^ (7 * (bytes + 1)) := by
        have h1 : b.toNat % 128 + 1 ≤ 128 := Nat.mod_lt _ (by omega)
        have h2 := Nat.mul_le_mul_left (2 ^ (7 * bytes)) h1
        have h3 : 2 ^ (7 * (bytes + 1)) = 2 ^ (7 * bytes) * 128 := by
          rw [Nat.mul_add, pow_add]; rfl
        rw [Nat.mul_add, Nat.mul_one] at h2
        omega
      have h64 : 2 ^ (7 * (bytes + 1)) ≤ 2 ^ 64 := Nat.pow_le_pow_right (by omega) (by omega)
      rw [Nat.mod_eq_of_lt (by omega)] at hstep
      have := ih m (bytes + 1) (ret ||| (b &&& 0x7F).toUInt64 <<< (7 * bytes).toUInt64) hc'
        (by simp only [length_cons]; omega) (by omega)
        (fun i x hx => by
          have := hbuf (i + 1) x (by simpa using hx)
          rw [← this]; congr 1; omega)
        (by rcases hlen with h | h
            · exact Or.inl h
            · right; simp only [length_cons] at h ⊢; push_cast at h ⊢; omega)
        (by rw [hstep]; exact hsmall)
      refine ⟨by rw [this.1]; simp only [length_cons]; omega, ?_⟩
      rw [this.2, hstep, varintValue.eq_2 b]
      congr 1
      ring

theorem varintDecodeLoop_incomplete (len : Int) (hlen0 : len ≠ 0) :
    ∀ (w : List UInt8) (n bytes : Nat) (ret : UInt64), VarintShape w → w.length ≤ n →
      (bytes : Int) ≤ len → len < (bytes + w.length : Nat) →
      (∀ (i : Nat) (b : UInt8), (bytes + i : Int) < len → w[i]? = some b → buf (bytes + i) = b) →
      varintDecodeLoop buf len n bytes ret = (0, 0) := by
  intro w
  induction w with
  | nil => intro n bytes ret h; exact absurd h (by simp [VarintShape])
  | cons b w ih =>
    intro n bytes ret hc hn hle hlt hbuf
    obtain ⟨m, rfl⟩ : ∃ m, n = m + 1 := ⟨n - 1, by simp only [length_cons] at hn; omega⟩
    simp only [length_cons] at hn hlt
    rw [varintDecodeLoop]
    by_cases heq : (bytes : Int) = len
    · rw [if_pos ⟨hlen0, heq⟩]
    · rw [if_neg (fun h => heq h.2)]
      have hb0 : buf bytes = b := by simpa using hbuf 0 b (by omega) (by simp)
      cases w with
      | nil => exfalso; simp only [length_nil] at hlt; push_cast at hlt; omega
      | cons b' w =>
        obtain ⟨hge, hc'⟩ := hc.cons_cons
        have hnlt : ¬ (b &&& 0x80 = 0) := by rw [and_80_eq_zero]; omega
        simp only [hb0, hnlt, if_false]
        refine ih m (bytes + 1) _ hc' (by simp only [length_cons] at hn ⊢; omega)
          (by push_cast; omega) (by push_cast at hlt ⊢; omega) ?_
        intro i x hi hx
        have := hbuf (i + 1) x (by push_cast at hi ⊢; omega) (by simpa using hx)
        rw [← this]; congr 1; omega

/-- A length that was decoded has its code in the buffer. -/
theorem exists_varintShape {len : Int} (hlen : 0 < len) : ∀ (n bytes : Nat) (ret : UInt64),
    (bytes : Int) ≤ len → 0 < (varintDecodeLoop buf len n bytes ret).2 → ∃ w, VarintShape w ∧ w.length ≤ n ∧
      (∀ i b, w[i]? = some b → buf (bytes + i) = b) ∧ (bytes + w.length : Int) ≤ len := by
  intro n
  induction n with
  | zero => intro bytes ret _ h; cases h
  | succ n ih =>
    intro bytes ret hle h
    rw [varintDecodeLoop] at h
    dsimp only at h
    split_ifs at h with hshort hend
    · cases h
    · refine ⟨[buf bytes], (and_80_eq_zero _).1 hend, Nat.le_add_left 1 n, ?_, ?_⟩
      · rintro (_ | i) b hb <;> cases hb
        rfl
      · rw [length_singleton]
        omega
    · obtain ⟨w, hshape, hlength, hbuf, hfits⟩ := ih (bytes + 1) _ (by push_cast; omega) h
      refine ⟨buf bytes :: w, ?_, Nat.succ_le_succ hlength, ?_, ?_⟩
      · rw [and_80_eq_zero, Nat.not_lt] at hend
        obtain ⟨b, w, rfl⟩ := exists_cons_of_length_pos hshape.length_pos
        exact ⟨hend, hshape⟩
      · rintro (_ | i) b hb
        · exact Option.some.inj hb
        · rw [← hbuf i b hb, Nat.add_right_comm, Nat.add_assoc]
      · rw [length_cons]
        push_cast at hfits ⊢
        omega

/-- `decode` reads the code `w` of `v`, and does not take a part of it for a code. -/
structure Decodes (decode : BytePtr → Int → UInt64 × Int) (w : List UInt8) (v : Nat) : Prop where
  complete : ∀ (buf : BytePtr) (len : Int), (∀ i b, w[i]? = some b → buf i = b) → (len = 0 ∨ (w.length : Int) ≤ len) →
    (decode buf len).2 = w.length ∧ (decode buf len).1.toNat = v % 2 ^ 64
  incomplete : ∀ (buf : BytePtr) (len : Int), (∀ (i : Nat) (b : UInt8), (i : Int) < len → w[i]? = some b → buf i = b) →
    0 < len → len < w.length → decode buf len = (0, 0)

theorem decodes_varint {w : List UInt8} {v : Nat} (hc : IsVarint w v) : Decodes varintDecode w v := by
  obtain ⟨hshape, hl, rfl⟩ := hc
  constructor
  · intro buf len hbuf hlen
    have := varintDecodeLoop_complete buf len w 10 0 0 hshape hl (by omega)
      (fun i b hb => by rw [Nat.zero_add]; exact hbuf i b hb) (by simpa using hlen) (by simp)
    simpa [varintDecode] using this
  · intro buf len hbuf h0 hlen
    exact varintDecodeLoop_incomplete buf len (by omega) w 10 0 0 hshape hl (by push_cast; omega)
      (by simpa using hlen) (fun i b hi hb => by
        rw [Nat.zero_add]; exact hbuf i b (by push_cast at hi; omega) hb)

theorem varintShape_encodeLoop : ∀ (n value : Nat), value < 128 ^ (n + 1) →
    VarintShape (varintEncodeLoop (n + 1) value) ∧ varintValue (varintEncodeLoop (n + 1) value) = value ∧
      (varintEncodeLoop (n + 1) value).length ≤ n + 1 := by
  intro n
  induction n with
  | zero =>
    intro value hvalue
    have hdiv : value / 128 = 0 := by omega
    have hmod : (UInt8.ofNat (value % 128)).toNat = value := by
      rw [UInt8.toNat_ofNat']
      omega
    simp only [varintEncodeLoop, hdiv, if_true, VarintShape, varintValue, hmod, length_singleton]
    omega
  | succ n ih =>
    intro value hvalue
    rw [varintEncodeLoop]
    by_cases hdiv : value / 128 = 0
    · have hmod : (UInt8.ofNat (value % 128)).toNat = value := by
        rw [UInt8.toNat_ofNat']
        omega
      simp only [hdiv, if_true, VarintShape, varintValue, hmod, length_singleton]
      omega
    · have hlt : value / 128 < 128 ^ (n + 1) := by
        exact Nat.div_lt_of_lt_mul (by omega)
      obtain ⟨hshape, hval, hlen⟩ := ih _ hlt
      have hbyte : (UInt8.ofNat (value % 128) ||| 0x80).toNat = value % 128 + 128 := by
        have hall : ∀ i : Fin 128, (UInt8.ofNat i.val ||| 0x80).toNat = i.val + 128 := by decide +kernel
        exact hall ⟨value % 128, Nat.mod_lt _ (by decide)⟩
      simp only [hdiv, if_false]
      obtain ⟨c, cs, hcons⟩ : ∃ c cs, varintEncodeLoop (n + 1) (value / 128) = c :: cs :=
        exists_cons_of_ne_nil (ne_nil_of_length_pos hshape.length_pos)
      refine ⟨?_, ?_, ?_⟩
      · rw [hcons] at hshape ⊢
        exact ⟨by rw [hbyte]; omega, hshape⟩
      · rw [varintValue, hval, hbyte]
        omega
      · simpa using hlen

theorem isVarint_encode {value : Nat} (h : value < 2 ^ 63) : IsVarint (varintEncode value) value := by
  obtain ⟨hshape, hvalue, hlen⟩ := varintShape_encodeLoop 9 value (h.trans (by norm_num))
  exact ⟨hshape, hlen, hvalue.symm⟩

/-! ## `asn1_decode` -/

theorem shift8_or (x k : Nat) (b : UInt8) :
    x <<< 8 % 2 ^ (8 + k) ||| b.toNat = (x * 256 + b.toNat) % 2 ^ (8 + k) := by
  have hb := b.toNat_lt
  rw [Nat.shiftLeft_eq, Nat.pow_add, Nat.mul_comm, Nat.mul_mod_mul_left, ← Nat.two_pow_add_eq_or_of_lt hb, Nat.mod_mul,
    show (2 ^ 8 * x + b.toNat) / 2 ^ 8 = x by omega]
  omega

theorem asn1DecodeLoop_complete (len : Int) : ∀ (w : List UInt8) (bytes : Nat) (ret : UInt64),
      (∀ i b, w[i]? = some b → buf (bytes + i) = b) → (len = 0 ∨ (bytes + w.length : Int) ≤ len) →
      (asn1DecodeLoop buf len w.length bytes ret).2 = (bytes + w.length : Nat) ∧
      (asn1DecodeLoop buf len w.length bytes ret).1.toNat =
        (ret.toNat * 256 ^ w.length + beValue w) % 2 ^ 64 := by
  intro w
  induction w with
  | nil =>
    intro bytes ret _ _
    refine ⟨rfl, ?_⟩
    simp only [asn1DecodeLoop, length_nil, pow_zero, Nat.mul_one, beValue_nil, Nat.add_zero]
    exact (Nat.mod_eq_of_lt ret.toNat_lt).symm
  | cons b w ih =>
    intro bytes ret hbuf hlen
    simp only [length_cons] at hlen ⊢
    have hb0 : buf bytes = b := by simpa using hbuf 0 b (by simp)
    have hne : ¬ (len ≠ 0 ∧ (bytes : Int) = len) := by
      rintro ⟨h1, h2⟩
      rcases hlen with h | h <;> omega
    rw [asn1DecodeLoop, if_neg hne, hb0]
    obtain ⟨h1, h2⟩ := ih (bytes + 1) ((ret <<< 8) ||| b.toUInt64)
      (fun i x hx => by
        have := hbuf (i + 1) x (by simpa using hx)
        rw [← this]; congr 1; omega)
      (by rcases hlen with h | h
          · exact Or.inl h
          · right; push_cast at h ⊢; omega)
    refine ⟨by rw [h1]; omega, ?_⟩
    have hor : (ret <<< 8 ||| b.toUInt64).toNat = _ := shift8_or ret.toNat 56 b
    rw [h2, hor, beValue_cons]
    rw [Nat.add_mod, Nat.mod_mul_mod, ← Nat.add_mod]
    congr 1
    rw [pow_succ]; ring

theorem asn1DecodeLoop_incomplete (len : Int) (hlen0 : len ≠ 0) :
    ∀ (n bytes : Nat) (ret : UInt64), (bytes : Int) ≤ len → len < (bytes + n : Nat) →
      asn1DecodeLoop buf len n bytes ret = (0, 0) := by
  intro n
  induction n with
  | zero => intro bytes ret h1 h2; exfalso; push_cast at h2; omega
  | succ n ih =>
    intro bytes ret h1 h2
    rw [asn1DecodeLoop]
    by_cases heq : (bytes : Int) = len
    · rw [if_pos ⟨hlen0, heq⟩]
    · rw [if_neg (fun h => heq h.2)]
      exact ih (bytes + 1) _ (by push_cast; omega) (by push_cast at h2 ⊢; omega)

theorem decodes_asn1 {w : List UInt8} {v : Nat} (hc : IsAsn1 w v) : Decodes asn1Decode w v := by
  obtain ⟨tag, w', rfl, hcase⟩ := hc
  have hlt := tag.toNat_lt
  -- the form with the number of bytes in the tag
  have hlong : ∀ (buf : BytePtr) (len : Int), buf 0 = tag → 128 < tag.toNat → w'.length = tag.toNat - 128 →
      asn1Decode buf len = asn1DecodeLoop buf len w'.length 1 0 := by
    intro buf len htag h1 hl
    have hbytes : (tag &&& 0x7F).toNat = w'.length := by rw [and_7F, hl]; omega
    unfold asn1Decode
    simp only [htag]
    rw [if_neg (by rw [UInt8.lt_iff_toNat_lt]; show ¬ tag.toNat < 128; omega),
      if_neg (fun h => by rw [h] at h1; exact absurd h1 (by decide)), hbytes]
  constructor
  · intro buf len hbuf hlen
    have htag : buf 0 = tag := hbuf 0 tag (by simp)
    rcases hcase with ⟨h1, rfl, rfl⟩ | ⟨h1, hl, rfl⟩
    · unfold asn1Decode
      simp only [htag]
      rw [if_pos (by rw [UInt8.lt_iff_toNat_lt]; exact h1)]
      refine ⟨rfl, ?_⟩
      rw [UInt8.toNat_toUInt64, Nat.mod_eq_of_lt (by omega)]
    · rw [hlong buf len htag h1 hl]
      obtain ⟨h2, h3⟩ := asn1DecodeLoop_complete buf len w' 1 0
        (fun i b hb => by rw [Nat.add_comm]; exact hbuf (i + 1) b (by simpa using hb))
        (by rcases hlen with h | h
            · exact Or.inl h
            · right; simp only [length_cons] at h; push_cast at h ⊢; omega)
      refine ⟨by rw [h2, length_cons]; omega, ?_⟩
      rw [h3]; simp
  · intro buf len hbuf h0 hlen
    simp only [length_cons] at hlen
    rcases hcase with ⟨h1, rfl, rfl⟩ | ⟨h1, hl, rfl⟩
    · exfalso; simp only [length_nil] at hlen; push_cast at hlen; omega
    · rw [hlong buf len (hbuf 0 tag (by push_cast; omega) (by simp)) h1 hl]
      exact asn1DecodeLoop_incomplete buf len (by omega) w'.length 1 0 (by push_cast; omega)
        (by push_cast at hlen ⊢; omega)

theorem isAsn1_encode {value : Nat} (h : value < 2 ^ 32) : IsAsn1 (asn1Encode value) value := by
  unfold asn1Encode
  split_ifs <;> refine ⟨_, _, rfl, ?_⟩ <;>
    simp [beValue, UInt8.toNat_ofNat', Nat.shiftRight_eq_div_pow] <;> omega

/-! ## The codes -/

/-- `decode` gives back the value whatever follows its code, and needs the whole code for it. -/
structure SelfDelimiting (encode : Nat → List UInt8) (decode : BytePtr → Int → UInt64 × Int) (v : Nat) : Prop where
  inverts : ∀ r, decode (ptrOf (encode v ++ r)) (encode v ++ r).length =
    (UInt64.ofNat v, ((encode v).length : Int))
  incomplete : ∀ w, w <+: encode v → w ≠ [] → w ≠ encode v → (decode (ptrOf w) w.length).2 = 0

theorem selfDelimiting_of_codes {encode : Nat → List UInt8} {decode : BytePtr → Int → UInt64 × Int} {v : Nat}
    (h : Decodes decode (encode v) v) : SelfDelimiting encode decode v := by
  constructor
  · intro r
    obtain ⟨hlen, hvalue⟩ := h.complete (ptrOf (encode v ++ r)) (encode v ++ r).length
      (fun i b hb => by
        rw [ptrOf, getD_eq_getElem?_getD, getElem?_append_left (List.getElem?_eq_some_iff.1 hb).1, hb]
        rfl)
      (.inr (by simp))
    refine Prod.ext (UInt64.toNat_inj.1 ?_) hlen
    rw [hvalue, UInt64.toNat_ofNat']
  · rintro w ⟨rest, heq⟩ hne hstrict
    have hrest : rest ≠ [] := by
      rintro rfl
      exact hstrict (by simpa using heq)
    have hlt : w.length < (encode v).length := by
      rw [← heq, length_append]
      have := length_pos_iff.2 hrest
      omega
    rw [h.incomplete _ _ (fun i b hi hb => ?_) (by simpa using length_pos_iff.2 hne) (by omega)]
    rw [← heq, getElem?_append_left (by omega)] at hb
    rw [ptrOf, getD_eq_getElem?_getD, hb]
    rfl

/-- What follows a length code does not matter, and without its end it is incomplete. -/
theorem length_codes_self_delimiting (v : Nat) :
    (v < 2 ^ 63 → SelfDelimiting varintEncode varintDecode v) ∧
      (v < 2 ^ 32 → SelfDelimiting asn1Encode asn1Decode v) :=
  ⟨fun h => selfDelimiting_of_codes (decodes_varint (isVarint_encode h)),
    fun h => selfDelimiting_of_codes (decodes_asn1 (isAsn1_encode h))⟩

theorem length_codes_three_hundred : varintEncode 300 = [0xAC, 2] ∧ asn1Encode 300 = [0x82, 1, 44] ∧
    SelfDelimiting varintEncode varintDecode 300 ∧ SelfDelimiting asn1Encode asn1Decode 300 :=
  ⟨rfl, rfl, (length_codes_self_delimiting 300).1 (by decide), (length_codes_self_delimiting 300).2 (by decide)⟩

theorem beValue_lt (c : List UInt8) : beValue c < 256 ^ c.length := by
  induction c with
  | nil => simp
  | cons b c ih =>
    have hb := b.toNat_lt
    rw [beValue_cons, length_cons, pow_succ]
    nlinarith

theorem isAsn1_of_decode {c : List UInt8} (h : (asn1Decode (ptrOf c) c.length).2 = c.length) : ∃ v, IsAsn1 c v := by
  cases c with
  | nil => cases h
  | cons tag c =>
    have hlt := tag.toNat_lt
    have hfirst : ptrOf (tag :: c) 0 = tag := rfl
    unfold asn1Decode at h
    simp only [hfirst, UInt8.lt_iff_toNat_lt] at h
    split_ifs at h with hsmall hbad
    · have hnil : c = [] := by
        simpa using h.symm
      exact ⟨_, tag, c, rfl, .inl ⟨hsmall, hnil, rfl⟩⟩
    · omega
    · have hge : 128 < tag.toNat := by
        have hne : tag.toNat ≠ 128 := fun h' => hbad (UInt8.toNat_inj.1 h')
        have : ¬ tag.toNat < 128 := hsmall
        omega
      refine ⟨_, tag, c, rfl, .inr ⟨hge, ?_, rfl⟩⟩
      rw [and_7F, show tag.toNat % 128 = tag.toNat - 128 by omega] at h
      by_contra hne
      by_cases hmore : c.length < tag.toNat - 128
      · rw [asn1DecodeLoop_incomplete _ _ (by rw [length_cons]; omega) _ _ _ (by rw [length_cons]; omega)
          (by rw [length_cons]; omega)] at h
        simp only [length_cons] at h
        omega
      · have htake : (c.take (tag.toNat - 128)).length = tag.toNat - 128 := by
          rw [length_take]
          omega
        have hloop := asn1DecodeLoop_complete (ptrOf (tag :: c)) (tag :: c).length
          (c.take (tag.toNat - 128)) 1 0 (fun i b hb => by
            rw [ptrOf, getD_eq_getElem?_getD, Nat.add_comm, getElem?_cons_succ, ← getElem?_take_of_lt, hb]
            · rfl
            · have := (List.getElem?_eq_some_iff.1 hb).1
              omega) (.inr (by simp only [length_cons]; omega))
        rw [htake] at hloop
        rw [hloop.1] at h
        simp only [length_cons] at h
        omega

/-- `asn1_encode` gives the shortest code, except for the values from 16777126 to 16777215: it takes five
    bytes where four are enough. -/
theorem asn1_encode_shortest_iff {v : Nat} (hv : v < 2 ^ 32) :
    (∀ c : List UInt8, asn1Decode (ptrOf c) c.length = (UInt64.ofNat v, (c.length : Int)) →
      (asn1Encode v).length ≤ c.length) ↔ ¬ (16777126 ≤ v ∧ v < 16777216) := by
  constructor
  · intro h hgap
    have hcode : IsAsn1 [0x83, UInt8.ofNat (v >>> 16), UInt8.ofNat (v >>> 8), UInt8.ofNat v] v := by
      refine ⟨_, _, rfl, .inr ⟨by decide, by simp, ?_⟩⟩
      simp [beValue, UInt8.toNat_ofNat', Nat.shiftRight_eq_div_pow]
      omega
    obtain ⟨hlen, hvalue⟩ := (decodes_asn1 hcode).complete
      (ptrOf [0x83, UInt8.ofNat (v >>> 16), UInt8.ofNat (v >>> 8), UInt8.ofNat v]) 4
      (fun i b hb => by rw [ptrOf, getD_eq_getElem?_getD, hb]; rfl) (.inr (by simp))
    have hle := h _ (Prod.ext (UInt64.toNat_inj.1 (by rw [UInt64.toNat_ofNat']; exact hvalue)) hlen)
    rw [asn1Encode, if_neg (by omega), if_neg (by omega), if_neg (by omega), if_neg (by omega)] at hle
    simp at hle
  · intro hgap c hc
    obtain ⟨v', hcode⟩ := isAsn1_of_decode (congrArg Prod.snd hc)
    obtain ⟨-, hvalue⟩ := (decodes_asn1 hcode).complete (ptrOf c) c.length
      (fun i b hb => by rw [ptrOf, getD_eq_getElem?_getD, hb]; rfl) (.inr le_rfl)
    rw [hc, UInt64.toNat_ofNat', Nat.mod_eq_of_lt (by omega)] at hvalue
    obtain ⟨tag, c, rfl, ⟨hsmall, rfl, rfl⟩ | ⟨hge, hlen, rfl⟩⟩ := hcode
    · rw [asn1Encode, if_pos (by omega)]
      simp
    · have hlt := beValue_lt c
      rw [length_cons]
      by_cases h4 : 4 ≤ c.length
      · unfold asn1Encode
        split_ifs <;> simp <;> omega
      · have hcases : c.length = 1 ∨ c.length = 2 ∨ c.length = 3 := by omega
        unfold asn1Encode
        rcases hcases with hl | hl | hl <;> rw [hl] at hlt ⊢ <;> split_ifs <;> simp <;> omega

theorem asn1_encode_shortest_large : asn1Encode (2 ^ 24) = [0x84, 1, 0, 0, 0] ∧ ∀ c : List UInt8,
    asn1Decode (ptrOf c) c.length = (UInt64.ofNat (2 ^ 24), (c.length : Int)) → 5 ≤ c.length :=
  ⟨by decide, (asn1_encode_shortest_iff (by decide)).2 (by decide)⟩

theorem asn1_encode_five_bytes : asn1Encode 16777126 = [0x84, 0, 255, 255, 166] ∧
    asn1Decode (ptrOf [0x83, 255, 255, 166]) 4 = (UInt64.ofNat 16777126, 4) := by
  decide +kernel

/-! ## `ceil2e` -/

theorem shiftRightLoop_eq (k : Nat) (n : UInt64) (e : Nat) (hn : n.toNat < 2 ^ k) :
    shiftRightLoop k n e = e + n.toNat.log2 := by
  induction k generalizing n e with
  | zero =>
    have hzero : n.toNat = 0 := by omega
    simp [shiftRightLoop, hzero]
  | succ k ih =>
    have hshift : (n >>> 1).toNat = n.toNat / 2 := by simp [Nat.shiftRight_eq_div_pow]
    rw [shiftRightLoop, Nat.log2_def, ih (n >>> 1) (e + 1) (by omega)]
    simp only [← UInt64.toNat_inj, hshift, UInt64.toNat_zero]
    split_ifs <;> omega

theorem shiftLeftLoop_toNat (e : Nat) (ret : UInt64) :
    (shiftLeftLoop e ret).toNat = ret.toNat * 2 ^ e % 2 ^ 64 := by
  induction e generalizing ret with
  | zero => simp [shiftLeftLoop]
  | succ e ih =>
    rw [shiftLeftLoop, ih, UInt64.toNat_shiftLeft, Nat.mod_mul_mod]
    simp [Nat.shiftLeft_eq, Nat.pow_succ', Nat.mul_assoc]

/-- The exponent that `ceil2e` finds is the one of the least power of two that is not below `n`; the
    power itself is 0 modulo `2^64` when it is `2^64`. -/
theorem ceil2e_toNat {n : UInt64} (hn : 2 ≤ n.toNat) :
    (ceil2e n).toNat = 2 ^ ((n.toNat - 1).log2 + 1) % 2 ^ 64 := by
  have hpred : (n - 1).toNat = n.toNat - 1 := UInt64.toNat_sub_of_le n 1 (UInt64.le_iff_toNat_le.2 (by simp; omega))
  have hbranch : ¬ (n = 0 ∨ n = 1) := by
    rw [← UInt64.toNat_inj, ← UInt64.toNat_inj, UInt64.toNat_zero, UInt64.toNat_one]
    omega
  rw [ceil2e, if_neg hbranch, shiftLeftLoop_toNat, shiftRightLoop_eq 64 _ _ (n - 1).toNat_lt, hpred, Nat.add_comm 1]
  simp

theorem isLeast_ceil2e_iff {n : UInt64} (hn : 1 ≤ n.toNat) :
    IsLeast {p | n.toNat ≤ p ∧ ∃ e, p = 2 ^ e} (ceil2e n).toNat ↔ n.toNat ≤ 2 ^ 63 := by
  rcases Nat.eq_or_lt_of_le hn with h | h
  · obtain rfl : n = 1 := UInt64.toNat_inj.1 h.symm
    exact ⟨fun _ => by decide, fun _ => ⟨⟨le_refl _, 0, rfl⟩, fun p hp => hp.1⟩⟩
  · rw [ceil2e_toNat h]
    have hbelow := Nat.log2_self_le (n := n.toNat - 1) (by omega)
    have habove := Nat.lt_log2_self (n := n.toNat - 1)
    constructor
    · rintro ⟨⟨hle, -⟩, -⟩
      by_contra hbig
      have hlog : 63 ≤ (n.toNat - 1).log2 := (Nat.le_log2 (by omega)).2 (by omega)
      have hzero : 2 ^ ((n.toNat - 1).log2 + 1) % 2 ^ 64 = 0 := Nat.mod_eq_zero_of_dvd (Nat.pow_dvd_pow 2 (by omega))
      omega
    · intro hsmall
      have hlog : (n.toNat - 1).log2 < 63 := (Nat.log2_lt (by omega)).2 (by omega)
      have hpow : 2 ^ ((n.toNat - 1).log2 + 1) < 2 ^ 64 := Nat.pow_lt_pow_right (by omega) (by omega)
      rw [Nat.mod_eq_of_lt hpow]
      refine ⟨⟨by omega, _, rfl⟩, ?_⟩
      rintro p ⟨hp, e, rfl⟩
      have he : (n.toNat - 1).log2 < e := (Nat.pow_lt_pow_iff_right (a := 2) (by omega)).1 (by omega)
      exact Nat.pow_le_pow_right (by omega) he

end HvVerified.Base
