import HvVerified.Event.Progress
import HvVerified.Event.Proofs.LengthFieldProofs
import HvVerified.Event.Proofs.PackingProofs

/-!
# Proofs: when `hio_unpack` makes progress

For each mode the package loop is followed on its own; `hioUnpack_progress_iff` puts the modes
together. The length-field loop makes progress unless it meets a header whose lengths add up to 0
modulo `2^32`, and then it is never left.
-/

namespace HvVerified.Event

open Base Lib UnpackCall

variable {n m headLen bodyLen : UInt32} {readbytes p : Nat} {s : DelimiterSetting}

/-! ## From loops to calls -/

section Loops

variable {σ ρ : Type} {body : σ → LoopStep σ ρ} {remain : σ → Int} {io : σ → Hio} {s0 : σ}

/-- A loop that consumes is left, as long as what remains is not negative. -/
theorem Consumes.terminates (h : Consumes body remain io s0)
    (hnonneg : ∀ s s', LoopHead body s0 s → body s = .next s' → 0 ≤ remain s) : LoopTerminates body s0 := by
  -- one iteration may end below 0, where the loop is left
  refine (loopRun_rule (Q := fun _ => True) (LoopHead body s0) (fun s => (remain s + 1).toNat) (fun s hs => ?_)
    ((remain s0 + 1).toNat + 1) s0 .entry (Nat.lt_succ_self _)).elim fun r hr => ⟨_, r, hr.1⟩
  cases hb : body s with
  | next s' =>
    have h1 := (h s s' hs hb).1
    have h2 := hnonneg s s' hs hb
    exact ⟨.again hs hb, by omega⟩
  | done r => trivial

theorem not_consumes {s s' : σ} (hs : LoopHead body s0 s) (hb : body s = .next s')
    (heq : remain s' = remain s) : ¬ Consumes body remain io s0 := by
  intro h
  have := (h s s' hs hb).1
  omega

end Loops

theorem UnpackCall.completed (c : UnpackCall) : ∃ raw, completeSetting raw = .ok c.setting := by
  obtain ⟨io0, raw, io1, hset, hsome⟩ := c.accepted
  refine ⟨raw, ?_⟩
  unfold hioSetUnpack at hset
  cases hc : completeSetting raw with
  | error e => rw [hc] at hset; cases hset
  | ok setting =>
    rw [hc] at hset
    rcases hioAllocReadbuf_cases hset with ⟨-, rfl⟩ | ⟨-, -, rfl⟩
    · exact congrArg _ (Option.some.inj hsome)
    · exact congrArg _ (Option.some.inj hsome)

/-! ## Fixed length -/

theorem completeSetting_fixedLength {raw : UnpackSetting}
    (h : completeSetting raw = .ok ⟨.byFixedLength n, m⟩) : n ≠ 0 := by
  unfold completeSetting at h
  cases hm : raw.mode with
  | none | byDelimiter => simp [hm] at h
  | byFixedLength k =>
    simp only [hm] at h
    split_ifs at h with h0 h1 h1 <;> cases h <;> exact h1.1
  | byLengthField s => simp only [hm] at h; split_ifs at h <;> simp at h

theorem fixedLength_consumes {n : Nat} (hn : 0 < n) (s0 : PackageLoop) :
    Consumes (fixedLengthIter n) (fun s => s.remain) (fun s => s.io) s0 := by
  intro s s' _ hb
  unfold fixedLengthIter at hb
  split_ifs at hb with hge
  cases hb
  refine ⟨by simp only; omega, ?_⟩
  intro package hcbs
  rw [hioReadCb_last hcbs]
  exact slice_ne_nil (by omega)

theorem hioUnpackByFixedLength_terminates (hn : n ≠ 0) (io : Hio) :
    ∃ fuel, hioUnpackByFixedLength fuel n io ≠ .error .outOfFuel := by
  have hpos : 0 < n.toNat := Nat.pos_of_ne_zero fun h => hn (UInt32.toNat_inj.mp h)
  obtain ⟨fuel, r, hr⟩ := (fixedLength_consumes hpos (packageLoopEntry io)).terminates (by simp)
  refine ⟨fuel, ?_⟩
  unfold hioUnpackByFixedLength
  rw [hr]
  split_ifs <;> simp

/-! ## Delimiter -/

theorem delimiter_consumes (hs : s.delimiterBytes ≠ 0) (io : Hio) (readbytes : Nat) :
    Consumes (delimiterIter s) (fun st => st.remain) (fun st => st.io)
      (delimiterLoopEntry s io readbytes) := by
  have hpos : 0 < s.delimiterBytes.toNat := Nat.pos_of_ne_zero fun h => hs (UInt16.toNat_inj.mp h)
  have hle : ∀ st, LoopHead (delimiterIter s) (delimiterLoopEntry s io readbytes) st → st.sp ≤ st.p := by
    intro st hst
    refine hst.invariant (I := fun st => st.sp ≤ st.p) (le_max_left _ _) ?_
    intro st st' hle hb
    unfold delimiterIter at hb
    split_ifs at hb <;> cases hb
    · exact le_rfl
    · show st.sp ≤ st.p + 1
      omega
  intro st st' hst hb
  have := hle st hst
  unfold delimiterIter at hb
  split_ifs at hb <;> cases hb
  · refine ⟨by simp only; omega, ?_⟩
    intro package hcbs
    rw [hioReadCb_last hcbs]
    exact slice_ne_nil (by omega)
  · refine ⟨by simp only; omega, ?_⟩
    intro package hcbs
    simp at hcbs

theorem delimiterIter_nonneg {st st' : DelimiterLoop} (hb : delimiterIter s st = .next st') : 0 ≤ st.remain := by
  unfold delimiterIter at hb
  split_ifs at hb <;> omega

theorem hioUnpackByDelimiter_terminates {io : Hio}
    (h : LoopTerminates (delimiterIter s) (delimiterLoopEntry s io readbytes)) :
    ∃ fuel, hioUnpackByDelimiter fuel s m io readbytes ≠ .error .outOfFuel := by
  obtain ⟨fuel, r, hr⟩ := h
  refine ⟨fuel, ?_⟩
  unfold hioUnpackByDelimiter
  rw [hr]
  simp only
  split_ifs
  · simp
  · exact hioAllocReadbuf_bind_fuel
  · simp

theorem delimiter_not_consumes (hs : s.delimiterBytes = 0) {io : Hio}
    (hrecv : io.readbuf.head + readbytes ≤ io.readbuf.tail) (hpos : readbytes ≠ 0) :
    ¬ Consumes (delimiterIter s) (fun st => st.remain) (fun st => st.io)
      (delimiterLoopEntry s io readbytes) := by
  have hzero : s.delimiterBytes.toNat = 0 := by rw [hs]; rfl
  have hge : (delimiterLoopEntry s io readbytes).remain ≥ s.delimiterBytes.toNat := by
    unfold delimiterLoopEntry
    simp only
    omega
  have hmatch : ∀ p, delimiterMatch s p := by
    intro p
    unfold delimiterMatch
    rw [hzero]
    rfl
  refine not_consumes .entry (by unfold delimiterIter; rw [if_pos hge, if_pos (hmatch _)]) ?_
  simp only
  omega

theorem delimiter_done (hs : s.delimiterBytes = 0) (io : Hio) :
    delimiterIter s (delimiterLoopEntry s io 0) = .done (delimiterLoopEntry s io 0) := by
  have hzero : s.delimiterBytes.toNat = 0 := by rw [hs]; rfl
  unfold delimiterIter
  rw [if_neg]
  unfold delimiterLoopEntry
  simp only
  omega

/-! ## Length field -/

section LengthField

variable {s : LengthFieldSetting} {io : Hio} {st st' : LengthFieldLoop}

theorem lengthFieldIter_next (hb : lengthFieldIter s st = .next st') :
    ∃ headLen bodyLen, HeaderAt s st.io.readbuf.base st.p st.remain headLen bodyLen ∧
      (packageLen s headLen bodyLen).toNat ≤ st.remain ∧
      st'.io = hioReadCb st.io
        (slice st.io.readbuf.base st.p (st.p + (packageLen s headLen bodyLen).toNat)) ∧
      st'.p = st.p + (packageLen s headLen bodyLen).toNat ∧
      st'.remain = st.remain - (packageLen s headLen bodyLen).toNat := by
  unfold lengthFieldIter at hb
  split_ifs at hb with hge
  split at hb
  · cases hb
  · cases hb
  · cases hb
  · rename_i headLen bodyLen hread
    simp only at hb
    split_ifs at hb with hlen
    cases hb
    exact ⟨headLen, bodyLen, ⟨hge, hread⟩, hlen, rfl, rfl, rfl⟩

theorem lengthFieldIter_of_header (hh : HeaderAt s st.io.readbuf.base st.p st.remain headLen bodyLen)
    (hle : (packageLen s headLen bodyLen).toNat ≤ st.remain) :
    ∃ st', lengthFieldIter s st = .next st' ∧ st'.io.readbuf = st.io.readbuf ∧
      st'.p = st.p + (packageLen s headLen bodyLen).toNat ∧
      st'.remain = st.remain - (packageLen s headLen bodyLen).toNat := by
  unfold lengthFieldIter
  rw [if_pos hh.1, hh.2]
  simp only
  rw [if_pos hle]
  exact ⟨_, rfl, by simp, rfl, rfl⟩

theorem boundary_of_loopHead (h : LoopHead (lengthFieldIter s) (lengthFieldLoopEntry s io) st) :
    st.io.readbuf = io.readbuf ∧
      Boundary s io.readbuf.base io.readbuf.head (io.readbuf.tail - io.readbuf.head) st.p st.remain := by
  refine h.invariant (I := fun st => st.io.readbuf = io.readbuf ∧ Boundary s io.readbuf.base
    io.readbuf.head (io.readbuf.tail - io.readbuf.head) st.p st.remain) ⟨rfl, .first⟩ ?_
  intro st st' ⟨hbuf, hbd⟩ hb
  obtain ⟨headLen, bodyLen, hh, hle, hio, hp, hremain⟩ := lengthFieldIter_next hb
  rw [hbuf] at hh
  refine ⟨by rw [hio, hioReadCb_readbuf, hbuf], ?_⟩
  rw [hp, hremain]
  exact .next hbd hh (packageLen_toNat s headLen bodyLen) hle

theorem loopHead_of_boundary {remain : Nat}
    (h : Boundary s io.readbuf.base io.readbuf.head (io.readbuf.tail - io.readbuf.head) p remain) :
    ∃ st, LoopHead (lengthFieldIter s) (lengthFieldLoopEntry s io) st ∧ st.io.readbuf = io.readbuf ∧
      st.p = p ∧ st.remain = remain := by
  induction h with
  | first => exact ⟨_, .entry, rfl, rfl, rfl⟩
  | next hbd hh hlen hle ih =>
    rename_i p remain len headLen bodyLen
    obtain ⟨st, hst, hbuf, rfl, rfl⟩ := ih
    have hpl := packageLen_toNat s headLen bodyLen
    obtain rfl : len = (packageLen s headLen bodyLen).toNat := by omega
    rw [← hbuf] at hh
    obtain ⟨st', hb, hbuf', hp', hr'⟩ := lengthFieldIter_of_header hh hle
    exact ⟨st', .again hst hb, hbuf'.trans hbuf, hp', hr'⟩

theorem packageLen_eq_zero_iff (headLen bodyLen : UInt32) : (packageLen s headLen bodyLen).toNat = 0 ↔
      (2 ^ 32 : Int) ∣ headLen.toNat + bodyLen.toNat + s.lengthAdjustment.toInt := by
  have := packageLen_toNat s headLen bodyLen
  omega

/-- The length-field loop consumes bytes exactly when no header it meets declares length 0. -/
theorem lengthField_consumes_iff :
    Consumes (lengthFieldIter s) (fun st => st.remain) (fun st => st.io) (lengthFieldLoopEntry s io) ↔
      ∀ p remain headLen bodyLen,
        Boundary s io.readbuf.base io.readbuf.head (io.readbuf.tail - io.readbuf.head) p remain →
        HeaderAt s io.readbuf.base p remain headLen bodyLen →
        ¬ (2 ^ 32 : Int) ∣ headLen.toNat + bodyLen.toNat + s.lengthAdjustment.toInt := by
  constructor
  · intro h p remain headLen bodyLen hbd hh hzero
    rw [← packageLen_eq_zero_iff] at hzero
    obtain ⟨st, hst, hbuf, rfl, rfl⟩ := loopHead_of_boundary hbd
    rw [← hbuf] at hh
    obtain ⟨st', hb, -, -, hr⟩ := lengthFieldIter_of_header hh (by omega)
    refine not_consumes hst hb ?_ h
    rw [hr, hzero]
    rfl
  · intro h st st' hst hb
    obtain ⟨hbuf, hbd⟩ := boundary_of_loopHead hst
    obtain ⟨headLen, bodyLen, hh, hle, hio, hp, hremain⟩ := lengthFieldIter_next hb
    have hpos := h _ _ headLen bodyLen hbd (by rw [← hbuf]; exact hh)
    rw [← packageLen_eq_zero_iff] at hpos
    refine ⟨by simp only; omega, ?_⟩
    intro package hcbs
    simp only [hio] at hcbs
    rw [hioReadCb_last hcbs]
    exact slice_ne_nil (by omega)

/-- The loop that meets a header of declared length 0 is never left: it stays at that header. -/
theorem lengthField_diverges {remain : Nat}
    (hbd : Boundary s io.readbuf.base io.readbuf.head (io.readbuf.tail - io.readbuf.head) p remain)
    (hh : HeaderAt s io.readbuf.base p remain headLen bodyLen)
    (hzero : (2 ^ 32 : Int) ∣ headLen.toNat + bodyLen.toNat + s.lengthAdjustment.toInt) :
    ¬ LoopTerminates (lengthFieldIter s) (lengthFieldLoopEntry s io) := by
  rw [← packageLen_eq_zero_iff] at hzero
  obtain ⟨st, hst, hbuf, hp, hr⟩ := loopHead_of_boundary hbd
  rw [hst.terminates_iff]
  refine not_terminates_of_stuck
    (fun st => st.io.readbuf = io.readbuf ∧ st.p = p ∧ st.remain = remain) ?_ ⟨hbuf, hp, hr⟩
  rintro st ⟨hbuf, rfl, rfl⟩
  rw [← hbuf] at hh
  obtain ⟨st', hb, hbuf', hp', hr'⟩ := lengthFieldIter_of_header hh (by omega)
  exact ⟨st', hb, hbuf'.trans hbuf, by omega, by omega⟩

theorem hioUnpackByLengthField_terminates (h : LoopTerminates (lengthFieldIter s) (lengthFieldLoopEntry s io)) :
    ∃ fuel, hioUnpackByLengthField fuel s m io ≠ .error .outOfFuel := by
  obtain ⟨fuel, ⟨st, e⟩, hr⟩ := h
  refine ⟨fuel, ?_⟩
  unfold hioUnpackByLengthField
  rw [hr]
  cases e <;> simp only [ne_eq, reduceCtorEq, not_false_eq_true]
  split_ifs
  · simp
  · exact hioAllocReadbuf_bind_fuel
  · simp

end LengthField

/-! ## All modes -/

/-- A call of `hio_unpack` makes progress exactly when no package has length 0. -/
theorem hioUnpack_progress_iff (c : UnpackCall) : c.Progress ↔ c.NonzeroLengths := by
  obtain ⟨raw, hraw⟩ := c.completed
  unfold Progress LoopConsumes NonzeroLengths hioUnpack
  cases hm : c.setting.mode with
  | none =>
    constructor
    · rintro ⟨-, h⟩ hzero
      refine h 0 _ _ rfl _ ?_ rfl
      rw [hioReadCb_readCbs, c.opened, hzero]
      simp
    · intro h
      refine ⟨⟨0, by simp⟩, ?_⟩
      intro fuel io' n hok package hcbs
      cases hok
      rw [hioReadCb_last hcbs]
      exact slice_ne_nil (by omega)
  | byFixedLength n =>
    have hn : n ≠ 0 := completeSetting_fixedLength (m := c.setting.packageMaxLength) (by
      rw [hraw, ← hm])
    simp only [iff_true]
    exact ⟨hioUnpackByFixedLength_terminates hn c.io,
      fixedLength_consumes (Nat.pos_of_ne_zero fun h => hn (UInt32.toNat_inj.mp h)) _⟩
  | byDelimiter s =>
    constructor
    · rintro ⟨-, h⟩
      by_contra hcon
      push Not at hcon
      exact delimiter_not_consumes hcon.1 c.received hcon.2 h
    · intro h
      by_cases hs : s.delimiterBytes = 0
      · have hzero : c.readbytes = 0 := h.resolve_left (fun h => h hs)
        have hdone := delimiter_done hs c.io
        rw [hzero]
        refine ⟨hioUnpackByDelimiter_terminates ⟨1, _, loopRun_done hdone 0⟩, ?_⟩
        intro st st' hst hb
        rw [hst.eq_entry hdone, hdone] at hb
        cases hb
      · have hcons := delimiter_consumes hs c.io c.readbytes
        exact ⟨hioUnpackByDelimiter_terminates
          (hcons.terminates fun st st' _ hb => delimiterIter_nonneg hb), hcons⟩
  | byLengthField s =>
    simp only
    rw [lengthField_consumes_iff, and_iff_right_iff_imp]
    intro h
    exact hioUnpackByLengthField_terminates
      ((lengthField_consumes_iff.mpr h).terminates (by simp))

/-! ## A header that declares length 0 -/

def typeLengthSetting : LengthFieldSetting :=
  { bodyOffset := 5, lengthFieldOffset := 1, lengthFieldBytes := 4, lengthAdjustment := 0
    lengthFieldCoding := .bigEndian }

def typeLengthIo : Hio :=
  { hioReady with
    unpackSetting := some ⟨.byLengthField typeLengthSetting, 2097152⟩
    kind := .alloced
    maxReadBufsize := 2097152 }

/-- The call of `hio_unpack` after five bytes have been received: the length field says `2^32 - 5`. -/
def wrappedLengthCall : UnpackCall where
  setting := ⟨.byLengthField typeLengthSetting, 2097152⟩
  io := recvInto typeLengthIo [0x00, 0xFF, 0xFF, 0xFF, 0xFB]
  readbytes := 5
  accepted := ⟨hioReady, ⟨.byLengthField typeLengthSetting, 0⟩, typeLengthIo, rfl, rfl⟩
  opened := rfl
  received := by decide
  fits := by decide

/-- The call after a package of six bytes: the length field says 1. -/
def oneByteCall : UnpackCall :=
  { wrappedLengthCall with
    io := recvInto typeLengthIo [0x00, 0x00, 0x00, 0x00, 0x01, 0x07]
    readbytes := 6
    opened := rfl
    received := by decide
    fits := by decide }

theorem oneByteCall_progress : oneByteCall.Progress := by
  rw [hioUnpack_progress_iff]
  have hfield : readLengthField typeLengthSetting (fun i => oneByteCall.io.readbuf.base (0 + 1 + i)) (6 - 1) = .ok 5 1 := by
    decide
  have hboundary : ∀ {p remain}, Boundary typeLengthSetting oneByteCall.io.readbuf.base 0 6 p remain →
      p = 0 ∧ remain = 6 ∨ remain = 0 := by
    intro p remain h
    induction h with
    | first => exact .inl ⟨rfl, rfl⟩
    | next _ hh hlen _ ih =>
      rcases ih with ⟨rfl, rfl⟩ | rfl
      · cases hfield.symm.trans hh.2
        exact .inr (by simp [typeLengthSetting] at hlen; omega)
      · exact absurd hh.1 (by decide)
  intro p remain headLen bodyLen h hh
  rcases hboundary h with ⟨rfl, rfl⟩ | rfl
  · cases hfield.symm.trans hh.2
    decide
  · exact absurd hh.1 (by decide)

/-- `hio_unpack` never returns from that call, and so does not make progress. -/
theorem wrapped_length_never_returns : ¬ wrappedLengthCall.Progress ∧
      ∀ fuel, hioUnpack fuel wrappedLengthCall.setting wrappedLengthCall.io wrappedLengthCall.readbytes =
        .error .outOfFuel := by
  have hh : HeaderAt typeLengthSetting wrappedLengthCall.io.readbuf.base 0 5 5 0xFFFFFFFB :=
    ⟨by decide, rfl⟩
  have hdiv : ¬ LoopTerminates (lengthFieldIter typeLengthSetting)
      (lengthFieldLoopEntry typeLengthSetting wrappedLengthCall.io) :=
    lengthField_diverges .first hh (by decide)
  have hfuel : ∀ fuel, hioUnpack fuel wrappedLengthCall.setting wrappedLengthCall.io
      wrappedLengthCall.readbytes = .error .outOfFuel := by
    intro fuel
    show hioUnpackByLengthField fuel typeLengthSetting 2097152 wrappedLengthCall.io = _
    unfold hioUnpackByLengthField
    rw [loopRun_eq_none hdiv fuel]
  refine ⟨?_, hfuel⟩
  rintro ⟨⟨fuel, h⟩, -⟩
  exact h (hfuel fuel)

end HvVerified.Event
