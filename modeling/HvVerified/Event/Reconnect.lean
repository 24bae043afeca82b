import Mathlib.Algebra.Order.Ring.Nat

/-!
# The delays between reconnects (`event/hloop.h`)

`reconn_setting_calc_delay` computes the next delay from the last one, in 32 bits, and keeps it
between the two limits afterwards. The higher bits that a product loses are missed if the rest is small.
-/

namespace HvVerified.Event

open Function

/-- `reconn_setting_t`, without the counter of retries. -/
structure ReconnSetting where
  minDelay : UInt32
  maxDelay : UInt32
  curDelay : UInt32
  delayPolicy : UInt32

/-- `reconn_setting_reset` -/
def reconnSettingReset (reconn : ReconnSetting) : ReconnSetting := { reconn with curDelay := 0 }

/-- `reconn_setting_calc_delay`, which returns the new `cur_delay` -/
def reconnSettingCalcDelay (reconn : ReconnSetting) : ReconnSetting :=
  let delay :=
    if reconn.delayPolicy = 0 then reconn.minDelay
    else if reconn.delayPolicy = 1 then reconn.curDelay + reconn.minDelay
    else reconn.curDelay * reconn.delayPolicy
  let delay := if delay > reconn.minDelay then delay else reconn.minDelay
  { reconn with curDelay := if delay < reconn.maxDelay then delay else reconn.maxDelay }

/-- What the call number `k` after a reset returns. -/
def nthDelay (reconn : ReconnSetting) (k : Nat) : Nat :=
  (reconnSettingCalcDelay^[k] (reconnSettingReset reconn)).curDelay.toNat

/-! ## The documented policy -/

section

variable (reconn : ReconnSetting)

/-- The delay before the retry `k` as `hloop.h` describes it. -/
def documentedDelay (k : Nat) : Nat :=
  if reconn.delayPolicy = 0 then reconn.minDelay.toNat
  else if reconn.delayPolicy = 1 then min (k * reconn.minDelay.toNat) reconn.maxDelay.toNat
  else min (reconn.minDelay.toNat * reconn.delayPolicy.toNat ^ (k - 1)) reconn.maxDelay.toNat

/-- The delay after the delay `d`, before it is kept between the limits. -/
def wideDelay (d : Nat) : Nat :=
  if reconn.delayPolicy = 0 then reconn.minDelay.toNat
  else if reconn.delayPolicy = 1 then d + reconn.minDelay.toNat
  else d * reconn.delayPolicy.toNat

/-- The delay after `d` has 32 bits, or the upper limit is exceeded also without the bits above. -/
def LowBitsSuffice (d : Nat) : Prop :=
  wideDelay reconn d < 2 ^ 32 ∨ reconn.maxDelay.toNat ≤ wideDelay reconn d % 2 ^ 32 ∨
    reconn.minDelay = reconn.maxDelay

theorem calcDelay_toNat : (reconnSettingCalcDelay reconn).curDelay.toNat =
    min (max (wideDelay reconn reconn.curDelay.toNat % 2 ^ 32) reconn.minDelay.toNat) reconn.maxDelay.toNat := by
  have hmin := reconn.minDelay.toNat_lt
  unfold reconnSettingCalcDelay wideDelay
  simp only [apply_ite UInt32.toNat, gt_iff_lt, UInt32.lt_iff_toNat_lt, UInt32.toNat_add, UInt32.toNat_mul]
  generalize reconn.curDelay.toNat * reconn.delayPolicy.toNat = product
  split_ifs <;> omega

theorem iterate_calcDelay (k : Nat) : ∃ cur, reconnSettingCalcDelay^[k] (reconnSettingReset reconn) =
    { reconn with curDelay := cur } := by
  induction k with
  | zero => exact ⟨0, rfl⟩
  | succ k ih =>
    obtain ⟨cur, hcur⟩ := ih
    rw [iterate_succ_apply', hcur]
    exact ⟨_, rfl⟩

theorem nthDelay_succ (k : Nat) : nthDelay reconn (k + 1) =
    min (max (wideDelay reconn (nthDelay reconn k) % 2 ^ 32) reconn.minDelay.toNat) reconn.maxDelay.toNat := by
  obtain ⟨cur, hcur⟩ := iterate_calcDelay reconn k
  unfold nthDelay
  rw [iterate_succ_apply', hcur, calcDelay_toNat]
  rfl

end

section

variable {reconn : ReconnSetting}

theorem delayPolicy_pos (h : reconn.delayPolicy ≠ 0) : 0 < reconn.delayPolicy.toNat :=
  Nat.pos_of_ne_zero fun hzero => h (UInt32.toNat_inj.1 hzero)

theorem documentedDelay_le_wideDelay (k : Nat) :
    documentedDelay reconn k ≤ wideDelay reconn (documentedDelay reconn k) := by
  unfold wideDelay
  split_ifs with hfixed
  · rw [documentedDelay, if_pos hfixed]
  · omega
  · exact Nat.le_mul_of_pos_right _ (delayPolicy_pos hfixed)

variable (hle : reconn.minDelay ≤ reconn.maxDelay)

include hle

theorem nthDelay_one : nthDelay reconn 1 = documentedDelay reconn 1 := by
  have hle := UInt32.le_iff_toNat_le.1 hle
  have hmin := reconn.minDelay.toNat_lt
  rw [nthDelay_succ]
  simp only [nthDelay, iterate_zero_apply, reconnSettingReset, UInt32.toNat_zero, wideDelay, documentedDelay,
    Nat.zero_mul, Nat.sub_self, pow_zero]
  split_ifs <;> omega

theorem documentedDelay_succ (k : Nat) (hk : 1 ≤ k) : documentedDelay reconn (k + 1) =
    min (wideDelay reconn (documentedDelay reconn k)) reconn.maxDelay.toNat := by
  have hle := UInt32.le_iff_toNat_le.1 hle
  unfold documentedDelay wideDelay
  split_ifs with hfixed hlinear
  · omega
  · rw [Nat.succ_mul]
    omega
  · obtain ⟨j, rfl⟩ := Nat.exists_eq_add_of_le' hk
    have hmax := Nat.le_mul_of_pos_right reconn.maxDelay.toNat (delayPolicy_pos hfixed)
    simp only [Nat.add_sub_cancel, pow_succ, ← mul_assoc]
    rw [← Nat.mul_min_mul_right]
    omega

theorem documentedDelay_bounds (k : Nat) (hk : 1 ≤ k) :
    reconn.minDelay.toNat ≤ documentedDelay reconn k ∧ documentedDelay reconn k ≤ reconn.maxDelay.toNat := by
  have hle := UInt32.le_iff_toNat_le.1 hle
  unfold documentedDelay
  split_ifs with hfixed
  · exact ⟨le_rfl, hle⟩
  · exact ⟨le_min (Nat.le_mul_of_pos_left _ hk) hle, min_le_right _ _⟩
  · exact ⟨le_min (Nat.le_mul_of_pos_right _ (pow_pos (delayPolicy_pos hfixed) _)) hle, min_le_right _ _⟩

/-- The delays are the documented ones, which never decrease, exactly if no bit is missed that the
    32-bit arithmetic cuts off. -/
theorem reconnect_delays_iff : ((∀ k, 1 ≤ k → nthDelay reconn k = documentedDelay reconn k) ↔
      ∀ k, 1 ≤ k → LowBitsSuffice reconn (documentedDelay reconn k)) ∧
    ∀ k, 1 ≤ k → documentedDelay reconn k ≤ documentedDelay reconn (k + 1) := by
  have hmax := reconn.maxDelay.toNat_lt
  have hlimits := UInt32.le_iff_toNat_le.1 hle
  refine ⟨⟨fun h k hk => ?_, fun h k hk => ?_⟩, fun k hk => ?_⟩
  · have hnext := nthDelay_succ reconn k
    rw [h k hk, h (k + 1) (by omega), documentedDelay_succ hle k hk] at hnext
    unfold LowBitsSuffice
    rw [← UInt32.toNat_inj]
    omega
  · induction k, hk using Nat.le_induction with
    | base => exact nthDelay_one hle
    | succ k hk ih =>
      have hbounds := documentedDelay_bounds hle k hk
      have hwide := @documentedDelay_le_wideDelay reconn k
      have hbits := h k hk
      unfold LowBitsSuffice at hbits
      rw [← UInt32.toNat_inj] at hbits
      rw [nthDelay_succ, ih, documentedDelay_succ hle k hk]
      omega
  · rw [documentedDelay_succ hle k hk]
    exact le_min (documentedDelay_le_wideDelay k) (documentedDelay_bounds hle k hk).2

end

theorem reconnect_delays_default : documentedDelay ⟨1000, 60000, 0, 2⟩ 4 = 8000 ∧
    ∀ k, 1 ≤ k → nthDelay ⟨1000, 60000, 0, 2⟩ k = documentedDelay ⟨1000, 60000, 0, 2⟩ k := by
  refine ⟨by decide, (reconnect_delays_iff (by decide)).1.2 fun k hk => .inl ?_⟩
  have hbounds := (@documentedDelay_bounds ⟨1000, 60000, 0, 2⟩ (by decide) k hk).2
  exact lt_of_le_of_lt (Nat.mul_le_mul_right 2 hbounds) (by decide)

theorem reconnect_delay_drops :
    (List.range 4).map (fun k => nthDelay ⟨1073741824, 4294967295, 0, 1⟩ (k + 1)) =
      [1073741824, 2147483648, 3221225472, 1073741824] ∧
    documentedDelay ⟨1073741824, 4294967295, 0, 1⟩ 4 = 4294967295 := by
  decide +kernel

end HvVerified.Event
