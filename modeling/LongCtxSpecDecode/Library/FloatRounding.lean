import LongCtxSpecDecode.Library.FloatBits

/-!
# Rounding to a floating point format

The nearest number of a binary format, with ties to even, as an exact rational. Below the normal
numbers the unit in the last place stays the same; the exponent has no upper bound.
-/

namespace LongCtxSpecDecode.Library

/-- The nearest integer, and the even one of two that are equally near. -/
def roundEven (t : ℚ) : ℤ :=
  if 1 < 2 * Int.fract t ∨ 2 * Int.fract t = 1 ∧ ⌊t⌋ % 2 = 1 then ⌊t⌋ + 1 else ⌊t⌋

theorem floor_le_roundEven (t : ℚ) : ⌊t⌋ ≤ roundEven t := by
  unfold roundEven
  split_ifs <;> omega

theorem roundEven_intCast (i : ℤ) : roundEven i = i := by
  rw [roundEven, Int.fract_intCast, Int.floor_intCast, if_neg (by norm_num)]

theorem roundEven_pos_iff (t : ℚ) : 0 < roundEven t ↔ 1 / 2 < t := by
  have hsum := Int.floor_add_fract t
  have hnonneg := Int.fract_nonneg t
  have hlt := Int.fract_lt_one t
  constructor
  · intro hpos
    rcases lt_trichotomy ⌊t⌋ 0 with hneg | hzero | hfloor
    · -- A negative floor is rounded to zero at most.
      unfold roundEven at hpos
      split_ifs at hpos <;> omega
    · rw [hzero, Int.cast_zero, zero_add] at hsum
      unfold roundEven at hpos
      split_ifs at hpos with hup
      · rcases hup with hup | ⟨-, hodd⟩
        · linarith
        · omega
      · omega
    · have hone : (1 : ℚ) ≤ ⌊t⌋ := by exact_mod_cast hfloor
      linarith
  · intro hhalf
    have hfloor : 0 ≤ ⌊t⌋ := Int.floor_nonneg.mpr (by linarith)
    rcases hfloor.eq_or_lt with hzero | hpos
    · rw [← hzero, Int.cast_zero, zero_add] at hsum
      rw [roundEven, if_pos (.inl (by linarith)), ← hzero]
      decide
    · exact hpos.trans_le (floor_le_roundEven t)

namespace FloatFormat

/-- Single precision. -/
def single : FloatFormat := ⟨8, 23⟩

/-- Double precision. -/
def double : FloatFormat := ⟨11, 52⟩

variable (f : FloatFormat)

/-- The exponent of the smallest number. -/
def minExp : ℤ := 1 - (f.bias + f.manBits)

/-- The exponent of the unit in the last place. -/
def ulpExp (x : ℚ) : ℤ := max (Int.log 2 |x| - f.manBits) f.minExp

/-- The nearest number of the format. -/
def round (x : ℚ) : ℚ := if x = 0 then 0 else roundEven (x / 2 ^ f.ulpExp x) * 2 ^ f.ulpExp x

variable {f} {x : ℚ}

theorem round_eq (x : ℚ) : f.round x = roundEven (x / 2 ^ f.ulpExp x) * 2 ^ f.ulpExp x := by
  unfold round
  split_ifs with h
  · rw [h, zero_div, ← Int.cast_zero, roundEven_intCast, Int.cast_zero, zero_mul]
  · rfl

theorem round_nonneg (h : 0 ≤ x) : 0 ≤ f.round x := by
  have hround : 0 ≤ roundEven (x / 2 ^ f.ulpExp x) :=
    (Int.floor_nonneg.mpr (by positivity)).trans (floor_le_roundEven _)
  rw [round_eq]
  positivity

/-- A normal number has all its significant bits above the unit in the last place. -/
theorem two_pow_le_scaled (h : 0 < x) (hexp : f.minExp < f.ulpExp x) :
    2 ^ f.manBits ≤ x / 2 ^ f.ulpExp x := by
  have hulp : f.ulpExp x = Int.log 2 |x| - f.manBits := by
    unfold ulpExp at hexp ⊢
    omega
  rw [le_div_iff₀ (by positivity), hulp, ← zpow_natCast, ← zpow_add₀ (by norm_num)]
  calc (2 : ℚ) ^ (f.manBits + (Int.log 2 |x| - f.manBits)) = 2 ^ Int.log 2 |x| := by
        rw [add_sub_cancel]
    _ ≤ |x| := Int.zpow_log_le_self (by norm_num) (abs_pos.mpr h.ne')
    _ = x := abs_of_pos h

/-- At most half of the smallest number is rounded to zero. -/
theorem round_pos_iff (x : ℚ) : 0 < f.round x ↔ 2 ^ (f.minExp - 1) < x := by
  have hscale : (0 : ℚ) < 2 ^ f.ulpExp x := by positivity
  rw [round_eq, mul_pos_iff_of_pos_right hscale, Int.cast_pos, roundEven_pos_iff]
  have hmin : f.minExp ≤ f.ulpExp x := le_max_right ..
  rcases hmin.eq_or_lt with hexp | hexp
  · rw [← hexp, lt_div_iff₀ (by positivity), zpow_sub_one₀ (by norm_num)]
    ring_nf
  · have hbits : (1 : ℚ) ≤ 2 ^ f.manBits := one_le_pow₀ (by norm_num)
    constructor
    · intro hlt
      have hpos : (0 : ℚ) < x := by
        by_contra hneg
        have := div_nonpos_of_nonpos_of_nonneg (not_lt.mp hneg) hscale.le
        linarith
      have hscaled := hbits.trans (two_pow_le_scaled hpos hexp)
      rw [le_div_iff₀ hscale] at hscaled
      calc (2 : ℚ) ^ (f.minExp - 1) < 2 ^ f.ulpExp x :=
            zpow_lt_zpow_right₀ (by norm_num) (by omega)
        _ ≤ x := by linarith
    · intro hlt
      have hpos : (0 : ℚ) < x := lt_trans (by positivity) hlt
      linarith [two_pow_le_scaled hpos hexp]

/-- A power of two is a number of the format, and rounding does not cross it. -/
theorem two_zpow_le_round {k : ℤ} (hk : f.minExp ≤ k) (h : 2 ^ k ≤ x) : 2 ^ k ≤ f.round x := by
  have hpos : (0 : ℚ) < x := lt_of_lt_of_le (by positivity) h
  have hlog : k ≤ Int.log 2 |x| := by
    rw [abs_of_pos hpos]
    exact (Int.zpow_le_iff_le_log (by norm_num) hpos).mp h
  have hscale : (0 : ℚ) < 2 ^ f.ulpExp x := by positivity
  have hfloor := floor_le_roundEven (x / 2 ^ f.ulpExp x)
  rw [round_eq]
  rcases le_or_gt (f.ulpExp x) k with hle | hlt
  · obtain ⟨j, hj⟩ := Int.eq_ofNat_of_zero_le (sub_nonneg.mpr hle)
    have hsplit : (2 : ℚ) ^ k = ((2 ^ j : ℤ) : ℚ) * 2 ^ f.ulpExp x := by
      rw [← sub_add_cancel k (f.ulpExp x), hj, zpow_add₀ (by norm_num)]
      norm_cast
    rw [hsplit] at h ⊢
    have hround : 2 ^ j ≤ roundEven (x / 2 ^ f.ulpExp x) :=
      (Int.le_floor.mpr ((le_div_iff₀ hscale).mpr h)).trans hfloor
    exact mul_le_mul_of_nonneg_right (by exact_mod_cast hround) hscale.le
  · have hscaled := two_pow_le_scaled hpos (hk.trans_lt hlt)
    have hbits : (1 : ℤ) ≤ 2 ^ f.manBits := one_le_pow₀ (by norm_num)
    have hround : 1 ≤ roundEven (x / 2 ^ f.ulpExp x) :=
      hbits.trans ((Int.le_floor.mpr (by exact_mod_cast hscaled)).trans hfloor)
    calc (2 : ℚ) ^ k ≤ 2 ^ f.ulpExp x := zpow_le_zpow_right₀ (by norm_num) hlt.le
      _ ≤ roundEven (x / 2 ^ f.ulpExp x) * 2 ^ f.ulpExp x :=
          le_mul_of_one_le_left hscale.le (by exact_mod_cast hround)

/-- Integers of no more than the significant bits are numbers of the format. -/
theorem round_intCast {i : ℤ} (hmin : f.minExp ≤ 0) (h : |i| < 2 ^ (f.manBits + 1)) :
    f.round i = i := by
  rcases eq_or_ne i 0 with rfl | hne
  · rw [Int.cast_zero, round, if_pos rfl]
  have hexp : f.ulpExp i ≤ 0 := by
    refine max_le ?_ hmin
    have hpos : (0 : ℚ) < |(i : ℚ)| := abs_pos.mpr (Int.cast_ne_zero.mpr hne)
    have hlt : (2 : ℚ) ^ Int.log 2 |(i : ℚ)| < 2 ^ ((f.manBits + 1 : ℕ) : ℤ) :=
      (Int.zpow_log_le_self (by norm_num) hpos).trans_lt (by exact_mod_cast h)
    have hlog := (zpow_lt_zpow_iff_right₀ (by norm_num)).mp hlt
    omega
  obtain ⟨j, hj⟩ := Int.eq_ofNat_of_zero_le (neg_nonneg.mpr hexp)
  have hscale : (2 : ℚ) ^ f.ulpExp i = (2 ^ j)⁻¹ := by
    rw [← neg_neg (f.ulpExp i), hj, zpow_neg]
    norm_cast
  have hscaled : (i : ℚ) / 2 ^ f.ulpExp i = ((i * 2 ^ j : ℤ) : ℚ) := by
    rw [hscale, div_inv_eq_mul]
    norm_cast
  rw [round_eq, hscaled, roundEven_intCast, ← hscaled, div_mul_cancel₀ _ (by positivity)]

end FloatFormat

/-- Rounding to single precision. -/
abbrev round32 : ℚ → ℚ := FloatFormat.single.round

theorem round32_pos_iff (x : ℚ) : 0 < round32 x ↔ 2 ^ (-150 : ℤ) < x := FloatFormat.round_pos_iff x

theorem one_le_round32 {x : ℚ} (h : 1 ≤ x) : 1 ≤ round32 x := by
  simpa using FloatFormat.two_zpow_le_round (f := .single) (k := 0) (by decide) (by simpa using h)

end LongCtxSpecDecode.Library
