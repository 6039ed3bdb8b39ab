import Mathlib

/-!
# The bits of floating point numbers

Numbers of a binary floating point format as exact rationals, and the map of their bits under which
the unsigned order of the bits is the order of the numbers.
-/

namespace LongCtxSpecDecode.Library

structure FloatFormat where
  expBits : Nat
  manBits : Nat
deriving DecidableEq, Repr

namespace FloatFormat

variable (f : FloatFormat)

def width : Nat := f.expBits + f.manBits + 1

def bias : Nat := 2 ^ (f.expBits - 1) - 1

/-- The number with the given bits below the sign, in units of the smallest one by two. -/
def significand (m : Nat) : Nat :=
  if m / 2 ^ f.manBits = 0 then 2 * (m % 2 ^ f.manBits)
  else (2 ^ f.manBits + m % 2 ^ f.manBits) * 2 ^ (m / 2 ^ f.manBits)

def toRat (raw : BitVec f.width) : ℚ :=
  let m := f.significand (raw.toNat % 2 ^ (f.width - 1))
  (if raw.msb then -(m : ℚ) else m) / 2 ^ (f.bias + f.manBits)

theorem significand_lt_succ (m : Nat) : f.significand m < f.significand (m + 1) := by
  have hpos : 0 < 2 ^ f.manBits := Nat.two_pow_pos _
  have hdiv := Nat.div_add_mod' m (2 ^ f.manBits)
  unfold significand
  by_cases hlast : m % 2 ^ f.manBits + 1 = 2 ^ f.manBits
  · -- The exponent grows by one and the mantissa starts again.
    have hsucc : m + 1 = (m / 2 ^ f.manBits + 1) * 2 ^ f.manBits := by
      rw [Nat.succ_mul]
      omega
    have hdiv' : (m + 1) / 2 ^ f.manBits = m / 2 ^ f.manBits + 1 := by
      rw [hsucc, Nat.mul_div_cancel _ hpos]
    have hmod' : (m + 1) % 2 ^ f.manBits = 0 := by
      rw [hsucc, Nat.mul_mod_left]
    rw [hdiv', if_neg (Nat.succ_ne_zero _)]
    split_ifs with hzero
    · rw [hzero]
      omega
    · have hexp : 0 < 2 ^ (m / 2 ^ f.manBits) := Nat.two_pow_pos _
      rw [Nat.pow_succ]
      nlinarith
  · have hsucc : m + 1 = (m % 2 ^ f.manBits + 1) + m / 2 ^ f.manBits * 2 ^ f.manBits := by omega
    have hdiv' : (m + 1) / 2 ^ f.manBits = m / 2 ^ f.manBits := by
      rw [hsucc, Nat.add_mul_div_right _ _ hpos, Nat.div_eq_of_lt (by omega), Nat.zero_add]
    have hmod' : (m + 1) % 2 ^ f.manBits = m % 2 ^ f.manBits + 1 := by
      rw [hsucc, Nat.add_mul_mod_self_right, Nat.mod_eq_of_lt (by omega)]
    rw [hdiv']
    split_ifs with hzero
    · omega
    · exact Nat.mul_lt_mul_of_pos_right (by omega) (Nat.two_pow_pos _)

theorem significand_strictMono : StrictMono f.significand :=
  strictMono_nat_of_lt_succ f.significand_lt_succ

end FloatFormat

/-! ### The order of the bits -/

section Twiddle

variable {w : Nat}

def twiddleIn (raw : BitVec w) : BitVec w :=
  raw ^^^ if raw.msb then BitVec.allOnes w else BitVec.twoPow w (w - 1)

def twiddleOut (bits : BitVec w) : BitVec w :=
  bits ^^^ if bits.msb then BitVec.twoPow w (w - 1) else BitVec.allOnes w

theorem xor_two_pow {x n : Nat} (h : x < 2 ^ n) : x ^^^ 2 ^ n = x + 2 ^ n := by
  refine Nat.eq_of_testBit_eq fun i => ?_
  rw [Nat.testBit_xor, Nat.testBit_two_pow, Nat.add_comm]
  rcases Nat.lt_trichotomy i n with hlt | rfl | hlt
  · rw [Nat.testBit_two_pow_add_gt hlt, decide_eq_false (by omega), Bool.xor_false]
  · rw [Nat.testBit_two_pow_add_eq]
    simp
  · have hpow : 2 ^ (n + 1) ≤ 2 ^ i := Nat.pow_le_pow_right (by decide) hlt
    rw [Nat.testBit_lt_two_pow (by omega), Nat.testBit_lt_two_pow (by omega),
      decide_eq_false (by omega)]
    rfl

theorem toNat_twiddleIn_of_msb {raw : BitVec w} (h : raw.msb = true) :
    (twiddleIn raw).toNat = 2 ^ w - 1 - raw.toNat := by
  rw [twiddleIn, if_pos h, BitVec.xor_allOnes, BitVec.toNat_not]

theorem toNat_twiddleIn_of_not_msb {raw : BitVec (w + 1)} (h : raw.msb = false) :
    (twiddleIn raw).toNat = raw.toNat + 2 ^ w := by
  have hlt := BitVec.msb_eq_false_iff_two_mul_lt.mp h
  have hpow := Nat.pow_lt_pow_succ (n := w) (by decide : 1 < 2)
  rw [twiddleIn, h, if_neg Bool.false_ne_true, BitVec.toNat_xor, BitVec.toNat_twoPow,
    Nat.add_sub_cancel, Nat.mod_eq_of_lt hpow]
  exact xor_two_pow (by omega)

theorem twiddleOut_twiddleIn (raw : BitVec (w + 1)) : twiddleOut (twiddleIn raw) = raw := by
  unfold twiddleOut twiddleIn
  cases h : raw.msb with
  | true => simp [h]
  | false => simp [h]

end Twiddle

namespace FloatFormat

variable {f : FloatFormat}

theorem two_pow_width : 2 ^ f.width = 2 * 2 ^ (f.width - 1) := by
  change 2 ^ (f.expBits + f.manBits + 1) = 2 * 2 ^ (f.expBits + f.manBits)
  rw [Nat.pow_succ, Nat.mul_comm]

variable {raw : BitVec f.width}

theorem toRat_of_not_msb (h : raw.msb = false) :
    raw.toNat < 2 ^ (f.width - 1) ∧
      f.toRat raw = f.significand raw.toNat / 2 ^ (f.bias + f.manBits) := by
  have hlt := BitVec.msb_eq_false_iff_two_mul_lt.mp h
  rw [two_pow_width] at hlt
  have hlow : raw.toNat < 2 ^ (f.width - 1) := by omega
  refine ⟨hlow, ?_⟩
  simp only [toRat, h, Bool.false_eq_true, if_false, Nat.mod_eq_of_lt hlow]

theorem toRat_of_msb (h : raw.msb = true) :
    2 ^ (f.width - 1) ≤ raw.toNat ∧ f.toRat raw =
      -f.significand (raw.toNat - 2 ^ (f.width - 1)) / 2 ^ (f.bias + f.manBits) := by
  have hge := BitVec.msb_eq_true_iff_two_mul_ge.mp h
  have hlt := raw.isLt
  rw [two_pow_width] at hge hlt
  have hhigh : 2 ^ (f.width - 1) ≤ raw.toNat := by omega
  refine ⟨hhigh, ?_⟩
  simp only [toRat, h, if_true, Nat.mod_eq_sub_mod hhigh, Nat.mod_eq_of_lt
    (show raw.toNat - 2 ^ (f.width - 1) < 2 ^ (f.width - 1) by omega)]

theorem toRat_le_of_twiddleIn_le {raw' : BitVec f.width}
    (h : (twiddleIn raw).toNat ≤ (twiddleIn raw').toNat) : f.toRat raw ≤ f.toRat raw' := by
  have hmono := f.significand_strictMono.monotone
  cases hmsb : raw.msb with
  | true =>
    obtain ⟨hge, hvalue⟩ := toRat_of_msb hmsb
    rw [toNat_twiddleIn_of_msb hmsb] at h
    cases hmsb' : raw'.msb with
    | true =>
      obtain ⟨hge', hvalue'⟩ := toRat_of_msb hmsb'
      rw [toNat_twiddleIn_of_msb hmsb'] at h
      have hle := hmono (show raw'.toNat - 2 ^ (f.width - 1) ≤ raw.toNat - 2 ^ (f.width - 1) by
        omega)
      rw [hvalue, hvalue']
      gcongr
    | false =>
      rw [hvalue, (toRat_of_not_msb hmsb').2]
      gcongr
      exact (neg_nonpos.mpr (Nat.cast_nonneg _)).trans (Nat.cast_nonneg _)
  | false =>
    obtain ⟨hlow, hvalue⟩ := toRat_of_not_msb hmsb
    have hkey : (twiddleIn raw).toNat = raw.toNat + 2 ^ (f.width - 1) :=
      toNat_twiddleIn_of_not_msb hmsb
    cases hmsb' : raw'.msb with
    | true =>
      have hge' := (toRat_of_msb hmsb').1
      rw [toNat_twiddleIn_of_msb hmsb', two_pow_width] at h
      omega
    | false =>
      have hkey' : (twiddleIn raw').toNat = raw'.toNat + 2 ^ (f.width - 1) :=
        toNat_twiddleIn_of_not_msb hmsb'
      have hle := hmono (show raw.toNat ≤ raw'.toNat by omega)
      rw [hvalue, (toRat_of_not_msb hmsb').2]
      gcongr

end FloatFormat

end LongCtxSpecDecode.Library
