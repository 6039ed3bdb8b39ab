import Mathlib

/-!
# Softmax of logits that may be `-inf`
-/

namespace LongCtxSpecDecode.Library.Softmax

variable {ι : Type}

noncomputable def weight : WithBot ℝ → ℝ
  | ⊥ => 0
  | (x : ℝ) => Real.exp x

@[simp] theorem weight_bot : weight ⊥ = 0 := rfl

@[simp] theorem weight_coe (x : ℝ) : weight (x : WithBot ℝ) = Real.exp x := rfl

theorem weight_nonneg (x : WithBot ℝ) : 0 ≤ weight x := by
  cases x with
  | bot => exact le_rfl
  | coe x => exact (Real.exp_pos x).le

theorem weight_eq_zero {x : WithBot ℝ} : weight x = 0 ↔ x = ⊥ := by
  cases x with
  | bot => exact iff_of_true rfl rfl
  | coe x => exact iff_of_false (Real.exp_ne_zero x) WithBot.coe_ne_bot

theorem weight_add (x : WithBot ℝ) (c : ℝ) :
    weight (x.map (· + c)) = weight x * Real.exp c := by
  cases x with
  | bot => exact (zero_mul _).symm
  | coe x => exact Real.exp_add x c

theorem eq_add_of_weight {x y : WithBot ℝ} {c : ℝ} (h : weight x = weight y * Real.exp c) :
    x = y.map (· + c) := by
  cases y with
  | bot =>
    rw [weight_bot, zero_mul, weight_eq_zero] at h
    exact h
  | coe y =>
    cases x with
    | bot =>
      rw [weight_coe, ← Real.exp_add] at h
      exact absurd h.symm (Real.exp_ne_zero _)
    | coe x =>
      rw [weight_coe, weight_coe, ← Real.exp_add] at h
      exact congrArg _ (Real.exp_injective h)

noncomputable def total (s : Finset ι) (x : ι → WithBot ℝ) : ℝ := ∑ i ∈ s, weight (x i)

/-- Softmax over `s`. Logits that are all `-inf` have no distribution: all weights are zero. -/
noncomputable def softmax (s : Finset ι) (x : ι → WithBot ℝ) (i : ι) : ℝ := weight (x i) / total s x

variable {s : Finset ι} {x y : ι → WithBot ℝ}

theorem total_nonneg : 0 ≤ total s x := Finset.sum_nonneg fun _ _ => weight_nonneg _

theorem total_eq_zero : total s x = 0 ↔ ∀ i ∈ s, x i = ⊥ := by
  unfold total
  rw [Finset.sum_eq_zero_iff_of_nonneg fun _ _ => weight_nonneg _]
  exact forall₂_congr fun i _ => weight_eq_zero

theorem softmax_eq_zero {i : ι} (hi : i ∈ s) : softmax s x i = 0 ↔ x i = ⊥ := by
  unfold softmax
  rw [div_eq_zero_iff, weight_eq_zero]
  exact ⟨fun h => h.elim id fun h => total_eq_zero.mp h i hi, Or.inl⟩

theorem softmax_congr (h : ∀ i ∈ s, x i = y i) {i : ι} (hi : i ∈ s) :
    softmax s x i = softmax s y i := by
  have htotal : total s x = total s y := Finset.sum_congr rfl fun j hj => by rw [h j hj]
  unfold softmax
  rw [h i hi, htotal]

theorem softmax_eq_iff :
    (∀ i ∈ s, softmax s x i = softmax s y i) ↔ ∃ c : ℝ, ∀ i ∈ s, x i = (y i).map (· + c) := by
  constructor
  · intro h
    by_cases hy : total s y = 0
    · refine ⟨0, fun i hi => ?_⟩
      have hbot := total_eq_zero.mp hy i hi
      rw [(softmax_eq_zero hi).mp ((h i hi).trans ((softmax_eq_zero hi).mpr hbot)), hbot]
      rfl
    · have hx : total s x ≠ 0 := by
        intro hx
        refine hy (total_eq_zero.mpr fun i hi => (softmax_eq_zero hi).mp ?_)
        rw [← h i hi]
        exact (softmax_eq_zero hi).mpr (total_eq_zero.mp hx i hi)
      have hxpos := total_nonneg.lt_of_ne' hx
      have hypos := total_nonneg.lt_of_ne' hy
      refine ⟨Real.log (total s x / total s y), fun i hi => eq_add_of_weight ?_⟩
      rw [Real.exp_log (div_pos hxpos hypos), ← mul_div_assoc, mul_div_right_comm]
      have heq := h i hi
      unfold softmax at heq
      rw [div_eq_iff hx] at heq
      exact heq
  · rintro ⟨c, hc⟩ i hi
    have htotal : total s x = total s y * Real.exp c := by
      unfold total
      rw [Finset.sum_mul]
      exact Finset.sum_congr rfl fun j hj => by rw [hc j hj, weight_add]
    unfold softmax
    rw [hc i hi, weight_add, htotal, mul_div_mul_right _ _ (Real.exp_ne_zero c)]

end LongCtxSpecDecode.Library.Softmax
