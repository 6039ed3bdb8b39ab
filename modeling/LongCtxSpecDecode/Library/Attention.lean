import LongCtxSpecDecode.Library.Softmax

/-!
# Attention over a set of keys

Softmax attention of one query to a finite set of keys, with its log-sum-exp, and the merge of two
such results. A result without keys has the log-sum-exp `-inf`.
-/

namespace LongCtxSpecDecode.Library.Attention

open Softmax

variable {ι κ : Type} (S T : Finset ι) (score value : ι → ℝ)

noncomputable def sumExp : ℝ := ∑ j ∈ S, Real.exp (score j)

noncomputable def lse : ℝ := Real.log (sumExp S score)

noncomputable def attend : ℝ := (∑ j ∈ S, Real.exp (score j) * value j) / sumExp S score

noncomputable def merge (pOut : ℝ) (pLse : WithBot ℝ) (sOut : ℝ) (sLse : WithBot ℝ) :
    ℝ × WithBot ℝ :=
  match max pLse sLse with
  | ⊥ => (0, ⊥)
  | (maxLse : ℝ) =>
    let pSe := weight (pLse.map (· - maxLse))
    let sSe := weight (sLse.map (· - maxLse))
    let outSe := pSe + sSe
    (pOut * (pSe / outSe) + sOut * (sSe / outSe), ((Real.log outSe + maxLse : ℝ) : WithBot ℝ))

variable {S T score value}

theorem merge_snd (pOut sOut : ℝ) (p s : WithBot ℝ) :
    (merge pOut p sOut s).2 = (merge 0 p 0 s).2 := by
  unfold merge
  cases max p s <;> rfl

theorem sumExp_pos (hS : S.Nonempty) : 0 < sumExp S score :=
  Finset.sum_pos (fun _ _ => Real.exp_pos _) hS

theorem exp_lse (hS : S.Nonempty) : Real.exp (lse S score) = sumExp S score :=
  Real.exp_log (sumExp_pos hS)

theorem merge_coe (pOut p sOut s : ℝ) : merge pOut p sOut s =
    ((Real.exp p * pOut + Real.exp s * sOut) / (Real.exp p + Real.exp s),
      ((Real.log (Real.exp p + Real.exp s) : ℝ) : WithBot ℝ)) := by
  have hmax : max (p : WithBot ℝ) s = (max p s : ℝ) := (WithBot.coe_max p s).symm
  unfold merge
  rw [hmax]
  generalize max p s = m
  have hweight : ∀ x : ℝ, weight ((x : WithBot ℝ).map (· - m)) = Real.exp x / Real.exp m :=
    fun x => Real.exp_sub x m
  have hpos : 0 < Real.exp p + Real.exp s := add_pos (Real.exp_pos p) (Real.exp_pos s)
  dsimp only
  rw [hweight, hweight, ← add_div, Real.log_div hpos.ne' (Real.exp_ne_zero m), Real.log_exp,
    div_div_div_cancel_right₀ (Real.exp_ne_zero m),
    div_div_div_cancel_right₀ (Real.exp_ne_zero m), sub_add_cancel]
  refine Prod.ext ?_ rfl
  ring

theorem merge_bot (pOut sOut s : ℝ) : merge pOut ⊥ sOut s = (sOut, (s : WithBot ℝ)) := by
  have hmax : max (⊥ : WithBot ℝ) s = (s : WithBot ℝ) := max_eq_right bot_le
  have hweight : weight ((s : WithBot ℝ).map (· - s)) = 1 := by
    rw [WithBot.map_coe, weight_coe, sub_self, Real.exp_zero]
  unfold merge
  rw [hmax]
  dsimp only
  rw [hweight, WithBot.map_bot, weight_bot, zero_add, zero_div, mul_zero, zero_add,
    div_one, mul_one,
    Real.log_one, zero_add]

theorem sumExp_union [DecidableEq ι] (hdisjoint : Disjoint S T) :
    sumExp (S ∪ T) score = sumExp S score + sumExp T score :=
  Finset.sum_union hdisjoint

theorem merge_attend [DecidableEq ι] (hdisjoint : Disjoint S T) (hS : S.Nonempty)
    (hT : T.Nonempty) :
    merge (attend S score value) (lse S score) (attend T score value) (lse T score) =
      (attend (S ∪ T) score value, (lse (S ∪ T) score : WithBot ℝ)) := by
  rw [merge_coe, exp_lse hS, exp_lse hT, ← sumExp_union hdisjoint]
  unfold attend
  rw [mul_div_cancel₀ _ (sumExp_pos hS).ne', mul_div_cancel₀ _ (sumExp_pos hT).ne',
    ← Finset.sum_union hdisjoint]
  rfl

section map

variable (f : κ ↪ ι) (K : Finset κ)

theorem lse_map : lse (K.map f) score = lse K (score ∘ f) :=
  congrArg Real.log (Finset.sum_map K f _)

theorem attend_map : attend (K.map f) score value = attend K (score ∘ f) (value ∘ f) :=
  congrArg₂ (· / ·) (Finset.sum_map K f _) (Finset.sum_map K f _)

end map

theorem lse_congr {score' : ι → ℝ} (h : ∀ j ∈ S, score j = score' j) :
    lse S score = lse S score' :=
  congrArg Real.log (Finset.sum_congr rfl fun j hj => by rw [h j hj])

theorem attend_congr {score' value' : ι → ℝ} (h : ∀ j ∈ S, score j = score' j)
    (hvalue : ∀ j ∈ S, value j = value' j) : attend S score value = attend S score' value' :=
  congrArg₂ (· / ·) (Finset.sum_congr rfl fun j hj => by rw [h j hj, hvalue j hj])
    (Finset.sum_congr rfl fun j hj => by rw [h j hj])

end LongCtxSpecDecode.Library.Attention
