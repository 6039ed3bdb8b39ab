import Mathlib

/-!
# Borders

The first `v` entries of a sequence are a border of its first `e` entries when they are also
the last `v` of these, and fewer.
-/

namespace LongCtxSpecDecode.Library

variable {α : Type} {t : Nat → α} {v w e : Nat}

def Border (t : Nat → α) (v e : Nat) : Prop := v < e ∧ ∀ j < v, t (e - v + j) = t j

theorem border_zero (he : 0 < e) : Border t 0 e :=
  ⟨he, nofun⟩

theorem Border.trans (h : Border t v e) (h' : Border t w v) : Border t w e := by
  obtain ⟨hve, hv⟩ := h
  obtain ⟨hwv, hw⟩ := h'
  refine ⟨Nat.lt_trans hwv hve, fun j hj => ?_⟩
  have hindex : e - w + j = e - v + (v - w + j) := by omega
  rw [hindex, hv (v - w + j) (by omega), hw j hj]

theorem Border.of_lt (h : Border t v e) (h' : Border t w e) (hwv : w < v) : Border t w v := by
  obtain ⟨hve, hv⟩ := h
  refine ⟨hwv, fun j hj => ?_⟩
  have hindex : e - w + j = e - v + (v - w + j) := by omega
  rw [← hv (v - w + j) (by omega), ← hindex, h'.2 j hj]

theorem border_succ_iff : Border t (v + 1) (e + 1) ↔ Border t v e ∧ t v = t e := by
  unfold Border
  rw [Nat.add_sub_add_right, Nat.add_lt_add_iff_right, Nat.forall_lt_succ_right, and_assoc]
  refine and_congr_right fun hve => and_congr_right fun _ => ?_
  rw [Nat.sub_add_cancel (Nat.le_of_lt hve), eq_comm]

end LongCtxSpecDecode.Library
