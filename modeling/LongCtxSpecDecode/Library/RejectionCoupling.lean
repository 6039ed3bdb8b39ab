import Mathlib

/-!
# Sampling by drafts and rejection

A draft is drawn from `q` and kept with a probability that leaves the overlap of `q` with the
target `p`; otherwise the token is drawn from what is left of `p`. A run drafts token after token
and ends with the first rejected draft, or with one more token after the last one.
-/

namespace LongCtxSpecDecode.Library.RejectionCoupling

open List

open scoped ENNReal

variable {V : Type}

def KeepsOverlap (p q : PMF V) (a : V → PMF Bool) : Prop :=
  ∀ d, q d * a d true = min (p d) (q d)

noncomputable def excess (p q : PMF V) : ℝ≥0∞ := tsum fun x => p x - q x

def InProportion (r : PMF V) (w : V → ℝ≥0∞) : Prop :=
  tsum w ≠ 0 → ∀ x, r x = w x / tsum w

def IsResidual (p q r : PMF V) : Prop := InProportion r fun x => p x - q x

theorem bind_congr_support {α β : Type} {law : PMF α} {f g : α → PMF β}
    (h : ∀ a ∈ law.support, f a = g a) : law.bind f = law.bind g := by
  ext b
  refine tsum_congr fun a => ?_
  by_cases ha : law a = 0
  · rw [ha, zero_mul, zero_mul]
  · rw [h a ha]

theorem InProportion.mix {ι : Type} {choice : PMF ι} {r : ι → PMF V} {w : V → ℝ≥0∞}
    (h : ∀ i ∈ choice.support, InProportion (r i) w) : InProportion (choice.bind r) w := by
  intro hmass x
  have hterm : ∀ i, choice i * r i x = choice i * (w x / tsum w) := by
    intro i
    by_cases hi : choice i = 0
    · rw [hi, zero_mul, zero_mul]
    · rw [h i hi hmass x]
  rw [PMF.bind_apply, tsum_congr hterm, ENNReal.tsum_mul_right, choice.tsum_coe, one_mul]

theorem excess_ne_top (p q : PMF V) : excess p q ≠ ∞ :=
  ne_top_of_le_ne_top p.tsum_coe_ne_top (ENNReal.tsum_le_tsum fun _ => tsub_le_self)

theorem excess_comm (p q : PMF V) : excess q p = excess p q := by
  have hfinite : (tsum fun x => min (p x) (q x)) ≠ ∞ :=
    ne_top_of_le_ne_top p.tsum_coe_ne_top (ENNReal.tsum_le_tsum fun x => min_le_left ..)
  have hp : (excess p q + tsum fun x => min (p x) (q x)) = 1 := by
    unfold excess
    rw [← ENNReal.tsum_add, ← p.tsum_coe]
    exact tsum_congr fun x => tsub_add_min
  have hq : (excess q p + tsum fun x => min (p x) (q x)) = 1 := by
    unfold excess
    rw [← ENNReal.tsum_add, ← q.tsum_coe]
    exact tsum_congr fun x => by rw [min_comm, tsub_add_min]
  exact (ENNReal.add_left_inj hfinite).mp (hq.trans hp.symm)

/-- The law of a token: the draft, if it is kept, and otherwise a token from `r`. -/
noncomputable def couple (q : PMF V) (a : V → PMF Bool) (r : V → PMF V) : PMF V :=
  q.bind fun d => (a d).bind fun kept => if kept then PMF.pure d else r d

theorem couple_apply (q : PMF V) (a : V → PMF Bool) (r : V → PMF V) (x : V) :
    couple q a r x = q x * a x true + tsum fun d => q d * a d false * r d x := by
  classical
  have hterm : ∀ d, q d * ((a d).bind fun kept => if kept then PMF.pure d else r d) x =
      (if d = x then q d * a d true else 0) + q d * a d false * r d x := by
    intro d
    rw [PMF.bind_apply, tsum_bool, mul_add, add_comm]
    congr 1
    · by_cases hd : d = x
      · subst hd
        simp
      · simp [hd, Ne.symm hd]
    · simp [mul_assoc]
  unfold couple
  rw [PMF.bind_apply, tsum_congr hterm, ENNReal.tsum_add]
  rw [tsum_eq_single x fun d hd => if_neg hd, if_pos rfl]

theorem KeepsOverlap.rejected {p q : PMF V} {a : V → PMF Bool} (h : KeepsOverlap p q a) (d : V) :
    q d * a d false = q d - p d := by
  have hsum : q d * a d true + q d * a d false = q d := by
    have hone := (a d).tsum_coe
    rw [tsum_bool, add_comm] at hone
    rw [← mul_add, hone, mul_one]
  have hfinite : min (p d) (q d) ≠ ∞ := ne_top_of_le_ne_top (p.apply_ne_top d) (min_le_left ..)
  have hmin : min (p d) (q d) + q d * a d false = min (p d) (q d) + (q d - p d) := by
    rw [← h d, hsum, h d, add_comm, min_comm, tsub_add_min]
  exact (ENNReal.add_right_inj hfinite).mp hmin

theorem couple_eq {p q : PMF V} {a : V → PMF Bool} {r : V → PMF V} (ha : KeepsOverlap p q a)
    (hr : ∀ d ∈ q.support, IsResidual p q (r d)) : couple q a r = p := by
  ext x
  have hreject : (tsum fun d => q d * a d false * r d x) = p x - q x := by
    rw [tsum_congr fun d => by rw [ha.rejected d]]
    by_cases hmass : excess p q = 0
    · have hq : ∀ d, q d - p d = 0 := ENNReal.tsum_eq_zero.mp ((excess_comm p q).trans hmass)
      have hp : p x - q x = 0 := ENNReal.tsum_eq_zero.mp hmass x
      rw [hp]
      exact ENNReal.tsum_eq_zero.mpr fun d => by rw [hq d, zero_mul]
    · have hterm : ∀ d, (q d - p d) * r d x = (q d - p d) * ((p x - q x) / excess p q) := by
        intro d
        by_cases hd : q d = 0
        · rw [hd, zero_tsub, zero_mul, zero_mul]
        · rw [hr d hd hmass x]
          rfl
      rw [tsum_congr hterm, ENNReal.tsum_mul_right]
      change excess q p * (_ / excess p q) = _
      rw [excess_comm, ENNReal.mul_div_cancel hmass (excess_ne_top p q)]
  rw [couple_apply, ha x, hreject, add_comm, tsub_add_min]

/-- A sequence of `n` tokens, each drawn from the target after the tokens before it. -/
noncomputable def ancestral (p : List V → PMF V) : Nat → PMF (List V)
  | 0 => PMF.pure []
  | n + 1 => (p []).bind fun x => (ancestral (fun h => p (x :: h)) n).map (x :: ·)

/-- The first tokens of a sequence, completed to `n` tokens by the target. -/
noncomputable def complete (p : List V → PMF V) (n : Nat) (out : List V) : PMF (List V) :=
  (ancestral (fun h => p (out ++ h)) (n - out.length)).map (out ++ ·)

/-- The sequences that have a token after the tokens `h`. -/
def reached (h : List V) : Set (List V) := {out | h <+: out ∧ h.length < out.length}

/-- The sequences that have the token `x` after the tokens `h`. -/
def hits (h : List V) (x : V) : Set (List V) := {out | h ++ [x] <+: out}

/-- A law of sequences of at most `n + 1` tokens that stop early, but otherwise are drawn from
the target. -/
structure Lossless (p : List V → PMF V) (n : Nat) (law : PMF (List V)) : Prop where
  completed : law.bind (complete p (n + 1)) = ancestral p (n + 1)
  position : ∀ h x, h.length ≤ n →
    law.toOuterMeasure (hits h x) = law.toOuterMeasure (reached h) * p h x

theorem complete_cons (p : List V → PMF V) (n : Nat) (x : V) (out : List V) :
    complete p (n + 1) (x :: out) = (complete (fun h => p (x :: h)) n out).map (x :: ·) := by
  unfold complete
  rw [PMF.map_comp, length_cons, Nat.add_sub_add_right]
  rfl

theorem complete_nil (p : List V → PMF V) (n : Nat) : complete p n [] = ancestral p n :=
  PMF.map_id _

theorem complete_of_length (p : List V → PMF V) (out : List V) :
    complete p out.length out = PMF.pure out := by
  unfold complete
  rw [Nat.sub_self, ancestral, PMF.pure_map, append_nil]

theorem toOuterMeasure_univ {α : Type} (law : PMF α) : law.toOuterMeasure Set.univ = 1 :=
  (law.toOuterMeasure_apply_eq_one_iff _).mpr (Set.subset_univ _)

theorem Lossless.zero (p : List V → PMF V) : Lossless p 0 ((p []).map fun x => [x]) := by
  constructor
  · rw [PMF.bind_map]
    refine congrArg (PMF.bind (p [])) (funext fun x => ?_)
    exact (complete_of_length p [x]).trans (PMF.pure_map ..).symm
  · intro h x hlen
    obtain rfl := length_eq_zero_iff.mp (Nat.le_zero.mp hlen)
    have hfirst : Set.preimage (fun x => [x]) (hits [] x) = {x} := by
      simp [hits]
    have hall : Set.preimage (fun x : V => [x]) (reached []) = Set.univ := by
      simp [reached]
    rw [PMF.toOuterMeasure_map_apply, PMF.toOuterMeasure_map_apply, hfirst, hall,
      PMF.toOuterMeasure_apply_singleton, toOuterMeasure_univ, one_mul]

section step

variable {p : List V → PMF V} {q : PMF V} {a : V → PMF Bool} {r : V → PMF V} {n : Nat}

noncomputable def draftThen (q : PMF V) (a : V → PMF Bool) (r : V → PMF V)
    (rest : V → PMF (List V)) : PMF (List V) :=
  q.bind fun d => (a d).bind fun kept =>
    if kept then (rest d).map (d :: ·) else (r d).map fun x => [x]

theorem toOuterMeasure_draftThen (rest : V → PMF (List V)) (s : Set (List V)) :
    (draftThen q a r rest).toOuterMeasure s =
      tsum fun d => q d * (a d true * (rest d).toOuterMeasure (Set.preimage (d :: ·) s) +
        a d false * (r d).toOuterMeasure (Set.preimage (fun x => [x]) s)) := by
  unfold draftThen
  rw [PMF.toOuterMeasure_bind_apply]
  refine tsum_congr fun d => ?_
  simp

theorem draftThen_first (rest : V → PMF (List V)) (x : V) :
    (draftThen q a r rest).toOuterMeasure (hits [] x) = couple q a r x := by
  classical
  rw [toOuterMeasure_draftThen]
  refine tsum_congr fun d => ?_
  have hkept : Set.preimage (d :: ·) (hits [] x) = if d = x then Set.univ else ∅ := by
    by_cases hd : d = x
    · simp [hits, hd]
    · simp [hits, hd, Ne.symm hd]
  have hdrawn : Set.preimage (fun y => [y]) (hits [] x) = {x} := by
    simp [hits]
  rw [hkept, hdrawn, PMF.bind_apply, tsum_bool, add_comm, PMF.toOuterMeasure_apply_singleton]
  by_cases hd : d = x
  · rw [if_pos hd, toOuterMeasure_univ, hd]
    simp
  · rw [if_neg hd]
    simp [Ne.symm hd]

theorem draftThen_later (rest : V → PMF (List V)) (y : V) (s s' : Set (List V))
    (hkept : ∀ out, y :: out ∈ s ↔ out ∈ s') (hother : ∀ d out, d ≠ y → d :: out ∉ s)
    (hdrawn : ∀ x, [x] ∉ s) :
    (draftThen q a r rest).toOuterMeasure s =
      q y * a y true * (rest y).toOuterMeasure s' := by
  rw [toOuterMeasure_draftThen]
  have hempty : Set.preimage (fun x : V => [x]) s = ∅ := Set.eq_empty_of_forall_notMem hdrawn
  rw [hempty, tsum_eq_single y]
  · have hset : Set.preimage (y :: ·) s = s' := Set.ext hkept
    rw [hset, MeasureTheory.measure_empty, mul_zero, add_zero, mul_assoc]
  · intro d hd
    have hset : Set.preimage (d :: ·) s = ∅ := Set.eq_empty_of_forall_notMem (hother d · hd)
    rw [hset, MeasureTheory.measure_empty, MeasureTheory.measure_empty, mul_zero,
      mul_zero, add_zero,
      mul_zero]

theorem draftThen_ne_nil {rest : V → PMF (List V)} {out : List V}
    (h : out ∈ (draftThen q a r rest).support) : out ≠ [] := by
  obtain ⟨d, -, hd⟩ := (PMF.mem_support_bind_iff ..).mp h
  obtain ⟨kept, -, hkept⟩ := (PMF.mem_support_bind_iff ..).mp hd
  cases kept with
  | true =>
    obtain ⟨rest, -, rfl⟩ := (PMF.mem_support_map_iff ..).mp hkept
    exact cons_ne_nil _ _
  | false =>
    obtain ⟨x, -, rfl⟩ := (PMF.mem_support_map_iff ..).mp hkept
    exact cons_ne_nil _ _

theorem Lossless.step {rest : V → PMF (List V)} (ha : KeepsOverlap (p []) q a)
    (hr : ∀ d ∈ q.support, IsResidual (p []) q (r d))
    (hrest : ∀ d ∈ q.support, Lossless (fun h => p (d :: h)) n (rest d)) :
    Lossless p (n + 1) (draftThen q a r rest) := by
  have htoken := couple_eq ha hr
  constructor
  · have hbranch : ∀ d ∈ q.support, ∀ kept, (if kept = true then (rest d).map (d :: ·)
        else (r d).map fun x => [x]).bind (complete p (n + 2)) =
        (if kept = true then PMF.pure d else r d).bind fun x =>
          (ancestral (fun h => p (x :: h)) (n + 1)).map (x :: ·) := by
      intro d hd kept
      cases kept with
      | true =>
        rw [if_pos rfl, if_pos rfl, PMF.bind_map, PMF.pure_bind, ← (hrest d hd).completed,
          PMF.map_bind]
        exact congrArg _ (funext fun out => complete_cons p (n + 1) d out)
      | false =>
        rw [if_neg Bool.false_ne_true, PMF.bind_map]
        refine congrArg _ (funext fun x => ?_)
        exact (complete_cons p (n + 1) x []).trans (congrArg _ (complete_nil _ _))
    unfold draftThen
    rw [ancestral, ← htoken, couple, PMF.bind_bind, PMF.bind_bind]
    refine bind_congr_support fun d hd => ?_
    rw [PMF.bind_bind, PMF.bind_bind]
    exact congrArg _ (funext fun kept => hbranch d hd kept)
  · intro h x hlen
    cases h with
    | nil =>
      have hall : (draftThen q a r rest).toOuterMeasure (reached []) = 1 := by
        rw [PMF.toOuterMeasure_apply_eq_one_iff]
        intro out hout
        exact ⟨List.nil_prefix, length_pos_iff.mpr (draftThen_ne_nil hout)⟩
      rw [draftThen_first, htoken, hall, one_mul]
    | cons y h =>
      have hhits : (draftThen q a r rest).toOuterMeasure (hits (y :: h) x) =
          q y * a y true * (rest y).toOuterMeasure (hits h x) := by
        refine draftThen_later rest y _ _ (fun out => ?_) (fun d out hd => ?_) fun z => ?_
        · simp [hits]
        · simp [hits, Ne.symm hd]
        · simp [hits]
      have hreached : (draftThen q a r rest).toOuterMeasure (reached (y :: h)) =
          q y * a y true * (rest y).toOuterMeasure (reached h) := by
        refine draftThen_later rest y _ _ (fun out => ?_) (fun d out hd => ?_) fun z => ?_
        · simp [reached]
        · simp [reached, Ne.symm hd]
        · simp [reached]
      rw [hhits, hreached]
      by_cases hy : q y = 0
      · rw [hy, zero_mul, zero_mul, zero_mul, zero_mul]
      · rw [(hrest y hy).position h x (Nat.le_of_succ_le_succ hlen), ← mul_assoc]

end step

variable {p : List V → PMF V}

theorem Lossless.mix {ι : Type} {n : Nat} (choice : PMF ι) {law : ι → PMF (List V)}
    (h : ∀ i ∈ choice.support, Lossless p n (law i)) : Lossless p n (choice.bind law) := by
  constructor
  · rw [PMF.bind_bind]
    exact (bind_congr_support fun i hi => (h i hi).completed).trans (PMF.bind_const choice _)
  · intro hist x hlen
    rw [PMF.toOuterMeasure_bind_apply, PMF.toOuterMeasure_bind_apply, ← ENNReal.tsum_mul_right]
    refine tsum_congr fun i => ?_
    by_cases hi : choice i = 0
    · rw [hi, zero_mul, zero_mul, zero_mul]
    · rw [(h i hi).position hist x hlen, mul_assoc]

theorem length_of_mem_ancestral {n : Nat} {out : List V} (h : out ∈ (ancestral p n).support) :
    out.length = n := by
  induction n generalizing p out with
  | zero =>
    rw [ancestral, PMF.mem_support_pure_iff] at h
    rw [h, length_nil]
  | succ n ih =>
    obtain ⟨x, -, hx⟩ := (PMF.mem_support_bind_iff ..).mp h
    obtain ⟨rest, hrest, rfl⟩ := (PMF.mem_support_map_iff ..).mp hx
    rw [length_cons, ih hrest]

noncomputable def pointLaw (p : List V → PMF V) (ds h : List V) : PMF V :=
  match ds[h.length]? with
  | some d => PMF.pure d
  | none => p h

theorem pointLaw_take {ds : List V} {j : Nat} (hj : j < ds.length) :
    pointLaw p ds (ds.take j) = PMF.pure ds[j] := by
  unfold pointLaw
  rw [length_take_of_le (Nat.le_of_lt hj), getElem?_eq_getElem hj]

theorem ancestral_pointLaw (p : List V → PMF V) (ds : List V) :
    ancestral (pointLaw p ds) ds.length = PMF.pure ds := by
  induction ds generalizing p with
  | nil => rfl
  | cons d ds ih =>
    rw [length_cons, ancestral]
    have hfirst : pointLaw p (d :: ds) [] = PMF.pure d := rfl
    have hrest := ih fun h => p (d :: h)
    rw [hfirst, PMF.pure_bind]
    exact (congrArg (PMF.map (d :: ·)) hrest).trans (PMF.pure_map ..)

end LongCtxSpecDecode.Library.RejectionCoupling
