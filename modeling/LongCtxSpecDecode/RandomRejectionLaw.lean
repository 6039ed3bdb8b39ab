import LongCtxSpecDecode.RandomRejection
import LongCtxSpecDecode.Library.RejectionCoupling

/-!
# The law of the tokens that random rejection emits
-/

namespace LongCtxSpecDecode

open MeasureTheory Library.RejectionCoupling Library.Ragged
open scoped ENNReal

/-! What a function of the uniform numbers yields. -/

section draws

variable {Ω α : Type} [MeasurableSpace Ω]

/-- The law of `f`. -/
noncomputable def lawOf [Countable α] (μ : Measure Ω) [IsProbabilityMeasure μ] (f : Ω → α)
    (hf : ∀ a, MeasurableSet {ω | f ω = a}) : PMF α :=
  ⟨fun a => μ {ω | f ω = a}, ENNReal.summable.hasSum_iff.mpr <| by
    have hdisjoint : Pairwise (Function.onFun Disjoint fun a => {ω | f ω = a}) := by
      intro a b hab
      exact Set.disjoint_left.mpr fun ω ha hb => hab (ha.symm.trans hb)
    have hcover : (⋃ a, {ω | f ω = a}) = Set.univ :=
      Set.eq_univ_of_forall fun ω => Set.mem_iUnion.mpr ⟨f ω, rfl⟩
    rw [← measure_iUnion hdisjoint hf, hcover, measure_univ]⟩

theorem lawOf_apply [Countable α] {μ : Measure Ω} [IsProbabilityMeasure μ] {f : Ω → α}
    (hf : ∀ a, MeasurableSet {ω | f ω = a}) (a : α) : lawOf μ f hf a = μ {ω | f ω = a} := rfl

theorem lawOf_map_apply {β : Type} [Countable α] {μ : Measure Ω} [IsProbabilityMeasure μ]
    {f : Ω → α} (hf : ∀ a, MeasurableSet {ω | f ω = a}) (g : α → β) (b : β) :
    (lawOf μ f hf).map g b = μ {ω | g (f ω) = b} := by
  have hcover : {ω | g (f ω) = b} = ⋃ a, {ω | f ω = a ∧ b = g a} := by
    ext ω
    simp [eq_comm]
  have hdisjoint : Pairwise (Function.onFun Disjoint fun a => {ω | f ω = a ∧ b = g a}) := by
    intro a a' hne
    exact Set.disjoint_left.mpr fun ω ha ha' => hne (ha.1.symm.trans ha'.1)
  rw [hcover, measure_iUnion hdisjoint fun a => (hf a).inter (MeasurableSet.const _)]
  refine tsum_congr fun a => ?_
  by_cases hb : b = g a
  · simp [hb, lawOf_apply]
  · simp [hb]

theorem pi_cons {n : Nat} (μ : Measure Ω) [IsProbabilityMeasure μ] (A : Set Ω)
    (B : Set (Fin n → Ω)) :
    Measure.pi (fun _ : Fin (n + 1) => μ) {us | us 0 ∈ A ∧ (fun i => us (Fin.succ i)) ∈ B} =
      μ A * Measure.pi (fun _ => μ) B := by
  have hsplit :=
    (measurePreserving_piFinSuccAbove (fun _ : Fin (n + 1) => μ) 0).measure_preimage_equiv
    (A ×ˢ B)
  rw [Measure.prod_prod] at hsplit
  exact hsplit

end draws

/-! The test of the kernel. -/

section test

open RandomInputs

/-- `torch.rand`. -/
noncomputable def uniformLaw : Measure ℝ := volume.restrict (Set.Ico 0 1)

instance : IsProbabilityMeasure uniformLaw := ⟨by simp [uniformLaw]⟩

theorem setOf_accepts {draftProb : ℝ} (hpos : 0 < draftProb) (targetProb : ℝ) :
    {u | Accepts draftProb targetProb u} = Set.Iic (targetProb / draftProb) :=
  Set.ext fun _ => ⟨fun h => h.2, fun h => ⟨hpos, h⟩⟩

theorem measurableSet_accepts (draftProb targetProb : ℝ) :
    MeasurableSet {u | Accepts draftProb targetProb u} := by
  by_cases hpos : 0 < draftProb
  · rw [setOf_accepts hpos]
    exact measurableSet_Iic
  · have hempty : {u | Accepts draftProb targetProb u} = ∅ :=
      Set.eq_empty_of_forall_notMem fun u h => hpos h.1
    rw [hempty]
    exact MeasurableSet.empty

theorem uniformLaw_Iic (c : ℝ) : uniformLaw (Set.Iic c) = min 1 (ENNReal.ofReal c) := by
  unfold uniformLaw
  rw [Measure.restrict_apply measurableSet_Iic]
  rcases le_or_gt 1 c with hone | hone
  · grind [Real.volume_Ico, ENNReal.ofReal_one, Set.inter_eq_right, ENNReal.one_le_ofReal]
  · have hset : Set.Iic c ∩ Set.Ico 0 1 = Set.Icc 0 c :=
      Set.ext fun u => ⟨fun hu => ⟨hu.2.1, hu.1⟩, fun hu => ⟨hu.2, hu.1, hu.2.trans_lt hone⟩⟩
    rw [hset, Real.volume_Icc, sub_zero, min_eq_right (ENNReal.ofReal_le_one.mpr hone.le)]

variable {V : Type}

/-- The law of the test of draft `d`. -/
noncomputable def acceptLaw (p q : PMF V) (d : V) : PMF Bool :=
  lawOf uniformLaw (fun u => decide (Accepts (q d).toReal (p d).toReal u)) fun kept => by
    have htrue := measurableSet_accepts (q d).toReal (p d).toReal
    cases kept with
    | true => simpa using htrue
    | false => simpa [Set.compl_ofPred] using htrue.compl

theorem acceptLaw_true (p q : PMF V) (d : V) :
    acceptLaw p q d true = uniformLaw {u | Accepts (q d).toReal (p d).toReal u} := by
  refine congrArg uniformLaw (Set.ext fun u => ?_)
  exact decide_eq_true_iff

theorem acceptLaw_false (p q : PMF V) (d : V) :
    acceptLaw p q d false = uniformLaw {u | ¬Accepts (q d).toReal (p d).toReal u} := by
  refine congrArg uniformLaw (Set.ext fun u => ?_)
  exact decide_eq_false_iff_not

theorem keepsOverlap_acceptLaw (p q : PMF V) : KeepsOverlap p q (acceptLaw p q) := by
  intro d
  by_cases hzero : q d = 0
  · rw [hzero, zero_mul, min_eq_right zero_le]
  · have hpos : 0 < (q d).toReal := ENNReal.toReal_pos hzero (q.apply_ne_top d)
    rw [acceptLaw_true, setOf_accepts hpos,
      uniformLaw_Iic, ENNReal.ofReal_div_of_pos hpos, ENNReal.ofReal_toReal (p.apply_ne_top d),
      ENNReal.ofReal_toReal (q.apply_ne_top d), mul_min, mul_one,
      ENNReal.mul_div_cancel hzero (q.apply_ne_top d), min_comm]

end test

/-! One request. -/

section request

variable {V : Type}

/-- The tokens of a request with drafts `ds`, recovered tokens `rs` and uniform numbers `us`, for
a target law and a draft law of each token after the drafts before it. -/
noncomputable def drawn (b : V) : (p q : List V → PMF V) → (ds : List V) → (rs : Nat → V) →
    (us : Nat → ℝ) → List V
  | _, _, [], _, _ => [b]
  | p, q, d :: ds, rs, us =>
    if RandomInputs.Accepts (q [] d).toReal (p [] d).toReal (us 0) then
      d :: drawn b (fun h => p (d :: h)) (fun h => q (d :: h)) ds (fun j => rs (j + 1))
        fun j => us (j + 1)
    else [rs 0]

/-- The uniform numbers of a request with `n` drafts. -/
def padded {n : Nat} (us : Fin n → ℝ) (j : Nat) : ℝ := if h : j < n then us ⟨j, h⟩ else 0

theorem padded_succ {n : Nat} (us : Fin (n + 1) → ℝ) (j : Nat) :
    padded us (j + 1) = padded (fun i => us (Fin.succ i)) j := by
  exact dite_congr (propext Nat.succ_lt_succ_iff) (fun _ => rfl) fun _ => rfl

theorem measurable_padded {n : Nat} : Measurable (padded (n := n)) := by
  refine measurable_pi_iff.mpr fun j => ?_
  unfold padded
  split
  · exact measurable_pi_apply _
  · exact measurable_const

theorem measurableSet_drawn (b : V) (p q : List V → PMF V) (ds : List V) (rs : Nat → V)
    (S : List V → Prop) : MeasurableSet {us : Nat → ℝ | S (drawn b p q ds rs us)} := by
  induction ds generalizing p q rs S with
  | nil => exact MeasurableSet.const (S [b])
  | cons d ds ih =>
    have htest : MeasurableSet {us : Nat → ℝ |
        RandomInputs.Accepts (q [] d).toReal (p [] d).toReal (us 0)} :=
      (measurableSet_accepts (q [] d).toReal (p [] d).toReal).preimage (measurable_pi_apply 0)
    have hshift : Measurable fun (us : Nat → ℝ) j => us (j + 1) :=
      measurable_pi_iff.mpr fun j => measurable_pi_apply (j + 1)
    have hkept := (ih (fun h => p (d :: h)) (fun h => q (d :: h)) (fun j => rs (j + 1))
      fun out => S (d :: out)).preimage hshift
    have hset : {us : Nat → ℝ | S (drawn b p q (d :: ds) rs us)} =
        {us | RandomInputs.Accepts (q [] d).toReal (p [] d).toReal (us 0) ∧
            S (d :: drawn b (fun h => p (d :: h)) (fun h => q (d :: h)) ds
              (fun j => rs (j + 1)) fun j => us (j + 1))} ∪
          {us | ¬RandomInputs.Accepts (q [] d).toReal (p [] d).toReal (us 0) ∧ S [rs 0]} := by
      ext us
      by_cases haccept : RandomInputs.Accepts (q [] d).toReal (p [] d).toReal (us 0)
      · simp [drawn, haccept]
      · simp [drawn, haccept]
    rw [hset]
    exact (htest.inter hkept).union (htest.compl.inter (MeasurableSet.const _))

variable [Countable V]

noncomputable def uniformRow (n : Nat) (b : V) (p q : List V → PMF V) (ds : List V)
    (rs : Nat → V) : PMF (List V) :=
  lawOf (Measure.pi fun _ : Fin n => uniformLaw) (fun us => drawn b p q ds rs (padded us))
    fun out => (measurableSet_drawn b p q ds rs (· = out)).preimage measurable_padded

theorem uniformRow_nil (b : V) (p q : List V → PMF V) (rs : Nat → V) :
    uniformRow 0 b p q [] rs = PMF.pure [b] := by
  ext out
  by_cases hout : out = [b]
  · simp [uniformRow, lawOf_apply, drawn, hout]
  · simp [uniformRow, lawOf_apply, drawn, hout, Ne.symm hout]

theorem uniformRow_cons (n : Nat) (b : V) (p q : List V → PMF V) (d : V) (ds : List V)
    (rs : Nat → V) :
    uniformRow (n + 1) b p q (d :: ds) rs = (acceptLaw (p []) (q []) d).bind fun kept =>
      if kept then
        (uniformRow n b (fun h => p (d :: h)) (fun h => q (d :: h)) ds fun j => rs (j + 1)).map
          (d :: ·)
      else PMF.pure [rs 0] := by
  ext out
  set A : Set ℝ := {u | RandomInputs.Accepts (q [] d).toReal (p [] d).toReal u} with hA
  set B : Set (Fin n → ℝ) := {us | d :: drawn b (fun h => p (d :: h)) (fun h => q (d :: h)) ds
    (fun j => rs (j + 1)) (padded us) = out} with hB
  set C : Set (Fin n → ℝ) := {us | [rs 0] = out} with hC
  have hset : {us : Fin (n + 1) → ℝ | drawn b p q (d :: ds) rs (padded us) = out} =
      {us | us 0 ∈ Aᶜ ∧ (fun i => us (Fin.succ i)) ∈ C} ∪
        {us | us 0 ∈ A ∧ (fun i => us (Fin.succ i)) ∈ B} := by
    ext us
    have hzero : padded us 0 = us 0 := dif_pos (Nat.succ_pos n)
    by_cases haccept : RandomInputs.Accepts (q [] d).toReal (p [] d).toReal (us 0)
    · simp [drawn, hA, hB, hzero, haccept, padded_succ]
    · simp [drawn, hA, hC, hzero, haccept]
  have hdisjoint : Disjoint {us : Fin (n + 1) → ℝ | us 0 ∈ Aᶜ ∧ (fun i => us (Fin.succ i)) ∈ C}
      {us | us 0 ∈ A ∧ (fun i => us (Fin.succ i)) ∈ B} :=
    Set.disjoint_left.mpr fun us hus hus' => hus.1 hus'.1
  have hmeasurable : MeasurableSet {us : Fin (n + 1) → ℝ |
      us 0 ∈ Aᶜ ∧ (fun i => us (Fin.succ i)) ∈ C} :=
    ((measurableSet_accepts _ _).compl.preimage (measurable_pi_apply 0)).inter
      (MeasurableSet.const _)
  rw [PMF.bind_apply, tsum_bool, acceptLaw_true, acceptLaw_false]
  unfold uniformRow
  rw [lawOf_apply, hset, measure_union' hdisjoint hmeasurable, pi_cons, pi_cons, if_pos rfl,
    lawOf_map_apply]
  have hrecovered : Measure.pi (fun _ : Fin n => uniformLaw) C = PMF.pure [rs 0] out := by
    by_cases hout : out = [rs 0]
    · simp [hC, hout]
    · simp [hC, hout, Ne.symm hout]
  rw [hrecovered]
  rfl

/-- The law of the tokens of a request with `n` drafts. -/
noncomputable def sampledLaw (n : Nat) (p q : List V → PMF V) (recovered : List V → PMF (Nat → V)) :
    PMF (List V) :=
  (ancestral q n).bind fun ds => (recovered ds).bind fun rs => (p ds).bind fun b =>
    uniformRow n b p q ds rs

theorem sampledLaw_zero (p q : List V → PMF V) (recovered : List V → PMF (Nat → V)) :
    sampledLaw 0 p q recovered = (p []).map fun b => [b] := by
  unfold sampledLaw ancestral
  rw [PMF.pure_bind]
  simp only [uniformRow_nil]
  exact PMF.bind_const ..

theorem bind_comm_draws {α β γ δ ε : Type} (test : PMF α) (drafts : PMF β) (recovered : β → PMF γ)
    (bonus : β → PMF δ) (f : β → γ → δ → α → PMF ε) :
    (drafts.bind fun ds => (recovered ds).bind fun rs => (bonus ds).bind fun b =>
        test.bind (f ds rs b)) =
      test.bind fun kept => drafts.bind fun ds => (recovered ds).bind fun rs =>
        (bonus ds).bind fun b => f ds rs b kept := by
  rw [PMF.bind_comm test drafts]
  refine congrArg drafts.bind (funext fun ds => ?_)
  rw [PMF.bind_comm test (recovered ds)]
  refine congrArg (recovered ds).bind (funext fun rs => ?_)
  exact (PMF.bind_comm test (bonus ds) _).symm

theorem sampledLaw_succ (n : Nat) (p q : List V → PMF V) (recovered : List V → PMF (Nat → V)) :
    sampledLaw (n + 1) p q recovered = draftThen (q []) (acceptLaw (p []) (q []))
      (fun d => (ancestral (fun h => q (d :: h)) n).bind fun ds =>
        (recovered (d :: ds)).map fun rs => rs 0)
      (fun d => sampledLaw n (fun h => p (d :: h)) (fun h => q (d :: h)) fun ds =>
        (recovered (d :: ds)).map fun rs j => rs (j + 1)) := by
  unfold sampledLaw draftThen
  rw [ancestral, PMF.bind_bind]
  refine congrArg (PMF.bind (q [])) (funext fun d => ?_)
  rw [PMF.bind_map]
  simp only [Function.comp_def, uniformRow_cons]
  -- the test of the first draft is drawn before all else
  rw [bind_comm_draws]
  refine congrArg (PMF.bind _) (funext fun kept => ?_)
  cases kept with
  | true => simp only [if_true, PMF.map_bind, PMF.bind_map, Function.comp_def]
  | false =>
    simp only [Bool.false_eq_true, if_false, PMF.bind_const, PMF.map_bind, PMF.map_comp]
    rfl

def Recovers (n : Nat) (p q : List V → PMF V) (recovered : List V → PMF (Nat → V)) : Prop :=
  ∀ ds ∈ (ancestral q n).support, ∀ j < n,
    IsResidual (p (ds.take j)) (q (ds.take j)) ((recovered ds).map fun rs => rs j)

theorem lossless_sampledLaw {n : Nat} {p q : List V → PMF V} {recovered : List V → PMF (Nat → V)}
    (h : Recovers n p q recovered) : Lossless p n (sampledLaw n p q recovered) := by
  induction n generalizing p q recovered with
  | zero =>
    rw [sampledLaw_zero]
    exact Lossless.zero p
  | succ n ih =>
    rw [sampledLaw_succ]
    have hdrafts : ∀ d ∈ (q []).support, ∀ ds ∈ (ancestral (fun h => q (d :: h)) n).support,
        d :: ds ∈ (ancestral q (n + 1)).support := by
      intro d hd ds hds
      exact (PMF.mem_support_bind_iff ..).mpr
        ⟨d, hd, (PMF.mem_support_map_iff ..).mpr ⟨ds, hds, rfl⟩⟩
    refine Lossless.step (keepsOverlap_acceptLaw (p []) (q [])) (fun d hd => ?_) fun d hd => ih ?_
    · refine InProportion.mix fun ds hds => ?_
      exact h (d :: ds) (hdrafts d hd ds hds) 0 (Nat.succ_pos n)
    · intro ds hds j hj
      have hlater := h (d :: ds) (hdrafts d hd ds hds) (j + 1) (Nat.succ_lt_succ hj)
      rw [PMF.map_comp]
      exact hlater

end request

/-! The request in its batch. -/

section batch

variable {V : Type}

structure Carries (x : RandomInputs ℝ V) (start : Nat) (p : List V → PMF V) (ds : List V)
    (rs : Nat → V) (us : Nat → ℝ) : Prop where
  draftTokenIds : ∀ j (h : j < ds.length), x.draftTokenIds (start + j) = ds[j]
  targetProbs : ∀ j < ds.length, ∀ t, x.targetProbs (start + j) t = (p (ds.take j) t).toReal
  recoveredTokenIds : ∀ j < ds.length, x.recoveredTokenIds (start + j) = rs j
  uniformProbs : ∀ j < ds.length, x.uniformProbs (start + j) = us j

theorem Carries.tail {x : RandomInputs ℝ V} {start : Nat} {p : List V → PMF V} {d : V}
    {ds : List V} {rs : Nat → V} {us : Nat → ℝ} (h : Carries x start p (d :: ds) rs us) :
    Carries x (start + 1) (fun hist => p (d :: hist)) ds (fun j => rs (j + 1))
      fun j => us (j + 1) := by
  have hidx : ∀ j, start + 1 + j = start + (j + 1) := fun j => by omega
  constructor
  · intro j hj
    rw [hidx, h.draftTokenIds (j + 1) (Nat.succ_lt_succ hj), List.getElem_cons_succ]
  · intro j hj t
    rw [hidx, h.targetProbs (j + 1) (Nat.succ_lt_succ hj), List.take_succ_cons]
  · intro j hj
    rw [hidx, h.recoveredTokenIds (j + 1) (Nat.succ_lt_succ hj)]
  · intro j hj
    rw [hidx, h.uniformProbs (j + 1) (Nat.succ_lt_succ hj)]

theorem emitted_eq_drawn {x : RandomInputs ℝ V} {start : Nat} {p q : List V → PMF V}
    {ds : List V} {rs : Nat → V} {us : Nat → ℝ} (b : V) (h : Carries x start p ds rs us)
    (hq : ∀ j (hj : j < ds.length), x.draftProb (start + j) = (q (ds.take j) ds[j]).toReal) :
    x.emitted b ds.length start = drawn b p q ds rs us := by
  induction ds generalizing start p q rs us with
  | nil => rfl
  | cons d ds ih =>
    have hpos : 0 < (d :: ds).length := Nat.succ_pos _
    have hdraft : x.draftTokenIds start = d := h.draftTokenIds 0 hpos
    have htest : x.accepts start ↔
        RandomInputs.Accepts (q [] d).toReal (p [] d).toReal (us 0) := by
      unfold RandomInputs.accepts
      rw [hdraft]
      exact iff_of_eq (congr (congr (congrArg _ (hq 0 hpos)) (h.targetProbs 0 hpos d))
        (h.uniformProbs 0 hpos))
    have htail : ∀ j (hj : j < ds.length), x.draftProb (start + 1 + j) =
        (q (d :: ds.take j) ds[j]).toReal := by
      intro j hj
      rw [show start + 1 + j = start + (j + 1) by omega]
      exact hq (j + 1) (Nat.succ_lt_succ hj)
    have hrest := @ih (start + 1) _ (fun hist => q (d :: hist)) _ _ h.tail htail
    refine if_congr htest ?_ ?_
    · rw [hdraft, hrest]
    · exact congrArg (fun t => [t]) (h.recoveredTokenIds 0 hpos)

/-- A random request with `n` drafts in a batch. -/
structure RandomRequest (n : Nat) where
  numDraftTokens : List Nat
  isGreedy : Nat → Bool
  maxSpecLen : Nat
  reqIdx : Nat
  le_maxSpecLen : ∀ i, numDraftTokens.getD i 0 ≤ maxSpecLen
  lt_length : reqIdx < numDraftTokens.length
  random : isGreedy reqIdx = false
  getD_eq : numDraftTokens.getD reqIdx 0 = n

def RandomRequest.start {n : Nat} (request : RandomRequest n) : Nat :=
  rowStart request.numDraftTokens request.reqIdx

variable [DecidableEq V]

/-- What the sampler is called with for each outcome of the draws: of the drafts, of the recovered
tokens, and of the uniform numbers of the request. -/
structure Draws {n : Nat} (request : RandomRequest n) (p : List V → PMF V) where
  inputs : List V → (Nat → V) → (Fin n → ℝ) → RandomInputs ℝ V
  bonusTokenIds : V → Nat → V
  recovered : List V → PMF (Nat → V)
  carries : ∀ ds rs us, ds.length = n →
    Carries (inputs ds rs us) request.start p ds rs (padded us)
  bonus : ∀ b, bonusTokenIds b request.reqIdx = b
  proportional : ∀ ds rs us j, ds.length = n → j < n →
    InProportion ((recovered ds).map fun rs => rs j) fun t =>
      ENNReal.ofReal ((inputs ds rs us).recoveredProb (request.start + j) t)

namespace Draws

variable {n : Nat} {request : RandomRequest n} {p : List V → PMF V}

variable (draws : Draws request p)

noncomputable def outcome (ds : List V) (rs : Nat → V) (b : V) (us : Fin n → ℝ) : List V :=
  (draws.inputs ds rs us).rejectionRandomSample request.numDraftTokens (draws.bonusTokenIds b)
    request.isGreedy request.maxSpecLen request.reqIdx

/-- The probability of an output, with the drafts from `drafts` and the bonus token from the
target. -/
noncomputable def emittedProb (drafts : PMF (List V)) (out : List V) : ℝ≥0∞ :=
  tsum fun ds => drafts ds * tsum fun rs => draws.recovered ds rs * tsum fun b => p ds b *
    Measure.pi (fun _ => uniformLaw) {us | draws.outcome ds rs b us = out}

/-- The rows of `draft_probs`. -/
def UsesDraftProbs (q : List V → PMF V) : Prop :=
  ∀ ds rs us, ds.length = n → ∃ probs, (draws.inputs ds rs us).draftProbs = some probs ∧
    ∀ j < n, ∀ t, probs (request.start + j) t = (q (ds.take j) t).toReal

/-- `draft_probs` is `None`. -/
def NoDraftProbs : Prop :=
  ∀ ds rs us, (draws.inputs ds rs us).draftProbs = none

variable {draws : Draws request p} {q : List V → PMF V} {ds : List V} {j : Nat}

theorem outcome_eq {rs : Nat → V} {us : Fin n → ℝ} (b : V) (hlen : ds.length = n)
    (hq : ∀ j (hj : j < ds.length), (draws.inputs ds rs us).draftProb (request.start + j) =
      (q (ds.take j) ds[j]).toReal) :
    draws.outcome ds rs b us = drawn b p q ds rs (padded us) := by
  unfold outcome
  rw [RandomInputs.rejectionRandomSample_eq _ request.le_maxSpecLen request.lt_length
    request.random, request.getD_eq, draws.bonus]
  have hemitted := emitted_eq_drawn b (draws.carries ds rs us hlen) hq
  rw [hlen] at hemitted
  exact hemitted

theorem emittedProb_eq [Countable V] {q : List V → List V → PMF V} {drafts : PMF (List V)}
    (h : ∀ ds ∈ drafts.support, ∀ rs b us,
      draws.outcome ds rs b us = drawn b p (q ds) ds rs (padded us))
    (out : List V) :
    draws.emittedProb drafts out = (drafts.bind fun ds => (draws.recovered ds).bind fun rs =>
      (p ds).bind fun b => uniformRow n b p (q ds) ds rs) out := by
  refine tsum_congr fun ds => ?_
  by_cases hds : drafts ds = 0
  · rw [hds, zero_mul, zero_mul]
  · simp only [h ds hds]
    rfl

theorem isResidual_recovered {q : PMF V} (hlen : ds.length = n) (hj : j < n)
    (hweight : ∀ rs us t,
      ENNReal.ofReal ((draws.inputs ds rs us).recoveredProb (request.start + j) t) =
        p (ds.take j) t - q t) :
    IsResidual (p (ds.take j)) q ((draws.recovered ds).map fun rs => rs j) := by
  obtain ⟨rs, -⟩ := (draws.recovered ds).support_nonempty
  have hproportional := draws.proportional ds rs 0 j hlen hj
  rw [funext (hweight rs 0)] at hproportional
  exact hproportional

theorem UsesDraftProbs.draftProb_eq (h : draws.UsesDraftProbs q) (hlen : ds.length = n)
    (rs : Nat → V) (us : Fin n → ℝ) (j : Nat) (hj : j < ds.length) :
    (draws.inputs ds rs us).draftProb (request.start + j) = (q (ds.take j) ds[j]).toReal := by
  obtain ⟨probs, hprobs, hrow⟩ := h ds rs us hlen
  unfold RandomInputs.draftProb
  rw [hprobs, (draws.carries ds rs us hlen).draftTokenIds j hj]
  exact hrow j (hlen ▸ hj) ds[j]

theorem UsesDraftProbs.weight (h : draws.UsesDraftProbs q) (hlen : ds.length = n) (hj : j < n)
    (rs : Nat → V) (us : Fin n → ℝ) (t : V) :
    ENNReal.ofReal ((draws.inputs ds rs us).recoveredProb (request.start + j) t) =
      p (ds.take j) t - q (ds.take j) t := by
  obtain ⟨probs, hprobs, hrow⟩ := h ds rs us hlen
  unfold RandomInputs.recoveredProb
  rw [hprobs]
  dsimp only
  rw [(draws.carries ds rs us hlen).targetProbs j (hlen ▸ hj), hrow j hj, ENNReal.ofReal_max,
    ENNReal.ofReal_zero, max_eq_left zero_le, ENNReal.ofReal_sub _ ENNReal.toReal_nonneg,
    ENNReal.ofReal_toReal ((p (ds.take j)).apply_ne_top t),
    ENNReal.ofReal_toReal ((q (ds.take j)).apply_ne_top t)]

theorem NoDraftProbs.draftProb_eq (h : draws.NoDraftProbs) (ds : List V) (rs : Nat → V)
    (us : Fin n → ℝ) (j : Nat) (hj : j < ds.length) :
    (draws.inputs ds rs us).draftProb (request.start + j) =
      (pointLaw p ds (ds.take j) ds[j]).toReal := by
  unfold RandomInputs.draftProb
  rw [h ds rs us, pointLaw_take hj]
  simp

theorem NoDraftProbs.weight (h : draws.NoDraftProbs) (hlen : ds.length = n) (hj : j < n)
    (rs : Nat → V) (us : Fin n → ℝ) (t : V) :
    ENNReal.ofReal ((draws.inputs ds rs us).recoveredProb (request.start + j) t) =
      p (ds.take j) t - pointLaw p ds (ds.take j) t := by
  have hj : j < ds.length := hlen ▸ hj
  have hcarries := draws.carries ds rs us hlen
  unfold RandomInputs.recoveredProb
  rw [h ds rs us]
  rw [hcarries.draftTokenIds j hj, hcarries.targetProbs j hj, pointLaw_take hj]
  by_cases ht : t = ds[j]
  · rw [if_pos ht, ht, PMF.pure_apply, if_pos rfl, ENNReal.ofReal_zero,
      tsub_eq_zero_of_le ((p (ds.take j)).coe_le_one ds[j])]
  · rw [if_neg ht, ENNReal.ofReal_toReal ((p (ds.take j)).apply_ne_top t), PMF.pure_apply,
      if_neg ht, tsub_zero]

theorem UsesDraftProbs.lossless [Countable V] (h : draws.UsesDraftProbs q) : ∃ law : PMF (List V),
      (∀ out, law out = draws.emittedProb (ancestral q n) out) ∧ Lossless p n law := by
  refine ⟨sampledLaw n p q draws.recovered, fun out => ?_,
    lossless_sampledLaw fun ds hds j hj => ?_⟩
  · refine (emittedProb_eq (fun ds hds rs b us => ?_) out).symm
    have hlen := length_of_mem_ancestral hds
    exact outcome_eq b hlen (h.draftProb_eq hlen rs us)
  · have hlen := length_of_mem_ancestral hds
    exact isResidual_recovered hlen hj fun rs us t => h.weight hlen hj rs us t

theorem NoDraftProbs.lossless [Countable V] (h : draws.NoDraftProbs) {drafts : PMF (List V)}
    (hdrafts : ∀ ds ∈ drafts.support, ds.length = n) :
    ∃ law : PMF (List V), (∀ out, law out = draws.emittedProb drafts out) ∧ Lossless p n law := by
  have houtcome : ∀ ds ∈ drafts.support, ∀ rs b us,
      draws.outcome ds rs b us = drawn b p (pointLaw p ds) ds rs (padded us) :=
    fun ds hds rs b us => outcome_eq b (hdrafts ds hds) (h.draftProb_eq ds rs us)
  refine ⟨drafts.bind fun ds => (draws.recovered ds).bind fun rs => (p ds).bind fun b =>
    uniformRow n b p (pointLaw p ds) ds rs, fun out => (emittedProb_eq houtcome out).symm,
    Lossless.mix drafts fun ds hds => ?_⟩
  have hlen := hdrafts ds hds
  have hpoint : ancestral (pointLaw p ds) n = PMF.pure ds := hlen ▸ ancestral_pointLaw p ds
  have hrecovers : Recovers n p (pointLaw p ds) fun _ => draws.recovered ds := by
    intro ds' hds' j hj
    rw [hpoint, PMF.mem_support_pure_iff] at hds'
    subst hds'
    exact isResidual_recovered hlen hj fun rs us t => h.weight hlen hj rs us t
  have hlossless := lossless_sampledLaw hrecovers
  unfold sampledLaw at hlossless
  rw [hpoint, PMF.pure_bind] at hlossless
  exact hlossless

end Draws

end batch

def coinRequest : RandomRequest 1 where
  numDraftTokens := [1]
  isGreedy _ := false
  maxSpecLen := 1
  reqIdx := 0
  le_maxSpecLen i := by
    cases i with
    | zero => decide
    | succ i => exact Nat.zero_le 1
  lt_length := by decide
  random := rfl
  getD_eq := rfl

noncomputable def coin (_ : List Bool) : PMF Bool := PMF.uniformOfFintype Bool

/-- What the sampler reads if the draft is `d`, with a row of `draft_probs` that is sure of `true`,
or without one. -/
noncomputable def coinInputs (useProbs : Bool) (ds : List Bool) (rs : Nat → Bool)
    (us : Fin 1 → ℝ) : RandomInputs ℝ Bool where
  draftTokenIds i := ds.getD i false
  draftProbs := if useProbs then some fun _ t => (PMF.pure true t).toReal else none
  targetProbs i t := (coin (ds.take i) t).toReal
  recoveredTokenIds := rs
  uniformProbs := padded us

theorem carries_coinInputs (useProbs : Bool) (ds : List Bool) (rs : Nat → Bool) (us : Fin 1 → ℝ) :
    Carries (coinInputs useProbs ds rs us) coinRequest.start coin ds rs (padded us) where
  draftTokenIds j h := by
    simp [coinInputs, coinRequest, RandomRequest.start, h]
  targetProbs j h t := by
    simp [coinInputs, coin]
  recoveredTokenIds j h := by
    simp [coinInputs, coinRequest, RandomRequest.start]
  uniformProbs j h := by
    simp [coinInputs, coinRequest, RandomRequest.start]

theorem inProportion_not {w : Bool → ℝ≥0∞} {d : Bool} (hdraft : w d = 0) (htop : w (!d) ≠ ∞) :
    InProportion (PMF.pure (!d)) w := by
  intro hmass x
  have htotal : tsum w = w (!d) := by
    rw [tsum_bool]
    cases d with
    | true => rw [hdraft, add_zero]; rfl
    | false => rw [hdraft, zero_add]; rfl
  rw [htotal] at hmass ⊢
  rw [PMF.pure_apply]
  by_cases hx : x = !d
  · rw [if_pos hx, hx, ENNReal.div_self hmass htop]
  · have hx : x = d := by simpa using hx
    rw [hx, hdraft]
    simp

noncomputable def coinDraws (useProbs : Bool) : Draws coinRequest coin where
  inputs := coinInputs useProbs
  bonusTokenIds b _ := b
  recovered ds := PMF.pure fun j => !(useProbs || ds.getD j false)
  carries ds rs us _ := carries_coinInputs useProbs ds rs us
  bonus _ := rfl
  proportional ds rs us j _ _ := by
    rw [PMF.pure_map]
    refine inProportion_not ?_ ENNReal.ofReal_ne_top
    cases useProbs with
    | true =>
      have hle : (coin (ds.take j) true).toReal ≤ 1 :=
        ENNReal.toReal_le_of_le_ofReal zero_le_one (by simpa using PMF.coe_le_one _ _)
      simp [RandomInputs.recoveredProb, coinInputs, coinRequest, RandomRequest.start, rowStart, hle]
    | false =>
      simp [RandomInputs.recoveredProb, coinInputs, coinRequest, RandomRequest.start, rowStart]

end LongCtxSpecDecode
