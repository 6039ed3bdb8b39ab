import LongCtxSpecDecode.Request
import LongCtxSpecDecode.Library.Ragged

/-!
# The greedy rejection sampler

`rejection_greedy_sample_kernel`, the greedy part of `rejection_sample` and `parse_output` of
`v1/sample/rejection_sampler.py`, on the flat arrays that `_calc_spec_decode_metadata` of
`v1/worker/gpu_model_runner.py` makes of a batch. Logits occur only through their argmax.
-/

namespace LongCtxSpecDecode

open Library.Ragged List

def placeholderTokenId : Token := -1

/-- `SpecDecodeMetadata`, on the CPU. -/
structure SpecDecodeMetadata where
  draftTokenIds : List Token
  numDraftTokens : List Nat
  cuNumDraftTokens : List Nat
  targetLogitsIndices : List Nat
  bonusLogitsIndices : List Nat
  logitsIndices : List Nat

/-- `max_spec_len`. -/
def SpecDecodeMetadata.maxSpecLen (m : SpecDecodeMetadata) : Nat := m.numDraftTokens.foldr max 0

/-- `_calc_spec_decode_metadata`: which rows of the hidden states get logits, and which of those are
for drafts and for bonus tokens. -/
def calcSpecDecodeMetadata (inputIds : List Token)
    (numDraftTokens cuNumScheduledTokens : List Nat) :
    SpecDecodeMetadata :=
  let numSampledTokens := numDraftTokens.map (· + 1)
  let cuNumSampledTokens := cumsum numSampledTokens
  let logitsIndices :=
    repeatArange (zipWith (· - ·) cuNumScheduledTokens numSampledTokens) numSampledTokens
  let targetLogitsIndices :=
    repeatArange (zipWith (· - ·) cuNumSampledTokens numSampledTokens) numDraftTokens
  let sampledIds := logitsIndices.map (inputIds.getD · 0)
  { draftTokenIds := targetLogitsIndices.map fun i => sampledIds.getD (i + 1) 0
    numDraftTokens
    cuNumDraftTokens := cumsum numDraftTokens
    targetLogitsIndices
    bonusLogitsIndices := cuNumSampledTokens.map (· - 1)
    logitsIndices }

namespace RejectionSampler

variable (m : SpecDecodeMetadata) (targetArgmax bonusTokenIds : List Token)

/-- One round of the loop of the kernel: the output memory and the flag `rejected`. -/
def kernelRound (startIdx base : Nat) (state : (Nat → Token) × Bool) (pos : Nat) :
    (Nat → Token) × Bool :=
  if state.2 then
    state
  else
    let draftTokenId := m.draftTokenIds.getD (startIdx + pos) 0
    let targetArgmaxId := targetArgmax.getD (startIdx + pos) 0
    (Function.update state.1 (base + pos) targetArgmaxId, decide (draftTokenId ≠ targetArgmaxId))

/-- The program of `rejection_greedy_sample_kernel` for request `reqIdx`, on the flat memory of
the output. -/
def rejectionGreedySampleKernel (isGreedy : Nat → Bool) (maxSpecLen : Nat)
    (outputTokenIds : Nat → Token) (reqIdx : Nat) : Nat → Token :=
  if isGreedy reqIdx then
    let startIdx := if reqIdx = 0 then 0 else m.cuNumDraftTokens.getD (reqIdx - 1) 0
    let endIdx := m.cuNumDraftTokens.getD reqIdx 0
    let numDraftTokens := endIdx - startIdx
    let base := reqIdx * (maxSpecLen + 1)
    let state := (range numDraftTokens).foldl (kernelRound m targetArgmax startIdx base)
      (outputTokenIds, false)
    if state.2 then state.1
    else Function.update state.1 (base + numDraftTokens) (bonusTokenIds.getD reqIdx 0)
  else
    outputTokenIds

/-- `rejection_sample`. The kernel for random sampling returns at once for a greedy request;
`randomRows` is what it leaves in the rows of the others. -/
def rejectionSample (isGreedy : Nat → Bool) (randomRows : Nat → Nat → Token) :
    List (List Token) :=
  let batchSize := m.numDraftTokens.length
  let width := m.maxSpecLen + 1
  let outputTokenIds := (range batchSize).foldl
    (rejectionGreedySampleKernel m targetArgmax bonusTokenIds isGreedy m.maxSpecLen)
    fun _ => placeholderTokenId
  (range batchSize).map fun reqIdx => (range width).map fun pos =>
    if isGreedy reqIdx then outputTokenIds (reqIdx * width + pos) else randomRows reqIdx pos

/-- `parse_output`, where `discard` says which rows to clear. -/
def parseOutput (outputTokenIds : List (List Token)) (vocabSize : Nat) (discard : Nat → Bool) :
    List (List Token) :=
  outputTokenIds.mapIdx fun i row =>
    if discard i then [] else row.filter fun t => t ≠ placeholderTokenId ∧ t < vocabSize

section kernel

/-- The first `pos` drafts of a row are the target's tokens. -/
def Matches (startIdx pos : Nat) : Prop :=
  ∀ p < pos, m.draftTokenIds.getD (startIdx + p) 0 = targetArgmax.getD (startIdx + p) 0

instance (startIdx pos : Nat) : Decidable (Matches m targetArgmax startIdx pos) :=
  inferInstanceAs (Decidable (∀ p < pos, _))

variable {m targetArgmax bonusTokenIds}

theorem Matches.mono {startIdx pos pos' : Nat} (h : Matches m targetArgmax startIdx pos)
    (hle : pos' ≤ pos) : Matches m targetArgmax startIdx pos' :=
  fun p hp => h p (by omega)

theorem matches_succ {startIdx pos : Nat} : Matches m targetArgmax startIdx (pos + 1) ↔
    Matches m targetArgmax startIdx pos ∧
      m.draftTokenIds.getD (startIdx + pos) 0 = targetArgmax.getD (startIdx + pos) 0 := by
  constructor
  · intro h
    exact ⟨h.mono (Nat.le_succ pos), h pos (Nat.lt_succ_self pos)⟩
  · rintro ⟨h, hlast⟩ p hp
    rcases Nat.lt_succ_iff_lt_or_eq.mp hp with hp | rfl
    · exact h p hp
    · exact hlast

variable (m targetArgmax) in
theorem kernelLoop_spec (startIdx base n : Nat) (out : Nat → Token) :
    ((range n).foldl (kernelRound m targetArgmax startIdx base) (out, false)).2 =
        decide (¬ Matches m targetArgmax startIdx n) ∧
      ∀ x, ((range n).foldl (kernelRound m targetArgmax startIdx base) (out, false)).1 x =
        if base ≤ x ∧ x < base + n ∧ Matches m targetArgmax startIdx (x - base) then
          targetArgmax.getD (startIdx + (x - base)) 0
        else out x := by
  induction n with
  | zero =>
    refine ⟨?_, fun x => ?_⟩
    · have hzero : Matches m targetArgmax startIdx 0 := nofun
      simp [hzero]
    · rw [if_neg (by omega)]
      rfl
  | succ n ih =>
    obtain ⟨hflag, hout⟩ := ih
    rw [range_succ, foldl_append]
    simp only [foldl_cons, foldl_nil]
    generalize (range n).foldl (kernelRound m targetArgmax startIdx base) (out, false) =
      state at hflag hout ⊢
    unfold kernelRound
    rw [hflag]
    by_cases hmatch : Matches m targetArgmax startIdx n
    · -- no draft has been rejected: the next token is written
      simp only [hmatch, not_true_eq_false, decide_false, Bool.false_eq_true, if_false]
      refine ⟨?_, fun x => ?_⟩
      · simp [matches_succ, hmatch]
      · grind
    · grind [matches_succ]

/-- What the program of a greedy request writes at position `pos` of its row. -/
def rowValue (m : SpecDecodeMetadata) (targetArgmax bonusTokenIds : List Token)
    (reqIdx pos : Nat) : Token :=
  let startIdx := rowStart m.numDraftTokens reqIdx
  let numDraftTokens := m.numDraftTokens.getD reqIdx 0
  if pos ≤ numDraftTokens ∧ Matches m targetArgmax startIdx pos then
    if pos < numDraftTokens then targetArgmax.getD (startIdx + pos) 0
    else bonusTokenIds.getD reqIdx 0
  else
    placeholderTokenId

variable {isGreedy : Nat → Bool} {maxSpecLen reqIdx : Nat}

section

variable (hcu : m.cuNumDraftTokens = cumsum m.numDraftTokens)
  (hidx : reqIdx < m.numDraftTokens.length)
include hcu hidx

theorem kernel_eq (hgreedy : isGreedy reqIdx = true) (out : Nat → Token) :
    rejectionGreedySampleKernel m targetArgmax bonusTokenIds isGreedy maxSpecLen out reqIdx =
      let base := reqIdx * (maxSpecLen + 1)
      let startIdx := rowStart m.numDraftTokens reqIdx
      let numDraftTokens := m.numDraftTokens.getD reqIdx 0
      let written := ((range numDraftTokens).foldl
        (kernelRound m targetArgmax startIdx base) (out, false)).1
      if Matches m targetArgmax startIdx numDraftTokens then
        Function.update written (base + numDraftTokens) (bonusTokenIds.getD reqIdx 0)
      else written := by
  have hflag := (kernelLoop_spec m targetArgmax (rowStart m.numDraftTokens reqIdx)
    (reqIdx * (maxSpecLen + 1)) (m.numDraftTokens.getD reqIdx 0) out).1
  unfold rejectionGreedySampleKernel
  rw [if_pos hgreedy, hcu, cumsum_pred _ hidx, cumsum_getD _ hidx, rowStart_succ]
  dsimp only
  rw [Nat.add_sub_cancel_left, hflag]
  by_cases hmatch : Matches m targetArgmax (rowStart m.numDraftTokens reqIdx)
    (m.numDraftTokens.getD reqIdx 0)
  · rw [if_pos hmatch, decide_eq_false (not_not.mpr hmatch), if_neg Bool.false_ne_true]
  · rw [if_neg hmatch, decide_eq_true hmatch, if_pos rfl]

theorem kernel_frame (out : Nat → Token) {x : Nat}
    (hx : x < reqIdx * (maxSpecLen + 1) ∨
      reqIdx * (maxSpecLen + 1) + m.numDraftTokens.getD reqIdx 0 < x) :
    rejectionGreedySampleKernel m targetArgmax bonusTokenIds isGreedy maxSpecLen out reqIdx x =
      out x := by
  by_cases hgreedy : isGreedy reqIdx = true
  · have hout := (kernelLoop_spec m targetArgmax (rowStart m.numDraftTokens reqIdx)
      (reqIdx * (maxSpecLen + 1)) (m.numDraftTokens.getD reqIdx 0) out).2 x
    rw [if_neg (by omega)] at hout
    rw [kernel_eq hcu hidx hgreedy]
    dsimp only
    split
    · rw [Function.update_of_ne (by omega)]
      exact hout
    · exact hout
  · unfold rejectionGreedySampleKernel
    rw [if_neg hgreedy]

theorem kernel_row (hgreedy : isGreedy reqIdx = true) (out : Nat → Token) {pos : Nat}
    (hempty : out (reqIdx * (maxSpecLen + 1) + pos) = placeholderTokenId) :
    rejectionGreedySampleKernel m targetArgmax bonusTokenIds isGreedy maxSpecLen out reqIdx
        (reqIdx * (maxSpecLen + 1) + pos) =
      rowValue m targetArgmax bonusTokenIds reqIdx pos := by
  have hout := (kernelLoop_spec m targetArgmax (rowStart m.numDraftTokens reqIdx)
    (reqIdx * (maxSpecLen + 1)) (m.numDraftTokens.getD reqIdx 0) out).2
      (reqIdx * (maxSpecLen + 1) + pos)
  rw [kernel_eq hcu hidx hgreedy]
  unfold rowValue
  generalize rowStart m.numDraftTokens reqIdx = startIdx at hout ⊢
  generalize m.numDraftTokens.getD reqIdx 0 = n at hout ⊢
  by_cases hmatch : Matches m targetArgmax startIdx n
  · grind
  · grind

end

theorem row_disjoint {width i j pos n : Nat} (hne : i ≠ j) (hpos : pos < width) (hn : n < width) :
    i * width + pos < j * width ∨ j * width + n < i * width + pos := by
  rcases Nat.lt_or_gt_of_ne hne with hlt | hgt
  · have hmul := Nat.mul_le_mul_right width (Nat.succ_le_of_lt hlt)
    rw [Nat.succ_mul] at hmul
    omega
  · have hmul := Nat.mul_le_mul_right width (Nat.succ_le_of_lt hgt)
    rw [Nat.succ_mul] at hmul
    omega

theorem launch_spec (hcu : m.cuNumDraftTokens = cumsum m.numDraftTokens)
    (hmax : ∀ i, m.numDraftTokens.getD i 0 ≤ maxSpecLen) (count : Nat)
    (hcount : count ≤ m.numDraftTokens.length) (i pos : Nat) (hpos : pos ≤ maxSpecLen) :
    (range count).foldl
        (rejectionGreedySampleKernel m targetArgmax bonusTokenIds isGreedy maxSpecLen)
        (fun _ => placeholderTokenId) (i * (maxSpecLen + 1) + pos) =
      if i < count ∧ isGreedy i = true then rowValue m targetArgmax bonusTokenIds i pos
      else placeholderTokenId := by
  induction count with
  | zero =>
    rfl
  | succ count ih =>
    have ih := ih (by omega)
    rw [range_succ, foldl_append, foldl_cons, foldl_nil]
    rcases eq_or_ne i count with rfl | hne
    · rw [if_neg (by omega)] at ih
      by_cases hgreedy : isGreedy i = true
      · rw [kernel_row hcu (by omega) hgreedy _ ih, if_pos ⟨by omega, hgreedy⟩]
      · unfold rejectionGreedySampleKernel at ih ⊢
        rw [if_neg hgreedy, if_neg fun h => hgreedy h.2]
        exact ih
    · grind [kernel_frame, row_disjoint]

end kernel

section parse

theorem getD_le_foldr_max (lens : List Nat) (i : Nat) : lens.getD i 0 ≤ lens.foldr max 0 := by
  induction lens generalizing i with
  | nil =>
    simp
  | cons n lens ih =>
    cases i with
    | zero => exact Nat.le_max_left ..
    | succ i => exact Nat.le_trans (ih i) (Nat.le_max_right ..)

theorem filter_range_of_downward {P : Nat → Prop} [DecidablePred P]
    (hdown : ∀ p p', p' ≤ p → P p → P p') (n : Nat) :
    ∃ k ≤ n, (range n).filter P = range k ∧ ∀ p < n, (P p ↔ p < k) := by
  induction n with
  | zero => exact ⟨0, Nat.le_refl 0, rfl, nofun⟩
  | succ n ih =>
    grind [range_succ]

variable {m : SpecDecodeMetadata} {targetArgmax bonusTokenIds : List Token}
variable {isGreedy : Nat → Bool} {reqIdx : Nat}

theorem parseOutput_value (hcu : m.cuNumDraftTokens = cumsum m.numDraftTokens)
    (hidx : reqIdx < m.numDraftTokens.length) (hgreedy : isGreedy reqIdx = true)
    (randomRows : Nat → Nat → Token) (discard : Nat → Bool) (vocabSize : Nat) {n : Nat}
    (hn : m.numDraftTokens.getD reqIdx 0 = n) (value : Nat → Token)
    (htarget : ∀ p < n, targetArgmax.getD (rowStart m.numDraftTokens reqIdx + p) 0 = value p)
    (hbonus : bonusTokenIds.getD reqIdx 0 = value n)
    (hvalid : ∀ p, value p ≠ placeholderTokenId ∧ value p < vocabSize) :
    let out := (parseOutput (rejectionSample m targetArgmax bonusTokenIds isGreedy randomRows)
      vocabSize discard).getD reqIdx []
    (discard reqIdx = true ∧ out = []) ∨
    (discard reqIdx = false ∧ ∃ k ≤ n,
      (∀ p < k, m.draftTokenIds.getD (rowStart m.numDraftTokens reqIdx + p) 0 = value p) ∧
      out = (range (k + 1)).map value) := by
  have hmax : ∀ i, m.numDraftTokens.getD i 0 ≤ m.maxSpecLen := getD_le_foldr_max _
  have hrow : (rejectionSample m targetArgmax bonusTokenIds isGreedy randomRows)[reqIdx]? =
      some ((range (m.maxSpecLen + 1)).map (rowValue m targetArgmax bonusTokenIds reqIdx)) := by
    grind [rejectionSample, map_congr_left, launch_spec]
  have hparse : (parseOutput (rejectionSample m targetArgmax bonusTokenIds isGreedy randomRows)
      vocabSize discard).getD reqIdx [] =
      if discard reqIdx then [] else
        ((range (m.maxSpecLen + 1)).map (rowValue m targetArgmax bonusTokenIds reqIdx)).filter
          fun t => t ≠ placeholderTokenId ∧ t < vocabSize := by
    unfold parseOutput
    rw [getD_eq_getElem?_getD, getElem?_mapIdx, hrow]
    rfl
  rw [hparse]
  cases hdiscard : discard reqIdx with
  | true => exact Or.inl ⟨rfl, rfl⟩
  | false =>
    refine Or.inr ⟨rfl, ?_⟩
    set startIdx := rowStart m.numDraftTokens reqIdx
    have hdown : ∀ p p', p' ≤ p → p ≤ n ∧ Matches m targetArgmax startIdx p →
        p' ≤ n ∧ Matches m targetArgmax startIdx p' :=
      fun p p' hle h => ⟨Nat.le_trans hle h.1, h.2.mono hle⟩
    obtain ⟨k, hk, hfilter, hiff⟩ := filter_range_of_downward hdown (m.maxSpecLen + 1)
    have hfirst : 0 < k := (hiff 0 (Nat.succ_pos _)).mp
      ⟨Nat.zero_le n, nofun⟩
    have hvalue : ∀ p, p ≤ n ∧ Matches m targetArgmax startIdx p →
        rowValue m targetArgmax bonusTokenIds reqIdx p = value p := by
      intro p hp
      unfold rowValue
      rw [hn, if_pos hp]
      split
      · rename_i hlt
        exact htarget p hlt
      · rename_i hge
        rw [hbonus, Nat.le_antisymm hp.1 (Nat.le_of_not_lt hge)]
    have hkeep : ∀ p ∈ range (m.maxSpecLen + 1),
        decide (rowValue m targetArgmax bonusTokenIds reqIdx p ≠ placeholderTokenId ∧
          rowValue m targetArgmax bonusTokenIds reqIdx p < vocabSize) =
        decide (p ≤ n ∧ Matches m targetArgmax startIdx p) := by
      intro p _
      by_cases hp : p ≤ n ∧ Matches m targetArgmax startIdx p
      · rw [hvalue p hp, decide_eq_true (hvalid p), decide_eq_true hp]
      · have hempty : rowValue m targetArgmax bonusTokenIds reqIdx p = placeholderTokenId :=
          if_neg (hn ▸ hp)
        rw [hempty, decide_eq_false fun h => h.1 rfl, decide_eq_false hp]
    have hlast : k - 1 ≤ n ∧ Matches m targetArgmax startIdx (k - 1) :=
      (hiff (k - 1) (by omega)).mpr (by omega)
    refine ⟨k - 1, hlast.1, fun p hp => ?_, ?_⟩
    · rw [← htarget p (by omega)]
      exact hlast.2 p hp
    · have hkept := (filter_congr hkeep).trans hfilter
      rw [filter_map, Nat.sub_add_cancel hfirst]
      refine (congrArg (map _) hkept).trans (map_congr_left fun p hp => hvalue p ?_)
      have hlt := mem_range.mp hp
      exact ⟨by omega, hlast.2.mono (by omega)⟩

end parse

end RejectionSampler

end LongCtxSpecDecode
