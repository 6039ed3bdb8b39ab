import LongCtxSpecDecode.DraftAlignment
import LongCtxSpecDecode.TopKTopP

/-!
# The draft probabilities

What `get_draft_probs` of the proposer reports for a draft token, and the distribution that it was
drawn from: the drafter samples with `Sampler`, which constrains the logits, and the probabilities
are computed later from the saved hidden states by `compute_probs`, which does not.
-/

namespace LongCtxSpecDecode

open Library.Ragged Library.Softmax List

/-- A request of the batch with what `InputBatch` keeps of its sampling parameters. -/
structure DraftRequest (n : Nat) where
  reqId : ReqId
  constraints : SampledRequest ℝ
  temperature : ℝ
  /-- `SamplingParams` raises lower temperatures. -/
  temperature_range : temperature = 0 ∨ 1 / 100 ≤ temperature
  topK : Nat
  /-- `add_request` replaces other values by the size of the vocabulary. -/
  topK_range : 0 < topK ∧ topK ≤ n
  topP : ℝ
  topP_le : topP ≤ 1

noncomputable def samplingEps : ℝ := 1e-5

/-- The part of `SamplingMetadata` for the random draw. -/
structure SamplingTensors where
  allGreedy : Prop
  allRandom : Prop
  temperature : Option (List ℝ)
  topK : Option (List Nat)
  topP : Option (List ℝ)

open Classical in
/-- `_make_sampling_metadata`, this part of it. -/
noncomputable def makeSamplingTensors {n : Nat} (reqs : List (DraftRequest n)) :
    SamplingTensors where
  allGreedy := ∀ r ∈ reqs, r.temperature < samplingEps
  allRandom := ∀ r ∈ reqs, ¬r.temperature < samplingEps
  temperature :=
    if ∀ r ∈ reqs, r.temperature < samplingEps then none else some (reqs.map (·.temperature))
  topK := if ∃ r ∈ reqs, r.topK < n then some (reqs.map (·.topK)) else none
  topP := if ∃ r ∈ reqs, r.topP < 1 then some (reqs.map (·.topP)) else none

noncomputable def divRow (temperature : ℝ) (row : LogitsRow ℝ) : LogitsRow ℝ :=
  fun t => (row t).map (· / temperature)

/-- `logits.softmax(dim=-1)`, one row. -/
noncomputable def softmaxRow (n : Nat) (row : LogitsRow ℝ) : Token → ℝ :=
  softmax (vocab n).toFinset row

inductive Draw where
  | greedy (row : LogitsRow ℝ)
  | random (probs : Token → ℝ)

namespace Sampler

open Classical in
noncomputable def applyTemperature (logits : List (LogitsRow ℝ)) (temp : List ℝ)
    (allRandom : Prop) :
    List (LogitsRow ℝ) :=
  let temp := if allRandom then temp else temp.map fun x => if x < samplingEps then 1 else x
  logits.mapIdx fun i => divRow (temp.getD i 0)

open Classical in
/-- `Sampler.sample`, up to the draw from the distribution. -/
noncomputable def sample {n : Nat} (sort : TorchSort n) (logits : List (LogitsRow ℝ))
    (m : SamplingTensors) : Except Exn (List Draw) := do
  if m.allGreedy ∧ m.allRandom then
    .error (.assertionError "")
  else if m.allGreedy then
    .ok (logits.map .greedy)
  else
    match m.temperature with
    | none => .error (.assertionError "")
    | some temperature =>
      let divided := applyTemperature logits temperature m.allRandom
      let random := (applyTopKTopP sort divided m.topK m.topP).map (softmaxRow n)
      if m.allRandom then
        .ok (random.map .random)
      else
        .ok (zipWith (fun (x : ℝ × LogitsRow ℝ) probs =>
          if x.1 < samplingEps then .greedy x.2 else .random probs)
          (temperature.zip logits) random)

/-- `Sampler.forward`, up to the draws. -/
noncomputable def forward {n : Nat} (sort : TorchSort n) (logits : List (LogitsRow ℝ))
    (reqs : List (DraftRequest n)) (need : Bool) : Except Exn (List Draw) := do
  let logits ← applyLogitsProcessors logits (makeSamplingMetadata (reqs.map (·.constraints)) need)
    false
  sample sort logits (makeSamplingTensors reqs)

end Sampler

def maxSpecLen : Nat := 128

section expand

variable {α : Type}

def expandKernel (input : List α) (default : α) (replace : α → α) (cuNumTokens : List Nat)
    (reqIdx : Nat) (output : Nat → α) (offset : Nat) : Nat → α :=
  let startIdx := if reqIdx > 0 then cuNumTokens.getD (reqIdx - 1) 0 else 0
  let endIdx := cuNumTokens.getD reqIdx 0
  let numTokens := endIdx - startIdx
  let srcVal := replace (input.getD reqIdx default)
  if offset < numTokens then Function.update output (startIdx + offset) srcVal else output

/-- `expand_batch_to_tokens`, into memory that is not initialized. -/
def expandBatchToTokens (junk : Nat → α) (x : List α) (default : α) (replace : α → α)
    (cuNumTokens : List Nat) : Nat → α :=
  (range x.length).foldl
    (fun output reqIdx => (range maxSpecLen).foldl
      (expandKernel x default replace cuNumTokens reqIdx) output)
    junk

theorem expandBatchToTokens_apply (junk : Nat → α) {x : List α} (default : α) (replace : α → α)
    {lens : List Nat} (hlen : lens.length = x.length) (hlens : ∀ i, lens.getD i 0 ≤ maxSpecLen)
    {i j : Nat} (hj : j < lens.getD i 0) :
    expandBatchToTokens junk x default replace (cumsum lens) (rowStart lens i + j) =
      replace (x.getD i default) := by
  have hprogram : ∀ i < lens.length, expandKernel x default replace (cumsum lens) i =
      writeEntry (rowStart lens i) (lens.getD i 0) fun _ => replace (x.getD i default) := by
    intro i hi
    unfold expandKernel writeEntry
    rw [start_eq_rowStart hi]
    dsimp only
    rw [cumsum_sub_rowStart hi]
  have hi : i < lens.length := lt_length_of_getD hj
  have hrows := foldl_writeRows hprogram hlens junk hj lens.length (Nat.le_refl _)
  rw [if_pos hi] at hrows
  unfold expandBatchToTokens
  rw [← hlen]
  exact hrows

end expand

/-- `compute_probs`: the logits as they are if all requests are greedy, else probabilities. -/
noncomputable def computeProbs {n : Nat} (sort : TorchSort n) (junk : Nat → ℝ) (junkK : Nat → Nat)
    (logits : List (LogitsRow ℝ)) (cuNumDraftTokens : List Nat) (m : SamplingTensors) :
    Except Exn (List (LogitsRow ℝ) ⊕ List (Token → ℝ)) :=
  open Classical in
  if m.allGreedy then
    .ok (.inl logits)
  else
    match m.temperature with
    | none => .error (.attributeError "'NoneType' object has no attribute 'shape'")
    | some temperature => do
        require (cuNumDraftTokens.length = temperature.length) ""
        let expand := expandBatchToTokens junk
        let temperature := expand temperature 0 (fun x => if x = 0 then 1 else x) cuNumDraftTokens
        let logits := logits.mapIdx fun k => divRow (temperature k)
        let topK := m.topK.map fun topK =>
          (range logits.length).map (expandBatchToTokens junkK topK 0 id cuNumDraftTokens)
        let topP := m.topP.map fun topP =>
          (range logits.length).map (expand topP 0 id cuNumDraftTokens)
        .ok (.inr ((applyTopKTopP sort logits topK topP).map (softmaxRow n)))

/-- `get_draft_probs`, where `computeLogits` is the model's, by row. -/
noncomputable def getDraftProbs {H : Type} {n : Nat} (sort : TorchSort n) (junk : Nat → ℝ)
    (junkK : Nat → Nat) (computeLogits : Option H → LogitsRow ℝ) (b : DraftBuffers H)
    (numSpec : Nat)
    (numDraftTokens : List Nat) (m : SamplingTensors) :
    Except Exn (List (LogitsRow ℝ) ⊕ List (Token → ℝ)) :=
  let hiddenStates := (range numDraftTokens.sum).map (b.draftHiddenStatesFor numSpec numDraftTokens)
  computeProbs sort junk junkK (hiddenStates.map computeLogits) (cumsum numDraftTokens) m

/-! Row by row. -/

section row

variable {n : Nat} (sort : TorchSort n)

noncomputable def DraftRequest.filterRow (r : DraftRequest n) (row : LogitsRow ℝ) : LogitsRow ℝ :=
  topKTopPRow sort (some r.topK) r.topP (divRow r.temperature row)

def DraftRequest.Random (r : DraftRequest n) : Prop := ¬r.temperature < samplingEps

variable {row : LogitsRow ℝ} {logits : List (LogitsRow ℝ)} {row' : LogitsRow ℝ}

theorem softmaxRow_congr (h : ∀ t ∈ vocab n, row t = row' t) {t : Token} (ht : t ∈ vocab n) :
    softmaxRow n row t = softmaxRow n row' t :=
  softmax_congr (fun t ht => h t (mem_toFinset.mp ht)) (mem_toFinset.mpr ht)

theorem DraftRequest.filterRow_congr (r : DraftRequest n) (h : ∀ t ∈ vocab n, row t = row' t) :
    r.filterRow sort row = r.filterRow sort row' := by
  have hdiv : ∀ t ∈ vocab n, divRow r.temperature row t = divRow r.temperature row' t :=
    fun t ht => congrArg _ (h t ht)
  unfold filterRow topKTopPRow TorchSort.values
  rw [sort.congr hdiv, map_congr_left fun t ht => hdiv t ((sort.perm _).mem_iff.mp ht)]

theorem DraftRequest.filterRow_full {r : DraftRequest n} (hk : r.topK = n) (hp : r.topP = 1)
    (row : LogitsRow ℝ) {t : Token} (ht : t ∈ vocab n) :
    r.filterRow sort row t = (row t).map (· / r.temperature) := by
  unfold filterRow
  rw [hk, hp, ← topKTopPRow_none]
  exact topKTopPRow_id sort _ ht

theorem softmaxRow_eq_iff :
    (∀ t ∈ vocab n, softmaxRow n row t = softmaxRow n row' t) ↔
      ∃ c : ℝ, ∀ t ∈ vocab n, row t = (row' t).map (· + c) := by
  have hiff := softmax_eq_iff (s := (vocab n).toFinset) (x := row) (y := row')
  simp only [mem_toFinset] at hiff
  exact hiff

variable {sort} {reqs : List (DraftRequest n)} {i : Nat} {r : DraftRequest n}

theorem DraftRequest.Random.temperature_ne_zero (h : r.Random) : r.temperature ≠ 0 := by
  intro hzero
  refine h ?_
  rw [hzero, samplingEps]
  norm_num

theorem not_allGreedy (hi : reqs[i]? = some r) (hr : r.Random) :
    ¬(makeSamplingTensors reqs).allGreedy :=
  fun h => hr (h r (mem_of_getElem? hi))

theorem temperature_eq (hi : reqs[i]? = some r) (hr : r.Random) :
    (makeSamplingTensors reqs).temperature = some (reqs.map (·.temperature)) :=
  if_neg (not_allGreedy hi hr)

theorem topK_cases (reqs : List (DraftRequest n)) :
    (makeSamplingTensors reqs).topK = some (reqs.map (·.topK)) ∨
      (makeSamplingTensors reqs).topK = none ∧ ∀ r ∈ reqs, r.topK = n := by
  by_cases h : ∃ r ∈ reqs, r.topK < n
  · exact Or.inl (if_pos h)
  · refine Or.inr ⟨if_neg h, fun r hr => ?_⟩
    exact Nat.le_antisymm r.topK_range.2 (Nat.le_of_not_lt fun hlt => h ⟨r, hr, hlt⟩)

theorem topP_cases (reqs : List (DraftRequest n)) :
    (makeSamplingTensors reqs).topP = some (reqs.map (·.topP)) ∨
      (makeSamplingTensors reqs).topP = none ∧ ∀ r ∈ reqs, r.topP = 1 := by
  by_cases h : ∃ r ∈ reqs, r.topP < 1
  · exact Or.inl (if_pos h)
  · refine Or.inr ⟨if_neg h, fun r hr => ?_⟩
    exact le_antisymm r.topP_le (not_lt.mp fun hlt => h ⟨r, hr, hlt⟩)

theorem getD_map_reqs {α : Type} (f : DraftRequest n → α) (hi : reqs[i]? = some r) (default : α) :
    (reqs.map f).getD i default = f r := by
  rw [getD_eq_getElem?_getD, getElem?_map, hi]
  rfl

theorem applyTemperature_row (hi : reqs[i]? = some r) (hr : r.Random)
    (hrow : logits[i]? = some row) : (Sampler.applyTemperature logits (reqs.map (·.temperature))
      (makeSamplingTensors reqs).allRandom)[i]? = some (divRow r.temperature row) := by
  unfold Sampler.applyTemperature
  rw [getElem?_mapIdx, hrow]
  refine congrArg (fun temperature => some (divRow temperature row)) ?_
  split
  · exact getD_map_reqs _ hi 0
  · rw [map_map, getD_map_reqs _ hi 0]
    exact if_neg hr

theorem sample_row (hi : reqs[i]? = some r) (hr : r.Random) (hrow : logits[i]? = some row) :
    ∃ draws probs, Sampler.sample sort logits (makeSamplingTensors reqs) = .ok draws ∧
      draws[i]? = some (.random probs) ∧
      ∀ t ∈ vocab n, probs t = softmaxRow n (r.filterRow sort row) t := by
  have hmem := mem_of_getElem? hi
  have hgreedy := not_allGreedy hi hr
  obtain ⟨filtered, hfiltered, hvalues⟩ := applyTopKTopP_row sort
    (reqs.map (·.topK)) (reqs.map (·.topP))
    (by rw [getD_map_reqs _ hi]; exact r.topK_range.1)
    (by rw [getD_map_reqs _ hi]; exact r.topK_range.2)
    ((topK_cases reqs).imp_right fun h => ⟨h.1, by rw [getD_map_reqs _ hi]; exact h.2 r hmem⟩)
    ((topP_cases reqs).imp_right fun h => ⟨h.1, by rw [getD_map_reqs _ hi]; exact h.2 r hmem⟩)
    (applyTemperature_row hi hr hrow)
  rw [getD_map_reqs _ hi, getD_map_reqs _ hi] at hvalues
  have hprobs : ∀ t ∈ vocab n, softmaxRow n filtered t = softmaxRow n (r.filterRow sort row) t :=
    fun t ht => softmaxRow_congr hvalues ht
  have hrandom := congrArg (Option.map (softmaxRow n)) hfiltered
  rw [← getElem?_map] at hrandom
  unfold Sampler.sample
  rw [if_neg fun h => hgreedy h.1, if_neg hgreedy, temperature_eq hi hr]
  by_cases hall : (makeSamplingTensors reqs).allRandom
  · refine ⟨_, _, if_pos hall, ?_, hprobs⟩
    rw [getElem?_map, hrandom]
    rfl
  · refine ⟨_, _, if_neg hall, ?_, hprobs⟩
    have hzip : ((reqs.map (·.temperature)).zip logits)[i]? = some (r.temperature, row) := by
      rw [getElem?_zip_eq_some]
      exact ⟨by rw [getElem?_map, hi]; rfl, hrow⟩
    rw [getElem?_zipWith, hzip, hrandom]
    exact congrArg some (if_neg hr)

theorem computeProbs_row {junk : Nat → ℝ} {junkK : Nat → Nat} (hi : reqs[i]? = some r)
    (hr : r.Random) {lens : List Nat} (hlen : lens.length = reqs.length)
    (hlens : ∀ i, lens.getD i 0 ≤ maxSpecLen) {j : Nat} (hj : j < lens.getD i 0)
    (hrow : logits[rowStart lens i + j]? = some row) :
    ∃ probs prob, computeProbs sort junk junkK logits (cumsum lens) (makeSamplingTensors reqs) =
        .ok (.inr probs) ∧
      probs[rowStart lens i + j]? = some prob ∧
      ∀ t ∈ vocab n, prob t = softmaxRow n (r.filterRow sort row) t := by
  have hmem := mem_of_getElem? hi
  have hk : rowStart lens i + j < logits.length := (List.getElem?_eq_some_iff.mp hrow).1
  unfold computeProbs
  rw [if_neg (not_allGreedy hi hr), temperature_eq hi hr]
  dsimp only
  rw [require_of_true (by rw [cumsum_length, hlen, length_map])]
  -- the tensors of the batch, expanded
  have hexpand : ∀ {α : Type} (junk : Nat → α) (f : DraftRequest n → α) (default : α)
      (replace : α → α), expandBatchToTokens junk (reqs.map f) default replace (cumsum lens)
        (rowStart lens i + j) = replace (f r) := by
    intro α junk f default replace
    rw [expandBatchToTokens_apply junk default replace (by rw [hlen, length_map]) hlens hj,
      getD_map_reqs f hi]
  have hrange : ∀ {α : Type} (f : Nat → α) (default : α),
      ((range logits.length).map f).getD (rowStart lens i + j) default =
        f (rowStart lens i + j) := by
    intro α f default
    rw [getD_eq_getElem?_getD, getElem?_map, getElem?_range hk]
    rfl
  set divided := logits.mapIdx fun k => divRow (expandBatchToTokens junk
    (reqs.map (·.temperature)) 0 (fun x => if x = 0 then 1 else x) (cumsum lens) k) with hdivided
  have hrow' : divided[rowStart lens i + j]? = some (divRow r.temperature row) := by
    rw [getElem?_mapIdx, hrow, hexpand]
    exact congrArg (fun temperature => some (divRow temperature row))
      (if_neg hr.temperature_ne_zero)
  have hlength : divided.length = logits.length := length_mapIdx ..
  rw [hlength]
  set ks := (range logits.length).map
    (expandBatchToTokens junkK (reqs.map (·.topK)) 0 id (cumsum lens)) with hks
  set ps := (range logits.length).map
    (expandBatchToTokens junk (reqs.map (·.topP)) 0 id (cumsum lens)) with hps
  have hksRow : ks.getD (rowStart lens i + j) 0 = r.topK := by rw [hrange, hexpand]; rfl
  have hpsRow : ps.getD (rowStart lens i + j) 0 = r.topP := by rw [hrange, hexpand]; rfl
  obtain ⟨filtered, hfiltered, hvalues⟩ := applyTopKTopP_row sort ks ps
    (k := (makeSamplingTensors reqs).topK.map fun topK => (range logits.length).map
      (expandBatchToTokens junkK topK 0 id (cumsum lens)))
    (p := (makeSamplingTensors reqs).topP.map fun topP => (range logits.length).map
      (expandBatchToTokens junk topP 0 id (cumsum lens)))
    (hksRow ▸ r.topK_range.1) (hksRow ▸ r.topK_range.2)
    ((topK_cases reqs).imp (fun h => by rw [h]; rfl)
      fun h => ⟨by rw [h.1]; rfl, hksRow.trans (h.2 r hmem)⟩)
    ((topP_cases reqs).imp (fun h => by rw [h]; rfl)
      fun h => ⟨by rw [h.1]; rfl, hpsRow.trans (h.2 r hmem)⟩)
    hrow'
  rw [hksRow, hpsRow] at hvalues
  refine ⟨_, softmaxRow n filtered, rfl, ?_, fun t ht => softmaxRow_congr hvalues ht⟩
  rw [getElem?_map, hfiltered]
  rfl

end row

/-- A call of `propose`: its batch, and the hidden states by row and depth. -/
structure ProposeCall (H : Type) (n : Nat) where
  reqs : List (DraftRequest n)
  logitsprocsNeedOutputTokenIds : Bool
  hidden : Nat → Nat → H

/-- What a later verify pass calls `get_draft_probs` with. -/
structure VerifyCall (H : Type) (n : Nat) where
  reqs : List (DraftRequest n)
  buffers : DraftBuffers H
  numSpec : Nat
  numDraftTokens : List Nat
  length_eq : numDraftTokens.length = reqs.length
  /-- `RejectionSampler.forward` asserts `max_spec_len <= MAX_SPEC_LEN`. -/
  le_maxSpecLen : ∀ i, numDraftTokens.getD i 0 ≤ maxSpecLen

section truth

variable {H : Type} {n : Nat} (sort : TorchSort n) (junk : Nat → ℝ) (junkK : Nat → Nat)
variable (computeLogits : Option H → LogitsRow ℝ)

/-- The draws of `_save_hidden_states_and_sample`. -/
noncomputable def ProposeCall.draws (call : ProposeCall H n) (draftDepth : Nat) :
    Except Exn (List Draw) :=
  Sampler.forward sort
    ((range call.reqs.length).map fun row => computeLogits (some (call.hidden row draftDepth)))
    call.reqs call.logitsprocsNeedOutputTokenIds

/-- The hidden state that the row of draft `j` of request `i` is computed from. -/
def VerifyCall.hidden (verify : VerifyCall H n) (i j : Nat) : Option H :=
  verify.buffers.draftHiddenStatesFor verify.numSpec verify.numDraftTokens
    (rowStart verify.numDraftTokens i + j)

/-- Draft `j` of row `i` of the call, which is row `i'` of the verify pass, was drawn from the row
of `draft_probs` that the rejection sampler gets for it. -/
def ReportsTruthfully (call : ProposeCall H n) (verify : VerifyCall H n) (i i' j : Nat) : Prop :=
  ∃ draws drawn probs reported,
    call.draws sort computeLogits j = .ok draws ∧ draws[i]? = some (.random drawn) ∧
    getDraftProbs sort junk junkK computeLogits verify.buffers verify.numSpec verify.numDraftTokens
      (makeSamplingTensors verify.reqs) = .ok (.inr probs) ∧
    probs[rowStart verify.numDraftTokens i' + j]? = some reported ∧
    ∀ t ∈ vocab n, reported t = drawn t

noncomputable def DraftRequest.constrainRow (r : DraftRequest n) (row : LogitsRow ℝ) :
    LogitsRow ℝ :=
  LongCtxSpecDecode.constrainRow r.constraints r.constraints.outputTokenIds row

structure DraftRequest.SameRequest (r r' : DraftRequest n) : Prop where
  reqId : r'.reqId = r.reqId
  temperature : r'.temperature = r.temperature
  topK : r'.topK = r.topK
  topP : r'.topP = r.topP

namespace DraftRequest

variable (r : DraftRequest n) (t : Token)

/-- The allowed tokens or a bad word mask `t` after the output tokens. -/
def Masks : Prop :=
  r.constraints.allowedMask t ∨
    ∃ word ∈ r.constraints.params.badWordsTokenIds, Bans r.constraints.outputTokenIds word t

/-- The factor of the repetition penalty. -/
noncomputable def factor : ℝ :=
  if t ∈ r.constraints.promptTokenIds ∨ t ∈ r.constraints.outputTokenIds then
    r.constraints.params.repetitionPenalty
  else 1

/-- What the frequency and the presence penalty take off the logit. -/
noncomputable def penalty : ℝ :=
  r.constraints.params.frequencyPenalty * (r.constraints.outputTokenIds.count t : ℝ) +
    r.constraints.params.presencePenalty * if t ∈ r.constraints.outputTokenIds then 1 else 0

/-- The constraints take `c` off every logit of the vocabulary and do nothing else. -/
structure Shifts (c : ℝ) : Prop where
  not_masks : ∀ t ∈ vocab n, ¬r.Masks t
  factor : ∀ t ∈ vocab n, r.factor t = 1
  penalty : ∀ t ∈ vocab n, r.penalty t = c

variable {r t} {row : LogitsRow ℝ} {c : ℝ}

theorem constrainRow_coe {x : ℝ} (hx : row t = x) (h : ¬r.Masks t) : r.constrainRow row t =
    (((if x > 0 then x * (1 / r.factor t) else x * r.factor t) - r.penalty t : ℝ) : WithBot ℝ) := by
  refine (if_neg h).trans ?_
  rw [hx]
  exact congrArg WithBot.some (sub_sub ..)

theorem Shifts.constrainRow_eq (h : r.Shifts c) (row : LogitsRow ℝ) (ht : t ∈ vocab n) :
    r.constrainRow row t = (row t).map (· - c) := by
  cases hrow : row t with
  | bot =>
    refine (if_neg (h.not_masks t ht)).trans ?_
    rw [hrow]
    rfl
  | coe x =>
    rw [constrainRow_coe hrow (h.not_masks t ht), h.factor t ht, h.penalty t ht, div_one, mul_one,
      ite_self]
    rfl

/-- The rows that show what the constraints do: all logits zero, and one of them raised. -/
theorem shifts_of_rows (hn : 1 < n)
    (h : ∀ row : LogitsRow ℝ, ∃ c : ℝ, ∀ t ∈ vocab n, row t = (r.constrainRow row t).map (· + c)) :
    ∃ c, r.Shifts c := by
  obtain ⟨c, hc⟩ := h fun _ => ((0 : ℝ) : WithBot ℝ)
  have hfree : ∀ t ∈ vocab n, ¬r.Masks t := by
    intro t ht hmask
    have hbot := hc t ht
    rw [show r.constrainRow _ t = ⊥ from if_pos hmask] at hbot
    exact WithBot.coe_ne_bot hbot
  have hpenalty : ∀ t ∈ vocab n, r.penalty t = c := by
    intro t ht
    have hzero := hc t ht
    rw [constrainRow_coe rfl (hfree t ht), if_neg (lt_irrefl _)] at hzero
    have hzero := WithBot.coe_injective hzero
    linarith
  refine ⟨c, hfree, fun t ht => ?_, hpenalty⟩
  obtain ⟨u, hu, hne⟩ : ∃ u ∈ vocab n, u ≠ t := by
    rcases eq_or_ne t 0 with rfl | hne
    · exact ⟨1, mem_map.mpr ⟨1, mem_range.mpr hn, rfl⟩, by decide⟩
    · exact ⟨0, mem_map.mpr ⟨0, mem_range.mpr (by omega), rfl⟩, hne.symm⟩
  obtain ⟨d, hd⟩ := h fun v => ((if v = t then 1 else 0 : ℝ) : WithBot ℝ)
  have hraised := hd t ht
  have hother := hd u hu
  rw [constrainRow_coe rfl (hfree t ht), hpenalty t ht, if_pos rfl, if_pos one_pos] at hraised
  rw [constrainRow_coe rfl (hfree u hu), hpenalty u hu, if_neg hne, if_neg (lt_irrefl _)] at hother
  have hraised := WithBot.coe_injective hraised
  have hother := WithBot.coe_injective hother
  have hinv : 1 / r.factor t = 1 := by linarith
  rwa [one_div, inv_eq_one] at hinv

end DraftRequest

variable {call : ProposeCall H n}

theorem ProposeCall.draws_row {i : Nat} {r : DraftRequest n} (hi : call.reqs[i]? = some r)
    (hr : r.Random) (j : Nat) :
    ∃ draws drawn, call.draws sort computeLogits j = .ok draws ∧ draws[i]? = some (.random drawn) ∧
      ∀ t ∈ vocab n, drawn t = softmaxRow n
        (r.filterRow sort (r.constrainRow (computeLogits (some (call.hidden i j))))) t := by
  have hlt : i < call.reqs.length := (List.getElem?_eq_some_iff.mp hi).1
  set logits := (range call.reqs.length).map fun row =>
    computeLogits (some (call.hidden row j)) with hlogits
  have hconstrained := Sampler.applyLogitsProcessors_eq call.logitsprocsNeedOutputTokenIds false
    (show logits.length = (call.reqs.map (·.constraints)).length by
      rw [length_map, length_map, length_range])
  generalize hrows : logits.mapIdx _ = constrained at hconstrained
  have hrow : constrained[i]? = some (r.constrainRow (computeLogits (some (call.hidden i j)))) := by
    rw [← hrows, getElem?_mapIdx, getElem?_map, getElem?_range hlt]
    unfold onRow
    rw [getElem?_map, getElem?_map, hi]
    rfl
  obtain ⟨draws, drawn, hdraws, hdrawn, hprobs⟩ := sample_row hi hr hrow
  exact ⟨draws, drawn, bind_eq_ok.mpr ⟨constrained, hconstrained, hdraws⟩, hdrawn, hprobs⟩

variable {verify : VerifyCall H n}

theorem VerifyCall.probs_row {i j : Nat} {r : DraftRequest n} (hi : verify.reqs[i]? = some r)
    (hr : r.Random) (hj : j < verify.numDraftTokens.getD i 0) :
    ∃ probs reported, getDraftProbs sort junk junkK computeLogits verify.buffers verify.numSpec
        verify.numDraftTokens (makeSamplingTensors verify.reqs) = .ok (.inr probs) ∧
      probs[rowStart verify.numDraftTokens i + j]? = some reported ∧
      ∀ t ∈ vocab n, reported t =
        softmaxRow n (r.filterRow sort (computeLogits (verify.hidden i j))) t := by
  refine computeProbs_row hi hr verify.length_eq verify.le_maxSpecLen hj ?_
  rw [getElem?_map, getElem?_map, getElem?_range (rowStart_add_lt hj)]
  rfl

theorem reportsTruthfully_iff_rows {i i' j : Nat} {r r' : DraftRequest n}
    (hi : call.reqs[i]? = some r) (hi' : verify.reqs[i']? = some r') (hsame : r.SameRequest r')
    (hr : r.Random) (hj : j < verify.numDraftTokens.getD i' 0) :
    ReportsTruthfully sort junk junkK computeLogits call verify i i' j ↔
      ∃ c : ℝ, ∀ t ∈ vocab n, r.filterRow sort (computeLogits (verify.hidden i' j)) t =
        (r.filterRow sort (r.constrainRow (computeLogits (some (call.hidden i j)))) t).map
          (· + c) := by
  have hr' : r'.Random := by
    unfold DraftRequest.Random
    rw [hsame.temperature]
    exact hr
  have hfilter : r'.filterRow sort = r.filterRow sort := by
    unfold DraftRequest.filterRow
    rw [hsame.temperature, hsame.topK, hsame.topP]
  obtain ⟨draws, drawn, hdraws, hdrawn, hdrawnRow⟩ :=
    call.draws_row sort computeLogits hi hr j
  obtain ⟨probs, reported, hprobs, hreported, hreportedRow⟩ :=
    verify.probs_row sort junk junkK computeLogits hi' hr' hj
  rw [hfilter] at hreportedRow
  rw [← softmaxRow_eq_iff]
  constructor
  · rintro ⟨draws₂, drawn₂, probs₂, reported₂, hdraws₂, hdrawn₂, hprobs₂, hreported₂, heq⟩ t ht
    cases hdraws.symm.trans hdraws₂
    cases hdrawn.symm.trans hdrawn₂
    cases hprobs.symm.trans hprobs₂
    cases hreported.symm.trans hreported₂
    rw [← hreportedRow t ht, ← hdrawnRow t ht]
    exact heq t ht
  · intro heq
    refine ⟨draws, drawn, probs, reported, hdraws, hdrawn, hprobs, hreported, fun t ht => ?_⟩
    rw [hreportedRow t ht, hdrawnRow t ht]
    exact heq t ht

/-- The verify pass is the one of the batch after the call. -/
structure VerifyCall.Follows (verify : VerifyCall H n) (call : ProposeCall H n) : Prop where
  nodup : (call.reqs.map (·.reqId)).Nodup
  buffers : ∃ b : DraftBuffers H, verify.buffers =
    ((b.updateBatchOrder (call.reqs.map (·.reqId))).propose verify.numSpec call.reqs.length
      call.hidden).updateBatchOrder (verify.reqs.map (·.reqId))
  numDraftTokens_le : ∀ i, verify.numDraftTokens.getD i 0 ≤ verify.numSpec

theorem VerifyCall.Follows.hidden_eq (h : verify.Follows call) {i i' j : Nat}
    {r r' : DraftRequest n}
    (hi : call.reqs[i]? = some r) (hi' : verify.reqs[i']? = some r') (hid : r'.reqId = r.reqId)
    (hj : j < verify.numDraftTokens.getD i' 0) : verify.hidden i' j = some (call.hidden i j) := by
  obtain ⟨b, hb⟩ := h.buffers
  have hrow : (call.reqs.map (·.reqId))[i]? = some r.reqId := by
    rw [getElem?_map, hi]
    rfl
  unfold VerifyCall.hidden
  rw [DraftBuffers.draftHiddenStatesFor_eq _ h.numDraftTokens_le hj, hb,
    DraftBuffers.sourceRow_updateBatchOrder ((DraftBuffers.propose_prevReqIdToIndex ..).trans
      (DraftBuffers.updateBatchOrder_prevReqIdToIndex ..))
      (by rw [getElem?_map, hi', ← hid]; rfl) hrow h.nodup,
    DraftBuffers.updateBatchOrder_draftHiddenStates, DraftBuffers.propose_draftHiddenStates,
    if_pos ⟨(List.getElem?_eq_some_iff.mp hi).1, Nat.lt_of_lt_of_le hj (h.numDraftTokens_le i')⟩]

variable {sort junk junkK}

end truth

variable (prior : List Token)

/-- A request that must not produce token `1` right after `prior`. -/
noncomputable def plainDraft : DraftRequest 2 where
  reqId := 0
  constraints :=
    { params :=
        { frequencyPenalty := 1, repetitionPenalty := 1, repetitionPenalty_pos := zero_lt_one
          badWordsTokenIds := [prior ++ [1]]
          badWords_ne_nil := forall_mem_singleton.mpr
            (append_ne_nil_of_right_ne_nil _ (cons_ne_nil _ _)) }
      promptTokenIds := [0], outputTokenIds := [], specTokenIds := [] }
  temperature := 1
  temperature_range := Or.inr (by norm_num)
  topK := 2
  topK_range := ⟨by decide, by decide⟩
  topP := 1
  topP_le := le_rfl

theorem random_plainDraft : (plainDraft prior).Random := by
  have hlt : samplingEps < 1 := by
    unfold samplingEps
    norm_num
  exact not_lt.mpr hlt.le

noncomputable def plainCall : ProposeCall Unit 2 where
  reqs := [plainDraft prior]
  logitsprocsNeedOutputTokenIds := false
  hidden _ _ := ()

noncomputable def plainVerify : VerifyCall Unit 2 where
  reqs := [plainDraft prior]
  buffers := (((⟨fun _ _ => (), none, false, id⟩ : DraftBuffers Unit).updateBatchOrder [0]).propose
    1 1 fun _ _ => ()).updateBatchOrder [0]
  numSpec := 1
  numDraftTokens := [1]
  length_eq := rfl
  le_maxSpecLen i := by
    cases i with
    | zero => decide
    | succ i => exact Nat.zero_le _

theorem follows_plainVerify : (plainVerify prior).Follows (plainCall prior) where
  nodup := nodup_singleton _
  buffers := ⟨⟨fun _ _ => (), none, false, id⟩, rfl⟩
  numDraftTokens_le i := by
    cases i with
    | zero => exact le_rfl
    | succ i => exact Nat.zero_le _

end LongCtxSpecDecode
