import LongCtxSpecDecode.RejectionSampler

/-!
# Constraints on the logits

Penalties, allowed tokens and bad words, as `v1/sample/sampler.py` applies them to one row for each
request and `v1/sample/rejection_sampler.py` to one row for each draft token, with the metadata that
`_make_sampling_metadata` makes of a batch. Arithmetic is exact. Requests that use the other logits
processors are refused under speculative decoding.
-/

namespace LongCtxSpecDecode

open Library.Ragged List

/-- A row of logits by token, where `⊥` is `-inf`. -/
abbrev LogitsRow (K : Type) := Token → WithBot K

section model

variable {K : Type} [Field K] [LinearOrder K]

/-- The fields of `SamplingParams` that constrain the logits. -/
structure ConstraintParams (K : Type) [Field K] [LinearOrder K] where
  presencePenalty : K := 0
  frequencyPenalty : K := 0
  repetitionPenalty : K
  repetitionPenalty_pos : 0 < repetitionPenalty
  allowedTokenIds : List Token := []
  badWordsTokenIds : List (List Token) := []
  badWords_ne_nil : ∀ word ∈ badWordsTokenIds, word ≠ []

structure SampledRequest (K : Type) [Field K] [LinearOrder K] where
  params : ConstraintParams K
  promptTokenIds : List Token
  outputTokenIds : List Token
  specTokenIds : List Token

/-- The part of `SamplingMetadata` that the constraints read. -/
structure SamplingMetadata (K : Type) where
  noPenalties : Bool
  promptTokenIds : Option (List (List Token))
  frequencyPenalties : List K
  presencePenalties : List K
  repetitionPenalties : List K
  outputTokenIds : List (List Token)
  /-- `true` means that the logit is masked. -/
  allowedTokenIdsMask : Option (List (Token → Bool))
  badWordsTokenIds : List (Nat × List (List Token))
  specTokenIds : Option (List (List Token)) := none

variable (r : SampledRequest K)

namespace SampledRequest

def hasPenalties : Prop :=
  r.params.frequencyPenalty ≠ 0 ∨ r.params.presencePenalty ≠ 0 ∨ r.params.repetitionPenalty ≠ 1

instance (r : SampledRequest K) : Decidable r.hasPenalties :=
  inferInstanceAs (Decidable (_ ∨ _ ∨ _))

/-- The row of `allowed_token_ids_mask`. -/
def allowedMask (t : Token) : Bool :=
  decide (r.params.allowedTokenIds ≠ [] ∧ t ∉ r.params.allowedTokenIds)

end SampledRequest

/-- The entries of the bad-words dictionary, from row `i` on. -/
def badWordsItems (i : Nat) : List (SampledRequest K) → List (Nat × List (List Token))
  | [] => []
  | r :: reqs =>
    if r.params.badWordsTokenIds = [] then
      badWordsItems (i + 1) reqs
    else
      (i, r.params.badWordsTokenIds) :: badWordsItems (i + 1) reqs

/-- Whether `_make_sampling_metadata` passes the output tokens. -/
def NeedsOutputTokenIds (reqs : List (SampledRequest K)) (logitsprocsNeedOutputTokenIds : Bool) :
    Prop :=
  (∃ r ∈ reqs, r.hasPenalties) ∨ badWordsItems 0 reqs ≠ [] ∨ logitsprocsNeedOutputTokenIds = true

instance (reqs : List (SampledRequest K)) (need : Bool) :
    Decidable (NeedsOutputTokenIds reqs need) :=
  inferInstanceAs (Decidable (_ ∨ _ ∨ _))

def makeSamplingMetadata (reqs : List (SampledRequest K)) (logitsprocsNeedOutputTokenIds : Bool) :
    SamplingMetadata K where
  noPenalties := decide (¬ ∃ r ∈ reqs, r.hasPenalties)
  promptTokenIds :=
    if ∃ r ∈ reqs, r.hasPenalties then some (reqs.map (·.promptTokenIds)) else none
  frequencyPenalties := reqs.map (·.params.frequencyPenalty)
  presencePenalties := reqs.map (·.params.presencePenalty)
  repetitionPenalties := reqs.map (·.params.repetitionPenalty)
  outputTokenIds :=
    if NeedsOutputTokenIds reqs logitsprocsNeedOutputTokenIds then reqs.map (·.outputTokenIds)
    else []
  allowedTokenIdsMask :=
    if ∃ r ∈ reqs, r.params.allowedTokenIds ≠ [] then some (reqs.map (·.allowedMask)) else none
  badWordsTokenIds := badWordsItems 0 reqs
  specTokenIds := some (reqs.map (·.specTokenIds))

/-- `apply_penalties` of `model_executor/layers/utils.py`, for one entry. -/
def penalizeLogit (prompt history : List Token) (presence frequency repetition : K) (t : Token)
    (x : WithBot K) : WithBot K :=
  let penalty := if t ∈ prompt ∨ t ∈ history then repetition else 1
  let x := x.map fun x => if x > 0 then x * (1 / penalty) else x * penalty
  let x := x.map (· - frequency * (history.count t : K))
  x.map (· - presence * if t ∈ history then 1 else 0)

variable (logits : List (LogitsRow K))

/-- `apply_all_penalties`, on tensors with one row for each row of the logits. -/
def applyAllPenalties (prompts : List (List Token)) (presences frequencies repetitions : List K)
    (outputs : List (List Token)) : Except Exn (List (LogitsRow K)) :=
  let n := logits.length
  if prompts.length = n ∧ presences.length = n ∧ frequencies.length = n ∧ repetitions.length = n ∧
      outputs.length = n then
    .ok (logits.mapIdx fun i row t =>
      penalizeLogit (prompts.getD i []) (outputs.getD i []) (presences.getD i 0)
        (frequencies.getD i 0) (repetitions.getD i 1) t (row t))
  else
    .error (.runtimeError "The sizes of the tensors must match")

/-- `masked_fill_` with `-inf`: the mask is expanded to the shape of the logits. -/
def maskedFill (mask : List (Token → Bool)) : Except Exn (List (LogitsRow K)) :=
  if mask.length = logits.length then
    .ok (logits.mapIdx fun i row t => if mask.getD i (fun _ => false) t then ⊥ else row t)
  else if mask.length = 1 then
    .ok (logits.map fun row t => if mask.getD 0 (fun _ => false) t then ⊥ else row t)
  else
    .error (.runtimeError "The expanded size of the tensor must match the existing size")

/-- One round of `_apply_bad_words_single_batch`. -/
def applyBadWord (past : List Token) (row : LogitsRow K) (badWordIds : List Token) :
    Except Exn (LogitsRow K) :=
  if badWordIds.length > past.length + 1 then
    .ok row
  else
    let prefixLength := badWordIds.length - 1
    match badWordIds.getLast? with
    | none => .error (.indexError "list index out of range")
    | some lastTokenId =>
      let actualPrefix := if prefixLength > 0 then past.drop (past.length - prefixLength) else []
      let expectedPrefix := badWordIds.take prefixLength
      do
        require (actualPrefix.length = expectedPrefix.length) ""
        .ok (if actualPrefix = expectedPrefix then Function.update row lastTokenId ⊥ else row)

def applyBadWordsSingleBatch (row : LogitsRow K) (badWordsTokenIds : List (List Token))
    (past : List Token) : Except Exn (LogitsRow K) :=
  badWordsTokenIds.foldlM (applyBadWord past) row

/-- `_apply_bad_words_single_batch` on a row of the logits, with the history of that row. -/
def applyBadWordsRow (badWordsTokenIds : List (List Token)) (pastTokensIds : List (List Token))
    (logits : List (LogitsRow K)) (i : Nat) : Except Exn (List (LogitsRow K)) :=
  match logits[i]?, pastTokensIds[i]? with
  | some row, some past => do
      let row ← applyBadWordsSingleBatch row badWordsTokenIds past
      .ok (logits.set i row)
  | _, _ => .error (.indexError "list index out of range")

def applyBadWords (badWordsTokenIds : List (Nat × List (List Token)))
    (pastTokensIds : List (List Token)) : Except Exn (List (LogitsRow K)) :=
  badWordsTokenIds.foldlM (fun logits item => applyBadWordsRow item.2 pastTokensIds logits item.1)
    logits

/-- The loop of `apply_bad_words_with_drafts`, from request `i` on. -/
def applyBadWordsWithDraftsFrom (badWordsTokenIds : List (Nat × List (List Token)))
    (pastTokensIds : List (List Token)) (i startIdx : Nat) (remaining : Int) :
    List Nat → List (LogitsRow K) → Except Exn (List (LogitsRow K))
  | [], logits => .ok logits
  | n :: rest, logits =>
    match badWordsTokenIds.lookup i with
    | some words => do
        let logits ← (range' startIdx n).foldlM (applyBadWordsRow words pastTokensIds) logits
        let remaining := remaining - 1
        if remaining = 0 then
          .ok logits
        else
          applyBadWordsWithDraftsFrom badWordsTokenIds pastTokensIds (i + 1) (startIdx + n)
            remaining rest logits
    | none =>
      applyBadWordsWithDraftsFrom badWordsTokenIds pastTokensIds (i + 1) (startIdx + n)
        remaining rest logits

def applyBadWordsWithDrafts (badWordsTokenIds : List (Nat × List (List Token)))
    (pastTokensIds : List (List Token)) (numDraftTokens : List Nat) :
    Except Exn (List (LogitsRow K)) :=
  applyBadWordsWithDraftsFrom badWordsTokenIds pastTokensIds 0 0 badWordsTokenIds.length
    numDraftTokens logits

namespace Sampler

def combineOutputsWithSpecTokens (outputTokenIds : List (List Token))
    (specTokenIds : Option (List (List Token))) : List (List Token) :=
  match specTokenIds with
  | none => outputTokenIds
  | some specs =>
    zipWith (fun out spec => if spec = [] then out else out ++ spec) outputTokenIds specs

variable (logits : List (LogitsRow K))

def applyPenalties (m : SamplingMetadata K) (outputTokenIds : List (List Token)) :
    Except Exn (List (LogitsRow K)) :=
  if m.noPenalties then
    .ok logits
  else
    match m.promptTokenIds with
    | none => .error (.assertionError "")
    | some prompts =>
      applyAllPenalties logits prompts m.presencePenalties m.frequencyPenalties
        m.repetitionPenalties outputTokenIds

def applyAllowedTokenIds : Option (List (Token → Bool)) → Except Exn (List (LogitsRow K))
  | none => .ok logits
  | some mask => maskedFill logits mask

def applyBadWordsExclusion (badWordsTokenIds : List (Nat × List (List Token)))
    (outputTokenIds : List (List Token)) : Except Exn (List (LogitsRow K)) :=
  if badWordsTokenIds ≠ [] then applyBadWords logits badWordsTokenIds outputTokenIds
  else .ok logits

def applyLogitsProcessors (m : SamplingMetadata K) (predictBonusToken : Bool) :
    Except Exn (List (LogitsRow K)) := do
  let anyPenaltiesOrBadWords := m.badWordsTokenIds ≠ [] ∨ m.noPenalties = false
  let outputTokenIds :=
    if predictBonusToken = true ∧ anyPenaltiesOrBadWords then
      combineOutputsWithSpecTokens m.outputTokenIds m.specTokenIds
    else m.outputTokenIds
  let logits ← applyAllowedTokenIds logits m.allowedTokenIdsMask
  let logits ← applyBadWordsExclusion logits m.badWordsTokenIds outputTokenIds
  applyPenalties logits m outputTokenIds

end Sampler

namespace RejectionSampler

/-- The rows that `_combine_outputs_with_spec_tokens` appends for one request. -/
def specRows (out : List Token) : List Token → List (List Token)
  | [] => []
  | [_] => [out]
  | t :: t' :: rest => out :: specRows (out ++ [t]) (t' :: rest)

def combineOutputsWithSpecTokens (outputTokenIds : List (List Token))
    (specTokenIds : Option (List (List Token))) : List (List Token) :=
  match specTokenIds with
  | none => outputTokenIds
  | some specs => (zipWith specRows outputTokenIds specs).flatten

/-- `torch.arange(n).repeat_interleave(repeats)`: a single entry of `repeats` is expanded. -/
def repeatInterleave (n : Nat) (repeats : List Nat) : Except Exn (List Nat) :=
  if repeats.length = 1 then
    .ok ((range n).flatMap fun i => replicate (repeats.getD 0 0) i)
  else if repeats.length = n then
    .ok ((range n).flatMap fun i => replicate (repeats.getD i 0) i)
  else
    .error (.runtimeError "repeats must have the same size as input along dim")

def applyPenalties (logits : List (LogitsRow K)) (m : SamplingMetadata K) (repeatIndices : List Nat)
    (outputTokenIds : List (List Token)) : Except Exn (List (LogitsRow K)) :=
  if m.noPenalties then
    .ok logits
  else
    match m.promptTokenIds with
    | none => .error (.assertionError "")
    | some prompts =>
      applyAllPenalties logits (repeatIndices.map (prompts.getD · []))
        (repeatIndices.map (m.presencePenalties.getD · 0))
        (repeatIndices.map (m.frequencyPenalties.getD · 0))
        (repeatIndices.map (m.repetitionPenalties.getD · 1)) outputTokenIds

def applyPenaltiesAndMask (logits : List (LogitsRow K)) (m : SamplingMetadata K)
    (numDraftTokens : List Nat) (outputTokenIds : List (List Token)) :
    Except Exn (List (LogitsRow K)) := do
  let numRequests := m.outputTokenIds.length
  let repeatIndices ← repeatInterleave numRequests numDraftTokens
  let logits ← applyPenalties logits m repeatIndices outputTokenIds
  match m.allowedTokenIdsMask with
  | none => .ok logits
  | some mask => maskedFill logits (repeatIndices.map (mask.getD · fun _ => false))

def applyLogitsProcessors (logits : List (LogitsRow K)) (m : SamplingMetadata K)
    (numDraftTokens : List Nat) : Except Exn (List (LogitsRow K)) := do
  let anyPenaltiesOrBadWords := m.badWordsTokenIds ≠ [] ∨ m.noPenalties = false
  let outputTokenIds :=
    if anyPenaltiesOrBadWords then combineOutputsWithSpecTokens m.outputTokenIds m.specTokenIds
    else m.outputTokenIds
  let logits ←
    (if m.allowedTokenIdsMask.isSome = true ∨ m.noPenalties = false then
      applyPenaltiesAndMask logits m numDraftTokens outputTokenIds
    else .ok logits)
  if m.badWordsTokenIds ≠ [] then
    applyBadWordsWithDrafts logits m.badWordsTokenIds outputTokenIds numDraftTokens
  else .ok logits

end RejectionSampler

/-- A bad word whose last token would be `t`. -/
def Bans (past word : List Token) (t : Token) : Prop :=
  word.length ≤ past.length + 1 ∧
    past.drop (past.length - (word.length - 1)) = word.take (word.length - 1) ∧
    word.getLast? = some t

instance (past word : List Token) (t : Token) : Decidable (Bans past word t) :=
  inferInstanceAs (Decidable (_ ∧ _ ∧ _))

/-- A row without the bad words that would be completed after `past`. -/
def banRow (words : List (List Token)) (past : List Token) (row : LogitsRow K) : LogitsRow K :=
  fun t => if ∃ word ∈ words, Bans past word t then ⊥ else row t

def maskRow (row : LogitsRow K) : LogitsRow K :=
  fun t => if r.allowedMask t then ⊥ else row t

def penalizeRow (history : List Token) (row : LogitsRow K) : LogitsRow K :=
  fun t => penalizeLogit r.promptTokenIds history r.params.presencePenalty
    r.params.frequencyPenalty r.params.repetitionPenalty t (row t)

/-- The constrained row of a request with the output tokens `history`. -/
def constrainRow (history : List Token) (row : LogitsRow K) : LogitsRow K :=
  fun t => if r.allowedMask t ∨ ∃ word ∈ r.params.badWordsTokenIds, Bans history word t then ⊥
    else penalizeLogit r.promptTokenIds history r.params.presencePenalty
      r.params.frequencyPenalty r.params.repetitionPenalty t (row t)

/-- The rows of the draft tokens: the request and the output tokens before the draft. -/
def draftRows (reqs : List (SampledRequest K)) : List (SampledRequest K × List Token) :=
  reqs.flatMap fun r => (range r.specTokenIds.length).map fun j =>
    (r, r.outputTokenIds ++ r.specTokenIds.take j)

end model

section badWords

variable {K : Type}

@[simp] theorem banRow_nil (past : List Token) (row : LogitsRow K) : banRow [] past row = row := by
  funext t
  simp [banRow]

theorem banRow_cons (word : List Token) (words : List (List Token)) (past : List Token)
    (row : LogitsRow K) : banRow words past (banRow [word] past row) =
      banRow (word :: words) past row := by
  funext t
  unfold banRow
  by_cases hword : Bans past word t
  · simp [hword]
  · simp [hword]

theorem applyBadWord_eq (past : List Token) (row : LogitsRow K) {word : List Token}
    (hne : word ≠ []) : applyBadWord past row word = .ok (banRow [word] past row) := by
  unfold applyBadWord
  by_cases hlong : word.length > past.length + 1
  · rw [if_pos hlong]
    congr 1
    funext t
    unfold banRow Bans
    rw [if_neg]
    rintro ⟨w, hw, hle, -⟩
    rw [mem_singleton] at hw
    subst hw
    omega
  · rw [if_neg hlong, getLast?_eq_some_getLast hne]
    have hactual :
        (if word.length - 1 > 0 then past.drop (past.length - (word.length - 1)) else []) =
        past.drop (past.length - (word.length - 1)) := by
      split
      · rfl
      · rw [drop_eq_nil_of_le (by omega)]
    dsimp only
    rw [hactual, require_of_true (by simp; omega), ok_bind]
    congr 1
    funext t
    unfold banRow Bans
    simp only [mem_singleton, exists_eq_left, getLast?_eq_some_getLast hne,
      Option.some.injEq]
    by_cases heq : past.drop (past.length - (word.length - 1)) = word.take (word.length - 1)
    · rw [if_pos heq, Function.update_apply]
      exact if_congr ⟨fun h => ⟨by omega, heq, h.symm⟩, fun h => h.2.2.symm⟩ rfl rfl
    · rw [if_neg heq, if_neg fun h => heq h.2.1]

theorem applyBadWordsSingleBatch_eq (past : List Token) {words : List (List Token)}
    (hne : ∀ word ∈ words, word ≠ []) (row : LogitsRow K) :
    applyBadWordsSingleBatch row words past = .ok (banRow words past row) := by
  unfold applyBadWordsSingleBatch
  induction words generalizing row with
  | nil =>
    rfl
  | cons word words ih =>
    rw [foldlM_cons, applyBadWord_eq past row (hne word (mem_cons_self ..)), ok_bind,
      ih (fun w hw => hne w (mem_cons_of_mem _ hw)), banRow_cons]

variable {words : List (List Token)} (hne : ∀ word ∈ words, word ≠ [])
include hne

theorem applyBadWordsRow_eq (logits : List (LogitsRow K)) (past : List (List Token)) (i : Nat)
    (hi : i < logits.length) (hpast : i < past.length) :
    applyBadWordsRow words past logits i =
      .ok (logits.mapIdx fun k row =>
        if k = i then banRow words (past.getD k []) row else row) := by
  have hrow := getElem?_eq_getElem hi
  unfold applyBadWordsRow
  rw [hrow, getElem?_eq_getElem hpast]
  dsimp only
  rw [applyBadWordsSingleBatch_eq _ hne, ok_bind, set_eq_mapIdx hrow]
  congr 2
  funext k row
  refine if_ctx_congr Iff.rfl (fun hk => ?_) fun _ => rfl
  rw [hk, getD_eq_getElem _ _ hpast]

theorem badWordsRows_eq (logits : List (LogitsRow K)) (past : List (List Token))
    (startIdx n : Nat) (hi : startIdx + n ≤ logits.length) (hpast : startIdx + n ≤ past.length) :
    (range' startIdx n).foldlM (applyBadWordsRow words past) logits =
      .ok (logits.mapIdx fun k row => if startIdx ≤ k ∧ k < startIdx + n then
        banRow words (past.getD k []) row else row) := by
  induction n generalizing startIdx logits with
  | zero =>
    rw [mapIdx_eq_self fun k row => if_neg (by omega)]
    rfl
  | succ n ih =>
    rw [range'_succ, foldlM_cons, applyBadWordsRow_eq hne _ _ _ (by omega) (by omega), ok_bind,
      ih _ _ (by rw [length_mapIdx]; omega) (by omega), mapIdx_mapIdx]
    congr 2
    funext k row
    grind

end badWords

section rows

variable {K : Type} [Field K] [LinearOrder K]

@[simp] theorem penalizeLogit_bot (prompt history : List Token) (presence frequency repetition : K)
    (t : Token) : penalizeLogit prompt history presence frequency repetition t ⊥ = ⊥ := rfl

theorem penalizeRow_banRow (r : SampledRequest K) (history : List Token) (row : LogitsRow K) :
    penalizeRow r history (banRow r.params.badWordsTokenIds history (maskRow r row)) =
      constrainRow r history row := by
  funext t
  unfold penalizeRow banRow maskRow constrainRow
  by_cases hban : ∃ word ∈ r.params.badWordsTokenIds, Bans history word t
  · rw [if_pos hban, if_pos (Or.inr hban), penalizeLogit_bot]
  · grind [penalizeLogit_bot]

theorem banRow_penalizeRow (r : SampledRequest K) (history : List Token) (row : LogitsRow K) :
    banRow r.params.badWordsTokenIds history (maskRow r (penalizeRow r history row)) =
      constrainRow r history row := by
  funext t
  unfold penalizeRow banRow maskRow constrainRow
  by_cases hban : ∃ word ∈ r.params.badWordsTokenIds, Bans history word t
  · rw [if_pos hban, if_pos (Or.inr hban)]
  · grind

theorem penalizeRow_of_not_hasPenalties {r : SampledRequest K} (h : ¬ r.hasPenalties)
    (history : List Token) (row : LogitsRow K) : penalizeRow r history row = row := by
  obtain ⟨hfrequency, hpresence, hrepetition⟩ : r.params.frequencyPenalty = 0 ∧
      r.params.presencePenalty = 0 ∧ r.params.repetitionPenalty = 1 := by
    simpa [SampledRequest.hasPenalties] using h
  funext t
  unfold penalizeRow penalizeLogit
  rw [hfrequency, hpresence, hrepetition]
  cases row t with
  | bot => rfl
  | coe x => simp

theorem maskRow_of_nil {r : SampledRequest K} (h : r.params.allowedTokenIds = [])
    (row : LogitsRow K) : maskRow r row = row := by
  unfold maskRow SampledRequest.allowedMask
  simp [h]

theorem badWordsItems_eq_nil {i : Nat} {reqs : List (SampledRequest K)} :
    badWordsItems i reqs = [] ↔ ∀ r ∈ reqs, r.params.badWordsTokenIds = [] := by
  induction reqs generalizing i with
  | nil => simp [badWordsItems]
  | cons r reqs ih =>
    unfold badWordsItems
    split
    · rename_i hnil
      simp [ih, hnil]
    · rename_i hnil
      simp [hnil]

variable (reqs : List (SampledRequest K))

def badWordsAt (k : Nat) : Option (List (List Token)) :=
  reqs[k]?.bind fun r =>
    if r.params.badWordsTokenIds = [] then none else some r.params.badWordsTokenIds

theorem lookup_badWordsItems_of_lt {i j : Nat} (h : j < i) :
    (badWordsItems i reqs).lookup j = none := by
  induction reqs generalizing i with
  | nil => rfl
  | cons r reqs ih =>
    unfold badWordsItems
    split
    · exact ih (by omega)
    · rw [lookup_cons, beq_false_of_ne (by omega)]
      exact ih (by omega)

theorem lookup_badWordsItems (i k : Nat) (reqs : List (SampledRequest K)) :
    (badWordsItems i reqs).lookup (i + k) = badWordsAt reqs k := by
  induction reqs generalizing i k with
  | nil => rfl
  | cons r reqs ih =>
    unfold badWordsItems
    cases k with
    | zero =>
      split
      · rename_i hnil
        rw [lookup_badWordsItems_of_lt reqs (by omega)]
        simp [badWordsAt, hnil]
      · rename_i hnil
        simp [badWordsAt, hnil]
    | succ k =>
      have hrest := ih (i + 1) k
      rw [show i + 1 + k = i + (k + 1) by omega] at hrest
      split
      · exact hrest
      · rw [lookup_cons, beq_false_of_ne (by omega)]
        exact hrest

/-- The rows from `start` on without the bad words of the requests that own them. -/
def banFrom (owners : List (SampledRequest K)) (past : List (List Token)) (start k : Nat)
    (row : LogitsRow K) : LogitsRow K :=
  if k < start then row
  else (owners[k - start]?).elim row fun r =>
    banRow r.params.badWordsTokenIds (past.getD k []) row

theorem banFrom_eq_self {owners : List (SampledRequest K)}
    (h : ∀ r ∈ owners, r.params.badWordsTokenIds = []) (past : List (List Token)) (start k : Nat)
    (row : LogitsRow K) : banFrom owners past start k row = row := by
  unfold banFrom
  split
  · rfl
  · cases hk : owners[k - start]? with
    | none => rfl
    | some r => simp [h r (mem_of_getElem? hk)]

theorem banFrom_replicate_append (n : Nat) (r : SampledRequest K) (owners : List (SampledRequest K))
    (past : List (List Token)) (start k : Nat) (row : LogitsRow K) :
    banFrom (replicate n r ++ owners) past start k row =
      banFrom owners past (start + n) k
        (if start ≤ k ∧ k < start + n then
          banRow r.params.badWordsTokenIds (past.getD k []) row else row) := by
  unfold banFrom
  rcases Nat.lt_or_ge k start with hk | hk
  · rw [if_pos hk, if_pos (by omega), if_neg (by omega)]
  · grind

theorem banFrom_cons (r : SampledRequest K) (owners : List (SampledRequest K))
    (past : List (List Token)) (start k : Nat) (row : LogitsRow K) :
    banFrom (r :: owners) past start k row =
      banFrom owners past (start + 1) k
        (if k = start then banRow r.params.badWordsTokenIds (past.getD k []) row else row) := by
  refine (banFrom_replicate_append 1 r owners past start k row).trans ?_
  congr 1
  exact if_congr (by omega) rfl rfl

theorem applyBadWords_eq (past : List (List Token)) (i : Nat) (logits : List (LogitsRow K))
    (hlen : i + reqs.length ≤ logits.length) (hpast : i + reqs.length ≤ past.length) :
    applyBadWords logits (badWordsItems i reqs) past =
      .ok (logits.mapIdx (banFrom reqs past i)) := by
  induction reqs generalizing i logits with
  | nil => exact congrArg _ (mapIdx_eq_self fun k row => banFrom_eq_self (by simp) ..).symm
  | cons r reqs ih =>
    rw [length_cons] at hlen hpast
    unfold badWordsItems
    split
    · rename_i hnil
      rw [ih (i + 1) logits (by omega) (by omega)]
      congr 2
      funext k row
      rw [banFrom_cons, hnil, banRow_nil, ite_self]
    · refine bind_eq_ok.mpr ⟨_, applyBadWordsRow_eq r.params.badWords_ne_nil logits past i
        (by omega) (by omega), ?_⟩
      refine (ih (i + 1) _ (by rw [length_mapIdx]; omega) (by omega)).trans ?_
      rw [mapIdx_mapIdx]
      congr 2
      funext k row
      exact (banFrom_cons ..).symm

def rowOwners : List (SampledRequest K) :=
  reqs.flatMap fun r => replicate r.specTokenIds.length r

theorem applyBadWordsWithDraftsFrom_eq {items : List (Nat × List (List Token))}
    (past : List (List Token)) {i : Nat} (startIdx : Nat) (logits : List (LogitsRow K))
    (hitems : ∀ k, items.lookup (i + k) = badWordsAt reqs k)
    (hlen : startIdx + (rowOwners reqs).length ≤ logits.length)
    (hpast : startIdx + (rowOwners reqs).length ≤ past.length) :
    applyBadWordsWithDraftsFrom items past i startIdx (badWordsItems i reqs).length
        (reqs.map (·.specTokenIds.length)) logits =
      .ok (logits.mapIdx (banFrom (rowOwners reqs) past startIdx)) := by
  induction reqs generalizing i startIdx logits with
  | nil =>
    exact congrArg _ (mapIdx_eq_self fun k row => banFrom_eq_self (by simp [rowOwners]) ..).symm
  | cons r reqs ih =>
    have howners : rowOwners (r :: reqs) =
        replicate r.specTokenIds.length r ++ rowOwners reqs := rfl
    have hrest : ∀ k, items.lookup (i + 1 + k) = badWordsAt reqs k := by
      intro k
      rw [show i + 1 + k = i + (k + 1) by omega]
      exact hitems (k + 1)
    rw [howners, length_append, length_replicate] at hlen hpast
    rw [howners, map_cons]
    unfold applyBadWordsWithDraftsFrom
    by_cases hnil : r.params.badWordsTokenIds = []
    · have hlookup : items.lookup i = none := by
        refine (hitems 0).trans ?_
        simp [badWordsAt, hnil]
      rw [hlookup, badWordsItems, if_pos hnil]
      refine (ih (startIdx + r.specTokenIds.length) logits hrest (by omega) (by omega)).trans ?_
      congr 2
      funext k row
      rw [banFrom_replicate_append, hnil, banRow_nil, ite_self]
    · have hlookup : items.lookup i = some r.params.badWordsTokenIds := by
        refine (hitems 0).trans ?_
        simp [badWordsAt, hnil]
      have hcount : (badWordsItems i (r :: reqs)).length =
        (badWordsItems (i + 1) reqs).length + 1 := by
        simp [badWordsItems, hnil]
      have hfun : banFrom (replicate r.specTokenIds.length r ++ rowOwners reqs) past startIdx =
          fun k row => banFrom (rowOwners reqs) past (startIdx + r.specTokenIds.length) k _ :=
        funext₂ fun k row => banFrom_replicate_append ..
      rw [hlookup, hcount, hfun]
      dsimp only
      rw [badWordsRows_eq r.params.badWords_ne_nil logits past startIdx r.specTokenIds.length
        (by omega) (by omega), ok_bind]
      push_cast
      rw [Int.add_sub_cancel]
      split
      · have hnone : badWordsItems (i + 1) reqs = [] := length_eq_zero_iff.mp (by omega)
        congr 2
        funext k row
        rw [banFrom_eq_self]
        intro r' hr'
        obtain ⟨r'', hr'', hmem⟩ := mem_flatMap.mp hr'
        rw [(mem_replicate.mp hmem).2]
        exact badWordsItems_eq_nil.mp hnone r'' hr''
      · refine (ih _ _ hrest (by rw [length_mapIdx]; omega) (by omega)).trans ?_
        rw [mapIdx_mapIdx]
        rfl

def onRow (ps : List (SampledRequest K × List Token))
    (f : SampledRequest K → List Token → LogitsRow K → LogitsRow K) (k : Nat) (row : LogitsRow K) :
    LogitsRow K :=
  (ps[k]?).elim row fun p => f p.1 p.2 row

variable {ps : List (SampledRequest K × List Token)} {logits : List (LogitsRow K)}

theorem mapIdx_onRow_eq_self {f : SampledRequest K → List Token → LogitsRow K → LogitsRow K}
    (h : ∀ p ∈ ps, ∀ row, f p.1 p.2 row = row) : logits.mapIdx (onRow ps f) = logits := by
  refine mapIdx_eq_self fun k row => ?_
  unfold onRow
  cases hk : ps[k]? with
  | none => rfl
  | some p => exact h p (mem_of_getElem? hk) row

theorem banFrom_zero : banFrom (ps.map Prod.fst) (ps.map Prod.snd) 0 =
    onRow ps fun r history => banRow r.params.badWordsTokenIds history := by
  funext k row
  unfold banFrom onRow
  rw [getElem?_map]
  cases hk : ps[k]? with
  | none => rfl
  | some p => simp [hk]

theorem applyAllPenalties_eq (hlen : logits.length = ps.length) :
    applyAllPenalties logits (ps.map (·.1.promptTokenIds))
        (ps.map (·.1.params.presencePenalty)) (ps.map (·.1.params.frequencyPenalty))
        (ps.map (·.1.params.repetitionPenalty)) (ps.map Prod.snd) =
      .ok (logits.mapIdx (onRow ps penalizeRow)) := by
  unfold applyAllPenalties
  rw [if_pos (by simp [hlen])]
  refine congrArg _ (mapIdx_eq_mapIdx_iff.mpr fun k hk => ?_)
  funext t
  simp [onRow, penalizeRow, getElem?_eq_getElem (hlen ▸ hk)]

theorem maskedFill_eq (hlen : logits.length = ps.length) :
    maskedFill logits (ps.map (·.1.allowedMask)) =
      .ok (logits.mapIdx (onRow ps fun r _ => maskRow r)) := by
  unfold maskedFill
  rw [if_pos (by simp [hlen])]
  refine congrArg _ (mapIdx_eq_mapIdx_iff.mpr fun k hk => ?_)
  funext t
  simp [onRow, maskRow, getElem?_eq_getElem (hlen ▸ hk)]

theorem mapIdx_onRow (f g h : SampledRequest K → List Token → LogitsRow K → LogitsRow K)
    (heq : ∀ r history row, f r history (g r history row) = h r history row) :
    (logits.mapIdx (onRow ps g)).mapIdx (onRow ps f) = logits.mapIdx (onRow ps h) := by
  rw [mapIdx_mapIdx]
  congr 1
  funext k row
  simp only [Function.comp, onRow]
  cases ps[k]? with
  | none => rfl
  | some p => exact heq p.1 p.2 row

end rows

section batch

variable {K : Type} [Field K] [LinearOrder K] {reqs : List (SampledRequest K)} {need : Bool}
variable {logits : List (LogitsRow K)}

variable {m : SamplingMetadata K} (hm : makeSamplingMetadata reqs need = m)
include hm

theorem noPenalties_eq_false : m.noPenalties = false ↔ ∃ r ∈ reqs, r.hasPenalties := by
  subst hm
  unfold makeSamplingMetadata
  simp

theorem noPenalties_eq_true (h : ¬ ∃ r ∈ reqs, r.hasPenalties) : m.noPenalties = true :=
  Bool.eq_true_of_not_eq_false fun hfalse => h ((noPenalties_eq_false hm).mp hfalse)

theorem mask_eq_some (h : ∃ r ∈ reqs, r.params.allowedTokenIds ≠ []) :
    m.allowedTokenIdsMask = some (reqs.map (·.allowedMask)) := by
  rw [← hm]
  exact if_pos h

theorem mask_eq_none (h : ¬ ∃ r ∈ reqs, r.params.allowedTokenIds ≠ []) :
    m.allowedTokenIdsMask = none := by
  rw [← hm]
  exact if_neg h

theorem outputTokenIds_of_any (h : m.badWordsTokenIds ≠ [] ∨ m.noPenalties = false) :
    m.outputTokenIds = reqs.map (·.outputTokenIds) := by
  have hneeds : NeedsOutputTokenIds reqs need := by
    rcases h with hbad | hpenalties
    · rw [← hm] at hbad
      exact Or.inr (Or.inl hbad)
    · exact Or.inl ((noPenalties_eq_false hm).mp hpenalties)
  rw [← hm]
  exact if_pos hneeds

omit hm

/-! A stage that no request asks for leaves the rows of the requests as they are. -/

variable {ps : List (SampledRequest K × List Token)} (hmem : ∀ p ∈ ps, p.1 ∈ reqs)
include hmem

theorem mapIdx_penalizeRow_eq_self (h : ¬ ∃ r ∈ reqs, r.hasPenalties) :
    logits.mapIdx (onRow ps penalizeRow) = logits :=
  mapIdx_onRow_eq_self fun p hp =>
    penalizeRow_of_not_hasPenalties (fun hr => h ⟨p.1, hmem p hp, hr⟩) p.2

theorem mapIdx_maskRow_eq_self (h : ¬ ∃ r ∈ reqs, r.params.allowedTokenIds ≠ []) :
    logits.mapIdx (onRow ps fun r _ => maskRow r) = logits :=
  mapIdx_onRow_eq_self fun p hp => maskRow_of_nil (not_not.mp fun hne => h ⟨p.1, hmem p hp, hne⟩)

theorem mapIdx_banRow_eq_self (h : badWordsItems 0 reqs = []) :
    logits.mapIdx (onRow ps fun r history => banRow r.params.badWordsTokenIds history) =
      logits := by
  refine mapIdx_onRow_eq_self fun p hp row => ?_
  rw [badWordsItems_eq_nil.mp h p.1 (hmem p hp), banRow_nil]

omit hmem

namespace Sampler

def history (predictBonusToken : Bool) (r : SampledRequest K) : List Token :=
  if predictBonusToken then r.outputTokenIds ++ r.specTokenIds else r.outputTokenIds

theorem combineOutputsWithSpecTokens_eq :
    combineOutputsWithSpecTokens (reqs.map (·.outputTokenIds)) (some (reqs.map (·.specTokenIds))) =
      reqs.map (history true) := by
  unfold combineOutputsWithSpecTokens
  dsimp only
  rw [zipWith_map, zipWith_self]
  refine map_congr_left fun r _ => ?_
  split
  · rename_i hnil
    simp [history, hnil]
  · rfl

section stages

variable (outs : List (List Token)) (hfst : ps.map Prod.fst = reqs)
  (hlen : logits.length = ps.length)
include hfst

theorem mem_of_map_fst (p : SampledRequest K × List Token) (hp : p ∈ ps) : p.1 ∈ reqs :=
  hfst ▸ mem_map_of_mem hp

include hlen

theorem mask_stage (hm : makeSamplingMetadata reqs need = m) :
    applyAllowedTokenIds logits m.allowedTokenIdsMask =
      .ok (logits.mapIdx (onRow ps fun r _ => maskRow r)) := by
  by_cases hallowed : ∃ r ∈ reqs, r.params.allowedTokenIds ≠ []
  · rw [mask_eq_some hm hallowed, ← hfst, map_map]
    exact maskedFill_eq hlen
  · rw [mask_eq_none hm hallowed, mapIdx_maskRow_eq_self (mem_of_map_fst hfst) hallowed]
    rfl

theorem badWords_stage (houts : badWordsItems 0 reqs ≠ [] → outs = ps.map Prod.snd) :
    applyBadWordsExclusion logits (badWordsItems 0 reqs) outs =
      .ok (logits.mapIdx
        (onRow ps fun r history => banRow r.params.badWordsTokenIds history)) := by
  by_cases hbad : badWordsItems 0 reqs ≠ []
  · have hreqs : reqs.length = ps.length := by rw [← hfst, length_map]
    rw [← banFrom_zero, hfst, ← houts hbad]
    exact (if_pos hbad).trans (applyBadWords_eq reqs outs 0 logits (by omega)
      (by rw [houts hbad, length_map]; omega))
  · rw [mapIdx_banRow_eq_self (mem_of_map_fst hfst) (not_not.mp hbad)]
    exact if_neg hbad

theorem penalties_stage (hm : makeSamplingMetadata reqs need = m)
    (houts : (∃ r ∈ reqs, r.hasPenalties) → outs = ps.map Prod.snd) :
    applyPenalties logits m outs = .ok (logits.mapIdx (onRow ps penalizeRow)) := by
  unfold applyPenalties
  by_cases hpenalties : ∃ r ∈ reqs, r.hasPenalties
  · have hprompts : (makeSamplingMetadata reqs need).promptTokenIds =
        some (reqs.map (·.promptTokenIds)) := if_pos hpenalties
    rw [(noPenalties_eq_false hm).mpr hpenalties, ← hm, hprompts, houts hpenalties,
      ← applyAllPenalties_eq hlen]
    unfold makeSamplingMetadata
    rw [← hfst, map_map, map_map, map_map, map_map]
    rfl
  · rw [noPenalties_eq_true hm hpenalties,
      mapIdx_penalizeRow_eq_self (mem_of_map_fst hfst) hpenalties]
    rfl

end stages

theorem applyLogitsProcessors_eq (need predictBonusToken : Bool)
    (hlen : logits.length = reqs.length) :
    applyLogitsProcessors logits (makeSamplingMetadata reqs need) predictBonusToken =
      .ok (logits.mapIdx
        (onRow (reqs.map fun r => (r, history predictBonusToken r)) constrainRow)) := by
  have hfst : (reqs.map fun r => (r, history predictBonusToken r)).map Prod.fst = reqs := by
    rw [map_map]
    exact map_id reqs
  have hsnd : (reqs.map fun r => (r, history predictBonusToken r)).map Prod.snd =
      reqs.map (history predictBonusToken) := by
    rw [map_map]
    rfl
  generalize (reqs.map fun r => (r, history predictBonusToken r)) = ps at hfst hsnd ⊢
  have hpsLength : logits.length = ps.length := by rw [← hfst, length_map] at hlen; exact hlen
  have hbadWords : (makeSamplingMetadata reqs need).badWordsTokenIds = badWordsItems 0 reqs := rfl
  have hspec : (makeSamplingMetadata reqs need).specTokenIds =
    some (reqs.map (·.specTokenIds)) := rfl
  generalize hm : makeSamplingMetadata reqs need = m at hbadWords hspec ⊢
  unfold applyLogitsProcessors
  dsimp only
  generalize houts : (if predictBonusToken = true ∧
      (m.badWordsTokenIds ≠ [] ∨ m.noPenalties = false) then
      combineOutputsWithSpecTokens m.outputTokenIds m.specTokenIds else m.outputTokenIds) = outs
  -- the histories, when they are used
  have hused : m.badWordsTokenIds ≠ [] ∨ m.noPenalties = false → outs = ps.map Prod.snd := by
    intro hany
    rw [← houts, outputTokenIds_of_any hm hany, hspec, combineOutputsWithSpecTokens_eq, hsnd]
    cases predictBonusToken with
    | true => exact if_pos ⟨rfl, hany⟩
    | false => exact if_neg fun h => Bool.false_ne_true h.1
  rw [hbadWords] at hused ⊢
  rw [mask_stage hfst hpsLength hm, ok_bind, badWords_stage outs hfst
    (by rw [length_mapIdx, hpsLength]) fun hbad => hused (Or.inl hbad), ok_bind,
    mapIdx_onRow _ _ _ fun _ _ _ => rfl, penalties_stage outs hfst
    (by rw [length_mapIdx, hpsLength]) hm
    fun hp => hused (Or.inr ((noPenalties_eq_false hm).mpr hp))]
  exact congrArg _ (mapIdx_onRow _ _ _ penalizeRow_banRow)

end Sampler

theorem map_draftRows {β : Type} (f : SampledRequest K → β) :
    (draftRows reqs).map (fun p => f p.1) =
      reqs.flatMap fun r => replicate r.specTokenIds.length (f r) := by
  unfold draftRows
  rw [map_flatMap]
  congr 1
  funext r
  have hconst : ((fun p : SampledRequest K × List Token => f p.1) ∘
      fun j => (r, r.outputTokenIds ++ r.specTokenIds.take j)) = Function.const Nat (f r) := rfl
  rw [map_map, hconst, map_const, length_range]

theorem draftRows_fst : (draftRows reqs).map Prod.fst = rowOwners reqs := map_draftRows id

theorem draftRows_length : (draftRows reqs).length = (reqs.map (·.specTokenIds.length)).sum := by
  unfold draftRows
  simp

theorem mem_of_mem_draftRows (p : SampledRequest K × List Token) (h : p ∈ draftRows reqs) :
    p.1 ∈ reqs := by
  obtain ⟨r, hr, hp⟩ := mem_flatMap.mp h
  obtain ⟨_, -, rfl⟩ := mem_map.mp hp
  exact hr

theorem draftRows_getElem? {i j : Nat} {r : SampledRequest K} (hi : reqs[i]? = some r)
    (hj : j < r.specTokenIds.length) :
    (draftRows reqs)[rowStart (reqs.map (·.specTokenIds.length)) i + j]? =
      some (r, r.outputTokenIds ++ r.specTokenIds.take j) := by
  have hrow : (reqs.map fun r => (range r.specTokenIds.length).map fun j =>
      (r, r.outputTokenIds ++ r.specTokenIds.take j))[i]? =
      some ((range r.specTokenIds.length).map fun j =>
        (r, r.outputTokenIds ++ r.specTokenIds.take j)) := by
    rw [getElem?_map, hi]
    rfl
  have hget := getElem?_flatten _ hrow (by simpa using hj)
  rw [map_map] at hget
  have hlens : (length ∘ fun r : SampledRequest K =>
      (range r.specTokenIds.length).map fun j => (r, r.outputTokenIds ++ r.specTokenIds.take j)) =
      fun r => r.specTokenIds.length := by
    funext r
    simp
  rw [hlens] at hget
  unfold draftRows
  rw [flatMap_def, hget]
  simp [hj]

namespace RejectionSampler

theorem specRows_eq (out spec : List Token) :
    specRows out spec = (range spec.length).map fun j => out ++ spec.take j := by
  induction spec generalizing out with
  | nil => rfl
  | cons t rest ih =>
    cases rest with
    | nil => simp [specRows]
    | cons t' rest =>
      rw [specRows, ih, show (t :: t' :: rest).length = (t' :: rest).length + 1 from rfl,
        range_succ_eq_map]
      simp

theorem combineOutputsWithSpecTokens_eq :
    combineOutputsWithSpecTokens (reqs.map (·.outputTokenIds)) (some (reqs.map (·.specTokenIds))) =
      (draftRows reqs).map Prod.snd := by
  unfold combineOutputsWithSpecTokens draftRows
  dsimp only
  rw [zipWith_map, zipWith_self, map_flatMap]
  congr 1
  refine map_congr_left fun r _ => ?_
  rw [specRows_eq, map_map]
  rfl

theorem repeatInterleave_eq (reqs : List (SampledRequest K)) :
    ∃ indices, repeatInterleave reqs.length (reqs.map (·.specTokenIds.length)) = .ok indices ∧
      ∀ {β : Type} (f : SampledRequest K → β) (default : β),
        indices.map ((reqs.map f).getD · default) = (draftRows reqs).map fun p => f p.1 := by
  refine ⟨(range reqs.length).flatMap fun i =>
    replicate ((reqs.map (·.specTokenIds.length)).getD i 0) i, ?_, fun f default => ?_⟩
  · unfold repeatInterleave
    split
    · rename_i hone
      rw [length_map] at hone
      rw [hone]
      rfl
    · rw [if_pos (length_map _)]
  · rw [map_draftRows]
    exact map_repeat reqs (·.specTokenIds.length) f default

section stages

variable {outs : List (List Token)} (hm : makeSamplingMetadata reqs need = m)
  (hlen : logits.length = (draftRows reqs).length)
  (houts : (∃ r ∈ reqs, r.hasPenalties) → outs = (draftRows reqs).map Prod.snd)
include hm hlen houts

theorem penalties_stage {indices : List Nat}
    (hindices : ∀ {β : Type} (f : SampledRequest K → β) (default : β),
      indices.map ((reqs.map f).getD · default) = (draftRows reqs).map fun p => f p.1) :
    applyPenalties logits m indices outs =
      .ok (logits.mapIdx (onRow (draftRows reqs) penalizeRow)) := by
  unfold applyPenalties
  by_cases hpenalties : ∃ r ∈ reqs, r.hasPenalties
  · have hprompts : (makeSamplingMetadata reqs need).promptTokenIds =
        some (reqs.map (·.promptTokenIds)) := if_pos hpenalties
    rw [(noPenalties_eq_false hm).mpr hpenalties, ← hm, hprompts, houts hpenalties,
      ← applyAllPenalties_eq hlen]
    unfold makeSamplingMetadata
    dsimp only
    rw [hindices, hindices, hindices, hindices]
    rfl
  · rw [noPenalties_eq_true hm hpenalties,
      mapIdx_penalizeRow_eq_self mem_of_mem_draftRows hpenalties]
    rfl

theorem penaltiesAndMask_stage
    (hneeds : m.allowedTokenIdsMask.isSome = true → NeedsOutputTokenIds reqs need) :
    (if m.allowedTokenIdsMask.isSome = true ∨ m.noPenalties = false then
        applyPenaltiesAndMask logits m (reqs.map (·.specTokenIds.length)) outs
        else .ok logits) =
      .ok (logits.mapIdx
        (onRow (draftRows reqs) fun r history row => maskRow r (penalizeRow r history row))) := by
  rw [← mapIdx_onRow _ _ _ fun _ _ _ => rfl]
  split
  · rename_i hany
    have hcount : m.outputTokenIds = reqs.map (·.outputTokenIds) := by
      have hneed : NeedsOutputTokenIds reqs need :=
        hany.elim hneeds fun hpenalties => Or.inl ((noPenalties_eq_false hm).mp hpenalties)
      rw [← hm]
      exact if_pos hneed
    obtain ⟨indices, hrepeat, hindices⟩ := repeatInterleave_eq reqs
    unfold applyPenaltiesAndMask
    dsimp only
    rw [hcount, length_map, hrepeat, ok_bind, penalties_stage hm hlen houts hindices, ok_bind]
    by_cases hallowed : ∃ r ∈ reqs, r.params.allowedTokenIds ≠ []
    · rw [mask_eq_some hm hallowed]
      dsimp only
      rw [hindices, maskedFill_eq (by rw [length_mapIdx, hlen])]
    · rw [mask_eq_none hm hallowed, mapIdx_maskRow_eq_self mem_of_mem_draftRows hallowed]
  · rename_i hany
    obtain ⟨hmask, hpenalties⟩ := not_or.mp hany
    rw [mapIdx_penalizeRow_eq_self mem_of_mem_draftRows
      fun h => hpenalties ((noPenalties_eq_false hm).mpr h), mapIdx_maskRow_eq_self
      mem_of_mem_draftRows fun h => hmask (by rw [mask_eq_some hm h]; rfl)]

end stages

theorem applyLogitsProcessors_eq (hlen : logits.length = (draftRows reqs).length)
    (hneeds : (makeSamplingMetadata reqs need).allowedTokenIdsMask.isSome = true →
      NeedsOutputTokenIds reqs need) :
    applyLogitsProcessors logits (makeSamplingMetadata reqs need)
        (reqs.map (·.specTokenIds.length)) =
      .ok (logits.mapIdx (onRow (draftRows reqs) constrainRow)) := by
  have hbadWords : (makeSamplingMetadata reqs need).badWordsTokenIds = badWordsItems 0 reqs := rfl
  have hspec : (makeSamplingMetadata reqs need).specTokenIds =
    some (reqs.map (·.specTokenIds)) := rfl
  generalize hm : makeSamplingMetadata reqs need = m at hneeds hbadWords hspec ⊢
  unfold applyLogitsProcessors
  dsimp only
  generalize houts : (if m.badWordsTokenIds ≠ [] ∨ m.noPenalties = false then
      combineOutputsWithSpecTokens m.outputTokenIds m.specTokenIds else m.outputTokenIds) = outs
  have hused : m.badWordsTokenIds ≠ [] ∨ m.noPenalties = false →
      outs = (draftRows reqs).map Prod.snd := by
    intro hany
    rw [← houts, if_pos hany, outputTokenIds_of_any hm hany, hspec, combineOutputsWithSpecTokens_eq]
  rw [hbadWords] at hused ⊢
  rw [penaltiesAndMask_stage hm hlen
    (fun hp => hused (Or.inr ((noPenalties_eq_false hm).mpr hp))) hneeds, ok_bind,
    ← mapIdx_onRow _ _ _ banRow_penalizeRow]
  by_cases hbad : badWordsItems 0 reqs ≠ []
  · have howners : (rowOwners reqs).length = (draftRows reqs).length := by
      rw [← draftRows_fst, length_map]
    rw [if_pos hbad, ← banFrom_zero, draftRows_fst, ← hused (Or.inl hbad)]
    exact applyBadWordsWithDraftsFrom_eq reqs outs 0 _ (lookup_badWordsItems 0 · reqs)
      (by rw [length_mapIdx]; omega) (by rw [hused (Or.inl hbad), length_map]; omega)
  · rw [if_neg hbad, mapIdx_banRow_eq_self mem_of_mem_draftRows (not_not.mp hbad)]

theorem applyLogitsProcessors_error (hlen : logits.length = (draftRows reqs).length)
    (hallowed : ∃ r ∈ reqs, r.params.allowedTokenIds ≠ [])
    (hneeds : ¬ NeedsOutputTokenIds reqs need)
    (hdrafts : ¬ ∃ r, reqs = [r] ∧ r.specTokenIds = []) (result : List (LogitsRow K)) :
    applyLogitsProcessors logits (makeSamplingMetadata reqs need)
      (reqs.map (·.specTokenIds.length)) ≠ .ok result := by
  have houts : (makeSamplingMetadata reqs need).outputTokenIds = [] := if_neg hneeds
  generalize hm : makeSamplingMetadata reqs need = m at houts ⊢
  have hmask := mask_eq_some hm hallowed
  intro h
  obtain ⟨l₁, hfirst, -⟩ := of_bind h
  rw [if_pos (Or.inl (by rw [hmask]; rfl))] at hfirst
  obtain ⟨indices, hindices, hrest⟩ := of_bind hfirst
  obtain ⟨l₂, hpen, hfill⟩ := of_bind hrest
  unfold applyPenalties at hpen
  rw [noPenalties_eq_true hm fun h => hneeds (Or.inl h)] at hpen
  cases hpen
  rw [houts] at hindices
  unfold repeatInterleave at hindices
  rw [length_map] at hindices
  split at hindices
  · rename_i hone
    cases hindices
    obtain ⟨r, rfl⟩ := length_eq_one_iff.mp hone
    have hrows : logits.length ≠ 0 := by
      rw [hlen, draftRows_length]
      simpa using fun hnil => hdrafts ⟨r, rfl, hnil⟩
    rw [hmask] at hfill
    simp [maskedFill, Ne.symm hrows] at hfill
  · grind

theorem applyLogitsProcessors_nil {r : SampledRequest K}
    (hneeds : ¬ NeedsOutputTokenIds [r] need) :
    applyLogitsProcessors [] (makeSamplingMetadata [r] need) ([r].map (·.specTokenIds.length)) =
      .ok [] := by
  have houts : (makeSamplingMetadata [r] need).outputTokenIds = [] := if_neg hneeds
  have hbad : (makeSamplingMetadata [r] need).badWordsTokenIds = [] :=
    not_not.mp fun h => hneeds (Or.inr (Or.inl h))
  generalize hm : makeSamplingMetadata [r] need = m at houts hbad ⊢
  have hfirst : ∀ outs, applyPenaltiesAndMask ([] : List (LogitsRow K)) m
      ([r].map (·.specTokenIds.length)) outs = .ok [] := by
    intro outs
    unfold applyPenaltiesAndMask applyPenalties
    rw [noPenalties_eq_true hm fun h => hneeds (Or.inl h), houts]
    cases m.allowedTokenIdsMask <;> rfl
  refine bind_eq_ok.mpr ⟨[], ?_, if_neg fun h => h hbad⟩
  split
  · exact hfirst _
  · rfl

end RejectionSampler

/-- The rows that the plain sampler makes of `logits`, if the output tokens of request `i` are
`outputs`. -/
def plainRows (reqs : List (SampledRequest K)) (need : Bool) (i : Nat) (outputs : List Token)
    (logits : List (LogitsRow K)) : Except Exn (List (LogitsRow K)) :=
  Sampler.applyLogitsProcessors logits
    (makeSamplingMetadata (reqs.modify i fun r => { r with outputTokenIds := outputs }) need) false

/-- The rejection sampler returns, and its rows are those of the plain sampler: for draft `j`
with the first `j` drafts among the output tokens, for the bonus token with all drafts. -/
def SameConstraints (reqs : List (SampledRequest K)) (need : Bool)
    (logits bonusLogits : List (LogitsRow K)) : Prop :=
  ∃ rows bonusRows,
    RejectionSampler.applyLogitsProcessors logits (makeSamplingMetadata reqs need)
      (reqs.map (·.specTokenIds.length)) = .ok rows ∧
    Sampler.applyLogitsProcessors bonusLogits (makeSamplingMetadata reqs need) true =
      .ok bonusRows ∧
    ∀ i r, reqs[i]? = some r →
      (∀ j < r.specTokenIds.length, ∀ plain : List (LogitsRow K), plain.length = reqs.length →
        plain[i]? = logits[rowStart (reqs.map (·.specTokenIds.length)) i + j]? →
        ∃ result, plainRows reqs need i (r.outputTokenIds ++ r.specTokenIds.take j) plain =
            .ok result ∧
          rows[rowStart (reqs.map (·.specTokenIds.length)) i + j]? = result[i]?) ∧
      ∀ plain : List (LogitsRow K), plain.length = reqs.length → plain[i]? = bonusLogits[i]? →
        ∃ result, plainRows reqs need i (r.outputTokenIds ++ r.specTokenIds) plain = .ok result ∧
          bonusRows[i]? = result[i]?

theorem plainRows_getElem? (need : Bool) {i : Nat} {r : SampledRequest K} (hi : reqs[i]? = some r)
    (outputs : List Token) {plain : List (LogitsRow K)} (hplain : plain.length = reqs.length) :
    ∃ result, plainRows reqs need i outputs plain = .ok result ∧
      result[i]? = (plain[i]?).map (constrainRow r outputs) := by
  refine ⟨_, Sampler.applyLogitsProcessors_eq need false (by rw [length_modify, hplain]), ?_⟩
  rw [getElem?_mapIdx]
  cases plain[i]? with
  | none => rfl
  | some row =>
    simp only [onRow, getElem?_map, getElem?_modify_eq, hi, Option.map_some]
    rfl

theorem sameConstraints_of_eq {bonusLogits : List (LogitsRow K)}
    (hbonus : bonusLogits.length = reqs.length)
    (h : RejectionSampler.applyLogitsProcessors logits (makeSamplingMetadata reqs need)
        (reqs.map (·.specTokenIds.length)) =
      .ok (logits.mapIdx (onRow (draftRows reqs) constrainRow))) :
    SameConstraints reqs need logits bonusLogits := by
  refine ⟨_, _, h, Sampler.applyLogitsProcessors_eq need true hbonus, fun i r hi =>
    ⟨fun j hj plain hplain hraw => ?_, fun plain hplain hraw => ?_⟩⟩
  · obtain ⟨result, hplainRows, hrow⟩ := plainRows_getElem? need hi
      (r.outputTokenIds ++ r.specTokenIds.take j) hplain
    refine ⟨result, hplainRows, ?_⟩
    rw [hrow, getElem?_mapIdx, hraw]
    unfold onRow
    rw [draftRows_getElem? hi hj]
    rfl
  · obtain ⟨result, hplainRows, hrow⟩ := plainRows_getElem? need hi
      (r.outputTokenIds ++ r.specTokenIds) hplain
    refine ⟨result, hplainRows, ?_⟩
    rw [hrow, getElem?_mapIdx, hraw]
    unfold onRow
    rw [getElem?_map, hi]
    rfl

/-- The rejection sampler counts the requests by their output tokens, which the metadata leaves
out when no request needs them: a mask of allowed tokens alone makes the call fail. -/
theorem sameConstraints_iff (reqs : List (SampledRequest K)) (need : Bool)
    (logits bonusLogits : List (LogitsRow K))
    (hlen : logits.length = (reqs.map (·.specTokenIds.length)).sum)
    (hbonus : bonusLogits.length = reqs.length) :
    SameConstraints reqs need logits bonusLogits ↔
      NeedsOutputTokenIds reqs need ∨ (∀ r ∈ reqs, r.params.allowedTokenIds = []) ∨
        ∃ r, reqs = [r] ∧ r.specTokenIds = [] := by
  constructor
  · rintro ⟨rows, -, hrows, -⟩
    by_contra hnot
    obtain ⟨hneeds, hallowed, hdrafts⟩ : _ ∧ _ ∧ _ := by simpa only [not_or] using hnot
    have hallowed : ∃ r ∈ reqs, r.params.allowedTokenIds ≠ [] := by simpa using hallowed
    exact RejectionSampler.applyLogitsProcessors_error (hlen.trans draftRows_length.symm) hallowed
      hneeds hdrafts rows hrows
  · intro h
    have hlen := hlen.trans draftRows_length.symm
    refine sameConstraints_of_eq hbonus ?_
    by_cases hneeds : NeedsOutputTokenIds reqs need
    · exact RejectionSampler.applyLogitsProcessors_eq hlen fun _ => hneeds
    · rcases h with hneeds' | hallowed | ⟨r, rfl, hnil⟩
      · exact absurd hneeds' hneeds
      · refine RejectionSampler.applyLogitsProcessors_eq hlen fun hsome => ?_
        rw [mask_eq_none rfl fun ⟨r, hr, hne⟩ => hne (hallowed r hr)] at hsome
        cases hsome
      · have hempty : logits = [] := length_eq_zero_iff.mp (by rw [hlen]; simp [draftRows, hnil])
        rw [hempty]
        exact RejectionSampler.applyLogitsProcessors_nil hneeds

end batch

def allowedBatch (frequencyPenalty : ℚ) : List (SampledRequest ℚ) :=
  [{ params :=
      { frequencyPenalty, repetitionPenalty := 1, repetitionPenalty_pos := zero_lt_one
        allowedTokenIds := [1, 2], badWords_ne_nil := by decide }
     promptTokenIds := [5], outputTokenIds := [1], specTokenIds := [2] },
   { params :=
      { repetitionPenalty := 1, repetitionPenalty_pos := zero_lt_one
        badWords_ne_nil := by decide }
     promptTokenIds := [6], outputTokenIds := [], specTokenIds := [3] }]

/-- Allowed tokens alone: `repeat_interleave` gets two repeats for no requests. -/
theorem allowedBatch_not_sameConstraints :
    RejectionSampler.applyLogitsProcessors [fun _ => 0, fun _ => 0]
        (makeSamplingMetadata (allowedBatch 0) false) [1, 1] =
      .error (.runtimeError "repeats must have the same size as input along dim") ∧
    ¬ SameConstraints (allowedBatch 0) false [fun _ => 0, fun _ => 0] [fun _ => 0, fun _ => 0] := by
  have hcall : RejectionSampler.applyLogitsProcessors [fun _ => 0, fun _ => 0]
      (makeSamplingMetadata (allowedBatch 0) false) [1, 1] =
      .error (.runtimeError "repeats must have the same size as input along dim") := by
    rfl
  refine ⟨hcall, ?_⟩
  rintro ⟨rows, -, hrows, -⟩
  cases hcall.symm.trans hrows

theorem sameConstraints_penalized :
    SameConstraints (allowedBatch 1) false [fun _ => 0, fun _ => 0] [fun _ => 0, fun _ => 0] :=
  (sameConstraints_iff (allowedBatch 1) false _ _ rfl rfl).mpr
    (Or.inl (Or.inl ⟨_, mem_cons_self .., Or.inl one_ne_zero⟩))

end LongCtxSpecDecode
