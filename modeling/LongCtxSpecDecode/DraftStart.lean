import LongCtxSpecDecode.InputBatch
import LongCtxSpecDecode.Proposer
import LongCtxSpecDecode.RejectionSampler

/-!
# The start of the drafts

What happens between a verify pass and the first draft step: `prepare_next_token_ids_padded` and
`prepare_inputs_padded` of `sparse_attn/proposer.py` with their kernels in `spec_decode/utils.py`,
and the positions at which `propose` starts.
-/

namespace LongCtxSpecDecode

open Library.Ragged RejectionSampler ExceptLoop List

variable {K : Type}

def CachedRequestState.getTokenId (r : CachedRequestState K) (idx : Nat) : Except Exn Token :=
  if idx < r.numPromptTokens then
    match r.promptTokenIds with
    | none => .error (.valueError ("Tried to access token index " ++ toString idx ++
        ", but that token was provided via prompt_embeds, and its ID is unknown."))
    | some ids =>
      match ids[idx]? with
      | some tokenId => .ok tokenId
      | none => .error (.indexError "list index out of range")
  else
    .ok (r.outputTokenIds.getD (idx - r.numPromptTokens) (-1))

def isValidToken (vocabSize : Nat) (t : Token) : Bool := t ≠ placeholderTokenId ∧ t < vocabSize

/-- The program of `eagle_prepare_next_token_padded_kernel` for one request: the next token and the
number of valid tokens. -/
def eaglePrepareNextTokenPaddedKernel (vocabSize blockSizeTokens : Nat) (sampled : List Token)
    (isDiscarded : Bool) (backupToken : Token) : Token × Nat :=
  if isDiscarded then (backupToken, 0)
  else
    let tokenOffs := range blockSizeTokens
    let tokenIds off := if off < sampled.length then sampled.getD off 0 else -1
    let isValid off := isValidToken vocabSize (tokenIds off) && decide (off < sampled.length)
    let validCount := tokenOffs.countP isValid
    if validCount > 0 then
      let lastValidIndex : Int :=
        (tokenOffs.map fun off => if isValid off then (off : Int) else -1).max?.getD (-1)
      -- a sum in place of a second load
      ((tokenOffs.map fun off : Nat =>
        if (off : Int) = lastValidIndex then tokenIds off else 0).sum,
        validCount)
    else (backupToken, validCount)

/-- `prepare_next_token_ids_padded`: the next token and the number of valid tokens of each row. -/
def prepareNextTokenIdsPadded (vocabSize : Nat) (requests : List (CachedRequestState K))
    (seqLensCpu : List Nat) (sampledTokenIds : List (List Token)) (discardRequestMask : List Bool) :
    Except Exn (List (Token × Nat)) := do
  let backup ← (requests.zip seqLensCpu).mapM fun item => item.1.getTokenId item.2
  .ok (sampledTokenIds.mapIdx fun i sampled =>
    eaglePrepareNextTokenPaddedKernel vocabSize (2 ^ Nat.clog 2 sampled.length) sampled
      (discardRequestMask.getD i false) (backup.getD i 0))

/-- The program of `eagle_prepare_inputs_padded_kernel`: the index to sample and the number of
rejected tokens. -/
def eaglePrepareInputsPaddedKernel (cuNumDraftTokens validCounts queryStartLoc : List Nat)
    (reqIdx : Nat) : Int × Int :=
  let cuDraftCurr : Int := cuNumDraftTokens.getD reqIdx 0
  let numDraftTokens :=
    if reqIdx = 0 then cuDraftCurr else cuDraftCurr - cuNumDraftTokens.getD (reqIdx - 1) 0
  let numRejectedTokens :=
    if numDraftTokens > 0 then numDraftTokens + 1 - validCounts.getD reqIdx 0 else 0
  let qLastTokIdx : Int := queryStartLoc.getD (reqIdx + 1) 0 - 1
  (qLastTokIdx - numRejectedTokens, numRejectedTokens)

def prepareInputsPadded (numReqs : Nat) (cuNumDraftTokens validCounts queryStartLoc : List Nat) :
    List (Int × Int) :=
  (range numReqs).map (eaglePrepareInputsPaddedKernel cuNumDraftTokens validCounts queryStartLoc)

/-! ### The kernels -/

section kernels

variable {vocabSize blockSizeTokens : Nat} {sampled : List Token}

theorem map_range_tokenIds (hle : sampled.length ≤ blockSizeTokens) :
    ((range blockSizeTokens).map fun off =>
      if off < sampled.length then sampled.getD off 0 else -1) =
      sampled ++ replicate (blockSizeTokens - sampled.length) (-1) := by
  apply ext_getElem?
  intro off
  rw [getElem?_map, getElem?_append]
  by_cases hoff : off < sampled.length
  · rw [if_pos hoff, getElem?_range (by omega), Option.map_some, if_pos hoff,
      getD_eq_getElem _ _ hoff, getElem?_eq_getElem hoff]
  · grind

theorem sum_map_range_single {n i : Nat} (hi : i < n) (f : Nat → Int) :
    ((range n).map fun off : Nat => if (off : Int) = i then f off else 0).sum = f i := by
  have hzero : ∀ m ≤ i, ((range m).map fun off : Nat => if (off : Int) = i then f off else 0).sum =
      0 := by
    grind [sum_eq_zero]
  induction n with
  | zero => exact absurd hi (Nat.not_lt_zero i)
  | succ n ih =>
    grind [range_succ]

theorem exists_last_of_filter {α : Type} {p : α → Bool} {l : List α} {t : α}
    (h : (l.filter p).getLast? = some t) :
    ∃ l₁ l₂, l = l₁ ++ t :: l₂ ∧ p t = true ∧ ∀ x ∈ l₂, p x = false := by
  induction l using reverseRecOn with
  | nil => cases h
  | append_singleton l x ih =>
    rw [filter_append] at h
    cases hx : p x with
    | true =>
      rw [filter_cons_of_pos hx, getLast?_append_of_ne_nil _ (by simp)] at h
      cases h
      exact ⟨l, [], rfl, hx, by simp⟩
    | false =>
      rw [filter_cons_of_neg (by simp [hx]), filter_nil, append_nil] at h
      obtain ⟨l₁, l₂, rfl, ht, hlast⟩ := ih h
      refine ⟨l₁, l₂ ++ [x], by simp, ht, fun y hy => ?_⟩
      rcases mem_append.mp hy with hy | hy
      · exact hlast y hy
      · rwa [mem_singleton.mp hy]

theorem eaglePrepareNextTokenPaddedKernel_eq (hle : sampled.length ≤ blockSizeTokens)
    (isDiscarded : Bool) (backupToken : Token) :
    eaglePrepareNextTokenPaddedKernel vocabSize blockSizeTokens sampled isDiscarded backupToken =
      if isDiscarded then (backupToken, 0)
      else ((sampled.filter (isValidToken vocabSize)).getLast?.getD backupToken,
        (sampled.filter (isValidToken vocabSize)).length) := by
  refine if_congr Iff.rfl rfl ?_
  set tokenIds : Nat → Token := fun off => if off < sampled.length then sampled.getD off 0 else -1
    with htokenIds
  set isValid : Nat → Bool := fun off =>
    isValidToken vocabSize (tokenIds off) && decide (off < sampled.length) with hisValid
  have hvalid : ∀ off, isValid off = isValidToken vocabSize (tokenIds off) := by
    intro off
    by_cases hoff : off < sampled.length
    · simp [hisValid, hoff]
    · simp [hisValid, htokenIds, hoff, isValidToken, placeholderTokenId]
  have hpad : isValidToken vocabSize (-1) = false := by simp [isValidToken, placeholderTokenId]
  have hcount : (range blockSizeTokens).countP isValid =
      (sampled.filter (isValidToken vocabSize)).length := by
    rw [funext hvalid, ← countP_eq_length_filter]
    have hmap := congrArg (countP (isValidToken vocabSize)) (map_range_tokenIds hle)
    rw [countP_map, countP_append, countP_replicate] at hmap
    exact hmap
  dsimp only
  rw [hcount]
  cases hlast : (sampled.filter (isValidToken vocabSize)).getLast? with
  | none =>
    rw [getLast?_eq_none_iff.mp hlast]
    rfl
  | some t =>
    obtain ⟨l₁, l₂, hsampled, ht, hrest⟩ := exists_last_of_filter hlast
    have hlen : l₁.length < sampled.length := by simp [hsampled]
    have hfirst : tokenIds l₁.length = t := by
      rw [htokenIds]
      dsimp only
      rw [if_pos hlen, hsampled, getD_append_right _ _ _ _ le_rfl, Nat.sub_self,
        getD_cons_zero]
    have hindex : ((range blockSizeTokens).map fun off =>
        if isValid off then (off : Int) else -1).max? = some (l₁.length : Int) := by
      rw [max?_eq_some_iff]
      constructor
      · refine mem_map.mpr ⟨l₁.length, mem_range.mpr (hlen.trans_le hle), ?_⟩
        rw [hvalid, hfirst, if_pos ht]
      · intro x hx
        obtain ⟨off, -, rfl⟩ := mem_map.mp hx
        by_cases hoff : off ≤ l₁.length
        · split <;> omega
        · -- past the last valid token there are only invalid ones and the padding
          have hinvalid : isValid off = false := by
            rw [hvalid, htokenIds]
            dsimp only
            split
            · rename_i hlt
              rw [hsampled, getD_append_right _ _ _ _ (by omega),
                show off - l₁.length = (off - l₁.length - 1) + 1 by omega, getD_cons_succ]
              refine hrest _ ?_
              rw [hsampled, length_append, length_cons] at hlt
              rw [getD_eq_getElem _ _ (by omega)]
              exact getElem_mem _
            · exact hpad
          rw [hinvalid]
          simp
    have hpos : (sampled.filter (isValidToken vocabSize)).length > 0 :=
      length_pos_of_mem (mem_of_getLast? hlast)
    rw [if_pos hpos, hindex, Option.getD_some, sum_map_range_single (hlen.trans_le hle) tokenIds,
      hfirst, Option.getD_some]

theorem eaglePrepareInputsPaddedKernel_snd {lens : List Nat} {i : Nat} (hi : i < lens.length)
    (validCounts queryStartLoc : List Nat) :
    (eaglePrepareInputsPaddedKernel (cumsum lens) validCounts queryStartLoc i).2 =
      if lens.getD i 0 = 0 then 0 else (lens.getD i 0 : Int) + 1 - validCounts.getD i 0 := by
  have hdrafts : (if i = 0 then ((cumsum lens).getD i 0 : Int)
      else (cumsum lens).getD i 0 - (cumsum lens).getD (i - 1) 0) = lens.getD i 0 := by
    have hpred := cumsum_pred lens hi
    rw [cumsum_getD lens hi, rowStart_succ]
    split_ifs at hpred ⊢ <;> omega
  unfold eaglePrepareInputsPaddedKernel
  dsimp only
  rw [hdrafts]
  split_ifs with hpos hzero hzero
  · omega
  · rfl
  · rfl
  · omega

end kernels

/-! ### The rows of a verify pass -/

/-- A request of a verify pass with the sampler's output: accepted drafts, a final token and
placeholders. -/
structure VerifiedRow where
  computed : Nat
  queryLen : Nat
  numDrafts : Nat
  accepted : List Token
  finalToken : Token
  discarded : Bool
  numDrafts_lt : numDrafts < queryLen
  accepted_le : accepted.length ≤ numDrafts
  nonneg : ∀ t ∈ accepted ++ [finalToken], 0 ≤ t

namespace VerifiedRow

def seqLen (row : VerifiedRow) : Nat := row.computed + row.queryLen

/-- The tokens whose keys and values are final after the pass: all but the drafts that are not
accepted. -/
def verified (row : VerifiedRow) : Nat :=
  row.computed + (row.queryLen - row.numDrafts) + row.accepted.length

def sampled (width : Nat) (row : VerifiedRow) : List Token :=
  row.accepted ++ row.finalToken ::
    replicate (width - row.accepted.length - 1) placeholderTokenId

def InVocab (vocabSize : Nat) (row : VerifiedRow) : Prop :=
  ∀ t ∈ row.accepted ++ [row.finalToken], t < vocabSize

def emitted (vocabSize : Nat) (row : VerifiedRow) : List Token :=
  if row.discarded then []
  else (row.accepted ++ [row.finalToken]).filter (isValidToken vocabSize)

end VerifiedRow

def sampledTokenIds (rows : List VerifiedRow) : List (List Token) :=
  rows.map (VerifiedRow.sampled ((rows.map (·.numDrafts)).foldr max 0 + 1))

def emittedTokenIds (vocabSize : Nat) (rows : List VerifiedRow) : List (List Token) :=
  parseOutput (sampledTokenIds rows) vocabSize fun i => (rows.map (·.discarded)).getD i false

/-- `num_rejected_tokens_gpu`; there is none without `spec_decode_metadata`. -/
def numRejectedTokensGpu (rows : List VerifiedRow) (validCounts : List Nat) : Option (List Int) :=
  let numDraftTokens := rows.map (·.numDrafts)
  if numDraftTokens.sum = 0 then none
  else some ((prepareInputsPadded rows.length (cumsum numDraftTokens) validCounts
    (0 :: cumsum (rows.map (·.queryLen)))).map Prod.snd)

theorem filter_sampled (vocabSize width : Nat) (row : VerifiedRow) :
    (row.sampled width).filter (isValidToken vocabSize) =
      (row.accepted ++ [row.finalToken]).filter (isValidToken vocabSize) := by
  have hpad : (replicate (width - row.accepted.length - 1) placeholderTokenId).filter
      (isValidToken vocabSize) = [] :=
    filter_replicate_of_neg (by simp [isValidToken])
  rw [VerifiedRow.sampled, append_cons, filter_append, hpad, append_nil]

theorem emittedTokenIds_eq (vocabSize : Nat) (rows : List VerifiedRow) :
    emittedTokenIds vocabSize rows = rows.map (VerifiedRow.emitted vocabSize) := by
  unfold emittedTokenIds parseOutput sampledTokenIds
  apply ext_getElem?
  intro i
  rw [getElem?_mapIdx, getElem?_map, Option.map_map, getElem?_map]
  refine Option.map_congr fun row hrow => ?_
  have hdiscard : (rows.map (·.discarded)).getD i false = row.discarded := by
    rw [getD_eq_getElem?_getD, getElem?_map, hrow]
    rfl
  exact if_congr (iff_of_eq (congrArg (· = true) hdiscard)) rfl (filter_sampled vocabSize _ row)

variable {vocabSize : Nat} {row : VerifiedRow}

theorem eq_nil_of_emitted (h : row.discarded = true) : row.emitted vocabSize = [] := by
  rw [VerifiedRow.emitted, h, if_pos rfl]

theorem length_emitted_iff : (row.emitted vocabSize).length = row.accepted.length + 1 ↔
      row.discarded = false ∧ row.InVocab vocabSize := by
  cases hdiscard : row.discarded with
  | true => simp [eq_nil_of_emitted hdiscard]
  | false =>
    have hlen : (row.accepted ++ [row.finalToken]).length = row.accepted.length + 1 := by simp
    rw [VerifiedRow.emitted, hdiscard, if_neg Bool.false_ne_true, ← hlen,
      length_filter_eq_length_iff]
    refine ⟨fun h => ⟨rfl, fun t ht => ?_⟩, fun h t ht => ?_⟩
    · exact (of_decide_eq_true (h t ht)).2
    · have hnonneg := row.nonneg t ht
      refine decide_eq_true ⟨?_, h.2 t ht⟩
      rintro rfl
      exact absurd hnonneg (by decide)

theorem length_emitted_le (vocabSize : Nat) (row : VerifiedRow) :
    (row.emitted vocabSize).length ≤ row.accepted.length + 1 := by
  unfold VerifiedRow.emitted
  split
  · exact Nat.zero_le _
  · exact (length_filter_le _ _).trans_eq (length_append ..)

/-- Where drafting starts, for a row of which `emitted` is emitted. -/
structure StartsAt (vocabSize : Nat) (row : VerifiedRow) (emitted : List Token) (backup : Token)
    (next : Token × Nat) (numRejected start : Int) : Prop where
  nextToken : next.1 = emitted.getLast?.getD backup
  validCount : next.2 = emitted.length
  rejected : numRejected =
    if row.numDrafts = 0 then 0 else (row.numDrafts : Int) + 1 - emitted.length
  position : start = row.seqLen - numRejected
  verified : start = row.verified ↔
    row.numDrafts = 0 ∨ (row.discarded = false ∧ row.InVocab vocabSize)

theorem start_eq_verified_iff : (row.seqLen : Int) -
        (if row.numDrafts = 0 then 0
          else (row.numDrafts : Int) + 1 - (row.emitted vocabSize).length) =
      row.verified ↔ row.numDrafts = 0 ∨ (row.discarded = false ∧ row.InVocab vocabSize) := by
  have hle := row.accepted_le
  have hlt := row.numDrafts_lt
  rw [← length_emitted_iff, VerifiedRow.seqLen, VerifiedRow.verified]
  split <;> omega

variable {requests : List (CachedRequestState K)} {rows : List VerifiedRow}

theorem length_promptTokenIds {ids : List Token} {embeds : Option (List Nat)} {n : Nat}
    (h : lengthFromPromptTokenIdsOrEmbeds (some ids) embeds = .ok n) : n = ids.length := by
  cases embeds with
  | none => exact (Except.ok.inj h).symm
  | some embeds =>
    unfold lengthFromPromptTokenIdsOrEmbeds at h
    dsimp only at h
    split at h
    · cases h
    · exact (Except.ok.inj h).symm

theorem getTokenId_ok {request : CachedRequestState K} (hids : request.promptTokenIds ≠ none)
    (idx : Nat) : ∃ t, request.getTokenId idx = .ok t := by
  unfold CachedRequestState.getTokenId
  split
  · rename_i hidx
    split
    · contradiction
    · rename_i ids hsome
      have hlen := request.numPromptTokens_ok
      rw [hsome] at hlen
      rw [length_promptTokenIds hlen] at hidx
      rw [getElem?_eq_getElem hidx]
      exact ⟨_, rfl⟩
  · exact ⟨_, rfl⟩

def nextTokens (vocabSize : Nat) (backup : List Token) (rows : List VerifiedRow) :
    List (Token × Nat) :=
  rows.mapIdx fun i row =>
    ((row.emitted vocabSize).getLast?.getD (backup.getD i 0), (row.emitted vocabSize).length)

theorem prepareNextTokenIdsPadded_eq (rows : List VerifiedRow) (vocabSize : Nat)
    (hids : ∀ request ∈ requests, request.promptTokenIds ≠ none) :
    ∃ backup, Forall₂ (fun item t => item.1.getTokenId item.2 = .ok t)
        (requests.zip (rows.map (·.seqLen))) backup ∧
      prepareNextTokenIdsPadded vocabSize requests (rows.map (·.seqLen)) (sampledTokenIds rows)
          (rows.map (·.discarded)) = .ok (nextTokens vocabSize backup rows) := by
  obtain ⟨backup, hbackup⟩ := mapM_returns
    fun item (hitem : item ∈ requests.zip (rows.map (·.seqLen))) =>
      getTokenId_ok (hids item.1 (of_mem_zip hitem).1) item.2
  refine ⟨backup, forall₂_of_mapM hbackup, ?_⟩
  rw [prepareNextTokenIdsPadded, hbackup, ok_bind, sampledTokenIds, nextTokens]
  congr 1
  apply ext_getElem?
  intro i
  rw [getElem?_mapIdx, getElem?_mapIdx, getElem?_map, Option.map_map]
  refine Option.map_congr fun row hrow => ?_
  have hdiscard : (rows.map (·.discarded)).getD i false = row.discarded := by
    rw [getD_eq_getElem?_getD, getElem?_map, hrow]
    rfl
  rw [Function.comp_apply, eaglePrepareNextTokenPaddedKernel_eq (Nat.le_pow_clog Nat.one_lt_two _),
    hdiscard, filter_sampled, VerifiedRow.emitted]
  cases row.discarded <;> rfl

/-- The entry of `num_rejected_tokens_gpu`, where there is one. -/
def rejectedAt (numRejected : Option (List Int)) (i : Nat) : Int :=
  (numRejected.map (·.getD i 0)).getD 0

theorem rejectedAt_eq {validCounts : List Nat}
    (hvalid : validCounts = rows.map fun row => (row.emitted vocabSize).length) {i : Nat}
    (hrow : rows[i]? = some row) : rejectedAt (numRejectedTokensGpu rows validCounts) i =
      if row.numDrafts = 0 then 0
      else (row.numDrafts : Int) + 1 - (row.emitted vocabSize).length := by
  unfold numRejectedTokensGpu rejectedAt
  dsimp only
  split
  · rename_i hsum
    have hzero : row.numDrafts = 0 :=
      List.sum_eq_zero_iff_forall_eq_nat.mp hsum _ (mem_map_of_mem (mem_of_getElem? hrow))
    rw [if_pos hzero]
    rfl
  · grind [prepareInputsPadded, eaglePrepareInputsPaddedKernel_snd, length_map]

theorem map_validCounts (rows : List VerifiedRow) (vocabSize : Nat) (backup : List Token) :
    (nextTokens vocabSize backup rows).map Prod.snd =
      rows.map fun row => (row.emitted vocabSize).length := by
  apply ext_getElem?
  intro i
  rw [getElem?_map, nextTokens, getElem?_mapIdx, getElem?_map, Option.map_map]
  rfl

theorem firstStep_position {p : SparseAttnProposer} {numRejected : Option (List Int)}
    {maxSeqLen : Int} {blockTable : Nat → Nat → Int} {i : Nat}
    (hrejected : ∀ rejected, numRejected = some rejected → rejected.length = rows.length)
    (hrow : rows[i]? = some row) (hpos : 0 ≤ rejectedAt numRejected i)
    (hfits : row.seqLen + p.numSpeculativeTokens ≤ p.maxModelLen) :
    (p.firstStep ⟨rows.map fun row => (row.seqLen : Int), maxSeqLen, blockTable⟩
      numRejected).positions[i]? = some (row.seqLen - rejectedAt numRejected i) := by
  have hrollback : (SparseAttnProposer.rollback
      ⟨rows.map fun row => (row.seqLen : Int), maxSeqLen, blockTable⟩ numRejected)[i]? =
        some (row.seqLen - rejectedAt numRejected i) := by
    cases numRejected with
    | none =>
      rw [SparseAttnProposer.rollback, getElem?_map, hrow]
      exact congrArg some (sub_zero _).symm
    | some rejected =>
      grind [rejectedAt, SparseAttnProposer.rollback]
  have hspec := p.numSpeculativeTokens_pos
  rw [SparseAttnProposer.firstStep]
  rw [getElem?_map, hrollback, Option.map_some, clampPosition, if_neg (by omega)]

/-- After a verify pass, drafting starts with the last token that is emitted. It starts at the
verified tokens unless a token of a row with drafts is not emitted. -/
theorem draft_start (p : SparseAttnProposer) (vocabSize : Nat)
    (requests : List (CachedRequestState K)) (rows : List VerifiedRow)
    (hids : ∀ request ∈ requests, request.promptTokenIds ≠ none)
    (hfits : ∀ row ∈ rows, row.seqLen + p.numSpeculativeTokens ≤ p.maxModelLen)
    (maxSeqLen : Int) (blockTable : Nat → Nat → Int) :
    ∃ prepared,
      prepareNextTokenIdsPadded vocabSize requests (rows.map (·.seqLen)) (sampledTokenIds rows)
        (rows.map (·.discarded)) = .ok prepared ∧
      ∀ i request row, requests[i]? = some request → rows[i]? = some row →
        ∃ backup next start, request.getTokenId row.seqLen = .ok backup ∧
          prepared[i]? = some next ∧
          (p.firstStep ⟨rows.map fun row => (row.seqLen : Int), maxSeqLen, blockTable⟩
            (numRejectedTokensGpu rows (prepared.map Prod.snd))).positions[i]? = some start ∧
          StartsAt vocabSize row ((emittedTokenIds vocabSize rows).getD i []) backup next
            (rejectedAt (numRejectedTokensGpu rows (prepared.map Prod.snd)) i) start := by
  obtain ⟨backup, hbackup, hprepared⟩ := prepareNextTokenIdsPadded_eq rows vocabSize hids
  refine ⟨_, hprepared, fun i request row hrequest hrow => ?_⟩
  have hemitted : (emittedTokenIds vocabSize rows).getD i [] = row.emitted vocabSize := by
    rw [emittedTokenIds_eq, getD_eq_getElem?_getD, getElem?_map, hrow]
    rfl
  have hrejected := rejectedAt_eq (map_validCounts rows vocabSize backup) hrow
  have hnonneg : 0 ≤ rejectedAt (numRejectedTokensGpu rows
      ((nextTokens vocabSize backup rows).map Prod.snd)) i := by
    have hle := length_emitted_le vocabSize row
    have hdrafts := row.accepted_le
    rw [hrejected]
    split <;> omega
  have hzip : (requests.zip (rows.map (·.seqLen)))[i]? = some (request, row.seqLen) := by
    rw [getElem?_zip_eq_some, getElem?_map, hrow]
    exact ⟨hrequest, rfl⟩
  obtain ⟨t, ht, htoken⟩ := getElem?_of_forall₂ hbackup hzip
  refine ⟨t, ((row.emitted vocabSize).getLast?.getD t, (row.emitted vocabSize).length), _,
    htoken, ?_,
    firstStep_position (fun rejected h => ?_) hrow hnonneg (hfits row (mem_of_getElem? hrow)), ?_⟩
  · rw [nextTokens, getElem?_mapIdx, hrow, getD_eq_getElem?_getD, ht]
    rfl
  · grind [numRejectedTokensGpu, prepareInputsPadded]
  · rw [hemitted]
    refine ⟨rfl, rfl, hrejected, rfl, ?_⟩
    rw [hrejected]
    exact start_eq_verified_iff

def mixedRows : List VerifiedRow :=
  [{ computed := 2, queryLen := 2, numDrafts := 1, accepted := [3], finalToken := 4
     discarded := false, numDrafts_lt := by decide, accepted_le := by decide, nonneg := by decide },
   { computed := 0, queryLen := 3, numDrafts := 0, accepted := [], finalToken := 1
     discarded := true, numDrafts_lt := by decide, accepted_le := by decide, nonneg := by decide }]

def mixedRequests : List (CachedRequestState Nat) :=
  [{ reqId := 0, promptTokenIds := some [5, 6], params := .pooling {}, blockIds := []
     outputTokenIds := [7], numPromptTokens := 2, numPromptTokens_ok := rfl },
   { reqId := 1, promptTokenIds := some [1, 2, 3, 4], params := .pooling {}, blockIds := []
     numPromptTokens := 4, numPromptTokens_ok := rfl }]

theorem draft_start_mixed :
    ∃ prepared,
      prepareNextTokenIdsPadded 8 mixedRequests (mixedRows.map (·.seqLen))
        (sampledTokenIds mixedRows) (mixedRows.map (·.discarded)) = .ok prepared ∧
      ∀ i request row, mixedRequests[i]? = some request → mixedRows[i]? = some row →
        ∃ backup next start, request.getTokenId row.seqLen = .ok backup ∧
          prepared[i]? = some next ∧
          ((SparseAttnProposer.smallProposer 4).firstStep
            ⟨mixedRows.map fun row => (row.seqLen : Int), 4, fun _ _ => 0⟩
            (numRejectedTokensGpu mixedRows (prepared.map Prod.snd))).positions[i]? = some start ∧
          StartsAt 8 row ((emittedTokenIds 8 mixedRows).getD i []) backup next
            (rejectedAt (numRejectedTokensGpu mixedRows (prepared.map Prod.snd)) i) start :=
  draft_start (SparseAttnProposer.smallProposer 4) 8 mixedRequests mixedRows
    (by
      intro request hrequest
      rcases mem_pair.mp hrequest with rfl | rfl <;> exact Option.some_ne_none _)
    (by decide) 4 fun _ _ => 0

/-- Nothing is emitted for the chunk of the prompt, and nothing of it is rejected. -/
theorem rejected_of_chunk :
    emittedTokenIds 8 mixedRows = [[3, 4], []] ∧
      numRejectedTokensGpu mixedRows [2, 0] = some [0, 0] ∧
      (mixedRows.map fun row => (row.numDrafts : Int) + 1 - (row.emitted 8).length) = [0, 1] := by
  decide

end LongCtxSpecDecode
