import LongCtxSpecDecode.InputBatch

/-!
# What the rows of the batch hold

The requests of the batch against the rows, the lists and the dictionaries of `InputBatch`. Every
call keeps the two in agreement, as long as the calls stay clear of three fields that are not kept:
the allowed-token mask of a row whose request moves, the prompt embeddings of a removed request, and
the flag of pooling requests.
-/

namespace LongCtxSpecDecode

open Library Library.Slices List Function

section model

variable {K : Type} [Field K] [LinearOrder K] (r : CachedRequestState K)

/-- A request of the batch: its state, the drafts that the scheduler gave it, and the prompt
logprobs collected so far. -/
structure BatchedRequest (K : Type) extends CachedRequestState K where
  specTokenIds : List Token := []
  draftsFresh : Bool := true
  promptLogprobs : Option Nat := none

abbrev BatchRequests (K : Type) := ReqId → Option (BatchedRequest K)

namespace CachedRequestState

omit [Field K] [LinearOrder K]

def badWords : Option (List (List Token)) :=
  r.samplingParams.bind fun p =>
    if p.badWordsTokenIds ≠ [] then some p.badWordsTokenIds else none

/-- The tokens that the request forbids; a request without `allowed_token_ids` forbids none. -/
def mask : Nat → Bool :=
  if r.allowedTokenIds ≠ [] then maskExcept r.allowedTokenIds else fun _ => false

def requiresTokenIds : Bool :=
  (r.poolingParams.map (·.requiresTokenIds)).getD false

end CachedRequestState

structure InputRow.Matches (vocabSize : Nat) (blocksPerKvBlock : List Nat) (row : InputRow K)
    (r : BatchedRequest K) : Prop where
  prompt : Carries row.tokenIds 0 (r.promptTokenIds.getD [])
  output : Carries row.tokenIds r.numPromptTokens r.outputTokenIds
  drafts : r.draftsFresh = true → Carries row.tokenIds r.numTokens r.specTokenIds
  promptIsToken : ∀ c < r.numPromptTokens, row.isTokenIds c = r.promptTokenIds.isSome
  outputIsToken : ∀ c, r.numPromptTokens ≤ c → c < r.numTokens → row.isTokenIds c = true
  promptEmbeds : row.promptEmbeds = r.promptEmbeds
  numTokensNoSpec : row.numTokensNoSpec = r.numTokens
  numPromptTokens : row.numPromptTokens = r.numPromptTokens
  numComputedTokens : row.numComputedTokens = r.numComputedTokens
  blockTable : BlockRows.Holds blocksPerKvBlock row.blockTable r.blockIds
  loraId : row.loraId = r.loraId
  sampling : ∀ p, r.samplingParams = some p → row.sampling = p.row vocabSize
  numAcceptedTokens : row.numAcceptedTokens = 1
  generator : row.generator = r.samplingParams.bind fun _ => r.generator
  badWords : row.badWordsTokenIds = r.badWords
  mask : row.allowedTokenIdsMask = r.mask
  needsTokenIds : row.needsTokenIds = r.requiresTokenIds

/-- What a row without a request must not keep, since `add_request` writes it only for the
requests that set it. -/
structure InputRow.Vacant (row : InputRow K) : Prop where
  promptEmbeds : row.promptEmbeds = none
  generator : row.generator = none
  badWords : row.badWordsTokenIds = none
  mask : row.allowedTokenIdsMask = fun _ => false

structure InputRow.Regular (blocksPerKvBlock : List Nat) (row : InputRow K) : Prop where
  needsTokenIds : row.needsTokenIds = false
  numAcceptedTokens : row.numAcceptedTokens = 1
  groups : row.blockTable.length = blocksPerKvBlock.length

namespace InputBatch

def At (b : InputBatch K) (i : Nat) (id : ReqId) : Prop := b.reqIds[i]? = some (some id)

/-- The dictionary and the list of request ids agree, and hold the requests of the batch. -/
structure Indexed (b : InputBatch K) (live : BatchRequests K) : Prop where
  get_iff : ∀ id i, b.reqIdToIndex.get id = some i ↔ b.At i id
  live_iff : ∀ id, (∃ i, b.At i id) ↔ ∃ r, live id = some r
  reqId : ∀ id r, live id = some r → r.reqId = id
  nodup : (b.reqIdToIndex.keys).Nodup

/-- A row with its entries of the lists of request ids, of output tokens and of drafts: it has
a request, or was left by one, or is not in use. -/
inductive Slot (vocabSize : Nat) (blocksPerKvBlock : List Nat) (live : BatchRequests K) :
    Option (Option ReqId) → Option (Option (List Token)) → Option (List Token) → InputRow K → Prop
  where
  | occupied {id r row} : live id = some r → row.Matches vocabSize blocksPerKvBlock r →
      Slot vocabSize blocksPerKvBlock live (some (some id)) (some (some r.outputTokenIds))
        (some r.specTokenIds) row
  | gap {row} : row.Vacant →
      Slot vocabSize blocksPerKvBlock live (some none) (some none) (some []) row
  | free {spec row} : row.Vacant → spec.getD [] = [] →
      Slot vocabSize blocksPerKvBlock live none none spec row

def Filled (b : InputBatch K) (live : BatchRequests K) : Prop :=
  ∀ i, Slot b.vocabSize b.blocksPerKvBlock live b.reqIds[i]? b.reqOutputTokenIds[i]?
    b.specTokenIds[i]? (b.rows i)

def Regular (b : InputBatch K) : Prop := ∀ i, (b.rows i).Regular b.blocksPerKvBlock

end InputBatch

namespace RequestTables

/-- The sets and dictionaries have for `id` what the request set, if it is in the batch, and
nothing otherwise. -/
structure HoldsEntry (vocabSize : Nat) (t : RequestTables) (id : ReqId)
    (request : Option (BatchedRequest K)) : Prop where
  features : ∀ f, id ∈ t.features f ↔
    ∃ r p, request = some r ∧ r.samplingParams = some p ∧ f.uses vocabSize p = true
  numLogprobs : t.numLogprobs id =
    request.bind fun r => r.samplingParams.bind (·.numLogprobs vocabSize)
  promptLogprobs : t.inProgressPromptLogprobs id = request.bind (·.promptLogprobs)
  poolingParams : t.poolingParams id = request.bind (·.poolingParams)

def HoldsParams (vocabSize : Nat) (t : RequestTables) (live : BatchRequests K) : Prop :=
  ∀ id, t.HoldsEntry vocabSize id (live id)

/-- The dictionaries by LoRA id have exactly the adapters that are in use, with the ids of the
requests that use them. `loras` has the adapters of the requests. -/
structure HoldsLora (t : RequestTables) (loras : ReqId → Option LoRARequest) : Prop where
  users : ∀ l id, id ∈ (t.loraIdToRequestIds l).getD ∅ ↔
    ∃ lora, loras id = some lora ∧ lora.loraIntId = l
  used : ∀ l ids, t.loraIdToRequestIds l = some ids → ids ≠ ∅
  loraRequest : ∀ id lora, loras id = some lora →
    t.loraIdToLoraRequest lora.loraIntId = some lora
  unused : ∀ l, t.loraIdToRequestIds l = none → t.loraIdToLoraRequest l = none

end RequestTables

namespace InputBatch

structure Suits (b : InputBatch K) (r : CachedRequestState K) : Prop where
  kind : r.samplingParams.isSome = !b.isPoolingModel
  groups : r.blockIds.length = b.blocksPerKvBlock.length
  loraId : ∀ lora, r.loraRequest = some lora → 0 < lora.loraIntId

/-- Between the removals and `condense`: the removed rows are the gaps of the list. -/
structure Gapped (b : InputBatch K) : Prop where
  removed_iff : ∀ i, i ∈ b.batchUpdateBuilder.removed ↔ b.reqIds[i]? = some none
  nodup : b.batchUpdateBuilder.removed.Nodup
  sorted : b.batchUpdateBuilder.isRemovedSorted = true →
    b.batchUpdateBuilder.removed.Pairwise (· ≥ ·)
  count : b.numReqs + b.batchUpdateBuilder.removed.length = b.reqIds.length
  bound : b.reqIds.length ≤ b.maxNumReqs

/-- After `condense`: every row of the list has a request. -/
structure Condensed (b : InputBatch K) : Prop where
  count : b.reqIds.length = b.numReqs
  occupied : ∀ i < b.numReqs, ∃ id, b.At i id
  bound : b.reqIds.length ≤ b.maxNumReqs

end InputBatch

end model

/-! ## The tables by request id -/

namespace RequestTables

variable {K : Type} {t : RequestTables} {live : BatchRequests K} {r : BatchedRequest K}
variable {vocabSize : Nat} {id : ReqId} {t' : RequestTables}

section params

variable [Field K] [LinearOrder K]

structure SameAt (t t' : RequestTables) (id : ReqId) : Prop where
  features : ∀ f, id ∈ t'.features f ↔ id ∈ t.features f
  numLogprobs : t'.numLogprobs id = t.numLogprobs id
  promptLogprobs : t'.inProgressPromptLogprobs id = t.inProgressPromptLogprobs id
  poolingParams : t'.poolingParams id = t.poolingParams id

variable {request : Option (BatchedRequest K)}

theorem HoldsEntry.of_sameAt (h : t.HoldsEntry vocabSize id request) (hsame : t.SameAt t' id) :
    t'.HoldsEntry vocabSize id request where
  features f := (hsame.features f).trans (h.features f)
  numLogprobs := hsame.numLogprobs.trans h.numLogprobs
  promptLogprobs := hsame.promptLogprobs.trans h.promptLogprobs
  poolingParams := hsame.poolingParams.trans h.poolingParams

theorem HoldsParams.update (h : t.HoldsParams vocabSize live)
    (hsame : ∀ id', id' ≠ id → t.SameAt t' id') (hentry : t'.HoldsEntry vocabSize id request) :
    t'.HoldsParams vocabSize (update live id request) := by
  intro id'
  rcases eq_or_ne id' id with rfl | hid
  · rw [update_self]
    exact hentry
  · rw [update_of_ne hid]
    exact (h id').of_sameAt (hsame id' hid)

theorem addParams_sameAt {id' : ReqId} (hid : id' ≠ id) (params : RequestParams K) :
    t.SameAt (t.addParams vocabSize id params) id' := by
  cases params with
  | sampling p =>
    refine ⟨fun f => ?_, ?_, rfl, rfl⟩
    · by_cases huse : f.uses vocabSize p = true
      · simp [addParams, huse, hid]
      · simp [addParams, huse]
    · cases hlog : p.logprobs with
      | none => simp [addParams, hlog]
      | some n => simp [addParams, hlog, hid]
  | pooling p => exact ⟨fun f => Iff.rfl, rfl, rfl, update_of_ne hid _ _⟩

theorem HoldsEntry.add (h : t.HoldsEntry (K := K) vocabSize id none)
    (hlogprobs : r.promptLogprobs = none) :
    (t.addParams vocabSize id r.params).HoldsEntry vocabSize id (some r) := by
  have hfeatures : ∀ f, id ∉ t.features f := fun f hmem => by
    simpa using (h.features f).mp hmem
  cases hparams : r.params with
  | sampling p =>
    have hs : r.samplingParams = some p := by simp [CachedRequestState.samplingParams, hparams]
    have hp : r.poolingParams = none := by simp [CachedRequestState.poolingParams, hparams]
    refine ⟨fun f => ?_, ?_, ?_, ?_⟩
    · by_cases huse : f.uses vocabSize p = true
      · simp [addParams, huse, hs]
      · simp [addParams, huse, hs, hfeatures]
    · cases hlog : p.logprobs with
      | none => simp [addParams, hlog, hs, BatchSamplingParams.numLogprobs, h.numLogprobs]
      | some n => simp [addParams, hlog, hs]
    · simp [addParams, hlogprobs, h.promptLogprobs]
    · simp [addParams, hp, h.poolingParams]
  | pooling p =>
    have hs : r.samplingParams = none := by simp [CachedRequestState.samplingParams, hparams]
    have hp : r.poolingParams = some p := by simp [CachedRequestState.poolingParams, hparams]
    refine ⟨fun f => ?_, ?_, ?_, ?_⟩
    · simp [addParams, hs, hfeatures]
    · simp [addParams, hs, h.numLogprobs]
    · simp [addParams, hlogprobs, h.promptLogprobs]
    · simp [addParams, hp]

theorem HoldsParams.add (h : t.HoldsParams vocabSize live) (hnew : live id = none)
    (hlogprobs : r.promptLogprobs = none) :
    (t.addParams vocabSize id r.params).HoldsParams vocabSize
      (Function.update live id (some r)) := by
  have hentry := h id
  rw [hnew] at hentry
  exact h.update (fun id' hid => addParams_sameAt hid r.params) (hentry.add hlogprobs)

theorem removeParams_sameAt {id' : ReqId} (hid : id' ≠ id) (isPoolingModel : Bool) :
    t.SameAt (t.removeParams isPoolingModel id) id' := by
  cases isPoolingModel with
  | true => exact ⟨fun f => Iff.rfl, rfl, rfl, update_of_ne hid _ _⟩
  | false =>
    refine ⟨fun f => ?_, update_of_ne hid _ _, update_of_ne hid _ _, rfl⟩
    simp [removeParams, hid]

theorem HoldsEntry.remove {isPoolingModel : Bool} (h : t.HoldsEntry vocabSize id (some r))
    (hkind : r.samplingParams.isSome = !isPoolingModel)
    (hlogprobs : isPoolingModel = true → r.promptLogprobs = none) :
    (t.removeParams isPoolingModel id).HoldsEntry (K := K) vocabSize id none := by
  cases isPoolingModel with
  | true =>
    have hs : r.samplingParams = none := by simpa using hkind
    refine ⟨fun f => ?_, ?_, ?_, ?_⟩
    · simpa [removeParams, hs] using h.features f
    · simpa [removeParams, hs] using h.numLogprobs
    · simpa [removeParams, hlogprobs rfl] using h.promptLogprobs
    · simp [removeParams]
  | false =>
    have hp : r.poolingParams = none := by
      grind [CachedRequestState.samplingParams, CachedRequestState.poolingParams]
    refine ⟨fun f => ?_, ?_, ?_, ?_⟩
    · simp [removeParams]
    · simp [removeParams]
    · simp [removeParams]
    · simpa [removeParams, hp] using h.poolingParams

theorem HoldsParams.remove {isPoolingModel : Bool} (h : t.HoldsParams vocabSize live)
    (hr : live id = some r) (hkind : r.samplingParams.isSome = !isPoolingModel)
    (hlogprobs : isPoolingModel = true → r.promptLogprobs = none) :
    (t.removeParams isPoolingModel id).HoldsParams vocabSize (Function.update live id none) := by
  have hentry := h id
  rw [hr] at hentry
  exact h.update (fun id' hid => removeParams_sameAt hid isPoolingModel)
    (hentry.remove hkind hlogprobs)

theorem addLora_sameAt (t : RequestTables) (id id' : ReqId) (lora : Option LoRARequest) :
    t.SameAt (t.addLora id lora) id' := by
  cases lora with
  | none => exact ⟨fun f => Iff.rfl, rfl, rfl, rfl⟩
  | some lora => exact ⟨fun f => Iff.rfl, rfl, rfl, rfl⟩

theorem removeLora_sameAt (t : RequestTables) (id id' : ReqId) (loraId : Nat) :
    t.SameAt (t.removeLora id loraId) id' := by
  unfold removeLora
  dsimp only
  split_ifs
  · exact ⟨fun f => Iff.rfl, rfl, rfl, rfl⟩
  · exact ⟨fun f => Iff.rfl, rfl, rfl, rfl⟩
  · exact ⟨fun f => Iff.rfl, rfl, rfl, rfl⟩

theorem HoldsParams.of_sameAt (h : t.HoldsParams vocabSize live) (hsame : ∀ id, t.SameAt t' id) :
    t'.HoldsParams vocabSize live :=
  fun id => (h id).of_sameAt (hsame id)

end params

/-! The LoRA adapters -/

variable {loras : ReqId → Option LoRARequest} {lora : LoRARequest}

section

variable (h : t.HoldsLora loras)
include h

theorem HoldsLora.of_eq (hids : t'.loraIdToRequestIds = t.loraIdToRequestIds)
    (hrequests : t'.loraIdToLoraRequest = t.loraIdToLoraRequest) : t'.HoldsLora loras := by
  refine ⟨?_, ?_, ?_, ?_⟩
  · rw [hids]
    exact h.users
  · rw [hids]
    exact h.used
  · rw [hrequests]
    exact h.loraRequest
  · rw [hids, hrequests]
    exact h.unused

theorem HoldsLora.removeParams (isPoolingModel : Bool) (id : ReqId) :
    (t.removeParams isPoolingModel id).HoldsLora loras := by
  cases isPoolingModel with
  | true => exact h.of_eq rfl rfl
  | false => exact h.of_eq rfl rfl

theorem HoldsLora.addParams [Field K] [LinearOrder K] (id : ReqId) (params : RequestParams K) :
    (t.addParams vocabSize id params).HoldsLora loras := by
  cases params with
  | sampling p => exact h.of_eq rfl rfl
  | pooling p => exact h.of_eq rfl rfl

theorem HoldsLora.add (hnew : loras id = none)
    (hunique : ∀ id' lora', loras id' = some lora' → lora'.loraIntId = lora.loraIntId → lora' =
      lora) : (t.addLora id (some lora)).HoldsLora (update loras id (some lora)) := by
  have hold : ∀ l, id ∉ (t.loraIdToRequestIds l).getD ∅ := fun l hmem => by
    obtain ⟨lora', hlora', -⟩ := (h.users l id).mp hmem
    rw [hnew] at hlora'
    cases hlora'
  refine ⟨fun l id' => ?_, fun l ids => ?_, fun id' lora' => ?_, fun l => ?_⟩
  · rcases eq_or_ne id' id with rfl | hid
    · rcases eq_or_ne l lora.loraIntId with rfl | hl
      · simp [addLora]
      · simp [addLora, hl, hold, Ne.symm hl]
    · rw [update_of_ne hid, ← h.users]
      rcases eq_or_ne l lora.loraIntId with rfl | hl
      · simp [addLora, hid]
      · simp [addLora, hl]
  · rcases eq_or_ne l lora.loraIntId with rfl | hl
    · simp only [addLora, update_self, Option.some.injEq]
      rintro rfl
      exact Finset.insert_ne_empty _ _
    · simp only [addLora, update_of_ne hl]
      exact h.used l ids
  · rcases eq_or_ne id' id with rfl | hid
    · rw [update_self, Option.some.injEq]
      rintro rfl
      exact update_self _ _ _
    · rw [update_of_ne hid]
      intro hlora'
      rcases eq_or_ne lora'.loraIntId lora.loraIntId with hl | hl
      · obtain rfl := hunique id' lora' hlora' hl
        exact update_self _ _ _
      · exact (update_of_ne hl _ _).trans (h.loraRequest id' lora' hlora')
  · rcases eq_or_ne l lora.loraIntId with rfl | hl
    · simp [addLora]
    · simp only [addLora, update_of_ne hl]
      exact h.unused l

theorem HoldsLora.remove (hlora : loras id = some lora) (hpos : 0 < lora.loraIntId) :
    (t.removeLora id lora.loraIntId).HoldsLora (update loras id none) := by
  have herase : ∀ l id', (id' ∈ ((t.loraIdToRequestIds l).getD ∅).erase id ↔
      ∃ lora', update loras id none id' = some lora' ∧ lora'.loraIntId = l) := by
    intro l id'
    rw [Finset.mem_erase, h.users]
    rcases eq_or_ne id' id with rfl | hid
    · simp
    · simp [hid]
  have hother : ∀ l, l ≠ lora.loraIntId → id ∉ (t.loraIdToRequestIds l).getD ∅ := by
    intro l hl hmem
    obtain ⟨lora', hlora', hid⟩ := (h.users l id).mp hmem
    rw [hlora] at hlora'
    cases hlora'
    exact hl hid.symm
  have hkeeps : ∀ id' lora', update loras id none id' = some lora' →
      loras id' = some lora' := by
    intro id' lora' hlora'
    rcases eq_or_ne id' id with rfl | hid
    · simp at hlora'
    · rwa [update_of_ne hid] at hlora'
  unfold removeLora
  rw [if_neg (by omega)]
  by_cases hempty : ((t.loraIdToRequestIds lora.loraIntId).getD ∅).erase id = ∅
  · simp only [hempty, if_true]
    refine ⟨fun l id' => ?_, fun l ids => ?_, fun id' lora' hlora' => ?_, fun l => ?_⟩
    · rw [← herase l id']
      rcases eq_or_ne l lora.loraIntId with rfl | hl
      · simp [hempty]
      · simp [hl, Finset.erase_eq_of_notMem (hother l hl)]
    · rcases eq_or_ne l lora.loraIntId with rfl | hl
      · simp
      · simp only [update_of_ne hl]
        exact h.used l ids
    · -- no request uses the removed adapter any more
      have hne : lora'.loraIntId ≠ lora.loraIntId := by
        intro hl
        have hmem := (herase lora.loraIntId id').mpr ⟨lora', hlora', hl⟩
        rw [hempty] at hmem
        exact Finset.notMem_empty _ hmem
      exact (update_of_ne hne _ _).trans (h.loraRequest id' lora' (hkeeps _ _ hlora'))
    · rcases eq_or_ne l lora.loraIntId with rfl | hl
      · simp
      · simp only [update_of_ne hl]
        exact h.unused l
  · simp only [hempty, if_false]
    refine ⟨fun l id' => ?_, fun l ids => ?_, fun id' lora' hlora' => ?_, fun l => ?_⟩
    · rw [← herase l id']
      rcases eq_or_ne l lora.loraIntId with rfl | hl
      · simp
      · simp [hl, Finset.erase_eq_of_notMem (hother l hl)]
    · grind [HoldsLora.used]
    · exact h.loraRequest id' lora' (hkeeps _ _ hlora')
    · rcases eq_or_ne l lora.loraIntId with rfl | hl
      · simp
      · simp only [update_of_ne hl]
        exact h.unused l

end

end RequestTables

/-! ## The removed rows -/

namespace BatchUpdateBuilder

variable {K : Type} {u : BatchUpdateBuilder K}

theorem ensureRemovedSorted_perm (u : BatchUpdateBuilder K) :
    u.ensureRemovedSorted.removed.Perm u.removed := by
  unfold ensureRemovedSorted
  split_ifs
  · exact Perm.refl _
  · exact perm_insertionSort _ _

theorem ensureRemovedSorted_pairwise
    (h : u.isRemovedSorted = true → u.removed.Pairwise (· ≥ ·)) :
    u.ensureRemovedSorted.removed.Pairwise (· ≥ ·) := by
  unfold ensureRemovedSorted
  split_ifs with hs
  · exact h hs
  · exact pairwise_insertionSort _ _

structure Pops (u : BatchUpdateBuilder K) (i : Nat) : Prop where
  popped : u.popRemoved.1 = some i
  peeked : u.peekRemoved.1 = some i
  perm : (u.popRemoved.2.removed ++ [i]).Perm u.removed
  lowest : ∀ j ∈ u.removed, i ≤ j
  sorted : u.popRemoved.2.removed.Pairwise (· ≥ ·)

theorem pops_of_ne_nil (hne : u.removed ≠ [])
    (h : u.isRemovedSorted = true → u.removed.Pairwise (· ≥ ·)) : ∃ i, u.Pops i := by
  have hperm := u.ensureRemovedSorted_perm
  have hsorted := ensureRemovedSorted_pairwise h
  have hne' : u.ensureRemovedSorted.removed ≠ [] := fun hnil => hne (by simpa [hnil] using hperm)
  have hsplit := dropLast_append_getLast hne'
  refine ⟨u.ensureRemovedSorted.removed.getLast hne', ?_, ?_, ?_, ?_, ?_⟩
  · rw [popRemoved, if_neg hne]
    exact getLast?_eq_some_getLast hne'
  · rw [peekRemoved, if_neg hne]
    exact getLast?_eq_some_getLast hne'
  · rw [popRemoved, if_neg hne]
    exact (Perm.of_eq hsplit).trans hperm
  · grind
  · rw [popRemoved, if_neg hne]
    rw [← hsplit, pairwise_append] at hsorted
    exact hsorted.1

end BatchUpdateBuilder

/-! ## Rows -/

namespace CachedRequestState

variable {K : Type} {r : CachedRequestState K}

theorem length_promptTokenIds : (r.promptTokenIds.getD []).length ≤ r.numPromptTokens := by
  have hok := r.numPromptTokens_ok
  unfold lengthFromPromptTokenIdsOrEmbeds at hok
  split at hok
  · cases hok
  · rename_i hprompt _
    rw [hprompt]
    exact Nat.zero_le _
  · rename_i ids hprompt _
    rw [hprompt]
    exact (Except.ok.inj hok).le
  · rename_i ids embeds hprompt _
    split_ifs at hok
    rw [hprompt]
    exact (Except.ok.inj hok).le

theorem unset_of_pooling (hs : r.samplingParams = none) :
    (r.samplingParams.bind fun _ => r.generator) = none ∧ r.badWords = none ∧
      r.mask = fun _ => false := by
  simp [hs, badWords, mask, allowedTokenIds]

end CachedRequestState

theorem ite_isSome_self {α : Type} (o : Option α) : (if o.isSome then o else none) = o := by
  cases o with
  | none => rfl
  | some a => rfl

namespace InputRow

variable {K : Type} [Field K] [LinearOrder K]
variable {vocabSize : Nat} {blocksPerKvBlock : List Nat} {row src tgt : InputRow K}
variable {r : BatchedRequest K}

theorem Vacant.matches_write (h : row.Vacant) (hneeds : row.needsTokenIds = false)
    (hrow : row.blockTable.length = blocksPerKvBlock.length)
    (hgroups : r.blockIds.length = blocksPerKvBlock.length) (hspec : r.specTokenIds = []) :
    (((row.writeRequest blocksPerKvBlock r.numPromptTokens r.toCachedRequestState).writeParams
      vocabSize r.toCachedRequestState).writeLora r.toCachedRequestState).Matches vocabSize
        blocksPerKvBlock r := by
  have hlen := r.length_promptTokenIds
  have hprompt : Carries (write (write row.tokenIds 0 (r.promptTokenIds.getD []))
      r.numPromptTokens r.outputTokenIds) 0 (r.promptTokenIds.getD []) :=
    carries_write.write_after (by omega)
  have hembeds : (if r.promptEmbeds.isSome then r.promptEmbeds else row.promptEmbeds) =
      r.promptEmbeds := by
    rw [h.promptEmbeds, ite_isSome_self]
  have hpromptIs : ∀ c < r.numPromptTokens,
      fill (fill row.isTokenIds 0 r.numPromptTokens r.promptTokenIds.isSome) r.numPromptTokens
        (r.numPromptTokens + r.outputTokenIds.length) true c = r.promptTokenIds.isSome := by
    intro c hc
    rw [fill_of_notMem (by omega), fill_of_mem ⟨Nat.zero_le c, hc⟩]
  have hblocks := BlockRows.holds_addRow hrow hgroups
  cases hparams : r.params with
  | sampling p =>
    have hs : r.samplingParams = some p := by simp [CachedRequestState.samplingParams, hparams]
    have hgenerator : (if r.generator.isSome then r.generator else row.generator) =
        r.generator := by
      rw [h.generator, ite_isSome_self]
    unfold writeParams
    rw [hparams]
    refine ⟨hprompt, carries_write, fun _ => hspec ▸ carries_nil, hpromptIs,
      fun c h₁ h₂ => fill_of_mem ⟨h₁, h₂⟩, hembeds, rfl, rfl, rfl, hblocks, rfl, ?_, rfl, ?_, ?_,
      ?_, ?_⟩
    · rintro q hq
      cases hs.symm.trans hq
      rfl
    · rw [hs]
      exact hgenerator
    · simp [writeLora, CachedRequestState.badWords, hs, writeRequest, h.badWords]
    · simp [writeLora, CachedRequestState.mask, CachedRequestState.allowedTokenIds, hs,
        writeRequest, h.mask]
    · simp [writeLora, CachedRequestState.requiresTokenIds, CachedRequestState.poolingParams,
        hparams, writeRequest, hneeds]
  | pooling p =>
    have hs : r.samplingParams = none := by simp [CachedRequestState.samplingParams, hparams]
    obtain ⟨hgenerator, hbadWords, hmask⟩ := CachedRequestState.unset_of_pooling hs
    unfold writeParams
    rw [hparams]
    refine ⟨hprompt, carries_write, fun _ => hspec ▸ carries_nil, hpromptIs,
      fun c h₁ h₂ => fill_of_mem ⟨h₁, h₂⟩, hembeds, rfl, rfl, rfl, hblocks, rfl, ?_, rfl, ?_, ?_,
      ?_, ?_⟩
    · rintro q hq
      cases hs.symm.trans hq
    · exact h.generator.trans hgenerator.symm
    · exact h.badWords.trans hbadWords.symm
    · exact h.mask.trans hmask.symm
    · simp [writeLora, CachedRequestState.requiresTokenIds, CachedRequestState.poolingParams,
        hparams]

variable {isPoolingModel : Bool}

theorem Matches.vacant_clear (h : row.Matches vocabSize blocksPerKvBlock r)
    (hembeds : r.promptEmbeds = none) (hkind : r.samplingParams.isSome = !isPoolingModel) :
    (row.clear isPoolingModel).Vacant := by
  cases isPoolingModel with
  | false => exact ⟨h.promptEmbeds.trans hembeds, rfl, rfl, rfl⟩
  | true =>
    have hs : r.samplingParams = none := by simpa using hkind
    obtain ⟨hgenerator, hbadWords, hmask⟩ := CachedRequestState.unset_of_pooling hs
    exact ⟨h.promptEmbeds.trans hembeds, h.generator.trans hgenerator,
      h.badWords.trans hbadWords, h.mask.trans hmask⟩

theorem Matches.move {numTokens : Nat} (h : src.Matches vocabSize blocksPerKvBlock r)
    (hv : tgt.Vacant) (hkind : r.samplingParams.isSome = !isPoolingModel)
    (hnum : numTokens = r.numTokens + r.specTokenIds.length)
    (haccepted : isPoolingModel = true → tgt.numAcceptedTokens = 1)
    (hneeds : tgt.needsTokenIds = src.needsTokenIds)
    (hlength : tgt.blockTable.length = src.blockTable.length) :
    (move isPoolingModel numTokens src tgt).2.Matches vocabSize blocksPerKvBlock r := by
  have hlen := r.length_promptTokenIds
  have htokens : r.numTokens = r.numPromptTokens + r.outputTokenIds.length := rfl
  have hprompt := h.prompt.copyFirst tgt.tokenIds (n := numTokens) (by omega)
  have houtput := h.output.copyFirst tgt.tokenIds (n := numTokens) (by omega)
  have hdrafts := fun hf => (h.drafts hf).copyFirst tgt.tokenIds (n := numTokens) (by omega)
  have hpromptIs : ∀ c < r.numPromptTokens,
      copyFirst src.isTokenIds tgt.isTokenIds numTokens c = r.promptTokenIds.isSome :=
    fun c hc => (copyFirst_of_lt (by omega)).trans (h.promptIsToken c hc)
  have houtputIs : ∀ c, r.numPromptTokens ≤ c → c < r.numTokens →
      copyFirst src.isTokenIds tgt.isTokenIds numTokens c = true :=
    fun c h₁ h₂ => (copyFirst_of_lt (by omega)).trans (h.outputIsToken c h₁ h₂)
  have hembeds : (if src.promptEmbeds.isSome then src.promptEmbeds else tgt.promptEmbeds) =
      r.promptEmbeds := by
    rw [hv.promptEmbeds, h.promptEmbeds, ite_isSome_self]
  have hblocks := h.blockTable.moveRow hlength
  have hneeds := hneeds.trans h.needsTokenIds
  cases isPoolingModel with
  | true =>
    have hs : r.samplingParams = none := by simpa using hkind
    obtain ⟨hgenerator, hbadWords, hmask⟩ := CachedRequestState.unset_of_pooling hs
    refine ⟨hprompt, houtput, hdrafts, hpromptIs, houtputIs, hembeds, h.numTokensNoSpec,
      h.numPromptTokens, h.numComputedTokens, hblocks, h.loraId, ?_, haccepted rfl,
      hv.generator.trans hgenerator.symm, hv.badWords.trans hbadWords.symm,
      hv.mask.trans hmask.symm, hneeds⟩
    intro p hp
    cases hs.symm.trans hp
  | false =>
    refine ⟨hprompt, houtput, hdrafts, hpromptIs, houtputIs, hembeds, h.numTokensNoSpec,
      h.numPromptTokens, h.numComputedTokens, hblocks, h.loraId, h.sampling,
      h.numAcceptedTokens, ?_, ?_, h.mask, hneeds⟩
    · refine Eq.trans ?_ h.generator
      change (if src.generator.isSome then src.generator else tgt.generator) = _
      rw [hv.generator, ite_isSome_self]
    · refine Eq.trans ?_ h.badWords
      change (if src.badWordsTokenIds.isSome then src.badWordsTokenIds
        else tgt.badWordsTokenIds) = _
      rw [hv.badWords, ite_isSome_self]

/-- The row that `condense` moved a request out of is vacant, unless the request has
`allowed_token_ids`: the mask is copied, not moved. -/
theorem Matches.vacant_move {numTokens : Nat} (h : src.Matches vocabSize blocksPerKvBlock r)
    (hkind : r.samplingParams.isSome = !isPoolingModel) (hallowed : r.allowedTokenIds = []) :
    (InputRow.move isPoolingModel numTokens src tgt).1.Vacant := by
  have hmask : src.allowedTokenIdsMask = fun _ => false := by
    rw [h.mask, CachedRequestState.mask, hallowed]
    rfl
  cases isPoolingModel with
  | true =>
    have hs : r.samplingParams = none := by simpa using hkind
    obtain ⟨hgenerator, hbadWords, -⟩ := CachedRequestState.unset_of_pooling hs
    exact ⟨rfl, h.generator.trans hgenerator, h.badWords.trans hbadWords, hmask⟩
  | false => exact ⟨rfl, rfl, rfl, hmask⟩

end InputRow

/-! ## The lists -/

section lists

variable {α : Type} {l : List α} {i j : Nat} {a : α}

theorem getElem?_put (hi : i ≤ l.length) :
    (if i = l.length then l ++ [a] else l.set i a)[j]? = if j = i then some a else l[j]? := by
  by_cases hnew : i = l.length
  · grind
  · rw [if_neg hnew]
    rcases eq_or_ne j i with rfl | hj
    · simp [show j < l.length by omega]
    · simp [hj, Ne.symm hj]

theorem length_put :
    (if i = l.length then l ++ [a] else l.set i a).length =
      if i = l.length then l.length + 1 else l.length := by
  split_ifs
  · simp
  · simp

theorem getElem?_set_of_lt (hi : i < l.length) :
    (l.set i a)[j]? = if j = i then some a else l[j]? := by
  rcases eq_or_ne j i with rfl | hj
  · simp [hi]
  · simp [hj, Ne.symm hj]

end lists

namespace InputBatch

variable {K : Type} {b b' : InputBatch K} {live : BatchRequests K}
variable {i j : Nat} {id : ReqId} {r : BatchedRequest K}

theorem Regular.update {row : InputRow K} (h : b.Regular)
    (hrow : row.Regular b.blocksPerKvBlock) (j : Nat) :
    (update b.rows i row j).Regular b.blocksPerKvBlock := by
  rcases eq_or_ne j i with rfl | hj
  · rw [update_self]
    exact hrow
  · rw [update_of_ne hj]
    exact h j

theorem Indexed.at_unique (h : b.Indexed live) (hi : b.At i id) (hj : b.At j id) : i = j := by
  have hget := (h.get_iff id i).mpr hi
  rw [(h.get_iff id j).mpr hj] at hget
  exact (Option.some.inj hget).symm

theorem Indexed.get_of_live (h : b.Indexed live) (hr : live id = some r) :
    ∃ i, b.reqIdToIndex.get id = some i ∧ b.At i id := by
  obtain ⟨i, hi⟩ := (h.live_iff id).mpr ⟨r, hr⟩
  exact ⟨i, (h.get_iff id i).mpr hi, hi⟩

variable [Field K] [LinearOrder K]

theorem Slot.update {ids : Option (Option ReqId)} {outputs : Option (Option (List Token))}
    {spec : Option (List Token)} {row : InputRow K} {vocabSize : Nat} {perKvBlock : List Nat}
    (h : Slot vocabSize perKvBlock live ids outputs spec row) (hid : ids ≠ some (some id))
    (request : Option (BatchedRequest K)) :
    Slot vocabSize perKvBlock (update live id request) ids outputs spec row := by
  cases h with
  | @occupied id' r' row' hr hm =>
    refine .occupied ?_ hm
    rwa [update_of_ne]
    rintro rfl
    exact hid rfl
  | gap hv => exact .gap hv
  | free hv hspec => exact .free hv hspec

theorem Filled.of_at (h : b.Filled live) (hi : b.At i id) :
    ∃ r, live id = some r ∧ (b.rows i).Matches b.vocabSize b.blocksPerKvBlock r ∧
      b.reqOutputTokenIds[i]? = some (some r.outputTokenIds) ∧
      b.specTokenIds[i]? = some r.specTokenIds := by
  have hslot := h i
  rw [hi] at hslot
  generalize b.reqOutputTokenIds[i]? = outputs at hslot ⊢
  generalize b.specTokenIds[i]? = spec at hslot ⊢
  cases hslot with
  | occupied hr hm => exact ⟨_, hr, hm, rfl, rfl⟩

theorem Filled.vacant (h : b.Filled live) (hi : ∀ id, ¬b.At i id) :
    (b.rows i).Vacant ∧ b.specTokenIds[i]?.getD [] = [] := by
  have hslot := h i
  unfold At at hi
  generalize b.reqIds[i]? = entry at hslot hi
  generalize b.reqOutputTokenIds[i]? = outputs at hslot
  generalize b.specTokenIds[i]? = spec at hslot ⊢
  cases hslot with
  | occupied hr hm => exact absurd rfl (hi _)
  | gap hv => exact ⟨hv, rfl⟩
  | free hv hspec => exact ⟨hv, hspec⟩

theorem Filled.output_length (h : b.Filled live) :
    b.reqOutputTokenIds.length = b.reqIds.length := by
  have hiff : ∀ i, b.reqOutputTokenIds[i]? = none ↔ b.reqIds[i]? = none := fun i => by
    have hslot := h i
    generalize b.reqIds[i]? = entry at hslot ⊢
    generalize b.reqOutputTokenIds[i]? = outputs at hslot ⊢
    generalize b.specTokenIds[i]? = spec at hslot
    cases hslot with
    | occupied hr hm => simp
    | gap hv => simp
    | free hv hspec => simp
  refine le_antisymm ?_ ?_
  · exact List.getElem?_eq_none_iff.mp ((hiff _).mpr (getElem?_eq_none le_rfl))
  · exact List.getElem?_eq_none_iff.mp ((hiff _).mp (getElem?_eq_none le_rfl))

theorem Filled.spec_length (h : b.Filled live) : b.reqIds.length ≤ b.specTokenIds.length := by
  have hslot := h b.specTokenIds.length
  rw [getElem?_eq_none (le_refl b.specTokenIds.length)] at hslot
  refine List.getElem?_eq_none_iff.mp ?_
  generalize b.reqIds[b.specTokenIds.length]? = entry at hslot ⊢
  generalize b.reqOutputTokenIds[b.specTokenIds.length]? = outputs at hslot
  cases hslot with
  | free hv hspec => rfl

end InputBatch

end LongCtxSpecDecode
