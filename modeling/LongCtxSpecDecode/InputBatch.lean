import LongCtxSpecDecode.BlockTable
import LongCtxSpecDecode.Request
import LongCtxSpecDecode.Library.OrderedDict

/-!
# The persistent batch of the model runner

`worker/gpu_input_batch.py` with the `BatchUpdateBuilder` of `sample/logits_processor/state.py`.
The arrays that are indexed by the row are one array of records here, so a field of `InputRow`
is a per-row array (or a dictionary by row) of the source. Numbers are taken from a field `K`.
-/

namespace LongCtxSpecDecode

open Library Library.Slices

/-- The part of `SamplingParams` that the batch stores. -/
structure BatchSamplingParams (K : Type) where
  temperature : K
  topP : K
  topK : Int
  frequencyPenalty : K
  presencePenalty : K
  repetitionPenalty : K
  logprobs : Option Int := none
  allowedTokenIds : List Nat := []
  badWordsTokenIds : List (List Token) := []
  minP : K
  logitBias : List (Token × K) := []
  minTokens : Nat := 0
  allStopTokenIds : List Token := []

/-- The part of `PoolingParams` that the batch reads. -/
structure PoolingParams where
  requiresTokenIds : Bool := false
deriving DecidableEq, Repr

/-- A request samples tokens or pools. -/
inductive RequestParams (K : Type) where
  | sampling (p : BatchSamplingParams K)
  | pooling (p : PoolingParams)

def lengthFromPromptTokenIdsOrEmbeds (promptTokenIds : Option (List Token))
    (promptEmbeds : Option (List Nat)) : Except Exn Nat :=
  match promptTokenIds, promptEmbeds with
  | none, none => .error (.valueError "Neither prompt_token_ids nor prompt_embeds were defined.")
  | none, some embeds => .ok embeds.length
  | some ids, none => .ok ids.length
  | some ids, some embeds =>
    if embeds.length ≠ ids.length then
      .error (.valueError ("Prompt token ids and prompt embeds had different lengths" ++
        s!" prompt_token_ids={ids.length} prompt_embeds={embeds.length}"))
    else .ok ids.length

/-- What the model runner keeps about a request. Its constructor computes the length of the
prompt, so a prompt without a length does not exist. -/
structure CachedRequestState (K : Type) where
  reqId : ReqId
  promptTokenIds : Option (List Token)
  promptEmbeds : Option (List Nat) := none
  params : RequestParams K
  generator : Option Nat := none
  blockIds : List (List Nat)
  numComputedTokens : Nat := 0
  outputTokenIds : List Token := []
  loraRequest : Option LoRARequest := none
  numPromptTokens : Nat
  numPromptTokens_ok :
    lengthFromPromptTokenIdsOrEmbeds promptTokenIds promptEmbeds = .ok numPromptTokens

namespace CachedRequestState

variable {K : Type}

variable (r : CachedRequestState K)

def numTokens : Nat := r.numPromptTokens + r.outputTokenIds.length

def samplingParams : Option (BatchSamplingParams K) :=
  match r.params with
  | .sampling p => some p
  | .pooling _ => none

def poolingParams : Option PoolingParams :=
  match r.params with
  | .sampling _ => none
  | .pooling p => some p

def allowedTokenIds : List Nat :=
  (r.samplingParams.map (·.allowedTokenIds)).getD []

def loraId : Nat := (r.loraRequest.map (·.loraIntId)).getD 0

end CachedRequestState

structure SamplingRow (K : Type) where
  temperature : K
  topP : K
  topK : Int
  frequencyPenalty : K
  presencePenalty : K
  repetitionPenalty : K
deriving DecidableEq

/-- A row of the arrays of the batch. -/
structure InputRow (K : Type) where
  tokenIds : Nat → Token := fun _ => 0
  isTokenIds : Nat → Bool := fun _ => false
  /-- `req_prompt_embeds`, a dictionary by row. -/
  promptEmbeds : Option (List Nat) := none
  numTokensNoSpec : Nat := 0
  numPromptTokens : Nat := 0
  numComputedTokens : Nat := 0
  blockTable : BlockRows
  /-- `request_lora_mapping` -/
  loraId : Nat := 0
  sampling : SamplingRow K
  numAcceptedTokens : Nat := 1
  /-- `generators`, a dictionary by row. -/
  generator : Option Nat := none
  /-- `bad_words_token_ids`, a dictionary by row. -/
  badWordsTokenIds : Option (List (List Token)) := none
  /-- `allowed_token_ids_mask_cpu_tensor`, where `true` masks a token. The source allocates the
  tensor with zeros when the first request needs it. -/
  allowedTokenIdsMask : Nat → Bool := fun _ => false
  /-- `logits_processing_needs_token_ids` -/
  needsTokenIds : Bool := false

/-- The sets of requests by what their sampling needs. -/
inductive Feature where
  | greedy
  | random
  | topP
  | topK
  | frequencyPenalty
  | presencePenalty
  | repetitionPenalty
  | allowedTokenIds
deriving DecidableEq, Repr

section features

variable {K : Type} [Field K] [LinearOrder K]

/-- `sampling_type == SamplingType.GREEDY` -/
def BatchSamplingParams.isGreedy (p : BatchSamplingParams K) : Bool :=
  p.temperature < 1 / 100000

/-- When `add_request` adds the request to the set of the feature. -/
def Feature.uses (vocabSize : Nat) (p : BatchSamplingParams K) : Feature → Bool
  | greedy => p.isGreedy
  | random => !p.isGreedy
  | topP => p.topP < 1
  | topK => 0 < p.topK ∧ p.topK < vocabSize
  | frequencyPenalty => p.frequencyPenalty ≠ 0
  | presencePenalty => p.presencePenalty ≠ 0
  | repetitionPenalty => p.repetitionPenalty ≠ 1
  | allowedTokenIds => p.allowedTokenIds ≠ []

/-- What `add_request` writes to the sampling arrays. -/
def BatchSamplingParams.row (vocabSize : Nat) (p : BatchSamplingParams K) : SamplingRow K where
  -- a greedy request gets 0, which the sampler never divides by
  temperature := if p.isGreedy then 0 else p.temperature
  topP := p.topP
  topK := if 0 < p.topK ∧ p.topK < vocabSize then p.topK else vocabSize
  frequencyPenalty := p.frequencyPenalty
  presencePenalty := p.presencePenalty
  repetitionPenalty := p.repetitionPenalty

end features

/-- The value that `num_logprobs` gets. -/
def BatchSamplingParams.numLogprobs {K : Type} (vocabSize : Nat) (p : BatchSamplingParams K) :
    Option Int :=
  p.logprobs.map fun n => if n = -1 then (vocabSize : Int) else n

def maskExcept (allowedTokenIds : List Nat) : Nat → Bool := fun t => t ∉ allowedTokenIds

/-! ## The record of the changes of a step -/

inductive MoveDirectionality where
  | unidirectional
  | swap
deriving DecidableEq, Repr

/-- An entry of `added`: the row, the parameters and the list of output tokens. The request id
stands for the reference to that list. -/
structure AddedRequest (K : Type) where
  index : Nat
  params : BatchSamplingParams K
  reqId : ReqId
  outputTokenIds : List Token

/-- `BatchUpdateBuilder`: what has changed since the last step. -/
structure BatchUpdateBuilder (K : Type) where
  removed : List Nat := []
  isRemovedSorted : Bool := false
  added : List (AddedRequest K) := []
  moved : List (Nat × Nat × MoveDirectionality) := []

namespace BatchUpdateBuilder

variable {K : Type}

variable (u : BatchUpdateBuilder K)

/-- `_ensure_removed_sorted`: in descending order, so the lowest row is the last one. -/
def ensureRemovedSorted : BatchUpdateBuilder K :=
  if u.isRemovedSorted then u
  else { u with removed := u.removed.insertionSort (· ≥ ·), isRemovedSorted := true }

def removedAppend (index : Nat) : Except Exn (BatchUpdateBuilder K) :=
  if u.isRemovedSorted then
    .error (.runtimeError "Cannot register new removed request after self.removed has been read.")
  else .ok { u with removed := u.removed ++ [index] }

def peekRemoved : Option Nat × BatchUpdateBuilder K :=
  if u.removed = [] then (none, u)
  else (u.ensureRemovedSorted.removed.getLast?, u.ensureRemovedSorted)

def popRemoved : Option Nat × BatchUpdateBuilder K :=
  if u.removed = [] then (none, u)
  else
    let sorted := u.ensureRemovedSorted
    (sorted.removed.getLast?, { sorted with removed := sorted.removed.dropLast })

/-- `added.append`, which happens only for requests that sample. -/
def recordAdded (index : Nat) (r : CachedRequestState K) : BatchUpdateBuilder K :=
  match r.params with
  | .sampling p =>
    { u with
      added := u.added ++
        [{ index := index, params := p, reqId := r.reqId, outputTokenIds := r.outputTokenIds }] }
  | .pooling _ => u

/-- `moved.append`, which pooling models skip. -/
def recordMoved (isPoolingModel : Bool) (i₁ i₂ : Nat) (direct : MoveDirectionality) :
    BatchUpdateBuilder K :=
  if isPoolingModel then u else { u with moved := u.moved ++ [(i₁, i₂, direct)] }

end BatchUpdateBuilder

/-- `BatchUpdate`: what the logits processors get. -/
structure BatchUpdate (K : Type) where
  batchSize : Nat
  removed : List Nat
  added : List (AddedRequest K)
  moved : List (Nat × Nat × MoveDirectionality)

/-- The update that `get_and_reset` returns; the builder is empty afterwards. -/
def BatchUpdateBuilder.get {K : Type} (u : BatchUpdateBuilder K) (batchSize : Nat) :
    Option (BatchUpdate K) :=
  if u.removed.isEmpty ∧ u.moved.isEmpty ∧ u.added.isEmpty then none
  else
    some { batchSize := batchSize, removed := u.removed, added := u.added, moved := u.moved }

/-! ## What the batch keeps by request id -/

/-- The sets and dictionaries of `InputBatch` whose keys are request ids or LoRA ids. -/
structure RequestTables where
  features : Feature → Finset ReqId := fun _ => ∅
  numLogprobs : ReqId → Option Int := fun _ => none
  inProgressPromptLogprobs : ReqId → Option Nat := fun _ => none
  poolingParams : ReqId → Option PoolingParams := fun _ => none
  loraIdToRequestIds : Nat → Option (Finset ReqId) := fun _ => none
  loraIdToLoraRequest : Nat → Option LoRARequest := fun _ => none

namespace RequestTables

variable {K : Type}

def addParams [Field K] [LinearOrder K] (t : RequestTables) (vocabSize : Nat) (reqId : ReqId) :
    RequestParams K → RequestTables
  | .sampling p =>
    { t with
      features := fun f =>
        if f.uses vocabSize p then insert reqId (t.features f) else t.features f
      numLogprobs :=
        if p.logprobs.isSome then Function.update t.numLogprobs reqId (p.numLogprobs vocabSize)
        else t.numLogprobs }
  | .pooling p => { t with poolingParams := Function.update t.poolingParams reqId (some p) }

def addLora (t : RequestTables) (reqId : ReqId) : Option LoRARequest → RequestTables
  | none => t
  | some lora =>
    let ids := (t.loraIdToRequestIds lora.loraIntId).getD ∅
    { t with
      loraIdToRequestIds :=
        Function.update t.loraIdToRequestIds lora.loraIntId (some (insert reqId ids))
      loraIdToLoraRequest :=
        Function.update t.loraIdToLoraRequest lora.loraIntId (some lora) }

/-- `loraId` is what `request_lora_mapping` has for the request. -/
def removeLora (t : RequestTables) (reqId : ReqId) (loraId : Nat) : RequestTables :=
  if loraId = 0 then t
  else
    let ids := ((t.loraIdToRequestIds loraId).getD ∅).erase reqId
    if ids = ∅ then
      { t with
        loraIdToRequestIds := Function.update t.loraIdToRequestIds loraId none
        loraIdToLoraRequest := Function.update t.loraIdToLoraRequest loraId none }
    else { t with loraIdToRequestIds := Function.update t.loraIdToRequestIds loraId (some ids) }

def removeParams (t : RequestTables) (isPoolingModel : Bool) (reqId : ReqId) : RequestTables :=
  if isPoolingModel then { t with poolingParams := Function.update t.poolingParams reqId none }
  else
    { t with
      features := fun f => (t.features f).erase reqId
      numLogprobs := Function.update t.numLogprobs reqId none
      inProgressPromptLogprobs := Function.update t.inProgressPromptLogprobs reqId none }

end RequestTables

/-! ## The batch -/

structure InputBatch (K : Type) where
  isPoolingModel : Bool
  maxNumReqs : Nat
  vocabSize : Nat
  /-- `blocks_per_kv_block` of the KV cache groups. -/
  blocksPerKvBlock : List Nat
  reqIds : List (Option ReqId) := []
  reqIdToIndex : OrderedDict ReqId Nat := []
  reqOutputTokenIds : List (Option (List Token)) := []
  specTokenIds : List (List Token)
  rows : Nat → InputRow K
  tables : RequestTables := {}
  batchUpdateBuilder : BatchUpdateBuilder K := {}

namespace InputBatch

variable {K : Type}

/-- `InputBatch.__init__`. The sampling arrays are allocated without initial values: `junk`. -/
def init (isPoolingModel : Bool) (maxNumReqs vocabSize : Nat) (blocksPerKvBlock : List Nat)
    (junk : SamplingRow K) : InputBatch K where
  isPoolingModel := isPoolingModel
  maxNumReqs := maxNumReqs
  vocabSize := vocabSize
  blocksPerKvBlock := blocksPerKvBlock
  specTokenIds := List.replicate maxNumReqs []
  rows := fun _ => { blockTable := blocksPerKvBlock.map fun _ => {}, sampling := junk }

def numReqs (b : InputBatch K) : Nat := b.reqIdToIndex.length

def setRow (b : InputBatch K) (i : Nat) (row : InputRow K) : InputBatch K :=
  { b with rows := Function.update b.rows i row }

end InputBatch

/-! ### Adding a request -/

namespace InputRow

variable {K : Type}

def writeRequest (row : InputRow K) (blocksPerKvBlock : List Nat) (numPromptTokens : Nat)
    (r : CachedRequestState K) : InputRow K :=
  let endIdx := numPromptTokens + r.outputTokenIds.length
  { row with
    numPromptTokens := numPromptTokens
    tokenIds :=
      write (write row.tokenIds 0 (r.promptTokenIds.getD [])) numPromptTokens r.outputTokenIds
    isTokenIds :=
      fill (fill row.isTokenIds 0 numPromptTokens r.promptTokenIds.isSome) numPromptTokens endIdx
        true
    promptEmbeds := if r.promptEmbeds.isSome then r.promptEmbeds else row.promptEmbeds
    numTokensNoSpec := r.numTokens
    numComputedTokens := r.numComputedTokens
    blockTable := BlockRows.addRow blocksPerKvBlock row.blockTable r.blockIds }

def writeParams [Field K] [LinearOrder K] (row : InputRow K) (vocabSize : Nat)
    (r : CachedRequestState K) : InputRow K :=
  match r.params with
  | .sampling p =>
    { row with
      sampling := p.row vocabSize
      generator := if r.generator.isSome then r.generator else row.generator
      allowedTokenIdsMask :=
        if p.allowedTokenIds ≠ [] then maskExcept p.allowedTokenIds
        else row.allowedTokenIdsMask
      badWordsTokenIds :=
        if p.badWordsTokenIds ≠ [] then some p.badWordsTokenIds else row.badWordsTokenIds }
  | .pooling p => { row with needsTokenIds := p.requiresTokenIds }

def writeLora (row : InputRow K) (r : CachedRequestState K) : InputRow K :=
  { row with numAcceptedTokens := 1, loraId := r.loraId }

end InputRow

namespace InputBatch

variable {K : Type}

def registerAddRequest (b : InputBatch K) (r : CachedRequestState K) :
    Except Exn (Nat × InputBatch K) := do
  let popped := b.batchUpdateBuilder.popRemoved
  let newReqIndex := popped.1.getD b.numReqs
  require (newReqIndex < b.maxNumReqs) ""
  return (newReqIndex, { b with batchUpdateBuilder := popped.2.recordAdded newReqIndex r })

def enterRow (b : InputBatch K) (i : Nat) (r : CachedRequestState K) : InputBatch K :=
  let fresh := i = b.reqIds.length
  { b with
    reqIds := if fresh then b.reqIds ++ [some r.reqId] else b.reqIds.set i (some r.reqId)
    reqOutputTokenIds :=
      if fresh then b.reqOutputTokenIds ++ [some r.outputTokenIds]
      else b.reqOutputTokenIds.set i (some r.outputTokenIds)
    -- the list starts with `max_num_reqs` empty entries, so the entry that is appended need
    -- not be the one of the new row
    specTokenIds := if fresh then b.specTokenIds ++ [[]] else b.specTokenIds.set i []
    reqIdToIndex := b.reqIdToIndex.set r.reqId i }

def addRequest [Field K] [LinearOrder K] (b : InputBatch K) (r : CachedRequestState K) :
    Except Exn (Nat × InputBatch K) := do
  let (i, b) ← b.registerAddRequest r
  let b := b.enterRow i r
  let numPromptTokens ← lengthFromPromptTokenIdsOrEmbeds r.promptTokenIds r.promptEmbeds
  let row := (b.rows i).writeRequest b.blocksPerKvBlock numPromptTokens r
  let row := (row.writeParams b.vocabSize r).writeLora r
  return (i,
    { b.setRow i row with
      tables := (b.tables.addParams b.vocabSize r.reqId r.params).addLora r.reqId r.loraRequest })

end InputBatch

/-! ### Changes of a request in the batch -/

namespace InputRow

variable {K : Type}

def writeDrafts (row : InputRow K) (specTokenIds : List Token) : InputRow K :=
  { row with tokenIds := write row.tokenIds row.numTokensNoSpec specTokenIds }

/-- What `_update_states` writes for a request that stays in the batch. -/
def writeRunning (row : InputRow K) (blocksPerKvBlock : List Nat) (numComputedTokens : Nat)
    (newBlockIds : Option (List (List Nat))) : InputRow K :=
  { row with
    numComputedTokens := numComputedTokens
    blockTable :=
      match newBlockIds with
      | none => row.blockTable
      | some ids => BlockRows.appendRow blocksPerKvBlock row.blockTable ids }

/-- What `_bookkeeping_sync` writes. -/
def writeSampled (row : InputRow K) (sampledIds : List Token) : InputRow K :=
  let start := row.numTokensNoSpec
  let stop := start + sampledIds.length
  { row with
    tokenIds := write row.tokenIds start sampledIds
    isTokenIds := fill row.isTokenIds start stop true
    numTokensNoSpec := stop }

end InputRow

namespace InputBatch

variable {K : Type}

variable (b : InputBatch K)

/-- `req_id_to_index[req_id]` -/
def indexOf (reqId : ReqId) : Except Exn Nat :=
  match b.reqIdToIndex.get reqId with
  | none => .error (.keyError s!"{reqId}")
  | some i => .ok i

def updateReqSpecTokenIds (reqId : ReqId) (specTokenIds : List Token) :
    Except Exn (InputBatch K) := do
  let i ← b.indexOf reqId
  let b := { b with specTokenIds := b.specTokenIds.set i [] }
  if specTokenIds = [] then return b
  return { b.setRow i ((b.rows i).writeDrafts specTokenIds) with
    specTokenIds := b.specTokenIds.set i specTokenIds }

/-- The part of `_update_states` for a request that stays in the batch. -/
def updateRunning (reqId : ReqId) (numComputedTokens : Nat)
    (newBlockIds : Option (List (List Nat))) : Except Exn (InputBatch K) := do
  let i ← b.indexOf reqId
  return b.setRow i ((b.rows i).writeRunning b.blocksPerKvBlock numComputedTokens newBlockIds)

/-- The part of `_bookkeeping_sync` for one request. The list of output tokens of the row is the
list of the request itself. -/
def bookkeep (reqId : ReqId) (sampledIds : List Token) : Except Exn (InputBatch K) := do
  let i ← b.indexOf reqId
  if sampledIds = [] then return b
  return { b.setRow i ((b.rows i).writeSampled sampledIds) with
    reqOutputTokenIds := b.reqOutputTokenIds.modify i (Option.map (· ++ sampledIds)) }

/-- The chunk of prompt logprobs that `_get_prompt_logprobs_dict` keeps for the next prefill
step, or its removal. -/
def keepPromptLogprobs (reqId : ReqId) (chunk : Option Nat) : InputBatch K :=
  { b with
    tables :=
      { b.tables with
        inProgressPromptLogprobs :=
          Function.update b.tables.inProgressPromptLogprobs reqId chunk } }

end InputBatch

/-! ### Removing a request -/

/-- What `remove_request` does to the row. -/
def InputRow.clear {K : Type} (row : InputRow K) (isPoolingModel : Bool) : InputRow K :=
  let row := { row with loraId := 0 }
  if isPoolingModel then row
  else
    { row with
      generator := none
      allowedTokenIdsMask := fun _ => false
      badWordsTokenIds := none }

namespace InputBatch

variable {K : Type}

def removeRequest (b : InputBatch K) (reqId : ReqId) : Except Exn (InputBatch K) :=
  match b.reqIdToIndex.get reqId with
  | none => .ok b
  | some i => do
      let builder ← b.batchUpdateBuilder.removedAppend i
      let row := b.rows i
      return { b.setRow i (row.clear b.isPoolingModel) with
        reqIdToIndex := b.reqIdToIndex.pop reqId
        batchUpdateBuilder := builder
        reqIds := b.reqIds.set i none
        reqOutputTokenIds := b.reqOutputTokenIds.set i none
        specTokenIds := b.specTokenIds.set i []
        tables := (b.tables.removeLora reqId row.loraId).removeParams b.isPoolingModel reqId }

end InputBatch

/-! ### Swapping two rows -/

/-- The rows after `swap_states`. The rows of the mask are views of the tensor, so the second
assignment reads the row that the first one has just overwritten. -/
def InputRow.swap {K : Type} (isPoolingModel : Bool) (r₁ r₂ : InputRow K) :
    InputRow K × InputRow K :=
  let swapped :=
    ({ r₂ with
        sampling := r₁.sampling, numAcceptedTokens := r₁.numAcceptedTokens
        generator := r₁.generator, badWordsTokenIds := r₁.badWordsTokenIds
        allowedTokenIdsMask := r₁.allowedTokenIdsMask, needsTokenIds := r₁.needsTokenIds },
      { r₁ with
        sampling := r₂.sampling, numAcceptedTokens := r₂.numAcceptedTokens
        generator := r₂.generator, badWordsTokenIds := r₂.badWordsTokenIds
        allowedTokenIdsMask := r₂.allowedTokenIdsMask, needsTokenIds := r₂.needsTokenIds })
  if isPoolingModel then swapped
  else
    ({ r₂ with needsTokenIds := r₁.needsTokenIds },
      { r₁ with
        allowedTokenIdsMask := r₂.allowedTokenIdsMask, needsTokenIds := r₂.needsTokenIds })

namespace InputBatch

variable {K : Type}

/-- `l[i1], l[i2] = l[i2], l[i1]` -/
def swapItems {α : Type} (l : List α) (i₁ i₂ : Nat) : List α :=
  match l[i₁]?, l[i₂]? with
  | some a, some b => (l.set i₁ b).set i₂ a
  | _, _ => l

def swapStates (b : InputBatch K) (i₁ i₂ : Nat) : Except Exn (InputBatch K) :=
  match b.reqIds[i₁]?, b.reqIds[i₂]? with
  | some (some id₁), some (some id₂) => do
      let index₁ ← b.indexOf id₁
      let index₂ ← b.indexOf id₂
      let rows := InputRow.swap b.isPoolingModel (b.rows i₁) (b.rows i₂)
      return { (b.setRow i₁ rows.1).setRow i₂ rows.2 with
        reqIds := swapItems b.reqIds i₁ i₂
        reqOutputTokenIds := swapItems b.reqOutputTokenIds i₁ i₂
        specTokenIds := swapItems b.specTokenIds i₁ i₂
        reqIdToIndex := (b.reqIdToIndex.set id₁ index₂).set id₂ index₁
        batchUpdateBuilder := b.batchUpdateBuilder.recordMoved b.isPoolingModel i₁ i₂ .swap }
  | some _, some _ => .error (.assertionError "")
  | _, _ => .error (.indexError "list index out of range")

end InputBatch

/-! ### Condensing the batch -/

/-- The rows `last_req_index` and `empty_index` after one round of `condense`. -/
def InputRow.move {K : Type} (isPoolingModel : Bool) (numTokens : Nat) (src tgt : InputRow K) :
    InputRow K × InputRow K :=
  let moved :=
    { tgt with
      tokenIds := copyFirst src.tokenIds tgt.tokenIds numTokens
      isTokenIds := copyFirst src.isTokenIds tgt.isTokenIds numTokens
      promptEmbeds := if src.promptEmbeds.isSome then src.promptEmbeds else tgt.promptEmbeds
      numTokensNoSpec := src.numTokensNoSpec
      numPromptTokens := src.numPromptTokens
      numComputedTokens := src.numComputedTokens
      blockTable := BlockRows.moveRow src.blockTable tgt.blockTable
      loraId := src.loraId }
  let src := { src with promptEmbeds := none }
  if isPoolingModel then (src, moved)
  else
    ({ src with generator := none, badWordsTokenIds := none },
      { moved with
        sampling := src.sampling
        numAcceptedTokens := src.numAcceptedTokens
        generator := if src.generator.isSome then src.generator else tgt.generator
        allowedTokenIdsMask := src.allowedTokenIdsMask
        badWordsTokenIds :=
          if src.badWordsTokenIds.isSome then src.badWordsTokenIds else tgt.badWordsTokenIds })

namespace InputBatch

variable {K : Type}

/-- `while last_req_index in empty_req_indices: last_req_index -= 1` -/
def lastOccupied (removed : List Nat) : Nat → Nat
  | 0 => 0
  | last + 1 => if last + 1 ∈ removed then lastOccupied removed last else last + 1

/-- One round of the loop of `condense`: the request of the row `last` moves to `empty`. -/
def moveRequest (b : InputBatch K) (last empty : Nat) : Except Exn (InputBatch K) :=
  match b.reqIds[last]? with
  | some (some reqId) =>
    let spec := b.specTokenIds.getD last []
    let numTokens := (b.rows last).numTokensNoSpec + spec.length
    let rows := InputRow.move b.isPoolingModel numTokens (b.rows last) (b.rows empty)
    .ok { (b.setRow last rows.1).setRow empty rows.2 with
      reqIds := (b.reqIds.set empty (some reqId)).set last none
      reqOutputTokenIds :=
        (b.reqOutputTokenIds.set empty (b.reqOutputTokenIds.getD last none)).set last none
      specTokenIds := (b.specTokenIds.set empty spec).set last []
      reqIdToIndex := b.reqIdToIndex.set reqId empty
      batchUpdateBuilder :=
        b.batchUpdateBuilder.popRemoved.2.recordMoved b.isPoolingModel last empty
          .unidirectional }
  | some none => .error (.assertionError "")
  | none => .error (.indexError "list index out of range")

/-- The loop of `condense`. Every round pops a removed row, so their number bounds the rounds. -/
def condenseLoop : Nat → Nat → InputBatch K → Except Exn (InputBatch K)
  | 0, _, b => .ok b
  | rounds + 1, last, b =>
    match b.batchUpdateBuilder.peekRemoved.1 with
    | none => .ok b
    | some empty => do
        let last := lastOccupied b.batchUpdateBuilder.removed last
        if last ≤ empty then return b
        let b ← b.moveRequest last empty
        condenseLoop rounds (last - 1) b

def condense (b : InputBatch K) : Except Exn (InputBatch K) := do
  let numReqs := b.numReqs
  let b := { b with batchUpdateBuilder := b.batchUpdateBuilder.ensureRemovedSorted }
  let removed := b.batchUpdateBuilder.removed
  if removed = [] then return b
  if numReqs = 0 then
    return { b with reqIds := [], reqOutputTokenIds := [], specTokenIds := [] }
  let b ← condenseLoop removed.length (numReqs + removed.length - 1) b
  return { b with
    reqIds := b.reqIds.take numReqs
    reqOutputTokenIds := b.reqOutputTokenIds.take numReqs
    specTokenIds := b.specTokenIds.take numReqs }

/-- `refresh_metadata`, as far as the rows are concerned: the changes have been handed out. -/
def refreshMetadata (b : InputBatch K) : InputBatch K :=
  { b with batchUpdateBuilder := {} }

end InputBatch

end LongCtxSpecDecode
