import LongCtxSpecDecode.Library.Grouping
import LongCtxSpecDecode.Library.Ragged
import LongCtxSpecDecode.Library.Stores
import LongCtxSpecDecode.Request

/-!
# The request state on the device

The V2 model runner of `v1/worker/gpu`: the tensors of `RequestState` in `states.py`, the kernels of
`input_batch.py` that prepare the inputs of a step from them and update them afterwards, and the
rejection kernel of `spec_decode/rejection_sample.py`. A kernel is the list of its stores. The
target model is known by the tokens from which it computes the KV of each position.
-/

namespace LongCtxSpecDecode.Gpu

open Library Library.Ragged Library.Stores

/-- `NewRequestData`, for a request that is new or resumed. -/
structure NewRequest where
  reqId : ReqId
  promptTokenIds : List Token
  prefillTokenIds : List Token
  numComputedTokens : Nat
deriving DecidableEq, Repr

/-- What the runner reads of `SchedulerOutput`. The sets of request ids are lists in the order in
which they are gone through. -/
structure SchedulerOutput where
  finishedReqIds : List ReqId
  preemptedReqIds : List ReqId
  scheduledNewReqs : List NewRequest
  numScheduledTokens : OrderedDict ReqId Nat
  scheduledSpecDecodeTokens : OrderedDict ReqId (List Token)
deriving DecidableEq, Repr

/-- `RequestState`. The tensors are indexed by `req_state_idx`. -/
structure RequestState where
  maxNumReqs : Nat
  numSpeculativeSteps : Nat
  reqIdToIndex : OrderedDict ReqId Nat
  freeIndices : List Nat
  prefillTokenIds : Nat → Nat → Token
  prefillLen : Nat → Nat
  numComputedTokens : Nat → Int
  lastSampledTokens : Nat → Token
  draftTokens : Nat → Nat → Token
  nextPrefillTokens : Nat → Token

namespace RequestState

def init (maxNumReqs numSpeculativeSteps : Nat) : RequestState where
  maxNumReqs
  numSpeculativeSteps
  reqIdToIndex := []
  freeIndices := List.range maxNumReqs
  prefillTokenIds _ _ := 0
  prefillLen _ := 0
  numComputedTokens _ := 0
  lastSampledTokens _ := 0
  draftTokens _ _ := 0
  nextPrefillTokens _ := 0

/-- The writes of `add_request`, with the staged ones applied: they go to the row of this request
only. -/
def writeRequest (s : RequestState) (req : NewRequest) (reqIdx : Nat) : RequestState :=
  { s with
    reqIdToIndex := s.reqIdToIndex.set req.reqId reqIdx
    freeIndices := s.freeIndices.dropLast
    prefillTokenIds := Function.update s.prefillTokenIds reqIdx fun j =>
      req.prefillTokenIds.getD j (s.prefillTokenIds reqIdx j)
    prefillLen := Function.update s.prefillLen reqIdx req.prefillTokenIds.length
    numComputedTokens := Function.update s.numComputedTokens reqIdx req.numComputedTokens }

/-- `add_request`: the request gets a free row. -/
def addRequest (s : RequestState) (req : NewRequest) : Except Exn RequestState :=
  match s.freeIndices.getLast? with
  | none => .error (.assertionError "No free indices")
  | some reqIdx => do
      let promptLen := req.promptTokenIds.length
      let prefillLen := req.prefillTokenIds.length
      require (prefillLen ≥ promptLen) s!"prefill_len {prefillLen} < prompt_len {promptLen}"
      .ok (s.writeRequest req reqIdx)

def removeRequest (s : RequestState) (reqId : ReqId) : RequestState :=
  match s.reqIdToIndex.get reqId with
  | none => s
  | some reqIdx =>
    { s with
      reqIdToIndex := s.reqIdToIndex.pop reqId
      freeIndices := s.freeIndices ++ [reqIdx] }

end RequestState

/-! ### The batch -/

/-- The entries of the arrays of `InputBatch` for one request. -/
structure BatchRow where
  reqId : ReqId
  reqStateIdx : Nat
  numScheduledTokens : Nat
  numDraftTokens : Nat
deriving DecidableEq, Repr

/-- The row of a scheduled request. `np.fromiter` takes no `None`. -/
def batchRow (s : RequestState) (output : SchedulerOutput) (item : ReqId × Nat) :
    Except Exn BatchRow :=
  match s.reqIdToIndex.get item.1 with
  | some reqStateIdx =>
    .ok {
      reqId := item.1
      reqStateIdx
      numScheduledTokens := item.2
      numDraftTokens := ((output.scheduledSpecDecodeTokens.get item.1).getD []).length }
  | none => .error (.runtimeError "int() argument must be a real number, not 'NoneType'")

/-- The rows of the batch, shortest query first. -/
def batchRows (s : RequestState) (output : SchedulerOutput) : Except Exn (List BatchRow) :=
  (sortBy Prod.snd output.numScheduledTokens).mapM (batchRow s output)

section kernels

variable (rows : List BatchRow) (s : RequestState) (b : Nat)

def reqIds : ReqId := (rows.map BatchRow.reqId).getD b 0

/-- `idx_mapping`: from the batch to the rows of the states. -/
def idxMapping : Nat := (rows.map BatchRow.reqStateIdx).getD b 0

def queryStartLoc : Nat := rowStart (rows.map BatchRow.numScheduledTokens) b

/-- The running sum of the numbers of logits. Without drafts it is `arange`. -/
def cuNumLogits : Nat := rowStart (rows.map fun row => row.numDraftTokens + 1) b

def queryLen : Nat := queryStartLoc rows (b + 1) - queryStartLoc rows b

def numLogits : Nat := cuNumLogits rows (b + 1) - cuNumLogits rows b

/-- A launch with one program for each row of the batch. -/
def launch {α : Type} (program : Nat → List (Nat × α)) (mem : Nat → α) : Nat → α :=
  storeAll ((List.range rows.length).flatMap program) mem

/-- The stores of `_prepare_prefill_inputs_kernel` to `input_ids`. -/
def preparePrefillInputsKernel : List (Nat × Token) :=
  let reqStateIdx := idxMapping rows b
  let numComputed := s.numComputedTokens reqStateIdx
  if numComputed ≥ s.prefillLen reqStateIdx then []
  else (tileOffsets 1024 (queryLen rows b)).map fun block =>
    (queryStartLoc rows b + block, s.prefillTokenIds reqStateIdx (numComputed + block).toNat)

/-- The store of `_prepare_prefill_inputs_kernel` to `next_prefill_tokens`. -/
def nextPrefillTokenKernel : List (Nat × Token) :=
  let reqStateIdx := idxMapping rows b
  let numComputed := s.numComputedTokens reqStateIdx
  if numComputed ≥ s.prefillLen reqStateIdx then []
  else
    let nextPos := numComputed + queryLen rows b
    if nextPos < s.prefillLen reqStateIdx then
      [(reqStateIdx, s.prefillTokenIds reqStateIdx nextPos.toNat)]
    else []

/-- The stores of `_prepare_pos_seq_lens_kernel` to `pos`. -/
def preparePosKernel : List (Nat × Int) :=
  (tileOffsets 1024 (queryLen rows b)).map fun block =>
    (queryStartLoc rows b + block, s.numComputedTokens (idxMapping rows b) + block)

/-- The stores of `_prepare_pos_seq_lens_kernel` to `seq_lens`. -/
def prepareSeqLensKernel : List (Nat × Int) :=
  [(b, s.numComputedTokens (idxMapping rows b) + queryLen rows b)]

/-- The last program of `_prepare_pos_seq_lens_kernel` fills up `seq_lens`. -/
def padSeqLens : List (Nat × Int) :=
  (tileOffsets 1024 (s.maxNumReqs - rows.length)).map fun block => (rows.length + block, 0)

/-- The block of `_combine_sampled_and_draft_tokens_kernel` where it is below the bound. -/
def combineBlock (bound : Nat) : List Nat :=
  (List.range (nextPowerOf2 (s.numSpeculativeSteps + 1))).filter (· < bound)

/-- The stores of `_combine_sampled_and_draft_tokens_kernel` to `logits_indices`. -/
def logitsIndicesKernel : List (Nat × Nat) :=
  let logitsStart := queryStartLoc rows (b + 1) - numLogits rows b
  (combineBlock s (numLogits rows b)).map fun block =>
    (cuNumLogits rows b + block, logitsStart + block)

/-- The stores of `_combine_sampled_and_draft_tokens_kernel` to `input_ids`. -/
def combineSampledAndDraftTokensKernel (seqLens : Nat → Int) (b : Nat) : List (Nat × Token) :=
  let reqStateIdx := idxMapping rows b
  let queryEnd := queryStartLoc rows (b + 1)
  let numDraftTokens := numLogits rows b - 1
  if seqLens b ≤ s.prefillLen reqStateIdx then []
  else
    (queryEnd - numLogits rows b, s.lastSampledTokens reqStateIdx) ::
      if numDraftTokens > 0 then
        (combineBlock s numDraftTokens).map fun block =>
          (queryEnd - numDraftTokens + block, s.draftTokens reqStateIdx block)
      else []

end kernels

/-! ### The target model -/

/-- The tokens before a position, where the KV of all positions before it was computed from
them. -/
def contextBefore (kv : Nat → Option (List Token)) (pos : Nat) : Option (List Token) :=
  if pos = 0 then some []
  else
    match kv (pos - 1) with
    | none => none
    | some context => if ∀ j < pos, kv j = some (context.take (j + 1)) then some context else none

/-- The entry of a token stands for all tokens that it attends to. -/
def computeKv (kv : Nat → Option (List Token)) (pos : Nat) (token : Token) :
    Nat → Option (List Token) :=
  Function.update kv pos ((contextBefore kv pos).map (· ++ [token]))

/-! ### Sampling -/

/-- The variables of the loop of `_rejection_sample_kernel`. -/
structure Verdict where
  sampled : Nat → Token
  numSampled : Nat
  rejected : Bool

/-- One round of the loop of `_rejection_sample_kernel`. -/
def Verdict.next (targetSampled draftSampled : Nat → Token) (v : Verdict) (i : Nat) : Verdict :=
  if v.rejected then v
  else {
    sampled := Function.update v.sampled i (targetSampled i)
    numSampled := v.numSampled + 1
    rejected := decide (targetSampled i ≠ draftSampled (i + 1)) }

/-- `_rejection_sample_kernel`, with the tokens from `start_idx` on. -/
def rejectionSampleKernel (numTokens : Nat) (targetSampled draftSampled : Nat → Token) : Verdict :=
  let v := (List.range (numTokens - 1)).foldl (Verdict.next targetSampled draftSampled)
    { sampled := fun _ => 0, numSampled := 0, rejected := false }
  if v.rejected then v
  else {
    sampled := Function.update v.sampled (numTokens - 1) (targetSampled (numTokens - 1))
    numSampled := v.numSampled + 1
    rejected := false }

section step

variable (rows : List BatchRow)

/-- The sampled tokens of the batch, with or without drafts. -/
def sampleTokens (targetSampled inputIds : Nat → Token) : (Nat → Nat → Token) × (Nat → Nat) :=
  if (rows.map BatchRow.numDraftTokens).sum = 0 then (fun b _ => targetSampled b, fun _ => 1)
  else
    let verdict b := rejectionSampleKernel (numLogits rows b)
      (fun i => targetSampled (cuNumLogits rows b + i)) (fun i => inputIds (cuNumLogits rows b + i))
    (fun b => (verdict b).sampled, fun b => (verdict b).numSampled)

/-- `_get_num_sampled_and_rejected_kernel`. -/
def getNumSampledAndRejected (s : RequestState) (seqLens : Nat → Int) (numSampled : Nat → Nat)
    (b : Nat) : Nat × Int :=
  let isChunkedPrefilling := seqLens b < s.prefillLen (idxMapping rows b)
  let numSampled := if isChunkedPrefilling then 0 else numSampled b
  (numSampled, if isChunkedPrefilling then 0 else (numLogits rows b : Int) - numSampled)

/-- The stores of `_post_update_kernel` to `last_sampled_tokens`. -/
def lastSampledKernel (sampled : Nat → Nat → Token) (numSampled : Nat → Nat) (b : Nat) :
    List (Nat × Token) :=
  if numSampled b > 0 then [(idxMapping rows b, sampled b (numSampled b - 1))] else []

/-- The stores of `_post_update_kernel` to `num_computed_tokens`. -/
def numComputedKernel (s : RequestState) (numRejected : Nat → Int) (b : Nat) : List (Nat × Int) :=
  let reqStateIdx := idxMapping rows b
  [(reqStateIdx, s.numComputedTokens reqStateIdx + (queryLen rows b - numRejected b))]

/-- The runner: the request states, the input buffers, and for each position of each request the
tokens from which its KV was computed. -/
structure Runner where
  reqStates : RequestState
  inputIds : Nat → Token
  positions : Nat → Int
  seqLens : Nat → Int
  kv : Nat → Nat → Option (List Token)

variable (runner : Runner)

namespace Runner

def init (maxNumReqs numSpeculativeSteps : Nat) : Runner where
  reqStates := .init maxNumReqs numSpeculativeSteps
  inputIds _ := 0
  positions _ := 0
  seqLens _ := 0
  kv _ _ := none

def finishRequests (output : SchedulerOutput) : Runner :=
  { runner with
    reqStates := (output.finishedReqIds ++ output.preemptedReqIds).foldl
      RequestState.removeRequest runner.reqStates }

/-- One round of `add_requests`. The blocks of the request hold the KV of its computed tokens. -/
def addRequest (req : NewRequest) : Except Exn Runner := do
  let reqStates ← runner.reqStates.addRequest req
  match reqStates.reqIdToIndex.get req.reqId with
  | none => .error (.keyError "req_id")
  | some reqIndex =>
    .ok { runner with
      reqStates
      kv := Function.update runner.kv reqIndex fun j =>
        if j < req.numComputedTokens then some (req.prefillTokenIds.take (j + 1)) else none }

/-- The kernels of `prepare_inputs`, in their order, and the logits indices. -/
def prepareInputs : Runner × (Nat → Nat) :=
  let s := runner.reqStates
  let inputIds := launch rows (preparePrefillInputsKernel rows s) runner.inputIds
  let nextPrefillTokens := launch rows (nextPrefillTokenKernel rows s) s.nextPrefillTokens
  let positions := launch rows (preparePosKernel rows s) runner.positions
  let seqLens := storeAll (padSeqLens rows s)
    (launch rows (prepareSeqLensKernel rows s) runner.seqLens)
  let logitsIndices := launch rows (logitsIndicesKernel rows s) fun _ => 0
  let inputIds := launch rows (combineSampledAndDraftTokensKernel rows s seqLens) inputIds
  ({ runner with reqStates := { s with nextPrefillTokens }, inputIds, positions, seqLens },
    logitsIndices)

def forwardRow (b : Nat) : Nat → Option (List Token) :=
  (List.range (queryLen rows b)).foldl
    (fun kv j => computeKv kv (runner.positions (queryStartLoc rows b + j)).toNat
      (runner.inputIds (queryStartLoc rows b + j)))
    (runner.kv (idxMapping rows b))

/-- The model fills the KV cache of each row. -/
def forward : Runner :=
  { runner with
    kv := launch rows (fun b => [(idxMapping rows b, runner.forwardRow rows b)]) runner.kv }

def targetSampled (logitsIndices : Nat → Nat)
    (sampler : ReqId → Option (List Token) → Token) : Nat → Token :=
  launch rows (fun b => (List.range (numLogits rows b)).map fun i =>
    let row := cuNumLogits rows b + i
    (row, sampler (reqIds rows b)
      (runner.kv (idxMapping rows b) (runner.positions (logitsIndices row)).toNat))) fun _ => 0

/-- `sample`: the sampled tokens of each row, and the numbers of sampled and rejected ones. -/
def sample (logitsIndices : Nat → Nat)
    (sampler : ReqId → Option (List Token) → Token) : (Nat → Nat → Token) × (Nat → Nat × Int) :=
  let tokens := sampleTokens rows (runner.targetSampled rows logitsIndices sampler)
    fun row => runner.inputIds (logitsIndices row)
  (tokens.1, getNumSampledAndRejected rows runner.reqStates runner.seqLens tokens.2)

/-- `postprocess`, and the drafts for the next step. -/
def postprocess (sampled : Nat → Nat → Token) (counts : Nat → Nat × Int)
    (drafts : ReqId → Nat → Token) : Runner :=
  let s := runner.reqStates
  { runner with
    reqStates := { s with
      lastSampledTokens := launch rows (lastSampledKernel rows sampled fun b => (counts b).1)
        s.lastSampledTokens
      numComputedTokens := launch rows (numComputedKernel rows s fun b => (counts b).2)
        s.numComputedTokens
      draftTokens := launch rows (fun b => [(idxMapping rows b, drafts (reqIds rows b))])
        s.draftTokens } }

end Runner

end step

/-- What `execute_model` and `sample_tokens` leave. -/
structure StepResult where
  runner : Runner
  rows : List BatchRow
  sampledTokenIds : OrderedDict ReqId (List Token)

namespace Runner

def sampleBatch (runner : Runner) (rows : List BatchRow)
    (sampler : ReqId → Option (List Token) → Token) : (Nat → Nat → Token) × (Nat → Nat × Int) :=
  let prepared := runner.prepareInputs rows
  (prepared.1.forward rows).sample rows prepared.2 sampler

def runBatch (runner : Runner) (rows : List BatchRow)
    (sampler : ReqId → Option (List Token) → Token) (drafts : ReqId → Nat → Token) : StepResult :=
  let prepared := runner.prepareInputs rows
  let sampled := runner.sampleBatch rows sampler
  { runner := (prepared.1.forward rows).postprocess rows sampled.1 sampled.2 drafts
    rows
    sampledTokenIds := rows.mapIdx fun b row =>
      (row.reqId, (List.range (sampled.2 b).1).map (sampled.1 b)) }

/-- `execute_model` and `sample_tokens`. -/
def executeModel (runner : Runner) (output : SchedulerOutput)
    (sampler : ReqId → Option (List Token) → Token) (drafts : ReqId → Nat → Token) :
    Except Exn StepResult := do
  let runner ← output.scheduledNewReqs.foldlM addRequest (runner.finishRequests output)
  if (output.numScheduledTokens.map Prod.snd).sum = 0 then
    .ok { runner, rows := [], sampledTokenIds := [] }
  else do
    let rows ← batchRows runner.reqStates output
    .ok (runner.runBatch rows sampler drafts)

end Runner

end LongCtxSpecDecode.Gpu
