import LongCtxSpecDecode.Basic

/-!
# Requests

The request state of `v1/request.py`, as far as the scheduler, the block hasher and the KV
cache manager read or write it. `H` is the type of block hashes.
-/

namespace LongCtxSpecDecode

/-- Token ids are integers: the placeholders of speculative decoding are `-1`. -/
abbrev Token := Int

abbrev ReqId := Nat

/-- `RequestStatus`, in the order of the enumeration. -/
inductive RequestStatus where
  | waiting
  | waitingForFsm
  | waitingForRemoteKvs
  | waitingForStreamingReq
  | running
  | preempted
  | finishedStopped
  | finishedLengthCapped
  | finishedAborted
  | finishedIgnored
  | finishedError
deriving DecidableEq, Repr

namespace RequestStatus

/-- `RequestStatus.is_finished`: the statuses after `PREEMPTED`. -/
def isFinished : RequestStatus → Bool
  | waiting | waitingForFsm | waitingForRemoteKvs | waitingForStreamingReq | running
  | preempted => false
  | finishedStopped | finishedLengthCapped | finishedAborted | finishedIgnored
  | finishedError => true

def name : RequestStatus → String
  | waiting => "WAITING"
  | waitingForFsm => "WAITING_FOR_FSM"
  | waitingForRemoteKvs => "WAITING_FOR_REMOTE_KVS"
  | waitingForStreamingReq => "WAITING_FOR_STREAMING_REQ"
  | running => "RUNNING"
  | preempted => "PREEMPTED"
  | finishedStopped => "FINISHED_STOPPED"
  | finishedLengthCapped => "FINISHED_LENGTH_CAPPED"
  | finishedAborted => "FINISHED_ABORTED"
  | finishedIgnored => "FINISHED_IGNORED"
  | finishedError => "FINISHED_ERROR"

end RequestStatus

/-- The part of `LoRARequest` the engine core reads. -/
structure LoRARequest where
  loraName : String
  loraIntId : Nat
deriving DecidableEq, Repr

/-- A multimodal item: its identifier and the placeholder range of `mm_position`. -/
structure MultiModalFeature where
  identifier : String
  offset : Nat
  length : Nat
deriving DecidableEq, Repr

/-- The part of `SamplingParams` that decides when a request stops. -/
structure SamplingParams where
  maxTokens : Nat
  minTokens : Nat := 0
  ignoreEos : Bool := false
  stopTokenIds : List Token := []
  skipReadingPrefixCache : Bool := false
deriving DecidableEq, Repr

/-- `StreamingUpdate`: the next input chunk of a streaming session. -/
structure StreamingUpdate where
  mmFeatures : List MultiModalFeature
  promptTokenIds : List Token
  arrivalTime : Int
  samplingParams : SamplingParams
deriving DecidableEq, Repr

/-- `EngineCoreRequest`: what a client submits. -/
structure EngineCoreRequest where
  requestId : ReqId
  promptTokenIds : Option (List Token)
  promptEmbeds : Option (List Nat) := none
  mmFeatures : List MultiModalFeature := []
  samplingParams : SamplingParams
  eosTokenId : Option Token := none
  arrivalTime : Int := 0
  loraRequest : Option LoRARequest := none
  cacheSalt : Option String := none
  priority : Int := 0
  useStructuredOutput : Bool := false
  resumable : Bool := false
deriving DecidableEq, Repr

/-- `Request`. -/
structure Request (H : Type) where
  requestId : ReqId
  priority : Int := 0
  arrivalTime : Int := 0
  samplingParams : SamplingParams
  /-- `max_tokens`, fixed when the request is created. -/
  maxTokens : Nat
  eosTokenId : Option Token := none
  loraRequest : Option LoRARequest := none
  cacheSalt : Option String := none
  mmFeatures : List MultiModalFeature := []
  /-- `prompt_embeds`, one entry for each prompt position. -/
  promptEmbeds : Option (List Nat) := none
  useStructuredOutput : Bool := false
  /-- `skip_reading_prefix_cache`, fixed when the request is created. -/
  skipReadingPrefixCache : Bool := false
  promptTokenIds : Option (List Token)
  outputTokenIds : List Token := []
  allTokenIds : List Token
  numPromptTokens : Nat
  specTokenIds : List Token := []
  numComputedTokens : Int := 0
  numOutputPlaceholders : Int := 0
  discardLatestAsyncTokens : Bool := false
  isPrefillChunk : Bool := false
  numCachedTokens : Int := -1
  numPreemptions : Nat := 0
  numExternalComputedTokens : Int := 0
  blockHashes : List H := []
  status : RequestStatus := .waiting
  stopReason : Option Token := none
  resumable : Bool := false
  /-- `streaming_queue`; an entry `none` means that the session is finished. -/
  streamingQueue : Option (List (Option StreamingUpdate)) := none

namespace Request

variable {H : Type}

def numTokens (r : Request H) : Nat := r.allTokenIds.length

def numTokensWithSpec (r : Request H) : Nat := r.allTokenIds.length + r.specTokenIds.length

def numOutputTokens (r : Request H) : Nat := r.outputTokenIds.length

def isFinished (r : Request H) : Bool := r.status.isFinished

variable (hasher : Option (Request H → List H))

/-- `update_block_hashes`; there is no hasher when prefix caching is off. -/
def updateBlockHashes (r : Request H) : Request H :=
  match hasher with
  | none => r
  | some hasher => { r with blockHashes := r.blockHashes ++ hasher r }

theorem updateBlockHashes_eq (r : Request H) : updateBlockHashes hasher r =
      { r with blockHashes := (updateBlockHashes hasher r).blockHashes } := by
  unfold updateBlockHashes
  split <;> rfl

def fromEngineCoreRequest (e : EngineCoreRequest) : Request H :=
  let numPromptTokens := match e.promptTokenIds, e.promptEmbeds with
    | some promptTokenIds, _ => promptTokenIds.length
    | none, some promptEmbeds => promptEmbeds.length
    | none, none => 0
  updateBlockHashes hasher
    { requestId := e.requestId
      priority := e.priority
      arrivalTime := e.arrivalTime
      samplingParams := e.samplingParams
      maxTokens := e.samplingParams.maxTokens
      eosTokenId := e.eosTokenId
      loraRequest := e.loraRequest
      cacheSalt := e.cacheSalt
      mmFeatures := e.mmFeatures
      promptEmbeds := e.promptEmbeds
      useStructuredOutput := e.useStructuredOutput
      skipReadingPrefixCache := e.samplingParams.skipReadingPrefixCache
      promptTokenIds := e.promptTokenIds
      allTokenIds := e.promptTokenIds.getD (List.replicate numPromptTokens 0)
      numPromptTokens := numPromptTokens
      status := if e.useStructuredOutput then .waitingForFsm else .waiting
      resumable := e.resumable }

def appendOutputTokenIds (r : Request H) (tokenIds : List Token) : Request H :=
  updateBlockHashes hasher
    { r with
      outputTokenIds := r.outputTokenIds ++ tokenIds
      allTokenIds := r.allTokenIds ++ tokenIds }

/-- What `Scheduler._update_request_as_session` does to the session's request before it
extends the hashes: the tokens past `num_computed_tokens` are dropped, the kept output
becomes prompt and the update is appended, its items shifted by the tokens before it. -/
def continueSession (session : Request H) (update : StreamingUpdate)
    (promptTokenIds : List Token) : Request H :=
  let numComputedTokens := session.numComputedTokens.toNat
  let keptOutputTokens := (session.allTokenIds.take numComputedTokens).drop session.numPromptTokens
  let allTokenIds := session.allTokenIds.take numComputedTokens
  let base := allTokenIds.length
  { session with
    outputTokenIds := []
    allTokenIds := allTokenIds ++ update.promptTokenIds
    promptTokenIds := some (promptTokenIds ++ keptOutputTokens ++ update.promptTokenIds)
    mmFeatures := session.mmFeatures ++
      update.mmFeatures.map fun m => { m with offset := m.offset + base } }

/-- The request's part of `Scheduler._update_request_as_session`. -/
def updateAsSession (session : Request H) (update : StreamingUpdate) : Except Exn (Request H) :=
  match session.promptTokenIds with
  | none => .error (.assertionError "")
  | some promptTokenIds =>
    let session := updateBlockHashes hasher (session.continueSession update promptTokenIds)
    .ok { session with
      numPromptTokens := (session.promptTokenIds.getD []).length
      arrivalTime := update.arrivalTime
      samplingParams := update.samplingParams
      status := .waiting }

end Request

end LongCtxSpecDecode
