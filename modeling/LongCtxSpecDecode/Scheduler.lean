import LongCtxSpecDecode.CacheLookup
import LongCtxSpecDecode.Library.Heapq
import LongCtxSpecDecode.Library.OrderedDict

/-!
# The scheduler

`Scheduler` of `v1/core/sched/scheduler.py`, its subclass in `async_scheduler.py`, and the request
queues of `request_queue.py`. KV connectors, encoder inputs, pooling models and pipeline parallelism
are not modelled. The lists of requests hold request ids; the objects are in `requests`.
-/

namespace LongCtxSpecDecode

open Library

inductive SchedulingPolicy where
  | fcfs
  | priority
deriving DecidableEq, Repr

/-- What the scheduler reads of the configuration. -/
structure SchedulerConfig (H : Type) where
  policy : SchedulingPolicy := .fcfs
  maxNumRunningReqs : Nat
  maxNumScheduledTokens : Int
  maxModelLen : Nat
  longPrefillTokenThreshold : Int := 0
  enableChunkedPrefill : Bool := true
  /-- `lora_config.max_loras`, if there is a LoRA configuration. -/
  maxLoras : Option Nat := none
  numSpecTokens : Nat := 0
  numLookaheadTokens : Int := 0
  useEagle : Bool := false
  asyncScheduling : Bool := false
  needMambaBlockAlignedSplit : Bool := false
  blockSize : Nat
  blockHasher : Option (Request H → List H) := none
  coordinator : KVCacheCoordinator H

/-- `Scheduler`. The requests are in `requests`, the queues have their ids. -/
structure Scheduler (H : Type) where
  config : SchedulerConfig H
  kvCacheManager : KVCacheManager H
  requests : ReqId → Option (Request H) := fun _ => none
  waiting : List ReqId := []
  running : List ReqId := []
  /-- `finished_req_ids`, a set. -/
  finishedReqIds : List ReqId := []
  /-- `prev_step_scheduled_req_ids`, a set. -/
  prevStepScheduledReqIds : List ReqId := []
  numWaitingForStreamingInput : Int := 0

/-- `NewRequestData`, as far as the model runner's batch uses it. -/
structure NewRequestData where
  reqId : ReqId
  promptTokenIds : Option (List Token)
  blockIds : KVCacheBlocks
  numComputedTokens : Int

/-- One entry of the lists of `CachedRequestData`. -/
structure CachedRequestData where
  reqId : ReqId
  resumed : Bool
  /-- `new_block_ids`: `None` when no group has new blocks. -/
  newBlockIds : Option KVCacheBlocks
  numComputedTokens : Int
  numOutputTokens : Int

/-- `EngineCoreOutput`: new tokens of a request, and how it finished. -/
structure EngineCoreOutput where
  requestId : ReqId
  newTokenIds : List Token
  finishStatus : Option RequestStatus
deriving DecidableEq, Repr

/-- What a step tells the workers. -/
structure SchedulerOutput where
  scheduledNewReqs : List NewRequestData
  scheduledCachedReqs : List CachedRequestData
  numScheduledTokens : OrderedDict ReqId Int
  totalNumScheduledTokens : Int
  scheduledSpecDecodeTokens : OrderedDict ReqId (List Token)
  preemptedReqIds : List ReqId
  finishedReqIds : List ReqId

namespace Request

variable {H : Type}

/-- `Request.__lt__`. -/
def lt (a b : Request H) : Bool :=
  if a.priority ≠ b.priority then decide (a.priority < b.priority)
  else if a.arrivalTime ≠ b.arrivalTime then decide (a.arrivalTime < b.arrivalTime)
  else decide (a.requestId < b.requestId)

/-- The order of the key `(priority, arrival_time)` by which a victim is chosen. -/
def keyLt (a b : Request H) : Bool :=
  if a.priority ≠ b.priority then decide (a.priority < b.priority)
  else decide (a.arrivalTime < b.arrivalTime)

/-- `check_stop`: the status in which the request stops, if it does. -/
def checkStop (r : Request H) (maxModelLen : Nat) : Option (RequestStatus × Option Token) :=
  if r.numOutputTokens < r.samplingParams.minTokens then
    none
  else
    let lastTokenId := r.outputTokenIds.getLast?
    if r.samplingParams.ignoreEos = false ∧ r.eosTokenId.isSome ∧ lastTokenId = r.eosTokenId then
      some (.finishedStopped, r.stopReason)
    else if lastTokenId.any (· ∈ r.samplingParams.stopTokenIds) then
      some (.finishedStopped, lastTokenId)
    else if r.numTokens ≥ maxModelLen ∨ r.numOutputTokens ≥ r.maxTokens then
      some (.finishedLengthCapped, r.stopReason)
    else
      none

/-- `StreamingUpdate.from_request`. -/
def toStreamingUpdate (r : Request H) : Option StreamingUpdate :=
  if r.resumable then
    some { mmFeatures := r.mmFeatures, promptTokenIds := r.promptTokenIds.getD []
           arrivalTime := r.arrivalTime, samplingParams := r.samplingParams }
  else
    none

end Request

namespace Scheduler

variable {H : Type} (s : Scheduler H)

def getRequest (requestId : ReqId) : Except Exn (Request H) :=
  match s.requests requestId with
  | some request => .ok request
  | none => .error (.keyError "")

def setRequest (requestId : ReqId) (request : Request H) : Scheduler H :=
  { s with requests := Function.update s.requests requestId (some request) }

/-- The order of the priority queue. -/
def requestLt (a b : ReqId) : Bool :=
  match s.requests a, s.requests b with
  | some a, some b => a.lt b
  | _, _ => false

section queue

/-- `RequestQueue.add_request`. -/
def queueAdd (queue : List ReqId) (requestId : ReqId) : List ReqId :=
  match s.config.policy with
  | .fcfs => queue ++ [requestId]
  | .priority => Heapq.heappush s.requestLt queue requestId

/-- `RequestQueue.prepend_request`. -/
def queuePrepend (queue : List ReqId) (requestId : ReqId) : List ReqId :=
  match s.config.policy with
  | .fcfs => requestId :: queue
  | .priority => Heapq.heappush s.requestLt queue requestId

/-- `RequestQueue.pop_request`. -/
def queuePop (queue : List ReqId) : Option (ReqId × List ReqId) :=
  match s.config.policy with
  | .fcfs =>
    match queue with
    | [] => none
    | requestId :: queue => some (requestId, queue)
  | .priority => Heapq.heappop s.requestLt queue

/-- Iteration over a priority queue, which pops a copy. -/
def queueItems (s : Scheduler H) : Nat → List ReqId → List ReqId
  | 0, _ => []
  | fuel + 1, queue =>
    match Heapq.heappop s.requestLt queue with
    | none => []
    | some (requestId, queue) => requestId :: queueItems s fuel queue

/-- `RequestQueue.prepend_requests`. -/
def queuePrependAll (queue requests : List ReqId) : List ReqId :=
  match s.config.policy with
  | .fcfs => requests.reverse ++ queue
  | .priority =>
    (s.queueItems requests.length requests).foldl (Heapq.heappush s.requestLt) queue

/-- `RequestQueue.remove_requests`. -/
def queueRemove (queue requests : List ReqId) : List ReqId :=
  match s.config.policy with
  | .fcfs => queue.filter (· ∉ requests)
  | .priority => Heapq.heapify s.requestLt (queue.filter (· ∉ requests))

/-- `remove_all`: one item is removed once, several are filtered out. -/
def removeAll (requests itemsToRemove : List ReqId) : List ReqId :=
  match itemsToRemove with
  | [] => requests
  | [item] => requests.erase item
  | _ => requests.filter (· ∉ itemsToRemove)

end queue

/-- `_mamba_block_aligned_split`: chunks end at block boundaries. -/
def mambaBlockAlignedSplit (c : SchedulerConfig H) (request : Request H)
    (numNewTokens numNewLocalComputedTokens : Int) : Int :=
  if request.numOutputTokens = 0 then
    let blockSize : Int := c.blockSize
    let lastCachePosition : Int := request.numPromptTokens - request.numPromptTokens % blockSize
    let lastCachePosition :=
      if c.useEagle then max (lastCachePosition - blockSize) 0 else lastCachePosition
    let numComputedTokens := request.numComputedTokens + numNewLocalComputedTokens
    let numComputedTokensAfterSched := numComputedTokens + numNewTokens
    if numComputedTokensAfterSched < lastCachePosition then
      numNewTokens / blockSize * blockSize
    else if numComputedTokens < lastCachePosition ∧
        lastCachePosition < numComputedTokensAfterSched then
      -- the last chunk is cached
      lastCachePosition - numComputedTokens
    else
      numNewTokens
  else
    numNewTokens

end Scheduler

/-- The local variables of `schedule`. -/
structure ScheduleState (H : Type) where
  scheduler : Scheduler H
  tokenBudget : Int
  reqIndex : Nat := 0
  scheduledNewReqs : List ReqId := []
  scheduledResumedReqs : List ReqId := []
  scheduledRunningReqs : List ReqId := []
  preemptedReqs : List ReqId := []
  reqToNewBlocks : OrderedDict ReqId KVCacheBlocks := []
  numScheduledTokens : OrderedDict ReqId Int := []
  scheduledSpecDecodeTokens : OrderedDict ReqId (List Token) := []
  scheduledLoras : List Nat := []
  skippedWaitingRequests : List ReqId := []

namespace ScheduleState

variable {H : Type}

def withKv (st : ScheduleState H) (kv : KVCacheManager H) : ScheduleState H :=
  { st with scheduler := { st.scheduler with kvCacheManager := kv } }

def withRequest (st : ScheduleState H) (requestId : ReqId) (request : Request H) :
    ScheduleState H :=
  { st with scheduler := st.scheduler.setRequest requestId request }

end ScheduleState

namespace Scheduler

variable {H : Type} [DecidableEq H]

def asPreempted (request : Request H) : Request H :=
  { request with
    status := .preempted
    numComputedTokens := 0
    specTokenIds := []
    numPreemptions := request.numPreemptions + 1 }

variable (s : Scheduler H)

/-- `_preempt_request`: the blocks are freed, and the request starts over. -/
def preemptRequest (requestId : ReqId) : Except Exn (Scheduler H) := do
  let request ← s.getRequest requestId
  require (request.status = .running) "Only running requests can be preempted"
  let kv ← s.kvCacheManager.free requestId
  let s := ({ s with kvCacheManager := kv }).setRequest requestId (asPreempted request)
  .ok { s with waiting := s.queuePrepend s.waiting requestId }

def lowerPriority (a b : ReqId) : ReqId :=
  match s.requests a, s.requests b with
  | some x, some y => if x.keyLt y then b else a
  | _, _ => a

/-- `max(self.running, key=...)`. -/
def lowestPriority (first : ReqId) (rest : List ReqId) : ReqId :=
  rest.foldl s.lowerPriority first

/-- Which request is preempted when no block is free. -/
def preemptionVictim : Except Exn ReqId :=
  match s.config.policy with
  | .fcfs =>
    match s.running.getLast? with
    | none => .error (.indexError "pop from empty list")
    | some victim => .ok victim
  | .priority =>
    match s.running with
    | [] => .error (.valueError "max() iterable argument is empty")
    | first :: rest => .ok (s.lowestPriority first rest)

variable (st : ScheduleState H)

/-- A victim that this step has already scheduled gives its tokens back. -/
def unschedule (victim : ReqId) : ScheduleState H :=
  if st.scheduler.config.policy = .priority ∧ victim ∈ st.scheduledRunningReqs then
    { st with
      scheduledRunningReqs := st.scheduledRunningReqs.erase victim
      tokenBudget := st.tokenBudget + (OrderedDict.get st.numScheduledTokens victim).getD 0
      numScheduledTokens := OrderedDict.pop st.numScheduledTokens victim
      reqToNewBlocks := OrderedDict.pop st.reqToNewBlocks victim
      scheduledSpecDecodeTokens := OrderedDict.pop st.scheduledSpecDecodeTokens victim
      reqIndex := st.reqIndex - 1 }
  else
    st

/-- `self.running` without the victim. -/
def withoutVictim (victim : ReqId) : List ReqId :=
  match s.config.policy with
  | .fcfs => s.running.dropLast
  | .priority => s.running.erase victim

def dropVictim (victim : ReqId) : ScheduleState H :=
  { st with scheduler := { st.scheduler with running := st.scheduler.withoutVictim victim } }

/-- One round of preemption in the loop around `allocate_slots`. -/
def preemptOne : Except Exn (ReqId × ScheduleState H) := do
  let victim ← st.scheduler.preemptionVictim
  let st := unschedule (dropVictim st victim) victim
  let s ← st.scheduler.preemptRequest victim
  .ok (victim, { st with scheduler := s, preemptedReqs := st.preemptedReqs ++ [victim] })

/-- The loop around `allocate_slots` for a running request. -/
def allocateOrPreempt (requestId : ReqId) (numNewTokens : Int) :
    Nat → ScheduleState H → Except Exn (Option KVCacheBlocks × ScheduleState H)
  | 0, _ => .error .outOfFuel
  | fuel + 1, st => do
      let request ← st.scheduler.getRequest requestId
      let (newBlocks, kv) ← st.scheduler.kvCacheManager.allocateSlots
        { request, numNewTokens, numLookaheadTokens := st.scheduler.config.numLookaheadTokens }
      let st := st.withKv kv
      match newBlocks with
      | some newBlocks => .ok (some newBlocks, st)
      | none => do
          let (victim, st) ← preemptOne st
          if victim = requestId then
            .ok (none, st)
          else
            allocateOrPreempt requestId numNewTokens fuel st

/-- How many tokens of a running request are scheduled. -/
def numNewRunningTokens (c : SchedulerConfig H) (request : Request H) (tokenBudget : Int) : Int :=
  let numNewTokens : Int :=
    request.numTokensWithSpec + request.numOutputPlaceholders - request.numComputedTokens
  let numNewTokens :=
    if 0 < c.longPrefillTokenThreshold ∧ c.longPrefillTokenThreshold < numNewTokens then
      c.longPrefillTokenThreshold
    else
      numNewTokens
  let numNewTokens := min numNewTokens tokenBudget
  let numNewTokens := min numNewTokens (c.maxModelLen - 1 - request.numComputedTokens)
  if c.needMambaBlockAlignedSplit then mambaBlockAlignedSplit c request numNewTokens 0
  else numNewTokens

/-- Whether an earlier step in flight is sure to reach `max_tokens`. -/
def reachedMaxTokens (request : Request H) : Bool :=
  request.numOutputPlaceholders > 0 ∧
    request.numComputedTokens + 2 - request.numOutputPlaceholders ≥
      request.numPromptTokens + request.maxTokens

/-- The drafts of a running request that are scheduled with `numNewTokens` tokens. -/
def scheduledDrafts (request : Request H) (numNewTokens : Int) : List Token :=
  let numScheduledSpecTokens := numNewTokens + request.numComputedTokens - request.numTokens -
    request.numOutputPlaceholders
  if numScheduledSpecTokens > 0 then
    request.specTokenIds.take numScheduledSpecTokens.toNat
  else
    []

def scheduleRunningRequest (requestId : ReqId) (request : Request H)
    (numNewTokens : Int) (newBlocks : KVCacheBlocks) : ScheduleState H :=
  let drafts := scheduledDrafts request numNewTokens
  { st.withRequest requestId { request with specTokenIds := [] } with
    scheduledRunningReqs := st.scheduledRunningReqs ++ [requestId]
    reqToNewBlocks := OrderedDict.set st.reqToNewBlocks requestId newBlocks
    numScheduledTokens := OrderedDict.set st.numScheduledTokens requestId numNewTokens
    tokenBudget := st.tokenBudget - numNewTokens
    reqIndex := st.reqIndex + 1
    scheduledSpecDecodeTokens :=
      if drafts = [] then st.scheduledSpecDecodeTokens
      else OrderedDict.set st.scheduledSpecDecodeTokens requestId drafts }

/-- The first loop of `schedule`, over the running requests. -/
def scheduleRunning : Nat → ScheduleState H → Except Exn (ScheduleState H)
  | 0, _ => .error .outOfFuel
  | fuel + 1, st =>
    if st.tokenBudget > 0 then
      match st.scheduler.running[st.reqIndex]? with
      | none => .ok st
      | some requestId => do
          let request ← st.scheduler.getRequest requestId
          let numNewTokens := numNewRunningTokens st.scheduler.config request st.tokenBudget
          if reachedMaxTokens request = true ∨ numNewTokens = 0 then
            scheduleRunning fuel { st with reqIndex := st.reqIndex + 1 }
          else do
            let (newBlocks, st) ← allocateOrPreempt requestId numNewTokens
              (st.scheduler.running.length + 1) st
            match newBlocks with
            | none => .ok st
            | some newBlocks => do
                let request ← st.scheduler.getRequest requestId
                scheduleRunning fuel
                  (scheduleRunningRequest st requestId request numNewTokens newBlocks)
    else
      .ok st

def lorasOf (requestIds : List ReqId) : List Nat :=
  (requestIds.filterMap fun requestId =>
    match (s.requests requestId).bind Request.loraRequest with
    | some lora => if lora.loraIntId > 0 then some lora.loraIntId else none
    | none => none).dedup

/-- Record the LoRA adapters of the running requests, if there is a LoRA configuration. -/
def recordLoras : Except Exn (ScheduleState H) :=
  match st.scheduler.config.maxLoras with
  | none => .ok st
  | some maxLoras => do
      let scheduledLoras := st.scheduler.lorasOf st.scheduledRunningReqs
      require (scheduledLoras.length ≤ maxLoras) ""
      .ok { st with scheduledLoras }

/-- Whether scheduling the request would exceed `max_loras`. -/
def exceedsMaxLoras (request : Request H) : Bool :=
  match st.scheduler.config.maxLoras, request.loraRequest with
  | some maxLoras, some lora =>
    st.scheduledLoras.length = maxLoras ∧ lora.loraIntId ∉ st.scheduledLoras
  | _, _ => false

def popWaiting : ScheduleState H :=
  { st with
    scheduler := { st.scheduler with
      waiting := ((st.scheduler.queuePop st.scheduler.waiting).map Prod.snd).getD [] } }

/-- The request is put aside for this step. -/
def skipWaiting (requestId : ReqId) : ScheduleState H :=
  { popWaiting st with
    skippedWaitingRequests := st.scheduler.queuePrepend st.skippedWaitingRequests requestId }

/-- The computed tokens a waiting request starts with: hits of the prefix cache, or what it
has computed already. -/
def waitingComputed (request : Request H) : Except Exn (KVCacheBlocks × Int × Int) :=
  if request.numComputedTokens = 0 then do
    let (newComputedBlocks, numNewLocalComputedTokens) ←
      s.config.coordinator.getComputedBlocks s.kvCacheManager request
    .ok (newComputedBlocks, numNewLocalComputedTokens, numNewLocalComputedTokens)
  else
    .ok (fun _ => [], 0, request.numComputedTokens)

/-- The number of tokens to schedule for a waiting request; `none` ends the loop. -/
def numNewWaitingTokens (c : SchedulerConfig H) (request : Request H)
    (numNewLocalComputedTokens numComputedTokens tokenBudget : Int) : Except Exn (Option Int) :=
  let numNewTokens : Int := request.numTokens - numComputedTokens
  let numNewTokens :=
    if 0 < c.longPrefillTokenThreshold ∧ c.longPrefillTokenThreshold < numNewTokens then
      c.longPrefillTokenThreshold
    else
      numNewTokens
  if c.enableChunkedPrefill = false ∧ numNewTokens > tokenBudget then
    .ok none
  else do
    let numNewTokens := min numNewTokens tokenBudget
    require (numNewTokens > 0) ""
    if c.needMambaBlockAlignedSplit then
      let numNewTokens := mambaBlockAlignedSplit c request numNewTokens numNewLocalComputedTokens
      .ok (if numNewTokens = 0 then none else some numNewTokens)
    else
      .ok (some numNewTokens)

def asAdmitted (request : Request H) (numComputedTokens : Int) : Request H :=
  { request with
    status := .running
    numComputedTokens
    numCachedTokens :=
      if request.numCachedTokens < 0 then numComputedTokens else request.numCachedTokens }

def addLora (request : Request H) : List Nat :=
  match st.scheduler.config.maxLoras, request.loraRequest with
  | some _, some lora => st.scheduledLoras.insert lora.loraIntId
  | _, _ => st.scheduledLoras

def moveToRunning (requestId : ReqId) (request : Request H)
    (numNewTokens numComputedTokens : Int) : ScheduleState H :=
  let s := (popWaiting st).scheduler.setRequest requestId (asAdmitted request numComputedTokens)
  { st with
    scheduler := { s with running := st.scheduler.running ++ [requestId] }
    scheduledLoras := addLora st request
    reqToNewBlocks := OrderedDict.set st.reqToNewBlocks requestId
      (st.scheduler.kvCacheManager.blocksOf requestId)
    numScheduledTokens := OrderedDict.set st.numScheduledTokens requestId numNewTokens
    tokenBudget := st.tokenBudget - numNewTokens }

/-- The request is new or resumed, by its status. -/
def scheduleWaitingRequest (requestId : ReqId) (request : Request H)
    (numNewTokens numComputedTokens : Int) : Except Exn (ScheduleState H) :=
  let st := moveToRunning st requestId request numNewTokens numComputedTokens
  match request.status with
  | .waiting => .ok { st with scheduledNewReqs := st.scheduledNewReqs ++ [requestId] }
  | .preempted => .ok { st with scheduledResumedReqs := st.scheduledResumedReqs ++ [requestId] }
  | status => .error (.runtimeError s!"Invalid request status: {status.name}")

/-- Whether the head of the queue is admitted, or the loop ends. -/
def admitWaiting (requestId : ReqId) (request : Request H) :
    Except Exn (ScheduleState H × Bool) := do
  let (newComputedBlocks, numNewLocalComputedTokens, numComputedTokens) ←
    st.scheduler.waitingComputed request
  match ← numNewWaitingTokens st.scheduler.config request numNewLocalComputedTokens
      numComputedTokens st.tokenBudget with
  | none => .ok (st, false)
  | some numNewTokens => do
      let (newBlocks, kv) ← st.scheduler.kvCacheManager.allocateSlots
        { request
          numNewTokens
          numNewComputedTokens := numNewLocalComputedTokens
          newComputedBlocks
          numLookaheadTokens :=
            if request.numComputedTokens = 0 then 0 else st.scheduler.config.numLookaheadTokens }
      match newBlocks with
      | none => .ok (st.withKv kv, false)
      | some _ => do
          let st ← scheduleWaitingRequest (st.withKv kv) requestId request numNewTokens
            numComputedTokens
          .ok (st, true)

/-- The second loop of `schedule`, over the waiting requests. `grammarReady` says whose grammar
is compiled. -/
def scheduleWaiting (grammarReady : ReqId → Bool) :
    Nat → ScheduleState H → Except Exn (ScheduleState H)
  | 0, _ => .error .outOfFuel
  | fuel + 1, st =>
    match st.scheduler.waiting with
    | [] => .ok st
    | requestId :: _ =>
      if st.tokenBudget ≤ 0 ∨ st.scheduler.running.length = st.scheduler.config.maxNumRunningReqs
      then
        .ok st
      else do
        let request ← st.scheduler.getRequest requestId
        if request.status = .waitingForFsm ∧ grammarReady requestId = false then
          scheduleWaiting grammarReady fuel (skipWaiting st requestId)
        else if request.status = .waitingForStreamingReq then do
          require (request.streamingQueue.getD [] = []) ""
          scheduleWaiting grammarReady fuel (skipWaiting st requestId)
        else do
          let request : Request H :=
            if request.status = .waitingForFsm then { request with status := .waiting }
            else request
          let st := st.withRequest requestId request
          if exceedsMaxLoras st request = true then
            scheduleWaiting grammarReady fuel (skipWaiting st requestId)
          else do
            let (st, admitted) ← admitWaiting st requestId request
            if admitted = true then scheduleWaiting grammarReady fuel st else .ok st

/-- What was put aside is the head of the queue again. -/
def restoreSkipped : ScheduleState H :=
  { st with
    scheduler := { st.scheduler with
      waiting := st.scheduler.queuePrependAll st.scheduler.waiting st.skippedWaitingRequests }
    skippedWaitingRequests := [] }

/-- The checks at the end of `schedule`. -/
def checkSchedule : Except Exn Unit := do
  let c := st.scheduler.config
  require ((st.numScheduledTokens.map Prod.snd).sum ≤ c.maxNumScheduledTokens) ""
  require (st.tokenBudget ≥ 0) ""
  require (st.scheduler.running.length ≤ c.maxNumRunningReqs) ""
  require (st.scheduledNewReqs.length + st.scheduledResumedReqs.length +
    st.scheduledRunningReqs.length ≤ st.scheduler.running.length) ""

def makeNewRequestData (requestId : ReqId) : Except Exn NewRequestData := do
  let request ← st.scheduler.getRequest requestId
  .ok { reqId := requestId
        promptTokenIds := request.promptTokenIds
        blockIds := (OrderedDict.get st.reqToNewBlocks requestId).getD fun _ => []
        numComputedTokens := request.numComputedTokens }

/-- One entry of `_make_cached_request_data`. -/
def makeCachedRequestData (resumed : Bool) (requestId : ReqId) : Except Exn CachedRequestData := do
  let request ← st.scheduler.getRequest requestId
  require (resumed = false ∨ requestId ∉ st.scheduler.prevStepScheduledReqIds) ""
  let newBlocks := (OrderedDict.get st.reqToNewBlocks requestId).getD fun _ => []
  .ok { reqId := requestId
        resumed
        newBlockIds :=
          if st.scheduler.kvCacheManager.NoBlocks newBlocks then none else some newBlocks
        numComputedTokens := request.numComputedTokens
        numOutputTokens := request.numOutputTokens + request.numOutputPlaceholders }

def makeSchedulerOutput : Except Exn SchedulerOutput := do
  let scheduledNewReqs ← st.scheduledNewReqs.mapM (makeNewRequestData st)
  let runningData ← st.scheduledRunningReqs.mapM (makeCachedRequestData st false)
  let resumedData ← st.scheduledResumedReqs.mapM (makeCachedRequestData st true)
  .ok { scheduledNewReqs
        scheduledCachedReqs := runningData ++ resumedData
        numScheduledTokens := st.numScheduledTokens
        totalNumScheduledTokens := (st.numScheduledTokens.map Prod.snd).sum
        scheduledSpecDecodeTokens := st.scheduledSpecDecodeTokens
        preemptedReqIds := st.preemptedReqs
        finishedReqIds := st.scheduler.finishedReqIds }

/-- What `Scheduler._update_after_schedule` does to one scheduled request. -/
def advance (request : Request H) (numScheduledToken : Int) : Request H :=
  let numComputedTokens := request.numComputedTokens + numScheduledToken
  { request with
    numComputedTokens
    isPrefillChunk := numComputedTokens < request.numTokens + request.numOutputPlaceholders }

/-- What `AsyncScheduler._update_after_schedule` adds: the tokens the step will generate, and
placeholders for the drafts of the next step. -/
def addPlaceholders (c : SchedulerConfig H) (numDrafts : Nat) (request : Request H) : Request H :=
  if request.isPrefillChunk then
    request
  else
    { request with
      numOutputPlaceholders := request.numOutputPlaceholders + 1 + numDrafts
      specTokenIds := List.replicate c.numSpecTokens (-1) }

variable (out : SchedulerOutput)

def forScheduled (f : ReqId → Int → Request H → Request H) : Except Exn (Scheduler H) :=
  out.numScheduledTokens.foldlM (fun s item => do
    let request ← s.getRequest item.1
    .ok (s.setRequest item.1 (f item.1 item.2 request))) s

/-- `_update_after_schedule`: the tokens count as computed. -/
def updateAfterSchedule : Except Exn (Scheduler H) := do
  let s ← s.forScheduled out fun _ numScheduledToken request => advance request numScheduledToken
  let s := { s with finishedReqIds := [] }
  if s.config.asyncScheduling then
    s.forScheduled out fun requestId _ request =>
      addPlaceholders s.config
        ((OrderedDict.get out.scheduledSpecDecodeTokens requestId).getD []).length request
  else
    .ok s

/-- The two loops of `schedule`. -/
def scheduleLoops (grammarReady : ReqId → Bool) : Except Exn (ScheduleState H) := do
  let st ← scheduleRunning (s.running.length + 1)
    { scheduler := s, tokenBudget := s.config.maxNumScheduledTokens }
  let st ← recordLoras st
  if st.preemptedReqs = [] then
    scheduleWaiting grammarReady (st.scheduler.waiting.length + 1) st
  else
    .ok st

/-- One step of the scheduler. -/
def schedule (grammarReady : ReqId → Bool) : Except Exn (SchedulerOutput × Scheduler H) := do
  let st ← s.scheduleLoops grammarReady
  let st := restoreSkipped st
  checkSchedule st
  let out ← makeSchedulerOutput st
  let s := { st.scheduler with prevStepScheduledReqIds := OrderedDict.keys out.numScheduledTokens }
  let s ← s.updateAfterSchedule out
  .ok (out, s)

/-- `_free_request` and `_free_blocks`. -/
def freeRequest (requestId : ReqId) : Except Exn (Scheduler H) := do
  let request ← s.getRequest requestId
  require (request.isFinished = true) ""
  let kv ← s.kvCacheManager.free requestId
  .ok { s with
    kvCacheManager := kv
    finishedReqIds := s.finishedReqIds.insert requestId
    requests := Function.update s.requests requestId none }

def updateRequestAsSession (requestId : ReqId) (session : Request H)
    (update : StreamingUpdate) : Except Exn (Scheduler H) := do
  let updated ← session.updateAsSession s.config.blockHasher update
  .ok { s.setRequest requestId updated with
    numWaitingForStreamingInput :=
      if session.status = .waitingForStreamingReq then s.numWaitingForStreamingInput - 1
      else s.numWaitingForStreamingInput }

/-- `_handle_stopped_request`: whether the request is finished. -/
def handleStoppedRequest (requestId : ReqId) (request : Request H) :
    Except Exn (Bool × Scheduler H) :=
  if request.resumable = false then
    .ok (true, s.setRequest requestId request)
  else
    match request.streamingQueue.getD [] with
    | none :: rest =>
      .ok (true, s.setRequest requestId { request with streamingQueue := some rest })
    | some update :: rest => do
        let s ← s.updateRequestAsSession requestId { request with streamingQueue := some rest }
          update
        .ok (false, { s with waiting := s.queueAdd s.waiting requestId })
    | [] =>
      let s := { s.setRequest requestId { request with status := .waitingForStreamingReq } with
        numWaitingForStreamingInput := s.numWaitingForStreamingInput + 1 }
      .ok (false, { s with waiting := s.queueAdd s.waiting requestId })

/-- The loop of `_update_request_with_output`: tokens are appended up to the first stop. It
returns the tokens that were appended and whether the request stopped. -/
def appendTokens (c : SchedulerConfig H) (request : Request H) :
    List Token → List Token × Bool × Request H
  | [] => ([], false, request)
  | tokenId :: tokenIds =>
    let request := request.appendOutputTokenIds c.blockHasher [tokenId]
    match request.checkStop c.maxModelLen with
    | some (status, stopReason) => ([tokenId], true, { request with status, stopReason })
    | none =>
      let (newTokenIds, stopped, request) := appendTokens c request tokenIds
      (tokenId :: newTokenIds, stopped, request)

/-- `_update_request_with_output` of the synchronous and of the asynchronous scheduler. -/
def updateRequestWithOutput (requestId : ReqId) (request : Request H)
    (newTokenIds : List Token) : Except Exn (List Token × Bool × Request H × Scheduler H) :=
  if s.config.asyncScheduling = false then
    let (newTokenIds, stopped, request) := appendTokens s.config request newTokenIds
    .ok (newTokenIds, stopped, request, s.setRequest requestId request)
  else if request.discardLatestAsyncTokens then
    let request := { request with discardLatestAsyncTokens := false }
    .ok ([], false, request, s.setRequest requestId request)
  else do
    let statusBeforeUpdate := request.status
    let (newTokenIds, stopped, request) := appendTokens s.config request newTokenIds
    let request := { request with
      numOutputPlaceholders := request.numOutputPlaceholders - newTokenIds.length }
    require (request.numOutputPlaceholders ≥ 0) ""
    let kv ←
      (if statusBeforeUpdate = .running then
        s.kvCacheManager.cacheBlocks request
          (request.numComputedTokens - request.numOutputPlaceholders)
      else
        .ok s.kvCacheManager)
    .ok (newTokenIds, stopped, request,
      ({ s with kvCacheManager := kv }).setRequest requestId request)

/-- Rejected drafts are not computed. -/
def rollback (request : Request H) (numDraftTokens numGenerated : Nat) : Request H :=
  if numDraftTokens = 0 ∨ numGenerated = 0 then
    request
  else
    let numAccepted : Int := numGenerated - 1
    let numRejected := numDraftTokens - numAccepted
    { request with
      numComputedTokens :=
        if request.numComputedTokens > 0 then request.numComputedTokens - numRejected
        else request.numComputedTokens
      numOutputPlaceholders :=
        if request.numOutputPlaceholders > 0 then request.numOutputPlaceholders - numRejected
        else request.numOutputPlaceholders }

/-- The local variables of `update_from_output`. -/
structure UpdateState (H : Type) where
  scheduler : Scheduler H
  stoppedRunningReqs : List ReqId := []
  stoppedPreemptedReqs : List ReqId := []
  outputs : List EngineCoreOutput := []

def markStopped (u : UpdateState H) (requestId : ReqId) (statusBeforeStop : RequestStatus) :
    UpdateState H :=
  if statusBeforeStop = .running then
    { u with stoppedRunningReqs := u.stoppedRunningReqs.insert requestId }
  else
    { u with stoppedPreemptedReqs := u.stoppedPreemptedReqs.insert requestId }

def finishStopped (u : UpdateState H) (requestId : ReqId) (request : Request H)
    (statusBeforeStop : RequestStatus) : Except Exn (UpdateState H) := do
  let (finished, s) ← u.scheduler.handleStoppedRequest requestId request
  let s ← (if finished = true then s.freeRequest requestId else .ok s)
  .ok (markStopped { u with scheduler := s } requestId statusBeforeStop)

/-- The body of the loop of `update_from_output`, for a request that is not finished. -/
def updateRequest (u : UpdateState H) (requestId : ReqId) (request : Request H)
    (scheduledSpecTokenIds generatedTokenIds : List Token) : Except Exn (UpdateState H) := do
  let request := rollback request scheduledSpecTokenIds.length generatedTokenIds.length
  let (newTokenIds, stopped, request', s) ←
    (if generatedTokenIds = [] then
      .ok ([], false, request, u.scheduler.setRequest requestId request)
    else
      u.scheduler.updateRequestWithOutput requestId request generatedTokenIds)
  let u' ←
    (if stopped = true then
      finishStopped { u with scheduler := s } requestId request' request.status
    else
      .ok { u with scheduler := s })
  .ok (if newTokenIds = [] ∧ stopped = false then
    u'
  else
    { u' with
      outputs := u'.outputs ++
        [⟨requestId, newTokenIds, if stopped then some request'.status else none⟩] })

/-- `ModelRunnerOutput`: the sampled tokens of each request. -/
abbrev ModelRunnerOutput := ReqId → List Token

/-- One round of the loop of `update_from_output`. -/
def updateItem (sampled : ModelRunnerOutput) (u : UpdateState H)
    (item : ReqId × Int) : Except Exn (UpdateState H) := do
  require (item.2 > 0) ""
  match u.scheduler.requests item.1 with
  | none => .ok u
  | some request =>
    if request.isFinished = true then
      .ok u
    else
      updateRequest u item.1 request
        ((OrderedDict.get out.scheduledSpecDecodeTokens item.1).getD []) (sampled item.1)

def removeStopped (u : UpdateState H) : Scheduler H :=
  let s := { u.scheduler with running := removeAll u.scheduler.running u.stoppedRunningReqs }
  if u.stoppedPreemptedReqs = [] then s
  else { s with waiting := s.queueRemove s.waiting u.stoppedPreemptedReqs }

/-- `update_from_output`, with one item for each scheduled request. -/
def updateFromOutput (sampled : ModelRunnerOutput) :
    Except Exn (List EngineCoreOutput × Scheduler H) := do
  let u ← out.numScheduledTokens.foldlM (updateItem out sampled) { scheduler := s }
  .ok (u.outputs, removeStopped u)

/-- What `update_draft_token_ids` does for one request. `validateTokens` stands for the grammar
of a structured output request, which keeps the drafts it accepts. -/
def updateDraft (validateTokens : ReqId → List Token → List Token) (s : Scheduler H)
    (item : ReqId × List Token) : Scheduler H :=
  match s.requests item.1 with
  | none => s
  | some request =>
    if request.isFinished then
      s
    else if request.isPrefillChunk then
      s.setRequest item.1 { request with specTokenIds := [] }
    else
      s.setRequest item.1 { request with specTokenIds := validateTokens item.1 item.2 }

def updateDraftTokenIds (validateTokens : ReqId → List Token → List Token)
    (draftTokenIds : List (ReqId × List Token)) : Scheduler H :=
  draftTokenIds.foldl (updateDraft validateTokens) s

/-- One request of the second pass of `finish_requests`. -/
def finishRequest (finishedStatus : RequestStatus) (s : Scheduler H) (requestId : ReqId) :
    Except Exn (Scheduler H) := do
  let request ← s.getRequest requestId
  (s.setRequest requestId { request with status := finishedStatus }).freeRequest requestId

/-- The requests that `finish_requests` finds, of a set of ids. -/
def validRequests (requestIds : List ReqId) : List ReqId :=
  requestIds.dedup.filter fun requestId =>
    match s.requests requestId with
    | none => false
    | some request => !request.isFinished

def hasStatus (status : RequestStatus) (requestId : ReqId) : Bool :=
  (s.requests requestId).any fun request => request.status = status

/-- `finish_requests`, called when a client aborts. -/
def finishRequests (requestIds : List ReqId) (finishedStatus : RequestStatus) :
    Except Exn (Scheduler H) := do
  require (finishedStatus.isFinished = true) ""
  let valid := s.validRequests requestIds
  let runningToRemove := valid.filter (s.hasStatus .running)
  let waitingToRemove := valid.filter fun requestId => !s.hasStatus .running requestId
  let numStreaming := (waitingToRemove.filter (s.hasStatus .waitingForStreamingReq)).length
  let s := { s with
    numWaitingForStreamingInput := s.numWaitingForStreamingInput - numStreaming
    running := removeAll s.running runningToRemove
    waiting := if waitingToRemove = [] then s.waiting else s.queueRemove s.waiting waitingToRemove }
  valid.foldlM (finishRequest finishedStatus) s

/-- `add_request`: a known id is the next input of a streaming session. -/
def addRequest (request : Request H) : Except Exn (Scheduler H) :=
  match s.requests request.requestId with
  | some existing =>
    let update := request.toStreamingUpdate
    if existing.status ≠ .waitingForStreamingReq then
      match existing.streamingQueue with
      | none => .error (.assertionError "duplicate request id")
      | some queue =>
        .ok (s.setRequest request.requestId
          { existing with streamingQueue := some (queue ++ [update]) })
    else
      match update with
      | some update => s.updateRequestAsSession request.requestId existing update
      | none => s.finishRequests [request.requestId] .finishedAborted
  | none =>
    let request :=
      if request.resumable then { request with streamingQueue := some [] } else request
    let s := s.setRequest request.requestId request
    .ok { s with waiting := s.queueAdd s.waiting request.requestId }

def discardLatest (request : Request H) : Request H :=
  { request with numOutputPlaceholders := 0, discardLatestAsyncTokens := true }

/-- One round of the loop of `reset_prefix_cache` that preempts the running requests, where
`requestId` is the last of them. -/
def preemptLast (requestId : ReqId) : Except Exn (Scheduler H) := do
  let s ← { s with running := s.running.dropLast }.preemptRequest requestId
  let request ← s.getRequest requestId
  .ok (s.setRequest requestId (discardLatest request))

/-- `reset_prefix_cache`, without a KV connector. -/
def resetPrefixCache (resetRunningRequests : Bool) : Except Exn (Bool × Scheduler H) := do
  let s ←
    (if resetRunningRequests = true then do
      let s ← s.running.reverse.foldlM preemptLast s
      .ok { s with prevStepScheduledReqIds := [] }
    else
      .ok s)
  let (successful, kv) := s.kvCacheManager.resetPrefixCache
  if resetRunningRequests = true ∧ successful = false then
    .error (.runtimeError
      ("Failed to reset KV cache even when all the running requests are " ++
        "preempted and moved to the waiting queue. This is likely due to " ++
        "the presence of running requests waiting for remote KV transfer, " ++
        "which is not supported yet."))
  else
    .ok (successful, { s with kvCacheManager := kv })

end Scheduler

end LongCtxSpecDecode
