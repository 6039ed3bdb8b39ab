import LongCtxSpecDecode.BlockPool

/-!
# The managers of one KV cache group

`v1/core/single_type_kv_cache_manager.py`, with what the subclasses for full, sliding window,
chunked local and Mamba layers override. The methods take the block pool that all groups share and
return it. One context parallel rank is modelled.
-/

namespace LongCtxSpecDecode

/-- `cdiv`: division rounded up. -/
def cdiv (a : Int) (b : Nat) : Int := -((-a) / b)

/-- The place of an index, which may count from the end. -/
def pyIndex (length : Nat) (i : Int) : Option Nat :=
  if 0 ≤ i then
    if i < length then some i.toNat else none
  else if -(length : Int) ≤ i then
    some (length + i).toNat
  else
    none

inductive MambaCacheMode where
  | none
  | all
  | align
deriving DecidableEq, Repr

/-- The subclasses of `KVCacheSpec`, with the fields their managers read. -/
inductive LayerType where
  | fullAttention
  | slidingWindow (slidingWindow : Nat)
  | chunkedLocalAttention (attentionChunkSize : Nat)
  | mamba (mambaCacheMode : MambaCacheMode) (numSpeculativeBlocks : Nat)
deriving DecidableEq, Repr

def LayerType.Valid : LayerType → Prop
  | .slidingWindow window => 0 < window
  | .chunkedLocalAttention chunk => 0 < chunk
  | .fullAttention | .mamba _ _ => True

instance (layerType : LayerType) : Decidable layerType.Valid :=
  match layerType with
  | .slidingWindow window => inferInstanceAs (Decidable (0 < window))
  | .chunkedLocalAttention chunk => inferInstanceAs (Decidable (0 < chunk))
  | .fullAttention => inferInstanceAs (Decidable True)
  | .mamba _ _ => inferInstanceAs (Decidable True)

/-- The layers of a KV cache group. -/
structure KVCacheSpec where
  blockSize : Nat
  layerType : LayerType
  blockSize_pos : 0 < blockSize
  valid : layerType.Valid

/-- The manager of one KV cache group, for all types of layers. -/
structure SingleTypeKVCacheManager where
  kvCacheSpec : KVCacheSpec
  /-- `req_to_blocks`, a `defaultdict`: a missing request has no blocks. -/
  reqToBlocks : AList (fun _ : ReqId => List Nat) := ∅
  numCachedBlock : ReqId → Option Nat := fun _ => none
  /-- `last_state_block_idx`, used by Mamba layers in align mode. -/
  lastStateBlockIdx : ReqId → Option Int := fun _ => none
  /-- `_allocated_block_reqs`, used by Mamba layers in align mode. -/
  allocatedBlockReqs : ReqId → Bool := fun _ => false

namespace SingleTypeKVCacheManager

variable {H : Type}

variable (m : SingleTypeKVCacheManager)

def blockSize : Nat := m.kvCacheSpec.blockSize

def blocksOf (requestId : ReqId) : List Nat :=
  (m.reqToBlocks.lookup requestId).getD []

def setBlocks (requestId : ReqId) (blocks : List Nat) : SingleTypeKVCacheManager :=
  { m with reqToBlocks := m.reqToBlocks.insert requestId blocks }

def getNumEvictableBlocks (p : BlockPool H) (blocks : List Nat) : Nat :=
  blocks.countP fun b => (p.blocks b).refCnt = 0 ∧ (p.blocks b).isNull = false

/-- The tokens that attention will not read again. -/
def getNumSkippedTokens (numComputedTokens : Int) : Int :=
  match m.kvCacheSpec.layerType with
  | .fullAttention => 0
  | .slidingWindow window => max 0 (numComputedTokens - window + 1)
  | .chunkedLocalAttention chunk => numComputedTokens / chunk * chunk
  | .mamba _ _ => numComputedTokens - 1

/-- `SingleTypeKVCacheManager.get_num_blocks_to_allocate`, for the base class. -/
def getNumBlocksToAllocateBase (p : BlockPool H) (requestId : ReqId) (numTokens : Int)
    (newComputedBlocks : List Nat) (totalComputedTokens : Int) : Except Exn Int :=
  let numRequiredBlocks := cdiv numTokens m.blockSize
  let numReqBlocks : Int := (m.blocksOf requestId).length
  if (m.numCachedBlock requestId).isSome then do
    require (newComputedBlocks.length = 0) ""
    .ok (max (numRequiredBlocks - numReqBlocks) 0)
  else
    let numSkippedTokens := m.getNumSkippedTokens totalComputedTokens
    let numLocalComputedBlocks := newComputedBlocks.length + numReqBlocks
    let numSkippedBlocks := numSkippedTokens / m.blockSize
    let numNewBlocks := max (numRequiredBlocks - max numSkippedBlocks numLocalComputedBlocks) 0
    let numSkippedNewComputedBlocks := max 0 (numSkippedBlocks - numReqBlocks)
    let numEvictableBlocks :=
      getNumEvictableBlocks p (newComputedBlocks.drop numSkippedNewComputedBlocks.toNat)
    .ok (numNewBlocks + numEvictableBlocks)

def getNumBlocksToAllocate (p : BlockPool H) (requestId : ReqId) (numTokens : Int)
    (newComputedBlocks : List Nat) (totalComputedTokens numTokensMainModel : Int) :
    Except Exn Int :=
  match m.kvCacheSpec.layerType with
  | .mamba .align numSpeculativeBlocks =>
    let numRequiredBlocks := cdiv numTokensMainModel m.blockSize + numSpeculativeBlocks
    let numNewBlocks := numRequiredBlocks - newComputedBlocks.length -
      (m.blocksOf requestId).length
    let numNewBlocks : Int :=
      if numNewBlocks > 0 then
        if m.allocatedBlockReqs requestId then
          -- the speculative blocks of the previous step are reused
          1
        else
          1 + numSpeculativeBlocks
      else
        numNewBlocks
    .ok (numNewBlocks + getNumEvictableBlocks p newComputedBlocks)
  | .mamba _ numSpeculativeBlocks =>
    let numTokens :=
      if numSpeculativeBlocks > 0 then
        numTokens + m.blockSize * numSpeculativeBlocks
      else
        numTokens
    m.getNumBlocksToAllocateBase p requestId numTokens newComputedBlocks totalComputedTokens
  | _ => m.getNumBlocksToAllocateBase p requestId numTokens newComputedBlocks totalComputedTokens

variable [DecidableEq H]

def touchComputedBlocks (p : BlockPool H) (newComputedBlocks : List Nat) :
    Except Exn (BlockPool H) :=
  if p.enableCaching then
    p.touch newComputedBlocks
  else do
    require (newComputedBlocks = [])
      "Computed blocks should be empty when prefix caching is disabled"
    .ok p

/-- The blocks of the prefix cache become those of a new request. -/
def allocateNewComputedBlocks (p : BlockPool H) (requestId : ReqId) (newComputedBlocks : List Nat)
    (numLocalComputedTokens numExternalComputedTokens : Int) :
    Except Exn (SingleTypeKVCacheManager × BlockPool H) :=
  if (m.numCachedBlock requestId).isSome then do
    require (newComputedBlocks.length = 0) ""
    .ok (m, p)
  else do
    require ((m.blocksOf requestId).length = 0) ""
    let numTotalComputedTokens := numLocalComputedTokens + numExternalComputedTokens
    let numSkippedTokens := m.getNumSkippedTokens numTotalComputedTokens
    let numSkippedBlocks := numSkippedTokens / m.blockSize
    let (newComputedBlocks, numExternalComputedTokens) :=
      if numSkippedBlocks > 0 then
        (newComputedBlocks.drop numSkippedBlocks.toNat,
          min (numTotalComputedTokens - numSkippedTokens) numExternalComputedTokens)
      else
        (newComputedBlocks, numExternalComputedTokens)
    let p ← touchComputedBlocks p newComputedBlocks
    let reqBlocks := List.replicate numSkippedBlocks.toNat p.nullBlock ++ newComputedBlocks
    let m := { m with
      numCachedBlock := Function.update m.numCachedBlock requestId (some reqBlocks.length) }
    if numExternalComputedTokens > 0 then do
      let (allocatedBlocks, p) ←
        p.getNewBlocks (cdiv numTotalComputedTokens m.blockSize - reqBlocks.length)
      .ok (m.setBlocks requestId (reqBlocks ++ allocatedBlocks), p)
    else
      .ok (m.setBlocks requestId reqBlocks, p)

/-- `SingleTypeKVCacheManager.allocate_new_blocks`, for the base class. -/
def allocateNewBlocksBase (p : BlockPool H) (requestId : ReqId) (numTokens : Int) :
    Except Exn (List Nat × SingleTypeKVCacheManager × BlockPool H) :=
  let reqBlocks := m.blocksOf requestId
  let numNewBlocks := cdiv numTokens m.blockSize - reqBlocks.length
  if numNewBlocks ≤ 0 then
    .ok ([], m.setBlocks requestId reqBlocks, p)
  else do
    let (newBlocks, p) ← p.getNewBlocks numNewBlocks
    .ok (newBlocks, m.setBlocks requestId (reqBlocks ++ newBlocks), p)

/-- The loop of `MambaManager.allocate_new_blocks` that moves the speculative blocks of the
previous step to the end of the list. -/
def reuseBlocks (nullBlock : Nat) (numSkippedBlocks : Int) :
    Nat → Int → List Nat → Except Exn (List Nat)
  | 0, _, reqBlocks => .ok reqBlocks
  | remaining + 1, blockIdx, reqBlocks =>
    if blockIdx < numSkippedBlocks then
      match pyIndex reqBlocks.length blockIdx with
      | none => .error (.indexError "list index out of range")
      | some i =>
        reuseBlocks nullBlock numSkippedBlocks remaining (blockIdx + 1)
          ((reqBlocks ++ [reqBlocks.getD i nullBlock]).set i nullBlock)
    else
      .ok reqBlocks

/-- `MambaManager.allocate_new_blocks` in align mode. -/
def allocateNewBlocksAlign (p : BlockPool H) (requestId : ReqId) (numTokensMainModel : Int)
    (numSpeculativeBlocks : Nat) : Except Exn (List Nat × SingleTypeKVCacheManager × BlockPool H) :=
  let reqBlocks := m.blocksOf requestId
  let numRequiredBlocks := cdiv numTokensMainModel m.blockSize + numSpeculativeBlocks
  if numRequiredBlocks = reqBlocks.length then
    .ok ([], m.setBlocks requestId reqBlocks, p)
  else do
    require (numRequiredBlocks > reqBlocks.length)
      s!"num_required_blocks {numRequiredBlocks} < len(req_blocks) {reqBlocks.length}"
    let prevBlockLen := reqBlocks.length
    let blocksAllocated := m.allocatedBlockReqs requestId
    let lastStateBlockIdx :=
      if blocksAllocated then
        Function.update m.lastStateBlockIdx requestId
          (some ((prevBlockLen : Int) - 1 - numSpeculativeBlocks))
      else if prevBlockLen > 0 then
        Function.update m.lastStateBlockIdx requestId (some ((prevBlockLen : Int) - 1))
      else
        m.lastStateBlockIdx
    let numSkippedBlocks := numRequiredBlocks - numSpeculativeBlocks - 1
    let reqBlocks := reqBlocks ++
      List.replicate (numSkippedBlocks - prevBlockLen).toNat p.nullBlock
    let reqBlocks ← reuseBlocks p.nullBlock numSkippedBlocks
      (if blocksAllocated then numSpeculativeBlocks else 0)
      ((prevBlockLen : Int) - numSpeculativeBlocks) reqBlocks
    let numNewBlocks := numRequiredBlocks - reqBlocks.length
    require (numNewBlocks ≤ if blocksAllocated then 1 else (numSpeculativeBlocks : Int) + 1) ""
    let (newBlocks, p) ← p.getNewBlocks numNewBlocks
    let reqBlocks := reqBlocks ++ newBlocks
    let m := { m with
      lastStateBlockIdx := lastStateBlockIdx
      allocatedBlockReqs := Function.update m.allocatedBlockReqs requestId true }
    .ok (reqBlocks.drop prevBlockLen, m.setBlocks requestId reqBlocks, p)

def allocateNewBlocks (p : BlockPool H) (requestId : ReqId) (numTokens numTokensMainModel : Int) :
    Except Exn (List Nat × SingleTypeKVCacheManager × BlockPool H) :=
  match m.kvCacheSpec.layerType with
  | .mamba .align numSpeculativeBlocks =>
    m.allocateNewBlocksAlign p requestId numTokensMainModel numSpeculativeBlocks
  | .mamba _ numSpeculativeBlocks =>
    let numTokens :=
      if numSpeculativeBlocks > 0 then
        numTokens + m.blockSize * numSpeculativeBlocks
      else
        numTokens
    m.allocateNewBlocksBase p requestId numTokens
  | _ => m.allocateNewBlocksBase p requestId numTokens

/-- `cache_blocks`, for the manager of group `kvCacheGroupId`. -/
def cacheBlocks (p : BlockPool H) (kvCacheGroupId : Nat) (request : Request H) (numTokens : Int) :
    Except Exn (SingleTypeKVCacheManager × BlockPool H) :=
  let numCachedBlocks := (m.numCachedBlock request.requestId).getD 0
  let numFullBlocks := numTokens / m.blockSize
  if (numCachedBlocks : Int) ≥ numFullBlocks then
    .ok (m, p)
  else do
    let blocks := m.blocksOf request.requestId
    let p ← p.cacheFullBlocks request blocks numCachedBlocks numFullBlocks.toNat m.blockSize
      kvCacheGroupId
    let m := { m with
      numCachedBlock :=
        Function.update m.numCachedBlock request.requestId (some numFullBlocks.toNat) }
    .ok (m.setBlocks request.requestId blocks, p)

def free (p : BlockPool H) (requestId : ReqId) :
    Except Exn (SingleTypeKVCacheManager × BlockPool H) := do
  let p ← p.freeBlocks (m.blocksOf requestId).reverse
  .ok ({ m with
    reqToBlocks := m.reqToBlocks.erase requestId
    numCachedBlock := Function.update m.numCachedBlock requestId none
    lastStateBlockIdx := Function.update m.lastStateBlockIdx requestId none
    allocatedBlockReqs := Function.update m.allocatedBlockReqs requestId false }, p)

/-- The loop of `remove_skipped_blocks`: the places before `i` are emptied from the last one
down to the first null block. It returns the removed blocks and the new list. -/
def removeBlocks (nullBlock : Nat) : Nat → List Nat → List Nat × List Nat
  | 0, blocks => ([], blocks)
  | i + 1, blocks =>
    let block := blocks.getD i nullBlock
    if block = nullBlock then
      ([], blocks)
    else
      let (removedBlocks, blocks) := removeBlocks nullBlock i (blocks.set i nullBlock)
      (block :: removedBlocks, blocks)

/-- `SingleTypeKVCacheManager.remove_skipped_blocks`, for the base class. -/
def removeSkippedBlocksBase (p : BlockPool H) (requestId : ReqId) (totalComputedTokens : Int) :
    Except Exn (SingleTypeKVCacheManager × BlockPool H) :=
  let numSkippedTokens := m.getNumSkippedTokens totalComputedTokens
  if numSkippedTokens ≤ 0 then
    .ok (m, p)
  else do
    let blocks := m.blocksOf requestId
    let numSkippedBlocks := min (numSkippedTokens / m.blockSize) blocks.length
    let (removedBlocks, blocks) := removeBlocks p.nullBlock numSkippedBlocks.toNat blocks
    let p ← p.freeBlocks removedBlocks
    .ok (m.setBlocks requestId blocks, p)

/-- What `MambaManager.remove_skipped_blocks` does in align mode after the base class: the
block that held the state two steps ago is freed. -/
def removeLastStateBlock (p : BlockPool H) (requestId : ReqId) (numComputedTokens : Int) :
    Except Exn (SingleTypeKVCacheManager × BlockPool H) :=
  match m.lastStateBlockIdx requestId with
  | none => .ok (m, p)
  | some lastStateBlockIdx =>
    if lastStateBlockIdx < cdiv numComputedTokens m.blockSize - 1 then
      let blocks := m.blocksOf requestId
      match pyIndex blocks.length lastStateBlockIdx with
      | none => .error (.indexError "list index out of range")
      | some i =>
        if blocks.getD i p.nullBlock = p.nullBlock then
          .ok (m.setBlocks requestId blocks, p)
        else do
          let p' ← p.freeBlocks [blocks.getD i p.nullBlock]
          .ok (m.setBlocks requestId (blocks.set i p.nullBlock), p')
    else
      .ok (m, p)

/-- Blocks of skipped tokens are freed, and null blocks are put in their place. -/
def removeSkippedBlocks (p : BlockPool H) (requestId : ReqId) (totalComputedTokens : Int) :
    Except Exn (SingleTypeKVCacheManager × BlockPool H) := do
  let (m, p) ← m.removeSkippedBlocksBase p requestId totalComputedTokens
  match m.kvCacheSpec.layerType with
  | .mamba .align _ => m.removeLastStateBlock p requestId totalComputedTokens
  | _ => .ok (m, p)

end SingleTypeKVCacheManager

end LongCtxSpecDecode
