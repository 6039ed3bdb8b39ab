import LongCtxSpecDecode.FreeBlockQueue
import LongCtxSpecDecode.Request

/-!
# The block pool

`BlockHashToBlockMap` and `BlockPool` of `v1/core/block_pool.py`. Block objects are named
by their ids, and the pool keeps their fields.
-/

namespace LongCtxSpecDecode

/-- The key of a cached block: its hash and its KV cache group. A hash at a coarser
granularity than the hasher's is the concatenation of the hashes it covers, so it is kept
as their list. -/
structure BlockHashWithGroupId (H : Type) where
  blockHash : List H
  groupId : Nat
deriving DecidableEq, Repr

/-- `KVCacheBlock`, without the pointers of the free queue. -/
structure KVCacheBlock (H : Type) where
  refCnt : Int := 0
  blockHash : Option (BlockHashWithGroupId H) := none
  isNull : Bool := false

/-- The value type of `BlockHashToBlockMap`: one block, or a dictionary of blocks by id in
the order of insertion. -/
inductive CachedBlocks where
  | single (block : Nat)
  | dict (blocks : List Nat)
deriving DecidableEq, Repr

def CachedBlocks.ids : CachedBlocks → List Nat
  | single block => [block]
  | dict blocks => blocks

/-- `BlockHashToBlockMap`. -/
structure BlockHashToBlockMap (H : Type) where
  cache : BlockHashWithGroupId H → Option CachedBlocks

namespace BlockHashToBlockMap

variable {H : Type}

def empty : BlockHashToBlockMap H := ⟨fun _ => none⟩

/-- The blocks filed under `key`, in order. -/
def filed (m : BlockHashToBlockMap H) (key : BlockHashWithGroupId H) : List Nat :=
  ((m.cache key).map CachedBlocks.ids).getD []

/-- `get_one_block`: the first block filed under the key. -/
def getOneBlock (m : BlockHashToBlockMap H) (key : BlockHashWithGroupId H) : Option Nat :=
  match m.cache key with
  | none => none
  | some (.single block) => some block
  | some (.dict blocks) => blocks.head?

variable [DecidableEq H]

/-- `self._cache[key] = blocks`, or its removal. -/
def put (m : BlockHashToBlockMap H) (key : BlockHashWithGroupId H)
    (blocks : Option CachedBlocks) : BlockHashToBlockMap H :=
  ⟨Function.update m.cache key blocks⟩

def insert (m : BlockHashToBlockMap H) (key : BlockHashWithGroupId H) (block : Nat) :
    BlockHashToBlockMap H :=
  match m.cache key with
  | none => m.put key (some (.single block))
  | some (.single first) =>
    -- a dictionary display with two equal keys keeps one entry
    m.put key (some (.dict (if first = block then [block] else [first, block])))
  | some (.dict blocks) =>
    m.put key (some (.dict (if block ∈ blocks then blocks else blocks ++ [block])))

/-- `pop`: take out the block filed under the key with the given id, if there is one. -/
def pop (m : BlockHashToBlockMap H) (key : BlockHashWithGroupId H) (blockId : Nat) :
    Option Nat × BlockHashToBlockMap H :=
  match m.cache key with
  | none => (none, m)
  | some (.single block) =>
    if block = blockId then (some block, m.put key none) else (none, m)
  | some (.dict blocks) =>
    let rest := blocks.erase blockId
    (if blockId ∈ blocks then some blockId else none,
      m.put key (if rest.length > 0 then some (.dict rest) else none))

end BlockHashToBlockMap

/-- `KVCacheEvent`: what the pool reports when blocks enter or leave the cache. -/
inductive KVCacheEvent (H : Type) where
  | blockStored (blockHashes : List (List H)) (parentBlockHash : Option (List H))
      (tokenIds : List Token) (blockSize : Nat) (loraId : Option Nat) (loraName : Option String)
  | blockRemoved (blockHashes : List (List H))
  | allBlocksCleared

/-- `BlockPool`. A block is named by its id. -/
structure BlockPool (H : Type) where
  numGpuBlocks : Nat
  enableCaching : Bool
  hashBlockSize : Nat
  blocks : Nat → KVCacheBlock H
  freeBlockQueue : FreeKVCacheBlockQueue
  cachedBlockHashToBlock : BlockHashToBlockMap H
  nullBlock : Nat
  enableKvCacheEvents : Bool
  kvEventQueue : List (KVCacheEvent H)

namespace BlockPool

variable {H : Type}

def modifyBlock (p : BlockPool H) (b : Nat) (f : KVCacheBlock H → KVCacheBlock H) :
    BlockPool H :=
  { p with blocks := Function.update p.blocks b (f (p.blocks b)) }

def record (p : BlockPool H) (event : KVCacheEvent H) : BlockPool H :=
  { p with
    kvEventQueue := if p.enableKvCacheEvents then p.kvEventQueue ++ [event] else p.kvEventQueue }

/-- The first block of the queue becomes the null block. -/
def init (numGpuBlocks : Nat) (enableCaching : Bool) (hashBlockSize : Nat)
    (enableKvCacheEvents : Bool) : Except Exn (BlockPool H) := do
  require (numGpuBlocks > 0) ""
  let (nullBlock, freeBlockQueue) ←
    (FreeKVCacheBlockQueue.init (List.range numGpuBlocks)).popleft
  let pool : BlockPool H :=
    { numGpuBlocks, enableCaching, hashBlockSize, blocks := fun _ => {}, freeBlockQueue,
      cachedBlockHashToBlock := .empty, nullBlock, enableKvCacheEvents, kvEventQueue := [] }
  .ok (pool.modifyBlock nullBlock fun block => { block with isNull := true })

def getNumFreeBlocks (p : BlockPool H) : Int := p.freeBlockQueue.numFreeBlocks

/-- `get_cached_block`: one cached block for each group, or nothing. -/
def getCachedBlock (p : BlockPool H) (blockHash : List H) (kvCacheGroupIds : List Nat) :
    Option (List Nat) :=
  kvCacheGroupIds.mapM fun groupId =>
    p.cachedBlockHashToBlock.getOneBlock ⟨blockHash, groupId⟩

/-- `BlockHashListWithBlockSize`: the hashes at a block size `scaleFactor` times larger. -/
def rechunk (scaleFactor : Nat) (blockHashes : List H) : List (List H) :=
  (List.range (blockHashes.length / scaleFactor)).map fun i =>
    (blockHashes.drop (i * scaleFactor)).take scaleFactor

/-- The block hashes of a request at the granularity `blockSize`. -/
def hashesAt (p : BlockPool H) (blockSize : Nat) (blockHashes : List H) : List (List H) :=
  if blockSize = p.hashBlockSize then
    blockHashes.map fun h => [h]
  else
    rechunk (blockSize / p.hashBlockSize) blockHashes

def parentHash (blockHashes : List (List H)) (numCachedBlocks : Nat) :
    Except Exn (Option (List H)) :=
  if numCachedBlocks = 0 then
    .ok none
  else
    match blockHashes[numCachedBlocks - 1]? with
    | none => .error (.indexError "list index out of range")
    | some parent => .ok (some parent)

variable [DecidableEq H]

/-- The loop of `cache_full_blocks` over the new full blocks and their hashes. It returns
the hashes it filed. -/
def cacheLoop (groupId : Nat) :
    List Nat → List (List H) → BlockPool H → Except Exn (List (List H) × BlockPool H)
  | [], _, p => .ok ([], p)
  | blk :: blks, hashes, p =>
    if (p.blocks blk).isNull then
      -- null blocks are skipped
      cacheLoop groupId blks hashes.tail p
    else do
      require ((p.blocks blk).blockHash = none) ""
      match hashes with
      | [] => .error (.indexError "list index out of range")
      | blockHash :: hashes =>
        let key : BlockHashWithGroupId H := ⟨blockHash, groupId⟩
        let p := p.modifyBlock blk fun block => { block with blockHash := some key }
        let p := { p with
          cachedBlockHashToBlock := p.cachedBlockHashToBlock.insert key blk }
        let (newHashes, p) ← cacheLoop groupId blks hashes p
        .ok (blockHash :: newHashes, p)

/-- `cache_full_blocks`: the new full blocks get their hashes. -/
def cacheFullBlocks (p : BlockPool H) (request : Request H) (blocks : List Nat)
    (numCachedBlocks numFullBlocks blockSize kvCacheGroupId : Nat) :
    Except Exn (BlockPool H) :=
  if numCachedBlocks ≥ numFullBlocks then
    .ok p
  else do
    let newFullBlocks := (blocks.take numFullBlocks).drop numCachedBlocks
    require (request.blockHashes.length ≥ numFullBlocks) ""
    require (blockSize = p.hashBlockSize ∨ blockSize % p.hashBlockSize = 0) ""
    let blockHashes := p.hashesAt blockSize request.blockHashes
    let (newHashes, p) ←
      cacheLoop kvCacheGroupId newFullBlocks (blockHashes.drop numCachedBlocks) p
    if p.enableKvCacheEvents then do
      let parentBlockHash ← parentHash blockHashes numCachedBlocks
      let tokenIds := (request.allTokenIds.take (numFullBlocks * blockSize)).drop
        (numCachedBlocks * blockSize)
      .ok (p.record (.blockStored newHashes parentBlockHash tokenIds blockSize
        (request.loraRequest.map LoRARequest.loraIntId)
        (request.loraRequest.map LoRARequest.loraName)))
    else
      .ok p

/-- `_maybe_evict_cached_block`. -/
def maybeEvictCachedBlock (p : BlockPool H) (block : Nat) : Bool × BlockPool H :=
  match (p.blocks block).blockHash with
  | none => (false, p)
  | some blockHash =>
    match p.cachedBlockHashToBlock.pop blockHash block with
    | (none, m) => (false, { p with cachedBlockHashToBlock := m })
    | (some _, m) =>
      let p := { p with cachedBlockHashToBlock := m }
      let p := p.modifyBlock block fun blk => { blk with blockHash := none }
      (true, p.record (.blockRemoved [blockHash.blockHash]))

/-- The body of the loop of `get_new_blocks`. -/
def takeBlock (p : BlockPool H) (block : Nat) : Except Exn (BlockPool H) := do
  let p := if p.enableCaching then (p.maybeEvictCachedBlock block).2 else p
  require ((p.blocks block).refCnt = 0) ""
  .ok (p.modifyBlock block fun blk => { blk with refCnt := blk.refCnt + 1 })

/-- `get_new_blocks`: cached blocks are evicted as they are taken. -/
def getNewBlocks (p : BlockPool H) (numBlocks : Int) : Except Exn (List Nat × BlockPool H) :=
  if numBlocks > p.getNumFreeBlocks then
    .error (.valueError s!"Cannot get {numBlocks} free blocks from the pool")
  else do
    let (ret, freeBlockQueue) ← p.freeBlockQueue.popleftN numBlocks
    let p ← ret.foldlM takeBlock { p with freeBlockQueue := freeBlockQueue }
    .ok (ret, p)

/-- The body of the loop of `touch`. -/
def touchBlock (p : BlockPool H) (block : Nat) : Except Exn (BlockPool H) := do
  let freeBlockQueue ←
    if (p.blocks block).refCnt = 0 ∧ (p.blocks block).isNull = false then
      p.freeBlockQueue.remove block
    else .ok p.freeBlockQueue
  let p := { p with freeBlockQueue := freeBlockQueue }
  .ok (p.modifyBlock block fun blk => { blk with refCnt := blk.refCnt + 1 })

/-- `touch`: one more reference, and no longer free. -/
def touch (p : BlockPool H) (blocks : List Nat) : Except Exn (BlockPool H) :=
  blocks.foldlM touchBlock p

/-- `block.ref_cnt -= 1` for each listed block. -/
def releaseAll (p : BlockPool H) (blocks : List Nat) : BlockPool H :=
  blocks.foldl (fun p block =>
    p.modifyBlock block fun blk => { blk with refCnt := blk.refCnt - 1 }) p

/-- `free_blocks`, with the block to evict first at the front. -/
def freeBlocks (p : BlockPool H) (orderedBlocks : List Nat) : Except Exn (BlockPool H) := do
  let p := p.releaseAll orderedBlocks
  let freeBlockQueue ← p.freeBlockQueue.appendN
    (orderedBlocks.filter fun block =>
      (p.blocks block).refCnt = 0 ∧ (p.blocks block).isNull = false)
  .ok { p with freeBlockQueue := freeBlockQueue }

/-- The body of the loop of `evict_blocks`. -/
def evictBlock (p : BlockPool H) (blockId : Nat) : Except Exn (BlockPool H) := do
  require (blockId < p.numGpuBlocks)
    (s!"Invalid block_id {blockId} >= {p.numGpuBlocks}. This indicates a bug in the KV " ++
      "connector - workers should only report block IDs that were allocated by the scheduler.")
  .ok (p.maybeEvictCachedBlock blockId).2

/-- `evict_blocks`; the set of ids is listed in the order in which it is visited. -/
def evictBlocks (p : BlockPool H) (blockIds : List Nat) : Except Exn (BlockPool H) :=
  blockIds.foldlM evictBlock p

def resetPrefixCache (p : BlockPool H) : Bool × BlockPool H :=
  if (p.numGpuBlocks : Int) - p.getNumFreeBlocks ≠ 1 then
    (false, p)
  else
    let p := { p with
      cachedBlockHashToBlock := .empty
      blocks := fun b => { p.blocks b with blockHash := none } }
    (true, p.record .allBlocksCleared)

end BlockPool

end LongCtxSpecDecode
