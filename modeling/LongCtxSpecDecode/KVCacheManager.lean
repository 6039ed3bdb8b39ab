import LongCtxSpecDecode.SingleTypeKVCacheManager

/-!
# The KV cache manager

`KVCacheManager` of `v1/core/kv_cache_manager.py` with the coordinator it delegates to: one
block pool, and one single-type manager for each KV cache group.
-/

namespace LongCtxSpecDecode

/-- `KVCacheBlocks`: the blocks of each KV cache group. -/
abbrev KVCacheBlocks := Nat → List Nat

/-- `KVCacheManager` with its coordinator. -/
structure KVCacheManager (H : Type) where
  blockPool : BlockPool H
  numKvCacheGroups : Nat
  singleTypeManagers : Nat → SingleTypeKVCacheManager
  maxModelLen : Nat
  useEagle : Bool := false

namespace KVCacheManager

variable {H : Type}

/-- `KVCacheManager.__init__` for the given groups; the pool decides whether blocks are
cached. -/
def init (kvCacheGroups : List KVCacheSpec) (numBlocks maxModelLen hashBlockSize : Nat)
    (enableCaching useEagle enableKvCacheEvents : Bool) : Except Exn (KVCacheManager H) := do
  let blockPool ← BlockPool.init numBlocks enableCaching hashBlockSize enableKvCacheEvents
  .ok { blockPool, numKvCacheGroups := kvCacheGroups.length
        singleTypeManagers := fun g =>
          { kvCacheSpec := kvCacheGroups.getD g ⟨1, .fullAttention, by decide, trivial⟩ }
        maxModelLen, useEagle }

variable (kv : KVCacheManager H)

def enableCaching : Bool := kv.blockPool.enableCaching

/-- Whether `create_kv_cache_blocks` gives the shared empty object for these blocks. -/
def NoBlocks (blocks : KVCacheBlocks) : Prop :=
  ∀ g < kv.numKvCacheGroups, blocks g = []

instance (kv : KVCacheManager H) (blocks : KVCacheBlocks) : Decidable (kv.NoBlocks blocks) :=
  inferInstanceAs (Decidable (∀ g < kv.numKvCacheGroups, blocks g = []))

def blocksOf (requestId : ReqId) (g : Nat) : List Nat :=
  (kv.singleTypeManagers g).blocksOf requestId

/-- Run a method of the manager of group `g`. -/
def onGroup (g : Nat)
    (f : SingleTypeKVCacheManager → BlockPool H →
      Except Exn (SingleTypeKVCacheManager × BlockPool H)) :
    Except Exn (KVCacheManager H) := do
  let (m, p) ← f (kv.singleTypeManagers g) kv.blockPool
  .ok { kv with
    blockPool := p
    singleTypeManagers := Function.update kv.singleTypeManagers g m }

/-- The loop over the managers of the groups, which share the pool. -/
def forGroups
    (f : Nat → SingleTypeKVCacheManager → BlockPool H →
      Except Exn (SingleTypeKVCacheManager × BlockPool H)) :
    Except Exn (KVCacheManager H) :=
  (List.range kv.numKvCacheGroups).foldlM (fun kv g => kv.onGroup g (f g)) kv

def getNumBlocksToAllocate (requestId : ReqId) (numTokens : Int)
    (newComputedBlocks : KVCacheBlocks) (totalComputedTokens numTokensMainModel : Int) :
    Except Exn Int :=
  (List.range kv.numKvCacheGroups).foldlM (fun numBlocksToAllocate g => do
    let n ← (kv.singleTypeManagers g).getNumBlocksToAllocate kv.blockPool requestId numTokens
      (newComputedBlocks g) totalComputedTokens numTokensMainModel
    .ok (numBlocksToAllocate + n)) 0

variable [DecidableEq H]

def removeSkippedBlocks (requestId : ReqId) (totalComputedTokens : Int) :
    Except Exn (KVCacheManager H) :=
  kv.forGroups fun _ m p => m.removeSkippedBlocks p requestId totalComputedTokens

def allocateNewComputedBlocks (requestId : ReqId) (newComputedBlocks : KVCacheBlocks)
    (numLocalComputedTokens numExternalComputedTokens : Int) : Except Exn (KVCacheManager H) :=
  kv.forGroups fun g m p => m.allocateNewComputedBlocks p requestId (newComputedBlocks g)
    numLocalComputedTokens numExternalComputedTokens

/-- `KVCacheCoordinator.allocate_new_blocks`: the new blocks of each group. -/
def allocateNewBlocks (requestId : ReqId) (numTokens numTokensMainModel : Int) :
    Except Exn (KVCacheBlocks × KVCacheManager H) :=
  (List.range kv.numKvCacheGroups).foldlM (fun (newBlocks, kv) g => do
    let (blocks, m, p) ← (kv.singleTypeManagers g).allocateNewBlocks kv.blockPool requestId
      numTokens numTokensMainModel
    .ok (Function.update newBlocks g blocks,
      { kv with
        blockPool := p
        singleTypeManagers := Function.update kv.singleTypeManagers g m }))
    (fun _ => [], kv)

/-- `KVCacheCoordinator.cache_blocks`. -/
def coordinatorCacheBlocks (request : Request H) (numComputedTokens : Int) :
    Except Exn (KVCacheManager H) :=
  kv.forGroups fun g m p => m.cacheBlocks p g request numComputedTokens

def cacheBlocks (request : Request H) (numComputedTokens : Int) : Except Exn (KVCacheManager H) :=
  if kv.enableCaching then kv.coordinatorCacheBlocks request numComputedTokens else .ok kv

def free (requestId : ReqId) : Except Exn (KVCacheManager H) :=
  kv.forGroups fun _ m p => m.free p requestId

def evictBlocks (blockIds : List Nat) : Except Exn (KVCacheManager H) := do
  let blockPool ← kv.blockPool.evictBlocks blockIds
  .ok { kv with blockPool }

def resetPrefixCache : Bool × KVCacheManager H :=
  (kv.blockPool.resetPrefixCache.1, { kv with blockPool := kv.blockPool.resetPrefixCache.2 })

/-- The arguments of `allocate_slots`; `new_computed_blocks` may be left out, which is the
same as passing no blocks. Encoder tokens are for cross attention, which is not modelled. -/
structure AllocateArgs (H : Type) where
  request : Request H
  numNewTokens : Int
  numNewComputedTokens : Int := 0
  newComputedBlocks : KVCacheBlocks := fun _ => []
  numLookaheadTokens : Int := 0
  numExternalComputedTokens : Int := 0
  delayCacheBlocks : Bool := false

namespace AllocateArgs

def numLocalComputedTokens (a : AllocateArgs H) : Int :=
  a.request.numComputedTokens + a.numNewComputedTokens

def totalComputedTokens (a : AllocateArgs H) (maxModelLen : Nat) : Int :=
  min (a.numLocalComputedTokens + a.numExternalComputedTokens) maxModelLen

/-- `num_tokens_main_model`. -/
def numTokensMainModel (a : AllocateArgs H) (maxModelLen : Nat) : Int :=
  a.totalComputedTokens maxModelLen + a.numNewTokens

/-- `num_tokens_need_slot`, with the lookahead tokens. -/
def numTokensNeedSlot (a : AllocateArgs H) (maxModelLen : Nat) : Int :=
  min (a.numTokensMainModel maxModelLen + a.numLookaheadTokens) maxModelLen

end AllocateArgs

variable (kv : KVCacheManager H)

/-- The first part of `allocate_slots`: skipped blocks are freed and the number of blocks to
allocate is computed. -/
def prepareSlots (a : AllocateArgs H) : Except Exn (Int × KVCacheManager H) :=
  if a.numNewTokens = 0 ∧ a.numExternalComputedTokens = 0 then
    .error (.valueError
      "num_new_tokens must be greater than 0 when there are no external computed tokens")
  else do
    let kv ← kv.removeSkippedBlocks a.request.requestId (a.totalComputedTokens kv.maxModelLen)
    let numBlocksToAllocate ← kv.getNumBlocksToAllocate a.request.requestId
      (a.numTokensNeedSlot kv.maxModelLen) a.newComputedBlocks
      (a.numLocalComputedTokens + a.numExternalComputedTokens)
      (a.numTokensMainModel kv.maxModelLen)
    .ok (numBlocksToAllocate, kv)

/-- The second part of `allocate_slots`: computed blocks are touched and new blocks are
allocated. -/
def takeSlots (a : AllocateArgs H) : Except Exn (KVCacheBlocks × KVCacheManager H) := do
  let kv ←
    (if ¬ kv.NoBlocks a.newComputedBlocks ∨ a.numExternalComputedTokens > 0 then
      kv.allocateNewComputedBlocks a.request.requestId a.newComputedBlocks
        a.numLocalComputedTokens a.numExternalComputedTokens
    else
      .ok kv)
  kv.allocateNewBlocks a.request.requestId (a.numTokensNeedSlot kv.maxModelLen)
    (a.numTokensMainModel kv.maxModelLen)

/-- The last part of `allocate_slots`: full blocks of final tokens are cached. -/
def publishSlots (a : AllocateArgs H) : Except Exn (KVCacheManager H) :=
  if kv.enableCaching = false ∨ a.delayCacheBlocks = true then
    .ok kv
  else
    kv.coordinatorCacheBlocks a.request
      (min (a.totalComputedTokens kv.maxModelLen + a.numNewTokens) a.request.numTokens)

/-- `allocate_slots`; nothing is returned if there are too few blocks. -/
def allocateSlots (a : AllocateArgs H) : Except Exn (Option KVCacheBlocks × KVCacheManager H) := do
  let (numBlocksToAllocate, kv) ← kv.prepareSlots a
  if numBlocksToAllocate > kv.blockPool.getNumFreeBlocks then
    .ok (none, kv)
  else do
    let (newBlocks, kv) ← kv.takeSlots a
    let kv ← kv.publishSlots a
    .ok (some newBlocks, kv)

end KVCacheManager

end LongCtxSpecDecode
