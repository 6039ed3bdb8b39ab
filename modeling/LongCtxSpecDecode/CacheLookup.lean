import LongCtxSpecDecode.KVCacheManager

/-!
# Prefix cache lookup

`find_longest_cache_hit` of the managers in `v1/core/single_type_kv_cache_manager.py` and of the
coordinators, and `get_computed_blocks` of the KV cache manager. Where the source keeps one list of
blocks for each group, an entry here holds one block for each of the groups looked up together.
-/

namespace LongCtxSpecDecode

variable {H : Type}

def cachedPrefix (p : BlockPool H) (groupIds : List Nat) : List (List H) → List (List Nat)
  | [] => []
  | blockHash :: blockHashes =>
    match p.getCachedBlock blockHash groupIds with
    | some cachedBlock => cachedBlock :: cachedPrefix p groupIds blockHashes
    | none => []

def alignDown (blockSize alignmentTokens : Nat) : Nat → Nat
  | 0 => 0
  | n + 1 =>
    if blockSize ≠ alignmentTokens ∧ (n + 1) * blockSize % alignmentTokens ≠ 0 then
      alignDown blockSize alignmentTokens n
    else
      n + 1

/-- `FullAttentionManager.find_longest_cache_hit`. -/
def fullAttentionHit (p : BlockPool H) (groupIds : List Nat) (blockHashes : List (List H))
    (maxNumBlocks blockSize alignmentTokens : Nat) (useEagle : Bool) : List (List Nat) :=
  let computedBlocks := cachedPrefix p groupIds (blockHashes.take maxNumBlocks)
  -- the last matched block is dropped for eagle
  let computedBlocks := if useEagle then computedBlocks.dropLast else computedBlocks
  computedBlocks.take (alignDown blockSize alignmentTokens computedBlocks.length)

/-- The loop of `SlidingWindowManager.find_longest_cache_hit`, from right to left. It returns
whether a match was found, the blocks and how many of them are contiguous. -/
def slidingWindowScan (p : BlockPool H) (groupIds : List Nat) (blockHashes : List (List H))
    (blockSize alignmentTokens : Nat) (contiguousBlocks : Int) :
    Nat → List (List Nat) → Nat → Except Exn (Bool × List (List Nat) × Nat)
  | 0, computedBlocks, numContiguousBlocks => .ok (false, computedBlocks, numContiguousBlocks)
  | i + 1, computedBlocks, numContiguousBlocks =>
    match blockHashes[i]? with
    | none => .error (.indexError "list index out of range")
    | some blockHash =>
      match p.getCachedBlock blockHash groupIds with
      | none =>
        slidingWindowScan p groupIds blockHashes blockSize alignmentTokens contiguousBlocks i
          computedBlocks 0
      | some cachedBlock =>
        if numContiguousBlocks = 0 ∧ blockSize ≠ alignmentTokens ∧
            (i + 1) * blockSize % alignmentTokens ≠ 0 then
          slidingWindowScan p groupIds blockHashes blockSize alignmentTokens
            contiguousBlocks i computedBlocks numContiguousBlocks
        else
          let computedBlocks := computedBlocks.set i cachedBlock
          let numContiguousBlocks := numContiguousBlocks + 1
          if (numContiguousBlocks : Int) ≥ contiguousBlocks then
            -- trailing blocks are trimmed
            .ok (true, computedBlocks.take (i + numContiguousBlocks), numContiguousBlocks)
          else
            slidingWindowScan p groupIds blockHashes blockSize alignmentTokens
              contiguousBlocks i computedBlocks numContiguousBlocks

/-- `SlidingWindowManager.find_longest_cache_hit`. -/
def slidingWindowHit (p : BlockPool H) (groupIds : List Nat) (blockHashes : List (List H))
    (maxNumBlocks blockSize alignmentTokens window : Nat) (useEagle : Bool) :
    Except Exn (List (List Nat)) := do
  let contiguousBlocks := cdiv ((window : Int) - 1) blockSize + if useEagle then 1 else 0
  let (matchFound, computedBlocks, numContiguousBlocks) ←
    slidingWindowScan p groupIds blockHashes blockSize alignmentTokens contiguousBlocks
      maxNumBlocks (List.replicate maxNumBlocks (groupIds.map fun _ => p.nullBlock)) 0
  let computedBlocks :=
    if matchFound then
      computedBlocks
    else
      let computedBlocks := computedBlocks.take numContiguousBlocks
      computedBlocks.take (alignDown blockSize alignmentTokens computedBlocks.length)
  if useEagle = true ∧ computedBlocks ≠ [] then do
    require (blockSize = alignmentTokens) "aligned_length is not compatible with eagle now"
    .ok computedBlocks.dropLast
  else
    .ok computedBlocks

/-- The loop of `ChunkedLocalAttentionManager.find_longest_cache_hit` from block `i` on. -/
def chunkScan (p : BlockPool H) (groupIds : List Nat) (blockHashes : List (List H)) :
    Nat → Nat → Except Exn (List (List Nat))
  | 0, _ => .ok []
  | remaining + 1, i =>
    match blockHashes[i]? with
    | none => .error (.indexError "list index out of range")
    | some blockHash =>
      match p.getCachedBlock blockHash groupIds with
      | none => .ok []
      | some cachedBlock => do
          let rest ← chunkScan p groupIds blockHashes remaining (i + 1)
          .ok (cachedBlock :: rest)

/-- `ChunkedLocalAttentionManager.find_longest_cache_hit`. -/
def chunkedLocalAttentionHit (p : BlockPool H) (groupIds : List Nat)
    (blockHashes : List (List H)) (maxLength : Int) (blockSize alignmentTokens chunk : Nat)
    (useEagle : Bool) : Except Exn (List (List Nat)) := do
  require (useEagle = false)
    "Hybrid KV cache is not supported for eagle + chunked local attention."
  require (blockSize = alignmentTokens)
    ("KV cache groups with different block sizes are not compatible with " ++
      "chunked local attention now")
  let maxNumBlocks := (maxLength / blockSize).toNat
  let localAttentionStartIdx := if maxLength > 0 then maxLength / chunk * chunk else 0
  let startBlock := (localAttentionStartIdx / blockSize).toNat
  let cachedBlocks ← chunkScan p groupIds blockHashes (maxNumBlocks - startBlock) startBlock
  .ok (List.replicate startBlock (groupIds.map fun _ => p.nullBlock) ++ cachedBlocks)

/-- `MambaManager.find_longest_cache_hit`: only the last match counts. -/
def mambaHit (p : BlockPool H) (groupIds : List Nat) (blockHashes : List (List H))
    (blockSize alignmentTokens : Nat) : Nat → Except Exn (List (List Nat))
  | 0 => .ok []
  | i + 1 =>
    match blockHashes[i]? with
    | none => .error (.indexError "list index out of range")
    | some blockHash =>
      match p.getCachedBlock blockHash groupIds with
      | none => mambaHit p groupIds blockHashes blockSize alignmentTokens i
      | some cachedBlock =>
        if blockSize ≠ alignmentTokens ∧ (i + 1) * blockSize % alignmentTokens ≠ 0 then
          mambaHit p groupIds blockHashes blockSize alignmentTokens i
        else
          .ok (List.replicate i (groupIds.map fun _ => p.nullBlock) ++ [cachedBlock])

/-- `find_longest_cache_hit` of the manager for the given spec. -/
def KVCacheSpec.findLongestCacheHit (spec : KVCacheSpec) (p : BlockPool H)
    (blockHashes : List (List H)) (maxLength : Int) (groupIds : List Nat) (useEagle : Bool)
    (alignmentTokens : Nat) : Except Exn (List (List Nat)) :=
  let maxNumBlocks := (maxLength / spec.blockSize).toNat
  match spec.layerType with
  | .fullAttention =>
    .ok (fullAttentionHit p groupIds blockHashes maxNumBlocks spec.blockSize alignmentTokens
      useEagle)
  | .slidingWindow window =>
    slidingWindowHit p groupIds blockHashes maxNumBlocks spec.blockSize alignmentTokens window
      useEagle
  | .chunkedLocalAttention chunk =>
    chunkedLocalAttentionHit p groupIds blockHashes maxLength spec.blockSize alignmentTokens
      chunk useEagle
  | .mamba _ _ =>
    mambaHit p groupIds blockHashes spec.blockSize alignmentTokens maxNumBlocks

/-- `KVCacheCoordinator`: the method its subclasses implement, given the state of the manager,
the block hashes of a request and the longest hit allowed. -/
structure KVCacheCoordinator (H : Type) where
  findLongestCacheHit : KVCacheManager H → List H → Int → Except Exn (KVCacheBlocks × Nat)

namespace KVCacheCoordinator

/-- `KVCacheCoordinatorNoPrefixCache`. -/
def noPrefixCache : KVCacheCoordinator H where
  findLongestCacheHit _ _ _ := .ok (fun _ => [], 0)

def getComputedBlocks (coordinator : KVCacheCoordinator H) (kv : KVCacheManager H)
    (request : Request H) : Except Exn (KVCacheBlocks × Int) :=
  if kv.enableCaching = false ∨ request.skipReadingPrefixCache = true then
    .ok (fun _ => [], 0)
  else do
    let (computedBlocks, numNewComputedTokens) ←
      coordinator.findLongestCacheHit kv request.blockHashes (request.numTokens - 1)
    .ok (computedBlocks, numNewComputedTokens)

end KVCacheCoordinator

end LongCtxSpecDecode
