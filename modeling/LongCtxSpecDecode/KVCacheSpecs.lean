import LongCtxSpecDecode.Library.OrderedDict
import LongCtxSpecDecode.SingleTypeKVCacheManager

/-!
# The KV cache specs of the layers

The spec classes of `v1/kv_cache_interface.py`: the size of a page, the memory that one request
can use, and how the specs of several layers are merged into one. `D` is the type of the element
types of tensors, with their sizes in bytes.
-/

namespace LongCtxSpecDecode

open Library

/-- The parts of `VllmConfig` that the sizing of the KV cache reads. -/
structure VllmConfig where
  maxModelLen : Nat
  /-- The value the user gave, `-1` for as long as the memory allows. -/
  originalMaxModelLen : Int
  maxNumBatchedTokens : Nat
  maxNumEncoderInputTokens : Nat
  decodeContextParallelSize : Nat
  prefillContextParallelSize : Nat
  mambaCacheMode : MambaCacheMode
  numGpuBlocksOverride : Option Nat
  disableHybridKvCacheManager : Bool
deriving DecidableEq, Repr

/-- `a // b`. -/
def floorDiv (a : Int) (b : Nat) : Except Exn Int :=
  if b = 0 then .error (.zeroDivisionError "integer division or modulo by zero") else .ok (a / b)

/-- `cdiv(a, b)`. -/
def ceilDiv (a : Int) (b : Nat) : Except Exn Int :=
  if b = 0 then .error (.zeroDivisionError "integer division or modulo by zero") else .ok (cdiv a b)

section Specs

variable {D : Type}

/-- The fields of `AttentionSpec`. -/
structure AttentionSpec (D : Type) where
  blockSize : Nat
  numKvHeads : Nat
  headSize : Nat
  dtype : D
  pageSizePadded : Option Nat
deriving DecidableEq, Repr

/-- The fields that `FullAttentionSpec` adds. -/
structure FullAttention where
  headSizeV : Nat
  slidingWindow : Option Nat
  attentionChunkSize : Option Nat
deriving DecidableEq, Repr

structure MambaSpec (D : Type) where
  blockSize : Nat
  shapes : List (List Nat)
  dtypes : List D
  pageSizePadded : Option Nat
  mambaType : String
  mambaCacheMode : MambaCacheMode
  numSpeculativeBlocks : Nat
deriving DecidableEq, Repr

inductive LayerSpec (D : Type) where
  | fullAttention (spec : AttentionSpec D) (full : FullAttention)
  | mlaAttention (spec : AttentionSpec D) (full : FullAttention) (cacheDtypeStr : Option String)
  | sinkFullAttention (spec : AttentionSpec D) (full : FullAttention) (sinkLen : Option Nat)
  | slidingWindow (spec : AttentionSpec D) (slidingWindow : Nat)
  | chunkedLocalAttention (spec : AttentionSpec D) (attentionChunkSize : Nat)
  | mamba (spec : MambaSpec D)
  | encoderOnlyAttention (spec : AttentionSpec D)
  | crossAttention (spec : AttentionSpec D)
deriving DecidableEq, Repr

namespace LayerSpec

def blockSize : LayerSpec D → Nat
  | fullAttention spec _ | mlaAttention spec _ _ | sinkFullAttention spec _ _
  | slidingWindow spec _ | chunkedLocalAttention spec _
  | encoderOnlyAttention spec | crossAttention spec => spec.blockSize
  | mamba spec => spec.blockSize

/-- `isinstance(spec, FullAttentionSpec)`. -/
def isFullAttention : LayerSpec D → Bool
  | fullAttention _ _ | mlaAttention _ _ _ | sinkFullAttention _ _ _ => true
  | _ => false

/-- `isinstance(spec, MLAAttentionSpec)`. -/
def isMlaAttention : LayerSpec D → Bool
  | mlaAttention _ _ _ => true
  | _ => false

def pageSizePadded : LayerSpec D → Option Nat
  | fullAttention spec _ | mlaAttention spec _ _ | sinkFullAttention spec _ _
  | slidingWindow spec _ | chunkedLocalAttention spec _
  | encoderOnlyAttention spec | crossAttention spec => spec.pageSizePadded
  | mamba spec => spec.pageSizePadded

/-- `replace(spec, block_size=block_size)`. -/
def withBlockSize (blockSize : Nat) : LayerSpec D → LayerSpec D
  | fullAttention spec full => fullAttention { spec with blockSize } full
  | mlaAttention spec full dtype => mlaAttention { spec with blockSize } full dtype
  | sinkFullAttention spec full sink => sinkFullAttention { spec with blockSize } full sink
  | slidingWindow spec window => slidingWindow { spec with blockSize } window
  | chunkedLocalAttention spec chunk => chunkedLocalAttention { spec with blockSize } chunk
  | mamba spec => mamba { spec with blockSize }
  | encoderOnlyAttention spec => encoderOnlyAttention { spec with blockSize }
  | crossAttention spec => crossAttention { spec with blockSize }

variable (dtypeSize : D → Nat)

/-- `real_page_size_bytes`, and the sum of the state sizes of a Mamba layer. -/
def realPageSizeBytes : LayerSpec D → Nat
  | fullAttention spec full | sinkFullAttention spec full _ =>
    spec.blockSize * spec.numKvHeads * (spec.headSize + full.headSizeV) * dtypeSize spec.dtype
  | mlaAttention spec _ cacheDtypeStr =>
    if cacheDtypeStr = some "fp8_ds_mla" then spec.blockSize * 656
    else spec.blockSize * spec.numKvHeads * spec.headSize * dtypeSize spec.dtype
  | slidingWindow spec _ | chunkedLocalAttention spec _
  | encoderOnlyAttention spec | crossAttention spec =>
    2 * spec.blockSize * spec.numKvHeads * spec.headSize * dtypeSize spec.dtype
  | mamba spec => (List.zipWith (fun shape dtype => shape.prod * dtypeSize dtype)
      spec.shapes spec.dtypes).sum

def pageSizeBytes (spec : LayerSpec D) : Except Exn Nat :=
  match spec.pageSizePadded with
  | some padded => do
      require (padded ≥ spec.realPageSizeBytes dtypeSize) ""
      .ok padded
  | none => .ok (spec.realPageSizeBytes dtypeSize)

def maxMemoryUsageBytes (config : VllmConfig) (spec : LayerSpec D) : Except Exn Int :=
  match spec with
  | fullAttention _ _ | mlaAttention _ _ _ | sinkFullAttention _ _ _ => do
      let cpWorldSize := config.decodeContextParallelSize * config.prefillContextParallelSize
      let maxModelLen ←
        if cpWorldSize > 1 then ceilDiv config.maxModelLen cpWorldSize
        else .ok (config.maxModelLen : Int)
      let numBlocks ← ceilDiv maxModelLen spec.blockSize
      let pageSize ← spec.pageSizeBytes dtypeSize
      .ok (numBlocks * pageSize)
  | chunkedLocalAttention _ attentionChunkSize => do
      let numTokens := min (attentionChunkSize + config.maxNumBatchedTokens) config.maxModelLen
      let numBlocks ← ceilDiv numTokens spec.blockSize
      let pageSize ← spec.pageSizeBytes dtypeSize
      .ok (numBlocks * pageSize)
  | slidingWindow _ window => do
      require (config.decodeContextParallelSize = 1) "DCP not support sliding window."
      let numTokens : Int :=
        min ((window : Int) - 1 + config.maxNumBatchedTokens) config.maxModelLen
      let numBlocks ← ceilDiv numTokens spec.blockSize
      let pageSize ← spec.pageSizeBytes dtypeSize
      .ok ((numBlocks + 1) * pageSize)
  | mamba mambaSpec => do
      match config.mambaCacheMode with
      | .all => do
          let numBlocks ← ceilDiv config.maxModelLen spec.blockSize
          let pageSize ← spec.pageSizeBytes dtypeSize
          .ok (numBlocks * pageSize)
      | .align => do
          let pageSize ← spec.pageSizeBytes dtypeSize
          .ok (pageSize * (2 + mambaSpec.numSpeculativeBlocks))
      | .none => do
          let pageSize ← spec.pageSizeBytes dtypeSize
          .ok (pageSize * (1 + mambaSpec.numSpeculativeBlocks))
  | encoderOnlyAttention _ => .ok 0
  | crossAttention _ => do
      let numBlocks ← ceilDiv config.maxNumEncoderInputTokens spec.blockSize
      let pageSize ← spec.pageSizeBytes dtypeSize
      .ok (numBlocks * pageSize)

end LayerSpec

/-! ### Merging -/

section Merge

variable [DecidableEq D]

/-- `FullAttentionSpec.merge_window_sizes` of the set of window sizes. -/
def mergeWindowSizes (windowSizes : List (Option Nat)) : Except Exn (Option Nat) :=
  match windowSizes.reduceOption with
  | [] => .ok none
  | window :: windows =>
    if windows.all (· = window) then .ok (some window)
    else .error (.valueError ("All attention layers in the same KV cache group must have the " ++
      "same window size."))

namespace LayerSpec

/-- The `AttentionSpec` fields of a full attention spec. -/
def fullAttention? : LayerSpec D → Option (AttentionSpec D × FullAttention)
  | fullAttention spec full | mlaAttention spec full _ | sinkFullAttention spec full _ =>
    some (spec, full)
  | _ => none

/-- `cache_dtype_str`. -/
def mlaCacheDtype? : LayerSpec D → Option (Option String)
  | mlaAttention _ _ cacheDtypeStr => some cacheDtypeStr
  | _ => none

/-- The common part of `FullAttentionSpec.merge` and `SinkFullAttentionSpec.merge`: the fields of
the merged spec, which are those of the first one but for the windows. -/
def mergeFullFields (first : AttentionSpec D) (firstFull : FullAttention)
    (specs : List (LayerSpec D)) : Except Exn (AttentionSpec D × FullAttention) := do
  require (specs.all isFullAttention = true)
    "All attention layers in the same KV cache group must be FullAttentionSpec."
  require (specs.any isMlaAttention = false)
    "MLAAttentionSpec should be merged in MLAAttentionSpec.merge"
  let fulls := specs.filterMap fullAttention?
  let slidingWindow ← mergeWindowSizes (fulls.map fun full => full.2.slidingWindow)
  let attentionChunkSize ← mergeWindowSizes (fulls.map fun full => full.2.attentionChunkSize)
  require (∀ full ∈ fulls, full.1 = first)
    "All attention layers in the same KV cache group must have the same attention spec."
  require (¬ (slidingWindow.isSome = true ∧ attentionChunkSize.isSome = true))
    ("Model with both sliding window layers and chunked local attention layers is not " ++
      "supported.")
  .ok (first, { headSizeV := firstFull.headSizeV, slidingWindow, attentionChunkSize })

/-- `MLAAttentionSpec.merge`. -/
def mergeMla (first : AttentionSpec D) (firstDtype : Option String) (specs : List (LayerSpec D)) :
    Except Exn (LayerSpec D) := do
  require (specs.all isMlaAttention = true)
    "All attention layers in the same KV cache group must be MLAAttentionSpec."
  require (∀ spec ∈ specs, spec.mlaCacheDtype? = some firstDtype)
    "All attention layers in the same KV cache group must use the same quantization method."
  .ok (mlaAttention first
    { headSizeV := first.headSize, slidingWindow := none, attentionChunkSize := none } firstDtype)

/-- `specs[0].merge(specs)`. -/
def merge (specs : List (LayerSpec D)) : Except Exn (LayerSpec D) :=
  match specs.head? with
  | none => .error (.indexError "list index out of range")
  | some (fullAttention spec full) => do
      let (spec, full) ← mergeFullFields spec full specs
      .ok (fullAttention spec full)
  | some (sinkFullAttention spec full sinkLen) => do
      let (spec, full) ← mergeFullFields spec full specs
      .ok (sinkFullAttention spec full sinkLen)
  | some (mlaAttention spec _ cacheDtypeStr) => mergeMla spec cacheDtypeStr specs
  | some spec => do
      require (∀ other ∈ specs, other = spec)
        "All layers in the same KV cache group must be the same."
      .ok spec

end LayerSpec

end Merge

end Specs

end LongCtxSpecDecode
