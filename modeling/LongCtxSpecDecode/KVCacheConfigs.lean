import LongCtxSpecDecode.KVCacheSpecs
import LongCtxSpecDecode.Library.Grouping

/-!
# The KV cache configuration of the workers

`get_kv_cache_configs` of `v1/core/kv_cache_utils.py`: the specs of all workers are merged, the
layers grouped, the memory checked, and each worker gets its part of the groups and the tensors
behind them. The number of blocks is the smallest of the workers'.
-/

namespace LongCtxSpecDecode

open Library

variable {D : Type}

abbrev SpecDict (D : Type) := OrderedDict String (LayerSpec D)

/-- The spec of a group: one for all its layers, or `UniformTypeKVCacheSpecs`. -/
inductive GroupSpec (D : Type) where
  | single (spec : LayerSpec D)
  | uniformType (kvCacheSpecs : SpecDict D)
deriving DecidableEq, Repr

structure KVCacheGroupSpec (D : Type) where
  layerNames : List String
  kvCacheSpec : GroupSpec D
deriving DecidableEq, Repr

structure KVCacheTensor where
  size : Int
  sharedBy : List String
deriving DecidableEq, Repr

structure KVCacheConfig (D : Type) where
  numBlocks : Int
  kvCacheTensors : List KVCacheTensor
  kvCacheGroups : List (KVCacheGroupSpec D)
deriving DecidableEq, Repr

section Groups

variable [DecidableEq D]

/-- `is_kv_cache_spec_uniform`: a failed assertion of the merge means no. -/
def isKvCacheSpecUniform (kvCacheSpec : SpecDict D) : Except Exn Bool :=
  if kvCacheSpec = [] then .ok true
  else
    match LayerSpec.merge (kvCacheSpec.map Prod.snd) with
    | .ok _ => .ok true
    | .error (.assertionError _) => .ok false
    | .error e => .error e

/-- What `UniformTypeKVCacheSpecs.is_uniform_type` compares with the first spec. -/
def sameType : LayerSpec D → LayerSpec D → Bool
  | .slidingWindow _ window, .slidingWindow _ window' => window' = window
  | .chunkedLocalAttention _ chunk, .chunkedLocalAttention _ chunk' => chunk' = chunk
  | .mamba spec, .mamba spec' => spec'.numSpeculativeBlocks = spec.numSpeculativeBlocks
  | .crossAttention _, .crossAttention _ => true
  | first, spec => first.isFullAttention && spec.isFullAttention

def isUniformType (kvCacheSpecs : SpecDict D) : Except Exn Bool :=
  match kvCacheSpecs with
  | [] => .error (.runtimeError "StopIteration")
  | (_, first) :: _ =>
    if kvCacheSpecs.any fun item => item.2.blockSize ≠ first.blockSize then .ok false
    else
      match first with
      | .encoderOnlyAttention _ => .error (.runtimeError
          "Unsupported KV cache spec type: <class 'EncoderOnlyAttentionSpec'>")
      | first => .ok (kvCacheSpecs.all fun item => sameType first item.2)

def asFullAttention : LayerSpec D → LayerSpec D
  | .slidingWindow spec window => .fullAttention spec
      { headSizeV := spec.headSize, slidingWindow := some window, attentionChunkSize := none }
  | .chunkedLocalAttention spec chunk => .fullAttention spec
      { headSizeV := spec.headSize, slidingWindow := none, attentionChunkSize := some chunk }
  | spec => spec

/-- `isinstance(spec, (SlidingWindowSpec, ChunkedLocalAttentionSpec))`. -/
def isLocal : LayerSpec D → Bool
  | .slidingWindow _ _ | .chunkedLocalAttention _ _ => true
  | _ => false

def unifyHybridKvCacheSpecs (kvCacheSpec : SpecDict D) : Except Exn (SpecDict D) := do
  if ← isKvCacheSpecUniform kvCacheSpec then .ok kvCacheSpec
  else if ← isUniformType kvCacheSpec then .ok kvCacheSpec
  else
    let kvCacheSpec :=
      if (kvCacheSpec.any fun item => item.2.isFullAttention) ∧
          (kvCacheSpec.any fun item => isLocal item.2) then
        kvCacheSpec.mapValues asFullAttention
      else kvCacheSpec
    if ← isKvCacheSpecUniform kvCacheSpec then .ok kvCacheSpec
    else if ← isUniformType kvCacheSpec then .ok kvCacheSpec
    else .error (.valueError ("Hybrid KV cache manager is disabled but failed to " ++
      "convert the KV cache specs to one unified type."))

variable (dtypeSize : D → Nat)

def unifyPageSize (maxPageSize : Nat) (spec : LayerSpec D) : Except Exn (LayerSpec D) := do
  let layerPageSize ← spec.pageSizeBytes dtypeSize
  if layerPageSize = maxPageSize then .ok spec
  else if layerPageSize = 0 then
    .error (.zeroDivisionError "integer division or modulo by zero")
  else if maxPageSize % layerPageSize ≠ 0 then
    .error (.runtimeError ("The page size of the layer is not divisible by the " ++
      "maximum page size. Cannot unify by adjusting block_size."))
  else do
    let ratio := maxPageSize / layerPageSize
    let newSpec := spec.withBlockSize (spec.blockSize * ratio)
    let newPageSize ← newSpec.pageSizeBytes dtypeSize
    require (newPageSize = maxPageSize) ""
    .ok newSpec

def unifyKvCacheSpecPageSize (kvCacheSpec : SpecDict D) : Except Exn (SpecDict D) := do
  let pageSizes ← kvCacheSpec.mapM fun item => item.2.pageSizeBytes dtypeSize
  if pageSizes.all fun size => size = pageSizes.headD 0 then .ok kvCacheSpec
  else kvCacheSpec.mapM fun item => do
    let spec ← unifyPageSize dtypeSize (pageSizes.max?.getD 0) item.2
    .ok (item.1, spec)

/-- The layers of each spec, in the order of `same_type_layers`. -/
def sameTypeLayers (kvCacheSpec : SpecDict D) : OrderedDict (LayerSpec D) (List String) :=
  fileByKey kvCacheSpec

def createKvCacheGroupSpecs (kvCacheSpec : SpecDict D) (groupedLayerNames : List (List String)) :
    Except Exn (List (KVCacheGroupSpec D)) :=
  groupedLayerNames.mapM fun layerNames => do
    let layerSpecs ← layerNames.mapM fun name =>
      match kvCacheSpec.get name with
      | some spec => .ok spec
      | none => .error (.keyError name)
    let spec ← LayerSpec.merge layerSpecs
    .ok ⟨layerNames, .single spec⟩

def groupSizeOf (numLayers : List Nat) : Nat :=
  let minNumLayers := numLayers.min?.getD 0
  let maxNumLayers := numLayers.max?.getD 0
  -- `max_num_layers < min_num_layers * 1.25`
  if 4 * maxNumLayers < 5 * minNumLayers then maxNumLayers else minNumLayers

def splitLayers (groupSize : Nat) (layers : List String) : List (List String) :=
  let numGroups := (cdiv layers.length groupSize).toNat
  -- `layers[i::num_groups]`
  (List.range numGroups).map fun i => strided numGroups i layers

def groupedLayers (kvCacheSpec : SpecDict D) : List (List String) :=
  let layersOfTypes := (sameTypeLayers kvCacheSpec).map Prod.snd
  layersOfTypes.flatMap (splitLayers (groupSizeOf (layersOfTypes.map List.length)))

def getKvCacheGroupsUniformPageSize (kvCacheSpec : SpecDict D) :
    Except Exn (List (KVCacheGroupSpec D)) :=
  createKvCacheGroupSpecs kvCacheSpec (groupedLayers kvCacheSpec)

/-- The specs after the hybrid ones were unified, where the hybrid manager is disabled. -/
def hybridSpecs (config : VllmConfig) (kvCacheSpec : SpecDict D) : Except Exn (SpecDict D) :=
  if config.disableHybridKvCacheManager then unifyHybridKvCacheSpecs kvCacheSpec
  else .ok kvCacheSpec

def getKvCacheGroups (config : VllmConfig) (kvCacheSpec : SpecDict D) :
    Except Exn (List (KVCacheGroupSpec D)) := do
  let kvCacheSpec ← hybridSpecs config kvCacheSpec
  if kvCacheSpec = [] then .ok []
  else if ← isKvCacheSpecUniform kvCacheSpec then
    createKvCacheGroupSpecs kvCacheSpec [kvCacheSpec.keys]
  else if ← isUniformType kvCacheSpec then
    .ok [⟨kvCacheSpec.keys, .uniformType kvCacheSpec⟩]
  else do
    let kvCacheSpec ← unifyKvCacheSpecPageSize dtypeSize kvCacheSpec
    getKvCacheGroupsUniformPageSize kvCacheSpec

end Groups

/-! ### One worker -/

section Worker

variable (dtypeSize : D → Nat)

def GroupSpec.pageSizeBytes : GroupSpec D → Except Exn Nat
  | .single spec => spec.pageSizeBytes dtypeSize
  | .uniformType specs => do
      let sizes ← specs.mapM fun item => item.2.pageSizeBytes dtypeSize
      .ok sizes.sum

variable (config : VllmConfig)

/-- `UniformTypeKVCacheSpecs.max_memory_usage_bytes`, and that of a layer. -/
def GroupSpec.maxMemoryUsageBytes : GroupSpec D → Except Exn Int
  | .single spec => spec.maxMemoryUsageBytes dtypeSize config
  | .uniformType specs => do
      let pages ← specs.mapM fun item => do
        let usage ← item.2.maxMemoryUsageBytes dtypeSize config
        let pageSize ← item.2.pageSizeBytes dtypeSize
        ceilDiv usage pageSize
      let pageSize ← (GroupSpec.uniformType specs).pageSizeBytes dtypeSize
      .ok (pages.max?.getD 0 * pageSize)

def getUniformPageSize (kvCacheSpecs : List (GroupSpec D)) : Except Exn Nat := do
  let pageSizes ← kvCacheSpecs.mapM (GroupSpec.pageSizeBytes dtypeSize)
  match pageSizes with
  | [] => .error (.assertionError "")
  | size :: sizes => do
      require (∀ s ∈ sizes, s = size) ""
      .ok size

def mayOverrideNumBlocks (numBlocks : Int) : Int :=
  match config.numGpuBlocksOverride with
  | some numBlocks => numBlocks
  | none => numBlocks

def getNumBlocks (numLayers : Nat) (availableMemory : Int) (pageSize : Nat) : Except Exn Int := do
  let pages ← floorDiv availableMemory pageSize
  let numBlocks ← floorDiv pages numLayers
  .ok (mayOverrideNumBlocks config (max numBlocks 0))

variable (kvCacheGroups : List (KVCacheGroupSpec D))

def groupSize : Nat :=
  (kvCacheGroups.map fun group => group.layerNames.length).max?.getD 0

/-- The layers that share the tensor number `i`: one of each group that has so many. -/
def sharedBy (i : Nat) : List String :=
  kvCacheGroups.filterMap fun group => group.layerNames[i]?

variable (availableMemory : Int)

def getKvCacheConfigFromGroups : Except Exn (KVCacheConfig D) :=
  match kvCacheGroups with
  | [] => .ok ⟨1, [], kvCacheGroups⟩
  | [⟨layerNames, .uniformType specs⟩] => do
      let pageSize ← (GroupSpec.uniformType specs).pageSizeBytes dtypeSize
      let numBlocks ← floorDiv availableMemory pageSize
      let numBlocks := mayOverrideNumBlocks config numBlocks
      let tensors ← layerNames.mapM fun name =>
        match specs.get name with
        | some spec => do
            let pageSize ← spec.pageSizeBytes dtypeSize
            .ok ⟨pageSize * numBlocks, [name]⟩
        | none => .error (.keyError name)
      .ok ⟨numBlocks, tensors, kvCacheGroups⟩
  | kvCacheGroups => do
      let pageSize ← getUniformPageSize dtypeSize (kvCacheGroups.map (·.kvCacheSpec))
      require (groupSize kvCacheGroups > 0) "group_size must be greater than 0"
      let numBlocks ← getNumBlocks config (groupSize kvCacheGroups) availableMemory pageSize
      let tensors := (List.range (groupSize kvCacheGroups)).map fun i =>
        ⟨pageSize * numBlocks, sharedBy kvCacheGroups i⟩
      .ok ⟨numBlocks, tensors, kvCacheGroups⟩

/-! ### The memory check -/

def maxMemoryUsageBytesFromGroups : Except Exn Int :=
  match kvCacheGroups with
  | [] => .ok 0
  | [⟨_, .uniformType specs⟩] => do
      let usages ← specs.mapM fun item => item.2.maxMemoryUsageBytes dtypeSize config
      .ok usages.sum
  | first :: rest => do
      let kvCacheGroups := first :: rest
      let pageSize ← getUniformPageSize dtypeSize (kvCacheGroups.map (·.kvCacheSpec))
      let usage ← first.kvCacheSpec.maxMemoryUsageBytes dtypeSize config
      let blocksNeeded ← ceilDiv usage pageSize
      .ok (groupSize kvCacheGroups * pageSize * blocksNeeded)

/-- The binary search of `_estimate_max_model_len_from_groups`, for at most `fuel` rounds. -/
def searchModelLen (fits : Nat → Except Exn Bool) :
    Nat → Nat → Nat → Nat → Except Exn Nat
  | 0, _, _, _ => .error .outOfFuel
  | fuel + 1, left, right, result =>
    if left ≤ right then do
      let mid := (left + right) / 2
      if ← fits mid then searchModelLen fits fuel (mid + 1) right mid
      else searchModelLen fits fuel left (mid - 1) result
    else .ok result

/-- The inner function `fits`. -/
def fitsModelLen (modelLen : Nat) : Except Exn Bool := do
  let usage ← maxMemoryUsageBytesFromGroups dtypeSize
    { config with maxModelLen := modelLen } kvCacheGroups
  .ok (decide (usage ≤ availableMemory))

def estimateMaxModelLenFromGroups : Except Exn Nat := do
  let fits := fitsModelLen dtypeSize config kvCacheGroups availableMemory
  if ← fits 1 then searchModelLen fits (config.maxModelLen + 1) 1 config.maxModelLen 1
  else .ok 0

/-- `min(available_memory)`. -/
def minMemory (availableMemory : List Int) : Except Exn Int :=
  match availableMemory.min? with
  | some memory => .ok memory
  | none => .error (.valueError "min() iterable argument is empty")

def autoFitMaxModelLen (availableMemory : List Int) : Except Exn VllmConfig :=
  if kvCacheGroups = [] then .ok config
  else do
    let memory ← minMemory availableMemory
    let autoFitMax ← estimateMaxModelLenFromGroups dtypeSize config kvCacheGroups memory
    if autoFitMax = 0 then
      .error (.valueError ("Cannot auto-fit max_model_len: not enough GPU memory available " ++
        "to serve even a single token. Try increasing `gpu_memory_utilization`."))
    else if autoFitMax ≥ config.maxModelLen then .ok config
    else .ok { config with maxModelLen := autoFitMax }

/-- `_check_enough_kv_cache_memory`; the numbers in the second message are left out. -/
def checkEnoughKvCacheMemory : Except Exn Unit :=
  if availableMemory ≤ 0 then
    .error (.valueError ("No available memory for the cache blocks. Try increasing " ++
      "`gpu_memory_utilization` when initializing the engine."))
  else do
    let neededMemory ← maxMemoryUsageBytesFromGroups dtypeSize config kvCacheGroups
    if neededMemory > availableMemory then
      .error (.valueError ("To serve at least one request with the models's max seq len, " ++
        "more KV cache is needed than the available KV cache memory."))
    else .ok ()

end Worker

/-! ### All workers -/

section Workers

variable [DecidableEq D]

def mergeWorkerSpecs (merged worker : SpecDict D) : Except Exn (SpecDict D) :=
  worker.foldlM (fun merged item =>
    match merged.get item.1 with
    | none => .ok (merged.set item.1 item.2)
    | some spec => do
        require (spec = item.2) ("The KV cache specs for the same layer are different " ++
          "across workers. This is not supported yet.")
        .ok merged) merged

def workerGroups (kvCacheGroups : List (KVCacheGroupSpec D)) (worker : SpecDict D) :
    List (KVCacheGroupSpec D) :=
  kvCacheGroups.map fun group =>
    { group with layerNames := group.layerNames.filter fun name => name ∈ worker.keys }

variable (dtypeSize : D → Nat)

def workerConfig (config : VllmConfig) (kvCacheGroups : List (KVCacheGroupSpec D))
    (worker : SpecDict D) (availableMemory : Int) : Except Exn (KVCacheConfig D) := do
  let groups := workerGroups kvCacheGroups worker
  require ((groups.map fun group => group.layerNames.length).sum = worker.length)
    "Some layers are not assigned to any group."
  getKvCacheConfigFromGroups dtypeSize config groups availableMemory

def shrinkTensor (numBlocksOld numBlocks : Int) (tensor : KVCacheTensor) :
    Except Exn KVCacheTensor :=
  if numBlocksOld = 0 then .error (.zeroDivisionError "integer modulo by zero")
  else do
    require (tensor.size % numBlocksOld = 0) ""
    .ok { tensor with size := tensor.size / numBlocksOld * numBlocks }

def shrinkConfig (numBlocks : Int) (config : KVCacheConfig D) : Except Exn (KVCacheConfig D) := do
  let tensors ← config.kvCacheTensors.mapM (shrinkTensor config.numBlocks numBlocks)
  .ok { config with numBlocks, kvCacheTensors := tensors }

/-- The largest `max_model_len` that fits, where the user asked for it. -/
def fitMaxModelLen (config : VllmConfig) (kvCacheGroups : List (KVCacheGroupSpec D))
    (availableMemory : List Int) : Except Exn VllmConfig :=
  if config.originalMaxModelLen = -1 then
    autoFitMaxModelLen dtypeSize config kvCacheGroups availableMemory
  else .ok config

def checkMemory (config : VllmConfig) (kvCacheGroups : List (KVCacheGroupSpec D))
    (availableMemory : List Int) : Except Exn Unit :=
  if kvCacheGroups = [] then .ok ()
  else do
    let memory ← minMemory availableMemory
    checkEnoughKvCacheMemory dtypeSize config kvCacheGroups memory

/-- `get_kv_cache_configs`, with the configuration whose `max_model_len` it may have changed.
Nothing is logged. -/
def getKvCacheConfigs (config : VllmConfig) (kvCacheSpecs : List (SpecDict D))
    (availableMemory : List Int) : Except Exn (VllmConfig × List (KVCacheConfig D)) := do
  let merged ← kvCacheSpecs.foldlM mergeWorkerSpecs []
  let globalGroups ← getKvCacheGroups dtypeSize config merged
  let config ← fitMaxModelLen dtypeSize config globalGroups availableMemory
  checkMemory dtypeSize config globalGroups availableMemory
  let configs ← (kvCacheSpecs.zip availableMemory).mapM fun worker =>
    workerConfig dtypeSize config globalGroups worker.1 worker.2
  match (configs.map (·.numBlocks)).min? with
  | none => .error (.valueError "min() iterable argument is empty")
  | some minNumBlocks => do
      let configs ← configs.mapM (shrinkConfig minNumBlocks)
      .ok (config, configs)

end Workers

end LongCtxSpecDecode
