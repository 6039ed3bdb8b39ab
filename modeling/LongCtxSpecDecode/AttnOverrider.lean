import LongCtxSpecDecode.SlotTable

/-!
# The attention overrider

`BaseAttnOverrider` of `sparse_attn/attn_overrider/__init__.py`, the LongSpec overrider, and the
whole-layer skip of `longspec/layer_skip.py`. The overrider knows the layer that calls it by
counting the calls. What the kernels select is an input. The model is not split over pipeline or
context-parallel ranks.
-/

namespace LongCtxSpecDecode

open List

/-- `LongSpecConfig`, with the sizes that the overrider derives from the configuration. -/
structure LongSpecConfig where
  numLayers : Nat
  numLayers_pos : 0 < numLayers
  numSpecTokens : Nat
  blockSize : Nat
  minTokens : Nat
  maxTokens : Nat
  ratio : Rat
  sink : Nat
  recent : Nat
  skipAttnLayers : List Int
  skipLayers : List Int
  skipAttnLayers_valid : ∀ l ∈ skipAttnLayers, 0 ≤ l ∧ l < numLayers
  skipLayers_valid : ∀ l ∈ skipLayers, 0 ≤ l ∧ l < numLayers
  disjoint : ∀ l ∈ skipAttnLayers, l ∉ skipLayers

/-- What the overriders read of the attention metadata. -/
structure AttnMetadata where
  batchSize : Nat
  /-- `seqused_k`. -/
  seqLens : Nat → Int
  /-- The differences of `cu_seqlens_q`. -/
  queryLens : Nat → Int
  blockTable : Nat → Nat → Int
  /-- The builder sets `use_cascade` if it is positive. It is zero in a draft. -/
  commonPrefixLen : Nat := 0

/-- What `FlashAttentionImpl.forward` calls the attention function with. Cascade attention calls it
for the common prefix, with the tokens of all requests, and for the rest of each request. -/
def AttnMetadata.backendCalls (pageSize : Nat) (m : AttnMetadata) : List AttnMetadata :=
  if m.commonPrefixLen = 0 then
    [m]
  else
    [{ batchSize := 1
       seqLens := fun _ => m.commonPrefixLen
       queryLens := fun _ => ((range m.batchSize).map m.queryLens).sum
       blockTable := m.blockTable },
      { m with
        seqLens := fun b => m.seqLens b - m.commonPrefixLen
        blockTable := fun b i => m.blockTable b (m.commonPrefixLen / pageSize + i) }]

theorem AttnMetadata.backendCalls_eq {m : AttnMetadata} (h : m.commonPrefixLen = 0)
    (pageSize : Nat) : m.backendCalls pageSize = [m] :=
  if_pos h

/-- `BaseAttnOverrider`: the layer that is called next. -/
structure BaseAttnOverrider where
  numLayers : Nat
  numLayers_pos : 0 < numLayers
  currLayer : Nat := 0
  inPropose : Bool := false

variable (o : BaseAttnOverrider)

namespace BaseAttnOverrider

/-- The overrider after `n` calls of a pass. -/
def afterCalls (n : Nat) : BaseAttnOverrider :=
  { o with currLayer := n % o.numLayers }

/-- The counter after an attention call. -/
def advance : BaseAttnOverrider :=
  o.afterCalls (o.currLayer + 1)

def enterPropose : Except Exn BaseAttnOverrider := do
  require (o.currLayer = 0) ""
  .ok { o with inPropose := true }

def exitPropose : Except Exn BaseAttnOverrider := do
  require (o.currLayer = 0) ""
  .ok { o with inPropose := false }

end BaseAttnOverrider

/-- `LongSpecAttnOverrider`: its tensors by layer and row of the batch. -/
structure LongSpecOverrider extends BaseAttnOverrider where
  config : LongSpecConfig
  metadataInitialized : Bool := false
  batchSize : Nat := 0
  table : Nat → Nat → Nat → Int := fun _ _ _ => 0
  used : Nat → Nat → Int := fun _ _ => 0
  validLens : Nat → Int := fun _ => 0
  kMin : Nat → Int := fun _ => 0
  kMax : Nat → Int := fun _ => 0

/-- An attention call, with the overrider as the call leaves it. -/
structure AttnCall where
  layer : Nat
  overrider : LongSpecOverrider

/-- The indices that the kernel selects, by layer and row. -/
abbrev Selection := Nat → Nat → List Nat

namespace LongSpecOverrider

def init (config : LongSpecConfig) : LongSpecOverrider :=
  { numLayers := config.numLayers, numLayers_pos := config.numLayers_pos, config }

/-- `valid_lens`: the tokens that are candidates. -/
def validLen (config : LongSpecConfig) (m : AttnMetadata) (b : Nat) : Int :=
  if m.queryLens b = 0 then
    0
  else
    m.seqLens b + 1 - if m.queryLens b > config.numSpecTokens + 1 then 1 else m.queryLens b

variable (m : AttnMetadata) (o : LongSpecOverrider)

/-- The first layer of a verify pass sets up the selection. -/
def beginVerify : LongSpecOverrider :=
  let valid := validLen o.config m
  { o with
    batchSize := m.batchSize
    validLens := fun b => if b < m.batchSize then valid b else 0
    kMax := fun b =>
      if b < m.batchSize then
        min (min (max ⌈(m.seqLens b : ℚ) * o.config.ratio⌉ o.config.minTokens) o.config.maxTokens)
          (valid b)
      else
        0
    kMin := fun b => if b < m.batchSize then min (valid b) o.config.minTokens else 0
    metadataInitialized := false }

/-- The selected indices of all layers, as the kernel leaves them. -/
def select (selected : Selection) (o : LongSpecOverrider) : LongSpecOverrider :=
  { o with
    table := fun l b col => ((selected l b).map fun i : Nat => (i : Int)).getD col (o.table l b col)
    used := fun l b => (selected l b).length }

/-- The first layer of a draft step: the slots of the selected tokens are looked up once, and then
one token is added in each step. -/
def beginDraftLayer : LongSpecOverrider :=
  if o.currLayer ≠ 0 then
    o
  else if o.metadataInitialized then
    { o with used := fun l b => if b < o.batchSize then o.used l b + 1 else o.used l b }
  else
    { o with
      metadataInitialized := true
      table := fun l b =>
        if b < o.batchSize then
          SlotTable.indexToSlots (m.blockTable b) o.config.blockSize (o.used l b) (o.validLens b)
            (m.seqLens b - 1 + o.config.numSpecTokens) (o.table l b)
        else
          o.table l b
      used := fun l b =>
        if b < o.batchSize then max (o.used l b + (m.seqLens b - o.validLens b)) 0
        else o.used l b }

def withBase (base : BaseAttnOverrider) : LongSpecOverrider :=
  { o with toBaseAttnOverrider := base }

def verifyCall : LongSpecOverrider :=
  if o.currLayer = 0 then o.beginVerify m else o

def draftCall : LongSpecOverrider :=
  { o with batchSize := m.batchSize }.beginDraftLayer m

def advance : LongSpecOverrider :=
  o.withBase o.toBaseAttnOverrider.advance

/-- `_attention`, called by a layer of the model. -/
def attention (selected : Selection) (layer : Nat) (o : LongSpecOverrider) :
    LongSpecOverrider × AttnCall :=
  if o.inPropose then
    let o := o.draftCall m
    (o.advance, ⟨layer, o⟩)
  else
    let o := o.verifyCall m
    ((if o.currLayer + 1 = o.numLayers then o.select selected else o).advance, ⟨layer, o⟩)

/-- A skipped layer makes no attention call, but is counted. -/
def noteSkippedLayer : LongSpecOverrider :=
  (o.draftCall m).advance

/-- The forward of a decoder layer, as `_skipping_forward` wraps it. Without attention metadata
the backend does not call the attention function. -/
def layerForward (metadata : Option AttnMetadata) (selected : Selection)
    (state : LongSpecOverrider × List AttnCall) (layer : Nat) : LongSpecOverrider × List AttnCall :=
  match metadata with
  | none => state
  | some m =>
    if (layer : Int) ∈ state.1.config.skipLayers ∧ state.1.inPropose = true then
      (state.1.noteSkippedLayer m, state.2)
    else
      (m.backendCalls state.1.config.blockSize).foldl
        (fun state m =>
          let (o, call) := state.1.attention m selected layer
          (o, state.2 ++ [call])) state

end LongSpecOverrider

/-- One forward pass: a draft step, or a verify pass if `step` is `none`. -/
structure ForwardTrace where
  step : Option Nat
  metadata : Option AttnMetadata
  before : LongSpecOverrider
  calls : List AttnCall
  after : LongSpecOverrider

namespace LongSpecOverrider

/-- A forward pass over all layers. -/
def forward (step : Option Nat) (metadata : Option AttnMetadata) (selected : Selection)
    (o : LongSpecOverrider) : ForwardTrace :=
  let (after, calls) :=
    (range o.numLayers).foldl (layerForward metadata selected) (o, [])
  { step, metadata, before := o, calls, after }

def enterPropose (o : LongSpecOverrider) : Except Exn LongSpecOverrider := do
  let base ← o.toBaseAttnOverrider.enterPropose
  .ok { o.withBase base with metadataInitialized := false }

def exitPropose (o : LongSpecOverrider) : Except Exn LongSpecOverrider := do
  let base ← o.toBaseAttnOverrider.exitPropose
  .ok (o.withBase base)

/-- The draft steps of a propose, from step `k` on. -/
def draftSteps (k : Nat) (o : LongSpecOverrider) :
    List AttnMetadata → List ForwardTrace × LongSpecOverrider
  | [] => ([], o)
  | m :: rest =>
    let trace := o.forward (some k) (some m) fun _ _ => []
    let (traces, o) := draftSteps (k + 1) trace.after rest
    (trace :: traces, o)

/-- `propose` of the proposer, with the metadata of each draft step. -/
def propose (steps : List AttnMetadata) (o : LongSpecOverrider) :
    Except Exn (List ForwardTrace × LongSpecOverrider) := do
  let o ← o.enterPropose
  let (traces, o) := o.draftSteps 0 steps
  let o ← o.exitPropose
  .ok (traces, o)

/-- `dummy_run` of the proposer. -/
def dummyRun (metadata : Option AttnMetadata) (o : LongSpecOverrider) :
    Except Exn (List ForwardTrace × LongSpecOverrider) := do
  let o ← o.enterPropose
  let trace := o.forward (some 0) metadata fun _ _ => []
  let o ← trace.after.exitPropose
  .ok ([trace], o)

/-- A verify pass in a CUDA graph: the hooks in python do not run. -/
def replayVerify (m : AttnMetadata) (selected : Selection) (o : LongSpecOverrider) :
    LongSpecOverrider :=
  { (o.beginVerify m).select selected with
    batchSize := o.batchSize
    metadataInitialized := o.metadataInitialized }

/-- What the model runner does with the model. -/
inductive Pass where
  | verify (metadata : Option AttnMetadata) (selected : Selection)
  | replay (metadata : AttnMetadata) (selected : Selection)
  | propose (steps : List AttnMetadata)
  | dummyRun (metadata : Option AttnMetadata)

/-- The forwards of a pass that the hooks see: draft step and metadata. -/
def Pass.forwards : Pass → List (Option Nat × Option AttnMetadata)
  | .verify metadata _ => [(none, metadata)]
  | .replay _ _ => []
  | .propose steps => steps.zipIdx.map fun (m, k) => (some k, some m)
  | .dummyRun metadata => [(some 0, metadata)]

def perform (o : LongSpecOverrider) : Pass → Except Exn (List ForwardTrace × LongSpecOverrider)
  | .verify metadata selected =>
    let trace := o.forward none metadata selected
    .ok ([trace], trace.after)
  | .replay m selected => .ok ([], o.replayVerify m selected)
  | .propose steps => o.propose steps
  | .dummyRun metadata => o.dummyRun metadata

def run (o : LongSpecOverrider) : List Pass → Except Exn (List ForwardTrace × LongSpecOverrider)
  | [] => .ok ([], o)
  | pass :: passes => do
      let (first, o) ← o.perform pass
      let (rest, o) ← o.run passes
      .ok (first ++ rest, o)

section layers

variable (m : AttnMetadata) (selected : Selection) (o : LongSpecOverrider)

/-- The overrider when a layer attends. -/
def called : LongSpecOverrider := if o.inPropose then o.draftCall m else o.verifyCall m

/-- The overrider at layer `n` of a pass that begins with `o`. -/
def atLayer (n : Nat) : LongSpecOverrider :=
  (o.called m).withBase (o.toBaseAttnOverrider.afterCalls n)

/-- The overrider once the first `n` layers are through. -/
def passed (n : Nat) : LongSpecOverrider :=
  if o.inPropose = false ∧ n = o.numLayers then (o.atLayer m n).select selected else o.atLayer m n

/-- The layers below `n` that make an attention call. -/
def callingLayers (n : Nat) : List Nat :=
  (range n).filter fun l => ¬ ((l : Int) ∈ o.config.skipLayers ∧ o.inPropose = true)

theorem called_base : (o.called m).toBaseAttnOverrider = o.toBaseAttnOverrider ∧
    (o.called m).config = o.config := by
  unfold called draftCall beginDraftLayer verifyCall
  split_ifs <;> exact ⟨rfl, rfl⟩

variable {m o} {n : Nat}

theorem layerForward_eq (hplain : m.commonPrefixLen = 0) (calls : List AttnCall) (layer : Nat) :
    layerForward (some m) selected (o, calls) layer =
      ((if o.inPropose = false ∧ o.currLayer + 1 = o.numLayers then (o.called m).select selected
        else o.called m).advance,
      calls ++ if (layer : Int) ∈ o.config.skipLayers ∧ o.inPropose = true then []
        else [⟨layer, o.called m⟩]) := by
  have hbase := (o.called_base m).1
  unfold layerForward
  dsimp only
  rw [AttnMetadata.backendCalls_eq hplain, foldl_cons, foldl_nil]
  unfold attention noteSkippedLayer
  cases hin : o.inPropose with
  | true =>
    have hcalled : o.called m = o.draftCall m := if_pos hin
    rw [hcalled]
    split <;> simp
  | false =>
    have hcalled : o.called m = o.verifyCall m := if_neg (by simp [hin])
    rw [hcalled] at hbase ⊢
    simp [hbase]

theorem callingLayers_succ (n : Nat) : o.callingLayers (n + 1) =
    o.callingLayers n ++
      if (n : Int) ∈ o.config.skipLayers ∧ o.inPropose = true then [] else [n] := by
  unfold callingLayers
  rw [range_succ, filter_append, filter_singleton]
  split
  · rename_i hskip
    simp [hskip]
  · rename_i hcall
    simp [hcall]

theorem called_zero (hzero : o.currLayer = 0) : o.called m = o.atLayer m 0 := by
  have hbase : o.toBaseAttnOverrider.afterCalls 0 = (o.called m).toBaseAttnOverrider := by
    rw [(o.called_base m).1]
    unfold BaseAttnOverrider.afterCalls
    rw [Nat.zero_mod, ← hzero]
  rw [atLayer, hbase]
  rfl

theorem called_atLayer (hn : n < o.numLayers) (hpos : n ≠ 0) :
    (o.atLayer m n).called m = o.atLayer m n := by
  have hcurr : (o.atLayer m n).currLayer ≠ 0 := by
    rw [← Nat.mod_eq_of_lt hn] at hpos
    exact hpos
  cases hin : o.inPropose with
  | true =>
    refine (if_pos hin).trans ((if_pos hcurr).trans ?_)
    unfold atLayer called draftCall beginDraftLayer
    rw [if_pos hin]
    split_ifs <;> rfl
  | false => exact (if_neg (Bool.eq_false_iff.mp hin)).trans (if_neg hcurr)

theorem passed_of_lt (hn : n < o.numLayers) : o.passed m selected n = o.atLayer m n :=
  if_neg fun h => hn.ne h.2

theorem layerForward_passed (hplain : m.commonPrefixLen = 0) (hn : n < o.numLayers)
    {s : LongSpecOverrider} (hcalled : s.called m = o.atLayer m n) :
    layerForward (some m) selected (s, (o.callingLayers n).map fun l => ⟨l, o.atLayer m l⟩) n =
      (o.passed m selected (n + 1), (o.callingLayers (n + 1)).map fun l => ⟨l, o.atLayer m l⟩) := by
  obtain ⟨hbase, hconfig⟩ := s.called_base m
  rw [hcalled] at hbase hconfig
  have hmod : n % o.numLayers = n := Nat.mod_eq_of_lt hn
  rw [layerForward_eq selected hplain, hcalled, ← hbase, ← hconfig, callingLayers_succ, map_append,
    show (o.atLayer m n).config = o.config from (o.called_base m).2]
  refine Prod.ext ?_ (congrArg (_ ++ ·) ?_)
  · change advance (if o.inPropose = false ∧ n % o.numLayers + 1 = o.numLayers then _ else _) = _
    unfold passed
    rw [hmod]
    split
    · exact congrArg (fun k => ((o.called m).withBase
        (o.toBaseAttnOverrider.afterCalls (k + 1))).select selected) hmod
    · exact congrArg (fun k => (o.called m).withBase
        (o.toBaseAttnOverrider.afterCalls (k + 1))) hmod
  · change (if (n : Int) ∈ o.config.skipLayers ∧ o.inPropose = true then [] else _) = _
    split <;> rfl

/-- The layers of a pass, one by one: the first one sets the tensors, and the last one of a verify
pass selects. -/
theorem foldl_layerForward (hplain : m.commonPrefixLen = 0) (hzero : o.currLayer = 0)
    (hn : n < o.numLayers) :
    (range (n + 1)).foldl (layerForward (some m) selected) (o, []) =
      (o.passed m selected (n + 1), (o.callingLayers (n + 1)).map fun l => ⟨l, o.atLayer m l⟩) := by
  induction n with
  | zero => exact layerForward_passed selected hplain hn (called_zero hzero)
  | succ n ih =>
    rw [range_succ, foldl_append, ih (by omega), passed_of_lt selected hn]
    exact layerForward_passed selected hplain hn (called_atLayer hn (Nat.succ_ne_zero n))

theorem forward_eq (step : Option Nat) (hplain : m.commonPrefixLen = 0) (hzero : o.currLayer = 0) :
    o.forward step (some m) selected =
      { step
        metadata := some m
        before := o
        calls := (o.callingLayers o.numLayers).map fun l => ⟨l, o.atLayer m l⟩
        after := o.passed m selected o.numLayers } := by
  obtain ⟨n, hn⟩ := Nat.exists_eq_add_one.mpr o.numLayers_pos
  have hfold := foldl_layerForward selected hplain hzero (show n < o.numLayers by omega)
  unfold forward
  rw [hn, hfold]

end layers

/-- `used` after draft step `k`: the tokens verified since the scoring and the newest one are
added at the first step, the newest one at each later step. -/
def bumped (k : Nat) (m : AttnMetadata) (o : LongSpecOverrider) (l b : Nat) : Int :=
  if b < m.batchSize then
    if k = 0 then max (o.used l b + (m.seqLens b - o.validLens b)) 0 else o.used l b + 1
  else
    o.used l b

/-- The table after draft step `k`: the first step writes the slots for the whole draft. -/
def slotted (k : Nat) (m : AttnMetadata) (o : LongSpecOverrider) (l b : Nat) : Nat → Int :=
  if b < m.batchSize ∧ k = 0 then
    SlotTable.indexToSlots (m.blockTable b) o.config.blockSize (o.used l b) (o.validLens b)
      (m.seqLens b - 1 + o.config.numSpecTokens) (o.table l b)
  else
    o.table l b

section used

variable {m : AttnMetadata} {o : LongSpecOverrider} {k : Nat}

theorem draftCall_of_zero (hzero : o.currLayer = 0)
    (hstep : o.metadataInitialized = decide (k ≠ 0)) :
    ((o.draftCall m).used = bumped k m o ∧ (o.draftCall m).table = slotted k m o) ∧
      (o.draftCall m).metadataInitialized = true := by
  unfold draftCall beginDraftLayer
  rw [if_neg (not_not.mpr hzero)]
  split
  · rename_i hinit
    have hk : k ≠ 0 := of_decide_eq_true (hstep.symm.trans hinit)
    refine ⟨⟨?_, ?_⟩, hinit⟩
    · funext l b
      unfold bumped
      rw [if_neg hk]
    · funext l b
      unfold slotted
      rw [if_neg fun hx => hk hx.2]
  · rename_i hinit
    have hk : k = 0 := by
      by_contra hk
      exact hinit (hstep.trans (decide_eq_true hk))
    refine ⟨⟨?_, ?_⟩, rfl⟩
    · funext l b
      unfold bumped
      rw [if_pos hk]
    · funext l b
      exact if_congr ⟨fun hb => ⟨hb, hk⟩, fun hb => hb.1⟩ rfl rfl

end used

/-- What holds of every forward: the counter is zero before and after it, the layers whose
attention runs call in order and are the ones the counter says, and a draft step has counted
`used` up once when they call. -/
structure Aligned (f : ForwardTrace) : Prop where
  before : f.before.currLayer = 0
  after : f.after.currLayer = 0
  layers : f.metadata.isSome = true → f.calls.map AttnCall.layer =
    (range f.before.numLayers).filter fun l : Nat =>
      ¬ ((l : Int) ∈ f.before.config.skipLayers ∧ f.step.isSome = true)
  calls : ∀ call ∈ f.calls, call.overrider.currLayer = call.layer
  used : ∀ k m, f.step = some k → f.metadata = some m →
    f.after.used = bumped k m f.before ∧ f.after.table = slotted k m f.before ∧
      ∀ call ∈ f.calls, call.overrider.used = bumped k m f.before ∧
        call.overrider.table = slotted k m f.before

section runs

variable {o : LongSpecOverrider}

theorem foldl_layerForward_none (selected : Selection) (layers : List Nat)
    (state : LongSpecOverrider × List AttnCall) :
    layers.foldl (layerForward none selected) state = state := by
  induction layers with
  | nil => rfl
  | cons layer layers ih => exact ih

theorem forward_aligned (step : Option Nat) (metadata : Option AttnMetadata) (selected : Selection)
    (hplain : ∀ m, metadata = some m → m.commonPrefixLen = 0) (hzero : o.currLayer = 0)
    (hpropose : o.inPropose = step.isSome)
    (hstep : ∀ k, step = some k → metadata.isSome = true →
      o.metadataInitialized = decide (k ≠ 0)) :
    Aligned (o.forward step metadata selected) ∧
      (o.forward step metadata selected).after.inPropose = o.inPropose ∧
      (step.isSome = true → metadata.isSome = true →
        (o.forward step metadata selected).after.metadataInitialized = true) := by
  cases metadata with
  | none =>
    unfold forward
    rw [foldl_layerForward_none]
    refine ⟨⟨hzero, hzero, fun hx => (by cases hx), fun call hmem => ?_, fun k m _ hx => ?_⟩, rfl,
      fun _ hx => (by cases hx)⟩
    · cases hmem
    · cases hx
  | some m =>
    have hplain := hplain m rfl
    have hdraft : ∀ k, step = some k → ((o.called m).used = bumped k m o ∧
        (o.called m).table = slotted k m o) ∧ (o.called m).metadataInitialized = true := by
      intro k hk
      rw [show o.called m = o.draftCall m from if_pos (by rw [hpropose, hk]; rfl)]
      exact draftCall_of_zero hzero (hstep k hk rfl)
    have hafter : ∀ k, step = some k → o.passed m selected o.numLayers = o.atLayer m o.numLayers :=
      fun k hk => if_neg fun h => by
        rw [hpropose, hk] at h
        cases h.1
    have hbase : (o.passed m selected o.numLayers).toBaseAttnOverrider =
        o.toBaseAttnOverrider.afterCalls o.numLayers := by
      unfold passed
      split <;> rfl
    rw [show forward step (some m) selected o = _ from forward_eq selected step hplain hzero]
    refine ⟨⟨hzero, ?_, fun _ => ?_, fun call hcall => ?_, fun k m' hk hm => ?_⟩, ?_,
      fun hsome _ => ?_⟩
    · dsimp only
      rw [hbase]
      exact Nat.mod_self o.numLayers
    · refine (map_map ..).trans ((map_id _).trans ?_)
      unfold callingLayers
      rw [hpropose]
    · obtain ⟨l, hl, rfl⟩ := mem_map.mp hcall
      exact Nat.mod_eq_of_lt (mem_range.mp (mem_filter.mp hl).1)
    · cases hm
      dsimp only
      rw [hafter k hk]
      refine ⟨(hdraft k hk).1.1, (hdraft k hk).1.2, fun call hcall => ?_⟩
      obtain ⟨l, -, rfl⟩ := mem_map.mp hcall
      exact (hdraft k hk).1
    · dsimp only
      rw [hbase]
      rfl
    · obtain ⟨k, hk⟩ := Option.isSome_iff_exists.mp hsome
      dsimp only
      rw [hafter k hk]
      exact (hdraft k hk).2

theorem draftSteps_forwards (k : Nat) (steps : List AttnMetadata) (o : LongSpecOverrider) :
    (o.draftSteps k steps).1.map (fun f => (f.step, f.metadata)) =
      (steps.zipIdx k).map fun (m, k) => (some k, some m) := by
  induction steps generalizing k o with
  | nil => rfl
  | cons m rest ih => exact congrArg (cons _) (ih (k + 1) _)

theorem draftStep_aligned {k : Nat} {m : AttnMetadata} (hplain : m.commonPrefixLen = 0)
    (hzero : o.currLayer = 0) (hpropose : o.inPropose = true)
    (hstep : o.metadataInitialized = decide (k ≠ 0)) :
    Aligned (o.forward (some k) (some m) fun _ _ => []) ∧
      (o.forward (some k) (some m) fun _ _ => []).after.inPropose = true ∧
      (o.forward (some k) (some m) fun _ _ => []).after.metadataInitialized =
        decide (k + 1 ≠ 0) := by
  obtain ⟨haligned, hin, hinit⟩ := forward_aligned (some k) (some m) (fun _ _ => [])
    (fun m' hm => Option.some.inj hm ▸ hplain) hzero hpropose fun k' hk' _ => by
      cases hk'
      exact hstep
  exact ⟨haligned, hin.trans hpropose,
    (hinit rfl rfl).trans (decide_eq_true (Nat.succ_ne_zero k)).symm⟩

theorem draftSteps_aligned {k : Nat} (steps : List AttnMetadata)
    (hplain : ∀ m ∈ steps, m.commonPrefixLen = 0) (hzero : o.currLayer = 0)
    (hpropose : o.inPropose = true) (hstep : o.metadataInitialized = decide (k ≠ 0)) :
    (∀ f ∈ (o.draftSteps k steps).1, Aligned f) ∧ (o.draftSteps k steps).2.currLayer = 0 := by
  induction steps generalizing k o with
  | nil => exact ⟨nofun, hzero⟩
  | cons m rest ih =>
    obtain ⟨haligned, hin, hinit⟩ :=
      draftStep_aligned (hplain m mem_cons_self) hzero hpropose hstep
    obtain ⟨hrest, hlast⟩ :=
      ih (fun m hm => hplain m (mem_cons_of_mem _ hm)) haligned.after hin hinit
    refine ⟨fun f hf => ?_, hlast⟩
    rcases mem_cons.mp hf with rfl | hf
    · exact haligned
    · exact hrest f hf

theorem enterPropose_of_zero (hzero : o.currLayer = 0) :
    ∃ o', o.enterPropose = .ok o' ∧ o'.currLayer = 0 ∧ o'.inPropose = true ∧
      o'.metadataInitialized = false := by
  unfold enterPropose BaseAttnOverrider.enterPropose
  rw [require_of_true hzero]
  exact ⟨_, rfl, hzero, rfl, rfl⟩

theorem exitPropose_of_zero (hzero : o.currLayer = 0) :
    ∃ o', o.exitPropose = .ok o' ∧ o'.currLayer = 0 ∧ o'.inPropose = false := by
  unfold exitPropose BaseAttnOverrider.exitPropose
  rw [require_of_true hzero]
  exact ⟨_, rfl, hzero, rfl⟩

/-- Between two passes. -/
def Idle (o : LongSpecOverrider) : Prop := o.currLayer = 0 ∧ o.inPropose = false

/-- No forward of the pass uses cascade attention. -/
def Pass.Plain (pass : Pass) : Prop :=
  ∀ step m, (step, some m) ∈ pass.forwards → m.commonPrefixLen = 0

theorem perform_aligned (h : Idle o) {pass : Pass} (hplain : pass.Plain) :
    ∃ traces o', o.perform pass = .ok (traces, o') ∧ Idle o' ∧
      traces.map (fun f => (f.step, f.metadata)) = pass.forwards ∧ ∀ f ∈ traces, Aligned f := by
  obtain ⟨hzero, hpropose⟩ := h
  cases pass with
  | verify metadata selected =>
    obtain ⟨haligned, hin, -⟩ := forward_aligned none metadata selected
      (fun m hm => hplain none m (hm ▸ mem_singleton_self _)) hzero hpropose
      fun k hk => (by cases hk)
    refine ⟨_, _, rfl, ⟨haligned.after, hin.trans hpropose⟩, rfl, fun f hf => ?_⟩
    obtain rfl := mem_singleton.mp hf
    exact haligned
  | replay m selected =>
    exact ⟨[], _, rfl, ⟨hzero, hpropose⟩, rfl, nofun⟩
  | propose steps =>
    obtain ⟨o₁, henter, hzero₁, hin, hinit⟩ := enterPropose_of_zero hzero
    have hsteps : ∀ m ∈ steps, m.commonPrefixLen = 0 := by
      intro m hm
      obtain ⟨k, hk⟩ := getElem?_of_mem hm
      exact hplain (some k) m (mem_map_of_mem (mk_mem_zipIdx_iff_getElem?.mpr hk))
    obtain ⟨hall, hlast⟩ := draftSteps_aligned (k := 0) steps hsteps hzero₁ hin hinit
    obtain ⟨o₂, hexit, hidle⟩ := exitPropose_of_zero hlast
    refine ⟨(o₁.draftSteps 0 steps).1, o₂, ?_, hidle, draftSteps_forwards 0 steps o₁, hall⟩
    exact bind_eq_ok.mpr ⟨o₁, henter, bind_eq_ok.mpr ⟨o₂, hexit, rfl⟩⟩
  | dummyRun metadata =>
    obtain ⟨o₁, henter, hzero₁, hin, hinit⟩ := enterPropose_of_zero hzero
    obtain ⟨haligned, -⟩ := forward_aligned (some 0) metadata (fun _ _ => [])
      (fun m hm => hplain (some 0) m (hm ▸ mem_singleton_self _)) hzero₁ hin fun k hk _ => by
        cases hk
        exact hinit
    obtain ⟨o₂, hexit, hidle⟩ := exitPropose_of_zero haligned.after
    refine ⟨[o₁.forward (some 0) metadata fun _ _ => []], o₂, ?_, hidle, rfl, fun f hf => ?_⟩
    · exact bind_eq_ok.mpr ⟨o₁, henter, bind_eq_ok.mpr ⟨o₂, hexit, rfl⟩⟩
    · obtain rfl := mem_singleton.mp hf
      exact haligned

theorem run_aligned (passes : List Pass) (hplain : ∀ pass ∈ passes, pass.Plain) (h : Idle o) :
    ∃ traces o', o.run passes = .ok (traces, o') ∧ Idle o' ∧
      traces.map (fun f => (f.step, f.metadata)) = passes.flatMap Pass.forwards ∧
      ∀ f ∈ traces, Aligned f := by
  induction passes generalizing o with
  | nil => exact ⟨[], o, rfl, h, rfl, nofun⟩
  | cons pass passes ih =>
    obtain ⟨first, o₁, hfirst, hidle, hforwards, halign⟩ :=
      perform_aligned h (hplain pass mem_cons_self)
    obtain ⟨rest, o₂, hrest, hlast, hforwards', hall⟩ :=
      ih (fun p hp => hplain p (mem_cons_of_mem _ hp)) hidle
    refine ⟨first ++ rest, o₂, ?_, hlast, ?_, fun f hf => ?_⟩
    · exact bind_eq_ok.mpr ⟨(first, o₁), hfirst, bind_eq_ok.mpr ⟨(rest, o₂), hrest, rfl⟩⟩
    · rw [map_append, hforwards, hforwards', flatMap_cons]
    · exact (mem_append.mp hf).elim (halign f) (hall f)

/-- Three layers, of which the draft skips the second one. -/
def skippingConfig : LongSpecConfig where
  numLayers := 3
  numLayers_pos := Nat.succ_pos 2
  numSpecTokens := 2
  blockSize := 2
  minTokens := 2
  maxTokens := 3
  ratio := 1 / 2
  sink := 0
  recent := 0
  skipAttnLayers := []
  skipLayers := [1]
  skipAttnLayers_valid := by decide
  skipLayers_valid := by decide
  disjoint := by decide

/-- Eight requests of 300 tokens. -/
def eightRequests (commonPrefixLen : Nat) : AttnMetadata where
  batchSize := 8
  seqLens _ := 300
  queryLens _ := 3
  blockTable b i := if i < 128 then i else 200 * b + i
  commonPrefixLen := commonPrefixLen

end runs

end LongSpecOverrider

end LongCtxSpecDecode
