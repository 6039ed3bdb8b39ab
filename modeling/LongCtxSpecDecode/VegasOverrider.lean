import LongCtxSpecDecode.DraftRounds

/-!
# The Vegas overrider

`sparse_attn/attn_overrider/vegas.py`. All layers share one budget, each verify call writes the row
of its own layer, and the first draft call turns all rows into slots. What the kernels score and
select is an input.
-/

namespace LongCtxSpecDecode

open List

/-- The options of the Vegas overrider. -/
structure VegasConfig where
  numSpecTokens : Nat
  blockSize : Nat
  minTokens : Nat
  maxTokens : Nat
  ratio : Rat

/-- `VegasAttnOverrider`: its tensors by layer and row of the batch. -/
structure VegasOverrider extends BaseAttnOverrider where
  config : VegasConfig
  metadataInitialized : Bool := false
  batchSize : Nat := 0
  pageTable : Nat → Nat → Nat → Int := fun _ _ _ => 0
  topkBudget : Nat → Int := fun _ => 0
  topkValidLens : Nat → Int := fun _ => 0

namespace VegasOverrider

/-- The width of the table of selected tokens. -/
def topkWidth (config : VegasConfig) : Nat :=
  config.maxTokens + 2 * config.numSpecTokens + 1

def withBase (o : VegasOverrider) (base : BaseAttnOverrider) : VegasOverrider :=
  { o with toBaseAttnOverrider := base }

/-- `topk_valid_lens`: the tokens that are candidates. -/
def topkValidLen (config : VegasConfig) (m : AttnMetadata) (b : Nat) : Int :=
  if m.queryLens b = 0 then
    0
  else
    m.seqLens b + 1 - if m.queryLens b > config.numSpecTokens + 1 then 1 else m.queryLens b

/-- The budget between `min_tokens` and `max_tokens`. -/
def clampBudget (config : VegasConfig) (budget : Int) : Int :=
  min (max budget config.minTokens) config.maxTokens

/-- The first layer of a verify pass sets the budgets. -/
def beginVerify (m : AttnMetadata) (o : VegasOverrider) : VegasOverrider :=
  { o with
    batchSize := m.batchSize
    topkValidLens := fun b =>
      if b < m.batchSize then topkValidLen o.config m b else o.topkValidLens b
    topkBudget := fun b =>
      if b < m.batchSize then
        min (clampBudget o.config ⌈(m.seqLens b : ℚ) * o.config.ratio⌉) (topkValidLen o.config m b)
      else
        clampBudget o.config (o.topkBudget b)
    metadataInitialized := false }

/-- `varlen_topk` into the row of the layer. -/
def selectLayer (selected : Selection) (layer batchSize : Nat) (o : VegasOverrider) :
    VegasOverrider :=
  { o with
    pageTable := fun l b col =>
      if l = layer ∧ b < batchSize then
        ((selected l b).map fun i : Nat => (i : Int)).getD col (o.pageTable l b col)
      else
        o.pageTable l b col }

def verifyAttention (m : AttnMetadata) (selected : Selection) (o : VegasOverrider) :
    VegasOverrider :=
  let o := if o.currLayer = 0 then o.beginVerify m else o
  o.selectLayer selected o.currLayer o.batchSize

/-- The first draft step turns the selected indices into slots. -/
def initMetadata (m : AttnMetadata) (o : VegasOverrider) : VegasOverrider :=
  { o with
    metadataInitialized := true
    pageTable := fun l b =>
      if b < o.batchSize then
        SlotTable.indexToSlots (m.blockTable b) o.config.blockSize (o.topkBudget b)
          (o.topkValidLens b) (m.seqLens b - 1 + o.config.numSpecTokens) (o.pageTable l b)
      else
        o.pageTable l b
    topkBudget := fun b =>
      if b < o.batchSize then o.topkBudget b + (m.seqLens b - o.topkValidLens b)
      else o.topkBudget b }

/-- The first layer of a draft step. -/
def beginDraft (m : AttnMetadata) (o : VegasOverrider) : VegasOverrider :=
  if o.metadataInitialized then
    { o with
      topkBudget := fun b => if b < o.batchSize then o.topkBudget b + 1 else o.topkBudget b }
  else
    o.initMetadata m

/-- `_draft_attention`, up to the call of the attention function. -/
def draftAttention (m : AttnMetadata) (o : VegasOverrider) : VegasOverrider :=
  let o := { o with batchSize := m.batchSize }
  if o.currLayer = 0 then o.beginDraft m else o

def advance (o : VegasOverrider) : VegasOverrider :=
  o.withBase o.toBaseAttnOverrider.advance

/-- One layer, with the attention calls of its backend. -/
def layerForward (m : AttnMetadata) (selected : Selection)
    (state : VegasOverrider × List VegasOverrider) : VegasOverrider × List VegasOverrider :=
  (m.backendCalls state.1.config.blockSize).foldl
    (fun state m =>
      let o :=
        if state.1.inPropose then state.1.draftAttention m else state.1.verifyAttention m selected
      (o.advance, state.2 ++ [o])) state

def forward (m : AttnMetadata) (selected : Selection) (o : VegasOverrider) :
    VegasOverrider × List VegasOverrider :=
  (range o.numLayers).foldl (fun state _ => layerForward m selected state) (o, [])

def enterPropose (o : VegasOverrider) : Except Exn VegasOverrider := do
  let base ← o.toBaseAttnOverrider.enterPropose
  .ok { o.withBase base with metadataInitialized := false }

def exitPropose (o : VegasOverrider) : Except Exn VegasOverrider := do
  let base ← o.toBaseAttnOverrider.exitPropose
  .ok (o.withBase base)

/-- The draft steps of a propose, with the overriders at the attention calls of each. -/
def draftSteps (o : VegasOverrider) :
    List AttnMetadata → List (List VegasOverrider) × VegasOverrider
  | [] => ([], o)
  | m :: rest =>
    let (o, calls) := o.forward m fun _ _ => []
    let (traces, o) := o.draftSteps rest
    (calls :: traces, o)

/-- `propose` of the proposer, with the metadata of each draft step. -/
def propose (steps : List AttnMetadata) (o : VegasOverrider) :
    Except Exn (List (List VegasOverrider) × VegasOverrider) := do
  let o ← o.enterPropose
  let (traces, o) := o.draftSteps steps
  let o ← o.exitPropose
  .ok (traces, o)

/-- A verify pass in a CUDA graph: the hooks in python do not run. -/
def replayVerify (m : AttnMetadata) (selected : Selection) (o : VegasOverrider) : VegasOverrider :=
  { (range o.numLayers).foldl (fun o l => o.selectLayer selected l m.batchSize)
      (o.beginVerify m) with
    batchSize := o.batchSize
    metadataInitialized := o.metadataInitialized }

def Idle (o : VegasOverrider) : Prop := o.currLayer = 0 ∧ o.inPropose = false

section verify

variable {m : AttnMetadata} {selected : Selection} {o : VegasOverrider}

/-- The page table once the first `n` layers have selected. -/
def selectedTable (m : AttnMetadata) (selected : Selection) (o : VegasOverrider) (n l b : Nat) :
    Nat → Int := fun col =>
  if l < n ∧ b < m.batchSize then
    ((selected l b).map fun i : Nat => (i : Int)).getD col (o.pageTable l b col)
  else
    o.pageTable l b col

/-- The overrider after the first `n` layers of a verify pass. -/
def verified (m : AttnMetadata) (selected : Selection) (o : VegasOverrider) (n : Nat) :
    VegasOverrider :=
  { o.beginVerify m with pageTable := selectedTable m selected o n }

theorem selectLayer_verified (n : Nat) :
    (o.verified m selected n).selectLayer selected n m.batchSize =
      o.verified m selected (n + 1) := by
  have htable : ((o.verified m selected n).selectLayer selected n m.batchSize).pageTable =
      selectedTable m selected o (n + 1) := by
    funext l b col
    unfold selectLayer verified selectedTable
    by_cases hl : l = n
    · subst hl
      simp
    · have hlt : l < n + 1 ↔ l < n := by omega
      simp [hl, hlt]
  unfold verified at htable ⊢
  rw [← htable]
  rfl

theorem layerForward_verify (hplain : m.commonPrefixLen = 0) (selected : Selection)
    (state : VegasOverrider × List VegasOverrider) (h : state.1.inPropose = false) :
    (layerForward m selected state).1 = (state.1.verifyAttention m selected).advance := by
  rw [layerForward, AttnMetadata.backendCalls_eq hplain, foldl_cons, foldl_nil, h,
    if_neg Bool.false_ne_true]

theorem verifyAttention_first (hzero : o.currLayer = 0) :
    o.verifyAttention m selected = o.verified m selected 1 := by
  unfold verifyAttention
  rw [if_pos hzero]
  change (o.beginVerify m).selectLayer selected o.currLayer m.batchSize = _
  rw [hzero]
  exact selectLayer_verified 0

theorem verifyAttention_later {n : Nat} (hn : n < o.numLayers) (hpos : n ≠ 0) :
    ((o.verified m selected n).withBase (o.toBaseAttnOverrider.afterCalls n)).verifyAttention m
        selected =
      (o.verified m selected (n + 1)).withBase (o.toBaseAttnOverrider.afterCalls n) := by
  have hlayer : (o.toBaseAttnOverrider.afterCalls n).currLayer = n := Nat.mod_eq_of_lt hn
  have hcurr : ((o.verified m selected n).withBase
      (o.toBaseAttnOverrider.afterCalls n)).currLayer ≠ 0 := by
    rw [← hlayer] at hpos
    exact hpos
  unfold verifyAttention
  rw [if_neg hcurr]
  change ((o.verified m selected n).selectLayer selected
    (o.toBaseAttnOverrider.afterCalls n).currLayer m.batchSize).withBase
      (o.toBaseAttnOverrider.afterCalls n) = _
  rw [hlayer, selectLayer_verified]

theorem verify_foldl (hplain : m.commonPrefixLen = 0) (h : Idle o) (n : Nat)
    (hn : n < o.numLayers) :
    ((range (n + 1)).foldl (fun state _ => layerForward m selected state) (o, [])).1 =
      (o.verified m selected (n + 1)).withBase (o.toBaseAttnOverrider.afterCalls (n + 1)) := by
  induction n with
  | zero =>
    have hfirst := layerForward_verify hplain selected (o, []) h.2
    refine hfirst.trans ?_
    rw [verifyAttention_first h.1]
    change (o.verified m selected 1).withBase
      (o.toBaseAttnOverrider.afterCalls (o.currLayer + 1)) = _
    rw [h.1]
  | succ n ih =>
    have hstate := ih (by omega)
    rw [range_succ, foldl_append, foldl_cons, foldl_nil,
      layerForward_verify hplain _ _ (by rw [hstate]; exact h.2), hstate,
      verifyAttention_later hn (Nat.succ_ne_zero n)]
    change (o.verified m selected (n + 2)).withBase
      (o.toBaseAttnOverrider.afterCalls ((n + 1) % o.numLayers + 1)) = _
    rw [Nat.mod_eq_of_lt hn]

/-- The tensors that a verify pass leaves, whether its hooks run or its graph replays. -/
structure Verified (m : AttnMetadata) (selected : Selection) (before o : VegasOverrider) :
    Prop where
  idle : Idle o
  layers : o.numLayers = before.numLayers
  config : o.config = before.config
  validLens : ∀ b < m.batchSize, o.topkValidLens b = topkValidLen before.config m b
  budget : ∀ b < m.batchSize, o.topkBudget b = (before.beginVerify m).topkBudget b
  table : ∀ l < before.numLayers, ∀ b < m.batchSize, ∀ col (h : col < (selected l b).length),
    o.pageTable l b col = (selected l b)[col]

theorem selectedTable_apply {n l b col : Nat} (hl : l < n) (hb : b < m.batchSize)
    (h : col < (selected l b).length) :
    selectedTable m selected o n l b col = (selected l b)[col] := by
  unfold selectedTable
  rw [if_pos ⟨hl, hb⟩, getD_eq_getElem _ _ (by simpa using h), getElem_map]

theorem forward_verified (hplain : m.commonPrefixLen = 0) (h : Idle o) :
    Verified m selected o (o.forward m selected).1 := by
  obtain ⟨n, hn⟩ := Nat.exists_eq_add_one.mpr o.numLayers_pos
  have hstate : (o.forward m selected).1 =
      (o.verified m selected o.numLayers).withBase
        (o.toBaseAttnOverrider.afterCalls o.numLayers) := by
    unfold forward
    rw [hn]
    exact verify_foldl hplain h n (by omega)
  rw [hstate]
  exact ⟨⟨Nat.mod_self _, h.2⟩, rfl, rfl, fun b hb => if_pos hb, fun b _ => rfl,
    fun l hl b hb col hcol => selectedTable_apply hl hb hcol⟩

theorem replay_foldl (n : Nat) :
    (range n).foldl (fun o l => o.selectLayer selected l m.batchSize) (o.beginVerify m) =
      o.verified m selected n := by
  induction n with
  | zero => rfl
  | succ n ih =>
    rw [range_succ, foldl_append, ih]
    exact selectLayer_verified n

theorem replayVerify_verified (h : Idle o) : Verified m selected o (o.replayVerify m selected) := by
  unfold replayVerify
  rw [replay_foldl]
  exact ⟨h, rfl, rfl, fun b hb => if_pos hb, fun b _ => rfl,
    fun l hl b hb col hcol => selectedTable_apply hl hb hcol⟩

end verify

section draft

variable {m : AttnMetadata} {o : VegasOverrider}

def proposing (o : VegasOverrider) : VegasOverrider :=
  { o with inPropose := true, metadataInitialized := false }

theorem enterPropose_of_zero (hzero : o.currLayer = 0) : o.enterPropose = .ok o.proposing := by
  unfold enterPropose BaseAttnOverrider.enterPropose
  rw [require_of_true hzero]
  rfl

theorem exitPropose_of_zero (hzero : o.currLayer = 0) : ∃ o', o.exitPropose = .ok o' := by
  unfold exitPropose BaseAttnOverrider.exitPropose
  rw [require_of_true hzero]
  exact ⟨_, rfl⟩

theorem proposing_of_idle (h : Idle o) :
    o.proposing.currLayer = 0 ∧ o.proposing.inPropose = true := ⟨h.1, rfl⟩

/-- The overrider in a draft step. -/
def drafted (m : AttnMetadata) (o : VegasOverrider) : VegasOverrider :=
  { o with batchSize := m.batchSize }.beginDraft m

theorem drafted_base : (o.drafted m).toBaseAttnOverrider = o.toBaseAttnOverrider ∧
    (o.drafted m).config = o.config ∧ (o.drafted m).metadataInitialized = true := by
  unfold drafted beginDraft
  split
  · rename_i hinit
    exact ⟨rfl, rfl, hinit⟩
  · exact ⟨rfl, rfl, rfl⟩

theorem layerForward_draft (hplain : m.commonPrefixLen = 0) (selected : Selection)
    (state : VegasOverrider × List VegasOverrider) (h : state.1.inPropose = true) :
    layerForward m selected state =
      ((state.1.draftAttention m).advance, state.2 ++ [state.1.draftAttention m]) := by
  rw [layerForward, AttnMetadata.backendCalls_eq hplain, foldl_cons, foldl_nil, h, if_pos rfl]

/-- The overrider at call `n` of a draft step. -/
abbrev draftCall (m : AttnMetadata) (o : VegasOverrider) (n : Nat) : VegasOverrider :=
  (o.drafted m).withBase (o.toBaseAttnOverrider.afterCalls n)

theorem draftAttention_first (hzero : o.currLayer = 0) :
    o.draftAttention m = o.draftCall m 0 := by
  have hbase : o.toBaseAttnOverrider.afterCalls 0 = (o.drafted m).toBaseAttnOverrider := by
    rw [drafted_base.1]
    unfold BaseAttnOverrider.afterCalls
    rw [Nat.zero_mod, ← hzero]
  rw [draftCall, hbase]
  exact if_pos hzero

theorem draftAttention_later {n : Nat} (hn : n < o.numLayers) (hpos : n ≠ 0) :
    (o.draftCall m n).draftAttention m = o.draftCall m n := by
  have hlayer : (o.toBaseAttnOverrider.afterCalls n).currLayer = n := Nat.mod_eq_of_lt hn
  rw [← hlayer] at hpos
  refine (if_neg hpos).trans ?_
  unfold draftCall drafted beginDraft
  split <;> rfl

section

variable (hzero : o.currLayer = 0) (hpropose : o.inPropose = true)
  (hplain : m.commonPrefixLen = 0) (selected : Selection)
include hzero hpropose hplain

theorem draft_foldl (n : Nat) (hn : n < o.numLayers) :
    (range (n + 1)).foldl (fun state _ => layerForward m selected state) (o, []) =
      (o.draftCall m (n + 1), (range (n + 1)).map (o.draftCall m)) := by
  induction n with
  | zero =>
    have hfirst := layerForward_draft hplain selected (o, []) hpropose
    refine hfirst.trans ?_
    rw [draftAttention_first hzero]
    rfl
  | succ n ih =>
    rw [range_succ, foldl_append, foldl_cons, ih (by omega),
      layerForward_draft hplain _ _ (by exact hpropose), map_append]
    rw [draftAttention_later hn (Nat.succ_ne_zero n)]
    change (o.draftCall m ((n + 1) % o.numLayers + 1), _) = _
    rw [Nat.mod_eq_of_lt hn]
    rfl

theorem forward_draft :
    o.forward m selected = (o.drafted m, (range o.numLayers).map (o.draftCall m)) := by
  obtain ⟨n, hn⟩ := Nat.exists_eq_add_one.mpr o.numLayers_pos
  have hbase : o.toBaseAttnOverrider.afterCalls o.numLayers =
      (o.drafted m).toBaseAttnOverrider := by
    rw [drafted_base.1]
    unfold BaseAttnOverrider.afterCalls
    rw [Nat.mod_self, ← hzero]
  have hfold := draft_foldl hzero hpropose hplain selected n (by omega)
  rw [← hn, draftCall, hbase] at hfold
  exact hfold

theorem draftSteps_cons (rest : List AttnMetadata) : o.draftSteps (m :: rest) =
    ((range o.numLayers).map (o.draftCall m) :: ((o.drafted m).draftSteps rest).1,
      ((o.drafted m).draftSteps rest).2) := by
  rw [draftSteps, forward_draft hzero hpropose hplain]

omit hzero hpropose hplain in
theorem drafted_again {m' : AttnMetadata} (hbatch : m'.batchSize = m.batchSize) :
    ((o.drafted m).drafted m').pageTable = (o.drafted m).pageTable ∧
      ∀ b < m.batchSize, ((o.drafted m).drafted m').topkBudget b =
        (o.drafted m).topkBudget b + 1 := by
  have hinit := (drafted_base (m := m) (o := o)).2.2
  generalize o.drafted m = d at hinit ⊢
  unfold drafted beginDraft
  rw [if_pos hinit]
  exact ⟨rfl, fun b hb => if_pos (hbatch ▸ hb)⟩

omit hplain in
theorem draftSteps_tensors {rest : List AttnMetadata}
    (hsteps : ∀ m' ∈ m :: rest, m'.batchSize = m.batchSize ∧ m'.commonPrefixLen = 0) {s : Nat}
    {calls : List VegasOverrider}
    (hcalls : (o.draftSteps (m :: rest)).1[s]? = some calls) :
    calls.length = o.numLayers ∧ ∀ call ∈ calls, call.pageTable = (o.drafted m).pageTable ∧
      ∀ b < m.batchSize, call.topkBudget b = (o.drafted m).topkBudget b + s := by
  -- by induction on the step: the next overrider is already initialized
  have hplain := (hsteps m mem_cons_self).2
  induction s generalizing o m rest with
  | zero =>
    rw [draftSteps_cons hzero hpropose hplain] at hcalls
    cases hcalls
    refine ⟨by simp, fun call hcall => ?_⟩
    obtain ⟨i, -, rfl⟩ := mem_map.mp hcall
    exact ⟨rfl, fun b _ => (Int.add_zero _).symm⟩
  | succ s ih =>
    rw [draftSteps_cons hzero hpropose hplain] at hcalls
    cases rest with
    | nil => cases hcalls
    | cons m' rest =>
      have hbase := (drafted_base (m := m) (o := o)).1
      obtain ⟨hsame, hplain'⟩ := hsteps m' (mem_cons_of_mem _ mem_cons_self)
      obtain ⟨htable, hbudget⟩ := drafted_again hsame
      obtain ⟨hlength, hrest⟩ := ih (by rw [hbase]; exact hzero)
        (by rw [hbase]; exact hpropose)
        (fun m'' hm => hsame ▸ hsteps m'' (mem_cons_of_mem _ hm)) hcalls hplain'
      refine ⟨hlength.trans (by rw [hbase]), fun call hcall => ?_⟩
      obtain ⟨hcallTable, hcallBudget⟩ := hrest call hcall
      refine ⟨hcallTable.trans htable, fun b hb => ?_⟩
      rw [hcallBudget b (hsame ▸ hb), hbudget b hb]
      omega

omit hplain in
theorem draftSteps_spec (steps : List AttnMetadata) (hsteps : ∀ m ∈ steps, m.commonPrefixLen = 0) :
    (o.draftSteps steps).1.length = steps.length ∧ (o.draftSteps steps).2.currLayer = 0 := by
  induction steps generalizing o with
  | nil => exact ⟨rfl, hzero⟩
  | cons m rest ih =>
    have hbase := (drafted_base (m := m) (o := o)).1
    obtain ⟨hlength, hlast⟩ := ih (by rw [hbase]; exact hzero)
      (by rw [hbase]; exact hpropose) fun m hm => hsteps m (mem_cons_of_mem _ hm)
    rw [draftSteps_cons hzero hpropose (hsteps m mem_cons_self)]
    exact ⟨congrArg (· + 1) hlength, hlast⟩

end

end draft

section round

variable {numSpecTokens pageSize : Nat} {round : DraftRound numSpecTokens pageSize}
variable {selected : Selection} {before o : VegasOverrider}

theorem topkValidLen_eq {config : VegasConfig} (hspec : config.numSpecTokens = numSpecTokens)
    (b : Nat) : topkValidLen config round.verifyMetadata b = round.scoredLen b := by
  have hpos := (round.row b).queryLen_pos
  unfold topkValidLen DraftRound.verifyMetadata DraftRound.scoredLen
  dsimp only
  rw [hspec, if_neg (by omega)]

theorem beginVerify_budget_le (before : VegasOverrider) {m : AttnMetadata} {b : Nat}
    (hb : b < m.batchSize) :
    (before.beginVerify m).topkBudget b ≤ before.config.maxTokens := by
  refine (if_pos hb).trans_le ((min_le_left _ _).trans ?_)
  exact min_le_right _ _

section

variable (h : Verified round.verifyMetadata selected before o)
  (hspec : before.config.numSpecTokens = numSpecTokens)
  (hpage : before.config.blockSize = pageSize)
  (hsel : round.Selects (fun _ => (before.beginVerify round.verifyMetadata).topkBudget) selected)
include h hspec hpage hsel

theorem Verified.tensors {b : Nat} (hb : b < round.batchSize) (l : Nat) :
    (o.proposing.drafted (round.draftMetadata 0)).pageTable l b =
        SlotTable.indexToSlots (round.blockTable b) pageSize (selected l b).length
          (round.scoredLen b) ((round.draftMetadata 0).seqLens b - 1 + numSpecTokens)
          (o.pageTable l b) ∧
      (o.proposing.drafted (round.draftMetadata 0)).topkBudget b =
        (selected l b).length + ((round.draftMetadata 0).seqLens b - round.scoredLen b) := by
  have hvalid : o.topkValidLens b = round.scoredLen b :=
    (h.validLens b hb).trans (topkValidLen_eq hspec b)
  have hbudget : o.topkBudget b = (selected l b).length :=
    (h.budget b hb).trans (hsel.length l b hb).symm
  constructor
  · refine (if_pos hb).trans ?_
    change SlotTable.indexToSlots (round.blockTable b) o.config.blockSize (o.topkBudget b)
      (o.topkValidLens b) ((round.draftMetadata 0).seqLens b - 1 + o.config.numSpecTokens)
      (o.pageTable l b) = _
    rw [hvalid, hbudget, h.config, hspec, hpage]
  · refine (if_pos hb).trans ?_
    change o.topkBudget b + ((round.draftMetadata 0).seqLens b - o.topkValidLens b) = _
    rw [hvalid, hbudget]

theorem Verified.propose (hcovered : round.Covered) :
    ∃ traces o', o.propose round.draftSteps = .ok (traces, o') ∧
      traces.length = numSpecTokens ∧ ∀ s calls, traces[s]? = some calls →
        calls.length = before.numLayers ∧ ∀ call ∈ calls, ∀ l < before.numLayers,
          ∀ b < round.batchSize, round.Denotes (topkWidth before.config) s b (selected l b)
            (call.pageTable l b) (call.topkBudget b) := by
  have hidle := proposing_of_idle h.idle
  have hsteps := fun m (hm : m ∈ round.draftSteps) => DraftRound.draftSteps_plain hm
  obtain ⟨hlength, hlast⟩ := draftSteps_spec hidle.1 hidle.2 round.draftSteps
    fun m hm => (hsteps m hm).2
  have hlength := hlength.trans DraftRound.length_draftSteps
  obtain ⟨o₂, hexit⟩ := exitPropose_of_zero hlast
  refine ⟨_, o₂, bind_eq_ok.mpr ⟨_, enterPropose_of_zero h.idle.1, bind_eq_ok.mpr ⟨o₂, hexit, rfl⟩⟩,
    hlength, ?_⟩
  intro s calls hcalls
  have hs : s < numSpecTokens := hlength ▸ (List.getElem?_eq_some_iff.mp hcalls).1
  have hpos := Nat.zero_lt_of_lt hs
  rw [DraftRound.draftSteps_eq_cons hpos] at hcalls hsteps
  obtain ⟨hcount, htensors⟩ := draftSteps_tensors hidle.1 hidle.2 hsteps hcalls
  refine ⟨hcount.trans h.layers, fun call hcall l hl b hb => ?_⟩
  obtain ⟨htable, hbudget⟩ := htensors call hcall
  obtain ⟨hslots, hfirst⟩ := h.tensors hspec hpage hsel hb l
  rw [htable, hslots, hbudget b hb, hfirst]
  refine DraftRound.denotes_of_selects hcovered hsel hb hs (h.table l hl b hb) ?_
  have hle := before.beginVerify_budget_le (m := round.verifyMetadata) hb
  unfold topkWidth
  omega

end

end round

end VegasOverrider

/-- A request with two drafts, one of them accepted, next to a prefill of six tokens. -/
def mixedRound : DraftRound 2 2 where
  maxModelLen := 16
  batchSize := 2
  row b := if b = 0 then .decode 5 2 1 (by decide) (by decide) else .chunk 0 6 (by decide)
  blocks b := BlockRow.addRow {} ((range 5).map (8 * b + ·))
  page_pos := Nat.two_pos
  fits := by decide

theorem covered_mixedRound : mixedRound.Covered := fun b hb =>
  ⟨_, BlockRow.holds_addRow, nodup_range.map fun i j h => Nat.add_left_cancel h,
    by revert b; decide⟩

def smallLongSpec : LongSpecOverrider := .init LongSpecOverrider.skippingConfig

def smallVegas : VegasOverrider where
  numLayers := 2
  numLayers_pos := Nat.two_pos
  config := { numSpecTokens := 2, blockSize := 2, minTokens := 2, maxTokens := 3, ratio := 1 / 2 }

/-- A new request with two tokens in block 5. The row of the block table was last used by a request
with the blocks 3 and 5, and `schedule` gives a new request no blocks for the draft. -/
def newRound : DraftRound 2 2 where
  maxModelLen := 16
  batchSize := 1
  row _ := .chunk 0 2 Nat.two_pos
  blocks _ := (BlockRow.addRow {} [3, 5]).addRow [5]
  page_pos := Nat.two_pos
  fits := by decide

end LongCtxSpecDecode
