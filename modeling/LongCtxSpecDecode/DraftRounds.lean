import LongCtxSpecDecode.AttnOverrider
import LongCtxSpecDecode.BlockTable

/-!
# The rounds of the drafter

A verify pass and the propose that follows it. `propose` of `sparse_attn/proposer.py` starts at
the position after the verified tokens and moves on by one position at each draft step.
-/

namespace LongCtxSpecDecode

open List

def clampPosition (maxModelLen : Nat) (position : Int) : Int :=
  if position ≥ maxModelLen then 0 else position

/-- The position of draft step `s`, from the sequence length that the verify pass leaves. -/
def draftPosition (maxModelLen : Nat) (start : Int) : Nat → Int
  | 0 => clampPosition maxModelLen start
  | s + 1 => clampPosition maxModelLen (draftPosition maxModelLen start s + 1)

theorem draftPosition_of_fits {maxModelLen : Nat} {start : Int} {s : Nat}
    (h : start + s < maxModelLen) : draftPosition maxModelLen start s = start + s := by
  induction s with
  | zero =>
    unfold draftPosition clampPosition
    rw [if_neg (by omega)]
    simp
  | succ s ih =>
    unfold draftPosition clampPosition
    omega

/-- A request in a verify pass: with drafts, of which some are accepted, or with a chunk of its
tokens. -/
inductive VerifyRow (numSpecTokens : Nat) where
  | decode (computed numDrafts accepted : Nat) (haccepted : accepted ≤ numDrafts)
      (hdrafts : numDrafts ≤ numSpecTokens)
  | chunk (computed numTokens : Nat) (hpos : 0 < numTokens)

namespace VerifyRow

variable {numSpecTokens : Nat}

def computed : VerifyRow numSpecTokens → Nat
  | decode computed .. => computed
  | chunk computed .. => computed

def queryLen : VerifyRow numSpecTokens → Nat
  | decode _ numDrafts .. => numDrafts + 1
  | chunk _ numTokens _ => numTokens

def rejected : VerifyRow numSpecTokens → Nat
  | decode _ numDrafts accepted .. => numDrafts - accepted
  | chunk .. => 0

/-- The tokens of the request with its drafts. -/
def seqLen (row : VerifyRow numSpecTokens) : Nat := row.computed + row.queryLen

theorem queryLen_pos (row : VerifyRow numSpecTokens) : 0 < row.queryLen := by
  cases row with
  | decode => exact Nat.succ_pos _
  | chunk _ _ hpos => exact hpos

theorem rejected_lt (row : VerifyRow numSpecTokens) :
    row.rejected < row.queryLen ∧ (numSpecTokens + 1 < row.queryLen → row.rejected = 0) := by
  cases row with
  | decode _ numDrafts accepted _ hdrafts =>
    dsimp only [rejected, queryLen]
    omega
  | chunk _ _ hpos => exact ⟨hpos, fun _ => rfl⟩

end VerifyRow

/-- A verify pass and the draft steps after it. -/
structure DraftRound (numSpecTokens pageSize : Nat) where
  maxModelLen : Nat
  batchSize : Nat
  row : Nat → VerifyRow numSpecTokens
  /-- Of the verify pass, for cascade attention. -/
  commonPrefixLen : Nat := 0
  /-- The rows of the block table, with the columns behind the blocks of the request. -/
  blocks : Nat → BlockRow
  page_pos : 0 < pageSize
  fits : ∀ b < batchSize, (row b).seqLen + numSpecTokens ≤ maxModelLen

namespace DraftRound

variable {numSpecTokens pageSize : Nat} (round : DraftRound numSpecTokens pageSize)

def blockTable (b i : Nat) : Int := (round.blocks b).blockIds i

/-- Every request has distinct blocks for its tokens and for a whole draft, as after
`allocate_slots` with the lookahead. -/
def Covered : Prop :=
  ∀ b < round.batchSize, ∃ ids : List Nat, (round.blocks b).Holds ids ∧ ids.Nodup ∧
    (round.row b).seqLen + numSpecTokens ≤ ids.length * pageSize

/-- The attention metadata of the verify pass. -/
def verifyMetadata : AttnMetadata where
  batchSize := round.batchSize
  seqLens b := (round.row b).seqLen
  queryLens b := (round.row b).queryLen
  blockTable := round.blockTable
  commonPrefixLen := round.commonPrefixLen

/-- The metadata of draft step `s`. -/
def draftMetadata (s : Nat) : AttnMetadata where
  batchSize := round.batchSize
  seqLens b :=
    draftPosition round.maxModelLen ((round.row b).seqLen - (round.row b).rejected : Int) s + 1
  queryLens _ := 1
  blockTable := round.blockTable

/-- The attention metadata of the draft steps. -/
def draftSteps : List AttnMetadata := (range numSpecTokens).map round.draftMetadata

/-- The tokens that the verify pass has scored. -/
def scoredLen (b : Nat) : Int :=
  (round.row b).seqLen + 1 -
    if ((round.row b).queryLen : Int) > numSpecTokens + 1 then 1 else ((round.row b).queryLen : Int)

/-- The first `used` slots of `row` denote what request `b` attends to at draft step `s`: the
positions `selected` of the scored prefix and the tokens after it. -/
def Denotes (width s b : Nat) (selected : List Nat) (row : Nat → Int) (used : Int) : Prop :=
  SlotTable.Denotes (round.blockTable b) pageSize width selected (round.scoredLen b)
    ((round.draftMetadata s).seqLens b) row used

variable {round} {b s : Nat}

theorem draftSteps_eq_cons (hs : 0 < numSpecTokens) :
    round.draftSteps = round.draftMetadata 0 :: round.draftSteps.tail := by
  unfold draftSteps
  cases numSpecTokens with
  | zero => exact absurd hs (Nat.lt_irrefl 0)
  | succ n =>
    rw [range_succ_eq_map]
    rfl

theorem draftSteps_plain {m : AttnMetadata} (hm : m ∈ round.draftSteps) :
    m.batchSize = round.batchSize ∧ m.commonPrefixLen = 0 := by
  obtain ⟨_, -, rfl⟩ := mem_map.mp hm
  exact ⟨rfl, rfl⟩

theorem length_draftSteps : round.draftSteps.length = numSpecTokens := by
  unfold draftSteps
  rw [length_map, length_range]

theorem Covered.injOn (h : round.Covered) (hb : b < round.batchSize) :
    Set.InjOn (round.blockTable b)
      {i | ((i * pageSize : Nat) : Int) < (round.row b).seqLen + numSpecTokens} := by
  obtain ⟨ids, hholds, hnodup, hcover⟩ := h b hb
  have hblock : ∀ i : Nat, ((i * pageSize : Nat) : Int) < (round.row b).seqLen + numSpecTokens →
      ∃ h : i < ids.length, round.blockTable b i = ids[i] := fun i hi => by
    have hi : i < ids.length := Nat.lt_of_mul_lt_mul_right (a := pageSize) (by omega)
    refine ⟨hi, congrArg Nat.cast ?_⟩
    have hcarries := hholds.carries i _ (getElem?_eq_getElem hi)
    rwa [Nat.zero_add] at hcarries
  intro i hi j hj heq
  obtain ⟨hlt, hget⟩ := hblock i hi
  obtain ⟨hlt', hget'⟩ := hblock j hj
  rw [hget, hget'] at heq
  exact (hnodup.getElem_inj_iff).mp (Int.ofNat.inj heq)

theorem scoredLen_nonneg : 0 ≤ round.scoredLen b := by
  unfold scoredLen VerifyRow.seqLen
  split <;> omega

theorem draftMetadata_seqLens (hb : b < round.batchSize) (hs : s < numSpecTokens) :
    (round.draftMetadata s).seqLens b =
      (round.row b).seqLen - (round.row b).rejected + s + 1 := by
  have hfits := round.fits b hb
  unfold draftMetadata
  dsimp only
  rw [draftPosition_of_fits]
  omega

theorem draftMetadata_bounds (hb : b < round.batchSize) (hs : s < numSpecTokens) :
    round.scoredLen b + s < (round.draftMetadata s).seqLens b ∧
      (round.draftMetadata s).seqLens b ≤ round.scoredLen b + numSpecTokens + s + 1 ∧
      (round.draftMetadata s).seqLens b ≤ (round.row b).seqLen + numSpecTokens := by
  obtain ⟨hlt, hprefill⟩ := (round.row b).rejected_lt
  rw [draftMetadata_seqLens hb hs]
  unfold scoredLen
  split
  · omega
  · omega

/-- What the selection returns: distinct positions of the scored prefix, as many as `count`
says. -/
structure Selects (round : DraftRound numSpecTokens pageSize) (count : Nat → Nat → Int)
    (selected : Selection) : Prop where
  nodup : ∀ l, ∀ b < round.batchSize, (selected l b).Nodup
  below : ∀ l, ∀ b < round.batchSize, ∀ i ∈ selected l b, (i : Int) < round.scoredLen b
  length : ∀ l, ∀ b < round.batchSize, ((selected l b).length : Int) = count l b

/-- The row of a draft step, whichever overrider writes it: the kernel runs once for the whole
draft, and the step uses the row up to its own sequence length. -/
theorem denotes_of_selects (hcovered : round.Covered) {selected : Selection}
    {count : Nat → Nat → Int} {width l : Nat} {row : Nat → Int}
    (hsel : round.Selects count selected)
    (hb : b < round.batchSize) (hs : s < numSpecTokens)
    (hrow : ∀ col (h : col < (selected l b).length), row col = (selected l b)[col])
    (hwidth : count l b + 2 * numSpecTokens ≤ width) :
    round.Denotes width s b (selected l b)
      (SlotTable.indexToSlots (round.blockTable b) pageSize (selected l b).length
        (round.scoredLen b) ((round.draftMetadata 0).seqLens b - 1 + numSpecTokens) row)
      ((selected l b).length + ((round.draftMetadata 0).seqLens b - round.scoredLen b) + s) := by
  obtain ⟨hlow, hhigh, hreach⟩ := draftMetadata_bounds hb hs
  have hstep := draftMetadata_seqLens hb hs
  have hfirst := draftMetadata_seqLens hb (Nat.lt_of_le_of_lt (Nat.zero_le s) hs)
  rw [show ((selected l b).length : Int) +
      ((round.draftMetadata 0).seqLens b - round.scoredLen b) + s =
    (selected l b).length + ((round.draftMetadata s).seqLens b - round.scoredLen b) by omega]
  refine SlotTable.indexToSlots_denotes row round.page_pos ?_ hrow (hsel.nodup l b hb)
    (hsel.below l b hb) scoredLen_nonneg (by omega) (by omega) ?_
  · exact (hcovered.injOn hb).mono fun i hi => lt_of_lt_of_le hi hreach
  · have hcount := hsel.length l b hb
    omega

end DraftRound

namespace LongSpecOverrider

section verify

variable {m : AttnMetadata} (selected : Selection) {o : LongSpecOverrider}

theorem select_table (l b col : Nat) (h : col < (selected l b).length) :
    (o.select selected).table l b col = (selected l b)[col] := by
  unfold select
  dsimp only
  rw [getD_eq_getElem _ _ (by simpa using h), getElem_map]

/-- The tensors that a verify pass leaves, whether its hooks run or its graph replays. -/
structure Verified (m : AttnMetadata) (selected : Selection) (o : LongSpecOverrider) : Prop where
  validLens : ∀ b < m.batchSize, o.validLens b = validLen o.config m b
  used : ∀ l b, o.used l b = (selected l b).length
  table : ∀ l b col (h : col < (selected l b).length), o.table l b col = (selected l b)[col]

theorem forward_verified (hplain : m.commonPrefixLen = 0) (h : Idle o) :
    Idle (o.forward none (some m) selected).after ∧
      Verified m selected (o.forward none (some m) selected).after ∧
      (o.forward none (some m) selected).after.config = o.config := by
  have hcalled : o.called m = o.beginVerify m :=
    (if_neg (Bool.eq_false_iff.mp h.2)).trans (if_pos h.1)
  have hafter : o.passed m selected o.numLayers = (o.atLayer m o.numLayers).select selected :=
    if_pos ⟨h.2, rfl⟩
  rw [forward_eq selected none hplain h.1]
  dsimp only
  rw [hafter, atLayer, hcalled]
  exact ⟨⟨Nat.mod_self _, h.2⟩, ⟨fun _ hb => if_pos hb, fun _ _ => rfl, select_table selected⟩, rfl⟩

theorem replayVerify_verified : Verified m selected (o.replayVerify m selected) :=
  ⟨fun _ hb => if_pos hb, fun _ _ => rfl, select_table selected⟩

theorem Verified.enterPropose {o' : LongSpecOverrider} (h : Verified m selected o)
    (henter : o.enterPropose = .ok o') : Verified m selected o' ∧ o'.config = o.config := by
  obtain ⟨base, -, hbase⟩ := of_bind henter
  cases hbase
  exact ⟨⟨h.validLens, h.used, h.table⟩, rfl⟩

end verify

section draft

variable {o : LongSpecOverrider} {batchSize : Nat} {steps : List AttnMetadata} {f : ForwardTrace}

theorem draftSteps_tensors {k : Nat} {m : AttnMetadata} {rest : List AttnMetadata}
    (hzero : o.currLayer = 0) (hpropose : o.inPropose = true)
    (hstep : o.metadataInitialized = decide (k ≠ 0))
    (hsteps : ∀ m' ∈ m :: rest, m'.batchSize = m.batchSize ∧ m'.commonPrefixLen = 0) {s : Nat}
    (hf : (o.draftSteps k (m :: rest)).1[s]? = some f) :
    f.after.table = slotted k m o ∧
      ∀ l, ∀ b < m.batchSize, f.after.used l b = bumped k m o l b + s := by
  -- by induction on the step: a later one leaves the table and counts up by one
  induction s generalizing k o m rest with
  | zero =>
    cases hf
    obtain ⟨haligned, -⟩ := draftStep_aligned (hsteps m mem_cons_self).2 hzero hpropose hstep
    obtain ⟨hused, htable, -⟩ := haligned.used k m rfl rfl
    refine ⟨htable, fun l b _ => ?_⟩
    rw [hused]
    exact (Int.add_zero _).symm
  | succ s ih =>
    cases rest with
    | nil => cases hf
    | cons m' rest =>
      obtain ⟨haligned, hin, hinit⟩ :=
        draftStep_aligned (hsteps m mem_cons_self).2 hzero hpropose hstep
      obtain ⟨hused, htable, -⟩ := haligned.used k m rfl rfl
      have hbatch := (hsteps m' (mem_cons_of_mem _ mem_cons_self)).1
      obtain ⟨hrest, hrestUsed⟩ := ih haligned.after hin hinit
        (fun m'' hm => hbatch ▸ hsteps m'' (mem_cons_of_mem _ hm)) hf
      constructor
      · refine hrest.trans (Eq.trans ?_ htable)
        funext l b
        exact if_neg fun hx => Nat.succ_ne_zero k hx.2
      · intro l b hb
        have hused : _ = bumped k m o l b := congrFun (congrFun hused l) b
        rw [hrestUsed l b (hbatch ▸ hb), bumped, if_pos (hbatch ▸ hb), if_neg (Nat.succ_ne_zero k),
          hused]
        omega

theorem draftSteps_calls {k : Nat} (hf : f ∈ (o.draftSteps k steps).1) (haligned : Aligned f) :
    ∀ call ∈ f.calls,
      call.overrider.table = f.after.table ∧ call.overrider.used = f.after.used := by
  have hmem := mem_map_of_mem (f := fun f => (f.step, f.metadata)) hf
  rw [draftSteps_forwards] at hmem
  obtain ⟨⟨m, j⟩, -, heq⟩ := mem_map.mp hmem
  obtain ⟨hj, hm⟩ := Prod.mk.inj heq.symm
  obtain ⟨hused, htable, hcalls⟩ := haligned.used j m hj hm
  intro call hcall
  obtain ⟨hcallUsed, hcallTable⟩ := hcalls call hcall
  exact ⟨hcallTable.trans htable.symm, hcallUsed.trans hused.symm⟩

end draft

/-- `_width`, the number of columns of the table. -/
def width (config : LongSpecConfig) : Nat :=
  config.maxTokens + config.sink + config.recent + 2 * config.numSpecTokens + 1

/-- The number of entries that `mass_select` writes for a row. The count `kStar` reaches the
attention mass; the sink and the most recent positions are always there. -/
def massCount (config : LongSpecConfig) (kStar kMin kMax scored : Int) : Int :=
  if scored ≤ 0 then
    0
  else
    let sink := min (config.sink : Int) scored
    let recent := min (config.recent : Int) (scored - sink)
    let numCandidates := scored - recent - sink
    let room := width config - sink - recent
    let k := min (min (min (max kStar kMin) kMax) numCandidates) room
    max k 0 + sink + recent

def selectCount (m : AttnMetadata) (kStar : Nat → Nat → Int) (o : LongSpecOverrider) (l b : Nat) :
    Int :=
  massCount o.config (kStar l b) ((o.beginVerify m).kMin b) ((o.beginVerify m).kMax b)
    ((o.beginVerify m).validLens b)

theorem selectCount_le (m : AttnMetadata) (kStar : Nat → Nat → Int) (o : LongSpecOverrider)
    (l b : Nat) : o.selectCount m kStar l b + 2 * o.config.numSpecTokens ≤ width o.config := by
  have hmax : (o.beginVerify m).kMax b ≤ o.config.maxTokens := by
    unfold beginVerify
    dsimp only
    split
    · exact (min_le_left _ _).trans (min_le_right _ _)
    · exact Int.natCast_nonneg _
  unfold selectCount massCount width
  dsimp only
  split <;> omega

section round

variable {numSpecTokens pageSize : Nat} {round : DraftRound numSpecTokens pageSize}
variable {selected : Selection} {count : Nat → Nat → Int} {o : LongSpecOverrider}

theorem validLen_eq (hspec : o.config.numSpecTokens = numSpecTokens) (b : Nat) :
    validLen o.config round.verifyMetadata b = round.scoredLen b := by
  have hpos := (round.row b).queryLen_pos
  unfold validLen DraftRound.verifyMetadata DraftRound.scoredLen
  dsimp only
  rw [hspec, if_neg (by omega)]

theorem Verified.tensors (h : Verified round.verifyMetadata selected o)
    (hspec : o.config.numSpecTokens = numSpecTokens) (hpage : o.config.blockSize = pageSize)
    {b : Nat} (hb : b < round.batchSize) (hs : 0 < numSpecTokens) (l : Nat) :
    slotted 0 (round.draftMetadata 0) o l b =
        SlotTable.indexToSlots (round.blockTable b) pageSize (selected l b).length
          (round.scoredLen b) ((round.draftMetadata 0).seqLens b - 1 + numSpecTokens)
          (o.table l b) ∧
      bumped 0 (round.draftMetadata 0) o l b =
        (selected l b).length + ((round.draftMetadata 0).seqLens b - round.scoredLen b) := by
  have hvalid : o.validLens b = round.scoredLen b :=
    (h.validLens b hb).trans (validLen_eq hspec b)
  obtain ⟨hlow, -⟩ := DraftRound.draftMetadata_bounds hb hs
  constructor
  · unfold slotted
    rw [if_pos ⟨hb, rfl⟩, h.used, hvalid, hspec, hpage]
    rfl
  · unfold bumped
    rw [if_pos (show b < (round.draftMetadata 0).batchSize from hb), h.used, hvalid]
    exact max_eq_left (by omega)

theorem Verified.propose (hcovered : round.Covered)
    (h : Verified round.verifyMetadata selected o) (hidle : Idle o)
    (hspec : o.config.numSpecTokens = numSpecTokens) (hpage : o.config.blockSize = pageSize)
    (hsel : round.Selects count selected)
    (hwidth : ∀ l b, count l b + 2 * numSpecTokens ≤ width o.config) :
    ∃ traces o', o.propose round.draftSteps = .ok (traces, o') ∧
      traces.length = numSpecTokens ∧ ∀ s f, traces[s]? = some f →
        (∀ call ∈ f.calls,
          call.overrider.table = f.after.table ∧ call.overrider.used = f.after.used) ∧
        ∀ l, ∀ b < round.batchSize, round.Denotes (width o.config) s b (selected l b)
          (f.after.table l b) (f.after.used l b) := by
  obtain ⟨o₁, henter, hzero, hpropose, hinit⟩ := enterPropose_of_zero hidle.1
  obtain ⟨hverified, hconfig⟩ := h.enterPropose selected henter
  have hsteps := fun m (hm : m ∈ round.draftSteps) => DraftRound.draftSteps_plain hm
  obtain ⟨hall, hlast⟩ := draftSteps_aligned (k := 0) round.draftSteps
    (fun m hm => (hsteps m hm).2) hzero hpropose hinit
  obtain ⟨o₂, hexit, -⟩ := exitPropose_of_zero hlast
  have hlength := congrArg length (draftSteps_forwards 0 round.draftSteps o₁)
  rw [length_map, length_map, length_zipIdx, DraftRound.length_draftSteps] at hlength
  refine ⟨_, o₂, bind_eq_ok.mpr ⟨o₁, henter, bind_eq_ok.mpr ⟨o₂, hexit, rfl⟩⟩, hlength, ?_⟩
  intro s f hf
  have hmem := mem_of_getElem? hf
  refine ⟨draftSteps_calls hmem (hall f hmem), fun l b hb => ?_⟩
  have hs : s < numSpecTokens := hlength ▸ (List.getElem?_eq_some_iff.mp hf).1
  rw [DraftRound.draftSteps_eq_cons (Nat.zero_lt_of_lt hs)] at hf hsteps
  obtain ⟨htable, hused⟩ := draftSteps_tensors (k := 0) hzero hpropose hinit hsteps hf
  obtain ⟨hslots, hfirst⟩ := hverified.tensors (hconfig ▸ hspec) (hconfig ▸ hpage) hb
    (Nat.zero_lt_of_lt hs) l
  rw [htable, hslots, hused l b hb, hfirst]
  exact DraftRound.denotes_of_selects hcovered hsel hb hs (hverified.table l b) (hwidth l b)

end round

end LongSpecOverrider

end LongCtxSpecDecode
