import LongCtxSpecDecode.DraftRounds

/-!
# The metadata of the draft steps

`propose` of `sparse_attn/proposer.py` rewrites the metadata of the verify pass for the first draft
step and advances it in place for the others. What the attention overrider does to the sequence
lengths in between is a parameter.
-/

namespace LongCtxSpecDecode

open SlotTable List

def paddingSlotId : Int := -1

/-- The parts of `CommonAttentionMetadata` that the drafter reads. -/
structure CommonAttentionMetadata where
  seqLens : List Int
  maxSeqLen : Int
  blockTable : Nat → Nat → Int

/-- The attention metadata of a draft step. -/
structure DraftMetadata where
  /-- The first entries of the buffer `positions`. -/
  positions : List Int
  numActualTokens : Nat
  maxQueryLen : Nat
  queryStartLoc : List Nat
  queryStartLocCpu : List Nat
  maxSeqLen : Int
  seqLens : List Int
  blockTable : Nat → Nat → Int
  slotMapping : List Int

/-- `SparseAttnProposer`. -/
structure SparseAttnProposer where
  maxModelLen : Nat
  /-- `max_batch_size`. -/
  maxNumSeqs : Nat
  numSpeculativeTokens : Nat
  blockSize : Nat
  maxModelLen_pos : 0 < maxModelLen
  numSpeculativeTokens_pos : 0 < numSpeculativeTokens
  blockSize_pos : 0 < blockSize

namespace SparseAttnProposer

def tokenArangeNp (p : SparseAttnProposer) : List Nat := range p.maxNumSeqs

def arange (p : SparseAttnProposer) : List Nat := range (max (p.maxNumSeqs + 1) p.maxNumSeqs)

/-- The slot of a draft token; past the model length nothing is written. -/
def slotFor (p : SparseAttnProposer) (blockTable : Nat → Nat → Int) (b : Nat) (position : Int) :
    Int :=
  if position ≥ p.maxModelLen then paddingSlotId
  else slotOf (blockTable b) p.blockSize (clampPosition p.maxModelLen position)

/-- The lengths without the rejected tokens. -/
def rollback (common : CommonAttentionMetadata) (numRejected : Option (List Int)) : List Int :=
  match numRejected with
  | some rejected => zipWith (· - ·) common.seqLens rejected
  | none => common.seqLens

/-- The metadata of the first draft step. -/
def firstStep (p : SparseAttnProposer) (common : CommonAttentionMetadata)
    (numRejected : Option (List Int)) : DraftMetadata :=
  let numTokens := common.seqLens.length
  let positions := rollback common numRejected
  let clampedPositions := positions.map (clampPosition p.maxModelLen)
  { positions := clampedPositions
    numActualTokens := numTokens
    maxQueryLen := 1
    queryStartLoc := p.arange.take (numTokens + 1)
    queryStartLocCpu := p.tokenArangeNp.take (numTokens + 1)
    maxSeqLen := min (common.maxSeqLen + 1) p.maxModelLen
    seqLens := clampedPositions.map (· + 1)
    blockTable := common.blockTable
    slotMapping := positions.mapIdx (p.slotFor common.blockTable) }

/-- One round of the loop of `propose`. -/
def nextStep (p : SparseAttnProposer) (m : DraftMetadata) : DraftMetadata :=
  let positions := m.positions.map (· + 1)
  let clampedPositions := positions.map (clampPosition p.maxModelLen)
  { m with
    positions := clampedPositions
    maxSeqLen := min (m.maxSeqLen + 1) p.maxModelLen
    seqLens := clampedPositions.map (· + 1)
    slotMapping := positions.mapIdx (p.slotFor m.blockTable) }

/-- The metadata of draft step `s`. `override` is what the attention overrider leaves in the tensor
of the sequence lengths. -/
def stepMetadata (p : SparseAttnProposer) (common : CommonAttentionMetadata)
    (numRejected : Option (List Int)) (override : DraftMetadata → List Int) : Nat → DraftMetadata
  | 0 => p.firstStep common numRejected
  | s + 1 =>
    let m := p.stepMetadata common numRejected override s
    p.nextStep { m with seqLens := override m }

variable (p : SparseAttnProposer) (common : CommonAttentionMetadata)
  (numRejected : Option (List Int)) (override : DraftMetadata → List Int)

theorem stepMetadata_succ (s : Nat) : p.stepMetadata common numRejected override (s + 1) =
    p.nextStep (p.stepMetadata common numRejected override s) := rfl

theorem stepMetadata_positions (s : Nat) :
    (p.stepMetadata common numRejected override s).positions =
      (rollback common numRejected).map fun start => draftPosition p.maxModelLen start s := by
  induction s with
  | zero => rfl
  | succ s ih =>
    rw [stepMetadata_succ, nextStep]
    rw [ih, map_map, map_map]
    rfl

theorem stepMetadata_seqLens (s : Nat) :
    (p.stepMetadata common numRejected override s).seqLens =
      (p.stepMetadata common numRejected override s).positions.map (· + 1) := by
  cases s <;> rfl

theorem stepMetadata_fixed (s : Nat) :
    (p.stepMetadata common numRejected override s).queryStartLoc =
        p.arange.take (common.seqLens.length + 1) ∧
      (p.stepMetadata common numRejected override s).queryStartLocCpu =
        p.tokenArangeNp.take (common.seqLens.length + 1) ∧
      (p.stepMetadata common numRejected override s).blockTable = common.blockTable := by
  induction s with
  | zero => exact ⟨rfl, rfl, rfl⟩
  | succ s ih => exact ih

/-- The position of a draft step before it is clamped. -/
def unclampedPosition (maxModelLen : Nat) (start : Int) : Nat → Int
  | 0 => start
  | s + 1 => draftPosition maxModelLen start s + 1

theorem draftPosition_eq_clamp (maxModelLen : Nat) (start : Int) (s : Nat) :
    draftPosition maxModelLen start s =
      clampPosition maxModelLen (unclampedPosition maxModelLen start s) := by
  cases s <;> rfl

theorem draftPosition_of_past {maxModelLen : Nat} {start : Int} {s : Nat}
    (hpast : maxModelLen ≤ unclampedPosition maxModelLen start s) :
    draftPosition maxModelLen start s = 0 := by
  rw [draftPosition_eq_clamp, clampPosition, if_pos hpast]

theorem unclampedPosition_of_fits {maxModelLen : Nat} {start : Int} {s : Nat}
    (hfits : start + s ≤ maxModelLen) : unclampedPosition maxModelLen start s = start + s := by
  cases s with
  | zero => exact (Int.add_zero start).symm
  | succ s =>
    rw [unclampedPosition, draftPosition_of_fits (by omega)]
    omega

theorem slotFor_of_fits {position : Int} (hfits : position < p.maxModelLen)
    (blockTable : Nat → Nat → Int) (b : Nat) :
    p.slotFor blockTable b position = slotOf (blockTable b) p.blockSize position := by
  rw [slotFor, if_neg (not_le.mpr hfits), clampPosition, if_neg (not_le.mpr hfits)]

theorem stepMetadata_slots (b s : Nat) :
    (p.stepMetadata common numRejected override s).slotMapping[b]? =
      (rollback common numRejected)[b]?.map fun start =>
        p.slotFor common.blockTable b (unclampedPosition p.maxModelLen start s) := by
  cases s with
  | zero => exact getElem?_mapIdx
  | succ s =>
    rw [stepMetadata_succ, nextStep, stepMetadata_positions, (stepMetadata_fixed ..).2.2,
      getElem?_mapIdx, getElem?_map, getElem?_map, Option.map_map, Option.map_map]
    rfl

theorem stepMetadata_slotMapping {s : Nat}
    (hfits : ∀ start ∈ rollback common numRejected, start + s < p.maxModelLen) :
    (p.stepMetadata common numRejected override s).slotMapping =
      (p.stepMetadata common numRejected override s).positions.mapIdx fun b position =>
        slotOf (common.blockTable b) p.blockSize position := by
  apply ext_getElem?
  intro b
  rw [stepMetadata_slots, stepMetadata_positions, getElem?_mapIdx, getElem?_map,
    Option.map_map]
  refine Option.map_congr fun start hstart => ?_
  have hlt := hfits start (mem_of_getElem? hstart)
  rw [unclampedPosition_of_fits hlt.le, slotFor_of_fits p hlt, Function.comp_apply,
    draftPosition_of_fits hlt]

/-- What a draft step expects of its metadata, where `starts` are the positions of the first
step. -/
structure WellFormed (s : Nat) (starts : List Int) (blockTable : Nat → Nat → Int)
    (m : DraftMetadata) : Prop where
  positions : m.positions = starts.map (· + (s : Int))
  queryStartLoc : m.queryStartLoc = range (starts.length + 1)
  queryStartLocCpu : m.queryStartLocCpu = range (starts.length + 1)
  seqLens : m.seqLens = m.positions.map (· + 1)
  slotMapping : m.slotMapping = m.positions.mapIdx fun b position =>
    slotOf (blockTable b) p.blockSize position

variable {p common numRejected override}

theorem draftPosition_lt (start : Int) (s : Nat) :
    draftPosition p.maxModelLen start s < p.maxModelLen := by
  have hclamp : ∀ position, clampPosition p.maxModelLen position < p.maxModelLen := by
    intro position
    have hpos := p.maxModelLen_pos
    unfold clampPosition
    split <;> omega
  cases s <;> exact hclamp _

theorem wellFormed_of_fits {s : Nat}
    (hlen : (rollback common numRejected).length = common.seqLens.length)
    (hsize : common.seqLens.length < p.maxNumSeqs)
    (hfits : ∀ start ∈ rollback common numRejected, start + s < p.maxModelLen) :
    p.WellFormed s (rollback common numRejected) common.blockTable
      (p.stepMetadata common numRejected override s) := by
  obtain ⟨hloc, hcpu, -⟩ := stepMetadata_fixed p common numRejected override s
  refine ⟨?_, ?_, ?_, stepMetadata_seqLens .., stepMetadata_slotMapping _ _ _ _ hfits⟩
  · rw [stepMetadata_positions]
    exact map_congr_left fun start hstart => draftPosition_of_fits (hfits start hstart)
  · rw [hloc, arange, take_range]
    congr 1
    omega
  · rw [hcpu, tokenArangeNp, take_range]
    congr 1
    omega

/-- The metadata of all draft steps is well formed exactly for batches below the largest size, in
which no draft token is past the model length. -/
theorem draft_metadata_wellFormed_iff (p : SparseAttnProposer) (common : CommonAttentionMetadata)
    (numRejected : Option (List Int)) (override : DraftMetadata → List Int)
    (hrejected : ∀ rejected, numRejected = some rejected →
      rejected.length = common.seqLens.length) :
    (∀ s < p.numSpeculativeTokens, p.WellFormed s (rollback common numRejected) common.blockTable
      (p.stepMetadata common numRejected override s)) ↔
      common.seqLens.length < p.maxNumSeqs ∧
        ∀ start ∈ rollback common numRejected,
          start + p.numSpeculativeTokens ≤ p.maxModelLen := by
  have hlen : (rollback common numRejected).length = common.seqLens.length := by
    cases numRejected with
    | none => rfl
    | some rejected =>
      rw [rollback, length_zipWith, hrejected rejected rfl, Nat.min_self]
  have hpos := p.numSpeculativeTokens_pos
  constructor
  · intro h
    constructor
    · have hcpu := (h 0 hpos).queryStartLocCpu
      rw [(stepMetadata_fixed ..).2.1] at hcpu
      have hlength := congrArg length hcpu
      rw [tokenArangeNp, take_range, length_range, length_range] at hlength
      omega
    · intro start hstart
      have hlast := (h (p.numSpeculativeTokens - 1) (by omega)).positions
      rw [stepMetadata_positions] at hlast
      have hposition := map_inj_left.mp hlast start hstart
      have hlt := draftPosition_lt (p := p) start (p.numSpeculativeTokens - 1)
      omega
  · rintro ⟨hsize, hfits⟩ s hs
    refine wellFormed_of_fits hlen hsize fun start hstart => ?_
    have hle := hfits start hstart
    omega

/-- A drafter for batches of up to `maxNumSeqs` requests. -/
def smallProposer (maxNumSeqs : Nat) : SparseAttnProposer where
  maxModelLen := 8
  maxNumSeqs
  numSpeculativeTokens := 2
  blockSize := 2
  maxModelLen_pos := by decide
  numSpeculativeTokens_pos := Nat.two_pos
  blockSize_pos := Nat.two_pos

def singleMetadata : CommonAttentionMetadata where
  seqLens := [5]
  maxSeqLen := 5
  blockTable _ i := i + 7

def pairMetadata : CommonAttentionMetadata where
  seqLens := [5, 3]
  maxSeqLen := 5
  blockTable b i := 8 * b + i

/-- One of two requests has a rejected token. -/
theorem draft_metadata_wellFormed_pair :
    (smallProposer 3).WellFormed 1 [4, 3] pairMetadata.blockTable
      ((smallProposer 3).stepMetadata pairMetadata (some [1, 0]) DraftMetadata.seqLens 1) :=
  (draft_metadata_wellFormed_iff (smallProposer 3) pairMetadata (some [1, 0]) DraftMetadata.seqLens
    (by rintro _ ⟨⟩; rfl)).mpr ⟨by decide, by decide⟩ 1 (by decide)

/-- In a batch of the largest size the copy of `query_start_loc` lacks its last entry. -/
theorem largest_batch_not_wellFormed :
    ((smallProposer 1).stepMetadata singleMetadata (some [1]) DraftMetadata.seqLens
      0).queryStartLoc =
        [0, 1] ∧
      ((smallProposer 1).stepMetadata singleMetadata (some [1])
        DraftMetadata.seqLens 0).queryStartLocCpu = [0] ∧
      ¬ (smallProposer 1).WellFormed 0 [4] singleMetadata.blockTable
        ((smallProposer 1).stepMetadata singleMetadata (some [1]) DraftMetadata.seqLens 0) := by
  refine ⟨rfl, rfl, fun h => ?_⟩
  have hcpu := h.queryStartLocCpu
  cases hcpu

/-- Past the model length a request writes nothing and attends to one token. Below it, the request
writes and attends to its own position. -/
def PaddedPast (p : SparseAttnProposer) (starts : List Int) (blockTable : Nat → Nat → Int) (s : Nat)
    (m : DraftMetadata) : Prop :=
  ∀ (b : Nat) (start : Int), starts[b]? = some start →
    (p.maxModelLen ≤ start + s →
      m.slotMapping[b]? = some paddingSlotId ∧ m.seqLens[b]? = some 1) ∧
    (start + s < p.maxModelLen →
      m.slotMapping[b]? = some (slotOf (blockTable b) p.blockSize (start + s)) ∧
        m.seqLens[b]? = some (start + s + 1))

theorem unclampedPosition_of_past {start : Int} {s : Nat} (hpast : p.maxModelLen ≤ start + s)
    (h : p.maxModelLen = 1 ∨ s = 0 ∨ start + s ≤ p.maxModelLen) :
    p.maxModelLen ≤ unclampedPosition p.maxModelLen start s := by
  induction s with
  | zero => exact (Int.add_zero start) ▸ hpast
  | succ s ih =>
    rcases h with hone | hs | hlast
    · rw [unclampedPosition]
      by_cases hfits : start + s < p.maxModelLen
      · rw [draftPosition_of_fits hfits]
        omega
      · rw [draftPosition_of_past (ih (not_lt.mp hfits) (Or.inl hone))]
        omega
    · cases hs
    · rw [unclampedPosition_of_fits hlast]
      exact hpast

theorem stepMetadata_entry {b s : Nat} {start : Int}
    (hstart : (rollback common numRejected)[b]? = some start) :
    (p.stepMetadata common numRejected override s).slotMapping[b]? =
        some (p.slotFor common.blockTable b (unclampedPosition p.maxModelLen start s)) ∧
      (p.stepMetadata common numRejected override s).seqLens[b]? =
        some (draftPosition p.maxModelLen start s + 1) := by
  rw [stepMetadata_slots, stepMetadata_seqLens, stepMetadata_positions, getElem?_map,
    getElem?_map, hstart]
  exact ⟨rfl, rfl⟩

/-- The clamped position counts on from 0, so the guarantee holds exactly when no request is past
the model length before its last draft step, unless there is one step or one position. -/
theorem padded_past_iff (p : SparseAttnProposer) (common : CommonAttentionMetadata)
    (numRejected : Option (List Int)) (override : DraftMetadata → List Int) :
    (∀ s < p.numSpeculativeTokens, p.PaddedPast (rollback common numRejected) common.blockTable s
      (p.stepMetadata common numRejected override s)) ↔
      p.maxModelLen = 1 ∨ p.numSpeculativeTokens = 1 ∨
        ∀ start ∈ rollback common numRejected,
          start + p.numSpeculativeTokens ≤ p.maxModelLen + 1 := by
  have hpos := p.maxModelLen_pos
  have hdrafts := p.numSpeculativeTokens_pos
  constructor
  · intro h
    by_contra hlate
    push Not at hlate
    obtain ⟨hmany, hsteps, start, hmem, hstart⟩ := hlate
    obtain ⟨b, hb⟩ := mem_iff_getElem?.mp hmem
    -- the first step at which the request is past the model length
    obtain ⟨first, hfirst⟩ : ∃ first : Nat, (first : Int) = max 0 (p.maxModelLen - start) :=
      ⟨(max 0 (p.maxModelLen - start)).toNat, by omega⟩
    have hraw : p.maxModelLen ≤ unclampedPosition p.maxModelLen start first :=
      unclampedPosition_of_past (by omega) (by omega)
    have hlen := ((h (first + 1) (by omega) b start hb).1 (by omega)).2
    rw [(stepMetadata_entry hb).2, draftPosition, draftPosition_of_past hraw, clampPosition,
      if_neg (by omega)] at hlen
    cases hlen
  · intro h s hs b start hb
    obtain ⟨hslot, hlen⟩ := @stepMetadata_entry p common numRejected override b s start hb
    rw [hslot, hlen]
    constructor
    · intro hpast
      have hstep : p.maxModelLen = 1 ∨ s = 0 ∨ start + s ≤ p.maxModelLen := by
        rcases h with hone | hsteps | hfits
        · exact Or.inl hone
        · omega
        · have hle := hfits start (mem_of_getElem? hb)
          omega
      have hraw := unclampedPosition_of_past hpast hstep
      rw [slotFor, if_pos hraw, draftPosition_of_past hraw]
      exact ⟨rfl, rfl⟩
    · intro hfits
      rw [unclampedPosition_of_fits hfits.le, slotFor_of_fits p hfits, draftPosition_of_fits hfits]
      exact ⟨rfl, rfl⟩

/-- A request at the model length whose second draft writes to position 1. -/
theorem past_not_padded :
    ((smallProposer 2).stepMetadata ⟨[8], 8, fun _ i => i + 7⟩ none DraftMetadata.seqLens
        0).slotMapping = [paddingSlotId] ∧
      ((smallProposer 2).stepMetadata ⟨[8], 8, fun _ i => i + 7⟩ none DraftMetadata.seqLens
        1).slotMapping = [15] ∧
      ((smallProposer 2).stepMetadata ⟨[8], 8, fun _ i => i + 7⟩ none DraftMetadata.seqLens
        1).seqLens = [2] ∧
      ¬ (smallProposer 2).PaddedPast [8] (fun _ i => i + 7) 1
        ((smallProposer 2).stepMetadata ⟨[8], 8, fun _ i => i + 7⟩ none
          DraftMetadata.seqLens 1) := by
  refine ⟨rfl, rfl, rfl, fun h => ?_⟩
  have hlen := ((h 0 8 rfl).1 (by decide)).2
  cases hlen

end SparseAttnProposer

end LongCtxSpecDecode
