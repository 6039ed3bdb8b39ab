import LongCtxSpecDecode.Library.FloatRounding
import LongCtxSpecDecode.Library.Stores
import LongCtxSpecDecode.Proposer

/-!
# The StreamingLLM view

`attn_overrider/streamingllm.py`: at each draft step the block table is cut down to the first block
and the last ones, and the sequence lengths are reduced in place. The tensors of the budgets and the
block indices are of single precision.
-/

namespace LongCtxSpecDecode

open SlotTable Library Library.Stores List

/-- `max_tokens`, in double precision. -/
def maxSparseTokens (maxModelLen : Nat) (sparseRatio : ℚ) (minTokens : Nat) : Nat :=
  max ⌈FloatFormat.double.round (maxModelLen * sparseRatio)⌉₊ minTokens

/-- `max_blocks`. -/
def maxSparseBlocks (maxModelLen : Nat) (sparseRatio : ℚ) (minTokens blockSize : Nat) : Nat :=
  (maxSparseTokens maxModelLen sparseRatio minTokens + blockSize - 1) / blockSize

/-- `StreamingLLMAttnOverrider`. -/
structure StreamingLLMOverrider extends BaseAttnOverrider where
  sparseRatio : ℚ
  minTokens : Nat
  blockSize : Nat
  maxModelLen : Nat
  /-- The device divides by a scalar by a product with its inverse. -/
  reciprocal : Bool := true
  blockSize_pos : 0 < blockSize
  sliding_pos : 1 < maxSparseBlocks maxModelLen sparseRatio minTokens blockSize
  /-- `_block_table_tensor`. -/
  blockTable : Nat → Nat → Int := fun _ _ => 0

namespace StreamingLLMOverrider

def maxBlocks (o : StreamingLLMOverrider) : Nat :=
  maxSparseBlocks o.maxModelLen o.sparseRatio o.minTokens o.blockSize

def maxSlidingBlocks (o : StreamingLLMOverrider) : Int := o.maxBlocks - 1

/-- An integer as an entry of a float tensor. -/
def toSingle (i : Int) : Int := ⌊round32 i⌋

/-- `budget_tokens`. -/
def budgetTokens (o : StreamingLLMOverrider) (seqLen : Int) : ℚ :=
  max (round32 (round32 seqLen * round32 o.sparseRatio)) (round32 o.minTokens)

/-- The division by `block_size`. -/
def perBlock (o : StreamingLLMOverrider) (tokens : ℚ) : ℚ :=
  if o.reciprocal then round32 (tokens * round32 (1 / o.blockSize))
  else round32 (tokens / o.blockSize)

/-- `budget_blocks`. -/
def budgetBlocks (o : StreamingLLMOverrider) (seqLen : Int) : Int :=
  min ⌈o.perBlock (o.budgetTokens seqLen)⌉ (toSingle o.maxSlidingBlocks)

def lastBlockIndex (o : StreamingLLMOverrider) (seqLen : Int) : Int := (seqLen - 1) / o.blockSize

/-- The first block of the sliding window, at least one. -/
def startBlockIndex (o : StreamingLLMOverrider) (seqLen : Int) : Int :=
  max (toSingle (toSingle (toSingle (o.lastBlockIndex seqLen) - o.budgetBlocks seqLen) + 1)) 1

/-- The blocks from the first sliding one to the last. -/
def numSlidingBlocks (o : StreamingLLMOverrider) (seqLen : Int) : Int :=
  max (toSingle (toSingle (toSingle (o.lastBlockIndex seqLen) - o.startBlockIndex seqLen) + 1)) 0

/-- The new `seqused_k`. -/
def reducedLen (o : StreamingLLMOverrider) (seqLen : Int) : Int :=
  toSingle (toSingle seqLen -
    toSingle (toSingle (o.startBlockIndex seqLen - 1) * toSingle o.blockSize))

/-- The stores of `copy_blocks_kernel` to one row: the sink block, and the tail in tiles. -/
def copyBlocksKernel (src : Nat → Int) (startIdx length : Nat) : List (Nat × Int) :=
  (0, src 0) ::
    (((range ((length + 127) / 128)).flatMap fun tile =>
      (range 128).map (tile * 128 + ·)).filter (· < length)).map fun offset =>
        (1 + offset, src (startIdx + offset))

/-- The stores for the row of a request. -/
def copyRow (o : StreamingLLMOverrider) (src : Nat → Int) (seqLen : Int) : List (Nat × Int) :=
  copyBlocksKernel src (o.startBlockIndex seqLen).toNat (o.numSlidingBlocks seqLen).toNat

/-- `_may_update_attn_metadata` at the first layer. -/
def updateAttnMetadata (o : StreamingLLMOverrider) (m : DraftMetadata) :
    StreamingLLMOverrider × DraftMetadata :=
  ({ o with blockTable := fun b =>
      if b < m.seqLens.length then
        storeAll (o.copyRow (m.blockTable b) (m.seqLens.getD b 0)) (o.blockTable b)
      else o.blockTable b },
   { m with seqLens := m.seqLens.map o.reducedLen })

/-- What an attention call gets. -/
structure StreamingCall where
  blockTable : Nat → Nat → Int
  seqLens : List Int

/-- `_draft_attention` of a layer. -/
def attention (state : (StreamingLLMOverrider × DraftMetadata) × List StreamingCall) :
    (StreamingLLMOverrider × DraftMetadata) × List StreamingCall :=
  let (o, m) :=
    if state.1.1.currLayer > 0 then state.1 else state.1.1.updateAttnMetadata state.1.2
  (({ o with toBaseAttnOverrider := o.toBaseAttnOverrider.advance }, m),
    state.2 ++ [⟨o.blockTable, m.seqLens⟩])

/-- A draft step over all layers. -/
def forward (o : StreamingLLMOverrider) (m : DraftMetadata) :
    (StreamingLLMOverrider × DraftMetadata) × List StreamingCall :=
  (range o.numLayers).foldl (fun state _ => attention state) ((o, m), [])

/-! ### The positions of the view -/

section view

variable (o : StreamingLLMOverrider) (seqLen : Int)

/-- The positions that the view shows: those of the sink block, and those from the first sliding
block on. -/
def viewPositions : List Int :=
  ((range (min (o.blockSize : Int) seqLen).toNat).map fun j : Nat => (j : Int)) ++
    (range (seqLen - o.startBlockIndex seqLen * o.blockSize).toNat).map fun j : Nat =>
      o.startBlockIndex seqLen * o.blockSize + j

/-- The integers of the step are numbers of single precision, and the budget is not too small. -/
structure FitsSingle : Prop where
  seqLen_pos : 0 < seqLen
  seqLen_lt : seqLen < 2 ^ 24
  blockSize_lt : o.blockSize < 2 ^ 24
  maxBlocks_lt : o.maxBlocks < 2 ^ 24
  budget : 0 < o.minTokens ∨ 2 ^ (-24 : ℤ) ≤ o.sparseRatio

variable {o seqLen}

theorem toSingle_eq {i : Int} (hlow : -2 ^ 24 < i) (hhigh : i < 2 ^ 24) : toSingle i = i := by
  rw [toSingle, round32, FloatFormat.round_intCast (by decide) (abs_lt.mpr ⟨hlow, hhigh⟩),
    Int.floor_intCast]

theorem toSingle_index {last i : Int} (hlast : 0 ≤ last) (hlast' : last < 2 ^ 24) (hi : 0 < i)
    (hi' : i < 2 ^ 24) : toSingle (toSingle (toSingle last - i) + 1) = last - i + 1 := by
  rw [toSingle_eq (by omega) hlast', toSingle_eq (i := last - i) (by omega) (by omega),
    toSingle_eq (by omega) (by omega)]

theorem maxSlidingBlocks_pos : 1 ≤ o.maxSlidingBlocks := by
  have hpos := o.sliding_pos
  unfold maxSlidingBlocks maxBlocks
  omega

theorem lastBlockIndex_mul_le (o : StreamingLLMOverrider) (seqLen : Int) :
    o.lastBlockIndex seqLen * o.blockSize < seqLen := by
  have hpos : (0 : Int) < o.blockSize := Int.natCast_pos.mpr o.blockSize_pos
  have hdiv := Int.mul_ediv_add_emod (seqLen - 1) o.blockSize
  have hmod := Int.emod_nonneg (seqLen - 1) hpos.ne'
  unfold lastBlockIndex
  rw [mul_comm]
  omega

theorem one_le_startBlockIndex (o : StreamingLLMOverrider) (seqLen : Int) :
    1 ≤ o.startBlockIndex seqLen := le_max_right _ _

theorem blockSize_le_start (o : StreamingLLMOverrider) (seqLen : Int) :
    (o.blockSize : Int) ≤ o.startBlockIndex seqLen * o.blockSize := by
  have h := Int.mul_le_mul_of_nonneg_right (one_le_startBlockIndex o seqLen)
    (Int.natCast_nonneg o.blockSize)
  rwa [one_mul] at h

theorem mem_viewPositions {i : Int} : i ∈ o.viewPositions seqLen ↔
    (0 ≤ i ∧ i < o.blockSize ∧ i < seqLen) ∨
      (o.startBlockIndex seqLen * o.blockSize ≤ i ∧ i < seqLen) := by
  have hblock := blockSize_le_start o seqLen
  unfold viewPositions
  generalize o.startBlockIndex seqLen * o.blockSize = start at hblock ⊢
  rw [mem_append, mem_map, mem_map]
  constructor
  · rintro (⟨j, hj, rfl⟩ | ⟨j, hj, rfl⟩)
    · have hlt := mem_range.mp hj
      omega
    · have hlt := mem_range.mp hj
      omega
  · rintro (⟨hpos, hlt, hlen⟩ | ⟨hle, hlen⟩)
    · exact .inl ⟨i.toNat, mem_range.mpr (by omega), by omega⟩
    · exact .inr ⟨(i - start).toNat, mem_range.mpr (by omega), by omega⟩

theorem viewPositions_nodup : (o.viewPositions seqLen).Nodup := by
  have hblock := blockSize_le_start o seqLen
  refine nodup_append.mpr ⟨?_, ?_, ?_⟩
  · exact nodup_range.map fun i j h => Int.ofNat.inj h
  · exact nodup_range.map fun i j h => by simpa using h
  · grind

variable (h : o.FitsSingle seqLen)
include h

theorem le_budgetTokens : 2 ^ (-24 : ℤ) ≤ o.budgetTokens seqLen := by
  have hmin : (FloatFormat.single).minExp ≤ -24 := by decide
  have hone : (1 : ℚ) ≤ seqLen := by exact_mod_cast h.seqLen_pos
  unfold budgetTokens
  rcases h.budget with hpos | hratio
  · have hpos' : (1 : ℚ) ≤ o.minTokens := by exact_mod_cast hpos
    calc (2 : ℚ) ^ (-24 : ℤ) ≤ 1 := by norm_num
      _ ≤ round32 o.minTokens := one_le_round32 hpos'
      _ ≤ _ := le_max_right ..
  · have hround := FloatFormat.two_zpow_le_round hmin hratio
    refine le_max_of_le_left (FloatFormat.two_zpow_le_round hmin ?_)
    calc (2 : ℚ) ^ (-24 : ℤ) ≤ round32 o.sparseRatio := hround
      _ ≤ round32 seqLen * round32 o.sparseRatio :=
          le_mul_of_one_le_left (le_trans (by positivity) hround) (one_le_round32 hone)

theorem perBlock_pos {tokens : ℚ} (htokens : 2 ^ (-24 : ℤ) ≤ tokens) :
    0 < o.perBlock tokens := by
  have hpos : (0 : ℚ) < o.blockSize := Nat.cast_pos.mpr o.blockSize_pos
  have hinv : (2 : ℚ) ^ (-24 : ℤ) ≤ 1 / o.blockSize := by
    have hlt : (o.blockSize : ℚ) ≤ 2 ^ (24 : ℤ) := by exact_mod_cast h.blockSize_lt.le
    rw [zpow_neg, ← one_div]
    exact one_div_le_one_div_of_le hpos hlt
  have hround : (2 : ℚ) ^ (-24 : ℤ) ≤ round32 (1 / o.blockSize) :=
    FloatFormat.two_zpow_le_round (by decide) hinv
  have hsmall : (2 : ℚ) ^ (-150 : ℤ) < 2 ^ (-24 : ℤ) * 2 ^ (-24 : ℤ) := by norm_num
  unfold perBlock
  split_ifs
  · exact (round32_pos_iff _).mpr
      (hsmall.trans_le (mul_le_mul htokens hround (by positivity)
        (le_trans (by positivity) htokens)))
  · rw [div_eq_mul_one_div]
    exact (round32_pos_iff _).mpr
      (hsmall.trans_le (mul_le_mul htokens hinv (by positivity) (le_trans (by positivity) htokens)))

theorem toSingle_maxSlidingBlocks :
    toSingle o.maxSlidingBlocks = o.maxSlidingBlocks := by
  have hpos := maxSlidingBlocks_pos (o := o)
  have hlt := h.maxBlocks_lt
  refine toSingle_eq (by omega) ?_
  unfold maxSlidingBlocks
  omega

theorem budgetBlocks_pos : 1 ≤ o.budgetBlocks seqLen := by
  refine le_min (Int.one_le_ceil_iff.mpr (perBlock_pos h (le_budgetTokens h))) ?_
  rw [toSingle_maxSlidingBlocks h]
  exact maxSlidingBlocks_pos

theorem budgetBlocks_le : o.budgetBlocks seqLen ≤ o.maxSlidingBlocks :=
  (min_le_right _ _).trans_eq (toSingle_maxSlidingBlocks h)

theorem lastBlockIndex_nonneg : 0 ≤ o.lastBlockIndex seqLen :=
  Int.ediv_nonneg (by have := h.seqLen_pos; omega) (Int.natCast_nonneg _)

theorem lastBlockIndex_lt : o.lastBlockIndex seqLen < 2 ^ 24 := by
  have hpos := h.seqLen_pos
  have hlt := h.seqLen_lt
  have hle : (seqLen - 1) / o.blockSize ≤ seqLen - 1 := Int.ediv_le_self _ (by omega)
  unfold lastBlockIndex
  omega

theorem startBlockIndex_eq : o.startBlockIndex seqLen =
    max (o.lastBlockIndex seqLen - o.budgetBlocks seqLen + 1) 1 := by
  have hnonneg := lastBlockIndex_nonneg h
  have hlt := lastBlockIndex_lt h
  have hpos := budgetBlocks_pos h
  have hle := budgetBlocks_le h
  have hmax := h.maxBlocks_lt
  unfold maxSlidingBlocks at hle
  rw [startBlockIndex, toSingle_index hnonneg hlt (by omega) (by omega)]

theorem numSlidingBlocks_eq : o.numSlidingBlocks seqLen =
    max (o.lastBlockIndex seqLen - o.startBlockIndex seqLen + 1) 0 := by
  have hnonneg := lastBlockIndex_nonneg h
  have hlt := lastBlockIndex_lt h
  have hpos := budgetBlocks_pos h
  have hstart := startBlockIndex_eq h
  rw [numSlidingBlocks, toSingle_index hnonneg hlt (by omega) (by omega)]

theorem startBlockIndex_cases :
    o.startBlockIndex seqLen * o.blockSize < seqLen ∨
      (o.startBlockIndex seqLen = 1 ∧ seqLen ≤ o.blockSize) := by
  have hbudget := budgetBlocks_pos h
  have hlast := lastBlockIndex_mul_le o seqLen
  rcases le_total (o.lastBlockIndex seqLen - o.budgetBlocks seqLen + 1) 1 with hle | hle
  · have hone : o.startBlockIndex seqLen = 1 := (startBlockIndex_eq h).trans (max_eq_right hle)
    rw [hone, one_mul]
    exact (lt_or_ge _ _).imp_right fun h => ⟨rfl, h⟩
  · left
    have hstart : o.startBlockIndex seqLen ≤ o.lastBlockIndex seqLen := by
      rw [startBlockIndex_eq h]
      omega
    exact (Int.mul_le_mul_of_nonneg_right hstart (Int.natCast_nonneg _)).trans_lt hlast

theorem reducedLen_eq : o.reducedLen seqLen =
    seqLen - o.startBlockIndex seqLen * o.blockSize + o.blockSize := by
  have hpos := h.seqLen_pos
  have hlt := h.seqLen_lt
  have hsize := h.blockSize_lt
  have hstart := one_le_startBlockIndex o seqLen
  have hcases := startBlockIndex_cases h
  have hblock := blockSize_le_start o seqLen
  have hsub := sub_one_mul (o.startBlockIndex seqLen) (o.blockSize : Int)
  have hskipped : o.startBlockIndex seqLen - 1 ≤ (o.startBlockIndex seqLen - 1) * o.blockSize :=
    le_mul_of_one_le_right (by omega) (by exact_mod_cast o.blockSize_pos)
  have hle : (o.startBlockIndex seqLen - 1) * o.blockSize < seqLen := by
    rcases hcases with hlt' | ⟨hone, -⟩
    · omega
    · rw [hone]
      omega
  rw [reducedLen, toSingle_eq (i := o.startBlockIndex seqLen - 1) (by omega) (by omega),
    toSingle_eq (i := o.blockSize) (by omega) (by exact_mod_cast hsize),
    toSingle_eq (i := seqLen) (by omega) (by omega),
    toSingle_eq (i := (o.startBlockIndex seqLen - 1) * o.blockSize) (by omega) (by omega),
    toSingle_eq (by omega) (by omega), hsub]
  ring

theorem viewPositions_eq : o.viewPositions seqLen =
    (range (o.reducedLen seqLen).toNat).map fun j : Nat =>
      if j < o.blockSize then (j : Int) else j + (o.startBlockIndex seqLen - 1) * o.blockSize := by
  have hblock := blockSize_le_start o seqLen
  have hsub := sub_one_mul (o.startBlockIndex seqLen) (o.blockSize : Int)
  have hcases := startBlockIndex_cases h
  unfold viewPositions
  rw [reducedLen_eq h, hsub]
  rcases hcases with hlt | ⟨hone, hle⟩
  · generalize o.startBlockIndex seqLen * o.blockSize = start at hblock hlt ⊢
    have hmin : (min (o.blockSize : Int) seqLen).toNat = o.blockSize := by omega
    have hlength : (seqLen - start + o.blockSize).toNat = o.blockSize + (seqLen - start).toNat := by
      omega
    rw [hmin, hlength, range_add, map_append, map_map]
    congr 1
    · exact map_congr_left fun j hj => (if_pos (mem_range.mp hj)).symm
    · refine map_congr_left fun j _ => ?_
      rw [Function.comp_apply]
      omega
  · grind

theorem getLast?_viewPositions :
    (o.viewPositions seqLen).getLast? = some (seqLen - 1) := by
  have hlen := h.seqLen_pos
  have hcases := startBlockIndex_cases h
  have hsub := sub_one_mul (o.startBlockIndex seqLen) (o.blockSize : Int)
  have hreduced := reducedLen_eq h
  obtain ⟨n, hn⟩ : ∃ n, (o.reducedLen seqLen).toNat = n + 1 :=
    ⟨(o.reducedLen seqLen).toNat - 1, by
      rcases hcases with hlt | ⟨hone, hle⟩
      · omega
      · rw [hone] at hreduced
        omega⟩
  rw [viewPositions_eq h, hn, range_succ, map_append, map_singleton,
    getLast?_append_of_ne_nil _ (cons_ne_nil _ _), getLast?_singleton]
  congr 1
  rcases hcases with hlt | ⟨hone, hle⟩
  · omega
  · rw [hone] at hreduced ⊢
    omega

end view

/-! ### The copied blocks -/

section copy

variable {src dst : Nat → Int} {startIdx length : Nat}

theorem mem_copyBlocksKernel {store : Nat × Int} :
    store ∈ copyBlocksKernel src startIdx length ↔
      store = (0, src 0) ∨ ∃ offset < length, store = (1 + offset, src (startIdx + offset)) := by
  unfold copyBlocksKernel
  rw [flatMap_range_tiles, mem_cons, mem_map]
  refine or_congr_right ⟨?_, ?_⟩
  · rintro ⟨offset, hoffset, rfl⟩
    exact ⟨offset, of_decide_eq_true (mem_filter.mp hoffset).2, rfl⟩
  · grind

theorem storeAll_copyBlocksKernel (column : Nat) :
    storeAll (copyBlocksKernel src startIdx length) dst column =
      if column = 0 then src 0
      else if column ≤ length then src (startIdx + (column - 1)) else dst column := by
  have hvalue : ∀ store ∈ copyBlocksKernel src startIdx length, store.2 =
      if store.1 = 0 then src 0 else src (startIdx + (store.1 - 1)) := by
    intro store hstore
    rcases mem_copyBlocksKernel.mp hstore with rfl | ⟨offset, -, rfl⟩
    · rfl
    · rw [if_neg (by omega), Nat.add_sub_cancel_left]
  have hmem : column ∈ (copyBlocksKernel src startIdx length).map Prod.fst ↔
      column = 0 ∨ column ≤ length := by
    rw [mem_map]
    constructor
    · grind [mem_copyBlocksKernel]
    · rintro h
      rcases Nat.eq_zero_or_pos column with rfl | hpos
      · exact ⟨_, mem_copyBlocksKernel.mpr (.inl rfl), rfl⟩
      · exact ⟨(1 + (column - 1), src (startIdx + (column - 1))),
          mem_copyBlocksKernel.mpr (.inr ⟨column - 1, by omega, rfl⟩), by omega⟩
  rw [storeAll_apply (v := fun a => if a = 0 then src 0 else src (startIdx + (a - 1))) hvalue]
  by_cases hzero : column = 0
  · rw [if_pos (hmem.mpr (.inl hzero)), if_pos hzero, if_pos hzero]
  · rw [if_neg hzero, if_neg hzero]
    exact if_congr (hmem.trans (or_iff_right hzero)) rfl rfl

variable {o : StreamingLLMOverrider} {seqLen : Int} (h : o.FitsSingle seqLen)
include h

theorem copyRow_lt_maxBlocks :
    ∀ store ∈ o.copyRow src seqLen, store.1 < o.maxBlocks := by
  intro store hstore
  have hsliding := maxSlidingBlocks_pos (o := o)
  have hle := budgetBlocks_le h
  have hstart : o.lastBlockIndex seqLen - o.budgetBlocks seqLen + 1 ≤ o.startBlockIndex seqLen :=
    (le_max_left _ _).trans_eq (startBlockIndex_eq h).symm
  unfold maxSlidingBlocks at hle hsliding
  rcases mem_copyBlocksKernel.mp hstore with rfl | ⟨offset, hlt, rfl⟩
  · omega
  · rw [numSlidingBlocks_eq h] at hlt
    omega

theorem copyRow_denotes :
    ((range (o.reducedLen seqLen).toNat).map fun j : Nat =>
      slotOf (storeAll (o.copyRow src seqLen) dst) o.blockSize j) =
      (o.viewPositions seqLen).map (slotOf src o.blockSize) := by
  rw [viewPositions_eq h, map_map]
  refine map_congr_left fun j hj => ?_
  have hstart := one_le_startBlockIndex o seqLen
  have hpos : (0 : Int) < o.blockSize := Int.natCast_pos.mpr o.blockSize_pos
  have hcolumn : ((j : Int) / o.blockSize).toNat = j / o.blockSize := by
    rw [← Int.natCast_ediv, Int.toNat_natCast]
  rw [Function.comp_apply, slotOf, hcolumn, copyRow, storeAll_copyBlocksKernel]
  by_cases hsink : j < o.blockSize
  · rw [if_pos (Nat.div_eq_of_lt hsink), if_pos hsink, slotOf, hcolumn, Nat.div_eq_of_lt hsink]
  · -- a sliding block, which is at most the last one
    have hblock : 1 ≤ j / o.blockSize := (Nat.one_le_div_iff o.blockSize_pos).mpr (not_lt.mp hsink)
    have hlt : (j : Int) + (o.startBlockIndex seqLen - 1) * o.blockSize ≤ seqLen - 1 := by
      have hj := mem_range.mp hj
      have hsub := sub_one_mul (o.startBlockIndex seqLen) (o.blockSize : Int)
      rw [reducedLen_eq h] at hj
      omega
    have hlast := Int.ediv_le_ediv hpos hlt
    rw [Int.add_mul_ediv_right _ _ hpos.ne', ← lastBlockIndex] at hlast
    have hle : j / o.blockSize ≤ (o.numSlidingBlocks seqLen).toNat := by
      rw [numSlidingBlocks_eq h]
      omega
    rw [if_neg (by omega), if_pos hle, if_neg hsink, slotOf, Int.add_mul_ediv_right _ _ hpos.ne',
      Int.add_mul_emod_self_right]
    congr 3
    omega

end copy

/-! ### The window -/

section window

variable (o : StreamingLLMOverrider) (seqLen : Int)

/-- The configured window of recent tokens. -/
def window : ℚ := max (seqLen * o.sparseRatio) o.minTokens

/-- What a draft step expects of a request's row and length: the pair shows the positions of the
view in order, each once and the newest last, and the window of recent tokens is among them. -/
structure ViewSound (src row : Nat → Int) (length : Int) : Prop where
  denotes : ((range length.toNat).map fun j : Nat => slotOf row o.blockSize j) =
    (o.viewPositions seqLen).map (slotOf src o.blockSize)
  nodup : (o.viewPositions seqLen).Nodup
  newest : (o.viewPositions seqLen).getLast? = some (seqLen - 1)
  recent : ∀ i : Int, 0 ≤ i → i < seqLen → (seqLen - i : ℚ) ≤ o.window seqLen →
    i ∈ o.viewPositions seqLen

/-- With `n` blocks for the rounded budget: the sink block and `n` more hold the sequence, or the
tokens of the last block and `n - 1` whole ones are as many as the window. -/
def WindowCovered : Prop :=
  let tokens := max (round32 (round32 seqLen * round32 o.sparseRatio)) (round32 o.minTokens)
  let quotient := if o.reciprocal then round32 (tokens * round32 (1 / o.blockSize))
    else round32 (tokens / o.blockSize)
  let n := min ⌈quotient⌉ (o.maxBlocks - 1)
  seqLen ≤ (n + 1) * o.blockSize ∨
    o.window seqLen < (((n - 1) * o.blockSize + (seqLen - 1) % o.blockSize + 1 : Int) : ℚ) + 1

variable {o seqLen} (h : o.FitsSingle seqLen)
include h

theorem recent_iff :
    (∀ i : Int, 0 ≤ i → i < seqLen → (seqLen - i : ℚ) ≤ o.window seqLen →
      i ∈ o.viewPositions seqLen) ↔ o.startBlockIndex seqLen = 1 ∨
        o.window seqLen < (seqLen - o.startBlockIndex seqLen * o.blockSize + 1 : ℚ) := by
  have hpos := o.blockSize_pos
  constructor
  · intro hrecent
    by_contra hnot
    obtain ⟨hstart, hwindow⟩ := not_or.mp hnot
    have htwo : 2 ≤ o.startBlockIndex seqLen := by
      have hone := one_le_startBlockIndex o seqLen
      omega
    have hle := Int.mul_le_mul_of_nonneg_right htwo (Int.natCast_nonneg o.blockSize)
    have hlt := (startBlockIndex_cases h).resolve_right fun hone => hstart hone.1
    -- the last token of the skipped blocks
    have hskipped := hrecent (o.startBlockIndex seqLen * o.blockSize - 1) (by omega) (by omega) (by
      push_cast
      linarith)
    rcases mem_viewPositions.mp hskipped with ⟨-, hsink, -⟩ | ⟨hrecent, -⟩ <;> omega
  · intro hcovered i hzero hi hrecent
    rw [mem_viewPositions]
    rcases hcovered with hone | hwindow
    · rw [hone]
      omega
    · refine .inr ⟨?_, hi⟩
      have hlt : (o.startBlockIndex seqLen * o.blockSize - 1 : ℚ) < i := by linarith
      have hlt' : o.startBlockIndex seqLen * o.blockSize - 1 < i := by exact_mod_cast hlt
      omega

theorem windowCovered_iff : o.WindowCovered seqLen ↔
    o.startBlockIndex seqLen = 1 ∨
      o.window seqLen < (seqLen - o.startBlockIndex seqLen * o.blockSize + 1 : ℚ) := by
  have hbudget : o.budgetBlocks seqLen = min ⌈o.perBlock (o.budgetTokens seqLen)⌉
      (o.maxBlocks - 1) := by
    rw [budgetBlocks, toSingle_maxSlidingBlocks h]
    rfl
  change seqLen ≤ (min ⌈o.perBlock (o.budgetTokens seqLen)⌉ (o.maxBlocks - 1) + 1) * o.blockSize ∨
    o.window seqLen < (((min ⌈o.perBlock (o.budgetTokens seqLen)⌉ (o.maxBlocks - 1) - 1) *
      o.blockSize + (seqLen - 1) % o.blockSize + 1 : Int) : ℚ) + 1 ↔ _
  rw [← hbudget]
  have hpos : (0 : Int) < o.blockSize := Int.natCast_pos.mpr o.blockSize_pos
  have hdiv := Int.mul_ediv_add_emod (seqLen - 1) o.blockSize
  have hstart := startBlockIndex_eq h
  have hone : seqLen ≤ (o.budgetBlocks seqLen + 1) * o.blockSize ↔
      o.startBlockIndex seqLen = 1 := by
    have hlt := Int.ediv_lt_iff_lt_mul (a := seqLen - 1) (b := o.budgetBlocks seqLen + 1) hpos
    rw [← lastBlockIndex] at hlt
    omega
  rw [hone]
  refine or_congr_right' fun hskip => ?_
  -- blocks are skipped, so the sliding ones are as many as the budget
  have hsliding : (o.budgetBlocks seqLen - 1) * o.blockSize + (seqLen - 1) % o.blockSize + 1 =
      seqLen - o.startBlockIndex seqLen * o.blockSize := by
    have hindex : o.startBlockIndex seqLen =
        o.lastBlockIndex seqLen - o.budgetBlocks seqLen + 1 := by
      omega
    rw [hindex, lastBlockIndex]
    linarith
  rw [hsliding]
  push_cast
  rfl

theorem viewSound_iff {src dst : Nat → Int} :
    o.ViewSound seqLen src (storeAll (o.copyRow src seqLen) dst) (o.reducedLen seqLen) ↔
      o.WindowCovered seqLen := by
  rw [windowCovered_iff h, ← recent_iff h]
  exact ⟨fun hsound => hsound.recent, fun hrecent =>
    ⟨copyRow_denotes h, viewPositions_nodup, getLast?_viewPositions h, hrecent⟩⟩

end window

/-! ### The draft steps -/

section steps

/-- The overrider and the metadata when draft step `s` begins. -/
def draftSteps (p : SparseAttnProposer) (common : CommonAttentionMetadata)
    (numRejected : Option (List Int)) (o : StreamingLLMOverrider) :
    Nat → StreamingLLMOverrider × DraftMetadata
  | 0 => (o, p.firstStep common numRejected)
  | s + 1 =>
    let state := draftSteps p common numRejected o s
    let next := (state.1.forward state.2).1
    (next.1, p.nextStep next.2)

variable {o : StreamingLLMOverrider} {m : DraftMetadata}

theorem updateAttnMetadata_row {b : Nat} {seqLen : Int} (hb : m.seqLens[b]? = some seqLen) :
    (o.updateAttnMetadata m).1.blockTable b =
      storeAll (o.copyRow (m.blockTable b) seqLen) (o.blockTable b) := by
  have hget : m.seqLens.getD b 0 = seqLen := by rw [getD_eq_getElem?_getD, hb, Option.getD_some]
  rw [← hget]
  exact if_pos (List.getElem?_eq_some_iff.mp hb).1

theorem updateAttnMetadata_length {b : Nat} {seqLen : Int} (hb : m.seqLens[b]? = some seqLen) :
    (o.updateAttnMetadata m).2.seqLens.getD b 0 = o.reducedLen seqLen := by
  rw [updateAttnMetadata, getD_eq_getElem?_getD, getElem?_map, hb, Option.map_some,
    Option.getD_some]

theorem foldl_attention (hlayer : o.currLayer = 0) (n : Nat) (hn : n < o.numLayers) :
    (range (n + 1)).foldl (fun state _ => attention state) ((o, m), []) =
      (({ (o.updateAttnMetadata m).1 with
            toBaseAttnOverrider := o.toBaseAttnOverrider.afterCalls (n + 1) },
          (o.updateAttnMetadata m).2),
        replicate (n + 1) ⟨(o.updateAttnMetadata m).1.blockTable,
          (o.updateAttnMetadata m).2.seqLens⟩) := by
  induction n with
  | zero =>
    rw [range_one, foldl_cons, attention]
    simp [updateAttnMetadata, BaseAttnOverrider.advance, hlayer]
  | succ n ih =>
    rw [range_succ, foldl_append, ih (by omega), foldl_cons, attention]
    have hlt : (o.toBaseAttnOverrider.afterCalls (n + 1)).currLayer = n + 1 :=
      Nat.mod_eq_of_lt hn
    dsimp only
    rw [hlt, if_pos (Nat.succ_pos n), BaseAttnOverrider.advance, hlt]
    exact Prod.ext rfl replicate_succ'.symm

theorem forward_eq (hlayer : o.currLayer = 0) : o.forward m =
    (o.updateAttnMetadata m, replicate o.numLayers
      ⟨(o.updateAttnMetadata m).1.blockTable, (o.updateAttnMetadata m).2.seqLens⟩) := by
  obtain ⟨n, hn⟩ : ∃ n, o.numLayers = n + 1 := Nat.exists_eq_succ_of_ne_zero o.numLayers_pos.ne'
  have hback : o.toBaseAttnOverrider.afterCalls (n + 1) = o.toBaseAttnOverrider := by
    rw [BaseAttnOverrider.afterCalls, ← hn, Nat.mod_self, ← hlayer]
  rw [forward, hn, foldl_attention hlayer n (by omega), hback]
  rfl

theorem draftSteps_eq (p : SparseAttnProposer) (common : CommonAttentionMetadata)
    (numRejected : Option (List Int)) (hlayer : o.currLayer = 0) (s : Nat) :
    (∃ blockTable, (draftSteps p common numRejected o s).1 = { o with blockTable }) ∧
      (draftSteps p common numRejected o s).2 =
        p.stepMetadata common numRejected (fun m => m.seqLens.map o.reducedLen) s := by
  induction s with
  | zero => exact ⟨⟨o.blockTable, rfl⟩, rfl⟩
  | succ s ih =>
    obtain ⟨⟨blockTable, ho⟩, hm⟩ := ih
    rw [draftSteps]
    rw [ho, hm, forward_eq (o := { o with blockTable }) hlayer]
    exact ⟨⟨_, rfl⟩, rfl⟩

def smallStreaming : StreamingLLMOverrider where
  numLayers := 2
  numLayers_pos := Nat.two_pos
  sparseRatio := 1 / 16
  minTokens := 32
  blockSize := 16
  maxModelLen := 1024
  blockSize_pos := by decide
  sliding_pos := by decide +kernel

def streamingProposer : SparseAttnProposer where
  maxModelLen := 1024
  maxNumSeqs := 4
  numSpeculativeTokens := 2
  blockSize := 16
  maxModelLen_pos := by decide
  numSpeculativeTokens_pos := Nat.two_pos
  blockSize_pos := by decide

/-- One request after `computed` tokens, whose blocks are the pages of the table. -/
def requestAt (computed : Int) : CommonAttentionMetadata where
  seqLens := [computed]
  maxSeqLen := computed
  blockTable _ i := i

end steps

end StreamingLLMOverrider

end LongCtxSpecDecode
