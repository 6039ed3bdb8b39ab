import Mathlib

/-!
# Addresses in 32-bit arithmetic

The offsets that `_gather_kernel` of `longspec/kernels/draft_gather.py` and `_c2q_metric_kernel` of
`longspec/kernels/c2q_scores.py` compute. Integers are multiplied and added in 32-bit two's
complement. An integer is added to a pointer in 64 bits.
-/

namespace LongCtxSpecDecode.KernelAddresses

/-- What a register of 32 bits keeps. -/
def int32 (x : Int) : Int := x.bmod (2 ^ 32)

/-- The elements from the first one of a tensor of rows to the end of its last one. -/
def extent (rows stride size : Nat) : Nat := (rows - 1) * stride + size

section

variable {x y : Int}

theorem int32_eq_self_iff (h : 0 ≤ x) : int32 x = x ↔ x < 2 ^ 31 := by
  unfold int32
  rw [Int.bmod_def]
  split <;> omega

theorem int32_le (h : 0 ≤ x) : int32 x ≤ x := by
  unfold int32
  rw [Int.bmod_def]
  split <;> omega

theorem int32_mul : int32 (int32 x * y) = int32 (x * y) := Int.bmod_mul_bmod

theorem int32_add_left : int32 (int32 x + y) = int32 (x + y) := Int.bmod_add_bmod

theorem int32_add_right : int32 (x + int32 y) = int32 (x + y) := Int.add_bmod_bmod

theorem row_lt {row rows i size : Nat} (hrow : row < rows) (hi : i < size) :
    row * size + i < rows * size :=
  (Nat.add_lt_add_left hi _).trans_le (Nat.succ_mul _ _ ▸ Nat.mul_le_mul_right _ hrow)

theorem lt_extent {row rows i size : Nat} (stride : Nat) (hrow : row < rows) (hi : i < size) :
    row * stride + i < extent rows stride size :=
  Nat.add_lt_add_of_le_of_lt (Nat.mul_le_mul_right _ (Nat.le_sub_one_of_lt hrow)) hi

end

/-! ### The gather -/

/-- A launch of `gather_tokens`. The cache and the scratch are contiguous, with `inner` elements for
a token; the slot ids are given by their offset in a table of `slotsWidth` columns. -/
structure GatherLaunch where
  numSlots : Nat
  inner : Nat
  batch : Nat
  width : Nat
  slotsWidth : Nat
  strideSlots : Nat
  slots : Int → Nat
  starts : Nat → Nat
  ends : Nat → Nat
  slots_lt : ∀ offset, slots offset < numSlots
  ends_le : ∀ b, ends b ≤ width ∧ ends b ≤ slotsWidth
  args_lt : numSlots ≤ 2 ^ 31 ∧ strideSlots < 2 ^ 31 ∧ width * inner < 2 ^ 31

@[ext] structure GatherOffsets where
  slots : Int
  src : Int
  dst : Int

namespace GatherLaunch

variable (g : GatherLaunch) (b t i : Nat)

/-- The offsets of one element, where `w` is what a register keeps of a sum or a product. -/
def offsets (w : Int → Int) : GatherOffsets :=
  let slots := w (b * g.strideSlots) + t
  { slots
    src := w (w (g.slots slots * g.inner) + i)
    dst := w (w (w (b * (g.width * g.inner : Nat)) + w (t * g.inner)) + i) }

/-- For every element that the masks leave. -/
def ForElements (p : Nat → Nat → Nat → Prop) : Prop :=
  ∀ b < g.batch, ∀ t, g.starts b ≤ t → t < g.ends b → ∀ i < g.inner, p b t i

/-- Each offset is one of its tensor. -/
@[mk_iff] structure Inside (o : GatherOffsets) : Prop where
  slots : 0 ≤ o.slots ∧ o.slots < extent g.batch g.strideSlots g.slotsWidth
  src : 0 ≤ o.src ∧ o.src < g.numSlots * g.inner
  dst : 0 ≤ o.dst ∧ o.dst < g.batch * (g.width * g.inner)

/-- The offsets are the mathematical ones, inside the tensors. -/
def Exact : Prop :=
  g.offsets b t i int32 = g.offsets b t i id ∧ g.Inside (g.offsets b t i int32)

/-- The values that are kept in 32 bits. -/
def Fits : Prop :=
  (b * g.strideSlots : Int) < 2 ^ 31 ∧ (g.offsets b t i id).src < 2 ^ 31 ∧
    (g.offsets b t i id).dst < 2 ^ 31

theorem offsets_eq_iff : g.offsets b t i int32 = g.offsets b t i id ↔ g.Fits b t i := by
  have hslots := int32_eq_self_iff (x := b * g.strideSlots) (by positivity)
  simp only [Fits, offsets, GatherOffsets.ext_iff, int32_add_left, int32_add_right, id_eq,
    add_left_inj, hslots]
  refine and_congr_right fun hlt => ?_
  rw [hslots.mpr hlt, int32_eq_self_iff (by positivity), int32_eq_self_iff (by positivity)]

variable {g b t i}

theorem inside_offsets (hb : b < g.batch) (ht : t < g.ends b) (hi : i < g.inner) :
    g.Inside (g.offsets b t i id) := by
  obtain ⟨hwidth, hslots⟩ := g.ends_le b
  have hdst := row_lt (row_lt hb (ht.trans_le hwidth)) hi
  rw [Nat.add_mul, Nat.mul_assoc, Nat.mul_assoc] at hdst
  simp only [inside_iff, offsets, id_eq]
  exact ⟨⟨by positivity, mod_cast lt_extent g.strideSlots hb (ht.trans_le hslots)⟩,
    ⟨by positivity, mod_cast row_lt (g.slots_lt _) hi⟩, ⟨by positivity, mod_cast hdst⟩⟩

theorem exact_iff : g.ForElements g.Exact ↔ g.ForElements g.Fits := by
  refine forall₅_congr fun b hb t _ ht => forall₂_congr fun i hi => ?_
  refine (and_iff_left_of_imp fun heq => ?_).trans (g.offsets_eq_iff b t i)
  rw [heq]
  exact inside_offsets hb ht hi

end GatherLaunch

/-! ### The scores -/

/-- A launch of `c2q_metric`. The cache is contiguous; the block table is given by offset, and the
stride of `lse` is 0 without weights. The queries are `[totalQ, heads, dim]`, `lse` is
`[heads, totalQ]`, the block table `[batch, maxBlocks]` and the output `[batch, maxLen]`. -/
structure ScoreLaunch where
  numBlocks : Nat
  page : Nat
  kvHeads : Nat
  group : Nat
  dim : Nat
  batch : Nat
  totalQ : Nat
  maxBlocks : Nat
  maxLen : Nat
  strideQt : Nat
  strideQh : Nat
  strideBt : Nat
  strideLseH : Nat
  strideOut : Nat
  blockTable : Int → Nat
  cuSeqlensQ : Nat → Nat
  validLens : Nat → Nat
  sizes_pos : 0 < page ∧ 0 < kvHeads ∧ 0 < group ∧ 0 < dim
  blockTable_lt : ∀ offset, blockTable offset < numBlocks
  validLens_le : ∀ b, validLens b ≤ maxLen ∧ validLens b ≤ maxBlocks * page
  cuSeqlensQ_lt : ∀ b, 0 < validLens b → cuSeqlensQ b < cuSeqlensQ (b + 1) ∧
    cuSeqlensQ (b + 1) ≤ totalQ
  args_lt : numBlocks * page ≤ 2 ^ 31 ∧ kvHeads * dim < 2 ^ 31 ∧ strideQt < 2 ^ 31 ∧
    strideQh < 2 ^ 31 ∧ strideBt < 2 ^ 31 ∧ strideLseH < 2 ^ 31 ∧ strideOut < 2 ^ 31

@[ext] structure ScoreOffsets where
  blockTable : Int
  k : Int
  q : Int
  lse : Int
  out : Int

namespace ScoreLaunch

variable (s : ScoreLaunch) (b t h gp d tok : Nat)

/-- The offsets for one token of the cache and one element of a query row. -/
def offsets (w : Int → Int) : ScoreOffsets :=
  let blockTable := w (b * s.strideBt) + (t / s.page : Nat)
  let slot := w (w (s.blockTable blockTable * s.page) + (t % s.page : Nat))
  let heads := w (h * s.group + gp)
  { blockTable
    k := w (slot * (s.kvHeads * s.dim : Nat)) + w (h * s.dim) + d
    q := w (heads * s.strideQh) + d + w (tok * s.strideQt)
    lse := w (heads * s.strideLseH) + tok
    out := w (b * s.strideOut) + t }

/-- For every token of a valid length and every element of its two query rows. -/
def ForElements (p : Nat → Nat → Nat → Nat → Nat → Nat → Prop) : Prop :=
  ∀ b < s.batch, ∀ t < s.validLens b, ∀ h < s.kvHeads, ∀ gp < s.group, ∀ d < s.dim,
    ∀ tok ∈ [s.cuSeqlensQ b, s.cuSeqlensQ (b + 1) - 1], p b t h gp d tok

/-- Each offset is one of its tensor. -/
@[mk_iff] structure Inside (o : ScoreOffsets) : Prop where
  blockTable : 0 ≤ o.blockTable ∧ o.blockTable < extent s.batch s.strideBt s.maxBlocks
  k : 0 ≤ o.k ∧ o.k < s.numBlocks * s.page * (s.kvHeads * s.dim)
  q : 0 ≤ o.q ∧ o.q < extent s.totalQ s.strideQt (extent (s.kvHeads * s.group) s.strideQh s.dim)
  lse : 0 ≤ o.lse ∧ o.lse < extent (s.kvHeads * s.group) s.strideLseH s.totalQ
  out : 0 ≤ o.out ∧ o.out < extent s.batch s.strideOut s.maxLen

/-- The offsets are the mathematical ones, inside the tensors. -/
def Exact : Prop :=
  s.offsets b t h gp d tok int32 = s.offsets b t h gp d tok id ∧
    s.Inside (s.offsets b t h gp d tok int32)

/-- The products that are kept in 32 bits. -/
def Fits : Prop :=
  (b * s.strideBt : Int) < 2 ^ 31 ∧
    ((s.blockTable (b * s.strideBt + (t / s.page : Nat)) * s.page + (t % s.page : Nat)) *
      (s.kvHeads * s.dim : Nat) : Int) < 2 ^ 31 ∧ (h * s.dim : Int) < 2 ^ 31 ∧
    ((h * s.group + gp) * s.strideQh : Int) < 2 ^ 31 ∧ (tok * s.strideQt : Int) < 2 ^ 31 ∧
    ((h * s.group + gp) * s.strideLseH : Int) < 2 ^ 31 ∧ (b * s.strideOut : Int) < 2 ^ 31

theorem offsets_eq_iff :
    s.offsets b t h gp d tok int32 = s.offsets b t h gp d tok id ↔ s.Fits b t h gp tok := by
  have hpair : ∀ {x y : Int}, 0 ≤ x → 0 ≤ y →
      (int32 x + int32 y = x + y ↔ x < 2 ^ 31 ∧ y < 2 ^ 31) := by
    intro x y hx hy
    rw [← int32_eq_self_iff hx, ← int32_eq_self_iff hy]
    have := int32_le hx
    have := int32_le hy
    omega
  have hbt := int32_eq_self_iff (x := b * s.strideBt) (by positivity)
  simp only [Fits, offsets, ScoreOffsets.ext_iff, int32_add_left, int32_mul, id_eq, add_left_inj,
    add_right_comm _ (d : Int), hbt]
  refine and_congr_right fun hlt => ?_
  rw [hbt.mpr hlt, hpair (by positivity) (by positivity), hpair (by positivity) (by positivity),
    int32_eq_self_iff (by positivity), int32_eq_self_iff (by positivity), and_assoc, and_assoc]

variable {s b t h gp d tok}

theorem inside_offsets (hb : b < s.batch) (ht : t < s.validLens b) (hh : h < s.kvHeads)
    (hgp : gp < s.group) (hd : d < s.dim)
    (htok : tok ∈ [s.cuSeqlensQ b, s.cuSeqlensQ (b + 1) - 1]) :
    s.Inside (s.offsets b t h gp d tok id) := by
  obtain ⟨hlen, hblocks⟩ := s.validLens_le b
  obtain ⟨hfirst, hlast⟩ := s.cuSeqlensQ_lt b (Nat.zero_lt_of_lt ht)
  have htok' : tok < s.totalQ := by
    simp only [List.mem_cons, List.not_mem_nil, or_false] at htok
    omega
  have hcolumn : t / s.page < s.maxBlocks := Nat.div_lt_of_lt_mul
    (Nat.mul_comm s.maxBlocks s.page ▸ ht.trans_le hblocks)
  have hk := row_lt (row_lt (s.blockTable_lt (b * s.strideBt + (t / s.page : Nat)))
    (Nat.mod_lt t s.sizes_pos.1)) (row_lt hh hd)
  have hhead := row_lt hh hgp
  have hq := lt_extent s.strideQt htok' (lt_extent s.strideQh hhead hd)
  rw [← Nat.add_assoc] at hk
  rw [Nat.add_comm] at hq
  simp only [inside_iff, offsets, id_eq]
  exact ⟨⟨by positivity, mod_cast lt_extent s.strideBt hb hcolumn⟩, ⟨by positivity, mod_cast hk⟩,
    ⟨by positivity, mod_cast hq⟩, ⟨by positivity, mod_cast lt_extent s.strideLseH hhead htok'⟩,
    ⟨by positivity, mod_cast lt_extent s.strideOut hb (ht.trans_le hlen)⟩⟩

theorem exact_iff : s.ForElements s.Exact ↔
    s.ForElements fun b t h gp _ tok => s.Fits b t h gp tok := by
  refine forall₂_congr fun b hb => forall₄_congr fun t ht h hh => forall₄_congr fun gp hgp d hd =>
    forall₂_congr fun tok htok => ?_
  refine (and_iff_left_of_imp fun heq => ?_).trans (s.offsets_eq_iff b t h gp d tok)
  rw [heq]
  exact inside_offsets hb ht hh hgp hd htok

end ScoreLaunch

theorem addresses_exact_iff (g : GatherLaunch) (s : ScoreLaunch) :
    g.ForElements g.Exact ∧ s.ForElements s.Exact ↔
      g.ForElements g.Fits ∧ s.ForElements fun b t h gp _ tok => s.Fits b t h gp tok :=
  and_congr GatherLaunch.exact_iff ScoreLaunch.exact_iff

/-- A cache of `pages` pages of 16 slots with 8 heads of 128 elements, and a request with its one
token in the last page. -/
def gatherLast (pages : Nat) (hpos : 0 < pages) (hlt : pages * 16 ≤ 2 ^ 31) : GatherLaunch where
  numSlots := pages * 16
  inner := 1024
  batch := 1
  width := 16
  slotsWidth := 16
  strideSlots := 16
  slots _ := (pages - 1) * 16
  starts _ := 0
  ends _ := 1
  slots_lt _ := by omega
  ends_le _ := by decide
  args_lt := ⟨hlt, by decide, by decide⟩

/-- The scores of that request, with one query token. -/
def scoreLast (pages : Nat) (hpos : 0 < pages) (hlt : pages * 16 ≤ 2 ^ 31) : ScoreLaunch where
  numBlocks := pages
  page := 16
  kvHeads := 8
  group := 1
  dim := 128
  batch := 1
  totalQ := 1
  maxBlocks := 1
  maxLen := 16
  strideQt := 1024
  strideQh := 128
  strideBt := 1
  strideLseH := 1
  strideOut := 16
  blockTable _ := pages - 1
  cuSeqlensQ b := b
  validLens b := if b = 0 then 1 else 0
  sizes_pos := by decide
  blockTable_lt _ := by omega
  validLens_le b := by split <;> decide
  cuSeqlensQ_lt b hb := by
    split at hb
    · omega
    · omega
  args_lt := ⟨hlt, by decide⟩

/-- With 4 pages no offset wraps. -/
theorem addresses_exact_four :
    (gatherLast 4 (by decide) (by decide)).ForElements
      (gatherLast 4 (by decide) (by decide)).Exact ∧
      (scoreLast 4 (by decide) (by decide)).ForElements
        (scoreLast 4 (by decide) (by decide)).Exact := by
  refine (addresses_exact_iff _ _).mpr ⟨fun b hb t _ ht i hi => ?_,
    fun b hb t ht h hh gp hgp d _ tok htok => ?_⟩
  · simp only [gatherLast] at hb ht hi
    simp only [GatherLaunch.Fits, GatherLaunch.offsets, gatherLast, id_eq]
    omega
  · simp only [scoreLast, List.mem_cons, List.not_mem_nil, or_false] at hb ht hh hgp htok
    obtain rfl : b = 0 := by omega
    rw [if_pos rfl] at ht
    simp only [ScoreLaunch.Fits, scoreLast]
    omega

/-- With 2^17 + 1 pages the last page begins 2^31 elements into the cache. -/
theorem last_page_wraps :
    ¬(gatherLast (2 ^ 17 + 1) (by decide) (by decide)).ForElements
        (gatherLast (2 ^ 17 + 1) (by decide) (by decide)).Exact ∧
      ¬(scoreLast (2 ^ 17 + 1) (by decide) (by decide)).ForElements
        (scoreLast (2 ^ 17 + 1) (by decide) (by decide)).Exact := by
  constructor
  · intro h
    exact absurd (h 0 (by decide) 0 (by decide) (by decide) 0 (by decide)).2.src.1 (by decide)
  · intro h
    exact absurd (h 0 (by decide) 0 (by decide) 0 (by decide) 0 (by decide) 0 (by decide) 0
      (by decide)).2.k.1 (by decide)

end LongCtxSpecDecode.KernelAddresses
