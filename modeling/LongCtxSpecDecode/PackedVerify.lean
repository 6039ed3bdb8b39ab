import LongCtxSpecDecode.PagedAttention

/-!
# Packed verify attention

`longspec/verify_attention.py`: the keys of a request are split at a page boundary, the query heads
of a KV head are packed into rows for the part before it, and the two results are merged.
-/

namespace LongCtxSpecDecode

open Library

def maxPackedQueries : Nat := 16

structure VerifyKwargs where
  q : Nat → Nat → Nat → ℝ
  /-- `q.shape`. -/
  numTokens : Nat
  numHeads : Nat
  headDim : Nat
  k : Int → Nat → Nat → Nat → ℝ
  v : Int → Nat → Nat → Nat → ℝ
  page : Nat
  kvHeads : Nat
  cuSeqlensQ : Nat → Nat
  maxSeqlenQ : Nat
  sequsedK : Nat → Int
  /-- `seqused_k.shape[0]`. -/
  batch : Nat
  maxSeqlenK : Int
  blockTable : Nat → Nat → Int
  /-- `block_table.shape[1]`. -/
  tableWidth : Nat
  softmaxScale : Option ℝ := none
  causal : Bool := false
  softcap : ℝ := 0
  alibiSlopes : Bool := false
  windowSize : Option (Int × Int) := none
  sAux : Bool := false
  qV : Bool := false
  scores : Bool := false

namespace VerifyKwargs

variable (kw : VerifyKwargs)

/-- `packed_verify_eligible`, for a call with sequence lengths and a block table. -/
structure PackedVerifyEligible (group : Nat) : Prop where
  group : group > 1
  causal : kw.causal = true
  queries : 1 < kw.maxSeqlenQ ∧ kw.maxSeqlenQ ≤ maxPackedQueries
  tokens : kw.numTokens = kw.batch * kw.maxSeqlenQ
  softcap : kw.softcap = 0
  alibiSlopes : kw.alibiSlopes = false
  windowSize : kw.windowSize = none ∨ kw.windowSize = some (-1, -1)
  sAux : kw.sAux = false
  qV : kw.qV = false
  scores : kw.scores = false

noncomputable def scale : ℝ := kw.softmaxScale.getD ((kw.headDim : ℝ) ^ (-0.5 : ℝ))

noncomputable def plainArgs : FlashAttnArgs where
  q := kw.q
  numHeads := kw.numHeads
  headDim := kw.headDim
  k := kw.k
  v := kw.v
  page := kw.page
  kvHeads := kw.kvHeads
  batch := kw.batch
  cuSeqlensQ := kw.cuSeqlensQ
  maxSeqlenQ := kw.maxSeqlenQ
  sequsedK := kw.sequsedK
  maxSeqlenK := kw.maxSeqlenK
  softmaxScale := kw.scale
  causal := kw.causal
  blockTable := kw.blockTable
  tableWidth := kw.tableWidth

def group : Nat := kw.numHeads / kw.kvHeads

def prefixPages (b : Nat) : Nat := (kw.sequsedK b - kw.maxSeqlenQ).toNat / kw.page

def prefixLens (b : Nat) : Nat := kw.prefixPages b * kw.page

def tailLens (b : Nat) : Int := max (kw.sequsedK b - kw.prefixLens b) 1

def tailWidth : Nat := (kw.maxSeqlenQ + kw.page - 2) / kw.page + 1

def tailTable (b col : Nat) : Int :=
  max (kw.blockTable b (min (kw.prefixPages b + col) (kw.tableWidth - 1))) 0

/-- `rows`. -/
def packedRows : Nat := kw.maxSeqlenQ * kw.group

/-- `q_packed`: from `[batch, queries, kv_heads, group]` to
`[batch * queries * group, kv_heads]`. -/
def qPacked (r k d : Nat) : ℝ :=
  kw.q (r / (kw.maxSeqlenQ * kw.group) * kw.maxSeqlenQ + r / kw.group % kw.maxSeqlenQ)
    (k * kw.group + r % kw.group) d

noncomputable def prefixArgs : FlashAttnArgs where
  q := kw.qPacked
  numHeads := kw.kvHeads
  headDim := kw.headDim
  k := kw.k
  v := kw.v
  page := kw.page
  kvHeads := kw.kvHeads
  batch := kw.batch
  cuSeqlensQ b := b * kw.packedRows
  maxSeqlenQ := kw.packedRows
  sequsedK b := kw.prefixLens b
  maxSeqlenK := kw.maxSeqlenK
  softmaxScale := kw.scale
  causal := false
  blockTable := kw.blockTable
  tableWidth := kw.tableWidth

/-- The row of the packed result for head `h` of token `n`. -/
def packedRow (n h : Nat) : Nat :=
  (n / kw.maxSeqlenQ * kw.maxSeqlenQ + n % kw.maxSeqlenQ) * kw.group + h % kw.group

/-- The result for the prefix in the original layout, without the rows that have no prefix. -/
def unpackPrefix (state : AttnState) : AttnState :=
  (fun n h d => if kw.prefixLens (n / kw.maxSeqlenQ) = 0 then 0
      else state.1 (kw.packedRow n h) (h / kw.group) d,
    fun h n => if kw.prefixLens (n / kw.maxSeqlenQ) = 0 then ⊥
      else state.2 (h / kw.group) (kw.packedRow n h))

noncomputable def tailArgs : FlashAttnArgs where
  q := kw.q
  numHeads := kw.numHeads
  headDim := kw.headDim
  k := kw.k
  v := kw.v
  page := kw.page
  kvHeads := kw.kvHeads
  batch := kw.batch
  cuSeqlensQ := kw.cuSeqlensQ
  maxSeqlenQ := kw.maxSeqlenQ
  sequsedK := kw.tailLens
  maxSeqlenK := (kw.tailWidth * kw.page : Nat)
  softmaxScale := kw.scale
  causal := true
  blockTable := kw.tailTable
  tableWidth := kw.tailWidth

end VerifyKwargs

noncomputable def packedVerifyAttention (fa : FlashAttnArgs → AttnState) (kw : VerifyKwargs) :
    AttnState :=
  mergeAttnStates (kw.unpackPrefix (fa kw.prefixArgs)) (fa kw.tailArgs)

/-! ### The two parts -/

namespace VerifyKwargs

variable {kw : VerifyKwargs} {b i h : Nat}

theorem prefixLens_le (kw : VerifyKwargs) (b : Nat) :
    (kw.prefixLens b : Int) ≤ max (kw.sequsedK b - kw.maxSeqlenQ) 0 := by
  have hle := Nat.div_mul_le_self (kw.sequsedK b - kw.maxSeqlenQ).toNat kw.page
  unfold prefixLens prefixPages
  omega

theorem tailLens_le (hpage : 0 < kw.page) (hqueries : 0 < kw.maxSeqlenQ) :
    kw.tailLens b ≤ (kw.tailWidth * kw.page : Nat) := by
  have htail := Nat.lt_div_mul_add (a := (kw.sequsedK b - kw.maxSeqlenQ).toNat) hpage
  have hwidth := Nat.lt_div_mul_add (a := kw.maxSeqlenQ + kw.page - 2) hpage
  have hpages : kw.tailWidth * kw.page =
      (kw.maxSeqlenQ + kw.page - 2) / kw.page * kw.page + kw.page := Nat.succ_mul _ _
  unfold tailLens prefixLens prefixPages
  omega

theorem wellFormed_tailArgs (hwell : kw.plainArgs.WellFormed) (hpage : 0 < kw.page)
    (hqueries : 0 < kw.maxSeqlenQ) : kw.tailArgs.WellFormed := by
  refine ⟨hwell.cumulative, hwell.queries, fun b _ => ⟨tailLens_le hpage hqueries, ?_⟩,
    fun b _ j _ => le_max_right _ _⟩
  have hle := tailLens_le (b := b) hpage hqueries
  exact hle

theorem wellFormed_prefixArgs (hwell : kw.plainArgs.WellFormed) (hmax : 0 ≤ kw.maxSeqlenK) :
    kw.prefixArgs.WellFormed := by
  have hlens : ∀ b, kw.prefixLens b ≤ (kw.sequsedK b).toNat := fun b => by
    have hle := kw.prefixLens_le b
    omega
  refine ⟨fun b _ => Nat.mul_le_mul_right _ (Nat.le_succ b), fun b _ => ?_, fun b hb => ?_,
    fun b hb j hj => ?_⟩
  · unfold FlashAttnArgs.queryLen
    dsimp only [prefixArgs]
    rw [Nat.succ_mul, Nat.add_sub_cancel_left]
  · have hle := hlens b
    obtain ⟨hkeys, htable⟩ : kw.sequsedK b ≤ kw.maxSeqlenK ∧
        kw.sequsedK b ≤ kw.tableWidth * kw.page := hwell.keys b hb
    dsimp only [prefixArgs]
    rw [← Int.natCast_mul]
    omega
  · refine hwell.blocks b hb j ?_
    have hle := hlens b
    dsimp only [prefixArgs, plainArgs] at hj ⊢
    omega

theorem visible_eq (hpos : 0 < kw.sequsedK b) (hqueries : 0 < kw.maxSeqlenQ)
    (hcausal : kw.causal = true) (hlen : kw.plainArgs.queryLen b = kw.maxSeqlenQ) :
    kw.plainArgs.visible b i = Finset.range (kw.prefixLens b) ∪
      (kw.tailArgs.visible b i).map (addLeftEmbedding (kw.prefixLens b)) := by
  have hle := kw.prefixLens_le b
  have htail : kw.tailLens b = kw.sequsedK b - kw.prefixLens b := by
    unfold tailLens
    omega
  have hlen' : kw.tailArgs.queryLen b = kw.maxSeqlenQ := hlen
  ext j
  simp only [FlashAttnArgs.visible, Finset.mem_union, Finset.mem_map, Finset.mem_filter,
    Finset.mem_range, addLeftEmbedding_apply, hlen, hlen']
  dsimp only [plainArgs, tailArgs]
  simp only [hcausal, true_implies]
  constructor
  · rintro ⟨hj, hmask⟩
    rcases Nat.lt_or_ge j (kw.prefixLens b) with hlt | hge
    · exact .inl hlt
    · exact .inr ⟨j - kw.prefixLens b, by omega, by omega⟩
  · rintro (hlt | ⟨j, hj, rfl⟩)
    · omega
    · omega

theorem tailArgs_block (hpage : 0 < kw.page) (htable : kw.sequsedK b ≤ kw.tableWidth * kw.page)
    (hblocks : ∀ j : Nat, (j : Int) < kw.sequsedK b → 0 ≤ kw.plainArgs.block b j) {j : Nat}
    (hj : (kw.prefixLens b + j : Int) < kw.sequsedK b) :
    kw.tailArgs.block b j = kw.plainArgs.block b (kw.prefixLens b + j) := by
  have hpages : (kw.prefixLens b + j) / kw.page = kw.prefixPages b + j / kw.page := by
    unfold prefixLens
    rw [Nat.add_comm, Nat.add_mul_div_right _ _ hpage, Nat.add_comm]
  have hcolumn : (kw.prefixLens b + j) / kw.page < kw.tableWidth := by
    rw [Nat.div_lt_iff_lt_mul hpage]
    omega
  have hnonneg := hblocks (kw.prefixLens b + j) (by omega)
  unfold FlashAttnArgs.block at hnonneg ⊢
  dsimp only [tailArgs, plainArgs] at hnonneg ⊢
  rw [tailTable, ← hpages, min_eq_left (by omega), max_eq_left hnonneg]

theorem qPacked_row (hgroup : 0 < kw.group) (d : Nat) :
    kw.qPacked (b * kw.packedRows + (i * kw.group + h % kw.group)) (h / kw.group) d =
      kw.q (b * kw.maxSeqlenQ + i) h d := by
  have hrow : b * kw.packedRows + (i * kw.group + h % kw.group) =
      (b * kw.maxSeqlenQ + i) * kw.group + h % kw.group := by
    unfold packedRows
    ring
  have hmod := Nat.mod_lt h hgroup
  have htoken : (b * kw.packedRows + (i * kw.group + h % kw.group)) / kw.group =
      b * kw.maxSeqlenQ + i := by
    rw [hrow, Nat.add_comm, Nat.add_mul_div_right _ _ hgroup, Nat.div_eq_of_lt hmod, Nat.zero_add]
  have hhead : (b * kw.packedRows + (i * kw.group + h % kw.group)) % kw.group = h % kw.group := by
    rw [hrow, Nat.mul_add_mod_self_right, Nat.mod_mod]
  unfold qPacked
  rw [Nat.mul_comm kw.maxSeqlenQ, ← Nat.div_div_eq_div_mul, htoken, hhead, Nat.div_add_mod',
    Nat.div_add_mod']

theorem packedRow_eq : kw.packedRow (b * kw.maxSeqlenQ + i) h =
    b * kw.packedRows + (i * kw.group + h % kw.group) := by
  unfold packedRow packedRows
  rw [Nat.div_add_mod']
  ring

theorem prefixArgs_score (hkv : 0 < kw.kvHeads) (hgroup : 0 < kw.group) (j : Nat) :
    kw.prefixArgs.score b (b * kw.packedRows + (i * kw.group + h % kw.group))
        (h / kw.group) j = kw.plainArgs.score b (b * kw.maxSeqlenQ + i) h j := by
  unfold FlashAttnArgs.score FlashAttnArgs.kvHead
  dsimp only [prefixArgs]
  rw [Nat.div_self hkv, Nat.div_one]
  congr 1
  refine Finset.sum_congr rfl fun d _ => ?_
  rw [qPacked_row hgroup]
  rfl

theorem prefixArgs_value (hkv : 0 < kw.kvHeads) (d j : Nat) :
    kw.prefixArgs.value b (h / kw.group) d j = kw.plainArgs.value b h d j := by
  unfold FlashAttnArgs.value FlashAttnArgs.kvHead
  dsimp only [prefixArgs]
  rw [Nat.div_self hkv, Nat.div_one]
  rfl

theorem visible_prefixArgs : kw.prefixArgs.visible b i = Finset.range (kw.prefixLens b) := by
  exact Finset.filter_true_of_mem fun j _ hfalse => absurd hfalse Bool.false_ne_true

section results

variable {fa : FlashAttnArgs → AttnState} (hfa : ExactAttention fa)
  (hwell : kw.plainArgs.WellFormed) (hb : b < kw.batch)
include hfa hwell hb

theorem tail_result (hpage : 0 < kw.page) (hpos : 0 < kw.sequsedK b)
    (hlen : kw.plainArgs.queryLen b = kw.maxSeqlenQ) (hi : i < kw.maxSeqlenQ)
    (hh : h < kw.numHeads) (hvisible : (kw.tailArgs.visible b i).Nonempty) :
    kw.plainArgs.ResultOver
      ((kw.tailArgs.visible b i).map (addLeftEmbedding (kw.prefixLens b))) (fa kw.tailArgs) b
      (kw.cuSeqlensQ b + i) h := by
  have hresult := hfa kw.tailArgs (wellFormed_tailArgs hwell hpage (by omega)) b hb i
    (hi.trans_eq hlen.symm) h hh hvisible
  have hblock : ∀ j ∈ kw.tailArgs.visible b i,
      kw.tailArgs.block b j = kw.plainArgs.block b (kw.prefixLens b + j) := by
    intro j hj
    have hlt : j < (kw.tailLens b).toNat := Finset.mem_range.mp (Finset.mem_filter.mp hj).1
    refine tailArgs_block hpage (hwell.keys b hb).2 (hwell.blocks b hb) ?_
    have hle := kw.prefixLens_le b
    unfold tailLens at hlt
    omega
  have hoffset : ∀ j, (kw.prefixLens b + j) % kw.page = j % kw.page := fun j => by
    unfold prefixLens
    rw [Nat.mul_add_mod_self_right]
  have hscore : ∀ j ∈ kw.tailArgs.visible b i, kw.tailArgs.score b (kw.cuSeqlensQ b + i) h j =
      kw.plainArgs.score b (kw.cuSeqlensQ b + i) h (kw.prefixLens b + j) := by
    intro j hj
    unfold FlashAttnArgs.score
    rw [hblock j hj]
    dsimp only [plainArgs]
    rw [hoffset]
    rfl
  constructor
  · intro d hd
    rw [Attention.attend_map]
    refine (hresult.out d hd).trans (Attention.attend_congr hscore fun j hj => ?_)
    unfold FlashAttnArgs.value
    rw [hblock j hj]
    dsimp only [plainArgs]
    rw [Function.comp_apply, addLeftEmbedding_apply, hoffset]
    rfl
  · rw [Attention.lse_map]
    exact hresult.lse.trans (congrArg _ (Attention.lse_congr hscore))

theorem prefix_result (hmax : 0 ≤ kw.maxSeqlenK) (hgroup : 0 < kw.group)
    (hheads : kw.numHeads = kw.kvHeads * kw.group) (hi : i < kw.maxSeqlenQ)
    (hh : h < kw.numHeads) (hlead : kw.prefixLens b ≠ 0) :
    kw.plainArgs.ResultOver (Finset.range (kw.prefixLens b)) (kw.unpackPrefix (fa kw.prefixArgs)) b
      (b * kw.maxSeqlenQ + i) h := by
  have hhead : h / kw.group < kw.kvHeads := (Nat.div_lt_iff_lt_mul hgroup).mpr (hheads ▸ hh)
  have hkv : 0 < kw.kvHeads := (Nat.zero_le _).trans_lt hhead
  have hrow : i * kw.group + h % kw.group < kw.packedRows := by
    have hmod := Nat.mod_lt h hgroup
    calc i * kw.group + h % kw.group < (i + 1) * kw.group := by rw [Nat.succ_mul]; omega
      _ ≤ kw.packedRows := Nat.mul_le_mul_right _ hi
  have hresult := hfa kw.prefixArgs (wellFormed_prefixArgs hwell hmax) b hb
    (i * kw.group + h % kw.group) (by
      unfold FlashAttnArgs.queryLen
      dsimp only [prefixArgs]
      rwa [Nat.succ_mul, Nat.add_sub_cancel_left]) (h / kw.group) hhead (by
      rw [visible_prefixArgs]
      exact Finset.nonempty_range_iff.mpr hlead)
  have hrequest : (b * kw.maxSeqlenQ + i) / kw.maxSeqlenQ = b := by
    rw [Nat.add_comm, Nat.add_mul_div_right _ _ (by omega), Nat.div_eq_of_lt hi, Nat.zero_add]
  unfold FlashAttnArgs.ExactResult at hresult
  rw [visible_prefixArgs] at hresult
  constructor
  · intro d hd
    unfold unpackPrefix
    dsimp only
    rw [hrequest, if_neg hlead, packedRow_eq]
    exact (hresult.out d hd).trans (Attention.attend_congr
      (fun j _ => prefixArgs_score hkv hgroup j) fun j _ => prefixArgs_value hkv d j)
  · unfold unpackPrefix
    dsimp only
    rw [hrequest, if_neg hlead, packedRow_eq]
    exact hresult.lse.trans
      (congrArg _ (Attention.lse_congr fun j _ => prefixArgs_score hkv hgroup j))

end results

end VerifyKwargs

open VerifyKwargs in
/-- For every query that sees a key, packed verify attention gives the output and the log-sum-exp
of causal attention over the keys of the request. -/
theorem packed_verify_exact (fa : FlashAttnArgs → AttnState) (hfa : ExactAttention fa)
    (kw : VerifyKwargs) (group : Nat) (heligible : kw.PackedVerifyEligible group)
    (hheads : kw.numHeads = kw.kvHeads * group) (hwell : kw.plainArgs.WellFormed) (b i h : Nat)
    (hb : b < kw.batch) (hstart : kw.cuSeqlensQ b = b * kw.maxSeqlenQ)
    (hstop : kw.cuSeqlensQ (b + 1) = (b + 1) * kw.maxSeqlenQ) (hi : i < kw.maxSeqlenQ)
    (hh : h < kw.numHeads) (hvisible : (kw.plainArgs.visible b i).Nonempty) :
    kw.plainArgs.ExactResult (packedVerifyAttention fa kw) b i h := by
  have hkv : 0 < kw.kvHeads := Nat.pos_of_mul_pos_right (hheads ▸ (Nat.zero_le h).trans_lt hh)
  obtain rfl : kw.group = group := by
    rw [VerifyKwargs.group, hheads, Nat.mul_div_cancel_left _ hkv]
  have hlen : kw.plainArgs.queryLen b = kw.maxSeqlenQ := by
    unfold FlashAttnArgs.queryLen
    dsimp only [plainArgs]
    rw [hstart, hstop, Nat.succ_mul, Nat.add_sub_cancel_left]
  have hpos : 0 < kw.sequsedK b := by
    obtain ⟨j, hj⟩ := hvisible
    have hlt : j < (kw.sequsedK b).toNat := Finset.mem_range.mp (Finset.mem_filter.mp hj).1
    omega
  obtain ⟨hmax, htable⟩ : kw.sequsedK b ≤ kw.maxSeqlenK ∧
    kw.sequsedK b ≤ kw.tableWidth * kw.page := hwell.keys b hb
  have hpage : 0 < kw.page := by
    by_contra hzero
    rw [Nat.eq_zero_of_not_pos hzero] at htable
    omega
  have hkeys := visible_eq (i := i) hpos (by omega) heligible.causal hlen
  have htail := tail_result hfa hwell hb hpage hpos hlen hi hh
  unfold FlashAttnArgs.ExactResult packedVerifyAttention
  rw [hkeys] at hvisible ⊢
  by_cases hlead : kw.prefixLens b = 0
  · -- the tail has all keys, and the prefix has none
    rw [hlead] at hvisible ⊢
    rw [hlead] at htail
    refine FlashAttnArgs.ResultOver.merge_bot ?_ (htail (Finset.map_nonempty.mp hvisible))
    have hrequest : (kw.cuSeqlensQ b + i) / kw.maxSeqlenQ = b := by
      rw [hstart, Nat.add_comm, Nat.add_mul_div_right _ _ (by omega), Nat.div_eq_of_lt hi,
        Nat.zero_add]
    exact if_pos ((congrArg kw.prefixLens hrequest).trans hlead)
  · have hle := kw.prefixLens_le b
    have hfirst : 0 ∈ kw.tailArgs.visible b i := by
      refine Finset.mem_filter.mpr ⟨Finset.mem_range.mpr ?_, fun _ => ?_⟩
      · change 0 < (kw.tailLens b).toNat
        unfold tailLens
        omega
      · change (0 : Int) ≤ i + kw.tailLens b - kw.plainArgs.queryLen b
        unfold tailLens
        omega
    have hdisjoint : Disjoint (Finset.range (kw.prefixLens b))
        ((kw.tailArgs.visible b i).map (addLeftEmbedding (kw.prefixLens b))) := by
      rw [Finset.disjoint_left]
      intro j hj hmem
      obtain ⟨j', -, rfl⟩ := Finset.mem_map.mp hmem
      exact absurd (Finset.mem_range.mp hj) (by simp)
    have hpacked := prefix_result hfa hwell hb (by omega) (Nat.zero_lt_one.trans heligible.group)
      hheads hi hh hlead
    rw [← hstart] at hpacked
    exact hpacked.merge (htail ⟨0, hfirst⟩) hdisjoint (Finset.nonempty_range_iff.mpr hlead)
      (Finset.map_nonempty.mpr ⟨0, hfirst⟩)

/-- Two queries of a request with three tokens, whose two heads share a KV head, and pages of one
token. -/
def smallVerify : VerifyKwargs where
  q n h _ := n + h
  numTokens := 2
  numHeads := 2
  headDim := 1
  k block _ _ _ := block
  v block _ _ _ := block
  page := 1
  kvHeads := 1
  cuSeqlensQ b := b * 2
  maxSeqlenQ := 2
  sequsedK _ := 3
  batch := 1
  maxSeqlenK := 3
  blockTable _ col := col
  tableWidth := 3
  causal := true

theorem packed_verify_exact_small :
    smallVerify.plainArgs.ExactResult
      (packedVerifyAttention FlashAttnArgs.exactAttention smallVerify) 0 1 1 := by
  refine packed_verify_exact _ exactAttention_exact smallVerify 2
    ⟨by decide, rfl, by decide, rfl, rfl, rfl, .inl rfl, rfl, rfl, rfl⟩ rfl ?_ 0 1 1 (by decide) rfl
    rfl (by decide) (by decide) ⟨0, ?_⟩
  · exact ⟨fun b _ => Nat.mul_le_mul_right _ (Nat.le_succ b), fun b hb => by
      obtain rfl : b = 0 := Nat.lt_one_iff.mp hb
      decide, fun b _ => ⟨le_rfl, by decide +revert⟩, fun b _ j _ => Int.natCast_nonneg _⟩
  · decide

end LongCtxSpecDecode
