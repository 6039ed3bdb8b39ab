import LongCtxSpecDecode.Library.Stores

/-!
# The metric of the scored tokens

The kernels of `longspec/kernels/c2q_scores.py` and `attn_overrider/utils/varlen_reduce.py` over the
reals. The fused kernel computes the scores of the first and the last query row itself; the scalar
and the vectorised kernel reduce the scores that the attention kernel has collected.
-/

namespace LongCtxSpecDecode

open Library.Stores List

/-- `kLog2e`. -/
noncomputable def log2e : ℝ := 1.4426950408889634

noncomputable def exp2 (x : ℝ) : ℝ := 2 ^ x

/-- The inputs of the reduction. The tensors are given by their indices, and the keys by slot. -/
structure ScoreInputs where
  q : Int → Nat → Nat → ℝ
  k : Int → Nat → Nat → ℝ
  blockTable : Nat → Nat → Int
  cuSeqlensQ : Nat → Int
  validLens : Nat → Int
  reduceEntry : Nat → Int
  lse : Nat → Int → ℝ
  softmaxScale : ℝ
  useWeight : Bool
  batch : Nat
  kvHeads : Nat
  group : Nat
  dim : Nat
  page : Nat
  /-- `max_seqlen`, the width of a row of the output. -/
  maxSeqlen : Nat

namespace ScoreInputs

variable (s : ScoreInputs)

def numHeads : Nat := s.kvHeads * s.group

def firstTok (b : Nat) : Int := s.cuSeqlensQ b

def lastTok (b : Nat) : Int := s.cuSeqlensQ (b + 1) - 1

noncomputable def scale2 : ℝ := s.softmaxScale * log2e

/-! ### The fused kernel -/

def slot (b t : Nat) : Int := s.blockTable b (t / s.page) * s.page + (t % s.page : Nat)

/-- `GP`. -/
def paddedGroup : Nat := max 16 (nextPowerOf2 s.group)

/-- An entry of `s`, for query head `gp` of KV head `h`. -/
noncomputable def c2qScore (b : Nat) (tok : Int) (h gp t : Nat) : ℝ :=
  if gp < s.group then
    let score := ∑ d ∈ Finset.range s.dim, s.q tok (h * s.group + gp) d * s.k (s.slot b t) h d
    if s.useWeight then exp2 (score * s.scale2 - s.lse (h * s.group + gp) tok * log2e) else score
  else 0

noncomputable def wFirst (b : Nat) : ℝ := if s.reduceEntry b ≠ 2 then 1 else 0

noncomputable def wLast (b : Nat) : ℝ := if s.reduceEntry b ≠ 1 then 1 else 0

noncomputable def c2qAcc (b t : Nat) : ℝ :=
  (range s.kvHeads).foldl (fun acc h =>
    acc + (∑ gp ∈ Finset.range s.paddedGroup, s.c2qScore b (s.firstTok b) h gp t) * s.wFirst b +
      (∑ gp ∈ Finset.range s.paddedGroup, s.c2qScore b (s.lastTok b) h gp t) * s.wLast b) 0

noncomputable def c2qCount (b : Nat) : ℝ := (s.wFirst b + s.wLast b) * (s.kvHeads * s.group : Nat)

/-- The stores of one program of `_c2q_metric_kernel`. -/
noncomputable def c2qMetricKernel (b tile : Nat) : List (Nat × ℝ) :=
  if (tile * 64 : Nat) ≥ s.validLens b then []
  else (((range 64).map (tile * 64 + ·)).filter fun t : Nat => (t : Int) < s.validLens b).map
    fun t => (b * s.maxSeqlen + t, s.c2qAcc b t / s.c2qCount b)

/-- The programs of `c2q_metric` for row `b`. -/
noncomputable def c2qMetricRow (b : Nat) : List (Nat × ℝ) :=
  (range ((s.maxSeqlen + 63) / 64)).flatMap (s.c2qMetricKernel b)

/-! ### The reduction of collected scores -/

section reduce

-- the scores, of shape `(batch, dim1, 2, max_seqlen)`
variable (x : Nat → ℝ)

def hstride : Nat := 2 * s.maxSeqlen

def boff (b : Nat) : Nat := b * s.numHeads * s.hstride

noncomputable def weightFromScore (score scale2 lse2 : ℝ) : ℝ := exp2 (scale2 * score - lse2)

noncomputable def val (score : ℝ) (h : Nat) (tok : Int) : ℝ :=
  if s.useWeight then weightFromScore score s.scale2 (s.lse h tok * log2e) else score

noncomputable def scalarMean (b l : Nat) : ℝ :=
  if s.reduceEntry b = 0 then
    (range s.numHeads).foldl (fun sum h =>
      sum + s.val (x (s.boff b + h * s.hstride + l)) h (s.firstTok b) +
        s.val (x (s.boff b + h * s.hstride + s.maxSeqlen + l)) h (s.lastTok b)) 0 *
      (1 / (s.numHeads * 2 : Nat))
  else if s.reduceEntry b = 1 then
    (range s.numHeads).foldl (fun sum h =>
      sum + s.val (x (s.boff b + h * s.hstride + l)) h (s.firstTok b)) 0 * (1 / s.numHeads)
  else
    (range s.numHeads).foldl (fun sum h =>
      sum + s.val (x (s.boff b + h * s.hstride + s.maxSeqlen + l)) h (s.lastTok b)) 0 *
      (1 / s.numHeads)

/-- The store of a thread of `VarlenMeanReduceKernel`. -/
noncomputable def varlenMeanReduceKernel (b l : Nat) : List (Nat × ℝ) :=
  if l ≥ s.maxSeqlen then []
  else if s.validLens b = 0 ∨ l ≥ s.validLens b then []
  else [(b * s.maxSeqlen + l, s.scalarMean x b l)]

/-- The threads of the scalar launch for row `b`, in blocks of 128. -/
noncomputable def scalarRow (b : Nat) : List (Nat × ℝ) :=
  (range ((s.maxSeqlen + 127) / 128)).flatMap fun block =>
    (range 128).flatMap fun thread => s.varlenMeanReduceKernel x b (block * 128 + thread)

/-- `accum_slot` for lane `i`. -/
noncomputable def accumSlot (sum : ℝ) (off i : Nat) (lse2 : ℝ) : ℝ :=
  if s.useWeight then sum + weightFromScore (x (off + i)) s.scale2 lse2 else sum + x (off + i)

noncomputable def lse2 (h : Nat) (tok : Int) : ℝ := if s.useWeight then s.lse h tok * log2e else 0

/-- Lane `i` of what a thread of the vectorised kernel computes. -/
noncomputable def vecMean (b baseL i : Nat) : ℝ :=
  if s.reduceEntry b = 0 then
    (range s.numHeads).foldl (fun sum h =>
      s.accumSlot x (s.accumSlot x sum (s.boff b + h * s.hstride + baseL) i
          (s.lse2 h (s.firstTok b)))
        (s.boff b + h * s.hstride + baseL + s.maxSeqlen) i (s.lse2 h (s.lastTok b))) 0 *
      (1 / (s.numHeads * 2 : Nat))
  else if s.reduceEntry b = 1 then
    (range s.numHeads).foldl (fun sum h =>
      s.accumSlot x sum (s.boff b + h * s.hstride + baseL) i (s.lse2 h (s.firstTok b))) 0 *
      (1 / s.numHeads)
  else
    (range s.numHeads).foldl (fun sum h =>
      s.accumSlot x sum (s.boff b + h * s.hstride + s.maxSeqlen + baseL) i
        (s.lse2 h (s.lastTok b))) 0 * (1 / s.numHeads)

/-- The stores of a thread of `VarlenMeanReduceKernelVec`. -/
noncomputable def varlenMeanReduceKernelVec (b baseL : Nat) : List (Nat × ℝ) :=
  if baseL ≥ s.maxSeqlen then []
  else if s.validLens b = 0 ∨ baseL ≥ s.validLens b then []
  else (range 8).map fun i => (b * s.maxSeqlen + baseL + i, s.vecMean x b baseL i)

/-- The threads of the vectorised launch for row `b`. -/
noncomputable def vecRow (b : Nat) : List (Nat × ℝ) :=
  (range ((s.maxSeqlen + 1023) / 1024)).flatMap fun block =>
    (range 128).flatMap fun thread =>
      s.varlenMeanReduceKernelVec x b ((block * 128 + thread) * 8)

/-- The dispatch of `launch_varlen_reduce`. -/
noncomputable def varlenReduceRow (b : Nat) : List (Nat × ℝ) :=
  if (s.maxSeqlen + 1023) / 1024 * s.batch ≥ 256 then s.vecRow x b else s.scalarRow x b

end reduce

noncomputable def launch (row : Nat → List (Nat × ℝ)) : List (Nat × ℝ) :=
  (range s.batch).flatMap row

/-! ### The metric -/

noncomputable def score (b : Nat) (tok : Int) (h t : Nat) : ℝ :=
  ∑ d ∈ Finset.range s.dim, s.q tok h d * s.k (s.slot b t) (h / s.group) d

noncomputable def rowSum (b : Nat) (tok : Int) (t : Nat) : ℝ :=
  ∑ h ∈ Finset.range s.numHeads, s.val (s.score b tok h t) h tok

noncomputable def metric (b t : Nat) : ℝ :=
  (s.rowSum b (s.firstTok b) t * s.wFirst b + s.rowSum b (s.lastTok b) t * s.wLast b) /
    ((s.wFirst b + s.wLast b) * s.numHeads)

def Collected (x : Nat → ℝ) : Prop :=
  ∀ b < s.batch, ∀ t : Nat, (t : Int) < s.validLens b → ∀ h < s.numHeads,
    (s.reduceEntry b ≠ 2 → x (s.boff b + h * s.hstride + t) = s.score b (s.firstTok b) h t) ∧
    (s.reduceEntry b ≠ 1 →
      x (s.boff b + h * s.hstride + s.maxSeqlen + t) = s.score b (s.lastTok b) h t)

variable {s} {x : Nat → ℝ} {b t : Nat}

theorem sum_c2qScore (tok : Int) :
    ∑ h ∈ Finset.range s.kvHeads, ∑ gp ∈ Finset.range s.paddedGroup, s.c2qScore b tok h gp t =
      s.rowSum b tok t := by
  have hle : s.group ≤ s.paddedGroup := (le_nextPowerOf2 s.group).trans (le_max_right _ _)
  unfold rowSum numHeads
  rw [← sum_range_tiles]
  refine Finset.sum_congr rfl fun h _ => ?_
  have hpadded : ∀ gp ∈ Finset.range s.paddedGroup, gp ∉ Finset.range s.group →
      s.c2qScore b tok h gp t = 0 := fun gp _ hgp =>
    if_neg fun hlt => hgp (Finset.mem_range.mpr hlt)
  rw [← Finset.sum_subset (Finset.range_subset_range.mpr hle) hpadded]
  refine Finset.sum_congr rfl fun gp hgp => ?_
  have hlt := Finset.mem_range.mp hgp
  have hhead : (h * s.group + gp) / s.group = h := by
    rw [Nat.add_comm, Nat.add_mul_div_right _ _ (by omega), Nat.div_eq_of_lt hlt, Nat.zero_add]
  unfold c2qScore val score weightFromScore
  rw [if_pos hlt, hhead, mul_comm s.scale2]

theorem c2q_eq_metric : s.c2qAcc b t / s.c2qCount b = s.metric b t := by
  unfold c2qAcc c2qCount metric numHeads
  simp only [add_assoc]
  rw [foldl_range_add, zero_add, Finset.sum_add_distrib, ← Finset.sum_mul, ← Finset.sum_mul,
    sum_c2qScore, sum_c2qScore]

theorem sum_collected {f : Nat → Nat} {tok : Int}
    (h : ∀ h < s.numHeads, x (f h) = s.score b tok h t) :
    ∑ h ∈ Finset.range s.numHeads, s.val (x (f h)) h tok = s.rowSum b tok t :=
  Finset.sum_congr rfl fun i hi => by rw [h i (Finset.mem_range.mp hi)]

theorem scalarMean_eq_metric (hx : s.Collected x) (hb : b < s.batch)
    (ht : (t : Int) < s.validLens b)
    (hentry : s.reduceEntry b = 0 ∨ s.reduceEntry b = 1 ∨ s.reduceEntry b = 2) :
    s.scalarMean x b t = s.metric b t := by
  have hfirst := fun hne => sum_collected fun h hh => (hx b hb t ht h hh).1 hne
  have hlast := fun hne => sum_collected fun h hh => (hx b hb t ht h hh).2 hne
  unfold scalarMean metric wFirst wLast
  simp only [add_assoc] at hfirst hlast ⊢
  rcases hentry with h | h | h
  · rw [h] at hfirst hlast ⊢
    rw [foldl_range_add, Finset.sum_add_distrib, hfirst (by decide), hlast (by decide)]
    push_cast
    ring
  · rw [h] at hfirst ⊢
    rw [if_neg (by decide), if_pos rfl, if_pos (by decide), if_neg (by decide), foldl_range_add,
      hfirst (by decide)]
    ring
  · rw [h] at hlast ⊢
    rw [if_neg (by decide), if_neg (by decide), if_neg (by decide), if_pos (by decide),
      foldl_range_add, hlast (by decide)]
    ring

theorem vecMean_eq_scalarMean (baseL i : Nat) :
    s.vecMean x b baseL i = s.scalarMean x b (baseL + i) := by
  have haccum : ∀ sum off h tok,
      s.accumSlot x sum off i (s.lse2 h tok) = sum + s.val (x (off + i)) h tok := by
    intro sum off h tok
    unfold accumSlot lse2 val
    split <;> rfl
  have hoff : ∀ off, off + baseL + s.maxSeqlen + i = off + s.maxSeqlen + (baseL + i) := by
    intro off
    ring
  unfold vecMean scalarMean
  simp only [haccum, hoff]
  simp only [add_assoc]

/-! ### The stores -/

/-- The stores of a row: all are to elements of the row, with the given values, and the elements
below the scored length are among them. -/
structure StoresRow (s : ScoreInputs) (b : Nat) (stores : List (Nat × ℝ)) (f : Nat → ℝ) : Prop where
  inRow : ∀ store ∈ stores, ∃ t < s.maxSeqlen, store = (b * s.maxSeqlen + t, f t)
  scored : ∀ t : Nat, (t : Int) < s.validLens b → (b * s.maxSeqlen + t, f t) ∈ stores

theorem StoresRow.c2qMetricRow (hvalid : s.validLens b ≤ s.maxSeqlen) :
    s.StoresRow b (s.c2qMetricRow b) fun t => s.c2qAcc b t / s.c2qCount b := by
  constructor
  · intro store hstore
    obtain ⟨tile, -, hstore⟩ := mem_flatMap.mp hstore
    unfold c2qMetricKernel at hstore
    split at hstore
    · cases hstore
    · obtain ⟨t, ht, rfl⟩ := mem_map.mp hstore
      have hlt := of_decide_eq_true (mem_filter.mp ht).2
      exact ⟨t, by omega, rfl⟩
  · intro t ht
    have hsplit : t / 64 * 64 + t % 64 = t := Nat.div_add_mod' t 64
    refine mem_flatMap.mpr ⟨t / 64, mem_range.mpr (by omega), ?_⟩
    unfold c2qMetricKernel
    rw [if_neg (by omega)]
    refine mem_map.mpr ⟨t, mem_filter.mpr ⟨mem_map.mpr
      ⟨t % 64, mem_range.mpr (by omega), hsplit⟩, decide_eq_true ht⟩, rfl⟩

theorem StoresRow.scalarRow (hvalid : s.validLens b ≤ s.maxSeqlen) :
    s.StoresRow b (s.scalarRow x b) (s.scalarMean x b) := by
  constructor
  · intro store hstore
    obtain ⟨block, -, hstore⟩ := mem_flatMap.mp hstore
    obtain ⟨thread, -, hstore⟩ := mem_flatMap.mp hstore
    unfold varlenMeanReduceKernel at hstore
    split at hstore
    · cases hstore
    · rename_i hlt
      split at hstore
      · cases hstore
      · exact ⟨_, not_le.mp hlt, mem_singleton.mp hstore⟩
  · intro t ht
    have hsplit : t / 128 * 128 + t % 128 = t := Nat.div_add_mod' t 128
    refine mem_flatMap.mpr ⟨t / 128, mem_range.mpr (by omega), mem_flatMap.mpr
      ⟨t % 128, mem_range.mpr (by omega), ?_⟩⟩
    unfold varlenMeanReduceKernel
    rw [hsplit, if_neg (by omega), if_neg (by omega)]
    exact mem_singleton_self _

/-- The vectorised kernel also stores to the elements after the scored length in its last vector,
which is in the row because the width is a multiple of eight. -/
theorem StoresRow.vecRow (hwidth : s.maxSeqlen % 8 = 0) (hvalid : s.validLens b ≤ s.maxSeqlen) :
    s.StoresRow b (s.vecRow x b) (s.scalarMean x b) := by
  constructor
  · intro store hstore
    obtain ⟨block, -, hstore⟩ := mem_flatMap.mp hstore
    obtain ⟨thread, -, hstore⟩ := mem_flatMap.mp hstore
    unfold varlenMeanReduceKernelVec at hstore
    split at hstore
    · cases hstore
    · split at hstore
      · cases hstore
      · obtain ⟨i, hi, rfl⟩ := mem_map.mp hstore
        have hi := mem_range.mp hi
        refine ⟨(block * 128 + thread) * 8 + i, by omega, ?_⟩
        rw [vecMean_eq_scalarMean, Nat.add_assoc]
  · intro t ht
    have hsplit : (t / 1024 * 128 + t / 8 % 128) * 8 + t % 8 = t := by omega
    refine mem_flatMap.mpr ⟨t / 1024, mem_range.mpr (by omega), mem_flatMap.mpr
      ⟨t / 8 % 128, mem_range.mpr (by omega), ?_⟩⟩
    unfold varlenMeanReduceKernelVec
    rw [if_neg (by omega), if_neg (by omega)]
    refine mem_map.mpr ⟨t % 8, mem_range.mpr (by omega), ?_⟩
    rw [vecMean_eq_scalarMean, Nat.add_assoc, hsplit]

theorem StoresRow.varlenReduceRow (hwidth : s.maxSeqlen % 8 = 0)
    (hvalid : s.validLens b ≤ s.maxSeqlen) :
    s.StoresRow b (s.varlenReduceRow x b) (s.scalarMean x b) := by
  unfold ScoreInputs.varlenReduceRow
  split
  · exact StoresRow.vecRow hwidth hvalid
  · exact StoresRow.scalarRow hvalid

theorem StoresRow.launch {row : Nat → List (Nat × ℝ)} {f : Nat → Nat → ℝ}
    (hrows : ∀ b < s.batch, s.StoresRow b (row b) (f b)) (out : Nat → ℝ) (hb : b < s.batch)
    (ht : (t : Int) < s.validLens b) :
    storeAll (s.launch row) out (b * s.maxSeqlen + t) = f b t := by
  have hmem := (hrows b hb).scored t ht
  obtain ⟨t', hlt, heq⟩ := (hrows b hb).inRow _ hmem
  obtain rfl : t = t' := Nat.add_left_cancel (congrArg Prod.fst heq)
  refine storeAll_of_mem (mem_map.mpr ⟨_, mem_flatMap.mpr
    ⟨b, mem_range.mpr hb, hmem⟩, rfl⟩) fun store hstore haddress => ?_
  obtain ⟨b', hb', hstore⟩ := mem_flatMap.mp hstore
  obtain ⟨t', hlt', rfl⟩ := (hrows b' (mem_range.mp hb')).inRow store hstore
  obtain ⟨rfl, rfl⟩ := flat_inj hlt' hlt haddress
  rfl

/-- The fused kernel, the reduction of the collected scores and both of its kernels leave the metric
in the elements below the scored length, and store to no other row. -/
theorem fused_eq_reduce (s : ScoreInputs) (x out : Nat → ℝ) (hwidth : s.maxSeqlen % 8 = 0)
    (hvalid : ∀ b < s.batch, s.validLens b ≤ s.maxSeqlen)
    (hentry : ∀ b < s.batch, s.reduceEntry b = 0 ∨ s.reduceEntry b = 1 ∨ s.reduceEntry b = 2)
    (hx : s.Collected x) :
    (∀ b < s.batch, ∀ t : Nat, (t : Int) < s.validLens b →
      storeAll (s.launch s.c2qMetricRow) out (b * s.maxSeqlen + t) = s.metric b t ∧
      storeAll (s.launch (s.varlenReduceRow x)) out (b * s.maxSeqlen + t) = s.metric b t ∧
      storeAll (s.launch (s.scalarRow x)) out (b * s.maxSeqlen + t) = s.metric b t ∧
      storeAll (s.launch (s.vecRow x)) out (b * s.maxSeqlen + t) = s.metric b t) ∧
    ∀ b < s.batch, ∀ store ∈ s.c2qMetricRow b ++ s.scalarRow x b ++ s.vecRow x b,
      b * s.maxSeqlen ≤ store.1 ∧ store.1 < (b + 1) * s.maxSeqlen := by
  have hfused := fun b hb => StoresRow.c2qMetricRow (hvalid b hb)
  have hscalar := fun b hb => StoresRow.scalarRow (x := x) (hvalid b hb)
  have hvec := fun b hb => StoresRow.vecRow (x := x) hwidth (hvalid b hb)
  have hreduce := fun b hb => StoresRow.varlenReduceRow (x := x) hwidth (hvalid b hb)
  refine ⟨fun b hb t ht => ?_, fun b hb store hstore => ?_⟩
  · rw [← scalarMean_eq_metric hx hb ht (hentry b hb)]
    refine ⟨?_, StoresRow.launch hreduce out hb ht, StoresRow.launch hscalar out hb ht,
      StoresRow.launch hvec out hb ht⟩
    rw [StoresRow.launch hfused out hb ht, c2q_eq_metric,
      scalarMean_eq_metric hx hb ht (hentry b hb)]
  · rw [mem_append, mem_append] at hstore
    obtain ⟨t, ht, haddress⟩ : ∃ t < s.maxSeqlen, store.1 = b * s.maxSeqlen + t := by
      rcases hstore with (hstore | hstore) | hstore
      · obtain ⟨t, ht, rfl⟩ := (hfused b hb).inRow store hstore
        exact ⟨t, ht, rfl⟩
      · obtain ⟨t, ht, rfl⟩ := (hscalar b hb).inRow store hstore
        exact ⟨t, ht, rfl⟩
      · obtain ⟨t, ht, rfl⟩ := (hvec b hb).inRow store hstore
        exact ⟨t, ht, rfl⟩
    rw [Nat.succ_mul]
    omega

noncomputable def smallInputs : ScoreInputs where
  q _ _ _ := 1
  k slot _ _ := slot
  blockTable _ i := i
  cuSeqlensQ b := 2 * b
  validLens _ := 2
  reduceEntry _ := 0
  lse _ _ := 1
  softmaxScale := 1
  useWeight := true
  batch := 1
  kvHeads := 1
  group := 2
  dim := 1
  page := 1
  maxSeqlen := 8

theorem fused_eq_reduce_small :
    storeAll (smallInputs.launch smallInputs.c2qMetricRow) (fun _ => 0) 1 =
      storeAll (smallInputs.launch (smallInputs.varlenReduceRow fun a => (a % 8 : Nat)))
        (fun _ => 0) 1 := by
  have hcollected : smallInputs.Collected fun a => (a % 8 : Nat) := by
    intro b hb t ht h hh
    obtain rfl : b = 0 := Nat.lt_one_iff.mp hb
    have ht : (t : Int) < 2 := ht
    have hscore : ∀ tok, smallInputs.score 0 tok h t = t := fun tok => by
      simp [score, slot, smallInputs]
    have hindex : (0 * 2 * 16 + h * 16 + t) % 8 = t ∧ (0 * 2 * 16 + h * 16 + 8 + t) % 8 = t := by
      omega
    refine ⟨fun _ => ?_, fun _ => ?_⟩
    · rw [hscore]
      exact congrArg Nat.cast hindex.1
    · rw [hscore]
      exact congrArg Nat.cast hindex.2
  obtain ⟨hfused, hreduce, -⟩ := (fused_eq_reduce smallInputs _ (fun _ => 0) rfl
    (fun _ _ => show (2 : Int) ≤ 8 by decide) (fun _ _ => .inl rfl) hcollected).1 0 Nat.one_pos 1
    (show (1 : Int) < 2 by decide)
  exact hfused.trans hreduce.symm

end ScoreInputs

end LongCtxSpecDecode
