import Mathlib

/-!
# Slots under context parallelism

`BlockTable.compute_slot_mapping` and `get_dcp_local_seq_lens`: the ranks share the tokens of a
sequence in groups of `cp_kv_cache_interleave_size`, and a block of the table stands for a block
on every rank.
-/

namespace LongCtxSpecDecode

open List

/-! ### Interleaved positions -/

section interleave

variable {I W B v v' q : Nat}

/-- Where a rank keeps the position `v` of a virtual block. -/
def interleavedOffset (I W v : Nat) : Nat := v / (W * I) * I + v % I

theorem interleavedOffset_lt (hI : 0 < I) (hdvd : I ∣ B) (hv : v < B * W) :
    interleavedOffset I W v < B := by
  obtain ⟨k, rfl⟩ := hdvd
  have hgroup : v / (W * I) < k := Nat.div_lt_of_lt_mul (by rwa [Nat.mul_comm I k, Nat.mul_assoc,
    Nat.mul_comm I W, Nat.mul_comm] at hv)
  calc v / (W * I) * I + v % I < v / (W * I) * I + I := Nat.add_lt_add_left (Nat.mod_lt _ hI) _
    _ = (v / (W * I) + 1) * I := (Nat.succ_mul ..).symm
    _ ≤ k * I := Nat.mul_le_mul_right I hgroup
    _ = I * k := Nat.mul_comm ..

theorem eq_of_interleavedOffset (hI : 0 < I) (hrank : v / I % W = v' / I % W)
    (hoffset : interleavedOffset I W v = interleavedOffset I W v') : v = v' := by
  have hgroup := congrArg (· / I) hoffset
  have hlast := congrArg (· % I) hoffset
  simp only [interleavedOffset, Nat.mul_comm _ I, Nat.mul_add_div hI, Nat.mul_add_mod,
    Nat.div_eq_of_lt (Nat.mod_lt _ hI), Nat.mod_mod, Nat.add_zero, ← Nat.div_div_eq_div_mul]
    at hgroup hlast
  have hdiv : v / I = v' / I := by
    rw [← Nat.div_add_mod (v / I) W, hgroup, hrank, Nat.div_add_mod]
  rw [← Nat.div_add_mod v I, hdiv, hlast, Nat.div_add_mod]

theorem succ_div_mod (hI : 0 < I) (n : Nat) :
    (n % I + 1 < I ∧ (n + 1) / I = n / I ∧ (n + 1) % I = n % I + 1) ∨
      (n % I + 1 = I ∧ (n + 1) / I = n / I + 1 ∧ (n + 1) % I = 0) := by
  have hn := Nat.div_add_mod n I
  rcases Nat.lt_or_ge (n % I + 1) I with hlt | hge
  · exact .inl ⟨hlt, (Nat.div_mod_unique hI).mpr ⟨by omega, hlt⟩⟩
  · have hmod : n % I + 1 = I := Nat.le_antisymm (Nat.mod_lt n hI) hge
    refine .inr ⟨hmod, (Nat.div_mod_unique hI).mpr ⟨?_, hI⟩⟩
    rw [Nat.mul_succ]
    omega

theorem countP_interleaved (hI : 0 < I) (hq : q < W) (L : Nat) :
    (range L).countP (fun pos => pos / I % W = q) = L / I / W * I +
      if L / I % W < q then 0 else if L / I % W = q then L % I else I := by
  induction L with
  | zero =>
    simp only [range_zero, countP_nil, Nat.zero_div, Nat.zero_mod, Nat.zero_mul]
    split_ifs <;> omega
  | succ L ih =>
    rw [range_succ, countP_append, ih, countP_singleton]
    have hW : 0 < W := Nat.zero_lt_of_lt hq
    have hrank := Nat.mod_lt (L / I) hW
    -- the next position is in the same group, in that of the next rank, or in a new round
    rcases succ_div_mod hI L with ⟨hlt, hdiv, hmod⟩ | ⟨hlast, hdiv, hmod⟩
    · rw [hdiv, hmod]
      grind
    · rw [hdiv, hmod]
      rcases succ_div_mod hW (L / I) with ⟨hlt, hdiv', hmod'⟩ | ⟨hlast', hdiv', hmod'⟩
      · rw [hdiv', hmod']
        grind
      · rw [hdiv', hmod', Nat.succ_mul]
        grind

end interleave

/-! ### The slots -/

/-- A `BlockTable` with the groups of ranks it is used under. -/
structure CpBlockTable where
  blockSize : Nat
  maxNumBlocksPerReq : Nat
  pcpWorldSize : Nat
  dcpWorldSize : Nat
  interleaveSize : Nat
  blockTable : Nat → Nat → Nat

/-- The local length of a sequence on one rank. -/
def getDcpLocalSeqLens (seqLen dcpSize dcpRank interleaveSize : Nat) : Int :=
  let base : Int := seqLen / interleaveSize / dcpSize * interleaveSize
  let remainder := seqLen - base * dcpSize
  base + min (max (remainder - dcpRank * interleaveSize) 0) interleaveSize

namespace CpBlockTable

variable (t : CpBlockTable)

/-- `total_cp_world_size`. -/
def totalCpWorldSize : Nat := t.pcpWorldSize * t.dcpWorldSize

/-- The tokens of a block over all ranks of context parallelism. -/
def virtualBlockSize : Nat := t.blockSize * t.totalCpWorldSize

/-- `block_table.np.ravel()[index]` -/
def ravel (index : Nat) : Nat :=
  t.blockTable (index / t.maxNumBlocksPerReq) (index % t.maxNumBlocksPerReq)

/-- The entry of one token in `compute_slot_mapping`. -/
def slotMapping (pcpRank dcpRank reqIndex position : Nat) : Int :=
  if t.totalCpWorldSize > 1 then
    let blockNumber := t.ravel (reqIndex * t.maxNumBlocksPerReq + position / t.virtualBlockSize)
    let virtualBlockOffset := position % t.virtualBlockSize
    if virtualBlockOffset / t.interleaveSize % t.totalCpWorldSize =
        pcpRank * t.dcpWorldSize + dcpRank then
      (blockNumber * t.blockSize +
        interleavedOffset t.interleaveSize t.totalCpWorldSize virtualBlockOffset : Nat)
    else -1
  else
    let blockNumber := t.ravel (reqIndex * t.maxNumBlocksPerReq + position / t.blockSize)
    (blockNumber * t.blockSize + position % t.blockSize : Nat)

/-- What the configuration checks of the sizes. -/
structure Valid : Prop where
  blockSize : 0 < t.blockSize
  interleaveSize : 0 < t.interleaveSize
  divides : t.interleaveSize ∣ t.blockSize
  pcp : 0 < t.pcpWorldSize
  dcp : 0 < t.dcpWorldSize

variable {t} {p q p' q' req req' pos pos' n : Nat}

theorem ravel_row (i : Nat) (hi : i < t.maxNumBlocksPerReq) :
    t.ravel (req * t.maxNumBlocksPerReq + i) = t.blockTable req i := by
  have hpos := Nat.zero_lt_of_lt hi
  rw [ravel, Nat.add_comm, Nat.add_mul_div_right _ _ hpos, Nat.add_mul_mod_self_right,
    Nat.div_eq_of_lt hi, Nat.mod_eq_of_lt hi, Nat.zero_add]

theorem virtualBlockOffset_rank (ht : t.Valid) (pos : Nat) :
    pos % t.virtualBlockSize / t.interleaveSize % t.totalCpWorldSize =
      pos / t.interleaveSize % t.totalCpWorldSize := by
  obtain ⟨k, hk⟩ := ht.divides
  rw [virtualBlockSize, hk, Nat.mul_assoc, Nat.mod_mul_right_div_self, Nat.mod_mul_left_mod]

section

variable (ht : t.Valid) (hp : p < t.pcpWorldSize) (hq : q < t.dcpWorldSize)
  (hpos : pos < t.maxNumBlocksPerReq * t.virtualBlockSize)
include ht hp hq hpos

theorem slotMapping_eq : t.slotMapping p q req pos =
      if pos / t.interleaveSize % t.totalCpWorldSize = p * t.dcpWorldSize + q then
        ((t.blockTable req (pos / t.virtualBlockSize) * t.blockSize + interleavedOffset
          t.interleaveSize t.totalCpWorldSize (pos % t.virtualBlockSize) : Nat) : Int)
      else -1 := by
  have hblock : pos / t.virtualBlockSize < t.maxNumBlocksPerReq :=
    Nat.div_lt_of_lt_mul (by rwa [Nat.mul_comm])
  unfold slotMapping
  by_cases hmany : t.totalCpWorldSize > 1
  · rw [if_pos hmany]
    simp only [virtualBlockOffset_rank ht, ravel_row _ hblock]
  · -- a single rank
    rw [if_neg hmany]
    have hone : t.totalCpWorldSize = 1 := by
      have := Nat.mul_pos ht.pcp ht.dcp
      unfold totalCpWorldSize at hmany ⊢
      omega
    have hpcp : t.pcpWorldSize = 1 := Nat.eq_one_of_mul_eq_one_right hone
    have hdcp : t.dcpWorldSize = 1 := Nat.eq_one_of_mul_eq_one_left hone
    rw [virtualBlockSize, hone, Nat.mul_one] at hblock ⊢
    rw [hpcp] at hp
    rw [hdcp] at hq ⊢
    rw [ravel_row _ hblock, Nat.mod_one, if_pos (by omega), interleavedOffset, Nat.one_mul,
      Nat.div_add_mod']

theorem eq_of_slotMapping_eq (hpos' : pos' < t.maxNumBlocksPerReq * t.virtualBlockSize)
    (hslot : t.slotMapping p q req pos ≠ -1)
    (heq : t.slotMapping p q req pos = t.slotMapping p q req' pos') :
    t.blockTable req (pos / t.virtualBlockSize) = t.blockTable req' (pos' / t.virtualBlockSize) ∧
      pos % t.virtualBlockSize = pos' % t.virtualBlockSize := by
  have hlt : ∀ pos, interleavedOffset t.interleaveSize t.totalCpWorldSize
      (pos % t.virtualBlockSize) < t.blockSize := fun pos =>
    interleavedOffset_lt ht.interleaveSize ht.divides
      (Nat.mod_lt _ (Nat.mul_pos ht.blockSize (Nat.mul_pos ht.pcp ht.dcp)))
  have hrank : ∀ pos, pos % t.virtualBlockSize / t.interleaveSize % t.totalCpWorldSize =
      pos / t.interleaveSize % t.totalCpWorldSize := virtualBlockOffset_rank ht
  rw [slotMapping_eq ht hp hq hpos, slotMapping_eq ht hp hq hpos'] at heq
  rw [slotMapping_eq ht hp hq hpos] at hslot
  split_ifs at hslot heq with h h'
  · have heq := Int.ofNat.inj heq
    have hblock := congrArg (· / t.blockSize) heq
    have hoffset := congrArg (· % t.blockSize) heq
    simp only [Nat.mul_comm _ t.blockSize, Nat.mul_add_div ht.blockSize, Nat.mul_add_mod,
      Nat.div_eq_of_lt (hlt _), Nat.mod_eq_of_lt (hlt _)] at hblock hoffset
    exact ⟨hblock, eq_of_interleavedOffset ht.interleaveSize (by rw [hrank, hrank, h, h']) hoffset⟩
  · omega

theorem slotMapping_ne_iff : t.slotMapping p q req pos ≠ -1 ↔
      pos / t.interleaveSize % t.totalCpWorldSize = p * t.dcpWorldSize + q := by
  rw [slotMapping_eq ht hp hq hpos]
  split_ifs with h
  · simp only [h, iff_true]
    omega
  · simp [h]

end

theorem getDcpLocalSeqLens_eq {I W : Nat} (hI : 0 < I) (hq : q < W) (L : Nat) :
    getDcpLocalSeqLens L W q I = ((range L).countP fun pos => pos / I % W = q : Nat) := by
  have hmod := Nat.mod_lt L hI
  have hL : L = L / I / W * I * W + L / I % W * I + L % I := by
    calc L = I * (W * (L / I / W) + L / I % W) + L % I := by
            rw [Nat.div_add_mod, Nat.div_add_mod]
      _ = _ := by ring
  rw [countP_interleaved hI hq]
  generalize hbase : L / I / W * I = base at hL
  generalize hrank : L / I % W = c at hL
  generalize L % I = d at hL hmod
  have hbase' : (L : Int) / I / W * I = base := by exact_mod_cast hbase
  have hlow : c < q → c * I + I ≤ q * I := fun h => Nat.succ_mul c I ▸ Nat.mul_le_mul_right I h
  have hhigh : q < c → q * I + I ≤ c * I := fun h => Nat.succ_mul q I ▸ Nat.mul_le_mul_right I h
  rw [getDcpLocalSeqLens, hbase']
  split_ifs with hlt heq
  · have := hlow hlt
    omega
  · subst heq
    omega
  · have := hhigh (by omega)
    omega

theorem slot_mapping_partitions (t : CpBlockTable) (ht : t.Valid) :
    (∀ req pos, pos < t.maxNumBlocksPerReq * t.virtualBlockSize →
      ∃ p q, (p < t.pcpWorldSize ∧ q < t.dcpWorldSize ∧ t.slotMapping p q req pos ≠ -1) ∧
        ∀ p' < t.pcpWorldSize, ∀ q' < t.dcpWorldSize, t.slotMapping p' q' req pos ≠ -1 →
          p' = p ∧ q' = q) ∧
    (∀ req req' n n', n ≤ t.maxNumBlocksPerReq → n' ≤ t.maxNumBlocksPerReq →
      (∀ i < n, ∀ j < n', t.blockTable req i ≠ t.blockTable req' j) →
      ∀ pos < n * t.virtualBlockSize, ∀ pos' < n' * t.virtualBlockSize,
      ∀ p < t.pcpWorldSize, ∀ q < t.dcpWorldSize, t.slotMapping p q req pos ≠ -1 →
        t.slotMapping p q req pos ≠ t.slotMapping p q req' pos') ∧
    (∀ req n, n ≤ t.maxNumBlocksPerReq →
      (∀ i < n, ∀ j < n, t.blockTable req i = t.blockTable req j → i = j) →
      ∀ pos < n * t.virtualBlockSize, ∀ pos' < n * t.virtualBlockSize, pos ≠ pos' →
      ∀ p < t.pcpWorldSize, ∀ q < t.dcpWorldSize, t.slotMapping p q req pos ≠ -1 →
        t.slotMapping p q req pos ≠ t.slotMapping p q req pos') ∧
    (∀ req pos, pos < t.maxNumBlocksPerReq * t.virtualBlockSize →
      ∀ p < t.pcpWorldSize, ∀ q < t.dcpWorldSize, t.slotMapping p q req pos ≠ -1 →
      ∃ offset < t.blockSize, t.slotMapping p q req pos =
        (t.blockTable req (pos / t.virtualBlockSize) * t.blockSize + offset : Nat)) ∧
    (t.pcpWorldSize = 1 → ∀ req L, L ≤ t.maxNumBlocksPerReq * t.virtualBlockSize →
      ∀ q < t.dcpWorldSize,
      ((range L).countP fun pos => t.slotMapping 0 q req pos ≠ -1 : Nat) =
        getDcpLocalSeqLens L t.dcpWorldSize q t.interleaveSize) := by
  have hin : ∀ {n pos}, n ≤ t.maxNumBlocksPerReq → pos < n * t.virtualBlockSize →
      pos < t.maxNumBlocksPerReq * t.virtualBlockSize :=
    fun hn hpos => hpos.trans_le (Nat.mul_le_mul_right _ hn)
  have hblock : ∀ {n pos}, pos < n * t.virtualBlockSize → pos / t.virtualBlockSize < n :=
    fun hpos => Nat.div_lt_of_lt_mul (by rwa [Nat.mul_comm])
  refine ⟨fun req pos hpos => ?_, fun req req' n n' hn hn' hdisjoint pos hpos pos' hpos' p hp q hq
    hslot heq => ?_, fun req n hn hinj pos hpos pos' hpos' hne p hp q hq hslot heq => ?_,
    fun req pos hpos p hp q hq hslot => ?_, fun hone req L hL q hq => ?_⟩
  · have hrank : pos / t.interleaveSize % t.totalCpWorldSize < t.pcpWorldSize * t.dcpWorldSize :=
      Nat.mod_lt _ (Nat.mul_pos ht.pcp ht.dcp)
    generalize hr : pos / t.interleaveSize % t.totalCpWorldSize = r at hrank
    have hp : r / t.dcpWorldSize < t.pcpWorldSize := Nat.div_lt_of_lt_mul (by rwa [Nat.mul_comm])
    have hq := Nat.mod_lt r ht.dcp
    refine ⟨r / t.dcpWorldSize, r % t.dcpWorldSize, ⟨hp, hq, ?_⟩, fun p' hp' q' hq' hslot => ?_⟩
    · rw [slotMapping_ne_iff ht hp hq hpos, hr, Nat.div_add_mod']
    · rw [slotMapping_ne_iff ht hp' hq' hpos, hr] at hslot
      rw [hslot, Nat.mul_comm, Nat.mul_add_div ht.dcp, Nat.mul_add_mod, Nat.div_eq_of_lt hq',
        Nat.mod_eq_of_lt hq']
      exact ⟨rfl, rfl⟩
  · exact hdisjoint _ (hblock hpos) _ (hblock hpos')
      (eq_of_slotMapping_eq ht hp hq (hin hn hpos) (hin hn' hpos') hslot heq).1
  · obtain ⟨hsame, hoffset⟩ := eq_of_slotMapping_eq ht hp hq (hin hn hpos) (hin hn hpos') hslot heq
    have hdiv := hinj _ (hblock hpos) _ (hblock hpos') hsame
    exact hne (by rw [← Nat.div_add_mod pos t.virtualBlockSize, hdiv, hoffset, Nat.div_add_mod])
  · have hrank := (slotMapping_ne_iff ht hp hq hpos).mp hslot
    rw [slotMapping_eq ht hp hq hpos, if_pos hrank]
    exact ⟨_, interleavedOffset_lt ht.interleaveSize ht.divides
      (Nat.mod_lt _ (Nat.mul_pos ht.blockSize (Nat.mul_pos ht.pcp ht.dcp))), rfl⟩
  · have hW : t.totalCpWorldSize = t.dcpWorldSize := by rw [totalCpWorldSize, hone, Nat.one_mul]
    rw [getDcpLocalSeqLens_eq ht.interleaveSize hq]
    refine congrArg Nat.cast (countP_congr fun pos hpos => ?_)
    have hpos := (mem_range.mp hpos).trans_le hL
    simp only [decide_eq_true_eq]
    rw [slotMapping_ne_iff ht ht.pcp hq hpos, hW, Nat.zero_mul, Nat.zero_add]

/-- Three ranks of blocks of four tokens, shared in groups of two. -/
theorem slot_mapping_partitions_three : ((range 10).countP fun pos =>
    slotMapping ⟨4, 2, 1, 3, 2, fun _ i => i + 7⟩ 0 1 0 pos ≠ -1 : Nat) = (4 : Int) :=
  ((slot_mapping_partitions ⟨4, 2, 1, 3, 2, fun _ i => i + 7⟩
    ⟨by decide, by decide, by decide, by decide, by decide⟩).2.2.2.2 rfl 0 10 (by decide) 1
      (by decide)).trans (by decide)

end CpBlockTable

end LongCtxSpecDecode
