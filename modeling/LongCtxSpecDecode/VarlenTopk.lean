import LongCtxSpecDecode.Library.FloatBits
import LongCtxSpecDecode.Library.RadixSelect
import LongCtxSpecDecode.Library.Threads

/-!
# The top-k kernels

`attn_overrider/utils/varlen_topk.py`: for each row of a metric the indices of its `k` largest
entries, selected by one block or by several in a pipeline of launches. The kernels are given the
order in which the atomic operations of their threads take effect.
-/

namespace LongCtxSpecDecode.VarlenTopk

open Library Library.RadixSelect List

inductive Dtype where
  | half
  | bfloat16
  | float
deriving DecidableEq, Repr

def Dtype.format : Dtype → FloatFormat
  | half => ⟨5, 10⟩
  | bfloat16 => ⟨8, 7⟩
  | float => ⟨8, 23⟩

/-- `sizeof(T) * 8`. -/
def Dtype.bits (d : Dtype) : Nat := d.format.width

def bitsPerPass : Nat := 8

def numBuckets : Nat := 1 <<< bitsPerPass

def blockSize : Nat := 1024

def multiBlockSize : Nat := 512

section helpers

variable (d : Dtype)

def calcNumPasses : Nat := (d.bits + bitsPerPass - 1) / bitsPerPass

/-- `calc_start_bit`, not below zero. -/
def calcStartBit (pass : Int) : Nat := ((d.bits : Int) - (pass + 1) * bitsPerPass).toNat

def calcMask (pass : Int) : Nat := (1 <<< (calcStartBit d (pass - 1) - calcStartBit d pass)) - 1

variable {d}

/-- `twiddle_in`: the smallest bits are taken first. -/
def twiddle (key : BitVec d.bits) (selectMin : Bool) : Nat :=
  (if selectMin then twiddleIn key else ~~~twiddleIn key).toNat

def calcBucket (x : BitVec d.bits) (startBit mask : Nat) (selectMin : Bool) : Nat :=
  (twiddle x selectMin >>> startBit) &&& mask

end helpers

/-- `multiblock_rows`: the blocks that a row is split into. -/
def multiblockRows (maxLen : Nat) : Nat :=
  min (max ((maxLen + 4096 - 1) / 4096) 1) 64

def shouldUseMultiblock (batchSize maxLen : Nat) : Bool :=
  if maxLen ≤ 32768 then false else batchSize < multiblockRows maxLen

/-- The atomic increments of a histogram. Those of later passes are for the keys with the leading
bits found so far. -/
def histogramOf {d : Dtype} (row : Nat → BitVec d.bits) (selectMin : Bool) (kthBits pass : Nat)
    (order : List Nat) : Nat → Nat :=
  let prevStartBit := calcStartBit d (pass - 1)
  order.foldl
    (tally (· + ·)
      (fun i => pass = 0 ∨
        (twiddle (row i) selectMin >>> prevStartBit) <<< prevStartBit = kthBits)
      (fun i => calcBucket (row i) (calcStartBit d pass) (calcMask d pass) selectMin)
      fun _ => 1)
    fun _ => 0

/-- The running sum of thread 0: `scan[n - 1]`, and zero for `n == 0`. -/
def scan (hist : Nat → Nat) (n : Nat) : Nat := ((range n).map hist).sum

/-- The store of a key or a tie by `last_filter` and `MultiBlockFilterKernel`. -/
def filterIndex {d : Dtype} (row : Nat → BitVec d.bits) (kthBits : Nat) (selectMin : Bool)
    (pass k needed : Nat) : Placed Nat → Nat → Placed Nat :=
  let startBit := calcStartBit d pass
  Placed.place (fun i => (twiddle (row i) selectMin >>> startBit) <<< startBit < kthBits)
    (fun i => (twiddle (row i) selectMin >>> startBit) <<< startBit = kthBits) k needed

/-! ### One block for a row -/

/-- `Counter`, without the counters of the last filter. -/
structure Counter where
  k : Nat
  len : Nat
  kthValueBits : Nat
deriving DecidableEq, Repr

/-- The order of the atomic operations of a row: of each histogram, and of the last filter. -/
structure Orders where
  histogram : Nat → List Nat
  filter : List Nat

section singleBlock

variable {d : Dtype} (row : Nat → BitVec d.bits) (selectMin : Bool)

/-- `choose_bucket`: the threads look for the bucket with the `k`-th key. -/
def chooseBucket (d : Dtype) (counter : Counter) (hist : Nat → Nat) (k pass : Nat) : Counter :=
  (range numBuckets).foldl
    (fun counter i =>
      if scan hist i < k ∧ scan hist (i + 1) ≥ k then
        { k := k - scan hist i
          len := scan hist (i + 1) - scan hist i
          kthValueBits := counter.kthValueBits ||| (i <<< calcStartBit d pass) }
      else counter)
    counter

def lastFilter (counter : Counter) (pass k : Nat) (order : List Nat) (out : Nat → Nat) :
    Nat → Nat :=
  (order.foldl (filterIndex row counter.kthValueBits selectMin pass k counter.k)
    { out, outCnt := 0, outBackCnt := 0 }).out

/-- The passes of `SingleBlockKernel` from a pass on. -/
def singleBlockPasses (k : Nat) (orders : Orders) (out : Nat → Nat) :
    Nat → Counter → Nat → Nat
  | 0, _ => out
  | remaining + 1, counter =>
    let pass := calcNumPasses d - (remaining + 1)
    let hist := histogramOf row selectMin counter.kthValueBits pass (orders.histogram pass)
    let counter := chooseBucket d counter hist counter.k pass
    if counter.len = counter.k ∨ pass = calcNumPasses d - 1 then
      lastFilter row selectMin counter pass k orders.filter out
    else singleBlockPasses k orders out remaining counter

/-- `SingleBlockKernel` for one row. -/
def singleBlockKernel (len k : Nat) (orders : Orders) (out : Nat → Nat) : Nat → Nat :=
  if k = 0 then out
  else if len ≤ k then
    Stores.storeAll ((strideLoop blockSize 0 len).map fun i => (i, i)) out
  else
    singleBlockPasses row selectMin k orders out (calcNumPasses d)
      { k, len, kthValueBits := 0 }

end singleBlock

/-! ### Several blocks for a row -/

structure RowWorkspace where
  histogram : Nat → Nat
  kthBits : Nat
  remainingK : Nat

/-- The order of the atomic operations of a row: in each pass those of each block on its own
histogram, and those of the blocks on each bucket of the row; and of the last filter. -/
structure BlockOrders where
  localHist : Nat → Nat → List Nat
  flush : Nat → Nat → List Nat
  filter : List Nat

section multiBlock

variable {d : Dtype} (row : Nat → BitVec d.bits) (selectMin : Bool) (len blocksPerRow : Nat)

def blockIndices (blockInRow : Nat) : List Nat :=
  let elemsPerBlock := (len + blocksPerRow - 1) / blocksPerRow
  let start := blockInRow * elemsPerBlock
  strideLoop multiBlockSize start (min (start + elemsPerBlock) len)

/-- `MultiBlockHistogramKernel`: each block counts its slice, and adds the buckets that are not
empty. -/
def multiBlockHistogramKernel (orders : BlockOrders) (pass : Nat) (ws : RowWorkspace) :
    RowWorkspace :=
  let localHist := fun block =>
    histogramOf row selectMin ws.kthBits pass (orders.localHist pass block)
  { ws with
    histogram := fun i =>
      if i < numBuckets then
        (orders.flush pass i).foldl
          (fun sum block => if localHist block i > 0 then sum + localHist block i else sum)
          (ws.histogram i)
      else ws.histogram i }

def multiBlockChooseBucketKernel (d : Dtype) (pass : Nat) (ws : RowWorkspace) : RowWorkspace :=
  let k := ws.remainingK
  let chosen := (range numBuckets).foldl
    (fun (state : Nat × Nat) i =>
      if scan ws.histogram i < k ∧ scan ws.histogram (i + 1) ≥ k then
        (k - scan ws.histogram i, state.2 ||| (i <<< calcStartBit d pass))
      else state)
    (ws.remainingK, ws.kthBits)
  { histogram := fun i => if i < numBuckets then 0 else ws.histogram i
    remainingK := chosen.1
    kthBits := chosen.2 }

/-- `MultiBlockFilterKernel` for one row. -/
def multiBlockFilterKernel (k pass : Nat) (ws : RowWorkspace) (order : List Nat) (out : Nat → Nat) :
    Nat → Nat :=
  if k = 0 ∨ len ≤ k then out
  else
    (order.foldl (filterIndex row ws.kthBits selectMin pass k ws.remainingK)
      { out, outCnt := 0, outBackCnt := 0 }).out

/-- `HandleTrivialKernel` for one row. -/
def handleTrivialKernel (k : Nat) (out : Nat → Nat) : Nat → Nat :=
  if k = 0 ∨ len > k then out
  else Stores.storeAll ((strideLoop multiBlockSize 0 len).map fun i => (i, i)) out

/-- The launches of `launch_multi_block`, for one row. -/
def launchMultiBlock (k : Nat) (orders : BlockOrders) (out : Nat → Nat) : Nat → Nat :=
  let ws : RowWorkspace := { histogram := fun _ => 0, kthBits := 0, remainingK := k }
  let out := handleTrivialKernel len k out
  let ws := (range (calcNumPasses d)).foldl
    (fun ws pass => multiBlockChooseBucketKernel d pass
      (multiBlockHistogramKernel row selectMin orders pass ws)) ws
  multiBlockFilterKernel row selectMin len k (calcNumPasses d - 1) ws orders.filter out

end multiBlock

/-! ### The launch -/

/-- `launch_batch_topk`: rows do not share any state, so that the orders are those of each row.
A path of `-1` is the built-in choice. -/
def launchBatchTopk {d : Dtype} (metric : Nat → Nat → BitVec d.bits) (topks validLens : Nat → Nat)
    (batchSize maxLen : Nat) (selectMin : Bool) (forcePath : Int) (orders : Nat → Orders)
    (blockOrders : Nat → BlockOrders) (outIdxs : Nat → Nat → Nat) : Nat → Nat → Nat :=
  let useMultiblock :=
    if forcePath < 0 then shouldUseMultiblock batchSize maxLen else decide (forcePath = 1)
  fun batchId =>
    if batchId < batchSize then
      if useMultiblock then
        launchMultiBlock (metric batchId) selectMin (validLens batchId) (topks batchId)
          (blockOrders batchId) (outIdxs batchId)
      else
        singleBlockKernel (metric batchId) selectMin (validLens batchId) (topks batchId)
          (orders batchId) (outIdxs batchId)
    else outIdxs batchId

def bufLen (maxK : Nat) : Nat := max (maxK / 8 / 64 * 64) 256

/-- `get_buffer_size`, in bytes. -/
def getBufferSize (batchSize maxK : Nat) : Nat :=
  max (batchSize * bufLen maxK * 4) (batchSize * (numBuckets + 5) * 4 + 256)

/-- The byte at which `row_buf` starts. It has `buf_len` words. -/
def rowBuf (maxK batchId : Nat) : Nat := batchId * bufLen maxK * 4

/-- The cells of the workspace of `launch_multi_block`. -/
inductive Cell where
  | histogram (batchId bucket : Nat)
  | kthBits (batchId : Nat)
  | remainingKs (batchId : Nat)
  | outCnts (batchId : Nat)
  | outBackCnts (batchId : Nat)
deriving DecidableEq, Repr

def Cell.offset (batchSize : Nat) : Cell → Nat
  | histogram batchId bucket => (batchId * numBuckets + bucket) * 4
  | kthBits batchId => batchSize * numBuckets * 4 + batchId * 4
  | remainingKs batchId => batchSize * numBuckets * 4 + batchSize * 4 + batchId * 4
  | outCnts batchId => batchSize * numBuckets * 4 + batchSize * 4 + batchSize * 4 + batchId * 4
  | outBackCnts batchId =>
    batchSize * numBuckets * 4 + batchSize * 4 + batchSize * 4 + batchSize * 4 + batchId * 4

def Cell.Used (batchSize : Nat) : Cell → Prop
  | histogram batchId bucket => batchId < batchSize ∧ bucket < numBuckets
  | kthBits batchId | remainingKs batchId | outCnts batchId | outBackCnts batchId =>
    batchId < batchSize

/-! ### Digits of the keys -/

section keys

variable {d : Dtype} {x : BitVec d.bits} {row : Nat → BitVec d.bits} {selectMin : Bool}
  {pass r a b k needed len : Nat} {out : Nat → Nat} {order : List Nat}

theorem bits_eq (d : Dtype) : d.bits = 8 * calcNumPasses d := by
  cases d <;> rfl

theorem calcStartBit_eq (h : pass + 1 + r = calcNumPasses d) : calcStartBit d pass = 8 * r := by
  simp only [calcStartBit, bits_eq, bitsPerPass]
  omega

theorem calcStartBit_prev (h : pass + 1 + r = calcNumPasses d) :
    calcStartBit d ((pass : Int) - 1) = 8 * r + 8 := by
  simp only [calcStartBit, bits_eq, bitsPerPass]
  omega

theorem calcBucket_eq (h : pass + 1 + r = calcNumPasses d) :
    calcBucket x (calcStartBit d pass) (calcMask d pass) selectMin =
      digit 8 (8 * r) (twiddle x selectMin) := by
  rw [calcBucket, calcMask, calcStartBit_prev h, calcStartBit_eq h, Nat.add_sub_cancel_left,
    Nat.one_shiftLeft, Nat.and_two_pow_sub_one_eq_mod, Nat.shiftRight_eq_div_pow, digit]

theorem shift_eq_iff (s : Nat) {x : Nat} : (x >>> s) <<< s = a * 2 ^ s ↔ lead s x = a := by
  rw [Nat.shiftRight_eq_div_pow, Nat.shiftLeft_eq,
    Nat.mul_left_inj (Nat.two_pow_pos s).ne', lead]

theorem shift_lt_iff (s : Nat) {x : Nat} : (x >>> s) <<< s < a * 2 ^ s ↔ lead s x < a := by
  rw [Nat.shiftRight_eq_div_pow, Nat.shiftLeft_eq, Nat.mul_lt_mul_right (Nat.two_pow_pos s), lead]

theorem or_shiftLeft (hb : b < 2 ^ 8) :
    a * 2 ^ (8 * r + 8) ||| (b <<< (8 * r)) = (a * 2 ^ 8 + b) * 2 ^ (8 * r) := by
  have hlt : b <<< (8 * r) < 2 ^ (8 * r + 8) := by
    rw [Nat.shiftLeft_eq, Nat.pow_add, Nat.mul_comm]
    exact Nat.mul_lt_mul_of_pos_left hb (Nat.two_pow_pos _)
  rw [← Nat.shiftLeft_eq a, ← Nat.shiftLeft_add_eq_or_of_lt hlt, Nat.shiftLeft_eq, Nat.shiftLeft_eq]
  ring

abbrev rowKey (row : Nat → BitVec d.bits) (selectMin : Bool) (i : Nat) : Nat :=
  twiddle (row i) selectMin

theorem lead_bits (x : BitVec d.bits) (selectMin : Bool) :
    lead (8 * calcNumPasses d) (twiddle x selectMin) = 0 :=
  Nat.div_eq_of_lt (bits_eq d ▸ BitVec.isLt _)

theorem histogramOf_eq (h : pass + 1 + r = calcNumPasses d) (hfirst : pass = 0 → a = 0) :
    histogramOf row selectMin (a * 2 ^ (8 * r + 8)) pass order =
      digitMass (rowKey row selectMin) (fun _ => 1) 8 (8 * r) a order := by
  funext b
  rw [histogramOf, foldl_tally, Nat.zero_add]
  refine massOf_congr fun i _ => ?_
  rw [Bool.eq_iff_iff, calcStartBit_prev h, calcBucket_eq h, within, decide_eq_true_iff,
    shift_eq_iff, Bool.and_eq_true, decide_eq_true_iff, decide_eq_true_iff]
  refine and_congr_left fun _ => or_iff_right_of_imp fun hpass => ?_
  rw [hfirst hpass, ← lead_bits (row i) selectMin]
  congr 1
  omega

theorem exists_bucket {hist : Nat → Nat} {items : List Nat}
    (hhist : hist = digitMass (rowKey row selectMin) (fun _ => 1) 8 (8 * r) a items)
    (h : Narrowed (rowKey row selectMin) (fun _ => 1) items (8 * r + 8) a k needed) :
    ∃ b < numBuckets, (∀ i, scan hist i < needed ∧ scan hist (i + 1) ≥ needed ↔ i = b) ∧
      a * 2 ^ (8 * r + 8) ||| (b <<< (8 * r)) = (a * 2 ^ 8 + b) * 2 ^ (8 * r) ∧
      Narrowed (rowKey row selectMin) (fun _ => 1) items (8 * r) (a * 2 ^ 8 + b) k
        (needed - scan hist b) ∧
      scan hist (b + 1) - scan hist b =
        massOf (fun _ => 1) items (within (rowKey row selectMin) (8 * r) (a * 2 ^ 8 + b)) := by
  have hscan : ∀ n, scan hist n =
      massBelow (rowKey row selectMin) (fun _ => 1) 8 (8 * r) a items n := fun n => by
    rw [scan, hhist, sum_digitMass]
  obtain ⟨b, hb, hiff⟩ := h.exists_digit fun _ _ => Nat.zero_le _
  obtain ⟨hlt, hle⟩ := (hiff b).mpr rfl
  simp only [hscan]
  refine ⟨b, hb, hiff, or_shiftLeft hb, h.next hb hlt hle (Nat.add_sub_cancel' hlt.le), ?_⟩
  rw [massBelow_succ, massOf_within hb, Nat.add_sub_cancel_left]

/-! ### What is selected -/

/-- What the kernels are for. The smallest of the twiddled keys are those of the largest, or the
smallest, numbers. -/
structure SelectsTop (row : Nat → BitVec d.bits) (selectMin : Bool) (len k : Nat)
    (out result : Nat → Nat) : Prop where
  nodup : ((range (min k len)).map result).Nodup
  lt : ∀ j < min k len, result j < len
  bits : (((range (min k len)).map result).map fun i =>
      twiddle (row i) selectMin).insertionSort (· ≤ ·) =
    (((range len).map fun i => twiddle (row i) selectMin).insertionSort (· ≤ ·)).take (min k len)
  largest : selectMin = false →
    (((range (min k len)).map result).map fun i =>
        d.format.toRat (row i)).insertionSort (· ≥ ·) =
      (((range len).map fun i => d.format.toRat (row i)).insertionSort (· ≥ ·)).take (min k len)
  smallest : selectMin = true →
    (((range (min k len)).map result).map fun i =>
        d.format.toRat (row i)).insertionSort (· ≤ ·) =
      (((range len).map fun i => d.format.toRat (row i)).insertionSort (· ≤ ·)).take (min k len)
  unchanged : ∀ j, min k len ≤ j → result j = out j

theorem twiddle_false_le {x y : BitVec d.bits} (h : twiddle x false ≤ twiddle y false) :
    d.format.toRat y ≤ d.format.toRat x := by
  refine FloatFormat.toRat_le_of_twiddleIn_le ?_
  change (~~~twiddleIn x).toNat ≤ (~~~twiddleIn y).toNat at h
  rw [BitVec.toNat_not, BitVec.toNat_not] at h
  change (twiddleIn y : BitVec d.bits).toNat ≤ (twiddleIn x : BitVec d.bits).toNat
  omega

theorem SelectsTop.of_top {result : Nat → Nat}
    (h : Top (fun i => OrderDual.toDual (twiddle (row i) selectMin))
      ((range (min k len)).map result) (range len))
    (hother : ∀ j, min k len ≤ j → result j = out j) :
    SelectsTop row selectMin len k out result := by
  have hlen : ((range (min k len)).map result).length = min k len := by simp
  refine ⟨?_, fun j hj => ?_, ?_, ?_, ?_, hother⟩
  · obtain ⟨rest, hperm, -⟩ := h
    exact (nodup_append.mp (hperm.nodup_iff.mpr nodup_range)).1
  · obtain ⟨rest, hperm, -⟩ := h
    exact mem_range.mp (hperm.mem_iff.mp (mem_append_left _
      (mem_map_of_mem (mem_range.mpr hj))))
  · exact h.sorted_eq_take.trans (by rw [hlen]; rfl)
  · rintro rfl
    have htop : Top (fun i => d.format.toRat (row i)) _ _ :=
      h.mono fun i _ j _ hij => twiddle_false_le hij
    rw [htop.sorted_eq_take, hlen]
  · rintro rfl
    have htop : Top (fun i => OrderDual.toDual (d.format.toRat (row i))) _ _ :=
      h.mono fun i _ j _ hij => FloatFormat.toRat_le_of_twiddleIn_le hij
    exact htop.sorted_eq_take.trans (by rw [hlen]; rfl)

theorem SelectsTop.of_trivial {blockDim : Nat} (hpos : 0 < blockDim) (hle : len ≤ k) :
    SelectsTop row selectMin len k out
      (Stores.storeAll ((strideLoop blockDim 0 len).map fun i => (i, i)) out) := by
  refine .of_top ?_ fun j hj => storeAll_strideLoop_other hpos fun i _ hi => by omega
  have hmap : (range (0 + (len - 0))).map (Stores.storeAll
      ((strideLoop blockDim 0 len).map fun i => (i, i)) out) = _ ++ _ :=
    map_storeAll_strideLoop hpos (fun i _ => (Nat.zero_add i).symm) id out
  rw [Nat.zero_add, ← range_eq_range', map_id] at hmap
  rw [Nat.min_eq_right hle]
  exact ⟨[], by rw [append_nil]; exact .of_eq hmap, nofun⟩

theorem SelectsTop.of_filter (h : Narrowed (rowKey row selectMin) (fun _ => 1) (range len)
      (8 * r) a k needed) (hpass : pass + 1 + r = calcNumPasses d)
    (hlast : 8 * r = 0 ∨ needed = massOf (fun _ => 1) (range len)
      (within (rowKey row selectMin) (8 * r) a))
    (horder : order.Perm (range len)) (hlt : k < len) :
    SelectsTop row selectMin len k out
      (order.foldl (filterIndex row (a * 2 ^ (8 * r)) selectMin pass k needed)
        { out, outCnt := 0, outBackCnt := 0 }).out := by
  have hfilter : filterIndex row (a * 2 ^ (8 * r)) selectMin pass k needed =
      Placed.place (before (rowKey row selectMin) (8 * r) a)
        (within (rowKey row selectMin) (8 * r) a) k needed := by
    simp only [filterIndex, calcStartBit_eq hpass, shift_lt_iff, shift_eq_iff]
    rfl
  have hvalue : ∀ i ∈ range len, ∀ j ∈ range len,
      rowKey row selectMin i ≤ rowKey row selectMin j →
        OrderDual.toDual (rowKey row selectMin j) ≤ OrderDual.toDual (rowKey row selectMin i) :=
    fun _ _ _ _ hij => hij
  have hplaced := foldl_place_top h hvalue hlast horder out
  rw [← hfilter] at hplaced
  have hmin : min k len = k := Nat.min_eq_left hlt.le
  exact .of_top (hmin.symm ▸ hplaced.1) (hmin.symm ▸ hplaced.2)

theorem eq_zero_of_first {M : Type} [AddCommMonoid M] [LinearOrder M] {weight : Nat → M}
    {k needed : M}
    {items : List Nat} (h : Narrowed (rowKey row selectMin) weight items (8 * r + 8) a k needed)
    (hpass : pass + 1 + r = calcNumPasses d) (hfirst : pass = 0) : a = 0 := by
  obtain ⟨i, -, rfl⟩ := h.exists_within
  rw [← lead_bits (row i) selectMin]
  congr 1
  omega

/-! ### One block for a row -/

def Orders.Valid (len : Nat) (orders : Orders) : Prop :=
  (∀ pass, (orders.histogram pass).Perm (strideLoop blockSize 0 len)) ∧
    orders.filter.Perm (strideLoop blockSize 0 len)

theorem strideLoop_blockSize (len : Nat) : (strideLoop blockSize 0 len).Perm (range len) := by
  rw [range_eq_range']
  exact strideLoop_perm (by decide) 0 len

theorem chooseBucket_narrows {orders : Orders} (horders : orders.Valid len)
    (hpass : pass + 1 + r = calcNumPasses d) {counter counter' : Counter}
    (hcounter : chooseBucket d counter (histogramOf row selectMin counter.kthValueBits pass
      (orders.histogram pass)) counter.k pass = counter')
    (hkth : counter.kthValueBits = a * 2 ^ (8 * r + 8))
    (h : Narrowed (rowKey row selectMin) (fun _ => 1) (range len) (8 * r + 8) a k counter.k) :
    ∃ a', counter'.kthValueBits = a' * 2 ^ (8 * r) ∧
      counter'.len =
        massOf (fun _ => 1) (range len) (within (rowKey row selectMin) (8 * r) a') ∧
      Narrowed (rowKey row selectMin) (fun _ => 1) (range len) (8 * r) a' k counter'.k := by
  rw [hkth, histogramOf_eq hpass (eq_zero_of_first h hpass),
    digitMass_perm ((horders.1 _).trans (strideLoop_blockSize len))] at hcounter
  obtain ⟨b, hb, hiff, hor, hnext, hlen⟩ := exists_bucket rfl h
  rw [chooseBucket, foldl_only nodup_range (mem_range.mpr hb)
    fun i _ hi s => if_neg (mt (hiff i).mp hi), if_pos ((hiff b).mpr rfl), hkth,
    calcStartBit_eq hpass, hor] at hcounter
  subst hcounter
  exact ⟨_, rfl, hlen, hnext⟩

theorem singleBlockPasses_selects {orders : Orders} (horders : orders.Valid len) (hlt : k < len)
    (remaining : Nat) {counter : Counter} (hle : remaining + 1 ≤ calcNumPasses d)
    (hkth : counter.kthValueBits = a * 2 ^ (8 * remaining + 8))
    (h : Narrowed (rowKey row selectMin) (fun _ => 1) (range len) (8 * remaining + 8) a k
      counter.k) :
    SelectsTop row selectMin len k out
      (singleBlockPasses row selectMin k orders out (remaining + 1) counter) := by
  induction remaining generalizing counter a with
  | zero =>
    have hpass : calcNumPasses d - 1 + 1 + 0 = calcNumPasses d := by omega
    obtain ⟨a', hkth', -, hnext⟩ := chooseBucket_narrows horders hpass rfl hkth h
    rw [singleBlockPasses, if_pos (.inr rfl), lastFilter, hkth']
    exact .of_filter hnext hpass (.inl rfl) (horders.2.trans (strideLoop_blockSize len)) hlt
  | succ r ih =>
    have hpass : calcNumPasses d - (r + 1 + 1) + 1 + (r + 1) = calcNumPasses d := by omega
    obtain ⟨a', hkth', hlen, hnext⟩ := chooseBucket_narrows horders hpass rfl hkth h
    rw [singleBlockPasses]
    split_ifs with hlast
    · rw [lastFilter, hkth']
      refine .of_filter hnext hpass (.inr ?_) (horders.2.trans (strideLoop_blockSize len)) hlt
      rcases hlast with hall | hlast
      · rw [← hall, hlen]
      · omega
    · exact ih (by omega) hkth' hnext

theorem narrowed_row (hk : 0 < k) (hlt : k < len) :
    Narrowed (rowKey row selectMin) (fun _ => 1) (range len) (8 * calcNumPasses d) 0 k k :=
  narrowed_start (fun _ _ => bits_eq d ▸ BitVec.isLt _) hk (by simpa using hlt.le)

theorem SelectsTop.of_zero : SelectsTop row selectMin len 0 out out := by
  refine .of_top ?_ fun _ _ => rfl
  exact ⟨range len, .refl _, nofun⟩

theorem singleBlockKernel_selects {orders : Orders} (horders : orders.Valid len) :
    SelectsTop row selectMin len k out (singleBlockKernel row selectMin len k orders out) := by
  rw [singleBlockKernel]
  split_ifs with hzero hle
  · subst hzero
    exact .of_zero
  · exact .of_trivial (by decide) hle
  · have hpos : 0 < calcNumPasses d := by cases d <;> decide
    obtain ⟨n, hn⟩ := Nat.exists_eq_succ_of_ne_zero hpos.ne'
    have hrow : Narrowed (rowKey row selectMin) (fun _ => 1) (range len)
        (8 * calcNumPasses d) 0 k k := narrowed_row (by omega) (by omega)
    rw [hn] at hrow ⊢
    exact singleBlockPasses_selects horders (by omega) n (by omega) (Nat.zero_mul _).symm hrow

/-! ### Several blocks for a row -/

def BlockOrders.Valid (len blocksPerRow : Nat) (orders : BlockOrders) : Prop :=
  (∀ pass, ∀ block < blocksPerRow,
      (orders.localHist pass block).Perm (blockIndices len blocksPerRow block)) ∧
    (∀ pass bucket, (orders.flush pass bucket).Perm (range blocksPerRow)) ∧
    orders.filter.Perm ((range blocksPerRow).flatMap (blockIndices len blocksPerRow))

variable {blocksPerRow : Nat} {orders : BlockOrders} {ws : RowWorkspace}

theorem blockIndices_perm (hpos : 0 < blocksPerRow) :
    ((range blocksPerRow).flatMap (blockIndices len blocksPerRow)).Perm (range len) := by
  have hcover : len ≤ blocksPerRow * ((len + blocksPerRow - 1) / blocksPerRow) := by
    have hround := Nat.lt_div_mul_add hpos (a := len + blocksPerRow - 1)
    rw [Nat.mul_comm]
    omega
  have hslices := flatMap_slices ((len + blocksPerRow - 1) / blocksPerRow) len blocksPerRow
  rw [Nat.min_eq_right hcover] at hslices
  rw [← hslices]
  exact Perm.flatMap_left _ fun block _ => strideLoop_perm (by decide) _ _

theorem foldl_flush (f : Nat → Nat) (blocks : List Nat) (sum : Nat) :
    blocks.foldl (fun sum block => if f block > 0 then sum + f block else sum) sum =
      sum + (blocks.map f).sum := by
  induction blocks generalizing sum with
  | nil => rfl
  | cons block blocks ih =>
    rw [foldl_cons, ih, map_cons, sum_cons]
    split_ifs <;> omega

/-- After some passes: the histogram is empty again, and the leading bits are those of the last key
that is taken. -/
structure Passed (row : Nat → BitVec d.bits) (selectMin : Bool) (len k r : Nat)
    (ws : RowWorkspace) : Prop where
  histogram : ws.histogram = fun _ => 0
  narrowed : ∃ a, ws.kthBits = a * 2 ^ (8 * r) ∧
    Narrowed (rowKey row selectMin) (fun _ => 1) (range len) (8 * r) a k ws.remainingK

theorem multiBlockHistogramKernel_eq (hpos : 0 < blocksPerRow)
    (horders : orders.Valid len blocksPerRow) (hpass : pass + 1 + r = calcNumPasses d)
    (hfirst : pass = 0 → a = 0) (hzero : ws.histogram = fun _ => 0)
    (hkth : ws.kthBits = a * 2 ^ (8 * r + 8)) :
    (multiBlockHistogramKernel row selectMin orders pass ws).histogram =
      digitMass (rowKey row selectMin) (fun _ => 1) 8 (8 * r) a (range len) := by
  have hlocal : ∀ block < blocksPerRow, ∀ i, histogramOf row selectMin ws.kthBits pass
      (orders.localHist pass block) i = digitMass (rowKey row selectMin) (fun _ => 1) 8 (8 * r) a
        (blockIndices len blocksPerRow block) i := fun block hblock i => by
    rw [hkth, histogramOf_eq hpass hfirst, digitMass_perm (horders.1 pass block hblock)]
  funext i
  rw [multiBlockHistogramKernel]
  dsimp only
  split_ifs with hi
  · rw [hzero, foldl_flush, Nat.zero_add, ((horders.2.1 pass i).map _).sum_eq,
      map_congr_left fun block hblock => hlocal block (mem_range.mp hblock) i,
      ← digitMass_perm (blockIndices_perm hpos)]
    simp only [digitMass, massOf_flatMap]
  · rw [hzero, digitMass, eq_comm, massOf_one, countP_eq_zero]
    intro j _ hj
    have hdigit := digit_lt 8 (8 * r) (twiddle (row j) selectMin)
    have hdigit' := of_decide_eq_true (Bool.and_eq_true_iff.mp hj).2
    exact hi (hdigit' ▸ hdigit)

theorem multiBlockChooseBucketKernel_eq (hb : b < numBuckets)
    (hiff : ∀ i, scan ws.histogram i < ws.remainingK ∧
      scan ws.histogram (i + 1) ≥ ws.remainingK ↔ i = b) :
    multiBlockChooseBucketKernel d pass ws =
      { histogram := fun i => if i < numBuckets then 0 else ws.histogram i
        remainingK := ws.remainingK - scan ws.histogram b
        kthBits := ws.kthBits ||| (b <<< calcStartBit d pass) } := by
  rw [multiBlockChooseBucketKernel, foldl_only nodup_range (mem_range.mpr hb)
    fun i _ hi s => if_neg (mt (hiff i).mp hi), if_pos ((hiff b).mpr rfl)]

theorem Passed.next (h : Passed row selectMin len k (r + 1) ws) (hpos : 0 < blocksPerRow)
    (horders : orders.Valid len blocksPerRow) (hpass : pass + 1 + r = calcNumPasses d) :
    Passed row selectMin len k r (multiBlockChooseBucketKernel d pass
      (multiBlockHistogramKernel row selectMin orders pass ws)) := by
  obtain ⟨hzero, a, hkth, hnarrowed⟩ := h
  have hhist : (multiBlockHistogramKernel row selectMin orders pass ws).histogram = _ :=
    multiBlockHistogramKernel_eq hpos horders hpass (eq_zero_of_first hnarrowed hpass) hzero hkth
  obtain ⟨b, hb, hiff, hor, hnext, -⟩ := exists_bucket hhist hnarrowed
  rw [multiBlockChooseBucketKernel_eq hb hiff]
  refine ⟨funext fun i => ?_, a * 2 ^ 8 + b, ?_, hnext⟩
  · dsimp only
    split_ifs with hi
    · rfl
    · rw [multiBlockHistogramKernel]
      dsimp only
      rw [if_neg hi, hzero]
  · rw [← hor, calcStartBit_eq hpass]
    exact congrArg (· ||| b <<< (8 * r)) hkth

theorem Passed.filter (h : Passed row selectMin len k 0 ws)
    (horder : orders.filter.Perm (range len)) (hlt : k < len) (hk : k ≠ 0) :
    SelectsTop row selectMin len k out (multiBlockFilterKernel row selectMin len k
      (calcNumPasses d - 1) ws orders.filter out) := by
  obtain ⟨-, a, hkth, hnarrowed⟩ := h
  rw [multiBlockFilterKernel, if_neg (by omega), hkth]
  have hpass : calcNumPasses d - 1 + 1 + 0 = calcNumPasses d := by cases d <;> rfl
  exact .of_filter hnarrowed hpass (.inl rfl) horder hlt

theorem launchMultiBlock_selects (hpos : 0 < blocksPerRow)
    (horders : orders.Valid len blocksPerRow) :
    SelectsTop row selectMin len k out (launchMultiBlock row selectMin len k orders out) := by
  have horder := horders.2.2.trans (blockIndices_perm hpos)
  rw [launchMultiBlock]
  by_cases htrivial : k = 0 ∨ len ≤ k
  · rw [multiBlockFilterKernel, handleTrivialKernel]
    split_ifs with hk
    · obtain rfl : k = 0 := by omega
      exact .of_zero
    · exact .of_trivial (by decide) (by omega)
  · rw [handleTrivialKernel, if_pos (by omega)]
    have hpasses : ∀ n r, n + r = calcNumPasses d → Passed row selectMin len k r
        ((range n).foldl (fun ws pass => multiBlockChooseBucketKernel d pass
          (multiBlockHistogramKernel row selectMin orders pass ws))
          { histogram := fun _ => 0, kthBits := 0, remainingK := k }) := by
      intro n
      induction n with
      | zero =>
        intro r hr
        obtain rfl : r = calcNumPasses d := by omega
        exact ⟨rfl, 0, (Nat.zero_mul _).symm, narrowed_row (by omega) (by omega)⟩
      | succ n ih =>
        intro r hr
        rw [range_succ, foldl_append]
        exact (ih (r + 1) (by omega)).next hpos horders hr
    exact (hpasses _ 0 rfl).filter horder (by omega) (by omega)

end keys

/-! ### The launch -/

theorem Cell.offset_le {batchSize : Nat} {c : Cell} (h : c.Used batchSize) (maxK : Nat) :
    c.offset batchSize + 4 ≤ getBufferSize batchSize maxK := by
  refine Nat.le_trans ?_ (Nat.le_max_right ..)
  cases c <;> simp only [Used, offset, numBuckets, bitsPerPass] at h ⊢ <;> omega

theorem Cell.offset_inj {batchSize : Nat} {c c' : Cell} (h : c.Used batchSize)
    (h' : c'.Used batchSize) (hne : c ≠ c') :
    c.offset batchSize + 4 ≤ c'.offset batchSize ∨
      c'.offset batchSize + 4 ≤ c.offset batchSize := by
  cases c <;> cases c' <;>
    simp only [Used, offset, numBuckets, bitsPerPass, ne_eq, histogram.injEq,
      kthBits.injEq, remainingKs.injEq, outCnts.injEq, outBackCnts.injEq] at h h' hne ⊢ <;> omega

theorem topk_selects {d : Dtype} (metric : Nat → Nat → BitVec d.bits) (topks validLens : Nat → Nat)
    (batchSize maxLen maxK : Nat) (selectMin : Bool) (forcePath : Int) (orders : Nat → Orders)
    (blockOrders : Nat → BlockOrders) (outIdxs : Nat → Nat → Nat)
    (horders : ∀ b < batchSize, (orders b).Valid (validLens b))
    (hblocks : ∀ b < batchSize, (blockOrders b).Valid (validLens b) (multiblockRows maxLen)) :
    (∀ b < batchSize, SelectsTop (metric b) selectMin (validLens b) (topks b) (outIdxs b)
      (launchBatchTopk metric topks validLens batchSize maxLen selectMin forcePath
        orders blockOrders
        outIdxs b)) ∧
    (∀ (x : BitVec d.bits) (pass : Nat), pass < calcNumPasses d →
      calcBucket x (calcStartBit d pass) (calcMask d pass) selectMin < numBuckets) ∧
    (∀ b < batchSize, rowBuf maxK (b + 1) ≤ getBufferSize batchSize maxK) ∧
    (∀ c : Cell, c.Used batchSize → c.offset batchSize + 4 ≤ getBufferSize batchSize maxK) ∧
    ∀ c c' : Cell, c.Used batchSize → c'.Used batchSize → c ≠ c' →
      c.offset batchSize + 4 ≤ c'.offset batchSize ∨
        c'.offset batchSize + 4 ≤ c.offset batchSize := by
  refine ⟨fun b hb => ?_, fun x pass hpass => ?_, fun b hb => ?_,
    fun c hc => Cell.offset_le hc maxK,
    fun c c' => Cell.offset_inj⟩
  · have hpos : 0 < multiblockRows maxLen := by
      rw [multiblockRows]
      omega
    rw [launchBatchTopk]
    dsimp only
    split_ifs
    · exact launchMultiBlock_selects hpos (hblocks b hb)
    · exact singleBlockKernel_selects (horders b hb)
    · exact launchMultiBlock_selects hpos (hblocks b hb)
    · exact singleBlockKernel_selects (horders b hb)
  · obtain ⟨r, hr⟩ := Nat.exists_eq_add_of_lt hpass
    rw [calcBucket_eq (r := r) (by omega)]
    exact digit_lt 8 _ _
  · refine Nat.le_trans ?_ (Nat.le_max_left ..)
    exact Nat.mul_le_mul_right _ (Nat.mul_le_mul_right _ hb)

def smallMetric (_ i : Nat) : BitVec Dtype.half.bits :=
  ([0x3C00, 0x4200, 0x4000] : List (BitVec 16)).getD i 0

def inOrder (len : Nat) : Orders :=
  { histogram := fun _ => strideLoop blockSize 0 len, filter := strideLoop blockSize 0 len }

def blocksInOrder (len blocksPerRow : Nat) : BlockOrders where
  localHist _ := blockIndices len blocksPerRow
  flush _ _ := range blocksPerRow
  filter := (range blocksPerRow).flatMap (blockIndices len blocksPerRow)

theorem inOrder_valid (len : Nat) : (inOrder len).Valid len := by
  simp only [Orders.Valid, inOrder, Perm.refl, implies_true, and_self]

theorem blocksInOrder_valid (len blocksPerRow : Nat) :
    (blocksInOrder len blocksPerRow).Valid len blocksPerRow := by
  simp only [BlockOrders.Valid, blocksInOrder, Perm.refl, implies_true, and_self]

theorem topk_selects_two : (((range 2).map (launchBatchTopk smallMetric (fun _ => 2)
      (fun _ => 3) 1 3 false 0 (fun _ => inOrder 3) (fun _ => blocksInOrder 3 (multiblockRows 3))
      (fun _ _ => 0) 0)).map fun i =>
        Dtype.half.format.toRat (smallMetric 0 i)).insertionSort (· ≥ ·) = [3, 2] := by
  have hselects := (topk_selects smallMetric (fun _ => 2) (fun _ => 3) 1 3 2 false 0
    (fun _ => inOrder 3) (fun _ => blocksInOrder 3 (multiblockRows 3)) (fun _ _ => 0)
    (fun _ _ => inOrder_valid 3) (fun _ _ => blocksInOrder_valid 3 _)).1 0 Nat.one_pos
  have hsorted : (((range 3).map fun i =>
      Dtype.half.format.toRat (smallMetric 0 i)).insertionSort (· ≥ ·)).take 2 = [3, 2] := by
    decide +kernel
  exact (hselects.largest rfl).trans hsorted

end LongCtxSpecDecode.VarlenTopk
