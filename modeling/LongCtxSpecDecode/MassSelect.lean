import LongCtxSpecDecode.Library.FloatRounding
import LongCtxSpecDecode.VarlenTopk

/-!
# Selection by mass

`longspec/kernels/mass_select.py`: one block selects the candidates of a row by their attention
mass, and writes their indices and the reserved ones. The rounding of the masses is a parameter, and
the order in which the atomic operations of the threads take effect is given.
-/

namespace LongCtxSpecDecode.MassSelect

open Library Library.RadixSelect VarlenTopk List

/-- The arithmetic of the masses: how each result is rounded, and whether the compiler fuses the
product of `need` with its difference. -/
structure Arith where
  round : ℚ → ℚ
  fused : Bool

abbrev Arith.exact : Arith := ⟨id, false⟩

abbrev Arith.single (fused : Bool) : Arith := ⟨round32, fused⟩

/-- The product in `theta * total - reserved`. -/
def Arith.mul (A : Arith) (x y : ℚ) : ℚ := if A.fused then x * y else A.round (x * y)

@[simp] theorem Arith.mul_exact (x y : ℚ) : Arith.exact.mul x y = x * y := rfl

/-- `State`, without the counters of `compact`. -/
structure State where
  kthBits : Nat
  startBit : Nat
  kStar : Nat
  k : Nat
  numKthNeeded : Nat
  countBefore : Nat
  need : ℚ
  selectAll : Bool
  done : Bool

/-- The orders of the atomic operations: on the counts and the masses in each pass of the mass path,
on the counts in each pass of the count path, and of `compact`. -/
structure Orders where
  cnt : Nat → List Nat
  mass : Nat → List Nat
  recount : Nat → List Nat
  compact : List Nat

section kernel

variable (A : Arith) (d : Dtype)

def startBitOf (pass : Int) : Nat := calcStartBit d pass

variable {d}

/-- `to_float(value)`. -/
def toFloat (value : BitVec d.bits) : ℚ := d.format.toRat value

def untwiddle (d : Dtype) (bits : Nat) : ℚ :=
  toFloat (twiddleOut (~~~BitVec.ofNat d.bits bits) : BitVec d.bits)

variable (row : Nat → BitVec d.bits)

abbrev rowMass (i : Nat) : ℚ := toFloat (row i)

/-- `histogram`: the counts, or with the masses as weights `mass`. -/
def histogram {M : Type} [Zero M] (add : M → M → M) (weight : Nat → M) (kthBits pass : Nat)
    (order : List Nat) : Nat → M :=
  let prevStart := startBitOf d (pass - 1)
  order.foldl
    (tally add
      (fun i => ¬(pass > 0 ∧ (twiddle (row i) false >>> prevStart) <<< prevStart ≠ kthBits))
      (fun i => (twiddle (row i) false >>> startBitOf d pass) &&& (numBuckets - 1)) weight)
    fun _ => 0

/-- The loop of `choose_by_mass`: the chosen bucket with `cum` and `before`. -/
def massScan (cnt : Nat → Nat) (mass : Nat → ℚ) (need : ℚ) :
    List Nat → ℚ → Nat → Option (Nat × ℚ × Nat)
  | [], _, _ => none
  | b :: bs, cum, before =>
    if cnt b = 0 then massScan cnt mass need bs cum before
    else if A.round (cum + mass b) ≥ need then some (b, cum, before)
    else massScan cnt mass need bs (A.round (cum + mass b)) (before + cnt b)

/-- `choose_by_mass`: the bucket in which the mass crosses `need`, or all that is left. -/
def chooseByMass (d : Dtype) (st : State) (cnt : Nat → Nat) (mass : Nat → ℚ) (pass : Nat) :
    State :=
  match massScan A cnt mass st.need (range numBuckets) 0 0 with
  | none =>
    if pass = 0 then { st with selectAll := true, done := true }
    else
      { st with
        numKthNeeded := scan cnt numBuckets
        kStar := st.countBefore + scan cnt numBuckets
        startBit := startBitOf d (pass - 1)
        done := true }
  | some (chosen, cum, before) =>
    let st := { st with
      kthBits := st.kthBits ||| (chosen <<< startBitOf d pass)
      countBefore := st.countBefore + before
      need := A.round (st.need - cum) }
    if pass = calcNumPasses d - 1 then
      let v := untwiddle d st.kthBits
      let ties : Int := cnt chosen
      let j := if v > 0 then ⌈A.round (st.need / v)⌉ else ties
      let j := if j < 1 then 1 else if j > ties then ties else j
      { st with
        numKthNeeded := j.toNat
        kStar := st.countBefore + j.toNat
        startBit := startBitOf d pass
        done := true }
    else st

/-- The loop of `choose_by_count`: the bucket with `before`. -/
def countScan (cnt : Nat → Nat) (remaining : Nat) : List Nat → Nat → Option (Nat × Nat)
  | [], _ => none
  | b :: bs, before =>
    if before < remaining ∧ before + cnt b ≥ remaining then some (b, before)
    else countScan cnt remaining bs (before + cnt b)

/-- `choose_by_count`: the state and `remaining`. -/
def chooseByCount (d : Dtype) (st : State) (cnt : Nat → Nat) (pass remaining : Nat) :
    State × Nat :=
  match countScan cnt remaining (range numBuckets) 0 with
  | none => (st, remaining)
  | some (b, before) =>
    ({ st with
        kthBits := st.kthBits ||| (b <<< startBitOf d pass)
        countBefore := st.countBefore + before
        numKthNeeded := remaining - before
        startBit := startBitOf d pass
        done := st.done || decide (cnt b = remaining - before ∨ pass = calcNumPasses d - 1) },
      remaining - before)

variable (orders : Orders)

/-- The loop of the mass path, for its last passes. -/
def massPasses : Nat → State → State
  | 0, st => st
  | remaining + 1, st =>
    if st.done then st
    else
      let pass := calcNumPasses d - (remaining + 1)
      massPasses remaining (chooseByMass A d st
        (histogram row (· + ·) (fun _ => 1) st.kthBits pass (orders.cnt pass))
        (histogram row (fun x y => A.round (x + y)) (rowMass row) st.kthBits pass
          (orders.mass pass)) pass)

/-- The loop of the count path, for its last passes. -/
def countPasses : Nat → State × Nat → State
  | 0, (st, _) => st
  | remaining + 1, (st, left) =>
    if st.done then st
    else
      let pass := calcNumPasses d - (remaining + 1)
      countPasses remaining (chooseByCount d st
        (histogram row (· + ·) (fun _ => 1) st.kthBits pass (orders.recount pass)) pass left)

/-- `compact`: the keys before the threshold from the front, the ties at it from the back. -/
def compact (st : State) (order : List Nat) (out : Nat → Nat) : Nat → Nat :=
  (order.foldl
    (Placed.place
      (fun i => (twiddle (row i) false >>> st.startBit) <<< st.startBit < st.kthBits)
      (fun i => (twiddle (row i) false >>> st.startBit) <<< st.startBit = st.kthBits)
      st.k st.numKthNeeded)
    { out, outCnt := 0, outBackCnt := 0 }).out

/-- The count after the clamps. -/
def clampCount (kStar nCand : Nat) (kMin kMax room : Int) : Nat :=
  (min (min (min (max (kStar : Int) kMin) kMax) nCand) room).toNat

variable (kMin kMax : Int) (width : Nat) (theta : ℚ)

/-- `warp_sum` for lane 0. A lane without a partner adds its own value. -/
def warpSum (v : Nat → ℚ) : ℚ :=
  ([16, 8, 4, 2, 1].foldl
    (fun v o lane => A.round (v lane + v (if lane + o < 32 then lane + o else lane))) v) 0

def numWarps : Nat := blockSize / 32

def blockSum (v : Nat → ℚ) : ℚ :=
  warpSum A fun lane => if lane < numWarps then warpSum A fun l => v (32 * lane + l) else 0

/-- `tot`, or with the reserved positions `res`, of a thread. -/
def threadSum (counted : Nat → Bool) (n thread : Nat) : ℚ :=
  ((strided blockSize thread (range n)).filter counted).foldl
    (fun sum i => A.round (sum + rowMass row i)) 0

/-- `total`. -/
def blockTotal (n : Nat) : ℚ := blockSum A (threadSum A row (fun _ => true) n)

/-- `reserved`. -/
def blockReserved (n c0 c1 : Nat) : ℚ :=
  blockSum A (threadSum A row (fun i => i < c0 ∨ i ≥ c1) n)

/-- The state before the mass path. -/
def startState (nCand : Nat) (total reserved : ℚ) : State :=
  let need := A.round (A.mul theta total - reserved)
  let early := decide (nCand = 0 ∨ total ≤ 0 ∨ need ≤ 0)
  { kthBits := 0, startBit := 0, kStar := 0, k := 0, numKthNeeded := 0, countBefore := 0, need
    selectAll := !early && decide (theta ≥ 1)
    done := early || decide (theta ≥ 1) }

/-- The state after both paths: the clamp starts the count path if it moves the count. -/
def finalState (nCand : Nat) (room : Int) (st : State) : State :=
  let kStar := if st.selectAll then nCand else st.kStar
  let k := clampCount kStar nCand kMin kMax room
  if k = kStar then { st with kStar, k, done := true }
  else
    countPasses row orders (calcNumPasses d)
      ({ st with kStar, k, done := false, kthBits := 0, countBefore := 0, numKthNeeded := 0,
                 selectAll := false }, k)

def sEff (n sink : Nat) : Nat := min sink n

def rEff (n sink recent : Nat) : Nat := min recent (n - sEff n sink)

/-- `SelectKernel` for a row with a prefix of `n` tokens: the table row and `used`. -/
def selectRow (n sink recent : Nat) (out : Nat → Nat) : (Nat → Nat) × Nat :=
  let c0 := sEff n sink
  let c1 := n - rEff n sink recent
  let nCand := c1 - c0
  let st := finalState row orders kMin kMax nCand ((width : Int) - c0 - rEff n sink recent)
    (massPasses A row orders (calcNumPasses d)
      (startState A theta nCand (blockTotal A row n) (blockReserved A row n c0 c1)))
  let out :=
    if st.k > 0 then
      if st.selectAll ∧ st.k = nCand then
        Stores.storeAll ((strideLoop blockSize c0 c1).map fun i => (i - c0, i)) out
      else compact row st orders.compact out
    else out
  let out := Stores.storeAll ((strideLoop blockSize 0 c0).map fun i => (st.k + i, i)) out
  let out := Stores.storeAll
    ((strideLoop blockSize 0 (rEff n sink recent)).map fun i => (st.k + c0 + i, c1 + i)) out
  (out, st.k + c0 + rEff n sink recent)

/-- `SelectKernel`. -/
def selectKernel (validLen : Int) (sink recent : Nat) (out : Nat → Nat) : (Nat → Nat) × Nat :=
  if validLen ≤ 0 then (out, 0)
  else selectRow A row orders kMin kMax width theta validLen.toNat sink recent out

end kernel

section passes

variable {d : Dtype} {row : Nat → BitVec d.bits} {pass r a b : Nat} {items order : List Nat}
  {cnt : Nat → Nat} {mass : Nat → ℚ} {need : ℚ}

theorem histogram_eq {M : Type} [AddCommMonoid M] (weight : Nat → M)
    (h : pass + 1 + r = calcNumPasses d) (hfirst : pass = 0 → a = 0) :
    histogram row (· + ·) weight (a * 2 ^ (8 * r + 8)) pass order =
      digitMass (rowKey row false) weight 8 (8 * r) a order := by
  funext b
  rw [histogram, foldl_tally, zero_add]
  refine massOf_congr fun i _ => ?_
  have hmask : numBuckets - 1 = 2 ^ 8 - 1 := rfl
  rw [Bool.eq_iff_iff, startBitOf, calcStartBit_prev h, startBitOf, calcStartBit_eq h, hmask,
    Nat.and_two_pow_sub_one_eq_mod, Nat.shiftRight_eq_div_pow _ (8 * r), within, decide_eq_true_iff,
    ne_eq, shift_eq_iff, Bool.and_eq_true, decide_eq_true_iff, decide_eq_true_iff, not_and, not_not]
  refine and_congr_left fun _ => ⟨fun hlead => ?_, fun hlead _ => hlead⟩
  rcases Nat.eq_zero_or_pos pass with hpass | hpass
  · rw [hfirst hpass, ← lead_bits (row i) false]
    congr 1
    omega
  · exact hlead hpass

theorem massScan_eq {W : Nat → ℚ} {C : Nat → Nat} (hW : ∀ j, W (j + 1) = W j + mass j)
    (hC : ∀ j, C (j + 1) = C j + cnt j) (hempty : ∀ j, cnt j = 0 → mass j = 0)
    (hiff : ∀ i, W i < need ∧ need ≤ W (i + 1) ↔ i = b) (n j : Nat) (hj : j ≤ b) (hb : b < j + n)
    (hlt : W j < need) :
    massScan .exact cnt mass need (range' j n) (W j) (C j) = some (b, W b, C b) := by
  induction n generalizing j with
  | zero => omega
  | succ n ih =>
    have hnext := ih (j + 1)
    have hj' := hiff j
    rw [hW] at hnext hj'
    rw [hC] at hnext
    rw [range'_succ, massScan]
    split_ifs with hzero hcross
    · rw [hempty j hzero, add_zero] at hnext hj'
      rw [hzero] at hnext
      have hne : j ≠ b := fun h => absurd (hj'.mpr h).2 hlt.not_ge
      exact hnext (by omega) (by omega) hlt
    · obtain rfl := hj'.mp ⟨hlt, hcross⟩
      rfl
    · have hne : j ≠ b := fun h => hcross (hj'.mpr h).2
      exact hnext (by omega) (by omega) (not_le.mp hcross)

theorem countScan_eq {C : Nat → Nat} {remaining : Nat} (hC : ∀ j, C (j + 1) = C j + cnt j)
    (hiff : ∀ i, C i < remaining ∧ remaining ≤ C (i + 1) ↔ i = b) (n j : Nat) (hj : j ≤ b)
    (hb : b < j + n) : countScan cnt remaining (range' j n) (C j) = some (b, C b) := by
  induction n generalizing j with
  | zero => omega
  | succ n ih =>
    grind [range'_succ, countScan]

/-- Some passes of the mass path are done, `r` are left. -/
structure MassPassed (row : Nat → BitVec d.bits) (items : List Nat) (need : ℚ) (r : Nat)
    (st : State) : Prop where
  done : st.done = false
  selectAll : st.selectAll = false
  narrowed : ∃ a, st.kthBits = a * 2 ^ (8 * r) ∧
    st.countBefore = items.countP (before (rowKey row false) (8 * r) a) ∧
    Narrowed (rowKey row false) (rowMass row) items (8 * r) a need st.need

theorem untwiddle_twiddle (x : BitVec d.bits) : untwiddle d (twiddle x false) = toFloat x := by
  have hout : twiddleOut (twiddleIn x) = x := twiddleOut_twiddleIn x
  change toFloat (twiddleOut (~~~BitVec.ofNat d.bits (~~~twiddleIn x).toNat)) = _
  rw [BitVec.ofNat_toNat, BitVec.setWidth_eq, BitVec.not_not, hout]

variable {st : State} {left : Nat}

theorem MassPassed.scan {cntOrder massOrder : List Nat} (h : MassPassed row items need (r + 1) st)
    (hpass : pass + 1 + r = calcNumPasses d) (hnonneg : ∀ i ∈ items, 0 ≤ rowMass row i)
    (hcnt : cntOrder.Perm items) (hmass : massOrder.Perm items) :
    ∃ a b cum before', massScan .exact
        (histogram row (· + ·) (fun _ => 1) st.kthBits pass cntOrder)
        (histogram row (· + ·) (rowMass row) st.kthBits pass massOrder) st.need (range numBuckets)
        0 0 = some (b, cum, before') ∧
      st.kthBits ||| (b <<< startBitOf d pass) = a * 2 ^ (8 * r) ∧
      st.countBefore + before' = items.countP (before (rowKey row false) (8 * r) a) ∧
      Narrowed (rowKey row false) (rowMass row) items (8 * r) a need (st.need - cum) ∧
      histogram row (· + ·) (fun _ => 1) st.kthBits pass cntOrder b =
        items.countP (within (rowKey row false) (8 * r) a) := by
  obtain ⟨-, -, a, hkth, hcount, hnarrowed⟩ := h
  have hfirst := eq_zero_of_first hnarrowed hpass
  have hshift : 8 * (r + 1) = 8 * r + 8 := rfl
  rw [hkth, hshift, histogram_eq _ hpass hfirst, histogram_eq _ hpass hfirst, digitMass_perm hcnt,
    digitMass_perm hmass]
  obtain ⟨b, hb, hiff⟩ := hnarrowed.exists_digit hnonneg
  obtain ⟨hlt, hle⟩ := (hiff b).mpr rfl
  have hzero : massBelow (rowKey row false) (rowMass row) 8 (8 * r) a items 0 < st.need := by
    rw [massBelow_zero]
    exact hnarrowed.pos
  have hscan := massScan_eq (fun _ => massBelow_succ) (fun _ => massBelow_succ)
    (fun _ => massOf_eq_zero) hiff numBuckets 0 (Nat.zero_le _)
    (by rw [Nat.zero_add]; exact hb) hzero
  rw [massBelow_zero, massBelow_zero, ← range_eq_range'] at hscan
  refine ⟨a * 2 ^ 8 + b, b, _, _, hscan, ?_, ?_, hnarrowed.next hb hlt hle (add_sub_cancel _ _),
    (massOf_within hb).symm.trans massOf_one⟩
  · rw [startBitOf, calcStartBit_eq hpass]
    exact or_shiftLeft hb
  · rw [← massOf_one, massOf_before hb, hcount, massOf_one]
    rfl

/-- The mass of the `k` largest items. -/
def topMass (row : Nat → BitVec d.bits) (items : List Nat) (k : Nat) : ℚ :=
  (((items.map (rowMass row)).insertionSort (· ≥ ·)).take k).sum

theorem topMass_mono (hnonneg : ∀ i ∈ items, 0 ≤ rowMass row i) {k k' : Nat} (h : k ≤ k') :
    topMass row items k ≤ topMass row items k' := by
  refine Sublist.sum_le_sum (take_sublist_take_left h) fun x hx => ?_
  exact forall_mem_map.mpr hnonneg x ((mem_insertionSort _).mp (mem_of_mem_take hx))

theorem rowMass_le (i : Nat) (_ : i ∈ items) (j : Nat) (_ : j ∈ items)
    (h : rowKey row false i ≤ rowKey row false j) : rowMass row j ≤ rowMass row i :=
  twiddle_false_le h

theorem rowMass_of_within {i : Nat} (hi : i ∈ items.filter (within (rowKey row false) 0 a)) :
    rowMass row i = untwiddle d a := by
  have hkey := of_decide_eq_true (mem_filter.mp hi).2
  rw [lead_zero] at hkey
  rw [← hkey]
  exact (untwiddle_twiddle (row i)).symm

theorem topMass_ties {ties : Nat}
    (hties : ties ≤ items.countP (within (rowKey row false) 0 a)) :
    topMass row items (items.countP (before (rowKey row false) 0 a) + ties) =
      massOf (rowMass row) items (before (rowKey row false) 0 a) + ties * untwiddle d a := by
  have htop : Top (rowMass row) (items.filter (before (rowKey row false) 0 a) ++
      (items.filter (within (rowKey row false) 0 a)).take ties) items :=
    top_take rowMass_le (.inl rfl)
  rw [countP_eq_length_filter] at hties
  have hlen : (items.filter (before (rowKey row false) 0 a) ++
      (items.filter (within (rowKey row false) 0 a)).take ties).length =
      items.countP (before (rowKey row false) 0 a) + ties := by
    rw [length_append, length_take, Nat.min_eq_left hties, countP_eq_length_filter]
  have hmass : ∀ x ∈ ((items.filter (within (rowKey row false) 0 a)).take ties).map (rowMass row),
      x = untwiddle d a :=
    forall_mem_map.mpr fun i hi => rowMass_of_within (mem_of_mem_take hi)
  rw [topMass, ← hlen, ← htop.sorted_eq_take, (perm_insertionSort ..).sum_eq, map_append,
    sum_append, sum_eq_card_nsmul _ _ hmass, length_map, length_take, Nat.min_eq_left hties]
  rfl

theorem massOf_ties : massOf (rowMass row) items (within (rowKey row false) 0 a) =
    items.countP (within (rowKey row false) 0 a) * untwiddle d a := by
  rw [countP_eq_length_filter, massOf,
    sum_eq_card_nsmul _ (untwiddle d a) (forall_mem_map.mpr fun _ => rowMass_of_within), length_map,
    nsmul_eq_mul]

theorem isLeast_ties {need' : ℚ} {ties : Int} {j : Int} (hnonneg : ∀ i ∈ items, 0 ≤ rowMass row i)
    (h : Narrowed (rowKey row false) (rowMass row) items 0 a need need')
    (hties : ties = items.countP (within (rowKey row false) 0 a))
    (hj : j = if untwiddle d a > 0 then ⌈need' / untwiddle d a⌉ else ties) :
    1 ≤ j ∧ j ≤ ties ∧ IsLeast {k | need ≤ topMass row items k}
      (items.countP (before (rowKey row false) 0 a) + j.toNat) := by
  have hle := h.le
  rw [massOf_ties] at hle
  have hv : 0 < untwiddle d a := by
    by_contra hneg
    exact absurd (h.pos.trans_le hle)
      (mul_nonpos_of_nonneg_of_nonpos (Nat.cast_nonneg _) (not_lt.mp hneg)).not_gt
  rw [if_pos hv] at hj
  have hone : 1 ≤ j := hj ▸ Int.one_le_ceil_iff.mpr (div_pos h.pos hv)
  have hmax : j ≤ ties := by
    rw [hj, Int.ceil_le, div_le_iff₀ hv, hties]
    exact_mod_cast hle
  obtain ⟨n, rfl⟩ : ∃ n : Nat, j = n + 1 := ⟨(j - 1).toNat, by omega⟩
  have hreach : need' ≤ (n + 1 : Nat) * untwiddle d a := by
    rw [← div_le_iff₀ hv]
    exact_mod_cast hj ▸ Int.le_ceil (need' / untwiddle d a)
  have hbelow : n * untwiddle d a < need' := by
    rw [← lt_div_iff₀ hv]
    have hlt : (n : Int) < ⌈need' / untwiddle d a⌉ := by omega
    exact_mod_cast Int.lt_ceil.mp hlt
  have hmass := h.mass
  refine ⟨hone, hmax, ?_, fun k hk => ?_⟩
  · change need ≤ topMass row items _
    rw [topMass_ties (by omega), ← hmass]
    exact add_le_add_right hreach _
  · by_contra hlt
    have hmono := topMass_mono hnonneg
      (show k ≤ items.countP (before (rowKey row false) 0 a) + n by omega)
    rw [topMass_ties (by omega)] at hmono
    have hk : need ≤ topMass row items k := hk
    linarith

/-- The threshold is found: with `num_kth_needed` of the keys at the threshold there are `k`. -/
structure Resolved (row : Nat → BitVec d.bits) (items : List Nat) (k : Nat) (st : State) :
    Prop where
  selectAll : st.selectAll = false
  narrowed : ∃ a, st.kthBits = a * 2 ^ st.startBit ∧
    Narrowed (rowKey row false) (fun _ => 1) items st.startBit a k st.numKthNeeded ∧
    (st.startBit = 0 ∨ st.numKthNeeded =
      massOf (fun _ => 1) items (within (rowKey row false) st.startBit a))

def Orders.Valid (orders : Orders) (items : List Nat) : Prop :=
  (∀ pass, (orders.cnt pass).Perm items ∧ (orders.mass pass).Perm items ∧
    (orders.recount pass).Perm items) ∧ orders.compact.Perm items

variable {orders : Orders} {st : State} {k : Nat}

theorem exists_calcNumPasses (d : Dtype) : ∃ n, calcNumPasses d = n + 1 :=
  ⟨calcNumPasses d - 1, by cases d <;> rfl⟩

theorem exists_pass (h : r + 1 ≤ calcNumPasses d) : ∃ pass, pass + 1 + r = calcNumPasses d :=
  ⟨calcNumPasses d - (r + 1), by omega⟩

theorem massPasses_succ {n : Nat} (h : pass + 1 + n = calcNumPasses d) (hdone : st.done = false) :
    massPasses .exact row orders (n + 1) st = massPasses .exact row orders n (chooseByMass .exact d
      st (histogram row (· + ·) (fun _ => 1) st.kthBits pass (orders.cnt pass))
      (histogram row (· + ·) (rowMass row) st.kthBits pass (orders.mass pass)) pass) := by
  obtain rfl : pass = calcNumPasses d - (n + 1) := by omega
  rw [massPasses, hdone, if_neg Bool.false_ne_true]
  rfl

theorem countPasses_succ {n : Nat} (h : pass + 1 + n = calcNumPasses d) (hdone : st.done = false) :
    countPasses row orders (n + 1) (st, left) = countPasses row orders n (chooseByCount d st
      (histogram row (· + ·) (fun _ => 1) st.kthBits pass (orders.recount pass)) pass left) := by
  obtain rfl : pass = calcNumPasses d - (n + 1) := by omega
  rw [countPasses, hdone, if_neg Bool.false_ne_true]

theorem massPasses_resolved (hnonneg : ∀ i ∈ items, 0 ≤ rowMass row i)
    (horders : orders.Valid items) (r : Nat) (hle : r + 1 ≤ calcNumPasses d)
    (h : MassPassed row items need (r + 1) st) :
    IsLeast {k | need ≤ topMass row items k} (massPasses .exact row orders (r + 1) st).kStar ∧
      Resolved row items (massPasses .exact row orders (r + 1) st).kStar
        (massPasses .exact row orders (r + 1) st) := by
  induction r generalizing st with
  | zero =>
    obtain ⟨pass, hpass⟩ := exists_pass hle
    have hzero : startBitOf d pass = 0 := calcStartBit_eq hpass
    obtain ⟨a, b, cum, before', hscan, hkth, hcount, hnext, hties⟩ :=
      h.scan hpass hnonneg (horders.1 _).1 (horders.1 _).2.1
    have hkth' : a * 2 ^ (8 * 0) = a := Nat.mul_one a
    obtain ⟨hone, hmax, hleast⟩ := isLeast_ties hnonneg hnext (congrArg Nat.cast hties) rfl
    rw [massPasses_succ hpass h.done, massPasses, chooseByMass, hscan]
    simp only [id_eq]
    rw [if_pos (by omega), hkth, hkth', hcount, hzero, if_neg (not_lt.mpr hone),
      if_neg (not_lt.mpr hmax)]
    refine ⟨hleast, h.selectAll, a, hkth'.symm, ⟨?_, ?_, ?_⟩, .inl rfl⟩
    · rw [massOf_one]
    · change 0 < Int.toNat _
      omega
    · rw [massOf_one]
      change Int.toNat _ ≤ items.countP (within (rowKey row false) (8 * 0) a)
      omega
  | succ r ih =>
    obtain ⟨pass, hpass⟩ := exists_pass hle
    obtain ⟨a, b, cum, before', hscan, hkth, hcount, hnext, -⟩ :=
      h.scan hpass hnonneg (horders.1 _).1 (horders.1 _).2.1
    rw [massPasses_succ hpass h.done, chooseByMass, hscan]
    simp only [id_eq]
    rw [if_neg (by omega), hkth, hcount]
    exact ih (by omega) ⟨h.done, h.selectAll, a, rfl, rfl, hnext⟩

theorem scan_succ (hist : Nat → Nat) (j : Nat) : scan hist (j + 1) = scan hist j + hist j := by
  rw [scan, range_succ, map_append, sum_append, map_singleton, sum_singleton,
    scan]

theorem chooseByCount_narrows (hpass : pass + 1 + r = calcNumPasses d) (horder : order.Perm items)
    (hkth : st.kthBits = a * 2 ^ (8 * r + 8))
    (h : Narrowed (rowKey row false) (fun _ => 1) items (8 * r + 8) a k left) :
    ∃ a' st', chooseByCount d st (histogram row (· + ·) (fun _ => 1) st.kthBits pass order) pass
        left = (st', st'.numKthNeeded) ∧
      st'.k = st.k ∧ st'.selectAll = st.selectAll ∧ st'.startBit = 8 * r ∧
      st'.kthBits = a' * 2 ^ (8 * r) ∧
      Narrowed (rowKey row false) (fun _ => 1) items (8 * r) a' k st'.numKthNeeded ∧
      st'.done = (st.done || decide (massOf (fun _ => 1) items
        (within (rowKey row false) (8 * r) a') = st'.numKthNeeded ∨
          pass = calcNumPasses d - 1)) := by
  rw [hkth, histogram_eq _ hpass (eq_zero_of_first h hpass), digitMass_perm horder]
  obtain ⟨b, hb, hiff, hor, hnext, hlen⟩ := exists_bucket rfl h
  have hscan := countScan_eq (scan_succ _) hiff numBuckets 0 (Nat.zero_le _) (by omega)
  rw [← range_eq_range'] at hscan
  rw [scan_succ, Nat.add_sub_cancel_left] at hlen
  have hzero : ∀ hist : Nat → Nat, scan hist 0 = 0 := fun _ => rfl
  rw [hzero] at hscan
  rw [chooseByCount, hscan]
  dsimp only
  rw [hlen, startBitOf, calcStartBit_eq hpass, hkth, hor]
  exact ⟨_, _, rfl, rfl, rfl, rfl, rfl, hnext, rfl⟩

theorem countPasses_resolved (horders : orders.Valid items) (r : Nat)
    (hle : r + 1 ≤ calcNumPasses d) {result : State}
    (hresult : countPasses row orders (r + 1) (st, left) = result) (hdone : st.done = false)
    (hall : st.selectAll = false) (hkth : st.kthBits = a * 2 ^ (8 * r + 8))
    (h : Narrowed (rowKey row false) (fun _ => 1) items (8 * r + 8) a k left) :
    result.k = st.k ∧ Resolved row items k result := by
  induction r generalizing st left a with
  | zero =>
    obtain ⟨pass, hpass⟩ := exists_pass hle
    obtain ⟨a', st', heq, hk, hall', hbit, hkth', hnext, -⟩ :=
      chooseByCount_narrows hpass (horders.1 _).2.2 hkth h
    rw [countPasses_succ hpass hdone, heq, countPasses] at hresult
    subst hresult
    exact ⟨hk, hall'.trans hall, a', by rw [hbit, hkth'], by rw [hbit]; exact hnext, .inl hbit⟩
  | succ r ih =>
    obtain ⟨pass, hpass⟩ := exists_pass hle
    obtain ⟨a', st', heq, hk, hall', hbit, hkth', hnext, hdone'⟩ :=
      chooseByCount_narrows hpass (horders.1 _).2.2 hkth h
    rw [countPasses_succ hpass hdone, heq] at hresult
    rw [hdone, Bool.false_or] at hdone'
    cases hst' : st'.done with
    | true =>
      rw [hst', eq_comm, decide_eq_true_iff] at hdone'
      rw [countPasses, if_pos hst'] at hresult
      subst hresult
      refine ⟨hk, hall'.trans hall, a', by rw [hbit, hkth'], by rw [hbit]; exact hnext, .inr ?_⟩
      rw [hbit, hdone'.resolve_right (by omega)]
    | false =>
      rw [← hk]
      exact ih (by omega) hresult hst' (hall'.trans hall) hkth' hnext

theorem countScan_zero (cnt : Nat → Nat) (bs : List Nat) (before : Nat) :
    countScan cnt 0 bs before = none := by
  induction bs generalizing before with
  | nil => rfl
  | cons b bs ih => rw [countScan, if_neg (by omega), ih]

theorem countPasses_zero (n : Nat) : (countPasses row orders n (st, 0)).k = st.k := by
  induction n with
  | zero => rfl
  | succ n ih =>
    rw [countPasses]
    split_ifs
    · rfl
    · simp only [chooseByCount, countScan_zero]
      exact ih

theorem compact_top (h : Resolved row items st.k st) (horder : order.Perm items) (out : Nat → Nat) :
    Top (rowMass row) ((range st.k).map (compact row st order out)) items ∧
      ∀ j, st.k ≤ j → compact row st order out j = out j := by
  obtain ⟨-, a, hkth, hnarrowed, hlast⟩ := h
  have hplaced := foldl_place_top hnarrowed rowMass_le hlast horder out
  rw [compact, hkth]
  simp only [shift_lt_iff, shift_eq_iff]
  exact hplaced

theorem finalState_resolved (horders : orders.Valid items) (kMin kMax room : Int)
    (hst : st.selectAll = true ∨ st.selectAll = false ∧ st.kStar = 0 ∨
      Resolved row items st.kStar st) {st' : State}
    (hst' : finalState row orders kMin kMax items.length room st = st') :
    st'.k =
        clampCount (if st.selectAll then items.length else st.kStar) items.length kMin kMax room ∧
      (st'.k = 0 ∨ st'.selectAll = true ∧ st'.k = items.length ∨ Resolved row items st'.k st') := by
  simp only [finalState] at hst'
  generalize hstar : (if st.selectAll then items.length else st.kStar) = kStar at hst' ⊢
  split_ifs at hst' with hk
  · subst hst'
    refine ⟨rfl, ?_⟩
    rw [hk]
    rcases hst with hall | ⟨hall, hzero⟩ | hresolved
    · exact .inr (.inl ⟨hall, by rw [← hstar, hall, if_pos rfl]⟩)
    · exact .inl (by rw [← hstar, hall, if_neg Bool.false_ne_true, hzero])
    · rw [hresolved.selectAll, if_neg Bool.false_ne_true] at hstar
      rw [hstar] at hresolved
      exact .inr (.inr ⟨hresolved.selectAll, hresolved.narrowed⟩)
  · generalize hcount : clampCount kStar items.length kMin kMax room = k at hst'
    rcases Nat.eq_zero_or_pos k with rfl | hpos
    · subst hst'
      exact ⟨countPasses_zero _, .inl (countPasses_zero _)⟩
    · have hle : k ≤ items.length := by
        rw [clampCount] at hcount
        omega
      obtain ⟨n, hn⟩ := exists_calcNumPasses d
      have hstart : Narrowed (rowKey row false) (fun _ => 1) items (8 * calcNumPasses d) 0 k k :=
        narrowed_start (fun _ _ => bits_eq d ▸ BitVec.isLt _) hpos (by simpa using hle)
      rw [hn] at hst' hstart
      obtain ⟨hk', hresolved⟩ := countPasses_resolved horders n hn.ge hst' rfl rfl
        (Nat.zero_mul _).symm hstart
      exact ⟨hk', .inr (.inr (hk'.symm ▸ hresolved))⟩

theorem massPasses_done {A : Arith} (h : st.done = true) (n : Nat) :
    massPasses A row orders n st = st := by
  cases n with
  | zero => rfl
  | succ n => rw [massPasses, if_pos h]

theorem massPasses_star (horders : orders.Valid items) (hnonneg : ∀ i ∈ items, 0 ≤ rowMass row i)
    (theta : ℚ) {total reserved : ℚ} (hreserved : 0 ≤ reserved)
    (htotal : total = reserved + (items.map (rowMass row)).sum)
    (hst : massPasses .exact row orders (calcNumPasses d)
      (startState .exact theta items.length total reserved) = st)
    {kStar : Nat} (hstar : (if st.selectAll then items.length else st.kStar) = kStar) :
    (st.selectAll = true ∨ st.selectAll = false ∧ st.kStar = 0 ∨ Resolved row items st.kStar st) ∧
      (1 ≤ theta → reserved < theta * total → kStar = items.length) ∧
      (theta < 1 ∨ theta * total ≤ reserved →
        IsLeast {k | theta * total ≤ reserved + topMass row items k} kStar) := by
  have hsum : 0 ≤ (items.map (rowMass row)).sum := sum_nonneg (forall_mem_map.mpr hnonneg)
  have hle : theta < 1 → theta * total ≤ total := fun hlt =>
    mul_le_of_le_one_left (by linarith) hlt.le
  by_cases hearly : items.length = 0 ∨ total ≤ 0 ∨ theta * total - reserved ≤ 0
  · have hstart : (startState .exact theta items.length total reserved).done = true ∧
        (startState .exact theta items.length total reserved).selectAll = false := by
      simp only [startState, Arith.mul_exact, id_eq, hearly, decide_true, Bool.true_or,
        Bool.not_true, Bool.false_and, and_self]
    rw [massPasses_done hstart.1] at hst
    subst hst
    rw [hstart.2] at hstar
    subst hstar
    refine ⟨.inr (.inl ⟨hstart.2, rfl⟩), fun _ hlt => ?_, fun hor => ⟨?_, fun _ _ => Nat.zero_le _⟩⟩
    · rcases hearly with hnone | hzero | hneed
      · exact hnone.symm
      · rw [show total = 0 by linarith] at hlt
        linarith
      · linarith
    · have hempty : items.length = 0 → (items.map (rowMass row)).sum = 0 := fun hnone => by
        rw [eq_nil_of_length_eq_zero hnone, map_nil, sum_nil]
      change theta * total ≤ reserved + 0
      rcases hor with hlt | hge
      · rcases hearly with hnone | hzero | hneed
        · linarith [hle hlt, hempty hnone]
        · linarith [hle hlt]
        · linarith
      · linarith
  · have hneed : 0 < theta * total - reserved := not_le.mp fun h => hearly (.inr (.inr h))
    by_cases hall : 1 ≤ theta
    · have hstart : (startState .exact theta items.length total reserved).done = true ∧
          (startState .exact theta items.length total reserved).selectAll = true := by
        simp only [startState, Arith.mul_exact, id_eq, hearly, hall, decide_true, decide_false,
          Bool.or_true, Bool.not_false, Bool.true_and, and_self]
      rw [massPasses_done hstart.1] at hst
      subst hst
      rw [if_pos hstart.2] at hstar
      refine ⟨.inl hstart.2, fun _ _ => hstar.symm, fun hor => ?_⟩
      rcases hor with hlt | hge
      · exact absurd hall hlt.not_ge
      · linarith
    · obtain ⟨n, hn⟩ := exists_calcNumPasses d
      have hpassed : MassPassed row items (theta * total - reserved) (n + 1)
          (startState .exact theta items.length total reserved) := by
        refine ⟨?_, ?_, 0, (Nat.zero_mul _).symm, ?_, ?_⟩
        · simp only [startState, Arith.mul_exact, id_eq, hearly, hall, decide_false, Bool.false_or]
        · simp only [startState, hall, decide_false, Bool.and_false]
        · exact (countP_eq_zero.mpr fun i _ => by simp [before]).symm
        · rw [← hn, ← bits_eq]
          exact narrowed_start (fun _ _ => BitVec.isLt _) hneed (by linarith [hle (not_le.mp hall)])
      rw [hn] at hst
      obtain ⟨hleast, hresolved⟩ := massPasses_resolved hnonneg horders n hn.ge hpassed
      rw [hst] at hleast hresolved
      rw [hresolved.selectAll] at hstar
      subst hstar
      simp only [sub_le_iff_le_add'] at hleast
      exact ⟨.inr (.inr hresolved), fun hge => absurd hge hall, fun _ => hleast⟩

end passes

section sums

theorem warpSum_exact (v : Nat → ℚ) : warpSum .exact v = ((range 32).map v).sum := by
  simp [warpSum, range_succ]
  ring

theorem blockSum_exact (v : Nat → ℚ) : blockSum .exact v = ((range blockSize).map v).sum := by
  have hsplit : range blockSize = (range 32).flatMap fun warp =>
    (range 32).map (32 * warp + ·) := by
    decide +kernel
  rw [hsplit, blockSum, warpSum_exact, map_flatMap, flatMap_def, sum_flatten, map_map]
  refine congrArg List.sum (map_congr_left fun warp hwarp => ?_)
  have hlt : warp < numWarps := mem_range.mp hwarp
  rw [if_pos hlt, warpSum_exact, Function.comp_apply, map_map]
  rfl

variable {d : Dtype} (row : Nat → BitVec d.bits) (counted : Nat → Bool) (n : Nat)

theorem blockSum_threadSum_exact : blockSum .exact (threadSum .exact row counted n) =
    (((range n).filter counted).map (rowMass row)).sum := by
  have hblock : 0 < blockSize := by decide
  have hperm := ((flatMap_range_strided_perm hblock (range n)).filter counted).map (rowMass row)
  rw [blockSum_exact, ← hperm.sum_eq, filter_flatMap, map_flatMap, flatMap_def,
    sum_flatten, map_map]
  refine congrArg List.sum (map_congr_left fun thread _ => ?_)
  rw [threadSum, Function.comp_apply, sum_eq_foldl, foldl_map]
  rfl

end sums

section selection

variable {d : Dtype} {row : Nat → BitVec d.bits} {orders : Orders} {n sink recent : Nat}

def totalMass (row : Nat → BitVec d.bits) (n : Nat) : ℚ := ((range n).map (rowMass row)).sum

def reservedMass (row : Nat → BitVec d.bits) (n c0 c1 : Nat) : ℚ :=
  (((range n).filter fun i => i < c0 ∨ i ≥ c1).map (rowMass row)).sum

theorem blockTotal_exact : blockTotal .exact row n = totalMass row n := by
  rw [blockTotal, blockSum_threadSum_exact, filter_true, totalMass]

theorem blockReserved_exact (c0 c1 : Nat) :
    blockReserved .exact row n c0 c1 = reservedMass row n c0 c1 :=
  blockSum_threadSum_exact ..

theorem totalMass_eq {c0 c1 : Nat} (h : c0 ≤ c1) (hn : c1 ≤ n) : totalMass row n =
    reservedMass row n c0 c1 + ((range' c0 (c1 - c0)).map (rowMass row)).sum := by
  have hsplit := filter_append_perm (fun i => decide (i < c0 ∨ i ≥ c1)) (range n)
  have hrest : ((range n).filter fun i => !decide (i < c0 ∨ i ≥ c1)).Perm
      (range' c0 (c1 - c0)) := by
    rw [perm_ext_iff_of_nodup (nodup_range.filter _) nodup_range']
    intro i
    simp only [mem_filter, mem_range, mem_range'_1, Bool.not_eq_true', decide_eq_false_iff_not]
    omega
  rw [totalMass, reservedMass, ← (hsplit.map _).sum_eq, map_append, sum_append,
    (hrest.map _).sum_eq]

/-- The positions that are neither sink nor recent. -/
def candidates (n sink recent : Nat) : List Nat :=
  range' (sEff n sink) (n - rEff n sink recent - sEff n sink)

def reserved (row : Nat → BitVec d.bits) (n sink recent : Nat) : ℚ :=
  reservedMass row n (sEff n sink) (n - rEff n sink recent)

/-- What the kernel writes for a count `kStar` by mass: `chosen` are the candidates taken. -/
structure Chosen (row : Nat → BitVec d.bits) (kMin kMax : Int) (width n sink recent : Nat)
    (out : Nat → Nat) (result : (Nat → Nat) × Nat) (kStar : Nat) (chosen : List Nat) : Prop where
  count : chosen.length = clampCount kStar (candidates n sink recent).length kMin kMax
    ((width : Int) - sEff n sink - rEff n sink recent)
  nodup : chosen.Nodup
  top : Top (rowMass row) chosen (candidates n sink recent)
  entries : (range result.2).map result.1 = chosen ++
    (range (sEff n sink) ++ range' (n - rEff n sink recent) (rEff n sink recent))
  used : result.2 = chosen.length + sEff n sink + rEff n sink recent
  other : ∀ j, result.2 ≤ j → result.1 j = out j

/-- What the kernel is for: `kStar` is the count by mass. -/
structure Selected (row : Nat → BitVec d.bits) (kMin kMax : Int) (width : Nat) (theta : ℚ)
    (n sink recent : Nat) (out : Nat → Nat) (result : (Nat → Nat) × Nat) (kStar : Nat)
    (chosen : List Nat) : Prop
    extends Chosen row kMin kMax width n sink recent out result kStar chosen where
  all : 1 ≤ theta → reserved row n sink recent < theta * totalMass row n →
    kStar = (candidates n sink recent).length
  least : theta < 1 ∨ theta * totalMass row n ≤ reserved row n sink recent →
    IsLeast {k | theta * totalMass row n ≤
      reserved row n sink recent + topMass row (candidates n sink recent) k} kStar

theorem chosen_top {c0 c1 : Nat} {st : State} {order : List Nat} {out out' : Nat → Nat}
    (hst : st.k = 0 ∨ st.selectAll = true ∧ st.k = (range' c0 (c1 - c0)).length ∨
      Resolved row (range' c0 (c1 - c0)) st.k st)
    (horder : order.Perm (range' c0 (c1 - c0)))
    (hout' : (if st.k > 0 then
      if st.selectAll ∧ st.k = (range' c0 (c1 - c0)).length then
        Stores.storeAll ((strideLoop blockSize c0 c1).map fun i => (i - c0, i)) out
      else compact row st order out
    else out) = out') :
    Top (rowMass row) ((range st.k).map out') (range' c0 (c1 - c0)) ∧
      ∀ j, st.k ≤ j → out' j = out j := by
  rcases Nat.eq_zero_or_pos st.k with hzero | hpos
  · subst hout'
    rw [hzero]
    exact ⟨⟨_, .refl _, nofun⟩, fun _ _ => rfl⟩
  · rw [if_pos hpos] at hout'
    rcases hst with hzero | ⟨hall, hlen⟩ | hresolved
    · omega
    · rw [if_pos ⟨hall, hlen⟩] at hout'
      rw [length_range'] at hlen
      have hmap : (range (0 + (c1 - c0))).map (Stores.storeAll
          ((strideLoop blockSize c0 c1).map fun i => (i - c0, i)) out) = _ ++ _ :=
        map_storeAll_strideLoop (by decide) (fun i _ => (Nat.zero_add _).symm) id out
      rw [hout', Nat.zero_add, ← hlen, map_id, range_zero, map_nil, nil_append]
        at hmap
      refine ⟨⟨[], by rw [append_nil, hmap, hlen], nofun⟩, fun j hj => ?_⟩
      rw [← hout']
      exact storeAll_strideLoop_other (by decide) fun i hi hi' => by omega
    · rw [hresolved.selectAll] at hout'
      subst hout'
      exact compact_top hresolved horder out

theorem map_reserved (k s r c1 : Nat) (out : Nat → Nat) :
    (range (k + s + r)).map
      (Stores.storeAll ((strideLoop blockSize 0 r).map fun i => (k + s + i, c1 + i))
        (Stores.storeAll ((strideLoop blockSize 0 s).map fun i => (k + i, i)) out)) =
      (range k).map out ++ (range s ++ range' c1 r) := by
  have hpos : 0 < blockSize := by decide
  have hrecent : (range (k + s + (r - 0))).map _ = _ := map_storeAll_strideLoop hpos
    (fun i _ => congrArg (k + s + ·) (Nat.sub_zero i).symm) (c1 + ·)
    (Stores.storeAll ((strideLoop blockSize 0 s).map fun i => (k + i, i)) out)
  have hsink : (range (k + (s - 0))).map _ = _ := map_storeAll_strideLoop hpos
    (fun i _ => congrArg (k + ·) (Nat.sub_zero i).symm) id out
  rw [Nat.sub_zero, ← range_eq_range'] at hrecent hsink
  rw [map_id] at hsink
  rw [range'_eq_map_range, ← append_assoc, ← hsink]
  exact hrecent

theorem selectRow_chosen (A : Arith) (kMin kMax : Int) (width : Nat) (theta : ℚ) (out : Nat → Nat)
    (horders : orders.Valid (candidates n sink recent)) {st : State}
    (hst : massPasses A row orders (calcNumPasses d) (startState A theta
      (candidates n sink recent).length (blockTotal A row n)
      (blockReserved A row n (sEff n sink) (n - rEff n sink recent))) = st)
    (hready : st.selectAll = true ∨ st.selectAll = false ∧ st.kStar = 0 ∨
      Resolved row (candidates n sink recent) st.kStar st) :
    ∃ chosen, Chosen row kMin kMax width n sink recent out
      (selectRow A row orders kMin kMax width theta n sink recent out)
      (if st.selectAll then (candidates n sink recent).length else st.kStar) chosen := by
  have hlen : n - rEff n sink recent - sEff n sink = (candidates n sink recent).length :=
    length_range'.symm
  obtain ⟨hk, hfinal⟩ := finalState_resolved horders kMin kMax
    ((width : Int) - sEff n sink - rEff n sink recent) hready rfl
  rw [selectRow]
  simp only [hlen, hst]
  generalize finalState row orders kMin kMax (candidates n sink recent).length
    ((width : Int) - sEff n sink - rEff n sink recent) st = st' at hk hfinal ⊢
  generalize hout' : (if st'.k > 0 then _ else out) = out'
  obtain ⟨htop, hother⟩ := chosen_top hfinal horders.2 hout'
  have hnodup : ((range st'.k).map out').Nodup := by
    obtain ⟨rest, hrest, -⟩ := htop
    exact (nodup_append.mp (hrest.nodup_iff.mpr nodup_range')).1
  refine ⟨(range st'.k).map out', by rw [length_map, length_range, hk], hnodup, htop, ?_,
    by rw [length_map, length_range], fun j hj => ?_⟩
  · rw [map_reserved]
  · dsimp only at hj ⊢
    rw [storeAll_strideLoop_other (by decide) fun i _ hi => by omega,
      storeAll_strideLoop_other (by decide) fun i _ hi => by omega]
    exact hother j (by omega)

theorem Orders.Valid.candidates
    (h : orders.Valid (strideLoop blockSize (sEff n sink) (n - rEff n sink recent))) :
    orders.Valid (candidates n sink recent) := by
  have hperm : (strideLoop blockSize (sEff n sink) (n - rEff n sink recent)).Perm
      (MassSelect.candidates n sink recent) := strideLoop_perm (by decide) _ _
  exact ⟨fun pass => ⟨(h.1 pass).1.trans hperm, (h.1 pass).2.1.trans hperm,
    (h.1 pass).2.2.trans hperm⟩, h.2.trans hperm⟩

theorem selectRow_selected (kMin kMax : Int) (width : Nat) (theta : ℚ) (out : Nat → Nat)
    (hnonneg : ∀ i < n, 0 ≤ rowMass row i)
    (horders : orders.Valid (strideLoop blockSize (sEff n sink) (n - rEff n sink recent))) :
    ∃ kStar chosen, Selected row kMin kMax width theta n sink recent out
      (selectRow .exact row orders kMin kMax width theta n sink recent out) kStar chosen := by
  have hsEff : sEff n sink ≤ n := Nat.min_le_right ..
  have hrEff : rEff n sink recent ≤ n - sEff n sink := Nat.min_le_right ..
  have hnonneg' : ∀ i ∈ candidates n sink recent, 0 ≤ rowMass row i := fun i hi => by
    rw [candidates, mem_range'_1] at hi
    exact hnonneg i (by omega)
  have hreserved : 0 ≤ reservedMass row n (sEff n sink) (n - rEff n sink recent) :=
    sum_nonneg (forall_mem_map.mpr fun i hi => hnonneg i (mem_range.mp (mem_of_mem_filter hi)))
  have htotal : totalMass row n = reservedMass row n (sEff n sink) (n - rEff n sink recent) + _ :=
    totalMass_eq (by omega) (Nat.sub_le ..)
  obtain ⟨hready, hall, hleast⟩ := massPasses_star horders.candidates hnonneg' theta hreserved
    htotal rfl rfl
  rw [← blockTotal_exact, ← blockReserved_exact] at hready
  obtain ⟨chosen, hchosen⟩ := selectRow_chosen .exact kMin kMax width theta out horders.candidates
    rfl hready
  rw [blockTotal_exact, blockReserved_exact] at hchosen
  exact ⟨_, chosen, hchosen, hall, hleast⟩

theorem selectKernel_pos (A : Arith) (kMin kMax : Int) (width : Nat) (theta : ℚ) {validLen : Int}
    (h : 0 < validLen) (out : Nat → Nat) :
    selectKernel A row orders kMin kMax width theta validLen sink recent out =
      selectRow A row orders kMin kMax width theta validLen.toNat sink recent out :=
  if_neg h.not_ge

theorem mass_select_exact {d : Dtype} (row : Nat → BitVec d.bits) (orders : Orders)
    (kMin kMax : Int) (width : Nat) (theta : ℚ) (validLen : Int) (sink recent : Nat)
    (out : Nat → Nat) (hnonneg : ∀ i < validLen.toNat, 0 ≤ rowMass row i)
    (horders : orders.Valid (strideLoop blockSize (sEff validLen.toNat sink)
      (validLen.toNat - rEff validLen.toNat sink recent))) :
    (validLen ≤ 0 →
      selectKernel .exact row orders kMin kMax width theta validLen sink recent out = (out, 0)) ∧
    (0 < validLen → ∃ kStar chosen, Selected row kMin kMax width theta validLen.toNat sink recent
      out (selectKernel .exact row orders kMin kMax width theta validLen sink recent out) kStar
      chosen) ∧
    (sEff validLen.toNat sink + rEff validLen.toNat sink recent ≤ width →
      (selectKernel .exact row orders kMin kMax width theta validLen sink recent out).2 ≤
        width) := by
  have hselected := selectRow_selected kMin kMax width theta out hnonneg horders
  refine ⟨fun hle => if_pos hle, fun hpos => ?_, fun hroom => ?_⟩
  · rw [selectKernel_pos _ kMin kMax width theta hpos]
    exact hselected
  · rcases le_or_gt validLen 0 with hle | hpos
    · rw [selectKernel, if_pos hle]
      exact Nat.zero_le width
    · obtain ⟨kStar, chosen, h⟩ := hselected
      rw [selectKernel_pos _ kMin kMax width theta hpos, h.used, h.count, clampCount]
      omega

/-- Two tokens, of mass one and zero. -/
def onesRow (i : Nat) : BitVec Dtype.half.bits := ([0x3C00, 0] : List (BitVec 16)).getD i 0

def ordersOf (items : List Nat) : Orders where
  cnt _ := items
  mass _ := items
  recount _ := items
  compact := items

theorem ordersOf_valid (items : List Nat) : (ordersOf items).Valid items := by
  simp only [Orders.Valid, ordersOf, Perm.refl, implies_true, and_self]

theorem onesRow_nonneg : ∀ i < 2, 0 ≤ rowMass onesRow i := by
  decide +kernel

theorem mass_select_exact_half : ∃ kStar chosen, Selected onesRow 0 2 2 (1 / 2) 2 0 0 (fun _ => 0)
    (selectKernel .exact onesRow (ordersOf (strideLoop blockSize 0 2)) 0 2 2 (1 / 2) 2 0 0
      fun _ => 0) kStar chosen :=
  (mass_select_exact onesRow _ 0 2 2 (1 / 2) 2 0 0 (fun _ => 0) onesRow_nonneg
    (ordersOf_valid _)).2.1 (by decide)

/-- The mass of the first token is all, but both are taken. -/
theorem full_threshold_not_least :
    IsLeast {k | 1 * totalMass onesRow 2 ≤
      reserved onesRow 2 0 0 + topMass onesRow (candidates 2 0 0) k} 1 ∧
    (selectKernel .exact onesRow (ordersOf (strideLoop blockSize 0 2)) 0 2 2 1 2 0 0
      fun _ => 0).2 = 2 := by
  refine ⟨⟨?_, fun k hk => ?_⟩, ?_⟩
  · decide +kernel
  · by_contra hzero
    obtain rfl : k = 0 := by omega
    revert hk
    decide +kernel
  · decide +kernel

theorem Chosen.forall_mem_iff {kMin kMax : Int} {width kStar : Nat} {out : Nat → Nat}
    {result : (Nat → Nat) × Nat} {chosen : List Nat}
    (h : Chosen row kMin kMax width n sink recent out result kStar chosen) :
    (∀ i ∈ candidates n sink recent, i ∈ (range result.2).map result.1) ↔
      chosen.length = (candidates n sink recent).length := by
  obtain ⟨rest, hperm, -⟩ := h.top
  have hlen := hperm.length_eq
  rw [length_append] at hlen
  rw [h.entries]
  constructor
  · intro hmem
    have hrest : rest = [] := eq_nil_iff_forall_not_mem.mpr fun i hi => by
      have hcand := hperm.mem_iff.mp (mem_append_right _ hi)
      have hnodup := hperm.nodup_iff.mpr nodup_range'
      have hnotin : i ∉ chosen := fun hi' => (nodup_append.mp hnodup).2.2 i hi' i hi rfl
      have hmem := hmem i hcand
      simp only [mem_append, hnotin, false_or, mem_range, mem_range'_1] at hmem
      rw [candidates, mem_range'_1] at hcand
      omega
    rw [hrest, length_nil] at hlen
    exact hlen
  · intro hall i hi
    obtain rfl : rest = [] := length_eq_zero_iff.mp (by omega)
    rw [append_nil] at hperm
    exact mem_append_left _ (hperm.mem_iff.mpr hi)

theorem foldl_round_nonneg {f : Nat → ℚ} {items : List Nat} {sum : ℚ} (hsum : 0 ≤ sum)
    (hnonneg : ∀ i ∈ items, 0 ≤ f i) :
    0 ≤ items.foldl (fun sum i => round32 (sum + f i)) sum := by
  induction items generalizing sum with
  | nil => exact hsum
  | cons i items ih =>
    exact ih (FloatFormat.round_nonneg (add_nonneg hsum (hnonneg i mem_cons_self)))
      fun j hj => hnonneg j (mem_cons_of_mem _ hj)

theorem warpSum_nonneg {fused : Bool} {v : Nat → ℚ} (h : ∀ lane, 0 ≤ v lane) :
    0 ≤ warpSum (.single fused) v := by
  have hfold : ∀ (os : List Nat) (v : Nat → ℚ), (∀ lane, 0 ≤ v lane) →
      ∀ lane, 0 ≤ os.foldl (fun v o lane =>
        round32 (v lane + v (if lane + o < 32 then lane + o else lane))) v lane := by
    intro os
    induction os with
    | nil => exact fun _ h => h
    | cons o os ih =>
      exact fun v h => ih _ fun lane => FloatFormat.round_nonneg (add_nonneg (h _) (h _))
  exact hfold [16, 8, 4, 2, 1] v h 0

theorem blockReserved_nonneg {fused : Bool} (h : ∀ i < n, 0 ≤ rowMass row i) (c0 c1 : Nat) :
    0 ≤ blockReserved (.single fused) row n c0 c1 := by
  have hthread : ∀ thread, 0 ≤ threadSum (.single fused) row (fun i => i < c0 ∨ i ≥ c1) n thread :=
    fun thread => foldl_round_nonneg le_rfl fun i hi =>
      h i (mem_range.mp (mem_of_mem_strided (mem_of_mem_filter hi)))
  rw [blockReserved, blockSum]
  refine warpSum_nonneg fun lane => ?_
  split_ifs
  · exact warpSum_nonneg fun l => hthread _
  · exact le_rfl

/-- With a threshold of one the mass path is over before its first pass. -/
theorem startState_full {fused : Bool} {theta total reserved : ℚ} (htheta : 1 ≤ theta)
    (hreserved : 0 ≤ reserved) (nCand : Nat) {st : State}
    (hst : startState (.single fused) theta nCand total reserved = st) :
    st.done = true ∧ st.kStar = 0 ∧ (st.selectAll = true ↔
      0 < nCand ∧ reserved + 2 ^ (-150 : ℤ) < Arith.mul (.single fused) theta total) := by
  subst hst
  have hmul : total ≤ 0 → Arith.mul (.single fused) theta total ≤ 2 ^ (-150 : ℤ) := by
    intro hle
    have hprod : theta * total ≤ 0 := mul_nonpos_of_nonneg_of_nonpos (by linarith) hle
    have hpos : (0 : ℚ) < 2 ^ (-150 : ℤ) := by positivity
    unfold Arith.mul
    split_ifs
    · exact hprod.trans hpos.le
    · by_contra hlt
      have hround := (round32_pos_iff (theta * total)).mp (hpos.trans (not_le.mp hlt))
      linarith
  have hneed : ∀ x : ℚ, round32 x ≤ 0 ↔ x ≤ 2 ^ (-150 : ℤ) := fun x => by
    rw [← not_lt, round32_pos_iff, not_lt]
  refine ⟨?_, rfl, ?_⟩
  · simp only [startState, htheta, decide_true, Bool.or_true]
  · simp only [startState, htheta, hneed, decide_true, Bool.and_true, Bool.not_eq_true',
      decide_eq_false_iff_not, not_or, not_le, sub_le_iff_le_add]
    constructor
    · rintro ⟨hcand, -, hlt⟩
      exact ⟨Nat.pos_of_ne_zero hcand, by linarith⟩
    · rintro ⟨hcand, hlt⟩
      refine ⟨hcand.ne', ?_, by linarith⟩
      by_contra hle
      linarith [hmul (not_lt.mp hle)]

/-- The masses of the row and their sum are finite in single precision. -/
def FiniteMass (fused : Bool) (row : Nat → BitVec d.bits) (n : Nat) : Prop :=
  (∀ i < n, rowMass row i < 2 ^ (d.format.bias + 1)) ∧ blockTotal (.single fused) row n < 2 ^ 128

/-- The launch rounds the threshold, the kernel its sums. -/
theorem full_threshold_iff {d : Dtype} (fused : Bool) (row : Nat → BitVec d.bits) (orders : Orders)
    (kMin kMax : Int) (width : Nat) (theta : ℚ) (validLen : Int) (sink recent : Nat)
    (out : Nat → Nat) (hpos : 0 < validLen) (hnonneg : ∀ i < validLen.toNat, 0 ≤ rowMass row i)
    (_hfinite : FiniteMass fused row validLen.toNat)
    (horders : orders.Valid (strideLoop blockSize (sEff validLen.toNat sink)
      (validLen.toNat - rEff validLen.toNat sink recent)))
    (htheta : 1 ≤ theta) (hmax : (candidates validLen.toNat sink recent).length ≤ kMax)
    (hwidth : (candidates validLen.toNat sink recent).length + sEff validLen.toNat sink +
      rEff validLen.toNat sink recent ≤ width) {result : (Nat → Nat) × Nat}
    (hresult : selectKernel (.single fused) row orders kMin kMax width (round32 theta) validLen sink
      recent out = result) :
    (∀ i ∈ candidates validLen.toNat sink recent, i ∈ (range result.2).map result.1) ↔
      candidates validLen.toNat sink recent = [] ∨
      (candidates validLen.toNat sink recent).length ≤ kMin ∨
      blockReserved (.single fused) row validLen.toNat (sEff validLen.toNat sink)
          (validLen.toNat - rEff validLen.toNat sink recent) + 2 ^ (-150 : ℤ) <
        Arith.mul (.single fused) (round32 theta)
          (blockTotal (.single fused) row validLen.toNat) := by
  rw [selectKernel_pos _ kMin kMax width _ hpos] at hresult
  subst hresult
  obtain ⟨st, hstart⟩ : ∃ st, startState (.single fused) (round32 theta)
      (candidates validLen.toNat sink recent).length (blockTotal (.single fused) row validLen.toNat)
      (blockReserved (.single fused) row validLen.toNat (sEff validLen.toNat sink)
        (validLen.toNat - rEff validLen.toNat sink recent)) = st := ⟨_, rfl⟩
  obtain ⟨hdone, hstar, hall⟩ := startState_full (one_le_round32 htheta)
    (blockReserved_nonneg hnonneg _ _) _ hstart
  have hready : st.selectAll = true ∨ st.selectAll = false := Bool.eq_false_or_eq_true _
  obtain ⟨chosen, h⟩ := selectRow_chosen (.single fused) kMin kMax width (round32 theta) out
    horders.candidates (by rw [hstart, massPasses_done hdone])
    (hready.imp_right fun hno => .inl ⟨hno, hstar⟩)
  have hcount := h.count
  rw [clampCount] at hcount
  rw [h.forall_mem_iff, ← length_eq_zero_iff]
  rcases hready with hyes | hno
  · rw [if_pos hyes] at hcount
    have := hall.mp hyes
    simp only [this.2, or_true, iff_true]
    omega
  · rw [hno, if_neg Bool.false_ne_true, hstar] at hcount
    rw [hno] at hall
    simp only [Bool.false_eq_true, false_iff, not_and] at hall
    rcases Nat.eq_zero_or_pos (candidates validLen.toNat sink recent).length with hnil | hcand
    · simp only [hnil, true_or, iff_true]
      omega
    · simp only [hall hcand, or_false]
      omega

theorem full_threshold_iff_ones : 1 ∈ (range (selectKernel (.single true) onesRow
      (ordersOf (strideLoop blockSize 0 2)) 0 2 2 (round32 1) 2 0 0 fun _ => 0).2).map
    (selectKernel (.single true) onesRow (ordersOf (strideLoop blockSize 0 2)) 0 2 2 (round32 1) 2 0
      0 fun _ => 0).1 :=
  (full_threshold_iff true onesRow _ 0 2 2 1 2 0 0 (fun _ => 0) (by decide) onesRow_nonneg
    ⟨by decide +kernel, by decide +kernel⟩ (ordersOf_valid _) le_rfl (by decide)
      (by decide) rfl).mpr
    (.inr (.inr (by decide +kernel))) 1 (by decide)

/-- The mass is in the sink token, and the other one is not kept. -/
theorem reserved_mass_drops : 1 ∈ candidates 2 1 0 ∧ 1 ∉ (range (selectKernel (.single true) onesRow
      (ordersOf (strideLoop blockSize 1 2)) 0 2 2 (round32 1) 2 1 0 fun _ => 0).2).map
    (selectKernel (.single true) onesRow (ordersOf (strideLoop blockSize 1 2)) 0 2 2 (round32 1) 2 1
      0 fun _ => 0).1 := by
  decide +kernel

end selection

end LongCtxSpecDecode.MassSelect
