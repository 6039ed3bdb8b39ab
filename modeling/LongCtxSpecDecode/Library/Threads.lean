import LongCtxSpecDecode.Library.Grouping
import LongCtxSpecDecode.Library.Stores

/-!
# Threads and atomic additions

The loops of the threads of a block, the slices of several blocks, and sums that are built up by
atomic additions. What the additions leave does not depend on their order.
-/

namespace LongCtxSpecDecode.Library

open List

/-- The indices `for (i = start + thread; i < stop; i += blockDim)` of all threads. -/
def strideLoop (blockDim start stop : Nat) : List Nat :=
  (range blockDim).flatMap fun thread =>
    strided blockDim thread (range' start (stop - start))

variable {blockDim start stop : Nat} {α : Type} {address : Nat → Nat}

theorem strideLoop_perm (h : 0 < blockDim) (start stop : Nat) :
    (strideLoop blockDim start stop).Perm (range' start (stop - start)) :=
  flatMap_range_strided_perm h _

theorem mem_strideLoop {i : Nat} (h : 0 < blockDim) :
    i ∈ strideLoop blockDim start stop ↔ start ≤ i ∧ i < stop := by
  rw [(strideLoop_perm h start stop).mem_iff, mem_range'_1]
  omega

/-- The threads of a block store to distinct addresses. -/
theorem storeAll_strideLoop {i j : Nat} (h : 0 < blockDim) (value : Nat → α) (mem : Nat → α)
    (hi : start ≤ i) (hi' : i < stop) (haddress : address i = j)
    (hinj : ∀ i', start ≤ i' → address i' = j → i' = i) :
    Stores.storeAll ((strideLoop blockDim start stop).map fun i => (address i, value i)) mem j =
      value i := by
  refine Stores.storeAll_of_mem ?_ fun store hstore hstore' => ?_
  · rw [map_map]
    exact mem_map.mpr ⟨i, (mem_strideLoop h).mpr ⟨hi, hi'⟩, haddress⟩
  · obtain ⟨i', hi', rfl⟩ := mem_map.mp hstore
    rw [← hinj i' ((mem_strideLoop h).mp hi').1 hstore']

theorem storeAll_strideLoop_other {j : Nat} (h : 0 < blockDim) {value : Nat → α} {mem : Nat → α}
    (hother : ∀ i, start ≤ i → i < stop → address i ≠ j) :
    Stores.storeAll ((strideLoop blockDim start stop).map fun i => (address i, value i)) mem j =
      mem j := by
  refine Stores.storeAll_of_notMem ?_
  rw [map_map]
  intro hmem
  obtain ⟨i, hi, haddress⟩ := mem_map.mp hmem
  rw [mem_strideLoop h] at hi
  exact hother i hi.1 hi.2 haddress

/-- Values that are stored one after the other. -/
theorem map_storeAll_strideLoop {base : Nat} (h : 0 < blockDim)
    (haddress : ∀ i, start ≤ i → address i = base + (i - start)) (value : Nat → α) (mem : Nat → α) :
    (range (base + (stop - start))).map (Stores.storeAll
        ((strideLoop blockDim start stop).map fun i => (address i, value i)) mem) =
      (range base).map mem ++ (range' start (stop - start)).map value := by
  rw [range_add, map_append, range'_eq_map_range, map_map, map_map]
  refine congrArg₂ _ (map_congr_left fun j hj => ?_) (map_congr_left fun j hj => ?_)
  · rw [mem_range] at hj
    refine storeAll_strideLoop_other h fun i hi _ => ?_
    rw [haddress i hi]
    omega
  · rw [mem_range] at hj
    have hstart := Nat.le_add_right start j
    have hj' : address (start + j) = base + j := by
      rw [haddress _ hstart, Nat.add_sub_cancel_left]
    change Stores.storeAll _ mem (base + j) = value (start + j)
    refine storeAll_strideLoop h value mem hstart (by omega) hj' fun i hi hij => ?_
    rw [haddress i hi] at hij
    omega

theorem flatMap_slices (size limit count : Nat) :
    (range count).flatMap (fun block =>
      range' (block * size) (min (block * size + size) limit - block * size)) =
      range (min (count * size) limit) := by
  induction count with
  | zero => simp
  | succ count ih =>
    rw [range_succ, flatMap_append, ih, flatMap_singleton, Nat.succ_mul,
      range_eq_range', range_eq_range']
    rcases Nat.le_total limit (count * size) with hle | hle
    · rw [Nat.min_eq_right hle, Nat.min_eq_right (by omega), Nat.sub_eq_zero_of_le hle,
        range'_zero, append_nil]
    · rw [Nat.min_eq_left hle]
      have happend := range'_append_1 (s := 0) (m := count * size)
        (n := min (count * size + size) limit - count * size)
      rw [Nat.zero_add] at happend
      rw [happend, Nat.add_sub_cancel' (by omega)]

section tally

variable {ι κ M : Type} [DecidableEq κ] (add : M → M → M) (counted : ι → Prop)
  [DecidablePred counted] (bucket : ι → κ) (weight : ι → M)

/-- The atomic addition of an item to its bucket. -/
def tally (hist : κ → M) (i : ι) : κ → M :=
  if counted i then Function.update hist (bucket i) (add (hist (bucket i)) (weight i)) else hist

theorem foldl_tally [AddCommMonoid M] (items : List ι) (hist : κ → M) (b : κ) :
    items.foldl (tally (· + ·) counted bucket weight) hist b =
      hist b + ((items.filter fun i => decide (counted i ∧ bucket i = b)).map weight).sum := by
  induction items generalizing hist with
  | nil => simp
  | cons i items ih =>
    rw [foldl_cons, ih, tally]
    by_cases hcounted : counted i
    · by_cases hb : bucket i = b
      · simp [hcounted, hb, add_assoc]
      · simp [hcounted, hb, Ne.symm hb]
    · simp [hcounted]

end tally

theorem foldl_only {ι σ : Type} {f : σ → ι → σ} {items : List ι} {b : ι} (hnodup : items.Nodup)
    (hmem : b ∈ items) (hother : ∀ i ∈ items, i ≠ b → ∀ s, f s i = s) (s : σ) :
    items.foldl f s = f s b := by
  have hidle : ∀ (l : List ι) (s : σ), (∀ i ∈ l, ∀ s, f s i = s) → l.foldl f s = s := by
    intro l s hl
    induction l with
    | nil => rfl
    | cons i l ih =>
      rw [foldl_cons, hl i mem_cons_self]
      exact ih fun j hj => hl j (mem_cons_of_mem _ hj)
  obtain ⟨pre, post, rfl⟩ := append_of_mem hmem
  have hparts := nodup_append.mp hnodup
  have hnotin : ∀ i ∈ pre, i ≠ b := fun i hi =>
    hparts.2.2 i hi b mem_cons_self
  have hpost : b ∉ post := (nodup_cons.mp hparts.2.1).1
  rw [foldl_append, hidle pre s fun i hi => hother i (mem_append_left _ hi) (hnotin i hi)]
  exact hidle post _ fun i hi => hother i
    (mem_append_right _ (mem_cons_of_mem _ hi)) fun h => hpost (h ▸ hi)

end LongCtxSpecDecode.Library
