import Mathlib

/-!
# Programs that store

What a launch of many small programs leaves in memory. A launch is the list of its stores, in the
order in which they happen to be executed. The offsets of a program come in tiles, and its sums are
accumulated in loops.
-/

namespace LongCtxSpecDecode.Library.Stores

open List

variable {α : Type} {stores : List (Nat × α)} {mem : Nat → α} {a : Nat}

def storeAll (stores : List (Nat × α)) (mem : Nat → α) : Nat → α :=
  stores.foldl (fun mem store => Function.update mem store.1 store.2) mem

theorem storeAll_of_notMem (h : a ∉ stores.map Prod.fst) : storeAll stores mem a = mem a := by
  unfold storeAll
  induction stores generalizing mem with
  | nil => rfl
  | cons store stores ih =>
    rw [map_cons, mem_cons, not_or] at h
    rw [foldl_cons, ih h.2, Function.update_of_ne h.1]

theorem storeAll_of_mem {x : α} (hmem : a ∈ stores.map Prod.fst)
    (h : ∀ store ∈ stores, store.1 = a → store.2 = x) : storeAll stores mem a = x := by
  induction stores generalizing mem with
  | nil => cases hmem
  | cons store stores ih =>
    rw [storeAll, foldl_cons, ← storeAll]
    by_cases hrest : a ∈ stores.map Prod.fst
    · exact ih hrest fun store hstore => h store (mem_cons_of_mem _ hstore)
    · grind [storeAll_of_notMem]

theorem storeAll_apply {v : Nat → α} (h : ∀ store ∈ stores, store.2 = v store.1) :
    storeAll stores mem a = if a ∈ stores.map Prod.fst then v a else mem a := by
  by_cases hmem : a ∈ stores.map Prod.fst
  · rw [if_pos hmem]
    refine storeAll_of_mem hmem fun store hstore haddress => ?_
    rw [h store hstore, haddress]
  · rw [if_neg hmem, storeAll_of_notMem hmem]

theorem storeAll_append (stores stores' : List (Nat × α)) (mem : Nat → α) :
    storeAll (stores ++ stores') mem = storeAll stores' (storeAll stores mem) := by
  unfold storeAll
  rw [foldl_append]

theorem storeAll_congr {mem' : Nat → α} (h : mem a = mem' a) :
    storeAll stores mem a = storeAll stores mem' a := by
  unfold storeAll
  induction stores generalizing mem mem' with
  | nil => exact h
  | cons store stores ih =>
    rw [foldl_cons, foldl_cons]
    apply ih
    rw [Function.update_apply, Function.update_apply, h]

theorem storeAll_flatMap {program : Nat → List (Nat × α)} {programs : List Nat} {b : Nat}
    (hnodup : programs.Nodup) (hb : b ∈ programs)
    (hother : ∀ b' ∈ programs, b' ≠ b → a ∉ (program b').map Prod.fst) :
    storeAll (programs.flatMap program) mem a = storeAll (program b) mem a := by
  obtain ⟨before, after, rfl⟩ := append_of_mem hb
  have hne : b ∉ before ∧ b ∉ after := by
    have hsplit := nodup_middle.mp hnodup
    rw [nodup_cons, mem_append, not_or] at hsplit
    exact hsplit.1
  have hnone : ∀ part : List Nat, (∀ b' ∈ part, b' ∈ before ++ b :: after) → b ∉ part →
      ∀ mem : Nat → α, storeAll (part.flatMap program) mem a = mem a := by
    grind [storeAll_of_notMem]
  rw [flatMap_append, flatMap_cons, storeAll_append, storeAll_append,
    hnone after (fun b' h => by simp [h]) hne.2]
  exact storeAll_congr (hnone before (fun b' h => by simp [h]) hne.1 mem)

theorem flat_inj {n row row' i i' : Nat} (hi : i < n) (hi' : i' < n)
    (h : row * n + i = row' * n + i') : row = row' ∧ i = i' := by
  have hdiv := congrArg (· / n) h
  have hmod := congrArg (· % n) h
  have hn : 0 < n := by omega
  simp only [Nat.mul_add_mod_self_right, Nat.mod_eq_of_lt hi, Nat.mod_eq_of_lt hi'] at hmod
  simp only [Nat.add_comm (_ * n), Nat.add_mul_div_right _ _ hn, Nat.div_eq_of_lt hi,
    Nat.div_eq_of_lt hi', Nat.zero_add] at hdiv
  exact ⟨hdiv, hmod⟩

theorem flatMap_range_tiles (k size : Nat) :
    (range k).flatMap (fun tile => (range size).map (tile * size + ·)) =
      range (k * size) := by
  induction k with
  | zero => simp
  | succ k ih =>
    rw [range_succ, flatMap_append, ih, flatMap_singleton, Nat.succ_mul,
      range_add]

/-- The offsets of `for i in range(0, n, size): block = i + arange(size)` with the mask
`block < n`. -/
def tileOffsets (size n : Nat) : List Nat :=
  ((range ((n + size - 1) / size)).flatMap fun tile =>
    (range size).map (tile * size + ·)).filter (· < n)

theorem mem_tileOffsets {size n i : Nat} (hsize : 0 < size) : i ∈ tileOffsets size n ↔ i < n := by
  unfold tileOffsets
  rw [flatMap_range_tiles, mem_filter, mem_range, decide_eq_true_iff]
  have hround := Nat.lt_div_mul_add hsize (a := n + size - 1)
  omega

/-- The least power of two that is not below `n`. -/
def nextPowerOf2 (n : Nat) : Nat := 2 ^ Nat.clog 2 n

theorem le_nextPowerOf2 (n : Nat) : n ≤ nextPowerOf2 n := Nat.le_pow_clog (by decide) n

theorem nextPowerOf2_pos (n : Nat) : 0 < nextPowerOf2 n := Nat.two_pow_pos _

section sums

variable {M : Type} [AddCommMonoid M] (f : Nat → M)

theorem foldl_range_add (n : Nat) (a : M) :
    (range n).foldl (fun acc i => acc + f i) a = a + ∑ i ∈ Finset.range n, f i := by
  induction n with
  | zero => simp
  | succ n ih =>
    rw [range_succ, foldl_append, ih, foldl_cons, foldl_nil,
      Finset.sum_range_succ, add_assoc]

theorem sum_range_tiles (k size : Nat) :
    ∑ tile ∈ Finset.range k, ∑ i ∈ Finset.range size, f (tile * size + i) =
      ∑ i ∈ Finset.range (k * size), f i := by
  induction k with
  | zero => simp
  | succ k ih => rw [Finset.sum_range_succ, ih, Nat.succ_mul, Finset.sum_range_add]

end sums

end LongCtxSpecDecode.Library.Stores
