import Mathlib

/-!
# Ragged arrays

Rows of different lengths are stored one after the other in a flat array. The start of a row is
the sum of the lengths before it.
-/

namespace LongCtxSpecDecode.Library.Ragged

open List

variable {α : Type}

def cumsum (lens : List Nat) : List Nat :=
  (range lens.length).map fun i => (lens.take (i + 1)).sum

def rowStart (lens : List Nat) (i : Nat) : Nat := (lens.take i).sum

/-- `np.repeat(values, lens)`. -/
def repeatEach (values lens : List Nat) : List Nat :=
  (zipWith (fun value n => replicate n value) values lens).flatten

/-- The offset of each entry in its row: an arange minus the repeated starts of the rows. -/
def arange (lens : List Nat) : List Nat :=
  zipWith (· - ·) (range ((cumsum lens).getLastD 0))
    (repeatEach (zipWith (· - ·) (cumsum lens) lens) lens)

/-- `np.repeat(starts, lens)` plus the offset in each row. -/
def repeatArange (starts lens : List Nat) : List Nat :=
  zipWith (· + ·) (repeatEach starts lens) (arange lens)

@[simp] theorem rowStart_zero (lens : List Nat) : rowStart lens 0 = 0 := rfl

theorem rowStart_succ (lens : List Nat) (i : Nat) :
    rowStart lens (i + 1) = rowStart lens i + lens.getD i 0 := by
  unfold rowStart
  rw [take_add_one]
  cases h : lens[i]? <;> simp [h]

variable {i k : Nat} {lens : List Nat}

theorem rowStart_mono (lens : List Nat) {j : Nat} (h : i ≤ j) :
    rowStart lens i ≤ rowStart lens j := by
  induction h with
  | refl => exact Nat.le_refl _
  | step _ ih =>
    rw [rowStart_succ]
    exact Nat.le_trans ih (Nat.le_add_right ..)

theorem eq_replicate_of_sum {n : Nat} (hle : ∀ len ∈ lens, len ≤ n)
    (hsum : lens.length * n = lens.sum) : lens = replicate lens.length n := by
  have hbound : ∀ lens : List Nat, (∀ len ∈ lens, len ≤ n) → lens.sum ≤ lens.length * n := by
    intro lens hle
    induction lens with
    | nil => exact Nat.zero_le _
    | cons len lens ih =>
      grind [mem_cons_self, Nat.succ_mul]
  induction lens with
  | nil => rfl
  | cons len lens ih =>
    grind [mem_cons_self, Nat.succ_mul]

theorem rowStart_replicate (count n : Nat) (hi : i ≤ count) :
    rowStart (replicate count n) i = i * n := by
  unfold rowStart
  rw [take_replicate, sum_replicate_nat, Nat.min_eq_left hi]

theorem cumsum_getD (lens : List Nat) (hi : i < lens.length) :
    (cumsum lens).getD i 0 = rowStart lens (i + 1) := by
  simp [cumsum, rowStart, hi]

theorem cumsum_pred (lens : List Nat) (hi : i < lens.length) :
    (if i = 0 then 0 else (cumsum lens).getD (i - 1) 0) = rowStart lens i := by
  cases i with
  | zero => rfl
  | succ i =>
    exact cumsum_getD lens (by omega)

theorem getD_flatten (rows : List (List α)) (i k : Nat) (default : α)
    (hk : k < (rows.getD i []).length) :
    rows.flatten.getD (rowStart (rows.map length) i + k) default =
      (rows.getD i []).getD k default := by
  induction rows generalizing i with
  | nil =>
    simp at hk
  | cons row rows ih =>
    cases i with
    | zero =>
      rw [rowStart_zero, Nat.zero_add]
      exact getD_append row _ default k hk
    | succ i =>
      have hstart : rowStart ((row :: rows).map length) (i + 1) =
          row.length + rowStart (rows.map length) i := rfl
      rw [hstart, flatten_cons, Nat.add_assoc,
        getD_append_right row _ default _ (Nat.le_add_right ..),
        Nat.add_sub_cancel_left]
      exact ih i hk

theorem rowStart_add_lt (hk : k < lens.getD i 0) : rowStart lens i + k < lens.sum := by
  have hsplit : lens.sum = rowStart lens (i + 1) + (lens.drop (i + 1)).sum := by
    unfold rowStart
    rw [← sum_append, take_append_drop]
  rw [hsplit, rowStart_succ]
  omega

theorem row_eq_of_rowStart_add {i' k' : Nat} (hk : k < lens.getD i 0) (hk' : k' < lens.getD i' 0)
    (h : rowStart lens i + k = rowStart lens i' + k') : i = i' := by
  have hsucc := rowStart_succ lens i
  have hsucc' := rowStart_succ lens i'
  rcases Nat.lt_trichotomy i i' with hlt | heq | hlt
  · have hmono := rowStart_mono lens (show i + 1 ≤ i' from hlt)
    omega
  · exact heq
  · have hmono := rowStart_mono lens (show i' + 1 ≤ i from hlt)
    omega

variable {l : List α}

theorem getD_map_of_lt {β : Type} (f : α → β) (hk : k < l.length) (default : α) (default' : β) :
    (l.map f).getD k default' = f (l.getD k default) := by
  rw [getD_eq_getElem _ _ hk, getD_eq_getElem _ _ (by simpa using hk), getElem_map]

theorem getD_zipWith_sub {l l' : List Nat} (hi : i < l.length) (hi' : i < l'.length) :
    (zipWith (· - ·) l l').getD i 0 = l.getD i 0 - l'.getD i 0 := by
  rw [getD_eq_getElem _ _ hi, getD_eq_getElem _ _ hi',
    getD_eq_getElem _ _ (by rw [length_zipWith]; omega), getElem_zipWith]

@[simp] theorem cumsum_length (lens : List Nat) : (cumsum lens).length = lens.length := by
  simp [cumsum]

theorem zipWith_cumsum (lens : List Nat) :
    zipWith (· - ·) (cumsum lens) lens = (range lens.length).map (rowStart lens) := by
  refine ext_getElem (by simp) fun i hi hi' => ?_
  have hi : i < lens.length := by simpa using hi
  rw [getElem_zipWith, getElem_map, getElem_range, ← getD_eq_getElem _ 0,
    cumsum_getD lens hi, rowStart_succ, getD_eq_getElem _ _ hi, Nat.add_sub_cancel]

theorem cumsum_getLastD (lens : List Nat) : (cumsum lens).getLastD 0 = lens.sum := by
  rw [getLastD_eq_getLast?, getLast?_eq_getElem?, cumsum_length, ← getD_eq_getElem?_getD]
  cases lens with
  | nil => rfl
  | cons n lens =>
    rw [cumsum_getD _ (by simp), rowStart, take_of_length_le (by simp)]

theorem zipWith_repeatEach {starts : List Nat} (h : starts.length = lens.length) (offset : Nat) :
    zipWith (· + ·) (repeatEach starts lens) (zipWith (· - ·) (range' offset lens.sum)
        (repeatEach ((range lens.length).map (offset + rowStart lens ·)) lens)) =
      (zipWith (fun start n => (range n).map (start + ·)) starts lens).flatten := by
  induction starts generalizing lens offset with
  | nil =>
    rw [eq_nil_of_length_eq_zero h.symm]
    rfl
  | cons start starts ih =>
    cases lens with
    | nil => cases h
    | cons n lens =>
      have hstarts : ((range (n :: lens).length).map (offset + rowStart (n :: lens) ·)) =
          offset :: (range lens.length).map (offset + n + rowStart lens ·) := by
        rw [length_cons, range_succ_eq_map, map_cons, map_map]
        refine congrArg _ (map_congr_left fun i _ => ?_)
        exact (Nat.add_assoc ..).symm
      have hrest := ih (Nat.succ.inj h) (offset + n)
      have hcons : ∀ v vs, repeatEach (v :: vs) (n :: lens) = replicate n v ++ repeatEach vs lens :=
        fun _ _ => rfl
      rw [hstarts, sum_cons, ← range'_append_1, hcons, hcons, zipWith_append (by simp),
        zipWith_append (by simp), hrest, zipWith_cons_cons, flatten_cons]
      congr 1
      exact ext_getElem (by simp) fun i hi hi' => by simp

theorem repeatArange_eq {starts : List Nat} (h : starts.length = lens.length) :
    repeatArange starts lens =
      (zipWith (fun start n => (range n).map (start + ·)) starts lens).flatten := by
  have hzero : rowStart lens = fun i => 0 + rowStart lens i := funext fun i => (Nat.zero_add _).symm
  rw [← zipWith_repeatEach h 0, ← range_eq_range', repeatArange, arange, cumsum_getLastD,
    zipWith_cumsum, ← hzero]

theorem map_length_rows {starts : List Nat} (h : starts.length = lens.length) :
    (zipWith (fun start n => (range n).map (start + ·)) starts lens).map length = lens := by
  apply ext_getElem
  · simp [h]
  · intro j hj hj'
    simp

theorem repeatArange_length {starts : List Nat} (h : starts.length = lens.length) :
    (repeatArange starts lens).length = lens.sum := by
  rw [repeatArange_eq h, length_flatten, map_length_rows h]

theorem getD_repeatArange {starts : List Nat} (h : starts.length = lens.length)
    (hi : i < lens.length) (hk : k < lens.getD i 0) :
    (repeatArange starts lens).getD (rowStart lens i + k) 0 = starts.getD i 0 + k := by
  have hrow : (zipWith (fun start n => (range n).map (start + ·)) starts lens).getD i [] =
      (range (lens.getD i 0)).map (starts.getD i 0 + ·) := by
    simp [hi, h ▸ hi]
  have hget := getD_flatten (zipWith (fun start n => (range n).map (start + ·)) starts lens)
    i k 0 (by rw [hrow]; simpa using hk)
  rw [map_length_rows h, hrow] at hget
  rw [repeatArange_eq h, hget, getD_eq_getElem _ _ (by simpa using hk)]
  simp

theorem repeatArange_map (starts : Nat → Nat) (lens : List Nat) :
    repeatArange ((range lens.length).map starts) lens =
      (range lens.length).flatMap fun i => (range (lens.getD i 0)).map (starts i + ·) := by
  rw [repeatArange_eq (by simp)]
  refine congrArg flatten (ext_getElem (by simp) fun i hi hi' => ?_)
  have hi : i < lens.length := by simpa using hi
  rw [getElem_zipWith, getElem_map, getElem_map, getElem_range,
    getD_eq_getElem _ _ hi]

theorem flatMap_rows (lens : List Nat) (count : Nat) :
    (range count).flatMap (fun i => (range (lens.getD i 0)).map (rowStart lens i + ·)) =
      range (rowStart lens count) := by
  induction count with
  | zero => rfl
  | succ count ih =>
    rw [range_succ, flatMap_append, ih, rowStart_succ, range_add,
      flatMap_singleton]

/-- Rows with one more entry: the last entries and the others are all entries. -/
theorem rows_succ_perm (lens : List Nat) :
    ((range lens.length).flatMap (fun i =>
        (range (lens.getD i 0)).map (rowStart (lens.map (· + 1)) i + ·)) ++
      (range lens.length).map fun i => rowStart (lens.map (· + 1)) i + lens.getD i 0).Perm
      (range (lens.map (· + 1)).sum) := by
  have hsum : (lens.map (· + 1)).sum = rowStart (lens.map (· + 1)) lens.length := by
    rw [rowStart, take_of_length_le (by simp)]
  have hget : ∀ i ∈ range lens.length, (lens.map (· + 1)).getD i 0 = lens.getD i 0 + 1 :=
    fun i hi => getD_map_of_lt _ (mem_range.mp hi) 0 0
  generalize lens.map (· + 1) = sampled at hsum hget ⊢
  rw [hsum, ← flatMap_rows, map_eq_flatMap]
  refine (flatMap_append_perm ..).trans (Perm.of_eq (flatMap_congr fun i hi => ?_))
  rw [hget i hi, range_succ, map_append]
  rfl

theorem getElem?_flatten (rows : List (List α)) {row : List α} (hi : rows[i]? = some row)
    (hk : k < row.length) : rows.flatten[rowStart (rows.map length) i + k]? = row[k]? := by
  induction rows generalizing i with
  | nil => cases hi
  | cons first rows ih =>
    cases i with
    | zero =>
      cases hi
      rw [rowStart_zero, Nat.zero_add]
      exact getElem?_append_left hk
    | succ i =>
      grind [rowStart]

theorem map_repeat {β : Type} (l : List α) (len : α → Nat) (f : α → β) (default : β) :
    ((range l.length).flatMap fun i => replicate ((l.map len).getD i 0) i).map
        ((l.map f).getD · default) =
      l.flatMap fun a => replicate (len a) (f a) := by
  induction l with
  | nil => rfl
  | cons a l ih =>
    rw [length_cons, range_succ_eq_map, flatMap_cons, map_append,
      flatMap_cons, ← ih, flatMap_map, map_flatMap, map_flatMap]
    congr 1
    · simp
    · simp

/-! ### Rows by index -/

theorem mapIdx_eq_self {g : Nat → α → α} (hg : ∀ k a, g k a = a) : l.mapIdx g = l := by
  refine mapIdx_eq_iff.mpr fun k => ?_
  rw [show g k = id from funext (hg k), Option.map_id_fun, id]

theorem set_eq_mapIdx {a : α} (hi : l[i]? = some a) (f : α → α) :
    l.set i (f a) = l.mapIdx fun k b => if k = i then f b else b := by
  refine (mapIdx_eq_iff.mpr fun k => ?_).symm
  rw [getElem?_set]
  by_cases hk : i = k
  · subst hk
    rw [hi, if_pos (List.getElem?_eq_some_iff.mp hi).1]
    simp
  · simp [hk, Ne.symm hk]

theorem lt_length_of_getD {j : Nat} (hj : j < lens.getD i 0) : i < lens.length := by
  by_contra hge
  rw [getD_eq_default _ _ (Nat.le_of_not_lt hge)] at hj
  exact Nat.not_lt_zero j hj

section write

variable {lens : List Nat}

/-- Entry `t` of a row with `n` entries is written. -/
def writeEntry (start n : Nat) (f : Nat → α) (out : Nat → α) (t : Nat) : Nat → α :=
  if t < n then Function.update out (start + t) (f t) else out

theorem foldl_writeEntry (start n : Nat) (f : Nat → α) (out : Nat → α) (count y : Nat) :
    (range count).foldl (writeEntry start n f) out y =
      if start ≤ y ∧ y < start + min count n then f (y - start) else out y := by
  induction count with
  | zero =>
    rw [if_neg (by omega)]
    rfl
  | succ count ih =>
    rw [range_succ, foldl_append, foldl_cons, foldl_nil]
    unfold writeEntry at ih ⊢
    by_cases hcount : count < n
    · grind
    · rw [if_neg hcount, ih]
      exact if_congr (by omega) rfl rfl

/-- A launch on a grid of rows and places in which each program writes its entry: the entries of
the rows that have run are written, and no other entry of a row. -/
theorem foldl_writeRows {program : Nat → (Nat → α) → Nat → Nat → α} {f : Nat → Nat → α}
    {width : Nat}
    (hprogram : ∀ i < lens.length, program i = writeEntry (rowStart lens i) (lens.getD i 0) (f i))
    (hlens : ∀ i, lens.getD i 0 ≤ width) (out : Nat → α) {i j : Nat} (hj : j < lens.getD i 0)
    (count : Nat) (hcount : count ≤ lens.length) :
    (range count).foldl (fun out i => (range width).foldl (program i) out) out
        (rowStart lens i + j) =
      if i < count then f i j else out (rowStart lens i + j) := by
  induction count with
  | zero => rfl
  | succ count ih =>
    rw [range_succ, foldl_append, foldl_cons, foldl_nil,
      hprogram count hcount, foldl_writeEntry, ih (Nat.le_of_succ_le hcount),
      Nat.min_eq_right (hlens count)]
    have hsucc := rowStart_succ lens i
    have hsucc' := rowStart_succ lens count
    rcases Nat.lt_trichotomy i count with hlt | rfl | hlt
    · have hmono := rowStart_mono lens (show i + 1 ≤ count from hlt)
      rw [if_neg (by omega), if_pos hlt, if_pos (by omega)]
    · rw [if_pos (by omega), if_pos (Nat.lt_succ_self i), Nat.add_sub_cancel_left]
    · have hmono := rowStart_mono lens (show count + 1 ≤ i from hlt)
      rw [if_neg (by omega), if_neg (by omega), if_neg (by omega)]

theorem start_eq_rowStart {i : Nat} (hi : i < lens.length) :
    (if i > 0 then (cumsum lens).getD (i - 1) 0 else 0) = rowStart lens i := by
  rw [← cumsum_pred lens hi]
  by_cases hzero : i = 0
  · simp [hzero]
  · simp [hzero]

theorem cumsum_sub_rowStart {i : Nat} (hi : i < lens.length) :
    (cumsum lens).getD i 0 - rowStart lens i = lens.getD i 0 := by
  rw [cumsum_getD lens hi, rowStart_succ, Nat.add_sub_cancel_left]

end write

end LongCtxSpecDecode.Library.Ragged
