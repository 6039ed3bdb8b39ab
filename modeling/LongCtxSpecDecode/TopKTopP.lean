import LongCtxSpecDecode.Library.Softmax
import LongCtxSpecDecode.LogitsConstraints

/-!
# Top-k and top-p

`apply_top_k_top_p` of `v1/sample/ops/topk_topp_sampler.py` in exact arithmetic. A row of the batch
is filtered by its own `k` and `p`, whatever those of the other rows are.
-/

namespace LongCtxSpecDecode

open Library.Ragged Library.Softmax List

def vocab (n : Nat) : List Token := (range n).map fun i : Nat => (i : Int)

theorem length_vocab (n : Nat) : (vocab n).length = n := by
  rw [vocab, length_map, length_range]

/-- `logits.sort(dim=-1)` on a vocabulary of `n` tokens, whatever it does with ties. -/
structure TorchSort (n : Nat) where
  idx : LogitsRow ℝ → List Token
  perm : ∀ row, (idx row).Perm (vocab n)
  sorted : ∀ row, ((idx row).map row).Pairwise (· ≤ ·)
  congr : ∀ {row row'}, (∀ t ∈ vocab n, row t = row' t) → idx row = idx row'

namespace TorchSort

variable {n : Nat} (sort : TorchSort n)

/-- `logits_sort`. -/
def values (row : LogitsRow ℝ) : List (WithBot ℝ) := (sort.idx row).map row

/-- The values of `logits.topk(m)`. -/
def topk (m : Nat) (row : LogitsRow ℝ) : List (WithBot ℝ) := (sort.values row).reverse.take m

end TorchSort

/-- `masked_fill_` of the entries below a threshold. -/
noncomputable def maskBelow (threshold x : WithBot ℝ) : WithBot ℝ := if x < threshold then ⊥ else x

/-- `apply_top_k_only`. The rows without a top-k are gathered at their largest value. -/
noncomputable def applyTopKOnly {n : Nat} (sort : TorchSort n) (logits : List (LogitsRow ℝ))
    (k : List Nat) : List (LogitsRow ℝ) :=
  let noTopKMask := k.map (· == n)
  let k := k.map fun k => if k = n then 1 else k
  let maxTopK := k.foldr max 0
  let kIndex := k.map (· - 1)
  logits.mapIdx fun i row =>
    let gathered := (sort.topk maxTopK row).getD (kIndex.getD i 0) ⊥
    let topKMask := if noTopKMask.getD i false then ⊥ else gathered
    fun t => maskBelow topKMask (row t)

noncomputable def softmaxList (values : List (WithBot ℝ)) : List ℝ :=
  values.map fun x => weight x / (values.map weight).sum

noncomputable def sortedTopK (n : Nat) (k : Option Nat) (values : List (WithBot ℝ)) :
    List (WithBot ℝ) :=
  match k with
  | none => values
  | some k => values.map (maskBelow (values.getD (n - k) ⊥))

noncomputable def sortedTopP (p : ℝ) (values : List (WithBot ℝ)) : List (WithBot ℝ) :=
  let probsSort := softmaxList values
  values.mapIdx fun i x =>
    if (probsSort.take (i + 1)).sum ≤ 1 - p ∧ i + 1 ≠ values.length then ⊥ else x

/-- `apply_top_k_top_p` with a top-p, one row. -/
noncomputable def topKTopPRow {n : Nat} (sort : TorchSort n) (k : Option Nat) (p : ℝ)
    (row : LogitsRow ℝ) : LogitsRow ℝ :=
  let logitsSort := sortedTopP p (sortedTopK n k (sort.values row))
  fun t => logitsSort.getD ((sort.idx row).idxOf t) ⊥

noncomputable def applyTopKTopP {n : Nat} (sort : TorchSort n) (logits : List (LogitsRow ℝ))
    (k : Option (List Nat)) (p : Option (List ℝ)) : List (LogitsRow ℝ) :=
  match p, k with
  | none, none => logits
  | none, some k => applyTopKOnly sort logits k
  | some p, k => logits.mapIdx fun i => topKTopPRow sort (k.map (·.getD i 0)) (p.getD i 0)

/-! A row keeps what its own `k` and `p` leave. -/

section masks

theorem softmaxList_nonneg (values : List (WithBot ℝ)) : ∀ x ∈ softmaxList values, 0 ≤ x := by
  intro x hx
  obtain ⟨v, -, rfl⟩ := mem_map.mp hx
  refine div_nonneg (weight_nonneg v) (sum_nonneg ?_)
  exact forall_mem_map.mpr fun u _ => weight_nonneg u

variable {values : List (WithBot ℝ)}

theorem eq_bot_of_sum_le {i : Nat} {x : WithBot ℝ} (hi : values[i]? = some x)
    (h : ((softmaxList values).take (i + 1)).sum ≤ 0) : x = ⊥ := by
  have hmem : weight x / (values.map weight).sum ∈ (softmaxList values).take (i + 1) := by
    refine mem_iff_getElem?.mpr ⟨i, ?_⟩
    rw [getElem?_take_of_lt (Nat.lt_succ_self i)]
    unfold softmaxList
    rw [getElem?_map, hi]
    rfl
  have hzero : weight x / (values.map weight).sum ≤ 0 := by
    refine le_trans (single_le_sum ?_ _ hmem) h
    exact fun y hy => softmaxList_nonneg values y (mem_of_mem_take hy)
  have hle : weight x ≤ (values.map weight).sum :=
    single_le_sum (forall_mem_map.mpr fun u _ => weight_nonneg u) _
      (mem_map_of_mem (mem_of_getElem? hi))
  by_contra hx
  have hpos : 0 < weight x := (weight_nonneg x).lt_of_ne' (mt weight_eq_zero.mp hx)
  exact absurd hzero (not_le.mpr (div_pos hpos (hpos.trans_le hle)))

theorem sortedTopP_one (values : List (WithBot ℝ)) : sortedTopP 1 values = values := by
  unfold sortedTopP
  refine ext_getElem? fun i => ?_
  rw [getElem?_mapIdx]
  cases hi : values[i]? with
  | none => rfl
  | some x =>
    grind [eq_bot_of_sum_le]

theorem maskBelow_of_le {threshold x : WithBot ℝ} (h : threshold ≤ x) : maskBelow threshold x = x :=
  if_neg (not_lt.mpr h)

theorem map_maskBelow_head (h : values.Pairwise (· ≤ ·)) :
    values.map (maskBelow (values.getD 0 ⊥)) = values := by
  cases values with
  | nil => rfl
  | cons x values =>
    have hle := (pairwise_cons.mp h).1
    refine (map_congr_left fun y hy => ?_).trans (map_id _)
    rcases mem_cons.mp hy with rfl | hy
    · exact maskBelow_of_le le_rfl
    · exact maskBelow_of_le (hle y hy)

end masks

section row

variable {n : Nat} (sort : TorchSort n) (row : LogitsRow ℝ)

theorem length_values : (sort.values row).length = n := by
  rw [TorchSort.values, length_map, (sort.perm row).length_eq, length_vocab]

theorem topKTopPRow_none (p : ℝ) :
    topKTopPRow sort none p row = topKTopPRow sort (some n) p row := by
  have hall : sortedTopK n (some n) (sort.values row) = sort.values row := by
    unfold sortedTopK
    dsimp only
    rw [Nat.sub_self]
    exact map_maskBelow_head (sort.sorted row)
  unfold topKTopPRow
  rw [hall]
  rfl

variable {t : Token} (ht : t ∈ vocab n)

include ht

theorem values_idxOf : (sort.values row)[(sort.idx row).idxOf t]? = some (row t) := by
  have hlt := idxOf_lt_length_of_mem ((sort.perm row).mem_iff.mpr ht)
  unfold TorchSort.values
  rw [getElem?_map, getElem?_eq_getElem hlt, getElem_idxOf hlt]
  rfl

theorem topKTopPRow_one (k : Nat) : topKTopPRow sort (some k) 1 row t =
    maskBelow ((sort.values row).getD (n - k) ⊥) (row t) := by
  unfold topKTopPRow
  rw [sortedTopP_one]
  unfold sortedTopK
  rw [getD_eq_getElem?_getD, getElem?_map, values_idxOf sort row ht]
  rfl

theorem topKTopPRow_id : topKTopPRow sort none 1 row t = row t := by
  unfold topKTopPRow
  rw [sortedTopP_one]
  exact congrArg (·.getD ⊥) (values_idxOf sort row ht)

end row

theorem getD_topk {n : Nat} (sort : TorchSort n) (row : LogitsRow ℝ) {k m : Nat} (hpos : 0 < k)
    (hle : k ≤ n) (hm : k ≤ m) :
    (sort.topk m row).getD (k - 1) ⊥ = (sort.values row).getD (n - k) ⊥ := by
  have hlen := length_values sort row
  rw [TorchSort.topk, getD_eq_getElem?_getD, getD_eq_getElem?_getD, getElem?_take_of_lt (by omega),
    getElem?_reverse (by omega), hlen, show n - 1 - (k - 1) = n - k by omega]

theorem applyTopKOnly_row {n : Nat} (sort : TorchSort n) {logits : List (LogitsRow ℝ)}
    {ks : List Nat} {i : Nat} (hpos : 0 < ks.getD i 0) (hle : ks.getD i 0 ≤ n) {row : LogitsRow ℝ}
    (hi : logits[i]? = some row) :
    ∃ row', (applyTopKOnly sort logits ks)[i]? = some row' ∧
      ∀ t ∈ vocab n, row' t = topKTopPRow sort (some (ks.getD i 0)) 1 row t := by
  refine ⟨_, (getElem?_mapIdx ..).trans (by rw [hi]; rfl), fun t ht => ?_⟩
  obtain ⟨k, hk⟩ : ∃ k, ks[i]? = some k := by
    cases hget : ks[i]? with
    | none =>
      rw [getD_eq_getElem?_getD, hget] at hpos
      exact absurd hpos (Nat.lt_irrefl 0)
    | some k => exact ⟨k, rfl⟩
  have hget : ks.getD i 0 = k := by rw [getD_eq_getElem?_getD, hk, Option.getD_some]
  rw [hget] at hpos hle ⊢
  simp only [getD_eq_getElem?_getD, getElem?_map, hk, Option.map_some, Option.getD_some, beq_iff_eq]
  by_cases hall : k = n
  · rw [if_pos hall, hall, ← topKTopPRow_none, topKTopPRow_id sort row ht]
    exact maskBelow_of_le bot_le
  · -- the largest `k` of the call covers that of the row
    have hmax : k ≤ (ks.map fun k => if k = n then 1 else k).foldr max 0 := by
      refine le_max_of_le' 0 (mem_map.mpr ⟨k, mem_of_getElem? hk, ?_⟩) le_rfl
      rw [if_neg hall]
    rw [if_neg hall, if_neg hall, ← getD_eq_getElem?_getD, getD_topk sort row hpos hle hmax,
      topKTopPRow_one sort row ht]

theorem applyTopKTopP_row {n : Nat} (sort : TorchSort n) {logits : List (LogitsRow ℝ)}
    (ks : List Nat) (ps : List ℝ) {k : Option (List Nat)} {p : Option (List ℝ)} {i : Nat}
    (hpos : 0 < ks.getD i 0) (hle : ks.getD i 0 ≤ n)
    (hk : k = some ks ∨ k = none ∧ ks.getD i 0 = n)
    (hp : p = some ps ∨ p = none ∧ ps.getD i 0 = 1) {row : LogitsRow ℝ}
    (hi : logits[i]? = some row) :
    ∃ row', (applyTopKTopP sort logits k p)[i]? = some row' ∧
      ∀ t ∈ vocab n, row' t = topKTopPRow sort (some (ks.getD i 0)) (ps.getD i 0) row t := by
  rcases hp with rfl | ⟨rfl, hp⟩
  · refine ⟨_, (getElem?_mapIdx ..).trans (by rw [hi]; rfl), fun t _ => ?_⟩
    rcases hk with rfl | ⟨rfl, hk⟩
    · rfl
    · rw [hk]
      exact congrFun (topKTopPRow_none sort row _) t
  · rw [hp]
    rcases hk with rfl | ⟨rfl, hk⟩
    · exact applyTopKOnly_row sort hpos hle hi
    · refine ⟨row, hi, fun t ht => ?_⟩
      rw [hk, ← topKTopPRow_none, topKTopPRow_id sort row ht]

/-! ### The shortest prefix that reaches `p` -/

noncomputable def mass (row : LogitsRow ℝ) (tokens : List Token) : ℝ :=
  (tokens.map fun t => weight (row t)).sum

section exact

variable {n : Nat} (sort : TorchSort n) (k : Nat) (row : LogitsRow ℝ)

/-- The `k`-th largest logit. -/
noncomputable def TorchSort.kth : WithBot ℝ := (sort.topk k row).getD (k - 1) ⊥

/-- The tokens that top-k leaves, in descending order. -/
noncomputable def TorchSort.order : List Token :=
  ((sort.idx row).filter fun t => sort.kth k row ≤ row t).reverse

variable {k}

theorem nodup_vocab (n : Nat) : (vocab n).Nodup :=
  nodup_range.map fun _ _ h => Int.ofNat.inj h

theorem kth_eq (hpos : 0 < k) (hle : k ≤ n) :
    sort.kth k row = (sort.values row).getD (n - k) ⊥ :=
  getD_topk sort row hpos hle le_rfl

theorem mass_nonneg (tokens : List Token) : 0 ≤ mass row tokens :=
  sum_nonneg (forall_mem_map.mpr fun t _ => weight_nonneg (row t))

theorem mass_append (l l' : List Token) : mass row (l ++ l') = mass row l + mass row l' := by
  rw [mass, map_append, sum_append]
  rfl

theorem mass_perm {l l' : List Token} (h : l.Perm l') : mass row l = mass row l' :=
  (h.map _).sum_eq

theorem mass_take_mono (order : List Token) {m m' : Nat} (h : m ≤ m') :
    mass row (order.take m) ≤ mass row (order.take m') := by
  have hsplit := (take_append_drop m (order.take m')).symm
  rw [take_take, Nat.min_eq_left h] at hsplit
  rw [hsplit, mass_append]
  exact le_add_of_nonneg_right (mass_nonneg _ _)

variable {row} {p : ℝ} {t : Token} {before after : List Token}

theorem filter_after (hidx : sort.idx row = before ++ t :: after) (ht : sort.kth k row ≤ row t) :
    after.filter (fun u => sort.kth k row ≤ row u) = after := by
  have hsorted := sort.sorted row
  rw [hidx, map_append, map_cons, pairwise_append, pairwise_cons] at hsorted
  refine filter_eq_self.mpr fun u hu => ?_
  simpa using ht.trans (hsorted.2.1.1 _ (mem_map_of_mem hu))

theorem order_split (hidx : sort.idx row = before ++ t :: after) (ht : sort.kth k row ≤ row t) :
    ∃ rest, sort.order k row = after.reverse ++ t :: rest := by
  refine ⟨(before.filter fun u => sort.kth k row ≤ row u).reverse, ?_⟩
  rw [TorchSort.order, hidx, filter_append, filter_cons_of_pos (by simpa using ht),
    filter_after sort hidx ht, reverse_append, reverse_cons, append_assoc]
  rfl

noncomputable def TorchSort.masked (k : Nat) (row : LogitsRow ℝ) : List (WithBot ℝ) :=
  (sort.values row).map (maskBelow (sort.kth k row))

theorem sum_weight_masked (k : Nat) (row : LogitsRow ℝ) (tokens : List Token) :
    (((tokens.map row).map (maskBelow (sort.kth k row))).map weight).sum =
      mass row (tokens.filter fun t => sort.kth k row ≤ row t) := by
  induction tokens with
  | nil => rfl
  | cons t tokens ih =>
    rw [map_cons, map_cons, map_cons, sum_cons, ih]
    by_cases ht : sort.kth k row ≤ row t
    · rw [maskBelow_of_le ht, filter_cons_of_pos (by simpa using ht)]
      rfl
    · rw [maskBelow, if_pos (not_le.mp ht), filter_cons_of_neg (by simpa using ht), weight_bot,
        zero_add]

section

variable (hidx : sort.idx row = before ++ t :: after) (hbot : row t ≠ ⊥)
  (ht : sort.kth k row ≤ row t)
include hidx hbot ht

theorem mass_order_pos : 0 < mass row (sort.order k row) := by
  obtain ⟨rest, horder⟩ := order_split sort hidx ht
  have hweight : 0 < weight (row t) := (weight_nonneg _).lt_of_ne' (mt weight_eq_zero.mp hbot)
  have hrest := mass_nonneg row rest
  have hafter := mass_nonneg row after.reverse
  rw [horder, mass_append]
  change 0 < _ + (weight (row t) + mass row rest)
  linarith

theorem cumsum_le_iff :
    ((softmaxList (sort.masked k row)).take (before.length + 1)).sum ≤ 1 - p ↔
      p ≤ mass row after / mass row (sort.order k row) := by
  have htotal : ((sort.masked k row).map weight).sum = mass row (sort.order k row) :=
    (sum_weight_masked sort k row _).trans (mass_perm row (reverse_perm _).symm)
  have hpos := mass_order_pos sort hidx hbot ht
  -- the sum up to the token is what the tokens behind it leave
  have hsum : ((softmaxList (sort.masked k row)).take (before.length + 1)).sum =
      (mass row (sort.order k row) - mass row after) / mass row (sort.order k row) := by
    have hmasked : sort.masked k row =
        (((before ++ [t]).map row).map (maskBelow (sort.kth k row))) ++
          (after.map row).map (maskBelow (sort.kth k row)) := by
      rw [TorchSort.masked, TorchSort.values, hidx, ← map_append, ← map_append, append_assoc]
      rfl
    have hafter := sum_weight_masked sort k row after
    rw [filter_after sort hidx ht] at hafter
    have hsplit := htotal
    rw [hmasked, map_append, sum_append, hafter] at hsplit
    rw [softmaxList, htotal, hmasked, map_append, take_left' (by simp), ← hsplit,
      add_sub_cancel_right, div_eq_mul_inv, ← sum_map_mul_right]
    simp only [div_eq_mul_inv]
  rw [hsum, div_le_iff₀ hpos, le_div_iff₀ hpos]
  constructor <;> intro h <;> linarith

end

theorem topKTopPRow_ne_bot_iff (hpos : 0 < k) (hle : k ≤ n) (hp : 0 < p)
    (hidx : sort.idx row = before ++ t :: after) (hbot : row t ≠ ⊥) :
    topKTopPRow sort (some k) p row t ≠ ⊥ ↔ sort.kth k row ≤ row t ∧
      mass row after / mass row (sort.order k row) < p := by
  have hnodup : (before ++ t :: after).Nodup := hidx ▸ (sort.perm row).nodup_iff.mpr (nodup_vocab n)
  have hidxOf : (sort.idx row).idxOf t = before.length := by
    have hnot : t ∉ before := fun h => (nodup_append.mp hnodup).2.2 t h t mem_cons_self rfl
    rw [hidx, idxOf_append_of_notMem hnot, idxOf_cons_self, Nat.add_zero]
  have hget : (sort.masked k row)[before.length]? = some (maskBelow (sort.kth k row) (row t)) := by
    simp [TorchSort.masked, TorchSort.values, hidx]
  have hrow : topKTopPRow sort (some k) p row t =
      if ((softmaxList (sort.masked k row)).take (before.length + 1)).sum ≤ 1 - p ∧
        before.length + 1 ≠ (sort.masked k row).length then ⊥
      else maskBelow (sort.kth k row) (row t) := by
    unfold topKTopPRow sortedTopK
    dsimp only
    rw [← kth_eq sort row hpos hle]
    change (sortedTopP p (sort.masked k row)).getD _ _ = _
    rw [sortedTopP, getD_eq_getElem?_getD, hidxOf, getElem?_mapIdx, hget]
    rfl
  rw [hrow]
  by_cases ht : sort.kth k row ≤ row t
  · have hcumsum := cumsum_le_iff (p := p) sort hidx hbot ht
    rw [maskBelow_of_le ht, and_iff_right ht]
    by_cases hq : p ≤ mass row after / mass row (sort.order k row)
    · have hlast : before.length + 1 ≠ (sort.masked k row).length := by
        intro hlast
        have hnil : after = [] := by
          simpa [TorchSort.masked, TorchSort.values, hidx] using hlast
        rw [hnil, mass, map_nil, sum_nil, zero_div] at hq
        exact absurd hp (not_lt.mpr hq)
      rw [if_pos ⟨hcumsum.mpr hq, hlast⟩]
      exact iff_of_false (fun h => h rfl) (not_lt.mpr hq)
    · rw [if_neg fun h => hq (hcumsum.mp h.1)]
      exact iff_of_true hbot (not_le.mp hq)
  · rw [maskBelow, if_pos (not_le.mp ht), ite_self]
    exact iff_of_false (fun h => h rfl) fun h => ht h.1

theorem topKTopPRow_exact (hfinite : ∀ t ∈ vocab n, row t ≠ ⊥) (hpos : 0 < k) (hle : k ≤ n)
    (hp : 0 < p) (hp1 : p ≤ 1) :
    ∃ m, p ≤ mass row ((sort.order k row).take m) / mass row (sort.order k row) ∧
      (∀ m' < m, mass row ((sort.order k row).take m') / mass row (sort.order k row) < p) ∧
      ∀ t ∈ vocab n, topKTopPRow sort (some k) p row t ≠ ⊥ ↔ t ∈ (sort.order k row).take m := by
  have hnodup : (sort.order k row).Nodup :=
    nodup_reverse.mpr (((sort.perm row).nodup_iff.mpr (nodup_vocab n)).filter _)
  have htotal : 0 < mass row (sort.order k row) := by
    have hlt : n - k < (sort.idx row).length := by
      rw [(sort.perm row).length_eq, length_vocab]
      omega
    have hmem := (sort.perm row).mem_iff.mp (getElem_mem hlt)
    have hidx : sort.idx row = (sort.idx row).take (n - k) ++
        (sort.idx row)[n - k] :: (sort.idx row).drop (n - k + 1) := by
      rw [← drop_eq_getElem_cons, take_append_drop]
    refine mass_order_pos sort hidx (hfinite _ hmem) ?_
    rw [kth_eq sort row hpos hle, TorchSort.values, getD_eq_getElem?_getD, getElem?_map,
      getElem?_eq_getElem hlt]
    exact le_rfl
  have hreach : ∃ m, p ≤ mass row ((sort.order k row).take m) / mass row (sort.order k row) := by
    refine ⟨(sort.order k row).length, ?_⟩
    rwa [take_length, div_self htotal.ne']
  classical
  refine ⟨Nat.find hreach, Nat.find_spec hreach, fun m hm => not_le.mp (Nat.find_min hreach hm),
    fun t ht => ?_⟩
  obtain ⟨before, after, hidx⟩ := append_of_mem ((sort.perm row).mem_iff.mpr ht)
  rw [topKTopPRow_ne_bot_iff sort hpos hle hp hidx (hfinite t ht)]
  by_cases hkept : sort.kth k row ≤ row t
  · obtain ⟨rest, horder⟩ := order_split sort hidx hkept
    have hmem : t ∈ sort.order k row := by
      rw [horder]
      exact mem_append_right _ mem_cons_self
    have hidxOf : (sort.order k row).idxOf t = after.length := by
      rw [horder] at hnodup ⊢
      have hnot : t ∉ after.reverse := fun h => (nodup_append.mp hnodup).2.2 t h t mem_cons_self rfl
      rw [idxOf_append_of_notMem hnot, idxOf_cons_self, length_reverse, Nat.add_zero]
    have hbefore : mass row after = mass row ((sort.order k row).take after.length) := by
      rw [horder, take_left' length_reverse]
      exact mass_perm row (reverse_perm _).symm
    rw [and_iff_right hkept, mem_take_iff_idxOf_lt hmem, hidxOf, hbefore, Nat.lt_find_iff]
    constructor
    · intro hlt m hm hreached
      have hmono := div_le_div_of_nonneg_right (mass_take_mono row (sort.order k row) hm) htotal.le
      exact absurd hlt (not_lt.mpr (hreached.trans hmono))
    · intro hall
      exact not_le.mp (hall _ le_rfl)
  · refine iff_of_false (fun h => hkept h.1) fun h => hkept ?_
    have hmem := mem_reverse.mp (mem_of_mem_take h)
    simpa using (mem_filter.mp hmem).2

end exact

/-- With `p = 1` the row is what the path for top-k alone leaves. -/
theorem applyTopKTopP_exact {n : Nat} (sort : TorchSort n) (logits : List (LogitsRow ℝ))
    (ks : List Nat) (ps : List ℝ) (i : Nat) (row : LogitsRow ℝ) (hrow : logits[i]? = some row)
    (hfinite : ∀ t ∈ vocab n, row t ≠ ⊥) (hpos : 0 < ks.getD i 0) (hle : ks.getD i 0 ≤ n)
    (hp : 0 < ps.getD i 0) (hp1 : ps.getD i 0 ≤ 1) :
    ∃ row' order m, (applyTopKTopP sort logits (some ks) (some ps))[i]? = some row' ∧
      order.Perm ((vocab n).filter fun t => sort.kth (ks.getD i 0) row ≤ row t) ∧
      (order.map row).Pairwise (· ≥ ·) ∧ order.take m ≠ [] ∧
      ps.getD i 0 ≤ mass row (order.take m) / mass row order ∧
      (∀ m' < m, mass row (order.take m') / mass row order < ps.getD i 0) ∧
      (∀ t ∈ vocab n, row' t ≠ ⊥ ↔ t ∈ order.take m) ∧
      (ps.getD i 0 = 1 → ∃ row₁, (applyTopKTopP sort logits (some ks) none)[i]? = some row₁ ∧
        ∀ t ∈ vocab n, row₁ t = row' t) := by
  obtain ⟨row', hrow', hsame⟩ :=
    applyTopKTopP_row sort ks ps hpos hle (.inl rfl) (.inl rfl) hrow
  obtain ⟨m, hreach, hfirst, hkept⟩ := topKTopPRow_exact sort hfinite hpos hle hp hp1
  refine ⟨row', sort.order (ks.getD i 0) row, m, hrow',
    (reverse_perm _).trans ((sort.perm row).filter _), ?_, fun hnil => ?_, hreach, hfirst,
    fun t ht => by rw [hsame t ht, hkept t ht], fun hone => ?_⟩
  · rw [TorchSort.order, map_reverse, pairwise_reverse]
    exact (sort.sorted row).sublist (filter_sublist.map row)
  · rw [hnil, mass, map_nil, sum_nil, zero_div] at hreach
    exact absurd hp (not_lt.mpr hreach)
  · obtain ⟨row₁, hrow₁, hsame₁⟩ :=
      applyTopKTopP_row sort ks ps hpos hle (.inl rfl) (.inr ⟨rfl, hone⟩) hrow
    exact ⟨row₁, hrow₁, fun t ht => (hsame₁ t ht).trans (hsame t ht).symm⟩

/-- A sort that keeps the order of ties. -/
noncomputable def stableSort (n : Nat) : TorchSort n where
  idx row := (vocab n).insertionSort fun t u => row t ≤ row u
  perm _ := perm_insertionSort ..
  sorted row := pairwise_map.mpr <|
    haveI : Std.Total fun t u : Token => row t ≤ row u := ⟨fun t u => le_total (row t) (row u)⟩
    haveI : IsTrans Token fun t u => row t ≤ row u := ⟨fun _ _ _ => le_trans⟩
    pairwise_insertionSort ..
  congr {row row'} h := by
    have hsort := map_insertionSort (fun t u => row t ≤ row u) (fun t u => row' t ≤ row' u) id
      (vocab n) fun t ht u hu => by rw [h t ht, h u hu]; rfl
    rw [map_id, map_id] at hsort
    exact hsort

/-- A row with a tie at its second place. -/
noncomputable def tiedRow : LogitsRow ℝ := fun t => (([3, 1, 1, 0] : List ℝ).getD t.toNat 0 : ℝ)

noncomputable def equalRow : LogitsRow ℝ := fun _ => (0 : ℝ)

theorem values_tiedRow :
    (stableSort 4).values tiedRow = ([0, 1, 1, 3] : List ℝ).map WithBot.some := by
  refine List.Perm.eq_of_pairwise (fun _ _ _ _ => le_antisymm) ((stableSort 4).sorted _) ?_
    ((((stableSort 4).perm _).map _).trans ?_)
  · simp
  · exact reverse_perm (([0, 1, 1, 3] : List ℝ).map WithBot.some)

theorem kth_equalRow : (stableSort 4).kth 3 equalRow = (0 : ℝ) := by
  have hvalues : (stableSort 4).values equalRow = replicate 4 ((0 : ℝ) : WithBot ℝ) := by
    refine (map_const' ..).trans ?_
    rw [((stableSort 4).perm equalRow).length_eq, length_vocab]
    rfl
  rw [kth_eq _ _ (by decide) (by decide), hvalues]
  rfl

theorem mass_equalRow (tokens : List Token) : mass equalRow tokens = tokens.length := by
  simp [mass, equalRow, weight]

/-- The first row has a top-k and the last one has none. The tie of the first row is kept; of the
four ties of the second row a top-p of one half leaves two. -/
theorem applyTopKTopP_exact_tied : ∃ row₀ row₁,
    (applyTopKTopP (stableSort 4) [tiedRow, equalRow, tiedRow] (some [2, 3, 4])
      (some [1, 1 / 2, 1]))[0]? = some row₀ ∧ row₀ 1 ≠ ⊥ ∧ row₀ 2 ≠ ⊥ ∧ row₀ 3 = ⊥ ∧
    (∃ only, (applyTopKTopP (stableSort 4) [tiedRow, equalRow, tiedRow] (some [2, 3, 4]) none)[0]? =
      some only ∧ ∀ t ∈ vocab 4, only t = row₀ t) ∧
    (applyTopKTopP (stableSort 4) [tiedRow, equalRow, tiedRow] (some [2, 3, 4])
      (some [1, 1 / 2, 1]))[1]? = some row₁ ∧
    ∃ kept : List Token, kept.length = 2 ∧ ∀ t ∈ vocab 4, row₁ t ≠ ⊥ ↔ t ∈ kept := by
  obtain ⟨row₀, -, -, hrow₀, -, -, -, -, -, -, honly⟩ :=
    applyTopKTopP_exact (stableSort 4) [tiedRow, equalRow, tiedRow] [2, 3, 4] [1, 1 / 2, 1] 0
      tiedRow rfl (fun _ _ => WithBot.coe_ne_bot) (by decide) (by decide) (by simp) (by simp)
  obtain ⟨row₁, order, m, hrow₁, hperm, -, -, hreach, hfirst, hkept, -⟩ :=
    applyTopKTopP_exact (stableSort 4) [tiedRow, equalRow, tiedRow] [2, 3, 4] [1, 1 / 2, 1] 1
      equalRow rfl (fun _ _ => WithBot.coe_ne_bot) (by decide) (by decide) (by simp)
      (by simp only [getD_cons_succ, getD_cons_zero]; norm_num)
  have hmask : ∀ t ∈ vocab 4, row₀ t = maskBelow (1 : ℝ) (tiedRow t) := by
    intro t ht
    cases hrow₀
    refine (topKTopPRow_one (stableSort 4) tiedRow ht 2).trans ?_
    rw [values_tiedRow]
    rfl
  have hlength : order.length = 4 := by
    have hall : ∀ t ∈ vocab 4, decide ((stableSort 4).kth 3 equalRow ≤ equalRow t) = true :=
      fun t _ => decide_eq_true kth_equalRow.le
    exact hperm.length_eq.trans ((congrArg length (filter_eq_self.mpr hall)).trans (length_vocab 4))
  have hcount : m = 2 := by
    simp only [mass_equalRow, hlength, length_take, getD_cons_succ, getD_cons_zero] at hreach hfirst
    rcases lt_trichotomy m 2 with hlt | heq | hgt
    · interval_cases m <;> norm_num at hreach
    · exact heq
    · have htwo := hfirst 2 hgt
      norm_num at htwo
  refine ⟨row₀, row₁, hrow₀, ?_, ?_, ?_, honly rfl, hrow₁, order.take m, ?_, hkept⟩
  · rw [hmask 1 (by decide)]
    exact ne_of_eq_of_ne (maskBelow_of_le le_rfl) WithBot.coe_ne_bot
  · rw [hmask 2 (by decide)]
    exact ne_of_eq_of_ne (maskBelow_of_le le_rfl) WithBot.coe_ne_bot
  · rw [hmask 3 (by decide)]
    exact if_pos (WithBot.coe_lt_coe.mpr one_pos)
  · rw [length_take, hlength, hcount]
    rfl

end LongCtxSpecDecode
