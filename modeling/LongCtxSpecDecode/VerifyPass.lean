import LongCtxSpecDecode.RejectionSampler

/-!
# The verify pass

A batch of requests, each with its next tokens and its drafts, goes through the target model, which
is known by its greedy choice after a context. The rows of the logits that are sampled are found as
in `_prepare_inputs` of `v1/worker/gpu_model_runner.py`.
-/

namespace LongCtxSpecDecode

open Library.Ragged List

/-- The target model under greedy sampling: the token after a context. -/
structure TargetModel where
  vocabSize : Nat
  next : List Token → Token
  valid : ∀ context, 0 ≤ next context ∧ next context < vocabSize

namespace TargetModel

/-- The first `n` tokens that the target model decodes alone. -/
def greedyDecode (target : TargetModel) (context : List Token) : Nat → List Token
  | 0 => []
  | n + 1 =>
    let tokens := target.greedyDecode context n
    tokens ++ [target.next (context ++ tokens)]

variable (target : TargetModel) (context : List Token)

theorem greedyDecode_succ (n : Nat) : target.greedyDecode context (n + 1) =
    target.greedyDecode context n ++ [target.next (context ++ target.greedyDecode context n)] :=
  rfl

@[simp] theorem greedyDecode_length (n : Nat) : (target.greedyDecode context n).length = n := by
  induction n with
  | zero => rfl
  | succ n ih => simp [greedyDecode, ih]

theorem greedyDecode_add (n k : Nat) :
    target.greedyDecode context (n + k) =
      target.greedyDecode context n ++
        target.greedyDecode (context ++ target.greedyDecode context n) k := by
  induction k with
  | zero => simp [greedyDecode]
  | succ k ih =>
    rw [← Nat.add_assoc, greedyDecode_succ, greedyDecode_succ, ih, append_assoc,
      append_assoc]

theorem take_greedyDecode (n k : Nat) (hk : k ≤ n) :
    (target.greedyDecode context n).take k = target.greedyDecode context k := by
  obtain ⟨d, rfl⟩ := Nat.exists_eq_add_of_le hk
  rw [greedyDecode_add, take_append_of_le_length (by simp)]
  exact take_of_length_le (by simp)

section

variable {drafts : List Token} {k : Nat} (hk : k ≤ drafts.length)
  (h : ∀ p < k, drafts.getD p 0 = target.next (context ++ drafts.take p))
include hk h

theorem take_eq_greedyDecode : drafts.take k = target.greedyDecode context k := by
  induction k with
  | zero => rfl
  | succ k ih =>
    grind [greedyDecode_succ, take_append_getElem]

theorem map_range_eq_greedyDecode :
    ((range (k + 1)).map fun p => target.next (context ++ drafts.take p)) =
      target.greedyDecode context (k + 1) := by
  induction k with
  | zero => simp [greedyDecode]
  | succ k ih =>
    have hprefix := target.take_eq_greedyDecode context hk h
    rw [range_succ, map_append, ih (by omega) fun p hp => h p (by omega), map_cons,
      hprefix]
    rfl

end

end TargetModel

/-- A request in the batch of a verify pass. -/
structure BatchRow where
  tokenIds : List Token
  numComputedTokens : Nat
  numScheduledTokens : Nat
  specTokenIds : List Token

namespace BatchRow

/-- The row of `token_ids_cpu`: the drafts follow the tokens. -/
def allTokenIds (row : BatchRow) : List Token := row.tokenIds ++ row.specTokenIds

/-- The request's part of `input_ids`. -/
def inputIds (row : BatchRow) : List Token :=
  (range row.numScheduledTokens).map fun k =>
    row.allTokenIds.getD (row.numComputedTokens + k) 0

/-- The target's token after each scheduled position of the row. -/
def argmax (target : TargetModel) (row : BatchRow) : List Token :=
  (range row.numScheduledTokens).map fun k =>
    target.next (row.allTokenIds.take (row.numComputedTokens + k + 1))

/-- A partial prefill: what is sampled for it is thrown away. -/
def discard (row : BatchRow) : Bool :=
  row.numComputedTokens + row.numScheduledTokens < row.tokenIds.length

/-- What the target chooses after the `j`-th of the rows that are sampled. -/
def choice (target : TargetModel) (row : BatchRow) (j : Nat) : Token :=
  target.next (row.allTokenIds.take
    (row.numComputedTokens + (row.numScheduledTokens - (row.specTokenIds.length + 1) + j) + 1))

end BatchRow

def discardRequestMask (rows : List BatchRow) (i : Nat) : Bool :=
  (rows.map BatchRow.discard).getD i false

/-- The sampled tokens of each request of the batch. A request that is not greedy gets
`random`. -/
def sampleTokens (target : TargetModel) (isGreedy : Nat → Bool) (random : Nat → Nat → Token)
    (rows : List BatchRow) : List (List Token) :=
  let numScheduledTokens := rows.map BatchRow.numScheduledTokens
  let cuNumTokens := cumsum numScheduledTokens
  let inputIds := (rows.map BatchRow.inputIds).flatten
  let argmax := (rows.map (BatchRow.argmax target)).flatten
  if rows.all fun row => row.specTokenIds.isEmpty then
    -- `logits_indices` is the last token of each request
    cuNumTokens.mapIdx fun i e =>
      if discardRequestMask rows i then []
      else [if isGreedy i then argmax.getD (e - 1) 0 else random i 0]
  else
    let m :=
      calcSpecDecodeMetadata inputIds (rows.map fun row => row.specTokenIds.length) cuNumTokens
    let logits := m.logitsIndices.map (argmax.getD · 0)
    let bonusTokenIds := m.bonusLogitsIndices.map (logits.getD · 0)
    let targetArgmax := m.targetLogitsIndices.map (logits.getD · 0)
    RejectionSampler.parseOutput
      (RejectionSampler.rejectionSample m targetArgmax bonusTokenIds isGreedy random)
      target.vocabSize (discardRequestMask rows)

section metadata

variable {inputIds : List Token} {drafts lens : List Nat} {i : Nat}

theorem getD_map_succ (hi : i < drafts.length) :
    (drafts.map (· + 1)).getD i 0 = drafts.getD i 0 + 1 :=
  getD_map_of_lt _ hi 0 0

section

variable (hlen : lens.length = drafts.length) (hi : i < drafts.length)
  (hroom : drafts.getD i 0 < lens.getD i 0)
include hlen hi hroom

theorem logitsIndices_getD {j : Nat} (hj : j ≤ drafts.getD i 0) :
    rowStart (drafts.map (· + 1)) i + j <
        (calcSpecDecodeMetadata inputIds drafts (cumsum lens)).logitsIndices.length ∧
      (calcSpecDecodeMetadata inputIds drafts (cumsum lens)).logitsIndices.getD
          (rowStart (drafts.map (· + 1)) i + j) 0 =
        rowStart lens i + (lens.getD i 0 - (drafts.getD i 0 + 1) + j) := by
  have hsampled := getD_map_succ hi
  have hj' : j < (drafts.map (· + 1)).getD i 0 := by
    omega
  have hstarts : (zipWith (· - ·) (cumsum lens) (drafts.map (· + 1))).length =
      (drafts.map (· + 1)).length := by
    simp [hlen]
  refine ⟨(rowStart_add_lt hj').trans_eq (repeatArange_length hstarts).symm,
    (getD_repeatArange hstarts (by simpa using hi) hj').trans ?_⟩
  rw [getD_zipWith_sub (by simpa [hlen] using hi) (by simpa using hi), cumsum_getD lens (by omega),
    rowStart_succ]
  omega

theorem logits_getD (f : Nat → Token) {j : Nat} (hj : j ≤ drafts.getD i 0) :
    ((calcSpecDecodeMetadata inputIds drafts (cumsum lens)).logitsIndices.map f).getD
        (rowStart (drafts.map (· + 1)) i + j) 0 =
      f (rowStart lens i + (lens.getD i 0 - (drafts.getD i 0 + 1) + j)) := by
  obtain ⟨hrange, hget⟩ := @logitsIndices_getD inputIds drafts lens i hlen hi hroom j hj
  rw [getD_map_of_lt f hrange 0 0, hget]

end

section

variable (inputIds : List Token) (hi : i < drafts.length)
include hi

theorem targetLogitsIndices_getD {p : Nat} (hp : p < drafts.getD i 0) (cu : List Nat) :
    rowStart drafts i + p < (calcSpecDecodeMetadata inputIds drafts cu).targetLogitsIndices.length ∧
      (calcSpecDecodeMetadata inputIds drafts cu).targetLogitsIndices.getD
        (rowStart drafts i + p) 0 =
        rowStart (drafts.map (· + 1)) i + p := by
  have hstarts : (zipWith (· - ·) (cumsum (drafts.map (· + 1))) (drafts.map (· + 1))).length =
      drafts.length := by
    simp
  refine ⟨(rowStart_add_lt hp).trans_eq (repeatArange_length hstarts).symm,
    (getD_repeatArange hstarts hi hp).trans ?_⟩
  rw [getD_zipWith_sub (by simpa using hi) (by simpa using hi), cumsum_getD _ (by simpa using hi),
    rowStart_succ, Nat.add_sub_cancel]

theorem target_getD (g : Nat → Token) {p : Nat} (hp : p < drafts.getD i 0) (cu : List Nat) :
    ((calcSpecDecodeMetadata inputIds drafts cu).targetLogitsIndices.map g).getD
        (rowStart drafts i + p) 0 = g (rowStart (drafts.map (· + 1)) i + p) := by
  obtain ⟨hrange, hget⟩ := targetLogitsIndices_getD inputIds hi hp cu
  rw [getD_map_of_lt g hrange 0 0, hget]

theorem bonusLogitsIndices_getD (cu : List Nat) :
    (calcSpecDecodeMetadata inputIds drafts cu).bonusLogitsIndices.getD i 0 =
      rowStart (drafts.map (· + 1)) i + drafts.getD i 0 := by
  have hcu : i < (cumsum (drafts.map (· + 1))).length := by simpa using hi
  change ((cumsum (drafts.map (· + 1))).map (· - 1)).getD i 0 = _
  rw [getD_map_of_lt _ hcu 0 0, cumsum_getD _ (by simpa using hi), rowStart_succ, getD_map_succ hi]
  rfl

theorem bonus_getD (g : Nat → Token) (cu : List Nat) :
    ((calcSpecDecodeMetadata inputIds drafts cu).bonusLogitsIndices.map g).getD i 0 =
      g (rowStart (drafts.map (· + 1)) i + drafts.getD i 0) := by
  have hrange : i < (calcSpecDecodeMetadata inputIds drafts cu).bonusLogitsIndices.length := by
    simpa [calcSpecDecodeMetadata] using hi
  rw [getD_map_of_lt g hrange 0 0, bonusLogitsIndices_getD inputIds hi]

end

theorem draft_getD (hlen : lens.length = drafts.length) (hi : i < drafts.length)
    (hroom : drafts.getD i 0 < lens.getD i 0) {p : Nat} (hp : p < drafts.getD i 0) :
    (calcSpecDecodeMetadata inputIds drafts (cumsum lens)).draftTokenIds.getD
        (rowStart drafts i + p) 0 =
      inputIds.getD (rowStart lens i + (lens.getD i 0 - drafts.getD i 0 + p)) 0 := by
  refine (target_getD inputIds hi
    (fun k => ((calcSpecDecodeMetadata inputIds drafts (cumsum lens)).logitsIndices.map
      (inputIds.getD · 0)).getD (k + 1) 0) hp (cumsum lens)).trans ?_
  rw [Nat.add_assoc, logits_getD hlen hi hroom (inputIds.getD · 0) (by omega)]
  congr 2
  omega

theorem logitsRows_perm (hlen : lens.length = drafts.length) :
    ((calcSpecDecodeMetadata inputIds drafts (cumsum lens)).targetLogitsIndices ++
        (calcSpecDecodeMetadata inputIds drafts (cumsum lens)).bonusLogitsIndices).Perm
      (range (calcSpecDecodeMetadata inputIds drafts (cumsum lens)).logitsIndices.length) := by
  have hbonus : (cumsum (drafts.map (· + 1))).map (· - 1) =
      (range drafts.length).map fun i =>
        rowStart (drafts.map (· + 1)) i + drafts.getD i 0 := by
    rw [cumsum, map_map, length_map]
    refine map_congr_left fun i hi => ?_
    change rowStart (drafts.map (· + 1)) (i + 1) - 1 = _
    rw [rowStart_succ, getD_map_succ (mem_range.mp hi)]
    rfl
  dsimp only [calcSpecDecodeMetadata]
  rw [hbonus, zipWith_cumsum, length_map, repeatArange_map, repeatArange_length (by simp [hlen])]
  exact rows_succ_perm drafts

/-- The rows of the sampled logits are the target rows and the bonus rows. The rows of a request are
its last tokens in order, each with the next token as its draft, where the kernels look for them. -/
theorem spec_decode_partition (inputIds : List Token) (drafts lens : List Nat)
    (hlen : lens.length = drafts.length)
    (hroom : ∀ i < drafts.length, drafts.getD i 0 < lens.getD i 0) :
    let m := calcSpecDecodeMetadata inputIds drafts (cumsum lens)
    (m.targetLogitsIndices ++ m.bonusLogitsIndices).Perm (range m.logitsIndices.length) ∧
    ∀ i < drafts.length,
      let firstRow := rowStart (drafts.map (· + 1)) i
      let startIdx := if i = 0 then 0 else m.cuNumDraftTokens.getD (i - 1) 0
      m.cuNumDraftTokens.getD i 0 - startIdx = drafts.getD i 0 ∧
      m.bonusLogitsIndices.getD i 0 = firstRow + drafts.getD i 0 ∧
      (∀ j ≤ drafts.getD i 0, m.logitsIndices.getD (firstRow + j) 0 =
        rowStart lens i + (lens.getD i 0 - (drafts.getD i 0 + 1) + j)) ∧
      ∀ pos < drafts.getD i 0,
        m.targetLogitsIndices.getD (startIdx + pos) 0 = firstRow + pos ∧
        m.draftTokenIds.getD (startIdx + pos) 0 = inputIds.getD
          (m.logitsIndices.getD (m.targetLogitsIndices.getD (startIdx + pos) 0) 0 + 1) 0 := by
  refine ⟨logitsRows_perm hlen, fun i hi => ?_⟩
  have hstart : (if i = 0 then 0 else (calcSpecDecodeMetadata inputIds drafts
      (cumsum lens)).cuNumDraftTokens.getD (i - 1) 0) = rowStart drafts i := cumsum_pred drafts hi
  have hlast := hroom i hi
  have htarget := fun {pos} hpos => (targetLogitsIndices_getD inputIds hi (p := pos) hpos
    (cumsum lens)).2
  have hlogits := fun {j} hj => (@logitsIndices_getD inputIds drafts lens i hlen hi hlast j hj).2
  rw [hstart]
  refine ⟨cumsum_sub_rowStart hi, bonusLogitsIndices_getD inputIds hi _, fun j hj => hlogits hj,
    fun pos hpos => ?_⟩
  rw [htarget hpos, hlogits (Nat.le_of_lt hpos), draft_getD hlen hi hlast hpos]
  refine ⟨rfl, ?_⟩
  congr 1
  omega

/-- A request with two drafts after its prompt's last token, and a chunk of a prompt. -/
theorem spec_decode_partition_two :
    ([0, 1] ++ [2, 3]).Perm (range 4) ∧
      (calcSpecDecodeMetadata [5, 6, 7, 8, 9] [2, 0] (cumsum [3, 2])).draftTokenIds = [6, 7] :=
  ⟨(spec_decode_partition [5, 6, 7, 8, 9] [2, 0] [3, 2] rfl (by decide)).1, rfl⟩

end metadata

section rows

variable (target : TargetModel) (rows : List BatchRow) {i : Nat}

theorem getD_flatten_rows (f : BatchRow → Nat → Token) (hi : i < rows.length) {k : Nat}
    (hk : k < rows[i].numScheduledTokens) :
    ((rows.map fun row => (range row.numScheduledTokens).map (f row)).flatten).getD
        (rowStart (rows.map BatchRow.numScheduledTokens) i + k) 0 = f rows[i] k := by
  have hlens : (rows.map fun row => (range row.numScheduledTokens).map (f row)).map
      length = rows.map BatchRow.numScheduledTokens := by
    rw [map_map]
    exact map_congr_left fun row _ => by simp
  have hrow : (rows.map fun row => (range row.numScheduledTokens).map (f row)).getD i [] =
      (range rows[i].numScheduledTokens).map (f rows[i]) := by
    rw [getD_eq_getElem _ _ (by simpa using hi), getElem_map]
  have hget := getD_flatten (rows.map fun row => (range row.numScheduledTokens).map (f row))
    i k 0 (by rw [hrow]; simpa using hk)
  rw [hlens, hrow] at hget
  rw [hget, getD_eq_getElem _ _ (by simpa using hk)]
  simp

theorem choice_eq (row : BatchRow) (hfit : row.numComputedTokens + row.numScheduledTokens =
      row.tokenIds.length + row.specTokenIds.length)
    (hroom : row.specTokenIds.length < row.numScheduledTokens) (j : Nat) :
    row.choice target j = target.next (row.tokenIds ++ row.specTokenIds.take j) := by
  have hpos : row.numComputedTokens + (row.numScheduledTokens - (row.specTokenIds.length + 1) + j) +
      1 = row.tokenIds.length + j := by
    omega
  rw [BatchRow.choice, hpos, BatchRow.allTokenIds, take_length_add_append]

theorem discardRequestMask_eq (hi : i < rows.length) :
    discardRequestMask rows i = rows[i].discard := by
  rw [discardRequestMask, getD_eq_getElem _ _ (by simpa using hi), getElem_map]

theorem lens_getD (hi : i < rows.length) :
    (rows.map BatchRow.numScheduledTokens).getD i 0 = rows[i].numScheduledTokens := by
  rw [getD_eq_getElem _ _ (by simpa using hi), getElem_map]

theorem drafts_getD (hi : i < rows.length) :
    (rows.map fun row => row.specTokenIds.length).getD i 0 = rows[i].specTokenIds.length := by
  rw [getD_eq_getElem _ _ (by simpa using hi), getElem_map]

variable {isGreedy : Nat → Bool} (random : Nat → Nat → Token)

section

variable (hi : i < rows.length) (hgreedy : isGreedy i = true)
include hi hgreedy

theorem sampleTokens_plain (hplain : (rows.all fun row => row.specTokenIds.isEmpty) = true)
    (hroom : 0 < rows[i].numScheduledTokens) :
    (sampleTokens target isGreedy random rows).getD i [] =
      if rows[i].discard then [] else
        [target.next (rows[i].tokenIds.take
          (rows[i].numComputedTokens + rows[i].numScheduledTokens))] := by
  have hempty : rows[i].specTokenIds = [] :=
    List.isEmpty_iff.mp (all_eq_true.mp hplain _ (getElem_mem hi))
  have hcu : (cumsum (rows.map BatchRow.numScheduledTokens))[i]? =
      some (rowStart (rows.map BatchRow.numScheduledTokens) (i + 1)) := by
    have hget := cumsum_getD (rows.map BatchRow.numScheduledTokens) (by simpa using hi)
    rw [getD_eq_getElem _ _ (by simpa using hi)] at hget
    rw [getElem?_eq_getElem (by simpa using hi), hget]
  have hargmax := getD_flatten_rows rows
    (fun row k => target.next (row.allTokenIds.take (row.numComputedTokens + k + 1))) hi
    (Nat.sub_lt hroom Nat.one_pos)
  have hlast : rowStart (rows.map BatchRow.numScheduledTokens) (i + 1) - 1 =
      rowStart (rows.map BatchRow.numScheduledTokens) i + (rows[i].numScheduledTokens - 1) := by
    rw [rowStart_succ, lens_getD rows hi]
    omega
  unfold sampleTokens
  rw [if_pos hplain, getD_eq_getElem?_getD, getElem?_mapIdx, hcu, Option.map_some,
    discardRequestMask_eq rows hi, if_pos hgreedy, hlast]
  refine if_congr Iff.rfl rfl (congrArg (fun t => [t]) (hargmax.trans ?_))
  rw [BatchRow.allTokenIds, hempty, append_nil]
  congr 2
  omega

theorem sampleTokens_drafts (hdrafts : ¬ (rows.all fun row => row.specTokenIds.isEmpty) = true)
    (hroom : rows[i].specTokenIds.length < rows[i].numScheduledTokens) :
    (rows[i].discard = true ∧ (sampleTokens target isGreedy random rows).getD i [] = []) ∨
    (rows[i].discard = false ∧ ∃ k ≤ rows[i].specTokenIds.length,
      (∀ p < k, rows[i].allTokenIds.getD (rows[i].numComputedTokens +
        (rows[i].numScheduledTokens - rows[i].specTokenIds.length + p)) 0 =
          rows[i].choice target p) ∧
      (sampleTokens target isGreedy random rows).getD i [] =
        (range (k + 1)).map (rows[i].choice target)) := by
  set lens := rows.map BatchRow.numScheduledTokens with hlens
  set drafts := rows.map fun row => row.specTokenIds.length with hdraftsDef
  set inputIds := (rows.map BatchRow.inputIds).flatten with hinput
  set argmax := (rows.map (BatchRow.argmax target)).flatten with hargmax
  set m := calcSpecDecodeMetadata inputIds drafts (cumsum lens) with hm
  set logits := m.logitsIndices.map (argmax.getD · 0)
  have hlen : lens.length = drafts.length := by simp [hlens, hdraftsDef]
  have hi' : i < drafts.length := by simpa [hdraftsDef] using hi
  have hn : lens.getD i 0 = rows[i].numScheduledTokens := lens_getD rows hi
  have hd : drafts.getD i 0 = rows[i].specTokenIds.length := drafts_getD rows hi
  have hroom' : drafts.getD i 0 < lens.getD i 0 := by rw [hn, hd]; exact hroom
  -- the logits of the request, by position
  have hlogits : ∀ j ≤ rows[i].specTokenIds.length,
      logits.getD (rowStart (drafts.map (· + 1)) i + j) 0 = rows[i].choice target j := by
    intro j hj
    rw [logits_getD hlen hi' hroom' _ (by omega), hn, hd]
    exact getD_flatten_rows rows
      (fun row k => target.next (row.allTokenIds.take (row.numComputedTokens + k + 1)))
        hi (by omega)
  have htarget : ∀ p < rows[i].specTokenIds.length,
      (m.targetLogitsIndices.map (logits.getD · 0)).getD (rowStart drafts i + p) 0 =
        rows[i].choice target p := by
    intro p hp
    rw [target_getD inputIds hi' _ (by omega)]
    exact hlogits p (by omega)
  have hbonus : (m.bonusLogitsIndices.map (logits.getD · 0)).getD i 0 =
      rows[i].choice target rows[i].specTokenIds.length := by
    rw [bonus_getD inputIds hi', hd]
    exact hlogits _ (Nat.le_refl _)
  have hvalid : ∀ context, target.next context ≠ placeholderTokenId ∧
      target.next context < target.vocabSize := by
    intro context
    refine ⟨fun heq => ?_, (target.valid context).2⟩
    have hneg := (target.valid context).1
    rw [heq] at hneg
    exact absurd hneg (by decide)
  have hsample : sampleTokens target isGreedy random rows = RejectionSampler.parseOutput
      (RejectionSampler.rejectionSample m (m.targetLogitsIndices.map (logits.getD · 0))
        (m.bonusLogitsIndices.map (logits.getD · 0)) isGreedy random) target.vocabSize
          (discardRequestMask rows) := by
    unfold sampleTokens
    rw [if_neg hdrafts]
  have hspec := RejectionSampler.parseOutput_value (m := m) rfl hi' hgreedy random
    (discardRequestMask rows) target.vocabSize hd _ htarget hbonus fun _ => hvalid _
  rw [← hsample, discardRequestMask_eq rows hi] at hspec
  refine hspec.imp_right fun ⟨hdiscard, k, hk, hmatch, hrow⟩ =>
    ⟨hdiscard, k, hk, fun p hp => ?_, hrow⟩
  refine Eq.trans ?_ (hmatch p hp)
  refine Eq.trans ?_ (draft_getD hlen hi' hroom' (hd ▸ Nat.lt_of_lt_of_le hp hk)).symm
  rw [hn, hd]
  exact (getD_flatten_rows rows
    (fun row k => row.allTokenIds.getD (row.numComputedTokens + k) 0) hi (by omega)).symm

theorem sampleTokens_spec (hroom : rows[i].specTokenIds.length < rows[i].numScheduledTokens)
    (hfit : rows[i].numComputedTokens + rows[i].numScheduledTokens = rows[i].tokenIds.length +
      rows[i].specTokenIds.length ∨ (rows[i].specTokenIds = [] ∧ rows[i].numComputedTokens +
      rows[i].numScheduledTokens < rows[i].tokenIds.length)) :
    (rows[i].numComputedTokens + rows[i].numScheduledTokens < rows[i].tokenIds.length ∧
      (sampleTokens target isGreedy random rows).getD i [] = []) ∨
    (rows[i].numComputedTokens + rows[i].numScheduledTokens =
        rows[i].tokenIds.length + rows[i].specTokenIds.length ∧
      ∃ k ≤ rows[i].specTokenIds.length, (sampleTokens target isGreedy random rows).getD i [] =
        target.greedyDecode rows[i].tokenIds (k + 1)) := by
  have hdiscard : rows[i].discard = true ↔
      rows[i].numComputedTokens + rows[i].numScheduledTokens < rows[i].tokenIds.length :=
    decide_eq_true_iff
  by_cases hplain : (rows.all fun row => row.specTokenIds.isEmpty) = true
  · have hempty : rows[i].specTokenIds = [] :=
      List.isEmpty_iff.mp (all_eq_true.mp hplain _ (getElem_mem hi))
    rw [sampleTokens_plain target rows random hi hgreedy hplain (by omega)]
    rcases hfit with hfit | ⟨-, hlt⟩
    · rw [hempty] at hfit
      refine Or.inr ⟨by rw [hempty]; exact hfit, 0, Nat.zero_le _, ?_⟩
      rw [if_neg (by rw [hdiscard]; omega), hfit]
      simp [TargetModel.greedyDecode]
    · exact Or.inl ⟨hlt, if_pos (hdiscard.mpr hlt)⟩
  · rcases sampleTokens_drafts target rows random hi hgreedy hplain hroom with
      ⟨htrue, hnone⟩ | ⟨hfalse, k, hk, hmatch, hrow⟩
    · exact Or.inl ⟨hdiscard.mp htrue, hnone⟩
    · rcases hfit with hfit | ⟨-, hlt⟩
      · refine Or.inr ⟨hfit, k, hk, ?_⟩
        have hvalue := choice_eq target rows[i] hfit hroom
        rw [hrow, funext hvalue]
        refine target.map_range_eq_greedyDecode _ hk fun p hp => ?_
        rw [← hvalue, ← hmatch p hp, BatchRow.allTokenIds, getD_append_right _ _ _ _ (by omega)]
        congr 1
        omega
      · rw [hdiscard.mpr hlt] at hfalse
        cases hfalse

end

end rows

end LongCtxSpecDecode
