import LongCtxSpecDecode.GpuModelRunner

/-!
# The kernels of the device's request state

What the kernels of a step leave for one row of the batch. Each program stores to the part of its
row, so that an entry of a row is known from the program of this row.
-/

namespace LongCtxSpecDecode.Gpu

open Library Library.Ragged Library.Stores List

/-! ### Launches -/

variable {i : Nat}

section launch

variable {rows : List BatchRow} {row : BatchRow} {b : Nat}

theorem reqIds_eq (hrow : rows[b]? = some row) : reqIds rows b = row.reqId := by
  simp [reqIds, hrow]

theorem idxMapping_eq (hrow : rows[b]? = some row) : idxMapping rows b = row.reqStateIdx := by
  simp [idxMapping, hrow]

theorem queryStartLoc_succ (rows : List BatchRow) (b : Nat) :
    queryStartLoc rows (b + 1) = queryStartLoc rows b + queryLen rows b := by
  have hmono := rowStart_mono (rows.map BatchRow.numScheduledTokens) (Nat.le_add_right b 1)
  unfold queryLen queryStartLoc
  omega

theorem queryLen_getD (rows : List BatchRow) (b : Nat) :
    queryLen rows b = (rows.map BatchRow.numScheduledTokens).getD b 0 := by
  unfold queryLen queryStartLoc
  rw [rowStart_succ, Nat.add_sub_cancel_left]

theorem queryLen_eq (hrow : rows[b]? = some row) : queryLen rows b = row.numScheduledTokens := by
  rw [queryLen_getD]
  simp [hrow]

theorem numLogits_getD (rows : List BatchRow) (b : Nat) :
    numLogits rows b = (rows.map fun row => row.numDraftTokens + 1).getD b 0 := by
  unfold numLogits cuNumLogits
  rw [rowStart_succ, Nat.add_sub_cancel_left]

theorem numLogits_eq (hrow : rows[b]? = some row) : numLogits rows b = row.numDraftTokens + 1 := by
  rw [numLogits_getD]
  simp [hrow]

variable {α : Type} {program : Nat → List (Nat × α)} {mem : Nat → α}

theorem launch_eq {a : Nat} (hb : b < rows.length)
    (hother : ∀ b' < rows.length, b' ≠ b → a ∉ (program b').map Prod.fst) :
    launch rows program mem a = storeAll (program b) mem a :=
  storeAll_flatMap nodup_range (mem_range.mpr hb) fun b' hb' =>
    hother b' (mem_range.mp hb')

theorem launch_rowStart {lens : List Nat} (hlens : lens.length = rows.length) {j : Nat}
    (hj : j < lens.getD b 0)
    (hprogram : ∀ b' < rows.length, ∀ store ∈ program b',
      ∃ j' < lens.getD b' 0, store.1 = rowStart lens b' + j') :
    launch rows program mem (rowStart lens b + j) =
      storeAll (program b) mem (rowStart lens b + j) := by
  refine launch_eq (hlens ▸ lt_length_of_getD hj) fun b' hb' hne hmem => hne ?_
  obtain ⟨store, hstore, haddress⟩ := mem_map.mp hmem
  obtain ⟨j', hj', hstart⟩ := hprogram b' hb' store hstore
  exact row_eq_of_rowStart_add hj' hj (hstart.symm.trans haddress)

theorem launch_query {j : Nat} (hj : j < queryLen rows b)
    (hprogram : ∀ b' < rows.length, ∀ store ∈ program b',
      ∃ j' < queryLen rows b', store.1 = queryStartLoc rows b' + j') :
    launch rows program mem (queryStartLoc rows b + j) =
      storeAll (program b) mem (queryStartLoc rows b + j) := by
  simp only [queryLen_getD] at hj hprogram
  exact launch_rowStart (length_map ..) hj hprogram

theorem launch_logits (hi : i < numLogits rows b)
    (hprogram : ∀ b' < rows.length, ∀ store ∈ program b', ∃ i' < numLogits rows b', store.1 =
      cuNumLogits rows b' + i') :
    launch rows program mem (cuNumLogits rows b + i) =
      storeAll (program b) mem (cuNumLogits rows b + i) := by
  simp only [numLogits_getD] at hi hprogram
  exact launch_rowStart (length_map ..) hi hprogram

theorem launch_idx (hnodup : (rows.map BatchRow.reqStateIdx).Nodup) (hrow : rows[b]? = some row)
    (hprogram : ∀ b' < rows.length, ∀ store ∈ program b', store.1 = idxMapping rows b') :
    launch rows program mem row.reqStateIdx = storeAll (program b) mem row.reqStateIdx := by
  have hb : b < rows.length := (List.getElem?_eq_some_iff.mp hrow).1
  refine launch_eq hb fun b' hb' hne hmem => hne ?_
  obtain ⟨store, hstore, haddress⟩ := mem_map.mp hmem
  have hrow' : rows[b']? = some rows[b'] := getElem?_eq_getElem hb'
  rw [hprogram b' hb' store hstore, idxMapping_eq hrow'] at haddress
  have hidx : (rows.map BatchRow.reqStateIdx)[b']? = (rows.map BatchRow.reqStateIdx)[b]? := by
    rw [getElem?_map, getElem?_map, hrow', hrow]
    exact congrArg some haddress
  exact (getElem?_inj (by simpa using hb') hnodup).mp hidx

theorem launch_single (hnodup : (rows.map BatchRow.reqStateIdx).Nodup) (hrow : rows[b]? = some row)
    (v : Nat → α) :
    launch rows (fun b => [(idxMapping rows b, v b)]) mem row.reqStateIdx = v b := by
  refine (launch_idx hnodup hrow fun b' _ store hstore => ?_).trans ?_
  · rw [mem_singleton.mp hstore]
  · rw [idxMapping_eq hrow]
    exact storeAll_of_mem (by simp) (by simp)

theorem launch_of_notMem {idx : Nat} (hidx : idx ∉ rows.map BatchRow.reqStateIdx)
    (hprogram : ∀ b' < rows.length, ∀ store ∈ program b', store.1 = idxMapping rows b') :
    launch rows program mem idx = mem idx := by
  refine storeAll_of_notMem fun hmem => hidx ?_
  obtain ⟨store, hstore, haddress⟩ := mem_map.mp hmem
  obtain ⟨b', hb', hstore⟩ := mem_flatMap.mp hstore
  have hb' := mem_range.mp hb'
  rw [← haddress, hprogram b' hb' store hstore, idxMapping_eq (getElem?_eq_getElem hb')]
  exact mem_map.mpr ⟨_, getElem_mem hb', rfl⟩

end launch

/-! ### The prepared inputs -/

variable {store : Nat × Token}

section prepared

variable {rows : List BatchRow} {row : BatchRow} {b : Nat} {runner : Runner}

variable {j : Nat} {s : RequestState}

theorem storeAll_offsets {α : Type} {offsets : List Nat} {start n : Nat} {v : Nat → α}
    {mem : Nat → α} (hoffsets : ∀ i, i ∈ offsets ↔ i < n) :
    storeAll (offsets.map fun i => (start + i, v i)) mem (start + j) =
      if j < n then v j else mem (start + j) := by
  split_ifs with hj
  · refine storeAll_of_mem ?_ ?_
    · simpa using (hoffsets j).mpr hj
    · intro store hstore haddress
      obtain ⟨i, -, rfl⟩ := mem_map.mp hstore
      exact congrArg v (Nat.add_left_cancel haddress)
  · refine storeAll_of_notMem fun hmem => hj ?_
    simpa [hoffsets] using hmem

theorem mem_combineBlock {bound : Nat} (hbound : bound ≤ s.numSpeculativeSteps + 1) :
    i ∈ combineBlock s bound ↔ i < bound := by
  have hpow := le_nextPowerOf2 (s.numSpeculativeSteps + 1)
  rw [combineBlock, mem_filter, mem_range, decide_eq_true_iff]
  omega

theorem prepareInputs_positions (hrow : rows[b]? = some row) (hj : j < row.numScheduledTokens) :
    (runner.prepareInputs rows).1.positions (queryStartLoc rows b + j) =
      runner.reqStates.numComputedTokens row.reqStateIdx + j := by
  have hlen := queryLen_eq hrow
  refine (launch_query (hlen ▸ hj) fun b' _ store hstore => ?_).trans ?_
  · obtain ⟨block, hblock, rfl⟩ := mem_map.mp hstore
    exact ⟨block, (mem_tileOffsets (by decide)).mp hblock, rfl⟩
  · rw [preparePosKernel, storeAll_offsets fun _ => mem_tileOffsets (by decide), hlen, if_pos hj,
      idxMapping_eq hrow]

theorem prepareInputs_seqLens (hrow : rows[b]? = some row) :
    (runner.prepareInputs rows).1.seqLens b =
      runner.reqStates.numComputedTokens row.reqStateIdx + row.numScheduledTokens := by
  have hb : b < rows.length := (List.getElem?_eq_some_iff.mp hrow).1
  refine (storeAll_of_notMem fun hmem => ?_).trans ((launch_eq hb fun b' _ hne hmem => ?_).trans ?_)
  · obtain ⟨store, hstore, haddress⟩ := mem_map.mp hmem
    obtain ⟨block, -, rfl⟩ := mem_map.mp hstore
    exact absurd haddress (by omega)
  · have haddress : b = b' := by simpa [prepareSeqLensKernel] using hmem
    exact hne haddress.symm
  · simp [prepareSeqLensKernel, storeAll, idxMapping_eq hrow, queryLen_eq hrow]

theorem prepareInputs_logitsIndices (hrow : rows[b]? = some row)
    (hsteps : row.numDraftTokens ≤ runner.reqStates.numSpeculativeSteps)
    (hdrafts : row.numDraftTokens < row.numScheduledTokens) (hi : i ≤ row.numDraftTokens) :
    (runner.prepareInputs rows).2 (cuNumLogits rows b + i) =
      queryStartLoc rows b + (row.numScheduledTokens - (row.numDraftTokens + 1) + i) := by
  have hlogits := numLogits_eq hrow
  refine (launch_logits (by omega) fun b' _ store hstore => ?_).trans ?_
  · obtain ⟨block, hblock, rfl⟩ := mem_map.mp hstore
    exact ⟨block, of_decide_eq_true (mem_filter.mp hblock).2, rfl⟩
  · rw [logitsIndicesKernel, storeAll_offsets fun _ => mem_combineBlock (by omega),
      if_pos (by omega), queryStartLoc_succ, queryLen_eq hrow]
    omega

def FewDrafts (rows : List BatchRow) : Prop :=
  ∀ row ∈ rows, row.numDraftTokens < row.numScheduledTokens

theorem mem_preparePrefillInputsKernel (hstore : store ∈ preparePrefillInputsKernel rows s b) :
    ∃ j < queryLen rows b, store.1 = queryStartLoc rows b + j := by
  simp only [preparePrefillInputsKernel] at hstore
  split_ifs at hstore with hdone
  · cases hstore
  · obtain ⟨block, hblock, rfl⟩ := mem_map.mp hstore
    exact ⟨block, (mem_tileOffsets (by decide)).mp hblock, rfl⟩

theorem mem_combineKernel {seqLens : Nat → Int} (hfew : FewDrafts rows) (hb : b < rows.length)
    (hstore : store ∈ combineSampledAndDraftTokensKernel rows s seqLens b) :
    ∃ j < queryLen rows b, store.1 = queryStartLoc rows b + j := by
  have hrow : rows[b]? = some rows[b] := getElem?_eq_getElem hb
  have hlt := hfew rows[b] (getElem_mem hb)
  have hlogits := numLogits_eq hrow
  have hlen := queryLen_eq hrow
  simp only [combineSampledAndDraftTokensKernel, queryStartLoc_succ] at hstore
  split_ifs at hstore with hprefill hnone
  · cases hstore
  · rcases mem_cons.mp hstore with rfl | hdraft
    · exact ⟨queryLen rows b - numLogits rows b, by omega, by omega⟩
    · obtain ⟨block, hblock, rfl⟩ := mem_map.mp hdraft
      have hblock := of_decide_eq_true (mem_filter.mp hblock).2
      exact ⟨queryLen rows b - (numLogits rows b - 1) + block, by omega, by omega⟩
  · rw [mem_singleton] at hstore
    subst hstore
    exact ⟨queryLen rows b - numLogits rows b, by omega, by omega⟩

theorem prepareInputs_inputIds (hfew : FewDrafts rows) (hrow : rows[b]? = some row)
    (hj : j < row.numScheduledTokens) :
    (runner.prepareInputs rows).1.inputIds (queryStartLoc rows b + j) =
      storeAll (combineSampledAndDraftTokensKernel rows runner.reqStates
          (runner.prepareInputs rows).1.seqLens b)
        (storeAll (preparePrefillInputsKernel rows runner.reqStates b) runner.inputIds)
        (queryStartLoc rows b + j) := by
  have hlen := queryLen_eq hrow
  refine (launch_query (hlen ▸ hj) fun b' hb' store => mem_combineKernel hfew hb').trans ?_
  exact storeAll_congr (launch_query (hlen ▸ hj) fun b' _ store => mem_preparePrefillInputsKernel)

section

variable (hfew : FewDrafts rows) (hrow : rows[b]? = some row) {computed : Nat}
  (hcomputed : runner.reqStates.numComputedTokens row.reqStateIdx = computed)
include hfew hrow hcomputed

theorem prepareInputs_inputIds_prefill
    (hlen : computed + row.numScheduledTokens ≤ runner.reqStates.prefillLen row.reqStateIdx)
    (hj : j < row.numScheduledTokens) :
    (runner.prepareInputs rows).1.inputIds (queryStartLoc rows b + j) =
      runner.reqStates.prefillTokenIds row.reqStateIdx (computed + j) := by
  have hnone : combineSampledAndDraftTokensKernel rows runner.reqStates
      (runner.prepareInputs rows).1.seqLens b = [] := by
    refine if_pos ?_
    rw [prepareInputs_seqLens hrow, idxMapping_eq hrow]
    omega
  have hprefill : ¬ (computed : Int) ≥ runner.reqStates.prefillLen row.reqStateIdx := by omega
  rw [prepareInputs_inputIds hfew hrow hj, hnone, preparePrefillInputsKernel, idxMapping_eq hrow,
    hcomputed, if_neg hprefill]
  refine (storeAll_offsets fun _ => mem_tileOffsets (by decide)).trans ?_
  rw [queryLen_eq hrow, if_pos hj]
  congr 1

theorem prepareInputs_inputIds_decode
    (hlen : runner.reqStates.prefillLen row.reqStateIdx ≤ computed)
    (hscheduled : row.numScheduledTokens = row.numDraftTokens + 1)
    (hsteps : row.numDraftTokens ≤ runner.reqStates.numSpeculativeSteps)
    (hj : j ≤ row.numDraftTokens) :
    (runner.prepareInputs rows).1.inputIds (queryStartLoc rows b + j) =
      if j = 0 then runner.reqStates.lastSampledTokens row.reqStateIdx
      else runner.reqStates.draftTokens row.reqStateIdx (j - 1) := by
  have hdecode : ¬ (runner.prepareInputs rows).1.seqLens b ≤
      runner.reqStates.prefillLen (idxMapping rows b) := by
    rw [prepareInputs_seqLens hrow, idxMapping_eq hrow]
    omega
  rw [prepareInputs_inputIds hfew hrow (by omega), combineSampledAndDraftTokensKernel,
    if_neg hdecode, queryStartLoc_succ, queryLen_eq hrow, numLogits_eq hrow, hscheduled,
    idxMapping_eq hrow]
  refine storeAll_of_mem ?_ fun store hstore haddress => ?_
  · cases j with
    | zero => simp
    | succ i =>
      have hbound : row.numDraftTokens ≤ runner.reqStates.numSpeculativeSteps + 1 := by omega
      have hblock := (mem_combineBlock hbound).mpr hj
      rw [if_pos (by omega), map_cons, map_map]
      refine mem_cons_of_mem _ (mem_map.mpr ⟨i, hblock, ?_⟩)
      simp only [Function.comp_apply]
      omega
  · grind

end

end prepared

/-! ### The forward pass -/

section forward

variable {kv : Nat → Option (List Token)} {seq : List Token}

theorem contextBefore_eq {pos : Nat} (hpos : pos ≤ seq.length)
    (hkv : ∀ j < pos, kv j = some (seq.take (j + 1))) :
    contextBefore kv pos = some (seq.take pos) := by
  unfold contextBefore
  cases pos with
  | zero => rfl
  | succ pos =>
    grind

theorem foldl_computeKv {computed n : Nat} {positions : Nat → Int} {inputIds : Nat → Token}
    (hpositions : ∀ j < n, positions j = computed + j)
    (hinputIds : ∀ j < n, seq[computed + j]? = some (inputIds j))
    (hkv : ∀ j < computed, kv j = some (seq.take (j + 1))) (j : Nat) :
    (range n).foldl (fun kv j => computeKv kv (positions j).toNat (inputIds j)) kv j =
      if j < computed + n then some (seq.take (j + 1)) else kv j := by
  induction n generalizing j with
  | zero =>
    split_ifs with hj
    · exact hkv j hj
    · rfl
  | succ n ih =>
    have hprev := ih (fun j hj => hpositions j (by omega)) fun j hj => hinputIds j (by omega)
    have hpos : (positions n).toNat = computed + n := by
      rw [hpositions n (by omega)]
      omega
    have htoken := hinputIds n (by omega)
    have hlt : computed + n < seq.length := (List.getElem?_eq_some_iff.mp htoken).1
    rw [range_succ, foldl_append, foldl_cons, foldl_nil, hpos, computeKv,
      contextBefore_eq hlt.le fun j hj => (hprev j).trans (if_pos hj), Function.update_apply]
    split_ifs with heq hbelow hbelow
    · rw [heq, take_add_one, htoken]
      rfl
    · omega
    · exact (hprev j).trans (if_pos (by omega))
    · exact (hprev j).trans (if_neg (by omega))

end forward

/-! ### The rejection kernel -/

section rejection

variable {targetSampled draftSampled : Nat → Token}

/-- What the loop has done: it has taken the drafts that are the target's choice, and the choice
in place of the first draft that is not. -/
structure Verdict.Taken (targetSampled draftSampled : Nat → Token) (numDrafts : Nat) (v : Verdict) :
    Prop where
  sampled : ∀ i < v.numSampled, v.sampled i = targetSampled i
  running : v.rejected = false →
    v.numSampled = numDrafts ∧ ∀ i < numDrafts, targetSampled i = draftSampled (i + 1)
  rejected : v.rejected = true → 0 < v.numSampled ∧ v.numSampled ≤ numDrafts ∧
    (∀ i < v.numSampled - 1, targetSampled i = draftSampled (i + 1)) ∧
    targetSampled (v.numSampled - 1) ≠ draftSampled v.numSampled

theorem Verdict.Taken.next {numDrafts : Nat} {v : Verdict}
    (h : v.Taken targetSampled draftSampled numDrafts) :
    (v.next targetSampled draftSampled numDrafts).Taken targetSampled draftSampled
      (numDrafts + 1) := by
  cases hrejected : v.rejected with
  | true =>
    obtain ⟨hpos, hle, hsame, hdiffer⟩ := h.rejected hrejected
    have hnext : v.next targetSampled draftSampled numDrafts = v := if_pos hrejected
    rw [hnext]
    exact ⟨h.sampled, fun hrunning => by simp [hrejected] at hrunning,
      fun _ => ⟨hpos, by omega, hsame, hdiffer⟩⟩
  | false =>
    obtain ⟨hnum, hsame⟩ := h.running hrejected
    rw [Verdict.next, hrejected, if_neg Bool.false_ne_true, hnum]
    refine ⟨fun i hi => ?_, fun hrunning => ⟨rfl, fun i hi => ?_⟩, fun hdiffer => ?_⟩
    · simp only [Function.update_apply]
      split_ifs with heq
      · rw [heq]
      · exact h.sampled i (by simp only at hi; omega)
    · rcases Nat.lt_succ_iff_lt_or_eq.mp hi with hlt | rfl
      · exact hsame i hlt
      · simpa using hrunning
    · exact ⟨Nat.succ_pos _, Nat.le_refl _, hsame, of_decide_eq_true hdiffer⟩

theorem rejectionSampleKernel_spec (targetSampled draftSampled : Nat → Token) (numDrafts : Nat) :
    ∃ accepted ≤ numDrafts,
      (rejectionSampleKernel (numDrafts + 1) targetSampled draftSampled).numSampled =
        accepted + 1 ∧
      (∀ i ≤ accepted,
        (rejectionSampleKernel (numDrafts + 1) targetSampled draftSampled).sampled i =
        targetSampled i) ∧
      (∀ i < accepted, targetSampled i = draftSampled (i + 1)) ∧
      (accepted < numDrafts → targetSampled accepted ≠ draftSampled (accepted + 1)) := by
  have hloop : ∀ n, ((range n).foldl (Verdict.next targetSampled draftSampled)
      { sampled := fun _ => 0, numSampled := 0, rejected := false }).Taken targetSampled
        draftSampled n := by
    intro n
    induction n with
    | zero =>
      exact ⟨nofun, fun _ => ⟨rfl, nofun⟩, nofun⟩
    | succ n ih =>
      rw [range_succ, foldl_append]
      exact ih.next
  have htaken := hloop numDrafts
  unfold rejectionSampleKernel
  rw [Nat.add_sub_cancel]
  generalize (range numDrafts).foldl _ _ = v at htaken ⊢
  cases hrejected : v.rejected with
  | true =>
    obtain ⟨hpos, hle, hsame, hdiffer⟩ := htaken.rejected hrejected
    have hnum : v.numSampled - 1 + 1 = v.numSampled := by omega
    rw [if_pos hrejected]
    refine ⟨v.numSampled - 1, by omega, hnum.symm, fun i hi => htaken.sampled i (by omega), hsame,
      fun _ => hnum ▸ hdiffer⟩
  | false =>
    obtain ⟨hnum, hsame⟩ := htaken.running hrejected
    rw [if_neg (by simp [hrejected])]
    refine ⟨numDrafts, Nat.le_refl _, congrArg (· + 1) hnum, fun i hi => ?_, hsame,
      fun h => absurd h (Nat.lt_irrefl _)⟩
    simp only [Function.update_apply]
    split_ifs with heq
    · rw [heq]
    · exact htaken.sampled i (by omega)

end rejection

/-! ### A row of a step -/

section row

variable {rows : List BatchRow} {row : BatchRow} {b : Nat} {runner : Runner}

theorem cuNumLogits_of_no_drafts (hsum : (rows.map BatchRow.numDraftTokens).sum = 0)
    (hrow : rows[b]? = some row) : cuNumLogits rows b = b ∧ row.numDraftTokens = 0 := by
  have hzero : ∀ row ∈ rows, row.numDraftTokens = 0 := fun row hrow =>
    Nat.le_zero.mp (hsum ▸ le_sum_of_mem (mem_map.mpr ⟨row, hrow, rfl⟩))
  have hones : (rows.map fun row => row.numDraftTokens + 1) = replicate rows.length 1 := by
    rw [eq_replicate_iff]
    exact ⟨length_map .., forall_mem_map.mpr fun row hrow => congrArg (· + 1) (hzero row hrow)⟩
  have hb : b < rows.length := (List.getElem?_eq_some_iff.mp hrow).1
  refine ⟨?_, hzero row (mem_of_getElem? hrow)⟩
  rw [cuNumLogits, hones, rowStart_replicate _ _ hb.le, Nat.mul_one]

theorem mem_lastSampledKernel {sampled : Nat → Nat → Token} {numSampled : Nat → Nat}
    (hstore : store ∈ lastSampledKernel rows sampled numSampled b) :
    store.1 = idxMapping rows b := by
  rw [lastSampledKernel] at hstore
  split_ifs at hstore with hsome
  · rw [mem_singleton.mp hstore]
  · cases hstore

theorem sampleTokens_spec (targetSampled inputIds : Nat → Token) (hrow : rows[b]? = some row) :
    ∃ accepted ≤ row.numDraftTokens,
      (sampleTokens rows targetSampled inputIds).2 b = accepted + 1 ∧
      (∀ i ≤ accepted, (sampleTokens rows targetSampled inputIds).1 b i =
        targetSampled (cuNumLogits rows b + i)) ∧
      (∀ i < accepted, targetSampled (cuNumLogits rows b + i) =
        inputIds (cuNumLogits rows b + (i + 1))) ∧
      (accepted < row.numDraftTokens → targetSampled (cuNumLogits rows b + accepted) ≠
        inputIds (cuNumLogits rows b + (accepted + 1))) := by
  unfold sampleTokens
  split_ifs with hnone
  · obtain ⟨hcu, hdrafts⟩ := cuNumLogits_of_no_drafts hnone hrow
    refine ⟨0, Nat.zero_le _, rfl, fun i hi => ?_, nofun,
      fun h => by omega⟩
    rw [hcu, Nat.le_zero.mp hi]
    rfl
  · have hspec := rejectionSampleKernel_spec (fun i => targetSampled (cuNumLogits rows b + i))
      (fun i => inputIds (cuNumLogits rows b + i)) row.numDraftTokens
    rw [← numLogits_eq hrow] at hspec
    exact hspec

/-- The runner after the forward pass. -/
abbrev Runner.forwarded (runner : Runner) (rows : List BatchRow) : Runner :=
  (runner.prepareInputs rows).1.forward rows

abbrev Runner.choices (runner : Runner) (rows : List BatchRow)
    (sampler : ReqId → Option (List Token) → Token) : Nat → Token :=
  (runner.forwarded rows).targetSampled rows (runner.prepareInputs rows).2 sampler

structure OnLine (runner : Runner) (rows : List BatchRow) (b : Nat) (row : BatchRow)
    (computed : Nat) (seq : List Token) : Prop where
  getRow : rows[b]? = some row
  steps : row.numDraftTokens ≤ runner.reqStates.numSpeculativeSteps
  few : row.numDraftTokens < row.numScheduledTokens
  numComputed : runner.reqStates.numComputedTokens row.reqStateIdx = computed
  inputIds : ∀ j < row.numScheduledTokens, seq[computed + j]? =
    some ((runner.prepareInputs rows).1.inputIds (queryStartLoc rows b + j))
  kv : ∀ j < computed, runner.kv row.reqStateIdx j = some (seq.take (j + 1))

variable {computed : Nat} {seq : List Token} {sampler : ReqId → Option (List Token) → Token}
  {drafts : ReqId → Nat → Token}

namespace OnLine

variable (h : OnLine runner rows b row computed seq)
include h

theorem positions {j : Nat} (hj : j < row.numScheduledTokens) :
    (runner.prepareInputs rows).1.positions (queryStartLoc rows b + j) = computed + j := by
  rw [prepareInputs_positions h.getRow hj, h.numComputed]

theorem forward_kv (hnodup : (rows.map BatchRow.reqStateIdx).Nodup) (j : Nat) :
    (runner.forwarded rows).kv row.reqStateIdx j =
      if j < computed + row.numScheduledTokens then some (seq.take (j + 1))
      else runner.kv row.reqStateIdx j := by
  have hrow : (runner.forwarded rows).kv row.reqStateIdx =
      (runner.prepareInputs rows).1.forwardRow rows b := launch_single hnodup h.getRow _
  rw [hrow, Runner.forwardRow, queryLen_eq h.getRow, idxMapping_eq h.getRow]
  exact foldl_computeKv (fun j hj => h.positions hj) h.inputIds h.kv j

theorem logit_lt (hi : i ≤ row.numDraftTokens) :
    row.numScheduledTokens - (row.numDraftTokens + 1) + i < row.numScheduledTokens := by
  have hfew := h.few
  omega

theorem targetSampled_eq (hnodup : (rows.map BatchRow.reqStateIdx).Nodup)
    (sampler : ReqId → Option (List Token) → Token) (hi : i ≤ row.numDraftTokens) :
    runner.choices rows sampler (cuNumLogits rows b + i) =
      sampler row.reqId (some (seq.take
        (computed + row.numScheduledTokens - row.numDraftTokens + i))) := by
  have hlogits := numLogits_eq h.getRow
  have hfew := h.few
  have hlt := h.logit_lt hi
  have hpos : ((runner.forwarded rows).positions
      ((runner.prepareInputs rows).2 (cuNumLogits rows b + i))).toNat =
        computed + (row.numScheduledTokens - (row.numDraftTokens + 1) + i) := by
    rw [prepareInputs_logitsIndices h.getRow h.steps h.few hi]
    refine (congrArg Int.toNat (h.positions hlt)).trans ?_
    omega
  refine (launch_logits (by omega) fun b' _ store hstore => ?_).trans ?_
  · obtain ⟨i, hi, rfl⟩ := mem_map.mp hstore
    exact ⟨i, mem_range.mp hi, rfl⟩
  · refine (storeAll_offsets fun _ => mem_range).trans ?_
    rw [if_pos (by omega), reqIds_eq h.getRow, idxMapping_eq h.getRow, h.forward_kv hnodup,
      if_pos (by omega)]
    congr 3
    omega

theorem logits_inputIds (hi : i ≤ row.numDraftTokens) :
    seq[computed + row.numScheduledTokens - (row.numDraftTokens + 1) + i]? =
      some ((runner.prepareInputs rows).1.inputIds
        ((runner.prepareInputs rows).2 (cuNumLogits rows b + i))) := by
  have hfew := h.few
  rw [prepareInputs_logitsIndices h.getRow h.steps h.few hi, ← h.inputIds _ (h.logit_lt hi)]
  congr 1
  omega

theorem sampleBatch_counts (numSampled : Nat → Nat) :
    getNumSampledAndRejected rows (runner.forwarded rows).reqStates
        (runner.forwarded rows).seqLens numSampled b =
      if computed + row.numScheduledTokens < runner.reqStates.prefillLen row.reqStateIdx then (0, 0)
      else (numSampled b, (row.numDraftTokens + 1 : Int) - numSampled b) := by
  have hseq : (runner.forwarded rows).seqLens b =
      (computed + row.numScheduledTokens : Nat) := by
    refine (prepareInputs_seqLens h.getRow).trans ?_
    rw [h.numComputed]
    omega
  have hchunk : ((runner.forwarded rows).seqLens b <
      (runner.forwarded rows).reqStates.prefillLen (idxMapping rows b)) ↔
        computed + row.numScheduledTokens < runner.reqStates.prefillLen row.reqStateIdx := by
    rw [hseq, idxMapping_eq h.getRow]
    exact Int.ofNat_lt
  unfold getNumSampledAndRejected
  rw [numLogits_eq h.getRow]
  split_ifs with hlt
  · simp [hchunk, hlt]
  · simp [hchunk, hlt]

theorem sampleBatch_chunk (sampler : ReqId → Option (List Token) → Token)
    (hchunk : computed + row.numScheduledTokens < runner.reqStates.prefillLen row.reqStateIdx) :
    (runner.sampleBatch rows sampler).2 b = (0, 0) :=
  (h.sampleBatch_counts _).trans (if_pos hchunk)

theorem sampleBatch_sampled (hnodup : (rows.map BatchRow.reqStateIdx).Nodup)
    (sampler : ReqId → Option (List Token) → Token)
    (hend : runner.reqStates.prefillLen row.reqStateIdx ≤ computed + row.numScheduledTokens)
    {known : Nat} (hknown : computed + row.numScheduledTokens = known + row.numDraftTokens) :
    ∃ accepted ≤ row.numDraftTokens,
      (runner.sampleBatch rows sampler).2 b =
        (accepted + 1, ((row.numDraftTokens - accepted : Nat) : Int)) ∧
      (∀ i ≤ accepted, (runner.sampleBatch rows sampler).1 b i =
        sampler row.reqId (some (seq.take (known + i)))) ∧
      (∀ i < accepted, seq[known + i]? = some (sampler row.reqId (some (seq.take (known + i))))) ∧
      (accepted < row.numDraftTokens →
        seq[known + accepted]? ≠
          some (sampler row.reqId (some (seq.take (known + accepted))))) := by
  have hfew := h.few
  have htarget : ∀ i ≤ row.numDraftTokens,
      runner.choices rows sampler (cuNumLogits rows b + i) =
        sampler row.reqId (some (seq.take (known + i))) := by
    intro i hi
    rw [h.targetSampled_eq hnodup sampler hi]
    congr 3
    omega
  have hline : ∀ i < row.numDraftTokens, seq[known + i]? =
      some ((runner.prepareInputs rows).1.inputIds
        ((runner.prepareInputs rows).2 (cuNumLogits rows b + (i + 1)))) := by
    intro i hi
    rw [← h.logits_inputIds hi]
    congr 1
    omega
  obtain ⟨accepted, hle, hnum, hsampled, hsame, hdiffer⟩ := sampleTokens_spec
    (runner.choices rows sampler)
    (fun logit => (runner.prepareInputs rows).1.inputIds ((runner.prepareInputs rows).2 logit))
    h.getRow
  refine ⟨accepted, hle, ?_, fun i hi => ?_, fun i hi => ?_, fun hlt => ?_⟩
  · have hcounts : ∀ n : Nat, n = accepted + 1 → (n, (row.numDraftTokens + 1 : Int) - n) =
        (accepted + 1, ((row.numDraftTokens - accepted : Nat) : Int)) := by
      rintro n rfl
      rw [Prod.mk.injEq]
      exact ⟨rfl, by omega⟩
    exact (h.sampleBatch_counts _).trans ((if_neg (by omega)).trans (hcounts _ hnum))
  · exact (hsampled i hi).trans (htarget i (by omega))
  · rw [hline i (by omega), ← htarget i (by omega), hsame i hi]
  · rw [hline accepted hlt, ← htarget accepted hle]
    exact fun heq => hdiffer hlt (Option.some.inj heq).symm

theorem runBatch_sampledTokenIds :
    (runner.runBatch rows sampler drafts).sampledTokenIds[b]? = some (row.reqId,
      (range ((runner.sampleBatch rows sampler).2 b).1).map
        ((runner.sampleBatch rows sampler).1 b)) := by
  unfold Runner.runBatch
  rw [getElem?_mapIdx, h.getRow]
  rfl

variable (hnodup : (rows.map BatchRow.reqStateIdx).Nodup)
include hnodup

theorem runBatch_numComputedTokens :
    (runner.runBatch rows sampler drafts).runner.reqStates.numComputedTokens row.reqStateIdx =
      computed + (row.numScheduledTokens - ((runner.sampleBatch rows sampler).2 b).2) := by
  refine (launch_single hnodup h.getRow _).trans ?_
  rw [idxMapping_eq h.getRow, queryLen_eq h.getRow]
  exact congrArg (· + _) h.numComputed

theorem runBatch_lastSampledTokens :
    (runner.runBatch rows sampler drafts).runner.reqStates.lastSampledTokens row.reqStateIdx =
      if ((runner.sampleBatch rows sampler).2 b).1 > 0 then
        (runner.sampleBatch rows sampler).1 b (((runner.sampleBatch rows sampler).2 b).1 - 1)
      else runner.reqStates.lastSampledTokens row.reqStateIdx := by
  refine (launch_idx hnodup h.getRow fun b' _ _ => mem_lastSampledKernel).trans ?_
  rw [lastSampledKernel, idxMapping_eq h.getRow]
  split_ifs with hsome
  · exact storeAll_of_mem (by simp) (by simp)
  · rfl

theorem runBatch_draftTokens :
    (runner.runBatch rows sampler drafts).runner.reqStates.draftTokens row.reqStateIdx =
      drafts row.reqId := by
  refine (launch_single hnodup h.getRow _).trans ?_
  rw [reqIds_eq h.getRow]

end OnLine

end row

end LongCtxSpecDecode.Gpu
