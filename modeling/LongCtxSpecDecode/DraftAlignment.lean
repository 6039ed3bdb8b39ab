import LongCtxSpecDecode.Library.Ragged
import LongCtxSpecDecode.Request

/-!
# The hidden states behind the draft probabilities

The buffer of hidden states of `SparseAttnProposer`, with the map from the rows of a batch to its
rows that `update_batch_order` keeps. Runs are sequences of batches; the drafts of a request stay
until it is scheduled again, is preempted or ends.
-/

namespace LongCtxSpecDecode

open Library.Ragged List

/-- The fields of `SparseAttnProposer` behind `get_draft_probs`. A dictionary of row indices is the
list of the requests by row. -/
structure DraftBuffers (H : Type) where
  draftHiddenStates : Nat → Nat → H
  prevReqIdToIndex : Option (List ReqId) := none
  needBatchReorder : Bool := false
  batchReorderMapping : Nat → Nat := fun _ => 0

variable {r : ReqId} {lens : List Nat}

namespace DraftBuffers

variable {H : Type}

/-- The entry of the map for a request at row `newIndex`. -/
def remap (prev : List ReqId) (mapping : Nat → Nat) (item : ReqId × Nat) : Nat → Nat :=
  Function.update mapping item.2 (match prev.idxOf? item.1 with
    | some prevIndex => prevIndex
    | none => item.2)

variable (b : DraftBuffers H)

def updateBatchOrder (reqIds : List ReqId) : DraftBuffers H :=
  match b.prevReqIdToIndex with
  | none => { b with prevReqIdToIndex := some reqIds, needBatchReorder := false }
  | some prev =>
    if reqIds = prev then
      { b with prevReqIdToIndex := some reqIds, needBatchReorder := false }
    else
      { b with
        prevReqIdToIndex := some reqIds
        needBatchReorder := true
        batchReorderMapping := reqIds.zipIdx.foldl (remap prev) b.batchReorderMapping }

/-- The copy in `_save_hidden_states_and_sample`. -/
def saveHiddenStates (batchSize : Nat) (hidden : Nat → Nat → H) (b : DraftBuffers H)
    (draftDepth : Nat) : DraftBuffers H :=
  { b with draftHiddenStates := fun row depth =>
      if row < batchSize ∧ depth = draftDepth then hidden row draftDepth
      else b.draftHiddenStates row depth }

/-- The draft steps of `propose`, which see the hidden states `hidden`. -/
def propose (numSpeculativeTokens batchSize : Nat) (hidden : Nat → Nat → H) : DraftBuffers H :=
  (range numSpeculativeTokens).foldl (saveHiddenStates batchSize hidden) b

/-- One block of `gather_hidden_kernel`. -/
def gatherHiddenKernel (src : Nat → Nat → H) (cuNumTokens : List Nat) (mapping : Nat → Nat)
    (reqIdx : Nat) (output : Nat → Option H) (tokenIdx : Nat) : Nat → Option H :=
  let srcRow := mapping reqIdx
  let start := if reqIdx > 0 then cuNumTokens.getD (reqIdx - 1) 0 else 0
  let nTokens := cuNumTokens.getD reqIdx 0 - start
  if tokenIdx ≥ nTokens then output
  else Function.update output (start + tokenIdx) (some (src srcRow tokenIdx))

/-- `gather_draft_hidden_states`: a grid of `batch_size` times `num_speculative_tokens`. -/
def gatherDraftHiddenStates (src : Nat → Nat → H) (cuNumDraftTokens : List Nat)
    (numSpeculativeTokens batchSize : Nat) (mapping : Nat → Nat) : Nat → Option H :=
  (range batchSize).foldl
    (fun output reqIdx => (range numSpeculativeTokens).foldl
      (gatherHiddenKernel src cuNumDraftTokens mapping reqIdx) output)
    fun _ => none

/-- The hidden states that `get_draft_probs` computes the rows from, by flat index. -/
def draftHiddenStatesFor (numSpeculativeTokens : Nat) (numDraftTokens : List Nat) :
    Nat → Option H :=
  let batchSize := (cumsum numDraftTokens).length
  if b.needBatchReorder = false ∧ batchSize * numSpeculativeTokens = numDraftTokens.sum then
    fun k => some (b.draftHiddenStates (k / numSpeculativeTokens) (k % numSpeculativeTokens))
  else
    gatherDraftHiddenStates b.draftHiddenStates (cumsum numDraftTokens) numSpeculativeTokens
      batchSize (if b.needBatchReorder then b.batchReorderMapping else id)

/-- The row of the buffer that row `i` of the batch is read from. -/
def sourceRow (i : Nat) : Nat :=
  if b.needBatchReorder then b.batchReorderMapping i else i

theorem propose_draftHiddenStates (numSpeculativeTokens batchSize : Nat) (hidden : Nat → Nat → H)
    (row depth : Nat) :
    (b.propose numSpeculativeTokens batchSize hidden).draftHiddenStates row depth =
      if row < batchSize ∧ depth < numSpeculativeTokens then hidden row depth
      else b.draftHiddenStates row depth := by
  unfold propose
  induction numSpeculativeTokens with
  | zero => exact (if_neg fun h => Nat.not_lt_zero _ h.2).symm
  | succ n ih =>
    rw [range_succ, foldl_append]
    by_cases hsaved : row < batchSize ∧ depth = n
    · refine (if_pos hsaved).trans ?_
      rw [if_pos ⟨hsaved.1, Nat.lt_succ_of_le (Nat.le_of_eq hsaved.2)⟩, hsaved.2]
    · refine (if_neg hsaved).trans (ih.trans (if_congr ?_ rfl rfl))
      omega

theorem propose_prevReqIdToIndex (numSpeculativeTokens batchSize : Nat) (hidden : Nat → Nat → H) :
    (b.propose numSpeculativeTokens batchSize hidden).prevReqIdToIndex = b.prevReqIdToIndex := by
  unfold propose
  induction numSpeculativeTokens with
  | zero => rfl
  | succ n ih =>
    rw [range_succ, foldl_append]
    exact ih

theorem updateBatchOrder_draftHiddenStates (reqIds : List ReqId) :
    (b.updateBatchOrder reqIds).draftHiddenStates = b.draftHiddenStates := by
  unfold updateBatchOrder
  split
  · rfl
  · split
    · rfl
    · rfl

theorem updateBatchOrder_prevReqIdToIndex (reqIds : List ReqId) :
    (b.updateBatchOrder reqIds).prevReqIdToIndex = some reqIds := by
  unfold updateBatchOrder
  split
  · rfl
  · split
    · rfl
    · rfl

theorem idxOf?_of_nodup {l : List ReqId} (hnodup : l.Nodup) {i : Nat} (hi : l[i]? = some r) :
    l.idxOf? r = some i := by
  obtain ⟨hlt, hr⟩ := List.getElem?_eq_some_iff.mp hi
  refine idxOf?_eq_some_iff.mpr ⟨hlt, hr, fun j hj heq => ?_⟩
  exact Nat.ne_of_lt hj (hnodup.getElem_inj_iff.mp (heq.trans hr.symm))

theorem foldl_remap_of_lt (prev reqIds : List ReqId) {row start : Nat} (h : row < start)
    (mapping : Nat → Nat) : (reqIds.zipIdx start).foldl (remap prev) mapping row = mapping row := by
  induction reqIds generalizing start mapping with
  | nil => rfl
  | cons r reqIds ih =>
    rw [zipIdx_cons, foldl_cons, ih (Nat.lt_succ_of_lt h)]
    exact Function.update_of_ne (Nat.ne_of_lt h) ..

theorem foldl_remap (prev reqIds : List ReqId) (start : Nat) (mapping : Nat → Nat) {i : Nat}
    (hi : reqIds[i]? = some r) :
    (reqIds.zipIdx start).foldl (remap prev) mapping (start + i) =
      (prev.idxOf? r).getD (start + i) := by
  induction reqIds generalizing start mapping i with
  | nil => simp at hi
  | cons r' reqIds ih =>
    cases i with
    | zero =>
      obtain rfl : r' = r := Option.some.inj hi
      refine (foldl_remap_of_lt prev reqIds (Nat.lt_succ_self start) _).trans ?_
      refine (Function.update_self ..).trans ?_
      cases prev.idxOf? r' with
      | none => rfl
      | some prevIndex => rfl
    | succ i =>
      have hrest := ih (start + 1) (remap prev mapping (r', start)) hi
      rw [show start + 1 + i = start + (i + 1) by omega] at hrest
      exact hrest

theorem sourceRow_updateBatchOrder {b : DraftBuffers H} {prev reqIds : List ReqId}
    (hprev : b.prevReqIdToIndex = some prev) {i i' : Nat} (hi : reqIds[i]? = some r)
    (hi' : prev[i']? = some r) (hnodup : prev.Nodup) :
    (b.updateBatchOrder reqIds).sourceRow i = i' := by
  have hidx := idxOf?_of_nodup hnodup hi'
  unfold updateBatchOrder
  rw [hprev]
  dsimp only
  by_cases hsame : reqIds = prev
  · rw [if_pos hsame]
    rw [hsame] at hi
    exact Option.some.inj ((idxOf?_of_nodup hnodup hi).symm.trans hidx)
  · rw [if_neg hsame]
    have hmap := foldl_remap prev reqIds 0 b.batchReorderMapping hi
    rw [Nat.zero_add, hidx] at hmap
    exact hmap

theorem gatherHiddenKernel_eq (src : Nat → Nat → H) (mapping : Nat → Nat) {reqIdx : Nat}
    (hidx : reqIdx < lens.length) :
    gatherHiddenKernel src (cumsum lens) mapping reqIdx =
      writeEntry (rowStart lens reqIdx) (lens.getD reqIdx 0) fun tokenIdx =>
        some (src (mapping reqIdx) tokenIdx) := by
  funext output tokenIdx
  unfold gatherHiddenKernel writeEntry
  rw [start_eq_rowStart hidx]
  dsimp only
  rw [cumsum_sub_rowStart hidx]
  by_cases htoken : tokenIdx < lens.getD reqIdx 0
  · rw [if_pos htoken, if_neg (Nat.not_le_of_lt htoken)]
  · rw [if_neg htoken, if_pos (Nat.le_of_not_lt htoken)]

theorem draftHiddenStatesFor_eq {numSpec : Nat} (hlens : ∀ i, lens.getD i 0 ≤ numSpec) {i j : Nat}
    (hj : j < lens.getD i 0) :
    b.draftHiddenStatesFor numSpec lens (rowStart lens i + j) =
      some (b.draftHiddenStates (b.sourceRow i) j) := by
  have hi : i < lens.length := lt_length_of_getD hj
  unfold draftHiddenStatesFor sourceRow
  rw [cumsum_length]
  by_cases hfast : b.needBatchReorder = false ∧ lens.length * numSpec = lens.sum
  · rw [if_pos hfast, hfast.1]
    have hle : ∀ len ∈ lens, len ≤ numSpec := by
      intro len hlen
      obtain ⟨k, hk, rfl⟩ := getElem_of_mem hlen
      rw [← getD_eq_getElem lens 0 hk]
      exact hlens k
    have hfull := eq_replicate_of_sum hle hfast.2
    have hstart : rowStart lens i = i * numSpec := by
      rw [hfull]
      exact rowStart_replicate _ _ (Nat.le_of_lt hi)
    have hj : j < numSpec := Nat.lt_of_lt_of_le hj (hlens i)
    rw [hstart, Nat.mul_comm, Nat.mul_add_div (by omega), Nat.div_eq_of_lt hj, Nat.mul_add_mod,
      Nat.mod_eq_of_lt hj]
    rfl
  · rw [if_neg hfast]
    have hgather := foldl_writeRows
      (fun reqIdx hidx => gatherHiddenKernel_eq b.draftHiddenStates
        (if b.needBatchReorder then b.batchReorderMapping else id) hidx)
      hlens (fun _ => none) hj lens.length (Nat.le_refl _)
    rw [if_pos hi] at hgather
    refine hgather.trans ?_
    cases b.needBatchReorder with
    | true => rfl
    | false => rfl

end DraftBuffers

/-- Drafts that the scheduler holds for a request, with the hidden states that the call of
`propose` saved for them. -/
structure PendingDrafts (H : Type) where
  count : Nat
  hidden : Nat → H

/-- The drafter's buffers, and for each request the drafts to be verified. -/
structure DraftingState (H : Type) where
  buffers : DraftBuffers H
  pending : ReqId → Option (PendingDrafts H)

/-- One step of the engine, as the drafter sees it. -/
structure BatchStep (H : Type) where
  /-- The batch by row, after `_update_states`. -/
  reqIds : List ReqId
  numDraftTokens : List Nat
  /-- What `propose` saves, by row and depth, unless the batch does not fit into the drafter. -/
  hidden : Option (Nat → Nat → H)
  /-- How many of the new drafts the scheduler takes: none for a request that ended, was preempted
  or is not done with its prompt, and fewer if a grammar refuses some. -/
  taken : ReqId → Option Nat
  /-- The requests outside the batch that lose their drafts, as they ended or were preempted. -/
  dropped : ReqId → Bool

namespace DraftingState

variable {H : Type}

def init (hidden : Nat → Nat → H) : DraftingState H where
  buffers := { draftHiddenStates := hidden }
  pending _ := none

def next (numSpec : Nat) (s : DraftingState H) (step : BatchStep H) : DraftingState H where
  buffers :=
    let buffers := s.buffers.updateBatchOrder step.reqIds
    match step.hidden with
    | none => buffers
    | some hidden => buffers.propose numSpec step.reqIds.length hidden
  pending r :=
    match step.reqIds.idxOf? r with
    | some i => step.hidden.bind fun hidden => (step.taken r).map fun count => ⟨count, hidden i⟩
    | none => if step.dropped r then none else s.pending r

/-- What the scheduler guarantees of a step. -/
structure Permits (numSpec : Nat) (s : DraftingState H) (step : BatchStep H) : Prop where
  nodup : step.reqIds.Nodup
  length : step.numDraftTokens.length = step.reqIds.length
  scheduled : ∀ i r, step.reqIds[i]? = some r → 0 < step.numDraftTokens.getD i 0 →
    ∃ d, s.pending r = some d ∧ step.numDraftTokens.getD i 0 ≤ d.count
  taken : ∀ r count, step.taken r = some count → count ≤ numSpec

/-- Each draft of the step gets the hidden state that was saved for it. -/
def Aligned (numSpec : Nat) (s : DraftingState H) (step : BatchStep H) : Prop :=
  ∀ i j r d, step.reqIds[i]? = some r → j < step.numDraftTokens.getD i 0 → s.pending r = some d →
    (s.buffers.updateBatchOrder step.reqIds).draftHiddenStatesFor numSpec step.numDraftTokens
      (rowStart step.numDraftTokens i + j) = some (d.hidden j)

/-- Requests with drafts were in the batch before. -/
def InPreviousBatch (s : DraftingState H) (step : BatchStep H) : Prop :=
  ∀ i r, step.reqIds[i]? = some r → 0 < step.numDraftTokens.getD i 0 →
    ∃ prev, s.buffers.prevReqIdToIndex = some prev ∧ r ∈ prev

/-- `P` holds at each step of a run. -/
def AlongRun (numSpec : Nat) (P : DraftingState H → BatchStep H → Prop) :
    DraftingState H → List (BatchStep H) → Prop
  | _, [] => True
  | s, step :: steps => P s step ∧ AlongRun numSpec P (s.next numSpec step) steps

/-- The buffers have the hidden states of all pending drafts. -/
structure Saved (numSpec : Nat) (s : DraftingState H) : Prop where
  count_le : ∀ r d, s.pending r = some d → d.count ≤ numSpec
  nodup : ∀ prev, s.buffers.prevReqIdToIndex = some prev → prev.Nodup
  row : ∀ prev i r d, s.buffers.prevReqIdToIndex = some prev → prev[i]? = some r →
    s.pending r = some d → ∀ j < numSpec, s.buffers.draftHiddenStates i j = d.hidden j

theorem saved_init (numSpec : Nat) (hidden : Nat → Nat → H) : (init hidden).Saved numSpec where
  count_le _ _ h := nomatch h
  nodup _ h := nomatch h
  row _ _ _ _ h := nomatch h

variable {numSpec : Nat} {s : DraftingState H} {step : BatchStep H}

theorem next_prevReqIdToIndex :
    (s.next numSpec step).buffers.prevReqIdToIndex = some step.reqIds := by
  unfold next
  cases step.hidden with
  | none => exact DraftBuffers.updateBatchOrder_prevReqIdToIndex ..
  | some hidden =>
    exact (DraftBuffers.propose_prevReqIdToIndex ..).trans
      (DraftBuffers.updateBatchOrder_prevReqIdToIndex ..)

theorem next_pending {d : PendingDrafts H} (h : (s.next numSpec step).pending r = some d) :
    (∃ i hidden, step.reqIds.idxOf? r = some i ∧ step.hidden = some hidden ∧
      step.taken r = some d.count ∧ d.hidden = hidden i) ∨
    (step.reqIds.idxOf? r = none ∧ s.pending r = some d) := by
  unfold next at h
  dsimp only at h
  split at h
  · grind [Option.bind_eq_some_iff, Option.map_eq_some_iff]
  · next hidx =>
      split at h
      · cases h
      · exact Or.inr ⟨hidx, h⟩

theorem Saved.next (h : s.Saved numSpec) (hstep : Permits numSpec s step) :
    (s.next numSpec step).Saved numSpec := by
  constructor
  · intro r d hd
    rcases next_pending hd with ⟨i, hidden, -, -, htaken, -⟩ | ⟨-, hold⟩
    · exact hstep.taken r d.count htaken
    · exact h.count_le r d hold
  · intro prev hprev
    rw [next_prevReqIdToIndex] at hprev
    exact Option.some.inj hprev ▸ hstep.nodup
  · intro prev i r d hprev hi hd j hj
    rw [next_prevReqIdToIndex] at hprev
    obtain rfl := Option.some.inj hprev
    have hidx := DraftBuffers.idxOf?_of_nodup hstep.nodup hi
    rcases next_pending hd with ⟨i', hidden, hidx', hhidden, -, hd⟩ | ⟨hidx', -⟩
    · grind [next, DraftBuffers.propose_draftHiddenStates]
    · rw [hidx] at hidx'
      cases hidx'

theorem Permits.numDraftTokens_le (hstep : Permits numSpec s step) (h : s.Saved numSpec) (i : Nat) :
    step.numDraftTokens.getD i 0 ≤ numSpec := by
  rcases Nat.eq_zero_or_pos (step.numDraftTokens.getD i 0) with hzero | hpos
  · omega
  · have hi : i < step.reqIds.length := hstep.length ▸ lt_length_of_getD hpos
    obtain ⟨d, hd, hle⟩ := hstep.scheduled i _ (getElem?_eq_getElem hi) hpos
    exact Nat.le_trans hle (h.count_le _ d hd)

theorem Saved.aligned (h : s.Saved numSpec) (hstep : Permits numSpec s step)
    (hprev : InPreviousBatch s step) : Aligned numSpec s step := by
  intro i j r d hi hj hd
  obtain ⟨prev, hprev, hmem⟩ := hprev i r hi (Nat.zero_lt_of_lt hj)
  obtain ⟨i', hi'⟩ := getElem?_of_mem hmem
  have hlens := hstep.numDraftTokens_le h
  rw [DraftBuffers.draftHiddenStatesFor_eq _ hlens hj,
    DraftBuffers.sourceRow_updateBatchOrder hprev hi hi' (h.nodup prev hprev),
    DraftBuffers.updateBatchOrder_draftHiddenStates,
    h.row prev i' r d hprev hi' hd j (Nat.lt_of_lt_of_le hj (hlens i))]

theorem Saved.alongRun {steps : List (BatchStep H)} (h : s.Saved numSpec)
    (hpermits : AlongRun numSpec (Permits numSpec) s steps)
    (hprev : AlongRun numSpec InPreviousBatch s steps) :
    AlongRun numSpec (Aligned numSpec) s steps := by
  induction steps generalizing s with
  | nil => trivial
  | cons step steps ih =>
    exact ⟨h.aligned hpermits.1 hprev.1, ih (h.next hpermits.1) hpermits.2 hprev.2⟩

end DraftingState

open DraftingState

/-- In a run where every request with scheduled drafts was in the batch before, each row of the
draft probabilities is computed from what was saved for its draft. -/
theorem draft_rows_aligned {H : Type} (numSpec : Nat) (hidden : Nat → Nat → H)
    (steps : List (BatchStep H)) (hpermits : AlongRun numSpec (Permits numSpec) (init hidden) steps)
    (hprev : AlongRun numSpec InPreviousBatch (init hidden) steps) :
    AlongRun numSpec (Aligned numSpec) (init hidden) steps :=
  (saved_init numSpec hidden).alongRun hpermits hprev

/-- A step in which every request takes one draft over, and the hidden state of row `i` is
`label + i`. -/
def singleDrafts (reqIds : List ReqId) (numDraftTokens : List Nat) (label : Nat) :
    BatchStep Nat where
  reqIds := reqIds
  numDraftTokens := numDraftTokens
  hidden := some fun row _ => label + row
  taken _ := some 1
  dropped _ := false

theorem permits_singleDrafts {s : DraftingState Nat} {reqIds : List ReqId} (label : Nat)
    (hnodup : reqIds.Nodup) (hlen : lens.length = reqIds.length)
    (hheld : ∀ i < reqIds.length, 0 < lens.getD i 0 → ∃ d, (reqIds[i]?.bind s.pending) = some d ∧
      lens.getD i 0 ≤ d.count) :
    Permits 1 s (singleDrafts reqIds lens label) where
  nodup := hnodup
  length := hlen
  scheduled i r hi hpos := by
    obtain ⟨d, hd, hle⟩ := hheld i (List.getElem?_eq_some_iff.mp hi).1 hpos
    have hi : reqIds[i]? = some r := hi
    rw [hi] at hd
    exact ⟨d, hd, hle⟩
  taken _ _ h := Nat.le_of_eq (Option.some.inj h).symm

def swappedRun : List (BatchStep Nat) :=
  [singleDrafts [0, 1] [0, 0] 10, singleDrafts [1, 0] [1, 1] 20]

theorem draft_rows_aligned_swapped :
    AlongRun 1 (Permits 1) (init fun _ _ => 0) swappedRun ∧
      AlongRun 1 (Aligned 1) (init fun _ _ => 0) swappedRun := by
  have hpermits : AlongRun 1 (Permits 1) (init fun _ _ => 0) swappedRun := by
    refine ⟨permits_singleDrafts 10 (by decide) rfl ?_, permits_singleDrafts 20 (by decide) rfl ?_,
      trivial⟩
    · decide
    · intro i hi _
      have hcases : i = 0 ∨ i = 1 := by
        rw [length_cons, length_singleton] at hi
        omega
      rcases hcases with rfl | rfl
      · exact ⟨⟨1, fun _ => 11⟩, rfl, by decide⟩
      · exact ⟨⟨1, fun _ => 10⟩, rfl, by decide⟩
  refine ⟨hpermits, draft_rows_aligned 1 (fun _ _ => 0) swappedRun hpermits ⟨?_, ?_, trivial⟩⟩
  · intro i r hi hpos
    -- no drafts yet
    have hnone : ∀ i < 2, ¬0 < ([0, 0] : List Nat).getD i 0 := by decide
    have hi : i < 2 := (List.getElem?_eq_some_iff.mp hi).1
    exact absurd hpos (hnone i hi)
  · intro i r hi _
    have hmem : r ∈ [1, 0] := mem_of_getElem? hi
    exact ⟨[0, 1], rfl, mem_pair.mpr (mem_pair.mp hmem).symm⟩

/-- Request `1` is left out of the second batch while it keeps its draft. -/
def pausedRun : List (BatchStep Nat) :=
  [singleDrafts [0, 1] [0, 0] 10, singleDrafts [0] [1] 20, singleDrafts [1] [1] 30]

theorem pausedRun_not_aligned :
    AlongRun 1 (Permits 1) (init fun _ _ => 0) pausedRun ∧
      ¬AlongRun 1 (Aligned 1) (init fun _ _ => 0) pausedRun := by
  refine ⟨⟨permits_singleDrafts 10 (by decide) rfl ?_, permits_singleDrafts 20 (by decide) rfl ?_,
    permits_singleDrafts 30 (by decide) rfl ?_, trivial⟩, fun h => ?_⟩
  · decide
  · intro i hi _
    obtain rfl : i = 0 := Nat.lt_one_iff.mp hi
    exact ⟨⟨1, fun _ => 10⟩, rfl, by decide⟩
  · intro i hi _
    obtain rfl : i = 0 := Nat.lt_one_iff.mp hi
    exact ⟨⟨1, fun _ => 11⟩, rfl, by decide⟩
  · -- row `0` of the buffer was overwritten for request `0` in the second step
    have hrow := h.2.2.1 0 0 1 ⟨1, fun _ => 11⟩ rfl (by decide) rfl
    exact absurd hrow (by decide)

end LongCtxSpecDecode
