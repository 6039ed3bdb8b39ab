import LongCtxSpecDecode.InputBatchRuns

/-!
# Swapping two rows of the batch

`swap_states` is meant to transpose two rows. It does so if the rows agree in what it does not
exchange: in the mask of the allowed tokens, which is exchanged through views of the tensor, in
`logits_processing_needs_token_ids`, and for a pooling model in the sampling parameters.
-/

namespace LongCtxSpecDecode.InputBatch

open Library Library.Slices List Function

variable {K : Type} {b b' : InputBatch K} {i₁ i₂ : Nat} {id₁ id₂ : ReqId}

structure Transposed (b b' : InputBatch K) (i₁ i₂ : Nat) : Prop where
  rows : ∀ j, b'.rows j = b.rows (Equiv.swap i₁ i₂ j)
  reqIds : ∀ j, b'.reqIds[j]? = b.reqIds[Equiv.swap i₁ i₂ j]?
  reqOutputTokenIds : ∀ j, b'.reqOutputTokenIds[j]? = b.reqOutputTokenIds[Equiv.swap i₁ i₂ j]?
  specTokenIds : ∀ j, b'.specTokenIds[j]? = b.specTokenIds[Equiv.swap i₁ i₂ j]?
  reqIdToIndex : ∀ id, b'.reqIdToIndex.get id = (b.reqIdToIndex.get id).map (Equiv.swap i₁ i₂)

/-- All but the record of the moves. -/
structure SameState (b b' : InputBatch K) : Prop where
  rows : b'.rows = b.rows
  reqIds : b'.reqIds = b.reqIds
  reqOutputTokenIds : b'.reqOutputTokenIds = b.reqOutputTokenIds
  specTokenIds : b'.specTokenIds = b.specTokenIds
  reqIdToIndex : ∀ id, b'.reqIdToIndex.get id = b.reqIdToIndex.get id
  tables : b'.tables = b.tables

structure LiveRow (b : InputBatch K) (i : Nat) (id : ReqId) : Prop where
  at_row : b.At i id
  output : i < b.reqOutputTokenIds.length
  spec : i < b.specTokenIds.length

/-- What `swap_states` does not exchange. -/
structure Agree (isPoolingModel : Bool) (r₁ r₂ : InputRow K) : Prop where
  mask : r₁.allowedTokenIdsMask = r₂.allowedTokenIdsMask
  needsTokenIds : r₁.needsTokenIds = r₂.needsTokenIds
  pooling : isPoolingModel = true → r₁.sampling = r₂.sampling ∧
    r₁.numAcceptedTokens = r₂.numAcceptedTokens ∧ r₁.generator = r₂.generator ∧
    r₁.badWordsTokenIds = r₂.badWordsTokenIds

theorem swap_eq_iff (isPoolingModel : Bool) (r₁ r₂ : InputRow K) :
    InputRow.swap isPoolingModel r₁ r₂ = (r₂, r₁) ↔ Agree isPoolingModel r₁ r₂ := by
  obtain ⟨⟩ := r₁
  obtain ⟨⟩ := r₂
  constructor
  · intro h
    cases isPoolingModel <;> simp [InputRow.swap] at h <;> constructor <;> grind
  · rintro ⟨hmask, hneeds, hpooling⟩
    cases isPoolingModel <;> simp [InputRow.swap] <;> grind

theorem rows_swapped (j : Nat) : (b.swapped i₁ i₂ id₁ id₂).rows j =
    if j = i₂ then (InputRow.swap b.isPoolingModel (b.rows i₁) (b.rows i₂)).2
    else if j = i₁ then (InputRow.swap b.isPoolingModel (b.rows i₁) (b.rows i₂)).1
    else b.rows j := by
  change update (update b.rows i₁ _) i₂ _ j = _
  rw [update_apply, update_apply]

theorem transposed_swapped (hindex : ∀ id i, b.reqIdToIndex.get id = some i ↔ b.At i id)
    (h₁ : b.LiveRow i₁ id₁) (h₂ : b.LiveRow i₂ id₂) (hne : i₁ ≠ i₂)
    (hagree : Agree b.isPoolingModel (b.rows i₁) (b.rows i₂)) :
    b.Transposed (b.swapped i₁ i₂ id₁ id₂) i₁ i₂ where
  rows j := by
    rw [rows_swapped, (swap_eq_iff ..).mpr hagree]
    grind
  reqIds := swapItems_eq h₁.at_row h₂.at_row
  reqOutputTokenIds :=
    swapItems_eq (getElem?_eq_getElem h₁.output) (getElem?_eq_getElem h₂.output)
  specTokenIds :=
    swapItems_eq (getElem?_eq_getElem h₁.spec) (getElem?_eq_getElem h₂.spec)
  reqIdToIndex := get_swapped hindex h₁.at_row h₂.at_row

theorem Transposed.twice {b'' : InputBatch K} (h : b.Transposed b' i₁ i₂)
    (h' : b'.Transposed b'' i₁ i₂) (htables : b''.tables = b.tables) : b.SameState b'' where
  rows := funext fun j => by rw [h'.rows, h.rows, Equiv.swap_apply_self]
  reqIds := ext_getElem? fun j => by rw [h'.reqIds, h.reqIds, Equiv.swap_apply_self]
  reqOutputTokenIds := ext_getElem? fun j => by
    rw [h'.reqOutputTokenIds, h.reqOutputTokenIds, Equiv.swap_apply_self]
  specTokenIds := ext_getElem? fun j => by
    rw [h'.specTokenIds, h.specTokenIds, Equiv.swap_apply_self]
  reqIdToIndex id := by
    rw [h'.reqIdToIndex, h.reqIdToIndex]
    simp [comp_def]
  tables := htables

theorem swap_states_iff (b : InputBatch K) (i₁ i₂ : Nat) (id₁ id₂ : ReqId)
    (hindex : ∀ id i, b.reqIdToIndex.get id = some i ↔ b.At i id)
    (h₁ : b.LiveRow i₁ id₁) (h₂ : b.LiveRow i₂ id₂) (hne : i₁ ≠ i₂) :
    (∃ b', b.swapStates i₁ i₂ = .ok b' ∧ b.Transposed b' i₁ i₂ ∧
      ∃ b'', b'.swapStates i₁ i₂ = .ok b'' ∧ b.SameState b'') ↔
      Agree b.isPoolingModel (b.rows i₁) (b.rows i₂) := by
  have hrun := swapStates_eq hindex h₁.at_row h₂.at_row
  refine ⟨?_, fun hagree => ?_⟩
  · rintro ⟨b', hb', htransposed, -⟩
    cases hrun.symm.trans hb'
    have hrow₁ := htransposed.rows i₁
    have hrow₂ := htransposed.rows i₂
    rw [rows_swapped, if_neg hne, if_pos rfl, Equiv.swap_apply_left] at hrow₁
    rw [rows_swapped, if_pos rfl, Equiv.swap_apply_right] at hrow₂
    exact (swap_eq_iff ..).mp (Prod.ext hrow₁ hrow₂)
  · have htransposed := transposed_swapped hindex h₁ h₂ hne hagree
    have hat₁ := (at_swapped h₁.at_row h₂.at_row i₁ id₂).mpr (by
      rw [Equiv.swap_apply_left]; exact h₂.at_row)
    have hat₂ := (at_swapped h₁.at_row h₂.at_row i₂ id₁).mpr (by
      rw [Equiv.swap_apply_right]; exact h₁.at_row)
    have hindex' := get_swapped_iff hindex h₁.at_row h₂.at_row
    have hagree' : Agree (b.swapped i₁ i₂ id₁ id₂).isPoolingModel
        ((b.swapped i₁ i₂ id₁ id₂).rows i₁) ((b.swapped i₁ i₂ id₁ id₂).rows i₂) := by
      rw [htransposed.rows, htransposed.rows, Equiv.swap_apply_left, Equiv.swap_apply_right]
      exact ⟨hagree.mask.symm, hagree.needsTokenIds.symm,
        fun h => by have := hagree.pooling h; grind⟩
    have hout : (b.swapped i₁ i₂ id₁ id₂).reqOutputTokenIds.length = b.reqOutputTokenIds.length :=
      length_swapItems ..
    have hspec : (b.swapped i₁ i₂ id₁ id₂).specTokenIds.length = b.specTokenIds.length :=
      length_swapItems ..
    exact ⟨_, hrun, htransposed, _, swapStates_eq hindex' hat₁ hat₂, htransposed.twice
      (transposed_swapped hindex' ⟨hat₁, hout ▸ h₁.output, hspec ▸ h₁.spec⟩
        ⟨hat₂, hout ▸ h₂.output, hspec ▸ h₂.spec⟩ hne hagree') rfl⟩

/-- Two requests, of which the first may be restricted to a token. -/
def pairBatch (mask : Nat → Bool) : InputBatch Nat where
  isPoolingModel := false
  maxNumReqs := 2
  vocabSize := 4
  blocksPerKvBlock := [1]
  reqIds := [some 0, some 1]
  reqIdToIndex := [(0, 0), (1, 1)]
  reqOutputTokenIds := [some [], some []]
  specTokenIds := [[], []]
  rows := fun i =>
    { blockTable := [], numComputedTokens := i
      sampling := { temperature := i, topP := 1, topK := 4, frequencyPenalty := 0,
                    presencePenalty := 0, repetitionPenalty := 1 }
      allowedTokenIdsMask := if i = 0 then mask else fun _ => false }

theorem pairBatch_index (mask : Nat → Bool) (id : ReqId) (i : Nat) :
    (pairBatch mask).reqIdToIndex.get id = some i ↔ (pairBatch mask).At i id := by
  rcases id with _ | _ | id <;> rcases i with _ | _ | i <;>
    simp [pairBatch, At, OrderedDict.get]

theorem swap_states_iff_unmasked : ∃ b', (pairBatch fun _ => false).swapStates 0 1 = .ok b' ∧
    (pairBatch fun _ => false).Transposed b' 0 1 ∧
    ∃ b'', b'.swapStates 0 1 = .ok b'' ∧ (pairBatch fun _ => false).SameState b'' :=
  (swap_states_iff _ 0 1 0 1 (pairBatch_index _) ⟨rfl, by decide, by decide⟩
    ⟨rfl, by decide, by decide⟩ (by decide)).mpr ⟨rfl, rfl, nofun⟩

/-- The first row loses its mask, and the second one does not get it. -/
theorem swap_states_mask_lost : ∃ b', (pairBatch (maskExcept [1])).swapStates 0 1 = .ok b' ∧
    (b'.rows 1).allowedTokenIdsMask ≠ ((pairBatch (maskExcept [1])).rows 0).allowedTokenIdsMask :=
  ⟨_, rfl, fun h => absurd (congrFun h 0) (by decide)⟩

end LongCtxSpecDecode.InputBatch
