import LongCtxSpecDecode.InputBatchCondense

/-!
# Runs of the model runner on the batch

The calls of `_update_states`, of the reordering of the batch and of the bookkeeping after a
step, in the order in which the model runner may issue them.
-/

namespace LongCtxSpecDecode

open Library Library.Slices List Function OrderedDict

namespace InputRow

variable {K : Type} [Field K] [LinearOrder K]
variable {vocabSize : Nat} {blocksPerKvBlock : List Nat} {row₁ row₂ : InputRow K}
variable {r₁ r₂ : BatchedRequest K} {isPoolingModel : Bool}

section

variable (h₁ : row₁.Matches vocabSize blocksPerKvBlock r₁)
  (h₂ : row₂.Matches vocabSize blocksPerKvBlock r₂)
  (hkind₁ : r₁.samplingParams.isSome = !isPoolingModel)
  (hkind₂ : r₂.samplingParams.isSome = !isPoolingModel)
  (hneeds : row₁.needsTokenIds = row₂.needsTokenIds)
include h₁ h₂ hkind₁ hkind₂ hneeds

theorem Matches.swap_fst :
    (swap isPoolingModel row₁ row₂).1.Matches vocabSize blocksPerKvBlock r₂ := by
  cases isPoolingModel with
  | false => exact { h₂ with needsTokenIds := hneeds.trans h₂.needsTokenIds }
  | true =>
    have hs₁ : r₁.samplingParams = none := by simpa using hkind₁
    have hs₂ : r₂.samplingParams = none := by simpa using hkind₂
    obtain ⟨hgenerator₁, hbadWords₁, hmask₁⟩ := CachedRequestState.unset_of_pooling hs₁
    obtain ⟨hgenerator₂, hbadWords₂, hmask₂⟩ := CachedRequestState.unset_of_pooling hs₂
    exact { h₂ with
      sampling := fun p hp => by cases hs₂.symm.trans hp
      numAcceptedTokens := h₁.numAcceptedTokens
      generator := h₁.generator.trans (hgenerator₁.trans hgenerator₂.symm)
      badWords := h₁.badWords.trans (hbadWords₁.trans hbadWords₂.symm)
      mask := h₁.mask.trans (hmask₁.trans hmask₂.symm)
      needsTokenIds := hneeds.trans h₂.needsTokenIds }

theorem Matches.swap_snd (hmask : r₁.mask = r₂.mask) :
    (swap isPoolingModel row₁ row₂).2.Matches vocabSize blocksPerKvBlock r₁ := by
  cases isPoolingModel with
  | false =>
    exact { h₁ with
      mask := h₂.mask.trans hmask.symm
      needsTokenIds := hneeds.symm.trans h₁.needsTokenIds }
  | true => exact h₂.swap_fst h₁ hkind₂ hkind₁ hneeds.symm

end

end InputRow

namespace InputBatch

variable {K : Type} {b : InputBatch K} {live : BatchRequests K} {i j i₁ i₂ : Nat}
  {id id₁ id₂ : ReqId}

/-! ## Swapping -/

theorem swapItems_eq {α : Type} {l : List α} {a c : α} (h₁ : l[i₁]? = some a)
    (h₂ : l[i₂]? = some c) (j : Nat) : (swapItems l i₁ i₂)[j]? = l[Equiv.swap i₁ i₂ j]? := by
  have hlt₂ := lt_length_of_getElem? h₂
  unfold swapItems
  simp only [h₁, h₂]
  rw [getElem?_set_of_lt (by rwa [length_set])]
  rcases eq_or_ne j i₂ with rfl | hj₂
  · rw [if_pos rfl, Equiv.swap_apply_right, h₁]
  · grind

theorem getElem?_eq_ite {α : Type} {l : List α} {a : α} (h : l[i]? = some a) (j : Nat) :
    l[j]? = if j = i then some a else l[j]? := by
  split_ifs with hj
  · rw [hj, h]
  · rfl

theorem length_swapItems {α : Type} (l : List α) : (swapItems l i₁ i₂).length = l.length := by
  unfold swapItems
  split
  · rw [length_set, length_set]
  · rfl

/-- The batch after the rows `i₁` and `i₂` were swapped. -/
def swapped (b : InputBatch K) (i₁ i₂ : Nat) (id₁ id₂ : ReqId) : InputBatch K :=
  let rows := InputRow.swap b.isPoolingModel (b.rows i₁) (b.rows i₂)
  { (b.setRow i₁ rows.1).setRow i₂ rows.2 with
    reqIds := swapItems b.reqIds i₁ i₂
    reqOutputTokenIds := swapItems b.reqOutputTokenIds i₁ i₂
    specTokenIds := swapItems b.specTokenIds i₁ i₂
    reqIdToIndex := (b.reqIdToIndex.set id₁ i₂).set id₂ i₁
    batchUpdateBuilder := b.batchUpdateBuilder.recordMoved b.isPoolingModel i₁ i₂ .swap }

theorem indexOf_eq (h : b.reqIdToIndex.get id = some i) : b.indexOf id = .ok i := by
  unfold indexOf
  rw [h]

theorem swapStates_eq (h : ∀ id i, b.reqIdToIndex.get id = some i ↔ b.At i id) (h₁ : b.At i₁ id₁)
    (h₂ : b.At i₂ id₂) : b.swapStates i₁ i₂ = .ok (b.swapped i₁ i₂ id₁ id₂) := by
  have hget₁ := indexOf_eq ((h id₁ i₁).mpr h₁)
  have hget₂ := indexOf_eq ((h id₂ i₂).mpr h₂)
  unfold At at h₁ h₂
  unfold swapStates
  simp only [h₁, h₂, hget₁, hget₂]
  rfl

theorem get_swapped (hindex : ∀ id i, b.reqIdToIndex.get id = some i ↔ b.At i id)
    (h₁ : b.At i₁ id₁) (h₂ : b.At i₂ id₂) (id : ReqId) :
    (b.swapped i₁ i₂ id₁ id₂).reqIdToIndex.get id =
      (b.reqIdToIndex.get id).map (Equiv.swap i₁ i₂) := by
  change OrderedDict.get (OrderedDict.set (b.reqIdToIndex.set id₁ i₂) id₂ i₁) id = _
  rw [get_set, get_set]
  have hget₁ := (hindex id₁ i₁).mpr h₁
  have hget₂ := (hindex id₂ i₂).mpr h₂
  cases hget : b.reqIdToIndex.get id with
  | none => grind
  | some k =>
    have hk := (hindex id k).mp hget
    unfold At at h₁ h₂ hk
    clear hindex
    grind

theorem at_swapped (h₁ : b.At i₁ id₁) (h₂ : b.At i₂ id₂) (j : Nat) (id : ReqId) :
    (b.swapped i₁ i₂ id₁ id₂).At j id ↔ b.At (Equiv.swap i₁ i₂ j) id :=
  Eq.congr_left (swapItems_eq h₁ h₂ j)

theorem get_swapped_iff (hindex : ∀ id i, b.reqIdToIndex.get id = some i ↔ b.At i id)
    (h₁ : b.At i₁ id₁) (h₂ : b.At i₂ id₂) (id : ReqId) (i : Nat) :
    (b.swapped i₁ i₂ id₁ id₂).reqIdToIndex.get id = some i ↔
      (b.swapped i₁ i₂ id₁ id₂).At i id := by
  rw [get_swapped hindex h₁ h₂, at_swapped h₁ h₂, ← hindex, Option.map_eq_some_iff]
  constructor
  · rintro ⟨k, hk, rfl⟩
    rw [Equiv.swap_apply_self]
    exact hk
  · exact fun hi => ⟨_, hi, Equiv.swap_apply_self ..⟩

theorem Indexed.swapped (h : b.Indexed live) (h₁ : b.At i₁ id₁) (h₂ : b.At i₂ id₂) :
    (b.swapped i₁ i₂ id₁ id₂).Indexed live := by
  refine ⟨get_swapped_iff h.get_iff h₁ h₂, fun id => ?_, h.reqId,
    keys_set_nodup (keys_set_nodup h.nodup _ _) _ _⟩
  rw [← h.live_iff]
  simp only [at_swapped h₁ h₂]
  exact ((Equiv.swap i₁ i₂).surjective.exists (p := fun i => b.At i id)).symm

theorem Regular.swapped (h : b.Regular) : (b.swapped i₁ i₂ id₁ id₂).Regular := by
  have hfst : (InputRow.swap b.isPoolingModel (b.rows i₁) (b.rows i₂)).1.Regular
      b.blocksPerKvBlock := by
    cases b.isPoolingModel with
    | true => exact ⟨(h i₁).needsTokenIds, (h i₁).numAcceptedTokens, (h i₂).groups⟩
    | false => exact ⟨(h i₁).needsTokenIds, (h i₂).numAcceptedTokens, (h i₂).groups⟩
  have hsnd : (InputRow.swap b.isPoolingModel (b.rows i₁) (b.rows i₂)).2.Regular
      b.blocksPerKvBlock := by
    cases b.isPoolingModel with
    | true => exact ⟨(h i₂).needsTokenIds, (h i₂).numAcceptedTokens, (h i₁).groups⟩
    | false => exact ⟨(h i₂).needsTokenIds, (h i₁).numAcceptedTokens, (h i₁).groups⟩
  exact Regular.update (b := b.setRow i₁ _) (h.update hfst) hsnd

theorem Condensed.swapped (h : b.Condensed) (hidx : b.Indexed live) (h₁ : b.At i₁ id₁)
    (h₂ : b.At i₂ id₂) : (b.swapped i₁ i₂ id₁ id₂).Condensed := by
  have hids : (b.swapped i₁ i₂ id₁ id₂).reqIds.length = b.reqIds.length := length_swapItems _
  have hnum : (b.swapped i₁ i₂ id₁ id₂).numReqs = b.numReqs := by
    have hmem₁ := mem_keys_of_get ((hidx.get_iff id₁ i₁).mpr h₁)
    have hget₂ := (hidx.get_iff id₂ i₂).mpr h₂
    change (OrderedDict.set (b.reqIdToIndex.set id₁ i₂) id₂ i₁).length = _
    rw [length_set_of_mem, length_set_of_mem hmem₁]
    · rfl
    · refine mem_keys_of_get (v := if id₂ = id₁ then i₂ else i₂) ?_
      rw [get_set, hget₂]
      split_ifs
      · rfl
      · rfl
  refine ⟨by rw [hids, hnum]; exact h.count, fun j hj => ?_, by rw [hids]; exact h.bound⟩
  rw [hnum] at hj
  obtain ⟨id, hid⟩ : ∃ id, b.At (Equiv.swap i₁ i₂ j) id := by
    refine h.occupied _ ?_
    rcases eq_or_ne j i₁ with rfl | hj₁
    · rw [Equiv.swap_apply_left, ← h.count]
      exact lt_length_of_getElem? h₂
    · rcases eq_or_ne j i₂ with rfl | hj₂
      · rw [Equiv.swap_apply_right, ← h.count]
        exact lt_length_of_getElem? h₁
      · rwa [Equiv.swap_apply_of_ne_of_ne hj₁ hj₂]
  exact ⟨id, (swapItems_eq h₁ h₂ j).trans hid⟩

variable [Field K] [LinearOrder K]

theorem Filled.swapped (h : b.Filled live) (hreg : b.Regular) (hne : i₁ ≠ i₂)
    (h₁ : b.At i₁ id₁) (h₂ : b.At i₂ id₂) (hr₁ : live id₁ = some r₁) (hr₂ : live id₂ = some r₂)
    (hkind₁ : r₁.samplingParams.isSome = !b.isPoolingModel)
    (hkind₂ : r₂.samplingParams.isSome = !b.isPoolingModel) (hmask : r₁.mask = r₂.mask) :
    (b.swapped i₁ i₂ id₁ id₂).Filled live := by
  obtain ⟨r₁', hr₁', hm₁, hout₁, hspec₁⟩ := h.of_at h₁
  obtain ⟨r₂', hr₂', hm₂, hout₂, hspec₂⟩ := h.of_at h₂
  cases hr₁.symm.trans hr₁'
  cases hr₂.symm.trans hr₂'
  have hneeds : (b.rows i₁).needsTokenIds = (b.rows i₂).needsTokenIds := by
    rw [(hreg i₁).needsTokenIds, (hreg i₂).needsTokenIds]
  intro j
  change Slot b.vocabSize b.blocksPerKvBlock live (swapItems b.reqIds i₁ i₂)[j]?
    (swapItems b.reqOutputTokenIds i₁ i₂)[j]? (swapItems b.specTokenIds i₁ i₂)[j]?
    (update (update b.rows i₁ _) i₂ _ j)
  rw [swapItems_eq h₁ h₂, swapItems_eq hout₁ hout₂, swapItems_eq hspec₁ hspec₂]
  rcases eq_or_ne j i₂ with rfl | hj₂
  · rw [Equiv.swap_apply_right, h₁, hout₁, hspec₁, update_self]
    exact .occupied hr₁ (hm₁.swap_snd hm₂ hkind₁ hkind₂ hneeds hmask)
  · rw [update_of_ne hj₂]
    rcases eq_or_ne j i₁ with rfl | hj₁
    · rw [Equiv.swap_apply_left, h₂, hout₂, hspec₂, update_self]
      exact .occupied hr₂ (hm₁.swap_fst hm₂ hkind₁ hkind₂ hneeds)
    · rw [Equiv.swap_apply_of_ne_of_ne hj₁ hj₂, update_of_ne hj₁]
      exact h j

end InputBatch

/-! ## Changes of a row in place -/

namespace BatchedRequest

variable {K : Type}

/-- The request after `_update_states`: its new blocks are appended. -/
def running (r : BatchedRequest K) (numComputedTokens : Nat)
    (newBlockIds : Option (List (List Nat))) : BatchedRequest K :=
  { r with
    numComputedTokens := numComputedTokens
    blockIds :=
      match newBlockIds with
      | none => r.blockIds
      | some ids => zipWith (· ++ ·) r.blockIds ids }

def sampled (r : BatchedRequest K) (sampledIds : List Token) : BatchedRequest K :=
  { r with outputTokenIds := r.outputTokenIds ++ sampledIds, draftsFresh := false }

end BatchedRequest

namespace InputRow

variable {K : Type} {vocabSize : Nat} {blocksPerKvBlock : List Nat} {row : InputRow K}
  {r : BatchedRequest K}

theorem Regular.writeRunning {newBlockIds : Option (List (List Nat))}
    (h : row.Regular blocksPerKvBlock) (n : Nat)
    (hnew : ∀ ids, newBlockIds = some ids → ids.length = blocksPerKvBlock.length) :
    (row.writeRunning blocksPerKvBlock n newBlockIds).Regular blocksPerKvBlock := by
  refine ⟨h.needsTokenIds, h.numAcceptedTokens, ?_⟩
  cases newBlockIds with
  | none => exact h.groups
  | some ids =>
    change (BlockRows.appendRow blocksPerKvBlock row.blockTable ids).length = _
    rw [BlockRows.appendRow, BlockRows.kernelBlocks, length_zipWith, length_zipWith,
      hnew ids rfl, h.groups, Nat.min_self, Nat.min_self]

variable [Field K] [LinearOrder K]

section

variable (h : row.Matches vocabSize blocksPerKvBlock r)
include h

theorem Matches.setDrafts {spec : List Token} (hspec : Carries row.tokenIds r.numTokens spec) :
    row.Matches vocabSize blocksPerKvBlock
      { r with specTokenIds := spec, draftsFresh := true } :=
  { h with drafts := fun _ => hspec }

theorem Matches.writeDrafts (spec : List Token) :
    (row.writeDrafts spec).Matches vocabSize blocksPerKvBlock
      { r with specTokenIds := spec, draftsFresh := true } := by
  have hlen := r.length_promptTokenIds
  have htokens : r.numTokens = r.numPromptTokens + r.outputTokenIds.length := rfl
  have hstart := h.numTokensNoSpec
  exact { h with
    prompt := h.prompt.write_after (by omega)
    output := h.output.write_after (by omega)
    drafts := fun _ => hstart ▸ carries_write }

theorem Matches.writeRunning {newBlockIds : Option (List (List Nat))} (n : Nat)
    (hgroups : r.blockIds.length = blocksPerKvBlock.length)
    (hnew : ∀ ids, newBlockIds = some ids → ids.length = blocksPerKvBlock.length) :
    (row.writeRunning blocksPerKvBlock n newBlockIds).Matches vocabSize blocksPerKvBlock
      (r.running n newBlockIds) := by
  cases newBlockIds with
  | none => exact { h with numComputedTokens := rfl }
  | some ids =>
    exact { h with
      numComputedTokens := rfl
      blockTable := h.blockTable.appendRow hgroups (hnew ids rfl) }

end

theorem Matches.writeSampled (h : row.Matches vocabSize blocksPerKvBlock r)
    (sampledIds : List Token) :
    (row.writeSampled sampledIds).Matches vocabSize blocksPerKvBlock (r.sampled sampledIds) := by
  have hlen := r.length_promptTokenIds
  have htokens : r.numTokens = r.numPromptTokens + r.outputTokenIds.length := rfl
  have hstart := h.numTokensNoSpec
  have hnum : (r.sampled sampledIds).numTokens = r.numTokens + sampledIds.length := by
    change r.numPromptTokens + (r.outputTokenIds ++ sampledIds).length = _
    rw [htokens, length_append, Nat.add_assoc]
  exact { h with
    prompt := h.prompt.write_after (by omega)
    output := (h.output.write_after (by omega)).append (by
      rw [← htokens, ← hstart]
      exact carries_write)
    drafts := nofun
    promptIsToken := fun c hc => by
      refine (fill_of_notMem ?_).trans (h.promptIsToken c hc)
      change c < r.numPromptTokens at hc
      omega
    outputIsToken := fun c hc hc' => by
      change fill row.isTokenIds row.numTokensNoSpec _ true c = true
      rcases Nat.lt_or_ge c r.numTokens with hlt | hge
      · rw [fill_of_notMem (by omega)]
        exact h.outputIsToken c hc hlt
      · exact fill_of_mem (by omega)
    numTokensNoSpec := by
      rw [hnum, ← hstart]
      rfl }

end InputRow

namespace InputBatch

variable {K : Type} {b b' : InputBatch K} {live : BatchRequests K}
variable {i j : Nat} {id : ReqId} {r r' : BatchedRequest K}

theorem Indexed.update (h : b.Indexed live) (hr : live id = some r) (hid : r'.reqId = r.reqId) :
    b.Indexed (update live id (some r')) := by
  refine ⟨h.get_iff, fun id' => ?_, fun id' r'' hr'' => ?_, h.nodup⟩
  · rw [h.live_iff]
    rcases eq_or_ne id' id with rfl | hne
    · simp [hr]
    · rw [update_of_ne hne]
  · grind [h.reqId]

theorem Gapped.of_eq (h : b.Gapped) (hmax : b'.maxNumReqs = b.maxNumReqs)
    (hids : b'.reqIds = b.reqIds) (hdict : b'.reqIdToIndex = b.reqIdToIndex)
    (hbuilder : b'.batchUpdateBuilder = b.batchUpdateBuilder) : b'.Gapped := by
  have hnum : b'.numReqs = b.numReqs := by rw [numReqs, numReqs, hdict]
  refine ⟨?_, hbuilder ▸ h.nodup, hbuilder ▸ h.sorted, ?_, ?_⟩
  · rw [hids, hbuilder]
    exact h.removed_iff
  · rw [hids, hbuilder, hnum]
    exact h.count
  · rw [hids, hmax]
    exact h.bound

theorem Suits.of_eq {r : CachedRequestState K} (h : b.Suits r)
    (hkind : b'.isPoolingModel = b.isPoolingModel)
    (hblocks : b'.blocksPerKvBlock = b.blocksPerKvBlock) : b'.Suits r :=
  ⟨hkind ▸ h.kind, hblocks ▸ h.groups, h.loraId⟩

variable [Field K] [LinearOrder K]

structure Changes (b b' : InputBatch K) (i : Nat) (r' : BatchedRequest K) : Prop where
  same : b.SameTables b'
  reqIds : b'.reqIds = b.reqIds
  reqIdToIndex : b'.reqIdToIndex = b.reqIdToIndex
  builder : b'.batchUpdateBuilder = b.batchUpdateBuilder
  row : ∃ row, b'.rows = update b.rows i row ∧ row.Regular b.blocksPerKvBlock ∧
    row.Matches b.vocabSize b.blocksPerKvBlock r'
  output : ∀ j, b'.reqOutputTokenIds[j]? =
    if j = i then some (some r'.outputTokenIds) else b.reqOutputTokenIds[j]?
  spec : ∀ j, b'.specTokenIds[j]? = if j = i then some r'.specTokenIds else b.specTokenIds[j]?

theorem Indexed.changes (h : b.Indexed live) (hc : b.Changes b' i r') (hr : live id = some r)
    (hid : r'.reqId = r.reqId) : b'.Indexed (Function.update live id (some r')) :=
  (h.of_eq (fun j => by rw [hc.reqIds]) hc.reqIdToIndex).update hr hid

theorem Filled.changes (h : b.Filled live) (hidx : b.Indexed live) (hc : b.Changes b' i r')
    (hi : b.At i id) : b'.Filled (update live id (some r')) := by
  obtain ⟨row, hrows, -, hm⟩ := hc.row
  intro j
  rw [hc.reqIds, hc.output, hc.spec, hc.same.vocabSize, hc.same.blocksPerKvBlock, hrows]
  rcases eq_or_ne j i with rfl | hj
  · rw [if_pos rfl, if_pos rfl, hi, update_self]
    exact .occupied (update_self _ _ _) hm
  · rw [if_neg hj, if_neg hj, update_of_ne hj]
    exact (h j).update (fun hat => hj (hidx.at_unique hat hi)) (some r')

theorem Regular.changes (h : b.Regular) (hc : b.Changes b' i r') : b'.Regular := by
  obtain ⟨row, hrows, hreg, -⟩ := hc.row
  intro j
  rw [hc.same.blocksPerKvBlock, hrows]
  exact h.update hreg j

theorem Filled.changes_self (h : b.Filled live) (hreg : b.Regular) (hi : b.At i id)
    (hr : live id = some r)
    (hm : (b.rows i).Matches b.vocabSize b.blocksPerKvBlock r →
      (b.rows i).Matches b.vocabSize b.blocksPerKvBlock r')
    (hout : r'.outputTokenIds = r.outputTokenIds) (hspec : r'.specTokenIds = r.specTokenIds) :
    b.Changes b i r' := by
  obtain ⟨r₀, hr₀, hm₀, hout₀, hspec₀⟩ := h.of_at hi
  cases hr.symm.trans hr₀
  refine ⟨⟨rfl, rfl, rfl, rfl, rfl⟩, rfl, rfl, rfl,
    ⟨b.rows i, (update_eq_self i b.rows).symm, hreg i, hm hm₀⟩, ?_, ?_⟩
  · rw [hout]
    exact getElem?_eq_ite hout₀
  · rw [hspec]
    exact getElem?_eq_ite hspec₀

section changes

variable (h : b.Filled live) (hreg : b.Regular) (hidx : b.Indexed live) (hi : b.At i id)
variable (hr : live id = some r)
include h hreg hidx hi hr

theorem Filled.updateReqSpecTokenIds (spec : List Token) :
    ∃ b', b.updateReqSpecTokenIds id spec = .ok b' ∧
      b.Changes b' i { r with specTokenIds := spec, draftsFresh := true } := by
  obtain ⟨r', hr', hm, hout, hspec⟩ := h.of_at hi
  cases hr.symm.trans hr'
  have hlt := lt_length_of_getElem? hspec
  have houtput := getElem?_eq_ite hout
  unfold InputBatch.updateReqSpecTokenIds
  rw [indexOf_eq ((hidx.get_iff id i).mpr hi)]
  by_cases hnil : spec = []
  · refine ⟨_, if_pos hnil, ⟨rfl, rfl, rfl, rfl, rfl⟩, rfl, rfl, rfl,
      ⟨b.rows i, (update_eq_self i b.rows).symm, hreg i, ?_⟩, houtput,
      fun j => hnil ▸ getElem?_set_of_lt hlt⟩
    exact hm.setDrafts (hnil ▸ carries_nil)
  · refine ⟨_, if_neg hnil, ⟨rfl, rfl, rfl, rfl, rfl⟩, rfl, rfl, rfl,
      ⟨_, rfl, ?_, hm.writeDrafts spec⟩, houtput, fun j => ?_⟩
    · exact ⟨(hreg i).needsTokenIds, (hreg i).numAcceptedTokens, (hreg i).groups⟩
    · rw [set_set, getElem?_set_of_lt hlt]

theorem Filled.updateRunning (n : Nat) {newBlockIds : Option (List (List Nat))}
    (hgroups : r.blockIds.length = b.blocksPerKvBlock.length)
    (hnew : ∀ ids, newBlockIds = some ids → ids.length = b.blocksPerKvBlock.length) :
    ∃ b', b.updateRunning id n newBlockIds = .ok b' ∧ b.Changes b' i (r.running n newBlockIds) := by
  obtain ⟨r', hr', hm, hout, hspec⟩ := h.of_at hi
  cases hr.symm.trans hr'
  unfold InputBatch.updateRunning
  rw [indexOf_eq ((hidx.get_iff id i).mpr hi)]
  refine ⟨_, rfl, ⟨rfl, rfl, rfl, rfl, rfl⟩, rfl, rfl, rfl,
    ⟨_, rfl, (hreg i).writeRunning n hnew, hm.writeRunning n hgroups hnew⟩,
    getElem?_eq_ite hout, getElem?_eq_ite hspec⟩

theorem Filled.bookkeep {sampledIds : List Token} (hne : sampledIds ≠ []) :
    ∃ b', b.bookkeep id sampledIds = .ok b' ∧ b.Changes b' i (r.sampled sampledIds) := by
  obtain ⟨r', hr', hm, hout, hspec⟩ := h.of_at hi
  cases hr.symm.trans hr'
  unfold InputBatch.bookkeep
  rw [indexOf_eq ((hidx.get_iff id i).mpr hi)]
  refine ⟨_, if_neg hne, ⟨rfl, rfl, rfl, rfl, rfl⟩, rfl, rfl, rfl,
    ⟨_, rfl, ?_, hm.writeSampled sampledIds⟩, fun j => ?_, getElem?_eq_ite hspec⟩
  · exact ⟨(hreg i).needsTokenIds, (hreg i).numAcceptedTokens, (hreg i).groups⟩
  · grind [BatchedRequest.sampled]

end changes

end InputBatch

/-! ## Runs -/

structure BatchState (K : Type) where
  batch : InputBatch K
  live : BatchRequests K := fun _ => none
  /-- `condense` was called and `refresh_metadata` not yet. -/
  condensed : Bool := false

inductive BatchCall (K : Type) where
  | remove (reqId : ReqId)
  | updateRunning (reqId : ReqId) (numComputedTokens : Nat)
      (newBlockIds : Option (List (List Nat)))
  | updateSpec (reqId : ReqId) (specTokenIds : List Token)
  | add (request : CachedRequestState K)
  | condense
  | swap (i₁ i₂ : Nat)
  | refresh
  | bookkeep (reqId : ReqId) (sampledIds : List Token)
  | keepPromptLogprobs (reqId : ReqId) (chunk : Option Nat)

namespace BatchState

variable {K : Type}

def loras (live : BatchRequests K) : ReqId → Option LoRARequest :=
  fun id => (live id).bind (·.loraRequest)

theorem loras_update (live : BatchRequests K) (id : ReqId) (request : Option (BatchedRequest K)) :
    loras (update live id request) =
      update (loras live) id (request.bind (·.loraRequest)) := by
  funext id'
  unfold loras
  rcases eq_or_ne id' id with rfl | hid
  · rw [update_self, update_self]
  · rw [update_of_ne hid, update_of_ne hid]

theorem loras_update_self {live : BatchRequests K} {id : ReqId} {r r' : BatchedRequest K}
    (hr : live id = some r) (hlora : r'.loraRequest = r.loraRequest) :
    loras (update live id (some r')) = loras live := by
  rw [loras_update, Option.bind_some, hlora]
  refine update_eq_self_iff.mpr ?_
  unfold loras
  rw [hr]
  rfl

theorem of_update {live : BatchRequests K} {id id' : ReqId} {request : Option (BatchedRequest K)}
    {r' : BatchedRequest K} (h : update live id request id' = some r') :
    (request = some r' ∧ id' = id) ∨ live id' = some r' := by
  rcases eq_or_ne id' id with rfl | hid
  · exact .inl ⟨by rwa [update_self] at h, rfl⟩
  · exact .inr (by rwa [update_of_ne hid] at h)

theorem gapped_refreshMetadata {b : InputBatch K} (h : b.Condensed) :
    b.refreshMetadata.Gapped := by
  refine ⟨fun i => ?_, nodup_nil, fun _ => Pairwise.nil, ?_, h.bound⟩
  · refine ⟨nofun, fun hgap => ?_⟩
    change b.reqIds[i]? = some none at hgap
    have hlt := lt_length_of_getElem? hgap
    obtain ⟨id, hat⟩ := h.occupied i (h.count ▸ hlt)
    unfold InputBatch.At at hat
    rw [hgap] at hat
    cases hat
  · change b.numReqs + 0 = b.reqIds.length
    rw [h.count, Nat.add_zero]

variable [Field K] [LinearOrder K] (s : BatchState K)

/-- The request `id` changes. -/
def modify (b : InputBatch K) (id : ReqId) (f : BatchedRequest K → BatchedRequest K) :
    BatchState K :=
  { s with batch := b, live := update s.live id ((s.live id).map f) }

def call : BatchCall K → Except Exn (BatchState K)
  | .remove id => do
      let b ← s.batch.removeRequest id
      return { s with batch := b, live := update s.live id none }
  | .updateRunning id n blocks => do
      return s.modify (← s.batch.updateRunning id n blocks) id fun r => r.running n blocks
  | .updateSpec id spec => do
      return s.modify (← s.batch.updateReqSpecTokenIds id spec) id fun r =>
        { r with specTokenIds := spec, draftsFresh := true }
  | .add r => do
      let (_, b) ← s.batch.addRequest r
      return { s with
        batch := b, live := update s.live r.reqId (some { toCachedRequestState := r }) }
  | .condense => do
      return { s with batch := ← s.batch.condense, condensed := true }
  | .swap i₁ i₂ => do
      return { s with batch := ← s.batch.swapStates i₁ i₂ }
  | .refresh => return { s with batch := s.batch.refreshMetadata, condensed := false }
  | .bookkeep id sampled => do
      return s.modify (← s.batch.bookkeep id sampled) id fun r =>
        if sampled = [] then r else r.sampled sampled
  | .keepPromptLogprobs id chunk =>
    return s.modify (s.batch.keepPromptLogprobs id chunk) id fun r =>
      { r with promptLogprobs := chunk }

def run (calls : List (BatchCall K)) : Except Exn (BatchState K) :=
  calls.foldlM call s

/-- The calls that the model runner may issue: the removals come before the removed rows are
read, the requests that are added are not in the batch and fit into it, the rows are swapped
after `condense`, and `refresh_metadata` ends the update. -/
def Permits : BatchCall K → Prop
  | .remove _ => s.condensed = false ∧ s.batch.batchUpdateBuilder.isRemovedSorted = false
  | .updateRunning id _ blocks => s.condensed = false ∧ (s.live id).isSome ∧
      ∀ ids, blocks = some ids → ids.length = s.batch.blocksPerKvBlock.length
  | .updateSpec id _ => s.condensed = false ∧ (s.live id).isSome
  | .add r => s.condensed = false ∧ s.live r.reqId = none ∧ s.batch.Suits r ∧
      s.batch.numReqs < s.batch.maxNumReqs
  | .condense => s.condensed = false
  | .swap i₁ i₂ => s.condensed = true ∧ i₁ < s.batch.numReqs ∧ i₂ < s.batch.numReqs ∧ i₁ ≠ i₂
  | .refresh => s.condensed = true
  | .bookkeep id _ => s.condensed = false ∧ (s.live id).isSome
  | .keepPromptLogprobs id _ => s.condensed = false ∧ (s.live id).isSome ∧
      s.batch.isPoolingModel = false

/-- No request with prompt embeddings is removed, no request with `allowed_token_ids` moves and
none swaps its row with a request with another mask, no pooling request needs its token ids, and
a LoRA id names one adapter. -/
def Clean : BatchCall K → Prop
  | .remove id => ∀ r, s.live id = some r → r.promptEmbeds = none
  | .add r => r.requiresTokenIds = false ∧
      ∀ id' r' lora lora', s.live id' = some r' → r'.loraRequest = some lora' →
        r.loraRequest = some lora → lora'.loraIntId = lora.loraIntId → lora' = lora
  | .condense => ∀ i id r, s.batch.numReqs ≤ i → s.batch.At i id → s.live id = some r →
      r.allowedTokenIds = []
  | .swap i₁ i₂ => ∀ id₁ id₂ r₁ r₂, s.batch.At i₁ id₁ → s.batch.At i₂ id₂ →
      s.live id₁ = some r₁ → s.live id₂ = some r₂ → r₁.mask = r₂.mask
  | _ => True

def Issues (ok : BatchState K → BatchCall K → Prop) (s : BatchState K) :
    List (BatchCall K) → Prop
  | [] => True
  | c :: calls => ok s c ∧ ∀ s', s.call c = .ok s' → Issues ok s' calls

theorem issues_cons {ok : BatchState K → BatchCall K → Prop}
    {s s' : BatchState K} {c : BatchCall K} {calls : List (BatchCall K)}
    (hcall : s.call c = .ok s') (hok : ok s c) (hrest : s'.Issues ok calls) :
    s.Issues ok (c :: calls) := by
  refine ⟨hok, fun s'' hs'' => ?_⟩
  rw [hcall] at hs''
  cases hs''
  exact hrest

/-- Every row holds the values of its request, every request has its row, and the sets and
dictionaries by request id hold what the requests set. -/
structure Consistent (s : BatchState K) : Prop where
  length : s.batch.reqIds.length = s.batch.numReqs
  row : ∀ i < s.batch.numReqs, ∃ id r, s.batch.reqIds[i]? = some (some id) ∧
    s.batch.reqIdToIndex.get id = some i ∧ s.live id = some r ∧
    (s.batch.rows i).Matches s.batch.vocabSize s.batch.blocksPerKvBlock r ∧
    s.batch.reqOutputTokenIds[i]? = some (some r.outputTokenIds) ∧
    s.batch.specTokenIds[i]? = some r.specTokenIds
  request : ∀ id r, s.live id = some r → ∃ i < s.batch.numReqs, s.batch.reqIds[i]? = some (some id)
  params : s.batch.tables.HoldsParams s.batch.vocabSize s.live
  lora : s.batch.tables.HoldsLora (loras s.live)

structure Invariant (s : BatchState K) : Prop where
  indexed : s.batch.Indexed s.live
  filled : s.batch.Filled s.live
  regular : s.batch.Regular
  params : s.batch.tables.HoldsParams s.batch.vocabSize s.live
  lora : s.batch.tables.HoldsLora (loras s.live)
  suits : ∀ id r, s.live id = some r → s.batch.Suits r.toCachedRequestState
  noLogprobs : s.batch.isPoolingModel = true → ∀ id r, s.live id = some r → r.promptLogprobs = none
  phase : if s.condensed then s.batch.Condensed else s.batch.Gapped

theorem Invariant.consistent {s : BatchState K} (h : s.Invariant) (hc : s.condensed = true) :
    s.Consistent := by
  have hphase := h.phase
  rw [if_pos hc] at hphase
  refine ⟨hphase.count, fun i hi => ?_, fun id r hr => ?_, h.params, h.lora⟩
  · obtain ⟨id, hat⟩ := hphase.occupied i hi
    obtain ⟨r, hr, hm, hout, hspec⟩ := h.filled.of_at hat
    exact ⟨id, r, hat, (h.indexed.get_iff id i).mpr hat, hr, hm, hout, hspec⟩
  · obtain ⟨i, -, hat⟩ := h.indexed.get_of_live hr
    refine ⟨i, ?_, hat⟩
    rw [← hphase.count]
    exact lt_length_of_getElem? hat

theorem Invariant.changes {s : BatchState K} {b' : InputBatch K} {i : Nat} {id : ReqId}
    {r : BatchedRequest K}
    {f : BatchedRequest K → BatchedRequest K} (h : s.Invariant) (hphase : s.condensed = false)
    (hr : s.live id = some r) (hi : s.batch.At i id) (hc : s.batch.Changes b' i (f r))
    (hid : (f r).reqId = r.reqId) (hparams : (f r).params = r.params)
    (hlora : (f r).loraRequest = r.loraRequest)
    (hlogprobs : (f r).promptLogprobs = r.promptLogprobs)
    (hgroups : (f r).blockIds.length = r.blockIds.length) : (s.modify b' id f).Invariant := by
  have hlive : (s.modify b' id f).live = update s.live id (some (f r)) := by
    unfold modify
    rw [hr]
    rfl
  have hs : (f r).samplingParams = r.samplingParams := by
    rw [CachedRequestState.samplingParams, hparams, CachedRequestState.samplingParams]
  have hp : (f r).poolingParams = r.poolingParams := by
    rw [CachedRequestState.poolingParams, hparams, CachedRequestState.poolingParams]
  have hgapped := h.phase
  rw [hphase] at hgapped
  have hentry := h.params id
  rw [hr] at hentry
  constructor
  · rw [hlive]
    exact h.indexed.changes hc hr hid
  · rw [hlive]
    exact h.filled.changes h.indexed hc hi
  · exact h.regular.changes hc
  · rw [hlive]
    change b'.tables.HoldsParams b'.vocabSize _
    rw [hc.same.tables, hc.same.vocabSize]
    refine h.params.update (fun id' _ => ⟨fun _ => Iff.rfl, rfl, rfl, rfl⟩) ?_
    refine ⟨fun f' => ?_, ?_, ?_, ?_⟩
    · simpa [hs] using hentry.features f'
    · simpa [hs] using hentry.numLogprobs
    · simpa [hlogprobs] using hentry.promptLogprobs
    · simpa [hp] using hentry.poolingParams
  · rw [hlive, loras_update_self hr hlora]
    change b'.tables.HoldsLora _
    rw [hc.same.tables]
    exact h.lora
  · intro id' r' hr'
    rw [hlive] at hr'
    have hsuits : ∀ r'', s.batch.Suits r'' → b'.Suits r'' := fun r'' hsuits =>
      hsuits.of_eq hc.same.isPoolingModel hc.same.blocksPerKvBlock
    rcases of_update hr' with ⟨⟨⟩, rfl⟩ | hold
    · have hold := h.suits id' r hr
      exact hsuits _ ⟨hs ▸ hold.kind, hgroups.trans hold.groups, hlora ▸ hold.loraId⟩
    · exact hsuits _ (h.suits id' r' hold)
  · intro hpool id' r' hr'
    change b'.isPoolingModel = true at hpool
    rw [hc.same.isPoolingModel] at hpool
    rw [hlive] at hr'
    rcases of_update hr' with ⟨⟨⟩, rfl⟩ | hold
    · exact hlogprobs.trans (h.noLogprobs hpool id' r hr)
    · exact h.noLogprobs hpool id' r' hold
  · change if s.condensed then b'.Condensed else b'.Gapped
    rw [hphase]
    exact InputBatch.Gapped.of_eq hgapped hc.same.maxNumReqs hc.reqIds hc.reqIdToIndex hc.builder

end BatchState

end LongCtxSpecDecode
