import LongCtxSpecDecode.InputBatchRuns

/-!
# The rows of the batch hold the values of their requests

After `condense` every row holds exactly what its request set, in runs that keep clear of the fields
that the calls do not keep. In other runs a row can show the mask of a request that has left it.
-/

namespace LongCtxSpecDecode

open Library Library.Slices List Function

namespace BatchState

variable {K : Type} {live : BatchRequests K} {id : ReqId}

theorem holdsLora_remove {t : RequestTables} {r : BatchedRequest K} (h : t.HoldsLora (loras live))
    (hr : live id = some r) (hpos : ∀ lora, r.loraRequest = some lora → 0 < lora.loraIntId) :
    (t.removeLora id r.loraId).HoldsLora (update (loras live) id none) := by
  have hloras : loras live id = r.loraRequest := by
    unfold loras
    rw [hr]
    rfl
  unfold CachedRequestState.loraId
  cases hlora : r.loraRequest with
  | none =>
    have hsame : update (loras live) id none = loras live :=
      update_eq_self_iff.mpr (hloras.trans hlora).symm
    rw [hsame]
    exact h
  | some lora => exact h.remove (hloras.trans hlora) (hpos lora hlora)

theorem holdsLora_add {t : RequestTables} (h : t.HoldsLora (loras live)) (hnew : live id = none)
    (lora : Option LoRARequest)
    (hunique : ∀ id' r' lora' lora'', live id' = some r' → r'.loraRequest = some lora' →
      lora = some lora'' → lora'.loraIntId = lora''.loraIntId → lora' = lora'') :
    (t.addLora id lora).HoldsLora (update (loras live) id lora) := by
  have hloras : loras live id = none := by
    unfold loras
    rw [hnew]
    rfl
  cases lora with
  | none =>
    have hsame : update (loras live) id none = loras live :=
      update_eq_self_iff.mpr hloras.symm
    rw [hsame]
    exact h
  | some lora =>
    refine h.add hloras fun id' lora' hlora' heq => ?_
    obtain ⟨r', hr', hlora''⟩ := Option.bind_eq_some_iff.mp hlora'
    exact hunique id' r' lora' lora hr' hlora'' rfl heq

variable [Field K] [LinearOrder K] {s : BatchState K}

section

variable (h : s.Invariant)
include h

theorem Invariant.remove (hpermit : s.Permits (.remove id)) (hclean : s.Clean (.remove id)) :
    ∃ s', s.call (.remove id) = .ok s' ∧ s'.Invariant := by
  obtain ⟨hphase, hsorted⟩ := hpermit
  have hgapped := h.phase
  rw [hphase] at hgapped
  cases hget : s.batch.reqIdToIndex.get id with
  | none =>
    have hlive : update s.live id none = s.live :=
      update_eq_self_iff.mpr (h.indexed.live_eq_none hget).symm
    refine ⟨s, ?_, h⟩
    simp only [call, InputBatch.removeRequest_of_none hget, hlive]
    rfl
  | some i =>
    have hat := (h.indexed.get_iff id i).mp hget
    obtain ⟨r, hr, hm, -, -⟩ := h.filled.of_at hat
    have hsuits := h.suits id r hr
    have hrun := InputBatch.removeRequest_eq hget hsorted
    refine ⟨{ s with
      batch := s.batch.vacated i id, live := update s.live id none }, ?_, ?_⟩
    · simp only [call, hrun]
      rfl
    · refine ⟨h.indexed.vacated hat,
        h.filled.vacated h.indexed hat hr (hclean r hr) hsuits.kind, h.regular.vacated, ?_, ?_,
        ?_, ?_, ?_⟩
      · exact (h.params.of_sameAt fun id' => RequestTables.removeLora_sameAt _ _ id' _).remove hr
          hsuits.kind fun hpool => h.noLogprobs hpool id r hr
      · rw [loras_update]
        change ((s.batch.tables.removeLora id (s.batch.rows i).loraId).removeParams _ id).HoldsLora
          _
        rw [hm.loraId]
        exact (holdsLora_remove h.lora hr hsuits.loraId).removeParams _ _
      · intro id' r' hr'
        exact (h.suits id' r' ((of_update hr').resolve_left nofun)).of_eq rfl rfl
      · intro hpool id' r' hr'
        exact h.noLogprobs hpool id' r' ((of_update hr').resolve_left nofun)
      · rw [hphase]
        exact InputBatch.Gapped.vacated hgapped h.indexed hat hsorted

theorem Invariant.add {r : CachedRequestState K} (hpermit : s.Permits (.add r))
    (hclean : s.Clean (.add r)) : ∃ s', s.call (.add r) = .ok s' ∧ s'.Invariant := by
  obtain ⟨hphase, hnew, hsuits, hroom⟩ := hpermit
  obtain ⟨hrequires, hunique⟩ := hclean
  have hgapped := h.phase
  rw [hphase] at hgapped
  obtain ⟨i, u, hregister, hchosen⟩ := InputBatch.Gapped.registerAddRequest hgapped hroom r
  have hrun := InputBatch.addRequest_eq hregister
  refine ⟨{ s with
    batch := s.batch.placed i u r
    live := update s.live r.reqId (some { toCachedRequestState := r }) }, ?_, ?_⟩
  · simp only [call, hrun]
    rfl
  · refine ⟨h.indexed.placed (r := { toCachedRequestState := r }) hchosen hnew,
      h.filled.placed (r := { toCachedRequestState := r }) h.regular h.indexed hchosen hnew
        hsuits.groups rfl,
      h.regular.placed r hsuits.groups hrequires, ?_, ?_, ?_, ?_, ?_⟩
    · exact (h.params.add hnew rfl).of_sameAt fun id' =>
        RequestTables.addLora_sameAt _ _ id' _
    · rw [loras_update]
      exact holdsLora_add (h.lora.addParams _ _) hnew r.loraRequest
        fun id' r' lora' lora'' hr' hlora' hlora'' => hunique id' r' lora'' lora' hr' hlora' hlora''
    · intro id' r' hr'
      rcases of_update hr' with ⟨⟨⟩, -⟩ | hold
      · exact hsuits.of_eq rfl rfl
      · exact (h.suits id' r' hold).of_eq rfl rfl
    · intro hpool id' r' hr'
      rcases of_update hr' with ⟨⟨⟩, -⟩ | hold
      · rfl
      · exact h.noLogprobs hpool id' r' hold
    · rw [hphase]
      exact InputBatch.Gapped.placed (r := { toCachedRequestState := r }) hgapped h.indexed hchosen
        hnew

theorem Invariant.condense (hpermit : s.Permits .condense) (hclean : s.Clean .condense) :
    ∃ s', s.call .condense = .ok s' ∧ s'.Invariant := by
  have hgapped := h.phase
  rw [show s.condensed = false from hpermit] at hgapped
  obtain ⟨b', hrun, hdone, hidx, hfill, hreg, hsame⟩ :=
    InputBatch.Gapped.condense_filled hgapped h.indexed
    h.filled h.regular (fun id r hr => (h.suits id r hr).kind) hclean
  refine ⟨{ s with batch := b', condensed := true }, ?_, hidx, hfill, hreg, ?_, ?_, ?_, ?_, hdone⟩
  · simp only [call, hrun]
    rfl
  · rw [hsame.tables, hsame.vocabSize]
    exact h.params
  · rw [hsame.tables]
    exact h.lora
  · intro id r hr
    exact (h.suits id r hr).of_eq hsame.isPoolingModel hsame.blocksPerKvBlock
  · intro hpool
    exact h.noLogprobs (hsame.isPoolingModel ▸ hpool)

theorem Invariant.swap {i₁ i₂ : Nat} (hpermit : s.Permits (.swap i₁ i₂))
    (hclean : s.Clean (.swap i₁ i₂)) : ∃ s', s.call (.swap i₁ i₂) = .ok s' ∧ s'.Invariant := by
  obtain ⟨hphase, hi₁, hi₂, hne⟩ := hpermit
  have hdone := h.phase
  rw [hphase] at hdone
  obtain ⟨id₁, hat₁⟩ := InputBatch.Condensed.occupied hdone i₁ hi₁
  obtain ⟨id₂, hat₂⟩ := InputBatch.Condensed.occupied hdone i₂ hi₂
  obtain ⟨r₁, hr₁, -⟩ := h.filled.of_at hat₁
  obtain ⟨r₂, hr₂, -⟩ := h.filled.of_at hat₂
  have hrun := InputBatch.swapStates_eq h.indexed.get_iff hat₁ hat₂
  refine ⟨{ s with batch := s.batch.swapped i₁ i₂ id₁ id₂ }, ?_,
    h.indexed.swapped hat₁ hat₂,
    h.filled.swapped h.regular hne hat₁ hat₂ hr₁ hr₂ (h.suits id₁ r₁ hr₁).kind
      (h.suits id₂ r₂ hr₂).kind (hclean id₁ id₂ r₁ r₂ hat₁ hat₂ hr₁ hr₂),
    h.regular.swapped, h.params, h.lora, fun id r hr => (h.suits id r hr).of_eq rfl rfl,
    h.noLogprobs, ?_⟩
  · simp only [call, hrun]
    rfl
  · grind [InputBatch.Condensed.swapped, Invariant.indexed]

theorem Invariant.keepPromptLogprobs {chunk : Option Nat}
    (hpermit : s.Permits (.keepPromptLogprobs id chunk)) :
    ∃ s', s.call (.keepPromptLogprobs id chunk) = .ok s' ∧ s'.Invariant := by
  obtain ⟨hphase, hsome, hkind⟩ := hpermit
  obtain ⟨r, hr⟩ := Option.isSome_iff_exists.mp hsome
  obtain ⟨i, -, hat⟩ := h.indexed.get_of_live hr
  have hgapped := h.phase
  rw [hphase] at hgapped
  -- the rows do not change; only the table of prompt logprobs does
  have hc : s.batch.Changes s.batch i { r with promptLogprobs := chunk } :=
    h.filled.changes_self h.regular hat hr (fun hm => { hm with }) rfl rfl
  have hlive : update s.live id ((s.live id).map fun r =>
      { r with promptLogprobs := chunk }) =
      update s.live id (some { r with promptLogprobs := chunk }) := by
    rw [hr]
    rfl
  have hentry := h.params id
  rw [hr] at hentry
  have hfilled := h.filled.changes h.indexed hc hat
  refine ⟨_, rfl, ?_⟩
  unfold modify
  rw [hlive]
  refine ⟨(h.indexed.changes hc hr rfl).of_eq (fun _ => rfl) rfl, hfilled, h.regular, ?_, ?_, ?_,
    ?_, ?_⟩
  · refine h.params.update (fun id' hid => ⟨fun _ => Iff.rfl, rfl, ?_, rfl⟩) ?_
    · exact update_of_ne hid _ _
    · refine ⟨fun f => ?_, hentry.numLogprobs, ?_, hentry.poolingParams⟩
      · refine (hentry.features f).trans ?_
        simp
      · exact update_self _ _ _
  · rw [loras_update_self hr (by rfl)]
    exact h.lora.of_eq rfl rfl
  · intro id' r' hr'
    rcases of_update hr' with ⟨⟨⟩, rfl⟩ | hold
    · exact (h.suits id' r hr).of_eq rfl rfl
    · exact (h.suits id' r' hold).of_eq rfl rfl
  · intro hpool
    exact absurd (hkind.symm.trans hpool) (by decide)
  · rw [hphase]
    exact InputBatch.Gapped.of_eq hgapped rfl rfl rfl rfl

theorem Invariant.call {c : BatchCall K} (hpermit : s.Permits c) (hclean : s.Clean c) :
    ∃ s', s.call c = .ok s' ∧ s'.Invariant := by
  cases c with
  | remove id => exact h.remove hpermit hclean
  | updateRunning id n blocks =>
    obtain ⟨hphase, hsome, hnew⟩ := hpermit
    obtain ⟨r, hr⟩ := Option.isSome_iff_exists.mp hsome
    obtain ⟨i, -, hat⟩ := h.indexed.get_of_live hr
    have hgroups := (h.suits id r hr).groups
    obtain ⟨b', hrun, hc⟩ := h.filled.updateRunning h.regular h.indexed hat hr n hgroups hnew
    refine ⟨s.modify b' id fun r => r.running n blocks, ?_,
      h.changes hphase hr hat hc rfl rfl rfl rfl ?_⟩
    · simp only [BatchState.call, hrun, ok_bind]
      rfl
    · cases blocks with
      | none => rfl
      | some ids =>
        change (zipWith _ r.blockIds ids).length = _
        rw [length_zipWith, hnew ids rfl, hgroups, Nat.min_self]
  | updateSpec id spec =>
    obtain ⟨hphase, hsome⟩ := hpermit
    obtain ⟨r, hr⟩ := Option.isSome_iff_exists.mp hsome
    obtain ⟨i, -, hat⟩ := h.indexed.get_of_live hr
    obtain ⟨b', hrun, hc⟩ := h.filled.updateReqSpecTokenIds h.regular h.indexed hat hr spec
    refine ⟨s.modify b' id fun r => { r with specTokenIds := spec, draftsFresh := true }, ?_,
      h.changes hphase hr hat hc rfl rfl rfl rfl rfl⟩
    simp only [BatchState.call, hrun, ok_bind]
    rfl
  | add r => exact h.add hpermit hclean
  | condense => exact h.condense hpermit hclean
  | swap i₁ i₂ => exact h.swap hpermit hclean
  | refresh =>
    have hdone := h.phase
    rw [show s.condensed = true from hpermit] at hdone
    exact ⟨_, rfl, h.indexed.of_eq (fun _ => rfl) rfl, h.filled, h.regular, h.params, h.lora,
      fun id r hr => (h.suits id r hr).of_eq rfl rfl, h.noLogprobs, gapped_refreshMetadata hdone⟩
  | bookkeep id sampled =>
    obtain ⟨hphase, hsome⟩ := hpermit
    obtain ⟨r, hr⟩ := Option.isSome_iff_exists.mp hsome
    obtain ⟨i, hget, hat⟩ := h.indexed.get_of_live hr
    by_cases hnil : sampled = []
    · subst hnil
      have hrun : s.batch.bookkeep id [] = .ok s.batch := by
        unfold InputBatch.bookkeep
        rw [InputBatch.indexOf_eq hget]
        rfl
      have hc : s.batch.Changes s.batch i r :=
        h.filled.changes_self h.regular hat hr (fun hm => hm) rfl rfl
      refine ⟨s.modify s.batch id fun r => r, ?_, h.changes hphase hr hat hc rfl rfl rfl rfl rfl⟩
      simp only [BatchState.call, hrun, ok_bind, if_true]
      rfl
    · obtain ⟨b', hrun, hc⟩ := h.filled.bookkeep h.regular h.indexed hat hr hnil
      refine ⟨s.modify b' id fun r => r.sampled sampled, ?_,
        h.changes hphase hr hat hc rfl rfl rfl rfl rfl⟩
      simp only [BatchState.call, hrun, ok_bind, hnil, if_false]
      rfl
  | keepPromptLogprobs id chunk => exact h.keepPromptLogprobs hpermit

theorem Invariant.run {calls : List (BatchCall K)}
    (hissued : s.Issues (fun s c => s.Permits c ∧ s.Clean c) calls) :
    ∃ s', s.run calls = .ok s' ∧ s'.Invariant := by
  induction calls generalizing s with
  | nil => exact ⟨s, rfl, h⟩
  | cons c calls ih =>
    obtain ⟨⟨hpermit, hclean⟩, hrest⟩ := hissued
    obtain ⟨s₁, hcall, h₁⟩ := h.call hpermit hclean
    obtain ⟨s₂, hrun, h₂⟩ := ih h₁ (hrest s₁ hcall)
    refine ⟨s₂, ?_, h₂⟩
    unfold run
    rw [foldlM_cons, hcall]
    exact hrun

end

theorem invariant_init (isPoolingModel : Bool) (maxNumReqs vocabSize : Nat)
    (blocksPerKvBlock : List Nat) (junk : SamplingRow K) :
    ({ batch := .init isPoolingModel maxNumReqs vocabSize blocksPerKvBlock junk } :
      BatchState K).Invariant := by
  refine ⟨⟨fun id i => ?_, fun id => ?_, by rintro id r ⟨⟩, nodup_nil⟩,
    fun i => ?_, fun i => ⟨rfl, rfl, by simp [InputBatch.init]⟩, fun id => ?_, ?_,
    by rintro id r ⟨⟩, by rintro _ id r ⟨⟩, ?_⟩
  · simp [InputBatch.init, InputBatch.At]
  · simp [InputBatch.init, InputBatch.At]
  · refine .free ⟨rfl, rfl, rfl, rfl⟩ ?_
    change (replicate maxNumReqs ([] : List Token))[i]?.getD [] = []
    rw [getElem?_replicate]
    split_ifs
    · rfl
    · rfl
  · refine ⟨fun f => ?_, rfl, rfl, rfl⟩
    simp [InputBatch.init]
  · refine ⟨fun l id => ?_, by rintro l ids ⟨⟩, by rintro id lora ⟨⟩, fun l _ => rfl⟩
    simp [InputBatch.init, loras]
  · exact ⟨fun i => by simp [InputBatch.init], nodup_nil, fun _ => Pairwise.nil, rfl,
      Nat.zero_le _⟩

/-- After `condense`, and until the next update, every row of the batch holds exactly the values
of its request, in every run whose calls keep clear of what the calls do not keep. -/
theorem rows_consistent_of_clean (isPoolingModel : Bool) (maxNumReqs vocabSize : Nat)
    (blocksPerKvBlock : List Nat) (junk : SamplingRow K) (calls : List (BatchCall K))
    (hissued : Issues (fun s c => s.Permits c ∧ s.Clean c)
      { batch := .init isPoolingModel maxNumReqs vocabSize blocksPerKvBlock junk } calls) :
    ∃ s, run
        { batch := .init isPoolingModel maxNumReqs vocabSize blocksPerKvBlock junk } calls = .ok s ∧
      (s.condensed = true → s.Consistent) := by
  obtain ⟨s, hrun, h⟩ := (invariant_init isPoolingModel maxNumReqs vocabSize blocksPerKvBlock
    junk).run hissued
  exact ⟨s, hrun, h.consistent⟩

/-- A request with a prompt of one token and the given `allowed_token_ids`. -/
def sampleRequest (reqId : ReqId) (allowedTokenIds : List Nat) : CachedRequestState ℚ where
  reqId := reqId
  promptTokenIds := some [7]
  params := .sampling
    { temperature := 1, topP := 1, topK := 0, frequencyPenalty := 0, presencePenalty := 0,
      repetitionPenalty := 1, minP := 0, allowedTokenIds := allowedTokenIds }
  blockIds := [[reqId + 1]]
  numPromptTokens := 1
  numPromptTokens_ok := rfl

def smallBatch : BatchState ℚ where
  batch := .init false 2 4 [1]
    { temperature := 0, topP := 0, topK := 0, frequencyPenalty := 0, presencePenalty := 0,
      repetitionPenalty := 0 }

theorem rows_consistent_of_clean_moved : ∃ s, smallBatch.run
      [.add (sampleRequest 0 []), .add (sampleRequest 1 []), .remove 0, .condense] = .ok s ∧
    (s.condensed = true → s.Consistent) := by
  refine rows_consistent_of_clean false 2 4 [1] _ _ ?_
  refine issues_cons rfl ⟨?_, ?_⟩ (issues_cons rfl ⟨?_, ?_⟩ (issues_cons rfl ⟨?_, ?_⟩
    (issues_cons rfl ⟨?_, ?_⟩ trivial)))
  · exact ⟨rfl, rfl, ⟨rfl, rfl, nofun⟩, by decide⟩
  · exact ⟨rfl, fun _ _ _ _ h => (nomatch h)⟩
  · exact ⟨rfl, rfl, ⟨rfl, rfl, nofun⟩, by decide⟩
  · exact ⟨rfl, fun _ _ _ _ _ _ h => (nomatch h)⟩
  · exact ⟨rfl, rfl⟩
  · intro r hr
    cases hr
    rfl
  · exact rfl
  · intro i id r hi hat hr
    rcases eq_or_ne id 1 with rfl | hid
    · cases hr
      rfl
    · grind [sampleRequest]

/-- The request 1 with `allowed_token_ids` moves to the row 0, which leaves its mask in the row 1;
the request 2, which allows every token, is added to that row. -/
def staleMaskRun : List (BatchCall ℚ) :=
  [.add (sampleRequest 0 []), .add (sampleRequest 1 [2]), .remove 0, .condense, .refresh,
    .add (sampleRequest 2 []), .condense]

theorem staleMaskRun_not_consistent : smallBatch.Issues Permits staleMaskRun ∧
    ∃ s, smallBatch.run staleMaskRun = .ok s ∧ s.condensed = true ∧ ¬s.Consistent := by
  constructor
  · refine issues_cons rfl ?_ (issues_cons rfl ?_ (issues_cons rfl ?_ (issues_cons rfl ?_
      (issues_cons rfl ?_ (issues_cons rfl ?_ (issues_cons rfl ?_ trivial))))))
    · exact ⟨rfl, rfl, ⟨rfl, rfl, nofun⟩, by decide⟩
    · exact ⟨rfl, rfl, ⟨rfl, rfl, nofun⟩, by decide⟩
    · exact ⟨rfl, rfl⟩
    · exact rfl
    · exact rfl
    · exact ⟨rfl, rfl, ⟨rfl, rfl, nofun⟩, by decide⟩
    · exact rfl
  · refine ⟨_, rfl, rfl, fun h => ?_⟩
    obtain ⟨id, r, hat, -, hr, hm, -⟩ := h.row 1 (by decide)
    cases hat
    cases hr
    exact absurd (congrFun hm.mask 0) (by decide)

end BatchState

end LongCtxSpecDecode
