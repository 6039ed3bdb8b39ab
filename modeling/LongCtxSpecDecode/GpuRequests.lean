import LongCtxSpecDecode.GpuKernels

/-!
# What the device holds of a request

The tensors at the index of a request hold what the scheduler has of it, and a step with the request
in its batch keeps this: it goes on with the prefill, or it takes the target's choices up to the
first rejected draft.
-/

namespace LongCtxSpecDecode.Gpu

open Library List Function OrderedDict

/-- A request as the scheduler sees it. -/
structure Tracked where
  promptTokenIds : List Token
  outputTokenIds : List Token
  numComputedTokens : Nat
  specTokenIds : List Token
  running : Bool
deriving DecidableEq, Repr

namespace Tracked

def tokens (t : Tracked) : List Token := t.promptTokenIds ++ t.outputTokenIds

/-- `_preempt_request`. -/
def preempt (t : Tracked) : Tracked :=
  { t with numComputedTokens := 0, specTokenIds := [], running := false }

/-- `update_from_output` and `update_draft_token_ids` of the scheduler: the rejected drafts are
taken back, and a request in its prefill gets no drafts. -/
def update (t : Tracked) (numScheduledTokens numDraftTokens : Nat)
    (sampledTokenIds draftTokenIds : List Token) : Tracked :=
  { t with
    outputTokenIds := t.outputTokenIds ++ sampledTokenIds
    numComputedTokens := t.numComputedTokens + numScheduledTokens -
      if 0 < numDraftTokens ∧ sampledTokenIds ≠ [] then
        numDraftTokens + 1 - sampledTokenIds.length
      else 0
    specTokenIds :=
      if t.numComputedTokens + numScheduledTokens < t.tokens.length then [] else draftTokenIds }

end Tracked

/-! ### The indices of the requests -/

structure SameRow (s s' : RequestState) (idx : Nat) : Prop where
  maxNumReqs : s'.maxNumReqs = s.maxNumReqs
  steps : s'.numSpeculativeSteps = s.numSpeculativeSteps
  prefillTokenIds : s'.prefillTokenIds idx = s.prefillTokenIds idx
  prefillLen : s'.prefillLen idx = s.prefillLen idx
  numComputedTokens : s'.numComputedTokens idx = s.numComputedTokens idx
  lastSampledTokens : s'.lastSampledTokens idx = s.lastSampledTokens idx
  draftTokens : s'.draftTokens idx = s.draftTokens idx

theorem SameRow.refl (s : RequestState) (idx : Nat) : SameRow s s idx :=
  ⟨rfl, rfl, rfl, rfl, rfl, rfl, rfl⟩

theorem SameRow.trans {s s' s'' : RequestState} {idx : Nat} (h : SameRow s s' idx)
    (h' : SameRow s' s'' idx) : SameRow s s'' idx :=
  ⟨h'.maxNumReqs.trans h.maxNumReqs, h'.steps.trans h.steps,
    h'.prefillTokenIds.trans h.prefillTokenIds, h'.prefillLen.trans h.prefillLen,
    h'.numComputedTokens.trans h.numComputedTokens, h'.lastSampledTokens.trans h.lastSampledTokens,
    h'.draftTokens.trans h.draftTokens⟩

/-- Each request has a row of its own, and the other rows are free. -/
structure WellIndexed (s : RequestState) : Prop where
  keys : (s.reqIdToIndex.keys).Nodup
  count : s.freeIndices.length + s.reqIdToIndex.length = s.maxNumReqs
  free : s.freeIndices.Nodup
  apart : ∀ r idx, s.reqIdToIndex.get r = some idx → idx ∉ s.freeIndices
  inj : ∀ r r' idx, s.reqIdToIndex.get r = some idx →
    s.reqIdToIndex.get r' = some idx → r = r'

theorem wellIndexed_init (maxNumReqs numSpeculativeSteps : Nat) :
    WellIndexed (.init maxNumReqs numSpeculativeSteps) where
  keys := nodup_nil
  count := length_range
  free := nodup_range
  apart _ _ h := by cases h
  inj _ _ _ h := by cases h

section indices

variable {s : RequestState}

theorem removeRequest_get (s : RequestState) (reqId r : ReqId) :
    get (s.removeRequest reqId).reqIdToIndex r =
      if r = reqId then none else s.reqIdToIndex.get r := by
  unfold RequestState.removeRequest
  cases hget : s.reqIdToIndex.get reqId with
  | none =>
    split_ifs with heq
    · rw [heq, hget]
    · rfl
  | some reqIdx => exact get_pop ..

theorem WellIndexed.removeRequest (h : WellIndexed s) (reqId : ReqId) :
    WellIndexed (s.removeRequest reqId) := by
  have hget := removeRequest_get s reqId
  unfold RequestState.removeRequest at hget ⊢
  cases hreq : s.reqIdToIndex.get reqId with
  | none => exact h
  | some reqIdx =>
    simp only [hreq] at hget ⊢
    have hlen := length_pop_of_mem h.keys (mem_keys_of_get hreq)
    have hcount := h.count
    refine ⟨keys_pop_nodup h.keys reqId, ?_, ?_, fun r idx hidx => ?_,
      fun r r' idx hidx hidx' => ?_⟩
    · simp only [length_append, length_cons, length_nil]
      omega
    · exact nodup_append.mpr ⟨h.free, nodup_singleton _, fun i hi j hj heq =>
        h.apart reqId reqIdx hreq (by rw [← mem_singleton.mp hj, ← heq]; exact hi)⟩
    · grind [WellIndexed.apart, WellIndexed.inj]
    · rw [hget] at hidx hidx'
      split_ifs at hidx hidx'
      exact h.inj r r' idx hidx hidx'

theorem sameRow_removeRequest (s : RequestState) (reqId : ReqId) (idx : Nat) :
    SameRow s (s.removeRequest reqId) idx := by
  unfold RequestState.removeRequest
  cases s.reqIdToIndex.get reqId <;> exact ⟨rfl, rfl, rfl, rfl, rfl, rfl, rfl⟩

structure Removed (s s' : RequestState) (reqIds : List ReqId) : Prop where
  wellIndexed : WellIndexed s'
  get : ∀ r, s'.reqIdToIndex.get r =
    if r ∈ reqIds then none else s.reqIdToIndex.get r
  same : ∀ idx, SameRow s s' idx

theorem WellIndexed.removed (h : WellIndexed s) (reqIds : List ReqId) :
    Removed s (reqIds.foldl RequestState.removeRequest s) reqIds := by
  induction reqIds generalizing s with
  | nil => exact ⟨h, fun r => by simp, fun idx => .refl s idx⟩
  | cons reqId reqIds ih =>
    have hrest := ih (h.removeRequest reqId)
    rw [foldl_cons]
    refine ⟨hrest.wellIndexed, fun r => ?_, fun idx =>
      (sameRow_removeRequest s reqId idx).trans (hrest.same idx)⟩
    rw [hrest.get, removeRequest_get]
    by_cases hmem : r ∈ reqIds
    · simp [hmem]
    · by_cases heq : r = reqId <;> simp [heq]

structure Added (s s' : RequestState) (req : NewRequest) (idx : Nat) : Prop where
  wellIndexed : WellIndexed s'
  free : idx ∈ s.freeIndices
  get : ∀ r, s'.reqIdToIndex.get r =
    if r = req.reqId then some idx else s.reqIdToIndex.get r
  length : s'.reqIdToIndex.length = s.reqIdToIndex.length + 1
  same : ∀ idx', idx' ≠ idx → SameRow s s' idx'
  steps : s'.numSpeculativeSteps = s.numSpeculativeSteps
  maxNumReqs : s'.maxNumReqs = s.maxNumReqs
  prefillLen : s'.prefillLen idx = req.prefillTokenIds.length
  prefillTokenIds : ∀ j < req.prefillTokenIds.length,
    req.prefillTokenIds[j]? = some (s'.prefillTokenIds idx j)
  numComputedTokens : s'.numComputedTokens idx = req.numComputedTokens

theorem WellIndexed.addRequest (h : WellIndexed s) {req : NewRequest}
    (hnew : s.reqIdToIndex.get req.reqId = none)
    (hlen : req.promptTokenIds.length ≤ req.prefillTokenIds.length)
    (hroom : s.reqIdToIndex.length < s.maxNumReqs) :
    ∃ s' idx, s.addRequest req = .ok s' ∧ Added s s' req idx := by
  have hcount := h.count
  have hne : s.freeIndices ≠ [] := by
    rintro hnil
    rw [hnil, length_nil] at hcount
    omega
  obtain ⟨idx, hlast⟩ : ∃ idx, s.freeIndices.getLast? = some idx :=
    ⟨_, getLast?_eq_some_getLast hne⟩
  have hfree : s.freeIndices = s.freeIndices.dropLast ++ [idx] :=
    (dropLast_append_getLast? idx hlast).symm
  have hidx : idx ∈ s.freeIndices := by
    rw [hfree]
    simp
  have hnodup := h.free
  rw [hfree, nodup_append] at hnodup
  have hkey : req.reqId ∉ s.reqIdToIndex.keys := get_eq_none.mp hnew
  have hlength := length_set_of_notMem hkey idx
  have hget := get_set s.reqIdToIndex req.reqId idx
  refine ⟨s.writeRequest req idx, idx, ?_, ?_⟩
  · unfold RequestState.addRequest
    rw [hlast]
    exact (congrArg (· >>= _) (require_of_true hlen _)).trans (ok_bind ..)
  constructor
  case wellIndexed =>
    refine ⟨keys_set_nodup h.keys .., ?_, hnodup.1, fun r idx' hidx' hmem => ?_,
      fun r r' idx' hidx' hidx'' => ?_⟩
    · grind [RequestState.writeRequest]
    · have hcase := (hget r).symm.trans hidx'
      split_ifs at hcase with heq
      · exact hnodup.2.2 idx' hmem idx (mem_singleton.mpr rfl) (Option.some.inj hcase).symm
      · exact h.apart r idx' hcase (mem_of_mem_dropLast hmem)
    · have hcase := (hget r).symm.trans hidx'
      have hcase' := (hget r').symm.trans hidx''
      split_ifs at hcase hcase' with heq heq' heq'
      · rw [heq, heq']
      · exact absurd hidx (h.apart r' idx (hcase'.trans hcase.symm))
      · exact absurd hidx (h.apart r idx (hcase.trans hcase'.symm))
      · exact h.inj r r' idx' hcase hcase'
  case free => exact hidx
  case get => exact hget
  case length => exact hlength
  case same =>
    intro idx' hne
    exact ⟨rfl, rfl, update_of_ne hne .., update_of_ne hne ..,
      update_of_ne hne .., rfl, rfl⟩
  case steps => rfl
  case maxNumReqs => rfl
  case prefillLen => exact update_self ..
  case prefillTokenIds =>
    intro j hj
    simp [RequestState.writeRequest, hj]
  case numComputedTokens => exact update_self ..

end indices

/-! ### What the tensors hold of a request -/

/-- A request past its prefill: only its last token is not computed, and it comes with drafts. -/
structure Decoding (s : RequestState) (idx : Nat) (t : Tracked) : Prop where
  prefilled : s.prefillLen idx ≤ t.numComputedTokens
  length : t.tokens.length = t.numComputedTokens + 1
  last : t.tokens.getLast? = some (s.lastSampledTokens idx)
  steps : t.specTokenIds.length ≤ s.numSpeculativeSteps
  drafts : ∀ j < t.specTokenIds.length, t.specTokenIds[j]? = some (s.draftTokens idx j)

theorem Decoding.output_last {s : RequestState} {idx : Nat} {t : Tracked} (h : Decoding s idx t)
    (hprompt : t.promptTokenIds.length ≤ s.prefillLen idx) :
    t.outputTokenIds.getLast? = some (s.lastSampledTokens idx) := by
  have hlen := h.length
  have hprefilled := h.prefilled
  have hne : t.outputTokenIds ≠ [] := by
    rintro hnil
    rw [Tracked.tokens, hnil, append_nil] at hlen
    omega
  rw [← h.last, Tracked.tokens, getLast?_append_of_ne_nil _ hne]

/-- Known tokens are still to be computed. -/
structure Prefilling (s : RequestState) (idx : Nat) (t : Tracked) : Prop where
  unfinished : t.numComputedTokens < s.prefillLen idx
  length : t.tokens.length = s.prefillLen idx
  noDrafts : t.specTokenIds = []

/-- Row `idx` has the state of the request. -/
structure Holds (s : RequestState) (kv : Nat → Option (List Token)) (idx : Nat) (t : Tracked) :
    Prop where
  prompt_le : t.promptTokenIds.length ≤ s.prefillLen idx
  prefillLen_le : s.prefillLen idx ≤ t.tokens.length
  prefill : ∀ j < s.prefillLen idx, t.tokens[j]? = some (s.prefillTokenIds idx j)
  numComputed : s.numComputedTokens idx = t.numComputedTokens
  phase : Prefilling s idx t ∨ Decoding s idx t
  cached : ∀ j < t.numComputedTokens, kv j = some (t.tokens.take (j + 1))
  stale : ∀ j ≥ t.numComputedTokens, ∀ context, kv j = some context →
    ∃ i < context.length, i < t.tokens.length ∧ context[i]? ≠ t.tokens[i]?

namespace Holds

variable {s s' : RequestState} {kv : Nat → Option (List Token)} {idx : Nat} {t : Tracked}

theorem congr (h : Holds s kv idx t) (hsame : SameRow s s' idx) : Holds s' kv idx t := by
  obtain ⟨-, hsteps, hids, hlen, hcomputed, hlast, hdrafts⟩ := hsame
  refine ⟨?_, ?_, ?_, ?_, ?_, h.cached, h.stale⟩
  · rw [hlen]
    exact h.prompt_le
  · rw [hlen]
    exact h.prefillLen_le
  · rw [hlen, hids]
    exact h.prefill
  · rw [hcomputed]
    exact h.numComputed
  · refine h.phase.imp (fun hp => ⟨?_, ?_, hp.noDrafts⟩) fun hd => ⟨?_, hd.length, ?_, ?_, ?_⟩
    · rw [hlen]
      exact hp.unfinished
    · rw [hlen]
      exact hp.length
    · rw [hlen]
      exact hd.prefilled
    · rw [hlast]
      exact hd.last
    · rw [hsteps]
      exact hd.steps
    · rw [hdrafts]
      exact hd.drafts

theorem kv_iff (h : Holds s kv idx t) (j : Nat) :
    kv j = some (t.tokens.take (j + 1)) ↔ j < t.numComputedTokens := by
  refine ⟨fun hj => Nat.lt_of_not_le fun hle => ?_, h.cached j⟩
  obtain ⟨i, hi, -, hne⟩ := h.stale j hle _ hj
  refine hne (getElem?_take_of_lt ?_)
  rw [length_take] at hi
  omega

theorem numComputed_le (h : Holds s kv idx t) : t.numComputedTokens ≤ t.tokens.length := by
  rcases h.phase with hp | hd
  · have hlt := hp.unfinished
    have hlen := hp.length
    omega
  · have hlen := hd.length
    omega

end Holds

theorem Added.holds {s s' : RequestState} {req : NewRequest} {idx : Nat} (h : Added s s' req idx)
    (hcomputed : req.numComputedTokens < req.prefillTokenIds.length) {t : Tracked}
    (hprompt : t.promptTokenIds.length ≤ req.prefillTokenIds.length)
    (htokens : t.tokens = req.prefillTokenIds) (hnum : t.numComputedTokens = req.numComputedTokens)
    (hdrafts : t.specTokenIds = []) :
    Holds s' (fun j => if j < req.numComputedTokens then some (req.prefillTokenIds.take (j + 1))
      else none) idx t where
  prompt_le := h.prefillLen ▸ hprompt
  prefillLen_le := by rw [h.prefillLen, htokens]
  prefill j hj := by
    rw [htokens]
    exact h.prefillTokenIds j (h.prefillLen ▸ hj)
  numComputed := by rw [h.numComputedTokens, hnum]
  phase := .inl ⟨by rw [h.prefillLen, hnum]; exact hcomputed, by rw [h.prefillLen, htokens],
    hdrafts⟩
  cached j hj := by
    rw [hnum] at hj
    rw [if_pos hj, htokens]
  stale j hj context hkv := by
    rw [hnum] at hj
    rw [if_neg (Nat.not_lt.mpr hj)] at hkv
    cases hkv

/-! ### A scheduled request -/

/-- The scheduled tokens go on from the computed ones. -/
structure Schedulable (t : Tracked) (numScheduledTokens numDraftTokens : Nat) : Prop where
  pos : 0 < numScheduledTokens
  le : t.numComputedTokens + numScheduledTokens ≤ t.tokens.length + t.specTokenIds.length
  drafts : numDraftTokens = t.numComputedTokens + numScheduledTokens - t.tokens.length

section scheduled

variable {runner : Runner} {rows : List BatchRow} {row : BatchRow} {b : Nat} {t : Tracked}

/-- The tokens with the scheduled drafts. -/
def Tracked.line (t : Tracked) (numDraftTokens : Nat) : List Token :=
  t.tokens ++ t.specTokenIds.take numDraftTokens

theorem Schedulable.cases {s : RequestState} {kv : Nat → Option (List Token)} {idx n k : Nat}
    (hsched : Schedulable t n k) (h : Holds s kv idx t) :
    (Prefilling s idx t ∧ k = 0 ∧ t.numComputedTokens + n ≤ s.prefillLen idx) ∨
      (Decoding s idx t ∧ n = k + 1 ∧ k ≤ t.specTokenIds.length) := by
  obtain ⟨hpos, hle, hdrafts⟩ := hsched
  rcases h.phase with hp | hd
  · have hlen := hp.length
    rw [hp.noDrafts, length_nil] at hle
    exact .inl ⟨hp, by omega, by omega⟩
  · have hlen := hd.length
    exact .inr ⟨hd, by omega, by omega⟩

/-- Each token is sampled after all that precede it. -/
def Chosen (sampler : ReqId → Option (List Token) → Token) (reqId : ReqId)
    (tokens sampled : List Token) : Prop :=
  ∀ i < sampled.length, sampled[i]? = some (sampler reqId (some (tokens ++ sampled.take i)))

theorem take_line {tokens rest sampled : List Token} {accepted : Nat}
    (hsame : ∀ i < accepted, (tokens ++ rest)[tokens.length + i]? = sampled[i]?) {n : Nat}
    (hn : n ≤ accepted) :
    (tokens ++ rest).take (tokens.length + n) = tokens ++ sampled.take n := by
  rw [take_append, take_of_length_le (Nat.le_add_right ..)]
  congr 1
  refine ext_getElem? fun i => ?_
  by_cases hi : i < n
  · grind
  · rw [getElem?_eq_none (by simp; omega), getElem?_eq_none (by simp; omega)]

section

variable (h : Holds runner.reqStates (runner.kv row.reqStateIdx) row.reqStateIdx t)
  (hfew : FewDrafts rows) (hrow : rows[b]? = some row)
  (hsched : Schedulable t row.numScheduledTokens row.numDraftTokens)
include h hfew hrow hsched

theorem Holds.onLine :
    OnLine runner rows b row t.numComputedTokens (t.line row.numDraftTokens) where
  getRow := hrow
  steps := by
    rcases hsched.cases h with ⟨-, hzero, -⟩ | ⟨hd, -, hle⟩
    · omega
    · have hsteps := hd.steps
      omega
  few := hfew row (mem_of_getElem? hrow)
  numComputed := h.numComputed
  inputIds j hj := by
    rcases hsched.cases h with ⟨hp, hzero, hle⟩ | ⟨hd, hnum, hle⟩
    · have hlen := hp.length
      rw [prepareInputs_inputIds_prefill hfew hrow h.numComputed hle hj, Tracked.line,
        getElem?_append_left (by omega), h.prefill _ (by omega)]
    · have hlen := hd.length
      have hsteps := hd.steps
      rw [prepareInputs_inputIds_decode hfew hrow h.numComputed hd.prefilled hnum (by omega)
        (by omega), Tracked.line]
      cases j with
      | zero =>
        rw [if_pos rfl, getElem?_append_left (by omega), ← hd.last,
          getLast?_eq_getElem?, hlen]
        rfl
      | succ i =>
        grind [hd.drafts]
  kv j hj := by
    have hle := h.numComputed_le
    rw [h.cached j hj, Tracked.line, take_append_of_le_length (by omega)]

variable {sampler : ReqId → Option (List Token) → Token} {drafts : ReqId → Nat → Token}
  {newDrafts : List Token} (hnodup : (rows.map BatchRow.reqStateIdx).Nodup)
include hnodup

theorem Holds.runBatch_chunk
    (hchunk : t.numComputedTokens + row.numScheduledTokens <
      runner.reqStates.prefillLen row.reqStateIdx) :
    (runner.runBatch rows sampler drafts).sampledTokenIds[b]? = some (row.reqId, []) ∧
      Holds (runner.runBatch rows sampler drafts).runner.reqStates
        ((runner.runBatch rows sampler drafts).runner.kv row.reqStateIdx) row.reqStateIdx
        (t.update row.numScheduledTokens row.numDraftTokens [] newDrafts) := by
  have hline := h.onLine hfew hrow hsched
  have hcounts := hline.sampleBatch_chunk sampler hchunk
  have hp : Prefilling runner.reqStates row.reqStateIdx t := by
    refine h.phase.resolve_right fun hd => ?_
    have hprefilled := hd.prefilled
    omega
  have hkv := hline.forward_kv hnodup
  have hlen := hp.length
  have htokens : t.line row.numDraftTokens = t.tokens := by
    rw [Tracked.line, hp.noDrafts, take_nil, append_nil]
  have hupdate : t.update row.numScheduledTokens row.numDraftTokens [] newDrafts =
      { t with
        numComputedTokens := t.numComputedTokens + row.numScheduledTokens
        specTokenIds := [] } := by
    rw [Tracked.update, if_neg (fun hdrafts => hdrafts.2 rfl), if_pos (by omega), append_nil]
    rfl
  constructor
  · rw [hline.runBatch_sampledTokenIds, hcounts]
    rfl
  rw [hupdate]
  refine ⟨h.prompt_le, h.prefillLen_le, h.prefill, ?_, .inl ⟨hchunk, hlen, rfl⟩, fun j hj => ?_,
    fun j hj context hcontext => ?_⟩
  · rw [hline.runBatch_numComputedTokens hnodup, hcounts]
    simp
  · exact (hkv j).trans ((if_pos hj).trans (by rw [htokens]; rfl))
  · have hold := (hkv j).symm.trans hcontext
    rw [if_neg (Nat.not_lt.mpr hj)] at hold
    exact h.stale j (Nat.le_trans (Nat.le_add_right ..) hj) context hold

theorem Holds.runBatch_sampled
    (hsteps : newDrafts.length ≤ runner.reqStates.numSpeculativeSteps)
    (hdrafts : ∀ j < newDrafts.length, newDrafts[j]? = some (drafts row.reqId j))
    (hend : runner.reqStates.prefillLen row.reqStateIdx ≤
      t.numComputedTokens + row.numScheduledTokens) :
    ∃ sampled,
      (runner.runBatch rows sampler drafts).sampledTokenIds[b]? = some (row.reqId, sampled) ∧
      Chosen sampler row.reqId t.tokens sampled ∧
      Holds (runner.runBatch rows sampler drafts).runner.reqStates
        ((runner.runBatch rows sampler drafts).runner.kv row.reqStateIdx) row.reqStateIdx
        (t.update row.numScheduledTokens row.numDraftTokens sampled newDrafts) := by
  have hline := h.onLine hfew hrow hsched
  have hkv := hline.forward_kv hnodup
  have hknown : t.numComputedTokens + row.numScheduledTokens =
      t.tokens.length + row.numDraftTokens := by
    rcases hsched.cases h with ⟨hp, hzero, hle⟩ | ⟨hd, hnum, -⟩
    · have hlen := hp.length
      omega
    · have hlen := hd.length
      omega
  obtain ⟨accepted, hle, hcounts, hchoice, hsame, hdiffer⟩ :=
    hline.sampleBatch_sampled hnodup sampler hend hknown
  have hsampled : (range (accepted + 1)).map ((runner.sampleBatch rows sampler).1 b) =
      (range (accepted + 1)).map fun i =>
        sampler row.reqId (some ((t.line row.numDraftTokens).take (t.tokens.length + i))) :=
    map_congr_left fun i hi => hchoice i (by have := mem_range.mp hi; omega)
  generalize hresult : (range (accepted + 1)).map ((runner.sampleBatch rows sampler).1 b) =
    sampled at hsampled
  have hlength : sampled.length = accepted + 1 := by rw [hsampled]; simp
  have hentry : ∀ i ≤ accepted, sampled[i]? = some (sampler row.reqId
      (some ((t.line row.numDraftTokens).take (t.tokens.length + i)))) := by
    intro i hi
    rw [hsampled]
    simp [Nat.lt_succ_of_le hi]
  have htake : ∀ n ≤ accepted, (t.line row.numDraftTokens).take (t.tokens.length + n) =
      t.tokens ++ sampled.take n := fun n hn =>
    take_line (fun i hi => (hsame i hi).trans (hentry i (by omega)).symm) hn
  have htokens : (t.update row.numScheduledTokens row.numDraftTokens sampled newDrafts).tokens =
      t.tokens ++ sampled := (append_assoc ..).symm
  have hcomputed : (t.update row.numScheduledTokens row.numDraftTokens sampled
      newDrafts).numComputedTokens = t.tokens.length + accepted := by
    grind [Tracked.update]
  have hspec : (t.update row.numScheduledTokens row.numDraftTokens sampled
      newDrafts).specTokenIds = newDrafts := if_neg (by omega)
  have hlinelen : (t.line row.numDraftTokens).length = t.tokens.length + row.numDraftTokens := by
    have hdraftlen := hsched.le
    rw [Tracked.line, length_append, length_take]
    omega
  have hprefillLen := h.prefillLen_le
  refine ⟨sampled, ?_, fun i hi => ?_, ?_⟩
  · rw [hline.runBatch_sampledTokenIds, hcounts, ← hresult]
  · rw [hentry i (by omega), htake i (by omega)]
  refine ⟨h.prompt_le, ?_, fun j hj => ?_, ?_, .inr ⟨?_, ?_, ?_, ?_, ?_⟩, fun j hj => ?_,
    fun j hj context hcontext => ?_⟩
  · rw [htokens, length_append]
    exact Nat.le_trans hprefillLen (Nat.le_add_right ..)
  · rw [htokens, getElem?_append_left (Nat.lt_of_lt_of_le hj hprefillLen)]
    exact h.prefill j hj
  · rw [hline.runBatch_numComputedTokens hnodup, hcounts, hcomputed]
    simp only
    omega
  · rw [hcomputed]
    exact Nat.le_trans hprefillLen (Nat.le_add_right ..)
  · rw [htokens, hcomputed, length_append, hlength, Nat.add_assoc]
  · rw [htokens, hline.runBatch_lastSampledTokens hnodup, hcounts, if_pos (Nat.succ_pos _),
      Nat.add_sub_cancel, hchoice accepted (Nat.le_refl _), ← hentry accepted (Nat.le_refl _),
      getLast?_eq_getElem?, length_append, hlength,
      getElem?_append_right (by omega)]
    congr 1
    omega
  · rw [hspec]
    exact hsteps
  · rw [hspec, hline.runBatch_draftTokens hnodup]
    exact hdrafts
  · rw [hcomputed] at hj
    have hshort := congrArg (take (j + 1)) (htake accepted (Nat.le_refl _))
    rw [take_take, Nat.min_eq_left (by omega)] at hshort
    refine (hkv j).trans ((if_pos (by omega)).trans (congrArg some (hshort.trans ?_)))
    rw [htokens, take_append, take_append, take_take, Nat.min_eq_left (by omega)]
  · rw [hcomputed] at hj
    rw [htokens]
    have hnew := (hkv j).symm.trans hcontext
    split_ifs at hnew with hwritten
    · refine ⟨t.tokens.length + accepted, ?_, ?_, ?_⟩
      · rw [← Option.some.inj hnew, length_take]
        omega
      · rw [length_append]
        omega
      · grind
    · obtain ⟨i, hi, hlt, hne⟩ := h.stale j (by omega) context hnew
      refine ⟨i, hi, by rw [length_append]; omega, ?_⟩
      rw [getElem?_append_left hlt]
      exact hne

end

end scheduled

end LongCtxSpecDecode.Gpu
