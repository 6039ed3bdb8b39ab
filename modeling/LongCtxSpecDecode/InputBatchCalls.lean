import LongCtxSpecDecode.InputBatchRows

/-!
# The calls on the batch keep the rows

One lemma for each of the calls that the model runner issues on `InputBatch`: the call returns
and the rows, the lists and the dictionaries hold the requests afterwards.
-/

namespace LongCtxSpecDecode

open Library Library.Slices List Function OrderedDict

namespace BatchUpdateBuilder

variable {K : Type} (u : BatchUpdateBuilder K)

@[simp] theorem recordAdded_removed (i : Nat) (r : CachedRequestState K) :
    (u.recordAdded i r).removed = u.removed := by
  unfold recordAdded
  split
  · rfl
  · rfl

@[simp] theorem recordAdded_isRemovedSorted (i : Nat) (r : CachedRequestState K) :
    (u.recordAdded i r).isRemovedSorted = u.isRemovedSorted := by
  unfold recordAdded
  split
  · rfl
  · rfl

@[simp] theorem recordMoved_removed (isPoolingModel : Bool) (i j : Nat)
    (direct : MoveDirectionality) :
    (u.recordMoved isPoolingModel i j direct).removed = u.removed := by
  unfold recordMoved
  split_ifs
  · rfl
  · rfl

end BatchUpdateBuilder

namespace InputBatch

variable {K : Type} {b b' : InputBatch K} {live : BatchRequests K}
variable {i j : Nat} {id : ReqId} {r : BatchedRequest K}

/-! ## Removing -/

/-- The batch after the request of the row `i` was removed. -/
def vacated (b : InputBatch K) (i : Nat) (id : ReqId) : InputBatch K :=
  { b.setRow i ((b.rows i).clear b.isPoolingModel) with
    reqIdToIndex := b.reqIdToIndex.pop id
    batchUpdateBuilder :=
      { b.batchUpdateBuilder with removed := b.batchUpdateBuilder.removed ++ [i] }
    reqIds := b.reqIds.set i none
    reqOutputTokenIds := b.reqOutputTokenIds.set i none
    specTokenIds := b.specTokenIds.set i []
    tables := (b.tables.removeLora id (b.rows i).loraId).removeParams b.isPoolingModel id }

theorem removeRequest_of_none (hget : b.reqIdToIndex.get id = none) :
    b.removeRequest id = .ok b := by
  unfold removeRequest
  rw [hget]

theorem Indexed.live_eq_none (h : b.Indexed live) (hget : b.reqIdToIndex.get id = none) :
    live id = none := by
  cases hr : live id with
  | none => rfl
  | some r =>
    obtain ⟨i, hi, -⟩ := h.get_of_live hr
    rw [hget] at hi
    cases hi

theorem removeRequest_eq (hget : b.reqIdToIndex.get id = some i)
    (hsorted : b.batchUpdateBuilder.isRemovedSorted = false) :
    b.removeRequest id = .ok (b.vacated i id) := by
  have happend : b.batchUpdateBuilder.removedAppend i =
      .ok { b.batchUpdateBuilder with removed := b.batchUpdateBuilder.removed ++ [i] } :=
    if_neg (by simp [hsorted])
  unfold removeRequest
  rw [hget]
  simp only [happend]
  rfl

theorem at_vacated (hi : i < b.reqIds.length) :
    (b.vacated i id).reqIds[j]? = if j = i then some none else b.reqIds[j]? :=
  getElem?_set_of_lt hi

theorem Indexed.vacated (h : b.Indexed live) (hi : b.At i id) :
    (b.vacated i id).Indexed (update live id none) := by
  have hat : ∀ j id', (b.vacated i id).At j id' ↔ id' ≠ id ∧ b.At j id' := by
    grind [At, at_vacated, h.at_unique]
  refine ⟨fun id' j => ?_, fun id' => ?_, fun id' r' hr' => ?_,
    keys_pop_nodup h.nodup _⟩
  · rw [hat]
    refine (Eq.congr_left (get_pop b.reqIdToIndex id id')).trans ?_
    rcases eq_or_ne id' id with rfl | hid
    · simp
    · simp [h.get_iff]
  · rcases eq_or_ne id' id with rfl | hid
    · simp [hat]
    · simp [hat, hid, h.live_iff]
  · rcases eq_or_ne id' id with rfl | hid
    · simp at hr'
    · rw [update_of_ne hid] at hr'
      exact h.reqId id' r' hr'

theorem Gapped.vacated (h : b.Gapped) (hidx : b.Indexed live) (hi : b.At i id)
    (hsorted : b.batchUpdateBuilder.isRemovedSorted = false) : (b.vacated i id).Gapped := by
  have hlt : i < b.reqIds.length := lt_length_of_getElem? hi
  have hnot : i ∉ b.batchUpdateBuilder.removed := fun hmem => by
    have hgap := (h.removed_iff i).mp hmem
    rw [hi] at hgap
    cases hgap
  have hnum : (b.vacated i id).numReqs + 1 = b.numReqs :=
    length_pop_of_mem hidx.nodup
      (mem_keys_of_get ((hidx.get_iff id i).mpr hi))
  refine ⟨fun j => ?_, ?_, fun hs => ?_, ?_, ?_⟩
  · rw [at_vacated hlt]
    change j ∈ b.batchUpdateBuilder.removed ++ [i] ↔ _
    rw [mem_append, h.removed_iff]
    rcases eq_or_ne j i with rfl | hj
    · simp
    · simp [hj]
  · exact nodup_append.mpr ⟨h.nodup, nodup_singleton i, by
      rintro a ha c hc rfl
      exact hnot (mem_singleton.mp hc ▸ ha)⟩
  · exact absurd (hsorted.symm.trans hs) (by decide)
  · have hcount := h.count
    change _ + (b.batchUpdateBuilder.removed ++ [i]).length = (b.reqIds.set i none).length
    rw [length_append, length_singleton, length_set]
    omega
  · change (b.reqIds.set i none).length ≤ b.maxNumReqs
    rw [length_set]
    exact h.bound

theorem Regular.vacated (h : b.Regular) : (b.vacated i id).Regular := by
  refine h.update ?_
  unfold InputRow.clear
  split_ifs
  · exact ⟨(h i).needsTokenIds, (h i).numAcceptedTokens, (h i).groups⟩
  · exact ⟨(h i).needsTokenIds, (h i).numAcceptedTokens, (h i).groups⟩

variable [Field K] [LinearOrder K]

theorem Filled.vacated (h : b.Filled live) (hidx : b.Indexed live) (hi : b.At i id)
    (hr : live id = some r) (hembeds : r.promptEmbeds = none)
    (hkind : r.samplingParams.isSome = !b.isPoolingModel) :
    (b.vacated i id).Filled (update live id none) := by
  have hlt : i < b.reqIds.length := lt_length_of_getElem? hi
  intro j
  rw [at_vacated hlt]
  change Slot b.vocabSize b.blocksPerKvBlock _ _ (b.reqOutputTokenIds.set i none)[j]?
    (b.specTokenIds.set i [])[j]? (update b.rows i _ j)
  rw [getElem?_set_of_lt (h.output_length ▸ hlt), getElem?_set_of_lt (hlt.trans_le h.spec_length)]
  rcases eq_or_ne j i with rfl | hj
  · obtain ⟨r', hr', hm, -, -⟩ := h.of_at hi
    cases hr.symm.trans hr'
    rw [if_pos rfl, if_pos rfl, if_pos rfl, update_self]
    exact .gap (hm.vacant_clear hembeds hkind)
  · rw [if_neg hj, if_neg hj, if_neg hj, update_of_ne hj]
    exact (h j).update (fun hat => hj (hidx.at_unique hat hi)) none

/-! ## Adding -/

structure Chosen (b : InputBatch K) (i : Nat) (u : BatchUpdateBuilder K) : Prop where
  le : i ≤ b.reqIds.length
  lt : i < b.maxNumReqs
  vacant : ∀ id, ¬b.At i id
  mem_iff : ∀ j, j ∈ u.removed ↔ b.reqIds[j]? = some none ∧ j ≠ i
  nodup : u.removed.Nodup
  sorted : u.isRemovedSorted = true → u.removed.Pairwise (· ≥ ·)
  count : b.numReqs + 1 + u.removed.length =
    if i = b.reqIds.length then b.reqIds.length + 1 else b.reqIds.length

omit [Field K] [LinearOrder K] in
theorem Gapped.registerAddRequest (h : b.Gapped) (hroom : b.numReqs < b.maxNumReqs)
    (r : CachedRequestState K) :
    ∃ i u, b.registerAddRequest r = .ok (i, { b with batchUpdateBuilder := u }) ∧
      b.Chosen i u := by
  have hcount := h.count
  by_cases hnil : b.batchUpdateBuilder.removed = []
  · rw [hnil, length_nil] at hcount
    have hpop : b.batchUpdateBuilder.popRemoved = (none, b.batchUpdateBuilder) := if_pos hnil
    have hno : ∀ j, b.reqIds[j]? ≠ some none := fun j hj => by
      have hmem := (h.removed_iff j).mpr hj
      rw [hnil] at hmem
      cases hmem
    refine ⟨b.numReqs, b.batchUpdateBuilder.recordAdded b.numReqs r, ?_, ?_⟩
    · unfold InputBatch.registerAddRequest
      rw [hpop]
      simp [hroom]
    · refine ⟨by omega, hroom, fun id hid => ?_, fun j => ?_, ?_, ?_, ?_⟩
      · unfold At at hid
        rw [getElem?_eq_none (by omega)] at hid
        cases hid
      · simp [hnil, hno]
      · simp [hnil]
      · simp [hnil]
      · simp only [BatchUpdateBuilder.recordAdded_removed, hnil, length_nil]
        rw [if_pos (by omega)]
        omega
  · obtain ⟨i, hpops⟩ := BatchUpdateBuilder.pops_of_ne_nil hnil h.sorted
    have hmem : i ∈ b.batchUpdateBuilder.removed :=
      hpops.perm.mem_iff.mp (mem_append_right _ (mem_singleton_self i))
    have hgap := (h.removed_iff i).mp hmem
    have hi : i < b.reqIds.length := lt_length_of_getElem? hgap
    have hnodup := hpops.perm.nodup_iff.mpr h.nodup
    have hlength := hpops.perm.length_eq
    rw [length_append, length_singleton] at hlength
    have hlt : i < b.maxNumReqs := hi.trans_le h.bound
    refine ⟨i, b.batchUpdateBuilder.popRemoved.2.recordAdded i r, ?_, ?_⟩
    · unfold InputBatch.registerAddRequest
      simp [hpops.popped, hlt]
    · refine ⟨hi.le, hlt, fun id hid => ?_, fun j => ?_, ?_, ?_, ?_⟩
      · unfold At at hid
        rw [hgap] at hid
        cases hid
      · rw [BatchUpdateBuilder.recordAdded_removed, ← h.removed_iff, ← hpops.perm.mem_iff,
          mem_append, mem_singleton]
        have hnot := (nodup_append.mp hnodup).2.2
        constructor
        · intro hj
          exact ⟨.inl hj, fun heq => hnot j hj i (mem_singleton_self i) heq⟩
        · rintro ⟨hj | hj, hne⟩
          · exact hj
          · exact absurd hj hne
      · rw [BatchUpdateBuilder.recordAdded_removed]
        exact (nodup_append.mp hnodup).1
      · rw [BatchUpdateBuilder.recordAdded_removed]
        exact fun _ => hpops.sorted
      · rw [BatchUpdateBuilder.recordAdded_removed, if_neg hi.ne]
        omega

/-- The batch after the request was added to the row `i`. -/
def placed (b : InputBatch K) (i : Nat) (u : BatchUpdateBuilder K) (r : CachedRequestState K) :
    InputBatch K :=
  let row := ((b.rows i).writeRequest b.blocksPerKvBlock r.numPromptTokens r)
  { (b.enterRow i r).setRow i ((row.writeParams b.vocabSize r).writeLora r) with
    batchUpdateBuilder := u
    tables := (b.tables.addParams b.vocabSize r.reqId r.params).addLora r.reqId r.loraRequest }

variable {u : BatchUpdateBuilder K}

theorem addRequest_eq {r : CachedRequestState K}
    (h : b.registerAddRequest r = .ok (i, { b with batchUpdateBuilder := u })) :
    b.addRequest r = .ok (i, b.placed i u r) := by
  unfold addRequest
  rw [h]
  simp only [r.numPromptTokens_ok]
  rfl

theorem Chosen.at_placed (h : b.Chosen i u) (r : CachedRequestState K) :
    (b.placed i u r).reqIds[j]? = if j = i then some (some r.reqId) else b.reqIds[j]? :=
  getElem?_put h.le

theorem Indexed.placed (h : b.Indexed live) (hc : b.Chosen i u) (hnew : live r.reqId = none) :
    (b.placed i u r.toCachedRequestState).Indexed (update live r.reqId (some r)) := by
  have habsent : ∀ j, ¬b.At j r.reqId := fun j hj => by
    obtain ⟨r', hr'⟩ := (h.live_iff r.reqId).mp ⟨j, hj⟩
    rw [hnew] at hr'
    cases hr'
  have hat : ∀ j id', (b.placed i u r.toCachedRequestState).At j id' ↔
      if j = i then id' = r.reqId else b.At j id' := by
    intro j id'
    unfold At
    rw [hc.at_placed]
    split_ifs
    · simp [eq_comm]
    · rfl
  refine ⟨fun id' j => ?_, fun id' => ?_, fun id' r' hr' => ?_,
    keys_set_nodup h.nodup _ _⟩
  · rw [hat]
    refine (Eq.congr_left (get_set b.reqIdToIndex r.reqId i id')).trans ?_
    rcases eq_or_ne id' r.reqId with rfl | hid
    · rcases eq_or_ne j i with rfl | hj
      · simp
      · simp [hj, Ne.symm hj, habsent j]
    · rw [if_neg hid, h.get_iff]
      rcases eq_or_ne j i with rfl | hj
      · simp [hid, hc.vacant id']
      · simp [hj]
  · rcases eq_or_ne id' r.reqId with rfl | hid
    · rw [update_self]
      exact ⟨fun _ => ⟨r, rfl⟩, fun _ => ⟨i, (hat i _).mpr (by simp)⟩⟩
    · rw [update_of_ne hid, ← h.live_iff]
      refine exists_congr fun j => (hat j id').trans ?_
      rcases eq_or_ne j i with rfl | hj
      · simp [hid, hc.vacant id']
      · simp [hj]
  · grind [h.reqId]

theorem Gapped.placed (h : b.Gapped) (hidx : b.Indexed live) (hc : b.Chosen i u)
    (hnew : live r.reqId = none) : (b.placed i u r.toCachedRequestState).Gapped := by
  have habsent : r.reqId ∉ b.reqIdToIndex.keys := by
    rw [← get_eq_none]
    cases hget : b.reqIdToIndex.get r.reqId with
    | none => rfl
    | some j =>
      obtain ⟨r', hr'⟩ := (hidx.live_iff _).mp ⟨j, (hidx.get_iff _ j).mp hget⟩
      rw [hnew] at hr'
      cases hr'
  have hnum : (b.placed i u r.toCachedRequestState).numReqs = b.numReqs + 1 :=
    length_set_of_notMem habsent i
  have hlength : (b.placed i u r.toCachedRequestState).reqIds.length =
      if i = b.reqIds.length then b.reqIds.length + 1 else b.reqIds.length := length_put
  refine ⟨fun j => ?_, hc.nodup, hc.sorted, ?_, ?_⟩
  · refine (hc.mem_iff j).trans ?_
    rw [hc.at_placed]
    rcases eq_or_ne j i with rfl | hj
    · simp
    · simp [hj]
  · rw [hnum, hlength]
    exact hc.count
  · rw [hlength]
    have hlt := hc.lt
    have hb := h.bound
    change _ ≤ b.maxNumReqs
    split_ifs with hi
    · omega
    · exact hb

theorem Filled.placed (h : b.Filled live) (hreg : b.Regular) (hidx : b.Indexed live)
    (hc : b.Chosen i u) (hnew : live r.reqId = none)
    (hgroups : r.blockIds.length = b.blocksPerKvBlock.length) (hspec : r.specTokenIds = []) :
    (b.placed i u r.toCachedRequestState).Filled (update live r.reqId (some r)) := by
  obtain ⟨hv, hspec_i⟩ := h.vacant hc.vacant
  have hlen := h.output_length
  have hspecLen := h.spec_length
  have hle := hc.le
  have houtputs : ∀ j, (b.placed i u r.toCachedRequestState).reqOutputTokenIds[j]? =
      if j = i then some (some r.outputTokenIds) else b.reqOutputTokenIds[j]? := fun j => by
    rw [← getElem?_put (hlen ▸ hle), hlen]
    rfl
  intro j
  rw [hc.at_placed, houtputs]
  rcases eq_or_ne j i with rfl | hj
  · have hrow : (b.placed j u r.toCachedRequestState).rows j =
        (((b.rows j).writeRequest b.blocksPerKvBlock r.numPromptTokens
          r.toCachedRequestState).writeParams b.vocabSize r.toCachedRequestState).writeLora
            r.toCachedRequestState := update_self _ _ _
    have hdrafts : (b.placed j u r.toCachedRequestState).specTokenIds[j]? =
        some r.specTokenIds := by
      change (if j = b.reqIds.length then b.specTokenIds ++ [[]]
        else b.specTokenIds.set j [])[j]? = _
      rw [hspec]
      split_ifs with hfresh
      · grind
      · exact getElem?_set_self (by omega)
    rw [if_pos rfl, if_pos rfl, hdrafts, hrow]
    exact .occupied (update_self _ _ _)
      (hv.matches_write (hreg j).needsTokenIds (hreg j).groups hgroups hspec)
  · have hrow : (b.placed i u r.toCachedRequestState).rows j = b.rows j :=
      update_of_ne hj _ _
    have hid : b.reqIds[j]? ≠ some (some r.reqId) := fun hat => by
      obtain ⟨r', hr'⟩ := (hidx.live_iff r.reqId).mp ⟨j, hat⟩
      rw [hnew] at hr'
      cases hr'
    have hslot := (h j).update hid (some r)
    rw [if_neg hj, if_neg hj, hrow]
    by_cases hfresh : i = b.reqIds.length
    · have hdrafts : (b.placed i u r.toCachedRequestState).specTokenIds =
          b.specTokenIds ++ [[]] := if_pos hfresh
      rw [hdrafts, getElem?_append]
      split_ifs with hlt
      · exact hslot
      · -- the entry that is appended belongs to a row that is not in use
        rw [getElem?_eq_none (show b.reqIds.length ≤ j by omega),
          getElem?_eq_none (show b.reqOutputTokenIds.length ≤ j by omega)] at hslot ⊢
        cases hslot with
        | free hv' hspec' =>
          refine .free hv' ?_
          cases j - b.specTokenIds.length with
          | zero => rfl
          | succ n => rfl
    · have hdrafts : (b.placed i u r.toCachedRequestState).specTokenIds =
          b.specTokenIds.set i [] := if_neg hfresh
      rw [hdrafts, getElem?_set_ne (Ne.symm hj)]
      exact hslot

theorem Regular.placed (h : b.Regular) (r : CachedRequestState K)
    (hgroups : r.blockIds.length = b.blocksPerKvBlock.length)
    (hrequires : r.requiresTokenIds = false) : (b.placed i u r).Regular := by
  refine h.update ⟨?_, rfl, ?_⟩
  · unfold InputRow.writeLora InputRow.writeParams
    split
    · exact (h i).needsTokenIds
    · rename_i p hparams
      simpa [CachedRequestState.requiresTokenIds, CachedRequestState.poolingParams, hparams] using
        hrequires
  · have hlength := (BlockRows.holds_addRow (h i).groups hgroups).length_eq hgroups
    unfold InputRow.writeLora InputRow.writeParams
    split
    · exact hlength
    · exact hlength

end InputBatch

end LongCtxSpecDecode
