import LongCtxSpecDecode.InputBatchCalls

/-!
# Condensing the batch

`condense` moves the requests of the last rows into the gaps. A round keeps that the rows up to the
current last one have a request or are in the list of removed rows. What else a round keeps is a
parameter of the rule for the whole call.
-/

namespace LongCtxSpecDecode

open Library Library.Slices List Function OrderedDict

namespace InputBatch

variable {K : Type} {b b' : InputBatch K} {live : BatchRequests K}
variable {i j : Nat} {id : ReqId} {r : BatchedRequest K}

/-- The batch after the request of the row `last` moved to the row `empty`. -/
def shifted (b : InputBatch K) (last empty : Nat) (id : ReqId) : InputBatch K :=
  let spec := b.specTokenIds.getD last []
  let numTokens := (b.rows last).numTokensNoSpec + spec.length
  let rows := InputRow.move b.isPoolingModel numTokens (b.rows last) (b.rows empty)
  { (b.setRow last rows.1).setRow empty rows.2 with
    reqIds := (b.reqIds.set empty (some id)).set last none
    reqOutputTokenIds :=
      (b.reqOutputTokenIds.set empty (b.reqOutputTokenIds.getD last none)).set last none
    specTokenIds := (b.specTokenIds.set empty spec).set last []
    reqIdToIndex := b.reqIdToIndex.set id empty
    batchUpdateBuilder :=
      b.batchUpdateBuilder.popRemoved.2.recordMoved b.isPoolingModel last empty .unidirectional }

variable {last n : Nat}

theorem moveRequest_eq {empty : Nat} (h : b.At last id) :
    b.moveRequest last empty = .ok (b.shifted last empty id) := by
  unfold moveRequest
  rw [h]
  rfl

section shifted

variable {last empty : Nat}

theorem at_shifted (id : ReqId) (j : Nat) (hlast : last < b.reqIds.length) (hempty : empty < last) :
    (b.shifted last empty id).reqIds[j]? =
      if j = last then some none else if j = empty then some (some id) else b.reqIds[j]? := by
  change ((b.reqIds.set empty (some id)).set last none)[j]? = _
  rw [getElem?_set_of_lt (by rwa [length_set]), getElem?_set_of_lt (hempty.trans hlast)]

theorem Indexed.shifted (h : b.Indexed live) (hlast : b.At last id)
    (hgap : b.reqIds[empty]? = some none) (hlt : empty < last) :
    (b.shifted last empty id).Indexed live := by
  have hlength : last < b.reqIds.length := lt_length_of_getElem? hlast
  have hat : ∀ j id', (b.shifted last empty id).At j id' ↔
      if id' = id then j = empty else b.At j id' := by
    intro j id'
    unfold At
    rw [at_shifted _ _ hlength hlt]
    rcases eq_or_ne id' id with rfl | hid
    · rw [if_pos rfl]
      rcases eq_or_ne j last with rfl | hj
      · simp [hlt.ne']
      · rcases eq_or_ne j empty with rfl | hj'
        · simp [hj]
        · simp only [hj, hj', iff_false]
          exact fun hat => hj (h.at_unique hat hlast)
    · grind [At]
  refine ⟨fun id' j => ?_, fun id' => ?_, h.reqId, keys_set_nodup h.nodup _ _⟩
  · rw [hat]
    refine (Eq.congr_left (get_set b.reqIdToIndex id empty id')).trans ?_
    rcases eq_or_ne id' id with rfl | hid
    · simp [eq_comm]
    · simp [hid, h.get_iff]
  · rw [← h.live_iff]
    rcases eq_or_ne id' id with rfl | hid
    · simp only [hat]
      exact ⟨fun _ => ⟨last, hlast⟩, fun _ => ⟨empty, rfl⟩⟩
    · simp [hat, hid]

theorem Regular.shifted (h : b.Regular) : (b.shifted last empty id).Regular := by
  have hsrc : ∀ n, (InputRow.move b.isPoolingModel n (b.rows last) (b.rows empty)).1.Regular
      b.blocksPerKvBlock := fun n => by
    cases b.isPoolingModel with
    | true => exact ⟨(h last).needsTokenIds, (h last).numAcceptedTokens, (h last).groups⟩
    | false => exact ⟨(h last).needsTokenIds, (h last).numAcceptedTokens, (h last).groups⟩
  have htable : (BlockRows.moveRow (b.rows last).blockTable (b.rows empty).blockTable).length =
      b.blocksPerKvBlock.length := by
    rw [BlockRows.moveRow, length_zipWith, (h last).groups, (h empty).groups, Nat.min_self]
  have htgt : ∀ n, (InputRow.move b.isPoolingModel n (b.rows last) (b.rows empty)).2.Regular
      b.blocksPerKvBlock := fun n => by
    cases b.isPoolingModel with
    | true => exact ⟨(h empty).needsTokenIds, (h empty).numAcceptedTokens, htable⟩
    | false => exact ⟨(h empty).needsTokenIds, (h last).numAcceptedTokens, htable⟩
  exact Regular.update (b := b.setRow last _) (h.update (hsrc _)) (htgt _)

end shifted

/-- Between two rounds of the loop of `condense`: the rows up to `last` have their requests or
are in the list of removed rows, and no row behind `last` has a request. -/
structure Compacting (b : InputBatch K) (live : BatchRequests K) (last : Nat) : Prop where
  indexed : b.Indexed live
  nodup : b.batchUpdateBuilder.removed.Nodup
  sorted : b.batchUpdateBuilder.removed.Pairwise (· ≥ ·)
  last_lt : last < b.reqIds.length
  above : ∀ j, last < j → ∀ id, ¬b.At j id
  below : ∀ j ≤ last, j ∈ b.batchUpdateBuilder.removed ↔ b.reqIds[j]? = some none
  count : b.numReqs + b.batchUpdateBuilder.removed.countP (· ≤ last) = last + 1

theorem countP_le_succ (l : List Nat) (n : Nat) :
    l.countP (· ≤ n + 1) = l.countP (· ≤ n) + l.count (n + 1) := by
  induction l with
  | nil => rfl
  | cons a l ih =>
    grind

theorem Compacting.skip (h : b.Compacting live last) (hpos : 0 < b.numReqs) :
    b.Compacting live (lastOccupied b.batchUpdateBuilder.removed last) ∧
      lastOccupied b.batchUpdateBuilder.removed last ∉ b.batchUpdateBuilder.removed := by
  induction last with
  | zero =>
    refine ⟨h, fun hmem => ?_⟩
    have hcount := h.count
    have hone : 0 < b.batchUpdateBuilder.removed.countP (· ≤ 0) :=
      countP_pos_iff.mpr ⟨0, hmem, by simp⟩
    omega
  | succ last ih =>
    unfold lastOccupied
    split_ifs with hmem
    · refine ih ⟨h.indexed, h.nodup, h.sorted, ?_, ?_, ?_, ?_⟩
      · have hlt := h.last_lt
        omega
      · grind [Compacting.above, At, Compacting.below]
      · exact fun j hj => h.below j (by omega)
      · have hcount := h.count
        rw [countP_le_succ, count_eq_one_of_mem h.nodup hmem] at hcount
        omega
    · exact ⟨h, hmem⟩

theorem Compacting.exists_at (h : b.Compacting live last) (hj : j ≤ last)
    (hmem : j ∉ b.batchUpdateBuilder.removed) : ∃ id, b.At j id := by
  have hlt := h.last_lt
  rcases hentry : b.reqIds[j]? with _ | _ | id
  · have hge := List.getElem?_eq_none_iff.mp hentry
    omega
  · exact absurd ((h.below j hj).mpr hentry) hmem
  · exact ⟨id, hentry⟩

/-- A round of the loop moves the request of the row `last` to the lowest removed row. -/
structure Round (b : InputBatch K) (live : BatchRequests K) (last empty : Nat) (id : ReqId) :
    Prop extends b.Compacting live last where
  pops : b.batchUpdateBuilder.Pops empty
  source : b.At last id
  empty_lt : empty < last

section round

variable {last empty : Nat}

section

variable (h : b.Round live last empty id)
include h

theorem Round.empty_mem : empty ∈ b.batchUpdateBuilder.removed :=
  h.pops.perm.mem_iff.mp (mem_append_right _ (mem_singleton_self empty))

theorem Round.gap : b.reqIds[empty]? = some none :=
  (h.below empty h.empty_lt.le).mp h.empty_mem

theorem Round.numReqs_le : b.numReqs ≤ last := by
  have hcount := h.count
  have hone : 0 < b.batchUpdateBuilder.removed.countP (· ≤ last) :=
    countP_pos_iff.mpr ⟨empty, h.empty_mem, by simpa using h.empty_lt.le⟩
  omega

theorem Round.last_notMem : last ∉ b.batchUpdateBuilder.removed := fun hmem => by
  have hnone := (h.below last le_rfl).mp hmem
  have hat := h.source
  rw [hat] at hnone
  cases hnone

theorem Round.numReqs_shifted : (b.shifted last empty id).numReqs = b.numReqs :=
  length_set_of_mem
    (mem_keys_of_get ((h.indexed.get_iff id last).mpr h.source)) empty

end

theorem removed_shifted :
    (b.shifted last empty id).batchUpdateBuilder.removed =
      b.batchUpdateBuilder.popRemoved.2.removed :=
  BatchUpdateBuilder.recordMoved_removed _ _ _ _ _

theorem Round.empty_notMem (h : b.Round live last empty id) :
    empty ∉ b.batchUpdateBuilder.popRemoved.2.removed := fun hmem =>
  (nodup_append.mp (h.pops.perm.nodup_iff.mpr h.nodup)).2.2 empty hmem empty
    (mem_singleton_self empty) rfl

theorem Round.shifted (h : b.Round live last empty id) :
    (b.shifted last empty id).Compacting live (last - 1) := by
  have hlt := h.empty_lt
  have hlength := h.last_lt
  refine ⟨h.indexed.shifted h.source h.gap hlt, ?_, ?_, ?_, ?_, ?_, ?_⟩
  · rw [removed_shifted]
    exact (nodup_append.mp (h.pops.perm.nodup_iff.mpr h.nodup)).1
  · rw [removed_shifted]
    exact h.pops.sorted
  · change last - 1 < ((b.reqIds.set empty (some id)).set last none).length
    rw [length_set, length_set]
    omega
  · intro j hj id' hat
    unfold At at hat
    rw [at_shifted _ _ hlength hlt] at hat
    rcases eq_or_ne j last with rfl | hne
    · rw [if_pos rfl] at hat
      cases hat
    · rw [if_neg hne, if_neg (by omega)] at hat
      exact h.above j (by omega) id' hat
  · intro j hj
    rw [removed_shifted, at_shifted _ _ hlength hlt, if_neg (by omega)]
    rcases eq_or_ne j empty with rfl | hne
    · simp [h.empty_notMem]
    · rw [if_neg hne, ← h.below j (by omega), ← h.pops.perm.mem_iff]
      simp [hne]
  · have hcount := h.count
    have hnum := h.numReqs_shifted
    obtain ⟨n, rfl⟩ : ∃ n, last = n + 1 := ⟨last - 1, by omega⟩
    rw [countP_le_succ, count_eq_zero_of_not_mem h.last_notMem, ← h.pops.perm.countP_eq,
      countP_append] at hcount
    rw [removed_shifted]
    simp only [countP_singleton, show empty ≤ n by omega, decide_true, if_true] at hcount
    simp only [Nat.add_sub_cancel]
    omega

end round

/-- What the loop of `condense` leaves: the requests are in the first rows. -/
structure Compacted (b : InputBatch K) (live : BatchRequests K) (numReqs : Nat) : Prop where
  indexed : b.Indexed live
  numReqs_eq : b.numReqs = numReqs
  exists_at : ∀ j, (∃ id, b.At j id) ↔ j < numReqs

theorem Compacting.compacted (h : b.Compacting live last)
    (hbelow : ∀ j ∈ b.batchUpdateBuilder.removed, last < j) : b.Compacted live b.numReqs := by
  have hcount := h.count
  rw [countP_eq_zero.mpr (by
    intro j hj
    have hlt := hbelow j hj
    simpa using hlt)] at hcount
  refine ⟨h.indexed, rfl, fun j => ⟨?_, fun hj => ?_⟩⟩
  · rintro ⟨id, hat⟩
    by_contra hj
    exact h.above j (by omega) id hat
  · refine h.exists_at (by omega) fun hmem => ?_
    have hlt := hbelow j hmem
    omega

variable {J : InputBatch K → Prop}

theorem Compacting.condenseLoop {rounds : Nat}
    (hround : ∀ b last empty id, b.Round live last empty id → b.numReqs = n → J b → J (b.shifted
      last empty id)) (h : b.Compacting live last)
    (hrounds : b.batchUpdateBuilder.removed.length ≤ rounds) (hpos : 0 < n) (hnum : b.numReqs = n)
    (hJ : J b) :
    ∃ b', condenseLoop rounds last b = .ok b' ∧ b'.Compacted live n ∧ J b' ∧
      b'.reqIds.length = b.reqIds.length ∧ b'.maxNumReqs = b.maxNumReqs := by
  induction rounds generalizing b last with
  | zero =>
    have hnil : b.batchUpdateBuilder.removed = [] :=
      eq_nil_of_length_eq_zero (Nat.le_zero.mp hrounds)
    refine ⟨b, rfl, hnum ▸ h.compacted ?_, hJ, rfl, rfl⟩
    rw [hnil]
    exact nofun
  | succ rounds ih =>
    unfold condenseLoop
    by_cases hnil : b.batchUpdateBuilder.removed = []
    · have hpeek : b.batchUpdateBuilder.peekRemoved.1 = none := by
        rw [BatchUpdateBuilder.peekRemoved, if_pos hnil]
      rw [hpeek]
      refine ⟨b, rfl, hnum ▸ h.compacted ?_, hJ, rfl, rfl⟩
      rw [hnil]
      exact nofun
    · obtain ⟨empty, hpops⟩ := BatchUpdateBuilder.pops_of_ne_nil hnil fun _ => h.sorted
      obtain ⟨h', hmem⟩ := h.skip (hnum ▸ hpos)
      obtain ⟨id, hat⟩ := h'.exists_at le_rfl hmem
      rw [hpops.peeked]
      by_cases hle : lastOccupied b.batchUpdateBuilder.removed last ≤ empty
      · simp only [hle]
        refine ⟨b, rfl, hnum ▸ h'.compacted fun j hj => ?_, hJ, rfl, rfl⟩
        refine lt_of_le_of_ne (hle.trans (hpops.lowest j hj)) ?_
        rintro rfl
        exact hmem hj
      · have hnext : b.Round live (lastOccupied b.batchUpdateBuilder.removed last) empty id :=
          ⟨h', hpops, hat, by omega⟩
        have hlen := hpops.perm.length_eq
        rw [length_append, length_singleton] at hlen
        simp only [hle, moveRequest_eq hat]
        obtain ⟨b', hrun, hdone, hJ', hids, hmax⟩ := ih hnext.shifted
          (by rw [removed_shifted]; omega) (hnext.numReqs_shifted.trans hnum)
          (hround b _ empty id hnext hnum hJ)
        refine ⟨b', hrun, hdone, hJ', hids.trans ?_, hmax⟩
        change ((b.reqIds.set empty (some id)).set _ none).length = _
        rw [length_set, length_set]

theorem Indexed.of_eq (h : b.Indexed live) (hids : ∀ i : Nat, b'.reqIds[i]? = b.reqIds[i]?)
    (hdict : b'.reqIdToIndex = b.reqIdToIndex) : b'.Indexed live := by
  have hat : ∀ i id, b'.At i id ↔ b.At i id := fun i id => by
    unfold At
    rw [hids]
  refine ⟨fun id i => ?_, fun id => ?_, h.reqId, hdict ▸ h.nodup⟩
  · rw [hdict, hat]
    exact h.get_iff id i
  · simp only [hat]
    exact h.live_iff id

def trimmed (b : InputBatch K) (n : Nat) : InputBatch K :=
  { b with
    reqIds := b.reqIds.take n
    reqOutputTokenIds := b.reqOutputTokenIds.take n
    specTokenIds := b.specTokenIds.take n }

theorem Compacted.at_trimmed (h : b.Compacted live n) : (b.trimmed n).At j id ↔ b.At j id := by
  change (b.reqIds.take n)[j]? = _ ↔ _
  rw [getElem?_take]
  split_ifs with hj
  · rfl
  · refine ⟨nofun, fun hat => ?_⟩
    exact absurd ((h.exists_at j).mp ⟨id, hat⟩) hj

theorem Compacted.indexed_trimmed (h : b.Compacted live n) : (b.trimmed n).Indexed live := by
  refine ⟨fun id i => ?_, fun id => ?_, h.indexed.reqId, h.indexed.nodup⟩
  · rw [h.at_trimmed]
    exact h.indexed.get_iff id i
  · simp only [h.at_trimmed]
    exact h.indexed.live_iff id

theorem Compacted.condensed (h : b.Compacted live n) (hbound : b.reqIds.length ≤ b.maxNumReqs) :
    (b.trimmed n).Condensed := by
  have hle : n ≤ b.reqIds.length := by
    by_contra hlt
    obtain ⟨id, hid⟩ := (h.exists_at b.reqIds.length).mpr (by omega)
    exact absurd (lt_length_of_getElem? hid) (Nat.lt_irrefl _)
  refine ⟨?_, fun j hj => ?_, ?_⟩
  · change (b.reqIds.take n).length = b.numReqs
    rw [length_take, h.numReqs_eq]
    omega
  · obtain ⟨id, hid⟩ := (h.exists_at j).mpr (h.numReqs_eq ▸ hj)
    exact ⟨id, h.at_trimmed.mpr hid⟩
  · change (b.reqIds.take n).length ≤ b.maxNumReqs
    rw [length_take]
    omega

/-- The batch once `condense` has read the removed rows. -/
abbrev readRemoved (b : InputBatch K) : InputBatch K :=
  { b with batchUpdateBuilder := b.batchUpdateBuilder.ensureRemovedSorted }

theorem Gapped.condensed (h : b.Gapped) (hnil : b.batchUpdateBuilder.removed = []) :
    b.Condensed := by
  have hcount := h.count
  rw [hnil, length_nil] at hcount
  refine ⟨by omega, fun i hi => ?_, h.bound⟩
  rcases hentry : b.reqIds[i]? with _ | _ | id
  · have hge := List.getElem?_eq_none_iff.mp hentry
    omega
  · have hmem := (h.removed_iff i).mpr hentry
    rw [hnil] at hmem
    cases hmem
  · exact ⟨id, hentry⟩

theorem Gapped.compacting (h : b.Gapped) (hidx : b.Indexed live)
    (hne : b.batchUpdateBuilder.ensureRemovedSorted.removed ≠ []) :
    b.readRemoved.Compacting live
      (b.numReqs + b.batchUpdateBuilder.ensureRemovedSorted.removed.length - 1) := by
  have hperm := b.batchUpdateBuilder.ensureRemovedSorted_perm
  have hcount := h.count
  have hlen := hperm.length_eq
  have hpos := length_pos_of_ne_nil hne
  have hmem : ∀ j, j ∈ b.batchUpdateBuilder.ensureRemovedSorted.removed ↔
      b.reqIds[j]? = some none := fun j => hperm.mem_iff.trans (h.removed_iff j)
  refine ⟨hidx.of_eq (fun _ => rfl) rfl, hperm.nodup_iff.mpr h.nodup,
    BatchUpdateBuilder.ensureRemovedSorted_pairwise h.sorted, ?_, ?_, fun j _ => hmem j, ?_⟩
  · change _ < b.reqIds.length
    omega
  · intro j hj id hat
    have hlt : j < b.reqIds.length := lt_length_of_getElem? hat
    omega
  · rw [countP_eq_length.mpr]
    · change b.numReqs + b.batchUpdateBuilder.ensureRemovedSorted.removed.length = _
      omega
    · intro j hj
      have hlt := lt_length_of_getElem? ((hmem j).mp hj)
      simp only [decide_eq_true_eq]
      omega

theorem Indexed.compacted_of_zero (h : b.Indexed live) (hzero : b.numReqs = 0) :
    b.Compacted live 0 := by
  have hdict : b.reqIdToIndex = [] := eq_nil_of_length_eq_zero hzero
  refine ⟨h, hzero, fun j => ⟨fun ⟨id, hat⟩ => ?_, nofun⟩⟩
  have hget := (h.get_iff id j).mpr hat
  rw [hdict] at hget
  cases hget

theorem Gapped.condense (h : b.Gapped) (hidx : b.Indexed live)
    (hround : ∀ b₁ last empty id, b₁.Round live last empty id → b₁.numReqs = b.numReqs → J b₁ → J
      (b₁.shifted last empty id)) (htrim : ∀ b₁ n, b₁.Compacted live n → J b₁ → J (b₁.trimmed n))
    (hJ : J b.readRemoved) : ∃ b', b.condense = .ok b' ∧ b'.Condensed ∧ b'.Indexed live ∧ J b' := by
  have hread : b.readRemoved.Indexed live := hidx.of_eq (fun _ => rfl) rfl
  unfold InputBatch.condense
  by_cases hnil : b.batchUpdateBuilder.ensureRemovedSorted.removed = []
  · have hperm := b.batchUpdateBuilder.ensureRemovedSorted_perm
    rw [hnil] at hperm
    have hdone := h.condensed (nil_perm.mp hperm)
    simp only [hnil]
    exact ⟨b.readRemoved, rfl, ⟨hdone.count, hdone.occupied, hdone.bound⟩, hread, hJ⟩
  · by_cases hzero : b.numReqs = 0
    · have hdone := hread.compacted_of_zero hzero
      simp only [hnil, hzero]
      exact ⟨b.readRemoved.trimmed 0, rfl, hdone.condensed h.bound, hdone.indexed_trimmed,
        htrim _ 0 hdone hJ⟩
    · obtain ⟨b', hrun, hdone, hJ', hids, hmax⟩ := (h.compacting hidx hnil).condenseLoop hround
        le_rfl (Nat.pos_of_ne_zero hzero) rfl hJ
      simp only [hnil, hzero, hrun]
      refine ⟨b'.trimmed b.numReqs, rfl, hdone.condensed ?_, hdone.indexed_trimmed,
        htrim b' _ hdone hJ'⟩
      rw [hids, hmax]
      exact h.bound

/-! ## What the rows hold -/

section filled

variable [Field K] [LinearOrder K] {last empty : Nat}

theorem Filled.shifted (h : b.Filled live) (hreg : b.Regular) (hlast : b.At last id)
    (hgap : b.reqIds[empty]? = some none) (hlt : empty < last) (hr : live id = some r)
    (hkind : r.samplingParams.isSome = !b.isPoolingModel) (hallowed : r.allowedTokenIds = []) :
    (b.shifted last empty id).Filled live := by
  have hlength : last < b.reqIds.length := lt_length_of_getElem? hlast
  have hlength' : last < b.reqOutputTokenIds.length := h.output_length ▸ hlength
  have hlength'' : last < b.specTokenIds.length := hlength.trans_le h.spec_length
  obtain ⟨r', hr', hm, hout, hspec⟩ := h.of_at hlast
  cases hr.symm.trans hr'
  obtain ⟨hv, -⟩ := h.vacant fun id' hat => by
    unfold At at hat
    rw [hgap] at hat
    cases hat
  have hout' : b.reqOutputTokenIds.getD last none = some r.outputTokenIds := by
    rw [getD_eq_getElem?_getD, hout]
    rfl
  have hspec' : b.specTokenIds.getD last [] = r.specTokenIds := by
    rw [getD_eq_getElem?_getD, hspec]
    rfl
  intro j
  rw [at_shifted _ _ hlength hlt]
  change Slot b.vocabSize b.blocksPerKvBlock live _
    ((b.reqOutputTokenIds.set empty (b.reqOutputTokenIds.getD last none)).set last none)[j]?
    ((b.specTokenIds.set empty (b.specTokenIds.getD last [])).set last [])[j]?
    (update (update b.rows last _) empty _ j)
  rw [getElem?_set_of_lt (by rwa [length_set]), getElem?_set_of_lt (hlt.trans hlength'),
    getElem?_set_of_lt (by rwa [length_set]), getElem?_set_of_lt (hlt.trans hlength'')]
  rcases eq_or_ne j last with rfl | hj
  · rw [if_pos rfl, if_pos rfl, if_pos rfl, update_of_ne hlt.ne', update_self]
    exact .gap (hm.vacant_move hkind hallowed)
  · rcases eq_or_ne j empty with rfl | hj'
    · rw [if_neg hj, if_pos rfl, if_neg hj, if_pos rfl, if_neg hj, if_pos rfl, hout',
        update_self, hspec']
      refine .occupied hr (hm.move hv hkind ?_ ?_ ?_ ?_)
      · rw [hm.numTokensNoSpec]
      · exact fun _ => (hreg j).numAcceptedTokens
      · rw [(hreg j).needsTokenIds, (hreg last).needsTokenIds]
      · rw [(hreg j).groups, (hreg last).groups]
    · rw [if_neg hj, if_neg hj', if_neg hj, if_neg hj', if_neg hj, if_neg hj',
        update_of_ne hj', update_of_ne hj]
      exact h j

theorem Compacted.filled_trimmed {n : Nat} (h : b.Compacted live n) (hfill : b.Filled live) :
    (b.trimmed n).Filled live := by
  intro j
  change Slot b.vocabSize b.blocksPerKvBlock live (b.reqIds.take n)[j]?
    (b.reqOutputTokenIds.take n)[j]? (b.specTokenIds.take n)[j]? (b.rows j)
  rw [getElem?_take, getElem?_take, getElem?_take]
  split_ifs with hj
  · exact hfill j
  · refine .free (hfill.vacant fun id hid => ?_).1 rfl
    exact hj ((h.exists_at j).mp ⟨id, hid⟩)

structure SameTables (b b' : InputBatch K) : Prop where
  isPoolingModel : b'.isPoolingModel = b.isPoolingModel
  maxNumReqs : b'.maxNumReqs = b.maxNumReqs
  vocabSize : b'.vocabSize = b.vocabSize
  blocksPerKvBlock : b'.blocksPerKvBlock = b.blocksPerKvBlock
  tables : b'.tables = b.tables

/-- What `condense` keeps, when the requests that it moves have no `allowed_token_ids`. -/
structure Condensable (b₀ b : InputBatch K) (live : BatchRequests K) : Prop where
  filled : b.Filled live
  regular : b.Regular
  same : b₀.SameTables b
  clean : ∀ i id r, b₀.numReqs ≤ i → b.At i id → live id = some r → r.allowedTokenIds = []

theorem Condensable.shifted {b₀ : InputBatch K} (h : b₀.Condensable b live)
    (hkind : ∀ id r, live id = some r → r.samplingParams.isSome = !b₀.isPoolingModel)
    (hround : b.Round live last empty id) (hnum : b.numReqs = b₀.numReqs) :
    b₀.Condensable (b.shifted last empty id) live := by
  obtain ⟨r, hr, -⟩ := h.filled.of_at hround.source
  have hallowed := h.clean last id r (hnum ▸ hround.numReqs_le) hround.source hr
  have hkind' : r.samplingParams.isSome = !b.isPoolingModel :=
    h.same.isPoolingModel ▸ hkind id r hr
  refine ⟨h.filled.shifted h.regular hround.source hround.gap hround.empty_lt hr hkind' hallowed,
    h.regular.shifted, ⟨h.same.isPoolingModel, h.same.maxNumReqs, h.same.vocabSize,
      h.same.blocksPerKvBlock, h.same.tables⟩, fun j id' r' hj hat hr' => ?_⟩
  unfold At at hat
  rw [at_shifted _ _ hround.last_lt hround.empty_lt] at hat
  split_ifs at hat
  · cases hat
  · cases hat
    cases hr.symm.trans hr'
    exact hallowed
  · exact h.clean j id' r' hj hat hr'

theorem Gapped.condense_filled (h : b.Gapped) (hidx : b.Indexed live) (hfill : b.Filled live)
    (hreg : b.Regular)
    (hkind : ∀ id r, live id = some r → r.samplingParams.isSome = !b.isPoolingModel)
    (hclean : ∀ i id r, b.numReqs ≤ i → b.At i id → live id = some r → r.allowedTokenIds = []) :
    ∃ b', b.condense = .ok b' ∧ b'.Condensed ∧ b'.Indexed live ∧ b'.Filled live ∧ b'.Regular ∧
      b.SameTables b' := by
  obtain ⟨b', hrun, hdone, hidx', hJ⟩ := h.condense (J := (b.Condensable · live)) hidx
    (fun b₁ last empty id hround hnum hJ => hJ.shifted hkind hround hnum)
    (fun b₁ n hdone hJ => ⟨hdone.filled_trimmed hJ.filled, hJ.regular,
      ⟨hJ.same.isPoolingModel, hJ.same.maxNumReqs, hJ.same.vocabSize, hJ.same.blocksPerKvBlock,
        hJ.same.tables⟩,
      fun i id r hi hat hr => hJ.clean i id r hi (hdone.at_trimmed.mp hat) hr⟩)
    ⟨hfill, hreg, ⟨rfl, rfl, rfl, rfl, rfl⟩, hclean⟩
  exact ⟨b', hrun, hdone, hidx', hJ.filled, hJ.regular, hJ.same⟩

end filled

end InputBatch

end LongCtxSpecDecode
