import LongCtxSpecDecode.InputBatchRuns
import LongCtxSpecDecode.Library.FloatRounding
import LongCtxSpecDecode.LogitsProcessorUpdates

/-!
# The state of the logits processors follows the rows

The processors see the changes of the batch only through the records handed out at
`refresh_metadata`. At any time the table of a processor with the pending records replayed has the
entry of the request of each row, and nothing for the other rows.
-/

namespace LongCtxSpecDecode

open Library Library.RowReplay Library.Slices List Function BatchUpdateBuilder

variable {K : Type}

/-! ## Entries by row -/

/-- What a processor keeps by row: the value for no entry, the value that is stored for an added
request, and which values are good for a request. A value stays good while the request keeps its
parameters and its output grows. -/
structure RowEntries (K : Type) (α : Type) where
  empty : α
  stored : AddedRequest K → α
  Fits : CachedRequestState K → α → Prop
  fits_stored : ∀ (r : CachedRequestState K) p i, r.params = .sampling p →
    Fits r (stored
      { index := i, params := p, reqId := r.reqId, outputTokenIds := r.outputTokenIds })
  fits_grown : ∀ (r r' : CachedRequestState K) v, r'.params = r.params → r'.reqId = r.reqId →
    r.outputTokenIds.length ≤ r'.outputTokenIds.length → Fits r v → Fits r' v

structure RowEntries.Tracks {α : Type} (E : RowEntries K α) (b : InputBatch K)
    (live : BatchRequests K) (f : Nat → α) : Prop where
  occupied : ∀ i id r, b.At i id → live id = some r →
    E.Fits r.toCachedRequestState (b.batchUpdateBuilder.pending E.empty E.stored f i)
  vacant : ∀ i, (∀ id, ¬b.At i id) →
    b.batchUpdateBuilder.pending E.empty E.stored f i = E.empty

variable {p : BatchSamplingParams K}

namespace BatchUpdateBuilder

variable {α : Type} {u u' : BatchUpdateBuilder K} {e : α} {state : AddedRequest K → α}
variable {f : Nat → α}

theorem pending_congr (hadded : u'.added = u.added) (hmoved : u'.moved = u.moved)
    (hremoved : ∀ j, j ∈ u'.removed ↔ j ∈ u.removed) :
    u'.pending e state f = u.pending e state f := by
  unfold pending
  rw [hadded, hmoved, replay_congr hremoved]

theorem ensureRemovedSorted_records (u : BatchUpdateBuilder K) :
    u.ensureRemovedSorted.added = u.added ∧ u.ensureRemovedSorted.moved = u.moved := by
  unfold ensureRemovedSorted
  split_ifs
  · exact ⟨rfl, rfl⟩
  · exact ⟨rfl, rfl⟩

theorem popRemoved_records (u : BatchUpdateBuilder K) :
    u.popRemoved.2.added = u.added ∧ u.popRemoved.2.moved = u.moved := by
  unfold popRemoved
  split_ifs
  · exact ⟨rfl, rfl⟩
  · exact ensureRemovedSorted_records u

theorem recordAdded_eq {r : CachedRequestState K} (i : Nat) (hp : r.params = .sampling p) :
    u.recordAdded i r =
      { u with
        added := u.added ++
          [{ index := i, params := p, reqId := r.reqId
             outputTokenIds := r.outputTokenIds }] } := by
  unfold recordAdded
  rw [hp]

end BatchUpdateBuilder

namespace RowEntries

variable {α : Type} {E : RowEntries K α} {b b' : InputBatch K} {live live' : BatchRequests K}
variable {f : Nat → α} {i j i₁ i₂ : Nat} {id id₁ id₂ : ReqId} {r r' : BatchedRequest K}

/-- The value `v` is right for a row with the entry `o` of `req_ids`. -/
def Good (E : RowEntries K α) (live : BatchRequests K) (o : Option (Option ReqId)) (v : α) :
    Prop :=
  (∀ id r, o = some (some id) → live id = some r → E.Fits r.toCachedRequestState v) ∧
    ((∀ id, o ≠ some (some id)) → v = E.empty)

theorem tracks_iff : E.Tracks b live f ↔
    ∀ i, E.Good live b.reqIds[i]? (b.batchUpdateBuilder.pending E.empty E.stored f i) :=
  ⟨fun h i => ⟨h.occupied i, h.vacant i⟩, fun h => ⟨fun i => (h i).1, fun i => (h i).2⟩⟩

theorem Good.of_live {o : Option (Option ReqId)} {v : α} (h : E.Good live o v)
    (hlive : ∀ id r, o = some (some id) → live' id = some r → live id = some r) :
    E.Good live' o v :=
  ⟨fun id r ho hr => h.1 id r ho (hlive id r ho hr), h.2⟩

theorem good_none : E.Good live (some none) E.empty := ⟨nofun, fun _ => rfl⟩

theorem Tracks.of_eq (h : E.Tracks b live f) (hat : ∀ i id, b'.At i id ↔ b.At i id)
    (hbuilder : b'.batchUpdateBuilder = b.batchUpdateBuilder) : E.Tracks b' live f := by
  refine ⟨fun i id r hi hr => ?_, fun i hi => ?_⟩
  · rw [hbuilder]
    exact h.occupied i id r ((hat i id).mp hi) hr
  · rw [hbuilder]
    exact h.vacant i fun id hid => hi id ((hat i id).mpr hid)

theorem Tracks.grown (h : E.Tracks b live f) (hr : live id = some r)
    (hparams : r'.params = r.params) (hid : r'.reqId = r.reqId)
    (hout : r.outputTokenIds.length ≤ r'.outputTokenIds.length) :
    E.Tracks b (update live id (some r')) f := by
  refine ⟨fun i id' r'' hi hr'' => ?_, h.vacant⟩
  rcases eq_or_ne id' id with rfl | hne
  · rw [update_self] at hr''
    cases hr''
    exact E.fits_grown _ _ _ hparams hid hout (h.occupied i id' r hi hr)
  · rw [update_of_ne hne] at hr''
    exact h.occupied i id' r'' hi hr''

theorem Tracks.vacated (h : E.Tracks b live f) (hi : b.At i id)
    (hmoved : b.batchUpdateBuilder.moved = []) :
    E.Tracks (b.vacated i id) (update live id none) f := by
  have hlt : i < b.reqIds.length := lt_length_of_getElem? hi
  have hpending : (b.vacated i id).batchUpdateBuilder.pending E.empty E.stored f =
      update (b.batchUpdateBuilder.pending E.empty E.stored f) i E.empty := by
    unfold pending
    change replay E.empty f _ (b.batchUpdateBuilder.removed ++ [i])
      (b.batchUpdateBuilder.moved.map rowMove) = _
    rw [hmoved, map_nil, replay_remove]
    rfl
  refine tracks_iff.mpr fun j => ?_
  rw [InputBatch.at_vacated hlt, hpending]
  rcases eq_or_ne j i with rfl | hne
  · rw [if_pos rfl, update_self]
    exact good_none
  · rw [if_neg hne, update_of_ne hne]
    refine (tracks_iff.mp h j).of_live fun id' r' _ hr' => ?_
    rcases eq_or_ne id' id with rfl | hid
    · rw [update_self] at hr'
      cases hr'
    · rwa [update_of_ne hid] at hr'

theorem builder_of_registerAddRequest {r : CachedRequestState K} {u : BatchUpdateBuilder K}
    (h : b.registerAddRequest r = .ok (i, { b with batchUpdateBuilder := u })) :
    u = b.batchUpdateBuilder.popRemoved.2.recordAdded i r := by
  obtain ⟨_, -, h⟩ := of_bind h
  cases h
  rfl

theorem Tracks.placed [Field K] [LinearOrder K] {u : BatchUpdateBuilder K}
    {r : CachedRequestState K} (h : E.Tracks b live f) (hgapped : b.Gapped) (hidx : b.Indexed live)
    (hc : b.Chosen i u) (hu : u = b.batchUpdateBuilder.popRemoved.2.recordAdded i r)
    (hp : r.params = .sampling p) (hnew : live r.reqId = none)
    (hmoved : b.batchUpdateBuilder.moved = []) :
    E.Tracks (b.placed i u r)
      (update live r.reqId (some { toCachedRequestState := r })) f := by
  have hpending : u.pending E.empty E.stored f =
      update (b.batchUpdateBuilder.pending E.empty E.stored f) i
        (E.stored
          { index := i, params := p, reqId := r.reqId, outputTokenIds := r.outputTokenIds }) := by
    have hadded : u.added = b.batchUpdateBuilder.added ++
        [{ index := i, params := p, reqId := r.reqId, outputTokenIds := r.outputTokenIds }] := by
      rw [hu, recordAdded_eq i hp, (popRemoved_records _).1]
    have hmoved' : u.moved = [] := by
      rw [hu, recordAdded_eq i hp, (popRemoved_records _).2, hmoved]
    unfold pending
    rw [hadded, hmoved', hmoved, map_append]
    refine replay_add _ (fun hmem => ((hc.mem_iff i).mp hmem).2 rfl) fun j hj => ?_
    rw [hc.mem_iff, hgapped.removed_iff]
    simp [hj]
  refine tracks_iff.mpr fun j => ?_
  change E.Good _ _ (u.pending E.empty E.stored f j)
  rw [hc.at_placed, hpending]
  rcases eq_or_ne j i with rfl | hne
  · rw [if_pos rfl, update_self]
    refine ⟨fun id' r' hid' hr' => ?_, fun hj => absurd rfl (hj r.reqId)⟩
    cases hid'
    rw [update_self] at hr'
    cases hr'
    exact E.fits_stored r p j hp
  · rw [if_neg hne, update_of_ne hne]
    refine (tracks_iff.mp h j).of_live fun id' r' hj hr' => ?_
    have hid : id' ≠ r.reqId := by
      rintro rfl
      obtain ⟨r'', hr''⟩ := (hidx.live_iff _).mp ⟨j, hj⟩
      rw [hnew] at hr''
      cases hr''
    rwa [update_of_ne hid] at hr'

theorem Tracks.swapped [Field K] [LinearOrder K] (h : E.Tracks b live f)
    (hkind : b.isPoolingModel = false) (h₁ : b.At i₁ id₁) (h₂ : b.At i₂ id₂) (hne : i₁ ≠ i₂) :
    E.Tracks (b.swapped i₁ i₂ id₁ id₂) live f := by
  have hat := InputBatch.at_swapped h₁ h₂
  have hpending : ∀ j, (b.swapped i₁ i₂ id₁ id₂).batchUpdateBuilder.pending E.empty E.stored f j =
      b.batchUpdateBuilder.pending E.empty E.stored f (Equiv.swap i₁ i₂ j) := fun j => by
    have hrecord : (b.swapped i₁ i₂ id₁ id₂).batchUpdateBuilder =
        { b.batchUpdateBuilder with moved := b.batchUpdateBuilder.moved ++ [(i₁, i₂, .swap)] } := by
      change b.batchUpdateBuilder.recordMoved b.isPoolingModel i₁ i₂ .swap = _
      rw [hkind]
      rfl
    rw [hrecord]
    unfold pending
    rw [map_append, map_singleton, replay_move]
    unfold move rowMove
    rcases eq_or_ne j i₂ with rfl | hj₂
    · simp
    · rcases eq_or_ne j i₁ with rfl | hj₁
      · simp [hne, MoveDirectionality.isSwap]
      · simp [hj₁, hj₂, Equiv.swap_apply_of_ne_of_ne]
  refine ⟨fun j id r hj hr => ?_, fun j hj => ?_⟩
  · rw [hpending]
    exact h.occupied _ id r ((hat j id).mp hj) hr
  · rw [hpending]
    exact h.vacant _ fun id hid => hj id ((hat j id).mpr hid)

/-- What the rounds of `condense` keep: the rows that were moved are not among the removed
ones. -/
structure Compacts (E : RowEntries K α) (b : InputBatch K) (live : BatchRequests K)
    (f : Nat → α) : Prop where
  tracks : E.Tracks b live f
  kind : b.isPoolingModel = false
  apart : ∀ m ∈ b.batchUpdateBuilder.moved,
    m.1 ∉ b.batchUpdateBuilder.removed ∧ m.2.1 ∉ b.batchUpdateBuilder.removed

theorem Compacts.shifted {last empty : Nat} (h : E.Compacts b live f)
    (hround : b.Round live last empty id) : E.Compacts (b.shifted last empty id) live f := by
  have hmem : ∀ j, j ≠ empty → (j ∈ b.batchUpdateBuilder.popRemoved.2.removed ↔
      j ∈ b.batchUpdateBuilder.removed) := fun j hj => by
    rw [← hround.pops.perm.mem_iff]
    simp [hj]
  have hrecord : (b.shifted last empty id).batchUpdateBuilder =
      { b.batchUpdateBuilder.popRemoved.2 with
        moved := b.batchUpdateBuilder.moved ++ [(last, empty, .unidirectional)] } := by
    change b.batchUpdateBuilder.popRemoved.2.recordMoved b.isPoolingModel last empty _ = _
    rw [h.kind, ← (popRemoved_records _).2]
    rfl
  have hpending : (b.shifted last empty id).batchUpdateBuilder.pending E.empty E.stored f =
      move E.empty (b.batchUpdateBuilder.pending E.empty E.stored f)
        { src := last, dst := empty, both := false } := by
    rw [hrecord]
    unfold pending
    rw [map_append, (popRemoved_records _).1]
    refine replay_fill (fun m hm => ?_) hround.empty_lt.ne' hmem
    obtain ⟨m₀, hm₀, rfl⟩ := mem_map.mp hm
    obtain ⟨hsrc, hdst⟩ := h.apart m₀ hm₀
    have hempty := hround.empty_mem
    refine ⟨fun heq => ?_, fun heq => ?_⟩
    · change m₀.1 = empty at heq
      exact hsrc (heq ▸ hempty)
    · change m₀.2.1 = empty at heq
      exact hdst (heq ▸ hempty)
  refine ⟨tracks_iff.mpr fun j => ?_, h.kind, ?_⟩
  · rw [InputBatch.at_shifted id j hround.last_lt hround.empty_lt, hpending]
    unfold move
    rcases eq_or_ne j last with rfl | hlast
    · rw [if_pos rfl, if_neg hround.empty_lt.ne', if_pos rfl]
      exact good_none
    · rw [if_neg hlast, if_neg hlast]
      rcases eq_or_ne j empty with rfl | hempty
      · rw [if_pos rfl, if_pos rfl, ← hround.source]
        exact tracks_iff.mp h.tracks last
      · rw [if_neg hempty, if_neg hempty]
        exact tracks_iff.mp h.tracks j
  · rw [hrecord]
    intro m hm
    have hsub : ∀ j, j ∈ b.batchUpdateBuilder.popRemoved.2.removed →
        j ∈ b.batchUpdateBuilder.removed := fun j hj =>
      hround.pops.perm.mem_iff.mp (mem_append_left _ hj)
    rcases mem_append.mp hm with hm | hm
    · obtain ⟨hsrc, hdst⟩ := h.apart m hm
      exact ⟨fun hj => hsrc (hsub _ hj), fun hj => hdst (hsub _ hj)⟩
    · rw [mem_singleton.mp hm]
      exact ⟨fun hj => hround.last_notMem (hsub _ hj), hround.empty_notMem⟩

theorem Compacts.trimmed {n : Nat} (h : E.Compacts b live f) (hdone : b.Compacted live n) :
    E.Compacts (b.trimmed n) live f :=
  ⟨h.tracks.of_eq (fun _ _ => hdone.at_trimmed) rfl, h.kind, h.apart⟩

theorem Tracks.compacts (h : E.Tracks b live f) (hkind : b.isPoolingModel = false)
    (hmoved : b.batchUpdateBuilder.moved = []) : E.Compacts b.readRemoved live f := by
  have hpending : b.readRemoved.batchUpdateBuilder.pending E.empty E.stored f =
      b.batchUpdateBuilder.pending E.empty E.stored f :=
    pending_congr (ensureRemovedSorted_records _).1 (ensureRemovedSorted_records _).2
      fun j => (ensureRemovedSorted_perm _).mem_iff
  refine ⟨⟨fun i id r hi hr => ?_, fun i hi => ?_⟩, hkind, ?_⟩
  · rw [hpending]
    exact h.occupied i id r hi hr
  · rw [hpending]
    exact h.vacant i hi
  · grind [ensureRemovedSorted_records]

end RowEntries

/-! ## The calls of the model runner -/

namespace InputBatch

variable {b : InputBatch K} {id : ReqId} {i : Nat}

structure KeepsRows (b b' : InputBatch K) : Prop where
  reqIds : b'.reqIds = b.reqIds
  reqIdToIndex : b'.reqIdToIndex = b.reqIdToIndex
  builder : b'.batchUpdateBuilder = b.batchUpdateBuilder
  maxNumReqs : b'.maxNumReqs = b.maxNumReqs
  isPoolingModel : b'.isPoolingModel = b.isPoolingModel

theorem updateRunning_keepsRows (hget : b.reqIdToIndex.get id = some i) (n : Nat)
    (blocks : Option (List (List Nat))) :
    ∃ b', b.updateRunning id n blocks = .ok b' ∧ b.KeepsRows b' := by
  unfold updateRunning
  rw [indexOf_eq hget]
  exact ⟨_, rfl, rfl, rfl, rfl, rfl, rfl⟩

theorem updateReqSpecTokenIds_keepsRows (hget : b.reqIdToIndex.get id = some i)
    (spec : List Token) :
    ∃ b', b.updateReqSpecTokenIds id spec = .ok b' ∧ b.KeepsRows b' := by
  unfold updateReqSpecTokenIds
  rw [indexOf_eq hget]
  by_cases hnil : spec = []
  · exact ⟨_, if_pos hnil, rfl, rfl, rfl, rfl, rfl⟩
  · exact ⟨_, if_neg hnil, rfl, rfl, rfl, rfl, rfl⟩

theorem bookkeep_keepsRows (hget : b.reqIdToIndex.get id = some i) (sampled : List Token) :
    ∃ b', b.bookkeep id sampled = .ok b' ∧ b.KeepsRows b' := by
  unfold bookkeep
  rw [indexOf_eq hget]
  by_cases hnil : sampled = []
  · exact ⟨_, if_pos hnil, rfl, rfl, rfl, rfl, rfl⟩
  · exact ⟨_, if_neg hnil, rfl, rfl, rfl, rfl, rfl⟩

end InputBatch

variable {c : BatchCall K}

namespace BatchState

variable [Field K] [LinearOrder K] {s s' : BatchState K}

/-- The request ids, the dictionary and the records, in a batch of requests that sample. -/
structure Ordered (s : BatchState K) : Prop where
  indexed : s.batch.Indexed s.live
  kind : s.batch.isPoolingModel = false
  phase : if s.condensed then s.batch.Condensed
    else s.batch.Gapped ∧ s.batch.batchUpdateBuilder.moved = []
  distinct : ∀ m ∈ s.batch.batchUpdateBuilder.moved, m.1 ≠ m.2.1

def Passes (s s' : BatchState K) : Prop :=
  ∀ (α : Type) (E : RowEntries K α) (f : Nat → α),
    E.Tracks s.batch s.live f → E.Tracks s'.batch s'.live f

omit [Field K] [LinearOrder K] in
theorem Ordered.gapped (h : s.Ordered) (hphase : s.condensed = false) :
    s.batch.Gapped ∧ s.batch.batchUpdateBuilder.moved = [] := by
  have hgapped := h.phase
  rwa [hphase] at hgapped

/-- The records of added requests and the live requests have the parameters of old ones, or those of
the request that is added. -/
structure Records (s : BatchState K) (c : BatchCall K) (s' : BatchState K) : Prop where
  added : ∀ a ∈ s'.batch.batchUpdateBuilder.added, a ∈ s.batch.batchUpdateBuilder.added ∨
    ∃ r, c = .add r ∧ r.params = .sampling a.params
  live : ∀ id r', s'.live id = some r' → (∃ r, s.live id = some r ∧ r'.params = r.params) ∨
    ∃ r, c = .add r ∧ r'.params = r.params

omit [Field K] [LinearOrder K] in
theorem Records.update {id : ReqId} {o : Option (BatchedRequest K)}
    (hadded : s'.batch.batchUpdateBuilder.added = s.batch.batchUpdateBuilder.added)
    (hlive : s'.live = update s.live id o)
    (ho : ∀ r', o = some r' → ∃ r, s.live id = some r ∧ r'.params = r.params) :
    s.Records c s' := by
  refine ⟨fun a ha => .inl (hadded ▸ ha), fun id' r' hr' => .inl ?_⟩
  rw [hlive] at hr'
  rcases eq_or_ne id' id with rfl | hne
  · rw [update_self] at hr'
    exact ho r' hr'
  · rw [update_of_ne hne] at hr'
    exact ⟨r', hr', rfl⟩

omit [Field K] [LinearOrder K] in
theorem Records.same (hadded : s'.batch.batchUpdateBuilder.added = s.batch.batchUpdateBuilder.added)
    (hlive : s'.live = s.live) : s.Records c s' :=
  ⟨fun _ ha => .inl (hadded ▸ ha), fun _ r' hr' => .inl ⟨r', hlive ▸ hr', rfl⟩⟩

/-- The call returns, and what the processors track still fits. -/
def Handles (s : BatchState K) (c : BatchCall K) : Prop :=
  ∃ s', s.call c = .ok s' ∧ s'.Ordered ∧ s.Passes s' ∧ s.Records c s'

omit [Field K] [LinearOrder K] in
theorem Ordered.modify {b' : InputBatch K} {id : ReqId} {r : BatchedRequest K}
    {g : BatchedRequest K → BatchedRequest K} (h : s.Ordered) (hphase : s.condensed = false)
    (hr : s.live id = some r) (hb : s.batch.KeepsRows b') (hparams : (g r).params = r.params)
    (hid : (g r).reqId = r.reqId)
    (hout : r.outputTokenIds.length ≤ (g r).outputTokenIds.length) :
    (s.modify b' id g).Ordered ∧ s.Passes (s.modify b' id g) ∧ s.Records c (s.modify b' id g) := by
  have hlive : (s.modify b' id g).live = update s.live id (some (g r)) := by
    unfold BatchState.modify
    rw [hr]
    rfl
  have hat : ∀ i id, b'.At i id ↔ s.batch.At i id := fun i id => by
    unfold InputBatch.At
    rw [hb.reqIds]
  have hgapped := h.gapped hphase
  have hidx : b'.Indexed s.live := h.indexed.of_eq (fun i => by rw [hb.reqIds]) hb.reqIdToIndex
  refine ⟨⟨?_, hb.isPoolingModel.trans h.kind, ?_, ?_⟩, fun α E f htracks => ?_,
    .update (congrArg (·.added) hb.builder) hlive fun r' hr' => ?_⟩
  · rw [hlive]
    exact hidx.update hr hid
  · change if s.condensed then b'.Condensed else b'.Gapped ∧ b'.batchUpdateBuilder.moved = []
    rw [hphase]
    exact ⟨InputBatch.Gapped.of_eq hgapped.1 hb.maxNumReqs hb.reqIds hb.reqIdToIndex hb.builder,
      hb.builder ▸ hgapped.2⟩
  · change ∀ m ∈ b'.batchUpdateBuilder.moved, _
    rw [hb.builder]
    exact h.distinct
  · rw [hlive]
    exact (htracks.of_eq hat hb.builder).grown hr hparams hid hout
  · cases hr'
    exact ⟨r, hr, hparams⟩

theorem Ordered.remove {id : ReqId} (h : s.Ordered) (hpermit : s.Permits (.remove id)) :
    s.Handles (.remove id) := by
  obtain ⟨hphase, hsorted⟩ := hpermit
  obtain ⟨hgapped, hmoved⟩ := h.gapped hphase
  cases hget : s.batch.reqIdToIndex.get id with
  | none =>
    have hlive : update s.live id none = s.live :=
      update_eq_self_iff.mpr (h.indexed.live_eq_none hget).symm
    refine ⟨s, ?_, h, fun α E f htracks => htracks, .same rfl rfl⟩
    simp only [call, InputBatch.removeRequest_of_none hget, hlive]
    rfl
  | some i =>
    have hat := (h.indexed.get_iff id i).mp hget
    refine ⟨{ s with
      batch := s.batch.vacated i id, live := update s.live id none }, ?_,
      ⟨h.indexed.vacated hat, h.kind, ?_, h.distinct⟩, fun α E f htracks => ?_,
      .update rfl rfl nofun⟩
    · simp only [call, InputBatch.removeRequest_eq hget hsorted]
      rfl
    · rw [hphase]
      exact ⟨hgapped.vacated h.indexed hat hsorted, hmoved⟩
    · exact htracks.vacated hat hmoved

theorem Ordered.add {r : CachedRequestState K} (h : s.Ordered) (hpermit : s.Permits (.add r)) :
    s.Handles (.add r) := by
  obtain ⟨hphase, hnew, hsuits, hroom⟩ := hpermit
  obtain ⟨hgapped, hmoved⟩ := h.gapped hphase
  obtain ⟨i, u, hregister, hchosen⟩ := hgapped.registerAddRequest hroom r
  obtain ⟨p, hp⟩ : ∃ p, r.params = .sampling p := by
    grind [hsuits.kind, h.kind, CachedRequestState.samplingParams]
  have hu := RowEntries.builder_of_registerAddRequest hregister
  have hmoved' : u.moved = [] := by
    rw [hu, recordAdded_eq i hp, (popRemoved_records _).2, hmoved]
  refine ⟨{ s with
    batch := s.batch.placed i u r
    live := update s.live r.reqId (some { toCachedRequestState := r }) }, ?_,
    ⟨h.indexed.placed (r := { toCachedRequestState := r }) hchosen hnew, h.kind, ?_, ?_⟩,
    fun α E f htracks => ?_, fun a ha => ?_, fun id r' hr' => ?_⟩
  · simp only [call, InputBatch.addRequest_eq hregister]
    rfl
  · rw [hphase]
    exact ⟨InputBatch.Gapped.placed (r := { toCachedRequestState := r }) hgapped h.indexed hchosen
      hnew, hmoved'⟩
  · change ∀ m ∈ u.moved, _
    rw [hmoved']
    exact forall_mem_nil _
  · exact htracks.placed hgapped h.indexed hchosen hu hp hnew hmoved
  · change a ∈ u.added at ha
    rw [hu, recordAdded_eq i hp, (popRemoved_records _).1] at ha
    rcases mem_append.mp ha with hold | hlast
    · exact .inl hold
    · rw [mem_singleton.mp hlast]
      exact .inr ⟨r, rfl, hp⟩
  · dsimp only at hr'
    rcases eq_or_ne id r.reqId with rfl | hne
    · rw [update_self] at hr'
      cases hr'
      exact .inr ⟨r, rfl, rfl⟩
    · rw [update_of_ne hne] at hr'
      exact .inl ⟨r', hr', rfl⟩

omit [Field K] [LinearOrder K] in
theorem added_recordMoved {u : BatchUpdateBuilder K} (pooling : Bool) (i j : Nat)
    (direct : MoveDirectionality) : (u.recordMoved pooling i j direct).added = u.added := by
  unfold recordMoved
  split_ifs <;> rfl

omit [Field K] [LinearOrder K] in
theorem distinct_shifted {b : InputBatch K} {live : BatchRequests K} {last empty : Nat}
    {id : ReqId} (hround : b.Round live last empty id)
    (h : ∀ m ∈ b.batchUpdateBuilder.moved, m.1 ≠ m.2.1) :
    ∀ m ∈ (b.shifted last empty id).batchUpdateBuilder.moved, m.1 ≠ m.2.1 := by
  change ∀ m ∈
    (b.batchUpdateBuilder.popRemoved.2.recordMoved b.isPoolingModel last empty _).moved, _
  unfold recordMoved
  split_ifs
  · rw [(popRemoved_records _).2]
    exact h
  · grind [popRemoved_records, hround.empty_lt.ne']

theorem Ordered.condense (h : s.Ordered) (hpermit : s.Permits .condense) :
    s.Handles .condense := by
  obtain ⟨hgapped, hmoved⟩ := h.gapped hpermit
  obtain ⟨b', hrun, hdone, hidx, hkind, hdistinct, hadded, hpasses⟩ := hgapped.condense
    (J := fun b => b.isPoolingModel = false ∧ (∀ m ∈ b.batchUpdateBuilder.moved, m.1 ≠ m.2.1) ∧
      b.batchUpdateBuilder.added = s.batch.batchUpdateBuilder.added ∧
      ∀ (α : Type) (E : RowEntries K α) (f : Nat → α), E.Tracks s.batch s.live f →
        E.Compacts b s.live f)
    h.indexed
    (fun b last empty id hround _ hJ => ⟨hJ.1, distinct_shifted hround hJ.2.1,
      (added_recordMoved ..).trans ((popRemoved_records _).1.trans hJ.2.2.1),
      fun α E f htracks => (hJ.2.2.2 α E f htracks).shifted hround⟩)
    (fun b n hdone hJ => ⟨hJ.1, hJ.2.1, hJ.2.2.1, fun α E f htracks =>
      (hJ.2.2.2 α E f htracks).trimmed hdone⟩)
    ⟨h.kind, by rw [(ensureRemovedSorted_records _).2]; exact h.distinct,
      (ensureRemovedSorted_records _).1, fun α E f htracks => htracks.compacts h.kind hmoved⟩
  refine ⟨{ s with batch := b', condensed := true }, ?_, ⟨hidx, hkind, hdone, hdistinct⟩,
    fun α E f htracks => (hpasses α E f htracks).tracks, .same hadded rfl⟩
  simp only [call, hrun]
  rfl

theorem Ordered.swap {i₁ i₂ : Nat} (h : s.Ordered) (hpermit : s.Permits (.swap i₁ i₂)) :
    s.Handles (.swap i₁ i₂) := by
  obtain ⟨hphase, hi₁, hi₂, hne⟩ := hpermit
  have hdone := h.phase
  rw [if_pos hphase] at hdone
  obtain ⟨id₁, hat₁⟩ := hdone.occupied i₁ hi₁
  obtain ⟨id₂, hat₂⟩ := hdone.occupied i₂ hi₂
  refine ⟨{ s with batch := s.batch.swapped i₁ i₂ id₁ id₂ }, ?_,
    ⟨h.indexed.swapped hat₁ hat₂, h.kind, ?_, ?_⟩,
    fun α E f htracks => htracks.swapped h.kind hat₁ hat₂ hne, .same (added_recordMoved ..) rfl⟩
  · simp only [call, InputBatch.swapStates_eq h.indexed.get_iff hat₁ hat₂]
    rfl
  · rw [if_pos hphase]
    exact hdone.swapped h.indexed hat₁ hat₂
  · change ∀ m ∈ (s.batch.batchUpdateBuilder.recordMoved s.batch.isPoolingModel i₁ i₂ _).moved, _
    rw [h.kind]
    intro m hm
    rcases mem_append.mp hm with hm | hm
    · exact h.distinct m hm
    · rw [mem_singleton.mp hm]
      exact hne

theorem Ordered.update {id : ReqId} {call : Except Exn (InputBatch K)}
    {g : BatchedRequest K → BatchedRequest K} (h : s.Ordered) (hphase : s.condensed = false)
    (hlive : (s.live id).isSome) (hcall : s.call c = call >>= fun b' => .ok (s.modify b' id g))
    (hrows : ∀ i, s.batch.reqIdToIndex.get id = some i → ∃ b', call = .ok b' ∧ s.batch.KeepsRows b')
    (hg : ∀ r, (g r).params = r.params ∧ (g r).reqId = r.reqId ∧ r.outputTokenIds.length ≤ (g
      r).outputTokenIds.length) : s.Handles c := by
  obtain ⟨r, hr⟩ := Option.isSome_iff_exists.mp hlive
  obtain ⟨i, hget, -⟩ := h.indexed.get_of_live hr
  obtain ⟨b', hrun, hb⟩ := hrows i hget
  obtain ⟨hparams, hid, hout⟩ := hg r
  refine ⟨_, ?_, h.modify hphase hr hb hparams hid hout⟩
  rw [hcall, hrun]
  rfl

theorem Ordered.call (h : s.Ordered) (hpermit : s.Permits c) (hc : c ≠ .refresh) : s.Handles c := by
  cases c with
  | remove id => exact h.remove hpermit
  | updateRunning id n blocks =>
    exact h.update hpermit.1 hpermit.2.1 rfl
      (fun _ hget => InputBatch.updateRunning_keepsRows hget n blocks) fun r => ⟨rfl, rfl, le_rfl⟩
  | updateSpec id spec =>
    exact h.update hpermit.1 hpermit.2 rfl
      (fun _ hget => InputBatch.updateReqSpecTokenIds_keepsRows hget spec)
      fun r => ⟨rfl, rfl, le_rfl⟩
  | add r => exact h.add hpermit
  | condense => exact h.condense hpermit
  | swap i₁ i₂ => exact h.swap hpermit
  | refresh => exact absurd rfl hc
  | bookkeep id sampled =>
    refine h.update hpermit.1 hpermit.2 rfl
      (fun _ hget => InputBatch.bookkeep_keepsRows hget sampled) fun r => ?_
    split_ifs
    · exact ⟨rfl, rfl, le_rfl⟩
    · exact ⟨rfl, rfl, (Nat.le_add_right ..).trans_eq (length_append ..).symm⟩
  | keepPromptLogprobs id chunk =>
    obtain ⟨hphase, hsome, -⟩ := hpermit
    obtain ⟨r, hr⟩ := Option.isSome_iff_exists.mp hsome
    exact ⟨_, rfl, h.modify hphase hr ⟨rfl, rfl, rfl, rfl, rfl⟩ rfl rfl le_rfl⟩

end BatchState

/-! ## What the processors keep of a request -/

namespace CachedRequestState

variable (r : CachedRequestState K)

def minP [Zero K] : K := (r.samplingParams.map (·.minP)).getD 0

def logitBiasEntry : Option (List (Token × K)) :=
  r.samplingParams.bind fun p => if p.logitBias.isEmpty then none else some p.logitBias

def minTokensEntry : Option MinTokensEntry :=
  r.samplingParams.bind fun p =>
    if r.outputTokenIds.length < p.minTokens then
      some { minTokens := p.minTokens, reqId := r.reqId, stopTokenIds := p.allStopTokenIds }
    else none

end CachedRequestState

theorem samplingParams_eq {r : CachedRequestState K} (hp : r.params = .sampling p) :
    r.samplingParams = some p := by
  unfold CachedRequestState.samplingParams
  rw [hp]

theorem samplingParams_congr {r r' : CachedRequestState K} (hp : r'.params = r.params) :
    r'.samplingParams = r.samplingParams := by
  unfold CachedRequestState.samplingParams
  rw [hp]

def minPEntries [Zero K] (float32 : K → K) : RowEntries K K where
  empty := 0
  stored a := float32 a.params.minP
  Fits r v := v = float32 r.minP
  fits_stored r p i hp := by
    unfold CachedRequestState.minP
    rw [samplingParams_eq hp]
    rfl
  fits_grown r r' v hp _ _ hv := by
    unfold CachedRequestState.minP at hv ⊢
    rw [samplingParams_congr hp]
    exact hv

def logitBiasEntries : RowEntries K (Option (List (Token × K))) where
  empty := none
  stored := LogitBiases.newState
  Fits r v := v = r.logitBiasEntry
  fits_stored r p i hp := by
    unfold CachedRequestState.logitBiasEntry
    rw [samplingParams_eq hp]
    rfl
  fits_grown r r' v hp _ _ hv := by
    unfold CachedRequestState.logitBiasEntry at hv ⊢
    rw [samplingParams_congr hp]
    exact hv

variable {entry : MinTokensEntry}

theorem minTokensEntry_eq_some {r : CachedRequestState K} :
    r.minTokensEntry = some entry ↔ ∃ p, r.samplingParams = some p ∧
      r.outputTokenIds.length < p.minTokens ∧
      entry =
        { minTokens := p.minTokens, reqId := r.reqId, stopTokenIds := p.allStopTokenIds } := by
  unfold CachedRequestState.minTokensEntry
  rw [Option.bind_eq_some_iff]
  refine exists_congr fun p => and_congr_right fun _ => ?_
  split_ifs with hlt
  · simp [hlt, eq_comm]
  · simp [hlt]

theorem minTokensEntry_lt {r : CachedRequestState K} (h : r.minTokensEntry = some entry) :
    r.outputTokenIds.length < entry.minTokens := by
  obtain ⟨p, -, hlt, rfl⟩ := minTokensEntry_eq_some.mp h
  exact hlt

/-- An entry may stay in the table after its request has got its tokens, until the next update
drops it. -/
structure FitsMinTokens (r : CachedRequestState K) (v : Option MinTokensEntry) : Prop where
  waiting : ∀ entry, r.minTokensEntry = some entry → v = some entry
  reached : r.minTokensEntry = none → ∀ entry, v = some entry →
    entry.minTokens ≤ r.outputTokenIds.length
  reqId : ∀ entry, v = some entry → entry.reqId = r.reqId

theorem fitsMinTokens_minTokensEntry (r : CachedRequestState K) :
    FitsMinTokens r r.minTokensEntry := by
  refine ⟨fun entry hentry => hentry, fun hnone entry hentry => ?_, fun entry hentry => ?_⟩
  · rw [hnone] at hentry
    cases hentry
  · obtain ⟨p, -, -, rfl⟩ := minTokensEntry_eq_some.mp hentry
    rfl

theorem FitsMinTokens.stored {r : CachedRequestState K} (i : Nat) (hp : r.params = .sampling p) :
    FitsMinTokens r (MinTokens.newState
      { index := i, params := p, reqId := r.reqId, outputTokenIds := r.outputTokenIds }) := by
  have hs := samplingParams_eq hp
  have hstate : MinTokens.newState
      { index := i, params := p, reqId := r.reqId, outputTokenIds := r.outputTokenIds } =
      r.minTokensEntry := by
    grind [MinTokens.newState, CachedRequestState.minTokensEntry]
  exact hstate ▸ fitsMinTokens_minTokensEntry r

variable {v : Option MinTokensEntry}

theorem FitsMinTokens.grown {r r' : CachedRequestState K} (h : FitsMinTokens r v)
    (hp : r'.params = r.params) (hid : r'.reqId = r.reqId)
    (hout : r.outputTokenIds.length ≤ r'.outputTokenIds.length) : FitsMinTokens r' v := by
  have hs := samplingParams_congr hp
  refine ⟨fun entry hentry => ?_, fun hnone entry hentry => ?_,
    fun entry hentry => (h.reqId entry hentry).trans hid.symm⟩
  · grind [FitsMinTokens.waiting, minTokensEntry_eq_some]
  · cases hold : r.minTokensEntry with
    | none => exact (h.reached hold entry hentry).trans hout
    | some entry' =>
      grind [FitsMinTokens.waiting, minTokensEntry_eq_some]

theorem FitsMinTokens.filter {r : CachedRequestState K} (h : FitsMinTokens r v)
    {outputTokenIds : ReqId → List Token} (hout : outputTokenIds r.reqId = r.outputTokenIds) :
    v.filter (fun entry => (outputTokenIds entry.reqId).length < entry.minTokens) =
      r.minTokensEntry := by
  cases hentry : r.minTokensEntry with
  | some entry =>
    have hlt := minTokensEntry_lt hentry
    have hv := h.waiting entry hentry
    rw [← hout, ← h.reqId entry hv] at hlt
    rw [hv]
    simp [hlt]
  | none =>
    cases v with
    | none => rfl
    | some entry =>
      have hle := h.reached hentry entry rfl
      rw [← hout, ← h.reqId entry rfl] at hle
      simp [hle]

def minTokensEntries : RowEntries K (Option MinTokensEntry) where
  empty := none
  stored := MinTokens.newState
  Fits := FitsMinTokens
  fits_stored _ _ i hp := FitsMinTokens.stored i hp
  fits_grown _ _ _ hp hid hout hv := hv.grown hp hid hout

/-! ## Runs -/

structure ProcessorState (K : Type) where
  state : BatchState K
  minP : MinPLogitsProcessor K
  logitBias : LogitBiases K := []
  minTokens : MinTokens := []

def BatchState.request (s : BatchState K) (i : Nat) : Option (CachedRequestState K) :=
  (s.batch.reqIds[i]?.join.bind s.live).map (·.toCachedRequestState)

def BatchState.outputTokenIds (s : BatchState K) (id : ReqId) : List Token :=
  ((s.live id).map (·.outputTokenIds)).getD []

variable {s : BatchState K}

namespace ProcessorState

theorem request_of_at {i : Nat} {id : ReqId} {r : BatchedRequest K}
    (hi : s.batch.At i id) (hr : s.live id = some r) :
    s.request i = some r.toCachedRequestState := by
  unfold BatchState.request
  rw [hi, Option.join_some, Option.bind_some, hr]
  rfl

theorem request_of_vacant {i : Nat} (hi : ∀ id, ¬s.batch.At i id) : s.request i = none := by
  unfold BatchState.request
  rcases hentry : s.batch.reqIds[i]? with _ | _ | id
  · rfl
  · rfl
  · exact absurd hentry (hi id)

theorem tracked_eq {α β : Type} {E : RowEntries K α} {f : Nat → α}
    (hidx : s.batch.Indexed s.live) (h : E.Tracks s.batch s.live f) (g : α → β) (e : β)
    (value : CachedRequestState K → β) (hfits : ∀ id r v, s.live id = some r →
      E.Fits r.toCachedRequestState v → g v = value r.toCachedRequestState)
    (hempty : g E.empty = e) (i : Nat) :
    g (s.batch.batchUpdateBuilder.pending E.empty E.stored f i) =
      ((s.request i).map value).getD e := by
  by_cases hat : ∃ id, s.batch.At i id
  · obtain ⟨id, hi⟩ := hat
    obtain ⟨r, hr⟩ := (hidx.live_iff id).mp ⟨i, hi⟩
    rw [request_of_at hi hr, hfits id r _ hr (h.occupied i id r hi hr)]
    rfl
  · rw [not_exists] at hat
    rw [request_of_vacant hat, h.vacant i hat, hempty]
    rfl

theorem tracks_of_eq {α : Type} {E : RowEntries K α} {f : Nat → α}
    (hbuilder : s.batch.batchUpdateBuilder = {}) (value : CachedRequestState K → α)
    (hfits : ∀ r, E.Fits r (value r)) (hf : ∀ i, f i = ((s.request i).map value).getD E.empty) :
    E.Tracks s.batch s.live f := by
  have hpending : s.batch.batchUpdateBuilder.pending E.empty E.stored f = f := by
    rw [hbuilder]
    exact replay_nil
  refine ⟨fun i id r hi hr => ?_, fun i hi => ?_⟩
  · rw [hpending, hf, request_of_at hi hr]
    exact hfits r.toCachedRequestState
  · rw [hpending, hf, request_of_vacant hi]
    rfl

theorem request_isSome (hidx : s.batch.Indexed s.live)
    (hdone : s.batch.Condensed) (i : Nat) : (s.request i).isSome ↔ i < s.batch.numReqs := by
  constructor
  · intro hsome
    by_contra hi
    have hvacant : ∀ id, ¬s.batch.At i id := fun id hat => by
      have hlt := lt_length_of_getElem? hat
      rw [hdone.count] at hlt
      exact hi hlt
    rw [request_of_vacant hvacant] at hsome
    cases hsome
  · intro hi
    obtain ⟨id, hat⟩ := hdone.occupied i hi
    obtain ⟨r, hr⟩ := (hidx.live_iff id).mp ⟨i, hat⟩
    rw [request_of_at hat hr]
    rfl

variable [Field K] [LinearOrder K]

def init (maxNumReqs vocabSize : Nat) (blocksPerKvBlock : List Nat) (junk : SamplingRow K)
    (float32 : K → K) : ProcessorState K where
  state := { batch := .init false maxNumReqs vocabSize blocksPerKvBlock junk }
  minP := { minP := fun _ => 0, float32 }

/-- `refresh_metadata` hands the changes to the processors. -/
def call (s : ProcessorState K) (c : BatchCall K) : Except Exn (ProcessorState K) := do
  let state ← s.state.call c
  match c with
  | .refresh =>
    let update := s.state.batch.batchUpdateBuilder.get s.state.batch.numReqs
    return {
      state := state
      minP := s.minP.updateState update
      logitBias := s.logitBias.updateState update
      minTokens := s.minTokens.updateState s.state.outputTokenIds update }
  | _ => return { s with state := state }

def run (s : ProcessorState K) (calls : List (BatchCall K)) : Except Exn (ProcessorState K) :=
  calls.foldlM call s

/-- What the processors hold belongs to the requests of the rows. -/
structure Follows (s : ProcessorState K) : Prop where
  request : ∀ i, (s.state.request i).isSome ↔ i < s.state.batch.numReqs
  minP : ∀ i, s.minP.minP i = ((s.state.request i).map (s.minP.float32 ·.minP)).getD 0
  logitBias : ∀ i, s.logitBias.get i = (s.state.request i).bind (·.logitBiasEntry)
  minTokens : ∀ i, s.minTokens.get i = (s.state.request i).bind (·.minTokensEntry)
  minPCount : s.minP.minPCount =
    ((Finset.range s.state.batch.numReqs).filter fun i =>
      ((s.state.request i).map (·.minP)).getD 0 ≠ 0).card

structure Invariant (s : ProcessorState K) : Prop where
  ordered : s.state.Ordered
  minP : (minPEntries s.minP.float32).Tracks s.state.batch s.state.live s.minP.minP
  counts : s.minP.Counts
  added : ∀ a ∈ s.state.batch.batchUpdateBuilder.added, s.minP.Keeps a.params.minP
  kept : ∀ id r, s.state.live id = some r → s.minP.Keeps r.minP
  logitBias : logitBiasEntries.Tracks s.state.batch s.state.live s.logitBias.get
  minTokens : minTokensEntries.Tracks s.state.batch s.state.live (s.minTokens.get)
  nodup : (s.minTokens.keys).Nodup

section steps

variable {s : ProcessorState K}

/-- An added request has a `min_p` that is not lost when it is stored. -/
def Accepts (s : ProcessorState K) (c : BatchCall K) : Prop :=
  ∀ r, c = .add r → s.minP.Keeps r.minP

theorem Invariant.call (h : s.Invariant) (hpermit : s.state.Permits c) (haccepts : s.Accepts c)
    (hc : c ≠ .refresh) : ∃ s', s.call c = .ok s' ∧ s'.Invariant ∧
      s.state.call c = .ok s'.state ∧ s'.minP.float32 = s.minP.float32 := by
  obtain ⟨state, hcall, hordered, hpasses, hrecords⟩ := h.ordered.call hpermit hc
  refine ⟨{ s with state := state }, ?_, ⟨hordered, hpasses _ _ _ h.minP, h.counts,
    fun a ha => ?_, fun id r' hr' => ?_, hpasses _ _ _ h.logitBias, hpasses _ _ _ h.minTokens,
    h.nodup⟩, hcall, rfl⟩
  · unfold ProcessorState.call
    rw [hcall]
    cases c with
    | refresh => exact absurd rfl hc
    | _ => rfl
  · rcases hrecords.added a ha with hold | ⟨r, hr, hparams⟩
    · exact h.added a hold
    · have hkeeps := haccepts r hr
      rwa [CachedRequestState.minP, samplingParams_eq hparams, Option.map_some,
        Option.getD_some] at hkeeps
  · have hsame : ∀ r : CachedRequestState K, r'.params = r.params → r'.minP = r.minP :=
      fun r hparams => by
        unfold CachedRequestState.minP
        rw [samplingParams_congr hparams]
    rcases hrecords.live id r' hr' with ⟨r, hr, hparams⟩ | ⟨r, hr, hparams⟩
    · rw [hsame _ hparams]
      exact h.kept id r hr
    · rw [hsame _ hparams]
      exact haccepts r hr

theorem getD_map_eq_bind {α β : Type} (o : Option α) (g : α → Option β) :
    (o.map g).getD none = o.bind g := by
  cases o with
  | none => rfl
  | some a => rfl

theorem Invariant.refresh (h : s.Invariant) (hpermit : s.state.Permits .refresh) :
    ∃ s', s.call .refresh = .ok s' ∧ s'.Invariant ∧ s.state.call .refresh = .ok s'.state ∧
      s'.minP.float32 = s.minP.float32 ∧ s'.Follows := by
  have hdone := h.ordered.phase
  rw [if_pos (show s.state.condensed = true from hpermit)] at hdone
  have hidx := h.ordered.indexed
  have hdistinct := h.ordered.distinct
  obtain ⟨hminP, hfloat, hcounts⟩ := h.counts.updateState hdistinct h.added s.state.batch.numReqs
  have hout : ∀ id r, s.state.live id = some r →
      s.state.outputTokenIds r.reqId = r.outputTokenIds := fun id r hr => by
    unfold BatchState.outputTokenIds
    rw [hidx.reqId id r hr, hr]
    rfl
  -- the values that the update leaves at each row
  have hvalues : ∀ i, (s.minP.updateState
      (s.state.batch.batchUpdateBuilder.get s.state.batch.numReqs)).minP i =
      ((s.state.request i).map (s.minP.float32 ·.minP)).getD 0 := fun i => by
    rw [hminP]
    exact tracked_eq hidx h.minP (fun v => v) 0 (s.minP.float32 ·.minP) (fun _ _ _ _ hv => hv) rfl i
  have hbias : ∀ i, (s.logitBias.updateState
      (s.state.batch.batchUpdateBuilder.get s.state.batch.numReqs)).get i =
      ((s.state.request i).map (·.logitBiasEntry)).getD none := fun i => by
    unfold LogitBiases.updateState
    rw [get_processDictUpdates hdistinct]
    exact tracked_eq hidx h.logitBias (fun v => v) none (·.logitBiasEntry)
      (fun _ _ _ _ hv => hv) rfl i
  have htokens : ∀ i, (s.minTokens.updateState s.state.outputTokenIds
      (s.state.batch.batchUpdateBuilder.get s.state.batch.numReqs)).get i =
      ((s.state.request i).map (·.minTokensEntry)).getD none := fun i => by
    rw [MinTokens.get_updateState h.nodup hdistinct]
    exact tracked_eq hidx h.minTokens _ none (·.minTokensEntry)
      (fun id r v hr (hv : FitsMinTokens _ _) => hv.filter (hout id r hr)) rfl i
  have hsome := request_isSome hidx hdone
  have hkept : ∀ i r, s.state.request i = some r → s.minP.Keeps r.minP := fun i r hr => by
    obtain ⟨r', hr', rfl⟩ := Option.map_eq_some_iff.mp hr
    obtain ⟨id, -, hlive⟩ := Option.bind_eq_some_iff.mp hr'
    exact h.kept id r' hlive
  refine ⟨_, rfl, ⟨⟨?_, h.ordered.kind, ?_, nofun⟩, ?_, hcounts, nofun, ?_,
    ?_, ?_, MinTokens.nodup_updateState h.nodup _ _⟩, rfl, hfloat, hsome, ?_, ?_, ?_, ?_⟩
  · exact hidx.of_eq (fun _ => rfl) rfl
  · exact ⟨BatchState.gapped_refreshMetadata hdone, rfl⟩
  · rw [hfloat]
    exact tracks_of_eq rfl (s.minP.float32 ·.minP) (fun _ => rfl) hvalues
  · dsimp only [MinPLogitsProcessor.Keeps]
    rw [hfloat]
    exact h.kept
  · exact tracks_of_eq rfl (·.logitBiasEntry) (fun _ => rfl) hbias
  · exact tracks_of_eq rfl (·.minTokensEntry) fitsMinTokens_minTokensEntry htokens
  · dsimp only
    rw [hfloat]
    exact hvalues
  · exact fun i => (hbias i).trans (getD_map_eq_bind _ _)
  · exact fun i => (htokens i).trans (getD_map_eq_bind _ _)
  · refine hcounts.card.trans ?_
    rw [← Set.ncard_coe_finset]
    congr 2
    ext i
    simp only [Finset.coe_filter, Finset.mem_range, Set.mem_ofPred_eq, hvalues]
    change _ ↔ i < s.state.batch.numReqs ∧ ((s.state.request i).map (·.minP)).getD 0 ≠ 0
    rw [← hsome i]
    rcases hrequest : s.state.request i with _ | r
    · simp
    · have hzero : s.minP.float32 r.minP = 0 ↔ r.minP = 0 :=
        ⟨hkept i r hrequest, fun heq => heq ▸ h.counts.zero⟩
      simp [hzero]

theorem Invariant.run {calls rest : List (BatchCall K)} (h : s.Invariant)
    (hissued : s.state.Issues BatchState.Permits (calls ++ rest))
    (haccepts : ∀ c ∈ calls, s.Accepts c) :
    ∃ s', s.run calls = .ok s' ∧ s'.Invariant ∧ s'.state.Issues BatchState.Permits rest := by
  induction calls generalizing s with
  | nil => exact ⟨s, rfl, h, hissued⟩
  | cons c calls ih =>
    obtain ⟨hpermit, hrest⟩ := hissued
    obtain ⟨s₁, hcall, h₁, hstate, hfloat⟩ : ∃ s', s.call c = .ok s' ∧ s'.Invariant ∧
        s.state.call c = .ok s'.state ∧ s'.minP.float32 = s.minP.float32 := by
      by_cases hc : c = .refresh
      · subst hc
        obtain ⟨s₁, hcall, h₁, hstate, hfloat, -⟩ := h.refresh hpermit
        exact ⟨s₁, hcall, h₁, hstate, hfloat⟩
      · exact h.call hpermit (haccepts c mem_cons_self) hc
    obtain ⟨s₂, hrun, h₂, hissued'⟩ := ih h₁ (hrest s₁.state hstate) fun c' hc' r hr => by
      unfold MinPLogitsProcessor.Keeps
      rw [hfloat]
      exact haccepts c' (mem_cons_of_mem c hc') r hr
    refine ⟨s₂, ?_, h₂, hissued'⟩
    unfold run
    rw [foldlM_cons, hcall]
    exact hrun

omit [LinearOrder K] in
theorem invariant_init (maxNumReqs vocabSize : Nat) (blocksPerKvBlock : List Nat)
    (junk : SamplingRow K) {float32 : K → K} (hzero : float32 0 = 0) :
    (init maxNumReqs vocabSize blocksPerKvBlock junk float32).Invariant := by
  refine ⟨⟨⟨fun id i => ?_, fun id => ?_, nofun, nodup_nil⟩, rfl, ?_,
    nofun⟩, ?_, ⟨hzero, ?_, ?_⟩, nofun, nofun, ?_, ?_, nodup_nil⟩
  · simp [init, InputBatch.init, InputBatch.At]
  · simp [init, InputBatch.init, InputBatch.At]
  · exact ⟨⟨fun i => by simp [init, InputBatch.init], nodup_nil,
      fun _ => Pairwise.nil, rfl, Nat.zero_le _⟩, rfl⟩
  · exact tracks_of_eq rfl (float32 ·.minP) (fun _ => rfl) fun i => rfl
  · simp [init]
  · simp [init]
  · exact tracks_of_eq rfl (·.logitBiasEntry) (fun _ => rfl) fun i => rfl
  · exact tracks_of_eq rfl (·.minTokensEntry) fitsMinTokens_minTokensEntry fun i => rfl

end steps

/-- If no `min_p` other than zero is zero in single precision, then after every update the logits
processors hold, for each row, the values of the request of that row. -/
theorem processors_follow_rows (maxNumReqs vocabSize : Nat) (blocksPerKvBlock : List Nat)
    (junk : SamplingRow ℚ) (calls : List (BatchCall ℚ))
    (hissued : BatchState.Issues BatchState.Permits
      (init maxNumReqs vocabSize blocksPerKvBlock junk round32).state (calls ++ [.refresh]))
    (hminP : ∀ r, BatchCall.add r ∈ calls → r.minP = 0 ∨ 2 ^ (-150 : ℤ) < r.minP) :
    ∃ s, (init maxNumReqs vocabSize blocksPerKvBlock junk round32).run (calls ++ [.refresh]) =
      .ok s ∧ s.Follows := by
  have haccepts : ∀ c ∈ calls,
      (init maxNumReqs vocabSize blocksPerKvBlock junk round32).Accepts c := by
    rintro c hc r rfl hround
    refine (hminP r hc).resolve_right fun hlt => ?_
    exact absurd hround ((round32_pos_iff r.minP).mpr hlt).ne'
  have hzero : round32 0 = 0 := if_pos rfl
  obtain ⟨s₁, hrun, h₁, hissued₁⟩ := (invariant_init maxNumReqs vocabSize blocksPerKvBlock
    junk hzero).run hissued haccepts
  obtain ⟨s₂, hcall, -, -, -, hfollows⟩ := h₁.refresh hissued₁.1
  refine ⟨s₂, ?_, hfollows⟩
  unfold run at hrun ⊢
  rw [foldlM_append, hrun, ok_bind, foldlM_cons, hcall]
  rfl

def minPRequest (reqId : ReqId) (minP : ℚ) : CachedRequestState ℚ where
  reqId := reqId
  promptTokenIds := some [7]
  params := .sampling
    { temperature := 1, topP := 1, topK := 0, frequencyPenalty := 0, presencePenalty := 0,
      repetitionPenalty := 1, minP := minP, minTokens := 3 }
  blockIds := [[reqId + 1]]
  numPromptTokens := 1
  numPromptTokens_ok := by exact Eq.refl (Except.ok 1)

/-- A batch of two rows that nothing has been stored in. -/
def minPStart : ProcessorState ℚ :=
  init 2 4 [1]
    { temperature := 0, topP := 0, topK := 0, frequencyPenalty := 0, presencePenalty := 0,
      repetitionPenalty := 0 } round32

/-- The request 1 moves to the row of the request 0, which leaves the batch. -/
theorem processors_follow_rows_moved : ∃ s, minPStart.run
      ([.add (minPRequest 0 0), .add (minPRequest 1 (1 / 2)), .condense, .refresh, .remove 0,
        .condense] ++ [.refresh]) = .ok s ∧ s.Follows := by
  refine processors_follow_rows 2 4 [1] _ _ ?_ ?_
  · refine BatchState.issues_cons rfl ?_ (BatchState.issues_cons rfl ?_ (BatchState.issues_cons rfl
      ?_ (BatchState.issues_cons rfl ?_
        (BatchState.issues_cons rfl ?_ (BatchState.issues_cons rfl ?_
      (BatchState.issues_cons rfl ?_ trivial))))))
    · exact ⟨rfl, rfl, ⟨rfl, rfl, nofun⟩, by decide⟩
    · exact ⟨rfl, rfl, ⟨rfl, rfl, nofun⟩, by decide⟩
    · exact rfl
    · exact rfl
    · exact ⟨rfl, rfl⟩
    · exact rfl
    · exact rfl
  · rintro r hr
    simp only [mem_cons, BatchCall.add.injEq, reduceCtorEq, not_mem_nil, or_false] at hr
    rcases hr with rfl | rfl
    · exact .inl rfl
    · exact .inr (by decide +kernel)

/-- The only request has a `min_p` that is stored as zero, and it is not counted. -/
theorem small_minP_not_counted : ∃ s, minPStart.run
      [.add (minPRequest 0 (1 / 10 ^ 50)), .condense, .refresh] = .ok s ∧ s.minP.minPCount = 0 ∧
      s.state.batch.numReqs = 1 ∧ (s.state.request 0).map (·.minP) = some (1 / 10 ^ 50) :=
  ⟨_, rfl, by decide +kernel, by decide +kernel, by decide +kernel⟩

end ProcessorState

end LongCtxSpecDecode
