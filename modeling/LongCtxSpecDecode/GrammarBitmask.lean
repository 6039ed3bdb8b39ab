import LongCtxSpecDecode.Library.Stores
import LongCtxSpecDecode.LogitsConstraints
import LongCtxSpecDecode.StructuredRuns

/-!
# The grammar bitmask of a batch

`grammar_bitmask` of `v1/structured_output/__init__.py` for all structured requests, in the order of
the scheduler, and `apply_grammar_bitmask` of `v1/structured_output/utils.py`, which puts its rows
in the order of the batch.
-/

namespace LongCtxSpecDecode

open Library.Ragged Library.Stores StructuredRequest List

structure GrammarEntry (S : Type) where
  reqId : ReqId
  grammar : Grammar S
  request : StructuredRequest S

variable {S K : Type} (cfg : StructuredConfig) (drafts : ReqId → List Token)

/-- The serial path. -/
def serialBitmask : List (GrammarEntry S) → Except Exn (List TokenMask × List (GrammarEntry S))
  | [] => .ok ([], [])
  | e :: entries => do
    let (rows, request) ← e.request.grammarBitmask cfg e.grammar (drafts e.reqId)
    let (rest, entries) ← serialBitmask entries
    .ok (rows ++ rest, { e with request } :: entries)

/-- The manager's side of the parallel path. -/
structure BitmaskFiller where
  fillBitmaskParallelThreshold : Nat := 128
  fillBitmaskParallelBatchSize : Nat := 16
  /-- What the tensor holds from the steps before. -/
  bitmask : Nat → TokenMask
  /-- The order in which the threads of `executor_for_fillmask` fill the rows of the batches. -/
  schedule : List (List (Nat × TokenMask)) → List (Nat × TokenMask)
  schedule_perm : ∀ promises, (schedule promises).Perm promises.flatten

/-- The loop that submits each full batch, and at its end what is left. -/
def submitBatches {α : Type} (batchSize : Nat) : List α → List α → List (List α)
  | batch, [] => if batch.isEmpty then [] else [batch]
  | batch, task :: tasks =>
    if (batch ++ [task]).length = batchSize then
      (batch ++ [task]) :: submitBatches batchSize [] tasks
    else submitBatches batchSize (batch ++ [task]) tasks

/-- The parallel path: the rows of the tensor when all promises are fulfilled. -/
def parallelBitmask (filler : BitmaskFiller) (entries : List (GrammarEntry S)) : List TokenMask :=
  let tasks := entries.mapIdx fun cumulativeIndex e =>
    (cumulativeIndex, fillBitmask e.grammar e.request.grammar (e.request.shouldFillBitmask cfg).1)
  let promises := submitBatches filler.fillBitmaskParallelBatchSize [] tasks
  (range entries.length).map (storeAll (filler.schedule promises) filler.bitmask)

/-- `grammar_bitmask`. -/
def grammarBitmask (filler : BitmaskFiller) (maxNumSpecTokens : Nat)
    (entries : List (GrammarEntry S)) : Except Exn (List TokenMask × List (GrammarEntry S)) :=
  if entries.length > filler.fillBitmaskParallelThreshold ∧ maxNumSpecTokens = 0 then
    .ok (parallelBitmask cfg filler entries, entries.map fun e =>
      { e with request := (e.request.shouldFillBitmask cfg).2 })
  else
    serialBitmask cfg drafts entries

def fullMask : TokenMask := fun _ => true

/-- The loop over the batch that finds the first logits row of each structured request. -/
def structOutReqBatchIndices (structOutReqIds : List ReqId) (logitIndex : Nat) :
    List ReqId → (ReqId → Option Nat) → ReqId → Option Nat
  | [], indices => indices
  | r :: reqIds, indices =>
    structOutReqBatchIndices structOutReqIds (logitIndex + (1 + (drafts r).length)) reqIds
      (if r ∈ structOutReqIds then Function.update indices r (some logitIndex) else indices)

/-- The rows that the second loop writes to `sorted_bitmask`, with their indices. -/
def bitmaskStores (bitmask : List TokenMask) (indices : ReqId → Option Nat)
    (cumulativeIndex : Nat) :
    List ReqId → List (Nat × TokenMask)
  | [] => []
  | r :: structOutReqIds =>
    let n := 1 + (drafts r).length
    (match indices r with
      | some logitIdx => (range n).map fun i =>
        (logitIdx + i, bitmask.getD (cumulativeIndex + i) fullMask)
      | none => []) ++ bitmaskStores bitmask indices (cumulativeIndex + n) structOutReqIds

/-- `xgr.apply_token_bitmask_inplace`, one row. -/
def applyTokenBitmask (mask : TokenMask) (row : LogitsRow K) : LogitsRow K :=
  fun t => if mask t then row t else ⊥

def applyGrammarBitmask (structOutReqIds : List ReqId) (bitmask : List TokenMask)
    (reqIds : List ReqId) (logits : List (LogitsRow K)) : List (LogitsRow K) :=
  let indices := structOutReqBatchIndices drafts structOutReqIds 0 reqIds fun _ => none
  let stores := bitmaskStores drafts bitmask indices 0 structOutReqIds
  let sortedBitmask := storeAll stores fun _ => fullMask
  let outIndices := stores.map Prod.fst
  let skipOutIndices := outIndices.length = logits.length
  logits.mapIdx fun k row =>
    if skipOutIndices ∨ k ∈ outIndices then applyTokenBitmask (sortedBitmask k) row else row

variable {cfg drafts}

/-- The number of logits rows of a request. -/
def numRows (drafts : ReqId → List Token) (r : ReqId) : Nat := 1 + (drafts r).length

/-- The masks of a request: those of its grammar after each number of drafts. -/
def GrammarEntry.masks (cfg : StructuredConfig) (drafts : ReqId → List Token) (e : GrammarEntry S) :
    List TokenMask :=
  (range ((drafts e.reqId).length + 1)).map fun j =>
    maskOf e.grammar (liveState e.grammar (e.request.startState cfg e.grammar)
      ((drafts e.reqId).take j))

variable {entries : List (GrammarEntry S)}

theorem serialBitmask_eq
    (haccepted : ∀ e ∈ entries, DraftsAccepted e.grammar (e.request.startState cfg e.grammar)
      (drafts e.reqId)) :
    serialBitmask cfg drafts entries = .ok ((entries.map (·.masks cfg drafts)).flatten,
      entries.map fun e => { e with request := (e.request.shouldFillBitmask cfg).2 }) := by
  induction entries with
  | nil => rfl
  | cons e entries ih =>
    refine bind_eq_ok.mpr ⟨_, grammarBitmask_eq (haccepted e mem_cons_self), ?_⟩
    exact bind_eq_ok.mpr ⟨_, ih fun e he => haccepted e (mem_cons_of_mem _ he), rfl⟩

theorem flatten_submitBatches {α : Type} (batchSize : Nat) (batch tasks : List α) :
    (submitBatches batchSize batch tasks).flatten = batch ++ tasks := by
  induction tasks generalizing batch with
  | nil =>
    rw [submitBatches, append_nil]
    cases batch with
    | nil => rfl
    | cons task batch => exact append_nil _
  | cons task tasks ih =>
    rw [submitBatches]
    split
    · rw [flatten_cons, ih, nil_append, append_assoc, singleton_append]
    · rw [ih, append_assoc, singleton_append]

/-- Whatever the order of the threads, each row is that of its request. -/
theorem parallelBitmask_eq (filler : BitmaskFiller) (entries : List (GrammarEntry S)) :
    parallelBitmask cfg filler entries = entries.map fun e =>
      fillBitmask e.grammar e.request.grammar (e.request.shouldFillBitmask cfg).1 := by
  have hperm := filler.schedule_perm (submitBatches filler.fillBitmaskParallelBatchSize []
    (entries.mapIdx fun i e => (i, fillBitmask e.grammar e.request.grammar
      (e.request.shouldFillBitmask cfg).1)))
  rw [flatten_submitBatches, nil_append] at hperm
  unfold parallelBitmask
  dsimp only
  refine ext_getElem (by simp) fun i hi hi' => ?_
  have hlt : i < entries.length := by simpa using hi'
  rw [getElem_map, getElem_map, getElem_range]
  refine storeAll_of_mem ?_ fun store hstore haddress => ?_
  · rw [(hperm.map Prod.fst).mem_iff, mem_map]
    exact ⟨_, mem_mapIdx.mpr ⟨i, hlt, rfl⟩, rfl⟩
  · obtain ⟨j, hj, rfl⟩ := mem_mapIdx.mp (hperm.mem_iff.mp hstore)
    obtain rfl : j = i := haddress
    rfl

theorem grammarBitmask_rows {filler : BitmaskFiller} {maxNumSpecTokens : Nat}
    (hspec : maxNumSpecTokens = 0 → ∀ r, drafts r = [])
    (haccepted : ∀ e ∈ entries, DraftsAccepted e.grammar (e.request.startState cfg e.grammar)
      (drafts e.reqId)) :
    grammarBitmask cfg drafts filler maxNumSpecTokens entries =
      .ok ((entries.map (·.masks cfg drafts)).flatten,
        entries.map fun e => { e with request := (e.request.shouldFillBitmask cfg).2 }) := by
  unfold grammarBitmask
  split
  · rename_i hparallel
    have hrow : ∀ e : GrammarEntry S, e.masks cfg drafts =
        [fillBitmask e.grammar e.request.grammar (e.request.shouldFillBitmask cfg).1] := by
      intro e
      rw [GrammarEntry.masks, hspec hparallel.2, fillBitmask_eq]
      rfl
    rw [parallelBitmask_eq, map_congr_left fun e _ => hrow e, ← flatMap_def, ← map_eq_flatMap]
  · exact serialBitmask_eq haccepted

variable {indices : ReqId → Option Nat} {r : ReqId}

theorem batchIndices_of_notMem {structOutReqIds reqIds : List ReqId} {k : Nat}
    (h : r ∉ reqIds ∨ r ∉ structOutReqIds) :
    structOutReqBatchIndices drafts structOutReqIds k reqIds indices r = indices r := by
  induction reqIds generalizing k indices with
  | nil => rfl
  | cons r' reqIds ih =>
    rw [structOutReqBatchIndices]
    grind

theorem batchIndices_of_mem {structOutReqIds reqIds : List ReqId} {i k : Nat}
    (hnodup : reqIds.Nodup) (hr : reqIds[i]? = some r) (hstructured : r ∈ structOutReqIds) :
    structOutReqBatchIndices drafts structOutReqIds k reqIds indices r =
      some (k + rowStart (reqIds.map (numRows drafts)) i) := by
  induction reqIds generalizing i k indices with
  | nil => cases hr
  | cons r' reqIds ih =>
    obtain ⟨hnew, hnodup⟩ := nodup_cons.mp hnodup
    rw [structOutReqBatchIndices]
    cases i with
    | zero =>
      obtain rfl := Option.some.inj hr
      rw [batchIndices_of_notMem (Or.inl hnew), if_pos hstructured, Function.update_self]
      rfl
    | succ i =>
      rw [ih hnodup hr, Nat.add_assoc]
      rfl

variable {bitmask : List TokenMask}

theorem mem_bitmaskStores {c : Nat} {ids : List ReqId} {store : Nat × TokenMask} :
    store ∈ bitmaskStores drafts bitmask indices c ids ↔
      ∃ e r logitIdx, ids[e]? = some r ∧ indices r = some logitIdx ∧ ∃ i < numRows drafts r,
        store = (logitIdx + i,
          bitmask.getD (c + rowStart (ids.map (numRows drafts)) e + i) fullMask) := by
  induction ids generalizing c with
  | nil => simp [bitmaskStores]
  | cons r ids ih =>
    rw [bitmaskStores, mem_append, ih]
    constructor
    · rintro (hfirst | ⟨e, r', logitIdx, he, hindex, i, hi, rfl⟩)
      · cases hindex : indices r with
        | none =>
          rw [hindex] at hfirst
          cases hfirst
        | some logitIdx =>
          rw [hindex] at hfirst
          obtain ⟨i, hi, rfl⟩ := mem_map.mp hfirst
          exact ⟨0, r, logitIdx, rfl, hindex, i, mem_range.mp hi, rfl⟩
      · refine ⟨e + 1, r', logitIdx, he, hindex, i, hi, ?_⟩
        rw [Nat.add_assoc c]
        rfl
    · rintro ⟨e, r', logitIdx, he, hindex, i, hi, rfl⟩
      cases e with
      | zero =>
        obtain rfl := Option.some.inj he
        refine Or.inl ?_
        rw [hindex]
        exact mem_map.mpr ⟨i, mem_range.mpr hi, rfl⟩
      | succ e =>
        refine Or.inr ⟨e, r', logitIdx, he, hindex, i, hi, ?_⟩
        rw [Nat.add_assoc c (1 + _)]
        rfl

theorem numRows_getD {reqIds : List ReqId} {i : Nat} (hr : reqIds[i]? = some r) :
    (reqIds.map (numRows drafts)).getD i 0 = numRows drafts r := by
  rw [getD_eq_getElem?_getD, getElem?_map, hr]
  rfl

theorem applyTokenBitmask_full (row : LogitsRow K) : applyTokenBitmask fullMask row = row := rfl

theorem applyGrammarBitmask_getElem? {ids reqIds : List ReqId} {logits : List (LogitsRow K)}
    (k : Nat) :
    (applyGrammarBitmask drafts ids bitmask reqIds logits)[k]? =
      logits[k]?.map (applyTokenBitmask (storeAll (bitmaskStores drafts bitmask
        (structOutReqBatchIndices drafts ids 0 reqIds fun _ => none) 0 ids)
        (fun _ => fullMask) k)) := by
  rw [applyGrammarBitmask, getElem?_mapIdx]
  refine Option.map_congr fun row _ => ?_
  split
  · rfl
  · rename_i hout
    rw [storeAll_of_notMem (not_or.mp hout).2, applyTokenBitmask_full]

/-- The row of draft `j` of a structured request is masked by its grammar after `j` drafts, the rows
of other requests are untouched, and every grammar object is left as it was. -/
theorem grammar_bitmask_lands (cfg : StructuredConfig) (drafts : ReqId → List Token)
    (entries : List (GrammarEntry S)) (reqIds : List ReqId) (logits : List (LogitsRow K))
    (filler : BitmaskFiller) (maxNumSpecTokens : Nat)
    (hspec : maxNumSpecTokens = 0 → ∀ r, drafts r = [])
    (hids : (entries.map (·.reqId)).Nodup) (hreqIds : reqIds.Nodup)
    (haccepted : ∀ e ∈ entries,
      DraftsAccepted e.grammar (e.request.startState cfg e.grammar) (drafts e.reqId)) :
    ∃ bitmask entries', grammarBitmask cfg drafts filler maxNumSpecTokens entries =
        .ok (bitmask, entries') ∧
      entries'.map (·.request.grammar) = entries.map (·.request.grammar) ∧
      ∀ (i : Nat) r, reqIds[i]? = some r → ∀ j ≤ (drafts r).length,
        let k := rowStart (reqIds.map (numRows drafts)) i + j
        let result := applyGrammarBitmask drafts (entries.map (·.reqId)) bitmask reqIds logits
        (∀ e ∈ entries, e.reqId = r → result[k]? = logits[k]?.map (applyTokenBitmask
          (maskOf e.grammar (liveState e.grammar (e.request.startState cfg e.grammar)
            ((drafts r).take j))))) ∧
        (r ∉ entries.map (·.reqId) → result[k]? = logits[k]?) := by
  refine ⟨_, _, grammarBitmask_rows hspec haccepted, ?_, fun i r hr j hj => ?_⟩
  · rw [map_map]
    exact map_congr_left fun e _ => shouldFillBitmask_grammar cfg e.request
  dsimp only
  rw [applyGrammarBitmask_getElem?]
  set stores := bitmaskStores drafts (entries.map (·.masks cfg drafts)).flatten
    (structOutReqBatchIndices drafts (entries.map (·.reqId)) 0 reqIds fun _ => none) 0
    (entries.map (·.reqId))
  -- a store to this row is made for this request and this draft
  have hstore : ∀ store ∈ stores, store.1 = rowStart (reqIds.map (numRows drafts)) i + j →
        ∃ e ∈ entries, e.reqId = r ∧ store.2 = maskOf e.grammar (liveState e.grammar
          (e.request.startState cfg e.grammar) ((drafts r).take j)) := by
    intro store hmem haddress
    obtain ⟨e, r', logitIdx, he, hindex, j', hj', rfl⟩ := mem_bitmaskStores.mp hmem
    have hbatch : r' ∈ reqIds := by
      by_contra hnot
      rw [batchIndices_of_notMem (Or.inl hnot)] at hindex
      cases hindex
    obtain ⟨i', hr'⟩ := mem_iff_getElem?.mp hbatch
    rw [batchIndices_of_mem hreqIds hr' (mem_of_getElem? he), Nat.zero_add] at hindex
    obtain rfl := Option.some.inj hindex
    obtain rfl := row_eq_of_rowStart_add (by rwa [numRows_getD hr'])
      (by rw [numRows_getD hr, numRows]; omega) haddress
    obtain rfl := Option.some.inj (hr'.symm.trans hr)
    obtain rfl := Nat.add_left_cancel haddress
    rw [getElem?_map, Option.map_eq_some_iff] at he
    obtain ⟨entry, hentry, rfl⟩ := he
    refine ⟨entry, mem_of_getElem? hentry, rfl, ?_⟩
    have hlens : (entries.map (·.masks cfg drafts)).map length =
        (entries.map (·.reqId)).map (numRows drafts) := by
      rw [map_map, map_map]
      refine map_congr_left fun e _ => ?_
      simp [GrammarEntry.masks, numRows, Nat.add_comm]
    have hmasks : (entries.map (·.masks cfg drafts))[e]? = some (entry.masks cfg drafts) := by
      rw [getElem?_map, hentry]
      rfl
    have hrow := getElem?_flatten (entries.map (·.masks cfg drafts)) hmasks
      (by simpa [GrammarEntry.masks] using Nat.lt_succ_of_le hj)
    rw [hlens] at hrow
    rw [Nat.zero_add, getD_eq_getElem?_getD, hrow, GrammarEntry.masks, getElem?_map,
      getElem?_range (Nat.lt_succ_of_le hj)]
    rfl
  constructor
  · rintro e he rfl
    obtain ⟨p, hp⟩ := mem_iff_getElem?.mp he
    have hp : (entries.map (·.reqId))[p]? = some e.reqId := by rw [getElem?_map, hp]; rfl
    have hrow : j < numRows drafts e.reqId := by
      unfold numRows
      omega
    have hmem : rowStart (reqIds.map (numRows drafts)) i + j ∈ stores.map Prod.fst := by
      refine mem_map.mpr ⟨_, mem_bitmaskStores.mpr ⟨p, e.reqId, _, hp,
        batchIndices_of_mem hreqIds hr (mem_of_getElem? hp), j, hrow, rfl⟩, ?_⟩
      rw [Nat.zero_add]
    rw [storeAll_of_mem hmem fun store hstore' haddress => ?_]
    obtain ⟨e', he', hid, hvalue⟩ := hstore store hstore' haddress
    rw [hvalue, inj_on_of_nodup_map hids he' he hid]
  · intro hplain
    rw [storeAll_of_notMem fun hmem => ?_, Option.map_congr fun row _ => applyTokenBitmask_full row,
      Option.map_id']
    obtain ⟨store, hstore', haddress⟩ := mem_map.mp hmem
    obtain ⟨e, he, hid, -⟩ := hstore store hstore' haddress
    exact hplain (mem_map.mpr ⟨e, he, hid⟩)

/-- Request 7 has the grammar of the answer `1`, `2`. -/
def shortEntry : GrammarEntry Nat :=
  ⟨7, shortGrammar, { promptTokenIds := [0], reasoningEnded := none }⟩

/-- The threads take the rows in the order of the batches. -/
def inOrder : BitmaskFiller where
  bitmask _ := fullMask
  schedule := flatten
  schedule_perm _ := .refl _

/-- A draft that the grammar does not accept. -/
theorem grammarBitmask_raises :
    grammarBitmask ⟨none, false⟩ (fun _ => [2]) inOrder 1 [shortEntry] =
      .error (.assertionError "") :=
  rfl

/-- Request 4 has two drafts and no grammar, the one draft of request 7 is the token `1`. -/
theorem grammar_bitmask_lands_short :
    ∃ bitmask entries', grammarBitmask ⟨none, false⟩
        (fun r => if r = 7 then [1] else [5, 6]) inOrder 2 [shortEntry] = .ok (bitmask, entries') ∧
      (applyGrammarBitmask (fun r => if r = 7 then [1] else [5, 6]) [7] bitmask [4, 7]
        (replicate 5 fun _ => (0 : WithBot Int)))[4]? =
          some fun t => if t = 2 then 0 else ⊥ := by
  obtain ⟨bitmask, entries', hrun, -, hrows⟩ := grammar_bitmask_lands ⟨none, false⟩
    (fun r => if r = 7 then [1] else [5, 6]) [shortEntry] [4, 7]
    (replicate 5 fun _ => (0 : WithBot Int)) inOrder 2 (by simp) (by simp) (by decide) (by
      rintro e he j t s ht hs
      obtain rfl := mem_singleton.mp he
      cases j with
      | zero =>
        obtain rfl := Option.some.inj ht
        obtain rfl := Option.some.inj hs
        exact Or.inr rfl
      | succ j => cases ht)
  refine ⟨bitmask, entries', hrun, ((hrows 1 7 rfl 1 le_rfl).1 _ mem_cons_self rfl).trans ?_⟩
  refine congrArg some (funext fun t => ?_)
  change (if (shortGrammar.accept 1 t).isSome then (0 : WithBot Int) else ⊥) = _
  by_cases ht : t = 2 <;> simp [shortGrammar, ht]

end LongCtxSpecDecode
