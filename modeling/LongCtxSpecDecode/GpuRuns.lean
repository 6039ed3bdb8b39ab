import LongCtxSpecDecode.GpuRequests
import LongCtxSpecDecode.VerifyPass

/-!
# Runs of the device's request state

Over any run of steps with chunked prefills, drafts, rejections and resumed requests, the tensors
hold the scheduler's requests.
-/

namespace LongCtxSpecDecode.Gpu

open Library List Function OrderedDict

/-! ### The scheduler's requests -/

/-- All requests, as the scheduler sees them. -/
abbrev View := ReqId → Option Tracked

namespace View

def finish (view : View) (output : SchedulerOutput) : View := fun r =>
  if r ∈ output.finishedReqIds then none
  else (view r).map fun t => if r ∈ output.preemptedReqIds then t.preempt else t

def add (view : View) (req : NewRequest) : View :=
  update view req.reqId (some {
    promptTokenIds := req.promptTokenIds
    outputTokenIds := req.prefillTokenIds.drop req.promptTokenIds.length
    numComputedTokens := req.numComputedTokens
    specTokenIds := []
    running := true })

def scheduled (view : View) (output : SchedulerOutput) : View :=
  output.scheduledNewReqs.foldl add (view.finish output)

def updated (view : View) (output : SchedulerOutput)
    (sampledTokenIds : OrderedDict ReqId (List Token))
    (draftTokenIds : ReqId → List Token) : View :=
  fun r => (view r).map fun t =>
    match output.numScheduledTokens.get r with
    | none => t
    | some numScheduledTokens =>
      t.update numScheduledTokens ((output.scheduledSpecDecodeTokens.get r).getD []).length
        ((sampledTokenIds.get r).getD []) (draftTokenIds r)

end View

/-- A new request is unknown, or known and resumed with all its tokens. -/
structure Admissible (view : View) (req : NewRequest) : Prop where
  known : (view req.reqId = none ∧ req.prefillTokenIds = req.promptTokenIds) ∨
    ∃ t, view req.reqId = some t ∧ t.running = false ∧ t.promptTokenIds = req.promptTokenIds ∧
      t.tokens = req.prefillTokenIds
  unfinished : req.numComputedTokens < req.prefillTokenIds.length

def AllAdmissible (view : View) : List NewRequest → Prop
  | [] => True
  | req :: reqs => Admissible view req ∧ AllAdmissible (view.add req) reqs

def Fits (view : View) (output : SchedulerOutput) : Prop :=
  ∀ r n, (r, n) ∈ output.numScheduledTokens → ∃ t, view r = some t ∧ t.running = true ∧
    Schedulable t n ((output.scheduledSpecDecodeTokens.get r).getD []).length

/-- What the scheduler guarantees of its output. -/
structure Valid (runner : Runner) (view : View) (output : SchedulerOutput) : Prop where
  newReqs : AllAdmissible (view.finish output) output.scheduledNewReqs
  room : (runner.finishRequests output).reqStates.reqIdToIndex.length +
    output.scheduledNewReqs.length ≤ runner.reqStates.maxNumReqs
  keys : (output.numScheduledTokens.keys).Nodup
  fits : Fits (view.scheduled output) output

/-! ### The tensors hold the scheduler's requests -/

/-- The runner has the requests of the view, and the greedy ones are decoded as by the target alone.
-/
structure Faithful (target : TargetModel) (greedy : ReqId → Prop) (runner : Runner) (view : View) :
    Prop where
  wellIndexed : WellIndexed runner.reqStates
  held : ∀ r idx, runner.reqStates.reqIdToIndex.get r = some idx →
    ∃ t, view r = some t ∧ t.running = true ∧ Holds runner.reqStates (runner.kv idx) idx t
  running : ∀ r t, view r = some t → t.running = true →
    ∃ idx, runner.reqStates.reqIdToIndex.get r = some idx
  decoded : ∀ r t, view r = some t → greedy r →
    t.outputTokenIds = target.greedyDecode t.promptTokenIds t.outputTokenIds.length

namespace Faithful

variable {target : TargetModel} {greedy : ReqId → Prop} {runner : Runner} {view : View}

theorem init (maxNumReqs numSpeculativeSteps : Nat) :
    Faithful target greedy (.init maxNumReqs numSpeculativeSteps) fun _ => none where
  wellIndexed := wellIndexed_init ..
  held _ _ h := by cases h
  running _ _ h := by cases h
  decoded _ _ h := by cases h

theorem finishRequests (h : Faithful target greedy runner view) (output : SchedulerOutput) :
    Faithful target greedy (runner.finishRequests output) (view.finish output) := by
  obtain ⟨hindexed, hget, hsame⟩ :=
    h.wellIndexed.removed (output.finishedReqIds ++ output.preemptedReqIds)
  refine ⟨hindexed, fun r idx hr => ?_, fun r t hr hrunning => ?_, fun r t hr hgreedy => ?_⟩
  · have hcase := (hget r).symm.trans hr
    split_ifs at hcase with hgone
    rw [mem_append, not_or] at hgone
    obtain ⟨t, ht, hrunning, hholds⟩ := h.held r idx hcase
    refine ⟨t, ?_, hrunning, hholds.congr (hsame idx)⟩
    simp [View.finish, hgone.1, hgone.2, ht]
  · simp only [View.finish] at hr
    split_ifs at hr with hfinished hpreempted
    · obtain ⟨t', -, rfl⟩ := Option.map_eq_some_iff.mp hr
      cases hrunning
    · obtain ⟨t', ht', rfl⟩ := Option.map_eq_some_iff.mp hr
      obtain ⟨idx, hidx⟩ := h.running r t' ht' hrunning
      exact ⟨idx, (hget r).trans ((if_neg (by simp [hfinished, hpreempted])).trans hidx)⟩
  · simp only [View.finish] at hr
    split_ifs at hr <;>
    · obtain ⟨t', ht', rfl⟩ := Option.map_eq_some_iff.mp hr
      exact h.decoded r t' ht' hgreedy

theorem addRequest (h : Faithful target greedy runner view) {req : NewRequest}
    (hreq : Admissible view req)
    (hroom : runner.reqStates.reqIdToIndex.length < runner.reqStates.maxNumReqs) :
    ∃ runner', runner.addRequest req = .ok runner' ∧
      Faithful target greedy runner' (view.add req) ∧
      runner'.reqStates.reqIdToIndex.length = runner.reqStates.reqIdToIndex.length + 1 ∧
      runner'.reqStates.maxNumReqs = runner.reqStates.maxNumReqs ∧
      runner'.reqStates.numSpeculativeSteps = runner.reqStates.numSpeculativeSteps := by
  have hnew : runner.reqStates.reqIdToIndex.get req.reqId = none := by
    cases hget : runner.reqStates.reqIdToIndex.get req.reqId with
    | none => rfl
    | some idx =>
      grind [held, Admissible.known]
  have htokens : req.promptTokenIds ++ req.prefillTokenIds.drop req.promptTokenIds.length =
      req.prefillTokenIds := by
    grind [Admissible.known, Tracked.tokens]
  have hlen : req.promptTokenIds.length ≤ req.prefillTokenIds.length := by
    rw [← htokens, length_append]
    exact Nat.le_add_right ..
  obtain ⟨s', idx, hadd, hadded⟩ := h.wellIndexed.addRequest hnew hlen hroom
  have hidx : s'.reqIdToIndex.get req.reqId = some idx := (hadded.get req.reqId).trans (if_pos rfl)
  refine ⟨{ runner with
      reqStates := s'
      kv := update runner.kv idx fun j =>
        if j < req.numComputedTokens then some (req.prefillTokenIds.take (j + 1)) else none },
    ?_, ⟨hadded.wellIndexed, fun r idx' hr => ?_, fun r t hr hrunning => ?_,
    fun r t hr hgreedy => ?_⟩, hadded.length, hadded.maxNumReqs, hadded.steps⟩
  · unfold Runner.addRequest
    rw [hadd, ok_bind, hidx]
  · have hcase := (hadded.get r).symm.trans hr
    split_ifs at hcase with heq
    · cases hcase
      rw [heq]
      refine ⟨_, update_self .., rfl, ?_⟩
      simp only [update_self]
      exact hadded.holds hreq.unfinished hlen htokens rfl rfl
    · obtain ⟨t, ht, hrunning, hholds⟩ := h.held r idx' hcase
      have hne : idx' ≠ idx := fun hsame =>
        h.wellIndexed.apart r idx' hcase (hsame ▸ hadded.free)
      refine ⟨t, (update_of_ne heq ..).trans ht, hrunning, ?_⟩
      simp only [update_of_ne hne]
      exact hholds.congr (hadded.same idx' hne)
  · by_cases heq : r = req.reqId
    · exact ⟨idx, heq ▸ hidx⟩
    · rw [View.add, update_of_ne heq] at hr
      obtain ⟨idx', hidx'⟩ := h.running r t hr hrunning
      exact ⟨idx', (hadded.get r).trans ((if_neg heq).trans hidx')⟩
  · by_cases heq : r = req.reqId
    · rw [View.add, heq, update_self] at hr
      cases hr
      rcases hreq.known with ⟨-, hprompt⟩ | ⟨t', ht', -, hprompt, hprefill⟩
      · simp only [hprompt, drop_length]
        rfl
      · have hold := h.decoded req.reqId t' ht' (heq ▸ hgreedy)
        simp only [← hprefill, ← hprompt, Tracked.tokens, drop_left]
        exact hold
    · rw [View.add, update_of_ne heq] at hr
      exact h.decoded r t hr hgreedy

theorem addRequests (h : Faithful target greedy runner view) {reqs : List NewRequest}
    (hreqs : AllAdmissible view reqs)
    (hroom : runner.reqStates.reqIdToIndex.length + reqs.length ≤ runner.reqStates.maxNumReqs) :
    ∃ runner', reqs.foldlM Runner.addRequest runner = .ok runner' ∧
      Faithful target greedy runner' (reqs.foldl View.add view) ∧
      runner'.reqStates.numSpeculativeSteps = runner.reqStates.numSpeculativeSteps := by
  induction reqs generalizing runner view with
  | nil => exact ⟨runner, rfl, h, rfl⟩
  | cons req reqs ih =>
    rw [length_cons] at hroom
    obtain ⟨runner₁, hadd, hfaithful, hlen, hmax, hsteps⟩ := h.addRequest hreqs.1 (by omega)
    obtain ⟨runner₂, hrest, hfaithful', hsteps'⟩ := ih hfaithful hreqs.2 (by omega)
    refine ⟨runner₂, ?_, hfaithful', hsteps'.trans hsteps⟩
    rw [foldlM_cons, hadd, ok_bind, hrest]

end Faithful

/-! ### The rows of a batch -/

structure RowsOf (s : RequestState) (output : SchedulerOutput) (rows : List BatchRow) : Prop where
  row : ∀ row ∈ rows, (row.reqId, row.numScheduledTokens) ∈ output.numScheduledTokens ∧
    s.reqIdToIndex.get row.reqId = some row.reqStateIdx ∧
    row.numDraftTokens = ((output.scheduledSpecDecodeTokens.get row.reqId).getD []).length
  all : ∀ r n, (r, n) ∈ output.numScheduledTokens →
    ∃ row ∈ rows, row.reqId = r ∧ row.numScheduledTokens = n
  reqIds : (rows.map BatchRow.reqId).Nodup
  indices : (rows.map BatchRow.reqStateIdx).Nodup

variable {output : SchedulerOutput} {target : TargetModel} {s : RequestState} {row : BatchRow}

theorem batchRow_eq_ok {item : ReqId × Nat} (h : batchRow s output item = .ok row) :
    item = (row.reqId, row.numScheduledTokens) ∧
      s.reqIdToIndex.get row.reqId = some row.reqStateIdx ∧
      row.numDraftTokens = ((output.scheduledSpecDecodeTokens.get row.reqId).getD []).length := by
  unfold batchRow at h
  cases hidx : s.reqIdToIndex.get item.1 with
  | none =>
    rw [hidx] at h
    cases h
  | some idx =>
    rw [hidx] at h
    cases h
    exact ⟨rfl, hidx, rfl⟩

theorem batchRows_spec (hindexed : WellIndexed s) (hkeys : (output.numScheduledTokens.keys).Nodup)
    (hget : ∀ item ∈ output.numScheduledTokens, ∃ idx, s.reqIdToIndex.get item.1 = some idx) :
    ∃ rows, batchRows s output = .ok rows ∧ RowsOf s output rows := by
  obtain ⟨rows, hrows⟩ : ∃ rows, batchRows s output = .ok rows := by
    refine ExceptLoop.mapM_returns fun item hitem => ?_
    obtain ⟨idx, hidx⟩ := hget item (mem_sortBy.mp hitem)
    unfold batchRow
    rw [hidx]
    exact ⟨_, rfl⟩
  obtain ⟨hof, hall⟩ := ExceptLoop.mem_of_mapM hrows
  have hrow : ∀ row ∈ rows, (row.reqId, row.numScheduledTokens) ∈ output.numScheduledTokens ∧
      batchRow s output (row.reqId, row.numScheduledTokens) = .ok row := by
    intro row hmem
    obtain ⟨item, hitem, hok⟩ := hof row hmem
    obtain ⟨rfl, -⟩ := batchRow_eq_ok hok
    exact ⟨mem_sortBy.mp hitem, hok⟩
  have hreqIds : (rows.map BatchRow.reqId).Nodup := by
    have hsame : (sortBy Prod.snd output.numScheduledTokens).map Prod.fst =
        rows.map BatchRow.reqId := by
      rw [← forall₂_eq_eq_eq, forall₂_map_left_iff, forall₂_map_right_iff]
      exact (ExceptLoop.forall₂_of_mapM hrows).imp fun item row hok =>
        congrArg Prod.fst (batchRow_eq_ok hok).1
    rw [← hsame, ((sortBy_perm Prod.snd output.numScheduledTokens).map Prod.fst).nodup_iff]
    exact hkeys
  refine ⟨rows, hrows, fun row hmem => ⟨(hrow row hmem).1, (batchRow_eq_ok (hrow row hmem).2).2⟩,
    fun r n hitem => ?_, hreqIds, ?_⟩
  · obtain ⟨row, hmem, hok⟩ := hall (r, n) (mem_sortBy.mpr hitem)
    obtain ⟨heq, -⟩ := batchRow_eq_ok hok
    cases heq
    exact ⟨row, hmem, rfl, rfl⟩
  · refine hreqIds.of_map.map_on fun row hmem row' hmem' heq => ?_
    refine inj_on_of_nodup_map hreqIds hmem hmem' ?_
    refine hindexed.inj _ _ _ (batchRow_eq_ok (hrow row hmem).2).2.1 ?_
    rw [heq]
    exact (batchRow_eq_ok (hrow row' hmem').2).2.1

/-! ### A step -/

section step

variable {runner : Runner} {view : View} {rows : List BatchRow} {greedy : ReqId → Prop}
  {sampler : ReqId → Option (List Token) → Token} {drafts : ReqId → Nat → Token}
  {newDrafts : ReqId → List Token} {result : StepResult}

theorem runBatch_other (hresult : runner.runBatch rows sampler drafts = result) {idx : Nat}
    (hidx : idx ∉ rows.map BatchRow.reqStateIdx) :
    SameRow runner.reqStates result.runner.reqStates idx ∧
      result.runner.kv idx = runner.kv idx := by
  subst hresult
  refine ⟨⟨rfl, rfl, rfl, rfl, ?_, ?_, ?_⟩, ?_⟩
  · refine launch_of_notMem hidx fun b _ store hstore => ?_
    rw [mem_singleton.mp hstore]
  · exact launch_of_notMem hidx fun b _ _ => mem_lastSampledKernel
  · refine launch_of_notMem hidx fun b _ store hstore => ?_
    rw [mem_singleton.mp hstore]
  · refine launch_of_notMem hidx fun b _ store hstore => ?_
    rw [mem_singleton.mp hstore]

theorem Chosen.greedyDecode {r : ReqId} {tokens sampled : List Token}
    (h : Chosen sampler r tokens sampled)
    (hgreedy : ∀ context, sampler r (some context) = target.next context) :
    sampled = target.greedyDecode tokens sampled.length := by
  have htake := target.take_eq_greedyDecode tokens (Nat.le_refl sampled.length) fun i hi => by
    rw [getD_eq_getElem?_getD, h i hi, Option.getD_some, hgreedy]
  rwa [take_length] at htake

theorem Tracked.update_decoded {t : Tracked} {sampled : List Token}
    (hdecoded : t.outputTokenIds = target.greedyDecode t.promptTokenIds t.outputTokenIds.length)
    (hsampled : sampled = target.greedyDecode t.tokens sampled.length) (n k : Nat)
    (newDrafts : List Token) : (t.update n k sampled newDrafts).outputTokenIds =
      target.greedyDecode t.promptTokenIds
        (t.update n k sampled newDrafts).outputTokenIds.length := by
  change t.outputTokenIds ++ sampled =
    target.greedyDecode t.promptTokenIds (t.outputTokenIds ++ sampled).length
  rw [length_append, TargetModel.greedyDecode_add, ← hdecoded]
  exact congrArg (t.outputTokenIds ++ ·) hsampled

/-- The inputs of the scheduled requests of `view`. -/
def Prepared (view : View) (output : SchedulerOutput) (result : StepResult) : Prop :=
  ∀ r n, (r, n) ∈ output.numScheduledTokens →
    ∃ t b row, view r = some t ∧ result.rows[b]? = some row ∧ row.reqId = r ∧ ∀ j < n,
      result.runner.positions (queryStartLoc result.rows b + j) = (t.numComputedTokens + j : Nat) ∧
      (t.line ((output.scheduledSpecDecodeTokens.get r).getD []).length)[t.numComputedTokens + j]? =
        some (result.runner.inputIds (queryStartLoc result.rows b + j))

/-- What a step is given: greedy requests follow the target, and the drafts are those of the
device. -/
structure StepInputs (target : TargetModel) (greedy : ReqId → Prop)
    (sampler : ReqId → Option (List Token) → Token) (drafts : ReqId → Nat → Token)
    (newDrafts : ReqId → List Token) (numSpeculativeSteps : Nat) : Prop where
  greedy : ∀ r, greedy r → ∀ context, sampler r (some context) = target.next context
  steps : ∀ r, (newDrafts r).length ≤ numSpeculativeSteps
  drafts : ∀ r, ∀ j < (newDrafts r).length, (newDrafts r)[j]? = some (drafts r j)

namespace Faithful

section

variable (h : Faithful target greedy runner view) (hrows : RowsOf runner.reqStates output rows)
  (hsched : Fits view output)
include h hrows hsched

theorem row_holds (hrow : row ∈ rows) : ∃ t, view row.reqId = some t ∧
      Holds runner.reqStates (runner.kv row.reqStateIdx) row.reqStateIdx t ∧
      Schedulable t row.numScheduledTokens row.numDraftTokens := by
  obtain ⟨hitem, hidx, hdrafts⟩ := hrows.row row hrow
  obtain ⟨t, ht, -, hholds⟩ := h.held _ _ hidx
  obtain ⟨t', ht', -, hschedulable⟩ := hsched _ _ hitem
  cases ht.symm.trans ht'
  exact ⟨t, ht, hholds, hdrafts ▸ hschedulable⟩

theorem fewDrafts : FewDrafts rows := by
  intro row hrow
  obtain ⟨t, -, hholds, hschedulable⟩ := h.row_holds hrows hsched hrow
  have hpos := hschedulable.pos
  rcases hschedulable.cases hholds with ⟨-, hzero, -⟩ | ⟨-, hnum, -⟩ <;> omega

variable (hresult : runner.runBatch rows sampler drafts = result)
include hresult

theorem runBatch_row (hrow : row ∈ rows) {newDrafts : List Token}
    (hsteps : newDrafts.length ≤ runner.reqStates.numSpeculativeSteps)
    (hdrafts : ∀ j < newDrafts.length, newDrafts[j]? = some (drafts row.reqId j)) :
    ∃ t sampled, view row.reqId = some t ∧ result.sampledTokenIds.get row.reqId = some sampled ∧
      Chosen sampler row.reqId t.tokens sampled ∧
      Holds result.runner.reqStates (result.runner.kv row.reqStateIdx) row.reqStateIdx
        (t.update row.numScheduledTokens row.numDraftTokens sampled newDrafts) := by
  subst hresult
  obtain ⟨t, ht, hholds, hschedulable⟩ := h.row_holds hrows hsched hrow
  have hfew := h.fewDrafts hrows hsched
  obtain ⟨b, hb⟩ := getElem?_of_mem hrow
  have hkeys : OrderedDict.keys (runner.runBatch rows sampler drafts).sampledTokenIds =
      rows.map BatchRow.reqId := by
    refine ext_getElem? fun i => ?_
    rw [OrderedDict.keys, Runner.runBatch, getElem?_map, getElem?_mapIdx, Option.map_map,
      getElem?_map]
    rfl
  have hget : ∀ sampled,
      (runner.runBatch rows sampler drafts).sampledTokenIds[b]? = some (row.reqId, sampled) →
        (runner.runBatch rows sampler drafts).sampledTokenIds.get row.reqId = some sampled :=
    fun sampled hentry => (get_eq_some_iff (hkeys ▸ hrows.reqIds)).mpr
      (mem_of_getElem? hentry)
  by_cases hchunk : t.numComputedTokens + row.numScheduledTokens <
      runner.reqStates.prefillLen row.reqStateIdx
  · obtain ⟨hentry, hnew⟩ := hholds.runBatch_chunk hfew hb hschedulable hrows.indices hchunk
    exact ⟨t, [], ht, hget _ hentry, by rintro i ⟨⟩, hnew⟩
  · obtain ⟨sampled, hentry, hchosen, hnew⟩ := hholds.runBatch_sampled hfew hb hschedulable
      hrows.indices hsteps hdrafts (Nat.le_of_not_lt hchunk)
    exact ⟨t, sampled, ht, hget _ hentry, hchosen, hnew⟩

theorem runBatch (hin : StepInputs target greedy sampler drafts newDrafts
      runner.reqStates.numSpeculativeSteps) :
    Faithful target greedy result.runner
      (view.updated output result.sampledTokenIds newDrafts) := by
  have hunscheduled : ∀ r, output.numScheduledTokens.get r = none →
      view.updated output result.sampledTokenIds newDrafts r = view r := by
    intro r hnone
    unfold View.updated
    rw [hnone]
    exact Option.map_id_fun' ▸ rfl
  have hscheduled : ∀ r n, output.numScheduledTokens.get r = some n → ∃ row ∈ rows, row.reqId = r ∧
      ∃ t sampled, view r = some t ∧ Chosen sampler r t.tokens sampled ∧
        view.updated output result.sampledTokenIds newDrafts r =
          some (t.update row.numScheduledTokens row.numDraftTokens sampled (newDrafts r)) ∧
        Holds result.runner.reqStates (result.runner.kv row.reqStateIdx) row.reqStateIdx
          (t.update row.numScheduledTokens row.numDraftTokens sampled (newDrafts r)) := by
    intro r n hget
    obtain ⟨row, hrow, rfl, rfl⟩ := hrows.all r n (mem_of_get hget)
    obtain ⟨t, sampled, ht, hsampled, hchosen, hholds⟩ :=
      h.runBatch_row hrows hsched hresult hrow (hin.steps row.reqId) (hin.drafts row.reqId)
    refine ⟨row, hrow, rfl, t, sampled, ht, hchosen, ?_, hholds⟩
    simp only [View.updated, hget, ht, hsampled, Option.map_some, Option.getD_some,
      (hrows.row row hrow).2.2]
  refine ⟨?_, fun r idx hidx => ?_, fun r t hr hrunning => ?_, fun r t hr hr' => ?_⟩
  · rw [← hresult]
    exact ⟨h.wellIndexed.keys, h.wellIndexed.count, h.wellIndexed.free, h.wellIndexed.apart,
      h.wellIndexed.inj⟩
  · have hidx : runner.reqStates.reqIdToIndex.get r = some idx := by
      rw [← hresult] at hidx
      exact hidx
    cases hget : output.numScheduledTokens.get r with
    | none =>
      obtain ⟨t, ht, hrunning, hholds⟩ := h.held r idx hidx
      have hnot : idx ∉ rows.map BatchRow.reqStateIdx := by
        intro hmem
        obtain ⟨row, hrow, rfl⟩ := mem_map.mp hmem
        obtain ⟨hitem, hidx', -⟩ := hrows.row row hrow
        rw [h.wellIndexed.inj _ _ _ hidx' hidx] at hitem
        exact get_eq_none.mp hget (mem_map_of_mem hitem)
      obtain ⟨hsame, hkv⟩ := runBatch_other hresult hnot
      exact ⟨t, (hunscheduled r hget).trans ht, hrunning, hkv ▸ hholds.congr hsame⟩
    | some n =>
      obtain ⟨row, hrow, rfl, t, sampled, ht, -, hupdated, hholds⟩ := hscheduled r n hget
      have hrunning : t.running = true := by
        obtain ⟨t', ht', hrunning, -⟩ := h.held _ _ hidx
        cases ht.symm.trans ht'
        exact hrunning
      cases hidx.symm.trans (hrows.row row hrow).2.1
      exact ⟨_, hupdated, hrunning, hholds⟩
  · rw [← hresult]
    cases hget : output.numScheduledTokens.get r with
    | none => exact h.running r t ((hunscheduled r hget).symm.trans hr) hrunning
    | some n =>
      obtain ⟨row, hrow, rfl, -⟩ := hscheduled r n hget
      exact ⟨_, (hrows.row row hrow).2.1⟩
  · cases hget : output.numScheduledTokens.get r with
    | none => exact h.decoded r t ((hunscheduled r hget).symm.trans hr) hr'
    | some n =>
      obtain ⟨row, hrow, rfl, t', sampled, ht', hchosen, hupdated, -⟩ := hscheduled r n hget
      cases hupdated.symm.trans hr
      exact Tracked.update_decoded (h.decoded _ t' ht' hr')
        (hchosen.greedyDecode (hin.greedy _ hr')) _ _ _

theorem runBatch_inputs : Prepared view output result := by
  subst hresult
  intro r n hitem
  obtain ⟨row, hrow, rfl, rfl⟩ := hrows.all r n hitem
  obtain ⟨b, hb⟩ := getElem?_of_mem hrow
  obtain ⟨t, ht, hholds, hschedulable⟩ := h.row_holds hrows hsched hrow
  have hline := hholds.onLine (h.fewDrafts hrows hsched) hb hschedulable
  rw [← (hrows.row row hrow).2.2]
  refine ⟨t, b, row, ht, hb, rfl, fun j hj => ⟨?_, hline.inputIds j hj⟩⟩
  exact (hline.positions hj).trans (by omega)

end

theorem executeModel (h : Faithful target greedy runner view) (hvalid : Valid runner view output)
    (hin : StepInputs target greedy sampler drafts newDrafts
      runner.reqStates.numSpeculativeSteps) :
    ∃ result, runner.executeModel output sampler drafts = .ok result ∧
      Prepared (view.scheduled output) output result ∧
      result.runner.reqStates.numSpeculativeSteps = runner.reqStates.numSpeculativeSteps ∧
      Faithful target greedy result.runner
        ((view.scheduled output).updated output result.sampledTokenIds newDrafts) := by
  have hsame := (h.wellIndexed.removed (output.finishedReqIds ++ output.preemptedReqIds)).same 0
  obtain ⟨runner', hadd, hfaithful, hnum⟩ := (h.finishRequests output).addRequests hvalid.newReqs
    (hvalid.room.trans_eq hsame.maxNumReqs.symm)
  have hnum : runner'.reqStates.numSpeculativeSteps = runner.reqStates.numSpeculativeSteps :=
    hnum.trans hsame.steps
  have hget : ∀ item ∈ output.numScheduledTokens,
      ∃ idx, runner'.reqStates.reqIdToIndex.get item.1 = some idx := by
    intro item hitem
    obtain ⟨t, ht, hrunning, -⟩ := hvalid.fits _ _ hitem
    exact hfaithful.running _ t ht hrunning
  by_cases hzero : (output.numScheduledTokens.map Prod.snd).sum = 0
  · have hnil : output.numScheduledTokens = [] := by
      refine eq_nil_iff_forall_not_mem.mpr fun item hitem => ?_
      obtain ⟨t, -, -, hschedulable⟩ := hvalid.fits _ _ hitem
      have hle := le_sum_of_mem (mem_map_of_mem (f := Prod.snd) hitem)
      have hpos := hschedulable.pos
      omega
    refine ⟨{ runner := runner', rows := [], sampledTokenIds := [] }, ?_, ?_, hnum, ?_⟩
    · unfold Runner.executeModel
      rw [hadd, ok_bind, if_pos hzero]
    · intro r n hitem
      rw [hnil] at hitem
      cases hitem
    · have hview : (view.scheduled output).updated output [] newDrafts = view.scheduled output := by
        funext r
        unfold View.updated
        rw [hnil]
        exact Option.map_id_fun' ▸ rfl
      rw [hview]
      exact hfaithful
  · obtain ⟨rows, hrows, hof⟩ := batchRows_spec hfaithful.wellIndexed hvalid.keys hget
    refine ⟨runner'.runBatch rows sampler drafts, ?_, hfaithful.runBatch_inputs hof hvalid.fits rfl,
      hnum, hfaithful.runBatch hof hvalid.fits rfl (hnum ▸ hin)⟩
    unfold Runner.executeModel
    rw [hadd, ok_bind, if_neg hzero, hrows, ok_bind]

end Faithful

end step

/-! ### Runs -/

/-- The runs of the model runner. -/
inductive Reaches (target : TargetModel) (greedy : ReqId → Prop)
    (maxNumReqs numSpeculativeSteps : Nat) : Runner → View → Prop
  | init : Reaches target greedy maxNumReqs numSpeculativeSteps
      (.init maxNumReqs numSpeculativeSteps) fun _ => none
  | step {runner : Runner} {view : View} {output : SchedulerOutput}
      {sampler : ReqId → Option (List Token) → Token} {drafts : ReqId → Nat → Token}
      {newDrafts : ReqId → List Token} {result : StepResult}
      (hrun : Reaches target greedy maxNumReqs numSpeculativeSteps runner view)
      (hvalid : Valid runner view output)
      (hgreedy : ∀ r, greedy r → ∀ context, sampler r (some context) = target.next context)
      (hsteps : ∀ r, (newDrafts r).length ≤ numSpeculativeSteps)
      (hdrafts : ∀ r, ∀ j < (newDrafts r).length, (newDrafts r)[j]? = some (drafts r j))
      (hresult : runner.executeModel output sampler drafts = .ok result) :
      Reaches target greedy maxNumReqs numSpeculativeSteps result.runner
        ((view.scheduled output).updated output result.sampledTokenIds newDrafts)

section runs

variable {target : TargetModel} {greedy : ReqId → Prop} {maxNumReqs numSpeculativeSteps : Nat}
  {runner : Runner} {view : View}

theorem Reaches.faithful (h : Reaches target greedy maxNumReqs numSpeculativeSteps runner view) :
    Faithful target greedy runner view ∧
      runner.reqStates.numSpeculativeSteps = numSpeculativeSteps := by
  induction h with
  | init => exact ⟨.init .., rfl⟩
  | step hrun hvalid hgreedy hsteps hdrafts hresult ih =>
    obtain ⟨hfaithful, hnum⟩ := ih
    obtain ⟨result, hok, -, hnum', hfaithful'⟩ :=
      hfaithful.executeModel hvalid ⟨hgreedy, fun r => hnum ▸ hsteps r, hdrafts⟩
    cases hok.symm.trans hresult
    exact ⟨hfaithful', hnum'.trans hnum⟩

/-- In every run the inputs that are prepared for a request are its tokens and then its scheduled
drafts, at the positions from its number of computed tokens on. After the step this number counts
the positions with the KV of its tokens, the last sampled token of a request past its prefill is
the last token it has put out, and a greedy request has put out what the target decodes. -/
theorem executeModel_faithful
    (hrun : Reaches target greedy maxNumReqs numSpeculativeSteps runner view)
    {output : SchedulerOutput} (hvalid : Valid runner view output)
    {sampler : ReqId → Option (List Token) → Token} {drafts : ReqId → Nat → Token}
    {newDrafts : ReqId → List Token}
    (hgreedy : ∀ r, greedy r → ∀ context, sampler r (some context) = target.next context)
    (hsteps : ∀ r, (newDrafts r).length ≤ numSpeculativeSteps)
    (hdrafts : ∀ r, ∀ j < (newDrafts r).length, (newDrafts r)[j]? = some (drafts r j)) :
    ∃ result, runner.executeModel output sampler drafts = .ok result ∧
      (∀ r n, (r, n) ∈ output.numScheduledTokens →
        ∃ t b row, view.scheduled output r = some t ∧ result.rows[b]? = some row ∧ row.reqId = r ∧
          ∀ j < n,
            result.runner.positions (queryStartLoc result.rows b + j) =
              (t.numComputedTokens + j : Nat) ∧
            (t.tokens ++ t.specTokenIds.take
                ((output.scheduledSpecDecodeTokens.get r).getD []).length)[
                  t.numComputedTokens + j]? =
              some (result.runner.inputIds (queryStartLoc result.rows b + j))) ∧
      (∀ r t idx,
        (view.scheduled output).updated output result.sampledTokenIds newDrafts r = some t →
        result.runner.reqStates.reqIdToIndex.get r = some idx →
          result.runner.reqStates.numComputedTokens idx = t.numComputedTokens ∧
          (∀ j, result.runner.kv idx j = some (t.tokens.take (j + 1)) ↔ j < t.numComputedTokens) ∧
          (result.runner.reqStates.prefillLen idx ≤ t.numComputedTokens →
            t.outputTokenIds.getLast? = some (result.runner.reqStates.lastSampledTokens idx))) ∧
      (∀ r t, (view.scheduled output).updated output result.sampledTokenIds newDrafts r = some t →
        greedy r →
          t.outputTokenIds = target.greedyDecode t.promptTokenIds t.outputTokenIds.length) := by
  obtain ⟨hfaithful, hnum⟩ := hrun.faithful
  obtain ⟨result, hok, hinputs, -, hfaithful'⟩ :=
    hfaithful.executeModel hvalid ⟨hgreedy, fun r => hnum ▸ hsteps r, hdrafts⟩
  refine ⟨result, hok, hinputs, fun r t idx ht hidx => ?_, hfaithful'.decoded⟩
  obtain ⟨t', ht', -, hholds⟩ := hfaithful'.held r idx hidx
  cases ht'.symm.trans ht
  refine ⟨hholds.numComputed, hholds.kv_iff, fun hprefilled => ?_⟩
  have hd := hholds.phase.resolve_left fun hp => Nat.not_lt.mpr hprefilled hp.unfinished
  exact hd.output_last hholds.prompt_le

end runs

/-! ### Two runs -/

def advance (state : Runner × View) (output : SchedulerOutput)
    (sampler : ReqId → Option (List Token) → Token) (drafts : ReqId → Nat → Token)
    (newDrafts : ReqId → List Token) : Runner × View :=
  match state.1.executeModel output sampler drafts with
  | .ok result =>
    (result.runner, (state.2.scheduled output).updated output result.sampledTokenIds newDrafts)
  | .error _ => state

theorem Reaches.advance {greedy : ReqId → Prop} {maxNumReqs numSpeculativeSteps : Nat}
    {state : Runner × View} {sampler : ReqId → Option (List Token) → Token}
    {drafts : ReqId → Nat → Token} {newDrafts : ReqId → List Token}
    (hrun : Reaches target greedy maxNumReqs numSpeculativeSteps state.1 state.2)
    (hvalid : Valid state.1 state.2 output)
    (hin : StepInputs target greedy sampler drafts newDrafts numSpeculativeSteps) :
    Reaches target greedy maxNumReqs numSpeculativeSteps
      (advance state output sampler drafts newDrafts).1
      (advance state output sampler drafts newDrafts).2 := by
  obtain ⟨hfaithful, hnum⟩ := hrun.faithful
  obtain ⟨result, hok, -⟩ := hfaithful.executeModel hvalid (hnum ▸ hin)
  unfold Gpu.advance
  rw [hok]
  exact .step hrun hvalid hin.greedy hin.steps hin.drafts hok

def counting : TargetModel where
  vocabSize := 8
  next context := ((context.length % 8 : Nat) : Int)
  valid context := by
    constructor
    · exact Int.natCast_nonneg _
    · exact Int.ofNat_lt.mpr (Nat.mod_lt _ (by decide))

def countingSampler (_ : ReqId) (context : Option (List Token)) : Token :=
  counting.next (context.getD [])

def twoDrafts (_ : ReqId) : List Token := [4, 9]

def draftRow (_ : ReqId) (j : Nat) : Token := if j = 0 then 4 else 9

theorem twoDrafts_get (r : ReqId) :
    ∀ j < (twoDrafts r).length, (twoDrafts r)[j]? = some (draftRow r j) := by
  unfold twoDrafts draftRow
  decide

def firstChunk : SchedulerOutput where
  finishedReqIds := []
  preemptedReqIds := []
  scheduledNewReqs := [⟨0, [4, 4, 4], [4, 4, 4], 0⟩]
  numScheduledTokens := [(0, 2)]
  scheduledSpecDecodeTokens := []

def lastChunk : SchedulerOutput :=
  { firstChunk with scheduledNewReqs := [], numScheduledTokens := [(0, 1)] }

def withDrafts : SchedulerOutput :=
  { lastChunk with
    numScheduledTokens := [(0, 3)]
    scheduledSpecDecodeTokens := [(0, [-1, -1])] }

def chunked : Runner × View :=
  advance (.init 1 2, fun _ => none) firstChunk countingSampler draftRow twoDrafts

def prefilled : Runner × View := advance chunked lastChunk countingSampler draftRow twoDrafts

/-- The third step of a run verifies two drafts, of which the target rejects the second. -/
theorem executeModel_faithful_withDrafts :
    Reaches counting (fun _ => True) 1 2 prefilled.1 prefilled.2 ∧
      ∃ result, prefilled.1.executeModel withDrafts countingSampler draftRow = .ok result ∧
        result.sampledTokenIds = [(0, [4, 5])] ∧
        ∃ t, (prefilled.2.scheduled withDrafts).updated withDrafts result.sampledTokenIds twoDrafts
            0 = some t ∧
          t.outputTokenIds = counting.greedyDecode t.promptTokenIds t.outputTokenIds.length := by
  have hfirst : Valid (.init 1 2) (fun _ => none) firstChunk :=
    ⟨⟨⟨.inl ⟨rfl, rfl⟩, by decide⟩, trivial⟩, by decide, by decide, fun r n h => by
      cases mem_singleton.mp h
      exact ⟨_, rfl, rfl, by decide, by decide, by decide⟩⟩
  have hlast : Valid chunked.1 chunked.2 lastChunk :=
    ⟨trivial, by decide, by decide, fun r n h => by
      cases mem_singleton.mp h
      exact ⟨_, rfl, rfl, by decide, by decide, by decide⟩⟩
  have hdrafts : Valid prefilled.1 prefilled.2 withDrafts :=
    ⟨trivial, by decide, by decide, fun r n h => by
      cases mem_singleton.mp h
      exact ⟨_, rfl, rfl, by decide, by decide, by decide⟩⟩
  have hgreedy : ∀ r, True → ∀ context, countingSampler r (some context) = counting.next context :=
    fun _ _ _ => rfl
  have hlength : ∀ r, (twoDrafts r).length ≤ 2 := fun _ => Nat.le_refl 2
  have hchunked : Reaches counting (fun _ => True) 1 2 chunked.1 chunked.2 :=
    Reaches.advance .init hfirst ⟨hgreedy, hlength, twoDrafts_get⟩
  have hrun : Reaches counting (fun _ => True) 1 2 prefilled.1 prefilled.2 :=
    hchunked.advance hlast ⟨hgreedy, hlength, twoDrafts_get⟩
  obtain ⟨result, hok, -, -, hdecoded⟩ :=
    executeModel_faithful hrun hdrafts hgreedy hlength twoDrafts_get
  refine ⟨hrun, result, hok, ?_, _, rfl, hdecoded 0 _ rfl trivial⟩
  have hsampled : (prefilled.1.executeModel withDrafts countingSampler draftRow).toOption.map
      StepResult.sampledTokenIds = some [(0, [4, 5])] := by decide +kernel
  rw [hok] at hsampled
  exact Option.some.inj hsampled

def reqSampler (r : ReqId) (_ : Option (List Token)) : Token := r + 7

def noDrafts (_ : ReqId) : List Token := []

def emptyRow (_ : ReqId) (_ : Nat) : Token := 0

def admitted : SchedulerOutput where
  finishedReqIds := []
  preemptedReqIds := []
  scheduledNewReqs := [⟨0, [1], [1], 0⟩]
  numScheduledTokens := [(0, 1)]
  scheduledSpecDecodeTokens := []

def preempted : SchedulerOutput :=
  { admitted with
    preemptedReqIds := [0]
    scheduledNewReqs := [⟨1, [2], [2], 0⟩]
    numScheduledTokens := [(1, 1)] }

def resumed : SchedulerOutput :=
  { admitted with
    finishedReqIds := [1]
    scheduledNewReqs := [⟨0, [1], [1, 7], 0⟩] }

def afterAdmitted : Runner × View :=
  advance (.init 1 0, fun _ => none) admitted reqSampler emptyRow noDrafts

def afterPreempted : Runner × View :=
  advance afterAdmitted preempted reqSampler emptyRow noDrafts

def afterResumed : Runner × View := advance afterPreempted resumed reqSampler emptyRow noDrafts

/-- A request that is resumed at the index of another one: until its tokens are computed again, the
last sampled token at its index is the other's. -/
theorem lastSampledTokens_of_resumed :
    Reaches counting (fun _ => False) 1 0 afterResumed.1 afterResumed.2 ∧
      ∃ t idx, afterResumed.2 0 = some t ∧
        afterResumed.1.reqStates.reqIdToIndex.get 0 = some idx ∧
        t.outputTokenIds.getLast? = some 7 ∧
        afterResumed.1.reqStates.lastSampledTokens idx = 8 := by
  have hadmitted : Valid (.init 1 0) (fun _ => none) admitted :=
    ⟨⟨⟨.inl ⟨rfl, rfl⟩, by decide⟩, trivial⟩, by decide, by decide, fun r n h => by
      cases mem_singleton.mp h
      exact ⟨_, rfl, rfl, by decide, by decide, by decide⟩⟩
  have hpreempted : Valid afterAdmitted.1 afterAdmitted.2 preempted :=
    ⟨⟨⟨.inl ⟨rfl, rfl⟩, by decide⟩, trivial⟩, by decide, by decide, fun r n h => by
      cases mem_singleton.mp h
      exact ⟨_, rfl, rfl, by decide, by decide, by decide⟩⟩
  have hresumed : Valid afterPreempted.1 afterPreempted.2 resumed :=
    ⟨⟨⟨.inr ⟨_, rfl, rfl, rfl, rfl⟩, by decide⟩, trivial⟩, by decide, by decide, fun r n h => by
      cases mem_singleton.mp h
      exact ⟨_, rfl, rfl, by decide, by decide, by decide⟩⟩
  have hin : StepInputs counting (fun _ => False) reqSampler emptyRow noDrafts 0 :=
    ⟨fun _ h => h.elim, fun _ => Nat.le_refl 0, nofun⟩
  have hrun : Reaches counting (fun _ => False) 1 0 afterAdmitted.1 afterAdmitted.2 :=
    Reaches.advance .init hadmitted hin
  have hrun : Reaches counting (fun _ => False) 1 0 afterPreempted.1 afterPreempted.2 :=
    hrun.advance hpreempted hin
  exact ⟨hrun.advance hresumed hin, _, _, rfl, rfl, rfl, rfl⟩

end LongCtxSpecDecode.Gpu
