import LongCtxSpecDecode.ComputedTokens
import LongCtxSpecDecode.VerifyPass

/-!
# Greedy decoding with drafts

The synchronous engine with a verify pass as executor. Whatever the drafts are, the tokens of a
greedy request are those that plain greedy decoding of the target gives.
-/

namespace LongCtxSpecDecode

open Library List OrderedDict

variable {H : Type}

/-- The computed tokens of a scheduled request, as the model runner reads them from the step. -/
def SchedulerOutput.numComputedTokensOf (out : SchedulerOutput) (r : ReqId) : Int :=
  match out.scheduledNewReqs.find? (·.reqId = r) with
  | some data => data.numComputedTokens
  | none =>
    match out.scheduledCachedReqs.find? (·.reqId = r) with
    | some data => data.numComputedTokens
    | none => 0

namespace Scheduler

section runner

variable {st : ScheduleState H} {r : ReqId} {q : Request H}

theorem makeNewRequestData_spec {data : NewRequestData} {x : ReqId}
    (h : makeNewRequestData st x = .ok data) :
    data.reqId = x ∧ ∃ q, st.scheduler.requests x = some q ∧
      data.numComputedTokens = q.numComputedTokens := by
  obtain ⟨q, hq, h⟩ := of_bind h
  cases h
  exact ⟨rfl, q, getRequest_eq_ok.mp hq, rfl⟩

theorem makeCachedRequestData_spec {data : CachedRequestData} {resumed : Bool} {x : ReqId}
    (h : makeCachedRequestData st resumed x = .ok data) :
    data.reqId = x ∧ ∃ q, st.scheduler.requests x = some q ∧
      data.numComputedTokens = q.numComputedTokens := by
  obtain ⟨q, hq, h⟩ := of_bind h
  obtain ⟨_, -, h⟩ := of_bind h
  cases h
  exact ⟨rfl, q, getRequest_eq_ok.mp hq, rfl⟩

theorem numComputedTokensOf_eq {out : SchedulerOutput} (hout : makeSchedulerOutput st = .ok out)
    (hr : r ∈ st.scheduledRunningReqs ++ (st.scheduledNewReqs ++ st.scheduledResumedReqs))
    (hq : st.scheduler.requests r = some q) :
    out.numComputedTokensOf r = q.numComputedTokens := by
  obtain ⟨-, -, hnew, running, resumed, hrunning, hresumed, hcached⟩ :=
    makeSchedulerOutput_spec hout
  obtain ⟨hnewBack, hnewForth⟩ := ExceptLoop.mem_of_mapM hnew
  obtain ⟨hrunBack, hrunForth⟩ := ExceptLoop.mem_of_mapM hrunning
  obtain ⟨hresBack, hresForth⟩ := ExceptLoop.mem_of_mapM hresumed
  unfold SchedulerOutput.numComputedTokensOf
  cases hfind : out.scheduledNewReqs.find? (·.reqId = r) with
  | some data =>
    have hid : data.reqId = r := by simpa using find?_some hfind
    obtain ⟨x, -, hx⟩ := hnewBack data (mem_of_find?_eq_some hfind)
    obtain ⟨hreq, y, hy, hcomputed⟩ := makeNewRequestData_spec hx
    obtain rfl : x = r := hreq.symm.trans hid
    cases hy.symm.trans hq
    exact hcomputed
  | none =>
    have hnot : r ∉ st.scheduledNewReqs := by
      intro hmem
      obtain ⟨data, hdata, hx⟩ := hnewForth r hmem
      have hne := find?_eq_none.mp hfind data hdata
      exact hne (by simpa using (makeNewRequestData_spec hx).1)
    have hdata : ∀ data ∈ out.scheduledCachedReqs, ∃ x y, data.reqId = x ∧
        st.scheduler.requests x = some y ∧ data.numComputedTokens = y.numComputedTokens := by
      intro data hdata
      rw [hcached] at hdata
      rcases mem_append.mp hdata with hdata | hdata
      · obtain ⟨x, -, hx⟩ := hrunBack data hdata
        obtain ⟨hreq, y, hy⟩ := makeCachedRequestData_spec hx
        exact ⟨x, y, hreq, hy⟩
      · obtain ⟨x, -, hx⟩ := hresBack data hdata
        obtain ⟨hreq, y, hy⟩ := makeCachedRequestData_spec hx
        exact ⟨x, y, hreq, hy⟩
    cases hfind' : out.scheduledCachedReqs.find? (·.reqId = r) with
    | some data =>
      grind
    | none =>
      have hlisted : ∃ data ∈ out.scheduledCachedReqs, data.reqId = r := by
        rw [hcached]
        rcases mem_append.mp hr with hmem | hmem
        · obtain ⟨data, hdata, hx⟩ := hrunForth r hmem
          exact ⟨data, mem_append_left _ hdata, (makeCachedRequestData_spec hx).1⟩
        · obtain ⟨data, hdata, hx⟩ :=
            hresForth r ((mem_append.mp hmem).resolve_left hnot)
          exact ⟨data, mem_append_right _ hdata, (makeCachedRequestData_spec hx).1⟩
      obtain ⟨data, hmem, hid⟩ := hlisted
      exact absurd (by simpa using hid) (find?_eq_none.mp hfind' data hmem)

end runner

def batchRow (s : Scheduler H) (out : SchedulerOutput) (r : ReqId) : BatchRow :=
  { tokenIds := ((s.requests r).map Request.allTokenIds).getD []
    numComputedTokens := (out.numComputedTokensOf r).toNat
    numScheduledTokens := ((out.numScheduledTokens.get r).getD 0).toNat
    specTokenIds := draftsOf out r }

/-- The executor runs the scheduled requests, in some order, through the verify pass. The drafts
for the next step are arbitrary. -/
def verifyExecutor (target : TargetModel) (isGreedy : ReqId → Bool) : Executor H Unit where
  initial := ()
  executes s _ out sampled _ _ :=
    ∃ (order : List ReqId) (random : Nat → Nat → Token),
      order.Perm (out.numScheduledTokens.keys) ∧
      ∀ r ∈ order, sampled r =
        (sampleTokens target (fun i => isGreedy (order.getD i 0)) random
          (order.map (batchRow s out))).getD (order.idxOf r) []

def promptTokens (q : Request H) : List Token :=
  q.promptTokenIds.getD (replicate q.numPromptTokens 0)

def Verified (target : TargetModel) (q : Request H) (drafts generated : List Token) : Prop :=
  (generated = [] ∧ q.numComputedTokens < q.numTokens) ∨
    (q.numComputedTokens = q.numTokens + drafts.length ∧
      ∃ k ≤ drafts.length, generated = target.greedyDecode q.allTokenIds (k + 1))

structure Decoded (target : TargetModel) (q : Request H) : Prop where
  tokens : q.allTokenIds = promptTokens q ++ q.outputTokenIds
  prompt : q.numPromptTokens = (promptTokens q).length
  output : q.outputTokenIds = target.greedyDecode (promptTokens q) q.outputTokenIds.length
  paused : q.status = .waitingForStreamingReq → q.numPromptTokens ≤ q.numComputedTokens

section request

variable {target : TargetModel} {q q' : Request H} {drafts generated : List Token}

theorem Verified.delivers (h : Verified target q drafts generated) :
    Delivers q drafts generated := by
  rcases h with ⟨hnone, hlt⟩ | ⟨hcomputed, k, hk, rfl⟩
  · exact Or.inl ⟨hnone, hlt⟩
  · exact Or.inr ⟨hcomputed, k, hk, target.greedyDecode_length _ _⟩

theorem Decoded.submitted {c : SchedulerConfig H} {r : ReqId} (h : Submitted c r q) :
    Decoded target q := by
  obtain ⟨e, -, rfl⟩ := h
  unfold Request.fromEngineCoreRequest
  rw [Request.updateBlockHashes_eq]
  refine ⟨?_, ?_, rfl, fun hx => ?_⟩
  · exact (append_nil _).symm
  · cases hprompt : e.promptTokenIds with
    | none => simp [promptTokens]
    | some promptTokenIds => simp [promptTokens]
  · cases hstructured : e.useStructuredOutput <;> simp [hstructured] at hx

theorem Decoded.updateAsSession {hasher : Option (Request H → List H)} {update : StreamingUpdate}
    (h : Decoded target q) (hcomputed : q.numPromptTokens ≤ q.numComputedTokens)
    (hrun : q.updateAsSession hasher update = .ok q') : Decoded target q' := by
  unfold Request.updateAsSession at hrun
  split at hrun
  · cases hrun
  · rename_i promptTokenIds hprompt
    have hpromptTokens : promptTokens q = promptTokenIds := by
      unfold promptTokens
      rw [hprompt]
      rfl
    have hlen : promptTokenIds.length ≤ q.numComputedTokens.toNat := by
      rw [← hpromptTokens, ← h.prompt]
      omega
    have hkept : promptTokenIds ++
        (q.allTokenIds.take q.numComputedTokens.toNat).drop q.numPromptTokens =
        q.allTokenIds.take q.numComputedTokens.toNat := by
      rw [h.tokens, h.prompt, hpromptTokens, take_append, take_of_length_le hlen,
        drop_left]
    rw [Request.updateBlockHashes_eq] at hrun
    cases hrun
    refine ⟨?_, rfl, rfl, fun hx => ?_⟩
    · unfold promptTokens Request.continueSession
      dsimp only
      rw [Option.getD_some, hkept, append_nil]
    · cases hx

theorem Decoded.changed {c : SchedulerConfig H} (hchange : Changed c q q')
    (h : Decoded target q) : Decoded target q' := by
  cases hchange with
  | drafts specTokenIds => exact ⟨h.tokens, h.prompt, h.output, h.paused⟩
  | input streamingQueue => exact ⟨h.tokens, h.prompt, h.output, h.paused⟩
  | session update hstatus hupdate => exact h.updateAsSession (h.paused hstatus) hupdate
  | discard hstatus => exact ⟨h.tokens, h.prompt, h.output, fun hx => (by cases hx)⟩

theorem Decoded.rescheduled (hres : Rescheduled q q') (h : Decoded target q) :
    Decoded target q' := by
  have hpaused : q'.status = .waitingForStreamingReq →
      q'.numPromptTokens ≤ q'.numComputedTokens := by
    intro hstatus
    obtain rfl := hres.streaming hstatus
    exact h.paused hstatus
  rw [hres.request] at hpaused ⊢
  exact ⟨h.tokens, h.prompt, h.output, hpaused⟩

theorem Decoded.append (h : Decoded target q) {newTokenIds rest : List Token} {k : Nat}
    (hnew : newTokenIds ++ rest = target.greedyDecode q.allTokenIds k) :
    q.outputTokenIds ++ newTokenIds =
      target.greedyDecode (promptTokens q) (q.outputTokenIds.length + newTokenIds.length) := by
  have hlen : newTokenIds.length ≤ k := by
    have hlengths := congrArg length hnew
    rw [target.greedyDecode_length, length_append] at hlengths
    omega
  have hprefix : newTokenIds = target.greedyDecode q.allTokenIds newTokenIds.length := by
    rw [← target.take_greedyDecode _ k _ hlen, ← hnew, take_left]
  rw [target.greedyDecode_add, ← h.output, ← h.tokens, ← hprefix]

variable {c : SchedulerConfig H} {newTokenIds : List Token} {stopped : Bool} {n : Int}

section

variable (hsync : c.asyncScheduling = false) (h : Decoded target q)
  (hver : Verified target q drafts generated)
  (hout : outcome c q drafts.length generated = (newTokenIds, stopped, q'))
include hsync h hver hout

theorem Verified.of_outcome : q.outputTokenIds ++ newTokenIds =
        target.greedyDecode (promptTokens q) (q.outputTokenIds.length + newTokenIds.length) ∧
      newTokenIds <+: generated := by
  have hrest : ∃ rest, newTokenIds ++ rest = generated := by
    unfold outcome at hout
    split at hout
    · cases hout
      exact ⟨generated, rfl⟩
    · obtain ⟨rest, hrest, -⟩ :=
        appendTokens_prefix c (rollback q drafts.length generated.length) generated
      rw [hout] at hrest
      exact ⟨rest, hrest⟩
  obtain ⟨rest, hrest⟩ := hrest
  refine ⟨?_, rest, hrest⟩
  rcases hver with ⟨rfl, -⟩ | ⟨-, k, -, rfl⟩
  · obtain ⟨rfl, -⟩ := append_eq_nil_iff.mp hrest
    rw [append_nil]
    exact h.output
  · exact h.append hrest

theorem Decoded.of_outcome
    (hpaused : q'.status = .waitingForStreamingReq → q'.numPromptTokens ≤ q'.numComputedTokens) :
    Decoded target q' := by
  obtain ⟨houtput, -⟩ := hver.of_outcome hsync h hout
  rw [(outcome_extends hout).1.request] at hpaused ⊢
  refine ⟨?_, h.prompt, ?_, hpaused⟩
  · change q.allTokenIds ++ newTokenIds = promptTokens q ++ (q.outputTokenIds ++ newTokenIds)
    rw [h.tokens, append_assoc]
  · rw [← length_append] at houtput
    exact houtput

end

theorem Decoded.stopped_computed (hsync : c.asyncScheduling = false) (hn : 0 < n)
    (hadv : Advanced q n drafts) (h : Decoded target q) (hdel : Delivers q drafts generated)
    (hout : outcome c q drafts.length generated = (newTokenIds, true, q')) :
    q'.numPromptTokens ≤ q'.numComputedTokens := by
  obtain ⟨-, -, hnone, hsome, -⟩ := outcome_counts hsync hn hadv hdel hout
  have hgenerated : generated ≠ [] := fun hx => Bool.false_ne_true (hnone hx).2.1.symm
  have hnum : q'.numPromptTokens = q.numPromptTokens := by
    rw [(outcome_extends hout).1.request]
  have htokens : q.numTokens = q.numPromptTokens + q.outputTokenIds.length := by
    unfold Request.numTokens
    rw [h.tokens, length_append, h.prompt]
  have hpos := length_pos_iff.mpr hgenerated
  have hcomputed := hsome hgenerated
  omega

theorem Decoded.nextInput (h : Decoded target q)
    (hcomputed : q.numPromptTokens ≤ q.numComputedTokens)
    (hnext : NextInput c q q') : Decoded target q' := by
  cases hnext with
  | pause => exact ⟨h.tokens, h.prompt, h.output, fun _ => hcomputed⟩
  | update rest update hrun =>
    have hqueue : Decoded target { q with streamingQueue := some rest } :=
      ⟨h.tokens, h.prompt, h.output, h.paused⟩
    exact hqueue.updateAsSession hcomputed hrun

end request

/-- An output of a step from `s`: the tokens of a greedy request continue its decoding and are
the first ones of those sampled. -/
def OutputDecoded (target : TargetModel) (greedy : ReqId → Bool) (s : Scheduler H)
    (sampled : ModelRunnerOutput) (o : EngineCoreOutput) : Prop :=
  greedy o.requestId = true → ∃ q, s.requests o.requestId = some q ∧
    q.outputTokenIds ++ o.newTokenIds = target.greedyDecode (promptTokens q)
      (q.outputTokenIds.length + o.newTokenIds.length) ∧
    o.newTokenIds <+: sampled o.requestId

section step

variable {target : TargetModel} {greedy : ReqId → Bool} {s s' : Scheduler H}
variable {out : SchedulerOutput} {sampled : ModelRunnerOutput} {outputs : List EngineCoreOutput}

theorem Verified.handles {c : SchedulerConfig H} {n : Int} {r : ReqId} {q : Request H}
    {drafts : List Token} (hsync : c.asyncScheduling = false) (hn : 0 < n)
    (hq : s.requests r = some q) (hadv : greedy r = true → Advanced q n drafts)
    (h : greedy r = true → Decoded target q)
    (hver : greedy r = true → Verified target q drafts (sampled r)) :
    HandlesItem (fun r q => greedy r = true → Decoded target q)
      (OutputDecoded target greedy s sampled) c r q drafts.length (sampled r) := by
  intro newTokenIds stopped q' hout
  refine ⟨fun hgoes hg => ?_, fun hstop _ q'' hnext hg => ?_, fun o ho hg => ?_⟩
  · refine (h hg).of_outcome hsync (hver hg) hout fun hx => ?_
    rw [(outcome_extends hout).2 hgoes, (hadv hg).running] at hx
    cases hx
  · subst hstop
    have hcomputed := (h hg).stopped_computed hsync hn (hadv hg) (hver hg).delivers hout
    exact ((h hg).of_outcome hsync (hver hg) hout fun _ => hcomputed).nextInput hcomputed hnext
  · unfold emitted at ho
    split at ho
    · cases ho
    · obtain rfl := mem_singleton.mp ho
      exact ⟨q, hq, (hver hg).of_outcome hsync (h hg) hout⟩

variable [DecidableEq H]

theorem verified_of_executes {w w' : Unit} {drafts : Option (List (ReqId × List Token))}
    {grammarReady : ReqId → Bool} (hready : Ready (greedy · = true) s)
    (hrun : s.schedule grammarReady = .ok (out, s'))
    (hexec : (verifyExecutor target greedy).executes s' w out sampled drafts w')
    {r : ReqId} {n : Int} {q : Request H} (hg : greedy r = true)
    (hn : out.numScheduledTokens.get r = some n) (hpos : 0 < n)
    (hq : s'.requests r = some q) : Verified target q (draftsOf out r) (sampled r) := by
  have hadv := (schedule_midStep hready hrun).advanced r n q hg hn hq
  obtain ⟨st, hst⟩ := schedule_schedules hready.queued hrun
  have hcomputed : out.numComputedTokensOf r = q.numComputedTokens - n := by
    obtain ⟨x, hx, -, hadvanced⟩ := hst.get_running hn
    have hkeys := mem_keys_of_get (hst.tokens ▸ hn)
    rw [numComputedTokensOf_eq hst.output (hst.run.listed.mem_iff.mp hkeys) hx]
    cases hq.symm.trans hadvanced
    unfold afterSchedule
    rw [if_neg (by rw [hst.config.1, hready.sync]; exact nofun)]
    exact (Int.add_sub_cancel ..).symm
  obtain ⟨order, random, hperm, hsampled⟩ := hexec
  have hmem : r ∈ order := hperm.mem_iff.mpr (mem_keys_of_get hn)
  have hidx := idxOf_lt_length_iff.mpr hmem
  have hlt : order.idxOf r < (order.map (batchRow s' out)).length := by
    rw [length_map]
    exact hidx
  have hget : order[order.idxOf r] = r := getElem_idxOf hidx
  have hrow : (order.map (batchRow s' out))[order.idxOf r] = batchRow s' out r := by
    rw [getElem_map, hget]
  generalize hisGreedy : (fun i => greedy (order.getD i 0)) = isGreedy at hsampled
  have hgreedy : isGreedy (order.idxOf r) = true := by
    rw [← hisGreedy]
    dsimp only
    rw [getD_eq_getElem _ _ hidx, hget]
    exact hg
  have htokenIds : (batchRow s' out r).tokenIds = q.allTokenIds := by
    unfold batchRow
    rw [hq]
    rfl
  have hnum : (batchRow s' out r).numScheduledTokens = n.toNat := by
    unfold batchRow
    rw [hn]
    rfl
  have hdone : (batchRow s' out r).numComputedTokens = (q.numComputedTokens - n).toNat := by
    unfold batchRow
    rw [hcomputed]
  have hstart := hadv.start
  have hbelow := hadv.below
  have hspec := sampleTokens_spec target (order.map (batchRow s' out)) random hlt hgreedy
  rw [hrow, ← hsampled r hmem, htokenIds, hnum] at hspec
  have htokens : q.allTokenIds.length = q.numTokens := rfl
  have hspecIds : (batchRow s' out r).specTokenIds = draftsOf out r := rfl
  rw [hspecIds] at hspec
  have hcounts := hadv.counts
  have hroom : (draftsOf out r).length < n.toNat := by
    rcases hcounts with hall | ⟨hnone, -⟩
    · omega
    · rw [hnone]
      exact Int.lt_toNat.mpr hpos
  rcases hspec hroom (by
      rcases hcounts with hall | ⟨hnone, hless⟩
      · left
        omega
      · right
        exact ⟨hnone, by omega⟩) with ⟨hless, hnone⟩ | ⟨hall, k, hk, hdecoded⟩
  · exact Or.inl ⟨hnone, by omega⟩
  · exact Or.inr ⟨by omega, k, hk, hdecoded⟩

end step

end Scheduler

namespace EngineCore

open Scheduler

variable {target : TargetModel} {greedy : ReqId → Bool} {s : Scheduler H} {w : Unit}

structure Lossless (target : TargetModel) (greedy : ReqId → Bool) (s : Scheduler H) : Prop where
  ready : Ready (greedy · = true) s
  decoded : ∀ r q, s.requests r = some q → greedy r = true → Decoded target q

theorem Lossless.changes {s' : Scheduler H} (h : Lossless target greedy s) (hchanges : Changes s s')
    (hqueued : Queued s' []) : Lossless target greedy s' :=
  ⟨h.ready.changes hchanges hqueued,
    hchanges.preserves h.decoded (fun _ _ hsubmitted _ => .submitted hsubmitted)
      fun _ _ _ hchange hdecoded hg => (hdecoded hg).changed hchange⟩

variable [DecidableEq H]

theorem Lossless.step (h : Lossless target greedy s)
    (t : Step (verifyExecutor target greedy) s w) :
    Lossless target greedy t.updated ∧
      ∀ o ∈ t.outputs, OutputDecoded target greedy t.remaining t.sampled o := by
  have hmid := schedule_midStep h.ready t.schedule
  have hleft := hmid.finishRequests t.abort
  obtain ⟨-, hsub⟩ := finishRequests_sub t.abort
  have hverified : ∀ r n q, greedy r = true →
      t.out.numScheduledTokens.get r = some n → 0 < n → t.remaining.requests r = some q →
        Verified target q (draftsOf t.out r) (t.sampled r) := fun r n q hg hn hpos hq =>
    verified_of_executes h.ready t.schedule t.execute hg hn hpos (hsub r q hq)
  have hdecoded : ∀ r q, t.remaining.requests r = some q → greedy r = true → Decoded target q := by
    intro r q hq hg
    obtain ⟨st, hst⟩ := schedule_schedules h.ready.queued t.schedule
    obtain ⟨x, hx, hres⟩ := hst.rescheduled h.ready.queued r q (hsub r q hq)
    exact (h.decoded r x hx hg).rescheduled hres
  have hready := hleft.updateFromOutput
    (fun r n q hg hn hpos hq => (hverified r n q hg hn hpos hq).delivers) t.update
  obtain ⟨-, hrequests, houtputs⟩ := updateFromOutput_handled hleft.nodup hleft.queued.unfinished
    (fun r q _ hq => hdecoded r q hq)
    (fun r n q hn hpos hq => Verified.handles hleft.sync hpos hq
      (fun hg => hleft.advanced r n q hg hn hq) (hdecoded r q hq)
      fun hg => hverified r n q hg hn hpos hq) t.update
  exact ⟨⟨hready, hrequests⟩, houtputs⟩

theorem Lossless.result (h : Lossless target greedy s)
    (t : Step (verifyExecutor target greedy) s w) : Lossless target greedy t.result := by
  have hupdated := (h.step t).1
  unfold Step.result
  split
  · exact hupdated
  · exact hupdated.changes (updateDraftTokenIds_changes _ _)
      (updateDraftTokenIds_queued _ _ hupdated.ready.queued)

theorem Reachable.lossless (hs : Reachable (verifyExecutor target greedy) s w) :
    Lossless target greedy s := by
  induction hs with
  | @init config _ _ _ _ _ kv hsync h =>
    refine ⟨⟨start_queued config kv, hsync, fun r q _ hq => ?_⟩, fun r q hq => ?_⟩ <;> cases hq
  | addRequest _ request h ih =>
    exact ih.changes (addRequest_changes h) (addRequest_queued ih.ready.queued h)
  | finishRequests _ h ih =>
    exact ih.changes (finishRequests_changes h) (finishRequests_queued ih.ready.queued h)
  | resetPrefixCache _ h ih =>
    exact ih.changes (resetPrefixCache_changes h) (resetPrefixCache_queued ih.ready.queued h)
  | step _ t ih => exact ih.result t

/-- Whatever is drafted, a greedy request has at every point of a run the tokens that plain
greedy decoding of the target gives for its prompt. The tokens that a step adds continue them,
and are the first of those that the step sampled. -/
theorem greedy_lossless (hs : Reachable (verifyExecutor target greedy) s w) :
    (∀ r q, greedy r = true → s.requests r = some q →
      q.outputTokenIds = target.greedyDecode (promptTokens q) q.outputTokenIds.length) ∧
    ∀ t : Step (verifyExecutor target greedy) s w, ∀ o ∈ t.outputs, greedy o.requestId = true →
      ∃ q, s.requests o.requestId = some q ∧
        q.outputTokenIds ++ o.newTokenIds = target.greedyDecode (promptTokens q)
          (q.outputTokenIds.length + o.newTokenIds.length) ∧
        o.newTokenIds <+: t.sampled o.requestId := by
  have h := hs.lossless
  refine ⟨fun r q hg hq => (h.decoded r q hq hg).output, fun t o ho hg => ?_⟩
  obtain ⟨q, hq, houtput, hprefix⟩ := (h.step t).2 o ho hg
  -- the request is the same in the scheduler before the step
  obtain ⟨st, hst⟩ := schedule_schedules h.ready.queued t.schedule
  obtain ⟨x, hx, hres⟩ :=
    hst.rescheduled h.ready.queued o.requestId q ((finishRequests_sub t.abort).2 _ q hq)
  refine ⟨x, hx, ?_, hprefix⟩
  rw [hres.request] at houtput
  exact houtput

def verifySteps (target : TargetModel) (greedy : ReqId → Bool) (s : Scheduler H) :
    List (List (ReqId × List Token)) → Except Exn (Scheduler H)
  | [] => .ok s
  | drafts :: rest => do
      let (out, scheduled) ← s.schedule fun _ => true
      let order := out.numScheduledTokens.keys
      let rows := sampleTokens target (fun i => greedy (order.getD i 0)) (fun _ _ => 0)
        (order.map (batchRow scheduled out))
      let (_, updated) ← scheduled.updateFromOutput out fun r => rows.getD (order.idxOf r) []
      verifySteps target greedy (updated.updateDraftTokenIds (fun _ => id) drafts) rest

theorem Reachable.verifySteps {s' : Scheduler H} {drafts : List (List (ReqId × List Token))}
    (hs : Reachable (verifyExecutor target greedy) s ())
    (h : verifySteps target greedy s drafts = .ok s') :
    Reachable (verifyExecutor target greedy) s' () := by
  induction drafts generalizing s with
  | nil =>
    cases h
    exact hs
  | cons first rest ih =>
    obtain ⟨⟨out, scheduled⟩, hschedule, h⟩ := of_bind h
    obtain ⟨⟨outputs, updated⟩, hupdate, h⟩ := of_bind h
    refine ih (hs.step ⟨fun _ => true, out, scheduled, hschedule, _, some first, (), ?_, [],
      scheduled, finishRequests_nil scheduled, outputs, updated, hupdate, fun _ => id⟩) h
    exact ⟨out.numScheduledTokens.keys, fun _ _ => 0, Perm.refl _, fun _ _ => rfl⟩

def countingTarget : TargetModel where
  vocabSize := 10
  next context := (context.length % 10 : Nat)
  valid context := ⟨Int.natCast_nonneg _, Int.ofNat_lt.mpr (Nat.mod_lt _ (by decide))⟩

def draftingConfig : SchedulerConfig Nat :=
  { maxNumRunningReqs := 2, maxNumScheduledTokens := 8, maxModelLen := 16, blockSize := 1
    numSpecTokens := 2, numLookaheadTokens := 2, coordinator := .noPrefixCache }

def verifyRun (target : TargetModel) (greedy : ReqId → Bool) (config : SchedulerConfig H)
    (kvCacheGroups : List KVCacheSpec) (numBlocks : Nat) (request : EngineCoreRequest)
    (drafts : List (List (ReqId × List Token))) : Except Exn (Scheduler H) := do
  let kv ← KVCacheManager.init kvCacheGroups numBlocks config.maxModelLen 1 false config.useEagle
    false
  let s ← ({ config, kvCacheManager := kv } : Scheduler H).addRequest
    (Request.fromEngineCoreRequest config.blockHasher request)
  verifySteps target greedy s drafts

theorem reachable_of_verifyRun {config : SchedulerConfig H} {kvCacheGroups : List KVCacheSpec}
    {numBlocks : Nat} {request : EngineCoreRequest} {drafts : List (List (ReqId × List Token))}
    (hsync : config.asyncScheduling = false)
    (h : verifyRun target greedy config kvCacheGroups numBlocks request drafts = .ok s) :
    Reachable (verifyExecutor target greedy) s () := by
  obtain ⟨kv, hkv, h⟩ := of_bind h
  obtain ⟨s₁, hs₁, h⟩ := of_bind h
  exact ((Reachable.init hsync hkv).addRequest request hs₁).verifySteps h

/-- One of two drafts is right. -/
theorem greedy_lossless_rejected :
    ∃ (s : Scheduler Nat) (q : Request Nat),
      Reachable (verifyExecutor countingTarget fun _ => true) s () ∧ s.requests 0 = some q ∧
        q.outputTokenIds = [3, 4, 5] ∧
        q.outputTokenIds = countingTarget.greedyDecode (promptTokens q) 3 := by
  have hrun : (verifyRun countingTarget (fun _ => true) draftingConfig [attentionSpec] 20
      { requestId := 0, promptTokenIds := some [5, 6, 7], samplingParams := { maxTokens := 8 } }
      [[(0, [4, 9])], []]).toOption.any (fun s => (s.requests 0).any fun q =>
        q.outputTokenIds = [3, 4, 5]) = true := by
    decide +kernel
  obtain ⟨s, hs, htokens⟩ := (Option.any_eq_true _ _).mp hrun
  obtain ⟨q, hq, htokens⟩ := (Option.any_eq_true _ _).mp htokens
  have htokens := of_decide_eq_true htokens
  have hreach := reachable_of_verifyRun rfl (eq_ok_of_toOption hs)
  have hdecoded := (greedy_lossless hreach).1 0 q rfl hq
  rw [htokens] at hdecoded
  exact ⟨s, q, hreach, hq, htokens, htokens.trans hdecoded⟩

end EngineCore

end LongCtxSpecDecode
