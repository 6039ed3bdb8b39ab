import LongCtxSpecDecode.EngineCore
import LongCtxSpecDecode.RequestChanges
import LongCtxSpecDecode.ScheduledRequests

/-!
# Computed tokens

What a step of the synchronous engine does to the token counts of its requests. `schedule`
advances `num_computed_tokens` over the scheduled drafts, `update_from_output` takes back the
rejected ones.
-/

namespace LongCtxSpecDecode.Scheduler

open Library List OrderedDict

variable {H : Type} {n : Int} {r : ReqId}

section counts

/-- How many tokens and which drafts a request may be scheduled with: all its tokens and the
drafts, or a part of its tokens. -/
def Fits (q : Request H) (n : Int) (drafts : List Token) : Prop :=
  q.numComputedTokens + n = q.numTokens + drafts.length ∨
    (drafts = [] ∧ q.numComputedTokens + n < q.numTokens)

structure Accounted (q : Request H) : Prop where
  computed : 0 ≤ q.numComputedTokens
  placeholders : q.numOutputPlaceholders = 0
  running : q.status = .running → q.numComputedTokens < q.numTokens

/-- The loops of `schedule`: what is scheduled for the requests in `R` fits. -/
structure ScheduledFits (R : ReqId → Prop) (st : ScheduleState H) : Prop where
  run : ScheduledRun st
  accounted : ∀ r q, R r → st.scheduler.requests r = some q → Accounted q
  scheduled : ∀ r n q, R r → st.numScheduledTokens.get r = some n →
    st.scheduler.requests r = some q →
      Fits q n ((st.scheduledSpecDecodeTokens.get r).getD [])
  drafts : ∀ r, st.numScheduledTokens.get r = none →
    st.scheduledSpecDecodeTokens.get r = none

theorem alignedSplit_le (n computed last blockSize : Int) :
    (if computed + n < last then n / blockSize * blockSize
      else if computed < last ∧ last < computed + n then last - computed else n) ≤ max n 0 := by
  split
  · rcases eq_or_ne blockSize 0 with rfl | hne
    · rw [Int.mul_zero]
      exact le_max_right n 0
    · exact (Int.ediv_mul_le n hne).trans (le_max_left n 0)
  · split
    · omega
    · exact le_max_left n 0

theorem mambaBlockAlignedSplit_le (c : SchedulerConfig H) (q : Request H) (n l : Int) :
    mambaBlockAlignedSplit c q n l ≤ max n 0 := by
  unfold mambaBlockAlignedSplit
  split
  · exact alignedSplit_le n _ _ _
  · exact le_max_left n 0

variable {q : Request H}

theorem numNewRunningTokens_le (c : SchedulerConfig H) (hq : Accounted q)
    (hrun : q.status = .running) (tokenBudget : Int) :
    q.numComputedTokens + numNewRunningTokens c q tokenBudget ≤ q.numTokensWithSpec := by
  have hlt := hq.running hrun
  have hspec : (q.numTokens : Int) ≤ q.numTokensWithSpec := by
    unfold Request.numTokens Request.numTokensWithSpec
    omega
  unfold numNewRunningTokens
  rw [hq.placeholders]
  dsimp only
  generalize hn : (if 0 < c.longPrefillTokenThreshold ∧ c.longPrefillTokenThreshold <
    ↑q.numTokensWithSpec + 0 - q.numComputedTokens then c.longPrefillTokenThreshold
    else ↑q.numTokensWithSpec + 0 - q.numComputedTokens) = n
  split
  · have hsplit := mambaBlockAlignedSplit_le c q
      (min (min n tokenBudget) (c.maxModelLen - 1 - q.numComputedTokens)) 0
    omega
  · omega

theorem fits_of_le (hplace : q.numOutputPlaceholders = 0)
    (hle : q.numComputedTokens + n ≤ q.numTokensWithSpec) : Fits q n (scheduledDrafts q n) := by
  have hspec : q.numTokensWithSpec = q.numTokens + q.specTokenIds.length := rfl
  unfold Fits scheduledDrafts
  dsimp only
  split
  · left
    rw [length_take]
    omega
  · rcases eq_or_lt_of_le (show q.numComputedTokens + n ≤ q.numTokens by omega) with heq | hlt
    · left
      rw [heq]
      simp
    · exact Or.inr ⟨rfl, hlt⟩

theorem numNewWaitingTokens_le {c : SchedulerConfig H} {numLocal numComputed tokenBudget : Int}
    (h : numNewWaitingTokens c q numLocal numComputed tokenBudget = .ok (some n)) :
    numComputed + n ≤ q.numTokens ∧ numComputed < q.numTokens := by
  unfold numNewWaitingTokens at h
  dsimp only at h
  generalize hm : (if 0 < c.longPrefillTokenThreshold ∧ c.longPrefillTokenThreshold <
    ↑q.numTokens - numComputed then c.longPrefillTokenThreshold
    else ↑q.numTokens - numComputed) = m at h
  split at h
  · cases h
  · obtain ⟨_, hpos, h⟩ := of_bind h
    have hpos := require_eq_ok.mp hpos
    split at h
    · split at h
      · cases h
      · cases h
        have hsplit := mambaBlockAlignedSplit_le c q (min m tokenBudget) numLocal
        omega
    · cases h
      omega

theorem ScheduledFits.update {R : ReqId → Prop} {st st' : ScheduleState H} (h : ScheduledFits R st)
    (hrun : ScheduledRun st') {q' : Request H}
    (hreq : st'.scheduler.requests = Function.update st.scheduler.requests r (some q'))
    (hq' : R r → Accounted q')
    (hothers : ∀ r' ≠ r, st'.numScheduledTokens.get r' = st.numScheduledTokens.get r' ∧
      st'.scheduledSpecDecodeTokens.get r' = st.scheduledSpecDecodeTokens.get r')
    (hself : (st'.numScheduledTokens.get r = none ∧ st'.scheduledSpecDecodeTokens.get r = none) ∨ ∃
      n, st'.numScheduledTokens.get r = some n ∧ (R r → Fits q' n
      ((st'.scheduledSpecDecodeTokens.get r).getD []))) : ScheduledFits R st' := by
  refine ⟨hrun, fun r' x hR hx => ?_, fun r' n x hR hn hx => ?_, fun r' hn => ?_⟩
  · rw [hreq] at hx
    rcases update_eq_some hx with ⟨rfl, hnew⟩ | ⟨-, hold⟩
    · cases hnew
      exact hq' hR
    · exact h.accounted r' x hR hold
  · rw [hreq] at hx
    rcases update_eq_some hx with ⟨rfl, hnew⟩ | ⟨hr, hold⟩
    · cases hnew
      rcases hself with ⟨hnone, -⟩ | ⟨m, hm, hfits⟩
      · rw [hnone] at hn
        cases hn
      · cases hm.symm.trans hn
        exact hfits hR
    · rw [(hothers r' hr).1] at hn
      rw [(hothers r' hr).2]
      exact h.scheduled r' n x hR hn hold
  · grind [ScheduledFits.drafts]

theorem waitingComputed_nonneg {s : Scheduler H} {hits : KVCacheBlocks}
    {numLocal numComputed : Int} (hq : 0 ≤ q.numComputedTokens)
    (h : s.waitingComputed q = .ok (hits, numLocal, numComputed)) : 0 ≤ numComputed := by
  unfold waitingComputed at h
  split at h
  · grind [KVCacheCoordinator.getComputedBlocks, bind_eq_ok]
  · cases h
    exact hq

end counts

section loops

variable [DecidableEq H] {st st' : ScheduleState H}

theorem loopStep_fits {R : ReqId → Prop} (hstep : LoopStep st st') (h : ScheduledFits R st) :
    ScheduledFits R st' := by
  have hrun := loopStep_scheduledRun hstep h.run
  cases hstep with
  | skipRunning | noSpaceRunning | noSpaceWaiting | setAside =>
    exact ⟨hrun, h.accounted, h.scheduled, h.drafts⟩
  | @preempt _ victim hpre hgone =>
    obtain ⟨q, kv, hspec⟩ := preemptOne_spec hpre
    have hnone := get_eq_none.mpr hgone
    refine h.update hrun (by rw [hspec.scheduler])
      (fun hR => ⟨le_rfl, ?_, fun hx => (by cases hx)⟩) ?_ ?_
    · exact (h.accounted victim q hR hspec.known).placeholders
    · intro r hr
      rw [hspec.state]
      unfold unschedule
      split
      · exact ⟨(get_pop ..).trans (if_neg hr),
          (get_pop ..).trans (if_neg hr)⟩
      · exact ⟨rfl, rfl⟩
    · refine Or.inl ⟨hnone, ?_⟩
      rw [hspec.state] at hnone ⊢
      unfold unschedule at hnone ⊢
      split at hnone
      · rename_i hcase
        rw [if_pos hcase]
        exact (get_pop ..).trans (if_pos rfl)
      · rename_i hcase
        rw [if_neg hcase]
        exact h.drafts victim hnone
  | @run r q n newBlocks kv hturn hfresh hkv =>
    have hrunning := (h.run.queued.running r q hturn.known).mpr hturn.mem
    obtain ⟨budget, -, rfl⟩ := hturn.tokens
    have hnone := h.drafts r (get_eq_none.mpr hfresh)
    refine h.update hrun rfl (fun hR => ?_) ?_ ?_
    · have hacc := h.accounted r q hR hturn.known
      exact ⟨hacc.computed, hacc.placeholders, hacc.running⟩
    · intro r' hr
      refine ⟨(get_set ..).trans (if_neg hr), ?_⟩
      unfold scheduleRunningRequest
      dsimp only
      split
      · rfl
      · exact (get_set ..).trans (if_neg hr)
    · refine Or.inr ⟨_, (get_set ..).trans (if_pos rfl), fun hR => ?_⟩
      have hacc := h.accounted r q hR hturn.known
      have hdrafts : (get (scheduleRunningRequest (st.withKv kv) r q
          (numNewRunningTokens st.scheduler.config q budget)
          newBlocks).scheduledSpecDecodeTokens r).getD [] =
          scheduledDrafts q (numNewRunningTokens st.scheduler.config q budget) := by
        unfold scheduleRunningRequest
        dsimp only
        split
        · rename_i hempty
          rw [hempty]
          exact congrArg (Option.getD · []) hnone
        · rw [get_set, if_pos rfl]
          rfl
      rw [hdrafts]
      exact fits_of_le hacc.placeholders
        (numNewRunningTokens_le st.scheduler.config hacc hrunning budget)
  | loras hloras =>
    obtain ⟨-, heq⟩ := recordLoras_eq hloras
    rw [heq] at hrun ⊢
    exact ⟨hrun, h.accounted, h.scheduled, h.drafts⟩
  | @grammar r q hknown hstatus =>
    have hnone : st.numScheduledTokens.get r = none :=
      get_eq_none.mpr (h.run.notMem hknown (by rw [hstatus]; decide))
    refine h.update hrun rfl (fun hR => ?_) (fun _ _ => ⟨rfl, rfl⟩)
      (Or.inl ⟨hnone, h.drafts r hnone⟩)
    have hacc := h.accounted r q hR hknown
    exact ⟨hacc.computed, hacc.placeholders, fun hx => (by cases hx)⟩
  | @start _ r q hits numLocal numComputed n newBlocks kv hturn hkv hstart =>
    obtain ⟨news, resumed, rfl, hstatus, -⟩ := scheduleWaitingRequest_spec hstart
    have hnone := h.drafts r (get_eq_none.mpr (h.run.notMem hturn.known hstatus))
    obtain ⟨hle, hlt⟩ := numNewWaitingTokens_le hturn.tokens
    refine h.update hrun rfl (fun hR => ?_) (fun r' hr => ⟨(get_set ..).trans (if_neg hr), rfl⟩)
      (Or.inr ⟨n, (get_set ..).trans (if_pos rfl), fun _ => ?_⟩)
    · have hacc := h.accounted r q hR hturn.known
      exact ⟨waitingComputed_nonneg hacc.computed hturn.computed, hacc.placeholders, fun _ => hlt⟩
    · change Fits _ _ ((st.scheduledSpecDecodeTokens.get r).getD [])
      rw [hnone]
      rcases eq_or_lt_of_le hle with heq | hlt
      · left
        change numComputed + n = (q.numTokens : Int) + (0 : Nat)
        omega
      · exact Or.inr ⟨rfl, hlt⟩

end loops

section steps

structure Advanced (q : Request H) (n : Int) (drafts : List Token) : Prop where
  running : q.status = .running
  placeholders : q.numOutputPlaceholders = 0
  start : 0 ≤ q.numComputedTokens - n
  below : q.numComputedTokens - n < q.numTokens
  counts : q.numComputedTokens = q.numTokens + drafts.length ∨
    (drafts = [] ∧ q.numComputedTokens < q.numTokens)

/-- The tokens that a step may return for a scheduled request: none if it is not through its
tokens, else one more than the accepted drafts. -/
def Delivers (q : Request H) (drafts generated : List Token) : Prop :=
  (generated = [] ∧ q.numComputedTokens < q.numTokens) ∨
    (q.numComputedTokens = q.numTokens + drafts.length ∧
      ∃ k ≤ drafts.length, generated.length = k + 1)

structure Ready (R : ReqId → Prop) (s : Scheduler H) : Prop where
  queued : Queued s []
  sync : s.config.asyncScheduling = false
  accounted : ∀ r q, R r → s.requests r = some q → Accounted q

/-- The synchronous scheduler between `schedule` and `update_from_output`. -/
structure MidStep (R : ReqId → Prop) (out : SchedulerOutput) (s : Scheduler H) : Prop where
  queued : Queued s []
  sync : s.config.asyncScheduling = false
  nodup : (out.numScheduledTokens.keys).Nodup
  running : ∀ r n q, out.numScheduledTokens.get r = some n →
    s.requests r = some q → q.status = .running
  accounted : ∀ r q, R r → out.numScheduledTokens.get r = none →
    s.requests r = some q → Accounted q
  advanced : ∀ r n q, R r → out.numScheduledTokens.get r = some n →
    s.requests r = some q → Advanced q n (draftsOf out r)

variable {R : ReqId → Prop} {s s' : Scheduler H} {out : SchedulerOutput}

theorem Accounted.submitted {c : SchedulerConfig H} {q : Request H} (h : Submitted c r q) :
    Accounted q := by
  obtain ⟨e, -, rfl⟩ := h
  unfold Request.fromEngineCoreRequest
  rw [Request.updateBlockHashes_eq]
  refine ⟨le_rfl, rfl, fun hx => ?_⟩
  cases hstructured : e.useStructuredOutput <;> simp [hstructured] at hx

theorem updateAsSession_counts {hasher : Option (Request H → List H)} {q q' : Request H}
    {update : StreamingUpdate} (h : q.updateAsSession hasher update = .ok q') :
    q'.numComputedTokens = q.numComputedTokens ∧
      q'.numOutputPlaceholders = q.numOutputPlaceholders := by
  unfold Request.updateAsSession at h
  split at h
  · cases h
  · rw [Request.updateBlockHashes_eq] at h
    cases h
    exact ⟨rfl, rfl⟩

theorem Accounted.changed {c : SchedulerConfig H} {q q' : Request H} (hchange : Changed c q q')
    (h : Accounted q) : Accounted q' := by
  cases hchange with
  | drafts specTokenIds => exact ⟨h.computed, h.placeholders, h.running⟩
  | input streamingQueue => exact ⟨h.computed, h.placeholders, h.running⟩
  | session update hstatus hupdate =>
    obtain ⟨hcomputed, hplaceholders⟩ := updateAsSession_counts hupdate
    have hwaiting := updateAsSession_status hupdate
    refine ⟨hcomputed ▸ h.computed, hplaceholders.trans h.placeholders, fun hx => ?_⟩
    cases hwaiting.symm.trans hx
  | discard hstatus => exact ⟨le_rfl, rfl, fun hx => (by cases hx)⟩

theorem Ready.changes (h : Ready R s) (hchanges : Changes s s') (hqueued : Queued s' []) :
    Ready R s' := by
  refine ⟨hqueued, by rw [hchanges.config]; exact h.sync, fun r q hR hq => ?_⟩
  exact hchanges.preserves (fun r q hq hR => h.accounted r q hR hq)
    (fun r q hsubmitted _ => .submitted hsubmitted)
    (fun r q q' hchange hI hR => (hI hR).changed hchange) r q hq hR

theorem MidStep.finishRequests {requestIds : List ReqId} {status : RequestStatus}
    (h : MidStep R out s) (hrun : s.finishRequests requestIds status = .ok s') :
    MidStep R out s' := by
  obtain ⟨hconfig, hsub⟩ := finishRequests_sub hrun
  refine ⟨finishRequests_queued h.queued hrun, by rw [hconfig]; exact h.sync, h.nodup, ?_, ?_, ?_⟩
  · exact fun r n q hn hq => h.running r n q hn (hsub r q hq)
  · exact fun r q hR hn hq => h.accounted r q hR hn (hsub r q hq)
  · exact fun r n q hR hn hq => h.advanced r n q hR hn (hsub r q hq)

variable [DecidableEq H]

theorem loopStep_config {st st' : ScheduleState H} (hstep : LoopStep st st') :
    st'.scheduler.config = st.scheduler.config := by
  cases hstep with
  | skipRunning | noSpaceRunning | noSpaceWaiting | setAside | run | grammar => rfl
  | preempt hpre =>
    obtain ⟨q, kv, hspec⟩ := preemptOne_spec hpre
    exact hspec.config
  | loras hloras => rw [(recordLoras_eq hloras).1]
  | start hturn hkv hstart =>
    obtain ⟨news, resumed, rfl, -⟩ := scheduleWaitingRequest_spec hstart
    rfl

theorem Schedules.config {st : ScheduleState H} (h : Schedules s out s' st) :
    st.scheduler.config = s.config ∧ s'.config = s.config := by
  have hconfig : st.scheduler.config = s.config :=
    h.steps.induction
      (fun _ _ hstep hprev => (loopStep_config hstep).trans hprev) rfl
  refine ⟨hconfig, ?_⟩
  rw [h.result]
  exact hconfig

theorem schedule_midStep {grammarReady : ReqId → Bool} (h : Ready R s)
    (hrun : s.schedule grammarReady = .ok (out, s')) : MidStep R out s' := by
  obtain ⟨st, hst⟩ := schedule_schedules h.queued hrun
  have hfits : ScheduledFits R st := by
    refine hst.steps.induction (fun _ _ => loopStep_fits)
      ⟨.initial h.queued, h.accounted, fun r n q _ hn => ?_, fun _ _ => rfl⟩
    cases hn
  obtain ⟨hloops, hconfig⟩ := hst.config
  have hsync : st.scheduler.config.asyncScheduling = false := by rw [hloops]; exact h.sync
  refine ⟨schedule_queued h.queued hrun, by rw [hconfig]; exact h.sync,
    schedule_keys_nodup (nodup_append.mp h.queued.nodup).1 hrun, ?_, ?_, ?_⟩
  · intro r n q hn hq
    obtain ⟨x, hx, hstatus, hadvanced⟩ := hst.get_running hn
    cases hq.symm.trans hadvanced
    unfold afterSchedule
    rw [if_neg (by rw [hsync]; exact nofun)]
    exact hstatus
  · intro r q hR hn hq
    rw [hst.get_none hn] at hq
    exact hfits.accounted r q hR hq
  · intro r n q hR hn hq
    obtain ⟨x, hx, hstatus, hadvanced⟩ := hst.get_running hn
    cases hq.symm.trans hadvanced
    unfold afterSchedule
    rw [if_neg (by rw [hsync]; exact nofun)]
    have hacc := hfits.accounted r x hR hx
    have hlt := hacc.running hstatus
    have hfit := hfits.scheduled r n x hR (hst.tokens ▸ hn) hx
    rw [← hst.drafts] at hfit
    have hcomputed : (advance x n).numComputedTokens = x.numComputedTokens + n := rfl
    refine ⟨hstatus, hacc.placeholders, ?_, ?_, hfit⟩
    · rw [hcomputed, Int.add_sub_cancel]
      exact hacc.computed
    · rw [hcomputed, Int.add_sub_cancel]
      exact hlt

end steps

section update

variable {c : SchedulerConfig H} {q q' : Request H} {drafts generated newTokenIds : List Token}
variable {stopped : Bool}

theorem appendTokens_counts (c : SchedulerConfig H) (q : Request H) (tokenIds : List Token) :
    (appendTokens c q tokenIds).2.2.numComputedTokens = q.numComputedTokens ∧
      (appendTokens c q tokenIds).2.2.numOutputPlaceholders = q.numOutputPlaceholders := by
  induction tokenIds generalizing q with
  | nil => exact ⟨rfl, rfl⟩
  | cons tokenId tokenIds ih =>
    grind [Request.appendOutputTokenIds, Request.updateBlockHashes_eq, appendTokens]

theorem rollback_counts (h : Advanced q n drafts) (hdel : Delivers q drafts generated)
    (hgenerated : generated ≠ []) :
    (rollback q drafts.length generated.length).numComputedTokens =
        q.numTokens + generated.length - 1 ∧
      (rollback q drafts.length generated.length).numOutputPlaceholders = 0 := by
  obtain ⟨hcomputed, k, hk, hlen⟩ := hdel.resolve_left fun hnone => hgenerated hnone.1
  unfold rollback
  rw [h.placeholders]
  split
  · refine ⟨?_, h.placeholders⟩
    omega
  · dsimp only
    refine ⟨by omega, rfl⟩

theorem outcome_counts (hsync : c.asyncScheduling = false) (hn : 0 < n) (h : Advanced q n drafts)
    (hdel : Delivers q drafts generated)
    (hout : outcome c q drafts.length generated = (newTokenIds, stopped, q')) :
    0 ≤ q'.numComputedTokens ∧ q'.numOutputPlaceholders = 0 ∧
      (generated = [] → newTokenIds = [] ∧ stopped = false ∧
        q'.numComputedTokens = q.numComputedTokens ∧ q'.numComputedTokens < q'.numTokens) ∧
      (generated ≠ [] → q'.numComputedTokens = q.numTokens + generated.length - 1) ∧
      (generated ≠ [] → stopped = false → q'.numComputedTokens = q'.numTokens - 1) := by
  have hextends := (outcome_extends hout).1
  have htokens : q'.numTokens = q.numTokens + newTokenIds.length := by
    rw [hextends.request]
    exact length_append
  rcases eq_or_ne generated [] with rfl | hgenerated
  · have hq : q' = q ∧ newTokenIds = [] ∧ stopped = false := by
      unfold outcome rollback at hout
      rw [if_pos (Or.inr length_nil)] at hout
      cases hout
      exact ⟨rfl, rfl, rfl⟩
    obtain ⟨rfl, rfl, rfl⟩ := hq
    have hlt : q'.numComputedTokens < q'.numTokens := by
      rcases hdel with ⟨-, hlt⟩ | ⟨-, k, -, hlen⟩
      · exact hlt
      · cases hlen
    have hstart := h.start
    exact ⟨by omega, h.placeholders, fun _ => ⟨rfl, rfl, rfl, hlt⟩, fun hx => absurd rfl hx,
      fun hx => absurd rfl hx⟩
  · obtain ⟨hcomputed, hplaceholders⟩ := rollback_counts h hdel hgenerated
    obtain ⟨hkeptComputed, hkeptPlaceholders⟩ :=
      appendTokens_counts c (rollback q drafts.length generated.length) generated
    obtain ⟨rest, hrest, hall⟩ :=
      appendTokens_prefix c (rollback q drafts.length generated.length) generated
    unfold outcome at hout
    rw [if_neg hgenerated, if_pos hsync] at hout
    rw [hout] at hkeptComputed hkeptPlaceholders hrest hall
    dsimp only at hkeptComputed hkeptPlaceholders hrest hall
    have hpos := length_pos_iff.mpr hgenerated
    refine ⟨by omega, hkeptPlaceholders.trans hplaceholders, fun hx => absurd hx hgenerated,
      fun _ => hkeptComputed.trans hcomputed, fun _ hstop => ?_⟩
    rw [hall hstop, append_nil] at hrest
    rw [hkeptComputed, hcomputed, htokens, hrest]
    rfl

variable {R : ReqId → Prop} {s s' : Scheduler H} {out : SchedulerOutput}
variable {sampled : ModelRunnerOutput} {outputs : List EngineCoreOutput}

theorem NextInput.counts (hnext : NextInput c q q') :
    q'.numComputedTokens = q.numComputedTokens ∧
      q'.numOutputPlaceholders = q.numOutputPlaceholders := by
  cases hnext with
  | pause => exact ⟨rfl, rfl⟩
  | update rest update h =>
    obtain ⟨hcomputed, hplaceholders⟩ := updateAsSession_counts h
    exact ⟨hcomputed, hplaceholders⟩

theorem Advanced.handles (hsync : c.asyncScheduling = false) (hn : 0 < n)
    (h : R r → Advanced q n drafts) (hdel : R r → Delivers q drafts generated) :
    HandlesItem (fun r q => R r → Accounted q) (fun _ => True) c r q drafts.length generated := by
  intro newTokenIds stopped q' hout
  refine ⟨fun hgoes hR => ?_, fun _ _ q'' hnext hR => ?_, fun _ _ => trivial⟩
  · obtain ⟨hcomputed, hplaceholders, hnone, -, hsome⟩ :=
      outcome_counts hsync hn (h hR) (hdel hR) hout
    refine ⟨hcomputed, hplaceholders, fun _ => ?_⟩
    rcases eq_or_ne generated [] with hempty | hgenerated
    · exact (hnone hempty).2.2.2
    · have hlast := hsome hgenerated hgoes
      omega
  · obtain ⟨hcomputed, hplaceholders, -⟩ := outcome_counts hsync hn (h hR) (hdel hR) hout
    refine ⟨hnext.counts.1 ▸ hcomputed, hnext.counts.2.trans hplaceholders, fun hx => ?_⟩
    rcases hnext.status with hstatus | hstatus <;> cases hstatus.symm.trans hx

variable [DecidableEq H]

theorem MidStep.updateFromOutput (h : MidStep R out s)
    (hdel : ∀ r n q, R r → out.numScheduledTokens.get r = some n → 0 < n →
      s.requests r = some q → Delivers q (draftsOf out r) (sampled r))
    (hrun : s.updateFromOutput out sampled = .ok (outputs, s')) : Ready R s' := by
  have hqueued : Queued s' [] := by
    refine updateFromOutput_queued h.nodup (fun r hr q hq hstatus => absurd ?_ hstatus)
      h.queued hrun
    cases hn : out.numScheduledTokens.get r with
    | none => exact absurd hr (get_eq_none.mp hn)
    | some n => exact h.running r n q hn hq
  obtain ⟨hconfig, hrequests, -⟩ := updateFromOutput_handled h.nodup h.queued.unfinished
    (fun r q hn hq hR => h.accounted r q hR hn hq)
    (fun r n q hn hpos hq => Advanced.handles h.sync hpos (fun hR => h.advanced r n q hR hn hq)
      fun hR => hdel r n q hR hn hpos hq) hrun
  exact ⟨hqueued, by rw [hconfig]; exact h.sync, fun r q hR hq => hrequests r q hq hR⟩

end update

end LongCtxSpecDecode.Scheduler
