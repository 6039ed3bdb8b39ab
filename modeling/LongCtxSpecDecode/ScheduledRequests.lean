import LongCtxSpecDecode.SchedulerQueues

/-!
# The requests that a call of `schedule` schedules

They run, each is scheduled once, and each is listed once among the new, the resumed and the
running requests of the output.
-/

namespace LongCtxSpecDecode.Scheduler

open Library List Function OrderedDict

variable {H : Type}

/-- The request `q'` is `q` as a call of `schedule` may leave it: with the same tokens, and
untouched if it waits for input. -/
structure Rescheduled (q q' : Request H) : Prop where
  request : q' = { q with
    specTokenIds := q'.specTokenIds
    numComputedTokens := q'.numComputedTokens
    numOutputPlaceholders := q'.numOutputPlaceholders
    isPrefillChunk := q'.isPrefillChunk
    numCachedTokens := q'.numCachedTokens
    numPreemptions := q'.numPreemptions
    status := q'.status }
  streaming : q'.status = .waitingForStreamingReq → q' = q

theorem Rescheduled.refl (q : Request H) : Rescheduled q q := ⟨rfl, fun _ => rfl⟩

theorem Rescheduled.trans {q q' q'' : Request H} (h : Rescheduled q q') (h' : Rescheduled q' q'') :
    Rescheduled q q'' := by
  refine ⟨?_, fun hstatus => ?_⟩
  · rw [h'.request, h.request]
  · have heq := h'.streaming hstatus
    rw [heq] at hstatus ⊢
    exact h.streaming hstatus

def RescheduledAll (s s' : Scheduler H) : Prop :=
  ∀ r q', s'.requests r = some q' → ∃ q, s.requests r = some q ∧ Rescheduled q q'

theorem RescheduledAll.refl (s : Scheduler H) : RescheduledAll s s :=
  fun _ q' hq' => ⟨q', hq', .refl q'⟩

theorem RescheduledAll.trans {s s' s'' : Scheduler H} (h : RescheduledAll s s')
    (h' : RescheduledAll s' s'') : RescheduledAll s s'' := by
  intro r q'' hq''
  obtain ⟨q', hq', hlast⟩ := h' r q'' hq''
  obtain ⟨q, hq, hfirst⟩ := h r q' hq'
  exact ⟨q, hq, hfirst.trans hlast⟩

variable {r : ReqId}

theorem RescheduledAll.update {s s' : Scheduler H} {q q' : Request H} (hq : s.requests r = some q)
    (hreq : s'.requests = update s.requests r (some q')) (h : Rescheduled q q') :
    RescheduledAll s s' := by
  intro r' x hx
  rw [hreq] at hx
  rcases update_eq_some hx with ⟨rfl, hnew⟩ | ⟨-, hold⟩
  · cases hnew
    exact ⟨q, hq, h⟩
  · exact ⟨x, hold, .refl x⟩

section loops

variable {st st' : ScheduleState H}

/-- The loops of `schedule`: the scheduled requests run and are listed once. -/
structure ScheduledRun (st : ScheduleState H) : Prop where
  queued : Queued st.scheduler st.skippedWaitingRequests
  nodup : (st.numScheduledTokens.keys).Nodup
  running : ∀ r ∈ st.numScheduledTokens.keys,
    ∃ q, st.scheduler.requests r = some q ∧ q.status = .running
  listed : (st.numScheduledTokens.keys).Perm
    (st.scheduledRunningReqs ++ (st.scheduledNewReqs ++ st.scheduledResumedReqs))

theorem ScheduledRun.notMem (h : ScheduledRun st) {q : Request H}
    (hq : st.scheduler.requests r = some q) (hstatus : q.status ≠ .running) :
    r ∉ st.numScheduledTokens.keys := by
  intro hmem
  obtain ⟨x, hx, hrun⟩ := h.running r hmem
  cases hq.symm.trans hx
  exact hstatus hrun

theorem filter_ne_append_perm {keys A B : List ReqId} {v : ReqId} (hnodup : keys.Nodup)
    (hperm : keys.Perm (A ++ B)) (hv : v ∈ A) :
    (keys.filter (· ≠ v)).Perm (A.erase v ++ B) := by
  have hlists := hperm.nodup_iff.mp hnodup
  obtain ⟨hA, -, hdisjoint⟩ := nodup_append.mp hlists
  have hleft : A.filter (· ≠ v) = A.erase v := by
    rw [hA.erase_eq_filter]
    refine filter_congr fun x _ => ?_
    by_cases hx : x = v <;> simp [hx]
  have hright : B.filter (· ≠ v) = B :=
    filter_eq_self.mpr fun x hx => by
      simpa using fun heq : x = v => hdisjoint v hv x hx heq.symm
  have hfilter := hperm.filter (· ≠ v)
  rw [filter_append, hleft, hright] at hfilter
  exact hfilter

theorem ScheduledRun.running_update (h : ScheduledRun st) {q' : Request H}
    (hreq : st'.scheduler.requests = update st.scheduler.requests r (some q'))
    (hkeys : ∀ r' ∈ st'.numScheduledTokens.keys, r' ≠ r → r' ∈ st.numScheduledTokens.keys)
    (hself : r ∈ st'.numScheduledTokens.keys → q'.status = .running) :
    ∀ r' ∈ st'.numScheduledTokens.keys,
      ∃ q, st'.scheduler.requests r' = some q ∧ q.status = .running := by
  intro r' hr'
  rw [hreq]
  rcases eq_or_ne r' r with rfl | hne
  · exact ⟨q', update_self .., hself hr'⟩
  · obtain ⟨q, hq, hrun⟩ := h.running r' (hkeys r' hr' hne)
    exact ⟨q, (update_of_ne hne ..).trans hq, hrun⟩

variable [DecidableEq H]

theorem loopStep_rescheduled (hstep : LoopStep st st')
    (hqueued : Queued st.scheduler st.skippedWaitingRequests) :
    RescheduledAll st.scheduler st'.scheduler := by
  cases hstep with
  | skipRunning | noSpaceRunning | noSpaceWaiting | setAside => exact .refl _
  | preempt hpre =>
    obtain ⟨q, kv, hspec⟩ := preemptOne_spec hpre
    exact .update hspec.known (by rw [hspec.scheduler]) ⟨rfl, fun hx => (by cases hx)⟩
  | @run r q n newBlocks kv hturn hfresh hkv =>
    have hrunning := (hqueued.running r q hturn.known).mpr hturn.mem
    refine .update hturn.known rfl ⟨rfl, fun hx => ?_⟩
    cases hrunning.symm.trans hx
  | loras hloras =>
    rw [(recordLoras_eq hloras).1]
    exact .refl _
  | grammar hknown hstatus =>
    exact .update hknown rfl ⟨rfl, fun hx => (by cases hx)⟩
  | @start _ r q hits numLocal numComputed n newBlocks kv hturn hkv hstart =>
    obtain ⟨news, resumed, rfl, -⟩ := scheduleWaitingRequest_spec hstart
    exact .update hturn.known rfl ⟨rfl, fun hx => (by cases hx)⟩

theorem loopStep_scheduledRun (hstep : LoopStep st st') (h : ScheduledRun st) :
    ScheduledRun st' := by
  have hqueued := loopStep_queued hstep h.queued
  cases hstep with
  | skipRunning | noSpaceRunning | noSpaceWaiting | setAside =>
    exact ⟨hqueued, h.nodup, h.running, h.listed⟩
  | @preempt _ victim hpre hgone =>
    obtain ⟨q, kv, hspec⟩ := preemptOne_spec hpre
    have hlists : (st'.numScheduledTokens.keys).Nodup ∧
        (∀ r ∈ st'.numScheduledTokens.keys,
          r ∈ st.numScheduledTokens.keys) ∧
        (st'.numScheduledTokens.keys).Perm
          (st'.scheduledRunningReqs ++ (st'.scheduledNewReqs ++ st'.scheduledResumedReqs)) := by
      rw [hspec.state]
      unfold unschedule
      split
      · rename_i hcase
        rw [keys_pop]
        exact ⟨h.nodup.filter _, fun r hr => (mem_filter.mp hr).1,
          filter_ne_append_perm h.nodup h.listed hcase.2⟩
      · exact ⟨h.nodup, fun r hr => hr, h.listed⟩
    exact ⟨hqueued, hlists.1,
      h.running_update (by rw [hspec.scheduler]) (fun r hr _ => hlists.2.1 r hr)
        (fun hmem => absurd hmem hgone), hlists.2.2⟩
  | @run r q n newBlocks kv hturn hfresh hkv =>
    have hrunning := (h.queued.running r q hturn.known).mpr hturn.mem
    have hkeys : keys (scheduleRunningRequest (st.withKv kv) r q n
        newBlocks).numScheduledTokens = st.numScheduledTokens.keys ++ [r] :=
      keys_set_of_notMem hfresh n
    refine ⟨hqueued, keys_set_nodup h.nodup _ _,
      h.running_update rfl (fun r' hr' hne => ?_) (fun _ => hrunning), ?_⟩
    · rw [hkeys, mem_append, mem_singleton] at hr'
      exact hr'.resolve_right hne
    · rw [hkeys]
      refine (h.listed.append_right [r]).trans ?_
      change Perm _ ((st.scheduledRunningReqs ++ [r]) ++
        (st.scheduledNewReqs ++ st.scheduledResumedReqs))
      rw [append_assoc, append_assoc st.scheduledRunningReqs]
      exact perm_append_comm.append_left _
  | loras hloras =>
    obtain ⟨-, heq⟩ := recordLoras_eq hloras
    rw [heq] at hqueued ⊢
    exact ⟨hqueued, h.nodup, h.running, h.listed⟩
  | @grammar r q hknown hstatus =>
    have hnot := h.notMem hknown (by rw [hstatus]; decide)
    exact ⟨hqueued, h.nodup,
      h.running_update rfl (fun r' hr' _ => hr') (fun hmem => absurd hmem hnot), h.listed⟩
  | @start _ r q hits numLocal numComputed n newBlocks kv hturn hkv hstart =>
    obtain ⟨news, resumed, rfl, hstatus, hnews⟩ := scheduleWaitingRequest_spec hstart
    have hkeys : keys (st.numScheduledTokens.set r n) = st.numScheduledTokens.keys ++ [r] :=
      keys_set_of_notMem (h.notMem hturn.known hstatus) n
    refine ⟨hqueued, keys_set_nodup h.nodup _ _,
      h.running_update rfl (fun r' hr' hne => ?_) (fun _ => rfl), ?_⟩
    · change r' ∈ keys (st.numScheduledTokens.set r n) at hr'
      rw [hkeys, mem_append, mem_singleton] at hr'
      exact hr'.resolve_right hne
    · have hlisted := h.listed.append_right [r]
      rw [← hkeys, append_assoc] at hlisted
      exact hlisted.trans (hnews.append_left _)

end loops

section output

variable {s s' : Scheduler H} {out : SchedulerOutput}

/-- A scheduled request after `_update_after_schedule`. -/
def afterSchedule (c : SchedulerConfig H) (out : SchedulerOutput) (r : ReqId) (n : Int)
    (q : Request H) : Request H :=
  if c.asyncScheduling then
    addPlaceholders c ((out.scheduledSpecDecodeTokens.get r).getD []).length
      (advance q n)
  else
    advance q n

theorem updateAfterSchedule_eq (hnodup : (out.numScheduledTokens.keys).Nodup)
    (h : s.updateAfterSchedule out = .ok s') :
    s' = { s with
      finishedReqIds := []
      requests := fun r =>
        match out.numScheduledTokens.get r with
        | none => s.requests r
        | some n => (s.requests r).map (afterSchedule s.config out r n) } := by
  obtain ⟨s₁, hs₁, h⟩ := of_bind h
  obtain rfl := forScheduled_eq hnodup hs₁
  dsimp only at h
  split at h
  · rename_i hasync
    obtain rfl := forScheduled_eq hnodup h
    refine congrArg (fun f => { s with finishedReqIds := [], requests := f }) (funext fun r => ?_)
    dsimp only
    cases out.numScheduledTokens.get r with
    | none => rfl
    | some n =>
      rw [Option.map_map]
      refine congrArg (fun f => (s.requests r).map f) (funext fun q => ?_)
      exact (if_pos hasync).symm
  · rename_i hsync
    cases h
    refine congrArg (fun f => { s with finishedReqIds := [], requests := f }) (funext fun r => ?_)
    cases out.numScheduledTokens.get r with
    | none => rfl
    | some n =>
      refine congrArg (fun f => (s.requests r).map f) (funext fun q => ?_)
      exact (if_neg hsync).symm

theorem afterSchedule_rescheduled (c : SchedulerConfig H) (out : SchedulerOutput) (r : ReqId)
    (n : Int) {q : Request H} (hq : q.status = .running) :
    Rescheduled q (afterSchedule c out r n q) := by
  have hstatus : (afterSchedule c out r n q).status = .running := by
    unfold afterSchedule
    split
    · exact (addPlaceholders_status ..).trans hq
    · exact hq
  refine ⟨?_, fun hx => ?_⟩
  · unfold afterSchedule addPlaceholders
    split
    · split <;> rfl
    · rfl
  · cases hstatus.symm.trans hx

theorem ScheduledRun.initial (h : Queued s []) : ScheduledRun (initialState s) :=
  ⟨h, nodup_nil, nofun, Perm.refl _⟩

variable [DecidableEq H]

/-- What a call of `schedule` does, by the state `st` at the end of its loops. -/
structure Schedules (s : Scheduler H) (out : SchedulerOutput) (s' : Scheduler H)
    (st : ScheduleState H) : Prop where
  steps : LoopSteps (initialState s) st
  run : ScheduledRun st
  tokens : out.numScheduledTokens = st.numScheduledTokens
  drafts : out.scheduledSpecDecodeTokens = st.scheduledSpecDecodeTokens
  output : makeSchedulerOutput (restoreSkipped st) = .ok out
  result : s' = { (restoreSkipped st).scheduler with
    prevStepScheduledReqIds := out.numScheduledTokens.keys
    finishedReqIds := []
    requests := fun r =>
      match out.numScheduledTokens.get r with
      | none => st.scheduler.requests r
      | some n => (st.scheduler.requests r).map (afterSchedule st.scheduler.config out r n) }

theorem schedule_schedules {grammarReady : ReqId → Bool} (h : Queued s [])
    (hrun : s.schedule grammarReady = .ok (out, s')) : ∃ st, Schedules s out s' st := by
  have hrunning := (nodup_append.mp h.nodup).1
  have hnodup := schedule_keys_nodup hrunning hrun
  obtain ⟨st, hsteps, hout, hupdate⟩ := schedule_spec hrunning hrun
  obtain ⟨htokens, hdrafts, -⟩ := makeSchedulerOutput_spec hout
  exact ⟨st, hsteps, hsteps.induction (fun _ _ => loopStep_scheduledRun) (.initial h), htokens,
    hdrafts, hout, updateAfterSchedule_eq hnodup hupdate⟩

variable {st : ScheduleState H}

theorem Schedules.get_running (h : Schedules s out s' st) {n : Int}
    (hn : out.numScheduledTokens.get r = some n) :
    ∃ q, st.scheduler.requests r = some q ∧ q.status = .running ∧
      s'.requests r = some (afterSchedule st.scheduler.config out r n q) := by
  obtain ⟨q, hq, hrun⟩ := h.run.running r (mem_keys_of_get (h.tokens ▸ hn))
  refine ⟨q, hq, hrun, ?_⟩
  rw [h.result]
  dsimp only
  rw [hn, hq]
  rfl

theorem Schedules.get_none (h : Schedules s out s' st) (hn : out.numScheduledTokens.get r = none) :
    s'.requests r = st.scheduler.requests r := by
  rw [h.result]
  dsimp only
  rw [hn]

theorem LoopSteps.rescheduled {st st' : ScheduleState H} (h : LoopSteps st st')
    (hrun : ScheduledRun st) : RescheduledAll st.scheduler st'.scheduler := by
  have hboth : ScheduledRun st' ∧ RescheduledAll st.scheduler st'.scheduler :=
    h.induction (P := fun st' => ScheduledRun st' ∧ RescheduledAll st.scheduler st'.scheduler)
      (fun _ _ hstep hprev => ⟨loopStep_scheduledRun hstep hprev.1,
        hprev.2.trans (loopStep_rescheduled hstep hprev.1.queued)⟩) ⟨hrun, .refl _⟩
  exact hboth.2

theorem Schedules.rescheduled (h : Schedules s out s' st) (hs : Queued s []) :
    RescheduledAll s s' := by
  intro r q' hq'
  have hloops := h.steps.rescheduled (.initial hs)
  cases hn : out.numScheduledTokens.get r with
  | none =>
    rw [h.get_none hn] at hq'
    exact hloops r q' hq'
  | some n =>
    obtain ⟨x, hx, hrun, hadvanced⟩ := h.get_running hn
    cases hq'.symm.trans hadvanced
    obtain ⟨q, hq, hres⟩ := hloops r x hx
    exact ⟨q, hq, hres.trans (afterSchedule_rescheduled _ _ _ _ hrun)⟩

/-- In every reachable state, the output of `schedule` has the data of each scheduled request
once, of no other request, and each of them runs. -/
theorem schedule_lists_once {x : RunState H} (hx : Reachable SessionsStopInPlace x)
    {grammarReady : ReqId → Bool} (hrun : x.scheduler.schedule grammarReady = .ok (out, s')) :
    out.numScheduledTokens.keys.Nodup ∧
      (out.scheduledNewReqs.map (·.reqId) ++ out.scheduledCachedReqs.map (·.reqId)).Perm
        out.numScheduledTokens.keys ∧
      ∀ r ∈ out.numScheduledTokens.keys, r ∈ s'.running := by
  have hqueued := hx.queued.1
  obtain ⟨st, hst⟩ := schedule_schedules hqueued hrun
  obtain ⟨-, -, hnews, running, resumed, hrunning, hresumed, hcached⟩ :=
    makeSchedulerOutput_spec hst.output
  have hcachedIds : ∀ {resumed ids ds},
      mapM (makeCachedRequestData (restoreSkipped st) resumed) ids = .ok ds →
        ids = ds.map CachedRequestData.reqId := fun h =>
          ExceptLoop.eq_map_of_mapM h fun r d hd => by
    obtain ⟨_, -, hd⟩ := of_bind hd
    obtain ⟨_, -, hd⟩ := of_bind hd
    cases hd
    rfl
  have hnewIds := ExceptLoop.eq_map_of_mapM (f := NewRequestData.reqId) hnews fun r d hd => by
    obtain ⟨_, -, hd⟩ := of_bind hd
    cases hd
    rfl
  refine ⟨hst.tokens ▸ hst.run.nodup, ?_, fun r hr => ?_⟩
  · rw [hst.tokens, hcached, map_append, ← hnewIds, ← hcachedIds hrunning, ← hcachedIds hresumed]
    refine Perm.trans ?_ hst.run.listed.symm
    exact perm_append_comm_assoc ..
  · cases hn : out.numScheduledTokens.get r with
    | none => exact absurd hr (get_eq_none.mp hn)
    | some n =>
      obtain ⟨q, -, hstatus, hq⟩ := hst.get_running hn
      refine ((schedule_queued hqueued hrun).running r _ hq).mp ?_
      unfold afterSchedule
      split
      · exact (addPlaceholders_status ..).trans hstatus
      · exact hstatus

/-- The second step of request 0 takes the block of request 2. Then request 0 is aborted and
request 3 arrives. -/
def resumingCalls : List Op :=
  [.addRequest (promptOf 0 4), .addRequest (promptOf 1 1), .addRequest (promptOf 2 1),
    .schedule fun _ => true, .updateFromOutput fun _ => [5], .schedule fun _ => true,
    .updateFromOutput fun _ => [5], .finishRequests [0] .finishedAborted,
    .addRequest (promptOf 3 1)]
where
  promptOf (requestId : ReqId) (n : Nat) : EngineCoreRequest :=
    { requestId, promptTokenIds := some (replicate n 1), samplingParams := { maxTokens := 8 } }

/-- The next step runs request 1, resumes request 2 and starts request 3. -/
theorem schedule_lists_once_resumed : ∃ (x : RunState Nat) (out : SchedulerOutput)
    (s' : Scheduler Nat), Reachable SessionsStopInPlace x ∧
      x.scheduler.schedule (fun _ => true) = .ok (out, s') ∧
      out.scheduledNewReqs.map (·.reqId) = [3] ∧
      out.scheduledCachedReqs.map (fun d => (d.reqId, d.resumed)) = [(1, false), (2, true)] ∧
      (3 :: out.scheduledCachedReqs.map CachedRequestData.reqId).Perm out.numScheduledTokens.keys ∧
      ∀ r ∈ out.numScheduledTokens.keys, r ∈ s'.running := by
  have hcalls : (runCalls SessionsStopInPlace
      ({ maxNumRunningReqs := 3, maxNumScheduledTokens := 8, maxModelLen := 8, blockSize := 4
         coordinator := .noPrefixCache } : SchedulerConfig Nat)
      [⟨4, .fullAttention, Nat.succ_pos 3, trivial⟩] 4 4 false resumingCalls).any
        (fun x => (x.scheduler.schedule fun _ => true).toOption.any fun result =>
        result.1.scheduledNewReqs.map (·.reqId) = [3] ∧
          result.1.scheduledCachedReqs.map (fun d => (d.reqId, d.resumed)) =
            [(1, false), (2, true)]) = true := by
    decide +kernel
  obtain ⟨x, hx, hout⟩ := (Option.any_eq_true _ _).mp hcalls
  obtain ⟨⟨out, s'⟩, hok, hlists⟩ := (Option.any_eq_true _ _).mp hout
  obtain ⟨hnew, hcached⟩ := of_decide_eq_true hlists
  have hx := reachable_of_runCalls hx
  have hrun := eq_ok_of_toOption hok
  obtain ⟨-, hperm, hrunning⟩ := schedule_lists_once hx hrun
  rw [hnew] at hperm
  exact ⟨x, out, s', hx, hrun, hnew, hcached, hperm, hrunning⟩

end output

end LongCtxSpecDecode.Scheduler
