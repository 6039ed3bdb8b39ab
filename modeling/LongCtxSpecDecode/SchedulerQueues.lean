import LongCtxSpecDecode.SchedulerUpdates

/-!
# No request is lost

Every request the scheduler knows is in exactly one of its queues. The running requests are
those with status `RUNNING`. While `schedule` runs, requests that it skips are set aside.
-/

namespace LongCtxSpecDecode.Scheduler

open Library List Function OrderedDict

variable {H : Type}

/-- Every known request is unfinished and in one place: the running requests, the waiting
queue or set aside. -/
structure Queued (s : Scheduler H) (aside : List ReqId) : Prop where
  nodup : (s.running ++ (s.waiting ++ aside)).Nodup
  known : ∀ r, r ∈ s.running ++ (s.waiting ++ aside) ↔ ∃ q, s.requests r = some q
  running : ∀ r q, s.requests r = some q → (q.status = .running ↔ r ∈ s.running)
  unfinished : ∀ r q, s.requests r = some q → q.isFinished = false

variable {s s' : Scheduler H} {aside aside' : List ReqId} {r : ReqId} {q : Request H}

theorem Queued.perm (h : Queued s aside) (hrun : s'.running = s.running)
    (hwait : (s'.waiting ++ aside').Perm (s.waiting ++ aside)) (hreq : s'.requests = s.requests) :
    Queued s' aside' := by
  have hlists := hwait.append_left s.running
  refine ⟨?_, fun r => ?_, ?_, ?_⟩
  · rw [hrun]
    exact hlists.nodup_iff.mpr h.nodup
  · rw [hrun, hreq, hlists.mem_iff]
    exact h.known r
  · rw [hrun, hreq]
    exact h.running
  · rw [hreq]
    exact h.unfinished

theorem Queued.congr (h : Queued s aside) (hrun : s'.running = s.running)
    (hwait : s'.waiting = s.waiting) (hreq : s'.requests = s.requests) : Queued s' aside :=
  h.perm hrun (by rw [hwait]) hreq

variable {v : Option (Request H)}

theorem update_eq_some {f : ReqId → Option (Request H)} {r' : ReqId} {x : Request H}
    (hx : update f r v r' = some x) : (r' = r ∧ v = some x) ∨ (r' ≠ r ∧ f r' = some x) := by
  rcases eq_or_ne r' r with rfl | hr
  · rw [update_self] at hx
    exact Or.inl ⟨rfl, hx⟩
  · rw [update_of_ne hr] at hx
    exact Or.inr ⟨hr, hx⟩

variable {q' : Request H}

theorem Queued.move (h : Queued s aside) (hq : s.requests r = some q)
    (hreq : s'.requests = update s.requests r (some q')) (hfinished : q'.isFinished = false)
    (hperm : (s'.running ++ (s'.waiting ++ aside')).Perm (s.running ++ (s.waiting ++ aside)))
    (hstatus : q'.status = .running ↔ r ∈ s'.running)
    (hothers : ∀ r' ≠ r, (r' ∈ s'.running ↔ r' ∈ s.running)) : Queued s' aside' := by
  refine ⟨hperm.nodup_iff.mpr h.nodup, fun r' => ?_, fun r' x hx => ?_, fun r' x hx => ?_⟩
  · rw [hperm.mem_iff, h.known r', hreq]
    rcases eq_or_ne r' r with rfl | hr
    · rw [update_self]
      exact ⟨fun _ => ⟨q', rfl⟩, fun _ => ⟨q, hq⟩⟩
    · rw [update_of_ne hr]
  · rcases update_eq_some (hreq ▸ hx) with ⟨rfl, hx⟩ | ⟨hr, hx⟩
    · cases hx
      exact hstatus
    · exact (h.running r' x hx).trans (hothers r' hr).symm
  · rcases update_eq_some (hreq ▸ hx) with ⟨-, hx⟩ | ⟨-, hx⟩
    · cases hx
      exact hfinished
    · exact h.unfinished r' x hx

theorem Queued.setRequest (h : Queued s aside) (hq : s.requests r = some q)
    (hstatus : q'.status = .running ↔ q.status = .running) (hfinished : q'.isFinished = false) :
    Queued (s.setRequest r q') aside :=
  h.move hq rfl hfinished (Perm.refl _) (hstatus.trans (h.running r q hq)) fun _ _ => Iff.rfl

theorem Queued.remove (h : Queued s aside)
    (hreq : s'.requests = update s.requests r none)
    (hperm : (s.running ++ (s.waiting ++ aside)).Perm
      (r :: (s'.running ++ (s'.waiting ++ aside'))))
    (hothers : ∀ r' ≠ r, (r' ∈ s'.running ↔ r' ∈ s.running)) : Queued s' aside' := by
  obtain ⟨hnew, hnodup⟩ := nodup_cons.mp (hperm.nodup_iff.mp h.nodup)
  refine ⟨hnodup, fun r' => ?_, fun r' x hx => ?_, fun r' x hx => ?_⟩
  · rw [hreq]
    rcases eq_or_ne r' r with rfl | hr
    · rw [update_self]
      exact ⟨fun hmem => absurd hmem hnew, fun ⟨_, hx⟩ => by cases hx⟩
    · rw [update_of_ne hr, ← h.known r', hperm.mem_iff, mem_cons]
      exact ⟨Or.inr, fun hmem => hmem.resolve_left hr⟩
  · rcases update_eq_some (hreq ▸ hx) with ⟨-, hx⟩ | ⟨hr, hx⟩
    · cases hx
    · exact (h.running r' x hx).trans (hothers r' hr).symm
  · rcases update_eq_some (hreq ▸ hx) with ⟨-, hx⟩ | ⟨-, hx⟩
    · cases hx
    · exact h.unfinished r' x hx

theorem Queued.add (h : Queued s aside) (hnone : s.requests r = none)
    (hreq : s'.requests = update s.requests r (some q')) (hfinished : q'.isFinished = false)
    (hstatus : q'.status ≠ .running) (hrun : s'.running = s.running)
    (hwait : s'.waiting.Perm (r :: s.waiting)) : Queued s' aside := by
  have hnew : r ∉ s.running ++ (s.waiting ++ aside) := by
    rw [h.known r, hnone]
    rintro ⟨x, hx⟩
    cases hx
  have hperm : (s'.running ++ (s'.waiting ++ aside)).Perm
      (r :: (s.running ++ (s.waiting ++ aside))) := by
    rw [hrun]
    exact ((hwait.append_right aside).append_left s.running).trans perm_middle
  refine ⟨hperm.nodup_iff.mpr (nodup_cons.mpr ⟨hnew, h.nodup⟩), fun r' => ?_,
    fun r' x hx => ?_, fun r' x hx => ?_⟩
  · rw [hperm.mem_iff, mem_cons, h.known r', hreq]
    rcases eq_or_ne r' r with rfl | hr
    · rw [update_self]
      exact ⟨fun _ => ⟨q', rfl⟩, fun _ => Or.inl rfl⟩
    · rw [update_of_ne hr]
      exact ⟨fun hmem => hmem.resolve_left hr, Or.inr⟩
  · rw [hrun]
    rcases update_eq_some (hreq ▸ hx) with ⟨rfl, hx⟩ | ⟨-, hx⟩
    · cases hx
      exact ⟨fun hx => absurd hx hstatus, fun hmem => absurd (mem_append_left _ hmem) hnew⟩
    · exact h.running r' x hx
  · rcases update_eq_some (hreq ▸ hx) with ⟨-, hx⟩ | ⟨-, hx⟩
    · cases hx
      exact hfinished
    · exact h.unfinished r' x hx

theorem Queued.mapRequests (h : Queued s aside) {g : ReqId → Request H → Request H}
    (hstatus : ∀ r q, (g r q).status = q.status) (hrun : s'.running = s.running)
    (hwait : s'.waiting = s.waiting) (hreq : ∀ r, s'.requests r = (s.requests r).map (g r)) :
    Queued s' aside := by
  have hsome : ∀ r x, s'.requests r = some x →
      ∃ q, s.requests r = some q ∧ x.status = q.status := by
    intro r x hx
    rw [hreq r] at hx
    obtain ⟨q, hq, rfl⟩ := Option.map_eq_some_iff.mp hx
    exact ⟨q, hq, hstatus r q⟩
  refine ⟨?_, ?_, ?_, ?_⟩
  · rw [hrun, hwait]
    exact h.nodup
  · grind [Queued.known]
  · intro r x hx
    obtain ⟨q, hq, hxq⟩ := hsome r x hx
    rw [hrun, hxq]
    exact h.running r q hq
  · intro r x hx
    obtain ⟨q, hq, hxq⟩ := hsome r x hx
    unfold Request.isFinished
    rw [hxq]
    exact h.unfinished r q hq

section schedule

variable {st st' : ScheduleState H}

theorem preempts_queued {victim : ReqId} {kv : KVCacheManager H}
    (hpre : Preempts st st' victim q kv)
    (h : Queued st.scheduler st.skippedWaitingRequests) :
    Queued st'.scheduler st.skippedWaitingRequests := by
  have hrun := hpre.running_perm
  have hnodup : (victim :: st'.scheduler.running).Nodup :=
    hrun.nodup_iff.mp (nodup_append.mp h.nodup).1
  refine h.move hpre.known (by rw [hpre.scheduler]) rfl ?_ ?_ fun r' hr => ?_
  · -- the victim moves from the running requests to the front of the queue
    refine ((hpre.waiting.append_right _).append_left _).trans ?_
    refine perm_middle.trans ?_
    exact (hrun.append_right _).symm
  · exact ⟨fun hx => (by cases hx), fun hmem => absurd hmem (nodup_cons.mp hnodup).1⟩
  · rw [hrun.mem_iff, mem_cons]
    exact ⟨Or.inr, fun hmem => hmem.resolve_left hr⟩

theorem addPlaceholders_status (c : SchedulerConfig H) (n : Nat) (q : Request H) :
    (addPlaceholders c n q).status = q.status := by
  unfold addPlaceholders
  split <;> rfl

theorem restoreSkipped_queued (h : Queued st.scheduler st.skippedWaitingRequests) :
    Queued (restoreSkipped st).scheduler [] := by
  have hperm := st.scheduler.queuePrependAll_perm st.scheduler.waiting st.skippedWaitingRequests
  refine h.perm rfl ?_ rfl
  rw [append_nil]
  exact hperm.trans perm_append_comm

variable {out : SchedulerOutput}

theorem forScheduled_queued {f : ReqId → Int → Request H → Request H}
    (hnodup : (out.numScheduledTokens.keys).Nodup)
    (hf : ∀ r n q, (f r n q).status = q.status) (h : Queued s aside)
    (hrun : s.forScheduled out f = .ok s') : Queued s' aside := by
  obtain rfl := forScheduled_eq hnodup hrun
  refine h.mapRequests (g := fun r q => (out.numScheduledTokens.get r).elim q (f r · q)) ?_ rfl rfl
    fun r => ?_
  · intro r q
    cases out.numScheduledTokens.get r with
    | none => rfl
    | some n => exact hf r n q
  · dsimp only
    cases out.numScheduledTokens.get r with
    | none => exact Option.map_id'.symm
    | some n => rfl

theorem updateAfterSchedule_queued (hnodup : (out.numScheduledTokens.keys).Nodup)
    (h : Queued s aside) (hrun : s.updateAfterSchedule out = .ok s') : Queued s' aside := by
  obtain ⟨s₁, hs₁, hrun⟩ := of_bind hrun
  have h₁ : Queued { s₁ with finishedReqIds := [] } aside := by
    refine Queued.congr (s := s₁) ?_ rfl rfl rfl
    refine forScheduled_queued hnodup ?_ h hs₁
    exact fun _ _ _ => rfl
  dsimp only at hrun
  split at hrun
  · exact forScheduled_queued hnodup (fun _ _ _ => addPlaceholders_status _ _ _) h₁ hrun
  · cases hrun
    exact h₁

variable [DecidableEq H]

theorem loopStep_queued (hstep : LoopStep st st')
    (h : Queued st.scheduler st.skippedWaitingRequests) :
    Queued st'.scheduler st'.skippedWaitingRequests := by
  cases hstep with
  | skipRunning => exact h
  | noSpaceRunning | noSpaceWaiting => exact h.congr rfl rfl rfl
  | preempt hpre =>
    obtain ⟨request, kv, hspec⟩ := preemptOne_spec hpre
    have hskip : st'.skippedWaitingRequests = st.skippedWaitingRequests := by
      rw [hspec.state]
      unfold unschedule
      split <;> rfl
    rw [hskip]
    exact preempts_queued hspec h
  | @run r request n newBlocks kv hturn hfresh hkv =>
    have hsame : Queued (st.withKv kv).scheduler st.skippedWaitingRequests :=
      h.congr rfl rfl rfl
    have hfinished : { request with specTokenIds := [] }.isFinished = false :=
      h.unfinished r request hturn.known
    exact hsame.setRequest hturn.known Iff.rfl hfinished
  | loras hloras =>
    obtain ⟨hsched, hstate⟩ := recordLoras_eq hloras
    rw [hstate]
    exact h
  | @setAside r hhead =>
    have hpop := st.scheduler.queuePop_perm st.scheduler.waiting hhead
    obtain ⟨q, hq⟩ := (h.known r).mp (mem_append_right _
      (mem_append_left _ (mem_of_mem_head? hhead)))
    have hsame : (skipWaiting st r).scheduler.requests =
        update st.scheduler.requests r (some q) :=
      (update_eq_self_iff.mpr hq.symm).symm
    refine h.move hq hsame (h.unfinished r q hq) ?_ (h.running r q hq) fun _ _ => Iff.rfl
    refine Perm.append_left _ ?_
    refine ((queuePrepend_perm _ _ r).append_left _).trans ?_
    exact perm_middle.trans (hpop.append_right _).symm
  | grammar hknown hstatus =>
    refine h.setRequest hknown ?_ rfl
    rw [hstatus]
    exact ⟨fun hx => (by cases hx), fun hx => (by cases hx)⟩
  | @start _ r request hits numLocal numComputed n newBlocks kv hturn hkv hadmit =>
    have hpop := st.scheduler.queuePop_perm st.scheduler.waiting hturn.head
    obtain ⟨news, resumed, rfl, -⟩ := scheduleWaitingRequest_spec hadmit
    refine h.move hturn.known rfl rfl ?_ ?_ fun r' hr => ?_
    · change ((st.scheduler.running ++ [r]) ++ (_ ++ _)).Perm _
      rw [append_assoc]
      exact ((hpop.append_right _).append_left _).symm
    · exact ⟨fun _ => mem_append_right _ (mem_singleton.mpr rfl), fun _ => rfl⟩
    · change r' ∈ st.scheduler.running ++ [r] ↔ _
      rw [mem_append, mem_singleton]
      exact ⟨fun hmem => hmem.resolve_right hr, Or.inl⟩

theorem schedule_queued {grammarReady : ReqId → Bool} (h : Queued s [])
    (hrun : s.schedule grammarReady = .ok (out, s')) : Queued s' [] := by
  have hrunning := (nodup_append.mp h.nodup).1
  have hnodup := schedule_keys_nodup hrunning hrun
  obtain ⟨st, hsteps, -, hupdate⟩ := schedule_spec hrunning hrun
  have hloops : Queued st.scheduler st.skippedWaitingRequests :=
    hsteps.induction
      (fun _ _ => loopStep_queued) h
  refine updateAfterSchedule_queued hnodup ?_ hupdate
  exact (restoreSkipped_queued hloops).congr rfl rfl rfl

end schedule

variable {sampled : ModelRunnerOutput}

section update

variable {u u' : UpdateState H} {todo : List ReqId}

theorem filter_insert_perm {queue stopped : List ReqId} (hqueue : queue.Nodup) (hr : r ∈ queue)
    (hnew : r ∉ stopped) :
    (queue.filter (· ∉ stopped)).Perm (r :: queue.filter (· ∉ stopped.insert r)) := by
  have herase : queue.filter (· ∉ stopped.insert r) = (queue.filter (· ∉ stopped)).erase r := by
    rw [(hqueue.filter _).erase_eq_filter, filter_filter]
    refine filter_congr fun x _ => ?_
    by_cases hx : x = r <;> simp [hx]
  rw [herase]
  exact perm_cons_erase (mem_filter.mpr ⟨hr, by simpa using hnew⟩)

/-- The queues without the requests that stopped. -/
def settled (u : UpdateState H) : Scheduler H :=
  { u.scheduler with
    running := u.scheduler.running.filter (· ∉ u.stoppedRunningReqs)
    waiting := u.scheduler.waiting.filter (· ∉ u.stoppedPreemptedReqs) }

/-- The loop of `update_from_output`, when the requests `todo` are still to come. -/
structure Settles (s : Scheduler H) (todo : List ReqId) (u : UpdateState H) : Prop where
  queued : Queued (settled u) []
  running : u.scheduler.running.Nodup
  waiting : u.scheduler.waiting.Nodup
  config : u.scheduler.config = s.config
  requests : ∀ r ∈ todo, u.scheduler.requests r = s.requests r
  fresh : ∀ r ∈ todo, r ∉ u.stoppedRunningReqs ∧ r ∉ u.stoppedPreemptedReqs

theorem Settles.mem_running (h : Settles s (r :: todo) u) (hq : u.scheduler.requests r = some q)
    (hrun : q.status = .running) : r ∈ u.scheduler.running ∧ r ∉ u.scheduler.waiting := by
  obtain ⟨-, hnew⟩ := h.fresh r (mem_cons_self ..)
  have hmem : r ∈ (settled u).running := (h.queued.running r q hq).mp hrun
  refine ⟨(mem_filter.mp hmem).1, fun hwait => ?_⟩
  have hwait : r ∈ (settled u).waiting := mem_filter.mpr ⟨hwait, by simpa using hnew⟩
  exact (nodup_append.mp h.queued.nodup).2.2 r hmem r (mem_append_left _ hwait) rfl

theorem Settles.mem_waiting (h : Settles s (r :: todo) u) (hq : u.scheduler.requests r = some q)
    (hrun : q.status ≠ .running) : r ∈ u.scheduler.waiting := by
  rcases mem_append.mp ((h.queued.known r).mpr ⟨q, hq⟩) with hmem | hmem
  · exact absurd ((h.queued.running r q hq).mpr hmem) hrun
  · rw [append_nil] at hmem
    exact (mem_filter.mp hmem).1

theorem Settles.rest (h : Settles s (r :: todo) u) (hnew : r ∉ todo)
    (hqueued : Queued (settled u') []) (hrunning : u'.scheduler.running = u.scheduler.running)
    (hwaiting : u'.scheduler.waiting.Nodup) (hconfig : u'.scheduler.config = u.scheduler.config)
    (hrequests : u'.scheduler.requests = update u.scheduler.requests r v)
    (hstopped : ∀ r' ≠ r, (r' ∈ u'.stoppedRunningReqs → r' ∈ u.stoppedRunningReqs) ∧ (r' ∈
      u'.stoppedPreemptedReqs → r' ∈ u.stoppedPreemptedReqs)) : Settles s todo u' := by
  have hne : ∀ r' ∈ todo, r' ≠ r := fun r' hr' heq => hnew (heq ▸ hr')
  refine ⟨hqueued, hrunning ▸ h.running, hwaiting, hconfig.trans h.config, fun r' hr' => ?_,
    fun r' hr' => ?_⟩
  · rw [hrequests, update_of_ne (hne r' hr')]
    exact h.requests r' (mem_cons_of_mem _ hr')
  · grind [Settles.fresh]

theorem markStopped_stopped (r' : ReqId) (hr : r' ≠ r) (status : RequestStatus) :
    (r' ∈ (markStopped u r status).stoppedRunningReqs → r' ∈ u.stoppedRunningReqs) ∧
      (r' ∈ (markStopped u r status).stoppedPreemptedReqs → r' ∈ u.stoppedPreemptedReqs) := by
  unfold markStopped
  split <;> simp [hr]

theorem Settles.stopped_perm (h : Settles s (r :: todo) u) (hq : u.scheduler.requests r = some q) :
    ((settled u).running ++ ((settled u).waiting ++ [])).Perm
      (r :: (u.scheduler.running.filter (· ∉ (markStopped u r q.status).stoppedRunningReqs) ++
        (u.scheduler.waiting.filter (· ∉ (markStopped u r q.status).stoppedPreemptedReqs) ++
          []))) := by
  obtain ⟨hnewRun, hnewWait⟩ := h.fresh r (mem_cons_self ..)
  unfold markStopped
  split
  · rename_i hrun
    have hperm := filter_insert_perm h.running (h.mem_running hq hrun).1 hnewRun
    exact hperm.append_right _
  · rename_i hrun
    have hperm := filter_insert_perm h.waiting (h.mem_waiting hq hrun) hnewWait
    exact ((hperm.append_right _).append_left _).trans perm_middle

theorem stopped_running_iff (r' : ReqId) (hr : r' ≠ r) (status : RequestStatus) :
    r' ∈ u.scheduler.running.filter (· ∉ (markStopped u r status).stoppedRunningReqs) ↔
      r' ∈ (settled u).running := by
  unfold markStopped settled
  split <;> simp [hr]

variable [DecidableEq H]

theorem itemStep_settles {numDraftTokens : Nat} {generated : List Token}
    (h : Settles s (r :: todo) u) (hnew : r ∉ todo) (hq : u.scheduler.requests r = some q)
    (hok : q.status ≠ .running → sessionContinues q →
      (outcome u.scheduler.config q numDraftTokens generated).2.1 = false)
    (hstep : ItemStep u r q numDraftTokens generated u') : Settles s todo u' := by
  cases hstep with
  | @keep kv q' newTokenIds hout hkv =>
    have hstatus := (outcome_extends hout).2 rfl
    have hunfinished : q'.isFinished = false := by
      unfold Request.isFinished
      rw [hstatus]
      exact h.queued.unfinished r q hq
    refine h.rest hnew ?_ rfl h.waiting rfl rfl fun _ _ => ⟨id, id⟩
    have hset : Queued ((settled u).setRequest r q') [] :=
      h.queued.setRequest hq (by rw [hstatus]) hunfinished
    exact hset.congr rfl rfl rfl
  | @finish kv kv' q' newTokenIds hout hsession hkv hfree =>
    refine h.rest hnew ?_ rfl h.waiting rfl rfl fun r' hr => markStopped_stopped r' hr _
    exact h.queued.remove rfl (h.stopped_perm hq) fun r' hr => stopped_running_iff r' hr q.status
  | @next kv q' q'' newTokenIds waiting numWaiting hout hsession hkv hnext hperm =>
    have hrun : q.status = .running := by
      by_contra hrun
      have hstopped := hok hrun hsession
      rw [hout] at hstopped
      cases hstopped
    obtain ⟨-, hnotWaiting⟩ := h.mem_running hq hrun
    obtain ⟨-, hnewWait⟩ := h.fresh r (mem_cons_self ..)
    have hwaiting : waiting.Nodup :=
      hperm.nodup_iff.mpr (nodup_cons.mpr ⟨hnotWaiting, h.waiting⟩)
    have hnotRunning : q''.status ≠ .running ∧ q''.isFinished = false := by
      unfold Request.isFinished
      rcases hnext.status with hstatus | hstatus <;> rw [hstatus] <;> exact ⟨nofun, rfl⟩
    refine h.rest hnew ?_ rfl hwaiting rfl rfl
      fun r' hr => markStopped_stopped r' hr _
    refine h.queued.move hq rfl hnotRunning.2 ?_ ?_ fun r' hr => stopped_running_iff r' hr q.status
    · -- the request is filtered out of the running requests, not out of the queue
      refine Perm.trans ?_ (h.stopped_perm hq).symm
      have hfilter : (waiting.filter (· ∉ (markStopped u r q.status).stoppedPreemptedReqs)).Perm
          (r :: u.scheduler.waiting.filter
            (· ∉ (markStopped u r q.status).stoppedPreemptedReqs)) := by
        have hkeep : r ∉ (markStopped u r q.status).stoppedPreemptedReqs := by
          unfold markStopped
          rw [if_pos hrun]
          exact hnewWait
        refine (hperm.filter _).trans ?_
        rw [filter_cons_of_pos (by simpa using hkeep)]
      exact ((hfilter.append_right _).append_left _).trans perm_middle
    · refine ⟨fun hx => absurd hx hnotRunning.1, fun hmem => ?_⟩
      have hgone : r ∈ (markStopped u r q.status).stoppedRunningReqs := by
        unfold markStopped
        rw [if_pos hrun]
        exact mem_insert_self
      have hkept := (mem_filter.mp hmem).2
      exact absurd hgone (by simpa using hkept)

/-- No session that goes on stops while it is out of the running queue. -/
def StopsInPlace (s : Scheduler H) (out : SchedulerOutput) (sampled : ModelRunnerOutput) : Prop :=
  ∀ r ∈ out.numScheduledTokens.keys, ∀ q ∈ s.requests r,
    q.status ≠ .running → sessionContinues q →
      (outcome s.config q ((out.scheduledSpecDecodeTokens.get r).getD []).length
        (sampled r)).2.1 = false

instance (s : Scheduler H) (out : SchedulerOutput) (sampled : ModelRunnerOutput) :
    Decidable (StopsInPlace s out sampled) :=
  inferInstanceAs (Decidable (∀ r ∈ out.numScheduledTokens.keys,
    ∀ q ∈ s.requests r, _ → _ → _))

end update

variable {requestIds : List ReqId}

section removal

theorem removeAll_eq_filter {queue removed : List ReqId} (h : queue.Nodup) :
    removeAll queue removed = queue.filter (· ∉ removed) := by
  unfold removeAll
  split
  · simp
  · rename_i item
    rw [h.erase_eq_filter]
    refine filter_congr fun x _ => ?_
    by_cases hx : x = item <;> simp [hx]
  · rfl

theorem removeStopped_queued {u : UpdateState H} (h : Settles s [] u) :
    Queued (removeStopped u) [] := by
  have hrunning : (removeStopped u).running = (settled u).running := by
    unfold removeStopped
    split <;> exact removeAll_eq_filter h.running
  have hwaiting : (removeStopped u).waiting.Perm (settled u).waiting := by
    unfold removeStopped settled
    split
    · rename_i hnone
      rw [hnone]
      simp
    · exact queueRemove_perm _ _ _
  have hrequests : (removeStopped u).requests = (settled u).requests := by
    unfold removeStopped
    split <;> rfl
  exact h.queued.perm hrunning (hwaiting.append_right _) hrequests

theorem Queued.discard (h : Queued s []) (gone : List ReqId)
    (hrun : s'.running = s.running.filter (· ∉ gone))
    (hwait : s'.waiting.Perm (s.waiting.filter (· ∉ gone)))
    (hreq : ∀ r, s'.requests r = if r ∈ gone then none else s.requests r) : Queued s' [] := by
  have hlists : (s'.running ++ (s'.waiting ++ [])).Perm
      ((s.running ++ (s.waiting ++ [])).filter (· ∉ gone)) := by
    rw [hrun, append_nil, append_nil, filter_append]
    exact hwait.append_left _
  have hkept : ∀ r x, s'.requests r = some x → r ∉ gone ∧ s.requests r = some x := by
    intro r x hx
    rw [hreq r] at hx
    split at hx
    · cases hx
    · rename_i hr
      exact ⟨hr, hx⟩
  refine ⟨hlists.nodup_iff.mpr (h.nodup.filter _), fun r => ?_, fun r x hx => ?_, fun r x hx => ?_⟩
  · rw [hlists.mem_iff, mem_filter, h.known r, hreq r]
    by_cases hr : r ∈ gone <;> simp [hr]
  · obtain ⟨hr, hx⟩ := hkept r x hx
    rw [hrun, h.running r x hx]
    simp [hr]
  · exact h.unfinished r x (hkept r x hx).2

variable {status : RequestStatus}

theorem finishRequest_fold {valid : List ReqId} (h : valid.foldlM (finishRequest status) s = .ok s')
    :
    s'.config = s.config ∧ s'.running = s.running ∧ s'.waiting = s.waiting ∧
      ∀ r, s'.requests r = if r ∈ valid then none else s.requests r := by
  induction valid generalizing s with
  | nil =>
    cases h
    exact ⟨rfl, rfl, rfl, fun r => rfl⟩
  | cons first valid ih =>
    obtain ⟨s₁, hs₁, h⟩ := of_bind h
    obtain ⟨q, -, hs₁⟩ := of_bind hs₁
    obtain ⟨kv, -, rfl⟩ := freeRequest_spec hs₁
    obtain ⟨hconfig, hrun, hwait, hreq⟩ := ih h
    refine ⟨hconfig, hrun, hwait, fun r => ?_⟩
    rw [hreq r]
    rcases eq_or_ne r first with rfl | hr
    · simp
    · simp [setRequest, hr]

theorem finishRequests_queued (h : Queued s [])
    (hrun : s.finishRequests requestIds status = .ok s') :
    Queued s' [] := by
  obtain ⟨_, -, hrun⟩ := of_bind hrun
  obtain ⟨-, hrunning, hwaiting, hrequests⟩ := finishRequest_fold hrun
  have hlists := nodup_append.mp h.nodup
  refine h.discard (s.validRequests requestIds) (hrunning.trans ?_) ?_ hrequests
  · -- a running request is removed from the running requests
    refine (removeAll_eq_filter hlists.1).trans (filter_congr fun r hr => ?_)
    obtain ⟨q, hq⟩ := (h.known r).mp (mem_append_left _ hr)
    have hstatus := (h.running r q hq).mpr hr
    simp [hasStatus, hq, hstatus]
  · -- and another one from the queue
    rw [hwaiting]
    have hcongr : ∀ r ∈ s.waiting, decide (r ∉ (s.validRequests requestIds).filter
        fun r => !s.hasStatus .running r) = decide (r ∉ s.validRequests requestIds) := by
      intro r hr
      have hmem : r ∈ s.waiting ++ [] := mem_append_left _ hr
      obtain ⟨q, hq⟩ := (h.known r).mp (mem_append_right _ hmem)
      have hstatus : q.status ≠ .running := fun hx =>
        hlists.2.2 r ((h.running r q hq).mp hx) r hmem rfl
      simp [hasStatus, hq, hstatus]
    rw [← filter_congr hcongr]
    split
    · rename_i hnone
      rw [hnone]
      simp
    · exact queueRemove_perm _ _ _

variable [DecidableEq H]

theorem updateFromOutput_queued {out : SchedulerOutput} {outputs : List EngineCoreOutput}
    (hnodup : (out.numScheduledTokens.keys).Nodup) (hok : StopsInPlace s out sampled)
    (h : Queued s []) (hrun : s.updateFromOutput out sampled = .ok (outputs, s')) :
    Queued s' [] := by
  have hlists := nodup_append.mp h.nodup
  have hstart : Settles s out.numScheduledTokens.keys { scheduler := s } := by
    refine ⟨h.congr ?_ ?_ rfl, hlists.1, ?_, rfl, fun _ _ => rfl,
      fun _ _ => ⟨not_mem_nil, not_mem_nil⟩⟩
    · simp [settled]
    · simp [settled]
    · simpa using hlists.2.1
  obtain ⟨u, hu, -, rfl⟩ := updateFromOutput_induction (Settles s)
    (fun r todo u hu _ => ⟨hu.queued, hu.running, hu.waiting, hu.config,
      fun r hr => hu.requests r (mem_cons_of_mem _ hr),
      fun r hr => hu.fresh r (mem_cons_of_mem _ hr)⟩)
    (fun r n todo u u' q hnew hn _ hu hq _ hstep => by
      refine itemStep_settles hu hnew hq (fun hrun hsession => ?_) hstep
      rw [hu.config]
      have hknown : s.requests r = some q := (hu.requests r (mem_cons_self ..)).symm.trans hq
      exact hok r (mem_keys_of_get hn) q hknown hrun hsession) hnodup hstart hrun
  exact removeStopped_queued hu

end removal

section calls

theorem updateDraftTokenIds_queued (validateTokens : ReqId → List Token → List Token)
    (draftTokenIds : List (ReqId × List Token)) (h : Queued s []) :
    Queued (s.updateDraftTokenIds validateTokens draftTokenIds) [] := by
  induction draftTokenIds generalizing s with
  | nil =>
    exact h
  | cons item draftTokenIds ih =>
    refine ih ?_
    unfold updateDraft
    split
    · exact h
    · rename_i q hq
      have hunfinished := h.unfinished item.1 q hq
      split
      · exact h
      · split
        · exact h.setRequest hq Iff.rfl hunfinished
        · exact h.setRequest hq Iff.rfl hunfinished

theorem updateRequestAsSession_queued {update : StreamingUpdate} (h : Queued s [])
    (hq : s.requests r = some q) (hstatus : q.status ≠ .running)
    (hrun : s.updateRequestAsSession r q update = .ok s') : Queued s' [] := by
  obtain ⟨q', hq', hrun⟩ := of_bind hrun
  cases hrun
  have hwaiting := updateAsSession_status hq'
  have hset : Queued (s.setRequest r q') [] := by
    refine h.setRequest hq ⟨fun hx => ?_, fun hx => absurd hx hstatus⟩ ?_
    · rw [hwaiting] at hx
      cases hx
    · unfold Request.isFinished
      rw [hwaiting]
      rfl
  exact hset.congr rfl rfl rfl

theorem addRequest_queued {e : EngineCoreRequest} {hasher : Option (Request H → List H)}
    (h : Queued s []) (hrun : s.addRequest (Request.fromEngineCoreRequest hasher e) = .ok s') :
    Queued s' [] := by
  have hnewStatus : ∀ q : Request H, q.status = (Request.fromEngineCoreRequest hasher e).status →
      q.status ≠ .running ∧ q.isFinished = false := by
    intro q hq
    unfold Request.isFinished
    rw [hq]
    unfold Request.fromEngineCoreRequest Request.updateBlockHashes
    cases hasher <;> cases e.useStructuredOutput <;> exact ⟨nofun, rfl⟩
  generalize Request.fromEngineCoreRequest hasher e = request at hrun hnewStatus
  unfold addRequest at hrun
  split at hrun
  · rename_i q hq
    split at hrun
    · split at hrun
      · cases hrun
      · cases hrun
        exact h.setRequest hq Iff.rfl (h.unfinished _ q hq)
    · grind [updateRequestAsSession_queued, finishRequests_queued]
  · rename_i hnone
    cases hrun
    have hqueued : ∀ q : Request H, q.requestId = request.requestId → q.status = request.status →
        Queued { s.setRequest q.requestId q with
          waiting := (s.setRequest q.requestId q).queueAdd s.waiting q.requestId } [] := by
      intro q hid hq
      obtain ⟨hstatus, hfinished⟩ := hnewStatus q hq
      exact h.add (hid ▸ hnone) rfl hfinished hstatus rfl (queueAdd_perm _ _ _)
    split
    · exact hqueued _ rfl rfl
    · exact hqueued _ rfl rfl

theorem preemptLast_queued (h : Queued s []) (hlast : s.running.getLast? = some r)
    (hrun : s.preemptLast r = .ok s') :
    Queued s' [] ∧ s'.running = s.running.dropLast := by
  obtain ⟨q, kv, hknown, -, heq, hwaiting⟩ := preemptLast_spec hrun
  have hrunning : s'.running = s.running.dropLast := by rw [heq]
  have hsplit : s.running = s'.running ++ [r] := by
    rw [hrunning, dropLast_append_getLast? r hlast]
  have hnodup := (nodup_append.mp h.nodup).1
  rw [hsplit] at hnodup
  have hgone : r ∉ s'.running := fun hmem =>
    (nodup_append.mp hnodup).2.2 r hmem r (mem_singleton.mpr rfl) rfl
  refine ⟨?_, hrunning⟩
  refine h.move hknown (by rw [heq]) rfl ?_ ?_ fun r' hr => ?_
  · rw [hsplit, append_assoc]
    exact (hwaiting.append_right []).append_left _
  · exact ⟨fun hx => (by cases hx), fun hmem => absurd hmem hgone⟩
  · rw [hsplit, mem_append, mem_singleton]
    exact ⟨Or.inl, fun hmem => hmem.resolve_right hr⟩

theorem preemptAll_queued (h : Queued s []) (hrunning : s.running = requestIds.reverse)
    (hrun : requestIds.foldlM preemptLast s = .ok s') : Queued s' [] := by
  induction requestIds generalizing s with
  | nil =>
    cases hrun
    exact h
  | cons r rest ih =>
    grind [getLast?_concat, preemptLast_queued, bind_eq_ok]

theorem resetPrefixCache_queued {resetRunningRequests successful : Bool} (h : Queued s [])
    (hrun : s.resetPrefixCache resetRunningRequests = .ok (successful, s')) : Queued s' [] := by
  obtain ⟨s₁, hs₁, hrun⟩ := of_bind hrun
  have h₁ : Queued s₁ [] := by
    split at hs₁
    · obtain ⟨s₂, hs₂, hs₁⟩ := of_bind hs₁
      cases hs₁
      have h₂ := preemptAll_queued h (reverse_reverse _).symm hs₂
      exact h₂.congr rfl rfl rfl
    · cases hs₁
      exact h
  dsimp only at hrun
  split at hrun
  · cases hrun
  · cases hrun
    exact h₁.congr rfl rfl rfl

end calls

section runs

theorem start_queued (config : SchedulerConfig H) (kv : KVCacheManager H) :
    Queued (start config kv).scheduler [] := by
  refine ⟨nodup_nil, fun r => ?_, fun r q hq => ?_, fun r q hq => ?_⟩
  · exact ⟨nofun, fun ⟨_, h⟩ => (by cases h)⟩
  · cases hq
  · cases hq

variable [DecidableEq H]

/-- When the scheduler takes the output of the oldest step in flight, it stops no session that
is preempted and has more input to come. -/
def SessionsStopInPlace (x : RunState H) : Op → Prop
  | .updateFromOutput sampled => ∀ out ∈ x.inFlight.head?, StopsInPlace x.scheduler out sampled
  | _ => True

instance (x : RunState H) (op : Op) : Decidable (SessionsStopInPlace x op) :=
  match op with
  | .updateFromOutput sampled =>
    inferInstanceAs (Decidable (∀ out ∈ x.inFlight.head?, StopsInPlace x.scheduler out sampled))
  | .addRequest _ | .schedule _ | .updateDraftTokenIds _ _ | .finishRequests _ _
  | .resetPrefixCache _ => isTrue trivial

theorem perform_queued {x x' : RunState H} {op : Op} (hop : SessionsStopInPlace x op)
    (hflight : ∀ out ∈ x.inFlight, (out.numScheduledTokens.keys).Nodup)
    (h : Queued x.scheduler []) (hrun : perform x op = .ok x') :
    Queued x'.scheduler [] ∧
      ∀ out ∈ x'.inFlight, (out.numScheduledTokens.keys).Nodup := by
  cases op with
  | addRequest request =>
    obtain ⟨s, hs, hrun⟩ := of_bind hrun
    cases hrun
    exact ⟨addRequest_queued h hs, hflight⟩
  | schedule grammarReady =>
    obtain ⟨⟨out, s⟩, hs, hrun⟩ := of_bind hrun
    cases hrun
    refine ⟨schedule_queued h hs, fun out' hout => ?_⟩
    rcases mem_append.mp hout with hout | hout
    · exact hflight out' hout
    · rw [mem_singleton.mp hout]
      exact schedule_keys_nodup (nodup_append.mp h.nodup).1 hs
  | updateFromOutput sampled =>
    cases hqueue : x.inFlight with
    | nil =>
      simp only [perform, hqueue] at hrun
      cases hrun
    | cons out inFlight =>
      simp only [perform, hqueue] at hrun
      obtain ⟨⟨outputs, s⟩, hs, hrun⟩ := of_bind hrun
      cases hrun
      rw [hqueue] at hflight
      have hstops : StopsInPlace x.scheduler out sampled := hop out (by rw [hqueue]; rfl)
      exact ⟨updateFromOutput_queued (hflight out (mem_cons_self ..)) hstops h hs,
        fun out' hout => hflight out' (mem_cons_of_mem _ hout)⟩
  | updateDraftTokenIds validateTokens draftTokenIds =>
    cases hrun
    exact ⟨updateDraftTokenIds_queued validateTokens draftTokenIds h, hflight⟩
  | finishRequests requestIds finishedStatus =>
    obtain ⟨s, hs, hrun⟩ := of_bind hrun
    cases hrun
    exact ⟨finishRequests_queued h hs, hflight⟩
  | resetPrefixCache resetRunningRequests =>
    obtain ⟨⟨successful, s⟩, hs, hrun⟩ := of_bind hrun
    cases hrun
    exact ⟨resetPrefixCache_queued h hs, hflight⟩

theorem Reachable.queued {x : RunState H} (hx : Reachable SessionsStopInPlace x) :
    Queued x.scheduler [] ∧
      ∀ out ∈ x.inFlight, (out.numScheduledTokens.keys).Nodup := by
  induction hx with
  | init h => exact ⟨start_queued _ _, nofun⟩
  | step _ hop h ih => exact perform_queued hop ih.2 ih.1 h

/-- If no preempted session is stopped while it has input to come, every known request is
unfinished and in exactly one of the queues, once. A request that is finished is in none. -/
theorem request_in_one_queue {x : RunState H} (hx : Reachable SessionsStopInPlace x) (r : ReqId) :
    (∀ q, x.scheduler.requests r = some q → q.isFinished = false ∧
      ((x.scheduler.running.count r = 1 ∧ x.scheduler.waiting.count r = 0) ∨
        (x.scheduler.running.count r = 0 ∧ x.scheduler.waiting.count r = 1))) ∧
    (x.scheduler.requests r = none →
      x.scheduler.running.count r = 0 ∧ x.scheduler.waiting.count r = 0) := by
  have h := hx.queued.1
  have hnodup := h.nodup
  have hknown := h.known r
  refine ⟨fun q hq => ⟨h.unfinished r q hq, ?_⟩, fun hnone => ?_⟩
  · grind
  · grind

end runs

section streaming

def streamingConfig : SchedulerConfig Nat :=
  { maxNumRunningReqs := 2, maxNumScheduledTokens := 4, maxModelLen := 8, blockSize := 1
    asyncScheduling := true, coordinator := .noPrefixCache }

def shortRequest (requestId : ReqId) (maxTokens : Nat) (resumable : Bool) : EngineCoreRequest :=
  { requestId, promptTokenIds := some [1], samplingParams := { maxTokens }, resumable }

/-- Two requests have a block each. The next step of the first preempts the second, whose
output of the step before arrives when it waits. -/
def preemptingCalls (resumable : Bool) : List Op :=
  [.addRequest (shortRequest 0 8 false), .addRequest (shortRequest 1 1 resumable),
    .schedule fun _ => true, .schedule fun _ => true, .updateFromOutput fun _ => [5]]

def attentionSpec : KVCacheSpec := ⟨1, .fullAttention, Nat.one_pos, trivial⟩

/-- The second request is not a session: it finishes. -/
theorem request_in_one_queue_finished :
    ∃ x : RunState Nat, Reachable SessionsStopInPlace x ∧ x.scheduler.requests 1 = none ∧
      x.scheduler.running.count 1 = 0 ∧ x.scheduler.waiting.count 1 = 0 := by
  have hrun : (runCalls SessionsStopInPlace streamingConfig [attentionSpec] 3 1 false
      (preemptingCalls false)).any (fun x => (x.scheduler.requests 1).isNone) = true := by
    decide +kernel
  obtain ⟨x, hx, hnone⟩ := (Option.any_eq_true _ _).mp hrun
  have hreach := reachable_of_runCalls hx
  have hnone := Option.isNone_iff_eq_none.mp hnone
  exact ⟨x, hreach, hnone, (request_in_one_queue hreach 1).2 hnone⟩

/-- The second request is a session: it is in no queue any more. -/
theorem request_lost :
    ∃ x : RunState Nat, Reachable (fun _ _ => True) x ∧
      ∃ q, x.scheduler.requests 1 = some q ∧ q.isFinished = false ∧
        x.scheduler.running.count 1 = 0 ∧ x.scheduler.waiting.count 1 = 0 := by
  have hrun : (runCalls (fun _ _ => True) streamingConfig [attentionSpec] 3 1 false
      (preemptingCalls true)).any (fun x => (x.scheduler.requests 1).any fun q =>
        q.isFinished = false ∧ x.scheduler.running.count 1 = 0 ∧
          x.scheduler.waiting.count 1 = 0) = true := by
    decide +kernel
  obtain ⟨x, hx, hlost⟩ := (Option.any_eq_true _ _).mp hrun
  obtain ⟨q, hq, hlost⟩ := (Option.any_eq_true _ _).mp hlost
  exact ⟨x, reachable_of_runCalls hx, q, hq, of_decide_eq_true hlost⟩

end streaming

end LongCtxSpecDecode.Scheduler
