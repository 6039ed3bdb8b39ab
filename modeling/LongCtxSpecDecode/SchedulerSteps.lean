import LongCtxSpecDecode.Scheduler

/-!
# What one call of `schedule` can do

The loops of `schedule` are taken apart into single steps. A property of the local state that
every step keeps holds at the end of the loops.
-/

namespace LongCtxSpecDecode.Scheduler

open Library List Function OrderedDict

variable {H : Type}

/-- The arguments of `allocate_slots` for a running request. -/
def runningArgs (c : SchedulerConfig H) (request : Request H) (numNewTokens : Int) :
    KVCacheManager.AllocateArgs H :=
  { request, numNewTokens, numLookaheadTokens := c.numLookaheadTokens }

/-- The arguments of `allocate_slots` for a waiting request. -/
def waitingArgs (c : SchedulerConfig H) (request : Request H) (numNewTokens : Int)
    (newComputedBlocks : KVCacheBlocks) (numNewLocalComputedTokens : Int) :
    KVCacheManager.AllocateArgs H :=
  { request
    numNewTokens
    numNewComputedTokens := numNewLocalComputedTokens
    newComputedBlocks
    numLookaheadTokens := if request.numComputedTokens = 0 then 0 else c.numLookaheadTokens }

/-- A running request that is scheduled with `numNewTokens` tokens. -/
structure RunningTurn (st : ScheduleState H) (r : ReqId) (request : Request H)
    (numNewTokens : Int) : Prop where
  mem : r ∈ st.scheduler.running
  known : st.scheduler.requests r = some request
  tokens : ∃ tokenBudget > 0,
    numNewTokens = numNewRunningTokens st.scheduler.config request tokenBudget
  nonzero : numNewTokens ≠ 0
  notReached : reachedMaxTokens request = false

/-- The head of the waiting queue is tried. -/
structure WaitingTurn (st : ScheduleState H) (r : ReqId) (request : Request H)
    (newComputedBlocks : KVCacheBlocks)
    (numNewLocalComputedTokens numComputedTokens numNewTokens : Int) : Prop where
  head : st.scheduler.waiting.head? = some r
  known : st.scheduler.requests r = some request
  computed : st.scheduler.waitingComputed request =
    .ok (newComputedBlocks, numNewLocalComputedTokens, numComputedTokens)
  tokens : numNewWaitingTokens st.scheduler.config request numNewLocalComputedTokens
    numComputedTokens st.tokenBudget = .ok (some numNewTokens)

variable {s s' : Scheduler H} {r : ReqId} {request : Request H} {st : ScheduleState H}
  {out : SchedulerOutput}

theorem getRequest_eq_ok : s.getRequest r = .ok request ↔ s.requests r = some request := by
  unfold getRequest
  cases s.requests r <;> simp

section queue

variable (s : Scheduler H) (queue : List ReqId)

theorem queueAdd_perm (r : ReqId) : (s.queueAdd queue r).Perm (r :: queue) := by
  unfold queueAdd
  split
  · exact perm_append_singleton r queue
  · exact Heapq.heappush_perm queue r

theorem queuePrepend_perm (r : ReqId) : (s.queuePrepend queue r).Perm (r :: queue) := by
  unfold queuePrepend
  split
  · exact Perm.refl _
  · exact Heapq.heappush_perm queue r

theorem queueRemove_perm (removed : List ReqId) :
    (s.queueRemove queue removed).Perm (queue.filter (· ∉ removed)) := by
  unfold queueRemove
  split
  · exact Perm.refl _
  · exact Heapq.heapify_perm _

theorem queuePop_perm {r : ReqId} (hhead : queue.head? = some r) :
    queue.Perm (r :: ((s.queuePop queue).map Prod.snd).getD []) := by
  obtain ⟨rest, rfl⟩ := head?_eq_some_iff.mp hhead
  unfold queuePop
  split
  · exact Perm.refl _
  · grind [Heapq.heappop, Heapq.heappop_perm]

theorem queueItems_perm (fuel : Nat) (hfuel : queue.length ≤ fuel) :
    (s.queueItems fuel queue).Perm queue := by
  induction fuel generalizing queue with
  | zero =>
    rw [eq_nil_of_length_eq_zero (Nat.le_zero.mp hfuel)]
    exact Perm.refl _
  | succ fuel ih =>
    unfold queueItems
    cases hpop : Heapq.heappop s.requestLt queue with
    | none =>
      cases queue with
      | nil => exact Perm.refl _
      | cons first rest =>
        unfold Heapq.heappop at hpop
        dsimp only at hpop
        split at hpop <;> cases hpop
    | some popped =>
      obtain ⟨-, hperm⟩ := Heapq.heappop_perm hpop
      have hlen := hperm.length_eq
      rw [length_cons] at hlen
      exact (Perm.cons _ (ih popped.2 (by omega))).trans hperm.symm

theorem queuePrependAll_perm (requests : List ReqId) :
    (s.queuePrependAll queue requests).Perm (requests ++ queue) := by
  unfold queuePrependAll
  split
  · exact (reverse_perm requests).append_right queue
  · have hpush : ∀ items queue : List ReqId,
        (items.foldl (Heapq.heappush s.requestLt) queue).Perm (items ++ queue) := by
      intro items
      induction items with
      | nil => exact fun queue => Perm.refl queue
      | cons item items ih =>
        intro queue
        refine (ih _).trans ?_
        refine ((Heapq.heappush_perm queue item).append_left items).trans ?_
        exact perm_middle
    exact (hpush _ queue).trans ((s.queueItems_perm requests _ le_rfl).append_right queue)

end queue

section preempt

variable {s s' : Scheduler H} {r : ReqId}

theorem preemptRequest_spec (h : s.preemptRequest r = .ok s') :
    ∃ request kv, s.requests r = some request ∧ request.status = .running ∧
      s.kvCacheManager.free r = .ok kv ∧
      s' = { s with
        kvCacheManager := kv
        requests := update s.requests r (some (asPreempted request))
        waiting := s'.waiting } ∧
      s'.waiting.Perm (r :: s.waiting) := by
  obtain ⟨request, hget, h⟩ := of_bind h
  obtain ⟨_, hreq, h⟩ := of_bind h
  obtain ⟨kv, hkv, h⟩ := of_bind h
  cases h
  exact ⟨request, kv, getRequest_eq_ok.mp hget, require_eq_ok.mp hreq, hkv, rfl,
    queuePrepend_perm _ _ _⟩

theorem preemptLast_spec (h : s.preemptLast r = .ok s') :
    ∃ request kv, s.requests r = some request ∧ request.status = .running ∧
      s' = { s with
        kvCacheManager := kv
        running := s.running.dropLast
        requests := update s.requests r (some (discardLatest (asPreempted request)))
        waiting := s'.waiting } ∧
      s'.waiting.Perm (r :: s.waiting) := by
  obtain ⟨s₁, hs₁, h⟩ := of_bind h
  obtain ⟨request', hget, h⟩ := of_bind h
  obtain ⟨request, kv, hknown, hstatus, -, heq, hwaiting⟩ := preemptRequest_spec hs₁
  have hrequest : request' = asPreempted request := by
    have hx := getRequest_eq_ok.mp hget
    rw [heq] at hx
    dsimp only at hx
    rw [update_self] at hx
    exact (Option.some.inj hx).symm
  cases h
  refine ⟨request, kv, hknown, hstatus, ?_, hwaiting⟩
  rw [hrequest]
  unfold setRequest
  rw [heq]
  rw [update_idem]

theorem lowerPriority_eq (a b : ReqId) : s.lowerPriority a b = a ∨ s.lowerPriority a b = b := by
  unfold lowerPriority
  split
  · split
    · exact Or.inr rfl
    · exact Or.inl rfl
  · exact Or.inl rfl

theorem lowestPriority_mem (first : ReqId) (rest : List ReqId) :
    s.lowestPriority first rest ∈ first :: rest := by
  induction rest generalizing first with
  | nil =>
    exact mem_singleton.mpr rfl
  | cons next rest ih =>
    rcases mem_cons.mp (ih (s.lowerPriority first next)) with heq | hmem
    · change s.lowestPriority (s.lowerPriority first next) rest ∈ _
      rw [heq]
      rcases s.lowerPriority_eq first next with h | h
      · rw [h]
        exact mem_cons_self ..
      · rw [h]
        exact mem_cons_of_mem _ (mem_cons_self ..)
    · exact mem_cons_of_mem _ (mem_cons_of_mem _ hmem)

theorem withoutVictim_append {victim : ReqId} (hpolicy : s.config.policy = .fcfs)
    (h : s.preemptionVictim = .ok victim) : s.withoutVictim victim ++ [victim] = s.running := by
  unfold preemptionVictim at h
  unfold withoutVictim
  rw [hpolicy] at h ⊢
  cases hlast : s.running.getLast? with
  | none =>
    rw [hlast] at h
    cases h
  | some last =>
    rw [hlast] at h
    cases h
    exact dropLast_append_getLast? victim hlast

theorem withoutVictim_perm {victim : ReqId} (h : s.preemptionVictim = .ok victim) :
    s.running.Perm (victim :: s.withoutVictim victim) := by
  cases hpolicy : s.config.policy with
  | fcfs =>
    rw [← withoutVictim_append hpolicy h]
    exact perm_append_singleton _ _
  | priority =>
    unfold preemptionVictim at h
    unfold withoutVictim
    grind [lowestPriority_mem]

/-- A running request is preempted. -/
structure Preempts (st st' : ScheduleState H) (victim : ReqId) (request : Request H)
    (kv : KVCacheManager H) : Prop where
  chosen : st.scheduler.preemptionVictim = .ok victim
  known : st.scheduler.requests victim = some request
  status : request.status = .running
  free : st.scheduler.kvCacheManager.free victim = .ok kv
  scheduler : st'.scheduler = { st.scheduler with
    kvCacheManager := kv
    running := st.scheduler.withoutVictim victim
    requests := update st.scheduler.requests victim (some (asPreempted request))
    waiting := st'.scheduler.waiting }
  waiting : st'.scheduler.waiting.Perm (victim :: st.scheduler.waiting)
  state : st' = { unschedule st victim with
    scheduler := st'.scheduler
    preemptedReqs := st.preemptedReqs ++ [victim] }

theorem unschedule_dropVictim (st : ScheduleState H) (victim : ReqId) :
    unschedule (dropVictim st victim) victim =
      { unschedule st victim with scheduler := (dropVictim st victim).scheduler } := by
  unfold unschedule dropVictim
  split <;> rfl

theorem unschedule_preemptedReqs (st : ScheduleState H) (victim : ReqId) :
    (unschedule st victim).preemptedReqs = st.preemptedReqs := by
  unfold unschedule
  split <;> rfl

theorem preemptOne_spec {st st' : ScheduleState H} {victim : ReqId}
    (h : preemptOne st = .ok (victim, st')) : ∃ request kv, Preempts st st' victim request kv := by
  obtain ⟨victim', hvictim, h⟩ := of_bind h
  rw [unschedule_dropVictim] at h
  obtain ⟨s', hpre, h⟩ := of_bind h
  cases h
  obtain ⟨request, kv, hknown, hstatus, hfree, hs', hwaiting⟩ := preemptRequest_spec hpre
  refine ⟨request, kv, hvictim, hknown, hstatus, hfree, hs', hwaiting, ?_⟩
  rw [unschedule_preemptedReqs]

variable {st st' : ScheduleState H} {victim : ReqId} {request : Request H}
variable {kv : KVCacheManager H}

theorem Preempts.running_perm (h : Preempts st st' victim request kv) :
    st.scheduler.running.Perm (victim :: st'.scheduler.running) := by
  rw [h.scheduler]
  exact withoutVictim_perm h.chosen

theorem Preempts.requests_ne (h : Preempts st st' victim request kv) {r : ReqId}
    (hr : r ≠ victim) : st'.scheduler.requests r = st.scheduler.requests r := by
  rw [h.scheduler]
  exact update_of_ne hr ..

theorem Preempts.config (h : Preempts st st' victim request kv) :
    st'.scheduler.config = st.scheduler.config := by
  rw [h.scheduler]

theorem RunningTurn.of_preempts {r : ReqId} {q : Request H} {n : Int}
    (hturn : RunningTurn st r q n) (h : Preempts st st' victim request kv) (hr : r ≠ victim) :
    RunningTurn st' r q n := by
  refine ⟨?_, ?_, ?_, hturn.nonzero, hturn.notReached⟩
  · rcases mem_cons.mp (h.running_perm.mem_iff.mp hturn.mem) with heq | hmem
    · exact absurd heq hr
    · exact hmem
  · rw [h.requests_ne hr]
    exact hturn.known
  · rw [h.config]
    exact hturn.tokens

theorem RunningTurn.withKv {r : ReqId} {q : Request H} {n : Int} (hturn : RunningTurn st r q n)
    (kv : KVCacheManager H) : RunningTurn (st.withKv kv) r q n :=
  ⟨hturn.mem, hturn.known, hturn.tokens, hturn.nonzero, hturn.notReached⟩

end preempt

section runningLoop

theorem mem_take_erase {l : List ReqId} {x v : ReqId} (hne : x ≠ v) (i : Nat) (hx : x ∈ l.take i) :
    x ∈ (l.erase v).take i := by
  induction l generalizing i with
  | nil =>
    simp at hx
  | cons y l ih =>
    cases i with
    | zero =>
      simp at hx
    | succ i =>
      grind

theorem mem_take_erase_pred {l : List ReqId} {x v : ReqId} (hne : x ≠ v) (i : Nat)
    (hv : v ∈ l.take (i + 1)) (hx : x ∈ l.take (i + 1)) : x ∈ (l.erase v).take i := by
  induction l generalizing i with
  | nil =>
    simp at hx
  | cons y l ih =>
    rw [take_succ_cons, mem_cons] at hx hv
    rcases eq_or_ne y v with rfl | hy
    · rw [erase_cons_head]
      exact hx.resolve_left hne
    · have hv := hv.resolve_left (Ne.symm hy)
      cases i with
      | zero =>
        simp at hv
      | succ i =>
        rw [erase_cons_tail (by simpa using hy), take_succ_cons, mem_cons]
        exact hx.imp_right (ih i hv)

/-- What holds while the running requests are scheduled: the scheduled requests come before
`req_index`. -/
structure RunningLoop (st : ScheduleState H) : Prop where
  nodup : st.scheduler.running.Nodup
  keys : st.numScheduledTokens.keys = st.scheduledRunningReqs
  keysNodup : st.scheduledRunningReqs.Nodup
  before : ∀ r ∈ st.scheduledRunningReqs, r ∈ st.scheduler.running.take st.reqIndex

/-- The running request `r` is next, or blocks are freed for it. -/
structure AtTurn (st : ScheduleState H) (r : ReqId) : Prop extends RunningLoop st where
  fresh : r ∉ st.scheduledRunningReqs
  reached : r ∈ st.scheduler.running.take (st.reqIndex + 1)
  fcfs : st.scheduler.config.policy = .fcfs → st.scheduler.running[st.reqIndex]? = some r

variable {st st' : ScheduleState H} {r victim : ReqId} {request : Request H}
variable {kv : KVCacheManager H}

theorem RunningLoop.atTurn (h : RunningLoop st) (hr : st.scheduler.running[st.reqIndex]? = some r) :
    AtTurn st r := by
  obtain ⟨hlt, hget⟩ := List.getElem?_eq_some_iff.mp hr
  refine ⟨h, fun hmem => ?_, ?_, fun _ => hr⟩
  · obtain ⟨i, hi, heq⟩ := mem_take_iff_getElem.mp (h.before r hmem)
    have hindex := h.nodup.getElem_inj_iff.mp (heq.trans hget.symm)
    omega
  · exact mem_take_iff_getElem.mpr ⟨st.reqIndex, by omega, hget⟩

theorem Preempts.policy_cases (h : Preempts st st' victim request kv) :
    (st.scheduler.config.policy = .priority ∧ victim ∈ st.scheduledRunningReqs ∧
      st'.scheduledRunningReqs = st.scheduledRunningReqs.erase victim ∧
      st'.numScheduledTokens = st.numScheduledTokens.pop victim ∧
      st'.reqIndex = st.reqIndex - 1) ∨
    (¬ (st.scheduler.config.policy = .priority ∧ victim ∈ st.scheduledRunningReqs) ∧
      st'.scheduledRunningReqs = st.scheduledRunningReqs ∧
      st'.numScheduledTokens = st.numScheduledTokens ∧ st'.reqIndex = st.reqIndex) := by
  rw [h.state]
  unfold unschedule
  split
  · rename_i hcase
    exact Or.inl ⟨hcase.1, hcase.2, rfl, rfl, rfl⟩
  · rename_i hcase
    exact Or.inr ⟨hcase, rfl, rfl, rfl⟩

section

variable (hturn : AtTurn st r) (hpolicy : st.scheduler.config.policy = .fcfs)
  (hvictim : st.scheduler.preemptionVictim = .ok victim)
include hturn hpolicy hvictim

theorem AtTurn.fcfs_victim : victim ∉ st.scheduledRunningReqs ∧
      ∀ x ∈ st.scheduledRunningReqs, x ∈ (st.scheduler.withoutVictim victim).take st.reqIndex := by
  obtain ⟨hlt, -⟩ := List.getElem?_eq_some_iff.mp (hturn.fcfs hpolicy)
  have hsplit := withoutVictim_append hpolicy hvictim
  have hlen := congrArg length hsplit
  rw [length_append, length_singleton] at hlen
  have hbefore := hturn.before
  rw [← hsplit, take_append_of_le_length (by omega)] at hbefore
  refine ⟨fun hmem => ?_, hbefore⟩
  have hnodup := hturn.nodup
  rw [← hsplit] at hnodup
  exact (nodup_append.mp hnodup).2.2 victim (mem_of_mem_take (hbefore victim hmem))
    victim (mem_singleton.mpr rfl) rfl

theorem AtTurn.fcfs_next (hne : r ≠ victim) :
    (st.scheduler.withoutVictim victim)[st.reqIndex]? = some r := by
  have hget := hturn.fcfs hpolicy
  have hsplit := withoutVictim_append hpolicy hvictim
  grind

end

theorem AtTurn.preempts (hturn : AtTurn st r) (h : Preempts st st' victim request kv) :
    RunningLoop st' ∧ victim ∉ st'.numScheduledTokens.keys := by
  have hnodup : st'.scheduler.running.Nodup :=
    (nodup_cons.mp (h.running_perm.nodup_iff.mp hturn.nodup)).2
  have hrunning : st'.scheduler.running = st.scheduler.withoutVictim victim := by
    rw [h.scheduler]
  rcases h.policy_cases with
    ⟨hpolicy, hmem, hscheduled, htokens, hindex⟩ | ⟨hcase, hscheduled, htokens, hindex⟩
  · -- the victim was scheduled in this call
    have hkeys : st'.numScheduledTokens.keys = st'.scheduledRunningReqs := by
      rw [htokens, hscheduled, keys_pop, hturn.keys, hturn.keysNodup.erase_eq_filter]
      exact filter_congr fun x _ => by by_cases hx : x = victim <;> simp [hx]
    have hgone : victim ∉ st'.scheduledRunningReqs := by
      rw [hscheduled]
      exact hturn.keysNodup.not_mem_erase
    have hpos := hturn.before victim hmem
    refine ⟨⟨hnodup, hkeys, ?_, fun x hx => ?_⟩, hkeys ▸ hgone⟩
    · rw [hscheduled]
      exact hturn.keysNodup.erase _
    · grind [hturn.before, withoutVictim, mem_take_erase_pred]
  · -- the victim was not scheduled
    have hkeys : st'.numScheduledTokens.keys = st'.scheduledRunningReqs := by
      rw [htokens, hscheduled]
      exact hturn.keys
    have hvictim : victim ∉ st.scheduledRunningReqs ∧
        ∀ x ∈ st.scheduledRunningReqs,
          x ∈ (st.scheduler.withoutVictim victim).take st.reqIndex := by
      cases hpolicy : st.scheduler.config.policy with
      | fcfs => exact hturn.fcfs_victim hpolicy h.chosen
      | priority =>
        grind [withoutVictim, mem_take_erase, hturn.before]
    refine ⟨⟨hnodup, hkeys, ?_, fun x hx => ?_⟩, ?_⟩
    · rw [hscheduled]
      exact hturn.keysNodup
    · rw [hscheduled] at hx
      rw [hrunning, hindex]
      exact hvictim.2 x hx
    · rw [hkeys, hscheduled]
      exact hvictim.1

theorem AtTurn.of_preempts (hturn : AtTurn st r) (h : Preempts st st' victim request kv)
    (hne : r ≠ victim) : AtTurn st' r := by
  have hrunning : st'.scheduler.running = st.scheduler.withoutVictim victim := by
    rw [h.scheduler]
  refine ⟨(hturn.preempts h).1, ?_, ?_, fun hpolicy => ?_⟩
  · grind [h.policy_cases, AtTurn.fresh]
  · rw [hrunning]
    rcases h.policy_cases with ⟨hpolicy, hmem, -, -, hindex⟩ | ⟨hcase, -, -, hindex⟩
    · have hbefore := hturn.before victim hmem
      have hpos : st.reqIndex - 1 + 1 = st.reqIndex := by
        cases hi : st.reqIndex with
        | zero =>
          rw [hi] at hbefore
          simp at hbefore
        | succ i => rfl
      rw [hindex, hpos]
      unfold withoutVictim
      rw [hpolicy]
      exact mem_take_erase_pred hne _
        (take_subset_take_left _ (Nat.le_succ _) hbefore) hturn.reached
    · rw [hindex]
      cases hpolicy : st.scheduler.config.policy with
      | fcfs =>
        have hget := hturn.fcfs_next hpolicy h.chosen hne
        obtain ⟨hlt, hget⟩ := List.getElem?_eq_some_iff.mp hget
        exact mem_take_iff_getElem.mpr ⟨st.reqIndex, by omega, hget⟩
      | priority =>
        unfold withoutVictim
        rw [hpolicy]
        exact mem_take_erase hne _ hturn.reached
  · grind [h.config, h.policy_cases, hturn.fcfs_next, Preempts.chosen]

theorem AtTurn.withKv (hturn : AtTurn st r) (kv : KVCacheManager H) : AtTurn (st.withKv kv) r :=
  ⟨⟨hturn.nodup, hturn.keys, hturn.keysNodup, hturn.before⟩, hturn.fresh, hturn.reached,
    hturn.fcfs⟩

theorem RunningLoop.skip (h : RunningLoop st) :
    RunningLoop { st with reqIndex := st.reqIndex + 1 } :=
  ⟨h.nodup, h.keys, h.keysNodup, fun x hx =>
    take_subset_take_left _ (Nat.le_succ _) (h.before x hx)⟩

theorem AtTurn.run (hturn : AtTurn st r) (request : Request H) (n : Int)
    (newBlocks : KVCacheBlocks) :
    RunningLoop (scheduleRunningRequest st r request n newBlocks) := by
  refine ⟨hturn.nodup, ?_, ?_, fun x hx => ?_⟩
  · have hfresh : r ∉ st.numScheduledTokens.keys := by
      rw [hturn.keys]
      exact hturn.fresh
    change keys (st.numScheduledTokens.set r n) = _
    rw [keys_set_of_notMem hfresh, hturn.keys]
    rfl
  · refine nodup_append.mpr ⟨hturn.keysNodup, nodup_singleton r, ?_⟩
    intro x hx y hy heq
    rw [mem_singleton.mp hy] at heq
    exact hturn.fresh (heq ▸ hx)
  · rcases mem_append.mp hx with hx | hx
    · exact take_subset_take_left _ (Nat.le_succ _) (hturn.before x hx)
    · rw [mem_singleton.mp hx]
      exact hturn.reached

end runningLoop

theorem scheduleWaitingRequest_spec {st' : ScheduleState H} {numNewTokens numComputedTokens : Int}
    (h : scheduleWaitingRequest st r request numNewTokens numComputedTokens = .ok st') :
    ∃ news resumed, st' = { moveToRunning st r request numNewTokens numComputedTokens with
        scheduledNewReqs := news
        scheduledResumedReqs := resumed } ∧ request.status ≠ .running ∧
      (st.scheduledNewReqs ++ st.scheduledResumedReqs ++ [r]).Perm (news ++ resumed) := by
  unfold scheduleWaitingRequest at h
  split at h
  · rename_i hstatus
    cases h
    refine ⟨_, _, rfl, hstatus ▸ nofun, ?_⟩
    rw [append_assoc, append_assoc]
    exact perm_append_comm.append_left _
  · rename_i hstatus
    cases h
    refine ⟨_, _, rfl, hstatus ▸ nofun, ?_⟩
    rw [append_assoc]
    exact Perm.refl _
  · cases h

theorem makeSchedulerOutput_spec (h : makeSchedulerOutput st = .ok out) :
    out.numScheduledTokens = st.numScheduledTokens ∧
      out.scheduledSpecDecodeTokens = st.scheduledSpecDecodeTokens ∧
      st.scheduledNewReqs.mapM (makeNewRequestData st) = .ok out.scheduledNewReqs ∧
      ∃ running resumed,
        st.scheduledRunningReqs.mapM (makeCachedRequestData st false) = .ok running ∧
        st.scheduledResumedReqs.mapM (makeCachedRequestData st true) = .ok resumed ∧
        out.scheduledCachedReqs = running ++ resumed := by
  obtain ⟨news, hnews, h⟩ := of_bind h
  obtain ⟨running, hrunning, h⟩ := of_bind h
  obtain ⟨resumed, hresumed, h⟩ := of_bind h
  cases h
  exact ⟨rfl, rfl, hnews, running, resumed, hrunning, hresumed, rfl⟩

theorem recordLoras_eq {st' : ScheduleState H} (h : recordLoras st = .ok st') :
    st'.scheduler = st.scheduler ∧ st' = { st with scheduledLoras := st'.scheduledLoras } := by
  unfold recordLoras at h
  split at h
  · cases h
    exact ⟨rfl, rfl⟩
  · obtain ⟨_, -, h⟩ := of_bind h
    cases h
    exact ⟨rfl, rfl⟩

theorem forScheduled_eq {f : ReqId → Int → Request H → Request H}
    (hnodup : (out.numScheduledTokens.keys).Nodup) (h : s.forScheduled out f = .ok s') :
    s' = { s with
      requests := fun r =>
        match out.numScheduledTokens.get r with
        | none => s.requests r
        | some n => (s.requests r).map (f r n) } := by
  unfold forScheduled at h
  generalize out.numScheduledTokens = items at hnodup h
  induction items generalizing s with
  | nil =>
    cases h
    rfl
  | cons item items ih =>
    obtain ⟨s₁, hs₁, h⟩ := of_bind h
    obtain ⟨q, hget, hs₁⟩ := of_bind hs₁
    cases hs₁
    obtain ⟨hnew, hnodup⟩ := nodup_cons.mp hnodup
    rw [ih hnodup h]
    refine congrArg (fun f => { s with requests := f }) (funext fun r => ?_)
    rw [get_cons]
    unfold setRequest
    dsimp only
    rcases eq_or_ne item.1 r with rfl | hr
    · rw [get_eq_none.mpr hnew, if_pos rfl, update_self, getRequest_eq_ok.mp hget]
      rfl
    · rw [if_neg hr, update_of_ne hr.symm]

theorem withRequest_same (hknown : st.scheduler.requests r = some request) :
    st.withRequest r request = st := by
  unfold ScheduleState.withRequest setRequest
  rw [update_eq_self_iff.mpr hknown.symm]

variable [DecidableEq H]

/-- One step of the loops of `schedule`. -/
inductive LoopStep : ScheduleState H → ScheduleState H → Prop where
  | skipRunning (st : ScheduleState H) : LoopStep st { st with reqIndex := st.reqIndex + 1 }
  | noSpaceRunning {st : ScheduleState H} {r : ReqId} {request : Request H} {numNewTokens : Int}
      {kv : KVCacheManager H} (hturn : RunningTurn st r request numNewTokens)
      (hkv : st.scheduler.kvCacheManager.allocateSlots
        (runningArgs st.scheduler.config request numNewTokens) = .ok (none, kv)) :
      LoopStep st (st.withKv kv)
  | preempt {st st' : ScheduleState H} {victim : ReqId}
      (h : preemptOne st = .ok (victim, st'))
      (hgone : victim ∉ st'.numScheduledTokens.keys) : LoopStep st st'
  | run {st : ScheduleState H} {r : ReqId} {request : Request H} {numNewTokens : Int}
      {newBlocks : KVCacheBlocks} {kv : KVCacheManager H}
      (hturn : RunningTurn st r request numNewTokens)
      (hfresh : r ∉ st.numScheduledTokens.keys)
      (hkv : st.scheduler.kvCacheManager.allocateSlots
        (runningArgs st.scheduler.config request numNewTokens) = .ok (some newBlocks, kv)) :
      LoopStep st (scheduleRunningRequest (st.withKv kv) r request numNewTokens newBlocks)
  | loras {st st' : ScheduleState H} (h : recordLoras st = .ok st') : LoopStep st st'
  | setAside {st : ScheduleState H} {r : ReqId} (hhead : st.scheduler.waiting.head? = some r) :
      LoopStep st (skipWaiting st r)
  | grammar {st : ScheduleState H} {r : ReqId} {request : Request H}
      (hknown : st.scheduler.requests r = some request)
      (hstatus : request.status = .waitingForFsm) :
      LoopStep st (st.withRequest r { request with status := .waiting })
  | noSpaceWaiting {st : ScheduleState H} {r : ReqId} {request : Request H} {hits : KVCacheBlocks}
      {numLocal numComputed numNewTokens : Int} {kv : KVCacheManager H}
      (hturn : WaitingTurn st r request hits numLocal numComputed numNewTokens)
      (hkv : st.scheduler.kvCacheManager.allocateSlots
        (waitingArgs st.scheduler.config request numNewTokens hits numLocal) = .ok (none, kv)) :
      LoopStep st (st.withKv kv)
  | start {st st' : ScheduleState H} {r : ReqId} {request : Request H} {hits : KVCacheBlocks}
      {numLocal numComputed numNewTokens : Int} {newBlocks : KVCacheBlocks}
      {kv : KVCacheManager H}
      (hturn : WaitingTurn st r request hits numLocal numComputed numNewTokens)
      (hkv : st.scheduler.kvCacheManager.allocateSlots
        (waitingArgs st.scheduler.config request numNewTokens hits numLocal) =
          .ok (some newBlocks, kv))
      (h : scheduleWaitingRequest (st.withKv kv) r request numNewTokens numComputed = .ok st') :
      LoopStep st st'

abbrev LoopSteps : ScheduleState H → ScheduleState H → Prop := Relation.ReflTransGen LoopStep

section loops

variable {st st' : ScheduleState H}

theorem allocateOrPreempt_steps {r : ReqId} {request : Request H} {n : Int} (fuel : Nat)
    {newBlocks : Option KVCacheBlocks} (hturn : RunningTurn st r request n) (hat : AtTurn st r)
    (h : allocateOrPreempt r n fuel st = .ok (newBlocks, st')) :
    match newBlocks with
    | none => LoopSteps st st'
    | some newBlocks => ∃ st₁ kv, LoopSteps st st₁ ∧ RunningTurn st₁ r request n ∧ AtTurn st₁ r ∧
        st₁.scheduler.kvCacheManager.allocateSlots (runningArgs st₁.scheduler.config request n) =
          .ok (some newBlocks, kv) ∧ st' = st₁.withKv kv := by
  induction fuel generalizing st with
  | zero =>
    cases h
  | succ fuel ih =>
    obtain ⟨q, hget, h⟩ := of_bind h
    obtain rfl : request = q := by
      have := hturn.known.symm.trans (getRequest_eq_ok.mp hget)
      exact Option.some.inj this
    obtain ⟨⟨blocks, kv⟩, hkv, h⟩ := of_bind h
    cases blocks with
    | some blocks =>
      cases h
      exact ⟨st, kv, .refl, hturn, hat, hkv, rfl⟩
    | none =>
      obtain ⟨⟨victim, st₁⟩, hpre, h⟩ := of_bind h
      obtain ⟨victimRequest, kv₁, hspec⟩ := preemptOne_spec hpre
      have hat : AtTurn (st.withKv kv) r := hat.withKv kv
      have hfirst : LoopSteps st st₁ :=
        (Relation.ReflTransGen.single (.noSpaceRunning hturn hkv)).tail
          (.preempt hpre (hat.preempts hspec).2)
      dsimp only at h
      split at h
      · cases h
        exact hfirst
      · rename_i hne
        have hne : r ≠ victim := Ne.symm hne
        have hrest := ih ((hturn.withKv kv).of_preempts hspec hne) (hat.of_preempts hspec hne) h
        cases newBlocks with
        | none => exact hfirst.trans hrest
        | some blocks =>
          obtain ⟨st₂, kv₂, hsteps, hrest⟩ := hrest
          exact ⟨st₂, kv₂, hfirst.trans hsteps, hrest⟩

theorem scheduleRunning_steps (fuel : Nat) (hloop : RunningLoop st)
    (h : scheduleRunning fuel st = .ok st') : LoopSteps st st' := by
  induction fuel generalizing st with
  | zero =>
    cases h
  | succ fuel ih =>
    unfold scheduleRunning at h
    split at h
    · rename_i hbudget
      split at h
      · cases h
        exact .refl
      · rename_i r hr
        obtain ⟨request, hget, h⟩ := of_bind h
        dsimp only at h
        split at h
        · exact (ih hloop.skip h).head (.skipRunning st)
        · rename_i hgo
          obtain ⟨hreached, hnonzero⟩ := not_or.mp hgo
          have hturn : RunningTurn st r request
              (numNewRunningTokens st.scheduler.config request st.tokenBudget) :=
            ⟨mem_of_getElem? hr, getRequest_eq_ok.mp hget, ⟨_, hbudget, rfl⟩, hnonzero,
              by simpa using hreached⟩
          obtain ⟨⟨newBlocks, st₁⟩, halloc, h⟩ := of_bind h
          have hsteps := allocateOrPreempt_steps _ hturn (hloop.atTurn hr) halloc
          cases newBlocks with
          | none =>
            cases h
            exact hsteps
          | some newBlocks =>
            obtain ⟨st₂, kv, hsteps, hturn₂, hat₂, hkv, rfl⟩ := hsteps
            obtain ⟨q, hget, h⟩ := of_bind h
            obtain rfl : request = q :=
              Option.some.inj (hturn₂.known.symm.trans (getRequest_eq_ok.mp hget))
            have hfresh : r ∉ st₂.numScheduledTokens.keys := by
              rw [hat₂.keys]
              exact hat₂.fresh
            exact (hsteps.tail (.run hturn₂ hfresh hkv)).trans (ih ((hat₂.withKv kv).run ..) h)
    · cases h
      exact .refl

theorem admitWaiting_steps {r : ReqId} {request : Request H} {admitted : Bool}
    (hhead : st.scheduler.waiting.head? = some r) (hknown : st.scheduler.requests r = some request)
    (h : admitWaiting st r request = .ok (st', admitted)) : LoopSteps st st' := by
  obtain ⟨⟨hits, numLocal, numComputed⟩, hcomputed, h⟩ := of_bind h
  obtain ⟨numNewTokens, htokens, h⟩ := of_bind h
  cases numNewTokens with
  | none =>
    cases h
    exact .refl
  | some numNewTokens =>
    have hturn : WaitingTurn st r request hits numLocal numComputed numNewTokens :=
      ⟨hhead, hknown, hcomputed, htokens⟩
    obtain ⟨⟨newBlocks, kv⟩, hkv, h⟩ := of_bind h
    cases newBlocks with
    | none =>
      cases h
      exact .single (.noSpaceWaiting hturn hkv)
    | some newBlocks =>
      obtain ⟨st₁, hst₁, h⟩ := of_bind h
      cases h
      exact .single (.start hturn hkv hst₁)

theorem scheduleWaiting_steps {grammarReady : ReqId → Bool} (fuel : Nat)
    (h : scheduleWaiting grammarReady fuel st = .ok st') : LoopSteps st st' := by
  induction fuel generalizing st with
  | zero =>
    cases h
  | succ fuel ih =>
    unfold scheduleWaiting at h
    split at h
    · cases h
      exact .refl
    · rename_i r rest hwaiting
      have hhead : st.scheduler.waiting.head? = some r := by rw [hwaiting]; rfl
      split at h
      · cases h
        exact .refl
      · obtain ⟨request, hget, h⟩ := of_bind h
        have hknown := getRequest_eq_ok.mp hget
        split at h
        · exact (ih h).head (.setAside hhead)
        · split at h
          · obtain ⟨-, -, h⟩ := of_bind h
            exact (ih h).head (.setAside hhead)
          · -- the request that may have left `WAITING_FOR_FSM`
            set request' : Request H := if request.status = .waitingForFsm then
              { request with status := .waiting } else request with hrequest'
            have hready : LoopSteps st (st.withRequest r request') := by
              rw [hrequest']
              split
              · rename_i hstatus
                exact .single (.grammar hknown hstatus)
              · rw [withRequest_same hknown]
            have hhead' : (st.withRequest r request').scheduler.waiting.head? = some r := hhead
            have hknown' : (st.withRequest r request').scheduler.requests r = some request' :=
              update_self ..
            refine hready.trans ?_
            dsimp only at h
            split at h
            · exact (ih h).head (.setAside hhead')
            · obtain ⟨⟨st₁, admitted⟩, hadmit, h⟩ := of_bind h
              have hsteps := admitWaiting_steps hhead' hknown' hadmit
              split at h
              · exact hsteps.trans (ih h)
              · cases h
                exact hsteps

theorem LoopSteps.induction {P : ScheduleState H → Prop} (hsteps : LoopSteps st st')
    (hstep : ∀ st st', LoopStep st st' → P st → P st') (hst : P st) : P st' := by
  induction hsteps with
  | refl => exact hst
  | tail _ hlast ih => exact hstep _ _ hlast ih

theorem loopStep_keys_nodup (hstep : LoopStep st st')
    (h : (st.numScheduledTokens.keys).Nodup) :
    (st'.numScheduledTokens.keys).Nodup := by
  cases hstep with
  | skipRunning | noSpaceRunning | noSpaceWaiting | setAside | grammar => exact h
  | preempt hpre =>
    obtain ⟨request, kv, hspec⟩ := preemptOne_spec hpre
    rw [hspec.state]
    unfold unschedule
    split
    · exact keys_pop_nodup h _
    · exact h
  | run => exact keys_set_nodup h _ _
  | loras hloras =>
    rw [(recordLoras_eq hloras).2]
    exact h
  | start _ _ hadmit =>
    obtain ⟨news, resumed, rfl, -⟩ := scheduleWaitingRequest_spec hadmit
    exact keys_set_nodup h _ _

/-- The local variables of `schedule` before its loops. -/
def initialState (s : Scheduler H) : ScheduleState H :=
  { scheduler := s, tokenBudget := s.config.maxNumScheduledTokens }

theorem scheduleLoops_steps {s : Scheduler H} {grammarReady : ReqId → Bool}
    (hnodup : s.running.Nodup) (h : s.scheduleLoops grammarReady = .ok st') :
    LoopSteps (initialState s) st' := by
  obtain ⟨st₁, hrun, h⟩ := of_bind h
  obtain ⟨st₂, hloras, h⟩ := of_bind h
  have hloop : RunningLoop (initialState s) :=
    ⟨hnodup, rfl, nodup_nil, nofun⟩
  have hsteps := (scheduleRunning_steps _ hloop hrun).tail (.loras hloras)
  split at h
  · exact hsteps.trans (scheduleWaiting_steps _ h)
  · cases h
    exact hsteps

end loops

section

variable {grammarReady : ReqId → Bool} (hnodup : s.running.Nodup)
  (h : s.schedule grammarReady = .ok (out, s'))
include hnodup h

theorem schedule_spec :
    ∃ st, LoopSteps (initialState s) st ∧
      makeSchedulerOutput (restoreSkipped st) = .ok out ∧
      { (restoreSkipped st).scheduler with
        prevStepScheduledReqIds := out.numScheduledTokens.keys }.updateAfterSchedule out =
          .ok s' := by
  obtain ⟨st, hloops, h⟩ := of_bind h
  obtain ⟨_, -, h⟩ := of_bind h
  obtain ⟨out', hout, h⟩ := of_bind h
  obtain ⟨s₁, hupdate, h⟩ := of_bind h
  cases h
  exact ⟨st, scheduleLoops_steps hnodup hloops, hout, hupdate⟩

theorem schedule_keys_nodup : (out.numScheduledTokens.keys).Nodup := by
  obtain ⟨st, hsteps, hout, -⟩ := schedule_spec hnodup h
  rw [(makeSchedulerOutput_spec hout).1]
  exact hsteps.induction (fun _ _ => loopStep_keys_nodup) nodup_nil

end

end LongCtxSpecDecode.Scheduler
