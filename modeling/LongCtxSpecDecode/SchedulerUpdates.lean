import LongCtxSpecDecode.SchedulerRuns

/-!
# What the output of a step does to a request

`update_from_output` handles the scheduled requests one after the other. A request keeps its
place, finishes, or waits for the next input of its session.
-/

namespace LongCtxSpecDecode.Scheduler

open Library List Function OrderedDict

variable {H : Type}

/-- The tokens that a request keeps of a step's output, whether it stops, and the request
after them. -/
def outcome (c : SchedulerConfig H) (request : Request H) (numDraftTokens : Nat)
    (generatedTokenIds : List Token) : List Token × Bool × Request H :=
  let request := rollback request numDraftTokens generatedTokenIds.length
  if generatedTokenIds = [] then
    ([], false, request)
  else if c.asyncScheduling = false then
    appendTokens c request generatedTokenIds
  else if request.discardLatestAsyncTokens then
    ([], false, { request with discardLatestAsyncTokens := false })
  else
    let (newTokenIds, stopped, request) := appendTokens c request generatedTokenIds
    (newTokenIds, stopped,
      { request with
        numOutputPlaceholders := request.numOutputPlaceholders - newTokenIds.length })

/-- A stop does not end the request: it waits for input or has some. -/
def sessionContinues (request : Request H) : Prop :=
  request.resumable = true ∧ (request.streamingQueue.getD []).head? ≠ some none

instance (request : Request H) : Decidable (sessionContinues request) :=
  inferInstanceAs (Decidable (_ ∧ _))

variable {newTokenIds : List Token}

section outcome

/-- The request `q'` is `q` with the tokens `newTokenIds` appended. -/
structure Extends (q q' : Request H) (newTokenIds : List Token) : Prop where
  request : q' = { q with
    outputTokenIds := q.outputTokenIds ++ newTokenIds
    allTokenIds := q.allTokenIds ++ newTokenIds
    numComputedTokens := q'.numComputedTokens
    numOutputPlaceholders := q'.numOutputPlaceholders
    discardLatestAsyncTokens := q'.discardLatestAsyncTokens
    blockHashes := q'.blockHashes
    status := q'.status
    stopReason := q'.stopReason }

theorem Extends.refl (q : Request H) : Extends q q [] := by
  constructor
  rw [append_nil, append_nil]

theorem Extends.trans {q q' q'' : Request H} {first second : List Token}
    (h : Extends q q' first) (h' : Extends q' q'' second) : Extends q q'' (first ++ second) := by
  constructor
  rw [h'.request, h.request]
  rw [append_assoc, append_assoc]

theorem Extends.mark {q q' : Request H} (h : Extends q q' newTokenIds) (numOutputPlaceholders : Int)
    (discardLatestAsyncTokens : Bool) (status : RequestStatus) (stopReason : Option Token) :
    Extends q { q' with numOutputPlaceholders, discardLatestAsyncTokens, status, stopReason }
      newTokenIds := by
  constructor
  rw [h.request]

theorem Extends.sessionContinues_iff {q q' : Request H} (h : Extends q q' newTokenIds) :
    sessionContinues q' ↔ sessionContinues q := by
  rw [h.request]
  exact Iff.rfl

theorem rollback_extends (q : Request H) (numDraftTokens numGenerated : Nat) :
    Extends q (rollback q numDraftTokens numGenerated) [] := by
  constructor
  rw [append_nil, append_nil]
  unfold rollback
  split <;> rfl

theorem rollback_status (q : Request H) (numDraftTokens numGenerated : Nat) :
    (rollback q numDraftTokens numGenerated).status = q.status := by
  unfold rollback
  split <;> rfl

theorem appendOutputTokenIds_extends (hasher : Option (Request H → List H)) (q : Request H)
    (tokenIds : List Token) : Extends q (q.appendOutputTokenIds hasher tokenIds) tokenIds := by
  constructor
  unfold Request.appendOutputTokenIds Request.updateBlockHashes
  split <;> rfl

theorem appendOutputTokenIds_status (hasher : Option (Request H → List H)) (q : Request H)
    (tokenIds : List Token) : (q.appendOutputTokenIds hasher tokenIds).status = q.status := by
  unfold Request.appendOutputTokenIds Request.updateBlockHashes
  split <;> rfl

variable (c : SchedulerConfig H) (q : Request H) (tokenIds : List Token)

theorem appendTokens_extends :
    Extends q (appendTokens c q tokenIds).2.2 (appendTokens c q tokenIds).1 := by
  induction tokenIds generalizing q with
  | nil =>
    exact Extends.refl q
  | cons tokenId tokenIds ih =>
    have hfirst := appendOutputTokenIds_extends c.blockHasher q [tokenId]
    unfold appendTokens
    dsimp only
    split
    · exact hfirst.mark _ _ _ _
    · exact hfirst.trans (ih _)

theorem appendTokens_prefix : ∃ rest, (appendTokens c q tokenIds).1 ++ rest = tokenIds ∧
    ((appendTokens c q tokenIds).2.1 = false → rest = []) := by
  induction tokenIds generalizing q with
  | nil =>
    exact ⟨[], rfl, fun _ => rfl⟩
  | cons tokenId tokenIds ih =>
    unfold appendTokens
    dsimp only
    split
    · exact ⟨tokenIds, rfl, fun h => (by cases h)⟩
    · obtain ⟨rest, hrest, hall⟩ := ih (q.appendOutputTokenIds c.blockHasher [tokenId])
      exact ⟨rest, congrArg (tokenId :: ·) hrest, hall⟩

theorem appendTokens_status :
    (appendTokens c q tokenIds).2.1 = false →
      (appendTokens c q tokenIds).2.2.status = q.status := by
  induction tokenIds generalizing q with
  | nil =>
    exact fun _ => rfl
  | cons tokenId tokenIds ih =>
    have hstatus := appendOutputTokenIds_status c.blockHasher q [tokenId]
    unfold appendTokens
    dsimp only
    cases hstop : (q.appendOutputTokenIds c.blockHasher [tokenId]).checkStop c.maxModelLen with
    | some stop => exact fun h => (by cases h)
    | none => exact hstatus ▸ ih _

variable {c q tokenIds} {q' : Request H} {numDraftTokens : Nat} {stopped : Bool}

theorem outcome_extends (hout : outcome c q numDraftTokens tokenIds = (newTokenIds, stopped, q')) :
    Extends q q' newTokenIds ∧ (stopped = false → q'.status = q.status) := by
  have hrollback := rollback_extends q numDraftTokens tokenIds.length
  have hstatus := rollback_status q numDraftTokens tokenIds.length
  have happend := hrollback.trans (appendTokens_extends c _ tokenIds)
  have happended := appendTokens_status c (rollback q numDraftTokens tokenIds.length) tokenIds
  rw [hstatus] at happended
  unfold outcome at hout
  dsimp only at hout
  split at hout
  · cases hout
    exact ⟨hrollback, fun _ => hstatus⟩
  · split at hout
    · rw [hout] at happend happended
      exact ⟨happend, happended⟩
    · split at hout <;> cases hout
      · exact ⟨hrollback.mark _ _ _ _, fun _ => hstatus⟩
      · exact ⟨happend.mark _ _ _ _, happended⟩

end outcome

theorem markStopped_scheduler (u : UpdateState H) (s : Scheduler H) (r : ReqId)
    (statusBeforeStop : RequestStatus) :
    markStopped { u with scheduler := s } r statusBeforeStop =
      { markStopped u r statusBeforeStop with scheduler := s } := by
  unfold markStopped
  split <;> rfl

theorem markStopped_outputs (u : UpdateState H) (r : ReqId) (statusBeforeStop : RequestStatus) :
    (markStopped u r statusBeforeStop).outputs = u.outputs := by
  unfold markStopped
  split <;> rfl

/-- The request of a session after its input stopped: it waits, for its turn if there is more
input and else for input. -/
inductive NextInput (c : SchedulerConfig H) (q : Request H) : Request H → Prop where
  | pause : NextInput c q { q with status := .waitingForStreamingReq }
  | update {q' : Request H} (rest : List (Option StreamingUpdate)) (update : StreamingUpdate)
      (h : ({ q with streamingQueue := some rest }).updateAsSession c.blockHasher update = .ok q') :
      NextInput c q q'

variable {q q' : Request H} {s s' : Scheduler H} {r : ReqId} {u u' : UpdateState H}
  {out : SchedulerOutput} {sampled : ModelRunnerOutput}

theorem updateAsSession_status {hasher : Option (Request H → List H)} {update : StreamingUpdate}
    (h : q.updateAsSession hasher update = .ok q') : q'.status = .waiting := by
  unfold Request.updateAsSession at h
  split at h
  · cases h
  · cases h
    rfl

theorem NextInput.status {c : SchedulerConfig H} (h : NextInput c q q') :
    q'.status = .waiting ∨ q'.status = .waitingForStreamingReq := by
  cases h with
  | pause => exact Or.inr rfl
  | update rest update h => exact Or.inl (updateAsSession_status h)

theorem handleStoppedRequest_spec {finished : Bool}
    (h : s.handleStoppedRequest r q = .ok (finished, s')) :
    (finished = true ∧ ¬ sessionContinues q ∧
        ∃ queue, s' = s.setRequest r { q with streamingQueue := queue }) ∨
      (finished = false ∧ sessionContinues q ∧ ∃ q' waiting numWaiting,
        NextInput s.config q q' ∧ waiting.Perm (r :: s.waiting) ∧
        s' = { s with
          requests := update s.requests r (some q')
          waiting
          numWaitingForStreamingInput := numWaiting }) := by
  unfold handleStoppedRequest at h
  split at h
  · rename_i hresumable
    cases h
    refine Or.inl ⟨rfl, fun hsession => ?_, q.streamingQueue, rfl⟩
    exact Bool.false_ne_true (hresumable.symm.trans hsession.1)
  · rename_i hresumable
    split at h
    · rename_i rest hqueue
      cases h
      refine Or.inl ⟨rfl, fun hsession => hsession.2 ?_, some rest, rfl⟩
      rw [hqueue]
      rfl
    · rename_i update rest hqueue
      obtain ⟨s₁, hs₁, h⟩ := of_bind h
      obtain ⟨q', hq', hs₁⟩ := of_bind hs₁
      cases hs₁
      cases h
      refine Or.inr ⟨rfl, ⟨by simpa using hresumable, ?_⟩, q', _, _, .update rest update hq',
        queueAdd_perm _ _ r, rfl⟩
      rw [hqueue]
      exact fun hx => (by cases hx)
    · rename_i hqueue
      cases h
      refine Or.inr ⟨rfl, ⟨by simpa using hresumable, ?_⟩, _, _, _, .pause,
        queueAdd_perm _ _ r, rfl⟩
      rw [hqueue]
      exact fun hx => (by cases hx)

theorem freeRequest_spec (h : s.freeRequest r = .ok s') :
    ∃ kv, s.kvCacheManager.free r = .ok kv ∧ s' = { s with
      kvCacheManager := kv
      finishedReqIds := s.finishedReqIds.insert r
      requests := update s.requests r none } := by
  obtain ⟨_, -, h⟩ := of_bind h
  obtain ⟨_, -, h⟩ := of_bind h
  obtain ⟨kv, hkv, h⟩ := of_bind h
  cases h
  exact ⟨kv, hkv, rfl⟩

theorem finishStopped_spec {statusBeforeStop : RequestStatus}
    (h : finishStopped u r q statusBeforeStop = .ok u') :
    (¬ sessionContinues q ∧ ∃ kv, u.scheduler.kvCacheManager.free r = .ok kv ∧
        u' = { markStopped u r statusBeforeStop with
          scheduler := { u.scheduler with
            kvCacheManager := kv
            requests := update u.scheduler.requests r none
            finishedReqIds := u.scheduler.finishedReqIds.insert r } }) ∨
      (sessionContinues q ∧ ∃ q' waiting numWaiting,
        NextInput u.scheduler.config q q' ∧ waiting.Perm (r :: u.scheduler.waiting) ∧
        u' = { markStopped u r statusBeforeStop with
          scheduler := { u.scheduler with
            requests := update u.scheduler.requests r (some q')
            waiting
            numWaitingForStreamingInput := numWaiting } }) := by
  obtain ⟨⟨finished, s⟩, hs, h⟩ := of_bind h
  obtain ⟨s', hs', h⟩ := of_bind h
  rw [markStopped_scheduler] at h
  cases h
  rcases handleStoppedRequest_spec hs with
    ⟨rfl, hsession, queue, rfl⟩ | ⟨rfl, hsession, q', waiting, numWaiting, hnext, hperm, rfl⟩
  · obtain ⟨kv, hkv, rfl⟩ := freeRequest_spec hs'
    refine Or.inl ⟨hsession, kv, hkv, ?_⟩
    unfold setRequest
    rw [update_idem]
  · cases hs'
    exact Or.inr ⟨hsession, q', waiting, numWaiting, hnext, hperm, rfl⟩

theorem removeStopped_requests (u : UpdateState H) :
    (removeStopped u).requests = u.scheduler.requests := by
  unfold removeStopped
  split <;> rfl

theorem removeStopped_config (u : UpdateState H) :
    (removeStopped u).config = u.scheduler.config := by
  unfold removeStopped
  split <;> rfl

def emitted (r : ReqId) (newTokenIds : List Token) (stopped : Bool) (q : Request H) :
    List EngineCoreOutput :=
  if newTokenIds = [] ∧ stopped = false then []
  else [⟨r, newTokenIds, if stopped then some q.status else none⟩]

/-- The loop of `update_from_output`: the requests still to come are as they were, `I` holds of
the others and `O` of the outputs so far. -/
structure Handled (I : ReqId → Request H → Prop) (O : EngineCoreOutput → Prop) (s : Scheduler H)
    (todo : List ReqId) (u : UpdateState H) : Prop where
  config : u.scheduler.config = s.config
  requests : ∀ r ∈ todo, u.scheduler.requests r = s.requests r
  done : ∀ r q, r ∉ todo → u.scheduler.requests r = some q → I r q
  outputs : ∀ o ∈ u.outputs, O o

theorem Handled.item {I : ReqId → Request H → Prop} {O : EngineCoreOutput → Prop}
    {todo : List ReqId} {v : Option (Request H)} (h : Handled I O s (r :: todo) u)
    (hnew : r ∉ todo) (hconfig : u'.scheduler.config = u.scheduler.config)
    (hreq : u'.scheduler.requests = update u.scheduler.requests r v)
    (hv : ∀ q, v = some q → I r q) (houtputs : ∀ o ∈ u'.outputs, O o) : Handled I O s todo u' := by
  refine ⟨hconfig.trans h.config, fun r' hr' => ?_, fun r' q hr' hq => ?_, houtputs⟩
  · rw [hreq, update_of_ne fun heq : r' = r => hnew (heq ▸ hr')]
    exact h.requests r' (mem_cons_of_mem _ hr')
  · rw [hreq] at hq
    rcases eq_or_ne r' r with rfl | hne
    · rw [update_self] at hq
      exact hv q hq
    · rw [update_of_ne hne] at hq
      exact h.done r' q (fun hmem => (mem_cons.mp hmem).elim hne hr') hq

variable [DecidableEq H]

/-- The KV cache manager after a request took its output: the asynchronous scheduler caches the
blocks of a running request again. -/
def Recached (s : Scheduler H) (q q' : Request H) (kv : KVCacheManager H) : Prop :=
  kv = s.kvCacheManager ∨
    (s.config.asyncScheduling = true ∧ q.status = .running ∧ q'.numOutputPlaceholders ≥ 0 ∧
      s.kvCacheManager.cacheBlocks q' (q'.numComputedTokens - q'.numOutputPlaceholders) = .ok kv)

/-- What `update_from_output` does for one request. -/
inductive ItemStep (u : UpdateState H) (r : ReqId) (q : Request H) (numDraftTokens : Nat)
    (generated : List Token) : UpdateState H → Prop where
  | keep {kv : KVCacheManager H} {q' : Request H} {newTokenIds : List Token}
      (hout : outcome u.scheduler.config q numDraftTokens generated = (newTokenIds, false, q'))
      (hkv : Recached u.scheduler q q' kv) :
      ItemStep u r q numDraftTokens generated
        { u with
          scheduler := { u.scheduler with
            kvCacheManager := kv, requests := update u.scheduler.requests r (some q') }
          outputs := u.outputs ++ emitted r newTokenIds false q' }
  | finish {kv kv' : KVCacheManager H} {q' : Request H} {newTokenIds : List Token}
      (hout : outcome u.scheduler.config q numDraftTokens generated = (newTokenIds, true, q'))
      (hsession : ¬ sessionContinues q) (hkv : Recached u.scheduler q q' kv)
      (hfree : kv.free r = .ok kv') :
      ItemStep u r q numDraftTokens generated
        { markStopped u r q.status with
          scheduler := { u.scheduler with
            kvCacheManager := kv'
            requests := update u.scheduler.requests r none
            finishedReqIds := u.scheduler.finishedReqIds.insert r }
          outputs := u.outputs ++ emitted r newTokenIds true q' }
  | next {kv : KVCacheManager H} {q' q'' : Request H} {newTokenIds : List Token}
      {waiting : List ReqId} (numWaiting : Int)
      (hout : outcome u.scheduler.config q numDraftTokens generated = (newTokenIds, true, q'))
      (hsession : sessionContinues q) (hkv : Recached u.scheduler q q' kv)
      (hnext : NextInput u.scheduler.config q' q'')
      (hwaiting : waiting.Perm (r :: u.scheduler.waiting)) :
      ItemStep u r q numDraftTokens generated
        { markStopped u r q.status with
          scheduler := { u.scheduler with
            kvCacheManager := kv
            requests := update u.scheduler.requests r (some q'')
            waiting
            numWaitingForStreamingInput := numWaiting }
          outputs := u.outputs ++ emitted r newTokenIds true q' }

variable {generated : List Token}

theorem updateRequestWithOutput_spec {stopped : Bool} (hgenerated : generated ≠ [])
    (numDraftTokens : Nat)
    (h : s.updateRequestWithOutput r (rollback q numDraftTokens generated.length) generated = .ok
      (newTokenIds, stopped, q', s')) :
    outcome s.config q numDraftTokens generated = (newTokenIds, stopped, q') ∧
      ∃ kv, Recached s q q' kv ∧
        s' = { s with
          kvCacheManager := kv, requests := update s.requests r (some q') } := by
  have hstatus := rollback_status q numDraftTokens generated.length
  unfold outcome
  rw [if_neg hgenerated]
  unfold updateRequestWithOutput at h
  split at h
  · rename_i hsync
    rw [if_pos hsync]
    cases h
    exact ⟨rfl, s.kvCacheManager, Or.inl rfl, rfl⟩
  · rename_i hasync
    rw [if_neg hasync]
    split at h
    · rename_i hdiscard
      rw [if_pos hdiscard]
      cases h
      exact ⟨rfl, s.kvCacheManager, Or.inl rfl, rfl⟩
    · rename_i hdiscard
      rw [if_neg hdiscard]
      obtain ⟨_, hrequire, h⟩ := of_bind h
      obtain ⟨kv, hkv, h⟩ := of_bind h
      cases h
      refine ⟨rfl, kv, ?_, rfl⟩
      split at hkv
      · rename_i hrunning
        exact Or.inr ⟨by simpa using hasync, hstatus.symm.trans hrunning,
          require_eq_ok.mp hrequire, hkv⟩
      · cases hkv
        exact Or.inl rfl

theorem updateRequest_spec {drafts : List Token} (h : updateRequest u r q drafts generated = .ok u')
    :
    ItemStep u r q drafts.length generated u' := by
  obtain ⟨⟨newTokenIds, stopped, q', s⟩, htokens, h⟩ := of_bind h
  have hspec : outcome u.scheduler.config q drafts.length generated = (newTokenIds, stopped, q') ∧
      ∃ kv, Recached u.scheduler q q' kv ∧ s = { u.scheduler with
        kvCacheManager := kv, requests := update u.scheduler.requests r (some q') } := by
    split at htokens
    · rename_i hempty
      cases htokens
      refine ⟨?_, u.scheduler.kvCacheManager, Or.inl rfl, rfl⟩
      unfold outcome
      rw [if_pos hempty]
    · rename_i hgenerated
      exact updateRequestWithOutput_spec hgenerated drafts.length htokens
  obtain ⟨hout, kv, hkv, rfl⟩ := hspec
  obtain ⟨u₁, hu₁, h⟩ := of_bind h
  have houtputs : u' = { u₁ with outputs := u₁.outputs ++ emitted r newTokenIds stopped q' } := by
    unfold emitted
    split at h
    · rename_i hnone
      cases h
      rw [if_pos hnone, append_nil]
    · rename_i hsome
      cases h
      rw [if_neg hsome]
  rw [houtputs]
  rw [rollback_status] at hu₁
  cases stopped with
  | false =>
    cases hu₁
    exact .keep hout hkv
  | true =>
    have hsession := (outcome_extends hout).1.sessionContinues_iff
    rcases finishStopped_spec hu₁ with
      ⟨hdone, kv', hfree, rfl⟩ | ⟨hmore, q'', waiting, numWaiting, hnext, hperm, rfl⟩
    · rw [markStopped_scheduler, update_idem]
      rw [markStopped_outputs]
      exact .finish hout (hsession.not.mp hdone) hkv hfree
    · rw [markStopped_scheduler, update_idem]
      rw [markStopped_outputs]
      exact .next numWaiting hout (hsession.mp hmore) hkv hnext hperm

def draftsOf (out : SchedulerOutput) (r : ReqId) : List Token :=
  (out.scheduledSpecDecodeTokens.get r).getD []

theorem updateItem_spec {item : ReqId × Int} (h : updateItem out sampled u item = .ok u') :
    (u' = u ∧ ∀ q, u.scheduler.requests item.1 = some q → q.isFinished = true) ∨
      ∃ q, u.scheduler.requests item.1 = some q ∧ q.isFinished = false ∧
        ItemStep u item.1 q (draftsOf out item.1).length (sampled item.1) u' := by
  obtain ⟨_, -, h⟩ := of_bind h
  split at h
  · rename_i hnone
    cases h
    refine Or.inl ⟨rfl, fun q hq => ?_⟩
    rw [hnone] at hq
    cases hq
  · grind [updateRequest_spec, draftsOf]

section rule

variable (P : List ReqId → UpdateState H → Prop)
  (hskip : ∀ r todo u, P (r :: todo) u →
    (∀ q, u.scheduler.requests r = some q → q.isFinished = true) → P todo u)
  (hitem : ∀ r n todo u u' q, r ∉ todo → out.numScheduledTokens.get r = some n → 0 < n →
    P (r :: todo) u → u.scheduler.requests r = some q → q.isFinished = false →
      ItemStep u r q (draftsOf out r).length (sampled r) u' → P todo u')
include hskip hitem

/-- The rule of the loop of `update_from_output`: `P todo` holds when the requests `todo` are
still to come. -/
theorem updateItems_induction {items : OrderedDict ReqId Int} (hnodup : (keys items).Nodup)
    (hitems : ∀ item ∈ items, out.numScheduledTokens.get item.1 = some item.2)
    (hu : P (keys items) u) (hrun : items.foldlM (updateItem out sampled) u = .ok u') :
    P [] u' := by
  induction items generalizing u with
  | nil =>
    cases hrun
    exact hu
  | cons item items ih =>
    obtain ⟨u₁, hu₁, hrun⟩ := of_bind hrun
    obtain ⟨hnew, hnodup⟩ := nodup_cons.mp hnodup
    refine ih hnodup (fun item hitem => hitems item (mem_cons_of_mem _ hitem)) ?_ hrun
    have hpos : 0 < item.2 := by
      obtain ⟨_, hpos, -⟩ := of_bind hu₁
      exact require_eq_ok.mp hpos
    rcases updateItem_spec hu₁ with ⟨rfl, hfinished⟩ | ⟨q, hq, hfinished, hstep⟩
    · exact hskip item.1 _ _ hu hfinished
    · exact hitem item.1 item.2 _ u u₁ q hnew (hitems item (mem_cons_self ..)) hpos hu hq
        hfinished hstep

theorem updateFromOutput_induction {outputs : List EngineCoreOutput}
    (hnodup : (out.numScheduledTokens.keys).Nodup)
    (hs : P (out.numScheduledTokens.keys) { scheduler := s })
    (hrun : s.updateFromOutput out sampled = .ok (outputs, s')) :
    ∃ u, P [] u ∧ outputs = u.outputs ∧ s' = removeStopped u := by
  obtain ⟨u, hu, hrun⟩ := of_bind hrun
  cases hrun
  exact ⟨u, updateItems_induction P hskip hitem hnodup
    (fun _ => (get_eq_some_iff hnodup).mpr) hs hu,
    rfl, rfl⟩

end rule

section handled

variable {I : ReqId → Request H → Prop} {O : EngineCoreOutput → Prop} {s s' : Scheduler H}
variable {todo : List ReqId} {u u' : UpdateState H} {r : ReqId}

/-- What `I` and `O` have to satisfy for one scheduled request. -/
def HandlesItem (I : ReqId → Request H → Prop) (O : EngineCoreOutput → Prop)
    (c : SchedulerConfig H) (r : ReqId) (q : Request H) (numDraftTokens : Nat)
    (generated : List Token) : Prop :=
  ∀ newTokenIds stopped q', outcome c q numDraftTokens generated = (newTokenIds, stopped, q') →
    (stopped = false → I r q') ∧
    (stopped = true → sessionContinues q → ∀ q'', NextInput c q' q'' → I r q'') ∧
    ∀ o ∈ emitted r newTokenIds stopped q', O o

theorem itemStep_handled {q : Request H} {numDraftTokens : Nat} (h : Handled I O s (r :: todo) u)
    (hnew : r ∉ todo) (hitem : HandlesItem I O s.config r q numDraftTokens generated)
    (hstep : ItemStep u r q numDraftTokens generated u') : Handled I O s todo u' := by
  have happend : ∀ new : List EngineCoreOutput, (∀ o ∈ new, O o) → ∀ o ∈ u.outputs ++ new, O o :=
    fun new hnew o ho => (mem_append.mp ho).elim (h.outputs o) (hnew o)
  rw [← h.config] at hitem
  cases hstep with
  | @keep kv q' newTokenIds hout hkv =>
    obtain ⟨hkeep, -, houtputs⟩ := hitem _ _ _ hout
    refine h.item hnew rfl rfl (fun x hx => ?_) (happend _ houtputs)
    cases hx
    exact hkeep rfl
  | @finish kv kv' q' newTokenIds hout hsession hkv hfree =>
    obtain ⟨-, -, houtputs⟩ := hitem _ _ _ hout
    exact h.item hnew rfl rfl (fun x hx => (by cases hx)) (happend _ houtputs)
  | @next kv q' q'' newTokenIds waiting numWaiting hout hsession hkv hnext hperm =>
    obtain ⟨-, hstop, houtputs⟩ := hitem _ _ _ hout
    refine h.item hnew rfl rfl (fun x hx => ?_) (happend _ houtputs)
    cases hx
    exact hstop rfl hsession q'' hnext

theorem updateFromOutput_handled {out : SchedulerOutput} {sampled : ModelRunnerOutput}
    {outputs : List EngineCoreOutput} (hnodup : (out.numScheduledTokens.keys).Nodup)
    (hunfinished : ∀ r q, s.requests r = some q → q.isFinished = false)
    (hothers : ∀ r q, out.numScheduledTokens.get r = none → s.requests r = some q → I r q)
    (hitem : ∀ r n q, out.numScheduledTokens.get r = some n → 0 < n → s.requests r = some q →
      HandlesItem I O s.config r q (draftsOf out r).length (sampled r))
    (hrun : s.updateFromOutput out sampled = .ok (outputs, s')) :
    s'.config = s.config ∧ (∀ r q, s'.requests r = some q → I r q) ∧ ∀ o ∈ outputs, O o := by
  have hstart : Handled I O s (out.numScheduledTokens.keys) { scheduler := s } :=
    ⟨rfl, fun _ _ => rfl, fun r q hr hq => hothers r q (get_eq_none.mpr hr) hq,
      nofun⟩
  have hskip : ∀ r todo u, Handled I O s (r :: todo) u →
      (∀ q, u.scheduler.requests r = some q → q.isFinished = true) → Handled I O s todo u := by
    intro r todo u hu hgone
    refine ⟨hu.config, fun r' hr' => hu.requests r' (mem_cons_of_mem _ hr'),
      fun r' q hr' hq => ?_, hu.outputs⟩
    rcases eq_or_ne r' r with rfl | hne
    · have hknown := (hu.requests r' (mem_cons_self ..)).symm.trans hq
      cases (hunfinished r' q hknown).symm.trans (hgone q hq)
    · exact hu.done r' q (fun hmem => (mem_cons.mp hmem).elim hne hr') hq
  obtain ⟨u, hu, rfl, rfl⟩ := updateFromOutput_induction (Handled I O s) hskip
    (fun r n todo u u' q hnew hn hpos hu hq _ hstep => by
      have hknown := (hu.requests r (mem_cons_self ..)).symm.trans hq
      exact itemStep_handled hu hnew (hitem r n q hn hpos hknown) hstep) hnodup hstart hrun
  refine ⟨(removeStopped_config u).trans hu.config, fun r q hq => ?_, hu.outputs⟩
  rw [removeStopped_requests] at hq
  exact hu.done r q not_mem_nil hq

end handled

end LongCtxSpecDecode.Scheduler
