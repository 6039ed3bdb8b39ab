import LongCtxSpecDecode.SchedulerQueues

/-!
# How the calls between the steps change a request

New requests, aborts, new drafts and resets of the prefix cache. What a step does to a request
is the subject of the later modules.
-/

namespace LongCtxSpecDecode.Scheduler

open Library

variable {H : Type}

/-- The ways in which a request changes. -/
inductive Changed (c : SchedulerConfig H) (q : Request H) : Request H → Prop where
  | drafts (specTokenIds : List Token) : Changed c q { q with specTokenIds }
  | input (streamingQueue : Option (List (Option StreamingUpdate))) :
      Changed c q { q with streamingQueue }
  | session {q' : Request H} (update : StreamingUpdate)
      (hstatus : q.status = .waitingForStreamingReq)
      (h : q.updateAsSession c.blockHasher update = .ok q') : Changed c q q'
  | discard (hstatus : q.status = .running) : Changed c q (discardLatest (asPreempted q))

/-- A request as it enters the scheduler. -/
def Submitted (c : SchedulerConfig H) (r : ReqId) (q : Request H) : Prop :=
  ∃ e : EngineCoreRequest, e.requestId = r ∧ q = Request.fromEngineCoreRequest c.blockHasher e

/-- Each request comes from an old or a submitted one. -/
structure Changes (s s' : Scheduler H) : Prop where
  config : s'.config = s.config
  requests : ∀ r q', s'.requests r = some q' →
    ∃ q, (s.requests r = some q ∨ Submitted s.config r q) ∧
      Relation.ReflTransGen (Changed s.config) q q'

variable {s s' s'' : Scheduler H} {r : ReqId} {q : Request H}

theorem Changes.of_sub (hconfig : s'.config = s.config)
    (h : ∀ r q, s'.requests r = some q → s.requests r = some q) : Changes s s' :=
  ⟨hconfig, fun r q hq => ⟨q, Or.inl (h r q hq), .refl⟩⟩

theorem Changes.trans (h : Changes s s') (h' : Changes s' s'') : Changes s s'' := by
  refine ⟨h'.config.trans h.config, fun r q'' hq'' => ?_⟩
  obtain ⟨q', hq', hlast⟩ := h'.requests r q'' hq''
  rw [h.config] at hq' hlast
  rcases hq' with hq' | hsubmitted
  · obtain ⟨q, hq, hfirst⟩ := h.requests r q' hq'
    exact ⟨q, hq, hfirst.trans hlast⟩
  · exact ⟨q', Or.inr hsubmitted, hlast⟩

theorem Changes.update {q' : Request H} (hconfig : s'.config = s.config)
    (hreq : s'.requests = Function.update s.requests r (some q'))
    (hq : s.requests r = some q ∨ Submitted s.config r q)
    (h : Relation.ReflTransGen (Changed s.config) q q') : Changes s s' := by
  refine ⟨hconfig, fun r' x hx => ?_⟩
  rw [hreq] at hx
  rcases update_eq_some hx with ⟨rfl, hnew⟩ | ⟨-, hold⟩
  · cases hnew
    exact ⟨q, hq, h⟩
  · exact ⟨x, Or.inl hold, .refl⟩

theorem Changes.preserves (h : Changes s s') {I : ReqId → Request H → Prop}
    (hs : ∀ r q, s.requests r = some q → I r q)
    (hsubmitted : ∀ r q, Submitted s.config r q → I r q)
    (hchanged : ∀ r q q', Changed s.config q q' → I r q → I r q') :
    ∀ r q, s'.requests r = some q → I r q := by
  intro r q' hq'
  obtain ⟨q, hq, hpath⟩ := h.requests r q' hq'
  have hstart : I r q := hq.elim (hs r q) (hsubmitted r q)
  clear hq'
  induction hpath with
  | refl => exact hstart
  | tail _ hlast ih => exact hchanged r _ _ hlast ih

section calls

variable {requestIds : List ReqId} {status : RequestStatus}

theorem finishRequests_sub (hrun : s.finishRequests requestIds status = .ok s') :
    s'.config = s.config ∧ ∀ r q, s'.requests r = some q → s.requests r = some q := by
  obtain ⟨_, -, hrun⟩ := of_bind hrun
  obtain ⟨hconfig, -, -, hrequests⟩ := finishRequest_fold hrun
  refine ⟨hconfig, fun r q hq => ?_⟩
  rw [hrequests r] at hq
  split at hq
  · cases hq
  · exact hq

theorem finishRequests_changes (hrun : s.finishRequests requestIds status = .ok s') :
    Changes s s' :=
  .of_sub (finishRequests_sub hrun).1 (finishRequests_sub hrun).2

theorem finishRequests_nil (s : Scheduler H) : s.finishRequests [] .finishedAborted = .ok s := by
  have hvalid : s.validRequests [] = [] := by simp [validRequests, List.dedup]
  simp only [finishRequests, hvalid, removeAll]
  simp [RequestStatus.isFinished]

theorem updateDraftTokenIds_changes (validateTokens : ReqId → List Token → List Token)
    (draftTokenIds : List (ReqId × List Token)) :
    Changes s (s.updateDraftTokenIds validateTokens draftTokenIds) := by
  induction draftTokenIds generalizing s with
  | nil =>
    exact .of_sub rfl fun _ _ => id
  | cons item draftTokenIds ih =>
    refine Changes.trans ?_ ih
    unfold updateDraft
    split
    · exact .of_sub rfl fun _ _ => id
    · rename_i q hq
      split
      · exact .of_sub rfl fun _ _ => id
      · split
        · exact .update rfl rfl (Or.inl hq) (.single (.drafts _))
        · exact .update rfl rfl (Or.inl hq) (.single (.drafts _))

theorem addRequest_changes {e : EngineCoreRequest}
    (hrun : s.addRequest (Request.fromEngineCoreRequest s.config.blockHasher e) = .ok s') :
    Changes s s' := by
  have hid : (Request.fromEngineCoreRequest s.config.blockHasher e).requestId = e.requestId := by
    unfold Request.fromEngineCoreRequest
    rw [Request.updateBlockHashes_eq]
  have hsubmitted : Submitted s.config e.requestId
      (Request.fromEngineCoreRequest s.config.blockHasher e) := ⟨e, rfl, rfl⟩
  rw [← hid] at hsubmitted
  unfold addRequest at hrun
  split at hrun
  · rename_i q hq
    dsimp only at hrun
    split at hrun
    · split at hrun
      · cases hrun
      · cases hrun
        exact .update rfl rfl (Or.inl hq) (.single (.input _))
    · rename_i hstatus
      split at hrun
      · obtain ⟨q', hq', hrun⟩ := of_bind hrun
        cases hrun
        exact .update rfl rfl (Or.inl hq) (.single (.session _ (not_not.mp hstatus) hq'))
      · exact finishRequests_changes hrun
  · cases hrun
    split
    · exact .update rfl rfl (Or.inr hsubmitted) (.single (.input _))
    · exact .update rfl rfl (Or.inr hsubmitted) .refl

theorem preemptAll_changes [DecidableEq H] (hrun : requestIds.foldlM preemptLast s = .ok s') :
    Changes s s' := by
  induction requestIds generalizing s with
  | nil =>
    cases hrun
    exact .of_sub rfl fun _ _ => id
  | cons r rest ih =>
    obtain ⟨s₁, hs₁, hrun⟩ := of_bind hrun
    obtain ⟨q, kv, hknown, hstatus, heq, -⟩ := preemptLast_spec hs₁
    refine Changes.trans ?_ (ih hrun)
    exact .update (by rw [heq]) (by rw [heq]) (Or.inl hknown) (.single (.discard hstatus))

theorem resetPrefixCache_changes [DecidableEq H] {resetRunningRequests successful : Bool}
    (hrun : s.resetPrefixCache resetRunningRequests = .ok (successful, s')) : Changes s s' := by
  obtain ⟨s₁, hs₁, hrun⟩ := of_bind hrun
  have h₁ : Changes s s₁ := by
    split at hs₁
    · obtain ⟨s₂, hs₂, hs₁⟩ := of_bind hs₁
      cases hs₁
      exact (preemptAll_changes hs₂).trans (.of_sub rfl fun _ _ => id)
    · cases hs₁
      exact .of_sub rfl fun _ _ => id
  dsimp only at hrun
  split at hrun
  · cases hrun
  · cases hrun
    exact h₁.trans (.of_sub rfl fun _ _ => id)

end calls

end LongCtxSpecDecode.Scheduler
