import LongCtxSpecDecode.SchedulerQueues

/-!
# The synchronous engine

`EngineCore.step` of `v1/engine/core.py`: schedule, execute, take the aborts that came in
meanwhile, and update the scheduler; `post_step` hands it the drafts for the next step. Requests
are added and aborted and the prefix cache is reset between steps.
-/

namespace LongCtxSpecDecode

variable {H W : Type}

/-- The model executor with state `W`: what it may return for a step. It sees the scheduler as
`schedule` left it. -/
structure Executor (H W : Type) where
  initial : W
  executes : Scheduler H → W → SchedulerOutput → Scheduler.ModelRunnerOutput →
    Option (List (ReqId × List Token)) → W → Prop

namespace EngineCore

open Library Scheduler

variable [DecidableEq H]

/-- A step of the engine that raises nothing. -/
structure Step (executor : Executor H W) (s : Scheduler H) (w : W) where
  grammarReady : ReqId → Bool
  out : SchedulerOutput
  scheduled : Scheduler H
  schedule : s.schedule grammarReady = .ok (out, scheduled)
  sampled : ModelRunnerOutput
  /-- `take_draft_token_ids`. -/
  drafts : Option (List (ReqId × List Token))
  worker : W
  execute : executor.executes scheduled w out sampled drafts worker
  aborts : List ReqId
  remaining : Scheduler H
  abort : scheduled.finishRequests aborts .finishedAborted = .ok remaining
  outputs : List EngineCoreOutput
  updated : Scheduler H
  update : remaining.updateFromOutput out sampled = .ok (outputs, updated)
  validateTokens : ReqId → List Token → List Token

def Step.result {executor : Executor H W} {s : Scheduler H} {w : W} (t : Step executor s w) :
    Scheduler H :=
  match t.drafts with
  | none => t.updated
  | some drafts => t.updated.updateDraftTokenIds t.validateTokens drafts

inductive Reachable (executor : Executor H W) : Scheduler H → W → Prop where
  | init {config : SchedulerConfig H} {kvCacheGroups : List KVCacheSpec}
      {numBlocks hashBlockSize : Nat} {enableCaching enableKvCacheEvents : Bool}
      {kv : KVCacheManager H} (hsync : config.asyncScheduling = false)
      (h : KVCacheManager.init kvCacheGroups numBlocks config.maxModelLen hashBlockSize
        enableCaching config.useEagle enableKvCacheEvents = .ok kv) :
      Reachable executor { config, kvCacheManager := kv } executor.initial
  | addRequest {s s' : Scheduler H} {w : W} (hs : Reachable executor s w)
      (request : EngineCoreRequest)
      (h : s.addRequest (Request.fromEngineCoreRequest s.config.blockHasher request) = .ok s') :
      Reachable executor s' w
  | finishRequests {s s' : Scheduler H} {w : W} (hs : Reachable executor s w)
      {requestIds : List ReqId} {finishedStatus : RequestStatus}
      (h : s.finishRequests requestIds finishedStatus = .ok s') : Reachable executor s' w
  | resetPrefixCache {s s' : Scheduler H} {w : W} (hs : Reachable executor s w)
      {resetRunningRequests successful : Bool}
      (h : s.resetPrefixCache resetRunningRequests = .ok (successful, s')) :
      Reachable executor s' w
  | step {s : Scheduler H} {w : W} (hs : Reachable executor s w) (t : Step executor s w) :
      Reachable executor t.result t.worker

end EngineCore

end LongCtxSpecDecode
