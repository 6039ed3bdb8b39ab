import LongCtxSpecDecode.SchedulerSteps

/-!
# Runs of the scheduler

The engine core calls the scheduler between steps (new requests, aborts, cache resets), asks it
for the next step, and later hands it the output of the oldest step in flight: at most one for the
synchronous engine, while the asynchronous one schedules the next step before.
-/

namespace LongCtxSpecDecode.Scheduler

open Library

variable {H : Type}

/-- The calls of the engine. -/
inductive Op where
  | addRequest (request : EngineCoreRequest)
  | schedule (grammarReady : ReqId → Bool)
  | updateFromOutput (sampled : ModelRunnerOutput)
  | updateDraftTokenIds (validateTokens : ReqId → List Token → List Token)
      (draftTokenIds : List (ReqId × List Token))
  | finishRequests (requestIds : List ReqId) (finishedStatus : RequestStatus)
  | resetPrefixCache (resetRunningRequests : Bool)

/-- The scheduler, with the steps whose output it has not got yet. -/
structure RunState (H : Type) where
  scheduler : Scheduler H
  inFlight : List SchedulerOutput := []

variable [DecidableEq H]

def perform (x : RunState H) : Op → Except Exn (RunState H)
  | .addRequest request => do
      let s ← x.scheduler.addRequest
        (Request.fromEngineCoreRequest x.scheduler.config.blockHasher request)
      .ok { x with scheduler := s }
  | .schedule grammarReady => do
      let (out, s) ← x.scheduler.schedule grammarReady
      .ok ⟨s, x.inFlight ++ [out]⟩
  | .updateFromOutput sampled =>
    match x.inFlight with
    | [] => .error (.indexError "pop from an empty deque")
    | out :: inFlight => do
        let (_, s) ← x.scheduler.updateFromOutput out sampled
        .ok ⟨s, inFlight⟩
  | .updateDraftTokenIds validateTokens draftTokenIds =>
    .ok { x with scheduler := x.scheduler.updateDraftTokenIds validateTokens draftTokenIds }
  | .finishRequests requestIds finishedStatus => do
      let s ← x.scheduler.finishRequests requestIds finishedStatus
      .ok { x with scheduler := s }
  | .resetPrefixCache resetRunningRequests => do
      let (_, s) ← x.scheduler.resetPrefixCache resetRunningRequests
      .ok { x with scheduler := s }

def start (config : SchedulerConfig H) (kv : KVCacheManager H) : RunState H :=
  { scheduler := { config, kvCacheManager := kv } }

/-- The states after any calls that each satisfy `ok` in the state they are made in, from a
scheduler without requests. -/
inductive Reachable (ok : RunState H → Op → Prop) : RunState H → Prop where
  | init {config : SchedulerConfig H} {kvCacheGroups : List KVCacheSpec}
      {numBlocks hashBlockSize : Nat} {enableCaching enableKvCacheEvents : Bool}
      {kv : KVCacheManager H}
      (h : KVCacheManager.init kvCacheGroups numBlocks config.maxModelLen hashBlockSize
        enableCaching config.useEagle enableKvCacheEvents = .ok kv) : Reachable ok (start config kv)
  | step {x x' : RunState H} {op : Op} (hx : Reachable ok x) (hop : ok x op)
      (h : perform x op = .ok x') : Reachable ok x'

section calls

variable (ok : RunState H → Op → Prop) [∀ x op, Decidable (ok x op)]

/-- Calls one after the other, as long as they satisfy `ok` and return. -/
def performAll (x : RunState H) : List Op → Option (RunState H)
  | [] => some x
  | op :: ops =>
    if ok x op then
      match perform x op with
      | .ok x' => performAll x' ops
      | .error _ => none
    else
      none

def runCalls (config : SchedulerConfig H) (kvCacheGroups : List KVCacheSpec)
    (numBlocks hashBlockSize : Nat) (enableCaching : Bool) (ops : List Op) :
    Option (RunState H) :=
  match KVCacheManager.init kvCacheGroups numBlocks config.maxModelLen hashBlockSize enableCaching
      config.useEagle false with
  | .ok kv => performAll ok (start config kv) ops
  | .error _ => none

variable {ok} {ops : List Op}

theorem Reachable.performAll {x x' : RunState H} (hx : Reachable ok x)
    (h : performAll ok x ops = some x') : Reachable ok x' := by
  induction ops generalizing x with
  | nil =>
    cases h
    exact hx
  | cons op ops ih =>
    unfold Scheduler.performAll at h
    split at h
    · rename_i hop
      split at h
      · rename_i x₁ hx₁
        exact ih (hx.step hop hx₁) h
      · cases h
    · cases h

theorem reachable_of_runCalls {config : SchedulerConfig H} {kvCacheGroups : List KVCacheSpec}
    {numBlocks hashBlockSize : Nat} {enableCaching : Bool} {x : RunState H}
    (h : runCalls ok config kvCacheGroups numBlocks hashBlockSize enableCaching ops = some x) :
    Reachable ok x := by
  unfold runCalls at h
  split at h
  · rename_i kv hkv
    exact (Reachable.init hkv).performAll h
  · cases h

end calls

end LongCtxSpecDecode.Scheduler
