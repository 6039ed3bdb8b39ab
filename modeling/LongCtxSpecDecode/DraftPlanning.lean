import LongCtxSpecDecode.Basic

/-!
# Planning the draft batch over data-parallel ranks

`_determine_batch_execution_and_padding` of `sparse_attn/proposer.py` with
`coordinate_batch_across_dp` of `v1/worker/dp_utils.py`. What the ranks exchange is the column that
each of them contributes. How a rank dispatches a number of tokens is a parameter.
-/

namespace LongCtxSpecDecode.DraftPlanning

open List

inductive CUDAGraphMode where
  | none
  | piecewise
  | full
deriving DecidableEq, Repr

def CUDAGraphMode.value : CUDAGraphMode → Nat
  | none => 0
  | piecewise => 1
  | full => 2

/-- What a rank passes to `coordinate_batch_across_dp`. The parameter `allow_dp_padding` has no
default; the drafter passes neither `uniform_decode` nor the tokens of the requests. -/
structure BatchArgs where
  numTokensUnpadded : Nat
  allowMicrobatching : Bool
  allowDpPadding : Option Bool
  numTokensPadded : Option Nat
  cudagraphMode : Nat

/-- A column of the tensor of `_run_ar`. -/
structure Column where
  origNumTokens : Nat
  paddedNumTokens : Nat
  shouldUbatch : Bool
  shouldDpPad : Bool
  cudagraphMode : Nat

def isLastUbatchEmpty (origNumTokens paddedNumTokens numUbatches : Nat) : Bool :=
  decide (paddedNumTokens / numUbatches * (numUbatches - 1) ≥ origNumTokens)

variable {n : Nat}

def postProcessUbatch (tensor : List Column) (numUbatches : Nat) : Bool :=
  tensor.all (·.shouldUbatch) &&
    !isLastUbatchEmpty ((tensor.map (·.origNumTokens)).min?.getD 0)
      ((tensor.map (·.paddedNumTokens)).max?.getD 0) numUbatches

def postProcessDpPadding (tensor : List Column) (shouldDpPad : Bool) : List Nat :=
  let numTokensAcrossDp := tensor.map (·.paddedNumTokens)
  if shouldDpPad then replicate tensor.length (numTokensAcrossDp.max?.getD 0)
  else numTokensAcrossDp

def synchronizeDpRanks (numUbatches : Nat) (tensor : List Column) (own : Column) :
    Except Exn (Bool × List Nat × Nat) := do
  require (own.paddedNumTokens ≥ own.origNumTokens) ""
  let shouldDpPad := tensor.all (·.shouldDpPad)
  require (own.shouldDpPad = shouldDpPad) ""
  let shouldUbatch := postProcessUbatch tensor numUbatches
  return (shouldUbatch, postProcessDpPadding tensor (shouldUbatch || shouldDpPad),
    (tensor.map (·.cudagraphMode)).min?.getD 0)

/-- What a rank contributes, when microbatching is not allowed. -/
def BatchArgs.column (args : BatchArgs) : Column where
  origNumTokens := args.numTokensUnpadded
  paddedNumTokens := args.numTokensPadded.getD args.numTokensUnpadded
  shouldUbatch := false
  shouldDpPad := args.allowDpPadding.getD false
  cudagraphMode := args.cudagraphMode

def missingAllowDpPadding : Exn :=
  .typeError ("coordinate_batch_across_dp() missing 1 required positional argument: " ++
    "'allow_dp_padding'")

/-- The call of one rank, where `args` are the arguments on all ranks. -/
def coordinateBatchAcrossDp (numUbatches : Nat) (args : Fin n → BatchArgs) (rank : Fin n) :
    Except Exn (Bool × Option (List Nat) × Nat) := do
  if (args rank).allowDpPadding.isNone then
    throw missingAllowDpPadding
  if n = 1 then
    return (false, none, (args rank).cudagraphMode)
  -- `assert uniform_decode is not None`
  require ((args rank).allowMicrobatching = false) ""
  let (shouldUbatch, numTokens, mode) ← synchronizeDpRanks numUbatches
    (ofFn fun rank => (args rank).column) (args rank).column
  return (shouldUbatch, some numTokens, mode)

section planning

variable (dispatch : Fin n → Nat → CUDAGraphMode × Nat) (numTokens : Fin n → Nat)

/-- The arguments of the drafter's call. -/
def draftArgs (rank : Fin n) : BatchArgs where
  numTokensUnpadded := numTokens rank
  allowMicrobatching := false
  allowDpPadding := none
  numTokensPadded := some (dispatch rank (numTokens rank)).2
  cudagraphMode := (dispatch rank (numTokens rank)).1.value

def determineBatchExecutionAndPadding (numUbatches : Nat) (rank : Fin n) :
    Except Exn (CUDAGraphMode × Nat × Option (List Nat)) := do
  let (mode, numTokensPadded) := dispatch rank (numTokens rank)
  if n > 1 then
    let (shouldUbatch, numTokensAcrossDp, _) ←
      coordinateBatchAcrossDp numUbatches (draftArgs dispatch numTokens) rank
    require (shouldUbatch = false) "DBO ubatching not implemented."
    match numTokensAcrossDp with
    | none => return (mode, numTokensPadded, none)
    | some tokens =>
      let numTokensPadded := tokens.getD rank 0
      let (mode, dispatched) := dispatch rank numTokensPadded
      require (dispatched = numTokensPadded) ""
      return (mode, numTokensPadded, some (tokens.set rank numTokensPadded))
  else
    return (mode, numTokensPadded, none)

/-- Every rank has a plan; the plans agree in the tokens of all ranks and in the graph mode, and a
rank pads to its own entry. -/
def PlansAgree (numUbatches : Nat) : Prop :=
  ∃ plan : Fin n → CUDAGraphMode × Nat × Option (List Nat),
    (∀ rank, determineBatchExecutionAndPadding dispatch numTokens numUbatches rank =
      .ok (plan rank)) ∧
    (∀ rank rank', (plan rank).1 = (plan rank').1 ∧ (plan rank).2.2 = (plan rank').2.2) ∧
    ∀ rank, ∀ tokens ∈ (plan rank).2.2, tokens[rank.val]? = some (plan rank).2.1

theorem determine_error (numUbatches : Nat) (hn : n > 1) (rank : Fin n) :
    determineBatchExecutionAndPadding dispatch numTokens numUbatches rank =
      .error missingAllowDpPadding := by
  rw [determineBatchExecutionAndPadding]
  dsimp only
  rw [if_pos hn]
  rfl

theorem plansAgree_iff (numUbatches : Nat) (hn : 0 < n) :
    PlansAgree dispatch numTokens numUbatches ↔ n = 1 := by
  constructor
  · rintro ⟨plan, hplan, -⟩
    by_contra hne
    have hrank := hplan ⟨0, hn⟩
    rw [determine_error dispatch numTokens numUbatches (by omega)] at hrank
    cases hrank
  · rintro rfl
    refine ⟨fun rank => ((dispatch rank (numTokens rank)).1, (dispatch rank (numTokens rank)).2,
      none), fun _ => rfl, fun rank rank' => ?_, fun _ => nofun⟩
    rw [Subsingleton.elim rank rank']
    exact ⟨rfl, rfl⟩

end planning

theorem plansAgree_iff_single :
    PlansAgree (fun (_ : Fin 1) tokens => (.piecewise, tokens)) (fun _ => 3) 1 :=
  (plansAgree_iff _ _ 1 (by decide)).mpr rfl

theorem two_ranks_disagree :
    ¬ PlansAgree (fun (_ : Fin 2) tokens => (.piecewise, tokens)) (fun _ => 3) 1 := by
  rintro ⟨plan, hplan, -⟩
  cases hplan 0

end LongCtxSpecDecode.DraftPlanning
