import LongCtxSpecDecode.InputBatch

/-!
# The built-in logits processors

`sample/logits_processor/builtin.py`: the state of the min-p, logit-bias and min-tokens
processors by row, and how a batch update changes it. The tensors that are built from the state
for the device are left out.
-/

namespace LongCtxSpecDecode

open Library

variable {K : Type}

/-! ## Min-p -/

structure MinPLogitsProcessor (K : Type) where
  minPCount : Int := 0
  /-- `min_p_cpu` -/
  minP : Nat → K
  /-- A number as an entry of the array. -/
  float32 : K → K

namespace MinPLogitsProcessor

variable [Field K] [LinearOrder K]

variable (p : MinPLogitsProcessor K)

/-- The comparison of an entry with a number is in the type of the array. -/
def processAdded (a : AddedRequest K) : MinPLogitsProcessor K :=
  let minP := a.params.minP
  let minPBefore := p.minP a.index
  if minPBefore ≠ p.float32 minP then
    { p with
      minP := Function.update p.minP a.index (p.float32 minP)
      minPCount :=
        if minP ≠ 0 ∧ minPBefore = 0 then p.minPCount + 1
        else if minP = 0 ∧ minPBefore ≠ 0 then p.minPCount - 1
        else p.minPCount }
  else p

def processRemoved (index : Nat) : MinPLogitsProcessor K :=
  if p.minP index ≠ 0 then
    { p with minP := Function.update p.minP index 0, minPCount := p.minPCount - 1 }
  else p

def processMoved (m : Nat × Nat × MoveDirectionality) : MinPLogitsProcessor K :=
  let (adx, bdx, direct) := m
  let minPA := p.minP adx
  let minPB := p.minP bdx
  let minP :=
    if minPA ≠ minPB then
      let minP := Function.update p.minP bdx minPA
      if direct = .swap then Function.update minP adx minPB else minP
    else p.minP
  if direct = .unidirectional then
    { p with
      minP := if minPA ≠ 0 then Function.update minP adx 0 else minP
      minPCount := if minPB ≠ 0 then p.minPCount - 1 else p.minPCount }
  else { p with minP := minP }

def updateState : Option (BatchUpdate K) → MinPLogitsProcessor K
  | none => p
  | some u =>
    let p := u.added.foldl processAdded p
    if p.minPCount ≠ 0 then u.moved.foldl processMoved (u.removed.foldl processRemoved p)
    else p

end MinPLogitsProcessor

/-! ## Dictionaries by row -/

section dict

variable {T : Type} (newState : AddedRequest K → Option T)

variable (entries : OrderedDict Nat T)

def processDictAdded (a : AddedRequest K) : OrderedDict Nat T :=
  match newState a with
  | some state => entries.set a.index state
  | none => entries.pop a.index

/-- `if entry is not None: entries[index] = entry` -/
def putEntry (index : Nat) : Option T → OrderedDict Nat T
  | some entry => entries.set index entry
  | none => entries

def processDictMoved (m : Nat × Nat × MoveDirectionality) : OrderedDict Nat T :=
  let (aIndex, bIndex, direct) := m
  let aEntry := entries.get aIndex
  let entries := entries.pop aIndex
  let bEntry := entries.get bIndex
  let entries := entries.pop bIndex
  let entries := putEntry entries bIndex aEntry
  if direct = .swap then putEntry entries aIndex bEntry else entries

/-- `process_dict_updates`, without the flag that it returns. -/
def processDictUpdates : Option (BatchUpdate K) → OrderedDict Nat T
  | none => entries
  | some u =>
    let entries := u.added.foldl (processDictAdded newState) entries
    if entries ≠ [] then
      u.moved.foldl processDictMoved (u.removed.foldl OrderedDict.pop entries)
    else entries

end dict

/-- The state of `LogitBiasLogitsProcessor`. -/
abbrev LogitBiases (K : Type) := OrderedDict Nat (List (Token × K))

namespace LogitBiases

def newState (a : AddedRequest K) : Option (List (Token × K)) :=
  if a.params.logitBias.isEmpty then none else some a.params.logitBias

def updateState (biases : LogitBiases K) (u : Option (BatchUpdate K)) : LogitBiases K :=
  processDictUpdates newState biases u

end LogitBiases

/-- An entry of `min_toks`; the request id is the reference to its output tokens. -/
structure MinTokensEntry where
  minTokens : Nat
  reqId : ReqId
  stopTokenIds : List Token
deriving DecidableEq, Repr

/-- The state of `MinTokensLogitsProcessor`. -/
abbrev MinTokens := OrderedDict Nat MinTokensEntry

namespace MinTokens

/-- `MinTokensLogitsProcessor.add_request` -/
def newState (a : AddedRequest K) : Option MinTokensEntry :=
  if a.params.minTokens = 0 ∨ a.params.minTokens ≤ a.outputTokenIds.length then none
  else
    some
      { minTokens := a.params.minTokens, reqId := a.reqId
        stopTokenIds := a.params.allStopTokenIds }

/-- `outputTokenIds` has the current output tokens of the requests. -/
def updateState (minToks : MinTokens) (outputTokenIds : ReqId → List Token)
    (u : Option (BatchUpdate K)) : MinTokens :=
  let minToks := processDictUpdates newState minToks u
  let toRemove := minToks.filter fun item =>
    decide (item.2.minTokens ≤ (outputTokenIds item.2.reqId).length)
  toRemove.foldl (fun minToks item => OrderedDict.pop minToks item.1) minToks

end MinTokens

end LongCtxSpecDecode
