import LongCtxSpecDecode.Request

/-!
# Block hashes

The block hasher of `v1/core/kv_cache_utils.py`: every full block of a request is hashed
together with the hash of the block before it and with extra keys for its LoRA adapter,
multimodal items, cache salt and prompt embeddings.
-/

namespace LongCtxSpecDecode.BlockHash

inductive ExtraKey where
  | str (s : String)
  | bytes (rows : List Nat)
deriving DecidableEq, Repr

/-- What is handed to the hash function: the seed of `NONE_HASH`, or the triple of
`hash_block_tokens`. -/
inductive HashInput (H : Type) where
  | seed (s : String)
  | block (parent : H) (tokenIds : List Token) (extraKeys : Option (List ExtraKey))
deriving DecidableEq, Repr

variable {H : Type}

/-- The loop of `_gen_mm_extra_hash_keys` over the items from the current index on. -/
def mmLoop (startTokenIdx endTokenIdx : Nat) :
    List MultiModalFeature → Nat → List String × Nat
  | [], currMmIdx => ([], currMmIdx)
  | mm :: mms, currMmIdx =>
    if endTokenIdx > mm.offset then
      if startTokenIdx > mm.offset + mm.length then
        mmLoop startTokenIdx endTokenIdx mms (currMmIdx + 1)
      else if endTokenIdx ≥ mm.offset + mm.length then
        let (extraKeys, nextMmIdx) := mmLoop startTokenIdx endTokenIdx mms (currMmIdx + 1)
        (mm.identifier :: extraKeys, nextMmIdx)
      else
        ([mm.identifier], currMmIdx)
    else
      ([], currMmIdx)

/-- The index `-1` stands for the last item; no other negative index is passed. -/
def genMmExtraHashKeys (mmFeatures : List MultiModalFeature) (startTokenIdx endTokenIdx : Nat)
    (startMmIdx : Int) : List String × Int :=
  match mmFeatures.getLast? with
  | none => ([], startMmIdx)
  | some lastPos =>
    if lastPos.offset + lastPos.length < startTokenIdx then
      ([], startMmIdx)
    else
      let currMmIdx :=
        (if startMmIdx < 0 then (mmFeatures.length : Int) + startMmIdx else startMmIdx).toNat
      let (extraKeys, nextMmIdx) :=
        mmLoop startTokenIdx endTokenIdx (mmFeatures.drop currMmIdx) currMmIdx
      (extraKeys, nextMmIdx)

def genLoraExtraHashKeys (r : Request H) : List ExtraKey :=
  match r.loraRequest with
  | none => []
  | some lora => [.str lora.loraName]

def cacheSaltKeys (r : Request H) (startTokenIdx : Nat) : List ExtraKey :=
  match r.cacheSalt with
  | none => []
  | some salt => if startTokenIdx = 0 ∧ salt ≠ "" then [.str salt] else []

def genPromptEmbedsExtraHashKeys (r : Request H) (startTokenIdx endTokenIdx : Nat) :
    List ExtraKey :=
  match r.promptEmbeds with
  | none => []
  | some embeds => [.bytes ((embeds.take endTokenIdx).drop startTokenIdx)]

def generateBlockHashExtraKeys (r : Request H) (startTokenIdx endTokenIdx : Nat)
    (startMmIdx : Int) : Option (List ExtraKey) × Int :=
  let (mmExtraKeys, newStartMmIdx) :=
    genMmExtraHashKeys r.mmFeatures startTokenIdx endTokenIdx startMmIdx
  let extraKeys := genLoraExtraHashKeys r ++ mmExtraKeys.map ExtraKey.str ++
    cacheSaltKeys r startTokenIdx ++ genPromptEmbedsExtraHashKeys r startTokenIdx endTokenIdx
  (if extraKeys = [] then none else some extraKeys, newStartMmIdx)

section hasher

variable (hash : HashInput H → H) (noneHash : H) (blockSize : Nat)

def hashBlockTokens (parentBlockHash : Option H) (currBlockTokenIds : List Token)
    (extraKeys : Option (List ExtraKey)) : H :=
  hash (.block (parentBlockHash.getD noneHash) currBlockTokenIds extraKeys)

/-- The `while` loop of `request_block_hasher`; each round hashes one more block, so the
number of tokens bounds the number of rounds. -/
def hashLoop (r : Request H) : Nat → Nat → Int → Option H → List H
  | 0, _, _, _ => []
  | fuel + 1, startTokenIdx, currMmIdx, prevBlockHash =>
    let endTokenIdx := startTokenIdx + blockSize
    if endTokenIdx > r.numTokens then
      []
    else
      let (extraKeys, currMmIdx) :=
        generateBlockHashExtraKeys r startTokenIdx endTokenIdx currMmIdx
      let blockTokens := (r.allTokenIds.take endTokenIdx).drop startTokenIdx
      let blockHash := hashBlockTokens hash noneHash prevBlockHash blockTokens extraKeys
      blockHash :: hashLoop r fuel endTokenIdx currMmIdx (some blockHash)

/-- `get_request_block_hasher`. -/
def requestBlockHasher (r : Request H) : List H :=
  let startTokenIdx := r.blockHashes.length * blockSize
  if startTokenIdx + blockSize > r.numTokens then
    []
  else
    let currMmIdx : Int := if startTokenIdx > 0 then -1 else 0
    hashLoop hash noneHash blockSize r r.numTokens startTokenIdx currMmIdx
      r.blockHashes.getLast?

end hasher

end LongCtxSpecDecode.BlockHash
