import LongCtxSpecDecode.BlockHash

/-!
# What a block hash says about a request

Requests are submitted, extended by output tokens and continued by streaming updates. If no hashed
token is dropped, the hasher passes no item over and the extra keys can be read back, equal block
hashes mean equal prefixes.
-/

namespace LongCtxSpecDecode.PrefixCacheSoundness

open BlockHash List

variable {H : Type}

/-- What happens to a request after its submission; `compute` is the scheduler moving
`num_computed_tokens`. -/
inductive Op where
  | append (tokenIds : List Token)
  | compute (numComputedTokens : Int)
  | session (update : StreamingUpdate)
deriving DecidableEq, Repr

def step (hasher : Request H → List H) (r : Request H) : Op → Except Exn (Request H)
  | .append tokenIds => .ok (r.appendOutputTokenIds (some hasher) tokenIds)
  | .compute numComputedTokens => .ok { r with numComputedTokens := numComputedTokens }
  | .session update => r.updateAsSession (some hasher) update

def run (hasher : Request H → List H) (e : EngineCoreRequest) (ops : List Op) :
    Except Exn (Request H) :=
  ops.foldlM (step hasher) (Request.fromEngineCoreRequest (some hasher) e)

/-- The two prefixes have the same content: tokens, multimodal items with their places,
adapter, salt and embeddings. -/
structure SamePrefix (r₁ r₂ : Request H) (e₁ e₂ : Nat) : Prop where
  tokens : r₁.allTokenIds.take e₁ = r₂.allTokenIds.take e₂
  items : (r₁.mmFeatures.filter (·.offset < e₁)).map (fun m => (m.identifier, m.offset)) =
    (r₂.mmFeatures.filter (·.offset < e₂)).map (fun m => (m.identifier, m.offset))
  lora : r₁.loraRequest.map LoRARequest.loraName = r₂.loraRequest.map LoRARequest.loraName
  salt : r₁.cacheSalt = r₂.cacheSalt
  embeds : r₁.promptEmbeds.map (take e₁) = r₂.promptEmbeds.map (take e₂)

def Sorted (mms : List MultiModalFeature) : Prop :=
  mms.Pairwise fun a b => a.offset + a.length ≤ b.offset

/-- Before the hashes are extended: once some block is hashed only the last item may start
in a block that is not hashed yet. -/
structure MmReady (blockSize : Nat) (r : Request H) : Prop where
  sorted : Sorted r.mmFeatures
  passed : r.blockHashes ≠ [] →
    ∀ m ∈ r.mmFeatures.dropLast, m.offset < r.blockHashes.length * blockSize

/-- A session update drops no hashed token, and the hashes are extended only when the
cursor is in place. -/
def StepOk (blockSize : Nat) (r : Request H) : Op → Prop
  | .append _ => MmReady blockSize r
  | .compute _ => True
  | .session update =>
    (r.blockHashes.length * blockSize : Nat) ≤ r.numComputedTokens ∧
      MmReady blockSize (r.continueSession update (r.promptTokenIds.getD []))

def RunOk (hasher : Request H → List H) (blockSize : Nat) : Request H → List Op → Prop
  | _, [] => True
  | r, op :: ops =>
    StepOk blockSize r op ∧ ∀ r', step hasher r op = .ok r' → RunOk hasher blockSize r' ops

inductive KeyKind where
  | lora
  | mm
  | salt
deriving DecidableEq, Repr

/-- The extra keys of the request can be read back: the three kinds of strings do not mix,
the salt is not empty, items are not empty, and where an item starts can be told from the
tokens up to there. -/
structure Readable (kind : String → KeyKind) (isStart : List Token → Prop) (r : Request H) :
    Prop where
  lora : ∀ l, r.loraRequest = some l → kind l.loraName = .lora
  mm : ∀ m ∈ r.mmFeatures, kind m.identifier = .mm ∧ 0 < m.length
  salt : ∀ s, r.cacheSalt = some s → kind s = .salt ∧ s ≠ ""
  sorted : Sorted r.mmFeatures
  starts : ∀ p < r.numTokens,
    (∃ m ∈ r.mmFeatures, m.offset = p) ↔ isStart (r.allTokenIds.take (p + 1))

/-- The items that start in `[s, e)`. -/
def startsIn (mms : List MultiModalFeature) (s e : Nat) : List MultiModalFeature :=
  mms.filter fun m => s ≤ m.offset ∧ m.offset < e

theorem startsIn_cons (mm : MultiModalFeature) (mms : List MultiModalFeature) (s e : Nat) :
    startsIn (mm :: mms) s e =
      if s ≤ mm.offset ∧ mm.offset < e then mm :: startsIn mms s e else startsIn mms s e := by
  simp [startsIn, filter_cons]

variable {mms : List MultiModalFeature}

/-- The loop over the items names first items that started before the block and then
exactly the items that start in the block, and passes only items that start before its end. -/
theorem mmLoop_spec {s e : Nat} (hsorted : Sorted mms) (idx : Nat) :
    ∃ carry k, (mmLoop s e mms idx).1 =
        carry ++ (startsIn mms s e).map MultiModalFeature.identifier ∧
      (∀ key ∈ carry, ∃ m ∈ mms, m.identifier = key ∧ m.offset < s) ∧
      (mmLoop s e mms idx).2 = idx + k ∧ ∀ m ∈ mms.take k, m.offset < e := by
  induction mms generalizing idx with
  | nil =>
    exact ⟨[], 0, rfl, by simp, rfl, by simp⟩
  | cons mm mms ih =>
    have hlater : ∀ m ∈ mms, mm.offset + mm.length ≤ m.offset :=
      fun m hm => rel_of_pairwise_cons hsorted hm
    have hnone : e ≤ mm.offset + mm.length → startsIn mms s e = [] := by
      intro he
      rw [startsIn, filter_eq_nil_iff]
      intro m hm
      have := hlater m hm
      simp only [decide_eq_true_eq, not_and, not_lt]
      omega
    rw [startsIn_cons]
    by_cases hend : e > mm.offset
    · obtain ⟨carry, k, hkeys, hcarry, hidx, hk⟩ := ih hsorted.of_cons (idx + 1)
      have hcarry' : ∀ key ∈ carry, ∃ m ∈ mm :: mms, m.identifier = key ∧ m.offset < s := by
        intro key hkey
        obtain ⟨m, hm, hid⟩ := hcarry key hkey
        exact ⟨m, mem_cons_of_mem _ hm, hid⟩
      have hk' : ∀ m ∈ (mm :: mms).take (k + 1), m.offset < e := by
        intro m hm
        rcases mem_cons.mp hm with rfl | hm
        · exact hend
        · exact hk m hm
      by_cases hpassed : s > mm.offset + mm.length
      · refine ⟨carry, k + 1, ?_, hcarry', ?_, hk'⟩
        · rw [if_neg (by omega)]
          simp only [mmLoop, hend, if_true, hpassed, hkeys]
        · simp only [mmLoop, hend, if_true, hpassed, hidx]
          omega
      by_cases hinside : e ≥ mm.offset + mm.length
      · have hloop : mmLoop s e (mm :: mms) idx =
            (mm.identifier :: (mmLoop s e mms (idx + 1)).1, (mmLoop s e mms (idx + 1)).2) := by
          simp only [mmLoop, hend, if_true, hpassed, if_false, hinside]
        rw [hloop, hkeys]
        by_cases hstart : s ≤ mm.offset
        · -- items after one that starts in the block start later still
          have hnil : carry = [] := by
            refine eq_nil_iff_forall_not_mem.mpr fun key hkey => ?_
            obtain ⟨m, hm, -, hlt⟩ := hcarry key hkey
            have := hlater m hm
            omega
          refine ⟨[], k + 1, ?_, by simp, by omega, hk'⟩
          rw [if_pos ⟨hstart, hend⟩, hnil]
          rfl
        · refine ⟨mm.identifier :: carry, k + 1, ?_, ?_, by omega, hk'⟩
          · rw [if_neg (by omega)]
            rfl
          · intro key hkey
            rcases mem_cons.mp hkey with rfl | hkey
            · exact ⟨mm, by simp, rfl, by omega⟩
            · exact hcarry' key hkey
      · have hloop : mmLoop s e (mm :: mms) idx = ([mm.identifier], idx) := by
          simp only [mmLoop, hend, if_true, hpassed, if_false, hinside]
        rw [hloop, hnone (by omega)]
        by_cases hstart : s ≤ mm.offset
        · exact ⟨[], 0, by simp [hstart, hend], by simp, rfl, by simp⟩
        · grind
    · refine ⟨[], 0, ?_, by simp, by simp [mmLoop, hend], by simp⟩
      rw [hnone (by omega)]
      simp [mmLoop, hend]

/-- The items before the cursor start before position `s`. -/
def CursorOk (mms : List MultiModalFeature) (cursor : Int) (s : Nat) : Prop :=
  -1 ≤ cursor ∧
    ∀ m ∈ mms.take (if cursor < 0 then (mms.length : Int) + cursor else cursor).toNat,
      m.offset < s

variable {cursor : Int}

theorem genMmExtraHashKeys_spec (hsorted : Sorted mms) {s e : Nat} (hse : s ≤ e)
    (hcursor : CursorOk mms cursor s) :
    ∃ carry, (genMmExtraHashKeys mms s e cursor).1 =
        carry ++ (startsIn mms s e).map MultiModalFeature.identifier ∧
      (∀ key ∈ carry, ∃ m ∈ mms, m.identifier = key) ∧
      CursorOk mms (genMmExtraHashKeys mms s e cursor).2 e := by
  have hkeep : CursorOk mms cursor e :=
    ⟨hcursor.1, fun m hm => (hcursor.2 m hm).trans_le hse⟩
  unfold genMmExtraHashKeys
  split
  · rename_i hlast
    rw [getLast?_eq_none_iff] at hlast
    exact ⟨[], by simp [hlast, startsIn], by simp, hkeep⟩
  · rename_i lastPos hlast
    split
    · refine ⟨[], ?_, by simp, hkeep⟩
      have hnone : startsIn mms s e = [] := by
        rw [startsIn, filter_eq_nil_iff]
        intro m hm
        have hle : m.offset ≤ lastPos.offset + lastPos.length := by
          obtain ⟨pre, rfl⟩ := getLast?_eq_some_iff.mp hlast
          rcases mem_append.mp hm with hm | hm
          · have := (pairwise_append.mp hsorted).2.2 m hm lastPos (by simp)
            omega
          · rw [mem_singleton.mp hm]
            omega
        simp only [decide_eq_true_eq, not_and, not_lt]
        omega
      simp [hnone]
    · set idx := (if cursor < 0 then (mms.length : Int) + cursor else cursor).toNat
      have hdrop : Sorted (mms.drop idx) := hsorted.sublist (drop_sublist _ _)
      obtain ⟨carry, k, hkeys, hcarry, hidx, hk⟩ := mmLoop_spec hdrop idx
      have hsplit : startsIn mms s e = startsIn (mms.drop idx) s e := by
        conv_lhs => rw [← take_append_drop idx mms]
        rw [startsIn, filter_append, filter_eq_nil_iff.mpr ?_]
        · rfl
        · intro m hm
          have := hcursor.2 m hm
          simp only [decide_eq_true_eq, not_and, not_lt]
          omega
      refine ⟨carry, by rw [hkeys, hsplit], ?_, ?_, ?_⟩
      · intro key hkey
        obtain ⟨m, hm, hid, -⟩ := hcarry key hkey
        exact ⟨m, mem_of_mem_drop hm, hid⟩
      · simp only
        omega
      · intro m hm
        change m ∈ mms.take (if ((mmLoop s e (mms.drop idx) idx).2 : Int) < 0 then _
          else ((mmLoop s e (mms.drop idx) idx).2 : Int)).toNat at hm
        rw [if_neg (by omega), Int.toNat_natCast, hidx, take_add, mem_append] at hm
        rcases hm with hm | hm
        · exact hkeep.2 m hm
        · exact hk m hm

/-- The extra keys of the block at `[s, e)`: the multimodal part ends with the items that
start in the block. -/
def KeysOk (r : Request H) (s e : Nat) (keys : Option (List ExtraKey)) : Prop :=
  ∃ carry : List String, (∀ key ∈ carry, ∃ m ∈ r.mmFeatures, m.identifier = key) ∧
    keys.getD [] = genLoraExtraHashKeys r ++
      (carry ++ (startsIn r.mmFeatures s e).map MultiModalFeature.identifier).map ExtraKey.str ++
      cacheSaltKeys r s ++ genPromptEmbedsExtraHashKeys r s e

theorem generateBlockHashExtraKeys_spec {r : Request H} (hsorted : Sorted r.mmFeatures) {s e : Nat}
    (hse : s ≤ e) (hcursor : CursorOk r.mmFeatures cursor s) :
    KeysOk r s e (generateBlockHashExtraKeys r s e cursor).1 ∧
      CursorOk r.mmFeatures (generateBlockHashExtraKeys r s e cursor).2 e := by
  obtain ⟨carry, hkeys, hcarry, hnext⟩ := genMmExtraHashKeys_spec hsorted hse hcursor
  refine ⟨⟨carry, hcarry, ?_⟩, hnext⟩
  simp only [generateBlockHashExtraKeys, hkeys]
  split
  · rename_i hnil
    exact hnil.symm
  · rfl

/-- Position `k` of the request's tokens, cut into blocks. -/
def blockTokens (blockSize : Nat) (r : Request H) (k : Nat) : List Token :=
  (r.allTokenIds.take ((k + 1) * blockSize)).drop (k * blockSize)

variable {keys : Option (List ExtraKey)} {parent : H} {hs : List H}

section chain

variable (hash : HashInput H → H) (blockSize : Nat)

/-- The hashes `hs` are those of the blocks of `r` from block `k` on, after a block with
hash `parent`. -/
def Chained (r : Request H) : Nat → H → List H → Prop
  | _, _, [] => True
  | k, parent, h :: hs =>
    (k + 1) * blockSize ≤ r.numTokens ∧
    (∃ keys, KeysOk r (k * blockSize) ((k + 1) * blockSize) keys ∧
      h = hash (.block parent (blockTokens blockSize r k) keys)) ∧
    Chained r (k + 1) h hs

/-- The first `n` positions of `r'` hold what those of `r` hold. -/
structure Extends (n : Nat) (r r' : Request H) : Prop where
  tokens : r'.allTokenIds.take n = r.allTokenIds.take n
  items : ∃ later, r'.mmFeatures = r.mmFeatures ++ later ∧ ∀ m ∈ later, n ≤ m.offset
  lora : r'.loraRequest = r.loraRequest
  salt : r'.cacheSalt = r.cacheSalt
  embeds : r'.promptEmbeds = r.promptEmbeds

variable {hash blockSize}

variable {n e : Nat} {r r' : Request H}

theorem Extends.take_eq (h : Extends n r r') (he : e ≤ n) :
    r'.allTokenIds.take e = r.allTokenIds.take e := by
  have := congrArg (take e) h.tokens
  rwa [take_take, take_take, Nat.min_eq_left he] at this

theorem Extends.le_numTokens (h : Extends n r r') (he : e ≤ n) (hr : e ≤ r.numTokens) :
    e ≤ r'.numTokens := by
  have hlen := congrArg length (h.take_eq he)
  simp only [length_take] at hlen
  unfold Request.numTokens at hr ⊢
  omega

theorem KeysOk.extend {s : Nat} (hkeys : KeysOk r s e keys) (hext : Extends n r r') (he : e ≤ n) :
    KeysOk r' s e keys := by
  obtain ⟨carry, hcarry, heq⟩ := hkeys
  obtain ⟨later, hitems, hlater⟩ := hext.items
  have hstarts : startsIn r'.mmFeatures s e = startsIn r.mmFeatures s e := by
    grind [startsIn, filter_eq_nil_iff]
  refine ⟨carry, ?_, ?_⟩
  · intro key hkey
    obtain ⟨m, hm, hid⟩ := hcarry key hkey
    exact ⟨m, hitems ▸ mem_append_left _ hm, hid⟩
  · simp only [heq, hstarts, genLoraExtraHashKeys, cacheSaltKeys, genPromptEmbedsExtraHashKeys,
      hext.lora, hext.salt, hext.embeds]

theorem Chained.extend {k : Nat} (h : Chained hash blockSize r k parent hs)
    (hext : Extends ((k + hs.length) * blockSize) r r') :
    Chained hash blockSize r' k parent hs := by
  induction hs generalizing k parent with
  | nil => trivial
  | cons x hs ih =>
    obtain ⟨hlen, ⟨keys, hkeys, hx⟩, htail⟩ := h
    have he : (k + 1) * blockSize ≤ (k + (x :: hs).length) * blockSize :=
      Nat.mul_le_mul_right _ (by simp only [length_cons]; omega)
    refine ⟨hext.le_numTokens he hlen, ⟨keys, hkeys.extend hext he, ?_⟩, ih htail ?_⟩
    · rw [hx, blockTokens, blockTokens, hext.take_eq he]
    · rwa [show k + 1 + hs.length = k + (hs.length + 1) by omega]

theorem Chained.append {k : Nat} {hs' : List H} (h : Chained hash blockSize r k parent hs)
    (h' : Chained hash blockSize r (k + hs.length) (hs.getLast?.getD parent) hs') :
    Chained hash blockSize r k parent (hs ++ hs') := by
  induction hs generalizing k parent with
  | nil => exact h'
  | cons x hs ih =>
    obtain ⟨hlen, hx, htail⟩ := h
    refine ⟨hlen, hx, ih htail ?_⟩
    rw [getLast?_cons] at h'
    rwa [show k + 1 + hs.length = k + (hs.length + 1) by omega]

theorem hashLoop_chained {noneHash : H} (hsorted : Sorted r.mmFeatures) (fuel k : Nat)
    (hcursor : CursorOk r.mmFeatures cursor (k * blockSize)) (prev : Option H) :
    Chained hash blockSize r k (prev.getD noneHash)
      (hashLoop hash noneHash blockSize r fuel (k * blockSize) cursor prev) := by
  induction fuel generalizing k cursor prev with
  | zero => trivial
  | succ fuel ih =>
    have hend : k * blockSize + blockSize = (k + 1) * blockSize := (Nat.succ_mul _ _).symm
    obtain ⟨hkeys, hnext⟩ := generateBlockHashExtraKeys_spec hsorted
      (Nat.le_add_right (k * blockSize) blockSize) hcursor
    rw [hashLoop]
    split
    · trivial
    · rename_i hlen
      rw [hend] at hlen hkeys hnext ⊢
      generalize generateBlockHashExtraKeys r (k * blockSize) ((k + 1) * blockSize) cursor
        = keys at hkeys hnext ⊢
      obtain ⟨keys, next⟩ := keys
      exact ⟨Nat.le_of_not_gt hlen, ⟨keys, hkeys, rfl⟩, ih (k + 1) hnext (some _)⟩

theorem requestBlockHasher_chained {noneHash : H} (hready : MmReady blockSize r)
    (h : Chained hash blockSize r 0 noneHash r.blockHashes) : Chained hash blockSize r 0 noneHash
      (r.blockHashes ++ requestBlockHasher hash noneHash blockSize r) := by
  refine h.append ?_
  rw [requestBlockHasher, Nat.zero_add]
  split
  · trivial
  · refine hashLoop_chained hready.sorted _ _ ⟨?_, ?_⟩ _
    · split <;> omega
    · intro m hm
      by_cases hstart : r.blockHashes.length * blockSize > 0
      · rw [if_pos hstart, if_pos (by omega)] at hm
        have hne : r.blockHashes ≠ [] := by
          intro hnil
          simp [hnil] at hstart
        refine hready.passed hne m ?_
        rw [dropLast_eq_take]
        rwa [show ((r.mmFeatures.length : Int) + -1).toNat = r.mmFeatures.length - 1 by omega]
          at hm
      · simp [hstart] at hm

end chain

section runs

variable {hash : HashInput H → H} {noneHash : H} {blockSize : Nat}

variable {r r' : Request H}

theorem Extends.refl_of_eq {n : Nat} (htokens : r'.allTokenIds = r.allTokenIds)
    (hitems : r'.mmFeatures = r.mmFeatures) (hlora : r'.loraRequest = r.loraRequest)
    (hsalt : r'.cacheSalt = r.cacheSalt) (hembeds : r'.promptEmbeds = r.promptEmbeds) :
    Extends n r r' :=
  ⟨by rw [htokens], ⟨[], by simp [hitems], by simp⟩, hlora, hsalt, hembeds⟩

theorem Chained.updateBlockHashes (hready : MmReady blockSize r)
    (h : Chained hash blockSize r 0 noneHash r.blockHashes) :
    Chained hash blockSize (r.updateBlockHashes (some (requestBlockHasher hash noneHash blockSize)))
      0 noneHash
      (r.updateBlockHashes (some (requestBlockHasher hash noneHash blockSize))).blockHashes :=
  (requestBlockHasher_chained hready h).extend
    (.refl_of_eq rfl rfl rfl rfl rfl)

theorem Chained.length_le {k : Nat} (h : Chained hash blockSize r k parent hs)
    (hk : k * blockSize ≤ r.numTokens) : (k + hs.length) * blockSize ≤ r.numTokens := by
  induction hs generalizing k parent with
  | nil => exact hk
  | cons x hs ih =>
    have := ih h.2.2 h.1
    rwa [length_cons, show k + (hs.length + 1) = k + 1 + hs.length by omega]

theorem step_chained {op : Op} (hok : StepOk blockSize r op)
    (h : Chained hash blockSize r 0 noneHash r.blockHashes)
    (hstep : step (requestBlockHasher hash noneHash blockSize) r op = .ok r') :
    Chained hash blockSize r' 0 noneHash r'.blockHashes := by
  have hlen : r.blockHashes.length * blockSize ≤ r.numTokens := by
    simpa using h.length_le (by simp)
  cases op with
  | append tokenIds =>
    cases hstep
    refine Chained.updateBlockHashes ⟨hok.sorted, hok.passed⟩ (h.extend ?_)
    refine ⟨?_, ⟨[], by simp, by simp⟩, rfl, rfl, rfl⟩
    rw [Nat.zero_add]
    exact take_append_of_le_length hlen
  | compute numComputedTokens =>
    cases hstep
    exact h.extend (.refl_of_eq rfl rfl rfl rfl rfl)
  | session update =>
    obtain ⟨hcomputed, hready⟩ := hok
    simp only [step, Request.updateAsSession] at hstep
    split at hstep
    · cases hstep
    · rename_i promptTokenIds hprompt
      cases hstep
      rw [hprompt] at hready
      have hext : Extends (r.blockHashes.length * blockSize) r
          (r.continueSession update promptTokenIds) := by
        have hle : r.blockHashes.length * blockSize ≤ r.numComputedTokens.toNat := by omega
        have hkept : r.blockHashes.length * blockSize ≤
            (r.allTokenIds.take r.numComputedTokens.toNat).length := by
          rw [length_take]
          exact Nat.le_min.mpr ⟨hle, hlen⟩
        refine ⟨?_, ⟨_, rfl, ?_⟩, rfl, rfl, rfl⟩
        · change ((r.allTokenIds.take _) ++ _).take _ = _
          rw [take_append_of_le_length hkept, take_take, Nat.min_eq_left hle]
        · intro m hm
          obtain ⟨m₀, -, rfl⟩ := mem_map.mp hm
          exact hkept.trans (Nat.le_add_left _ _)
      have hchain : Chained hash blockSize (r.continueSession update promptTokenIds) 0 noneHash
          (r.continueSession update promptTokenIds).blockHashes :=
        h.extend (by rwa [Nat.zero_add])
      exact (hchain.updateBlockHashes hready).extend (.refl_of_eq rfl rfl rfl rfl rfl)

theorem foldlM_step_chained {ops : List Op}
    (hok : RunOk (requestBlockHasher hash noneHash blockSize) blockSize r ops)
    (h : Chained hash blockSize r 0 noneHash r.blockHashes)
    (hrun : ops.foldlM (step (requestBlockHasher hash noneHash blockSize)) r = .ok r') :
    Chained hash blockSize r' 0 noneHash r'.blockHashes := by
  induction ops generalizing r with
  | nil =>
    cases hrun
    exact h
  | cons op ops ih =>
    obtain ⟨r₁, hstep, hrest⟩ := of_bind hrun
    exact ih (hok.2 r₁ hstep) (step_chained hok.1 h hstep) hrest

theorem run_chained {e : EngineCoreRequest} (hsorted : Sorted e.mmFeatures) {ops : List Op}
    (hok : RunOk (requestBlockHasher hash noneHash blockSize) blockSize
      (Request.fromEngineCoreRequest (some (requestBlockHasher hash noneHash blockSize)) e) ops)
    (hrun : run (requestBlockHasher hash noneHash blockSize) e ops = .ok r) :
    Chained hash blockSize r 0 noneHash r.blockHashes := by
  refine foldlM_step_chained hok ?_ hrun
  exact Chained.updateBlockHashes ⟨hsorted, fun h => absurd rfl h⟩ trivial

end runs

theorem Chained.get {hash : HashInput H → H} {blockSize : Nat} {r : Request H} {k : Nat}
    (hchain : Chained hash blockSize r k parent hs) {i : Nat} {h : H} (hi : hs[i]? = some h) :
    (k + i + 1) * blockSize ≤ r.numTokens ∧
      ∃ p keys, (parent :: hs)[i]? = some p ∧
        KeysOk r ((k + i) * blockSize) ((k + i + 1) * blockSize) keys ∧
        h = hash (.block p (blockTokens blockSize r (k + i)) keys) := by
  induction hs generalizing k parent i with
  | nil => simp at hi
  | cons x hs ih =>
    obtain ⟨hlen, ⟨keys, hkeys, hx⟩, htail⟩ := hchain
    cases i with
    | zero =>
      rw [getElem?_cons_zero, Option.some.injEq] at hi
      exact ⟨hlen, parent, keys, rfl, hkeys, hi ▸ hx⟩
    | succ i =>
      rw [show k + (i + 1) = k + 1 + i by omega]
      exact ih htail hi

/-- Block `k` of the two requests was hashed from the same tokens and keys. -/
def SameBlock (blockSize : Nat) (r₁ r₂ : Request H) (k : Nat) : Prop :=
  blockTokens blockSize r₁ k = blockTokens blockSize r₂ k ∧
    ∃ keys, KeysOk r₁ (k * blockSize) ((k + 1) * blockSize) keys ∧
      KeysOk r₂ (k * blockSize) ((k + 1) * blockSize) keys

section inj

variable {hash : HashInput H → H} (hinj : Function.Injective hash) {seed : String}
  {blockSize : Nat} {r₁ r₂ : Request H} {hs₁ hs₂ : List H} {i j : Nat} {h : H}
  (hchain₁ : Chained hash blockSize r₁ 0 (hash (.seed seed)) hs₁)
  (hchain₂ : Chained hash blockSize r₂ 0 (hash (.seed seed)) hs₂)
include hinj hchain₁

theorem ne_seed (hi : hs₁[i]? = some h) : h ≠ hash (.seed seed) := by
  rintro rfl
  obtain ⟨-, _, _, -, -, hseed⟩ := hchain₁.get hi
  cases hinj hseed

include hchain₂

theorem parents_eq (hi : hs₁[i]? = some h) (hj : hs₂[j]? = some h) :
    (∃ p, (hash (.seed seed) :: hs₁)[i]? = some p ∧ (hash (.seed seed) :: hs₂)[j]? = some p) ∧
      (i = j → SameBlock blockSize r₁ r₂ i) := by
  obtain ⟨-, p, keys, hp, hkeys, heq⟩ := hchain₁.get hi
  obtain ⟨-, p', keys', hp', hkeys', heq'⟩ := hchain₂.get hj
  have hblock := hinj (heq.symm.trans heq')
  simp only [HashInput.block.injEq, Nat.zero_add] at hblock hkeys hkeys'
  obtain ⟨rfl, htokens, rfl⟩ := hblock
  refine ⟨⟨p, hp, hp'⟩, ?_⟩
  rintro rfl
  exact ⟨htokens, keys, hkeys, hkeys'⟩

theorem sameBlock_of_hash_eq (hi : hs₁[i]? = some h) (hj : hs₂[j]? = some h) :
    i = j ∧ ∀ k ≤ i, SameBlock blockSize r₁ r₂ k := by
  induction i generalizing j h with
  | zero =>
    obtain ⟨⟨p, hp, hp'⟩, hblock⟩ := parents_eq hinj hchain₁ hchain₂ hi hj
    rw [getElem?_cons_zero, Option.some.injEq] at hp
    cases j with
    | zero => exact ⟨rfl, fun k hk => Nat.le_zero.mp hk ▸ hblock rfl⟩
    | succ j => exact absurd hp.symm (ne_seed hinj hchain₂ hp')
  | succ i ih =>
    obtain ⟨⟨p, hp, hp'⟩, hblock⟩ := parents_eq hinj hchain₁ hchain₂ hi hj
    cases j with
    | zero =>
      rw [getElem?_cons_zero, Option.some.injEq] at hp'
      exact absurd hp'.symm (ne_seed hinj hchain₁ hp)
    | succ j =>
      obtain ⟨rfl, hall⟩ := ih hp hp'
      refine ⟨rfl, fun k hk => ?_⟩
      rcases Nat.le_succ_iff.mp hk with hle | rfl
      · exact hall k hle
      · exact hblock rfl

end inj

/-- The kind of an extra key; `none` for the bytes of embeddings. -/
def keyKind (kind : String → KeyKind) : ExtraKey → Option KeyKind
  | .str s => some (kind s)
  | .bytes _ => none

def ofKind (kind : String → KeyKind) (k : Option KeyKind) (keys : List ExtraKey) :
    List ExtraKey :=
  keys.filter fun key => keyKind kind key = k

section read

variable {kind : String → KeyKind} {isStart : List Token → Prop} {r : Request H}

theorem ofKind_append (k : Option KeyKind) (l l' : List ExtraKey) :
    ofKind kind k (l ++ l') = ofKind kind k l ++ ofKind kind k l' :=
  filter_append ..

theorem ofKind_of_forall {k k' : Option KeyKind} {l : List ExtraKey}
    (h : ∀ key ∈ l, keyKind kind key = k') :
    ofKind kind k l = if k' = k then l else [] := by
  split
  · rename_i heq
    exact filter_eq_self.mpr fun key hkey => by simp [h key hkey, heq]
  · rename_i hne
    exact filter_eq_nil_iff.mpr fun key hkey => by simp [h key hkey, hne]

theorem KeysOk.ofKind {s e : Nat} (hkeys : KeysOk r s e keys) (hread : Readable kind isStart r) :
    ofKind kind (some .lora) (keys.getD []) = genLoraExtraHashKeys r ∧
    (∃ carry : List String, ofKind kind (some .mm) (keys.getD []) =
      (carry ++ (startsIn r.mmFeatures s e).map MultiModalFeature.identifier).map ExtraKey.str) ∧
    ofKind kind (some .salt) (keys.getD []) = cacheSaltKeys r s ∧
    ofKind kind none (keys.getD []) = genPromptEmbedsExtraHashKeys r s e := by
  obtain ⟨carry, hcarry, heq⟩ := hkeys
  have hlora : ∀ key ∈ genLoraExtraHashKeys r, keyKind kind key = some .lora := by
    unfold genLoraExtraHashKeys
    split
    · simp
    · rename_i l hl
      simp [keyKind, hread.lora l hl]
  have hmm : ∀ key ∈ (carry ++
      (startsIn r.mmFeatures s e).map MultiModalFeature.identifier).map ExtraKey.str,
      keyKind kind key = some .mm := by
    intro key hkey
    obtain ⟨id, hid, rfl⟩ := mem_map.mp hkey
    have hitem : ∃ m ∈ r.mmFeatures, m.identifier = id := by
      rcases mem_append.mp hid with hid | hid
      · exact hcarry id hid
      · obtain ⟨m, hm, rfl⟩ := mem_map.mp hid
        exact ⟨m, (mem_filter.mp hm).1, rfl⟩
    obtain ⟨m, hm, rfl⟩ := hitem
    simp [keyKind, (hread.mm m hm).1]
  have hsalt : ∀ key ∈ cacheSaltKeys r s, keyKind kind key = some .salt := by
    unfold cacheSaltKeys
    split
    · simp
    · rename_i salt hsalt
      split
      · simp [keyKind, (hread.salt salt hsalt).1]
      · simp
  have hembeds : ∀ key ∈ genPromptEmbedsExtraHashKeys r s e, keyKind kind key = none := by
    unfold genPromptEmbedsExtraHashKeys
    split <;> simp [keyKind]
  refine ⟨?_, ⟨carry, ?_⟩, ?_, ?_⟩ <;>
    rw [heq, ofKind_append, ofKind_append, ofKind_append, ofKind_of_forall hlora,
      ofKind_of_forall hmm, ofKind_of_forall hsalt, ofKind_of_forall hembeds] <;>
    simp

theorem startsIn_offsets_sorted (hread : Readable kind isStart r) (s e : Nat) :
    ((startsIn r.mmFeatures s e).map MultiModalFeature.offset).Pairwise (· < ·) := by
  rw [pairwise_map]
  refine (hread.sorted.sublist filter_sublist).imp_of_mem ?_
  intro a b ha _ hab
  have := (hread.mm a (mem_filter.mp ha).1).2
  omega

theorem mem_startsIn_offsets (hread : Readable kind isStart r) {s e : Nat}
    (he : e ≤ r.numTokens) (p : Nat) :
    p ∈ (startsIn r.mmFeatures s e).map MultiModalFeature.offset ↔
      (s ≤ p ∧ p < e) ∧ isStart (r.allTokenIds.take (p + 1)) := by
  constructor
  · intro hp
    obtain ⟨m, hm, rfl⟩ := mem_map.mp hp
    obtain ⟨hm, hrange⟩ := mem_filter.mp hm
    rw [decide_eq_true_eq] at hrange
    exact ⟨hrange, (hread.starts _ (hrange.2.trans_le he)).mp ⟨m, hm, rfl⟩⟩
  · rintro ⟨hrange, hstart⟩
    obtain ⟨m, hm, rfl⟩ := (hread.starts p (hrange.2.trans_le he)).mpr hstart
    exact mem_map.mpr ⟨m, mem_filter.mpr ⟨hm, by simpa using hrange⟩, rfl⟩

theorem filter_offset_lt_add (hread : Readable kind isStart r) (s n : Nat) :
    r.mmFeatures.filter (·.offset < s + n) =
      r.mmFeatures.filter (·.offset < s) ++ startsIn r.mmFeatures s (s + n) := by
  have hsorted := hread.sorted
  generalize r.mmFeatures = mms at hsorted ⊢
  induction mms with
  | nil => rfl
  | cons m mms ih =>
    have hlater : ∀ m' ∈ mms, m.offset + m.length ≤ m'.offset :=
      fun m' hm' => rel_of_pairwise_cons hsorted hm'
    rw [startsIn_cons, filter_cons, filter_cons]
    by_cases hs : m.offset < s
    · rw [if_pos (by simp; omega), if_pos (by simpa using hs), if_neg (by omega),
        ih hsorted.of_cons]
      rfl
    · have hnil : mms.filter (·.offset < s) = [] := by
        rw [filter_eq_nil_iff]
        intro m' hm'
        have := hlater m' hm'
        simp only [decide_eq_true_eq]
        omega
      have htail := ih hsorted.of_cons
      rw [hnil, nil_append] at htail
      rw [if_neg (show ¬ decide (m.offset < s) = true by simpa using hs), hnil,
        nil_append, htail]
      by_cases hn : m.offset < s + n
      · rw [if_pos (by simpa using hn), if_pos ⟨by omega, hn⟩]
      · rw [if_neg (by simpa using hn), if_neg (by omega)]

end read

section assemble

variable {kind : String → KeyKind} {isStart : List Token → Prop} {blockSize : Nat}
variable {r₁ r₂ : Request H}

theorem take_succ_mul {α : Type} (l : List α) (k : Nat) :
    l.take ((k + 1) * blockSize) =
      l.take (k * blockSize) ++ (l.take ((k + 1) * blockSize)).drop (k * blockSize) := by
  have hle : k * blockSize ≤ (k + 1) * blockSize := Nat.mul_le_mul_right _ (by omega)
  conv_lhs => rw [← take_append_drop (k * blockSize) (l.take ((k + 1) * blockSize))]
  rw [take_take, Nat.min_eq_left hle]

theorem take_mul_eq {α : Type} {l₁ l₂ : List α} {n : Nat}
    (h : ∀ k < n, (l₁.take ((k + 1) * blockSize)).drop (k * blockSize) =
      (l₂.take ((k + 1) * blockSize)).drop (k * blockSize)) :
    l₁.take (n * blockSize) = l₂.take (n * blockSize) := by
  induction n with
  | zero => simp
  | succ n ih =>
    rw [take_succ_mul l₁, take_succ_mul l₂, ih fun k hk => h k (by omega), h n (by omega)]

theorem take_tokens_eq {n : Nat} (hblocks : ∀ k < n, SameBlock blockSize r₁ r₂ k) :
    r₁.allTokenIds.take (n * blockSize) = r₂.allTokenIds.take (n * blockSize) :=
  take_mul_eq fun k hk => (hblocks k hk).1

section

variable (hread₁ : Readable kind isStart r₁) (hread₂ : Readable kind isStart r₂)
include hread₁ hread₂

/-- The items that start in a block that was hashed alike are the same, at the same
places: the places can be told from the tokens and the identifiers from the keys. -/
theorem startsIn_eq {s e : Nat} (hlen₁ : e ≤ r₁.numTokens) (hlen₂ : e ≤ r₂.numTokens)
    (hkeys₁ : KeysOk r₁ s e keys) (hkeys₂ : KeysOk r₂ s e keys)
    (htokens : r₁.allTokenIds.take e = r₂.allTokenIds.take e) :
    (startsIn r₁.mmFeatures s e).map (fun m => (m.identifier, m.offset)) =
      (startsIn r₂.mmFeatures s e).map (fun m => (m.identifier, m.offset)) := by
  have hoffsets : (startsIn r₁.mmFeatures s e).map MultiModalFeature.offset =
      (startsIn r₂.mmFeatures s e).map MultiModalFeature.offset := by
    refine (startsIn_offsets_sorted hread₁ _ _).eq_of_mem_iff
      (startsIn_offsets_sorted hread₂ _ _) fun {p} => ?_
    rw [mem_startsIn_offsets hread₁ hlen₁, mem_startsIn_offsets hread₂ hlen₂]
    refine and_congr_right fun hrange => ?_
    have := congrArg (take (p + 1)) htokens
    rw [take_take, take_take, Nat.min_eq_left (by omega)] at this
    rw [this]
  have hids : (startsIn r₁.mmFeatures s e).map MultiModalFeature.identifier =
      (startsIn r₂.mmFeatures s e).map MultiModalFeature.identifier := by
    obtain ⟨-, ⟨carry₁, hmm₁⟩, -⟩ := hkeys₁.ofKind hread₁
    obtain ⟨-, ⟨carry₂, hmm₂⟩, -⟩ := hkeys₂.ofKind hread₂
    have heq := map_injective_iff.mpr (fun _ _ h => ExtraKey.str.inj h)
      (hmm₁.symm.trans hmm₂)
    have hcount := congrArg length hoffsets
    exact (append_inj' heq (by simpa using hcount)).2
  simpa only [zip_map'] using congrArg₂ zip hids hoffsets

theorem filter_items_eq {n : Nat} (hlen₁ : n * blockSize ≤ r₁.numTokens)
    (hlen₂ : n * blockSize ≤ r₂.numTokens) (hblocks : ∀ k < n, SameBlock blockSize r₁ r₂ k) :
    (r₁.mmFeatures.filter (·.offset < n * blockSize)).map (fun m => (m.identifier, m.offset)) =
      (r₂.mmFeatures.filter (·.offset < n * blockSize)).map
        (fun m => (m.identifier, m.offset)) := by
  induction n with
  | zero => simp
  | succ n ih =>
    have hle : n * blockSize ≤ (n + 1) * blockSize := Nat.mul_le_mul_right _ (by omega)
    obtain ⟨-, keys, hkeys₁, hkeys₂⟩ := hblocks n (by omega)
    have hstarts := startsIn_eq hread₁ hread₂ hlen₁ hlen₂ hkeys₁ hkeys₂ (take_tokens_eq hblocks)
    rw [Nat.succ_mul] at hstarts ⊢
    rw [filter_offset_lt_add hread₁, filter_offset_lt_add hread₂, map_append,
      map_append, hstarts,
      ih (hle.trans hlen₁) (hle.trans hlen₂) fun k hk => hblocks k (by omega)]

theorem embeds_eq {n : Nat} (hblocks : ∀ k < n + 1, SameBlock blockSize r₁ r₂ k) :
    r₁.promptEmbeds.map (take ((n + 1) * blockSize)) =
      r₂.promptEmbeds.map (take ((n + 1) * blockSize)) := by
  have hslices : ∀ k < n + 1,
      genPromptEmbedsExtraHashKeys r₁ (k * blockSize) ((k + 1) * blockSize) =
        genPromptEmbedsExtraHashKeys r₂ (k * blockSize) ((k + 1) * blockSize) := by
    intro k hk
    obtain ⟨keys, hkeys₁, hkeys₂⟩ := (hblocks k hk).2
    obtain ⟨-, -, -, hembeds₁⟩ := hkeys₁.ofKind hread₁
    obtain ⟨-, -, -, hembeds₂⟩ := hkeys₂.ofKind hread₂
    exact hembeds₁.symm.trans hembeds₂
  simp only [genPromptEmbedsExtraHashKeys] at hslices
  cases h₁ : r₁.promptEmbeds with
  | none =>
    cases h₂ : r₂.promptEmbeds with
    | none => rfl
    | some b => simpa [h₁, h₂] using hslices 0 (by omega)
  | some a =>
    cases h₂ : r₂.promptEmbeds with
    | none => simpa [h₁, h₂] using hslices 0 (by omega)
    | some b =>
      rw [Option.map_some, Option.map_some, Option.some.injEq]
      simp only [h₁, h₂, cons.injEq, ExtraKey.bytes.injEq, and_true] at hslices
      exact take_mul_eq hslices

theorem lora_eq (hblock : SameBlock blockSize r₁ r₂ 0) :
    r₁.loraRequest.map LoRARequest.loraName = r₂.loraRequest.map LoRARequest.loraName := by
  obtain ⟨keys, hkeys₁, hkeys₂⟩ := hblock.2
  have heq := (hkeys₁.ofKind hread₁).1.symm.trans (hkeys₂.ofKind hread₂).1
  unfold genLoraExtraHashKeys at heq
  cases h₁ : r₁.loraRequest <;> cases h₂ : r₂.loraRequest <;> simp_all

theorem salt_eq (hblock : SameBlock blockSize r₁ r₂ 0) : r₁.cacheSalt = r₂.cacheSalt := by
  obtain ⟨keys, hkeys₁, hkeys₂⟩ := hblock.2
  have heq := (hkeys₁.ofKind hread₁).2.2.1.symm.trans (hkeys₂.ofKind hread₂).2.2.1
  have hsalt₁ := fun s h => (hread₁.salt s h).2
  have hsalt₂ := fun s h => (hread₂.salt s h).2
  unfold cacheSaltKeys at heq
  cases h₁ : r₁.cacheSalt <;> cases h₂ : r₂.cacheSalt <;> simp_all

end

end assemble

/-- Equal block hashes mean equal prefixes, between any two runs in which no session update
drops a hashed token, the cursor of the hasher passes no item over and the extra keys can be
read back. -/
theorem blockHash_sound {hash : HashInput H → H} (hinj : Function.Injective hash)
    (seed : String) (blockSize : Nat) (kind : String → KeyKind) (isStart : List Token → Prop)
    (e₁ e₂ : EngineCoreRequest) (ops₁ ops₂ : List Op) {r₁ r₂ : Request H}
    (hsorted₁ : Sorted e₁.mmFeatures) (hsorted₂ : Sorted e₂.mmFeatures)
    (hok₁ : RunOk (requestBlockHasher hash (hash (.seed seed)) blockSize) blockSize
      (Request.fromEngineCoreRequest
        (some (requestBlockHasher hash (hash (.seed seed)) blockSize)) e₁) ops₁)
    (hok₂ : RunOk (requestBlockHasher hash (hash (.seed seed)) blockSize) blockSize
      (Request.fromEngineCoreRequest
        (some (requestBlockHasher hash (hash (.seed seed)) blockSize)) e₂) ops₂)
    (hrun₁ : run (requestBlockHasher hash (hash (.seed seed)) blockSize) e₁ ops₁ = .ok r₁)
    (hrun₂ : run (requestBlockHasher hash (hash (.seed seed)) blockSize) e₂ ops₂ = .ok r₂)
    (hread₁ : Readable kind isStart r₁) (hread₂ : Readable kind isStart r₂)
    (i j : Nat) {h : H} (hi : r₁.blockHashes[i]? = some h) (hj : r₂.blockHashes[j]? = some h) :
    SamePrefix r₁ r₂ ((i + 1) * blockSize) ((j + 1) * blockSize) := by
  have hchain₁ := run_chained hsorted₁ hok₁ hrun₁
  have hchain₂ := run_chained hsorted₂ hok₂ hrun₂
  obtain ⟨rfl, hblocks⟩ := sameBlock_of_hash_eq hinj hchain₁ hchain₂ hi hj
  have hlen₁ := (hchain₁.get hi).1
  have hlen₂ := (hchain₂.get hj).1
  rw [Nat.zero_add] at hlen₁ hlen₂
  have hblocks' : ∀ k < i + 1, SameBlock blockSize r₁ r₂ k := fun k hk =>
    hblocks k (by omega)
  exact {
    tokens := take_tokens_eq hblocks'
    items := filter_items_eq hread₁ hread₂ hlen₁ hlen₂ hblocks'
    lora := lora_eq hread₁ hread₂ (hblocks 0 (by omega))
    salt := salt_eq hread₁ hread₂ (hblocks 0 (by omega))
    embeds := embeds_eq hread₁ hread₂ hblocks' }

inductive Digest where
  | seed (s : String)
  | block (parent : Digest) (tokenIds : List Token) (extraKeys : Option (List ExtraKey))
deriving DecidableEq, Repr

def digest : HashInput Digest → Digest
  | .seed s => .seed s
  | .block parent tokenIds extraKeys => .block parent tokenIds extraKeys

theorem digest_injective : Function.Injective digest := by
  rintro (s | ⟨p, t, k⟩) (s' | ⟨p', t', k'⟩) h <;> simp_all [digest]

def digestHasher (blockSize : Nat) : Request Digest → List Digest :=
  requestBlockHasher digest (digest (.seed "")) blockSize

/-- The two runs give block `i` the same hash though its prefixes differ. -/
def Collide (blockSize i : Nat) (e₁ : EngineCoreRequest) (ops₁ : List Op)
    (e₂ : EngineCoreRequest) (ops₂ : List Op) : Prop :=
  ∃ r₁ r₂ h, run (digestHasher blockSize) e₁ ops₁ = .ok r₁ ∧
    run (digestHasher blockSize) e₂ ops₂ = .ok r₂ ∧
    r₁.blockHashes[i]? = some h ∧ r₂.blockHashes[i]? = some h ∧
    ¬ SamePrefix r₁ r₂ ((i + 1) * blockSize) ((i + 1) * blockSize)

def submission (promptTokenIds : List Token) : EngineCoreRequest where
  requestId := 0
  promptTokenIds := some promptTokenIds
  samplingParams := { maxTokens := 10 }

/-- Four ways to a collision. A session update drops the sampled token `4` but keeps the hash
of the block that ended with it. The cursor restarts at the last item and passes over the
item before it in the same block. An item's place in the block is not hashed. An adapter name
and a salt give the same key. -/
theorem blockHash_collisions :
    Collide 2 1 (submission [1, 2, 3])
        [.append [4], .compute 3, .session ⟨[], [9], 0, { maxTokens := 10 }⟩]
      (submission [1, 2, 3, 4]) [] ∧
    Collide 4 1
      { submission [7, 7, 7, 7, 7, 7] with mmFeatures := [⟨"a", 4, 1⟩, ⟨"c", 5, 1⟩] }
        [.append [8, 9]]
      { submission [7, 7, 7, 7, 7, 7] with mmFeatures := [⟨"b", 4, 1⟩, ⟨"c", 5, 1⟩] }
        [.append [8, 9]] ∧
    Collide 4 0 { submission [7, 7, 7, 7] with mmFeatures := [⟨"a", 0, 2⟩] } []
      { submission [7, 7, 7, 7] with mmFeatures := [⟨"a", 1, 2⟩] } [] ∧
    Collide 2 0 { submission [1, 2] with loraRequest := some ⟨"x", 1⟩ } []
      { submission [1, 2] with cacheSalt := some "x" } [] := by
  refine ⟨⟨_, _, _, rfl, rfl, rfl, rfl, fun h => ?_⟩, ⟨_, _, _, rfl, rfl, rfl, rfl, fun h => ?_⟩,
    ⟨_, _, _, rfl, rfl, rfl, rfl, fun h => ?_⟩, ⟨_, _, _, rfl, rfl, rfl, rfl, fun h => ?_⟩⟩
  · exact absurd h.tokens (by decide)
  · exact absurd h.items (by decide)
  · exact absurd h.items (by decide)
  · exact absurd h.lora (by decide)

/-- The first chunk of a session; `7` marks where an item starts. -/
def firstChunk : EngineCoreRequest :=
  { submission [1, 7, 2, 3] with mmFeatures := [⟨"a", 1, 1⟩] }

def sessionOps : List Op :=
  [.append [5], .compute 4, .session ⟨[⟨"b", 0, 1⟩], [7, 8, 3], 0, { maxTokens := 10 }⟩]

def wholePrompt : EngineCoreRequest :=
  { submission [1, 7, 2, 3, 7, 8] with mmFeatures := [⟨"a", 1, 1⟩, ⟨"b", 4, 1⟩] }

theorem blockHash_sound_session :
    ∃ r₁ r₂ h, run (digestHasher 2) firstChunk sessionOps = .ok r₁ ∧
      run (digestHasher 2) wholePrompt [] = .ok r₂ ∧
      r₁.blockHashes[2]? = some h ∧ r₂.blockHashes[2]? = some h ∧ SamePrefix r₁ r₂ 6 6 := by
  refine ⟨_, _, _, rfl, rfl, rfl, rfl, ?_⟩
  refine blockHash_sound digest_injective "" 2 (fun _ => .mm) (fun l => l.getLast? = some 7)
    firstChunk wholePrompt sessionOps [] ?_ ?_ ?_ ?_ rfl rfl ?_ ?_ 2 2 rfl rfl
  · simp [Sorted, firstChunk]
  · simp [Sorted, wholePrompt]
  · refine ⟨⟨by unfold Sorted; decide, by decide⟩, ?_⟩
    rintro _ ⟨⟩
    refine ⟨trivial, ?_⟩
    rintro _ ⟨⟩
    refine ⟨⟨by decide, by unfold Sorted; decide, by decide⟩, ?_⟩
    rintro _ ⟨⟩
    trivial
  · trivial
  · exact ⟨nofun, by decide, nofun, by unfold Sorted; decide, by decide⟩
  · exact ⟨nofun, by decide, nofun, by unfold Sorted; decide, by decide⟩

end LongCtxSpecDecode.PrefixCacheSoundness
