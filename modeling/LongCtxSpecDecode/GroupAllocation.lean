import LongCtxSpecDecode.KVCacheOwnership

/-!
# Freeing, touching and allocating in one group

What each method of a single-type manager does to the blocks of its request, and how many free
blocks it uses up: exactly what `get_num_blocks_to_allocate` has set aside for it.
-/

namespace LongCtxSpecDecode.SingleTypeKVCacheManager

open BlockPool List Function

variable {H : Type}

/-- Nothing but the block list of request `r` differs. -/
structure SameButList (r : ReqId) (m m' : SingleTypeKVCacheManager) : Prop where
  spec : m'.kvCacheSpec = m.kvCacheSpec
  cached : m'.numCachedBlock = m.numCachedBlock
  lastState : m'.lastStateBlockIdx = m.lastStateBlockIdx
  allocated : m'.allocatedBlockReqs = m.allocatedBlockReqs
  blocks : ∀ r' ≠ r, m'.blocksOf r' = m.blocksOf r'

theorem SameButList.refl (r : ReqId) (m : SingleTypeKVCacheManager) : SameButList r m m :=
  ⟨rfl, rfl, rfl, rfl, fun _ _ => rfl⟩

variable {r : ReqId} {m m' : SingleTypeKVCacheManager}

theorem SameButList.trans {m₁ m₂ m₃ : SingleTypeKVCacheManager} (h : SameButList r m₁ m₂)
    (h' : SameButList r m₂ m₃) : SameButList r m₁ m₃ where
  spec := h'.spec.trans h.spec
  cached := h'.cached.trans h.cached
  lastState := h'.lastState.trans h.lastState
  allocated := h'.allocated.trans h.allocated
  blocks := fun r' hr => (h'.blocks r' hr).trans (h.blocks r' hr)

theorem sameButList_setBlocks (r : ReqId) (m : SingleTypeKVCacheManager) (blocks : List Nat) :
    SameButList r m (m.setBlocks r blocks) :=
  ⟨rfl, rfl, rfl, rfl, fun _ hr => blocksOf_setBlocks_ne m hr blocks⟩

theorem getNumSkippedTokens_le (m : SingleTypeKVCacheManager) {n : Int} (hn : 0 ≤ n) :
    m.getNumSkippedTokens n ≤ n := by
  have hvalid := m.kvCacheSpec.valid
  unfold getNumSkippedTokens
  cases hlayer : m.kvCacheSpec.layerType with
  | fullAttention => exact hn
  | slidingWindow window =>
    rw [hlayer] at hvalid
    have : 0 < window := hvalid
    change max 0 (n - window + 1) ≤ n
    omega
  | chunkedLocalAttention chunk =>
    rw [hlayer] at hvalid
    have : 0 < chunk := hvalid
    exact Int.ediv_mul_le n (by omega)
  | mamba mode spec =>
    change n - 1 ≤ n
    omega

def skippedBlocks (m : SingleTypeKVCacheManager) (totalComputedTokens : Int) : Int :=
  m.getNumSkippedTokens totalComputedTokens / m.blockSize

theorem skippedBlocks_mul_le (m : SingleTypeKVCacheManager) {n : Int} (hn : 0 ≤ n) :
    m.skippedBlocks n * m.blockSize ≤ n := by
  have hpos : (m.blockSize : Int) ≠ 0 := by
    have := m.kvCacheSpec.blockSize_pos
    unfold blockSize
    omega
  exact (Int.ediv_mul_le _ hpos).trans (m.getNumSkippedTokens_le hn)

theorem le_cdiv_of_mul_le {b : Nat} (hb : 0 < b) {a k : Int} (h : k * b ≤ a) : k ≤ cdiv a b := by
  by_contra hlt
  have hle : a ≤ (k - 1) * b := (cdiv_le_iff hb a (k - 1)).mp (by omega)
  rw [Int.sub_mul] at hle
  omega

/-- The speculative blocks of a Mamba group in align mode. -/
def alignBlocks (m : SingleTypeKVCacheManager) : Option Nat :=
  match m.kvCacheSpec.layerType with
  | .mamba .align numSpeculativeBlocks => some numSpeculativeBlocks
  | _ => none

section spec

variable (h : m'.kvCacheSpec = m.kvCacheSpec)
include h

theorem blockSize_of_spec : m'.blockSize = m.blockSize :=
  congrArg KVCacheSpec.blockSize h

theorem alignBlocks_of_spec : m'.alignBlocks = m.alignBlocks := by
  unfold alignBlocks
  rw [h]

theorem skippedBlocks_of_spec : m'.skippedBlocks = m.skippedBlocks := by
  unfold skippedBlocks getNumSkippedTokens blockSize
  rw [h]

end spec

variable {p : BlockPool H} {holds : List (Holder × Nat)} {g : Nat} {spec : Nat}

section remove

variable {mode : MambaCacheMode}

theorem skippedBlocks_mamba (hlayer : m.kvCacheSpec.layerType = .mamba mode spec) (n : Int) :
    m.skippedBlocks n = cdiv n m.blockSize - 1 := by
  have hb : (0 : Int) < m.blockSize := by exact_mod_cast m.kvCacheSpec.blockSize_pos
  have hskipped : m.skippedBlocks n = (n - 1) / m.blockSize := by
    unfold skippedBlocks getNumSkippedTokens
    rw [hlayer]
  have hupper := (cdiv_le_iff m.kvCacheSpec.blockSize_pos n (m.skippedBlocks n + 1)).mpr
  have hlt : n - 1 < (m.skippedBlocks n + 1) * m.blockSize := by
    rw [hskipped]
    exact Int.lt_ediv_add_one_mul_self (n - 1) hb |>.trans_eq (by rw [Int.add_mul])
  have hle : cdiv n m.blockSize ≤ m.skippedBlocks n + 1 := hupper (by
    unfold blockSize at hlt
    omega)
  have hge : m.skippedBlocks n + 1 ≤ cdiv n m.blockSize := by
    by_contra hcontra
    have : n ≤ m.skippedBlocks n * m.blockSize :=
      (cdiv_le_iff m.kvCacheSpec.blockSize_pos n (m.skippedBlocks n)).mp
        (by unfold blockSize at hcontra; omega)
    rw [hskipped] at this
    have := Int.ediv_mul_le (n - 1) (Int.ne_of_gt hb)
    omega
  omega

/-- A run that frees blocks in the skipped part of the list of `r`, and does nothing else. -/
def Frees (m : SingleTypeKVCacheManager) (p : BlockPool H) (holds : List (Holder × Nat))
    (r : ReqId) (g : Nat) (n : Int) (run : Except Exn (SingleTypeKVCacheManager × BlockPool H)) :
    Prop :=
  ∃ m' p' holds', run = .ok (m', p') ∧ Moves (r, g) p p' holds holds' (m'.blocksOf r) ∧
    SameButList r m m' ∧
    Emptied p.nullBlock (m.skippedBlocks n) (m.blocksOf r) (m'.blocksOf r)

variable (hacc : Accounts p [] holds) (hlist : HoldsList p holds (r, g) (m.blocksOf r)) (n : Int)
include hacc hlist

theorem removeSkippedBlocksBase_spec :
    Frees m p holds r g n (m.removeSkippedBlocksBase p r n) := by
  unfold removeSkippedBlocksBase
  by_cases hskip : m.getNumSkippedTokens n ≤ 0
  · simp only [hskip]
    exact ⟨m, p, holds, rfl, .refl hacc hlist, .refl r m, .refl _ _ _⟩
  · simp only [hskip, if_false]
    have hnonneg : 0 ≤ m.skippedBlocks n := Int.ediv_nonneg (by omega) (by omega)
    have hnum : min (m.getNumSkippedTokens n / m.blockSize) ((m.blocksOf r).length : Int) =
      min (m.skippedBlocks n) (m.blocksOf r).length := rfl
    obtain ⟨hperm, hremoved, hempty⟩ := removeBlocks_spec p.nullBlock (k := m.skippedBlocks n)
      (min (m.skippedBlocks n) (m.blocksOf r).length).toNat (by omega) (m.blocksOf r)
    rw [hnum]
    generalize removeBlocks p.nullBlock
      (min (m.skippedBlocks n) (m.blocksOf r).length).toNat (m.blocksOf r)
      = removed at hperm hremoved hempty ⊢
    obtain ⟨removed, blocks'⟩ := removed
    have hself : nonNull p.nullBlock removed = removed :=
      filter_eq_self.mpr fun b hb => by simpa using hremoved b hb
    rw [← hself] at hperm
    obtain ⟨p', holds', hfree, hmoves⟩ := freeBlocks_moves hacc hlist removed blocks' hperm
    refine ⟨m.setBlocks r blocks', p', holds', ?_, ?_, sameButList_setBlocks r m blocks', ?_⟩
    · simp only [hfree, ok_bind]
    · simpa using hmoves
    · simpa using hempty

theorem removeLastStateBlock_spec (hlayer : m.kvCacheSpec.layerType = .mamba mode spec)
    (hlast : ∀ i, m.lastStateBlockIdx r = some i → 0 ≤ i ∧ i < (m.blocksOf r).length) :
    Frees m p holds r g n (m.removeLastStateBlock p r n) := by
  unfold removeLastStateBlock
  cases hidx : m.lastStateBlockIdx r with
  | none => exact ⟨m, p, holds, rfl, .refl hacc hlist, .refl r m, .refl _ _ _⟩
  | some i =>
    obtain ⟨hnonneg, hlt⟩ := hlast i hidx
    by_cases hold : i < cdiv n m.blockSize - 1
    · simp only [hold, if_true, pyIndex_of_nonneg hnonneg hlt]
      by_cases hnull : (m.blocksOf r).getD i.toNat p.nullBlock = p.nullBlock
      · simp only [hnull]
        exact ⟨_, p, holds, rfl, .refl hacc (by simpa using hlist),
          sameButList_setBlocks r m _, by simpa using Emptied.refl _ _ _⟩
      · simp only [hnull, if_false]
        have hget : (m.blocksOf r)[i.toNat]? =
            some ((m.blocksOf r).getD i.toNat p.nullBlock) := by
          rw [getD_eq_getElem?_getD, getElem?_eq_getElem (by omega)]
          rfl
        have hperm := nonNull_set_perm hget hnull
        have hsingle : nonNull p.nullBlock [(m.blocksOf r).getD i.toNat p.nullBlock] =
            [(m.blocksOf r).getD i.toNat p.nullBlock] :=
          filter_eq_self.mpr fun b hb => by
            rw [mem_singleton.mp hb]
            simpa using hnull
        obtain ⟨p', holds', hfree, hmoves⟩ := freeBlocks_moves hacc hlist
          [(m.blocksOf r).getD i.toNat p.nullBlock] ((m.blocksOf r).set i.toNat p.nullBlock)
          (by rw [hsingle]; exact hperm)
        refine ⟨m.setBlocks r ((m.blocksOf r).set i.toNat p.nullBlock), p', holds', ?_, ?_,
          sameButList_setBlocks r m _, ?_⟩
        · simp only [hfree, ok_bind]
        · simpa using hmoves
        · rw [blocksOf_setBlocks_self, skippedBlocks_mamba hlayer]
          exact Emptied.set _ _ (by omega)
    · simp only [hold]
      exact ⟨m, p, holds, rfl, .refl hacc hlist, .refl r m, .refl _ _ _⟩

theorem removeSkippedBlocks_spec
    (hlast : ∀ spec, m.alignBlocks = some spec → ∀ i, m.lastStateBlockIdx r = some i →
      0 ≤ i ∧ i < (m.blocksOf r).length) : Frees m p holds r g n (m.removeSkippedBlocks p r n) := by
  obtain ⟨m₁, p₁, holds₁, hbase, hmoves₁, hsame₁, hempty₁⟩ :=
    removeSkippedBlocksBase_spec hacc hlist n
  unfold removeSkippedBlocks
  simp only [hbase, ok_bind]
  split
  · rename_i spec hlayer
    have halign : m.alignBlocks = some spec := by
      rw [← alignBlocks_of_spec hsame₁.spec, alignBlocks, hlayer]
    obtain ⟨m₂, p₂, holds₂, hstate, hmoves₂, hsame₂, hempty₂⟩ :=
      removeLastStateBlock_spec hmoves₁.accounts hmoves₁.list n hlayer fun i hi => by
        rw [hempty₁.length]
        exact hlast spec halign i (by rwa [hsame₁.lastState] at hi)
    rw [nullBlock_of_config hmoves₁.config, skippedBlocks_of_spec hsame₁.spec] at hempty₂
    exact ⟨m₂, p₂, holds₂, hstate, hmoves₁.trans hmoves₂, hsame₁.trans hsame₂,
      hempty₁.trans hempty₂⟩
  · exact ⟨m₁, p₁, holds₁, rfl, hmoves₁, hsame₁, hempty₁⟩

end remove

/-- The list of `r` was given length `len`; the marks of align mode did not change. -/
structure Extended (r : ReqId) (len : Int) (m m' : SingleTypeKVCacheManager) : Prop where
  spec : m'.kvCacheSpec = m.kvCacheSpec
  lastState : m'.lastStateBlockIdx = m.lastStateBlockIdx
  allocated : m'.allocatedBlockReqs = m.allocatedBlockReqs
  others : ∀ r' ≠ r, m'.blocksOf r' = m.blocksOf r'
  length : ((m'.blocksOf r).length : Int) = len

theorem Extended.refl (r : ReqId) (m : SingleTypeKVCacheManager) :
    Extended r (m.blocksOf r).length m m :=
  ⟨rfl, rfl, rfl, fun _ _ => rfl, rfl⟩

variable {numTotal : Int}

section computed

variable {hits : List Nat} {numLocal numExternal : Int}

/-- The hits without the skipped ones. -/
def keptHits (m : SingleTypeKVCacheManager) (hits : List Nat) (totalComputedTokens : Int) :
    List Nat :=
  hits.drop (m.skippedBlocks totalComputedTokens).toNat

/-- The length of the list of a new request before external tokens: null blocks for the
skipped part, then the kept hits. -/
def hitLength (m : SingleTypeKVCacheManager) (hits : List Nat) (totalComputedTokens : Int) : Int :=
  max (max 0 (m.skippedBlocks totalComputedTokens)) hits.length

def keptExternal (m : SingleTypeKVCacheManager) (numTotal numExternal : Int) : Int :=
  if m.skippedBlocks numTotal > 0 then
    min (numTotal - m.getNumSkippedTokens numTotal) numExternal
  else
    numExternal

/-- The blocks for tokens of an external cache. -/
def externalBlocks (m : SingleTypeKVCacheManager) (hits : List Nat)
    (numTotal numExternal : Int) : Int :=
  if m.keptExternal numTotal numExternal > 0 then
    cdiv numTotal m.blockSize - m.hitLength hits numTotal
  else
    0

/-- Null blocks for the skipped tokens, then the hits. -/
def paddedHits (m : SingleTypeKVCacheManager) (nullBlock : Nat) (hits : List Nat)
    (numTotal : Int) : List Nat :=
  replicate (m.skippedBlocks numTotal).toNat nullBlock ++ m.keptHits hits numTotal

theorem length_paddedHits (m : SingleTypeKVCacheManager) (nullBlock : Nat) (hits : List Nat)
    (numTotal : Int) :
    ((m.paddedHits nullBlock hits numTotal).length : Int) = m.hitLength hits numTotal := by
  simp only [paddedHits, keptHits, hitLength, length_append, length_replicate,
    length_drop]
  omega

def markCached (m : SingleTypeKVCacheManager) (r : ReqId) (n : Nat) : SingleTypeKVCacheManager :=
  { m with numCachedBlock := update m.numCachedBlock r (some n) }

section

variable (m : SingleTypeKVCacheManager) (htotal : 0 ≤ numTotal)
  (hhits : (hits.length : Int) * m.blockSize ≤ numTotal)
include htotal hhits

theorem hitLength_le_cdiv : m.hitLength hits numTotal ≤ cdiv numTotal m.blockSize := by
  have hb := m.kvCacheSpec.blockSize_pos
  have h₁ := le_cdiv_of_mul_le hb hhits
  have h₂ := le_cdiv_of_mul_le hb (m.skippedBlocks_mul_le htotal)
  have h₃ : 0 ≤ cdiv numTotal m.blockSize := le_cdiv_of_mul_le hb (by omega)
  exact max_le (max_le h₃ h₂) h₁

theorem externalBlocks_nonneg (numExternal : Int) :
    0 ≤ m.externalBlocks hits numTotal numExternal := by
  have := m.hitLength_le_cdiv htotal hhits
  unfold externalBlocks
  split <;> omega

end

theorem externalBlocks_of_nonpos (m : SingleTypeKVCacheManager) (hits : List Nat) (numTotal : Int)
    {numExternal : Int} (hext : numExternal ≤ 0) :
    m.externalBlocks hits numTotal numExternal = 0 := by
  unfold externalBlocks keptExternal
  split <;> omega

theorem touchComputedBlocks_spec (hacc : Accounts p [] holds)
    (hlist : HoldsList p holds (r, g) []) (hnodup : (nonNull p.nullBlock hits).Nodup)
    (hreal : ∀ b ∈ nonNull p.nullBlock hits, p.Real b)
    (hoff : p.enableCaching = false → hits = []) :
    ∃ p' holds', touchComputedBlocks p hits = .ok p' ∧ Moves (r, g) p p' holds holds' hits ∧
      holds.Sublist holds' ∧
      p'.getNumFreeBlocks = p.getNumFreeBlocks - getNumEvictableBlocks p hits := by
  unfold touchComputedBlocks
  cases hcaching : p.enableCaching with
  | true => exact touch_moves hacc hlist hnodup hreal
  | false =>
    cases hoff hcaching
    exact ⟨p, holds, rfl, .refl hacc hlist, Sublist.refl _, by
      simp [getNumEvictableBlocks]⟩

variable [DecidableEq H]

theorem allocateNewComputedBlocks_eq (hblocks : m.blocksOf r = [])
    (hcached : m.numCachedBlock r = none) :
    m.allocateNewComputedBlocks p r hits numLocal numExternal = (do
      let p ← touchComputedBlocks p (m.keptHits hits (numLocal + numExternal))
      let reqBlocks := m.paddedHits p.nullBlock hits (numLocal + numExternal)
      if m.keptExternal (numLocal + numExternal) numExternal > 0 then do
        let (allocatedBlocks, p) ←
          p.getNewBlocks (cdiv (numLocal + numExternal) m.blockSize - reqBlocks.length)
        .ok ((m.markCached r reqBlocks.length).setBlocks r (reqBlocks ++ allocatedBlocks), p)
      else
        .ok ((m.markCached r reqBlocks.length).setBlocks r reqBlocks, p)) := by
  -- without skipped blocks nothing is dropped from the hits
  have hpair : (if m.skippedBlocks (numLocal + numExternal) > 0 then
        (hits.drop (m.skippedBlocks (numLocal + numExternal)).toNat,
          min (numLocal + numExternal - m.getNumSkippedTokens (numLocal + numExternal))
            numExternal)
      else (hits, numExternal)) =
        (m.keptHits hits (numLocal + numExternal),
          m.keptExternal (numLocal + numExternal) numExternal) := by
    unfold keptExternal keptHits
    split
    · rfl
    · rw [show (m.skippedBlocks (numLocal + numExternal)).toNat = 0 by omega]
      rfl
  have hskipped : m.getNumSkippedTokens (numLocal + numExternal) / (m.blockSize : Int) =
      m.skippedBlocks (numLocal + numExternal) := rfl
  unfold allocateNewComputedBlocks
  simp only [hcached, hblocks, hskipped, hpair]
  rfl

theorem allocateNewComputedBlocks_spec (hacc : Accounts p [] holds)
    (hlist : HoldsList p holds (r, g) []) (hblocks : m.blocksOf r = [])
    (hcached : m.numCachedBlock r = none) (htotal : 0 ≤ numLocal + numExternal)
    (hhits : (hits.length : Int) * m.blockSize ≤ numLocal + numExternal)
    (hnodup : (nonNull p.nullBlock hits).Nodup)
    (hreal : ∀ b ∈ nonNull p.nullBlock hits, p.Real b)
    (hoff : p.enableCaching = false → hits = [])
    (hfree : getNumEvictableBlocks p (m.keptHits hits (numLocal + numExternal)) +
      m.externalBlocks hits (numLocal + numExternal) numExternal ≤ p.getNumFreeBlocks) :
    ∃ m' p' holds', m.allocateNewComputedBlocks p r hits numLocal numExternal = .ok (m', p') ∧
      Moves (r, g) p p' holds holds' (m'.blocksOf r) ∧ holds.Sublist holds' ∧
      Extended r (m.hitLength hits (numLocal + numExternal) +
        m.externalBlocks hits (numLocal + numExternal) numExternal) m m' ∧
      p'.getNumFreeBlocks = p.getNumFreeBlocks -
        (getNumEvictableBlocks p (m.keptHits hits (numLocal + numExternal)) +
          m.externalBlocks hits (numLocal + numExternal) numExternal) := by
  rw [allocateNewComputedBlocks_eq hblocks hcached]
  generalize numLocal + numExternal = numTotal at htotal hhits hfree ⊢
  have hsub : (nonNull p.nullBlock (m.keptHits hits numTotal)).Sublist
      (nonNull p.nullBlock hits) := (drop_sublist _ _).filter _
  obtain ⟨p₁, holds₁, htouch, hmoves₁, hgrow₁, hfree₁⟩ :=
    touchComputedBlocks_spec hacc hlist (hnodup.sublist hsub)
      (fun b hb => hreal b (hsub.subset hb)) (fun hcaching => by simp [keptHits, hoff hcaching])
  have hnull := nullBlock_of_config hmoves₁.config
  have hlen := m.length_paddedHits p₁.nullBlock hits numTotal
  have hext := m.externalBlocks_nonneg htotal hhits numExternal
  have hmoves : Moves (r, g) p p₁ holds holds₁ (m.paddedHits p₁.nullBlock hits numTotal) := by
    refine hmoves₁.perm ?_
    rw [paddedHits, nonNull_append, hnull, nonNull_replicate]
    exact Perm.refl _
  simp only [htouch]
  unfold externalBlocks at hext hfree ⊢
  by_cases hloads : m.keptExternal numTotal numExternal > 0
  · simp only [hloads, if_true] at hext hfree ⊢
    obtain ⟨ret, p₂, holds₂, hget, hret, hmoves₂, hgrow₂, hfree₂⟩ :=
      getNewBlocks_moves hmoves.accounts hmoves.list hext (by omega)
    rw [← hlen] at hget
    simp only [hget, ok_bind]
    refine ⟨_, p₂, holds₂, rfl, hmoves.trans (by simpa using hmoves₂), hgrow₁.trans hgrow₂,
      ⟨rfl, rfl, rfl, fun r' hr => blocksOf_setBlocks_ne _ hr _, ?_⟩, by omega⟩
    rw [blocksOf_setBlocks_self, length_append]
    omega
  · simp only [hloads, if_false] at hfree ⊢
    refine ⟨_, p₁, holds₁, rfl, by simpa using hmoves, hgrow₁,
      ⟨rfl, rfl, rfl, fun r' hr => blocksOf_setBlocks_ne _ hr _, ?_⟩, by omega⟩
    rw [blocksOf_setBlocks_self]
    omega

end computed

/-- The tokens a group that is not in align mode gives slots to: Mamba layers keep
speculative blocks besides. -/
def slotTokens (m : SingleTypeKVCacheManager) (numTokens : Int) : Int :=
  match m.kvCacheSpec.layerType with
  | .mamba _ numSpeculativeBlocks => numTokens + m.blockSize * numSpeculativeBlocks
  | _ => numTokens

/-- The length the list is brought to by `allocate_new_blocks`. -/
def requiredBlocks (m : SingleTypeKVCacheManager) (numTokens numTokensMainModel : Int) : Int :=
  match m.alignBlocks with
  | some numSpeculativeBlocks => cdiv numTokensMainModel m.blockSize + numSpeculativeBlocks
  | none => cdiv (m.slotTokens numTokens) m.blockSize

/-- The blocks `allocate_new_blocks` takes from the pool for a list of length `len`. -/
def newBlocks (m : SingleTypeKVCacheManager) (r : ReqId) (numTokens numTokensMainModel len : Int) :
    Int :=
  match m.alignBlocks with
  | some numSpeculativeBlocks =>
    if cdiv numTokensMainModel m.blockSize + numSpeculativeBlocks ≤ len then 0
    else if m.allocatedBlockReqs r then 1
    else 1 + numSpeculativeBlocks
  | none => max 0 (cdiv (m.slotTokens numTokens) m.blockSize - len)

theorem Extended.newBlocks_eq {len : Int} {m m' : SingleTypeKVCacheManager}
    (h : Extended r len m m') (n main : Int) :
    m'.newBlocks r n main (m'.blocksOf r).length = m.newBlocks r n main len := by
  unfold newBlocks alignBlocks slotTokens blockSize
  rw [h.spec, h.allocated, h.length]

theorem le_slotTokens (m : SingleTypeKVCacheManager) (n : Int) : n ≤ m.slotTokens n := by
  unfold slotTokens
  split
  · exact Int.le_add_of_nonneg_right (Int.mul_nonneg (by omega) (by omega))
  · exact le_rfl

section methods

variable {n main : Int}

theorem extra_tokens_eq (n : Int) (b spec : Nat) :
    (if spec > 0 then n + b * spec else n) = n + (b : Int) * spec := by
  split
  · rfl
  · rw [show spec = 0 by omega]
    simp

theorem getNumBlocksToAllocate_of_base (hbase : m.alignBlocks = none) (hits : List Nat)
    (total : Int) :
    m.getNumBlocksToAllocate p r n hits total main =
      m.getNumBlocksToAllocateBase p r (m.slotTokens n) hits total := by
  unfold alignBlocks at hbase
  unfold getNumBlocksToAllocate slotTokens
  cases hlayer : m.kvCacheSpec.layerType with
  | mamba mode spec =>
    cases mode with
    | align => simp [hlayer] at hbase
    | none | all => simp only [extra_tokens_eq]
  | _ => rfl

theorem getNumBlocksToAllocate_of_align (halign : m.alignBlocks = some spec) (hits : List Nat)
    (total : Int) :
    m.getNumBlocksToAllocate p r n hits total main =
      .ok ((if cdiv main m.blockSize + spec - hits.length - (m.blocksOf r).length > 0 then
          if m.allocatedBlockReqs r then 1 else 1 + (spec : Int)
        else cdiv main m.blockSize + spec - hits.length - (m.blocksOf r).length) +
          getNumEvictableBlocks p hits) := by
  unfold alignBlocks at halign
  unfold getNumBlocksToAllocate
  split at halign
  · rename_i hlayer
    cases halign
    simp only [hlayer]
  · cases halign

variable [DecidableEq H]

theorem allocateNewBlocks_of_base (hbase : m.alignBlocks = none) :
    m.allocateNewBlocks p r n main = m.allocateNewBlocksBase p r (m.slotTokens n) := by
  unfold alignBlocks at hbase
  unfold allocateNewBlocks slotTokens
  cases hlayer : m.kvCacheSpec.layerType with
  | mamba mode spec =>
    cases mode with
    | align => simp [hlayer] at hbase
    | none | all => simp only [extra_tokens_eq]
  | _ => rfl

theorem allocateNewBlocks_of_align (halign : m.alignBlocks = some spec) :
    m.allocateNewBlocks p r n main = m.allocateNewBlocksAlign p r main spec := by
  unfold alignBlocks at halign
  unfold allocateNewBlocks
  split at halign
  · rename_i hlayer
    cases halign
    simp only [hlayer]
  · cases halign

end methods

/-- In align mode: a request that was given blocks has its running state and all its
speculative blocks, and the index of its last state is a place of its list. -/
structure AlignState (m : SingleTypeKVCacheManager) (numSpeculativeBlocks : Nat) (r : ReqId) :
    Prop where
  allocated : m.allocatedBlockReqs r = true →
    numSpeculativeBlocks + 1 ≤ (m.blocksOf r).length
  fresh : m.allocatedBlockReqs r = false → m.blocksOf r = []
  lastState : ∀ i, m.lastStateBlockIdx r = some i → 0 ≤ i ∧ i < (m.blocksOf r).length

theorem AlignState.congr (h : AlignState m spec r) (hblocks : m'.blocksOf r = m.blocksOf r)
    (hlast : m'.lastStateBlockIdx r = m.lastStateBlockIdx r)
    (halloc : m'.allocatedBlockReqs r = m.allocatedBlockReqs r) : AlignState m' spec r := by
  refine ⟨?_, ?_, ?_⟩
  · rw [hblocks, halloc]
    exact h.allocated
  · rw [hblocks, halloc]
    exact h.fresh
  · rw [hblocks, hlast]
    exact h.lastState

/-- What align mode needs before new blocks are allocated: the list fits, and a request
without blocks of its own has hits for less than all tokens. -/
structure AlignReady (m : SingleTypeKVCacheManager) (numSpeculativeBlocks : Nat) (r : ReqId)
    (numTokensMainModel : Int) : Prop where
  pos : 0 < numTokensMainModel
  fits : (m.blocksOf r).length ≤ cdiv numTokensMainModel m.blockSize + numSpeculativeBlocks
  old : m.allocatedBlockReqs r = true → numSpeculativeBlocks + 1 ≤ (m.blocksOf r).length
  new : m.allocatedBlockReqs r = false →
    (m.blocksOf r).length < cdiv numTokensMainModel m.blockSize
  lastState : ∀ i, m.lastStateBlockIdx r = some i → 0 ≤ i ∧ i < (m.blocksOf r).length

section allocate

variable [DecidableEq H]

section

variable (hacc : Accounts p [] holds) (hlist : HoldsList p holds (r, g) (m.blocksOf r))
include hacc hlist

theorem allocateNewBlocksBase_spec (n : Int)
    (hfree : max 0 (cdiv n m.blockSize - (m.blocksOf r).length) ≤ p.getNumFreeBlocks) :
    ∃ news m' p' holds', m.allocateNewBlocksBase p r n = .ok (news, m', p') ∧
      Moves (r, g) p p' holds holds' (m'.blocksOf r) ∧ SameButList r m m' ∧
      ((m'.blocksOf r).length : Int) =
        max ((m.blocksOf r).length : Int) (cdiv n m.blockSize) ∧
      p'.getNumFreeBlocks =
        p.getNumFreeBlocks - max 0 (cdiv n m.blockSize - (m.blocksOf r).length) := by
  unfold allocateNewBlocksBase
  by_cases hnone : cdiv n m.blockSize - (m.blocksOf r).length ≤ 0
  · simp only [hnone]
    refine ⟨[], _, p, holds, rfl, .refl hacc (by simpa using hlist),
      sameButList_setBlocks r m _, ?_, by omega⟩
    rw [blocksOf_setBlocks_self]
    omega
  · simp only [hnone]
    obtain ⟨ret, p', holds', hget, hret, hmoves, -, hfree'⟩ :=
      getNewBlocks_moves hacc hlist (n := cdiv n m.blockSize - (m.blocksOf r).length)
        (by omega) (by omega)
    simp only [hget, ok_bind]
    refine ⟨ret, _, p', holds', rfl, by simpa using hmoves, sameButList_setBlocks r m _,
      ?_, by omega⟩
    rw [blocksOf_setBlocks_self, length_append]
    omega

theorem allocateNewBlocksAlign_spec {n : Int} (hready : AlignReady m spec r n)
    (hfree : (if cdiv n m.blockSize + spec ≤ (m.blocksOf r).length then (0 : Int) else if
      m.allocatedBlockReqs r then 1 else 1 + spec) ≤ p.getNumFreeBlocks) :
    ∃ news m' p' holds', m.allocateNewBlocksAlign p r n spec = .ok (news, m', p') ∧
      Moves (r, g) p p' holds holds' (m'.blocksOf r) ∧ m'.kvCacheSpec = m.kvCacheSpec ∧
      (∀ r' ≠ r, m'.blocksOf r' = m.blocksOf r' ∧
        m'.lastStateBlockIdx r' = m.lastStateBlockIdx r' ∧
        m'.allocatedBlockReqs r' = m.allocatedBlockReqs r') ∧
      ((m'.blocksOf r).length : Int) = cdiv n m.blockSize + spec ∧ AlignState m' spec r ∧
      p'.getNumFreeBlocks = p.getNumFreeBlocks -
        (if cdiv n m.blockSize + spec ≤ (m.blocksOf r).length then (0 : Int)
          else if m.allocatedBlockReqs r then 1 else 1 + spec) := by
  obtain ⟨hpos, hfits, hold, hnew, hlast⟩ := hready
  have hb : 0 < m.blockSize := m.kvCacheSpec.blockSize_pos
  have hone : 0 < cdiv n m.blockSize := (lt_cdiv_iff hb n 0).mpr (by omega)
  unfold allocateNewBlocksAlign
  by_cases hsame : cdiv n m.blockSize + spec = (m.blocksOf r).length
  · simp only [hsame, if_true] at hfree ⊢
    refine ⟨[], _, p, holds, rfl, .refl hacc (by simpa using hlist), rfl,
      fun r' hr => ⟨blocksOf_setBlocks_ne m hr _, rfl, rfl⟩, by simp, ?_, by omega⟩
    refine ⟨fun halloc => by simpa using hold halloc, fun hfresh => ?_, fun i hi => ?_⟩
    swap
    · rw [blocksOf_setBlocks_self]
      exact hlast i hi
    have := hnew hfresh
    omega
  · have hmore : cdiv n m.blockSize + spec > (m.blocksOf r).length := by omega
    have hnot : ¬ cdiv n m.blockSize + spec ≤ (m.blocksOf r).length := by omega
    simp only [hsame, if_false, require_of_true hmore, hnot] at hfree ⊢
    -- the list is padded up to the running state, then the speculative blocks are moved
    set prev := (m.blocksOf r).length
    set padded := m.blocksOf r ++ replicate
      (cdiv n m.blockSize + spec - spec - 1 - prev).toNat p.nullBlock with hpadded
    have hpaddedLen : (padded.length : Int) = max (prev : Int) (cdiv n m.blockSize - 1) := by
      simp only [hpadded, length_append, length_replicate]
      omega
    have hpaddedPerm : (nonNull p.nullBlock padded).Perm (nonNull p.nullBlock (m.blocksOf r)) := by
      rw [nonNull_append, nonNull_replicate, append_nil]
    have hreuse : ∃ blocks', reuseBlocks p.nullBlock (cdiv n m.blockSize + spec - spec - 1)
          (if m.allocatedBlockReqs r then spec else 0) ((prev : Int) - spec) padded = .ok blocks' ∧
        (nonNull p.nullBlock blocks').Perm (nonNull p.nullBlock padded) ∧
        cdiv n m.blockSize + spec - blocks'.length =
          if m.allocatedBlockReqs r then 1 else 1 + (spec : Int) := by
      cases halloc : m.allocatedBlockReqs r with
      | true =>
        have hlong := hold halloc
        obtain ⟨start, hstart⟩ : ∃ start : Nat, (prev : Int) - spec = start :=
          ⟨prev - spec, by omega⟩
        obtain ⟨blocks', hrun, hperm, hlen⟩ := reuseBlocks_spec p.nullBlock
          (cdiv n m.blockSize + spec - spec - 1) spec start padded (by omega)
        refine ⟨blocks', by rw [hstart]; exact hrun, hperm, ?_⟩
        simp only [if_true]
        omega
      | false =>
        have hshort := hnew halloc
        refine ⟨padded, rfl, Perm.refl _, ?_⟩
        simp only [Bool.false_eq_true, if_false]
        omega
    obtain ⟨blocks', hrun, hperm, hcount⟩ := hreuse
    have hassert : cdiv n m.blockSize + spec - blocks'.length ≤
        if m.allocatedBlockReqs r then 1 else (spec : Int) + 1 := by
      rw [hcount]
      split <;> omega
    obtain ⟨ret, p', holds', hget, hret, hmoves, -, hfree'⟩ :=
      getNewBlocks_moves (n := cdiv n m.blockSize + spec - blocks'.length) hacc
        (hlist.perm (hperm.trans hpaddedPerm)) (by rw [hcount]; split <;> omega)
        (by rw [hcount]; exact hfree)
    simp only [hrun, ok_bind, require_of_true hassert, hget]
    have hlen' : ((blocks' ++ ret).length : Int) = cdiv n m.blockSize + spec := by
      rw [length_append]
      omega
    refine ⟨_, _, p', holds', rfl, by simpa using hmoves, rfl, ?_, by simpa using hlen', ?_,
      by rw [hfree', hcount]⟩
    · intro r' hr
      refine ⟨blocksOf_setBlocks_ne _ hr _, ?_, update_of_ne hr _ _⟩
      split
      · exact update_of_ne hr _ _
      · split
        · exact update_of_ne hr _ _
        · rfl
    · refine ⟨fun _ => ?_, fun hfresh => ?_, fun i hi => ?_⟩
      · rw [blocksOf_setBlocks_self]
        omega
      · change update m.allocatedBlockReqs r true r = false at hfresh
        simp at hfresh
      · rw [blocksOf_setBlocks_self]
        change (if m.allocatedBlockReqs r then _ else _ : ReqId → Option Int) r = some i at hi
        cases halloc : m.allocatedBlockReqs r with
        | true =>
          have hlong := hold halloc
          simp only [halloc, if_true, update_self, Option.some.injEq] at hi
          omega
        | false =>
          grind

theorem allocateNewBlocks_spec (n main : Int)
    (hready : ∀ spec, m.alignBlocks = some spec → AlignReady m spec r main)
    (hfree : m.newBlocks r n main (m.blocksOf r).length ≤ p.getNumFreeBlocks) :
    ∃ news m' p' holds', m.allocateNewBlocks p r n main = .ok (news, m', p') ∧
      Moves (r, g) p p' holds holds' (m'.blocksOf r) ∧ m'.kvCacheSpec = m.kvCacheSpec ∧
      (∀ r' ≠ r, m'.blocksOf r' = m.blocksOf r' ∧
        m'.lastStateBlockIdx r' = m.lastStateBlockIdx r' ∧
        m'.allocatedBlockReqs r' = m.allocatedBlockReqs r') ∧
      ((m'.blocksOf r).length : Int) =
        max ((m.blocksOf r).length : Int) (m.requiredBlocks n main) ∧
      (∀ spec, m.alignBlocks = some spec → AlignState m' spec r) ∧
      p'.getNumFreeBlocks =
        p.getNumFreeBlocks - m.newBlocks r n main (m.blocksOf r).length := by
  unfold newBlocks at hfree ⊢
  unfold requiredBlocks
  cases hmode : m.alignBlocks with
  | none =>
    simp only [hmode] at hfree ⊢
    rw [allocateNewBlocks_of_base hmode]
    obtain ⟨news, m', p', holds', hok, hmoves, hsame, hlen, hfree'⟩ :=
      allocateNewBlocksBase_spec hacc hlist (m.slotTokens n) hfree
    refine ⟨news, m', p', holds', hok, hmoves, hsame.spec, fun r' hr => ?_, hlen,
      nofun, hfree'⟩
    rw [hsame.lastState, hsame.allocated]
    exact ⟨hsame.blocks r' hr, rfl, rfl⟩
  | some spec =>
    simp only [hmode] at hfree ⊢
    rw [allocateNewBlocks_of_align hmode]
    obtain ⟨news, m', p', holds', hok, hmoves, hspec, hothers, hlen, hstate, hfree'⟩ :=
      allocateNewBlocksAlign_spec hacc hlist (hready spec hmode) hfree
    refine ⟨news, m', p', holds', hok, hmoves, hspec, hothers, ?_, ?_, hfree'⟩
    · have := (hready spec hmode).fits
      omega
    · rintro spec' ⟨⟩
      exact hstate

end

theorem fits_of_allocateNewBlocksAlign {n : Int} {news : List Nat} {p' : BlockPool H}
    (hrun : m.allocateNewBlocksAlign p r n spec = .ok (news, m', p')) :
    ((m.blocksOf r).length : Int) ≤ cdiv n m.blockSize + spec := by
  unfold allocateNewBlocksAlign at hrun
  dsimp only at hrun
  split at hrun
  · omega
  · obtain ⟨_, hrequire, -⟩ := of_bind hrun
    have := require_eq_ok.mp hrequire
    omega

end allocate

section estimate

variable {hits : List Nat}

theorem getNumEvictableBlocks_keptHits_le (m : SingleTypeKVCacheManager) (p : BlockPool H)
    (hits : List Nat) (numTotal : Int) :
    getNumEvictableBlocks p (m.keptHits hits numTotal) ≤ getNumEvictableBlocks p hits :=
  (drop_sublist _ _).countP_le

theorem getNumBlocksToAllocateBase_new (hblocks : m.blocksOf r = [])
    (hcached : m.numCachedBlock r = none) {n : Int} (hn : numTotal ≤ n) (numExternal : Int) :
    ∃ e, m.getNumBlocksToAllocateBase p r n hits numTotal = .ok e ∧
      getNumEvictableBlocks p (m.keptHits hits numTotal) +
        m.externalBlocks hits numTotal numExternal +
        max 0 (cdiv n m.blockSize - (m.hitLength hits numTotal +
          m.externalBlocks hits numTotal numExternal)) ≤ e := by
  have hmono := cdiv_mono m.kvCacheSpec.blockSize_pos hn
  unfold getNumBlocksToAllocateBase
  simp only [hcached, hblocks, length_nil]
  refine ⟨_, rfl, ?_⟩
  change _ ≤ max (cdiv n m.blockSize - max (m.skippedBlocks numTotal) _) 0 +
    (getNumEvictableBlocks p (hits.drop (max 0 (m.skippedBlocks numTotal - _)).toNat) : Int)
  have hdrop : (max 0 (m.skippedBlocks numTotal - ((0 : Nat) : Int))).toNat =
      (m.skippedBlocks numTotal).toNat := by omega
  rw [hdrop]
  change (getNumEvictableBlocks p (m.keptHits hits numTotal) : Int) + _ + _ ≤
    _ + (getNumEvictableBlocks p (m.keptHits hits numTotal) : Int)
  have hlen : m.hitLength hits numTotal =
    max (max 0 (m.skippedBlocks numTotal)) (hits.length : Int) := rfl
  have hcases : m.externalBlocks hits numTotal numExternal = 0 ∨
      m.externalBlocks hits numTotal numExternal =
        cdiv numTotal m.blockSize - m.hitLength hits numTotal := by
    unfold externalBlocks
    split
    · exact Or.inr rfl
    · exact Or.inl rfl
  unfold blockSize at *
  omega

theorem getNumBlocksToAllocate_new (hblocks : m.blocksOf r = [])
    (hcached : m.numCachedBlock r = none) {n main : Int} (hn : numTotal ≤ n) (numExternal : Int)
    (halign : ∀ spec, m.alignBlocks = some spec → m.allocatedBlockReqs r = false ∧ numExternal ≤ 0 ∧
      (hits.length : Int) < cdiv main m.blockSize) :
    ∃ e, m.getNumBlocksToAllocate p r n hits numTotal main = .ok e ∧
      getNumEvictableBlocks p (m.keptHits hits numTotal) +
        m.externalBlocks hits numTotal numExternal +
        m.newBlocks r n main (m.hitLength hits numTotal +
          m.externalBlocks hits numTotal numExternal) ≤ e := by
  unfold newBlocks
  cases hmode : m.alignBlocks with
  | none =>
    rw [getNumBlocksToAllocate_of_base hmode]
    exact getNumBlocksToAllocateBase_new hblocks hcached (hn.trans (m.le_slotTokens n)) numExternal
  | some spec =>
    obtain ⟨hfresh, hext, hshort⟩ := halign spec hmode
    have hevict := m.getNumEvictableBlocks_keptHits_le p hits numTotal
    have hnone := m.externalBlocks_of_nonpos hits numTotal hext
    rw [getNumBlocksToAllocate_of_align hmode]
    refine ⟨_, rfl, ?_⟩
    have hmore : cdiv main m.blockSize + spec - hits.length - (m.blocksOf r).length > 0 := by
      rw [hblocks, length_nil]
      omega
    simp only [hmore, hfresh, hnone, Bool.false_eq_true, if_true, if_false]
    split <;> omega

theorem skippedBlocks_le_length {n : Int} (hn : 0 ≤ n)
    (hcomputed : n ≤ (m.blocksOf r).length * m.blockSize) :
    m.skippedBlocks n ≤ (m.blocksOf r).length := by
  have hmul := (m.skippedBlocks_mul_le hn).trans hcomputed
  exact Int.le_of_mul_le_mul_right hmul (Int.natCast_pos.mpr m.kvCacheSpec.blockSize_pos)

theorem getNumBlocksToAllocate_missing (hbase : m.alignBlocks = none) {total : Int} (n main : Int)
    (htotal : 0 ≤ total) (hcomputed : total ≤ (m.blocksOf r).length * m.blockSize) :
    m.getNumBlocksToAllocate p r n [] total main =
      .ok (max (cdiv (m.slotTokens n) m.blockSize - (m.blocksOf r).length) 0) := by
  have hskipped : m.getNumSkippedTokens total / m.blockSize ≤ (m.blocksOf r).length :=
    skippedBlocks_le_length htotal hcomputed
  rw [getNumBlocksToAllocate_of_base hbase, getNumBlocksToAllocateBase]
  cases m.numCachedBlock r with
  | some c => simp
  | none =>
    grind [getNumEvictableBlocks]

theorem getNumBlocksToAllocate_old (n main : Int) (htotal : 0 ≤ numTotal)
    (hcomputed : numTotal ≤ (m.blocksOf r).length * m.blockSize) :
    ∃ e, m.getNumBlocksToAllocate p r n [] numTotal main = .ok e ∧
      ((∀ spec, m.alignBlocks = some spec →
        (m.blocksOf r).length ≤ cdiv main m.blockSize + spec) →
        m.newBlocks r n main (m.blocksOf r).length ≤ e) := by
  unfold newBlocks
  cases hmode : m.alignBlocks with
  | none =>
    exact ⟨_, getNumBlocksToAllocate_missing hmode n main htotal hcomputed,
      fun _ => (max_comm _ _).le⟩
  | some spec =>
    rw [getNumBlocksToAllocate_of_align hmode]
    refine ⟨_, rfl, fun hfits => ?_⟩
    have := hfits spec rfl
    simp only [length_nil, getNumEvictableBlocks, countP_nil]
    rcases this.lt_or_eq with hlt | heq
    · split <;> omega
    · grind

end estimate

end LongCtxSpecDecode.SingleTypeKVCacheManager
