import LongCtxSpecDecode.BlockPool

/-!
# Conservation of blocks

Every block of the pool is free or held, the reference counts count the holds, and the
hash map files exactly the blocks that carry a hash. A hold is a pair of a holder and a
block; holders are arbitrary.
-/

namespace LongCtxSpecDecode

open List

namespace BlockHashToBlockMap

variable {H : Type}

@[simp] theorem filed_empty (key : BlockHashWithGroupId H) :
    (empty : BlockHashToBlockMap H).filed key = [] := rfl

/-- No key is mapped to an empty dictionary, and no block is filed twice under a key. -/
structure WellFormed (m : BlockHashToBlockMap H) : Prop where
  nonempty : ∀ key, m.cache key ≠ some (.dict [])
  nodup : ∀ key, (m.filed key).Nodup

variable [DecidableEq H]

theorem filed_put (m : BlockHashToBlockMap H) (key key' : BlockHashWithGroupId H)
    (blocks : Option CachedBlocks) :
    (m.put key blocks).filed key' =
      if key' = key then (blocks.map CachedBlocks.ids).getD [] else m.filed key' := by
  by_cases hkey : key' = key
  · subst hkey
    simp [filed, put]
  · simp [filed, put, hkey]

variable {m : BlockHashToBlockMap H} {key : BlockHashWithGroupId H} {b : Nat}

theorem filed_insert (hb : b ∉ m.filed key) (key' : BlockHashWithGroupId H) :
    (m.insert key b).filed key' =
      if key' = key then m.filed key ++ [b] else m.filed key' := by
  unfold insert
  split <;> rename_i hcache <;> rw [filed_put] <;> congr 1 <;>
    simp only [filed, hcache, CachedBlocks.ids, Option.map_some, Option.map_none,
      Option.getD_some, Option.getD_none, nil_append, singleton_append] at hb ⊢
  · rw [if_neg]
    rintro rfl
    simp at hb
  · rw [if_neg hb]

theorem wellFormed_put {blocks : Option CachedBlocks} (hm : m.WellFormed)
    (hne : blocks ≠ some (.dict [])) (hnodup : ((blocks.map CachedBlocks.ids).getD []).Nodup) :
    (m.put key blocks).WellFormed := by
  refine ⟨fun key' => ?_, fun key' => ?_⟩
  · by_cases hkey : key' = key
    · simpa [put, hkey] using hne
    · simpa [put, hkey] using hm.nonempty key'
  · rw [filed_put]
    split
    · exact hnodup
    · exact hm.nodup key'

theorem wellFormed_insert (hm : m.WellFormed) (hb : b ∉ m.filed key) :
    (m.insert key b).WellFormed := by
  have hfiled := filed_insert hb key
  have hnodup : (m.filed key ++ [b]).Nodup := concat_eq_append ▸ (hm.nodup key).concat hb
  rw [if_pos rfl] at hfiled
  unfold insert at hfiled ⊢
  split at hfiled <;> rw [filed_put, if_pos rfl] at hfiled <;>
    exact wellFormed_put hm (fun hnil => by simp_all [CachedBlocks.ids]) (hfiled ▸ hnodup)

theorem pop_spec (hm : m.WellFormed) (hb : b ∈ m.filed key) :
    ∃ m', m.pop key b = (some b, m') ∧ m'.WellFormed ∧
      ∀ key', m'.filed key' = if key' = key then (m.filed key).erase b else m.filed key' := by
  have hput : ∀ blocks : Option CachedBlocks,
      (blocks.map CachedBlocks.ids).getD [] = (m.filed key).erase b →
      blocks ≠ some (.dict []) → (m.put key blocks).WellFormed ∧
        ∀ key', (m.put key blocks).filed key' =
          if key' = key then (m.filed key).erase b else m.filed key' :=
    fun blocks hids hne => ⟨wellFormed_put hm hne (hids ▸ (hm.nodup key).erase b),
      fun key' => hids ▸ filed_put m key key' blocks⟩
  cases hcache : m.cache key with
  | none =>
    simp [filed, hcache] at hb
  | some entry =>
    cases entry with
    | single first =>
      obtain rfl : b = first := by simpa [filed, hcache, CachedBlocks.ids] using hb
      refine ⟨m.put key none, by simp [pop, hcache], hput none ?_ (by simp)⟩
      simp [filed, hcache, CachedBlocks.ids]
    | dict blocks =>
      have hmem : b ∈ blocks := by simpa [filed, hcache, CachedBlocks.ids] using hb
      have hpop : m.pop key b = (some b,
          m.put key (if (blocks.erase b).length > 0 then some (.dict (blocks.erase b))
            else none)) := by
        simp only [pop, hcache, hmem, if_true]
      refine ⟨_, hpop, hput _ ?_ ?_⟩
      · simp only [filed, hcache, CachedBlocks.ids, Option.map_some, Option.getD_some]
        cases blocks.erase b <;> simp [CachedBlocks.ids]
      · cases blocks.erase b <;> simp

end BlockHashToBlockMap

namespace BlockPool

variable {H ρ : Type}

structure Config where
  numGpuBlocks : Nat
  enableCaching : Bool
  hashBlockSize : Nat
  nullBlock : Nat
  enableKvCacheEvents : Bool

def config (p : BlockPool H) : Config :=
  ⟨p.numGpuBlocks, p.enableCaching, p.hashBlockSize, p.nullBlock, p.enableKvCacheEvents⟩

/-- A block other than the null block. -/
def Real (p : BlockPool H) (b : Nat) : Prop := b < p.numGpuBlocks ∧ b ≠ p.nullBlock

variable {p p' : BlockPool H} {pending blocks : List Nat} {holds : List (ρ × Nat)} {block : Nat}
  {h : ρ}

theorem nullBlock_of_config (hconfig : p'.config = p.config) : p'.nullBlock = p.nullBlock :=
  congrArg Config.nullBlock hconfig

theorem real_congr (hconfig : p'.config = p.config) (b : Nat) : p'.Real b ↔ p.Real b := by
  have hnum : p'.numGpuBlocks = p.numGpuBlocks := congrArg Config.numGpuBlocks hconfig
  rw [Real, Real, hnum, nullBlock_of_config hconfig]

/-- The pool accounts for the blocks under the outstanding holds `holds`; the blocks
`pending` have left the free queue and are not yet held. -/
structure Accounts (p : BlockPool H) (pending : List Nat) (holds : List (ρ × Nat)) : Prop where
  queue : ∃ l, p.freeBlockQueue.Holds l ∧
    ∀ b, b ∈ l ↔ p.Real b ∧ (p.blocks b).refCnt = 0 ∧ b ∉ pending
  null : ∀ b, (p.blocks b).isNull = true ↔ b = p.nullBlock
  nodup : holds.Nodup
  held : ∀ x ∈ holds, p.Real x.2
  refs : ∀ b, b ≠ p.nullBlock → (p.blocks b).refCnt = ((holds.map Prod.snd).count b : Int)
  map : p.cachedBlockHashToBlock.WellFormed
  hashed : ∀ b key, (p.blocks b).blockHash = some key ↔ b ∈ p.cachedBlockHashToBlock.filed key
  hashedReal : ∀ b key, (p.blocks b).blockHash = some key → p.Real b

variable {holds' : List (ρ × Nat)}

theorem Accounts.perm (h : Accounts p pending holds) (hperm : holds.Perm holds') :
    Accounts p pending holds' where
  queue := h.queue
  null := h.null
  nodup := hperm.nodup_iff.mp h.nodup
  held := fun x hx => h.held x (hperm.mem_iff.mpr hx)
  refs := fun b hb => by rw [h.refs b hb, (hperm.map Prod.snd).count_eq]
  map := h.map
  hashed := h.hashed
  hashedReal := h.hashedReal

theorem Accounts.not_null (h : Accounts p pending holds) {b : Nat} (hb : p.Real b) :
    (p.blocks b).isNull = false := by
  rw [Bool.eq_false_iff]
  exact fun hnull => hb.2 ((h.null b).mp hnull)

theorem Accounts.rehash (h : Accounts p pending holds) (hconfig : p'.config = p.config)
    (hqueue : p'.freeBlockQueue = p.freeBlockQueue)
    (hblocks : ∀ b, (p'.blocks b).refCnt = (p.blocks b).refCnt ∧
      (p'.blocks b).isNull = (p.blocks b).isNull)
    (hmap : p'.cachedBlockHashToBlock.WellFormed)
    (hhashed : ∀ b key, (p'.blocks b).blockHash = some key ↔
      b ∈ p'.cachedBlockHashToBlock.filed key)
    (hreal : ∀ b key, (p'.blocks b).blockHash = some key → p.Real b) :
    Accounts p' pending holds where
  queue := by
    obtain ⟨l, hl, hmem⟩ := h.queue
    refine ⟨l, hqueue ▸ hl, fun b => ?_⟩
    rw [real_congr hconfig, (hblocks b).1]
    exact hmem b
  null := fun b => by
    rw [(hblocks b).2, nullBlock_of_config hconfig]
    exact h.null b
  nodup := h.nodup
  held := fun x hx => (real_congr hconfig x.2).mpr (h.held x hx)
  refs := fun b hb => by
    rw [(hblocks b).1]
    exact h.refs b (nullBlock_of_config hconfig ▸ hb)
  map := hmap
  hashed := hhashed
  hashedReal := fun b key hkey => (real_congr hconfig b).mpr (hreal b key hkey)

theorem Accounts.recount {pending' : List Nat} (h : Accounts p pending holds)
    (hconfig : p'.config = p.config) (hmap : p'.cachedBlockHashToBlock = p.cachedBlockHashToBlock)
    (hblocks : ∀ b, (p'.blocks b).isNull = (p.blocks b).isNull ∧ (p'.blocks b).blockHash = (p.blocks
      b).blockHash)
    (hqueue : ∃ l, p'.freeBlockQueue.Holds l ∧ ∀ b, b ∈ l ↔ p.Real b ∧ (p'.blocks b).refCnt = 0 ∧ b
      ∉ pending') (hnodup : holds'.Nodup) (hheld : ∀ x ∈ holds', p.Real x.2)
    (hrefs : ∀ b, b ≠ p.nullBlock → (p'.blocks b).refCnt = ((holds'.map Prod.snd).count b : Int)) :
    Accounts p' pending' holds' := by
  have hnull := nullBlock_of_config hconfig
  refine ⟨?_, fun b => ?_, hnodup, fun x hx => (real_congr hconfig x.2).mpr (hheld x hx),
    fun b hb => hrefs b (hnull ▸ hb), hmap ▸ h.map, fun b key => ?_, fun b key hkey => ?_⟩
  · obtain ⟨l, hl, hmem⟩ := hqueue
    refine ⟨l, hl, fun b => ?_⟩
    rw [real_congr hconfig]
    exact hmem b
  · rw [(hblocks b).1, hnull]
    exact h.null b
  · rw [(hblocks b).2, hmap]
    exact h.hashed b key
  · rw [(hblocks b).2] at hkey
    exact (real_congr hconfig b).mpr (h.hashedReal b key hkey)

theorem record_blocks (p : BlockPool H) (event : KVCacheEvent H) :
    (p.record event).blocks = p.blocks := rfl

theorem modifyBlock_blocks (p : BlockPool H) (b c : Nat)
    (f : KVCacheBlock H → KVCacheBlock H) :
    (p.modifyBlock b f).blocks c = if c = b then f (p.blocks b) else p.blocks c := by
  by_cases hc : c = b
  · subst hc
    simp [modifyBlock]
  · simp [modifyBlock, hc]

theorem modifyBlock_refCnt (p : BlockPool H) (f : Int → Int) (b c : Nat) :
    (p.modifyBlock b fun blk => { blk with refCnt := f blk.refCnt }).blocks c =
      { p.blocks c with
        refCnt := if c = b then f (p.blocks c).refCnt else (p.blocks c).refCnt } := by
  rw [modifyBlock_blocks]
  split
  · rename_i hc
    rw [hc]
  · rfl

theorem modifyBlock_blockHash (p : BlockPool H) (key : Option (BlockHashWithGroupId H))
    (b c : Nat) :
    (p.modifyBlock b fun blk => { blk with blockHash := key }).blocks c =
      { p.blocks c with blockHash := if c = b then key else (p.blocks c).blockHash } := by
  rw [modifyBlock_blocks]
  split
  · rename_i hc
    rw [hc]
  · rfl

theorem Accounts.hold (hacc : Accounts p (block :: pending) holds) (hreal : p.Real block)
    (hnew : (h, block) ∉ holds) :
    Accounts (p.modifyBlock block fun blk => { blk with refCnt := blk.refCnt + 1 }) pending
      ((h, block) :: holds) := by
  have hblocks := modifyBlock_refCnt p (· + 1) block
  have hrefs := hacc.refs block hreal.2
  refine hacc.recount rfl rfl (fun b => ?_) ?_ (nodup_cons.mpr ⟨hnew, hacc.nodup⟩)
    (fun x hx => ?_) fun b hb => ?_
  · rw [hblocks b]
    exact ⟨rfl, rfl⟩
  · obtain ⟨l, hl, hmem⟩ := hacc.queue
    refine ⟨l, hl, fun b => ?_⟩
    rw [hmem b, hblocks b]
    by_cases hb : b = block
    · subst hb
      simp only [mem_cons, true_or, not_true_eq_false, and_false, if_true, false_iff,
        not_and]
      omega
    · simp only [mem_cons, hb, false_or, if_false]
  · rcases mem_cons.mp hx with rfl | hx
    · exact hreal
    · exact hacc.held x hx
  · rw [hblocks b]
    by_cases hbb : b = block
    · subst hbb
      simp [hrefs]
    · simp [hbb, Ne.symm hbb, hacc.refs b hb]

theorem Accounts.pend (hacc : Accounts p pending holds) (href : (p.blocks block).refCnt ≠ 0) :
    Accounts p (block :: pending) holds := by
  refine { hacc with queue := ?_ }
  obtain ⟨l, hl, hmem⟩ := hacc.queue
  refine ⟨l, hl, fun b => ?_⟩
  rw [hmem b, mem_cons, not_or]
  constructor
  · rintro ⟨hreal, hzero, hpending⟩
    exact ⟨hreal, hzero, fun hb => href (hb ▸ hzero), hpending⟩
  · rintro ⟨hreal, hzero, -, hpending⟩
    exact ⟨hreal, hzero, hpending⟩

theorem Accounts.modify_null (hacc : Accounts p [] holds) (f : Int → Int) :
    Accounts (p.modifyBlock p.nullBlock fun blk => { blk with refCnt := f blk.refCnt }) []
      holds := by
  have hblocks := modifyBlock_refCnt p f p.nullBlock
  refine hacc.recount rfl rfl (fun b => ?_) ?_ hacc.nodup hacc.held fun b hb => ?_
  · rw [hblocks b]
    exact ⟨rfl, rfl⟩
  · obtain ⟨l, hl, hmem⟩ := hacc.queue
    refine ⟨l, hl, fun b => ?_⟩
    rw [hmem b, hblocks b]
    exact and_congr_right fun hreal => by rw [if_neg hreal.2]
  · rw [hblocks b, if_neg hb]
    exact hacc.refs b hb

def realBlocks (p : BlockPool H) (blocks : List Nat) : List Nat :=
  blocks.filter fun b => b ≠ p.nullBlock

theorem realBlocks_null {b : Nat} (hnull : b = p.nullBlock) (blocks : List Nat) :
    p.realBlocks (b :: blocks) = p.realBlocks blocks := by
  simp [realBlocks, hnull]

theorem realBlocks_cons {b : Nat} (hnull : b ≠ p.nullBlock) (blocks : List Nat) :
    p.realBlocks (b :: blocks) = b :: p.realBlocks blocks := by
  simp [realBlocks, hnull]

/-- The blocks that nobody holds. -/
def evictable (p : BlockPool H) (blocks : List Nat) : List Nat :=
  blocks.filter fun b => (p.blocks b).refCnt = 0 ∧ (p.blocks b).isNull = false

theorem touchBlock_spec (hacc : Accounts p [] holds)
    (hblock : ∀ b ∈ p.realBlocks [block], p.Real b ∧ (h, b) ∉ holds) :
    ∃ p', p.touchBlock block = .ok p' ∧
      Accounts p' [] (((p.realBlocks [block]).map fun b => (h, b)) ++ holds) ∧
      p'.config = p.config ∧
      p'.getNumFreeBlocks = p.getNumFreeBlocks - (p.evictable [block]).length ∧
      ∀ b, p'.blocks b = { p.blocks b with
        refCnt := if b = block then (p.blocks b).refCnt + 1 else (p.blocks b).refCnt } := by
  by_cases hnull : block = p.nullBlock
  · have hisnull : (p.blocks block).isNull = true := (hacc.null block).mpr hnull
    have htouch : p.touchBlock block = .ok
        (p.modifyBlock block fun blk => { blk with refCnt := blk.refCnt + 1 }) := by
      simp [touchBlock, hisnull]
    refine ⟨_, htouch, ?_, rfl, ?_, modifyBlock_refCnt p (· + 1) block⟩
    · rw [realBlocks_null hnull, hnull]
      exact hacc.modify_null (· + 1)
    · simp [evictable, getNumFreeBlocks, modifyBlock, hisnull]
  rw [realBlocks_cons hnull] at hblock ⊢
  obtain ⟨hreal, hnew⟩ := hblock block (by simp)
  have hnotnull := hacc.not_null hreal
  by_cases hzero : (p.blocks block).refCnt = 0
  · obtain ⟨l, hl, hmem⟩ := hacc.queue
    have hblock : block ∈ l := (hmem block).mpr ⟨hreal, hzero, by simp⟩
    obtain ⟨q', hremove, hq'⟩ := FreeKVCacheBlockQueue.remove_spec hl hblock
    have hacc₁ : Accounts { p with freeBlockQueue := q' } [block] holds := by
      refine { hacc with queue := ⟨l.erase block, hq', fun b => ?_⟩ }
      rw [hl.links.nodup.mem_erase_iff, hmem b]
      simp only [mem_singleton, not_mem_nil, not_false_eq_true, and_true]
      exact and_comm.trans and_assoc
    have htouch : p.touchBlock block = .ok
        (({ p with freeBlockQueue := q' }).modifyBlock block
          fun blk => { blk with refCnt := blk.refCnt + 1 }) := by
      simp [touchBlock, hzero, hnotnull, hremove]
    refine ⟨_, htouch, hacc₁.hold hreal hnew, rfl, ?_, modifyBlock_refCnt _ (· + 1) block⟩
    have hcount := hl.count
    have hcount' := hq'.count
    rw [length_erase_of_mem hblock] at hcount'
    have hpos := length_pos_of_mem hblock
    simp only [evictable, getNumFreeBlocks, modifyBlock, hzero, hnotnull, filter_cons,
      filter_nil, and_self, decide_true, if_true, length_singleton]
    omega
  · have htouch : p.touchBlock block = .ok
        (p.modifyBlock block fun blk => { blk with refCnt := blk.refCnt + 1 }) := by
      simp [touchBlock, hzero]
    refine ⟨_, htouch, (hacc.pend hzero).hold hreal hnew, rfl, ?_,
      modifyBlock_refCnt p (· + 1) block⟩
    simp [evictable, getNumFreeBlocks, modifyBlock, hzero]

theorem touch_spec (hacc : Accounts p [] holds) (hnodup : (p.realBlocks blocks).Nodup)
    (hblocks : ∀ b ∈ p.realBlocks blocks, p.Real b ∧ (h, b) ∉ holds) :
    ∃ p', p.touch blocks = .ok p' ∧
      Accounts p' [] (((p.realBlocks blocks).map fun b => (h, b)) ++ holds) ∧
      p'.config = p.config ∧
      p'.getNumFreeBlocks = p.getNumFreeBlocks - (p.evictable blocks).length := by
  induction blocks generalizing p holds with
  | nil =>
    exact ⟨p, rfl, hacc, rfl, by simp [evictable]⟩
  | cons block blocks ih =>
    have hsplit : p.realBlocks (block :: blocks) = p.realBlocks [block] ++ p.realBlocks blocks :=
      filter_append [block] blocks
    rw [hsplit] at hnodup hblocks ⊢
    obtain ⟨p₁, htouch, hacc₁, hconfig₁, hfree₁, hblocks₁⟩ :=
      touchBlock_spec hacc fun b hb => hblocks b (mem_append_left _ hb)
    have hreal₁ : p₁.realBlocks blocks = p.realBlocks blocks := by
      simp [realBlocks, nullBlock_of_config hconfig₁]
    have hdisjoint := (nodup_append.mp hnodup).2.2
    obtain ⟨p', htouch', hacc', hconfig, hfree⟩ :=
      ih hacc₁ (hreal₁ ▸ (nodup_append.mp hnodup).2.1) (by
        intro b hb
        rw [hreal₁] at hb
        rw [real_congr hconfig₁, mem_append, not_or]
        refine ⟨(hblocks b (mem_append_right _ hb)).1, ?_, (hblocks b (mem_append_right _ hb)).2⟩
        rw [mem_map]
        rintro ⟨b', hb', ⟨⟩⟩
        exact hdisjoint b hb' b hb rfl)
    refine ⟨p', ?_, ?_, hconfig.trans hconfig₁, ?_⟩
    · rw [touch, foldlM_cons, htouch]
      exact htouch'
    · rw [hreal₁] at hacc'
      refine hacc'.perm ?_
      rw [map_append, append_assoc]
      exact perm_append_comm_assoc ..
    · have hevict : p₁.evictable blocks = p.evictable blocks := by
        refine filter_congr fun b hb => ?_
        rw [hblocks₁ b]
        by_cases hbb : b = block
        · have hisnull : (p.blocks b).isNull = true := by
            refine (hacc.null b).mpr (by_contra fun hne => ?_)
            exact hdisjoint b (by simp [realBlocks, hbb ▸ hne, hbb]) b
              (mem_filter.mpr ⟨hb, by simpa using hne⟩) rfl
          simp [hisnull]
        · simp [hbb]
      have happend : p.evictable (block :: blocks) =
          p.evictable [block] ++ p.evictable blocks := filter_append [block] blocks
      rw [hfree, hevict, happend, length_append]
      omega

theorem releaseAll_spec (blocks : List Nat) (p : BlockPool H) :
    (p.releaseAll blocks).config = p.config ∧
      (p.releaseAll blocks).freeBlockQueue = p.freeBlockQueue ∧
      (p.releaseAll blocks).cachedBlockHashToBlock = p.cachedBlockHashToBlock ∧
      ∀ b, (p.releaseAll blocks).blocks b =
        { p.blocks b with refCnt := (p.blocks b).refCnt - blocks.count b } := by
  induction blocks generalizing p with
  | nil =>
    exact ⟨rfl, rfl, rfl, by simp [releaseAll]⟩
  | cons block blocks ih =>
    obtain ⟨hconfig, hqueue, hmap, hblocks⟩ :=
      ih (p.modifyBlock block fun blk => { blk with refCnt := blk.refCnt - 1 })
    refine ⟨hconfig, hqueue, hmap, fun b => ?_⟩
    refine (hblocks b).trans ?_
    rw [modifyBlock_blocks, count_cons]
    by_cases hb : b = block
    · subst hb
      simp only [if_true, beq_self_eq_true, KVCacheBlock.mk.injEq, and_true]
      omega
    · simp [hb, Ne.symm hb]

theorem Accounts.requeue (hacc : Accounts p pending holds) (hnodup : pending.Nodup)
    (hfree : ∀ b ∈ pending, p.Real b ∧ (p.blocks b).refCnt = 0) :
    ∃ q', p.freeBlockQueue.appendN pending = .ok q' ∧
      Accounts { p with freeBlockQueue := q' } [] holds := by
  obtain ⟨l, hl, hmem⟩ := hacc.queue
  have hdisj : (l ++ pending).Nodup := by
    rw [nodup_append]
    refine ⟨hl.links.nodup, hnodup, ?_⟩
    rintro b hb c hc rfl
    exact ((hmem b).mp hb).2.2 hc
  obtain ⟨q', happend, hq'⟩ := FreeKVCacheBlockQueue.appendN_spec hl hdisj
  refine ⟨q', happend, { hacc with queue := ⟨_, hq', fun b => ?_⟩ }⟩
  rw [mem_append, hmem b]
  constructor
  · rintro (⟨hreal, hzero, -⟩ | hb)
    · exact ⟨hreal, hzero, by simp⟩
    · exact ⟨(hfree b hb).1, (hfree b hb).2, by simp⟩
  · rintro ⟨hreal, hzero, -⟩
    by_cases hb : b ∈ pending
    · exact Or.inr hb
    · exact Or.inl ⟨hreal, hzero, hb⟩

variable {rest : List (ρ × Nat)}

theorem Accounts.release {ordered : List Nat} (hacc : Accounts p [] holds)
    (hperm : holds.Perm (((p.realBlocks ordered).map fun b => (h, b)) ++ rest)) :
    Accounts (p.releaseAll ordered) ((p.releaseAll ordered).evictable ordered) rest ∧
      ((p.releaseAll ordered).evictable ordered).Nodup ∧
      ∀ b ∈ (p.releaseAll ordered).evictable ordered,
        p.Real b ∧ ((p.releaseAll ordered).blocks b).refCnt = 0 := by
  have hacc' := hacc.perm hperm
  obtain ⟨hconfig, hqueue, hmap, hblocks⟩ := releaseAll_spec ordered p
  set p₁ := p.releaseAll ordered
  have hrefs : ∀ b, b ≠ p.nullBlock →
      (p.blocks b).refCnt = (ordered.count b : Int) + ((rest.map Prod.snd).count b : Int) := by
    intro b hb
    have hcount : (p.realBlocks ordered).count b = ordered.count b :=
      count_filter (by simpa using hb)
    have hsnd : List.map (Prod.snd ∘ fun b => (h, b)) (p.realBlocks ordered) =
        p.realBlocks ordered := map_id' _
    rw [hacc'.refs b hb, map_append, map_map, hsnd, count_append, hcount]
    rfl
  have hisnull : ∀ b, (p₁.blocks b).isNull = (p.blocks b).isNull := fun b => by rw [hblocks b]
  have hfreed : ∀ b, b ∈ p₁.evictable ordered ↔
      b ∈ ordered ∧ b ≠ p.nullBlock ∧ (p₁.blocks b).refCnt = 0 := by
    intro b
    have hnotnull : (p₁.blocks b).isNull = false ↔ b ≠ p.nullBlock := by
      rw [hisnull b, ← not_iff_not, Bool.not_eq_false, not_not]
      exact hacc.null b
    simp only [evictable, mem_filter, decide_eq_true_eq, hnotnull]
    exact and_congr_right fun _ => and_comm
  have hheld : ∀ b ∈ ordered, b ≠ p.nullBlock → p.Real b := by
    intro b hb hbnull
    have hreal : b ∈ p.realBlocks ordered := mem_filter.mpr ⟨hb, by simpa using hbnull⟩
    exact hacc'.held (h, b) (mem_append_left _ (mem_map.mpr ⟨b, hreal, rfl⟩))
  refine ⟨hacc.recount hconfig hmap (fun b => ?_) ?_ (nodup_append.mp hacc'.nodup).2.1
    (fun x hx => hacc'.held x (mem_append_right _ hx)) fun b hb => ?_, ?_, ?_⟩
  · rw [hblocks b]
    exact ⟨rfl, rfl⟩
  · obtain ⟨l, hl, hmem⟩ := hacc.queue
    refine ⟨l, hqueue ▸ hl, fun b => ?_⟩
    rw [hmem b, hfreed b, hblocks b]
    refine and_congr_right fun hreal => ?_
    have := hrefs b hreal.2
    have hcount : b ∈ ordered ↔ 0 < ordered.count b := count_pos_iff.symm
    simp only [not_mem_nil, not_false_eq_true, and_true, hcount, hreal.2, ne_eq, true_and]
    omega
  · rw [hblocks b]
    have := hrefs b hb
    simp only
    omega
  · have hnd : (p.realBlocks ordered).Nodup :=
      Nodup.of_map _ (nodup_append.mp hacc'.nodup).1
    have hsub : p₁.evictable ordered = p₁.evictable (p.realBlocks ordered) := by
      rw [evictable, evictable, realBlocks, filter_filter]
      refine filter_congr fun b _ => ?_
      by_cases hbnull : b = p.nullBlock
      · have := (hacc.null b).mpr hbnull
        simp [hisnull b, this]
      · simp [hbnull]
    rw [hsub]
    exact hnd.filter _
  · intro b hb
    obtain ⟨hmem, hbnull, hzero⟩ := (hfreed b).mp hb
    exact ⟨hheld b hmem hbnull, hzero⟩

theorem freeBlocks_spec {ordered : List Nat} (hacc : Accounts p [] holds)
    (hperm : holds.Perm (((p.realBlocks ordered).map fun b => (h, b)) ++ rest)) :
    ∃ p', p.freeBlocks ordered = .ok p' ∧ Accounts p' [] rest ∧ p'.config = p.config := by
  obtain ⟨hconfig, -⟩ := releaseAll_spec ordered p
  obtain ⟨hacc₁, hnodup, hfree⟩ := hacc.release hperm
  obtain ⟨q', happend, hacc'⟩ := hacc₁.requeue hnodup fun b hb =>
    ⟨(real_congr hconfig b).mpr (hfree b hb).1, (hfree b hb).2⟩
  have hok : p.freeBlocks ordered = .ok { p.releaseAll ordered with freeBlockQueue := q' } := by
    rw [evictable] at happend
    simp only [freeBlocks, happend, ok_bind]
  exact ⟨_, hok, hacc', hconfig⟩

theorem resetPrefixCache_spec (hacc : Accounts p [] holds) :
    Accounts p.resetPrefixCache.2 [] holds ∧ p.resetPrefixCache.2.config = p.config := by
  unfold resetPrefixCache
  split
  · exact ⟨hacc, rfl⟩
  · refine ⟨hacc.rehash rfl rfl (fun b => ⟨rfl, rfl⟩) ⟨?_, ?_⟩ ?_ ?_, rfl⟩
    · intro key
      simp [record, BlockHashToBlockMap.empty]
    · intro key
      simp [record]
    · intro b key
      simp [record]
    · intro b key hkey
      simp [record] at hkey

theorem init_accounts {numGpuBlocks : Nat} (hnum : 0 < numGpuBlocks) (enableCaching : Bool)
    (hashBlockSize : Nat) (enableKvCacheEvents : Bool) :
    ∃ p : BlockPool H, init numGpuBlocks enableCaching hashBlockSize enableKvCacheEvents = .ok p ∧
      Accounts (ρ := ρ) p [] [] := by
  have hrange : range numGpuBlocks = 0 :: (range (numGpuBlocks - 1)).map Nat.succ := by
    obtain ⟨n, rfl⟩ := Nat.exists_eq_succ_of_ne_zero hnum.ne'
    simp [range_succ_eq_map]
  have hholds := FreeKVCacheBlockQueue.init_holds (nodup_range (n := numGpuBlocks))
  rw [hrange] at hholds
  obtain ⟨q, hpop, hq⟩ := FreeKVCacheBlockQueue.popleft_spec hholds
  rw [← hrange] at hpop
  have hblocks : ∀ b, (Function.update (fun _ => ({} : KVCacheBlock H)) 0
      { ({} : KVCacheBlock H) with isNull := true }) b = { isNull := decide (b = 0) } := by
    intro b
    by_cases hb : b = 0
    · subst hb
      simp
    · simp [hb]
  refine ⟨_, by simp only [init, require_of_true hnum, hpop]; rfl,
    ⟨_, hq, fun b => ?_⟩, fun b => ?_, nodup_nil, by simp, fun b hb => ?_, ⟨?_, ?_⟩,
      fun b key => ?_, fun b key hkey => ?_⟩
  · simp only [modifyBlock, Real, hblocks, mem_map, mem_range, not_mem_nil,
      not_false_eq_true, and_true]
    constructor
    · omega
    · rintro ⟨hb, hb0⟩
      exact ⟨b - 1, by omega, by omega⟩
  · simp [modifyBlock, hblocks]
  · simp [modifyBlock, hblocks]
  · intro key
    simp [modifyBlock, BlockHashToBlockMap.empty]
  · intro key
    simp [modifyBlock]
  · simp [modifyBlock, hblocks]
  · simp [modifyBlock, hblocks] at hkey

variable [DecidableEq H]

theorem maybeEvictCachedBlock_eq (hmap : p.cachedBlockHashToBlock.WellFormed)
    {key : BlockHashWithGroupId H} (hhash : (p.blocks block).blockHash = some key)
    (hfiled : block ∈ p.cachedBlockHashToBlock.filed key) :
    ∃ m' : BlockHashToBlockMap H, m'.WellFormed ∧
      (∀ key', m'.filed key' = if key' = key then (p.cachedBlockHashToBlock.filed key).erase block
        else p.cachedBlockHashToBlock.filed key') ∧
      p.maybeEvictCachedBlock block = (true,
        (({ p with cachedBlockHashToBlock := m' }).modifyBlock block
          fun blk => { blk with blockHash := none }).record (.blockRemoved [key.blockHash])) := by
  obtain ⟨m', hpop, hm', hfiled'⟩ := BlockHashToBlockMap.pop_spec hmap hfiled
  refine ⟨m', hm', hfiled', ?_⟩
  simp only [maybeEvictCachedBlock, hhash, hpop]

theorem hashed_of_erase {m' : BlockHashToBlockMap H} {key : BlockHashWithGroupId H}
    (hmap : p.cachedBlockHashToBlock.WellFormed)
    (hhashed : ∀ b key, (p.blocks b).blockHash = some key ↔
      b ∈ p.cachedBlockHashToBlock.filed key)
    (hhash : (p.blocks block).blockHash = some key)
    (hfiled : ∀ key', m'.filed key' = if key' = key then
      (p.cachedBlockHashToBlock.filed key).erase block else p.cachedBlockHashToBlock.filed key')
    (b : Nat) (key' : BlockHashWithGroupId H) :
    (if b = block then none else (p.blocks b).blockHash) = some key' ↔ b ∈ m'.filed key' := by
  rw [hfiled]
  by_cases hkey : key' = key
  · subst hkey
    rw [if_pos rfl, (hmap.nodup key').mem_erase_iff, ← hhashed]
    by_cases hb : b = block
    · simp [hb]
    · simp [hb]
  · rw [if_neg hkey, ← hhashed]
    by_cases hb : b = block
    · subst hb
      simp [hhash, Ne.symm hkey]
    · simp [hb]

theorem maybeEvictCachedBlock_spec (h : Accounts p pending holds) (block : Nat) :
    Accounts (p.maybeEvictCachedBlock block).2 pending holds ∧
      (p.maybeEvictCachedBlock block).2.config = p.config ∧
      (p.maybeEvictCachedBlock block).2.freeBlockQueue = p.freeBlockQueue ∧
      ∀ b, (p.maybeEvictCachedBlock block).2.blocks b =
        { p.blocks b with blockHash := if b = block then none else (p.blocks b).blockHash } := by
  cases hhash : (p.blocks block).blockHash with
  | none =>
    have hsame : p.maybeEvictCachedBlock block = (false, p) := by
      simp only [maybeEvictCachedBlock, hhash]
    rw [hsame]
    refine ⟨h, rfl, rfl, fun b => ?_⟩
    split
    · rename_i hb
      rw [← hhash, hb]
    · rfl
  | some key =>
    obtain ⟨m', hm', hfiled, hevict⟩ :=
      maybeEvictCachedBlock_eq h.map hhash ((h.hashed block key).mp hhash)
    have hblocks := modifyBlock_blockHash { p with cachedBlockHashToBlock := m' } none block
    rw [hevict]
    refine ⟨h.rehash rfl rfl (fun b => ?_) hm' (fun b key' => ?_) (fun b key' hkey' => ?_),
      rfl, rfl,
      hblocks⟩
    · rw [record_blocks, hblocks]
      exact ⟨rfl, rfl⟩
    · rw [record_blocks, hblocks]
      exact hashed_of_erase h.map h.hashed hhash hfiled b key'
    · rw [record_blocks, hblocks] at hkey'
      dsimp only at hkey'
      split at hkey'
      · cases hkey'
      · exact h.hashedReal b key' hkey'

/-- What allocating `block` does to the fields of the blocks. -/
def allocated (p : BlockPool H) (b : Nat) : KVCacheBlock H :=
  { refCnt := 1
    blockHash := if p.enableCaching then none else (p.blocks b).blockHash
    isNull := (p.blocks b).isNull }

theorem takeBlock_spec (hacc : Accounts p (block :: pending) holds) (hreal : p.Real block)
    (hzero : (p.blocks block).refCnt = 0) (h : ρ) :
    ∃ p', p.takeBlock block = .ok p' ∧ Accounts p' pending ((h, block) :: holds) ∧
      p'.config = p.config ∧ p'.freeBlockQueue = p.freeBlockQueue ∧
      ∀ b, p'.blocks b = if b = block then p.allocated b else p.blocks b := by
  obtain ⟨p₁, hp₁, hacc₁, hconfig, hqueue, hblocks⟩ : ∃ p₁,
      (if p.enableCaching then (p.maybeEvictCachedBlock block).2 else p) = p₁ ∧
      Accounts p₁ (block :: pending) holds ∧ p₁.config = p.config ∧
      p₁.freeBlockQueue = p.freeBlockQueue ∧
      ∀ b, p₁.blocks b = { p.blocks b with
        blockHash := if b = block ∧ p.enableCaching then none else (p.blocks b).blockHash } := by
    refine ⟨_, rfl, ?_⟩
    cases p.enableCaching with
    | true => simpa using maybeEvictCachedBlock_spec hacc block
    | false => simpa using hacc
  have hzero₁ : (p₁.blocks block).refCnt = 0 := by
    rw [hblocks]
    exact hzero
  have htake : p.takeBlock block =
      .ok (p₁.modifyBlock block fun blk => { blk with refCnt := blk.refCnt + 1 }) := by
    simp only [takeBlock, hp₁, require_of_true hzero₁, ok_bind]
  have hnew : (h, block) ∉ holds := by
    intro hmem
    have hpos := count_pos_iff.mpr (mem_map_of_mem (f := Prod.snd) hmem)
    have hrefs := hacc.refs block hreal.2
    simp only at hpos
    omega
  refine ⟨_, htake, hacc₁.hold ((real_congr hconfig block).mpr hreal) hnew, hconfig, hqueue,
    fun b => ?_⟩
  rw [modifyBlock_blocks, hblocks b]
  split
  · rename_i hb
    subst hb
    simp [hblocks, hzero, allocated]
  · rename_i hb
    simp [hb]

theorem foldlM_takeBlock_spec {ret : List Nat} (h : ρ) (hacc : Accounts p (ret ++ pending) holds)
    (hnodup : ret.Nodup) (hret : ∀ b ∈ ret, p.Real b ∧ (p.blocks b).refCnt = 0) :
    ∃ p', ret.foldlM takeBlock p = .ok p' ∧
      Accounts p' pending ((ret.map fun b => (h, b)) ++ holds) ∧
      p'.config = p.config ∧ p'.freeBlockQueue = p.freeBlockQueue := by
  induction ret generalizing p holds with
  | nil =>
    exact ⟨p, rfl, hacc, rfl, rfl⟩
  | cons block ret ih =>
    rw [nodup_cons] at hnodup
    obtain ⟨hreal, hzero⟩ := hret block (by simp)
    obtain ⟨p₁, htake, hacc₁, hconfig₁, hqueue₁, hblocks₁⟩ :=
      takeBlock_spec hacc hreal hzero h
    have hother : ∀ b ∈ ret, p₁.blocks b = p.blocks b := by
      intro b hb
      rw [hblocks₁, if_neg]
      rintro rfl
      exact hnodup.1 hb
    obtain ⟨p', hfold, hacc', hconfig', hqueue'⟩ := ih hacc₁ hnodup.2 (by
      intro b hb
      rw [real_congr hconfig₁, hother b hb]
      exact hret b (by simp [hb]))
    refine ⟨p', ?_, ?_, hconfig'.trans hconfig₁, hqueue'.trans hqueue₁⟩
    · rw [foldlM_cons, htake, ok_bind, hfold]
    · exact hacc'.perm (by simp)

theorem getNewBlocks_spec (hacc : Accounts p [] holds) {n : Nat}
    (hn : (n : Int) ≤ p.getNumFreeBlocks) (h : ρ) :
    ∃ ret p', p.getNewBlocks n = .ok (ret, p') ∧ ret.length = n ∧
      (∀ b ∈ ret, p.Real b ∧ (p.blocks b).refCnt = 0) ∧
      Accounts p' [] ((ret.map fun b => (h, b)) ++ holds) ∧
      p'.config = p.config ∧ p'.getNumFreeBlocks = p.getNumFreeBlocks - n := by
  obtain ⟨l, hl, hmem⟩ := hacc.queue
  have hlen : n ≤ l.length := by
    have := hl.count
    unfold getNumFreeBlocks at hn
    omega
  have hsplit : l.take n ++ l.drop n = l := take_append_drop n l
  have hnodup : (l.take n ++ l.drop n).Nodup := hsplit.symm ▸ hl.links.nodup
  have htake : ((l.take n).length : Int) = n := by simp [hlen]
  obtain ⟨q', hpop, hq'⟩ :=
    FreeKVCacheBlockQueue.popleftN_spec (l.take n) (l.drop n) (hsplit.symm ▸ hl)
  rw [htake] at hpop
  have hfree : ∀ b ∈ l.take n, p.Real b ∧ (p.blocks b).refCnt = 0 := by
    intro b hb
    have := (hmem b).mp (mem_of_mem_take hb)
    exact ⟨this.1, this.2.1⟩
  have hacc₁ : Accounts { p with freeBlockQueue := q' } (l.take n ++ []) holds := by
    refine { hacc with queue := ⟨l.drop n, hq', fun b => ?_⟩ }
    have hb := hmem b
    rw [← hsplit, mem_append] at hb
    have hdisj := (nodup_append.mp hnodup).2.2
    constructor
    · intro hdrop
      obtain ⟨hreal, hzero, -⟩ := hb.mp (Or.inr hdrop)
      refine ⟨hreal, hzero, ?_⟩
      rw [append_nil]
      exact fun htake => hdisj b htake b hdrop rfl
    · rintro ⟨hreal, hzero, hnot⟩
      rw [append_nil] at hnot
      exact (hb.mpr ⟨hreal, hzero, by simp⟩).resolve_left hnot
  obtain ⟨p', hfold, hacc', hconfig, hqueue⟩ :=
    foldlM_takeBlock_spec h hacc₁ (nodup_append.mp hnodup).1 hfree
  refine ⟨l.take n, p', ?_, by omega, hfree, hacc', hconfig, ?_⟩
  · rw [getNewBlocks, if_neg (by omega), hpop]
    simp only [ok_bind, hfold]
  · rw [getNumFreeBlocks, getNumFreeBlocks, hqueue]
    have hcount := hl.count
    have hcount' := hq'.count
    rw [length_drop] at hcount'
    simp only
    omega

theorem evictBlocks_spec {ids : List Nat} (hacc : Accounts p [] holds)
    (hids : ∀ b ∈ ids, b < p.numGpuBlocks) :
    ∃ p', p.evictBlocks ids = .ok p' ∧ Accounts p' [] holds ∧ p'.config = p.config := by
  induction ids generalizing p with
  | nil =>
    exact ⟨p, rfl, hacc, rfl⟩
  | cons block ids ih =>
    obtain ⟨hacc₁, hconfig₁, -⟩ := maybeEvictCachedBlock_spec hacc block
    have hnum : (p.maybeEvictCachedBlock block).2.numGpuBlocks = p.numGpuBlocks :=
      congrArg Config.numGpuBlocks hconfig₁
    obtain ⟨p', hevict, hacc', hconfig⟩ := ih hacc₁ (by
      intro b hb
      rw [hnum]
      exact hids b (by simp [hb]))
    refine ⟨p', ?_, hacc', hconfig.trans hconfig₁⟩
    have hstep : p.evictBlock block = .ok (p.maybeEvictCachedBlock block).2 := by
      simp only [evictBlock, require_of_true (hids block (by simp)), ok_bind]
    rw [evictBlocks, foldlM_cons, hstep]
    exact hevict

theorem hashed_of_insert {blk : Nat} (key : BlockHashWithGroupId H)
    (hhashed : ∀ b key, (p.blocks b).blockHash = some key ↔
      b ∈ p.cachedBlockHashToBlock.filed key)
    (hnew : blk ∉ p.cachedBlockHashToBlock.filed key)
    (hnone : (p.blocks blk).blockHash = none) (b : Nat) (key' : BlockHashWithGroupId H) :
    ((p.modifyBlock blk fun block => { block with blockHash := some key }).blocks b).blockHash =
        some key' ↔ b ∈ (p.cachedBlockHashToBlock.insert key blk).filed key' := by
  rw [modifyBlock_blocks, BlockHashToBlockMap.filed_insert hnew]
  by_cases hb : b = blk
  · subst hb
    by_cases hkey : key' = key
    · simp [hkey]
    · simp [hkey, Ne.symm hkey, ← hhashed, hnone]
  · by_cases hkey : key' = key
    · simp [hb, hkey, hhashed]
    · simp [hb, hkey, hhashed]

theorem Accounts.file (hacc : Accounts p pending holds) {blk : Nat} (hreal : p.Real blk)
    (hhash : (p.blocks blk).blockHash = none) (key : BlockHashWithGroupId H) :
    Accounts { p.modifyBlock blk (fun block => { block with blockHash := some key }) with
      cachedBlockHashToBlock := p.cachedBlockHashToBlock.insert key blk } pending holds := by
  have hblocks := modifyBlock_blockHash p (some key) blk
  have hnew : ∀ key', blk ∉ p.cachedBlockHashToBlock.filed key' := by
    intro key' hmem
    rw [← hacc.hashed, hhash] at hmem
    cases hmem
  refine hacc.rehash rfl rfl ?_ (BlockHashToBlockMap.wellFormed_insert hacc.map (hnew key)) ?_ ?_
  · intro b
    rw [hblocks b]
    exact ⟨rfl, rfl⟩
  · exact hashed_of_insert key hacc.hashed (hnew key) hhash
  · intro b key' hkey'
    rw [hblocks b] at hkey'
    dsimp only at hkey'
    split at hkey'
    · rename_i hb
      rw [hb]
      exact hreal
    · exact hacc.hashedReal b key' hkey'

theorem cacheLoop_returns (groupId : Nat) {blks : List Nat} {hashes : List (List H)}
    (hacc : Accounts p pending holds) (hlen : blks.length ≤ hashes.length)
    (hnodup : (p.realBlocks blks).Nodup)
    (hblks : ∀ b ∈ p.realBlocks blks, p.Real b ∧ (p.blocks b).blockHash = none) :
    ∃ result, cacheLoop groupId blks hashes p = .ok result := by
  induction blks generalizing hashes p with
  | nil => exact ⟨([], p), rfl⟩
  | cons blk blks ih =>
    cases hashes with
    | nil => simp at hlen
    | cons blockHash hashes =>
      have hlen' : blks.length ≤ hashes.length := by simpa using hlen
      by_cases hnull : blk = p.nullBlock
      · rw [realBlocks_null hnull] at hnodup hblks
        obtain ⟨result, hloop⟩ := ih hacc hlen' hnodup hblks
        refine ⟨result, ?_⟩
        simp only [cacheLoop, (hacc.null blk).mpr hnull, if_true, tail_cons, hloop]
      · rw [realBlocks_cons hnull] at hnodup hblks
        rw [nodup_cons] at hnodup
        obtain ⟨hreal, hnone⟩ := hblks blk (by simp)
        obtain ⟨⟨newHashes, p'⟩, hloop⟩ := ih (hacc.file hreal hnone ⟨blockHash, groupId⟩) hlen'
          hnodup.2 (by
            intro b hb
            have hne : b ≠ blk := fun h => hnodup.1 (h ▸ hb)
            rw [modifyBlock_blocks, if_neg hne]
            exact hblks b (mem_cons_of_mem _ hb))
        refine ⟨(blockHash :: newHashes, p'), ?_⟩
        simp only [cacheLoop, hacc.not_null hreal, Bool.false_eq_true, if_false,
          require_of_true hnone]
        simp only [modifyBlock, ok_bind] at hloop ⊢
        rw [hloop]
        rfl

theorem cacheFullBlocks_returns {request : Request H} (numCached : Nat) {numFull blockSize : Nat}
    (groupId : Nat) (hacc : Accounts p [] holds) (hhashes : numFull ≤ request.blockHashes.length)
    (hsize : blockSize = p.hashBlockSize ∨ blockSize % p.hashBlockSize = 0)
    (hlen : numFull ≤ (p.hashesAt blockSize request.blockHashes).length)
    (hnodup : (p.realBlocks ((blocks.take numFull).drop numCached)).Nodup)
    (hblks : ∀ b ∈ p.realBlocks ((blocks.take numFull).drop numCached),
      p.Real b ∧ (p.blocks b).blockHash = none) :
    ∃ p', p.cacheFullBlocks request blocks numCached numFull blockSize groupId = .ok p' := by
  by_cases hlt : numCached ≥ numFull
  · exact ⟨p, by simp [cacheFullBlocks, hlt]⟩
  set hashes := p.hashesAt blockSize request.blockHashes with hhashesAt
  have hlen' : ((blocks.take numFull).drop numCached).length ≤ (hashes.drop numCached).length := by
    simp only [length_drop, length_take]
    omega
  obtain ⟨result, hloop⟩ := cacheLoop_returns groupId hacc hlen' hnodup hblks
  obtain ⟨parent, hparent⟩ : ∃ parent, parentHash hashes numCached = .ok parent := by
    by_cases hzero : numCached = 0
    · exact ⟨none, by simp [parentHash, hzero]⟩
    · have hi : numCached - 1 < hashes.length := by omega
      exact ⟨some hashes[numCached - 1], by
        simp [parentHash, hzero, getElem?_eq_getElem hi]⟩
  simp only [cacheFullBlocks, hlt, if_false, require_of_true hhashes, require_of_true hsize,
    ok_bind, ← hhashesAt, hloop, hparent]
  split
  · exact ⟨_, rfl⟩
  · exact ⟨_, rfl⟩

theorem cacheLoop_ok (groupId : Nat) {blks : List Nat} {hashes newHashes : List (List H)}
    (hacc : Accounts p [] holds) (hreal : ∀ b ∈ p.realBlocks blks, p.Real b)
    (hrun : cacheLoop groupId blks hashes p = .ok (newHashes, p')) :
    Accounts p' [] holds ∧ p'.config = p.config := by
  induction blks generalizing hashes newHashes p with
  | nil =>
    cases hrun
    exact ⟨hacc, rfl⟩
  | cons blk blks ih =>
    unfold cacheLoop at hrun
    by_cases hnull : blk = p.nullBlock
    · rw [realBlocks_null hnull] at hreal
      rw [if_pos ((hacc.null blk).mpr hnull)] at hrun
      exact ih hacc hreal hrun
    · rw [realBlocks_cons hnull] at hreal
      have hblk := hreal blk (by simp)
      rw [if_neg (by rw [hacc.not_null hblk]; simp)] at hrun
      obtain ⟨_, hrequire, hrun⟩ := of_bind hrun
      cases hashes with
      | nil => cases hrun
      | cons blockHash hashes =>
        obtain ⟨⟨tailHashes, p''⟩, hloop, hrun⟩ := of_bind hrun
        cases hrun
        obtain ⟨hacc', hconfig⟩ :=
          ih (hacc.file hblk (require_eq_ok.mp hrequire) ⟨blockHash, groupId⟩)
            (fun b hb => hreal b (mem_cons_of_mem _ hb)) hloop
        exact ⟨hacc', hconfig⟩

theorem cacheFullBlocks_ok {request : Request H} {numCached numFull blockSize groupId : Nat}
    (hacc : Accounts p [] holds)
    (hreal : ∀ b ∈ p.realBlocks ((blocks.take numFull).drop numCached), p.Real b)
    (hrun : p.cacheFullBlocks request blocks numCached numFull blockSize groupId = .ok p') :
    Accounts p' [] holds ∧ p'.config = p.config := by
  unfold cacheFullBlocks at hrun
  split at hrun
  · cases hrun
    exact ⟨hacc, rfl⟩
  · obtain ⟨_, -, hrun⟩ := of_bind hrun
    obtain ⟨_, -, hrun⟩ := of_bind hrun
    obtain ⟨⟨newHashes, p₁⟩, hloop, hrun⟩ := of_bind hrun
    obtain ⟨hacc₁, hconfig⟩ := cacheLoop_ok groupId hacc hreal hloop
    dsimp only at hrun
    split at hrun
    · obtain ⟨parent, -, hrun⟩ := of_bind hrun
      cases hrun
      exact ⟨hacc₁.rehash rfl rfl (fun _ => ⟨rfl, rfl⟩) hacc₁.map hacc₁.hashed hacc₁.hashedReal,
        hconfig⟩
    · cases hrun
      exact ⟨hacc₁, hconfig⟩

end BlockPool

end LongCtxSpecDecode
