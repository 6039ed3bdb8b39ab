import LongCtxSpecDecode.BlockPoolRuns
import LongCtxSpecDecode.CacheLookup

/-!
# Cache hits of chunked local attention

What `ChunkedLocalAttentionManager.find_longest_cache_hit` returns: null blocks before the chunk of
the next token, then the longest run of cached blocks.
-/

namespace LongCtxSpecDecode

open List

variable {H ρ : Type} (p : BlockPool H) (groupIds : List Nat) (blockHashes : List (List H))

/-- The block `i` of the prompt is cached in every group, and `entry` are the blocks. -/
def CachedAt (i : Nat) (entry : List Nat) : Prop :=
  ∃ blockHash, blockHashes[i]? = some blockHash ∧ p.getCachedBlock blockHash groupIds = some entry

theorem BlockHashToBlockMap.getOneBlock_mem {map : BlockHashToBlockMap H}
    {key : BlockHashWithGroupId H} {b : Nat} (h : map.getOneBlock key = some b) :
    b ∈ map.filed key := by
  unfold getOneBlock at h
  unfold filed
  split at h
  · cases h
  · rename_i hcache
    cases h
    rw [hcache]
    exact mem_singleton_self b
  · rename_i hcache
    rw [hcache]
    exact mem_of_head? h

variable {p groupIds blockHashes} in
theorem CachedAt.nullBlock_notMem {pending : List Nat} {holds : List (ρ × Nat)} {i : Nat}
    {entry : List Nat} (h : CachedAt p groupIds blockHashes i entry)
    (hacc : p.Accounts pending holds) : p.nullBlock ∉ entry := by
  obtain ⟨blockHash, -, h⟩ := h
  unfold BlockPool.getCachedBlock at h
  induction groupIds generalizing entry with
  | nil =>
    cases h
    exact not_mem_nil
  | cons groupId groupIds ih =>
    rw [mapM_cons] at h
    obtain ⟨b, hb, h⟩ := Option.bind_eq_some_iff.mp h
    obtain ⟨bs, hbs, h⟩ := Option.bind_eq_some_iff.mp h
    cases h
    have hhash := (hacc.hashed b _).mpr (BlockHashToBlockMap.getOneBlock_mem hb)
    rw [mem_cons, not_or]
    exact ⟨(hacc.hashedReal b _ hhash).2.symm, ih hbs⟩

theorem chunkScan_spec (n i : Nat) (h : i + n ≤ blockHashes.length) :
    ∃ cached, chunkScan p groupIds blockHashes n i = .ok cached ∧ cached.length ≤ n ∧
      (∀ j entry, cached[j]? = some entry → CachedAt p groupIds blockHashes (i + j) entry) ∧
      (cached.length < n →
        ∀ entry, ¬CachedAt p groupIds blockHashes (i + cached.length) entry) := by
  induction n generalizing i with
  | zero => exact ⟨[], rfl, le_rfl, fun j entry h => (by cases h), fun h => absurd h (lt_irrefl 0)⟩
  | succ n ih =>
    have hhash : blockHashes[i]? = some blockHashes[i] := getElem?_eq_getElem (by omega)
    unfold chunkScan
    simp only [hhash]
    cases hblock : p.getCachedBlock blockHashes[i] groupIds with
    | none =>
      refine ⟨[], rfl, Nat.zero_le _, fun j entry h => (by cases h), ?_⟩
      rintro - entry ⟨blockHash, hblockHash, hentry⟩
      cases hhash.symm.trans hblockHash
      cases hblock.symm.trans hentry
    | some entry =>
      obtain ⟨cached, hrun, hle, hcached, hlongest⟩ := ih (i + 1) (by omega)
      refine ⟨entry :: cached, ?_, Nat.succ_le_succ hle, fun j other hj => ?_, fun hlt => ?_⟩
      · simp only [hrun]
        rfl
      · cases j with
        | zero =>
          cases hj
          exact ⟨_, hhash, hblock⟩
        | succ j =>
          rw [← Nat.add_assoc, Nat.add_right_comm]
          exact hcached j other hj
      · rw [length_cons, ← Nat.add_assoc, Nat.add_right_comm]
        exact hlongest (Nat.lt_of_succ_lt_succ hlt)

/-- What a hit is: `start` blocks are before the chunk of the next token, which is at `maxLength`,
and `cached` are the blocks after them. -/
structure ChunkedHit (m : SingleTypeKVCacheManager) (chunk maxLength start : Nat)
    (cached : List (List Nat)) : Prop where
  before : ∀ i, i < start ↔ (i + 1) * m.blockSize ≤ maxLength / chunk * chunk
  inside : (start + cached.length) * m.blockSize ≤ maxLength
  entries : ∀ j entry, cached[j]? = some entry →
    CachedAt p groupIds blockHashes (start + j) entry ∧ p.nullBlock ∉ entry
  longest : (start + cached.length + 1) * m.blockSize ≤ maxLength →
    ∀ entry, ¬CachedAt p groupIds blockHashes (start + cached.length) entry
  /-- If the hit ends in the chunk, the null blocks are those that the manager would remove. -/
  skipped : (start + cached.length) * m.blockSize / chunk = maxLength / chunk →
    m.getNumSkippedTokens ((start + cached.length) * m.blockSize : Nat) / m.blockSize = start

theorem chunked_local_hit (m : SingleTypeKVCacheManager) (chunk maxLength : Nat)
    (hspec : m.kvCacheSpec.layerType = .chunkedLocalAttention chunk) {pending : List Nat}
    {holds : List (ρ × Nat)} (hacc : p.Accounts pending holds)
    (hhashes : maxLength / m.blockSize ≤ blockHashes.length) :
    ∃ start cached, m.kvCacheSpec.findLongestCacheHit p blockHashes maxLength groupIds false
        m.blockSize = .ok (replicate start (groupIds.map fun _ => p.nullBlock) ++ cached) ∧
      ChunkedHit p groupIds blockHashes m chunk maxLength start cached := by
  have hpos : 0 < m.blockSize := m.kvCacheSpec.blockSize_pos
  have hstart : maxLength / chunk * chunk / m.blockSize ≤ maxLength / m.blockSize :=
    Nat.div_le_div_right (Nat.div_mul_le_self ..)
  obtain ⟨cached, hrun, hle, hcached, hlongest⟩ :=
    chunkScan_spec p groupIds blockHashes
      (maxLength / m.blockSize - maxLength / chunk * chunk / m.blockSize)
      (maxLength / chunk * chunk / m.blockSize) (by omega)
  refine ⟨_, cached, ?_, fun i => Nat.le_div_iff_mul_le hpos, ?_, fun j entry hj => ?_,
    fun hnext => ?_, fun hsame => ?_⟩
  · have hidx : (if (maxLength : Int) > 0 then (maxLength : Int) / chunk * chunk else 0) =
        (maxLength / chunk * chunk : Nat) := by
      split_ifs with hlen
      · rfl
      · obtain rfl : maxLength = 0 := by omega
        simp
    unfold KVCacheSpec.findLongestCacheHit
    rw [hspec]
    simp only [chunkedLocalAttentionHit, hidx]
    exact bind_eq_ok.mpr ⟨(), require_of_true trivial _, bind_eq_ok.mpr
      ⟨(), require_of_true rfl _, bind_eq_ok.mpr ⟨cached, hrun, rfl⟩⟩⟩
  · exact (Nat.le_div_iff_mul_le hpos).mp (by omega)
  · exact ⟨hcached j entry hj, (hcached j entry hj).nullBlock_notMem hacc⟩
  · have := (Nat.le_div_iff_mul_le hpos).mpr hnext
    exact hlongest (by omega)
  · unfold SingleTypeKVCacheManager.getNumSkippedTokens
    rw [hspec]
    dsimp only
    rw [← Int.natCast_ediv, hsame]
    rfl

/-- Chunks of two blocks of four tokens. -/
def twoBlockChunks : SingleTypeKVCacheManager where
  kvCacheSpec := ⟨4, .chunkedLocalAttention 8, by decide, by decide⟩

open BlockPoolRuns in
/-- A request of twelve tokens caches its three blocks. -/
def cachedRun : List (Call Nat Nat) :=
  [.getNewBlocks 0 3,
    .cacheFullBlocks 0
      { requestId := 0, samplingParams := { maxTokens := 1 }, maxTokens := 1,
        promptTokenIds := some (range 12), allTokenIds := range 12, numPromptTokens := 12,
        blockHashes := [1, 2, 3] } [1, 2, 3] 0 3 4 0]

open BlockPoolRuns in
/-- Of a prompt of thirteen tokens the blocks of the first chunk are null, and the next one is
cached. -/
theorem chunked_local_hit_cached : ∃ p pool : BlockPool Nat,
    BlockPool.init 4 true 4 false = .ok p ∧ (cachedRun.foldl step ⟨p, []⟩).pool = pool ∧
    twoBlockChunks.kvCacheSpec.findLongestCacheHit pool [[1], [2], [3]] 13 [0] false 4 =
      .ok [[0], [0], [3]] ∧
    ∃ start cached, [[0], [0], [3]] = replicate start [pool.nullBlock] ++ cached ∧
      ChunkedHit pool [0] [[1], [2], [3]] twoBlockChunks 8 13 start cached := by
  obtain ⟨p, hinit, hacc⟩ := BlockPool.init_accounts (ρ := Nat) (by decide : 0 < 4) true 4 false
  have hrun : RespectsAll ⟨p, []⟩ cachedRun ∧ twoBlockChunks.kvCacheSpec.findLongestCacheHit
      (cachedRun.foldl step ⟨p, []⟩).pool [[1], [2], [3]] 13 [0] false 4 =
        .ok [[0], [0], [3]] := by
    cases hinit
    decide +kernel
  obtain ⟨start, cached, hhit, hchunked⟩ := chunked_local_hit (cachedRun.foldl step ⟨p, []⟩).pool
    [0] [[1], [2], [3]] twoBlockChunks 8 13 rfl (run_accounts hacc hrun.1) (by decide)
  exact ⟨p, _, hinit, rfl, hrun.2, start, cached, Except.ok.inj (hrun.2.symm.trans hhit), hchunked⟩

end LongCtxSpecDecode
