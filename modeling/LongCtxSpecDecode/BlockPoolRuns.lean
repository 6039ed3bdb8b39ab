import LongCtxSpecDecode.BlockPoolConservation

/-!
# Runs of the block pool

The pool is driven by holders: a holder is one request in one KV cache group. A run is a
sequence of calls in which a holder frees only blocks it holds, touches only cached blocks
and caches only blocks it holds.
-/

namespace LongCtxSpecDecode.BlockPoolRuns

open BlockPool

variable {H ρ : Type}

/-- The pool, and who holds which block. -/
structure State (H ρ : Type) where
  pool : BlockPool H
  holds : List (ρ × Nat)

inductive Call (H ρ : Type) where
  | getNewBlocks (h : ρ) (numBlocks : Nat)
  | touch (h : ρ) (blocks : List Nat)
  | cacheFullBlocks (h : ρ) (request : Request H) (blocks : List Nat)
      (numCachedBlocks numFullBlocks blockSize kvCacheGroupId : Nat)
  | freeBlocks (h : ρ) (orderedBlocks : List Nat)
  | evictBlocks (blockIds : List Nat)
  | resetPrefixCache

/-- The holds of `h` on the real blocks of a list. -/
def holdsOf (p : BlockPool H) (h : ρ) (blocks : List Nat) : List (ρ × Nat) :=
  (p.realBlocks blocks).map fun b => (h, b)

variable [DecidableEq H] [DecidableEq ρ]

/-- A holder frees and caches what it holds, and touches what is cached. -/
def Respects (s : State H ρ) : Call H ρ → Prop
  | .getNewBlocks _ _ => True
  | .touch h blocks =>
    (s.pool.realBlocks blocks).Nodup ∧
      ∀ b ∈ s.pool.realBlocks blocks,
        (s.pool.blocks b).blockHash ≠ none ∧ (h, b) ∉ s.holds
  | .cacheFullBlocks h request blocks numCached numFull blockSize _ =>
    numFull ≤ blocks.length ∧ numFull ≤ request.blockHashes.length ∧
      (blockSize = s.pool.hashBlockSize ∨ blockSize % s.pool.hashBlockSize = 0) ∧
      numFull ≤ (s.pool.hashesAt blockSize request.blockHashes).length ∧
      (holdsOf s.pool h ((blocks.take numFull).drop numCached)).Subperm s.holds ∧
      ∀ b ∈ s.pool.realBlocks ((blocks.take numFull).drop numCached),
        (s.pool.blocks b).blockHash = none
  | .freeBlocks h orderedBlocks => (holdsOf s.pool h orderedBlocks).Subperm s.holds
  | .evictBlocks blockIds => ∀ b ∈ blockIds, b < s.pool.numGpuBlocks
  | .resetPrefixCache => True

instance (s : State H ρ) (c : Call H ρ) : Decidable (Respects s c) :=
  match c with
  | .getNewBlocks _ _ => inferInstanceAs (Decidable True)
  | .touch _ _ => inferInstanceAs (Decidable (_ ∧ _))
  | .cacheFullBlocks _ _ _ _ _ _ _ => inferInstanceAs (Decidable (_ ∧ _ ∧ _ ∧ _ ∧ _ ∧ _))
  | .freeBlocks _ _ => inferInstanceAs (Decidable (List.Subperm _ _))
  | .evictBlocks _ => inferInstanceAs (Decidable (∀ b ∈ _, _))
  | .resetPrefixCache => inferInstanceAs (Decidable True)

def call (s : State H ρ) : Call H ρ → Except Exn (State H ρ)
  | .getNewBlocks h numBlocks => do
      let (ret, pool) ← s.pool.getNewBlocks numBlocks
      .ok ⟨pool, (ret.map fun b => (h, b)) ++ s.holds⟩
  | .touch h blocks => do
      let pool ← s.pool.touch blocks
      .ok ⟨pool, holdsOf s.pool h blocks ++ s.holds⟩
  | .cacheFullBlocks _ request blocks numCached numFull blockSize groupId => do
      let pool ← s.pool.cacheFullBlocks request blocks numCached numFull blockSize groupId
      .ok ⟨pool, s.holds⟩
  | .freeBlocks h orderedBlocks => do
      let pool ← s.pool.freeBlocks orderedBlocks
      .ok ⟨pool, s.holds.diff (holdsOf s.pool h orderedBlocks)⟩
  | .evictBlocks blockIds => do
      let pool ← s.pool.evictBlocks blockIds
      .ok ⟨pool, s.holds⟩
  | .resetPrefixCache => .ok ⟨s.pool.resetPrefixCache.2, s.holds⟩

/-- A call that raises has changed nothing (`call_spec` says which calls can raise). -/
def step (s : State H ρ) (c : Call H ρ) : State H ρ :=
  match call s c with
  | .ok s' => s'
  | .error _ => s

def RespectsAll : State H ρ → List (Call H ρ) → Prop
  | _, [] => True
  | s, c :: cs => Respects s c ∧ RespectsAll (step s c) cs

instance decidableRespectsAll : (s : State H ρ) → (cs : List (Call H ρ)) →
    Decidable (RespectsAll s cs)
  | _, [] => inferInstanceAs (Decidable True)
  | s, c :: cs =>
    have := decidableRespectsAll (step s c) cs
    inferInstanceAs (Decidable (_ ∧ _))

variable {s : State H ρ}

/-- A call that respects the protocol returns, unless it asks for more blocks than there
are; then it raises before it changes anything. -/
theorem call_spec (hacc : Accounts s.pool [] s.holds) (c : Call H ρ) (hc : Respects s c) :
    (∃ s', call s c = .ok s' ∧ Accounts s'.pool [] s'.holds) ∨
      ∃ h n, c = .getNewBlocks h n ∧ s.pool.getNumFreeBlocks < n ∧
        call s c = .error (.valueError s!"Cannot get {(n : Int)} free blocks from the pool") := by
  cases c with
  | getNewBlocks h n =>
    by_cases hn : (n : Int) ≤ s.pool.getNumFreeBlocks
    · obtain ⟨ret, p', hget, -, -, hacc', -⟩ := getNewBlocks_spec hacc hn h
      exact Or.inl ⟨⟨p', (ret.map fun b => (h, b)) ++ s.holds⟩, by simp [call, hget], hacc'⟩
    · refine Or.inr ⟨h, n, rfl, by omega, ?_⟩
      have hlt : (n : Int) > s.pool.getNumFreeBlocks := by omega
      simp only [call, getNewBlocks, hlt, if_true, error_bind]
  | touch h blocks =>
    obtain ⟨hnodup, hblocks⟩ := hc
    have hreal : ∀ b ∈ s.pool.realBlocks blocks, s.pool.Real b ∧ (h, b) ∉ s.holds := by
      intro b hb
      obtain ⟨hhash, hnew⟩ := hblocks b hb
      obtain ⟨key, hkey⟩ := Option.ne_none_iff_exists'.mp hhash
      exact ⟨hacc.hashedReal b key hkey, hnew⟩
    obtain ⟨p', htouch, hacc', -, -⟩ := touch_spec hacc hnodup hreal
    exact Or.inl ⟨⟨p', holdsOf s.pool h blocks ++ s.holds⟩, by simp [call, htouch], hacc'⟩
  | cacheFullBlocks h request blocks numCached numFull blockSize groupId =>
    obtain ⟨-, hhashes, hsize, hlen, hheld, hnone⟩ := hc
    have hnodup : (holdsOf s.pool h ((blocks.take numFull).drop numCached)).Nodup := by
      obtain ⟨l, hperm, hsub⟩ := hheld
      exact hperm.nodup_iff.mp (hsub.nodup hacc.nodup)
    have hblks : ∀ b ∈ s.pool.realBlocks ((blocks.take numFull).drop numCached),
        s.pool.Real b ∧ (s.pool.blocks b).blockHash = none := by
      intro b hb
      refine ⟨hacc.held (h, b) (hheld.subset ?_), hnone b hb⟩
      exact List.mem_map.mpr ⟨b, hb, rfl⟩
    obtain ⟨p', hcache⟩ := cacheFullBlocks_returns numCached groupId hacc hhashes hsize hlen
      (List.Nodup.of_map _ hnodup) hblks
    exact Or.inl ⟨⟨p', s.holds⟩, by simp [call, hcache],
      (cacheFullBlocks_ok hacc (fun b hb => (hblks b hb).1) hcache).1⟩
  | freeBlocks h orderedBlocks =>
    have hcount := List.subperm_ext_iff.mp hc
    have hperm := (List.subperm_append_diff_self_of_count_le hcount).symm
    obtain ⟨p', hfree, hacc', -⟩ := freeBlocks_spec hacc hperm
    exact Or.inl ⟨⟨p', s.holds.diff (holdsOf s.pool h orderedBlocks)⟩, by simp [call, hfree],
      hacc'⟩
  | evictBlocks blockIds =>
    obtain ⟨p', hevict, hacc', -⟩ := evictBlocks_spec hacc hc
    exact Or.inl ⟨⟨p', s.holds⟩, by simp [call, hevict], hacc'⟩
  | resetPrefixCache =>
    exact Or.inl ⟨_, rfl, (resetPrefixCache_spec hacc).1⟩

theorem step_accounts (hacc : Accounts s.pool [] s.holds) {c : Call H ρ} (hc : Respects s c) :
    Accounts (step s c).pool [] (step s c).holds := by
  rcases call_spec hacc c hc with ⟨s', hcall, hacc'⟩ | ⟨h, n, -, -, hcall⟩
  · simpa [step, hcall] using hacc'
  · simpa [step, hcall] using hacc

theorem run_accounts {cs : List (Call H ρ)} (hacc : Accounts s.pool [] s.holds)
    (hcs : RespectsAll s cs) : Accounts (cs.foldl step s).pool [] (cs.foldl step s).holds := by
  induction cs generalizing s with
  | nil =>
    exact hacc
  | cons c cs ih =>
    exact ih (step_accounts hacc hcs.1) hcs.2

/-- The blocks are conserved: every block other than the null block is in the free queue
once if nobody holds it and not at all otherwise, its reference count is the number of
holds on it, the null block is neither queued nor held, and the hash map files exactly the
blocks that carry a hash, under that hash. -/
structure Conserved (s : State H ρ) : Prop where
  queue : ∃ l, s.pool.freeBlockQueue.getAllFreeBlocks = .ok l ∧
    (∀ b ∈ l, s.pool.Real b) ∧
    ∀ b, s.pool.Real b → l.count b = if (s.pool.blocks b).refCnt = 0 then 1 else 0
  refs : ∀ b, s.pool.Real b → (s.pool.blocks b).refCnt = ((s.holds.map Prod.snd).count b : Int)
  held : ∀ x ∈ s.holds, s.pool.Real x.2
  hashed : ∀ b key, (s.pool.blocks b).blockHash = some key ↔
    b ∈ s.pool.cachedBlockHashToBlock.filed key

omit [DecidableEq H] [DecidableEq ρ] in
theorem conserved_of_accounts (hacc : Accounts s.pool [] s.holds) : Conserved s where
  queue := by
    obtain ⟨l, hl, hmem⟩ := hacc.queue
    refine ⟨l, FreeKVCacheBlockQueue.getAllFreeBlocks_spec hl, fun b hb => ((hmem b).mp hb).1, ?_⟩
    intro b hb
    rw [hl.links.nodup.count]
    simp [hmem b, hb]
  refs := fun b hb => hacc.refs b hb.2
  held := hacc.held
  hashed := hacc.hashed

/-- From the initial pool, every sequence of calls that respects the protocol conserves
the blocks, and in every state reached the only call that can raise is a request for more
blocks than are free. -/
theorem blocks_conserved (numGpuBlocks : Nat) (enableCaching : Bool) (hashBlockSize : Nat)
    (enableKvCacheEvents : Bool) (p : BlockPool H)
    (hinit : init numGpuBlocks enableCaching hashBlockSize enableKvCacheEvents = .ok p)
    (cs : List (Call H ρ)) (hcs : RespectsAll ⟨p, []⟩ cs) :
    Conserved (cs.foldl step ⟨p, []⟩) ∧
      ∀ c : Call H ρ, Respects (cs.foldl step ⟨p, []⟩) c →
        (∃ s', call (cs.foldl step ⟨p, []⟩) c = .ok s') ∨
          ∃ h n, c = .getNewBlocks h n ∧
            (cs.foldl step ⟨p, []⟩).pool.getNumFreeBlocks < n := by
  have hnum : 0 < numGpuBlocks := by
    obtain ⟨_, hrequire, -⟩ := of_bind hinit
    exact require_eq_ok.mp hrequire
  obtain ⟨p', hinit', hacc⟩ :=
    init_accounts hnum enableCaching hashBlockSize enableKvCacheEvents
  obtain rfl : p' = p := Except.ok.inj (hinit'.symm.trans hinit)
  have hrun := run_accounts hacc hcs
  refine ⟨conserved_of_accounts hrun, fun c hc => ?_⟩
  rcases call_spec hrun c hc with ⟨s', hcall, -⟩ | ⟨h, n, hcn, hfree, -⟩
  · exact Or.inl ⟨s', hcall⟩
  · exact Or.inr ⟨h, n, hcn, hfree⟩

/-- Two holders share a cached block: the first allocates, caches and frees two blocks, the
second touches one of them while the other is evicted and handed out again. -/
def sharedRun : List (Call Nat Nat) :=
  [.getNewBlocks 0 2,
    .cacheFullBlocks 0
      { requestId := 0, samplingParams := { maxTokens := 1 }, maxTokens := 1,
        promptTokenIds := some [5, 6, 7, 8], allTokenIds := [5, 6, 7, 8], numPromptTokens := 4,
        blockHashes := [10, 11] } [1, 2] 0 2 2 0,
    .freeBlocks 0 [2, 1], .touch 1 [0, 1], .evictBlocks [2], .getNewBlocks 2 1,
    .freeBlocks 1 [1, 0], .freeBlocks 2 [2], .resetPrefixCache]

theorem blocks_conserved_sharedRun :
    ∃ p : BlockPool Nat, init 3 true 2 true = .ok p ∧ RespectsAll ⟨p, []⟩ sharedRun ∧
      Conserved (sharedRun.foldl step ⟨p, []⟩) := by
  have hcs : ∀ p : BlockPool Nat, init 3 true 2 true = .ok p → RespectsAll ⟨p, []⟩ sharedRun := by
    rintro p ⟨⟩
    decide +kernel
  obtain ⟨p, hinit, -⟩ := init_accounts (ρ := Nat) (by decide : 0 < 3) true 2 true
  exact ⟨p, hinit, hcs p hinit, (blocks_conserved 3 true 2 true p hinit sharedRun (hcs p hinit)).1⟩

end LongCtxSpecDecode.BlockPoolRuns
