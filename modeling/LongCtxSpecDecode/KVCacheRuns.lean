import LongCtxSpecDecode.KVCacheAdmission

/-!
# Runs of the KV cache manager

The states the KV cache manager can reach by allocating, freeing, caching and evicting as
its callers do, and what `allocate_slots` does in all of them.
-/

namespace LongCtxSpecDecode.KVCacheManager

open BlockPool SingleTypeKVCacheManager Function

variable {H : Type}

section admission

variable {kv kv₁ : KVCacheManager H} {a : AllocateArgs H} {r : ReqId} {n : Int}

section

variable (h : OnlySkippedFreed r n kv kv₁)
include h

theorem OnlySkippedFreed.groups : kv₁.numKvCacheGroups = kv.numKvCacheGroups :=
  groups_of_sizes h.sizes

theorem OnlySkippedFreed.maxLen : kv₁.maxModelLen = kv.maxModelLen :=
  maxLen_of_sizes h.sizes

theorem CountsOk.of_skipped (hcounts : kv.CountsOk a) : kv₁.CountsOk a :=
  { hcounts with
    bound := by
      rw [h.maxLen]
      exact hcounts.bound
    align := by
      intro g hg spec hspec
      rw [h.groups] at hg
      rw [alignBlocks_of_spec (h.same g).spec] at hspec
      exact hcounts.align g hg spec hspec }

end

theorem alignFits_of_skipped (h : OnlySkippedFreed a.request.requestId n kv kv₁) :
    kv₁.AlignFits a ↔ kv.AlignFits a := by
  unfold AlignFits
  rw [h.groups, h.maxLen]
  refine forall_congr' fun g => forall_congr' fun _ => forall_congr' fun spec => ?_
  rw [alignBlocks_of_spec (h.same g).spec, (h.emptied g).length,
    blockSize_of_spec (h.same g).spec]

variable [DecidableEq H]

theorem prepareSlots_spec (hinv : kv.Invariant) (hcall : kv.CallOk a) :
    ∃ e kv₁, kv.prepareSlots a = .ok (e, kv₁) ∧ kv₁.Invariant ∧
      OnlySkippedFreed a.request.requestId (a.totalComputedTokens kv.maxModelLen) kv kv₁ ∧
      (e ≤ kv₁.blockPool.getNumFreeBlocks → kv.AlignFits a →
        ∃ news kv₂, kv₁.takeSlots a = .ok (news, kv₂) ∧ kv₂.Invariant ∧ kv₂.Covers a) := by
  obtain ⟨kv₁, hremove, hinv₁, hskip⟩ := removeSkippedBlocks_spec hinv a.request.requestId
    (a.totalComputedTokens kv.maxModelLen)
  have hcounts₁ := hcall.toCountsOk.of_skipped hskip
  have htokens : ¬ (a.numNewTokens = 0 ∧ a.numExternalComputedTokens = 0) := by
    have := hcall.tokens
    omega
  have hest : kv₁.Admits a := by
    rcases hcall.call with hnew | hold
    · by_cases hsome : ¬ kv₁.NoBlocks a.newComputedBlocks ∨ a.numExternalComputedTokens > 0
      · have hlocal : a.numNewComputedTokens ≤
            a.numLocalComputedTokens + a.numExternalComputedTokens := by
          have := hcall.external
          have := hnew.computed
          unfold AllocateArgs.numLocalComputedTokens
          omega
        exact takeSlots_new hinv₁ hcounts₁ hsome fun g hg =>
          canTouch_of_newCall hskip hinv.owned rfl hnew hlocal (hskip.groups ▸ hg)
      · -- without hits it is as good as a request that has its blocks
        rw [not_or, not_not] at hsome
        refine takeSlots_old hinv₁ hcounts₁ hsome.1 (by have := hcall.external; omega)
          fun g hg => ?_
        have hlen := hnew.length g (hskip.groups ▸ hg)
        rw [hsome.1 g hg, List.length_nil] at hlen
        have := hnew.computed
        have hzero : a.numLocalComputedTokens = 0 := by
          unfold AllocateArgs.numLocalComputedTokens
          omega
        rw [hzero]
        exact Int.mul_nonneg (by omega) (by omega)
    · refine takeSlots_old hinv₁ hcounts₁ ?_ hold.noExternal fun g hg => ?_
      · intro g hg
        exact hold.noHits g (hskip.groups ▸ hg)
      · have hcomputed := hold.computed g (hskip.groups ▸ hg)
        rw [(hskip.emptied g).length, blockSize_of_spec (hskip.same g).spec]
        unfold AllocateArgs.numLocalComputedTokens
        rw [hold.noNewComputed, Int.add_zero]
        exact hcomputed
  obtain ⟨e, hok, htake⟩ := hest
  refine ⟨e, kv₁, ?_, hinv₁, hskip, fun hfree hfits =>
    htake hfree ((alignFits_of_skipped hskip).mpr hfits)⟩
  unfold prepareSlots
  rw [if_neg htokens, hremove]
  simp only [ok_bind, hok]

theorem alignFits_of_takeSlots (hcall : kv.CallOk a)
    (hskip : OnlySkippedFreed a.request.requestId n kv kv₁) {news : KVCacheBlocks}
    {kv₂ : KVCacheManager H} (htake : kv₁.takeSlots a = .ok (news, kv₂)) : kv.AlignFits a := by
  intro g hg spec hspec
  rcases hcall.call with hnew | hold
  · rw [(hnew.fresh g hg).1, List.length_nil]
    have hpos := hcall.toCountsOk.total_lt_main (hcall.align g hg spec hspec).1
    have htotal := hcall.toCountsOk.total_nonneg
    have := (lt_cdiv_iff (kv.singleTypeManagers g).kvCacheSpec.blockSize_pos
      (a.numTokensMainModel kv.maxModelLen) 0).mpr (by omega)
    unfold blockSize
    omega
  · refine (alignFits_of_skipped hskip).mp ?_ g hg spec hspec
    unfold takeSlots at htake
    rw [if_neg] at htake
    · exact fits_of_allocateNewBlocks htake
    · rintro (h | h)
      · exact h fun g hg => hold.noHits g (hskip.groups ▸ hg)
      · have := hold.noExternal
        omega

end admission

section other

variable {kv kv' : KVCacheManager H} {r : ReqId} {p : BlockPool H}

theorem Invariant.withPool (hinv : kv.Invariant)
    (hpool : ∀ holds : List (Holder × Nat), Accounts kv.blockPool [] holds → Accounts p [] holds ∧
      p.config = kv.blockPool.config) : Invariant { kv with blockPool := p } := by
  obtain ⟨holds, howned⟩ := hinv.owned
  obtain ⟨hacc, hconfig⟩ := hpool holds howned.accounts
  exact ⟨⟨holds, hacc, fun r g hg => (howned.lists r g hg).of_config hconfig, howned.groups⟩,
    hinv.align⟩

theorem Invariant.withGroup (hinv : kv.Invariant) {g : Nat} (hg : g < kv.numKvCacheGroups)
    {m : SingleTypeKVCacheManager}
    (hmoves : ∀ holds, kv.Owned holds → ∃ holds', Moves (r, g) kv.blockPool p holds holds'
      (m.blocksOf r)) (hothers : ∀ r' ≠ r, m.blocksOf r' = (kv.singleTypeManagers g).blocksOf r')
    (hspec : m.kvCacheSpec = (kv.singleTypeManagers g).kvCacheSpec)
    (hstate : ∀ spec r', AlignState (kv.singleTypeManagers g) spec r' → AlignState m spec r') :
    (kv.withGroup g m p).Invariant := by
  obtain ⟨holds, howned⟩ := hinv.owned
  obtain ⟨holds', hmoves'⟩ := hmoves holds howned
  refine ⟨⟨holds', howned.withGroup hg hmoves' hothers⟩, fun g' hg' spec hmode r' => ?_⟩
  by_cases hgg : g' = g
  · subst hgg
    rw [withGroup_self] at hmode ⊢
    refine hstate spec r' (hinv.align g' hg' spec ?_ r')
    unfold alignBlocks at hmode ⊢
    rwa [hspec] at hmode
  · rw [withGroup_ne _ hgg] at hmode ⊢
    exact hinv.align g' hg' spec hmode r'

theorem Invariant.forGroups (hinv : kv.Invariant)
    {f : Nat → SingleTypeKVCacheManager → BlockPool H →
      Except Exn (SingleTypeKVCacheManager × BlockPool H)}
    (hf : ∀ g (kv₁ : KVCacheManager H) m p, kv₁.Invariant → g < kv₁.numKvCacheGroups →
      f g (kv₁.singleTypeManagers g) kv₁.blockPool = .ok (m, p) → (kv₁.withGroup g m p).Invariant)
    (hrun : kv.forGroups f = .ok kv') : kv'.Invariant := by
  refine (ExceptLoop.foldlM_range_inv (fun _ kv₁ => Invariant kv₁ ∧
    kv₁.numKvCacheGroups = kv.numKvCacheGroups) ⟨hinv, rfl⟩ ?_ hrun).1
  rintro k hk kv₁ kv₂ ⟨hinv₁, hgroups⟩ hround
  obtain ⟨⟨m, p⟩, hm, hround⟩ := of_bind hround
  cases hround
  exact ⟨hf k kv₁ m p hinv₁ (hgroups ▸ hk) hm, hgroups⟩

theorem resetPrefixCache_invariant (hinv : kv.Invariant) : kv.resetPrefixCache.2.Invariant :=
  hinv.withPool fun _ => resetPrefixCache_spec

variable {holds : List (Holder × Nat)}

theorem free_moves {m m' : SingleTypeKVCacheManager} {p' : BlockPool H} {g : Nat}
    (hacc : Accounts p [] holds) (hlist : HoldsList p holds (r, g) (m.blocksOf r))
    (hfree : m.free p r = .ok (m', p')) :
    (∃ holds', Moves (r, g) p p' holds holds' (m'.blocksOf r)) ∧ m'.blocksOf r = [] ∧
      (∀ r' ≠ r, m'.blocksOf r' = m.blocksOf r') ∧ m'.kvCacheSpec = m.kvCacheSpec ∧
      m'.lastStateBlockIdx = update m.lastStateBlockIdx r none ∧
      m'.allocatedBlockReqs = update m.allocatedBlockReqs r false := by
  obtain ⟨p₁, hpool, hfree⟩ := of_bind hfree
  obtain ⟨p₂, holds', hpool', hmoves⟩ := freeBlocks_moves hacc hlist (m.blocksOf r).reverse [] (by
    simp [nonNull, (List.reverse_perm _).symm])
  cases hpool.symm.trans hpool'
  cases hfree
  unfold SingleTypeKVCacheManager.blocksOf
  refine ⟨⟨holds', ?_⟩, ?_, fun r' hr => ?_, rfl, rfl, rfl⟩
  · rw [AList.lookup_erase]
    exact hmoves
  · rw [AList.lookup_erase]
    rfl
  · rw [AList.lookup_erase_ne hr]

theorem free_invariant (hinv : kv.Invariant) (hrun : kv.free r = .ok kv') : kv'.Invariant := by
  refine hinv.forGroups ?_ hrun
  rintro g kv₁ m p hinv₁ hg hfree
  have hmoves := fun holds (howned : kv₁.Owned holds) =>
    free_moves howned.accounts (howned.lists r g hg) hfree
  obtain ⟨holds, howned⟩ := hinv₁.owned
  obtain ⟨-, hnone, hothers, hspec, hlast, halloc⟩ := hmoves holds howned
  refine hinv₁.withGroup hg (fun holds howned => (hmoves holds howned).1) hothers hspec
    fun spec r' hstate => ?_
  by_cases hr : r' = r
  · subst hr
    refine ⟨fun h => ?_, fun _ => hnone, fun i hi => ?_⟩
    · rw [halloc, update_self] at h
      cases h
    · rw [hlast, update_self] at hi
      cases hi
  · exact hstate.congr (hothers r' hr) (by rw [hlast, update_of_ne hr])
      (by rw [halloc, update_of_ne hr])

variable [DecidableEq H] {request : Request H}

theorem cacheBlocks_moves {m m' : SingleTypeKVCacheManager} {p' : BlockPool H} {g : Nat} {n : Int}
    (hacc : Accounts p [] holds)
    (hlist : HoldsList p holds (request.requestId, g) (m.blocksOf request.requestId))
    (hcache : m.cacheBlocks p g request n = .ok (m', p')) :
    Moves (request.requestId, g) p p' holds holds (m'.blocksOf request.requestId) ∧
      m'.blocksOf = m.blocksOf ∧ m'.kvCacheSpec = m.kvCacheSpec ∧
      m'.lastStateBlockIdx = m.lastStateBlockIdx ∧
      m'.allocatedBlockReqs = m.allocatedBlockReqs := by
  unfold SingleTypeKVCacheManager.cacheBlocks at hcache
  dsimp only at hcache
  split at hcache
  · cases hcache
    exact ⟨.refl hacc hlist, rfl, rfl, rfl, rfl⟩
  · obtain ⟨p', hpool, hcache⟩ := of_bind hcache
    cases hcache
    obtain ⟨hacc', hconfig⟩ := cacheFullBlocks_ok hacc (fun b hb => hacc.held _
      ((hlist.mem b).mpr (((List.drop_sublist _ _).trans (List.take_sublist _ _)).filter _
        |>.subset hb))) hpool
    have hblocks : (m.setBlocks request.requestId (m.blocksOf request.requestId)).blocksOf =
        m.blocksOf := by
      funext r'
      rw [blocksOf_setBlocks]
      split
      · rename_i hr
        rw [hr]
      · rfl
    refine ⟨⟨hacc', hconfig, fun _ _ => Iff.rfl, ?_⟩, hblocks, rfl, rfl, rfl⟩
    exact (congrFun hblocks _).symm ▸ hlist.of_config hconfig

theorem coordinatorCacheBlocks_invariant (hinv : kv.Invariant) {n : Int}
    (hrun : kv.coordinatorCacheBlocks request n = .ok kv') : kv'.Invariant := by
  refine hinv.forGroups ?_ hrun
  rintro g kv₁ m p hinv₁ hg hcache
  have hmoves := fun holds (howned : kv₁.Owned holds) =>
    cacheBlocks_moves howned.accounts (howned.lists request.requestId g hg) hcache
  obtain ⟨holds, howned⟩ := hinv₁.owned
  obtain ⟨-, hblocks, hspec, hlast, halloc⟩ := hmoves holds howned
  exact hinv₁.withGroup hg (fun holds howned => ⟨holds, (hmoves holds howned).1⟩)
    (fun r' _ => congrFun hblocks r') hspec fun spec r' hstate =>
      hstate.congr (congrFun hblocks r') (congrFun hlast r') (congrFun halloc r')

theorem evictBlocks_invariant (hinv : kv.Invariant) {ids : List Nat}
    (hids : ∀ b ∈ ids, b < kv.blockPool.numGpuBlocks) (hrun : kv.evictBlocks ids = .ok kv') :
    kv'.Invariant := by
  obtain ⟨p, hpool, hrun⟩ := of_bind hrun
  cases hrun
  refine hinv.withPool fun holds hacc => ?_
  obtain ⟨p', hok, hp'⟩ := evictBlocks_spec hacc hids
  cases hpool.symm.trans hok
  exact hp'

theorem publishSlots_invariant (hinv : kv.Invariant) {a : AllocateArgs H}
    (hrun : kv.publishSlots a = .ok kv') : kv'.Invariant := by
  unfold publishSlots at hrun
  split at hrun
  · cases hrun
    exact hinv
  · exact coordinatorCacheBlocks_invariant hinv hrun

theorem allocateSlots_invariant (hinv : kv.Invariant) {a : AllocateArgs H} (hcall : kv.CallOk a)
    {out : Option KVCacheBlocks} (hrun : kv.allocateSlots a = .ok (out, kv')) :
    kv'.Invariant := by
  obtain ⟨e, kv₁, hprepare, hinv₁, hskip, htake⟩ := prepareSlots_spec hinv hcall
  unfold allocateSlots at hrun
  simp only [hprepare, ok_bind] at hrun
  split at hrun
  · cases hrun
    exact hinv₁
  · grind [alignFits_of_takeSlots, publishSlots_invariant, bind_eq_ok]

end other

section runs

inductive Call (H : Type) where
  | allocateSlots (a : AllocateArgs H)
  | removeSkippedBlocks (requestId : ReqId) (totalComputedTokens : Int)
  | cacheBlocks (request : Request H) (numComputedTokens : Int)
  | free (requestId : ReqId)
  | evictBlocks (blockIds : List Nat)
  | resetPrefixCache

/-- What the scheduler guarantees of a call. -/
def Respects (kv : KVCacheManager H) : Call H → Prop
  | .allocateSlots a => kv.CallOk a
  | .evictBlocks blockIds => ∀ b ∈ blockIds, b < kv.blockPool.numGpuBlocks
  | .removeSkippedBlocks _ _ | .cacheBlocks _ _ | .free _ | .resetPrefixCache => True

theorem init_invariant {kvCacheGroups : List KVCacheSpec}
    {numBlocks maxModelLen hashBlockSize : Nat} {enableCaching useEagle events : Bool}
    {kv : KVCacheManager H}
    (h : init kvCacheGroups numBlocks maxModelLen hashBlockSize enableCaching useEagle events =
      .ok kv) : kv.Invariant := by
  obtain ⟨p, hpool, h⟩ := of_bind h
  cases h
  have hnum : 0 < numBlocks := by
    obtain ⟨_, hreq, -⟩ := of_bind hpool
    exact require_eq_ok.mp hreq
  obtain ⟨p', hpool', hacc⟩ := init_accounts hnum enableCaching
    hashBlockSize events
  cases hpool.symm.trans hpool'
  refine ⟨⟨[], hacc, fun r g _ => ⟨fun b => ?_, ?_⟩, ?_⟩, fun g _ spec _ r => ⟨?_, ?_, ?_⟩⟩
  · simp [blocksOf, SingleTypeKVCacheManager.blocksOf, nonNull]
  · simp [blocksOf, SingleTypeKVCacheManager.blocksOf, nonNull]
  · simp
  · simp
  · intro _
    rfl
  · simp

/-- The blocks in the lists of the requests. -/
def heldBlocks (kv : KVCacheManager H) : Set Nat :=
  {b | kv.blockPool.Real b ∧ ∃ r, ∃ g < kv.numKvCacheGroups, b ∈ kv.blocksOf r g}

theorem Owned.mem_heldBlocks {kv : KVCacheManager H} {holds : List (Holder × Nat)}
    (h : kv.Owned holds) (b : Nat) :
    b ∈ kv.heldBlocks ↔ kv.blockPool.Real b ∧ (kv.blockPool.blocks b).refCnt ≠ 0 := by
  refine and_congr_right fun hb => ?_
  have hcount : (kv.blockPool.blocks b).refCnt ≠ 0 ↔ b ∈ holds.map Prod.snd := by
    rw [h.accounts.refs b hb.2, ← List.count_pos_iff]
    omega
  rw [hcount, List.mem_map]
  constructor
  · rintro ⟨r, g, hg, hlist⟩
    exact ⟨((r, g), b), ((h.lists r g hg).mem b).mpr
      (List.mem_filter.mpr ⟨hlist, by simpa using hb.2⟩), rfl⟩
  · rintro ⟨⟨⟨r, g⟩, _⟩, hold, rfl⟩
    have hg := h.groups _ hold
    exact ⟨r, g, hg, (List.mem_filter.mp (((h.lists r g hg).mem _).mp hold)).1⟩

variable [DecidableEq H]

def perform (kv : KVCacheManager H) : Call H → Except Exn (KVCacheManager H)
  | .allocateSlots a => Prod.snd <$> kv.allocateSlots a
  | .removeSkippedBlocks requestId n => kv.removeSkippedBlocks requestId n
  | .cacheBlocks request n => kv.cacheBlocks request n
  | .free requestId => kv.free requestId
  | .evictBlocks blockIds => kv.evictBlocks blockIds
  | .resetPrefixCache => .ok kv.resetPrefixCache.2

/-- The states of the manager, over any sequence of calls. -/
inductive Reachable : KVCacheManager H → Prop where
  | init {kvCacheGroups : List KVCacheSpec} {numBlocks maxModelLen hashBlockSize : Nat}
      {enableCaching useEagle enableKvCacheEvents : Bool} {kv : KVCacheManager H}
      (h : init kvCacheGroups numBlocks maxModelLen hashBlockSize enableCaching useEagle
        enableKvCacheEvents = .ok kv) : Reachable kv
  | call {kv kv' : KVCacheManager H} {c : Call H} (hkv : Reachable kv) (hc : kv.Respects c)
      (h : kv.perform c = .ok kv') : Reachable kv'

theorem perform_invariant {kv kv' : KVCacheManager H} {c : Call H} (hinv : kv.Invariant)
    (hc : kv.Respects c) (h : kv.perform c = .ok kv') : kv'.Invariant := by
  cases c with
  | allocateSlots a =>
    obtain ⟨⟨out, kv₁⟩, hrun, h⟩ := of_bind h
    cases h
    exact allocateSlots_invariant hinv hc hrun
  | removeSkippedBlocks r n =>
    obtain ⟨kv₁, hrun, hinv₁, -⟩ := removeSkippedBlocks_spec hinv r n
    cases hrun.symm.trans h
    exact hinv₁
  | cacheBlocks request n =>
    simp only [perform, cacheBlocks] at h
    split at h
    · exact coordinatorCacheBlocks_invariant hinv h
    · cases h
      exact hinv
  | free r => exact free_invariant hinv h
  | evictBlocks ids => exact evictBlocks_invariant hinv hc h
  | resetPrefixCache =>
    cases h
    exact resetPrefixCache_invariant hinv

theorem Reachable.invariant {kv : KVCacheManager H} (h : Reachable kv) : kv.Invariant := by
  induction h with
  | init h => exact init_invariant h
  | call _ hc h ih => exact perform_invariant ih hc h

/-- In every reachable state, a call that finds too few free blocks returns nothing and has
freed no more than skipped blocks. A call that finds enough of them touches and allocates
blocks for all its tokens without raising, exactly when no list of a Mamba group in align
mode is longer than the step requires. -/
theorem allocateSlots_admission {kv : KVCacheManager H} (hkv : Reachable kv)
    {a : AllocateArgs H} (hcall : kv.CallOk a) :
    ∃ numBlocksToAllocate kv₁, kv.prepareSlots a = .ok (numBlocksToAllocate, kv₁) ∧
      OnlySkippedFreed a.request.requestId (a.totalComputedTokens kv.maxModelLen) kv kv₁ ∧
      (∃ holds, kv₁.Owned holds) ∧
      (numBlocksToAllocate > kv₁.blockPool.getNumFreeBlocks →
        kv.allocateSlots a = .ok (none, kv₁)) ∧
      (numBlocksToAllocate ≤ kv₁.blockPool.getNumFreeBlocks →
        ((∃ newBlocks kv₂, kv₁.takeSlots a = .ok (newBlocks, kv₂) ∧ kv₂.Covers a) ↔
          kv.AlignFits a)) := by
  obtain ⟨e, kv₁, hprepare, hinv₁, hskip, htake⟩ := prepareSlots_spec hkv.invariant hcall
  refine ⟨e, kv₁, hprepare, hskip, hinv₁.owned, fun hgt => ?_, fun hle => ⟨?_, fun hfits => ?_⟩⟩
  · unfold allocateSlots
    simp only [hprepare, ok_bind, hgt, if_true]
  · rintro ⟨news, kv₂, htake₂, -⟩
    exact alignFits_of_takeSlots hcall hskip htake₂
  · obtain ⟨news, kv₂, hok, -, hcovers⟩ := htake hle hfits
    exact ⟨news, kv₂, hok, hcovers⟩

/-- In every reachable state each block but the null block is free or in a list, and not both. -/
theorem free_add_held {kv : KVCacheManager H} (hkv : Reachable kv) :
    kv.blockPool.getNumFreeBlocks + (kv.heldBlocks.ncard : Int) =
      {b | kv.blockPool.Real b}.ncard := by
  obtain ⟨holds, howned⟩ := hkv.invariant.owned
  obtain ⟨l, hl, hmem⟩ := howned.accounts.queue
  have hheld := howned.mem_heldBlocks
  have hfree : kv.blockPool.getNumFreeBlocks = ({b | b ∈ l}.ncard : Int) := by
    rw [getNumFreeBlocks, hl.count, ← List.toFinset_card_of_nodup hl.links.nodup,
      ← Set.ncard_coe_finset, List.coe_toFinset]
  have hdisjoint : Disjoint {b | b ∈ l} kv.heldBlocks :=
    Set.disjoint_left.mpr fun b hb hin => ((hheld b).mp hin).2 ((hmem b).mp hb).2.1
  rw [hfree, ← Nat.cast_add, ← Set.ncard_union_eq hdisjoint l.finite_toSet
    ((Set.finite_lt_nat _).subset fun b hb => hb.1.1)]
  congr 2
  ext b
  by_cases hb : kv.blockPool.Real b
  · simp [hmem, hheld, hb, em]
  · simp [hmem, hheld, hb]

end runs

section drafting

def alignSpec : KVCacheSpec := ⟨4, .mamba .align 2, Nat.le_add_left 1 3, trivial⟩

def draftingStep (numTokens numComputedTokens numNewTokens : Nat) : AllocateArgs Nat :=
  { request :=
      { requestId := 0, samplingParams := { maxTokens := 8 }, maxTokens := 8
        promptTokenIds := some [1, 2], allTokenIds := List.replicate numTokens 1
        numPromptTokens := 2, numComputedTokens := numComputedTokens }
    numNewTokens := numNewTokens }

theorem draftingStep_callOk {kv : KVCacheManager Nat} (numTokens computed new : Nat)
    (hlen : kv.maxModelLen = 64) (hnew : 0 < new) (hbound : computed + new ≤ 64)
    (hblocks : ∀ g < kv.numKvCacheGroups,
      computed ≤ (kv.blocksOf 0 g).length * (kv.singleTypeManagers g).blockSize) :
    kv.CallOk (draftingStep numTokens computed new) where
  new := Int.natCast_nonneg new
  external := le_rfl
  tokens := Or.inl (Int.natCast_pos.mpr hnew)
  computed := Int.natCast_nonneg computed
  newComputed := le_rfl
  lookahead := le_rfl
  bound := by
    change (computed : Int) + 0 + 0 + new ≤ kv.maxModelLen
    omega
  align := fun _ _ spec _ => ⟨rfl, Int.natCast_nonneg spec⟩
  call := Or.inr
    { noHits := fun _ _ => rfl
      noNewComputed := rfl
      noExternal := rfl
      computed := fun g hg => Int.ofNat_le.mpr (hblocks g hg) }

theorem alignFits_of_second {kv : KVCacheManager Nat} {a : AllocateArgs Nat} {spec : Nat}
    (hgroups : kv.numKvCacheGroups = 2) (hfull : (kv.singleTypeManagers 0).alignBlocks = none)
    (halign : (kv.singleTypeManagers 1).alignBlocks = some spec)
    (hle : ((kv.blocksOf a.request.requestId 1).length : Int) ≤
      cdiv (a.numTokensMainModel kv.maxModelLen) (kv.singleTypeManagers 1).blockSize + spec) :
    kv.AlignFits a := by
  intro g hg spec' hspec
  obtain rfl | rfl : g = 0 ∨ g = 1 := by omega
  · cases hfull.symm.trans hspec
  · cases halign.symm.trans hspec
    exact hle

/-- A full attention group and a Mamba group: the prompt is computed, then a token with two
drafts. -/
theorem allocateSlots_admission_drafts : ∃ (kv : KVCacheManager Nat) (numBlocksToAllocate : Int)
    (kv₁ : KVCacheManager Nat), Reachable kv ∧ kv.blocksOf 0 0 ≠ [] ∧ kv.blocksOf 0 1 ≠ [] ∧
      kv.prepareSlots (draftingStep 3 2 3) = .ok (numBlocksToAllocate, kv₁) ∧
      numBlocksToAllocate ≤ kv₁.blockPool.getNumFreeBlocks ∧
      ∃ newBlocks kv₂, kv₁.takeSlots (draftingStep 3 2 3) = .ok (newBlocks, kv₂) ∧
        kv₂.Covers (draftingStep 3 2 3) := by
  have hinit : init (H := Nat) [⟨4, .fullAttention, Nat.le_add_left 1 3, trivial⟩, alignSpec] 16 64
    4 true false false = .ok _ := rfl
  have hprompt := (Reachable.init hinit).call (c := .allocateSlots (draftingStep 2 0 2))
    (draftingStep_callOk 2 0 2 rfl (by decide) (by decide) (by decide)) rfl
  obtain ⟨e, kv₁, hprepare, -, -, -, hiff⟩ := allocateSlots_admission hprompt
    (draftingStep_callOk 3 2 3 rfl (by decide) (by decide) (by decide))
  have hroom : e ≤ kv₁.blockPool.getNumFreeBlocks := by
    cases hprepare
    decide
  exact ⟨_, e, kv₁, hprompt, by decide, by decide, hprepare, hroom,
    (hiff hroom).mpr (alignFits_of_second rfl rfl rfl (by decide))⟩

/-- The prompt is computed, then a token with two drafts, which are rejected. Without drafts
the next step requires one block less than the request has. -/
theorem allocateSlots_align_raises :
    ∃ (kv : KVCacheManager Nat) (a : AllocateArgs Nat), Reachable kv ∧ kv.CallOk a ∧
      ∃ numBlocksToAllocate kv₁, kv.prepareSlots a = .ok (numBlocksToAllocate, kv₁) ∧
        numBlocksToAllocate ≤ kv₁.blockPool.getNumFreeBlocks ∧
        kv₁.takeSlots a =
          .error (.assertionError "num_required_blocks 3 < len(req_blocks) 4") := by
  have hinit : init (H := Nat) [alignSpec] 16 64 4 true false false = .ok _ := rfl
  have hprompt := (Reachable.init hinit).call (c := .allocateSlots (draftingStep 2 0 2))
    (draftingStep_callOk 2 0 2 rfl (by decide) (by decide) (by decide)) rfl
  have hdrafts := hprompt.call (c := .allocateSlots (draftingStep 3 2 3))
    (draftingStep_callOk 3 2 3 rfl (by decide) (by decide) (by decide)) rfl
  exact ⟨_, draftingStep 4 3 1, hdrafts,
    draftingStep_callOk 4 3 1 rfl (by decide) (by decide) (by decide),
    _, _, rfl, by decide, rfl⟩

theorem free_add_held_prompt : ∃ kv : KVCacheManager Nat, Reachable kv ∧ kv.blocksOf 0 0 ≠ [] ∧
    kv.blockPool.getNumFreeBlocks + (kv.heldBlocks.ncard : Int) =
      {b | kv.blockPool.Real b}.ncard := by
  have hinit : init (H := Nat) [alignSpec] 16 64 4 true false false = .ok _ := rfl
  have hprompt := (Reachable.init hinit).call (c := .allocateSlots (draftingStep 2 0 2))
    (draftingStep_callOk 2 0 2 rfl (by decide) (by decide) (by decide)) rfl
  exact ⟨_, hprompt, by decide, free_add_held hprompt⟩

end drafting

end LongCtxSpecDecode.KVCacheManager
