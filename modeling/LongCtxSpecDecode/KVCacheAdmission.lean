import LongCtxSpecDecode.GroupAllocation

/-!
# Admission implies allocation

In every state that can be reached, `allocate_slots` either finds too few free blocks and changes
nothing but the skipped blocks it frees, or the blocks it then touches and allocates are there. The
exception is a Mamba group in align mode whose list is longer than the new step needs.
-/

namespace LongCtxSpecDecode.KVCacheManager

open BlockPool SingleTypeKVCacheManager List Function

variable {H : Type}

/-- The lists of blocks are what is held of the pool. -/
structure Owned (kv : KVCacheManager H) (holds : List (Holder × Nat)) : Prop where
  accounts : Accounts kv.blockPool [] holds
  lists : ∀ r, ∀ g < kv.numKvCacheGroups,
    HoldsList kv.blockPool holds (r, g) (kv.blocksOf r g)
  groups : ∀ x ∈ holds, x.1.2 < kv.numKvCacheGroups

/-- What every call keeps. -/
structure Invariant (kv : KVCacheManager H) : Prop where
  owned : ∃ holds, kv.Owned holds
  align : ∀ g < kv.numKvCacheGroups, ∀ spec, (kv.singleTypeManagers g).alignBlocks = some spec →
    ∀ r, AlignState (kv.singleTypeManagers g) spec r

/-- The manager of group `g` and the pool are replaced. -/
def withGroup (kv : KVCacheManager H) (g : Nat) (m : SingleTypeKVCacheManager)
    (p : BlockPool H) : KVCacheManager H :=
  { kv with
    blockPool := p
    singleTypeManagers := update kv.singleTypeManagers g m }

theorem withGroup_self (kv : KVCacheManager H) (g : Nat) (m : SingleTypeKVCacheManager)
    (p : BlockPool H) : (kv.withGroup g m p).singleTypeManagers g = m :=
  update_self ..

variable {g : Nat} {kv : KVCacheManager H} {m : SingleTypeKVCacheManager} {p : BlockPool H}
  {r : ReqId}

theorem withGroup_ne (kv : KVCacheManager H) {g' : Nat} (hg : g' ≠ g)
    (m : SingleTypeKVCacheManager) (p : BlockPool H) :
    (kv.withGroup g m p).singleTypeManagers g' = kv.singleTypeManagers g' :=
  update_of_ne hg ..

theorem onGroup_of_ok
    {f : SingleTypeKVCacheManager → BlockPool H →
      Except Exn (SingleTypeKVCacheManager × BlockPool H)}
    (hf : f (kv.singleTypeManagers g) kv.blockPool = .ok (m, p)) :
    kv.onGroup g f = .ok (kv.withGroup g m p) := by
  unfold onGroup
  rw [hf]
  rfl

theorem Owned.withGroup {holds holds' : List (Holder × Nat)} (hkv : kv.Owned holds)
    (hg : g < kv.numKvCacheGroups)
    (hmoves : Moves (r, g) kv.blockPool p holds holds' (m.blocksOf r))
    (hothers : ∀ r' ≠ r, m.blocksOf r' = (kv.singleTypeManagers g).blocksOf r') :
    (kv.withGroup g m p).Owned holds' where
  accounts := hmoves.accounts
  lists := by
    intro r' g' hg'
    by_cases hsame : (r', g') = (r, g)
    · cases hsame
      unfold blocksOf
      rw [withGroup_self]
      exact hmoves.list
    · have hlist := hkv.lists r' g' hg'
      have hblocks : (kv.withGroup g m p).blocksOf r' g' = kv.blocksOf r' g' := by
        unfold blocksOf
        by_cases hgg : g' = g
        · subst hgg
          rw [withGroup_self]
          exact hothers r' fun hr => hsame (by rw [hr])
        · rw [withGroup_ne _ hgg]
      have hnull : (kv.withGroup g m p).blockPool.nullBlock = kv.blockPool.nullBlock :=
        nullBlock_of_config hmoves.config
      rw [hblocks]
      refine ⟨fun b => ?_, by rw [hnull]; exact hlist.nodup⟩
      rw [hnull, ← hlist.mem b]
      exact hmoves.others _ hsame
  groups := by
    intro x hx
    by_cases hxh : x.1 = (r, g)
    · rw [hxh]
      exact hg
    · exact hkv.groups x ((hmoves.others x hxh).mp hx)

def sizes (kv : KVCacheManager H) : Config × Nat × Nat :=
  (kv.blockPool.config, kv.numKvCacheGroups, kv.maxModelLen)

section sizes

variable {kv' : KVCacheManager H}

theorem config_of_sizes (h : kv'.sizes = kv.sizes) :
    kv'.blockPool.config = kv.blockPool.config :=
  congrArg (fun s => s.1) h

theorem groups_of_sizes (h : kv'.sizes = kv.sizes) :
    kv'.numKvCacheGroups = kv.numKvCacheGroups :=
  congrArg (fun s => s.2.1) h

theorem maxLen_of_sizes (h : kv'.sizes = kv.sizes) : kv'.maxModelLen = kv.maxModelLen :=
  congrArg (fun s => s.2.2) h

end sizes

/-- A loop over the groups stands before group `k`: the managers before it are related to the
former ones by `R`, the others are untouched. -/
structure GroupsDone (R : Nat → SingleTypeKVCacheManager → SingleTypeKVCacheManager → Prop)
    (kv : KVCacheManager H) (k : Nat) (kv' : KVCacheManager H) : Prop where
  sizes : kv'.sizes = kv.sizes
  done : ∀ g < k, R g (kv.singleTypeManagers g) (kv'.singleTypeManagers g)
  rest : ∀ g, k ≤ g → kv'.singleTypeManagers g = kv.singleTypeManagers g

namespace GroupsDone

variable {R : Nat → SingleTypeKVCacheManager → SingleTypeKVCacheManager → Prop} {k : Nat}
  {kv₁ : KVCacheManager H} {holds₁ holds' : List (Holder × Nat)}

theorem zero (R : Nat → SingleTypeKVCacheManager → SingleTypeKVCacheManager → Prop)
    (kv : KVCacheManager H) : GroupsDone R kv 0 kv :=
  ⟨rfl, by simp, fun _ _ => rfl⟩

theorem list (h : GroupsDone R kv k kv₁) (hk : k < kv.numKvCacheGroups)
    (howned₁ : kv₁.Owned holds₁) (r : ReqId) :
    HoldsList kv₁.blockPool holds₁ (r, k) ((kv.singleTypeManagers k).blocksOf r) := by
  rw [← h.rest k le_rfl]
  exact howned₁.lists r k ((groups_of_sizes h.sizes).symm ▸ hk)

theorem withGroup (h : GroupsDone R kv k kv₁) (hk : k < kv.numKvCacheGroups)
    (howned₁ : kv₁.Owned holds₁)
    (hmoves : Moves (r, k) kv₁.blockPool p holds₁ holds' (m.blocksOf r))
    (hothers : ∀ r' ≠ r, m.blocksOf r' = (kv.singleTypeManagers k).blocksOf r')
    (hm : R k (kv.singleTypeManagers k) m) :
    (kv₁.withGroup k m p).Owned holds' ∧ GroupsDone R kv (k + 1) (kv₁.withGroup k m p) := by
  refine ⟨howned₁.withGroup ((groups_of_sizes h.sizes).symm ▸ hk) hmoves
    (by rwa [h.rest k le_rfl]), ?_, ?_, ?_⟩
  · rw [← h.sizes]
    exact congrArg (fun c => (c, kv₁.numKvCacheGroups, kv₁.maxModelLen)) hmoves.config
  · intro g hg
    by_cases hgk : g = k
    · rw [hgk, withGroup_self]
      exact hm
    · rw [withGroup_ne _ hgk]
      exact h.done g (by omega)
  · intro g hg
    rw [withGroup_ne _ (by omega)]
    exact h.rest g (by omega)

end GroupsDone

/-- Only blocks that request `r` no longer needs at `n` computed tokens were freed. -/
structure OnlySkippedFreed (r : ReqId) (n : Int) (kv kv' : KVCacheManager H) : Prop where
  sizes : kv'.sizes = kv.sizes
  same : ∀ g, SameButList r (kv.singleTypeManagers g) (kv'.singleTypeManagers g)
  emptied : ∀ g, Emptied kv.blockPool.nullBlock ((kv.singleTypeManagers g).skippedBlocks n)
    (kv.blocksOf r g) (kv'.blocksOf r g)

theorem alignState_of_same {nullBlock : Nat} {k : Int} {m' : SingleTypeKVCacheManager}
    (hsame : SameButList r m m') (hempty : Emptied nullBlock k (m.blocksOf r) (m'.blocksOf r))
    {spec : Nat} {r' : ReqId} (h : AlignState m spec r') : AlignState m' spec r' := by
  have hlen : (m'.blocksOf r').length = (m.blocksOf r').length := by
    by_cases hr : r' = r
    · rw [hr]
      exact hempty.length
    · rw [hsame.blocks r' hr]
  refine ⟨?_, ?_, ?_⟩
  · rw [hsame.allocated, hlen]
    exact h.allocated
  · intro hfresh
    rw [hsame.allocated] at hfresh
    apply eq_nil_of_length_eq_zero
    rw [hlen, h.fresh hfresh]
    rfl
  · rw [hsame.lastState, hlen]
    exact h.lastState

theorem removeSkippedBlocks_spec (hinv : kv.Invariant) (r : ReqId) (n : Int) :
    ∃ kv', kv.removeSkippedBlocks r n = .ok kv' ∧ kv'.Invariant ∧ OnlySkippedFreed r n kv kv' := by
  let R (_ : Nat) (m m' : SingleTypeKVCacheManager) := SameButList r m m' ∧
    Emptied kv.blockPool.nullBlock (m.skippedBlocks n) (m.blocksOf r) (m'.blocksOf r)
  obtain ⟨kv', hrun, howned', hdone⟩ :=
    ExceptLoop.foldlM_range_returns
      (f := fun kv₁ k => kv₁.onGroup k fun m p => m.removeSkippedBlocks p r n)
      (fun k kv₁ => (∃ holds₁, kv₁.Owned holds₁) ∧ GroupsDone R kv k kv₁)
      ⟨hinv.owned, .zero R kv⟩ (by
        rintro k hk kv₁ ⟨⟨holds₁, howned₁⟩, hdone⟩
        obtain ⟨m', p', holds', hround, hmoves, hsame, hempty⟩ :=
          SingleTypeKVCacheManager.removeSkippedBlocks_spec howned₁.accounts
            (hdone.list hk howned₁ r) n
            fun spec hspec i hi => (hinv.align k hk spec hspec r).lastState i hi
        rw [nullBlock_of_config (config_of_sizes hdone.sizes)] at hempty
        obtain ⟨howned', hdone'⟩ :=
          hdone.withGroup hk howned₁ hmoves hsame.blocks ⟨hsame, hempty⟩
        exact ⟨_, onGroup_of_ok (by rw [hdone.rest k le_rfl]; exact hround), ⟨holds', howned'⟩,
          hdone'⟩)
  have hgroup : ∀ g, R g (kv.singleTypeManagers g) (kv'.singleTypeManagers g) := by
    intro g
    by_cases hg : g < kv.numKvCacheGroups
    · exact hdone.done g hg
    · rw [hdone.rest g (by omega)]
      exact ⟨.refl r _, .refl _ _ _⟩
  refine ⟨kv', hrun, ⟨howned', fun g hg spec hspec r' => ?_⟩, hdone.sizes,
    fun g => (hgroup g).1, fun g => (hgroup g).2⟩
  rw [alignBlocks_of_spec (hgroup g).1.spec] at hspec
  exact alignState_of_same (hgroup g).1 (hgroup g).2
    (hinv.align g (groups_of_sizes hdone.sizes ▸ hg) spec hspec r')

theorem getNumBlocksToAllocate_returns (hits : KVCacheBlocks) {n total main : Int}
    {Q : Nat → Int → Prop}
    (h : ∀ g < kv.numKvCacheGroups, ∃ e, (kv.singleTypeManagers g).getNumBlocksToAllocate
      kv.blockPool r n (hits g) total main = .ok e ∧ Q g e) :
    ∃ e : Nat → Int, kv.getNumBlocksToAllocate r n hits total main =
        .ok (∑ g ∈ Finset.range kv.numKvCacheGroups, e g) ∧
      ∀ g < kv.numKvCacheGroups, Q g (e g) := by
  choose! e he hQ using h
  obtain ⟨s, hrun, rfl⟩ := ExceptLoop.foldlM_range_returns (f := fun numBlocks g => do
      let n ← (kv.singleTypeManagers g).getNumBlocksToAllocate kv.blockPool r n (hits g) total main
      .ok (numBlocks + n))
    (fun k s => s = ∑ g ∈ Finset.range k, e g) rfl (by
      rintro k hk s rfl
      refine ⟨_, ?_, rfl⟩
      simp only [he k hk, ok_bind, Finset.sum_range_succ])
  exact ⟨e, hrun, hQ⟩

theorem getNumEvictableBlocks_mono {p' : BlockPool H} {holds holds' : List (Holder × Nat)}
    (hacc : Accounts p [] holds) (hacc' : Accounts p' [] holds') (hconfig : p'.config = p.config)
    (hgrow : holds.Sublist holds') (blocks : List Nat) :
    getNumEvictableBlocks p' blocks ≤ getNumEvictableBlocks p blocks := by
  refine countP_mono_left fun b _ hb => ?_
  simp only [decide_eq_true_eq] at hb ⊢
  obtain ⟨href, hnull⟩ := hb
  have hne : b ≠ p'.nullBlock := by
    intro heq
    rw [(hacc'.null b).mpr heq] at hnull
    cases hnull
  have hne' : b ≠ p.nullBlock := by rwa [← nullBlock_of_config hconfig]
  have hcount : (holds.map Prod.snd).count b ≤ (holds'.map Prod.snd).count b :=
    (hgrow.map Prod.snd).count_le b
  have h := hacc.refs b hne'
  have h' := hacc'.refs b hne
  refine ⟨by omega, ?_⟩
  rw [← Bool.not_eq_true, hacc.null b]
  exact hne'

section computed

variable {holds : List (Holder × Nat)} {hits : KVCacheBlocks} {numLocal numExternal : Int}

/-- What group `g` takes from the pool for the hits and the external tokens. -/
def computedCost (kv : KVCacheManager H) (hits : KVCacheBlocks) (numTotal numExternal : Int)
    (g : Nat) : Int :=
  getNumEvictableBlocks kv.blockPool ((kv.singleTypeManagers g).keptHits (hits g) numTotal) +
    (kv.singleTypeManagers g).externalBlocks (hits g) numTotal numExternal

/-- The hits of a request without blocks can be touched. -/
structure CanTouch (kv : KVCacheManager H) (r : ReqId) (hits : KVCacheBlocks) (numTotal : Int)
    (g : Nat) : Prop where
  blocks : kv.blocksOf r g = []
  cached : (kv.singleTypeManagers g).numCachedBlock r = none
  length : ((hits g).length : Int) * (kv.singleTypeManagers g).blockSize ≤ numTotal
  nodup : (nonNull kv.blockPool.nullBlock (hits g)).Nodup
  real : ∀ b ∈ nonNull kv.blockPool.nullBlock (hits g), kv.blockPool.Real b
  off : kv.blockPool.enableCaching = false → hits g = []

variable [DecidableEq H]

/-- The list of `r` after the hits and the external tokens have their blocks. -/
def computedLength (kv : KVCacheManager H) (hits : KVCacheBlocks) (numTotal numExternal : Int)
    (g : Nat) : Int :=
  (kv.singleTypeManagers g).hitLength (hits g) numTotal +
    (kv.singleTypeManagers g).externalBlocks (hits g) numTotal numExternal

theorem allocateNewComputedBlocks_round {kv₁ : KVCacheManager H} {holds₁ : List (Holder × Nat)}
    {k : Nat} (htotal : 0 ≤ numLocal + numExternal)
    (hcan : CanTouch kv r hits (numLocal + numExternal) k) (howned : kv.Owned holds)
    (howned₁ : kv₁.Owned holds₁) (hsizes : kv₁.sizes = kv.sizes) (hgrow : holds.Sublist holds₁)
    (hlist : HoldsList kv₁.blockPool holds₁ (r, k) ((kv.singleTypeManagers k).blocksOf r))
    (hfree : computedCost kv hits (numLocal + numExternal) numExternal k ≤
      kv₁.blockPool.getNumFreeBlocks) :
    ∃ m' p' holds', (kv.singleTypeManagers k).allocateNewComputedBlocks kv₁.blockPool r (hits k)
        numLocal numExternal = .ok (m', p') ∧
      Moves (r, k) kv₁.blockPool p' holds₁ holds' (m'.blocksOf r) ∧ holds.Sublist holds' ∧
      Extended r (computedLength kv hits (numLocal + numExternal) numExternal k)
        (kv.singleTypeManagers k) m' ∧
      kv₁.blockPool.getNumFreeBlocks -
        computedCost kv hits (numLocal + numExternal) numExternal k ≤ p'.getNumFreeBlocks := by
  have hconfig := config_of_sizes hsizes
  have hnull := nullBlock_of_config hconfig
  have hevict := getNumEvictableBlocks_mono howned.accounts howned₁.accounts hconfig hgrow
    ((kv.singleTypeManagers k).keptHits (hits k) (numLocal + numExternal))
  have hblocks : (kv.singleTypeManagers k).blocksOf r = [] := hcan.blocks
  rw [hblocks] at hlist
  unfold computedCost at hfree ⊢
  obtain ⟨m', p', holds', hrun, hmoves, hgrow', hext, hfree'⟩ :=
    allocateNewComputedBlocks_spec
      howned₁.accounts hlist hblocks hcan.cached htotal hcan.length
      (by rw [hnull]; exact hcan.nodup)
      (fun b hb => (real_congr hconfig b).mpr (hcan.real b (by rwa [hnull] at hb)))
      (fun hoff => hcan.off (by rwa [enableCaching_of_config hconfig] at hoff))
      (by omega)
  exact ⟨m', p', holds', hrun, hmoves, hgrow.trans hgrow', hext, by omega⟩

theorem allocateNewComputedBlocks_spec (htotal : 0 ≤ numLocal + numExternal)
    (hcan : ∀ g < kv.numKvCacheGroups, CanTouch kv r hits (numLocal + numExternal) g)
    (howned : kv.Owned holds)
    (hfree : ∀ k ≤ kv.numKvCacheGroups,
      ∑ g ∈ Finset.range k, computedCost kv hits (numLocal + numExternal) numExternal g ≤
        kv.blockPool.getNumFreeBlocks) :
    ∃ kv' holds', kv.allocateNewComputedBlocks r hits numLocal numExternal = .ok kv' ∧
      kv'.Owned holds' ∧ kv'.sizes = kv.sizes ∧
      (∀ g < kv.numKvCacheGroups,
        Extended r (computedLength kv hits (numLocal + numExternal) numExternal g)
          (kv.singleTypeManagers g) (kv'.singleTypeManagers g)) ∧
      kv.blockPool.getNumFreeBlocks - ∑ g ∈ Finset.range kv.numKvCacheGroups,
        computedCost kv hits (numLocal + numExternal) numExternal g ≤
          kv'.blockPool.getNumFreeBlocks := by
  obtain ⟨kv', hrun, ⟨holds', howned', -⟩, hdone, hfree'⟩ :=
    ExceptLoop.foldlM_range_returns
      (f := fun kv₁ k => kv₁.onGroup k fun m p =>
        m.allocateNewComputedBlocks p r (hits k) numLocal numExternal)
      (fun k kv₁ => (∃ holds₁, kv₁.Owned holds₁ ∧ holds.Sublist holds₁) ∧
        GroupsDone (fun g => Extended r (computedLength kv hits _ numExternal g)) kv k kv₁ ∧
        kv.blockPool.getNumFreeBlocks - ∑ g ∈ Finset.range k,
          computedCost kv hits (numLocal + numExternal) numExternal g ≤
            kv₁.blockPool.getNumFreeBlocks)
      ⟨⟨holds, howned, Sublist.refl _⟩, .zero _ kv, by simp⟩ (by
        rintro k hk kv₁ ⟨⟨holds₁, howned₁, hgrow⟩, hdone, hfree₁⟩
        have hnext := hfree (k + 1) hk
        rw [Finset.sum_range_succ] at hnext
        obtain ⟨m', p', holds', hround, hmoves, hgrow', hext, hfree'⟩ :=
          allocateNewComputedBlocks_round htotal (hcan k hk) howned howned₁ hdone.sizes hgrow
            (hdone.list hk howned₁ r) (by omega)
        obtain ⟨howned', hdone'⟩ := hdone.withGroup hk howned₁ hmoves hext.others hext
        refine ⟨_, onGroup_of_ok (by rw [hdone.rest k le_rfl]; exact hround),
          ⟨holds', howned', hgrow'⟩, hdone', ?_⟩
        rw [Finset.sum_range_succ]
        change _ ≤ p'.getNumFreeBlocks
        omega)
  exact ⟨kv', holds', hrun, howned', hdone.sizes, hdone.done, hfree'⟩

end computed

section allocate

variable {holds : List (Holder × Nat)} {n main : Int}

/-- What group `g` takes from the pool for the tokens to be computed. -/
def newCost (kv : KVCacheManager H) (r : ReqId) (n main : Int) (g : Nat) : Int :=
  (kv.singleTypeManagers g).newBlocks r n main (kv.blocksOf r g).length

/-- The list of `r` has the required length, and the other requests have what they had. -/
structure Provided (r : ReqId) (n main : Int) (m m' : SingleTypeKVCacheManager) : Prop where
  spec : m'.kvCacheSpec = m.kvCacheSpec
  others : ∀ r' ≠ r, m'.blocksOf r' = m.blocksOf r' ∧
    m'.lastStateBlockIdx r' = m.lastStateBlockIdx r' ∧
    m'.allocatedBlockReqs r' = m.allocatedBlockReqs r'
  length : m.requiredBlocks n main ≤ (m'.blocksOf r).length
  align : ∀ spec, m.alignBlocks = some spec → AlignState m' spec r

theorem newBlocks_nonneg (m : SingleTypeKVCacheManager) (r : ReqId) (n main len : Int) :
    0 ≤ m.newBlocks r n main len := by
  unfold newBlocks
  split
  · split
    · exact le_rfl
    · split <;> omega
  · exact le_max_left _ _

variable [DecidableEq H]

theorem allocateNewBlocks_spec (n main : Int) (howned : kv.Owned holds)
    (hready : ∀ g < kv.numKvCacheGroups, ∀ spec,
      (kv.singleTypeManagers g).alignBlocks = some spec →
        AlignReady (kv.singleTypeManagers g) spec r main)
    (hfree : ∑ g ∈ Finset.range kv.numKvCacheGroups, kv.newCost r n main g ≤
      kv.blockPool.getNumFreeBlocks) :
    ∃ news kv', kv.allocateNewBlocks r n main = .ok (news, kv') ∧
      (∃ holds', kv'.Owned holds') ∧ kv'.sizes = kv.sizes ∧
      ∀ g < kv.numKvCacheGroups,
        Provided r n main (kv.singleTypeManagers g) (kv'.singleTypeManagers g) := by
  have hpart : ∀ k ≤ kv.numKvCacheGroups,
      ∑ g ∈ Finset.range k, kv.newCost r n main g ≤ kv.blockPool.getNumFreeBlocks := by
    intro k hk
    refine le_trans (Finset.sum_le_sum_of_subset_of_nonneg ?_ ?_) hfree
    · exact Finset.range_subset_range.mpr hk
    · exact fun g _ _ => newBlocks_nonneg _ _ _ _ _
  obtain ⟨⟨news, kv'⟩, hrun, howned', hdone, -⟩ :
      ∃ s, kv.allocateNewBlocks r n main = .ok s ∧ _ :=
    ExceptLoop.foldlM_range_returns
      (fun k s => (∃ holds', s.2.Owned holds') ∧ GroupsDone (fun _ => Provided r n main) kv k s.2 ∧
        s.2.blockPool.getNumFreeBlocks =
          kv.blockPool.getNumFreeBlocks - ∑ g ∈ Finset.range k, kv.newCost r n main g)
      ⟨⟨holds, howned⟩, .zero _ kv, by simp⟩ (by
        rintro k hk ⟨news, kv₁⟩ ⟨⟨holds₁, howned₁⟩, hdone, hfree₁⟩
        have hnext := hpart (k + 1) hk
        rw [Finset.sum_range_succ] at hnext
        have hcost : kv.newCost r n main k = (kv.singleTypeManagers k).newBlocks r n main
          ((kv.singleTypeManagers k).blocksOf r).length := rfl
        obtain ⟨blocks, m', p', holds', hok, hmoves, hspec, hothers, hlen, hstate, hfree'⟩ :=
          SingleTypeKVCacheManager.allocateNewBlocks_spec howned₁.accounts
            (hdone.list hk howned₁ r) n main (hready k hk) (by omega)
        obtain ⟨howned', hdone'⟩ := hdone.withGroup hk howned₁ hmoves
          (fun r' hr => (hothers r' hr).1)
          ⟨hspec, hothers, by rw [hlen]; exact le_max_right _ _, hstate⟩
        refine ⟨(update news k blocks, kv₁.withGroup k m' p'), ?_, ⟨holds', howned'⟩,
          hdone', ?_⟩
        · have hm : kv₁.singleTypeManagers k = kv.singleTypeManagers k := hdone.rest k le_rfl
          simp only [hm, hok, ok_bind]
          rfl
        · rw [Finset.sum_range_succ]
          change p'.getNumFreeBlocks = _
          omega)
  exact ⟨news, kv', hrun, howned', hdone.sizes, hdone.done⟩

theorem fits_of_allocateNewBlocks {news : KVCacheBlocks} {kv' : KVCacheManager H}
    (hrun : kv.allocateNewBlocks r n main = .ok (news, kv')) :
    ∀ g < kv.numKvCacheGroups, ∀ spec, (kv.singleTypeManagers g).alignBlocks = some spec →
      ((kv.blocksOf r g).length : Int) ≤
        cdiv main (kv.singleTypeManagers g).blockSize + spec := by
  refine (ExceptLoop.foldlM_range_inv (fun k (s : KVCacheBlocks × KVCacheManager H) =>
    (∀ g < k, ∀ spec, (kv.singleTypeManagers g).alignBlocks = some spec →
      ((kv.blocksOf r g).length : Int) ≤
        cdiv main (kv.singleTypeManagers g).blockSize + spec) ∧
      ∀ g, k ≤ g → s.2.singleTypeManagers g = kv.singleTypeManagers g)
    ⟨by simp, fun _ _ => rfl⟩ ?_ hrun).1
  rintro k hk ⟨news₁, kv₁⟩ s' ⟨hdone, hrest⟩ hround
  obtain ⟨⟨blocks, m', p'⟩, hok, hround⟩ := of_bind hround
  cases hround
  refine ⟨fun g hg spec hspec => ?_, fun g hg => ?_⟩
  · rcases Nat.lt_succ_iff_lt_or_eq.mp hg with hlt | rfl
    · exact hdone g hlt spec hspec
    · have hm : kv₁.singleTypeManagers g = kv.singleTypeManagers g := hrest g le_rfl
      rw [hm, allocateNewBlocks_of_align hspec] at hok
      exact fits_of_allocateNewBlocksAlign hok
  · exact (withGroup_ne kv₁ (by omega) m' p').trans (hrest g (by omega))

end allocate

section slots

/-- A request without blocks, with hits that are distinct cached blocks. By the documentation
of `allocate_slots` the hits of every group cover the new computed tokens. -/
structure NewCall (kv : KVCacheManager H) (a : AllocateArgs H) : Prop where
  computed : a.request.numComputedTokens = 0
  fresh : ∀ g < kv.numKvCacheGroups, kv.blocksOf a.request.requestId g = [] ∧
    (kv.singleTypeManagers g).numCachedBlock a.request.requestId = none
  length : ∀ g < kv.numKvCacheGroups,
    ((a.newComputedBlocks g).length : Int) * (kv.singleTypeManagers g).blockSize =
      a.numNewComputedTokens
  nodup : ∀ g < kv.numKvCacheGroups,
    (nonNull kv.blockPool.nullBlock (a.newComputedBlocks g)).Nodup
  cached : ∀ g < kv.numKvCacheGroups,
    ∀ b ∈ nonNull kv.blockPool.nullBlock (a.newComputedBlocks g),
      (kv.blockPool.blocks b).blockHash ≠ none
  off : kv.enableCaching = false → kv.NoBlocks a.newComputedBlocks

/-- A call for a request that has its blocks. -/
structure OldCall (kv : KVCacheManager H) (a : AllocateArgs H) : Prop where
  noHits : kv.NoBlocks a.newComputedBlocks
  noNewComputed : a.numNewComputedTokens = 0
  noExternal : a.numExternalComputedTokens = 0
  computed : ∀ g < kv.numKvCacheGroups, a.request.numComputedTokens ≤
    (kv.blocksOf a.request.requestId g).length * (kv.singleTypeManagers g).blockSize

/-- The counts a caller passes: none is negative, the step stays within the model length, and
with a Mamba group in align mode there are no external tokens and no more lookahead tokens
than speculative blocks. -/
structure CountsOk (kv : KVCacheManager H) (a : AllocateArgs H) : Prop where
  new : 0 ≤ a.numNewTokens
  external : 0 ≤ a.numExternalComputedTokens
  tokens : 0 < a.numNewTokens ∨ 0 < a.numExternalComputedTokens
  computed : 0 ≤ a.request.numComputedTokens
  newComputed : 0 ≤ a.numNewComputedTokens
  lookahead : 0 ≤ a.numLookaheadTokens
  bound : a.numLocalComputedTokens + a.numExternalComputedTokens + a.numNewTokens ≤ kv.maxModelLen
  align : ∀ g < kv.numKvCacheGroups, ∀ spec, (kv.singleTypeManagers g).alignBlocks = some spec →
    a.numExternalComputedTokens = 0 ∧ a.numLookaheadTokens ≤ spec

/-- The callers' side of `allocate_slots`. -/
structure CallOk (kv : KVCacheManager H) (a : AllocateArgs H) : Prop extends CountsOk kv a where
  call : kv.NewCall a ∨ kv.OldCall a

/-- In every group the blocks have a slot for each token. -/
def Covers (kv : KVCacheManager H) (a : AllocateArgs H) : Prop :=
  ∀ g < kv.numKvCacheGroups, a.numTokensNeedSlot kv.maxModelLen ≤
    (kv.blocksOf a.request.requestId g).length * (kv.singleTypeManagers g).blockSize

/-- No list of a Mamba group in align mode is longer than required. -/
def AlignFits (kv : KVCacheManager H) (a : AllocateArgs H) : Prop :=
  ∀ g < kv.numKvCacheGroups, ∀ spec, (kv.singleTypeManagers g).alignBlocks = some spec →
    ((kv.blocksOf a.request.requestId g).length : Int) ≤
      cdiv (a.numTokensMainModel kv.maxModelLen) (kv.singleTypeManagers g).blockSize + spec

variable {kv₁ : KVCacheManager H} {a : AllocateArgs H}

theorem CountsOk.total_eq (h : kv.CountsOk a) :
    a.totalComputedTokens kv.maxModelLen =
      a.numLocalComputedTokens + a.numExternalComputedTokens := by
  have := h.bound
  have := h.new
  unfold AllocateArgs.totalComputedTokens
  omega

theorem CountsOk.main_eq (h : kv.CountsOk a) :
    a.numTokensMainModel kv.maxModelLen =
      a.numLocalComputedTokens + a.numExternalComputedTokens + a.numNewTokens := by
  rw [AllocateArgs.numTokensMainModel, h.total_eq]

theorem CountsOk.main_le_needSlot (h : kv.CountsOk a) :
    a.numTokensMainModel kv.maxModelLen ≤ a.numTokensNeedSlot kv.maxModelLen := by
  have := h.bound
  have := h.lookahead
  have := h.main_eq
  unfold AllocateArgs.numTokensNeedSlot
  omega

theorem CountsOk.total_nonneg (h : kv.CountsOk a) :
    0 ≤ a.numLocalComputedTokens + a.numExternalComputedTokens := by
  have := h.computed
  have := h.newComputed
  have := h.external
  unfold AllocateArgs.numLocalComputedTokens
  omega

theorem CountsOk.total_lt_main (h : kv.CountsOk a)
    (hext : a.numExternalComputedTokens = 0) :
    a.numLocalComputedTokens + a.numExternalComputedTokens <
      a.numTokensMainModel kv.maxModelLen := by
  have := h.main_eq
  have := h.tokens
  omega

theorem needSlot_le_required (m : SingleTypeKVCacheManager) (n main : Int) {lookahead : Int}
    (hn : n ≤ main + lookahead)
    (hlook : ∀ spec, m.alignBlocks = some spec → lookahead ≤ spec) :
    n ≤ m.requiredBlocks n main * m.blockSize := by
  have hb : 0 < m.blockSize := m.kvCacheSpec.blockSize_pos
  unfold requiredBlocks
  cases hmode : m.alignBlocks with
  | none => exact (m.le_slotTokens n).trans (le_cdiv_mul hb _)
  | some spec =>
    have hspec : (spec : Int) * 1 ≤ spec * m.blockSize :=
      Int.mul_le_mul_of_nonneg_left (by omega) (by omega)
    have hmain := le_cdiv_mul hb main
    have := hlook spec hmode
    rw [Int.add_mul]
    omega

theorem canTouch_of_newCall {n : Int} (hskip : OnlySkippedFreed r n kv kv₁)
    (howned : ∃ holds, kv.Owned holds) (hr : a.request.requestId = r) (hnew : kv.NewCall a)
    {numTotal : Int} (htotal : a.numNewComputedTokens ≤ numTotal) {g : Nat}
    (hg : g < kv.numKvCacheGroups) : CanTouch kv₁ r a.newComputedBlocks numTotal g := by
  obtain ⟨holds, howned⟩ := howned
  subst hr
  have hconfig := config_of_sizes hskip.sizes
  have hnull := nullBlock_of_config hconfig
  refine ⟨?_, ?_, ?_, ?_, ?_, ?_⟩
  · apply eq_nil_of_length_eq_zero
    rw [(hskip.emptied g).length, (hnew.fresh g hg).1]
    rfl
  · rw [(hskip.same g).cached]
    exact (hnew.fresh g hg).2
  · rw [blockSize_of_spec (hskip.same g).spec, hnew.length g hg]
    exact htotal
  · rw [hnull]
    exact hnew.nodup g hg
  · intro b hb
    rw [hnull] at hb
    obtain ⟨key, hkey⟩ := Option.ne_none_iff_exists'.mp (hnew.cached g hg b hb)
    exact (real_congr hconfig b).mpr (howned.accounts.hashedReal b key hkey)
  · intro hoff
    rw [enableCaching_of_config hconfig] at hoff
    exact hnew.off hoff g hg

theorem hitLength_lt_cdiv {m : SingleTypeKVCacheManager} {hits : List Nat} {total main : Int}
    (htotal : 0 ≤ total) (hhits : (hits.length : Int) * m.blockSize ≤ total) (hlt : total < main) :
    m.hitLength hits total < cdiv main m.blockSize := by
  have hb : 0 < m.blockSize := m.kvCacheSpec.blockSize_pos
  have h₁ := (lt_cdiv_iff hb main hits.length).mpr (hhits.trans_lt hlt)
  have h₂ := (lt_cdiv_iff hb main (m.skippedBlocks total)).mpr
    ((m.skippedBlocks_mul_le htotal).trans_lt hlt)
  have h₃ := (lt_cdiv_iff hb main 0).mpr (by omega)
  exact max_lt (max_lt h₃ h₂) h₁

variable [DecidableEq H]

/-- The blocks are counted, and with so many free blocks the slots are taken. -/
def Admits (kv : KVCacheManager H) (a : AllocateArgs H) : Prop :=
  ∃ e, kv.getNumBlocksToAllocate a.request.requestId (a.numTokensNeedSlot kv.maxModelLen)
      a.newComputedBlocks (a.numLocalComputedTokens + a.numExternalComputedTokens)
      (a.numTokensMainModel kv.maxModelLen) = .ok e ∧
    (e ≤ kv.blockPool.getNumFreeBlocks → kv.AlignFits a →
      ∃ news kv', kv.takeSlots a = .ok (news, kv') ∧ kv'.Invariant ∧ kv'.Covers a)

theorem allocateNewBlocks_covers {kv₁ kv₂ : KVCacheManager H} (hinv₁ : kv₁.Invariant)
    (hcounts : kv₁.CountsOk a) (hr : a.request.requestId = r) (hsizes : kv₂.sizes = kv₁.sizes)
    (howned₂ : ∃ holds, kv₂.Owned holds) {len : Nat → Int}
    (hext : ∀ g < kv₁.numKvCacheGroups,
      Extended r (len g) (kv₁.singleTypeManagers g) (kv₂.singleTypeManagers g))
    (hready : ∀ g < kv₁.numKvCacheGroups, ∀ spec,
      (kv₁.singleTypeManagers g).alignBlocks = some spec →
        AlignReady (kv₂.singleTypeManagers g) spec r (a.numTokensMainModel kv₁.maxModelLen))
    (hfree : ∑ g ∈ Finset.range kv₁.numKvCacheGroups,
      (kv₁.singleTypeManagers g).newBlocks r (a.numTokensNeedSlot kv₁.maxModelLen)
        (a.numTokensMainModel kv₁.maxModelLen) (len g) ≤ kv₂.blockPool.getNumFreeBlocks) :
    ∃ news kv₃, kv₂.allocateNewBlocks r (a.numTokensNeedSlot kv₂.maxModelLen)
        (a.numTokensMainModel kv₂.maxModelLen) = .ok (news, kv₃) ∧
      kv₃.Invariant ∧ kv₃.Covers a := by
  obtain ⟨holds₂, howned₂⟩ := howned₂
  have hgroups := groups_of_sizes hsizes
  have hmax := maxLen_of_sizes hsizes
  have hmode := fun g hg => alignBlocks_of_spec (hext g hg).spec
  rw [hmax]
  obtain ⟨news, kv₃, hrun, howned₃, hsizes₃, hprovided⟩ :=
    allocateNewBlocks_spec (a.numTokensNeedSlot kv₁.maxModelLen)
      (a.numTokensMainModel kv₁.maxModelLen) howned₂
      (by
        rw [hgroups]
        exact fun g hg spec hspec => hready g hg spec (hmode g hg ▸ hspec))
      (by
        rw [hgroups]
        refine le_trans (le_of_eq (Finset.sum_congr rfl fun g hg => ?_)) hfree
        exact (hext g (Finset.mem_range.mp hg)).newBlocks_eq _ _)
  have hgroups₃ := (groups_of_sizes hsizes₃).trans hgroups
  have hmax₃ := (maxLen_of_sizes hsizes₃).trans hmax
  rw [hgroups] at hprovided
  have hspec₃ : ∀ g < kv₁.numKvCacheGroups,
      (kv₃.singleTypeManagers g).kvCacheSpec = (kv₁.singleTypeManagers g).kvCacheSpec :=
    fun g hg => (hprovided g hg).spec.trans (hext g hg).spec
  refine ⟨news, kv₃, hrun, ⟨howned₃, ?_⟩, ?_⟩
  · rw [hgroups₃]
    intro g hg spec hspec r'
    have hspec₁ : (kv₁.singleTypeManagers g).alignBlocks = some spec := by
      rwa [alignBlocks_of_spec (hspec₃ g hg)] at hspec
    by_cases hr' : r' = r
    · subst hr'
      exact (hprovided g hg).align spec (by rw [hmode g hg, hspec₁])
    · obtain ⟨hblocks, hlast, halloc⟩ := (hprovided g hg).others r' hr'
      have hstate := hinv₁.align g hg spec hspec₁ r'
      rw [(hext g hg).others r' hr'] at hblocks
      rw [(hext g hg).lastState] at hlast
      rw [(hext g hg).allocated] at halloc
      exact hstate.congr hblocks hlast halloc
  · intro g hg
    rw [hgroups₃] at hg
    rw [hmax₃, hr]
    have hslots := needSlot_le_required (kv₂.singleTypeManagers g)
      (a.numTokensNeedSlot kv₁.maxModelLen) (a.numTokensMainModel kv₁.maxModelLen)
      (min_le_left _ _)
      fun spec hspec => (hcounts.align g hg spec (by rw [← hmode g hg, hspec])).2
    rw [blockSize_of_spec (hprovided g hg).spec]
    exact hslots.trans (Int.mul_le_mul_of_nonneg_right (hprovided g hg).length (by omega))

theorem takeSlots_new (hinv : kv.Invariant) (hcounts : kv.CountsOk a)
    (hsome : ¬ kv.NoBlocks a.newComputedBlocks ∨ a.numExternalComputedTokens > 0)
    (hcan : ∀ g < kv.numKvCacheGroups, CanTouch kv a.request.requestId a.newComputedBlocks
      (a.numLocalComputedTokens + a.numExternalComputedTokens) g) : kv.Admits a := by
  obtain ⟨holds, howned⟩ := hinv.owned
  have htotal := hcounts.total_nonneg
  have hneed : a.numLocalComputedTokens + a.numExternalComputedTokens ≤
      a.numTokensNeedSlot kv.maxModelLen := by
    have := hcounts.main_le_needSlot
    have := hcounts.main_eq
    have := hcounts.new
    omega
  -- a group in align mode has no state of the request yet
  have hfresh : ∀ g < kv.numKvCacheGroups, ∀ spec,
      (kv.singleTypeManagers g).alignBlocks = some spec →
        (kv.singleTypeManagers g).allocatedBlockReqs a.request.requestId = false ∧
        ∀ i, (kv.singleTypeManagers g).lastStateBlockIdx a.request.requestId ≠ some i := by
    intro g hg spec hspec
    have hstate := hinv.align g hg spec hspec a.request.requestId
    have hblocks : (kv.singleTypeManagers g).blocksOf a.request.requestId = [] :=
      (hcan g hg).blocks
    refine ⟨?_, fun i hi => ?_⟩
    · rw [← Bool.not_eq_true]
      intro halloc
      have := hstate.allocated halloc
      rw [hblocks, length_nil] at this
      omega
    · have := hstate.lastState i hi
      rw [hblocks, length_nil] at this
      omega
  have hshort : ∀ g < kv.numKvCacheGroups, ∀ spec,
      (kv.singleTypeManagers g).alignBlocks = some spec →
        (kv.singleTypeManagers g).hitLength (a.newComputedBlocks g)
          (a.numLocalComputedTokens + a.numExternalComputedTokens) <
        cdiv (a.numTokensMainModel kv.maxModelLen) (kv.singleTypeManagers g).blockSize :=
    fun g hg spec hspec => hitLength_lt_cdiv htotal (hcan g hg).length
      (hcounts.total_lt_main (hcounts.align g hg spec hspec).1)
  obtain ⟨e, hok, hle⟩ := getNumBlocksToAllocate_returns a.newComputedBlocks fun g hg =>
    getNumBlocksToAllocate_new (hcan g hg).blocks (hcan g hg).cached hneed
      a.numExternalComputedTokens fun spec hspec =>
        ⟨(hfresh g hg spec hspec).1, (hcounts.align g hg spec hspec).1.le,
          (le_max_right _ _).trans_lt (hshort g hg spec hspec)⟩
  refine ⟨_, hok, fun hfree _ => ?_⟩
  set cost := computedCost kv a.newComputedBlocks
    (a.numLocalComputedTokens + a.numExternalComputedTokens) a.numExternalComputedTokens
  set news := fun g => (kv.singleTypeManagers g).newBlocks a.request.requestId
    (a.numTokensNeedSlot kv.maxModelLen) (a.numTokensMainModel kv.maxModelLen)
    (computedLength kv a.newComputedBlocks
      (a.numLocalComputedTokens + a.numExternalComputedTokens) a.numExternalComputedTokens g)
  have hcost : ∀ g < kv.numKvCacheGroups, 0 ≤ cost g := fun g hg =>
    Int.add_nonneg (by omega) (externalBlocks_nonneg _ htotal (hcan g hg).length _)
  have hsum : ∑ g ∈ Finset.range kv.numKvCacheGroups, cost g +
      ∑ g ∈ Finset.range kv.numKvCacheGroups, news g ≤ kv.blockPool.getNumFreeBlocks := by
    rw [← Finset.sum_add_distrib]
    exact (Finset.sum_le_sum fun g hg => hle g (Finset.mem_range.mp hg)).trans hfree
  have hnews : 0 ≤ ∑ g ∈ Finset.range kv.numKvCacheGroups, news g :=
    Finset.sum_nonneg fun g _ => newBlocks_nonneg _ _ _ _ _
  have hpart : ∀ k ≤ kv.numKvCacheGroups,
      ∑ g ∈ Finset.range k, cost g ≤ kv.blockPool.getNumFreeBlocks := by
    intro k hk
    have hmono := Finset.sum_le_sum_of_subset_of_nonneg (Finset.range_subset_range.mpr hk)
      fun g hg _ => hcost g (Finset.mem_range.mp hg)
    omega
  obtain ⟨kv₂, holds₂, htouch, howned₂, hsizes₂, hext₂, hfree₂⟩ :=
    allocateNewComputedBlocks_spec htotal hcan howned hpart
  obtain ⟨blocks, kv₃, halloc, hinv₃, hcovers⟩ :=
    allocateNewBlocks_covers hinv hcounts rfl hsizes₂ ⟨holds₂, howned₂⟩ hext₂ (by
      intro g hg spec hspec
      have hlen := (hext₂ g hg).length
      have hbs := blockSize_of_spec (hext₂ g hg).spec
      rw [computedLength,
        externalBlocks_of_nonpos _ _ _ (hcounts.align g hg spec hspec).1.le] at hlen
      have hlt := hshort g hg spec hspec
      obtain ⟨hunallocated, hnolast⟩ := hfresh g hg spec hspec
      refine ⟨?_, ?_, ?_, ?_, ?_⟩
      · have := hcounts.total_lt_main (hcounts.align g hg spec hspec).1
        omega
      · rw [hbs]
        omega
      · rw [(hext₂ g hg).allocated, hunallocated]
        exact fun h => absurd h Bool.false_ne_true
      · rw [hbs]
        omega
      · rw [(hext₂ g hg).lastState]
        exact fun i hi => absurd hi (hnolast i))
      (show ∑ g ∈ Finset.range kv.numKvCacheGroups, news g ≤ _ by
        change _ - ∑ g ∈ Finset.range kv.numKvCacheGroups, cost g ≤ _ at hfree₂
        omega)
  refine ⟨blocks, kv₃, ?_, hinv₃, hcovers⟩
  unfold takeSlots
  rw [if_pos hsome, htouch]
  exact halloc

theorem takeSlots_old (hinv : kv.Invariant) (hcounts : kv.CountsOk a)
    (hnone : kv.NoBlocks a.newComputedBlocks) (hexternal : a.numExternalComputedTokens = 0)
    (hcomputed : ∀ g < kv.numKvCacheGroups, a.numLocalComputedTokens ≤
      (kv.blocksOf a.request.requestId g).length * (kv.singleTypeManagers g).blockSize) :
    kv.Admits a := by
  have htotal := hcounts.total_nonneg
  obtain ⟨e, hok, hle⟩ := getNumBlocksToAllocate_returns a.newComputedBlocks fun g hg => by
    rw [hnone g hg]
    refine getNumBlocksToAllocate_old (r := a.request.requestId)
      (a.numTokensNeedSlot kv.maxModelLen) (a.numTokensMainModel kv.maxModelLen) htotal ?_
    rw [hexternal, Int.add_zero]
    exact hcomputed g hg
  refine ⟨_, hok, fun hfree hfits => ?_⟩
  obtain ⟨blocks, kv₃, halloc, hinv₃, hcovers⟩ :=
    allocateNewBlocks_covers hinv hcounts rfl rfl hinv.owned
      (fun g _ => Extended.refl a.request.requestId (kv.singleTypeManagers g)) (by
        intro g hg spec hspec
        have hstate := hinv.align g hg spec hspec a.request.requestId
        have hpos : 0 < a.numTokensMainModel kv.maxModelLen := by
          have := hcounts.total_lt_main hexternal
          omega
        refine ⟨hpos, hfits g hg spec hspec, hstate.allocated, fun hfresh => ?_,
          hstate.lastState⟩
        rw [hstate.fresh hfresh, length_nil]
        exact (lt_cdiv_iff (kv.singleTypeManagers g).kvCacheSpec.blockSize_pos _ _).mpr (by omega))
      ((Finset.sum_le_sum fun g hg => hle g (Finset.mem_range.mp hg)
        (hfits g (Finset.mem_range.mp hg))).trans hfree)
  refine ⟨blocks, kv₃, ?_, hinv₃, hcovers⟩
  unfold takeSlots
  rw [if_neg (by rintro (h | h); exacts [h hnone, by omega])]
  exact halloc

end slots

end LongCtxSpecDecode.KVCacheManager
