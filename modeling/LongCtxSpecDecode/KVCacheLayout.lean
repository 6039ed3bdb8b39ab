import LongCtxSpecDecode.KVCacheGrouping

/-!
# The layout of the KV cache

Every worker that gets a configuration has its layers in groups and its tensors behind them, with
one page for each block, and they fit in the memory. Only the specs that are merged although their
layers are stored in different ways break this.
-/

namespace LongCtxSpecDecode

open Library ExceptLoop List OrderedDict

variable {D : Type}

theorem floorDiv_eq_ok {a c : Int} {b : Nat} : floorDiv a b = .ok c ↔ b ≠ 0 ∧ c = a / b := by
  unfold floorDiv
  split
  · simp [*]
  · simp [*, eq_comm]

/-! ### The tensors of one worker -/

variable {name : String}

section Tensors

variable (dtypeSize : D → Nat)

def PageOf (groups : List (KVCacheGroupSpec D)) (name : String) (page : Nat) : Prop :=
  ∃ group ∈ groups, name ∈ group.layerNames ∧ ∃ spec, group.kvCacheSpec.Covers name spec ∧
    spec.pageSizeBytes dtypeSize = .ok page

structure Backs (groups : List (KVCacheGroupSpec D)) (memory : Int) (pages : List Nat)
    (config : KVCacheConfig D) : Prop where
  groups_eq : config.kvCacheGroups = groups
  backed : (config.kvCacheTensors.flatMap (·.sharedBy)).Perm (groups.flatMap (·.layerNames))
  inUse : ∀ tensor ∈ config.kvCacheTensors, tensor.sharedBy ≠ []
  column : ∀ tensor ∈ config.kvCacheTensors, ∃ i : Nat, ∀ name ∈ tensor.sharedBy,
    ∃ group ∈ groups, group.layerNames[i]? = some name
  sizes : Forall₂ (fun (page : Nat) tensor => tensor.size = page * config.numBlocks ∧
    ∀ name ∈ tensor.sharedBy, PageOf dtypeSize groups name page) pages config.kvCacheTensors
  nonneg : 0 ≤ memory → 0 ≤ config.numBlocks
  fits : 0 ≤ memory → pages.sum * config.numBlocks ≤ memory

variable {dtypeSize} {config : VllmConfig} {groups : List (KVCacheGroupSpec D)} {memory : Int}
  {result : KVCacheConfig D}

variable {page : Nat} {specs : SpecDict D}

theorem getUniformPageSize_eq {specs : List (GroupSpec D)}
    (h : getUniformPageSize dtypeSize specs = .ok page) :
    ∀ spec ∈ specs, spec.pageSizeBytes dtypeSize = .ok page := by
  obtain ⟨pages, hpages, h⟩ := of_bind h
  intro spec hspec
  obtain ⟨size, hsize, hok⟩ := (mem_of_mapM hpages).2 spec hspec
  rw [hok]
  split at h
  · cases h
  · obtain ⟨_, hall, h⟩ := of_bind h
    cases h
    rcases mem_cons.mp hsize with rfl | hsize
    · rfl
    · rw [require_eq_ok.mp hall size hsize]

theorem length_le_groupSize {group : KVCacheGroupSpec D} (h : group ∈ groups) :
    group.layerNames.length ≤ groupSize groups :=
  le_max?_getD_of_mem (mem_map_of_mem h)

theorem exists_length_eq_groupSize (h : groups ≠ []) :
    ∃ group ∈ groups, group.layerNames.length = groupSize groups := by
  obtain ⟨size, hsize⟩ : ∃ m, (groups.map fun group => group.layerNames.length).max? = some m :=
    Option.isSome_iff_exists.mp (isSome_max?_of_ne_nil (by simpa using h))
  obtain ⟨group, hgroup, hlen⟩ := mem_map.mp (max?_mem hsize)
  refine ⟨group, hgroup, ?_⟩
  rw [groupSize, hsize, hlen]
  rfl

theorem mem_sharedBy {i : Nat} :
    name ∈ sharedBy groups i ↔ ∃ group ∈ groups, group.layerNames[i]? = some name :=
  mem_filterMap

theorem flatMap_sharedBy_perm (groups : List (KVCacheGroupSpec D)) :
    ((range (groupSize groups)).flatMap (sharedBy groups)).Perm
      (groups.flatMap (·.layerNames)) := by
  have hwidth : ∀ names ∈ groups.map (·.layerNames), names.length ≤ groupSize groups := by
    intro names hnames
    obtain ⟨group, hgroup, rfl⟩ := mem_map.mp hnames
    exact length_le_groupSize hgroup
  have hcolumns := flatMap_columns_perm hwidth
  simp only [filterMap_map] at hcolumns
  exact hcolumns

theorem mul_max_ediv_le {memory : Int} (hmemory : 0 ≤ memory) {layers : Nat} (hpage : page ≠ 0)
    (hlayers : layers ≠ 0) : (layers * page : Nat) * max (memory / page / layers) 0 ≤ memory := by
  have hpages : 0 ≤ memory / page := Int.ediv_nonneg hmemory (Int.natCast_nonneg page)
  have hblocks : 0 ≤ memory / page / layers := Int.ediv_nonneg hpages (Int.natCast_nonneg layers)
  rw [max_eq_left hblocks]
  calc (layers : Int) * page * (memory / page / layers)
      = memory / page / layers * layers * page := by ring
    _ ≤ memory / page * page :=
        Int.mul_le_mul_of_nonneg_right (Int.ediv_mul_le _ (by omega)) (Int.natCast_nonneg page)
    _ ≤ memory := Int.ediv_mul_le _ (by omega)

section

variable (hoverride : config.numGpuBlocksOverride = none)
  (hsingle : ∀ group ∈ groups, ∃ spec, group.kvCacheSpec = .single spec) (hne : groups ≠ [])
  (h : getKvCacheConfigFromGroups dtypeSize config groups memory = .ok result)
include hoverride hsingle hne h

theorem getKvCacheConfigFromGroups_eq :
    ∃ page, getUniformPageSize dtypeSize (groups.map (·.kvCacheSpec)) = .ok page ∧ page ≠ 0 ∧
      groupSize groups ≠ 0 ∧ ∃ numBlocks, numBlocks = max (memory / page / groupSize groups) 0 ∧
        result = ⟨numBlocks, (range (groupSize groups)).map fun i =>
          ⟨page * numBlocks, sharedBy groups i⟩, groups⟩ := by
  unfold getKvCacheConfigFromGroups at h
  split at h
  · exact absurd rfl hne
  · obtain ⟨spec, hspec⟩ := hsingle _ mem_cons_self
    cases hspec
  · obtain ⟨page, hpage, h⟩ := of_bind h
    obtain ⟨_, hpos, h⟩ := of_bind h
    obtain ⟨numBlocks, hblocks, h⟩ := of_bind h
    cases h
    obtain ⟨perPage, hperPage, hblocks⟩ := of_bind hblocks
    obtain ⟨perLayer, hperLayer, hblocks⟩ := of_bind hblocks
    obtain ⟨hpage0, rfl⟩ := floorDiv_eq_ok.mp hperPage
    obtain ⟨hsize0, rfl⟩ := floorDiv_eq_ok.mp hperLayer
    rw [mayOverrideNumBlocks, hoverride] at hblocks
    exact ⟨page, hpage, hpage0, hsize0, numBlocks, (Except.ok.inj hblocks).symm, rfl⟩

theorem backs_groups : ∃ pages, Backs dtypeSize groups memory pages result := by
  obtain ⟨page, hpage, hpage0, hsize0, numBlocks, hnum, rfl⟩ :=
    getKvCacheConfigFromGroups_eq hoverride hsingle hne h
  have hpages : ∀ i ∈ range (groupSize groups), ∀ name ∈ sharedBy groups i,
      PageOf dtypeSize groups name page := by
    intro i _ name hname
    obtain ⟨group, hgroup, hname⟩ := mem_sharedBy.mp hname
    obtain ⟨spec, hspec⟩ := hsingle group hgroup
    have hpage := getUniformPageSize_eq hpage _ (mem_map_of_mem hgroup)
    rw [hspec] at hpage
    refine ⟨group, hgroup, mem_of_getElem? hname, spec, ?_, hpage⟩
    rw [hspec]
    rfl
  refine ⟨(range (groupSize groups)).map fun _ => page, rfl, ?_, ?_, ?_, ?_, ?_, ?_⟩
  · rw [flatMap_map]
    exact flatMap_sharedBy_perm groups
  · intro tensor htensor
    obtain ⟨i, hi, rfl⟩ := mem_map.mp htensor
    obtain ⟨group, hgroup, hlen⟩ := exists_length_eq_groupSize hne
    have hlt : i < group.layerNames.length := hlen ▸ mem_range.mp hi
    exact ne_nil_of_mem (mem_sharedBy.mpr ⟨group, hgroup, getElem?_eq_getElem hlt⟩)
  · intro tensor htensor
    obtain ⟨i, hi, rfl⟩ := mem_map.mp htensor
    exact ⟨i, fun name hname => mem_sharedBy.mp hname⟩
  · rw [forall₂_map_left_iff, forall₂_map_right_iff]
    exact forall₂_same.mpr fun i hi => ⟨rfl, hpages i hi⟩
  · rw [hnum]
    exact fun _ => le_max_right _ _
  · intro hmemory
    rw [hnum, map_const', length_range, sum_replicate]
    exact mul_max_ediv_le hmemory hpage0 hsize0

end

def pageIn (dtypeSize : D → Nat) (specs : SpecDict D) (name : String) : Nat :=
  ((specs.get name).bind fun spec => (spec.pageSizeBytes dtypeSize).toOption).getD 0

theorem pageIn_of_get {spec : LayerSpec D} (hspec : specs.get name = some spec)
    (hpage : spec.pageSizeBytes dtypeSize = .ok page) : pageIn dtypeSize specs name = page := by
  rw [pageIn, hspec, Option.bind_some, hpage]
  rfl

theorem sum_pageIn (hnodup : specs.keys.Nodup) {total : Nat}
    (h : (GroupSpec.uniformType specs).pageSizeBytes dtypeSize = .ok total) :
    (specs.keys.map (pageIn dtypeSize specs)).sum = total := by
  obtain ⟨sizes, hsizes, h⟩ := of_bind h
  cases h
  rw [OrderedDict.keys, map_map]
  exact congrArg sum (map_eq_of_mapM hsizes fun item hitem page hpage =>
    pageIn_of_get ((get_eq_some_iff hnodup).mpr hitem) hpage)

theorem backs_uniformType (hoverride : config.numGpuBlocksOverride = none) {names : List String}
    (hnodup : specs.keys.Nodup) (hnames : names.Sublist specs.keys)
    (h : getKvCacheConfigFromGroups dtypeSize config [⟨names, .uniformType specs⟩] memory =
      .ok result) :
    ∃ pages, Backs dtypeSize [⟨names, .uniformType specs⟩] memory pages result := by
  obtain ⟨total, htotal, h⟩ := of_bind h
  obtain ⟨numBlocks, hblocks, h⟩ := of_bind h
  obtain ⟨htotal0, rfl⟩ := floorDiv_eq_ok.mp hblocks
  obtain ⟨tensors, htensors, h⟩ := of_bind h
  cases h
  have hnum : mayOverrideNumBlocks config (memory / total) = memory / total := by
    rw [mayOverrideNumBlocks, hoverride]
  rw [hnum] at htensors ⊢
  have hread : ∀ name ∈ names, ∃ spec, specs.get name = some spec ∧
      spec.pageSizeBytes dtypeSize = .ok (pageIn dtypeSize specs name) := by
    intro name hname
    obtain ⟨tensor, -, htensor⟩ := (mem_of_mapM htensors).2 name hname
    obtain ⟨spec, hspec, h⟩ := of_lookup htensor
    obtain ⟨page, hpage, -⟩ := of_bind h
    exact ⟨spec, hspec, pageIn_of_get hspec hpage ▸ hpage⟩
  obtain rfl : names.map (fun name => ⟨pageIn dtypeSize specs name * (memory / total), [name]⟩) =
      tensors := by
    refine map_eq_of_mapM htensors fun name _ tensor htensor => ?_
    obtain ⟨spec, hspec, h⟩ := of_lookup htensor
    obtain ⟨page, hpage, h⟩ := of_bind h
    cases h
    rw [pageIn_of_get hspec hpage]
  refine ⟨names.map (pageIn dtypeSize specs), rfl, ?_, ?_, ?_, ?_, ?_, ?_⟩
  · rw [flatMap_map, flatMap_singleton', flatMap_singleton]
  · intro tensor htensor
    obtain ⟨name, -, rfl⟩ := mem_map.mp htensor
    exact cons_ne_nil _ _
  · intro tensor htensor
    obtain ⟨name, hname, rfl⟩ := mem_map.mp htensor
    obtain ⟨i, hi⟩ := mem_iff_getElem?.mp hname
    refine ⟨i, fun other hother => ⟨_, mem_cons_self, ?_⟩⟩
    rw [mem_singleton.mp hother]
    exact hi
  · rw [forall₂_map_left_iff, forall₂_map_right_iff]
    refine forall₂_same.mpr fun name hname => ⟨rfl, fun other hother => ?_⟩
    obtain ⟨spec, hspec, hpage⟩ := hread name hname
    rw [mem_singleton.mp hother]
    exact ⟨_, mem_cons_self, hname, spec, hspec, hpage⟩
  · exact fun hmemory => Int.ediv_nonneg hmemory (Int.natCast_nonneg total)
  · intro hmemory
    have hle : (names.map (pageIn dtypeSize specs)).sum ≤ total := by
      rw [← sum_pageIn hnodup htotal]
      exact (hnames.map _).sum_le_sum fun _ _ => Nat.zero_le _
    calc ((names.map (pageIn dtypeSize specs)).sum : Int) * (memory / total)
        ≤ total * (memory / total) :=
          Int.mul_le_mul_of_nonneg_right (by exact_mod_cast hle)
            (Int.ediv_nonneg hmemory (Int.natCast_nonneg total))
      _ = memory / total * total := Int.mul_comm _ _
      _ ≤ memory := Int.ediv_mul_le _ (by omega)

variable {shrunk : KVCacheConfig D}

theorem shrinkConfig_eq {numBlocks : Int} (h : shrinkConfig numBlocks result = .ok shrunk) :
    shrunk = { result with
      numBlocks, kvCacheTensors := result.kvCacheTensors.map fun tensor =>
        { tensor with size := tensor.size / result.numBlocks * numBlocks } } ∧
    (result.numBlocks = 0 → result.kvCacheTensors = []) := by
  obtain ⟨tensors, htensors, h⟩ := of_bind h
  cases h
  have hshrink : ∀ tensor tensor', shrinkTensor result.numBlocks numBlocks tensor = .ok tensor' →
      { tensor with size := tensor.size / result.numBlocks * numBlocks } = tensor' ∧
        result.numBlocks ≠ 0 := by
    intro tensor tensor' h
    unfold shrinkTensor at h
    split at h
    · cases h
    · rename_i hold
      obtain ⟨_, _, h⟩ := of_bind h
      cases h
      exact ⟨rfl, hold⟩
  constructor
  · rw [map_eq_of_mapM htensors fun tensor _ tensor' h => (hshrink tensor tensor' h).1]
  · intro hzero
    refine eq_nil_iff_forall_not_mem.mpr fun tensor htensor => ?_
    obtain ⟨tensor', -, htensor'⟩ := (mem_of_mapM htensors).2 tensor htensor
    exact (hshrink tensor tensor' htensor').2 hzero

theorem Backs.shrink {pages : List Nat} (h : Backs dtypeSize groups memory pages result)
    {numBlocks : Int} (hnonneg : 0 ≤ numBlocks) (hle : numBlocks ≤ result.numBlocks)
    (hshrunk : shrinkConfig numBlocks result = .ok shrunk) :
    Backs dtypeSize groups memory pages shrunk := by
  obtain ⟨rfl, hempty⟩ := shrinkConfig_eq hshrunk
  refine ⟨h.groups_eq, ?_, ?_, ?_, ?_, fun _ => hnonneg, fun hmemory => ?_⟩
  · rw [flatMap_map]
    exact h.backed
  · intro tensor htensor
    obtain ⟨old, hold, rfl⟩ := mem_map.mp htensor
    exact h.inUse old hold
  · intro tensor htensor
    obtain ⟨old, hold, rfl⟩ := mem_map.mp htensor
    exact h.column old hold
  · grind [forall₂_map_right_iff, h.sizes.imp, Int.mul_ediv_cancel]
  · exact (Int.mul_le_mul_of_nonneg_left hle (Int.natCast_nonneg _)).trans (h.fits hmemory)

theorem backs_nil (memory : Int) :
    Backs dtypeSize ([] : List (KVCacheGroupSpec D)) memory [] ⟨1, [], []⟩ where
  groups_eq := rfl
  backed := .refl _
  inUse := nofun
  column := nofun
  sizes := .nil
  nonneg := fun _ => Int.one_nonneg
  fits := fun hmemory => hmemory

end Tensors

/-! ### All workers -/

section Workers

variable (dtypeSize : D → Nat)

structure LayoutSound (effective : SpecDict D) (numBlocks : Int) (worker : SpecDict D × Int)
    (config : KVCacheConfig D) : Prop where
  grouped : (config.kvCacheGroups.flatMap (·.layerNames)).Perm worker.1.keys
  covered : Covered effective config.kvCacheGroups
  adapted : ∀ item ∈ worker.1, ∃ spec, effective.get item.1 = some spec ∧
    Adapts dtypeSize item.2 spec
  backed : (config.kvCacheTensors.flatMap (·.sharedBy)).Perm worker.1.keys
  inUse : ∀ tensor ∈ config.kvCacheTensors, tensor.sharedBy ≠ []
  shared : ∀ tensor ∈ config.kvCacheTensors, ∀ group ∈ config.kvCacheGroups,
    ∀ name ∈ tensor.sharedBy, name ∈ group.layerNames →
      ∀ name' ∈ tensor.sharedBy, name' ∈ group.layerNames → name = name'
  blocks : config.numBlocks = numBlocks
  sizes : ∀ tensor ∈ config.kvCacheTensors, ∀ name ∈ tensor.sharedBy, ∃ spec page,
    effective.get name = some spec ∧ spec.pageSizeBytes dtypeSize = .ok page ∧
      tensor.size = page * numBlocks
  fits : (config.kvCacheTensors.map (·.size)).sum ≤ worker.2

variable {dtypeSize} {config : VllmConfig} {hybrid effective worker : SpecDict D}
  {groups : List (KVCacheGroupSpec D)} {memory : Int} {result : KVCacheConfig D}

theorem flatMap_workerGroups (groups : List (KVCacheGroupSpec D)) (worker : SpecDict D) :
    (workerGroups groups worker).flatMap (·.layerNames) =
      (groups.flatMap (·.layerNames)).filter fun name => name ∈ worker.keys := by
  rw [workerGroups, flatMap_map, filter_flatMap]

theorem workerGroups_perm (hgroups : (groups.flatMap (·.layerNames)).Perm effective.keys)
    (hnodup : effective.keys.Nodup) (hworker : worker.keys.Nodup)
    (hsub : ∀ name ∈ worker.keys, name ∈ effective.keys) :
    ((workerGroups groups worker).flatMap (·.layerNames)).Perm worker.keys := by
  rw [flatMap_workerGroups]
  refine (perm_ext_iff_of_nodup ((hgroups.nodup_iff.mpr hnodup).filter _) hworker).mpr ?_
  intro name
  rw [mem_filter, hgroups.mem_iff, decide_eq_true_iff]
  exact ⟨fun h => h.2, fun h => ⟨hsub name h, h⟩⟩

theorem GroupSpec.Covers.pageSizeBytes_eq {group : GroupSpec D} {spec spec' : LayerSpec D}
    (h : group.Covers name spec) (h' : group.Covers name spec') :
    spec.pageSizeBytes dtypeSize = spec'.pageSizeBytes dtypeSize := by
  cases group with
  | single groupSpec => exact LayerSpec.pageSizeBytes_of_layout_eq (h.symm.trans h')
  | uniformType specs => rw [Option.some.inj (h.symm.trans h')]

theorem eq_of_mem_layerNames (hnodup : (groups.flatMap (·.layerNames)).Nodup)
    {group group' : KVCacheGroupSpec D} (hgroup : group ∈ groups) (hgroup' : group' ∈ groups)
    (hname : name ∈ group.layerNames) (hname' : name ∈ group'.layerNames) : group = group' := by
  by_contra hne
  have : Std.Symm (Function.onFun Disjoint fun group : KVCacheGroupSpec D =>
      group.layerNames) := ⟨fun _ _ hdisjoint _ h h' => hdisjoint h' h⟩
  exact (nodup_flatMap.mp hnodup).2.forall hgroup hgroup' hne hname hname'

variable {pages : List Nat} {availableMemory : List Int}

section

variable (h : Backs dtypeSize groups memory pages result)
include h

theorem Backs.sum_sizes :
    (result.kvCacheTensors.map (·.size)).sum = pages.sum * result.numBlocks := by
  have hsizes := h.sizes
  generalize result.kvCacheTensors = tensors at hsizes
  clear h
  induction hsizes with
  | nil => simp
  | cons hpage _ ih =>
    rw [map_cons, sum_cons, sum_cons, ih, hpage.1, Int.natCast_add, Int.add_mul]

theorem Backs.layoutSound (hworker : worker.keys.Nodup)
    (hgroups : (groups.flatMap (·.layerNames)).Perm worker.keys)
    (hcovered : Covered effective groups)
    (hadapted : ∀ item ∈ worker, ∃ spec, effective.get item.1 = some spec ∧
      Adapts dtypeSize item.2 spec)
    (hmemory : 0 ≤ memory) :
    LayoutSound dtypeSize effective result.numBlocks (worker, memory) result where
  grouped := h.groups_eq ▸ hgroups
  covered := h.groups_eq ▸ hcovered
  adapted := hadapted
  backed := h.backed.trans hgroups
  inUse := h.inUse
  shared := by
    rw [h.groups_eq]
    intro tensor htensor group hgroup name hname hin name' hname' hin'
    obtain ⟨i, hcolumn⟩ := h.column tensor htensor
    -- both layers are number `i` of the group
    have hplace : ∀ other ∈ tensor.sharedBy, other ∈ group.layerNames →
        group.layerNames[i]? = some other := by
      grind [eq_of_mem_layerNames]
    exact Option.some.inj ((hplace name hname hin).symm.trans (hplace name' hname' hin'))
  blocks := rfl
  sizes := by
    intro tensor htensor name hname
    obtain ⟨page, -, hsize, hpage⟩ := exists_of_forall₂ h.sizes.flip htensor
    obtain ⟨group, hgroup, hin, spec, hcovers, hpage⟩ := hpage name hname
    obtain ⟨spec', hspec', hcovers'⟩ := hcovered group hgroup name hin
    exact ⟨spec', page, hspec', hcovers'.pageSizeBytes_eq hcovers ▸ hpage, hsize⟩
  fits := by
    rw [h.sum_sizes]
    exact h.fits hmemory

end

theorem covered_workerGroups (h : Covered effective groups) (worker : SpecDict D) :
    Covered effective (workerGroups groups worker) := by
  intro group hgroup name hname
  obtain ⟨global, hglobal, rfl⟩ := mem_map.mp hgroup
  exact h global hglobal name (mem_filter.mp hname).1

variable {workers : List (SpecDict D × Int)}

theorem covered_of_workerGroups
    (horigin : ∀ group ∈ groups, ∀ name ∈ group.layerNames, ∃ worker ∈ workers, name ∈
      worker.1.keys) (h : ∀ worker ∈ workers, Covered effective (workerGroups groups worker.1)) :
    Covered effective groups := by
  intro group hgroup name hname
  obtain ⟨worker, hworker, hmem⟩ := horigin group hgroup name hname
  exact h worker hworker _ (mem_map_of_mem hgroup) name
    (mem_filter.mpr ⟨hname, decide_eq_true hmem⟩)

theorem le_of_minMemory {least : Int} (h : minMemory availableMemory = .ok least) :
    ∀ memory ∈ availableMemory, least ≤ memory := by
  unfold minMemory at h
  split at h
  · rename_i hmin
    cases h
    exact (le_min?_iff hmin).mp le_rfl
  · cases h

theorem checkMemory_pos (hne : groups ≠ [])
    (h : checkMemory dtypeSize config groups availableMemory = .ok ()) :
    ∀ memory ∈ availableMemory, 0 < memory := by
  rw [checkMemory, if_neg hne] at h
  obtain ⟨least, hleast, h⟩ := of_bind h
  unfold checkEnoughKvCacheMemory at h
  split at h
  · cases h
  · rename_i hpos
    exact fun memory hmemory => (not_le.mp hpos).trans_le (le_of_minMemory hleast memory hmemory)

theorem fitMaxModelLen_override {config config' : VllmConfig}
    (h : fitMaxModelLen dtypeSize config groups availableMemory = .ok config') :
    config'.numGpuBlocksOverride = config.numGpuBlocksOverride := by
  unfold fitMaxModelLen autoFitMaxModelLen at h
  split at h
  · split at h
    · cases h
      rfl
    · obtain ⟨_, _, h⟩ := of_bind h
      obtain ⟨_, _, h⟩ := of_bind h
      split at h
      · cases h
      · split at h
        · cases h
          rfl
        · cases h
          rfl
  · cases h
    rfl

variable [DecidableEq D]

theorem backs_workerConfig (hoverride : config.numGpuBlocksOverride = none)
    (hgrouping : Grouping hybrid effective groups) (hnodup : effective.keys.Nodup)
    (h : workerConfig dtypeSize config groups worker memory = .ok result) :
    ∃ pages, Backs dtypeSize (workerGroups groups worker) memory pages result := by
  obtain ⟨_, _, h⟩ := of_bind h
  rcases hgrouping.shape with ⟨rfl, -⟩ | hsingle
  · exact backs_uniformType hoverride hnodup filter_sublist h
  · by_cases hne : groups = []
    · subst hne
      cases h
      exact ⟨[], backs_nil memory⟩
    · refine backs_groups hoverride (fun group hgroup => ?_) (by simpa [workerGroups] using hne) h
      obtain ⟨global, hglobal, rfl⟩ := mem_map.mp hgroup
      exact hsingle global hglobal

/-- Specs that are merged are stored in one way, and workers without layers have no negative
memory, which nothing checks. -/
structure LayoutCondition (hybrid : SpecDict D) (workers : List (SpecDict D × Int)) : Prop where
  merges : MergesExactly hybrid
  memory : hybrid = [] → ∀ worker ∈ workers, 0 ≤ worker.2

theorem getKvCacheConfigs_cases {fitted : VllmConfig} {configs : List (KVCacheConfig D)}
    (h : getKvCacheConfigs dtypeSize config (workers.map Prod.fst) (workers.map Prod.snd) = .ok
      (fitted, configs)) :
    ∃ merged groups initial numBlocks,
      (workers.map Prod.fst).foldlM mergeWorkerSpecs [] = .ok merged ∧
      getKvCacheGroups dtypeSize config merged = .ok groups ∧
      fitted.numGpuBlocksOverride = config.numGpuBlocksOverride ∧
      checkMemory dtypeSize fitted groups (workers.map Prod.snd) = .ok () ∧
      (initial.map (·.numBlocks)).min? = some numBlocks ∧
      Forall₂ (fun worker result =>
        workerConfig dtypeSize fitted groups worker.1 worker.2 = .ok result) workers initial ∧
      Forall₂ (fun result shrunk => shrinkConfig numBlocks result = .ok shrunk)
        initial configs := by
  obtain ⟨merged, hmerged, h⟩ := of_bind h
  obtain ⟨groups, hgroups, h⟩ := of_bind h
  obtain ⟨config', hfit, h⟩ := of_bind h
  obtain ⟨_, hcheck, h⟩ := of_bind h
  obtain ⟨initial, hinitial, h⟩ := of_bind h
  split at h
  · cases h
  · grind [fitMaxModelLen_override, forall₂_of_mapM, bind_eq_ok]

/-- The layout of an accepted configuration is sound exactly under the condition. -/
theorem layout_sound_iff (dtypeSize : D → Nat) (config : VllmConfig)
    (workers : List (SpecDict D × Int)) (hworkers : ∀ worker ∈ workers, worker.1.keys.Nodup)
    (hoverride : config.numGpuBlocksOverride = none) {fitted : VllmConfig}
    {configs : List (KVCacheConfig D)} (haccepted : getKvCacheConfigs dtypeSize config
      (workers.map Prod.fst) (workers.map Prod.snd) = .ok (fitted, configs)) :
    ∃ merged hybrid effective,
      (workers.map Prod.fst).foldlM mergeWorkerSpecs [] = .ok merged ∧
      hybridSpecs config merged = .ok hybrid ∧ effectiveSpecs dtypeSize hybrid = .ok effective ∧
      ((∃ numBlocks, Forall₂ (LayoutSound dtypeSize effective numBlocks) workers configs) ↔
        LayoutCondition hybrid workers) := by
  obtain ⟨merged, groups, initial, numBlocks, hmerged, hgroups, hfitted, hcheck, hmin, hinitial,
    hshrunk⟩ := getKvCacheConfigs_cases haccepted
  obtain ⟨hybrid, effective, hhybrid, heffective, hgrouping⟩ := getKvCacheGroups_grouping hgroups
  refine ⟨merged, hybrid, effective, hmerged, hhybrid, heffective, ?_⟩
  obtain ⟨hkeys, hadapts⟩ := effectiveSpecs_adapts hhybrid heffective
  have hempty : (keys ([] : SpecDict D)).Nodup := nodup_nil
  have hcollects := foldlM_mergeWorkerSpecs_collects hempty hmerged
  have hnodup : effective.keys.Nodup := hkeys ▸ hcollects.nodup
  have hadapted : ∀ worker ∈ workers, ∀ item ∈ worker.1, ∃ spec,
      effective.get item.1 = some spec ∧ Adapts dtypeSize item.2 spec := by
    intro worker hworker item hitem
    exact hadapts _ _ (hcollects.added _ (mem_map_of_mem hworker) item hitem)
  have hsub : ∀ worker ∈ workers, ∀ name ∈ worker.1.keys, name ∈ effective.keys := by
    intro worker hworker name hname
    obtain ⟨item, hitem, rfl⟩ := mem_map.mp hname
    obtain ⟨spec, hspec, -⟩ := hadapted worker hworker item hitem
    exact mem_keys_of_get hspec
  have hbacks : ∀ (worker : SpecDict D × Int) result,
      workerConfig dtypeSize fitted groups worker.1 worker.2 =
      .ok result → ∃ pages, Backs dtypeSize (workerGroups groups worker.1) worker.2 pages result :=
    fun worker result h => backs_workerConfig (hfitted.trans hoverride) hgrouping hnodup h
  have hpairs := forall₂_comp hinitial hshrunk
  constructor
  · rintro ⟨blocks, hsound⟩
    constructor
    · have horigin : ∀ group ∈ groups, ∀ name ∈ group.layerNames,
          ∃ worker ∈ workers, name ∈ worker.1.keys := by
        intro group hgroup name hname
        have hmem : name ∈ merged.keys :=
          hkeys ▸ hgrouping.layerNames_perm.mem_iff.mp (mem_flatMap.mpr ⟨group, hgroup, hname⟩)
        rcases hcollects.origin name hmem with hnone | ⟨specs, hspecs, hname⟩
        · cases hnone
        · obtain ⟨worker, hworker, rfl⟩ := mem_map.mp hspecs
          exact ⟨worker, hworker, hname⟩
      refine (hgrouping.covered_iff hnodup).mp
        (covered_of_workerGroups horigin fun worker hworker => ?_)
      obtain ⟨shrunk, -, hsound, result, -, hresult, hshrink⟩ :=
        exists_of_forall₂ (forall₂_and hsound hpairs) hworker
      obtain ⟨pages, hbacks⟩ := hbacks worker result hresult
      have hgroups : shrunk.kvCacheGroups = workerGroups groups worker.1 := by
        rw [(shrinkConfig_eq hshrink).1, hbacks.groups_eq]
      exact hgroups ▸ hsound.covered
    · rintro rfl worker hworker
      obtain ⟨shrunk, -, hsound⟩ := exists_of_forall₂ hsound hworker
      obtain rfl : effective = [] :=
        forall₂_nil_left_iff.mp (effectiveSpecs_scales heffective)
      have hnone : worker.1.keys = [] :=
        eq_nil_iff_forall_not_mem.mpr fun name hname => by cases hsub worker hworker name hname
      have htensors : shrunk.kvCacheTensors = [] := by
        refine eq_nil_iff_forall_not_mem.mpr fun tensor htensor => ?_
        have hnil := hnone ▸ hsound.backed
        exact hsound.inUse tensor htensor (flatMap_eq_nil_iff.mp hnil.eq_nil tensor htensor)
      have hfits := hsound.fits
      rwa [htensors] at hfits
  · intro hcondition
    have hmemory : ∀ worker ∈ workers, 0 ≤ worker.2 := by
      by_cases hgroups : groups = []
      · refine hcondition.memory ?_
        have hnone : effective.keys = [] := by
          have hperm := hgrouping.layerNames_perm
          rw [hgroups] at hperm
          exact hperm.nil_eq.symm
        have hscales := effectiveSpecs_scales heffective
        rw [map_eq_nil_iff.mp hnone] at hscales
        exact forall₂_nil_right_iff.mp hscales
      · exact fun worker hworker =>
          (checkMemory_pos hgroups hcheck _ (mem_map_of_mem hworker)).le
    have hnonneg : 0 ≤ numBlocks := by
      obtain ⟨result, hresult, rfl⟩ := mem_map.mp (min?_mem hmin)
      obtain ⟨worker, hworker, hconfig⟩ := exists_of_forall₂ hinitial.flip hresult
      obtain ⟨pages, hbacks⟩ := hbacks worker result hconfig
      exact hbacks.nonneg (hmemory worker hworker)
    refine ⟨numBlocks, ?_⟩
    refine ((forall₂_and_left _ _).mpr ⟨fun _ h => h, hpairs⟩).imp ?_
    rintro worker shrunk ⟨hworker, result, hresult, hconfig, hshrink⟩
    obtain ⟨pages, hbacks⟩ := hbacks worker result hconfig
    have hle : numBlocks ≤ result.numBlocks :=
      (le_min?_iff hmin).mp le_rfl _ (mem_map_of_mem hresult)
    have hsound := (hbacks.shrink hnonneg hle hshrink).layoutSound (hworkers worker hworker)
      (workerGroups_perm hgrouping.layerNames_perm hnodup (hworkers worker hworker)
        (hsub worker hworker))
      (covered_workerGroups ((hgrouping.covered_iff hnodup).mpr hcondition.merges) worker.1)
      (hadapted worker hworker) (hmemory worker hworker)
    have hblocks : shrunk.numBlocks = numBlocks := by rw [(shrinkConfig_eq hshrink).1]
    rwa [hblocks] at hsound

end Workers

/-! ### Two layers -/

def smallLayer (headSizeV : Nat) : LayerSpec Unit :=
  .fullAttention ⟨1, 1, 1, (), none⟩ ⟨headSizeV, none, none⟩

def smallConfig : VllmConfig where
  maxModelLen := 1
  originalMaxModelLen := 1
  maxNumBatchedTokens := 1
  maxNumEncoderInputTokens := 0
  decodeContextParallelSize := 1
  prefillContextParallelSize := 1
  mambaCacheMode := .none
  numGpuBlocksOverride := none
  disableHybridKvCacheManager := false

def evenWorkers : List (SpecDict Unit × Int) :=
  [([("a", smallLayer 1), ("b", smallLayer 1)], 8), ([("a", smallLayer 1)], 6)]

def unevenWorker : List (SpecDict Unit × Int) :=
  [([("a", smallLayer 1), ("b", smallLayer 3)], 8)]

theorem layout_sound_even : ∃ fitted configs,
    getKvCacheConfigs (fun _ => 1) smallConfig (evenWorkers.map Prod.fst)
      (evenWorkers.map Prod.snd) = .ok (fitted, configs) ∧
    ∃ merged hybrid effective,
      (evenWorkers.map Prod.fst).foldlM mergeWorkerSpecs [] = .ok merged ∧
      hybridSpecs smallConfig merged = .ok hybrid ∧
      effectiveSpecs (fun _ => 1) hybrid = .ok effective ∧
      ((∃ numBlocks, Forall₂ (LayoutSound (fun _ => 1) effective numBlocks) evenWorkers
        configs) ↔ LayoutCondition hybrid evenWorkers) := by
  have hrun : getKvCacheConfigs (fun _ => 1) smallConfig (evenWorkers.map Prod.fst)
      (evenWorkers.map Prod.snd) = .ok (_, _) := rfl
  exact ⟨_, _, hrun, layout_sound_iff (fun _ => 1) smallConfig evenWorkers (by decide) rfl hrun⟩

/-- The tensor of the second layer has the pages of the first one, which are too small. -/
theorem uneven_layout_unsound : ∃ fitted configs,
    getKvCacheConfigs (fun _ => 1) smallConfig (unevenWorker.map Prod.fst)
      (unevenWorker.map Prod.snd) = .ok (fitted, configs) ∧
    ∀ merged hybrid effective,
      (unevenWorker.map Prod.fst).foldlM mergeWorkerSpecs [] = .ok merged →
      hybridSpecs smallConfig merged = .ok hybrid →
      effectiveSpecs (fun _ => 1) hybrid = .ok effective →
      ¬ ∃ numBlocks, Forall₂ (LayoutSound (fun _ => 1) effective numBlocks) unevenWorker
        configs := by
  refine ⟨_, _, rfl, ?_⟩
  rintro merged hybrid effective hmerged hhybrid heffective ⟨numBlocks, hsound⟩
  cases hmerged
  cases hhybrid
  cases heffective
  cases hsound with
  | cons hsound _ =>
    obtain ⟨spec, page, hspec, hpage, hsize⟩ :=
      hsound.sizes _ (mem_cons_of_mem _ mem_cons_self) "b" mem_cons_self
    have hblocks := hsound.blocks
    cases hspec
    cases hpage
    cases hblocks
    exact absurd hsize (by decide)

end LongCtxSpecDecode
