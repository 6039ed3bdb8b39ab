import LongCtxSpecDecode.KVCacheConfigs
import LongCtxSpecDecode.KVCacheOwnership

/-!
# The groups of the layers

What `get_kv_cache_groups` makes of the merged specs of the workers: how the spec of a layer is
adapted, that every layer is in one group, and when the spec of its group says how the layer is
stored.
-/

namespace LongCtxSpecDecode

open Library ExceptLoop List OrderedDict

variable {D : Type}

theorem of_lookup {β : Type} {found : Option (LayerSpec D)} {name : String}
    {k : LayerSpec D → Except Exn β} {b : β}
    (h : (match found with
      | some spec => k spec
      | none => .error (.keyError name)) = .ok b) : ∃ spec, found = some spec ∧ k spec = .ok b := by
  cases found with
  | none => cases h
  | some spec => exact ⟨spec, rfl, h⟩

/-! ### Storage -/

namespace LayerSpec

/-- What the spec of a layer says about the storage of its keys and values. The windows of a full
attention spec do not matter to it. -/
def layout : LayerSpec D → LayerSpec D
  | fullAttention spec full =>
    fullAttention spec { full with slidingWindow := none, attentionChunkSize := none }
  | sinkFullAttention spec full sinkLen =>
    sinkFullAttention spec { full with slidingWindow := none, attentionChunkSize := none } sinkLen
  | mlaAttention spec _ cacheDtypeStr => mlaAttention spec
      { headSizeV := spec.headSize, slidingWindow := none, attentionChunkSize := none }
      cacheDtypeStr
  | spec => spec

variable {dtypeSize : D → Nat} {spec spec' : LayerSpec D}

theorem pageSizeBytes_layout (dtypeSize : D → Nat) (spec : LayerSpec D) :
    spec.layout.pageSizeBytes dtypeSize = spec.pageSizeBytes dtypeSize := by
  cases spec <;> rfl

theorem pageSizeBytes_of_layout_eq (h : spec.layout = spec'.layout) :
    spec.pageSizeBytes dtypeSize = spec'.pageSizeBytes dtypeSize := by
  rw [← pageSizeBytes_layout, h, pageSizeBytes_layout]

theorem withBlockSize_blockSize (spec : LayerSpec D) :
    spec.withBlockSize spec.blockSize = spec := by
  cases spec <;> rfl

variable [DecidableEq D]

theorem mergeFullFields_eq {first : AttentionSpec D} {firstFull : FullAttention}
    {specs : List (LayerSpec D)} {merged : AttentionSpec D × FullAttention}
    (h : mergeFullFields first firstFull specs = .ok merged) :
    merged.1 = first ∧ merged.2.headSizeV = firstFull.headSizeV := by
  obtain ⟨_, _, h⟩ := of_bind h
  obtain ⟨_, _, h⟩ := of_bind h
  obtain ⟨_, _, h⟩ := of_bind h
  obtain ⟨_, _, h⟩ := of_bind h
  obtain ⟨_, _, h⟩ := of_bind h
  obtain ⟨_, _, h⟩ := of_bind h
  cases h
  exact ⟨rfl, rfl⟩

theorem merge_layout {specs : List (LayerSpec D)} {merged : LayerSpec D}
    (h : merge specs = .ok merged) :
    ∃ first, specs.head? = some first ∧ merged.layout = first.layout := by
  unfold merge at h
  split at h
  · cases h
  · rename_i spec full hhead
    obtain ⟨⟨spec', full'⟩, hfields, h⟩ := of_bind h
    cases h
    obtain ⟨rfl, hv⟩ := mergeFullFields_eq hfields
    refine ⟨_, hhead, ?_⟩
    rw [layout, layout, hv]
  · rename_i spec full sinkLen hhead
    obtain ⟨⟨spec', full'⟩, hfields, h⟩ := of_bind h
    cases h
    obtain ⟨rfl, hv⟩ := mergeFullFields_eq hfields
    refine ⟨_, hhead, ?_⟩
    rw [layout, layout, hv]
  · rename_i hhead
    obtain ⟨_, _, h⟩ := of_bind h
    obtain ⟨_, _, h⟩ := of_bind h
    cases h
    exact ⟨_, hhead, rfl⟩
  · rename_i hhead
    obtain ⟨_, _, h⟩ := of_bind h
    cases h
    exact ⟨_, hhead, rfl⟩

end LayerSpec

/-! ### Adapted specs -/

section Adapt

variable (dtypeSize : D → Nat)

/-- A spec whose blocks are larger by a factor, and whose pages are larger by the same factor. -/
def Scales (spec scaled : LayerSpec D) : Prop :=
  ∃ ratio > 0, scaled = spec.withBlockSize (spec.blockSize * ratio) ∧
    scaled.pageSizeBytes dtypeSize = (spec.pageSizeBytes dtypeSize).map (· * ratio)

def Adapts (spec adapted : LayerSpec D) : Prop :=
  ∃ base, (base = spec ∨ base = asFullAttention spec) ∧ Scales dtypeSize base adapted

variable {dtypeSize} {spec scaled : LayerSpec D}

theorem Scales.refl (spec : LayerSpec D) : Scales dtypeSize spec spec := by
  refine ⟨1, Nat.one_pos, ?_, ?_⟩
  · rw [Nat.mul_one, LayerSpec.withBlockSize_blockSize]
  · cases spec.pageSizeBytes dtypeSize with
    | error e => rfl
    | ok page => exact congrArg Except.ok (Nat.mul_one page).symm

theorem unifyPageSize_scales {maxPageSize page : Nat}
    (hpage : spec.pageSizeBytes dtypeSize = .ok page)
    (hle : page ≤ maxPageSize) (h : unifyPageSize dtypeSize maxPageSize spec = .ok scaled) :
    Scales dtypeSize spec scaled := by
  unfold unifyPageSize at h
  rw [hpage, ok_bind] at h
  split at h
  · cases h
    exact .refl spec
  · split at h
    · cases h
    · rename_i hne hzero
      split at h
      · cases h
      · rename_i hmod
        obtain ⟨newPage, hnew, h⟩ := of_bind h
        obtain ⟨_, heq, h⟩ := of_bind h
        cases h
        have hdvd : page * (maxPageSize / page) = maxPageSize :=
          Nat.mul_div_cancel' (Nat.dvd_of_mod_eq_zero (not_not.mp hmod))
        refine ⟨maxPageSize / page, Nat.div_pos hle (Nat.pos_of_ne_zero hzero), rfl, ?_⟩
        rw [hnew, require_eq_ok.mp heq, hpage]
        exact congrArg Except.ok hdvd.symm

end Adapt

/-! ### The specs of all workers -/

section Merged

variable [DecidableEq D] {merged worker : SpecDict D}

/-- The specs that `merged` has are kept, and the workers' are added to them. -/
structure Collects (before : SpecDict D) (workers : List (SpecDict D)) (merged : SpecDict D) :
    Prop where
  nodup : merged.keys.Nodup
  kept : ∀ name spec, before.get name = some spec → merged.get name = some spec
  added : ∀ worker ∈ workers, ∀ item ∈ worker, merged.get item.1 = some item.2
  origin : ∀ name ∈ merged.keys, name ∈ before.keys ∨ ∃ worker ∈ workers, name ∈ worker.keys

theorem mergeWorkerSpecs_collects (hmerged : merged.keys.Nodup) {merged' : SpecDict D}
    (h : mergeWorkerSpecs merged worker = .ok merged') : Collects merged [worker] merged' := by
  unfold mergeWorkerSpecs at h
  induction worker generalizing merged with
  | nil =>
    cases h
    exact ⟨hmerged, fun _ _ h => h, by simp, fun name hname => .inl hname⟩
  | cons item worker ih =>
    rw [foldlM_cons] at h
    obtain ⟨next, hnext, hrest⟩ := of_bind h
    -- after the first item its name has its spec, and no other name has changed
    have hstep : next.keys.Nodup ∧ (∀ name spec, merged.get name = some spec →
        next.get name = some spec) ∧ next.get item.1 = some item.2 ∧
        ∀ name ∈ next.keys, name ∈ merged.keys ∨ name = item.1 := by
      split at hnext
      · rename_i hnone
        cases hnext
        refine ⟨keys_set_nodup hmerged _ _, fun name spec hspec => ?_, ?_, ?_⟩
        · rw [get_set, if_neg, hspec]
          rintro rfl
          rw [hnone] at hspec
          cases hspec
        · rw [get_set, if_pos rfl]
        · intro name hname
          rw [keys_set_of_notMem (get_eq_none.mp hnone)] at hname
          rcases mem_append.mp hname with hname | hname
          · exact .inl hname
          · exact .inr (mem_singleton.mp hname)
      · rename_i spec hspec
        obtain ⟨_, heq, hnext⟩ := of_bind hnext
        cases hnext
        exact ⟨hmerged, fun _ _ h => h, require_eq_ok.mp heq ▸ hspec, fun _ h => .inl h⟩
    obtain ⟨hnodup, hkept, hitem, horigin⟩ := hstep
    have hcollects := ih hnodup hrest
    refine ⟨hcollects.nodup, fun name spec h => hcollects.kept _ _ (hkept name spec h), ?_, ?_⟩
    · rintro _ (_ | ⟨_, hmem⟩) other hother
      · rcases mem_cons.mp hother with rfl | hother
        · exact hcollects.kept _ _ hitem
        · exact hcollects.added worker mem_cons_self other hother
      · cases hmem
    · intro name hname
      rcases hcollects.origin name hname with hold | ⟨w, hw, hnew⟩
      · rcases horigin name hold with hold | rfl
        · exact .inl hold
        · exact .inr ⟨_, mem_cons_self, mem_cons_self⟩
      · obtain rfl := mem_singleton.mp hw
        exact .inr ⟨_, mem_cons_self, mem_cons_of_mem _ hnew⟩

theorem foldlM_mergeWorkerSpecs_collects {workers : List (SpecDict D)}
    (hmerged : merged.keys.Nodup) {merged' : SpecDict D}
    (h : workers.foldlM mergeWorkerSpecs merged = .ok merged') :
    Collects merged workers merged' := by
  induction workers generalizing merged with
  | nil =>
    cases h
    exact ⟨hmerged, fun _ _ h => h, by simp, fun name hname => .inl hname⟩
  | cons worker workers ih =>
    obtain ⟨next, hnext, hrest⟩ := of_bind h
    have hfirst := mergeWorkerSpecs_collects hmerged hnext
    have hothers := ih hfirst.nodup hrest
    refine ⟨hothers.nodup, fun name spec h => hothers.kept _ _ (hfirst.kept _ _ h), ?_, ?_⟩
    · rintro w (_ | ⟨_, hw⟩) item hitem
      · exact hothers.kept _ _ (hfirst.added worker mem_cons_self item hitem)
      · exact hothers.added w hw item hitem
    · intro name hname
      rcases hothers.origin name hname with hold | ⟨w, hw, hnew⟩
      · rcases hfirst.origin name hold with hold | ⟨w, hw, hnew⟩
        · exact .inl hold
        · obtain rfl := mem_singleton.mp hw
          exact .inr ⟨_, mem_cons_self, hnew⟩
      · exact .inr ⟨w, mem_cons_of_mem _ hw, hnew⟩

end Merged

/-! ### The specs that are grouped -/

section Effective

variable [DecidableEq D] (dtypeSize : D → Nat)

def effectiveSpecs (hybrid : SpecDict D) : Except Exn (SpecDict D) := do
  if hybrid = [] then .ok hybrid
  else if ← isKvCacheSpecUniform hybrid then .ok hybrid
  else if ← isUniformType hybrid then .ok hybrid
  else unifyKvCacheSpecPageSize dtypeSize hybrid

theorem hybridSpecs_cases {config : VllmConfig} {merged hybrid : SpecDict D}
    (h : hybridSpecs config merged = .ok hybrid) :
    hybrid = merged ∨ hybrid = merged.mapValues asFullAttention := by
  unfold hybridSpecs at h
  split at h
  · obtain ⟨uniform, _, h⟩ := of_bind h
    split at h
    · cases h
      exact .inl rfl
    · obtain ⟨uniformType, _, h⟩ := of_bind h
      split at h
      · cases h
        exact .inl rfl
      · -- the converted specs are returned if they are uniform in one way or the other
        have hreturned : hybrid = if (merged.any fun item => item.2.isFullAttention) ∧
            (merged.any fun item => isLocal item.2) then merged.mapValues asFullAttention
            else merged := by
          obtain ⟨uniform, _, h⟩ := of_bind h
          split at h
          · cases h
            rfl
          · obtain ⟨uniformType, _, h⟩ := of_bind h
            split at h
            · cases h
              rfl
            · cases h
        rw [hreturned]
        split
        · exact .inr rfl
        · exact .inl rfl
  · cases h
    exact .inl rfl

variable {dtypeSize}

omit [DecidableEq D] in
theorem unifyKvCacheSpecPageSize_scales {specs scaled : SpecDict D}
    (h : unifyKvCacheSpecPageSize dtypeSize specs = .ok scaled) :
    Forall₂ (fun item item' => item'.1 = item.1 ∧ Scales dtypeSize item.2 item'.2)
      specs scaled := by
  obtain ⟨pageSizes, hpages, h⟩ := of_bind h
  split at h
  · cases h
    exact forall₂_same.mpr fun item _ => ⟨rfl, .refl item.2⟩
  · have hscaled := forall₂_of_mapM h
    have hle : ∀ item ∈ specs, ∃ page, item.2.pageSizeBytes dtypeSize = .ok page ∧
        page ≤ pageSizes.max?.getD 0 := by
      intro item hitem
      obtain ⟨page, hpage, hok⟩ := (mem_of_mapM hpages).2 item hitem
      exact ⟨page, hok, le_max?_getD_of_mem hpage⟩
    refine ((forall₂_and_left _ _).mpr ⟨hle, hscaled⟩).imp ?_
    rintro item item' ⟨⟨page, hpage, hle⟩, hscaled⟩
    obtain ⟨spec, hspec, hitem⟩ := of_bind hscaled
    cases hitem
    exact ⟨rfl, unifyPageSize_scales hpage hle hspec⟩

theorem effectiveSpecs_scales {hybrid effective : SpecDict D}
    (h : effectiveSpecs dtypeSize hybrid = .ok effective) :
    Forall₂ (fun item item' => item'.1 = item.1 ∧ Scales dtypeSize item.2 item'.2)
      hybrid effective := by
  have hsame : Forall₂ (fun item item' => item'.1 = item.1 ∧ Scales dtypeSize item.2 item'.2)
      hybrid hybrid := forall₂_same.mpr fun item _ => ⟨rfl, .refl item.2⟩
  unfold effectiveSpecs at h
  split at h
  · cases h
    exact hsame
  · obtain ⟨uniform, _, h⟩ := of_bind h
    split at h
    · cases h
      exact hsame
    · obtain ⟨uniformType, _, h⟩ := of_bind h
      split at h
      · cases h
        exact hsame
      · exact unifyKvCacheSpecPageSize_scales h

theorem effectiveSpecs_adapts {config : VllmConfig} {merged hybrid effective : SpecDict D}
    (hhybrid : hybridSpecs config merged = .ok hybrid)
    (heffective : effectiveSpecs dtypeSize hybrid = .ok effective) :
    effective.keys = merged.keys ∧ ∀ name spec, merged.get name = some spec →
      ∃ adapted, effective.get name = some adapted ∧ Adapts dtypeSize spec adapted := by
  have hscales := effectiveSpecs_scales heffective
  rcases hybridSpecs_cases hhybrid with rfl | rfl
  · refine ⟨keys_of_forall₂ hscales, fun name spec hspec => ?_⟩
    obtain ⟨scaled, hscaled, hscales⟩ := get_of_forall₂ hscales hspec
    exact ⟨scaled, hscaled, spec, .inl rfl, hscales⟩
  · refine ⟨(keys_of_forall₂ hscales).trans (keys_mapValues _ _),
      fun name spec hspec => ?_⟩
    have hfull : (merged.mapValues asFullAttention).get name = some (asFullAttention spec) := by
      rw [get_mapValues, hspec]
      rfl
    obtain ⟨scaled, hscaled, hscales⟩ := get_of_forall₂ hscales hfull
    exact ⟨scaled, hscaled, asFullAttention spec, .inr rfl, hscales⟩

end Effective

/-! ### Groups -/

section Groups

variable [DecidableEq D]

def GroupSpec.Covers : GroupSpec D → String → LayerSpec D → Prop
  | .single groupSpec, _, spec => groupSpec.layout = spec.layout
  | .uniformType specs, name, spec => specs.get name = some spec

def MergesExactly (hybrid : SpecDict D) : Prop :=
  isKvCacheSpecUniform hybrid = .ok true →
    ∀ item ∈ hybrid, ∀ item' ∈ hybrid, item.2.layout = item'.2.layout

def Covered (effective : SpecDict D) (groups : List (KVCacheGroupSpec D)) : Prop :=
  ∀ group ∈ groups, ∀ name ∈ group.layerNames,
    ∃ spec, effective.get name = some spec ∧ group.kvCacheSpec.Covers name spec

/-- The ways of `get_kv_cache_groups` to group the layers. -/
inductive Grouping (hybrid : SpecDict D) : SpecDict D → List (KVCacheGroupSpec D) → Prop
  | empty (hempty : hybrid = []) : Grouping hybrid hybrid []
  | uniform {groups : List (KVCacheGroupSpec D)} (huniform : isKvCacheSpecUniform hybrid = .ok true)
      (hgroups : createKvCacheGroupSpecs hybrid [hybrid.keys] = .ok groups) :
      Grouping hybrid hybrid groups
  | uniformType (huniform : isKvCacheSpecUniform hybrid = .ok false)
      (htype : isUniformType hybrid = .ok true) :
      Grouping hybrid hybrid [⟨hybrid.keys, .uniformType hybrid⟩]
  | uniformPageSize {effective : SpecDict D} {groups : List (KVCacheGroupSpec D)}
      (huniform : isKvCacheSpecUniform hybrid = .ok false)
      (hgroups : getKvCacheGroupsUniformPageSize effective = .ok groups) :
      Grouping hybrid effective groups

variable {dtypeSize : D → Nat} {config : VllmConfig} {merged hybrid effective : SpecDict D}
  {groups : List (KVCacheGroupSpec D)}

theorem getKvCacheGroups_grouping (h : getKvCacheGroups dtypeSize config merged = .ok groups) :
    ∃ hybrid effective, hybridSpecs config merged = .ok hybrid ∧
      effectiveSpecs dtypeSize hybrid = .ok effective ∧ Grouping hybrid effective groups := by
  obtain ⟨hybrid, hhybrid, h⟩ := of_bind h
  refine ⟨hybrid, ?_⟩
  unfold effectiveSpecs
  split at h
  · rename_i hempty
    cases h
    exact ⟨hybrid, hhybrid, if_pos hempty, .empty hempty⟩
  · rename_i hempty
    obtain ⟨uniform, huniform, h⟩ := of_bind h
    rw [if_neg hempty, huniform, ok_bind]
    split at h
    · rename_i htrue
      exact ⟨hybrid, hhybrid, if_pos htrue, .uniform (htrue ▸ huniform) h⟩
    · rename_i hfalse
      have hnot : isKvCacheSpecUniform hybrid = .ok false :=
        (Bool.not_eq_true _ ▸ hfalse) ▸ huniform
      obtain ⟨uniformType, htype, h⟩ := of_bind h
      rw [if_neg hfalse, htype]
      split at h
      · rename_i htrue
        cases h
        exact ⟨hybrid, hhybrid, if_pos htrue, .uniformType hnot (htrue ▸ htype)⟩
      · rename_i hfalse
        obtain ⟨effective, heffective, h⟩ := of_bind h
        exact ⟨effective, hhybrid, (if_neg hfalse).trans heffective, .uniformPageSize hnot h⟩

variable {grouped : List (List String)}

section

variable (h : createKvCacheGroupSpecs effective grouped = .ok groups)
include h

theorem createKvCacheGroupSpecs_spec : Forall₂ (fun names group => group.layerNames = names ∧
      (∀ name ∈ names, ∃ spec, effective.get name = some spec) ∧
      ∃ groupSpec, group.kvCacheSpec = .single groupSpec ∧
        ∃ first ∈ names, ∃ spec, effective.get first = some spec ∧
          groupSpec.layout = spec.layout) grouped groups := by
  refine (forall₂_of_mapM h).imp ?_
  intro names group hgroup
  obtain ⟨specs, hspecs, hgroup⟩ := of_bind hgroup
  obtain ⟨groupSpec, hmerge, hgroup⟩ := of_bind hgroup
  cases hgroup
  refine ⟨rfl, fun name hname => ?_, groupSpec, rfl, ?_⟩
  · obtain ⟨spec, -, hspec⟩ := (mem_of_mapM hspecs).2 name hname
    obtain ⟨spec, hspec, -⟩ := of_lookup hspec
    exact ⟨spec, hspec⟩
  · obtain ⟨first, hfirst, hlayout⟩ := LayerSpec.merge_layout hmerge
    obtain ⟨name, hname, hspec⟩ := (mem_of_mapM hspecs).1 first (mem_of_head? hfirst)
    obtain ⟨spec, hspec, hfound⟩ := of_lookup hspec
    cases hfound
    exact ⟨name, hname, first, hspec, hlayout⟩

theorem layerNames_createKvCacheGroupSpecs : groups.flatMap (·.layerNames) = grouped.flatten := by
  have hspec := createKvCacheGroupSpecs_spec h
  clear h
  induction hspec with
  | nil => rfl
  | cons hgroup _ ih => rw [flatMap_cons, flatten_cons, hgroup.1, ih]

theorem covered_createKvCacheGroupSpecs :
    Covered effective groups ↔ ∀ names ∈ grouped, ∀ name ∈ names, ∀ name' ∈ names,
      (effective.get name).map LayerSpec.layout = (effective.get name').map LayerSpec.layout := by
  have hspec := createKvCacheGroupSpecs_spec h
  clear h
  induction hspec with
  | nil => simp [Covered]
  | @cons names group grouped groups hgroup _ ih =>
    have hsplit : Covered effective (group :: groups) ↔ Covered effective [group] ∧
        Covered effective groups := by
      unfold Covered
      simp only [forall_mem_cons, not_mem_nil, false_implies, implies_true, and_true]
    rw [forall_mem_cons]
    refine hsplit.trans (and_congr ?_ ih)
    obtain ⟨hnames, hlookup, groupSpec, hspec, first, hfirst, firstSpec, hget, hlayout⟩ := hgroup
    have hcovered : Covered effective [group] ↔ ∀ name ∈ names,
        (effective.get name).map LayerSpec.layout = some groupSpec.layout := by
      unfold Covered
      simp only [mem_singleton, forall_eq, hnames, hspec, GroupSpec.Covers]
      refine forall₂_congr fun name hname => ?_
      simp [eq_comm]
    have hfirstLayout : (effective.get first).map LayerSpec.layout = some groupSpec.layout := by
      rw [hget, hlayout]
      rfl
    rw [hcovered]
    constructor
    · intro hall name hname name' hname'
      rw [hall name hname, hall name' hname']
    · intro hall name hname
      rw [hall name hname first hfirst, hfirstLayout]

end

/-! ### One page size -/

theorem groupSizeOf_pos {numLayers : List Nat} (hne : numLayers ≠ [])
    (hpos : ∀ n ∈ numLayers, 0 < n) :
    0 < groupSizeOf numLayers := by
  obtain ⟨least, hleast⟩ : ∃ m, numLayers.min? = some m :=
    Option.isSome_iff_exists.mp (isSome_min?_of_ne_nil hne)
  obtain ⟨most, hmost⟩ : ∃ m, numLayers.max? = some m :=
    Option.isSome_iff_exists.mp (isSome_max?_of_ne_nil hne)
  have hleastPos := hpos least (min?_mem hleast)
  have hmostPos := hpos most (max?_mem hmost)
  rw [groupSizeOf, hleast, hmost]
  split
  · exact hmostPos
  · exact hleastPos

theorem splitLayers_perm {groupSize : Nat} (hsize : 0 < groupSize) {layers : List String}
    (hlayers : layers ≠ []) : (splitLayers groupSize layers).flatten.Perm layers := by
  have hlen := length_pos_of_ne_nil hlayers
  have hgroups : 0 < cdiv layers.length groupSize := by
    rw [lt_cdiv_iff hsize]
    omega
  exact flatMap_range_strided_perm (by omega) layers

theorem mem_sameTypeLayers {spec : LayerSpec D} {names : List String}
    (h : (spec, names) ∈ sameTypeLayers effective) :
    names ≠ [] ∧ ∀ name ∈ names, (name, spec) ∈ effective :=
  get_fileByKey ((get_eq_some_iff (nodup_keys_fileByKey effective)).mpr h)

theorem groupedLayers_perm (effective : SpecDict D) :
    (groupedLayers effective).flatten.Perm effective.keys := by
  have hnonempty : ∀ layers ∈ (sameTypeLayers effective).map Prod.snd, layers ≠ [] := by
    intro layers hlayers
    obtain ⟨⟨spec, names⟩, hitem, rfl⟩ := mem_map.mp hlayers
    exact (mem_sameTypeLayers hitem).1
  have hsize : ∀ layers ∈ (sameTypeLayers effective).map Prod.snd,
      0 < groupSizeOf (((sameTypeLayers effective).map Prod.snd).map length) := by
    intro layers hlayers
    refine groupSizeOf_pos (ne_nil_of_mem (mem_map_of_mem hlayers)) fun n hn => ?_
    obtain ⟨names, hnames, rfl⟩ := mem_map.mp hn
    exact length_pos_of_ne_nil (hnonempty names hnames)
  have hfiled : (((sameTypeLayers effective).map Prod.snd).flatMap id).Perm effective.keys := by
    rw [flatMap_map]
    exact flatMap_fileByKey_perm effective
  refine .trans ?_ hfiled
  rw [groupedLayers, flatten_eq_flatMap, flatMap_assoc]
  refine Perm.flatMap_left _ fun layers hlayers => ?_
  rw [← flatten_eq_flatMap]
  exact splitLayers_perm (hsize layers hlayers) (hnonempty layers hlayers)

theorem mem_groupedLayers {names : List String} (h : names ∈ groupedLayers effective) :
    ∃ spec, ∀ name ∈ names, (name, spec) ∈ effective := by
  obtain ⟨layers, hlayers, hnames⟩ := mem_flatMap.mp h
  obtain ⟨⟨spec, layers⟩, hitem, rfl⟩ := mem_map.mp hlayers
  obtain ⟨i, -, rfl⟩ := mem_map.mp hnames
  exact ⟨spec, fun name hname => (mem_sameTypeLayers hitem).2 name (mem_of_mem_strided hname)⟩

/-! ### What holds of the groups -/

theorem Grouping.layerNames_perm (h : Grouping hybrid effective groups) :
    (groups.flatMap (·.layerNames)).Perm effective.keys := by
  cases h with
  | empty hempty =>
    rw [hempty]
    exact .refl _
  | uniform _ hgroups =>
    rw [layerNames_createKvCacheGroupSpecs hgroups, flatten_singleton]
  | uniformType => simp
  | uniformPageSize _ hgroups =>
    rw [layerNames_createKvCacheGroupSpecs hgroups]
    exact groupedLayers_perm effective

theorem Grouping.shape (h : Grouping hybrid effective groups) :
    (groups = [⟨effective.keys, .uniformType effective⟩] ∧ isUniformType effective = .ok true) ∨
      ∀ group ∈ groups, ∃ spec, group.kvCacheSpec = .single spec := by
  have hcreated : ∀ {grouped : List (List String)} {specs : SpecDict D},
      createKvCacheGroupSpecs specs grouped = .ok groups →
      ∀ group ∈ groups, ∃ spec, group.kvCacheSpec = .single spec := by
    intro grouped specs hgroups group hgroup
    obtain ⟨names, -, hnames⟩ := (mem_of_mapM hgroups).1 group hgroup
    obtain ⟨_, -, hnames⟩ := of_bind hnames
    obtain ⟨spec, -, hnames⟩ := of_bind hnames
    cases hnames
    exact ⟨spec, rfl⟩
  cases h with
  | empty hempty => exact .inr nofun
  | uniform _ hgroups => exact .inr (hcreated hgroups)
  | uniformType _ htype => exact .inl ⟨rfl, htype⟩
  | uniformPageSize _ hgroups => exact .inr (hcreated hgroups)

theorem Grouping.covered_iff (h : Grouping hybrid effective groups)
    (hnodup : effective.keys.Nodup) :
    Covered effective groups ↔ MergesExactly hybrid := by
  cases h with
  | empty hempty =>
    refine iff_of_true (nofun) fun _ item hitem => ?_
    rw [hempty] at hitem
    cases hitem
  | uniform huniform hgroups =>
    rw [covered_createKvCacheGroupSpecs hgroups, forall_mem_singleton]
    constructor
    · intro hall _ item hitem item' hitem'
      have heq := hall item.1 (mem_map_of_mem hitem) item'.1 (mem_map_of_mem hitem')
      rw [(get_eq_some_iff hnodup).mpr hitem,
        (get_eq_some_iff hnodup).mpr hitem'] at heq
      exact Option.some.inj heq
    · intro hmerges name hname name' hname'
      obtain ⟨item, hitem, rfl⟩ := mem_map.mp hname
      obtain ⟨item', hitem', rfl⟩ := mem_map.mp hname'
      rw [(get_eq_some_iff hnodup).mpr hitem,
        (get_eq_some_iff hnodup).mpr hitem']
      exact congrArg some (hmerges huniform item hitem item' hitem')
  | uniformType huniform _ =>
    refine iff_of_true ?_ fun htrue => absurd (huniform.symm.trans htrue) (by simp)
    intro group hgroup name hname
    obtain rfl := mem_singleton.mp hgroup
    obtain ⟨item, hitem, rfl⟩ := mem_map.mp hname
    have hget := (get_eq_some_iff hnodup).mpr hitem
    exact ⟨item.2, hget, hget⟩
  | uniformPageSize huniform hgroups =>
    refine iff_of_true ?_ fun htrue => absurd (huniform.symm.trans htrue) (by simp)
    refine (covered_createKvCacheGroupSpecs hgroups).mpr
      fun names hnames name hname name' hname' => ?_
    obtain ⟨spec, hspec⟩ := mem_groupedLayers hnames
    rw [(get_eq_some_iff hnodup).mpr (hspec name hname),
      (get_eq_some_iff hnodup).mpr (hspec name' hname')]

end Groups

end LongCtxSpecDecode
