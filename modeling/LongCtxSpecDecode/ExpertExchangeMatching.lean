import LongCtxSpecDecode.ExpertExchange

/-!
# Sends and receives of an expert exchange match

Every rank computes for itself who sends an expert to whom. The ranks that have the expert and the
ranks that need it are the same lists on every rank (`senders`, `receivers`), so that what one rank
sends to another is what the other one receives from it, in the order of the experts.
-/

namespace LongCtxSpecDecode

open Library List OrderedDict

variable {R n k : Nat} {V : Type}

def senders (indices : ExpertMap R n) (expert : Int) : List (Fin R) :=
  firstsBy id (((finRange (R * n)).filter fun p => indices p = expert).map Fin.divNat)

def receivers (old new : ExpertMap R n) (expert : Int) : List (Fin R) :=
  (senders new expert).filter fun r => r ∉ senders old expert

section Ranks

variable {indices old new : ExpertMap R n} {expert : Int} {rank : Fin R}

theorem mem_senders :
    rank ∈ senders indices expert ↔ ∃ row, indices.localIds rank row = expert := by
  rw [senders, mem_firstsBy_id, mem_map]
  constructor
  · rintro ⟨p, hp, rfl⟩
    refine ⟨p.modNat, ?_⟩
    have hpos : finProdFinEquiv (p.divNat, p.modNat) = p := finProdFinEquiv.apply_symm_apply p
    rw [ExpertMap.localIds, hpos]
    simpa using hp
  · rintro ⟨row, hrow⟩
    have hrank : (finProdFinEquiv (rank, row)).divNat = rank :=
      congrArg Prod.fst (finProdFinEquiv.symm_apply_apply (rank, row))
    exact ⟨finProdFinEquiv (rank, row), by simpa [ExpertMap.localIds] using hrow, hrank⟩

theorem mem_receivers :
    rank ∈ receivers old new expert ↔
      (∃ row, new.localIds rank row = expert) ∧
        ∀ row, old.localIds rank row ≠ expert := by
  rw [receivers, mem_filter, mem_senders, decide_eq_true_eq, mem_senders, not_exists]

theorem nodup_senders (indices : ExpertMap R n) (expert : Int) : (senders indices expert).Nodup :=
  nodup_firstsBy_id _

theorem nodup_receivers (old new : ExpertMap R n) (expert : Int) :
    (receivers old new expert).Nodup :=
  (nodup_senders new expert).filter _

theorem get_ranksByExpert (indices : ExpertMap R n) {experts : List Int}
    (hexpert : expert ∈ experts) :
    ((ranksByExpert experts indices).get expert).getD [] = senders indices expert := by
  let relevant := (finRange (R * n)).filter fun p => indices p ∈ experts
  have hrelevant : relevant.Pairwise (· < ·) := (pairwise_lt_finRange _).filter _
  have hruns := get_runsBy (pairwise_key_lexsort indices relevant) expert
  rw [filter_lexsort hrelevant, filter_filter] at hruns
  have hfilter : ((finRange (R * n)).filter fun p =>
      decide (indices p = expert) && decide (indices p ∈ experts)) =
      (finRange (R * n)).filter fun p => indices p = expert := by
    refine filter_congr fun p _ => ?_
    by_cases hp : indices p = expert
    · simp [hp, hexpert]
    · simp [hp]
  have hget : (ranksByExpert experts indices).get expert =
      ((runsBy indices (lexsort indices relevant)).get expert).map fun run =>
        firstsBy id (run.map Fin.divNat) := by
    unfold ranksByExpert
    exact get_mapValues _ _ _
  rw [hget, senders, ← hfilter, ← hruns]
  cases (runsBy indices (lexsort indices relevant)).get expert with
  | none => rfl
  | some run => rfl

theorem get_fillMissing {experts : List Int} {ranks : OrderedDict Int (List (Fin R))}
    (hexpert : expert ∈ experts ∨ expert ∈ ranks.keys) :
    (fillMissing experts ranks).get expert = some ((ranks.get expert).getD []) := by
  induction experts generalizing ranks with
  | nil =>
    have hmem := hexpert.resolve_left not_mem_nil
    obtain ⟨r, hr⟩ := Option.ne_none_iff_exists'.mp (mt get_eq_none.mp (not_not.mpr hmem))
    simp [fillMissing, hr]
  | cons e experts ih =>
    by_cases he : e ∈ ranks.keys
    · grind [fillMissing]
    · have hstep : fillMissing (e :: experts) ranks =
          fillMissing experts (ranks.set e []) := by
        simp only [fillMissing, foldl_cons, if_neg he]
      have hkeys := keys_set_of_notMem he ([] : List (Fin R))
      rw [hstep, ih, get_set]
      · by_cases hexp : expert = e
        · rw [if_pos hexp, hexp, get_eq_none.mpr he]
          rfl
        · rw [if_neg hexp]
      · grind

theorem getEpRanksWithExpertsBatch_get (old new : ExpertMap R n)
    {expertIds : List Int} (hexpert : expert ∈ expertIds) :
    (getEpRanksWithExpertsBatch expertIds old new).1.get expert =
        some (senders old expert) ∧
      (getEpRanksWithExpertsBatch expertIds old new).2.get expert =
        some (receivers old new expert) := by
  have hne : expertIds ≠ [] := ne_nil_of_mem hexpert
  have hunique : expert ∈ uniqueBy id expertIds := by
    obtain ⟨e, he, rfl⟩ := exists_mem_uniqueBy id hexpert
    exact he
  unfold getEpRanksWithExpertsBatch
  rw [if_neg hne]
  refine ⟨(get_fillMissing (Or.inl hunique)).trans ?_, (get_fillMissing (Or.inl hunique)).trans ?_⟩
  · rw [get_ranksByExpert old hunique]
  · rw [get_mapItems, receivers, ← get_ranksByExpert old hunique,
      ← get_ranksByExpert new hunique]
    cases (ranksByExpert (uniqueBy id expertIds) new).get expert with
    | none => rfl
    | some ranks => rfl

end Ranks

/-! ### The experts of a rank -/

section Rows

variable {ids : Fin n → Int} {mask : Fin n → Bool} {expert : Int} {row : Fin n}

theorem mem_firstRows (h : (expert, row) ∈ firstRows ids mask) :
    ids row = expert ∧ mask row = true := by
  obtain ⟨row', hrow, heq⟩ := mem_map.mp h
  cases heq
  exact ⟨rfl, (mem_filter.mp (mem_of_mem_uniqueBy hrow)).2⟩

section

variable (ids : Fin n → Int) (mask : Fin n → Bool)

theorem exists_mem_firstRows (h : mask row = true) :
    ∃ first, (ids row, first) ∈ firstRows ids mask := by
  have hmem : row ∈ (finRange n).filter mask := mem_filter.mpr ⟨mem_finRange row, h⟩
  obtain ⟨first, hfirst, hids⟩ := exists_mem_uniqueBy ids hmem
  exact ⟨first, mem_map.mpr ⟨first, hfirst, by rw [hids]⟩⟩

theorem pairwise_firstRows : (firstRows ids mask).Pairwise fun a b => a.1 < b.1 :=
  pairwise_map.mpr (pairwise_uniqueBy _)

@[simp] theorem sortBy_firstRows : sortBy Prod.fst (firstRows ids mask) = firstRows ids mask :=
  sortBy_of_pairwise ((pairwise_firstRows ids mask).imp fun h => h.le)

end

variable {old new : ExpertMap R n} {rank : Fin R}

theorem mem_sendSrcRows (h : (expert, row) ∈ sendSrcRows old rank) :
    old.localIds rank row = expert ∧ expert ≠ -1 := by
  obtain ⟨hids, hmask⟩ := mem_firstRows h
  exact ⟨hids, hids ▸ of_decide_eq_true hmask⟩

theorem mem_recvDstRows (h : (expert, row) ∈ recvDstRows old new rank) :
    new.localIds rank row = expert ∧
      isReceivedLocally old new rank row = false ∧ expert ≠ -1 := by
  obtain ⟨hids, hmask⟩ := mem_firstRows h
  rw [Bool.and_eq_true, Bool.not_eq_true'] at hmask
  exact ⟨hids, hmask.1, hids ▸ of_decide_eq_true hmask.2⟩

theorem pairwise_recvDstRows (old new : ExpertMap R n) (rank : Fin R) :
    (recvDstRows old new rank).Pairwise fun a b => a.1 < b.1 :=
  pairwise_firstRows _ _

theorem isReceivedLocally_iff :
    isReceivedLocally old new rank row = true ↔
      old.localIds rank row = new.localIds rank row ∨
        new.localIds rank row ≠ -1 ∧
          ∃ src, old.localIds rank src = new.localIds rank row := by
  simp [isReceivedLocally, isUnchanged]

theorem exists_mem_recvDstRows (hremote : isReceivedLocally old new rank row = false)
    (hvalid : new.localIds rank row ≠ -1) :
    ∃ first, (new.localIds rank row, first) ∈ recvDstRows old new rank :=
  exists_mem_firstRows _ _ (by simp [hremote, hvalid])

theorem mem_keys_sendSrcRows :
    expert ∈ (sendSrcRows old rank).map Prod.fst ↔
      expert ≠ -1 ∧ rank ∈ senders old expert := by
  rw [mem_senders, mem_map]
  constructor
  · rintro ⟨⟨e, row⟩, hrow, rfl⟩
    obtain ⟨hids, hvalid⟩ := mem_sendSrcRows hrow
    exact ⟨hvalid, row, hids⟩
  · rintro ⟨hvalid, row, rfl⟩
    obtain ⟨first, hfirst⟩ := exists_mem_firstRows (old.localIds rank)
      (fun row => old.localIds rank row ≠ -1) (decide_eq_true hvalid)
    exact ⟨_, hfirst, rfl⟩

theorem mem_keys_recvDstRows :
    expert ∈ (recvDstRows old new rank).map Prod.fst ↔
      expert ≠ -1 ∧ rank ∈ receivers old new expert := by
  rw [mem_receivers, mem_map]
  constructor
  · rintro ⟨⟨e, row⟩, hrow, rfl⟩
    obtain ⟨hids, hremote, hvalid⟩ := mem_recvDstRows hrow
    rw [← Bool.not_eq_true, isReceivedLocally_iff, hids, not_or, not_and, not_exists] at hremote
    exact ⟨hvalid, ⟨row, hids⟩, hremote.2 hvalid⟩
  · rintro ⟨hvalid, ⟨row, rfl⟩, hremote⟩
    have hlocal : isReceivedLocally old new rank row = false := by
      rw [← Bool.not_eq_true, isReceivedLocally_iff, not_or, not_and, not_exists]
      exact ⟨hremote row, fun _ => hremote⟩
    obtain ⟨first, hfirst⟩ := exists_mem_recvDstRows hlocal hvalid
    exact ⟨_, hfirst, rfl⟩

end Rows

/-! ### Who sends an expert to whom -/

section Deal

variable (old new : ExpertMap R n) (expert : Int)

def destinations (rank : Fin R) : List (Fin R) :=
  if senders old expert = [] ∨ receivers old new expert = [] then []
  else
    recvRanksOf (senders old expert) (receivers old new expert)
      ((senders old expert).idxOf rank)

def sourceOf (rank : Fin R) : Option (Fin R) :=
  (senders old expert)[senderPosOf (senders old expert)
    (receivers old new expert)
    ((receivers old new expert).idxOf rank)]?

variable {old new expert} {src dst : Fin R}

theorem recvRanksOf_eq_share (ranksToSend ranksToRecv : List (Fin R)) (senderPos : Nat) :
    recvRanksOf ranksToSend ranksToRecv senderPos =
      share ranksToSend.length ranksToRecv senderPos := by
  unfold recvRanksOf share
  dsimp only
  cases ranksToRecv[ranksToSend.length * (ranksToRecv.length / ranksToSend.length) +
      senderPos]? with
  | none => exact (append_nil _).symm
  | some rank => rfl

theorem mem_receivers_of_mem_destinations (h : dst ∈ destinations old new expert src) :
    dst ∈ receivers old new expert := by
  unfold destinations at h
  split at h
  · cases h
  · rw [recvRanksOf_eq_share] at h
    exact mem_of_mem_share h

theorem nodup_destinations (hsrc : src ∈ senders old expert) :
    (destinations old new expert src).Nodup := by
  unfold destinations
  split
  · exact nodup_nil
  · rw [recvRanksOf_eq_share]
    exact nodup_share (nodup_receivers _ _ _) (idxOf_lt_length_iff.mpr hsrc)

theorem mem_destinations (hsrc : src ∈ senders old expert)
    (hdst : dst ∈ receivers old new expert) :
    dst ∈ destinations old new expert src ↔
      sourceOf old new expert dst = some src := by
  have hguard : ¬ (senders old expert = [] ∨ receivers old new expert = []) :=
    not_or.mpr ⟨ne_nil_of_mem hsrc, ne_nil_of_mem hdst⟩
  have hdstPos : (receivers old new expert)[(receivers old new
      expert).idxOf dst]? = some dst := getElem?_idxOf hdst
  have hsrcPos : (senders old expert)[(senders old expert).idxOf src]? = some src :=
    getElem?_idxOf hsrc
  have hsrcLt := idxOf_lt_length_iff.mpr hsrc
  rw [destinations, if_neg hguard, recvRanksOf_eq_share,
    mem_share (nodup_receivers _ _ _) hsrcLt hdstPos]
  constructor
  · intro htaker
    rw [← hsrcPos, ← htaker]
    rfl
  · intro hsource
    exact ((getElem?_inj hsrcLt (nodup_senders _ _)).mp (hsrcPos.trans hsource.symm)).symm

theorem exists_sourceOf (hdst : dst ∈ receivers old new expert)
    (hsenders : senders old expert ≠ []) :
    ∃ src, sourceOf old new expert dst = some src := by
  have hlt := takerOf_lt (length_pos_iff.mpr hsenders) (idxOf_lt_length_iff.mpr hdst)
  exact ⟨_, getElem?_eq_getElem hlt⟩

end Deal

/-! ### The posted operations -/

section Ops

variable (old new : ExpertMap R n)

def sendOps (rank : Fin R) (pair : Int × Fin n) : List (P2POp R n k) :=
  (destinations old new pair.1 rank).flatMap fun dst =>
    (finRange k).map fun tensor => .isend tensor pair.2 dst

def recvOps (rank : Fin R) (pair : Int × Fin n) : List (P2POp R n k) :=
  (sourceOf old new pair.1 rank).toList.flatMap fun src =>
    (finRange k).map fun tensor => .irecv tensor pair.2 src

variable {old new} {rank : Fin R} {rows : List (Int × Fin n)}
variable {sendMap recvMap : OrderedDict Int (List (Fin R))}

theorem ranksOfExpert_of_get {expert : Int} {ranks : List (Fin R)}
    (h : sendMap.get expert = some ranks) : ranksOfExpert sendMap expert = .ok ranks := by
  unfold ranksOfExpert
  rw [h]

theorem indexOfRank_of_mem {ranks : List (Fin R)} (h : rank ∈ ranks) :
    indexOfRank ranks rank = .ok (ranks.idxOf rank) :=
  if_pos h

section

variable
  (hmaps : ∀ pair ∈ rows, sendMap.get pair.1 = some (senders old pair.1) ∧
    recvMap.get pair.1 = some (receivers old new pair.1))
include hmaps

theorem postSends_eq (hrank : ∀ pair ∈ rows, rank ∈ senders old pair.1) :
    postSends rank sendMap recvMap rows =
      .ok (rows.flatMap (sendOps (k := k) old new rank)) := by
  induction rows with
  | nil => rfl
  | cons pair rows ih =>
    obtain ⟨expert, row⟩ := pair
    obtain ⟨hsend, hrecv⟩ := hmaps _ mem_cons_self
    have hmem := hrank _ mem_cons_self
    have hrest := ih (fun p hp => hmaps p (mem_cons_of_mem _ hp))
      fun p hp => hrank p (mem_cons_of_mem _ hp)
    rw [postSends, ranksOfExpert_of_get hsend, ranksOfExpert_of_get hrecv, ok_bind, ok_bind,
      flatMap_cons]
    by_cases hguard : senders old expert = [] ∨ receivers old new expert = []
    · have hops : sendOps (k := k) old new rank (expert, row) = [] := by
        rw [sendOps, destinations, if_pos hguard]
        rfl
      rw [if_pos hguard, hrest, hops]
      rfl
    · have hops : sendOps old new rank (expert, row) =
          (recvRanksOf (senders old expert) (receivers old new expert)
            ((senders old expert).idxOf rank)).flatMap fun dst =>
              (finRange k).map fun tensor => .isend tensor row dst := by
        rw [sendOps, destinations, if_neg hguard]
      rw [if_neg hguard, indexOfRank_of_mem hmem, ok_bind, hrest, ok_bind, hops]

theorem postRecvs_eq (hrank : ∀ pair ∈ rows, rank ∈ receivers old new pair.1) :
    postRecvs rank sendMap recvMap rows =
      .ok (rows.flatMap (recvOps (k := k) old new rank)) := by
  induction rows with
  | nil => rfl
  | cons pair rows ih =>
    obtain ⟨expert, row⟩ := pair
    obtain ⟨hsend, hrecv⟩ := hmaps _ mem_cons_self
    have hmem := hrank _ mem_cons_self
    have hrest := ih (fun p hp => hmaps p (mem_cons_of_mem _ hp))
      fun p hp => hrank p (mem_cons_of_mem _ hp)
    rw [postRecvs, ranksOfExpert_of_get hsend, ranksOfExpert_of_get hrecv, ok_bind, ok_bind,
      flatMap_cons]
    by_cases hsenders : senders old expert = []
    · grind [recvOps, sourceOf]
    · obtain ⟨src, hsource⟩ := exists_sourceOf hmem hsenders
      have hops : recvOps old new rank (expert, row) =
          (finRange k).map fun tensor => .irecv tensor row src := by
        rw [recvOps, hsource, Option.toList_some, flatMap_singleton]
      rw [if_neg (not_or.mpr ⟨hsenders, ne_nil_of_mem hmem⟩), indexOfRank_of_mem hmem,
        ok_bind]
      unfold sourceOf at hsource
      rw [hsource, hops]
      dsimp only
      rw [hrest, ok_bind]

end

variable (old new rank) in
def postedOps : List (P2POp R n k) :=
  (sendSrcRows old rank).flatMap (sendOps old new rank) ++
    (recvDstRows old new rank).flatMap (recvOps old new rank)

theorem moveToBuffer_eq (old new : ExpertMap R n) (rank : Fin R)
    (weights buffers : ExpertRows n k V) :
    moveToBuffer old new rank weights buffers =
      .ok
        { isUnchanged := isUnchanged old new rank
          isReceivedLocally := isReceivedLocally old new rank
          recvMetadata :=
            { recvPrimaryMask := fun row =>
                row ∈ (recvDstRows old new rank).map Prod.snd
              recvRows := recvDstRows old new rank }
          buffers := moveLocally old new rank weights buffers
          p2pOps := postedOps old new rank } := by
  have hsends : sortBy Prod.fst (sendSrcRows old rank) = sendSrcRows old rank :=
    sortBy_firstRows _ _
  have hrecvs : sortBy Prod.fst (recvDstRows old new rank) =
      recvDstRows old new rank := sortBy_firstRows _ _
  have hsend : postSends rank _ _ (sendSrcRows old rank) = .ok _ :=
    postSends_eq (k := k)
      (fun pair hpair =>
        getEpRanksWithExpertsBatch_get old new (mem_map_of_mem hpair))
      fun pair hpair => (mem_keys_sendSrcRows.mp (mem_map_of_mem hpair)).2
  have hrecv : postRecvs rank _ _ (recvDstRows old new rank) = .ok _ :=
    postRecvs_eq (k := k)
      (fun pair hpair =>
        getEpRanksWithExpertsBatch_get old new (mem_map_of_mem hpair))
      fun pair hpair => (mem_keys_recvDstRows.mp (mem_map_of_mem hpair)).2
  unfold moveToBuffer
  dsimp only
  rw [hsends, hrecvs, hsend, hrecv]
  rfl

end Ops

/-! ### The operations of a pair of ranks -/

section Pairs

variable {old new : ExpertMap R n} {src dst : Fin R} {pair : Int × Fin n}

theorem sendsTo_sendOps (hsrc : src ∈ senders old pair.1) :
    sendsTo dst (sendOps old new src pair) =
      if dst ∈ destinations old new pair.1 src then
        (finRange k).map fun tensor => (tensor, pair.2)
      else [] := by
  rw [← flatMap_pick (nodup_destinations hsrc), sendsTo, sendOps, filterMap_flatMap]
  refine flatMap_congr fun d _ => ?_
  by_cases hd : d = dst
  · simp [hd]
  · simp [hd]

theorem recvsFrom_recvOps :
    recvsFrom src (recvOps old new dst pair) =
      if sourceOf old new pair.1 dst = some src then
        (finRange k).map fun tensor => (tensor, pair.2)
      else [] := by
  rw [recvsFrom, recvOps]
  cases sourceOf old new pair.1 dst with
  | none => simp
  | some s =>
    by_cases hs : s = src
    · simp [hs]
    · simp [hs]

theorem sendsTo_append (dst : Fin R) (ops ops' : List (P2POp R n k)) :
    sendsTo dst (ops ++ ops') = sendsTo dst ops ++ sendsTo dst ops' :=
  filterMap_append

theorem recvsFrom_append (src : Fin R) (ops ops' : List (P2POp R n k)) :
    recvsFrom src (ops ++ ops') = recvsFrom src ops ++ recvsFrom src ops' :=
  filterMap_append

theorem sendsTo_postedOps :
    sendsTo dst (postedOps old new src) =
      ((sendSrcRows old src).filter fun pair =>
        dst ∈ destinations old new pair.1 src).flatMap fun pair =>
          (finRange k).map fun tensor => (tensor, pair.2) := by
  have hrecvs : sendsTo dst ((recvDstRows old new src).flatMap
      (recvOps (k := k) old new src)) = [] := by
    refine filterMap_eq_nil_iff.mpr fun op hop => ?_
    obtain ⟨pair, -, hop⟩ := mem_flatMap.mp hop
    obtain ⟨s, -, hop⟩ := mem_flatMap.mp hop
    obtain ⟨tensor, -, rfl⟩ := mem_map.mp hop
    rfl
  rw [postedOps, sendsTo_append, hrecvs, append_nil, ← flatMap_ite, sendsTo,
    filterMap_flatMap]
  refine flatMap_congr fun pair hpair => ?_
  have hsrc := (mem_keys_sendSrcRows.mp (mem_map_of_mem hpair)).2
  simp only [decide_eq_true_eq]
  exact sendsTo_sendOps hsrc

theorem recvsFrom_postedOps :
    recvsFrom src (postedOps old new dst) =
      ((recvDstRows old new dst).filter fun pair =>
        sourceOf old new pair.1 dst = some src).flatMap fun pair =>
          (finRange k).map fun tensor => (tensor, pair.2) := by
  have hsends : recvsFrom src ((sendSrcRows old dst).flatMap
      (sendOps (k := k) old new dst)) = [] := by
    refine filterMap_eq_nil_iff.mpr fun op hop => ?_
    obtain ⟨pair, -, hop⟩ := mem_flatMap.mp hop
    obtain ⟨d, -, hop⟩ := mem_flatMap.mp hop
    obtain ⟨tensor, -, rfl⟩ := mem_map.mp hop
    rfl
  rw [postedOps, recvsFrom_append, hsends, ← flatMap_ite, recvsFrom,
    filterMap_flatMap]
  refine flatMap_congr fun pair _ => ?_
  simp only [decide_eq_true_eq]
  exact recvsFrom_recvOps

theorem mem_keys_filter {rows : List (Int × Fin n)} {p : Int → Prop} [DecidablePred p]
    {expert : Int} :
    expert ∈ (rows.filter fun pair => p pair.1).map Prod.fst ↔
      expert ∈ rows.map Prod.fst ∧ p expert := by
  simp only [mem_map, mem_filter, decide_eq_true_eq]
  constructor
  · rintro ⟨pair, ⟨hpair, hp⟩, rfl⟩
    exact ⟨⟨pair, hpair, rfl⟩, hp⟩
  · rintro ⟨⟨pair, hpair, rfl⟩, hp⟩
    exact ⟨pair, ⟨hpair, hp⟩, rfl⟩

theorem sent_experts_eq (old new : ExpertMap R n) (src dst : Fin R) :
    ((sendSrcRows old src).filter fun pair =>
        dst ∈ destinations old new pair.1 src).map Prod.fst =
      ((recvDstRows old new dst).filter fun pair =>
        sourceOf old new pair.1 dst = some src).map Prod.fst := by
  have hsent : (((sendSrcRows old src).filter fun pair =>
      dst ∈ destinations old new pair.1 src).map Prod.fst).Pairwise (· < ·) :=
    pairwise_map.mpr ((pairwise_firstRows _ _).filter _)
  have hreceived : (((recvDstRows old new dst).filter fun pair =>
      sourceOf old new pair.1 dst = some src).map Prod.fst).Pairwise (· < ·) :=
    pairwise_map.mpr ((pairwise_recvDstRows _ _ _).filter _)
  refine hsent.eq_of_mem_iff hreceived fun expert => ?_
  refine (mem_keys_filter (p := fun e => dst ∈ destinations old new e src)).trans
    (Iff.trans ?_
      (mem_keys_filter (p := fun e => sourceOf old new e dst = some src)).symm)
  rw [mem_keys_sendSrcRows, mem_keys_recvDstRows]
  constructor
  · grind [mem_receivers_of_mem_destinations, mem_destinations]
  · rintro ⟨⟨hvalid, hdst⟩, hsource⟩
    have hsrc : src ∈ senders old expert := mem_of_getElem? hsource
    exact ⟨⟨hvalid, hsrc⟩, (mem_destinations hsrc hdst).mpr hsource⟩

theorem map_rows_eq {ids : Fin n → Int} {rows : List (Int × Fin n)}
    (hids : ∀ pair ∈ rows, ids pair.2 = pair.1) :
    ((rows.flatMap fun pair => (finRange k).map fun tensor => (tensor, pair.2)).map
        fun op : Fin k × Fin n => (ids op.2, op.1)) =
      (rows.map Prod.fst).flatMap fun expert =>
        (finRange k).map fun tensor => (expert, tensor) := by
  rw [map_flatMap, flatMap_map]
  refine flatMap_congr fun pair hpair => ?_
  rw [map_map]
  exact map_congr_left fun tensor _ => by rw [← hids pair hpair]; rfl

theorem sends_match_recvs (old new : ExpertMap R n) (src dst : Fin R) :
    ((sendsTo dst (postedOps (k := k) old new src)).map fun op =>
        (old.localIds src op.2, op.1)) =
      (recvsFrom src (postedOps old new dst)).map fun op =>
        (new.localIds dst op.2, op.1) := by
  rw [sendsTo_postedOps, recvsFrom_postedOps, map_rows_eq, map_rows_eq, sent_experts_eq]
  · exact fun pair hpair => (mem_recvDstRows (mem_filter.mp hpair).1).1
  · exact fun pair hpair => (mem_sendSrcRows (mem_filter.mp hpair).1).1

end Pairs

end LongCtxSpecDecode
