import LongCtxSpecDecode.ExpertExchangeMatching
import LongCtxSpecDecode.Library.Slices

/-!
# The rows after an expert exchange

Every way in which a row can get its new expert gives it the weights of that expert: it stays, it
is copied from another row of the rank, it is received, or it is copied from a received row.
-/

namespace LongCtxSpecDecode

open Library Library.Slices List Function OrderedDict

variable {R n k : Nat} {V : Type}
variable {old new : ExpertMap R n} {weights : Fin R → ExpertRows n k V}
variable {content : Int → Fin k → V}

def Holds (indices : ExpertMap R n) (content : Int → Fin k → V)
    (weights : Fin R → ExpertRows n k V) : Prop :=
  ∀ rank row, indices.localIds rank row ≠ -1 →
    weights rank row = content (indices.localIds rank row)

/-! ### Local moves -/

variable {row : Fin n} {dst : Fin R}

theorem Holds.moveLocally (hholds : Holds old content weights) {rank : Fin R}
    (buffers : ExpertRows n k V) (hchanged : isUnchanged old new rank row = false)
    (hlocal : isReceivedLocally old new rank row = true) :
    moveLocally old new rank (weights rank) buffers row =
      content (new.localIds rank row) := by
  have hids : old.localIds rank row ≠ new.localIds rank row :=
    of_decide_eq_false hchanged
  obtain ⟨hvalid, src, hsrc⟩ := (isReceivedLocally_iff.mp hlocal).resolve_left hids
  have hkey : new.localIds rank row ∈ (sendSrcRows old rank).map Prod.fst :=
    mem_keys_sendSrcRows.mpr ⟨hvalid, mem_senders.mpr ⟨src, hsrc⟩⟩
  refine foldl_writes (fun _ => True)
    (fun buffers : ExpertRows n k V => buffers row = content (new.localIds rank row))
    (fun dst => dst = row) trivial (fun _ _ _ _ => trivial) (fun buffers dst _ _ hbefore => ?_)
    (Or.inl ?_)
  · cases hget : get (sendSrcRows old rank) (new.localIds rank dst) with
    | none =>
      refine hbefore.resolve_left ?_
      rintro rfl
      exact get_eq_none.mp hget hkey
    | some first =>
      by_cases hdst : dst = row
      · subst hdst
        have hfirst := mem_sendSrcRows (mem_of_get hget)
        simp only [update_self]
        rw [hholds rank first (hfirst.1 ▸ hvalid), hfirst.1]
      · exact (update_of_ne (Ne.symm hdst) _ _).trans (hbefore.resolve_left hdst)
  · exact ⟨row, mem_filter.mpr ⟨mem_finRange row, by simp [hchanged, hlocal]⟩, rfl⟩

/-! ### Receives -/

theorem Holds.received (hholds : Holds old content weights) {r : Receive n k V}
    (hr : r ∈ receivesOf weights (postedOps old new) dst) :
    r.value = content (new.localIds dst r.row) r.tensor ∧
      isReceivedLocally old new dst r.row = false := by
  obtain ⟨src, -, hr⟩ := mem_flatMap.mp hr
  obtain ⟨⟨s, r⟩, hpair, rfl⟩ := mem_map.mp hr
  have heq := eq_of_mem_zip (sends_match_recvs old new src dst) hpair
  obtain ⟨hs, hposted⟩ := of_mem_zip hpair
  rw [sendsTo_postedOps] at hs
  rw [recvsFrom_postedOps] at hposted
  obtain ⟨sent, hsent, hs⟩ := mem_flatMap.mp hs
  obtain ⟨received, hreceived, hposted⟩ := mem_flatMap.mp hposted
  obtain ⟨tensor, -, rfl⟩ := mem_map.mp hs
  obtain ⟨tensor', -, rfl⟩ := mem_map.mp hposted
  obtain ⟨hids, hvalid⟩ := mem_sendSrcRows (mem_filter.mp hsent).1
  have hremote := (mem_recvDstRows (mem_filter.mp hreceived).1).2.1
  obtain ⟨hexpert, rfl⟩ := Prod.mk.inj heq
  refine ⟨?_, hremote⟩
  rw [hholds src sent.2 (hids ▸ hvalid), hexpert]

variable {expert : Int}

theorem exists_receive (weights : Fin R → ExpertRows n k V)
    (hpresent : ∀ p, new p ≠ -1 → ∃ q, old q = new p)
    (hrow : (expert, row) ∈ recvDstRows old new dst) (tensor : Fin k) :
    ∃ r ∈ receivesOf weights (postedOps old new) dst,
      r.row = row ∧ r.tensor = tensor := by
  obtain ⟨hids, -, hvalid⟩ := mem_recvDstRows hrow
  have hreceiver := (mem_keys_recvDstRows.mp (mem_map_of_mem hrow)).2
  have hsenders : senders old expert ≠ [] := by
    have hnew : new (finProdFinEquiv (dst, row)) = expert := hids
    obtain ⟨q, hq⟩ := hpresent (finProdFinEquiv (dst, row)) (hnew ▸ hvalid)
    have hpos : finProdFinEquiv (q.divNat, q.modNat) = q := finProdFinEquiv.apply_symm_apply q
    have hold : old.localIds q.divNat q.modNat = expert := by
      rw [ExpertMap.localIds, hpos, hq, hnew]
    exact ne_nil_of_mem (mem_senders.mpr ⟨q.modNat, hold⟩)
  obtain ⟨src, hsource⟩ := exists_sourceOf hreceiver hsenders
  have hrecv : (tensor, row) ∈ recvsFrom src (postedOps old new dst) := by
    rw [recvsFrom_postedOps]
    refine mem_flatMap.mpr ⟨(expert, row), mem_filter.mpr ⟨hrow, ?_⟩, ?_⟩
    · simpa using hsource
    · exact mem_map.mpr ⟨tensor, mem_finRange tensor, rfl⟩
  have hlength := congrArg length (sends_match_recvs (k := k) old new src dst)
  rw [length_map, length_map] at hlength
  obtain ⟨s, hs⟩ := exists_mem_zip hlength hrecv
  exact ⟨_, mem_flatMap.mpr ⟨src, mem_finRange src, mem_map.mpr ⟨_, hs, rfl⟩⟩,
    rfl, rfl⟩

theorem receive_apply (buffers : ExpertRows n k V) (r : Receive n k V) (row : Fin n)
    (tensor : Fin k) :
    receive buffers r row tensor =
      if r.row = row ∧ r.tensor = tensor then r.value else buffers row tensor := by
  unfold receive
  by_cases hrow : r.row = row
  · subst hrow
    rw [update_self]
    by_cases htensor : r.tensor = tensor
    · subst htensor
      simp
    · rw [update_of_ne (Ne.symm htensor), if_neg fun h => htensor h.2]
  · rw [update_of_ne (Ne.symm hrow), if_neg fun h => hrow h.1]

theorem Holds.foldl_receive (hholds : Holds old content weights)
    {buffers : ExpertRows n k V}
    (h : (∀ tensor, ∃ r ∈ receivesOf weights (postedOps old new) dst,
        r.row = row ∧ r.tensor = tensor) ∨
      buffers row = content (new.localIds dst row)) :
    (receivesOf weights (postedOps old new) dst).foldl receive buffers row =
      content (new.localIds dst row) := by
  funext tensor
  refine foldl_writes (fun _ => True)
    (fun buffers : ExpertRows n k V =>
      buffers row tensor = content (new.localIds dst row) tensor)
    (fun r => r.row = row ∧ r.tensor = tensor) trivial (fun _ _ _ _ => trivial)
    (fun buffers r hr _ hbefore => ?_) (h.imp (fun hreceived => hreceived tensor) ?_)
  · grind [receive_apply, hholds.received]
  · intro hbefore
    rw [hbefore]

/-! ### Back from the buffers -/

theorem getElem?_searchsorted {rows : List (Int × Fin n)}
    (hsorted : rows.Pairwise fun a b => a.1 < b.1) {pair : Int × Fin n} (hpair : pair ∈ rows) :
    rows[searchsorted rows pair.1]? = some pair := by
  unfold searchsorted
  induction rows with
  | nil => cases hpair
  | cons first rows ih =>
    grind [pairwise_cons]

theorem foldl_copy (weights buffers : ExpertRows n k V) (rows : List (Fin n)) (row : Fin n) :
    rows.foldl (fun weights dst => update weights dst (buffers dst)) weights row =
      if row ∈ rows then buffers row else weights row := by
  induction rows generalizing weights with
  | nil => rfl
  | cons first rows ih =>
    rw [foldl_cons, ih]
    by_cases hfirst : row = first
    · subst hfirst
      simp
    · simp [hfirst]

variable {pairs : List (Fin n × Fin n)}

theorem foldl_duplicate {weights : ExpertRows n k V}
    (hdistinct : ∀ pair ∈ pairs, ∀ pair' ∈ pairs, pair.2 ≠ pair'.1) {src : Fin n}
    (hrow : (row, src) ∈ pairs) (hunique : ∀ pair ∈ pairs, pair.1 = row → pair.2 = src) :
    pairs.foldl (fun weights pair => update weights pair.1 (weights pair.2)) weights row =
      weights src := by
  refine foldl_writes (fun w : ExpertRows n k V => ∀ pair ∈ pairs, w pair.2 = weights pair.2)
    (fun w : ExpertRows n k V => w row = weights src) (fun pair => pair.1 = row)
    (fun _ _ => rfl) (fun w pair hpair hw pair' hpair' => ?_) (fun w pair hpair hw hbefore => ?_)
    (Or.inl ⟨(row, src), hrow, rfl⟩)
  · exact (update_of_ne (hdistinct pair' hpair' pair hpair) _ _).trans (hw pair' hpair')
  · grind

theorem foldl_duplicate_of_notMem {weights : ExpertRows n k V} (hrow : ∀ pair ∈ pairs, pair.1 ≠ row)
    :
    pairs.foldl (fun weights pair => update weights pair.1 (weights pair.2)) weights row =
      weights row :=
  foldl_writes (fun _ => True) (fun w : ExpertRows n k V => w row = weights row) (fun _ => False)
    trivial (fun _ _ _ _ => trivial)
    (fun _ pair hpair _ hbefore => (update_of_ne (Ne.symm (hrow pair hpair)) _ _).trans
      (hbefore.resolve_left id)) (Or.inr rfl)

variable {pair : Fin n × Fin n}

theorem matchedRow_eq_some {primRows : List (Int × Fin n)}
    (hsorted : primRows.Pairwise fun a b => a.1 < b.1) {dst : Fin n} :
    matchedRow primRows expert dst = some pair ↔ pair.1 = dst ∧ (expert, pair.2) ∈ primRows := by
  unfold matchedRow
  constructor
  · grind
  · rintro ⟨rfl, hmem⟩
    rw [getElem?_searchsorted hsorted hmem]
    exact if_pos rfl

section MoveFromBuffer

variable {rank : Fin R} {row first : Fin n} {weights buffers : ExpertRows n k V}

variable (old new rank weights buffers) in
/-- `move_from_buffer` after `move_to_buffer`. -/
def movedBack : ExpertRows n k V :=
  moveFromBuffer weights buffers (isUnchanged old new rank)
    (isReceivedLocally old new rank)
    { recvPrimaryMask := fun row => row ∈ (recvDstRows old new rank).map Prod.snd
      recvRows := recvDstRows old new rank } new rank

variable (old new rank) in
def copiedRows : List (Fin n) :=
  (finRange n).filter fun row =>
    !isUnchanged old new rank row &&
      (isReceivedLocally old new rank row ||
        row ∈ (recvDstRows old new rank).map Prod.snd)

variable (old new rank) in
def duplicates : List (Fin n × Fin n) :=
  ((finRange n).filter fun row =>
    (!isUnchanged old new rank row &&
        !isReceivedLocally old new rank row) &&
      (!decide (row ∈ (recvDstRows old new rank).map Prod.snd) &&
        new.localIds rank row ≠ -1)).filterMap fun dst =>
    matchedRow (recvDstRows old new rank) (new.localIds rank dst) dst

theorem mem_duplicates :
    pair ∈ duplicates old new rank ↔
      (new.localIds rank pair.1, pair.2) ∈ recvDstRows old new rank ∧
        isUnchanged old new rank pair.1 = false ∧
        isReceivedLocally old new rank pair.1 = false ∧
        pair.1 ∉ (recvDstRows old new rank).map Prod.snd ∧
        new.localIds rank pair.1 ≠ -1 := by
  have hsorted := pairwise_recvDstRows old new rank
  rw [duplicates, mem_filterMap]
  simp only [matchedRow_eq_some hsorted, mem_filter, mem_finRange, true_and,
    Bool.and_eq_true, Bool.not_eq_true', decide_eq_false_iff_not, decide_eq_true_eq]
  constructor
  · rintro ⟨dst, ⟨⟨hunchanged, hlocal⟩, hprimary, hvalid⟩, rfl, hmem⟩
    exact ⟨hmem, hunchanged, hlocal, hprimary, hvalid⟩
  · rintro ⟨hmem, hunchanged, hlocal, hprimary, hvalid⟩
    exact ⟨pair.1, ⟨⟨hunchanged, hlocal⟩, hprimary, hvalid⟩, rfl, hmem⟩

theorem movedBack_eq :
    movedBack old new rank weights buffers =
      (duplicates old new rank).foldl
        (fun weights pair => update weights pair.1 (weights pair.2))
        ((copiedRows old new rank).foldl
          (fun weights dst => update weights dst (buffers dst)) weights) := by
  have hsorted : sortBy Prod.fst (recvDstRows old new rank) =
      recvDstRows old new rank := sortBy_firstRows _ _
  unfold movedBack moveFromBuffer
  dsimp only
  split
  · rename_i hnone
    -- nothing was received, and there is nothing to duplicate
    have hduplicates : duplicates old new rank = [] := by
      refine eq_nil_iff_forall_not_mem.mpr fun pair hpair => ?_
      have hmem := (mem_duplicates.mp hpair).1
      rw [hnone] at hmem
      exact not_mem_nil hmem
    rw [hduplicates]
    rfl
  · rw [hsorted]
    rfl

theorem isReceivedLocally_of_isUnchanged (h : isUnchanged old new rank row = true) :
    isReceivedLocally old new rank row = true := by
  unfold isReceivedLocally
  rw [h, Bool.true_or]

theorem movedBack_of_notMem (h : ∀ pair ∈ duplicates old new rank, pair.1 ≠ row) :
    movedBack old new rank weights buffers row =
      if row ∈ copiedRows old new rank then buffers row else weights row := by
  rw [movedBack_eq, foldl_duplicate_of_notMem h, foldl_copy]

theorem movedBack_unchanged (h : isUnchanged old new rank row = true) :
    movedBack old new rank weights buffers row = weights row := by
  rw [movedBack_of_notMem]
  · simp [copiedRows, h]
  · rintro pair hpair rfl
    rw [(mem_duplicates.mp hpair).2.1] at h
    cases h

theorem movedBack_local (hchanged : isUnchanged old new rank row = false)
    (hlocal : isReceivedLocally old new rank row = true) :
    movedBack old new rank weights buffers row = buffers row := by
  rw [movedBack_of_notMem]
  · simp [copiedRows, hchanged, hlocal]
  · rintro pair hpair rfl
    rw [(mem_duplicates.mp hpair).2.2.1] at hlocal
    cases hlocal

theorem recvDstRows_unique {row row' : Fin n} (h : (expert, row) ∈ recvDstRows old new rank)
    (h' : (expert, row') ∈ recvDstRows old new rank) : row = row' := by
  have hsorted := pairwise_recvDstRows old new rank
  have hfound : (recvDstRows old new rank)[searchsorted (recvDstRows old
      new rank) expert]? = some (expert, row') := getElem?_searchsorted hsorted h'
  have heq := (getElem?_searchsorted hsorted h).symm.trans hfound
  exact congrArg Prod.snd (Option.some.inj heq)

theorem mem_copiedRows_of_recv (h : (expert, row) ∈ recvDstRows old new rank) :
    row ∈ copiedRows old new rank := by
  have hremote := (mem_recvDstRows h).2.1
  have hchanged : isUnchanged old new rank row = false :=
    Bool.eq_false_iff.mpr fun hunchanged => by
      rw [isReceivedLocally_of_isUnchanged hunchanged] at hremote
      cases hremote
  have hprimary : row ∈ (recvDstRows old new rank).map Prod.snd :=
    mem_map_of_mem h
  simp [copiedRows, hchanged, hprimary]

theorem movedBack_remote (hrow : (new.localIds rank row, first) ∈
      recvDstRows old new rank)
    (hremote : isReceivedLocally old new rank row = false) :
    movedBack old new rank weights buffers row = buffers first := by
  by_cases hprimary : row ∈ (recvDstRows old new rank).map Prod.snd
  · grind [mem_recvDstRows, recvDstRows_unique, movedBack_of_notMem, mem_copiedRows_of_recv,
      mem_duplicates]
  · have hchanged : isUnchanged old new rank row = false :=
      Bool.eq_false_iff.mpr fun hunchanged => by
        rw [isReceivedLocally_of_isUnchanged hunchanged] at hremote
        cases hremote
    have hvalid := (mem_recvDstRows hrow).2.2
    have hpair : (row, first) ∈ duplicates old new rank :=
      mem_duplicates.mpr ⟨hrow, hchanged, hremote, hprimary, hvalid⟩
    rw [movedBack_eq, foldl_duplicate ?_ hpair, foldl_copy, if_pos (mem_copiedRows_of_recv hrow)]
    · rintro ⟨row', first'⟩ hpair' rfl
      exact recvDstRows_unique (mem_duplicates.mp hpair').1 hrow
    · grind [mem_duplicates]

end MoveFromBuffer

/-! ### The whole exchange -/

variable {oldIndices newIndices : ExpertMap R n}

/-- After all ranks have run `move_to_buffer` and `move_from_buffer`, every row with a new expert
holds the weights of that expert; and the receives of a rank from another one are matched by the
sends of the other one to it, expert by expert and tensor by tensor in the same order. -/
theorem exchange_correct (hpresent : ∀ p, newIndices p ≠ -1 → ∃ q, oldIndices q = newIndices p)
    (hholds : Holds oldIndices content weights) (buffers : Fin R → ExpertRows n k V) :
    ∃ moves : Fin R → MoveToBuffer R n k V,
      (∀ rank, moveToBuffer oldIndices newIndices rank (weights rank) (buffers rank) =
        .ok (moves rank)) ∧
      (∀ src dst, ((sendsTo dst (moves src).p2pOps).map fun op =>
          (oldIndices.localIds src op.2, op.1)) =
        (recvsFrom src (moves dst).p2pOps).map fun op => (newIndices.localIds dst op.2, op.1)) ∧
      Holds newIndices content (exchanged newIndices weights moves) := by
  refine ⟨_, fun rank => moveToBuffer_eq oldIndices newIndices rank (weights rank) (buffers rank),
    fun src dst => sends_match_recvs oldIndices newIndices src dst, fun rank row hvalid => ?_⟩
  let received := (receivesOf weights (postedOps oldIndices newIndices) rank).foldl receive
    (moveLocally oldIndices newIndices rank (weights rank) (buffers rank))
  change movedBack oldIndices newIndices rank (weights rank) received row = _
  cases hunchanged : isUnchanged oldIndices newIndices rank row with
  | true =>
    have hids : oldIndices.localIds rank row = newIndices.localIds rank row :=
      of_decide_eq_true hunchanged
    rw [movedBack_unchanged hunchanged, hholds rank row (hids ▸ hvalid), hids]
  | false =>
    cases hlocal : isReceivedLocally oldIndices newIndices rank row with
    | true =>
      rw [movedBack_local hunchanged hlocal]
      exact hholds.foldl_receive (Or.inr (hholds.moveLocally (buffers rank) hunchanged hlocal))
    | false =>
      obtain ⟨first, hfirst⟩ := exists_mem_recvDstRows hlocal hvalid
      rw [movedBack_remote hfirst hlocal, ← (mem_recvDstRows hfirst).1]
      exact hholds.foldl_receive (Or.inl fun tensor =>
        exists_receive weights hpresent hfirst tensor)

/-- Two ranks with two rows each: the first rank needs another copy of the expert 1 that it has,
the second one needs the expert 0 twice. -/
def beforeRebalance : ExpertMap 2 2 := ![0, 1, 1, -1]

def afterRebalance : ExpertMap 2 2 := ![1, 1, 0, 0]

theorem exchange_correct_duplicated :
    ∃ moves : Fin 2 → MoveToBuffer 2 2 1 Int,
      (∀ rank, moveToBuffer beforeRebalance afterRebalance rank
        (fun row _ => beforeRebalance.localIds rank row) (fun _ _ => 0) = .ok (moves rank)) ∧
      (∀ src dst, ((sendsTo dst (moves src).p2pOps).map fun op =>
          (beforeRebalance.localIds src op.2, op.1)) =
        (recvsFrom src (moves dst).p2pOps).map fun op =>
          (afterRebalance.localIds dst op.2, op.1)) ∧
      Holds afterRebalance (fun expert _ => expert)
        (exchanged afterRebalance (fun rank row _ => beforeRebalance.localIds rank row) moves) := by
  have hpresent : ∀ p, afterRebalance p ≠ -1 → ∃ q, beforeRebalance q = afterRebalance p := by
    decide
  have hholds : Holds (k := 1) beforeRebalance (fun expert _ => expert)
      fun rank row _ => beforeRebalance.localIds rank row := fun _ _ _ => rfl
  exact exchange_correct hpresent hholds fun _ _ _ => 0

end LongCtxSpecDecode
