import LongCtxSpecDecode.Basic

/-!
# The slot table of the drafter

The kernel of `longspec/kernels/slot_table.py` on one row of the table: the selected positions
become KV slots, and the slots of the positions after the scored prefix are appended.
-/

namespace LongCtxSpecDecode.SlotTable

open List Function

variable (blockTable : Nat → Int)

/-- The slot of a token index. -/
def slotOf (pageSize : Nat) (index : Int) : Int :=
  blockTable (index / pageSize).toNat * pageSize + index % pageSize

/-- The loop that turns the selected indices into slots, in place. -/
def convertSelected (pageSize used : Nat) (row : Nat → Int) : Nat → Int :=
  (range used).foldl
    (fun row offset => update row offset (slotOf blockTable pageSize (row offset))) row

/-- The second part: the slots of `[valid, valid + numRecent)` are appended. -/
def appendRecent (pageSize used : Nat) (validLen : Int) (numRecent : Nat)
    (row : Nat → Int) : Nat → Int :=
  (range numRecent).foldl
    (fun row offset =>
      update row (used + offset) (slotOf blockTable pageSize (validLen + offset))) row

/-- `index_to_slots`, one row. -/
def indexToSlots (pageSize : Nat) (used validLen seqLen : Int) (row : Nat → Int) : Nat → Int :=
  appendRecent blockTable pageSize used.toNat validLen (seqLen - validLen).toNat
    (convertSelected blockTable pageSize used.toNat row)

variable (pageSize : Nat) (row : Nat → Int)

theorem convertSelected_apply (used col : Nat) :
    convertSelected blockTable pageSize used row col =
      if col < used then slotOf blockTable pageSize (row col) else row col := by
  unfold convertSelected
  induction used generalizing col with
  | zero => rfl
  | succ used ih =>
    rw [range_succ, foldl_append, foldl_cons, foldl_nil]
    rcases eq_or_ne col used with rfl | hne
    · rw [update_self, ih, if_neg (Nat.lt_irrefl col), if_pos (Nat.lt_succ_self col)]
    · rw [update_of_ne hne, ih]
      exact if_congr (by omega) rfl rfl

theorem appendRecent_apply (used : Nat) (validLen : Int) (numRecent col : Nat) :
    appendRecent blockTable pageSize used validLen numRecent row col =
      if used ≤ col ∧ col < used + numRecent then
        slotOf blockTable pageSize (validLen + (col - used : Nat))
      else
        row col := by
  unfold appendRecent
  induction numRecent generalizing col with
  | zero => exact (if_neg (by omega)).symm
  | succ numRecent ih =>
    rw [range_succ, foldl_append, foldl_cons, foldl_nil]
    rcases eq_or_ne col (used + numRecent) with rfl | hne
    · rw [update_self, if_pos (by omega), Nat.add_sub_cancel_left]
    · rw [update_of_ne hne, ih]
      exact if_congr (by omega) rfl rfl

/-- The positions that a draft step attends to: the selected ones, then all from the scored length
up to the length of the sequence. -/
def attended (selected : List Nat) (validLen seqLen : Int) : List Int :=
  selected.map (fun i : Nat => (i : Int)) ++
    (range (seqLen - validLen).toNat).map fun i : Nat => validLen + i

/-- The first `used` entries of a row are the slots of the attended positions, each once, with the
newest token last, and fit into the row. -/
structure Denotes (blockTable : Nat → Int) (pageSize width : Nat) (selected : List Nat)
    (validLen seqLen : Int) (row : Nat → Int) (used : Int) : Prop where
  fits : used ≤ width
  entries : (range used.toNat).map row =
    (attended selected validLen seqLen).map (slotOf blockTable pageSize)
  distinct : ((range used.toNat).map row).Nodup
  newest : ((range used.toNat).map row).getLast? =
    some (slotOf blockTable pageSize (seqLen - 1))

theorem attended_length (selected : List Nat) (validLen seqLen : Int) :
    (attended selected validLen seqLen).length = selected.length + (seqLen - validLen).toNat := by
  simp [attended]

variable {selected : List Nat} {seqLen validLen : Int} {finalLen : Int}

theorem indexToSlots_prefix (validLen : Int)
    (hrow : ∀ col (h : col < selected.length), row col = selected[col])
    (hfinal : seqLen ≤ finalLen) :
    (range (selected.length + (seqLen - validLen).toNat)).map
        (indexToSlots blockTable pageSize selected.length validLen finalLen row) =
      (attended selected validLen seqLen).map (slotOf blockTable pageSize) := by
  refine ext_getElem (by simp [attended_length]) fun col hcol hcol' => ?_
  rw [getElem_map, getElem_map]
  unfold indexToSlots attended
  rw [appendRecent_apply, getElem_append]
  split
  · rename_i hrecent
    rw [dif_neg (by simpa using hrecent.1)]
    simp
  · grind [convertSelected_apply]

variable {blockTable pageSize}

theorem slotOf_injOn (hpage : 0 < pageSize)
    (hpages : Set.InjOn blockTable {i | ((i * pageSize : Nat) : Int) < seqLen}) :
    Set.InjOn (slotOf blockTable pageSize) {i | 0 ≤ i ∧ i < seqLen} := by
  intro i hi j hj heq
  have hpos : (0 : Int) < pageSize := by exact_mod_cast hpage
  have hpageOf : ∀ k : Int, 0 ≤ k ∧ k < seqLen →
      (k / pageSize).toNat ∈ {i | ((i * pageSize : Nat) : Int) < seqLen} := by
    intro k hk
    have hnonneg := Int.ediv_nonneg hk.1 hpos.le
    have hle := Int.ediv_mul_le k hpos.ne'
    show (((k / pageSize).toNat * pageSize : Nat) : Int) < seqLen
    push_cast
    rw [Int.toNat_of_nonneg hnonneg]
    omega
  unfold slotOf at heq
  have hmodi := Int.emod_nonneg i hpos.ne'
  have hmodj := Int.emod_nonneg j hpos.ne'
  have hlti := Int.emod_lt_of_pos i hpos
  have hltj := Int.emod_lt_of_pos j hpos
  -- the page and the offset are quotient and remainder of the slot
  have hblock : blockTable (i / pageSize).toNat = blockTable (j / pageSize).toNat := by
    have hdiv := congrArg (· / (pageSize : Int)) heq
    rwa [Int.add_comm, Int.add_mul_ediv_right _ _ hpos.ne', Int.ediv_eq_zero_of_lt hmodi hlti,
      Int.add_comm (_ * _), Int.add_mul_ediv_right _ _ hpos.ne', Int.ediv_eq_zero_of_lt hmodj hltj,
      Int.zero_add, Int.zero_add] at hdiv
  have hquot := hpages (hpageOf i hi) (hpageOf j hj) hblock
  have hmod : i % pageSize = j % pageSize := by
    rw [hblock] at heq
    omega
  have hdivi := Int.ediv_nonneg hi.1 hpos.le
  have hdivj := Int.ediv_nonneg hj.1 hpos.le
  have hdiv : i / pageSize = j / pageSize := by omega
  rw [← Int.mul_ediv_add_emod i pageSize, ← Int.mul_ediv_add_emod j pageSize, hdiv, hmod]

theorem attended_nodup (hnodup : selected.Nodup) (hbelow : ∀ i ∈ selected, (i : Int) < validLen) :
    (attended selected validLen seqLen).Nodup := by
  refine nodup_append.mpr ⟨?_, ?_, fun i hi j hj => ?_⟩
  · exact hnodup.map fun a b hab => by exact_mod_cast hab
  · exact nodup_range.map fun a b hab => by omega
  · obtain ⟨a, ha, rfl⟩ := mem_map.mp hi
    obtain ⟨b, -, rfl⟩ := mem_map.mp hj
    have hlt := hbelow a ha
    omega

theorem mem_attended {i : Int} (hvalid : 0 ≤ validLen) (hlen : validLen ≤ seqLen)
    (hbelow : ∀ i ∈ selected, (i : Int) < validLen) (hi : i ∈ attended selected validLen seqLen) :
    0 ≤ i ∧ i < seqLen := by
  rcases mem_append.mp hi with hi | hi
  · obtain ⟨a, ha, rfl⟩ := mem_map.mp hi
    have hlt := hbelow a ha
    omega
  · obtain ⟨b, hb, rfl⟩ := mem_map.mp hi
    have hlt := mem_range.mp hb
    omega

theorem attended_getLast (hlen : validLen < seqLen) :
    (attended selected validLen seqLen).getLast? = some (seqLen - 1) := by
  obtain ⟨n, hn⟩ : ∃ n, (seqLen - validLen).toNat = n + 1 :=
    ⟨(seqLen - validLen).toNat - 1, by omega⟩
  unfold attended
  rw [hn, range_succ, map_append, ← append_assoc, map_singleton,
    getLast?_concat]
  congr 1
  omega

theorem indexToSlots_denotes {width : Nat} (hpage : 0 < pageSize)
    (hpages : Set.InjOn blockTable {i | ((i * pageSize : Nat) : Int) < seqLen})
    (hrow : ∀ col (h : col < selected.length), row col = selected[col]) (hnodup : selected.Nodup)
    (hbelow : ∀ i ∈ selected, (i : Int) < validLen) (hvalid : 0 ≤ validLen)
    (hlen : validLen < seqLen) (hfinal : seqLen ≤ finalLen)
    (hwidth : selected.length + (seqLen - validLen) ≤ width) :
    Denotes blockTable pageSize width selected validLen seqLen
      (indexToSlots blockTable pageSize selected.length validLen finalLen row)
      (selected.length + (seqLen - validLen)) := by
  have hused : ((selected.length : Int) + (seqLen - validLen)).toNat =
      selected.length + (seqLen - validLen).toNat := by omega
  have hentries := indexToSlots_prefix blockTable pageSize row validLen hrow hfinal
  refine ⟨hwidth, ?_, ?_, ?_⟩
  · rw [hused]
    exact hentries
  · rw [hused, hentries]
    refine Nodup.map_on (fun i hi j hj heq => ?_) (attended_nodup hnodup hbelow)
    exact slotOf_injOn hpage hpages (mem_attended hvalid hlen.le hbelow hi)
      (mem_attended hvalid hlen.le hbelow hj) heq
  · rw [hused, hentries, getLast?_map, attended_getLast hlen]
    rfl

end LongCtxSpecDecode.SlotTable
