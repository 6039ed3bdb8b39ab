import LongCtxSpecDecode.BlockPoolConservation
import LongCtxSpecDecode.KVCacheManager

/-!
# Who owns which block

The holds of a request in a KV cache group are exactly the blocks in its list that are not null.
Every operation of a single-type manager moves blocks between the list of one request and the pool,
and leaves the others alone.
-/

namespace LongCtxSpecDecode

open List

variable {b : Nat}

theorem cdiv_le_iff (hb : 0 < b) (a k : Int) : cdiv a b ≤ k ↔ a ≤ k * b := by
  have hdiv : -k ≤ -a / (b : Int) ↔ -k * (b : Int) ≤ -a :=
    Int.le_ediv_iff_mul_le (by exact_mod_cast hb)
  rw [Int.neg_mul] at hdiv
  rw [cdiv]
  constructor
  · intro h
    omega
  · intro h
    omega

theorem lt_cdiv_iff (hb : 0 < b) (a k : Int) : k < cdiv a b ↔ k * b < a := by
  rw [← not_le, ← not_le, cdiv_le_iff hb]

theorem le_cdiv_mul (hb : 0 < b) (a : Int) : a ≤ cdiv a b * b :=
  (cdiv_le_iff hb a _).mp le_rfl

theorem cdiv_mono (hb : 0 < b) {a a' : Int} (h : a ≤ a') : cdiv a b ≤ cdiv a' b :=
  (cdiv_le_iff hb a _).mpr (h.trans (le_cdiv_mul hb a'))

namespace SingleTypeKVCacheManager

variable {H : Type}

theorem blocksOf_setBlocks (m : SingleTypeKVCacheManager) (r r' : ReqId) (blocks : List Nat) :
    (m.setBlocks r blocks).blocksOf r' = if r' = r then blocks else m.blocksOf r' := by
  unfold blocksOf setBlocks
  by_cases hr : r' = r
  · subst hr
    simp
  · simp [hr]

@[simp] theorem blocksOf_setBlocks_self (m : SingleTypeKVCacheManager) (r : ReqId)
    (blocks : List Nat) : (m.setBlocks r blocks).blocksOf r = blocks := by
  simp [blocksOf_setBlocks]

theorem blocksOf_setBlocks_ne (m : SingleTypeKVCacheManager) {r r' : ReqId} (hr : r' ≠ r)
    (blocks : List Nat) : (m.setBlocks r blocks).blocksOf r' = m.blocksOf r' := by
  simp [blocksOf_setBlocks, hr]

end SingleTypeKVCacheManager

variable (nullBlock : Nat)

section lists

def nonNull (blocks : List Nat) : List Nat :=
  blocks.filter fun b => b ≠ nullBlock

variable {nullBlock : Nat}

theorem nonNull_append (l l' : List Nat) :
    nonNull nullBlock (l ++ l') = nonNull nullBlock l ++ nonNull nullBlock l' :=
  filter_append ..

theorem nonNull_replicate (n : Nat) : nonNull nullBlock (replicate n nullBlock) = [] := by
  simp [nonNull]

theorem nonNull_set_perm {blocks : List Nat} {i : Nat} (hi : blocks[i]? = some b)
    (hb : b ≠ nullBlock) :
    (nonNull nullBlock blocks).Perm (b :: nonNull nullBlock (blocks.set i nullBlock)) := by
  obtain ⟨hlt, hget⟩ := List.getElem?_eq_some_iff.mp hi
  have hsplit : blocks = blocks.take i ++ b :: blocks.drop (i + 1) := by
    rw [← hget, ← drop_eq_getElem_cons hlt, take_append_drop]
  have hset : blocks.set i nullBlock = blocks.take i ++ nullBlock :: blocks.drop (i + 1) :=
    set_eq_take_append_cons_drop.trans (if_pos hlt)
  rw [hset]
  conv_lhs => rw [hsplit]
  simp only [nonNull, filter_append, filter_cons, hb, ne_eq, not_false_eq_true,
    decide_true, not_true_eq_false, decide_false, if_true, Bool.false_eq_true, if_false]
  exact perm_middle

end lists

namespace SingleTypeKVCacheManager

/-- Some of the first `k` places of a list are emptied. -/
structure Emptied (nullBlock : Nat) (k : Int) (blocks blocks' : List Nat) : Prop where
  length : blocks'.length = blocks.length
  entry : ∀ i : Nat, blocks'[i]? = blocks[i]? ∨
    ((i : Int) < k ∧ i < blocks.length ∧ blocks'[i]? = some nullBlock)

theorem Emptied.refl (k : Int) (blocks : List Nat) : Emptied nullBlock k blocks blocks :=
  ⟨rfl, fun _ => Or.inl rfl⟩

theorem Emptied.trans {nullBlock : Nat} {k : Int} {l₁ l₂ l₃ : List Nat}
    (h : Emptied nullBlock k l₁ l₂) (h' : Emptied nullBlock k l₂ l₃) :
    Emptied nullBlock k l₁ l₃ := by
  refine ⟨h'.length.trans h.length, fun i => ?_⟩
  rcases h'.entry i with heq | ⟨hk, hlt, hnull⟩
  · rw [heq]
    exact h.entry i
  · exact Or.inr ⟨hk, h.length ▸ hlt, hnull⟩

theorem Emptied.set (blocks : List Nat) {i : Nat} {k : Int} (hk : (i : Int) < k) :
    Emptied nullBlock k blocks (blocks.set i nullBlock) := by
  refine ⟨length_set, fun j => ?_⟩
  by_cases hij : i = j
  · subst hij
    by_cases hi : i < blocks.length
    · exact Or.inr ⟨hk, hi, by simp [hi]⟩
    · exact Or.inl (by simp [hi])
  · exact Or.inl (by simp [hij])

theorem removeBlocks_spec {k : Int} (i : Nat) (hk : i ≤ k) (blocks : List Nat) :
    (nonNull nullBlock blocks).Perm
        ((removeBlocks nullBlock i blocks).1 ++
          nonNull nullBlock (removeBlocks nullBlock i blocks).2) ∧
      (∀ b ∈ (removeBlocks nullBlock i blocks).1, b ≠ nullBlock) ∧
      Emptied nullBlock k blocks (removeBlocks nullBlock i blocks).2 := by
  induction i generalizing blocks with
  | zero => exact ⟨Perm.refl _, by simp [removeBlocks], .refl _ _ _⟩
  | succ i ih =>
    rw [removeBlocks]
    by_cases hnull : blocks.getD i nullBlock = nullBlock
    · simp only [hnull]
      exact ⟨Perm.refl _, by simp, .refl _ _ _⟩
    · have hi : blocks[i]? = some (blocks.getD i nullBlock) := by
        rw [getD_eq_getElem?_getD] at hnull ⊢
        cases hget : blocks[i]? with
        | none => simp [hget] at hnull
        | some b => rfl
      obtain ⟨hperm, hne, hempty⟩ := ih (by omega) (blocks.set i nullBlock)
      simp only [hnull]
      refine ⟨?_, ?_, (Emptied.set nullBlock blocks (by omega)).trans hempty⟩
      · exact (nonNull_set_perm hi hnull).trans (hperm.cons _)
      · intro b hb
        rcases mem_cons.mp hb with rfl | hb
        · exact hnull
        · exact hne b hb

theorem pyIndex_of_nonneg {length : Nat} {i : Int} (hi : 0 ≤ i) (hlt : i < length) :
    pyIndex length i = some i.toNat := by
  rw [pyIndex, if_pos hi, if_pos hlt]

theorem nonNull_move_perm {nullBlock : Nat} {blocks : List Nat} {i : Nat}
    (hi : i < blocks.length) :
    (nonNull nullBlock ((blocks ++ [blocks.getD i nullBlock]).set i nullBlock)).Perm
      (nonNull nullBlock blocks) := by
  have hget : blocks[i]? = some (blocks.getD i nullBlock) := by
    rw [getD_eq_getElem?_getD, getElem?_eq_getElem hi]
    rfl
  generalize blocks.getD i nullBlock = b at hget ⊢
  rw [set_append_left _ _ hi, nonNull_append]
  by_cases hb : b = nullBlock
  · grind [set_getElem_self, nonNull]
  · grind [nonNull, perm_append_singleton, nonNull_set_perm]

theorem reuseBlocks_spec (numSkipped : Int) (remaining : Nat) (start : Nat)
    (blocks : List Nat) (hle : start + remaining ≤ blocks.length) :
    ∃ blocks', reuseBlocks nullBlock numSkipped remaining start blocks = .ok blocks' ∧
      (nonNull nullBlock blocks').Perm (nonNull nullBlock blocks) ∧
      (blocks'.length : Int) =
        blocks.length + max 0 (min (remaining : Int) (numSkipped - start)) := by
  induction remaining generalizing start blocks with
  | zero =>
    refine ⟨blocks, rfl, Perm.refl _, ?_⟩
    omega
  | succ remaining ih =>
    rw [reuseBlocks]
    by_cases hlt : (start : Int) < numSkipped
    · rw [if_pos hlt, pyIndex_of_nonneg (by omega) (by omega)]
      have hstart : start < blocks.length := by omega
      obtain ⟨blocks', hrun, hperm, hlen⟩ := ih (start + 1)
        ((blocks ++ [blocks.getD start nullBlock]).set start nullBlock) (by simp; omega)
      refine ⟨blocks', ?_, hperm.trans (nonNull_move_perm hstart), ?_⟩
      · simpa using hrun
      · rw [hlen]
        simp only [length_set, length_append, length_singleton]
        omega
    · rw [if_neg hlt]
      refine ⟨blocks, rfl, Perm.refl _, ?_⟩
      omega

end SingleTypeKVCacheManager

/-- A request in a group. -/
abbrev Holder := ReqId × Nat

section moves

open BlockPool

variable {H : Type}

/-- The holds of `h` are the entries of the list that are not null. -/
structure HoldsList (p : BlockPool H) (holds : List (Holder × Nat)) (h : Holder)
    (blocks : List Nat) : Prop where
  mem : ∀ b, (h, b) ∈ holds ↔ b ∈ nonNull p.nullBlock blocks
  nodup : (nonNull p.nullBlock blocks).Nodup

/-- Blocks moved between the pool and the list of `h`, which is now `blocks'`; everybody
else's holds are the same. -/
structure Moves (h : Holder) (p p' : BlockPool H) (holds holds' : List (Holder × Nat))
    (blocks' : List Nat) : Prop where
  accounts : Accounts p' [] holds'
  config : p'.config = p.config
  others : ∀ x : Holder × Nat, x.1 ≠ h → (x ∈ holds' ↔ x ∈ holds)
  list : HoldsList p' holds' h blocks'

variable {h : Holder} {p p' p'' : BlockPool H} {holds holds' holds'' : List (Holder × Nat)}
variable {blocks blocks' blocks'' : List Nat}

theorem enableCaching_of_config (hconfig : p'.config = p.config) :
    p'.enableCaching = p.enableCaching :=
  congrArg Config.enableCaching hconfig

theorem HoldsList.perm (hlist : HoldsList p holds h blocks)
    (hperm : (nonNull p.nullBlock blocks').Perm (nonNull p.nullBlock blocks)) :
    HoldsList p holds h blocks' :=
  ⟨fun b => (hlist.mem b).trans hperm.mem_iff.symm, hperm.nodup_iff.mpr hlist.nodup⟩

theorem HoldsList.of_config (hlist : HoldsList p holds h blocks) (hconfig : p'.config = p.config) :
    HoldsList p' holds h blocks := by
  have hnull := nullBlock_of_config hconfig
  exact ⟨hnull ▸ hlist.mem, hnull ▸ hlist.nodup⟩

theorem Moves.refl (hacc : Accounts p [] holds) (hlist : HoldsList p holds h blocks) :
    Moves h p p holds holds blocks :=
  ⟨hacc, rfl, fun _ _ => Iff.rfl, hlist⟩

theorem Moves.trans (hfirst : Moves h p p' holds holds' blocks')
    (hsecond : Moves h p' p'' holds' holds'' blocks'') :
    Moves h p p'' holds holds'' blocks'' where
  accounts := hsecond.accounts
  config := hsecond.config.trans hfirst.config
  others := fun x hx => (hsecond.others x hx).trans (hfirst.others x hx)
  list := hsecond.list

theorem Moves.perm (hmoves : Moves h p p' holds holds' blocks')
    (hperm : (nonNull p.nullBlock blocks'').Perm (nonNull p.nullBlock blocks')) :
    Moves h p p' holds holds' blocks'' := by
  refine ⟨hmoves.accounts, hmoves.config, hmoves.others, hmoves.list.perm ?_⟩
  rwa [nullBlock_of_config hmoves.config]

theorem Moves.add (hlist : HoldsList p holds h blocks) {added : List Nat}
    (hacc : Accounts p' [] (((nonNull p.nullBlock added).map fun b => (h, b)) ++ holds))
    (hconfig : p'.config = p.config) :
    Moves h p p' holds (((nonNull p.nullBlock added).map fun b => (h, b)) ++ holds)
      (blocks ++ added) := by
  have hmem : ∀ x : Holder × Nat,
      x ∈ ((nonNull p.nullBlock added).map fun b => (h, b)) ++ holds ↔
        (x.1 = h ∧ x.2 ∈ nonNull p.nullBlock added) ∨ x ∈ holds := by
    intro x
    rw [mem_append, mem_map]
    refine or_congr_left ⟨?_, ?_⟩
    · rintro ⟨b, hb, rfl⟩
      exact ⟨rfl, hb⟩
    · rintro ⟨rfl, hb⟩
      exact ⟨x.2, hb, rfl⟩
  have hnull := nullBlock_of_config hconfig
  refine ⟨hacc, hconfig, ?_, ?_, ?_⟩
  · intro x hx
    rw [hmem]
    exact or_iff_right fun h => hx h.1
  · intro b
    rw [hmem, hnull, nonNull_append, mem_append, hlist.mem b]
    simp only [true_and]
    exact or_comm
  · obtain ⟨hadded, -, hdisj⟩ := nodup_append.mp hacc.nodup
    rw [hnull, nonNull_append, nodup_append]
    refine ⟨hlist.nodup, Nodup.of_map _ hadded, ?_⟩
    rintro b hb _ hb' rfl
    exact hdisj _ (mem_map.mpr ⟨b, hb', rfl⟩) _ ((hlist.mem b).mpr hb) rfl

theorem freeBlocks_moves (hacc : Accounts p [] holds) (hlist : HoldsList p holds h blocks)
    (ordered blocks' : List Nat)
    (hperm : (nonNull p.nullBlock blocks).Perm
      (nonNull p.nullBlock ordered ++ nonNull p.nullBlock blocks')) :
    ∃ p' holds', p.freeBlocks ordered = .ok p' ∧ Moves h p p' holds holds' blocks' := by
  set removed := nonNull p.nullBlock ordered
  set rest := holds.filter fun x => ¬ (x.1 = h ∧ x.2 ∈ removed)
  have hnodup := hperm.nodup_iff.mp hlist.nodup
  rw [nodup_append] at hnodup
  obtain ⟨hremoved, hkept, hdisj⟩ := hnodup
  have hsplit : holds.Perm ((removed.map fun b => (h, b)) ++ rest) := by
    grind [hacc.nodup, HoldsList.mem]
  obtain ⟨p', hfree, hacc', hconfig⟩ := freeBlocks_spec hacc hsplit
  have hnull := nullBlock_of_config hconfig
  refine ⟨p', rest, hfree, hacc', hconfig, ?_, ?_, ?_⟩
  · intro x hx
    simp [rest, hx]
  · grind [HoldsList.mem]
  · rwa [hnull]

theorem touch_moves (hacc : Accounts p [] holds) (hlist : HoldsList p holds h [])
    {hits : List Nat} (hnodup : (nonNull p.nullBlock hits).Nodup)
    (hreal : ∀ b ∈ nonNull p.nullBlock hits, p.Real b) :
    ∃ p' holds', p.touch hits = .ok p' ∧ Moves h p p' holds holds' hits ∧
      holds.Sublist holds' ∧
      p'.getNumFreeBlocks = p.getNumFreeBlocks -
        SingleTypeKVCacheManager.getNumEvictableBlocks p hits := by
  have hnone : ∀ b, (h, b) ∉ holds := fun b hb => by
    simpa [nonNull] using (hlist.mem b).mp hb
  obtain ⟨p', htouch, hacc', hconfig, hfree⟩ := touch_spec hacc hnodup
    fun b hb => ⟨hreal b hb, hnone b⟩
  refine ⟨p', _, htouch, Moves.add hlist hacc' hconfig, sublist_append_right _ _, ?_⟩
  rw [hfree, SingleTypeKVCacheManager.getNumEvictableBlocks, countP_eq_length_filter]
  rfl

theorem getNewBlocks_moves [DecidableEq H] (hacc : Accounts p [] holds)
    (hlist : HoldsList p holds h blocks) {n : Int} (hpos : 0 ≤ n)
    (hn : n ≤ p.getNumFreeBlocks) :
    ∃ ret p' holds', p.getNewBlocks n = .ok (ret, p') ∧ (ret.length : Int) = n ∧
      Moves h p p' holds holds' (blocks ++ ret) ∧ holds.Sublist holds' ∧
      p'.getNumFreeBlocks = p.getNumFreeBlocks - n := by
  obtain ⟨k, rfl⟩ := Int.eq_ofNat_of_zero_le hpos
  obtain ⟨ret, p', hget, hlen, hret, hacc', hconfig, hfree⟩ :=
    getNewBlocks_spec hacc hn h
  have hretNull : nonNull p.nullBlock ret = ret :=
    filter_eq_self.mpr fun b hb => by simpa using (hret b hb).1.2
  rw [← hretNull] at hacc'
  exact ⟨ret, p', _, hget, by rw [hlen], Moves.add hlist hacc' hconfig,
    sublist_append_right _ _, hfree⟩

end moves

end LongCtxSpecDecode
