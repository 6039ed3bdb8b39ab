import LongCtxSpecDecode.Library.OrderedDict

/-!
# Grouping by a key

The first item of each key, the items of a sorted list cut where the key changes, and the items of
a list dealt out to a number of takers.
-/

namespace LongCtxSpecDecode.Library

open List

section Firsts

variable {α κ : Type} [DecidableEq κ] (key : α → κ)

def firstsBy : List α → List α
  | [] => []
  | a :: l => a :: (firstsBy l).filter fun b => key b ≠ key a

variable {key} {l : List α} {a : α}

theorem mem_of_mem_firstsBy (h : a ∈ firstsBy key l) : a ∈ l := by
  induction l with
  | nil => exact h
  | cons b l ih =>
    rcases mem_cons.mp h with rfl | h
    · exact mem_cons_self
    · exact mem_cons_of_mem _ (ih (mem_filter.mp h).1)

theorem exists_mem_firstsBy (key : α → κ) (h : a ∈ l) : ∃ b ∈ firstsBy key l, key b = key a := by
  induction l with
  | nil => cases h
  | cons c l ih =>
    rcases mem_cons.mp h with rfl | h
    · exact ⟨a, mem_cons_self, rfl⟩
    · obtain ⟨b, hb, hkey⟩ := ih h
      by_cases hc : key b = key c
      · exact ⟨c, mem_cons_self, hc.symm.trans hkey⟩
      · exact ⟨b, mem_cons_of_mem _ (mem_filter.mpr ⟨hb, by simpa using hc⟩), hkey⟩

theorem pairwise_firstsBy (l : List α) :
    (firstsBy key l).Pairwise fun a b => key a ≠ key b := by
  induction l with
  | nil => exact .nil
  | cons a l ih =>
    refine .cons (fun b hb => ?_) (ih.filter _)
    have hne := (mem_filter.mp hb).2
    exact Ne.symm (by simpa using hne)

theorem nodup_firstsBy_id {κ : Type} [DecidableEq κ] (l : List κ) : (firstsBy id l).Nodup :=
  pairwise_firstsBy l

theorem mem_firstsBy_id {κ : Type} [DecidableEq κ] {l : List κ} {k : κ} :
    k ∈ firstsBy id l ↔ k ∈ l := by
  constructor
  · exact mem_of_mem_firstsBy
  · intro h
    obtain ⟨b, hb, rfl⟩ := exists_mem_firstsBy id h
    exact hb

end Firsts

section Unique

variable {α κ : Type} [LinearOrder κ] (key : α → κ)

def sortBy (l : List α) : List α := l.insertionSort fun a b => key a ≤ key b

def uniqueBy (l : List α) : List α := sortBy key (firstsBy key l)

variable {key} {l : List α} {a : α}

theorem mem_sortBy : a ∈ sortBy key l ↔ a ∈ l :=
  mem_insertionSort _

theorem sortBy_perm (key : α → κ) (l : List α) : (sortBy key l).Perm l :=
  perm_insertionSort _ l

theorem pairwise_sortBy (key : α → κ) (l : List α) :
    (sortBy key l).Pairwise fun a b => key a ≤ key b := by
  exact pairwise_insertionSort _ l

theorem sortBy_of_pairwise (h : l.Pairwise fun a b => key a ≤ key b) : sortBy key l = l :=
  h.insertionSort_eq

theorem mem_of_mem_uniqueBy (h : a ∈ uniqueBy key l) : a ∈ l :=
  mem_of_mem_firstsBy (mem_sortBy.mp h)

theorem exists_mem_uniqueBy (key : α → κ) (h : a ∈ l) : ∃ b ∈ uniqueBy key l, key b = key a := by
  obtain ⟨b, hb, hkey⟩ := exists_mem_firstsBy key h
  exact ⟨b, mem_sortBy.mpr hb, hkey⟩

theorem pairwise_uniqueBy (l : List α) : (uniqueBy key l).Pairwise fun a b => key a < key b := by
  have hsorted := pairwise_sortBy key (firstsBy key l)
  have hsymm : ∀ {a b : α}, key a ≠ key b → key b ≠ key a := fun h => h.symm
  have hdistinct : (uniqueBy key l).Pairwise fun a b => key a ≠ key b :=
    (perm_insertionSort _ _).symm.pairwise (pairwise_firstsBy l) hsymm
  exact hsorted.imp₂ (fun _ _ hle hne => lt_of_le_of_ne hle hne) hdistinct

end Unique

section Lexsort

variable {α κ : Type} [LinearOrder α] [LinearOrder κ] (key : α → κ)

def lexsort (l : List α) : List α :=
  l.insertionSort fun a b => key a < key b ∨ key a = key b ∧ a ≤ b

variable {key} {l : List α}

theorem pairwise_lexsort (key : α → κ) (l : List α) :
    (lexsort key l).Pairwise fun a b => key a < key b ∨ key a = key b ∧ a ≤ b := by
  have htotal : Std.Total fun a b => key a < key b ∨ key a = key b ∧ a ≤ b := ⟨fun a b => by
    grind⟩
  have htrans : IsTrans α fun a b => key a < key b ∨ key a = key b ∧ a ≤ b :=
    ⟨fun a b c hab hbc => by
      grind⟩
  exact pairwise_insertionSort _ l

theorem pairwise_key_lexsort (key : α → κ) (l : List α) :
    (lexsort key l).Pairwise fun a b => key a ≤ key b :=
  (pairwise_lexsort key l).imp fun h => h.elim le_of_lt fun heq => heq.1.le

theorem filter_lexsort (hl : l.Pairwise (· < ·)) (k : κ) :
    ((lexsort key l).filter fun a => key a = k) = l.filter fun a => key a = k := by
  have hnodup : (lexsort key l).Nodup :=
    (perm_insertionSort _ l).nodup_iff.mpr (hl.imp fun h => h.ne)
  have hsorted : ((lexsort key l).filter fun a => key a = k).Pairwise (· < ·) := by
    have hboth := ((pairwise_lexsort key l).and hnodup).filter fun a => key a = k
    refine hboth.imp_of_mem fun {a b} ha hb hab => ?_
    have hka : key a = k := by simpa using (mem_filter.mp ha).2
    have hkb : key b = k := by simpa using (mem_filter.mp hb).2
    rcases hab.1 with hlt | ⟨-, hle⟩
    · exact absurd (hka.trans hkb.symm) hlt.ne
    · exact lt_of_le_of_ne hle hab.2
  refine hsorted.eq_of_mem_iff (hl.filter _) fun a => ?_
  rw [mem_filter, mem_filter, lexsort, mem_insertionSort]

end Lexsort

section Runs

variable {α κ : Type} [LinearOrder κ] (key : α → κ)

def consRun (a : α) : OrderedDict κ (List α) → OrderedDict κ (List α)
  | [] => [(key a, [a])]
  | (k, run) :: runs =>
    if key a = k then (k, a :: run) :: runs else (key a, [a]) :: (k, run) :: runs

def runsBy : List α → OrderedDict κ (List α)
  | [] => []
  | a :: l => consRun key a (runsBy l)

variable {key} {a : α} {k : κ}

theorem keys_consRun (a : α) (d : OrderedDict κ (List α)) :
    (consRun key a d).keys.head? = some (key a) := by
  cases d with
  | nil => rfl
  | cons item d =>
    rw [consRun]
    split
    · rename_i heq
      exact congrArg some heq.symm
    · rfl

theorem exists_of_mem_keys_runsBy {l : List α} (h : k ∈ (runsBy key l).keys) :
    ∃ a ∈ l, key a = k := by
  induction l with
  | nil => cases h
  | cons a l ih =>
    have hmem : k = key a ∨ k ∈ (runsBy key l).keys := by
      unfold runsBy at h
      cases hruns : runsBy key l with
      | nil =>
        rw [hruns] at h
        exact Or.inl (mem_singleton.mp h)
      | cons item runs =>
        rw [hruns, consRun] at h
        split at h
        · exact Or.inr h
        · exact mem_cons.mp h
    rcases hmem with rfl | hmem
    · exact ⟨a, mem_cons_self, rfl⟩
    · obtain ⟨b, hb, hkey⟩ := ih hmem
      exact ⟨b, mem_cons_of_mem _ hb, hkey⟩

theorem get_consRun {d : OrderedDict κ (List α)}
    (hfirst : key a ∈ d.keys → d.keys.head? = some (key a)) (k : κ) :
    ((consRun key a d).get k).getD [] =
      if key a = k then a :: (d.get k).getD [] else (d.get k).getD [] := by
  cases d with
  | nil =>
    simp only [consRun, OrderedDict.get_cons]
    split
    · rfl
    · rfl
  | cons item runs =>
    grind [consRun, OrderedDict.get_cons, OrderedDict.keys, OrderedDict.get_eq_none]

theorem get_runsBy {l : List α} (hsorted : l.Pairwise fun a b => key a ≤ key b) (k : κ) :
    ((runsBy key l).get k).getD [] = l.filter fun a => key a = k := by
  induction l with
  | nil => rfl
  | cons a l ih =>
    obtain ⟨hle, hsorted⟩ := pairwise_cons.mp hsorted
    have hfirst : key a ∈ (runsBy key l).keys →
        (runsBy key l).keys.head? = some (key a) := by
      intro hmem
      cases l with
      | nil => cases hmem
      | cons b l =>
        obtain ⟨c, hc, hkey⟩ := exists_of_mem_keys_runsBy hmem
        have hbc : key b ≤ key c := by
          rcases mem_cons.mp hc with rfl | hc
          · exact le_rfl
          · exact (pairwise_cons.mp hsorted).1 c hc
        have hab : key b = key a := le_antisymm (hkey ▸ hbc) (hle b mem_cons_self)
        exact (keys_consRun b _).trans (congrArg some hab)
    rw [runsBy, get_consRun hfirst, ih hsorted, filter_cons]
    simp only [decide_eq_true_eq]

end Runs

section Deal

variable {α : Type}

/-- What the taker number `i` of `m` takes: an equal part of the items, and one of those left
over. -/
def share (m : Nat) (items : List α) (i : Nat) : List α :=
  (items.drop (i * (items.length / m))).take (items.length / m) ++
    (items[m * (items.length / m) + i]?).toList

/-- The taker of the item number `j` of `count` items. -/
def takerOf (m count j : Nat) : Nat :=
  if j < m * (count / m) then j / (count / m) else j - m * (count / m)

variable {m count i j : Nat} {items : List α} {a : α}

theorem takerOf_lt (hm : 0 < m) (hj : j < count) : takerOf m count j < m := by
  unfold takerOf
  split
  · rename_i hlt
    exact Nat.div_lt_of_lt_mul (Nat.mul_comm m _ ▸ hlt)
  · have hrest := Nat.mod_lt count hm
    have hdiv := Nat.div_add_mod count m
    omega

theorem takerOf_eq_iff (hi : i < m) :
    takerOf m count j = i ↔
      (i * (count / m) ≤ j ∧ j < i * (count / m) + count / m) ∨ j = m * (count / m) + i := by
  have hparts : i * (count / m) + count / m ≤ m * (count / m) := by
    rw [← Nat.succ_mul]
    exact Nat.mul_le_mul_right _ hi
  unfold takerOf
  split
  · rename_i hlt
    have hpos : 0 < count / m := Nat.pos_of_ne_zero fun hzero => by
      rw [hzero] at hlt
      exact Nat.not_lt_zero _ hlt
    rw [Nat.div_eq_iff hpos]
    omega
  · omega

theorem mem_take_drop {start n : Nat} :
    a ∈ (items.drop start).take n ↔ ∃ j, start ≤ j ∧ j < start + n ∧ items[j]? = some a := by
  rw [mem_iff_getElem?]
  constructor
  · grind
  · rintro ⟨j, hstart, hstop, hj⟩
    refine ⟨j - start, ?_⟩
    rw [getElem?_take, if_pos (by omega), getElem?_drop, Nat.add_sub_cancel' hstart, hj]

theorem mem_share (hitems : items.Nodup) (hi : i < m) (hj : items[j]? = some a) :
    a ∈ share m items i ↔ takerOf m items.length j = i := by
  have hindex : ∀ {j' : Nat}, items[j']? = some a → j' = j := fun hj' =>
    (getElem?_inj (List.getElem?_eq_some_iff.mp hj').1 hitems).mp (hj'.trans hj.symm)
  rw [takerOf_eq_iff hi, share, mem_append, mem_take_drop, Option.mem_toList]
  refine or_congr ?_ ?_
  · grind
  · constructor
    · exact fun hrest => (hindex hrest).symm
    · exact fun heq => heq ▸ hj

theorem mem_of_mem_share (h : a ∈ share m items i) : a ∈ items := by
  rcases mem_append.mp h with h | h
  · exact mem_of_mem_drop (mem_of_mem_take h)
  · exact mem_of_getElem? (Option.mem_toList.mp h)

theorem nodup_share (hitems : items.Nodup) (hi : i < m) : (share m items i).Nodup := by
  have hpart : ((items.drop (i * (items.length / m))).take (items.length / m)).Nodup :=
    hitems.sublist ((take_sublist _ _).trans (drop_sublist _ _))
  refine nodup_append'.mpr ⟨hpart, ?_, ?_⟩
  · cases items[m * (items.length / m) + i]? with
    | none => exact nodup_nil
    | some a => exact nodup_singleton a
  · intro a ha hrest
    obtain ⟨j, hstart, hstop, hj⟩ := mem_take_drop.mp ha
    have hlast := Option.mem_toList.mp hrest
    have heq := (getElem?_inj (List.getElem?_eq_some_iff.mp hj).1 hitems).mp
      (hj.trans hlast.symm)
    have hparts : i * (items.length / m) + items.length / m ≤ m * (items.length / m) := by
      rw [← Nat.succ_mul]
      exact Nat.mul_le_mul_right _ hi
    omega

end Deal

section Zip

theorem eq_of_mem_zip {α β γ : Type} {f : α → γ} {g : β → γ} {l : List α} {l' : List β}
    (h : l.map f = l'.map g) {a : α} {b : β} (hab : (a, b) ∈ l.zip l') : f a = g b := by
  obtain ⟨i, hi⟩ := mem_iff_getElem?.mp hab
  obtain ⟨ha, hb⟩ := getElem?_zip_eq_some.mp hi
  have heq := congrArg (·[i]?) h
  simpa [ha, hb] using heq

theorem exists_mem_zip {α β : Type} {l : List α} {l' : List β} (h : l.length = l'.length) {b : β}
    (hb : b ∈ l') : ∃ a, (a, b) ∈ l.zip l' := by
  obtain ⟨i, hi⟩ := mem_iff_getElem?.mp hb
  have hlt : i < l.length := h ▸ (List.getElem?_eq_some_iff.mp hi).1
  exact ⟨l[i], mem_iff_getElem?.mpr
    ⟨i, getElem?_zip_eq_some.mpr ⟨getElem?_eq_getElem hlt, hi⟩⟩⟩

end Zip

section Split

variable {α : Type}

theorem flatMap_ite {α β : Type} (l : List α) (c : α → Bool) (f : α → List β) :
    (l.flatMap fun a => if c a then f a else []) = (l.filter c).flatMap f := by
  induction l with
  | nil => rfl
  | cons a l ih =>
    rw [flatMap_cons, ih, filter_cons]
    split
    · rw [flatMap_cons]
    · rfl

theorem flatMap_pick {κ : Type} [DecidableEq κ] {keys : List κ} (hkeys : keys.Nodup) (k : κ)
    (l : List α) :
    (keys.flatMap fun d => if d = k then l else []) = if k ∈ keys then l else [] := by
  induction keys with
  | nil => rfl
  | cons d keys ih =>
    grind

/-- Every item whose place is `i` modulo `step`. -/
def strided (step i : Nat) (l : List α) : List α :=
  l.zipIdx.filterMap fun item => if item.2 % step = i then some item.1 else none

theorem mem_of_mem_strided {step i : Nat} {l : List α} {a : α} (h : a ∈ strided step i l) :
    a ∈ l := by
  obtain ⟨⟨b, j⟩, hmem, hsome⟩ := mem_filterMap.mp h
  split at hsome
  · cases hsome
    exact fst_mem_of_mem_zipIdx hmem
  · cases hsome

theorem flatMap_range_strided_perm {step : Nat} (hstep : 0 < step) (l : List α) :
    ((range step).flatMap fun i => strided step i l).Perm l := by
  suffices hpairs : ∀ pairs : List (α × Nat), ((range step).flatMap fun i =>
      pairs.filterMap fun item => if item.2 % step = i then some item.1 else none).Perm
        (pairs.map Prod.fst) by
    have hzip := hpairs l.zipIdx
    rwa [zipIdx_map_fst] at hzip
  intro pairs
  induction pairs with
  | nil => simp
  | cons item pairs ih =>
    -- the first item goes to one of the parts, and stands first there
    have hsplit : ∀ i, ((item :: pairs).filterMap fun item : α × Nat =>
        if item.2 % step = i then some item.1 else none) =
        (if i = item.2 % step then [item.1] else []) ++
          pairs.filterMap fun item => if item.2 % step = i then some item.1 else none := by
      intro i
      by_cases hi : i = item.2 % step
      · rw [filterMap_cons, if_pos hi.symm, if_pos hi]
        rfl
      · rw [filterMap_cons, if_neg (Ne.symm hi), if_neg hi]
        rfl
    simp only [hsplit]
    refine (flatMap_append_perm _ _ _).symm.trans ?_
    rw [flatMap_pick nodup_range, if_pos (mem_range.mpr (Nat.mod_lt _ hstep))]
    exact ih.cons item.1

theorem flatMap_range_getElem? {width : Nat} {l : List α} (hwidth : l.length ≤ width) :
    ((range width).flatMap fun i => l[i]?.toList) = l := by
  induction l generalizing width with
  | nil => simp
  | cons a l ih =>
    obtain ⟨width, rfl⟩ : ∃ w, width = w + 1 := ⟨width - 1, by grind⟩
    rw [range_succ_eq_map, flatMap_cons, flatMap_map]
    exact congrArg (a :: ·) (ih (Nat.le_of_succ_le_succ hwidth))

theorem flatMap_columns_perm {width : Nat} {ls : List (List α)}
    (hwidth : ∀ l ∈ ls, l.length ≤ width) :
    ((range width).flatMap fun i => ls.filterMap fun l => l[i]?).Perm ls.flatten := by
  induction ls with
  | nil => simp
  | cons l ls ih =>
    have hsplit : ∀ i : Nat, ((l :: ls).filterMap fun l => l[i]?) =
        l[i]?.toList ++ ls.filterMap fun l => l[i]? := by
      intro i
      rw [filterMap_cons]
      cases l[i]? with
      | none => rfl
      | some a => rfl
    simp only [hsplit]
    refine (flatMap_append_perm _ _ _).symm.trans ?_
    rw [flatMap_range_getElem? (hwidth l mem_cons_self)]
    exact (ih fun l' hl' => hwidth l' (mem_cons_of_mem _ hl')).append_left l

def fileByKey {κ : Type} [DecidableEq κ] (l : List (α × κ)) : OrderedDict κ (List α) :=
  l.foldl (fun d item => d.set item.2 ((d.get item.2).getD [] ++ [item.1])) []

section File

variable {κ : Type} [DecidableEq κ] {d : OrderedDict κ (List α)} {l : List (α × κ)}

theorem flatMap_set_append_perm (hd : d.keys.Nodup) (k : κ) (a : α) :
    ((d.set k ((d.get k).getD [] ++ [a])).flatMap Prod.snd).Perm (d.flatMap Prod.snd ++ [a]) := by
  by_cases hk : k ∈ d.keys
  · rw [OrderedDict.set, if_pos hk]
    induction d with
    | nil => cases hk
    | cons item d ih =>
      obtain ⟨hitem, hd⟩ := nodup_cons.mp hd
      rw [OrderedDict.get_cons, map_cons, flatMap_cons, flatMap_cons]
      by_cases hkey : item.1 = k
      · -- no later item has the key
        have hrest : ∀ v : List α, d.map (fun item => if item.1 = k then (k, v) else item) = d := by
          intro v
          refine (map_congr_left fun other hother => if_neg ?_).trans (map_id d)
          intro hother'
          exact hitem (hkey ▸ hother' ▸ mem_map_of_mem hother)
        rw [if_pos hkey, if_pos hkey, hrest, append_assoc, append_assoc]
        exact Perm.append_left item.2 perm_append_comm
      · have hmem : k ∈ OrderedDict.keys d := (mem_cons.mp hk).resolve_left (Ne.symm hkey)
        rw [if_neg hkey, if_neg hkey, append_assoc]
        exact (ih hd hmem).append_left item.2
  · rw [OrderedDict.set, if_neg hk, OrderedDict.get_eq_none.mpr hk, flatMap_append]
    rfl

theorem fileByKey_induction {P : List (α × κ) → OrderedDict κ (List α) → Prop} (hnil : P [] [])
    (hitem : ∀ l d item, P l d →
      P (l ++ [item]) (d.set item.2 ((d.get item.2).getD [] ++ [item.1]))) :
    ∀ l, P l (fileByKey l) := by
  intro l
  induction l using reverseRecOn with
  | nil => exact hnil
  | append_singleton l item ih =>
    rw [fileByKey, foldl_append]
    exact hitem l _ item ih

theorem nodup_keys_fileByKey (l : List (α × κ)) : (fileByKey l).keys.Nodup :=
  fileByKey_induction nodup_nil (P := fun _ d => d.keys.Nodup)
    (fun _ _ _ hd => OrderedDict.keys_set_nodup hd _ _) l

theorem flatMap_fileByKey_perm (l : List (α × κ)) :
    ((fileByKey l).flatMap Prod.snd).Perm (l.map Prod.fst) := by
  refine (fileByKey_induction ⟨nodup_nil, .refl _⟩
    (P := fun l d => d.keys.Nodup ∧ (d.flatMap Prod.snd).Perm (l.map Prod.fst)) ?_ l).2
  rintro l d item ⟨hd, hperm⟩
  refine ⟨OrderedDict.keys_set_nodup hd _ _, (flatMap_set_append_perm hd _ _).trans ?_⟩
  rw [map_append]
  exact hperm.append_right [item.1]

theorem get_fileByKey {k : κ} {items : List α} (h : (fileByKey l).get k = some items) :
    items ≠ [] ∧ ∀ a ∈ items, (a, k) ∈ l := by
  refine fileByKey_induction (P := fun l d => ∀ k items, d.get k = some items →
    items ≠ [] ∧ ∀ a ∈ items, (a, k) ∈ l) ?_ ?_ l k items h
  · intro k items h
    cases h
  · rintro l d ⟨a, k⟩ ih k' items hget
    rw [OrderedDict.get_set] at hget
    split at hget
    · rename_i hk
      subst hk
      cases hget
      refine ⟨by simp, fun b hb => ?_⟩
      rcases mem_append.mp hb with hb | hb
      · cases hold : d.get k' with
        | none =>
          rw [hold] at hb
          cases hb
        | some old =>
          rw [hold] at hb
          exact mem_append_left _ ((ih k' old hold).2 b hb)
      · obtain rfl := mem_singleton.mp hb
        exact mem_append_right _ (mem_singleton.mpr rfl)
    · obtain ⟨hne, hmem⟩ := ih k' items hget
      exact ⟨hne, fun b hb => mem_append_left _ (hmem b hb)⟩

end File

end Split

end LongCtxSpecDecode.Library
