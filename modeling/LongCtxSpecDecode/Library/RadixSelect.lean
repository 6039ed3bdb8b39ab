import Mathlib

/-!
# Selection by digits

The smallest keys of a list are found digit by digit, from the leading one. After some digits it is
known how many keys are before the leading digits of the last key that is taken, and how many with
the same leading digits are still needed. The items are put out from the front and from the back.
-/

namespace LongCtxSpecDecode.Library.RadixSelect

open List Function

variable {ι : Type}

/-! ### The largest items -/

section Top

variable {α : Type} [LinearOrder α] {value : ι → α} {chosen items : List ι}

def Top (value : ι → α) (chosen items : List ι) : Prop :=
  ∃ rest, (chosen ++ rest).Perm items ∧ ∀ i ∈ chosen, ∀ j ∈ rest, value j ≤ value i

theorem Top.sorted_eq_take (h : Top value chosen items) :
    (chosen.map value).insertionSort (· ≥ ·) =
      ((items.map value).insertionSort (· ≥ ·)).take chosen.length := by
  obtain ⟨rest, hperm, hle⟩ := h
  have hsplit : (items.map value).insertionSort (· ≥ ·) =
      (chosen.map value).insertionSort (· ≥ ·) ++ (rest.map value).insertionSort (· ≥ ·) := by
    refine Perm.eq_of_pairwise' (pairwise_insertionSort ..) ?_ ?_
    · grind [pairwise_insertionSort, mem_insertionSort]
    · grind [perm_insertionSort]
  rw [hsplit, take_left' (by simp)]

theorem Top.perm {chosen' items' : List ι} (h : Top value chosen items)
    (hchosen : chosen.Perm chosen') (hitems : items.Perm items') : Top value chosen' items' := by
  obtain ⟨rest, hperm, hle⟩ := h
  exact ⟨rest, ((hchosen.symm.append_right rest).trans hperm).trans hitems,
    fun i hi => hle i (hchosen.mem_iff.mpr hi)⟩

theorem Top.mono {β : Type} [LinearOrder β] {value' : ι → β} (h : Top value chosen items)
    (hvalue : ∀ i ∈ items, ∀ j ∈ items, value j ≤ value i → value' j ≤ value' i) :
    Top value' chosen items := by
  obtain ⟨rest, hperm, hle⟩ := h
  exact ⟨rest, hperm, fun i hi j hj => hvalue i (hperm.mem_iff.mp (mem_append_left _ hi)) j
    (hperm.mem_iff.mp (mem_append_right _ hj)) (hle i hi j hj)⟩

end Top

/-! ### Digits -/

section Digits

/-- The leading digits of a key: those above the lowest `shift` bits. -/
def lead (shift x : Nat) : Nat := x / 2 ^ shift

/-- The digit of a key above its lowest `shift` bits. -/
def digit (bits shift x : Nat) : Nat := x / 2 ^ shift % 2 ^ bits

theorem lead_add (shift bits x : Nat) : lead (shift + bits) x = lead shift x / 2 ^ bits := by
  rw [lead, lead, Nat.div_div_eq_div_mul, Nat.pow_add]

theorem lead_zero (x : Nat) : lead 0 x = x := by
  rw [lead, Nat.pow_zero, Nat.div_one]

theorem digit_lt (bits shift x : Nat) : digit bits shift x < 2 ^ bits :=
  Nat.mod_lt _ (Nat.two_pow_pos _)

variable {bits shift x a b : Nat}

theorem lead_eq_iff (hb : b < 2 ^ bits) :
    lead shift x = a * 2 ^ bits + b ↔ lead (shift + bits) x = a ∧ digit bits shift x = b := by
  have hdiv := Nat.div_add_mod' (lead shift x) (2 ^ bits)
  rw [lead_add]
  change lead shift x / 2 ^ bits * 2 ^ bits + digit bits shift x = _ at hdiv
  constructor
  · grind [Nat.add_mul_div_right, Nat.div_eq_of_lt]
  · rintro ⟨hlead, hdigit⟩
    rw [hlead, hdigit] at hdiv
    exact hdiv.symm

theorem lead_lt_iff (hb : b < 2 ^ bits) : lead shift x < a * 2 ^ bits + b ↔
    lead (shift + bits) x < a ∨ lead (shift + bits) x = a ∧ digit bits shift x < b := by
  have hdiv := Nat.div_add_mod' (lead shift x) (2 ^ bits)
  have hmod := digit_lt bits shift x
  rw [lead_add]
  change lead shift x / 2 ^ bits * 2 ^ bits + digit bits shift x = _ at hdiv
  generalize lead shift x / 2 ^ bits = q at hdiv ⊢
  rcases Nat.lt_trichotomy q a with hlt | rfl | hlt
  · have hmul : (q + 1) * 2 ^ bits ≤ a * 2 ^ bits := Nat.mul_le_mul_right _ hlt
    rw [Nat.succ_mul] at hmul
    omega
  · omega
  · have hmul : (a + 1) * 2 ^ bits ≤ q * 2 ^ bits := Nat.mul_le_mul_right _ hlt
    rw [Nat.succ_mul] at hmul
    omega

end Digits

/-! ### Weights -/

section Weights

variable {M : Type} [AddCommMonoid M] {weight : ι → M} {items items' : List ι} {p q r : ι → Bool}

def massOf (weight : ι → M) (items : List ι) (p : ι → Bool) : M := ((items.filter p).map weight).sum

theorem massOf_one : massOf (fun _ => 1) items p = items.countP p := by
  rw [massOf, map_const', sum_replicate_nat, Nat.mul_one, countP_eq_length_filter]

theorem massOf_perm (h : items.Perm items') : massOf weight items p = massOf weight items' p :=
  ((h.filter p).map weight).sum_eq

theorem massOf_congr (h : ∀ i ∈ items, p i = q i) :
    massOf weight items p = massOf weight items q := by
  rw [massOf, massOf, filter_congr h]

theorem massOf_eq_zero (h : massOf (fun _ => 1) items p = 0) : massOf weight items p = 0 := by
  rw [massOf_one, countP_eq_length_filter, length_eq_zero_iff] at h
  rw [massOf, h, map_nil, sum_nil]

theorem massOf_flatMap {κ : Type} (f : κ → List ι) (l : List κ) :
    massOf weight (l.flatMap f) p = (l.map fun x => massOf weight (f x) p).sum := by
  induction l with
  | nil => rfl
  | cons x l ih =>
    rw [flatMap_cons, massOf, filter_append, map_append, sum_append,
      map_cons, sum_cons, ← ih]
    rfl

theorem massOf_split (h : ∀ i, p i = true ↔ q i = true ∨ r i = true)
    (hdisjoint : ∀ i, q i = true → r i = false) (items : List ι) :
    massOf weight items p = massOf weight items q + massOf weight items r := by
  unfold massOf
  induction items with
  | nil => exact (add_zero _).symm
  | cons i items ih =>
    grind

theorem massOf_nonneg [LinearOrder M] [IsOrderedAddMonoid M] (hweight : ∀ i ∈ items, 0 ≤ weight i) :
    0 ≤ massOf weight items p := by
  refine sum_nonneg fun x hx => ?_
  obtain ⟨i, hi, rfl⟩ := mem_map.mp hx
  exact hweight i (mem_of_mem_filter hi)

end Weights

/-! ### Narrowing -/

section Narrowing

variable (key : ι → Nat)

/-- The items before those with the leading digits `a`. -/
def before (shift a : Nat) (i : ι) : Bool := decide (lead shift (key i) < a)

/-- The items with the leading digits `a`. -/
def within (shift a : Nat) (i : ι) : Bool := decide (lead shift (key i) = a)

variable {M : Type} [AddCommMonoid M] (weight : ι → M)

/-- The weight of the items with the leading digits `a` and the next digit `b`. -/
def digitMass (bits shift a : Nat) (items : List ι) (b : Nat) : M :=
  massOf weight items fun i =>
    within key (shift + bits) a i && decide (digit bits shift (key i) = b)

def massBelow (bits shift a : Nat) (items : List ι) (b : Nat) : M :=
  massOf weight items fun i =>
    within key (shift + bits) a i && decide (digit bits shift (key i) < b)

/-- Of the weight `k` that is to be taken, `needed` is from items with the leading digits `a`, and
the rest is that of all the items before. -/
structure Narrowed [LinearOrder M] (items : List ι) (shift a : Nat) (k needed : M) : Prop where
  mass : massOf weight items (before key shift a) + needed = k
  pos : 0 < needed
  le : needed ≤ massOf weight items (within key shift a)

variable {key weight} {items items' : List ι} {bits shift a b : Nat}

theorem massBelow_zero : massBelow key weight bits shift a items 0 = 0 := by
  simp [massBelow, massOf]

theorem massBelow_succ : massBelow key weight bits shift a items (b + 1) =
    massBelow key weight bits shift a items b + digitMass key weight bits shift a items b := by
  refine massOf_split (fun i => ?_) (fun i hi => ?_) items
  · simp only [Bool.and_eq_true, decide_eq_true_eq, ← and_or_left, Nat.lt_succ_iff_lt_or_eq]
  · have hlt := of_decide_eq_true (Bool.and_eq_true_iff.mp hi).2
    rw [decide_eq_false hlt.ne, Bool.and_false]

theorem sum_digitMass (b : Nat) :
    ((range b).map (digitMass key weight bits shift a items)).sum =
      massBelow key weight bits shift a items b := by
  induction b with
  | zero => exact massBelow_zero.symm
  | succ b ih =>
    rw [range_succ, map_append, sum_append, ih, massBelow_succ]
    simp

theorem massBelow_all : massBelow key weight bits shift a items (2 ^ bits) =
    massOf weight items (within key (shift + bits) a) :=
  massOf_congr fun i _ => by rw [decide_eq_true (digit_lt ..), Bool.and_true]

theorem massOf_before (hb : b < 2 ^ bits) :
    massOf weight items (before key shift (a * 2 ^ bits + b)) =
      massOf weight items (before key (shift + bits) a) +
        massBelow key weight bits shift a items b := by
  refine massOf_split (fun i => ?_) (fun i hi => ?_) items
  · simp only [before, within, Bool.and_eq_true, decide_eq_true_eq, lead_lt_iff hb]
  · rw [within, decide_eq_false (Nat.ne_of_lt (of_decide_eq_true hi)), Bool.false_and]

theorem massOf_within (hb : b < 2 ^ bits) :
    massOf weight items (within key shift (a * 2 ^ bits + b)) =
      digitMass key weight bits shift a items b := by
  refine massOf_congr fun i _ => ?_
  rw [Bool.eq_iff_iff]
  simp only [within, Bool.and_eq_true, decide_eq_true_eq, lead_eq_iff hb]

theorem digitMass_perm (h : items.Perm items') :
    digitMass key weight bits shift a items = digitMass key weight bits shift a items' :=
  funext fun _ => massOf_perm h

section Ordered

variable [LinearOrder M] {k needed : M}

theorem narrowed_start {width : Nat} (hkey : ∀ i ∈ items, key i < 2 ^ width) (hpos : 0 < k)
    (hle : k ≤ (items.map weight).sum) : Narrowed key weight items width 0 k k := by
  have hzero : ∀ i ∈ items, lead width (key i) = 0 := fun i hi => Nat.div_eq_of_lt (hkey i hi)
  have hnone : items.filter (before key width 0) = [] :=
    filter_eq_nil_iff.mpr fun i _ hi => Nat.not_lt_zero _ (of_decide_eq_true hi)
  have hall : items.filter (within key width 0) = items :=
    filter_eq_self.mpr fun i hi => decide_eq_true (hzero i hi)
  exact ⟨by rw [massOf, hnone, map_nil, sum_nil, zero_add], hpos, by rwa [massOf, hall]⟩

theorem Narrowed.exists_within (h : Narrowed key weight items shift a k needed) :
    ∃ i ∈ items, lead shift (key i) = a := by
  by_contra! hnone
  have hnil : items.filter (within key shift a) = [] :=
    filter_eq_nil_iff.mpr fun i hi hwithin => hnone i hi (of_decide_eq_true hwithin)
  have hle := h.le
  rw [massOf, hnil] at hle
  exact absurd h.pos hle.not_gt

variable [IsOrderedCancelAddMonoid M]

theorem massBelow_mono (hweight : ∀ i ∈ items, 0 ≤ weight i) {b b' : Nat} (h : b ≤ b') :
    massBelow key weight bits shift a items b ≤ massBelow key weight bits shift a items b' := by
  induction h with
  | refl => exact le_rfl
  | step _ ih =>
    rw [massBelow_succ]
    exact ih.trans (le_add_of_nonneg_right (massOf_nonneg hweight))

/-- One of the next digits has the last item that is taken. -/
theorem Narrowed.exists_digit (h : Narrowed key weight items (shift + bits) a k needed)
    (hweight : ∀ i ∈ items, 0 ≤ weight i) :
    ∃ b < 2 ^ bits, ∀ i, massBelow key weight bits shift a items i < needed ∧
      needed ≤ massBelow key weight bits shift a items (i + 1) ↔ i = b := by
  have hall : needed ≤ massBelow key weight bits shift a items (2 ^ bits) := by
    rw [massBelow_all]
    exact h.le
  have hexists : ∃ b < 2 ^ bits, massBelow key weight bits shift a items b < needed ∧
      needed ≤ massBelow key weight bits shift a items (b + 1) := by
    generalize 2 ^ bits = n at hall
    induction n with
    | zero =>
      rw [massBelow_zero] at hall
      exact absurd h.pos hall.not_gt
    | succ n ih =>
      grind
  obtain ⟨b, hb, hlt, hle⟩ := hexists
  refine ⟨b, hb, fun i => ⟨fun ⟨hlt', hle'⟩ => ?_, fun hi => hi ▸ ⟨hlt, hle⟩⟩⟩
  -- the running sum does not fall
  rcases Nat.lt_trichotomy i b with hib | hib | hib
  · exact absurd (hle'.trans (massBelow_mono hweight hib)) hlt.not_ge
  · exact hib
  · exact absurd (hle.trans (massBelow_mono hweight hib)) hlt'.not_ge

/-- With the digit of the last item that is taken, one more leading digit is known. -/
theorem Narrowed.next {needed' : M} (h : Narrowed key weight items (shift + bits) a k needed)
    (hb : b < 2 ^ bits) (hlt : massBelow key weight bits shift a items b < needed)
    (hle : needed ≤ massBelow key weight bits shift a items (b + 1))
    (hneeded : massBelow key weight bits shift a items b + needed' = needed) :
    Narrowed key weight items shift (a * 2 ^ bits + b) k needed' := by
  refine ⟨?_, ?_, ?_⟩
  · rw [massOf_before hb, add_assoc, hneeded, h.mass]
  · rw [← hneeded] at hlt
    exact pos_of_lt_add_right hlt
  · rw [massBelow_succ, ← hneeded] at hle
    rw [massOf_within hb]
    exact le_of_add_le_add_left hle

end Ordered

theorem filter_lead_perm (key : ι → Nat) (items : List ι) (shift a : Nat) :
    (items.filter (before key shift a) ++ (items.filter (within key shift a) ++
      items.filter fun i => decide (a < lead shift (key i)))).Perm items := by
  have hsplit := filter_append_perm (before key shift a) items
  have hrest := filter_append_perm (within key shift a)
    (items.filter fun i => !before key shift a i)
  have hwithin : items.filter (fun i => within key shift a i && !before key shift a i) =
      items.filter (within key shift a) := by
    refine filter_congr fun i _ => ?_
    rw [Bool.eq_iff_iff]
    simp only [before, within, Bool.and_eq_true, Bool.not_eq_true', decide_eq_true_eq,
      decide_eq_false_iff_not]
    omega
  have hafter : items.filter (fun i => !within key shift a i && !before key shift a i) =
      items.filter (fun i => decide (a < lead shift (key i))) := by
    refine filter_congr fun i _ => ?_
    rw [Bool.eq_iff_iff]
    simp only [before, within, Bool.and_eq_true, Bool.not_eq_true', decide_eq_true_eq,
      decide_eq_false_iff_not]
    omega
  rw [filter_filter, filter_filter, hwithin, hafter] at hrest
  exact (Perm.append_left _ hrest).trans hsplit

theorem le_of_lead_lt {x y : Nat} (h : lead shift x < lead shift y) : x ≤ y :=
  Nat.le_of_lt (Nat.lt_of_not_le fun hle => Nat.not_lt.mpr (Nat.div_le_div_right hle) h)

/-- All items before, and as many as needed of those with the same leading digits, are the smallest
items: either no digit is left, or all of them are needed. -/
theorem top_take {α : Type} [LinearOrder α] {value : ι → α} {needed : Nat}
    (hvalue : ∀ i ∈ items, ∀ j ∈ items, key i ≤ key j → value j ≤ value i)
    (hlast : shift = 0 ∨ needed = items.countP (within key shift a)) :
    Top value (items.filter (before key shift a) ++ (items.filter (within key shift a)).take needed)
      items := by
  refine ⟨(items.filter (within key shift a)).drop needed ++
    items.filter (fun i => decide (a < lead shift (key i))), ?_, fun i hi j hj => ?_⟩
  · rw [append_assoc, ← append_assoc (take needed _), take_append_drop]
    exact filter_lead_perm key items shift a
  · have hi' : i ∈ items ∧ lead shift (key i) ≤ a := by
      rcases mem_append.mp hi with hbefore | hwithin
      · obtain ⟨hmem, hlt⟩ := mem_filter.mp hbefore
        exact ⟨hmem, Nat.le_of_lt (of_decide_eq_true hlt)⟩
      · obtain ⟨hmem, heq⟩ := mem_filter.mp (mem_of_mem_take hwithin)
        exact ⟨hmem, Nat.le_of_eq (of_decide_eq_true heq)⟩
    rcases mem_append.mp hj with hdropped | hafter
    · obtain ⟨hmem, heq⟩ := mem_filter.mp (mem_of_mem_drop hdropped)
      have heq : lead shift (key j) = a := of_decide_eq_true heq
      rcases hlast with rfl | hall
      · refine hvalue i hi'.1 j hmem ?_
        rw [lead_zero] at heq
        rw [heq, ← lead_zero (key i)]
        exact hi'.2
      · rw [countP_eq_length_filter] at hall
        rw [hall, drop_length] at hdropped
        cases hdropped
    · obtain ⟨hmem, hlt⟩ := mem_filter.mp hafter
      exact hvalue i hi'.1 j hmem
        (le_of_lead_lt (Nat.lt_of_le_of_lt hi'.2 (of_decide_eq_true hlt)))

end Narrowing

/-! ### Putting out in two directions -/

section Placing

structure Placed (ι : Type) where
  out : Nat → ι
  outCnt : Nat
  outBackCnt : Nat

/-- An item before the others goes to the front, one of those with the last key to the back. -/
def Placed.place (isBefore isWithin : ι → Bool) (k needed : Nat) (p : Placed ι) (i : ι) :
    Placed ι :=
  if isBefore i then { p with out := update p.out p.outCnt i, outCnt := p.outCnt + 1 }
  else if isWithin i then
    { p with
      out := if p.outBackCnt < needed then update p.out (k - 1 - p.outBackCnt) i else p.out
      outBackCnt := p.outBackCnt + 1 }
  else p

variable {isBefore isWithin : ι → Bool} {k needed : Nat} {out : Nat → ι}

structure Placed.After (isBefore isWithin : ι → Bool) (k needed : Nat) (out : Nat → ι)
    (done : List ι) (p : Placed ι) : Prop where
  outCnt : p.outCnt = (done.filter isBefore).length
  outBackCnt : p.outBackCnt = (done.filter isWithin).length
  front : ∀ j i, (done.filter isBefore)[j]? = some i → p.out j = i
  back : ∀ j < needed, ∀ i, (done.filter isWithin)[j]? = some i → p.out (k - 1 - j) = i
  other : ∀ j, k ≤ j → p.out j = out j

theorem Placed.After.place {done : List ι} {p : Placed ι} {i : ι}
    (h : p.After isBefore isWithin k needed out done)
    (hdisjoint : isBefore i = true → isWithin i = false)
    (hcount : ((done ++ [i]).filter isBefore).length + needed ≤ k) :
    (p.place isBefore isWithin k needed i).After isBefore isWithin k needed out (done ++ [i]) := by
  obtain ⟨hcnt, hbackcnt, hfront, hback, hother⟩ := h
  have hsnoc : ∀ (l : List ι) (j : Nat) (i' : ι), (l ++ [i])[j]? = some i' →
      l[j]? = some i' ∨ j = l.length ∧ i' = i := by
    grind
  have hlt : ∀ (l : List ι) (j : Nat) (i' : ι), l[j]? = some i' → j < l.length :=
    fun l j i' hj => (List.getElem?_eq_some_iff.mp hj).1
  unfold Placed.place
  rw [filter_append, filter_singleton] at hcount
  cases hbefore : isBefore i with
  | true =>
    have hwithin := hdisjoint hbefore
    simp only [hbefore, cond_true, length_append, length_cons] at hcount
    refine ⟨?_, ?_, fun j i' hj => ?_, fun j hj i' hi' => ?_, fun j hj => ?_⟩
    · simp [hbefore, hcnt]
    · simp [hwithin, hbackcnt]
    · grind
    · rw [filter_append, filter_singleton, hwithin, cond_false, append_nil] at hi'
      exact (update_of_ne (by omega) ..).trans (hback j hj i' hi')
    · exact (update_of_ne (by omega) ..).trans (hother j hj)
  | false =>
    simp only [hbefore, cond_false, append_nil] at hcount
    have hsame : (done ++ [i]).filter isBefore = done.filter isBefore := by simp [hbefore]
    simp only [Bool.false_eq_true, if_false]
    cases hwithin : isWithin i with
    | true =>
      simp only [if_true]
      refine ⟨by rw [hsame, hcnt], by simp [hwithin, hbackcnt], fun j i' hj => ?_,
        fun j hj i' hi' => ?_, fun j hj => ?_⟩
      · rw [hsame] at hj
        have hj' := hlt _ _ _ hj
        split_ifs with hneeded
        · exact (update_of_ne (by omega) ..).trans (hfront j i' hj)
        · exact hfront j i' hj
      · rw [filter_append, filter_singleton, hwithin] at hi'
        rcases hsnoc _ j i' hi' with hold | ⟨rfl, rfl⟩
        · have hj' := hlt _ _ _ hold
          split_ifs with hneeded
          · exact (update_of_ne (by omega) ..).trans (hback j hj i' hold)
          · exact hback j hj i' hold
        · rw [if_pos (hbackcnt ▸ hj), hbackcnt]
          exact update_self ..
      · split_ifs with hneeded
        · exact (update_of_ne (by omega) ..).trans (hother j hj)
        · exact hother j hj
    | false =>
      simp only [Bool.false_eq_true, if_false]
      have hsame' : (done ++ [i]).filter isWithin = done.filter isWithin := by simp [hwithin]
      exact ⟨by rw [hsame, hcnt], by rw [hsame', hbackcnt], by rw [hsame]; exact hfront,
        by rw [hsame']; exact hback, hother⟩

theorem foldl_place (items : List ι) (hdisjoint : ∀ i, isBefore i = true → isWithin i = false)
    (hcount : (items.filter isBefore).length + needed ≤ k) :
    (items.foldl (Placed.place isBefore isWithin k needed)
      { out, outCnt := 0, outBackCnt := 0 }).After isBefore isWithin k needed out items := by
  induction items using reverseRecOn with
  | nil => exact ⟨rfl, rfl, fun j i h => by simp at h, fun j _ i h => by simp at h, fun _ _ => rfl⟩
  | append_singleton items i ih =>
    rw [foldl_append]
    refine (ih ?_).place (hdisjoint i) hcount
    rw [filter_append, length_append] at hcount
    omega

theorem Placed.After.entries {items : List ι} {p : Placed ι}
    (h : p.After isBefore isWithin k needed out items)
    (hcount : (items.filter isBefore).length + needed = k)
    (hneeded : needed ≤ (items.filter isWithin).length) :
    (range k).map p.out =
      items.filter isBefore ++ ((items.filter isWithin).take needed).reverse := by
  refine ext_getElem? fun j => ?_
  by_cases hj : j < k
  · rw [getElem?_map, getElem?_range hj, Option.map_some, getElem?_append]
    split_ifs with hfront
    · rw [getElem?_eq_getElem hfront, h.front j _ (getElem?_eq_getElem hfront)]
    · have hlen : ((items.filter isWithin).take needed).length = needed := by
        rw [length_take]
        omega
      have hindex : needed - 1 - (j - (items.filter isBefore).length) < needed := by omega
      have hback : k - 1 - (needed - 1 - (j - (items.filter isBefore).length)) = j := by omega
      have hsome : needed - 1 - (j - (items.filter isBefore).length) <
          (items.filter isWithin).length := by omega
      have hout := h.back _ hindex _ (getElem?_eq_getElem hsome)
      rw [hback] at hout
      rw [getElem?_reverse (by omega), hlen, getElem?_take_of_lt hindex,
        getElem?_eq_getElem hsome, hout]
  · rw [getElem?_eq_none (by simpa using hj)]
    simp
    omega

/-- Whatever their order, the items that are put out are the largest. -/
theorem foldl_place_top {α : Type} [LinearOrder α] {key : ι → Nat} {value : ι → α}
    {order items : List ι} {shift a : Nat}
    (h : Narrowed key (fun _ => 1) items shift a k needed)
    (hvalue : ∀ i ∈ items, ∀ j ∈ items, key i ≤ key j → value j ≤ value i)
    (hlast : shift = 0 ∨ needed = massOf (fun _ => 1) items (within key shift a))
    (horder : order.Perm items) (out : Nat → ι) :
    Top value ((range k).map (order.foldl (Placed.place (before key shift a)
      (within key shift a) k needed) { out, outCnt := 0, outBackCnt := 0 }).out) items ∧
    ∀ j, k ≤ j → (order.foldl (Placed.place (before key shift a) (within key shift a) k needed)
      { out, outCnt := 0, outBackCnt := 0 }).out j = out j := by
  have hcount := h.mass
  have hneeded := h.le
  rw [massOf_perm horder.symm, massOf_one, countP_eq_length_filter] at hcount hneeded
  have hdisjoint : ∀ i, before key shift a i = true → within key shift a i = false := fun i hi =>
    decide_eq_false (Nat.ne_of_lt (of_decide_eq_true hi))
  have hafter : Placed.After _ _ k needed out order _ := foldl_place order hdisjoint hcount.le
  refine ⟨?_, hafter.other⟩
  rw [hafter.entries hcount hneeded]
  refine (top_take (fun i hi j hj => hvalue i (horder.mem_iff.mp hi) j (horder.mem_iff.mp hj))
    ?_).perm (Perm.append_left _ (reverse_perm _).symm) horder
  rwa [← massOf_one, massOf_perm horder]

end Placing

end LongCtxSpecDecode.Library.RadixSelect
