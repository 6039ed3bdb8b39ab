import Mathlib

/-!
# Rows of preallocated buffers

A row of a preallocated buffer is a function of the column. The columns behind what was written
keep what an earlier use of the row left there. `Carries row start xs` says that the row has the
entries `xs` from the column `start` on.
-/

namespace LongCtxSpecDecode.Library.Slices

open List

variable {α : Type}

/-- `row[start : start + len(xs)] = xs` -/
def write (row : Nat → α) (start : Nat) (xs : List α) : Nat → α := fun c =>
  if start ≤ c then xs.getD (c - start) (row c) else row c

/-- `row[start : stop] = a` -/
def fill (row : Nat → α) (start stop : Nat) (a : α) : Nat → α := fun c =>
  if start ≤ c ∧ c < stop then a else row c

/-- `tgt[:n] = src[:n]` -/
def copyFirst (src tgt : Nat → α) (n : Nat) : Nat → α := fun c =>
  if c < n then src c else tgt c

def Carries (row : Nat → α) (start : Nat) (xs : List α) : Prop :=
  ∀ j a, xs[j]? = some a → row (start + j) = a

variable {row src tgt : Nat → α} {start n c : Nat} {xs ys : List α}

theorem carries_nil : Carries row start [] := fun _ _ h => by
  simp at h

theorem carries_write : Carries (write row start xs) start xs := by
  intro j a h
  simp [write, h]

theorem write_of_lt (h : c < start) : write row start xs c = row c :=
  if_neg (by omega)

theorem lt_length_of_getElem? {j : Nat} {a : α} (h : xs[j]? = some a) : j < xs.length :=
  (List.getElem?_eq_some_iff.mp h).1

theorem Carries.write_after {s : Nat} (h : Carries row start xs) (hs : start + xs.length ≤ s) :
    Carries (write row s ys) start xs := by
  intro j a hj
  have hlt := lt_length_of_getElem? hj
  rw [write_of_lt (by omega)]
  exact h j a hj

theorem Carries.append (h : Carries row start xs) (h' : Carries row (start + xs.length) ys) :
    Carries row start (xs ++ ys) := by
  intro j a hj
  rw [getElem?_append] at hj
  split_ifs at hj with hlt
  · exact h j a hj
  · have hcol : start + j = start + xs.length + (j - xs.length) := by omega
    rw [hcol]
    exact h' _ a hj

theorem Carries.copyFirst (h : Carries src start xs) (tgt : Nat → α) (hn : start + xs.length ≤ n) :
    Carries (copyFirst src tgt n) start xs := by
  intro j a hj
  have hlt := lt_length_of_getElem? hj
  rw [Slices.copyFirst, if_pos (by omega)]
  exact h j a hj

theorem fill_of_mem {stop : Nat} {a : α} (h : start ≤ c ∧ c < stop) :
    fill row start stop a c = a :=
  if_pos h

theorem fill_of_notMem {stop : Nat} {a : α} (h : ¬(start ≤ c ∧ c < stop)) :
    fill row start stop a c = row c :=
  if_neg h

theorem copyFirst_of_lt (h : c < n) : copyFirst src tgt n c = src c :=
  if_pos h

/-- `row[start : start + n]` -/
def slice (row : Nat → α) (start n : Nat) : List α := (range n).map fun j => row (start + j)

theorem Carries.slice_eq (h : Carries row start xs) : slice row start xs.length = xs := by
  refine ext_getElem? fun j => ?_
  unfold slice
  rw [getElem?_map]
  rcases Nat.lt_or_ge j xs.length with hj | hj
  · rw [getElem?_range hj, getElem?_eq_getElem hj, Option.map_some,
      h j _ (getElem?_eq_getElem hj)]
  · rw [getElem?_eq_none (by simpa using hj), getElem?_eq_none hj]
    rfl

theorem Carries.left (h : Carries row start (xs ++ ys)) : Carries row start xs := by
  intro j a hj
  have hlt := lt_length_of_getElem? hj
  exact h j a (by rw [getElem?_append_left hlt, hj])

theorem Carries.right (h : Carries row start (xs ++ ys)) :
    Carries row (start + xs.length) ys := by
  intro j a hj
  have hcol : start + xs.length + j = start + (xs.length + j) := by omega
  rw [hcol]
  refine h _ a ?_
  rw [getElem?_append_right (Nat.le_add_right _ _), Nat.add_sub_cancel_left, hj]

/-- A loop of writes: what a write that hits establishes, and every write keeps, holds at the end
if some write hits or if it held before. -/
theorem foldl_writes {σ : Type} {write : σ → α → σ} (Inv Good : σ → Prop) (hits : α → Prop)
    {l : List α} {s : σ} (hs : Inv s) (hinv : ∀ s, ∀ a ∈ l, Inv s → Inv (write s a))
    (hgood : ∀ s, ∀ a ∈ l, Inv s → hits a ∨ Good s → Good (write s a))
    (h : (∃ a ∈ l, hits a) ∨ Good s) : Good (l.foldl write s) := by
  induction l generalizing s with
  | nil => exact h.resolve_left fun ⟨_, ha, _⟩ => not_mem_nil ha
  | cons a l ih =>
    refine ih (hinv s a mem_cons_self hs) (fun s b hb => hinv s b (mem_cons_of_mem _ hb))
      (fun s b hb => hgood s b (mem_cons_of_mem _ hb)) ?_
    rcases h with ⟨b, hb, hhit⟩ | hbefore
    · rcases mem_cons.mp hb with rfl | hb
      · exact Or.inr (hgood s b mem_cons_self hs (Or.inl hhit))
      · exact Or.inl ⟨b, hb, hhit⟩
    · exact Or.inr (hgood s a mem_cons_self hs (Or.inr hbefore))

end LongCtxSpecDecode.Library.Slices
