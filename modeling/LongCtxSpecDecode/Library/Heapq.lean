import Mathlib

/-!
# Binary heaps in a list

The heap operations of Python's `heapq`. Where that moves a hole through the list and drops
the item in at the end, the item is swapped along here, which gives the same list.
-/

namespace LongCtxSpecDecode.Library.Heapq

open List

variable {α : Type}

def swap (heap : List α) (i j : Nat) : List α :=
  match heap[i]?, heap[j]? with
  | some a, some b => (heap.set i b).set j a
  | _, _ => heap

/-- Whether the item at `i` is smaller than the one at `j`. -/
def less (lt : α → α → Bool) (heap : List α) (i j : Nat) : Bool :=
  match heap[i]?, heap[j]? with
  | some a, some b => lt a b
  | _, _ => false

/-- `_siftdown`: the item at `pos` moves towards `startpos` past larger parents. -/
def siftdown (lt : α → α → Bool) (startpos : Nat) : Nat → Nat → List α → List α
  | 0, _, heap => heap
  | fuel + 1, pos, heap =>
    let parentpos := (pos - 1) / 2
    if startpos < pos ∧ less lt heap pos parentpos = true then
      siftdown lt startpos fuel parentpos (swap heap pos parentpos)
    else
      heap

/-- The loop of `_siftup`: the item at `pos` moves down to a leaf, past its smaller child each
time. It returns the place of the leaf. -/
def sinkToLeaf (lt : α → α → Bool) : Nat → Nat → List α → Nat × List α
  | 0, pos, heap => (pos, heap)
  | fuel + 1, pos, heap =>
    let childpos := 2 * pos + 1
    if childpos < heap.length then
      let rightpos := childpos + 1
      let childpos :=
        if rightpos < heap.length ∧ less lt heap childpos rightpos = false then rightpos
        else childpos
      sinkToLeaf lt fuel childpos (swap heap pos childpos)
    else
      (pos, heap)

def siftup (lt : α → α → Bool) (pos : Nat) (heap : List α) : List α :=
  let (leaf, heap) := sinkToLeaf lt heap.length pos heap
  siftdown lt pos heap.length leaf heap

def heappush (lt : α → α → Bool) (heap : List α) (item : α) : List α :=
  siftdown lt 0 (heap.length + 1) heap.length (heap ++ [item])

def heappop (lt : α → α → Bool) (heap : List α) : Option (α × List α) :=
  match heap with
  | [] => none
  | first :: rest =>
    match rest.getLast? with
    | none => some (first, [])
    | some last => some (first, siftup lt 0 (last :: rest.dropLast))

def heapify (lt : α → α → Bool) (heap : List α) : List α :=
  (range (heap.length / 2)).reverse.foldl (fun heap i => siftup lt i heap) heap

variable {lt : α → α → Bool}

theorem swap_perm (heap : List α) (i j : Nat) : (swap heap i j).Perm heap := by
  unfold swap
  split
  · grind [set_set_perm]
  · exact Perm.refl heap

theorem siftdown_perm (startpos fuel pos : Nat) (heap : List α) :
    (siftdown lt startpos fuel pos heap).Perm heap := by
  induction fuel generalizing pos heap with
  | zero =>
    exact Perm.refl heap
  | succ fuel ih =>
    unfold siftdown
    dsimp only
    split
    · exact (ih _ _).trans (swap_perm _ _ _)
    · exact Perm.refl heap

theorem sinkToLeaf_perm (fuel pos : Nat) (heap : List α) :
    (sinkToLeaf lt fuel pos heap).2.Perm heap := by
  induction fuel generalizing pos heap with
  | zero =>
    exact Perm.refl heap
  | succ fuel ih =>
    unfold sinkToLeaf
    dsimp only
    split
    · exact (ih _ _).trans (swap_perm _ _ _)
    · exact Perm.refl heap

theorem siftup_perm (pos : Nat) (heap : List α) : (siftup lt pos heap).Perm heap :=
  (siftdown_perm _ _ _ _).trans (sinkToLeaf_perm _ _ _)

theorem heappush_perm (heap : List α) (item : α) :
    (heappush lt heap item).Perm (item :: heap) :=
  (siftdown_perm _ _ _ _).trans (perm_append_singleton _ _)

theorem heappop_perm {heap heap' : List α} {item : α}
    (hpop : heappop lt heap = some (item, heap')) :
    heap.head? = some item ∧ heap.Perm (item :: heap') := by
  cases heap with
  | nil =>
    cases hpop
  | cons first rest =>
    unfold heappop at hpop
    dsimp only at hpop
    split at hpop
    · rename_i hlast
      cases hpop
      rw [getLast?_eq_none_iff.mp hlast]
      exact ⟨rfl, Perm.refl _⟩
    · rename_i last hlast
      cases hpop
      refine ⟨rfl, Perm.cons _ ?_⟩
      have hrest : rest.dropLast ++ [last] = rest := dropLast_append_getLast? last hlast
      have hrotate : (last :: rest.dropLast).Perm rest := by
        rw [← hrest]
        simpa using (perm_append_singleton last rest.dropLast).symm
      exact hrotate.symm.trans (siftup_perm _ _).symm

theorem heapify_perm (heap : List α) : (heapify lt heap).Perm heap := by
  unfold heapify
  generalize (range (heap.length / 2)).reverse = places
  induction places generalizing heap with
  | nil =>
    exact Perm.refl heap
  | cons i places ih =>
    exact (ih _).trans (siftup_perm i heap)

end LongCtxSpecDecode.Library.Heapq
