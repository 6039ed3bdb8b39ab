import Mathlib

/-!
# Replaying the changes of a table

A table with an entry for each row, where `e` stands for no entry. The changes of a step are
recorded as the rows that were added, the rows that were removed and not filled again, and the
moves, and are replayed in this order.
-/

namespace LongCtxSpecDecode.Library.RowReplay

variable {α : Type} (e : α)

/-- A move of the entry of the row `src` to the row `dst`; a swap when `both` holds. -/
structure Move where
  src : Nat
  dst : Nat
  both : Bool

def move (f : Nat → α) (m : Move) : Nat → α := fun j =>
  if j = m.dst then f m.src else if j = m.src then if m.both then f m.dst else e else f j

def add (f : Nat → α) (added : List (Nat × α)) : Nat → α :=
  added.foldl (fun f entry => Function.update f entry.1 entry.2) f

def clear (f : Nat → α) (removed : List Nat) : Nat → α := fun j =>
  if j ∈ removed then e else f j

def replay (f : Nat → α) (added : List (Nat × α)) (removed : List Nat) (moved : List Move) :
    Nat → α :=
  moved.foldl (move e) (clear e (add f added) removed)

variable {e} {f g : Nat → α} {added : List (Nat × α)} {removed removed' : List Nat}
variable {moved : List Move} {i : Nat} {v : α}

@[simp] theorem replay_nil : replay e f [] [] [] = f := by
  funext j
  simp [replay, clear, add]

theorem replay_congr (h : ∀ j, j ∈ removed' ↔ j ∈ removed) :
    replay e f added removed' moved = replay e f added removed moved := by
  have hclear : clear e (add f added) removed' = clear e (add f added) removed := by
    unfold clear
    simp only [h]
  unfold replay
  rw [hclear]

theorem replay_remove (i : Nat) :
    replay e f added (removed ++ [i]) [] = Function.update (replay e f added removed []) i e := by
  funext j
  rcases eq_or_ne j i with rfl | hj
  · simp [replay, clear]
  · simp [replay, clear, hj]

theorem replay_add (v : α) (hi : i ∉ removed') (h : ∀ j, j ≠ i → (j ∈ removed' ↔ j ∈ removed)) :
    replay e f (added ++ [(i, v)]) removed' [] =
      Function.update (replay e f added removed []) i v := by
  funext j
  rcases eq_or_ne j i with rfl | hj
  · simp [replay, clear, add, hi]
  · simp [replay, clear, add, h j hj, hj]

theorem replay_move (m : Move) :
    replay e f added removed (moved ++ [m]) = move e (replay e f added removed moved) m := by
  simp [replay]

theorem foldl_move_congr (hmoved : ∀ m ∈ moved, m.src ≠ i ∧ m.dst ≠ i)
    (h : ∀ j, j ≠ i → f j = g j) (j : Nat) (hj : j ≠ i) :
    moved.foldl (move e) f j = moved.foldl (move e) g j := by
  induction moved generalizing f g with
  | nil => exact h j hj
  | cons m moved ih =>
    obtain ⟨hsrc, hdst⟩ := hmoved m List.mem_cons_self
    refine ih (fun m' hm' => hmoved m' (List.mem_cons_of_mem m hm')) fun k hk => ?_
    unfold move
    rw [h _ hsrc, h _ hdst, h k hk]

theorem replay_fill {src dst : Nat} (hmoved : ∀ m ∈ moved, m.src ≠ dst ∧ m.dst ≠ dst)
    (hne : src ≠ dst) (h : ∀ j, j ≠ dst → (j ∈ removed' ↔ j ∈ removed)) :
    replay e f added removed' (moved ++ [{ src := src, dst := dst, both := false }]) =
      move e (replay e f added removed moved) { src := src, dst := dst, both := false } := by
  have hagree : ∀ j, j ≠ dst →
      replay e f added removed' moved j = replay e f added removed moved j := by
    refine foldl_move_congr hmoved fun j hj => ?_
    unfold clear
    simp only [h j hj]
  rw [replay_move]
  funext j
  simp only [move, hagree src hne, Bool.false_eq_true, if_false]
  split_ifs with hj hsrc
  · rfl
  · rfl
  · exact hagree j hj

end LongCtxSpecDecode.Library.RowReplay
