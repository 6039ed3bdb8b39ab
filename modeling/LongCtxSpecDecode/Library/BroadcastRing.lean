import Mathlib

/-!
# A bounded queue with several readers

One writer publishes values, every reader takes each of them once and in order, and the writer
is never more than `capacity` values ahead of a reader. A reader is named by an element of `ι`.
-/

namespace LongCtxSpecDecode.Library

structure BroadcastRing (ι α : Type) where
  published : List α := []
  taken : ι → Nat := fun _ => 0

namespace BroadcastRing

variable {ι α : Type} [DecidableEq ι]

def publish (q : BroadcastRing ι α) (a : α) : BroadcastRing ι α :=
  { q with published := q.published ++ [a] }

def take (q : BroadcastRing ι α) (r : ι) : BroadcastRing ι α :=
  { q with taken := Function.update q.taken r (q.taken r + 1) }

def Room (capacity : Nat) (q : BroadcastRing ι α) : Prop :=
  ∀ r, q.published.length < q.taken r + capacity

def head? (q : BroadcastRing ι α) (r : ι) : Option α := q.published[q.taken r]?

inductive Step (capacity : Nat) (q : BroadcastRing ι α) : BroadcastRing ι α → Prop where
  | publish (a : α) : q.Room capacity → Step capacity q (q.publish a)
  | take (r : ι) : q.taken r < q.published.length → Step capacity q (q.take r)

end BroadcastRing

theorem mod_ne_of_lt {a b n : Nat} (hlt : a < b) (hwindow : b < a + n) : a % n ≠ b % n := by
  intro heq
  have hdvd : n ∣ b - a := Nat.dvd_of_mod_eq_zero (Nat.sub_mod_eq_zero_of_mod_eq heq.symm)
  have hle := Nat.le_of_dvd (by omega) hdvd
  omega

end LongCtxSpecDecode.Library
