import Mathlib

/-!
# Loops that may raise

A loop over `0, 1, …, n - 1` whose body may raise is `foldlM` in `Except`. An invariant that every
round restores shows that the loop returns; one that every round that returns keeps holds of what
the loop returns.
-/

namespace LongCtxSpecDecode

section Bind

variable {ε α β : Type}

@[simp] theorem ok_bind (a : α) (f : α → Except ε β) : (Except.ok a >>= f) = f a := rfl

@[simp] theorem error_bind (e : ε) (f : α → Except ε β) :
    ((Except.error e : Except ε α) >>= f) = Except.error e := rfl

theorem bind_eq_ok {x : Except ε α} {f : α → Except ε β} {b : β} :
    x >>= f = .ok b ↔ ∃ a, x = .ok a ∧ f a = .ok b := by
  cases x with
  | error e =>
    simp
  | ok a =>
    simp

theorem of_bind {x : Except ε α} {f : α → Except ε β} {b : β} (h : x >>= f = .ok b) :
    ∃ a, x = .ok a ∧ f a = .ok b :=
  bind_eq_ok.mp h

theorem eq_ok_of_toOption {x : Except ε α} {a : α} (h : x.toOption = some a) : x = .ok a := by
  cases x with
  | error e => cases h
  | ok b =>
    cases h
    rfl

end Bind

namespace ExceptLoop

open List

variable {ε σ : Type} {f : σ → Nat → Except ε σ}

theorem foldlM_range_succ (n : Nat) (s : σ) :
    (range (n + 1)).foldlM f s = ((range n).foldlM f s >>= fun s' => f s' n) := by
  simp [range_succ]

theorem foldlM_range_returns {n : Nat} {s : σ} (P : Nat → σ → Prop) (hinit : P 0 s)
    (hround : ∀ k < n, ∀ s, P k s → ∃ s', f s k = .ok s' ∧ P (k + 1) s') :
    ∃ s', (range n).foldlM f s = .ok s' ∧ P n s' := by
  induction n with
  | zero => exact ⟨s, rfl, hinit⟩
  | succ n ih =>
    obtain ⟨s₁, hrun, hinv⟩ := ih fun k hk => hround k (by omega)
    obtain ⟨s₂, hlast, hinv'⟩ := hround n (by omega) s₁ hinv
    refine ⟨s₂, ?_, hinv'⟩
    rw [foldlM_range_succ, hrun]
    exact hlast

theorem foldlM_range_inv {n : Nat} {s s' : σ} (P : Nat → σ → Prop) (hinit : P 0 s)
    (hround : ∀ k < n, ∀ s s', P k s → f s k = .ok s' → P (k + 1) s')
    (hrun : (range n).foldlM f s = .ok s') : P n s' := by
  induction n generalizing s' with
  | zero =>
    cases hrun
    exact hinit
  | succ n ih =>
    rw [foldlM_range_succ] at hrun
    obtain ⟨s₁, hpart, hlast⟩ := of_bind hrun
    exact hround n (by omega) s₁ s' (ih (fun k hk => hround k (by omega)) hpart) hlast

/-! ### Lists that are related item by item -/

section Related

variable {α β γ : Type} {R : α → β → Prop} {l : List α} {l' : List β}

theorem forall₂_comp {S : β → γ → Prop} {l'' : List γ} (h : Forall₂ R l l')
    (h' : Forall₂ S l' l'') :
    Forall₂ (fun a c => ∃ b ∈ l', R a b ∧ S b c) l l'' := by
  induction h generalizing l'' with
  | nil =>
    cases h'
    exact .nil
  | cons hab _ ih =>
    cases h' with
    | cons hbc h' =>
      refine .cons ⟨_, mem_cons_self, hab, hbc⟩ ((ih h').imp ?_)
      rintro a c ⟨b, hb, hrel⟩
      exact ⟨b, mem_cons_of_mem _ hb, hrel⟩

theorem forall₂_and {S : α → β → Prop} (h : Forall₂ R l l') (h' : Forall₂ S l l') :
    Forall₂ (fun a b => R a b ∧ S a b) l l' := by
  induction h with
  | nil => exact .nil
  | cons hab _ ih =>
    cases h' with
    | cons hab' h' => exact .cons ⟨hab, hab'⟩ (ih h')

theorem exists_of_forall₂ (h : Forall₂ R l l') {a : α} (ha : a ∈ l) : ∃ b ∈ l', R a b := by
  induction h with
  | nil => cases ha
  | cons hab _ ih =>
    grind

theorem getElem?_of_forall₂ (h : Forall₂ R l l') {i : Nat} {a : α} (ha : l[i]? = some a) :
    ∃ b, l'[i]? = some b ∧ R a b := by
  induction h generalizing i with
  | nil => cases ha
  | cons hab _ ih =>
    cases i with
    | zero =>
      cases ha
      exact ⟨_, rfl, hab⟩
    | succ i => exact ih ha

end Related

variable {α β : Type} {g : α → Except ε β} {xs : List α} {ys : List β}

theorem forall₂_of_mapM (h : xs.mapM g = .ok ys) : Forall₂ (fun x y => g x = .ok y) xs ys := by
  induction xs generalizing ys with
  | nil =>
    cases h
    exact .nil
  | cons x xs ih =>
    rw [mapM_cons] at h
    obtain ⟨y, hx, h⟩ := of_bind h
    obtain ⟨rest, hrest, h⟩ := of_bind h
    cases h
    exact .cons hx (ih hrest)

theorem map_eq_of_mapM {f : α → β} (h : xs.mapM g = .ok ys)
    (hf : ∀ x ∈ xs, ∀ y, g x = .ok y → f x = y) : xs.map f = ys := by
  rw [← forall₂_eq_eq_eq, forall₂_map_left_iff]
  exact ((forall₂_and_left _ _).mpr ⟨hf, forall₂_of_mapM h⟩).imp fun x y h => h.1 y h.2

theorem eq_map_of_mapM {f : β → α} (h : xs.mapM g = .ok ys)
    (hf : ∀ x y, g x = .ok y → x = f y) : xs = ys.map f := by
  rw [← forall₂_eq_eq_eq, forall₂_map_right_iff]
  exact (forall₂_of_mapM h).imp hf

theorem mapM_returns (h : ∀ x ∈ xs, ∃ y, g x = .ok y) : ∃ ys, xs.mapM g = .ok ys := by
  induction xs with
  | nil => exact ⟨[], rfl⟩
  | cons x xs ih =>
    obtain ⟨y, hy⟩ := h x mem_cons_self
    obtain ⟨ys, hys⟩ := ih fun x hx => h x (mem_cons_of_mem _ hx)
    refine ⟨y :: ys, ?_⟩
    rw [mapM_cons, hy, hys]
    rfl

theorem mem_of_mapM (h : xs.mapM g = .ok ys) :
    (∀ y ∈ ys, ∃ x ∈ xs, g x = .ok y) ∧ ∀ x ∈ xs, ∃ y ∈ ys, g x = .ok y := by
  have hall := forall₂_of_mapM h
  exact ⟨fun y hy => exists_of_forall₂ hall.flip hy, fun x hx => exists_of_forall₂ hall hx⟩

end ExceptLoop

end LongCtxSpecDecode
