import Mathlib

/-!
# Dictionaries that keep their order

A Python dictionary as the list of its items in the order in which they were inserted.
-/

namespace LongCtxSpecDecode.Library

open List

abbrev OrderedDict (κ ν : Type) := List (κ × ν)

namespace OrderedDict

variable {κ ν : Type} [DecidableEq κ]

def keys (d : OrderedDict κ ν) : List κ := d.map Prod.fst

def get (d : OrderedDict κ ν) (k : κ) : Option ν :=
  (d.find? fun item => item.1 = k).map Prod.snd

/-- `d[k] = v`: an existing key keeps its place. -/
def set (d : OrderedDict κ ν) (k : κ) (v : ν) : OrderedDict κ ν :=
  if k ∈ keys d then d.map fun item => if item.1 = k then (k, v) else item else d ++ [(k, v)]

/-- `d.pop(k, None)`, without the value. -/
def pop (d : OrderedDict κ ν) (k : κ) : OrderedDict κ ν :=
  d.filter fun item => item.1 ≠ k

variable {d : OrderedDict κ ν} {k k' : κ} {v : ν}

@[simp] theorem get_nil (k : κ) : get ([] : OrderedDict κ ν) k = none := rfl

theorem get_cons (item : κ × ν) (d : OrderedDict κ ν) (k : κ) :
    get (item :: d) k = if item.1 = k then some item.2 else get d k := by
  unfold get
  by_cases hk : item.1 = k
  · simp [hk]
  · simp [hk]

omit [DecidableEq κ] in
@[simp] theorem keys_cons (item : κ × ν) (d : OrderedDict κ ν) :
    keys (item :: d) = item.1 :: keys d := rfl

theorem get_eq_none : get d k = none ↔ k ∉ keys d := by
  induction d with
  | nil =>
    simp [keys]
  | cons item d ih =>
    rw [get_cons]
    by_cases hk : item.1 = k
    · simp [hk]
    · rw [if_neg hk, ih]
      simp [Ne.symm hk]

theorem get_append_singleton (d : OrderedDict κ ν) (k k' : κ) (v : ν) :
    get (d ++ [(k, v)]) k' =
      if (get d k').isSome then get d k' else if k = k' then some v else none := by
  induction d with
  | nil =>
    simp [get_cons]
  | cons item d ih =>
    rw [cons_append, get_cons, get_cons, ih]
    by_cases hk : item.1 = k'
    · simp [hk]
    · simp [hk]

theorem get_map_replace (d : OrderedDict κ ν) (k k' : κ) (v : ν) :
    get (d.map fun item => if item.1 = k then (k, v) else item) k' =
      if k' = k then (get d k').map fun _ => v else get d k' := by
  induction d with
  | nil =>
    simp
  | cons item d ih =>
    grind [get_cons]

theorem get_set (d : OrderedDict κ ν) (k : κ) (v : ν) (k' : κ) :
    get (set d k v) k' = if k' = k then some v else get d k' := by
  unfold set
  by_cases hmem : k ∈ keys d
  · rw [if_pos hmem, get_map_replace]
    by_cases hk : k' = k
    · obtain ⟨x, hx⟩ := Option.ne_none_iff_exists'.mp (mt get_eq_none.mp (not_not.mpr hmem))
      simp [hk, hx]
    · simp [hk]
  · grind [get_append_singleton, Option.isSome_eq_false_iff, Option.isNone_iff_eq_none, get_eq_none]

theorem get_pop (d : OrderedDict κ ν) (k k' : κ) :
    get (pop d k) k' = if k' = k then none else get d k' := by
  induction d with
  | nil =>
    simp [pop]
  | cons item d ih =>
    by_cases hitem : item.1 = k
    · have hpop : pop (item :: d) k = pop d k := filter_cons_of_neg (by simpa using hitem)
      rw [hpop, ih, get_cons, hitem]
      by_cases hk : k' = k
      · simp [hk]
      · simp [Ne.symm hk]
    · have hpop : pop (item :: d) k = item :: pop d k :=
        filter_cons_of_pos (by simpa using hitem)
      rw [hpop, get_cons, get_cons, ih]
      by_cases hk : item.1 = k'
      · have hne : k' ≠ k := fun h => hitem (hk.trans h)
        simp [hne]
      · simp [hk]

theorem keys_set_of_notMem (hk : k ∉ keys d) (v : ν) : keys (set d k v) = keys d ++ [k] := by
  unfold set
  rw [if_neg hk]
  simp [keys]

theorem length_set_of_notMem (hk : k ∉ keys d) (v : ν) : (set d k v).length = d.length + 1 := by
  unfold set
  rw [if_neg hk, length_append, length_singleton]

theorem length_set_of_mem (hk : k ∈ keys d) (v : ν) : (set d k v).length = d.length := by
  unfold set
  rw [if_pos hk, length_map]

theorem mem_keys_of_get (h : get d k = some v) : k ∈ keys d := by
  by_contra hk
  rw [get_eq_none.mpr hk] at h
  cases h

theorem mem_of_get (h : get d k = some v) : (k, v) ∈ d := by
  obtain ⟨⟨k', v'⟩, hfind, rfl⟩ := Option.map_eq_some_iff.mp h
  have hkey : k' = k := by simpa using find?_some hfind
  exact hkey ▸ mem_of_find?_eq_some hfind

theorem get_eq_some_iff (hd : (keys d).Nodup) : get d k = some v ↔ (k, v) ∈ d := by
  induction d with
  | nil => simp
  | cons item d ih =>
    obtain ⟨k₀, v₀⟩ := item
    obtain ⟨hitem, hrest⟩ := nodup_cons.mp hd
    rw [get_cons]
    by_cases hk : k₀ = k
    · have hnot : (k, v) ∉ d := fun hmem => hitem (hk ▸ mem_map.mpr ⟨(k, v), hmem, rfl⟩)
      simp [hk, hnot, eq_comm]
    · simp [hk, Ne.symm hk, ih hrest]

theorem pop_of_notMem (hk : k ∉ keys d) : pop d k = d := by
  refine filter_eq_self.mpr fun item hitem => ?_
  have hne : item.1 ≠ k := fun h => hk (h ▸ mem_map_of_mem hitem)
  simpa using hne

theorem length_pop_of_mem (hd : (keys d).Nodup) (hk : k ∈ keys d) :
    (pop d k).length + 1 = d.length := by
  induction d with
  | nil => cases hk
  | cons item d ih =>
    obtain ⟨hitem, hd⟩ := nodup_cons.mp hd
    by_cases heq : item.1 = k
    · have hpop : pop (item :: d) k = pop d k := filter_cons_of_neg (by simpa using heq)
      rw [hpop, pop_of_notMem (heq ▸ hitem), length_cons]
    · have hpop : pop (item :: d) k = item :: pop d k :=
        filter_cons_of_pos (by simpa using heq)
      have hmem : k ∈ keys d := (mem_cons.mp hk).resolve_left (Ne.symm heq)
      rw [hpop, length_cons, length_cons, ih hd hmem]

theorem keys_pop (d : OrderedDict κ ν) (k : κ) : keys (pop d k) = (keys d).filter (· ≠ k) := by
  unfold keys pop
  rw [filter_map]
  rfl

theorem keys_set_nodup (hd : (keys d).Nodup) (k : κ) (v : ν) : (keys (set d k v)).Nodup := by
  unfold set
  by_cases hmem : k ∈ keys d
  · have hkeys : keys (d.map fun item => if item.1 = k then (k, v) else item) = keys d := by
      unfold keys
      rw [map_map]
      refine map_congr_left fun item _ => ?_
      by_cases hitem : item.1 = k
      · simp [hitem]
      · simp [hitem]
    rw [if_pos hmem, hkeys]
    exact hd
  · rw [if_neg hmem]
    unfold keys
    rw [map_append]
    exact nodup_append.mpr ⟨hd, nodup_singleton _, by
      rintro a ha b hb rfl
      obtain rfl : a = k := mem_singleton.mp hb
      exact hmem ha⟩

theorem keys_pop_nodup (hd : (keys d).Nodup) (k : κ) : (keys (pop d k)).Nodup :=
  hd.sublist (filter_sublist.map Prod.fst)

omit [DecidableEq κ] in
theorem nodup_foldl {α : Type} {f : OrderedDict κ ν → α → OrderedDict κ ν}
    (hf : ∀ d a, (keys d).Nodup → (keys (f d a)).Nodup) (l : List α) (hd : (keys d).Nodup) :
    (keys (l.foldl f d)).Nodup := by
  induction l generalizing d with
  | nil => exact hd
  | cons a l ih => exact ih (hf d a hd)

theorem get_foldl_pop_keys (items d : OrderedDict κ ν) (k : κ) :
    get (items.foldl (fun d item => pop d item.1) d) k =
      if k ∈ keys items then none else get d k := by
  induction items generalizing d with
  | nil => rfl
  | cons item items ih =>
    rw [foldl_cons, ih, get_pop]
    by_cases hk : k = item.1
    · simp [hk]
    · simp only [hk, if_false, keys_cons, mem_cons, false_or]

def mapValues {μ : Type} (f : ν → μ) (d : OrderedDict κ ν) : OrderedDict κ μ :=
  d.map fun item => (item.1, f item.2)

section MapValues

variable {μ : Type} (f : ν → μ)

omit [DecidableEq κ] in
@[simp] theorem keys_mapValues (d : OrderedDict κ ν) : keys (mapValues f d) = keys d := by
  unfold keys mapValues
  rw [map_map]
  rfl

theorem get_mapValues (d : OrderedDict κ ν) (k : κ) :
    get (mapValues f d) k = (get d k).map f := by
  induction d with
  | nil => rfl
  | cons item d ih =>
    have hcons : mapValues f (item :: d) = (item.1, f item.2) :: mapValues f d := rfl
    rw [hcons, get_cons, get_cons, ih]
    split
    · rfl
    · rfl

theorem mapValues_pop (d : OrderedDict κ ν) (k : κ) :
    mapValues f (pop d k) = pop (mapValues f d) k := by
  unfold mapValues pop
  rw [filter_map]
  rfl

theorem mapValues_set (d : OrderedDict κ ν) (k : κ) (v : ν) :
    mapValues f (set d k v) = set (mapValues f d) k (f v) := by
  unfold set
  rw [keys_mapValues]
  split
  · grind [mapValues, map_congr_left]
  · unfold mapValues
    rw [map_append]
    rfl

def mapItems (f : κ → ν → μ) (d : OrderedDict κ ν) : OrderedDict κ μ :=
  d.map fun item => (item.1, f item.1 item.2)

theorem get_mapItems (f : κ → ν → μ) (d : OrderedDict κ ν) (k : κ) :
    get (mapItems f d) k = (get d k).map (f k) := by
  induction d with
  | nil => rfl
  | cons item d ih =>
    grind [mapItems, get_cons]

end MapValues

section Related

variable {μ : Type} {R : ν → μ → Prop} {d' : OrderedDict κ μ}

omit [DecidableEq κ] in
theorem keys_of_forall₂ (h : Forall₂ (fun item item' => item'.1 = item.1 ∧ R item.2 item'.2) d d') :
    keys d' = keys d := by
  induction h with
  | nil => rfl
  | cons hitem _ ih => rw [keys_cons, keys_cons, hitem.1, ih]

theorem get_of_forall₂ (h : Forall₂ (fun item item' => item'.1 = item.1 ∧ R item.2 item'.2) d d')
    (hget : get d k = some v) : ∃ v', get d' k = some v' ∧ R v v' := by
  induction h with
  | nil => cases hget
  | cons hitem _ ih =>
    grind [get_cons]

end Related

end OrderedDict

end LongCtxSpecDecode.Library
