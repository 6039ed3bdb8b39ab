import Mathlib

/-!
# Doubly linked queues

A queue of items threaded through two sentinels by `prev` and `next` pointers.
`Represents L l` says that the pointers `L` thread exactly the list `l`; the
relinking steps of an implementation are then read as list operations.
-/

namespace LongCtxSpecDecode.Library.LinkedQueue

open List Function

inductive Node (α : Type*) where
  | head
  | tail
  | item (a : α)
deriving DecidableEq, Repr

structure Links (α : Type*) where
  prev : Node α → Option (Node α)
  next : Node α → Option (Node α)

variable {α : Type*} [DecidableEq α]

namespace Links

def empty : Links α := ⟨fun _ => none, fun _ => none⟩

def setNext (L : Links α) (n : Node α) (v : Option (Node α)) : Links α :=
  { L with next := update L.next n v }

def setPrev (L : Links α) (n : Node α) (v : Option (Node α)) : Links α :=
  { L with prev := update L.prev n v }

section

variable (L : Links α) (n : Node α) (v : Option (Node α))
include L n v

@[simp] theorem setNext_prev : (L.setNext n v).prev = L.prev := rfl

@[simp] theorem setNext_next : (L.setNext n v).next = update L.next n v := rfl

@[simp] theorem setPrev_next : (L.setPrev n v).next = L.next := rfl

@[simp] theorem setPrev_prev : (L.setPrev n v).prev = update L.prev n v := rfl

end

/-- Point `a` and `b` at each other. -/
def link (L : Links α) (a b : Node α) : Links α :=
  (L.setNext a (some b)).setPrev b (some a)

/-- Clear both pointers of `a`. -/
def clear (L : Links α) (a : Node α) : Links α :=
  (L.setPrev a none).setNext a none

/-- `a` and `b` point at each other. -/
def Linked (L : Links α) (a b : Node α) : Prop :=
  L.next a = some b ∧ L.prev b = some a

theorem link_linked (L : Links α) (a b : Node α) : (L.link a b).Linked a b := by
  simp [Linked, link]

variable {a b n : Node α}

section

variable (L : Links α)

theorem link_next_of_ne (hn : n ≠ a) : (L.link a b).next n = L.next n := by
  simp [link, update_of_ne hn]

theorem link_prev_of_ne (hn : n ≠ b) : (L.link a b).prev n = L.prev n := by
  simp [link, update_of_ne hn]

theorem clear_next_of_ne (hn : n ≠ a) : (L.clear a).next n = L.next n := by
  simp [clear, update_of_ne hn]

theorem clear_prev_of_ne (hn : n ≠ a) : (L.clear a).prev n = L.prev n := by
  simp [clear, update_of_ne hn]

theorem clear_link_comm (ha : n ≠ a) (hb : n ≠ b) :
    (L.link a b).clear n = (L.clear n).link a b := by
  simp [clear, link, setNext, setPrev, update_comm ha, update_comm hb]

@[simp] theorem clear_next_self (a : Node α) : (L.clear a).next a = none := by
  simp [clear]

@[simp] theorem clear_prev_self (a : Node α) : (L.clear a).prev a = none := by
  simp [clear]

end

omit [DecidableEq α] in
/-- A chain survives a change of pointers that keeps the `next` of all its cells but
the last and the `prev` of all its cells but the first. -/
theorem isChain_of_agree {L L' : Links α} {x : List (Node α)}
    (hchain : x.IsChain L.Linked)
    (hnext : ∀ u ∈ x.dropLast, L'.next u = L.next u)
    (hprev : ∀ u ∈ x.tail, L'.prev u = L.prev u) :
    x.IsChain L'.Linked := by
  induction x with
  | nil =>
    exact isChain_nil
  | cons a x ih =>
    cases x with
    | nil =>
      exact isChain_singleton a
    | cons b x =>
      rw [isChain_cons_cons] at hchain ⊢
      have hab : L'.Linked a b := by
        refine ⟨?_, ?_⟩
        · rw [hnext a (by simp), hchain.1.1]
        · rw [hprev b (by simp), hchain.1.2]
      refine ⟨hab, ih hchain.2 ?_ ?_⟩
      · intro u hu
        exact hnext u (by simpa using Or.inr hu)
      · intro u hu
        exact hprev u (by simpa using Or.inr hu)

end Links

def front (l : List α) : List (Node α) := Node.head :: l.map Node.item

def rear (l : List α) : List (Node α) := l.map Node.item ++ [Node.tail]

def lastNode (l : List α) : Node α := (l.getLast?.map Node.item).getD Node.head

def firstNode (l : List α) : Node α := (l.head?.map Node.item).getD Node.tail

section

omit [DecidableEq α]

theorem getLast?_front (l : List α) : (front l).getLast? = some (lastNode l) := by
  cases l using reverseRecOn with
  | nil =>
    rfl
  | append_singleton l a =>
    simp [front, lastNode, getLast?_cons]

theorem head?_rear (l : List α) : (rear l).head? = some (firstNode l) := by
  cases l <;> rfl

variable {l l₁ l₂ : List α} {a : α} {u : Node α} {L : Links α}

theorem mem_front_item : Node.item a ∈ front l ↔ a ∈ l := by
  simp [front]

theorem mem_rear_item : Node.item a ∈ rear l ↔ a ∈ l := by
  simp [rear]

section

variable (l : List α)

theorem head_mem_front : Node.head ∈ front l := by
  simp [front]

theorem tail_mem_rear : Node.tail ∈ rear l := by
  simp [rear]

theorem lastNode_mem_front : lastNode l ∈ front l :=
  mem_of_getLast? (getLast?_front l)

theorem firstNode_mem_rear : firstNode l ∈ rear l :=
  mem_of_mem_head? (head?_rear l)

theorem front_snoc (a : α) : front (l ++ [a]) = front l ++ [Node.item a] := by
  simp [front]

theorem lastNode_snoc (a : α) : lastNode (l ++ [a]) = Node.item a := by
  simp [lastNode]

theorem rear_cons (a : α) : rear (a :: l) = Node.item a :: rear l := by
  simp [rear]

end

theorem front_nodup (hl : l.Nodup) : (front l).Nodup := by
  simpa [front] using hl.map fun _ _ h => Node.item.inj h

theorem rear_nodup (hl : l.Nodup) : (rear l).Nodup := by
  rw [rear, nodup_append]
  exact ⟨hl.map fun _ _ h => Node.item.inj h, by simp, by simp⟩

theorem front_rear_disjoint (hl : (l₁ ++ l₂).Nodup) {v : Node α} (hu : u ∈ front l₁)
    (hv : v ∈ rear l₂) : u ≠ v := by
  rintro rfl
  cases u with
  | head =>
    simp [rear] at hv
  | tail =>
    simp [front] at hu
  | item a =>
    exact (nodup_append.mp hl).2.2 a (mem_front_item.mp hu) a (mem_rear_item.mp hv) rfl

theorem ne_lastNode_of_mem_dropLast (hl : l.Nodup) (hu : u ∈ (front l).dropLast) :
    u ≠ lastNode l := by
  have hsplit : (front l).dropLast ++ [lastNode l] = front l :=
    dropLast_append_getLast? _ (getLast?_front l)
  have hnd := front_nodup hl
  rw [← hsplit, nodup_append] at hnd
  exact fun h => hnd.2.2 u hu (lastNode l) (by simp) h

theorem ne_firstNode_of_mem_tail (hl : l.Nodup) (hu : u ∈ (rear l).tail) : u ≠ firstNode l := by
  have hsplit : firstNode l :: (rear l).tail = rear l := by
    cases l <;> rfl
  have hnd := rear_nodup hl
  rw [← hsplit, nodup_cons] at hnd
  exact fun h => hnd.1 (h ▸ hu)

/-- The pointers `L` thread exactly the items of `l`, in order, and no other item is
linked. -/
structure Represents (L : Links α) (l : List α) : Prop where
  nodup : l.Nodup
  chain : (front l ++ rear []).IsChain L.Linked
  unlinked : ∀ a ∉ l, L.next (Node.item a) = none ∧ L.prev (Node.item a) = none
  ends : L.next Node.tail = none ∧ L.prev Node.head = none

theorem isChain_front_append_rear {R : Node α → Node α → Prop} (l₁ l₂ : List α) :
    (front l₁ ++ rear l₂).IsChain R ↔
      (front l₁).IsChain R ∧ (rear l₂).IsChain R ∧ R (lastNode l₁) (firstNode l₂) := by
  rw [isChain_append, getLast?_front, head?_rear]
  simp

theorem front_append_rear (l₁ l₂ : List α) :
    front (l₁ ++ l₂) ++ rear [] = front l₁ ++ rear l₂ := by
  simp [front, rear]

theorem Represents.split (h : Represents L (l₁ ++ l₂)) :
    (front l₁).IsChain L.Linked ∧ (rear l₂).IsChain L.Linked ∧
      L.Linked (lastNode l₁) (firstNode l₂) := by
  have hchain := h.chain
  rwa [front_append_rear, isChain_front_append_rear] at hchain

theorem Represents.neighbours (h : Represents L (l₁ ++ a :: l₂)) :
    L.prev (Node.item a) = some (lastNode l₁) ∧ L.next (Node.item a) = some (firstNode l₂) := by
  have hbefore := h.split.2.2.2
  have hassoc : l₁ ++ a :: l₂ = (l₁ ++ [a]) ++ l₂ := by simp
  have hafter := (Represents.split (hassoc ▸ h)).2.2.1
  rw [lastNode_snoc] at hafter
  exact ⟨hbefore, hafter⟩

theorem Represents.next_head (h : Represents L l) : L.next Node.head = some (firstNode l) := by
  have hsplit : Represents L ([] ++ l) := h
  exact hsplit.split.2.2.1

theorem Represents.prev_tail (h : Represents L l) : L.prev Node.tail = some (lastNode l) := by
  have hassoc : l = l ++ [] := by simp
  exact (Represents.split (hassoc ▸ h)).2.2.2

end

section relinking

variable {L : Links α}

variable {n : Node α} {l : List α}

theorem isChain_clear {x : List (Node α)} (hchain : x.IsChain L.Linked) (hn : n ∉ x) :
    x.IsChain (L.clear n).Linked := by
  refine Links.isChain_of_agree hchain ?_ ?_
  · intro u hu
    exact Links.clear_next_of_ne L fun h => hn (h ▸ dropLast_subset _ hu)
  · intro u hu
    exact Links.clear_prev_of_ne L fun h => hn (h ▸ mem_of_mem_tail hu)

theorem isChain_front_link (hl : l.Nodup) (hchain : (front l).IsChain L.Linked) (hn : n ∉ front l) :
    (front l).IsChain (L.link (lastNode l) n).Linked := by
  refine Links.isChain_of_agree hchain ?_ ?_
  · intro u hu
    exact Links.link_next_of_ne L (ne_lastNode_of_mem_dropLast hl hu)
  · intro u hu
    exact Links.link_prev_of_ne L fun h => hn (h ▸ mem_of_mem_tail hu)

theorem isChain_rear_link (hl : l.Nodup) (hchain : (rear l).IsChain L.Linked) (hn : n ∉ rear l) :
    (rear l).IsChain (L.link n (firstNode l)).Linked := by
  refine Links.isChain_of_agree hchain ?_ ?_
  · intro u hu
    exact Links.link_next_of_ne L fun h => hn (h ▸ dropLast_subset _ hu)
  · intro u hu
    exact Links.link_prev_of_ne L (ne_firstNode_of_mem_tail hl hu)

theorem represents_link (L : Links α) (l₁ l₂ : List α) (hl : (l₁ ++ l₂).Nodup)
    (hfront : (front l₁).IsChain L.Linked) (hrear : (rear l₂).IsChain L.Linked)
    (hun : ∀ a ∉ l₁ ++ l₂, L.next (Node.item a) = none ∧ L.prev (Node.item a) = none)
    (hends : L.next Node.tail = none ∧ L.prev Node.head = none) :
    Represents (L.link (lastNode l₁) (firstNode l₂)) (l₁ ++ l₂) := by
  have hdisj {u v : Node α} := front_rear_disjoint hl (u := u) (v := v)
  refine ⟨hl, ?_, ?_, ?_⟩
  · grind [front_append_rear, isChain_front_append_rear, isChain_front_link, isChain_rear_link,
      Links.link_linked, firstNode_mem_rear, lastNode_mem_front]
  · grind [lastNode_mem_front, firstNode_mem_rear, Links.link_next_of_ne, Links.link_prev_of_ne,
      mem_front_item, mem_rear_item]
  · grind [lastNode_mem_front, tail_mem_rear, head_mem_front, firstNode_mem_rear,
      Links.link_next_of_ne, Links.link_prev_of_ne]

theorem isChain_front_snoc {a : α} (hl : (l ++ [a]).Nodup) (hchain : (front l).IsChain L.Linked) :
    (front (l ++ [a])).IsChain (L.link (lastNode l) (Node.item a)).Linked := by
  obtain ⟨hl, -, hdisj⟩ := nodup_append.mp hl
  have ha : Node.item a ∉ front l := fun h =>
    hdisj a (mem_front_item.mp h) a (by simp) rfl
  rw [front_snoc, isChain_append, getLast?_front]
  refine ⟨isChain_front_link hl hchain ha, isChain_singleton _, ?_⟩
  rintro u ⟨⟩ v ⟨⟩
  exact Links.link_linked _ _ _

theorem Represents.unlink {l₁ l₂ : List α} {a : α} (h : Represents L (l₁ ++ a :: l₂)) :
    Represents ((L.link (lastNode l₁) (firstNode l₂)).clear (Node.item a)) (l₁ ++ l₂) := by
  have hnd : (l₁ ++ l₂).Nodup ∧ a ∉ l₁ ++ l₂ := by
    have := h.nodup
    rw [nodup_middle, nodup_cons] at this
    exact this.symm
  have hassoc : l₁ ++ a :: l₂ = (l₁ ++ [a]) ++ l₂ := by simp
  have hfront := h.split.1
  have hrear := (Represents.split (hassoc ▸ h)).2.1
  have hafront : Node.item a ∉ front l₁ := fun hm =>
    hnd.2 (mem_append_left _ (mem_front_item.mp hm))
  have harear : Node.item a ∉ rear l₂ := fun hm =>
    hnd.2 (mem_append_right _ (mem_rear_item.mp hm))
  have hcomm : (L.link (lastNode l₁) (firstNode l₂)).clear (Node.item a) =
      (L.clear (Node.item a)).link (lastNode l₁) (firstNode l₂) :=
    Links.clear_link_comm L (fun hm => hafront (hm ▸ lastNode_mem_front l₁))
      fun hm => harear (hm ▸ firstNode_mem_rear l₂)
  rw [hcomm]
  refine represents_link _ _ _ hnd.1 (isChain_clear hfront hafront) (isChain_clear hrear harear)
    ?_ ?_
  · intro b hb
    by_cases hba : b = a
    · subst hba
      simp
    · grind [Links.clear_next_of_ne, Links.clear_prev_of_ne,
        Represents.unlinked]
  · exact h.ends

end relinking

end LongCtxSpecDecode.Library.LinkedQueue
