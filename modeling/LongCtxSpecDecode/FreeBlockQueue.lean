import LongCtxSpecDecode.Basic
import LongCtxSpecDecode.Library.LinkedQueue

/-!
# The free block queue

`FreeKVCacheBlockQueue` of `v1/core/kv_cache_utils.py`: a doubly linked list of block
ids between two fake blocks, with a separate counter of its length.
-/

namespace LongCtxSpecDecode

open Library.LinkedQueue List

/-- `FreeKVCacheBlockQueue`: a doubly linked list through the blocks. -/
structure FreeKVCacheBlockQueue where
  links : Links Nat
  numFreeBlocks : Int

namespace FreeKVCacheBlockQueue

/-- The loop of `__init__` that connects consecutive blocks; `prevBlock` is the block
before the list. -/
def connect (prevBlock : Option Nat) : List Nat → Links Nat → Links Nat
  | [], links => links
  | block :: blocks, links =>
    let links := match prevBlock with
      | some prevBlock => links.setPrev (.item block) (some (.item prevBlock))
      | none => links
    let links := match blocks with
      | nextBlock :: _ => links.setNext (.item block) (some (.item nextBlock))
      | [] => links
    connect (some block) blocks links

def init (blocks : List Nat) : FreeKVCacheBlockQueue where
  links :=
    let links := connect none blocks Links.empty
    (links.link .head (firstNode blocks)).link (lastNode blocks) .tail
  numFreeBlocks := blocks.length

variable (q : FreeKVCacheBlockQueue)

/-- `popleft`. The queue never hands out one of its fake blocks; finding one where a block
is expected is treated like finding nothing. -/
def popleft : Except Exn (Nat × FreeKVCacheBlockQueue) :=
  match q.links.next .head with
  | some (.item firstBlock) =>
    match q.links.next (.item firstBlock) with
    | none =>
      .error (.runtimeError
        "Invalid block found in popleft() which doesn't have a valid next_free_block")
    | some nextBlock =>
      .ok (firstBlock,
        { links := (q.links.link .head nextBlock).clear (.item firstBlock)
          numFreeBlocks := q.numFreeBlocks - 1 })
  | _ => do
      require (q.numFreeBlocks = 0)
        s!"num_free_blocks ({q.numFreeBlocks}) is out of sync with the free list."
      .error (.valueError "No free blocks available")

/-- The loop of `popleft_n`: walk over `n` blocks, clearing their pointers. -/
def popWalk : Nat → Option (Node Nat) → Links Nat →
    Except Exn (List Nat × Option (Node Nat) × Links Nat)
  | 0, currBlock, links => .ok ([], currBlock, links)
  | n + 1, some (.item block), links => do
      let (ret, currBlock, links) ←
        popWalk n (links.next (.item block)) (links.clear (.item block))
      .ok (block :: ret, currBlock, links)
  | _ + 1, _, _ => .error (.assertionError "")

def popleftN (n : Int) : Except Exn (List Nat × FreeKVCacheBlockQueue) :=
  if n = 0 then
    .ok ([], q)
  else do
    require (q.numFreeBlocks ≥ n) ""
    let (ret, currBlock, links) ← popWalk n.toNat (q.links.next .head) q.links
    let links := match currBlock with
      | some currBlock => links.link .head currBlock
      | none => links
    .ok (ret, { links := links, numFreeBlocks := q.numFreeBlocks - n })

def remove (block : Nat) : Except Exn FreeKVCacheBlockQueue :=
  match q.links.prev (.item block), q.links.next (.item block) with
  | some prevBlock, some nextBlock =>
    .ok { links := (q.links.link prevBlock nextBlock).clear (.item block)
          numFreeBlocks := q.numFreeBlocks - 1 }
  | _, _ => .error (.runtimeError s!"remove() called on an invalid block: {block}")

def append (block : Nat) : Except Exn FreeKVCacheBlockQueue :=
  match q.links.prev .tail with
  | none => .error (.runtimeError "prev_free_block of fake_free_list_tail should always exist")
  | some lastBlock =>
    .ok { links := (q.links.link lastBlock (.item block)).link (.item block) .tail
          numFreeBlocks := q.numFreeBlocks + 1 }

/-- The loop of `append_n`: link each block after the last one. -/
def appendWalk : List Nat → Node Nat → Links Nat → Node Nat × Links Nat
  | [], lastBlock, links => (lastBlock, links)
  | block :: blocks, lastBlock, links =>
    appendWalk blocks (.item block) (links.link lastBlock (.item block))

def appendN (blocks : List Nat) : Except Exn FreeKVCacheBlockQueue :=
  if blocks.length = 0 then
    .ok q
  else
    match q.links.prev .tail with
    | none =>
      .error (.assertionError "prev_free_block of fake_free_list_tail should always exist")
    | some lastBlock =>
      let (lastBlock, links) := appendWalk blocks lastBlock q.links
      .ok { links := links.link lastBlock .tail
            numFreeBlocks := q.numFreeBlocks + blocks.length }

/-- The loop of `get_all_free_blocks`: follow `next_free_block` until it is missing. -/
def collect : Nat → Node Nat → Links Nat → Except Exn (List Nat)
  | 0, _, _ => .error .outOfFuel
  | fuel + 1, currBlock, links =>
    match links.next currBlock, currBlock with
    | none, _ => .ok []
    | some nextBlock, .item block => do
        let ret ← collect fuel nextBlock links
        .ok (block :: ret)
    | some nextBlock, _ => collect fuel nextBlock links

def getAllFreeBlocks : Except Exn (List Nat) :=
  match q.links.next .head with
  | none =>
    .error (.runtimeError "next_free_block of fake_free_list_head should always exist")
  | some currBlock => collect (q.numFreeBlocks.toNat + 1) currBlock q.links

/-- The queue holds exactly the blocks `l`, in order, and counts them. -/
structure Holds (q : FreeKVCacheBlockQueue) (l : List Nat) : Prop where
  links : Represents q.links l
  count : q.numFreeBlocks = l.length

theorem firstNode_cons (b : Nat) (l : List Nat) : firstNode (b :: l) = .item b := rfl

variable {q : FreeKVCacheBlockQueue} {l blocks : List Nat} {links : Links Nat}

theorem popleft_spec {b : Nat} (hq : Holds q (b :: l)) :
    ∃ q', popleft q = .ok (b, q') ∧ Holds q' l := by
  have hfirst : q.links.next .head = some (.item b) := hq.links.next_head
  have hcell : Represents q.links ([] ++ b :: l) := hq.links
  have hnext := hcell.neighbours.2
  have hpop : popleft q = .ok (b,
      { links := (q.links.link .head (firstNode l)).clear (.item b)
        numFreeBlocks := q.numFreeBlocks - 1 }) := by
    simp only [popleft, hfirst, hnext]
  refine ⟨_, hpop, hcell.unlink, ?_⟩
  simp [hq.count]

theorem remove_spec {b : Nat} (hq : Holds q l) (hb : b ∈ l) :
    ∃ q', remove q b = .ok q' ∧ Holds q' (l.erase b) := by
  obtain ⟨l₁, l₂, hb₁, rfl, herase⟩ := exists_erase_eq hb
  obtain ⟨hprev, hnext⟩ := hq.links.neighbours
  have hremove : remove q b = .ok
      { links := (q.links.link (lastNode l₁) (firstNode l₂)).clear (.item b)
        numFreeBlocks := q.numFreeBlocks - 1 } := by
    simp only [remove, hprev, hnext]
  rw [herase]
  refine ⟨_, hremove, hq.links.unlink, ?_⟩
  simp only [hq.count, length_append, length_cons]
  omega

theorem popWalk_spec (pre suf : List Nat) (hnd : (pre ++ suf).Nodup)
    (hchain : (rear (pre ++ suf)).IsChain links.Linked) :
    ∃ links', popWalk pre.length (some (firstNode (pre ++ suf))) links =
        .ok (pre, some (firstNode suf), links') ∧
      (rear suf).IsChain links'.Linked ∧
      (∀ n : Node Nat, n ∉ pre.map Node.item →
        links'.next n = links.next n ∧ links'.prev n = links.prev n) ∧
      ∀ b ∈ pre, links'.next (.item b) = none ∧ links'.prev (.item b) = none := by
  induction pre generalizing links with
  | nil =>
    exact ⟨links, rfl, hchain, by simp, by simp⟩
  | cons b pre ih =>
    rw [cons_append, nodup_cons] at hnd
    rw [cons_append, rear_cons, isChain_cons] at hchain
    have hnext : links.next (.item b) = some (firstNode (pre ++ suf)) :=
      (hchain.1 _ (head?_rear _)).1
    have hb : Node.item b ∉ rear (pre ++ suf) := fun h => hnd.1 (mem_rear_item.mp h)
    obtain ⟨links', hwalk, hrear, hother, hcleared⟩ := ih hnd.2 (isChain_clear hchain.2 hb)
    refine ⟨links', ?_, hrear, ?_, ?_⟩
    · simp only [length_cons, cons_append, firstNode_cons, popWalk, hnext, hwalk,
        ok_bind]
    · grind [Links.clear_next_of_ne, Links.clear_prev_of_ne]
    · intro c hc
      by_cases hcpre : c ∈ pre
      · exact hcleared c hcpre
      · obtain rfl : c = b := by simpa [hcpre] using hc
        obtain ⟨hnext', hprev'⟩ := hother (.item c) (by simpa using hcpre)
        simp [hnext', hprev']

theorem popleftN_spec (pre suf : List Nat) (hq : Holds q (pre ++ suf)) :
    ∃ q', popleftN q pre.length = .ok (pre, q') ∧ Holds q' suf := by
  by_cases hzero : (pre.length : Int) = 0
  · obtain rfl : pre = [] := by simpa using hzero
    exact ⟨q, rfl, hq⟩
  have hcells : Represents q.links ([] ++ (pre ++ suf)) := hq.links
  obtain ⟨links', hwalk, hrear, hother, hcleared⟩ :=
    popWalk_spec pre suf hq.links.nodup hcells.split.2.1
  have hpop : popleftN q pre.length = .ok (pre,
      { links := links'.link .head (firstNode suf)
        numFreeBlocks := q.numFreeBlocks - pre.length }) := by
    have hcount : q.numFreeBlocks ≥ pre.length := by
      rw [hq.count, length_append]
      omega
    simp only [popleftN, hzero, if_false, require_of_true hcount, ok_bind, Int.toNat_natCast,
      hq.links.next_head, hwalk]
  refine ⟨_, hpop, ?_, ?_⟩
  · refine represents_link links' [] suf ?_ (isChain_singleton _) hrear ?_ ?_
    · exact (nodup_append.mp hq.links.nodup).2.1
    · grind [Represents.unlinked]
    · rw [(hother .tail (by simp)).1, (hother .head (by simp)).2]
      exact hq.links.ends
  · simp only [hq.count, length_append]
    omega

theorem appendWalk_spec (hnd : (l ++ blocks).Nodup) (hchain : (front l).IsChain links.Linked) :
    (appendWalk blocks (lastNode l) links).1 = lastNode (l ++ blocks) ∧
      (front (l ++ blocks)).IsChain (appendWalk blocks (lastNode l) links).2.Linked ∧
      (∀ n : Node Nat, n ∉ front (l ++ blocks) →
        (appendWalk blocks (lastNode l) links).2.next n = links.next n ∧
        (appendWalk blocks (lastNode l) links).2.prev n = links.prev n) ∧
      (appendWalk blocks (lastNode l) links).2.prev .head = links.prev .head := by
  induction blocks generalizing l links with
  | nil =>
    simpa [appendWalk] using hchain
  | cons b blocks ih =>
    have hassoc : l ++ b :: blocks = (l ++ [b]) ++ blocks := by simp
    rw [hassoc] at hnd ⊢
    have hsnoc := isChain_front_snoc (nodup_append.mp hnd).1 hchain
    have hwalk := ih hnd hsnoc
    rw [lastNode_snoc] at hwalk
    simp only [appendWalk]
    refine ⟨hwalk.1, hwalk.2.1, ?_, ?_⟩
    · intro n hn
      have hlast : n ≠ lastNode l := by
        rintro rfl
        refine hn ?_
        have hmem := lastNode_mem_front l
        simp only [front, map_append, mem_cons, mem_append] at hmem ⊢
        tauto
      have hb : n ≠ .item b := by
        rintro rfl
        exact hn (mem_front_item.mpr (by simp))
      rw [(hwalk.2.2.1 n hn).1, (hwalk.2.2.1 n hn).2, Links.link_next_of_ne _ hlast,
        Links.link_prev_of_ne _ hb]
      exact ⟨rfl, rfl⟩
    · rw [hwalk.2.2.2, Links.link_prev_of_ne _ (by simp)]

theorem appendN_spec (hq : Holds q l) (hnd : (l ++ blocks).Nodup) :
    ∃ q', appendN q blocks = .ok q' ∧ Holds q' (l ++ blocks) := by
  by_cases hnil : blocks.length = 0
  · obtain rfl := length_eq_zero_iff.mp hnil
    exact ⟨q, rfl, by simpa using hq⟩
  have hcells : Represents q.links (l ++ []) := by simpa using hq.links
  obtain ⟨hlast, hfront, hother, hhead⟩ := appendWalk_spec hnd hcells.split.1
  have happend : appendN q blocks = .ok
      { links := (appendWalk blocks (lastNode l) q.links).2.link (lastNode (l ++ blocks)) .tail
        numFreeBlocks := q.numFreeBlocks + blocks.length } := by
    simp only [appendN, hnil, if_false, hq.links.prev_tail, hlast]
  refine ⟨_, happend, ?_, ?_⟩
  · have hjoin := represents_link (appendWalk blocks (lastNode l) q.links).2 (l ++ blocks) []
    rw [append_nil] at hjoin
    refine hjoin hnd hfront (isChain_singleton _) ?_ ?_
    · grind [Represents.unlinked, mem_front_item]
    · rw [(hother .tail (by simp [front])).1, hhead]
      exact hq.links.ends
  · simp [hq.count]

theorem collect_spec (hchain : (rear l).IsChain links.Linked) (htail : links.next .tail = none) :
    collect (l.length + 1) (firstNode l) links = .ok l := by
  induction l with
  | nil =>
    simp [collect, firstNode, htail]
  | cons b l ih =>
    rw [rear_cons, isChain_cons] at hchain
    have hnext : links.next (.item b) = some (firstNode l) := (hchain.1 _ (head?_rear _)).1
    simp only [length_cons, firstNode_cons, collect, hnext, ih hchain.2, ok_bind]

theorem getAllFreeBlocks_spec (hq : Holds q l) : getAllFreeBlocks q = .ok l := by
  have hcells : Represents q.links ([] ++ l) := hq.links
  have hcollect := collect_spec hcells.split.2.1 hcells.ends.1
  simp only [getAllFreeBlocks, hq.links.next_head, hq.count, Int.toNat_natCast, hcollect]

theorem connect_spec (prevBlock : Option Nat) (links : Links Nat) (hnd : blocks.Nodup) :
    (blocks.map Node.item).IsChain (connect prevBlock blocks links).Linked ∧
      (∀ n : Node Nat, n ∉ blocks.map Node.item →
        (connect prevBlock blocks links).next n = links.next n ∧
        (connect prevBlock blocks links).prev n = links.prev n) ∧
      ∀ b ∈ blocks.head?, ∀ p ∈ prevBlock,
        (connect prevBlock blocks links).prev (.item b) = some (.item p) := by
  induction blocks generalizing prevBlock links with
  | nil =>
    simp [connect]
  | cons b blocks ih =>
    rw [nodup_cons] at hnd
    have hb : Node.item b ∉ blocks.map Node.item := by simpa using hnd.1
    -- the pointers after the two assignments made for `b`
    obtain ⟨links', hconnect, hother, hprev, hnext⟩ : ∃ links' : Links Nat,
        connect prevBlock (b :: blocks) links = connect (some b) blocks links' ∧
        (∀ n ≠ Node.item b, links'.next n = links.next n ∧ links'.prev n = links.prev n) ∧
        (∀ p ∈ prevBlock, links'.prev (.item b) = some (.item p)) ∧
        ∀ c ∈ blocks.head?, links'.next (.item b) = some (.item c) := by
      refine ⟨_, rfl, ?_, ?_, ?_⟩
      · intro n hn
        cases prevBlock <;> cases blocks <;> simp [Function.update_of_ne hn]
      · rintro p ⟨⟩
        cases blocks <;> simp
      · rintro c hc
        cases blocks with
        | nil =>
          simp at hc
        | cons d rest =>
          cases hc
          cases prevBlock <;> simp
    rw [hconnect]
    obtain ⟨hchain, hrest, hhead⟩ := ih (some b) links' hnd.2
    refine ⟨?_, ?_, ?_⟩
    · rw [map_cons, isChain_cons]
      refine ⟨?_, hchain⟩
      intro n hn
      obtain ⟨c, hc, rfl⟩ : ∃ c, blocks.head? = some c ∧ Node.item c = n := by
        simpa using hn
      refine ⟨?_, hhead c hc b rfl⟩
      rw [(hrest _ hb).1, hnext c hc]
    · intro n hn
      rw [map_cons, mem_cons, not_or] at hn
      rw [(hrest n hn.2).1, (hrest n hn.2).2]
      exact hother n hn.1
    · rintro c ⟨⟩ p hp
      rw [(hrest _ hb).2, hprev p hp]

theorem init_holds (hnd : blocks.Nodup) : Holds (init blocks) blocks := by
  obtain ⟨hchain, hother, -⟩ := connect_spec none Links.empty hnd
  have hfirst : firstNode blocks ≠ .head := by
    cases blocks <;> simp [firstNode]
  have hfront : (front blocks).IsChain
      ((connect none blocks Links.empty).link .head (firstNode blocks)).Linked := by
    rw [front, isChain_cons]
    constructor
    · intro n hn
      cases blocks with
      | nil =>
        simp at hn
      | cons b blocks =>
        cases hn
        exact Links.link_linked _ _ _
    · refine Links.isChain_of_agree hchain ?_ ?_
      · intro u hu
        refine Links.link_next_of_ne _ ?_
        rintro rfl
        simpa using dropLast_subset _ hu
      · intro u hu
        refine Links.link_prev_of_ne _ (ne_firstNode_of_mem_tail hnd ?_)
        cases blocks with
        | nil =>
          simp at hu
        | cons b blocks =>
          simpa [rear] using Or.inl (by simpa using hu)
  have hjoin := represents_link
    ((connect none blocks Links.empty).link .head (firstNode blocks)) blocks []
  rw [append_nil] at hjoin
  refine ⟨hjoin hnd hfront (isChain_singleton _) ?_ ?_, rfl⟩
  · intro b hb
    have hkeep := hother (.item b) (by simpa using hb)
    have hne : Node.item b ≠ firstNode blocks := fun h =>
      hb (mem_rear_item.mp (h ▸ firstNode_mem_rear blocks))
    rw [Links.link_next_of_ne _ (by simp), Links.link_prev_of_ne _ hne, hkeep.1, hkeep.2]
    exact ⟨rfl, rfl⟩
  · rw [Links.link_next_of_ne _ (by simp), Links.link_prev_of_ne _ hfirst.symm,
      (hother .tail (by simp)).1, (hother .head (by simp)).2]
    exact ⟨rfl, rfl⟩

/-! ### Runs -/

theorem append_spec {b : Nat} (hq : Holds q l) (hb : b ∉ l) :
    ∃ q', append q b = .ok q' ∧ Holds q' (l ++ [b]) := by
  have happend : append q b = appendN q [b] := by
    rw [append, appendN, hq.links.prev_tail]
    rfl
  rw [happend]
  refine appendN_spec hq (nodup_append.mpr ⟨hq.links.nodup, by simp, ?_⟩)
  rintro a ha _ hmem rfl
  exact hb (mem_singleton.mp hmem ▸ ha)


/-- The items that following `next` from `n` gives, in at most `fuel` steps. -/
def walk (next : Node Nat → Option (Node Nat)) : Nat → Node Nat → List Nat
  | 0, _ => []
  | fuel + 1, n =>
    match next n with
    | some (.item b) => b :: walk next fuel (.item b)
    | _ => []

theorem walk_eq {next : Node Nat → Option (Node Nat)} {n : Node Nat} (last : Node Nat)
    (hlast : ∀ b, last ≠ .item b)
    (h : (n :: (l.map Node.item ++ [last])).IsChain fun a b => next a = some b) :
    walk next (l.length + 1) n = l := by
  induction l generalizing n with
  | nil =>
    rw [map_nil, nil_append, isChain_cons_cons] at h
    cases last with
    | item b => exact absurd rfl (hlast b)
    | head | tail => rw [walk, h.1]
  | cons b l ih =>
    rw [map_cons, cons_append, isChain_cons_cons] at h
    rw [length_cons, walk, h.1]
    exact congrArg (b :: ·) (ih h.2)

theorem Holds.walks (hq : Holds q l) :
    walk q.links.next (l.length + 1) .head = l ∧
      walk q.links.prev (l.length + 1) .tail = l.reverse := by
  have hchain := hq.links.chain
  have hback := isChain_reverse.mpr hchain
  refine ⟨walk_eq .tail (fun _ => nofun) (hchain.imp fun _ _ h => h.1), ?_⟩
  rw [← length_reverse]
  refine walk_eq .head (fun _ => nofun) ?_
  simpa [front, rear] using hback.imp fun _ _ h => h.2

inductive Op where
  | popleft
  | popleftN (n : Nat)
  | remove (block : Nat)
  | append (block : Nat)
  | appendN (blocks : List Nat)

namespace Op

/-- The call, with the blocks that it returns. -/
def perform : Op → FreeKVCacheBlockQueue → Except Exn (List Nat × FreeKVCacheBlockQueue)
  | popleft, q => do
      let (block, q) ← q.popleft
      return ([block], q)
  | popleftN n, q => q.popleftN n
  | remove block, q => return ([], ← q.remove block)
  | append block, q => return ([], ← q.append block)
  | appendN blocks, q => return ([], ← q.appendN blocks)

/-- The same call on a list. -/
def onList : Op → List Nat → List Nat × List Nat
  | popleft, l => (l.take 1, l.drop 1)
  | popleftN n, l => (l.take n, l.drop n)
  | remove block, l => ([], l.erase block)
  | append block, l => ([], l ++ [block])
  | appendN blocks, l => ([], l ++ blocks)

/-- The calls that the queue allows when its blocks are `l`. -/
def Valid : Op → List Nat → Prop
  | popleft, l => l ≠ []
  | popleftN n, l => n ≤ l.length
  | remove block, l => block ∈ l
  | append block, l => block ∉ l
  | appendN blocks, l => (l ++ blocks).Nodup

theorem perform_spec {op : Op} (hq : Holds q l) (hop : op.Valid l) :
    ∃ q', op.perform q = .ok ((op.onList l).1, q') ∧ Holds q' (op.onList l).2 := by
  cases op with
  | popleft =>
    obtain ⟨b, rest, rfl⟩ := exists_cons_of_ne_nil hop
    obtain ⟨q', hpop, hq'⟩ := popleft_spec hq
    refine ⟨q', ?_, hq'⟩
    rw [perform, hpop]
    rfl
  | popleftN n =>
    have hsplit := popleftN_spec (l.take n) (l.drop n) (by rwa [take_append_drop])
    rwa [length_take_of_le hop] at hsplit
  | remove block =>
    obtain ⟨q', hremove, hq'⟩ := remove_spec hq hop
    refine ⟨q', ?_, hq'⟩
    rw [perform, hremove]
    rfl
  | append block =>
    obtain ⟨q', happend, hq'⟩ := append_spec hq hop
    refine ⟨q', ?_, hq'⟩
    rw [perform, happend]
    rfl
  | appendN blocks =>
    obtain ⟨q', happend, hq'⟩ := appendN_spec hq hop
    refine ⟨q', ?_, hq'⟩
    rw [perform, happend]
    rfl

end Op

def runOps : List Op → FreeKVCacheBlockQueue → Except Exn (List (List Nat) × FreeKVCacheBlockQueue)
  | [], q => return ([], q)
  | op :: ops, q => do
      let (returned, q) ← op.perform q
      let (rest, q) ← runOps ops q
      return (returned :: rest, q)

/-- The same calls on a list. -/
def runList : List Op → List Nat → List (List Nat) × List Nat
  | [], l => ([], l)
  | op :: ops, l =>
    let (rest, l') := runList ops (op.onList l).2
    ((op.onList l).1 :: rest, l')

def ValidRun : List Op → List Nat → Prop
  | [], _ => True
  | op :: ops, l => op.Valid l ∧ ValidRun ops (op.onList l).2

theorem runOps_spec {ops : List Op} (hq : Holds q l) (hops : ValidRun ops l) :
    ∃ q', runOps ops q = .ok ((runList ops l).1, q') ∧ Holds q' (runList ops l).2 := by
  induction ops generalizing q l with
  | nil => exact ⟨q, rfl, hq⟩
  | cons op ops ih =>
    obtain ⟨q₁, hop, hq₁⟩ := Op.perform_spec hq hops.1
    obtain ⟨q₂, hrest, hq₂⟩ := ih hq₁ hops.2
    refine ⟨q₂, ?_, hq₂⟩
    rw [runOps, hop, ok_bind]
    dsimp only
    rw [hrest]
    rfl

/-- The linked queue is a list: it returns the same blocks, it counts them, both walks show them,
and no other block is linked. -/
theorem queue_refines_list {ops : List Op} (hblocks : blocks.Nodup) (hops : ValidRun ops blocks) :
    ∃ q, runOps ops (init blocks) = .ok ((runList ops blocks).1, q) ∧
      q.numFreeBlocks = (runList ops blocks).2.length ∧
      getAllFreeBlocks q = .ok (runList ops blocks).2 ∧
      walk q.links.next ((runList ops blocks).2.length + 1) .head = (runList ops blocks).2 ∧
      walk q.links.prev ((runList ops blocks).2.length + 1) .tail =
        (runList ops blocks).2.reverse ∧
      ∀ b ∉ (runList ops blocks).2,
        q.links.next (.item b) = none ∧ q.links.prev (.item b) = none := by
  obtain ⟨q, hrun, hq⟩ := runOps_spec (init_holds hblocks) hops
  exact ⟨q, hrun, hq.count, getAllFreeBlocks_spec hq, hq.walks.1, hq.walks.2, hq.links.unlinked⟩

theorem queue_refines_list_reused :
    ∃ q, runOps [.popleftN 2, .remove 3, .append 0] (init [0, 1, 2, 3]) =
      .ok ([[0, 1], [], []], q) ∧ q.numFreeBlocks = 2 ∧ getAllFreeBlocks q = .ok [2, 0] := by
  obtain ⟨q, hrun, hcount, hall, -⟩ := @queue_refines_list [0, 1, 2, 3]
    [.popleftN 2, .remove 3, .append 0] (by decide)
    (by simp [ValidRun, Op.Valid, Op.onList])
  exact ⟨q, hrun, hcount, hall⟩

end FreeKVCacheBlockQueue

end LongCtxSpecDecode
