import LongCtxSpecDecode.Library.Slices

/-!
# Rows of the block tables

`worker/block_table.py`, by row: every KV cache group has a table, and a row of it holds the
kernel blocks of one request in its first `num_blocks_per_row` columns. The columns behind are
never cleared, so they keep the block numbers of earlier occupants.
-/

namespace LongCtxSpecDecode

open Library.Slices List

/-- One row of a `BlockTable`. -/
structure BlockRow where
  numBlocks : Nat := 0
  blockIds : Nat → Nat := fun _ => 0

namespace BlockRow

/-- `map_to_kernel_blocks`: a block of the KV cache manager is cut into `blocksPerKvBlock`
blocks of the attention kernel. -/
def mapToKernelBlocks (blocksPerKvBlock : Nat) (blockIds : List Nat) : List Nat :=
  if blocksPerKvBlock = 1 then blockIds
  else blockIds.flatMap fun b => (range blocksPerKvBlock).map fun i => b * blocksPerKvBlock + i

def appendRow (row : BlockRow) (blockIds : List Nat) : BlockRow :=
  { numBlocks := row.numBlocks + blockIds.length
    blockIds := write row.blockIds row.numBlocks blockIds }

def addRow (row : BlockRow) (blockIds : List Nat) : BlockRow :=
  { row with numBlocks := 0 }.appendRow blockIds

/-- The new row `tgt` after `move_row(src, tgt)`. -/
def moveRow (src tgt : BlockRow) : BlockRow :=
  { numBlocks := src.numBlocks
    blockIds := copyFirst src.blockIds tgt.blockIds src.numBlocks }

structure Holds (row : BlockRow) (blockIds : List Nat) : Prop where
  numBlocks : row.numBlocks = blockIds.length
  carries : Carries row.blockIds 0 blockIds

variable {row src tgt : BlockRow} {ids ids' : List Nat}

theorem holds_addRow : (row.addRow ids).Holds ids := by
  refine ⟨Nat.zero_add _, ?_⟩
  change Carries (write row.blockIds 0 ids) 0 ids
  exact carries_write

theorem Holds.appendRow (h : row.Holds ids) : (row.appendRow ids').Holds (ids ++ ids') := by
  refine ⟨?_, Carries.append (h.carries.write_after ?_) ?_⟩
  · rw [BlockRow.appendRow, h.numBlocks, length_append]
  · have hn := h.numBlocks
    omega
  · rw [Nat.zero_add, ← h.numBlocks]
    exact carries_write

theorem Holds.moveRow (h : src.Holds ids) : (src.moveRow tgt).Holds ids := by
  have hn := h.numBlocks
  exact ⟨hn, h.carries.copyFirst tgt.blockIds (by omega)⟩

end BlockRow

/-- One row of `MultiGroupBlockTable`: a row of each group's table. -/
abbrev BlockRows := List BlockRow

namespace BlockRows

variable (perKvBlock : List Nat)

/-- The kernel blocks of every group, where `perKvBlock` has `blocks_per_kv_block` of the
groups. -/
def kernelBlocks (blockIds : List (List Nat)) : List (List Nat) :=
  zipWith BlockRow.mapToKernelBlocks perKvBlock blockIds

def appendRow (rows : BlockRows) (blockIds : List (List Nat)) : BlockRows :=
  zipWith BlockRow.appendRow rows (kernelBlocks perKvBlock blockIds)

def addRow (rows : BlockRows) (blockIds : List (List Nat)) : BlockRows :=
  zipWith BlockRow.addRow rows (kernelBlocks perKvBlock blockIds)

def moveRow (src tgt : BlockRows) : BlockRows :=
  zipWith BlockRow.moveRow src tgt

def Holds (rows : BlockRows) (blockIds : List (List Nat)) : Prop :=
  Forall₂ BlockRow.Holds rows (kernelBlocks perKvBlock blockIds)

end BlockRows

theorem mapToKernelBlocks_append (k : Nat) (ids ids' : List Nat) :
    BlockRow.mapToKernelBlocks k (ids ++ ids') =
      BlockRow.mapToKernelBlocks k ids ++ BlockRow.mapToKernelBlocks k ids' := by
  unfold BlockRow.mapToKernelBlocks
  split_ifs
  · rfl
  · exact flatMap_append

namespace BlockRows

variable {perKvBlock : List Nat} {rows src tgt : BlockRows} {ids ids' : List (List Nat)}

theorem holds_addRow (hrows : rows.length = perKvBlock.length)
    (hids : ids.length = perKvBlock.length) :
    Holds perKvBlock (addRow perKvBlock rows ids) ids := by
  induction rows generalizing perKvBlock ids with
  | nil =>
    obtain rfl : perKvBlock = [] := eq_nil_of_length_eq_zero hrows.symm
    exact Forall₂.nil
  | cons row rows ih =>
    cases perKvBlock with
    | nil => cases hrows
    | cons k perKvBlock =>
      cases ids with
      | nil => cases hids
      | cons blocks ids =>
        exact Forall₂.cons BlockRow.holds_addRow
          (ih (Nat.succ.inj hrows) (Nat.succ.inj hids))

theorem Holds.appendRow (h : Holds perKvBlock rows ids) (hids : ids.length = perKvBlock.length)
    (hids' : ids'.length = perKvBlock.length) :
    Holds perKvBlock (appendRow perKvBlock rows ids') (zipWith (· ++ ·) ids ids') := by
  induction perKvBlock generalizing rows ids ids' with
  | nil =>
    cases h
    exact Forall₂.nil
  | cons k perKvBlock ih =>
    cases ids with
    | nil => cases hids
    | cons blocks ids =>
      cases ids' with
      | nil => cases hids'
      | cons blocks' ids' =>
        cases h with
        | cons hrow hrows =>
          refine Forall₂.cons ?_ (ih hrows (Nat.succ.inj hids) (Nat.succ.inj hids'))
          rw [mapToKernelBlocks_append]
          exact hrow.appendRow

theorem Holds.moveRow (h : Holds perKvBlock src ids) (htgt : tgt.length = src.length) :
    Holds perKvBlock (moveRow src tgt) ids := by
  unfold Holds at h ⊢
  generalize kernelBlocks perKvBlock ids = blocks at h ⊢
  induction h generalizing tgt with
  | nil => exact Forall₂.nil
  | cons hrow hrows ih =>
    cases tgt with
    | nil => cases htgt
    | cons row' rows' => exact Forall₂.cons hrow.moveRow (ih (Nat.succ.inj htgt))

theorem Holds.length_eq (h : Holds perKvBlock rows ids) (hids : ids.length = perKvBlock.length) :
    rows.length = perKvBlock.length := by
  rw [Forall₂.length_eq h, kernelBlocks, length_zipWith, hids, Nat.min_self]

end BlockRows

end LongCtxSpecDecode
