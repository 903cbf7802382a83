import Mathlib.Data.List.Nodup
import Xv6.Data.Bytes
import Xv6.Data.Writes
import Xv6.Param

namespace Xv6.Log

open Xv6.Data

/-! # The redo log on disk

`log.c` below its locks: the on-disk header, `write_log`, `write_head`,
`install_trans`, `read_head` and `recover_from_log` over a disk of blocks.  A
loop body that ends in `bwrite` is one atomic block write.
-/

/-- The contents of one disk block. -/
abbrev Block := Bytes

abbrev Disk := Nat → Block

/-- `log.start` and `log.size`, copied from the superblock by `initlog`.  The
`int` arithmetic on log block numbers is exact because they fit. -/
structure LogArea where
  start : Nat
  size : Nat
  fits : start + size ≤ 2 ^ 31

/-- The blocks reserved for the log: its header and its data blocks. -/
def LogArea.Contains (area : LogArea) (block : Nat) : Prop :=
  area.start ≤ block ∧ block < area.start + area.size

instance (area : LogArea) (block : Nat) : Decidable (area.Contains block) :=
  inferInstanceAs (Decidable (_ ∧ _))

/-- The block that holds entry `tail` of the log. -/
def LogArea.slot (area : LogArea) (tail : Nat) : Nat := area.start + tail + 1

/-- The in-memory side of the log: the disk, the block contents `bread` returns,
and `log.lh` as the list `block[0..n)`. -/
structure Memory where
  disk : Disk
  cache : Disk
  lh : List Nat

/-- The scan and update of `log.lh` in `log_write`: a block already listed is
absorbed, another one is added behind the last. -/
def absorb (block : Nat) : List Nat → List Nat
  | [] => [block]
  | listed :: rest => if listed = block then block :: rest else listed :: absorb block rest

/-- `log_write`'s test for "too big a transaction". -/
def tooBig (size : Nat) (lh : List Nat) : Prop :=
  lh.length ≥ LOGSIZE ∨ lh.length + 1 ≥ size

instance (size : Nat) (lh : List Nat) : Decidable (tooBig size lh) :=
  inferInstanceAs (Decidable (_ ∨ _))

/-- Write a buffer's contents through to the disk. -/
def Memory.bwrite (memory : Memory) (block : Nat) (data : Block) : Memory :=
  { memory with
    disk := Function.update memory.disk block data
    cache := Function.update memory.cache block data }

/-- `hb->n`, read as the `int` it is; a loop bounded by a negative count does not run. -/
def headCount (head : Block) : Nat := (head.loadInt 0).toNat

/-- `hb->block[i]`. -/
def headBlock (head : Block) (index : Nat) : Nat := head.load (4 + 4 * index) 4

/-- The entries a header block lists. -/
def headBlocks (head : Block) : List Nat := (List.range (headCount head)).map (headBlock head)

/-- The loop of `write_head`: entry `index` and the ones after it. -/
def storeBlocks (head : Block) (index : Nat) : List Nat → Block
  | [] => head
  | block :: rest => storeBlocks (head.store (4 + 4 * index) 4 block) (index + 1) rest

/-- What `write_head` makes of the header block: the count and the first `n`
entries are replaced, stale entries behind them stay. -/
def encodeHead (head : Block) (lh : List Nat) : Block :=
  storeBlocks (head.store 0 4 lh.length) 0 lh

section

variable (area : LogArea)

/-- Write the in-memory log header to disk. -/
def writeHead (memory : Memory) : Memory :=
  memory.bwrite area.start (encodeHead (memory.cache area.start) memory.lh)

/-- Read the log header from disk into the in-memory log header. -/
def readHead (memory : Memory) : Memory :=
  { memory with lh := headBlocks (memory.cache area.start) }

/-- One iteration of `write_log`: copy a modified block from the cache to the log. -/
def writeLogBlock (memory : Memory) (tail : Nat) (block : Nat) : Memory :=
  memory.bwrite (area.slot tail) (memory.cache block)

/-- One iteration of `install_trans`: copy a block from the log to its home location. -/
def installBlock (memory : Memory) (tail : Nat) (block : Nat) : Memory :=
  memory.bwrite block (memory.cache (area.slot tail))

/-- `install_trans` from entry `tail` on. -/
def installFrom (memory : Memory) (tail : Nat) : List Nat → Memory
  | [] => memory
  | block :: rest => installFrom (installBlock area memory tail block) (tail + 1) rest

def installTrans (memory : Memory) : Memory := installFrom area memory 0 memory.lh

/-- Memory after a reboot: nothing cached that is not on disk, `log` zeroed. -/
def Memory.boot (disk : Disk) : Memory := { disk, cache := disk, lh := [] }

/-- An uninterrupted `recover_from_log` on a freshly booted machine. -/
def recoverFromLog (disk : Disk) : Disk :=
  let installed := installTrans area (readHead area (Memory.boot disk))
  (writeHead area { installed with lh := [] }).disk

end

/-! ## Absorption -/

theorem absorb_eq (block : Nat) (lh : List Nat) :
    absorb block lh = if block ∈ lh then lh else lh ++ [block] := by
  induction lh with
  | nil => rfl
  | cons listed rest ih =>
    by_cases same : listed = block
    · simp [absorb, same]
    · simp only [absorb, same, if_false, ih, List.mem_cons, Ne.symm same, false_or]
      split <;> rfl

theorem mem_absorb {block other : Nat} {lh : List Nat} :
    other ∈ absorb block lh ↔ other = block ∨ other ∈ lh := by
  rw [absorb_eq]
  split <;> rename_i listed
  · exact ⟨.inr, fun either => either.elim (fun same => same ▸ listed) id⟩
  · simp [or_comm]

theorem absorb_length_le (block : Nat) (lh : List Nat) :
    (absorb block lh).length ≤ lh.length + 1 := by
  rw [absorb_eq]
  split <;> simp

/-! ## The header format -/

theorem storeBlocks_load_below {head : Block} {index offset width : Nat} {blocks : List Nat}
    (below : offset + width ≤ 4 + 4 * index) :
    (storeBlocks head index blocks).load offset width = head.load offset width := by
  induction blocks generalizing head index with
  | nil => rfl
  | cons block rest ih =>
    rw [storeBlocks, ih (by omega), Bytes.load_store_disjoint (by omega)]

theorem storeBlocks_headBlock (head : Block) (index position : Nat) {blocks : List Nat}
    (small : ∀ block ∈ blocks, block < 2 ^ 32) (inside : position < blocks.length) :
    headBlock (storeBlocks head index blocks) (index + position) = blocks[position] := by
  induction blocks generalizing head index position with
  | nil => simp at inside
  | cons block rest ih =>
    have restSmall : ∀ block ∈ rest, block < 2 ^ 32 :=
      fun block member => small block (List.mem_cons_of_mem _ member)
    rw [storeBlocks]
    cases position with
    | zero =>
      have fits : block < 256 ^ 4 := small block List.mem_cons_self
      simp only [headBlock, Nat.add_zero, List.getElem_cons_zero]
      rw [storeBlocks_load_below (by omega), Bytes.load_store_fits fits]
    | succ position =>
      have tail := ih (head.store (4 + 4 * index) 4 block) (index + 1) position restSmall
        (Nat.lt_of_succ_lt_succ inside)
      rw [show index + (position + 1) = index + 1 + position by omega]
      exact tail

theorem headCount_encodeHead {head : Block} {lh : List Nat} (short : lh.length < 2 ^ 31) :
    headCount (encodeHead head lh) = lh.length := by
  have count : (encodeHead head lh).load 0 4 = lh.length := by
    rw [encodeHead, storeBlocks_load_below (by omega), Bytes.load_store_fits (by omega)]
  rw [headCount, Bytes.loadInt_of_load_lt (by omega), count, Int.toNat_natCast]

theorem headBlocks_encodeHead {head : Block} {lh : List Nat} (short : lh.length < 2 ^ 31)
    (small : ∀ block ∈ lh, block < 2 ^ 32) : headBlocks (encodeHead head lh) = lh := by
  apply List.ext_getElem
  · simp [headBlocks, headCount_encodeHead short]
  · intro position inside _
    simp only [headBlocks, List.getElem_map, List.getElem_range]
    have entry := storeBlocks_headBlock (head.store 0 4 lh.length) 0 position small
      (by simpa [headBlocks, headCount_encodeHead short] using inside)
    rwa [Nat.zero_add] at entry

@[simp] theorem headBlocks_encodeHead_nil (head : Block) : headBlocks (encodeHead head []) = [] :=
  headBlocks_encodeHead (by simp) (by simp)

end Xv6.Log
