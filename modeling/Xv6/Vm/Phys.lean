import Xv6.Data.Bytes
import Xv6.Data.Chain
import Xv6.Param

namespace Xv6.Vm

open Xv6.Data

/-! # Physical memory and its allocator

`kalloc.c` on the pages themselves, for one caller at a time: the free list runs
through the first words of the free pages.
-/

/-- `uint64`. -/
abbrev Word := BitVec 64

/-- What the page at an address holds. -/
abbrev Memory := Word → Bytes

/-- The kernel's panics in `kalloc.c`, `vm.c` and `exec.c`.  The last one stands for a
recursion of `freewalk` below the third level. -/
inductive Panic where
  | kfree
  | walk
  | mappagesSize
  | remap
  | notAligned
  | unmapWalk
  | notMapped
  | notLeaf
  | freewalkLeaf
  | uvmclear
  | loadseg
  | tooDeep
deriving DecidableEq, Repr

/-- The addresses that the linker fixes. -/
structure Layout where
  kernelEnd : Word
  trampoline : Word
  inRam : KERNBASE ≤ kernelEnd.toNat
  aligned : trampoline.toNat % PGSIZE = 0
  inText : trampoline.toNat < kernelEnd.toNat

structure Phys where
  mem : Memory
  freelist : Word

/-- The word at an index of a page. -/
def word (bytes : Bytes) (index : Nat) : Word := BitVec.ofNat 64 (bytes.load (8 * index) 8)

def setWord (bytes : Bytes) (index : Nat) (value : Word) : Bytes :=
  bytes.store (8 * index) 8 value.toNat

def Phys.put (phys : Phys) (page : Word) (bytes : Bytes) : Phys :=
  { phys with mem := overwrite phys.mem page bytes }

/-- `memset(page, c, PGSIZE)`. -/
def Phys.memset (phys : Phys) (page : Word) (c : UInt8) : Phys := phys.put page fun _ => c

/-- A page that `kfree` takes. -/
def IsFrame (layout : Layout) (page : Word) : Prop :=
  page.toNat % PGSIZE = 0 ∧ layout.kernelEnd ≤ page ∧ page.toNat < PHYSTOP

instance (layout : Layout) (page : Word) : Decidable (IsFrame layout page) :=
  inferInstanceAs (Decidable (_ ∧ _ ∧ _))

def kfree (layout : Layout) (pa : Word) (phys : Phys) : Except Panic Phys :=
  if IsFrame layout pa then
    .ok { phys.put pa (setWord (fun _ => 1) 0 phys.freelist) with freelist := pa }
  else
    .error .kfree

/-- `freerange` frees the pages of a range in order. -/
def freerange (layout : Layout) : List Word → Phys → Except Panic Phys
  | [], phys => .ok phys
  | page :: pages, phys => do
    let phys ← kfree layout page phys
    freerange layout pages phys

/-- The page is zero when there is none. -/
def kalloc (phys : Phys) : Word × Phys :=
  if phys.freelist = 0 then
    (0, phys)
  else
    (phys.freelist,
      { phys.memset phys.freelist 5 with freelist := word (phys.mem phys.freelist) 0 })

/-! ## Words of a page -/

theorem word_setWord_self (bytes : Bytes) (index : Nat) (value : Word) :
    word (setWord bytes index value) index = value := by
  rw [word, setWord, Bytes.load_store_fits (show value.toNat < 256 ^ 8 from value.isLt)]
  simp

theorem word_setWord_of_ne {index other : Nat} (different : other ≠ index) (bytes : Bytes)
    (value : Word) : word (setWord bytes index value) other = word bytes other := by
  rw [word, setWord, Bytes.load_store_disjoint (by omega), word]

theorem word_zero (index : Nat) : word (fun _ => 0) index = 0 := by
  have zero : ∀ offset width, Bytes.load (fun _ => 0) offset width = 0 := by
    intro offset width
    induction width generalizing offset with
    | zero => rfl
    | succ width ih => rw [Bytes.load, ih]; rfl
  rw [word, zero]
  rfl

theorem put_self (phys : Phys) (page : Word) (bytes : Bytes) :
    (phys.put page bytes).mem page = bytes := overwrite_self ..

variable {page : Word}

theorem put_of_ne {other : Word} (different : other ≠ page) (phys : Phys) (bytes : Bytes) :
    (phys.put page bytes).mem other = phys.mem other := overwrite_of_ne different

/-! ## The free list -/

/-- The free list holds these pages, in order. -/
def FreeList (phys : Phys) (free : List Word) : Prop :=
  Chain 0 (fun page => word (phys.mem page) 0) phys.freelist free

variable {phys : Phys} {free : List Word}

theorem FreeList.congr {after : Phys} (list : FreeList phys free)
    (head : after.freelist = phys.freelist) (same : ∀ page ∈ free, after.mem page = phys.mem page) :
    FreeList after free := by
  unfold FreeList
  rw [head]
  exact Chain.congr list fun page member => by rw [same page member]

theorem FreeList.put (list : FreeList phys free) (used : page ∉ free) (bytes : Bytes) :
    FreeList (phys.put page bytes) free :=
  list.congr rfl fun _ member => put_of_ne (ne_of_mem_of_not_mem member used) phys bytes

theorem kalloc_nil (list : FreeList phys []) : kalloc phys = (0, phys) :=
  if_pos list

theorem kalloc_cons {rest : List Word} (list : FreeList phys (page :: rest)) (apart : page ∉ rest) :
    ∃ after, kalloc phys = (page, after) ∧ page ≠ 0 ∧ FreeList after rest ∧
      ∀ other, other ≠ page → after.mem other = phys.mem other := by
  obtain ⟨head, real, remaining⟩ := list
  have found : phys.freelist ≠ 0 := head ▸ real
  refine ⟨{ phys.memset page 5 with freelist := word (phys.mem page) 0 }, ?_, real, ?_, ?_⟩
  · rw [kalloc, if_neg found, head]
  · exact remaining.congr fun other member => by
      show word ((phys.put page _).mem other) 0 = _
      rw [put_of_ne (ne_of_mem_of_not_mem member apart)]
  · exact fun other different => put_of_ne different phys _

theorem kfree_spec {layout : Layout} (frame : IsFrame layout page) (list : FreeList phys free)
    (used : page ∉ free) (real : page ≠ 0) :
    ∃ after, kfree layout page phys = .ok after ∧ FreeList after (page :: free) ∧
      ∀ other, other ≠ page → after.mem other = phys.mem other := by
  refine ⟨_, if_pos frame, ⟨rfl, real, ?_⟩, fun other different => put_of_ne different phys _⟩
  show Chain 0 _ (word ((phys.put page _).mem page) 0) free
  rw [put_self, word_setWord_self]
  exact Chain.congr list fun other member => by
    show word ((phys.put page _).mem other) 0 = _
    rw [put_of_ne (ne_of_mem_of_not_mem member used)]

theorem IsFrame.ne_zero {layout : Layout} (frame : IsFrame layout page) : page ≠ 0 := by
  rintro rfl
  have above : layout.kernelEnd.toNat ≤ 0 := BitVec.le_def.mp frame.2.1
  have low := layout.inRam
  simp only [KERNBASE] at low
  omega

end Xv6.Vm
