import Xv6.Vm.Phys

namespace Xv6.Vm

open Xv6.Data

/-! # Page tables

`vm.c`, and the page-table part of `proc.c`.
-/

def PTE_V : Word := 1
def PTE_R : Word := 2
def PTE_W : Word := 4
def PTE_X : Word := 8
def PTE_U : Word := 16

/-- One beyond the highest virtual address. -/
def MAXVA : Word := 1 <<< 38

/-- `PGSIZE` in address arithmetic. -/
def pageBytes : Word := BitVec.ofNat 64 PGSIZE

def TRAMPOLINE : Word := MAXVA - pageBytes

def TRAPFRAME : Word := TRAMPOLINE - pageBytes

def PGROUNDUP (sz : Word) : Word := (sz + pageBytes - 1) &&& ~~~(pageBytes - 1)

def PGROUNDDOWN (a : Word) : Word := a &&& ~~~(pageBytes - 1)

def PA2PTE (pa : Word) : Word := (pa >>> 12) <<< 10

def PTE2PA (pte : Word) : Word := (pte >>> 10) <<< 12

def PTE_FLAGS (pte : Word) : Word := pte &&& 0x3FF

/-- The three 9-bit indices of a virtual address. -/
def PX (level : Nat) (va : Word) : Fin 512 :=
  ⟨((va >>> (12 + 9 * level)) &&& 0x1FF).toNat,
    by rw [BitVec.toNat_and]; exact Nat.lt_of_le_of_lt Nat.and_le_right (by decide)⟩

def valid (pte : Word) : Bool := pte &&& PTE_V ≠ 0

/-- The entry `pagetable[i]`. -/
def pteAt (mem : Memory) (pagetable : Word) (i : Fin 512) : Word := word (mem pagetable) i

def Phys.setPte (phys : Phys) (pagetable : Word) (i : Fin 512) (pte : Word) : Phys :=
  phys.put pagetable (setWord (phys.mem pagetable) i pte)

/-! ## walk -/

/-- One level of `walk`: the page table below, or none. -/
def walkLevel (alloc : Bool) (va : Word) (level : Nat) (pagetable : Word) (phys : Phys) :
    Option Word × Phys :=
  let pte := pteAt phys.mem pagetable (PX level va)
  if valid pte then
    (some (PTE2PA pte), phys)
  else if alloc then
    let (page, phys) := kalloc phys
    if page = 0 then
      (none, phys)
    else
      (some page, (phys.memset page 0).setPte pagetable (PX level va) (PA2PTE page ||| PTE_V))
  else
    (none, phys)

def walkLevels (alloc : Bool) (va : Word) : List Nat → Word → Phys → Option Word × Phys
  | [], pagetable, phys => (some pagetable, phys)
  | level :: levels, pagetable, phys =>
    match walkLevel alloc va level pagetable phys with
    | (none, phys) => (none, phys)
    | (some below, phys) => walkLevels alloc va levels below phys

/-- Where the entry of an address is: a page table of the last level and an index. -/
def walk (pagetable va : Word) (alloc : Bool) (phys : Phys) :
    Except Panic (Option (Word × Fin 512) × Phys) :=
  if va ≥ MAXVA then
    .error .walk
  else
    let (last, phys) := walkLevels alloc va [2, 1] pagetable phys
    .ok (last.map fun table => (table, PX 0 va), phys)

/-- Zero for a page that is not mapped for the user. -/
def walkaddr (mem : Memory) (pagetable va : Word) : Except Panic Word :=
  if va ≥ MAXVA then
    .ok 0
  else do
    -- Without `alloc` the allocator is not called.
    let (slot, _) ← walk pagetable va false ⟨mem, 0⟩
    match slot with
    | none => .ok 0
    | some (table, i) =>
      let pte := pteAt mem table i
      if pte &&& PTE_V = 0 then
        .ok 0
      else if pte &&& PTE_U = 0 then
        .ok 0
      else
        .ok (PTE2PA pte)

/-! ## mappages and uvmunmap -/

/-- One page of `mappages`. -/
def mapPage (pagetable a pa : Word) (perm : BitVec 32) (phys : Phys) : Except Panic (Int × Phys) := do
  let (slot, phys) ← walk pagetable a true phys
  match slot with
  | none => .ok (-1, phys)
  | some (table, i) =>
    if valid (pteAt phys.mem table i) then
      .error .remap
    else
      .ok (0, phys.setPte table i (PA2PTE pa ||| perm.signExtend 64 ||| PTE_V))

/-- The loop of `mappages` with this many pages after `a`. -/
def mapLoop (pagetable : Word) (perm : BitVec 32) : Nat → Word → Word → Phys →
    Except Panic (Int × Phys)
  | 0, a, pa, phys => mapPage pagetable a pa perm phys
  | more + 1, a, pa, phys => do
    let (result, phys) ← mapPage pagetable a pa perm phys
    if result ≠ 0 then
      .ok (-1, phys)
    else
      mapLoop pagetable perm more (a + pageBytes) (pa + pageBytes) phys

def mappages (pagetable va size pa : Word) (perm : BitVec 32) (phys : Phys) :
    Except Panic (Int × Phys) :=
  if size = 0 then
    .error .mappagesSize
  else
    let a := PGROUNDDOWN va
    let last := PGROUNDDOWN (va + size - 1)
    -- `a` meets `last` after this many steps of a page.
    mapLoop pagetable perm ((last - a).toNat / PGSIZE) a pa phys

/-- The rounds of `for(; a < stop; a += PGSIZE)` while `a` does not pass the largest
address.  It never does here: each body calls `walk`, which panics from `MAXVA` on. -/
def rounds (a stop : Word) : Nat := (stop.toNat - a.toNat + (PGSIZE - 1)) / PGSIZE

/-- One page of `uvmunmap`. -/
def unmapPage (layout : Layout) (pagetable : Word) (doFree : Bool) (a : Word) (phys : Phys) :
    Except Panic Phys := do
  let (slot, phys) ← walk pagetable a false phys
  match slot with
  | none => .error .unmapWalk
  | some (table, i) =>
    let pte := pteAt phys.mem table i
    if pte &&& PTE_V = 0 then
      .error .notMapped
    else if PTE_FLAGS pte = PTE_V then
      .error .notLeaf
    else if doFree then do
      let phys ← kfree layout (PTE2PA pte) phys
      .ok (phys.setPte table i 0)
    else
      .ok (phys.setPte table i 0)

def unmapLoop (layout : Layout) (pagetable : Word) (doFree : Bool) : Nat → Word → Phys →
    Except Panic Phys
  | 0, _, phys => .ok phys
  | rounds + 1, a, phys => do
    let phys ← unmapPage layout pagetable doFree a phys
    unmapLoop layout pagetable doFree rounds (a + pageBytes) phys

def uvmunmap (layout : Layout) (pagetable va npages : Word) (doFree : Bool) (phys : Phys) :
    Except Panic Phys :=
  if va.toNat % PGSIZE ≠ 0 then
    .error .notAligned
  else
    unmapLoop layout pagetable doFree (rounds va (va + npages * pageBytes)) va phys

/-! ## User memory -/

/-- The page table is zero when there is no memory. -/
def uvmcreate (phys : Phys) : Word × Phys :=
  let (pagetable, phys) := kalloc phys
  if pagetable = 0 then (0, phys) else (pagetable, phys.memset pagetable 0)

def uvmdealloc (layout : Layout) (pagetable oldsz newsz : Word) (phys : Phys) :
    Except Panic (Word × Phys) :=
  if newsz ≥ oldsz then
    .ok (oldsz, phys)
  else if PGROUNDUP newsz < PGROUNDUP oldsz then do
    let npages : BitVec 32 := ((PGROUNDUP oldsz - PGROUNDUP newsz) / pageBytes).setWidth 32
    let phys ← uvmunmap layout pagetable (PGROUNDUP newsz) (npages.signExtend 64) true phys
    .ok (newsz, phys)
  else
    .ok (newsz, phys)

/-- The loop of `uvmalloc`. -/
def allocLoop (layout : Layout) (pagetable oldsz newsz : Word) : Nat → Word → Phys →
    Except Panic (Word × Phys)
  | 0, _, phys => .ok (newsz, phys)
  | rounds + 1, a, phys =>
    let (mem, phys) := kalloc phys
    if mem = 0 then do
      let (_, phys) ← uvmdealloc layout pagetable a oldsz phys
      .ok (0, phys)
    else do
      let perm := (PTE_W ||| PTE_X ||| PTE_R ||| PTE_U).setWidth 32
      let (result, phys) ← mappages pagetable a pageBytes mem perm (phys.memset mem 0)
      if result ≠ 0 then do
        let phys ← kfree layout mem phys
        let (_, phys) ← uvmdealloc layout pagetable a oldsz phys
        .ok (0, phys)
      else
        allocLoop layout pagetable oldsz newsz rounds (a + pageBytes) phys

def uvmalloc (layout : Layout) (pagetable oldsz newsz : Word) (phys : Phys) :
    Except Panic (Word × Phys) :=
  if newsz < oldsz then
    .ok (oldsz, phys)
  else
    let oldsz := PGROUNDUP oldsz
    allocLoop layout pagetable oldsz newsz (rounds oldsz newsz) oldsz phys

/-- The body of the loop of `freewalk` over the entries of a page table. -/
def freeEntry (free : Word → Phys → Except Panic Phys) (pagetable : Word) (phys : Phys)
    (i : Fin 512) : Except Panic Phys :=
  let pte := pteAt phys.mem pagetable i
  if valid pte ∧ pte &&& (PTE_R ||| PTE_W ||| PTE_X) = 0 then do
    let phys ← free (PTE2PA pte) phys
    .ok (phys.setPte pagetable i 0)
  else if valid pte then
    .error .freewalkLeaf
  else
    .ok phys

/-- `freewalk` on a page table with at most this many levels. -/
def freewalk (layout : Layout) : Nat → Word → Phys → Except Panic Phys
  | 0, _, _ => .error .tooDeep
  | levels + 1, pagetable, phys => do
    let phys ← (List.finRange 512).foldlM (freeEntry (freewalk layout levels) pagetable) phys
    kfree layout pagetable phys

def uvmfree (layout : Layout) (pagetable sz : Word) (phys : Phys) : Except Panic Phys := do
  let phys ← if sz > 0 then
      uvmunmap layout pagetable 0 (PGROUNDUP sz / pageBytes) true phys
    else
      .ok phys
  freewalk layout 3 pagetable phys

def uvmclear (pagetable va : Word) (phys : Phys) : Except Panic Phys := do
  let (slot, phys) ← walk pagetable va false phys
  match slot with
  | none => .error .uvmclear
  | some (table, i) => .ok (phys.setPte table i (pteAt phys.mem table i &&& ~~~PTE_U))

/-- `proc_pagetable`, with the trapframe of the process; zero when there is no memory. -/
def procPagetable (layout : Layout) (trapframe : Word) (phys : Phys) : Except Panic (Word × Phys) :=
  let (pagetable, phys) := uvmcreate phys
  if pagetable = 0 then
    .ok (0, phys)
  else do
    let (result, phys) ← mappages pagetable TRAMPOLINE pageBytes layout.trampoline
      ((PTE_R ||| PTE_X).setWidth 32) phys
    if result < 0 then do
      let phys ← uvmfree layout pagetable 0 phys
      .ok (0, phys)
    else do
      let (result, phys) ← mappages pagetable TRAPFRAME pageBytes trapframe
        ((PTE_R ||| PTE_W).setWidth 32) phys
      if result < 0 then do
        let phys ← uvmunmap layout pagetable TRAMPOLINE 1 false phys
        let phys ← uvmfree layout pagetable 0 phys
        .ok (0, phys)
      else
        .ok (pagetable, phys)

def procFreepagetable (layout : Layout) (pagetable sz : Word) (phys : Phys) : Except Panic Phys := do
  let phys ← uvmunmap layout pagetable TRAMPOLINE 1 false phys
  let phys ← uvmunmap layout pagetable TRAPFRAME 1 false phys
  uvmfree layout pagetable sz phys

end Xv6.Vm
