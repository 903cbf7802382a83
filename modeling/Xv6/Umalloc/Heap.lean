import Xv6.Data.Bytes
import Xv6.Data.Path

namespace Xv6.Umalloc

open Xv6.Data

/-! # The allocator of user programs

`umalloc.c` over the bytes of a process.  A pointer is an address, the null pointer is 0;
`sbrk` is a parameter that takes its `int`, and `none` where it does not return.  A loop
that gets to the end of its fuel gives `none`.
-/

/-- `sizeof(Header)`; the pointer is in the first eight bytes, the size in the next four. -/
def HEADER : Nat := 16

section Header

variable (mem : Bytes) (p value : Nat)

/-- `p->s.ptr` -/
def ptr : Nat := mem.load p 8

/-- `p->s.size`, in units of `Header` -/
def size : Nat := mem.load (p + 8) 4

def setPtr : Bytes := mem.store p 8 value

def setSize : Bytes := mem.store (p + 8) 4 value

end Header

/-- The memory, and `freep`. -/
structure Heap where
  mem : Bytes
  freep : Nat

/-- Both ways out of the loop of `free`. -/
def stops (mem : Bytes) (bp p : Nat) : Bool :=
  (bp > p && bp < ptr mem p) || (p ≥ ptr mem p && (bp > p || bp < ptr mem p))

/-- Link the block to what follows `p`, or join it with that. -/
def joinNext (mem : Bytes) (bp p : Nat) : Bytes :=
  if bp + HEADER * size mem bp = ptr mem p then
    let mem := setSize mem bp (size mem bp + size mem (ptr mem p))
    setPtr mem bp (ptr mem (ptr mem p))
  else
    setPtr mem bp (ptr mem p)

/-- Link `p` to the block, or join them. -/
def joinPrevious (mem : Bytes) (bp p : Nat) : Bytes :=
  if p + HEADER * size mem p = bp then
    let mem := setSize mem p (size mem p + size mem bp)
    setPtr mem p (ptr mem bp)
  else
    setPtr mem p bp

def free (heap : Heap) (fuel ap : Nat) : Option Heap := do
  let bp := ap - HEADER
  let p ← search (ptr heap.mem) (stops heap.mem bp) fuel heap.freep
  let mem := joinNext heap.mem bp p
  let mem := joinPrevious mem bp p
  some ⟨mem, p⟩

section

variable {World : Type} (sbrk : World → BitVec 32 → Option (Nat × World))

/-- `(char*)-1` -/
def failed : Nat := 2 ^ 64 - 1

def morecore (heap : Heap) (world : World) (fuel nu : Nat) : Option (Nat × Heap × World) := do
  let nu := if nu < 4096 then 4096 else nu
  let (p, world) ← sbrk world (BitVec.ofNat 32 (nu * HEADER))
  if p = failed then
    some (0, heap, world)
  else
    let mem := setSize heap.mem p nu
    let heap ← free { heap with mem } fuel (p + HEADER)
    some (heap.freep, heap, world)

/-- Take `nunits` from the block at `p`, all of it or its tail. -/
def take (mem : Bytes) (nunits prevp p : Nat) : Nat × Heap :=
  if size mem p = nunits then
    (p + HEADER, ⟨setPtr mem prevp (ptr mem p), prevp⟩)
  else
    let mem := setSize mem p (size mem p - nunits)
    let p := p + HEADER * size mem p
    let mem := setSize mem p nunits
    (p + HEADER, ⟨mem, prevp⟩)

/-- The loop of `malloc`. -/
def mallocLoop (nunits : Nat) : Nat → Heap → World → Nat → Nat → Option (Nat × Heap × World)
  | 0, _, _, _, _ => none
  | fuel + 1, heap, world, prevp, p =>
    if size heap.mem p ≥ nunits then
      let (ap, heap) := take heap.mem nunits prevp p
      some (ap, heap, world)
    else if p = heap.freep then do
      let (p, heap, world) ← morecore sbrk heap world fuel nunits
      if p = 0 then
        some (0, heap, world)
      else
        mallocLoop nunits fuel heap world p (ptr heap.mem p)
    else
      mallocLoop nunits fuel heap world p (ptr heap.mem p)

/-- `(nbytes + sizeof(Header) - 1)/sizeof(Header) + 1` as a `uint` -/
def unitsFor (nbytes : Nat) : Nat := ((nbytes + HEADER - 1) / HEADER + 1) % 2 ^ 32

/-- The first call makes `base` a list of its own. -/
def Heap.start (heap : Heap) (base : Nat) : Heap :=
  if heap.freep = 0 then ⟨setSize (setPtr heap.mem base base) base 0, base⟩ else heap

def malloc (base : Nat) (heap : Heap) (world : World) (fuel nbytes : Nat) :
    Option (Nat × Heap × World) :=
  let heap := heap.start base
  mallocLoop sbrk (unitsFor nbytes) fuel heap world heap.freep (ptr heap.mem heap.freep)

end

/-! ## Headers -/

variable {mem : Bytes} {p q value : Nat}

/-- Two headers that are not the same do not share a byte. -/
def Clear (p q : Nat) : Prop := p + HEADER ≤ q ∨ q + HEADER ≤ p

theorem ptr_lt (mem : Bytes) (p : Nat) : ptr mem p < 2 ^ 64 := mem.load_lt p 8

theorem ptr_setPtr (fits : value < 2 ^ 64) : ptr (setPtr mem p value) p = value :=
  Bytes.load_store_fits fits

theorem ptr_setPtr_clear (clear : Clear q p) : ptr (setPtr mem p value) q = ptr mem q :=
  Bytes.load_store_disjoint (by rw [Clear, HEADER] at clear; omega)

theorem ptr_setSize (clear : q = p ∨ Clear q p) : ptr (setSize mem p value) q = ptr mem q :=
  Bytes.load_store_disjoint (by rw [Clear, HEADER] at clear; omega)

theorem size_setSize (fits : value < 2 ^ 32) : size (setSize mem p value) p = value :=
  Bytes.load_store_fits fits

theorem size_setSize_clear (clear : Clear q p) : size (setSize mem p value) q = size mem q :=
  Bytes.load_store_disjoint (by rw [Clear, HEADER] at clear; omega)

theorem size_setPtr (clear : q = p ∨ Clear q p) : size (setPtr mem p value) q = size mem q :=
  Bytes.load_store_disjoint (by rw [Clear, HEADER] at clear; omega)

/-- Nothing outside these headers has changed. -/
def Within (headers : List Nat) (before after : Bytes) : Prop :=
  ∀ index, (∀ p ∈ headers, index < p ∨ p + HEADER ≤ index) → after index = before index

theorem within_setPtr (mem : Bytes) (p value : Nat) : Within [p] mem (setPtr mem p value) :=
  fun index outside => Bytes.store_outside (by
    have away := outside p List.mem_cons_self
    rw [HEADER] at away
    omega)

theorem within_setSize (mem : Bytes) (p value : Nat) : Within [p] mem (setSize mem p value) :=
  fun index outside => Bytes.store_outside (by
    have away := outside p List.mem_cons_self
    rw [HEADER] at away
    omega)

theorem Within.trans {headers : List Nat} {first second third : Bytes} (left : Within headers first second)
    (right : Within headers second third) : Within headers first third :=
  fun index outside => (right index outside).trans (left index outside)

theorem Within.mono {headers more : List Nat} {before after : Bytes} (within : Within headers before after)
    (included : headers ⊆ more) : Within more before after :=
  fun index outside => within index fun p member => outside p (included member)

theorem Within.ptr_eq {headers : List Nat} {before after : Bytes} (within : Within headers before after)
    (clear : ∀ p ∈ headers, Clear q p) : ptr after q = ptr before q :=
  Bytes.load_congr fun index lower upper => within index fun p member => by
    have apart := clear p member
    rw [Clear, HEADER] at apart
    rw [HEADER]
    omega

theorem Within.size_eq {headers : List Nat} {before after : Bytes} (within : Within headers before after)
    (clear : ∀ p ∈ headers, Clear q p) : size after q = size before q :=
  Bytes.load_congr fun index lower upper => within index fun p member => by
    have apart := clear p member
    rw [Clear, HEADER] at apart
    rw [HEADER]
    omega

end Xv6.Umalloc
