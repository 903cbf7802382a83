import Mathlib.Data.Fintype.Basic
import Xv6.Data.Chain
import Xv6.Param
import Xv6.Transition.Run

namespace Xv6.Kalloc

open Xv6.Data Xv6.Transition

/-! # freemem against kalloc and kfree

`kalloc.c` with any number of CPUs.  A step is a section under `kmem.lock`, the junk
fill of one page, or one iteration of `freemem`, which takes no lock.  Of a page
only its first word matters here, where `struct run` keeps the link.
-/

/-- The first word of a page filled by `kalloc`, and of one filled by `kfree`. -/
def allocJunk : Nat := 0x0505050505050505

def freeJunk : Nat := 0x0101010101010101

inductive Place where
  | idle
  /-- `kalloc`, before its `memset`. -/
  | allocFill (page : Nat)
  /-- `kfree`, before its `memset` and before the section under the lock. -/
  | freeFill (page : Nat)
  | freeLink (page : Nat)
  /-- The loop of `freemem`, with `r` and `addr`, and its end. -/
  | walk (cursor addr : Nat)
  | walked (addr : Nat)
deriving DecidableEq, Repr

/-- `free`, `owned`, `low` and `high` are ghosts: the pages on the free list, those that
somebody got from `kalloc`, and the fewest and most free pages since a CPU last
entered `freemem`. -/
structure State (count : Nat) where
  freelist : Nat
  next : Nat → Nat
  cpu : Fin count → Place
  panic : Bool
  free : List Nat
  owned : List Nat
  low : Fin count → Nat
  high : Fin count → Nat

inductive Event (count : Nat) where
  | kalloc (cpu : Fin count)
  | kfree (cpu : Fin count) (page : Nat)
  | freemem (cpu : Fin count)
  | step (cpu : Fin count)
  /-- The owner of a page stores into its first word. -/
  | write (page value : Nat)

section

variable {count : Nat}

def State.goto (state : State count) (cpu : Fin count) (place : Place) : State count :=
  { state with cpu := Function.update state.cpu cpu place }

def State.store (state : State count) (page value : Nat) : State count :=
  { state with next := Function.update state.next page value }

/-- The free list changes, and with it what every running `freemem` has seen. -/
def State.relist (state : State count) (freelist : Nat) (free : List Nat) : State count :=
  { state with
    freelist, free
    low := fun cpu => min (state.low cpu) free.length
    high := fun cpu => max (state.high cpu) free.length }

/-- `kalloc` up to the release of `kmem.lock`. -/
def kallocPop (state : State count) (cpu : Fin count) : State count :=
  if state.freelist = 0 then
    state
  else
    (state.relist (state.next state.freelist) state.free.tail).goto cpu (.allocFill state.freelist)

/-- The check of `kfree`; `kernelEnd` is the address of `end`. -/
def badPage (kernelEnd page : Nat) : Prop :=
  page % PGSIZE ≠ 0 ∨ page < kernelEnd ∨ page ≥ PHYSTOP

instance (kernelEnd page : Nat) : Decidable (badPage kernelEnd page) :=
  inferInstanceAs (Decidable (_ ∨ _))

/-- The kernel maps RAM; any other load traps into `panic("kerneltrap")`. -/
def mapped (address : Nat) : Prop := KERNBASE ≤ address ∧ address < PHYSTOP

instance (address : Nat) : Decidable (mapped address) := inferInstanceAs (Decidable (_ ∧ _))

def stepCpu (state : State count) (cpu : Fin count) : Option (State count) :=
  match state.cpu cpu with
  | .idle => none
  | .allocFill page =>
    some { (state.store page allocJunk).goto cpu .idle with owned := page :: state.owned }
  | .freeFill page => some ((state.store page freeJunk).goto cpu (.freeLink page))
  | .freeLink page =>
    some (((state.store page state.freelist).relist page (page :: state.free)).goto cpu .idle)
  | .walk cursor addr =>
    if cursor = 0 then
      some (state.goto cpu (.walked addr))
    else if mapped cursor then
      some (state.goto cpu (.walk (state.next cursor) (addr + PGSIZE)))
    else
      some { state with panic := true }
  | .walked _ => some (state.goto cpu .idle)

def step (kernelEnd : Nat) (state : State count) (event : Event count) : Option (State count) :=
  if state.panic then
    none
  else
    match event with
    | .kalloc cpu => if state.cpu cpu = .idle then some (kallocPop state cpu) else none
    | .kfree cpu page =>
      if state.cpu cpu = .idle ∧ page ∈ state.owned then
        if badPage kernelEnd page then
          some { state with panic := true }
        else
          some { state.goto cpu (.freeFill page) with owned := state.owned.erase page }
      else
        none
    | .freemem cpu =>
      if state.cpu cpu = .idle then
        some { state.goto cpu (.walk state.freelist 0) with
          low := Function.update state.low cpu state.free.length
          high := Function.update state.high cpu state.free.length }
      else
        none
    | .step cpu => stepCpu state cpu
    | .write page value => if page ∈ state.owned then some (state.store page value) else none

/-- After boot: `kinit` has linked the free pages, some pages are in use, and no CPU is
in the allocator. -/
structure Booted (kernelEnd : Nat) (state : State count) : Prop where
  layout : KERNBASE ≤ kernelEnd
  chain : Chain 0 state.next state.freelist state.free
  distinct : (state.free ++ state.owned).Nodup
  pages : ∀ page ∈ state.free ++ state.owned, ¬ badPage kernelEnd page
  idle : ∀ cpu, state.cpu cpu = .idle
  calm : state.panic = false

def machine (count kernelEnd : Nat) : Machine (State count) (Event count) where
  initial := Booted kernelEnd
  step := step kernelEnd

end

end Xv6.Kalloc
