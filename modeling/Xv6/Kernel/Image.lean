import Xv6.Kernel.Proc
import Xv6.Vm.Process

namespace Xv6.Kernel

open Xv6.Data Xv6.Vm

attribute [local irreducible] tables upperTables lastTable entry

/-! # The memory of a process -/

/-- The entries of the user pages. -/
def userPtes (mem : Memory) (proc : Proc) : List Word :=
  (List.range (pagesFor proc.sz.toNat)).map (entry mem proc.pagetable)

/-- The page table has the pages of `[0, PGROUNDUP(sz))`, the trapframe and the trampoline. -/
def Image (layout : Layout) (mem : Memory) (proc : Proc) : Prop :=
  Space layout mem proc.pagetable proc.trapframe (userPtes mem proc)

/-- The user pages and page tables of a process. -/
def userPages (mem : Memory) (proc : Proc) : List Word :=
  framesOf (userPtes mem proc) ++ tables mem proc.pagetable

/-- What a page is mapped to: a frame and the permission bits. -/
def mapping (mem : Memory) (root : Word) (page : Nat) : Option (Word × Word) :=
  if valid (entry mem root page) then
    some (PTE2PA (entry mem root page), PTE_FLAGS (entry mem root page))
  else
    none

/-- The byte at a virtual address, with whatever permissions. -/
def byteAt (mem : Memory) (root va : Word) : Option UInt8 :=
  (mapping mem root (pageOf va)).map fun target => mem target.1 (va.toNat % PGSIZE)

section

variable {layout : Layout} {mem after : Memory} {root trapframe : Word} {ptes : List Word} {proc : Proc}

theorem userPtes_length : (userPtes mem proc).length = pagesFor proc.sz.toNat := by
  rw [userPtes, List.length_map, List.length_range]

theorem ptes_eq (space : Space layout mem root trapframe ptes) :
    ptes = (List.range ptes.length).map (entry mem root) := by
  apply List.ext_getElem
  · rw [List.length_map, List.length_range]
  · intro index inside _
    rw [List.getElem_map, List.getElem_range]
    exact (space.user index ptes[index] (List.getElem?_eq_getElem inside)).symm

theorem userPtes_eq (space : Space layout mem proc.pagetable trapframe ptes)
    (size : ptes.length = pagesFor proc.sz.toNat) : userPtes mem proc = ptes := by
  rw [userPtes, ← size, ← ptes_eq space]

theorem Image.of_space (space : Space layout mem proc.pagetable proc.trapframe ptes)
    (size : ptes.length = pagesFor proc.sz.toNat) : Image layout mem proc := by
  rw [Image, userPtes_eq space size]
  exact space

/-- A process does not notice what others do with their pages and with the free ones. -/
theorem Image.undisturbed {phys after : Phys} {pages pages' free free' : List Word}
    (image : Image layout phys.mem proc)
    (owned : Owned layout phys (userPages phys.mem proc ++ pages) free)
    (change : Change phys pages free after pages' free') :
    Image layout after.mem proc ∧ userPtes after.mem proc = userPtes phys.mem proc ∧
      userPages after.mem proc = userPages phys.mem proc ∧
      ∀ frame ∈ userPages phys.mem proc, after.mem frame = phys.mem frame := by
  obtain ⟨space, sameTables, kept⟩ := Space.undisturbed image owned change
  have entries := userPtes_eq space userPtes_length
  refine ⟨.of_space space userPtes_length, entries, ?_, kept⟩
  rw [userPages, entries, sameTables, userPages]

theorem mapping_of_entry {page : Nat} (same : entry after root page = entry mem root page) :
    mapping after root page = mapping mem root page := by
  rw [mapping, same, mapping]

theorem mapping_user (space : Space layout mem root trapframe ptes) {page : Nat} {pte : Word}
    (found : ptes[page]? = some pte) :
    mapping mem root page = some (PTE2PA pte, PTE_FLAGS pte) := by
  rw [mapping, space.user page pte found, if_pos (space.leaves pte (List.mem_of_getElem? found)).1]

theorem mapping_other (space : Space layout mem root trapframe ptes) {page : Nat}
    (above : ptes.length ≤ page) (inside : page < PAGES) (notTrapframe : page ≠ trapframePage)
    (notTrampoline : page ≠ trampolinePage) : mapping mem root page = none := by
  rw [mapping, space.others page above inside notTrapframe notTrampoline]
  rfl

theorem mapping_isSome (space : Space layout mem root trapframe ptes) {page : Nat} (inside : page < PAGES)
    (notTrapframe : page ≠ trapframePage) (notTrampoline : page ≠ trampolinePage) :
    (mapping mem root page).isSome ↔ page < ptes.length := by
  rcases Nat.lt_or_ge page ptes.length with below | above
  · rw [mapping_user space (List.getElem?_eq_getElem below)]
    exact ⟨fun _ => below, fun _ => rfl⟩
  · rw [mapping_other space above inside notTrapframe notTrampoline]
    exact ⟨nofun, fun below => absurd below (Nat.not_lt.mpr above)⟩

theorem mapping_same (before : Space layout mem root trapframe ptes)
    (later : Space layout after root trapframe ptes) {page : Nat} (inside : page < PAGES) :
    mapping after root page = mapping mem root page := by
  rcases Nat.lt_or_ge page ptes.length with below | above
  · have found := List.getElem?_eq_getElem below
    rw [mapping_user before found, mapping_user later found]
  · by_cases trap : page = trapframePage
    · exact mapping_of_entry (by rw [trap, before.trapframe, later.trapframe])
    by_cases text : page = trampolinePage
    · exact mapping_of_entry (by rw [text, before.trampoline, later.trampoline])
    rw [mapping_other before above inside trap text, mapping_other later above inside trap text]

end

end Xv6.Kernel
