import Mathlib.Data.List.FinRange
import Xv6.Data.Radix
import Xv6.Vm.Words

namespace Xv6.Vm

open Xv6.Data

/-! # A page table as a tree of pages and as a map

A virtual page is given by its number.  Three indices of nine bits lead to its entry.
-/

/-- The page table that an entry links to. -/
def below (pte : Word) : Option Word := if valid pte then some (PTE2PA pte) else none

def slots : List (Fin 512) := List.finRange 512

theorem mem_slots (slot : Fin 512) : slot ∈ slots := List.mem_finRange slot

theorem slots_nodup : slots.Nodup := List.nodup_finRange 512

/-- The pages of a page table, all three levels. -/
def tables (mem : Memory) (root : Word) : List Word := Radix.nodes slots below (pteAt mem) 2 root

/-- Those of the upper two levels. -/
def upperTables (mem : Memory) (root : Word) : List Word :=
  Radix.inner slots below (pteAt mem) 2 root

def digit (level page : Nat) : Fin 512 := ⟨page / 512 ^ level % 512, Nat.mod_lt _ (by decide)⟩

/-- The page table of the last level that holds the entry of a virtual page. -/
def lastTable (mem : Memory) (root : Word) (page : Nat) : Option Word :=
  Radix.descend below (pteAt mem) root [digit 2 page, digit 1 page]

/-- The entry of a virtual page; zero where its page tables are missing. -/
def entry (mem : Memory) (root : Word) (page : Nat) : Word :=
  (lastTable mem root page).elim 0 fun table => pteAt mem table (digit 0 page)

/-- The virtual pages of a page table. -/
def PAGES : Nat := 2 ^ 27

/-- The number of the page of a virtual address. -/
def pageOf (va : Word) : Nat := va.toNat / PGSIZE

structure Tree (mem : Memory) (root : Word) : Prop where
  distinct : (tables mem root).Nodup
  /-- `freewalk` tells links from leaves by their permissions. -/
  links : ∀ table ∈ upperTables mem root, ∀ i, valid (pteAt mem table i) = true →
    pteAt mem table i &&& (PTE_R ||| PTE_W ||| PTE_X) = 0

theorem PX_eq_digit {level : Nat} {va : Word} : PX level va = digit level (pageOf va) := by
  apply Fin.ext
  rw [PX_val]
  show _ = va.toNat / PGSIZE / 512 ^ level % 512
  rw [Nat.div_div_eq_div_mul, PGSIZE, show (4096 : Nat) = 2 ^ 12 by decide,
    show (512 : Nat) ^ level = 2 ^ (9 * level) by rw [Nat.pow_mul], ← Nat.pow_add]

theorem digit_injective {page other : Nat} (inside : page < PAGES) (otherInside : other < PAGES)
    (high : digit 2 page = digit 2 other) (middle : digit 1 page = digit 1 other)
    (low : digit 0 page = digit 0 other) : page = other := by
  rw [digit, digit, Fin.mk.injEq] at high middle low
  rw [PAGES] at inside otherInside
  omega

section

variable {mem after : Memory} {root : Word} {page other : Nat}

theorem mem_tables_root : root ∈ tables mem root := Radix.mem_nodes_root

variable {table : Word}

theorem upperTables_subset (member : table ∈ upperTables mem root) :
    table ∈ tables mem root := Radix.inner_subset mem_slots member

theorem lastTable_mem (found : lastTable mem root page = some table) :
    table ∈ tables mem root := Radix.descend_mem mem_slots found (Nat.le_refl 2)

theorem lastTable_not_upper (tree : Tree mem root) (found : lastTable mem root page = some table) :
    table ∉ upperTables mem root :=
  Radix.descend_not_inner mem_slots tree.distinct found rfl

theorem entry_of_found (found : lastTable mem root page = some table) :
    entry mem root page = pteAt mem table (digit 0 page) := by
  rw [entry, found, Option.elim_some]

theorem entry_of_missing (missing : lastTable mem root page = none) : entry mem root page = 0 := by
  rw [entry, missing, Option.elim_none]

/-! ## What the tree depends on -/

section

variable (same : ∀ table ∈ upperTables mem root, after table = mem table)

include same

theorem tables_congr : tables after root = tables mem root :=
  Radix.nodes_congr mem_slots fun table member slot => by rw [pteAt, same table member, pteAt]

theorem upperTables_congr : upperTables after root = upperTables mem root :=
  Radix.inner_congr mem_slots fun table member slot => by rw [pteAt, same table member, pteAt]

theorem lastTable_congr (page : Nat) : lastTable after root page = lastTable mem root page :=
  Radix.descend_congr mem_slots
    (fun table member slot => by rw [pteAt, same table member, pteAt]) (Nat.le_refl 2)

end

theorem entry_congr (same : ∀ table ∈ tables mem root, after table = mem table) (page : Nat) :
    entry after root page = entry mem root page := by
  have upper : ∀ table ∈ upperTables mem root, after table = mem table :=
    fun table member => same table (upperTables_subset member)
  have reached := lastTable_congr upper page
  cases found : lastTable mem root page with
  | none => rw [entry_of_missing found, entry_of_missing (reached.trans found)]
  | some table =>
    rw [entry_of_found found, entry_of_found (reached.trans found), pteAt, pteAt,
      same table (lastTable_mem found)]

theorem Tree.congr (tree : Tree mem root)
    (same : ∀ table ∈ upperTables mem root, after table = mem table) : Tree after root := by
  constructor
  · rw [tables_congr same]
    exact tree.distinct
  · rw [upperTables_congr same]
    intro table member i
    rw [pteAt, same table member]
    exact tree.links table member i

/-! ## Writing an entry of the last level -/

theorem setPte_other {phys : Phys} {other : Word} (different : other ≠ table) (i : Fin 512)
    (pte : Word) : (phys.setPte table i pte).mem other = phys.mem other :=
  put_of_ne different phys _

theorem pteAt_setPte_self (phys : Phys) (table : Word) (i : Fin 512) (pte : Word) :
    pteAt (phys.setPte table i pte).mem table i = pte := by
  rw [pteAt, Phys.setPte, put_self, word_setWord_self]

theorem pteAt_setPte_of_ne {phys : Phys} {other : Word} {i j : Fin 512}
    (different : other = table → j ≠ i) (pte : Word) :
    pteAt (phys.setPte table i pte).mem other j = pteAt phys.mem other j := by
  by_cases same : other = table
  · subst same
    rw [pteAt, Phys.setPte, put_self, word_setWord_of_ne fun equal => different rfl (Fin.ext equal)]
    rfl
  · rw [pteAt, setPte_other same, pteAt]

variable {phys : Phys} {table : Word}

theorem setPte_upper (tree : Tree phys.mem root) (found : lastTable phys.mem root page = some table)
    (i : Fin 512) (pte : Word) : ∀ upper ∈ upperTables phys.mem root,
      (phys.setPte table i pte).mem upper = phys.mem upper := fun _ member =>
  setPte_other (ne_of_mem_of_not_mem member (lastTable_not_upper tree found)) i pte

theorem entry_setPte (tree : Tree phys.mem root) (inside : page < PAGES) (otherInside : other < PAGES)
    (found : lastTable phys.mem root page = some table) (pte : Word) :
    entry (phys.setPte table (digit 0 page) pte).mem root other =
      if other = page then pte else entry phys.mem root other := by
  have reached := lastTable_congr (setPte_upper tree found (digit 0 page) pte) other
  by_cases same : other = page
  · subst same
    rw [entry_of_found (reached.trans found), if_pos rfl, pteAt_setPte_self]
  · rw [if_neg same]
    cases foundOther : lastTable phys.mem root other with
    | none => rw [entry_of_missing foundOther, entry_of_missing (reached.trans foundOther)]
    | some otherTable =>
      rw [entry_of_found foundOther, entry_of_found (reached.trans foundOther)]
      apply pteAt_setPte_of_ne
      rintro rfl low
      have path := Radix.descend_injective mem_slots tree.distinct found foundOther
        (Nat.le_refl 2) rfl
      simp only [List.cons.injEq, and_true] at path
      exact same (digit_injective otherInside inside path.1 path.2 low)

end

/-! ## Pages in use and free pages -/

/-- Some pages in use and the free ones: all distinct pages of RAM. -/
structure Owned (layout : Layout) (phys : Phys) (pages free : List Word) : Prop where
  list : FreeList phys free
  distinct : (pages ++ free).Nodup
  frames : ∀ page ∈ pages ++ free, IsFrame layout page

/-- Pages move between a user and the free list, and nothing else changes. -/
structure Change (before : Phys) (pages free : List Word) (after : Phys) (pages' free' : List Word) :
    Prop where
  list : FreeList after free'
  conserved : (pages' ++ free').Perm (pages ++ free)
  elsewhere : ∀ page, page ∉ pages ++ free → after.mem page = before.mem page

section

variable {layout : Layout} {phys after last : Phys} {pages pages' pages'' free free' free'' : List Word}

theorem Change.owned (change : Change phys pages free after pages' free')
    (owned : Owned layout phys pages free) : Owned layout after pages' free' :=
  ⟨change.list, change.conserved.nodup_iff.mpr owned.distinct,
    fun page member => owned.frames page (change.conserved.mem_iff.mp member)⟩

theorem Change.refl (list : FreeList phys free) : Change phys pages free phys pages free :=
  ⟨list, .refl _, fun _ _ => rfl⟩

theorem Change.trans (first : Change phys pages free after pages' free')
    (second : Change after pages' free' last pages'' free'') :
    Change phys pages free last pages'' free'' := by
  refine ⟨second.list, second.conserved.trans first.conserved, fun page outside => ?_⟩
  rw [second.elsewhere page fun member => outside (first.conserved.mem_iff.mp member)]
  exact first.elsewhere page outside

theorem Change.perm {same same' : List Word} (change : Change phys pages free after pages' free')
    (order : pages.Perm same) (order' : pages'.Perm same') : Change phys same free after same' free' := by
  refine ⟨change.list, ?_, fun page outside => change.elsewhere page fun member => outside ?_⟩
  · exact ((order'.append_right _).symm.trans change.conserved).trans (order.append_right _)
  · exact (order.append_right _).mem_iff.mp member

/-- Pages that take no part may be counted in. -/
theorem Change.frame (change : Change phys pages free after pages' free') (rest : List Word) :
    Change phys (rest ++ pages) free after (rest ++ pages') free' := by
  refine ⟨change.list, ?_, fun page outside => change.elsewhere page fun member => outside ?_⟩
  · rw [List.append_assoc, List.append_assoc]
    exact change.conserved.append_left rest
  · rw [List.append_assoc]
    exact List.mem_append_right rest member

theorem Owned.perm {same : List Word} (owned : Owned layout phys pages free)
    (order : pages.Perm same) : Owned layout phys same free :=
  ⟨owned.list, (order.append_right _).nodup_iff.mp owned.distinct,
    fun page member => owned.frames page ((order.append_right _).mem_iff.mpr member)⟩

theorem Owned.unframe {rest : List Word} (owned : Owned layout phys (rest ++ pages) free) :
    Owned layout phys pages free := by
  obtain ⟨list, distinct, frames⟩ := owned
  rw [List.append_assoc] at distinct frames
  exact ⟨list, (List.nodup_append.mp distinct).2.1,
    fun page member => frames page (List.mem_append_right rest member)⟩

variable {page : Word}

theorem Owned.tail (owned : Owned layout phys (page :: pages) free) :
    Owned layout phys pages free := by
  rw [← List.singleton_append] at owned
  exact owned.unframe

section

variable (owned : Owned layout phys pages free)

include owned

theorem Owned.apart (used : page ∈ pages) : page ∉ free := fun member =>
  (List.nodup_append.mp owned.distinct).2.2 page used page member rfl

theorem Owned.put (used : page ∈ pages) (bytes : Bytes) :
    Change phys pages free (phys.put page bytes) pages free := by
  refine ⟨owned.list.put (owned.apart used) bytes, .refl _, fun other outside => ?_⟩
  apply put_of_ne
  rintro rfl
  exact outside (List.mem_append_left _ used)

theorem Owned.setPte {table : Word} (used : table ∈ pages) (i : Fin 512) (pte : Word) :
    Change phys pages free (phys.setPte table i pte) pages free :=
  owned.put used _

theorem Owned.kalloc : free = [] ∧ kalloc phys = (0, phys) ∨
      ∃ page rest after, free = page :: rest ∧ kalloc phys = (page, after) ∧ page ≠ 0 ∧
        Change phys pages free after (page :: pages) rest ∧
        ∀ other, other ≠ page → after.mem other = phys.mem other := by
  cases free with
  | nil => exact .inl ⟨rfl, kalloc_nil owned.list⟩
  | cons page rest =>
    have apart := (List.nodup_cons.mp (List.nodup_append.mp owned.distinct).2.1).1
    obtain ⟨after, allocated, real, list, same⟩ := kalloc_cons owned.list apart
    refine .inr ⟨page, rest, after, rfl, allocated, real, ⟨list, ?_, ?_⟩, same⟩
    · exact List.perm_middle.symm
    · intro other outside
      apply same
      rintro rfl
      exact outside (by simp)

end

theorem Owned.kfree (owned : Owned layout phys (page :: pages) free) :
    ∃ after, kfree layout page phys = .ok after ∧
      Change phys (page :: pages) free after pages (page :: free) ∧
      ∀ other, other ≠ page → after.mem other = phys.mem other := by
  have frame := owned.frames page (by simp)
  obtain ⟨after, freed, list, same⟩ := kfree_spec frame owned.list (owned.apart List.mem_cons_self)
    frame.ne_zero
  refine ⟨after, freed, ⟨list, List.perm_middle, fun other outside => same other ?_⟩, same⟩
  rintro rfl
  exact outside (by simp)

theorem freerange_spec (owned : Owned layout phys pages free) :
    ∃ after, freerange layout pages phys = .ok after ∧
      Change phys pages free after [] (pages.reverse ++ free) := by
  induction pages generalizing phys free with
  | nil => exact ⟨phys, rfl, .refl owned.list⟩
  | cons page pages ih =>
    obtain ⟨middle, freed, change, _⟩ := owned.kfree
    obtain ⟨after, rest, changeRest⟩ := ih (change.owned owned)
    refine ⟨after, ?_, ?_⟩
    · rw [freerange, freed]
      exact rest
    · rw [List.reverse_cons, List.append_assoc]
      exact change.trans changeRest

end

end Xv6.Vm
