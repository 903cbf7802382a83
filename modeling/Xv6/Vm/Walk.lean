import Xv6.Vm.Tree

namespace Xv6.Vm

open Xv6.Data

/-! # walk, mappages, uvmunmap and freewalk on the tree -/

variable {layout : Layout} {phys : Phys} {root va : Word} {free : List Word}

/-! ## walk -/

theorem walkLevels_lookup (levels : List Nat) (table : Word) :
    walkLevels false va levels table phys =
      (Radix.descend below (pteAt phys.mem) table (levels.map (PX · va)), phys) := by
  induction levels generalizing table with
  | nil => rfl
  | cons level levels ih =>
    rw [walkLevels, walkLevel, List.map_cons, Radix.descend, below]
    cases present : valid (pteAt phys.mem table (PX level va)) with
    | false => simp
    | true => simpa using ih _

theorem walk_lookup (inside : va < MAXVA) : walk root va false phys =
    .ok ((lastTable phys.mem root (pageOf va)).map fun table => (table, digit 0 (pageOf va)), phys) := by
  rw [walk, if_neg (by bv_omega), walkLevels_lookup]
  simp only [List.map_cons, List.map_nil, PX_eq_digit, lastTable]

/-- The tree may have gained page tables, but the map is the same. -/
structure Grown (root : Word) (phys : Phys) (free : List Word) (after : Phys) (free' : List Word) :
    Prop where
  tree : Tree after.mem root
  change : Change phys (tables phys.mem root) free after (tables after.mem root) free'
  entries : ∀ page, entry after.mem root page = entry phys.mem root page

theorem Grown.refl (tree : Tree phys.mem root) (list : FreeList phys free) :
    Grown root phys free phys free :=
  ⟨tree, .refl list, fun _ => rfl⟩

theorem Grown.trans {middle after : Phys} {free' free'' : List Word}
    (first : Grown root phys free middle free') (second : Grown root middle free' after free'') :
    Grown root phys free after free'' :=
  ⟨second.tree, first.change.trans second.change,
    fun page => (second.entries page).trans (first.entries page)⟩

theorem below_link {page : Word} (aligned : page.toNat % PGSIZE = 0) :
    below (PA2PTE page ||| PTE_V) = some page := by
  rw [below, if_pos (valid_or _), PTE2PA_or aligned (by decide)]

theorem link_permissions (page : Word) :
    (PA2PTE page ||| PTE_V) &&& (PTE_R ||| PTE_W ||| PTE_X) = 0 := by
  rw [← and_flags (by decide), PTE_FLAGS_or page (by decide)]
  decide

/-- What the new link is for the tree: the entry was empty and the new table is zero. -/
theorem links_new {middle : Phys} {table page : Word} {i : Fin 512}
    (vacant : valid (pteAt phys.mem table i) = false) (apart : table ≠ page)
    (aligned : page.toNat % PGSIZE = 0)
    (same : ∀ other, other ≠ page → middle.mem other = phys.mem other) :
    Radix.Links below (pteAt phys.mem)
      (pteAt ((middle.memset page 0).setPte table i (PA2PTE page ||| PTE_V)).mem) table i page := by
  constructor
  · rw [below, vacant]
    rfl
  · rw [pteAt_setPte_self, below_link aligned]
  · intro slot
    rw [pteAt_setPte_of_ne fun equal => absurd equal.symm apart, pteAt, Phys.memset, put_self,
      word_zero, below, valid_zero]
    rfl
  · intro other notPage slot different
    rw [pteAt_setPte_of_ne different, pteAt, Phys.memset, put_of_ne notPage, same other notPage, pteAt]

/-- A page table joins the tree below a table of the upper levels. -/
theorem Grown.link {middle : Phys} {table page : Word} {i : Fin 512} {path : List (Fin 512)}
    {rest : List Word} (tree : Tree phys.mem root)
    (owned : Owned layout phys (tables phys.mem root) (page :: rest))
    (taken : Change phys (tables phys.mem root) (page :: rest) middle
      (page :: tables phys.mem root) rest)
    (same : ∀ other, other ≠ page → middle.mem other = phys.mem other)
    (found : Radix.descend below (pteAt phys.mem) root path = some table) (short : path.length < 2)
    (vacant : valid (pteAt phys.mem table i) = false) :
    Grown root phys (page :: rest)
      ((middle.memset page 0).setPte table i (PA2PTE page ||| PTE_V)) rest := by
  have unused : page ∉ tables phys.mem root := fun member =>
    owned.apart member List.mem_cons_self
  have used : table ∈ tables phys.mem root :=
    Radix.descend_mem mem_slots found (Nat.le_of_lt short)
  have apart : table ≠ page := ne_of_mem_of_not_mem used unused
  have aligned := (owned.frames page (by simp)).1
  have links := links_new vacant apart aligned same
  have grown := links.nodes mem_slots slots_nodup tree.distinct unused found short
  have ownedMiddle := taken.owned owned
  refine ⟨⟨?_, ?_⟩, ⟨?_, ?_, ?_⟩, ?_⟩
  · have distinct := (List.nodup_append.mp ownedMiddle.distinct).1
    exact grown.nodup_iff.mpr distinct
  · intro upper member slot present
    rcases links.inner mem_slots unused member with rfl | member
    · rw [pteAt_setPte_of_ne fun equal => absurd equal.symm apart, pteAt, Phys.memset, put_self,
        word_zero] at present
      cases present
    · by_cases here : upper = table ∧ slot = i
      · obtain ⟨rfl, rfl⟩ := here
        rw [pteAt_setPte_self]
        exact link_permissions page
      · have notPage : upper ≠ page :=
          ne_of_mem_of_not_mem (Radix.inner_subset mem_slots member) unused
        rw [links.others upper notPage slot fun left right => here ⟨left, right⟩] at present ⊢
        exact tree.links upper member slot present
  · refine (ownedMiddle.list.put (ownedMiddle.apart List.mem_cons_self) _).put ?_ _
    exact ownedMiddle.apart (List.mem_cons_of_mem _ used)
  · exact (grown.append_right rest).trans List.perm_middle.symm
  · intro other outside
    have notPage : other ≠ page := by
      rintro rfl
      exact outside (by simp)
    have notTable : other ≠ table := by
      rintro rfl
      exact outside (List.mem_append_left _ used)
    rw [setPte_other notTable, Phys.memset, put_of_ne notPage]
    exact same other notPage
  · intro number
    have upper : table ∈ upperTables phys.mem root := Radix.descend_inner mem_slots found short
    have two : [digit 2 number, digit 1 number].length ≤ 2 := Nat.le_refl 2
    rcases links.descend mem_slots unused two with kept | ⟨missing, new⟩
    · cases reached : lastTable phys.mem root number with
      | none => rw [entry_of_missing reached, entry_of_missing (kept.trans reached)]
      | some last =>
        have notTable : last ≠ table := fun equal =>
          lastTable_not_upper tree reached (equal ▸ upper)
        have notPage : last ≠ page := ne_of_mem_of_not_mem (lastTable_mem reached) unused
        rw [entry_of_found reached, entry_of_found (kept.trans reached), pteAt,
          setPte_other notTable, Phys.memset, put_of_ne notPage, same last notPage, pteAt]
    · rw [entry_of_missing missing, entry_of_found new, pteAt, setPte_other apart.symm, Phys.memset,
        put_self, word_zero]

theorem walkLevel_alloc (va : Word) {table : Word} {path : List (Fin 512)} (level : Nat)
    (tree : Tree phys.mem root) (owned : Owned layout phys (tables phys.mem root) free)
    (found : Radix.descend below (pteAt phys.mem) root path = some table) (short : path.length < 2) :
    walkLevel true va level table phys = (none, phys) ∧ free = [] ∨
      ∃ next after free', walkLevel true va level table phys = (some next, after) ∧
        Grown root phys free after free' ∧
        Radix.descend below (pteAt after.mem) root (path ++ [PX level va]) = some next := by
  rw [walkLevel]
  cases present : valid (pteAt phys.mem table (PX level va)) with
  | true =>
    refine .inr ⟨_, phys, free, rfl, .refl tree owned.list, ?_⟩
    rw [Radix.descend_append, found]
    simp [Radix.descend, below, present]
  | false =>
    rcases owned.kalloc with ⟨rfl, allocated⟩ | ⟨page, rest, middle, rfl, allocated, real, taken, same⟩
    · left
      simp [allocated]
    · right
      have unused : page ∉ tables phys.mem root := fun member =>
        owned.apart member List.mem_cons_self
      have used : table ∈ tables phys.mem root :=
        Radix.descend_mem mem_slots found (Nat.le_of_lt short)
      have links := links_new present (ne_of_mem_of_not_mem used unused)
        (owned.frames page (by simp)).1 same
      refine ⟨page, _, rest, ?_, .link tree owned taken same found short present, ?_⟩
      · simp only [allocated, real, Bool.false_eq_true, if_false, if_true]
      -- The path to the table itself is an old one.
      have kept : Radix.descend below _ root path = Radix.descend below (pteAt phys.mem) root path :=
        (links.descend mem_slots unused (Nat.le_of_lt short)).resolve_right
          fun new => by rw [found] at new; cases new.1
      rw [Radix.descend_append, kept, found]
      simp [Radix.descend, links.linked]

/-- With `alloc`, `walk` finds the place of the entry, or there is no memory left. -/
theorem walk_alloc (inside : va < MAXVA) (tree : Tree phys.mem root)
    (owned : Owned layout phys (tables phys.mem root) free) :
    ∃ slot after free', walk root va true phys = .ok (slot, after) ∧ Grown root phys free after free' ∧
      (slot = none ∧ free' = [] ∨ ∃ table, slot = some (table, digit 0 (pageOf va)) ∧
        lastTable after.mem root (pageOf va) = some table) := by
  rw [walk, if_neg (by bv_omega)]
  simp only [walkLevels]
  have start : Radix.descend below (pteAt phys.mem) root [] = some root := rfl
  rcases walkLevel_alloc va 2 tree owned start (by decide) with
    ⟨failed, rfl⟩ | ⟨second, middle, free', walked, grown, found⟩
  · exact ⟨none, phys, [], by rw [failed]; rfl, .refl tree owned.list, .inl ⟨rfl, rfl⟩⟩
  · rw [walked]
    rcases walkLevel_alloc va 1 grown.tree (grown.change.owned owned) found
      (Nat.lt_succ_self 1) with ⟨failed, rfl⟩ | ⟨last, after, free'', walkedOn, grownOn, foundOn⟩
    · exact ⟨none, middle, [], by simp only [failed, Option.map_none], grown, .inl ⟨rfl, rfl⟩⟩
    · refine ⟨some (last, PX 0 va), after, free'', by simp only [walkedOn, Option.map_some],
        grown.trans grownOn, .inr ⟨last, by rw [PX_eq_digit], ?_⟩⟩
      rw [lastTable, ← PX_eq_digit, ← PX_eq_digit]
      exact foundOn

end Xv6.Vm
