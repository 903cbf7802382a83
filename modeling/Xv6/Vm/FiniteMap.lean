import Xv6.Vm.Freewalk

namespace Xv6.Vm

open Xv6.Data

/-! # A page table is a finite map -/

section

variable {mem : Memory} {root : Word}

theorem below_fresh (fresh : ∀ i, pteAt mem root i = 0) (i : Fin 512) :
    below (pteAt mem root i) = none := by
  rw [fresh, below, valid_zero]
  rfl

theorem tables_fresh (fresh : ∀ i, pteAt mem root i = 0) : tables mem root = [root] :=
  Radix.nodes_bare (below_fresh fresh)

theorem Tree.fresh (fresh : ∀ i, pteAt mem root i = 0) : Tree mem root := by
  constructor
  · rw [tables_fresh fresh]
    exact List.nodup_singleton root
  · intro table member i present
    rw [Radix.inner_bare (below_fresh fresh) member, fresh] at present
    cases present

theorem entry_fresh (fresh : ∀ i, pteAt mem root i = 0) (page : Nat) : entry mem root page = 0 := by
  apply entry_of_missing
  rw [lastTable, Radix.descend, below_fresh fresh]
  rfl

end

variable {layout : Layout} {phys : Phys} {root : Word} {free : List Word}

/-- On any tree of page tables, with free pages outside it: `mappages` sets the entries of
its range and no others, `uvmunmap` clears those of its range and no others, both keep
the tree, and without leaves `freewalk` frees each page table once. -/
theorem page_table_map (tree : Tree phys.mem root)
    (owned : Owned layout phys (tables phys.mem root) free) :
    (∀ (va size pa : Word) (perm : BitVec 32), size ≠ 0 → va.toNat + size.toNat ≤ MAXVA.toNat →
      (∀ page, pageOf va ≤ page → page ≤ pageOf (va + size - 1) →
        valid (entry phys.mem root page) = false) →
      ∃ result after free', mappages root va size pa perm phys = .ok (result, after) ∧
        Tree after.mem root ∧ Owned layout after (tables after.mem root) free' ∧
        (result = 0 ∧ (∀ page, page < PAGES → entry after.mem root page =
            if pageOf va ≤ page ∧ page ≤ pageOf (va + size - 1) then
              PA2PTE (pa + BitVec.ofNat 64 ((page - pageOf va) * PGSIZE)) ||| perm.signExtend 64 |||
                PTE_V
            else
              entry phys.mem root page) ∨
          result = -1 ∧ ∀ page, page < PAGES →
            ¬(pageOf va ≤ page ∧ page ≤ pageOf (va + size - 1)) →
              entry after.mem root page = entry phys.mem root page)) ∧
    (∀ (va npages : Word) (doFree : Bool), va.toNat % PGSIZE = 0 →
      va.toNat + npages.toNat * PGSIZE ≤ MAXVA.toNat →
      (∀ page, pageOf va ≤ page → page < pageOf va + npages.toNat →
        Removable (entry phys.mem root page)) →
      Owned layout phys (released doFree phys.mem root (pageOf va) npages.toNat ++
        tables phys.mem root) free →
      ∃ after free', uvmunmap layout root va npages doFree phys = .ok after ∧
        Tree after.mem root ∧ Owned layout after (tables after.mem root) free' ∧
        ∀ page, page < PAGES → entry after.mem root page =
          if pageOf va ≤ page ∧ page < pageOf va + npages.toNat then 0
          else entry phys.mem root page) ∧
    ((∀ page, page < PAGES → valid (entry phys.mem root page) = false) →
      ∃ after free', freewalk layout 3 root phys = .ok after ∧ FreeList after free' ∧
        free'.Nodup ∧ free'.Perm (tables phys.mem root ++ free)) := by
  refine ⟨?_, ?_, ?_⟩
  · intro va size pa perm real inside vacant
    obtain ⟨after, free', count, outcome, mapped⟩ := mappages_spec pa perm real
      (MAXVA_toNat ▸ inside) tree owned vacant
    have ordered := (mappages_rounds real (MAXVA_toNat ▸ inside)).2.1
    have ownedAfter := mapped.change.owned owned
    rcases outcome with ⟨returned, _, few⟩ | ⟨returned, all⟩
    · refine ⟨-1, after, free', returned, mapped.tree, ownedAfter, .inr ⟨rfl, fun page bound outside => ?_⟩⟩
      rw [mapped.entries page bound, if_neg (by omega)]
    · refine ⟨0, after, free', returned, mapped.tree, ownedAfter, .inl ⟨rfl, fun page bound => ?_⟩⟩
      rw [mapped.entries page bound]
      by_cases here : pageOf va ≤ page ∧ page ≤ pageOf (va + size - 1)
      · rw [if_pos here, if_pos (by omega), leaf]
      · rw [if_neg here, if_neg (by omega)]
  · intro va npages doFree aligned inside removable ownedAll
    have address : addressOf (pageOf va) = va := by
      rw [← PGROUNDDOWN_addressOf]
      apply BitVec.eq_of_toNat_eq
      rw [PGROUNDDOWN_toNat, Nat.div_mul_cancel (Nat.dvd_of_mod_eq_zero aligned)]
    have bound : pageOf va + npages.toNat ≤ MAXPAGES := by
      rw [MAXVA_toNat, PGSIZE] at inside
      rw [pageOf, MAXPAGES, PGSIZE]
      omega
    obtain ⟨after, free', unmapped, cleared⟩ := uvmunmap_spec npages.toNat bound tree ownedAll removable
    rw [address, BitVec.ofNat_toNat, BitVec.setWidth_eq] at unmapped
    refine ⟨after, free', unmapped, cleared.tree, ?_, cleared.entries⟩
    rw [cleared.same]
    exact cleared.change.owned ownedAll
  · intro vacant
    obtain ⟨after, free', freed, change⟩ := freewalk_spec tree owned vacant
    exact ⟨after, free', freed, change.list, change.conserved.nodup_iff.mpr owned.distinct,
      change.conserved⟩

/-! Two pages after an empty page table, none of them mapped. -/

def sampleLayout : Layout := ⟨0x80020000, 0x80007000, by decide, by decide, by decide⟩

def samplePhys : Phys where
  mem := fun page => if page = 0x80021000 then setWord (fun _ => 1) 0 0x80022000 else fun _ => 0
  freelist := 0x80021000

theorem samplePhys_fresh (i : Fin 512) : pteAt samplePhys.mem 0x80020000 i = 0 := by
  show word (fun _ => 0) i = 0
  exact word_zero i

theorem samplePhys_owned : Owned sampleLayout samplePhys (tables samplePhys.mem 0x80020000)
    [0x80021000, 0x80022000] := by
  rw [tables_fresh samplePhys_fresh]
  have linked : word (samplePhys.mem 0x80021000) 0 = 0x80022000 := by decide +kernel
  have last : word (samplePhys.mem 0x80022000) 0 = 0 := by decide +kernel
  refine ⟨⟨rfl, by decide, linked, by decide, last⟩, by decide, fun page member => ?_⟩
  simp only [List.singleton_append, List.mem_cons, List.not_mem_nil, or_false] at member
  rcases member with rfl | rfl | rfl <;> decide

/-- The two free pages become page tables of the first mapping. -/
theorem page_table_map_sample : ∃ after, mappages 0x80020000 0x1000 0x1000 0x80007000 10 samplePhys =
    .ok (0, after) ∧ Tree after.mem 0x80020000 ∧
    entry after.mem 0x80020000 1 = PA2PTE 0x80007000 ||| 10 ||| PTE_V ∧
    entry after.mem 0x80020000 2 = 0 := by
  obtain ⟨maps, _, _⟩ := page_table_map (Tree.fresh samplePhys_fresh) samplePhys_owned
  have vacant : ∀ page, pageOf 0x1000 ≤ page → page ≤ pageOf (0x1000 + 0x1000 - 1) →
      valid (entry samplePhys.mem 0x80020000 page) = false := fun page _ _ => by
    rw [entry_fresh samplePhys_fresh]
    rfl
  obtain ⟨result, after, free', mapped, treeAfter, _, outcome⟩ :=
    maps 0x1000 0x1000 0x80007000 10 (by decide) (by decide) vacant
  have returned : (mappages 0x80020000 0x1000 0x1000 0x80007000 10 samplePhys).map Prod.fst = .ok 0 := by
    decide +kernel
  rw [mapped] at returned
  cases returned
  rcases outcome with ⟨_, entries⟩ | ⟨wrong, _⟩
  · refine ⟨after, mapped, treeAfter, ?_, ?_⟩
    · rw [entries 1 (by decide), if_pos (by decide)]
      rfl
    · rw [entries 2 (by decide), if_neg (by decide), entry_fresh samplePhys_fresh]
  · cases wrong

end Xv6.Vm
