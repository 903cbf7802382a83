import Xv6.Data.Ensures
import Xv6.Vm.Walk

namespace Xv6.Vm

open Xv6.Data

/-! # mappages and uvmunmap change the map where they should -/

/-- The pages below `MAXVA`. -/
def MAXPAGES : Nat := 2 ^ 26

/-- The first address of a virtual page. -/
def addressOf (page : Nat) : Word := BitVec.ofNat 64 (page * PGSIZE)

/-- The entry that `mappages` stores. -/
def leaf (pa : Word) (perm : BitVec 32) : Word := PA2PTE pa ||| perm.signExtend 64 ||| PTE_V

/-! ## Page numbers and addresses -/

variable {page : Nat}

theorem addressOf_toNat (inside : page < 2 ^ 52) : (addressOf page).toNat = page * PGSIZE := by
  rw [addressOf, BitVec.toNat_ofNat, PGSIZE]
  omega

theorem pageOf_addressOf (inside : page < 2 ^ 52) : pageOf (addressOf page) = page := by
  rw [pageOf, addressOf_toNat inside, PGSIZE]
  omega

theorem addressOf_add (page : Nat) : addressOf page + pageBytes = addressOf (page + 1) := by
  rw [addressOf, addressOf, pageBytes, ← BitVec.ofNat_add, Nat.add_mul, Nat.one_mul]

theorem addressOf_lt (inside : page < MAXPAGES) : addressOf page < MAXVA := by
  rw [MAXPAGES] at inside
  rw [BitVec.lt_def, addressOf_toNat (by omega), MAXVA_toNat, PGSIZE]
  omega

theorem PGROUNDDOWN_addressOf (va : Word) : PGROUNDDOWN va = addressOf (pageOf va) := by
  have inside := va.isLt
  apply BitVec.eq_of_toNat_eq
  have small : pageOf va < 2 ^ 52 := by
    rw [pageOf, PGSIZE]
    omega
  rw [PGROUNDDOWN_toNat, addressOf_toNat small, pageOf]

theorem MAXPAGES_le (inside : page < MAXPAGES) : page < PAGES := by
  rw [MAXPAGES] at inside
  rw [PAGES]
  omega

section

variable {layout : Layout} {phys : Phys} {root pa : Word} {free : List Word} {perm : BitVec 32}
  {page first : Nat}

/-! ## mappages -/

/-- The tree after `count` pages from `first` on were mapped. -/
structure Mapped (root : Word) (first : Nat) (pa : Word) (perm : BitVec 32) (count : Nat)
    (phys : Phys) (free : List Word) (after : Phys) (free' : List Word) : Prop where
  tree : Tree after.mem root
  change : Change phys (tables phys.mem root) free after (tables after.mem root) free'
  entries : ∀ page, page < PAGES → entry after.mem root page =
    if first ≤ page ∧ page < first + count then
      leaf (pa + BitVec.ofNat 64 ((page - first) * PGSIZE)) perm
    else
      entry phys.mem root page

variable {free' : List Word}

theorem Grown.mapped {after : Phys} (grown : Grown root phys free after free') :
    Mapped root first pa perm 0 phys free after free' :=
  ⟨grown.tree, grown.change, fun page _ => by rw [if_neg (by omega), grown.entries]⟩

theorem Mapped.trans {middle after : Phys} {free'' : List Word} {count : Nat}
    (one : Mapped root first pa perm 1 phys free middle free')
    (more : Mapped root (first + 1) (pa + pageBytes) perm count middle free' after free'') :
    Mapped root first pa perm (count + 1) phys free after free'' := by
  refine ⟨more.tree, one.change.trans more.change, fun page inside => ?_⟩
  rw [more.entries page inside, one.entries page inside]
  by_cases later : first + 1 ≤ page ∧ page < first + 1 + count
  · have shifted : pa + pageBytes + BitVec.ofNat 64 ((page - (first + 1)) * PGSIZE) =
        pa + BitVec.ofNat 64 ((page - first) * PGSIZE) := by
      rw [BitVec.add_assoc, pageBytes, ← BitVec.ofNat_add, show page - first = page - (first + 1) + 1
        by omega, Nat.add_mul, Nat.one_mul, Nat.add_comm]
    rw [if_pos later, if_pos (by omega), shifted]
  · rw [if_neg later]
    by_cases here : page = first
    · rw [if_pos (by omega), if_pos (by omega)]
    · rw [if_neg (by omega), if_neg (by omega)]

theorem mapPage_spec (pa : Word) (perm : BitVec 32) (inside : page < MAXPAGES) (tree : Tree phys.mem root)
    (owned : Owned layout phys (tables phys.mem root) free)
    (vacant : valid (entry phys.mem root page) = false) :
    ∃ after free', (mapPage root (addressOf page) pa perm phys = .ok (-1, after) ∧ free' = [] ∧
        Mapped root page pa perm 0 phys free after free') ∨
      (mapPage root (addressOf page) pa perm phys = .ok (0, after) ∧
        Mapped root page pa perm 1 phys free after free') := by
  have number : pageOf (addressOf page) = page := pageOf_addressOf (by rw [MAXPAGES] at inside; omega)
  obtain ⟨slot, after, free', walked, grown, outcome⟩ := walk_alloc (addressOf_lt inside) tree owned
  rw [number] at outcome
  rw [mapPage, walked, ok_bind]
  rcases outcome with ⟨rfl, rfl⟩ | ⟨table, rfl, found⟩
  · exact ⟨after, [], .inl ⟨rfl, rfl, grown.mapped⟩⟩
  · have empty : valid (pteAt after.mem table (digit 0 page)) = false := by
      rw [← entry_of_found found, grown.entries, vacant]
    refine ⟨after.setPte table (digit 0 page) (leaf pa perm), free', .inr ⟨by simp [empty, leaf], ?_⟩⟩
    have ownedAfter := grown.change.owned owned
    have upper := setPte_upper grown.tree found (digit 0 page) (leaf pa perm)
    refine ⟨grown.tree.congr upper, ?_, fun other otherInside => ?_⟩
    · rw [tables_congr upper]
      exact grown.change.trans (ownedAfter.setPte (lastTable_mem found) _ _)
    · rw [entry_setPte grown.tree (MAXPAGES_le inside) otherInside found, grown.entries]
      by_cases same : other = page
      · subst same
        simp
      · rw [if_neg same, if_neg (by omega)]

theorem mapLoop_spec (pa : Word) (perm : BitVec 32) (more : Nat) (inside : first + more < MAXPAGES)
    (tree : Tree phys.mem root) (owned : Owned layout phys (tables phys.mem root) free)
    (vacant : ∀ page, first ≤ page → page ≤ first + more → valid (entry phys.mem root page) = false) :
    ∃ after free' count, (mapLoop root perm more (addressOf first) pa phys = .ok (-1, after) ∧
        free' = [] ∧ count ≤ more ∨
      mapLoop root perm more (addressOf first) pa phys = .ok (0, after) ∧ count = more + 1) ∧
      Mapped root first pa perm count phys free after free' := by
  induction more generalizing first pa phys free with
  | zero =>
    have outcome := mapPage_spec pa perm inside tree owned
      (vacant first (Nat.le_refl _) (Nat.le_refl _))
    obtain ⟨after, free', ⟨stopped, rfl, kept⟩ | ⟨done, one⟩⟩ := outcome
    · exact ⟨after, [], 0, .inl ⟨stopped, rfl, Nat.le_refl 0⟩, kept⟩
    · exact ⟨after, free', 1, .inr ⟨done, rfl⟩, one⟩
  | succ more ih =>
    have outcome := mapPage_spec pa perm (by omega) tree owned
      (vacant first (Nat.le_refl _) (by omega))
    rw [mapLoop]
    obtain ⟨middle, free', ⟨stopped, rfl, kept⟩ | ⟨done, one⟩⟩ := outcome
    · rw [stopped]
      exact ⟨middle, [], 0, .inl ⟨rfl, rfl, Nat.zero_le _⟩, kept⟩
    · rw [done, ok_bind, addressOf_add]
      have later : ∀ page, first + 1 ≤ page → page ≤ first + 1 + more →
          valid (entry middle.mem root page) = false := by
        intro page lower upper
        rw [one.entries page (MAXPAGES_le (by omega)), if_neg (by omega)]
        exact vacant page (by omega) (by omega)
      obtain ⟨after, free'', count, outcome, mapped⟩ := ih (pa + pageBytes) (by omega) one.tree
        (one.change.owned owned) later
      refine ⟨after, free'', count + 1, ?_, one.trans mapped⟩
      rcases outcome with ⟨stopped, empty, partly⟩ | ⟨done, all⟩
      · exact .inl ⟨by simpa using stopped, empty, by omega⟩
      · exact .inr ⟨by simpa using done, by omega⟩

/-- The pages of a range of addresses, as `mappages` counts them. -/
theorem mappages_rounds {va size : Word} (real : size ≠ 0) (inside : va.toNat + size.toNat ≤ 2 ^ 38) :
    (PGROUNDDOWN (va + size - 1) - PGROUNDDOWN va).toNat / PGSIZE =
        pageOf (va + size - 1) - pageOf va ∧
      pageOf va ≤ pageOf (va + size - 1) ∧ pageOf (va + size - 1) < MAXPAGES := by
  have positive : 0 < size.toNat := Nat.pos_of_ne_zero fun zero => real (BitVec.eq_of_toNat_eq zero)
  have last : (va + size - 1).toNat = va.toNat + size.toNat - 1 := by bv_omega
  have ordered : pageOf va ≤ pageOf (va + size - 1) := by
    rw [pageOf, pageOf, last]
    exact Nat.div_le_div_right (by omega)
  refine ⟨?_, ordered, ?_⟩
  · have lower := PGROUNDDOWN_toNat va
    have upper := PGROUNDDOWN_toNat (va + size - 1)
    rw [pageOf, pageOf] at *
    have difference : (PGROUNDDOWN (va + size - 1) - PGROUNDDOWN va).toNat =
        (va + size - 1).toNat / PGSIZE * PGSIZE - va.toNat / PGSIZE * PGSIZE := by
      have below : (PGROUNDDOWN va).toNat ≤ (PGROUNDDOWN (va + size - 1)).toNat := by
        rw [lower, upper]
        exact Nat.mul_le_mul_right _ ordered
      bv_omega
    rw [difference, ← Nat.sub_mul, PGSIZE]
    omega
  · rw [pageOf, last, PGSIZE, MAXPAGES]
    omega

theorem mappages_spec {va size : Word} (pa : Word) (perm : BitVec 32) (real : size ≠ 0)
    (inside : va.toNat + size.toNat ≤ 2 ^ 38)
    (tree : Tree phys.mem root) (owned : Owned layout phys (tables phys.mem root) free)
    (vacant : ∀ page, pageOf va ≤ page → page ≤ pageOf (va + size - 1) →
      valid (entry phys.mem root page) = false) :
    ∃ after free' count, (mappages root va size pa perm phys = .ok (-1, after) ∧ free' = [] ∧
        count ≤ pageOf (va + size - 1) - pageOf va ∨
      mappages root va size pa perm phys = .ok (0, after) ∧
        count = pageOf (va + size - 1) - pageOf va + 1) ∧
      Mapped root (pageOf va) pa perm count phys free after free' := by
  obtain ⟨rounds, ordered, below⟩ := mappages_rounds real inside
  rw [mappages, if_neg real]
  simp only [rounds]
  rw [PGROUNDDOWN_addressOf va]
  exact mapLoop_spec pa perm _ (by omega) tree owned fun page lower upper => vacant page lower (by omega)

/-! ## uvmunmap -/

/-- The frames that unmapping gives back. -/
def released (doFree : Bool) (mem : Memory) (root : Word) (first count : Nat) : List Word :=
  if doFree then (List.range count).map fun index => PTE2PA (entry mem root (first + index)) else []

/-- The tree after `count` pages from `first` on were unmapped. -/
structure Unmapped (doFree : Bool) (root : Word) (first count : Nat) (phys : Phys) (free : List Word)
    (after : Phys) (free' : List Word) : Prop where
  tree : Tree after.mem root
  same : tables after.mem root = tables phys.mem root
  change : Change phys (released doFree phys.mem root first count ++ tables phys.mem root) free after
    (tables phys.mem root) free'
  entries : ∀ page, page < PAGES → entry after.mem root page =
    if first ≤ page ∧ page < first + count then 0 else entry phys.mem root page

/-- A page that `uvmunmap` takes: valid, with more flags than that. -/
def Removable (pte : Word) : Prop := valid pte = true ∧ PTE_FLAGS pte ≠ PTE_V

variable {doFree : Bool}

/-- The last statement of `uvmunmap`, for an entry whose frame may have been freed. -/
theorem Unmapped.clear {table : Word} {middle : Phys} (inside : page < MAXPAGES)
    (tree : Tree phys.mem root) (found : lastTable phys.mem root page = some table)
    (owned : Owned layout phys (released doFree phys.mem root page 1 ++ tables phys.mem root) free)
    (change : Change phys (released doFree phys.mem root page 1 ++ tables phys.mem root) free middle
      (tables phys.mem root) free')
    (kept : ∀ table ∈ tables phys.mem root, middle.mem table = phys.mem table) :
    Unmapped doFree root page 1 phys free (middle.setPte table (digit 0 page) 0) free' := by
  have upper : ∀ table ∈ upperTables phys.mem root, middle.mem table = phys.mem table :=
    fun table member => kept table (upperTables_subset member)
  have treeMiddle := tree.congr upper
  have foundMiddle : lastTable middle.mem root page = some table :=
    (lastTable_congr upper page).trans found
  have cleared := setPte_upper treeMiddle foundMiddle (digit 0 page) 0
  refine ⟨treeMiddle.congr cleared, ?_, ?_, fun other otherInside => ?_⟩
  · rw [tables_congr cleared, tables_congr upper]
  · exact change.trans ((change.owned owned).setPte (lastTable_mem found) _ _)
  · rw [entry_setPte treeMiddle (MAXPAGES_le inside) otherInside foundMiddle, entry_congr kept]
    by_cases same : other = page
    · rw [if_pos same, if_pos (by omega)]
    · rw [if_neg same, if_neg (by omega)]

theorem released_one (doFree : Bool) (mem : Memory) (root : Word) (page : Nat) :
    released doFree mem root page 1 = if doFree then [PTE2PA (entry mem root page)] else [] := rfl

theorem unmapPage_spec (inside : page < MAXPAGES) (tree : Tree phys.mem root)
    (owned : Owned layout phys (released doFree phys.mem root page 1 ++ tables phys.mem root) free)
    (removable : Removable (entry phys.mem root page)) :
    ∃ after free', unmapPage layout root doFree (addressOf page) phys = .ok after ∧
      Unmapped doFree root page 1 phys free after free' := by
  have number : pageOf (addressOf page) = page := pageOf_addressOf (by rw [MAXPAGES] at inside; omega)
  obtain ⟨present, notBare⟩ := removable
  rw [unmapPage, walk_lookup (addressOf_lt inside), number, ok_bind]
  cases found : lastTable phys.mem root page with
  | none =>
    rw [entry_of_missing found] at present
    cases present
  | some table =>
    have value := entry_of_found found
    rw [value] at present notBare
    simp only [Option.map_some, valid_iff.mp present, notBare, if_false]
    cases doFree with
    | false => exact ⟨_, free, rfl, .clear inside tree found owned (.refl owned.list) fun _ _ => rfl⟩
    | true =>
      have front := owned
      rw [released_one, if_pos rfl, value] at front
      obtain ⟨middle, freed, change, same⟩ := front.kfree
      simp only [if_true, freed, ok_bind]
      refine ⟨_, PTE2PA (pteAt phys.mem table (digit 0 page)) :: free, rfl,
        .clear inside tree found owned ?_ ?_⟩
      · rw [released_one, if_pos rfl, value]
        exact change
      · intro other member
        apply same
        rintro rfl
        have distinct := (List.nodup_append.mp front.distinct).1
        exact (List.nodup_cons.mp distinct).1 member

theorem released_succ (doFree : Bool) (mem : Memory) (root : Word) (first count : Nat) :
    released doFree mem root first (count + 1) =
      released doFree mem root first 1 ++ released doFree mem root (first + 1) count := by
  cases doFree with
  | false => rfl
  | true =>
    rw [released_one]
    simp only [released, if_true, List.range_succ_eq_map, List.map_cons, List.map_map,
      Nat.add_zero, List.singleton_append, Function.comp_def, Nat.succ_eq_add_one, Nat.add_assoc,
      Nat.add_comm 1]

theorem released_congr {mem after : Memory} {count : Nat}
    (same : ∀ page, first ≤ page → page < first + count → entry after root page =
      entry mem root page) :
    released doFree after root first count = released doFree mem root first count := by
  cases doFree with
  | false => simp only [released, Bool.false_eq_true, if_false]
  | true =>
    simp only [released, if_true]
    apply List.map_congr_left
    intro index member
    rw [List.mem_range] at member
    rw [same (first + index) (by omega) (by omega)]

theorem unmapLoop_spec (count : Nat) (inside : first + count ≤ MAXPAGES) (tree : Tree phys.mem root)
    (owned : Owned layout phys (released doFree phys.mem root first count ++ tables phys.mem root) free)
    (removable : ∀ page, first ≤ page → page < first + count →
      Removable (entry phys.mem root page)) :
    ∃ after free', unmapLoop layout root doFree count (addressOf first) phys = .ok after ∧
      Unmapped doFree root first count phys free after free' := by
  induction count generalizing first phys free with
  | zero =>
    refine ⟨phys, free, rfl, tree, rfl, ?_, fun page _ => (if_neg (by omega)).symm⟩
    cases doFree <;> exact .refl owned.list
  | succ count ih =>
    rw [released_succ] at owned
    have order : (released doFree phys.mem root first 1 ++
        released doFree phys.mem root (first + 1) count ++ tables phys.mem root).Perm
        (released doFree phys.mem root (first + 1) count ++
          (released doFree phys.mem root first 1 ++ tables phys.mem root)) := by
      rw [← List.append_assoc]
      exact List.perm_append_comm.append_right _
    have ownedOne := owned.perm order
    obtain ⟨middle, free', unmapped, one⟩ := unmapPage_spec (by omega) tree ownedOne.unframe
      (removable first (Nat.le_refl _) (by omega))
    have kept : ∀ page, first + 1 ≤ page → page < first + 1 + count →
        entry middle.mem root page = entry phys.mem root page := by
      intro page lower upper
      rw [one.entries page (MAXPAGES_le (by omega)), if_neg (by omega)]
    have frames : released doFree middle.mem root (first + 1) count =
        released doFree phys.mem root (first + 1) count := released_congr kept
    have changeOne := one.change.frame (released doFree phys.mem root (first + 1) count)
    have ownedRest := changeOne.owned ownedOne
    rw [← frames, ← one.same] at ownedRest
    obtain ⟨after, free'', unmappedRest, rest⟩ := ih (by omega) one.tree ownedRest
      fun page lower upper => by
        rw [kept page lower upper]
        exact removable page (by omega) (by omega)
    refine ⟨after, free'', ?_, rest.tree, rest.same.trans one.same, ?_, fun page bound => ?_⟩
    · rw [unmapLoop, unmapped, ok_bind, addressOf_add, unmappedRest]
    · have changeRest := rest.change
      rw [frames, one.same] at changeRest
      rw [released_succ]
      exact (changeOne.trans changeRest).perm order.symm (.refl _)
    · rw [rest.entries page bound, one.entries page bound]
      by_cases later : first + 1 ≤ page ∧ page < first + 1 + count
      · rw [if_pos later, if_pos (by omega)]
      · rw [if_neg later]
        by_cases here : page = first
        · rw [if_pos (by omega), if_pos (by omega)]
        · rw [if_neg (by omega), if_neg (by omega)]

theorem rounds_pages (first count : Nat) (inside : first + count < 2 ^ 52) :
    rounds (addressOf first) (addressOf first + BitVec.ofNat 64 count * pageBytes) = count := by
  have stop : addressOf first + BitVec.ofNat 64 count * pageBytes = addressOf (first + count) := by
    rw [addressOf, addressOf, pageBytes, ← BitVec.ofNat_mul, ← BitVec.ofNat_add, Nat.add_mul]
  rw [stop, rounds, addressOf_toNat inside, addressOf_toNat (by omega), PGSIZE]
  omega

theorem uvmunmap_spec (count : Nat) (inside : first + count ≤ MAXPAGES) (tree : Tree phys.mem root)
    (owned : Owned layout phys (released doFree phys.mem root first count ++ tables phys.mem root) free)
    (removable : ∀ page, first ≤ page → page < first + count →
      Removable (entry phys.mem root page)) :
    ∃ after free', uvmunmap layout root (addressOf first) (BitVec.ofNat 64 count) doFree phys =
        .ok after ∧ Unmapped doFree root first count phys free after free' := by
  have small : first + count < 2 ^ 52 := by
    rw [MAXPAGES] at inside
    omega
  have aligned : (addressOf first).toNat % PGSIZE = 0 := by
    rw [addressOf_toNat (by omega)]
    exact Nat.mul_mod_left first PGSIZE
  rw [uvmunmap, if_neg (by simpa using aligned), rounds_pages first count small]
  exact unmapLoop_spec count inside tree owned removable

end

end Xv6.Vm
