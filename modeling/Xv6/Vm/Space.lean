import Mathlib.Data.List.Perm.Subperm
import Xv6.Vm.FiniteMap

namespace Xv6.Vm

open Xv6.Data

attribute [local irreducible] tables upperTables lastTable entry

/-! # Address spaces

The page table of a process: its user pages from zero on, and the trapframe and trampoline
pages at the top.
-/

/-- A leaf that maps a frame. -/
structure LeafOf (pte frame : Word) : Prop where
  removable : Removable pte
  maps : PTE2PA pte = frame

/-- The numbers of the pages at `TRAPFRAME` and `TRAMPOLINE`. -/
def trapframePage : Nat := MAXPAGES - 2

def trampolinePage : Nat := MAXPAGES - 1

/-- Permissions of user pages, of the trapframe and of the trampoline. -/
def userPerm : BitVec 32 := (PTE_W ||| PTE_X ||| PTE_R ||| PTE_U).setWidth 32

def trapframePerm : BitVec 32 := (PTE_R ||| PTE_W).setWidth 32

def trampolinePerm : BitVec 32 := (PTE_R ||| PTE_X).setWidth 32

/-- `ptes` holds the entries of the user pages, in order. -/
structure Space (layout : Layout) (mem : Memory) (root trapframe : Word) (ptes : List Word) :
    Prop where
  tree : Tree mem root
  user : ∀ page pte, ptes[page]? = some pte → entry mem root page = pte
  leaves : ∀ pte ∈ ptes, Removable pte
  fits : ptes.length ≤ trapframePage
  trapframe : entry mem root trapframePage = leaf trapframe trapframePerm
  trampoline : entry mem root trampolinePage = leaf layout.trampoline trampolinePerm
  others : ∀ page, ptes.length ≤ page → page < PAGES → page ≠ trapframePage →
    page ≠ trampolinePage → valid (entry mem root page) = false

/-- The frames of some pages. -/
def framesOf (ptes : List Word) : List Word := ptes.map PTE2PA

/-- The pages that a size takes. -/
def pagesFor (sz : Nat) : Nat := (sz + (PGSIZE - 1)) / PGSIZE

/-! ## Counting -/

theorem length_le_of_nodup {numbers : List Nat} (bound : Nat) (distinct : numbers.Nodup)
    (below : ∀ number ∈ numbers, number < bound) : numbers.length ≤ bound := by
  have inside : numbers ⊆ List.range bound := fun number member =>
    List.mem_range.mpr (below number member)
  have length := (List.subperm_of_subset distinct inside).length_le
  rwa [List.length_range] at length

theorem Owned.length_le {layout : Layout} {phys : Phys} {pages free : List Word}
    (owned : Owned layout phys pages free) : (pages ++ free).length ≤ 2 ^ 15 := by
  have bounds : ∀ page ∈ pages ++ free, page.toNat % 4096 = 0 ∧ 2 ^ 31 ≤ page.toNat ∧
      page.toNat < 2 ^ 31 + 2 ^ 27 := by
    intro page member
    obtain ⟨aligned, above, below⟩ := owned.frames page member
    have ram := layout.inRam
    rw [BitVec.le_def] at above
    unfold KERNBASE at ram
    unfold PHYSTOP KERNBASE at below
    unfold PGSIZE at aligned
    omega
  have distinct : ((pages ++ free).map fun page => page.toNat / 4096 - 2 ^ 19).Nodup := by
    apply owned.distinct.map_on
    intro page member other otherMember same
    have first := bounds page member
    have second := bounds other otherMember
    apply BitVec.eq_of_toNat_eq
    omega
  have length := length_le_of_nodup (2 ^ 15) distinct fun number member => by
    obtain ⟨page, listed, rfl⟩ := List.mem_map.mp member
    have bound := bounds page listed
    omega
  rwa [List.length_map] at length

section

variable {layout : Layout} {phys after : Phys} {root trapframe : Word}
  {ptes free free' pages : List Word} {pa : Word} {perm : BitVec 32}

theorem leaf_removable (small : (perm.signExtend 64 ||| PTE_V).toNat < 1024)
    (more : perm.signExtend 64 ||| PTE_V ≠ PTE_V) : Removable (leaf pa perm) := by
  rw [leaf, BitVec.or_assoc]
  refine ⟨?_, ?_⟩
  · rw [← BitVec.or_assoc]
    exact valid_or _
  · rw [PTE_FLAGS_or pa small]
    exact more

theorem leafOf_leaf (aligned : pa.toNat % PGSIZE = 0)
    (small : (perm.signExtend 64 ||| PTE_V).toNat < 1024)
    (more : perm.signExtend 64 ||| PTE_V ≠ PTE_V) : LeafOf (leaf pa perm) pa := by
  refine ⟨leaf_removable small more, ?_⟩
  rw [leaf, BitVec.or_assoc, PTE2PA_or aligned small]

/-! ## Growing and shrinking -/

/-- Nothing that the page tables need has changed. -/
theorem Space.congr {mem after : Memory} (space : Space layout mem root trapframe ptes)
    (same : ∀ table ∈ tables mem root, after table = mem table) :
    Space layout after root trapframe ptes := by
  obtain ⟨tree, user, leaves, fits, frame, text, others⟩ := space
  refine ⟨tree.congr fun table member => same table (upperTables_subset member), ?_, leaves, fits, ?_,
    ?_, ?_⟩
  · intro page pte
    rw [entry_congr same]
    exact user page pte
  · rw [entry_congr same, frame]
  · rw [entry_congr same, text]
  · intro page
    rw [entry_congr same]
    exact others page

variable {first : Nat}

section

variable (space : Space layout phys.mem root trapframe ptes)

include space

theorem Space.grown {count : Nat} (mapped : Mapped root first pa perm count phys free after free')
    (none : count = 0) :
    Space layout after.mem root trapframe ptes := by
  have same : ∀ page, page < PAGES → entry after.mem root page = entry phys.mem root page :=
    fun page inside => by rw [mapped.entries page inside, if_neg (by omega)]
  have fits := space.fits
  refine ⟨mapped.tree, ?_, space.leaves, space.fits, ?_, ?_, ?_⟩
  · intro page pte found
    obtain ⟨below, _⟩ := List.getElem?_eq_some_iff.mp found
    rw [same page (by rw [PAGES]; rw [trapframePage, MAXPAGES] at fits; omega)]
    exact space.user page pte found
  · rw [same _ (by decide), space.trapframe]
  · rw [same _ (by decide), space.trampoline]
  · intro page above inside
    rw [same page inside]
    exact space.others page above inside

theorem Space.push (mapped : Mapped root ptes.length pa perm 1 phys free after free')
    (room : ptes.length < trapframePage) (removable : Removable (leaf pa perm)) :
    Space layout after.mem root trapframe (ptes ++ [leaf pa perm]) := by
  have here : entry after.mem root ptes.length = leaf pa perm := by
    rw [mapped.entries _ (by rw [PAGES]; rw [trapframePage, MAXPAGES] at room; omega),
      if_pos (by omega), Nat.sub_self, Nat.zero_mul, BitVec.add_zero]
  have same : ∀ page, page < PAGES → page ≠ ptes.length →
      entry after.mem root page = entry phys.mem root page := fun page inside different => by
    rw [mapped.entries page inside, if_neg (by omega)]
  have length : (ptes ++ [leaf pa perm]).length = ptes.length + 1 := by
    rw [List.length_append, List.length_singleton]
  refine ⟨mapped.tree, ?_, ?_, length ▸ room, ?_, ?_, ?_⟩
  · intro page pte found
    by_cases last : page = ptes.length
    · subst last
      rw [List.getElem?_append_right (Nat.le_refl _), Nat.sub_self] at found
      cases found
      exact here
    · have below : page < ptes.length := by
        obtain ⟨inside, _⟩ := List.getElem?_eq_some_iff.mp found
        omega
      rw [List.getElem?_append_left below] at found
      rw [same page (by rw [PAGES]; rw [trapframePage, MAXPAGES] at room; omega) last]
      exact space.user page pte found
  · intro pte member
    rcases List.mem_append.mp member with old | new
    · exact space.leaves pte old
    · rw [List.mem_singleton.mp new]
      exact removable
  · rw [same _ (by decide) (Nat.ne_of_gt room), space.trapframe]
  · rw [same _ (by decide) (by rw [trampolinePage]; rw [trapframePage] at room; omega),
      space.trampoline]
  · intro page above inside
    rw [same page inside (by omega)]
    exact space.others page (by omega) inside

theorem Space.released (inside : first ≤ ptes.length) :
    released true phys.mem root first (ptes.length - first) = framesOf (ptes.drop first) := by
  apply List.ext_getElem
  · simp [Vm.released, framesOf]
  · intro index left right
    have below : first + index < ptes.length := by
      rw [framesOf, List.length_map, List.length_drop] at right
      omega
    have found : ptes[first + index]? = some ptes[first + index] :=
      List.getElem?_eq_getElem below
    simp only [Vm.released, framesOf, if_true, List.getElem_map, List.getElem_range, List.getElem_drop]
    rw [space.user _ _ found]

theorem Space.cut (inside : first ≤ ptes.length)
    (unmapped : Unmapped true root first (ptes.length - first) phys free after free') :
    Space layout after.mem root trapframe (ptes.take first) := by
  have fits := space.fits
  rw [trapframePage, MAXPAGES] at fits
  refine ⟨unmapped.tree, ?_, fun pte member => space.leaves pte (List.mem_of_mem_take member), ?_, ?_,
    ?_, ?_⟩
  · intro page pte found
    obtain ⟨below, _⟩ := List.getElem?_eq_some_iff.mp found
    rw [List.length_take] at below
    rw [List.getElem?_take_of_lt (by omega)] at found
    rw [unmapped.entries page (by rw [PAGES]; omega), if_neg (by omega)]
    exact space.user page pte found
  · rw [List.length_take, trapframePage, MAXPAGES]
    omega
  · rw [unmapped.entries _ (by decide), if_neg (by rw [trapframePage, MAXPAGES]; omega),
      space.trapframe]
  · rw [unmapped.entries _ (by decide), if_neg (by rw [trampolinePage, MAXPAGES]; omega),
      space.trampoline]
  · intro page above bound notTrapframe notTrampoline
    rw [unmapped.entries page bound]
    rw [List.length_take] at above
    split
    · rfl
    · exact space.others page (by omega) bound notTrapframe notTrampoline

end

/-! ## uvmdealloc and uvmalloc -/

theorem mapOne_spec {page : Nat} (pa : Word) (perm : BitVec 32) (inside : page < MAXPAGES)
    (tree : Tree phys.mem root) (owned : Owned layout phys (tables phys.mem root) free)
    (vacant : valid (entry phys.mem root page) = false) :
    ∃ after free', (mappages root (addressOf page) pageBytes pa perm phys = .ok (-1, after) ∧
        free' = [] ∧ Mapped root page pa perm 0 phys free after free') ∨
      (mappages root (addressOf page) pageBytes pa perm phys = .ok (0, after) ∧
        Mapped root page pa perm 1 phys free after free') := by
  have bound := inside
  rw [MAXPAGES] at bound
  have first : pageOf (addressOf page) = page := pageOf_addressOf (by omega)
  have last : pageOf (addressOf page + pageBytes - 1) = page := by
    have address : (addressOf page).toNat = page * PGSIZE := addressOf_toNat (by omega)
    have size := pageBytes_toNat
    rw [PGSIZE] at *
    have sum : (addressOf page + pageBytes - 1).toNat = page * 4096 + 4095 := by bv_omega
    rw [pageOf, sum, PGSIZE]
    omega
  have range : (addressOf page).toNat + pageBytes.toNat ≤ 2 ^ 38 := by
    rw [addressOf_toNat (by omega), pageBytes_toNat, PGSIZE]
    omega
  obtain ⟨after, free', count, outcome, mapped⟩ := mappages_spec pa perm
    (by decide) range tree owned fun other lower upper => by
      obtain rfl : other = page := by omega
      exact vacant
  rw [first] at mapped outcome
  rw [last] at outcome
  rcases outcome with ⟨stopped, none, few⟩ | ⟨done, one⟩
  · obtain rfl : count = 0 := by omega
    exact ⟨after, free', .inl ⟨stopped, none, mapped⟩⟩
  · obtain rfl : count = 1 := by omega
    exact ⟨after, free', .inr ⟨done, mapped⟩⟩

theorem PGROUNDUP_addressOf {sz : Word} (small : sz.toNat < 2 ^ 63) :
    PGROUNDUP sz = addressOf (pagesFor sz.toNat) := by
  apply BitVec.eq_of_toNat_eq
  have bound : pagesFor sz.toNat < 2 ^ 52 := by
    rw [pagesFor, PGSIZE]
    omega
  rw [PGROUNDUP_toNat (by rw [PGSIZE]; omega), addressOf_toNat bound, pagesFor]

theorem npages_eq {last : Nat} (ordered : first ≤ last) (small : last ≤ 2 ^ 15) :
    (((addressOf last - addressOf first) / pageBytes).setWidth 32).signExtend 64 =
      BitVec.ofNat 64 (last - first) := by
  have count : (addressOf last - addressOf first) / pageBytes = BitVec.ofNat 64 (last - first) := by
    apply BitVec.eq_of_toNat_eq
    rw [BitVec.toNat_udiv, pageBytes_toNat, BitVec.toNat_sub_of_le, addressOf_toNat (by omega),
      addressOf_toNat (by omega), BitVec.toNat_ofNat, ← Nat.sub_mul, PGSIZE]
    · omega
    · rw [BitVec.le_def, addressOf_toNat (by omega), addressOf_toNat (by omega)]
      exact Nat.mul_le_mul_right _ ordered
  have narrow : ((BitVec.ofNat 64 (last - first)).setWidth 32) = BitVec.ofNat 32 (last - first) := by
    apply BitVec.eq_of_toNat_eq
    rw [BitVec.toNat_setWidth, BitVec.toNat_ofNat, BitVec.toNat_ofNat]
    omega
  have positive : (BitVec.ofNat 32 (last - first)).msb = false := by
    rw [BitVec.msb_eq_false_iff_two_mul_lt, BitVec.toNat_ofNat]
    omega
  rw [count, narrow, BitVec.signExtend_eq_setWidth_of_msb_false positive]
  apply BitVec.eq_of_toNat_eq
  rw [BitVec.toNat_setWidth, BitVec.toNat_ofNat, BitVec.toNat_ofNat]
  omega

theorem Owned.few (owned : Owned layout phys (framesOf ptes ++ pages) free) : ptes.length ≤ 2 ^ 15 := by
  have length := owned.length_le
  rw [List.length_append, List.length_append, framesOf, List.length_map] at length
  omega

theorem Owned.room (owned : Owned layout phys (framesOf ptes ++ pages) free) :
    ptes.length < trapframePage := Nat.lt_of_le_of_lt owned.few (by decide)

variable {newsz : Word}

/-- `uvmdealloc` from the size of the space on: the pages beyond the new size are freed. -/
theorem uvmdealloc_spec {oldsz : Word} (space : Space layout phys.mem root trapframe ptes)
    (owned : Owned layout phys (framesOf ptes ++ tables phys.mem root) free)
    (size : ptes.length = pagesFor oldsz.toNat) (small : oldsz.toNat < 2 ^ 63)
    (less : newsz.toNat ≤ oldsz.toNat) :
    ∃ after free', uvmdealloc layout root oldsz newsz phys = .ok (newsz, after) ∧
      Space layout after.mem root trapframe (ptes.take (pagesFor newsz.toNat)) ∧
      tables after.mem root = tables phys.mem root ∧
      Change phys (framesOf (ptes.drop (pagesFor newsz.toNat)) ++ tables phys.mem root) free after
        (tables phys.mem root) free' := by
  have monotone : pagesFor newsz.toNat ≤ ptes.length := by
    rw [size, pagesFor, pagesFor]
    exact Nat.div_le_div_right (by omega)
  have whole : ptes.length = pagesFor newsz.toNat → ptes.take (pagesFor newsz.toNat) = ptes ∧
      ptes.drop (pagesFor newsz.toNat) = [] := fun same => by
    rw [← same]
    exact ⟨List.take_length, List.drop_length⟩
  have unchanged : ptes.length = pagesFor newsz.toNat →
      Space layout phys.mem root trapframe (ptes.take (pagesFor newsz.toNat)) ∧
      tables phys.mem root = tables phys.mem root ∧
      Change phys (framesOf (ptes.drop (pagesFor newsz.toNat)) ++ tables phys.mem root) free phys
        (tables phys.mem root) free := fun same => by
    obtain ⟨taken, dropped⟩ := whole same
    rw [taken, dropped]
    exact ⟨space, rfl, .refl owned.list⟩
  rw [uvmdealloc]
  by_cases equal : newsz ≥ oldsz
  · have same : newsz = oldsz := BitVec.eq_of_toNat_eq (Nat.le_antisymm less (BitVec.le_def.mp equal))
    subst same
    exact ⟨phys, free, by rw [if_pos equal], unchanged size⟩
  rw [if_neg equal, PGROUNDUP_addressOf small, PGROUNDUP_addressOf (by omega), ← size]
  have few := owned.few
  by_cases fewer : addressOf (pagesFor newsz.toNat) < addressOf ptes.length
  · rw [if_pos fewer]
    simp only [npages_eq monotone few]
    have frees := space.released monotone
    have parts : framesOf ptes =
        framesOf (ptes.take (pagesFor newsz.toNat)) ++ framesOf (ptes.drop (pagesFor newsz.toNat)) := by
      rw [framesOf, framesOf, framesOf, ← List.map_append, List.take_append_drop]
    have ownedRest : Owned layout phys (Vm.released true phys.mem root (pagesFor newsz.toNat)
        (ptes.length - pagesFor newsz.toNat) ++ tables phys.mem root) free := by
      rw [frees]
      rw [parts, List.append_assoc] at owned
      exact owned.unframe
    obtain ⟨after, free', unmapped, cleared⟩ := uvmunmap_spec (ptes.length - pagesFor newsz.toNat)
      (by have := space.fits; rw [trapframePage] at this; omega) space.tree ownedRest
      fun page lower upper => by
        have below : page < ptes.length := by omega
        rw [space.user page ptes[page] (List.getElem?_eq_getElem below)]
        exact space.leaves _ (List.getElem_mem below)
    refine ⟨after, free', by simp only [unmapped, ok_bind], space.cut monotone cleared, cleared.same, ?_⟩
    rw [← frees]
    exact cleared.change
  · rw [if_neg fewer]
    have same : ptes.length = pagesFor newsz.toNat := by
      rw [BitVec.lt_def, addressOf_toNat (by omega), addressOf_toNat (by omega)] at fewer
      have := Nat.le_of_mul_le_mul_right (Nat.le_of_not_lt fewer) (by decide)
      omega
    exact ⟨phys, free, rfl, unchanged same⟩

/-- Why `mappages` can put a page after the user pages. -/
theorem Space.next_vacant (space : Space layout phys.mem root trapframe ptes)
    (room : ptes.length < trapframePage) :
    valid (entry phys.mem root ptes.length) = false := by
  rw [trapframePage, MAXPAGES] at room
  refine space.others _ (Nat.le_refl _) ?_ ?_ ?_
  · rw [PAGES]
    omega
  · rw [trapframePage, MAXPAGES]
    omega
  · rw [trampolinePage, MAXPAGES]
    omega

/-- A new frame behind the user pages: `kalloc`, some bytes put into the frame, `mappages`,
and `kfree` if that fails. -/
theorem newPage_spec (space : Space layout phys.mem root trapframe ptes)
    (room : ptes.length < trapframePage) (owned : Owned layout phys (tables phys.mem root) free) :
    free = [] ∧ kalloc phys = (0, phys) ∨
      ∃ page taken, kalloc phys = (page, taken) ∧ page ≠ 0 ∧ page.toNat % PGSIZE = 0 ∧
        page ∈ free ∧ (∀ other, other ≠ page → taken.mem other = phys.mem other) ∧
        ∀ bytes perm, Removable (leaf page perm) → ∃ after free',
          (mappages root (addressOf ptes.length) pageBytes page perm (taken.put page bytes) =
              .ok (0, after) ∧ Space layout after.mem root trapframe (ptes ++ [leaf page perm]) ∧
            Change phys (tables phys.mem root) free after (page :: tables after.mem root) free' ∧
            after.mem page = bytes) ∨
          (∃ failed, mappages root (addressOf ptes.length) pageBytes page perm
              (taken.put page bytes) = .ok (-1, failed) ∧ kfree layout page failed = .ok after ∧
            Space layout after.mem root trapframe ptes ∧
            Change phys (tables phys.mem root) free after (tables after.mem root) free') := by
  rcases owned.kalloc with ⟨none, failed⟩ | ⟨page, rest, taken, rfl, allocated, real, change, same⟩
  · exact .inl ⟨none, failed⟩
  right
  have unused : page ∉ tables phys.mem root := fun member =>
    owned.apart member List.mem_cons_self
  have frame := owned.frames page (by simp)
  refine ⟨page, taken, allocated, real, frame.1, List.mem_cons_self, same, fun bytes perm removable => ?_⟩
  -- The page tables do not see the new frame.
  have kept : ∀ table ∈ tables phys.mem root, (taken.put page bytes).mem table = phys.mem table :=
    fun table member => by
      have different := ne_of_mem_of_not_mem member unused
      rw [put_of_ne different, same table different]
  have spaceTaken := space.congr kept
  have tablesTaken : tables (taken.put page bytes).mem root = tables phys.mem root :=
    tables_congr fun table member => kept table (upperTables_subset member)
  have filled := change.trans ((change.owned owned).put List.mem_cons_self bytes)
  have ownedFilled := filled.owned owned
  have ownedBelow : Owned layout (taken.put page bytes) (tables (taken.put page bytes).mem root) rest := by
    rw [tablesTaken]
    have framed : Owned layout (taken.put page bytes) ([page] ++ tables phys.mem root) rest := ownedFilled
    exact framed.unframe
  obtain ⟨after, free', outcome⟩ := mapOne_spec page perm
    (Nat.lt_of_lt_of_le room (by decide)) spaceTaken.tree ownedBelow (spaceTaken.next_vacant room)
  have outside : page ∉ tables phys.mem root ++ rest := by
    rw [List.mem_append, not_or]
    exact ⟨unused, ownedFilled.apart List.mem_cons_self⟩
  rcases outcome with ⟨stopped, rfl, mapped⟩ | ⟨done, mapped⟩
  · have whole := filled.trans ((tablesTaken ▸ mapped.change).frame [page])
    have spaceAfter := spaceTaken.grown mapped rfl
    obtain ⟨last, freed, back, sameLast⟩ := Owned.kfree (whole.owned owned)
    have notTable : page ∉ tables after.mem root := by
      have distinct := (List.nodup_append.mp (whole.owned owned).distinct).1
      exact (List.nodup_cons.mp distinct).1
    have keptLast : ∀ table ∈ tables after.mem root, last.mem table = after.mem table :=
      fun table member => sameLast table (ne_of_mem_of_not_mem member notTable)
    refine ⟨last, [page], .inr ⟨after, stopped, freed, spaceAfter.congr keptLast, ?_⟩⟩
    rw [tables_congr fun table member => keptLast table (upperTables_subset member)]
    exact whole.trans back
  · have whole := filled.trans ((tablesTaken ▸ mapped.change).frame [page])
    refine ⟨after, free', .inl ⟨done, spaceTaken.push mapped room removable, whole, ?_⟩⟩
    rw [mapped.change.elsewhere page (by rw [tablesTaken]; exact outside), put_self]

/-- The entry that `uvmalloc` makes for a page. -/
def userPte (page : Word) : Word := leaf page userPerm

theorem userLeaf {page : Word} (aligned : page.toNat % PGSIZE = 0) : LeafOf (userPte page) page :=
  leafOf_leaf aligned (by decide) (by decide)

theorem framesOf_append (front back : List Word) : framesOf (front ++ back) = framesOf front ++ framesOf back :=
  List.map_append

variable {new : List Word}

theorem framesOf_userPte (aligned : ∀ page ∈ new, page.toNat % PGSIZE = 0) :
    framesOf (new.map userPte) = new := by
  rw [framesOf, List.map_map]
  refine (List.map_congr_left fun page member => ?_).trans (List.map_id new)
  exact (userLeaf (aligned page member)).maps

theorem pagesFor_addressOf {pages : Nat} (small : pages < 2 ^ 52) :
    pagesFor (addressOf pages).toNat = pages := by
  rw [addressOf_toNat small, pagesFor, PGSIZE]
  omega

/-- The way back of `uvmalloc`: the new pages go. -/
theorem allocUndo_spec (space : Space layout phys.mem root trapframe (ptes ++ new))
    (owned : Owned layout phys (framesOf ptes ++ (framesOf new ++ tables phys.mem root)) free) :
    ∃ result after free', uvmdealloc layout root (addressOf (ptes.length + new.length))
        (addressOf ptes.length) phys = .ok (result, after) ∧
      Space layout after.mem root trapframe ptes ∧
      Change phys (framesOf new ++ tables phys.mem root) free after (tables after.mem root) free' := by
  rw [← List.append_assoc, ← framesOf_append] at owned
  have few := owned.few
  rw [List.length_append] at few
  have size : (ptes ++ new).length = pagesFor (addressOf (ptes.length + new.length)).toNat := by
    rw [pagesFor_addressOf (by omega), List.length_append]
  have small : (addressOf (ptes.length + new.length)).toNat < 2 ^ 63 := by
    rw [addressOf_toNat (by omega), PGSIZE]
    omega
  have less : (addressOf ptes.length).toNat ≤ (addressOf (ptes.length + new.length)).toNat := by
    rw [addressOf_toNat (by omega), addressOf_toNat (by omega)]
    exact Nat.mul_le_mul_right _ (Nat.le_add_right _ _)
  obtain ⟨after, free', undone, spaceAfter, same, change⟩ := uvmdealloc_spec space owned size small less
  rw [pagesFor_addressOf (by omega)] at spaceAfter change
  rw [List.take_left] at spaceAfter
  rw [List.drop_left] at change
  exact ⟨_, after, free', undone, spaceAfter, same ▸ change⟩

/-- Some pages more: new ones, filled with zeros. -/
structure Extended (layout : Layout) (root trapframe : Word) (ptes : List Word) (phys : Phys)
    (free : List Word) (more : List Word) (after : Phys) (free' : List Word) : Prop where
  space : Space layout after.mem root trapframe (ptes ++ more.map userPte)
  change : Change phys (tables phys.mem root) free after (more ++ tables after.mem root) free'
  aligned : ∀ page ∈ more, page.toNat % PGSIZE = 0
  zeros : ∀ page ∈ more, after.mem page = fun _ => 0

theorem allocLoop_spec (rounds : Nat) (space : Space layout phys.mem root trapframe (ptes ++ new))
    (owned : Owned layout phys (framesOf ptes ++ (framesOf new ++ tables phys.mem root)) free) :
    ∃ after free',
      (∃ more, allocLoop layout root (addressOf ptes.length) newsz rounds
          (addressOf (ptes.length + new.length)) phys = .ok (newsz, after) ∧ more.length = rounds ∧
        Extended layout root trapframe (ptes ++ new) phys free more after free') ∨
      (allocLoop layout root (addressOf ptes.length) newsz rounds
          (addressOf (ptes.length + new.length)) phys = .ok (0, after) ∧
        Space layout after.mem root trapframe ptes ∧
        Change phys (framesOf new ++ tables phys.mem root) free after (tables after.mem root) free') := by
  induction rounds generalizing phys new free with
  | zero =>
    refine ⟨phys, free, .inl ⟨[], rfl, rfl, ?_, .refl owned.list, nofun, nofun⟩⟩
    rw [List.map_nil, List.append_nil]
    exact space
  | succ rounds ih =>
    rw [allocLoop]
    have ownedAll := owned
    rw [← List.append_assoc, ← framesOf_append] at ownedAll
    rcases newPage_spec space ownedAll.room ownedAll.unframe with ⟨-, failed⟩ |
      ⟨page, taken, allocated, real, aligned, fresh, same, mapping⟩
    · obtain ⟨result, after, free', undone, spaceAfter, change⟩ := allocUndo_spec space owned
      refine ⟨after, free', .inr ⟨?_, spaceAfter, change⟩⟩
      simp only [failed, if_true, undone, ok_bind]
    have isLeaf := userLeaf aligned
    obtain ⟨after, free', outcome⟩ := mapping (fun _ => 0) userPerm isLeaf.removable
    rw [List.length_append] at outcome
    rcases outcome with ⟨done, spaceAfter, change, zeros⟩ | ⟨failed, stopped, freed, spaceAfter, change⟩
    · -- One page more; the rest is the induction hypothesis.
      have framesNext : framesOf (new ++ [userPte page]) = framesOf new ++ [page] := by
        rw [framesOf_append]
        exact congrArg (framesOf new ++ [·]) isLeaf.maps
      have ownedAfter : Owned layout after
          (framesOf ptes ++ (framesOf (new ++ [userPte page]) ++ tables after.mem root)) free' := by
        have framed := (change.frame (framesOf (ptes ++ new))).owned ownedAll
        rw [framesNext]
        rwa [framesOf_append, List.append_cons, List.append_assoc (framesOf ptes),
          List.append_assoc (framesOf ptes)] at framed
      rw [List.append_assoc] at spaceAfter
      change Space layout after.mem root trapframe (ptes ++ (new ++ [userPte page])) at spaceAfter
      obtain ⟨last, free'', outcome⟩ := ih spaceAfter ownedAfter
      refine ⟨last, free'', ?_⟩
      simp only [allocated, real, if_false, Phys.memset, userPerm] at done ⊢
      simp only [done, ok_bind, ne_eq, not_true_eq_false, if_false, addressOf_add]
      simp only [List.length_append, List.length_singleton, ← Nat.add_assoc] at outcome
      rcases outcome with ⟨more, looped, count, rest⟩ | ⟨looped, spaceLast, changeRest⟩
      · refine .inl ⟨page :: more, looped, by rw [List.length_cons, count], ?_, ?_, ?_, ?_⟩
        · have spaceLast := rest.space
          rwa [← List.append_assoc, List.append_assoc] at spaceLast
        · exact change.trans (rest.change.frame [page])
        · intro other member
          rcases List.mem_cons.mp member with rfl | later
          · exact aligned
          · exact rest.aligned other later
        · intro other member
          rcases List.mem_cons.mp member with rfl | later
          · rw [rest.change.elsewhere other, zeros]
            have distinct := (change.owned owned.unframe.unframe).distinct
            exact (List.nodup_cons.mp distinct).1
          · exact rest.zeros other later
      · refine .inr ⟨looped, spaceLast, ?_⟩
        have first := change.frame (framesOf new)
        rw [framesNext, List.append_assoc] at changeRest
        exact first.trans changeRest
    · have ownedAfter : Owned layout after
          (framesOf ptes ++ (framesOf new ++ tables after.mem root)) free' := by
        have framed := (change.frame (framesOf (ptes ++ new))).owned ownedAll
        rwa [framesOf_append, List.append_assoc] at framed
      obtain ⟨result, last, free'', undone, spaceLast, changeBack⟩ := allocUndo_spec spaceAfter ownedAfter
      refine ⟨last, free'', .inr ⟨?_, spaceLast, (change.frame (framesOf new)).trans changeBack⟩⟩
      simp only [allocated, real, if_false, Phys.memset, userPerm] at stopped ⊢
      simp only [stopped, ok_bind, freed, undone, ne_eq, Int.reduceNeg,
        not_false_eq_true, if_true, Int.neg_eq_zero, one_ne_zero]

theorem rounds_addressOf {stop : Word} (small : first < 2 ^ 51) :
    rounds (addressOf first) stop = pagesFor stop.toNat - first := by
  rw [rounds, addressOf_toNat (by omega), pagesFor, PGSIZE]
  omega

/-- `uvmalloc` from the size of the space on.  Zero, the value for a failure, is also the value
when there was nothing to do for the new size zero. -/
theorem uvmalloc_spec {oldsz : Word} (space : Space layout phys.mem root trapframe ptes)
    (owned : Owned layout phys (framesOf ptes ++ tables phys.mem root) free)
    (size : ptes.length = pagesFor oldsz.toNat) (small : oldsz.toNat < 2 ^ 62)
    (more : oldsz.toNat ≤ newsz.toNat) :
    ∃ after free',
      (∃ new, uvmalloc layout root oldsz newsz phys = .ok (newsz, after) ∧
        ptes.length + new.length = pagesFor newsz.toNat ∧
        Extended layout root trapframe ptes phys free new after free') ∨
      (uvmalloc layout root oldsz newsz phys = .ok (0, after) ∧
        Space layout after.mem root trapframe ptes ∧
        Change phys (tables phys.mem root) free after (tables after.mem root) free') := by
  have few := owned.few
  have monotone : ptes.length ≤ pagesFor newsz.toNat := by
    rw [size, pagesFor, pagesFor]
    exact Nat.div_le_div_right (by omega)
  rw [uvmalloc, if_neg (by rw [BitVec.lt_def]; omega)]
  simp only [PGROUNDUP_addressOf (show oldsz.toNat < 2 ^ 63 by omega), ← size]
  rw [rounds_addressOf (by omega)]
  have spaceNil : Space layout phys.mem root trapframe (ptes ++ []) := by
    rw [List.append_nil]
    exact space
  obtain ⟨after, free', outcome⟩ := allocLoop_spec (pagesFor newsz.toNat - ptes.length) spaceNil owned
  rw [List.length_nil, Nat.add_zero, List.append_nil] at outcome
  refine ⟨after, free', ?_⟩
  rcases outcome with ⟨new, looped, count, extended⟩ | failed
  · exact .inl ⟨new, looped, by omega, extended⟩
  · exact .inr failed

end

end Xv6.Vm
