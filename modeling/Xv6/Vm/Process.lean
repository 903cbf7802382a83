import Xv6.Vm.Copy
import Xv6.Vm.Space

namespace Xv6.Vm

open Xv6.Data

attribute [local irreducible] tables upperTables lastTable entry

/-! # Making and freeing address spaces -/

section

variable {layout : Layout} {phys after : Phys} {root trapframe : Word} {ptes free free' : List Word}

/-! ## uvmfree and proc_freepagetable -/

theorem PGROUNDUP_div {sz : Word} (small : sz.toNat < 2 ^ 63) :
    PGROUNDUP sz / pageBytes = BitVec.ofNat 64 (pagesFor sz.toNat) := by
  apply BitVec.eq_of_toNat_eq
  have bound : pagesFor sz.toNat < 2 ^ 52 := by
    rw [pagesFor, PGSIZE]
    omega
  rw [PGROUNDUP_addressOf small, BitVec.toNat_udiv, addressOf_toNat bound, pageBytes_toNat,
    BitVec.toNat_ofNat, PGSIZE]
  omega

theorem uvmfree_spec (sz : Word) (tree : Tree phys.mem root)
    (owned : Owned layout phys (released true phys.mem root 0 (pagesFor sz.toNat) ++
      tables phys.mem root) free)
    (removable : ∀ page, page < pagesFor sz.toNat → Removable (entry phys.mem root page))
    (vacant : ∀ page, pagesFor sz.toNat ≤ page → page < PAGES → valid (entry phys.mem root page) = false)
    (inside : pagesFor sz.toNat ≤ MAXPAGES) (small : sz.toNat < 2 ^ 63) :
    ∃ after free', uvmfree layout root sz phys = .ok after ∧
      Change phys (released true phys.mem root 0 (pagesFor sz.toNat) ++ tables phys.mem root) free
        after [] free' := by
  rw [uvmfree]
  by_cases positive : sz > 0
  · rw [if_pos positive, PGROUNDUP_div small]
    obtain ⟨middle, free', unmapped, cleared⟩ := uvmunmap_spec (pagesFor sz.toNat)
      (by rwa [Nat.zero_add]) tree owned fun page _ upper => removable page (by omega)
    have vacantNow : ∀ page, page < PAGES → valid (entry middle.mem root page) = false := by
      intro page bound
      rw [cleared.entries page bound]
      split
      · rfl
      · exact vacant page (by omega) bound
    have change : Change phys (released true phys.mem root 0 (pagesFor sz.toNat) ++
        tables phys.mem root) free middle (tables middle.mem root) free' := by
      rw [cleared.same]
      exact cleared.change
    obtain ⟨after, free'', freed, rest⟩ := freewalk_spec cleared.tree
      (change.owned owned) vacantNow
    refine ⟨after, free'', ?_, change.trans rest⟩
    change uvmunmap layout root 0 _ true phys = _ at unmapped
    rw [unmapped, ok_bind]
    exact freed
  · have zero : sz.toNat = 0 := by
      rw [gt_iff_lt, BitVec.lt_def] at positive
      exact Nat.eq_zero_of_not_pos positive
    have none : pagesFor sz.toNat = 0 := by rw [zero]; rfl
    rw [none] at owned vacant ⊢
    rw [if_neg positive, ok_bind]
    exact freewalk_spec tree owned fun page bound => vacant page (Nat.zero_le _) bound

theorem TRAMPOLINE_eq : TRAMPOLINE = addressOf trampolinePage := by decide

theorem TRAPFRAME_eq : TRAPFRAME = addressOf trapframePage := by decide

theorem trapframe_removable (trapframe : Word) : Removable (leaf trapframe trapframePerm) :=
  leaf_removable (by decide) (by decide)

theorem trampoline_removable (layout : Layout) : Removable (leaf layout.trampoline trampolinePerm) :=
  leaf_removable (by decide) (by decide)

theorem unmapOne_spec (page : Nat) (inside : page < MAXPAGES) (tree : Tree phys.mem root)
    (owned : Owned layout phys (tables phys.mem root) free)
    (removable : Removable (entry phys.mem root page)) :
    ∃ after free', uvmunmap layout root (addressOf page) 1 false phys = .ok after ∧
      Unmapped false root page 1 phys free after free' :=
  uvmunmap_spec 1 inside tree owned fun other lower upper => by
    obtain rfl : other = page := by omega
    exact removable

/-- `proc_freepagetable` with the size of the space: all its pages are free again. -/
theorem procFreepagetable_spec {sz : Word} (space : Space layout phys.mem root trapframe ptes)
    (owned : Owned layout phys (framesOf ptes ++ tables phys.mem root) free)
    (size : ptes.length = pagesFor sz.toNat) (small : sz.toNat < 2 ^ 63) :
    ∃ after free', procFreepagetable layout root sz phys = .ok after ∧
      Change phys (framesOf ptes ++ tables phys.mem root) free after [] free' := by
  have fits := space.fits
  rw [trapframePage, MAXPAGES] at fits
  obtain ⟨middle, free', first, one⟩ := unmapOne_spec trampolinePage (by decide) space.tree owned.unframe
    (by rw [space.trampoline]; exact trampoline_removable layout)
  have changeOne : Change phys (tables phys.mem root) free middle (tables middle.mem root) free' := by
    rw [one.same]
    exact one.change
  obtain ⟨last, free'', second, two⟩ := unmapOne_spec trapframePage (by decide) one.tree
    (changeOne.owned owned.unframe) (by
      rw [one.entries _ (by decide), if_neg (by decide), space.trapframe]
      exact trapframe_removable trapframe)
  have changeTwo : Change middle (tables middle.mem root) free' last (tables last.mem root) free'' := by
    rw [two.same]
    exact two.change
  have entries : ∀ page, page < PAGES → entry last.mem root page =
      if page = trapframePage ∨ page = trampolinePage then 0 else entry phys.mem root page := by
    intro page inside
    rw [two.entries page inside, one.entries page inside]
    by_cases trap : page = trapframePage
    · rw [if_pos (by omega), if_pos (.inl trap)]
    · rw [if_neg (by omega)]
      by_cases text : page = trampolinePage
      · rw [if_pos (by omega), if_pos (.inr text)]
      · rw [if_neg (by omega), if_neg (by omega)]
  have frames : released true last.mem root 0 (pagesFor sz.toNat) = framesOf ptes := by
    have whole := space.released (Nat.zero_le _)
    rw [Nat.sub_zero, List.drop_zero, size] at whole
    rw [← whole]
    refine released_congr fun page _ upper => ?_
    rw [entries page (by rw [PAGES]; omega),
      if_neg (by rw [trapframePage, trampolinePage, MAXPAGES]; omega)]
  have change := (changeOne.trans changeTwo).frame (framesOf ptes)
  obtain ⟨after, free''', freed, rest⟩ := uvmfree_spec sz two.tree
    (by rw [frames]; exact change.owned owned)
    (fun page below => by
      have inside : page < ptes.length := by omega
      rw [entries page (by rw [PAGES]; omega),
        if_neg (by rw [trapframePage, trampolinePage, MAXPAGES]; omega),
        space.user page ptes[page] (List.getElem?_eq_getElem inside)]
      exact space.leaves _ (List.getElem_mem inside))
    (fun page above inside => by
      rw [entries page inside]
      split
      · rfl
      · rename_i other
        exact space.others page (by omega) inside (fun same => other (.inl same))
          fun same => other (.inr same))
    (by rw [MAXPAGES]; omega) small
  rw [frames] at rest
  refine ⟨after, free''', ?_, change.trans rest⟩
  rw [procFreepagetable, TRAMPOLINE_eq, TRAPFRAME_eq, first, ok_bind, second, ok_bind, freed]

/-! ## proc_pagetable -/

theorem uvmcreate_spec (owned : Owned layout phys [] free) :
    free = [] ∧ uvmcreate phys = (0, phys) ∨
      ∃ page rest after, uvmcreate phys = (page, after) ∧ page ≠ 0 ∧
        (∀ i, pteAt after.mem page i = 0) ∧ Change phys [] free after (tables after.mem page) rest := by
  rcases owned.kalloc with ⟨none, failed⟩ | ⟨page, rest, taken, rfl, allocated, real, change, same⟩
  · refine .inl ⟨none, ?_⟩
    simp only [uvmcreate, failed, if_true]
  · have fresh : ∀ i, pteAt (taken.memset page 0).mem page i = 0 := fun i => by
      rw [pteAt, Phys.memset, put_self, word_zero]
    refine .inr ⟨page, rest, taken.memset page 0, ?_, real, fresh, ?_⟩
    · simp only [uvmcreate, allocated, real, if_false]
    · rw [tables_fresh fresh]
      exact change.trans ((change.owned owned).put (List.mem_singleton_self page) _)

/-- An empty address space, or no memory was left. -/
theorem procPagetable_spec (trapframe : Word) (owned : Owned layout phys [] free) :
    ∃ after free', (procPagetable layout trapframe phys = .ok (0, after) ∧
        Change phys [] free after [] free') ∨
      ∃ root, root ≠ 0 ∧ procPagetable layout trapframe phys = .ok (root, after) ∧
        Space layout after.mem root trapframe [] ∧
        Change phys [] free after (tables after.mem root) free' := by
  rw [procPagetable, TRAMPOLINE_eq, TRAPFRAME_eq]
  rcases uvmcreate_spec owned with ⟨rfl, failed⟩ | ⟨root, rest, new, created, real, fresh, change⟩
  · exact ⟨phys, [], .inl ⟨by simp only [failed, if_true], .refl owned.list⟩⟩
  simp only [created, real, if_false]
  have ownedNew := change.owned owned
  have bare : ∀ page, entry new.mem root page = 0 := entry_fresh fresh
  obtain ⟨first, free₁, outcome⟩ := mapOne_spec layout.trampoline trampolinePerm
    (show trampolinePage < MAXPAGES by decide) (Tree.fresh fresh) ownedNew (by rw [bare]; rfl)
  rw [trampolinePerm] at outcome
  rcases outcome with ⟨stopped, rfl, mapped⟩ | ⟨done, mapped⟩
  · -- The page table itself goes.
    have changeFirst := change.trans mapped.change
    obtain ⟨after, free', freed, back⟩ := uvmfree_spec 0 mapped.tree
      (changeFirst.owned owned) nofun
      (fun page _ inside => by rw [mapped.entries page inside, if_neg (by omega), bare]; rfl)
      (by decide) (by decide)
    refine ⟨after, free', .inl ⟨?_, changeFirst.trans back⟩⟩
    simp only [stopped, ok_bind, freed, Int.reduceNeg, Int.reduceLT, if_true]
  have changeFirst := change.trans mapped.change
  have ownedFirst := changeFirst.owned owned
  have vacant : valid (entry first.mem root trapframePage) = false := by
    rw [mapped.entries _ (by decide), if_neg (by decide), bare]
    rfl
  obtain ⟨second, free₂, outcome⟩ := mapOne_spec trapframe trapframePerm
    (show trapframePage < MAXPAGES by decide) mapped.tree ownedFirst vacant
  simp only [done, ok_bind, Int.reduceLT, if_false]
  rw [trapframePerm] at outcome
  have trampoline : ∀ page, page < PAGES → entry first.mem root page =
      if page = trampolinePage then leaf layout.trampoline trampolinePerm else 0 := by
    intro page inside
    rw [mapped.entries page inside, bare]
    by_cases text : page = trampolinePage
    · rw [if_pos (by omega), if_pos text, text, Nat.sub_self, Nat.zero_mul, BitVec.add_zero,
        trampolinePerm]
    · rw [if_neg (by omega), if_neg text]
  rcases outcome with ⟨stopped, rfl, mapped'⟩ | ⟨finished, mapped'⟩
  · have changeSecond := changeFirst.trans mapped'.change
    have same : ∀ page, page < PAGES → entry second.mem root page = entry first.mem root page :=
      fun page inside => by rw [mapped'.entries page inside, if_neg (by omega)]
    obtain ⟨third, free₃, unmapped, cleared⟩ := unmapOne_spec trampolinePage (by decide) mapped'.tree
      (changeSecond.owned owned) (by
        rw [same _ (by decide), trampoline _ (by decide), if_pos rfl]
        exact trampoline_removable layout)
    have changeThird : Change second (tables second.mem root) [] third (tables third.mem root) free₃ := by
      rw [cleared.same]
      exact cleared.change
    have whole := changeSecond.trans changeThird
    obtain ⟨after, free', freed, back⟩ := uvmfree_spec 0 cleared.tree (whole.owned owned) nofun
      (fun page _ inside => by
        rw [cleared.entries page inside]
        split
        · rfl
        · rw [same page inside, trampoline page inside, if_neg (by omega)]
          rfl)
      (by decide) (by decide)
    refine ⟨after, free', .inl ⟨?_, whole.trans back⟩⟩
    simp only [stopped, ok_bind, unmapped, freed, Int.reduceNeg, Int.reduceLT, if_true]
  · refine ⟨second, free₂, .inr ⟨root, real, ?_, ⟨mapped'.tree, nofun, nofun, Nat.zero_le _, ?_, ?_, ?_⟩,
      changeFirst.trans mapped'.change⟩⟩
    · simp only [finished, ok_bind, Int.reduceLT, if_false]
    · rw [mapped'.entries _ (by decide), if_pos (by omega), Nat.sub_self, Nat.zero_mul, BitVec.add_zero,
        trapframePerm]
    · rw [mapped'.entries _ (by decide), if_neg (by decide), trampoline _ (by decide), if_pos rfl]
    · intro page _ inside notTrapframe notTrampoline
      rw [mapped'.entries page inside, if_neg (by omega), trampoline page inside, if_neg notTrampoline]
      rfl

/-! ## The entries of a process -/

theorem entry_found {mem : Memory} {page : Nat} (present : valid (entry mem root page) = true) :
    ∃ table, lastTable mem root page = some table ∧ pteAt mem table (digit 0 page) = entry mem root page := by
  cases found : lastTable mem root page with
  | none =>
    rw [entry_of_missing found] at present
    cases present
  | some table => exact ⟨table, rfl, (entry_of_found found).symm⟩

end

section

variable {layout : Layout} {phys : Phys} {old new trapframe trapframe' : Word}
  {ptes copied free : List Word}

/-- Pages that are not the child's keep the parent's address space. -/
theorem Space.undisturbed {after : Phys} {pages pages' free' : List Word}
    (parent : Space layout phys.mem old trapframe ptes)
    (owned : Owned layout phys (framesOf ptes ++ tables phys.mem old ++ pages) free)
    (change : Change phys pages free after pages' free') :
    Space layout after.mem old trapframe ptes ∧ tables after.mem old = tables phys.mem old ∧
      ∀ frame ∈ framesOf ptes ++ tables phys.mem old, after.mem frame = phys.mem frame := by
  have same : ∀ frame ∈ framesOf ptes ++ tables phys.mem old, after.mem frame = phys.mem frame := by
    intro frame member
    refine change.elsewhere frame fun other => ?_
    have distinct := owned.distinct
    rw [List.append_assoc] at distinct
    exact (List.nodup_append.mp distinct).2.2 frame member frame other rfl
  have sameTables : ∀ table ∈ tables phys.mem old, after.mem table = phys.mem table :=
    fun table member => same table (List.mem_append_right _ member)
  exact ⟨parent.congr sameTables,
    tables_congr fun table member => sameTables table (upperTables_subset member), same⟩

end

/-! ## User access -/

section

variable {layout : Layout} {phys : Phys} {root trapframe : Word} {ptes free : List Word}

theorem leaf_not_user {pa : Word} {perm : BitVec 32} (small : (perm.signExtend 64 ||| PTE_V).toNat < 1024)
    (kernel : (perm.signExtend 64 ||| PTE_V) &&& PTE_U = 0) : isUser (leaf pa perm) = false := by
  rw [isUser, decide_eq_false_iff_not]
  rintro ⟨_, user⟩
  rw [leaf, BitVec.or_assoc, ← and_flags (by decide), PTE_FLAGS_or pa small] at user
  exact user kernel

theorem Space.frame_mem (space : Space layout phys.mem root trapframe ptes) {va frame : Word}
    (found : frameOf phys.mem root va = some frame) :
    ∃ pte, ptes[pageOf va]? = some pte ∧ PTE2PA pte = frame := by
  rw [frameOf, Option.ite_none_right_eq_some, Option.some.injEq] at found
  obtain ⟨⟨inside, user⟩, isFrame⟩ := found
  have bound : pageOf va < PAGES := by
    rw [BitVec.lt_def, MAXVA_toNat] at inside
    rw [pageOf, PAGES, PGSIZE]
    omega
  rcases Nat.lt_or_ge (pageOf va) ptes.length with below | above
  · have isPte := List.getElem?_eq_getElem below
    refine ⟨_, isPte, ?_⟩
    rw [← isFrame, space.user _ _ isPte]
  by_cases trap : pageOf va = trapframePage
  · rw [trap, space.trapframe, leaf_not_user (by decide) (by decide)] at user
    cases user
  by_cases text : pageOf va = trampolinePage
  · rw [text, space.trampoline, leaf_not_user (by decide) (by decide)] at user
    cases user
  have invalid := space.others _ above bound trap text
  rw [isUser, decide_eq_true_eq] at user
  rw [valid_iff.mpr user.1] at invalid
  cases invalid

theorem Space.userTable (space : Space layout phys.mem root trapframe ptes)
    (owned : Owned layout phys (framesOf ptes ++ tables phys.mem root) free) :
    UserTable phys.mem root := by
  have listed : ∀ va frame, frameOf phys.mem root va = some frame → frame ∈ framesOf ptes := by
    intro va frame found
    obtain ⟨pte, isPte, rfl⟩ := space.frame_mem found
    exact List.mem_map_of_mem (List.mem_of_getElem? isPte)
  constructor
  · intro va frame found
    exact (owned.frames frame (List.mem_append_left _ (List.mem_append_left _ (listed va frame found)))).ne_zero
  · intro va frame found member
    have distinct := (List.nodup_append.mp owned.distinct).1
    exact (List.nodup_append.mp distinct).2.2 frame (listed va frame found) frame member rfl

theorem uvmclear_spec {page : Nat} {pte : Word} (space : Space layout phys.mem root trapframe ptes)
    (found : ptes[page]? = some pte) (removable : Removable (pte &&& ~~~PTE_U)) :
    ∃ after, uvmclear root (addressOf page) phys = .ok after ∧
      Space layout after.mem root trapframe (ptes.set page (pte &&& ~~~PTE_U)) ∧
      tables after.mem root = tables phys.mem root ∧ after.freelist = phys.freelist ∧
      ∀ other, other ∉ tables phys.mem root → after.mem other = phys.mem other := by
  obtain ⟨below, isPte⟩ := List.getElem?_eq_some_iff.mp found
  have fits := space.fits
  have present : valid pte = true := (space.leaves pte (List.mem_of_getElem? found)).1
  obtain ⟨table, reached, entryAt⟩ := entry_found
    (show valid (entry phys.mem root page) = true by rw [space.user page pte found]; exact present)
  rw [space.user page pte found] at entryAt
  have inside : page < PAGES := by
    rw [trapframePage, MAXPAGES] at fits
    rw [PAGES]
    omega
  have upper := setPte_upper space.tree reached (digit 0 page) (pte &&& ~~~PTE_U)
  have entries : ∀ other, other < PAGES →
      entry (phys.setPte table (digit 0 page) (pte &&& ~~~PTE_U)).mem root other =
        if other = page then pte &&& ~~~PTE_U else entry phys.mem root other := fun other otherInside =>
    entry_setPte space.tree inside otherInside reached _
  refine ⟨phys.setPte table (digit 0 page) (pte &&& ~~~PTE_U), ?_, ?_, tables_congr upper, rfl, ?_⟩
  · have low : page < MAXPAGES := by
      rw [trapframePage] at fits
      omega
    rw [uvmclear, walk_lookup (addressOf_lt low), ok_bind,
      pageOf_addressOf (by rw [MAXPAGES] at low; omega), reached]
    simp only [Option.map_some, entryAt]
  · refine ⟨space.tree.congr upper, ?_, ?_, by rw [List.length_set]; exact fits, ?_, ?_, ?_⟩
    · intro other otherPte isOther
      obtain ⟨otherBelow, _⟩ := List.getElem?_eq_some_iff.mp isOther
      rw [List.length_set] at otherBelow
      rw [entries other (by rw [trapframePage, MAXPAGES] at fits; rw [PAGES]; omega)]
      by_cases same : other = page
      · subst same
        rw [List.getElem?_set_self below] at isOther
        rw [if_pos rfl]
        exact Option.some.inj isOther
      · rw [List.getElem?_set_ne (Ne.symm same)] at isOther
        rw [if_neg same, space.user other otherPte isOther]
    · intro otherPte member
      rcases List.mem_or_eq_of_mem_set member with old | rfl
      · exact space.leaves otherPte old
      · exact removable
    · rw [entries _ (by decide), if_neg (by omega), space.trapframe]
    · rw [entries _ (by decide), if_neg (by rw [trampolinePage]; rw [trapframePage] at fits; omega),
        space.trampoline]
    · intro other above bound notTrapframe notTrampoline
      rw [List.length_set] at above
      rw [entries other bound, if_neg (by omega)]
      exact space.others other above bound notTrapframe notTrampoline
  · intro other outside
    exact setPte_other (ne_of_mem_of_not_mem (lastTable_mem reached) outside).symm _ _

end

end Xv6.Vm
