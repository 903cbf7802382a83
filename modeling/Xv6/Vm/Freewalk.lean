import Xv6.Vm.Mapping

namespace Xv6.Vm

open Xv6.Data

/-! # freewalk gives back every page table once -/

variable {layout : Layout} {phys : Phys} {root table : Word} {free : List Word} {height : Nat}

/-- The page tables below a table of some level. -/
def tablesBelow (mem : Memory) (height : Nat) (table : Word) : List Word :=
  Radix.nodes slots below (pteAt mem) height table

/-- The page tables below one entry. -/
def tablesAt (mem : Memory) (height : Nat) (table : Word) (i : Fin 512) : List Word :=
  (below (pteAt mem table i)).elim [] (tablesBelow mem height)

/-- All leaves were removed, and links have no permissions. -/
def Emptied (mem : Memory) : Nat → Word → Prop
  | 0, table => ∀ i, valid (pteAt mem table i) = false
  | height + 1, table => ∀ i, valid (pteAt mem table i) = true →
      pteAt mem table i &&& (PTE_R ||| PTE_W ||| PTE_X) = 0 ∧
        Emptied mem height (PTE2PA (pteAt mem table i))

variable {mem : Memory} {i : Fin 512}

theorem tablesAt_valid (present : valid (pteAt mem table i) = true) :
    tablesAt mem height table i = tablesBelow mem height (PTE2PA (pteAt mem table i)) := by
  rw [tablesAt, below, if_pos present, Option.elim_some]

theorem tablesAt_invalid (vacant : valid (pteAt mem table i) = false) :
    tablesAt mem height table i = [] := by
  rw [tablesAt, below, vacant]
  rfl

variable {after : Memory}

theorem tablesBelow_congr (same : ∀ other ∈ tablesBelow mem height table, after other = mem other) :
    tablesBelow after height table = tablesBelow mem height table :=
  Radix.nodes_congr mem_slots fun other member slot => by
    rw [pteAt, same other (Radix.inner_subset mem_slots member), pteAt]

theorem tablesAt_congr (here : pteAt after table i = pteAt mem table i)
    (same : ∀ other ∈ tablesAt mem height table i, after other = mem other) :
    tablesAt after height table i = tablesAt mem height table i := by
  cases present : valid (pteAt mem table i) with
  | false => rw [tablesAt_invalid present, tablesAt_invalid (by rw [here, present])]
  | true =>
    rw [tablesAt_valid present] at same ⊢
    rw [tablesAt_valid (by rw [here, present]), here, tablesBelow_congr same]

theorem Emptied.congr (emptied : Emptied mem height table)
    (same : ∀ other ∈ tablesBelow mem height table, after other = mem other) :
    Emptied after height table := by
  induction height generalizing table with
  | zero =>
    intro i
    rw [pteAt, same table Radix.mem_nodes_root]
    exact emptied i
  | succ height ih =>
    intro i
    rw [pteAt, same table Radix.mem_nodes_root]
    intro present
    obtain ⟨bare, deeper⟩ := emptied i present
    refine ⟨bare, ih deeper fun other member => same other ?_⟩
    exact Radix.mem_nodes_below mem_slots (if_pos present) member

/-- What a call on a table of the next level does. -/
def Frees (layout : Layout) (height : Nat) (release : Word → Phys → Except Panic Phys) : Prop :=
  ∀ table phys free, Owned layout phys (tablesBelow phys.mem height table) free →
    Emptied phys.mem height table →
    ∃ after free', release table phys = .ok after ∧
      Change phys (tablesBelow phys.mem height table) free after [] free'

theorem freeEntry_invalid {release : Word → Phys → Except Panic Phys}
    (vacant : valid (pteAt phys.mem table i) = false) :
    freeEntry release table phys i = .ok phys := by
  simp [freeEntry, vacant]

/-- The tables below the remaining entries are not touched by freeing those below one. -/
theorem remaining_kept {middle : Phys} {todo : List (Fin 512)} {free' : List Word}
    (owned : Owned layout phys (tablesAt phys.mem height table i ++
      (todo.flatMap (tablesAt phys.mem height table) ++ [table])) free)
    (change : Change phys (tablesAt phys.mem height table i) free middle [] free')
    (fresh : i ∉ todo) :
    ∀ j ∈ todo, pteAt (middle.setPte table i 0).mem table j = pteAt phys.mem table j ∧
      ∀ other ∈ tablesAt phys.mem height table j,
        (middle.setPte table i 0).mem other = phys.mem other := by
  obtain ⟨-, rest, apart⟩ := List.nodup_append.mp (List.nodup_append.mp owned.distinct).1
  have outside : ∀ other ∈ todo.flatMap (tablesAt phys.mem height table) ++ [table],
      middle.mem other = phys.mem other := by
    intro other member
    refine change.elsewhere other fun inside => ?_
    rcases List.mem_append.mp inside with left | right
    · exact apart other left other member rfl
    · exact owned.apart (List.mem_append_right _ member) right
  intro j member
  constructor
  · rw [pteAt_setPte_of_ne fun _ => ne_of_mem_of_not_mem member fresh, pteAt,
      outside table (by simp), pteAt]
  · intro other inside
    have listed : other ∈ todo.flatMap (tablesAt phys.mem height table) :=
      List.mem_flatMap.mpr ⟨j, member, inside⟩
    have notTable : other ≠ table :=
      (List.nodup_append.mp rest).2.2 other listed table List.mem_cons_self
    rw [setPte_other notTable, outside other (List.mem_append_left _ listed)]

theorem freeEntries_spec {release : Word → Phys → Except Panic Phys}
    (frees : Frees layout height release) (todo : List (Fin 512)) (distinct : todo.Nodup)
    (owned : Owned layout phys (todo.flatMap (tablesAt phys.mem height table) ++ [table]) free)
    (emptied : ∀ i ∈ todo, valid (pteAt phys.mem table i) = true →
      pteAt phys.mem table i &&& (PTE_R ||| PTE_W ||| PTE_X) = 0 ∧
        Emptied phys.mem height (PTE2PA (pteAt phys.mem table i))) :
    ∃ after free', todo.foldlM (freeEntry release table) phys = .ok after ∧
      Change phys (todo.flatMap (tablesAt phys.mem height table) ++ [table]) free after [table] free' := by
  induction todo generalizing phys free with
  | nil => exact ⟨phys, free, rfl, .refl owned.list⟩
  | cons i todo ih =>
    obtain ⟨fresh, distinct⟩ := List.nodup_cons.mp distinct
    rw [List.flatMap_cons, List.append_assoc] at owned ⊢
    rw [List.foldlM_cons]
    cases present : valid (pteAt phys.mem table i) with
    | false =>
      rw [tablesAt_invalid present, List.nil_append] at owned ⊢
      rw [freeEntry_invalid present, ok_bind]
      exact ih distinct owned fun j member => emptied j (List.mem_cons_of_mem _ member)
    | true =>
      obtain ⟨bare, deeper⟩ := emptied i List.mem_cons_self present
      have ownedHere := (owned.perm List.perm_append_comm).unframe
      have below : tablesAt phys.mem height table i =
          tablesBelow phys.mem height (PTE2PA (pteAt phys.mem table i)) := tablesAt_valid present
      obtain ⟨middle, free', released, change⟩ := frees _ phys free (below ▸ ownedHere) deeper
      rw [← below] at change
      have kept := remaining_kept owned change fresh
      have listed : todo.flatMap (tablesAt (middle.setPte table i 0).mem height table) =
          todo.flatMap (tablesAt phys.mem height table) :=
        List.flatMap_congr fun j member => tablesAt_congr (kept j member).1 (kept j member).2
      -- First the tables below this entry go, then the entry itself.
      have freed := (change.frame (todo.flatMap (tablesAt phys.mem height table) ++ [table])).perm
        List.perm_append_comm (.of_eq (List.append_nil _))
      have cleared := (freed.owned owned).setPte (List.mem_append_right _ List.mem_cons_self) i 0
      have ownedRest := cleared.owned (freed.owned owned)
      rw [← listed] at ownedRest
      obtain ⟨after, free'', folded, changeRest⟩ := ih distinct ownedRest fun j member => by
        obtain ⟨same, tablesSame⟩ := kept j member
        rw [same]
        intro presentLater
        obtain ⟨bareLater, deeperLater⟩ := emptied j (List.mem_cons_of_mem _ member) presentLater
        refine ⟨bareLater, deeperLater.congr fun other inside => tablesSame other ?_⟩
        rw [tablesAt_valid presentLater]
        exact inside
      rw [listed] at changeRest
      refine ⟨after, free'', ?_, (freed.trans cleared).trans changeRest⟩
      simp only [freeEntry, present, bare, and_self, if_true, released, ok_bind]
      exact folded

theorem tablesBelow_succ (mem : Memory) :
    tablesBelow mem (height + 1) table = table :: slots.flatMap (tablesAt mem height table) := rfl

theorem freewalk_frees (height : Nat) : Frees layout height (freewalk layout (height + 1)) := by
  induction height with
  | zero =>
    intro table phys free owned emptied
    have walked : ∀ todo : List (Fin 512),
        todo.foldlM (freeEntry (freewalk layout 0) table) phys = .ok phys := by
      intro todo
      induction todo with
      | nil => rfl
      | cons i todo ih => rw [List.foldlM_cons, freeEntry_invalid (emptied i), ok_bind, ih]
    have alone : Owned layout phys (table :: []) free := owned
    obtain ⟨after, freed, change, _⟩ := alone.kfree
    exact ⟨after, table :: free, by rw [freewalk, walked, ok_bind, freed], change⟩
  | succ height ih =>
    intro table phys free owned emptied
    rw [tablesBelow_succ] at owned ⊢
    have order : (table :: slots.flatMap (tablesAt phys.mem height table)).Perm
        (slots.flatMap (tablesAt phys.mem height table) ++ [table]) :=
      (List.perm_append_singleton _ _).symm
    obtain ⟨middle, free', walked, change⟩ := freeEntries_spec ih slots slots_nodup
      (owned.perm order) fun i _ => emptied i
    have changeFirst := change.perm order.symm (.refl _)
    obtain ⟨after, freed, last, _⟩ := (changeFirst.owned owned).kfree
    refine ⟨after, table :: free', ?_, changeFirst.trans last⟩
    rw [freewalk]
    show (slots.foldlM _ phys >>= _) = _
    rw [walked, ok_bind, freed]

theorem Tree.emptied (tree : Tree phys.mem root)
    (vacant : ∀ page, page < PAGES → valid (entry phys.mem root page) = false) :
    Emptied phys.mem 2 root := by
  intro i first
  have upper : root ∈ upperTables phys.mem root := by simp [upperTables, Radix.inner]
  have linked : below (pteAt phys.mem root i) = some (PTE2PA (pteAt phys.mem root i)) := if_pos first
  refine ⟨tree.links root upper i first, fun j second => ?_⟩
  have middle : PTE2PA (pteAt phys.mem root i) ∈ upperTables phys.mem root :=
    Radix.mem_inner_below mem_slots linked (by simp [Radix.inner])
  refine ⟨tree.links _ middle j second, fun k => ?_⟩
  -- The entry is that of the page with these three indices.
  have bound : (i.val * 512 + j.val) * 512 + k.val < PAGES := by
    rw [PAGES]
    omega
  have high : digit 2 ((i.val * 512 + j.val) * 512 + k.val) = i := Fin.ext (by rw [digit]; simp only; omega)
  have mid : digit 1 ((i.val * 512 + j.val) * 512 + k.val) = j := Fin.ext (by rw [digit]; simp only; omega)
  have low : digit 0 ((i.val * 512 + j.val) * 512 + k.val) = k := Fin.ext (by rw [digit]; simp only; omega)
  have found : lastTable phys.mem root ((i.val * 512 + j.val) * 512 + k.val) =
      some (PTE2PA (pteAt phys.mem (PTE2PA (pteAt phys.mem root i)) j)) := by
    have further : below (pteAt phys.mem (PTE2PA (pteAt phys.mem root i)) j) = some _ := if_pos second
    simp only [lastTable, Radix.descend, high, mid, linked, further, Option.bind_some]
  have entryHere := vacant _ bound
  rwa [entry_of_found found, low] at entryHere

/-- A tree without leaves goes back to the free list, page by page. -/
theorem freewalk_spec (tree : Tree phys.mem root)
    (owned : Owned layout phys (tables phys.mem root) free)
    (vacant : ∀ page, page < PAGES → valid (entry phys.mem root page) = false) :
    ∃ after free', freewalk layout 3 root phys = .ok after ∧
      Change phys (tables phys.mem root) free after [] free' :=
  freewalk_frees 2 root phys free owned (tree.emptied vacant)

end Xv6.Vm
