import Xv6.Kernel.Image

namespace Xv6.Kernel

open Xv6.Data Xv6.Vm

attribute [local irreducible] tables upperTables lastTable entry

/-! # Growing and shrinking a process -/

/-- From the entries `ptes` to the entries `ptes'`: what both have stays, and what is new
is zero. -/
structure Resized (layout : Layout) (root trapframe : Word) (ptes ptes' : List Word) (phys : Phys)
    (free : List Word) (after : Phys) (free' : List Word) : Prop where
  space : Space layout after.mem root trapframe ptes'
  change : Change phys (framesOf ptes ++ tables phys.mem root) free after
    (framesOf ptes' ++ tables after.mem root) free'
  kept : ∀ page, page < ptes.length → page < ptes'.length → ptes'[page]? = ptes[page]?
  bytes : ∀ (page : Nat) pte, ptes[page]? = some pte → ptes'[page]? = some pte →
    after.mem (PTE2PA pte) = phys.mem (PTE2PA pte)
  zeros : ∀ page pte, ptes.length ≤ page → ptes'[page]? = some pte →
    after.mem (PTE2PA pte) = fun _ => 0

section

variable {layout : Layout} {phys after : Phys} {root trapframe : Word} {ptes new free free' : List Word}

theorem frame_outside {pages : List Word} (owned : Owned layout phys (framesOf ptes ++ pages) free)
    {pte : Word} (member : pte ∈ ptes) : PTE2PA pte ∉ pages ++ free := fun other => by
  have distinct := owned.distinct
  rw [List.append_assoc] at distinct
  exact (List.nodup_append.mp distinct).2.2 (PTE2PA pte) (List.mem_map_of_mem member) _ other rfl

theorem Resized.refl (space : Space layout phys.mem root trapframe ptes) (list : FreeList phys free) :
    Resized layout root trapframe ptes ptes phys free phys free := by
  refine ⟨space, .refl list, fun _ _ _ => rfl, fun _ _ _ _ => rfl, fun page pte above found => ?_⟩
  obtain ⟨below, _⟩ := List.getElem?_eq_some_iff.mp found
  omega

theorem Resized.of_extended (extended : Extended layout root trapframe ptes phys free new after free')
    (owned : Owned layout phys (framesOf ptes ++ tables phys.mem root) free) :
    Resized layout root trapframe ptes (ptes ++ new.map userPte) phys free after free' := by
  refine ⟨extended.space, ?_, ?_, ?_, ?_⟩
  · rw [framesOf_append, framesOf_userPte extended.aligned, List.append_assoc]
    exact extended.change.frame (framesOf ptes)
  · intro page below _
    exact List.getElem?_append_left below
  · intro page pte found _
    exact extended.change.elsewhere _ (frame_outside owned (List.mem_of_getElem? found))
  · intro page pte above found
    rw [List.getElem?_append_right above, List.getElem?_map] at found
    obtain ⟨frame, isNew, rfl⟩ := Option.map_eq_some_iff.mp found
    have member := List.mem_of_getElem? isNew
    rw [(userLeaf (extended.aligned frame member)).maps]
    exact extended.zeros frame member

theorem Resized.shrunk {count : Nat} (space : Space layout after.mem root trapframe (ptes.take count))
    (same : tables after.mem root = tables phys.mem root)
    (change : Change phys (framesOf (ptes.drop count) ++ tables phys.mem root) free after
      (tables phys.mem root) free')
    (owned : Owned layout phys (framesOf ptes ++ tables phys.mem root) free) :
    Resized layout root trapframe ptes (ptes.take count) phys free after free' := by
  have parts : framesOf ptes = framesOf (ptes.take count) ++ framesOf (ptes.drop count) := by
    rw [← framesOf_append, List.take_append_drop]
  refine ⟨space, ?_, ?_, ?_, ?_⟩
  · rw [same, parts, List.append_assoc]
    exact change.frame (framesOf (ptes.take count))
  · intro page _ below
    rw [List.length_take] at below
    exact List.getElem?_take_of_lt (by omega)
  · intro page pte _ found
    rw [parts, List.append_assoc] at owned
    exact change.elsewhere _ (frame_outside owned (List.mem_of_getElem? found))
  · intro page pte above found
    obtain ⟨below, _⟩ := List.getElem?_eq_some_iff.mp found
    rw [List.length_take] at below
    omega

variable {ptes' : List Word} {va : Word}

theorem Resized.byteAt_kept
    (resized : Resized layout root trapframe ptes ptes' phys free after free')
    (before : Space layout phys.mem root trapframe ptes) (below : pageOf va < ptes.length)
    (still : pageOf va < ptes'.length) : byteAt after.mem root va = byteAt phys.mem root va := by
  have found := List.getElem?_eq_getElem below
  have foundNow := (resized.kept _ below still).trans found
  rw [byteAt, byteAt, mapping_user before found, mapping_user resized.space foundNow, Option.map_some,
    Option.map_some, resized.bytes _ _ found foundNow]

theorem Resized.byteAt_new
    (resized : Resized layout root trapframe ptes ptes' phys free after free')
    (above : ptes.length ≤ pageOf va) (below : pageOf va < ptes'.length) :
    byteAt after.mem root va = some 0 := by
  have found := List.getElem?_eq_getElem below
  rw [byteAt, mapping_user resized.space found, Option.map_some, resized.zeros _ _ above found]

end

section

variable {layout : Layout} {phys after : Phys} {proc : Proc} {free : List Word} {n : BitVec 32}

theorem size_small (owned : Owned layout phys (userPages phys.mem proc) free) :
    proc.sz.toNat ≤ 2 ^ 27 := by
  have few := owned.few
  rw [userPtes_length, pagesFor, PGSIZE] at few
  omega

theorem uint_size (small : proc.sz.toNat ≤ 2 ^ 27) : (proc.sz.setWidth 32).setWidth 64 = proc.sz := by
  apply BitVec.eq_of_toNat_eq
  rw [BitVec.toNat_setWidth, BitVec.toNat_setWidth]
  omega

theorem uint_sum (small : proc.sz.toNat ≤ 2 ^ 27) (within : 0 ≤ (proc.sz.toNat : Int) + n.toInt) :
    (((proc.sz.setWidth 32 + n).setWidth 64).toNat : Int) = proc.sz.toNat + n.toInt := by
  have range := n.isLt
  rw [BitVec.toInt_eq_toNat_cond] at within ⊢
  rw [BitVec.toNat_setWidth, BitVec.toNat_add, BitVec.toNat_setWidth]
  split at within <;> rename_i sign
  · rw [if_pos sign]
    omega
  · rw [if_neg sign]
    omega

theorem uint_roundtrip (sz : BitVec 32) : ((sz.setWidth 64).setWidth 32).setWidth 64 = sz.setWidth 64 := by
  apply BitVec.eq_of_toNat_eq
  have range := sz.isLt
  simp only [BitVec.toNat_setWidth]
  omega

/-- `growproc` when the new size is not below zero: it resizes the process, or it has no memory
to grow it and leaves it as it was. -/
theorem growproc_spec (image : Image layout phys.mem proc)
    (owned : Owned layout phys (userPages phys.mem proc) free)
    (within : 0 ≤ (proc.sz.toNat : Int) + n.toInt) :
    ∃ after free',
      (∃ sz ptes, growproc layout n proc phys = .ok (0, { proc with sz }, after) ∧
        (sz.toNat : Int) = proc.sz.toNat + n.toInt ∧ ptes.length = pagesFor sz.toNat ∧
        Resized layout proc.pagetable proc.trapframe (userPtes phys.mem proc) ptes phys free after
          free') ∨
      (growproc layout n proc phys = .ok (-1, proc, after) ∧ 0 < n.toInt ∧
        Resized layout proc.pagetable proc.trapframe (userPtes phys.mem proc) (userPtes phys.mem proc)
          phys free after free') := by
  have small := size_small owned
  have sum := uint_sum small within
  have size : (userPtes phys.mem proc).length = pagesFor proc.sz.toNat := userPtes_length
  unfold growproc
  simp only [uint_size small]
  by_cases grows : n.toInt > 0
  · rw [if_pos grows]
    obtain ⟨after, free', outcome⟩ := uvmalloc_spec image owned size (by omega)
      (show proc.sz.toNat ≤ ((proc.sz.setWidth 32 + n).setWidth 64).toNat by omega)
    refine ⟨after, free', ?_⟩
    rcases outcome with ⟨new, allocated, count, extended⟩ | ⟨failed, spaceAfter, change⟩
    · have nonzero : ((proc.sz.setWidth 32 + n).setWidth 64).setWidth 32 ≠ 0 := fun zero => by
        have back := uint_roundtrip (proc.sz.setWidth 32 + n)
        rw [zero] at back
        rw [← back] at sum
        simp only [BitVec.toNat_setWidth, BitVec.ofNat_eq_ofNat, BitVec.toNat_ofNat] at sum
        omega
      refine .inl ⟨_, _, ?_, sum, ?_, Resized.of_extended extended owned⟩
      · simp only [allocated, ok_bind, nonzero, if_false, uint_roundtrip]
      · rw [List.length_append, List.length_map, count]
    · refine .inr ⟨?_, grows, spaceAfter, change.frame _, fun _ _ _ => rfl, ?_, ?_⟩
      · simp only [failed, ok_bind]
        rw [if_pos (by decide)]
      · intro page pte found _
        exact change.elsewhere _ (frame_outside owned (List.mem_of_getElem? found))
      · intro page pte above found
        obtain ⟨below, _⟩ := List.getElem?_eq_some_iff.mp found
        omega
  rw [if_neg grows]
  by_cases shrinks : n.toInt < 0
  · rw [if_pos shrinks]
    obtain ⟨after, free', freed, spaceAfter, same, change⟩ := uvmdealloc_spec image owned size (by omega)
      (show ((proc.sz.setWidth 32 + n).setWidth 64).toNat ≤ proc.sz.toNat by omega)
    refine ⟨after, free', .inl ⟨_, _, ?_, sum, ?_, .shrunk spaceAfter same change owned⟩⟩
    · simp only [freed, ok_bind, uint_roundtrip]
    · rw [List.length_take, size]
      refine Nat.min_eq_left ?_
      rw [pagesFor, pagesFor]
      exact Nat.div_le_div_right (by omega)
  · rw [if_neg shrinks]
    refine ⟨phys, free, .inl ⟨proc.sz, _, rfl, ?_, size, .refl image owned.list⟩⟩
    omega

theorem pageOf_lt_pagesFor {va : Word} {sz : Nat} (below : va.toNat < sz) : pageOf va < pagesFor sz := by
  rw [pageOf, pagesFor, PGSIZE]
  omega

/-- Below minus its size, `growproc` reports a success and does nothing. -/
theorem growproc_below (owned : Owned layout phys (userPages phys.mem proc) free) (n : BitVec 32)
    (below : (proc.sz.toNat : Int) + n.toInt < 0) :
    growproc layout n proc phys = .ok (0, proc, phys) := by
  have small := size_small owned
  have range := n.isLt
  have wraps : (proc.sz.setWidth 32 + n).setWidth 64 ≥ proc.sz := by
    rw [BitVec.toInt_eq_toNat_cond] at below
    rw [ge_iff_le, BitVec.le_def, BitVec.toNat_setWidth, BitVec.toNat_add, BitVec.toNat_setWidth]
    split at below <;> omega
  unfold growproc
  simp only [uint_size small]
  rw [if_neg (by omega), if_pos (by omega), uvmdealloc, if_pos wraps, ok_bind]
  simp only [uint_size small]

/-- `growproc` does what it reports: it resizes the process, or it leaves it as it was. -/
def Reports (layout : Layout) (n : BitVec 32) (proc : Proc) (phys : Phys) : Prop :=
  ∃ result proc' after, growproc layout n proc phys = .ok (result, proc', after) ∧
    (result = 0 ∨ result = -1) ∧
    (result = 0 ↔
      (proc'.sz.toNat : Int) = proc.sz.toNat + n.toInt ∧
      (∀ page, page < PAGES → page ≠ trapframePage → page ≠ trampolinePage →
        ((mapping after.mem proc'.pagetable page).isSome ↔ page < pagesFor proc'.sz.toNat)) ∧
      (∀ va : Word, va.toNat < min proc.sz.toNat proc'.sz.toNat →
        byteAt after.mem proc'.pagetable va = byteAt phys.mem proc.pagetable va) ∧
      ∀ va : Word, pagesFor proc.sz.toNat ≤ pageOf va → pageOf va < pagesFor proc'.sz.toNat →
        byteAt after.mem proc'.pagetable va = some 0) ∧
    (result = -1 → proc' = proc ∧
      (∀ page, page < PAGES →
        mapping after.mem proc.pagetable page = mapping phys.mem proc.pagetable page) ∧
      ∀ va : Word, va.toNat < proc.sz.toNat →
        byteAt after.mem proc.pagetable va = byteAt phys.mem proc.pagetable va)

/-- `growproc` does what it reports exactly if the new size is not below zero. -/
theorem growproc_reports (image : Image layout phys.mem proc)
    (owned : Owned layout phys (userPages phys.mem proc) free) (n : BitVec 32) :
    Reports layout n proc phys ↔ 0 ≤ (proc.sz.toNat : Int) + n.toInt := by
  constructor
  · rintro ⟨result, proc', after, done, _, success, _⟩
    by_contra negative
    rw [growproc_below owned n (by omega)] at done
    cases done
    have sum := (success.mp rfl).1
    omega
  intro within
  have length : (userPtes phys.mem proc).length = pagesFor proc.sz.toNat := userPtes_length
  obtain ⟨after, free', outcome⟩ := growproc_spec image owned within
  rcases outcome with ⟨sz, ptes, done, sum, size, resized⟩ | ⟨failed, grows, resized⟩
  · refine ⟨0, _, after, done, .inl rfl, ⟨fun _ => ⟨sum, ?_, ?_, ?_⟩, fun _ => rfl⟩, nofun⟩
    · intro page inside notTrapframe notTrampoline
      rw [← size]
      exact mapping_isSome resized.space inside notTrapframe notTrampoline
    · intro va below
      apply resized.byteAt_kept image
      · rw [length]
        exact pageOf_lt_pagesFor (by omega)
      · rw [size]
        exact pageOf_lt_pagesFor (Nat.lt_of_lt_of_le below (Nat.min_le_right _ _))
    · intro va above below
      exact resized.byteAt_new (length ▸ above) (size ▸ below)
  · refine ⟨-1, proc, after, failed, .inr rfl, ⟨nofun, fun all => ?_⟩, fun _ => ⟨rfl, ?_, ?_⟩⟩
    · exact absurd all.1 (by omega)
    · exact fun page inside => mapping_same image resized.space inside
    · intro va below
      have page := pageOf_lt_pagesFor below
      exact resized.byteAt_kept image (by omega) (by omega)

end

/-! A process with one page, on a machine with nine. -/

def sampleFree : List Word :=
  [0x80021000, 0x80022000, 0x80023000, 0x80024000, 0x80025000, 0x80026000, 0x80027000, 0x80028000]

def sampleBoot : Except Vm.Panic Phys := freerange sampleLayout sampleFree ⟨fun _ _ => 0, 0⟩

def sampleTrapframe : Word := 0x80020000

/-- The process with that size and page table. -/
def sampleProc (pagetable sz : Word) : Proc where
  sz := sz
  pagetable := pagetable
  trapframe := sampleTrapframe
  name := fun _ => 0

/-- `proc_pagetable`, and `uvmalloc` for one page. -/
def sampleTable : Except Vm.Panic (Word × Phys) := do
  let phys ← sampleBoot
  procPagetable sampleLayout sampleTrapframe phys

def sampleSpace : Except Vm.Panic (Word × Phys) := do
  let (pagetable, phys) ← sampleTable
  uvmalloc sampleLayout pagetable 0 0x1000 phys

theorem sampleTable_root : sampleTable.map Prod.fst = .ok 0x80028000 := by decide +kernel

theorem sampleSpace_size : sampleSpace.map Prod.fst = .ok 0x1000 := by decide +kernel

theorem sample_image : ∃ phys free, Image sampleLayout phys.mem (sampleProc 0x80028000 0x1000) ∧
    Owned sampleLayout phys (userPages phys.mem (sampleProc 0x80028000 0x1000)) free := by
  have real : ∀ page ∈ sampleFree ++ [], IsFrame sampleLayout page := fun page member => by
    simp only [sampleFree, List.append_nil, List.mem_cons, List.not_mem_nil, or_false] at member
    rcases member with rfl | rfl | rfl | rfl | rfl | rfl | rfl | rfl <;> decide
  have owned : Owned sampleLayout ⟨fun _ _ => 0, 0⟩ sampleFree [] := ⟨rfl, by decide, real⟩
  obtain ⟨booted, freed, boot⟩ := freerange_spec owned
  have ownedBoot := boot.owned owned
  have made : sampleTable = procPagetable sampleLayout sampleTrapframe booted := by
    rw [sampleTable, sampleBoot, freed, ok_bind]
  have isRoot := sampleTable_root
  have isSize := sampleSpace_size
  rw [made] at isRoot
  rw [sampleSpace, made] at isSize
  obtain ⟨table, free', ⟨failed, _⟩ | ⟨root, nonzero, done, space, change⟩⟩ :=
    procPagetable_spec sampleTrapframe ownedBoot
  · rw [failed] at isRoot
    injection isRoot with wrong
    exact absurd (show (0 : Word) = 0x80028000 from wrong) (by decide)
  rw [done] at isRoot isSize
  injection isRoot with same
  subst same
  have ownedTable := change.owned ownedBoot
  obtain ⟨grown, free'', ⟨new, allocated, count, extended⟩ | ⟨failed, _⟩⟩ :=
    uvmalloc_spec space ownedTable (show _ = pagesFor (0 : Word).toNat from rfl) (by decide)
      (show _ ≤ (0x1000 : Word).toNat by decide)
  · have size : (new.map userPte).length = pagesFor (sampleProc 0x80028000 0x1000).sz.toNat := by
      rw [List.length_map]
      rw [List.length_nil, Nat.zero_add] at count
      exact count
    have spaceNow : Space sampleLayout grown.mem (sampleProc 0x80028000 0x1000).pagetable sampleTrapframe
        (new.map userPte) := extended.space
    refine ⟨grown, free'', .of_space spaceNow size, ?_⟩
    rw [userPages, userPtes_eq spaceNow size, framesOf_userPte extended.aligned]
    exact extended.change.owned ownedTable
  · simp only [ok_bind, failed] at isSize
    injection isSize with wrong
    exact absurd (show (0 : Word) = 0x1000 from wrong) (by decide)

/-- One page more. -/
theorem growproc_reports_page : ∃ phys free,
    Image sampleLayout phys.mem (sampleProc 0x80028000 0x1000) ∧
    Owned sampleLayout phys (userPages phys.mem (sampleProc 0x80028000 0x1000)) free ∧
    ∃ result proc' after, growproc sampleLayout 4096 (sampleProc 0x80028000 0x1000) phys =
      .ok (result, proc', after) ∧ (result = 0 → proc'.sz.toNat = 8192) := by
  obtain ⟨phys, free, image, owned⟩ := sample_image
  obtain ⟨result, proc', after, done, _, reports, _⟩ :=
    (growproc_reports image owned 4096).mpr (by decide)
  refine ⟨phys, free, image, owned, result, proc', after, done, fun success => ?_⟩
  have sum := (reports.mp success).1
  have size : (sampleProc 0x80028000 0x1000).sz.toNat = 4096 := rfl
  rw [size, show (4096 : BitVec 32).toInt = 4096 by decide] at sum
  omega

/-- `sbrk(-8192)` with one page: a success, and the size is the same. -/
theorem growproc_misreports : ∃ phys free,
    Image sampleLayout phys.mem (sampleProc 0x80028000 0x1000) ∧
    Owned sampleLayout phys (userPages phys.mem (sampleProc 0x80028000 0x1000)) free ∧
    ∃ proc' after, growproc sampleLayout (-8192) (sampleProc 0x80028000 0x1000) phys =
      .ok (0, proc', after) ∧ (proc'.sz.toNat : Int) ≠
        (sampleProc 0x80028000 0x1000).sz.toNat + (-8192 : BitVec 32).toInt := by
  obtain ⟨phys, free, image, owned⟩ := sample_image
  refine ⟨phys, free, image, owned, _, phys, growproc_below owned _ (by decide), by decide⟩

end Xv6.Kernel
