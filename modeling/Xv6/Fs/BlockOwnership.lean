import Xv6.Fs.Table

namespace Xv6.Fs

open Xv6.Data Xv6.Log Xv6.Transition

/-! # The inode operations keep block ownership exact -/

/-- The block number at a place of an allocated inode on disk. -/
def reference (sb : Superblock) (disk : Disk) : Place → Nat := (view sb disk).target

/-- Every data block in use is referred to from one place, and files have no holes. -/
structure Accounted (sb : Superblock) (disk : Disk) : Prop where
  marked : ∀ place, reference sb disk place ≠ 0 →
    sb.IsData (reference sb disk place) ∧ bit sb disk (reference sb disk place) = true
  unshared : ∀ place other, reference sb disk place ≠ 0 →
    reference sb disk place = reference sb disk other → place = other
  used : ∀ block, sb.IsData block → bit sb disk block = true → ∃! place, reference sb disk place = block
  bounded : ∀ inum, inum < sb.ninodes → (dinode sb disk inum).type ≠ 0 →
    (dinode sb disk inum).size ≤ MAXFILE * BSIZE
  dense : ∀ inum bn, inum < sb.ninodes → (dinode sb disk inum).type ≠ 0 →
    bn < ((dinode sb disk inum).size + (BSIZE - 1)) / BSIZE → reference sb disk (.ofBlock inum bn) ≠ 0

/-- `mkfs` marks the blocks below the data area and those of the files it writes. -/
structure WellFormed (sb : Superblock) (disk : Disk) : Prop where
  accounted : Accounted sb disk
  metadata : ∀ block, block < sb.dataStart → bit sb disk block = true

/-- After `fsinit`, with nothing in the inode table. -/
def machine (sb : Superblock) : Machine State Event where
  initial state := WellFormed sb state.fs.disk ∧ (∀ slot, (state.fs.itable slot).ref = 0) ∧
    state.panic = none
  step := step sb

section

variable {sb : Superblock} {disk : Disk}

theorem view_live {inum : Nat} (live : ((view sb disk).inode inum).type ≠ 0) :
    inum < sb.ninodes ∧ (view sb disk).inode inum = dinode sb disk inum := by
  by_cases inside : inum < sb.ninodes
  · exact ⟨inside, view_inode inside⟩
  · simp [view, inside] at live

theorem lt_ceil {bn size : Nat} : bn < (size + (BSIZE - 1)) / BSIZE ↔ bn * BSIZE < size := by
  simp only [BSIZE]
  omega

theorem WellFormed.owned (wellFormed : WellFormed sb disk) : Owned sb (view sb disk) := by
  obtain ⟨accounted, metadata⟩ := wellFormed
  have below : sb.dataStart ≤ sb.size := Nat.sub_le ..
  refine ⟨⟨?_, ?_, accounted.unshared, ?_⟩, ?_, ?_, ?_⟩
  · exact fun used => used.1.ne_zero rfl
  · intro place present
    obtain ⟨isData, marked⟩ := accounted.marked place present
    exact ⟨isData, (view_bit isData.2).trans marked⟩
  · intro block ⟨isData, marked⟩
    rw [view_bit isData.2] at marked
    exact (accounted.used block isData marked).exists
  · intro block inside
    exact (view_bit (Nat.lt_of_lt_of_le inside below)).trans (metadata block inside)
  · intro inum live
    obtain ⟨inside, same⟩ := view_live live
    rw [same] at live ⊢
    exact accounted.bounded inum inside live
  · intro inum bn live covered
    obtain ⟨inside, same⟩ := view_live live
    rw [same] at live covered
    exact accounted.dense inum bn inside live (lt_ceil.mpr covered)

theorem Owned.accounted (owned : Owned sb (view sb disk)) : Accounted sb disk := by
  have marked : ∀ place, reference sb disk place ≠ 0 →
      sb.IsData (reference sb disk place) ∧ bit sb disk (reference sb disk place) = true := by
    intro place present
    obtain ⟨isData, marked⟩ := owned.exact.marked place present
    exact ⟨isData, (view_bit isData.2).symm.trans marked⟩
  refine ⟨marked, owned.exact.unique, ?_, ?_, ?_⟩
  · intro block isData isMarked
    obtain ⟨place, rfl⟩ := owned.exact.covered block ⟨isData, (view_bit isData.2).trans isMarked⟩
    refine ⟨place, rfl, fun other equal => ?_⟩
    exact (owned.exact.unique place other isData.ne_zero equal.symm).symm
  · intro inum inside live
    rw [← view_inode inside] at live ⊢
    exact owned.size_le inum live
  · intro inum bn inside live covered
    rw [← view_inode inside] at live covered
    exact owned.solid inum bn live (lt_ceil.mp covered)

end

/-- All but the panics of `bfree` and `bmap`. -/
def Panic.blocksSound : Panic → Prop
  | .freeingFreeBlock | .outOfRange => False
  | _ => True

theorem Panic.sound.blocks (reason : Panic) (sound : reason.sound) : reason.blocksSound := by
  cases reason <;> trivial

variable {sb : Superblock} {fs : Store}

/-! ## Runs -/

theorem perform_spec (invariant : Invariant sb fs) {event : Event}
    (allowed : permitted sb fs event) :
    Ensures Panic.blocksSound (Invariant sb) (perform sb fs event) := by
  cases event with
  | iget inum =>
    exact ((iget_spec invariant allowed).mono_errors Panic.sound.blocks).bind fun _ kept => kept
  | idup slot => exact invariant.reref allowed _
  | ilock slot =>
    refine (ilock_spec invariant allowed).mono_errors fun reason known => ?_
    rcases known with sound | rfl
    · exact sound.blocks
    · trivial
  | ialloc type =>
    exact ((ialloc_spec invariant allowed.2).mono_errors Panic.sound.blocks).bind
      fun _ kept => kept
  | readi slot writable off n =>
    obtain ⟨held, valid, offFits, countFits⟩ := allowed
    obtain ⟨count, data, read, _⟩ := readi_spec (invariant.loaded held valid) writable offFits
      countFits
    have unchanged : fs.put slot (fs.itable slot).copy fs.disk = fs := by
      simp [Store.put]
    simp only [perform, read, ok_bind, unchanged, ensures_ok]
    exact invariant
  | writei slot source off n =>
    obtain ⟨held, valid, offFits, countFits⟩ := allowed
    obtain ⟨current, live⟩ := invariant.current slot held valid
    have written := writei_spec (invariant.loaded held valid) (invariant.inside slot held) current
      source offFits countFits
    refine Ensures.mono_errors (written.bind fun result kept => ?_) Panic.sound.blocks
    exact invariant.put held kept.1 (kept.2.1.type ▸ live)
  | itrunc slot =>
    obtain ⟨held, valid⟩ := allowed
    have loaded := invariant.loaded held valid
    obtain ⟨disk, truncated, stored⟩ := itrunc_spec loaded (invariant.inside slot held)
    simp only [perform, truncated, ok_bind, ensures_ok]
    exact invariant.put held stored loaded.live
  | dirlink slot name inum =>
    exact ((dirlink_spec invariant allowed.1 allowed.2 name inum).mono_errors
      Panic.sound.blocks).bind fun _ kept => kept
  | iput slot => exact (iput_spec invariant allowed).mono_errors Panic.sound.blocks
  | setLinks slot major minor nlink =>
    obtain ⟨held, valid, majorFits, minorFits, nlinkFits⟩ := allowed
    have loaded := invariant.loaded held valid
    have inside := invariant.inside slot held
    have stored := (loaded.stored inside (invariant.current slot held valid).1).iupdate
      (d := { (fs.itable slot).copy with major, minor, nlink }) inside
      ⟨loaded.fits.type, majorFits, minorFits, nlinkFits, loaded.fits.size, loaded.fits.addrs⟩
      (fun _ => rfl) fun live => Or.inr ⟨live, rfl⟩
    exact invariant.put held stored loaded.live

theorem step_invariant {before after : State} {event : Event} (invariant : Invariant sb before.fs)
    (sound : ∀ reason, before.panic = some reason → reason.blocksSound)
    (stepped : step sb before event = some after) :
    Invariant sb after.fs ∧ ∀ reason, after.panic = some reason → reason.blocksSound := by
  unfold step at stepped
  split at stepped
  · contradiction
  · split at stepped
    · rename_i allowed
      have spec := perform_spec invariant allowed
      split at stepped
      · rename_i fs performed
        rw [performed] at spec
        cases stepped
        exact ⟨spec, sound⟩
      · rename_i reason performed
        rw [performed] at spec
        cases stepped
        refine ⟨invariant, fun other equal => ?_⟩
        cases equal
        exact spec
    · contradiction

theorem reachable_invariant {state : State} (reached : Reachable (machine sb) state) :
    Invariant sb state.fs ∧ ∀ reason, state.panic = some reason → reason.blocksSound := by
  have initially : ∀ state, (machine sb).initial state →
      Invariant sb state.fs ∧ ∀ reason, state.panic = some reason → reason.blocksSound := by
    rintro state ⟨wellFormed, unused, running⟩
    refine ⟨⟨wellFormed.owned, ?_, ?_, ?_⟩, fun reason panicked => ?_⟩
    · intro slot _ inUse
      exact absurd (unused slot) (Nat.ne_of_gt inUse)
    · intro slot inUse
      exact absurd (unused slot) (Nat.ne_of_gt inUse)
    · intro slot inUse
      exact absurd (unused slot) (Nat.ne_of_gt inUse)
    · rw [running] at panicked
      cases panicked
  exact reached.invariant initially fun before event after kept stepped =>
    step_invariant kept.1 kept.2 stepped

/-- From any well-formed image the blocks stay accounted for, `bfree` and `bmap` do not
panic, and `readi` changes neither the disk nor the inode. -/
theorem blocks_accounted {state : State} (reached : Reachable (machine sb) state) :
    Accounted sb state.fs.disk ∧
      state.panic ≠ some .freeingFreeBlock ∧ state.panic ≠ some .outOfRange ∧
      ∀ slot writable off n, permitted sb state.fs (.readi slot writable off n) →
        ∃ count data, readi sb state.fs.disk (state.fs.itable slot).copy writable off n =
          .ok (count, data, (state.fs.itable slot).copy, state.fs.disk) := by
  obtain ⟨invariant, sound⟩ := reachable_invariant reached
  refine ⟨invariant.owned.accounted, fun panicked => ?_, fun panicked => ?_, ?_⟩
  · exact sound _ panicked
  · exact sound _ panicked
  · rintro slot writable off n ⟨held, valid, offFits, countFits⟩
    obtain ⟨count, data, read, _⟩ := readi_spec (invariant.loaded held valid) writable offFits
      countFits
    exact ⟨count, data, read⟩

/-- A disk without inodes, where only the blocks below the data area are marked. -/
theorem WellFormed.of_blank {disk : Disk}
    (blank : ∀ inum, inum < sb.ninodes → (dinode sb disk inum).type = 0)
    (clear : ∀ block, sb.IsData block → bit sb disk block = false)
    (metadata : ∀ block, block < sb.dataStart → bit sb disk block = true) : WellFormed sb disk := by
  have free : ∀ inum index, ((view sb disk).inode inum).addr index = 0 := by
    intro inum index
    refine if_pos (Decidable.byContradiction fun live => ?_)
    obtain ⟨inside, same⟩ := view_live live
    rw [same] at live
    exact live (blank inum inside)
  have unreferenced : ∀ place, reference sb disk place = 0 := by
    intro place
    cases place with
    | addr inum index => exact free inum index
    | indirect inum index => simp [reference, View.target, free]
  refine ⟨⟨?_, ?_, ?_, ?_, ?_⟩, metadata⟩
  · exact fun place present => absurd (unreferenced place) present
  · exact fun place _ present => absurd (unreferenced place) present
  · intro block isData marked
    rw [clear block isData] at marked
    cases marked
  · exact fun inum inside live => absurd (blank inum inside) live
  · exact fun inum _ inside live => absurd (blank inum inside) live

/-! An image with no files: one inode block, one bitmap block, ten data blocks. -/

def smallSuperblock : Superblock := ⟨20, 10, 15, 1, 2, by decide, by decide, by decide, by decide⟩

def smallDisk : Disk := Function.update (fun _ _ => 0) 2 fun index =>
  if index = 0 then 0xFF else if index = 1 then 3 else 0

def smallState : State where
  fs := ⟨smallDisk, fun _ => ⟨0, 0, false, freshDinode 0⟩⟩
  panic := none

theorem smallDisk_type {inum : Nat} (inside : inum < 15) :
    (dinode smallSuperblock smallDisk inum).type = 0 := by
  have block : smallSuperblock.IBLOCK inum = 1 := by
    simp only [Superblock.IBLOCK, smallSuperblock, IPB, BSIZE, dinodeSize]
    omega
  rw [dinode, block]
  rfl

theorem smallDisk_wellFormed : WellFormed smallSuperblock smallDisk := by
  have clear : ∀ block, block < 20 → 10 ≤ block → bit smallSuperblock smallDisk block = false := by
    decide +kernel
  refine .of_blank (fun inum => smallDisk_type) (fun block isData => clear block isData.2 isData.1) ?_
  show ∀ block, block < 10 → bit smallSuperblock smallDisk block = true
  decide +kernel

theorem smallState_initial : (machine smallSuperblock).initial smallState :=
  ⟨smallDisk_wellFormed, fun _ => rfl, rfl⟩

def slotZero : Fin NINODE := ⟨0, by decide⟩

/-- A write to a new file stops at a bad source address after allocating a block. -/
def badWrite : List Event :=
  let slot := slotZero
  [.ialloc 2, .ilock slot, .writei slot (fun index => if index < 3 then some 7 else none) 0 5]

theorem blocks_accounted_bad_write : ∃ state, Reachable (machine smallSuperblock) state ∧
    bit smallSuperblock state.fs.disk 10 = true ∧ Accounted smallSuperblock state.fs.disk := by
  have ran : (((machine smallSuperblock).execute smallState badWrite).map
      fun state => bit smallSuperblock state.fs.disk 10) = some true := by
    decide +kernel
  obtain ⟨state, executed, marked⟩ := Option.map_eq_some_iff.mp ran
  have reached := Reachable.of_execute smallState_initial executed
  exact ⟨state, reached, marked, (blocks_accounted reached).1⟩

end Xv6.Fs
