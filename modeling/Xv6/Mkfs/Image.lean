import Xv6.Mkfs.Files

namespace Xv6.Mkfs

open Xv6.Data Xv6.Log Xv6.Fs

/-! # The image that mkfs writes -/

variable {state image : State} {files : List File}

/-! ## The start -/

theorem blank_eq : blank = ⟨overwrite (fun _ => zeroes) 1 (zeroes.storeWords 0 superblock), FSSIZE, 1,
    nmeta⟩ := by
  have zeroed : ∀ n, n ≤ FSSIZE → (List.range n).foldl (fun state sec => wsect state sec zeroes)
      ⟨fun _ => zeroes, 0, 1, nmeta⟩ = ⟨fun _ => zeroes, n, 1, nmeta⟩ := by
    intro n inside
    induction n with
    | zero => rfl
    | succ n ih =>
      rw [List.range_succ, List.foldl_append, ih (Nat.le_of_succ_le inside), List.foldl_cons,
        List.foldl_nil, wsect, sector_eq (Nat.le_of_succ_le inside)]
      have same : overwrite (fun _ => zeroes) n zeroes = fun _ => zeroes := overwrite_eq_self ..
      simp only [same, Nat.max_eq_right (Nat.le_succ n)]
  rw [blank, zeroed FSSIZE (Nat.le_refl _), wsect, sector_eq (by decide)]
  rfl

theorem blank_blocks {block : Nat} (different : block ≠ 1) : blank.blocks block = zeroes := by
  simp only [blank_eq, overwrite_of_ne different]

theorem blank_sane : Sane blank := by
  refine ⟨by rw [blank_eq], by rw [blank_eq], by rw [blank_eq]; decide, fun block free _ => ?_⟩
  rw [blank_eq] at free
  have above : nmeta ≤ block := free
  have order : 1 < nmeta := by decide
  exact blank_blocks (by omega)

theorem blank_dinode {inum : Nat} (inside : inum < wide.ninodes) :
    dinode wide blank.disk inum = freshDinode 0 := by
  have bounds := IBLOCK_bounds inside
  have start : 1 < sb.inodestart := by decide
  rw [dinode, disk_of_ne (Nat.ne_of_lt bounds.2), blank_blocks (by omega)]
  rfl

theorem blank_target (place : Place) : blank.view.target place = 0 := by
  have free : ∀ inum, (blank.view.inode inum).type = 0 := by
    intro inum
    refine Decidable.byContradiction fun live => ?_
    obtain ⟨inside, same⟩ := view_live live
    rw [same, blank_dinode inside] at live
    exact live rfl
  cases place with
  | addr inum index => exact if_pos (free inum)
  | indirect inum index => exact if_neg fun both => both.1 (if_pos (free inum))

theorem blank_built : Built blank := by
  have marked : ∀ block, block < FSSIZE → (blank.view.bit block = true ↔ block < nmeta) := by
    intro block inside
    rw [view_bit inside, bit_disk inside, decide_eq_true_iff, blank_eq]
  refine ⟨blank_sane, ⟨⟨fun used => used.1.ne_zero rfl, ?_, ?_, ?_⟩, ?_, ?_, ?_⟩, ?_, ?_, ?_, ?_⟩
  · exact fun place present => absurd (blank_target place) present
  · exact fun place _ present => absurd (blank_target place) present
  · rintro block ⟨isData, isMarked⟩
    have below := (marked block isData.2).mp isMarked
    exact absurd isData.1 (Nat.not_le.mpr (dataStart_wide ▸ below))
  · intro block below
    rw [dataStart_wide] at below
    exact (marked block (Nat.lt_trans below (by decide))).mpr below
  · intro inum live
    obtain ⟨inside, same⟩ := view_live live
    rw [same, blank_dinode inside] at live
    exact absurd rfl live
  · intro inum bn live
    obtain ⟨inside, same⟩ := view_live live
    rw [same, blank_dinode inside] at live
    exact absurd rfl live
  · exact fun place present => absurd (blank_target place) present
  · exact fun _ _ _ present => absurd (blank_target _) present
  · exact fun inum _ inside => blank_dinode inside
  · simp only [blank_eq, overwrite_self]

/-! ## The program -/

/-- The root inode after its size is fixed. -/
def fixed (din : Dinode) : Dinode := { din with size := (din.size / BSIZE + 1) * BSIZE }

/-- The image, and the state before the size of the root is fixed. -/
structure Made (files : List File) (image state : State) : Prop where
  holds : Holds files state
  blocks : image.blocks =
    (state.put ROOTINO (fixed (dinode wide state.disk ROOTINO))).disk

theorem root_spec : ∃ state, Created blank T_DIR state ∧
    ialloc blank T_DIR = .ok (ROOTINO, state) := by
  have first : blank.freeinode = ROOTINO := by rw [blank_eq]; rfl
  obtain ⟨state, allocated, created⟩ := ialloc_spec blank_built
    (show blank.freeinode < wide.ninodes by rw [first]; decide) (show T_DIR < 2 ^ 16 by decide)
  rw [first] at allocated
  exact ⟨state, created, allocated⟩

theorem finish_spec (holds : Holds files state) : ∃ image, (do
      let state ← fixRoot ROOTINO state
      balloc state state.freeblock) = .ok image ∧ Made files image state := by
  have sane := holds.built.sane
  have rootInode : ROOTINO < wide.ninodes := by decide
  have after := sane.put rootInode (fixed (dinode wide state.disk ROOTINO))
  have small : state.freeblock < BSIZE * 8 := Nat.lt_of_le_of_lt sane.high (by decide)
  have fix : fixRoot ROOTINO state = .ok (state.put ROOTINO (fixed (dinode wide state.disk ROOTINO))) := by
    rw [fixRoot, sane.rinode rootInode, ok_bind]
    exact sane.winode rootInode _
  refine ⟨wsect (state.put ROOTINO (fixed (dinode wide state.disk ROOTINO))) sb.bmapstart
    (bitmap state.freeblock), ?_, holds, ?_⟩
  · rw [fix, ok_bind, balloc]
    exact if_pos small
  · rw [after.wsect (by decide)]
    rfl

theorem start_spec : ∃ state, Holds [] state ∧ ∀ files, mkfs files = (do
    let state ← files.foldlM (addFile ROOTINO) state
    let state ← fixRoot ROOTINO state
    balloc state state.freeblock) := by
  obtain ⟨state, created, allocated⟩ := root_spec
  have rootInode : ROOTINO < wide.ninodes := by decide
  have first : blank.freeinode = ROOTINO := by rw [blank_eq]; rfl
  have root := created.dinode
  have contents := created.contents
  rw [first] at root contents
  have start : state.freeblock = nmeta := created.freeblock.trans (by rw [blank_eq])
  have live : (dinode wide state.disk ROOTINO).type ≠ 0 := by
    rw [root]
    decide
  have size : (newDinode T_DIR).size = 0 := rfl
  have one := iappend_spec created.built rootInode live (direntBytes ROOTINO dot)
  rw [root, size, start, direntBytes_length] at one
  obtain ⟨state', wroteDot, dotted⟩ := one.exists_ok fun _ => by decide
  have live' : (dinode wide state'.disk ROOTINO).type ≠ 0 := by
    rw [dotted.agrees.type]
    exact live
  have size' := dotted.size
  have used' := dotted.freeblock
  rw [root, size, direntBytes_length] at size' used'
  have start' : state'.freeblock = nmeta + 1 := by
    rw [start] at used'
    exact used'
  have two := iappend_spec dotted.built rootInode live' (direntBytes ROOTINO dotdot)
  rw [size', start', direntBytes_length] at two
  obtain ⟨state'', wroteDotdot, both⟩ := two.exists_ok fun _ => by decide
  have used'' := both.freeblock
  rw [size', start', direntBytes_length] at used''
  refine ⟨state'', ⟨both.built, ?_, ?_, ?_, ?_, nofun, nofun⟩, fun files => ?_⟩
  · rw [both.freeinode, dotted.freeinode, created.freeinode, first]
    rfl
  · exact Nat.add_right_cancel used''
  · rw [both.agrees.type, dotted.agrees.type, root]
    rfl
  · rw [both.contents, dotted.contents, contents]
    simp [rootBytes, rootEntries]
  · rw [mkfs, allocated, ok_bind]
    simp only [if_true, wroteDot, ok_bind, wroteDotdot]

theorem mkfs_spec (few : files.length + 2 ≤ wide.ninodes) :
    (∀ image, mkfs files = .ok image → ∃ state, Made files image state) ∧
      (need files ≤ FSSIZE → (∀ file ∈ files, ¬file.Unfit) → ∃ image, mkfs files = .ok image) := by
  cases start_spec with
  | intro state started =>
    have spec : Ensures (fun _ => FSSIZE < need files ∨ ∃ file ∈ files, file.Unfit)
        (fun image => ∃ state, Made files image state) (do
          let state ← files.foldlM (addFile ROOTINO) state
          let state ← fixRoot ROOTINO state
          balloc state state.freeblock) := by
      refine (addFiles_spec started.1 files (by rw [List.length_nil]; omega)).bind
        fun last done => ?_
      obtain ⟨image, finished, made⟩ := finish_spec done
      rw [finished]
      exact ⟨last, made⟩
    rw [started.2 files]
    refine ⟨fun image done => ?_, fun fits fit => ?_⟩
    · rw [done] at spec
      exact spec
    · obtain ⟨image, done, _⟩ := spec.exists_ok fun _ unfit => by
        rcases unfit with full | ⟨file, member, unfit⟩
        · exact absurd fits (Nat.not_le.mpr full)
        · exact fit file member unfit
      exact ⟨image, done⟩

/-! ## The fixed root -/

section

variable (made : Made files image state)

include made

theorem Made.live : (dinode wide state.disk ROOTINO).type ≠ 0 := by
  rw [made.holds.root]
  decide

theorem Made.fixed_fits : (fixed (dinode wide state.disk ROOTINO)).Fits := by
  have bound := (made.holds.built.loaded (by decide) made.live).size_le
  obtain ⟨type, major, minor, nlink, _, addrs⟩ := @dinode_fits wide state.disk ROOTINO
  refine ⟨type, major, minor, nlink, ?_, addrs⟩
  show ((dinode wide state.disk ROOTINO).size / BSIZE + 1) * BSIZE < 2 ^ 32
  simp only [MAXFILE, NDIRECT, NINDIRECT, BSIZE] at bound ⊢
  omega

theorem Made.dinode_root :
    dinode sb image.blocks ROOTINO = fixed (dinode wide state.disk ROOTINO) := by
  rw [made.blocks, disk_put (by decide)]
  exact dinode_putDinode_self made.fixed_fits

theorem Made.dinode_other {inum : Nat} (different : inum ≠ ROOTINO) :
    dinode sb image.blocks inum = dinode wide state.disk inum := by
  rw [made.blocks, disk_put (by decide)]
  exact dinode_putDinode_other different

theorem Made.view_image : view wide image.blocks =
      state.view.put ROOTINO (fixed (dinode wide state.disk ROOTINO)) := by
  rw [made.blocks, disk_put (by decide), view_putDinode (by decide) made.fixed_fits]

theorem Made.target (place : Place) :
    (view wide image.blocks).target place = state.view.target place := by
  rw [made.view_image]
  refine View.target_congr (View.put_addr fun index => ?_) (fun _ _ => rfl) place
  rw [view_inode (by decide)]
  rfl

theorem Made.bit_image {block : Nat} (inside : block < FSSIZE) :
    bit sb image.blocks block = decide (block < need files) := by
  have same : (view wide image.blocks).bit block = state.view.bit block := by
    rw [made.view_image]
    rfl
  rw [view_bit inside, view_bit inside, bit_disk inside, made.holds.freeblock] at same
  exact same

end

end Xv6.Mkfs
