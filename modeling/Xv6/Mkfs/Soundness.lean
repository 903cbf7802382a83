import Xv6.Mkfs.Agreement

namespace Xv6.Mkfs

open Xv6.Data Xv6.Log Xv6.Fs

/-! # Well-formed images -/

variable {state image : State} {files : List File}

/-- An image as a kernel with the superblock `sb` expects it. -/
structure SoundDisk (image : Disk) : Prop where
  inside : ∀ place, reference sb image place ≠ 0 →
    nmeta ≤ reference sb image place ∧ reference sb image place < sb.size
  once : ∀ place other, reference sb image place ≠ 0 →
    reference sb image place = reference sb image other → place = other
  /-- `first` is the first block that is not used. -/
  bitmap : ∃ first, nmeta ≤ first ∧ (∀ place, reference sb image place < first) ∧
    (∀ block, nmeta ≤ block → block < first → ∃ place, reference sb image place = block) ∧
    ∀ block, block < sb.size → (bit sb image block = true ↔ block < first)
  inodes : ∀ inum, inum < wide.ninodes → (dinode wide image inum).type ≠ 0 → inum < sb.ninodes
  entries : ∀ entry ∈ (view sb image).dirents ROOTINO, entry.inum < sb.ninodes
  dense : ∀ inum bn, inum < sb.ninodes → (dinode sb image inum).type ≠ 0 →
    bn < ((dinode sb image inum).size + (BSIZE - 1)) / BSIZE → reference sb image (.ofBlock inum bn) ≠ 0
  /-- Reading the root directory changes neither its inode nor the disk. -/
  readRoot : ∀ (writable : Nat → Bool) (off n : Nat), off < 2 ^ 32 → n < 2 ^ 32 → ∃ count data,
    readi sb image (dinode sb image ROOTINO) writable off n =
      .ok (count, data, dinode sb image ROOTINO, image)

/-- With the inode numbers that `ialloc` has handed out. -/
structure Sound (image : State) : Prop extends SoundDisk image.blocks where
  numbers : image.freeinode ≤ sb.ninodes

/-- The block that the root gains in size is there if its last block was not full. -/
theorem Made.owned (made : Made files image state) (few : files.length + 2 ≤ sb.ninodes)
    (unfilled : (files.length + 2) % 64 ≠ 0) : Owned wide (view wide image.blocks) := by
  have rootInode : ROOTINO < wide.ninodes := by decide
  have size := made.holds.root_size
  have inodes : sb.ninodes = 200 := rfl
  have bounded : (fixed (dinode wide state.disk ROOTINO)).size ≤ MAXFILE * BSIZE := by
    rw [fixed, size]
    simp only [MAXFILE, NDIRECT, NINDIRECT, BSIZE, direntSize]
    omega
  rw [made.view_image]
  refine made.holds.built.owned.put (fun index => ?_) (fun _ => bounded) fun _ bn below => ?_
  · rw [view_inode rootInode]
    rfl
  · refine made.holds.built.owned.solid ROOTINO bn ?_ ?_
    · rw [view_inode rootInode]
      exact made.live
    · rw [fixed, size] at below
      rw [view_inode rootInode, size]
      simp only [BSIZE, direntSize] at below ⊢
      omega

theorem Made.unborn (made : Made files image state) {inum : Nat} (late : files.length + 2 ≤ inum)
    (inside : inum < wide.ninodes) : dinode wide image.blocks inum = freshDinode 0 := by
  have notRoot : inum ≠ ROOTINO := by
    simp only [ROOTINO]
    omega
  rw [← made.holds.built.unborn inum (made.holds.freeinode ▸ late) inside]
  exact made.dinode_other notRoot

/-- The inodes beyond those of the superblock are free. -/
theorem Made.view_sb (made : Made files image state) (few : files.length + 2 ≤ sb.ninodes) :
    view sb image.blocks = view wide image.blocks := by
  ext1
  · rfl
  · funext inum
    by_cases inside : inum < sb.ninodes
    · rw [view_inode inside, view_inode (Nat.lt_trans inside (by decide))]
      rfl
    · by_cases room : inum < wide.ninodes
      · rw [view_inode room, made.unborn (by omega) room]
        exact if_neg inside
      · exact (if_neg inside).trans (if_neg room).symm
  · rfl

theorem Owned.of_wide {disk : Disk} (same : view sb disk = view wide disk)
    (owned : Owned wide (view wide disk)) : Owned sb (view sb disk) := by
  rw [same]
  exact ⟨owned.exact, owned.metadata, owned.size_le, owned.solid⟩

theorem rootEntries_inum {entry : Nat × (Nat → UInt8)} (member : entry ∈ rootEntries files) :
    entry.1 < files.length + 2 := by
  simp only [rootEntries, List.mem_cons, List.mem_mapIdx] at member
  rcases member with rfl | rfl | ⟨index, inside, rfl⟩
  · simp only [ROOTINO]
    omega
  · simp only [ROOTINO]
    omega
  · simp only
    omega

theorem Made.entries (made : Made files image state) (few : files.length + 2 ≤ sb.ninodes)
    (owned : Owned wide (view wide image.blocks)) :
    ∀ entry ∈ (view wide image.blocks).dirents ROOTINO, entry.inum < sb.ninodes := by
  have rootInode : ROOTINO < wide.ninodes := by decide
  have inodes : sb.ninodes = 200 := rfl
  have bytes : (view wide image.blocks).byte ROOTINO = state.view.byte ROOTINO := by
    rw [made.view_image]
    exact congrFun (View.byte_put fun index => by rw [view_inode rootInode]; rfl) ROOTINO
  intro entry member
  obtain ⟨index, inside, rfl⟩ := List.mem_map.mp member
  have same : (view wide image.blocks).dirent ROOTINO index =
      state.view.dirent ROOTINO index := by
    rw [View.dirent, View.dirent, bytes]
  rw [same]
  by_cases listed : index < files.length + 2
  · rw [← rootEntries_length] at listed
    rw [made.holds.dirent (List.getElem?_eq_getElem listed), entryOf]
    have number := rootEntries_inum (List.getElem_mem listed)
    show _ % 2 ^ 16 < sb.ninodes
    omega
  · -- Beyond the last entry the block holds zeros.
    have zero : ∀ offset, offset < direntSize →
        state.view.byte ROOTINO (direntSize * index + offset) = 0 := by
      intro offset within
      have below := List.mem_range.mp inside
      refine made.holds.built.slack ROOTINO _ ?_ ?_
      · rw [view_inode rootInode, made.holds.root_size]
        simp only [direntSize]
        omega
      · rw [← made.target]
        refine owned.present ?_ ?_
        · rw [view_inode rootInode]
          exact made.dinode_root ▸ made.live
        · simp only [direntSize] at below within ⊢
          omega
    have first := zero 0 (by decide)
    have second := zero 1 (by decide)
    rw [View.dirent, Dirent.ofBytes, first, second]
    show 0 + 256 * 0 < 200
    decide

theorem Made.sound (made : Made files image state) (few : files.length + 2 ≤ sb.ninodes)
    (unfilled : (files.length + 2) % 64 ≠ 0) : SoundDisk image.blocks := by
  have owned := made.owned few unfilled
  have same := made.view_sb few
  have ownedSb := Owned.of_wide same owned
  have accounted := ownedSb.accounted
  have low := made.holds.built.sane.low
  have high := made.holds.built.sane.high
  have used := made.holds.freeblock
  have dataStart : sb.dataStart = nmeta := by decide
  have rootInode : ROOTINO < sb.ninodes := by decide
  refine ⟨?_, accounted.unshared, ⟨need files, used ▸ low, ?_, ?_, ?_⟩, ?_, ?_, accounted.dense, ?_⟩
  · intro place present
    have isData := (accounted.marked place present).1
    exact ⟨dataStart ▸ isData.1, isData.2⟩
  · intro place
    by_cases present : reference sb image.blocks place = 0
    · have positive : 0 < nmeta := by decide
      omega
    · obtain ⟨isData, marked⟩ := accounted.marked place present
      rwa [made.bit_image isData.2, decide_eq_true_iff] at marked
  · intro block above below
    have inside : block < FSSIZE := by omega
    have marked : bit sb image.blocks block = true := by
      rw [made.bit_image inside]
      exact decide_eq_true below
    exact (accounted.used block ⟨dataStart ▸ above, inside⟩ marked).exists
  · intro block inside
    rw [made.bit_image inside, decide_eq_true_iff]
  · intro inum inside live
    refine Nat.lt_of_not_le fun beyond => live ?_
    rw [made.unborn (Nat.le_trans few beyond) inside]
    rfl
  · rw [same]
    exact made.entries few owned
  · intro writable off n offFits countFits
    have loaded : Loaded sb image.blocks ROOTINO (dinode sb image.blocks ROOTINO) := by
      refine ⟨?_, made.dinode_root ▸ made.live, dinode_fits ..⟩
      rw [← view_inode rootInode, View.put_self]
      exact ownedSb
    obtain ⟨count, data, read, _⟩ := readi_spec loaded writable offFits countFits
    exact ⟨count, data, read⟩

/-- The block that the root gains in size is missing if its last block was full. -/
theorem Made.absent (made : Made files image state) (filled : (files.length + 2) % 64 = 0) :
    (view wide image.blocks).target (.ofBlock ROOTINO ((files.length + 2) / 64)) = 0 := by
  rw [made.target]
  refine Decidable.byContradiction fun present => ?_
  have within := within_ofBlock.mp (made.holds.built.tight _ present)
  rw [Place.inum_ofBlock, view_inode (by decide), made.holds.root_size] at within
  simp only [BSIZE, direntSize] at within
  omega

/-! ## Inode numbers

`ialloc` alone moves the counter, also where the inodes have run out of their blocks and
overwrite others.
-/

section

variable {din : Dinode} {index : Fin (NDIRECT + 1)} {inum fbn off n1 fuel : Nat} {p : List UInt8}

theorem winode_freeinode : Ensures (fun _ => True) (fun after => after.freeinode = state.freeinode)
      (winode state inum din) :=
  Ensures.bind_of_ok fun _ _ => rfl

theorem takeAddr_freeinode : (takeAddr state din index).2.freeinode = state.freeinode := by
  unfold takeAddr
  split <;> rfl

theorem appendBlock_freeinode :
    Ensures (fun _ => True) (fun result => result.2.2.freeinode = state.freeinode)
      (appendBlock state din fbn) := by
  unfold appendBlock
  split
  · exact takeAddr_freeinode
  · refine Ensures.bind_of_ok fun indirect _ => ?_
    split <;> exact takeAddr_freeinode

theorem iappendLoop_freeinode :
    Ensures (fun _ => True) (fun result => result.2.2.freeinode = state.freeinode)
      (iappendLoop fuel state din off p) := by
  induction fuel generalizing state din off p with
  | zero => exact rfl
  | succ fuel ih =>
    unfold iappendLoop iappendBlock
    split
    · exact rfl
    split
    · rw [bind_assoc]
      refine appendBlock_freeinode.bind fun mapped same => ?_
      rw [bind_assoc]
      refine Ensures.bind_of_ok fun buf _ => ?_
      exact ih.mono fun _ kept => kept.trans same
    · exact trivial

theorem iappend_freeinode : Ensures (fun _ => True) (fun after => after.freeinode = state.freeinode)
      (iappend state inum p) := by
  refine Ensures.bind_of_ok fun din _ => iappendLoop_freeinode.bind fun looped same => ?_
  exact winode_freeinode.mono fun _ kept => kept.trans same

theorem appendChunks_freeinode {chunks : List Chunk} :
    Ensures (fun _ => True) (fun after => after.freeinode = state.freeinode)
      (appendChunks inum state chunks) := by
  induction chunks generalizing state with
  | nil => exact rfl
  | cons chunk chunks ih =>
    exact iappend_freeinode.bind fun after same => ih.mono fun _ kept => kept.trans same

theorem ialloc_freeinode {type : Nat} :
    Ensures (fun _ => True) (fun result => result.2.freeinode = state.freeinode + 1)
      (ialloc state type) :=
  winode_freeinode.bind fun _ same => same

theorem addFile_freeinode {file : File} :
    Ensures (fun _ => True) (fun after => after.freeinode = state.freeinode + 1)
      (addFile inum state file) := by
  unfold addFile
  dsimp only
  split
  · exact trivial
  split
  · exact trivial
  · refine ialloc_freeinode.bind fun allocated one => ?_
    refine iappend_freeinode.bind fun entered same => ?_
    exact appendChunks_freeinode.mono fun _ kept => kept.trans (same.trans one)

theorem addFiles_freeinode :
    Ensures (fun _ => True) (fun after => after.freeinode = state.freeinode + files.length)
      (files.foldlM (addFile inum) state) := by
  induction files generalizing state with
  | nil => exact rfl
  | cons file files ih =>
    refine addFile_freeinode.bind fun added one => ih.mono fun _ more => ?_
    rw [more, one, List.length_cons]
    omega

theorem mkfs_freeinode (done : mkfs files = .ok image) : image.freeinode = files.length + 2 := by
  cases start_spec with
  | intro first started =>
  have counted : Ensures (fun _ => True) (fun after => after.freeinode = files.length + 2) (do
      let state ← files.foldlM (addFile ROOTINO) first
      let state ← fixRoot ROOTINO state
      balloc state state.freeblock) := by
    refine addFiles_freeinode.bind fun last more => ?_
    refine (Ensures.bind_of_ok fun din _ => winode_freeinode).bind fun after same => ?_
    rw [started.1.freeinode, List.length_nil] at more
    unfold balloc
    split
    · exact same.trans (more.trans (Nat.add_comm ..))
    · exact trivial
  rw [← started.2 files, done] at counted
  exact counted

end

/-- With at most 198 files, and unless the entries of the root directory fill its blocks, or
where `mkfs` stops. With more files it has handed out numbers that the superblock does not
have. -/
theorem mkfs_sound (files : List File) : (files.length + 2 ≤ wide.ninodes →
      ((∀ image, mkfs files = .ok image → Sound image) ↔
        files.length + 2 ≤ sb.ninodes ∧ (files.length + 2) % 64 ≠ 0 ∨
          (∃ file ∈ files, file.Unfit) ∨ FSSIZE < need files)) ∧
      (sb.ninodes < files.length + 2 → ∀ image, mkfs files = .ok image → ¬Sound image) := by
  refine ⟨fun few => ⟨fun sound => ?_, fun meets image done => ?_⟩, fun many image done sound => ?_⟩
  · by_cases unfit : ∃ file ∈ files, file.Unfit
    · exact Or.inr (Or.inl unfit)
    by_cases full : FSSIZE < need files
    · exact Or.inr (Or.inr full)
    obtain ⟨image, done⟩ := (mkfs_spec few).2 (Nat.le_of_not_lt full) fun file member bad =>
      unfit ⟨file, member, bad⟩
    obtain ⟨state, made⟩ := (mkfs_spec few).1 image done
    have numbers := (sound image done).numbers
    rw [mkfs_freeinode done] at numbers
    refine Or.inl ⟨numbers, fun filled => ?_⟩
    refine (sound image done).dense ROOTINO ((files.length + 2) / 64) (by decide) ?_ ?_ ?_
    · exact made.dinode_root ▸ made.live
    · rw [made.dinode_root, fixed, made.holds.root_size]
      simp only [BSIZE, direntSize]
      omega
    · rw [reference, made.view_sb numbers]
      exact made.absent filled
  · obtain ⟨state, made⟩ := (mkfs_spec few).1 image done
    rcases meets with ⟨few, unfilled⟩ | ⟨file, member, unfit⟩ | full
    · exact ⟨made.sound few unfilled, mkfs_freeinode done ▸ few⟩
    · exact absurd unfit (made.holds.fit file member)
    · have used := made.holds.freeblock
      have high := made.holds.built.sane.high
      omega
  · have numbers := sound.numbers
    rw [mkfs_freeinode done] at numbers
    omega

theorem mkfs_sound_two_files : twoFiles.length + 2 ≤ wide.ninodes ∧
    ∃ image, mkfs twoFiles = .ok image ∧ Sound image := by
  have fit : ∀ file ∈ twoFiles, ¬file.Unfit := by
    unfold File.Unfit
    decide
  cases (mkfs_spec (by decide)).2 (by decide) fit with
  | intro image done =>
    have sound := ((mkfs_sound twoFiles).1 (by decide)).2 (Or.inl (by decide))
    exact ⟨by decide, image, done, sound image done⟩

/-! ## A full block of entries -/

/-- 62 empty files `a0`, `a1`, ...: with the two dots their entries fill a block. -/
def fullRoot : List File :=
  (List.finRange 62).map fun index : Fin 62 =>
    ⟨[97, 48 + UInt8.ofNat index.val], some [], by revert index; decide⟩

theorem Made.balloc_ok (made : Made files image state) (room : need files < FSSIZE) :
    ∃ block disk, Fs.balloc sb image.blocks = .ok (block, disk) := by
  unfold Fs.balloc
  split
  · exact ⟨_, _, rfl⟩
  · rename_i full
    have marked := List.find?_eq_none.mp full (need files) (List.mem_range.mpr room)
    rw [made.bit_image room] at marked
    simp at marked

theorem readi_second_block {disk disk' : Disk} {ip ip' : Dinode} {block : Nat}
    (size : ip.size = 2 * BSIZE) (mapped : bmap sb disk ip 1 = .ok (block, ip', disk')) :
    ∃ count data, readi sb disk ip (fun _ => true) BSIZE direntSize = .ok (count, data, ip', disk') := by
  refine ⟨direntSize, (List.range direntSize).map (disk' block), ?_⟩
  have inside : ¬(BSIZE > 2 * BSIZE ∨ uadd BSIZE direntSize < BSIZE) := by decide
  have short : ¬uadd BSIZE direntSize > 2 * BSIZE := by decide
  have second : BSIZE / BSIZE = 1 := by decide
  rw [readi, size, if_neg inside]
  simp only [if_neg short]
  rw [show direntSize = 15 + 1 from rfl, readiLoop, if_pos (by decide), second, mapped, ok_bind]
  simp [readiLoop, BSIZE]

/-- The root gets a second block in its size but not in its addresses, so that reading it
makes the kernel allocate one. -/
theorem mkfs_sound_full_root : ∃ image, mkfs fullRoot = .ok image ∧
    (dinode sb image.blocks ROOTINO).size = 2 * BSIZE ∧
    reference sb image.blocks (.ofBlock ROOTINO 1) = 0 ∧
    ∃ block count data disk, nmeta ≤ block ∧
      readi sb image.blocks (dinode sb image.blocks ROOTINO) (fun _ => true) BSIZE direntSize =
        .ok (count, data, (dinode sb image.blocks ROOTINO).setAddr 1 block, disk) := by
  have length : fullRoot.length = 62 := by simp [fullRoot]
  have few : fullRoot.length + 2 ≤ wide.ninodes := by
    rw [length]
    decide
  have fit : ∀ file ∈ fullRoot, ¬file.Unfit := by
    unfold File.Unfit
    decide +kernel
  have room : need fullRoot < FSSIZE := by decide +kernel
  have rootInode : ROOTINO < wide.ninodes := by decide
  cases (mkfs_spec few).2 (Nat.le_of_lt room) fit with
  | intro image done =>
  obtain ⟨state, made⟩ := (mkfs_spec few).1 image done
  have before := made.holds.root_size
  rw [length] at before
  have size : (dinode sb image.blocks ROOTINO).size = 2 * BSIZE := by
    rw [made.dinode_root, fixed, before]
    rfl
  have absent := made.absent (by rw [length])
  rw [length, show (62 + 2) / 64 = 1 from rfl] at absent
  have addr : (dinode sb image.blocks ROOTINO).addrs 1 = 0 := by
    have direct : (view wide image.blocks).target (.ofBlock ROOTINO 1) =
        ((view wide image.blocks).inode ROOTINO).addr 1 := rfl
    rw [direct, view_inode rootInode, Dinode.addr_of_live (made.dinode_root ▸ made.live)] at absent
    exact absent
  obtain ⟨block, disk, allocated⟩ := made.balloc_ok room
  have mapped : bmap sb image.blocks (dinode sb image.blocks ROOTINO) 1 =
      .ok (block, (dinode sb image.blocks ROOTINO).setAddr 1 block, disk) := by
    rw [bmap, dif_pos (by decide), addrAlloc]
    exact (if_pos addr).trans (by rw [allocated]; rfl)
  obtain ⟨count, data, read⟩ := readi_second_block size mapped
  refine ⟨image, done, size, ?_, block, count, data, disk, (made.balloc allocated).1, read⟩
  exact Dinode.addr_of_zero (show ((view sb image.blocks).inode ROOTINO).addrs 1 = 0 by
    rw [view_inode (by decide), addr])

end Xv6.Mkfs
