import Xv6.Mkfs.Image

namespace Xv6.Mkfs

open Xv6.Data Xv6.Log Xv6.Fs

/-! # The kernel reads what mkfs wrote -/

variable {state image : State} {files : List File} {inum : Nat}

/-! ## The entries of the root directory -/

variable {index : Nat}

theorem flatMap_getElem? {α β : Type} {piece : α → List β} {size : Nat}
    (sized : ∀ item, (piece item).length = size) (items : List α) {offset : Nat}
    (inside : offset < size) :
    (items.flatMap piece)[size * index + offset]? =
      items[index]?.bind fun item => (piece item)[offset]? := by
  induction items generalizing index with
  | nil => simp
  | cons item rest ih =>
    rw [List.flatMap_cons, List.getElem?_append, sized]
    cases index with
    | zero => rw [if_pos (by omega), Nat.mul_zero, Nat.zero_add]; rfl
    | succ index =>
      have shifted : size * (index + 1) + offset - size = size * index + offset := by
        rw [Nat.mul_succ]
        omega
      rw [if_neg (by rw [Nat.mul_succ]; omega), shifted, ih, List.getElem?_cons_succ]

/-- The directory entry that `mkfs` writes for a name. -/
def entryOf (entry : Nat × (Nat → UInt8)) : Dirent := ⟨entry.1 % 2 ^ 16, key entry.2⟩

variable {entry : Nat × (Nat → UInt8)}

theorem Holds.byte (holds : Holds files state) {offset : Nat}
    (found : (rootEntries files)[index]? = some entry) (inside : offset < direntSize) :
    state.view.byte ROOTINO (direntSize * index + offset) =
      (dirent entry.1 entry.2 offset).getD 0 := by
  have present : (rootBytes files)[direntSize * index + offset]? =
      some ((dirent entry.1 entry.2 offset).getD 0) := by
    rw [rootBytes, flatMap_getElem? (fun entry => direntBytes_length ..) _ inside, found]
    show (direntBytes entry.1 entry.2)[offset]? = _
    rw [direntBytes, map_range_getElem?, if_pos inside]
  rw [← holds.entries, contents_getElem?] at present
  split at present
  · exact Option.some.inj present
  · cases present

theorem Holds.dirent (holds : Holds files state)
    (found : (rootEntries files)[index]? = some entry) :
    state.view.dirent ROOTINO index = entryOf entry :=
  (Dirent.ofBytes_congr fun _ inside => holds.byte found inside).trans (ofBytes_dirent ..)

/-! ## Reading -/

theorem Made.data (made : Made files image state) {block : Nat} (isData : wide.IsData block) :
    image.blocks block = state.disk block := by
  have rootInode : ROOTINO < wide.ninodes := by decide
  have different : block ≠ wide.IBLOCK ROOTINO := by
    have above : nmeta ≤ block := dataStart_wide ▸ isData.1
    have below : wide.IBLOCK ROOTINO < nmeta := by decide
    omega
  rw [made.blocks, disk_put rootInode, putDinode, overwrite_of_ne different]

variable {disk : Disk}

theorem block_congr {disk' : Disk} {ip ip' : Dinode} (addrs : ip'.addrs = ip.addrs)
    (same : ip.indirect ≠ 0 → disk' ip.indirect = disk ip.indirect) (bn : Nat) :
    ip'.block disk' bn = ip.block disk bn := by
  unfold Dinode.block Dinode.indirect
  rw [addrs]
  split
  · rfl
  · split
    · rename_i counts
      rw [word, word, same counts.1]
    · rfl

/-- Reading through an inode that has the blocks of a file, as far as the file goes. -/
theorem Made.readi (made : Made files image state) (inside : inum < wide.ninodes)
    (live : (dinode wide state.disk inum).type ≠ 0) {ip : Dinode}
    (addrs : ip.addrs = (dinode wide state.disk inum).addrs) {off n : Nat}
    (offFits : off < 2 ^ 32) (countFits : n < 2 ^ 32)
    (limit : min (uadd off n) ip.size ≤ (dinode wide state.disk inum).size) {writable : Nat → Bool}
    (reachable : ∀ index, index < n → writable index = true) :
    readi sb image.blocks ip writable off n = .ok ((min (uadd off n) ip.size - off : Nat),
      (List.range (min (uadd off n) ip.size - off)).map fun index =>
        state.view.byte inum (off + index), ip, image.blocks) := by
  have loaded := made.holds.built.loaded inside live
  have covered := loaded.covered_size.mono limit
  have blocks : ∀ bn, ip.block image.blocks bn =
      state.view.target (.ofBlock inum bn) := by
    intro bn
    have target := loaded.target_block bn
    rw [put_dinode inside] at target
    rw [target]
    exact block_congr addrs (fun present => made.data (loaded.isData_addr present)) bn
  have present : ∀ bn, bn * BSIZE < min (uadd off n) ip.size →
      state.view.target (.ofBlock inum bn) ≠ 0 := by
    intro bn below
    have nonzero := covered bn below
    rwa [put_dinode inside] at nonzero
  obtain ⟨count, data, read, all⟩ := readi_mapped writable offFits countFits
    fun bn below => bmap_block (blocks bn ▸ present bn below)
  obtain ⟨rfl, rfl⟩ := all fun index below => reachable index (by
    have whole : uadd off n ≤ off + n := Nat.mod_le ..
    omega)
  rw [read]
  congr 3
  refine List.map_congr_left fun index member => ?_
  have within := List.mem_range.mp member
  have nonzero := present ((off + index) / BSIZE) (by
    have := Nat.div_mul_le_self (off + index) BSIZE
    omega)
  have isData : wide.IsData (state.view.target (.ofBlock inum ((off + index) / BSIZE))) :=
    (made.holds.built.owned.exact.marked _ nonzero).1
  rw [blocks, made.data isData, View.byte, view_data isData]

/-! ## Looking a name up -/

/-- `dirlookup` needs only the entries up to the one that it looks for. -/
theorem dirlookupFrom_found {layout : Superblock} {dp : Dinode} {entries : List Dirent}
    {name : Nat → UInt8} {found : Nat × Nat}
    (reads : ∀ index, (inside : index < entries.length) → ∃ data,
      readi layout disk dp (fun _ => true) (direntSize * index) direntSize = .ok (direntSize, data,
      dp, disk) ∧ direntInum data = entries[index].inum ∧
      (key fun position => data.getD (position + 2) 0) = entries[index].name)
    (size : direntSize * entries.length ≤ dp.size) (fuel : Nat)
    (hit : findFrom (key name) entries index = some found) (enough : entries.length ≤ index + fuel) :
    
    dirlookupFrom layout name fuel disk dp (direntSize * index) = .ok (some found, dp, disk) := by
  have inside : index < entries.length := by
    refine Nat.lt_of_not_le fun done => ?_
    rw [findFrom_end done] at hit
    cases hit
  induction fuel generalizing index with
  | zero => omega
  | succ fuel ih =>
    obtain ⟨data, read, inums, names⟩ := reads index inside
    have below : direntSize * index < dp.size := by
      simp only [direntSize] at size ⊢
      omega
    rw [dirlookupFrom, if_pos below, read, ok_bind]
    simp only [ne_eq, not_true_eq_false, if_false, sameName_eq, names, inums]
    rw [findFrom_step inside, Dirent.matches] at hit
    have next : ¬(entries[index].inum ≠ 0 ∧ key name = entries[index].name) →
        dirlookupFrom layout name fuel disk dp (direntSize * index + direntSize) =
          .ok (some found, dp, disk) := by
      intro other
      rw [if_neg (by simpa using other)] at hit
      have more : index + 1 < entries.length := by
        refine Nat.lt_of_not_le fun done => ?_
        rw [findFrom_end done] at hit
        cases hit
      exact ih hit (by omega) more
    by_cases free : entries[index].inum = 0
    · rw [if_pos free]
      exact next fun both => both.1 free
    · rw [if_neg free]
      by_cases same : key name = entries[index].name
      · rw [if_pos (by simpa using same)]
        rw [if_pos (by simp [free, same])] at hit
        rw [Option.some.inj hit]
      · rw [if_neg (by simpa using same)]
        exact next fun both => same both.2

theorem findFrom_first {name : Fin DIRSIZ → UInt8} {entries : List Dirent} {entry : Dirent}
    (found : entries[index]? = some entry) (used : entry.inum ≠ 0) (same : name = entry.name)
    (earlier : ∀ position other, position < index → entries[position]? = some other →
      name ≠ other.name) :
    findFrom name entries 0 = some (entry.inum, direntSize * index) := by
  obtain ⟨inside, rfl⟩ := List.getElem?_eq_some_iff.mp found
  have first : findEntry name entries = some index := by
    refine List.findIdx?_eq_some_iff_getElem.mpr ⟨inside, by simp [Dirent.matches, used, same], ?_⟩
    intro position below both
    simp only [Dirent.matches, Bool.and_eq_true, decide_eq_true_eq] at both
    exact earlier position _ below (List.getElem?_eq_getElem _) both.2
  rw [findFrom, List.drop_zero, first, Option.map_some, Nat.zero_add]
  simp [List.getD_eq_getElem?_getD, inside]

theorem key_inj {left right : List UInt8} (leftClean : 0 ∉ left) (rightClean : 0 ∉ right)
    (leftFits : left.length ≤ DIRSIZ) (rightFits : right.length ≤ DIRSIZ)
    (same : key (nameBuffer left) = key (nameBuffer right)) : left = right := by
  have padded : ∀ name : List UInt8, 0 ∉ name → ∀ index, paddedName (nameBuffer name) index =
      name.getD index 0 := by
    intro name clean index
    by_cases inside : index < name.length
    · refine paddedName_inside fun earlier before zero => clean ?_
      have member : earlier < name.length := Nat.lt_trans before inside
      have value : name[earlier] = 0 := by simpa [nameBuffer, member] using zero
      exact value ▸ List.getElem_mem member
    · have absent : name.getD index 0 = 0 := by
        simp [List.getD_eq_getElem?_getD, Nat.not_lt.mp inside]
      rcases paddedName_cases (nameBuffer name) index with ⟨_, equal⟩ | ⟨_, _, _, zero⟩
      · exact equal
      · rw [zero, absent]
  have bytes : ∀ index, left.getD index 0 = right.getD index 0 := by
    intro index
    by_cases inside : index < DIRSIZ
    · rw [← padded left leftClean, ← padded right rightClean]
      exact congrFun same ⟨index, inside⟩
    · simp [List.getD_eq_getElem?_getD, Nat.le_trans leftFits (Nat.not_lt.mp inside),
        Nat.le_trans rightFits (Nat.not_lt.mp inside)]
  -- A position inside one name and beyond the other would hold a zero.
  have shorter : ∀ {first second : List UInt8}, 0 ∉ first →
      (∀ index, first.getD index 0 = second.getD index 0) → first.length ≤ second.length := by
    intro first second clean agree
    refine Nat.le_of_not_lt fun longer => clean ?_
    have value := agree second.length
    have ends : second.getD second.length 0 = 0 := by simp
    rw [ends, List.getD_eq_getElem _ _ longer] at value
    exact value ▸ List.getElem_mem longer
  have lengths : left.length = right.length :=
    Nat.le_antisymm (shorter leftClean bytes) (shorter rightClean fun index => (bytes index).symm)
  refine List.ext_getElem lengths fun index insideLeft insideRight => ?_
  have value := bytes index
  rwa [List.getD_eq_getElem _ _ insideLeft, List.getD_eq_getElem _ _ insideRight] at value

theorem File.name_clean (file : File) : 0 ∉ file.name := by
  intro member
  have shortened : 0 ∈ shortname file.path := by
    rw [File.name, skipUnderscore] at member
    split at member
    · exact List.mem_of_mem_tail member
    · exact member
  rw [shortname] at shortened
  split at shortened
  · exact file.terminated (List.mem_of_mem_drop shortened)
  · exact file.terminated shortened

theorem Made.reads (made : Made files image state)
    (found : (rootEntries files)[index]? = some entry) :
    ∃ data, Fs.readi sb image.blocks (dinode sb image.blocks ROOTINO) (fun _ => true)
        (direntSize * index) direntSize =
          .ok (direntSize, data, dinode sb image.blocks ROOTINO, image.blocks) ∧
      direntInum data = (entryOf entry).inum ∧
      (key fun position => data.getD (position + 2) 0) = (entryOf entry).name := by
  have rootInode : ROOTINO < wide.ninodes := by decide
  have size := made.holds.root_size
  have bound := (made.holds.built.loaded rootInode made.live).size_le
  have inside := (List.getElem?_eq_some_iff.mp found).1
  rw [size] at bound
  rw [rootEntries_length] at inside
  simp only [MAXFILE, NDIRECT, NINDIRECT, BSIZE] at bound
  have limit : min (uadd (direntSize * index) direntSize)
      (fixed (dinode wide state.disk ROOTINO)).size = direntSize * index + direntSize := by
    rw [fixed, size]
    simp only [uadd, direntSize, BSIZE] at bound inside ⊢
    omega
  have within : direntSize * index + direntSize ≤ direntSize * (files.length + 2) := by
    rw [← Nat.mul_succ]
    exact Nat.mul_le_mul_left _ inside
  have read := @Made.readi state image files ROOTINO made rootInode made.live
    (fixed (dinode wide state.disk ROOTINO)) rfl (direntSize * index) direntSize (by omega)
    (by decide) (by rw [limit, size]; exact within) (fun _ => true) fun _ _ => rfl
  rw [limit, Nat.add_sub_cancel_left] at read
  obtain ⟨inums, names⟩ := ofBytes_data fun offset =>
    state.view.byte ROOTINO (direntSize * index + offset)
  have decoded := made.holds.dirent found
  rw [made.dinode_root]
  exact ⟨_, read, inums.trans (congrArg Dirent.inum decoded),
    names.trans (congrArg Dirent.name decoded)⟩

/-- Names that a directory can tell apart. -/
structure Named (files : List File) : Prop where
  fits : ∀ file ∈ files, file.name.length ≤ DIRSIZ
  notDot : ∀ file ∈ files, file.name ≠ [46]
  notDotdot : ∀ file ∈ files, file.name ≠ [46, 46]
  distinct : (files.map File.name).Nodup

variable {file : File}

theorem rootEntries_file (found : files[index]? = some file) :
    (rootEntries files)[index + 2]? = some (index + 2, nameBuffer file.name) := by
  simp [rootEntries, found]

/-- No entry before that of a file has its name. -/
theorem Named.earlier (named : Named files) {position : Nat} (found : files[index]? = some file)
    (before : position < index + 2) (other : (rootEntries files)[position]? = some entry) :
    key (nameBuffer file.name) ≠ key entry.2 := by
  intro same
  have member := List.mem_of_getElem? found
  have distinguish := fun {right : List UInt8} clean fits equal =>
    @key_inj file.name right file.name_clean clean (named.fits file member) fits equal
  rcases position with _ | _ | position
  · have isDot : nameBuffer [46] = dot := by
      funext index
      rcases index with _ | index <;> rfl
    obtain rfl := Option.some.inj other
    exact named.notDot file member (distinguish (by decide) (by decide) (same.trans (congrArg key isDot.symm)))
  · have isDotdot : nameBuffer [46, 46] = dotdot := by
      funext index
      rcases index with _ | _ | index <;> rfl
    obtain rfl := Option.some.inj other
    exact named.notDotdot file member
      (distinguish (by decide) (by decide) (same.trans (congrArg key isDotdot.symm)))
  · have early : position < files.length := by
      have inside := (List.getElem?_eq_some_iff.mp found).1
      omega
    rw [rootEntries_file (List.getElem?_eq_getElem early)] at other
    obtain rfl := Option.some.inj other
    have names := distinguish (files[position].name_clean)
      (named.fits _ (List.getElem_mem early)) same
    have unique := List.nodup_iff_injective_get.mp named.distinct
    obtain ⟨inside, rfl⟩ := List.getElem?_eq_some_iff.mp found
    have positions := @unique ⟨index, by simpa using inside⟩ ⟨position, by simpa using early⟩
      (by simpa using names)
    have := congrArg Fin.val positions
    simp only at this
    omega

theorem Made.lookup (made : Made files image state) (named : Named files)
    (count : files.length + 2 ≤ wide.ninodes) (found : files[index]? = some file)
    {name : Nat → UInt8}
    (same : ∀ position, position < DIRSIZ → name position = nameBuffer file.name position) :
    dirsearch sb image.blocks (dinode sb image.blocks ROOTINO) name =
      .ok (some (index + 2, direntSize * (index + 2)), dinode sb image.blocks ROOTINO,
        image.blocks) := by
  have size : direntSize * (files.length + 2) ≤ (dinode sb image.blocks ROOTINO).size := by
    rw [made.dinode_root, fixed, made.holds.root_size]
    simp only [direntSize, BSIZE]
    omega
  have length : ((rootEntries files).map entryOf).length = files.length + 2 := by
    rw [List.length_map, rootEntries_length]
  have inside := (List.getElem?_eq_some_iff.mp found).1
  have limit : wide.ninodes = 207 := rfl
  have number : (index + 2) % 2 ^ 16 = index + 2 := Nat.mod_eq_of_lt (by omega)
  have isDir : ¬(dinode sb image.blocks ROOTINO).type ≠ T_DIR := by
    rw [made.dinode_root]
    exact not_not_intro made.holds.root
  have hit : findFrom (key name) ((rootEntries files).map entryOf) 0 =
      some (index + 2, direntSize * (index + 2)) := by
    rw [key_congr same]
    have entry : ((rootEntries files).map entryOf)[index + 2]? =
        some ⟨index + 2, key (nameBuffer file.name)⟩ := by
      rw [List.getElem?_map, rootEntries_file found, Option.map_some, entryOf, number]
    refine findFrom_first entry (Nat.succ_ne_zero _) rfl fun position other before present => ?_
    rw [List.getElem?_map] at present
    obtain ⟨entry, earlier, rfl⟩ := Option.map_eq_some_iff.mp present
    exact named.earlier found before earlier
  rw [dirsearch, if_neg isDir]
  refine dirlookupFrom_found (fun position below => ?_) (length ▸ size) _ hit ?_
  · rw [List.length_map] at below
    rw [List.getElem_map]
    exact made.reads (List.getElem?_eq_getElem below)
  · rw [length]
    simp only [direntSize] at size
    omega

/-! ## The image and the kernel -/

/-- What `fs.c` makes of an image. -/
structure Agrees (files : List File) (image : Disk) : Prop where
  superblock : ∀ index value, superblock[index]? = some value → word image 1 index = value
  /-- `ilock` has read the root; any buffer with the bytes of the name will do. -/
  lookup : ∀ index file, files[index]? = some file → ∀ (fs : Store) (dp : Fin NINODE)
    (name : Nat → UInt8), fs.disk = image → (fs.itable dp).copy = dinode sb image ROOTINO →
    (∀ position, position < DIRSIZ → name position = nameBuffer file.name position) →
    dirlookup sb fs dp name =
      (iget fs (index + 2)).map fun found => (some (found.1, direntSize * (index + 2)), found.2)
  readi : ∀ index file, files[index]? = some file → ∀ (writable : Nat → Bool) (off n : Nat),
    off < 2 ^ 32 → n < 2 ^ 32 → (∀ position, position < n → writable position = true) →
    Fs.readi sb image (dinode sb image (index + 2)) writable off n =
      .ok (((file.bytes.take (uadd off n)).drop off).length,
        (file.bytes.take (uadd off n)).drop off, dinode sb image (index + 2), image)
  /-- A block that is neither metadata nor referred to by any inode. -/
  balloc : ∀ block disk, Fs.balloc sb image = .ok (block, disk) →
    nmeta ≤ block ∧ block < FSSIZE ∧ ∀ place, (view wide image).target place ≠ block

theorem Made.balloc (made : Made files image state) {block : Nat}
    (allocated : Fs.balloc sb image.blocks = .ok (block, disk)) :
    nmeta ≤ block ∧ block < FSSIZE ∧ ∀ place, (view wide image.blocks).target place ≠ block := by
  have used := made.holds.freeblock
  have low := made.holds.built.sane.low
  unfold Fs.balloc at allocated
  split at allocated
  · rename_i first found
    obtain rfl : first = block := congrArg Prod.fst (Except.ok.inj allocated)
    have inside : first < FSSIZE := List.mem_range.mp (List.mem_of_find?_eq_some found)
    have clear := List.find?_some found
    rw [made.bit_image inside, Bool.not_eq_true', decide_eq_false_iff_not] at clear
    refine ⟨by omega, inside, fun place target => ?_⟩
    rw [made.target] at target
    have nonzero : state.view.target place ≠ 0 := by
      have positive : 0 < nmeta := by decide
      omega
    have marked := (made.holds.built.owned.exact.marked place nonzero).2
    rw [target, view_bit inside, bit_disk inside, decide_eq_true_iff] at marked
    omega
  · cases allocated

theorem Made.agrees (made : Made files image state) (named : Named files)
    (count : files.length + 2 ≤ wide.ninodes) : Agrees files image.blocks := by
  refine ⟨?_, ?_, ?_, fun block disk allocated => made.balloc allocated⟩
  · intro index value found
    obtain ⟨inside, rfl⟩ := List.getElem?_eq_some_iff.mp found
    have stored := @Bytes.load_storeWords 0 zeroes index superblock inside (by decide)
    rw [Nat.zero_add] at stored
    rw [word, made.blocks, disk_of_ne (by decide), put_superblock (by decide),
      made.holds.built.superblock, stored]
  · intro index file found fs dp name disk copy same
    have unchanged : fs.put dp (fs.itable dp).copy fs.disk = fs := by
      simp [Store.put]
    rw [dirlookup, copy, disk, made.lookup named count found same, ok_bind]
    simp only
    rw [← copy, ← disk, unchanged]
    cases iget fs (index + 2) with
    | ok found | error reason => rfl
  · intro index file found writable off n offFits countFits reachable
    obtain ⟨type, contents⟩ := made.holds.files index file found
    have inside := (List.getElem?_eq_some_iff.mp found).1
    have notRoot : index + 2 ≠ ROOTINO := by simp only [ROOTINO]; omega
    have size : (dinode wide state.disk (index + 2)).size = file.bytes.length := by
      rw [← Fs.contents_length, contents]
    rw [made.dinode_other notRoot, made.readi (by omega) (by rw [type]; decide) rfl
      offFits countFits (Nat.min_le_right ..) reachable, ← contents, contents_slice]
    simp

/-- The kernel finds every file by its name and reads back its bytes, and `balloc` never
hands out a block of the image. -/
theorem mkfs_agrees (named : Named files) (count : files.length ≤ NINODES) :
    (need files ≤ FSSIZE → (∀ file ∈ files, ¬file.Unfit) → ∃ image, mkfs files = .ok image) ∧
      ∀ image, mkfs files = .ok image → Agrees files image.blocks := by
  have few : files.length + 2 ≤ wide.ninodes := Nat.le_trans (Nat.add_le_add_right count 2) (by decide)
  have spec := mkfs_spec few
  refine ⟨spec.2, fun image done => ?_⟩
  obtain ⟨state, made⟩ := spec.1 image done
  exact made.agrees named few

/-- `user/_cat`, read in two pieces, and an empty file `README`. -/
def twoFiles : List File :=
  [⟨userSlash ++ [95, 99, 97, 116], some [⟨[1, 2, 3], by decide, by decide⟩, ⟨[4], by decide, by decide⟩],
      by decide⟩,
    ⟨[82, 69, 65, 68, 77, 69], some [], by decide⟩]

theorem mkfs_agrees_two_files : twoFiles.map File.name = [[99, 97, 116], [82, 69, 65, 68, 77, 69]] ∧
    ∃ image, mkfs twoFiles = .ok image ∧ Agrees twoFiles image.blocks := by
  have named : Named twoFiles := ⟨by decide, by decide, by decide, by decide⟩
  have fit : ∀ file ∈ twoFiles, ¬file.Unfit := by
    unfold File.Unfit
    decide
  cases mkfs_agrees named (by decide) with
  | intro runs agrees =>
    cases runs (by decide) fit with
    | intro image done => exact ⟨by decide, image, done, agrees image done⟩

end Xv6.Mkfs
