import Xv6.Fs.FlatFile
import Xv6.Mkfs.Mkfs

namespace Xv6.Mkfs

open Xv6.Data Xv6.Log Xv6.Fs

/-! # iappend against writei

`iappend` and `writei` are two implementations of appending to a file.  With the bitmap
that `mkfs` will write at the end already in place, they make the same image.
-/

/-- The layout of `mkfs`, with more inodes than it declares: its inode blocks have the room. -/
def wide : Superblock :=
  { sb with
    ninodes := 207
    inodesFit := by decide
    countable := by decide }

/-- The image with the bitmap that `balloc` would write now. -/
def State.disk (state : State) : Disk :=
  overwrite state.blocks sb.bmapstart (bitmap state.freeblock)

/-- The image as the kernel sees it. -/
abbrev State.view (state : State) : View := Fs.view wide state.disk

/-- The image with the next block handed out. -/
abbrev State.taken (state : State) : State := { state with freeblock := state.freeblock + 1 }

structure Sane (state : State) : Prop where
  length : state.length = FSSIZE
  low : nmeta ≤ state.freeblock
  high : state.freeblock ≤ FSSIZE
  /-- The blocks not handed out yet are as the program started with them. -/
  clean : ∀ block, state.freeblock ≤ block → block < FSSIZE → state.blocks block = zeroes

variable {state : State} {din : Dinode} {inum : Nat}

theorem dataStart_wide : wide.dataStart = nmeta := by decide

/-! ## Sectors -/

theorem sector_eq {sec : Nat} (inside : sec ≤ FSSIZE) : sector sec = sec := by
  simp only [sector, FSSIZE, BSIZE] at inside ⊢
  omega

theorem Sane.rsect (sane : Sane state) {sec : Nat} (inside : sec < FSSIZE) :
    rsect state sec = .ok (state.blocks sec) := by
  rw [Mkfs.rsect, sector_eq (Nat.le_of_lt inside), if_pos (sane.length ▸ inside)]

theorem rsect_end (length : state.length = FSSIZE) : rsect state FSSIZE = .error .read := by
  rw [rsect, sector_eq (Nat.le_refl _), length, if_neg (Nat.lt_irrefl _)]

theorem Sane.wsect (sane : Sane state) {sec : Nat} (inside : sec < FSSIZE) (buf : Bytes) :
    wsect state sec buf = { state with blocks := overwrite state.blocks sec buf } := by
  rw [Mkfs.wsect, sector_eq (Nat.le_of_lt inside), sane.length, Nat.max_eq_left inside,
    ← sane.length]

variable {block : Nat}

theorem Sane.write (sane : Sane state) (used : block < state.freeblock) (buf : Bytes) :
    Sane { state with blocks := overwrite state.blocks block buf } := by
  refine ⟨sane.length, sane.low, sane.high, fun other free inside => ?_⟩
  have different : other ≠ block := Nat.ne_of_gt (Nat.lt_of_lt_of_le used free)
  exact (overwrite_of_ne different).trans (sane.clean other free inside)

theorem disk_of_ne (different : block ≠ sb.bmapstart) :
    state.disk block = state.blocks block := overwrite_of_ne different

theorem disk_write (different : block ≠ sb.bmapstart) (buf : Bytes) :
    { state with blocks := overwrite state.blocks block buf }.disk =
      overwrite state.disk block buf := by
  simp only [State.disk, overwrite_eq_update]
  rw [Function.update_comm different.symm]

theorem isData_ne (isData : wide.IsData block) : block ≠ sb.bmapstart := by
  have above : nmeta ≤ block := dataStart_wide ▸ isData.1
  have order : sb.bmapstart < nmeta := by decide
  omega

/-! ## The bitmap -/

theorem bitmap_succ (used : Nat) : bitmap (used + 1) = (bitmap used).setBit used := by
  rw [bitmap, List.range_succ, List.foldl_append]
  rfl

theorem bitmap_bit (used index : Nat) : (bitmap used).bit index = decide (index < used) := by
  induction used with
  | zero => simp [bitmap, zeroes, Bytes.bit]
  | succ used ih =>
    rw [bitmap_succ, Bytes.bit_setBit, ih, Bool.eq_iff_iff]
    simp only [Bool.or_eq_true, decide_eq_true_eq]
    omega

theorem BBLOCK_eq (inside : block < FSSIZE) :
    wide.BBLOCK block = sb.bmapstart ∧ block % BPB = block := by
  have small : block < BPB := Nat.lt_trans inside (by decide)
  refine ⟨?_, Nat.mod_eq_of_lt small⟩
  rw [Superblock.BBLOCK, Nat.div_eq_of_lt small, Nat.zero_add]
  rfl

theorem bit_disk (inside : block < FSSIZE) :
    bit wide state.disk block = decide (block < state.freeblock) := by
  obtain ⟨same, offset⟩ := BBLOCK_eq inside
  rw [bit, same, offset, State.disk, overwrite_self, bitmap_bit]

theorem setBit_disk (inside : state.freeblock < FSSIZE) : setBit wide state.disk state.freeblock =
      state.taken.disk := by
  obtain ⟨same, offset⟩ := BBLOCK_eq inside
  rw [setBit, same, offset, State.disk, overwrite_self, ← bitmap_succ]
  simp only [State.disk, overwrite_eq_update, Function.update_idem]

theorem Sane.take (sane : Sane state) (inside : state.freeblock < FSSIZE) : Sane state.taken :=
  ⟨sane.length, Nat.le_succ_of_le sane.low, inside, fun block free =>
    sane.clean block (Nat.le_of_succ_le free)⟩

theorem Sane.isData (sane : Sane state) (inside : state.freeblock < FSSIZE) :
    wide.IsData state.freeblock := ⟨dataStart_wide ▸ sane.low, inside⟩

/-- The kernel would hand out the same block next. -/
theorem Sane.balloc (sane : Sane state) (inside : state.freeblock < FSSIZE) :
    Fs.balloc wide state.disk =
      .ok (state.freeblock, state.taken.disk) := by
  have first : (List.range wide.size).find? (fun block => !bit wide state.disk block) =
      some state.freeblock := by
    refine List.find?_range_eq_some.mpr ⟨?_, List.mem_range.mpr inside, fun block below => ?_⟩
    · rw [bit_disk inside, decide_eq_false (Nat.lt_irrefl _)]
      rfl
    · rw [bit_disk (Nat.lt_trans below inside), decide_eq_true below]
      rfl
  have zero : state.taken.disk state.freeblock = zeroes :=
    (disk_of_ne (isData_ne (sane.isData inside))).trans (sane.clean _ (Nat.le_refl _) inside)
  have unchanged : bzero state.taken.disk state.freeblock =
      state.taken.disk := by
    rw [bzero]
    exact (congrArg (overwrite _ _) zero.symm).trans (overwrite_eq_self ..)
  unfold Fs.balloc
  rw [first]
  simp only [setBit_disk inside, unchanged]

/-! ## One block -/

/-- How many blocks have to be allocated for block `fbn` of a file. -/
def missing (disk : Disk) (din : Dinode) (fbn : Nat) : Nat :=
  (if din.block disk fbn = 0 then 1 else 0) +
    if NDIRECT ≤ fbn ∧ din.indirect = 0 then 1 else 0

/-- `appendBlock` has done what `bmap` would do. -/
structure Maps (state : State) (din : Dinode) (fbn : Nat) (result : Nat × Dinode × State) :
    Prop where
  bmap : bmap wide state.disk din fbn = .ok (result.1, result.2.1, result.2.2.disk)
  sane : Sane result.2.2
  freeblock : result.2.2.freeblock = state.freeblock + missing state.disk din fbn
  freeinode : result.2.2.freeinode = state.freeinode
  metadata : ∀ block, block < nmeta → result.2.2.blocks block = state.blocks block

/-- The file does not fit, and the next read of the block will end the program. -/
structure Overflows (state : State) (din : Dinode) (fbn : Nat) (result : Nat × Dinode × State) :
    Prop where
  block : result.1 = FSSIZE
  length : result.2.2.length = FSSIZE
  full : FSSIZE < state.freeblock + missing state.disk din fbn

variable {index : Fin (NDIRECT + 1)}

theorem takeAddr_vacant (vacant : din.addrs index = 0) : takeAddr state din index =
      (din.setAddr index state.freeblock, state.taken) :=
  if_pos vacant

theorem takeAddr_present (present : din.addrs index ≠ 0) :
    takeAddr state din index = (din, state) := if_neg present

theorem Sane.addrAlloc (sane : Sane state) (inside : state.freeblock < FSSIZE)
    (vacant : din.addrs index = 0) :
    addrAlloc wide state.disk din index = .ok (state.freeblock, din.setAddr index state.freeblock,
      state.taken.disk) := by
  rw [Fs.addrAlloc, if_pos vacant, sane.balloc inside]
  rfl

theorem setAddr_addrs (index : Fin (NDIRECT + 1)) (addr : Nat) :
    (din.setAddr index addr).addrs index = addr := overwrite_self ..

theorem appendBlock_direct (sane : Sane state) {fbn : Nat} (direct : fbn < NDIRECT) :
    Ensures (fun _ => FSSIZE < state.freeblock + missing state.disk din fbn)
      (fun result => Overflows state din fbn result ∨ Maps state din fbn result)
      (appendBlock state din fbn) := by
  have block : din.block state.disk fbn = din.addrs ⟨fbn, Nat.lt_succ_of_lt direct⟩ :=
    dif_pos direct
  have count : missing state.disk din fbn =
      if din.addrs ⟨fbn, Nat.lt_succ_of_lt direct⟩ = 0 then 1 else 0 := by
    rw [missing, block, if_neg (show ¬(NDIRECT ≤ fbn ∧ _) from fun both =>
      Nat.not_le.mpr direct both.1), Nat.add_zero]
  simp only [appendBlock, dif_pos direct, ensures_ok]
  by_cases vacant : din.addrs ⟨fbn, Nat.lt_succ_of_lt direct⟩ = 0
  · rw [if_pos vacant] at count
    rw [takeAddr_vacant vacant, setAddr_addrs]
    by_cases inside : state.freeblock < FSSIZE
    · refine Or.inr ⟨?_, sane.take inside, by rw [count], rfl, fun _ _ => rfl⟩
      rw [Fs.bmap, dif_pos direct, sane.addrAlloc inside vacant]
    · have last : state.freeblock = FSSIZE := Nat.le_antisymm sane.high (Nat.not_lt.mp inside)
      exact Or.inl ⟨last, sane.length, by omega⟩
  · rw [if_neg vacant] at count
    rw [takeAddr_present vacant]
    refine Or.inr ⟨?_, sane, (congrArg (state.freeblock + ·) count).symm, rfl, fun _ _ => rfl⟩
    rw [bmap_block (block ▸ vacant), block]

theorem lt_freeblock {place : Place} (loaded : Loaded wide state.disk inum din)
    (present : (state.view.put inum din).target place ≠ 0) :
    (state.view.put inum din).target place < state.freeblock := by
  have isData := loaded.isData present
  have marked : state.view.bit ((state.view.put inum din).target place) =
    true := (loaded.owned.exact.marked place present).2
  rw [view_bit isData.2, bit_disk isData.2] at marked
  exact of_decide_eq_true marked

/-- The second half of the indirect case, with the indirect block at hand. -/
theorem appendBlock_entry {before : State} {old : Dinode} (sane : Sane state)
    (loaded : Loaded wide state.disk inum din)
    {fbn : Nat} (above : ¬fbn < NDIRECT) (entry : fbn - NDIRECT < NINDIRECT)
    (present : din.indirect ≠ 0)
    (allocated : Fs.addrAlloc wide before.disk old (Fin.last NDIRECT) =
      .ok (din.indirect, din, state.disk))
    (freeinode : state.freeinode = before.freeinode) (blocks : state.blocks = before.blocks)
    (freeblock : state.freeblock + (if word state.disk din.indirect (fbn - NDIRECT) = 0 then 1
      else 0) = before.freeblock + missing before.disk old fbn) :
    Ensures (fun _ => FSSIZE < before.freeblock + missing before.disk old fbn)
      (fun result => Overflows before old fbn result ∨ Maps before old fbn result)
      (appendEntry state din fbn) := by
  have address : _ = din.indirect := loaded.target_addr (Fin.last NDIRECT)
  have isData := loaded.isData_addr present
  have notBitmap := isData_ne isData
  have used : din.indirect < state.freeblock :=
    address ▸ lt_freeblock loaded (address ▸ present)
  rw [appendEntry, sane.rsect isData.2, ok_bind, ← disk_of_ne notBitmap]
  show Ensures _ _ (if word state.disk din.indirect (fbn - NDIRECT) = 0 then _
    else Except.ok (word state.disk din.indirect (fbn - NDIRECT), _, _))
  have mapped : Fs.bmap wide before.disk old fbn =
      if word state.disk din.indirect (fbn - NDIRECT) = 0 then do
        let taken ← Fs.balloc wide state.disk
        .ok (taken.1, din, putWord taken.2 din.indirect (fbn - NDIRECT) taken.1)
      else
        .ok (word state.disk din.indirect (fbn - NDIRECT), din, state.disk) := by
    rw [Fs.bmap, dif_neg above, if_pos entry, allocated]
    rfl
  split
  · rename_i vacant
    rw [if_pos vacant] at freeblock mapped
    by_cases inside : state.freeblock < FSSIZE
    · have taken := sane.take inside
      right
      rw [taken.wsect isData.2]
      refine ⟨?_, taken.write (Nat.lt_succ_of_lt used) _, freeblock, freeinode, ?_⟩
      · have written : state.taken.disk din.indirect = state.disk din.indirect := by
          rw [disk_of_ne notBitmap, disk_of_ne notBitmap]
        rw [mapped, sane.balloc inside, disk_write notBitmap, ← written]
        rfl
      · intro block below
        have different : block ≠ din.indirect :=
          Nat.ne_of_lt (Nat.lt_of_lt_of_le below (dataStart_wide ▸ isData.1))
        rw [← blocks]
        exact overwrite_of_ne different
    · have last : state.freeblock = FSSIZE := Nat.le_antisymm sane.high (Nat.not_lt.mp inside)
      left
      refine ⟨last, ?_, by omega⟩
      have length : state.taken.length = FSSIZE := sane.length
      rw [Mkfs.wsect, sector_eq (Nat.le_of_lt isData.2), length]
      exact Nat.max_eq_left isData.2
  · rename_i found
    rw [if_neg found] at freeblock mapped
    exact Or.inr ⟨mapped, sane, freeblock, freeinode, fun _ _ => by rw [blocks]⟩

theorem appendBlock_spec (sane : Sane state) (loaded : Loaded wide state.disk inum din) {fbn : Nat}
    (inside : fbn < MAXFILE) :
    Ensures (fun _ => FSSIZE < state.freeblock + missing state.disk din fbn)
      (fun result => Overflows state din fbn result ∨ Maps state din fbn result)
      (appendBlock state din fbn) := by
  by_cases direct : fbn < NDIRECT
  · exact appendBlock_direct sane direct
  have entry : fbn - NDIRECT < NINDIRECT := by
    unfold MAXFILE at inside
    omega
  have above : NDIRECT ≤ fbn := Nat.not_lt.mp direct
  simp only [appendBlock, dif_neg direct]
  by_cases vacant : din.indirect = 0
  · have block : din.block state.disk fbn = 0 := by
      rw [Dinode.block, dif_neg direct, if_neg fun both => both.1 vacant]
    have count : missing state.disk din fbn = 2 := by
      rw [missing, if_pos block, if_pos ⟨above, vacant⟩]
    rw [takeAddr_vacant vacant]
    by_cases room : state.freeblock < FSSIZE
    · have spec := addrAlloc_spec loaded (Fin.last NDIRECT)
      rw [sane.addrAlloc room vacant] at spec
      have now : Loaded wide state.taken.disk inum
        (din.setAddr (Fin.last NDIRECT) state.freeblock) := spec.1.grows.loaded
      have fresh : word state.taken.disk state.freeblock (fbn - NDIRECT) = 0 := by
        rw [word, disk_of_ne (isData_ne (sane.isData room)), sane.clean _ (Nat.le_refl _) room]
        rfl
      have stored : (din.setAddr (Fin.last NDIRECT) state.freeblock).indirect = state.freeblock :=
        setAddr_addrs ..
      refine appendBlock_entry (sane.take room) now direct entry ?_ ?_ rfl rfl ?_
      · rw [stored]
        exact (sane.isData room).ne_zero
      · rw [stored]
        exact sane.addrAlloc room vacant
      · rw [stored, if_pos fresh, count]
    · have last : state.freeblock = FSSIZE := Nat.le_antisymm sane.high (Nat.not_lt.mp room)
      have stopped : rsect state.taken state.freeblock = .error .read :=
        last ▸ rsect_end sane.length
      rw [appendEntry, setAddr_addrs, stopped]
      show FSSIZE < _
      omega
  · rw [takeAddr_present vacant]
    refine appendBlock_entry sane loaded direct entry vacant (if_neg vacant) rfl rfl ?_
    have block : din.block state.disk fbn = word state.disk din.indirect (fbn - NDIRECT) := by
      rw [Dinode.block, dif_neg direct, if_pos ⟨vacant, entry⟩]
    rw [missing, block, if_neg (show ¬(NDIRECT ≤ fbn ∧ _) from fun both => vacant both.2),
      Nat.add_zero]

/-! ## The loop -/

/-- How many blocks a file of a size needs, its indirect block included. -/
def blocksFor (size : Nat) : Nat :=
  (size + (BSIZE - 1)) / BSIZE + if NDIRECT * BSIZE < size then 1 else 0

theorem blocksFor_mono {size larger : Nat} (le : size ≤ larger) : blocksFor size ≤ blocksFor larger := by
  unfold blocksFor
  split_ifs <;> simp only [NDIRECT, BSIZE] at * <;> omega

/-- The place is used by a file of a size. -/
def Within (size : Nat) : Place → Prop
  | .addr _ index => index.val * BSIZE < size
  | .indirect _ index => (NDIRECT + index) * BSIZE < size

variable {place : Place}

theorem Within.mono {size larger : Nat} (within : Within size place) (le : size ≤ larger) :
    Within larger place := by
  cases place <;> exact Nat.lt_of_lt_of_le within le

theorem within_ofBlock {size bn : Nat} : Within size (.ofBlock inum bn) ↔ bn * BSIZE < size := by
  by_cases direct : bn < NDIRECT
  · rw [Place.ofBlock_direct direct]
    rfl
  · rw [Place.ofBlock_indirect direct, Within, Nat.add_sub_cancel' (Nat.not_lt.mp direct)]

/-- `iappend` is under way: the file has the blocks it needs up to `off`, and no others. -/
structure Filling (state : State) (inum : Nat) (din : Dinode) (off : Nat) : Prop where
  sane : Sane state
  loaded : Loaded wide state.disk inum din
  covered : Covered wide inum state.disk din off
  tight : ∀ place, place.inum = inum →
    (state.view.put inum din).target place ≠ 0 → Within off place
  /-- The rest of the last block is zero. -/
  slack : ∀ position, off ≤ position →
    (state.view.put inum din).target (.ofBlock inum (position / BSIZE)) ≠ 0 →
      (state.view.put inum din).byte inum position = 0

variable {off n1 : Nat}

theorem Filling.block_eq_zero (filling : Filling state inum din off) :
    din.block state.disk (off / BSIZE) = 0 ↔ off % BSIZE = 0 := by
  rw [← filling.loaded.target_block]
  constructor
  · intro absent
    refine Decidable.byContradiction fun inBlock => filling.covered (off / BSIZE) ?_ absent
    simp only [BSIZE] at inBlock ⊢
    omega
  · intro atEnd
    refine Decidable.byContradiction fun present => ?_
    have before := within_ofBlock.mp (filling.tight _ Place.inum_ofBlock present)
    simp only [BSIZE] at atEnd before
    omega

theorem Filling.indirect_eq_zero (filling : Filling state inum din off) :
    din.indirect = 0 ↔ off ≤ NDIRECT * BSIZE := by
  rw [Dinode.indirect, ← filling.loaded.target_addr]
  constructor
  · intro absent
    refine Nat.not_lt.mp fun beyond => ?_
    have present := filling.covered NDIRECT beyond
    rw [Place.ofBlock_indirect (Nat.lt_irrefl _)] at present
    rw [filling.loaded.target_addr] at absent
    exact (filling.loaded.of_indirect present).1 absent
  · intro direct
    refine Decidable.byContradiction fun present => ?_
    exact Nat.not_lt.mpr direct (filling.tight (.addr inum (Fin.last NDIRECT)) rfl present)

theorem Filling.missing_eq (filling : Filling state inum din off) (some : 0 < n1)
    (fits : n1 ≤ BSIZE - off % BSIZE) :
    blocksFor off + missing state.disk din (off / BSIZE) = blocksFor (off + n1) := by
  simp only [missing, filling.block_eq_zero, filling.indirect_eq_zero, blocksFor]
  clear filling
  split_ifs <;> simp only [NDIRECT, BSIZE] at * <;> omega

/-- The image after an iteration of `iappend`. -/
structure Filled (state : State) (inum : Nat) (din : Dinode) (off : Nat) (p : List UInt8) (n1 : Nat)
    (result : Dinode × State) : Prop where
  filling : Filling result.2 inum result.1 (off + n1)
  freeblock : result.2.freeblock + blocksFor off = state.freeblock + blocksFor (off + n1)
  freeinode : result.2.freeinode = state.freeinode
  metadata : ∀ block, block < nmeta → result.2.blocks block = state.blocks block
  size : result.1.size = din.size
  kernel : ∃ x disk, bmap wide state.disk din (off / BSIZE) = .ok (x, result.1, disk) ∧
    result.2.disk = overwrite disk x (bcopy p (disk x) (off % BSIZE) n1)
  others : ∀ place, place.inum ≠ inum → ((view wide result.2.disk).put inum result.1).target place =
    (state.view.put inum din).target place

theorem inum_of_fills {bn : Nat} (fills : place.Fills inum bn) : place.inum = inum := by
  rcases fills with rfl | ⟨rfl, _⟩
  · unfold Place.ofBlock
    split <;> rfl
  · rfl

theorem within_of_fills (fills : place.Fills inum (off / BSIZE)) (some : 0 < n1) :
    Within (off + n1) place := by
  have start := Nat.div_mul_le_self off BSIZE
  rcases fills with rfl | ⟨rfl, above⟩
  · exact within_ofBlock.mpr (by omega)
  · have least := Nat.mul_le_mul_right BSIZE above
    show NDIRECT * BSIZE < off + n1
    omega

/-- A write to a block of the file covers its bytes. -/
theorem Maps.filled {x : Nat} {din' : Dinode} {state' : State}
    (filling : Filling state inum din off) (inside : off / BSIZE < MAXFILE) (some : 0 < n1)
    (fits : n1 ≤ BSIZE - off % BSIZE) (p : List UInt8)
    (maps : Maps state din (off / BSIZE) (x, din', state')) :
    wide.IsData x ∧ Filled state inum din off p n1
      (din', { state' with
        blocks := overwrite state'.blocks x (bcopy p (state'.blocks x) (off % BSIZE) n1) }) := by
  have spec := bmap_spec filling.loaded inside
  have places := bmap_places filling.loaded inside
  have zeroed := fun absent => bmap_zeroed filling.loaded inside absent
  rw [maps.bmap] at spec places zeroed
  simp only [ensures_ok] at spec places zeroed
  obtain ⟨⟨grows, keeps⟩, isBlock, nonzero⟩ := spec
  have loaded := grows.loaded
  have present : (state'.view.put inum din').target (.ofBlock inum (off / BSIZE)) ≠ 0 :=
    isBlock ▸ nonzero
  have isData : wide.IsData x := isBlock ▸ loaded.isData present
  have used : x < state'.freeblock := isBlock ▸ lt_freeblock loaded present
  have notBitmap := isData_ne isData
  generalize writes : bcopy p (state'.blocks x) (off % BSIZE) n1 = bytes
  have disk : { state' with blocks := overwrite state'.blocks x bytes }.disk =
    overwrite state'.disk x bytes := disk_write notBitmap bytes
  have written := loaded.write present bytes
  rw [isBlock] at written
  have targets : ∀ place, ((view wide (overwrite state'.disk x bytes)).put inum din').target place =
      (state'.view.put inum din').target place := by
    intro place
    have same := loaded.owned.target_fill present bytes place
    rw [isBlock] at same
    rw [view_fill isData]
    exact same
  have fresh : ∀ place, ¬place.Fills inum (off / BSIZE) →
      ((view wide (overwrite state'.disk x bytes)).put inum din').target place =
        (state.view.put inum din).target place :=
    fun place outside => (targets place).trans (places place outside)
  have tight : ∀ place, place.inum = inum →
      ((view wide (overwrite state'.disk x bytes)).put inum din').target place ≠ 0 →
        Within (off + n1) place := by
    intro place isInode nonempty
    by_cases fills : place.Fills inum (off / BSIZE)
    · exact within_of_fills fills some
    · rw [fresh place fills] at nonempty
      exact (filling.tight place isInode nonempty).mono (Nat.le_add_right ..)
  refine ⟨isData, ⟨⟨maps.sane.write used bytes, ?_, ?_, ?_, ?_⟩, ?_, maps.freeinode, ?_, grows.size,
    ?_, ?_⟩⟩
  · rw [disk]
    exact written.loaded
  · rw [disk]
    have before := (filling.covered.grows grows).grows written
    have there : ((view wide (overwrite state'.disk x bytes)).put inum din').target
        (.ofBlock inum (off / BSIZE)) ≠ 0 := by
      rw [targets, isBlock]
      exact nonzero
    exact before.extend there (by omega)
  · rw [State.view, disk]
    exact tight
  · rw [State.view, disk]
    intro position beyond nonempty
    -- Only the block just written reaches beyond its last byte.
    have block : position / BSIZE = off / BSIZE := by
      have before := within_ofBlock.mp (tight _ Place.inum_ofBlock nonempty)
      simp only [BSIZE] at before fits ⊢
      omega
    have outside : ¬position % BSIZE < off % BSIZE + n1 := by
      simp only [BSIZE] at block ⊢
      omega
    have untouched : bytes (position % BSIZE) = state'.disk x (position % BSIZE) := by
      rw [← writes, bcopy, if_neg fun both => outside both.2, disk_of_ne notBitmap]
    have byte := loaded.owned.byte_fill present bytes inum position
    rw [isBlock, if_pos ⟨rfl, block⟩, untouched] at byte
    rw [view_fill isData]
    refine byte.trans ?_
    by_cases absent : din.block state.disk (off / BSIZE) = 0
    · rw [zeroed absent]
    · rw [← filling.loaded.target_block, ← block] at absent
      have old := keeps inum position absent
      rw [filling.slack position (by omega) absent, View.byte, block, isBlock] at old
      exact (congrFun (view_data isData) _).symm.trans old
  · have allocated := maps.freeblock
    have counted := filling.missing_eq some fits
    simp only at allocated ⊢
    omega
  · intro block below
    have different : block ≠ x :=
      Nat.ne_of_lt (Nat.lt_of_lt_of_le below (dataStart_wide ▸ isData.1))
    exact (overwrite_of_ne different).trans (maps.metadata block below)
  · refine ⟨x, state'.disk, maps.bmap, ?_⟩
    rw [disk, disk_of_ne notBitmap, writes]
  · rw [disk]
    exact fun place different => fresh place fun fills => different (inum_of_fills fills)

theorem iappendBlock_spec (filling : Filling state inum din off) (inside : off / BSIZE < MAXFILE)
    (some : 0 < n1) (fits : n1 ≤ BSIZE - off % BSIZE) (p : List UInt8) :
    Ensures (fun _ => FSSIZE + blocksFor off < state.freeblock + blocksFor (off + n1))
      (Filled state inum din off p n1) (iappendBlock state din off p n1) := by
  have counted := filling.missing_eq some fits
  refine ((appendBlock_spec filling.sane filling.loaded inside).mono_errors
    fun _ full => by omega).bind fun ⟨x, din', state'⟩ outcome => ?_
  rcases outcome with overflows | maps
  · obtain rfl : x = FSSIZE := overflows.block
    have stopped : rsect state' FSSIZE = .error .read := rsect_end overflows.length
    have full := overflows.full
    simp only [stopped]
    show FSSIZE + blocksFor off < _
    omega
  · obtain ⟨isData, filled⟩ := maps.filled filling inside some fits p
    have sane : Sane state' := maps.sane
    simp only [sane.rsect isData.2, ok_bind, sane.wsect isData.2, ensures_ok]
    exact filled

/-- The image after the loop of `iappend`, against the loop of `writei`. -/
structure Looped (state : State) (inum : Nat) (din : Dinode) (off limit : Nat)
    (kernel : Except Panic (Nat × Nat × Dinode × Disk)) (n : Nat) (result : Nat × Dinode × State) :
    Prop where
  stops : result.1 = limit
  filling : Filling result.2.2 inum result.2.1 limit
  freeblock : result.2.2.freeblock + blocksFor off = state.freeblock + blocksFor limit
  freeinode : result.2.2.freeinode = state.freeinode
  metadata : ∀ block, block < nmeta → result.2.2.blocks block = state.blocks block
  size : result.2.1.size = din.size
  agrees : kernel = .ok (limit, n, result.2.1, result.2.2.disk)
  others : ∀ place, place.inum ≠ inum →
    ((view wide result.2.2.disk).put inum result.2.1).target place =
      (state.view.put inum din).target place

theorem iappendLoop_spec {source : Nat → Option UInt8} {fuel tot n : Nat} {p : List UInt8}
    (filling : Filling state inum din off) (enough : p.length ≤ fuel)
    (bytes : ∀ index, source (tot + index) = p[index]?) (count : n = tot + p.length) :
    Ensures (fun _ => FSSIZE + blocksFor off < state.freeblock + blocksFor (off + p.length) ∨
        MAXFILE * BSIZE < off + p.length)
      (Looped state inum din off (off + p.length)
        (writeiLoop wide source fuel state.disk din off tot n) n)
      (iappendLoop fuel state din off p) := by
  induction fuel generalizing state din off tot p with
  | zero =>
    obtain rfl : p = [] := List.length_eq_zero_iff.mp (Nat.le_zero.mp enough)
    exact ⟨rfl, filling, rfl, rfl, fun _ _ => rfl, rfl, by rw [count]; rfl, fun _ _ => rfl⟩
  | succ fuel ih =>
    unfold iappendLoop writeiLoop
    by_cases nothing : p = []
    · subst nothing
      rw [if_pos rfl, if_neg (by simp [count])]
      exact ⟨rfl, filling, rfl, rfl, fun _ _ => rfl, rfl, by rw [count]; rfl, fun _ _ => rfl⟩
    have nonempty : 0 < p.length := List.length_pos_iff.mpr nothing
    rw [if_neg nothing, if_pos (show tot < n by omega)]
    split
    · rename_i inside
      have fits := Nat.min_le_right p.length (BSIZE - off % BSIZE)
      have few := Nat.min_le_left p.length (BSIZE - off % BSIZE)
      have same : n - tot = p.length := by omega
      have some := chunk_pos off nonempty
      rw [same]
      generalize min p.length (BSIZE - off % BSIZE) = n1 at *
      have larger := blocksFor_mono (show off + n1 ≤ off + p.length by omega)
      refine ((iappendBlock_spec filling inside some fits p).mono_errors
        fun _ full => Or.inl (by omega)).bind fun result filled => ?_
      obtain ⟨din', state'⟩ := result
      obtain ⟨x, disk, mapped, written⟩ := filled.kernel
      have copied : copyin source (disk x) (off % BSIZE) tot n1 =
          (bcopy p (disk x) (off % BSIZE) n1, true) := by
        rw [copyin_total]
        · congr 1
          funext index
          unfold bcopy
          split
          · rw [bytes, List.getD_eq_getElem?_getD]
          · rfl
        · intro index lower upper
          obtain ⟨skipped, rfl⟩ := Nat.exists_eq_add_of_le lower
          rw [bytes, List.getElem?_eq_getElem (by omega)]
          rfl
      have shorter : (p.drop n1).length = p.length - n1 := List.length_drop
      have later : ∀ index, source (tot + n1 + index) = (p.drop n1)[index]? :=
        fun index => by rw [Nat.add_assoc, bytes, List.getElem?_drop]
      have rest := ih filled.filling (by omega) later (by omega)
      have used := filled.freeblock
      have whole : off + n1 + (p.drop n1).length = off + p.length := by omega
      simp only [mapped, ok_bind, copied, if_true] at rest ⊢
      simp only at used
      rw [whole] at rest
      refine (rest.mono fun result looped => ?_).mono_errors fun _ full => by omega
      have allocated := looped.freeblock
      refine ⟨looped.stops, looped.filling, ?_, looped.freeinode.trans filled.freeinode, ?_,
        looped.size.trans filled.size, ?_, ?_⟩
      · omega
      · intro block below
        exact (looped.metadata block below).trans (filled.metadata block below)
      · have agrees := looped.agrees
        rw [written] at agrees
        exact agrees
      · intro place different
        exact (looped.others place different).trans (filled.others place different)
    · rename_i beyond
      have start : MAXFILE * BSIZE ≤ off :=
        (Nat.le_div_iff_mul_le (by decide)).mp (Nat.not_lt.mp beyond)
      exact Or.inr (Nat.lt_of_le_of_lt start (Nat.lt_add_of_pos_right nonempty))

/-! ## Inodes -/

theorem IBLOCK_bounds (inside : inum < wide.ninodes) :
    sb.inodestart ≤ wide.IBLOCK inum ∧ wide.IBLOCK inum < sb.bmapstart :=
  ⟨Nat.le_add_left .., wide.IBLOCK_lt inside⟩

theorem IBLOCK_lt_FSSIZE (inside : inum < wide.ninodes) : wide.IBLOCK inum < FSSIZE :=
  Nat.lt_trans (IBLOCK_bounds inside).2 (by decide)

theorem Sane.rinode (sane : Sane state) (inside : inum < wide.ninodes) :
    rinode state inum = .ok (dinode wide state.disk inum) := by
  have block : Mkfs.rsect state (sb.IBLOCK inum) = .ok (state.blocks (wide.IBLOCK inum)) :=
    sane.rsect (IBLOCK_lt_FSSIZE inside)
  rw [Mkfs.rinode, block, ok_bind, ← disk_of_ne (Nat.ne_of_lt (IBLOCK_bounds inside).2)]
  rfl

/-- The image with an inode written. -/
def State.put (state : State) (inum : Nat) (ip : Dinode) : State :=
  { state with blocks := putDinode wide state.blocks inum ip }

theorem Sane.winode (sane : Sane state) (inside : inum < wide.ninodes) (ip : Dinode) :
    winode state inum ip = .ok (state.put inum ip) := by
  have block : Mkfs.rsect state (sb.IBLOCK inum) = .ok (state.blocks (wide.IBLOCK inum)) :=
    sane.rsect (IBLOCK_lt_FSSIZE inside)
  rw [Mkfs.winode, block, ok_bind]
  exact congrArg Except.ok (sane.wsect (IBLOCK_lt_FSSIZE inside) _)

theorem disk_put (inside : inum < wide.ninodes) (ip : Dinode) :
    (state.put inum ip).disk = putDinode wide state.disk inum ip := by
  have different := Nat.ne_of_lt (IBLOCK_bounds inside).2
  rw [State.put, putDinode, disk_write different, putDinode, disk_of_ne different]

theorem Sane.put (sane : Sane state) (inside : inum < wide.ninodes) (ip : Dinode) :
    Sane (state.put inum ip) := by
  refine sane.write (Nat.lt_of_lt_of_le (IBLOCK_bounds inside).2 ?_) _
  exact Nat.le_trans (by decide) sane.low

theorem put_superblock (inside : inum < wide.ninodes) (ip : Dinode) :
    (state.put inum ip).blocks 1 = state.blocks 1 := by
  have different : (1 : Nat) ≠ wide.IBLOCK inum :=
    Nat.ne_of_lt (Nat.lt_of_lt_of_le (by decide) (IBLOCK_bounds inside).1)
  show putDinode wide state.blocks inum ip 1 = _
  rw [putDinode, overwrite_of_ne different]

/-! ## Appending -/

/-- The image of a file system under construction. -/
structure Built (state : State) : Prop where
  sane : Sane state
  owned : Owned wide (view wide state.disk)
  /-- No file has blocks beyond its end. -/
  tight : ∀ place, (view wide state.disk).target place ≠ 0 →
    Within ((view wide state.disk).inode place.inum).size place
  slack : ∀ other position, ((view wide state.disk).inode other).size ≤ position →
    (view wide state.disk).target (.ofBlock other (position / BSIZE)) ≠ 0 →
      (view wide state.disk).byte other position = 0
  unborn : ∀ other, state.freeinode ≤ other → other < wide.ninodes →
    dinode wide state.disk other = freshDinode 0
  superblock : state.blocks 1 = zeroes.storeWords 0 superblock

theorem put_dinode (inside : inum < wide.ninodes) :
    state.view.put inum (dinode wide state.disk inum) = state.view := by
  rw [← view_inode inside, View.put_self]

theorem Built.loaded (built : Built state) (inside : inum < wide.ninodes)
    (live : (dinode wide state.disk inum).type ≠ 0) :
    Loaded wide state.disk inum (dinode wide state.disk inum) := by
  refine ⟨?_, live, dinode_fits ..⟩
  rw [put_dinode inside]
  exact built.owned

theorem Built.filling (built : Built state) (inside : inum < wide.ninodes)
    (live : (dinode wide state.disk inum).type ≠ 0) :
    Filling state inum (dinode wide state.disk inum) (dinode wide state.disk inum).size := by
  refine ⟨built.sane, built.loaded inside live, (built.loaded inside live).covered_size, ?_, ?_⟩
  · rw [← view_inode inside, View.put_self]
    rintro place rfl present
    exact built.tight place present
  · rw [← view_inode inside, View.put_self]
    exact built.slack inum

theorem Filling.bound (filling : Filling state inum din off) : off ≤ MAXFILE * BSIZE := by
  refine Nat.not_lt.mp fun beyond => ?_
  have present := filling.covered MAXFILE beyond
  have above : ¬MAXFILE < NDIRECT := by decide
  rw [Place.ofBlock_indirect above] at present
  exact absurd (filling.loaded.of_indirect present).2 (by decide)

structure Appended (state : State) (inum : Nat) (p : List UInt8) (after : State) : Prop where
  built : Built after
  freeinode : after.freeinode = state.freeinode
  freeblock : after.freeblock + blocksFor (dinode wide state.disk inum).size =
    state.freeblock + blocksFor ((dinode wide state.disk inum).size + p.length)
  contents : contents wide after.disk inum = contents wide state.disk inum ++ p
  agrees : (dinode wide state.disk inum).Agrees (dinode wide after.disk inum)
  others : ∀ other, other < wide.ninodes → other ≠ inum →
    dinode wide after.disk other = dinode wide state.disk other ∧
      Fs.contents wide after.disk other = Fs.contents wide state.disk other

/-- The image once the new size is written. -/
abbrev State.close (state : State) (inum : Nat) (din : Dinode) (off : Nat) : State :=
  state.put inum (din.resize off)

/-- `iappend` and `writei` at the end of the file make the same image. -/
theorem Looped.writei {p : List UInt8} {off' : Nat} {din' : Dinode} {state' : State}
    (inside : inum < wide.ninodes)
    (looped : Looped state inum din din.size (din.size + p.length) (writeiLoop wide (p[·]?) p.length
      state.disk din din.size 0 p.length) p.length (off', din', state')) :
    Fs.writei wide state.disk inum din (p[·]?) din.size p.length =
      .ok (p.length, din'.resize off', (state'.close inum din' off').disk) := by
  have bound := looped.filling.bound
  have stops : off' = din.size + p.length := looped.stops
  have size : din'.size = din.size := looped.size
  have noWrap : uadd din.size p.length = din.size + p.length := by
    refine Nat.mod_eq_of_lt ?_
    simp only [MAXFILE, NDIRECT, NINDIRECT, BSIZE] at bound
    omega
  unfold Fs.writei
  rw [noWrap, if_neg (by omega), if_neg (Nat.not_lt.mpr bound), looped.agrees]
  simp only [ok_bind, ← stops]
  have resized : (if off' > din'.size then din'.resize off' else din') = din'.resize off' := by
    split
    · rfl
    · have same : off' = din'.size := by omega
      rw [same]
  rw [resized, disk_put inside, iupdate]

section

variable {p : List UInt8} {off' : Nat} {din' : Dinode} {state' : State}

/-- The inode written at the end has the blocks of the copy in memory. -/
theorem put_resized (inside : inum < wide.ninodes) (fits : (din'.resize off').Fits) :
    (∀ place, (state'.close inum din' off').view.target place =
      (state'.view.put inum din').target place) ∧
    (state'.close inum din' off').view.byte =
      (state'.view.put inum din').byte := by
  have twice : (state'.view.put inum din').put inum (din'.resize off') =
    state'.view.put inum (din'.resize off') := View.put_put _
  have same : ∀ index, (din'.resize off').addr index =
      (((state'.view.put inum din').inode inum).addr index) := by
    intro index
    rw [View.put_inode_self]
    rfl
  rw [State.view, disk_put inside, view_putDinode inside fits, ← twice]
  exact ⟨View.target_congr (View.put_addr same) fun _ _ => rfl, View.byte_put same⟩

variable (built : Built state) (inside : inum < wide.ninodes)
  (looped : Looped state inum (dinode wide state.disk inum) (dinode wide state.disk inum).size
    ((dinode wide state.disk inum).size + p.length)
    (writeiLoop wide (p[·]?) p.length state.disk (dinode wide state.disk inum)
      (dinode wide state.disk inum).size 0 p.length) p.length (off', din', state'))
  (stored : Stored wide inum state.disk (state'.close inum din' off').disk
    (din'.resize off')) (fits : (din'.resize off').Fits)

include built inside looped stored fits

theorem Looped.tight (place : Place)
    (present : (state'.close inum din' off').view.target place ≠ 0) :
    Within ((state'.close inum din' off').view.inode place.inum).size
      place := by
  have stops : off' = (dinode wide state.disk inum).size + p.length := looped.stops
  rw [(put_resized inside fits).1] at present
  rw [stored.inodes]
  by_cases isInode : place.inum = inum
  · rw [isInode, Function.update_self]
    exact stops ▸ looped.filling.tight place isInode present
  · rw [Function.update_of_ne isInode]
    rw [looped.others place isInode, put_dinode inside] at present
    exact built.tight place present

theorem Looped.slack (spares : state.view.Spares inum (state'.close inum din' off').view)
    (other position : Nat)
    (beyond : ((state'.close inum din' off').view.inode other).size ≤ position)
    (present : (state'.close inum din' off').view.target (.ofBlock other (position / BSIZE)) ≠ 0) :
    (state'.close inum din' off').view.byte other position = 0 := by
  have stops : off' = (dinode wide state.disk inum).size + p.length := looped.stops
  obtain ⟨targets, bytes⟩ := @put_resized inum off' din' state' inside fits
  rw [targets] at present
  rw [stored.inodes] at beyond
  by_cases isInode : other = inum
  · subst isInode
    rw [Function.update_self] at beyond
    rw [bytes]
    exact looped.filling.slack position (stops ▸ beyond) present
  · rw [Function.update_of_ne isInode] at beyond
    rw [looped.others _ (Place.inum_ofBlock.trans_ne isInode), put_dinode inside] at present
    exact (spares other position isInode present).trans (built.slack other position beyond present)

end

theorem iappend_spec (built : Built state) (inside : inum < wide.ninodes)
    (live : (dinode wide state.disk inum).type ≠ 0) (p : List UInt8) :
    Ensures (fun _ => FSSIZE + blocksFor (dinode wide state.disk inum).size <
          state.freeblock + blocksFor ((dinode wide state.disk inum).size + p.length) ∨
        MAXFILE * BSIZE < (dinode wide state.disk inum).size + p.length)
      (Appended state inum p) (iappend state inum p) := by
  have filling := built.filling inside live
  have loop := @iappendLoop_spec _ _ _ _ (p[·]?) _ 0 _ _ filling (Nat.le_refl p.length)
    (fun index => by rw [Nat.zero_add]) (Nat.zero_add _).symm
  rw [iappend, built.sane.rinode inside, ok_bind]
  refine loop.bind fun ⟨off', din', state'⟩ looped => ?_
  have sane : Sane state' := looped.filling.sane
  simp only [sane.winode inside, ensures_ok]
  have bound := looped.filling.bound
  have sizeFits : (dinode wide state.disk inum).size < 2 ^ 32 := (dinode_fits ..).size
  have lengthFits : p.length < 2 ^ 32 := by
    simp only [MAXFILE, NDIRECT, NINDIRECT, BSIZE] at bound
    omega
  -- The rest is what the kernel's `writei` does.
  have kernel := looped.writei inside
  have spec := writei_spec (built.loaded inside live) inside rfl (p[·]?) sizeFits lengthFits
  have accepted : ¬Refused (dinode wide state.disk inum).size (dinode wide state.disk inum).size
      p.length := by
    simp only [Refused, MAXFILE, NDIRECT, NINDIRECT, BSIZE] at bound ⊢
    omega
  have flat := writei_accepted built.owned.wellFormed inside live (p[·]?) sizeFits lengthFits accepted
  have frame := writei_frame (built.loaded inside live) inside rfl (p[·]?) sizeFits lengthFits
  rw [kernel] at spec flat frame
  simp only [ensures_ok] at spec flat frame
  obtain ⟨stored, agrees, _⟩ := spec
  have current := stored.dinode_self inside
  have unborn : ∀ other, state.freeinode ≤ other → other < wide.ninodes → other ≠ inum := by
    rintro other later isInode rfl
    exact live (congrArg Dinode.type (built.unborn other later isInode))
  have fits : (din'.resize off').Fits := current ▸ dinode_fits ..
  refine ⟨⟨sane.put inside _, stored.owned, looped.tight built inside stored fits,
    looped.slack built inside stored fits frame, ?_, ?_⟩, looped.freeinode, looped.freeblock, ?_, ?_, ?_⟩
  · intro other later isInode
    have before : state.freeinode ≤ other := looped.freeinode ▸ later
    exact (stored.dinode_other (unborn other before isInode) isInode).trans
      (built.unborn other before isInode)
  · exact (put_superblock inside _).trans ((looped.metadata 1 (by decide)).trans built.superblock)
  · have written := (flat.all fun index less => by simp [less]).2
    rw [written, ← Fs.contents_length, splice_end]
    congr 1
    exact sourceBytes_getElem? p
  · exact (congrArg (Dinode.Agrees _) current).mpr agrees
  · intro other isInode different
    exact ⟨stored.dinode_other different isInode, flat.others.contents other isInode different⟩

end Xv6.Mkfs
