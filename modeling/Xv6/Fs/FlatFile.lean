import Mathlib.Data.Nat.Count
import Xv6.Data.Splice
import Xv6.Fs.BlockOwnership

namespace Xv6.Fs

open Xv6.Data Xv6.Log

/-! # Files as flat arrays of bytes

What `readi` returns and `writei` leaves behind, without the blocks underneath.
-/

/-- The bytes of a file. -/
def contents (sb : Superblock) (disk : Disk) (inum : Nat) : List UInt8 :=
  (List.range (dinode sb disk inum).size).map ((view sb disk).byte inum)

/-- The number of blocks that `balloc` can still hand out. -/
def freeBlocks (sb : Superblock) (disk : Disk) : Nat :=
  Nat.count (fun block => bit sb disk block = false) sb.size

/-- The blocks of a file that a range of offsets touches. -/
def touched (off n : Nat) : List Nat :=
  List.range' (off / BSIZE) (if n = 0 then 0 else (off + n - 1) / BSIZE + 1 - off / BSIZE)

/-- How many of these blocks of a file are not there yet, with the indirect block if one of them
needs it. -/
def View.missing (view : View) (inum : Nat) (blocks : List Nat) : Nat :=
  blocks.countP (fun bn => view.target (.ofBlock inum bn) = 0) +
    if blocks.any (NDIRECT ≤ ·) = true ∧ view.target (.addr inum (Fin.last NDIRECT)) = 0 then 1 else 0

variable {sb : Superblock} {disk : Disk} {inum : Nat} {ip : Dinode}

@[simp]
theorem contents_length (sb : Superblock) (disk : Disk) (inum : Nat) :
    (contents sb disk inum).length = (dinode sb disk inum).size := by
  simp [contents]

theorem contents_getElem? (index : Nat) : (contents sb disk inum)[index]? =
      if index < (dinode sb disk inum).size then some ((view sb disk).byte inum index) else none :=
  map_range_getElem? ..

/-! ## Running out of blocks -/

variable {disk' : Disk}

theorem freeBlocks_congr (same : (view sb disk').bit = (view sb disk).bit) :
    freeBlocks sb disk' = freeBlocks sb disk := by
  rw [freeBlocks, freeBlocks, Nat.count_eq_card_filter_range, Nat.count_eq_card_filter_range]
  congr 1
  refine Finset.filter_congr fun block member => ?_
  have inside := Finset.mem_range.mp member
  rw [← view_bit inside, ← view_bit inside, same]

theorem freeBlocks_take {block : Nat} (free : Free sb (view sb disk) block)
    (taken : view sb disk' = (view sb disk).take block) :
    freeBlocks sb disk' + 1 = freeBlocks sb disk := by
  have inside := free.isData.2
  have member : block ∈ (Finset.range sb.size).filter fun other => bit sb disk other = false :=
    Finset.mem_filter.mpr ⟨Finset.mem_range.mpr inside, view_bit inside ▸ free.clear⟩
  have rest : ((Finset.range sb.size).filter fun other => bit sb disk' other = false) =
      ((Finset.range sb.size).filter fun other => bit sb disk other = false).erase block := by
    ext other
    simp only [Finset.mem_erase, Finset.mem_filter, Finset.mem_range]
    by_cases isBlock : other < sb.size
    · rw [← view_bit isBlock, ← view_bit isBlock, taken]
      by_cases same : other = block
      · subst same
        simp [View.take, View.mark, View.fill]
      · simp [View.take, View.mark, View.fill, same, isBlock]
    · simp [isBlock]
  rw [freeBlocks, freeBlocks, Nat.count_eq_card_filter_range, Nat.count_eq_card_filter_range, rest,
    Finset.card_erase_add_one member]

theorem balloc_free (metadata : ∀ block, block < sb.dataStart → (view sb disk).bit block = true) :
    Ensures (fun reason => reason = .outOfBlocks ∧ freeBlocks sb disk = 0)
      (fun result => freeBlocks sb result.2 + 1 = freeBlocks sb disk) (balloc sb disk) := by
  have spec := balloc_spec metadata
  cases allocated : balloc sb disk with
  | ok result =>
    rw [allocated] at spec
    exact freeBlocks_take spec.1 spec.2
  | error reason =>
    unfold balloc at allocated
    split at allocated
    · contradiction
    · rename_i none
      cases allocated
      refine ⟨rfl, Nat.count_iff_forall_not.mpr fun block inside => ?_⟩
      simpa using List.find?_eq_none.mp none block (List.mem_range.mpr inside)

theorem addrAlloc_free (loaded : Loaded sb disk inum ip) (index : Fin (NDIRECT + 1)) :
    Ensures (fun reason => reason = .outOfBlocks ∧ freeBlocks sb disk = 0)
      (fun result => freeBlocks sb disk ≤
        freeBlocks sb result.2.2 + if ip.addrs index = 0 then 1 else 0) (addrAlloc sb disk ip index) := by
  unfold addrAlloc
  split
  · refine (balloc_free loaded.owned.metadata).bind fun result taken => ?_
    exact Nat.le_of_eq taken.symm
  · exact Nat.le_refl _

theorem Loaded.missing_one (loaded : Loaded sb disk inum ip) {bn : Nat}
    (absent : ((view sb disk).put inum ip).target (.ofBlock inum bn) = 0) :
    ((view sb disk).put inum ip).missing inum [bn] =
      1 + if NDIRECT ≤ bn ∧ ip.indirect = 0 then 1 else 0 := by
  simp [View.missing, absent, loaded.target_addr]

/-- `bmap` takes the blocks that are missing. -/
theorem bmap_free (loaded : Loaded sb disk inum ip) {bn : Nat} (inside : bn < MAXFILE) :
    Ensures (fun reason => reason = .outOfBlocks ∧
        freeBlocks sb disk < ((view sb disk).put inum ip).missing inum [bn])
      (fun result => freeBlocks sb disk ≤
          freeBlocks sb result.2.2 + ((view sb disk).put inum ip).missing inum [bn] ∧
        (NDIRECT ≤ bn → result.2.1.indirect ≠ 0)) (bmap sb disk ip bn) := by
  by_cases absent : ((view sb disk).put inum ip).target (.ofBlock inum bn) = 0
  · rw [loaded.missing_one absent]
    unfold bmap
    by_cases direct : bn < NDIRECT
    · rw [dif_pos direct, if_neg fun indirect => absurd direct (Nat.not_lt.mpr indirect.1)]
      refine ((addrAlloc_free loaded _).mono fun result few => ⟨?_, fun indirect => ?_⟩).mono_errors
        fun reason ⟨isOut, exhausted⟩ => ⟨isOut, by omega⟩
      · refine Nat.le_trans few (Nat.add_le_add_left ?_ _)
        split <;> omega
      · exact absurd direct (Nat.not_lt.mpr indirect)
    · have entry : bn - NDIRECT < NINDIRECT := by
        unfold MAXFILE at inside
        omega
      rw [dif_neg direct, if_pos entry]
      refine Ensures.bind (((addrAlloc_spec loaded (Fin.last NDIRECT)).and
        (addrAlloc_free loaded (Fin.last NDIRECT))).mono_errors
          fun reason ⟨_, isOut, exhausted⟩ => ⟨isOut, by omega⟩) ?_
      intro ⟨indirect, ip', disk'⟩ ⟨⟨allocates, stored, nonzero⟩, few⟩
      simp only at allocates stored nonzero few ⊢
      subst stored
      simp only [and_iff_right (Nat.le_of_not_lt direct), Dinode.indirect]
      have loaded' := allocates.grows.loaded
      by_cases vacant : word disk' ip'.indirect (bn - NDIRECT) = 0
      · rw [if_pos vacant]
        refine Ensures.bind ((balloc_free loaded'.owned.metadata).mono_errors
          fun reason ⟨isOut, exhausted⟩ => ⟨isOut, by omega⟩) ?_
        intro ⟨addr, disk''⟩ taken
        have same : freeBlocks sb (putWord disk'' ip'.indirect (bn - NDIRECT) addr) =
            freeBlocks sb disk'' := by
          apply freeBlocks_congr
          rw [view_putWord (loaded'.isData_addr nonzero)]
          rfl
        simp only [ensures_ok, same]
        simp only at taken
        exact ⟨by omega, fun _ => nonzero⟩
      · rw [if_neg vacant, ensures_ok]
        exact ⟨by dsimp only; omega, fun _ => nonzero⟩
  · rw [bmap_present loaded absent]
    refine ⟨Nat.le_add_right .., fun indirect => ?_⟩
    rw [Place.ofBlock_indirect (Nat.not_lt.mpr indirect)] at absent
    exact (loaded.of_indirect absent).1

/-! ## What a write leaves alone -/

/-- The other files hold what they held. -/
def View.Spares (inum : Nat) (before after : View) : Prop :=
  ∀ other off, other ≠ inum → before.target (.ofBlock other (off / BSIZE)) ≠ 0 →
    after.byte other off = before.byte other off

variable {before after : View}

theorem View.Keeps.spares (keeps : before.Keeps after) : before.Spares inum after :=
  fun other off _ present => keeps other off present

theorem View.Spares.trans {middle : View} (first : before.Spares inum middle)
    (second : middle.Spares inum after)
    (present : ∀ place, before.target place ≠ 0 → middle.target place ≠ 0) :
    before.Spares inum after := by
  intro other off different allocated
  rw [second other off different (present _ allocated), first other off different allocated]

theorem View.Spares.congr {after' : View} (spares : before.Spares inum after)
    (same : after'.byte = after.byte) : before.Spares inum after' := by
  intro other off different present
  rw [same]
  exact spares other off different present

theorem Loaded.write_spares (loaded : Loaded sb disk inum ip) {bn : Nat}
    (present : ((view sb disk).put inum ip).target (.ofBlock inum bn) ≠ 0) (bytes : Bytes) :
    ((view sb disk).put inum ip).Spares inum
      ((view sb (overwrite disk (((view sb disk).put inum ip).target (.ofBlock inum bn)) bytes)).put
        inum ip) := by
  intro other off different _
  have filled := @view_fill sb disk _ bytes (loaded.isData present)
  have byte := loaded.owned.byte_fill present bytes other off
  rw [if_neg fun both => different both.1] at byte
  rw [filled]
  exact byte

theorem Loaded.write_freeBlocks (loaded : Loaded sb disk inum ip) {bn : Nat}
    (present : ((view sb disk).put inum ip).target (.ofBlock inum bn) ≠ 0) (bytes : Bytes) :
    freeBlocks sb (overwrite disk (((view sb disk).put inum ip).target (.ofBlock inum bn)) bytes) =
      freeBlocks sb disk := by
  apply freeBlocks_congr
  rw [view_fill (loaded.isData present)]
  rfl

variable {off n : Nat}

theorem touched_cons {m : Nat} (fits : m = min n (BSIZE - off % BSIZE)) (some : 0 < n) :
    touched off n = off / BSIZE :: touched (off + m) (n - m) := by
  unfold touched
  simp only [BSIZE] at fits ⊢
  rw [if_neg (by omega)]
  by_cases last : n - m = 0
  · rw [if_pos last, show (off + n - 1) / 1024 + 1 - off / 1024 = 0 + 1 by omega, List.range'_succ]
    rfl
  · have next : (off + m) / 1024 = off / 1024 + 1 := by omega
    have whole : off + m + (n - m) = off + n := by omega
    rw [if_neg last, next, whole, show (off + n - 1) / 1024 + 1 - off / 1024 =
      (off + n - 1) / 1024 + 1 - (off / 1024 + 1) + 1 by omega, List.range'_succ]

/-- What is missing after the first block has got its place. -/
theorem View.missing_cons {bn : Nat} {rest : List Nat}
    (grown : ∀ place, before.target place ≠ 0 → after.target place ≠ 0)
    (linked : NDIRECT ≤ bn → after.target (.addr inum (Fin.last NDIRECT)) ≠ 0) :
    after.missing inum rest + before.missing inum [bn] ≤ before.missing inum (bn :: rest) := by
  have fewer : rest.countP (fun bn => after.target (.ofBlock inum bn) = 0) ≤
      rest.countP fun bn => before.target (.ofBlock inum bn) = 0 := by
    refine List.countP_mono_left fun bn _ absent => ?_
    rw [decide_eq_true_eq] at absent ⊢
    by_contra present
    exact grown _ present absent
  have kept := grown (.addr inum (Fin.last NDIRECT))
  simp only [View.missing, List.countP_cons, List.countP_nil, List.any_cons, List.any_nil, Bool.or_false,
    Bool.or_eq_true, decide_eq_true_eq]
  by_cases indirect : NDIRECT ≤ bn
  · simp only [linked indirect, indirect, and_false, true_or, true_and, if_false]
    omega
  · simp only [indirect, false_and, false_or, if_false]
    by_cases lacks : before.target (.addr inum (Fin.last NDIRECT)) = 0
    · by_cases needed : (rest.any fun bn => decide (NDIRECT ≤ bn)) = true
      · simp only [lacks, needed, true_and, if_true]
        split <;> omega
      · simp only [needed, Bool.false_eq_true, false_and, if_false]
        omega
    · simp only [kept lacks, and_false, if_false]
      omega

theorem View.missing_head (bn : Nat) (rest : List Nat) :
    before.missing inum [bn] ≤ before.missing inum (bn :: rest) := by
  refine Nat.add_le_add (List.Sublist.countP_le (by simp)) ?_
  split
  · rename_i lacks
    rw [if_pos ⟨by simp_all, lacks.2⟩]
  · exact Nat.zero_le _

/-- The loop of `writei` fails for want of blocks only, and touches no other file. -/
theorem writeiLoop_frame (source : Nat → Option UInt8) (fuel : Nat) {tot : Nat}
    (loaded : Loaded sb disk inum ip) (bound : off + (n - tot) ≤ MAXFILE * BSIZE) :
    Ensures (fun reason => reason = .outOfBlocks ∧
        freeBlocks sb disk < ((view sb disk).put inum ip).missing inum (touched off (n - tot)))
      (fun result => ((view sb disk).put inum ip).Spares inum
        ((view sb result.2.2.2).put inum result.2.2.1))
      (writeiLoop sb source fuel disk ip off tot n) := by
  induction fuel generalizing disk ip off tot with
  | zero => exact (View.Keeps.refl _).spares
  | succ fuel ih =>
    unfold writeiLoop
    split
    · rename_i more
      have inside : off / BSIZE < MAXFILE := by
        simp only [BSIZE] at bound ⊢
        omega
      have first := @touched_cons off (n - tot) _ rfl (by omega)
      refine Ensures.bind (((bmap_spec loaded inside).and (bmap_free loaded inside)).mono_errors
        fun reason full => ⟨full.2.1, ?_⟩) ?_
      · rw [first]
        exact Nat.lt_of_lt_of_le full.2.2 (View.missing_head ..)
      rintro ⟨addr, ip', disk'⟩ ⟨⟨allocates, found, nonzero⟩, few, linked⟩
      simp only at allocates found nonzero few linked ⊢
      subst found
      have loaded' := allocates.grows.loaded
      have spared := fun bytes => allocates.keeps.spares.trans (loaded'.write_spares nonzero bytes)
        fun _ => allocates.grows.ne_zero
      have le := Nat.min_le_left (n - tot) (BSIZE - off % BSIZE)
      generalize min (n - tot) (BSIZE - off % BSIZE) = m at *
      split
      · have written := fun bytes => loaded'.write nonzero bytes
        refine ((ih (written _).loaded (by omega)).mono fun result rest => ?_).mono_errors
          fun reason full => ⟨full.1, ?_⟩
        · exact (spared _).trans rest fun _ present =>
            (allocates.grows.trans (written _)).ne_zero present
        · have lack := full.2
          rw [loaded'.write_freeBlocks nonzero, ← Nat.sub_sub] at lack
          rw [first]
          refine Nat.lt_of_lt_of_le (Nat.lt_of_le_of_lt few (Nat.add_lt_add_right lack _))
            (View.missing_cons (fun _ present => (allocates.grows.trans (written _)).ne_zero present) ?_)
          intro indirect
          rw [(written _).loaded.target_addr]
          exact linked indirect
      · exact spared _
    · exact (View.Keeps.refl _).spares

theorem writei_frame (loaded : Loaded sb disk inum ip) (inside : inum < sb.ninodes)
    (current : dinode sb disk inum = ip) (source : Nat → Option UInt8) (offFits : off < 2 ^ 32)
    (countFits : n < 2 ^ 32) :
    Ensures (fun reason => reason = .outOfBlocks ∧
        freeBlocks sb disk < (view sb disk).missing inum (touched off n))
      (fun result => (view sb disk).Spares inum (view sb result.2.2))
      (writei sb disk inum ip source off n) := by
  have same : (view sb disk).put inum ip = view sb disk := by
    rw [← current, ← view_inode inside, View.put_self]
  unfold writei
  split
  · exact (View.Keeps.refl _).spares
  · rename_i acceptable
    split
    · exact (View.Keeps.refl _).spares
    · rename_i small
      unfold uadd at acceptable small
      have covered := loaded.covered_size.mono (show off ≤ ip.size by omega)
      have bound : off + (n - 0) ≤ MAXFILE * BSIZE := by omega
      refine Ensures.bind (((writeiLoop_spec source n loaded covered bound).and
        (writeiLoop_frame source n loaded bound)).mono_errors fun reason ⟨_, lack⟩ => same ▸ lack) ?_
      intro ⟨off', tot, ip', disk'⟩ ⟨⟨grows, coveredAfter, bounded, _⟩, spares⟩
      simp only at grows coveredAfter bounded spares ⊢
      rw [same] at spares
      split
      · have resized := grows.loaded.resize coveredAfter bounded
        exact spares.congr (byte_iupdate inside resized.fits fun _ => rfl)
      · exact spares.congr (byte_iupdate inside grows.loaded.fits fun _ => rfl)

/-! ## Contents -/

theorem byte_free {other : Nat} (free : ((view sb disk).inode other).type = 0) (off : Nat) :
    (view sb disk).byte other off = 0 := by
  have target : (view sb disk).target (.ofBlock other (off / BSIZE)) = 0 := by
    unfold Place.ofBlock
    split
    · exact if_pos free
    · refine if_neg fun present => ?_
      exact present.1 (if_pos free)
  have notData : ¬sb.IsData 0 := fun isData => isData.ne_zero rfl
  rw [View.byte, target]
  simp [view, notData]

theorem contents_spared {ip' : Dinode} {other : Nat} (owned : Owned sb (view sb disk))
    (stored : Stored sb inum disk disk' ip') (spares : (view sb disk).Spares inum (view sb disk'))
    (different : other ≠ inum) (inside : other < sb.ninodes) :
    contents sb disk' other = contents sb disk other := by
  have same : dinode sb disk' other = dinode sb disk other := stored.dinode_other different inside
  rw [contents, contents, same]
  refine List.map_congr_left fun off member => ?_
  have below := List.mem_range.mp member
  by_cases free : ((view sb disk).inode other).type = 0
  · have freeAfter : ((view sb disk').inode other).type = 0 := by
      rw [stored.inodes, Function.update_of_ne different]
      exact free
    rw [byte_free free, byte_free freeAfter]
  · rw [← view_inode inside] at below
    exact spares other off different (owned.present free below)

/-- The source that a successful copy reads. -/
def sourceBytes (source : Nat → Option UInt8) (n : Nat) : List UInt8 :=
  (List.range n).map fun index => (source index).getD 0

@[simp]
theorem sourceBytes_length (source : Nat → Option UInt8) (n : Nat) :
    (sourceBytes source n).length = n := by
  simp [sourceBytes]

theorem sourceBytes_getElem? (bytes : List UInt8) : sourceBytes (bytes[·]?) bytes.length = bytes := by
  apply List.ext_getElem?
  intro index
  rw [sourceBytes, map_range_getElem?]
  split
  · rename_i inside
    rw [List.getElem?_eq_getElem inside]
    rfl
  · rw [List.getElem?_eq_none (by omega)]

theorem contents_wrote {source : Nat → Option UInt8} (owned : Owned sb (view sb disk))
    (inside : inum < sb.ninodes) (live : (dinode sb disk inum).type ≠ 0)
    (below : off ≤ (dinode sb disk inum).size)
    (size : (dinode sb disk' inum).size = max (dinode sb disk inum).size (off + n))
    (wrote : Wrote inum (view sb disk) (view sb disk') source off 0 (off + n)) :
    contents sb disk' inum = splice (contents sb disk inum) off (sourceBytes source n) := by
  apply List.ext_getElem?
  intro index
  rw [splice_getElem? (by simpa using below), contents_getElem?, contents_getElem?, size,
    sourceBytes_length]
  split
  · split
    · rename_i inRange
      rw [wrote.inside index inRange.1 inRange.2, sourceBytes, map_range_getElem?,
        if_pos (by omega), Nat.zero_add]
    · rename_i outside
      rw [if_pos (by omega)]
      congr 1
      refine wrote.outside inum index (fun both => outside both.2) ?_
      rw [← view_inode inside] at live
      refine owned.present live ?_
      rw [view_inode inside]
      omega
  · rw [if_neg (by omega), if_neg (by omega)]

/-! ## Reading and writing -/

variable {writable : Nat → Bool}

theorem contents_slice (off limit : Nat) : ((contents sb disk inum).take limit).drop off =
      (List.range (min limit (dinode sb disk inum).size - off)).map fun index =>
        (view sb disk).byte inum (off + index) := by
  apply List.ext_getElem?
  intro index
  rw [map_range_getElem?, List.getElem?_drop, List.getElem?_take, contents_getElem?]
  by_cases inRange : off + index < limit ∧ off + index < (dinode sb disk inum).size
  · rw [if_pos inRange.1, if_pos inRange.2, if_pos (by omega)]
  · rw [if_neg (show ¬index < min limit (dinode sb disk inum).size - off by omega)]
    split
    · rw [if_neg fun below => inRange ⟨‹_›, below⟩]
    · rfl

/-- What `writei` does besides writing to the file. -/
structure LeavesOthers (sb : Superblock) (inum : Nat) (disk disk' : Disk) : Prop where
  wellFormed : WellFormed sb disk'
  contents : ∀ other, other < sb.ninodes → other ≠ inum →
    contents sb disk' other = contents sb disk other
  size : ∀ other, other < sb.ninodes → other ≠ inum →
    (dinode sb disk' other).size = (dinode sb disk other).size
  type : ∀ other, other < sb.ninodes → (dinode sb disk' other).type = (dinode sb disk other).type
  nlink : ∀ other, other < sb.ninodes →
    (dinode sb disk' other).nlink = (dinode sb disk other).nlink

/-- The arguments that `writei` turns down. -/
def Refused (size off n : Nat) : Prop := off > size ∨ off + n ≥ 2 ^ 32 ∨ off + n > MAXFILE * BSIZE

theorem refused_iff {size : Nat} (offFits : off < 2 ^ 32) (countFits : n < 2 ^ 32) :
    Refused size off n ↔ (off > size ∨ uadd off n < off) ∨ uadd off n > MAXFILE * BSIZE := by
  simp only [Refused, uadd, MAXFILE, NDIRECT, NINDIRECT, BSIZE]
  omega

theorem WellFormed.loaded (wellFormed : WellFormed sb disk) (inside : inum < sb.ninodes)
    (live : (dinode sb disk inum).type ≠ 0) : Loaded sb disk inum (dinode sb disk inum) := by
  refine ⟨?_, live, dinode_fits ..⟩
  rw [← view_inode inside, View.put_self]
  exact wellFormed.owned

theorem readi_flat (wellFormed : WellFormed sb disk) (inside : inum < sb.ninodes)
    (live : (dinode sb disk inum).type ≠ 0) (offFits : off < 2 ^ 32) (countFits : n < 2 ^ 32)
    (reachable : ∀ index, index < min (uadd off n) (dinode sb disk inum).size - off →
      writable index = true) :
    readi sb disk (dinode sb disk inum) writable off n =
      .ok ((((contents sb disk inum).take (uadd off n)).drop off).length,
        ((contents sb disk inum).take (uadd off n)).drop off, dinode sb disk inum, disk) := by
  have same : (view sb disk).put inum (dinode sb disk inum) = view sb disk := by
    rw [← view_inode inside, View.put_self]
  obtain ⟨count, data, read, all⟩ :=
    readi_spec (wellFormed.loaded inside live) writable offFits countFits
  obtain ⟨rfl, rfl⟩ := all reachable
  rw [read, same, contents_slice, List.length_map, List.length_range]

theorem Owned.wellFormed (owned : Owned sb (view sb disk)) : WellFormed sb disk := by
  refine ⟨owned.accounted, fun block below => ?_⟩
  have inside : block < sb.size := Nat.lt_of_lt_of_le below (Nat.sub_le ..)
  exact view_bit inside ▸ owned.metadata block below

theorem Stored.leavesOthers {ip' : Dinode} (wellFormed : WellFormed sb disk)
    (inside : inum < sb.ninodes) (stored : Stored sb inum disk disk' ip')
    (agrees : (dinode sb disk inum).Agrees ip')
    (spares : (view sb disk).Spares inum (view sb disk')) : LeavesOthers sb inum disk disk' := by
  have others : ∀ other, other < sb.ninodes → other ≠ inum →
      dinode sb disk' other = dinode sb disk other :=
    fun other isInode different => stored.dinode_other different isInode
  have self := stored.dinode_self inside
  constructor
  · exact stored.owned.wellFormed
  · exact fun other isInode different =>
      contents_spared wellFormed.owned stored spares different isInode
  · intro other isInode different
    rw [others other isInode different]
  · intro other isInode
    by_cases same : other = inum
    · rw [same, self, agrees.type]
    · rw [others other isInode same]
  · intro other isInode
    by_cases same : other = inum
    · rw [same, self, agrees.nlink]
    · rw [others other isInode same]

theorem writei_refused (source : Nat → Option UInt8) (offFits : off < 2 ^ 32)
    (countFits : n < 2 ^ 32) (refused : Refused ip.size off n) :
    writei sb disk inum ip source off n = .ok (-1, ip, disk) := by
  unfold writei
  split
  · rfl
  · rename_i acceptable
    rw [if_pos (((refused_iff offFits countFits).mp refused).resolve_left acceptable)]

/-- The outcome of a `writei` that is not turned down. -/
structure FlatWrite (sb : Superblock) (disk : Disk) (inum : Nat) (source : Nat → Option UInt8)
    (off n : Nat) (result : Int × Dinode × Disk) : Prop where
  count : 0 ≤ result.1
  synced : result.2.1 = dinode sb result.2.2 inum
  others : LeavesOthers sb inum disk result.2.2
  /-- If all of the source can be copied. -/
  all : (∀ index, index < n → (source index).isSome) → result.1 = n ∧
    contents sb result.2.2 inum = splice (contents sb disk inum) off (sourceBytes source n)

theorem writei_accepted (wellFormed : WellFormed sb disk) (inside : inum < sb.ninodes)
    (live : (dinode sb disk inum).type ≠ 0) (source : Nat → Option UInt8) (offFits : off < 2 ^ 32)
    (countFits : n < 2 ^ 32) (accepted : ¬Refused (dinode sb disk inum).size off n) :
    Ensures (fun reason => reason = .outOfBlocks ∧
        freeBlocks sb disk < (view sb disk).missing inum (touched off n))
      (FlatWrite sb disk inum source off n) (writei sb disk inum (dinode sb disk inum) source off n) := by
  have loaded := wellFormed.loaded inside live
  have nonnegative : Ensures (fun _ => True) (fun result => 0 ≤ result.1)
      (writei sb disk inum (dinode sb disk inum) source off n) := by
    unfold writei
    rw [refused_iff offFits countFits, not_or] at accepted
    rw [if_neg accepted.1, if_neg accepted.2]
    cases writeiLoop sb source n disk (dinode sb disk inum) off 0 n with
    | error reason => trivial
    | ok result => exact Int.natCast_nonneg _
  unfold Refused at accepted
  refine (((writei_spec loaded inside rfl source offFits countFits).and
    ((writei_frame loaded inside rfl source offFits countFits).and nonnegative)).mono ?_).mono_errors
      fun reason ⟨_, lack, _⟩ => lack
  intro ⟨count, ip', disk'⟩ ⟨⟨stored, agrees, wroteAll⟩, spares, nonneg⟩
  refine ⟨nonneg, (stored.dinode_self inside).symm, stored.leavesOthers wellFormed inside agrees spares,
    fun readable => ?_⟩
  obtain ⟨all, size, wrote⟩ := wroteAll readable (by omega) (by omega)
  refine ⟨all, contents_wrote wellFormed.owned inside live (by omega) ?_ wrote⟩
  rw [stored.dinode_self inside]
  exact size

/-- `readi` and `writei` treat an allocated inode as a flat array of bytes, as long as the disk
has the blocks that are missing from the range; `off` and `n` are `uint`s, and so is their sum
in `readi`. -/
theorem readi_writei_flat (wellFormed : WellFormed sb disk) (inside : inum < sb.ninodes)
    (live : (dinode sb disk inum).type ≠ 0) (offFits : off < 2 ^ 32) (countFits : n < 2 ^ 32) :
    let ip := dinode sb disk inum
    let bytes := ((contents sb disk inum).take (uadd off n)).drop off
    (∀ writable, (∀ index, index < n → writable index = true) →
      readi sb disk ip writable off n = .ok (bytes.length, bytes, ip, disk)) ∧
    ∀ source,
      (Refused ip.size off n → writei sb disk inum ip source off n = .ok (-1, ip, disk)) ∧
      (¬Refused ip.size off n →
        Ensures (fun reason => reason = .outOfBlocks ∧
            freeBlocks sb disk < (view sb disk).missing inum (touched off n))
          (FlatWrite sb disk inum source off n) (writei sb disk inum ip source off n)) := by
  intro ip bytes
  refine ⟨fun writable reachable => ?_, fun source => ⟨?_, ?_⟩⟩
  · refine readi_flat wellFormed inside live offFits countFits fun index below => reachable index ?_
    have whole : uadd off n ≤ off + n := Nat.mod_le ..
    omega
  · exact writei_refused source offFits countFits
  · exact writei_accepted wellFormed inside live source offFits countFits

/-- A new file of five bytes. -/
def shortFile : List Event :=
  let slot := slotZero
  [.ialloc 2, .ilock slot, .writei slot (fun _ => some 7) 0 5]

/-- Four bytes from offset 3 on are the last two of the file. -/
theorem readi_writei_flat_short_file : ∃ disk, WellFormed smallSuperblock disk ∧
    contents smallSuperblock disk 1 = List.replicate 5 7 ∧
    readi smallSuperblock disk (dinode smallSuperblock disk 1) (fun _ => true) 3 4 =
      .ok (2, [7, 7], dinode smallSuperblock disk 1, disk) := by
  have ran : ((machine smallSuperblock).execute smallState shortFile).map
      (fun state => (contents smallSuperblock state.fs.disk 1,
        (dinode smallSuperblock state.fs.disk 1).type)) = some (List.replicate 5 7, 2) := by
    decide +kernel
  obtain ⟨state, executed, shown⟩ := Option.map_eq_some_iff.mp ran
  obtain ⟨bytes, type⟩ := Prod.mk.inj shown
  have wellFormed : WellFormed smallSuperblock state.fs.disk :=
    (reachable_invariant (.of_execute smallState_initial executed)).1.owned.wellFormed
  have live : (dinode smallSuperblock state.fs.disk 1).type ≠ 0 := by
    rw [type]
    decide
  have read := (readi_writei_flat wellFormed (by decide) live (show 3 < 2 ^ 32 by decide)
    (show 4 < 2 ^ 32 by decide)).1 (fun _ => true) fun _ _ => rfl
  rw [bytes] at read
  exact ⟨state.fs.disk, wellFormed, bytes, read⟩

/-- The file takes all blocks of the disk. -/
def fullDisk : List Event :=
  [.ialloc 2, .ilock slotZero, .writei slotZero (fun _ => some 7) 0 10240]

/-- One byte more for a file of ten blocks, on a disk that has no other: `writei` does not turn
it down, and does not return. -/
theorem writei_out_of_blocks : ∃ disk, WellFormed smallSuperblock disk ∧
    (dinode smallSuperblock disk 1).type ≠ 0 ∧
    ¬Refused (dinode smallSuperblock disk 1).size 10240 1 ∧
    writei smallSuperblock disk 1 (dinode smallSuperblock disk 1) (fun _ => some 7) 10240 1 =
      .error .outOfBlocks := by
  have ran : ((machine smallSuperblock).execute smallState fullDisk).map (fun state =>
      ((dinode smallSuperblock state.fs.disk 1).type, (dinode smallSuperblock state.fs.disk 1).size,
        match writei smallSuperblock state.fs.disk 1 (dinode smallSuperblock state.fs.disk 1)
          (fun _ => some 7) 10240 1 with
        | .error reason => some reason
        | .ok _ => none)) = some (2, 10240, some .outOfBlocks) := by
    decide +kernel
  obtain ⟨state, executed, shown⟩ := Option.map_eq_some_iff.mp ran
  obtain ⟨type, size, outcome⟩ : _ ∧ _ ∧ _ := by simpa only [Prod.mk.injEq] using shown
  refine ⟨state.fs.disk, (reachable_invariant (.of_execute smallState_initial executed)).1.owned.wellFormed,
    by rw [type]; decide, by rw [size, Refused]; decide, ?_⟩
  split at outcome
  · rename_i stopped
    cases outcome
    exact stopped
  · cases outcome

end Xv6.Fs
