import Xv6.Data.Ensures
import Xv6.Fs.DiskView
import Xv6.Fs.Inode

namespace Xv6.Fs

open Xv6.Data Xv6.Log

/-! # What the inode operations do to the blocks -/

variable {sb : Superblock} {disk : Disk} {inum : Nat} {ip : Dinode}

/-! ## Allocation -/

/-- All but the panics that would show a broken invariant of the file system. -/
def Panic.sound : Panic → Prop
  | .freeingFreeBlock | .outOfRange | .noType => False
  | _ => True

/-- An operation on a locked inode is under way: `ip` is its copy in memory. -/
structure Loaded (sb : Superblock) (disk : Disk) (inum : Nat) (ip : Dinode) : Prop where
  owned : Owned sb ((view sb disk).put inum ip)
  live : ip.type ≠ 0
  fits : ip.Fits

theorem balloc_spec (metadata : ∀ block, block < sb.dataStart → (view sb disk).bit block = true) :
    Ensures Panic.sound (fun result => Free sb (view sb disk) result.1 ∧
      view sb result.2 = (view sb disk).take result.1) (balloc sb disk) := by
  unfold balloc
  split
  · rename_i block found
    have inside : block < sb.size := List.mem_range.mp (List.mem_of_find?_eq_some found)
    have clear : (view sb disk).bit block = false := by
      rw [view_bit inside]
      simpa using List.find?_some found
    have isData : sb.IsData block := by
      refine ⟨Nat.not_lt.mp fun below => ?_, inside⟩
      rw [metadata block below] at clear
      cases clear
    refine ⟨⟨isData, clear⟩, ?_⟩
    rw [bzero, view_fill isData, view_setBit inside, View.take]
  · exact trivial

/-- What allocation for an inode keeps: its other fields, every block it has, all other inodes. -/
structure Grows (sb : Superblock) (inum : Nat) (disk : Disk) (ip : Dinode) (disk' : Disk)
    (ip' : Dinode) : Prop where
  loaded : Loaded sb disk' inum ip'
  agrees : ip.Agrees ip'
  size : ip'.size = ip.size
  inodes : (view sb disk').inode = (view sb disk).inode
  kept : ∀ place, ((view sb disk).put inum ip).target place ≠ 0 →
    ((view sb disk').put inum ip').target place = ((view sb disk).put inum ip).target place

theorem Grows.refl (loaded : Loaded sb disk inum ip) : Grows sb inum disk ip disk ip :=
  ⟨loaded, .refl ip, rfl, rfl, fun _ _ => rfl⟩

variable {disk' disk'' : Disk} {ip' ip'' : Dinode}

theorem Grows.trans (first : Grows sb inum disk ip disk' ip')
    (second : Grows sb inum disk' ip' disk'' ip'') :
    Grows sb inum disk ip disk'' ip'' := by
  refine ⟨second.loaded, first.agrees.trans second.agrees, second.size.trans first.size,
    second.inodes.trans first.inodes, fun place present => ?_⟩
  have once := first.kept place present
  rw [second.kept place (once ▸ present), once]

theorem Grows.ne_zero (grows : Grows sb inum disk ip disk' ip') {place : Place}
    (present : ((view sb disk).put inum ip).target place ≠ 0) :
    ((view sb disk').put inum ip').target place ≠ 0 := by
  rw [grows.kept place present]
  exact present

/-- Allocation writes to no block of a file. -/
structure Allocates (sb : Superblock) (inum : Nat) (disk : Disk) (ip : Dinode) (disk' : Disk)
    (ip' : Dinode) : Prop where
  grows : Grows sb inum disk ip disk' ip'
  keeps : ((view sb disk).put inum ip).Keeps ((view sb disk').put inum ip')

theorem Allocates.refl (loaded : Loaded sb disk inum ip) : Allocates sb inum disk ip disk ip :=
  ⟨.refl loaded, .refl _⟩

theorem Allocates.trans (first : Allocates sb inum disk ip disk' ip')
    (second : Allocates sb inum disk' ip' disk'' ip'') :
    Allocates sb inum disk ip disk'' ip'' := by
  refine ⟨first.grows.trans second.grows, fun other off present => ?_⟩
  rw [second.keeps other off (first.grows.ne_zero present), first.keeps other off present]

namespace Loaded

variable (loaded : Loaded sb disk inum ip)

include loaded

theorem target_addr (index : Fin (NDIRECT + 1)) :
    ((view sb disk).put inum ip).target (.addr inum index) = ip.addrs index := by
  rw [View.target, View.put_inode_self, Dinode.addr_of_live loaded.live]

theorem isData {place : Place} (present : ((view sb disk).put inum ip).target place ≠ 0) :
    sb.IsData (((view sb disk).put inum ip).target place) :=
  (loaded.owned.exact.marked place present).1

theorem isData_addr {index : Fin (NDIRECT + 1)}
    (present : ip.addrs index ≠ 0) : sb.IsData (ip.addrs index) :=
  loaded.target_addr index ▸ loaded.isData (loaded.target_addr index ▸ present)

theorem target_indirect {index : Nat} (present : ip.indirect ≠ 0) (inside : index < NINDIRECT) :
    ((view sb disk).put inum ip).target (.indirect inum index) =
      word disk ip.indirect index := by
  rw [← view_entry (loaded.isData_addr present)]
  rw [View.target, View.put_inode_self, Dinode.addr_of_live loaded.live]
  exact if_pos ⟨present, inside⟩

theorem of_indirect {index : Nat}
    (present : ((view sb disk).put inum ip).target (.indirect inum index) ≠ 0) :
    ip.indirect ≠ 0 ∧ index < NINDIRECT := by
  rw [View.target, View.put_inode_self, Dinode.addr_of_live loaded.live] at present
  exact Decidable.byContradiction fun absent => present (if_neg absent)

end Loaded

theorem addrAlloc_spec (loaded : Loaded sb disk inum ip) (index : Fin (NDIRECT + 1)) :
    Ensures Panic.sound (fun result => Allocates sb inum disk ip result.2.2 result.2.1 ∧
      result.2.1.addrs index = result.1 ∧ result.1 ≠ 0) (addrAlloc sb disk ip index) := by
  unfold addrAlloc
  split
  · rename_i vacant
    refine (balloc_spec loaded.owned.metadata).bind fun result ⟨found, after⟩ => ?_
    have free : Free sb ((view sb disk).put inum ip) result.1 := ⟨found.isData, found.clear⟩
    have liveView : (((view sb disk).put inum ip).inode inum).type ≠ 0 := by
      rw [View.put_inode_self]
      exact loaded.live
    have vacantView : (((view sb disk).put inum ip).inode inum).addrs index = 0 := by
      rw [View.put_inode_self, vacant]
    have owned := loaded.owned.giveAddr free liveView vacantView
    rw [View.giveAddr_put, ← after] at owned
    have fits : (ip.setAddr index result.1).Fits := by
      refine ⟨loaded.fits.type, loaded.fits.major, loaded.fits.minor, loaded.fits.nlink,
        loaded.fits.size, fun position => ?_⟩
      by_cases same : position = index
      · subst same
        simp only [Dinode.setAddr, overwrite_self]
        exact found.isData.fits
      · simp only [Dinode.setAddr, overwrite_of_ne same]
        exact loaded.fits.addrs position
    have keeps := loaded.owned.keeps_giveAddr free liveView vacantView
    rw [View.giveAddr_put, ← after] at keeps
    refine ⟨⟨⟨⟨owned, loaded.live, fits⟩, ⟨rfl, rfl, rfl, rfl⟩, rfl, ?_, ?_⟩, keeps⟩, overwrite_self ..,
      found.isData.ne_zero⟩
    · rw [after]
      rfl
    · intro place present
      have different : place ≠ .addr inum index := by
        intro same
        rw [same, loaded.target_addr] at present
        exact present vacant
      have kept := loaded.owned.target_giveAddr_other free liveView vacantView different
      rw [View.giveAddr_put, ← after] at kept
      exact kept
  · rename_i present
    exact ⟨.refl loaded, rfl, present⟩

section

variable {index block : Nat} {disk' : Disk}

theorem Loaded.view_giveEntry (loaded : Loaded sb disk inum ip)
    (index : Nat) (present : ip.indirect ≠ 0)
    (after : view sb disk' = (view sb disk).take block) :
    view sb (putWord disk' ip.indirect index block) =
      ((view sb disk).take block).setEntry ip.indirect index block := by
  rw [view_putWord (loaded.isData_addr present), after]

/-- `bmap` allocates a block for an empty entry of the indirect block. -/
theorem Loaded.giveEntry (loaded : Loaded sb disk inum ip)
    (present : ip.indirect ≠ 0) (inside : index < NINDIRECT)
    (vacant : word disk ip.indirect index = 0)
    (found : Free sb (view sb disk) block) (after : view sb disk' = (view sb disk).take block) :
    Allocates sb inum disk ip (putWord disk' ip.indirect index block) ip ∧
      ((view sb (putWord disk' ip.indirect index block)).put inum ip).target
        (.indirect inum index) = block := by
  have stored := loaded.view_giveEntry index present after
  have given : ((view sb disk).put inum ip).giveEntry inum index block =
      (view sb (putWord disk' ip.indirect index block)).put inum ip := by
    rw [View.giveEntry_put loaded.live, stored]
  have free : Free sb ((view sb disk).put inum ip) block := ⟨found.isData, found.clear⟩
  have address : (((view sb disk).put inum ip).inode inum).addr (Fin.last NDIRECT) ≠ 0 := by
    rw [View.put_inode_self, Dinode.addr_of_live loaded.live]
    exact present
  have before : ((view sb disk).put inum ip).target (.indirect inum index) = 0 :=
    (loaded.target_indirect present inside).trans vacant
  have owned := loaded.owned.giveEntry free address inside before
  have keeps := loaded.owned.keeps_giveEntry free before
  refine ⟨⟨⟨⟨given ▸ owned, loaded.live, loaded.fits⟩, .refl ip, rfl, ?_, ?_⟩, given ▸ keeps⟩, ?_⟩
  · rw [stored]
    rfl
  · intro place nonzero
    rw [← given]
    exact loaded.owned.target_giveEntry_other free fun same => nonzero (same ▸ before)
  · rw [← given]
    exact Owned.target_giveEntry_self address inside free.isData.fits

end

variable {bn : Nat}

theorem bmap_spec (loaded : Loaded sb disk inum ip) (inside : bn < MAXFILE) :
    Ensures Panic.sound (fun result => Allocates sb inum disk ip result.2.2 result.2.1 ∧
      ((view sb result.2.2).put inum result.2.1).target (.ofBlock inum bn) = result.1 ∧
      result.1 ≠ 0) (bmap sb disk ip bn) := by
  unfold bmap
  split
  · rename_i direct
    refine (addrAlloc_spec loaded _).mono fun result ⟨allocates, stored, nonzero⟩ => ?_
    refine ⟨allocates, ?_, nonzero⟩
    rw [Place.ofBlock_direct direct, allocates.grows.loaded.target_addr, stored]
  · rename_i direct
    have entry : bn - NDIRECT < NINDIRECT := by
      unfold MAXFILE at inside
      omega
    rw [if_pos entry]
    refine (addrAlloc_spec loaded _).bind
      fun ⟨indirect, ip, middle⟩ ⟨allocates, stored, nonzero⟩ => ?_
    simp only at allocates stored nonzero ⊢
    subst stored
    have now := allocates.grows.loaded
    have atEntry := now.target_indirect nonzero entry
    split
    · rename_i vacant
      refine (balloc_spec now.owned.metadata).bind fun result ⟨found, after⟩ => ?_
      obtain ⟨more, stored⟩ := now.giveEntry nonzero entry vacant found after
      refine ⟨allocates.trans more, ?_, found.isData.ne_zero⟩
      rw [Place.ofBlock_indirect direct]
      exact stored
    · rename_i present
      refine ⟨allocates, ?_, present⟩
      rw [Place.ofBlock_indirect direct]
      exact atEntry

/-- The address that `bmap` finds for a block of an inode; zero if there is none. -/
def Dinode.block (disk : Disk) (ip : Dinode) (bn : Nat) : Nat :=
  if direct : bn < NDIRECT then
    ip.addrs ⟨bn, Nat.lt_succ_of_lt direct⟩
  else if ip.indirect ≠ 0 ∧ bn - NDIRECT < NINDIRECT then
    word disk ip.indirect (bn - NDIRECT)
  else
    0

theorem bmap_block (present : ip.block disk bn ≠ 0) :
    bmap sb disk ip bn = .ok (ip.block disk bn, ip, disk) := by
  unfold bmap
  unfold Dinode.block at present ⊢
  by_cases direct : bn < NDIRECT
  · simp only [dif_pos direct] at present ⊢
    exact if_neg present
  · simp only [dif_neg direct] at present ⊢
    by_cases counts : ip.indirect ≠ 0 ∧ bn - NDIRECT < NINDIRECT
    · rw [if_pos counts] at present ⊢
      rw [if_pos counts.2, addrAlloc, if_neg counts.1]
      exact if_neg present
    · exact absurd (if_neg counts) present

theorem Loaded.target_block (loaded : Loaded sb disk inum ip) (bn : Nat) :
    ((view sb disk).put inum ip).target (.ofBlock inum bn) = ip.block disk bn := by
  unfold Dinode.block
  by_cases direct : bn < NDIRECT
  · rw [Place.ofBlock_direct direct, loaded.target_addr, dif_pos direct]
  · rw [Place.ofBlock_indirect direct, dif_neg direct]
    split
    · rename_i counts
      exact loaded.target_indirect counts.1 counts.2
    · rename_i absent
      refine Decidable.byContradiction fun present => ?_
      exact absent (loaded.of_indirect present)

theorem bmap_present (loaded : Loaded sb disk inum ip)
    (present : ((view sb disk).put inum ip).target (.ofBlock inum bn) ≠ 0) :
    bmap sb disk ip bn =
      .ok (((view sb disk).put inum ip).target (.ofBlock inum bn), ip, disk) := by
  rw [loaded.target_block] at present ⊢
  exact bmap_block present

/-- Only the place of the block asked for and that of the indirect block can be given a block. -/
def Place.Fills (inum bn : Nat) (place : Place) : Prop :=
  place = .ofBlock inum bn ∨ place = .addr inum (Fin.last NDIRECT) ∧ NDIRECT ≤ bn

theorem addrAlloc_places (loaded : Loaded sb disk inum ip) (index : Fin (NDIRECT + 1)) :
    Ensures (fun _ => True) (fun result => ∀ place, place ≠ .addr inum index →
      ((view sb result.2.2).put inum result.2.1).target place =
        ((view sb disk).put inum ip).target place) (addrAlloc sb disk ip index) := by
  unfold addrAlloc
  split
  · rename_i vacant
    refine ((balloc_spec loaded.owned.metadata).mono_errors fun _ _ => trivial).bind
      fun result ⟨found, after⟩ place different => ?_
    have free : Free sb ((view sb disk).put inum ip) result.1 := ⟨found.isData, found.clear⟩
    have live : (((view sb disk).put inum ip).inode inum).type ≠ 0 := by
      rw [View.put_inode_self]
      exact loaded.live
    have zero : (((view sb disk).put inum ip).inode inum).addrs index = 0 := by
      rw [View.put_inode_self, vacant]
    have kept := loaded.owned.target_giveAddr_other free live zero different
    rwa [View.giveAddr_put, ← after] at kept
  · exact fun _ _ => rfl

theorem bmap_places (loaded : Loaded sb disk inum ip) (inside : bn < MAXFILE) :
    Ensures (fun _ => True) (fun result => ∀ place, ¬place.Fills inum bn →
      ((view sb result.2.2).put inum result.2.1).target place =
        ((view sb disk).put inum ip).target place) (bmap sb disk ip bn) := by
  unfold bmap
  split
  · rename_i direct
    refine (addrAlloc_places loaded _).mono fun result others place outside => others place ?_
    rw [← Place.ofBlock_direct direct]
    exact fun same => outside (Or.inl same)
  · rename_i direct
    have entry : bn - NDIRECT < NINDIRECT := by
      unfold MAXFILE at inside
      omega
    rw [if_pos entry]
    refine (((addrAlloc_spec loaded _).and (addrAlloc_places loaded _)).mono_errors
      fun _ _ => trivial).bind
        fun ⟨indirect, ip, middle⟩ ⟨⟨allocates, stored, nonzero⟩, others⟩ => ?_
    simp only at allocates stored nonzero others ⊢
    subst stored
    have now := allocates.grows.loaded
    have before : ∀ place : Place, ¬place.Fills inum bn → place ≠ .addr inum (Fin.last NDIRECT) :=
      fun place outside same => outside (Or.inr ⟨same, Nat.not_lt.mp direct⟩)
    split
    · refine ((balloc_spec now.owned.metadata).mono_errors fun _ _ => trivial).bind
        fun result ⟨found, after⟩ place outside => ?_
      have free : Free sb ((view sb middle).put inum ip) result.1 := ⟨found.isData, found.clear⟩
      have different : place ≠ .indirect inum (bn - NDIRECT) := by
        rw [← Place.ofBlock_indirect direct]
        exact fun same => outside (Or.inl same)
      have kept := now.owned.target_giveEntry_other free different
      rw [View.giveEntry_put now.live, ← now.view_giveEntry _ nonzero after] at kept
      exact kept.trans (others place (before place outside))
    · exact fun place outside => others place (before place outside)

theorem balloc_zeroed (disk : Disk) :
    Ensures (fun _ => True) (fun result => result.2 result.1 = fun _ => 0) (balloc sb disk) := by
  unfold balloc
  split
  · exact overwrite_self ..
  · trivial

theorem addrAlloc_zeroed (disk : Disk) (ip : Dinode) (index : Fin (NDIRECT + 1)) :
    Ensures (fun _ => True)
      (fun result => if ip.addrs index = 0 then result.2.2 result.1 = fun _ => 0
        else result.2.1 = ip ∧ result.2.2 = disk) (addrAlloc sb disk ip index) := by
  unfold addrAlloc
  split
  · exact (balloc_zeroed disk).bind fun _ zeroed => zeroed
  · exact ⟨rfl, rfl⟩

theorem bmap_zeroed (loaded : Loaded sb disk inum ip) (inside : bn < MAXFILE)
    (absent : ip.block disk bn = 0) :
    Ensures (fun _ => True) (fun result => result.2.2 result.1 = fun _ => 0) (bmap sb disk ip bn) := by
  unfold bmap
  unfold Dinode.block at absent
  split
  · rename_i direct
    rw [dif_pos direct] at absent
    refine (addrAlloc_zeroed disk ip _).mono fun result zeroed => ?_
    rwa [if_pos absent] at zeroed
  · rename_i direct
    have entry : bn - NDIRECT < NINDIRECT := by
      unfold MAXFILE at inside
      omega
    rw [dif_neg direct] at absent
    rw [if_pos entry]
    refine (((addrAlloc_spec loaded _).and (addrAlloc_zeroed disk ip _)).mono_errors
      fun _ _ => trivial).bind fun result outcome => ?_
    obtain ⟨indirect, ip', middle⟩ := result
    obtain ⟨⟨allocates, stored, nonzero⟩, zeroed⟩ := outcome
    simp only at allocates stored nonzero zeroed ⊢
    have now := allocates.grows.loaded
    have vacant : word middle indirect (bn - NDIRECT) = 0 := by
      split at zeroed
      · rw [word, zeroed]
        rfl
      · rename_i present
        rw [if_pos ⟨present, entry⟩] at absent
        rw [← stored, zeroed.1, zeroed.2]
        exact absent
    rw [if_pos vacant]
    refine (((balloc_spec now.owned.metadata).and (balloc_zeroed middle)).mono_errors
      fun _ _ => trivial).bind fun result outcome => ?_
    obtain ⟨⟨found, _⟩, zeros⟩ := outcome
    have free : Free sb ((view sb middle).put inum ip') result.1 := ⟨found.isData, found.clear⟩
    have apart : result.1 ≠ indirect := by
      rw [← stored, ← now.target_addr]
      exact (now.owned.target_ne_free free _).symm
    exact (overwrite_of_ne apart).trans zeros

/-! ## Inodes on disk -/

/-- After an operation on a locked inode its copy is on disk again, and nobody else's changed. -/
structure Stored (sb : Superblock) (inum : Nat) (disk disk' : Disk) (ip' : Dinode) : Prop where
  owned : Owned sb (view sb disk')
  inodes : (view sb disk').inode = Function.update (view sb disk).inode inum ip'

section

variable {disk' : Disk} {ip' : Dinode}

theorem Stored.dinode_self (stored : Stored sb inum disk disk' ip') (inside : inum < sb.ninodes) :
    dinode sb disk' inum = ip' := by
  rw [← view_inode inside, stored.inodes, Function.update_self]

theorem Stored.dinode_other (stored : Stored sb inum disk disk' ip') {other : Nat}
    (different : other ≠ inum) (inside : other < sb.ninodes) :
    dinode sb disk' other = dinode sb disk other := by
  rw [← view_inode inside, stored.inodes, Function.update_of_ne different, view_inode inside]

/-- Writing another inode in its place that has the same blocks. -/
theorem Stored.iupdate (stored : Stored sb inum disk disk' ip') {d : Dinode}
    (inside : inum < sb.ninodes) (fits : d.Fits) (same : ∀ index, d.addr index = ip'.addr index)
    (sizes : d.type ≠ 0 → d.size = 0 ∨ ip'.type ≠ 0 ∧ d.size = ip'.size) :
    Stored sb inum disk (iupdate sb disk' inum d) d := by
  have written : view sb (Fs.iupdate sb disk' inum d) = (view sb disk').put inum d :=
    view_putDinode inside fits
  have inode : (view sb disk').inode inum = ip' := by
    rw [stored.inodes, Function.update_self]
  constructor
  · rw [written]
    refine stored.owned.put (fun index => ?_) (fun live => ?_) fun live bn below => ?_
    · rw [inode, same]
    · rcases sizes live with empty | ⟨before, equal⟩
      · rw [empty]
        exact Nat.zero_le _
      · rw [equal, ← inode]
        exact stored.owned.size_le inum (inode ▸ before)
    · rcases sizes live with empty | ⟨before, equal⟩
      · rw [empty] at below
        exact absurd below (Nat.not_lt_zero _)
      · rw [equal, ← inode] at below
        exact stored.owned.solid inum bn (inode ▸ before) below
  · rw [written, View.put, stored.inodes, Function.update_idem]

end

theorem Loaded.iupdate (loaded : Loaded sb disk inum ip) (inside : inum < sb.ninodes) :
    Stored sb inum disk (iupdate sb disk inum ip) ip := by
  have stored : view sb (Fs.iupdate sb disk inum ip) = (view sb disk).put inum ip :=
    view_putDinode inside loaded.fits
  refine ⟨stored ▸ loaded.owned, ?_⟩
  rw [stored]
  rfl

theorem Loaded.stored (loaded : Loaded sb disk inum ip) (inside : inum < sb.ninodes)
    (current : dinode sb disk inum = ip) : Stored sb inum disk disk ip := by
  rw [← view_inode inside] at current
  subst current
  refine ⟨?_, (Function.update_eq_self ..).symm⟩
  have owned := loaded.owned
  rwa [View.put_self] at owned

theorem Grows.stored (grows : Grows sb inum disk ip disk' ip')
    (stored : Stored sb inum disk' disk'' ip'') :
    Stored sb inum disk disk'' ip'' :=
  ⟨stored.owned, by rw [stored.inodes, grows.inodes]⟩

/-! ## Truncation -/

theorem bfreeAddrs_spec {addrs : List Nat}
    (marked : ∀ addr ∈ addrs, addr ≠ 0 → addr < sb.size ∧ (view sb disk).bit addr = true)
    (distinct : (addrs.filter (· ≠ 0)).Nodup) :
    ∃ disk', bfreeAddrs sb disk addrs = .ok disk' ∧ view sb disk' = (view sb disk).drop addrs := by
  induction addrs generalizing disk with
  | nil => exact ⟨disk, rfl, View.drop_nil.symm⟩
  | cons addr rest ih =>
    unfold bfreeAddrs
    split
    · rename_i zero
      subst zero
      rw [View.drop_zero]
      exact ih (fun other member => marked other (List.mem_cons_of_mem _ member)) distinct
    · rename_i nonzero
      obtain ⟨inside, isMarked⟩ := marked addr List.mem_cons_self nonzero
      rw [List.filter_cons_of_pos (by simpa using nonzero), List.nodup_cons] at distinct
      rw [bfree, if_pos (view_bit inside ▸ isMarked), ok_bind]
      have cleared : view sb (clearBit sb disk addr) = (view sb disk).drop [addr] :=
        view_clearBit inside nonzero
      rw [View.drop_cons, ← cleared]
      refine ih (fun other member present => ?_) distinct.2
      obtain ⟨otherInside, otherMarked⟩ := marked other (List.mem_cons_of_mem _ member) present
      have different : other ≠ addr := by
        intro same
        subst same
        exact distinct.1 (List.mem_filter.mpr ⟨member, by simpa using nonzero⟩)
      refine ⟨otherInside, ?_⟩
      rw [cleared]
      simp [View.drop, otherMarked, different]

/-- Clearing bits does not touch the indirect block that is being read. -/
theorem bfreeWords_eq {indirect : Nat} (isData : sb.IsData indirect) {indices : List Nat}
    (inside : ∀ index ∈ indices, word disk indirect index < sb.size) :
    bfreeWords sb disk indirect indices =
      bfreeAddrs sb disk (indices.map (word disk indirect)) := by
  induction indices generalizing disk with
  | nil => rfl
  | cons index rest ih =>
    have here := inside index List.mem_cons_self
    have later : ∀ other ∈ rest, word disk indirect other < sb.size :=
      fun other member => inside other (List.mem_cons_of_mem _ member)
    unfold bfreeWords
    rw [List.map_cons, bfreeAddrs]
    split
    · exact ih later
    · unfold bfree
      split
      · rw [ok_bind, ok_bind]
        have same : word (clearBit sb disk (word disk indirect index)) indirect =
            word disk indirect := by
          funext position
          have apart : indirect ≠ sb.BBLOCK (word disk indirect index) :=
            fun equal => not_isData_BBLOCK here (equal ▸ isData)
          rw [word, clearBit, overwrite_of_ne apart, word]
        have laterSame : ∀ other ∈ rest,
            word (clearBit sb disk (word disk indirect index)) indirect other < sb.size := by
          rw [same]
          exact later
        rw [ih laterSame, same]
      · rfl

theorem bfreeAddrs_append (front back : List Nat) : bfreeAddrs sb disk (front ++ back) =
      bfreeAddrs sb disk front >>= fun disk => bfreeAddrs sb disk back := by
  induction front generalizing disk with
  | nil => rfl
  | cons addr rest ih =>
    rw [List.cons_append, bfreeAddrs, bfreeAddrs]
    split
    · exact ih
    · unfold bfree
      split
      · simp only [ok_bind, ih]
      · rfl

theorem bfreeAddrs_singleton {addr : Nat} (nonzero : addr ≠ 0) :
    bfreeAddrs sb disk [addr] = bfree sb disk addr := by
  rw [bfreeAddrs, if_neg nonzero]
  unfold bfree
  split <;> rfl

def directPlaces (inum : Nat) : List Place :=
  (List.finRange NDIRECT).map fun index => .addr inum index.castSucc

def indirectPlaces (inum : Nat) (ip : Dinode) : List Place :=
  if ip.indirect = 0 then
    []
  else
    (List.range NINDIRECT).map (.indirect inum) ++ [.addr inum (Fin.last NDIRECT)]

/-- The places that `itrunc` looks at, in its order. -/
def truncPlaces (inum : Nat) (ip : Dinode) : List Place := directPlaces inum ++ indirectPlaces inum ip

theorem directPlaces_nodup (inum : Nat) : (directPlaces inum).Nodup :=
  (List.nodup_finRange _).map fun _ _ equal =>
    Fin.castSucc_injective _ (Place.addr.inj equal).2

theorem indirectPlaces_nodup (inum : Nat) (ip : Dinode) : (indirectPlaces inum ip).Nodup := by
  unfold indirectPlaces
  split
  · exact List.nodup_nil
  · refine List.Nodup.append ?_ (List.nodup_singleton _) ?_
    · exact List.nodup_range.map fun _ _ equal => (Place.indirect.inj equal).2
    · simp [List.disjoint_singleton]

theorem truncPlaces_nodup (inum : Nat) (ip : Dinode) : (truncPlaces inum ip).Nodup := by
  refine (directPlaces_nodup inum).append (indirectPlaces_nodup inum ip) ?_
  intro place direct indirect
  obtain ⟨index, _, rfl⟩ := List.mem_map.mp direct
  unfold indirectPlaces at indirect
  split at indirect
  · cases indirect
  · rcases List.mem_append.mp indirect with entry | last
    · obtain ⟨_, _, equal⟩ := List.mem_map.mp entry
      cases equal
    · have equal := (Place.addr.inj (List.mem_singleton.mp last)).2
      exact Fin.castSucc_ne_last index equal

namespace Loaded

theorem marked_map (loaded : Loaded sb disk inum ip) (places : List Place) :
    ∀ addr ∈ places.map ((view sb disk).put inum ip).target, addr ≠ 0 →
      addr < sb.size ∧ (view sb disk).bit addr = true := by
  intro addr member nonzero
  obtain ⟨place, _, rfl⟩ := List.mem_map.mp member
  obtain ⟨isData, marked⟩ := loaded.owned.exact.marked place nonzero
  exact ⟨isData.2, marked⟩

theorem distinct_map (loaded : Loaded sb disk inum ip) {places : List Place} (nodup : places.Nodup) :
    ((places.map ((view sb disk).put inum ip).target).filter (· ≠ 0)).Nodup := by
  rw [List.filter_map]
  refine (nodup.filter _).map_on fun place member other _ equal => ?_
  have present := (List.mem_filter.mp member).2
  exact loaded.owned.exact.unique place other (by simpa using present) equal

theorem mem_truncPlaces (loaded : Loaded sb disk inum ip) {place : Place} (ofInode : place.inum = inum)
    (present : ((view sb disk).put inum ip).target place ≠ 0) : place ∈ truncPlaces inum ip := by
  unfold truncPlaces directPlaces indirectPlaces
  cases place with
  | addr other index =>
    obtain rfl : other = inum := ofInode
    rw [loaded.target_addr] at present
    induction index using Fin.lastCases with
    | last => simp [present]
    | cast direct => simp
  | indirect other index =>
    obtain rfl : other = inum := ofInode
    obtain ⟨nonzero, inside⟩ := loaded.of_indirect present
    simp [nonzero, inside]

end Loaded

theorem truncPlaces_inum {place : Place} (member : place ∈ truncPlaces inum ip) :
    place.inum = inum := by
  rcases List.mem_append.mp member with direct | indirect
  · obtain ⟨_, _, rfl⟩ := List.mem_map.mp direct
    rfl
  · unfold indirectPlaces at indirect
    split at indirect
    · cases indirect
    · rcases List.mem_append.mp indirect with entry | last
      · obtain ⟨_, _, rfl⟩ := List.mem_map.mp entry
        rfl
      · rw [List.mem_singleton.mp last]
        rfl

/-- The indirect block still holds what it held before any bit was cleared. -/
theorem bfreeIndirect_eq (loaded : Loaded sb disk inum ip) {middle : Disk} {freed : List Nat}
    (after : view sb middle = (view sb disk).drop freed) :
    bfreeIndirect sb middle ip.indirect =
      bfreeAddrs sb middle ((indirectPlaces inum ip).map ((view sb disk).put inum ip).target) := by
  unfold bfreeIndirect indirectPlaces
  split
  · rfl
  · rename_i present
    have isData := loaded.isData_addr present
    have words : ∀ index, index < NINDIRECT → word middle ip.indirect index =
        ((view sb disk).put inum ip).target (.indirect inum index) := by
      intro index inside
      rw [loaded.target_indirect present inside, ← view_entry isData, ← view_entry isData, after]
      rfl
    have entries : (List.range NINDIRECT).map (word middle ip.indirect) =
        ((List.range NINDIRECT).map (Place.indirect inum)).map
          ((view sb disk).put inum ip).target := by
      rw [List.map_map]
      exact List.map_congr_left fun index member => words index (List.mem_range.mp member)
    have inside : ∀ index ∈ List.range NINDIRECT,
        word middle ip.indirect index < sb.size := by
      intro index member
      rw [words index (List.mem_range.mp member)]
      by_cases zero : ((view sb disk).put inum ip).target (.indirect inum index) = 0
      · rw [zero]
        exact Nat.lt_of_le_of_lt (Nat.zero_le _) isData.2
      · exact (loaded.isData zero).2
    rw [bfreeWords_eq isData inside, List.map_append, entries, bfreeAddrs_append]
    simp only [List.map_cons, List.map_nil, loaded.target_addr, bfreeAddrs_singleton present]

theorem itrunc_eq (loaded : Loaded sb disk inum ip) : itrunc sb disk inum ip =
      (bfreeAddrs sb disk ((truncPlaces inum ip).map ((view sb disk).put inum ip).target) >>=
        fun disk => .ok (ip.truncated, iupdate sb disk inum ip.truncated)) := by
  have direct : (directPlaces inum).map ((view sb disk).put inum ip).target =
      (List.finRange NDIRECT).map fun index => ip.addrs index.castSucc := by
    rw [directPlaces, List.map_map]
    exact List.map_congr_left fun index _ => loaded.target_addr index.castSucc
  obtain ⟨middle, freed, after⟩ := bfreeAddrs_spec (loaded.marked_map (directPlaces inum))
    (loaded.distinct_map (directPlaces_nodup inum))
  rw [truncPlaces, List.map_append, bfreeAddrs_append, freed, ok_bind,
    ← bfreeIndirect_eq loaded after, itrunc, ← direct, freed, ok_bind]

theorem itrunc_spec (loaded : Loaded sb disk inum ip) (inside : inum < sb.ninodes) :
    ∃ disk', itrunc sb disk inum ip = .ok (ip.truncated, disk') ∧
      Stored sb inum disk disk' ip.truncated := by
  obtain ⟨middle, freed, after⟩ := bfreeAddrs_spec (loaded.marked_map (truncPlaces inum ip))
    (loaded.distinct_map (truncPlaces_nodup inum ip))
  refine ⟨iupdate sb middle inum ip.truncated, ?_, ?_⟩
  · rw [itrunc_eq loaded, freed, ok_bind]
  · have fits : ip.truncated.Fits := ⟨loaded.fits.type, loaded.fits.major, loaded.fits.minor,
      loaded.fits.nlink, Nat.two_pow_pos 32, fun _ => Nat.two_pow_pos 32⟩
    have stored : view sb (iupdate sb middle inum ip.truncated) =
        ((view sb disk).drop ((truncPlaces inum ip).map ((view sb disk).put inum ip).target)).put
          inum ip.truncated := by
      rw [← after]
      exact view_putDinode inside fits
    have all : ∀ block, block ≠ 0 →
        (block ∈ (truncPlaces inum ip).map ((view sb disk).put inum ip).target ↔
          ∃ place, place.inum = inum ∧ ((view sb disk).put inum ip).target place = block) := by
      intro block nonzero
      constructor
      · intro listed
        obtain ⟨place, member, equal⟩ := List.mem_map.mp listed
        exact ⟨place, truncPlaces_inum member, equal⟩
      · rintro ⟨place, ofInode, rfl⟩
        exact List.mem_map_of_mem (loaded.mem_truncPlaces ofInode nonzero)
    have owned := loaded.owned.drop all
    have commute : ∀ addrs, ((view sb disk).put inum ip).drop addrs =
        ((view sb disk).drop addrs).put inum ip := fun _ => rfl
    rw [View.put_inode_self, commute, View.put_put, ← stored] at owned
    refine ⟨owned, ?_⟩
    rw [stored]
    rfl

end Xv6.Fs
