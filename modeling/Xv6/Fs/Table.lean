import Xv6.Fs.Directory

namespace Xv6.Fs

open Xv6.Data Xv6.Log

/-! # The inode table -/

/-- Entries of the inode table in use have different inode numbers, and a valid one
holds what is on disk. -/
structure Invariant (sb : Superblock) (fs : Store) : Prop where
  owned : Owned sb (view sb fs.disk)
  distinct : ∀ slot other, (fs.itable slot).ref > 0 → (fs.itable other).ref > 0 →
    (fs.itable slot).inum = (fs.itable other).inum → slot = other
  inside : ∀ slot, (fs.itable slot).ref > 0 → (fs.itable slot).inum < sb.ninodes
  current : ∀ slot, (fs.itable slot).ref > 0 → (fs.itable slot).valid = true →
    dinode sb fs.disk (fs.itable slot).inum = (fs.itable slot).copy ∧
      (fs.itable slot).copy.type ≠ 0

variable {sb : Superblock} {fs : Store} {slot : Fin NINODE}

namespace Invariant

section

variable (invariant : Invariant sb fs)

include invariant

theorem loaded (held : (fs.itable slot).ref > 0) (valid : (fs.itable slot).valid = true) :
    Loaded sb fs.disk (fs.itable slot).inum (fs.itable slot).copy := by
  obtain ⟨current, live⟩ := invariant.current slot held valid
  refine ⟨?_, live, current ▸ dinode_fits ..⟩
  rw [← current, ← view_inode (invariant.inside slot held), View.put_self]
  exact invariant.owned

/-- A step that changes at most one table entry in use and the disk inode behind it. -/
theorem change {fs' : Store} (held : (fs.itable slot).ref > 0) (owned : Owned sb (view sb fs'.disk))
    (others : ∀ other, other ≠ slot → fs'.itable other = fs.itable other)
    (dinodes : ∀ inum, inum ≠ (fs.itable slot).inum → inum < sb.ninodes →
      dinode sb fs'.disk inum = dinode sb fs.disk inum)
    (inum : (fs'.itable slot).inum = (fs.itable slot).inum)
    (current : (fs'.itable slot).ref > 0 → (fs'.itable slot).valid = true →
      dinode sb fs'.disk (fs'.itable slot).inum = (fs'.itable slot).copy ∧
        (fs'.itable slot).copy.type ≠ 0) : Invariant sb fs' := by
  have inums : ∀ other, (fs'.itable other).inum = (fs.itable other).inum := by
    intro other
    by_cases same : other = slot
    · rw [same, inum]
    · rw [others other same]
  have refs : ∀ other, (fs'.itable other).ref > 0 → (fs.itable other).ref > 0 := by
    intro other inUse
    by_cases same : other = slot
    · rwa [same]
    · rwa [others other same] at inUse
  constructor
  · exact owned
  · intro left right leftUsed rightUsed equal
    rw [inums, inums] at equal
    exact invariant.distinct left right (refs left leftUsed) (refs right rightUsed) equal
  · intro other inUse
    rw [inums]
    exact invariant.inside other (refs other inUse)
  · intro other inUse valid
    by_cases same : other = slot
    · subst same
      exact current inUse valid
    · have before := refs other inUse
      rw [others other same] at valid ⊢
      have different : (fs.itable other).inum ≠ (fs.itable slot).inum :=
        fun equal => same (invariant.distinct other slot before held equal)
      rw [dinodes _ different (invariant.inside other before)]
      exact invariant.current other before valid

theorem put (held : (fs.itable slot).ref > 0) {disk : Disk} {ip : Dinode}
    (stored : Stored sb (fs.itable slot).inum fs.disk disk ip) (live : ip.type ≠ 0) :
    Invariant sb (fs.put slot ip disk) := by
  have isInode := invariant.inside slot held
  refine invariant.change held stored.owned (fun other different => ?_)
    (fun _ different inside => stored.dinode_other different inside) ?_ ?_
  · exact overwrite_of_ne different ..
  · simp [Store.put]
  · intro _ _
    simpa [Store.put] using ⟨stored.dinode_self isInode, live⟩

theorem reref (held : (fs.itable slot).ref > 0) (ref : Nat) :
    Invariant sb (fs.set slot { fs.itable slot with ref }) := by
  refine invariant.change held invariant.owned (fun other different => ?_) (fun _ _ _ => rfl) ?_ ?_
  · exact overwrite_of_ne different ..
  · simp [Store.set]
  · intro _ valid
    simp only [Store.set, overwrite_self] at valid ⊢
    exact invariant.current slot held valid

/-- A free entry is prepared for an inode that no entry holds. -/
theorem recycle {entry : Inode} (invalid : entry.valid = false)
    (inside : entry.ref > 0 → entry.inum < sb.ninodes)
    (absent : entry.ref > 0 → ∀ other, (fs.itable other).ref > 0 →
      (fs.itable other).inum ≠ entry.inum) : Invariant sb (fs.set slot entry) := by
  have atSlot : (fs.set slot entry).itable slot = entry := overwrite_self ..
  have others : ∀ other, other ≠ slot → (fs.set slot entry).itable other = fs.itable other :=
    fun other different => overwrite_of_ne different ..
  constructor
  · exact invariant.owned
  · intro left right leftUsed rightUsed equal
    by_cases leftSlot : left = slot <;> by_cases rightSlot : right = slot
    · rw [leftSlot, rightSlot]
    · rw [leftSlot, atSlot] at leftUsed equal
      rw [others right rightSlot] at rightUsed equal
      exact absurd equal.symm (absent leftUsed right rightUsed)
    · rw [rightSlot, atSlot] at rightUsed equal
      rw [others left leftSlot] at leftUsed equal
      exact absurd equal (absent rightUsed left leftUsed)
    · rw [others left leftSlot] at leftUsed equal
      rw [others right rightSlot] at rightUsed equal
      exact invariant.distinct left right leftUsed rightUsed equal
  · intro other inUse
    by_cases same : other = slot
    · rw [same, atSlot] at inUse ⊢
      exact inside inUse
    · rw [others other same] at inUse ⊢
      exact invariant.inside other inUse
  · intro other inUse valid
    by_cases same : other = slot
    · rw [same, atSlot, invalid] at valid
      cases valid
    · rw [others other same] at inUse valid ⊢
      exact invariant.current other inUse valid

end

end Invariant

/-! ## The operations on the table -/

/-- What `iget` returns: an entry in use gets one more reference, or a free one is recycled. -/
theorem iget_cases (fs : Store) (inum : Nat) :
    (∃ slot, (fs.itable slot).ref > 0 ∧ (fs.itable slot).inum = inum ∧ iget fs inum =
      .ok (slot, fs.set slot { fs.itable slot with ref := (fs.itable slot).ref + 1 })) ∨
    (∃ slot, (fs.itable slot).ref = 0 ∧
      (∀ other, (fs.itable other).ref > 0 → (fs.itable other).inum ≠ inum) ∧
      iget fs inum = .ok (slot, fs.set slot ⟨inum, 1, false, (fs.itable slot).copy⟩)) ∨
    (∀ slot, (fs.itable slot).ref ≠ 0) ∧ iget fs inum = .error .noInodeSlot := by
  unfold iget
  split
  · rename_i slot found
    have inUse : (fs.itable slot).ref > 0 ∧ (fs.itable slot).inum = inum := by
      simpa using List.find?_some found
    exact Or.inl ⟨slot, inUse.1, inUse.2, rfl⟩
  · rename_i missing
    have absent : ∀ other, (fs.itable other).ref > 0 → (fs.itable other).inum ≠ inum := by
      intro other inUse
      simpa [inUse] using List.find?_eq_none.mp missing other (List.mem_finRange other)
    split
    · rename_i full
      refine Or.inr (Or.inr ⟨fun slot => ?_, rfl⟩)
      simpa using List.find?_eq_none.mp full slot (List.mem_finRange slot)
    · rename_i slot found
      exact Or.inr (Or.inl ⟨slot, by simpa using List.find?_some found, absent, rfl⟩)

theorem iget_spec (invariant : Invariant sb fs) {inum : Nat} (inside : inum < sb.ninodes) :
    Ensures Panic.sound (fun result => Invariant sb result.2) (iget fs inum) := by
  rcases iget_cases fs inum with ⟨slot, inUse, _, same⟩ | ⟨slot, _, absent, same⟩ | ⟨_, same⟩
  · rw [same]
    exact invariant.reref inUse _
  · rw [same]
    exact invariant.recycle rfl (fun _ => inside) fun _ => absent
  · rw [same]
    exact trivial

theorem ilock_spec (invariant : Invariant sb fs) (held : (fs.itable slot).ref > 0) :
    Ensures (fun reason => reason.sound ∨ reason = .noType) (Invariant sb) (ilock sb fs slot) := by
  unfold ilock
  simp only
  split
  · exact Or.inl trivial
  · split
    · exact invariant
    · split
      · exact Or.inr rfl
      · rename_i live
        refine invariant.change held invariant.owned (fun other different => ?_) (fun _ _ _ => rfl)
          ?_ ?_
        · exact overwrite_of_ne different ..
        · simp [Store.set]
        · intro _ _
          simpa [Store.set] using live

theorem iput_spec (invariant : Invariant sb fs) (held : (fs.itable slot).ref > 0) :
    Ensures Panic.sound (Invariant sb) (iput sb fs slot) := by
  unfold iput
  simp only
  split
  · rename_i last
    have loaded := invariant.loaded held last.2.1
    have inside := invariant.inside slot held
    obtain ⟨disk, truncated, stored⟩ := itrunc_spec loaded inside
    rw [truncated, ok_bind]
    have fits := loaded.fits
    have freed := stored.iupdate (d := { (fs.itable slot).copy.truncated with type := 0 }) inside
      ⟨Nat.two_pow_pos 16, fits.major, fits.minor, fits.nlink, Nat.two_pow_pos 32,
        fun _ => Nat.two_pow_pos 32⟩
      (fun index => by rw [Dinode.addr_truncated]; rfl) fun live => absurd rfl live
    refine invariant.change held freed.owned (fun other different => ?_)
      (fun _ different inside => freed.dinode_other different inside) ?_ ?_
    · exact overwrite_of_ne different ..
    · simp [Store.set]
    · intro inUse
      simp [Store.set, last.1] at inUse
  · exact invariant.reref held _

theorem ialloc_spec (invariant : Invariant sb fs) {type : Nat} (fits : type < 2 ^ 16) :
    Ensures Panic.sound (fun result => Invariant sb result.2) (ialloc sb fs type) := by
  unfold ialloc
  split
  · exact trivial
  · rename_i inum found
    have inside : inum < sb.ninodes := by
      have member := List.mem_range'_1.mp (List.mem_of_find?_eq_some found)
      omega
    have free : (dinode sb fs.disk inum).type = 0 := by
      simpa using List.find?_some found
    have before : Stored sb inum fs.disk fs.disk (dinode sb fs.disk inum) := by
      refine ⟨invariant.owned, ?_⟩
      rw [← view_inode inside, Function.update_eq_self]
    have stored := before.iupdate (d := freshDinode type) inside
      ⟨fits, Nat.two_pow_pos 16, Nat.two_pow_pos 16, Nat.two_pow_pos 16, Nat.two_pow_pos 32,
        fun _ => Nat.two_pow_pos 32⟩
      (fun index => (Dinode.addr_of_zero rfl).trans (if_pos free).symm) fun _ => Or.inl rfl
    have allocated : Invariant sb { fs with disk := putDinode sb fs.disk inum (freshDinode type) } := by
      refine ⟨stored.owned, invariant.distinct, invariant.inside, fun slot inUse valid => ?_⟩
      -- No valid entry is about an inode that was free on disk.
      obtain ⟨current, live⟩ := invariant.current slot inUse valid
      have different : (fs.itable slot).inum ≠ inum := by
        intro equal
        rw [equal] at current
        exact live (current ▸ free)
      exact ⟨(stored.dinode_other different (invariant.inside slot inUse)).trans current, live⟩
    exact iget_spec allocated inside

@[simp]
theorem Store.put_self (fs : Store) (slot : Fin NINODE) :
    fs.put slot (fs.itable slot).copy fs.disk = fs := by
  simp [Store.put]

/-- `dirlink` finds the name and drops the reference it got. -/
theorem iget_iput_spec (invariant : Invariant sb fs) (inum : Nat) :
    Ensures Panic.sound (fun result => Ensures Panic.sound (Invariant sb) (iput sb result.2 result.1))
      (iget fs inum) := by
  rcases iget_cases fs inum with ⟨slot, inUse, _, same⟩ | ⟨slot, _, absent, same⟩ | ⟨_, same⟩
  · rw [same]
    have held : ((fs.set slot { fs.itable slot with
        ref := (fs.itable slot).ref + 1 }).itable slot).ref > 0 := by
      simp [Store.set]
    exact iput_spec (invariant.reref inUse _) held
  · rw [same]
    -- The entry is not valid, so nothing is freed even if the number is no inode's.
    have untouched : iput sb (fs.set slot ⟨inum, 1, false, (fs.itable slot).copy⟩) slot =
        .ok (fs.set slot ⟨inum, 0, false, (fs.itable slot).copy⟩) := by
      simp [iput, Store.set]
    simp only [untouched, ensures_ok]
    exact invariant.recycle rfl nofun nofun
  · rw [same]
    exact trivial

theorem dirwrite_spec (invariant : Invariant sb fs) (held : (fs.itable slot).ref > 0)
    (valid : (fs.itable slot).valid = true) (name : Nat → UInt8) (inum : Nat) :
    Ensures Panic.sound (fun result => Invariant sb result.2) (dirwrite sb fs slot name inum) := by
  have loaded := invariant.loaded held valid
  have current := (invariant.current slot held valid).1
  unfold dirwrite
  refine Ensures.bind ((emptyDirent_spec loaded _ 0 (Nat.zero_le _)).mono_errors
    fun reason ⟨isRead, _⟩ => isRead ▸ trivial)
    fun ⟨off, dp, disk⟩ ⟨offFits, sameCopy, sameDisk, _⟩ => ?_
  simp only at offFits sameCopy sameDisk ⊢
  subst sameCopy sameDisk
  refine (writei_spec loaded (invariant.inside slot held) current _ offFits
    (show direntSize < 2 ^ 32 by decide)).bind fun ⟨count, dp, disk⟩ ⟨stored, agrees, _⟩ => ?_
  simp only at stored agrees ⊢
  split
  · exact trivial
  · exact invariant.put held stored (agrees.type ▸ loaded.live)

theorem dirlink_spec (invariant : Invariant sb fs) (held : (fs.itable slot).ref > 0)
    (valid : (fs.itable slot).valid = true) (name : Nat → UInt8) (inum : Nat) :
    Ensures Panic.sound (fun result => Invariant sb result.2) (dirlink sb fs slot name inum) := by
  have searched := (dirsearch_spec (invariant.loaded held valid) name).mono_errors
    fun reason known => show reason.sound by rcases known with ⟨rfl, _⟩ | ⟨rfl, _⟩ <;> trivial
  unfold dirlink dirlookup
  cases search : dirsearch sb fs.disk (fs.itable slot).copy name with
  | error reason =>
    rw [search] at searched
    exact searched
  | ok result =>
    obtain ⟨found, dp, disk⟩ := result
    rw [search] at searched
    obtain ⟨rfl, rfl, _⟩ := searched
    rw [ok_bind]
    cases found with
    | none =>
      simp only [Store.put_self, ok_bind]
      exact dirwrite_spec invariant held valid name inum
    | some entry =>
      simp only [Store.put_self, bind_assoc, ok_bind]
      exact (iget_iput_spec invariant entry.1).bind
        fun result dropped => dropped.bind fun _ kept => kept

end Xv6.Fs
