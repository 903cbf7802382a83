import Xv6.Fs.Namex

namespace Xv6.Fs

open Xv6.Data Xv6.Log

/-! # Path resolution and the locks of the inodes

`namex` again, with the sleep locks: no inode is locked when it returns.
-/

/-- The file system, and which inodes the calling process has locked. -/
structure Session where
  fs : Store
  locked : Fin NINODE → Bool

inductive Fault where
  | panic (reason : Panic)
  /-- "iunlock" -/
  | iunlock
  /-- `acquiresleep` on a lock that the process holds itself. -/
  | deadlock

/-- A computation that does not care about locks. -/
def liftPanic {α : Type} : Except Panic α → Except Fault α
  | .ok value => .ok value
  | .error reason => .error (.panic reason)

namespace Session

variable (sb : Superblock)

def ilock (session : Session) (ip : Fin NINODE) : Except Fault Session :=
  if (session.fs.itable ip).ref < 1 then
    .error (.panic .ilock)
  else if session.locked ip then
    .error .deadlock
  else do
    let fs ← liftPanic (Fs.ilock sb session.fs ip)
    .ok ⟨fs, overwrite session.locked ip true⟩

def iunlock (session : Session) (ip : Fin NINODE) : Except Fault Session :=
  if !session.locked ip || (session.fs.itable ip).ref < 1 then
    .error .iunlock
  else
    .ok { session with locked := overwrite session.locked ip false }

/-- To free an inode, `iput` locks it. -/
def iput (session : Session) (ip : Fin NINODE) : Except Fault Session :=
  let inode := session.fs.itable ip
  if (inode.ref = 1 ∧ inode.valid ∧ inode.copy.nlink = 0) ∧ session.locked ip then
    .error .deadlock
  else do
    let fs ← liftPanic (Fs.iput sb session.fs ip)
    .ok { session with fs }

def iunlockput (session : Session) (ip : Fin NINODE) : Except Fault Session := do
  let session ← session.iunlock ip
  session.iput sb ip

/-- The loop of `namex`. -/
def namexFrom (nameiparent : Bool) : Nat → Session → Fin NINODE → List UInt8 →
    Except Fault (Option (Fin NINODE × (Nat → UInt8)) × Session)
  | 0, session, _, _ => .ok (none, session)
  | fuel + 1, session, ip, path =>
    match skipelem path with
    | none =>
      if nameiparent then do
        let session ← session.iput sb ip
        .ok (none, session)
      else
        .ok (some (ip, fun _ => 0), session)
    | some (name, path) => do
      let session ← session.ilock sb ip
      if (session.fs.itable ip).copy.type ≠ T_DIR then
        let session ← session.iunlockput sb ip
        .ok (none, session)
      else if nameiparent ∧ path = [] then
        -- Stop one level early.
        let session ← session.iunlock ip
        .ok (some (ip, name), session)
      else
        let (next, fs) ← liftPanic (dirlookup sb session.fs ip name)
        match next with
        | none =>
          let session ← iunlockput sb { session with fs } ip
          .ok (none, session)
        | some (next, _) =>
          let session ← iunlockput sb { session with fs } ip
          namexFrom nameiparent fuel session next path

def namex (session : Session) (cwd : Fin NINODE) (path : List UInt8) (nameiparent : Bool) :
    Except Fault (Option (Fin NINODE × (Nat → UInt8)) × Session) :=
  if path.head? = some slash then do
    let (ip, fs) ← liftPanic (iget session.fs ROOTINO)
    namexFrom sb nameiparent (path.length + 1) { session with fs } ip path
  else
    namexFrom sb nameiparent (path.length + 1) { session with fs := idup session.fs cwd } cwd path

end Session

/-! ## Locks are taken one at a time -/

variable {sb : Superblock} {fs fs' : Store} {locked : Fin NINODE → Bool} {ip : Fin NINODE}

/-- The result of a computation without locks, with the locks as they were. -/
def withLocks {α : Type} (locked : Fin NINODE → Bool) : Except Panic (α × Store) →
    Except Fault (α × Session)
  | .ok (value, fs) => .ok (value, ⟨fs, locked⟩)
  | .error reason => .error (.panic reason)

theorem Session.iunlock_locked (unlocked : locked ip = false) (inUse : (fs.itable ip).ref > 0) :
    Session.iunlock ⟨fs, overwrite locked ip true⟩ ip = .ok ⟨fs, locked⟩ := by
  have restored : overwrite (overwrite locked ip true) ip false = locked := by
    funext other
    by_cases same : other = ip
    · rw [same, overwrite_self, unlocked]
    · rw [overwrite_of_ne same, overwrite_of_ne same]
  unfold Session.iunlock
  simp only [overwrite_self, restored]
  rw [if_neg]
  simpa using Nat.ne_of_gt inUse

theorem Session.iput_unlocked (unlocked : locked ip = false) : Session.iput sb ⟨fs, locked⟩ ip =
      (liftPanic (Fs.iput sb fs ip) >>= fun fs => .ok ⟨fs, locked⟩) := by
  simp [Session.iput, unlocked]

theorem Session.iunlockput_locked (unlocked : locked ip = false) (inUse : (fs.itable ip).ref > 0) :
    Session.iunlockput sb ⟨fs, overwrite locked ip true⟩ ip =
      (liftPanic (Fs.iput sb fs ip) >>= fun fs => .ok ⟨fs, locked⟩) := by
  rw [Session.iunlockput, Session.iunlock_locked unlocked inUse, ok_bind,
    Session.iput_unlocked unlocked]

theorem ilock_ref (lock : ilock sb fs ip = .ok fs') : (fs'.itable ip).ref > 0 := by
  unfold ilock at lock
  simp only at lock
  split at lock
  · contradiction
  · rename_i inUse
    split at lock
    · cases lock
      omega
    · split at lock
      · contradiction
      · cases lock
        simp only [Store.set, overwrite_self]
        omega

theorem Session.ilock_unlocked (unlocked : locked ip = false) : Session.ilock sb ⟨fs, locked⟩ ip =
      (liftPanic (Fs.ilock sb fs ip) >>= fun fs => .ok ⟨fs, overwrite locked ip true⟩) := by
  unfold Session.ilock Fs.ilock
  simp only [unlocked, Bool.false_eq_true, if_false]
  split <;> rfl

theorem dirlookup_ref {name : Nat → UInt8} {found : Option (Fin NINODE × Nat)}
    (inUse : (fs.itable ip).ref > 0) (looked : dirlookup sb fs ip name = .ok (found, fs')) :
    (fs'.itable ip).ref > 0 := by
  have put : ∀ copy disk, ((fs.put ip copy disk).itable ip).ref > 0 := by
    intro copy disk
    simpa only [Store.put, overwrite_self] using inUse
  unfold dirlookup at looked
  cases search : dirsearch sb fs.disk (fs.itable ip).copy name with
  | error reason =>
    rw [search] at looked
    contradiction
  | ok result =>
    obtain ⟨entry, copy, disk⟩ := result
    rw [search, ok_bind] at looked
    cases entry with
    | none =>
      cases looked
      exact put copy disk
    | some entry =>
      simp only at looked
      rcases iget_cases (fs.put ip copy disk) entry.1 with
        ⟨slot, _, _, got⟩ | ⟨slot, unused, _, got⟩ | ⟨_, none⟩
      · rw [got] at looked
        cases looked
        by_cases same : ip = slot
        · subst same
          simp only [Store.set, overwrite_self]
          omega
        · simp only [Store.set, overwrite_of_ne same]
          exact put copy disk
      · rw [got] at looked
        cases looked
        have different : ip ≠ slot := by
          intro same
          have here := put copy disk
          rw [← same] at unused
          omega
        simp only [Store.set, overwrite_of_ne different]
        exact put copy disk
      · rw [none] at looked
        contradiction

theorem Session.namexFrom_eq (unlocked : ∀ ip, locked ip = false) (nameiparent : Bool) (fuel : Nat)
    (fs : Store) (ip : Fin NINODE) (path : List UInt8) :
    Session.namexFrom sb nameiparent fuel ⟨fs, locked⟩ ip path =
      withLocks locked (Fs.namexFrom sb nameiparent fuel fs ip path) := by
  induction fuel generalizing fs ip path with
  | zero => rfl
  | succ fuel ih =>
    unfold Session.namexFrom Fs.namexFrom
    cases skipelem path with
    | none =>
      simp only
      split
      · rw [Session.iput_unlocked (unlocked ip)]
        cases Fs.iput sb fs ip <;> rfl
      · rfl
    | some element =>
      obtain ⟨name, path⟩ := element
      simp only [Session.ilock_unlocked (unlocked ip)]
      cases lock : Fs.ilock sb fs ip with
      | error reason => rfl
      | ok fs =>
        have inUse := ilock_ref lock
        simp only [liftPanic, ok_bind]
        split
        · rw [Session.iunlockput_locked (unlocked ip) inUse]
          cases Fs.iput sb fs ip <;> rfl
        · split
          · rw [Session.iunlock_locked (unlocked ip) inUse]
            rfl
          · cases look : dirlookup sb fs ip name with
            | error reason => rfl
            | ok result =>
              obtain ⟨next, fs⟩ := result
              have stillInUse := dirlookup_ref inUse look
              simp only [ok_bind]
              cases next with
              | none =>
                simp only [Session.iunlockput_locked (unlocked ip) stillInUse]
                cases Fs.iput sb fs ip <;> rfl
              | some next =>
                simp only [Session.iunlockput_locked (unlocked ip) stillInUse]
                cases Fs.iput sb fs ip with
                | error reason => rfl
                | ok fs => exact ih fs next.1 path

/-- With locks or without, `namex` does the same, and it keeps no lock. -/
theorem Session.namex_eq (unlocked : ∀ ip, locked ip = false) (fs : Store) (cwd : Fin NINODE)
    (path : List UInt8) (nameiparent : Bool) :
    Session.namex sb ⟨fs, locked⟩ cwd path nameiparent =
      withLocks locked (Fs.namex sb fs cwd path nameiparent) := by
  unfold Session.namex Fs.namex
  split
  · cases iget fs ROOTINO with
    | error reason => rfl
    | ok result => exact Session.namexFrom_eq unlocked nameiparent _ result.2 result.1 path
  · exact Session.namexFrom_eq unlocked nameiparent _ _ cwd path

theorem count_toList (found : Option (Fin NINODE)) (slot : Fin NINODE) :
    found.toList.count slot = if found = some slot then 1 else 0 := by
  cases found with
  | none => rfl
  | some other => simp [List.count_singleton]

/-- `namex` finds what the components of the path lead to, from the root or the current
directory; it leaves one more reference to the inode it returns, and no lock.  It needs two
free entries in the inode table. -/
theorem namex_resolves {cwd : Fin NINODE} (tree : Tree sb fs (Anchored sb fs))
    (anchored : Anchored sb fs (fs.itable cwd).inum) (inUse : (fs.itable cwd).ref > 0)
    (unlocked : ∀ ip, locked ip = false) (path : List UInt8) (nameiparent : Bool) :
    Ensures (fun fault => fault = .panic .noInodeSlot ∧ freeSlots fs < 2)
      (fun result =>
        result.1.map (fun found => ((result.2.fs.itable found.1).inum, found.2)) =
          ((view sb fs.disk).namex nameiparent
            (if path.head? = some slash then ROOTINO else (fs.itable cwd).inum)
            (components path)).map (fun found => (found.1, nameBuffer found.2)) ∧
        result.2.fs.disk = fs.disk ∧
        (∀ slot, (result.2.fs.itable slot).ref =
          (fs.itable slot).ref + if result.1.map Prod.fst = some slot then 1 else 0) ∧
        (∀ slot, (fs.itable slot).ref > 0 →
          (result.2.fs.itable slot).inum = (fs.itable slot).inum) ∧
        ∀ ip, result.2.locked ip = false)
      (Session.namex sb ⟨fs, locked⟩ cwd path nameiparent) := by
  have spec := namex_spec tree anchored inUse path nameiparent
  rw [Session.namex_eq unlocked]
  cases resolved : Fs.namex sb fs cwd path nameiparent with
  | error reason =>
    rw [resolved] at spec
    exact ⟨congrArg Fault.panic spec.1, spec.2⟩
  | ok result =>
    rw [resolved] at spec
    refine ⟨spec.found, spec.holds.disk, fun slot => ?_, spec.holds.inums, unlocked⟩
    rw [← count_toList]
    exact spec.holds.refs slot

/-! ## Small trees -/

def storeAfter (sb : Superblock) (start : State) (events : List Event) : Store :=
  match (machine sb).execute start events with
  | none => start.fs
  | some state => state.fs

theorem storeAfter_invariant {start : State} (initial : (machine sb).initial start)
    (events : List Event) : Invariant sb (storeAfter sb start events) := by
  unfold storeAfter
  split
  · exact (reachable_invariant ⟨_, .start initial⟩).1
  · rename_i state executed
    exact (reachable_invariant (.of_execute initial executed)).1

/-- What `Tree` asks for, as a check; no inode is without links. -/
def treeCheck (sb : Superblock) (fs : Store) : Bool :=
  let linked inum := decide (inum < sb.ninodes ∧ (dinode sb fs.disk inum).type ≠ 0 ∧
    (dinode sb fs.disk inum).nlink ≠ 0)
  linked ROOTINO && (List.range sb.ninodes).all fun dir =>
    decide ((dinode sb fs.disk dir).type ≠ T_DIR) ||
      decide ((dinode sb fs.disk dir).size % direntSize = 0) &&
      ((view sb fs.disk).dirents dir).all fun entry =>
        decide (entry.inum = 0) || linked entry.inum

theorem Invariant.tree (invariant : Invariant sb fs) (checked : treeCheck sb fs = true) :
    Tree sb fs (Anchored sb fs) := by
  rw [treeCheck, Bool.and_eq_true, List.all_eq_true, decide_eq_true_eq] at checked
  obtain ⟨⟨inside, allocated, linked⟩, all⟩ := checked
  have directory : ∀ dir, dir < sb.ninodes → (dinode sb fs.disk dir).type = T_DIR →
      (dinode sb fs.disk dir).size % direntSize = 0 ∧
      ∀ entry ∈ (view sb fs.disk).dirents dir, entry.inum ≠ 0 → Anchored sb fs entry.inum := by
    intro dir below isDir
    have here := all dir (List.mem_range.mpr below)
    simp only [isDir, ne_eq, not_true_eq_false, decide_false, Bool.false_or, Bool.and_eq_true,
      decide_eq_true_eq, List.all_eq_true, Bool.or_eq_true] at here
    refine ⟨here.1, fun entry member used => ?_⟩
    obtain ⟨inside, allocated, linked⟩ := (here.2 entry member).resolve_left used
    exact ⟨inside, allocated, .inl linked⟩
  exact ⟨invariant, ⟨inside, allocated, .inl linked⟩,
    fun dir below isDir => (directory dir below isDir).1, fun dir below isDir => (directory dir below isDir).2⟩

def slotOne : Fin NINODE := ⟨1, by decide⟩

/-- The name `a`. -/
def nameA : Nat → UInt8 := nameBuffer [97]

/-- The root, and in it the directory `a`, inode 2, with the given `nlink`. -/
def smallTree (nlink : Nat) : List Event :=
  [.ialloc T_DIR, .ilock slotZero, .setLinks slotZero 0 0 1, .dirlink slotZero dot 1,
    .dirlink slotZero dotdot 1, .ialloc T_DIR, .ilock slotOne, .setLinks slotOne 0 0 nlink,
    .dirlink slotOne dot 2, .dirlink slotOne dotdot 1, .dirlink slotZero nameA 2]

/-- The root is the current directory; nobody has a reference to `a`. -/
def smallStore (nlink : Nat) : Store :=
  (storeAfter smallSuperblock smallState (smallTree nlink)).set slotOne ⟨2, 0, false, freshDinode 0⟩

theorem smallStore_invariant (nlink : Nat) : Invariant smallSuperblock (smallStore nlink) :=
  (storeAfter_invariant smallState_initial (smallTree nlink)).recycle rfl nofun nofun

theorem smallStore_check : treeCheck smallSuperblock (smallStore 1) = true := by decide +kernel

theorem smallStore_root : ((smallStore 1).itable slotZero).inum = ROOTINO ∧
    ((smallStore 1).itable slotZero).ref > 0 ∧ freeSlots (smallStore 1) = 49 := by
  decide +kernel

theorem smallStore_entry :
    (view smallSuperblock (smallStore 1).disk).namex false ROOTINO (components [47, 97]) =
      some (2, []) := by
  decide +kernel

/-- `/a` is inode 2. -/
theorem namex_resolves_entry : ∃ fs found session,
    Tree smallSuperblock fs (Anchored smallSuperblock fs) ∧
    Session.namex smallSuperblock ⟨fs, fun _ => false⟩ slotZero [47, 97] false =
      .ok (found, session) ∧
    (found.map fun each => (session.fs.itable each.1).inum) = some 2 := by
  obtain ⟨fs, tree, ⟨isRoot, inUse, free⟩, leads⟩ : ∃ fs,
      Tree smallSuperblock fs (Anchored smallSuperblock fs) ∧
      ((fs.itable slotZero).inum = ROOTINO ∧ (fs.itable slotZero).ref > 0 ∧ freeSlots fs = 49) ∧
      (view smallSuperblock fs.disk).namex false ROOTINO (components [47, 97]) = some (2, []) :=
    ⟨smallStore 1, (smallStore_invariant 1).tree smallStore_check, smallStore_root, smallStore_entry⟩
  have anchored : Anchored smallSuperblock fs (fs.itable slotZero).inum := by
    rw [isRoot]
    exact tree.root
  have unlocked : ∀ ip, (fun _ : Fin NINODE => false) ip = false := fun _ => rfl
  have spec := namex_resolves tree anchored inUse unlocked [47, 97] false
  cases resolved : Session.namex smallSuperblock ⟨fs, fun _ => false⟩ slotZero [47, 97] false with
  | error fault =>
    rw [resolved, free] at spec
    exact absurd spec.2 (by decide)
  | ok result =>
    rw [resolved] at spec
    refine ⟨fs, result.1, result.2, tree, resolved, ?_⟩
    have found := congrArg (Option.map Prod.fst) spec.1
    rw [if_pos (show [47, 97].head? = some slash from rfl), leads] at found
    simpa [Option.map_map] using found

/-- `/a/../a/x` -/
def throughA : List UInt8 := [47, 97, 47, 46, 46, 47, 97, 47, 120]

/-- Half an entry at the end of the root. -/
def oddStore : Store :=
  storeAfter smallSuperblock smallState (smallTree 1 ++ [.writei slotZero (fun _ => some 0) 48 8])

/-- A disk with more inodes than the inode table has entries. -/
def wideSuperblock : Superblock := ⟨20, 10, 52, 1, 5, by decide, by decide, smallSuperblock.addressable,
  by decide⟩

def wideDisk : Disk := overwrite (fun _ _ => 0) 5 fun index =>
  if index = 0 then 0xFF else if index = 1 then 3 else 0

theorem wideDisk_wellFormed : WellFormed wideSuperblock wideDisk := by
  have clear : ∀ block, block < 20 → 10 ≤ block → bit wideSuperblock wideDisk block = false := by
    decide +kernel
  have blank : ∀ inum, inum < 52 → (dinode wideSuperblock wideDisk inum).type = 0 := by
    decide +kernel
  refine .of_blank blank (fun block isData => clear block isData.2 isData.1) ?_
  show ∀ block, block < 10 → bit wideSuperblock wideDisk block = true
  decide +kernel

def wideState : State := ⟨⟨wideDisk, fun _ => ⟨0, 0, false, freshDinode 0⟩⟩, none⟩

/-- The root, and forty-nine files that are open. -/
def crowdedStore : Store :=
  storeAfter wideSuperblock wideState
    (smallTree 1 ++ .iput slotOne :: List.replicate 49 (.ialloc T_FILE))

/-- The root is a current directory, and the entries name allocated inodes. -/
def Named (sb : Superblock) (fs : Store) : Prop :=
  (fs.itable slotZero).ref > 0 ∧ (fs.itable slotZero).inum = ROOTINO ∧
    ∀ dir, dir < sb.ninodes → (dinode sb fs.disk dir).type = T_DIR →
      ∀ entry ∈ (view sb fs.disk).dirents dir, entry.inum ≠ 0 →
        entry.inum < sb.ninodes ∧ (dinode sb fs.disk entry.inum).type ≠ 0

def panicOf (sb : Superblock) (fs : Store) (path : List UInt8) : Option Panic :=
  match namex sb fs slotZero path false with
  | .error reason => some reason
  | .ok _ => none

/-- `namex` panics at a path that leads to `target`, or nowhere. -/
structure Stuck (sb : Superblock) (fs : Store) (path : List UInt8)
    (target : Option (Nat × List UInt8)) (reason : Panic) : Prop where
  invariant : Invariant sb fs
  named : Named sb fs
  leads : (view sb fs.disk).namex false ROOTINO (components path) = target
  panics : Session.namex sb ⟨fs, fun _ => false⟩ slotZero path false = .error (.panic reason)

theorem Stuck.of_check {path : List UInt8} {target : Option (Nat × List UInt8)} {reason : Panic}
    (invariant : Invariant sb fs)
    (checked : Named sb fs ∧ (view sb fs.disk).namex false ROOTINO (components path) = target ∧
      panicOf sb fs path = some reason) :
    Stuck sb fs path target reason := by
  obtain ⟨named, leads, panicked⟩ := checked
  refine ⟨invariant, named, leads, ?_⟩
  rw [panicOf] at panicked
  split at panicked
  · rename_i resolved
    cases panicked
    rw [Session.namex_eq fun _ => rfl, resolved]
    rfl
  · cases panicked

theorem Stuck.namex {path : List UInt8} {target : Option (Nat × List UInt8)} {reason : Panic}
    (stuck : Stuck sb fs path target reason) : Fs.namex sb fs slotZero path false = .error reason := by
  have panics := stuck.panics
  rw [Session.namex_eq fun _ => rfl] at panics
  cases resolved : Fs.namex sb fs slotZero path false with
  | ok result =>
    rw [resolved] at panics
    cases panics
  | error other =>
    rw [resolved] at panics
    cases panics
    rfl

theorem unlinked_stuck : Stuck smallSuperblock (smallStore 0) throughA none .noType :=
  .of_check (smallStore_invariant 0) (by unfold Named; decide +kernel)

theorem odd_stuck : Stuck smallSuperblock oddStore [47, 98] none .lookupRead :=
  .of_check (storeAfter_invariant smallState_initial _) (by unfold Named; decide +kernel)

theorem crowded_stuck : Stuck wideSuperblock crowdedStore [47, 97] (some (2, [])) .noInodeSlot :=
  .of_check (storeAfter_invariant ⟨wideDisk_wellFormed, fun _ => rfl, rfl⟩ _)
    (by unfold Named; decide +kernel)

/-- Three trees that `namex` does not get through.  Where an entry names an inode without links,
dropping the reference that `..` was looked up with frees it, and the next component finds a
free inode.  Where a directory ends in half an entry, a name that it does not have is looked up
to there.  Where all entries of the inode table are in use, there is none for `/a`. -/
theorem namex_panics : Stuck smallSuperblock (smallStore 0) throughA none .noType ∧
    Stuck smallSuperblock oddStore [47, 98] none .lookupRead ∧
    Stuck wideSuperblock crowdedStore [47, 97] (some (2, [])) .noInodeSlot :=
  ⟨unlinked_stuck, odd_stuck, crowded_stuck⟩

end Xv6.Fs
