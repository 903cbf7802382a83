import Xv6.Exec.Arguments

namespace Xv6.Exec

open Xv6.Data Xv6.Vm Xv6.Kernel
open Xv6.Fs (NINODE Store Superblock Holds Anchored contents freeSlots pathInum slotZero smallSuperblock)

attribute [local irreducible] tables upperTables lastTable entry

/-! # exec on a file system -/

/-! ## From the inode to the loaded program -/

/-- The ELF header of a file. -/
def elfOf (file : List UInt8) : Elfhdr := .ofBytes (file.take elfSize)

/-- A page table with the segments of a program. -/
structure Program (layout : Layout) (trapframe : Word) (file : List UInt8) (root sz entry : Word)
    (pages : List Word) (phys : Phys) : Prop where
  small : file.length < 2 ^ 31
  header : elfSize ≤ file.length
  magic : (elfOf file).magic = ELF_MAGIC
  start : entry = (elfOf file).entry
  built : Built layout root trapframe phys pages sz
  loaded : AllLoaded file (elfOf file).phnum.toNat ((elfOf file).phoff.setWidth 32) 0 sz (fun _ => 0)
    (content phys.mem pages)

/-- The operation on the file system has ended and given its reference back. -/
structure Ended (sb : Superblock) (before : Store) (state after : State) : Prop where
  holds : Holds sb before after.fs []
  outstanding : after.outstanding = state.outstanding - 1
  proc : after.proc = state.proc

/-- A program is in memory, or nothing is. -/
def Brought (layout : Layout) (file : List UInt8) (state : State) (free : List Word) (after : Phys)
    (free' : List Word) : Option (Word × Word × Word) → Prop
  | none => Change state.phys [] free after [] free'
  | some (root, sz, entry) => ∃ pages,
      Program layout state.proc.trapframe file root sz entry pages after ∧
      Change state.phys [] free after (pages ++ tables after.mem root) free'

section

variable {layout : Layout} {sb : Superblock} {before : Store} {ip : Fin NINODE} {state : State}
  {free : List Word}

/-- The label `bad` with the inode locked. -/
theorem bad_put {pagetable sz : Word} {phys after : Phys} (held : Holds sb before state.fs [ip])
    (anchored : Anchored sb before (state.fs.itable ip).inum)
    (freed : pagetable ≠ 0 → procFreepagetable layout pagetable sz phys = .ok after)
    (same : pagetable = 0 → after = phys) :
    ∃ last, bad layout sb pagetable sz (some ip) { state with phys } = .ok last ∧
      Ended sb before state last ∧ last.phys = after := by
  obtain ⟨fs, put, dropped, _⟩ := held.iput (List.mem_singleton_self ip) anchored
  rw [List.erase_cons_head] at dropped
  refine ⟨{ state with phys := after, fs, outstanding := state.outstanding - 1 }, ?_, ⟨dropped, rfl, rfl⟩,
    rfl⟩
  rw [bad]
  by_cases present : pagetable = 0
  · rw [if_neg (not_not_intro present), ok_bind, same present]
    simp only [put, liftFs_ok, ok_bind]
  · rw [if_pos present, freed present, liftVm_ok, ok_bind]
    simp only [put, liftFs_ok, ok_bind]

theorem execInode_spec (held : Holds sb before state.fs [ip])
    (valid : (state.fs.itable ip).valid = true)
    (anchored : Anchored sb before (state.fs.itable ip).inum)
    (owned : Owned layout state.phys [] free) :
    ∃ result after free', execInode layout sb ip state = .ok (result, after) ∧
      Ended sb before state after ∧
      Brought layout (contents sb before.disk (state.fs.itable ip).inum) state free after.phys free'
        result := by
  have reads := Reads.of_holds held (List.mem_singleton_self ip) valid
  generalize contents sb before.disk (state.fs.itable ip).inum = file at reads
  -- No page table: only the reference to the inode is given back.
  have early : ∀ phys, ∃ last, bad layout sb 0 0 (some ip) { state with phys } = .ok last ∧
      Ended sb before state last ∧ last.phys = phys := fun phys =>
    bad_put held anchored (fun present => absurd rfl present) fun _ => rfl
  obtain ⟨unread, undone, ended, samePhys⟩ := early state.phys
  have none : Brought layout file state free unread.phys free none := by
    rw [samePhys]
    exact .refl owned.list
  rw [execInode, reads.read _ _ (by decide) (by decide), ok_bind]
  simp only [ne_eq, Int.natCast_inj]
  by_cases full : (slice file 0 elfSize).length = elfSize
  · rw [if_neg (not_not_intro full)]
    obtain ⟨enough, isSlice⟩ := slice_full reads.small (by decide) (by decide) (by decide) full
    rw [isSlice, List.drop_zero, show Elfhdr.ofBytes (file.take elfSize) = elfOf file from rfl]
    by_cases magic : (elfOf file).magic = ELF_MAGIC
    · rw [if_neg (not_not_intro magic)]
      obtain ⟨made, free₁, ⟨failed, change⟩ | ⟨root, nonzero, done, space, change⟩⟩ :=
        procPagetable_spec state.proc.trapframe owned
      · obtain ⟨last, undone, ended, samePhys⟩ := early made
        rw [failed, liftVm_ok, ok_bind]
        simp only [if_true]
        refine ⟨_, last, free₁, by rw [undone]; rfl, ended, ?_⟩
        rw [samePhys]
        exact change
      rw [done, liftVm_ok, ok_bind]
      simp only [if_neg nonzero]
      have ownedMade := change.owned owned
      have known : ∀ known ∈ some file, Reads sb state.fs ip known := by
        rintro _ ⟨⟩
        exact reads
      obtain ⟨⟨loaded, sz, after, fs⟩, looped, pages, free₂, built, changeLoaded, isKnown⟩ :=
        (loadSegments_spec known (elfOf file).phnum.toNat
          (⟨space, rfl⟩ : Built layout root state.proc.trapframe made [] 0) ownedMade).exists_ok
          (by simp)
      obtain ⟨rfl, all⟩ := isKnown file rfl
      rw [looped, ok_bind]
      have changeAll := change.trans changeLoaded
      cases loaded with
      | true =>
        obtain ⟨fs, put, dropped, _⟩ := held.iput (List.mem_singleton_self ip) anchored
        rw [List.erase_cons_head] at dropped
        simp only [if_true, put, liftFs_ok, ok_bind]
        exact ⟨_, _, free₂, rfl, ⟨dropped, rfl, rfl⟩, pages,
          ⟨reads.small, enough, magic, rfl, built, all rfl⟩, changeAll⟩
      | false =>
        obtain ⟨freed, free₃, frees, back⟩ := built.freed (changeLoaded.owned ownedMade)
        obtain ⟨last, undone, ended, samePhys⟩ := bad_put held anchored (fun _ => frees)
          (fun zero => absurd zero nonzero)
        simp only [Bool.false_eq_true, if_false]
        refine ⟨_, last, free₃, by rw [undone]; rfl, ended, ?_⟩
        rw [samePhys]
        exact changeAll.trans back
    · rw [if_pos magic]
      exact ⟨_, unread, free, by rw [undone]; rfl, ended, none⟩
  · rw [if_pos full]
    exact ⟨_, unread, free, by rw [undone]; rfl, ended, none⟩

/-- The part of `exec` that reads the file. -/
theorem execLoad_spec (tree : Fs.Tree sb state.fs (Anchored sb state.fs)) {cwd : Fin NINODE}
    (anchored : Anchored sb state.fs (state.fs.itable cwd).inum) (inUse : (state.fs.itable cwd).ref > 0)
    (path : List UInt8) (owned : Owned layout state.phys [] free) :
    Ensures (fun reason => reason = .fs .noInodeSlot ∧ freeSlots state.fs < 2)
      (fun result => Holds sb state.fs result.2.fs [] ∧ result.2.outstanding = state.outstanding ∧
        result.2.proc = state.proc ∧ ∃ free',
        match pathInum sb state.fs cwd path with
        | none => result.1 = none ∧ Change state.phys [] free result.2.phys [] free'
        | some inum => Brought layout (contents sb state.fs.disk inum) state free result.2.phys free' result.1)
      (execLoad layout sb cwd path state) := by
  have named := Fs.namei_spec tree anchored inUse path
  rw [execLoad]
  cases walked : Fs.namex sb state.fs cwd path false with
  | error reason =>
    rw [walked] at named
    exact ⟨congrArg Kernel.Panic.fs named.1, named.2⟩
  | ok result =>
    rw [walked, ensures_ok] at named
    rw [liftFs_ok, ok_bind]
    cases target : pathInum sb state.fs cwd path with
    | none =>
      rw [target] at named
      simp only [named.1]
      exact ⟨named.2, rfl, rfl, free, rfl, .refl owned.list⟩
    | some inum =>
      rw [target] at named
      obtain ⟨ip, name, found, held, isInum, anchoredIp⟩ := named
      simp only [found]
      obtain ⟨locked, lock, heldNow, valid, _, inums⟩ := held.ilock (List.mem_singleton_self ip)
        (by rw [isInum]; exact anchoredIp.allocated)
      rw [lock, liftFs_ok, ok_bind]
      have isLocked : (locked.itable ip).inum = inum := (inums ip).trans isInum
      obtain ⟨result, after, free', done, ended, brought⟩ := @execInode_spec layout sb state.fs ip
        { state with fs := locked, outstanding := state.outstanding + 1 } free heldNow valid
        (by rw [isLocked]; exact anchoredIp) owned
      rw [done]
      rw [isLocked] at brought
      exact ⟨ended.holds, ended.outstanding, ended.proc, free', brought⟩

/-! ## The whole call -/

/-- A call that has failed. -/
structure Failed (sb : Superblock) (state after : State) (free free' : List Word) : Prop where
  holds : Holds sb state.fs after.fs []
  outstanding : after.outstanding = state.outstanding
  proc : after.proc = state.proc
  change : Change state.phys [] free after.phys [] free'

/-- A call that has succeeded, with the bytes that it has loaded. -/
structure Executed (layout : Layout) (sb : Superblock) (file path : List UInt8) (argv : List (List UInt8))
    (state after : State) (free free' : List Word) (sz : Word) (pages : List Word) (guard stack : Word)
    (ustack : List Word) : Prop where
  holds : Holds sb state.fs after.fs []
  outstanding : after.outstanding = state.outstanding
  small : file.length < 2 ^ 31
  header : elfSize ≤ file.length
  magic : (elfOf file).magic = ELF_MAGIC
  size : pages.length = pagesFor sz.toNat
  loaded : AllLoaded file (elfOf file).phnum.toNat ((elfOf file).phoff.setWidth 32) 0 sz (fun _ => 0)
    (content after.phys.mem pages)
  started : Started layout path argv (elfOf file).entry (content after.phys.mem pages) state after pages guard
    stack ustack
  change : Change state.phys (state.proc.trapframe :: userPages state.phys.mem state.proc) free after.phys
    (state.proc.trapframe :: userPages after.phys.mem after.proc) free'

theorem Started.congr {path : List UInt8} {argv : List (List UInt8)} {entry guard stack : Word}
    {loaded : Nat → UInt8} {middle after : State} {pages ustack : List Word}
    (started : Started layout path argv entry loaded middle after pages guard stack ustack)
    (proc : middle.proc = state.proc)
    (frame : middle.phys.mem state.proc.trapframe = state.phys.mem state.proc.trapframe) :
    Started layout path argv entry loaded state after pages guard stack ustack := by
  obtain ⟨space, isProc, frames, bytes, fits, args, startFrame⟩ := started
  rw [proc] at space isProc startFrame
  rw [frame] at startFrame
  exact ⟨space, isProc, frames, bytes, fits, args, startFrame⟩

/-- What `exec` is called with: a tree of directories, the memory of a process, and arguments. -/
structure Ready (layout : Layout) (sb : Superblock) (cwd : Fin NINODE) (argv : List (List UInt8))
    (state : State) (free : List Word) : Prop where
  tree : Fs.Tree sb state.fs (Anchored sb state.fs)
  anchored : Anchored sb state.fs (state.fs.itable cwd).inum
  inUse : (state.fs.itable cwd).ref > 0
  image : Image layout state.phys.mem state.proc
  owned : Owned layout state.phys (state.proc.trapframe :: userPages state.phys.mem state.proc) free
  few : argv.length < MAXARG
  short : ∀ arg ∈ argv, arg.length < PGSIZE

variable {cwd : Fin NINODE} {argv : List (List UInt8)}

theorem exec_spec (ready : Ready layout sb cwd argv state free) (path : List UInt8) :
    Ensures (fun reason => reason = .fs .noInodeSlot ∧ freeSlots state.fs < 2)
      (fun result => ∃ free', result.1 = -1 ∧ Failed sb state result.2 free free' ∨
        result.1 = (argv.length : Int) ∧ ∃ inum sz pages guard stack ustack,
          pathInum sb state.fs cwd path = some inum ∧
            Executed layout sb (contents sb state.fs.disk inum) path argv state result.2 free free' sz
              pages guard stack ustack)
      (exec layout sb cwd path argv state) := by
  obtain ⟨tree, anchored, inUse, image, owned, few, short⟩ := ready
  rw [exec]
  refine (execLoad_spec tree anchored inUse path (owned_none owned)).bind fun loaded spec => ?_
  obtain ⟨result, after⟩ := loaded
  obtain ⟨holds, outstanding, proc, free', brought⟩ := spec
  dsimp only at holds outstanding proc brought ⊢
  cases result with
  | none =>
    refine ⟨free', .inl ⟨rfl, holds, outstanding, proc, ?_⟩⟩
    split at brought
    · exact brought.2
    · exact brought
  | some program =>
    obtain ⟨root, sz, entry⟩ := program
    split at brought
    · cases brought.1
    rename_i inum target
    obtain ⟨pages, program, change⟩ := brought
    obtain ⟨imageNow, samePages, frame, framed⟩ := beside image owned change
    rw [← proc] at imageNow samePages
    obtain ⟨result, last, free'', done, -, outcome⟩ := execStack_spec sb entry path
      (by rw [proc]; exact program.built) imageNow
      (by rw [samePages, proc]; exact framed.owned owned) few short
    simp only [done]
    refine ⟨free'', ?_⟩
    rcases outcome with ⟨failed, same, back⟩ | ⟨success, sameFs, sameOutstanding, started, changeLast⟩
    · rw [same]
      exact .inl ⟨failed, holds, outstanding, proc, change.trans back⟩
    · obtain ⟨guard, stack, ustack, started⟩ := started
      have same := started.content
      have loaded := program.loaded
      rw [← same] at loaded started
      rw [program.start] at started
      rw [samePages, proc] at changeLast
      exact .inr ⟨success, inum, sz, pages, guard, stack, ustack, target, by rw [sameFs]; exact holds,
        by rw [sameOutstanding, outstanding], program.small, program.header, program.magic,
        program.built.size, loaded, started.congr proc frame, framed.trans changeLast⟩

/-- `exec` does all or nothing, unless the inode table has fewer than two free entries and it
panics for want of one. -/
theorem exec_all_or_nothing (ready : Ready layout sb cwd argv state free) (path : List UInt8) :
    Ensures (fun reason => reason = .fs .noInodeSlot ∧ freeSlots state.fs < 2)
      (fun (result, after) => result = -1 →
        after.proc = state.proc ∧
        (∀ page ∈ state.proc.trapframe :: userPages state.phys.mem state.proc,
          after.phys.mem page = state.phys.mem page) ∧
        (∃ free', FreeList after.phys free' ∧ free'.Perm free) ∧
        (∀ slot, (after.fs.itable slot).ref = (state.fs.itable slot).ref) ∧
        after.outstanding = state.outstanding)
      (exec layout sb cwd path argv state) := by
  refine (exec_spec ready path).mono ?_
  rintro ⟨result, after⟩ ⟨free', ⟨-, failed⟩ | ⟨isCount, -⟩⟩ isFailure
  · refine ⟨failed.proc, fun page member => ?_, ⟨free', failed.change.list, failed.change.conserved⟩,
      failed.holds.refs, failed.outstanding⟩
    exact failed.change.elsewhere page (ready.owned.apart member)
  · simp only at isCount isFailure
    omega

end

theorem program_check : ∀ off ∈ [0, 2 ^ 32], Fs.treeCheck smallSuperblock (programStore off) = true := by
  decide +kernel

theorem program_root : ∀ off ∈ [0, 2 ^ 32], ((programStore off).itable slotZero).inum = Fs.ROOTINO ∧
    ((programStore off).itable slotZero).ref > 0 ∧
    freeSlots (programStore off) = 49 ∧
    pathInum smallSuperblock (programStore off) slotZero [47, 97] = some 2 ∧
    pathInum smallSuperblock (programStore off) slotZero [47, 98] = none := by
  decide +kernel

theorem program_ready {off : Nat} (listed : off ∈ [0, 2 ^ 32]) {argv : List (List UInt8)}
    (few : argv.length < MAXARG) (short : ∀ arg ∈ argv, arg.length < PGSIZE) :
    ∃ phys free, programMachine = .ok (0x80030000, phys) ∧
      Ready sampleLayout smallSuperblock slotZero argv
        ⟨phys, programStore off, 0, sampleProc 0x80030000 0⟩ free := by
  obtain ⟨phys, free, made, image, owned⟩ := program_image
  obtain ⟨isRoot, inUse, -⟩ := program_root off listed
  have tree : Fs.Tree smallSuperblock (programStore off) (Anchored smallSuperblock (programStore off)) :=
    (Fs.storeAfter_invariant Fs.smallState_initial _).tree (program_check off listed)
  generalize programStore off = fs at *
  refine ⟨phys, free, made, tree, ?_, inUse, image, owned, few, short⟩
  rw [isRoot]
  exact tree.root

/-- There is no `/b`. -/
theorem exec_all_or_nothing_missing : ∃ state free after,
    Ready sampleLayout smallSuperblock slotZero [[97]] state free ∧ 2 ≤ freeSlots state.fs ∧
    exec sampleLayout smallSuperblock slotZero [47, 98] [[97]] state = .ok (-1, after) ∧
    after.proc = state.proc ∧ after.outstanding = state.outstanding := by
  obtain ⟨phys, free, -, ready⟩ := @program_ready 0 (by decide) [[97]] (by decide) (by decide)
  obtain ⟨-, -, slots, -, missing⟩ := program_root 0 (by decide)
  generalize programStore 0 = fs at *
  obtain ⟨⟨result, after⟩, done, undone⟩ := (exec_all_or_nothing ready [47, 98]).exists_ok
    fun reason full => by
      rw [slots] at full
      exact absurd full.2 (by decide)
  have spec := exec_spec ready [47, 98]
  rw [done, ensures_ok] at spec
  obtain ⟨free', ⟨failed, -⟩ | ⟨-, inum, -, -, -, -, -, found, -⟩⟩ := spec
  · obtain rfl : result = -1 := failed
    exact ⟨_, free, after, ready, by rw [slots]; decide, done, (undone rfl).1, (undone rfl).2.2.2.2⟩
  · rw [missing] at found
    cases found

/-- `exec` panics on a file system on which the block ownership invariant holds and the entries of
directories name allocated inodes. -/
def Panics (phys : Phys) (sb : Superblock) (fs : Store) (path : List UInt8) (reason : Fs.Panic) : Prop :=
  Fs.Invariant sb fs ∧ Fs.Named sb fs ∧
    exec sampleLayout sb slotZero path [[97]] ⟨phys, fs, 0, sampleProc 0x80030000 0⟩ =
      .error (.fs reason)

theorem Panics.of_stuck {sb : Superblock} {fs : Store} {path : List UInt8}
    {target : Option (Nat × List UInt8)} {reason : Fs.Panic}
    (stuck : Fs.Stuck sb fs path target reason) (phys : Phys) : Panics phys sb fs path reason := by
  refine ⟨stuck.invariant, stuck.named, ?_⟩
  simp only [exec, execLoad, stuck.namex]
  rfl

/-- Three file systems on which `exec` panics as `namex` does: a directory without links, a
directory that ends in half an entry, and no entry of the inode table left for `/a`. -/
theorem exec_panics : ∃ phys free, Image sampleLayout phys.mem (sampleProc 0x80030000 0) ∧
    Owned sampleLayout phys (sampleTrapframe :: userPages phys.mem (sampleProc 0x80030000 0)) free ∧
    Panics phys smallSuperblock (Fs.smallStore 0) Fs.throughA .noType ∧
    Panics phys smallSuperblock Fs.oddStore [47, 98] .lookupRead ∧
    Panics phys Fs.wideSuperblock Fs.crowdedStore [47, 97] .noInodeSlot := by
  obtain ⟨phys, free, -, image, owned⟩ := program_image
  exact ⟨phys, free, image, owned, .of_stuck Fs.unlinked_stuck phys, .of_stuck Fs.odd_stuck phys,
    .of_stuck Fs.crowded_stuck phys⟩

/-! ## What the headers say -/

section

variable {layout : Layout} {sb : Superblock} {state : State} {free : List Word}

theorem headers_length (file : List UInt8) (count : Nat) (off : BitVec 32) :
    (headers file count off).length = count := by
  induction count generalizing off with
  | zero => rfl
  | succ count ih => rw [headers, List.length_cons, ih]

theorem headers_getElem? {file : List UInt8} {count index : Nat} (below : index < count) (off : BitVec 32) :
    (headers file count off)[index]? =
      some (header file (off + BitVec.ofNat 32 (phSize * index)).toNat) := by
  induction count generalizing off index with
  | zero => contradiction
  | succ count ih =>
    rw [headers]
    cases index with
    | zero =>
      rw [List.getElem?_cons_zero, Nat.mul_zero, BitVec.add_zero]
    | succ index =>
      rw [List.getElem?_cons_succ, ih (by omega), BitVec.add_assoc, ← BitVec.ofNat_add,
        Nat.add_comm phSize, ← Nat.mul_succ]

/-- An address in the part of a segment that comes from the file. -/
def Proghdr.loads (ph : Proghdr) (address : Nat) : Prop :=
  ph.type = ELF_PROG_LOAD ∧ ph.vaddr.toNat ≤ address ∧ address < ph.vaddr.toNat + ph.filesz.toNat

theorem loadHeader_other {file : List UInt8} {ph : Proghdr} {address : Nat} (bytes : Nat → UInt8)
    (outside : ¬ph.loads address) : loadHeader file bytes ph address = bytes address := by
  rw [loadHeader]
  split
  · rename_i isLoad
    rw [copyIn, if_neg fun within => outside ⟨isLoad, within⟩]
  · rfl

theorem foldl_other {file : List UInt8} {list : List Proghdr} {address : Nat} (bytes : Nat → UInt8)
    (outside : ∀ ph ∈ list, ¬ph.loads address) :
    list.foldl (loadHeader file) bytes address = bytes address := by
  induction list generalizing bytes with
  | nil => rfl
  | cons ph list ih =>
    rw [List.foldl_cons, ih _ fun other member => outside other (List.mem_cons_of_mem _ member),
      loadHeader_other bytes (outside ph List.mem_cons_self)]

theorem foldl_loaded {file : List UInt8} {list : List Proghdr} {index address : Nat} {ph : Proghdr}
    (bytes : Nat → UInt8) (found : list[index]? = some ph) (inside : ph.loads address)
    (alone : ∀ other ph', list[other]? = some ph' → ph'.loads address → other = index) :
    list.foldl (loadHeader file) bytes address =
      file.getD ((ph.off.setWidth 32 : BitVec 32).toNat + (address - ph.vaddr.toNat)) 0 := by
  induction list generalizing bytes index with
  | nil => cases found
  | cons first list ih =>
    rw [List.foldl_cons]
    cases index with
    | zero =>
      cases found
      rw [foldl_other, loadHeader, if_pos inside.1, copyIn, if_pos inside.2]
      intro other member loads
      obtain ⟨position, isOther⟩ := List.mem_iff_getElem?.mp member
      have same := alone (position + 1) other (by rw [List.getElem?_cons_succ, isOther]) loads
      omega
    | succ index =>
      rw [List.getElem?_cons_succ] at found
      refine ih _ found fun other ph' isOther loads => ?_
      have same := alone (other + 1) ph' (by rw [List.getElem?_cons_succ, isOther]) loads
      omega

/-- The position of a header in the file does not wrap around. -/
theorem AllLoaded.position {file : List UInt8} {count : Nat} {off : BitVec 32} {sz sz' : Word}
    {bytes bytes' : Nat → UInt8} (loaded : AllLoaded file count off sz sz' bytes bytes')
    (small : file.length < 2 ^ 31) {index : Nat} (below : index < count) :
    (off + BitVec.ofNat 32 (phSize * index)).toNat = off.toNat + phSize * index := by
  induction index with
  | zero => rw [Nat.mul_zero, BitVec.add_zero, Nat.add_zero]
  | succ index ih =>
    have previous := ih (by omega)
    have present := loaded.present index (by omega)
    have range := off.isLt
    rw [phSize] at *
    rw [BitVec.toNat_add, BitVec.toNat_ofNat]
    omega

/-- The program header with an index. -/
def programHeader (file : List UInt8) (index : Nat) : Proghdr :=
  header file ((elfOf file).phoff.toNat + phSize * index)

/-- The program header with an index is one to load. -/
def Segment (file : List UInt8) (i : Nat) : Prop :=
  i < (elfOf file).phnum.toNat ∧ (programHeader file i).type = ELF_PROG_LOAD

/-- The memory of a segment. -/
def Proghdr.covers (ph : Proghdr) (address : Nat) : Prop :=
  ph.vaddr.toNat ≤ address ∧ address < ph.vaddr.toNat + ph.memsz.toNat

/-- No byte of memory belongs to two segments. -/
def DisjointSegments (file : List UInt8) : Prop :=
  ∀ i j address, Segment file i → Segment file j → (programHeader file i).covers address →
    (programHeader file j).covers address → i = j

/-- The file is loaded as its headers say: the segments are in the file, they are in memory where
the headers put them, and all else below the stack is zero. -/
structure LoadsAsTold (file : List UInt8) (after : State) : Prop where
  inFile : ∀ i, Segment file i → ∀ k, k < (programHeader file i).filesz.toNat →
    (programHeader file i).off.toNat + k < file.length
  bytes : DisjointSegments file → ∀ i, Segment file i →
    ∀ k, k < (programHeader file i).filesz.toNat →
      userByte after.phys.mem after.proc.pagetable ((programHeader file i).vaddr + BitVec.ofNat 64 k) =
        file[(programHeader file i).off.toNat + k]?
  zeros : ∀ va, va.toNat < after.proc.sz.toNat - 2 * PGSIZE →
    (∀ i, i < (elfOf file).phnum.toNat → ¬(programHeader file i).loads va.toNat) →
      userByte after.phys.mem after.proc.pagetable va = some 0

/-- What the headers at the offset that is left of `phoff` in an `int` make of zeros. -/
def loadedBytes (file : List UInt8) : Nat → UInt8 :=
  (headers file (elfOf file).phnum.toNat ((elfOf file).phoff.setWidth 32)).foldl (loadHeader file) fun _ => 0

/-- The offsets into the file fit in 32 bits; or the headers do not exist, and those that the loop
comes to instead load nothing but zeros. -/
def FitOffsets (file : List UInt8) : Prop :=
  (elfOf file).phoff.toNat < 2 ^ 32 ∧
      (∀ i, Segment file i → 0 < (programHeader file i).filesz.toNat →
        (programHeader file i).off.toNat < 2 ^ 32) ∨
    2 ^ 32 ≤ (elfOf file).phoff.toNat ∧ ∀ address, loadedBytes file address = 0

section

variable {file path : List UInt8} {argv : List (List UInt8)} {after : State} {free' : List Word} {sz : Word}
  {pages : List Word} {guard stack : Word} {ustack : List Word}
  (executed : Executed layout sb file path argv state after free free' sz pages guard stack ustack)

include executed

theorem Executed.pages_bound
    (owned : Owned layout state.phys (state.proc.trapframe :: userPages state.phys.mem state.proc) free) :
    after.proc.sz.toNat = pages.length * PGSIZE + 2 * PGSIZE ∧
      ∀ va, pageOf va < pages.length →
        userByte after.phys.mem after.proc.pagetable va = some (loadedBytes file va.toNat) := by
  have started := executed.started
  have ownedAfter := (executed.change.owned owned).tail
  rw [started.frames] at ownedAfter
  have few := ownedAfter.length_le
  rw [List.length_append, List.length_append, List.length_append] at few
  constructor
  · have isSize : after.proc.sz = addressOf (pages.length + 2) := congrArg Proc.sz started.proc
    rw [isSize, addressOf_toNat (by omega), Nat.add_mul]
  · intro va below
    rw [userByte_program started.space _ below, executed.loaded.bytes, loadedBytes]
    exact fun page member => aligned_pages ownedAfter page (List.mem_append_left _ member)

/-- No program header is at an offset of more than 32 bits. -/
theorem Executed.no_header (far : 2 ^ 32 ≤ (elfOf file).phoff.toNat) (i : Nat) :
    (programHeader file i).type ≠ ELF_PROG_LOAD := by
  have small := executed.small
  rw [programHeader, Exec.header, List.drop_eq_nil_of_le (by omega), List.take_nil]
  decide

theorem Executed.loadedBytes_beyond {address : Nat} (beyond : pages.length * PGSIZE ≤ address) :
    loadedBytes file address = 0 := by
  refine foldl_other _ fun ph member loads => ?_
  have here := executed.loaded.accepted ph member loads.1
  have ordered := here.ordered
  have inside := here.inside
  have above := loads.2.2
  have size := executed.size
  rw [pagesFor, PGSIZE] at size
  rw [PGSIZE] at beyond
  omega

/-- The headers of the loop are those of the file. -/
theorem Executed.header_eq (narrow : (elfOf file).phoff.toNat < 2 ^ 32) {i : Nat}
    (below : i < (elfOf file).phnum.toNat) :
    (headers file (elfOf file).phnum.toNat ((elfOf file).phoff.setWidth 32))[i]? =
      some (programHeader file i) := by
  have narrowed : ((elfOf file).phoff.setWidth 32 : BitVec 32).toNat = (elfOf file).phoff.toNat := by
    rw [BitVec.toNat_setWidth]
    omega
  rw [headers_getElem? below, executed.loaded.position executed.small below, narrowed, programHeader]

theorem Executed.loadsAsTold
    (owned : Owned layout state.phys (state.proc.trapframe :: userPages state.phys.mem state.proc) free)
    (narrow : (elfOf file).phoff.toNat < 2 ^ 32)
    (offsets : ∀ i, Segment file i → 0 < (programHeader file i).filesz.toNat →
      (programHeader file i).off.toNat < 2 ^ 32) :
    LoadsAsTold file after := by
  obtain ⟨isSize, seen⟩ := executed.pages_bound owned
  have isHeader : ∀ i, i < (elfOf file).phnum.toNat → _ := fun i below => executed.header_eq narrow below
  have accepted : ∀ i, Segment file i → Accepted file sz (programHeader file i) := fun i segment =>
    executed.loaded.accepted _ (List.mem_of_getElem? (isHeader i segment.1)) segment.2
  have index : ∀ i ph, (headers file (elfOf file).phnum.toNat ((elfOf file).phoff.setWidth 32))[i]? = some ph →
      i < (elfOf file).phnum.toNat ∧ ph = programHeader file i := by
    intro i ph isPh
    have below : i < (elfOf file).phnum.toNat := by
      obtain ⟨inside, _⟩ := List.getElem?_eq_some_iff.mp isPh
      rwa [headers_length] at inside
    exact ⟨below, Option.some.inj (isPh.symm.trans (isHeader i below))⟩
  have inFile : ∀ i, Segment file i → ∀ k, k < (programHeader file i).filesz.toNat →
      ((programHeader file i).off.setWidth 32 : BitVec 32).toNat = (programHeader file i).off.toNat ∧
        (programHeader file i).off.toNat + k < file.length := by
    intro i segment k inside
    have wide := offsets i segment (by omega)
    have narrowed : ((programHeader file i).off.setWidth 32 : BitVec 32).toNat =
        (programHeader file i).off.toNat := by
      rw [BitVec.toNat_setWidth]
      omega
    have enough := (accepted i segment).inFile (by omega)
    exact ⟨narrowed, by omega⟩
  have size := executed.size
  refine ⟨fun i segment k inside => (inFile i segment k inside).2, ?_, ?_⟩
  · intro disjoint i segment k inside
    obtain ⟨narrowed, bound⟩ := inFile i segment k inside
    have here := accepted i segment
    have ordered := here.ordered
    have within := here.inside
    have range := sz.isLt
    have address : ((programHeader file i).vaddr + BitVec.ofNat 64 k).toNat =
        (programHeader file i).vaddr.toNat + k := by
      rw [BitVec.toNat_add, BitVec.toNat_ofNat]
      omega
    rw [seen _ (by rw [pageOf, address, size, pagesFor, PGSIZE]; omega), loadedBytes,
      foldl_loaded _ (isHeader i segment.1) ⟨segment.2, by omega, by omega⟩ ?_, address, narrowed,
      Nat.add_sub_cancel_left, List.getD_eq_getElem?_getD, List.getElem?_eq_getElem bound, Option.getD_some]
    intro j ph isPh loads
    obtain ⟨belowJ, rfl⟩ := index j ph isPh
    have orderedJ := (accepted j ⟨belowJ, loads.1⟩).ordered
    have lower := loads.2.1
    have upper := loads.2.2
    rw [address] at lower upper
    exact disjoint j i _ ⟨belowJ, loads.1⟩ segment ⟨lower, by omega⟩ ⟨by omega, by omega⟩
  · intro va below outside
    rw [isSize, PGSIZE] at below
    rw [seen va (by rw [pageOf, PGSIZE]; omega), loadedBytes, foldl_other]
    intro ph member
    obtain ⟨i, isPh⟩ := List.mem_iff_getElem?.mp member
    obtain ⟨belowI, rfl⟩ := index i ph isPh
    exact outside i belowI

end

/-- `exec` loads what the headers say exactly if their offsets into the file fit in 32 bits, up to
headers that do not exist. -/
theorem exec_loads_segments {cwd : Fin NINODE} {argv : List (List UInt8)}
    (ready : Ready layout sb cwd argv state free) {path : List UInt8} {inum : Nat}
    (target : pathInum sb state.fs cwd path = some inum) {file : List UInt8}
    (isFile : file = contents sb state.fs.disk inum) {result : Int} {after : State}
    (done : exec layout sb cwd path argv state = .ok (result, after)) (success : result ≠ -1) :
    LoadsAsTold file after ↔ FitOffsets file := by
  have spec := exec_spec ready path
  rw [done, ensures_ok] at spec
  obtain ⟨free', ⟨failed, -⟩ | ⟨-, found, sz, pages, guard, stack, ustack, isFound, executed⟩⟩ := spec
  · exact absurd failed success
  obtain rfl : inum = found := Option.some.inj (target.symm.trans isFound)
  rw [← isFile] at executed
  obtain ⟨isSize, seen⟩ := executed.pages_bound ready.owned
  rcases Nat.lt_or_ge (elfOf file).phoff.toNat (2 ^ 32) with narrow | far
  · constructor
    · refine fun loads => .inl ⟨narrow, fun i segment some => ?_⟩
      have inside := loads.inFile i segment 0 some
      have small := executed.small
      omega
    · rintro (⟨_, offsets⟩ | ⟨far, _⟩)
      · exact executed.loadsAsTold ready.owned narrow offsets
      · omega
  -- No header is in the file, so all that is below the stack is to be zero.
  · have none := executed.no_header far
    constructor
    · refine fun loads => .inr ⟨far, fun address => ?_⟩
      rcases Nat.lt_or_ge address (pages.length * PGSIZE) with below | beyond
      · have range := after.proc.sz.isLt
        have same : (BitVec.ofNat 64 address).toNat = address := by
          rw [BitVec.toNat_ofNat, Nat.mod_eq_of_lt]
          omega
        have zero := loads.zeros (BitVec.ofNat 64 address) (by rw [isSize, same]; omega)
          fun i _ inside => none i inside.1
        rw [seen _ (by rw [pageOf, same]; exact Nat.div_lt_of_lt_mul (by rwa [Nat.mul_comm])), same] at zero
        exact Option.some.inj zero
      · exact executed.loadedBytes_beyond beyond
    · rintro (⟨narrow, _⟩ | ⟨_, zeros⟩)
      · omega
      · refine ⟨fun i segment => absurd segment.2 (none i), fun _ i segment => absurd segment.2 (none i), ?_⟩
        intro va below _
        rw [isSize, PGSIZE] at below
        rw [seen va (by rw [pageOf, PGSIZE]; omega), zeros]

end

/-- The bytes of `/a`. -/
theorem program_contents : ∀ off ∈ [0, 2 ^ 32],
    elfOf (contents smallSuperblock (programStore off).disk 2) =
      ⟨ELF_MAGIC, 0, 64, 1⟩ ∧
    programHeader (contents smallSuperblock (programStore off).disk 2) 0 =
      ⟨ELF_PROG_LOAD, BitVec.ofNat 64 off, 0, 1, 1⟩ ∧
    (contents smallSuperblock (programStore off).disk 2)[0]? = some 0x7F ∧
    (contents smallSuperblock (programStore off).disk 2).length = 120 := by
  decide +kernel

/-- `/a` with its segment at the start of the file. -/
theorem exec_loads_segments_one : ∃ state free after,
    Ready sampleLayout smallSuperblock slotZero [] state free ∧
    exec sampleLayout smallSuperblock slotZero [47, 97] [] state = .ok (0, after) ∧
    userByte after.phys.mem after.proc.pagetable 0 = some 0x7F := by
  obtain ⟨phys, free, made, ready⟩ := @program_ready 0 (by decide) [] (by decide) nofun
  have room := program_hasRoom 0 (by decide)
  rw [made] at room
  obtain ⟨-, -, -, found, -⟩ := program_root 0 (by decide)
  obtain ⟨isElf, isHeader, byte, -⟩ := program_contents 0 (by decide)
  generalize programStore 0 = fs at *
  obtain ⟨after, done⟩ := exec_hasRoom ready.image ready.owned ready.few ready.short room (by decide)
  have fits : FitOffsets (contents smallSuperblock fs.disk 2) := by
    refine .inl ⟨by rw [isElf]; decide, fun i segment _ => ?_⟩
    have below := segment.1
    rw [isElf] at below
    obtain rfl : i = 0 := Nat.lt_one_iff.mp below
    rw [isHeader]
    decide
  have loaded := ((exec_loads_segments ready found rfl done (by decide)).mpr fits).bytes
  have alone : DisjointSegments (contents smallSuperblock fs.disk 2) := by
    rintro i j _ ⟨belowI, _⟩ ⟨belowJ, _⟩ _ _
    rw [isElf] at belowI belowJ
    rw [Nat.lt_one_iff.mp belowI, Nat.lt_one_iff.mp belowJ]
  have here := loaded alone 0 ⟨by rw [isElf]; decide, by rw [isHeader]⟩ 0 (by rw [isHeader]; decide)
  rw [isHeader] at here
  exact ⟨_, free, after, ready, done, here.trans byte⟩

/-- A segment from offset `2^32` of a file of 120 bytes. -/
theorem exec_loads_beyond_file : ∃ state free after,
    Ready sampleLayout smallSuperblock slotZero [] state free ∧
    pathInum smallSuperblock state.fs slotZero [47, 97] = some 2 ∧
    exec sampleLayout smallSuperblock slotZero [47, 97] [] state = .ok (0, after) ∧
    0 < (elfOf (contents smallSuperblock state.fs.disk 2)).phnum.toNat ∧
    programHeader (contents smallSuperblock state.fs.disk 2) 0 = ⟨ELF_PROG_LOAD, 0x100000000, 0, 1, 1⟩ ∧
    (contents smallSuperblock state.fs.disk 2).length = 120 := by
  obtain ⟨phys, free, made, ready⟩ := @program_ready (2 ^ 32) (by decide) [] (by decide) nofun
  have room := program_hasRoom (2 ^ 32) (by decide)
  rw [made] at room
  obtain ⟨-, -, -, found, -⟩ := program_root (2 ^ 32) (by decide)
  obtain ⟨isElf, isHeader, -, size⟩ := program_contents (2 ^ 32) (by decide)
  generalize programStore (2 ^ 32) = fs at *
  obtain ⟨after, done⟩ := exec_hasRoom ready.image ready.owned ready.few ready.short room (by decide)
  exact ⟨_, free, after, ready, found, done, by rw [isElf]; decide, isHeader, size⟩

end Xv6.Exec
