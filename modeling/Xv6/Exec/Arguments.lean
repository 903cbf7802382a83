import Xv6.Exec.Commit
import Xv6.Fs.NamexLocks
import Xv6.Kernel.Grow

namespace Xv6.Exec

open Xv6.Data Xv6.Vm Xv6.Kernel
open Xv6.Fs (NINODE Store Superblock T_DIR T_FILE dot dotdot slotZero slotOne nameA smallSuperblock)

attribute [local irreducible] tables upperTables lastTable entry

/-! # The arguments of a program

What `exec` makes of its arguments, whatever the file system has returned before.
-/

section

variable {layout : Layout} {sb : Superblock} {phys : Phys} {root trapframe : Word} {pages free : List Word}
  {state : State}

/-- What is known of a program once it is loaded. -/
def LoadedBy (layout : Layout) (state : State) (free : List Word)
    (result : Option (Word × Word × Word) × State) : Prop :=
  ∀ root sz entry, result.1 = some (root, sz, entry) → result.2.proc = state.proc ∧ ∃ pages free',
    Built layout root state.proc.trapframe result.2.phys pages sz ∧
    Change state.phys [] free result.2.phys (pages ++ tables result.2.phys.mem root) free'

theorem execInode_keeps (ip : Fin NINODE) (owned : Owned layout state.phys [] free) :
    Ensures (fun _ => True) (LoadedBy layout state free) (execInode layout sb ip state) := by
  rw [execInode]
  refine Ensures.bind_of_ok fun ⟨count, data, fs⟩ _ => ?_
  have stopped : ∀ phys fs pagetable sz, Ensures (fun _ => True) (LoadedBy layout state free) (do
      let state ← bad layout sb pagetable sz (some ip) { state with phys, fs }
      .ok (none, state)) := fun phys fs pagetable sz => Ensures.bind_of_ok fun _ _ => nofun
  simp only
  generalize Elfhdr.ofBytes data = elf
  by_cases full : count ≠ elfSize
  · rw [if_pos full]
    exact stopped ..
  rw [if_neg full]
  by_cases magic : elf.magic ≠ ELF_MAGIC
  · rw [if_pos magic]
    exact stopped ..
  rw [if_neg magic]
  obtain ⟨made, free₁, ⟨failed, -⟩ | ⟨root, nonzero, done, space, change⟩⟩ :=
    procPagetable_spec state.proc.trapframe owned
  · rw [failed, liftVm_ok, ok_bind]
    simp only [if_true]
    exact stopped ..
  rw [done, liftVm_ok, ok_bind]
  simp only [if_neg nonzero]
  have unknown : ∀ known ∈ (none : Option (List UInt8)), Reads sb fs ip known := nofun
  refine ((loadSegments_spec unknown elf.phnum.toNat
    (⟨space, rfl⟩ : Built layout root state.proc.trapframe made [] 0) (change.owned owned)).mono_errors
    fun _ _ => trivial).bind fun result kept => ?_
  obtain ⟨loaded, sz, after, fs'⟩ := result
  obtain ⟨pages, free₂, built, changeLoaded, -⟩ := kept
  cases loaded with
  | false => exact stopped ..
  | true =>
    refine Ensures.bind_of_ok fun fs'' _ => ?_
    intro root' sz' entry isSome
    cases isSome
    exact ⟨rfl, pages, free₂, built, change.trans changeLoaded⟩

theorem execLoad_keeps (cwd : Fin NINODE) (path : List UInt8) (owned : Owned layout state.phys [] free) :
    Ensures (fun _ => True) (LoadedBy layout state free) (execLoad layout sb cwd path state) := by
  rw [execLoad]
  refine Ensures.bind_of_ok fun ⟨found, fs⟩ _ => ?_
  cases found with
  | none => exact nofun
  | some entry =>
    refine Ensures.bind_of_ok fun locked _ => ?_
    exact @execInode_keeps layout sb free
      { state with fs := locked, outstanding := state.outstanding + 1 } entry.1 owned

end

/-! ## What the program sees -/

/-- A word of user memory. -/
def userWord (mem : Memory) (root va : Word) : Option Word :=
  if ∀ k < 8, (userByte mem root (va + BitVec.ofNat 64 k)).isSome then
    some (BitVec.ofNat 64 (Bytes.load (fun k => (userByte mem root (va + BitVec.ofNat 64 k)).getD 0) 0 8))
  else
    none

/-- The stack of a program that starts with some arguments; `ustack` holds the addresses of the
strings. -/
structure ArgumentStack (state : State) (argv : List (List UInt8)) (sp : Word) (ustack : List Word) :
    Prop where
  pointer : word (state.phys.mem state.proc.trapframe) 6 = sp
  a1 : word (state.phys.mem state.proc.trapframe) 15 = sp
  aligned : sp.toNat % 16 = 0
  above : state.proc.sz.toNat - PGSIZE ≤ sp.toNat
  count : ustack.length = argv.length
  pointers : ∀ (i : Nat) va, (ustack ++ [0])[i]? = some va →
    userWord state.phys.mem state.proc.pagetable (sp + BitVec.ofNat 64 (8 * i)) = some va
  below : sp.toNat + 8 * (argv.length + 1) ≤ state.proc.sz.toNat
  strings : ∀ (i : Nat) arg va, argv[i]? = some arg → ustack[i]? = some va → ∀ k, k ≤ arg.length →
    userByte state.phys.mem state.proc.pagetable (va + BitVec.ofNat 64 k) = some (arg.getD k 0)
  inside : ∀ (i : Nat) arg va, argv[i]? = some arg → ustack[i]? = some va →
    sp.toNat + 8 * (argv.length + 1) ≤ va.toNat ∧ va.toNat + (arg.length + 1) ≤ state.proc.sz.toNat
  apart : ∀ (i j : Nat) arg va va', i < j → argv[j]? = some arg → ustack[i]? = some va →
    ustack[j]? = some va' → va'.toNat + (arg.length + 1) ≤ va.toNat

section

variable {layout : Layout} {phys : Phys} {mem : Memory} {root base frame trapframe guard stack : Word}
  {pages free : List Word}

theorem StackPage.userByte (page : StackPage mem root base frame) {va : Word}
    (lower : base.toNat ≤ va.toNat) (upper : va.toNat < base.toNat + PGSIZE) :
    userByte mem root va = some (mem frame (va.toNat - base.toNat)) := by
  have aligned := page.aligned
  have same : pageOf va = pageOf base := by
    rw [pageOf, pageOf]
    rw [PGSIZE] at *
    omega
  have offset : va.toNat % PGSIZE = va.toNat - base.toNat := by
    rw [PGSIZE] at *
    omega
  rw [Vm.userByte, location, frameOf_page same, page.found, offset]
  rfl

theorem StackPage.userWord (page : StackPage mem root base frame) {va : Word}
    (lower : base.toNat ≤ va.toNat) (upper : va.toNat + 8 ≤ base.toNat + PGSIZE) :
    userWord mem root va = some (BitVec.ofNat 64 ((mem frame).load (va.toNat - base.toNat) 8)) := by
  have high := page.high
  have bytes : ∀ k, k < 8 → Vm.userByte mem root (va + BitVec.ofNat 64 k) =
      some (mem frame (va.toNat - base.toNat + k)) := by
    intro k small
    have address : (va + BitVec.ofNat 64 k).toNat = va.toNat + k := by
      rw [PGSIZE] at *
      rw [BitVec.toNat_add, BitVec.toNat_ofNat]
      omega
    rw [page.userByte (by omega) (by omega), address]
    congr 2
    omega
  have mapped : ∀ k < 8, (Vm.userByte mem root (va + BitVec.ofNat 64 k)).isSome := fun k small => by
    rw [bytes k small, Option.isSome_some]
  have same : Bytes.load (fun k => (Vm.userByte mem root (va + BitVec.ofNat 64 k)).getD 0) 0 8 =
      (mem frame).load (va.toNat - base.toNat) 8 := by
    refine Bytes.load_shift fun k small => ?_
    rw [Nat.zero_add, bytes k small, Option.getD_some]
  rw [Exec.userWord, if_pos mapped, same]

theorem userByte_program (space : Space layout phys.mem root trapframe (imagePtes pages guard stack))
    (aligned : ∀ page ∈ pages, page.toNat % PGSIZE = 0) {va : Word} (below : pageOf va < pages.length) :
    userByte phys.mem root va = some (content phys.mem pages va.toNat) := by
  have found : (imagePtes pages guard stack)[pageOf va]? = some (userPte pages[pageOf va]) := by
    rw [imagePtes, List.getElem?_append_left (by rwa [List.length_map]), List.getElem?_map,
      List.getElem?_eq_getElem below, Option.map_some]
  rw [userByte, location, frameOf_user space found (aligned _ (List.getElem_mem below)), content]
  change some _ = some (Option.elim pages[pageOf va]? _ _)
  rw [List.getElem?_eq_getElem below]
  rfl

theorem userByte_guard (space : Space layout phys.mem root trapframe (imagePtes pages guard stack))
    {va : Word} (here : pageOf va = pages.length) : userByte phys.mem root va = none := by
  have found : (imagePtes pages guard stack)[pageOf va]? = some (guardPte guard) := by
    rw [here, imagePtes, List.getElem?_append_right (by rw [List.length_map]), List.length_map, Nat.sub_self]
    rfl
  have kernel : isUser (guardPte guard) = false := by
    rw [isUser, decide_eq_false_iff_not]
    rintro ⟨-, user⟩
    rw [guardPte, BitVec.and_assoc, show ~~~PTE_U &&& PTE_U = 0#64 by decide, BitVec.and_zero] at user
    exact user rfl
  rw [userByte, location, frameOf, space.user _ _ found, kernel, if_neg fun both => by cases both.2]
  rfl

theorem stackBytes_bounds (argv : List (List UInt8)) :
    stackBytes argv % 16 = 0 ∧ 8 * (argv.length + 1) ≤ stackBytes argv := by
  unfold stackBytes align16
  omega

theorem Started.arguments {path : List UInt8} {argv : List (List UInt8)} {entry : Word}
    {loaded : Nat → UInt8} {before after : State} {ustack : List Word}
    (started : Started layout path argv entry loaded before after pages guard stack ustack)
    (owned : Owned layout after.phys
      (pages ++ [guard, stack] ++ tables after.phys.mem after.proc.pagetable) free) :
    ArgumentStack after argv (addressOf (pages.length + 1) + BitVec.ofNat 64 (PGSIZE - stackBytes argv))
      ustack := by
  have few := owned.length_le
  rw [List.length_append, List.length_append, List.length_append] at few
  have page := stackPage started.space owned
  have fits := started.fits
  have sameFrame : after.proc.trapframe = before.proc.trapframe := by
    have same := congrArg Proc.trapframe started.proc
    exact same
  have isSize : after.proc.sz = addressOf (pages.length + 2) := congrArg Proc.sz started.proc
  have size : after.proc.sz.toNat = (addressOf (pages.length + 1)).toNat + PGSIZE := by
    rw [isSize, addressOf_toNat (by omega), addressOf_toNat (by omega), Nat.succ_mul (pages.length + 1)]
  obtain ⟨even, enough⟩ := stackBytes_bounds argv
  have aligned := page.aligned
  have isSp := page.address (Nat.sub_le PGSIZE (stackBytes argv))
  generalize isBase : addressOf (pages.length + 1) = base at *
  generalize isPointer : base + BitVec.ofNat 64 (PGSIZE - stackBytes argv) = sp at *
  have frame := started.frame
  rw [isBase, isPointer] at frame
  have args := started.args
  rw [isBase] at args
  refine ⟨?_, ?_, ?_, ?_, args.strings.length, ?_, ?_, ?_, ?_, args.strings.apart⟩
  · rw [sameFrame, frame, startFrame, word_setWord_self]
  · rw [sameFrame, frame, startFrame, word_setWord_of_ne (by decide), word_setWord_of_ne (by decide),
      word_setWord_self]
  · rw [PGSIZE] at *
    omega
  · omega
  · intro i va found
    have inside : i < argv.length + 1 := by
      obtain ⟨bound, _⟩ := List.getElem?_eq_some_iff.mp found
      rwa [List.length_append, args.strings.length] at bound
    have address : (sp + BitVec.ofNat 64 (8 * i)).toNat = sp.toNat + 8 * i := by
      have high := page.high
      rw [PGSIZE] at *
      rw [BitVec.toNat_add, BitVec.toNat_ofNat]
      omega
    have position : sp.toNat + 8 * i - base.toNat = PGSIZE - stackBytes argv + 8 * i := by omega
    rw [page.userWord (by omega) (by omega), address, position, args.array i va found, BitVec.ofNat_toNat,
      BitVec.setWidth_eq]
  · omega
  · intro i arg va isArg isVa k le
    obtain ⟨lower, upper, bytes⟩ := args.strings.placed i arg va isArg isVa
    have address : (va + BitVec.ofNat 64 k).toNat = va.toNat + k := by
      have high := page.high
      rw [PGSIZE] at *
      rw [BitVec.toNat_add, BitVec.toNat_ofNat]
      omega
    have position : va.toNat + k - base.toNat = va.toNat - base.toNat + k := by omega
    rw [page.userByte (by omega) (by omega), address, position, bytes k le]
  · intro i arg va isArg isVa
    obtain ⟨lower, upper, -⟩ := args.strings.placed i arg va isArg isVa
    omega

/-- The memory of a program besides its stack. -/
structure ProgramMemory (state : State) (pages : List Word) (bytes : Nat → UInt8) : Prop where
  size : state.proc.sz = addressOf (pages.length + 2)
  program : ∀ va, pageOf va < pages.length →
    userByte state.phys.mem state.proc.pagetable va = some (bytes va.toNat)
  guard : ∀ va, pageOf va = pages.length → userByte state.phys.mem state.proc.pagetable va = none

variable {sb : Superblock} {state : State} {argv : List (List UInt8)} {sz : Word}

theorem execStack_arguments (sb : Superblock) (entry : Word) (path : List UInt8)
    (built : Built layout root state.proc.trapframe state.phys pages sz)
    (image : Image layout state.phys.mem state.proc)
    (owned : Owned layout state.phys (state.proc.trapframe :: userPages state.phys.mem state.proc ++
      (pages ++ tables state.phys.mem root)) free)
    (few : argv.length < MAXARG) (short : ∀ arg ∈ argv, arg.length < PGSIZE) :
    ∃ result after, execStack layout sb root sz entry path argv state = .ok (result, after) ∧
      (result = -1 ↔ (∃ grown, uvmalloc layout root (PGROUNDUP sz) (PGROUNDUP sz + 2 * pageBytes)
          state.phys = .ok (0, grown)) ∨ PGSIZE < stackBytes argv) ∧
      (result ≠ -1 → result = argv.length ∧ (∃ sp ustack, ArgumentStack after argv sp ustack) ∧
        ProgramMemory after pages (content state.phys.mem pages)) := by
  obtain ⟨result, after, free', done, failing, outcome⟩ :=
    execStack_spec sb entry path built image owned few short
  refine ⟨result, after, done, failing, fun success => ?_⟩
  rcases outcome with ⟨failed, -, -⟩ | ⟨isCount, -, -, ⟨guard, stack, ustack, started⟩, change⟩
  · exact absurd failed success
  have isSize : after.proc.sz = addressOf (pages.length + 2) := congrArg Proc.sz started.proc
  have ownedAfter := (change.owned owned).tail
  rw [started.frames] at ownedAfter
  refine ⟨isCount, ⟨_, ustack, started.arguments ownedAfter⟩, isSize, fun va below => ?_, fun va here => ?_⟩
  · rw [userByte_program started.space _ below, started.content]
    exact fun page member => aligned_pages ownedAfter page (List.mem_append_left _ member)
  · exact userByte_guard started.space here

theorem LoadedBy.memory {root sz entry : Word} {middle : State}
    (loaded : LoadedBy layout state free (some (root, sz, entry), middle))
    (image : Image layout state.phys.mem state.proc)
    (owned : Owned layout state.phys (state.proc.trapframe :: userPages state.phys.mem state.proc) free) :
    ∃ pages free', Built layout root middle.proc.trapframe middle.phys pages sz ∧
      Image layout middle.phys.mem middle.proc ∧
      Owned layout middle.phys (middle.proc.trapframe :: userPages middle.phys.mem middle.proc ++
        (pages ++ tables middle.phys.mem root)) free' := by
  obtain ⟨proc, pages, free', built, change⟩ := loaded root sz entry rfl
  obtain ⟨imageNow, samePages, -, framed⟩ := beside image owned change
  dsimp only at proc built imageNow samePages framed
  rw [proc, samePages]
  exact ⟨pages, free', built, imageNow, framed.owned owned⟩

/-- `exec` with some arguments against `exec` without: it fails if that fails, or if the strings and
the pointers take more than the stack page.  Else they are on the stack, and the rest of the memory
is the same. -/
theorem exec_arguments (image : Image layout state.phys.mem state.proc)
    (owned : Owned layout state.phys (state.proc.trapframe :: userPages state.phys.mem state.proc) free)
    (cwd : Fin NINODE) (path : List UInt8) (few : argv.length < MAXARG)
    (short : ∀ arg ∈ argv, arg.length < PGSIZE) :
    match exec layout sb cwd path [] state with
    | .error reason => exec layout sb cwd path argv state = .error reason
    | .ok (result, plain) =>
      if result = -1 ∨ PGSIZE < stackBytes argv then
        ∃ after, exec layout sb cwd path argv state = .ok (-1, after)
      else
        ∃ after sp ustack, exec layout sb cwd path argv state = .ok (argv.length, after) ∧
          ArgumentStack after argv sp ustack ∧ after.proc.sz = plain.proc.sz ∧
          (∀ va, va.toNat < after.proc.sz.toNat - PGSIZE →
            userByte after.phys.mem after.proc.pagetable va =
              userByte plain.phys.mem plain.proc.pagetable va) ∧
          ∀ va, va.toNat < after.proc.sz.toNat - PGSIZE → after.proc.sz.toNat - 2 * PGSIZE ≤ va.toNat →
            userByte after.phys.mem after.proc.pagetable va = none := by
  have kept := @execLoad_keeps layout sb free state cwd path (owned_none owned)
  rw [exec, exec]
  cases loaded : execLoad layout sb cwd path state with
  | error reason => rfl
  | ok value =>
    obtain ⟨program, middle⟩ := value
    rw [loaded, ensures_ok] at kept
    cases program with
    | none =>
      simp only [ok_bind, true_or, if_true]
      exact ⟨middle, rfl⟩
    | some program =>
      obtain ⟨root, sz, entry⟩ := program
      obtain ⟨pages, free', built, imageNow, ownedNow⟩ := kept.memory image owned
      obtain ⟨result, after, done, failing, success⟩ :=
        execStack_arguments sb entry path built imageNow ownedNow few short
      obtain ⟨plainResult, plain, plainDone, plainFailing, plainSuccess⟩ :=
        @execStack_arguments _ _ _ _ _ [] _ sb entry path built imageNow ownedNow (by decide) nofun
      simp only [ok_bind, done, plainDone]
      by_cases fails : plainResult = -1 ∨ PGSIZE < stackBytes argv
      · rw [if_pos fails, failing.mpr (fails.imp_left fun failed =>
          (plainFailing.mp failed).resolve_right (by decide))]
        exact ⟨after, rfl⟩
      rw [if_neg fails]
      obtain ⟨rfl, ⟨sp, ustack, stack⟩, memory⟩ := success fun failed =>
        fails ((failing.mp failed).imp_left fun full => plainFailing.mpr (.inl full))
      obtain ⟨-, -, plainMemory⟩ := plainSuccess fun failed => fails (.inl failed)
      have few := ownedNow.length_le
      rw [List.length_append, List.length_append, List.length_append] at few
      have size : after.proc.sz.toNat = (pages.length + 2) * PGSIZE := by
        rw [memory.size, addressOf_toNat (by omega)]
      have place : ∀ va : Word, va.toNat < after.proc.sz.toNat - PGSIZE →
          pageOf va < pages.length ∨ pageOf va = pages.length := by
        intro va below
        rw [pageOf, PGSIZE]
        rw [size, PGSIZE] at below
        omega
      refine ⟨after, sp, ustack, rfl, stack, memory.size.trans plainMemory.size.symm, fun va below => ?_,
        fun va below lower => memory.guard va ?_⟩
      · rcases place va below with inside | here
        · rw [memory.program va inside, plainMemory.program va inside]
        · rw [memory.guard va here, plainMemory.guard va here]
      · refine (place va below).resolve_left fun inside => ?_
        rw [pageOf, PGSIZE] at inside
        rw [size, PGSIZE] at lower
        omega

/-- The program can be loaded, and two pages are left for the stack. -/
def hasRoom (layout : Layout) (sb : Superblock) (cwd : Fin NINODE) (path : List UInt8) (state : State) : Bool :=
  match execLoad layout sb cwd path state with
  | .ok (some (pagetable, sz, _), after) =>
    match uvmalloc layout pagetable (PGROUNDUP sz) (PGROUNDUP sz + 2 * pageBytes) after.phys with
    | .ok (sz1, _) => decide (sz1 ≠ 0)
    | .error _ => false
  | _ => false

theorem exec_hasRoom (image : Image layout state.phys.mem state.proc)
    (owned : Owned layout state.phys (state.proc.trapframe :: userPages state.phys.mem state.proc) free)
    {cwd : Fin NINODE} {path : List UInt8} (few : argv.length < MAXARG)
    (short : ∀ arg ∈ argv, arg.length < PGSIZE) (room : hasRoom layout sb cwd path state = true)
    (fits : stackBytes argv ≤ PGSIZE) :
    ∃ after, exec layout sb cwd path argv state = .ok (argv.length, after) := by
  have kept := @execLoad_keeps layout sb free state cwd path (owned_none owned)
  rw [hasRoom] at room
  split at room
  · rename_i root sz entry middle loaded
    rw [loaded, ensures_ok] at kept
    obtain ⟨pages, free', built, imageNow, ownedNow⟩ := kept.memory image owned
    obtain ⟨result, after, done, failing, success⟩ :=
      execStack_arguments sb entry path built imageNow ownedNow few short
    have isCount := (success fun failed => ?_).1
    · rw [exec, loaded, ok_bind]
      exact ⟨after, isCount ▸ done⟩
    · rcases failing.mp failed with ⟨grown, full⟩ | exceeds
      · rw [full] at room
        cases room
      · exact absurd fits (Nat.not_le.mpr exceeds)
  · cases room

end

/-! A process without user pages on a machine with sixteen free ones, and a disk with one program,
whose only segment is one byte long. -/

/-- An ELF header and a program header with `off`. -/
def programFile (off : Nat) : Bytes :=
  let elf := ((Bytes.store (fun _ => 0) 0 4 0x464C457F).store 32 8 64).store 56 2 1
  (((elf.store 64 4 1).store 72 8 off).store 96 8 1).store 104 8 1

/-- The program is `/a`, inode 2. -/
def programEvents (off : Nat) : List Fs.Event :=
  [.ialloc T_DIR, .ilock slotZero, .setLinks slotZero 0 0 1, .dirlink slotZero dot 1,
    .dirlink slotZero dotdot 1, .ialloc T_FILE, .ilock slotOne, .setLinks slotOne 0 0 1,
    .writei slotOne (fun index => some (programFile off index)) 0 120, .dirlink slotZero nameA 2,
    .iput slotOne]

/-- The root is the current directory. -/
def programStore (off : Nat) : Store := Fs.storeAfter smallSuperblock Fs.smallState (programEvents off)

def programRam : List Word :=
  (List.range 16).map fun k => BitVec.ofNat 64 (0x80021000 + 0x1000 * k)

def programMachine : Except Vm.Panic (Word × Phys) := do
  let phys ← freerange sampleLayout programRam ⟨fun _ _ => 0, 0⟩
  procPagetable sampleLayout sampleTrapframe phys

theorem programMachine_root : programMachine.map Prod.fst = .ok 0x80030000 := by decide +kernel

theorem program_image : ∃ phys free, programMachine = .ok (0x80030000, phys) ∧
    Image sampleLayout phys.mem (sampleProc 0x80030000 0) ∧
    Owned sampleLayout phys (sampleTrapframe :: userPages phys.mem (sampleProc 0x80030000 0)) free := by
  have ram : ∀ k, k < 16 → IsFrame sampleLayout (BitVec.ofNat 64 (0x80021000 + 0x1000 * k)) := by decide
  have real : ∀ page ∈ [sampleTrapframe] ++ programRam ++ [], IsFrame sampleLayout page := by
    intro page member
    rw [List.append_nil] at member
    rcases List.mem_cons.mp member with rfl | listed
    · decide
    · obtain ⟨k, below, rfl⟩ := List.mem_map.mp listed
      exact ram k (List.mem_range.mp below)
  have owned : Owned sampleLayout ⟨fun _ _ => 0, 0⟩ ([sampleTrapframe] ++ programRam) [] :=
    ⟨rfl, by decide, real⟩
  obtain ⟨booted, freed, boot⟩ := freerange_spec owned.unframe
  have ownedBoot := (boot.frame [sampleTrapframe]).owned owned
  have isRoot := programMachine_root
  have made : programMachine = procPagetable sampleLayout sampleTrapframe booted := by
    rw [programMachine, freed, ok_bind]
  rw [made] at isRoot
  obtain ⟨phys, free, ⟨failed, _⟩ | ⟨root, nonzero, done, space, change⟩⟩ :=
    procPagetable_spec sampleTrapframe ownedBoot.unframe
  · rw [failed] at isRoot
    injection isRoot with wrong
    exact absurd (show (0 : Word) = 0x80030000 from wrong) (by decide)
  · rw [done] at isRoot
    injection isRoot with same
    obtain rfl : root = 0x80030000 := same
    have spaceNow : Space sampleLayout phys.mem (sampleProc 0x80030000 0).pagetable sampleTrapframe [] := space
    refine ⟨phys, free, made.trans done, .of_space spaceNow rfl, ?_⟩
    rw [userPages, userPtes_eq spaceNow rfl]
    exact (change.frame [sampleTrapframe]).owned ownedBoot

theorem program_hasRoom : ∀ off ∈ [0, 2 ^ 32], (match programMachine with
    | .ok (root, phys) => hasRoom sampleLayout smallSuperblock slotZero [47, 97]
        ⟨phys, programStore off, 0, sampleProc root 0⟩
    | .error _ => false) = true := by
  decide +kernel

/-- `/a` with the argument `a`. -/
theorem exec_arguments_one : ∃ state free, Image sampleLayout state.phys.mem state.proc ∧
    Owned sampleLayout state.phys (state.proc.trapframe :: userPages state.phys.mem state.proc) free ∧
    ∃ after sp ustack, exec sampleLayout smallSuperblock slotZero [47, 97] [[97]] state = .ok (1, after) ∧
      ArgumentStack after [[97]] sp ustack := by
  obtain ⟨phys, free, made, image, owned⟩ := program_image
  have room := program_hasRoom 0 (by decide)
  rw [made] at room
  generalize programStore 0 = fs at room
  obtain ⟨plain, done⟩ := @exec_hasRoom _ _ _ ⟨phys, fs, 0, sampleProc 0x80030000 0⟩ [] image owned _ _
    (by decide) nofun room (by decide)
  have outcome := @exec_arguments _ _ smallSuperblock ⟨phys, fs, 0, sampleProc 0x80030000 0⟩ [[97]]
    image owned slotZero [47, 97] (by decide) (by decide)
  rw [done] at outcome
  simp only at outcome
  rw [if_neg (by decide)] at outcome
  obtain ⟨after, sp, ustack, executed, stack, -⟩ := outcome
  exact ⟨_, free, image, owned, after, sp, ustack, executed, stack⟩

end Xv6.Exec
