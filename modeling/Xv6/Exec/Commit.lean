import Xv6.Exec.Stack
import Xv6.Kernel.Image

namespace Xv6.Exec

open Xv6.Data Xv6.Vm Xv6.Kernel
open Xv6.Fs (NINODE Store Superblock)

attribute [local irreducible] tables upperTables lastTable entry

/-! # The new image of a process -/

/-! ## The guard page -/

/-- The entry of the page that `uvmclear` takes from the user. -/
def guardPte (page : Word) : Word := userPte page &&& ~~~PTE_U

theorem PTE2PA_clear (pte : Word) : PTE2PA (pte &&& ~~~PTE_U) = PTE2PA pte := by
  rw [PTE2PA, PTE2PA]
  congr 1
  rw [BitVec.ushiftRight_and_distrib, show (~~~PTE_U) >>> 10 = BitVec.allOnes 64 >>> 10 by decide,
    ← BitVec.ushiftRight_and_distrib, BitVec.and_allOnes]

theorem PTE_FLAGS_clear (pte : Word) : PTE_FLAGS (pte &&& ~~~PTE_U) = PTE_FLAGS pte &&& ~~~PTE_U := by
  rw [PTE_FLAGS, PTE_FLAGS, BitVec.and_assoc, BitVec.and_assoc, BitVec.and_comm (~~~PTE_U)]

theorem guardPte_leaf {page : Word} (aligned : page.toNat % PGSIZE = 0) : LeafOf (guardPte page) page := by
  have flags : PTE_FLAGS (guardPte page) = 15 := by
    rw [guardPte, PTE_FLAGS_clear, userPte_flags]
    decide
  refine ⟨⟨?_, ?_⟩, ?_⟩
  · rw [← valid_flags, flags]
    decide
  · rw [flags]
    decide
  · rw [guardPte, PTE2PA_clear, (userLeaf aligned).maps]

/-- The entries of a program: its own pages, the guard page and the stack. -/
def imagePtes (pages : List Word) (guard stack : Word) : List Word :=
  pages.map userPte ++ [guardPte guard, userPte stack]

section

variable {layout : Layout} {phys after : Phys} {root trapframe guard stack : Word}
  {pages others free : List Word} {sz : Word}

theorem framesOf_imagePtes (owned : Owned layout phys (pages ++ [guard, stack] ++ others) free) :
    framesOf (imagePtes pages guard stack) = pages ++ [guard, stack] := by
  have aligned := aligned_pages owned
  have own : framesOf (pages.map userPte) = pages :=
    framesOf_userPte fun page member => aligned page (List.mem_append_left _ member)
  rw [imagePtes, framesOf_append, own]
  simp only [framesOf, List.map_cons, List.map_nil, (guardPte_leaf (aligned guard (by simp))).maps,
    (userLeaf (aligned stack (by simp))).maps]

theorem imagePtes_length : (imagePtes pages guard stack).length = pages.length + 2 := by
  rw [imagePtes, List.length_append, List.length_map]
  rfl

/-! ## Allocation of the stack -/

theorem Built.rounded (built : Built layout root trapframe phys pages sz)
    (owned : Owned layout phys (pages ++ others) free) :
    PGROUNDUP sz = addressOf pages.length ∧ Built layout root trapframe phys pages (addressOf pages.length) := by
  have small := built.size_small owned
  have few := owned.length_le
  rw [List.length_append, List.length_append] at few
  refine ⟨by rw [PGROUNDUP_addressOf (by omega), built.size], built.space, ?_⟩
  rw [pagesFor_addressOf (by omega)]

theorem Built.freed (built : Built layout root trapframe phys pages sz)
    (owned : Owned layout phys (pages ++ tables phys.mem root) free) :
    ∃ after free', procFreepagetable layout root sz phys = .ok after ∧
      Change phys (pages ++ tables phys.mem root) free after [] free' := by
  have small := built.size_small owned
  have frames := framesOf_pages owned
  have freed := procFreepagetable_spec built.space (by rw [frames]; exact owned)
    (by rw [List.length_map, built.size]) (by omega)
  rwa [frames] at freed

theorem image_freed (space : Space layout phys.mem root trapframe (imagePtes pages guard stack))
    (owned : Owned layout phys (pages ++ [guard, stack] ++ tables phys.mem root) free) :
    ∃ after free', procFreepagetable layout root (addressOf (pages.length + 2)) phys = .ok after ∧
      Change phys (pages ++ [guard, stack] ++ tables phys.mem root) free after [] free' := by
  have few := owned.length_le
  rw [List.length_append, List.length_append, List.length_append] at few
  have frames := framesOf_imagePtes owned
  have freed := procFreepagetable_spec space (by rw [frames]; exact owned)
    (show _ = pagesFor (addressOf (pages.length + 2)).toNat by
      rw [imagePtes_length, pagesFor_addressOf (by omega)])
    (by rw [addressOf_toNat (by omega), PGSIZE]; omega)
  rwa [frames] at freed

theorem addressOf_two (page : Nat) : addressOf page + 2 * pageBytes = addressOf (page + 2) := by
  rw [← addressOf_add, ← addressOf_add, BitVec.add_assoc]
  congr 1

/-- Up to `uvmclear`: no memory, or a guard page and a stack page. -/
theorem allocStack_spec (built : Built layout root trapframe phys pages sz)
    (owned : Owned layout phys (pages ++ tables phys.mem root) free) :
    ∃ sz1 grown free', uvmalloc layout root (PGROUNDUP sz) (PGROUNDUP sz + 2 * pageBytes) phys =
        .ok (sz1, grown) ∧
      (sz1 = 0 ∧ (∃ new, Built layout root trapframe grown (pages ++ new) (PGROUNDUP sz) ∧
          Change phys (pages ++ tables phys.mem root) free grown
            (pages ++ new ++ tables grown.mem root) free') ∨
        sz1 = addressOf (pages.length + 2) ∧ sz1 ≠ 0 ∧ ∃ guard stack cleared,
          uvmclear root (sz1 - 2 * pageBytes) grown = .ok cleared ∧
          Space layout cleared.mem root trapframe (imagePtes pages guard stack) ∧
          Change phys (pages ++ tables phys.mem root) free cleared
            (pages ++ [guard, stack] ++ tables cleared.mem root) free' ∧
          content cleared.mem pages = content phys.mem pages) := by
  have few := owned.length_le
  rw [List.length_append, List.length_append] at few
  obtain ⟨rounded, builtUp⟩ := built.rounded owned
  rw [rounded, addressOf_two]
  obtain ⟨sz1, grown, free', new, allocated, change, outcome⟩ :=
    builtUp.uvmalloc owned (addressOf (pages.length + 2))
  refine ⟨sz1, grown, free', allocated, ?_⟩
  rcases outcome with ⟨zero, builtNow⟩ | ⟨nonzero, -, -, exact, builtNow, same⟩
  · exact .inl ⟨zero, new, builtNow, change⟩
  obtain rfl := exact (by
    rw [addressOf_toNat (by omega), addressOf_toNat (by omega), PGSIZE]
    omega)
  have two : new.length = 2 := by
    have size := builtNow.size
    rw [List.length_append, pagesFor_addressOf (by omega)] at size
    omega
  obtain ⟨guard, stack, rfl⟩ := List.length_eq_two.mp two
  have ownedNow := change.owned owned
  have aligned := aligned_pages ownedNow
  have entries : (pages ++ [guard, stack]).map userPte =
      pages.map userPte ++ [userPte guard, userPte stack] := by
    rw [List.map_append]
    rfl
  have spaceNow := builtNow.space
  rw [entries] at spaceNow
  have found : (pages.map userPte ++ [userPte guard, userPte stack])[pages.length]? =
      some (userPte guard) := by
    rw [List.getElem?_append_right (by rw [List.length_map]), List.length_map, Nat.sub_self]
    rfl
  obtain ⟨cleared, clears, spaceCleared, tablesCleared, freelist, elsewhere⟩ := uvmclear_spec spaceNow found
    (guardPte_leaf (aligned guard (by simp))).removable
  have set : (pages.map userPte ++ [userPte guard, userPte stack]).set pages.length
      (userPte guard &&& ~~~PTE_U) = imagePtes pages guard stack := by
    rw [List.set_append_right _ _ (by rw [List.length_map]), List.length_map, Nat.sub_self]
    rfl
  rw [set] at spaceCleared
  refine .inr ⟨rfl, nonzero, guard, stack, cleared, ?_, spaceCleared, ?_, ?_⟩
  · rw [← addressOf_two, BitVec.add_sub_cancel]
    exact clears
  · refine change.trans ⟨ownedNow.list.congr freelist fun page member => elsewhere page fun table => ?_,
      by rw [tablesCleared], fun page outside => elsewhere page fun table => outside ?_⟩
    · exact ownedNow.apart (List.mem_append_right _ table) member
    · exact List.mem_append_left _ (List.mem_append_right _ table)
  · refine (content_congr fun page member => elsewhere page fun table => ?_).trans (content_front same)
    have distinct := (List.nodup_append.mp ownedNow.distinct).1
    exact (List.nodup_append.mp distinct).2.2 page (List.mem_append_left _ member) page table rfl

/-! ## Commit -/

theorem userPages_small {mem : Memory} {proc : Proc} (owned : Owned layout phys (userPages mem proc) free) :
    proc.sz.toNat ≤ 2 ^ 27 := by
  have few := owned.length_le
  rw [userPages, framesOf, List.length_append, List.length_append, List.length_map, userPtes_length,
    pagesFor, PGSIZE] at few
  omega

/-- The trapframe of a process that starts a program. -/
def startFrame (bytes : Bytes) (entry sp : Word) : Bytes :=
  setWord (setWord (setWord bytes 15 sp) 3 entry) 6 sp

theorem commit_spec {state : State} {new : List Word} (pagetable sz sp entry : Word)
    (path : List UInt8) (argc : Nat) (image : Image layout state.phys.mem state.proc)
    (owned : Owned layout state.phys (state.proc.trapframe :: new ++ userPages state.phys.mem
      state.proc) free) :
    ∃ after free', commit layout pagetable sz sp entry path argc state =
        .ok (argc, { state with phys := after, proc := { state.proc with
          name := safestrcpy state.proc.name (lastElement path path) 16, pagetable, sz } }) ∧
      Change state.phys (state.proc.trapframe :: new ++ userPages state.phys.mem state.proc) free after
        (state.proc.trapframe :: new) free' ∧
      after.mem state.proc.trapframe = startFrame (state.phys.mem state.proc.trapframe) entry sp ∧
      ∀ page ∈ new, after.mem page = state.phys.mem page := by
  have used : state.proc.trapframe ∈
      state.proc.trapframe :: new ++ userPages state.phys.mem state.proc := by simp
  have distinct := (List.nodup_append.mp owned.distinct).1
  rw [List.cons_append] at distinct
  have apart := (List.nodup_cons.mp distinct).1
  have put := owned.put used (startFrame (state.phys.mem state.proc.trapframe) entry sp)
  -- The old page table does not see the new trapframe.
  have same : ∀ table ∈ tables state.phys.mem state.proc.pagetable,
      (state.phys.put state.proc.trapframe
        (startFrame (state.phys.mem state.proc.trapframe) entry sp)).mem table = state.phys.mem table := by
    intro table member
    refine put_of_ne (ne_of_mem_of_not_mem ?_ apart) _ _
    exact List.mem_append_right _ (List.mem_append_right _ member)
  have tablesPut := tables_congr fun table member => same table (upperTables_subset member)
  have ownedPut := (put.owned owned).unframe
  have small := userPages_small owned.unframe
  obtain ⟨after, free', freed, change⟩ := procFreepagetable_spec (image.congr same)
    (by rw [tablesPut]; exact ownedPut) userPtes_length (by omega)
  rw [tablesPut] at change
  have framed := change.frame (state.proc.trapframe :: new)
  rw [List.append_nil] at framed
  have outside : ∀ page ∈ state.proc.trapframe :: new,
      page ∉ userPages state.phys.mem state.proc ++ free := by
    intro page member other
    have all := owned.distinct
    rw [List.append_assoc] at all
    exact (List.nodup_append.mp all).2.2 page member page other rfl
  refine ⟨after, free', ?_, put.trans framed, ?_, fun page member => ?_⟩
  · rw [commit]
    change (do
      let phys ← liftVm (procFreepagetable layout state.proc.pagetable state.proc.sz
        (state.phys.put state.proc.trapframe (startFrame (state.phys.mem state.proc.trapframe) entry sp)))
      _) = _
    rw [freed, liftVm_ok, ok_bind]
  · rw [change.elsewhere _ (outside _ List.mem_cons_self), put_self]
  · rw [change.elsewhere _ (outside _ (List.mem_cons_of_mem _ member))]
    exact put_of_ne (ne_of_mem_of_not_mem (List.mem_append_left _ member) apart) _ _

/-- Another program has taken the place of the one of `before`. -/
structure Started (layout : Layout) (path : List UInt8) (argv : List (List UInt8)) (entry : Word)
    (loaded : Nat → UInt8) (before after : State) (pages : List Word) (guard stack : Word)
    (ustack : List Word) : Prop where
  space : Space layout after.phys.mem after.proc.pagetable before.proc.trapframe (imagePtes pages guard stack)
  proc : after.proc = { before.proc with
    name := safestrcpy before.proc.name (lastElement path path) 16
    pagetable := after.proc.pagetable
    sz := addressOf (pages.length + 2) }
  frames : userPages after.phys.mem after.proc =
    pages ++ [guard, stack] ++ tables after.phys.mem after.proc.pagetable
  content : content after.phys.mem pages = loaded
  fits : stackBytes argv ≤ PGSIZE
  args : ArgsPushed (addressOf (pages.length + 1)) argv ustack (after.phys.mem stack)
    (PGSIZE - stackBytes argv)
  frame : after.phys.mem before.proc.trapframe = startFrame (before.phys.mem before.proc.trapframe) entry
    (addressOf (pages.length + 1) + BitVec.ofNat 64 (PGSIZE - stackBytes argv))

variable {state : State} {argv : List (List UInt8)}

theorem bad_freed (sb : Superblock) (state : State) {pagetable : Word} (present : pagetable ≠ 0)
    (freed : procFreepagetable layout pagetable sz phys = .ok after) :
    bad layout sb pagetable sz none { state with phys } = .ok { state with phys := after } := by
  rw [bad, if_pos present, freed]
  rfl

theorem stackPage (space : Space layout phys.mem root trapframe (imagePtes pages guard stack))
    (owned : Owned layout phys (pages ++ [guard, stack] ++ tables phys.mem root) free) :
    StackPage phys.mem root (addressOf (pages.length + 1)) stack := by
  have few := owned.length_le
  rw [List.length_append, List.length_append, List.length_append] at few
  have address := addressOf_toNat (show pages.length + 1 < 2 ^ 52 by omega)
  have table := space.userTable (by rw [framesOf_imagePtes owned]; exact owned)
  refine ⟨table, frameOf_user space ?_ (aligned_pages owned stack (by simp)), ?_, ?_, ?_⟩
  · rw [pageOf_addressOf (by omega), imagePtes, List.getElem?_append_right (by rw [List.length_map]; omega),
      List.length_map, Nat.add_sub_cancel_left]
    rfl
  · rw [address, Nat.mul_mod_left]
  · rw [address, PGSIZE]
    omega
  · rw [address, PGSIZE]
    omega

theorem stack_put (space : Space layout phys.mem root trapframe (imagePtes pages guard stack))
    (owned : Owned layout phys (pages ++ [guard, stack] ++ tables phys.mem root) free) (bytes : Bytes) :
    Space layout (phys.put stack bytes).mem root trapframe (imagePtes pages guard stack) ∧
      Change phys (pages ++ [guard, stack] ++ tables phys.mem root) free (phys.put stack bytes)
        (pages ++ [guard, stack] ++ tables (phys.put stack bytes).mem root) free ∧
      content (phys.put stack bytes).mem pages = content phys.mem pages := by
  have page := stackPage space owned
  have same : ∀ table ∈ tables phys.mem root, (phys.put stack bytes).mem table = phys.mem table :=
    fun table member =>
      put_of_ne (ne_of_mem_of_not_mem member (page.table.apart _ _ page.found)) _ _
  have distinct := (List.nodup_append.mp (List.nodup_append.mp owned.distinct).1).1
  refine ⟨space.congr same, ?_, content_congr fun other member => put_of_ne ?_ _ _⟩
  · rw [tables_congr fun table member => same table (upperTables_subset member)]
    exact owned.put (by simp) bytes
  · exact (List.nodup_append.mp distinct).2.2 other member stack (by simp)

theorem userPages_image {proc : Proc}
    (space : Space layout phys.mem proc.pagetable trapframe (imagePtes pages guard stack))
    (owned : Owned layout phys (pages ++ [guard, stack] ++ others) free)
    (size : proc.sz = addressOf (pages.length + 2)) :
    userPages phys.mem proc = pages ++ [guard, stack] ++ tables phys.mem proc.pagetable := by
  have few := owned.length_le
  rw [List.length_append, List.length_append, List.length_append] at few
  rw [userPages, userPtes_eq space, framesOf_imagePtes owned]
  rw [imagePtes_length, size, pagesFor_addressOf (by omega)]

/-- The new program starts with its pages as they are. -/
theorem commit_started {phys : Phys} {free₁ : List Word} (sp entry : Word) (path : List UInt8) (argc : Nat)
    (image : Image layout state.phys.mem state.proc)
    (owned : Owned layout state.phys (state.proc.trapframe :: userPages state.phys.mem state.proc ++
      (pages ++ tables state.phys.mem root)) free)
    (space : Space layout phys.mem root state.proc.trapframe (imagePtes pages guard stack))
    (change : Change state.phys (pages ++ tables state.phys.mem root) free phys
      (pages ++ [guard, stack] ++ tables phys.mem root) free₁) :
    ∃ after free', commit layout root (addressOf (pages.length + 2)) sp entry path argc
        { state with phys } = .ok (argc, { state with phys := after, proc := { state.proc with
          name := safestrcpy state.proc.name (lastElement path path) 16
          pagetable := root
          sz := addressOf (pages.length + 2) } }) ∧
      Space layout after.mem root state.proc.trapframe (imagePtes pages guard stack) ∧
      (∀ page ∈ pages ++ [guard, stack], after.mem page = phys.mem page) ∧
      after.mem state.proc.trapframe = startFrame (state.phys.mem state.proc.trapframe) entry sp ∧
      Change state.phys (state.proc.trapframe :: userPages state.phys.mem state.proc ++
        (pages ++ tables state.phys.mem root)) free after
        (state.proc.trapframe :: (pages ++ [guard, stack] ++ tables after.mem root)) free' := by
  have framed := change.frame (state.proc.trapframe :: userPages state.phys.mem state.proc)
  have ownedNow := framed.owned owned
  obtain ⟨imageNow, -, samePages, -⟩ := image.undisturbed owned.tail change
  have order : (state.proc.trapframe :: userPages state.phys.mem state.proc ++
      (pages ++ [guard, stack] ++ tables phys.mem root)).Perm
      (state.proc.trapframe :: (pages ++ [guard, stack] ++ tables phys.mem root) ++
        userPages phys.mem state.proc) := by
    rw [samePages]
    exact List.perm_append_comm.cons _
  obtain ⟨after, free', committed, changeLast, frame, kept⟩ :=
    @commit_spec layout _ { state with phys } _ root (addressOf (pages.length + 2)) sp entry path argc
      imageNow (ownedNow.perm order)
  have keptTables : ∀ table ∈ tables phys.mem root, after.mem table = phys.mem table :=
    fun table member => kept table (List.mem_append_right _ member)
  have tablesNow := tables_congr fun table member => keptTables table (upperTables_subset member)
  have oldFrame : phys.mem state.proc.trapframe = state.phys.mem state.proc.trapframe := by
    refine change.elsewhere _ fun other => ?_
    have distinct := owned.distinct
    rw [List.append_assoc] at distinct
    exact (List.nodup_append.mp distinct).2.2 _ List.mem_cons_self _ other rfl
  refine ⟨after, free', committed, space.congr keptTables, fun page member => ?_, ?_, ?_⟩
  · exact kept page (List.mem_append_left _ member)
  · rw [frame, oldFrame]
  · rw [tablesNow]
    exact (framed.perm (.refl _) order).trans changeLast

theorem execStack_spec (sb : Superblock) (entry : Word) (path : List UInt8)
    (built : Built layout root state.proc.trapframe state.phys pages sz)
    (image : Image layout state.phys.mem state.proc)
    (owned : Owned layout state.phys (state.proc.trapframe :: userPages state.phys.mem state.proc ++
      (pages ++ tables state.phys.mem root)) free)
    (few : argv.length < MAXARG) (short : ∀ arg ∈ argv, arg.length < PGSIZE) :
    ∃ result after free', execStack layout sb root sz entry path argv state = .ok (result, after) ∧
      (result = -1 ↔ (∃ grown, uvmalloc layout root (PGROUNDUP sz) (PGROUNDUP sz + 2 * pageBytes)
          state.phys = .ok (0, grown)) ∨ PGSIZE < stackBytes argv) ∧
      (result = -1 ∧ after = { state with phys := after.phys } ∧
          Change state.phys (pages ++ tables state.phys.mem root) free after.phys [] free' ∨
        result = argv.length ∧ after.fs = state.fs ∧ after.outstanding = state.outstanding ∧
          (∃ guard stack ustack, Started layout path argv entry (content state.phys.mem pages) state after
            pages guard stack ustack) ∧
          Change state.phys (state.proc.trapframe :: userPages state.phys.mem state.proc ++
            (pages ++ tables state.phys.mem root)) free after.phys
            (state.proc.trapframe :: userPages after.phys.mem after.proc) free') := by
  have ownedNew := owned.unframe
  obtain ⟨sz1, grown, free₁, allocated, outcome⟩ := allocStack_spec built ownedNew
  have present : root ≠ 0 :=
    (ownedNew.frames root (List.mem_append_left _ (List.mem_append_right _ mem_tables_root))).ne_zero
  rw [execStack]
  simp only [allocated, liftVm_ok, ok_bind]
  rcases outcome with ⟨rfl, new, builtNow, change⟩ |
    ⟨rfl, nonzero, guard, stack, cleared, clears, space, change, same⟩
  · obtain ⟨last, free₂, freed, back⟩ := builtNow.freed (change.owned ownedNew)
    refine ⟨-1, { state with phys := last }, free₂, ?_, ⟨fun _ => .inl ⟨grown, rfl⟩, fun _ => rfl⟩,
      .inl ⟨rfl, rfl, change.trans back⟩⟩
    rw [if_pos rfl, bad_freed sb state present freed]
    rfl
  rw [if_neg nonzero, clears, liftVm_ok, ok_bind]
  have ownedStack := change.owned ownedNew
  have page := stackPage space ownedStack
  obtain ⟨fits, sp, bytes, pushed, fitting, args⟩ := pushArgs_spec page few short
  have base : addressOf (pages.length + 2) - pageBytes = addressOf (pages.length + 1) := by
    rw [← addressOf_add, BitVec.add_sub_cancel]
  have top : addressOf (pages.length + 1) + BitVec.ofNat 64 PGSIZE = addressOf (pages.length + 2) :=
    addressOf_add _
  rw [top] at pushed
  rw [base, pushed, liftVm_ok, ok_bind]
  obtain ⟨spaceNow, changeNow, sameNow⟩ := stack_put space ownedStack bytes
  cases fits with
  | false =>
    obtain ⟨last, free₂, freed, back⟩ := image_freed spaceNow (changeNow.owned ownedStack)
    have exceeds : PGSIZE < stackBytes argv := Nat.lt_of_not_le fun le => absurd (fitting.mpr le) (by decide)
    refine ⟨-1, { state with phys := last }, free₂, ?_, ⟨fun _ => .inr exceeds, fun _ => rfl⟩,
      .inl ⟨rfl, rfl, (change.trans changeNow).trans back⟩⟩
    have undone := bad_freed sb state present freed
    exact congrArg (· >>= fun state => .ok ((-1 : Int), state)) undone
  | true =>
    obtain ⟨rfl, -, ustack, arguments⟩ := args rfl
    obtain ⟨last, free₂, committed, spaceLast, kept, frame, changeLast⟩ := commit_started
      (addressOf (pages.length + 1) + BitVec.ofNat 64 (PGSIZE - stackBytes argv)) entry path argv.length
      image owned spaceNow (change.trans changeNow)
    have room := fitting.mp rfl
    refine ⟨argv.length, _, free₂, committed, ?_, .inr ⟨rfl, rfl, rfl, ⟨guard, stack, ustack, spaceLast, rfl,
      userPages_image spaceLast (changeLast.owned owned).tail rfl, ?_, room, ?_, frame⟩, ?_⟩⟩
    · refine ⟨fun negative => by omega, ?_⟩
      rintro (⟨_, zero⟩ | exceeds)
      · exact absurd (congrArg Prod.fst (Except.ok.inj zero)) nonzero
      · exact absurd room (Nat.not_le.mpr exceeds)
    · rw [← same, ← sameNow]
      exact content_congr fun page member => kept page (List.mem_append_left _ member)
    · rw [kept stack (by simp), put_self]
      exact arguments
    · rw [userPages_image spaceLast (changeLast.owned owned).tail rfl]
      exact changeLast

/-- The old program stays as it is while the new one is loaded beside it. -/
theorem beside {proc : Proc} {new free' : List Word} (image : Image layout phys.mem proc)
    (owned : Owned layout phys (proc.trapframe :: userPages phys.mem proc) free)
    (change : Change phys [] free after new free') :
    Image layout after.mem proc ∧ userPages after.mem proc = userPages phys.mem proc ∧
      after.mem proc.trapframe = phys.mem proc.trapframe ∧
      Change phys (proc.trapframe :: userPages phys.mem proc) free after
        (proc.trapframe :: userPages phys.mem proc ++ new) free' := by
  have framed := change.frame (proc.trapframe :: userPages phys.mem proc)
  rw [List.append_nil] at framed
  obtain ⟨imageNow, -, samePages, -⟩ := image.undisturbed (by rw [List.append_nil]; exact owned.tail) change
  exact ⟨imageNow, samePages, change.elsewhere _ (owned.apart List.mem_cons_self), framed⟩

theorem owned_none {proc : Proc} (owned : Owned layout phys (proc.trapframe :: userPages phys.mem proc) free) :
    Owned layout phys [] free := by
  rw [← List.append_nil (_ :: _)] at owned
  exact owned.unframe

end

end Xv6.Exec
