import Xv6.Transition.Run
import Xv6.Umalloc.Allocate

namespace Xv6.Umalloc

open Xv6.Data Xv6.Transition

/-! # Programs that use the allocator

A program calls `malloc`, frees what it has got, and writes to its blocks.  `sbrk` moves the
break up or refuses.
-/

/-- The break, whether `sbrk` will move it, and how often it was asked to. -/
structure Break where
  brk : Nat
  willing : Bool
  calls : Nat

def Break.sbrk (world : Break) (k : BitVec 32) : Option (Nat × Break) :=
  if world.willing ∧ 0 ≤ k.toInt ∧ world.brk + k.toNat < failed then
    some (world.brk, { world with brk := world.brk + k.toNat, calls := world.calls + 1 })
  else
    some (failed, { world with calls := world.calls + 1 })

/-- The heap, the break, and the results of `malloc` that are not freed yet with their `nbytes`. -/
structure State where
  heap : Heap
  brk : Nat
  live : List (Nat × Nat)

inductive Event where
  | malloc (nbytes : BitVec 32) (willing : Bool)
  | free (ap : Nat)
  /-- The program writes a byte of a block that it has. -/
  | write (address : Nat) (byte : UInt8)

/-- A loop that goes around the free list comes to fewer blocks than the heap has bytes. -/
def step (base : Nat) (state : State) : Event → Option State
  | .malloc nbytes willing => do
    let (ap, heap, world) ← malloc Break.sbrk base state.heap ⟨state.brk, willing, 0⟩ state.brk nbytes.toNat
    some ⟨heap, world.brk, if ap = 0 then state.live else (ap, nbytes.toNat) :: state.live⟩
  | .free ap =>
    if ap ∈ state.live.map Prod.fst then do
      let heap ← free state.heap state.brk ap
      some { state with heap, live := state.live.eraseP fun block => block.1 = ap }
    else
      none
  | .write address byte =>
    if ∃ block ∈ state.live, block.1 ≤ address ∧ address < block.1 + block.2 then
      some { state with heap := { state.heap with mem := overwrite state.heap.mem address byte } }
    else
      none

def machine (base start : Nat) : Machine State Event where
  initial state := state.heap.freep = 0 ∧ state.brk = start ∧ state.live = []
  step := step base

/-- The request fits the 32 bits of an `int`, and all units of the heap fit the `uint` of a size. -/
def Fits (start : Nat) (state : State) : Event → Prop
  | .malloc nbytes _ =>
    HEADER * max (unitsFor nbytes.toNat) 4096 < 2 ^ 32 ∧
      state.brk - start + HEADER * max (unitsFor nbytes.toNat) 4096 < HEADER * 2 ^ 32
  | _ => True

/-- The blocks of the program, headers included, as addresses and units. -/
def State.blocks (state : State) : List (Nat × Nat) :=
  state.live.map fun block => (block.1 - HEADER, size state.heap.mem (block.1 - HEADER))

/-- The byte at an address belongs to a block. -/
def covers (address : Nat) (block : Nat × Nat) : Bool :=
  block.1 ≤ address && address < block.1 + HEADER * block.2

/-- The free list is circular, in order and coalesced, and each byte below the break is in one
block. -/
structure Listed (base start : Nat) (state : State) (free : List (Nat × Nat)) : Prop where
  ring : Path (ptr state.heap.mem) base (base :: free.map Prod.fst) base
  roving : state.heap.freep ∈ base :: free.map Prod.fst
  sizes : ∀ block ∈ (base, 0) :: free, size state.heap.mem block.1 = block.2
  ordered : ((base, 0) :: free).Pairwise fun left right => left.1 + HEADER * left.2 < right.1
  once : ∀ address, (free ++ state.blocks).countP (covers address) =
    if start ≤ address ∧ address < state.brk then 1 else 0
  room : ∀ ap nbytes, (ap, nbytes) ∈ state.live →
    HEADER ≤ ap ∧ HEADER + nbytes ≤ HEADER * size state.heap.mem (ap - HEADER)

/-- Before the first call there is nothing. -/
def Kept (base start : Nat) (state : State) : Prop :=
  state.heap.freep = 0 ∧ state.brk = start ∧ state.live = [] ∨ ∃ free, Listed base start state free

/-! ## From regions to blocks -/

/-- The free blocks with their units. -/
def freeBlocks : Nat → List Region → List (Nat × Nat)
  | _, [] => []
  | start, .free units :: rest => (start, units) :: freeBlocks (start + HEADER * units) rest
  | start, region :: rest => freeBlocks (start + region.length) rest

variable {base start a units : Nat} {mem before after : Bytes} {heap : Heap} {regions : List Region}
  {state : State}

theorem freeBlocks_fst : (freeBlocks start regions).map Prod.fst = frees start regions := by
  induction regions generalizing start with
  | nil => rfl
  | cons region rest ih => cases region <;> simp [freeBlocks, frees, Region.length, ih]

theorem freeBlocks_size (sized : Sized mem start regions) {block : Nat × Nat}
    (member : block ∈ freeBlocks start regions) : size mem block.1 = block.2 := by
  induction regions generalizing start with
  | nil => cases member
  | cons region rest ih =>
    cases region with
    | free units =>
      rcases List.mem_cons.mp member with rfl | later
      · exact sized.1
      · exact ih sized.2 later
    | live units => exact ih sized.2 member
    | other bytes => exact ih sized member

theorem freeBlocks_ordered (positive : ∀ region ∈ regions, 0 < region.length)
    (apart : regions.IsChain Region.Apart) (sized : Sized mem start regions) :
    (freeBlocks start regions).Pairwise fun left right => left.1 + HEADER * left.2 < right.1 := by
  induction regions generalizing start with
  | nil => exact List.Pairwise.nil
  | cons region rest ih =>
    obtain ⟨_, later⟩ := List.forall_mem_cons.mp positive
    have inner : rest.IsChain Region.Apart := apart.tail
    cases region with
    | live units => exact ih later inner sized.2
    | other bytes => exact ih later inner sized
    | free units =>
      refine List.Pairwise.cons (fun block member => ?_) (ih later inner sized.2)
      have node : block.1 ∈ frees (start + HEADER * units) rest := by
        rw [← freeBlocks_fst]
        exact List.mem_map_of_mem member
      have bounds := headers_bounds later sized.2 ((frees_sublist _ _).subset node)
      refine Nat.lt_of_le_of_ne bounds.1 fun same => ?_
      have same : start + HEADER * units = block.1 := same
      -- the region behind is in use, so the next free block is beyond it
      cases rest with
      | nil => cases member
      | cons next more =>
        obtain ⟨first, beyond⟩ := List.forall_mem_cons.mp later
        cases next with
        | free n => exact (List.isChain_cons_cons.mp apart).1 ⟨rfl, rfl⟩
        | live n =>
          have far := headers_bounds beyond sized.2.2 ((frees_sublist _ _).subset node)
          rw [Region.length] at first
          omega
        | other n =>
          have far := headers_bounds beyond sized.2 ((frees_sublist _ _).subset node)
          rw [Region.length] at first
          omega

theorem covers_once (plain : ∀ region ∈ regions, region.isBlock = true) (address : Nat) :
    (freeBlocks start regions ++ lives start regions).countP (covers address) =
      if start ≤ address ∧ address < start + extent regions then 1 else 0 := by
  induction regions generalizing start with
  | nil =>
    rw [if_neg (by rw [extent]; omega)]
    rfl
  | cons region rest ih =>
    obtain ⟨block, later⟩ := List.forall_mem_cons.mp plain
    have rest : ∀ units, (if covers address (start, units) = true then 1 else 0) +
        (freeBlocks (start + HEADER * units) rest ++ lives (start + HEADER * units) rest).countP (covers address) =
          if start ≤ address ∧ address < start + (HEADER * units + extent rest) then 1 else 0 := by
      intro units
      rw [ih later]
      simp only [covers, Bool.and_eq_true, decide_eq_true_eq]
      split_ifs <;> omega
    cases region with
    | free units =>
      rw [extent, Region.length, ← rest units, freeBlocks, lives_free, List.cons_append, List.countP_cons,
        Nat.add_comm]
    | live units =>
      rw [extent, Region.length, ← rest units, lives, List.countP_append, List.countP_cons, List.countP_append]
      simp only [freeBlocks, Region.length]
      omega
    | other bytes => cases block

variable {blocks : List (Nat × Nat)}

theorem Untouched.size_eq (untouched : Untouched blocks before after) (member : (a, units) ∈ blocks)
    (positive : 0 < units) : size after a = size before a := by
  have unit : HEADER * 1 ≤ HEADER * units := Nat.mul_le_mul_left HEADER positive
  rw [HEADER] at unit
  exact Bytes.load_congr fun index lower upper => untouched a units member index (by omega) (by rw [HEADER]; omega)

/-! ## The invariant -/

/-- The regions of a state. -/
structure Good (base start : Nat) (state : State) (regions : List Region) : Prop where
  ready : Ready base state.heap start regions
  ends : state.brk = start + extent regions
  plain : ∀ region ∈ regions, region.isBlock = true
  blocks : state.blocks.Perm (lives start regions)
  room : ∀ ap nbytes, (ap, nbytes) ∈ state.live →
    HEADER ≤ ap ∧ HEADER + nbytes ≤ HEADER * size state.heap.mem (ap - HEADER)

theorem Fresh.plain (fresh : Fresh base heap start regions) (plain : ∀ region ∈ regions, region.isBlock = true) :
    regions = [] := by
  cases regions with
  | nil => rfl
  | cons region rest =>
    obtain ⟨bytes, rfl, _⟩ := fresh.others region List.mem_cons_self
    cases plain (.other bytes) List.mem_cons_self

theorem Good.kept (good : Good base start state regions) : Kept base start state := by
  rcases good.ready with fresh | represents
  · left
    have nothing := fresh.plain good.plain
    have ends := good.ends
    have blocks := good.blocks
    rw [nothing] at ends blocks
    exact ⟨fresh.idle, ends, List.map_eq_nil_iff.mp blocks.eq_nil⟩
  · right
    have sized := represents.sized
    refine ⟨freeBlocks start regions, ?_, ?_, ?_, ?_, ?_, good.room⟩
    · rw [freeBlocks_fst]
      exact represents.ring
    · rw [freeBlocks_fst]
      exact represents.roving
    · exact List.forall_mem_cons.mpr ⟨represents.empty, fun block => freeBlocks_size sized⟩
    · refine List.Pairwise.cons (fun block member => ?_)
        (freeBlocks_ordered represents.positive represents.apart sized)
      have node : block.1 ∈ frees start regions := by
        rw [← freeBlocks_fst]
        exact List.mem_map_of_mem member
      have bounds := headers_bounds represents.positive sized ((frees_sublist _ _).subset node)
      have below := represents.below
      rw [HEADER] at below
      show base + HEADER * 0 < block.1
      omega
    · intro address
      rw [List.countP_append, good.blocks.countP_eq, ← List.countP_append, covers_once good.plain, good.ends]

theorem good_initial (nonnull : 0 < base) (below : base + HEADER ≤ start) (inside : start < 2 ^ 64)
    (initial : (machine base start).initial state) : Good base start state [] := by
  obtain ⟨idle, ends, none⟩ := initial
  refine ⟨.inl ⟨idle, nonnull, below, nofun, inside, by decide⟩, ends, nofun, ?_, ?_⟩
  · rw [State.blocks, none]
    exact List.Perm.nil
  · rw [none]
    nofun

variable {ap nbytes : Nat}

theorem Good.block (good : Good base start state regions) (member : (ap, nbytes) ∈ state.live) :
    (ap - HEADER, size state.heap.mem (ap - HEADER)) ∈ lives start regions :=
  good.blocks.mem_iff.mp (List.mem_map.mpr ⟨(ap, nbytes), member, rfl⟩)

theorem Good.represents (good : Good base start state regions)
    (member : (ap, nbytes) ∈ state.live) :
    Represents base state.heap start regions := by
  rcases good.ready with fresh | represents
  · have block := good.block member
    rw [fresh.plain good.plain] at block
    cases block
  · exact represents

theorem Good.apart {heap : Heap} {brk : Nat} {live : List (Nat × Nat)}
    (good : Good base start ⟨heap, brk, (ap, nbytes) :: live⟩ regions) {other bytes : Nat}
    (member : (other, bytes) ∈ live) :
    ap - HEADER + HEADER * size heap.mem (ap - HEADER) ≤ other - HEADER ∨
      other - HEADER + HEADER * size heap.mem (other - HEADER) ≤ ap - HEADER := by
  have sorted : (lives start regions).Pairwise fun left right =>
      left.1 + HEADER * left.2 ≤ right.1 ∨ right.1 + HEADER * right.2 ≤ left.1 := lives_sorted.imp Or.inl
  have blocks := (good.blocks.pairwise_iff fun order => order.symm).mpr sorted
  exact List.rel_of_pairwise_cons blocks (List.mem_map.mpr ⟨(other, bytes), member, rfl⟩)

theorem Good.usable (good : Good base start state regions) (member : (ap, nbytes) ∈ state.live) :
    0 < size state.heap.mem (ap - HEADER) ∧ ap - HEADER + HEADER = ap ∧
      ap + nbytes ≤ ap - HEADER + HEADER * size state.heap.mem (ap - HEADER) := by
  obtain ⟨above, fits⟩ := good.room ap nbytes member
  have unit : HEADER = 16 := rfl
  exact ⟨Nat.pos_of_ne_zero fun none => by rw [none] at fits; omega, Nat.sub_add_cancel above, by omega⟩

/-- What `malloc` and `free` leave alone, they leave alone in the eyes of the program. -/
theorem Good.unchanged (good : Good base start state regions) (member : (ap, nbytes) ∈ state.live)
    (inside : (ap - HEADER, size state.heap.mem (ap - HEADER)) ∈ blocks)
    (untouched : Untouched blocks state.heap.mem after) :
    size after (ap - HEADER) = size state.heap.mem (ap - HEADER) ∧
      ∀ index, ap ≤ index → index < ap + nbytes → after index = state.heap.mem index := by
  obtain ⟨positive, back, fits⟩ := good.usable member
  exact ⟨untouched.size_eq inside positive, fun index lower upper =>
    untouched _ _ inside index (by omega) (by omega)⟩

/-! ## Steps -/

theorem Good.fuel (good : Good base start state regions) : 2 * (frees start regions).length + 3 ≤ state.brk :=
  good.ready.rounds good.ends.symm

theorem sbrk_grants (brk calls : Nat) (willing : Bool) {bytes : Nat} (fits : bytes < 2 ^ 32) :
    Grants Break.sbrk Break.brk ⟨brk, willing, calls⟩ bytes := by
  have value : (BitVec.ofNat 32 bytes).toNat = bytes := by
    rw [BitVec.toNat_ofNat, Nat.mod_eq_of_lt fits]
  rw [Grants, Break.sbrk, value]
  by_cases willing : willing = true ∧ 0 ≤ (BitVec.ofNat 32 bytes).toInt ∧ brk + bytes < failed
  · rw [if_pos willing]
    exact ⟨_, .inr ⟨rfl, rfl, willing.2.2⟩⟩
  · rw [if_neg willing]
    exact ⟨_, .inl ⟨rfl, rfl⟩⟩

theorem sbrk_calls {world world' : Break} {k : BitVec 32} {answer : Nat}
    (called : world.sbrk k = some (answer, world')) : world'.calls = world.calls + 1 := by
  rw [Break.sbrk] at called
  split at called <;> cases called <;> rfl

theorem Good.malloc (good : Good base start state regions) {nbytes : BitVec 32} {willing : Bool}
    (fits : Fits start state (.malloc nbytes willing)) : ∃ ap heap' world' regions',
      Umalloc.malloc Break.sbrk base state.heap ⟨state.brk, willing, 0⟩ state.brk nbytes.toNat =
        some (ap, heap', world') ∧
      Allocated Break.sbrk Break.brk base state.heap ⟨state.brk, willing, 0⟩ start regions nbytes.toNat ap
        heap' world' regions' := by
  obtain ⟨int, uint⟩ := fits
  have ends := good.ends
  exact malloc_spec good.ready nbytes.isLt good.ends (by omega) (sbrk_grants _ _ _ int) good.fuel

theorem Represents.live_size (represents : Represents base heap start regions)
    (member : (a, units) ∈ lives start regions) : size heap.mem a = units := by
  obtain ⟨front, back, rfl, rfl⟩ := lives_split member
  exact (sized_append.mp represents.sized).2.1

section

variable (good : Good base start state regions)

include good

/-- The blocks of the program in a memory where they have not changed. -/
theorem Good.blocks_eq {live : List (Nat × Nat)} (included : live ⊆ state.live)
    (inside : ∀ ap nbytes, (ap, nbytes) ∈ live →
      (ap - HEADER, size state.heap.mem (ap - HEADER)) ∈ blocks)
    (untouched : Untouched blocks state.heap.mem after) :
    (live.map fun block => (block.1 - HEADER, size after (block.1 - HEADER))) =
      live.map fun block => (block.1 - HEADER, size state.heap.mem (block.1 - HEADER)) := by
  refine List.map_congr_left fun block member => ?_
  rw [(good.unchanged (included member) (inside block.1 block.2 member) untouched).1]

theorem Good.malloc_keeps {world world' : Break} {heap' : Heap} {regions' : List Region}
    (allocated : Allocated Break.sbrk Break.brk base state.heap world start regions nbytes ap heap' world' regions') :
    Good base start ⟨heap', world'.brk, if ap = 0 then state.live else (ap, nbytes) :: state.live⟩ regions' := by
  have represents := allocated.represents
  have plain : ∀ region ∈ regions', region.isBlock = true := fun region member =>
    (allocated.origin region member).elim id (good.plain region)
  have old := good.blocks_eq (List.Subset.refl _) (fun _ _ member => good.block member) allocated.untouched
  have room : ∀ ap nbytes, (ap, nbytes) ∈ state.live →
      HEADER ≤ ap ∧ HEADER + nbytes ≤ HEADER * size heap'.mem (ap - HEADER) := by
    intro ap nbytes member
    rw [(good.unchanged member (good.block member) allocated.untouched).1]
    exact good.room ap nbytes member
  rcases allocated.result with ⟨rfl, same, _⟩ | ⟨a, units, rfl, usable, perm⟩
  · rw [if_pos rfl]
    refine ⟨.inr represents, allocated.ends, plain, ?_, room⟩
    rw [State.blocks, old, same]
    exact good.blocks
  · have new : size heap'.mem a = units := represents.live_size (perm.mem_iff.mpr List.mem_cons_self)
    rw [if_neg (by rw [HEADER]; omega)]
    refine ⟨.inr represents, allocated.ends, plain, ?_, ?_⟩
    · rw [State.blocks, List.map_cons, old, Nat.add_sub_cancel, new]
      exact (good.blocks.cons _).trans perm.symm
    · intro ap bytes member
      rcases List.mem_cons.mp member with same | older
      · cases same
        rw [Nat.add_sub_cancel, new]
        exact ⟨Nat.le_add_left _ _, usable⟩
      · exact room ap bytes older

theorem Good.free (member : ap ∈ state.live.map Prod.fst) :
    ∃ heap' regions', Umalloc.free state.heap state.brk ap = some heap' ∧
      Good base start ⟨heap', state.brk, state.live.eraseP fun block => block.1 = ap⟩ regions' ∧
      ∀ other nbytes, (other, nbytes) ∈ state.live.eraseP (fun block => block.1 = ap) →
        ∀ index, other ≤ index → index < other + nbytes → heap'.mem index = state.heap.mem index := by
  obtain ⟨entry, listed, same⟩ := List.mem_map.mp member
  obtain ⟨⟨found, nbytes⟩, first, second, _, here, split, erased⟩ :=
    @List.exists_of_eraseP _ (fun block => decide (block.1 = ap)) state.live entry listed (decide_eq_true same)
  obtain rfl : found = ap := of_decide_eq_true here
  have inLive : (found, nbytes) ∈ state.live := by
    rw [split]
    simp
  have represents := good.represents inLive
  obtain ⟨_, whole, _⟩ := good.usable inLive
  obtain ⟨pre, post, shape, address⟩ := lives_split (good.block inLive)
  have blocks := good.blocks
  have fuel := good.fuel
  have plain := good.plain
  have ends := good.ends
  generalize units : size state.heap.mem (found - HEADER) = n at *
  subst shape
  obtain ⟨heap', regions', ran, released⟩ := free_spec represents (show _ < state.brk by omega)
  rw [← address, whole] at ran
  have kept : (first ++ second).map (fun block => (block.1 - HEADER, size state.heap.mem (block.1 - HEADER))) |>.Perm
      (lives start regions') := by
    rw [State.blocks, split, List.map_append, List.map_cons, units] at blocks
    rw [lives_append, lives, ← address] at blocks
    rw [released.lives, ← address, List.map_append]
    exact (List.perm_middle.symm.trans (blocks.trans List.perm_middle)).cons_inv
  have included : first ++ second ⊆ state.live := by
    rw [split]
    intro block member
    simp only [List.mem_append, List.mem_cons] at member ⊢
    tauto
  have inside : ∀ other bytes, (other, bytes) ∈ first ++ second →
      (other - HEADER, size state.heap.mem (other - HEADER)) ∈ lives start regions' := fun other bytes member =>
    kept.mem_iff.mp (List.mem_map.mpr ⟨(other, bytes), member, rfl⟩)
  have untouched := released.untouched represents
  rw [erased]
  refine ⟨heap', regions', ran, ⟨.inr released.represents, ?_, ?_, ?_, ?_⟩, ?_⟩
  · rw [ends, released.extent]
  · intro region member
    exact (released.origin region member).elim id (plain region)
  · rw [State.blocks, good.blocks_eq included inside untouched]
    exact kept
  · intro other bytes member
    rw [(good.unchanged (included member) (inside other bytes member) untouched).1]
    exact good.room other bytes (included member)
  · intro other bytes member
    exact (good.unchanged (included member) (inside other bytes member) untouched).2

theorem Good.payload {address q : Nat} (member : (ap, nbytes) ∈ state.live) (lower : ap ≤ address)
    (upper : address < ap + nbytes)
    (header : q ∈ base :: headers start regions) : address < q ∨ q + HEADER ≤ address := by
  obtain ⟨_, back, fits⟩ := good.usable member
  have represents := good.represents member
  have below := represents.below
  obtain ⟨front, after, rfl, start'⟩ := lives_split (good.block member)
  obtain ⟨sizedFront, _, sizedAfter⟩ := sized_append.mp represents.sized
  have positive := represents.positive
  rw [headers_append, ← List.cons_append] at header
  rcases List.mem_append.mp header with inFront | inRest
  · rcases List.mem_cons.mp inFront with rfl | inFront
    · omega
    · have bounds := headers_bounds (fun region member => positive region (by simp [member])) sizedFront inFront
      have unit : HEADER * 1 ≤ HEADER * size state.heap.mem q := Nat.mul_le_mul_left HEADER bounds.2.1
      omega
  · rcases List.mem_cons.mp inRest with rfl | inAfter
    · omega
    · have beyond : start + extent front + HEADER * size state.heap.mem (ap - HEADER) ≤ q :=
        (headers_bounds (fun region member => positive region (by simp [member])) sizedAfter inAfter).1
      omega

theorem Good.write {address : Nat} (byte : UInt8) (member : (ap, nbytes) ∈ state.live)
    (lower : ap ≤ address) (upper : address < ap + nbytes) :
    Good base start { state with heap := { state.heap with mem := overwrite state.heap.mem address byte } }
      regions := by
  have outside : ∀ q ∈ base :: headers start regions, ∀ index, q ≤ index → index < q + HEADER →
      overwrite state.heap.mem address byte index = state.heap.mem index := by
    intro q header index first last
    have away := good.payload member lower upper header
    exact overwrite_of_ne (by omega)
  have links : ∀ q ∈ base :: headers start regions,
      ptr (overwrite state.heap.mem address byte) q = ptr state.heap.mem q := fun q header =>
    Bytes.load_congr fun index first last => outside q header index first (by rw [HEADER]; omega)
  have sizes : ∀ q ∈ base :: headers start regions,
      size (overwrite state.heap.mem address byte) q = size state.heap.mem q := fun q header =>
    Bytes.load_congr fun index first last => outside q header index (by omega) (by rw [HEADER]; omega)
  have live : ∀ ap nbytes, (ap, nbytes) ∈ state.live →
      size (overwrite state.heap.mem address byte) (ap - HEADER) = size state.heap.mem (ap - HEADER) := by
    intro ap nbytes member
    obtain ⟨front, back, shape, address⟩ := lives_split (good.block member)
    refine sizes _ ?_
    rw [shape, headers_append, address]
    simp [headers]
  refine ⟨.inr ((good.represents member).congr links sizes), good.ends, good.plain, ?_, ?_⟩
  · have same : State.blocks { state with heap := { state.heap with mem := overwrite state.heap.mem address byte } } =
        state.blocks := List.map_congr_left fun block member => by rw [live block.1 block.2 member]
    rw [same]
    exact good.blocks
  · intro ap nbytes member
    rw [live ap nbytes member]
    exact good.room ap nbytes member

theorem Good.step {event : Event} {next : State} (fits : Fits start state event)
    (stepped : Umalloc.step base state event = some next) :
    ∃ regions', Good base start next regions' := by
  cases event with
  | malloc nbytes willing =>
    obtain ⟨ap, heap', world', regions', ran, allocated⟩ := good.malloc fits
    rw [Umalloc.step, ran] at stepped
    cases stepped
    exact ⟨regions', good.malloc_keeps allocated⟩
  | free ap =>
    rw [Umalloc.step] at stepped
    split at stepped
    · rename_i member
      obtain ⟨heap', regions', ran, after, _⟩ := good.free member
      rw [ran] at stepped
      cases stepped
      exact ⟨regions', after⟩
    · cases stepped
  | write address byte =>
    rw [Umalloc.step] at stepped
    split at stepped
    · rename_i inside
      obtain ⟨block, member, lower, upper⟩ := inside
      cases stepped
      exact ⟨regions, good.write byte member lower upper⟩
    · cases stepped

end

/-- In every run whose requests fit: the free list and the blocks are as they should be; each
call of `malloc` and `free` returns, after at most one call of `sbrk`, with the contents of all
other blocks as before; and a new block is inside the heap and apart from all others. -/
theorem heap_kept (base start : Nat) (nonnull : 0 < base) (below : base + HEADER ≤ start) (inside : start < 2 ^ 64)
    (history : List Event) (state : State) (run : Run (machine base start) (Fits start) history state) :
    Kept base start state ∧
    (∀ nbytes willing, Fits start state (.malloc nbytes willing) → ∃ ap heap' world',
      malloc Break.sbrk base state.heap ⟨state.brk, willing, 0⟩ state.brk nbytes.toNat = some (ap, heap', world') ∧
      world'.calls ≤ 1 ∧
      (∀ other bytes, (other, bytes) ∈ state.live → ∀ index, other ≤ index → index < other + bytes →
        heap'.mem index = state.heap.mem index) ∧
      (ap ≠ 0 → start ≤ ap ∧ ap + nbytes.toNat ≤ world'.brk ∧
        ∀ other bytes, (other, bytes) ∈ state.live → ap + nbytes.toNat ≤ other ∨ other + bytes ≤ ap)) ∧
    ∀ ap ∈ state.live.map Prod.fst, ∃ heap', free state.heap state.brk ap = some heap' ∧
      ∀ other bytes, (other, bytes) ∈ state.live → other ≠ ap → ∀ index, other ≤ index → index < other + bytes →
        heap'.mem index = state.heap.mem index := by
  obtain ⟨regions, good⟩ : ∃ regions, Good base start state regions := by
    refine @Run.invariant _ _ _ _ (fun state => ∃ regions, Good base start state regions) ?_ ?_ _ _ run
    · exact fun state initial => ⟨[], good_initial nonnull below inside initial⟩
    · exact fun _ _ _ ⟨_, good⟩ fits stepped => good.step fits stepped
  refine ⟨good.kept, fun nbytes willing fits => ?_, fun ap member => ?_⟩
  · obtain ⟨ap, heap', world', regions', ran, allocated⟩ := good.malloc fits
    refine ⟨ap, heap', world', ran, ?_, ?_, fun real => ?_⟩
    · rcases allocated.once with rfl | ⟨request, answer, called⟩
      · exact Nat.zero_le 1
      · rw [sbrk_calls called]
    · intro other bytes member
      exact (good.unchanged member (good.block member) allocated.untouched).2
    · have after := good.malloc_keeps allocated
      rw [if_neg real] at after
      obtain ⟨_, back, fits⟩ := after.usable List.mem_cons_self
      have bounds := lives_bounds (after.block List.mem_cons_self)
      have ends := after.ends
      dsimp only at fits bounds ends
      refine ⟨by omega, by omega, fun other bytes member => ?_⟩
      obtain ⟨_, back', fits'⟩ := after.usable (List.mem_cons_of_mem _ member)
      have apart := after.apart member
      dsimp only at fits'
      omega
  · obtain ⟨heap', _, ran, _, kept⟩ := good.free member
    refine ⟨heap', ran, fun other bytes listed different => kept other bytes ?_⟩
    exact (List.mem_eraseP_of_neg (by simpa using different)).mpr listed

instance (start : Nat) (state : State) : (event : Event) → Decidable (Fits start state event)
  | .malloc _ _ => inferInstanceAs (Decidable (_ ∧ _))
  | .free _ | .write _ _ => inferInstanceAs (Decidable True)

/-- A program that has called nothing yet, with its heap at 4096. -/
def newProgram : State := ⟨⟨fun _ => 0, 0⟩, 4096, []⟩

/-- After two calls of `malloc` and one of `free` there is one block. -/
theorem heap_kept_two : ∃ history state, Run (machine 16 4096) (Fits 4096) history state ∧
    Kept 16 4096 state ∧ state.live.length = 1 := by
  have ran : ((machine 16 4096).guarded (Fits 4096) newProgram
      [.malloc 100 true, .malloc 5 true, .free 69520]).map (fun state => state.live.length) = some 1 := by
    decide +kernel
  obtain ⟨state, executed, count⟩ := Option.map_eq_some_iff.mp ran
  have run := (Run.start (show (machine 16 4096).initial newProgram from ⟨rfl, rfl, rfl⟩)).guarded executed
  exact ⟨_, state, run, (heap_kept 16 4096 (by decide) (by decide) (by decide) _ state run).1, count⟩

/-- `malloc(0xFFFFFFFF)` asks `sbrk` for 16 bytes, and returns a block that begins at the break. -/
theorem malloc_passes_break : ∃ state, Reachable (machine 16 4096) state ∧
    state.live = [(4112, 0xFFFFFFFF)] ∧ state.brk = 4112 ∧ ¬ Kept 16 4096 state := by
  have ran : ((machine 16 4096).execute newProgram [.malloc 0xFFFFFFFF true]).map
      (fun state => (state.live, state.brk, size state.heap.mem 4096)) =
        some ([(4112, 0xFFFFFFFF)], 4112, 268435457) := by decide +kernel
  obtain ⟨state, executed, facts⟩ := Option.map_eq_some_iff.mp ran
  obtain ⟨live, brk, units⟩ : state.live = [(4112, 0xFFFFFFFF)] ∧ state.brk = 4112 ∧
      size state.heap.mem 4096 = 268435457 := by simpa using facts
  refine ⟨state, .of_execute ⟨rfl, rfl, rfl⟩ executed, live, brk, ?_⟩
  rintro (⟨_, _, none⟩ | ⟨free, listed⟩)
  · rw [live] at none
    cases none
  · -- the byte at the break is in the block
    have once := listed.once 4112
    have block : state.blocks = [(4096, 268435457)] := by
      rw [State.blocks, live, List.map_singleton]
      exact congrArg (fun units => [(4096, units)]) units
    rw [brk, if_neg (by decide), List.countP_append, block] at once
    exact absurd (Nat.eq_zero_of_add_eq_zero_left once) (by decide)

end Xv6.Umalloc
