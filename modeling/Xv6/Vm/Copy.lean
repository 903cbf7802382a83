import Xv6.Vm.FiniteMap

namespace Xv6.Vm

open Xv6.Data

/-! # copyout, copyin and copyinstr

The last part of `vm.c`.  A kernel buffer is a map from positions to bytes.  Each round of
a loop moves at least one byte, so as many rounds as there are bytes are enough.
-/

/-- `memmove` of `n` bytes of `source` from `start` on, to `offset` of `target`. -/
def blit (target : Bytes) (offset : Nat) (source : Bytes) (start n : Nat) : Bytes := fun index =>
  if offset ≤ index ∧ index < offset + n then source (start + (index - offset)) else target index

/-- How much of a range lies in the page at `va0`. -/
def chunk (va va0 len : Word) : Word :=
  let n := pageBytes - (va - va0)
  if n > len then len else n

def copyoutLoop (pagetable : Word) (src : Bytes) : Nat → Memory → Word → Nat → Word →
    Except Panic (Int × Memory)
  | 0, mem, _, _, _ => .ok (0, mem)
  | rounds + 1, mem, dstva, done, len =>
    if len = 0 then
      .ok (0, mem)
    else do
      let va0 := PGROUNDDOWN dstva
      let pa0 ← walkaddr mem pagetable va0
      if pa0 = 0 then
        .ok (-1, mem)
      else
        let n := chunk dstva va0 len
        let bytes := blit (mem pa0) (dstva - va0).toNat src done n.toNat
        copyoutLoop pagetable src rounds (overwrite mem pa0 bytes) (va0 + pageBytes)
          (done + n.toNat) (len - n)

def copyout (mem : Memory) (pagetable dstva : Word) (src : Bytes) (len : Word) :
    Except Panic (Int × Memory) :=
  copyoutLoop pagetable src len.toNat mem dstva 0 len

def copyinLoop (mem : Memory) (pagetable : Word) : Nat → Bytes → Nat → Word → Word →
    Except Panic (Int × Bytes)
  | 0, dst, _, _, _ => .ok (0, dst)
  | rounds + 1, dst, done, srcva, len =>
    if len = 0 then
      .ok (0, dst)
    else do
      let va0 := PGROUNDDOWN srcva
      let pa0 ← walkaddr mem pagetable va0
      if pa0 = 0 then
        .ok (-1, dst)
      else
        let n := chunk srcva va0 len
        let bytes := blit dst done (mem pa0) (srcva - va0).toNat n.toNat
        copyinLoop mem pagetable rounds bytes (done + n.toNat) (va0 + pageBytes) (len - n)

def copyin (mem : Memory) (pagetable : Word) (dst : Bytes) (srcva len : Word) :
    Except Panic (Int × Bytes) :=
  copyinLoop mem pagetable len.toNat dst 0 srcva len

/-- The inner loop of `copyinstr`, over `n` bytes of a page from `p` on: whether it met a
NUL, the buffer, and how many bytes before a NUL it stored. -/
def stringLoop (page : Bytes) : Nat → Nat → Bytes → Nat → Bool × Bytes × Nat
  | 0, _, dst, done => (false, dst, done)
  | n + 1, p, dst, done =>
    if page p = 0 then
      (true, overwrite dst done 0, done)
    else
      stringLoop page n (p + 1) (overwrite dst done (page p)) (done + 1)

def copyinstrLoop (mem : Memory) (pagetable : Word) : Nat → Bytes → Nat → Word → Word →
    Except Panic (Int × Bytes)
  | 0, dst, _, _, _ => .ok (-1, dst)
  | rounds + 1, dst, done, srcva, max =>
    if max = 0 then
      .ok (-1, dst)
    else do
      let va0 := PGROUNDDOWN srcva
      let pa0 ← walkaddr mem pagetable va0
      if pa0 = 0 then
        .ok (-1, dst)
      else
        let n := chunk srcva va0 max
        let (gotNull, dst, done') := stringLoop (mem pa0) n.toNat (srcva - va0).toNat dst done
        if gotNull then
          .ok (0, dst)
        else
          copyinstrLoop mem pagetable rounds dst done' (va0 + pageBytes)
            (max - BitVec.ofNat 64 (done' - done))

def copyinstr (mem : Memory) (pagetable : Word) (dst : Bytes) (srcva max : Word) :
    Except Panic (Int × Bytes) :=
  copyinstrLoop mem pagetable max.toNat dst 0 srcva max

/-! ## Translation -/

/-- An entry for a page that the user may access. -/
def isUser (pte : Word) : Bool := pte &&& PTE_V ≠ 0 ∧ pte &&& PTE_U ≠ 0

/-- The frame of a user page. -/
def frameOf (mem : Memory) (root va : Word) : Option Word :=
  if va < MAXVA ∧ isUser (entry mem root (pageOf va)) then
    some (PTE2PA (entry mem root (pageOf va)))
  else
    none

/-- Where a byte of user memory is: its frame and its offset there. -/
def location (mem : Memory) (root va : Word) : Option (Word × Nat) :=
  (frameOf mem root va).map fun frame => (frame, va.toNat % PGSIZE)

/-- A byte of user memory. -/
def userByte (mem : Memory) (root va : Word) : Option UInt8 :=
  (location mem root va).map fun (frame, offset) => mem frame offset

/-- User pages are in frames of their own, apart from the page tables. -/
structure UserTable (mem : Memory) (root : Word) : Prop where
  real : ∀ va frame, frameOf mem root va = some frame → frame ≠ 0
  apart : ∀ va frame, frameOf mem root va = some frame → frame ∉ tables mem root

variable {mem after : Memory} {root va : Word}

theorem walkaddr_eq : walkaddr mem root va = .ok ((frameOf mem root va).getD 0) := by
  rw [walkaddr, frameOf]
  by_cases inside : va < MAXVA
  · rw [if_neg (by bv_omega), walk_lookup inside, ok_bind]
    cases found : lastTable mem root (pageOf va) with
    | none =>
      have absent : ¬(va < MAXVA ∧ isUser 0 = true) := fun both => by cases both.2
      rw [entry_of_missing found, if_neg absent]
      rfl
    | some table =>
      rw [entry_of_found found, Option.map_some]
      simp only [isUser, decide_eq_true_eq]
      by_cases present : pteAt mem table (digit 0 (pageOf va)) &&& PTE_V = 0
      · rw [if_pos present, if_neg fun both => both.2.1 present, Option.getD_none]
      · by_cases user : pteAt mem table (digit 0 (pageOf va)) &&& PTE_U = 0
        · rw [if_neg present, if_pos user, if_neg fun both => both.2.2 user, Option.getD_none]
        · rw [if_neg present, if_neg user, if_pos ⟨inside, present, user⟩, Option.getD_some]
  · rw [if_pos (by bv_omega), if_neg fun both => inside both.1, Option.getD_none]

section

variable (same : ∀ table ∈ tables mem root, after table = mem table)

include same

theorem frameOf_congr (va : Word) : frameOf after root va = frameOf mem root va := by
  rw [frameOf, frameOf, entry_congr same]

theorem location_congr (va : Word) : location after root va = location mem root va := by
  rw [location, location, frameOf_congr same]

theorem tables_kept : tables after root = tables mem root :=
  tables_congr fun table member => same table (upperTables_subset member)

end

theorem frameOf_page {other : Word} (same : pageOf other = pageOf va) :
    frameOf mem root other = frameOf mem root va := by
  have both : other < MAXVA ↔ va < MAXVA := by
    rw [BitVec.lt_def, BitVec.lt_def, MAXVA_toNat]
    rw [pageOf, pageOf, PGSIZE] at same
    omega
  rw [frameOf, frameOf, same]
  simp only [both]

theorem UserTable.congr (table : UserTable mem root)
    (same : ∀ table ∈ tables mem root, after table = mem table) : UserTable after root := by
  constructor
  · intro va frame
    rw [frameOf_congr same]
    exact table.real va frame
  · intro va frame
    rw [frameOf_congr same, tables_kept same]
    exact table.apart va frame

/-! ## One page of a range -/

theorem offset_toNat (va : Word) : (va - PGROUNDDOWN va).toNat = va.toNat % PGSIZE := by
  have down := PGROUNDDOWN_toNat va
  rw [PGSIZE] at *
  bv_omega

theorem chunk_toNat (va len : Word) : (chunk va (PGROUNDDOWN va) len).toNat =
    min (PGSIZE - va.toNat % PGSIZE) len.toNat := by
  have room : (pageBytes - (va - PGROUNDDOWN va)).toNat = PGSIZE - va.toNat % PGSIZE := by
    have offset := offset_toNat va
    have size := pageBytes_toNat
    rw [PGSIZE] at *
    bv_omega
  rw [chunk]
  split <;> rename_i more <;> rw [gt_iff_lt, BitVec.lt_def, room] at more <;> omega

theorem within_page {k : Nat} (inside : k < PGSIZE - va.toNat % PGSIZE) :
    pageOf (va + BitVec.ofNat 64 k) = pageOf va ∧
      (va + BitVec.ofNat 64 k).toNat % PGSIZE = va.toNat % PGSIZE + k := by
  have bound := va.isLt
  rw [PGSIZE] at inside
  have sum : (va + BitVec.ofNat 64 k).toNat = va.toNat + k := by
    rw [BitVec.toNat_add, BitVec.toNat_ofNat]
    omega
  rw [pageOf, pageOf, sum, PGSIZE]
  omega

theorem location_within {k : Nat} (inside : k < PGSIZE - va.toNat % PGSIZE) :
    location mem root (va + BitVec.ofNat 64 k) =
      (frameOf mem root va).map fun frame => (frame, va.toNat % PGSIZE + k) := by
  obtain ⟨page, offset⟩ := within_page inside
  rw [location, frameOf_page page, offset]

variable {frame : Word} {n : Nat}

theorem mapped_within (found : frameOf mem root va = some frame)
    (inside : n ≤ PGSIZE - va.toNat % PGSIZE) (k : Nat) (below : k < n) :
    (frameOf mem root (va + BitVec.ofNat 64 k)).isSome := by
  rw [frameOf_page (within_page (by omega)).1, found]
  rfl

/-- A round of a loop takes some bytes of one page, and leaves nothing or goes on with the
next page. -/
theorem chunk_cases {len : Word} (va : Word) (more : len ≠ 0) :
    0 < (chunk va (PGROUNDDOWN va) len).toNat ∧
      (chunk va (PGROUNDDOWN va) len).toNat ≤ PGSIZE - va.toNat % PGSIZE ∧
      ((chunk va (PGROUNDDOWN va) len).toNat = len.toNat ∧ len - chunk va (PGROUNDDOWN va) len = 0 ∨
        (chunk va (PGROUNDDOWN va) len).toNat < len.toNat ∧
          (len - chunk va (PGROUNDDOWN va) len).toNat =
            len.toNat - (chunk va (PGROUNDDOWN va) len).toNat ∧
          PGROUNDDOWN va + pageBytes =
            va + BitVec.ofNat 64 (chunk va (PGROUNDDOWN va) len).toNat) := by
  have positive : 0 < len.toNat := Nat.pos_of_ne_zero fun zero => more (BitVec.eq_of_toNat_eq zero)
  have size := chunk_toNat va len
  have offset : va.toNat % PGSIZE < PGSIZE := Nat.mod_lt _ (by decide)
  have down := PGROUNDDOWN_toNat va
  have page := pageBytes_toNat
  generalize chunk va (PGROUNDDOWN va) len = n at *
  refine ⟨by omega, by omega, ?_⟩
  by_cases whole : n.toNat = len.toNat
  · left
    rw [BitVec.eq_of_toNat_eq whole]
    exact ⟨rfl, BitVec.sub_self len⟩
  · right
    refine ⟨by omega, BitVec.toNat_sub_of_le (BitVec.le_def.mpr (by omega)), ?_⟩
    apply BitVec.eq_of_toNat_eq
    have bound := va.isLt
    rw [BitVec.toNat_add, BitVec.toNat_add, down, page, BitVec.toNat_ofNat,
      show n.toNat = PGSIZE - va.toNat % PGSIZE by omega, PGSIZE]
    omega

theorem frameOf_down (va : Word) : frameOf mem root (PGROUNDDOWN va) = frameOf mem root va := by
  apply frameOf_page
  rw [pageOf, pageOf, PGROUNDDOWN_toNat, PGSIZE]
  omega

/-! ## copyout -/

/-- The first `count` bytes of a range hold those of a buffer.  Where two addresses are one
place the later byte stays. -/
structure Copied (mem : Memory) (root va : Word) (src : Bytes) (count : Nat) (after : Memory) :
    Prop where
  written : ∀ k frame offset, k < count →
    location mem root (va + BitVec.ofNat 64 k) = some (frame, offset) →
    (∀ j, k < j → j < count → location mem root (va + BitVec.ofNat 64 j) ≠ some (frame, offset)) →
    after frame offset = src k
  untouched : ∀ frame offset,
    (∀ k, k < count → location mem root (va + BitVec.ofNat 64 k) ≠ some (frame, offset)) →
    after frame offset = mem frame offset

theorem Copied.chunk (src : Bytes) (start : Nat) (found : frameOf mem root va = some frame)
    (inside : n ≤ PGSIZE - va.toNat % PGSIZE) :
    Copied mem root va (fun k => src (start + k)) n
      (overwrite mem frame (blit (mem frame) (va.toNat % PGSIZE) src start n)) := by
  have placed : ∀ k, k < n → location mem root (va + BitVec.ofNat 64 k) =
      some (frame, va.toNat % PGSIZE + k) := fun k below => by
    rw [location_within (by omega), found, Option.map_some]
  constructor
  · intro k frame' offset below here _
    rw [placed k below] at here
    cases here
    rw [overwrite_self, blit, if_pos (by omega)]
    congr 2
    omega
  · intro frame' offset elsewhere
    by_cases same : frame' = frame
    · subst same
      rw [overwrite_self, blit, if_neg]
      rintro ⟨lower, upper⟩
      refine elsewhere (offset - va.toNat % PGSIZE) (by omega) ?_
      rw [placed _ (by omega)]
      congr 2
      omega
    · rw [overwrite_of_ne same]

theorem add_ofNat (va : Word) (m k : Nat) :
    va + BitVec.ofNat 64 m + BitVec.ofNat 64 k = va + BitVec.ofNat 64 (m + k) := by
  rw [BitVec.add_assoc, ← BitVec.ofNat_add]

variable {src : Bytes} {count : Nat}

theorem Copied.append {middle : Memory} (first : Copied mem root va src n middle)
    (same : ∀ va, location middle root va = location mem root va)
    (second : Copied middle root (va + BitVec.ofNat 64 n) (fun k => src (n + k)) count after) :
    Copied mem root va src (n + count) after := by
  have later : ∀ k, location middle root (va + BitVec.ofNat 64 n + BitVec.ofNat 64 k) =
      location mem root (va + BitVec.ofNat 64 (n + k)) := fun k => by
    rw [same, add_ofNat]
  constructor
  · intro k frame offset below here last
    by_cases early : k < n
    · rw [second.untouched frame offset fun j bound => ?_]
      · exact first.written k frame offset early here fun j after bound =>
          last j after (by omega)
      · rw [later]
        exact last (n + j) (by omega) (by omega)
    · obtain ⟨j, rfl⟩ := Nat.exists_eq_add_of_le (Nat.le_of_not_lt early)
      refine second.written j frame offset (by omega) (by rw [later, here]) fun j' after bound => ?_
      rw [later]
      exact last (n + j') (by omega) (by omega)
  · intro frame offset elsewhere
    rw [second.untouched frame offset fun j bound => ?_]
    · exact first.untouched frame offset fun k below => elsewhere k (by omega)
    · rw [later]
      exact elsewhere (n + j) (by omega)

/-- How far a copy of `len` bytes from `va` on gets. -/
structure Reach (mem : Memory) (root va : Word) (len count : Nat) : Prop where
  le : count ≤ len
  mapped : ∀ k, k < count → (frameOf mem root (va + BitVec.ofNat 64 k)).isSome
  stopped : count < len → frameOf mem root (va + BitVec.ofNat 64 count) = none

theorem Reach.append {len : Nat}
    (start : ∀ k, k < n → (frameOf mem root (va + BitVec.ofNat 64 k)).isSome) (fits : n ≤ len)
    (same : ∀ va, frameOf after root va = frameOf mem root va)
    (rest : Reach after root (va + BitVec.ofNat 64 n) (len - n) count) :
    Reach mem root va len (n + count) := by
  obtain ⟨le, mapped, stopped⟩ := rest
  refine ⟨by omega, fun k below => ?_, fun more => ?_⟩
  · by_cases early : k < n
    · exact start k early
    · obtain ⟨j, rfl⟩ := Nat.exists_eq_add_of_le (Nat.le_of_not_lt early)
      have := mapped j (by omega)
      rwa [same, add_ofNat] at this
  · have := stopped (by omega)
    rwa [same, add_ofNat] at this

theorem Reach.nil : Reach mem root va 0 0 :=
  ⟨Nat.le_refl 0, nofun, fun more => absurd more (Nat.lt_irrefl 0)⟩

theorem Reach.missing {len : Nat} (missing : frameOf mem root va = none) :
    Reach mem root va len 0 :=
  ⟨Nat.zero_le _, nofun, fun _ => by simpa using missing⟩

theorem Reach.all_iff {len : Nat} (reach : Reach mem root va len count) :
    count = len ↔ ∀ k, k < len → (frameOf mem root (va + BitVec.ofNat 64 k)).isSome := by
  constructor
  · rintro rfl
    exact reach.mapped
  · intro all
    refine Decidable.byContradiction fun less => ?_
    have few : count < len := Nat.lt_of_le_of_ne reach.le less
    have mapped := all count few
    rw [reach.stopped few] at mapped
    cases mapped

theorem Copied.nil : Copied mem root va src 0 mem :=
  ⟨fun k _ _ below => absurd below (Nat.not_lt_zero k), fun _ _ _ => rfl⟩

theorem Copied.congr {other : Bytes} (copied : Copied mem root va src count after)
    (same : ∀ k, k < count → other k = src k) : Copied mem root va other count after :=
  ⟨fun k frame offset below here last => (copied.written k frame offset below here last).trans
    (same k below).symm, copied.untouched⟩

theorem copyoutLoop_zero (rounds done : Nat) :
    copyoutLoop root src rounds mem va done 0 = .ok (0, mem) := by
  cases rounds <;> rfl

theorem copyoutLoop_spec (src : Bytes) (rounds : Nat) (va : Word) (done : Nat) (len : Word)
    (table : UserTable mem root) (enough : len.toNat ≤ rounds) :
    ∃ count after, copyoutLoop root src rounds mem va done len =
        .ok (if count = len.toNat then 0 else -1, after) ∧
      Reach mem root va len.toNat count ∧ Copied mem root va (fun k => src (done + k)) count after ∧
      ∀ table ∈ tables mem root, after table = mem table := by
  induction rounds generalizing mem va done len with
  | zero =>
    obtain rfl : len = 0 := BitVec.eq_of_toNat_eq (Nat.le_zero.mp enough)
    exact ⟨0, mem, copyoutLoop_zero .., .nil, .nil, fun _ _ => rfl⟩
  | succ rounds ih =>
    by_cases empty : len = 0
    · subst empty
      exact ⟨0, mem, copyoutLoop_zero .., .nil, .nil, fun _ _ => rfl⟩
    rw [copyoutLoop, if_neg empty]
    simp only [walkaddr_eq, frameOf_down, ok_bind]
    obtain ⟨some, inside, next⟩ := chunk_cases va empty
    cases found : frameOf mem root va with
    | none =>
      refine ⟨0, mem, ?_, .missing found, .nil, fun _ _ => rfl⟩
      rw [Option.getD_none, if_pos rfl, if_neg (by omega)]
    | some frame =>
      rw [Option.getD_some, if_neg (table.real va frame found), offset_toNat]
      generalize chunk va (PGROUNDDOWN va) len = n at *
      have start := mapped_within found inside
      have first := Copied.chunk src done found inside
      have kept : ∀ table ∈ tables mem root, overwrite mem frame
          (blit (mem frame) (va.toNat % PGSIZE) src done n.toNat) table = mem table :=
        fun other member =>
          overwrite_of_ne (ne_of_mem_of_not_mem member (table.apart va frame found))
      generalize overwrite mem frame _ = middle at *
      rcases next with ⟨whole, finished⟩ | ⟨more, rest, next⟩
      · rw [finished, copyoutLoop_zero]
        exact ⟨n.toNat, middle, by rw [if_pos whole], ⟨Nat.le_of_eq whole, start, by omega⟩, first,
          kept⟩
      · rw [next]
        obtain ⟨count, after, copied, reach, second, keptOn⟩ := ih (va + BitVec.ofNat 64 n.toNat)
          (done + n.toNat) (len - n) (table.congr kept) (by omega)
        rw [rest] at reach copied
        refine ⟨n.toNat + count, after, ?_, reach.append start (Nat.le_of_lt more)
          (frameOf_congr kept), ?_, ?_⟩
        · rw [copied]
          simp only [show count = len.toNat - n.toNat ↔ n.toNat + count = len.toNat by omega]
        · exact first.append (location_congr kept) (by simpa only [Nat.add_assoc] using second)
        · intro other member
          rw [keptOn other (by rw [tables_kept kept]; exact member), kept other member]

theorem copyout_spec (va : Word) (src : Bytes) (len : Word) (table : UserTable mem root) :
    ∃ count after, copyout mem root va src len = .ok (if count = len.toNat then 0 else -1, after) ∧
      Reach mem root va len.toNat count ∧ Copied mem root va src count after ∧
      ∀ table ∈ tables mem root, after table = mem table := by
  have copied := copyoutLoop_spec src len.toNat va 0 len table (Nat.le_refl _)
  simp only [Nat.zero_add] at copied
  exact copied

theorem copyout_within (src : Bytes) {len : Word} (table : UserTable mem root)
    (found : frameOf mem root va = some frame) (inside : va.toNat % PGSIZE + len.toNat ≤ PGSIZE) :
    copyout mem root va src len =
      .ok (0, overwrite mem frame (blit (mem frame) (va.toNat % PGSIZE) src 0 len.toNat)) := by
  obtain ⟨count, after, copied, reach, bytes, _⟩ := copyout_spec va src len table
  have short : len.toNat ≤ PGSIZE - va.toNat % PGSIZE := by omega
  have whole : count = len.toNat := reach.all_iff.mpr (mapped_within found short)
  rw [copied, if_pos whole]
  subst whole
  have once := Copied.chunk src 0 found short
  simp only [Nat.zero_add] at once
  congr 2
  funext other offset
  -- Inside the range no two addresses are one place.
  by_cases here : ∃ k, k < len.toNat ∧ location mem root (va + BitVec.ofNat 64 k) = some (other, offset)
  · obtain ⟨k, below, place⟩ := here
    have single : ∀ j, k < j → j < len.toNat →
        location mem root (va + BitVec.ofNat 64 j) ≠ some (other, offset) := by
      intro j later bound same
      rw [location_within (by omega), found] at place same
      cases place
      simp only [Option.map_some, Option.some.injEq, Prod.mk.injEq, true_and] at same
      omega
    rw [bytes.written k other offset below place single, once.written k other offset below place single]
  · have none : ∀ k, k < len.toNat →
        location mem root (va + BitVec.ofNat 64 k) ≠ some (other, offset) := fun k below same =>
      here ⟨k, below, same⟩
    rw [bytes.untouched other offset none, once.untouched other offset none]

/-! ## copyin -/

theorem blit_inside {target source : Bytes} {offset start index : Nat}
    (inside : offset ≤ index ∧ index < offset + n) :
    blit target offset source start n index = source (start + (index - offset)) := if_pos inside

theorem blit_outside {target source : Bytes} {offset start index : Nat}
    (outside : ¬(offset ≤ index ∧ index < offset + n)) :
    blit target offset source start n index = target index := if_neg outside

/-- The first `count` bytes of a range stand in a buffer from `done` on. -/
structure Fetched (mem : Memory) (root va : Word) (dst : Bytes) (done count : Nat) (dst' : Bytes) :
    Prop where
  read : ∀ k, k < count → userByte mem root (va + BitVec.ofNat 64 k) = some (dst' (done + k))
  untouched : ∀ index, ¬(done ≤ index ∧ index < done + count) → dst' index = dst index

variable {dst : Bytes} {done : Nat}

theorem Fetched.nil : Fetched mem root va dst done 0 dst :=
  ⟨fun k below => absurd below (Nat.not_lt_zero k), fun _ _ => rfl⟩

theorem userByte_within {k : Nat} (found : frameOf mem root va = some frame)
    (inside : k < PGSIZE - va.toNat % PGSIZE) :
    userByte mem root (va + BitVec.ofNat 64 k) = some (mem frame (va.toNat % PGSIZE + k)) := by
  rw [userByte, location_within inside, found]
  rfl

theorem Fetched.chunk (dst : Bytes) (done : Nat) (found : frameOf mem root va = some frame)
    (inside : n ≤ PGSIZE - va.toNat % PGSIZE) :
    Fetched mem root va dst done n (blit dst done (mem frame) (va.toNat % PGSIZE) n) := by
  constructor
  · intro k below
    rw [userByte_within found (by omega), blit_inside (by omega), Nat.add_sub_cancel_left]
  · exact fun index outside => blit_outside outside

variable {dst' : Bytes}

theorem Fetched.append {middle : Bytes} (first : Fetched mem root va dst done n middle)
    (second : Fetched mem root (va + BitVec.ofNat 64 n) middle (done + n) count dst') :
    Fetched mem root va dst done (n + count) dst' := by
  constructor
  · intro k below
    by_cases early : k < n
    · rw [first.read k early, second.untouched (done + k) (by omega)]
    · obtain ⟨j, rfl⟩ := Nat.exists_eq_add_of_le (Nat.le_of_not_lt early)
      have read := second.read j (by omega)
      rwa [add_ofNat, Nat.add_assoc] at read
  · intro index outside
    rw [second.untouched index (by omega), first.untouched index (by omega)]

theorem copyinLoop_zero (rounds done : Nat) :
    copyinLoop mem root rounds dst done va 0 = .ok (0, dst) := by
  cases rounds <;> rfl

theorem copyinLoop_spec (rounds : Nat) (dst : Bytes) (va : Word) (done : Nat) (len : Word)
    (table : UserTable mem root) (enough : len.toNat ≤ rounds) :
    ∃ count dst', copyinLoop mem root rounds dst done va len =
        .ok (if count = len.toNat then 0 else -1, dst') ∧
      Reach mem root va len.toNat count ∧ Fetched mem root va dst done count dst' := by
  induction rounds generalizing dst va done len with
  | zero =>
    obtain rfl : len = 0 := BitVec.eq_of_toNat_eq (Nat.le_zero.mp enough)
    exact ⟨0, dst, copyinLoop_zero .., .nil, .nil⟩
  | succ rounds ih =>
    by_cases empty : len = 0
    · subst empty
      exact ⟨0, dst, copyinLoop_zero .., .nil, .nil⟩
    rw [copyinLoop, if_neg empty]
    simp only [walkaddr_eq, frameOf_down, ok_bind]
    obtain ⟨some, inside, next⟩ := chunk_cases va empty
    cases found : frameOf mem root va with
    | none =>
      refine ⟨0, dst, ?_, .missing found, .nil⟩
      rw [Option.getD_none, if_pos rfl, if_neg (by omega)]
    | some frame =>
      rw [Option.getD_some, if_neg (table.real va frame found), offset_toNat]
      generalize chunk va (PGROUNDDOWN va) len = n at *
      have start := mapped_within found inside
      have first := Fetched.chunk dst done found inside
      rcases next with ⟨whole, finished⟩ | ⟨more, rest, next⟩
      · rw [finished, copyinLoop_zero]
        exact ⟨n.toNat, _, by rw [if_pos whole], ⟨Nat.le_of_eq whole, start, by omega⟩, first⟩
      · rw [next]
        obtain ⟨count, dst', copied, reach, second⟩ := ih
          (blit dst done (mem frame) (va.toNat % PGSIZE) n.toNat) (va + BitVec.ofNat 64 n.toNat)
          (done + n.toNat) (len - n) (by omega)
        rw [rest] at reach copied
        refine ⟨n.toNat + count, dst', ?_, reach.append start (Nat.le_of_lt more) fun _ => rfl,
          first.append second⟩
        rw [copied]
        simp only [show count = len.toNat - n.toNat ↔ n.toNat + count = len.toNat by omega]

theorem copyin_spec (va : Word) (dst : Bytes) (len : Word) (table : UserTable mem root) :
    ∃ count dst', copyin mem root dst va len = .ok (if count = len.toNat then 0 else -1, dst') ∧
      Reach mem root va len.toNat count ∧ Fetched mem root va dst 0 count dst' :=
  copyinLoop_spec len.toNat dst va 0 len table (Nat.le_refl _)

/-! ## copyinstr -/

theorem stringLoop_spec (page dst : Bytes) (n p done : Nat) :
    ∃ count dst', (∀ k, k < count → page (p + k) ≠ 0 ∧ dst' (done + k) = page (p + k)) ∧
      (stringLoop page n p dst done = (true, dst', done + count) ∧ count < n ∧ page (p + count) = 0 ∧
          dst' (done + count) = 0 ∧
          (∀ index, ¬(done ≤ index ∧ index ≤ done + count) → dst' index = dst index) ∨
        stringLoop page n p dst done = (false, dst', done + count) ∧ count = n ∧
          ∀ index, ¬(done ≤ index ∧ index < done + count) → dst' index = dst index) := by
  induction n generalizing p dst done with
  | zero => exact ⟨0, dst, nofun, .inr ⟨rfl, rfl, fun _ _ => rfl⟩⟩
  | succ n ih =>
    rw [stringLoop]
    by_cases nul : page p = 0
    · rw [if_pos nul]
      refine ⟨0, _, nofun, .inl ⟨rfl, Nat.succ_pos n, nul, overwrite_self .., fun index outside => ?_⟩⟩
      exact overwrite_of_ne (by omega)
    · rw [if_neg nul]
      obtain ⟨count, dst', stored, outcome⟩ := ih (overwrite dst done (page p)) (p + 1)
        (done + 1)
      have shift : ∀ base, base + 1 + count = base + (count + 1) := fun base => by omega
      rw [shift p, shift done] at outcome
      -- The byte just stored is not touched again.
      have here : dst' done = page p := by
        rcases outcome with ⟨_, _, _, _, untouched⟩ | ⟨_, _, untouched⟩ <;>
          rw [untouched done (by omega), overwrite_self]
      refine ⟨count + 1, dst', fun k below => ?_, ?_⟩
      · cases k with
        | zero => exact ⟨nul, here⟩
        | succ k =>
          have later := stored k (by omega)
          rwa [Nat.add_assoc, Nat.add_assoc, Nat.add_comm 1 k] at later
      · rcases outcome with ⟨looped, few, found, closed, untouched⟩ | ⟨looped, all, untouched⟩
        · refine .inl ⟨looped, by omega, found, closed, fun index outside => ?_⟩
          rw [untouched index (by omega), overwrite_of_ne (by omega)]
        · refine .inr ⟨looped, by omega, fun index outside => ?_⟩
          rw [untouched index (by omega), overwrite_of_ne (by omega)]

/-- The string of `count` bytes before a NUL, and how the copy of at most `max` ends. -/
structure Terminated (mem : Memory) (root va : Word) (dst : Bytes) (done max count : Nat)
    (result : Int) (dst' : Bytes) : Prop where
  string : ∀ k, k < count → userByte mem root (va + BitVec.ofNat 64 k) = some (dst' (done + k)) ∧
    dst' (done + k) ≠ 0
  outcome : result = 0 ∧ count < max ∧ userByte mem root (va + BitVec.ofNat 64 count) = some 0 ∧
      dst' (done + count) = 0 ∧
      (∀ index, ¬(done ≤ index ∧ index ≤ done + count) → dst' index = dst index) ∨
    result = -1 ∧ (count = max ∨ count < max ∧ userByte mem root (va + BitVec.ofNat 64 count) = none) ∧
      ∀ index, ¬(done ≤ index ∧ index < done + count) → dst' index = dst index

theorem Terminated.append {middle : Bytes} {max : Nat} {result : Int}
    (first : ∀ k, k < n → userByte mem root (va + BitVec.ofNat 64 k) = some (middle (done + k)) ∧
      middle (done + k) ≠ 0)
    (untouched : ∀ index, ¬(done ≤ index ∧ index < done + n) → middle index = dst index)
    (fits : n < max)
    (second : Terminated mem root (va + BitVec.ofNat 64 n) middle (done + n) (max - n) count result dst') :
    Terminated mem root va dst done max (n + count) result dst' := by
  obtain ⟨string, outcome⟩ := second
  have early : ∀ k, k < n → dst' (done + k) = middle (done + k) := by
    intro k below
    rcases outcome with ⟨_, _, _, _, kept⟩ | ⟨_, _, kept⟩ <;> exact kept _ (by omega)
  constructor
  · intro k below
    by_cases before : k < n
    · rw [early k before]
      exact first k before
    · obtain ⟨j, rfl⟩ := Nat.exists_eq_add_of_le (Nat.le_of_not_lt before)
      have later := string j (by omega)
      rwa [add_ofNat, Nat.add_assoc] at later
  · rw [add_ofNat, Nat.add_assoc] at outcome
    rcases outcome with ⟨rfl, few, found, closed, kept⟩ | ⟨rfl, ended, kept⟩
    · refine .inl ⟨rfl, by omega, found, closed, fun index outside => ?_⟩
      rw [kept index (by omega), untouched index (by omega)]
    · refine .inr ⟨rfl, ?_, fun index outside => ?_⟩
      · rcases ended with all | ⟨few, missing⟩
        · exact .inl (by omega)
        · exact .inr ⟨by omega, missing⟩
      · rw [kept index (by omega), untouched index (by omega)]

theorem copyinstrLoop_zero (rounds done : Nat) :
    copyinstrLoop mem root rounds dst done va 0 = .ok (-1, dst) := by
  cases rounds <;> rfl

theorem Terminated.nil : Terminated mem root va dst done 0 0 (-1) dst :=
  ⟨nofun, .inr ⟨rfl, .inl rfl, fun _ _ => rfl⟩⟩

theorem copyinstrLoop_spec (rounds : Nat) (dst : Bytes) (va : Word) (done : Nat) (max : Word)
    (table : UserTable mem root) (enough : max.toNat ≤ rounds) :
    ∃ count result dst', copyinstrLoop mem root rounds dst done va max = .ok (result, dst') ∧
      Terminated mem root va dst done max.toNat count result dst' := by
  induction rounds generalizing dst va done max with
  | zero =>
    obtain rfl : max = 0 := BitVec.eq_of_toNat_eq (Nat.le_zero.mp enough)
    exact ⟨0, -1, dst, copyinstrLoop_zero .., .nil⟩
  | succ rounds ih =>
    by_cases empty : max = 0
    · subst empty
      exact ⟨0, -1, dst, copyinstrLoop_zero .., .nil⟩
    rw [copyinstrLoop, if_neg empty]
    simp only [walkaddr_eq, frameOf_down, ok_bind]
    obtain ⟨some, inside, next⟩ := chunk_cases va empty
    cases found : frameOf mem root va with
    | none =>
      rw [Option.getD_none, if_pos rfl]
      refine ⟨0, -1, dst, rfl, nofun, .inr ⟨rfl, .inr ⟨by omega, ?_⟩, fun _ _ => rfl⟩⟩
      rw [BitVec.add_zero, userByte, location, found]
      rfl
    | some frame =>
      rw [Option.getD_some, if_neg (table.real va frame found), offset_toNat]
      generalize chunk va (PGROUNDDOWN va) max = n at *
      obtain ⟨count, middle, stored, outcome⟩ := stringLoop_spec (mem frame) dst n.toNat
        (va.toNat % PGSIZE) done
      have few : count ≤ n.toNat := by
        rcases outcome with ⟨_, few, _⟩ | ⟨_, all, _⟩ <;> omega
      have string : ∀ k, k < count → userByte mem root (va + BitVec.ofNat 64 k) =
          Option.some (middle (done + k)) ∧ middle (done + k) ≠ 0 := by
        intro k below
        obtain ⟨nonzero, same⟩ := stored k below
        rw [userByte_within found (by omega), same]
        exact ⟨rfl, nonzero⟩
      rcases outcome with ⟨looped, less, nul, closed, kept⟩ | ⟨looped, all, kept⟩
      · rw [looped]
        refine ⟨count, 0, middle, rfl, string, .inl ⟨rfl, ?_, ?_, closed, kept⟩⟩
        · rcases next with ⟨whole, _⟩ | ⟨more, _⟩ <;> omega
        · rw [userByte_within found (by omega), nul]
      · rw [looped]
        subst all
        simp only [Bool.false_eq_true, if_false, Nat.add_sub_cancel_left, BitVec.ofNat_toNat,
          BitVec.setWidth_eq]
        rcases next with ⟨whole, finished⟩ | ⟨more, rest, next⟩
        · rw [finished, copyinstrLoop_zero]
          exact ⟨n.toNat, -1, middle, rfl, string, .inr ⟨rfl, .inl whole, kept⟩⟩
        · rw [next]
          obtain ⟨count, result, dst', copied, terminated⟩ := ih middle
            (va + BitVec.ofNat 64 n.toNat) (done + n.toNat) (max - n) (by omega)
          rw [rest] at terminated
          exact ⟨n.toNat + count, result, dst', copied, .append string kept more terminated⟩

theorem copyinstr_spec (va : Word) (dst : Bytes) (max : Word) (table : UserTable mem root) :
    ∃ count result dst', copyinstr mem root dst va max = .ok (result, dst') ∧
      Terminated mem root va dst 0 max.toNat count result dst' :=
  copyinstrLoop_spec max.toNat dst va 0 max table (Nat.le_refl _)

/-! ## All three -/

/-- What `copyout` and `copyin` return says how far they got. -/
theorem Reach.outcome {len : Nat} (reach : Reach mem root va len count) :
    ∃ result : Int, (if count = len then 0 else -1) = result ∧
      (result = 0 ↔ ∀ k, k < len → (frameOf mem root (va + BitVec.ofNat 64 k)).isSome) ∧
      (result = 0 ∧ count = len ∨ result = -1 ∧ count < len) := by
  have le := reach.le
  refine ⟨_, rfl, ?_, ?_⟩
  · rw [← reach.all_iff]
    simp
  · split <;> simp <;> omega

theorem Terminated.zero_iff {max : Nat} {result : Int}
    (terminated : Terminated mem root va dst 0 max count result dst') :
    result = 0 ↔ ∃ k, k < max ∧ userByte mem root (va + BitVec.ofNat 64 k) = some 0 ∧
      ∀ j, j < k → (userByte mem root (va + BitVec.ofNat 64 j)).isSome := by
  obtain ⟨string, ⟨zero, few, nul, _⟩ | ⟨failed, ended, _⟩⟩ := terminated
  · refine ⟨fun _ => ⟨count, few, nul, fun j below => ?_⟩, fun _ => zero⟩
    rw [(string j below).1]
    rfl
  · refine ⟨fun zero => absurd (failed.symm.trans zero) (by decide), ?_⟩
    rintro ⟨k, below, nul, mapped⟩
    -- The NUL would stand among bytes that are not zero, or behind a page that is missing.
    by_cases before : k < count
    · obtain ⟨same, nonzero⟩ := string k before
      rw [nul, Option.some.injEq] at same
      exact absurd same.symm nonzero
    · rcases ended with rfl | ⟨_, missing⟩
      · exact absurd below before
      · by_cases here : k = count
        · rw [here, missing] at nul
          cases nul
        · have present := mapped count (by omega)
          rw [missing] at present
          cases present

/-- On every page table with its user pages in frames of their own, for every address and
length: the copies return zero when the whole range is mapped for the user, else stop at
the first page that is not, and touch nothing but the bytes they copied. -/
theorem user_copies_exact (table : UserTable mem root) (va : Word) :
    (∀ (src : Bytes) (len : Word), ∃ result count after,
      copyout mem root va src len = .ok (result, after) ∧
      (result = 0 ↔ ∀ k, k < len.toNat → (frameOf mem root (va + BitVec.ofNat 64 k)).isSome) ∧
      (result = 0 ∧ count = len.toNat ∨ result = -1 ∧ count < len.toNat) ∧
      Reach mem root va len.toNat count ∧ Copied mem root va src count after) ∧
    (∀ (dst : Bytes) (len : Word), ∃ result count dst',
      copyin mem root dst va len = .ok (result, dst') ∧
      (result = 0 ↔ ∀ k, k < len.toNat → (frameOf mem root (va + BitVec.ofNat 64 k)).isSome) ∧
      (result = 0 ∧ count = len.toNat ∨ result = -1 ∧ count < len.toNat) ∧
      Reach mem root va len.toNat count ∧
      (∀ k, k < count → userByte mem root (va + BitVec.ofNat 64 k) = some (dst' k)) ∧
      ∀ index, count ≤ index → dst' index = dst index) ∧
    ∀ (dst : Bytes) (max : Word), ∃ result dst',
      copyinstr mem root dst va max = .ok (result, dst') ∧
      (result = 0 ↔ ∃ k, k < max.toNat ∧ userByte mem root (va + BitVec.ofNat 64 k) = some 0 ∧
        ∀ j, j < k → (userByte mem root (va + BitVec.ofNat 64 j)).isSome) ∧
      (result = 0 ∨ result = -1) ∧
      (result = 0 → ∃ count, count < max.toNat ∧
        (∀ k, k < count → userByte mem root (va + BitVec.ofNat 64 k) = some (dst' k) ∧ dst' k ≠ 0) ∧
        userByte mem root (va + BitVec.ofNat 64 count) = some 0 ∧ dst' count = 0 ∧
        ∀ index, count < index → dst' index = dst index) ∧
      ∀ index, max.toNat ≤ index → dst' index = dst index := by
  refine ⟨fun src len => ?_, fun dst len => ?_, fun dst max => ?_⟩
  · obtain ⟨count, after, copied, reach, exactly, _⟩ := copyout_spec va src len table
    obtain ⟨result, returned, zero, ended⟩ := reach.outcome
    exact ⟨result, count, after, returned ▸ copied, zero, ended, reach, exactly⟩
  · obtain ⟨count, dst', copied, reach, fetched⟩ := copyin_spec va dst len table
    obtain ⟨result, returned, zero, ended⟩ := reach.outcome
    have read : ∀ k, k < count → userByte mem root (va + BitVec.ofNat 64 k) = some (dst' k) :=
      fun k below => by simpa using fetched.read k below
    have kept : ∀ index, count ≤ index → dst' index = dst index :=
      fun index outside => fetched.untouched index (by omega)
    exact ⟨result, count, dst', returned ▸ copied, zero, ended, reach, read, kept⟩
  · obtain ⟨count, result, dst', copied, terminated⟩ := copyinstr_spec va dst max table
    refine ⟨result, dst', copied, terminated.zero_iff, ?_⟩
    obtain ⟨string, outcome⟩ := terminated
    simp only [Nat.zero_add] at string outcome
    rcases outcome with ⟨rfl, few, nul, closed, kept⟩ | ⟨rfl, ended, kept⟩
    · refine ⟨.inl rfl, fun _ => ⟨count, few, string, nul, closed, fun index outside => ?_⟩,
        fun index outside => ?_⟩
      · exact kept index (by omega)
      · exact kept index (by omega)
    · refine ⟨.inr rfl, fun zero => absurd zero (by decide), fun index outside => kept index ?_⟩
      rcases ended with rfl | ⟨few, _⟩ <;> omega

/-! One user page at `0x1000`. -/

theorem sampleMapped : ∃ after, (mappages 0x80020000 0x1000 0x1000 0x80030000 22 samplePhys =
    .ok (0, after)) ∧ UserTable after.mem 0x80020000 ∧
    frameOf after.mem 0x80020000 0x1FFF = some 0x80030000 ∧
    frameOf after.mem 0x80020000 0x2000 = none := by
  have vacant : ∀ page, pageOf 0x1000 ≤ page → page ≤ pageOf (0x1000 + 0x1000 - 1) →
      valid (entry samplePhys.mem 0x80020000 page) = false := fun page _ _ => by
    rw [entry_fresh samplePhys_fresh]
    rfl
  obtain ⟨after, free', count, outcome, mapped⟩ := mappages_spec 0x80030000 22
    (by decide) (by decide) (Tree.fresh samplePhys_fresh) samplePhys_owned vacant
  have returned : (mappages 0x80020000 0x1000 0x1000 0x80030000 22 samplePhys).map Prod.fst = .ok 0 := by
    decide +kernel
  rcases outcome with ⟨stopped, _⟩ | ⟨done, rfl⟩
  · rw [stopped] at returned
    cases returned
  · have frames : ∀ va frame, frameOf after.mem 0x80020000 va = some frame → frame = 0x80030000 := by
      intro va frame found
      rw [frameOf, Option.ite_none_right_eq_some, Option.some.injEq] at found
      obtain ⟨⟨inside, user⟩, rfl⟩ := found
      have bound : pageOf va < PAGES := by
        rw [BitVec.lt_def, MAXVA_toNat] at inside
        rw [pageOf, PAGES, PGSIZE]
        omega
      rw [mapped.entries _ bound, entry_fresh samplePhys_fresh] at user ⊢
      split at user
      · rename_i here
        rw [if_pos here]
        have only : pageOf va = 1 := by
          have first : pageOf 0x1000 = 1 := by decide
          have last : pageOf (0x1000 + 0x1000 - 1) = 1 := by decide
          omega
        rw [only]
        decide
      · cases user
    refine ⟨after, done, ⟨?_, ?_⟩, ?_, ?_⟩
    · intro va frame found
      rw [frames va frame found]
      decide
    · intro va frame found member
      rw [frames va frame found] at member
      have listed := mapped.change.conserved.mem_iff.mp (List.mem_append_left _ member)
      rw [tables_fresh samplePhys_fresh] at listed
      exact absurd listed (by decide)
    · rw [frameOf, mapped.entries _ (by decide)]
      rfl
    · rw [frameOf, mapped.entries _ (by decide), entry_fresh samplePhys_fresh]
      rfl

/-- Two bytes across the end of the mapped page: one is copied. -/
theorem user_copies_exact_page_end : ∃ after, UserTable after 0x80020000 ∧
    (∃ last, copyout after 0x80020000 0x1FFF (fun _ => 7) 2 = .ok (-1, last)) := by
  obtain ⟨after, _, table, here, beyond⟩ := sampleMapped
  obtain ⟨outs, _, _⟩ := user_copies_exact table 0x1FFF
  obtain ⟨result, count, last, copied, zero, ended, _, _⟩ := outs (fun _ => 7) 2
  refine ⟨after.mem, table, last, ?_⟩
  rcases ended with ⟨rfl, _⟩ | ⟨rfl, _⟩
  · have mapped := zero.mp rfl 1 (by decide)
    rw [show (0x1FFF : Word) + BitVec.ofNat 64 1 = 0x2000 by decide, beyond] at mapped
    cases mapped
  · exact copied

end Xv6.Vm
