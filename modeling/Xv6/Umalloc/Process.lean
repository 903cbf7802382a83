import Xv6.Kernel.Grow
import Xv6.Umalloc.Allocate

namespace Xv6.Umalloc

open Xv6.Data Xv6.Kernel Xv6.Vm

/-! # malloc over the kernel

`malloc` in a process whose `sbrk` is the system call.  What `growproc` does to the memory of
the process is the subject of `growproc_reports`; here the break counts.
-/

/-- `sbrk` of a process; it does not return when the kernel panics. -/
def sbrk (layout : Layout) (world : Proc × Phys) (n : BitVec 32) : Option (Nat × Proc × Phys) :=
  match sysSbrk layout n world.1 world.2 with
  | .ok (addr, proc, phys) => some (addr.toNat, proc, phys)
  | .error _ => none

def breakOf (world : Proc × Phys) : Nat := world.1.sz.toNat

variable {layout : Layout} {phys : Phys} {proc : Proc} {free : List Word} {bytes : Nat}

theorem sbrk_answers {n : BitVec 32} {result : Int} {proc' : Proc} {after : Phys}
    (small : proc.sz.toNat ≤ 2 ^ 27) (done : growproc layout n proc phys = .ok (result, proc', after)) :
    sbrk layout (proc, phys) n = some (if result < 0 then failed else proc.sz.toNat, proc', after) := by
  have address : ((proc.sz.setWidth 32).signExtend 64 : Word).toNat = proc.sz.toNat := by
    have positive : (proc.sz.setWidth 32).msb = false := by
      rw [BitVec.msb_eq_false_iff_two_mul_lt, BitVec.toNat_setWidth]
      omega
    rw [BitVec.signExtend_eq_setWidth_of_msb_false positive, uint_size small]
  simp only [sbrk, sysSbrk, done, ok_bind]
  by_cases refused : result < 0
  · rw [if_pos refused, if_pos refused]
    rfl
  · rw [if_neg refused, if_neg refused]
    simp only [address]

theorem sbrk_process (image : Image layout phys.mem proc)
    (owned : Owned layout phys (userPages phys.mem proc) free) (fits : bytes < 2 ^ 31) :
    Grants (sbrk layout) breakOf (proc, phys) bytes := by
  have small := size_small owned
  have value : (BitVec.ofNat 32 bytes).toInt = bytes := by
    rw [BitVec.toInt_eq_toNat_cond, BitVec.toNat_ofNat, Nat.mod_eq_of_lt (by omega), if_pos (by omega)]
  obtain ⟨after, _, ⟨sz, _, grown, sum, _⟩ | ⟨refused, _⟩⟩ :=
    @growproc_spec layout phys proc free (BitVec.ofNat 32 bytes) image owned (by omega)
  · refine ⟨({ proc with sz }, after), .inr ⟨sbrk_answers small grown, ?_, ?_⟩⟩
    · show sz.toNat = proc.sz.toNat + bytes
      omega
    · show proc.sz.toNat + bytes < failed
      rw [failed]
      omega
  · exact ⟨(proc, after), .inl ⟨sbrk_answers small refused, rfl⟩⟩

/-- `malloc` returns nothing, or a block between the start of the heap and the break, and the
break does not move down. -/
def WithinBreak (layout : Layout) (base start : Nat) (heap : Heap) (proc : Proc) (phys : Phys)
    (nbytes : Nat) : Prop :=
  ∃ ap heap' proc' phys',
    malloc (sbrk layout) base heap (proc, phys) proc.sz.toNat nbytes = some (ap, heap', proc', phys') ∧
    proc.sz.toNat ≤ proc'.sz.toNat ∧ (ap = 0 ∨ start ≤ ap ∧ ap + nbytes ≤ proc'.sz.toNat)

section

variable {base start nbytes : Nat} {heap : Heap} {regions : List Region}

theorem malloc_granted (owned : Owned layout phys (userPages phys.mem proc) free)
    (ready : Ready base heap start regions) (ends : start + extent regions = proc.sz.toNat)
    (fits : nbytes < 2 ^ 32)
    (grants : Grants (sbrk layout) breakOf (proc, phys) (HEADER * max (unitsFor nbytes) 4096)) :
    WithinBreak layout base start heap proc phys nbytes := by
  have small := size_small owned
  have few : extent regions + HEADER * max (unitsFor nbytes) 4096 < HEADER * 2 ^ 32 := by
    rw [unitsFor, HEADER]
    omega
  have whole : breakOf (proc, phys) = start + extent regions := ends.symm
  obtain ⟨ap, heap', ⟨proc', phys'⟩, regions', ran, allocated⟩ :=
    malloc_spec ready fits whole few grants (ready.rounds ends)
  have grown := allocated.grown
  have after : proc'.sz.toNat = start + extent regions' := allocated.ends
  refine ⟨ap, heap', proc', phys', ran, by omega, ?_⟩
  rcases allocated.result with ⟨zero, _⟩ | ⟨a, units, rfl, usable, perm⟩
  · exact .inl zero
  · have bounds := lives_bounds (perm.mem_iff.mpr List.mem_cons_self)
    exact .inr (by omega)

/-! ## Requests that do not fit -/

/-- `malloc` does the same for two breaks whose `sbrk` gives the same answers. -/
theorem mallocLoop_simulates {World Ghost : Type} {sbrk : World → BitVec 32 → Option (Nat × World)}
    {ghost : Ghost → BitVec 32 → Option (Nat × Ghost)} {relates : World → Ghost → Prop} {n ap : Nat}
    (answers : ∀ world before k answer after, relates world before →
      ghost before k = some (answer, after) →
      ∃ world', sbrk world k = some (answer, world') ∧ relates world' after)
    {fuel prevp p : Nat} {heap heap' : Heap} {world : World} {before after : Ghost}
    (related : relates world before)
    (ran : mallocLoop ghost n fuel heap before prevp p = some (ap, heap', after)) :
    ∃ world', mallocLoop sbrk n fuel heap world prevp p = some (ap, heap', world') ∧
      relates world' after := by
  induction fuel generalizing heap prevp p world before with
  | zero => cases ran
  | succ fuel ih =>
    rw [mallocLoop] at ran ⊢
    split at ran
    · rename_i large
      cases ran
      exact ⟨world, if_pos large, related⟩
    rename_i small
    rw [if_neg small]
    split at ran
    · rename_i round
      obtain ⟨⟨q, middle, between⟩, more, ran⟩ := Option.bind_eq_some_iff.mp ran
      rw [morecore] at more
      obtain ⟨⟨answer, later⟩, asked, more⟩ := Option.bind_eq_some_iff.mp more
      obtain ⟨world', same, still⟩ := answers world before _ answer later related asked
      rw [if_pos round, morecore]
      simp only [Option.bind_eq_bind, same, Option.bind_some]
      dsimp only at more
      by_cases refused : answer = failed
      · rw [if_pos refused] at more
        cases more
        cases ran
        exact ⟨world', by rw [if_pos refused]; rfl, still⟩
      · rw [if_neg refused] at more
        obtain ⟨freed, released, more⟩ := Option.bind_eq_some_iff.mp more
        cases more
        rw [if_neg refused, released]
        simp only [Option.bind_some]
        dsimp only at ran
        by_cases none : middle.freep = 0
        · rw [if_pos none] at ran
          cases ran
          exact ⟨world', if_pos none, still⟩
        · rw [if_neg none] at ran ⊢
          exact ih still ran
    · rename_i further
      rw [if_neg further]
      exact ih related ran

/-- An `sbrk` that succeeds makes `malloc` return a block, wherever the break is. -/
theorem malloc_believes {proc' : Proc} {after : Phys}
    (owned : Owned layout phys (userPages phys.mem proc) free)
    (ready : Ready base heap start regions) (ends : start + extent regions = proc.sz.toNat)
    (fits : nbytes < 2 ^ 32)
    (answer : sbrk layout (proc, phys) (BitVec.ofNat 32 (HEADER * max (unitsFor nbytes) 4096)) =
      some (proc.sz.toNat, proc', after)) :
    ∃ ap heap' world, ap ≠ 0 ∧ (world = (proc, phys) ∨ world = (proc', after)) ∧
      malloc (sbrk layout) base heap (proc, phys) proc.sz.toNat nbytes = some (ap, heap', world) := by
  have small := size_small owned
  -- The allocator believes in a break that moves, once.
  let request := HEADER * max (unitsFor nbytes) 4096
  let ghost : Nat → BitVec 32 → Option (Nat × Nat) := fun brk k =>
    if brk = proc.sz.toNat ∧ k = BitVec.ofNat 32 request then some (brk, brk + request) else none
  have positive : 0 < request := by
    simp only [request, HEADER]
    omega
  have bound : request < 2 ^ 33 := by
    simp only [request, HEADER, unitsFor]
    omega
  have granted : ghost proc.sz.toNat (BitVec.ofNat 32 request) =
      some (proc.sz.toNat, proc.sz.toNat + request) := if_pos ⟨rfl, rfl⟩
  have few : extent regions + request < HEADER * 2 ^ 32 := by
    rw [HEADER]
    omega
  obtain ⟨ap, heap', last, regions', ran, allocated⟩ :=
    @malloc_spec heap base start _ regions Nat ghost proc.sz.toNat id nbytes ready fits ends.symm few
      ⟨_, .inr ⟨granted, rfl, by rw [id, failed]; omega⟩⟩ (ready.rounds ends)
  have nonzero : ap ≠ 0 := by
    rcases allocated.result with ⟨_, _, k, refused⟩ | ⟨a, units, rfl, _⟩
    · simp only [ghost] at refused
      split at refused
      · have answered := (Prod.mk.inj (Option.some.inj refused)).1
        rw [failed] at answered
        omega
      · cases refused
    · rw [HEADER]
      omega
  have answers : ∀ (world : Proc × Phys) before k found later,
      (world = (proc, phys) ∨ world = (proc', after)) ∧
        (before = proc.sz.toNat → world = (proc, phys)) →
      ghost before k = some (found, later) →
      ∃ world', sbrk layout world k = some (found, world') ∧
        (world' = (proc, phys) ∨ world' = (proc', after)) ∧
          (later = proc.sz.toNat → world' = (proc, phys)) := by
    rintro world before k found later ⟨_, still⟩ asked
    simp only [ghost] at asked
    split at asked
    · rename_i once
      obtain ⟨rfl, rfl⟩ := once
      cases asked
      rw [still rfl]
      exact ⟨_, answer, .inr rfl, fun same => by omega⟩
    · cases asked
  rw [malloc] at ran
  obtain ⟨world, same, stays, _⟩ := mallocLoop_simulates answers ⟨.inl rfl, fun _ => rfl⟩ ran
  exact ⟨ap, heap', world, nonzero, stays, same⟩

/-- `growproc` fails only when it is to grow the process. -/
theorem growproc_cases (image : Image layout phys.mem proc)
    (owned : Owned layout phys (userPages phys.mem proc) free) (n : BitVec 32) :
    ∃ proc' after, (growproc layout n proc phys = .ok (0, proc', after) ∧
        (proc'.sz.toNat : Int) ≤ proc.sz.toNat + max n.toInt 0) ∨
      growproc layout n proc phys = .ok (-1, proc, after) ∧ 0 < n.toInt := by
  by_cases within : 0 ≤ (proc.sz.toNat : Int) + n.toInt
  · obtain ⟨after, _, ⟨sz, _, grown, sum, _⟩ | ⟨refused, positive, _⟩⟩ := growproc_spec image owned within
    · exact ⟨{ proc with sz }, after, .inl ⟨grown, by dsimp only; omega⟩⟩
    · exact ⟨proc, after, .inr ⟨refused, positive⟩⟩
  · exact ⟨proc, phys, .inl ⟨growproc_below owned n (by omega), by omega⟩⟩

/-- The bytes that `malloc` asks for do not fit the `int` of `sbrk`: it asks for 16 bytes, or
for a number that is not positive. -/
theorem request_wraps (fits : nbytes < 2 ^ 32)
    (large : 2 ^ 31 ≤ HEADER * max (unitsFor nbytes) 4096) :
    2 ^ 31 - 32 < nbytes ∧
      (0xFFFFFFF1 ≤ nbytes ∧ BitVec.ofNat 32 (HEADER * max (unitsFor nbytes) 4096) = 16 ∨
        nbytes < 0xFFFFFFF1 ∧
          (BitVec.ofNat 32 (HEADER * max (unitsFor nbytes) 4096)).toInt ≤ 0) := by
  have units : unitsFor nbytes = (nbytes + 15) / 16 + 1 := by
    rw [unitsFor, HEADER, Nat.mod_eq_of_lt (by omega)]
    omega
  rw [units, HEADER] at large ⊢
  refine ⟨by omega, ?_⟩
  rcases Nat.lt_or_ge nbytes 0xFFFFFFF1 with below | above
  · refine .inr ⟨below, ?_⟩
    rw [BitVec.toInt_eq_toNat_cond, BitVec.toNat_ofNat]
    split <;> omega
  · have whole : (nbytes + 15) / 16 = 2 ^ 28 := by omega
    rw [whole]
    exact .inl ⟨above, by decide⟩

end

/-- For every heap of a process that ends at its break: `malloc` stays below the break exactly
if the request fits the `int` of `sbrk`, or becomes one for 16 bytes that the kernel refuses. -/
theorem malloc_below_break (image : Image layout phys.mem proc)
    (owned : Owned layout phys (userPages phys.mem proc) free) {base start : Nat} {heap : Heap}
    {regions : List Region} (ready : Ready base heap start regions)
    (ends : start + extent regions = proc.sz.toNat) (nbytes : BitVec 32) :
    WithinBreak layout base start heap proc phys nbytes.toNat ↔
      HEADER * max (unitsFor nbytes.toNat) 4096 < 2 ^ 31 ∨
      0xFFFFFFF1 ≤ nbytes.toNat ∧ ∃ after, growproc layout 16 proc phys = .ok (-1, proc, after) := by
  have small := size_small owned
  constructor
  · rintro ⟨ap, heap', proc', phys', ran, _, inside⟩
    by_contra outside
    rw [not_or, not_and] at outside
    obtain ⟨large, accepted⟩ := outside
    obtain ⟨many, request⟩ := request_wraps nbytes.isLt (Nat.le_of_not_lt large)
    -- `sbrk` succeeds, so `malloc` returns a block; but the process is smaller than the block.
    obtain ⟨next, after, grown⟩ : ∃ next after, growproc layout
        (BitVec.ofNat 32 (HEADER * max (unitsFor nbytes.toNat) 4096)) proc phys =
          .ok (0, next, after) ∧ next.sz.toNat ≤ proc.sz.toNat + 16 := by
      obtain ⟨next, after, ⟨grown, size⟩ | ⟨refused, positive⟩⟩ := growproc_cases image owned
        (BitVec.ofNat 32 (HEADER * max (unitsFor nbytes.toNat) 4096))
      · refine ⟨next, after, grown, ?_⟩
        rcases request with ⟨_, sixteen⟩ | ⟨_, nonpositive⟩
        · rw [sixteen, show (16 : BitVec 32).toInt = 16 by decide] at size
          omega
        · omega
      · rcases request with ⟨above, sixteen⟩ | ⟨_, nonpositive⟩
        · rw [sixteen] at refused
          exact absurd ⟨after, refused⟩ (accepted above)
        · omega
    obtain ⟨block, heap'', world, nonzero, stays, same⟩ :=
      malloc_believes owned ready ends nbytes.isLt (sbrk_answers small grown.1)
    rw [ran] at same
    cases same
    have size : proc'.sz.toNat ≤ proc.sz.toNat + 16 := by
      rcases stays with here | moved
      · cases here
        omega
      · cases moved
        exact grown.2
    omega
  · rintro (fits | ⟨above, after, refused⟩)
    · exact malloc_granted owned ready ends nbytes.isLt (sbrk_process image owned fits)
    · refine malloc_granted owned ready ends nbytes.isLt ⟨(proc, after), .inl ⟨?_, rfl⟩⟩
      have sixteen : BitVec.ofNat 32 (HEADER * max (unitsFor nbytes.toNat) 4096) = 16 := by
        have bound := nbytes.isLt
        rcases request_wraps bound (by rw [unitsFor, HEADER]; omega) with ⟨_, ⟨_, same⟩ | ⟨below, _⟩⟩
        · exact same
        · omega
      rw [sixteen]
      exact sbrk_answers small refused

/-- A process with an empty heap from 4096 on gets its first block. -/
theorem malloc_below_break_first : ∃ phys free,
    Image sampleLayout phys.mem (sampleProc 0x80028000 0x1000) ∧
    Owned sampleLayout phys (userPages phys.mem (sampleProc 0x80028000 0x1000)) free ∧
    ∃ ap heap' proc' phys', malloc (sbrk sampleLayout) 16 ⟨fun _ => 0, 0⟩
        (sampleProc 0x80028000 0x1000, phys) 4096 100 = some (ap, heap', proc', phys') ∧
      (ap = 0 ∨ 4096 ≤ ap ∧ ap + 100 ≤ proc'.sz.toNat) := by
  obtain ⟨phys, free, image, owned⟩ := sample_image
  have fresh : Fresh 16 ⟨fun _ => 0, 0⟩ 4096 [] := ⟨rfl, by decide, by decide, nofun, by decide, by decide⟩
  obtain ⟨ap, heap', proc', phys', ran, _, block⟩ :=
    (malloc_below_break image owned (.inl fresh) rfl 100).mpr (.inl (by decide))
  exact ⟨phys, free, image, owned, ap, heap', proc', phys', ran, block⟩

/-- `malloc(0xFFFFFFF0)` asks `sbrk` for nothing, and returns a block above the break. -/
theorem malloc_above_break : ∃ phys free,
    Image sampleLayout phys.mem (sampleProc 0x80028000 0xFF0) ∧
    Owned sampleLayout phys (userPages phys.mem (sampleProc 0x80028000 0xFF0)) free ∧
    Fresh 16 ⟨fun _ => 0, 0⟩ 4080 [] ∧
    ∃ heap', malloc (sbrk sampleLayout) 16 ⟨fun _ => 0, 0⟩ (sampleProc 0x80028000 0xFF0, phys) 4080 0xFFFFFFF0 =
      some (4096, heap', sampleProc 0x80028000 0xFF0, phys) := by
  obtain ⟨phys, free, image, owned⟩ := sample_image
  have ran : (malloc (fun (_ : Unit) k => if k = 0 then some (4080, ()) else none) 16 ⟨fun _ => 0, 0⟩ () 4080
      0xFFFFFFF0).map Prod.fst = some 4096 := by decide +kernel
  refine ⟨phys, free, image, owned, ⟨rfl, by decide, by decide, nofun, by decide, by decide⟩, ?_⟩
  obtain ⟨⟨ap, heap', _⟩, returned, rfl⟩ := Option.map_eq_some_iff.mp ran
  rw [malloc] at returned
  have answers : ∀ (world : Proc × Phys) (_ : Unit) k answer (after : Unit),
      world = (sampleProc 0x80028000 0xFF0, phys) →
      (if k = 0 then some (4080, ()) else none) = some (answer, after) →
      ∃ world', sbrk sampleLayout world k = some (answer, world') ∧
        world' = (sampleProc 0x80028000 0xFF0, phys) := by
    rintro world _ k answer after rfl asked
    split at asked
    · rename_i zero
      cases asked
      rw [zero]
      exact ⟨_, rfl, rfl⟩
    · cases asked
  obtain ⟨_, same, rfl⟩ := mallocLoop_simulates answers rfl returned
  exact ⟨heap', same⟩

end Xv6.Umalloc
