import Xv6.Read.Fileread

namespace Xv6.Read

open Xv6.Data Xv6.Vm
open Xv6.Ipc (Pipe)

attribute [local irreducible] tables

/-! # What piperead takes and what it stores -/

/-- The bytes stand in user memory from `addr` on, and nothing else has changed. -/
structure Delivered (mem : Memory) (root addr : Word) (bytes : List UInt8) (after : Memory) : Prop where
  copied : Copied mem root addr (bytes.getD · 0) bytes.length after
  tables : ∀ table ∈ tables mem root, after table = mem table

/-- Where `copyout` can write. -/
def reachable (mem : Memory) (root addr : Word) (index : Nat) : Bool :=
  (frameOf mem root (addr + BitVec.ofNat 64 index)).isSome

section

variable {mem after : Memory} {root addr : Word} {bytes : List UInt8}

theorem Delivered.nil : Delivered mem root addr [] mem := ⟨.nil, fun _ _ => rfl⟩

theorem Delivered.append {middle : Memory} {more : List UInt8}
    (first : Delivered mem root addr bytes middle)
    (second : Delivered middle root (addr + BitVec.ofNat 64 bytes.length) more after) :
    Delivered mem root addr (bytes ++ more) after := by
  constructor
  · rw [List.length_append]
    refine Copied.append ?_ (location_congr first.tables) ?_
    · exact first.copied.congr fun k below => by
        rw [List.getD_append _ _ _ _ below]
    · exact second.copied.congr fun k _ => by
        rw [List.getD_append_right _ _ _ _ (Nat.le_add_right ..), Nat.add_sub_cancel_left]
  · intro table member
    rw [second.tables table (by rw [tables_kept first.tables]; exact member), first.tables table member]

theorem Delivered.userTable (delivered : Delivered mem root addr bytes after)
    (table : UserTable mem root) : UserTable after root := table.congr delivered.tables

theorem Delivered.reachable (delivered : Delivered mem root addr bytes after) (start : Word) :
    reachable after root start = reachable mem root start := by
  funext index
  rw [Read.reachable, frameOf_congr delivered.tables, Read.reachable]

theorem copyout_byte (table : UserTable mem root) (addr : Word) (index : Nat) (ch : UInt8) :
    reachable mem root addr index = false ∧
        copyout mem root (addr + BitVec.ofNat 64 index) (fun _ => ch) 1 = .ok (-1, mem) ∨
      reachable mem root addr index = true ∧ ∃ after,
        copyout mem root (addr + BitVec.ofNat 64 index) (fun _ => ch) 1 = .ok (0, after) ∧
        Delivered mem root (addr + BitVec.ofNat 64 index) [ch] after := by
  obtain ⟨count, after, result, reach, copied, kept⟩ :=
    copyout_spec (addr + BitVec.ofNat 64 index) (fun _ => ch) 1 table
  have one : (1 : Word).toNat = 1 := by decide
  rw [one] at result reach
  rcases Nat.le_one_iff_eq_zero_or_eq_one.mp reach.le with rfl | rfl
  · left
    have missing := reach.stopped Nat.one_pos
    rw [add_ofNat, Nat.add_zero] at missing
    have same : after = mem := by
      funext frame offset
      exact copied.untouched frame offset nofun
    rw [result, same]
    exact ⟨by rw [reachable, missing]; rfl, rfl⟩
  · right
    have found := reach.mapped 0 Nat.one_pos
    rw [add_ofNat, Nat.add_zero] at found
    refine ⟨found, after, result, ?_, kept⟩
    exact copied.congr fun k below => by
      rw [Nat.lt_one_iff.mp below]
      rfl

end

/-! ## piperead -/

section

variable {root addr : Word} {mem : Memory}

theorem pipereadLoop_spec (addr : Word) (remaining i : Nat) (pipe : Pipe) (table : UserTable mem root) :
    ∃ bytes after, pipereadLoop root addr remaining i pipe mem =
        .ok ((Ipc.readLoop (reachable mem root addr) remaining pipe i).2,
          (Ipc.readLoop (reachable mem root addr) remaining pipe i).1, after) ∧
      Delivered mem root (addr + BitVec.ofNat 64 i) bytes after ∧
      (Ipc.readLoop (reachable mem root addr) remaining pipe i).1.delivered = pipe.delivered ++ bytes ∧
      (Ipc.readLoop (reachable mem root addr) remaining pipe i).2 = i + bytes.length := by
  induction remaining generalizing i pipe mem with
  | zero => exact ⟨[], mem, rfl, .nil, (List.append_nil _).symm, rfl⟩
  | succ remaining ih =>
    unfold pipereadLoop Ipc.readLoop
    by_cases empty : pipe.nread = pipe.nwrite
    · rw [if_pos empty, if_pos empty]
      exact ⟨[], mem, rfl, .nil, (List.append_nil _).symm, rfl⟩
    rw [if_neg empty, if_neg empty]
    dsimp only
    rcases copyout_byte table addr i pipe.next with ⟨missing, failed⟩ | ⟨mapped, middle, stored, first⟩
    · rw [missing, failed]
      exact ⟨[], mem, rfl, .nil, (List.append_nil _).symm, rfl⟩
    · rw [mapped, stored]
      obtain ⟨bytes, after, read, rest, all, count⟩ :=
        ih (i + 1) (pipe.advance.deliver pipe.next) (first.userTable table)
      rw [first.reachable] at read all count
      refine ⟨pipe.next :: bytes, after, read, ?_, ?_, ?_⟩
      · rw [← List.singleton_append]
        exact first.append (by rw [add_ofNat]; exact rest)
      · rw [if_pos rfl, all]
        exact List.append_assoc ..
      · rw [if_pos rfl, count, List.length_cons]
        omega

theorem readLoop_taken {writable : Nat → Bool} {remaining i : Nat} {pipe : Pipe}
    (mapped : ∀ k, k < remaining → k < pipe.waiting.length → writable (i + k) = true) :
    (Ipc.readLoop writable remaining pipe i).2 = i + min remaining pipe.waiting.length ∧
      (Ipc.readLoop writable remaining pipe i).1.nread =
        pipe.nread + BitVec.ofNat 32 (min remaining pipe.waiting.length) ∧
      (Ipc.readLoop writable remaining pipe i).1.delivered =
        pipe.delivered ++ pipe.waiting.take remaining ∧
      (Ipc.readLoop writable remaining pipe i).1.waiting = pipe.waiting.drop remaining := by
  induction remaining generalizing i pipe with
  | zero => simp [Ipc.readLoop]
  | succ remaining ih =>
    unfold Ipc.readLoop
    by_cases empty : pipe.nread = pipe.nwrite
    · have nothing : pipe.waiting = [] := by
        rw [Ipc.Pipe.waiting, ← List.length_eq_zero_iff, contents_length, gap_eq_zero]
        exact empty
      rw [if_pos empty]
      simp [nothing]
    have first : pipe.waiting = pipe.next :: pipe.advance.waiting :=
      contents_pop Ipc.PIPESIZE_divides empty
    have here : writable i = true := mapped 0 (by omega) (by rw [first]; simp)
    rw [if_neg empty, if_pos here]
    obtain ⟨count, nread, delivered, waiting⟩ := @ih (i + 1) (pipe.advance.deliver pipe.next) (by
      intro k below inside
      rw [Nat.add_assoc, Nat.add_comm 1]
      exact mapped (k + 1) (by omega) (by rw [first]; exact Nat.succ_lt_succ inside))
    change _ = _ + min remaining pipe.advance.waiting.length at count
    change _ = pipe.nread + 1#32 + BitVec.ofNat 32 (min remaining pipe.advance.waiting.length) at nread
    change _ = pipe.delivered ++ [pipe.next] ++ pipe.advance.waiting.take remaining at delivered
    change _ = pipe.advance.waiting.drop remaining at waiting
    rw [count, nread, delivered, waiting, first, List.length_cons, Nat.add_min_add_right]
    refine ⟨by omega, ?_, by simp, by simp⟩
    rw [BitVec.add_assoc, ← BitVec.ofNat_add, Nat.add_comm 1]

/-- A loop that comes to a byte without a place takes it all the same. -/
theorem readLoop_lost {writable : Nat → Bool} {remaining i : Nat} {pipe : Pipe}
    (missing : ∃ k, k < remaining ∧ k < pipe.waiting.length ∧ writable (i + k) = false) :
    ∃ count, (Ipc.readLoop writable remaining pipe i).2 = i + count ∧
      (Ipc.readLoop writable remaining pipe i).1.nread =
        pipe.nread + BitVec.ofNat 32 count + 1#32 := by
  induction remaining generalizing i pipe with
  | zero =>
    obtain ⟨k, below, _⟩ := missing
    exact absurd below (Nat.not_lt_zero k)
  | succ remaining ih =>
    obtain ⟨k, below, inside, refused⟩ := missing
    unfold Ipc.readLoop
    by_cases empty : pipe.nread = pipe.nwrite
    · rw [Ipc.Pipe.waiting, contents_length, gap_eq_zero.mpr empty] at inside
      exact absurd inside (Nat.not_lt_zero k)
    rw [if_neg empty]
    cases here : writable i with
    | false => exact ⟨0, rfl, by rw [BitVec.add_zero]; rfl⟩
    | true =>
      have first : pipe.waiting = pipe.next :: pipe.advance.waiting :=
        contents_pop Ipc.PIPESIZE_divides empty
      rw [if_pos rfl]
      cases k with
      | zero => exact absurd (here.symm.trans refused) Bool.true_eq_false_eq_False
      | succ k =>
        rw [first, List.length_cons] at inside
        rw [← Nat.add_assoc, Nat.add_right_comm] at refused
        obtain ⟨count, total, nread⟩ := @ih (i + 1) (pipe.advance.deliver pipe.next)
          ⟨k, Nat.lt_of_succ_lt_succ below, Nat.lt_of_succ_lt_succ inside, refused⟩
        refine ⟨count + 1, total.trans (by omega), nread.trans ?_⟩
        change pipe.nread + 1#32 + _ + _ = _
        rw [BitVec.add_assoc pipe.nread, ← BitVec.ofNat_add, Nat.add_comm 1]

/-- The pipe as the waiting loop of `piperead` leaves it. -/
def found : List (Bool × Pipe) → Bool → Pipe → Pipe
  | [], _, pipe => pipe
  | (killed', pipe') :: wakes, killed, pipe =>
    if pipe.nread = pipe.nwrite ∧ pipe.writeopen ∧ killed = false then found wakes killed' pipe' else pipe

/-- Either the call finds nothing, or its copying loop runs on the pipe it has found. -/
theorem piperead_cases (addr : Word) (n : Int) (wakes : List (Bool × Pipe)) (killed : Bool) (pipe : Pipe)
    (mem : Memory) :
    ((found wakes killed pipe).nread = (found wakes killed pipe).nwrite ∧
        (found wakes killed pipe).writeopen = true ∧ ∃ value, (value = none ∨ value = some (-1)) ∧
        piperead root addr n wakes killed pipe mem = .ok (value, found wakes killed pipe, mem)) ∨
      ¬((found wakes killed pipe).nread = (found wakes killed pipe).nwrite ∧
        (found wakes killed pipe).writeopen = true) ∧
      piperead root addr n wakes killed pipe mem = (do
        let (i, pipe, mem) ← pipereadLoop root addr n.toNat 0 (found wakes killed pipe) mem
        .ok (some (i : Int), pipe, mem)) := by
  induction wakes generalizing killed pipe with
  | nil =>
    unfold piperead found
    by_cases empty : pipe.nread = pipe.nwrite ∧ pipe.writeopen = true
    · rw [if_pos empty]
      cases killed with
      | true => exact .inl ⟨empty.1, empty.2, _, .inr rfl, rfl⟩
      | false => exact .inl ⟨empty.1, empty.2, _, .inl rfl, rfl⟩
    · rw [if_neg empty]
      exact .inr ⟨empty, rfl⟩
  | cons wake wakes ih =>
    unfold piperead found
    by_cases empty : pipe.nread = pipe.nwrite ∧ pipe.writeopen = true
    · rw [if_pos empty]
      cases killed with
      | true =>
        rw [if_neg fun waits => nomatch waits.2.2]
        exact .inl ⟨empty.1, empty.2, _, .inr rfl, rfl⟩
      | false =>
        rw [if_pos ⟨empty.1, empty.2, rfl⟩]
        exact ih wake.1 wake.2
    · rw [if_neg empty, if_neg fun waits => empty ⟨waits.1, waits.2.1⟩]
      exact .inr ⟨empty, rfl⟩

/-- A call that returns a count has taken just so many bytes and stored them; one that still
sleeps or fails has changed nothing. -/
def TakesDelivered (root addr : Word) (n : Int) (wakes : List (Bool × Pipe)) (killed : Bool)
    (pipe : Pipe) (mem : Memory) : Prop :=
  ∃ value pipe' after, piperead root addr n wakes killed pipe mem = .ok (value, pipe', after) ∧
    (value = none ∨ value = some (-1) → pipe' = found wakes killed pipe ∧ after = mem) ∧
    ∀ i, value = some i → 0 ≤ i →
      i.toNat ≤ (found wakes killed pipe).waiting.length ∧
      pipe'.nread = (found wakes killed pipe).nread + BitVec.ofInt 32 i ∧
      Delivered mem root addr ((found wakes killed pipe).waiting.take i.toNat) after ∧
      pipe'.waiting = (found wakes killed pipe).waiting.drop i.toNat

/-- All that `piperead` can take has a mapped place. -/
def AllMapped (root addr : Word) (n : Int) (pipe : Pipe) (mem : Memory) : Prop :=
  ∀ k, k < n.toNat → k < pipe.waiting.length →
    (frameOf mem root (addr + BitVec.ofNat 64 k)).isSome

/-- A call that has something to read, or no writer, with all the places mapped. -/
theorem piperead_mapped {n : Int} {wakes : List (Bool × Pipe)} {killed : Bool} {pipe last : Pipe}
    (table : UserTable mem root) (mapped : AllMapped root addr n last mem)
    (read : piperead root addr n wakes killed pipe mem = (do
      let (i, pipe, mem) ← pipereadLoop root addr n.toNat 0 last mem
      .ok (some (i : Int), pipe, mem))) :
    ∃ pipe' after, piperead root addr n wakes killed pipe mem =
        .ok (some (min n.toNat last.waiting.length : Nat), pipe', after) ∧
      pipe'.nread = last.nread + BitVec.ofNat 32 (min n.toNat last.waiting.length) ∧
      Delivered mem root addr (last.waiting.take n.toNat) after ∧
      pipe'.waiting = last.waiting.drop n.toNat := by
  obtain ⟨bytes, after, loop, stored, all, _⟩ := pipereadLoop_spec addr n.toNat 0 last table
  obtain ⟨count, nread, delivered, waiting⟩ := @readLoop_taken (reachable mem root addr) n.toNat 0 last
    fun k below inside => by
      rw [Nat.zero_add]
      exact mapped k below inside
  rw [delivered] at all
  obtain rfl := List.append_cancel_left all
  rw [Nat.zero_add] at count
  rw [BitVec.add_zero] at stored
  rw [loop, count, ok_bind] at read
  exact ⟨_, after, read, nread, stored, waiting⟩

/-- For every pipe, page table, address and `n`: `piperead` takes from the pipe just the
bytes it stores, and leaves the others in order, exactly if all that it can take has a mapped
place.  Then it takes as much as there is, up to `n`. -/
theorem piperead_takes_delivered (addr : Word) (n : Int) (wakes : List (Bool × Pipe)) (killed : Bool)
    (pipe : Pipe) (table : UserTable mem root) :
    (TakesDelivered root addr n wakes killed pipe mem ↔
      AllMapped root addr n (found wakes killed pipe) mem) ∧
    (AllMapped root addr n (found wakes killed pipe) mem →
      ¬((found wakes killed pipe).nread = (found wakes killed pipe).nwrite ∧
        (found wakes killed pipe).writeopen = true) →
      ∃ pipe' after, piperead root addr n wakes killed pipe mem =
        .ok (some (min n.toNat (found wakes killed pipe).waiting.length : Nat), pipe', after)) := by
  unfold TakesDelivered
  rcases piperead_cases addr n wakes killed pipe mem with ⟨empty, writer, value, waits, read⟩ | ⟨ready, read⟩
  · refine ⟨iff_of_true ?_ ?_, fun _ not => absurd ⟨empty, writer⟩ not⟩
    · refine ⟨value, _, mem, read, fun _ => ⟨rfl, rfl⟩, ?_⟩
      rintro i rfl nonneg
      rcases waits with none | failed
      · cases none
      · cases failed
        exact absurd nonneg (by decide)
    · intro k _ inside
      rw [Ipc.Pipe.waiting, contents_length, gap_eq_zero.mpr empty] at inside
      exact absurd inside (Nat.not_lt_zero k)
  · generalize found wakes killed pipe = last at *
    refine ⟨⟨fun takes => ?_, fun mapped => ?_⟩, fun mapped _ => ?_⟩
    · by_contra unmapped
      obtain ⟨value, pipe', after, returned, _, taken⟩ := takes
      obtain ⟨bytes, after', loop, _⟩ := pipereadLoop_spec addr n.toNat 0 last table
      obtain ⟨count, total, nread⟩ := @readLoop_lost (reachable mem root addr) n.toNat 0 last (by
        simpa [AllMapped, reachable] using unmapped)
      rw [loop, total, Nat.zero_add, ok_bind, returned] at read
      cases read
      have exactly := (taken count rfl (Int.natCast_nonneg count)).2.1
      rw [nread, BitVec.ofInt_natCast] at exactly
      simp at exactly
    · obtain ⟨pipe', after, returned, nread, stored, waiting⟩ := piperead_mapped table mapped read
      refine ⟨_, pipe', after, returned, ?_, ?_⟩
      · rintro (none | failed)
        · cases none
        · cases failed
      · rintro i taken _
        cases taken
        refine ⟨Nat.min_le_right .., nread, ?_, waiting.trans ?_⟩
        · rw [Int.toNat_natCast, ← List.take_eq_take_min]
          exact stored
        · rw [Int.toNat_natCast, ← List.drop_eq_drop_min]
    · obtain ⟨pipe', after, returned, _⟩ := piperead_mapped table mapped read
      exact ⟨pipe', after, returned⟩

end

/-- A pipe with these bytes in it. -/
def pipeOf (bytes : List UInt8) : Pipe where
  data index := bytes.getD index 0
  nread := 0
  nwrite := BitVec.ofNat 32 bytes.length
  readopen := true
  writeopen := true
  delivered := []

/-- One of two bytes goes to the last byte of a mapped page. -/
theorem piperead_takes_delivered_page_end : ∃ mem, UserTable mem 0x80020000 ∧ ∃ pipe after,
    piperead 0x80020000 0x1FFF 1 [] false (pipeOf [7, 8]) mem = .ok (some 1, pipe, after) ∧
    Delivered mem 0x80020000 0x1FFF [7] after ∧ pipe.waiting = [8] := by
  obtain ⟨after, _, table, here, _⟩ := sampleMapped
  have mapped : AllMapped 0x80020000 0x1FFF 1 (found [] false (pipeOf [7, 8])) after.mem := by
    intro k below _
    obtain rfl : k = 0 := Nat.lt_one_iff.mp below
    rw [BitVec.add_zero, here]
    rfl
  obtain ⟨exactly, whole⟩ := piperead_takes_delivered 0x1FFF 1 [] false (pipeOf [7, 8]) table
  obtain ⟨value, pipe, last, read, _, taken⟩ := exactly.mpr mapped
  obtain ⟨_, _, returned⟩ := whole mapped (by decide)
  cases returned.symm.trans read
  obtain ⟨_, _, stored, waiting⟩ := taken 1 rfl (by decide)
  exact ⟨after.mem, table, pipe, last, read, stored, waiting⟩

/-- Memory without page tables. -/
def unmapped : Memory := fun _ _ => 0

theorem unmapped_fresh (i : Fin 512) : pteAt unmapped 0 i = 0 := word_zero i

/-- A byte without a place to go is gone: the call returns zero, and the pipe is empty. -/
theorem piperead_loses_byte : ∃ pipe, UserTable unmapped 0 ∧ (pipeOf [7]).waiting = [7] ∧
    piperead 0 0 1 [] false (pipeOf [7]) unmapped = .ok (some 0, pipe, unmapped) ∧
    pipe.nread = (pipeOf [7]).nread + 1 ∧ pipe.waiting = [] := by
  have nowhere : ∀ va, frameOf unmapped 0 va = none := fun va => by
    rw [frameOf, entry_fresh unmapped_fresh]
    exact if_neg fun user => Bool.false_ne_true user.2
  have table : UserTable unmapped 0 := by
    constructor <;> intro va frame found <;> rw [nowhere] at found <;> cases found
  have refused : copyout unmapped 0 0 (fun _ => 7) 1 = .ok (-1, unmapped) := by
    rcases copyout_byte table 0 0 7 with ⟨_, failed⟩ | ⟨mapped, _⟩
    · exact failed
    · rw [reachable, nowhere] at mapped
      cases mapped
  refine ⟨(pipeOf [7]).advance, table, by decide, ?_, rfl, by decide⟩
  show (copyout unmapped 0 0 (fun _ => 7) 1 >>= _) >>= _ = _
  rw [refused]
  rfl

end Xv6.Read
