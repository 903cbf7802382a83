import Xv6.Console.LineEditor
import Xv6.Fs.FlatFile
import Xv6.Read.Delivery

namespace Xv6.Read

open Xv6.Data Xv6.Vm
open Xv6.Console (Cons)
open Xv6.Fs (Dinode Superblock bmap uadd)
open Xv6.Ipc (Pipe)
open Xv6.Log (Disk)

attribute [local irreducible] tables

/-! # How much a read stores

Each reader does what its model without memory says, with a buffer that is reachable where
the page table maps it, and stores what that model delivers.
-/

/-! ## piperead -/

section

variable {root : Word} {mem : Memory}

theorem readLoop_le {writable : Nat → Bool} {remaining i : Nat} {pipe : Pipe} :
    (Ipc.readLoop writable remaining pipe i).2 ≤ i + remaining := by
  induction remaining generalizing pipe i with
  | zero => exact Nat.le_refl i
  | succ remaining ih =>
    unfold Ipc.readLoop
    split
    · exact Nat.le_add_right ..
    split
    · rw [Nat.add_comm remaining, ← Nat.add_assoc]
      exact ih
    · exact Nat.le_add_right ..

theorem piperead_spec (addr : Word) (n : Int) (wakes : List (Bool × Pipe)) (killed : Bool) (pipe : Pipe)
    (table : UserTable mem root) :
    ∃ value pipe' bytes after, piperead root addr n wakes killed pipe mem = .ok (value, pipe', after) ∧
      Delivered mem root addr bytes after ∧ bytes.length ≤ n.toNat ∧
      ∀ r, value = some r → r = -1 ∨ r = bytes.length := by
  rcases piperead_cases addr n wakes killed pipe mem with ⟨_, _, value, waits, read⟩ | ⟨_, read⟩
  · refine ⟨value, _, [], mem, read, .nil, Nat.zero_le _, fun r returned => .inl ?_⟩
    rcases waits with rfl | rfl
    · cases returned
    · cases returned
      rfl
  · obtain ⟨bytes, after, loop, stored, _, count⟩ :=
      pipereadLoop_spec addr n.toNat 0 (found wakes killed pipe) table
    have few := @readLoop_le (reachable mem root addr) n.toNat 0 (found wakes killed pipe)
    rw [count, Nat.zero_add, Nat.zero_add] at few
    rw [BitVec.add_zero] at stored
    rw [loop, count, Nat.zero_add, ok_bind] at read
    refine ⟨_, _, bytes, after, read, stored, few, fun r returned => .inr ?_⟩
    cases returned
    rfl

end

/-! ## consoleread -/

/-- The character that an action stores in user memory. -/
def storedBy : Console.Action → Option UInt8
  | .delivered c => some c
  | _ => none

section

variable {root : Word} {mem : Memory} {cons : Cons} {killed : Bool} {target n : Nat}

theorem storedBy_length (actions : List Console.Action) :
    (actions.filterMap storedBy).length = actions.countP Console.Action.delivers := by
  rw [List.length_filterMap_eq_countP]
  refine List.countP_congr fun action _ => ?_
  cases action <;> rfl

theorem readLoop_few {writable : Nat → Bool} :
    (Console.readLoop killed writable target n cons).actions.length ≤ n := by
  induction n generalizing cons with
  | zero => exact Nat.le_refl 0
  | succ n ih =>
    unfold Console.readLoop
    split
    · exact Nat.zero_le _
    split
    · split
      · exact Nat.zero_le _
      · exact Nat.succ_le_succ (Nat.zero_le n)
    split
    · split
      · exact Nat.succ_le_succ (Nat.zero_le n)
      · exact Nat.succ_le_succ ih
    · exact Nat.succ_le_succ (Nat.zero_le n)

theorem consolereadLoop_spec (dst : Word) (table : UserTable mem root) (within : n ≤ target) :
    ∃ after, consolereadLoop root killed dst target n cons mem =
        .ok ((Console.readLoop killed (reachable mem root dst) target n cons).outcome,
          (Console.readLoop killed (reachable mem root dst) target n cons).cons, after) ∧
      Delivered mem root (dst + BitVec.ofNat 64 (target - n))
        ((Console.readLoop killed (reachable mem root dst) target n cons).actions.filterMap storedBy)
        after := by
  induction n generalizing cons mem with
  | zero => exact ⟨mem, rfl, .nil⟩
  | succ n ih =>
    unfold consolereadLoop Console.readLoop
    by_cases empty : cons.r = cons.w
    · rw [if_pos empty, if_pos empty]
      exact ⟨mem, rfl, .nil⟩
    rw [if_neg empty, if_neg empty]
    dsimp only
    by_cases ended : cons.next = Console.C 'D'
    · rw [if_pos ended, if_pos ended]
      by_cases some : n + 1 < target
      · rw [if_pos some, if_pos some]
        exact ⟨mem, rfl, .nil⟩
      · rw [if_neg some, if_neg some]
        exact ⟨mem, rfl, .nil⟩
    rw [if_neg ended, if_neg ended]
    rcases copyout_byte table dst (target - (n + 1)) cons.next with
      ⟨missing, failed⟩ | ⟨mapped, middle, stored, first⟩
    · rw [missing, failed]
      exact ⟨mem, rfl, .nil⟩
    rw [mapped, stored, ok_bind]
    dsimp only
    by_cases line : cons.next = Console.newline
    · simp only [if_pos line]
      exact ⟨middle, rfl, first⟩
    · obtain ⟨after, read, rest⟩ := @ih middle cons.advance (first.userTable table)
        (Nat.le_of_succ_le within)
      rw [first.reachable] at read rest
      simp only [if_neg line]
      refine ⟨after, read, first.append ?_⟩
      rw [add_ofNat]
      have next : target - (n + 1) + 1 = target - n := by omega
      rw [List.length_singleton, next]
      exact rest

theorem consolereadLoop_stored (dst : Word) (cons : Cons) (killed : Bool) (table : UserTable mem root)
    (within : n ≤ target) :
    ∃ outcome cons' bytes after, consolereadLoop root killed dst target n cons mem =
        .ok (outcome, cons', after) ∧
      Delivered mem root (dst + BitVec.ofNat 64 (target - n)) bytes after ∧ bytes.length ≤ n ∧
      (∀ value, outcome = .returned value → value = -1 ∨ value = (target - n : Nat) + bytes.length) ∧
      ∀ left, outcome = .asleep left → left + bytes.length = n := by
  obtain ⟨after, read, stored⟩ := @consolereadLoop_spec _ _ cons killed _ _ dst table within
  have ends := @Console.readLoop_ends cons killed (reachable mem root dst) _ _ within
  have few := @readLoop_few cons killed target n (reachable mem root dst)
  generalize Console.readLoop killed (reachable mem root dst) target n cons = part at *
  refine ⟨_, _, _, after, read, stored, Nat.le_trans (List.length_filterMap_le ..) few, ?_, ?_⟩
  · rw [storedBy_length]
    exact fun value ended => (ends.value value ended).imp_left And.left
  · intro left ended
    obtain ⟨_, count, all⟩ := ends.asleep left ended
    have whole : part.actions.countP Console.Action.delivers = part.actions.length := by
      rw [List.countP_eq_length]
      intro action member
      obtain ⟨c, rfl, _⟩ := all action member
      rfl
    rw [storedBy_length, whole, count]

theorem consolereadFrom_spec (dst : Word) (wakes : List (Bool × Cons)) (cons : Cons) (killed : Bool)
    (table : UserTable mem root) (within : n ≤ target) :
    ∃ value cons' bytes after, consolereadFrom root dst target wakes killed n cons mem =
        .ok (value, cons', after) ∧
      Delivered mem root (dst + BitVec.ofNat 64 (target - n)) bytes after ∧ bytes.length ≤ n ∧
      ∀ r, value = some r → r = -1 ∨ r = (target - n : Nat) + bytes.length := by
  induction wakes generalizing killed n cons mem with
  | nil =>
    obtain ⟨outcome, cons', bytes, after, read, stored, few, returned, _⟩ :=
      consolereadLoop_stored dst cons killed table within
    rw [consolereadFrom, read, ok_bind]
    cases outcome with
    | returned value => exact ⟨_, _, _, after, rfl, stored, few, fun r same => by
        cases same
        exact returned value rfl⟩
    | asleep left => exact ⟨_, _, _, after, rfl, stored, few, nofun⟩
  | cons wake wakes ih =>
    obtain ⟨outcome, cons', bytes, middle, read, stored, few, returned, asleep⟩ :=
      consolereadLoop_stored dst cons killed table within
    rw [consolereadFrom, read, ok_bind]
    cases outcome with
    | returned value => exact ⟨_, _, _, middle, rfl, stored, few, fun r same => by
        cases same
        exact returned value rfl⟩
    | asleep left =>
      have count := asleep left rfl
      have start : target - n + bytes.length = target - left := by omega
      obtain ⟨value, last, more, after, later, rest, short, total⟩ :=
        ih wake.2 wake.1 (stored.userTable table) (show left ≤ target by omega)
      refine ⟨value, last, bytes ++ more, after, later, stored.append ?_, ?_, ?_⟩
      · rw [add_ofNat, start]
        exact rest
      · rw [List.length_append]
        omega
      · intro r same
        rw [List.length_append]
        rcases total r same with failed | counted
        · exact .inl failed
        · right
          omega

end

/-! ## readi -/

section

variable {root addr : Word} {mem : Memory} {sb : Superblock}

theorem Delivered.of_copied {after : Memory} {src : Bytes} {count : Nat}
    (copied : Copied mem root addr src count after)
    (kept : ∀ table ∈ Vm.tables mem root, after table = mem table) :
    Delivered mem root addr ((List.range count).map src) after := by
  refine ⟨?_, kept⟩
  rw [List.length_map, List.length_range]
  exact copied.congr fun k below => by
    rw [List.getD_eq_getElem _ _ (by simpa using below), List.getElem_map, List.getElem_range]

/-- The bytes that the loop of `readi` stores in a buffer of which a part can be written. -/
def storedBytes (sb : Superblock) (writable : Nat → Bool) :
    Nat → Disk → Dinode → Nat → Nat → Nat → List UInt8
  | 0, _, _, _, _, _ => []
  | fuel + 1, disk, ip, off, tot, n =>
    if tot < n then
      match bmap sb disk ip (off / BSIZE) with
      | .error _ => []
      | .ok (block, ip, disk) =>
        let m := min (n - tot) (BSIZE - off % BSIZE)
        let count := ((List.range m).takeWhile fun index => writable (tot + index)).length
        (List.range count).map (fun index => disk block (off % BSIZE + index)) ++
          if count = m then storedBytes sb writable fuel disk ip (off + m) (tot + m) n else []
    else
      []

variable {writable : Nat → Bool} {fuel off tot n : Nat} {disk : Disk} {ip : Dinode}

theorem takeWhile_range_length {m : Nat} (some : 0 < m) :
    ((List.range m).takeWhile writable).length = 0 ↔ writable 0 = false := by
  obtain ⟨m, rfl⟩ := Nat.exists_eq_add_one_of_ne_zero (Nat.ne_of_gt some)
  rw [List.range_succ_eq_map, List.takeWhile_cons]
  cases writable 0 <;> simp

theorem storedBytes_unreachable (missing : writable tot = false) :
    storedBytes sb writable fuel disk ip off tot n = [] := by
  cases fuel with
  | zero => rfl
  | succ fuel =>
    unfold storedBytes
    split
    · split
      · rfl
      · have some := Fs.chunk_pos off (Nat.sub_pos_of_lt ‹tot < n›)
        have none := (@takeWhile_range_length (fun index => writable (tot + index)) _ some).mpr missing
        simp only [none]
        rw [if_neg (Nat.ne_of_lt some)]
        rfl
    · rfl

theorem storedBytes_ne_nil {data : List UInt8} {result : Int × List UInt8 × Dinode × Disk}
    (ran : Fs.readiLoop sb writable (fuel + 1) disk ip off tot n data = .ok result)
    (more : tot < n) (here : writable tot = true) :
    storedBytes sb writable (fuel + 1) disk ip off tot n ≠ [] := by
  unfold storedBytes
  unfold Fs.readiLoop at ran
  rw [if_pos more] at ran ⊢
  cases mapped : bmap sb disk ip (off / BSIZE) with
  | error reason =>
    rw [mapped] at ran
    cases ran
  | ok found =>
    have some := Fs.chunk_pos off (Nat.sub_pos_of_lt more)
    have first := mt (@takeWhile_range_length (fun index => writable (tot + index)) _ some).mp
      (ne_true_of_eq_false · here)
    intro empty
    have count := List.map_eq_nil_iff.mp (List.append_eq_nil_iff.mp empty).1
    exact first (List.range_eq_nil.mp count)

theorem length_takeWhile_reach {m count : Nat}
    (reach : Reach mem root (addr + BitVec.ofNat 64 tot) m count) :
    ((List.range m).takeWhile fun index => reachable mem root addr (tot + index)).length = count := by
  have mapped : ∀ index ∈ List.range count, reachable mem root addr (tot + index) = true := by
    intro index member
    rw [reachable, ← add_ofNat]
    exact reach.mapped index (List.mem_range.mp member)
  obtain ⟨rest, rfl⟩ := Nat.exists_eq_add_of_le reach.le
  rw [List.range_add, List.takeWhile_append_of_pos mapped]
  cases rest with
  | zero => simp
  | succ rest =>
    have missing : reachable mem root addr (tot + count) = false := by
      rw [reachable, ← add_ofNat, reach.stopped (by omega)]
      rfl
    rw [List.range_succ_eq_map, List.map_cons]
    simp [missing]

/-- The loop of `readi` does what it does without memory, and stores the bytes it has read. -/
theorem readiLoop_user (addr : Word) (fuel : Nat) (disk : Disk) (ip : Dinode) (off tot n : Nat)
    (data : List UInt8) (table : UserTable mem root) :
    Ensures (fun reason => ∃ stopped, reason = .fs stopped ∧
        Fs.readiLoop sb (reachable mem root addr) fuel disk ip off tot n data = .error stopped)
      (fun (count, ip', disk', after) => ∃ data' bytes,
        bytes = storedBytes sb (reachable mem root addr) fuel disk ip off tot n ∧
        Fs.readiLoop sb (reachable mem root addr) fuel disk ip off tot n data =
          .ok (count, data', ip', disk') ∧
        Delivered mem root (addr + BitVec.ofNat 64 tot) bytes after ∧ bytes.length ≤ n - tot ∧
        (count = -1 ∨ count = tot + bytes.length ∧ data' = data ++ bytes))
      (readiLoop root sb fuel disk ip mem (addr + BitVec.ofNat 64 tot) off tot n) := by
  induction fuel generalizing mem disk ip off tot data with
  | zero => exact ⟨data, [], rfl, rfl, .nil, Nat.zero_le _, .inr ⟨by simp, by simp⟩⟩
  | succ fuel ih =>
    unfold readiLoop Fs.readiLoop storedBytes
    by_cases more : tot < n
    · simp only [if_pos more]
      cases bmap sb disk ip (off / BSIZE) with
      | error stopped => exact ⟨stopped, rfl, rfl⟩
      | ok mapped =>
        obtain ⟨block, ip, disk⟩ := mapped
        have least := Nat.min_le_left (n - tot) (BSIZE - off % BSIZE)
        have page : min (n - tot) (BSIZE - off % BSIZE) < 2 ^ 64 := by
          rw [BSIZE]
          omega
        generalize min (n - tot) (BSIZE - off % BSIZE) = m at *
        obtain ⟨count, after, copied, reach, stored, kept⟩ :=
          copyout_spec (addr + BitVec.ofNat 64 tot) (fun index => disk block (off % BSIZE + index))
            (BitVec.ofNat 64 m) table
        have width : (BitVec.ofNat 64 m).toNat = m := by
          rw [BitVec.toNat_ofNat, Nat.mod_eq_of_lt page]
        rw [width] at copied reach
        have first := Delivered.of_copied stored kept
        have prefixed := length_takeWhile_reach reach
        have reached : ((List.range m).all fun index => reachable mem root addr (tot + index)) = true ↔
            count = m := by
          rw [reach.all_iff]
          simp [reachable, add_ofNat]
        simp only [ok_bind, Except.mapError, copied, prefixed]
        by_cases whole : count = m
        · subst whole
          rw [if_pos rfl, if_pos rfl, if_pos (reached.mpr rfl), if_neg (by decide), add_ofNat]
          have rest := ih disk ip (off + count) (tot + count)
            (data ++ (List.range count).map fun index => disk block (off % BSIZE + index))
            (first.userTable table)
          rw [first.reachable] at rest
          refine rest.mono ?_
          rintro ⟨total, ip', disk', last⟩ ⟨data', bytes, rfl, read, second, few, ends⟩
          have length : ((List.range count).map fun index => disk block (off % BSIZE + index)).length =
              count := by
            rw [List.length_map, List.length_range]
          refine ⟨data', _, rfl, read, first.append ?_, ?_, ?_⟩
          · rw [length, add_ofNat]
            exact second
          · rw [List.length_append, length]
            omega
          · rw [List.length_append, length, ← List.append_assoc]
            rcases ends with failed | ⟨counted, all⟩
            · exact .inl failed
            · exact .inr ⟨by omega, all⟩
        · rw [if_neg whole, if_neg whole, if_neg (fun all => whole (reached.mp all)), if_pos rfl,
            List.append_nil]
          refine ⟨data, _, rfl, rfl, first, ?_, .inl rfl⟩
          rw [List.length_map, List.length_range]
          exact Nat.le_trans reach.le least
    · simp only [if_neg more]
      exact ⟨data, [], rfl, rfl, .nil, Nat.zero_le _, .inr ⟨by simp, by simp⟩⟩

/-- The bytes that `readi` stores. -/
def readiBytes (sb : Superblock) (disk : Disk) (ip : Dinode) (writable : Nat → Bool) (off n : Nat) :
    List UInt8 :=
  storedBytes sb writable (min (uadd off n) ip.size - off) disk ip off 0
    (min (uadd off n) ip.size - off)

/-- `readi` stores no more than lies between the offset and the end of the range, as a
`uint`, and of the file. -/
theorem readi_user (disk : Disk) (ip : Dinode) (addr : Word) (offFits : off < 2 ^ 32)
    (countFits : n < 2 ^ 32) (table : UserTable mem root) :
    Ensures (fun reason => ∃ stopped, reason = .fs stopped ∧
        Fs.readi sb disk ip (reachable mem root addr) off n = .error stopped)
      (fun (count, ip', disk', after) => ∃ data bytes,
        bytes = readiBytes sb disk ip (reachable mem root addr) off n ∧
        Fs.readi sb disk ip (reachable mem root addr) off n = .ok (count, data, ip', disk') ∧
        Delivered mem root addr bytes after ∧ bytes.length ≤ min (uadd off n) ip.size - off ∧
        (count = -1 ∨ count = bytes.length ∧ data = bytes))
      (readi root sb disk ip mem addr off n) := by
  unfold readi Fs.readi
  by_cases refused : off > ip.size ∨ uadd off n < off
  · rw [if_pos refused, if_pos refused]
    have none : min (uadd off n) ip.size - off = 0 := by omega
    refine ⟨[], [], ?_, rfl, .nil, Nat.zero_le _, .inr ⟨rfl, rfl⟩⟩
    rw [readiBytes, none, storedBytes]
  · rw [if_neg refused, if_neg refused]
    simp only [Fs.uadd_clip refused offFits countFits]
    have loop := @readiLoop_user root mem sb addr (min (uadd off n) ip.size - off) disk ip off 0
      (min (uadd off n) ip.size - off) [] table
    rw [BitVec.add_zero] at loop
    refine loop.mono ?_
    rintro ⟨count, ip', disk', after⟩ ⟨data, bytes, same, read, stored, few, ends⟩
    refine ⟨data, bytes, same, read, stored, few, ends.imp_right fun ⟨counted, all⟩ => ⟨?_, all⟩⟩
    rw [counted]
    exact Int.zero_add _

/-- Once the start of the buffer is mapped, `readi` stores something unless the range is
empty. -/
theorem readiBytes_ne_nil {inum : Nat} (loaded : Fs.Loaded sb disk inum ip) (offFits : off < 2 ^ 32)
    (countFits : n < 2 ^ 32) (here : (frameOf mem root addr).isSome) (some : off < min (uadd off n) ip.size) :
    readiBytes sb disk ip (reachable mem root addr) off n ≠ [] := by
  obtain ⟨count, data, read, _⟩ :=
    Fs.readi_spec loaded (reachable mem root addr) offFits countFits
  have accepted : ¬(off > ip.size ∨ uadd off n < off) := by omega
  unfold Fs.readi at read
  rw [if_neg accepted] at read
  simp only [Fs.uadd_clip accepted offFits countFits] at read
  rw [readiBytes]
  obtain ⟨left, more⟩ := Nat.exists_eq_add_one_of_ne_zero (Nat.sub_ne_zero_of_lt some)
  rw [more] at read ⊢
  refine storedBytes_ne_nil read (Nat.succ_pos left) ?_
  rw [reachable, BitVec.add_zero]
  exact here

/-- What stands in memory after a delivery does not depend on what stood there before. -/
theorem Delivered.settles {mem' after after' : Memory} {frame : Word} {offset : Nat}
    {bytes : List UInt8} (first : Delivered mem root addr bytes after)
    (second : Delivered mem' root addr bytes after')
    (same : ∀ table ∈ Vm.tables mem root, mem' table = mem table) (some : bytes ≠ [])
    (here : location mem root addr = .some (frame, offset)) : after' frame offset = after frame offset := by
  have bound : 0 < bytes.length := List.length_pos_iff.mpr some
  -- The last byte that goes to the place.
  let goes := fun k => location mem root (addr + BitVec.ofNat 64 k) = .some (frame, offset)
  have start : goes 0 := (congrArg _ (BitVec.add_zero addr)).trans here
  have found : goes (Nat.findGreatest goes (bytes.length - 1)) :=
    Nat.findGreatest_spec (Nat.zero_le _) start
  have inside : Nat.findGreatest goes (bytes.length - 1) < bytes.length := by
    have limit := Nat.findGreatest_le (P := goes) (bytes.length - 1)
    omega
  have last : ∀ j, Nat.findGreatest goes (bytes.length - 1) < j → j < bytes.length → ¬goes j :=
    fun j above below => Nat.findGreatest_is_greatest above (by omega)
  rw [first.copied.written _ frame offset inside found last]
  refine second.copied.written _ frame offset inside ((location_congr same _).trans found) ?_
  intro j above below
  rw [location_congr same]
  exact last j above below

theorem off_moved {off : BitVec 32} {count : Nat} (fits : off.toNat + count < 2 ^ 32) :
    (off + BitVec.ofInt 32 count).toNat = off.toNat + count := by
  rw [BitVec.ofInt_natCast, BitVec.toNat_add, BitVec.toNat_ofNat]
  omega

/-- A read stores no more bytes than were asked for, returns no more, and moves the offset of
an inode by what it returns. -/
def Bounded (root : Word) (sb : Superblock) (file : File) (addr : Word) (n : BitVec 32)
    (wakes : List Wake) (world : World) : Prop :=
  Ensures (fun reason => reason = .fileread ∧ file.type = .none ∨
      file.type = .inode ∧ ∀ inum, ¬Fs.Loaded sb world.disk inum world.ip)
    (fun (value, file', world') => ∃ bytes, Delivered world.mem root addr bytes world'.mem ∧
      bytes.length ≤ max n.toInt 0 ∧
      ∀ r, value = some r → r ≤ max n.toInt 0 ∧
        (file.type = .inode → (file'.off.toNat : Int) = file.off.toNat + max r 0))
    (fileread root sb file addr n wakes world)

/-- A negative count that an inode takes for a large one, with bytes to read and a place for
the first. -/
def Overread (root : Word) (file : File) (addr : Word) (n : BitVec 32) (world : World) : Prop :=
  file.readable = true ∧ file.type = .inode ∧ n.toInt < 0 ∧ file.off.toNat < -n.toInt ∧
    file.off.toNat < world.ip.size ∧ (frameOf world.mem root addr).isSome

/-- A read is bounded, whatever the user memory holds. -/
def AlwaysBounded (root : Word) (sb : Superblock) (file : File) (addr : Word) (n : BitVec 32)
    (wakes : List Wake) (world : World) : Prop :=
  ∀ mem, (∀ table ∈ Vm.tables world.mem root, mem table = world.mem table) →
    Bounded root sb file addr n wakes { world with mem }

variable {file : File} {n : BitVec 32} {wakes : List Wake} {world : World} {inum : Nat}

/-- What a read of an inode stores is bounded. -/
theorem readiBytes_bounded (readable : file.readable = true) (kind : file.type = .inode)
    (within : ¬Overread root file addr n world)
    (few : (readiBytes sb world.disk world.ip (reachable world.mem root addr) file.off.toNat
      n.toNat).length ≤ min (uadd file.off.toNat n.toNat) world.ip.size - file.off.toNat) :
    ((readiBytes sb world.disk world.ip (reachable world.mem root addr) file.off.toNat
      n.toNat).length : Int) ≤ max n.toInt 0 := by
  by_cases mapped : (frameOf world.mem root addr).isSome = true
  · have offBound := file.off.isLt
    have bound := n.isLt
    have inside : 0 ≤ n.toInt ∨ -n.toInt ≤ file.off.toNat ∨ world.ip.size ≤ file.off.toNat := by
      by_contra outside
      exact within ⟨readable, kind, by omega, by omega, by omega, mapped⟩
    rw [BitVec.toInt_eq_toNat_cond] at *
    rw [uadd] at few
    split at inside <;> omega
  · have none : reachable world.mem root addr 0 = false := by
      rw [reachable, BitVec.add_zero]
      exact Bool.eq_false_iff.mpr mapped
    rw [readiBytes, storedBytes_unreachable none]
    exact Int.le_max_right ..

/-- The inode of a well-formed file system can be read. -/
theorem readi_loaded (loaded : Fs.Loaded sb world.disk inum world.ip) (writable : Nat → Bool)
    (stopped : Fs.Panic) :
    Fs.readi sb world.disk world.ip writable file.off.toNat n.toNat ≠ .error stopped := by
  obtain ⟨count, data, fine, _⟩ := Fs.readi_spec loaded writable file.off.isLt n.isLt
  rw [fine]
  nofun

theorem fileread_spec (file : File) (addr : Word) (n : BitVec 32) (wakes : List Wake) (world : World)
    (table : UserTable world.mem root) (inside : ¬Overread root file addr n world) :
    Bounded root sb file addr n wakes world := by
  unfold Bounded fileread
  by_cases closed : file.readable = false
  · rw [if_pos closed]
    exact ⟨[], .nil, by simp, by rintro r ⟨⟩; simp⟩
  rw [if_neg closed]
  cases kind : file.type with
  | none => exact .inl ⟨rfl, rfl⟩
  | pipe =>
    obtain ⟨value, pipe, bytes, after, read, stored, few, returned⟩ := piperead_spec addr n.toInt
      (wakes.map fun wake => (wake.killed, wake.pipe)) world.killed world.pipe table
    dsimp only
    rw [read]
    refine ⟨bytes, stored, by omega, fun r same => ⟨?_, nofun⟩⟩
    rcases returned r same with rfl | rfl <;> omega
  | device =>
    dsimp only
    split
    · exact ⟨[], .nil, by simp, by rintro r ⟨⟩; exact ⟨by omega, nofun⟩⟩
    · obtain ⟨value, cons, bytes, after, read, stored, few, returned⟩ := consolereadFrom_spec addr
        (wakes.map fun wake => (wake.killed, wake.cons)) world.cons world.killed table
        (Nat.le_refl n.toInt.toNat)
      rw [Nat.sub_self, BitVec.add_zero] at stored
      rw [Nat.sub_self] at returned
      rw [consoleread, read]
      refine ⟨bytes, stored, by omega, fun r same => ⟨?_, nofun⟩⟩
      rcases returned r same with rfl | rfl <;> omega
  | inode =>
    have read := @readi_user root world.mem sb file.off.toNat n.toNat world.disk world.ip addr
      file.off.isLt n.isLt table
    refine Ensures.bind (read.mono_errors ?_) ?_
    · rintro reason ⟨stopped, rfl, panicked⟩
      exact .inr ⟨rfl, fun inum loaded => readi_loaded loaded _ stopped panicked⟩
    · rintro ⟨r, ip, disk, after⟩ ⟨data, bytes, rfl, _, stored, few, ends⟩
      have limit := readiBytes_bounded (Bool.eq_true_of_not_eq_false closed) kind inside few
      generalize readiBytes sb world.disk world.ip (reachable world.mem root addr) file.off.toNat
        n.toNat = bytes at *
      have small : file.off.toNat + bytes.length < 2 ^ 32 ∨ bytes.length = 0 := by
        have wraps : uadd file.off.toNat n.toNat < 2 ^ 32 := Nat.mod_lt _ (by decide)
        omega
      refine ⟨bytes, stored, limit, ?_⟩
      rintro _ ⟨⟩
      rcases ends with rfl | ⟨rfl, _⟩
      · exact ⟨by omega, fun _ => by simp⟩
      · refine ⟨by omega, fun _ => ?_⟩
        split
        · rw [off_moved (by omega)]
          omega
        · omega

/-- A bounded read for a negative count leaves the memory, whatever it stores. -/
theorem Bounded.unchanged (bounded : Bounded root sb file addr n wakes world)
    (table : UserTable world.mem root) (loaded : Fs.Loaded sb world.disk inum world.ip)
    (readable : file.readable = true) (kind : file.type = .inode) (negative : n.toInt < 0) :
    Delivered world.mem root addr (readiBytes sb world.disk world.ip (reachable world.mem root addr)
      file.off.toNat n.toNat) world.mem := by
  have read := @readi_user root world.mem sb file.off.toNat n.toNat world.disk world.ip addr
    file.off.isLt n.isLt table
  obtain ⟨⟨count, ip, disk, after⟩, result, data, bytes, rfl, _, stored, _⟩ := read.exists_ok (by
    rintro reason ⟨stopped, _, panicked⟩
    exact readi_loaded loaded _ stopped panicked)
  unfold Bounded fileread at bounded
  rw [if_neg (ne_false_of_eq_true readable), kind] at bounded
  dsimp only at bounded
  rw [result] at bounded
  obtain ⟨bytes, kept, few, _⟩ := bounded
  have none : bytes.length = 0 := by omega
  have same : after = world.mem := by
    funext frame offset
    refine kept.copied.untouched frame offset fun k below => ?_
    rw [none] at below
    contradiction
  rw [same] at stored
  exact stored

/-- With bytes to read and a place for them, some contents of the memory do not survive. -/
theorem Overread.not_bounded (overread : Overread root file addr n world)
    (table : UserTable world.mem root) (loaded : Fs.Loaded sb world.disk inum world.ip)
    (bounded : AlwaysBounded root sb file addr n wakes world) : False := by
  obtain ⟨readable, kind, negative, before, inside, mapped⟩ := overread
  obtain ⟨frame, found⟩ := Option.isSome_iff_exists.mp mapped
  have here : location world.mem root addr = some (frame, addr.toNat % PGSIZE) := by
    rw [location, found]
    rfl
  have same : ∀ table ∈ Vm.tables world.mem root, overwrite world.mem frame
      (fun offset => world.mem frame offset + 1) table = world.mem table := fun other member =>
    overwrite_of_ne (ne_of_mem_of_not_mem member (table.apart addr frame found))
  have stored := (bounded world.mem fun _ _ => rfl).unchanged table loaded readable kind negative
  have again := (bounded _ same).unchanged (table.congr same) loaded readable kind negative
  have reach : ∀ start, reachable (overwrite world.mem frame fun offset => world.mem frame offset + 1)
      root start = reachable world.mem root start := by
    intro start
    funext index
    rw [reachable, frameOf_congr same, reachable]
  dsimp only at stored again
  rw [reach] at again
  have some : readiBytes sb world.disk world.ip (reachable world.mem root addr) file.off.toNat
      n.toNat ≠ [] := by
    refine readiBytes_ne_nil loaded file.off.isLt n.isLt mapped ?_
    have bound := n.isLt
    rw [BitVec.toInt_eq_toNat_cond] at *
    rw [uadd]
    split at negative <;> omega
  have equal := stored.settles again same some here
  rw [overwrite_self] at equal
  simp at equal

end

/-- For every file, address and `int` count: a read is bounded, whatever the user memory holds,
unless an inode takes a negative count for a large one; and then, for the inode of a
well-formed file system, it is not. -/
theorem fileread_bounded {root : Word} {sb : Superblock} (file : File) (addr : Word) (n : BitVec 32)
    (wakes : List Wake) (world : World) (table : UserTable world.mem root) :
    (¬Overread root file addr n world → AlwaysBounded root sb file addr n wakes world) ∧
    ∀ inum, Fs.Loaded sb world.disk inum world.ip →
      (AlwaysBounded root sb file addr n wakes world ↔ ¬Overread root file addr n world) := by
  have bounded : ¬Overread root file addr n world → AlwaysBounded root sb file addr n wakes world := by
    intro within mem same
    refine fileread_spec file addr n wakes { world with mem } (table.congr same) fun overread => within ?_
    rw [Overread, frameOf_congr same] at overread
    exact overread
  exact ⟨bounded, fun inum loaded =>
    ⟨fun all overread => overread.not_bounded table loaded all, bounded⟩⟩

/-- A console and a pipe that nobody reads, and a disk with one file. -/
def fileWorld (disk : Disk) (ip : Dinode) (mem : Memory) : World where
  killed := false
  pipe := pipeOf []
  cons := ⟨fun _ => 0, 0, 0, 0⟩
  disk := disk
  ip := ip
  mem := mem

def readableFile (type : FileType) : File := ⟨type, true, 0, 0⟩

/-- Two bytes are asked of a pipe that has three. -/
theorem fileread_bounded_pipe : ∃ mem, UserTable mem 0x80020000 ∧
    Ensures (fun _ => False) (fun (value, _, world') => ∃ bytes,
        Delivered mem 0x80020000 0x1000 bytes world'.mem ∧ bytes.length ≤ 2 ∧ ∀ r, value = some r → r ≤ 2)
      (fileread 0x80020000 Fs.smallSuperblock (readableFile .pipe) 0x1000 2 []
        { fileWorld Fs.smallDisk (Fs.freshDinode 2) mem with pipe := pipeOf [7, 8, 9] }) := by
  obtain ⟨after, _, table, _⟩ := sampleMapped
  have read := (@fileread_bounded 0x80020000 Fs.smallSuperblock (readableFile .pipe) 0x1000 2 []
    { fileWorld Fs.smallDisk (Fs.freshDinode 2) after.mem with pipe := pipeOf [7, 8, 9] } table).1
    (fun overread => by cases overread.2.1) after.mem fun _ _ => rfl
  refine ⟨after.mem, table, (read.mono ?_).mono_errors ?_⟩
  · have two : max (2 : BitVec 32).toInt 0 = 2 := by decide
    rw [two]
    rintro ⟨value, _, world'⟩ ⟨bytes, stored, few, returned⟩
    exact ⟨bytes, stored, by omega, fun r same => (returned r same).1⟩
  · rintro reason (⟨_, none⟩ | ⟨inode, _⟩)
    · cases none
    · cases inode

/-- A count of minus one at the start of a file of five bytes delivers them all. -/
theorem fileread_negative_count : ∃ disk mem, Fs.WellFormed Fs.smallSuperblock disk ∧
    UserTable mem 0x80020000 ∧ ∃ file world',
      fileread 0x80020000 Fs.smallSuperblock (readableFile .inode) 0x1000 (-1) []
        (fileWorld disk (Fs.dinode Fs.smallSuperblock disk 1) mem) = .ok (some 5, file, world') ∧
      Delivered mem 0x80020000 0x1000 [7, 7, 7, 7, 7] world'.mem := by
  obtain ⟨after, _, table, mapped, _⟩ := sampleMapped
  have ran : ((Fs.machine Fs.smallSuperblock).execute Fs.smallState Fs.shortFile).map
      (fun state => (Fs.contents Fs.smallSuperblock state.fs.disk 1,
        (Fs.dinode Fs.smallSuperblock state.fs.disk 1).type,
        (Fs.dinode Fs.smallSuperblock state.fs.disk 1).size)) = some ([7, 7, 7, 7, 7], 2, 5) := by
    decide +kernel
  obtain ⟨state, executed, shown⟩ := Option.map_eq_some_iff.mp ran
  have wellFormed : Fs.WellFormed Fs.smallSuperblock state.fs.disk :=
    (Fs.reachable_invariant (.of_execute Fs.smallState_initial executed)).1.owned.wellFormed
  generalize state.fs.disk = disk at *
  obtain ⟨contents, type, size⟩ : _ ∧ _ ∧ _ := by simpa only [Prod.mk.injEq] using shown
  have page : ∀ index, index < 5 → pageOf (0x1000 + BitVec.ofNat 64 index) = pageOf 0x1FFF := by decide
  have read : Fs.readi Fs.smallSuperblock disk (Fs.dinode Fs.smallSuperblock disk 1)
      (reachable after.mem 0x80020000 0x1000) 0 (2 ^ 32 - 1) =
        .ok (5, [7, 7, 7, 7, 7], Fs.dinode Fs.smallSuperblock disk 1, disk) := by
    have all : List.drop 0 (List.take (uadd 0 (2 ^ 32 - 1)) [7, 7, 7, 7, 7]) = [(7 : UInt8), 7, 7, 7, 7] := by
      decide +kernel
    rw [Fs.readi_flat wellFormed (by decide) (by rw [type]; decide) (by decide) (by decide)
      fun index below => ?_, contents, all]
    · rfl
    · rw [size] at below
      rw [reachable, frameOf_page (page index (by omega)), mapped]
      rfl
  have user := @readi_user 0x80020000 after.mem Fs.smallSuperblock 0 (2 ^ 32 - 1) disk
    (Fs.dinode Fs.smallSuperblock disk 1) 0x1000 (by decide) (by decide) table
  obtain ⟨⟨count, ip, disk', last⟩, result, data, bytes, _, same, stored, _, ends⟩ := user.exists_ok (by
    rintro reason ⟨stopped, _, panicked⟩
    rw [read] at panicked
    cases panicked)
  rw [read] at same
  cases same
  obtain rfl : [7, 7, 7, 7, 7] = bytes := (ends.resolve_left (by decide)).2
  refine ⟨disk, after.mem, wellFormed, table, { readableFile .inode with off := 5 },
    { fileWorld disk (Fs.dinode Fs.smallSuperblock disk 1) after.mem with mem := last }, ?_, stored⟩
  show (readi _ _ _ _ _ _ 0 (2 ^ 32 - 1) >>= _) = _
  rw [fileWorld, result]
  rfl

end Xv6.Read
