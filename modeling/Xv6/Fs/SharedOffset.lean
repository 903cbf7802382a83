import Xv6.Param
import Xv6.Fs.FlatFile

namespace Xv6.Fs.Shared

open Xv6.Data Xv6.Log Xv6.Transition

/-! # One open file, many processes

`fileread` and `filewrite` of `file.c` on one `struct file` of type `FD_INODE`.  A step is
the code between `ilock` and `iunlock`; buffers are mapped.
-/

/-- A section that has moved `f->off`: where it read or wrote, and what. -/
structure Section where
  /-- The `filewrite` it belongs to; `none` for a `fileread`. -/
  call : Option Nat
  off : Nat
  bytes : List UInt8

/-- A call of `filewrite`: its arguments, its loop variable and what it has returned. -/
structure Call where
  data : Nat → UInt8
  n : Int
  i : Nat
  returned : Option Int

/-- The fields of the `struct file` that `fileread` and `filewrite` use. -/
structure File where
  readable : Bool
  writable : Bool
  off : Nat

/-- `ip` is the inode in memory; `calls` and `sections` list all there have been, and
`running` says which call a process is in. -/
structure State (count : Nat) where
  disk : Disk
  ip : Dinode
  file : File
  calls : Nat → Call
  started : Nat
  running : Fin count → Option Nat
  sections : List Section
  panic : Option Panic

inductive Event (count : Nat) where
  | filewrite (process : Fin count) (data : Nat → UInt8) (n : Int)
  | fileread (process : Fin count) (n : Int)
  /-- The next iteration of the loop of a `filewrite`. -/
  | step (process : Fin count)
  /-- Something else on the disk changes. -/
  | elsewhere (disk : Disk)

/-- `max` of `filewrite`. -/
def maxChunk : Nat := (MAXOPBLOCKS - 1 - 1 - 2) / 2 * BSIZE

variable (sb : Superblock) (inum : Nat) {count : Nat}

section

variable (state : State count) (process : Fin count)

/-- `if(r > 0) f->off += r`. -/
def State.move (call : Option Nat) (r : Int) (bytes : List UInt8) : State count :=
  if r > 0 then
    { state with
      file := { state.file with off := uadd state.file.off r.toNat }
      sections := state.sections ++ [⟨call, state.file.off, bytes⟩] }
  else
    state

@[simp]
theorem State.move_calls (call : Option Nat) (r : Int) (bytes : List UInt8) :
    (state.move call r bytes).calls = state.calls := by
  unfold State.move
  split <;> rfl

/-- `ret = (i == n ? n : -1)`. -/
def State.finish (id : Nat) : State count :=
  let call := state.calls id
  { state with
    calls := overwrite state.calls id
      { call with returned := some (if (call.i : Int) = call.n then call.n else -1) }
    running := overwrite state.running process none }

/-- One transaction of `filewrite`. -/
def writeSection (id : Nat) : State count :=
  let call := state.calls id
  let n1 := min (call.n - call.i).toNat maxChunk
  match writei sb state.disk inum state.ip (fun index => some (call.data (call.i + index)))
      state.file.off n1 with
  | .error reason => { state with panic := some reason }
  | .ok (r, ip, disk) =>
    let bytes := (List.range r.toNat).map fun index => call.data (call.i + index)
    let state := { state with ip, disk }.move (some id) r bytes
    if r ≠ n1 then
      -- error from writei
      state.finish process id
    else
      { state with calls := overwrite state.calls id { call with i := call.i + r.toNat } }

/-- The `int` argument of `fileread` becomes the `uint` argument of `readi`. -/
def readSection (n : Int) : State count :=
  match readi sb state.disk state.ip (fun _ => true) state.file.off (n % 2 ^ 32).toNat with
  | .error reason => { state with panic := some reason }
  | .ok (r, bytes, ip, disk) => { state with ip, disk }.move none r bytes

def State.begin (data : Nat → UInt8) (n : Int) : State count :=
  if state.file.writable then
    { state with
      calls := overwrite state.calls state.started ⟨data, n, 0, none⟩
      started := state.started + 1
      running := overwrite state.running process (some state.started) }
  else
    { state with
      calls := overwrite state.calls state.started ⟨data, n, 0, some (-1)⟩
      started := state.started + 1 }

end

def step (state : State count) (event : Event count) : Option (State count) :=
  if state.panic.isSome then
    none
  else
    match event with
    | .filewrite process data n =>
      if state.running process = none then some (state.begin process data n) else none
    | .fileread process n =>
      if state.running process = none then
        some (if state.file.readable then readSection sb state n else state)
      else
        none
    | .step process =>
      match state.running process with
      | none => none
      | some id =>
        if ((state.calls id).i : Int) < (state.calls id).n then
          some (writeSection sb inum state process id)
        else
          some (state.finish process id)
    | .elsewhere disk => some { state with disk }

/-- An open file, at offset `start`, of an allocated inode. -/
def machine (start count : Nat) : Machine (State count) (Event count) where
  initial state := WellFormed sb state.disk ∧ inum < sb.ninodes ∧
    state.ip = dinode sb state.disk inum ∧ state.ip.type ≠ 0 ∧ state.file.off = start ∧
    start < 2 ^ 32 ∧ state.started = 0 ∧ state.sections = [] ∧ state.panic = none ∧
    ∀ process, state.running process = none
  step := step sb inum

/-- Nobody else writes to the inode or truncates it. -/
def Undisturbed (state : State count) : Event count → Prop
  | .elsewhere disk => WellFormed sb disk ∧ dinode sb disk inum = dinode sb state.disk inum ∧
      contents sb disk inum = contents sb state.disk inum
  | _ => True

/-! ## Consecutive sections -/

/-- Every section starts where the one before it ended. -/
def Consecutive : Nat → List Section → Nat → Prop
  | start, [], final => final = start
  | start, first :: rest, final =>
    first.off = start ∧ Consecutive (start + first.bytes.length) rest final

variable {start final : Nat} {sections : List Section} {next : Section}

section

variable (consecutive : Consecutive start sections final)

include consecutive

theorem Consecutive.snoc (here : next.off = final) :
    Consecutive start (sections ++ [next]) (final + next.bytes.length) := by
  induction sections generalizing start with
  | nil =>
    cases consecutive
    exact ⟨here, rfl⟩
  | cons first rest ih => exact ⟨consecutive.1, ih consecutive.2⟩

theorem Consecutive.final_eq :
    final = start + (sections.map fun each => each.bytes.length).sum := by
  induction sections generalizing start with
  | nil => exact consecutive
  | cons first rest ih =>
    rw [ih consecutive.2, List.map_cons, List.sum_cons, Nat.add_assoc]

theorem Consecutive.bounds :
    start ≤ final ∧ ∀ each ∈ sections, start ≤ each.off ∧ each.off + each.bytes.length ≤ final := by
  induction sections generalizing start with
  | nil =>
    cases consecutive
    exact ⟨Nat.le_refl _, nofun⟩
  | cons first rest ih =>
    obtain ⟨le, inside⟩ := ih consecutive.2
    obtain ⟨rfl, _⟩ := consecutive
    refine ⟨by omega, fun each member => ?_⟩
    rcases List.mem_cons.mp member with rfl | later
    · exact ⟨Nat.le_refl _, le⟩
    · obtain ⟨lower, upper⟩ := inside each later
      exact ⟨by omega, upper⟩

theorem Consecutive.disjoint :
    sections.Pairwise fun earlier later => earlier.off + earlier.bytes.length ≤ later.off := by
  induction sections generalizing start with
  | nil => exact List.Pairwise.nil
  | cons first rest ih =>
    refine List.Pairwise.cons (fun later member => ?_) (ih consecutive.2)
    rw [consecutive.1]
    exact (consecutive.2.bounds.2 later member).1

end

/-- The bytes a `filewrite` has written, in the order of its sections. -/
def written (id : Nat) (sections : List Section) : List UInt8 :=
  (sections.filter fun each => each.call = some id).flatMap Section.bytes

variable {id : Nat}

theorem written_snoc_self (own : next.call = some id) :
    written id (sections ++ [next]) = written id sections ++ next.bytes := by
  simp [written, List.filter_append, own]

theorem written_snoc_other (other : next.call ≠ some id) :
    written id (sections ++ [next]) = written id sections := by
  simp [written, List.filter_append, other]

theorem written_fresh (fresh : ∀ each ∈ sections, each.call ≠ some id) :
    written id sections = [] := by
  have none : (sections.filter fun each => each.call = some id) = [] := by
    simpa [List.filter_eq_nil_iff] using fresh
  rw [written, none]
  rfl

/-! ## What the sections leave in the file -/

/-- The sections follow each other, and the file holds what they read or wrote. -/
structure Placed (start : Nat) (state : State count) : Prop where
  wellFormed : WellFormed sb state.disk
  inside : inum < sb.ninodes
  synced : state.ip = dinode sb state.disk inum
  live : (dinode sb state.disk inum).type ≠ 0
  fits : state.file.off < 2 ^ 32
  consecutive : Consecutive start state.sections state.file.off
  held : ∀ each ∈ state.sections,
    ((contents sb state.disk inum).drop each.off).take each.bytes.length = each.bytes

variable {sb inum} {state : State count} {start : Nat} {disk : Disk}

/-- A section that leaves alone what lies before `f->off` and has its own bytes from there on. -/
theorem Placed.move {ip : Dinode} (placed : Placed sb inum start state) (call : Option Nat)
    {r : Int} {bytes : List UInt8} (count : r = bytes.length) (wellFormed : WellFormed sb disk)
    (synced : ip = dinode sb disk inum) (live : ip.type ≠ 0)
    (fits : state.file.off + bytes.length < 2 ^ 32)
    (before : ∀ position length, position + length ≤ state.file.off →
      ((contents sb disk inum).drop position).take length =
      ((contents sb state.disk inum).drop position).take length)
    (own : ((contents sb disk inum).drop state.file.off).take bytes.length = bytes) :
    Placed sb inum start ({ state with ip, disk }.move call r bytes) := by
  have heldStill : ∀ each ∈ state.sections,
      ((contents sb disk inum).drop each.off).take each.bytes.length = each.bytes := by
    intro each member
    rw [before _ _ (placed.consecutive.bounds.2 each member).2]
    exact placed.held each member
  unfold State.move
  split
  · have sum : uadd state.file.off r.toNat = state.file.off + bytes.length := by
      rw [uadd, count, Int.toNat_natCast, Nat.mod_eq_of_lt fits]
    constructor
    · exact wellFormed
    · exact placed.inside
    · exact synced
    · exact synced ▸ live
    · simp only [sum]
      exact fits
    · simp only [sum]
      exact placed.consecutive.snoc rfl
    · intro each member
      rcases List.mem_append.mp member with earlier | new
      · exact heldStill each earlier
      · cases List.mem_singleton.mp new
        exact own
  · exact ⟨wellFormed, placed.inside, synced, synced ▸ live, placed.fits, placed.consecutive, heldStill⟩

theorem Placed.writei (placed : Placed sb inum start state) (data : Nat → UInt8) (i : Nat) {n1 : Nat}
    (small : n1 < 2 ^ 32) :
    Ensures (fun _ => True)
      (fun result => (result.1 = -1 ∧ result.2.1 = state.ip ∧ result.2.2 = state.disk) ∨
        (result.1 = (n1 : Int) ∧ ∀ call, Placed sb inum start
          ({ state with ip := result.2.1, disk := result.2.2 }.move call result.1
            ((List.range n1).map fun index => data (i + index)))))
      (writei sb state.disk inum state.ip (fun index => some (data (i + index))) state.file.off n1) := by
  rw [placed.synced]
  by_cases refused : Refused (dinode sb state.disk inum).size state.file.off n1
  · rw [writei_refused _ placed.fits small refused]
    exact Or.inl ⟨rfl, rfl, rfl⟩
  · refine ((writei_accepted placed.wellFormed placed.inside placed.live _ placed.fits small
      refused).mono fun ⟨r, ip, disk⟩ flat => ?_).mono_errors fun _ _ => trivial
    obtain ⟨count, spliced⟩ := flat.all fun _ _ => rfl
    simp only [Refused, not_or, Nat.not_lt, Nat.not_le] at refused
    have below : state.file.off ≤ (contents sb state.disk inum).length := by
      rw [contents_length]
      exact refused.1
    have bytes : sourceBytes (fun index => some (data (i + index))) n1 =
        (List.range n1).map fun index => data (i + index) := rfl
    rw [bytes] at spliced
    have length : ((List.range n1).map fun index => data (i + index)).length = n1 := by simp
    have type := flat.others.type inum placed.inside
    refine Or.inr ⟨count, fun call => placed.move call ?_ flat.others.wellFormed flat.synced ?_ ?_ ?_ ?_⟩
    · rw [length]
      exact count
    · rw [flat.synced, type]
      exact placed.live
    · rw [length]
      exact refused.2.1
    · intro position length before
      rw [spliced, splice_before below before]
    · rw [spliced, splice_self below]

theorem Placed.readSection (placed : Placed sb inum start state) (n : Int) :
    Placed sb inum start (readSection sb state n) := by
  have small : (n % 2 ^ 32).toNat < 2 ^ 32 := by omega
  have size : (dinode sb state.disk inum).size < 2 ^ 32 := (dinode_fits ..).size
  rw [Shared.readSection, placed.synced,
    readi_flat placed.wellFormed placed.inside placed.live placed.fits small fun _ _ => rfl]
  simp only
  refine placed.move none rfl placed.wellFormed rfl placed.live ?_ (fun _ _ _ => rfl) ?_
  · simp only [List.length_drop, List.length_take, contents_length]
    have fits := placed.fits
    omega
  · rw [List.drop_take]
    exact (List.prefix_iff_eq_take.mp (List.take_prefix ..)).symm

/-! ## What the calls have done -/

/-- The sections of a call are the first `i` bytes of its data. -/
structure Call.Sound (id : Nat) (sections : List Section) (call : Call) : Prop where
  progress : written id sections = (List.range call.i).map call.data
  returned : call.returned = some call.n → 0 ≤ call.n → (call.i : Int) = call.n

theorem Call.Sound.congr {later : List Section} {call : Call} (sound : call.Sound id sections)
    (same : written id later = written id sections) :
    call.Sound id later :=
  ⟨same.trans sound.progress, sound.returned⟩

structure Tracked (state : State count) : Prop where
  sound : ∀ id, id < state.started → (state.calls id).Sound id state.sections
  fresh : ∀ each ∈ state.sections, ∀ id, each.call = some id → id < state.started
  running : ∀ process id, state.running process = some id →
    id < state.started ∧ (state.calls id).returned = none
  alone : ∀ process other id, state.running process = some id → state.running other = some id →
    process = other

theorem Tracked.moveRead (tracked : Tracked state) {ip : Dinode} (r : Int) (bytes : List UInt8) :
    Tracked ({ state with ip, disk }.move none r bytes) := by
  unfold State.move
  split
  · refine { tracked with sound := ?_, fresh := ?_ }
    · intro id below
      exact (tracked.sound id below).congr (written_snoc_other nofun)
    · intro each member id own
      rcases List.mem_append.mp member with earlier | new
      · exact tracked.fresh each earlier id own
      · cases List.mem_singleton.mp new
        cases own
  · exact { tracked with }

theorem Tracked.moveWrite (tracked : Tracked state) {ip : Dinode} {n1 : Nat}
    (below : id < state.started) (unfinished : (state.calls id).returned = none) :
    Tracked { { state with ip, disk }.move (some id) n1
        ((List.range n1).map fun index => (state.calls id).data ((state.calls id).i + index)) with
      calls := overwrite state.calls id
        { state.calls id with i := (state.calls id).i + n1 } } := by
  have running : ∀ process other, state.running process = some other → other < state.started ∧
      (overwrite state.calls id { state.calls id with i := (state.calls id).i + n1 } other).returned =
        none := by
    intro process other inside
    refine ⟨(tracked.running process other inside).1, ?_⟩
    refine Eq.trans ?_ (tracked.running process other inside).2
    apply overwrite_congr Call.returned
    rfl
  unfold State.move
  split
  · refine ⟨fun other inside => ?_, fun each member other own => ?_, running, tracked.alone⟩
    · by_cases same : other = id
      · subst same
        simp only [overwrite_self]
        refine ⟨?_, fun equal => absurd (unfinished.symm.trans equal) (by simp)⟩
        rw [written_snoc_self rfl, (tracked.sound other below).progress, List.range_add,
          List.map_append, List.map_map]
        rfl
      · simp only [overwrite_of_ne same]
        refine (tracked.sound other inside).congr (written_snoc_other fun equal => ?_)
        exact same (Option.some.inj equal).symm
    · rcases List.mem_append.mp member with earlier | new
      · exact tracked.fresh each earlier other own
      · cases List.mem_singleton.mp new
        cases own
        exact below
  · rename_i empty
    obtain rfl : n1 = 0 := by omega
    refine ⟨fun other inside => ?_, tracked.fresh, running, tracked.alone⟩
    simp only [Nat.add_zero, overwrite_eq_self]
    exact tracked.sound other inside

variable {process : Fin count}

/-- A call starts or ends, and with it what one process is running. -/
theorem Tracked.turn {started : Nat} {call : Call} {current : Option Nat} (tracked : Tracked state)
    (sound : call.Sound id state.sections)
    (known : ∀ other, other < started → other ≠ id → other < state.started)
    (more : state.started ≤ started)
    (idle : ∀ other, other ≠ process → state.running other ≠ some id)
    (mine : ∀ other, current = some other → other = id ∧ id < started ∧ call.returned = none) :
    Tracked { state with
      calls := overwrite state.calls id call
      started
      running := overwrite state.running process current } := by
  constructor
  · intro other below
    by_cases same : other = id
    · subst same
      simp only [overwrite_self]
      exact sound
    · simp only [overwrite_of_ne same]
      exact tracked.sound other (known other below same)
  · exact fun each member other own => Nat.lt_of_lt_of_le (tracked.fresh each member other own) more
  · intro other running inside
    by_cases same : other = process
    · subst same
      simp only [overwrite_self] at inside
      obtain ⟨rfl, below, unfinished⟩ := mine running inside
      simp only [overwrite_self]
      exact ⟨below, unfinished⟩
    · simp only [overwrite_of_ne same] at inside
      have elsewhere : running ≠ id := fun equal => idle other same (equal ▸ inside)
      simp only [overwrite_of_ne elsewhere]
      obtain ⟨below, unfinished⟩ := tracked.running other running inside
      exact ⟨Nat.lt_of_lt_of_le below more, unfinished⟩
  · intro first second running here there
    by_cases left : first = process <;> by_cases right : second = process
    · rw [left, right]
    · subst left
      simp only [overwrite_self, overwrite_of_ne right] at here there
      exact absurd ((mine running here).1 ▸ there) (idle second right)
    · subst right
      simp only [overwrite_self, overwrite_of_ne left] at here there
      exact absurd ((mine running there).1 ▸ here) (idle first left)
    · simp only [overwrite_of_ne left, overwrite_of_ne right] at here there
      exact tracked.alone first second running here there

theorem Tracked.finish (tracked : Tracked state) (mine : state.running process = some id) :
    Tracked (state.finish process id) := by
  have below := (tracked.running process id mine).1
  refine tracked.turn ⟨(tracked.sound id below).progress, ?_⟩ (fun _ below _ => below) (Nat.le_refl _)
    (fun other different inside => different (tracked.alone other process id inside mine)) nofun
  intro returned nonneg
  simp only [Option.some.injEq] at returned nonneg ⊢
  split at returned
  · assumption
  · omega

theorem Tracked.begin (tracked : Tracked state) (resting : state.running process = none)
    (data : Nat → UInt8) (n : Int) :
    Tracked (state.begin process data n) := by
  have unused : written state.started state.sections = [] :=
    written_fresh fun each member own => Nat.lt_irrefl _ (tracked.fresh each member _ own)
  have idle : ∀ other, state.running other ≠ some state.started :=
    fun other inside => Nat.lt_irrefl _ (tracked.running other _ inside).1
  have known : ∀ other, other < state.started + 1 → other ≠ state.started → other < state.started := by
    intro other below different
    omega
  unfold State.begin
  split
  · refine tracked.turn ⟨unused, by simp⟩ known (Nat.le_succ _) (fun other _ => idle other) ?_
    intro other equal
    cases equal
    exact ⟨rfl, Nat.lt_succ_self _, rfl⟩
  · have same : state.running = overwrite state.running process none := by
      rw [← resting, overwrite_eq_self]
    rw [same]
    refine tracked.turn ⟨unused, fun returned nonneg => ?_⟩ known (Nat.le_succ _)
      (fun other _ => idle other) (by simp)
    simp only [Option.some.injEq] at returned nonneg
    omega

/-! ## Runs -/

structure Sound (sb : Superblock) (inum start : Nat) (state : State count) : Prop where
  placed : Placed sb inum start state
  tracked : Tracked state

theorem writeSection_sound (sound : Sound sb inum start state)
    (mine : state.running process = some id)
    (more : ((state.calls id).i : Int) < (state.calls id).n) :
    Sound sb inum start (writeSection sb inum state process id) := by
  obtain ⟨below, unfinished⟩ := sound.tracked.running process id mine
  have small : min ((state.calls id).n - (state.calls id).i).toNat maxChunk < 2 ^ 32 :=
    Nat.lt_of_le_of_lt (Nat.min_le_right ..) (by decide)
  have positive : 0 < min ((state.calls id).n - (state.calls id).i).toNat maxChunk := by
    have chunk : 0 < maxChunk := by decide
    omega
  unfold writeSection
  simp only
  generalize min ((state.calls id).n - (state.calls id).i).toNat maxChunk = n1 at *
  have outcome := sound.placed.writei (state.calls id).data (state.calls id).i small
  split
  · exact ⟨{ sound.placed with }, { sound.tracked with }⟩
  · rename_i r ip disk wrote
    rw [wrote] at outcome
    rcases outcome with ⟨rfl, rfl, rfl⟩ | ⟨rfl, placed⟩
    · -- The chunk does not fit, and nothing has happened.
      have unmoved : ∀ bytes, ({ state with ip := state.ip, disk := state.disk } : State count).move
          (some id) (-1) bytes = state := fun _ => if_neg (by decide)
      rw [unmoved, if_pos (by omega)]
      exact ⟨{ sound.placed with }, sound.tracked.finish mine⟩
    · rw [if_neg (by simp), Int.toNat_natCast, State.move_calls]
      have moved := placed (some id)
      exact ⟨{ moved with }, sound.tracked.moveWrite below unfinished⟩

theorem step_sound {event : Event count} {after : State count} (sound : Sound sb inum start state)
    (undisturbed : Undisturbed sb inum state event) (stepped : step sb inum state event = some after) :
    Sound sb inum start after := by
  unfold step at stepped
  split at stepped
  · contradiction
  · cases event with
    | filewrite process data n =>
      simp only at stepped
      split at stepped
      · rename_i resting
        cases stepped
        refine ⟨?_, sound.tracked.begin resting data n⟩
        unfold State.begin
        split <;> exact { sound.placed with }
      · contradiction
    | fileread process n =>
      simp only at stepped
      split at stepped
      · cases stepped
        split
        · refine ⟨sound.placed.readSection n, ?_⟩
          unfold readSection
          split
          · exact { sound.tracked with }
          · exact sound.tracked.moveRead _ _
        · exact sound
      · contradiction
    | step process =>
      simp only at stepped
      split at stepped
      · contradiction
      · rename_i id mine
        split at stepped
        · rename_i more
          cases stepped
          exact writeSection_sound sound mine more
        · cases stepped
          exact ⟨{ sound.placed with }, sound.tracked.finish mine⟩
    | elsewhere disk =>
      cases stepped
      obtain ⟨wellFormed, inode, same⟩ := undisturbed
      refine ⟨?_, { sound.tracked with }⟩
      have placed := sound.placed
      constructor
      · exact wellFormed
      · exact placed.inside
      · exact placed.synced.trans inode.symm
      · rw [inode]
        exact placed.live
      · exact placed.fits
      · exact placed.consecutive
      · rw [same]
        exact placed.held

theorem initial_sound (initial : (machine sb inum start count).initial state) :
    Sound sb inum start state := by
  obtain ⟨wellFormed, inside, synced, live, off, fits, started, sections, _, resting⟩ := initial
  constructor
  · constructor
    · exact wellFormed
    · exact inside
    · exact synced
    · exact synced ▸ live
    · exact off ▸ fits
    · rw [sections]
      exact off
    · rw [sections]
      nofun
  · constructor
    · rw [started]
      nofun
    · rw [sections]
      nofun
    · intro process id running
      rw [resting] at running
      contradiction
    · intro process other id running
      rw [resting] at running
      contradiction

/-- Whatever the interleaving, the sections of the calls follow each other in the file, which
still holds what they wrote; `f->off` is where the last one ended.  The sections of a
`filewrite` make up its data as far as it has got, and all of it when it returns `n`. -/
theorem shared_offset_sections {history : List (Event count)}
    (run : Run (machine sb inum start count) (Undisturbed sb inum) history state) :
    Consecutive start state.sections state.file.off ∧
    (state.sections.Pairwise fun earlier later => earlier.off + earlier.bytes.length ≤ later.off) ∧
    state.file.off = start + (state.sections.map fun each => each.bytes.length).sum ∧
    (∀ each ∈ state.sections,
      ((contents sb state.disk inum).drop each.off).take each.bytes.length = each.bytes) ∧
    ∀ id, id < state.started →
      written id state.sections = (List.range (state.calls id).i).map (state.calls id).data ∧
      ((state.calls id).returned = some (state.calls id).n → 0 ≤ (state.calls id).n →
        ((state.calls id).i : Int) = (state.calls id).n) := by
  have sound : Sound sb inum start state :=
    run.invariant (fun _ initial => initial_sound initial)
      fun _ _ _ sound undisturbed stepped => step_sound sound undisturbed stepped
  have consecutive := sound.placed.consecutive
  refine ⟨consecutive, consecutive.disjoint, consecutive.final_eq, sound.placed.held, fun id below => ?_⟩
  have call := sound.tracked.sound id below
  exact ⟨call.progress, call.returned⟩

/-- The small image with a new file, inode 1. -/
def newFileDisk : Disk :=
  match (Fs.machine smallSuperblock).execute smallState [.ialloc 2] with
  | none => smallDisk
  | some state => state.fs.disk

theorem newFileDisk_wellFormed : WellFormed smallSuperblock newFileDisk := by
  unfold newFileDisk
  split
  · exact smallDisk_wellFormed
  · rename_i state executed
    exact (reachable_invariant (.of_execute smallState_initial executed)).1.owned.wellFormed

def opened : State 2 where
  disk := newFileDisk
  ip := dinode smallSuperblock newFileDisk 1
  file := ⟨true, true, 0⟩
  calls _ := ⟨fun _ => 0, 0, 0, none⟩
  started := 0
  running _ := none
  sections := []
  panic := none

/-- Two processes write to one file; the second comes first. -/
def crossedWrites : List (Event 2) :=
  [.filewrite 0 (fun _ => 65) 3, .filewrite 1 (fun _ => 66) 2, .step 1, .step 0, .step 0, .step 1]

theorem shared_offset_sections_crossed : ∃ history state,
    Run (machine smallSuperblock 1 0 2) (Undisturbed smallSuperblock 1) history state ∧
      state.file.off = 5 ∧ (state.calls 0).returned = some 3 ∧
      written 0 state.sections = [65, 65, 65] := by
  have ran : ((machine smallSuperblock 1 0 2).execute opened crossedWrites).map
      (fun state => (state.file.off, state.started, (state.calls 0).returned, (state.calls 0).n,
        (List.range 3).map (state.calls 0).data)) = some (5, 2, some 3, 3, [65, 65, 65]) := by
    decide +kernel
  obtain ⟨state, executed, shown⟩ := Option.map_eq_some_iff.mp ran
  simp only [Prod.mk.injEq] at shown
  obtain ⟨off, started, returned, n, data⟩ := shown
  have live : (dinode smallSuperblock newFileDisk 1).type ≠ 0 := by decide +kernel
  have initial : (machine smallSuperblock 1 0 2).initial opened :=
    ⟨newFileDisk_wellFormed, by decide, rfl, live, rfl, by decide, rfl, rfl, rfl, fun _ => rfl⟩
  have permitted : ∀ event ∈ crossedWrites, ∀ state, Undisturbed smallSuperblock 1 state event := by
    simp [crossedWrites, Undisturbed]
  have run := (Run.start initial).execute_permitted permitted executed
  obtain ⟨_, _, _, _, calls⟩ := shared_offset_sections run
  obtain ⟨progress, complete⟩ := calls 0 (by omega)
  have i : (state.calls 0).i = 3 := by
    have all := complete (returned.trans (by rw [n])) (by omega)
    omega
  exact ⟨_, state, run, off, returned, by rw [progress, i, data]⟩

end Xv6.Fs.Shared
