import Xv6.Ipc.PipeSleep

namespace Xv6.Ipc.Sleep

open Xv6.Data Xv6.Transition

/-! # What holds between the steps of a pipe

Whoever sleeps on a channel of a pipe has nothing to do there, unless the process with the
lock is still going to wake it: `calm` says that the run keeps `kill` from spoiling that.
`inMemory` says that no `piperead` of the run has an unmapped buffer.
-/

/-- There is nothing to do for those who sleep on the channel. -/
def blocks (pipe : Pipe) : Channel → Prop
  | .nread => pipe.nread = pipe.nwrite ∧ pipe.writeopen = true
  | .nwrite => pipe.nwrite = pipe.nread + BitVec.ofNat 32 PIPESIZE ∧ pipe.readopen = true

/-- The end of the file. -/
def drained (pipe : Pipe) : Prop := pipe.nread = pipe.nwrite ∧ pipe.writeopen = false

/-- The channel a process sleeps on, or is about to sleep on. -/
def Proc.channel (proc : Proc) : Option Channel :=
  match proc.pc with
  | .sleepRelease channel _ | .sleepMark channel _ => some channel
  | _ => proc.sleeping

/-- The code from here to `release` still wakes process `index`, if it sleeps on the channel. -/
def Point.wakes (channel : Channel) (index : Nat) : Point → Prop
  | .write _ _ _ fresh => channel = .nread ∧ fresh = true
  | .writeWake _ _ _ next | .writeDone _ _ _ next => channel = .nread ∧ next ≤ index
  | .readCopy _ _ _ => channel = .nwrite
  | .readDone _ _ _ next => channel = .nwrite ∧ next ≤ index
  | .closeWake writable next => channel = closeChannel writable ∧ next ≤ index
  | _ => False

def Pc.wakes (channel : Channel) (index : Nat) : Pc → Prop
  | .inside point => point.wakes channel index
  | _ => False

/-- The places where the process holds `pi->lock`. -/
def Pc.pipeLock : Pc → Bool
  | .inside _ | .sleepRelease _ _ => true
  | _ => false

/-- The buffer of a `piperead` lies in mapped memory. -/
def Call.mapped : Call → Prop
  | .piperead writable n => ∀ index, index < n.toNat → writable index = true
  | _ => True

/-- The bytes are the first ones of a buffer. -/
def Copies (source : Nat → Option UInt8) (i : Nat) (bytes : List UInt8) : Prop :=
  bytes.map some = (List.range i).map source

/-- A call that has stored the bytes returns the value. -/
def Call.Returns (inMemory : Prop) (pipe : Pipe) (bytes : List UInt8) (value : Int) : Call → Prop
  | .pipewrite source _ => Copies source bytes.length bytes ∧ (value = -1 ∨ value = bytes.length)
  | .piperead _ n => inMemory → value = 0 → 0 < n → drained pipe
  | .pipeclose _ => True

section

variable (calm inMemory : Prop) (pipe : Pipe) (bytes : List UInt8) (killed : Bool)

/-- The places a call starts from after `acquire`, and again after `sleep`. -/
def Point.Starts : Point → Prop
  | .write source _ i fresh => fresh = false ∧ Copies source i bytes
  | .readTest writable n => inMemory → (Call.piperead writable n).mapped
  | .close _ => True
  | _ => False

/-- What the process that holds the lock has found out. -/
def Point.Fits : Point → Prop
  | .write source n i fresh => Copies source i bytes ∧
    (calm → fresh = true → (i : Int) < n → pipe.readopen = true ∧ killed = false)
  | .writeWake source _ i _ | .writeSleep source _ i => Copies source i bytes ∧ blocks pipe .nwrite
  | .writeDone source _ i _ => Copies source i bytes
  | .readTest writable n => inMemory → (Call.piperead writable n).mapped
  | .readSleep writable n => (inMemory → (Call.piperead writable n).mapped) ∧ blocks pipe .nread
  | .readCopy writable n i => (inMemory → (Call.piperead writable n).mapped) ∧
    (i = 0 → pipe.nread = pipe.nwrite → pipe.writeopen = false)
  | .readDone _ n i _ => inMemory → i = 0 → 0 < n → drained pipe
  | .release call value => call.Returns inMemory pipe bytes value
  | .close _ | .closeWake _ _ => True

def Pc.Fits : Pc → Prop
  | .outside => True
  | .inside point => point.Fits calm inMemory pipe bytes killed
  | .sleepRelease channel back => blocks pipe channel ∧ back.Starts inMemory bytes
  | .acquire back | .sleepMark _ back | .asleep _ back => back.Starts inMemory bytes

end

/-- A place where a process goes to or comes from while it is not switched out. -/
def Pc.awake : Pc → Bool
  | .asleep _ _ => false
  | _ => true

variable {count : Nat} {state : State count} {process : Fin count} {calm inMemory : Prop}

/-- The bytes that the last call of a process has stored. -/
def State.bytes (state : State count) (process : Fin count) : List UInt8 :=
  (sent process state.log).drop (state.base process)

structure Invariant (calm inMemory : Prop) (state : State count) : Prop where
  fifo : inMemory → Fifo (state.log.map Prod.snd) state.pipe
  base : ∀ process, state.base process ≤ (sent process state.log).length
  lock : ∀ process, state.lock = some process ↔ (state.proc process).pc.pipeLock = true
  awake : ∀ process, (state.proc process).pc.awake = true → (state.proc process).sleeping = none
  fits : ∀ process, (state.proc process).pc.Fits calm inMemory state.pipe (state.bytes process)
    (state.proc process).killed
  waiting : calm → ∀ other channel, (state.proc other).channel = some channel →
    blocks state.pipe channel ∨ ∃ process, (state.proc process).pc.wakes channel other

/-! ## The bytes of a call -/

theorem Copies.length {source : Nat → Option UInt8} {i : Nat} {bytes : List UInt8}
    (copies : Copies source i bytes) : bytes.length = i := by
  simpa using congrArg List.length copies

theorem Copies.snoc {source : Nat → Option UInt8} {i : Nat} {bytes : List UInt8} {ch : UInt8}
    (copies : Copies source i bytes) (next : source i = some ch) :
    Copies source (i + 1) (bytes ++ [ch]) := by
  rw [Copies, List.map_append, copies, List.range_succ, List.map_append, List.map_singleton,
    List.map_singleton, next]

theorem sent_snoc_self (log : List (Fin count × UInt8)) (ch : UInt8) :
    sent process (log ++ [(process, ch)]) = sent process log ++ [ch] := by
  simp [sent, List.filter_append]

theorem sent_snoc_other {other : Fin count} (different : other ≠ process)
    (log : List (Fin count × UInt8)) (ch : UInt8) :
    sent other (log ++ [(process, ch)]) = sent other log := by
  simp [sent, List.filter_append, Ne.symm different]

/-! ## Moves -/

variable {pc old : Pc} {pipe : Pipe}

theorem Pc.wakes.pipeLock {channel : Channel} {index : Nat} (wakes : pc.wakes channel index) :
    pc.pipeLock = true := by
  cases pc with
  | inside point => rfl
  | _ => contradiction

theorem Pc.Fits.of_unlocked {other : Pipe} {bytes : List UInt8} {killed later : Bool}
    (fits : pc.Fits calm inMemory pipe bytes killed) (outside : pc.pipeLock = false) :
    pc.Fits calm inMemory other bytes later := by
  cases pc with
  | inside point | sleepRelease channel back => contradiction
  | _ => exact fits

theorem Invariant.running (invariant : Invariant calm inMemory state)
    (here : (state.proc process).pc = old) (before : old.pipeLock = true) :
    (state.proc process).sleeping = none := by
  apply invariant.awake
  rw [here]
  cases old <;> first | rfl | contradiction

/-- The process that holds the lock takes a step, and perhaps stores a byte. -/
theorem Invariant.advance {log : List (Fin count × UInt8)} (invariant : Invariant calm inMemory state)
    (here : (state.proc process).pc = old) (before : old.pipeLock = true) (after : pc.pipeLock = true)
    (grown : log = state.log ∨ ∃ ch, log = state.log ++ [(process, ch)])
    (fifo : inMemory → Fifo (log.map Prod.snd) pipe)
    (fits : pc.Fits calm inMemory pipe ((sent process log).drop (state.base process))
      (state.proc process).killed)
    (waiting : calm → ∀ (other : Fin count) channel,
      blocks state.pipe channel ∨ old.wakes channel other →
      (state.proc other).channel = some channel → other ≠ process →
      blocks pipe channel ∨ pc.wakes channel other) :
    Invariant calm inMemory ({ state with pipe, log }.goto process pc) := by
  have running := invariant.running here before
  subst here
  have lock := (invariant.lock process).mpr before
  have alone : ∀ other, other ≠ process → (state.proc other).pc.pipeLock = false := by
    intro other different
    by_contra held
    have same := (invariant.lock other).mpr (Bool.eq_true_of_not_eq_false held)
    exact different (Option.some.inj (same.symm.trans lock))
  have kept : ∀ other, other ≠ process → sent other log = sent other state.log := by
    intro other different
    obtain rfl | ⟨ch, rfl⟩ := grown
    · rfl
    · exact sent_snoc_other different ..
  constructor
  · exact fifo
  · intro other
    have begun := invariant.base other
    obtain rfl | ⟨ch, rfl⟩ := grown
    · exact begun
    · show _ ≤ (sent other (state.log ++ [(process, ch)])).length
      refine Nat.le_trans begun ?_
      rw [sent, sent, List.filter_append, List.map_append, List.length_append]
      exact Nat.le_add_right ..
  · refine overwrite_rec (p := fun other (proc : Proc) => state.lock = some other ↔ proc.pc.pipeLock = true)
      (iff_of_true lock after) fun other _ => invariant.lock other
  · exact overwrite_rec (p := fun _ (proc : Proc) => proc.pc.awake = true → proc.sleeping = none)
      (fun _ => running) fun other _ => invariant.awake other
  · refine overwrite_rec (p := fun other (proc : Proc) => proc.pc.Fits calm inMemory pipe
      ((sent other log).drop (state.base other)) proc.killed) fits fun other different => ?_
    rw [kept other different]
    exact (invariant.fits other).of_unlocked (alone other different)
  · intro quiet other channel sleeps
    by_cases same : other = process
    · subst same
      simp only [State.goto, overwrite_self] at sleeps
      cases pc with
      | sleepRelease own back =>
        cases sleeps
        exact .inl fits.1
      | inside point =>
        simp only [Proc.channel, running] at sleeps
        contradiction
      | _ => contradiction
    · simp only [State.goto, overwrite_of_ne same] at sleeps ⊢
      have covered : blocks state.pipe channel ∨ (state.proc process).pc.wakes channel other := by
        obtain blocked | ⟨waker, wakes⟩ := invariant.waiting quiet other channel sleeps
        · exact .inl blocked
        · have holder := (invariant.lock waker).mpr wakes.pipeLock
          rw [lock] at holder
          cases holder
          exact .inr wakes
      obtain blocked | wakes := waiting quiet other channel covered sleeps same
      · exact .inl blocked
      · exact .inr ⟨process, by rwa [overwrite_self]⟩

/-- The process that holds the lock goes on and leaves the pipe as it is. -/
theorem Invariant.proceed (invariant : Invariant calm inMemory state)
    (here : (state.proc process).pc = old) (before : old.pipeLock = true) (after : pc.pipeLock = true)
    (fits : pc.Fits calm inMemory state.pipe (state.bytes process) (state.proc process).killed)
    (waiting : ∀ (other : Fin count) channel, blocks state.pipe channel ∨ old.wakes channel other →
      (state.proc other).channel = some channel → other ≠ process →
      blocks state.pipe channel ∨ pc.wakes channel other) :
    Invariant calm inMemory (state.goto process pc) :=
  invariant.advance here before after (.inl rfl) invariant.fifo fits fun _ => waiting

theorem channel_of_unlocked (unlocked : pc.ownLock = false) (sleeping : Option Channel)
    (killed : Bool) : (Proc.mk pc sleeping killed).channel = sleeping := by
  cases pc with
  | sleepRelease channel back | sleepMark channel back => contradiction
  | _ => rfl

/-- A process goes on with what it was waking and sleeping on, and leaves the pipe as it is. -/
theorem Invariant.change {lock : Option (Fin count)} {proc : Proc}
    (invariant : Invariant calm inMemory state)
    (wakes : ∀ channel index, (state.proc process).pc.wakes channel index →
      proc.pc.wakes channel index)
    (channel : ∀ channel, proc.channel = some channel →
      (state.proc process).channel = some channel)
    (own : lock = some process ↔ proc.pc.pipeLock = true)
    (others : ∀ other, other ≠ process → (lock = some other ↔ state.lock = some other))
    (awake : proc.pc.awake = true → proc.sleeping = none)
    (fits : proc.pc.Fits calm inMemory state.pipe (state.bytes process) proc.killed) :
    Invariant calm inMemory { state with lock, proc := overwrite state.proc process proc } := by
  refine ⟨invariant.fifo, invariant.base, ?_, ?_, ?_, fun quiet other waited sleeps => ?_⟩
  · exact overwrite_rec (p := fun other (proc : Proc) => lock = some other ↔ proc.pc.pipeLock = true) own
      fun other different => (others other different).trans (invariant.lock other)
  · exact overwrite_rec (p := fun _ (proc : Proc) => proc.pc.awake = true → proc.sleeping = none) awake
      fun other _ => invariant.awake other
  · exact overwrite_rec (p := fun other (proc : Proc) => proc.pc.Fits calm inMemory state.pipe
      (state.bytes other) proc.killed) fits fun other _ => invariant.fits other
  · have slept : (state.proc other).channel = some waited :=
      overwrite_rec (p := fun other (proc : Proc) => proc.channel = some waited →
        (state.proc other).channel = some waited) (channel waited) (fun _ _ => id) other sleeps
    obtain blocked | ⟨waker, waking⟩ := invariant.waiting quiet other waited slept
    · exact .inl blocked
    · refine .inr ⟨waker, ?_⟩
      exact overwrite_rec (p := fun waker (proc : Proc) => (state.proc waker).pc.wakes waited other →
        proc.pc.wakes waited other) (wakes waited other) (fun _ _ => id) waker waking

theorem Invariant.rouse {other : Fin count} (killed : Bool) (invariant : Invariant calm inMemory state)
    (unlocked : (state.proc other).pc.ownLock = false)
    (unharmed : (state.proc other).pc.Fits calm inMemory state.pipe (state.bytes other) killed) :
    Invariant calm inMemory { state with
      proc := overwrite state.proc other ⟨(state.proc other).pc, none, killed⟩ } := by
  refine invariant.change (fun _ _ => id) ?_ (invariant.lock other) (fun _ _ => Iff.rfl)
    (fun _ => rfl) unharmed
  rw [channel_of_unlocked unlocked]
  nofun

theorem Invariant.move {lock : Option (Fin count)} {sleeping : Option Channel}
    (invariant : Invariant calm inMemory state) (here : (state.proc process).pc = old)
    (idle : ∀ channel index, ¬ old.wakes channel index)
    (channel : (Proc.mk pc sleeping (state.proc process).killed).channel =
      (Proc.mk old (state.proc process).sleeping (state.proc process).killed).channel)
    (own : lock = some process ↔ pc.pipeLock = true)
    (others : ∀ other, other ≠ process → (lock = some other ↔ state.lock = some other))
    (awake : pc.awake = true → sleeping = none)
    (fits : pc.Fits calm inMemory state.pipe (state.bytes process) (state.proc process).killed) :
    Invariant calm inMemory { state with
      lock, proc := overwrite state.proc process { state.proc process with pc, sleeping } } := by
  subst here
  exact invariant.change (fun _ _ wakes => absurd wakes (idle _ _))
    (fun _ sleeps => channel ▸ sleeps) own others awake fits

variable {after : State count} {point : Point}

/-- After the rest of a `wakeup`, somebody who still sleeps had nothing to be woken for. -/
theorem Invariant.wake {channel : Channel} {index : Nat} {next done : Pc}
    (invariant : Invariant calm inMemory state) (here : (state.proc process).pc = .inside point)
    (stepped : state.wake process channel index next done = some after)
    (before : ∀ waker (position : Nat), point.wakes waker position →
      waker = channel ∧ index ≤ position)
    (nextWakes : ∀ position, index + 1 ≤ position → next.wakes channel position)
    (nextLocked : next.pipeLock = true) (doneLocked : done.pipeLock = true)
    (nextFits : next.Fits calm inMemory state.pipe (state.bytes process) (state.proc process).killed)
    (doneFits : done.Fits calm inMemory state.pipe (state.bytes process) (state.proc process).killed) :
    Invariant calm inMemory after := by
  -- Whoever is not at this place of the table is woken by the next iterations.
  have later : ∀ {other : Fin count} {waker}, (other : Nat) ≠ index →
      blocks state.pipe waker ∨ point.wakes waker other →
      blocks state.pipe waker ∨ next.wakes waker other := by
    intro other waker elsewhere covered
    obtain blocked | wakes := covered
    · exact .inl blocked
    · obtain ⟨rfl, passed⟩ := before waker other wakes
      exact .inr (nextWakes other (by omega))
  unfold State.wake at stepped
  cases found : wakeup process (fun other => (state.proc other).pc.ownLock)
      (fun other => decide ((state.proc other).sleeping = some channel)) index with
  | ended =>
    rw [found] at stepped
    cases stepped
    refine invariant.proceed here rfl doneLocked doneFits fun other waker covered _ _ => ?_
    obtain blocked | wakes := covered
    · exact .inl blocked
    · obtain ⟨_, passed⟩ := before waker other wakes
      have bound := other.isLt
      have all := wakeup_ended found
      omega
  | spins =>
    rw [found] at stepped
    cases stepped
  | passes =>
    rw [found] at stepped
    cases stepped
    refine invariant.proceed here rfl nextLocked nextFits fun other waker covered sleeps different => ?_
    obtain blocked | wakes := covered
    · exact .inl blocked
    · refine later (fun same => ?_) (.inr wakes)
      obtain ⟨unlocked, awake⟩ := wakeup_passes found same different
      have channel := channel_of_unlocked unlocked (state.proc other).sleeping (state.proc other).killed
      exact of_decide_eq_false awake ((before waker _ wakes).1 ▸ channel.symm.trans sleeps)
  | wakes sleeper =>
    rw [found] at stepped
    cases stepped
    obtain ⟨place, different, unlocked, _⟩ := wakeup_wakes found
    have roused := invariant.rouse (state.proc sleeper).killed unlocked (invariant.fits sleeper)
    have sameProc : ∀ {entry}, overwrite state.proc sleeper entry process = state.proc process :=
      overwrite_of_ne (Ne.symm different)
    refine roused.proceed ((congrArg Proc.pc sameProc).trans here) rfl nextLocked ?_
      fun other waker covered sleeps _ => ?_
    · simp only [sameProc]
      exact nextFits
    · refine later (fun same => ?_) covered
      obtain rfl : other = sleeper := Fin.ext (same.trans place.symm)
      simp only [overwrite_self, channel_of_unlocked unlocked none _] at sleeps
      contradiction

/-! ## Steps -/

theorem Point.Starts.fits {bytes : List UInt8} {killed : Bool} (starts : point.Starts inMemory bytes) :
    (Pc.inside point).Fits calm inMemory pipe bytes killed := by
  cases point with
  | write source n i fresh =>
    obtain ⟨rfl, copies⟩ := starts
    exact ⟨copies, fun _ => nofun⟩
  | readTest writable n | close writable => exact starts
  | _ => contradiction

theorem Call.start_starts {call : Call} (mapped : inMemory → call.mapped) :
    call.start.Starts inMemory [] := by
  cases call with
  | pipewrite source n => exact ⟨rfl, rfl⟩
  | piperead writable n => exact mapped
  | pipeclose writable => trivial

section

variable (invariant : Invariant calm inMemory state)

include invariant

theorem writeStep_invariant {source : Nat → Option UInt8} {n : Int} {i : Nat} {fresh : Bool}
    (here : (state.proc process).pc = .inside (.write source n i fresh)) :
    Invariant calm inMemory (writeStep state process source n i) := by
  have known := invariant.fits process
  rw [here] at known
  obtain ⟨copies, alive⟩ := known
  -- The final `wakeup`, or the one before `sleep`, wakes everybody on `&pi->nread`.
  have announces : ∀ (point : Point) {position : Nat}, point.wakes .nread position →
      ∀ {waker}, blocks state.pipe waker ∨ (Point.write source n i fresh).wakes waker position →
      blocks state.pipe waker ∨ point.wakes waker position := by
    intro point position wakes waker covered
    obtain blocked | ⟨rfl, _⟩ := covered
    · exact .inl blocked
    · exact .inr wakes
  unfold writeStep
  split
  · rename_i more
    split
    · rename_i gone
      refine invariant.advance here rfl rfl (.inl rfl) invariant.fifo ?_
        fun quiet other waker covered _ _ => ?_
      · exact ⟨copies.length.symm ▸ copies, .inl rfl⟩
      · obtain blocked | ⟨_, isFresh⟩ := covered
        · exact .inl blocked
        · obtain ⟨isOpen, alive⟩ := alive quiet isFresh more
          simp [isOpen, alive] at gone
    · rename_i going
      simp only [Bool.or_eq_true, Bool.not_eq_true', not_or, Bool.not_eq_false, Bool.not_eq_true] at going
      split
      · rename_i full
        refine invariant.proceed here rfl rfl ⟨copies, full, going.1⟩ fun other waker covered _ _ => ?_
        exact announces (.writeWake source n i 0) ⟨rfl, Nat.zero_le _⟩ covered
      · rename_i room
        split
        · refine invariant.proceed here rfl rfl copies fun other waker covered _ _ => ?_
          exact announces (.writeDone source n i 0) ⟨rfl, Nat.zero_le _⟩ covered
        · rename_i ch next
          refine invariant.advance here rfl rfl (.inr ⟨ch, rfl⟩) (fun mapped => ?_)
            ⟨?_, fun _ _ _ => going⟩ fun _ other waker covered _ _ => ?_
          · rw [List.map_append]
            exact (invariant.fifo mapped).store room ch
          · rw [sent_snoc_self, List.drop_append_of_le_length (invariant.base process)]
            exact copies.snoc next
          · cases waker with
            | nread => exact .inr ⟨rfl, rfl⟩
            | nwrite =>
              obtain blocked | ⟨elsewhere, _⟩ := covered
              · exact absurd blocked.1 room
              · cases elsewhere
  · refine invariant.proceed here rfl rfl copies fun other waker covered _ _ => ?_
    exact announces (.writeDone source n i 0) ⟨rfl, Nat.zero_le _⟩ covered

theorem readStep_invariant {writable : Nat → Bool} {n : Int}
    (here : (state.proc process).pc = .inside (.readTest writable n)) :
    Invariant calm inMemory (readStep state process writable n) := by
  have mapped := invariant.fits process
  rw [here] at mapped
  have blocked : ∀ {waker}, blocks state.pipe waker ∨ False → blocks state.pipe waker :=
    fun covered => covered.resolve_right id
  unfold readStep
  split
  · rename_i empty
    split
    · exact invariant.proceed here rfl rfl nofun fun _ _ covered _ _ => .inl (blocked covered)
    · exact invariant.proceed here rfl rfl ⟨mapped, empty⟩ fun _ _ covered _ _ => .inl (blocked covered)
  · rename_i ready
    refine invariant.proceed here rfl rfl ⟨mapped, fun _ empty => ?_⟩ fun _ _ covered _ _ =>
      .inl (blocked covered)
    simpa [empty] using ready

theorem copyStep_invariant {writable : Nat → Bool} {n : Int} {i : Nat}
    (here : (state.proc process).pc = .inside (.readCopy writable n i)) :
    Invariant calm inMemory (copyStep state process writable n i) := by
  have known := invariant.fits process
  rw [here] at known
  obtain ⟨mapped, ended⟩ := known
  unfold copyStep
  split
  · rename_i more
    -- There are bytes, so nobody sleeps on `&pi->nread`.
    have onlyWriters : ∀ {waker}, blocks state.pipe waker ∨ waker = .nwrite → waker = .nwrite := by
      intro waker covered
      cases waker with
      | nwrite => rfl
      | nread => exact covered.resolve_left fun blocked => more.2 blocked.1
    split
    · refine invariant.advance here rfl rfl (.inl rfl) (fun inside => (invariant.fifo inside).deliver more.2)
        ⟨mapped, nofun⟩ fun _ _ _ covered _ _ => .inr ?_
      exact onlyWriters covered
    · rename_i unmapped
      have outside : ¬inMemory := fun inside => unmapped (mapped inside i (by omega))
      refine invariant.advance here rfl rfl (.inl rfl) (absurd · outside) (absurd · outside)
        fun _ _ _ covered _ _ => .inr ?_
      exact ⟨onlyWriters covered, Nat.zero_le _⟩
  · rename_i finished
    refine invariant.proceed here rfl rfl (fun _ first wanted => ?_) fun _ _ covered _ _ => ?_
    · have empty : state.pipe.nread = state.pipe.nwrite := by
        by_contra nonempty
        exact finished ⟨by omega, nonempty⟩
      exact ⟨empty, ended first empty⟩
    · obtain blocked | wakes := covered
      · exact .inl blocked
      · exact .inr ⟨wakes, Nat.zero_le _⟩

theorem close_invariant {writable : Bool}
    (here : (state.proc process).pc = .inside (.close writable)) :
    Invariant calm inMemory ({ state with pipe := closeEnd writable state.pipe }.goto process
      (.inside (.closeWake writable 0))) := by
  refine invariant.advance here rfl rfl (.inl rfl) (fun inside => (invariant.fifo inside).closeEnd writable)
    trivial fun _ other waker covered _ _ => ?_
  have blocked := covered.resolve_right id
  cases writable <;> cases waker
  · exact .inl blocked
  · exact .inr ⟨rfl, Nat.zero_le _⟩
  · exact .inr ⟨rfl, Nat.zero_le _⟩
  · exact .inl blocked

/-- From a place where nothing is left to be woken, to `release(&pi->lock)` or to `sleep`. -/
theorem Invariant.unlock (here : (state.proc process).pc = old)
    (before : old.pipeLock = true) (idle : ∀ channel index, ¬ old.wakes channel index)
    (channel : (Proc.mk pc (state.proc process).sleeping (state.proc process).killed).channel =
      (Proc.mk old (state.proc process).sleeping (state.proc process).killed).channel)
    (after : pc.pipeLock = false)
    (fits : pc.Fits calm inMemory state.pipe (state.bytes process) (state.proc process).killed) :
    Invariant calm inMemory { state.goto process pc with lock := none } := by
  have lock := (invariant.lock process).mpr (here ▸ before)
  refine invariant.move here idle channel ?_ (fun other different => ?_)
    (fun _ => invariant.running here before) fits
  · simp only [after, reduceCtorEq, Bool.false_eq_true]
  · rw [lock]
    simp only [reduceCtorEq, Option.some.injEq, false_iff]
    exact Ne.symm different

theorem pointStep_invariant (here : (state.proc process).pc = .inside point)
    (stepped : pointStep state process point = some after) : Invariant calm inMemory after := by
  have fits := invariant.fits process
  rw [here] at fits
  cases point with
  | write source n i fresh =>
    cases stepped
    exact writeStep_invariant invariant here
  | writeWake source n i index =>
    exact invariant.wake here stepped (fun _ _ wakes => wakes) (fun _ later => ⟨rfl, later⟩)
      rfl rfl fits fits
  | writeSleep source n i =>
    cases stepped
    refine invariant.proceed here rfl rfl ⟨fits.2, rfl, fits.1⟩ fun other waker covered _ _ => ?_
    exact .inl (covered.resolve_right id)
  | readSleep writable n =>
    cases stepped
    refine invariant.proceed here rfl rfl ⟨fits.2, fits.1⟩ fun other waker covered _ _ => ?_
    exact .inl (covered.resolve_right id)
  | writeDone source n i index =>
    have copies : Copies source i (state.bytes process) := fits
    refine invariant.wake here stepped (fun _ _ wakes => wakes) (fun _ later => ⟨rfl, later⟩)
      rfl rfl fits ⟨?_, .inr ?_⟩
    · rw [copies.length]
      exact copies
    · rw [copies.length]
  | readDone writable n i index =>
    exact invariant.wake here stepped (fun _ _ wakes => wakes) (fun _ later => ⟨rfl, later⟩)
      rfl rfl fits fun inside zero => fits inside (Int.natCast_eq_zero.mp zero)
  | closeWake writable index =>
    exact invariant.wake here stepped (fun _ _ wakes => wakes) (fun _ later => ⟨rfl, later⟩)
      rfl rfl trivial trivial
  | readTest writable n =>
    cases stepped
    exact readStep_invariant invariant here
  | readCopy writable n i =>
    cases stepped
    exact copyStep_invariant invariant here
  | close writable =>
    cases stepped
    exact close_invariant invariant here
  | release call value =>
    cases stepped
    exact invariant.unlock here rfl (fun _ _ => id) rfl rfl trivial

theorem processStep_invariant
    (stepped : processStep state process = some after) : Invariant calm inMemory after := by
  have fits := invariant.fits process
  have lock := invariant.lock process
  have awake := invariant.awake process
  unfold processStep at stepped
  split at stepped
  · contradiction
  · rename_i back here
    rw [here] at fits awake
    split at stepped
    · rename_i free
      cases stepped
      refine invariant.move here (fun _ _ => id) rfl (by simp [Pc.pipeLock])
        (fun other different => ?_) (fun _ => awake rfl) (Point.Starts.fits fits)
      rw [free]
      simp only [Option.some.injEq, reduceCtorEq, iff_false]
      exact Ne.symm different
    · contradiction
  · rename_i point here
    exact pointStep_invariant invariant here stepped
  · rename_i channel back here
    rw [here] at fits
    cases stepped
    exact invariant.unlock here rfl (fun _ _ => id) rfl rfl fits.2
  · rename_i channel back here
    rw [here] at fits lock
    cases stepped
    exact invariant.move here (fun _ _ => id) rfl lock (fun _ _ => Iff.rfl) nofun fits
  · rename_i channel back here
    rw [here] at fits lock
    split at stepped
    · rename_i roused
      cases stepped
      exact invariant.move here (fun _ _ => id) rfl lock (fun _ _ => Iff.rfl) (fun _ => roused)
        fits
    · contradiction

theorem call_invariant {call : Call}
    (here : (state.proc process).pc = .outside) (mapped : inMemory → call.mapped) :
    Invariant calm inMemory ({ state with
      base := overwrite state.base process (sent process state.log).length }.goto
        process (.acquire call.start)) := by
  have lock := invariant.lock process
  have awake := invariant.awake process
  rw [here] at lock awake
  have rebased : Invariant calm inMemory { state with
      base := overwrite state.base process (sent process state.log).length } := by
    refine { invariant with base := ?_, fits := fun other => ?_ }
    · exact overwrite_rec (p := fun other base => base ≤ (sent other state.log).length)
        (Nat.le_refl _) fun other _ => invariant.base other
    · refine overwrite_rec (p := fun other base => (state.proc other).pc.Fits calm inMemory state.pipe
        ((sent other state.log).drop base) (state.proc other).killed) ?_ (fun other _ => ?_) other
      · rw [here]
        trivial
      · exact invariant.fits other
  refine rebased.move here (fun _ _ => id) rfl lock (fun _ _ => Iff.rfl) (fun _ => awake rfl) ?_
  show call.start.Starts inMemory (State.bytes _ process)
  simp only [State.bytes, overwrite_self, List.drop_length]
  exact Call.start_starts mapped

end

/-! ## Runs -/

/-- `pipewrite` has stored bytes since it took `pi->lock`, has told nobody yet, and is at the
head of its loop with more to come. -/
def Pc.unannounced : Pc → Bool
  | .inside (.write _ n i fresh) => fresh && decide ((i : Int) < n)
  | _ => false

/-- `kill` does not hit a `pipewrite` between two of its bytes. -/
def Considerate (state : State count) : Event count → Prop
  | .kill process => (state.proc process).pc.unannounced = false
  | _ => True

instance (state : State count) (event : Event count) : Decidable (Considerate state event) := by
  cases event <;> unfold Considerate <;> infer_instance

def Mapped (_ : State count) : Event count → Prop
  | .call _ call => call.mapped
  | _ => True

instance : (call : Call) → Decidable call.mapped
  | .piperead writable n =>
    inferInstanceAs (Decidable (∀ index, index < n.toNat → writable index = true))
  | .pipewrite _ _ | .pipeclose _ => .isTrue trivial

instance (state : State count) : (event : Event count) → Decidable (Mapped state event)
  | .call _ call => inferInstanceAs (Decidable call.mapped)
  | .step _ | .kill _ => .isTrue trivial

theorem step_invariant {event : Event count} (invariant : Invariant calm inMemory state)
    (considerate : calm → Considerate state event) (mapped : inMemory → Mapped state event)
    (stepped : step state event = some after) : Invariant calm inMemory after := by
  cases event with
  | call process call =>
    simp only [step] at stepped
    split at stepped
    · rename_i here
      cases stepped
      exact call_invariant invariant here mapped
    · contradiction
  | step process => exact processStep_invariant invariant stepped
  | kill process =>
    simp only [step] at stepped
    split at stepped
    · contradiction
    · rename_i unlocked
      cases stepped
      refine invariant.rouse true (Bool.eq_false_of_not_eq_true unlocked) ?_
      have fits := invariant.fits process
      change calm → (state.proc process).pc.unannounced = false at considerate
      generalize (state.proc process).pc = pc at fits considerate
      cases pc with
      | inside point =>
        cases point with
        | write source n i fresh =>
          refine ⟨fits.1, fun quiet isFresh more => ?_⟩
          have spared := considerate quiet
          simp [Pc.unannounced, isFresh, more] at spared
        | _ => exact fits
      | _ => exact fits

theorem initial_invariant (initial : (machine count).initial state) :
    Invariant calm inMemory state := by
  obtain ⟨nread, nwrite, _, _, delivered, log, free, resting⟩ := initial
  constructor
  · intro _
    constructor
    · rw [nread, nwrite, gap_self]
      exact Nat.zero_le _
    · rw [log, delivered, Pipe.waiting, nread, nwrite, contents_self]
      rfl
  · intro process
    rw [(resting process).1]
    exact Nat.zero_le _
  · intro process
    rw [free, (resting process).2.1]
    simp [Pc.pipeLock]
  · intro process _
    exact (resting process).2.2
  · intro process
    rw [(resting process).2.1]
    trivial
  · intro _ other channel sleeps
    rw [Proc.channel, (resting other).2.1, (resting other).2.2] at sleeps
    contradiction

/-- A pipe fresh from `pipealloc`. -/
def boot (count : Nat) : State count where
  pipe := ⟨fun _ => 0, 0, 0, true, true, []⟩
  lock := none
  proc _ := ⟨.outside, none, false⟩
  log := []
  base _ := 0

theorem initial_boot : (machine count).initial (boot count) :=
  ⟨rfl, rfl, rfl, rfl, rfl, rfl, rfl, fun _ => ⟨rfl, rfl, rfl⟩⟩

end Xv6.Ipc.Sleep
