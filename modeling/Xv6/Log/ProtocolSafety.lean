import Mathlib.Data.Finset.Card
import Xv6.Log.Protocol

namespace Xv6.Log.Protocol

open Xv6.Transition

variable {count : Nat}

/-! ## The invariant -/

/-- `begin_op` has to wait. -/
def State.Waiting (state : State count) : Prop := state.committing = true ∨ state.full

/-- The holder of `log.lock` is in `wakeup(&log)` and has not passed the process yet. -/
def State.Pending (state : State count) (process : Fin count) : Prop :=
  ∃ waker index, state.lock = some waker ∧ (state.pc waker).waking = some index ∧
    index ≤ process.val

/-- The process failed the test of `begin_op` and nothing has woken it since. -/
def State.Drowsy (state : State count) (process : Fin count) : Prop :=
  (state.pc process).drowsy = true ∧
    (state.pc process = .asleep → state.state process = .sleeping)

/-- The processes whose operations `log.outstanding` counts. -/
def State.operations (state : State count) : Finset (Fin count) :=
  Finset.univ.filter fun process => (state.pc process).inOp = true

/-- What holds at one process, when `committer` is the process between setting
and clearing `log.committing`. -/
structure Local (state : State count) (committer : Option (Fin count)) (process : Fin count) :
    Prop where
  lock : (state.pc process).logLock = true ↔ state.lock = some process
  commit : (state.pc process).marksCommitting = true ↔ committer = some process
  quiet : (state.pc process).inOp = true → state.committing = false
  sleeping : state.state process = .sleeping →
    state.pc process = .sleepSched ∨ state.pc process = .asleep
  marked : state.pc process = .sleepSched → state.state process = .sleeping
  channel : state.pc process = .sleepSched ∨ state.pc process = .asleep →
    state.chan process = some .log
  waits : state.Drowsy process → state.Waiting ∨ state.Pending process

structure Invariant (state : State count) (committer : Option (Fin count)) : Prop where
  committing : state.committing = committer.isSome
  outstanding : state.outstanding = state.operations.card
  everyone : ∀ process, Local state committer process
  calm : state.panic = none ∨ state.panic = some .tooBig

variable {state : State count} {committer : Option (Fin count)}

theorem Invariant.lock_unique (invariant : Invariant state committer) {first second : Fin count}
    (firstHolds : (state.pc first).logLock = true)
    (secondHolds : (state.pc second).logLock = true) :
    first = second := by
  have left := (invariant.everyone first).lock.mp firstHolds
  have right := (invariant.everyone second).lock.mp secondHolds
  exact Option.some.inj (left.symm.trans right)

/-! ## Frames -/

theorem State.goto_self (state : State count) (process : Fin count) (pc : Pc) :
    (state.goto process pc).pc process = pc := by
  simp [State.goto]

variable {process other : Fin count} {pc : Pc}

theorem State.goto_other (different : other ≠ process) :
    (state.goto process pc).pc other = state.pc other := by
  simp [State.goto, different]

variable {before after : State count}

/-- A process that does not move keeps its facts as long as the shared fields
change only as the hypotheses allow. -/
theorem Local.frame {next : Option (Fin count)} (held : Local before committer other)
    (pc : after.pc other = before.pc other) (state : after.state other = before.state other)
    (chan : after.chan other = before.chan other)
    (lock : after.lock = some other ↔ before.lock = some other)
    (commit : next = some other ↔ committer = some other)
    (quiet : (before.pc other).inOp = true → after.committing = true → before.committing = true)
    (waits : before.Drowsy other → before.Waiting ∨ before.Pending other →
      after.Waiting ∨ after.Pending other) :
    Local after next other := by
  refine ⟨?_, ?_, ?_, ?_, ?_, ?_, ?_⟩
  · rw [pc, lock]
    exact held.lock
  · rw [pc, commit]
    exact held.commit
  · intro inOp
    rw [pc] at inOp
    have still := held.quiet inOp
    cases result : after.committing with
    | false => rfl
    | true => exact absurd (quiet inOp result) (by simp [still])
  · rw [pc, state]
    exact held.sleeping
  · rw [pc, state]
    exact held.marked
  · rw [pc, chan]
    exact held.channel
  · intro drowsy
    have same : before.Drowsy other := by
      unfold State.Drowsy at drowsy ⊢
      rwa [pc, state] at drowsy
    exact waits same (held.waits same)

@[simp] theorem mem_operations {state : State count} {process : Fin count} :
    process ∈ state.operations ↔ (state.pc process).inOp = true := by
  simp [State.operations]

theorem operations_goto (state : State count) (process : Fin count) (pc : Pc) :
    (state.goto process pc).operations =
      if pc.inOp then insert process state.operations else state.operations.erase process := by
  ext other
  by_cases equal : other = process
  · subst equal
    split <;> simp_all [State.goto]
  · split <;> simp [State.goto, equal]

theorem operations_goto_same (same : pc.inOp = (state.pc process).inOp) :
    (state.goto process pc).operations = state.operations := by
  rw [operations_goto]
  split <;> simp_all

theorem card_operations_enter (outside : (state.pc process).inOp = false) :
    (state.goto process .operating).operations.card = state.operations.card + 1 := by
  rw [operations_goto, if_pos (by rfl), Finset.card_insert_of_notMem (by simp [outside])]

theorem operations_start (count : Nat) : (start count).operations = ∅ := by
  ext process
  simp [start, Pc.inOp]

/-- The two places where a process may be `SLEEPING`. -/
def Pc.dozing : Pc → Bool
  | .sleepSched | .asleep => true
  | _ => false

theorem Pc.dozing_iff : pc.dozing = true ↔ pc = .sleepSched ∨ pc = .asleep := by
  cases pc <;> simp [Pc.dozing]

theorem Pc.dozing_of_drowsy (notDrowsy : pc.drowsy = false) : pc.dozing = false := by
  cases pc <;> simp_all [Pc.drowsy, Pc.dozing]

variable {here : Pc}

theorem Invariant.awake (invariant : Invariant state committer) (place : state.pc process = here)
    (running : here.dozing = false) : state.state process ≠ .sleeping := by
  intro sleeping
  rw [← place, Bool.eq_false_iff, Ne, Pc.dozing_iff] at running
  exact running ((invariant.everyone process).sleeping sleeping)

theorem Local.of_awake (here : after.pc process = pc) (awake : after.state process ≠ .sleeping)
    (plain : pc.dozing = false) (lock : pc.logLock = true ↔ after.lock = some process)
    (commit : pc.marksCommitting = true ↔ committer = some process)
    (quiet : pc.inOp = true → after.committing = false)
    (waits : pc.drowsy = true → after.Waiting ∨ after.Pending process) :
    Local after committer process := by
  have elsewhere : ¬(pc = .sleepSched ∨ pc = .asleep) := by
    rw [← Pc.dozing_iff, plain]
    exact Bool.false_ne_true
  subst here
  exact ⟨lock, commit, quiet, fun sleeping => absurd sleeping awake,
    fun marked => absurd (.inl marked) elsewhere, fun either => absurd either elsewhere,
    fun sleepy => waits sleepy.1⟩

theorem Invariant.not_pending (invariant : Invariant state committer)
    (place : state.pc process = here) (holds : here.logLock = true) (idle : here.waking = none) :
    ¬ state.Pending other := by
  rintro ⟨waker, index, taken, waking, _⟩
  subst place
  have same : process = waker :=
    Option.some.inj (((invariant.everyone process).lock.mp holds).symm.trans taken)
  rw [← same, idle] at waking
  contradiction

section

variable (invariant : Invariant state committer) (place : state.pc process = here)

include invariant place

theorem Invariant.outstanding_goto (inOp : pc.inOp = here.inOp) :
    state.outstanding = (state.goto process pc).operations.card := by
  subst place
  rw [operations_goto_same inOp]
  exact invariant.outstanding

theorem Invariant.outstanding_leave (inside : here.inOp = true) (outside : pc.inOp = false) :
    state.outstanding - 1 = (state.goto process pc).operations.card := by
  subst place
  have card := Finset.card_erase_add_one (mem_operations.mpr inside)
  have counted := invariant.outstanding
  rw [operations_goto, if_neg (by simp [outside])]
  omega

theorem Invariant.marks (same : pc.marksCommitting = here.marksCommitting) :
    pc.marksCommitting = true ↔ committer = some process := by
  rw [same, ← place]
  exact (invariant.everyone process).commit

theorem Invariant.quiet (same : pc.inOp = here.inOp) :
    pc.inOp = true → state.committing = false := by
  rw [same, ← place]
  exact (invariant.everyone process).quiet

theorem Invariant.locks (same : pc.logLock = here.logLock) :
    pc.logLock = true ↔ state.lock = some process := by
  rw [same, ← place]
  exact (invariant.everyone process).lock

theorem Invariant.taken (holds : here.logLock = true) : state.lock = some process :=
  (invariant.locks place rfl).mp holds

end

/-! ## Moves that leave the shared fields alone -/

/-- The process moves between two places that hold `log.lock` alike and count
alike, changing at most its own state and channel. -/
theorem Invariant.move {state : Fin count → ProcState} {chan : Fin count → Option Channel}
    (invariant : Invariant before committer) (place : before.pc process = here) (pc : Pc)
    (states : ∀ other, other ≠ process → state other = before.state other)
    (chans : ∀ other, other ≠ process → chan other = before.chan other)
    (lock : pc.logLock = here.logLock) (marks : pc.marksCommitting = here.marksCommitting)
    (inOp : pc.inOp = here.inOp) (idle : here.waking = none)
    (sleeping : state process = .sleeping → pc = .sleepSched ∨ pc = .asleep)
    (marked : pc = .sleepSched → state process = .sleeping)
    (channel : pc = .sleepSched ∨ pc = .asleep → chan process = some .log)
    (drowsy : pc.drowsy = true → (pc = .asleep → state process = .sleeping) →
      before.Waiting ∨ before.Drowsy process) :
    Invariant { before with pc := Function.update before.pc process pc, state, chan } committer := by
  have pending : ∀ {other}, before.Pending other →
      State.Pending { before with pc := Function.update before.pc process pc, state, chan } other := by
    rintro other ⟨waker, index, holds, waking, order⟩
    have different : waker ≠ process := by
      rintro rfl
      rw [place, idle] at waking
      contradiction
    exact ⟨waker, index, holds, (congrArg Pc.waking (Function.update_of_ne different ..)).trans waking,
      order⟩
  refine ⟨invariant.committing, invariant.outstanding_goto place inOp, fun other => ?_, invariant.calm⟩
  by_cases same : other = process
  · subst same
    have now : Function.update before.pc other pc other = pc := Function.update_self ..
    refine ⟨?_, ?_, ?_, ?_, ?_, ?_, fun sleepy => ?_⟩ <;> try simp only [now]
    · exact invariant.locks place lock
    · exact invariant.marks place marks
    · exact invariant.quiet place inOp
    · exact sleeping
    · exact marked
    · exact channel
    · simp only [State.Drowsy, now] at sleepy
      rcases drowsy sleepy.1 sleepy.2 with now | earlier
      · exact .inl now
      · exact ((invariant.everyone other).waits earlier).imp_right pending
  · exact (invariant.everyone other).frame (Function.update_of_ne same ..) (states other same)
      (chans other same) Iff.rfl Iff.rfl (fun _ => id) fun _ => Or.imp_right pending

theorem Invariant.goto (invariant : Invariant state committer) (place : state.pc process = here)
    (lock : pc.logLock = here.logLock) (marks : pc.marksCommitting = here.marksCommitting)
    (inOp : pc.inOp = here.inOp) (idle : here.waking = none) (running : here.dozing = false)
    (plain : pc.dozing = false) (drowsy : pc.drowsy = true → state.Waiting ∨ state.Drowsy process) :
    Invariant (state.goto process pc) committer := by
  have elsewhere : ¬(pc = .sleepSched ∨ pc = .asleep) := by
    rw [← Pc.dozing_iff, plain]
    exact Bool.false_ne_true
  exact invariant.move place pc (fun _ _ => rfl) (fun _ _ => rfl) lock marks inOp idle
    (fun sleeping => absurd sleeping (invariant.awake place running))
    (fun marked => absurd (.inl marked) elsewhere) (fun either => absurd either elsewhere)
    fun sleepy _ => drowsy sleepy

/-- The process goes from one place where it is awake to another, and may change the log. -/
theorem Invariant.change {next : Option (Fin count)} (invariant : Invariant before committer)
    (place : before.pc process = here) (pc : Pc) (running : here.dozing = false)
    (plain : pc.dozing = false) (moved : after.pc = Function.update before.pc process pc)
    (states : after.state = before.state) (chans : after.chan = before.chan)
    (panic : after.panic = before.panic) (lock : pc.logLock = true ↔ after.lock = some process)
    (locks : ∀ other, other ≠ process → (after.lock = some other ↔ before.lock = some other))
    (committing : after.committing = next.isSome)
    (marks : pc.marksCommitting = true ↔ next = some process)
    (others : ∀ other, other ≠ process → (next = some other ↔ committer = some other))
    (outstanding : after.outstanding = after.operations.card)
    (inOp : pc.inOp = true → after.committing = false)
    (quiet : ∀ other, other ≠ process → (before.pc other).inOp = true → after.committing = true →
      before.committing = true) (drowsy : pc.drowsy = true → after.Waiting)
    (waiting : ∀ other, other ≠ process → before.Drowsy other → before.Waiting ∨
      before.Pending other → after.Waiting ∨ after.Pending other) :
    Invariant after next := by
  refine ⟨committing, outstanding, fun other => ?_, panic ▸ invariant.calm⟩
  by_cases same : other = process
  · subst same
    exact .of_awake (by rw [moved, Function.update_self]) (states ▸ invariant.awake place running)
      plain lock marks inOp fun sleepy => .inl (drowsy sleepy)
  · exact (invariant.everyone other).frame (by rw [moved, Function.update_of_ne same])
      (by rw [states]) (by rw [chans]) (locks other same) (others other same) (quiet other same)
      (waiting other same)

theorem Invariant.acquire (invariant : Invariant before committer)
    (acquired : before.acquire process pc = some after) (place : before.pc process = here)
    (running : here.dozing = false) (lock : pc.logLock = true)
    (marks : pc.marksCommitting = here.marksCommitting) (inOp : pc.inOp = here.inOp)
    (drowsy : pc.drowsy = false) : Invariant after committer := by
  unfold State.acquire at acquired
  split at acquired <;> cases acquired
  rename_i free
  refine invariant.change place pc running (Pc.dozing_of_drowsy drowsy) rfl rfl rfl rfl
    (by simp [lock]) ?_ invariant.committing (invariant.marks place marks) (fun _ _ => Iff.rfl)
    (invariant.outstanding_goto place inOp) (invariant.quiet place inOp) (fun _ _ _ => id)
    (by simp [drowsy]) ?_
  · intro other different
    simp [free, Ne.symm different]
  · rintro other - - (waiting | ⟨waker, index, taken, _⟩)
    · exact .inl waiting
    · rw [free] at taken
      contradiction

/-- The process gives up `log.lock`, possibly after changing the log under it. -/
theorem Invariant.release (invariant : Invariant before committer)
    (place : before.pc process = here) (pc : Pc) (holds : here.logLock = true)
    (idle : here.waking = none) (running : here.dozing = false)
    (moved : after.pc = Function.update before.pc process pc) (states : after.state = before.state)
    (chans : after.chan = before.chan) (free : after.lock = none)
    (committing : after.committing = before.committing) (panic : after.panic = before.panic)
    (outstanding : after.outstanding = after.operations.card)
    (waiting : before.Waiting → after.Waiting) (lock : pc.logLock = false)
    (marks : pc.marksCommitting = here.marksCommitting)
    (inOp : pc.inOp = true → before.committing = false) (plain : pc.dozing = false)
    (drowsy : pc.drowsy = true → before.Waiting) :
    Invariant after committer := by
  refine invariant.change place pc running plain moved states chans panic (by simp [lock, free]) ?_
    (committing.trans invariant.committing) (invariant.marks place marks) (fun _ _ => Iff.rfl)
    outstanding (committing ▸ inOp) (fun _ _ _ => committing ▸ id)
    (fun sleepy => waiting (drowsy sleepy)) fun _ _ _ either =>
      .inl (waiting (either.resolve_right (invariant.not_pending place holds idle)))
  intro other different
  simp [free, invariant.taken place holds, Ne.symm different]

theorem Invariant.unlock (invariant : Invariant state committer) (place : state.pc process = here)
    (holds : here.logLock = true) (idle : here.waking = none) (running : here.dozing = false)
    (lock : pc.logLock = false) (marks : pc.marksCommitting = here.marksCommitting)
    (inOp : pc.inOp = here.inOp) (plain : pc.dozing = false)
    (drowsy : pc.drowsy = true → state.Waiting) :
    Invariant (state.release process pc) committer := by
  exact invariant.release place pc holds idle running rfl rfl rfl rfl rfl rfl
    (invariant.outstanding_goto place inOp) id lock marks (invariant.quiet place inOp) plain drowsy

/-! ## Moves under log.lock -/

theorem Invariant.awaken (invariant : Invariant state committer)
    (asleep : state.pc process = .asleep) :
    Invariant { state with state := Function.update state.state process .runnable } committer := by
  have channel := (invariant.everyone process).channel (.inr asleep)
  have awoken : Invariant { state with
      pc := Function.update state.pc process .asleep
      state := Function.update state.state process .runnable } committer :=
    invariant.move asleep .asleep (fun _ different => Function.update_of_ne different ..)
      (fun _ _ => rfl) rfl rfl rfl rfl (by simp) (by simp) (fun _ => channel) (by simp)
  rwa [← asleep, Function.update_eq_self] at awoken

/-- The loop of `wakeup(&log)` advances past a process that does not need waking. -/
theorem Invariant.pass {index : Nat} (invariant : Invariant state committer)
    (place : state.pc process = here) (holds : here.logLock = true)
    (position : here.waking = some index) (running : here.dozing = false) (lock : pc.logLock = true)
    (marks : pc.marksCommitting = here.marksCommitting) (inOp : pc.inOp = here.inOp)
    (drowsy : pc.drowsy = false)
    (passed : ∀ other, other ≠ process → state.Drowsy other → index ≤ other.val → pc.waking =
      some (index + 1) ∧ index + 1 ≤ other.val) :
    Invariant (state.goto process pc) committer := by
  have taken := invariant.taken place holds
  refine invariant.change place pc running (Pc.dozing_of_drowsy drowsy) rfl rfl rfl rfl
    (iff_of_true lock taken) (fun _ _ => Iff.rfl) invariant.committing (invariant.marks place marks)
    (fun _ _ => Iff.rfl) (invariant.outstanding_goto place inOp) (invariant.quiet place inOp)
    (fun _ _ _ => id) (by simp [drowsy]) fun other same sleepy => Or.imp_right ?_
  rintro ⟨waker, reached, held, waking, order⟩
  have equal : process = waker := Option.some.inj (taken.symm.trans held)
  rw [← equal, place, position, Option.some.injEq] at waking
  obtain ⟨further, later⟩ := passed other same sleepy (waking ▸ order)
  exact ⟨process, index + 1, taken, by rw [State.goto_self]; exact further, later⟩

/-- One iteration of `wakeup(&log)`: whoever it passes is not left asleep. -/
theorem Invariant.wake {index : Nat} {next done : Pc} (invariant : Invariant before committer)
    (woken : before.wake process index next done = some after) (place : before.pc process = here)
    (holds : here.logLock = true) (position : here.waking = some index)
    (running : here.dozing = false)
    (nextKind : next.logLock = true ∧ next.marksCommitting = here.marksCommitting ∧
      next.inOp = here.inOp ∧ next.drowsy = false ∧ next.waking = some (index + 1))
    (doneKind : done.logLock = true ∧ done.marksCommitting = here.marksCommitting ∧
      done.inOp = here.inOp ∧ done.drowsy = false) : Invariant after committer := by
  obtain ⟨nextLock, nextMarks, nextOp, nextDrowsy, nextWaking⟩ := nextKind
  obtain ⟨doneLock, doneMarks, doneOp, doneDrowsy⟩ := doneKind
  have lockHeld : (before.pc process).logLock = true := place ▸ holds
  -- Everyone past the process at `index` is still ahead of the cursor.
  have ahead : ∀ other : Fin count, other.val ≠ index → index ≤ other.val →
      index + 1 ≤ other.val := fun other apart reached => by omega
  unfold State.wake at woken
  cases found : wakeup process (fun other => (before.pc other).ownLock)
      (fun other => decide (before.sleepsOnLog other)) index with
  | ended =>
    rw [found] at woken
    cases woken
    refine invariant.pass place holds position running doneLock doneMarks doneOp doneDrowsy ?_
    intro other _ _ reached
    have bound := other.isLt
    have all := wakeup_ended found
    omega
  | spins =>
    rw [found] at woken
    cases woken
  | passes =>
    rw [found] at woken
    cases woken
    refine invariant.pass place holds position running nextLock nextMarks nextOp nextDrowsy ?_
    intro other different sleepy reached
    refine ⟨nextWaking, ahead other (fun here => ?_) reached⟩
    obtain ⟨unlocked, sleepless⟩ := wakeup_passes found here different
    have facts := invariant.everyone other
    obtain ⟨drowsy, sleeping⟩ := sleepy
    cases site : before.pc other with
    | sleepAcquire => exact different (invariant.lock_unique (by rw [site]; rfl) lockHeld)
    | asleep => exact of_decide_eq_false sleepless ⟨sleeping site, facts.channel (.inr site)⟩
    | _ => simp [site, Pc.drowsy, Pc.ownLock] at drowsy unlocked
  | wakes sleeper =>
    rw [found] at woken
    cases woken
    obtain ⟨here, _, unlocked, sleeps⟩ := wakeup_wakes found
    have asleep : before.pc sleeper = .asleep := by
      rcases (invariant.everyone _).sleeping (of_decide_eq_true sleeps).1 with sched | asleep
      · simp [sched, Pc.ownLock] at unlocked
      · exact asleep
    refine (invariant.awaken asleep).pass place holds position running nextLock nextMarks nextOp
      nextDrowsy ?_
    intro other _ sleepy reached
    refine ⟨nextWaking, ahead other (fun same => ?_) reached⟩
    obtain rfl : other = sleeper := Fin.ext (same.trans here.symm)
    simp [State.Drowsy, asleep] at sleepy

/-! ## Every step -/

theorem State.Waiting.mono (waiting : before.Waiting) (committing : after.committing = before.committing)
    (outstanding : before.outstanding ≤ after.outstanding)
    (longer : before.lh.length ≤ after.lh.length) : after.Waiting := by
  refine waiting.imp (fun busy => committing.trans busy) fun full => ?_
  unfold State.full at full ⊢
  have larger : (before.outstanding + 1) * (MAXOPBLOCKS : Int) ≤
      (after.outstanding + 1) * MAXOPBLOCKS := by
    simp only [MAXOPBLOCKS]
    omega
  omega

section

variable (invariant : Invariant state committer)

include invariant

theorem Invariant.enter (place : state.pc process = .beginTest) (free : state.committing = false)
    (admitted : Nat) (operation : Fin count → Nat) (blocks : Fin count → List Nat) :
    Invariant { state.release process .operating with
      outstanding := state.outstanding + 1, admitted, operation, blocks } committer := by
  refine invariant.release place .operating rfl rfl rfl rfl rfl rfl rfl rfl rfl ?_
    (fun waiting => waiting.mono rfl (Int.le.intro 1 rfl) (Nat.le_refl _)) rfl rfl (fun _ => free)
    rfl nofun
  have card := card_operations_enter (show (state.pc process).inOp = false by rw [place]; rfl)
  have same := invariant.outstanding
  change state.outstanding + 1 = ((state.goto process .operating).operations.card : Int)
  omega

theorem Invariant.logWrite {block : Nat} (place : state.pc process = .writeBody block)
    (blocks : Fin count → List Nat) (written : List Written) :
    Invariant { state.release process .operating with
      lh := absorb block state.lh, blocks, written } committer := by
  have quiet : state.committing = false :=
    (invariant.everyone process).quiet (by rw [place]; rfl)
  have longer : state.lh.length ≤ (absorb block state.lh).length := by
    rw [absorb_eq]
    split <;> simp
  exact invariant.release place .operating rfl rfl rfl rfl rfl rfl rfl rfl rfl
    (invariant.outstanding_goto place rfl) (fun waiting => waiting.mono rfl (Int.le_refl _) longer)
    rfl rfl (fun _ => quiet) rfl nofun

theorem Invariant.endOp (place : state.pc process = .endBody) (last : state.outstanding - 1 = 0) :
    Invariant { state.goto process (.endRelease true) with
      outstanding := state.outstanding - 1, committing := true } (some process) := by
  have counted := invariant.outstanding_leave place rfl (show (Pc.endRelease true).inOp = false from rfl)
  have nobody : (state.goto process (.endRelease true)).operations = ∅ := by
    rw [← Finset.card_eq_zero]
    omega
  have idle : committer = none := by
    have quiet := invariant.quiet place rfl rfl
    rw [invariant.committing] at quiet
    simpa using quiet
  refine invariant.change place (.endRelease true) rfl rfl rfl rfl rfl rfl
    (invariant.locks place rfl) (fun _ _ => Iff.rfl) rfl (iff_of_true rfl rfl)
    ?_ counted nofun ?_ nofun fun _ _ _ _ => .inl (.inl rfl)
  · intro other different
    simp [idle, Ne.symm different]
  · intro other different inOp
    have member : other ∈ (state.goto process (.endRelease true)).operations :=
      mem_operations.mpr (by rwa [State.goto_other different])
    simp [nobody] at member

/-- Whoever was waiting is still ahead of a loop of `wakeup(&log)` that starts. -/
theorem Invariant.pending_start (place : state.pc process = here) (holds : here.logLock = true)
    (pc : Pc) (waking : pc.waking = some 0) (other : Fin count) : (state.goto process pc).Pending other := by
  refine ⟨process, 0, invariant.taken place holds, ?_, Nat.zero_le _⟩
  rw [State.goto_self, waking]

theorem Invariant.leave (place : state.pc process = .endBody) :
    Invariant { state.goto process (.endWake 0) with
      outstanding := state.outstanding - 1 } committer := by
  exact invariant.change place (.endWake 0) rfl rfl rfl rfl rfl rfl
    (invariant.locks place rfl) (fun _ _ => Iff.rfl) invariant.committing
    (invariant.marks place rfl) (fun _ _ => Iff.rfl) (invariant.outstanding_leave place rfl rfl) nofun
    (fun _ _ _ => id) nofun fun other _ _ _ => .inr (invariant.pending_start place rfl _ rfl other)

theorem Invariant.clear (place : state.pc process = .commitClear) (epoch : Nat) :
    Invariant { state.goto process .commitErase with
      lh := [], epoch } committer := by
  have marks : Pc.commitErase.marksCommitting = true ↔ committer = some process :=
    invariant.marks place rfl
  have committing : state.committing = true := by
    rw [invariant.committing, marks.mp rfl]
    rfl
  exact invariant.change place .commitErase rfl rfl rfl rfl rfl rfl (invariant.locks place rfl)
    (fun _ _ => Iff.rfl) invariant.committing marks (fun _ _ => Iff.rfl)
    (invariant.outstanding_goto place rfl) nofun (fun _ _ _ => id) nofun fun _ _ _ _ => .inl (.inl committing)

theorem Invariant.finish (place : state.pc process = .doneBody) :
    Invariant { state.goto process (.doneWake 0) with committing := false } none := by
  refine invariant.change place (.doneWake 0) rfl rfl rfl rfl rfl rfl
    (invariant.locks place rfl) (fun _ _ => Iff.rfl) rfl (iff_of_false nofun nofun)
    ?_ (invariant.outstanding_goto place rfl) nofun nofun nofun
    fun other _ _ _ => .inr (invariant.pending_start place rfl _ rfl other)
  have mine := (invariant.marks place rfl).mp rfl
  intro other different
  simp [mine, Ne.symm different]

end

theorem stepProcess_invariant {size : Nat} (invariant : Invariant before committer)
    (stepped : stepProcess size before process = some after) :
    ∃ next, Invariant after next := by
  have mine := invariant.everyone process
  unfold stepProcess at stepped
  generalize place : before.pc process = pc at stepped
  cases pc with
  | outside | asleep | operating => cases stepped
  | beginAcquire | sleepReacquire | writeAcquire block | endAcquire | doneAcquire =>
    exact ⟨_, invariant.acquire stepped place rfl rfl rfl rfl rfl⟩
  | beginTest =>
    simp only at stepped
    have sleepAcquire : before.Waiting → ∃ next, Invariant (before.goto process .sleepAcquire) next :=
      fun waiting => ⟨_, invariant.goto place rfl rfl rfl rfl rfl rfl fun _ => .inl waiting⟩
    split at stepped
    · cases stepped
      exact sleepAcquire (.inl ‹_›)
    split at stepped <;> cases stepped
    · exact sleepAcquire (.inr ‹_›)
    · exact ⟨_, invariant.enter place (by simpa using ‹¬ before.committing = true›) _ _ _⟩
  | sleepAcquire =>
    cases stepped
    exact ⟨_, invariant.goto place rfl rfl rfl rfl rfl rfl
      fun _ => .inr ⟨by rw [place]; rfl, by simp [place]⟩⟩
  | sleepRelease =>
    cases stepped
    have waiting : before.Waiting :=
      (mine.waits ⟨by rw [place]; rfl, by simp [place]⟩).resolve_right
        (invariant.not_pending place rfl rfl)
    exact ⟨_, invariant.unlock place rfl rfl rfl rfl rfl rfl rfl fun _ => waiting⟩
  | sleepMark =>
    cases stepped
    refine ⟨_, invariant.move place .sleepSched ?_ ?_ rfl rfl rfl rfl
      (fun _ => .inl rfl) (by simp) (by simp)
      fun _ _ => .inr ⟨by rw [place]; rfl, by simp [place]⟩⟩
    · intro other different
      simp [different]
    · intro other different
      simp [different]
  | sleepSched =>
    cases stepped
    exact ⟨_, invariant.move place .asleep (fun _ _ => rfl) (fun _ _ => rfl) rfl rfl rfl rfl
      (fun _ => .inr rfl) (by simp) (fun _ => mine.channel (.inl place))
      fun _ _ => .inr ⟨by rw [place]; rfl, by simp [place]⟩⟩
  | sleepReturn =>
    cases stepped
    refine ⟨_, invariant.move place .sleepReacquire (fun _ _ => rfl) ?_ rfl rfl rfl rfl
      (fun sleeping => absurd sleeping (invariant.awake place rfl)) nofun nofun nofun⟩
    intro other different
    simp [different]
  | writeBody block =>
    simp only at stepped
    split at stepped
    · cases stepped
      exact ⟨_, invariant.committing, invariant.outstanding, fun other =>
        (invariant.everyone other).frame rfl rfl rfl Iff.rfl Iff.rfl (fun _ => id) fun _ => id,
        .inr rfl⟩
    split at stepped <;> cases stepped
    · -- An operation is outstanding: this process's own.
      have member : process ∈ before.operations := mem_operations.mpr (by rw [place]; rfl)
      have positive := Finset.card_pos.mpr ⟨process, member⟩
      have counted := invariant.outstanding
      omega
    · exact ⟨_, invariant.logWrite place _ _⟩
  | endBody =>
    simp only at stepped
    split at stepped
    · have calm := mine.quiet (by rw [place]; rfl)
      simp [calm] at *
    split at stepped <;> cases stepped
    · exact ⟨_, invariant.endOp place ‹_›⟩
    · exact ⟨_, invariant.leave place⟩
  | endWake index | doneWake index =>
    exact ⟨_, invariant.wake stepped place rfl rfl rfl ⟨rfl, rfl, rfl, rfl, rfl⟩
      ⟨rfl, rfl, rfl, rfl⟩⟩
  | endRelease doCommit =>
    cases stepped
    refine ⟨_, invariant.unlock place rfl rfl rfl ?_ ?_ ?_ ?_ ?_⟩
    all_goals cases doCommit <;> simp [Pc.logLock, Pc.marksCommitting, Pc.inOp, Pc.dozing, Pc.drowsy]
  | commitInstall =>
    simp only at stepped
    split at stepped <;> cases stepped
    all_goals exact ⟨_, invariant.goto place rfl rfl rfl rfl rfl rfl nofun⟩
  | commitErase =>
    cases stepped
    exact ⟨_, invariant.goto place rfl rfl rfl rfl rfl rfl nofun⟩
  | commitClear =>
    cases stepped
    exact ⟨_, invariant.clear place _⟩
  | doneBody =>
    cases stepped
    exact ⟨_, invariant.finish place⟩
  | doneRelease =>
    cases stepped
    exact ⟨_, invariant.unlock place rfl rfl rfl rfl rfl rfl rfl nofun⟩

theorem step_invariant {size : Nat} {event : Event count}
    (held : ∃ committer, Invariant before committer)
    (stepped : step size before event = some after) :
    ∃ committer, Invariant after committer := by
  obtain ⟨committer, invariant⟩ := held
  unfold step at stepped
  split at stepped
  · contradiction
  cases event with
  | beginOp process | logWrite process block | endOp process =>
    simp only at stepped
    split at stepped <;> cases stepped
    rename_i place
    exact ⟨_, invariant.goto place rfl rfl rfl rfl rfl rfl nofun⟩
  | step process => exact stepProcess_invariant invariant stepped
  | schedule process =>
    simp only at stepped
    split at stepped <;> cases stepped
    rename_i ready
    obtain ⟨place, runnable⟩ := ready
    refine ⟨_, invariant.move place .sleepReturn ?_ (fun _ _ => rfl) rfl rfl rfl rfl (by simp) nofun nofun nofun⟩
    intro other different
    simp [different]
  | kill process =>
    simp only at stepped
    split at stepped <;> cases stepped
    rename_i ready
    exact ⟨_, invariant.awaken ready.1⟩

theorem start_invariant (count : Nat) : Invariant (start count) none := by
  refine ⟨rfl, ?_, ?_, .inl rfl⟩
  · rw [operations_start]
    rfl
  · intro process
    exact ⟨by simp [start, Pc.logLock], by simp [start, Pc.marksCommitting], fun _ => rfl,
      by simp [start], by simp [start], by simp [start], by simp [State.Drowsy, start, Pc.drowsy]⟩

theorem reachable_invariant {size : Nat} (reachable : Reachable (machine count size) state) :
    ∃ committer, Invariant state committer := by
  have initially : ∀ state, (machine count size).initial state →
      ∃ committer, Invariant state committer := by
    rintro _ rfl
    exact ⟨none, start_invariant count⟩
  exact reachable.invariant initially fun _ _ _ held stepped => step_invariant held stepped

theorem Invariant.commit_alone (invariant : Invariant state committer)
    (inCommit : (state.pc process).inCommit = true) :
    committer = some process ∧ state.outstanding = 0 ∧
      ∀ other, (state.pc other).inOp = false := by
  have marks : (state.pc process).marksCommitting = true := by
    cases place : state.pc process <;> simp_all [Pc.inCommit, Pc.marksCommitting]
  have mine := (invariant.everyone process).commit.mp marks
  have committing : state.committing = true := by
    rw [invariant.committing, mine]
    rfl
  have nobody : ∀ other, (state.pc other).inOp = false := by
    intro other
    cases inOp : (state.pc other).inOp with
    | false => rfl
    | true =>
      have quiet := (invariant.everyone other).quiet inOp
      rw [committing] at quiet
      contradiction
  refine ⟨mine, ?_, nobody⟩
  have empty : state.operations = ∅ := by
    ext other
    simp [nobody other]
  rw [invariant.outstanding, empty]
  rfl

end Xv6.Log.Protocol
