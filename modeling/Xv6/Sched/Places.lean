import Xv6.Sched.ExecutionStep

namespace Xv6.Sched

open Xv6.Data Xv6.Transition

/-! # Places that are not left

Some points are reached with the spin lock they need already held, and from then on the
process stays on its CPU; others are reached with `p->lock` held.
-/

variable {cpus procs : Nat} {state : State cpus procs} {cpu other : Fin cpus}
  {effect : Effect cpus procs} {process self : Fin procs} {point : Point procs}

/-- No spin lock but that of a process is on the way. -/
def Pc.spinless : Pc procs → Bool
  | .point _ => true
  | .acquire (.proc _) next | .release (.proc _) next => next.spinless
  | .acquire (.spin _) _ | .release (.spin _) _ => false

/-- No lock of a process is on the way. -/
def Pc.procless : Pc procs → Bool
  | .point _ => true
  | .acquire (.spin _) next | .release (.spin _) next => next.procless
  | .acquire (.proc _) _ | .release (.proc _) _ => false

/-- In the middle of what is done under a spin lock. -/
def Point.inside : Point procs → Bool
  | .sleepBegin _ | .wakeup _ _ | .wakeupTest _ _ | .exitMark _ | .waitTest _ | .waitCheck _ => true
  | .reparent _ index | .waitScan index _ => index != 0
  | _ => false

/-- On the way off the CPU. -/
def Point.leaving : Point procs → Bool
  | .sleepMark _ | .sched _ => true
  | _ => false

structure Pc.Shape (pc : Pc procs) : Prop where
  spinless : pc.goal.inside = true → pc.spinless = true
  procless : pc.goal.leaving = true → pc.procless = true

def Thread.Shape : Thread procs → Prop
  | .run pc | .yieldLock pc | .yieldMark pc | .yieldSched pc | .yieldBack pc => pc.Shape

def Code.Shape : Code procs → Prop
  | .scheduler _ => True
  | .handler _ pc => pc.Shape
  | .thread _ code => code.Shape

def Context.Shape : Context procs → Prop
  | .yield pc => pc.Shape
  | _ => True

structure Shapes (state : State cpus procs) : Prop where
  code : ∀ cpu, (state.cpu cpu).code.Shape
  context : ∀ process, (state.proc process).context.Shape
  stopped : ∀ process context, (state.proc process).stopped = some context →
    (state.proc process).context = context

/-! ## The code has this shape -/

variable {lock : Lock procs} {pc : Pc procs}

theorem Pc.Shape.next : (Pc.acquire lock pc).Shape ∨ (Pc.release lock pc).Shape → pc.Shape := by
  rintro (shape | shape) <;> refine ⟨fun inside => ?_, fun leaving => ?_⟩
  · have all := shape.spinless inside
    cases lock with
    | proc => exact all
    | spin => contradiction
  · have all := shape.procless leaving
    cases lock with
    | proc => contradiction
    | spin => exact all
  · have all := shape.spinless inside
    cases lock with
    | proc => exact all
    | spin => contradiction
  · have all := shape.procless leaving
    cases lock with
    | proc => contradiction
    | spin => exact all

theorem Caller.after_shape (caller : Caller procs) : caller.after.Shape := by
  cases caller <;>
    first
      | exact ⟨fun _ => rfl, nofun⟩
      | exact ⟨nofun, nofun⟩

theorem Moves.shape {change : Change cpus procs} (moves : Moves state cpu self point pc change) :
    pc.Shape := by
  cases moves with
  | sleepBack sleep => cases sleep <;> exact ⟨nofun, nofun⟩
  | wakeupEnd wakeup => exact wakeup.caller.after_shape
  | sleepBegin | sleepMark | exitMark => exact ⟨nofun, fun _ => rfl⟩
  | _ =>
    first
      | exact ⟨fun _ => rfl, nofun⟩
      | exact ⟨nofun, nofun⟩

theorem Calls.shape {change : Change cpus procs} (calls : Calls state self point pc change) :
    pc.Shape := by
  cases calls <;>
    first
      | exact ⟨fun _ => rfl, nofun⟩
      | exact ⟨nofun, nofun⟩

theorem Handles.shape {next : Pc procs} {write : Option (Fin procs × Write cpus procs)}
    (handles : Handles state cpu pc next write) : next.Shape := by
  cases handles with
  | finish wakeup => exact wakeup.caller.after_shape
  | _ => exact ⟨fun _ => rfl, nofun⟩

theorem Acquires.shape {code next : Code procs} (acquires : Acquires code lock next)
    (shape : code.Shape) : next.Shape := by
  cases acquires with
  | run | handler => exact Pc.Shape.next (.inl shape)
  | yield => exact shape
  | loop => trivial

theorem Releases.shape {code next : Code procs} (releases : Releases code lock next)
    (shape : code.Shape) : next.Shape := by
  cases releases with
  | run | handler => exact Pc.Shape.next (.inr shape)
  | yield => exact shape
  | unlock => trivial

theorem load_shape {context : Context procs} {thread : Thread procs} (shape : context.Shape)
    (loaded : load self context = some thread) : thread.Shape := by
  cases context with
  | zero => contradiction
  | forkret | leaving leaving => cases loaded; exact ⟨nofun, nofun⟩
  | yield resume => cases loaded; exact shape

theorem Shapes.apply (shapes : Shapes state) (transition : Acts state cpu effect) :
    Shapes (apply state cpu effect) := by
  have own := shapes.code cpu
  refine ⟨fun other => ?_, fun process => ?_, fun process context => ?_⟩
  · rw [apply_cpu]
    refine overwrite_rec (p := fun _ (entry : Cpu procs) => entry.code.Shape) ?_
      (fun third _ => shapes.code third) other
    obtain ⟨code, here, transition⟩ := transition.code
    rw [here] at own
    cases transition with
    | stop => exact shapes.code cpu
    | acquireProc acquires | acquireSpin acquires => exact acquires.shape own
    | releaseProc releases | releaseSpin releases => exact releases.shape own
    | moves moves => exact moves.shape
    | calls calls => exact calls.shape
    | preempt | yield => exact own
    | swtch loaded => exact load_shape (shapes.context _) loaded
    | interrupt => exact ⟨nofun, nofun⟩
    | handles handles => exact handles.shape
    | _ => trivial
  · refine apply_proc_cases (fun proc => proc.context.Shape) (fun write written => ?_)
      fun _ => shapes.context process
    have writes := transition.writes written
    generalize (state.cpu cpu).code = code at writes own
    generalize effect.cpu.code = next at writes
    cases writes with
    | save _ scheds =>
      cases scheds with
      | leaving => trivial
      | yield => exact own
    | setup => trivial
    | _ => exact shapes.context process
  · refine apply_proc_cases (fun proc => proc.stopped = some context → proc.context = context)
      (fun write written => ?_) fun _ => shapes.stopped process context
    cases write with
    | save | setup => exact Option.some.inj
    | resume | free | reap => nofun
    | _ => exact shapes.stopped process context

theorem initial_shapes (initial : (machine cpus procs).initial state) : Shapes state := by
  obtain ⟨cpu, proc, _⟩ := initial
  refine ⟨fun index => ?_, fun process => ?_, fun process context => ?_⟩
  · rw [cpu]
    trivial
  · rw [proc]
    split <;> trivial
  · rw [proc]
    split
    · exact Option.some.inj
    · nofun

/-! ## What a process holds there -/

theorem Pc.spin_of_spinless (spinless : pc.spinless = true) : pc.spin = pc.goal.spin := by
  induction pc with
  | point => rfl
  | acquire lock next ih | release lock next ih =>
    cases lock with
    | proc => exact ih spinless
    | spin => contradiction

theorem Pc.plock_of_procless {owner : Option (Fin procs)} (procless : pc.procless = true) :
    pc.plock owner = pc.goal.plock owner := by
  induction pc with
  | point => rfl
  | acquire lock next ih | release lock next ih =>
    cases lock with
    | proc => contradiction
    | spin => exact ih procless

/-- A process at a place that is not open to interrupts is on a CPU. -/
theorem At.on_cpu (locks : Locks state) (shapes : Shapes state) (there : At state self point)
    (closed : ∀ pc : Pc procs, pc.Shape → pc.goal = point → ¬pc.Open self) :
    ∃ cpu pc, (state.cpu cpu).code = .thread self (.run pc) ∧ pc.Shape ∧ pc.goal = point := by
  obtain ⟨cpu, thread, here, goal⟩ | ⟨pc, stopped, goal⟩ := there
  · have wf := locks.wf cpu
    have shape := shapes.code cpu
    rw [here] at wf shape
    cases thread with
    | run pc => exact ⟨cpu, pc, here, shape, goal⟩
    | _ => exact absurd wf (closed _ shape goal)
  · have context := shapes.stopped self _ stopped
    have wf := locks.saved self
    have shape := shapes.context self
    rw [context] at wf shape
    exact absurd wf (closed pc shape goal)

theorem At.inside (locks : Locks state) (shapes : Shapes state) (there : At state self point)
    (inside : point.inside = true) {lock : Spinlock} (spin : point.spin = some lock) :
    ∃ cpu pc, (state.cpu cpu).code = .thread self (.run pc) ∧ pc.goal = point ∧
      (state.cpu cpu).code.spin = some lock := by
  have held : ∀ pc : Pc procs, pc.Shape → pc.goal = point → pc.spin = some lock := by
    intro pc shape goal
    subst goal
    exact (Pc.spin_of_spinless (shape.spinless inside)).trans spin
  obtain ⟨cpu, pc, here, shape, goal⟩ := there.on_cpu locks shapes fun pc shape goal isOpen => by
    have none := isOpen.2.2.1
    rw [held pc shape goal] at none
    contradiction
  exact ⟨cpu, pc, here, goal, by rw [here]; exact held pc shape goal⟩

theorem At.leaving (locks : Locks state) (shapes : Shapes state) (there : At state self point)
    (leaving : point.leaving = true) :
    ∃ cpu pc, (state.cpu cpu).code = .thread self (.run pc) ∧ pc.goal = point ∧
      (state.cpu cpu).code.plock = some self := by
  have held : ∀ pc : Pc procs, pc.Shape → pc.goal = point → pc.plock (some self) = some self := by
    intro pc shape goal
    subst goal
    rw [Pc.plock_of_procless (shape.procless leaving)]
    generalize pc.goal = goal at leaving
    cases goal <;> first | rfl | contradiction
  obtain ⟨cpu, pc, here, shape, goal⟩ := there.on_cpu locks shapes fun pc shape goal isOpen => by
    have none := isOpen.2.1
    rw [held pc shape goal] at none
    contradiction
  exact ⟨cpu, pc, here, goal, by rw [here]; exact held pc shape goal⟩

/-! ## Where a process goes -/

theorem apply_cpu_self : (apply state cpu effect).cpu cpu = effect.cpu := overwrite_self _ _ _

theorem apply_cpu_of_ne (different : other ≠ cpu) :
    (apply state cpu effect).cpu other = state.cpu other := overwrite_of_ne different

theorem At.now {thread : Thread procs} (there : effect.cpu.code = .thread self thread) :
    At (apply state cpu effect) self thread.goal :=
  .inl ⟨cpu, thread, by rw [apply_cpu_self, there], rfl⟩

theorem At.elsewhere (different : other ≠ cpu)
    (here : (state.cpu other).code = .thread self (.run pc)) :
    At (apply state cpu effect) self pc.goal :=
  .inl ⟨other, .run pc, by rw [apply_cpu_of_ne different, here], rfl⟩

/-- What becomes of a process that is at some code: only locks change and it is on the same
way, or it makes a step or a call, or it leaves the CPU. -/
inductive Departs (state : State cpus procs) (cpu : Fin cpus) (effect : Effect cpus procs)
    (self : Fin procs) (pc : Pc procs) : Prop where
  | stays {thread : Thread procs} (there : effect.cpu.code = .thread self thread)
      (goal : thread.goal = pc.goal)
      (quiet : ∀ process, ∃ lock, (apply state cpu effect).proc process =
        { state.proc process with lock })
      (sleeplock : (apply state cpu effect).sleeplock = state.sleeplock)
      (keeps : (apply state cpu effect).keeps = state.keeps)
  | moves {place : Point procs} {next : Pc procs} {change : Change cpus procs}
      (here : pc = .point place) (moves : Moves state cpu self place next change)
      (after : effect = change.effect state cpu self next)
  | calls {place : Point procs} {next : Pc procs} {change : Change cpus procs}
      (here : pc = .point place) (calls : Calls state self place next change)
      (after : effect = change.effect state cpu self next)
  | sched {leaving : Leaving} (here : pc = .point (.sched leaving))
      (written : effect.write = some (self, .save (.leaving leaving)))

theorem same_but_lock
    (written : ∀ process write, effect.write = some (process, write) → (∃ holder, write =
      .acquire holder) ∨ write = .release) (process : Fin procs) :
    ∃ lock, (apply state cpu effect).proc process = { state.proc process with lock } := by
  refine apply_proc_cases (fun proc => ∃ lock, proc = { state.proc process with lock })
    (fun write found => ?_) fun _ => ⟨_, rfl⟩
  obtain ⟨holder, rfl⟩ | rfl := written process write found <;> exact ⟨_, rfl⟩

theorem Transition.departs (transition : Acts state cpu effect)
    (here : (state.cpu cpu).code = .thread self (.run pc)) : Departs state cpu effect self pc := by
  rw [Acts, here] at transition
  cases transition with
  | stop => exact .stays here rfl (same_but_lock (by rintro _ _ ⟨⟩)) rfl rfl
  | acquireProc acquires =>
    cases acquires
    refine .stays rfl rfl (same_but_lock ?_) rfl rfl
    rintro _ _ ⟨⟩
    exact .inl ⟨_, rfl⟩
  | acquireSpin acquires =>
    cases acquires
    exact .stays rfl rfl (same_but_lock (by rintro _ _ ⟨⟩)) rfl rfl
  | releaseProc releases =>
    cases releases
    refine .stays rfl rfl (same_but_lock ?_) rfl rfl
    rintro _ _ ⟨⟩
    exact .inr rfl
  | releaseSpin releases =>
    cases releases
    exact .stays rfl rfl (same_but_lock (by rintro _ _ ⟨⟩)) rfl rfl
  | moves moves => exact .moves rfl moves rfl
  | calls calls => exact .calls rfl calls rfl
  | preempt => exact .stays rfl rfl (same_but_lock (by rintro _ _ ⟨⟩)) rfl rfl
  | sched scheds =>
    cases scheds
    exact .sched rfl rfl

/-! ## Everything so far -/

structure Base (state : State cpus procs) : Prop where
  locks : Locks state
  exec : Exec state
  shapes : Shapes state

theorem Base.kept (base : Base state) (transition : Acts state cpu effect) :
    Base (apply state cpu effect) :=
  ⟨(transition.lockStep base.locks).locks base.locks, base.exec.apply base.locks transition,
    base.shapes.apply transition⟩

theorem initial_base (initial : (machine cpus procs).initial state) : Base state :=
  ⟨initial_locks initial, initial_exec initial, initial_shapes initial⟩

end Xv6.Sched
