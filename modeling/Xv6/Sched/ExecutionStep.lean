import Xv6.Sched.Execution

namespace Xv6.Sched

open Xv6.Data Xv6.Transition

/-! # Every step keeps one CPU for each running process

The fields of the invariant one by one; then how processes get to the points of their code,
for what is known of the child while `fork` makes it.
-/

variable {cpus procs : Nat} {state : State cpus procs} {cpu other : Fin cpus}
  {effect : Effect cpus procs} {process self : Fin procs}

section

variable (locks : Locks state) (exec : Exec state)
  (transition : Acts state cpu effect)

include locks exec transition

theorem Exec.claimed_apply (claims : ((apply state cpu effect).cpu other).code.claim = some process) :
    ((apply state cpu effect).proc process).state =
      ((apply state cpu effect).cpu other).code.state := by
  cases Decidable.eq_or_ne other cpu with
  | inl same =>
    subst same
    rw [apply_cpu, overwrite_self] at claims ⊢
    exact transition.own_state locks exec claims
  | inr different =>
    rw [apply_cpu, overwrite_of_ne different] at claims ⊢
    have before := exec.claimed other process claims
    cases Decidable.eq_or_ne (state.cpu other).code.state .running with
    | inl running =>
      rw [running] at before ⊢
      refine transition.running_kept exec before fun thread here => ?_
      exact different (exec.unique other cpu process claims (by rw [here]; rfl))
    | inr leaving =>
      obtain ⟨parent, same⟩ :=
        locks.untouched (Code.leaving_locked claims leaving) different transition
      rw [same]
      exact before

theorem Exec.unique_apply {third : Fin cpus}
    (claims : ((apply state cpu effect).cpu other).code.claim = some process)
    (too : ((apply state cpu effect).cpu third).code.claim = some process) : other = third := by
  -- The CPU that takes a step against another one.
  have against : ∀ {third}, third ≠ cpu → effect.cpu.code.claim = some process →
      (state.cpu third).code.claim = some process → cpu = third := by
    intro third different mine theirs
    cases transition.claimMove locks with
    | same claim =>
      rw [claim] at mine
      exact exec.unique cpu third process mine theirs
    | taken target before after write runnable =>
      rw [after] at mine
      cases mine
      have leaving := exec.claimed third process theirs
      rw [runnable] at leaving
      have held := Code.leaving_locked theirs (leaving ▸ nofun)
      exact locks.proc.unique (by rw [before]; rfl) held
    | left self thread context before scheds after =>
      rw [after] at mine
      contradiction
  rw [apply_cpu] at claims too
  cases overwrite_cases (p := fun entry : Cpu procs => entry.code.claim = some process) claims with
  | inl mine =>
    cases overwrite_cases (p := fun entry : Cpu procs => entry.code.claim = some process) too with
    | inl same => exact mine.1.trans same.1.symm
    | inr theirs => exact mine.1.trans (against theirs.1 mine.2 theirs.2)
  | inr theirs =>
    cases overwrite_cases (p := fun entry : Cpu procs => entry.code.claim = some process) too with
    | inl mine => exact (mine.1.trans (against theirs.1 mine.2 theirs.2)).symm
    | inr both => exact exec.unique other third process theirs.2 both.2

theorem Exec.running_apply (running : ((apply state cpu effect).proc process).state = .running) :
    ∃ other, ((apply state cpu effect).cpu other).code.claim = some process := by
  have still : (state.proc process).state = .running →
      ∃ other, ((apply state cpu effect).cpu other).code.claim = some process := by
    intro before
    obtain ⟨other, claims⟩ := exec.running process before
    refine ⟨other, ?_⟩
    cases Decidable.eq_or_ne other cpu with
    | inl same =>
      subst same
      rw [apply_cpu, overwrite_self]
      cases transition.claimMove locks with
      | same claim => exact claim.trans claims
      | taken target from_ =>
        rw [from_] at claims
        contradiction
      | left self thread context from_ _ _ _ _ marked =>
        rw [from_] at claims
        cases claims
        exact absurd before marked
    | inr different =>
      rw [apply_cpu, overwrite_of_ne different]
      exact claims
  revert running
  refine apply_proc_cases (fun proc => proc.state = .running →
    ∃ other, ((apply state cpu effect).cpu other).code.claim = some process)
    (fun write written => ?_) fun _ => still
  obtain ⟨code, next, _, there, writes⟩ := transition.wrote written
  cases writes with
  | run =>
    intro _
    refine ⟨cpu, ?_⟩
    rw [apply_cpu, overwrite_self, there]
    rfl
  | kill => exact Write.kill_cases (fun _ => nofun) fun _ => still
  | acquire | release | fallAsleep | tidy | save | resume | setup | adopt | reparent => exact still
  | _ => nofun

theorem Exec.current_apply : ((apply state cpu effect).cpu other).proc =
      ((apply state cpu effect).cpu other).code.current := by
  rw [apply_cpu]
  refine overwrite_rec (p := fun _ (entry : Cpu procs) => entry.proc = entry.code.current) ?_
    (fun third _ => exec.current third) other
  have before := exec.current cpu
  have context := locks.context cpu
  obtain ⟨code, here, transition⟩ := transition.code
  rw [here] at before context
  cases transition with
  | stop =>
    rw [← here] at before
    exact before
  | acquireProc acquires | acquireSpin acquires => cases acquires <;> exact before
  | releaseProc releases | releaseSpin releases => cases releases <;> exact before
  | sched scheds held marked saved =>
    rw [context _ _ rfl] at saved
    exact before.trans saved
  | mark | back => rfl
  | _ => exact before

omit locks in
theorem Exec.active_apply {thread : Thread procs}
    (on : ((apply state cpu effect).cpu other).code = .thread self thread) :
    ((apply state cpu effect).proc self).stopped = none := by
  rw [apply_cpu] at on
  cases overwrite_cases (p := fun entry : Cpu procs => entry.code = .thread self thread) on with
  | inl mine =>
    obtain ⟨before, here⟩ | ⟨_, write, _⟩ := transition.thread_cases mine.2
    · have claims : (state.cpu cpu).code.claim = some self := by rw [here]; rfl
      cases transition.stopped_kept exec claims (exec.active cpu self before here) with
      | inl stopped => exact stopped
      | inr save =>
        obtain ⟨context, written⟩ := save
        obtain ⟨_, back, _, _, after⟩ := transition.save_cases written
        rw [mine.2] at after
        contradiction
    · rw [apply_proc_self write]
      rfl
  | inr theirs =>
    have claims : (state.cpu other).code.claim = some self := by rw [theirs.2]; rfl
    cases transition.stopped_kept exec claims (exec.active other self thread theirs.2) with
    | inl stopped => exact stopped
    | inr save =>
      obtain ⟨context, written⟩ := save
      obtain ⟨_, _, here, _⟩ := transition.save_cases written
      exact absurd (exec.unique other cpu self claims (by rw [here]; rfl)) theirs.1

omit locks exec in
theorem Exec.marked_before (marked : Marked (apply state cpu effect) process) :
    Resumable state process := by
  obtain ⟨other, here⟩ := marked
  rw [apply_cpu] at here
  cases overwrite_cases (p := fun entry : Cpu procs =>
      entry.code = .scheduler (.mark process) ∨ entry.code = .scheduler (.swtch process)) here with
  | inl mine =>
    cases transition.marked_cases mine.2 with
    | inl runnable => exact .inl runnable
    | inr before => exact .inr (.inr ⟨cpu, before⟩)
  | inr theirs => exact .inr (.inr ⟨other, theirs.2⟩)

theorem Exec.marked_running (marked : Marked (apply state cpu effect) process) :
    ((apply state cpu effect).proc process).state = .running := by
  obtain ⟨other, here | here⟩ := marked <;>
    exact (exec.claimed_apply locks transition (by rw [here]; rfl)).trans (by rw [here]; rfl)

theorem Exec.saved_apply (resumable : Resumable (apply state cpu effect) process)
    (off : ∀ other thread, ((apply state cpu effect).cpu other).code ≠ .thread process thread) :
    ((apply state cpu effect).proc process).stopped =
      some ((apply state cpu effect).proc process).context := by
  cases transition.off_stack off with
  | inr save =>
    obtain ⟨context, written⟩ := save
    rw [apply_proc_self written]
    rfl
  | inl offBefore =>
    have saved := fun resumable => exec.saved process resumable offBefore
    have same : (state.proc process).state = .runnable ∨ (state.proc process).state = .sleeping ∨
        Marked (apply state cpu effect) process →
        (state.proc process).stopped = some (state.proc process).context := by
      rintro (runnable | sleeping | marked)
      · exact saved (.inl runnable)
      · exact saved (.inr (.inl sleeping))
      · exact saved (Exec.marked_before transition marked)
    revert resumable
    refine apply_proc_cases (fun proc => proc.state = .runnable ∨ proc.state = .sleeping ∨
      Marked (apply state cpu effect) process → proc.stopped = some proc.context)
      (fun write written => ?_) fun _ => same
    have running : Marked (apply state cpu effect) process → _ :=
      exec.marked_running locks transition
    rw [apply_proc_self written] at running
    have writes := transition.writes written
    have offCpu := offBefore cpu
    have offAfter := off cpu
    rw [apply_cpu, overwrite_self] at offAfter
    generalize here : (state.cpu cpu).code = code at writes offCpu
    generalize effect.cpu.code = next at writes offAfter
    cases writes with
    | wakeup _ sleeping => exact fun _ => saved (.inr (.inl sleeping))
    | run runnable => exact fun _ => saved (.inl runnable)
    | kill => exact Write.kill_cases (fun sleeping _ => saved (.inr (.inl sleeping))) fun _ => same
    | acquire | release | adopt | reparent => exact same
    | setup => exact fun _ => rfl
    | ready => exact fun _ => (exec.forked _ _ _ _ (.inl ⟨cpu, _, here, rfl⟩) rfl).2 rfl
    | resume => exact absurd rfl (offAfter _)
    | alloc | free | reap =>
      rintro (runnable | sleeping | marked)
      · contradiction
      · contradiction
      · exact absurd (running marked) nofun
    | _ => exact absurd rfl (offCpu _)

end

/-! ## Where processes get to -/

/-- How a process gets to a point: it was on its way there, it made a step or a call, or it
was resumed after `fork` or `sched`. -/
inductive Arrives (state : State cpus procs) (cpu : Fin cpus) (effect : Effect cpus procs)
    (self : Fin procs) : Point procs → Prop where
  | stays {point : Point procs} (before : At state self point)
      (quiet : ∀ place, (state.cpu cpu).code = .thread self (.run (.point place)) →
        effect.write = none) : Arrives state cpu effect self point
  | moves {place point : Point procs} {pc : Pc procs} {change : Change cpus procs}
      (here : (state.cpu cpu).code = .thread self (.run (.point place)))
      (moves : Moves state cpu self place pc change)
      (after : effect = change.effect state cpu self pc) (goal : pc.goal = point) :
      Arrives state cpu effect self point
  | calls {place point : Point procs} {pc : Pc procs} {change : Change cpus procs}
      (here : (state.cpu cpu).code = .thread self (.run (.point place)))
      (calls : Calls state self place pc change)
      (after : effect = change.effect state cpu self pc) (goal : pc.goal = point) :
      Arrives state cpu effect self point
  | forked (here : (state.cpu cpu).code = .scheduler (.swtch self))
      (stopped : (state.proc self).stopped = some .forkret) : Arrives state cpu effect self .idle
  | returns {leaving : Leaving} (here : (state.cpu cpu).code = .scheduler (.swtch self))
      (stopped : (state.proc self).stopped = some (.leaving leaving)) :
      Arrives state cpu effect self (.back leaving)

theorem Exec.swtch_saved (exec : Exec state)
    (here : (state.cpu cpu).code = .scheduler (.swtch self)) :
    (state.proc self).stopped = some (state.proc self).context := by
  refine exec.saved self (.inr (.inr ⟨cpu, .inr here⟩)) fun other thread on => ?_
  have same := exec.unique cpu other self (by rw [here]; rfl) (by rw [on]; rfl)
  rw [← same, here] at on
  contradiction

/-- A process on a CPU is nowhere else. -/
theorem Exec.at_thread (exec : Exec state) {thread : Thread procs} {point : Point procs}
    (on : (state.cpu cpu).code = .thread self thread) (there : At state self point) :
    thread.goal = point := by
  obtain ⟨other, also, here, goal⟩ | ⟨pc, stopped, _⟩ := there
  · have same := exec.unique cpu other self (by rw [on]; rfl) (by rw [here]; rfl)
    rw [← same, on] at here
    cases here
    exact goal
  · rw [exec.active cpu self thread on] at stopped
    contradiction

theorem Transition.arrives_running {point : Point procs} {thread : Thread procs} (exec : Exec state)
    (transition : Acts state cpu effect)
    (there : effect.cpu.code = .thread self thread) (goal : thread.goal = point) :
    Arrives state cpu effect self point := by
  have stays : ∀ {before : Thread procs}, (state.cpu cpu).code = .thread self before →
      before.goal = point → (∀ place, before = .run (.point place) → effect.write = none) →
      Arrives state cpu effect self point := by
    intro before here same quiet
    refine .stays (.inl ⟨cpu, before, here, same⟩) fun place at_ => quiet place ?_
    rw [here] at at_
    cases at_
    rfl
  obtain ⟨code, here, transition⟩ := transition.code
  rw [here] at stays
  cases transition with
  | stop => exact stays (here.symm.trans there) goal fun _ _ => rfl
  | acquireProc acquires => cases acquires <;> cases there <;> exact stays rfl goal nofun
  | acquireSpin acquires =>
    cases acquires with
    | run => cases there; exact stays rfl goal nofun
    | handler => contradiction
  | releaseProc releases => cases releases <;> cases there <;> exact stays rfl goal nofun
  | releaseSpin releases =>
    cases releases with
    | run => cases there; exact stays rfl goal nofun
    | handler => contradiction
  | moves moves =>
    cases there
    exact .moves here moves rfl goal
  | calls calls =>
    cases there
    exact .calls here calls rfl goal
  | preempt =>
    cases there
    exact stays rfl goal fun _ _ => rfl
  | yield =>
    cases there
    exact stays rfl goal nofun
  | swtch loaded =>
    cases there
    have stopped := exec.swtch_saved here
    generalize (state.proc self).context = context at loaded stopped
    cases context with
    | zero => contradiction
    | forkret =>
      cases loaded
      exact goal ▸ .forked here stopped
    | yield resume =>
      cases loaded
      refine .stays (.inr ⟨resume, stopped, goal⟩) fun place at_ => ?_
      rw [here] at at_
      contradiction
    | leaving leaving =>
      cases loaded
      exact goal ▸ .returns here stopped
  | _ => contradiction

theorem Transition.arrives {point : Point procs} (exec : Exec state)
    (transition : Acts state cpu effect)
    (after : At (apply state cpu effect) self point) : Arrives state cpu effect self point := by
  obtain ⟨other, thread, there, goal⟩ | ⟨pc, stopped, goal⟩ := after
  · rw [apply_cpu] at there
    cases overwrite_cases (p := fun entry : Cpu procs => entry.code = .thread self thread) there with
    | inl mine => exact transition.arrives_running exec mine.2 goal
    | inr theirs =>
      refine .stays (.inl ⟨other, thread, theirs.2, goal⟩) fun place here => ?_
      have same := exec.unique other cpu self (by rw [theirs.2]; rfl) (by rw [here]; rfl)
      exact absurd same theirs.1
  · -- The process was preempted before, or is saved by this step.
    have stays : (state.proc self).stopped = some (.yield pc) → Arrives state cpu effect self point := by
      intro before
      refine .stays (.inr ⟨pc, before, goal⟩) fun place here => ?_
      rw [exec.active cpu self _ here] at before
      contradiction
    revert stopped
    refine apply_proc_cases (fun proc => proc.stopped = some (.yield pc) →
      Arrives state cpu effect self point) (fun write written => ?_) fun _ => stays
    obtain ⟨code, next, here, _, writes⟩ := transition.wrote written
    cases writes with
    | save _ scheds =>
      rintro ⟨⟩
      cases scheds
      refine .stays (.inl ⟨cpu, _, here, goal⟩) fun place at_ => ?_
      rw [here] at at_
      cases at_
    | setup | resume | free | reap => nofun
    | _ => exact stays

/-! ### Children that are being made -/

/-- The steps of `fork` from one point with a child to the next. -/
theorem Moves.child_cases {place : Point procs} {pc : Pc procs} {change : Change cpus procs}
    (moves : Moves state cpu self place pc change) {ready : Bool}
    (found : pc.goal.child = some (process, ready)) :
    (place = .forkTest process ∧ ready = false ∧ (state.proc process).state = .unused ∧
      change.write = some (process, .alloc)) ∨
    (place = .forkInit process ∧ change.write = some (process, .setup)) ∨
    place = .forkParent process ∧ change.write = some (process, .parent self) := by
  cases moves with
  | forkAlloc unused => cases found; exact .inl ⟨rfl, rfl, unused, rfl⟩
  | forkSetup => cases found; exact .inr (.inl ⟨rfl, rfl⟩)
  | forkParent => cases found; exact .inr (.inr ⟨rfl, rfl⟩)
  | sleepBack sleep => cases sleep <;> cases found
  | wakeupEnd wakeup => obtain ⟨_, caller, _⟩ := wakeup; cases caller <;> cases found
  | _ => cases found

theorem Calls.childless {place : Point procs} {pc : Pc procs} {change : Change cpus procs}
    (calls : Calls state self place pc change) : pc.goal.child = none := by
  cases calls <;> rfl

section

variable {point : Point procs} {ready : Bool} (arrives : Arrives state cpu effect self point)
  (found : point.child = some (process, ready))

include arrives found

theorem Arrives.child_before :
    (∃ place early, At state self place ∧ place.child = some (process, early)) ∨
      (state.cpu cpu).code = .thread self (.run (.point (.forkTest process))) ∧
        (state.proc process).state = .unused := by
  cases arrives with
  | stays before => exact .inl ⟨point, ready, before, found⟩
  | moves here moves _ goal =>
    subst goal
    obtain ⟨rfl, _, unused, _⟩ | ⟨rfl, _⟩ | ⟨rfl, _⟩ := moves.child_cases found
    · exact .inr ⟨here, unused⟩
    · exact .inl ⟨_, false, .inl ⟨cpu, _, here, rfl⟩, rfl⟩
    · exact .inl ⟨_, true, .inl ⟨cpu, _, here, rfl⟩, rfl⟩
  | calls _ calls _ goal =>
    subst goal
    rw [calls.childless] at found
    contradiction
  | forked | returns => contradiction

theorem Exec.forked_apply (exec : Exec state) (transition : Acts state cpu effect) :
    ((apply state cpu effect).proc process).state = .used ∧
      (ready = true → ((apply state cpu effect).proc process).stopped =
        some ((apply state cpu effect).proc process).context) := by
  cases arrives with
  | stays before quiet =>
    obtain ⟨used, saved⟩ := exec.forked self point process ready before found
    -- Nobody but its maker touches the child.
    refine apply_proc_cases (fun proc => proc.state = .used ∧
      (ready = true → proc.stopped = some proc.context)) (fun write written => ?_)
      fun _ => ⟨used, saved⟩
    have writes := transition.writes written
    have claimed := exec.claimed cpu process
    have maker : ∀ {maker place early},
        (state.cpu cpu).code = .thread maker (.run (.point place)) →
        place.child = some (process, early) → False := by
      intro maker place early here child
      have same := exec.forker maker self place point process early ready
        (.inl ⟨cpu, _, here, rfl⟩) before child found
      subst same
      rw [quiet place here] at written
      contradiction
    have alive := (state.cpu cpu).code.state_alive.1
    generalize (state.cpu cpu).code = code at writes claimed maker alive
    generalize effect.cpu.code = next at writes
    have impossible : ∀ {other : ProcState}, (state.proc process).state = other →
        other ≠ .used → False := fun same different => different (same.symm.trans used)
    cases writes with
    | acquire | release | adopt | reparent => exact ⟨used, saved⟩
    | kill =>
      exact Write.kill_cases (fun sleeping => (impossible sleeping nofun).elim) fun _ => ⟨used, saved⟩
    | wakeup _ sleeping => exact (impossible sleeping nofun).elim
    | run runnable => exact (impossible runnable nofun).elim
    | alloc unused => exact (impossible unused nofun).elim
    | reap zombie => exact (impossible zombie nofun).elim
    | setup | free | ready => exact (maker rfl rfl).elim
    | _ => exact (impossible (claimed rfl) alive).elim
  | moves here moves after goal =>
    subst goal after
    obtain ⟨rfl, rfl, _, written⟩ | ⟨rfl, written⟩ | ⟨rfl, written⟩ := moves.child_cases found
    · rw [apply_proc_self written]
      exact ⟨rfl, nofun⟩
    · rw [apply_proc_self written]
      exact ⟨exec.child_used here rfl, fun _ => rfl⟩
    · rw [apply_proc_self written]
      obtain ⟨used, saved⟩ := exec.forked self _ process true (.inl ⟨cpu, _, here, rfl⟩) rfl
      exact ⟨used, fun _ => saved rfl⟩
  | calls _ calls _ goal =>
    subst goal
    rw [calls.childless] at found
    contradiction
  | forked | returns => contradiction

end

theorem Exec.apply (locks : Locks state) (exec : Exec state) (transition : Acts state cpu effect) :
    Exec (apply state cpu effect) where
  claimed := fun _ _ => exec.claimed_apply locks transition
  unique := fun _ _ _ => exec.unique_apply locks transition
  running := fun _ => exec.running_apply locks transition
  current := fun _ => exec.current_apply locks transition
  active := fun _ _ _ => exec.active_apply transition
  saved := fun _ => exec.saved_apply locks transition
  forked := fun _ _ _ _ there found =>
    exec.forked_apply (transition.arrives exec there) found transition
  forker := by
    intro self other point point' child ready ready' there there' found found'
    have mine := (transition.arrives exec there).child_before found
    have theirs := (transition.arrives exec there').child_before found'
    obtain ⟨place, early, before, was⟩ | ⟨here, unused⟩ := mine
    · obtain ⟨place', early', before', was'⟩ | ⟨here, unused⟩ := theirs
      · exact exec.forker _ _ _ _ _ _ _ before before' was was'
      · rw [(exec.forked _ _ _ _ before was).1] at unused
        contradiction
    · obtain ⟨place', early', before', was'⟩ | ⟨here', _⟩ := theirs
      · rw [(exec.forked _ _ _ _ before' was').1] at unused
        contradiction
      · rw [here] at here'
        cases here'
        rfl

theorem initial_nowhere (initial : (machine cpus procs).initial state) {point : Point procs} :
    ¬At state self point := by
  obtain ⟨cpu, proc, _⟩ := initial
  rintro (⟨index, thread, here, _⟩ | ⟨pc, here, _⟩)
  · rw [cpu] at here
    contradiction
  · rw [proc] at here
    split at here <;> cases here

theorem initial_exec (initial : (machine cpus procs).initial state) : Exec state := by
  have nowhere {self : Fin procs} {point : Point procs} : ¬At state self point := initial_nowhere initial
  obtain ⟨cpu, proc, _⟩ := initial
  have code : ∀ index, (state.cpu index).code = .scheduler (.loop 0) := by
    intro index
    rw [cpu]
  constructor
  · intro index process claims
    rw [code] at claims
    contradiction
  · intro index other process claims
    rw [code] at claims
    contradiction
  · intro process running
    rw [proc] at running
    split at running <;> contradiction
  · intro index
    rw [cpu]
    rfl
  · intro index self thread here
    rw [code] at here
    contradiction
  · intro process resumable _
    obtain runnable | sleeping | ⟨index, here | here⟩ := resumable
    · rw [proc] at runnable ⊢
      split at runnable
      · rw [if_pos ‹_›]
      · contradiction
    · rw [proc] at sleeping
      split at sleeping <;> contradiction
    · rw [code] at here
      cases here
    · rw [code] at here
      cases here
  · intro self point child ready here
    exact absurd here nowhere
  · intro self other point point' child ready ready' here
    exact absurd here nowhere

theorem step_effect {event : Event cpus procs} {after : State cpus procs}
    (stepped : step state event = some after) :
    ∃ effect, Transition state event.cpu (state.cpu event.cpu).code effect ∧
      act state event = some effect ∧ after = apply state event.cpu effect := by
  simp only [step, Option.ite_none_left_eq_some, Option.map_eq_some_iff] at stepped
  obtain ⟨_, effect, acted, rfl⟩ := stepped
  exact ⟨effect, act_transition acted, acted, rfl⟩

theorem reachable_exec (reachable : Reachable (machine cpus procs) state) :
    Locks state ∧ Exec state := by
  refine Reachable.invariant (fun state initial => And.intro (initial_locks initial)
    (initial_exec initial)) ?_ reachable
  intro before event after held stepped
  obtain ⟨locks, exec⟩ := held
  obtain ⟨effect, transition, _, rfl⟩ := step_effect stepped
  exact ⟨(transition.lockStep locks).locks locks, exec.apply locks transition⟩

end Xv6.Sched
