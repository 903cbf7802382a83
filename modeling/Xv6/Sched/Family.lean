import Xv6.Sched.Wakeup

namespace Xv6.Sched

open Xv6.Data Xv6.Transition

/-! # Parents

`fork` publishes a parent and `exit` gives the children to init, both under `wait_lock`; so
a parent is always a process that has not exited.
-/

variable {cpus procs : Nat} {state : State cpus procs} {cpu other : Fin cpus}
  {effect : Effect cpus procs} {process self parent : Fin procs} {point place : Point procs}

/-- How many slots `exit` has taken its children out of. -/
def Caller.orphaned : Caller procs → Option Nat
  | .reparent _ index => some index
  | .exit _ _ => some procs
  | _ => none

def Point.orphaned : Point procs → Option Nat
  | .reparent _ index => some index
  | .wakeup call _ | .wakeupTest call _ => call.caller.orphaned
  | .exitMark _ => some procs
  | _ => none

structure Family (state : State cpus procs) : Prop where
  initproc : (state.proc state.initproc).state.live = true
  parent : ∀ process parent, (state.proc process).parent = some parent →
    (state.proc parent).state.live = true
  unused : ∀ process, (state.proc process).state = .unused → (state.proc process).parent = none
  newborn : ∀ self process, At state self (.forkInit process) → (state.proc process).parent = none
  published : ∀ self process, At state self (.forkReady process) →
    (state.proc process).parent ≠ none
  child : ∀ process, (state.proc process).state ≠ .unused → (state.proc process).state ≠ .used →
    process ≠ state.initproc → (state.proc process).parent ≠ none
  mortal : ∀ self point count, At state self point → point.orphaned = some count →
    self ≠ state.initproc
  orphaned : ∀ self point count process, At state self point → point.orphaned = some count →
    process.val < count → (state.proc process).parent ≠ some self

/-! ## Live processes -/

/-- A process stops being live by `exit` only. -/
theorem Transition.live_kept (exec : Exec state) (transition : Acts state cpu effect)
    (live : (state.proc process).state.live = true) :
    ((apply state cpu effect).proc process).state.live = true ∨
      ∃ status, (state.cpu cpu).code = .thread process (.run (.point (.exitMark status))) := by
  refine apply_proc_cases (fun proc => proc.state.live = true ∨
    ∃ status, (state.cpu cpu).code = .thread process (.run (.point (.exitMark status))))
    (fun write written => ?_) fun _ => .inl live
  obtain ⟨code, next, here, _, writes⟩ := transition.wrote written
  have impossible : ∀ {now : ProcState}, (state.proc process).state = now → now.live = false → False := by
    intro now same dead
    rw [same, dead] at live
    contradiction
  cases writes with
  | kill => exact Write.kill_cases (fun _ => .inl rfl) fun _ => .inl live
  | wakeup | run | yield | sleep | ready => exact .inl rfl
  | exit status => exact .inr ⟨status, here⟩
  | alloc unused => exact (impossible unused rfl).elim
  | free => exact (impossible (exec.child_used here rfl) rfl).elim
  | reap zombie => exact (impossible zombie rfl).elim
  | _ => exact .inl live

/-- What a step does to the parent of a process. -/
inductive ParentMove (state : State cpus procs) (cpu : Fin cpus) (effect : Effect cpus procs)
    (process : Fin procs) : Prop where
  | same (parent : ((apply state cpu effect).proc process).parent = (state.proc process).parent)
  | adopt (self : Fin procs)
      (here : (state.cpu cpu).code = .thread self (.run (.point (.forkParent process))))
      (parent : ((apply state cpu effect).proc process).parent = some self)
  | reparent (self : Fin procs) (status : BitVec 32)
      (here : (state.cpu cpu).code = .thread self (.run (.point (.reparent status process))))
      (before : (state.proc process).parent = some self)
      (parent : ((apply state cpu effect).proc process).parent = some state.initproc)
      (there : effect.cpu.code = .thread self (.run (.point (.wakeup
        ⟨some (.proc state.initproc), .reparent status (process + 1), state.clock⟩ 0))))
  | free (self : Fin procs)
      (here : (state.cpu cpu).code = .thread self (.run (.point (.forkInit process))))
      (parent : ((apply state cpu effect).proc process).parent = none)
      (unused : ((apply state cpu effect).proc process).state = .unused)
  | reap (self : Fin procs)
      (here : (state.cpu cpu).code = .thread self (.run (.point (.waitTest process))))
      (zombie : (state.proc process).state = .zombie)
      (parent : ((apply state cpu effect).proc process).parent = none)
      (unused : ((apply state cpu effect).proc process).state = .unused)

theorem Transition.parentMove (transition : Acts state cpu effect)
    (process : Fin procs) : ParentMove state cpu effect process := by
  by_cases none : ∀ write, effect.write ≠ some (process, write)
  · exact .same (apply_proc_cases (fun proc => proc.parent = (state.proc process).parent)
      (fun write written => absurd written (none write)) fun _ => rfl)
  · obtain ⟨write, written⟩ := not_forall_not.mp none
    obtain ⟨code, next, here, there, writes⟩ := transition.wrote written
    have after : (apply state cpu effect).proc process = _ := apply_proc_self written
    cases writes with
    | adopt => exact .adopt _ here (by rw [after]; rfl)
    | reparent child => exact .reparent _ _ here child (by rw [after]; rfl) there
    | free => exact .free _ here (by rw [after]; rfl) (by rw [after]; rfl)
    | reap zombie => exact .reap _ here zombie (by rw [after]; rfl) (by rw [after]; rfl)
    | _ => exact .same (by rw [after]; rfl)

/-! ## `exit` takes the children out of the table -/

theorem Moves.orphaned {pc : Pc procs} {change : Change cpus procs}
    (moves : Moves state cpu self place pc change) {count : Nat}
    (found : pc.goal.orphaned = some count) :
    ∃ before, place.orphaned = some before ∧
      (count ≤ before ∨ ∃ process : Fin procs, before = process ∧ count = process + 1 ∧
        ((state.proc process).parent ≠ some self ∨
          change.write = some (process, .parent state.initproc))) := by
  cases moves with
  | wakeupSkip | wakeupLock | wakeupHit | wakeupMiss => exact ⟨count, found, .inl (Nat.le_refl _)⟩
  | wakeupEnd wakeup =>
    obtain ⟨_, caller, _⟩ := wakeup
    cases caller with
    | reparent | exit => exact ⟨count, found, .inl (Nat.le_refl _)⟩
    | _ => cases found
  | reparentHit status process child =>
    cases found
    exact ⟨process, rfl, .inr ⟨process, rfl, rfl, .inr rfl⟩⟩
  | reparentMiss status process other =>
    cases found
    exact ⟨process, rfl, .inr ⟨process, rfl, rfl, .inl other⟩⟩
  | reparentEnd status outside =>
    cases found
    exact ⟨_, rfl, .inl outside⟩
  | sleepBack sleep => cases sleep <;> cases found
  | _ => cases found

theorem Calls.orphaned {pc : Pc procs} {change : Change cpus procs}
    (calls : Calls state self place pc change) {count : Nat}
    (found : pc.goal.orphaned = some count) : self ≠ state.initproc ∧ count = 0 := by
  cases calls with
  | exit status other => cases found; exact ⟨other, rfl⟩
  | _ => cases found

/-! ## The invariant is kept -/

section

variable (base : Base state) (family : Family state)
  (transition : Acts state cpu effect)

include base family transition

theorem Family.initproc_apply :
    ((apply state cpu effect).proc state.initproc).state.live = true := by
  obtain live | ⟨status, here⟩ := transition.live_kept base.exec family.initproc
  · exact live
  · exact absurd rfl (family.mortal _ _ _ (.inl ⟨cpu, _, here, rfl⟩) rfl)

theorem Family.parent_apply (after : ((apply state cpu effect).proc process).parent = some parent) :
    ((apply state cpu effect).proc parent).state.live = true := by
  cases transition.parentMove process with
  | same same =>
    rw [same] at after
    obtain live | ⟨status, here⟩ :=
      transition.live_kept base.exec (family.parent process parent after)
    · exact live
    · exact absurd after (family.orphaned parent _ _ process (.inl ⟨cpu, _, here, rfl⟩) rfl process.isLt)
  | adopt self here found =>
    rw [found] at after
    cases after
    have running := base.exec.claimed cpu parent (by rw [here]; rfl)
    rw [here] at running
    have before : (state.proc parent).state.live = true := by rw [running]; rfl
    obtain live | ⟨status, also⟩ := transition.live_kept base.exec before
    · exact live
    · rw [here] at also
      cases also
  | reparent self status here before found =>
    rw [found] at after
    cases after
    exact family.initproc_apply base transition
  | free _ _ found | reap _ _ _ found =>
    rw [found] at after
    contradiction

theorem Family.unused_apply (after : ((apply state cpu effect).proc process).state = .unused) :
    ((apply state cpu effect).proc process).parent = none := by
  revert after
  refine apply_proc_cases (fun proc => proc.state = .unused → proc.parent = none)
    (fun write written => ?_) fun _ => family.unused process
  obtain ⟨code, next, here, _, writes⟩ := transition.wrote written
  cases writes with
  | free | reap => exact fun _ => rfl
  | adopt =>
    intro unused
    have used := base.exec.child_used here rfl
    exact absurd (used.symm.trans unused) nofun
  | reparent child =>
    intro unused
    rw [family.unused process unused] at child
    contradiction
  | kill => exact Write.kill_cases (fun _ => nofun) fun _ => family.unused process
  | acquire | release | fallAsleep | tidy | save | resume | setup => exact family.unused process
  | _ => nofun

theorem Family.newborn_apply (after : At (apply state cpu effect) self (.forkInit process)) :
    ((apply state cpu effect).proc process).parent = none := by
  cases transition.arrives base.exec after with
  | stays before =>
    have none := family.newborn self process before
    cases transition.parentMove process with
    | same same => exact same.trans none
    | adopt maker here =>
      have same := base.exec.forker maker self _ _ _ _ _ (.inl ⟨cpu, _, here, rfl⟩) before rfl rfl
      subst same
      exact absurd (base.exec.at_thread here before) nofun
    | reparent _ _ _ child =>
      rw [none] at child
      contradiction
    | free _ _ found | reap _ _ _ found => exact found
  | moves here moves after goal =>
    subst after
    cases moves with
    | forkAlloc unused =>
      cases goal
      rw [apply_proc_self rfl]
      exact family.unused process unused
    | sleepBack sleep => cases sleep <;> cases goal
    | wakeupEnd wakeup => obtain ⟨_, caller, _⟩ := wakeup; cases caller <;> cases goal
    | _ => cases goal
  | calls _ calls _ goal => cases calls <;> cases goal

theorem Family.published_apply (after : At (apply state cpu effect) self (.forkReady process)) :
    ((apply state cpu effect).proc process).parent ≠ none := by
  cases transition.arrives base.exec after with
  | stays before =>
    have some := family.published self process before
    cases transition.parentMove process with
    | same same => rwa [same]
    | adopt _ _ found | reparent _ _ _ _ found => rw [found]; nofun
    | free maker here =>
      have same := base.exec.forker maker self _ _ _ _ _ (.inl ⟨cpu, _, here, rfl⟩) before rfl rfl
      subst same
      exact absurd (base.exec.at_thread here before) nofun
    | reap _ _ zombie =>
      have used := (base.exec.forked self _ process true before rfl).1
      rw [zombie] at used
      contradiction
  | moves here moves after goal =>
    subst after
    cases moves with
    | forkParent =>
      cases goal
      rw [apply_proc_self rfl]
      nofun
    | sleepBack sleep => cases sleep <;> cases goal
    | wakeupEnd wakeup => obtain ⟨_, caller, _⟩ := wakeup; cases caller <;> cases goal
    | _ => cases goal
  | calls _ calls _ goal => cases calls <;> cases goal

theorem Family.child_apply (inUse : ((apply state cpu effect).proc process).state ≠ .unused)
    (made : ((apply state cpu effect).proc process).state ≠ .used)
    (other : process ≠ state.initproc) :
    ((apply state cpu effect).proc process).parent ≠ none := by
  revert inUse made
  refine apply_proc_cases (fun proc => proc.state ≠ .unused → proc.state ≠ .used → proc.parent ≠ none)
    (fun write written => ?_) fun _ inUse made => family.child process inUse made other
  have writes := transition.writes written
  have claimed := base.exec.claimed cpu process
  have alive := (state.cpu cpu).code.state_alive
  generalize here : (state.cpu cpu).code = code at writes claimed alive
  generalize effect.cpu.code = next at writes
  have before : ∀ {now : ProcState}, (state.proc process).state = now → now ≠ .used ∧ now ≠ .unused →
      (state.proc process).parent ≠ none := by
    intro now same different
    subst same
    exact family.child process different.2 different.1 other
  cases writes with
  | adopt | reparent => nofun
  | ready => exact fun _ _ => family.published _ process (.inl ⟨cpu, _, here, rfl⟩)
  | alloc => exact fun _ made => absurd rfl made
  | free | reap => exact fun inUse => absurd rfl inUse
  | wakeup _ sleeping => exact fun _ _ => before sleeping ⟨nofun, nofun⟩
  | run runnable => exact fun _ _ => before runnable ⟨nofun, nofun⟩
  | kill =>
    exact Write.kill_cases (fun sleeping _ _ => before sleeping ⟨nofun, nofun⟩)
      fun _ inUse made => family.child process inUse made other
  | acquire | release | setup => exact fun inUse made => family.child process inUse made other
  | _ => exact fun _ _ => before (claimed rfl) alive

theorem Family.mortal_apply {count : Nat} (after : At (apply state cpu effect) self point)
    (found : point.orphaned = some count) : self ≠ state.initproc := by
  cases transition.arrives base.exec after with
  | stays before => exact family.mortal self point count before found
  | moves here moves _ goal =>
    subst goal
    obtain ⟨before, place, _⟩ := moves.orphaned found
    exact family.mortal self _ before (.inl ⟨cpu, _, here, rfl⟩) place
  | calls _ calls _ goal =>
    subst goal
    exact (calls.orphaned found).1
  | forked | returns => contradiction

/-- A process that exits gets no children. -/
theorem Family.childless_kept {count : Nat} (there : At state self point)
    (found : point.orphaned = some count) (before : (state.proc process).parent ≠ some self) :
    ((apply state cpu effect).proc process).parent ≠ some self := by
  cases transition.parentMove process with
  | same same => rwa [same]
  | adopt maker here parent =>
    rw [parent]
    rintro ⟨⟩
    have goal := base.exec.at_thread here there
    subst goal
    contradiction
  | reparent _ _ _ _ parent =>
    rw [parent]
    rintro ⟨⟩
    exact family.mortal _ point count there found rfl
  | free _ _ parent | reap _ _ _ parent => rw [parent]; nofun

theorem Family.orphaned_apply {count : Nat} (after : At (apply state cpu effect) self point)
    (found : point.orphaned = some count) (below : process.val < count) :
    ((apply state cpu effect).proc process).parent ≠ some self := by
  have mortal := family.mortal_apply base transition after found
  cases transition.arrives base.exec after with
  | stays before =>
    exact family.childless_kept base transition before found
      (family.orphaned self point count process before found below)
  | moves here moves made goal =>
    subst goal
    have there : At state self _ := .inl ⟨cpu, _, here, rfl⟩
    obtain ⟨earlier, place, fewer | ⟨target, rfl, rfl, outcome⟩⟩ := moves.orphaned found
    · exact family.childless_kept base transition there place
        (family.orphaned self _ earlier process there place (Nat.lt_of_lt_of_le below fewer))
    · cases Nat.lt_succ_iff_lt_or_eq.mp below with
      | inl less =>
        exact family.childless_kept base transition there place
          (family.orphaned self _ _ process there place less)
      | inr equal =>
        have same := Fin.ext equal
        subst same
        cases outcome with
        | inl other => exact family.childless_kept base transition there place other
        | inr written =>
          subst made
          rw [apply_proc_self written]
          rintro ⟨⟩
          exact mortal rfl
  | calls _ calls _ goal =>
    subst goal
    rw [(calls.orphaned found).2] at below
    exact absurd below (Nat.not_lt_zero _)
  | forked | returns => contradiction

theorem Family.kept : Family (apply state cpu effect) where
  initproc := family.initproc_apply base transition
  parent _ _ := family.parent_apply base transition
  unused _ := family.unused_apply base transition
  newborn _ _ := family.newborn_apply base transition
  published _ _ := family.published_apply base transition
  child _ := family.child_apply base transition
  mortal _ _ _ := family.mortal_apply base transition
  orphaned _ _ _ _ := family.orphaned_apply base transition

end

theorem initial_family (initial : (machine cpus procs).initial state) : Family state := by
  have nowhere {self : Fin procs} {point : Point procs} : ¬At state self point := initial_nowhere initial
  have parent : ∀ process, (state.proc process).parent = none := by
    intro process
    rw [initial.2.1]
    split <;> rfl
  constructor
  · rw [initial.2.1, if_pos rfl]
    rfl
  · intro process other found
    rw [parent] at found
    contradiction
  · exact fun process _ => parent process
  · exact fun process _ _ => parent _
  · exact fun self process there => absurd there nowhere
  · intro process inUse _ other
    rw [initial.2.1, if_neg other] at inUse
    exact absurd rfl inUse
  · exact fun self point count there => absurd there nowhere
  · exact fun self point count process there => absurd there nowhere

end Xv6.Sched
