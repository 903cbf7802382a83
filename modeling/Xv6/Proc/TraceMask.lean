import Xv6.Proc.Fork

namespace Xv6.Fork

open Xv6.Transition

variable {count : Nat}

/-! # Who has which mask

A child is settled once its parent has left `fork`.  Until then its mask may be
that of an earlier process in its slot.
-/

/-- The child that `fork` is still working on. -/
def Place.child : Place count → Option (Fin count)
  | .forkParent child | .forkRunnable child | .forkCopy child => some child
  | _ => none

def Place.inFork : Place count → Bool
  | .forkScan _ | .forkParent _ | .forkRunnable _ | .forkCopy _ => true
  | _ => false

/-- The process is performing a system call. -/
def Place.inCall : Place count → Bool
  | .user | .exiting false => false
  | _ => true

def Call.keeps (mask : BitVec 32) : Call → Prop
  | .trace chosen => chosen = mask
  | _ => True

instance (mask : BitVec 32) : (call : Call) → Decidable (call.keeps mask)
  | .trace chosen => inferInstanceAs (Decidable (chosen = mask))
  | .fork | .exit | .wait | .other _ => .isTrue trivial

/-- A system call entered before the parent's `fork` has copied its mask finds that
mask in place, and does not replace it. -/
def orderly (state : State count) : Event count → Prop
  | .call process call => ∀ parent, (state.proc parent).place = .forkCopy process →
      (state.proc process).traceMask = (state.proc parent).traceMask ∧
        call.keeps (state.proc parent).traceMask
  | _ => True

instance (state : State count) : (event : Event count) → Decidable (orderly state event)
  | .call process call => inferInstanceAs (Decidable (∀ parent,
      (state.proc parent).place = .forkCopy process →
        (state.proc process).traceMask = (state.proc parent).traceMask ∧
          call.keeps (state.proc parent).traceMask))
  | .trap _ _ | .step _ _ | .schedule _ | .yield _ | .sleep _ | .wakeup _ | .kill _ =>
    .isTrue trivial

/-- What `fork` in `parent` has done to `child`. -/
structure Stage (parent child : Fin count) (parentProc childProc : Proc count) : Prop where
  apart : parent ≠ child
  expected : childProc.expected = parentProc.atFork
  calls : childProc.place.inCall = true ∨ childProc.chosen = true →
    childProc.traceMask = parentProc.atFork
  traces : ∀ mask, childProc.place = .tracing mask → mask = parentProc.atFork
  named : parentProc.place = .forkParent child →
    childProc.state = .used ∧ childProc.parent = none
  ready : parentProc.place = .forkRunnable child →
    childProc.state = .used ∧ childProc.parent = some parent
  started : parentProc.place = .forkCopy child →
    childProc.state ≠ .unused ∧ childProc.parent = some parent

structure Sound (proc : Proc count) : Prop where
  kept : proc.place.inFork = true → proc.traceMask = proc.atFork
  idle : proc.state = .unused ∨ proc.state = .zombie → proc.place.child = none
  unnamed : proc.state = .unused → proc.parent = none

structure Invariant (table : Fin count → Proc count) : Prop where
  stage : ∀ parent child, (table parent).place.child = some child →
    Stage parent child (table parent) (table child)
  unique : ∀ first second child, (table first).place.child = some child →
    (table second).place.child = some child → first = second
  settled : ∀ process, (table process).state ≠ .unused →
    (∀ parent, (table parent).place.child ≠ some process) →
      (table process).traceMask = (table process).expected
  sound : ∀ process, Sound (table process)

variable {table : Fin count → Proc count} {process : Fin count}

theorem Invariant.mask_expected (invariant : Invariant table)
    (present : (table process).state ≠ .unused)
    (inCall : (table process).place.inCall = true ∨ (table process).chosen = true) :
    (table process).traceMask = (table process).expected := by
  by_cases pending : ∃ parent, (table parent).place.child = some process
  · obtain ⟨parent, forking⟩ := pending
    have stage := invariant.stage parent process forking
    exact (stage.calls inCall).trans stage.expected.symm
  · exact invariant.settled process present (not_exists.mp pending)

/-! ## Steps that change one slot -/

variable {proc : Proc count} {place : Place count} {parent child : Fin count}
  {parentProc childProc : Proc count}

theorem Place.child_cases (forking : place.child = some child) :
    place = .forkParent child ∨ place = .forkRunnable child ∨ place = .forkCopy child := by
  cases place <;> cases forking <;> simp

/-- A stage depends on the place of the parent and on the mask it began with. -/
theorem Stage.congr {other : Proc count} (stage : Stage parent child parentProc childProc)
    (place : other.place = parentProc.place) (atFork : other.atFork = parentProc.atFork) :
    Stage parent child other childProc := by
  obtain ⟨apart, expected, calls, traces, named, ready, started⟩ := stage
  rw [← atFork] at expected calls traces
  rw [← place] at named ready started
  exact ⟨apart, expected, calls, traces, named, ready, started⟩

theorem Invariant.update (invariant : Invariant table)
    (place : proc.place = (table process).place ∧ proc.atFork = (table process).atFork ∨
      proc.place.child = none ∧ (table process).place.child = none)
    (stage : ∀ forker, (table forker).place.child = some process →
      Stage forker process (table forker) (table process) →
      Stage forker process (table forker) proc)
    (settled : proc.state ≠ .unused → (∀ forker, (table forker).place.child ≠ some process) →
      proc.traceMask = proc.expected) (sound : Sound proc) :
    Invariant (Function.update table process proc) := by
  have sameChild : ∀ other, (Function.update table process proc other).place.child =
      (table other).place.child := by
    intro other
    by_cases same : other = process
    · subst same
      rw [Function.update_self]
      rcases place with ⟨place, -⟩ | ⟨after, before⟩
      · rw [place]
      · rw [after, before]
    · rw [Function.update_of_ne same]
  refine ⟨?_, ?_, ?_, ?_⟩
  · intro parent child forking
    rw [sameChild] at forking
    have held := invariant.stage parent child forking
    by_cases isParent : parent = process
    · subst isParent
      rw [Function.update_self, Function.update_of_ne (Ne.symm held.apart)]
      rcases place with ⟨place, atFork⟩ | ⟨-, before⟩
      · exact held.congr place atFork
      · rw [before] at forking
        contradiction
    · rw [Function.update_of_ne isParent]
      by_cases isChild : child = process
      · subst isChild
        rw [Function.update_self]
        exact stage parent forking held
      · rw [Function.update_of_ne isChild]
        exact held
  · intro first second child
    rw [sameChild, sameChild]
    exact invariant.unique first second child
  · intro other present alone
    have orphan : ∀ parent, (table parent).place.child ≠ some other := by
      intro parent
      rw [← sameChild]
      exact alone parent
    by_cases same : other = process
    · subst same
      rw [Function.update_self] at present ⊢
      exact settled present orphan
    · rw [Function.update_of_ne same] at present ⊢
      exact invariant.settled other present orphan
  · exact (Function.forall_update_iff table fun _ => Sound).mpr
      ⟨sound, fun other _ => invariant.sound other⟩

/-- A started process goes elsewhere in the kernel, or back to user mode. -/
theorem Invariant.move {atFork : BitVec 32} {killed : Bool} {state : ProcState}
    (invariant : Invariant table) (started : (table process).state.started = true)
    (stays : state.started = true) (here : (table process).place.child = none)
    (there : place.child = none) (kept : place.inFork = true → (table process).traceMask = atFork)
    (calls : ∀ forker, (table forker).place.child = some process → place.inCall = true →
      (table process).traceMask = (table forker).atFork)
    (traces : ∀ forker mask, (table forker).place.child = some process → place = .tracing mask →
      mask = (table forker).atFork) :
    Invariant (Function.update table process
      { table process with place, atFork, killed, state }) := by
  have notUnused : ∀ {state : ProcState}, state.started = true → state ≠ .unused := by
    rintro _ started rfl
    contradiction
  refine invariant.update (.inr ⟨there, here⟩) ?_ ?_
    ⟨kept, fun _ => there, fun unused => absurd unused (notUnused stays)⟩
  · intro forker forking stage
    have notUsed : (table process).state ≠ .used := by
      intro used
      rw [used] at started
      contradiction
    exact ⟨stage.apart, stage.expected,
      fun either => either.elim (calls forker forking) fun chosen => stage.calls (.inr chosen),
      fun mask => traces forker mask forking, fun site => absurd (stage.named site).1 notUsed,
      fun site => absurd (stage.ready site).1 notUsed,
      fun site => ⟨notUnused stays, (stage.started site).2⟩⟩
  · exact fun _ orphan => invariant.settled process (notUnused started) orphan

theorem Invariant.retire (invariant : Invariant table)
    (started : (table process).state.started = true) (here : (table process).place.child = none) :
    Invariant fun other =>
      if other = process then { table other with state := .zombie } else table other := by
  have retired : Invariant (Function.update table process
      { table process with state := .zombie }) :=
    invariant.move started rfl here here (invariant.sound process).kept
      (fun forker forking called => (invariant.stage forker process forking).calls (.inl called))
      (fun forker mask forking => (invariant.stage forker process forking).traces mask)
  have same : (fun other => if other = process then { table other with state := .zombie }
      else table other) = Function.update table process
        { table process with state := .zombie } := by
    funext other
    by_cases same : other = process
    · subst same
      simp
    · simp [same]
  rw [same]
  exact retired

/-- The scheduler, `sleep`, `wakeup` and `kill` change the state of a started process. -/
theorem Invariant.schedule (invariant : Invariant table) (killed : Bool) (state : ProcState)
    (lives : state = (table process).state ∨ state.started = true ∧
      (table process).state.started = true ∧ state ≠ .zombie) :
    Invariant (Function.update table process { table process with killed, state }) := by
  have unused : state = .unused → (table process).state = .unused := by
    rintro rfl
    rcases lives with same | ⟨started, -⟩
    · exact same.symm
    · contradiction
  have used : (table process).state = .used → state = .used := by
    intro used
    rcases lives with same | ⟨-, started, -⟩
    · exact same.trans used
    · rw [used] at started
      contradiction
  have sound := invariant.sound process
  refine invariant.update (.inl ⟨rfl, rfl⟩) ?_ ?_
    ⟨sound.kept, ?_, fun gone => sound.unnamed (unused gone)⟩
  · intro forker forking stage
    exact ⟨stage.apart, stage.expected, stage.calls, stage.traces,
      fun site => ⟨used (stage.named site).1, (stage.named site).2⟩,
      fun site => ⟨used (stage.ready site).1, (stage.ready site).2⟩,
      fun site => ⟨fun gone => (stage.started site).1 (unused gone), (stage.started site).2⟩⟩
  · exact fun present => invariant.settled process fun gone => by
      rcases lives with same | ⟨-, started, -⟩
      · exact present (same.trans gone)
      · rw [gone] at started
        contradiction
  · rintro (gone | zombie)
    · exact sound.idle (.inl (unused gone))
    · rcases lives with same | ⟨-, -, running⟩
      · exact sound.idle (.inr (same.symm.trans zombie))
      · exact absurd zombie running

/-! ## Steps of fork -/

/-- A process in `fork` changes its place and the child it works on. -/
structure Pair (table after : Fin count → Proc count) (process child : Fin count)
    (place : Place count) : Prop where
  apart : process ≠ child
  running : (table process).state = .running
  forking : (table process).place.inFork = true
  inCall : place.inCall = true
  silent : ∀ mask, place ≠ .tracing mask
  parent : after process = { table process with place }
  others : ∀ other, other ≠ process → other ≠ child → after other = table other
  forks : (table child).place.child = none ∧ (after child).place.child = none ∨
    (after child).place = (table child).place ∧ (after child).atFork = (table child).atFork
  alone : ∀ forker, forker ≠ process → (table forker).place.child ≠ some child
  only : ∀ other, (table process).place.child = some other → other = child

theorem Place.inCall_of_inFork (forking : place.inFork = true) : place.inCall = true := by
  cases place <;> simp_all [Place.inFork, Place.inCall]

theorem Stage.owned (stage : Stage parent child parentProc childProc)
    (forking : parentProc.place.child = some child) :
    childProc.state ≠ .unused ∧ (childProc.parent = none ∨ childProc.parent = some parent) := by
  rcases Place.child_cases forking with site | site | site
  · exact ⟨by simp [(stage.named site).1], .inl (stage.named site).2⟩
  · exact ⟨by simp [(stage.ready site).1], .inr (stage.ready site).2⟩
  · exact ⟨(stage.started site).1, .inr (stage.started site).2⟩

theorem Invariant.orphan_of_unused (invariant : Invariant table)
    (unused : (table child).state = .unused) :
    ∀ parent, (table parent).place.child ≠ some child := fun parent forking =>
  ((invariant.stage parent child forking).owned forking).1 unused

variable {after : Fin count → Proc count} {forker : Fin count}

theorem Pair.child_forks (pair : Pair table after process child place)
    (notProcess : forker ≠ process) :
    (after forker).place.child = (table forker).place.child := by
  by_cases isChild : forker = child
  · subst isChild
    rcases pair.forks with ⟨before, later⟩ | ⟨same, -⟩
    · rw [before, later]
    · rw [same]
  · rw [pair.others forker notProcess isChild]

/-- The forks of other processes do not notice. -/
theorem Pair.stage_other (pair : Pair table after process child place) (invariant : Invariant table)
    {other : Fin count} (notProcess : forker ≠ process)
    (forking : (table forker).place.child = some other) :
    Stage forker other (after forker) (after other) := by
  have stage := invariant.stage forker other forking
  have notChild : other ≠ child := fun same => pair.alone forker notProcess (same ▸ forking)
  have fixed : (after forker).place = (table forker).place ∧
      (after forker).atFork = (table forker).atFork := by
    by_cases isChild : forker = child
    · subst isChild
      rcases pair.forks with ⟨before, -⟩ | same
      · rw [before] at forking
        contradiction
      · exact same
    · rw [pair.others forker notProcess isChild]
      exact ⟨rfl, rfl⟩
  have moved : Stage forker other (table forker) (after other) := by
    by_cases same : other = process
    · subst same
      have mask := stage.calls (.inl (Place.inCall_of_inFork pair.forking))
      rw [pair.parent]
      exact ⟨stage.apart, stage.expected, fun _ => mask,
        fun mask silent => absurd silent (pair.silent mask), stage.named, stage.ready, stage.started⟩
    · rw [pair.others other same notChild]
      exact stage
  exact moved.congr fixed.1 fixed.2

theorem Invariant.pair (invariant : Invariant table) (pair : Pair table after process child place)
    (working : place.child = some child ∧ Stage process child (after process) (after child) ∨
      place.child = none ∧
      (after child).traceMask = (after child).expected)
    (sound : Sound (after child)) :
    Invariant after := by
  have parent := pair.parent
  have own : (after process).place.child = place.child := by rw [parent]
  have forks : ∀ forker, forker ≠ process →
      (after forker).place.child = (table forker).place.child := fun _ => pair.child_forks
  refine ⟨?_, ?_, ?_, ?_⟩
  · intro forker other forking
    by_cases isProcess : forker = process
    · subst isProcess
      rcases working with ⟨busy, stage⟩ | ⟨done, -⟩
      · rw [own, busy] at forking
        cases forking
        exact stage
      · rw [own, done] at forking
        contradiction
    · rw [forks forker isProcess] at forking
      exact pair.stage_other invariant isProcess forking
  · -- Only `process` can have started on a child, and nobody else works on that one.
    have single : ∀ forker other, forker ≠ process → (after forker).place.child = some other →
        (after process).place.child ≠ some other := by
      intro forker other different forking busy
      rw [forks forker different] at forking
      rcases working with ⟨started, -⟩ | ⟨done, -⟩
      · rw [own, started, Option.some.injEq] at busy
        exact pair.alone forker different (busy ▸ forking)
      · rw [own, done] at busy
        contradiction
    intro first second other firstForks secondForks
    by_cases isFirst : first = process
    · by_cases isSecond : second = process
      · rw [isFirst, isSecond]
      · exact absurd (isFirst ▸ firstForks) (single second other isSecond secondForks)
    · by_cases isSecond : second = process
      · exact absurd (isSecond ▸ secondForks) (single first other isFirst firstForks)
      · rw [forks first isFirst] at firstForks
        rw [forks second isSecond] at secondForks
        exact invariant.unique first second other firstForks secondForks
  · intro other present orphan
    by_cases isChild : other = child
    · subst isChild
      rcases working with ⟨busy, -⟩ | ⟨-, settled⟩
      · exact absurd (own.trans busy) (orphan process)
      · exact settled
    · have before : ∀ forker, (table forker).place.child ≠ some other := by
        intro forker forking
        by_cases isProcess : forker = process
        · subst isProcess
          exact isChild (pair.only other forking)
        · exact orphan forker ((forks forker isProcess).trans forking)
      by_cases isProcess : other = process
      · subst isProcess
        rw [parent] at present ⊢
        exact invariant.settled other present before
      · rw [pair.others other isProcess isChild] at present ⊢
        exact invariant.settled other present before
  · intro other
    by_cases isProcess : other = process
    · rw [isProcess, parent]
      exact ⟨fun _ => (invariant.sound process).kept pair.forking, by simp [pair.running],
        by simp [pair.running]⟩
    · by_cases isChild : other = child
      · rw [isChild]
        exact sound
      · rw [pair.others other isProcess isChild]
        exact invariant.sound other

/-- The table after a step of `fork` that writes the child's slot and moves on. -/
def stepFork (table : Fin count → Proc count) (process child : Fin count) (childProc : Proc count)
    (place : Place count) : Fin count → Proc count :=
  Function.update (Function.update table child childProc) process { table process with place }

theorem stepFork_parent :
    stepFork table process child childProc place process = { table process with place } := by
  simp [stepFork]

theorem stepFork_child (apart : process ≠ child) :
    stepFork table process child childProc place child = childProc := by
  simp [stepFork, Ne.symm apart]

theorem stepFork_other {other : Fin count} (notProcess : other ≠ process)
    (notChild : other ≠ child) :
    stepFork table process child childProc place other = table other := by
  simp [stepFork, notProcess, notChild]

section

variable (invariant : Invariant table) (running : (table process).state = .running)

include invariant running

theorem Invariant.allocate {index pid : Nat}
    (site : (table process).place = .forkScan index) (unused : (table child).state = .unused) :
    Invariant (stepFork table process child { table child with
      pid, state := .used, place := .user, expected := (table process).atFork, chosen := false }
      (.forkParent child)) := by
  have apart : process ≠ child := by
    rintro rfl
    rw [running] at unused
    contradiction
  have orphan := invariant.orphan_of_unused unused
  refine invariant.pair ⟨apart, running, by rw [site]; rfl, rfl, by simp, stepFork_parent,
    fun _ => stepFork_other, .inl ⟨(invariant.sound child).idle (.inl unused), ?_⟩,
    fun forker _ => orphan forker, by simp [site, Place.child]⟩ (.inl ⟨rfl, ?_⟩) ?_
  · rw [stepFork_child apart]
    rfl
  · rw [stepFork_child apart, stepFork_parent]
    exact ⟨apart, rfl, by simp [Place.inCall], by simp,
      fun _ => ⟨rfl, (invariant.sound child).unnamed unused⟩, by simp, by simp⟩
  · rw [stepFork_child apart]
    exact ⟨nofun, fun _ => rfl, nofun⟩

/-- The steps of `fork` after `allocproc`, which keep to one child and to its place. -/
theorem Invariant.continue (forking : (table process).place.child = some child)
    (sameChild : childProc.place = (table child).place ∧ childProc.atFork = (table child).atFork)
    (inCall : place.inCall = true) (silent : ∀ mask, place ≠ .tracing mask)
    (working : place.child = some child ∧
      Stage process child { table process with place } childProc ∨ place.child = none ∧
      childProc.traceMask = childProc.expected)
    (sound : Sound childProc) :
    Invariant (stepFork table process child childProc place) := by
  have apart := (invariant.stage process child forking).apart
  have inFork : (table process).place.inFork = true := by
    cases site : (table process).place <;> simp_all [Place.child, Place.inFork]
  refine invariant.pair ⟨apart, running, inFork, inCall, silent, stepFork_parent,
    fun _ => stepFork_other, .inr ?_, ?_, ?_⟩ ?_ ?_
  · rw [stepFork_child apart]
    exact sameChild
  · exact fun forker different busy => different (invariant.unique forker process child busy forking)
  · intro other busy
    exact Option.some.inj (busy.symm.trans forking)
  · rw [stepFork_child apart, stepFork_parent]
    exact working
  · rw [stepFork_child apart]
    exact sound

theorem Invariant.setParent (site : (table process).place = .forkParent child) :
    Invariant (stepFork table process child { table child with parent := some process }
      (.forkRunnable child)) := by
  have forking : (table process).place.child = some child := by rw [site]; rfl
  have stage := invariant.stage process child forking
  have used := (stage.named site).1
  refine invariant.continue running forking ⟨rfl, rfl⟩ rfl (by simp) (.inl ⟨rfl, ?_⟩)
    ⟨(invariant.sound child).kept, by simp [used], by simp [used]⟩
  exact ⟨stage.apart, stage.expected, stage.calls, stage.traces, by simp, fun _ => ⟨used, rfl⟩,
    by simp⟩

theorem Invariant.publish (site : (table process).place = .forkRunnable child) :
    Invariant (stepFork table process child { table child with state := .runnable }
      (.forkCopy child)) := by
  have forking : (table process).place.child = some child := by rw [site]; rfl
  have stage := invariant.stage process child forking
  refine invariant.continue running forking ⟨rfl, rfl⟩ rfl (by simp) (.inl ⟨rfl, ?_⟩)
    ⟨(invariant.sound child).kept, by simp, by simp⟩
  exact ⟨stage.apart, stage.expected, stage.calls, stage.traces, by simp, by simp,
    fun _ => ⟨by simp, (stage.ready site).2⟩⟩

/-- The copy changes nothing for a child that has made system calls in the meantime. -/
theorem Invariant.copy (site : (table process).place = .forkCopy child) :
    Invariant (stepFork table process child { table child with
      traceMask := (table process).traceMask } (.test SYS_fork)) := by
  have forking : (table process).place.child = some child := by rw [site]; rfl
  have stage := invariant.stage process child forking
  have mask := (invariant.sound process).kept (by rw [site]; rfl)
  obtain ⟨kept, idle, unnamed⟩ := invariant.sound child
  refine invariant.continue running forking ⟨rfl, rfl⟩ rfl (by simp)
    (.inr ⟨rfl, mask.trans stage.expected.symm⟩) ⟨fun inFork => ?_, idle, unnamed⟩
  have same := stage.calls (.inl (Place.inCall_of_inFork inFork))
  exact mask.trans (same.symm.trans (kept inFork))

end

/-! ## trace, exit and wait -/

theorem Invariant.trace {mask : BitVec 32} (invariant : Invariant table)
    (running : (table process).state = .running) (site : (table process).place = .tracing mask) :
    Invariant (Function.update table process { table process with
      traceMask := mask, expected := mask, chosen := true, place := .test SYS_trace }) := by
  refine invariant.update (.inr ⟨rfl, by rw [site]; rfl⟩) ?_ (fun _ _ => rfl)
    ⟨nofun, fun _ => rfl, by simp [running]⟩
  intro forker forking stage
  have same := stage.traces mask site
  exact ⟨stage.apart, same, fun _ => same, by simp, stage.named, stage.ready, stage.started⟩

theorem Invariant.free (invariant : Invariant table)
    (orphan : ∀ parent, (table parent).place.child ≠ some child)
    (childless : (table child).place.child = none) :
    Invariant (Function.update table child (freeproc (table child))) :=
  invariant.update (.inl ⟨rfl, rfl⟩) (fun forker forking => absurd forking (orphan forker))
    (by simp [freeproc]) ⟨(invariant.sound child).kept, fun _ => childless, fun _ => rfl⟩

variable {init : Fin count}

theorem reparent_of_ne (other : proc.parent ≠ some process) :
    reparent init process proc = proc := by
  rw [reparent, if_neg other]

theorem reparent_fields (init process : Fin count) (proc : Proc count) :
    ∃ parent, reparent init process proc = { proc with parent } := by
  unfold reparent
  split
  · exact ⟨_, rfl⟩
  · exact ⟨_, rfl⟩

theorem Invariant.disown (init process : Fin count) (invariant : Invariant table)
    (leaving : (table process).place.child = none) :
    Invariant fun other => reparent init process (table other) := by
  have fields : (fun other => reparent init process (table other)) = fun other =>
      { table other with parent := (reparent init process (table other)).parent } := by
    funext other
    obtain ⟨parent, fields⟩ := reparent_fields init process (table other)
    rw [fields]
  rw [fields]
  refine ⟨?_, invariant.unique, invariant.settled, fun other => ?_⟩
  · intro forker child forking
    have stage := invariant.stage forker child forking
    -- A child in the making belongs to its forker, which is not the process that exits.
    have foreign : (table child).parent ≠ some process := by
      intro mine
      rcases (stage.owned forking).2 with nobody | forker
      · rw [nobody] at mine
        contradiction
      · rw [forker, Option.some.injEq] at mine
        rw [mine, leaving] at forking
        contradiction
    rw [reparent_of_ne foreign]
    exact ⟨stage.apart, stage.expected, stage.calls, stage.traces, stage.named, stage.ready,
      stage.started⟩
  · obtain ⟨kept, idle, unnamed⟩ := invariant.sound other
    refine ⟨kept, idle, fun unused => ?_⟩
    have nobody := unnamed unused
    exact (congrArg Proc.parent (reparent_of_ne (by simp [nobody]))).trans nobody

/-! ## Every step -/

variable {state : State count}

theorem Invariant.goto {here : Place count} (invariant : Invariant state.proc)
    (running : (state.proc process).state = .running) (site : (state.proc process).place = here)
    (childless : here.child = none) (there : place.child = none)
    (inFork : place.inFork = true → here.inFork = true)
    (inCall : place.inCall = true → here.inCall = true)
    (silent : ∀ mask, place ≠ .tracing mask) : Invariant (state.goto process place).proc := by
  subst site
  exact invariant.move (by rw [running]; rfl) (by rw [running]; rfl) childless there
    (fun forking => (invariant.sound process).kept (inFork forking))
    (fun forker forking called => (invariant.stage forker process forking).calls
      (.inl (inCall called)))
    (fun _ mask _ tracing => absurd tracing (silent mask))

theorem Invariant.usertrapret {here : Place count} (invariant : Invariant state.proc)
    (running : (state.proc process).state = .running) (site : (state.proc process).place = here)
    (childless : here.child = none) : Invariant (usertrapret state process).proc := by
  unfold Fork.usertrapret
  split
  · exact invariant.goto running site childless rfl nofun nofun nofun
  · exact invariant.goto running site childless rfl nofun nofun nofun

theorem goto_set (apart : process ≠ child) : ((state.set child proc).goto process place).proc =
      stepFork state.proc process child proc place := by
  simp [State.goto, State.set, stepFork, apart]

theorem zombieChild_spec (found : state.zombieChild process = some child) :
    (state.proc child).parent = some process ∧ (state.proc child).state = .zombie := by
  have holds := List.find?_some found
  simpa using holds

theorem stepProcess_invariant {fails : Bool} {before after : State count}
    (invariant : Invariant before.proc) (running : (before.proc process).state = .running)
    (stepped : stepProcess init before process fails = some after) : Invariant after.proc := by
  have apart : ∀ {child : Fin count}, (before.proc child).state ≠ .running → process ≠ child := by
    rintro child stopped rfl
    exact stopped running
  -- A slot nobody is working on is freed, and the process returns to `syscall`.
  have freed : ∀ {child : Fin count} {num : Nat}, process ≠ child →
      (∀ parent, (before.proc parent).place.child ≠ some child) →
      (before.proc child).place.child = none → (before.proc process).place.child = none →
      (before.proc process).place.inCall = true →
      Invariant ((before.set child (freeproc (before.proc child))).goto process (.test num)).proc := by
    intro child num different orphan childless here inCall
    have same : (before.set child (freeproc (before.proc child))).proc process =
        before.proc process := by
      simp [State.set, different]
    have free : Invariant (before.set child (freeproc (before.proc child))).proc :=
      invariant.free orphan childless
    exact free.goto (by rw [same]; exact running) (congrArg Proc.place same) here rfl nofun
      (fun _ => inCall) nofun
  unfold stepProcess at stepped
  generalize site : (before.proc process).place = place at stepped
  cases place with
  | user => cases stepped
  | forkScan index =>
    simp only at stepped
    split at stepped
    case isFalse =>
      cases stepped
      exact invariant.goto running site rfl rfl nofun (fun _ => rfl) nofun
    case isTrue inside =>
      split at stepped
      case isFalse =>
        cases stepped
        exact invariant.goto running site rfl rfl id id nofun
      case isTrue unused =>
        have different := apart (by simp [unused] : (before.proc ⟨index, inside⟩).state ≠ _)
        split at stepped
        · cases stepped
          exact freed different (invariant.orphan_of_unused unused)
            ((invariant.sound _).idle (.inl unused)) (by rw [site]; rfl) (by rw [site]; rfl)
        · cases stepped
          rw [goto_set different]
          exact invariant.allocate running site unused
  | forkParent child =>
    cases stepped
    rw [goto_set (invariant.stage process child (by rw [site]; rfl)).apart]
    exact invariant.setParent running site
  | forkRunnable child =>
    cases stepped
    rw [goto_set (invariant.stage process child (by rw [site]; rfl)).apart]
    exact invariant.publish running site
  | forkCopy child =>
    cases stepped
    rw [goto_set (invariant.stage process child (by rw [site]; rfl)).apart]
    exact invariant.copy running site
  | exiting called =>
    simp only at stepped
    split at stepped <;> cases stepped
    · exact invariant
    · have passed := invariant.disown init process (by rw [site]; rfl)
      obtain ⟨parent, fields⟩ := reparent_fields init process (before.proc process)
      refine passed.retire ?_ ?_
      · rw [fields, running]
        rfl
      · rw [fields, site]
        rfl
  | waiting =>
    simp only at stepped
    split at stepped
    · rename_i child found
      obtain ⟨parent, zombie⟩ := zombieChild_spec found
      split at stepped <;> cases stepped
      · exact invariant.goto running site rfl rfl nofun (fun _ => rfl) nofun
      · have orphan : ∀ forker, (before.proc forker).place.child ≠ some child := by
          intro forker forking
          have stage := invariant.stage forker child forking
          rcases (stage.owned forking).2 with nobody | mine
          · rw [nobody] at parent
            contradiction
          · rw [parent, Option.some.injEq] at mine
            rw [← mine, site] at forking
            contradiction
        exact freed (apart (by simp [zombie])) orphan
          ((invariant.sound child).idle (.inr zombie)) (by rw [site]; rfl) (by rw [site]; rfl)
    · split at stepped <;> cases stepped
      · exact invariant.goto running site rfl rfl nofun (fun _ => rfl) nofun
      · have slept : Invariant (before.set process
            { before.proc process with state := .sleeping }).proc :=
          invariant.schedule _ .sleeping (.inr ⟨rfl, by rw [running]; rfl, by simp⟩)
        simpa only [site] using slept
  | tracing mask =>
    cases stepped
    exact invariant.trace running site
  | working num =>
    simp only at stepped
    split at stepped <;> cases stepped
    · exact invariant.goto running site rfl rfl nofun (fun _ => rfl) nofun
    · have printed : Invariant { before with
          console := before.console ++ [Line.unknown (before.proc process).pid num] }.proc := invariant
      exact printed.usertrapret running site rfl
  | test num =>
    simp only at stepped
    split at stepped <;> cases stepped
    · have printed : Invariant { before with
          console := before.console ++ [Line.traced (before.proc process).pid num] }.proc := invariant
      exact printed.usertrapret running site rfl
    · exact invariant.usertrapret running site rfl

theorem Invariant.copies_of_running (invariant : Invariant table)
    (running : (table process).state = .running)
    (forking : (table forker).place.child = some process) :
    (table forker).place = .forkCopy process := by
  have stage := invariant.stage forker process forking
  have notUsed : (table process).state ≠ .used := by simp [running]
  rcases Place.child_cases forking with site | site | site
  · exact absurd (stage.named site).1 notUsed
  · exact absurd (stage.ready site).1 notUsed
  · exact site

theorem Invariant.enter {call : Call} (invariant : Invariant state.proc)
    (running : (state.proc process).state = .running) (site : (state.proc process).place = .user)
    (order : orderly state (.call process call)) :
    Invariant (enter state process call).proc := by
  have started : (state.proc process).state.started = true := by rw [running]; rfl
  have here : (state.proc process).place.child = none := by rw [site]; rfl
  have copied : ∀ forker, (state.proc forker).place.child = some process →
      (state.proc process).traceMask = (state.proc forker).atFork ∧
        call.keeps (state.proc forker).atFork := by
    intro forker forking
    have copies := invariant.copies_of_running running forking
    have kept := (invariant.sound forker).kept (by rw [copies]; rfl)
    rw [← kept]
    exact order forker copies
  have calls : ∀ forker, (state.proc forker).place.child = some process →
      (state.proc process).traceMask = (state.proc forker).atFork :=
    fun forker forking => (copied forker forking).1
  cases call with
  | fork =>
    exact invariant.move started started here rfl (fun _ => rfl)
      (fun forker forking _ => calls forker forking) (by simp)
  | exit | wait | other num =>
    exact invariant.move started started here rfl (by simp [Place.inFork])
      (fun forker forking _ => calls forker forking) (by simp)
  | trace mask =>
    refine invariant.move started started here rfl (by simp [Place.inFork])
      (fun forker forking _ => calls forker forking) ?_
    intro forker other forking same
    cases same
    exact (copied forker forking).2

theorem step_invariant {before after : State count} {event : Event count}
    (invariant : Invariant before.proc) (order : orderly before event)
    (stepped : step init before event = some after) : Invariant after.proc := by
  unfold step at stepped
  split at stepped
  · contradiction
  cases event with
  | call process call =>
    simp only at stepped
    split at stepped
    case isFalse => contradiction
    case isTrue ready =>
      obtain ⟨running, site⟩ := ready
      split at stepped <;> cases stepped
      · exact invariant.goto running site rfl rfl nofun nofun nofun
      · exact invariant.enter running site order
  | trap process fault =>
    simp only at stepped
    split at stepped
    case isFalse => contradiction
    case isTrue ready =>
      obtain ⟨running, site⟩ := ready
      split at stepped <;> cases stepped
      · exact invariant.move (by rw [running]; rfl) (by rw [running]; rfl) (by rw [site]; rfl) rfl
          (by simp [Place.inFork]) (by simp [Place.inCall]) (by simp)
      · exact invariant
  | step process fails =>
    simp only at stepped
    split at stepped
    · exact stepProcess_invariant invariant ‹_› stepped
    · contradiction
  | schedule process | yield process | sleep process | wakeup process =>
    simp only at stepped
    split at stepped <;> cases stepped
    rename_i was
    exact invariant.schedule _ _ (.inr ⟨rfl, by rw [was]; rfl, by simp⟩)
  | kill process =>
    simp only at stepped
    split at stepped <;> cases stepped
    · rename_i was
      exact invariant.schedule true .runnable (.inr ⟨rfl, by rw [was]; rfl, by simp⟩)
    · exact invariant.schedule true _ (.inl rfl)

theorem start_invariant (init : Fin count) : Invariant (start init).proc := by
  have fields : ∀ process, ((start init).proc process).place = .user ∧
      ((start init).proc process).traceMask = ((start init).proc process).expected ∧
      ((start init).proc process).parent = none := by
    intro process
    by_cases same : process = init <;> simp [start, vacant, same]
  refine ⟨?_, ?_, fun process _ _ => (fields process).2.1,
    fun process => ⟨?_, ?_, fun _ => (fields process).2.2⟩⟩
  all_goals simp [fields, Place.child, Place.inFork]

/-- When system calls keep to the order, a process in a system call, and any process that
has called `trace`, has the mask it inherited or chose last. -/
theorem mask_inherited {history : List (Event count)}
    (run : Run (machine init) orderly history state) (process : Fin count)
    (present : (state.proc process).state ≠ .unused)
    (inCall : (state.proc process).place.inCall = true ∨ (state.proc process).chosen = true) :
    (state.proc process).traceMask = (state.proc process).expected := by
  have initially : ∀ state, (machine init).initial state → Invariant state.proc := by
    rintro _ rfl
    exact start_invariant init
  have invariant := run.invariant initially fun _ _ _ held order stepped =>
    step_invariant held order stepped
  exact invariant.mask_expected present inCall

/-- The parent sets mask 5 and forks; the child is scheduled before the copy. -/
def forked : List (Event 2) :=
  [.schedule 0, .call 0 (.trace 5), .step 0 false, .step 0 false, .call 0 .fork, .step 0 false,
    .step 0 false, .step 0 false, .step 0 false, .schedule 1]

/-- The child calls `getpid` after the copy. -/
theorem mask_inherited_after_copy :
    ∃ history, ∃ state : State 2, Run (machine 0) orderly history state ∧
      (state.proc 1).place = .test 11 ∧ (state.proc 1).expected = 5 ∧
      (state.proc 1).traceMask = 5 := by
  have run : ∃ state : State 2, (machine 0).guarded orderly (start 0)
      (forked ++ [.step 0 false, .call 1 (.other 11), .step 1 false]) = some state ∧
      (state.proc 1).state = .running ∧ (state.proc 1).place = .test 11 ∧
      (state.proc 1).expected = 5 := ⟨_, rfl, rfl, rfl, rfl⟩
  obtain ⟨state, executed, running, place, expected⟩ := run
  have started : Run (machine (0 : Fin 2)) orderly [] (start 0) := .start rfl
  have reached := started.guarded executed
  have mask := mask_inherited reached 1 (by simp [running]) (.inl (by rw [place]; rfl))
  exact ⟨_, state, reached, place, expected, mask.trans expected⟩

/-- The child runs before the copy: `getpid` is tested against the mask of the slot's last
process, and a mask the child chooses is overwritten. -/
theorem mask_lost :
    (∃ state : State 2, Reachable (machine 0) state ∧ (state.proc 1).state = .running ∧
      (state.proc 1).place = .test 11 ∧ (state.proc 1).expected = 5 ∧
      (state.proc 1).traceMask = 0) ∧
    (∃ state : State 2, Reachable (machine 0) state ∧ (state.proc 1).state = .running ∧
      (state.proc 1).place = .test 11 ∧ (state.proc 1).chosen = true ∧
      (state.proc 1).expected = 7 ∧ (state.proc 1).traceMask = 5) := by
  constructor
  · exact Reachable.exists_of_execute rfl (forked ++ [.call 1 (.other 11), .step 1 false])
      ⟨_, rfl, rfl, rfl, rfl, rfl⟩
  · exact Reachable.exists_of_execute rfl (forked ++ [.call 1 (.trace 7), .step 1 false, .step 1 false,
      .step 0 false, .call 1 (.other 11), .step 1 false]) ⟨_, rfl, rfl, rfl, rfl, rfl, rfl⟩

end Xv6.Fork
