import Xv6.Sched.Machine

namespace Xv6.Sched

open Xv6.Data

/-! # What a step can do

The step functions inverted: from where to where a CPU goes, under which condition, and
what it changes on the way.
-/

variable {cpus procs : Nat}

/-- What a step changes besides its CPU and the spin locks. -/
structure Change (cpus procs : Nat) where
  write : Option (Fin procs × Write cpus procs) := none
  sleeplock : Option (Nat × Sleeplock) := none
  keeps : Option (Nat × Fin procs × Bool) := none

section

variable (state : State cpus procs) (cpu : Fin cpus)

/-- A process goes on without `sched`. -/
def Change.effect (self : Fin procs) (pc : Pc procs) (change : Change cpus procs) :
    Effect cpus procs :=
  { goto state cpu (.thread self (.run pc)) with
    write := change.write
    sleeplock := change.sleeplock
    keeps := change.keeps }

/-- The steps of a process between its locks. -/
inductive Moves (self : Fin procs) : Point procs → Pc procs → Change cpus procs → Prop where
  | sleepBegin (sleep : Sleep) :
      Moves self (.sleepBegin sleep) (.release (.spin sleep.lock) (.point (.sleepMark sleep)))
        { write := some (self, .fallAsleep (sleep.chan self)) }
  | sleepMark (sleep : Sleep) :
      Moves self (.sleepMark sleep) (.point (.sched (.sleep sleep)))
        { write := some (self, .sleep (sleep.chan self)) }
  | sleepBack (sleep : Sleep) :
      Moves self (.back (.sleep sleep))
        (.release (.proc self) (.acquire (.spin sleep.lock) (.point sleep.after)))
        { write := some (self, .tidy) }
  | wakeupSkip (wakeup : Wakeup procs) {index : Nat} (inside : index < procs)
      (current : (state.cpu cpu).proc = some ⟨index, inside⟩) :
      Moves self (.wakeup wakeup index) (.point (.wakeup wakeup (index + 1))) {}
  | wakeupLock (wakeup : Wakeup procs) (process : Fin procs)
      (other : (state.cpu cpu).proc ≠ some process) :
      Moves self (.wakeup wakeup process)
        (.acquire (.proc process) (.point (.wakeupTest wakeup process))) {}
  | wakeupEnd (wakeup : Wakeup procs) {index : Nat} (outside : procs ≤ index) :
      Moves self (.wakeup wakeup index) wakeup.caller.after {}
  | wakeupHit (wakeup : Wakeup procs) {process : Fin procs}
      (sleeping : (state.proc process).state = .sleeping)
      (chan : (state.proc process).chan = wakeup.chan) :
      Moves self (.wakeupTest wakeup process)
        (.release (.proc process) (.point (.wakeup wakeup (process + 1))))
        { write := some (process, .wakeup) }
  | wakeupMiss (wakeup : Wakeup procs) {process : Fin procs}
      (awake : ¬((state.proc process).state = .sleeping ∧ (state.proc process).chan = wakeup.chan)) :
      Moves self (.wakeupTest wakeup process)
        (.release (.proc process) (.point (.wakeup wakeup (process + 1)))) {}
  | killLock (pid : BitVec 32) (process : Fin procs) :
      Moves self (.kill pid process) (.acquire (.proc process) (.point (.killTest pid process))) {}
  | killEnd (pid : BitVec 32) {index : Nat} (outside : procs ≤ index) :
      Moves self (.kill pid index) (.point (.killReturn (-1))) {}
  | killHit {pid : BitVec 32} {process : Fin procs} (found : (state.proc process).pid = pid) :
      Moves self (.killTest pid process) (.release (.proc process) (.point (.killReturn 0)))
        { write := some (process, .kill) }
  | killMiss {pid : BitVec 32} {process : Fin procs} (different : (state.proc process).pid ≠ pid) :
      Moves self (.killTest pid process)
        (.release (.proc process) (.point (.kill pid (process + 1)))) {}
  | killReturn (value : Int) : Moves self (.killReturn value) (.point .idle) {}
  | forkLock (process : Fin procs) :
      Moves self (.fork process) (.acquire (.proc process) (.point (.forkTest process))) {}
  | forkEnd {index : Nat} (outside : procs ≤ index) : Moves self (.fork index) (.point .idle) {}
  | forkAlloc {process : Fin procs} (unused : (state.proc process).state = .unused) :
      Moves self (.forkTest process) (.point (.forkInit process)) { write := some (process, .alloc) }
  | forkSkip {process : Fin procs} (inUse : (state.proc process).state ≠ .unused) :
      Moves self (.forkTest process) (.release (.proc process) (.point (.fork (process + 1)))) {}
  | forkSetup (process : Fin procs) :
      Moves self (.forkInit process)
        (.release (.proc process) (.acquire (.spin .wait) (.point (.forkParent process))))
        { write := some (process, .setup) }
  | forkFail (process : Fin procs) :
      Moves self (.forkInit process) (.release (.proc process) (.point .idle))
        { write := some (process, .free) }
  | forkParent (process : Fin procs) :
      Moves self (.forkParent process)
        (.release (.spin .wait) (.acquire (.proc process) (.point (.forkReady process))))
        { write := some (process, .parent self) }
  | forkReady (process : Fin procs) :
      Moves self (.forkReady process) (.release (.proc process) (.point .idle))
        { write := some (process, .ready) }
  | reparentHit (status : BitVec 32) (process : Fin procs)
      (child : (state.proc process).parent = some self) :
      Moves self (.reparent status process)
        (.point (.wakeup ⟨some (.proc state.initproc), .reparent status (process + 1), state.clock⟩ 0))
        { write := some (process, .parent state.initproc) }
  | reparentMiss (status : BitVec 32) (process : Fin procs)
      (other : (state.proc process).parent ≠ some self) :
      Moves self (.reparent status process) (.point (.reparent status (process + 1))) {}
  | reparentEnd (status : BitVec 32) {index : Nat} (outside : procs ≤ index) :
      Moves self (.reparent status index)
        (.point (.wakeup ⟨(state.proc self).parent.map .proc, .exit self status, state.clock⟩ 0)) {}
  | exitMark (status : BitVec 32) :
      Moves self (.exitMark status) (.release (.spin .wait) (.point (.sched .exit)))
        { write := some (self, .exit status) }
  | waitChild (process : Fin procs) (havekids : Bool)
      (child : (state.proc process).parent = some self) :
      Moves self (.waitScan process havekids)
        (.acquire (.proc process) (.point (.waitTest process))) {}
  | waitSkip (process : Fin procs) (havekids : Bool)
      (other : (state.proc process).parent ≠ some self) :
      Moves self (.waitScan process havekids) (.point (.waitScan (process + 1) havekids)) {}
  | waitEnd {index : Nat} (havekids : Bool) (outside : procs ≤ index) :
      Moves self (.waitScan index havekids) (.point (.waitCheck havekids)) {}
  | waitReap {process : Fin procs} (zombie : (state.proc process).state = .zombie) :
      Moves self (.waitTest process)
        (.release (.proc process) (.release (.spin .wait) (.point .idle)))
        { write := some (process, .reap self) }
  | waitFault {process : Fin procs} (zombie : (state.proc process).state = .zombie) :
      Moves self (.waitTest process)
        (.release (.proc process) (.release (.spin .wait) (.point .idle))) {}
  | waitAlive {process : Fin procs} (alive : (state.proc process).state ≠ .zombie) :
      Moves self (.waitTest process)
        (.release (.proc process) (.point (.waitScan (process + 1) true))) {}
  | waitReturn (havekids : Bool) :
      Moves self (.waitCheck havekids) (.release (.spin .wait) (.point .idle)) {}
  | waitSleep (havekids : Bool) :
      Moves self (.waitCheck havekids) (.acquire (.proc self) (.point (.sleepBegin .wait))) {}
  | acquiresleepWait {sleeplock : Nat} (locked : (state.sleeplock sleeplock).locked = true) :
      Moves self (.acquiresleepTest sleeplock)
        (.acquire (.proc self) (.point (.sleepBegin (.acquiresleep sleeplock)))) {}
  | acquiresleepTake {sleeplock : Nat} (unlocked : (state.sleeplock sleeplock).locked = false) :
      Moves self (.acquiresleepTest sleeplock)
        (.release (.spin (.inner sleeplock)) (.point .idle))
        { sleeplock := some (sleeplock, ⟨true, (state.proc self).pid⟩)
          keeps := some (sleeplock, self, true) }
  | releasesleepClear (sleeplock : Nat) :
      Moves self (.releasesleepClear sleeplock)
        (.point (.wakeup ⟨some (.sleeplock sleeplock), .releasesleep sleeplock, state.clock⟩ 0))
        { sleeplock := some (sleeplock, ⟨false, 0⟩) }

/-- The calls of a process. -/
inductive Calls (self : Fin procs) : Point procs → Pc procs → Change cpus procs → Prop where
  | lock (index : Nat) :
      Calls self .idle (.acquire (.spin (.other index)) (.point (.held index))) {}
  | unlock (lock : Nat) :
      Calls self (.held lock) (.release (.spin (.other lock)) (.point .idle)) {}
  | sleep (lock channel : Nat) :
      Calls self (.held lock)
        (.acquire (.proc self) (.point (.sleepBegin (.other lock channel)))) {}
  | wakeup (chan : Channel procs) :
      Calls self .idle (.point (.wakeup ⟨some chan, .idle, state.clock⟩ 0)) {}
  | wakeupHeld (lock : Nat) (chan : Channel procs) :
      Calls self (.held lock) (.point (.wakeup ⟨some chan, .held lock, state.clock⟩ 0)) {}
  | kill (pid : BitVec 32) : Calls self .idle (.point (.kill pid 0)) {}
  | fork : Calls self .idle (.point (.fork 0)) {}
  | exit (status : BitVec 32) (other : self ≠ state.initproc) :
      Calls self .idle (.acquire (.spin .wait) (.point (.reparent status 0))) {}
  | wait : Calls self .idle (.acquire (.spin .wait) (.point (.waitScan 0 false))) {}
  | acquiresleep (sleeplock : Nat) :
      Calls self .idle
        (.acquire (.spin (.inner sleeplock)) (.point (.acquiresleepTest sleeplock))) {}
  | releasesleep {sleeplock : Nat} (keeps : state.keeps sleeplock self = true) :
      Calls self .idle
        (.acquire (.spin (.inner sleeplock)) (.point (.releasesleepClear sleeplock)))
        { keeps := some (sleeplock, self, false) }

/-- The steps of an interrupt handler between its locks. -/
inductive Handles : Pc procs → Pc procs → Option (Fin procs × Write cpus procs) → Prop where
  | start (lock : Nat) (chan : Channel procs) :
      Handles (.point (.handlerWakeup lock chan))
        (.point (.wakeup ⟨some chan, .handler lock, state.clock⟩ 0)) none
  | skip (wakeup : Wakeup procs) {index : Nat} (inside : index < procs)
      (current : (state.cpu cpu).proc = some ⟨index, inside⟩) :
      Handles (.point (.wakeup wakeup index)) (.point (.wakeup wakeup (index + 1))) none
  | lock (wakeup : Wakeup procs) (process : Fin procs)
      (other : (state.cpu cpu).proc ≠ some process) :
      Handles (.point (.wakeup wakeup process))
        (.acquire (.proc process) (.point (.wakeupTest wakeup process))) none
  | finish (wakeup : Wakeup procs) {index : Nat} (outside : procs ≤ index) :
      Handles (.point (.wakeup wakeup index)) wakeup.caller.after none
  | hit (wakeup : Wakeup procs) {process : Fin procs}
      (sleeping : (state.proc process).state = .sleeping)
      (chan : (state.proc process).chan = wakeup.chan) :
      Handles (.point (.wakeupTest wakeup process))
        (.release (.proc process) (.point (.wakeup wakeup (process + 1))))
        (some (process, .wakeup))
  | miss (wakeup : Wakeup procs) {process : Fin procs}
      (awake : ¬((state.proc process).state = .sleeping ∧ (state.proc process).chan = wakeup.chan)) :
      Handles (.point (.wakeupTest wakeup process))
        (.release (.proc process) (.point (.wakeup wakeup (process + 1)))) none

/-- Code before and after a lock is taken. -/
inductive Acquires : Code procs → Lock procs → Code procs → Prop where
  | run (self : Fin procs) (lock : Lock procs) (next : Pc procs) :
      Acquires (.thread self (.run (.acquire lock next))) lock (.thread self (.run next))
  | yield (self : Fin procs) (resume : Pc procs) :
      Acquires (.thread self (.yieldLock resume)) (.proc self) (.thread self (.yieldMark resume))
  | loop (process : Fin procs) :
      Acquires (.scheduler (.loop process)) (.proc process) (.scheduler (.test process))
  | handler (index : Nat) (lock : Lock procs) (next : Pc procs) :
      Acquires (.handler index (.acquire lock next)) lock (.handler index next)

/-- Code before and after a lock is given up. -/
inductive Releases : Code procs → Lock procs → Code procs → Prop where
  | run (self : Fin procs) (lock : Lock procs) (next : Pc procs) :
      Releases (.thread self (.run (.release lock next))) lock (.thread self (.run next))
  | yield (self : Fin procs) (resume : Pc procs) :
      Releases (.thread self (.yieldBack resume)) (.proc self) (.thread self (.run resume))
  | unlock (process : Fin procs) :
      Releases (.scheduler (.unlock process)) (.proc process) (.scheduler (.loop (process + 1)))
  | handler (index : Nat) (lock : Lock procs) (next : Pc procs) :
      Releases (.handler index (.release lock next)) lock (.handler index next)

/-- The code of a process at a call of `sched`, and what is saved. -/
inductive Scheds (self : Fin procs) : Thread procs → Context procs → Prop where
  | leaving (leaving : Leaving) : Scheds self (.run (.point (.sched leaving))) (.leaving leaving)
  | yield (resume : Pc procs) : Scheds self (.yieldSched resume) (.yield resume)

/-- All steps, by the code of the CPU that makes them. -/
inductive Transition : Code procs → Effect cpus procs → Prop where
  | stop (code : Code procs) (reason : Panic) : Transition code (stop state cpu reason)
  | acquireProc {code next : Code procs} {process : Fin procs}
      (acquires : Acquires code (.proc process) next)
      (free : (state.proc process).lock = none) :
      Transition code
        { cpu := { state.cpu cpu with code := next, noff := (state.cpu cpu).noff + 1 }
          write := some (process, .acquire cpu) }
  | acquireSpin {code next : Code procs} {lock : Spinlock}
      (acquires : Acquires code (.spin lock) next) (free : state.spin lock = none) :
      Transition code
        { cpu := { state.cpu cpu with code := next, noff := (state.cpu cpu).noff + 1 }
          spin := some (lock, some cpu) }
  | releaseProc {code next : Code procs} {process : Fin procs}
      (releases : Releases code (.proc process) next)
      (held : (state.proc process).lock = some cpu) :
      Transition code
        { cpu := { state.cpu cpu with code := next, noff := (state.cpu cpu).noff - 1 }
          write := some (process, .release) }
  | releaseSpin {code next : Code procs} {lock : Spinlock}
      (releases : Releases code (.spin lock) next) (held : state.spin lock = some cpu) :
      Transition code
        { cpu := { state.cpu cpu with code := next, noff := (state.cpu cpu).noff - 1 }
          spin := some (lock, none) }
  | moves {self : Fin procs} {point : Point procs} {pc : Pc procs} {change : Change cpus procs}
      (moves : Moves state cpu self point pc change) :
      Transition (.thread self (.run (.point point))) (change.effect state cpu self pc)
  | calls {self : Fin procs} {point : Point procs} {pc : Pc procs} {change : Change cpus procs}
      (calls : Calls state self point pc change) :
      Transition (.thread self (.run (.point point))) (change.effect state cpu self pc)
  | preempt {self : Fin procs} {pc : Pc procs} (interruptible : (state.cpu cpu).noff = 0)
      (running : (state.proc self).state = .running) :
      Transition (.thread self (.run pc)) (goto state cpu (.thread self (.yieldLock pc)))
  | yield {self : Fin procs} {resume : Pc procs} :
      Transition (.thread self (.yieldMark resume))
        { goto state cpu (.thread self (.yieldSched resume)) with write := some (self, .yield) }
  | sched {self process : Fin procs} {thread : Thread procs} {context : Context procs}
      (scheds : Scheds self thread context) (held : (state.proc self).lock = some cpu)
      (marked : (state.proc self).state ≠ .running)
      (saved : (state.cpu cpu).context = some process) :
      Transition (.thread self thread)
        { goto state cpu (.scheduler (.back process)) with write := some (self, .save context) }
  | wrap (index : Nat) :
      Transition (.scheduler (.loop index)) (goto state cpu (.scheduler (.loop 0)))
  | run {process : Fin procs} (runnable : (state.proc process).state = .runnable) :
      Transition (.scheduler (.test process))
        { goto state cpu (.scheduler (.mark process)) with write := some (process, .run) }
  | skip {process : Fin procs} (other : (state.proc process).state ≠ .runnable) :
      Transition (.scheduler (.test process)) (goto state cpu (.scheduler (.unlock process)))
  | mark {process : Fin procs} :
      Transition (.scheduler (.mark process))
        { cpu := { state.cpu cpu with code := .scheduler (.swtch process), proc := some process } }
  | swtch {process : Fin procs} {thread : Thread procs}
      (loaded : load process (state.proc process).context = some thread) :
      Transition (.scheduler (.swtch process))
        { cpu := { state.cpu cpu with code := .thread process thread, context := some process }
          write := some (process, .resume) }
  | back {process : Fin procs} :
      Transition (.scheduler (.back process))
        { cpu := { state.cpu cpu with code := .scheduler (.unlock process), proc := none } }
  | interrupt (index lock : Nat) (chan : Channel procs) :
      Transition (.scheduler (.loop index))
        (goto state cpu (.handler index (.acquire (.spin (.other lock))
          (.point (.handlerWakeup lock chan)))))
  | handles {index : Nat} {pc next : Pc procs} {write : Option (Fin procs × Write cpus procs)}
      (handles : Handles state cpu pc next write) :
      Transition (.handler index pc) { goto state cpu (.handler index next) with write }
  | finish (index : Nat) :
      Transition (.handler index (.point .idle)) (goto state cpu (.scheduler (.loop index)))

end

variable {state : State cpus procs} {cpu : Fin cpus} {effect : Effect cpus procs}

/-- A step from where the CPU stands. -/
abbrev Acts (state : State cpus procs) (cpu : Fin cpus) (effect : Effect cpus procs) : Prop :=
  Transition state cpu (state.cpu cpu).code effect

theorem Transition.code (transition : Acts state cpu effect) :
    ∃ code, (state.cpu cpu).code = code ∧ Transition state cpu code effect :=
  ⟨_, rfl, transition⟩

/-! ## The step functions make these steps -/

theorem acquire_transition {lock : Lock procs} {code next : Code procs}
    (acquires : Acquires code lock next) (stepped : acquire state cpu lock next = some effect) :
    Transition state cpu code effect := by
  unfold acquire at stepped
  cases lock <;> simp only at stepped <;> split at stepped
  · split at stepped <;> cases stepped
    exact .stop code _
  · cases stepped
    exact .acquireProc acquires ‹_›
  · split at stepped <;> cases stepped
    exact .stop code _
  · cases stepped
    exact .acquireSpin acquires ‹_›

theorem release_transition {lock : Lock procs} {code next : Code procs}
    (releases : Releases code lock next) :
    Transition state cpu code (release state cpu lock next) := by
  unfold release
  cases lock <;> simp only <;> split
  · exact .releaseProc releases ‹_›
  · exact .stop code _
  · exact .releaseSpin releases ‹_›
  · exact .stop code _

theorem sched_transition {self : Fin procs} {thread : Thread procs} {context : Context procs}
    (scheds : Scheds self thread context) (stepped : sched state cpu self context = some effect) :
    Transition state cpu (.thread self thread) effect := by
  unfold sched at stepped
  split at stepped
  · cases stepped
    exact .stop _ _
  split at stepped
  · cases stepped
    exact .stop _ _
  split at stepped
  · cases stepped
    exact .stop _ _
  obtain ⟨process, saved, rfl⟩ := Option.map_eq_some_iff.mp stepped
  exact .sched scheds (not_not.mp ‹_›) ‹_› saved

/-- The loop of `wakeup` skips the current process, locks another or returns. -/
theorem wakeupScan_cases (state : State cpus procs) (cpu : Fin cpus) (wakeup : Wakeup procs)
    (index : Nat) :
    (∃ inside : index < procs, (state.cpu cpu).proc = some ⟨index, inside⟩ ∧
      wakeupScan state cpu wakeup index = .point (.wakeup wakeup (index + 1))) ∨
    (∃ process : Fin procs, index = process ∧ (state.cpu cpu).proc ≠ some process ∧
      wakeupScan state cpu wakeup index =
        .acquire (.proc process) (.point (.wakeupTest wakeup process))) ∨
    procs ≤ index ∧ wakeupScan state cpu wakeup index = wakeup.caller.after := by
  unfold wakeupScan
  split
  · rename_i inside
    split
    · exact .inl ⟨inside, ‹_›, rfl⟩
    · exact .inr (.inl ⟨⟨index, inside⟩, rfl, ‹_›, rfl⟩)
  · exact .inr (.inr ⟨Nat.le_of_not_lt ‹_›, rfl⟩)

theorem wakeupWrite_cases (state : State cpus procs) (wakeup : Wakeup procs) (process : Fin procs) :
    ((state.proc process).state = .sleeping ∧ (state.proc process).chan = wakeup.chan ∧
      wakeupWrite state wakeup process = some (process, .wakeup)) ∨
    ¬((state.proc process).state = .sleeping ∧ (state.proc process).chan = wakeup.chan) ∧
      wakeupWrite state wakeup process = none := by
  unfold wakeupWrite
  simp only
  split
  · rename_i both
    exact .inl ⟨both.1, both.2, rfl⟩
  · exact .inr ⟨‹_›, rfl⟩

theorem pointStep_transition {self : Fin procs} {ok : Bool} {point : Point procs}
    (stepped : pointStep state cpu self ok point = some effect) :
    Transition state cpu (.thread self (.run (.point point))) effect := by
  cases point with
  | idle | held lock | handlerWakeup lock chan => contradiction
  | sleepBegin sleep =>
    cases stepped
    exact .moves (.sleepBegin sleep)
  | sleepMark sleep =>
    cases stepped
    exact .moves (.sleepMark sleep)
  | sched leaving => exact sched_transition (.leaving leaving) stepped
  | back leaving =>
    cases leaving with
    | sleep sleep =>
      cases stepped
      exact .moves (.sleepBack sleep)
    | exit =>
      cases stepped
      exact .stop _ _
  | wakeup wakeup index =>
    cases stepped
    obtain ⟨inside, current, same⟩ | ⟨process, rfl, other, same⟩ | ⟨outside, same⟩ :=
      wakeupScan_cases state cpu wakeup index
    · rw [same]
      exact .moves (.wakeupSkip wakeup inside current)
    · rw [same]
      exact .moves (.wakeupLock wakeup process other)
    · rw [same]
      exact .moves (.wakeupEnd wakeup outside)
  | wakeupTest wakeup process =>
    cases stepped
    obtain ⟨sleeping, chan, same⟩ | ⟨awake, same⟩ := wakeupWrite_cases state wakeup process
    · rw [same]
      exact .moves (.wakeupHit wakeup sleeping chan)
    · rw [same]
      exact .moves (.wakeupMiss wakeup awake)
  | kill pid index =>
    simp only [pointStep] at stepped
    split at stepped <;> cases stepped
    · exact .moves (.killLock pid ⟨index, ‹_›⟩)
    · exact .moves (.killEnd pid (Nat.le_of_not_lt ‹_›))
  | killTest pid process =>
    simp only [pointStep] at stepped
    split at stepped <;> cases stepped
    · exact .moves (.killHit ‹_›)
    · exact .moves (.killMiss ‹_›)
  | killReturn value =>
    cases stepped
    exact .moves (.killReturn value)
  | fork index =>
    simp only [pointStep] at stepped
    split at stepped <;> cases stepped
    · exact .moves (.forkLock ⟨index, ‹_›⟩)
    · exact .moves (.forkEnd (Nat.le_of_not_lt ‹_›))
  | forkTest process =>
    simp only [pointStep] at stepped
    split at stepped <;> cases stepped
    · exact .moves (.forkAlloc ‹_›)
    · exact .moves (.forkSkip ‹_›)
  | forkInit process =>
    simp only [pointStep] at stepped
    split at stepped <;> cases stepped
    · exact .moves (.forkSetup process)
    · exact .moves (.forkFail process)
  | forkParent process =>
    cases stepped
    exact .moves (.forkParent process)
  | forkReady process =>
    cases stepped
    exact .moves (.forkReady process)
  | reparent status index =>
    simp only [pointStep] at stepped
    split at stepped
    · rename_i inside
      split at stepped <;> cases stepped
      · exact .moves (.reparentHit status ⟨index, inside⟩ ‹_›)
      · exact .moves (.reparentMiss status ⟨index, inside⟩ ‹_›)
    · cases stepped
      exact .moves (.reparentEnd status (Nat.le_of_not_lt ‹_›))
  | exitMark status =>
    cases stepped
    exact .moves (.exitMark status)
  | waitScan index havekids =>
    simp only [pointStep] at stepped
    split at stepped
    · rename_i inside
      split at stepped <;> cases stepped
      · exact .moves (.waitChild ⟨index, inside⟩ havekids ‹_›)
      · exact .moves (.waitSkip ⟨index, inside⟩ havekids ‹_›)
    · cases stepped
      exact .moves (.waitEnd havekids (Nat.le_of_not_lt ‹_›))
  | waitTest process =>
    simp only [pointStep] at stepped
    split at stepped
    · cases stepped
      cases ok
      · exact .moves (.waitFault ‹_›)
      · exact .moves (.waitReap ‹_›)
    · cases stepped
      exact .moves (.waitAlive ‹_›)
  | waitCheck havekids =>
    simp only [pointStep] at stepped
    split at stepped <;> cases stepped
    · exact .moves (.waitReturn havekids)
    · exact .moves (.waitSleep havekids)
  | acquiresleepTest sleeplock =>
    simp only [pointStep] at stepped
    split at stepped <;> cases stepped
    · exact .moves (.acquiresleepWait ‹_›)
    · exact .moves (.acquiresleepTake (Bool.eq_false_iff.mpr ‹_›))
  | releasesleepClear sleeplock =>
    cases stepped
    exact .moves (.releasesleepClear sleeplock)

theorem threadStep_transition {self : Fin procs} {ok : Bool} {thread : Thread procs}
    (stepped : threadStep state cpu self ok thread = some effect) :
    Transition state cpu (.thread self thread) effect := by
  cases thread with
  | run pc =>
    cases pc with
    | point point => exact pointStep_transition stepped
    | acquire lock next => exact acquire_transition (.run self lock next) stepped
    | release lock next =>
      cases stepped
      exact release_transition (.run self lock next)
  | yieldLock resume => exact acquire_transition (.yield self resume) stepped
  | yieldMark resume =>
    cases stepped
    exact .yield
  | yieldSched resume => exact sched_transition (.yield resume) stepped
  | yieldBack resume =>
    cases stepped
    exact release_transition (.yield self resume)

theorem schedulerStep_transition {scheduler : Scheduler procs}
    (stepped : schedulerStep state cpu scheduler = some effect) :
    Transition state cpu (.scheduler scheduler) effect := by
  cases scheduler with
  | loop index =>
    simp only [schedulerStep] at stepped
    split at stepped
    · exact acquire_transition (.loop ⟨index, ‹_›⟩) stepped
    · cases stepped
      exact .wrap index
  | test process =>
    simp only [schedulerStep] at stepped
    split at stepped <;> cases stepped
    · exact .run ‹_›
    · exact .skip ‹_›
  | mark process =>
    cases stepped
    exact .mark
  | swtch process =>
    obtain ⟨thread, loaded, rfl⟩ := Option.map_eq_some_iff.mp stepped
    exact .swtch loaded
  | back process =>
    cases stepped
    exact .back
  | unlock process =>
    cases stepped
    exact release_transition (.unlock process)

theorem handlerStep_transition {index : Nat} {pc : Pc procs}
    (stepped : handlerStep state cpu index pc = some effect) :
    Transition state cpu (.handler index pc) effect := by
  unfold handlerStep at stepped
  split at stepped
  · exact acquire_transition (.handler index _ _) stepped
  · cases stepped
    exact release_transition (.handler index _ _)
  · cases stepped
    exact .handles (.start _ _)
  · rename_i wakeup next
    cases stepped
    obtain ⟨inside, current, same⟩ | ⟨process, rfl, other, same⟩ | ⟨outside, same⟩ :=
      wakeupScan_cases state cpu wakeup next
    · exact same ▸ .handles (.skip wakeup inside current)
    · exact same ▸ .handles (.lock wakeup process other)
    · exact same ▸ .handles (.finish wakeup outside)
  · rename_i wakeup process
    cases stepped
    obtain ⟨sleeping, chan, same⟩ | ⟨awake, same⟩ := wakeupWrite_cases state wakeup process
    · exact same ▸ .handles (.hit wakeup sleeping chan)
    · exact same ▸ .handles (.miss wakeup awake)
  · cases stepped
    exact .finish index
  · contradiction

theorem call_transition {self : Fin procs} {point : Point procs} {called : Call procs}
    (stepped : call state cpu self point called = some effect) :
    Transition state cpu (.thread self (.run (.point point))) effect := by
  unfold call at stepped
  simp only at stepped
  split at stepped <;> try cases stepped
  · exact .calls (.lock _)
  · exact .calls (.unlock _)
  · exact .calls (.sleep _ _)
  · exact .calls (.wakeup _)
  · exact .calls (.wakeupHeld _ _)
  · exact .calls (.kill _)
  · exact .calls .fork
  · split at stepped <;> cases stepped
    · exact .stop _ _
    · exact .calls (.exit _ ‹_›)
  · exact .calls .wait
  · exact .calls (.acquiresleep _)
  · split at stepped <;> cases stepped
    exact .calls (.releasesleep ‹_›)

/-- Every event makes a step from the code of its CPU. -/
theorem act_transition {event : Event cpus procs} (acted : act state event = some effect) :
    Acts state event.cpu effect := by
  unfold Acts
  cases event with
  | run cpu ok =>
    simp only [act, codeStep] at acted
    rw [Event.cpu]
    split at acted
    · rename_i here
      rw [here]
      exact schedulerStep_transition acted
    · rename_i here
      rw [here]
      exact handlerStep_transition acted
    · rename_i here
      rw [here]
      exact threadStep_transition acted
  | call cpu called =>
    simp only [act] at acted
    split at acted
    · rename_i here
      rw [Event.cpu, here]
      exact call_transition acted
    · contradiction
  | preempt cpu =>
    simp only [act] at acted
    split at acted
    · rename_i here
      simp only [Option.ite_none_right_eq_some, Option.some.injEq] at acted
      obtain ⟨⟨noff, running⟩, rfl⟩ := acted
      rw [Event.cpu, here]
      exact .preempt noff running
    · contradiction
  | interrupt cpu lock chan =>
    simp only [act] at acted
    split at acted
    · rename_i index here
      cases acted
      rw [Event.cpu, here]
      exact .interrupt index lock chan
    · contradiction

/-! ## Who writes to a process -/

/-- The point of the code, if it is at one. -/
def Code.point : Code procs → Option (Point procs)
  | .handler _ (.point place) | .thread _ (.run (.point place)) => some place
  | _ => none

/-- The code before and after a write to a process, and what is known there. -/
inductive Writes (state : State cpus procs) (cpu : Fin cpus) (process : Fin procs) :
    Code procs → Code procs → Write cpus procs → Prop where
  | acquire {code next : Code procs} (acquires : Acquires code (.proc process) next)
      (free : (state.proc process).lock = none) : Writes state cpu process code next (.acquire cpu)
  | release {code next : Code procs} (releases : Releases code (.proc process) next)
      (held : (state.proc process).lock = some cpu) : Writes state cpu process code next .release
  | wakeup {code next : Code procs} {wakeup : Wakeup procs}
      (here : code.point = some (.wakeupTest wakeup process))
      (sleeping : (state.proc process).state = .sleeping)
      (chan : (state.proc process).chan = wakeup.chan) : Writes state cpu process code next .wakeup
  | kill {self : Fin procs} {pid : BitVec 32} {next : Code procs}
      (found : (state.proc process).pid = pid) :
      Writes state cpu process (.thread self (.run (.point (.killTest pid process)))) next .kill
  | run (runnable : (state.proc process).state = .runnable) :
      Writes state cpu process (.scheduler (.test process)) (.scheduler (.mark process)) .run
  | yield (resume : Pc procs) :
      Writes state cpu process (.thread process (.yieldMark resume))
        (.thread process (.yieldSched resume)) .yield
  | fallAsleep (sleep : Sleep) :
      Writes state cpu process (.thread process (.run (.point (.sleepBegin sleep))))
        (.thread process (.run (.release (.spin sleep.lock) (.point (.sleepMark sleep)))))
        (.fallAsleep (sleep.chan process))
  | sleep (sleep : Sleep) (next : Thread procs) :
      Writes state cpu process (.thread process (.run (.point (.sleepMark sleep))))
        (.thread process next) (.sleep (sleep.chan process))
  | tidy (sleep : Sleep) (next : Thread procs) :
      Writes state cpu process (.thread process (.run (.point (.back (.sleep sleep)))))
        (.thread process next) .tidy
  | save {thread : Thread procs} {context : Context procs} (back : Fin procs)
      (scheds : Scheds process thread context) (marked : (state.proc process).state ≠ .running) :
      Writes state cpu process (.thread process thread) (.scheduler (.back back)) (.save context)
  | resume {thread : Thread procs} (loaded : load process (state.proc process).context = some thread) :
      Writes state cpu process (.scheduler (.swtch process)) (.thread process thread) .resume
  | alloc {self : Fin procs} {next : Code procs} (unused : (state.proc process).state = .unused) :
      Writes state cpu process (.thread self (.run (.point (.forkTest process)))) next .alloc
  | setup {self : Fin procs} {next : Code procs} :
      Writes state cpu process (.thread self (.run (.point (.forkInit process)))) next .setup
  | free {self : Fin procs} {next : Code procs} :
      Writes state cpu process (.thread self (.run (.point (.forkInit process)))) next .free
  | reap {waiter : Fin procs} {next : Code procs} (zombie : (state.proc process).state = .zombie) :
      Writes state cpu process (.thread waiter (.run (.point (.waitTest process)))) next (.reap waiter)
  | ready {self : Fin procs} {next : Code procs} :
      Writes state cpu process (.thread self (.run (.point (.forkReady process)))) next .ready
  | exit (status : BitVec 32) (next : Thread procs) :
      Writes state cpu process (.thread process (.run (.point (.exitMark status))))
        (.thread process next) (.exit status)
  | adopt {self : Fin procs} {next : Code procs} :
      Writes state cpu process (.thread self (.run (.point (.forkParent process)))) next
        (.parent self)
  | reparent {self : Fin procs} {status : BitVec 32}
      (child : (state.proc process).parent = some self) :
      Writes state cpu process (.thread self (.run (.point (.reparent status process))))
        (.thread self (.run (.point (.wakeup ⟨some (.proc state.initproc),
          .reparent status (process + 1), state.clock⟩ 0))))
        (.parent state.initproc)

theorem Moves.writes {self : Fin procs} {point : Point procs} {pc : Pc procs}
    {change : Change cpus procs} (moves : Moves state cpu self point pc change) {process : Fin procs}
    {write : Write cpus procs} (written : change.write = some (process, write)) :
    Writes state cpu process (.thread self (.run (.point point))) (.thread self (.run pc)) write := by
  cases moves with
  | sleepBegin sleep => cases written; exact .fallAsleep sleep
  | sleepMark sleep => cases written; exact .sleep sleep _
  | sleepBack sleep => cases written; exact .tidy sleep _
  | wakeupHit wakeup sleeping chan => cases written; exact .wakeup rfl sleeping chan
  | killHit found => cases written; exact .kill found
  | forkAlloc unused => cases written; exact .alloc unused
  | forkSetup => cases written; exact .setup
  | forkFail => cases written; exact .free
  | forkParent => cases written; exact .adopt
  | forkReady => cases written; exact .ready
  | reparentHit status process child => cases written; exact .reparent child
  | exitMark status => cases written; exact .exit status _
  | waitReap zombie => cases written; exact .reap zombie
  | _ => cases written

theorem Transition.writes {code : Code procs} (transition : Transition state cpu code effect)
    {process : Fin procs} {write : Write cpus procs}
    (written : effect.write = some (process, write)) :
    Writes state cpu process code effect.cpu.code write := by
  cases transition with
  | acquireProc acquires free => cases written; exact .acquire acquires free
  | releaseProc releases held => cases written; exact .release releases held
  | moves moves => exact moves.writes written
  | calls calls => cases calls <;> cases written
  | yield => cases written; exact .yield _
  | sched scheds _ marked => cases written; exact .save _ scheds marked
  | run runnable => cases written; exact .run runnable
  | swtch loaded => cases written; exact .resume loaded
  | handles handles =>
    cases handles with
    | hit wakeup sleeping chan => cases written; exact .wakeup rfl sleeping chan
    | _ => cases written
  | _ => cases written

theorem Transition.wrote (transition : Acts state cpu effect)
    {process : Fin procs} {write : Write cpus procs}
    (written : effect.write = some (process, write)) :
    ∃ code next, (state.cpu cpu).code = code ∧ effect.cpu.code = next ∧
      Writes state cpu process code next write :=
  ⟨_, _, rfl, rfl, transition.writes written⟩

end Xv6.Sched
