import Xv6.Sched.Family

namespace Xv6.Sched

open Xv6.Data Xv6.Transition

/-! # `wait` and `exit`

While a process holds `wait_lock`, nobody else changes a parent, exits or goes to sleep in
`wait`.  So `wait` goes to sleep only when it has no exited child, and `exit` makes a zombie
only when the parent has been woken up.
-/

variable {cpus procs : Nat} {state : State cpus procs} {cpu other : Fin cpus}
  {effect : Effect cpus procs} {process self parent : Fin procs} {point place : Point procs}

/-- The slots in which `wait` has seen no exited child. -/
def Point.scanned : Point procs → Option Nat
  | .waitScan index _ => some index
  | .waitTest process => some process
  | .waitCheck _ | .sleepBegin .wait => some procs
  | _ => none

/-- `reparent` is waking up a process. -/
def Telling (state : State cpus procs) (process : Fin procs) : Prop :=
  ∃ self point wakeup index status next, At state self point ∧
    point.loop = some (wakeup, index) ∧ wakeup.caller = .reparent status next ∧
    wakeup.chan = some (.proc process)

structure Waits (state : State cpus procs) : Prop where
  child : ∀ self process, At state self (.waitTest process) →
    (state.proc process).parent = some self
  scanned : ∀ self point count process, At state self point → point.scanned = some count →
    process.val < count → (state.proc process).parent = some self →
    (state.proc process).state ≠ .zombie
  tellsParent : ∀ self point wakeup index process status, At state self point →
    point.loop = some (wakeup, index) → wakeup.caller = .exit process status →
    wakeup.chan = (state.proc self).parent.map .proc
  tellsInit : ∀ self point wakeup index status next, At state self point →
    point.loop = some (wakeup, index) → wakeup.caller = .reparent status next →
    wakeup.chan = some (.proc state.initproc)
  told : ∀ self status parent process, At state self (.exitMark status) →
    (state.proc self).parent = some parent → (state.proc process).asleep ≠ some (.proc parent)
  quiet : ∀ parent process, (state.proc process).parent = some parent →
    (state.proc process).state = .zombie → (state.proc parent).asleep = some (.proc parent) →
    Telling state parent

/-! ## What `wait_lock` protects -/

structure Frozen (before after : State cpus procs) : Prop where
  parent : ∀ process, (after.proc process).parent = (before.proc process).parent
  zombie : ∀ process, (after.proc process).state = .zombie → (before.proc process).state = .zombie
  asleep : ∀ process target, (after.proc process).asleep = some (.proc target) →
    (before.proc process).asleep = some (.proc target)

/-- A process becomes a zombie in `exit`. -/
theorem Transition.zombie_before (transition : Acts state cpu effect)
    (after : ((apply state cpu effect).proc process).state = .zombie) :
    (state.proc process).state = .zombie ∨
      ∃ status, (state.cpu cpu).code = .thread process (.run (.point (.exitMark status))) := by
  revert after
  refine apply_proc_cases (fun proc => proc.state = .zombie → (state.proc process).state = .zombie ∨
    ∃ status, (state.cpu cpu).code = .thread process (.run (.point (.exitMark status))))
    (fun write written => ?_) fun _ before => .inl before
  obtain ⟨code, next, here, _, writes⟩ := transition.wrote written
  cases writes with
  | exit status => exact fun _ => .inr ⟨status, here⟩
  | kill => exact Write.kill_cases (fun _ => nofun) fun _ => .inl
  | acquire | release | fallAsleep | tidy | save | resume | setup | adopt | reparent => exact .inl
  | _ => nofun

/-- A process goes to sleep in `wait` under `wait_lock`. -/
theorem Transition.asleep_before {target : Fin procs} (transition : Acts state cpu effect)
    (after : ((apply state cpu effect).proc process).asleep = some (.proc target)) :
    (state.proc process).asleep = some (.proc target) ∨
      target = process ∧ effect.write = some (process, .fallAsleep (.proc process)) ∧
        (state.cpu cpu).code = .thread process (.run (.point (.sleepBegin .wait))) := by
  obtain ⟨before, _⟩ | ⟨written, _⟩ := asleep_cases after
  · exact .inl before
  · obtain ⟨code, next, here, _, writes⟩ := transition.wrote written
    generalize which : (Channel.proc target : Channel procs) = chan at writes
    cases writes with
    | fallAsleep sleep =>
      cases sleep with
      | wait =>
        cases which
        exact .inr ⟨rfl, written, here⟩
      | _ => contradiction

theorem Frozen.of_same (same : (apply state cpu effect).proc = state.proc) :
    Frozen state (apply state cpu effect) := by
  constructor <;> rw [same]
  · exact fun _ => rfl
  · exact fun _ => id
  · exact fun _ _ => id

theorem Base.frozen (base : Base state) (family : Family state) (transition : Acts state cpu effect)
    (held : (state.cpu other).code.spin = some .wait) (different : other ≠ cpu) :
    Frozen state (apply state cpu effect) := by
  have notMine : ∀ {code : Code procs}, (state.cpu cpu).code = code → code.spin ≠ some .wait := by
    rintro _ rfl mine
    exact different (base.locks.spin.unique held mine)
  constructor
  · intro process
    cases transition.parentMove process with
    | same same => exact same
    | adopt _ here | reparent _ _ here | reap _ here => exact absurd rfl (notMine here)
    | free self here parent =>
      rw [parent, family.newborn self process (.inl ⟨cpu, _, here, rfl⟩)]
  · intro process after
    obtain before | ⟨_, here⟩ := transition.zombie_before after
    · exact before
    · exact absurd rfl (notMine here)
  · intro process target after
    obtain before | ⟨_, _, here⟩ := transition.asleep_before after
    · exact before
    · exact absurd rfl (notMine here)

/-- What is frozen while a process stays where it is, with `wait_lock`. -/
theorem Base.undisturbed (base : Base state) (family : Family state)
    (transition : Acts state cpu effect) (there : At state self point)
    (inside : point.inside = true) (spin : point.spin = some .wait)
    (quiet : ∀ place, (state.cpu cpu).code = .thread self (.run (.point place)) →
      effect.write = none) : Frozen state (apply state cpu effect) := by
  obtain ⟨other, pc, here, goal, held⟩ := there.inside base.locks base.shapes inside spin
  cases Decidable.eq_or_ne other cpu with
  | inr different => exact base.frozen family transition held different
  | inl same =>
    subst same
    cases transition.departs here with
    | stays _ _ unchanged =>
      constructor
      · intro process
        obtain ⟨lock, same⟩ := unchanged process
        rw [same]
      · intro process
        obtain ⟨lock, same⟩ := unchanged process
        rw [same]
        exact id
      · intro process target
        obtain ⟨lock, same⟩ := unchanged process
        rw [same]
        exact id
    | moves at_ | calls at_ | sched at_ => exact .of_same (apply_proc_none (quiet _ (at_ ▸ here)))

theorem Point.scanned_inside {count : Nat} (found : point.scanned = some count) (some : count ≠ 0) :
    point.inside = true ∧ point.spin = .some .wait := by
  cases point with
  | waitScan index =>
    cases found
    exact ⟨bne_iff_ne.mpr some, rfl⟩
  | waitTest | waitCheck => exact ⟨rfl, rfl⟩
  | sleepBegin sleep =>
    cases sleep with
    | wait => exact ⟨rfl, rfl⟩
    | _ => contradiction
  | _ => contradiction

/-! ## The loop of `wait` -/

theorem Moves.scanned {pc : Pc procs} {change : Change cpus procs}
    (moves : Moves state cpu self place pc change) {count : Nat}
    (found : pc.goal.scanned = some count) :
    count = 0 ∨ change.write = none ∧ ∃ before, place.scanned = some before ∧
      (count ≤ before ∨ ∃ process : Fin procs, before = process ∧ count = process + 1 ∧
        ((state.proc process).parent ≠ some self ∨ (state.proc process).state ≠ .zombie)) := by
  cases moves with
  | sleepBack sleep =>
    cases sleep with
    | wait => cases found; exact .inl rfl
    | _ => cases found
  | waitChild process =>
    cases found
    exact .inr ⟨rfl, process, rfl, .inl (Nat.le_refl _)⟩
  | waitSkip process _ other =>
    cases found
    exact .inr ⟨rfl, process, rfl, .inr ⟨process, rfl, rfl, .inl other⟩⟩
  | waitEnd _ outside =>
    cases found
    exact .inr ⟨rfl, _, rfl, .inl outside⟩
  | waitAlive alive =>
    cases found
    exact .inr ⟨rfl, _, rfl, .inr ⟨_, rfl, rfl, .inr alive⟩⟩
  | waitSleep =>
    cases found
    exact .inr ⟨rfl, _, rfl, .inl (Nat.le_refl _)⟩
  | wakeupEnd wakeup => obtain ⟨_, caller, _⟩ := wakeup; cases caller <;> cases found
  | _ => cases found

theorem Calls.scanned {pc : Pc procs} {change : Change cpus procs}
    (calls : Calls state self place pc change) {count : Nat}
    (found : pc.goal.scanned = some count) : count = 0 := by
  cases calls with
  | wait => cases found; rfl
  | _ => cases found

/-! ## The invariant is kept -/

section

variable (base : Base state) (sleepers : Sleepers state) (family : Family state) (waits : Waits state)
  (transition : Acts state cpu effect)

include base family waits transition

theorem Waits.child_apply (after : At (apply state cpu effect) self (.waitTest process)) :
    ((apply state cpu effect).proc process).parent = some self := by
  cases transition.arrives base.exec after with
  | stays before quiet =>
    rw [(base.undisturbed family transition before rfl rfl quiet).parent]
    exact waits.child self process before
  | moves here moves made goal =>
    subst made
    cases moves with
    | waitChild _ _ child =>
      cases goal
      rw [apply_proc_none rfl]
      exact child
    | sleepBack sleep => cases sleep <;> cases goal
    | wakeupEnd wakeup => obtain ⟨_, caller, _⟩ := wakeup; cases caller <;> cases goal
    | _ => cases goal
  | calls _ calls _ goal => cases calls <;> cases goal

theorem Waits.scanned_apply {count : Nat} (after : At (apply state cpu effect) self point)
    (found : point.scanned = some count) (below : process.val < count)
    (child : ((apply state cpu effect).proc process).parent = some self) :
    ((apply state cpu effect).proc process).state ≠ .zombie := by
  have some := Nat.ne_zero_of_lt below
  cases transition.arrives base.exec after with
  | stays before quiet =>
    obtain ⟨inside, spin⟩ := Point.scanned_inside found some
    have frozen := base.undisturbed family transition before inside spin quiet
    rw [frozen.parent] at child
    exact fun zombie =>
      waits.scanned self point count process before found below child (frozen.zombie process zombie)
  | moves here moves made goal =>
    subst goal
    obtain zero | ⟨none, earlier, place, outcome⟩ := moves.scanned found
    · exact absurd zero some
    · subst made
      rw [apply_proc_none none] at child ⊢
      have old : process.val < earlier → (state.proc process).state ≠ .zombie := fun less =>
        waits.scanned self _ earlier process (.inl ⟨cpu, _, here, rfl⟩) place less child
      obtain fewer | ⟨target, rfl, rfl, seen⟩ := outcome
      · exact old (Nat.lt_of_lt_of_le below fewer)
      · cases Nat.lt_succ_iff_lt_or_eq.mp below with
        | inl less => exact old less
        | inr equal =>
          have same := Fin.ext equal
          subst same
          exact seen.resolve_left (not_not.mpr child)
  | calls _ calls _ goal =>
    subst goal
    exact absurd (calls.scanned found) some
  | forked | returns => contradiction

omit waits in
/-- The loops of `wakeup` in `exit` hold `wait_lock`. -/
theorem Family.loop_apply {wakeup : Wakeup procs} {index count : Nat}
    (after : At (apply state cpu effect) self point) (found : point.loop = some (wakeup, index))
    (exits : wakeup.caller.orphaned = some count) :
    (∃ earlier place, At state self place ∧ place.loop = some (wakeup, earlier) ∧
      ∀ process, ((apply state cpu effect).proc process).parent = (state.proc process).parent) ∨
    (∃ status next, wakeup.caller = .reparent status next ∧
      wakeup.chan = some (.proc state.initproc)) ∨
    ∃ process status, wakeup.caller = .exit process status ∧
      wakeup.chan = (state.proc self).parent.map .proc ∧ effect.write = none := by
  have held : wakeup.caller.lock = some .wait := by
    obtain ⟨_, caller, _⟩ := wakeup
    cases caller <;> first | rfl | contradiction
  cases transition.arrives base.exec after with
  | stays before quiet =>
    have inside : point.inside = true := by cases point <;> first | rfl | contradiction
    have spin : point.spin = some .wait := by cases point <;> cases found <;> exact held
    exact .inl ⟨index, point, before, found,
      (base.undisturbed family transition before inside spin quiet).parent⟩
  | moves here moves made goal =>
    subst goal made
    have there : At state self _ := .inl ⟨cpu, _, here, rfl⟩
    cases moves with
    | wakeupSkip | wakeupLock
    | wakeupMiss => cases found; exact .inl ⟨_, _, there, rfl, fun _ => by rw [apply_proc_none rfl]⟩
    | wakeupHit call sleeping =>
      cases found
      refine .inl ⟨_, _, there, rfl, fun process => ?_⟩
      cases transition.parentMove process with
      | same same => exact same
      | adopt _ at_ | reparent _ _ at_ | free _ at_ | reap _ at_ => rw [here] at at_; cases at_
    | wakeupEnd call => rw [call.caller.after_loop] at found; contradiction
    | reparentHit => cases found; exact .inr (.inl ⟨_, _, rfl, rfl⟩)
    | reparentEnd => cases found; exact .inr (.inr ⟨_, _, rfl, rfl, rfl⟩)
    | releasesleepClear => cases found; contradiction
    | sleepBack sleep => cases sleep <;> cases found
    | _ => cases found
  | calls _ calls _ goal =>
    subst goal
    cases calls <;> cases found <;> contradiction
  | forked | returns => contradiction

theorem Waits.tellsParent_apply {wakeup : Wakeup procs} {index : Nat} {status : BitVec 32}
    (after : At (apply state cpu effect) self point) (found : point.loop = some (wakeup, index))
    (caller : wakeup.caller = .exit process status) :
    wakeup.chan = ((apply state cpu effect).proc self).parent.map .proc := by
  obtain ⟨earlier, place, before, loop, parent⟩ | ⟨_, _, other, _⟩ | ⟨_, _, _, chan, none⟩ :=
    family.loop_apply base transition after found (congrArg Caller.orphaned caller)
  · rw [parent]
    exact waits.tellsParent self place wakeup earlier process status before loop caller
  · rw [caller] at other
    contradiction
  · rw [apply_proc_none none]
    exact chan

theorem Waits.tellsInit_apply {wakeup : Wakeup procs} {index next : Nat} {status : BitVec 32}
    (after : At (apply state cpu effect) self point) (found : point.loop = some (wakeup, index))
    (caller : wakeup.caller = .reparent status next) :
    wakeup.chan = some (.proc state.initproc) := by
  obtain ⟨earlier, place, before, loop, _⟩ | ⟨_, _, _, chan⟩ | ⟨_, _, other, _⟩ :=
    family.loop_apply base transition after found (congrArg Caller.orphaned caller)
  · exact waits.tellsInit self place wakeup earlier status next before loop caller
  · exact chan
  · rw [caller] at other
    contradiction

include sleepers in
theorem Waits.told_apply {status : BitVec 32}
    (after : At (apply state cpu effect) self (.exitMark status))
    (child : ((apply state cpu effect).proc self).parent = some parent) :
    ((apply state cpu effect).proc process).asleep ≠ some (.proc parent) := by
  cases transition.arrives base.exec after with
  | stays before quiet =>
    have frozen := base.undisturbed family transition before rfl rfl quiet
    rw [frozen.parent] at child
    exact fun asleep =>
      waits.told self status parent process before child (frozen.asleep process parent asleep)
  | moves here moves made goal =>
    subst made
    cases moves with
    | wakeupEnd wakeup outside =>
      rw [apply_proc_none rfl] at child ⊢
      have there : At state self (.wakeup wakeup _) := .inl ⟨cpu, _, here, rfl⟩
      have caller : ∃ process, wakeup.caller = .exit process status := by
        obtain ⟨_, caller, _⟩ := wakeup
        cases caller <;> cases goal
        exact ⟨_, rfl⟩
      obtain ⟨target, caller⟩ := caller
      have chan := waits.tellsParent self _ wakeup _ target status there rfl caller
      rw [child] at chan
      exact sleepers.finished (.inl ⟨self, there⟩) rfl outside chan rfl (congrArg Caller.lock caller)
    | sleepBack sleep => cases sleep <;> cases goal
    | _ => cases goal
  | calls _ calls _ goal => cases calls <;> cases goal

omit family in
include sleepers in
theorem Waits.quiet_kept (child : (state.proc process).parent = some parent)
    (zombie : (state.proc process).state = .zombie)
    (before : (state.proc parent).asleep = some (.proc parent))
    (after : ((apply state cpu effect).proc parent).asleep = some (.proc parent)) :
    Telling (apply state cpu effect) parent := by
  obtain ⟨self, point, wakeup, index, status, next, there, found, caller, chan⟩ :=
    waits.quiet parent process child zombie before
  have held : wakeup.caller.lock = some .wait := congrArg Caller.lock caller
  obtain ⟨place, later, still, loop⟩ | ⟨outside, written⟩ :=
    base.loop_kept transition there found held
  · exact ⟨self, place, wakeup, later, status, next, still, loop, caller, chan⟩
  · rw [apply_proc_none written] at after
    exact absurd after (sleepers.finished (.inl ⟨self, there⟩) found outside chan rfl held)

omit family in
include sleepers in
theorem Waits.quiet_apply (child : ((apply state cpu effect).proc process).parent = some parent)
    (zombie : ((apply state cpu effect).proc process).state = .zombie)
    (asleep : ((apply state cpu effect).proc parent).asleep = some (.proc parent)) :
    Telling (apply state cpu effect) parent := by
  obtain zombieBefore | ⟨status, here⟩ := transition.zombie_before zombie
  · cases transition.parentMove process with
    | same same =>
      rw [same] at child
      obtain before | ⟨_, _, here⟩ := transition.asleep_before asleep
      · exact waits.quiet_kept base sleepers transition child zombieBefore before asleep
      · -- The parent has just looked at all its children.
        exact absurd zombieBefore (waits.scanned parent _ procs process (.inl ⟨cpu, _, here, rfl⟩) rfl
          process.isLt child)
    | adopt self here =>
      have used := base.exec.child_used here rfl
      rw [zombieBefore] at used
      contradiction
    | reparent self status _ _ found there =>
      rw [found] at child
      cases child
      exact ⟨self, _, _, _, status, _, .now there, rfl, rfl, rfl⟩
    | free _ _ found | reap _ _ _ found =>
      rw [found] at child
      contradiction
  · -- The parent has just been told.
    have there : At state process (.exitMark status) := .inl ⟨cpu, _, here, rfl⟩
    have childBefore : (state.proc process).parent = some parent := by
      cases transition.parentMove process with
      | same same => exact same ▸ child
      | adopt _ at_ | reparent _ _ at_ | free _ at_ | reap _ at_ => rw [here] at at_; cases at_
    obtain before | ⟨_, _, at_⟩ := transition.asleep_before asleep
    · exact absurd before (waits.told process status parent parent there childBefore)
    · rw [here] at at_
      cases at_

include sleepers in
theorem Waits.kept : Waits (apply state cpu effect) where
  child _ _ := waits.child_apply base family transition
  scanned _ _ _ _ := waits.scanned_apply base family transition
  tellsParent _ _ _ _ _ _ := waits.tellsParent_apply base family transition
  tellsInit _ _ _ _ _ _ := waits.tellsInit_apply base family transition
  told _ _ _ _ := waits.told_apply base sleepers family transition
  quiet _ _ := waits.quiet_apply base sleepers transition

end

theorem initial_waits (initial : (machine cpus procs).initial state) : Waits state := by
  have nowhere {self : Fin procs} {point : Point procs} : ¬At state self point := initial_nowhere initial
  constructor
  · exact fun self process there => absurd there nowhere
  · exact fun self point count process there => absurd there nowhere
  · exact fun self point wakeup index process status there => absurd there nowhere
  · exact fun self point wakeup index status next there => absurd there nowhere
  · exact fun self status parent process there => absurd there nowhere
  · intro parent process child
    rw [initial.2.1] at child
    split at child <;> contradiction

end Xv6.Sched
