import Xv6.Sched.Wakeup

namespace Xv6.Sched

open Xv6.Data Xv6.Transition

/-! # Sleep locks

`lk->locked` changes under `lk->lk` only.  `releasesleep` clears it and keeps `lk->lk` until
nobody sleeps on the lock any more.
-/

variable {cpus procs : Nat} {state : State cpus procs} {cpu other : Fin cpus}
  {effect : Effect cpus procs} {process self : Fin procs} {point place : Point procs}
  {sleeplock : Nat}

/-- `releasesleep` is waking up those who wait for the lock. -/
def Draining (state : State cpus procs) (sleeplock : Nat) : Prop :=
  ∃ self point wakeup index, At state self point ∧ point.loop = some (wakeup, index) ∧
    wakeup.caller = .releasesleep sleeplock ∧ wakeup.chan = some (.sleeplock sleeplock)

/-- From the end of `acquiresleep` to the middle of `releasesleep`. -/
def Owns (state : State cpus procs) (sleeplock : Nat) (process : Fin procs) : Prop :=
  state.keeps sleeplock process = true ∨ At state process (.releasesleepClear sleeplock)

structure Sleeplocks (state : State cpus procs) : Prop where
  waiting : ∀ process sleeplock, At state process (.sleepBegin (.acquiresleep sleeplock)) →
    (state.sleeplock sleeplock).locked = true
  unlocked : ∀ sleeplock, (state.sleeplock sleeplock).locked = false →
    Draining state sleeplock ∨ ∀ process, (state.proc process).asleep ≠ some (.sleeplock sleeplock)
  owned : ∀ sleeplock process, Owns state sleeplock process →
    (state.sleeplock sleeplock).locked = true
  single : ∀ sleeplock process other, Owns state sleeplock process → Owns state sleeplock other →
    process = other
  clearing : ∀ sleeplock process, At state process (.releasesleepClear sleeplock) →
    state.keeps sleeplock process = false

/-- What a step does to one sleep lock. -/
inductive SleeplockMove (state : State cpus procs) (cpu : Fin cpus) (effect : Effect cpus procs)
    (sleeplock : Nat) : Prop where
  | same (value : (apply state cpu effect).sleeplock sleeplock = state.sleeplock sleeplock)
      (keeps : ∀ process,
        (apply state cpu effect).keeps sleeplock process = state.keeps sleeplock process)
  | take (self : Fin procs)
      (here : (state.cpu cpu).code = .thread self (.run (.point (.acquiresleepTest sleeplock))))
      (before : (state.sleeplock sleeplock).locked = false)
      (after : ((apply state cpu effect).sleeplock sleeplock).locked = true)
      (keeps : ∀ process, (apply state cpu effect).keeps sleeplock process = true →
        process = self ∨ state.keeps sleeplock process = true)
  | release (self : Fin procs) (here : (state.cpu cpu).code = .thread self (.run (.point .idle)))
      (value : (apply state cpu effect).sleeplock sleeplock = state.sleeplock sleeplock)
      (keeps : ∀ process, (apply state cpu effect).keeps sleeplock process = true →
        process ≠ self ∧ state.keeps sleeplock process = true)
  | clear (self : Fin procs)
      (here : (state.cpu cpu).code = .thread self (.run (.point (.releasesleepClear sleeplock))))
      (after : ((apply state cpu effect).sleeplock sleeplock).locked = false)
      (keeps : ∀ process,
        (apply state cpu effect).keeps sleeplock process = state.keeps sleeplock process)
      (there : effect.cpu.code = .thread self (.run (.point (.wakeup
        ⟨some (.sleeplock sleeplock), .releasesleep sleeplock, state.clock⟩ 0))))

theorem keeps_apply {index : Nat} {target : Fin procs} {value : Bool}
    (change : effect.keeps = some (index, target, value)) :
    (apply state cpu effect).keeps sleeplock process =
      if sleeplock = index ∧ process = target then value else state.keeps sleeplock process := by
  by_cases this : sleeplock = index
  · subst this
    by_cases mine : process = target
    · simp [apply, change, mine]
    · simp [apply, change, mine]
  · simp [apply, change, this]

theorem sleeplock_apply {index : Nat} {value : Sleeplock}
    (change : effect.sleeplock = some (index, value)) :
    (apply state cpu effect).sleeplock sleeplock =
      if sleeplock = index then value else state.sleeplock sleeplock := by
  simp only [apply, change, overwrite]

theorem Moves.sleeplockMove {pc : Pc procs} {change : Change cpus procs}
    (moves : Moves state cpu self place pc change)
    (here : (state.cpu cpu).code = .thread self (.run (.point place))) :
    SleeplockMove state cpu (change.effect state cpu self pc) sleeplock := by
  cases moves with
  | @acquiresleepTake index unlocked =>
    by_cases this : sleeplock = index
    · subst this
      refine .take self here unlocked ?_ fun process after => ?_
      · rw [sleeplock_apply rfl, if_pos rfl]
      · rw [keeps_apply rfl] at after
        split at after
        · rename_i both
          exact .inl both.2
        · exact .inr after
    · refine .same ?_ fun process => ?_
      · rw [sleeplock_apply rfl, if_neg this]
      · rw [keeps_apply rfl, if_neg fun both => this both.1]
  | releasesleepClear index =>
    by_cases this : sleeplock = index
    · subst this
      refine .clear self here ?_ (fun _ => rfl) rfl
      rw [sleeplock_apply rfl, if_pos rfl]
    · refine .same ?_ fun _ => rfl
      rw [sleeplock_apply rfl, if_neg this]
  | _ => exact .same rfl fun _ => rfl

theorem Transition.sleeplockMove (transition : Acts state cpu effect)
    (sleeplock : Nat) : SleeplockMove state cpu effect sleeplock := by
  obtain ⟨code, here, transition⟩ := transition.code
  cases transition with
  | moves moves => exact moves.sleeplockMove here
  | calls calls =>
    cases calls with
    | @releasesleep index keeps =>
      by_cases this : sleeplock = index
      · subst this
        refine .release _ here rfl fun process after => ?_
        rw [keeps_apply rfl] at after
        split at after
        · contradiction
        · rename_i other
          exact ⟨fun same => other ⟨rfl, same⟩, after⟩
      · refine .same rfl fun process => ?_
        rw [keeps_apply rfl, if_neg fun both => this both.1]
    | _ => exact .same rfl fun _ => rfl
  | _ => exact .same rfl fun _ => rfl

/-! ## The invariant is kept -/

section

variable (base : Base state) (sleepers : Sleepers state) (locks : Sleeplocks state)
  (transition : Acts state cpu effect)

include base locks transition

theorem Sleeplocks.waiting_apply
    (after : At (apply state cpu effect) process (.sleepBegin (.acquiresleep sleeplock))) :
    ((apply state cpu effect).sleeplock sleeplock).locked = true := by
  have kept : (state.sleeplock sleeplock).locked = true →
      (At state process (.sleepBegin (.acquiresleep sleeplock)) ∨
        ∀ self, (state.cpu cpu).code ≠ .thread self (.run (.point (.releasesleepClear sleeplock)))) →
      ((apply state cpu effect).sleeplock sleeplock).locked = true := by
    intro before where_
    cases transition.sleeplockMove sleeplock with
    | same value | release _ _ value => rw [value]; exact before
    | take _ _ _ after => exact after
    | clear self here =>
      cases where_ with
      | inr elsewhere => exact absurd here (elsewhere self)
      | inl there =>
        obtain ⟨other, pc, on, goal, held⟩ := there.inside base.locks base.shapes rfl rfl
        have mine : (state.cpu cpu).code.spin = some (.inner sleeplock) := by rw [here]; rfl
        have same := base.locks.spin.unique mine held
        rw [← same, here] at on
        cases on
        contradiction
  cases transition.arrives base.exec after with
  | stays before => exact kept (locks.waiting process sleeplock before) (.inl before)
  | moves here moves _ goal =>
    cases moves with
    | acquiresleepWait locked =>
      cases goal
      refine kept locked (.inr fun self there => ?_)
      rw [here] at there
      cases there
    | sleepBack sleep => cases sleep <;> cases goal
    | wakeupEnd wakeup => obtain ⟨_, caller, _⟩ := wakeup; cases caller <;> cases goal
    | _ => cases goal
  | calls _ calls _ goal => cases calls <;> cases goal

include sleepers in
theorem Sleeplocks.unlocked_kept (unlocked : (state.sleeplock sleeplock).locked = false) :
    Draining (apply state cpu effect) sleeplock ∨
      ∀ process, ((apply state cpu effect).proc process).asleep ≠ some (.sleeplock sleeplock) := by
  cases locks.unlocked sleeplock unlocked with
  | inl draining =>
    obtain ⟨self, point, wakeup, index, there, found, caller, on⟩ := draining
    have held : wakeup.caller.lock = some (.inner sleeplock) := congrArg Caller.lock caller
    obtain ⟨next, later, after, still⟩ | ⟨outside, written⟩ :=
      base.loop_kept transition there found held
    · exact .inl ⟨self, next, wakeup, later, after, still, caller, on⟩
    · refine .inr fun process => ?_
      rw [apply_proc_none written]
      exact sleepers.finished (.inl ⟨self, there⟩) found outside on rfl held
  | inr none =>
    refine .inr fun process after => ?_
    obtain ⟨before, _⟩ | ⟨written, _⟩ := asleep_cases after
    · exact none process before
    · obtain ⟨code, next, here, _, writes⟩ := transition.wrote written
      generalize which : (Channel.sleeplock sleeplock : Channel procs) = chan at writes
      cases writes with
      | fallAsleep sleep =>
        cases sleep with
        | acquiresleep =>
          cases which
          rw [locks.waiting process _ (.inl ⟨cpu, _, here, rfl⟩)] at unlocked
          contradiction
        | _ => contradiction

include sleepers in
theorem Sleeplocks.unlocked_apply
    (unlocked : ((apply state cpu effect).sleeplock sleeplock).locked = false) :
    Draining (apply state cpu effect) sleeplock ∨
      ∀ process, ((apply state cpu effect).proc process).asleep ≠ some (.sleeplock sleeplock) := by
  cases transition.sleeplockMove sleeplock with
  | same value | release _ _ value =>
    exact locks.unlocked_kept base sleepers transition (value ▸ unlocked)
  | take _ _ _ after =>
    rw [after] at unlocked
    contradiction
  | clear self _ _ _ there =>
    exact .inl ⟨self, _, _, _, .now there, rfl, rfl, rfl⟩

omit locks in
/-- `releasesleep` is called by who has the lock. -/
theorem Base.clear_before
    (after : At (apply state cpu effect) process (.releasesleepClear sleeplock)) :
    At state process (.releasesleepClear sleeplock) ∨
      (state.cpu cpu).code = .thread process (.run (.point .idle)) ∧
        state.keeps sleeplock process = true ∧
        (apply state cpu effect).keeps sleeplock process = false := by
  cases transition.arrives base.exec after with
  | stays before => exact .inl before
  | moves _ moves _ goal =>
    cases moves with
    | sleepBack sleep => cases sleep <;> cases goal
    | wakeupEnd wakeup => obtain ⟨_, caller, _⟩ := wakeup; cases caller <;> cases goal
    | _ => cases goal
  | calls here calls after goal =>
    subst after
    cases calls with
    | releasesleep keeps =>
      cases goal
      refine .inr ⟨here, keeps, ?_⟩
      rw [keeps_apply rfl, if_pos ⟨rfl, rfl⟩]
    | _ => cases goal

omit locks in
theorem Base.owns_before (after : Owns (apply state cpu effect) sleeplock process) :
    (apply state cpu effect).keeps sleeplock process = true ∨ Owns state sleeplock process := by
  cases after with
  | inl keeps => exact .inl keeps
  | inr there =>
    obtain before | ⟨_, keeps, _⟩ := base.clear_before transition there
    · exact .inr (.inr before)
    · exact .inr (.inl keeps)

/-- Who owns a lock after a step has just taken it, or owned it before; when it is cleared,
nobody owns it any more. -/
theorem Sleeplocks.owns_cases (after : Owns (apply state cpu effect) sleeplock process) :
    ((apply state cpu effect).sleeplock sleeplock).locked = true ∧
      (((state.sleeplock sleeplock).locked = false ∧
        (state.cpu cpu).code = .thread process (.run (.point (.acquiresleepTest sleeplock)))) ∨
      Owns state sleeplock process) := by
  have before := base.owns_before transition after
  cases transition.sleeplockMove sleeplock with
  | same value keeps =>
    rw [keeps] at before
    have owns : Owns state sleeplock process := before.elim .inl id
    exact ⟨value ▸ locks.owned sleeplock process owns, .inr owns⟩
  | take self here unlocked locked keeps =>
    refine ⟨locked, ?_⟩
    cases before with
    | inr owns => exact .inr owns
    | inl kept =>
      cases keeps process kept with
      | inl mine => exact .inl ⟨unlocked, mine ▸ here⟩
      | inr owns => exact .inr (.inl owns)
  | release self here value keeps =>
    have owns : Owns state sleeplock process := before.elim (fun kept => .inl (keeps process kept).2) id
    exact ⟨value ▸ locks.owned sleeplock process owns, .inr owns⟩
  | clear self here _ keeps there =>
    rw [keeps] at before
    have owns : Owns state sleeplock process := before.elim .inl id
    have mine : At state self (.releasesleepClear sleeplock) := .inl ⟨cpu, _, here, rfl⟩
    have same := locks.single sleeplock process self owns (.inr mine)
    subst same
    cases after with
    | inl kept =>
      rw [keeps, locks.clearing sleeplock process mine] at kept
      contradiction
    | inr still =>
      have moved := (base.kept transition).exec.at_thread (by rw [apply_cpu_self, there]) still
      exact absurd moved nofun

theorem Sleeplocks.single_apply {other : Fin procs}
    (mine : Owns (apply state cpu effect) sleeplock process)
    (theirs : Owns (apply state cpu effect) sleeplock other) : process = other := by
  obtain ⟨_, ⟨unlocked, here⟩ | mine⟩ := locks.owns_cases base transition mine
  · obtain ⟨_, ⟨_, there⟩ | theirs⟩ := locks.owns_cases base transition theirs
    · rw [here] at there
      cases there
      rfl
    · rw [locks.owned sleeplock other theirs] at unlocked
      contradiction
  · obtain ⟨_, ⟨unlocked, _⟩ | theirs⟩ := locks.owns_cases base transition theirs
    · rw [locks.owned sleeplock process mine] at unlocked
      contradiction
    · exact locks.single sleeplock process other mine theirs

theorem Sleeplocks.clearing_apply
    (after : At (apply state cpu effect) process (.releasesleepClear sleeplock)) :
    (apply state cpu effect).keeps sleeplock process = false := by
  obtain before | ⟨_, _, kept⟩ := base.clear_before transition after
  · have old := locks.clearing sleeplock process before
    rw [← Bool.not_eq_true] at old ⊢
    intro new
    cases transition.sleeplockMove sleeplock with
    | same _ keeps | clear _ _ _ keeps => exact old (keeps process ▸ new)
    | take self here _ _ keeps =>
      cases keeps process new with
      | inl mine =>
        subst mine
        exact absurd (base.exec.at_thread here before) nofun
      | inr kept => exact old kept
    | release _ _ _ keeps => exact old (keeps process new).2
  · exact kept

include sleepers in
theorem Sleeplocks.kept : Sleeplocks (apply state cpu effect) where
  waiting _ _ := locks.waiting_apply base transition
  unlocked _ := locks.unlocked_apply base sleepers transition
  owned _ _ owns := (locks.owns_cases base transition owns).1
  single _ _ _ := locks.single_apply base transition
  clearing _ _ := locks.clearing_apply base transition

end

theorem initial_sleeplocks (initial : (machine cpus procs).initial state) : Sleeplocks state := by
  have nowhere {self : Fin procs} {point : Point procs} : ¬At state self point := initial_nowhere initial
  have unowned : ∀ {sleeplock process}, ¬Owns state sleeplock process := by
    rintro sleeplock process (keeps | there)
    · rw [initial.2.2.2.2.2.2.2.2.2.2] at keeps
      contradiction
    · exact nowhere there
  constructor
  · intro process sleeplock there
    exact absurd there nowhere
  · intro sleeplock _
    refine .inr fun process => ?_
    rw [initial.2.1]
    split <;> nofun
  · intro sleeplock process owns
    exact absurd owns unowned
  · intro sleeplock process other owns
    exact absurd owns unowned
  · intro sleeplock process there
    exact absurd there nowhere

/-! ## No lost wakeup -/

theorem reachable_sleepers (reachable : Reachable (machine cpus procs) state) :
    Base state ∧ Sleepers state ∧ Sleeplocks state := by
  refine Reachable.invariant (fun state initial => And.intro (initial_base initial)
    (And.intro (initial_sleepers initial) (initial_sleeplocks initial))) ?_ reachable
  intro before event after held stepped
  obtain ⟨base, sleepers, locks⟩ := held
  obtain ⟨effect, transition, _, rfl⟩ := step_effect stepped
  exact ⟨base.kept transition, sleepers.kept base transition, locks.kept base sleepers transition⟩

/-- Nobody sleeps on a lock that is free. -/
theorem Sleeplocks.none_sleeping (base : Base state) (sleepers : Sleepers state)
    (locks : Sleeplocks state) (free : state.spin (.inner sleeplock) = none)
    (unlocked : (state.sleeplock sleeplock).locked = false)
    (sleeping : (state.proc process).state = .sleeping) :
    (state.proc process).chan ≠ some (.sleeplock sleeplock) := by
  intro chan
  cases locks.unlocked sleeplock unlocked with
  | inl draining =>
    obtain ⟨self, point, wakeup, index, there, found, caller, on⟩ := draining
    obtain ⟨cpu, held, _⟩ := Busy.inside base (.inl ⟨self, there⟩) found (congrArg Caller.lock caller)
    have holder : state.spin (.inner sleeplock) = some cpu := (base.locks.spin _ _).mpr held
    rw [free] at holder
    contradiction
  | inr none =>
    refine none process ?_
    rw [(sleepers.sleeping process sleeping).1, chan]

theorem wakeupTest_act {wakeup : Wakeup procs}
    (here : (state.cpu cpu).code.point = some (.wakeupTest wakeup process)) (ok : Bool) :
    ∃ effect, act state (.run cpu ok) = some effect ∧ effect.write = wakeupWrite state wakeup process := by
  simp only [act, codeStep]
  generalize (state.cpu cpu).code = code at here
  cases code with
  | scheduler => contradiction
  | handler number pc => cases pc <;> cases here; exact ⟨_, rfl, rfl⟩
  | thread self thread =>
    cases thread with
    | run pc => cases pc <;> cases here; exact ⟨_, rfl, rfl⟩
    | _ => contradiction

/-- A `wakeup` reaches every process that slept on its channel when it was called, and nobody
sleeps on a sleep lock that is free. -/
theorem no_lost_wakeup (reachable : Reachable (machine cpus procs) state) :
    -- A process counts as asleep until it is made RUNNABLE, from before it gives up its lock.
    (∀ process, (state.proc process).state = .sleeping →
      (state.proc process).asleep = (state.proc process).chan) ∧
    (∀ process chan, (state.proc process).asleep = some chan →
      (state.proc process).since < state.clock) ∧
    -- `wakeup` finds it SLEEPING and leaves it RUNNABLE.
    (∀ cpu wakeup process chan, (state.cpu cpu).code.point = some (.wakeupTest wakeup process) →
      wakeup.chan = some chan → (state.proc process).asleep = some chan →
      ((state.proc process).state = .sleeping ∧ (state.proc process).chan = some chan) ∧
      ∀ ok, ∃ effect, act state (.run cpu ok) = some effect ∧
        ((apply state cpu effect).proc process).state = .runnable) ∧
    -- Who is still asleep when `wakeup` returns fell asleep after it was called.
    (∀ cpu wakeup index process chan, (state.cpu cpu).code.point = some (.wakeup wakeup index) →
      procs ≤ index → wakeup.chan = some chan → (state.proc process).asleep = some chan →
      wakeup.clock ≤ (state.proc process).since) ∧
    (∀ sleeplock, state.spin (.inner sleeplock) = none → (state.sleeplock sleeplock).locked = false →
      ∀ process, ¬((state.proc process).state = .sleeping ∧
        (state.proc process).chan = some (.sleeplock sleeplock))) ∧
    ∀ sleeplock process other, state.keeps sleeplock process = true →
      state.keeps sleeplock other = true → process = other := by
  obtain ⟨base, sleepers, locks⟩ := reachable_sleepers reachable
  refine ⟨fun process sleeping => (sleepers.sleeping process sleeping).1, sleepers.since, ?_, ?_, ?_, ?_⟩
  · intro cpu wakeup process chan here on asleep
    have found := sleepers.found base here asleep
    refine ⟨found, fun ok => ?_⟩
    obtain ⟨effect, acted, write⟩ := wakeupTest_act here ok
    refine ⟨effect, acted, ?_⟩
    obtain ⟨_, _, same⟩ | ⟨awake, _⟩ := wakeupWrite_cases state wakeup process
    · rw [apply_proc_self (write.trans same)]
      rfl
    · exact absurd ⟨found.1, found.2.trans on.symm⟩ awake
  · intro cpu wakeup index process chan here outside on asleep
    exact sleepers.passed _ wakeup index chan process (.of_point here) rfl on
      (Nat.lt_of_lt_of_le process.isLt outside) asleep
  · intro sleeplock free unlocked process both
    exact locks.none_sleeping base sleepers free unlocked both.1 both.2
  · intro sleeplock process other keeps also
    exact locks.single sleeplock process other (.inl keeps) (.inl also)

/-- A process sleeps, and an interrupt on another CPU wakes it up. -/
def sleepAndInterrupt : List (Event 2 1) :=
  [.run 0 true, .run 0 true, .run 0 true, .run 0 true, .run 0 true, .call 0 (.lock 0), .run 0 true,
    .call 0 (.sleep 0), .run 0 true, .run 0 true, .interrupt 1 0 (.other 0), .run 0 true, .run 1 true,
    .run 0 true, .run 1 true, .run 1 true, .run 0 true, .run 0 true, .run 0 true, .run 1 true]

theorem no_lost_wakeup_interrupt : ∃ state : State 2 1, Reachable (machine 2 1) state ∧
    (state.cpu 1).code.point = some (.wakeupTest ⟨some (.other 0), .handler 0, 1⟩ 0) ∧
    (state.proc 0).state = .sleeping := by
  have ran : ((machine 2 1).execute (boot 0) sleepAndInterrupt).map
      (fun state => ((state.cpu 1).code.point, (state.proc 0).asleep)) =
      some (some (.wakeupTest ⟨some (.other 0), .handler 0, 1⟩ 0), some (.other 0)) := by
    decide +kernel
  obtain ⟨state, executed, facts⟩ := Option.map_eq_some_iff.mp ran
  have reached : Reachable (machine 2 1) state := .of_execute (initial_boot 0) executed
  have here := congrArg Prod.fst facts
  have found := (no_lost_wakeup reached).2.2.1 1 _ 0 _ here rfl (congrArg Prod.snd facts)
  exact ⟨state, reached, here, found.1.1⟩

end Xv6.Sched
