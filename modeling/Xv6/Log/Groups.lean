import Xv6.Log.ProtocolSafety

namespace Xv6.Log.Protocol

open Xv6.Transition

variable {count : Nat}

/-! ## What a step does to the log -/

/-- From the reset of `lh.n` in `commit` to clearing `log.committing`. -/
def Pc.emptied : Pc → Bool
  | .commitErase | .doneAcquire | .doneBody => true
  | _ => false

/-- Only `begin_op`'s admission, the body of `log_write` and `commit`'s reset of
`lh.n` change the log and the record kept of it. -/
inductive Effect (size : Nat) (before : State count) (event : Event count) :
    State count → Prop where
  | idle {lock : Option (Fin count)} {outstanding : Int} {committing : Bool} {pc : Fin count → Pc}
      {state : Fin count → ProcState} {chan : Fin count → Option Channel} {panic : Option Panic}
      (inOp : ∀ other, (pc other).inOp = true → (before.pc other).inOp = true)
      (emptied : ∀ other, (pc other).emptied = true →
        (before.pc other).emptied = true ∨ before.lh = [])
      (resting : committing = false → outstanding = 0 →
        (∃ other, (before.pc other).emptied = true) ∨
          before.committing = false ∧ before.outstanding = 0)
      (calm : panic ≠ some .tooBig) : Effect size before event
        { before with lock, outstanding, committing, pc, state, chan, panic }
  | stop (process : Fin count) (block : Nat) (place : before.pc process = .writeBody block)
      (big : tooBig size before.lh) : Effect size before event (before.stop .tooBig)
  | enter (process : Fin count) (place : before.pc process = .beginTest)
      (free : before.committing = false) (room : ¬ before.full) :
      Effect size before event { before.release process .operating with
        outstanding := before.outstanding + 1
        admitted := before.admitted + 1
        operation := Function.update before.operation process before.admitted
        blocks := Function.update before.blocks process [] }
  | logWrite (process : Fin count) (block : Nat) (now : event = .step process)
      (place : before.pc process = .writeBody block) (fits : ¬ tooBig size before.lh) :
      Effect size before event { before.release process .operating with
        lh := absorb block before.lh
        blocks := Function.update before.blocks process (absorb block (before.blocks process))
        written := before.written ++ [⟨before.operation process, block, before.epoch⟩] }
  | clear (process : Fin count) (place : before.pc process = .commitClear) :
      Effect size before event { before.goto process .commitErase with
        lh := []
        epoch := before.epoch + 1 }

variable {state : State count} {process : Fin count} {pc : Pc}

theorem inOp_of_update {other : Fin count} (mine : pc.inOp = true → (state.pc process).inOp = true)
    (inOp : (Function.update state.pc process pc other).inOp = true) :
    (state.pc other).inOp = true := by
  by_cases same : other = process
  · subst same
    rw [Function.update_self] at inOp
    exact mine inOp
  · rwa [Function.update_of_ne same] at inOp

theorem emptied_of_update {other : Fin count} {otherwise : Prop}
    (mine : pc.emptied = true → (state.pc process).emptied = true ∨ otherwise)
    (emptied : (Function.update state.pc process pc other).emptied = true) :
    (state.pc other).emptied = true ∨ otherwise := by
  by_cases same : other = process
  · subst same
    rw [Function.update_self] at emptied
    exact mine emptied
  · rw [Function.update_of_ne same] at emptied
    exact .inl emptied

variable {size : Nat} {before after : State count} {event : Event count}

theorem Effect.move {lock : Option (Fin count)} {state : Fin count → ProcState}
    {chan : Fin count → Option Channel} (process : Fin count) (pc : Pc) (quiet : before.panic = none)
    (inOp : pc.inOp = true → (before.pc process).inOp = true)
    (emptied : pc.emptied = true → (before.pc process).emptied = true ∨ before.lh = []) :
    Effect size before event
      { before with pc := Function.update before.pc process pc, lock, state, chan } :=
  .idle (fun _ => inOp_of_update inOp) (fun _ => emptied_of_update emptied)
    (fun free none => .inr ⟨free, none⟩) (by simp [quiet])

/-- A step to a place outside operations and commits. -/
theorem Effect.leave {lock : Option (Fin count)} {state : Fin count → ProcState}
    {chan : Fin count → Option Channel} (process : Fin count) (pc : Pc) (quiet : before.panic = none)
    (inOp : pc.inOp = false) (emptied : pc.emptied = false) : Effect size before event
      { before with pc := Function.update before.pc process pc, lock, state, chan } :=
  .move process pc quiet (by simp [inOp]) (by simp [emptied])

theorem Effect.acquire (quiet : before.panic = none)
    (inOp : pc.inOp = true → (before.pc process).inOp = true)
    (emptied : pc.emptied = true → (before.pc process).emptied = true ∨ before.lh = [])
    (acquired : before.acquire process pc = some after) : Effect size before event after := by
  unfold State.acquire at acquired
  split at acquired <;> cases acquired
  exact .move process pc quiet inOp emptied

theorem Effect.wake {index : Nat} {next done : Pc} (quiet : before.panic = none)
    (nextKind : next.inOp = false ∧ next.emptied = false)
    (doneKind : done.inOp = false ∧ done.emptied = false)
    (woken : before.wake process index next done = some after) :
    Effect size before event after := by
  unfold State.wake at woken
  split at woken <;> cases woken
  · exact .leave process done quiet doneKind.1 doneKind.2
  all_goals exact .leave process next quiet nextKind.1 nextKind.2

theorem stepProcess_effect (quiet : before.panic = none)
    (stepped : stepProcess size before process = some after) :
    Effect size before (.step process) after := by
  unfold stepProcess at stepped
  generalize place : before.pc process = pc at stepped
  cases pc with
  | outside | asleep | operating => cases stepped
  | beginAcquire | sleepReacquire | writeAcquire block | endAcquire | doneAcquire =>
    exact .acquire quiet (by simp [place, Pc.inOp]) (by simp [place, Pc.emptied]) stepped
  | beginTest =>
    simp only at stepped
    split at stepped
    · cases stepped
      exact .leave process _ quiet rfl rfl
    split at stepped <;> cases stepped
    · exact .leave process _ quiet rfl rfl
    · exact .enter process place (by simpa using ‹¬ before.committing = true›) ‹_›
  | sleepAcquire | sleepSched | commitErase =>
    cases stepped
    exact .move process _ quiet (by simp [Pc.inOp]) (by simp [place, Pc.emptied])
  | sleepRelease | doneRelease =>
    cases stepped
    exact .leave process _ quiet rfl rfl
  | sleepMark =>
    cases stepped
    exact .leave process .sleepSched quiet rfl rfl
  | sleepReturn =>
    cases stepped
    exact .leave process .sleepReacquire quiet rfl rfl
  | writeBody block =>
    simp only at stepped
    split at stepped
    · cases stepped
      exact .stop process block place ‹_›
    split at stepped <;> cases stepped
    · exact .idle (fun _ => id) (fun _ => .inl)
        (fun free none => .inr ⟨free, none⟩) (by simp)
    · exact .logWrite process block rfl place ‹_›
  | endBody =>
    simp only at stepped
    split at stepped
    · cases stepped
      exact .idle (fun _ => id) (fun _ => .inl)
        (by simp [*]) (by simp)
    split at stepped <;> cases stepped
    · exact .idle (fun _ => inOp_of_update (by simp [Pc.inOp]))
        (fun _ => emptied_of_update (by simp [Pc.emptied])) (by simp)
        (by simp [State.goto, quiet])
    · exact .idle (fun _ => inOp_of_update (by simp [Pc.inOp]))
        (fun _ => emptied_of_update (by simp [Pc.emptied]))
        (fun _ none => absurd none ‹_›) (by simp [State.goto, quiet])
  | endWake index | doneWake index =>
    exact .wake quiet ⟨rfl, rfl⟩ ⟨rfl, rfl⟩ stepped
  | endRelease doCommit =>
    cases stepped
    exact .move process _ quiet (by cases doCommit <;> simp [Pc.inOp])
      (by cases doCommit <;> simp [Pc.emptied])
  | commitInstall =>
    simp only at stepped
    split at stepped <;> cases stepped
    · exact .leave process _ quiet rfl rfl
    · rename_i nothing
      exact .move process _ quiet (by simp [Pc.inOp]) fun _ => .inr (by simpa using nothing)
  | commitClear =>
    cases stepped
    exact .clear process place
  | doneBody =>
    cases stepped
    exact .idle (fun _ => inOp_of_update (by simp [Pc.inOp]))
      (fun _ => emptied_of_update (by simp [Pc.emptied]))
      (fun _ _ => .inl ⟨process, by rw [place]; rfl⟩) (by simp [State.goto, quiet])

theorem step_quiet (stepped : step size before event = some after) : before.panic = none := by
  unfold step at stepped
  split at stepped
  · contradiction
  · simpa using ‹¬ before.panic.isSome = true›

theorem step_effect (stepped : step size before event = some after) :
    Effect size before event after := by
  have quiet := step_quiet stepped
  unfold step at stepped
  rw [if_neg (by simp [quiet])] at stepped
  cases event with
  | beginOp process | logWrite process block | endOp process =>
    simp only at stepped
    split at stepped <;> cases stepped
    rename_i place
    exact .move process _ quiet (by simp [place, Pc.inOp]) (by simp [Pc.emptied])
  | step process => exact stepProcess_effect quiet stepped
  | schedule process =>
    simp only at stepped
    split at stepped <;> cases stepped
    exact .leave process .sleepReturn quiet rfl rfl
  | kill process =>
    simp only at stepped
    split at stepped <;> cases stepped
    exact .idle (fun _ => id) (fun _ => .inl)
      (fun free none => .inr ⟨free, none⟩) (by simp [quiet])

/-! ## Groups -/

/-- Every operation logs into one group, and `lh` is the current group. -/
structure Grouped (state : State count) : Prop where
  logged : ∀ block, block ∈ state.lh ↔
    ∃ entry ∈ state.written, entry.epoch = state.epoch ∧ entry.block = block
  past : ∀ entry ∈ state.written, entry.operation < state.admitted ∧ entry.epoch ≤ state.epoch
  current : ∀ process, (state.pc process).inOp = true →
    state.operation process < state.admitted ∧
      ∀ entry ∈ state.written, entry.operation = state.operation process →
        entry.epoch = state.epoch
  together : ∀ first ∈ state.written, ∀ second ∈ state.written,
    first.operation = second.operation → first.epoch = second.epoch

theorem Grouped.effect {committer : Option (Fin count)} (grouped : Grouped before)
    (invariant : Invariant before committer) (effect : Effect size before event after) :
    Grouped after := by
  cases effect with
  | idle inOp _ _ _ =>
    exact ⟨grouped.logged, grouped.past,
      fun process inside => grouped.current process (inOp process inside), grouped.together⟩
  | stop process block place big =>
    exact ⟨grouped.logged, grouped.past, grouped.current, grouped.together⟩
  | enter process place free room =>
    refine ⟨grouped.logged, ?_, ?_, grouped.together⟩
    · intro entry member
      have known := grouped.past entry member
      exact ⟨Nat.lt_succ_of_lt known.1, known.2⟩
    · intro other inside
      by_cases same : other = process
      · subst same
        refine ⟨by simp, ?_⟩
        intro entry member sameOperation
        have known := (grouped.past entry member).1
        simp only [Function.update_self] at sameOperation
        omega
      · have known := grouped.current other
          (by simpa [State.release, State.goto, same] using inside)
        simp only [Function.update_of_ne same]
        exact ⟨Nat.lt_succ_of_lt known.1, known.2⟩
  | logWrite process block _ place fits =>
    have mine := grouped.current process (by rw [place]; rfl)
    refine ⟨?_, ?_, ?_, ?_⟩
    · intro other
      simp only [mem_absorb, grouped.logged, State.release, State.goto, List.mem_append,
        List.mem_singleton]
      constructor
      · rintro (rfl | ⟨entry, member, facts⟩)
        · exact ⟨_, .inr rfl, rfl, rfl⟩
        · exact ⟨entry, .inl member, facts⟩
      · rintro ⟨entry, member | rfl, facts⟩
        · exact .inr ⟨entry, member, facts⟩
        · exact .inl facts.2.symm
    · intro entry member
      rcases List.mem_append.mp member with old | new
      · exact grouped.past entry old
      · rw [List.mem_singleton.mp new]
        exact ⟨mine.1, Nat.le_refl _⟩
    · intro other inside
      have inOp : (before.pc other).inOp = true :=
        inOp_of_update (fun _ => by rw [place]; rfl) inside
      refine ⟨(grouped.current other inOp).1, ?_⟩
      intro entry member sameOperation
      rcases List.mem_append.mp member with old | new
      · exact (grouped.current other inOp).2 entry old sameOperation
      · rw [List.mem_singleton.mp new]
        rfl
    · intro first firstMember second secondMember same
      rcases List.mem_append.mp firstMember with firstOld | firstNew <;>
        rcases List.mem_append.mp secondMember with secondOld | secondNew
      · exact grouped.together first firstOld second secondOld same
      · cases List.mem_singleton.mp secondNew
        exact mine.2 first firstOld same
      · cases List.mem_singleton.mp firstNew
        exact (mine.2 second secondOld same.symm).symm
      · rw [List.mem_singleton.mp firstNew, List.mem_singleton.mp secondNew]
  | clear process place =>
    have nobody := (invariant.commit_alone (by rw [place]; rfl)).2.2
    refine ⟨?_, ?_, ?_, grouped.together⟩
    · intro block
      simp only [List.not_mem_nil, false_iff]
      rintro ⟨entry, member, sameEpoch, -⟩
      have known := (grouped.past entry member).2
      change entry.epoch = before.epoch + 1 at sameEpoch
      omega
    · intro entry member
      have known := grouped.past entry member
      exact ⟨known.1, Nat.le_succ_of_le known.2⟩
    · intro other inside
      have inOp : (before.pc other).inOp = true := inOp_of_update (by simp [Pc.inOp]) inside
      rw [nobody other] at inOp
      contradiction

theorem reachable_grouped (reachable : Reachable (machine count size) state) : Grouped state := by
  have initially : ∀ state, (machine count size).initial state →
      (∃ committer, Invariant state committer) ∧ Grouped state := by
    rintro _ rfl
    exact ⟨⟨none, start_invariant count⟩, by simp [start], by simp [start],
      by simp [start, Pc.inOp], by simp [start]⟩
  refine (reachable.invariant initially ?_).2
  rintro before event after ⟨⟨committer, invariant⟩, grouped⟩ stepped
  exact ⟨step_invariant ⟨committer, invariant⟩ stepped,
    grouped.effect invariant (step_effect stepped)⟩

/-! ## The protocol -/

theorem Invariant.sleeper_waits {committer : Option (Fin count)}
    (invariant : Invariant state committer) (free : state.lock = none)
    (sleeps : state.sleepsOnLog process) : state.Waiting := by
  have facts := invariant.everyone process
  have drowsy : state.Drowsy process := by
    rcases facts.sleeping sleeps.1 with sched | asleep
    · exact ⟨by rw [sched]; rfl, fun _ => sleeps.1⟩
    · exact ⟨by rw [asleep]; rfl, fun _ => sleeps.1⟩
  refine (facts.waits drowsy).resolve_right ?_
  rintro ⟨waker, index, taken, -⟩
  rw [free] at taken
  contradiction

/-- In every interleaving: a commit runs alone, with nothing outstanding and no
`log_write` in progress; an operation's blocks share one commit, and `lh` holds
those of the next; and with `log.lock` free nobody sleeps who could be admitted. -/
theorem commit_protocol (reachable : Reachable (machine count size) state) :
    (∀ process, (state.pc process).inCommit = true →
      state.outstanding = 0 ∧ ∀ other, (state.pc other).inOp = false) ∧
    (∀ first second, (state.pc first).inCommit = true → (state.pc second).inCommit = true →
      first = second) ∧
    (∀ process other, (state.pc process).inCommit = true →
      (state.pc other).inLogWrite = false) ∧
    state.panic ≠ some .logCommitting ∧
    (∀ first ∈ state.written, ∀ second ∈ state.written,
      first.operation = second.operation → first.epoch = second.epoch) ∧
    (∀ block, block ∈ state.lh ↔
      ∃ entry ∈ state.written, entry.epoch = state.epoch ∧ entry.block = block) ∧
    (state.lock = none → ∀ process, state.sleepsOnLog process →
      ¬ (state.committing = false ∧
        (state.lh.length : Int) + (state.outstanding + 1) * MAXOPBLOCKS ≤ LOGSIZE)) := by
  obtain ⟨committer, invariant⟩ := reachable_invariant reachable
  have grouped := reachable_grouped reachable
  refine ⟨?_, ?_, ?_, ?_, grouped.together, grouped.logged, ?_⟩
  · intro process inCommit
    exact (invariant.commit_alone inCommit).2
  · intro first second firstCommit secondCommit
    have left := (invariant.commit_alone firstCommit).1
    have right := (invariant.commit_alone secondCommit).1
    exact Option.some.inj (left.symm.trans right)
  · intro process other inCommit
    have outside := (invariant.commit_alone inCommit).2.2 other
    cases place : state.pc other <;> simp_all [Pc.inOp, Pc.inLogWrite]
  · rcases invariant.calm with none | tooBig
    · simp [none]
    · simp [tooBig]
  · rintro free process sleeps ⟨quiet, room⟩
    rcases invariant.sleeper_waits free sleeps with committing | full
    · rw [quiet] at committing
      contradiction
    · unfold State.full at full
      omega

/-- One process commits block 7 while the other sleeps in `begin_op`. -/
theorem commit_protocol_with_sleeper :
    ∃ state : State 2, Reachable (machine 2 LOGSIZE) state ∧ state.pc 0 = .commitInstall ∧
      state.sleepsOnLog 1 ∧ state.lock = none ∧ state.lh = [7] ∧ state.outstanding = 0 ∧
      (∀ other, (state.pc other).inOp = false) ∧
      ¬ (state.committing = false ∧
        (state.lh.length : Int) + (state.outstanding + 1) * MAXOPBLOCKS ≤ LOGSIZE) := by
  have run : ∃ state : State 2, (machine 2 LOGSIZE).execute (start 2)
      [.beginOp 0, .step 0, .step 0, .logWrite 0 7, .step 0, .step 0, .endOp 0, .step 0, .step 0,
        .step 0, .beginOp 1, .step 1, .step 1, .step 1, .step 1, .step 1, .step 1] = some state ∧
      state.pc 0 = .commitInstall ∧ state.sleepsOnLog 1 ∧ state.lock = none ∧ state.lh = [7] :=
    ⟨_, rfl, rfl, ⟨rfl, rfl⟩, rfl, rfl⟩
  obtain ⟨state, executed, place, sleeps, free, logged⟩ := run
  have reachable : Reachable (machine 2 LOGSIZE) state := Reachable.of_execute rfl executed
  obtain ⟨alone, -, -, -, -, -, awake⟩ := commit_protocol reachable
  obtain ⟨outstanding, nobody⟩ := alone 0 (by rw [place]; rfl)
  exact ⟨state, reachable, place, sleeps, free, logged, outstanding, nobody, awake free 1 sleeps⟩

end Xv6.Log.Protocol
