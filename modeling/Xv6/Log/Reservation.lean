import Mathlib.Algebra.BigOperators.Group.Finset.Basic
import Mathlib.Algebra.Group.Action.Defs
import Mathlib.Algebra.Order.BigOperators.Group.Finset
import Xv6.Log.Groups

namespace Xv6.Log.Protocol

open Xv6.Transition

variable {count : Nat}

/-! # Log space

How many blocks the operations admitted by `begin_op` can put in the log.
-/

def Pc.writing : Pc → Option Nat
  | .writeBody block => some block
  | _ => none

/-- The body of `log_write` runs only for operations that, this block included,
have logged at most `budget` different blocks. -/
def withinBudget (budget : Nat) (state : State count) : Event count → Prop
  | .step process => ∀ block ∈ (state.pc process).writing,
      (absorb block (state.blocks process)).length ≤ budget
  | _ => True

instance (budget : Nat) (state : State count) :
    (event : Event count) → Decidable (withinBudget budget state event)
  | .step process => inferInstanceAs (Decidable (∀ block ∈ (state.pc process).writing,
      (absorb block (state.blocks process)).length ≤ budget))
  | .beginOp _ | .logWrite _ _ | .endOp _ | .schedule _ | .kill _ => .isTrue trivial

/-! ## The log is empty between groups -/

structure Drained (state : State count) : Prop where
  emptied : ∀ process, (state.pc process).emptied = true → state.lh = []
  resting : state.committing = false → state.outstanding = 0 → state.lh = []

variable {size : Nat}

theorem Drained.effect {before after : State count} {event : Event count}
    {committer : Option (Fin count)} (drained : Drained before)
    (invariant : Invariant before committer) (effect : Effect size before event after) :
    Drained after := by
  have counted := invariant.outstanding
  have earlier : ∀ {process other : Fin count},
      (Function.update before.pc process .operating other).emptied = true →
        (before.pc other).emptied = true := by
    intro process other done
    have either : (before.pc other).emptied = true ∨ False :=
      emptied_of_update (by simp [Pc.emptied]) done
    exact either.resolve_right id
  cases effect with
  | idle _ emptied resting _ =>
    refine ⟨fun process done => (emptied process done).elim (drained.emptied process) id, ?_⟩
    intro free none
    rcases resting free none with ⟨other, done⟩ | ⟨free, none⟩
    · exact drained.emptied other done
    · exact drained.resting free none
  | stop process block place big => exact ⟨drained.emptied, drained.resting⟩
  | enter process place free room =>
    refine ⟨fun other done => drained.emptied other (earlier done), ?_⟩
    intro _ none
    change before.outstanding + 1 = 0 at none
    omega
  | logWrite process block _ place fits =>
    have inside : (before.pc process).inOp = true := by rw [place]; rfl
    refine ⟨?_, ?_⟩
    · intro other done
      have marks : (before.pc other).marksCommitting = true := by
        have done := earlier done
        cases site : before.pc other <;> simp_all [Pc.emptied, Pc.marksCommitting]
      have quiet := (invariant.everyone process).quiet inside
      rw [invariant.committing, (invariant.everyone other).commit.mp marks] at quiet
      contradiction
    · intro _ none
      have positive := Finset.card_pos.mpr ⟨process, mem_operations.mpr inside⟩
      change before.outstanding = 0 at none
      omega
  | clear process place => exact ⟨fun _ _ => rfl, fun _ _ => rfl⟩

/-! ## What the admitted operations may still log -/

structure Account (budget : Nat) (state : State count) : Prop where
  used : ∀ process, (state.pc process).inOp = true → (state.blocks process).length ≤ budget ∧
    ∀ block ∈ state.blocks process, block ∈ state.lh
  reserved : state.lh.length + ∑ process ∈ state.operations,
      (budget - (state.blocks process).length) + 2 * (MAXOPBLOCKS - budget) ≤ LOGSIZE

theorem absorb_subset {block : Nat} {few many : List Nat} (subset : ∀ member ∈ few, member ∈ many) :
    ∀ member ∈ absorb block few, member ∈ absorb block many := by
  intro member
  rw [mem_absorb, mem_absorb]
  exact Or.imp_right (subset member)

theorem absorb_length_growth (block : Nat) {few many : List Nat}
    (subset : ∀ member ∈ few, member ∈ many) :
    (absorb block many).length + few.length ≤ (absorb block few).length + many.length := by
  rw [absorb_eq, absorb_eq]
  split <;> split
  · omega
  · simp
    omega
  · rename_i fresh present
    exact absurd (subset block present) fresh
  · simp
    omega

variable {budget : Nat}

/-- With a second operation admitted, every one of them leaves slack in its
`MAXOPBLOCKS`. -/
theorem reserve_bound {others logged : Nat} (small : budget ≤ MAXOPBLOCKS) (several : 1 ≤ others)
    (room : logged + (others + 1) * MAXOPBLOCKS ≤ LOGSIZE) :
    logged + (others + 1) * budget + 2 * (MAXOPBLOCKS - budget) ≤ LOGSIZE := by
  obtain ⟨slack, exact⟩ := Nat.exists_eq_add_of_le small
  have least : 2 * slack ≤ (others + 1) * slack := Nat.mul_le_mul_right slack (by omega)
  rw [exact, Nat.mul_add] at room
  have left : MAXOPBLOCKS - budget = slack := by omega
  rw [left]
  omega

theorem Account.effect {before after : State count} {event : Event count}
    {committer : Option (Fin count)} (small : budget ≤ MAXOPBLOCKS)
    (account : Account budget before) (invariant : Invariant before committer)
    (drained : Drained before) (within : withinBudget budget before event)
    (effect : Effect size before event after) :
    Account budget after := by
  cases effect with
  | idle inOp _ _ _ =>
    refine ⟨fun process inside => account.used process (inOp process inside), ?_⟩
    refine le_trans (Nat.add_le_add_right (Nat.add_le_add_left ?_ _) _) account.reserved
    refine Finset.sum_le_sum_of_subset fun process member => ?_
    exact mem_operations.mpr (inOp process (mem_operations.mp member))
  | stop process block place big => exact ⟨account.used, account.reserved⟩
  | enter process place free room =>
    have outside : (before.pc process).inOp = false := by rw [place]; rfl
    refine ⟨?_, ?_⟩
    · intro other inside
      by_cases same : other = process
      · subst same
        simp
      · simp only [State.release, State.goto, Function.update_of_ne same] at inside ⊢
        exact account.used other inside
    · have counted := invariant.outstanding
      -- Nobody can claim more than the whole budget.
      have claimed := Finset.sum_le_card_nsmul (before.goto process .operating).operations
        (fun other => budget - (Function.update before.blocks process [] other).length) budget
        fun _ _ => Nat.sub_le _ _
      rw [card_operations_enter outside, smul_eq_mul] at claimed
      change before.lh.length + ∑ other ∈ (before.goto process .operating).operations,
        (budget - (Function.update before.blocks process [] other).length) +
          2 * (MAXOPBLOCKS - budget) ≤ LOGSIZE
      refine le_trans (Nat.add_le_add_right (Nat.add_le_add_left claimed _) _) ?_
      unfold State.full at room
      rw [counted] at room
      by_cases alone : before.operations.card = 0
      · have empty := drained.resting free (by omega)
        simp only [empty, alone, MAXOPBLOCKS, LOGSIZE, List.length_nil] at small ⊢
        omega
      · exact reserve_bound small (by omega) (by exact_mod_cast Int.not_lt.mp room)
  | logWrite process block now place fits =>
    have inside : (before.pc process).inOp = true := by rw [place]; rfl
    obtain ⟨few, subset⟩ := account.used process inside
    have budgeted : (absorb block (before.blocks process)).length ≤ budget := by
      subst now
      exact within block (by rw [place]; rfl)
    have same : (before.goto process .operating).operations = before.operations :=
      operations_goto_same (by rw [place]; rfl)
    refine ⟨?_, ?_⟩
    · intro other active
      by_cases equal : other = process
      · subst equal
        simp only [Function.update_self]
        exact ⟨budgeted, absorb_subset subset⟩
      · have known := account.used other
          (by simpa [State.release, State.goto, equal] using active)
        simp only [Function.update_of_ne equal]
        exact ⟨known.1, fun member here => mem_absorb.mpr (.inr (known.2 member here))⟩
    · change (absorb block before.lh).length +
        ∑ other ∈ (before.goto process .operating).operations,
          (budget - (Function.update before.blocks process
            (absorb block (before.blocks process)) other).length) +
          2 * (MAXOPBLOCKS - budget) ≤ LOGSIZE
      have growth := absorb_length_growth block subset
      have reserved := account.reserved
      have member : process ∈ before.operations := mem_operations.mpr inside
      rw [← Finset.add_sum_erase _ _ member] at reserved
      rw [same, ← Finset.add_sum_erase _ _ member, Function.update_self,
        Finset.sum_congr rfl fun other known => by
          rw [Function.update_of_ne (Finset.ne_of_mem_erase known)]]
      omega
  | clear process place =>
    have nobody := (invariant.commit_alone (by rw [place]; rfl)).2.2
    have finished : ∀ other, ((before.goto process .commitErase).pc other).inOp ≠ true := by
      intro other active
      have earlier := inOp_of_update (by simp [Pc.inOp]) active
      rw [nobody other] at earlier
      contradiction
    refine ⟨fun other active => absurd active (finished other), ?_⟩
    · have empty : (before.goto process .commitErase).operations = ∅ := by
        ext other
        simp [finished other]
      change [].length + ∑ other ∈ (before.goto process .commitErase).operations,
        (budget - (before.blocks other).length) + 2 * (MAXOPBLOCKS - budget) ≤ LOGSIZE
      rw [empty, Finset.sum_empty]
      simp only [MAXOPBLOCKS, LOGSIZE, List.length_nil]
      omega

variable {history : List (Event count)} {state : State count}

theorem run_account (small : budget ≤ MAXOPBLOCKS)
    (run : Run (machine count size) (withinBudget budget) history state) :
    Account budget state := by
  have initially : ∀ state, (machine count size).initial state →
      (∃ committer, Invariant state committer) ∧ Drained state ∧ Account budget state := by
    rintro _ rfl
    refine ⟨⟨none, start_invariant count⟩, ⟨fun _ _ => rfl, fun _ _ => rfl⟩,
      by simp [start, Pc.inOp], ?_⟩
    rw [operations_start, Finset.sum_empty]
    simp only [start, MAXOPBLOCKS, LOGSIZE, List.length_nil]
    omega
  refine (run.invariant initially ?_).2.2
  rintro before event after ⟨⟨committer, invariant⟩, drained, account⟩ within stepped
  have effect := step_effect stepped
  exact ⟨step_invariant ⟨committer, invariant⟩ stepped, drained.effect invariant effect,
    account.effect small invariant drained within effect⟩

/-- On the log that `mkfs` makes, operations that log at most `MAXOPBLOCKS - 1` blocks
never find it full. -/
theorem log_write_fits
    (run : Run (machine count LOGSIZE) (withinBudget (MAXOPBLOCKS - 1)) history state) :
    state.panic ≠ some .tooBig ∧ ∀ process block, state.pc process = .writeBody block →
      state.lh.length < LOGSIZE ∧ state.lh.length < LOGSIZE - 1 := by
  have fits : ∀ {history : List (Event count)} {state : State count},
      Run (machine count LOGSIZE) (withinBudget (MAXOPBLOCKS - 1)) history state →
        state.lh.length < LOGSIZE - 1 := by
    intro history state run
    have reserved := (run_account (Nat.sub_le _ _) run).reserved
    simp only [MAXOPBLOCKS, LOGSIZE] at reserved ⊢
    omega
  refine ⟨?_, fun _ _ _ => ⟨Nat.lt_of_lt_of_le (fits run) (Nat.sub_le _ _), fits run⟩⟩
  cases run with
  | start initial =>
    cases initial
    simp [start]
  | next earlier within stepped =>
    have room := fits earlier
    have quiet := step_quiet stepped
    cases step_effect stepped with
    | idle _ _ _ calm => exact calm
    | stop process block place big =>
      simp only [tooBig, LOGSIZE, MAXOPBLOCKS] at big room
      omega
    | enter | logWrite | clear => simp [State.release, State.goto, quiet]

/-- Two operations in one group, the second about to log the third block. -/
theorem log_write_fits_two_operations : ∃ history, ∃ state : State 2,
      Run (machine 2 LOGSIZE) (withinBudget (MAXOPBLOCKS - 1)) history state ∧
      state.pc 1 = .writeBody 6 ∧ state.lh = [4, 5] ∧ state.panic ≠ some .tooBig ∧
      state.lh.length < LOGSIZE - 1 := by
  let events : List (Event 2) := [.beginOp 0, .step 0, .step 0, .beginOp 1, .step 1, .step 1,
    .logWrite 0 4, .step 0, .step 0, .logWrite 0 5, .step 0, .step 0, .logWrite 1 6, .step 1]
  have run : ((machine 2 LOGSIZE).guarded (withinBudget (MAXOPBLOCKS - 1)) (start 2) events).map
      (fun state => (state.pc 1, state.lh)) = some (.writeBody 6, [4, 5]) := by decide +kernel
  obtain ⟨state, executed, facts⟩ := Option.map_eq_some_iff.mp run
  obtain ⟨place, logged⟩ := Prod.mk.inj facts
  have started : Run (machine 2 LOGSIZE) (withinBudget (MAXOPBLOCKS - 1)) [] (start 2) := .start rfl
  have reached := started.guarded executed
  obtain ⟨calm, fits⟩ := log_write_fits reached
  exact ⟨_, state, reached, place, logged, calm, (fits 1 6 place).2⟩

/-! ## Filling the log -/

/-- The calls of `log_write` of one operation. -/
def logWrites (process : Fin count) (blocks : List Nat) : List (Event count) :=
  blocks.flatMap fun block => [.logWrite process block, .step process, .step process]

def threeOperations : List (Event 3) :=
  [.beginOp 0, .step 0, .step 0, .beginOp 1, .step 1, .step 1, .beginOp 2, .step 2, .step 2] ++
    (logWrites 0 (List.range' 0 10) ++ logWrites 1 (List.range' 10 10) ++
      logWrites 2 (List.range' 20 10))

/-- Three operations of `MAXOPBLOCKS` different blocks each are admitted together, and
the thirtieth block does not fit. -/
theorem log_write_panics : ∃ history, ∃ state : State 3,
      Run (machine 3 LOGSIZE) (withinBudget MAXOPBLOCKS) history state ∧
      state.panic = some .tooBig := by
  have run : ((machine 3 LOGSIZE).guarded (withinBudget MAXOPBLOCKS) (start 3)
      threeOperations).map (fun state => state.panic) = some (some .tooBig) := by decide +kernel
  obtain ⟨state, executed, panicked⟩ := Option.map_eq_some_iff.mp run
  have started : Run (machine 3 LOGSIZE) (withinBudget MAXOPBLOCKS) [] (start 3) := .start rfl
  exact ⟨_, state, started.guarded executed, panicked⟩

end Xv6.Log.Protocol
