import Mathlib.Init

namespace Xv6.Transition

/-! Runs of an event-driven machine.

A machine says where it may start and what an event does to a state; `none`
means that the event cannot happen there.  Everything nondeterministic (who
moves next, when power fails, what an allocator returns) is part of the event,
so a step function is executable and a run is the list of its events.
-/

structure Machine (State Event : Type) where
  initial : State → Prop
  step : State → Event → Option State

variable {State Event : Type}

/-- The machine reaches a state by a history (newest event first) each of whose
events was allowed in the state it happened in. -/
inductive Run (machine : Machine State Event) (allowed : State → Event → Prop) :
    List Event → State → Prop where
  | start {state : State} (initial : machine.initial state) : Run machine allowed [] state
  | next {history : List Event} {before after : State} {event : Event}
      (run : Run machine allowed history before) (permitted : allowed before event)
      (stepped : machine.step before event = some after) :
      Run machine allowed (event :: history) after

/-- A state some run reaches, with no restriction on the events. -/
def Reachable (machine : Machine State Event) (state : State) : Prop :=
  ∃ history, Run machine (fun _ _ => True) history state

variable {machine : Machine State Event} {allowed : State → Event → Prop}

/-- The induction rule for facts that also speak about the history. -/
theorem Run.history_invariant {property : List Event → State → Prop}
    (base : ∀ state, machine.initial state → property [] state)
    (keep : ∀ history before event after, property history before → allowed before event →
      machine.step before event = some after → property (event :: history) after)
    {history : List Event} {state : State} (run : Run machine allowed history state) :
    property history state := by
  induction run with
  | start initial => exact base _ initial
  | next _ permitted stepped ih => exact keep _ _ _ _ ih permitted stepped

theorem Run.invariant {property : State → Prop}
    (base : ∀ state, machine.initial state → property state)
    (keep : ∀ before event after, property before → allowed before event →
      machine.step before event = some after → property after)
    {history : List Event} {state : State} (run : Run machine allowed history state) :
    property state :=
  run.history_invariant (fun state initial => base state initial)
    fun _ before event after held permitted stepped => keep before event after held permitted stepped

theorem Reachable.invariant {property : State → Prop}
    (base : ∀ state, machine.initial state → property state)
    (keep : ∀ before event after, property before →
      machine.step before event = some after → property after)
    {state : State} (reachable : Reachable machine state) : property state := by
  obtain ⟨_, run⟩ := reachable
  exact run.invariant base fun before event after held _ => keep before event after held

/-! Literals for the processes of small runs. -/

instance neZeroOne : @NeZero Nat Zero.ofOfNat0 1 := ⟨by decide⟩

instance neZeroTwo : @NeZero Nat Zero.ofOfNat0 2 := ⟨by decide⟩

instance neZeroThree : @NeZero Nat Zero.ofOfNat0 3 := ⟨by decide⟩

/-- Feed a list of events, oldest first, to the step function. -/
def Machine.execute (machine : Machine State Event) : State → List Event → Option State
  | state, [] => some state
  | state, event :: rest => (machine.step state event).bind fun next => machine.execute next rest

theorem Run.execute_permitted {history events : List Event} {before after : State}
    (run : Run machine allowed history before)
    (permitted : ∀ event ∈ events, ∀ state, allowed state event)
    (executed : machine.execute before events = some after) :
    Run machine allowed (events.reverse ++ history) after := by
  induction events generalizing before history with
  | nil =>
    cases executed
    exact run
  | cons event rest ih =>
    obtain ⟨next, stepped, remaining⟩ := Option.bind_eq_some_iff.mp executed
    have now := permitted event List.mem_cons_self before
    have extended := ih (run.next now stepped)
      (fun later member => permitted later (List.mem_cons_of_mem _ member)) remaining
    simpa using extended

theorem Run.execute {history events : List Event} {before after : State}
    (run : Run machine allowed history before) (permitted : ∀ state event, allowed state event)
    (executed : machine.execute before events = some after) :
    Run machine allowed (events.reverse ++ history) after :=
  run.execute_permitted (fun event _ state => permitted state event) executed

/-- An executed list of events is a run. -/
theorem Reachable.of_execute {events : List Event} {before after : State}
    (initial : machine.initial before) (executed : machine.execute before events = some after) :
    Reachable machine after :=
  ⟨_, (Run.start initial).execute (fun _ _ => trivial) executed⟩

theorem Reachable.exists_of_execute {p : State → Prop} {before : State}
    (initial : machine.initial before) (events : List Event)
    (executed : ∃ after, machine.execute before events = some after ∧ p after) :
    ∃ state, Reachable machine state ∧ p state := by
  obtain ⟨after, executed, holds⟩ := executed
  exact ⟨after, .of_execute initial executed, holds⟩

/-- As `execute`, stopping at an event that is not allowed. -/
def Machine.guarded (machine : Machine State Event) (allowed : State → Event → Prop)
    [∀ state event, Decidable (allowed state event)] : State → List Event → Option State
  | state, [] => some state
  | state, event :: rest =>
    if allowed state event then
      (machine.step state event).bind fun next => machine.guarded allowed next rest
    else
      none

theorem Run.guarded [∀ state event, Decidable (allowed state event)]
    {history events : List Event} {before after : State} (run : Run machine allowed history before)
    (executed : machine.guarded allowed before events = some after) :
    Run machine allowed (events.reverse ++ history) after := by
  induction events generalizing before history with
  | nil =>
    cases executed
    exact run
  | cons event rest ih =>
    unfold Machine.guarded at executed
    split at executed
    · obtain ⟨next, stepped, remaining⟩ := Option.bind_eq_some_iff.mp executed
      have extended := ih (run.next ‹_› stepped) remaining
      simpa using extended
    · contradiction

end Xv6.Transition
