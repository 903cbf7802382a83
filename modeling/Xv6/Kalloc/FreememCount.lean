import Mathlib.Data.List.Nodup
import Xv6.Kalloc.Freemem

namespace Xv6.Kalloc

open Xv6.Data Xv6.Transition

variable {count : Nat}

/-! # What freemem counts -/

/-- The page a CPU is moving between the free list and an owner. -/
def Place.page : Place → Option Nat
  | .allocFill page | .freeFill page | .freeLink page => some page
  | _ => none

def Place.cursor : Place → Option Nat
  | .walk cursor _ => some cursor
  | _ => none

/-- `kalloc` takes no page that a running `freemem` is about to read. -/
def undisturbed (state : State count) : Event count → Prop
  | .kalloc _ => state.freelist ≠ 0 → ∀ other, (state.cpu other).cursor ≠ some state.freelist
  | _ => True

instance (state : State count) : (event : Event count) → Decidable (undisturbed state event)
  | .kalloc _ => inferInstanceAs (Decidable (state.freelist ≠ 0 →
      ∀ other, (state.cpu other).cursor ≠ some state.freelist))
  | .kfree _ _ | .freemem _ | .step _ | .write _ _ => .isTrue trivial

/-- A page that is neither free nor owned. -/
def State.InFlight (state : State count) (page : Nat) : Prop :=
  page ∉ state.free ∧ page ∉ state.owned ∧ page ≠ 0

/-- The walk has counted `seen` pages and has the rest of the list before it. -/
def State.Walking (state : State count) (cpu : Fin count) (cursor addr : Nat) : Prop :=
  ∃ front back seen, state.free = front ++ back ∧ Chain 0 state.next cursor back ∧
    addr = PGSIZE * seen ∧ state.low cpu ≤ seen + back.length ∧
    seen + back.length ≤ state.high cpu

def State.Counted (state : State count) (cpu : Fin count) (addr : Nat) : Prop :=
  ∃ pages, addr = PGSIZE * pages ∧ state.low cpu ≤ pages ∧ pages ≤ state.high cpu

structure Invariant (state : State count) : Prop where
  chain : Chain 0 state.next state.freelist state.free
  distinct : (state.free ++ state.owned).Nodup
  real : ∀ page ∈ state.owned, page ≠ 0
  flight : ∀ cpu page, (state.cpu cpu).page = some page → state.InFlight page
  apart : ∀ first second page, (state.cpu first).page = some page →
    (state.cpu second).page = some page → first = second
  walks : ∀ cpu cursor addr, state.cpu cpu = .walk cursor addr → state.Walking cpu cursor addr
  walked : ∀ cpu addr, state.cpu cpu = .walked addr → state.Counted cpu addr

variable {state : State count} {page : Nat}

theorem Invariant.not_owned (invariant : Invariant state) (owned : page ∈ state.owned) :
    page ∉ state.free := fun free =>
  (List.nodup_append.mp invariant.distinct).2.2 page free page owned rfl

/-! ## Pieces of a step -/

theorem Invariant.store (value : Nat) (invariant : Invariant state) (used : page ∉ state.free) :
    Invariant (state.store page value) := by
  have same : ∀ node ∈ state.free, Function.update state.next page value node = state.next node := by
    intro node member
    rw [Function.update_of_ne]
    rintro rfl
    exact used member
  refine ⟨invariant.chain.congr same, invariant.distinct, invariant.real, invariant.flight,
    invariant.apart, ?_, invariant.walked⟩
  intro cpu cursor addr place
  obtain ⟨front, back, seen, split, chain, counted⟩ := invariant.walks cpu cursor addr place
  refine ⟨front, back, seen, split, chain.congr ?_, counted⟩
  intro node member
  exact same node (by rw [split]; exact List.mem_append_right front member)

variable {cpu : Fin count}

theorem State.Counted.relist {addr : Nat} (counted : state.Counted cpu addr) (freelist : Nat)
    (free : List Nat) :
    (state.relist freelist free).Counted cpu addr := by
  obtain ⟨pages, same, low, high⟩ := counted
  exact ⟨pages, same, Nat.le_trans (Nat.min_le_left _ _) low, Nat.le_trans high (Nat.le_max_left _ _)⟩

/-! ## The free list and the owners -/

variable {before after : State count}

/-- A CPU changes its place, and the pages between the free list and the owners. -/
theorem Invariant.exchange {place : Place} (invariant : Invariant before)
    (moved : after.cpu = Function.update before.cpu cpu place)
    (chain : Chain 0 after.next after.freelist after.free)
    (distinct : (after.free ++ after.owned).Nodup) (real : ∀ page ∈ after.owned, page ≠ 0)
    (mine : ∀ page, place.page = some page → after.InFlight page ∧ ∀ other, other ≠ cpu →
      (before.cpu other).page ≠ some page)
    (others : ∀ other page, other ≠ cpu → (before.cpu other).page = some page →
      before.InFlight page → after.InFlight page)
    (starts : ∀ cursor addr, place = .walk cursor addr → after.Walking cpu cursor addr)
    (ends : ∀ addr, place = .walked addr → after.Counted cpu addr)
    (walks : ∀ other cursor addr, other ≠ cpu → before.cpu other = .walk cursor addr →
      before.Walking other cursor addr → after.Walking other cursor addr)
    (walked : ∀ other addr, other ≠ cpu → before.Counted other addr → after.Counted other addr) :
    Invariant after := by
  have here : after.cpu cpu = place := by rw [moved, Function.update_self]
  have there : ∀ other, other ≠ cpu → after.cpu other = before.cpu other := by
    intro other different
    rw [moved, Function.update_of_ne different]
  refine ⟨chain, distinct, real, ?_, ?_, ?_, ?_⟩
  · intro other page holds
    by_cases same : other = cpu
    · subst same
      rw [here] at holds
      exact (mine page holds).1
    · rw [there other same] at holds
      exact others other page same holds (invariant.flight other page holds)
  · intro first second page left right
    by_cases isFirst : first = cpu
    · subst isFirst
      rw [here] at left
      by_contra different
      rw [there second (Ne.symm different)] at right
      exact (mine page left).2 second (Ne.symm different) right
    · rw [there first isFirst] at left
      by_cases isSecond : second = cpu
      · subst isSecond
        rw [here] at right
        exact absurd left ((mine page right).2 first isFirst)
      · rw [there second isSecond] at right
        exact invariant.apart first second page left right
  · intro other cursor addr at_
    by_cases same : other = cpu
    · subst same
      exact starts cursor addr (here.symm.trans at_)
    · rw [there other same] at at_
      exact walks other cursor addr same at_ (invariant.walks other cursor addr at_)
  · intro other addr at_
    by_cases same : other = cpu
    · subst same
      exact ends addr (here.symm.trans at_)
    · rw [there other same] at at_
      exact walked other addr same (invariant.walked other addr at_)

theorem Invariant.goto {place : Place} (invariant : Invariant state)
    (page : ∀ page, place.page = some page → (state.cpu cpu).page = some page)
    (walks : ∀ cursor addr, place = .walk cursor addr → state.Walking cpu cursor addr)
    (walked : ∀ addr, place = .walked addr → state.Counted cpu addr) :
    Invariant (state.goto cpu place) := by
  refine invariant.exchange rfl invariant.chain invariant.distinct invariant.real ?_
    (fun _ _ _ _ => id) walks walked (fun _ _ _ _ _ => id) fun _ _ _ => id
  intro held holds
  have own := page held holds
  exact ⟨invariant.flight cpu held own, fun other different theirs =>
    different (invariant.apart other cpu held theirs own)⟩

section

variable (invariant : Invariant state)

include invariant

theorem Invariant.pop (real : state.freelist ≠ 0)
    (undisturbed : ∀ other, (state.cpu other).cursor ≠ some state.freelist) :
    Invariant ((state.relist (state.next state.freelist) state.free.tail).goto cpu
      (.allocFill state.freelist)) := by
  obtain ⟨rest, free, chain⟩ := invariant.chain.of_ne_null real
  have distinct := invariant.distinct
  rw [free, List.cons_append, List.nodup_cons, List.mem_append, not_or] at distinct
  obtain ⟨⟨notRest, notOwned⟩, distinct⟩ := distinct
  rw [free, List.tail_cons]
  refine invariant.exchange rfl chain distinct invariant.real ?_ ?_ nofun nofun ?_
    (fun other addr _ counted => counted.relist (state.next state.freelist) rest)
  · intro page taken
    cases taken
    refine ⟨⟨notRest, notOwned, real⟩, fun other _ holds => ?_⟩
    exact (invariant.flight other _ holds).1 (by rw [free]; simp)
  · intro other page _ _ flight
    refine ⟨fun member => flight.1 ?_, flight.2⟩
    rw [free]
    exact List.mem_cons_of_mem _ member
  · rintro other cursor addr - place ⟨front, back, seen, split, walk, counted⟩
    -- The walk stands behind the first page, so the page is in the front part.
    cases front with
    | nil =>
      have same : cursor = state.freelist := by
        rw [List.nil_append] at split
        rw [← split, free] at walk
        exact walk.1
      have standing := undisturbed other
      simp [place, Place.cursor, same] at standing
    | cons first front =>
      rw [free, List.cons_append, List.cons.injEq] at split
      obtain ⟨same, low, high⟩ := counted
      exact ⟨front, back, seen, split.2, walk, same, Nat.le_trans (Nat.min_le_left _ _) low,
        Nat.le_trans high (Nat.le_max_left _ _)⟩

theorem Invariant.push (place : state.cpu cpu = .freeLink page) :
    Invariant (((state.store page state.freelist).relist page (page :: state.free)).goto cpu
      .idle) := by
  obtain ⟨notFree, notOwned, real⟩ := invariant.flight cpu page (by rw [place]; rfl)
  have stored := invariant.store state.freelist notFree
  refine stored.exchange rfl ?_ ?_ invariant.real nofun ?_ nofun nofun ?_
    (fun other addr _ counted => counted.relist page (page :: state.free))
  · exact stored.chain.push real (by simp [State.relist, State.store, State.goto])
  · change (page :: state.free ++ state.owned).Nodup
    rw [List.cons_append, List.nodup_cons, List.mem_append]
    exact ⟨fun either => either.elim notFree notOwned, invariant.distinct⟩
  · intro other held different holds flight
    refine ⟨?_, flight.2⟩
    change held ∉ page :: state.free
    rw [List.mem_cons]
    rintro (rfl | member)
    · exact different (invariant.apart other cpu held holds (by rw [place]; rfl))
    · exact flight.1 member
  · rintro other cursor addr - - ⟨front, back, seen, split, walk, same, low, high⟩
    refine ⟨page :: front, back, seen, ?_, walk, same, Nat.le_trans (Nat.min_le_left _ _) low,
      Nat.le_trans high (Nat.le_max_left _ _)⟩
    change page :: state.free = page :: front ++ back
    rw [List.cons_append]
    exact congrArg (page :: ·) split

theorem Invariant.own (holds : (state.cpu cpu).page = some page) :
    Invariant { state.goto cpu .idle with owned := page :: state.owned } := by
  obtain ⟨notFree, notOwned, real⟩ := invariant.flight cpu page holds
  refine invariant.exchange rfl invariant.chain ?_ ?_ nofun ?_ nofun nofun
    (fun _ _ _ _ _ => id) (fun _ _ _ => id)
  · change (state.free ++ page :: state.owned).Nodup
    rw [List.nodup_middle, List.nodup_cons, List.mem_append]
    exact ⟨fun either => either.elim notFree notOwned, invariant.distinct⟩
  · intro other member
    rcases List.mem_cons.mp member with rfl | earlier
    · exact real
    · exact invariant.real other earlier
  · intro other held different taken flight
    refine ⟨flight.1, ?_, flight.2.2⟩
    change held ∉ page :: state.owned
    rw [List.mem_cons]
    rintro (rfl | member)
    · exact different (invariant.apart other cpu held taken holds)
    · exact flight.2.1 member

theorem Invariant.disown (owned : page ∈ state.owned) :
    Invariant { state.goto cpu (.freeFill page) with owned := state.owned.erase page } := by
  have once := (List.nodup_append.mp invariant.distinct).2.1
  refine invariant.exchange rfl invariant.chain ?_ ?_ ?_ ?_ nofun nofun (fun _ _ _ _ _ => id)
    (fun _ _ _ => id)
  · exact invariant.distinct.sublist (List.Sublist.append_left List.erase_sublist _)
  · exact fun other member => invariant.real other (List.mem_of_mem_erase member)
  · intro taken same
    cases same
    refine ⟨⟨invariant.not_owned owned, once.not_mem_erase, invariant.real page owned⟩, ?_⟩
    exact fun other _ holds => (invariant.flight other page holds).2.1 owned
  · intro other held _ _ flight
    exact ⟨flight.1, fun member => flight.2.1 (List.mem_of_mem_erase member), flight.2.2⟩

theorem Invariant.freemem : Invariant { state.goto cpu (.walk state.freelist 0) with
      low := Function.update state.low cpu state.free.length
      high := Function.update state.high cpu state.free.length } := by
  refine invariant.exchange rfl invariant.chain invariant.distinct invariant.real nofun
    (fun _ _ _ _ => id) ?_ nofun ?_ ?_
  · rintro _ _ ⟨⟩
    exact ⟨[], state.free, 0, rfl, invariant.chain, rfl, by simp, by simp⟩
  · rintro other cursor addr different - ⟨front, back, seen, split, chain, facts⟩
    exact ⟨front, back, seen, split, chain, by simpa [different] using facts⟩
  · rintro other addr different ⟨pages, facts⟩
    exact ⟨pages, by simpa [different] using facts⟩

end

/-! ## Every step -/

theorem stepCpu_invariant (invariant : Invariant before)
    (stepped : stepCpu before cpu = some after) :
    Invariant after := by
  unfold stepCpu at stepped
  generalize place : before.cpu cpu = here at stepped
  cases here with
  | idle => cases stepped
  | allocFill page =>
    cases stepped
    have flight := invariant.flight cpu page (by rw [place]; rfl)
    exact (invariant.store allocJunk flight.1).own (show (before.cpu cpu).page = some page by
      rw [place]; rfl)
  | freeFill page =>
    cases stepped
    have flight := invariant.flight cpu page (by rw [place]; rfl)
    refine (invariant.store freeJunk flight.1).goto ?_ nofun nofun
    intro held holds
    change (before.cpu cpu).page = some held
    rw [place]
    exact holds
  | freeLink page =>
    cases stepped
    exact invariant.push place
  | walk cursor addr =>
    simp only at stepped
    obtain ⟨front, back, seen, split, chain, counted, low, high⟩ :=
      invariant.walks cpu cursor addr place
    split at stepped
    case isTrue ended =>
      cases stepped
      refine invariant.goto nofun nofun ?_
      intro total same
      cases same
      subst ended
      rw [chain.eq_nil] at low high
      exact ⟨seen, counted, low, high⟩
    case isFalse real =>
      split at stepped <;> cases stepped
      · refine invariant.goto nofun ?_ nofun
        rintro next total same
        cases same
        obtain ⟨rest, same, remaining⟩ := chain.of_ne_null real
        subst same
        rw [List.length_cons] at low high
        refine ⟨front ++ [cursor], rest, seen + 1, by simpa using split, remaining, ?_, ?_, ?_⟩
        · rw [counted, Nat.mul_succ]
        · omega
        · omega
      · exact ⟨invariant.chain, invariant.distinct, invariant.real, invariant.flight,
          invariant.apart, invariant.walks, invariant.walked⟩
  | walked addr =>
    cases stepped
    exact invariant.goto nofun nofun nofun

variable {kernelEnd : Nat}

theorem step_invariant {event : Event count} (invariant : Invariant before)
    (quiet : undisturbed before event) (stepped : step kernelEnd before event = some after) :
    Invariant after := by
  unfold step at stepped
  split at stepped
  · contradiction
  cases event with
  | kalloc cpu =>
    simp only at stepped
    split at stepped <;> cases stepped
    unfold kallocPop
    split
    · exact invariant
    · exact invariant.pop ‹_› (quiet ‹_›)
  | kfree cpu page =>
    simp only at stepped
    split at stepped
    case isFalse => contradiction
    case isTrue ready =>
      split at stepped <;> cases stepped
      · exact ⟨invariant.chain, invariant.distinct, invariant.real, invariant.flight,
          invariant.apart, invariant.walks, invariant.walked⟩
      · exact invariant.disown ready.2
  | freemem cpu =>
    simp only at stepped
    split at stepped <;> cases stepped
    exact invariant.freemem
  | step cpu => exact stepCpu_invariant invariant stepped
  | write page value =>
    simp only at stepped
    split at stepped <;> cases stepped
    exact invariant.store value (invariant.not_owned ‹_›)

theorem booted_invariant (booted : Booted kernelEnd state) : Invariant state := by
  have idle := booted.idle
  refine ⟨booted.chain, booted.distinct, ?_, ?_, ?_, ?_, ?_⟩
  · rintro page owned rfl
    have good := booted.pages 0 (List.mem_append_right _ owned)
    have layout := booted.layout
    simp only [badPage, KERNBASE] at good layout
    omega
  all_goals simp [idle, Place.page]

/-- As long as `kalloc` leaves alone the page a `freemem` is about to read, every page it
reads is on the free list, and it returns the size of the list it started on, a number of
pages between the fewest and the most that were free during the call. -/
theorem freemem_counts {history : List (Event count)}
    (run : Run (machine count kernelEnd) undisturbed history state) :
    Chain 0 state.next state.freelist state.free ∧
    (∀ cpu cursor addr, state.cpu cpu = .walk cursor addr → cursor ≠ 0 → cursor ∈ state.free) ∧
    ∀ cpu addr, state.cpu cpu = .walked addr →
      ∃ pages, addr = PGSIZE * pages ∧ state.low cpu ≤ pages ∧ pages ≤ state.high cpu := by
  have initially : ∀ state, (machine count kernelEnd).initial state → Invariant state :=
    fun _ booted => booted_invariant booted
  have invariant := run.invariant initially fun _ _ _ held quiet stepped =>
    step_invariant held quiet stepped
  refine ⟨invariant.chain, ?_, invariant.walked⟩
  intro cpu cursor addr place real
  obtain ⟨front, back, seen, split, chain, -⟩ := invariant.walks cpu cursor addr place
  obtain ⟨rest, same, -⟩ := chain.of_ne_null real
  rw [split, same]
  simp

/-! ## Three free pages, two CPUs -/

def threePages : State 2 where
  freelist := 0x87000000
  next page := if page = 0x87000000 then 0x87001000 else
    if page = 0x87001000 then 0x87002000 else 0
  cpu _ := .idle
  panic := false
  free := [0x87000000, 0x87001000, 0x87002000]
  owned := []
  low _ := 0
  high _ := 0

theorem threePages_booted : Booted 0x80020000 threePages := by
  refine ⟨by decide, ?_, by decide, by decide, fun _ => rfl, rfl⟩
  exact ⟨rfl, by decide, rfl, by decide, rfl, by decide, rfl⟩

/-- A page is allocated behind the walk, and the walk still counts three. -/
theorem freemem_counts_behind :
    ∃ history, ∃ state : State 2, Run (machine 2 0x80020000) undisturbed history state ∧
      state.cpu 0 = .walked (3 * PGSIZE) ∧ state.free.length = 2 ∧
      ∃ pages, 3 * PGSIZE = PGSIZE * pages ∧ state.low 0 ≤ pages ∧ pages ≤ state.high 0 := by
  have run : ∃ state : State 2, (machine 2 0x80020000).guarded undisturbed threePages
      [.freemem 0, .step 0, .kalloc 1, .step 1, .step 0, .step 0, .step 0] = some state ∧
      state.cpu 0 = .walked (3 * PGSIZE) ∧ state.free.length = 2 := ⟨_, rfl, rfl, rfl⟩
  obtain ⟨state, executed, place, left⟩ := run
  have started : Run (machine 2 0x80020000) undisturbed [] threePages := .start threePages_booted
  have reached := started.guarded executed
  exact ⟨_, state, reached, place, left, (freemem_counts reached).2.2 0 _ place⟩

/-- `kalloc` takes the page under the walk: the next page read is at `0x0505050505050505`.
Or two pages are allocated and freed again in the other order, and three free pages are
counted as four. -/
theorem freemem_strays : (∃ state : State 2, Reachable (machine 2 0x80020000) state ∧
      state.cpu 0 = .walk allocJunk PGSIZE ∧ allocJunk ∉ state.free) ∧
    (∃ state : State 2, Reachable (machine 2 0x80020000) state ∧
      state.cpu 0 = .walked (4 * PGSIZE) ∧ state.high 0 = 3) := by
  constructor
  · exact Reachable.exists_of_execute threePages_booted [.freemem 0, .kalloc 1, .step 1, .step 0]
      ⟨_, rfl, rfl, by decide⟩
  · exact Reachable.exists_of_execute threePages_booted
      [.freemem 0, .step 0, .kalloc 1, .step 1, .kalloc 1, .step 1, .kfree 1 0x87000000, .step 1,
        .step 1, .kfree 1 0x87001000, .step 1, .step 1, .step 0, .step 0, .step 0, .step 0]
      ⟨_, rfl, rfl, rfl⟩

end Xv6.Kalloc
