import Xv6.Virtio.Descriptors

namespace Xv6.Virtio

open Xv6.Data Xv6.Transition

/-! # The request protocol of the disk -/

/-! ## What a process holds -/

def Task.idx : Task → Option (Fin 3 → Nat)
  | .idle | .entering _ _ | .allocating _ _ => none
  | .formatting _ _ idx | .publishing _ idx _ | .testing _ idx _ | .waiting _ idx _
  | .freeing _ idx _ => some idx

/-- The request, from the time its descriptors are formatted. -/
def Task.job : Task → Option Job
  | .idle | .entering _ _ | .allocating _ _ | .formatting _ _ _ => none
  | .publishing buffer idx request | .testing buffer idx request | .waiting buffer idx request
  | .freeing buffer idx request => some ⟨buffer, idx, request⟩

/-- The request, while the process waits for the device. -/
def Task.submitted : Task → Option Job
  | .testing buffer idx request | .waiting buffer idx request => some ⟨buffer, idx, request⟩
  | _ => none

def Task.locked : Task → Bool
  | .allocating _ _ | .formatting _ _ _ | .publishing _ _ _ | .testing _ _ _
  | .freeing _ _ _ => true
  | .idle | .entering _ _ | .waiting _ _ _ => false

variable {task : Task} {job : Job}

theorem Task.idx_of_job (found : task.job = some job) : task.idx = some job.idx := by
  cases task <;> cases found <;> rfl

theorem Task.buffer_of_job (found : task.job = some job) : task.buffer = some job.buffer := by
  cases task <;> cases found <;> rfl

theorem Task.job_of_submitted (found : task.submitted = some job) : task.job = some job := by
  cases task <;> cases found <;> rfl

variable {count handlers : Nat}

@[simp]
theorem State.goto_task (state : State count handlers) (process : Fin count) (task : Task)
    (asleep : Bool) : (state.goto process task asleep).task = overwrite state.task process task := rfl

/-! Whose task it is, after one of them has changed. -/

section

variable {tasks : Fin count → Task} {process other : Fin count} {new : Task}

theorem job_cases (found : (overwrite tasks process new other).job = some job) :
    other = process ∧ new.job = some job ∨ other ≠ process ∧ (tasks other).job = some job :=
  overwrite_cases (p := fun task : Task => task.job = some job) found

theorem submitted_cases (found : (overwrite tasks process new other).submitted = some job) :
    other = process ∧ new.submitted = some job ∨
      other ≠ process ∧ (tasks other).submitted = some job :=
  overwrite_cases (p := fun task : Task => task.submitted = some job) found

theorem buffer_cases {buffer : Nat}
    (found : (overwrite tasks process new other).buffer = some buffer) :
    other = process ∧ new.buffer = some buffer ∨ other ≠ process ∧ (tasks other).buffer = some buffer :=
  overwrite_cases (p := fun task : Task => task.buffer = some buffer) found

theorem task_cases (found : overwrite tasks process new other = task) :
    other = process ∧ new = task ∨ other ≠ process ∧ tasks other = task :=
  overwrite_cases (p := fun old : Task => old = task) found

end

/-- The descriptors in `idx` of each process. -/
def target (task : Fin count → Task) (place : Fin count × Fin 3) : Option Nat :=
  (task place.1).idx.map fun idx => idx place.2

def inUse (driver : Driver) (block : Option Nat) : Prop :=
  ∃ index, block = some index ∧ index < NUM ∧ driver.free index = false

/-- The chains the device has not completed, or whose completion was not yet seen. -/
def State.chains (state : State count handlers) : List Chain :=
  state.queued ++ state.inflight ++ state.completed

/-! ## The invariant -/

structure Held (state : State count handlers) : Prop where
  exact : Exact none (target state.task) (inUse state.driver)
  lock : ∀ process, (state.task process).locked = true → state.lock = some (.process process)
  buffers : ∀ process other buffer, (state.task process).buffer = some buffer →
    (state.task other).buffer = some buffer → process = other
  linked : ∀ process job, (state.task process).job = some job → Linked state.driver job
  numbered : ∀ process job, (state.task process).job = some job →
    state.requests[job.request]? = some job.buffer
  numbers : ∀ process other job job', (state.task process).job = some job →
    (state.task other).job = some job' → job.request = job'.request → process = other

structure Rings (state : State count handlers) : Prop where
  avail : contents NUM state.driver.availRing state.consumed state.driver.availIdx =
    state.queued.map Chain.head
  used : contents NUM state.driver.usedRing state.driver.seen state.driver.usedIdx =
    state.completed.map Chain.head
  entry : ∀ process buffer idx request, state.task process = .publishing buffer idx request →
    state.driver.availRing (state.driver.availIdx.toNat % NUM) = idx 0

structure Flow (state : State count handlers) : Prop where
  heads : (state.chains.map Chain.head).Nodup
  owners : ∀ chain ∈ state.chains, ∃ process job, (state.task process).submitted = some job ∧
    chain = ⟨job.idx 0, job.request⟩ ∧ state.disk job.buffer = true
  pending : ∀ process job, (state.task process).submitted = some job →
    state.disk job.buffer = true → ⟨job.idx 0, job.request⟩ ∈ state.chains
  status : ∀ chain ∈ state.completed, (state.driver.info chain.head).status = 0
  formatted : ∀ process buffer idx request, state.task process = .publishing buffer idx request →
    state.disk buffer = true
  outcome : ∀ process job, (state.task process).job = some job →
    (job.request ∈ state.cleared.map Prod.fst ↔ state.disk job.buffer = false)
  cleared : ∀ request buffer, (request, buffer) ∈ state.cleared →
    state.requests[request]? = some buffer
  once : (state.cleared.map Prod.fst).Nodup

structure Safe (state : State count handlers) : Prop where
  held : Held state
  rings : Rings state
  flow : Flow state
  quiet : state.panic = none

variable {state : State count handlers} {process other : Fin count}

/-! ## Consequences -/

theorem Held.below (held : Held state) {idx : Fin 3 → Nat}
    (found : (state.task process).idx = some idx) (position : Fin 3) :
    idx position < NUM ∧ state.driver.free (idx position) = false := by
  have here : target state.task (process, position) = some (idx position) := by
    rw [target, found, Option.map_some]
  obtain ⟨index, same, inside, taken⟩ := held.exact.marked (process, position) (by simp [here])
  rw [here] at same
  cases same
  exact ⟨inside, taken⟩

/-- A descriptor has one holder and one position in its array. -/
theorem Held.unique (held : Held state) {idx idx' : Fin 3 → Nat} {position position' : Fin 3}
    (found : (state.task process).idx = some idx) (found' : (state.task other).idx = some idx')
    (same : idx position = idx' position') : process = other ∧ position = position' := by
  have here : target state.task (process, position) = some (idx position) := by
    rw [target, found, Option.map_some]
  have there : target state.task (other, position') = some (idx' position') := by
    rw [target, found', Option.map_some]
  have equal := held.exact.unique (process, position) (other, position') (by simp [here])
    (by rw [here, there, same])
  exact Prod.mk.inj equal

theorem Held.distinct (held : Held state) {idx : Fin 3 → Nat}
    (found : (state.task process).idx = some idx) : Function.Injective idx :=
  fun _ _ same => (held.unique found found same).2

theorem Held.apart (held : Held state) (different : process ≠ other) {idx idx' : Fin 3 → Nat}
    (found : (state.task process).idx = some idx) (found' : (state.task other).idx = some idx')
    (position position' : Fin 3) : idx position ≠ idx' position' :=
  fun same => different (held.unique found found' same).1

theorem Held.excludes (held : Held state) (here : (state.task process).locked = true)
    (there : (state.task other).locked = true) : process = other := by
  have both := (held.lock process here).symm.trans (held.lock other there)
  cases both
  rfl

end Xv6.Virtio
