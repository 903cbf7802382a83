import Xv6.Virtio.Protocol

namespace Xv6.Virtio

open Xv6.Data Xv6.Transition

/-! # Every step keeps the request protocol -/

variable {count handlers : Nat} {state after : State count handlers} {process other : Fin count}
  {new old : Task}

theorem task_congr {β : Type} (here : state.task process = old) (view : Task → β)
    (same : view new = view old) (other : Fin count) :
    view (overwrite state.task process new other) = view (state.task other) :=
  overwrite_congr view (by rw [here, same]) other

/-! ## The lock -/

theorem Held.lock_acquire (held : Held state) (unlocked : state.lock = none) (other : Fin count)
    (locked : (overwrite state.task process new other).locked = true) :
    (some (.process process) : Option (Holder count handlers)) = some (.process other) := by
  by_cases same : other = process
  · rw [same]
  · rw [overwrite_of_ne same] at locked
    have taken := held.lock other locked
    rw [unlocked] at taken
    contradiction

theorem Held.lock_release (held : Held state) (here : state.task process = old)
    (mine : old.locked = true) (leaves : new.locked = false) (other : Fin count)
    (locked : (overwrite state.task process new other).locked = true) :
    (none : Option (Holder count handlers)) = some (.process other) := by
  by_cases same : other = process
  · rw [same, overwrite_self, leaves] at locked
    contradiction
  · rw [overwrite_of_ne same] at locked
    exact absurd (held.excludes locked (here ▸ mine)) same

theorem Held.lock_keep (held : Held state) (here : state.task process = old)
    (keeps : new.locked = old.locked) (other : Fin count)
    (locked : (overwrite state.task process new other).locked = true) :
    state.lock = some (.process other) :=
  held.lock other ((task_congr here Task.locked keeps other).symm.trans locked)

/-! ## What processes hold -/

theorem Held.buffers_keep (held : Held state) (here : state.task process = old)
    (keeps : new.buffer = old.buffer) (first second : Fin count) (buffer : Nat)
    (mine : (overwrite state.task process new first).buffer = some buffer)
    (theirs : (overwrite state.task process new second).buffer = some buffer) : first = second := by
  rw [task_congr here Task.buffer keeps] at mine theirs
  exact held.buffers first second buffer mine theirs

theorem Held.congr (held : Held state)
    (idx : ∀ other, (after.task other).idx = (state.task other).idx)
    (job : ∀ other, (after.task other).job = (state.task other).job)
    (buffers : ∀ process other buffer, (after.task process).buffer = some buffer →
      (after.task other).buffer = some buffer → process = other)
    (free : after.driver.free = state.driver.free)
    (desc : ∀ index, state.driver.free index = false →
      after.driver.desc index = state.driver.desc index)
    (info : ∀ index, (after.driver.info index).buffer = (state.driver.info index).buffer)
    (requests : after.requests = state.requests)
    (lock : ∀ other, (after.task other).locked = true → after.lock = some (.process other)) :
    Held after := by
  constructor
  · refine held.exact.congr (fun place => ?_) fun block => ?_
    · rw [target, target, idx]
    · rw [inUse, inUse, free]
  · exact lock
  · exact buffers
  · intro process job' found
    rw [job] at found
    exact (held.linked process job' found).congr
      (fun position => desc _ (held.below (Task.idx_of_job found) position).2) (info _)
  · intro process job' found
    rw [job] at found
    rw [requests]
    exact held.numbered process job' found
  · intro process other
    rw [job, job]
    exact held.numbers process other

variable {buffer : Nat} {write asleep : Bool}

theorem Held.disk_other (held : Held state) (mine : (state.task process).buffer = some buffer)
    {value : Bool} {job : Job} (different : other ≠ process)
    (found : (state.task other).job = some job) :
    overwrite state.disk buffer value job.buffer = state.disk job.buffer := by
  refine overwrite_of_ne fun same => different ?_
  exact held.buffers other process job.buffer (Task.buffer_of_job found) (same ▸ mine)

theorem Held.call (held : Held state) (here : state.task process = .idle)
    (unlocked : ∀ other, (state.task other).buffer ≠ some buffer) :
    Held (state.goto process (.entering buffer write) asleep) := by
  refine held.congr (task_congr here Task.idx rfl) (task_congr here Task.job rfl) ?_ rfl
    (fun _ _ => rfl) (fun _ => rfl) rfl (held.lock_keep here rfl)
  intro first second found mine theirs
  cases buffer_cases mine with
  | inl same =>
    cases buffer_cases theirs with
    | inl again => exact same.1.trans again.1.symm
    | inr apart =>
      cases same.2
      exact absurd apart.2 (unlocked second)
  | inr apart =>
    cases buffer_cases theirs with
    | inl same =>
      cases same.2
      exact absurd apart.2 (unlocked first)
    | inr again => exact held.buffers first second found apart.2 again.2

variable {idx : Fin 3 → Nat}

theorem Held.grant (held : Held state) {free : Nat → Bool}
    (here : state.task process = .allocating buffer write)
    (granted : Granted state.driver idx free) :
    Held { state.goto process (.formatting buffer write idx) asleep with
      driver := { state.driver with free } } := by
  have sameJob : ∀ other, (overwrite state.task process (.formatting buffer write idx) other).job =
      (state.task other).job := task_congr here Task.job rfl
  have given : ∀ place : Fin count × Fin 3, place.1 = process →
      target (overwrite state.task process (.formatting buffer write idx)) place =
        some (idx place.2) := by
    intro place mine
    rw [target, mine, overwrite_self]
    rfl
  have unmarked : ∀ index, free index = false ↔ state.driver.free index = false ∨
      ∃ position, idx position = index := by
    intro index
    rw [← Bool.not_eq_true, granted.marked]
    grind
  constructor
  · refine held.exact.extend (fun place => place.1 = process) ?_ ?_ ?_ ?_ ?_ ?_
    · intro place mine
      rw [target, mine, here]
      rfl
    · rintro place mine ⟨index, same, _, taken⟩
      rw [State.goto_task, given place mine] at same
      cases same
      rw [granted.wereFree] at taken
      contradiction
    · intro place mine
      rw [State.goto_task, given place mine]
      exact Option.some_ne_none _
    · intro first second firstMine secondMine same
      rw [State.goto_task, given first firstMine, given second secondMine] at same
      exact Prod.ext (firstMine.trans secondMine.symm) (granted.distinct (Option.some.inj same))
    · intro place others
      rw [target, target, State.goto_task, overwrite_of_ne others]
    · intro block
      constructor
      · rintro ⟨index, rfl, below, taken⟩
        cases (unmarked index).mp taken with
        | inl before => exact .inl ⟨index, rfl, below, before⟩
        | inr position =>
          obtain ⟨position, rfl⟩ := position
          exact .inr ⟨(process, position), rfl, given _ rfl⟩
      · rintro (⟨index, rfl, below, taken⟩ | ⟨⟨_, position⟩, rfl, found⟩)
        · exact ⟨index, rfl, below, (unmarked index).mpr (.inl taken)⟩
        · rw [State.goto_task, given _ rfl] at found
          cases found
          exact ⟨_, rfl, granted.below position, (unmarked _).mpr (.inr ⟨position, rfl⟩)⟩
  · exact held.lock_keep here rfl
  · exact held.buffers_keep here rfl
  · intro other job found
    exact (held.linked other job ((sameJob other).symm.trans found)).congr (fun _ => rfl) rfl
  · intro other job found
    exact held.numbered other job ((sameJob other).symm.trans found)
  · intro first second job job' found found'
    exact held.numbers first second job job' ((sameJob first).symm.trans found)
      ((sameJob second).symm.trans found')

theorem Held.format (held : Held state) (here : state.task process = .formatting buffer write idx)
    {disk : Nat → Bool} :
    Held { state.goto process (.publishing buffer idx state.requests.length) asleep with
      driver := format state.driver buffer write idx
      disk
      requests := state.requests ++ [buffer] } := by
  have mine : (state.task process).idx = some idx := by
    rw [here]
    rfl
  have old : ∀ other job, (state.task other).job = some job → job.request < state.requests.length :=
    fun other job found => (List.getElem?_eq_some_iff.mp (held.numbered other job found)).1
  constructor
  · refine held.exact.congr (fun place => ?_) fun _ => Iff.rfl
    exact congrArg (Option.map _) (task_congr here Task.idx (by rfl) place.1)
  · exact held.lock_keep here rfl
  · exact held.buffers_keep here rfl
  · intro other job found
    cases job_cases found with
    | inl same =>
      cases same.2
      exact format_linked (held.distinct mine) _
    | inr theirs =>
      have apart := held.apart (Ne.symm theirs.1) mine (Task.idx_of_job theirs.2)
      refine (held.linked other job theirs.2).congr
        (fun position => format_desc_other fun mine => apart mine position) ?_
      rw [format_info_other (apart 0 0)]
  · intro other job found
    cases job_cases found with
    | inl same =>
      cases same.2
      exact List.getElem?_concat_length
    | inr theirs =>
      exact (List.getElem?_append_left (old other job theirs.2)).trans
        (held.numbered other job theirs.2)
  · intro first second job job' found found' equal
    cases job_cases found with
    | inl same =>
      cases job_cases found' with
      | inl again => exact same.1.trans again.1.symm
      | inr theirs =>
        cases same.2
        exact absurd equal.symm (Nat.ne_of_lt (old second job' theirs.2))
    | inr theirs =>
      cases job_cases found' with
      | inl same =>
        cases same.2
        exact absurd equal (Nat.ne_of_lt (old first job theirs.2))
      | inr again => exact held.numbers first second job job' theirs.2 again.2 equal

variable {driver : Driver}

theorem Driver.forget_info_other {index other : Nat} (different : other ≠ index) :
    (driver.forget index).info other = driver.info other := overwrite_of_ne different

theorem Driver.forget_status (driver : Driver) (index other : Nat) :
    ((driver.forget index).info other).status = (driver.info other).status := by
  unfold Driver.forget
  exact overwrite_congr Info.status (by rfl) other

variable {request : Nat}

theorem Held.free (held : Held state) (here : state.task process = .freeing buffer idx request) :
    ∃ desc free, freeChain (NUM + 1) (state.driver.forget (idx 0)) (idx 0) =
        .ok { state.driver.forget (idx 0) with desc, free } ∧
      ∀ after : State count handlers, after.task = overwrite state.task process .idle →
        after.driver = { state.driver.forget (idx 0) with desc, free } →
        after.requests = state.requests → after.lock = none → Held after := by
  have mine : (state.task process).idx = some idx := by
    rw [here]
    rfl
  have linked := held.linked process ⟨buffer, idx, request⟩ (by rw [here]; rfl)
  have follows : Follows (state.driver.forget (idx 0)).desc [idx 0, idx 1, idx 2] := linked.follows
  obtain ⟨desc, free, freed, marked, others⟩ := freeChain_job ⟨buffer, idx, request⟩ follows
    (fun position => (held.below mine position).1) (fun position => (held.below mine position).2)
    (held.distinct mine)
  refine ⟨desc, free, freed, fun after tasks driver requests lock => ?_⟩
  have kept : ∀ other, after.task other ≠ .idle →
      other ≠ process ∧ after.task other = state.task other := by
    intro other busy
    rw [tasks] at busy ⊢
    have different : other ≠ process := by
      rintro rfl
      exact busy (overwrite_self _ _ _)
    exact ⟨different, overwrite_of_ne different⟩
  have jobKept : ∀ other job, (after.task other).job = some job →
      other ≠ process ∧ (state.task other).job = some job := by
    intro other job found
    obtain ⟨different, same⟩ := kept other fun idle => by rw [idle] at found; contradiction
    exact ⟨different, same ▸ found⟩
  have bufferKept : ∀ other buffer, (after.task other).buffer = some buffer →
      (state.task other).buffer = some buffer := by
    intro other buffer found
    obtain ⟨_, same⟩ := kept other fun idle => by rw [idle] at found; contradiction
    exact same ▸ found
  constructor
  · have cleared : ∀ place : Fin count × Fin 3, place.1 = process →
        target after.task place = none := by
      intro place gone
      rw [tasks, target, gone, overwrite_self]
      rfl
    refine held.exact.shrink cleared (fun place stays => ?_) fun block => ?_
    · rw [tasks, target, overwrite_of_ne stays, target]
    · have unmarked : ∀ index, free index = false ↔ state.driver.free index = false ∧
          ∀ position, idx position ≠ index := by
        intro index
        rw [← Bool.not_eq_true, marked, not_or, not_exists, Bool.not_eq_true]
        rfl
      have place : ∀ position, target state.task (process, position) = some (idx position) := by
        intro position
        rw [target, mine]
        rfl
      rw [driver]
      constructor
      · rintro ⟨index, rfl, below, taken⟩
        obtain ⟨before, outside⟩ := (unmarked index).mp taken
        refine ⟨⟨index, rfl, below, before⟩, ?_⟩
        rintro ⟨_, position⟩ rfl same
        rw [place] at same
        exact outside position (Option.some.inj same)
      · rintro ⟨⟨index, rfl, below, before⟩, outside⟩
        refine ⟨index, rfl, below, (unmarked index).mpr ⟨before, fun position same => ?_⟩⟩
        exact outside (process, position) rfl (same ▸ place position)
  · rw [tasks, lock]
    exact held.lock_release here rfl rfl
  · intro first second found here there
    exact held.buffers first second found (bufferKept first found here)
      (bufferKept second found there)
  · intro other job found
    obtain ⟨different, found⟩ := jobKept other job found
    have apart := held.apart (Ne.symm different) mine (Task.idx_of_job found)
    rw [driver]
    refine (held.linked other job found).congr (fun position => others _ fun mine => ?_) ?_
    · exact apart mine position
    · exact congrArg Info.buffer (Driver.forget_info_other (apart 0 0).symm)
  · intro other job found
    rw [requests]
    exact held.numbered other job (jobKept other job found).2
  · intro first second job job' found found'
    exact held.numbers first second job job' (jobKept first job found).2
      (jobKept second job' found').2

/-! ## Room in the rings -/

theorem NUM_divides : NUM ∣ 2 ^ 16 := by decide

theorem Flow.heads_below (flow : Flow state) (held : Held state) :
    state.chains.map Chain.head ⊆ List.range NUM := by
  intro head member
  obtain ⟨chain, present, rfl⟩ := List.mem_map.mp member
  obtain ⟨owner, job, found, rfl, _⟩ := flow.owners chain present
  exact List.mem_range.mpr (held.below (Task.idx_of_job (Task.job_of_submitted found)) 0).1

theorem Flow.chains_length (flow : Flow state) (held : Held state) : state.chains.length ≤ NUM := by
  have bound := (flow.heads.subperm (flow.heads_below held)).length_le
  rwa [List.length_map, List.length_range] at bound

/-- A process about to use the avail ring has another. -/
theorem Flow.fresh (flow : Flow state) (held : Held state) (here : state.task process = old)
    (mine : old.idx = some idx) (idle : old.submitted = none) :
    idx 0 ∉ state.chains.map Chain.head := by
  subst here
  intro member
  obtain ⟨chain, present, same⟩ := List.mem_map.mp member
  obtain ⟨owner, job, found, rfl, _⟩ := flow.owners chain present
  obtain ⟨rfl, _⟩ := held.unique mine (Task.idx_of_job (Task.job_of_submitted found)) same.symm
  rw [idle] at found
  contradiction

theorem Flow.room (flow : Flow state) (held : Held state) (here : state.task process = old)
    (mine : old.idx = some idx) (idle : old.submitted = none) :
    state.chains.length < NUM := by
  have first := List.mem_range.mpr (held.below (here ▸ mine) 0).1
  have below : idx 0 :: state.chains.map Chain.head ⊆ List.range NUM :=
    List.cons_subset.mpr ⟨first, flow.heads_below held⟩
  have nodup := List.nodup_cons.mpr ⟨flow.fresh held here mine idle, flow.heads⟩
  have bound := (nodup.subperm below).length_le
  rwa [List.length_cons, List.length_map, List.length_range] at bound

theorem Rings.avail_gap (rings : Rings state) :
    gap state.consumed state.driver.availIdx = state.queued.length := by
  have lengths := congrArg List.length rings.avail
  rwa [contents_length, List.length_map] at lengths

theorem Rings.used_gap (rings : Rings state) :
    gap state.driver.seen state.driver.usedIdx = state.completed.length := by
  have lengths := congrArg List.length rings.used
  rwa [contents_length, List.length_map] at lengths

theorem chains_length (state : State count handlers) : state.chains.length =
    state.queued.length + state.inflight.length + state.completed.length := by
  rw [State.chains, List.length_append, List.length_append]

theorem Rings.avail_room (rings : Rings state) (room : state.chains.length < NUM) :
    gap state.consumed state.driver.availIdx < NUM := by
  rw [rings.avail_gap]
  rw [chains_length] at room
  omega

/-! ## Steps outside the rings -/

section

variable {desc : Nat → Desc} {free : Nat → Bool} {info : Nat → Info} {asleep : Fin count → Bool}
  {lock : Option (Holder count handlers)}

theorem Rings.move (rings : Rings state)
    (plain : ∀ buffer idx request, new ≠ .publishing buffer idx request) :
    Rings { state with
      driver := { state.driver with desc, free, info }
      task := overwrite state.task process new
      asleep
      lock } := by
  refine ⟨rings.avail, rings.used, fun other buffer idx request found => ?_⟩
  cases task_cases found with
  | inl mine => exact absurd mine.2 (plain buffer idx request)
  | inr theirs => exact rings.entry other buffer idx request theirs.2

/-- A process may stop waiting once its buffer is done. -/
theorem Flow.move (flow : Flow state)
    (plain : ∀ buffer idx request, new ≠ .publishing buffer idx request)
    (lessJob : ∀ job, new.job = some job → (state.task process).job = some job)
    (less : ∀ job, new.submitted = some job → (state.task process).submitted = some job)
    (keeps : ∀ job, (state.task process).submitted = some job → state.disk job.buffer = true →
      new.submitted = some job)
    (status : ∀ chain ∈ state.completed, (info chain.head).status = 0) :
    Flow { state with
      driver := { state.driver with desc, free, info }
      task := overwrite state.task process new
      asleep
      lock } := by
  constructor
  · exact flow.heads
  · intro chain present
    obtain ⟨owner, job, found, same, busy⟩ := flow.owners chain present
    refine ⟨owner, job, ?_, same, busy⟩
    by_cases mine : owner = process
    · subst mine
      exact (congrArg Task.submitted (overwrite_self _ _ _)).trans (keeps job found busy)
    · exact (congrArg Task.submitted (overwrite_of_ne mine)).trans found
  · intro other job found
    cases submitted_cases found with
    | inl mine => exact flow.pending process job (less job mine.2)
    | inr theirs => exact flow.pending other job theirs.2
  · exact status
  · intro other buffer idx request found
    cases task_cases found with
    | inl mine => exact absurd mine.2 (plain buffer idx request)
    | inr theirs => exact flow.formatted other buffer idx request theirs.2
  · intro other job found
    cases job_cases found with
    | inl mine => exact flow.outcome process job (lessJob job mine.2)
    | inr theirs => exact flow.outcome other job theirs.2
  · exact flow.cleared
  · exact flow.once

/-- A process goes on without touching a ring or a descriptor. -/
theorem Safe.move (safe : Safe state) (here : state.task process = old) (idx : new.idx = old.idx)
    (job : new.job = old.job) (buffer : new.buffer = old.buffer)
    (plain : ∀ buffer idx request, new ≠ .publishing buffer idx request)
    (less : ∀ job, new.submitted = some job → old.submitted = some job)
    (keeps : ∀ job, old.submitted = some job → state.disk job.buffer = true →
      new.submitted = some job)
    (holder : ∀ other, (overwrite state.task process new other).locked = true →
      lock = some (.process other)) :
    Safe { state with
      task := overwrite state.task process new
      asleep
      lock } := by
  refine ⟨?_, safe.rings.move plain, ?_, safe.quiet⟩
  · exact safe.held.congr (task_congr here Task.idx idx) (task_congr here Task.job job)
      (safe.held.buffers_keep here buffer) rfl (fun _ _ => rfl) (fun _ => rfl) rfl holder
  · subst here
    exact safe.flow.move plain (fun _ found => job ▸ found) less keeps safe.flow.status

end

theorem Held.publishing_alone (held : Held state) (here : state.task process = old)
    (locked : old.locked = true) (there : state.task other = .publishing buffer idx request) :
    other = process :=
  held.excludes (by rw [there]; rfl) (by rw [here, locked])

/-! ## The driver's side of the avail ring -/

theorem Rings.format (rings : Rings state) (held : Held state) {disk : Nat → Bool}
    {requests : List Nat} (here : state.task process = .formatting buffer write idx)
    (room : state.chains.length < NUM) :
    Rings { state.goto process (.publishing buffer idx request) asleep with
      driver := format state.driver buffer write idx
      disk
      requests } := by
  refine ⟨?_, rings.used, fun other buffer' idx' request' found => ?_⟩
  · exact (contents_overwrite NUM_divides (rings.avail_room room) (idx 0)).trans rings.avail
  · cases task_cases found with
    | inl mine =>
      cases mine.2
      exact overwrite_self _ _ _
    | inr theirs => exact absurd (held.publishing_alone here rfl theirs.2) theirs.1

theorem Flow.format (flow : Flow state) (held : Held state)
    (here : state.task process = .formatting buffer write idx) :
    Flow { state.goto process (.publishing buffer idx state.requests.length) asleep with
      driver := Virtio.format state.driver buffer write idx
      disk := overwrite state.disk buffer true
      requests := state.requests ++ [buffer] } := by
  have mine : (state.task process).idx = some idx := by
    rw [here]
    rfl
  have submitted : ∀ other, (overwrite state.task process (.publishing buffer idx
      state.requests.length) other).submitted = (state.task other).submitted :=
    task_congr here Task.submitted rfl
  have disk : ∀ other job, other ≠ process → (state.task other).job = some job →
      overwrite state.disk buffer true job.buffer = state.disk job.buffer :=
    fun other job => held.disk_other (by rw [here]; rfl)
  have other_of_submitted : ∀ other job, (state.task other).submitted = some job →
      other ≠ process := by
    rintro other job found rfl
    rw [here] at found
    contradiction
  constructor
  · exact flow.heads
  · intro chain present
    obtain ⟨owner, job, found, rfl, busy⟩ := flow.owners chain present
    refine ⟨owner, job, (submitted owner).trans found, rfl, ?_⟩
    exact (disk owner job (other_of_submitted owner job found) (Task.job_of_submitted found)).trans busy
  · intro other job found busy
    replace found := (submitted other).symm.trans found
    refine flow.pending other job found ?_
    exact (disk other job (other_of_submitted other job found) (Task.job_of_submitted found)).symm.trans
      busy
  · intro chain present
    obtain ⟨owner, job, found, rfl, _⟩ := flow.owners chain (List.mem_append_right _ present)
    have apart := held.apart (other_of_submitted owner job found).symm mine
      (Task.idx_of_job (Task.job_of_submitted found)) 0 0
    exact (congrArg Info.status (format_info_other apart)).trans (flow.status _ present)
  · intro other buffer' idx' request' found
    cases task_cases found with
    | inl same =>
      cases same.2
      exact overwrite_self _ _ _
    | inr theirs =>
      have busy := flow.formatted other buffer' idx' request' theirs.2
      exact (disk other ⟨buffer', idx', request'⟩ theirs.1 (by rw [theirs.2]; rfl)).trans busy
  · intro other job found
    cases job_cases found with
    | inl same =>
      cases same.2
      have new : state.requests.length ∉ state.cleared.map Prod.fst := by
        intro member
        obtain ⟨entry, present, same⟩ := List.mem_map.mp member
        have old := flow.cleared entry.1 entry.2 present
        rw [same, List.getElem?_length] at old
        contradiction
      have busy : overwrite state.disk buffer true buffer = true := overwrite_self _ _ _
      exact iff_of_false new (by simp)
    | inr theirs =>
      have same := disk other job theirs.1 theirs.2
      exact (flow.outcome other job theirs.2).trans (same ▸ Iff.rfl)
  · intro request buffer' present
    have old := flow.cleared request buffer' present
    exact (List.getElem?_append_left (List.getElem?_eq_some_iff.mp old).1).trans old
  · exact flow.once

theorem Rings.publish (rings : Rings state) (held : Held state)
    (here : state.task process = .publishing buffer idx request)
    (room : state.chains.length < NUM) :
    Rings { state.goto process (.testing buffer idx request) asleep with
      driver := { state.driver with availIdx := state.driver.availIdx + 1#16 }
      queued := state.queued ++ [⟨idx 0, request⟩] } := by
  have below : gap state.consumed state.driver.availIdx + 1 < 2 ^ 16 :=
    Nat.lt_of_le_of_lt (rings.avail_room room) (by decide)
  refine ⟨?_, rings.used, fun other buffer' idx' request' found => ?_⟩
  · show contents NUM state.driver.availRing state.consumed (state.driver.availIdx + 1#16) =
      (state.queued ++ [Chain.mk (idx 0) request]).map Chain.head
    rw [contents_advance NUM_divides below, rings.avail, List.map_append,
      rings.entry process buffer idx request here]
    rfl
  · cases task_cases found with
    | inl mine => cases mine.2
    | inr theirs => exact absurd (held.publishing_alone here rfl theirs.2) theirs.1

theorem Flow.publish (flow : Flow state) (held : Held state)
    (here : state.task process = .publishing buffer idx request) :
    Flow { state.goto process (.testing buffer idx request) asleep with
      driver := { state.driver with availIdx := state.driver.availIdx + 1#16 }
      queued := state.queued ++ [⟨idx 0, request⟩] } := by
  have longer : (state.queued ++ [Chain.mk (idx 0) request] ++ state.inflight ++ state.completed).Perm
      (⟨idx 0, request⟩ :: state.chains) := by
    rw [State.chains, List.append_assoc, List.append_assoc, List.append_assoc]
    exact List.perm_middle
  constructor
  · refine (longer.map Chain.head).nodup_iff.mpr ?_
    exact List.nodup_cons.mpr ⟨flow.fresh held here rfl rfl, flow.heads⟩
  · intro chain present
    cases List.mem_cons.mp (longer.mem_iff.mp present) with
    | inl same =>
      refine ⟨process, ⟨buffer, idx, request⟩, ?_, same, flow.formatted process _ _ _ here⟩
      rw [State.goto_task, overwrite_self]
      rfl
    | inr before =>
      obtain ⟨owner, job, found, rest⟩ := flow.owners chain before
      have different : owner ≠ process := by
        rintro rfl
        rw [here] at found
        contradiction
      exact ⟨owner, job, by rw [State.goto_task, overwrite_of_ne different]; exact found, rest⟩
  · intro other job found busy
    apply longer.mem_iff.mpr
    cases submitted_cases found with
    | inl same =>
      cases same.2
      exact List.mem_cons_self
    | inr theirs => exact List.mem_cons_of_mem _ (flow.pending other job theirs.2 busy)
  · exact flow.status
  · intro other buffer' idx' request' found
    cases task_cases found with
    | inl same => cases same.2
    | inr theirs => exact flow.formatted other buffer' idx' request' theirs.2
  · intro other job found
    cases job_cases found with
    | inl same => exact flow.outcome process job (by rw [here]; exact same.2)
    | inr theirs => exact flow.outcome other job theirs.2
  · exact flow.cleared
  · exact flow.once

/-! ## The device -/

theorem Flow.permute (flow : Flow state) (chains : after.chains.Perm state.chains)
    (task : after.task = state.task) (disk : after.disk = state.disk)
    (cleared : after.cleared = state.cleared) (requests : after.requests = state.requests)
    (status : ∀ chain ∈ after.completed, (after.driver.info chain.head).status = 0) :
    Flow after := by
  constructor
  · exact (chains.map Chain.head).nodup_iff.mpr flow.heads
  · intro chain present
    rw [task, disk]
    exact flow.owners chain (chains.mem_iff.mp present)
  · intro other job found busy
    rw [task] at found
    rw [disk] at busy
    exact chains.mem_iff.mpr (flow.pending other job found busy)
  · exact status
  · rw [task, disk]
    exact flow.formatted
  · rw [task, disk, cleared]
    exact flow.outcome
  · rw [cleared, requests]
    exact flow.cleared
  · rw [cleared]
    exact flow.once

theorem Held.device (held : Held state) (task : after.task = state.task)
    (lock : ∀ other, (state.task other).locked = true → after.lock = some (.process other))
    (free : after.driver.free = state.driver.free) (desc : after.driver.desc = state.driver.desc)
    (info : ∀ index, (after.driver.info index).buffer = (state.driver.info index).buffer)
    (requests : after.requests = state.requests) : Held after := by
  refine held.congr ?_ ?_ ?_ free (fun index _ => congrFun desc index) info requests ?_
  · intro other
    rw [task]
  · intro other
    rw [task]
  · rw [task]
    exact held.buffers
  · rw [task]
    exact lock

theorem Safe.same (safe : Safe state) {asleep : Fin count → Bool}
    {lock : Option (Holder count handlers)}
    (holder : ∀ other, (state.task other).locked = true → lock = some (.process other)) :
    Safe { state with asleep, lock } :=
  ⟨safe.held.device rfl holder rfl rfl (fun _ => rfl) rfl,
    ⟨safe.rings.avail, safe.rings.used, safe.rings.entry⟩,
    safe.flow.permute (List.Perm.refl _) rfl rfl rfl rfl safe.flow.status, safe.quiet⟩

/-- A step stores in the avail ring only at its index, and clears `b->disk` only for the
oldest completion. -/
structure Frame (state after : State count handlers) : Prop where
  entries : after.driver.availRing = state.driver.availRing ∨ ∃ process buffer write idx,
    state.task process = .formatting buffer write idx ∧ after.driver.availRing =
      overwrite state.driver.availRing (state.driver.availIdx.toNat % NUM) (idx 0)
  clears : (after.cleared = state.cleared ∧
      ∀ buffer, state.disk buffer = true → after.disk buffer = true) ∨
    ∃ request buffer, state.completed.head?.map Chain.request = some request ∧
      state.requests[request]? = some buffer ∧
      after.cleared = state.cleared ++ [(request, buffer)] ∧
      after.disk = overwrite state.disk buffer false

theorem Frame.same (entries : after.driver.availRing = state.driver.availRing)
    (cleared : after.cleared = state.cleared) (disk : after.disk = state.disk) : Frame state after :=
  ⟨.inl entries, .inl ⟨cleared, fun _ busy => disk ▸ busy⟩⟩

theorem consume_safe (safe : Safe state) (stepped : consume state = some after) :
    Safe after ∧ Frame state after := by
  obtain ⟨held, rings, flow, quiet⟩ := safe
  unfold consume at stepped
  split at stepped
  · contradiction
  · rename_i behind
    have entries := rings.avail
    rw [contents_pop NUM_divides behind] at entries
    obtain ⟨chain, rest, queued, head, remaining⟩ := List.map_eq_cons_iff.mp entries.symm
    rw [queued] at stepped
    cases stepped
    refine ⟨⟨held.device rfl held.lock rfl rfl (fun _ => rfl) rfl, ⟨remaining.symm, rings.used,
      rings.entry⟩, flow.permute ?_ rfl rfl rfl rfl flow.status, quiet⟩, .same rfl rfl rfl⟩
    have moved : (state.inflight ++ [chain]).Perm (chain :: state.inflight) :=
      List.perm_append_singleton chain state.inflight
    have shifted := ((moved.append_left rest).trans List.perm_middle).append_right state.completed
    rw [State.chains, State.chains, queued, ← head]
    exact shifted

/-- The third descriptor of a chain leads back to the entry of its first. -/
theorem Linked.last_addr {job : Job} (linked : Linked driver job) :
    (driver.desc (driver.desc (driver.desc (job.idx 0)).next).next).addr = .status (job.idx 0) := by
  rw [linked.first.2, linked.second.2]
  exact linked.last.2

theorem status_written {info : Nat → Info} {index other : Nat}
    (already : other ≠ index → (info other).status = 0) :
    (overwrite info index { info index with status := 0 } other).status = 0 := by
  by_cases same : other = index
  · rw [same, overwrite_self]
  · rw [overwrite_of_ne same]
    exact already same

theorem complete_safe {position : Nat} (safe : Safe state)
    (stepped : complete state position = some after) : Safe after ∧ Frame state after := by
  obtain ⟨held, rings, flow, quiet⟩ := safe
  unfold complete at stepped
  split at stepped
  · contradiction
  · rename_i chain found
    have present : chain ∈ state.chains :=
      List.mem_append_left _ (List.mem_append_right _ (List.mem_of_getElem? found))
    obtain ⟨owner, job, submitted, rfl, busy⟩ := flow.owners chain present
    have linked := held.linked owner job (Task.job_of_submitted submitted)
    simp only [linked.last_addr, Option.some.injEq] at stepped
    subst stepped
    obtain ⟨inside, here⟩ := List.getElem?_eq_some_iff.mp found
    have shorter := List.getElem_cons_eraseIdx_perm inside
    rw [here] at shorter
    have room : state.completed.length < NUM := by
      have bound := flow.chains_length held
      rw [chains_length] at bound
      omega
    refine ⟨⟨held.device rfl held.lock rfl rfl ?_ rfl, ⟨rings.avail, ?_, rings.entry⟩,
      flow.permute ?_ rfl rfl rfl rfl ?_, quiet⟩, .same rfl rfl rfl⟩
    · exact overwrite_congr Info.buffer (by rfl)
    · have below : gap state.driver.seen state.driver.usedIdx < NUM := by
        rw [rings.used_gap]
        exact room
      have narrow : gap state.driver.seen state.driver.usedIdx + 1 < 2 ^ 16 :=
        Nat.lt_of_le_of_lt below (by decide)
      refine (contents_push NUM_divides below narrow (job.idx 0)).trans ?_
      rw [rings.used, List.map_append]
      rfl
    · have last := (List.perm_append_singleton ⟨job.idx 0, job.request⟩ state.completed).append_left
        (state.inflight.eraseIdx position)
      have whole := (last.trans List.perm_middle).trans (shorter.append_right state.completed)
      rw [State.chains, State.chains, List.append_assoc, List.append_assoc]
      exact whole.append_left state.queued
    · intro chain present
      refine status_written fun different => ?_
      cases List.mem_append.mp present with
      | inl before => exact flow.status chain before
      | inr last => exact absurd (congrArg Chain.head (List.mem_singleton.mp last)) different

/-! ## The interrupt handler -/

theorem Flow.clear (flow : Flow state) (held : Held state) {job : Job} {rest : List Chain}
    (completed : state.completed = ⟨job.idx 0, job.request⟩ :: rest)
    (submitted : (state.task process).submitted = some job) (busy : state.disk job.buffer = true)
    {asleep : Fin count → Bool} (info : driver.info = state.driver.info) :
    Flow { state with
      driver
      asleep
      disk := overwrite state.disk job.buffer false
      completed := rest
      cleared := state.cleared ++ [(job.request, job.buffer)] } := by
  have mine := Task.job_of_submitted submitted
  have all : state.chains.Perm (⟨job.idx 0, job.request⟩ :: (state.queued ++ state.inflight ++ rest)) := by
    rw [State.chains, completed]
    exact List.perm_middle
  obtain ⟨absent, heads⟩ := List.nodup_cons.mp ((all.map Chain.head).nodup_iff.mp flow.heads)
  have inside : ∀ chain ∈ state.queued ++ state.inflight ++ rest, chain ∈ state.chains :=
    fun chain present => all.mem_iff.mpr (List.mem_cons_of_mem _ present)
  have disk : ∀ other job', other ≠ process → (state.task other).job = some job' →
      overwrite state.disk job.buffer false job'.buffer = state.disk job'.buffer :=
    fun other job' => held.disk_other (Task.buffer_of_job mine)
  have mineCleared : overwrite state.disk job.buffer false job.buffer = false := overwrite_self _ _ _
  constructor
  · exact heads
  · intro chain present
    obtain ⟨owner, job', found, rfl, busy'⟩ := flow.owners chain (inside chain present)
    have different : owner ≠ process := by
      rintro rfl
      rw [submitted] at found
      cases found
      exact absent (List.mem_map.mpr ⟨_, present, rfl⟩)
    exact ⟨owner, job', found, rfl,
      (disk owner job' different (Task.job_of_submitted found)).trans busy'⟩
  · intro other job' found busy'
    have different : other ≠ process := by
      rintro rfl
      rw [submitted] at found
      cases found
      exact Bool.false_ne_true (mineCleared.symm.trans busy')
    have before := flow.pending other job' found
      ((disk other job' different (Task.job_of_submitted found)).symm.trans busy')
    cases List.mem_cons.mp (all.mem_iff.mp before) with
    | inl same =>
      have requests := congrArg Chain.request same
      exact absurd (held.numbers other process job' job (Task.job_of_submitted found) mine requests)
        different
    | inr remains => exact remains
  · intro chain present
    rw [info]
    exact flow.status chain (completed ▸ List.mem_cons_of_mem _ present)
  · intro other buffer idx request found
    have different : other ≠ process := by
      rintro rfl
      rw [found] at submitted
      contradiction
    exact (disk other ⟨buffer, idx, request⟩ different (by rw [found]; rfl)).trans
      (flow.formatted other buffer idx request found)
  · intro other job' found
    show job'.request ∈ (state.cleared ++ [(job.request, job.buffer)]).map Prod.fst ↔
      overwrite state.disk job.buffer false job'.buffer = false
    rw [List.map_append, List.mem_append, List.map_singleton, List.mem_singleton]
    by_cases same : other = process
    · rw [same, mine] at found
      cases found
      exact iff_of_true (.inr rfl) mineCleared
    · have numbers : job'.request ≠ job.request :=
        fun equal => same (held.numbers other process job' job found mine equal)
      rw [disk other job' same found, ← flow.outcome other job' found]
      exact or_iff_left numbers
  · intro request buffer present
    cases List.mem_append.mp present with
    | inl before => exact flow.cleared request buffer before
    | inr last =>
      cases List.mem_singleton.mp last
      exact held.numbered process job mine
  · have new : job.request ∉ state.cleared.map Prod.fst := by
      rw [flow.outcome process job mine, busy]
      exact Bool.noConfusion
    show ((state.cleared ++ [(job.request, job.buffer)]).map Prod.fst).Nodup
    rw [List.map_append, List.map_singleton, ← List.concat_eq_append]
    exact flow.once.concat new

/-- The handler finds the entry of the oldest completion, and clears `b->disk` of its request. -/
theorem intrLoop_clears (safe : Safe state) (behind : state.driver.seen ≠ state.driver.usedIdx) :
    ∃ process job rest, state.completed = ⟨job.idx 0, job.request⟩ :: rest ∧
      (state.task process).submitted = some job ∧ state.disk job.buffer = true ∧
      intrLoop state = { state.wakeupBuffer job.buffer with
        driver := { state.driver with seen := state.driver.seen + 1#16 }
        disk := overwrite state.disk job.buffer false
        completed := rest
        cleared := state.cleared ++ [(job.request, job.buffer)] } := by
  have entries := safe.rings.used
  rw [contents_pop NUM_divides behind] at entries
  obtain ⟨chain, rest, completed, head, _⟩ := List.map_eq_cons_iff.mp entries.symm
  have oldest : chain ∈ state.completed := completed ▸ List.mem_cons_self
  obtain ⟨owner, job, submitted, rfl, busy⟩ :=
    safe.flow.owners chain (List.mem_append_right _ oldest)
  have status := safe.flow.status _ oldest
  have recorded := (safe.held.linked owner job (Task.job_of_submitted submitted)).recorded
  refine ⟨owner, job, rest, completed, submitted, busy, ?_⟩
  simp only [intrLoop, if_neg behind, ← head, status, recorded, ne_eq, not_true_eq_false, if_false,
    completed]
  rfl

theorem Rings.seen (rings : Rings state) {chain : Chain} {rest : List Chain}
    (completed : state.completed = chain :: rest)
    (behind : state.driver.seen ≠ state.driver.usedIdx) :
    contents NUM state.driver.usedRing (state.driver.seen + 1#16) state.driver.usedIdx =
      rest.map Chain.head := by
  have entries := rings.used
  rw [contents_pop NUM_divides behind, completed] at entries
  exact (List.cons.inj entries).2

/-! ## Steps -/

section

variable (safe : Safe state)

include safe

theorem intr_safe {handler : Fin handlers} (locked : state.lock = some (.handler handler)) :
    Safe (intrLoop state) ∧ Frame state (intrLoop state) := by
  by_cases empty : state.driver.seen = state.driver.usedIdx
  · rw [intrLoop, if_pos empty]
    refine ⟨safe.same fun other inside => ?_, .same rfl rfl rfl⟩
    have taken := safe.held.lock other inside
    rw [locked] at taken
    cases taken
  · obtain ⟨process, job, rest, completed, submitted, busy, clears⟩ := intrLoop_clears safe empty
    obtain ⟨held, rings, flow, quiet⟩ := safe
    rw [clears]
    refine ⟨⟨held.device rfl held.lock rfl rfl (fun _ => rfl) rfl,
      ⟨rings.avail, rings.seen completed empty, rings.entry⟩,
      flow.clear held completed submitted busy rfl, quiet⟩,
      .inl rfl, .inr ⟨job.request, job.buffer, ?_, ?_, rfl, rfl⟩⟩
    · rw [completed]
      rfl
    · exact held.numbered process job (Task.job_of_submitted submitted)

theorem call_safe (idle : (state.task process).buffer = none)
    (unlocked : ∀ other, (state.task other).buffer ≠ some buffer) :
    Safe (state.goto process (.entering buffer write) asleep) := by
  have here : state.task process = .idle := by
    cases task : state.task process with
    | idle => rfl
    | _ => rw [task] at idle; contradiction
  exact ⟨safe.held.call here unlocked, safe.rings.move nofun,
    safe.flow.move nofun nofun nofun (by rw [here]; nofun) safe.flow.status, safe.quiet⟩

theorem allocating_safe (here : state.task process = .allocating buffer write)
    (stepped : runProcess state process = some after) : Safe after ∧ Frame state after := by
  obtain ⟨held, rings, flow, quiet⟩ := safe
  cases alloc3Desc_cases state.driver with
  | inl taken =>
    obtain ⟨idx, free, allocated, granted⟩ := taken
    simp only [runProcess, here, allocated, Option.some.injEq] at stepped
    subst stepped
    exact ⟨⟨held.grant here granted, rings.move (by simp), flow.move (by simp) (by simp [Task.job])
      (by simp [Task.submitted]) (by simp [here, Task.submitted]) flow.status, quiet⟩,
      .same rfl rfl rfl⟩
  | inr failed =>
    obtain ⟨desc, free, allocated, restored⟩ := failed
    simp only [runProcess, here, allocated, Option.some.injEq] at stepped
    have woken : ∃ asleep, after = { state with
        driver := { state.driver with desc, free }
        task := overwrite state.task process (.entering buffer write)
        asleep
        lock := none } := by
      subst stepped
      split <;> exact ⟨_, rfl⟩
    obtain ⟨asleep, rfl⟩ := woken
    refine ⟨⟨?_, rings.move (by simp), flow.move (by simp) (by simp [Task.job])
      (by simp [Task.submitted]) (by simp [here, Task.submitted]) flow.status, quiet⟩,
      .same rfl rfl rfl⟩
    exact held.congr (task_congr here Task.idx rfl) (task_congr here Task.job rfl)
      (held.buffers_keep here rfl) restored.free restored.desc (fun _ => rfl) rfl
      (held.lock_release here rfl rfl)

theorem freeing_safe (here : state.task process = .freeing buffer idx request)
    (stepped : runProcess state process = some after) : Safe after ∧ Frame state after := by
  obtain ⟨held, rings, flow, quiet⟩ := safe
  obtain ⟨desc, free, freed, after_held⟩ := held.free here
  simp only [runProcess, here, freed, Option.some.injEq] at stepped
  subst stepped
  refine ⟨⟨after_held _ rfl rfl rfl rfl, rings.move nofun, flow.move nofun nofun nofun
    (by rw [here]; nofun) fun chain present => ?_, quiet⟩, .same rfl rfl rfl⟩
  exact (Driver.forget_status _ _ _).trans (flow.status chain present)

theorem runProcess_safe (stepped : runProcess state process = some after) :
    Safe after ∧ Frame state after := by
  have held := safe.held
  have ran := stepped
  unfold runProcess at stepped
  generalize here : state.task process = task at stepped
  cases task with
  | idle => cases stepped
  | entering buffer write =>
    simp only [Option.ite_none_right_eq_some, Option.some.injEq] at stepped
    obtain ⟨⟨unlocked, _⟩, rfl⟩ := stepped
    exact ⟨safe.move here rfl rfl rfl nofun nofun nofun (held.lock_acquire unlocked), .same rfl rfl rfl⟩
  | allocating buffer write => exact allocating_safe safe here ran
  | formatting buffer write idx =>
    cases stepped
    have room := safe.flow.room held here rfl rfl
    refine ⟨⟨held.format here, safe.rings.format held here room, safe.flow.format held here,
      safe.quiet⟩, .inr ⟨process, buffer, write, idx, here, rfl⟩, .inl ⟨rfl, fun other busy => ?_⟩⟩
    by_cases same : other = buffer
    · rw [same]
      exact overwrite_self _ _ _
    · exact (overwrite_of_ne same).trans busy
  | publishing buffer idx request =>
    cases stepped
    have room := safe.flow.room held here rfl rfl
    refine ⟨⟨?_, safe.rings.publish held here room, safe.flow.publish held here, safe.quiet⟩,
      .same rfl rfl rfl⟩
    exact held.congr (task_congr here Task.idx rfl) (task_congr here Task.job rfl)
      (held.buffers_keep here rfl) rfl (fun _ _ => rfl) (fun _ => rfl) rfl
      (held.lock_keep here rfl)
  | testing buffer idx request =>
    simp only at stepped
    split at stepped
    · cases stepped
      exact ⟨safe.move here rfl rfl rfl nofun (fun _ found => found) (fun _ found _ => found)
        (held.lock_release here rfl rfl), .same rfl rfl rfl⟩
    · rename_i done
      cases stepped
      refine ⟨safe.move here rfl rfl rfl nofun nofun ?_
        (held.lock_keep here rfl), .same rfl rfl rfl⟩
      rintro _ ⟨⟩ busy
      exact absurd busy done
  | waiting buffer idx request =>
    simp only [Option.ite_none_right_eq_some, Option.some.injEq] at stepped
    obtain ⟨⟨unlocked, _⟩, rfl⟩ := stepped
    exact ⟨safe.move here rfl rfl rfl nofun (fun _ found => found) (fun _ found _ => found)
      (held.lock_acquire unlocked), .same rfl rfl rfl⟩
  | freeing buffer idx request => exact freeing_safe safe here ran

theorem runHandler_safe {handler : Fin handlers} (stepped : runHandler state handler = some after) :
    Safe after ∧ Frame state after := by
  unfold runHandler at stepped
  split at stepped
  · rename_i locked
    cases stepped
    exact intr_safe safe locked
  · simp only [Option.ite_none_right_eq_some, Option.some.injEq] at stepped
    obtain ⟨unlocked, rfl⟩ := stepped
    refine ⟨safe.same fun other inside => ?_, .same rfl rfl rfl⟩
    have taken := safe.held.lock other inside
    rw [unlocked] at taken
    contradiction

theorem step_safe {event : Event count handlers} (stepped : step state event = some after) :
    Safe after ∧ Frame state after := by
  unfold step at stepped
  split at stepped
  · contradiction
  · cases event with
    | call process buffer write =>
      simp only [Option.ite_none_right_eq_some, Option.some.injEq] at stepped
      obtain ⟨⟨idle, unlocked⟩, rfl⟩ := stepped
      exact ⟨call_safe safe idle unlocked, .same rfl rfl rfl⟩
    | run process => exact runProcess_safe safe stepped
    | interrupt handler => exact runHandler_safe safe stepped
    | consume => exact consume_safe safe stepped
    | complete position => exact complete_safe safe stepped
    | kill process =>
      cases stepped
      exact ⟨safe.same safe.held.lock, .same rfl rfl rfl⟩

end

/-! ## What a step leaves alone -/

/-- An entry of the avail ring stays until the device has consumed it. -/
theorem Frame.keeps_entry (frame : Frame state after) (safe : Safe state) {offset : Nat}
    (waiting : offset < gap state.consumed state.driver.availIdx) :
    after.driver.availRing (slot NUM state.consumed offset) =
      state.driver.availRing (slot NUM state.consumed offset) := by
  cases frame.entries with
  | inl same => rw [same]
  | inr written =>
    obtain ⟨process, buffer, write, idx, here, stored⟩ := written
    rw [stored]
    have room := safe.rings.avail_room (safe.flow.room safe.held here rfl rfl)
    exact overwrite_of_ne (slot_ne_write NUM_divides room waiting)

/-- A buffer is done when the handler sees the completion of its request. -/
theorem Frame.cleared_by (frame : Frame state after) (busy : state.disk buffer = true)
    (done : after.disk buffer = false) :
    ∃ request, state.completed.head?.map Chain.request = some request ∧
      state.requests[request]? = some buffer ∧
      after.cleared = state.cleared ++ [(request, buffer)] := by
  cases frame.clears with
  | inl kept =>
    rw [kept.2 buffer busy] at done
    contradiction
  | inr clear =>
    obtain ⟨request, other, oldest, owner, cleared, disk⟩ := clear
    by_cases same : buffer = other
    · subst same
      exact ⟨request, oldest, owner, cleared⟩
    · rw [disk, overwrite_of_ne same, busy] at done
      contradiction

theorem initial_safe (initial : (machine count handlers).initial state) : Safe state := by
  obtain ⟨free, availIdx, usedIdx, seen, consumed, inflight, lock, idle, panic, requests, queued,
    completed, cleared⟩ := initial
  have noChains : state.chains = [] := by
    rw [State.chains, queued, inflight, completed]
    rfl
  constructor
  · constructor
    · constructor
      · rintro ⟨index, impossible, _⟩
        contradiction
      · intro place present
        rw [target, idle] at present
        contradiction
      · intro place other present
        rw [target, idle] at present
        contradiction
      · rintro block ⟨index, rfl, below, taken⟩
        rw [free index below] at taken
        contradiction
    all_goals
      intro process
      rw [idle]
      intros
      contradiction
  · constructor
    · rw [consumed, availIdx, contents_self, queued]
      rfl
    · rw [seen, usedIdx, contents_self, completed]
      rfl
    · simp [idle]
  · constructor <;> simp [noChains, idle, completed, cleared, Task.submitted, Task.job]
  · exact panic

/-! ## Runs -/

theorem Held.partition (held : Held state) (index : Nat) (below : index < NUM) :
    (state.driver.free index = true ∧ ∀ place, target state.task place ≠ some index) ∨
      (state.driver.free index = false ∧ ∃! place, target state.task place = some index) := by
  cases free : state.driver.free index with
  | true =>
    refine .inl ⟨rfl, fun place found => ?_⟩
    obtain ⟨_, same, _, taken⟩ := held.exact.marked place (by rw [found]; nofun)
    rw [found] at same
    cases same
    rw [free] at taken
    contradiction
  | false =>
    obtain ⟨place, found⟩ := held.exact.covered (some index) ⟨index, rfl, below, free⟩
    refine .inr ⟨rfl, place, found, fun other there => ?_⟩
    exact held.exact.unique other place (by rw [there]; nofun) (there.trans found.symm)

/-- No request is completed twice: those cleared and those under way are different. -/
theorem Flow.requests_nodup (flow : Flow state) (held : Held state) :
    (state.cleared.map Prod.fst ++ state.chains.map Chain.request).Nodup := by
  have requests : (state.chains.map Chain.request).Nodup := by
    refine (List.nodup_map_iff_inj_on (flow.heads.of_map _)).mpr fun chain present other there same => ?_
    obtain ⟨owner, job, found, rfl, _⟩ := flow.owners chain present
    obtain ⟨owner', job', found', rfl, _⟩ := flow.owners other there
    obtain rfl := held.numbers owner owner' job job' (Task.job_of_submitted found)
      (Task.job_of_submitted found') same
    rw [found] at found'
    cases found'
    rfl
  refine List.nodup_append.mpr ⟨flow.once, requests, fun request cleared other member same => ?_⟩
  subst same
  obtain ⟨chain, present, rfl⟩ := List.mem_map.mp member
  obtain ⟨owner, job, found, rfl, busy⟩ := flow.owners chain present
  have done := (flow.outcome owner job (Task.job_of_submitted found)).mp cleared
  rw [busy] at done
  contradiction

/-- In every reachable state a descriptor is free or in exactly one position of one request,
whose chain is linked, nothing has panicked, and no step overwrites an entry of the avail
ring that the device has not consumed.  A request that is not done is in one of the rings or
with the device; each iteration of the handler takes the oldest completion and clears
`b->disk` of the buffer of its request, and nothing else clears it. -/
theorem disk_requests_safe (reached : Reachable (machine count handlers) state) :
    (∀ index, index < NUM →
      (state.driver.free index = true ∧ ∀ place, target state.task place ≠ some index) ∨
        (state.driver.free index = false ∧ ∃! place, target state.task place = some index)) ∧
    (∀ place index, target state.task place = some index → index < NUM) ∧
    (∀ process job, (state.task process).job = some job → Linked state.driver job) ∧
    state.panic = none ∧
    contents NUM state.driver.availRing state.consumed state.driver.availIdx =
      state.queued.map Chain.head ∧
    (state.cleared.map Prod.fst ++ state.chains.map Chain.request).Nodup ∧
    (∀ request buffer, (request, buffer) ∈ state.cleared →
      state.requests[request]? = some buffer) ∧
    (∀ process job, (state.task process).job = some job →
      (job.request ∈ state.cleared.map Prod.fst ↔ state.disk job.buffer = false)) ∧
    contents NUM state.driver.usedRing state.driver.seen state.driver.usedIdx =
      state.completed.map Chain.head ∧
    (∀ process job, (state.task process).submitted = some job → state.disk job.buffer = true →
      ⟨job.idx 0, job.request⟩ ∈ state.chains) ∧
    (∀ handler, state.lock = some (.handler handler) → state.driver.seen ≠ state.driver.usedIdx →
      ∃ process job rest after, state.completed = ⟨job.idx 0, job.request⟩ :: rest ∧
        (state.task process).submitted = some job ∧ state.disk job.buffer = true ∧
        step state (.interrupt handler) = some after ∧
        after.disk = overwrite state.disk job.buffer false ∧
        after.cleared = state.cleared ++ [(job.request, job.buffer)] ∧
        after.completed = rest ∧ after.driver.seen = state.driver.seen + 1#16) ∧
    ∀ event after, step state event = some after →
      (∀ offset, offset < gap state.consumed state.driver.availIdx →
        after.driver.availRing (slot NUM state.consumed offset) =
          state.driver.availRing (slot NUM state.consumed offset)) ∧
      ∀ buffer, state.disk buffer = true → after.disk buffer = false →
        ∃ request, state.completed.head?.map Chain.request = some request ∧
          state.requests[request]? = some buffer ∧
          after.cleared = state.cleared ++ [(request, buffer)] := by
  have safe : Safe state := reached.invariant (fun _ => initial_safe)
    fun _ _ _ safe stepped => (step_safe safe stepped).1
  refine ⟨safe.held.partition, fun place index found => ?_, safe.held.linked, safe.quiet,
    safe.rings.avail, safe.flow.requests_nodup safe.held, safe.flow.cleared, safe.flow.outcome,
    safe.rings.used, safe.flow.pending, fun handler locked behind => ?_, fun event after stepped => ?_⟩
  · obtain ⟨_, same, below, _⟩ := safe.held.exact.marked place (by rw [found]; nofun)
    rw [found] at same
    cases same
    exact below
  · obtain ⟨process, job, rest, completed, submitted, busy, clears⟩ := intrLoop_clears safe behind
    refine ⟨process, job, rest, intrLoop state, completed, submitted, busy, ?_, ?_⟩
    · simp [step, safe.quiet, runHandler, locked]
    · rw [clears]
      exact ⟨rfl, rfl, rfl, rfl⟩
  · have frame := (step_safe safe stepped).2
    exact ⟨fun offset => frame.keeps_entry safe, fun buffer => frame.cleared_by⟩

/-- Two processes; the device completes the second request first, and one interrupt
sees both. -/
def twoRequests : List (Event 2 1) :=
  [.call 0 7 false, .run 0, .run 0, .run 0, .run 0, .run 0, .call 1 8 true, .run 1, .run 1, .run 1,
    .run 1, .run 1, .consume, .consume, .complete 1, .complete 0, .interrupt 0, .interrupt 0,
    .interrupt 0, .interrupt 0, .run 0, .run 0, .run 0]

def quietDisk : State 2 1 where
  driver := ⟨fun _ => ⟨.null, 0, 0⟩, fun _ => true, fun _ => ⟨none, 0⟩, 0, fun _ => 0, 0, fun _ => 0, 0⟩
  disk _ := false
  lock := none
  task _ := .idle
  asleep _ := false
  consumed := 0
  inflight := []
  panic := none
  requests := []
  queued := []
  completed := []
  cleared := []

theorem disk_requests_safe_two_requests : ∃ state : State 2 1, Reachable (machine 2 1) state ∧
    state.cleared = [(1, 8), (0, 7)] ∧ state.panic = none := by
  have ran : ((machine 2 1).execute quietDisk twoRequests).map (fun state => state.cleared) =
      some [(1, 8), (0, 7)] := by
    decide +kernel
  obtain ⟨state, executed, cleared⟩ := Option.map_eq_some_iff.mp ran
  have reached : Reachable (machine 2 1) state :=
    .of_execute ⟨fun _ _ => rfl, rfl, rfl, rfl, rfl, rfl, rfl, fun _ => rfl, rfl, rfl, rfl, rfl, rfl⟩
      executed
  exact ⟨state, reached, cleared, (disk_requests_safe reached).2.2.2.1⟩

end Xv6.Virtio
