import Xv6.Ftable.CallSpec

namespace Xv6.Ftable

open Xv6.Data Xv6.Transition

/-! # Reference counts of open files, between calls -/

variable {procs files fds : Nat} {state : State procs files fds}

/-- An open entry is an end of the pipe. -/
def State.endOf (state : State procs files fds) (number : Nat) (file : Fin files) : Prop :=
  0 < (state.ftable file).ref ∧ (state.ftable file).type = .pipe ∧
    (state.page (state.ftable file).pipe).map Pipe.number = some number

/-- An open entry has the inode reference. -/
def State.holder (state : State procs files fds) (ip : Nat) (file : Fin files) : Prop :=
  0 < (state.ftable file).ref ∧
    ((state.ftable file).type = .inode ∨ (state.ftable file).type = .device) ∧
    (state.ftable file).ip = ip

/-- Counts agree with descriptors, and what was given up with the entries that are closed. -/
structure Accounted (state : State procs files fds) : Prop where
  counted : ∀ file, (state.ftable file).ref = references state.ofile file
  closed : ∀ file, (state.ftable file).ref = 0 → (state.ftable file).type = .none
  descriptor : ∀ place file, state.ofile place = some file → 0 < (state.ftable file).ref
  freedOnce : state.freed.Nodup
  freed : ∀ number, number ∈ state.freed ↔
    number < state.pipes ∧ ∀ file, ¬state.endOf number file
  /-- Two open entries share a pipe only as its two ends. -/
  ends : ∀ number file other, state.endOf number file → state.endOf number other →
    (state.ftable file).writable = (state.ftable other).writable → file = other
  /-- The pages of pipes are those that open entries use. -/
  pages : ∀ page, (state.page page).isSome ↔
    ∃ file, 0 < (state.ftable file).ref ∧ (state.ftable file).type = .pipe ∧
      (state.ftable file).pipe = page
  iputOnce : state.iputs.Nodup
  iput : ∀ ip, ip ∈ state.iputs ↔ ip < state.lookups ∧ ∀ file, ¬state.holder ip file
  holders : ∀ ip file other, state.holder ip file → state.holder ip other → file = other

def Unchanged (state after : State procs files fds) : Prop :=
  after.ofile = state.ofile ∧ ∀ file, (after.ftable file).ref = (state.ftable file).ref

theorem File.resource_pipe {entry : File} {page : Nat} {writable : Bool} :
    entry.resource = some (.pipe page writable) ↔
      entry.type = .pipe ∧ entry.pipe = page ∧ entry.writable = writable := by
  unfold File.resource
  split <;> simp_all

theorem File.resource_inode {entry : File} {ip : Nat} : entry.resource = some (.inode ip) ↔
      (entry.type = .inode ∨ entry.type = .device) ∧ entry.ip = ip := by
  unfold File.resource
  split <;> simp_all

section

variable (owned : Owned state 0 none)

include owned

theorem Owned.ref_pos_of_type {file : Fin files} (typed : (state.ftable file).type ≠ .none) :
    0 < (state.ftable file).ref :=
  Nat.pos_of_ne_zero fun zero => typed (owned.typed file zero)

/-- A page in use has an open entry. -/
theorem Owned.page_end {page : Nat} {pipe : Pipe} (found : state.page page = some pipe) :
    ∃ file, 0 < (state.ftable file).ref ∧ (state.ftable file).type = .pipe ∧
      (state.ftable file).pipe = page := by
  obtain ⟨writable, isOpen⟩ := pipe.isOpen_iff.mpr (owned.alive page pipe found)
  obtain ⟨file, stored⟩ := owned.resources.covered (some (.pipe page writable)) ⟨pipe, found, isOpen⟩
  obtain ⟨type, same, _⟩ := File.resource_pipe.mp stored
  exact ⟨file, owned.ref_pos_of_type (type ▸ nofun), type, same⟩

/-- An entry of a pipe has a page that is not freed. -/
theorem Owned.pipe_page {file : Fin files} (type : (state.ftable file).type = .pipe) :
    ∃ pipe, state.page (state.ftable file).pipe = some pipe := by
  have stored := File.resource_pipe.mpr ⟨type, rfl, rfl⟩
  obtain ⟨pipe, found, _⟩ := stored ▸ owned.resources.marked file (stored ▸ nofun)
  exact ⟨pipe, found⟩

theorem Owned.endOf_unfreed {number : Nat} {file : Fin files} (isEnd : state.endOf number file) :
    number < state.pipes ∧ number ∉ state.freed := by
  obtain ⟨_, _, same⟩ := isEnd
  have unfreed : state.unfreed (some number) :=
    same ▸ owned.pages.marked (state.ftable file).pipe (same ▸ nofun)
  exact unfreed

theorem Owned.mem_freed (number : Nat) :
    number ∈ state.freed ↔ number < state.pipes ∧ ∀ file, ¬state.endOf number file := by
  constructor
  · intro member
    exact ⟨owned.freedPast number member, fun file isEnd => (owned.endOf_unfreed isEnd).2 member⟩
  · rintro ⟨past, noEnd⟩
    by_contra unfreed
    obtain ⟨page, covered⟩ := owned.pages.covered (some number) ⟨past, unfreed⟩
    obtain ⟨pipe, found, _⟩ := Option.map_eq_some_iff.mp covered
    obtain ⟨file, used, type, same⟩ := owned.page_end found
    exact noEnd file ⟨used, type, same ▸ covered⟩

theorem Owned.mem_iputs (ip : Nat) :
    ip ∈ state.iputs ↔ ip < state.lookups ∧ ∀ file, ¬state.holder ip file := by
  constructor
  · refine fun member => ⟨owned.iputPast ip member, fun file holder => ?_⟩
    have stored := File.resource_inode.mpr holder.2
    have outstanding := stored ▸ owned.resources.marked file (stored ▸ nofun)
    exact outstanding.2.1 member
  · rintro ⟨past, noHolder⟩
    by_contra outside
    obtain ⟨file, stored⟩ := owned.resources.covered (some (.inode ip)) ⟨past, outside, nofun⟩
    have holds := File.resource_inode.mp stored
    refine noHolder file ⟨owned.ref_pos_of_type ?_, holds⟩
    obtain type | type := holds.1
    · exact type ▸ nofun
    · exact type ▸ nofun

theorem Owned.accounted : Accounted state where
  counted := by
    intro file
    have counted := owned.counted file
    simp only [Pi.zero_apply] at counted
    omega
  closed := owned.typed
  descriptor := fun _ _ found => owned.ref_pos_of_ofile found
  freedOnce := owned.freedOnce
  freed := owned.mem_freed
  ends := by
    rintro number file other ⟨_, type, same⟩ ⟨_, type', same'⟩ writable
    have page : (state.ftable file).pipe = (state.ftable other).pipe :=
      owned.pages.unique _ _ (by simp [same]) (same.trans same'.symm)
    have stored := File.resource_pipe.mpr ⟨type, rfl, rfl⟩
    have stored' := File.resource_pipe.mpr ⟨type', page.symm, writable.symm⟩
    exact owned.resources.unique file other (by simp [stored]) (stored.trans stored'.symm)
  pages := by
    intro page
    constructor
    · intro present
      obtain ⟨pipe, found⟩ := Option.isSome_iff_exists.mp present
      exact owned.page_end found
    · rintro ⟨file, _, type, rfl⟩
      exact Option.isSome_iff_exists.mpr (owned.pipe_page type)
  iputOnce := owned.iputOnce
  iput := owned.mem_iputs
  holders := by
    intro ip file other holder holder'
    have stored := File.resource_inode.mpr holder.2
    have stored' := File.resource_inode.mpr holder'.2
    exact owned.resources.unique file other (by simp [stored]) (stored.trans stored'.symm)

end

theorem initial_owned (initial : (machine procs files fds).initial state) : Owned state 0 none := by
  obtain ⟨_, ofile, ref, type, page, pipes, freed, lookups, iputs, _⟩ := initial
  have noResource : ∀ file, (state.ftable file).resource = none := by
    intro file
    simp only [File.resource, type]
  constructor
  · intro file
    rw [ref, references_eq_zero fun place => by simp [ofile]]
    rfl
  · exact fun file _ => type file
  · exact fun process fd _ => ofile (process, fd)
  · refine ⟨id, fun file present => absurd (noResource file) present,
      fun file _ present => absurd (noResource file) present, fun resource used => ?_⟩
    rcases resource with _ | ip | ⟨number, writable⟩
    · contradiction
    · exact absurd used.1 (lookups ▸ Nat.not_lt_zero ip)
    · obtain ⟨pipe, found, _⟩ := used
      simp [page] at found
  · refine ⟨id, fun number present => absurd (by simp [page]) present,
      fun number _ present => absurd (by simp [page]) present, fun number used => ?_⟩
    cases number with
    | none => contradiction
    | some number => exact absurd used.1 (pipes ▸ Nat.not_lt_zero number)
  · simp [page]
  · exact freed ▸ List.nodup_nil
  · simp [freed]
  · exact iputs ▸ List.nodup_nil
  · simp [iputs]
  · simp

theorem syscall_owned {process : Fin procs} {call : Call procs} (owned : Owned state 0 none)
    (live : state.live process = true) (possible : call.possible state = true) :
    Ensures (fun reason => reason = .initExiting)
      (fun after => Owned after 0 none ∧ after.panic = state.panic)
      (syscall state process call) := by
  have completes : ∀ {computation : Except Panic (Int × State procs files fds)},
      Ensures (fun _ => False) (Completed state) computation →
      Ensures (fun reason => reason = .initExiting)
        (fun after => Owned after 0 none ∧ after.panic = state.panic) (computation.map Prod.snd) := by
    intro computation completed
    refine ((completed.mono fun _ done => ?_).mono_errors fun _ => False.elim).map
    exact ⟨done.owned, done.panic⟩
  cases call with
  | «open» lookup omode => exact completes (sysOpen_completed owned live lookup omode)
  | dup fd => exact completes (sysDup_completed owned live fd)
  | pipe kalloc copied =>
    refine completes (sysPipe_completed owned live kalloc copied fun page same => ?_)
    subst same
    exact Option.isNone_iff_eq_none.mp possible
  | close fd => exact completes (sysClose_completed owned fd)
  | fork child allocated =>
    refine (fork_owned owned ?_ allocated).mono_errors fun _ => False.elim
    simpa [Call.possible] using possible
  | exit => exact exit_owned owned

/-- Between calls. -/
structure Rested (state : State procs files fds) : Prop where
  owned : Owned state 0 none
  panic : state.panic = none ∨ state.panic = some .initExiting

theorem initial_rested (initial : (machine procs files fds).initial state) : Rested state := by
  refine ⟨initial_owned initial, .inl ?_⟩
  obtain ⟨_, _, _, _, _, _, _, _, _, panic⟩ := initial
  exact panic

theorem step_rested {event : Fin procs × Call procs} {after : State procs files fds}
    (owned : Owned state 0 none) (stepped : step state event = some after) : Rested after := by
  unfold step at stepped
  split at stepped
  · rename_i enabled
    obtain ⟨running, live, possible⟩ := enabled
    have ensured := syscall_owned owned live possible
    split at stepped
    · rename_i result called
      cases stepped
      rw [called] at ensured
      exact ⟨ensured.1, .inl (ensured.2.trans (Option.isNone_iff_eq_none.mp running))⟩
    · rename_i reason called
      cases stepped
      rw [called] at ensured
      exact ⟨{ owned with }, .inr (congrArg some ensured)⟩
  · contradiction

theorem reachable_rested (reachable : Reachable (machine procs files fds) state) : Rested state :=
  reachable.invariant (fun _ initial => initial_rested initial)
    fun _ _ _ rested stepped => step_rested rested.owned stepped

/-- The counts follow from the descriptors. -/
theorem Completed.unchanged {after : State procs files fds}
    {computation : Except Panic (Int × State procs files fds)} (owned : Owned state 0 none)
    (completed : Ensures (fun _ => False) (Completed state) computation)
    (failed : computation = .ok (-1, after)) : Unchanged state after := by
  subst failed
  have same := completed.failed rfl
  refine ⟨same, fun file => ?_⟩
  rw [completed.owned.accounted.counted file, owned.accounted.counted file]
  exact congrArg (references · file) same

/-- The reference counts are those of the open descriptors, and a call that fails leaves the
descriptors and the counts as they were. -/
theorem open_files_accounted (reachable : Reachable (machine procs files fds) state) :
    Accounted state ∧ (state.panic = none ∨ state.panic = some .initExiting) ∧
    (∀ process lookup omode after, state.live process →
      sysOpen state process lookup omode = .ok (-1, after) → Unchanged state after) ∧
    (∀ process fd after, state.live process →
      sysDup state process fd = .ok (-1, after) → Unchanged state after) ∧
    (∀ process kalloc copied after, state.live process →
      (∀ page, kalloc = some page → state.page page = none) →
      sysPipe state process kalloc copied = .ok (-1, after) → Unchanged state after) := by
  obtain ⟨owned, panic⟩ := reachable_rested reachable
  refine ⟨owned.accounted, panic, ?_, ?_, ?_⟩
  · intro process lookup omode after live failed
    exact Completed.unchanged owned (sysOpen_completed owned live lookup omode) failed
  · intro process fd after live failed
    exact Completed.unchanged owned (sysDup_completed owned live fd) failed
  · intro process kalloc copied after live free failed
    exact Completed.unchanged owned (sysPipe_completed owned live kalloc copied free) failed

/-- Process 0 without open files. -/
def boot (procs files fds : Nat) [NeZero procs] : State procs files fds where
  live process := decide (process = 0)
  ofile _ := none
  ftable _ := ⟨0, .none, false, false, 0, 0, 0, 0⟩
  initproc := 0
  page _ := none
  pipes := 0
  freed := []
  lookups := 0
  iputs := []
  panic := none

theorem initial_boot (procs files fds : Nat) [NeZero procs] :
    (machine procs files fds).initial (boot procs files fds) :=
  ⟨⟨0, fun _ => rfl⟩, fun _ => rfl, fun _ => rfl, fun _ => rfl, fun _ => rfl, rfl, rfl, rfl, rfl, rfl⟩

/-- A pipe whose write end the child keeps open, and a failing call with a full file table. -/
theorem open_files_accounted_shared_pipe : ∃ state : State 2 2 3, Reachable (machine 2 2 3) state ∧
      state.ofile (1, 1) = some 1 ∧ (state.ftable 1).ref = 1 ∧ state.freed = [] ∧
      Accounted state := by
  have ran : ((machine 2 2 3).execute (boot 2 2 3)
      [(0, .pipe (some 7) true), (0, .fork 1 true), (0, .close 0), (0, .close 1), (1, .close 0),
        (1, .open (some ⟨.device, 1⟩) O_RDWR), (1, .pipe (some 8) true)]).map
      (fun state => (state.ofile (1, 1), (state.ftable 1).ref, state.freed)) =
        some (some 1, 1, []) := by
    decide +kernel
  obtain ⟨state, executed, facts⟩ := Option.map_eq_some_iff.mp ran
  simp only [Prod.mk.injEq] at facts
  have reachable := Reachable.of_execute (initial_boot 2 2 3) executed
  exact ⟨state, reachable, facts.1, facts.2.1, facts.2.2, (open_files_accounted reachable).1⟩

end Xv6.Ftable
