import Mathlib.Algebra.Group.Pi.Lemmas
import Mathlib.Data.Fintype.Prod
import Mathlib.Data.Int.Basic
import Mathlib.Tactic.Abel
import Xv6.Data.Ensures
import Xv6.Data.Ownership
import Xv6.Ftable.Calls

namespace Xv6.Ftable

open Xv6.Data

/-! # Who owns what

An entry of the file table is owned by the descriptors that point to it, and by the call in
progress: `held` is how many more references the call has than descriptors show, which is
negative while a descriptor is there before its reference.  An entry owns one end of a pipe
or one reference to an inode; `pending` is an inode reference that a call still has to store
or put.
-/

inductive Resource where
  | inode (ip : Nat)
  | pipe (page : Nat) (writable : Bool)

def File.resource (entry : File) : Option Resource :=
  match entry.type with
  | .none => none
  | .pipe => some (.pipe entry.pipe entry.writable)
  | .inode | .device => some (.inode entry.ip)

def Pipe.isOpen (pipe : Pipe) (writable : Bool) : Bool :=
  if writable then pipe.writeopen else pipe.readopen

variable {procs files fds : Nat}

def State.outstanding (state : State procs files fds) (pending : Option Nat) :
    Option Resource → Prop
  | none => False
  | some (.inode ip) => ip < state.lookups ∧ ip ∉ state.iputs ∧ pending ≠ some ip
  | some (.pipe page writable) => ∃ pipe, state.page page = some pipe ∧ pipe.isOpen writable

def State.unfreed (state : State procs files fds) : Option Nat → Prop
  | none => False
  | some number => number < state.pipes ∧ number ∉ state.freed

structure Owned (state : State procs files fds) (held : Fin files → Int) (pending : Option Nat) :
    Prop where
  counted : ∀ file, ((state.ftable file).ref : Int) = references state.ofile file + held file
  typed : ∀ file, (state.ftable file).ref = 0 → (state.ftable file).type = .none
  vacant : ∀ process fd, ¬state.live process → state.ofile (process, fd) = none
  resources : Exact none (fun file => (state.ftable file).resource) (state.outstanding pending)
  pages : Exact none (fun page => (state.page page).map Pipe.number) state.unfreed
  alive : ∀ page pipe, state.page page = some pipe → pipe.readopen ∨ pipe.writeopen
  freedOnce : state.freed.Nodup
  freedPast : ∀ number ∈ state.freed, number < state.pipes
  iputOnce : state.iputs.Nodup
  iputPast : ∀ ip ∈ state.iputs, ip < state.lookups
  pendingPast : ∀ ip, pending = some ip → ip < state.lookups ∧ ip ∉ state.iputs

variable {state : State procs files fds} {held : Fin files → Int} {pending : Option Nat}
  {file : Fin files} {process : Fin procs} {fd : Fin fds}

theorem Owned.cast {held' : Fin files → Int} (owned : Owned state held pending)
    (same : held' = held) : Owned state held' pending := same ▸ owned

theorem Owned.ref_pos (owned : Owned state held pending) (holds : 0 < held file) :
    0 < (state.ftable file).ref := by
  have counted := owned.counted file
  omega

theorem Owned.ref_pos_of_ofile (owned : Owned state 0 pending)
    (found : state.ofile (process, fd) = some file) : 0 < (state.ftable file).ref := by
  have counted := owned.counted file
  have positive := references_pos found
  simp only [Pi.zero_apply] at counted
  omega

/-! ## Single changes -/

theorem Owned.setRef (owned : Owned state held pending) (ref : Nat)
    (typed : ref = 0 → (state.ftable file).type = .none) :
    Owned (state.setFile file { state.ftable file with ref })
      (held + Pi.single file ((ref : Int) - (state.ftable file).ref)) pending := { owned with
  counted := by
    intro other
    have counted := owned.counted other
    by_cases same : other = file
    · subst same
      simp only [State.setFile, overwrite_self, Pi.add_apply, Pi.single_eq_same]
      omega
    · simp only [State.setFile, overwrite_of_ne same, Pi.add_apply, Pi.single_eq_of_ne same]
      omega
  typed := overwrite_rec (p := fun _ (entry : File) => entry.ref = 0 → entry.type = .none) typed
    fun other _ => owned.typed other
  resources := by
    refine owned.resources.congr (fun other => ?_) fun _ => Iff.rfl
    apply overwrite_congr File.resource
    rfl }

theorem Owned.fill (owned : Owned state held pending) (free : state.ofile (process, fd) = none)
    (live : state.live process = true) (file : Fin files) :
    Owned (state.setOfile process fd (some file)) (held - Pi.single file 1) pending := { owned with
  counted := by
    intro other
    have counted := owned.counted other
    simp only [State.setOfile, references_fill free other, Pi.sub_apply, Pi.single_apply]
    split <;> push_cast <;> omega
  vacant := by
    intro other fd' notLive
    refine (overwrite_of_ne fun same => ?_).trans (owned.vacant other fd' notLive)
    cases same
    exact notLive live }

theorem Owned.clear (owned : Owned state held pending)
    (found : state.ofile (process, fd) = some file) :
    Owned (state.setOfile process fd none) (held + Pi.single file 1) pending := { owned with
  counted := by
    intro other
    have counted := owned.counted other
    have cleared := references_clear found other
    simp only [State.setOfile, Pi.add_apply, Pi.single_apply]
    split <;> simp_all only [if_true, if_false] <;> omega
  vacant := by
    intro other fd' notLive
    have before := owned.vacant other fd' notLive
    exact overwrite_rec (p := fun place target => state.ofile place = none → target = none)
      (fun _ => rfl) (fun _ _ => id) (other, fd') before }

/-! ## Inode references -/

theorem Owned.lookup (owned : Owned state held none) :
    Owned { state with lookups := state.lookups + 1 } held (some state.lookups) := { owned with
  resources := by
    refine owned.resources.congr (fun _ => rfl) fun resource => ?_
    cases resource with
    | none => exact Iff.rfl
    | some resource =>
      cases resource with
      | pipe page writable => exact Iff.rfl
      | inode ip =>
        simp only [State.outstanding, Nat.lt_succ_iff, ne_eq, Option.some.injEq, reduceCtorEq,
          not_false_eq_true, and_true]
        constructor
        · intro outside
          exact ⟨by omega, outside.2.1⟩
        · intro outside
          exact ⟨by omega, outside.2, by omega⟩
  iputPast := fun ip member => Nat.lt_succ_of_lt (owned.iputPast ip member)
  pendingPast := by
    intro ip same
    cases same
    exact ⟨Nat.lt_succ_self _, fun member => Nat.lt_irrefl _ (owned.iputPast _ member)⟩ }

theorem Owned.iput {ip : Nat} (owned : Owned state held (some ip)) :
    Owned (iput state ip) held none := { owned with
  resources := by
    refine owned.resources.congr (fun _ => rfl) fun resource => ?_
    cases resource with
    | none => exact Iff.rfl
    | some resource =>
      cases resource with
      | pipe page writable => exact Iff.rfl
      | inode other =>
        simp only [State.outstanding, Ftable.iput, List.mem_cons, not_or, ne_eq, reduceCtorEq,
          not_false_eq_true, and_true, Option.some.injEq]
        constructor
        · intro outside
          exact ⟨outside.1, outside.2.2, Ne.symm outside.2.1⟩
        · intro outside
          exact ⟨outside.1, Ne.symm outside.2.2, outside.2.1⟩
  iputOnce := List.nodup_cons.mpr ⟨(owned.pendingPast ip rfl).2, owned.iputOnce⟩
  iputPast := by
    intro other member
    cases List.mem_cons.mp member with
    | inl same => exact same ▸ (owned.pendingPast ip rfl).1
    | inr older => exact owned.iputPast other older
  pendingPast := nofun }

theorem Owned.store {ip : Nat} {entry : File} (owned : Owned state held (some ip))
    (untyped : (state.ftable file).type = .none) (sameRef : entry.ref = (state.ftable file).ref)
    (used : 0 < entry.ref) (resource : entry.resource = some (.inode ip)) :
    Owned (state.setFile file entry) held none := { owned with
  counted := by
    intro other
    refine Eq.trans ?_ (owned.counted other)
    exact congrArg _ (overwrite_congr File.ref sameRef other)
  typed := overwrite_rec (p := fun _ (entry : File) => entry.ref = 0 → entry.type = .none)
    (fun zero => absurd zero (Nat.ne_of_gt used)) fun other _ => owned.typed other
  resources := by
    have past := owned.pendingPast ip rfl
    have vacant : (state.ftable file).resource = none := by simp only [File.resource, untyped]
    have unused : ¬state.outstanding (some ip) (some (.inode ip)) :=
      fun outstanding => outstanding.2.2 rfl
    refine owned.resources.grow vacant unused (by simp) ?_ ?_ ?_
    · simp only [State.setFile, overwrite_self, resource]
    · intro other different
      simp only [State.setFile, overwrite_of_ne different]
    · intro other
      rcases other with _ | other | ⟨page, writable⟩
      · simp [State.outstanding]
      · simp only [State.outstanding, State.setFile, ne_eq, reduceCtorEq, not_false_eq_true,
          and_true, Option.some.injEq, Resource.inode.injEq]
        constructor
        · intro outside
          cases Decidable.eq_or_ne other ip with
          | inl same => exact .inr same
          | inr different => exact .inl ⟨outside.1, outside.2, Ne.symm different⟩
        · intro either
          cases either with
          | inl outside => exact ⟨outside.1, outside.2.1⟩
          | inr same => exact same ▸ past
      · simp [State.outstanding, State.setFile]
  pendingPast := by simp }

/-! ## Pipes -/

def Pipe.shut (pipe : Pipe) (writable : Bool) : Pipe :=
  if writable then { pipe with writeopen := false } else { pipe with readopen := false }

theorem Pipe.isOpen_shut (pipe : Pipe) (writable other : Bool) :
    (pipe.shut writable).isOpen other ↔ pipe.isOpen other ∧ writable ≠ other := by
  cases writable <;> cases other <;> simp [Pipe.shut, Pipe.isOpen]

theorem Pipe.isOpen_iff (pipe : Pipe) :
    (∃ writable, pipe.isOpen writable = true) ↔ pipe.readopen ∨ pipe.writeopen := by
  simp [Pipe.isOpen]

theorem pipeclose_eq {page : Nat} {pipe : Pipe} (found : state.page page = some pipe)
    (writable : Bool) : pipeclose state page writable =
      if (pipe.shut writable).readopen ∨ (pipe.shut writable).writeopen then
        .ok (state.setPage page (some (pipe.shut writable)))
      else
        .ok { state.setPage page none with freed := pipe.number :: state.freed } := by
  obtain ⟨readopen, writeopen, number⟩ := pipe
  unfold pipeclose
  cases writable <;> cases readopen <;> cases writeopen <;> simp [found, Pipe.shut]

/-- What a closed pipe end leaves outstanding, whether or not the page is freed. -/
theorem outstanding_shut {page : Nat} {pipe : Pipe} {left : Option Pipe} {writable : Bool}
    {after : State procs files fds} (found : state.page page = some pipe)
    (changed : after.page = overwrite state.page page left)
    (lookups : after.lookups = state.lookups) (iputs : after.iputs = state.iputs)
    (open_left : ∀ other, (∃ pipe, left = some pipe ∧ pipe.isOpen other) ↔
      (pipe.shut writable).isOpen other)
    (resource : Option Resource) :
    after.outstanding pending resource ↔
      state.outstanding pending resource ∧ some (.pipe page writable) ≠ resource := by
  match resource with
  | none => simp [State.outstanding]
  | some (.inode ip) => simp [State.outstanding, lookups, iputs]
  | some (.pipe page' other) =>
    simp only [State.outstanding, changed, ne_eq, Option.some.injEq, Resource.pipe.injEq]
    cases Decidable.eq_or_ne page' page with
    | inl same =>
      subst same
      rw [overwrite_self, open_left, pipe.isOpen_shut]
      simp [found]
    | inr different =>
      rw [overwrite_of_ne different]
      simp [Ne.symm different]

theorem Owned.makePipe {f0 f1 : Fin files} {page : Nat} (owned : Owned state held pending)
    (different : f0 ≠ f1) (untyped0 : (state.ftable f0).type = .none)
    (untyped1 : (state.ftable f1).type = .none) (used0 : 0 < (state.ftable f0).ref)
    (used1 : 0 < (state.ftable f1).ref) (free : state.page page = none) :
    Owned (state.makePipe f0 f1 page) held pending := by
  have at0 : ((state.makePipe f0 f1 page).ftable f0).resource = some (.pipe page false) := by
    simp only [State.makePipe, State.setFile, State.setPage, overwrite_of_ne different, overwrite_self]
    rfl
  have at1 : ((state.makePipe f0 f1 page).ftable f1).resource = some (.pipe page true) := by
    simp only [State.makePipe, State.setFile, State.setPage, overwrite_self]
    rfl
  have elsewhere : ∀ other, ¬(other = f0 ∨ other = f1) →
      (state.makePipe f0 f1 page).ftable other = state.ftable other := by
    intro other outside
    rw [not_or] at outside
    simp only [State.makePipe, State.setFile, State.setPage, overwrite_of_ne outside.1,
      overwrite_of_ne outside.2]
  have sameRef : ∀ other, ((state.makePipe f0 f1 page).ftable other).ref = (state.ftable other).ref := by
    intro other
    refine (overwrite_congr File.ref ?_ other).trans (overwrite_congr File.ref ?_ other)
    · rfl
    · rfl
  exact { owned with
    counted := fun other => (congrArg _ (sameRef other)).trans (owned.counted other)
    typed := by
      intro other zero
      rw [sameRef] at zero
      rw [elsewhere other]
      · exact owned.typed other zero
      · rintro (rfl | rfl)
        · exact absurd zero (Nat.ne_of_gt used0)
        · exact absurd zero (Nat.ne_of_gt used1)
    resources := by
      have absent : ∀ writable, ¬state.outstanding pending (some (.pipe page writable)) := by
        rintro writable ⟨pipe, found, _⟩
        rw [free] at found
        contradiction
      refine owned.resources.extend (fun other => other = f0 ∨ other = f1) ?_ ?_ ?_ ?_ ?_ ?_
      · rintro _ (rfl | rfl)
        · simp only [File.resource, untyped0]
        · simp only [File.resource, untyped1]
      · rintro _ (rfl | rfl)
        · rw [at0]
          exact absent false
        · rw [at1]
          exact absent true
      · rintro _ (rfl | rfl)
        · simp [at0]
        · simp [at1]
      · rintro _ _ (rfl | rfl) (rfl | rfl) equal
        · rfl
        · rw [at0, at1] at equal
          cases equal
        · rw [at0, at1] at equal
          cases equal
        · rfl
      · intro other outside
        rw [elsewhere other outside]
      · intro resource
        simp only [or_and_right, exists_or, exists_eq_left, at0, at1]
        rcases resource with _ | ip | ⟨page', writable⟩
        · simp [State.outstanding]
        · simp [State.outstanding, State.makePipe, State.setFile, State.setPage]
        · simp only [State.outstanding, State.makePipe, State.setFile, State.setPage]
          cases Decidable.eq_or_ne page' page with
          | inl same =>
            subst same
            rw [overwrite_self]
            cases writable <;> simp [Pipe.isOpen]
          | inr different =>
            rw [overwrite_of_ne different]
            simp [Ne.symm different]
    pages := by
      have vacant : (state.page page).map Pipe.number = none := by rw [free, Option.map_none]
      have unused : ¬state.unfreed (some state.pipes) := fun unfreed => Nat.lt_irrefl _ unfreed.1
      refine owned.pages.grow vacant unused (by simp) ?_ ?_ ?_
      · simp only [State.makePipe, State.setFile, State.setPage, overwrite_self, Option.map_some]
      · intro other different
        simp only [State.makePipe, State.setFile, State.setPage, overwrite_of_ne different]
      · intro number
        cases number with
        | none => simp [State.unfreed]
        | some number =>
          simp only [State.unfreed, State.makePipe, State.setFile, State.setPage,
            Nat.lt_succ_iff_lt_or_eq, Option.some.injEq]
          constructor
          · rintro ⟨before | same, unfreed⟩
            · exact .inl ⟨before, unfreed⟩
            · exact .inr same
          · rintro (⟨before, unfreed⟩ | same)
            · exact ⟨.inl before, unfreed⟩
            · refine ⟨.inr same, fun member => ?_⟩
              exact absurd (owned.freedPast number member) (same ▸ Nat.lt_irrefl _)
    alive := overwrite_rec
      (p := fun _ (entry : Option Pipe) => ∀ pipe, entry = some pipe → pipe.readopen ∨ pipe.writeopen)
      (fun _ same => Option.some.inj same ▸ .inl rfl) fun other _ => owned.alive other
    freedPast := fun number member => Nat.lt_succ_of_lt (owned.freedPast number member) }

/-! ## `fileclose` -/

section Close

variable (owned : Owned state held pending) (last : (state.ftable file).ref = 1)

include owned last

theorem Owned.closed_counted (other : Fin files) :
    ((overwrite state.ftable file { state.ftable file with ref := 0, type := .none } other).ref : Int) =
      references state.ofile other + (held - Pi.single file 1 : Fin files → Int) other := by
  have counted := owned.counted other
  by_cases same : other = file
  · subst same
    simp only [overwrite_self, Pi.sub_apply, Pi.single_eq_same]
    omega
  · simp only [overwrite_of_ne same, Pi.sub_apply, Pi.single_eq_of_ne same]
    omega

omit last in
theorem Owned.closed_typed (other : Fin files) :
    (overwrite state.ftable file { state.ftable file with ref := 0, type := .none } other).ref = 0 →
      (overwrite state.ftable file { state.ftable file with ref := 0, type := .none } other).type =
        .none :=
  overwrite_rec (p := fun _ (entry : File) => entry.ref = 0 → entry.type = .none) (fun _ => rfl)
    (fun other _ => owned.typed other) other

omit last in
theorem Owned.closed_resources {after : State procs files fds}
    (rest : ∀ resource, after.outstanding pending resource ↔
      state.outstanding pending resource ∧ (state.ftable file).resource ≠ resource) :
    Exact none (fun other => (overwrite state.ftable file
        { state.ftable file with ref := 0, type := .none } other).resource)
      (after.outstanding pending) := by
  refine owned.resources.shrink (?_ : ∀ other, other = file → _) ?_ ?_
  · intro other same
    rw [same, overwrite_self]
    rfl
  · intro other different
    rw [overwrite_of_ne different]
  · intro resource
    rw [rest, forall_eq]

end Close

/-- What calls on the file table leave alone. -/
structure Frame (before after : State procs files fds) : Prop where
  ofile : after.ofile = before.ofile
  live : after.live = before.live
  initproc : after.initproc = before.initproc
  panic : after.panic = before.panic

theorem Frame.refl (state : State procs files fds) : Frame state state := ⟨rfl, rfl, rfl, rfl⟩

theorem Frame.trans {first second third : State procs files fds} (one : Frame first second)
    (two : Frame second third) : Frame first third :=
  ⟨two.ofile.trans one.ofile, two.live.trans one.live, two.initproc.trans one.initproc,
    two.panic.trans one.panic⟩

theorem Owned.close_none (owned : Owned state held pending) (last : (state.ftable file).ref = 1)
    (untyped : (state.ftable file).type = .none) :
    Owned (state.setFile file { state.ftable file with ref := 0, type := .none })
      (held - Pi.single file 1) pending := { owned with
  counted := owned.closed_counted last
  typed := owned.closed_typed
  resources := by
    apply owned.closed_resources
    intro resource
    cases resource with
    | none => simp [State.outstanding]
    | some resource => simp [File.resource, untyped, State.outstanding, State.setFile] }

theorem Owned.close_inode (owned : Owned state held pending) (last : (state.ftable file).ref = 1)
    {ip : Nat} (holds : (state.ftable file).resource = some (.inode ip)) :
    Owned (Ftable.iput (state.setFile file { state.ftable file with ref := 0, type := .none }) ip)
      (held - Pi.single file 1) pending := by
  have stored : state.outstanding pending (some (.inode ip)) :=
    holds ▸ owned.resources.marked file (holds ▸ nofun)
  exact { owned with
    counted := owned.closed_counted last
    typed := owned.closed_typed
    resources := by
      apply owned.closed_resources
      intro resource
      rw [holds]
      match resource with
      | none => simp [State.outstanding]
      | some (.pipe page writable) => simp [State.outstanding, Ftable.iput, State.setFile]
      | some (.inode other) =>
        simp only [State.outstanding, Ftable.iput, State.setFile, List.mem_cons, not_or, ne_eq,
          Option.some.injEq, Resource.inode.injEq, eq_comm (a := ip)]
        tauto
    iputOnce := List.nodup_cons.mpr ⟨stored.2.1, owned.iputOnce⟩
    iputPast := by
      intro other member
      cases List.mem_cons.mp member with
      | inl same => exact same ▸ stored.1
      | inr older => exact owned.iputPast other older
    pendingPast := by
      intro other same
      refine ⟨(owned.pendingPast other same).1, fun member => ?_⟩
      cases List.mem_cons.mp member with
      | inl equal => exact stored.2.2 (equal ▸ same)
      | inr older => exact (owned.pendingPast other same).2 older }

theorem Owned.close_pipe (owned : Owned state held pending) (last : (state.ftable file).ref = 1)
    {page : Nat} {writable : Bool}
    (holds : (state.ftable file).resource = some (.pipe page writable)) :
    Ensures (fun _ => False)
      (fun after => Owned after (held - Pi.single file 1) pending ∧ Frame state after)
      (pipeclose (state.setFile file { state.ftable file with ref := 0, type := .none }) page
        writable) := by
  have stored : state.outstanding pending (some (.pipe page writable)) :=
    holds ▸ owned.resources.marked file (by simp [holds])
  obtain ⟨pipe, found, _⟩ := stored
  have number : (state.page page).map Pipe.number = some pipe.number := by rw [found]; rfl
  have unfreed : state.unfreed (some pipe.number) :=
    number ▸ owned.pages.marked page (by simp [number])
  have opened : (state.setFile file { state.ftable file with ref := 0, type := .none }).page page =
      some pipe := found
  rw [pipeclose_eq opened]
  have sameNumber : (pipe.shut writable).number = pipe.number := by
    unfold Pipe.shut
    split <;> rfl
  split
  · rename_i stays
    refine ⟨{ owned with
      counted := owned.closed_counted last
      typed := owned.closed_typed
      resources := ?_
      pages := ?_
      alive := ?_ }, rfl, rfl, rfl, rfl⟩
    · apply owned.closed_resources
      rw [holds]
      exact outstanding_shut found rfl rfl rfl fun other => by simp
    · refine owned.pages.congr (fun other => ?_) fun _ => Iff.rfl
      apply overwrite_congr (Option.map Pipe.number)
      exact (congrArg some sameNumber).trans number.symm
    · exact overwrite_rec
        (p := fun _ (entry : Option Pipe) => ∀ pipe, entry = some pipe → pipe.readopen ∨ pipe.writeopen)
        (fun _ same => Option.some.inj same ▸ stays) fun other _ => owned.alive other
  · rename_i goes
    refine ⟨{ owned with
      counted := owned.closed_counted last
      typed := owned.closed_typed
      resources := ?_
      pages := ?_
      alive := ?_
      freedOnce := List.nodup_cons.mpr ⟨unfreed.2, owned.freedOnce⟩
      freedPast := ?_ }, rfl, rfl, rfl, rfl⟩
    · apply owned.closed_resources
      rw [holds]
      refine outstanding_shut found rfl rfl rfl fun other => ?_
      have closed : ¬(pipe.shut writable).isOpen other :=
        fun isOpen => goes ((Pipe.isOpen_iff _).mp ⟨other, isOpen⟩)
      simp [closed]
    · refine owned.pages.shrink (?_ : ∀ other, other = page → _) ?_ ?_
      · intro other same
        simp only [State.setPage, same, overwrite_self, Option.map_none]
      · intro other different
        simp only [State.setPage, State.setFile, overwrite_of_ne different]
      · intro other
        cases other with
        | none => simp [State.unfreed]
        | some other =>
          simp only [State.unfreed, State.setPage, State.setFile, forall_eq, number, List.mem_cons,
            not_or, ne_eq, Option.some.injEq, eq_comm (a := pipe.number)]
          tauto
    · exact overwrite_rec
        (p := fun _ (entry : Option Pipe) => ∀ pipe, entry = some pipe → pipe.readopen ∨ pipe.writeopen)
        (by simp) fun other _ => owned.alive other
    · intro other member
      cases List.mem_cons.mp member with
      | inl same => exact same ▸ unfreed.1
      | inr older => exact owned.freedPast other older

theorem Owned.fileclose (owned : Owned state held pending) (used : 0 < (state.ftable file).ref) :
    Ensures (fun _ => False)
      (fun after => Owned after (held - Pi.single file 1) pending ∧ Frame state after)
      (fileclose state file) := by
  unfold Ftable.fileclose
  simp only [if_neg (Nat.not_lt.mpr used)]
  split
  · rename_i more
    refine ⟨(owned.setRef ((state.ftable file).ref - 1) (by omega)).cast ?_, rfl, rfl, rfl, rfl⟩
    have dropped : (((state.ftable file).ref - 1 : Nat) : Int) - (state.ftable file).ref = -1 := by
      omega
    rw [dropped, Pi.single_neg, sub_eq_add_neg]
  · have last : (state.ftable file).ref = 1 := by omega
    cases here : (state.ftable file).type with
    | none => exact ⟨owned.close_none last here, rfl, rfl, rfl, rfl⟩
    | pipe => exact owned.close_pipe last (by simp only [File.resource, here])
    | inode
    | device => exact ⟨owned.close_inode last (by simp only [File.resource, here]), rfl, rfl, rfl, rfl⟩

end Xv6.Ftable
