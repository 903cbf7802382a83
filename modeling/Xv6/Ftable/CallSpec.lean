import Xv6.Ftable.Ownership

namespace Xv6.Ftable

open Xv6.Data Xv6.Transition

/-! # What each call does to the ownership of open files -/

variable {procs files fds : Nat} {state after : State procs files fds} {held : Fin files → Int}
  {pending : Option Nat} {file : Fin files} {process : Fin procs} {fd : Fin fds}

/-! ## Allocation -/

theorem filealloc_eq (found : filealloc state = some (file, after)) : (state.ftable file).ref = 0 ∧
      after = state.setFile file { state.ftable file with ref := 1 } := by
  obtain ⟨first, searched, same⟩ := Option.map_eq_some_iff.mp found
  cases same
  have zero := List.find?_some searched
  exact ⟨of_decide_eq_true zero, rfl⟩

theorem Owned.filealloc (owned : Owned state held pending)
    (found : filealloc state = some (file, after)) :
    Owned after (held + Pi.single file 1) pending ∧ Frame state after ∧
      (after.ftable file).type = .none := by
  obtain ⟨free, rfl⟩ := filealloc_eq found
  refine ⟨(owned.setRef 1 nofun).cast ?_, ⟨rfl, rfl, rfl, rfl⟩, ?_⟩
  · rw [free, Nat.cast_one, Nat.cast_zero, sub_zero]
  · simp only [State.setFile, overwrite_self]
    exact owned.typed file free

theorem fdalloc_eq (found : fdalloc state process file = some (fd, after)) :
    state.ofile (process, fd) = none ∧ after = state.setOfile process fd (some file) := by
  obtain ⟨first, searched, same⟩ := Option.map_eq_some_iff.mp found
  cases same
  have free := List.find?_some searched
  exact ⟨of_decide_eq_true free, rfl⟩

theorem Owned.filedup (owned : Owned state held pending) (used : 0 < (state.ftable file).ref) :
    Ensures (fun _ => False)
      (fun after => Owned after (held + Pi.single file 1) pending ∧ Frame state after)
      (filedup state file) := by
  unfold Ftable.filedup
  rw [if_neg (Nat.not_lt.mpr used)]
  refine ⟨(owned.setRef ((state.ftable file).ref + 1) nofun).cast ?_, rfl, rfl, rfl, rfl⟩
  rw [Nat.cast_add, add_sub_cancel_left, Nat.cast_one]

def heldBy (list : List (Fin files)) : Fin files → Int := fun file => list.count file

theorem heldBy_cons (file : Fin files) (rest : List (Fin files)) :
    heldBy (file :: rest) = heldBy rest + Pi.single file 1 := by
  funext other
  simp only [heldBy, List.count_cons, Pi.add_apply, Pi.single_apply, beq_iff_eq, eq_comm (a := file)]
  split <;> simp

theorem Owned.filecloseAll {list : List (Fin files)} (owned : Owned state (heldBy list) pending) :
    Ensures (fun _ => False) (fun after => Owned after 0 pending ∧ Frame state after)
      (filecloseAll state list) := by
  induction list generalizing state with
  | nil => exact ⟨owned, .refl state⟩
  | cons file rest ih =>
    have used : 0 < (state.ftable file).ref := by
      apply owned.ref_pos
      simp only [heldBy, List.count_cons_self]
      omega
    refine (owned.fileclose used).bind fun after done => ?_
    have left : Owned after (heldBy rest) pending := done.1.cast (by rw [heldBy_cons]; abel)
    exact (ih left).mono fun _ closed => ⟨closed.1, done.2.trans closed.2⟩

/-! ## System calls -/

/-- After a complete call; one that fails leaves the descriptors as they were. -/
structure Completed (state : State procs files fds) (result : Int × State procs files fds) :
    Prop where
  owned : Owned result.2 0 none
  live : result.2.live = state.live
  initproc : result.2.initproc = state.initproc
  panic : result.2.panic = state.panic
  failed : result.1 = -1 → result.2.ofile = state.ofile

theorem Completed.of_frame {result : Int} (owned : Owned after 0 none) (frame : Frame state after) :
    Completed state (result, after) :=
  ⟨owned, frame.live, frame.initproc, frame.panic, fun _ => frame.ofile⟩

theorem argfd_eq {number : Int} (found : argfd state process number = some (fd, file)) :
    state.ofile (process, fd) = some file := by
  unfold argfd at found
  split at found
  · obtain ⟨target, stored, same⟩ := Option.map_eq_some_iff.mp found
    cases same
    exact stored
  · contradiction

section

variable (owned : Owned state 0 none) (live : state.live process = true)

include owned live

theorem sysDup_completed (number : Int) :
    Ensures (fun _ => False) (Completed state) (sysDup state process number) := by
  unfold sysDup
  cases argument : argfd state process number with
  | none => exact Completed.of_frame owned (.refl state)
  | some found =>
    obtain ⟨place, file⟩ := found
    simp only
    cases allocated : fdalloc state process file with
    | none => exact Completed.of_frame owned (.refl state)
    | some filled =>
      obtain ⟨copy, filled⟩ := filled
      obtain ⟨free, rfl⟩ := fdalloc_eq allocated
      have used := owned.ref_pos_of_ofile (argfd_eq argument)
      refine ((owned.fill free live file).filedup used).bind fun after done => ?_
      obtain ⟨owned, frame⟩ := done
      refine ⟨owned.cast ?_, frame.live, frame.initproc, frame.panic, fun failed => ?_⟩
      · abel
      · simp only at failed
        omega

omit live in
theorem sysClose_completed (number : Int) :
    Ensures (fun _ => False) (Completed state) (sysClose state process number) := by
  unfold sysClose
  cases argument : argfd state process number with
  | none => exact Completed.of_frame owned (.refl state)
  | some found =>
    obtain ⟨fd, file⟩ := found
    have stored := argfd_eq argument
    have used := owned.ref_pos_of_ofile stored
    refine ((owned.clear stored).fileclose used).bind fun after done => ?_
    obtain ⟨owned, frame⟩ := done
    refine ⟨owned.cast ?_, frame.live, frame.initproc, frame.panic, fun failed => ?_⟩
    · abel
    · cases failed

theorem sysOpen_completed (lookup : Option Inode) (omode : Nat) :
    Ensures (fun _ => False) (Completed state) (sysOpen state process lookup omode) := by
  unfold sysOpen
  cases lookup with
  | none => exact Completed.of_frame owned (.refl state)
  | some inode =>
    have looked := owned.lookup
    simp only
    split
    · exact Completed.of_frame looked.iput ⟨rfl, rfl, rfl, rfl⟩
    split
    · exact Completed.of_frame looked.iput ⟨rfl, rfl, rfl, rfl⟩
    split
    · exact Completed.of_frame looked.iput ⟨rfl, rfl, rfl, rfl⟩
    rename_i file allocated found
    obtain ⟨allocOwned, allocFrame, untyped⟩ := looked.filealloc found
    have used : 0 < (allocated.ftable file).ref := allocOwned.ref_pos (by simp)
    split
    · refine (allocOwned.fileclose used).bind fun after done => ?_
      obtain ⟨owned, frame⟩ := done
      refine .of_frame (owned.iput.cast ?_) ?_
      · abel
      · have whole := allocFrame.trans frame
        exact ⟨whole.ofile, whole.live, whole.initproc, whole.panic⟩
    · rename_i fd filled given
      obtain ⟨free, rfl⟩ := fdalloc_eq given
      have filled := allocOwned.fill free (allocFrame.live ▸ live) file
      refine ⟨(filled.store untyped ?_ ?_ ?_).cast ?_, allocFrame.live, allocFrame.initproc,
        allocFrame.panic, fun failed => ?_⟩
      · split <;> rfl
      · split <;> exact used
      · split <;> rfl
      · abel
      · simp only at failed
        omega

omit live in
theorem pipealloc_owned (kalloc : Option Nat)
    (free : ∀ page, kalloc = some page → state.page page = none) :
    Ensures (fun _ => False)
      (fun result => Frame state result.2 ∧ match result.1 with
        | none => Owned result.2 0 none
        | some (rf, wf) => Owned result.2 (heldBy [rf, wf]) none)
      (pipealloc state kalloc) := by
  unfold pipealloc
  split
  · exact ⟨.refl state, owned⟩
  rename_i f0 first found0
  obtain ⟨owned0, frame0, untyped0⟩ := owned.filealloc found0
  split
  · have held : Owned first (heldBy [f0]) none := owned0.cast (heldBy_cons f0 [])
    refine held.filecloseAll.bind fun after done => ?_
    exact ⟨frame0.trans done.2, done.1⟩
  rename_i f1 second found1
  obtain ⟨owned1, frame1, untyped1⟩ := owned0.filealloc found1
  have frame := frame0.trans frame1
  have held : Owned second (heldBy [f0, f1]) none := by
    refine owned1.cast ?_
    rw [heldBy_cons, heldBy_cons]
    exact add_right_comm _ _ _
  cases kalloc with
  | none =>
    refine held.filecloseAll.bind fun after done => ?_
    exact ⟨frame.trans done.2, done.1⟩
  | some page =>
    have free0 := filealloc_eq found0
    have free1 := filealloc_eq found1
    have used0 : 0 < (first.ftable f0).ref := owned0.ref_pos (by simp)
    have different : f0 ≠ f1 := by
      rintro rfl
      omega
    have samePage : second.page = state.page := by
      rw [free1.2, free0.2]
      rfl
    have sameEntry : second.ftable f0 = first.ftable f0 := by
      rw [free1.2]
      exact overwrite_of_ne different
    have made := held.makePipe different (sameEntry ▸ untyped0) untyped1
      (held.ref_pos (by simp [heldBy])) (held.ref_pos (by simp [heldBy]))
      (samePage ▸ free page rfl)
    exact ⟨⟨frame.ofile, frame.live, frame.initproc, frame.panic⟩, made⟩

omit owned live in
theorem pipeBad_completed {list : List (Fin fds)} {rf wf : Fin files}
    {before made : State procs files fds}
    (undone : list.foldl (fun state fd => state.setOfile process fd none) before = made)
    (owned : Owned made (heldBy [rf, wf]) none) (frame : Frame state made) :
    Ensures (fun _ => False) (Completed state) (pipeBad before process list rf wf) := by
  unfold pipeBad
  rw [undone]
  exact owned.filecloseAll.bind fun _ done => .of_frame done.1 (frame.trans done.2)

omit owned live in
theorem setOfile_undo (free : state.ofile (process, fd) = none) (file : Fin files) :
    (state.setOfile process fd (some file)).setOfile process fd none = state := by
  unfold State.setOfile
  congr 1
  funext place
  by_cases here : place = (process, fd)
  · rw [here, overwrite_self, free]
  · exact (overwrite_of_ne here).trans (overwrite_of_ne here)

omit owned live in
theorem setOfile_comm {other : Fin fds} (different : fd ≠ other) (one two : Option (Fin files)) :
    (state.setOfile process fd one).setOfile process other two =
      (state.setOfile process other two).setOfile process fd one := by
  simp only [State.setOfile, overwrite_eq_update]
  rw [Function.update_comm]
  exact fun same => different (congrArg Prod.snd same)

theorem sysPipe_completed (kalloc : Option Nat) (copied : Bool)
    (free : ∀ page, kalloc = some page → state.page page = none) :
    Ensures (fun _ => False) (Completed state) (sysPipe state process kalloc copied) := by
  unfold sysPipe
  refine (pipealloc_owned owned kalloc free).bind fun result done => ?_
  obtain ⟨ends, made⟩ := result
  obtain ⟨frame, owned⟩ := done
  cases ends with
  | none => exact Completed.of_frame owned frame
  | some ends =>
    obtain ⟨rf, wf⟩ := ends
    simp only at owned frame ⊢
    have madeLive : made.live process = true := frame.live ▸ live
    split
    · exact pipeBad_completed rfl owned frame
    rename_i fd0 filled given
    obtain ⟨free0, rfl⟩ := fdalloc_eq given
    split
    · exact pipeBad_completed (setOfile_undo free0 rf) owned frame
    rename_i fd1 both given1
    obtain ⟨free1, rfl⟩ := fdalloc_eq given1
    split
    · have filled := (owned.fill free0 madeLive rf).fill free1 madeLive wf
      refine ⟨filled.cast ?_, frame.live, frame.initproc, frame.panic, nofun⟩
      rw [heldBy_cons, heldBy_cons, add_sub_cancel_right, add_sub_cancel_right]
      rfl
    · -- The second descriptor is another one, which was free from the start.
      obtain ⟨_, filled⟩ | ⟨different, free1⟩ :=
        overwrite_cases (p := fun target : Option (Fin files) => target = none) free1
      · cases filled
      · refine pipeBad_completed ?_ owned frame
        have other : fd1 ≠ fd0 := fun same => different (congrArg (Prod.mk process) same)
        simp only [List.foldl_cons, List.foldl_nil]
        rw [setOfile_comm other, setOfile_undo free0, setOfile_undo free1]

end

/-! ## Processes -/

theorem dupFiles_owned {child : Fin procs} {list : List (Fin fds)} (owned : Owned state 0 none)
    (live : state.live child = true) (nodup : list.Nodup)
    (fresh : ∀ fd ∈ list, state.ofile (child, fd) = none) :
    Ensures (fun _ => False)
      (fun after => Owned after 0 none ∧ after.panic = state.panic)
      (dupFiles process child list state) := by
  induction list generalizing state with
  | nil => exact ⟨owned, rfl⟩
  | cons fd rest ih =>
    have ⟨first, others⟩ := List.nodup_cons.mp nodup
    unfold dupFiles
    split
    · exact ih owned live others fun fd member => fresh fd (List.mem_cons_of_mem _ member)
    · rename_i file found
      refine (owned.filedup (owned.ref_pos_of_ofile found)).bind fun after done => ?_
      obtain ⟨dupOwned, frame⟩ := done
      have free : after.ofile (child, fd) = none := frame.ofile ▸ fresh fd List.mem_cons_self
      have afterLive : after.live child = true := frame.live ▸ live
      have filled := dupOwned.fill free afterLive file
      refine (ih (filled.cast (add_sub_cancel_right _ _).symm) afterLive others ?_).mono ?_
      · intro other member
        have different : (child, other) ≠ (child, fd) := by
          rintro ⟨⟩
          exact first member
        refine (overwrite_of_ne different).trans ?_
        exact frame.ofile ▸ fresh other (List.mem_cons_of_mem _ member)
      · exact fun last kept => ⟨kept.1, kept.2.trans frame.panic⟩

theorem fork_owned {child : Fin procs} (owned : Owned state 0 none)
    (free : ¬state.live child) (allocated : Bool) :
    Ensures (fun _ => False) (fun after => Owned after 0 none ∧ after.panic = state.panic)
      (fork state process child allocated) := by
  unfold fork
  split
  · have born : Owned { state with live := overwrite state.live child true } 0 none := { owned with
      vacant := by
        intro other fd dead
        obtain ⟨_, absurdly⟩ | ⟨_, dead⟩ :=
          overwrite_cases (p := fun live : Bool => ¬live = true) dead
        · exact absurd rfl absurdly
        · exact owned.vacant other fd dead }
    exact dupFiles_owned born (overwrite_self _ _ _) (List.nodup_finRange fds)
      fun fd _ => owned.vacant child fd free
  · exact ⟨owned, rfl⟩

theorem closeFiles_owned {list : List (Fin fds)} (owned : Owned state 0 none) :
    Ensures (fun _ => False)
      (fun after => Owned after 0 none ∧ after.panic = state.panic ∧
        (∀ fd, fd ∈ list ∨ state.ofile (process, fd) = none → after.ofile (process, fd) = none))
      (closeFiles process list state) := by
  induction list generalizing state with
  | nil => exact ⟨owned, rfl, fun fd before => before.resolve_left List.not_mem_nil⟩
  | cons fd rest ih =>
    unfold closeFiles
    split
    · rename_i empty
      refine (ih owned).mono fun after kept => ⟨kept.1, kept.2.1, fun other before => ?_⟩
      apply kept.2.2 other
      obtain member | empty := before
      · cases List.mem_cons.mp member with
        | inl same => exact .inr (same ▸ empty)
        | inr later => exact .inl later
      · exact .inr empty
    · rename_i file found
      refine (owned.fileclose (owned.ref_pos_of_ofile found)).bind fun closed done => ?_
      obtain ⟨closedOwned, frame⟩ := done
      have stored : closed.ofile (process, fd) = some file := frame.ofile ▸ found
      have cleared := (closedOwned.clear stored).cast (sub_add_cancel _ _).symm
      refine (ih cleared).mono fun after kept => ⟨kept.1, kept.2.1.trans frame.panic, ?_⟩
      intro other before
      apply kept.2.2 other
      obtain member | empty := before
      · cases List.mem_cons.mp member with
        | inl same =>
          subst same
          exact .inr (overwrite_self _ _ _)
        | inr later => exact .inl later
      · refine .inr ?_
        refine overwrite_rec (p := fun place target => state.ofile place = none → target = none)
          (fun _ => rfl) (fun place _ empty => ?_) (process, other) empty
        exact frame.ofile ▸ empty

theorem exit_owned (owned : Owned state 0 none) : Ensures (fun reason => reason = .initExiting)
      (fun after => Owned after 0 none ∧ after.panic = state.panic) (exit state process) := by
  unfold exit
  split
  · rfl
  · refine ((closeFiles_owned owned).mono_errors fun _ => False.elim).bind fun after done => ?_
    obtain ⟨owned, panic, empty⟩ := done
    refine ⟨{ owned with vacant := ?_ }, panic⟩
    intro other fd dead
    obtain ⟨same, _⟩ | ⟨_, dead⟩ :=
      overwrite_cases (p := fun live : Bool => ¬live = true) dead
    · subst same
      exact empty fd (.inl (List.mem_finRange fd))
    · exact owned.vacant other fd dead

end Xv6.Ftable
