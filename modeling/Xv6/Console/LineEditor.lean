import Xv6.Console.Input

namespace Xv6.Console

open Xv6.Data Xv6.Transition

/-! # The console refines a line editor -/

/-- A line editor that keeps all it has ever put out. -/
structure Editor where
  output : List UInt8
  line : List UInt8
  /-- How much of the output has been read. -/
  taken : Nat

def Editor.unread (editor : Editor) : Nat := editor.output.length - editor.taken

/-- A new character at the end of the line; a newline, `^D` or a full buffer commits the
line. -/
def Editor.append (editor : Editor) (c : UInt8) : Editor :=
  let line := editor.line ++ [c]
  if c = newline ∨ c = C 'D' ∨ editor.unread + line.length = INPUT_BUF then
    { editor with output := editor.output ++ line, line := [] }
  else
    { editor with line }

def Editor.key (editor : Editor) (c : UInt8) : Editor :=
  if c = C 'P' ∨ c = 0 then
    editor
  else if c = C 'U' then
    { editor with line := [] }
  else if c = C 'H' ∨ c = 0x7f then
    { editor with line := editor.line.dropLast }
  else if editor.unread + editor.line.length < INPUT_BUF then
    editor.append (if c = carriageReturn then newline else c)
  else
    editor

def Editor.act (editor : Editor) : Action → Editor
  | .typed c => editor.key c
  | .delivered _ | .endOfFile | .lost _ => { editor with taken := editor.taken + 1 }

/-- The line editor after a log, oldest action first. -/
def replay (log : List Action) : Editor := log.foldl Editor.act ⟨[], [], 0⟩

/-- The character that an action takes out of the buffer. -/
def Action.received : Action → Option UInt8
  | .typed _ => none
  | .delivered c | .lost c => some c
  | .endOfFile => some (C 'D')

def Action.character : Action → Option UInt8
  | .typed c => some c
  | _ => none

def received (log : List Action) : List UInt8 := log.filterMap Action.received

/-- The characters in `[r, w)`. -/
def Cons.committed (cons : Cons) : List UInt8 := contents INPUT_BUF cons.buf cons.r cons.w

/-- The characters in `[w, e)`. -/
def Cons.line (cons : Cons) : List UInt8 := contents INPUT_BUF cons.buf cons.w cons.e

structure Refines (cons : Cons) (editor : Editor) (taken : List UInt8) : Prop where
  output : taken ++ cons.committed = editor.output
  line : cons.line = editor.line
  count : editor.taken = taken.length
  fits : gap cons.r cons.w + gap cons.w cons.e ≤ INPUT_BUF
  full : gap cons.r cons.w + gap cons.w cons.e = INPUT_BUF → cons.w = cons.e
  /-- A newline is committed at once. -/
  unbroken : newline ∉ editor.line

theorem INPUT_BUF_divides : INPUT_BUF ∣ 2 ^ 32 := by decide

variable {cons : Cons} {editor : Editor} {taken : List UInt8}

/-- The loop of `^U` never meets a newline. -/
theorem killLine_eq (uncommitted : newline ∉ cons.line) :
    killLine (gap cons.w cons.e) cons = { cons with e := cons.w } := by
  generalize reached : gap cons.w cons.e = fuel
  induction fuel generalizing cons with
  | zero =>
    obtain ⟨buf, r, w, e⟩ := cons
    cases gap_eq_zero.mp reached
    rfl
  | succ fuel ih =>
    have behind : cons.w ≠ cons.e := by
      intro same
      rw [same, gap_self] at reached
      exact Nat.succ_ne_zero fuel reached.symm
    rw [Cons.line, contents_retract INPUT_BUF_divides behind, List.mem_append,
      List.mem_singleton, not_or] at uncommitted
    have shorter := gap_write_pred behind
    rw [killLine, if_pos ⟨behind.symm, fun newer => uncommitted.2 newer.symm⟩]
    have rest : gap cons.w (cons.e - 1#32) = fuel :=
      Nat.succ_injective (shorter.symm.trans reached)
    exact @ih { cons with e := cons.e - 1#32 } uncommitted.1 rest

section

variable (refines : Refines cons editor taken)

include refines

theorem Refines.below : gap cons.r cons.w + gap cons.w cons.e < 2 ^ 32 :=
  Nat.lt_of_le_of_lt refines.fits (by decide)

theorem Refines.gap_eq :
    gap cons.r cons.e = gap cons.r cons.w + gap cons.w cons.e := gap_add refines.below

theorem Refines.unread : editor.unread = gap cons.r cons.w := by
  rw [Editor.unread, ← refines.output, refines.count, List.length_append, Nat.add_sub_cancel_left]
  exact contents_length

theorem Refines.line_length : editor.line.length = gap cons.w cons.e := by
  rw [← refines.line]
  exact contents_length

/-! ## Typing -/

theorem Refines.erase (behind : cons.w ≠ cons.e) :
    Refines { cons with e := cons.e - 1#32 } { editor with line := editor.line.dropLast } taken := by
  have shorter := gap_write_pred behind
  have fits := refines.fits
  constructor
  · exact refines.output
  · show contents INPUT_BUF cons.buf cons.w (cons.e - 1#32) = editor.line.dropLast
    rw [← refines.line, Cons.line, contents_retract INPUT_BUF_divides behind,
      List.dropLast_concat]
  · exact refines.count
  · show gap cons.r cons.w + gap cons.w (cons.e - 1#32) ≤ INPUT_BUF
    omega
  · show gap cons.r cons.w + gap cons.w (cons.e - 1#32) = INPUT_BUF → _
    omega
  · exact fun member => refines.unbroken (List.mem_of_mem_dropLast member)

theorem Refines.kill :
    Refines (killLine (gap cons.w cons.e) cons) { editor with line := [] } taken := by
  have uncommitted : newline ∉ cons.line := refines.line ▸ refines.unbroken
  rw [killLine_eq uncommitted]
  have fits := refines.fits
  constructor
  · exact refines.output
  · exact contents_self INPUT_BUF cons.buf cons.w
  · exact refines.count
  · show gap cons.r cons.w + gap cons.w cons.w ≤ INPUT_BUF
    rw [gap_self]
    omega
  · exact fun _ => rfl
  · exact List.not_mem_nil

theorem Refines.store (room : gap cons.r cons.w + gap cons.w cons.e < INPUT_BUF) (c : UInt8) :
    (cons.store c).committed = cons.committed ∧ (cons.store c).line = editor.line ++ [c] ∧
      gap (cons.store c).w (cons.store c).e = gap cons.w cons.e + 1 := by
  have size : INPUT_BUF < 2 ^ 32 := by decide
  have narrow : gap cons.w cons.e + 1 < 2 ^ 32 := by omega
  have gapped := refines.gap_eq
  refine ⟨?_, ?_, gap_write_succ narrow⟩
  · refine List.map_congr_left fun index member => overwrite_of_ne ?_
    have inside : index < gap cons.r cons.w := List.mem_range.mp member
    have before : index < gap cons.r cons.e := by omega
    have notFull : gap cons.r cons.e < INPUT_BUF := by omega
    exact slot_ne_write INPUT_BUF_divides notFull before
  · have free : gap cons.w cons.e < INPUT_BUF := by omega
    rw [← refines.line]
    exact contents_push INPUT_BUF_divides free narrow c

theorem Refines.append (room : gap cons.r cons.w + gap cons.w cons.e < INPUT_BUF) (c : UInt8) :
    Refines (append c cons).1 (editor.append c) taken := by
  obtain ⟨committed, line, longer⟩ := refines.store room c
  have size : INPUT_BUF < 2 ^ 32 := by decide
  have sum : gap (cons.store c).r (cons.store c).w + gap (cons.store c).w (cons.store c).e =
      gap cons.r cons.w + gap cons.w cons.e + 1 := by
    rw [longer]
    rfl
  have below : gap (cons.store c).r (cons.store c).w + gap (cons.store c).w (cons.store c).e <
      2 ^ 32 := by omega
  -- The code compares indices where the editor counts characters.
  have filled : (cons.store c).e = (cons.store c).r + BitVec.ofNat 32 INPUT_BUF ↔
      editor.unread + (editor.line ++ [c]).length = INPUT_BUF := by
    rw [← gap_eq_iff size, gap_add below, sum, refines.unread, List.length_append,
      refines.line_length]
    rfl
  unfold Console.append Editor.append
  simp only [filled]
  split
  · constructor
    · show taken ++ contents INPUT_BUF (cons.store c).buf (cons.store c).r (cons.store c).e = _
      rw [contents_append INPUT_BUF_divides below]
      show taken ++ ((cons.store c).committed ++ (cons.store c).line) = _
      rw [committed, line, ← List.append_assoc, refines.output]
    · exact contents_self INPUT_BUF _ (cons.store c).e
    · exact refines.count
    · show gap (cons.store c).r (cons.store c).e + gap (cons.store c).e (cons.store c).e ≤ INPUT_BUF
      rw [gap_self, gap_add below, sum]
      exact room
    · exact fun _ => rfl
    · exact List.not_mem_nil
  · rename_i waits
    rw [not_or, not_or] at waits
    obtain ⟨notNewline, _, notFull⟩ := waits
    constructor
    · show taken ++ (cons.store c).committed = _
      rw [committed, refines.output]
    · exact line
    · exact refines.count
    · show gap (cons.store c).r (cons.store c).w + gap (cons.store c).w (cons.store c).e ≤ INPUT_BUF
      rw [sum]
      exact room
    · intro full
      rw [refines.unread, List.length_append, refines.line_length] at notFull
      exact absurd (sum.symm.trans full) notFull
    · intro member
      rcases List.mem_append.mp member with old | new
      · exact refines.unbroken old
      · exact notNewline (List.mem_singleton.mp new).symm

theorem Refines.consoleintr (c : UInt8) : Refines (consoleintr c cons).1 (editor.key c) taken := by
  have gapped := refines.gap_eq
  have hasRoom : cons.e - cons.r < BitVec.ofNat 32 INPUT_BUF ↔
      editor.unread + editor.line.length < INPUT_BUF := by
    rw [refines.unread, refines.line_length, ← gapped]
    exact BitVec.lt_def
  unfold Console.consoleintr Editor.key
  by_cases print : c = C 'P'
  · rw [if_pos print, if_pos (.inl print)]
    exact refines
  rw [if_neg print]
  by_cases zero : c = 0
  · cases zero
    exact refines
  rw [if_neg (not_or.mpr ⟨print, zero⟩)]
  by_cases kills : c = C 'U'
  · rw [if_pos kills, if_pos kills]
    exact refines.kill
  rw [if_neg kills, if_neg kills]
  by_cases erases : c = C 'H' ∨ c = 0x7f
  · rw [if_pos erases, if_pos erases]
    by_cases same : cons.e = cons.w
    · have nothing : editor.line = [] := by
        rw [← List.length_eq_zero_iff, refines.line_length, same, gap_self]
      have unchanged : editor.line.dropLast = editor.line := by rw [nothing, List.dropLast_nil]
      rw [if_neg (fun differs => differs same), unchanged]
      exact refines
    · rw [if_pos same]
      exact refines.erase (Ne.symm same)
  rw [if_neg erases, if_neg erases]
  by_cases room : editor.unread + editor.line.length < INPUT_BUF
  · rw [if_pos ⟨zero, hasRoom.mpr room⟩, if_pos room]
    rw [refines.unread, refines.line_length] at room
    exact refines.append room _
  · rw [if_neg (fun both => room (hasRoom.mp both.2)), if_neg room]
    exact refines

/-! ## Reading -/

theorem Refines.take (behind : cons.r ≠ cons.w) :
    Refines cons.advance { editor with taken := editor.taken + 1 } (taken ++ [cons.next]) := by
  have shorter := gap_read_succ behind
  have fits := refines.fits
  constructor
  · show taken ++ [cons.next] ++ contents INPUT_BUF cons.buf (cons.r + 1#32) cons.w = editor.output
    rw [← refines.output, Cons.committed, contents_pop INPUT_BUF_divides behind, List.append_assoc]
    rfl
  · exact refines.line
  · rw [List.length_append, ← refines.count]
    rfl
  · show gap (cons.r + 1#32) cons.w + gap cons.w cons.e ≤ INPUT_BUF
    omega
  · show gap (cons.r + 1#32) cons.w + gap cons.w cons.e = INPUT_BUF → _
    omega
  · exact refines.unbroken

end

theorem advance_pushBack : cons.advance.pushBack = cons := by
  rw [Cons.pushBack, Cons.advance, BitVec.add_sub_cancel]

theorem replay_concat (log : List Action) (action : Action) :
    replay (log ++ [action]) = (replay log).act action := by
  rw [replay, List.foldl_append]
  rfl

theorem received_append (first second : List Action) :
    received (first ++ second) = received first ++ received second := List.filterMap_append

/-- The buffer refines the editor that has replayed the log. -/
def Tracks (cons : Cons) (log : List Action) : Prop := Refines cons (replay log) (received log)

theorem Tracks.take {log : List Action} {action : Action} (tracks : Tracks cons log)
    (behind : cons.r ≠ cons.w) (taking : action.received = some cons.next) :
    Tracks cons.advance (log ++ [action]) := by
  have taken : received [action] = [cons.next] := by
    rw [received, List.filterMap_cons_some taking, List.filterMap_nil]
  have acted : (replay log).act action = { replay log with taken := (replay log).taken + 1 } := by
    cases action with
    | typed c => cases taking
    | _ => rfl
  rw [Tracks, replay_concat, received_append, taken, acted]
  exact Refines.take tracks behind

variable {killed : Bool} {writable : Nat → Bool} {target n : Nat}

theorem readLoop_tracks {log : List Action} (tracks : Tracks cons log) :
    Tracks (readLoop killed writable target n cons).cons
      (log ++ (readLoop killed writable target n cons).actions) := by
  induction n generalizing cons log with
  | zero =>
    rw [readLoop, List.append_nil]
    exact tracks
  | succ n ih =>
    unfold readLoop
    split
    · rw [List.append_nil]
      exact tracks
    rename_i behind
    split
    · rename_i isEnd
      split
      · rw [advance_pushBack, List.append_nil]
        exact tracks
      · exact tracks.take behind (congrArg some isEnd.symm)
    split
    · have taken : Tracks cons.advance (log ++ [.delivered cons.next]) := tracks.take behind rfl
      split
      · exact taken
      · have rest := ih taken
        rwa [List.append_assoc] at rest
    · have taken : Tracks cons.advance (log ++ [.lost cons.next]) := tracks.take behind rfl
      exact taken

/-! ## How a read ends -/

def Action.delivers : Action → Bool
  | .delivered _ => true
  | _ => false

/-- What a section of `consoleread` did, with `n` of `target` bytes to go before it. -/
structure Ends (killed : Bool) (target n : Nat) (part : Section) : Prop where
  /-- A read that goes on has met no `^D` and no newline and has left nothing. -/
  asleep : ∀ left, part.outcome = .asleep left → part.cons.r = part.cons.w ∧
    left + part.actions.length = n ∧
    ∀ action ∈ part.actions, ∃ c, action = .delivered c ∧ c ≠ newline
  /-- A `^D` that is taken ends a read that has delivered nothing. -/
  endOfFile : .endOfFile ∈ part.actions →
    n = target ∧ part.actions = [.endOfFile] ∧ part.outcome = .returned 0
  delivered : ∀ c, .delivered c ∈ part.actions → c ≠ C 'D'
  /-- Only a killed process that finds nothing gets an error. -/
  value : ∀ value, part.outcome = .returned value →
    value = -1 ∧ killed = true ∧ part.cons.r = part.cons.w ∨
      value = (target - n : Nat) + part.actions.countP Action.delivers

theorem Ends.returned {actions : List Action} {value : Int}
    (endOfFile : .endOfFile ∈ actions → n = target ∧ actions = [.endOfFile] ∧ value = 0)
    (delivered : ∀ c, .delivered c ∈ actions → c ≠ C 'D')
    (counted : value = -1 ∧ killed = true ∧ cons.r = cons.w ∨
      value = (target - n : Nat) + actions.countP Action.delivers) :
    Ends killed target n ⟨cons, actions, .returned value⟩ where
  asleep := nofun
  endOfFile member := by
    obtain ⟨first, only, zero⟩ := endOfFile member
    exact ⟨first, only, congrArg Outcome.returned zero⟩
  delivered := delivered
  value := by
    rintro value ⟨⟩
    exact counted

theorem Ends.after {rest : Section} {c : UInt8} (ends : Ends killed target n rest)
    (within : n + 1 ≤ target) (notEnd : c ≠ C 'D') (notNewline : c ≠ newline) :
    Ends killed target (n + 1) (rest.after (.delivered c)) := by
  constructor
  · intro left ended
    obtain ⟨empty, count, all⟩ := ends.asleep left ended
    refine ⟨empty, ?_, ?_⟩
    · rw [Section.after, List.length_cons, ← count]
      rfl
    · intro action member
      rcases List.mem_cons.mp member with rfl | later
      · exact ⟨c, rfl, notNewline⟩
      · exact all action later
  · intro member
    rcases List.mem_cons.mp member with same | later
    · cases same
    · have untouched := (ends.endOfFile later).1
      omega
  · intro other member
    rcases List.mem_cons.mp member with same | later
    · cases same
      exact notEnd
    · exact ends.delivered other later
  · intro value ended
    rcases ends.value value ended with failed | counted
    · exact .inl failed
    · right
      rw [counted, Section.after, List.countP_cons_of_pos rfl]
      omega

theorem readLoop_ends (within : n ≤ target) :
    Ends killed target n (readLoop killed writable target n cons) := by
  induction n generalizing cons with
  | zero => exact .returned nofun nofun (.inr rfl)
  | succ n ih =>
    have value : (target : Int) - (n + 1) = (target - (n + 1) : Nat) := by omega
    unfold readLoop
    split
    · rename_i empty
      cases killed with
      | true => exact .returned nofun nofun (.inl ⟨rfl, rfl, empty⟩)
      | false =>
        refine ⟨?_, nofun, nofun, nofun⟩
        rintro left ⟨⟩
        exact ⟨empty, rfl, nofun⟩
    split
    · split
      · exact .returned nofun nofun (.inr (by simpa using value))
      · refine .returned (fun _ => ⟨by omega, rfl, by omega⟩) (by simp) (.inr ?_)
        simpa [Action.delivers] using value
    rename_i notEnd
    split
    · split
      · refine .returned (by simp) (by simpa using notEnd) (.inr ?_)
        rw [List.countP_cons_of_pos rfl, List.countP_nil]
        omega
      · rename_i notNewline
        exact (ih (Nat.le_of_succ_le within)).after within notEnd notNewline
    · refine .returned (by simp) (by simp) (.inr ?_)
      simpa [Action.delivers] using value

theorem readLoop_kept (within : n ≤ target)
    (mapped : ∀ index, index < target → writable index = true) (c : UInt8) :
    .lost c ∉ (readLoop killed writable target n cons).actions := by
  induction n generalizing cons with
  | zero => nofun
  | succ n ih =>
    unfold readLoop
    rw [if_pos (mapped _ (by omega))]
    split
    · nofun
    split
    · split <;> simp
    split
    · simp
    · simpa [Section.after] using ih (Nat.le_of_succ_le within)

theorem readLoop_untyped :
    (readLoop killed writable target n cons).actions.filterMap Action.character = [] := by
  induction n generalizing cons with
  | zero => rfl
  | succ n ih =>
    unfold readLoop
    split
    · rfl
    split
    · split <;> rfl
    split
    · split
      · rfl
      · exact ih
    · rfl

/-! ## Runs -/

/-- The buffer of a call lies in mapped memory. -/
def Task.mapped (task : Task) : Prop := ∀ index, index < task.target → task.writable index = true

variable {count : Nat}

def mapped (_ : State count) : Event count → Prop
  | .consoleread _ writable n => (Task.mk writable n.toNat n.toNat).mapped
  | _ => True

instance (state : State count) : (event : Event count) → Decidable (mapped state event)
  | .consoleread _ writable n =>
    inferInstanceAs (Decidable (∀ index, index < n.toNat → writable index = true))
  | .consoleintr _ | .resume _ | .kill _ => .isTrue trivial

structure Sound (state : State count) : Prop where
  tracks : Tracks state.cons state.log
  delivered : ∀ c, .delivered c ∈ state.log → c ≠ C 'D'
  kept : ∀ c, .lost c ∉ state.log
  tasks : ∀ process task, (state.proc process).task = some task →
    task.n ≤ task.target ∧ task.mapped
  ends : ∀ killed task part, state.last = some (killed, task, part) →
    Ends killed task.target task.n part

variable {state : State count}

theorem Sound.run (sound : Sound state) (process : Fin count) {task : Task}
    (within : task.n ≤ task.target) (inMemory : task.mapped) : Sound (run state process task) := by
  have ends : Ends (state.proc process).killed task.target task.n (readLoop
    (state.proc process).killed task.writable task.target task.n state.cons) := readLoop_ends within
  constructor
  · exact readLoop_tracks sound.tracks
  · intro c member
    rcases List.mem_append.mp member with old | new
    · exact sound.delivered c old
    · exact ends.delivered c new
  · intro c member
    rcases List.mem_append.mp member with old | new
    · exact sound.kept c old
    · exact readLoop_kept within inMemory c new
  · intro other current working
    simp only [Console.run] at working
    by_cases same : other = process
    · cases same
      rw [overwrite_self] at working
      split at working
      · cases working
      · rename_i left asleep
        cases working
        have fewer := (ends.asleep left asleep).2.1
        exact ⟨by show left ≤ task.target; omega, inMemory⟩
    · rw [overwrite_of_ne same] at working
      exact sound.tasks other current working
  · rintro _ _ _ ⟨⟩
    exact ends

theorem Sound.typed (sound : Sound state) (c : UInt8) :
    Tracks (consoleintr c state.cons).1 (state.log ++ [.typed c]) := by
  have nothing : received (state.log ++ [.typed c]) = received state.log := by
    rw [received_append]
    exact List.append_nil _
  rw [Tracks, nothing, replay_concat]
  exact Refines.consoleintr sound.tracks c

theorem step_sound {before after : State count} {event : Event count} (sound : Sound before)
    (inMemory : mapped before event) (stepped : step before event = some after) : Sound after := by
  cases event with
  | consoleintr c =>
    cases stepped
    refine ⟨sound.typed c, ?_, ?_, sound.tasks, nofun⟩
    · intro other member
      refine sound.delivered other ?_
      simpa using member
    · intro other member
      refine sound.kept other ?_
      simpa using member
  | consoleread process writable n =>
    simp only [step] at stepped
    split at stepped
    · cases stepped
      exact sound.run process (Nat.le_refl _) inMemory
    · cases stepped
  | resume process =>
    simp only [step] at stepped
    split at stepped
    · cases stepped
    · rename_i task working
      split at stepped
      · cases stepped
      · cases stepped
        obtain ⟨within, reachable⟩ := sound.tasks process task working
        exact sound.run process within reachable
  | kill process =>
    cases stepped
    refine ⟨sound.tracks, sound.delivered, sound.kept, ?_, nofun⟩
    intro other task working
    by_cases same : other = process
    · cases same
      simp only [overwrite_self] at working
      exact sound.tasks process task working
    · simp only [overwrite_of_ne same] at working
      exact sound.tasks other task working

variable {history : List (Event count)}

theorem run_sound (run : Run (machine count) mapped history state) : Sound state := by
  refine run.invariant ?_ fun before event after sound inMemory stepped =>
    step_sound sound inMemory stepped
  rintro start ⟨committed, edited, idle, blank, fresh⟩
  constructor
  · rw [blank]
    constructor
    · show contents INPUT_BUF start.cons.buf start.cons.r start.cons.w = []
      rw [committed, contents_self]
    · show contents INPUT_BUF start.cons.buf start.cons.w start.cons.e = []
      rw [committed, edited, contents_self]
    · rfl
    · rw [committed, edited, gap_self]
      exact Nat.zero_le _
    · intro _
      rw [committed, edited]
    · exact List.not_mem_nil
  · simp [blank]
  · simp [blank]
  · intro process task working
    rw [idle process] at working
    cases working
  · simp [fresh]

def Event.character : Event count → Option UInt8
  | .consoleintr c => some c
  | _ => none

theorem run_character {process : Fin count} {task : Task} :
    (run state process task).log.filterMap Action.character =
      state.log.filterMap Action.character ++ [] := by
  rw [run, List.filterMap_append, readLoop_untyped]

theorem run_typed (run : Run (machine count) mapped history state) :
    state.log.filterMap Action.character = history.reverse.filterMap Event.character := by
  induction run with
  | start initial =>
    obtain ⟨_, _, _, blank, _⟩ := initial
    rw [blank]
    rfl
  | @next history before after event _ _ stepped same =>
    rw [List.reverse_cons, List.filterMap_append, ← same]
    cases event with
    | consoleintr c =>
      cases stepped
      exact List.filterMap_append
    | consoleread process writable n =>
      simp only [machine, step] at stepped
      split at stepped
      · cases stepped
        exact run_character
      · cases stepped
    | resume process =>
      simp only [machine, step] at stepped
      split at stepped
      · cases stepped
      · split at stepped
        · cases stepped
        · cases stepped
          exact run_character
    | kill process =>
      cases stepped
      exact (List.append_nil _).symm

/-- Erasing and killing stop at what is committed. -/
theorem Refines.erasing (refines : Refines cons editor taken) {c : UInt8}
    (erases : c = C 'H' ∨ c = 0x7f ∨ c = C 'U') :
    (Console.consoleintr c cons).1.r = cons.r ∧ (Console.consoleintr c cons).1.w = cons.w ∧
      (Console.consoleintr c cons).1.committed = cons.committed := by
  have shape : ∃ e, (Console.consoleintr c cons).1 = { cons with e } := by
    unfold Console.consoleintr
    rcases erases with rfl | rfl | rfl
    · by_cases same : cons.e = cons.w
      · exact ⟨cons.e, if_neg (fun differs => differs same)⟩
      · exact ⟨cons.e - 1#32, if_pos same⟩
    · by_cases same : cons.e = cons.w
      · exact ⟨cons.e, if_neg (fun differs => differs same)⟩
      · exact ⟨cons.e - 1#32, if_pos same⟩
    · exact ⟨cons.w, killLine_eq (refines.line ▸ refines.unbroken)⟩
  obtain ⟨e, edited⟩ := shape
  rw [edited]
  exact ⟨rfl, rfl, rfl⟩

/-- The buffer between a keyboard and its readers is a line editor: in every run with mapped
buffers the indices stay in order, a full buffer is committed, nothing committed is erased, and
what readers received followed by what they can still read is what the line editor has put out
for the characters typed.  A `^D` ends a read and is not delivered. -/
theorem console_refines_editor (run : Run (machine count) mapped history state) :
    gap state.cons.r state.cons.w ≤ gap state.cons.r state.cons.e ∧
      gap state.cons.r state.cons.e ≤ INPUT_BUF ∧
      (gap state.cons.r state.cons.e = INPUT_BUF → state.cons.w = state.cons.e) ∧
      (∀ c, c = C 'H' ∨ c = 0x7f ∨ c = C 'U' →
        (consoleintr c state.cons).1.r = state.cons.r ∧
        (consoleintr c state.cons).1.w = state.cons.w ∧
        (consoleintr c state.cons).1.committed = state.cons.committed) ∧
      state.log.filterMap Action.character = history.reverse.filterMap Event.character ∧
      received state.log ++ state.cons.committed = (replay state.log).output ∧
      (∀ c, .lost c ∉ state.log) ∧ (∀ c, .delivered c ∈ state.log → c ≠ C 'D') ∧
      ∀ killed task part, state.last = some (killed, task, part) →
        Ends killed task.target task.n part := by
  have sound := run_sound run
  have refines : Refines state.cons (replay state.log) (received state.log) := sound.tracks
  rw [refines.gap_eq]
  exact ⟨Nat.le_add_right _ _, refines.fits, refines.full, fun c => refines.erasing,
    run_typed run, refines.output, sound.kept, sound.delivered, sound.ends⟩

/-- One reader, with indices about to wrap. -/
def wrapping : State 1 where
  cons := ⟨fun _ => 0, BitVec.ofNat 32 (2 ^ 32 - 2), BitVec.ofNat 32 (2 ^ 32 - 2),
    BitVec.ofNat 32 (2 ^ 32 - 2)⟩
  proc := fun _ => ⟨none, false, false⟩
  log := []
  last := none

/-- A reader waits for the line `a`, erased `b`, newline, and then reads `x` up to a `^D`. -/
def twoReads : List (Event 1) :=
  [.consoleread 0 (fun _ => true) 10, .consoleintr 97, .consoleintr 98, .consoleintr (C 'H'),
    .consoleintr newline, .resume 0, .consoleintr 120, .consoleintr (C 'D'),
    .consoleread 0 (fun _ => true) 10, .consoleread 0 (fun _ => true) 10]

theorem console_refines_editor_wrapping : ∃ history state,
    Run (machine 1) mapped history state ∧ state.cons.r = 2#32 ∧
      received state.log ++ state.cons.committed = [97, newline, 120, C 'D'] ∧
      (replay state.log).output = [97, newline, 120, C 'D'] := by
  have ran : ((machine 1).guarded mapped wrapping twoReads).map
      (fun state => (state.cons.r, received state.log ++ state.cons.committed)) =
        some (2#32, [97, newline, 120, C 'D']) := by decide +kernel
  obtain ⟨state, executed, seen⟩ := Option.map_eq_some_iff.mp ran
  have started : (machine 1).initial wrapping := ⟨rfl, rfl, fun _ => rfl, rfl, rfl⟩
  have start : Run (machine 1) mapped [] wrapping := .start started
  have run := start.guarded executed
  have read : state.cons.r = 2#32 := congrArg Prod.fst seen
  have taken : received state.log ++ state.cons.committed = [97, newline, 120, C 'D'] :=
    congrArg Prod.snd seen
  refine ⟨_, state, run, read, taken, ?_⟩
  rw [← taken]
  exact (console_refines_editor run).2.2.2.2.2.1.symm

end Xv6.Console
