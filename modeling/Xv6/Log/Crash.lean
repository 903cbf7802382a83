import Xv6.Log.Disk
import Xv6.Transition.Run

namespace Xv6.Log.Crash

open Xv6.Data Xv6.Transition

/-! # Group commit under power failure

The log as a crash machine.  Between two events at most one block reaches the
disk, and `crash` may come at any point: inside `commit`, inside
`recover_from_log`, or between groups.  `committed` is a ghost record of the
groups whose first `write_head` reached the disk.
-/

/-- The `log_write` calls of one group of operations, in order. -/
abbrev Group := List (Nat × Block)

/-- Where the one thread that may touch the log on disk stands. -/
inductive Phase where
  /-- Operations run; `commit` has not started. -/
  | idle
  /-- In `write_log`, before copying entry `tail`. -/
  | writeLog (tail : Nat)
  /-- Before `commit`'s first `write_head`, the real commit. -/
  | writeHead
  /-- In `install_trans`, before copying entry `tail`. -/
  | install (tail : Nat)
  /-- Before the `write_head` that clears the log. -/
  | clear
  /-- Booted, before `read_head` in `recover_from_log`. -/
  | readHead
deriving DecidableEq, Repr

structure State where
  memory : Memory
  phase : Phase
  group : Group
  committed : List Group

inductive Event where
  /-- An operation changes a buffer and passes it to `log_write`. -/
  | logWrite (block : Nat) (data : Block)
  /-- The last outstanding operation ends and `commit` starts. -/
  | commit
  /-- The thread in `commit` or in recovery does its next loop iteration or call. -/
  | advance
  /-- Power fails and the machine boots again. -/
  | crash

/-- A freshly booted machine, about to run `recover_from_log`. -/
def boot (disk : Disk) (committed : List Group) : State :=
  { memory := .boot disk, phase := .readHead, group := [], committed }

section

variable (area : LogArea)

def advance (state : State) : Option State :=
  match state.phase with
  | .idle => none
  | .writeLog tail =>
    match state.memory.lh[tail]? with
    | some block => some { state with
        memory := writeLogBlock area state.memory tail block
        phase := .writeLog (tail + 1) }
    | none => some { state with phase := .writeHead }
  | .writeHead => some {
      memory := Log.writeHead area state.memory
      phase := .install 0
      group := []
      committed := state.committed ++ [state.group] }
  | .install tail =>
    match state.memory.lh[tail]? with
    | some block => some { state with
        memory := installBlock area state.memory tail block
        phase := .install (tail + 1) }
    | none => some { state with phase := .clear }
  | .clear => some { state with
      memory := Log.writeHead area { state.memory with lh := [] }
      phase := .idle }
  | .readHead => some { state with
      memory := Log.readHead area state.memory
      phase := .install 0 }

def step (state : State) : Event → Option State
  | .logWrite block data =>
    -- Block numbers are `uint`s, and file-system code never logs a log block.
    if state.phase = .idle ∧ block < 2 ^ 32 ∧ ¬ area.Contains block ∧
        ¬ tooBig area.size state.memory.lh then
      some { state with
        memory := { state.memory with
          cache := Function.update state.memory.cache block data
          lh := absorb block state.memory.lh }
        group := state.group ++ [(block, data)] }
    else
      none
  | .commit =>
    if state.phase = .idle ∧ state.memory.lh.length > 0 then
      some { state with phase := .writeLog 0 }
    else
      none
  | .advance => advance area state
  | .crash => some (boot state.memory.disk state.committed)

def machine (disk : Disk) : Machine State Event where
  initial state := state = boot disk []
  step := step area

end

/-- The state of the disk after a sequence of whole groups. -/
def applyGroups (groups : List Group) (disk : Disk) : Disk := applyWrites groups.flatten disk

/-- Equality on the blocks outside the log, the home locations. -/
def HomeEq (area : LogArea) (left right : Disk) : Prop :=
  ∀ block, ¬ area.Contains block → left block = right block

/-- A header `read_head` can take in and `install_trans` can carry out: it fits
`log.lh.block`, its data blocks lie in the log and its targets outside.  `mkfs`
writes the empty one. -/
structure HeadOk (area : LogArea) (head : Block) : Prop where
  fits : headCount head ≤ LOGSIZE
  inside : headCount head < area.size
  home : ∀ block ∈ headBlocks head, ¬ area.Contains block

end Xv6.Log.Crash
