import Xv6.Log.Crash

namespace Xv6.Log.Crash

open Xv6.Data Xv6.Transition

variable {area : LogArea} {left right : Disk}

theorem HomeEq.symm (same : HomeEq area left right) :
    HomeEq area right left := fun block home => (same block home).symm

theorem HomeEq.trans {middle : Disk} (first : HomeEq area left middle)
    (second : HomeEq area middle right) : HomeEq area left right :=
  fun block home => (first block home).trans (second block home)

variable {tail : Nat}

theorem LogArea.slot_contains (inside : tail + 1 < area.size) : area.Contains (area.slot tail) := by
  unfold LogArea.Contains LogArea.slot
  omega

theorem LogArea.start_contains {area : LogArea} (nonempty : 0 < area.size) : area.Contains area.start := by
  unfold LogArea.Contains
  omega

theorem LogArea.slot_ne_start (tail : Nat) : area.slot tail ≠ area.start := by
  unfold LogArea.slot
  omega

variable {block : Nat} {data : Block}

theorem HomeEq.update_inside (inside : area.Contains block) (same : HomeEq area left right) :
    HomeEq area (Function.update left block data) right := by
  intro other home
  have different : other ≠ block := fun equal => home (equal ▸ inside)
  rw [Function.update_of_ne different]
  exact same other home

/-! ## What a log holds -/

/-- The writes `install_trans` makes from entry `tail` on. -/
def logged (area : LogArea) (disk : Disk) (tail : Nat) : List Nat → List (Nat × Block)
  | [] => []
  | block :: rest => (block, disk (area.slot tail)) :: logged area disk (tail + 1) rest

theorem logged_fst (disk : Disk) (tail : Nat) (blocks : List Nat) :
    (logged area disk tail blocks).map Prod.fst = blocks := by
  induction blocks generalizing tail with
  | nil => rfl
  | cons block rest ih => simp only [logged, List.map_cons, ih]

variable {blocks : List Nat}

theorem logged_congr
    (same : ∀ index, index < blocks.length → left (area.slot (tail + index)) =
      right (area.slot (tail + index))) :
    logged area left tail blocks = logged area right tail blocks := by
  induction blocks generalizing tail with
  | nil => rfl
  | cons block rest ih =>
    have rest_same : logged area left (tail + 1) rest = logged area right (tail + 1) rest := by
      apply ih
      intro index inside
      rw [show tail + 1 + index = tail + (index + 1) by omega]
      exact same (index + 1) (Nat.succ_lt_succ inside)
    have first := same 0 (Nat.succ_pos _)
    rw [Nat.add_zero] at first
    rw [logged, logged, first, rest_same]

variable {disk : Disk}

theorem logged_values {value : Nat → Block}
    (copied : ∀ index block, blocks[index]? = some block → disk (area.slot (tail + index)) =
      value block) (member : (block, data) ∈ logged area disk tail blocks) :
    data = value block := by
  induction blocks generalizing tail with
  | nil => simp [logged] at member
  | cons first rest ih =>
    rcases List.mem_cons.mp member with head | later
    · cases head
      exact copied 0 block rfl
    · refine ih ?_ later
      intro index listed found
      rw [show tail + 1 + index = tail + (index + 1) by omega]
      exact copied (index + 1) listed (by simpa using found)

theorem logged_update_home (home : ¬ area.Contains block)
    (room : tail + blocks.length < area.size) :
    logged area (Function.update disk block data) tail blocks = logged area disk tail blocks := by
  apply logged_congr
  intro index inside
  have slot : area.Contains (area.slot (tail + index)) := LogArea.slot_contains (by omega)
  exact Function.update_of_ne (fun equal : area.slot (tail + index) = block => home (equal ▸ slot)) _ _

/-! ## Recovery -/

theorem installFrom_disk (memory : Memory) (home : ∀ block ∈ blocks, ¬ area.Contains block)
    (room : tail + blocks.length < area.size) :
    (installFrom area memory tail blocks).disk =
      applyWrites (logged area memory.cache tail blocks) memory.disk := by
  induction blocks generalizing memory tail with
  | nil => rfl
  | cons block rest ih =>
    have blockHome := home block List.mem_cons_self
    have restHome := fun other member => home other (List.mem_cons_of_mem block member)
    have restRoom : tail + 1 + rest.length < area.size := by
      simp only [List.length_cons] at room
      omega
    rw [installFrom, ih _ restHome restRoom, logged, applyWrites]
    simp only [installBlock, Memory.bwrite, logged_update_home blockHome restRoom]

theorem recoverFromLog_home (ok : HeadOk area (disk area.start)) :
    HomeEq area (recoverFromLog area disk)
      (applyWrites (logged area disk 0 (headBlocks (disk area.start))) disk) := by
  have room : 0 + (headBlocks (disk area.start)).length < area.size := by
    simpa [headBlocks] using ok.inside
  have installed := installFrom_disk (readHead area (Memory.boot disk)) ok.home room
  have start : area.Contains area.start := LogArea.start_contains (Nat.zero_lt_of_lt room)
  intro block home
  have different : block ≠ area.start := fun equal => home (equal ▸ start)
  simp only [recoverFromLog, Log.writeHead, Memory.bwrite, Function.update_of_ne different]
  exact congrFun installed block

theorem headOk_of_empty {head : Block} (nonempty : 0 < area.size) (empty : headBlocks head = []) :
    HeadOk area head := by
  have count : headCount head = 0 := by
    simpa [headBlocks] using congrArg List.length empty
  exact ⟨by omega, by omega, by simp [empty]⟩

theorem recoverFromLog_empty (empty : headBlocks (disk area.start) = [])
    (nonempty : 0 < area.size) :
    HomeEq area (recoverFromLog area disk) disk := by
  have recovered := recoverFromLog_home (headOk_of_empty nonempty empty)
  rwa [empty] at recovered

/-! ## The invariant -/

/-- The blocks `log.lh` lists are those of the current group, and the header has room for them. -/
structure Listed (area : LogArea) (group : Group) (lh : List Nat) : Prop where
  members : ∀ block, block ∈ lh ↔ block ∈ group.map Prod.fst
  home : ∀ block ∈ lh, ¬ area.Contains block
  small : ∀ block ∈ lh, block < 2 ^ 32
  fits : lh.length ≤ LOGSIZE
  inside : lh.length < area.size

/-- Nothing is committed that is not installed: the header is empty, the disk
holds `target`, and the cache holds `target` with the current group on top. -/
structure Collecting (area : LogArea) (target : Disk) (state : State) : Prop where
  empty : headBlocks (state.memory.disk area.start) = []
  disk : HomeEq area state.memory.disk target
  cache : HomeEq area state.memory.cache (applyWrites state.group target)
  listed : Listed area state.group state.memory.lh

/-- The header commits `log.lh`, and the entries from `tail` on are still to be
copied home: copying them brings disk and cache to `target`. -/
structure Installing (area : LogArea) (target : Disk) (state : State) (tail : Nat) : Prop where
  head : headBlocks (state.memory.disk area.start) = state.memory.lh
  ok : HeadOk area (state.memory.disk area.start)
  recovers : HomeEq area (applyWrites (logged area state.memory.disk 0 state.memory.lh)
    state.memory.disk) target
  disk : HomeEq area (applyWrites (logged area state.memory.disk tail (state.memory.lh.drop tail))
    state.memory.disk) target
  cache : HomeEq area (applyWrites (logged area state.memory.disk tail (state.memory.lh.drop tail))
    state.memory.cache) target
  group : state.group = []

/-- What holds in each phase when the committed groups amount to `target`. -/
def PhaseHolds (area : LogArea) (target : Disk) (state : State) : Prop :=
  match state.phase with
  | .idle => Collecting area target state
  | .writeLog tail => Collecting area target state ∧ state.memory.lh ≠ [] ∧
      ∀ index block, index < tail → state.memory.lh[index]? = some block →
        state.memory.disk (area.slot index) = state.memory.cache block
  | .writeHead => Collecting area target state ∧ state.memory.lh ≠ [] ∧
      ∀ index block, state.memory.lh[index]? = some block →
        state.memory.disk (area.slot index) = state.memory.cache block
  | .install tail => Installing area target state tail
  | .clear => Installing area target state state.memory.lh.length
  | .readHead => HeadOk area (state.memory.disk area.start) ∧
      HomeEq area (recoverFromLog area state.memory.disk) target ∧
      state.memory = .boot state.memory.disk ∧ state.group = []

structure Invariant (area : LogArea) (base : Disk) (state : State) : Prop where
  nonempty : 0 < area.size
  area_cached : ∀ block, area.Contains block → state.memory.cache block = state.memory.disk block
  phase : PhaseHolds area (applyGroups state.committed base) state

theorem applyGroups_append (groups : List Group) (group : Group) (disk : Disk) :
    applyGroups (groups ++ [group]) disk = applyWrites group (applyGroups groups disk) := by
  simp only [applyGroups, List.flatten_append, List.flatten_cons, List.flatten_nil,
    List.append_nil, applyWrites_append]

/-! ## Recoverability

In every phase a crash is repaired: the disk recovers to the committed groups.
-/

/-- A crash here is followed by a recovery that reaches `target`. -/
def Recoverable (area : LogArea) (target disk : Disk) : Prop :=
  HeadOk area (disk area.start) ∧ HomeEq area (recoverFromLog area disk) target

variable {state : State}

theorem Collecting.recoverable {target : Disk} (nonempty : 0 < area.size)
    (collecting : Collecting area target state) : Recoverable area target state.memory.disk :=
  ⟨headOk_of_empty nonempty collecting.empty,
    (recoverFromLog_empty collecting.empty nonempty).trans collecting.disk⟩

theorem Installing.recoverable {target : Disk} (installing : Installing area target state tail) :
    Recoverable area target state.memory.disk := by
  have recovered := recoverFromLog_home installing.ok
  rw [installing.head] at recovered
  exact ⟨installing.ok, recovered.trans installing.recovers⟩

variable {base : Disk}

theorem Invariant.recoverable (invariant : Invariant area base state) :
    Recoverable area (applyGroups state.committed base) state.memory.disk := by
  have holds := invariant.phase
  unfold PhaseHolds at holds
  split at holds
  · exact holds.recoverable invariant.nonempty
  · exact holds.1.recoverable invariant.nonempty
  · exact holds.1.recoverable invariant.nonempty
  · exact holds.recoverable
  · exact holds.recoverable
  · exact ⟨holds.1, holds.2.1⟩

theorem boot_invariant {committed : List Group} (nonempty : 0 < area.size)
    (recoverable : Recoverable area (applyGroups committed base) disk) :
    Invariant area base (boot disk committed) :=
  ⟨nonempty, fun _ _ => rfl, recoverable.1, recoverable.2, rfl, rfl⟩

/-! ## Steps -/

theorem Memory.bwrite_cached {memory : Memory} (target : Nat) (data : Block)
    (cached : memory.cache block = memory.disk block) :
    (memory.bwrite target data).cache block = (memory.bwrite target data).disk block := by
  by_cases same : block = target
  · subst same
    simp [Memory.bwrite]
  · simpa [Memory.bwrite, same] using cached

theorem Listed.absorb {group : Group} {lh : List Nat} (listed : Listed area group lh)
    (home : ¬ area.Contains block) (small : block < 2 ^ 32) (fits : ¬ tooBig area.size lh) :
    Listed area (group ++ [(block, data)]) (Log.absorb block lh) := by
  have room := absorb_length_le block lh
  simp only [tooBig, not_or, Nat.not_le] at fits
  constructor
  · intro other
    rw [mem_absorb, listed.members other]
    simp [or_comm]
  · intro other member
    rcases mem_absorb.mp member with same | before
    · exact same ▸ home
    · exact listed.home other before
  · intro other member
    rcases mem_absorb.mp member with same | before
    · exact same ▸ small
    · exact listed.small other before
  · omega
  · omega

section

variable (invariant : Invariant area base state)

include invariant

theorem logWrite_invariant (idle : state.phase = .idle) (small : block < 2 ^ 32)
    (home : ¬ area.Contains block) (fits : ¬ tooBig area.size state.memory.lh) :
    Invariant area base { state with
      memory := { state.memory with
        cache := Function.update state.memory.cache block data
        lh := absorb block state.memory.lh }
      group := state.group ++ [(block, data)] } := by
  obtain ⟨nonempty, cached, holds⟩ := invariant
  simp only [PhaseHolds, idle] at holds
  refine ⟨nonempty, ?_, ?_⟩
  · intro other inside
    have different : other ≠ block := fun equal => home (equal ▸ inside)
    simp only [Function.update_of_ne different]
    exact cached other inside
  · simp only [PhaseHolds, idle]
    refine ⟨holds.empty, holds.disk, ?_, holds.listed.absorb home small fits⟩
    intro other outside
    rw [applyWrites_append]
    simp only [applyWrites]
    by_cases same : other = block
    · subst same
      simp
    · simp only [Function.update_of_ne same]
      exact holds.cache other outside

theorem writeLog_invariant (phase : state.phase = .writeLog tail)
    (entry : state.memory.lh[tail]? = some block) :
    Invariant area base { state with
      memory := writeLogBlock area state.memory tail block
      phase := .writeLog (tail + 1) } := by
  obtain ⟨nonempty, cached, holds⟩ := invariant
  simp only [PhaseHolds, phase] at holds
  obtain ⟨collecting, some_listed, copied⟩ := holds
  have bound : tail < state.memory.lh.length := (List.getElem?_eq_some_iff.mp entry).1
  have slotInside : area.Contains (area.slot tail) :=
    LogArea.slot_contains (by have := collecting.listed.inside; omega)
  refine ⟨nonempty, fun other inside => Memory.bwrite_cached _ _ (cached other inside), ?_⟩
  · have headKept : Function.update state.memory.disk (area.slot tail) (state.memory.cache block)
        area.start = state.memory.disk area.start :=
      Function.update_of_ne (LogArea.slot_ne_start tail).symm _ _
    refine ⟨⟨?_, ?_, ?_, collecting.listed⟩, some_listed, ?_⟩
    · simpa only [writeLogBlock, Memory.bwrite, headKept] using collecting.empty
    · exact collecting.disk.update_inside slotInside
    · exact collecting.cache.update_inside slotInside
    · intro index listed before found
      change state.memory.lh[index]? = some listed at found
      have listedHome : listed ≠ area.slot tail := fun equal =>
        collecting.listed.home listed (List.mem_of_getElem? found) (equal ▸ slotInside)
      simp only [writeLogBlock, Memory.bwrite, Function.update_of_ne listedHome]
      by_cases same : index = tail
      · subst same
        have equal : listed = block := by
          rw [entry] at found
          exact (Option.some.inj found).symm
        rw [equal, Function.update_self]
      · have slots : area.slot index ≠ area.slot tail := by
          unfold LogArea.slot
          omega
        rw [Function.update_of_ne slots]
        exact copied index listed (by omega) found

/-- The first `write_head` is the commit point: with it the group joins the target. -/
theorem writeHead_invariant (phase : state.phase = .writeHead) : Invariant area base {
      memory := Log.writeHead area state.memory
      phase := .install 0
      group := []
      committed := state.committed ++ [state.group] } := by
  obtain ⟨nonempty, cached, holds⟩ := invariant
  simp only [PhaseHolds, phase] at holds
  obtain ⟨collecting, -, copied⟩ := holds
  have listed := collecting.listed
  have startInside : area.Contains area.start := LogArea.start_contains nonempty
  have head : headBlocks (encodeHead (state.memory.cache area.start) state.memory.lh) =
      state.memory.lh :=
    headBlocks_encodeHead (by have := listed.fits; simp only [LOGSIZE, MAXOPBLOCKS] at this; omega)
      listed.small
  have count : headCount (encodeHead (state.memory.cache area.start) state.memory.lh) =
      state.memory.lh.length := by
    simpa [headBlocks] using congrArg List.length head
  -- The log blocks hold the cached contents of the group's blocks.
  have slots : logged area (Log.writeHead area state.memory).disk 0 state.memory.lh =
      logged area state.memory.disk 0 state.memory.lh :=
    logged_congr fun index _ => Function.update_of_ne (LogArea.slot_ne_start _) _ _
  have values : ∀ {block data}, (block, data) ∈ logged area state.memory.disk 0 state.memory.lh →
      data = state.memory.cache block :=
    fun member => logged_values (fun index block found => by
      rw [Nat.zero_add]
      exact copied index block found) member
  have target : ∀ store : Disk, (∀ block, ¬ area.Contains block → block ∉ state.memory.lh →
        store block = applyWrites state.group (applyGroups state.committed base) block) →
      HomeEq area (applyWrites (logged area state.memory.disk 0 state.memory.lh) store)
        (applyGroups (state.committed ++ [state.group]) base) := by
    intro store same block home
    rw [applyGroups_append]
    by_cases member : block ∈ state.memory.lh
    · rw [applyWrites_of_all (by rwa [logged_fst]) fun other found => values found]
      exact collecting.cache block home
    · rw [applyWrites_of_not_mem (by rwa [logged_fst])]
      exact same block home member
  have diskTarget := target (Log.writeHead area state.memory).disk (by
    intro block home outside
    have different : block ≠ area.start := fun equal => home (equal ▸ startInside)
    rw [applyWrites_of_not_mem fun member => outside ((listed.members block).mpr member)]
    simp only [Log.writeHead, Memory.bwrite, Function.update_of_ne different]
    exact collecting.disk block home)
  have cacheTarget := target (Log.writeHead area state.memory).cache (by
    intro block home _
    have different : block ≠ area.start := fun equal => home (equal ▸ startInside)
    simp only [Log.writeHead, Memory.bwrite, Function.update_of_ne different]
    exact collecting.cache block home)
  have stored : (Log.writeHead area state.memory).disk area.start =
      encodeHead (state.memory.cache area.start) state.memory.lh := by
    simp [Log.writeHead, Memory.bwrite]
  rw [← slots] at diskTarget cacheTarget
  refine ⟨nonempty, fun other inside => Memory.bwrite_cached _ _ (cached other inside),
    ⟨?_, ⟨?_, ?_, ?_⟩, diskTarget, diskTarget, cacheTarget, rfl⟩⟩
  · rw [stored]
    exact head
  · rw [stored, count]
    exact listed.fits
  · rw [stored, count]
    exact listed.inside
  · rw [stored, head]
    exact listed.home

/-- Copying one entry home keeps the log replayable and shortens what is left. -/
theorem install_invariant (phase : state.phase = .install tail)
    (entry : state.memory.lh[tail]? = some block) :
    Invariant area base { state with
      memory := installBlock area state.memory tail block
      phase := .install (tail + 1) } := by
  obtain ⟨nonempty, cached, holds⟩ := invariant
  simp only [PhaseHolds, phase] at holds
  have home : ¬ area.Contains block :=
    holds.ok.home block (holds.head ▸ List.mem_of_getElem? entry)
  obtain ⟨bound, found⟩ := List.getElem?_eq_some_iff.mp entry
  have length : state.memory.lh.length < area.size := by
    rw [← holds.head]
    simpa [headBlocks] using holds.ok.inside
  have slotCached : state.memory.cache (area.slot tail) = state.memory.disk (area.slot tail) :=
    cached _ (LogArea.slot_contains (by omega))
  have headKept : (installBlock area state.memory tail block).disk area.start =
      state.memory.disk area.start :=
    Function.update_of_ne (fun equal : area.start = block =>
      home (equal ▸ LogArea.start_contains nonempty)) _ _
  have kept : ∀ start blocks, start + blocks.length < area.size →
      logged area (installBlock area state.memory tail block).disk start blocks =
        logged area state.memory.disk start blocks :=
    fun start blocks room => logged_update_home home room
  have replayed : ∀ store : Disk,
      applyWrites (logged area (installBlock area state.memory tail block).disk (tail + 1)
        (state.memory.lh.drop (tail + 1)))
        (Function.update store block (state.memory.cache (area.slot tail))) =
      applyWrites (logged area state.memory.disk tail (state.memory.lh.drop tail)) store := by
    intro store
    rw [kept _ _ (by rw [List.length_drop]; omega), slotCached, List.drop_eq_getElem_cons bound,
      found, logged, applyWrites]
  refine ⟨nonempty, fun other inside => Memory.bwrite_cached _ _ (cached other inside),
    ⟨?_, ?_, ?_, ?_, ?_, holds.group⟩⟩
  · rw [headKept]
    exact holds.head
  · rw [headKept]
    exact holds.ok
  · intro other outside
    refine Eq.trans ?_ (holds.recovers other outside)
    change applyWrites (logged area (installBlock area state.memory tail block).disk 0
      state.memory.lh) _ other = _
    rw [kept 0 state.memory.lh (by omega)]
    apply applyWrites_congr
    rw [logged_fst]
    by_cases same : other = block
    · exact .inl (same ▸ List.mem_of_getElem? entry)
    · exact .inr (Function.update_of_ne same _ _)
  · intro other outside
    exact (congrFun (replayed _) other).trans (holds.disk other outside)
  · intro other outside
    exact (congrFun (replayed _) other).trans (holds.cache other outside)

theorem clear_invariant (phase : state.phase = .clear) : Invariant area base { state with
      memory := Log.writeHead area { state.memory with lh := [] }
      phase := .idle } := by
  obtain ⟨nonempty, cached, holds⟩ := invariant
  simp only [PhaseHolds, phase] at holds
  have startInside : area.Contains area.start := LogArea.start_contains nonempty
  have disk := holds.disk
  have cache := holds.cache
  rw [List.drop_length] at disk cache
  refine ⟨nonempty, fun other inside => Memory.bwrite_cached _ _ (cached other inside),
    ⟨?_, ?_, ?_, ?_⟩⟩
  · simp [Log.writeHead, Memory.bwrite]
  · exact HomeEq.update_inside startInside disk
  · rw [holds.group]
    exact HomeEq.update_inside startInside cache
  · rw [holds.group]
    constructor <;> simp [Log.writeHead, Memory.bwrite, nonempty]

theorem readHead_invariant (phase : state.phase = .readHead) : Invariant area base { state with
      memory := Log.readHead area state.memory
      phase := .install 0 } := by
  obtain ⟨nonempty, cached, holds⟩ := invariant
  simp only [PhaseHolds, phase] at holds
  obtain ⟨ok, recovers, booted, group⟩ := holds
  have sameCache : state.memory.cache = state.memory.disk := by
    rw [booted]
    rfl
  have replay := (recoverFromLog_home ok).symm.trans recovers
  refine ⟨nonempty, cached, ⟨?_, ok, ?_, ?_, ?_, group⟩⟩
  · simp only [readHead, sameCache]
  all_goals
    simp only [readHead, sameCache, List.drop_zero]
    exact replay

end

theorem advance_invariant {before after : State} (invariant : Invariant area base before)
    (stepped : advance area before = some after) :
    Invariant area base after := by
  unfold advance at stepped
  split at stepped
  case h_1 => contradiction
  case h_2 tail phase =>
    split at stepped <;> cases stepped
    case h_1 block entry => exact writeLog_invariant invariant phase entry
    case h_2 finished =>
      obtain ⟨nonempty, cached, holds⟩ := invariant
      simp only [PhaseHolds, phase] at holds
      obtain ⟨⟨empty, disk, cache, listed⟩, some_listed, copied⟩ := holds
      refine ⟨nonempty, cached, ⟨empty, disk, cache, listed⟩, some_listed, ?_⟩
      intro index block found
      change before.memory.lh[index]? = some block at found
      have past := List.getElem?_eq_none_iff.mp finished
      have inside := (List.getElem?_eq_some_iff.mp found).1
      exact copied index block (by omega) found
  case h_3 phase =>
    cases stepped
    exact writeHead_invariant invariant phase
  case h_4 tail phase =>
    split at stepped <;> cases stepped
    case h_1 block entry => exact install_invariant invariant phase entry
    case h_2 finished =>
      obtain ⟨nonempty, cached, holds⟩ := invariant
      simp only [PhaseHolds, phase] at holds
      obtain ⟨head, ok, recovers, disk, cache, group⟩ := holds
      rw [List.drop_of_length_le (List.getElem?_eq_none_iff.mp finished)] at disk cache
      refine ⟨nonempty, cached, ⟨head, ok, recovers, ?_, ?_, group⟩⟩
      · rw [List.drop_length]
        exact disk
      · rw [List.drop_length]
        exact cache
  case h_5 phase =>
    cases stepped
    exact clear_invariant invariant phase
  case h_6 phase =>
    cases stepped
    exact readHead_invariant invariant phase

theorem step_invariant {before after : State} {event : Event}
    (invariant : Invariant area base before) (stepped : step area before event = some after) :
    Invariant area base after := by
  cases event with
  | logWrite block data =>
    simp only [step] at stepped
    split at stepped <;> cases stepped
    rename_i guard
    exact logWrite_invariant invariant guard.1 guard.2.1 guard.2.2.1 guard.2.2.2
  | commit =>
    simp only [step] at stepped
    split at stepped <;> cases stepped
    rename_i guard
    obtain ⟨nonempty, cached, holds⟩ := invariant
    simp only [PhaseHolds, guard.1] at holds
    obtain ⟨empty, disk, cache, listed⟩ := holds
    exact ⟨nonempty, cached, ⟨empty, disk, cache, listed⟩,
      List.ne_nil_of_length_pos guard.2, fun _ _ impossible => absurd impossible (Nat.not_lt_zero _)⟩
  | advance => exact advance_invariant invariant stepped
  | crash =>
    cases stepped
    exact boot_invariant invariant.nonempty invariant.recoverable

/-! ## Crash atomicity -/

/-- Whatever groups ran and wherever power failed, in `commit` or in any number of
recoveries, one complete recovery brings every home block to the state after
the groups whose first `write_head` reached the disk, and to no other. -/
theorem crash_atomicity (ok : HeadOk area (disk area.start))
    (reached : Reachable (machine area disk) state) :
    HomeEq area (recoverFromLog area state.memory.disk)
        (applyGroups state.committed (recoverFromLog area disk)) ∧
      ∀ block, ¬ area.Contains block → (∀ group ∈ state.committed, block ∉ group.map Prod.fst) →
        recoverFromLog area state.memory.disk block = recoverFromLog area disk block := by
  have initially : ∀ start, (machine area disk).initial start →
      Invariant area (recoverFromLog area disk) start := by
    intro start initial
    cases initial
    exact boot_invariant (Nat.zero_lt_of_lt ok.inside) ⟨ok, fun _ _ => rfl⟩
  have invariant := reached.invariant initially fun _ _ _ held stepped =>
    step_invariant held stepped
  have recovers := invariant.recoverable.2
  refine ⟨recovers, ?_⟩
  intro block home untouched
  rw [recovers block home, applyGroups]
  apply applyWrites_of_not_mem
  intro written
  obtain ⟨write, member, same⟩ := List.mem_map.mp written
  obtain ⟨group, committed, inGroup⟩ := List.mem_flatten.mp member
  exact untouched group committed (List.mem_map.mpr ⟨write, inGroup, same⟩)

/-- Two blocks are logged and committed, and power fails after the first of them
was copied home. -/
theorem crash_atomicity_inside_install : let area : LogArea := ⟨2, 30, by decide⟩
    let zero : Disk := fun _ _ => 0
    let group : Group := [(50, fun _ => 7), (60, fun _ => 9)]
    ∃ state, Reachable (machine area zero) state ∧ state.committed = [group] ∧
      state.phase = .install 1 ∧
      HomeEq area (recoverFromLog area state.memory.disk)
        (applyGroups [group] (recoverFromLog area zero)) := by
  intro area zero group
  have ok : HeadOk area (zero area.start) := headOk_of_empty (by decide) (by decide)
  have run : ∃ state, (machine area zero).execute (boot zero [])
      [.advance, .advance, .advance, .logWrite 50 fun _ => 7, .logWrite 60 fun _ => 9, .commit,
        .advance, .advance, .advance, .advance, .advance] = some state ∧
      state.committed = [group] ∧ state.phase = .install 1 := ⟨_, rfl, rfl, rfl⟩
  obtain ⟨state, executed, committed, phase⟩ := run
  have reached : Reachable (machine area zero) state := Reachable.of_execute rfl executed
  refine ⟨state, reached, committed, phase, ?_⟩
  rw [← committed]
  exact (crash_atomicity ok reached).1

end Xv6.Log.Crash
