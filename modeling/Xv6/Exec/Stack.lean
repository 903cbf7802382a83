import Xv6.Exec.Loading

namespace Xv6.Exec

open Xv6.Data Xv6.Vm Xv6.Kernel

attribute [local irreducible] tables upperTables lastTable entry

/-! # The argument stack -/

/-- Sizes on the stack are multiples of this many bytes. -/
def align16 (n : Nat) : Nat := (n + 15) / 16 * 16

/-- The bytes that the strings take. -/
def stringBytes (argv : List (List UInt8)) : Nat :=
  argv.foldl (fun used arg => align16 (used + (arg.length + 1))) 0

/-- The bytes that the strings and the array of pointers take. -/
def stackBytes (argv : List (List UInt8)) : Nat :=
  align16 (stringBytes argv + (argv.length + 1) * 8)

/-- The page at `base` is a user page, in a frame of its own. -/
structure StackPage (mem : Memory) (root base frame : Word) : Prop where
  table : UserTable mem root
  found : frameOf mem root base = some frame
  aligned : base.toNat % PGSIZE = 0
  low : PGSIZE ≤ base.toNat
  high : base.toNat + PGSIZE ≤ 2 ^ 38

section

variable {mem : Memory} {root base frame : Word}

theorem StackPage.overwrite (page : StackPage mem root base frame) (bytes : Bytes) :
    StackPage (overwrite mem frame bytes) root base frame := by
  have same : ∀ table ∈ tables mem root, Data.overwrite mem frame bytes table = mem table :=
    fun table member =>
      overwrite_of_ne (ne_of_mem_of_not_mem member (page.table.apart base frame page.found))
  exact ⟨page.table.congr same, by rw [frameOf_congr same, page.found], page.aligned, page.low, page.high⟩

variable {offset : Nat}

theorem StackPage.address (page : StackPage mem root base frame) (inside : offset ≤ PGSIZE) :
    (base + BitVec.ofNat 64 offset).toNat = base.toNat + offset := by
  have high := page.high
  rw [PGSIZE] at inside high
  rw [BitVec.toNat_add, BitVec.toNat_ofNat]
  omega

theorem StackPage.copyout (page : StackPage mem root base frame) (src : Bytes) {size : Nat}
    (inside : offset + size ≤ PGSIZE) :
    copyout mem root (base + BitVec.ofNat 64 offset) src (BitVec.ofNat 64 size) =
      .ok (0, Data.overwrite mem frame (blit (mem frame) offset src 0 size)) := by
  have width : (BitVec.ofNat 64 size).toNat = size := by
    rw [PGSIZE] at inside
    rw [BitVec.toNat_ofNat]
    omega
  have aligned := page.aligned
  rcases Nat.lt_or_ge offset PGSIZE with below | full
  · have position : (base + BitVec.ofNat 64 offset).toNat % PGSIZE = offset := by
      rw [page.address (Nat.le_of_lt below)]
      rw [PGSIZE] at *
      omega
    have samePage : pageOf (base + BitVec.ofNat 64 offset) = pageOf base :=
      (within_page (by omega)).1
    rw [copyout_within src page.table (by rw [frameOf_page samePage, page.found])
      (by rw [position, width]; exact inside), position, width]
  · -- Nothing is copied.
    obtain rfl : size = 0 := by omega
    have same : Data.overwrite mem frame (blit (mem frame) offset src 0 0) = mem := by
      funext other index
      by_cases here : other = frame
      · rw [here, overwrite_self, blit, if_neg (by omega)]
      · rw [overwrite_of_ne here]
    rw [same]
    rfl

theorem StackPage.push (page : StackPage mem root base frame) {size : Nat}
    (inside : offset ≤ PGSIZE) (small : size ≤ PGSIZE) :
    let sp := base + BitVec.ofNat 64 offset - BitVec.ofNat 64 size
    if size ≤ offset then sp - sp % 16 = base + BitVec.ofNat 64 ((offset - size) / 16 * 16) ∧
      ¬sp - sp % 16 < base
    else sp - sp % 16 < base := by
  intro sp
  have address := page.address inside
  have low := page.low
  have high := page.high
  have aligned := page.aligned
  have value : sp.toNat = base.toNat + offset - size := by
    show (_ - BitVec.ofNat 64 size).toNat = _
    rw [PGSIZE] at *
    rw [BitVec.toNat_sub, address, BitVec.toNat_ofNat]
    omega
  have down : (sp - sp % 16).toNat = sp.toNat / 16 * 16 := by
    have bound := sp.isLt
    rw [BitVec.toNat_sub, BitVec.toNat_umod, show (16 : Word).toNat = 16 from rfl]
    omega
  split
  · rename_i fits
    have target : (base + BitVec.ofNat 64 ((offset - size) / 16 * 16)).toNat =
        base.toNat + (offset - size) / 16 * 16 := page.address (by omega)
    constructor
    · apply BitVec.eq_of_toNat_eq
      rw [down, target, value]
      rw [PGSIZE] at *
      omega
    · rw [BitVec.lt_def, down, value]
      rw [PGSIZE] at *
      omega
  · rw [BitVec.lt_def, down, value]
    rw [PGSIZE] at *
    omega

/-! ## The strings -/

/-- Strings that stand in the stack page from `offset` on, the first one highest. -/
structure Pushed (base : Word) (args : List (List UInt8)) (ustack : List Word) (bytes : Bytes)
    (offset : Nat) : Prop where
  length : ustack.length = args.length
  placed : ∀ (i : Nat) arg va, args[i]? = some arg → ustack[i]? = some va →
    base.toNat + offset ≤ va.toNat ∧ va.toNat + (arg.length + 1) ≤ base.toNat + PGSIZE ∧
      ∀ k, k ≤ arg.length → bytes (va.toNat - base.toNat + k) = arg.getD k 0
  apart : ∀ (i j : Nat) arg va va', i < j → args[j]? = some arg → ustack[i]? = some va → ustack[j]? = some va' →
    va'.toNat + (arg.length + 1) ≤ va.toNat

variable {bytes : Bytes}

theorem Pushed.nil : Pushed base [] [] bytes PGSIZE :=
  ⟨rfl, nofun, nofun⟩

variable {args : List (List UInt8)} {ustack : List Word}

theorem Pushed.push (page : StackPage mem root base frame)
    (pushed : Pushed base args ustack bytes offset) (inside : offset ≤ PGSIZE) (arg : List UInt8)
    (fits : arg.length + 1 ≤ offset) {next : Nat}
    (isNext : next = (offset - (arg.length + 1)) / 16 * 16) :
    Pushed base (args ++ [arg]) (ustack ++ [base + BitVec.ofNat 64 next])
      (blit bytes next (arg.getD · 0) 0 (arg.length + 1)) next := by
  have address : (base + BitVec.ofNat 64 next).toNat = base.toNat + next := page.address (by omega)
  have older : ∀ {i : Nat} {value : Word}, (ustack ++ [base + BitVec.ofNat 64 next])[i]? = some value →
      i < args.length → ustack[i]? = some value := fun found below => by
    rwa [List.getElem?_append_left (by rw [pushed.length]; exact below)] at found
  have newest : ∀ {i : Nat} {value : Word}, (ustack ++ [base + BitVec.ofNat 64 next])[i]? = some value →
      ¬i < args.length → value = base + BitVec.ofNat 64 next := fun {i value} found above => by
    rw [List.getElem?_append_right (by rw [pushed.length]; omega)] at found
    obtain ⟨inside, isValue⟩ := List.getElem?_eq_some_iff.mp found
    rw [← isValue, List.getElem_singleton]
  have newestArg : ∀ {i : Nat} {value : List UInt8}, (args ++ [arg])[i]? = some value →
      ¬i < args.length → value = arg := fun {i value} found above => by
    rw [List.getElem?_append_right (by omega)] at found
    obtain ⟨inside, isValue⟩ := List.getElem?_eq_some_iff.mp found
    rw [← isValue, List.getElem_singleton]
  refine ⟨by simp [pushed.length], ?_, ?_⟩
  · intro i other va isArg isVa
    by_cases old : i < args.length
    · rw [List.getElem?_append_left old] at isArg
      obtain ⟨lower, upper, stored⟩ := pushed.placed i other va isArg (older isVa old)
      refine ⟨by omega, upper, fun k below => ?_⟩
      rw [blit_outside (by omega), stored k below]
    · obtain rfl := newestArg isArg old
      obtain rfl := newest isVa old
      rw [address]
      refine ⟨Nat.le_refl _, by omega, fun k below => ?_⟩
      rw [Nat.add_sub_cancel_left, blit_inside (by omega)]
      congr 1
      omega
  · intro i j other va va' less isArg isVa isVa'
    by_cases old : j < args.length
    · rw [List.getElem?_append_left old] at isArg
      exact pushed.apart i j other va va' less isArg (older isVa (by omega)) (older isVa' old)
    · obtain rfl := newestArg isArg old
      obtain rfl := newest isVa' old
      have below : i < args.length := by
        obtain ⟨bound, _⟩ := List.getElem?_eq_some_iff.mp isArg
        rw [List.length_append, List.length_singleton] at bound
        omega
      obtain ⟨lower, _⟩ := pushed.placed i args[i] va (List.getElem?_eq_getElem below) (older isVa below)
      rw [address]
      omega

/-- What is left of the page after the strings, if they fit. -/
theorem align16_below (size : Nat) {used : Nat} (whole : used % 16 = 0) (fits : used ≤ PGSIZE) :
    (size ≤ PGSIZE - used ↔ align16 (used + size) ≤ PGSIZE) ∧
      (size ≤ PGSIZE - used → (PGSIZE - used - size) / 16 * 16 = PGSIZE - align16 (used + size)) ∧
      align16 (used + size) % 16 = 0 := by
  unfold align16
  rw [PGSIZE] at *
  omega

theorem stringBytes_mono (argv : List (List UInt8)) (used : Nat) :
    used ≤ argv.foldl (fun used arg => align16 (used + (arg.length + 1))) used := by
  induction argv generalizing used with
  | nil => exact Nat.le_refl _
  | cons arg argv ih =>
    refine Nat.le_trans ?_ (ih _)
    show _ ≤ (_ + 15) / 16 * 16
    omega

theorem pushStrings_spec (argv : List (List UInt8)) {done : List (List UInt8)} {used : Nat}
    (page : StackPage mem root base frame)
    (pushed : Pushed base done ustack (mem frame) (PGSIZE - used)) (whole : used % 16 = 0)
    (room : used ≤ PGSIZE) (few : done.length + argv.length ≤ MAXARG)
    (short : ∀ arg ∈ argv, arg.length < PGSIZE) :
    ∃ fits sp ustack' bytes, pushStrings root base argv done.length
        (base + BitVec.ofNat 64 (PGSIZE - used)) ustack mem =
        .ok (fits, sp, ustack', Data.overwrite mem frame bytes) ∧
      (fits = true ↔ argv.foldl (fun used arg => align16 (used + (arg.length + 1))) used ≤ PGSIZE) ∧
      (fits = true → sp = base + BitVec.ofNat 64
          (PGSIZE - argv.foldl (fun used arg => align16 (used + (arg.length + 1))) used) ∧
        argv.foldl (fun used arg => align16 (used + (arg.length + 1))) used % 16 = 0 ∧
        Pushed base (done ++ argv) ustack' bytes
          (PGSIZE - argv.foldl (fun used arg => align16 (used + (arg.length + 1))) used)) := by
  induction argv generalizing mem done ustack used with
  | nil =>
    refine ⟨true, _, ustack, mem frame, by rw [overwrite_eq_self]; rfl, ⟨fun _ => room, fun _ => rfl⟩,
      fun _ => ⟨rfl, whole, ?_⟩⟩
    rw [List.append_nil]
    exact pushed
  | cons arg argv ih =>
    have size : arg.length + 1 ≤ PGSIZE := short arg List.mem_cons_self
    rw [List.length_cons] at few
    obtain ⟨fitting, left, even⟩ := align16_below (arg.length + 1) whole room
    have down := page.push (Nat.sub_le PGSIZE used) size
    rw [pushStrings, if_neg (by omega)]
    simp only [List.foldl_cons]
    by_cases fits : arg.length + 1 ≤ PGSIZE - used
    · rw [if_pos fits] at down
      rw [if_neg down.2, down.1, left fits, page.copyout _ (by rw [← left fits]; omega), ok_bind]
      simp only [Int.reduceLT, if_false]
      have pushedNow := pushed.push page (Nat.sub_le PGSIZE used) arg fits (left fits).symm
      have lengths : done.length + 1 = (done ++ [arg]).length := by
        rw [List.length_append, List.length_singleton]
      obtain ⟨fits', sp, ustack', bytes, looped, iff, outcome⟩ := ih (page.overwrite _)
        (by rw [overwrite_self]; exact pushedNow) even (fitting.mp fits) (by rw [← lengths]; omega)
        (fun other member => short other (List.mem_cons_of_mem _ member))
      refine ⟨fits', sp, ustack', bytes, ?_, iff, fun success => ?_⟩
      · rw [lengths, looped, overwrite_overwrite]
      · obtain ⟨isSp, wholeNow, all⟩ := outcome success
        rw [List.append_assoc, List.singleton_append] at all
        exact ⟨isSp, wholeNow, all⟩
    · rw [if_neg fits] at down
      rw [if_pos down]
      refine ⟨false, _, ustack, mem frame, by rw [overwrite_eq_self], ⟨by simp, fun all => ?_⟩, by simp⟩
      have mono := stringBytes_mono argv (align16 (used + (arg.length + 1)))
      exact absurd (Nat.le_trans mono all) fun le => fits (fitting.mpr le)

/-! ## The array of pointers -/

theorem load_wordBytes {words : List Word} {i : Nat} {value : Word}
    (copied : ∀ k, k < words.length * 8 → bytes (offset + k) = wordBytes words k)
    (found : words[i]? = some value) : bytes.load (offset + 8 * i) 8 = value.toNat := by
  obtain ⟨inside, isValue⟩ := List.getElem?_eq_some_iff.mp found
  have stored : bytes.load (offset + 8 * i) 8 =
      (bytes.store (offset + 8 * i) 8 value.toNat).load (offset + 8 * i) 8 := by
    refine Bytes.load_congr fun index lower upper => ?_
    obtain ⟨k, rfl⟩ : ∃ k, index = offset + (8 * i + k) := ⟨index - (offset + 8 * i), by omega⟩
    have low : k < 8 := by omega
    have quotient : (8 * i + k) / 8 = i := by omega
    have remainder : (8 * i + k) % 8 = k := by omega
    have position : offset + (8 * i + k) - (offset + 8 * i) = k := by omega
    rw [copied _ (by omega), Bytes.store, if_pos (by omega), wordBytes, quotient, remainder, position,
      List.getD_eq_getElem?_getD, found, Option.getD_some]
  rw [stored, Bytes.load_store_fits value.isLt]

/-- The strings and, from `offset` on, the array of pointers to them. -/
structure ArgsPushed (base : Word) (argv : List (List UInt8)) (ustack : List Word) (bytes : Bytes)
    (offset : Nat) : Prop where
  strings : Pushed base argv ustack bytes (offset + 8 * (argv.length + 1))
  array : ∀ (i : Nat) va, (ustack ++ [0])[i]? = some va → bytes.load (offset + 8 * i) 8 = va.toNat

theorem Pushed.below {low : Nat} (pushed : Pushed base args ustack bytes offset)
    (le : low ≤ offset) :
    Pushed base args ustack bytes low := by
  refine ⟨pushed.length, fun i arg va isArg isVa => ?_, pushed.apart⟩
  obtain ⟨lower, rest⟩ := pushed.placed i arg va isArg isVa
  exact ⟨by omega, rest⟩

/-- Bytes that were written below the strings do not matter to them. -/
theorem Pushed.blit {src : Bytes} {low size : Nat} (pushed : Pushed base args ustack bytes offset)
    (le : low + size ≤ offset) :
    Pushed base args ustack (blit bytes low src 0 size) offset := by
  refine ⟨pushed.length, fun i arg va isArg isVa => ?_, pushed.apart⟩
  obtain ⟨lower, upper, stored⟩ := pushed.placed i arg va isArg isVa
  refine ⟨lower, upper, fun k below => ?_⟩
  rw [blit_outside (by omega), stored k below]

theorem pushArgs_spec {argv : List (List UInt8)} (page : StackPage mem root base frame)
    (few : argv.length < MAXARG) (short : ∀ arg ∈ argv, arg.length < PGSIZE) :
    ∃ fits sp bytes, pushArgs root base argv (base + BitVec.ofNat 64 PGSIZE) mem =
        .ok (fits, sp, Data.overwrite mem frame bytes) ∧
      (fits = true ↔ stackBytes argv ≤ PGSIZE) ∧
      (fits = true → sp = base + BitVec.ofNat 64 (PGSIZE - stackBytes argv) ∧ stackBytes argv % 16 = 0 ∧
        ∃ ustack, ArgsPushed base argv ustack bytes (PGSIZE - stackBytes argv)) := by
  obtain ⟨fits, sp, ustack, bytes, looped, fitting, outcome⟩ :=
    pushStrings_spec argv page (.nil : Pushed base [] [] (mem frame) (PGSIZE - 0)) (Nat.zero_mod _) (Nat.zero_le _)
      (by simpa using Nat.le_of_lt few) short
  change (fits = true ↔ stringBytes argv ≤ PGSIZE) at fitting
  change (fits = true → sp = base + BitVec.ofNat 64 (PGSIZE - stringBytes argv) ∧
    stringBytes argv % 16 = 0 ∧ Pushed base argv ustack bytes (PGSIZE - stringBytes argv)) at outcome
  rw [List.length_nil, Nat.sub_zero] at looped
  rw [pushArgs, looped, ok_bind]
  cases fits with
  | false =>
    have exceeds : ¬stringBytes argv ≤ PGSIZE := fun le => absurd (fitting.mpr le) (by decide)
    refine ⟨false, sp, bytes, rfl, ⟨nofun, fun le => absurd ?_ exceeds⟩, nofun⟩
    have above : stringBytes argv ≤ stackBytes argv := by
      unfold stackBytes align16
      omega
    exact Nat.le_trans above le
  | true =>
    obtain ⟨rfl, whole, pushed⟩ := outcome rfl
    have room := fitting.mp rfl
    obtain ⟨lower, left, even⟩ := align16_below ((argv.length + 1) * 8) whole room
    change ((argv.length + 1) * 8 ≤ PGSIZE - stringBytes argv ↔ stackBytes argv ≤ PGSIZE) at lower
    change (_ → _ = PGSIZE - stackBytes argv) at left
    have pageNow := page.overwrite bytes
    have down := pageNow.push (Nat.sub_le PGSIZE (stringBytes argv))
      (show (argv.length + 1) * 8 ≤ PGSIZE by rw [MAXARG] at few; rw [PGSIZE]; omega)
    simp only [if_true]
    by_cases fits : (argv.length + 1) * 8 ≤ PGSIZE - stringBytes argv
    · rw [if_pos fits, left fits] at down
      have below : PGSIZE - stackBytes argv + (argv.length + 1) * 8 ≤ PGSIZE - stringBytes argv := by
        rw [← left fits]
        omega
      rw [if_neg down.2, down.1, pageNow.copyout _ (by omega), ok_bind, overwrite_overwrite,
        overwrite_self]
      refine ⟨true, _, _, rfl, ⟨fun _ => lower.mp fits, fun _ => rfl⟩,
        fun _ => ⟨rfl, even, ustack, ?_, fun i va found => ?_⟩⟩
      · exact (pushed.blit below).below (by omega)
      · refine load_wordBytes (fun k inside => ?_) found
        rw [List.length_append, List.length_singleton, pushed.length] at inside
        rw [blit_inside (by omega)]
        congr 1
        omega
    · rw [if_neg fits] at down
      rw [if_pos down]
      exact ⟨false, _, bytes, rfl, ⟨nofun, fun le => absurd (lower.mpr le) fits⟩, nofun⟩

end

end Xv6.Exec
