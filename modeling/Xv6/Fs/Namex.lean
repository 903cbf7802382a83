import Mathlib.Data.Finset.Card
import Xv6.Fs.BlockOwnership
import Xv6.Fs.Paths

namespace Xv6.Fs

open Xv6.Data Xv6.Log

/-! # Path resolution

`namex` on a directory tree: what it returns, and what it does to the inode table.
-/

variable {sb : Superblock} {before fs : Store} {holds : List (Fin NINODE)}

/-! ## References -/

/-- The table has changed by some more references. -/
structure Holds (sb : Superblock) (before fs : Store) (holds : List (Fin NINODE)) : Prop where
  invariant : Invariant sb fs
  disk : fs.disk = before.disk
  refs : ∀ slot, (fs.itable slot).ref = (before.itable slot).ref + holds.count slot
  inums : ∀ slot, (before.itable slot).ref > 0 → (fs.itable slot).inum = (before.itable slot).inum

/-- An allocated inode that the last `iput` would not free. -/
structure Anchored (sb : Superblock) (fs : Store) (inum : Nat) : Prop where
  inside : inum < sb.ninodes
  allocated : (dinode sb fs.disk inum).type ≠ 0
  kept : (dinode sb fs.disk inum).nlink ≠ 0 ∨
    ∃ slot, (fs.itable slot).ref > 0 ∧ (fs.itable slot).inum = inum

/-- The unused entries of the inode table. -/
def freeSlots (fs : Store) : Nat :=
  (Finset.univ.filter fun slot : Fin NINODE => (fs.itable slot).ref = 0).card

theorem Holds.refl (invariant : Invariant sb fs) : Holds sb fs fs [] :=
  ⟨invariant, rfl, fun _ => rfl, fun _ _ => rfl⟩

theorem Holds.ref_pos (held : Holds sb before fs holds) {slot : Fin NINODE} (member : slot ∈ holds) :
    (fs.itable slot).ref > 0 := by
  have count := List.count_pos_iff.mpr member
  rw [held.refs slot]
  omega

variable {inum : Nat}

theorem Holds.iget (held : Holds sb before fs holds) (inside : inum < sb.ninodes) :
    Ensures (fun reason => reason = .noInodeSlot ∧ ∀ slot, (fs.itable slot).ref ≠ 0)
      (fun result => Holds sb before result.2 (result.1 :: holds) ∧
        (result.2.itable result.1).inum = inum ∧
        ∀ slot ∈ holds, (result.2.itable slot).inum = (fs.itable slot).inum)
      (iget fs inum) := by
  have refs : ∀ (found : Fin NINODE) (entry : Inode), entry.ref = (fs.itable found).ref + 1 →
      ∀ slot, ((fs.set found entry).itable slot).ref =
        (before.itable slot).ref + (found :: holds).count slot := by
    intro found entry more slot
    by_cases same : slot = found
    · subst same
      simp only [Store.set, overwrite_self, more, held.refs, List.count_cons_self]
      omega
    · rw [List.count_cons_of_ne (Ne.symm same)]
      simp only [Store.set, overwrite_of_ne same]
      exact held.refs slot
  rcases iget_cases fs inum with ⟨slot, inUse, isInum, found⟩ | ⟨slot, unused, absent, found⟩ | ⟨full, none⟩
  · have same : ∀ other, ((fs.set slot { fs.itable slot with
        ref := (fs.itable slot).ref + 1 }).itable other).inum = (fs.itable other).inum := by
      intro other
      apply overwrite_congr Inode.inum
      rfl
    rw [found]
    refine ⟨⟨held.invariant.reref inUse _, held.disk, refs _ _ rfl, fun other used => ?_⟩, ?_, ?_⟩
    · rw [same, held.inums other used]
    · rw [same, isInum]
    · exact fun other _ => same other
  · have same : ∀ other, (fs.itable other).ref > 0 →
        ((fs.set slot ⟨inum, 1, false, (fs.itable slot).copy⟩).itable other).inum =
          (fs.itable other).inum := by
      intro other used
      have different : other ≠ slot := by
        intro equal
        rw [equal, unused] at used
        exact Nat.lt_irrefl _ used
      simp only [Store.set, overwrite_of_ne different]
    rw [found]
    refine ⟨⟨held.invariant.recycle rfl (fun _ => inside) fun _ => absent, held.disk, ?_, fun other used => ?_⟩,
      ?_, ?_⟩
    · exact refs _ _ (by rw [unused])
    · rw [same other (by rw [held.refs]; omega), held.inums other used]
    · simp only [Store.set, overwrite_self]
    · exact fun other member => same other (held.ref_pos member)
  · rw [none]
    exact ⟨rfl, full⟩

/-- A change that moves no inode to another entry. -/
theorem Holds.change {fs' : Store} {after : List (Fin NINODE)} (held : Holds sb before fs holds)
    (invariant : Invariant sb fs') (disk : fs'.disk = fs.disk)
    (inums : ∀ slot, (fs'.itable slot).inum = (fs.itable slot).inum)
    (refs : ∀ slot, (fs'.itable slot).ref + holds.count slot =
      (fs.itable slot).ref + after.count slot) : Holds sb before fs' after := by
  refine ⟨invariant, disk.trans held.disk, fun slot => ?_, fun slot used => ?_⟩
  · have earlier := held.refs slot
    have now := refs slot
    omega
  · rw [inums, held.inums slot used]

theorem inums_set (slot : Fin NINODE) {entry : Inode} (same : entry.inum = (fs.itable slot).inum)
    (other : Fin NINODE) : ((fs.set slot entry).itable other).inum = (fs.itable other).inum := by
  apply overwrite_congr Inode.inum
  exact same

variable {cwd : Fin NINODE}

theorem Holds.idup (held : Holds sb before fs holds) (inUse : (fs.itable cwd).ref > 0) :
    Holds sb before (idup fs cwd) (cwd :: holds) ∧
      ((Fs.idup fs cwd).itable cwd).inum = (fs.itable cwd).inum := by
  have inums : ∀ slot, ((Fs.idup fs cwd).itable slot).inum = (fs.itable slot).inum := by
    unfold Fs.idup
    exact inums_set cwd rfl
  refine ⟨held.change (held.invariant.reref inUse _) rfl inums fun slot => ?_, inums cwd⟩
  by_cases same : slot = cwd
  · subst same
    simp only [Fs.idup, Store.set, overwrite_self, List.count_cons_self]
    omega
  · rw [List.count_cons_of_ne (Ne.symm same)]
    simp only [Fs.idup, Store.set, overwrite_of_ne same]

variable {ip : Fin NINODE}

theorem Holds.ilock (held : Holds sb before fs holds) (member : ip ∈ holds)
    (allocated : (dinode sb before.disk (fs.itable ip).inum).type ≠ 0) :
    ∃ fs', ilock sb fs ip = .ok fs' ∧ Holds sb before fs' holds ∧ (fs'.itable ip).valid = true ∧
      (fs'.itable ip).copy = dinode sb before.disk (fs.itable ip).inum ∧
      ∀ slot, (fs'.itable slot).inum = (fs.itable slot).inum := by
  have inUse := held.ref_pos member
  have spec := ilock_spec held.invariant inUse
  rw [← held.disk] at allocated ⊢
  unfold Fs.ilock at spec ⊢
  simp only [if_neg (Nat.not_lt.mpr inUse)] at spec ⊢
  by_cases valid : (fs.itable ip).valid = true
  · rw [if_pos valid]
    exact ⟨fs, rfl, held, valid, (held.invariant.current ip inUse valid).1.symm, fun _ => rfl⟩
  · rw [if_neg valid, if_neg allocated] at spec ⊢
    refine ⟨_, rfl, held.change spec rfl (inums_set ip rfl) fun slot => ?_, ?_, ?_, inums_set ip rfl⟩
    · congr 1
      apply overwrite_congr Inode.ref
      rfl
    · simp only [Store.set, overwrite_self]
    · simp only [Store.set, overwrite_self]

/-- The reference that is dropped is not the last one to an inode without links. -/
theorem Holds.iput (held : Holds sb before fs holds) (member : ip ∈ holds)
    (anchored : Anchored sb before (fs.itable ip).inum) :
    ∃ fs', iput sb fs ip = .ok fs' ∧ Holds sb before fs' (holds.erase ip) ∧
      ∀ slot, (fs'.itable slot).inum = (fs.itable slot).inum := by
  have inUse := held.ref_pos member
  have keeps : ¬((fs.itable ip).ref = 1 ∧ (fs.itable ip).valid = true ∧ (fs.itable ip).copy.nlink = 0) := by
    rintro ⟨last, valid, unlinked⟩
    rcases anchored.kept with linked | ⟨slot, used, same⟩
    · rw [← held.disk, (held.invariant.current ip inUse valid).1] at linked
      exact linked unlinked
    · -- The table had a reference to the inode before this one.
      have usedNow : (fs.itable slot).ref > 0 := by
        rw [held.refs]
        omega
      have isIp := held.invariant.distinct slot ip usedNow inUse (by rw [held.inums slot used, same])
      subst isIp
      have count := List.count_pos_iff.mpr member
      rw [held.refs slot] at last
      omega
  unfold Fs.iput
  simp only
  rw [if_neg keeps]
  refine ⟨_, rfl, held.change (held.invariant.reref inUse _) rfl (inums_set ip rfl) fun slot => ?_,
    inums_set ip rfl⟩
  have count := List.count_pos_iff.mpr member
  by_cases same : slot = ip
  · subst same
    rw [List.count_erase_self]
    simp only [Store.set, overwrite_self]
    omega
  · rw [List.count_erase_of_ne same]
    simp only [Store.set, overwrite_of_ne same]

/-! ## Directory trees -/

/-- Every entry of a directory, and the root, names an inode that is in a good way. -/
structure Tree (sb : Superblock) (fs : Store) (good : Nat → Prop) : Prop where
  invariant : Invariant sb fs
  root : good ROOTINO
  whole : ∀ dir, dir < sb.ninodes → (dinode sb fs.disk dir).type = T_DIR →
    (dinode sb fs.disk dir).size % direntSize = 0
  entries : ∀ dir, dir < sb.ninodes → (dinode sb fs.disk dir).type = T_DIR →
    ∀ entry ∈ (view sb fs.disk).dirents dir, entry.inum ≠ 0 → good entry.inum

theorem View.lookup_mem {view : View} {dir : Nat} {name : Fin DIRSIZ → UInt8}
    (found : view.lookup dir name = some inum) :
    ∃ entry ∈ view.dirents dir, entry.inum = inum ∧ entry.inum ≠ 0 := by
  obtain ⟨entry, first, rfl⟩ := Option.map_eq_some_iff.mp found
  have matched := List.find?_some first
  simp only [Dirent.matches, Bool.and_eq_true, decide_eq_true_eq] at matched
  exact ⟨entry, List.mem_of_find?_eq_some first, rfl, matched.1⟩

theorem Holds.dirlookup (tree : Tree sb before (Anchored sb before))
    (held : Holds sb before fs holds) (member : ip ∈ holds) (valid : (fs.itable ip).valid = true)
    (isDir : (fs.itable ip).copy.type = T_DIR) (name : Nat → UInt8) :
    Ensures (fun reason => reason = .noInodeSlot ∧ ∀ slot, (fs.itable slot).ref ≠ 0)
      (fun result => match (view sb before.disk).lookup (fs.itable ip).inum (key name) with
        | none => result = (none, fs)
        | some inum => Anchored sb before inum ∧ ∃ next off fs', result = (some (next, off), fs') ∧
            Holds sb before fs' (next :: holds) ∧ (fs'.itable next).inum = inum ∧
            (fs'.itable ip).inum = (fs.itable ip).inum)
      (dirlookup sb fs ip name) := by
  have inUse := held.ref_pos member
  obtain ⟨current, live⟩ := held.invariant.current ip inUse valid
  have inside := held.invariant.inside ip inUse
  have loaded := held.invariant.loaded inUse valid
  have aligned : (fs.itable ip).copy.size % direntSize = 0 := by
    rw [← current, held.disk]
    refine tree.whole _ inside ?_
    rw [← held.disk, current, isDir]
  have sameView : (view sb fs.disk).put (fs.itable ip).inum (fs.itable ip).copy =
      view sb before.disk := by
    rw [← current, ← view_inode inside, View.put_self, held.disk]
  have searched := dirsearch_spec loaded name
  unfold Fs.dirlookup
  cases search : dirsearch sb fs.disk (fs.itable ip).copy name with
  | error reason =>
    rw [search] at searched
    rcases searched with ⟨_, notDir⟩ | ⟨_, unaligned⟩
    · exact absurd isDir notDir
    · exact absurd aligned unaligned
  | ok result =>
    obtain ⟨found, dp, disk⟩ := result
    rw [search] at searched
    obtain ⟨rfl, rfl, spec⟩ := searched
    have first := congrArg (Option.map Prod.fst) (spec aligned)
    rw [sameView, findFrom_fst, List.drop_zero] at first
    change _ = (view sb before.disk).lookup (fs.itable ip).inum (key name) at first
    rw [ok_bind, ← first]
    cases found with
    | none => simp only [Option.map_none, Store.put_self, ensures_ok]
    | some entry =>
      have anchored : Anchored sb before entry.1 := by
        obtain ⟨named, listed, isNamed, nonzero⟩ := View.lookup_mem first.symm
        refine isNamed ▸ tree.entries _ inside ?_ named listed nonzero
        rw [← held.disk, current, isDir]
      simp only [Option.map_some, Store.put_self]
      refine (held.iget anchored.inside).bind fun result found => ?_
      obtain ⟨holdsNext, inum, others⟩ := found
      exact ⟨anchored, result.1, entry.2, result.2, rfl, holdsNext, inum, others ip member⟩

/-! ## The loop -/

/-- What a path name leads to from an inode: with `nameiparent` the directory of the last
component and that component, else the inode itself. -/
def View.namex (view : View) (nameiparent : Bool) (inum : Nat) (path : List (List UInt8)) :
    Option (Nat × List UInt8) :=
  if nameiparent then view.resolveParent inum path else (view.resolve inum path).map (·, [])

theorem View.namex_nil (view : View) (nameiparent : Bool) (inum : Nat) :
    view.namex nameiparent inum [] = if nameiparent then none else some (inum, []) := rfl

theorem View.namex_last (view : View) (inum : Nat) (component : List UInt8) :
    view.namex true inum [component] =
      if (view.inode inum).type = T_DIR then some (inum, component) else none := rfl

theorem View.namex_cons (view : View) (nameiparent : Bool) (inum : Nat) (component : List UInt8)
    {rest : List (List UInt8)} (more : ¬(nameiparent = true ∧ rest = [])) :
    view.namex nameiparent inum (component :: rest) =
      if (view.inode inum).type = T_DIR then
        (view.lookup inum (key (nameBuffer component))).bind fun next =>
          view.namex nameiparent next rest
      else
        none := by
  cases nameiparent with
  | false =>
    simp only [View.namex, View.resolve, Bool.false_eq_true, if_false]
    split
    · rw [Option.map_bind]
      rfl
    · rfl
  | true =>
    have nonempty : rest ≠ [] := fun empty => more ⟨rfl, empty⟩
    simp only [View.namex, View.resolveParent, if_true, List.getLast?_cons_of_ne_nil nonempty,
      List.dropLast_cons_of_ne_nil nonempty, View.resolve]
    obtain ⟨last, isLast⟩ := Option.ne_none_iff_exists'.mp
      (fun none => nonempty (List.getLast?_eq_none_iff.mp none))
    rw [isLast]
    simp only [Option.bind_some]
    split
    · rw [Option.bind_assoc]
    · rfl

theorem View.namex_notDir {view : View} (notDir : (view.inode inum).type ≠ T_DIR)
    (nameiparent : Bool) (component : List UInt8) (rest : List (List UInt8)) :
    view.namex nameiparent inum (component :: rest) = none := by
  by_cases last : nameiparent = true ∧ rest = []
  · obtain ⟨rfl, rfl⟩ := last
    rw [View.namex_last, if_neg notDir]
  · rw [View.namex_cons view nameiparent inum component last, if_neg notDir]

theorem freeSlots_le_one (held : Holds sb before fs holds) (ip : Fin NINODE)
    (only : ∀ slot ∈ holds, slot = ip) (full : ∀ slot, (fs.itable slot).ref ≠ 0) :
    freeSlots before ≤ 1 := by
  rw [freeSlots, ← Finset.card_singleton ip]
  refine Finset.card_le_card fun slot member => Finset.mem_singleton.mpr ?_
  have unused := (Finset.mem_filter.mp member).2
  refine only slot (List.count_pos_iff.mp ?_)
  have now := full slot
  rw [held.refs, unused] at now
  omega

/-- The outcome of `namex` from an inode: the entry it returns, with one reference, names the
inode that the path leads to. -/
structure Resolved (sb : Superblock) (before : Store) (nameiparent : Bool) (inum : Nat)
    (path : List UInt8) (result : Option (Fin NINODE × (Nat → UInt8)) × Store) : Prop where
  found : result.1.map (fun each => ((result.2.itable each.1).inum, each.2)) =
    ((view sb before.disk).namex nameiparent inum (components path)).map
      fun each => (each.1, nameBuffer each.2)
  holds : Holds sb before result.2 (result.1.map Prod.fst).toList

theorem namexFrom_spec (tree : Tree sb before (Anchored sb before)) (nameiparent : Bool)
    (fuel : Nat) {path : List UInt8} (enough : path.length < fuel) (held : Holds sb before fs [ip])
    (anchored : Anchored sb before (fs.itable ip).inum) :
    Ensures (fun reason => reason = .noInodeSlot ∧ freeSlots before < 2)
      (Resolved sb before nameiparent (fs.itable ip).inum path)
      (namexFrom sb nameiparent fuel fs ip path) := by
  induction fuel generalizing fs ip path with
  | zero => contradiction
  | succ fuel ih =>
    have mine : ip ∈ [ip] := List.mem_singleton_self ip
    unfold namexFrom
    rcases skipelem_spec path with ⟨none, empty⟩ | ⟨component, rest, some, split, last, shorter⟩
    · rw [none]
      simp only
      split
      · rename_i parent
        obtain ⟨fs', put, dropped, _⟩ := held.iput mine anchored
        rw [put, ok_bind]
        rw [List.erase_cons_head] at dropped
        refine ⟨?_, dropped⟩
        rw [empty, View.namex_nil, if_pos parent]
        rfl
      · rename_i inode
        refine ⟨?_, held⟩
        rw [empty, View.namex_nil, if_neg inode]
        rfl
    · rw [some]
      simp only
      obtain ⟨locked, lock, heldNow, valid, copy, inums⟩ := held.ilock mine anchored.allocated
      rw [lock, ok_bind]
      have type : ((view sb before.disk).inode (fs.itable ip).inum).type =
          (locked.itable ip).copy.type := by
        rw [view_inode anchored.inside, copy]
      have anchoredNow : Anchored sb before (locked.itable ip).inum := inums ip ▸ anchored
      split
      · rename_i notDir
        obtain ⟨fs', put, dropped, _⟩ := heldNow.iput mine anchoredNow
        rw [put, ok_bind]
        rw [List.erase_cons_head] at dropped
        refine ⟨?_, dropped⟩
        rw [split, View.namex_notDir (type ▸ notDir)]
        rfl
      · rename_i isDir
        rw [ne_eq, not_not] at isDir
        split
        · rename_i early
          refine ⟨?_, heldNow⟩
          rw [split, last.mp early.2, early.1, View.namex_last, if_pos (type.trans isDir)]
          simp only [Option.map_some, inums]
        · rename_i more
          rw [last] at more
          have walk := View.namex_cons (view sb before.disk) nameiparent (fs.itable ip).inum
            component more
          rw [if_pos (type.trans isDir), ← split] at walk
          have found := heldNow.dirlookup tree mine valid isDir (nameBuffer component)
          rw [inums] at found
          refine Ensures.bind (found.mono_errors fun reason ⟨isFull, full⟩ => ⟨isFull, ?_⟩) ?_
          · have few := freeSlots_le_one heldNow ip (by simp) full
            omega
          intro result outcome
          cases looked : (view sb before.disk).lookup (fs.itable ip).inum
              (key (nameBuffer component)) with
          | none =>
            rw [looked] at outcome walk
            obtain rfl := outcome
            obtain ⟨fs', put, dropped, _⟩ := heldNow.iput mine anchoredNow
            simp only [put, ok_bind]
            rw [List.erase_cons_head] at dropped
            refine ⟨?_, dropped⟩
            rw [walk]
            rfl
          | some inum =>
            rw [looked] at outcome walk
            obtain ⟨anchoredNext, next, off, fs', rfl, both, isInum, sameIp⟩ := outcome
            have anchoredHere : Anchored sb before (fs'.itable ip).inum := by
              rw [sameIp]
              exact anchored
            obtain ⟨fs'', put, dropped, inumsPut⟩ := both.iput (by simp) anchoredHere
            simp only [put, ok_bind]
            have one : [next, ip].erase ip = [next] := by
              by_cases same : next = ip
              · rw [same, List.erase_cons_head]
              · rw [List.erase_cons_tail (by simpa using same), List.erase_cons_head]
            rw [one] at dropped
            have isNext : (fs''.itable next).inum = inum := (inumsPut next).trans isInum
            refine (ih (by omega) dropped (isNext ▸ anchoredNext)).mono fun result resolved => ?_
            refine ⟨?_, resolved.holds⟩
            rw [resolved.found, isNext, walk, Option.bind_some]

theorem namex_spec (tree : Tree sb fs (Anchored sb fs))
    (anchored : Anchored sb fs (fs.itable cwd).inum) (inUse : (fs.itable cwd).ref > 0)
    (path : List UInt8) (nameiparent : Bool) :
    Ensures (fun reason => reason = .noInodeSlot ∧ freeSlots fs < 2)
      (Resolved sb fs nameiparent
        (if path.head? = some slash then ROOTINO else (fs.itable cwd).inum) path)
      (namex sb fs cwd path nameiparent) := by
  have none := Holds.refl tree.invariant
  unfold namex
  split
  · refine Ensures.bind ((none.iget tree.root.inside).mono_errors
      fun reason ⟨isFull, full⟩ => ⟨isFull, ?_⟩) ?_
    · have few := freeSlots_le_one none cwd nofun full
      omega
    intro ⟨ip, fs'⟩ ⟨held, isRoot, _⟩
    simp only at held isRoot ⊢
    rw [← isRoot]
    exact namexFrom_spec tree nameiparent _ (Nat.lt_succ_self _) held (isRoot ▸ tree.root)
  · obtain ⟨held, isCwd⟩ := none.idup inUse
    rw [← isCwd]
    exact namexFrom_spec tree nameiparent _ (Nat.lt_succ_self _) held (isCwd ▸ anchored)

/-! ## namei -/

theorem Tree.resolve_good {good : Nat → Prop} (tree : Tree sb fs good)
    (inside : ∀ inum, good inum → inum < sb.ninodes) (path : List (List UInt8)) {found : Nat}
    (start : good inum) (resolved : (view sb fs.disk).resolve inum path = some found) :
    good found := by
  induction path generalizing inum with
  | nil =>
    cases resolved
    exact start
  | cons component rest ih =>
    rw [View.resolve, Option.ite_none_right_eq_some] at resolved
    obtain ⟨isDir, resolved⟩ := resolved
    obtain ⟨next, looked, resolved⟩ := Option.bind_eq_some_iff.mp resolved
    obtain ⟨entry, listed, rfl, nonzero⟩ := View.lookup_mem looked
    rw [view_inode (inside inum start)] at isDir
    exact ih (tree.entries inum (inside inum start) isDir entry listed nonzero) resolved

/-- The inode that a path name means to a process in the directory `cwd`. -/
def pathInum (sb : Superblock) (fs : Store) (cwd : Fin NINODE) (path : List UInt8) : Option Nat :=
  (view sb fs.disk).resolve (if path.head? = some slash then ROOTINO else (fs.itable cwd).inum)
    (components path)

theorem namei_spec (tree : Tree sb fs (Anchored sb fs))
    (anchored : Anchored sb fs (fs.itable cwd).inum) (inUse : (fs.itable cwd).ref > 0)
    (path : List UInt8) :
    Ensures (fun reason => reason = .noInodeSlot ∧ freeSlots fs < 2)
      (fun result => match pathInum sb fs cwd path with
        | none => result.1 = none ∧ Holds sb fs result.2 []
        | some inum => ∃ ip name, result.1 = some (ip, name) ∧ Holds sb fs result.2 [ip] ∧
            (result.2.itable ip).inum = inum ∧ Anchored sb fs inum)
      (namex sb fs cwd path false) := by
  refine (namex_spec tree anchored inUse path false).mono fun ⟨found, fs'⟩ ⟨leads, holds⟩ => ?_
  rw [View.namex, if_neg (by decide)] at leads
  change _ = ((pathInum sb fs cwd path).map _).map _ at leads
  cases target : pathInum sb fs cwd path with
  | none =>
    rw [target] at leads
    cases found with
    | none => exact ⟨rfl, holds⟩
    | some each => cases leads
  | some inum =>
    rw [target] at leads
    cases found with
    | none => cases leads
    | some each =>
      have isInum : (fs'.itable each.1).inum = inum := by
        simp only [Option.map_some, Option.some.injEq, Prod.mk.injEq] at leads
        exact leads.1
      refine ⟨each.1, each.2, rfl, holds, isInum, ?_⟩
      refine tree.resolve_good (fun inum good => good.inside) (components path) ?_ target
      split
      · exact tree.root
      · exact anchored

end Xv6.Fs
