import Xv6.Exec.Exec
import Xv6.Fs.FlatFile
import Xv6.Fs.Namex
import Xv6.Vm.Process

namespace Xv6.Exec

open Xv6.Data Xv6.Vm Xv6.Kernel
open Xv6.Fs (NINODE Store Superblock uadd Holds contents)

attribute [local irreducible] tables upperTables lastTable entry

/-! # Loading segments -/

/-! ## Reading the file -/

/-- The part of a file that `readi` returns. -/
def slice (file : List UInt8) (off n : Nat) : List UInt8 := (file.take (uadd off n)).drop off

/-- `readi` on a locked inode reads a file and changes nothing. -/
structure Reads (sb : Superblock) (fs : Store) (ip : Fin NINODE) (file : List UInt8) : Prop where
  small : file.length < 2 ^ 31
  read : ∀ off n, off < 2 ^ 32 → n < 2 ^ 32 →
    readInode sb fs ip off n = .ok ((slice file off n).length, slice file off n, fs)

theorem Reads.of_holds {sb : Superblock} {before fs : Store} {holds : List (Fin NINODE)} {ip : Fin NINODE}
    (held : Holds sb before fs holds) (member : ip ∈ holds) (valid : (fs.itable ip).valid = true) :
    Reads sb fs ip (contents sb before.disk (fs.itable ip).inum) := by
  have inUse := held.ref_pos member
  obtain ⟨current, live⟩ := held.invariant.current ip inUse valid
  have inside := held.invariant.inside ip inUse
  have wellFormed := held.invariant.owned.wellFormed
  rw [← held.disk]
  constructor
  · rw [Fs.contents_length, current]
    have bound := (held.invariant.loaded inUse valid).size_le
    simp only [Fs.MAXFILE, Fs.NDIRECT, Fs.NINDIRECT, BSIZE] at bound
    omega
  · intro off n offFits countFits
    rw [readInode, ← current, Fs.readi_flat wellFormed inside (by rw [current]; exact live) offFits
      countFits fun _ _ => rfl, liftFs_ok, ok_bind]
    simp only [current, Fs.Store.put_self, slice]

theorem slice_full {file : List UInt8} {off n : Nat} (small : file.length < 2 ^ 31) (some : 0 < n)
    (offFits : off < 2 ^ 32) (countFits : n < 2 ^ 32) (full : (slice file off n).length = n) :
    off + n ≤ file.length ∧ slice file off n = (file.drop off).take n := by
  rw [slice, List.length_drop, List.length_take, uadd] at full
  have whole : (off + n) % 2 ^ 32 = off + n := by omega
  refine ⟨by omega, ?_⟩
  rw [slice, uadd, whole, List.drop_take, Nat.add_sub_cancel_left]

/-- `readi` on an inode whose file may be known. -/
theorem readInode_spec {sb : Superblock} {fs : Store} {ip : Fin NINODE} {file : Option (List UInt8)}
    {off n : Nat} (reads : ∀ known ∈ file, Reads sb fs ip known) (offFits : off < 2 ^ 32)
    (countFits : n < 2 ^ 32) :
    Ensures (fun _ => file = none) (fun result => ∀ known ∈ file,
        result = (((slice known off n).length : Int), slice known off n, fs))
      (readInode sb fs ip off n) := by
  cases file with
  | none =>
    cases readInode sb fs ip off n with
    | error reason => rfl
    | ok result => exact nofun
  | some known =>
    rw [(reads known rfl).read off n offFits countFits]
    rintro _ ⟨⟩
    rfl

/-! ## The bytes of an address space -/

/-- The bytes of some pages in a row, and zeros after them. -/
def content (mem : Memory) (pages : List Word) (address : Nat) : UInt8 :=
  pages[address / PGSIZE]?.elim 0 fun page => mem page (address % PGSIZE)

theorem content_put {phys : Phys} {pages : List Word} (distinct : pages.Nodup) {k : Nat}
    (inside : k < pages.length) (bytes : Bytes) (address : Nat) :
    content (phys.put pages[k] bytes).mem pages address =
      if address / PGSIZE = k then bytes (address % PGSIZE) else content phys.mem pages address := by
  rw [content]
  by_cases here : address / PGSIZE = k
  · rw [if_pos here, here, List.getElem?_eq_getElem inside, Option.elim_some, put_self]
  · rw [if_neg here, content]
    cases found : pages[address / PGSIZE]? with
    | none => rfl
    | some page =>
      obtain ⟨within, rfl⟩ := List.getElem?_eq_some_iff.mp found
      have different : pages[address / PGSIZE] ≠ pages[k] := fun same =>
        here ((distinct.getElem_inj_iff).mp same)
      rw [Option.elim_some, Option.elim_some, put_of_ne different]

theorem content_zeros {mem after : Memory} {pages new : List Word}
    (same : ∀ page ∈ pages, after page = mem page) (zeros : ∀ page ∈ new, after page = fun _ => 0) :
    content after (pages ++ new) = content mem pages := by
  funext address
  rw [content, content]
  rcases Nat.lt_or_ge (address / PGSIZE) pages.length with below | above
  · rw [List.getElem?_append_left below, List.getElem?_eq_getElem below, Option.elim_some,
      Option.elim_some, same _ (List.getElem_mem below)]
  · rw [List.getElem?_append_right above, List.getElem?_eq_none above, Option.elim_none]
    cases found : new[address / PGSIZE - pages.length]? with
    | none => rfl
    | some page => rw [Option.elim_some, zeros page (List.mem_of_getElem? found)]

theorem content_congr {mem after : Memory} {pages : List Word}
    (same : ∀ page ∈ pages, after page = mem page) : content after pages = content mem pages := by
  have extended := content_zeros same (show ∀ page ∈ [], after page = fun _ => 0 from nofun)
  rwa [List.append_nil] at extended

theorem content_front {mem before : Memory} {pages new : List Word}
    (same : content mem (pages ++ new) = content before pages) :
    content mem pages = content before pages := by
  funext address
  rcases Nat.lt_or_ge (address / PGSIZE) pages.length with below | above
  · rw [← same, content, content, List.getElem?_append_left below]
  · rw [content, content, List.getElem?_eq_none above]
    rfl

/-- Only the bytes of some pages have changed. -/
structure Rewritten (pages : List Word) (phys after : Phys) : Prop where
  freelist : after.freelist = phys.freelist
  elsewhere : ∀ page, page ∉ pages → after.mem page = phys.mem page

section

variable {layout : Layout} {phys after last : Phys} {root trapframe : Word}
  {pages others free : List Word}

theorem Rewritten.refl : Rewritten pages phys phys := ⟨rfl, fun _ _ => rfl⟩

theorem Rewritten.trans (first : Rewritten pages phys after) (second : Rewritten pages after last) :
    Rewritten pages phys last :=
  ⟨second.freelist.trans first.freelist, fun page outside =>
    (second.elsewhere page outside).trans (first.elsewhere page outside)⟩

theorem Rewritten.put (phys : Phys) {page : Word} (member : page ∈ pages) (bytes : Bytes) :
    Rewritten pages phys (phys.put page bytes) :=
  ⟨rfl, fun _ outside => put_of_ne (ne_of_mem_of_not_mem member outside).symm phys bytes⟩

theorem Rewritten.change (rewritten : Rewritten pages phys after)
    (owned : Owned layout phys (pages ++ others) free) :
    Change phys (pages ++ others) free after (pages ++ others) free := by
  refine ⟨owned.list.congr rewritten.freelist fun page member => ?_, .refl _, fun page outside => ?_⟩
  · refine rewritten.elsewhere page fun used => ?_
    exact owned.apart (List.mem_append_left _ used) member
  · exact rewritten.elsewhere page fun used =>
      outside (List.mem_append_left _ (List.mem_append_left _ used))

/-- The page tables are not among the user pages. -/
theorem Rewritten.space {ptes : List Word} (rewritten : Rewritten pages phys after)
    (owned : Owned layout phys (pages ++ tables phys.mem root) free)
    (space : Space layout phys.mem root trapframe ptes) :
    Space layout after.mem root trapframe ptes ∧ tables after.mem root = tables phys.mem root := by
  have same : ∀ table ∈ tables phys.mem root, after.mem table = phys.mem table := by
    intro table member
    refine rewritten.elsewhere table fun used => ?_
    have distinct := (List.nodup_append.mp owned.distinct).1
    exact (List.nodup_append.mp distinct).2.2 table used table member rfl
  exact ⟨space.congr same, tables_congr fun table member => same table (upperTables_subset member)⟩

theorem userPte_flags (page : Word) : PTE_FLAGS (userPte page) = 31 := by
  rw [userPte, leaf, BitVec.or_assoc, PTE_FLAGS_or page (by decide)]
  decide

theorem userPte_isUser (page : Word) : isUser (userPte page) = true := by
  have tested : ∀ mask, mask &&& 0x3FF = mask → userPte page &&& mask = 31 &&& mask := by
    intro mask low
    rw [← and_flags low, userPte_flags]
  rw [isUser, tested PTE_V (by decide), tested PTE_U (by decide)]
  decide

theorem frameOf_user {va : Word} {ptes : List Word} {page : Word}
    (space : Space layout phys.mem root trapframe ptes)
    (found : ptes[pageOf va]? = some (userPte page)) (aligned : page.toNat % PGSIZE = 0) :
    frameOf phys.mem root va = some page := by
  obtain ⟨inside, _⟩ := List.getElem?_eq_some_iff.mp found
  have fits := space.fits
  have low : va < MAXVA := by
    rw [BitVec.lt_def, MAXVA_toNat]
    rw [trapframePage, MAXPAGES] at fits
    rw [pageOf, PGSIZE] at inside
    omega
  rw [frameOf, space.user _ _ found, if_pos ⟨low, userPte_isUser page⟩, (userLeaf aligned).maps]

/-! ## loadseg -/

variable {sb : Superblock} {fs : Store} {ip : Fin NINODE} {file : Option (List UInt8)}

/-- The bytes after a part of a file was copied in. -/
def copyIn (file : List UInt8) (offset start stop va : Nat) (bytes : Nat → UInt8) (address : Nat) : UInt8 :=
  if start ≤ address ∧ address < stop then file.getD (offset + (address - va)) 0 else bytes address

theorem blit_slice {file : List UInt8} (target : Bytes) {off n : Nat} (enough : off + n ≤ file.length) (k : Nat) :
    blit target 0 (((file.drop off).take n).getD · 0) 0 n k =
      if k < n then file.getD (off + k) 0 else target k := by
  rw [blit]
  by_cases below : k < n
  · rw [if_pos (by omega), if_pos below]
    have inside : off + k < file.length := by omega
    simp [below, List.getElem?_drop]
  · rw [if_neg (by omega), if_neg below]

/-- A round fills its page up to the end of the part, and the later rounds copy the rest. -/
theorem copyIn_round {known : List UInt8} {bytes : Bytes} {va offset sz i n : Nat}
    (distinct : pages.Nodup) (within : (va + i) / PGSIZE < pages.length) (aligned : va % PGSIZE = 0)
    (whole : i % PGSIZE = 0) (more : i < sz) (count : min (sz - i) PGSIZE = n)
    (fills : ∀ k, bytes k =
      if k < n then known.getD (offset + i + k) 0 else phys.mem pages[(va + i) / PGSIZE] k) :
    copyIn known offset (va + (i + PGSIZE)) (va + sz) va
        (content (phys.put pages[(va + i) / PGSIZE] bytes).mem pages) =
      copyIn known offset (va + i) (va + sz) va (content phys.mem pages) := by
  funext here
  rw [copyIn, copyIn, content_put distinct within]
  have page : here / PGSIZE = (va + i) / PGSIZE ↔ va + i ≤ here ∧ here < va + i + PGSIZE := by
    rw [PGSIZE] at *
    omega
  by_cases late : va + (i + PGSIZE) ≤ here ∧ here < va + sz
  · rw [if_pos late, if_pos (by omega)]
  · rw [if_neg late]
    by_cases current : va + i ≤ here ∧ here < va + i + PGSIZE
    · have offset' : here % PGSIZE = here - (va + i) := by
        rw [PGSIZE] at *
        omega
      rw [if_pos (page.mpr current), fills, offset']
      by_cases inFile : here - (va + i) < n
      · rw [if_pos inFile, if_pos (by omega)]
        congr 1
        omega
      · rw [if_neg inFile, if_neg (by omega)]
        rw [content, page.mpr current, List.getElem?_eq_getElem within, Option.elim_some, offset']
    · rw [if_neg fun same => current (page.mp same), if_neg (by omega)]

theorem loadsegLoop_spec (reads : ∀ known ∈ file, Reads sb fs ip known) {va : Word} {offset sz : Nat}
    (rounds : Nat) {i : Nat} (space : Space layout phys.mem root trapframe (pages.map userPte))
    (owned : Owned layout phys (pages ++ tables phys.mem root) free)
    (aligned : va.toNat % PGSIZE = 0) (inside : va.toNat + sz ≤ pages.length * PGSIZE)
    (small : sz < 2 ^ 32) (offsetFits : offset < 2 ^ 32) (whole : i % PGSIZE = 0)
    (number : rounds = (sz - i + (PGSIZE - 1)) / PGSIZE)
    (read : ∀ known ∈ file, i = 0 ∨ sz ≤ i ∨ offset + i ≤ known.length) :
    Ensures (fun _ => file = none)
      (fun result => Rewritten pages phys result.2.1 ∧ ∀ known ∈ file, result.2.2 = fs ∧
        (result.1 = -1 ∨ result.1 = 0 ∧ (i < sz → offset + sz ≤ known.length) ∧
          content result.2.1.mem pages =
            copyIn known offset (va.toNat + i) (va.toNat + sz) va.toNat (content phys.mem pages)))
      (loadsegLoop sb root va ip offset sz rounds i phys fs) := by
  induction rounds generalizing phys i fs with
  | zero =>
    have done : sz ≤ i := by
      rw [PGSIZE] at number
      omega
    refine ⟨.refl, fun known _ => ⟨rfl, .inr ⟨rfl, fun less => by omega, ?_⟩⟩⟩
    funext address
    rw [copyIn, if_neg (by omega)]
  | succ rounds ih =>
    have more : i < sz := by
      rw [PGSIZE] at number
      omega
    have few := owned.length_le
    rw [List.length_append, List.length_append] at few
    -- The page that this round fills.
    have address : (va + BitVec.ofNat 64 i).toNat = va.toNat + i := by
      rw [BitVec.toNat_add, BitVec.toNat_ofNat]
      rw [PGSIZE] at inside
      omega
    have within : (va.toNat + i) / PGSIZE < pages.length := by
      rw [Nat.div_lt_iff_lt_mul (by decide)]
      omega
    have found : (pages.map userPte)[pageOf (va + BitVec.ofNat 64 i)]? =
        some (userPte pages[(va.toNat + i) / PGSIZE]) := by
      rw [pageOf, address, List.getElem?_map, List.getElem?_eq_getElem within, Option.map_some]
    have member : pages[(va.toNat + i) / PGSIZE] ∈ pages := List.getElem_mem within
    have frame := owned.frames _ (List.mem_append_left _ (List.mem_append_left _ member))
    have distinct : pages.Nodup := (List.nodup_append.mp (List.nodup_append.mp owned.distinct).1).1
    have room : (if sz - i < PGSIZE then sz - i else PGSIZE) = min (sz - i) PGSIZE := by
      split <;> omega
    rw [loadsegLoop, walkaddr_eq, frameOf_user space found frame.1, Option.getD_some, liftVm_ok, ok_bind,
      if_neg frame.ne_zero]
    simp only [room]
    generalize count : min (sz - i) PGSIZE = n at *
    have some : 0 < n := by
      rw [PGSIZE] at count
      omega
    refine (readInode_spec reads (Nat.mod_lt _ (by decide)) (by omega)).bind fun result isRead => ?_
    obtain ⟨length, data, fs'⟩ := result
    have step := Rewritten.put phys member
      (blit (phys.mem pages[(va.toNat + i) / PGSIZE]) 0 (data.getD · 0) 0 data.length)
    have same : ∀ known ∈ file, fs' = fs := fun known isKnown =>
      congrArg (·.2.2) (isRead known isKnown)
    dsimp only
    by_cases full : length ≠ n
    · rw [if_pos full]
      exact ⟨step, fun known isKnown => ⟨same known isKnown, .inl rfl⟩⟩
    rw [if_neg full]
    have filled : ∀ known ∈ file, offset + i + n ≤ known.length ∧ data.length = n ∧
        data = (known.drop (offset + i)).take n := by
      intro known isKnown
      have wraps : (offset + i) % 2 ^ 32 = offset + i ∧ offset + i < 2 ^ 32 := by
        have bound := (reads known isKnown).small
        have place := read known isKnown
        omega
      have isSlice := isRead known isKnown
      rw [wraps.1] at isSlice
      cases isSlice
      have whole : (slice known (offset + i) n).length = n := Int.natCast_inj.mp (not_not.mp full)
      obtain ⟨enough, part⟩ := slice_full (reads known isKnown).small some wraps.2 (by omega) whole
      exact ⟨enough, whole, part⟩
    obtain ⟨spaceNow, tablesNow⟩ := step.space owned space
    have ownedNow := (step.change owned).owned owned
    rw [← tablesNow] at ownedNow
    refine (ih (fun known isKnown => same known isKnown ▸ reads known isKnown) spaceNow ownedNow
      (show (i + PGSIZE) % PGSIZE = 0 by rw [Nat.add_mod_right, whole])
      (by rw [PGSIZE] at number ⊢; omega) fun known isKnown => ?_).mono fun result kept => ?_
    · have enough := (filled known isKnown).1
      omega
    refine ⟨step.trans kept.1, fun known isKnown => ?_⟩
    obtain ⟨sameStore, outcome⟩ := kept.2 known isKnown
    obtain ⟨enough, isLong, isData⟩ := filled known isKnown
    refine ⟨sameStore.trans (same known isKnown), outcome.imp_right fun loaded => ?_⟩
    obtain ⟨success, bound, bytesNow⟩ := loaded
    refine ⟨success, fun _ => by omega, bytesNow.trans
      (copyIn_round distinct within aligned whole more count fun k => ?_)⟩
    rw [isLong, isData]
    exact blit_slice _ enough k

/-! ## The program headers -/

/-- An address space under construction. -/
structure Built (layout : Layout) (root trapframe : Word) (phys : Phys) (pages : List Word) (sz : Word) :
    Prop where
  space : Space layout phys.mem root trapframe (pages.map userPte)
  size : pages.length = pagesFor sz.toNat

theorem aligned_pages (owned : Owned layout phys (pages ++ others) free) :
    ∀ page ∈ pages, page.toNat % PGSIZE = 0 := fun page member =>
  (owned.frames page (List.mem_append_left _ (List.mem_append_left _ member))).1

theorem framesOf_pages (owned : Owned layout phys (pages ++ others) free) :
    framesOf (pages.map userPte) = pages := framesOf_userPte (aligned_pages owned)

theorem Built.size_small {sz : Word} (built : Built layout root trapframe phys pages sz)
    (owned : Owned layout phys (pages ++ others) free) : sz.toNat ≤ 2 ^ 27 := by
  have few := owned.length_le
  have size := built.size
  rw [List.length_append, List.length_append] at few
  rw [pagesFor, PGSIZE] at size
  omega

theorem Built.size_le {sz : Word} (built : Built layout root trapframe phys pages sz) :
    sz.toNat ≤ pages.length * PGSIZE := by
  rw [built.size, pagesFor, PGSIZE]
  omega

/-- `uvmalloc` as `exec` calls it, with any new size. -/
theorem Built.uvmalloc {sz : Word} (built : Built layout root trapframe phys pages sz)
    (owned : Owned layout phys (pages ++ tables phys.mem root) free) (newsz : Word) :
    ∃ sz1 after free' new, uvmalloc layout root sz newsz phys = .ok (sz1, after) ∧
      Change phys (pages ++ tables phys.mem root) free after (pages ++ new ++ tables after.mem root)
        free' ∧
      (sz1 = 0 ∧ Built layout root trapframe after (pages ++ new) sz ∨
        sz1 ≠ 0 ∧ sz.toNat ≤ sz1.toNat ∧ newsz.toNat ≤ sz1.toNat ∧ (sz.toNat ≤ newsz.toNat → sz1 = newsz) ∧
          Built layout root trapframe after (pages ++ new) sz1 ∧
          content after.mem (pages ++ new) = content phys.mem pages) := by
  have small := built.size_small owned
  by_cases less : newsz < sz
  · -- Nothing to do.
    have positive : sz ≠ 0 := by
      rintro rfl
      exact absurd (BitVec.lt_def.mp less) (Nat.not_lt_zero _)
    refine ⟨sz, phys, free, [], by rw [Vm.uvmalloc, if_pos less], ?_⟩
    rw [List.append_nil]
    have lt := BitVec.lt_def.mp less
    exact ⟨.refl owned.list, .inr ⟨positive, Nat.le_refl _, Nat.le_of_lt lt,
      fun ordered => absurd lt (Nat.not_lt.mpr ordered), built, rfl⟩⟩
  · have ordered : sz.toNat ≤ newsz.toNat := Nat.le_of_not_lt fun lt => less (BitVec.lt_def.mpr lt)
    have ownedFrames : Owned layout phys (framesOf (pages.map userPte) ++ tables phys.mem root) free := by
      rw [framesOf_pages owned]
      exact owned
    obtain ⟨after, free', outcome⟩ := uvmalloc_spec built.space ownedFrames
      (by rw [List.length_map, built.size]) (by omega) ordered
    rcases outcome with ⟨new, allocated, count, extended⟩ | ⟨failed, spaceAfter, change⟩
    · refine ⟨newsz, after, free', new, allocated, ?_, ?_⟩
      · rw [List.append_assoc]
        exact extended.change.frame pages
      · rw [List.length_map] at count
        have spaceNow := extended.space
        rw [← List.map_append] at spaceNow
        have same : ∀ page ∈ pages, after.mem page = phys.mem page := fun page member => by
          refine extended.change.elsewhere page fun other => ?_
          have distinct := owned.distinct
          rw [List.append_assoc] at distinct
          exact (List.nodup_append.mp distinct).2.2 page member page other rfl
        by_cases zero : newsz = 0
        · have both : sz = newsz := BitVec.eq_of_toNat_eq (by rw [zero] at ordered ⊢; simpa using ordered)
          exact .inl ⟨zero, spaceNow, by rw [List.length_append, count, both]⟩
        · exact .inr ⟨zero, ordered, Nat.le_refl _, fun _ => rfl, ⟨spaceNow, by rw [List.length_append, count]⟩,
            content_zeros same extended.zeros⟩
    · refine ⟨0, after, free', [], failed, ?_⟩
      rw [List.append_nil]
      exact ⟨change.frame pages, .inl ⟨rfl, spaceAfter, built.size⟩⟩

/-- The program header at an offset of a file. -/
def header (file : List UInt8) (off : Nat) : Proghdr := .ofBytes ((file.drop off).take phSize)

/-- The headers that the loop of `exec` comes to. -/
def headers (file : List UInt8) : Nat → BitVec 32 → List Proghdr
  | 0, _ => []
  | more + 1, off => header file off.toNat :: headers file more (off + BitVec.ofNat 32 phSize)

/-- What loading a segment does to the bytes. -/
def loadHeader (file : List UInt8) (bytes : Nat → UInt8) (ph : Proghdr) : Nat → UInt8 :=
  if ph.type = ELF_PROG_LOAD then
    copyIn file (ph.off.setWidth 32 : BitVec 32).toNat ph.vaddr.toNat (ph.vaddr.toNat + ph.filesz.toNat)
      ph.vaddr.toNat bytes
  else
    bytes

/-- What `exec` has found out about a header once its segment is loaded. -/
structure Accepted (file : List UInt8) (sz : Word) (ph : Proghdr) : Prop where
  ordered : ph.filesz.toNat ≤ ph.memsz.toNat
  inside : ph.vaddr.toNat + ph.memsz.toNat ≤ sz.toNat
  aligned : ph.vaddr.toNat % PGSIZE = 0
  inFile : 0 < ph.filesz.toNat → (ph.off.setWidth 32 : BitVec 32).toNat + ph.filesz.toNat ≤ file.length

/-- All segments are loaded. -/
structure AllLoaded (file : List UInt8) (count : Nat) (off : BitVec 32) (sz sz' : Word)
    (bytes bytes' : Nat → UInt8) : Prop where
  bytes : bytes' = (headers file count off).foldl (loadHeader file) bytes
  grown : sz.toNat ≤ sz'.toNat
  accepted : ∀ ph ∈ headers file count off, ph.type = ELF_PROG_LOAD → Accepted file sz' ph
  present : ∀ index, index < count →
    (off + BitVec.ofNat 32 (phSize * index)).toNat + phSize ≤ file.length

theorem AllLoaded.cons {file : List UInt8} {count : Nat} {off : BitVec 32} {sz middle sz' : Word}
    {before bytes bytes' : Nat → UInt8} (here : off.toNat + phSize ≤ file.length)
    (loaded : bytes = loadHeader file before (header file off.toNat)) (grown : sz.toNat ≤ middle.toNat)
    (accepted : (header file off.toNat).type = ELF_PROG_LOAD → Accepted file middle (header file off.toNat))
    (rest : AllLoaded file count (off + BitVec.ofNat 32 phSize) middle sz' bytes bytes') :
    AllLoaded file (count + 1) off sz sz' before bytes' := by
  refine ⟨?_, Nat.le_trans grown rest.grown, ?_, ?_⟩
  · rw [rest.bytes, headers, List.foldl_cons, loaded]
  · intro ph member isLoad
    rcases List.mem_cons.mp member with rfl | later
    · have first := accepted isLoad
      exact ⟨first.ordered, Nat.le_trans first.inside rest.grown, first.aligned, first.inFile⟩
    · exact rest.accepted ph later isLoad
  · intro index below
    cases index with
    | zero => simpa using here
    | succ index =>
      have later := rest.present index (by omega)
      rwa [BitVec.add_assoc, ← BitVec.ofNat_add, Nat.add_comm phSize, ← Nat.mul_succ] at later

theorem segment_bounds {ph : Proghdr} {sz1 : Word} (ordered : ¬ph.memsz < ph.filesz)
    (fits : ¬ph.vaddr + ph.memsz < ph.vaddr) (reaches : (ph.vaddr + ph.memsz).toNat ≤ sz1.toNat) :
    ph.filesz.toNat ≤ ph.memsz.toNat ∧ ph.vaddr.toNat + ph.memsz.toNat ≤ sz1.toNat := by
  have range := ph.memsz.isLt
  rw [BitVec.lt_def] at ordered
  rw [BitVec.lt_def, BitVec.toNat_add] at fits
  rw [BitVec.toNat_add] at reaches
  omega

theorem loadseg_spec (reads : ∀ known ∈ file, Reads sb fs ip known) (ph : Proghdr)
    (space : Space layout phys.mem root trapframe (pages.map userPte))
    (owned : Owned layout phys (pages ++ tables phys.mem root) free)
    (aligned : ph.vaddr.toNat % PGSIZE = 0)
    (inside : ph.vaddr.toNat + ph.filesz.toNat ≤ pages.length * PGSIZE)
    (small : ph.filesz.toNat < 2 ^ 32) :
    Ensures (fun _ => file = none)
      (fun result => Rewritten pages phys result.2.1 ∧ ∀ known ∈ file, result.2.2 = fs ∧
        (result.1 = -1 ∨ result.1 = 0 ∧
          (0 < ph.filesz.toNat →
            (ph.off.setWidth 32 : BitVec 32).toNat + ph.filesz.toNat ≤ known.length) ∧
          content result.2.1.mem pages = copyIn known (ph.off.setWidth 32 : BitVec 32).toNat
            ph.vaddr.toNat (ph.vaddr.toNat + ph.filesz.toNat) ph.vaddr.toNat (content phys.mem pages)))
      (loadseg sb root ph.vaddr ip (ph.off.setWidth 32) (ph.filesz.setWidth 32) phys fs) := by
  have narrow : (ph.filesz.setWidth 32 : BitVec 32).toNat = ph.filesz.toNat := by
    rw [BitVec.toNat_setWidth]
    omega
  rw [loadseg, narrow]
  exact loadsegLoop_spec reads _ space owned aligned inside small (ph.off.setWidth 32).isLt rfl rfl
    fun _ _ => .inl rfl

/-- The loop over the program headers, whatever `readi` returns; and what it loads from a file that
is known. -/
theorem loadSegments_spec (reads : ∀ known ∈ file, Reads sb fs ip known) (count : Nat) {off : BitVec 32}
    {sz : Word} (built : Built layout root trapframe phys pages sz)
    (owned : Owned layout phys (pages ++ tables phys.mem root) free) :
    Ensures (fun _ => file = none)
      (fun result => ∃ pages' free', Built layout root trapframe result.2.2.1 pages' result.2.1 ∧
        Change phys (pages ++ tables phys.mem root) free result.2.2.1
          (pages' ++ tables result.2.2.1.mem root) free' ∧
        ∀ known ∈ file, result.2.2.2 = fs ∧ (result.1 = true →
          AllLoaded known count off sz result.2.1 (content phys.mem pages)
            (content result.2.2.1.mem pages')))
      (loadSegments layout sb root ip count off sz phys fs) := by
  induction count generalizing phys pages free off sz fs with
  | zero =>
    exact ⟨pages, free, built, .refl owned.list, fun _ _ =>
      ⟨rfl, fun _ => ⟨rfl, Nat.le_refl _, nofun, nofun⟩⟩⟩
  | succ count ih =>
    rw [loadSegments]
    refine (readInode_spec reads off.isLt (by decide)).bind fun result isRead => ?_
    obtain ⟨length, data, fs'⟩ := result
    have same : ∀ known ∈ file, fs' = fs := fun known isKnown =>
      congrArg (·.2.2) (isRead known isKnown)
    have readsNow : ∀ known ∈ file, Reads sb fs' ip known := fun known isKnown =>
      same known isKnown ▸ reads known isKnown
    dsimp only
    by_cases full : length ≠ phSize
    · rw [if_pos full]
      exact ⟨pages, free, built, .refl owned.list, fun known isKnown => ⟨same known isKnown, nofun⟩⟩
    rw [if_neg full]
    have here : ∀ known ∈ file, off.toNat + phSize ≤ known.length ∧
        Proghdr.ofBytes data = header known off.toNat := by
      intro known isKnown
      cases isRead known isKnown
      obtain ⟨enough, isSlice⟩ := slice_full (reads known isKnown).small (by decide) off.isLt
        (by decide) (Int.natCast_inj.mp (not_not.mp full))
      exact ⟨enough, congrArg Proghdr.ofBytes isSlice⟩
    generalize Proghdr.ofBytes data = ph at *
    by_cases load : ph.type = ELF_PROG_LOAD
    · rw [if_neg (not_not_intro load)]
      by_cases shorter : ph.memsz < ph.filesz
      · rw [if_pos shorter]
        exact ⟨pages, free, built, .refl owned.list, fun known isKnown => ⟨same known isKnown, nofun⟩⟩
      rw [if_neg shorter]
      by_cases exceeds : ph.vaddr + ph.memsz < ph.vaddr
      · rw [if_pos exceeds]
        exact ⟨pages, free, built, .refl owned.list, fun known isKnown => ⟨same known isKnown, nofun⟩⟩
      rw [if_neg exceeds]
      obtain ⟨sz1, grown, free', new, allocated, change, outcome⟩ :=
        built.uvmalloc owned (ph.vaddr + ph.memsz)
      rw [allocated, liftVm_ok, ok_bind]
      dsimp only
      rcases outcome with ⟨zero, builtNow⟩ | ⟨nonzero, larger, reaches, -, builtNow, zeros⟩
      · rw [if_pos zero]
        exact ⟨_, free', builtNow, change, fun known isKnown => ⟨same known isKnown, nofun⟩⟩
      rw [if_neg nonzero]
      have ownedNow := change.owned owned
      by_cases aligned : ph.vaddr.toNat % PGSIZE = 0
      · rw [if_neg (not_not_intro aligned)]
        obtain ⟨ordered, inside⟩ := segment_bounds shorter exceeds reaches
        have bound := builtNow.size_le
        have small := builtNow.size_small ownedNow
        refine (loadseg_spec readsNow ph builtNow.space ownedNow aligned (by omega) (by omega)).bind
          fun loaded copied => ?_
        obtain ⟨result, after, fs''⟩ := loaded
        obtain ⟨rewritten, outcome⟩ := copied
        obtain ⟨spaceAfter, tablesAfter⟩ := rewritten.space ownedNow builtNow.space
        have changeAfter : Change grown (pages ++ new ++ tables grown.mem root) free' after
            (pages ++ new ++ tables after.mem root) free' := by
          rw [tablesAfter]
          exact rewritten.change ownedNow
        have builtAfter : Built layout root trapframe after (pages ++ new) sz1 :=
          ⟨spaceAfter, builtNow.size⟩
        have still : ∀ known ∈ file, fs'' = fs := fun known isKnown =>
          (outcome known isKnown).1.trans (same known isKnown)
        dsimp only
        split
        · exact ⟨_, _, builtAfter, change.trans changeAfter, fun known isKnown =>
            ⟨still known isKnown, nofun⟩⟩
        rename_i success
        refine (ih (fun known isKnown => still known isKnown ▸ reads known isKnown) builtAfter
          (changeAfter.owned ownedNow)).mono fun last kept => ?_
        obtain ⟨pages', free'', builtLast, changeLast, rest⟩ := kept
        refine ⟨pages', free'', builtLast, (change.trans changeAfter).trans changeLast,
          fun known isKnown => ?_⟩
        obtain ⟨sameLast, loaded⟩ := rest known isKnown
        obtain ⟨enough, rfl⟩ := here known isKnown
        obtain failed | ⟨-, inFile, bytes⟩ := (outcome known isKnown).2
        · exact absurd (show result < 0 by rw [show result = -1 from failed]; decide) success
        refine ⟨sameLast.trans (still known isKnown), fun all => ?_⟩
        refine AllLoaded.cons enough ?_ larger (fun _ => ⟨ordered, inside, aligned, inFile⟩) (loaded all)
        rw [bytes, zeros, loadHeader, if_pos load]
      · rw [if_pos aligned]
        exact ⟨_, free', builtNow, change, fun known isKnown => ⟨same known isKnown, nofun⟩⟩
    · rw [if_pos load]
      refine (ih readsNow built owned).mono fun last kept => ?_
      obtain ⟨pages', free', builtNow, change, rest⟩ := kept
      refine ⟨pages', free', builtNow, change, fun known isKnown => ?_⟩
      obtain ⟨sameLast, loaded⟩ := rest known isKnown
      obtain ⟨enough, rfl⟩ := here known isKnown
      refine ⟨sameLast.trans (same known isKnown), fun all => ?_⟩
      refine AllLoaded.cons enough ?_ (Nat.le_refl _) (fun isLoad => absurd isLoad load) (loaded all)
      rw [loadHeader, if_neg load]

end

end Xv6.Exec
