import Xv6.Fs.Content

namespace Xv6.Fs

open Xv6.Data Xv6.Log

/-! # Directories as lists of entries

`dirlookup` and `dirlink` on the entries that the bytes of a directory hold.
-/

/-! ## Names -/

/-- The part of a name that `strncmp` and `strncpy` look at: `DIRSIZ` bytes, zero from
the first zero on. -/
def key (name : Nat → UInt8) (index : Fin DIRSIZ) : UInt8 := paddedName name index

section

variable {name left right : Nat → UInt8} {index : Nat}

theorem paddedName_inside (nonzero : ∀ earlier, earlier < index → name earlier ≠ 0) :
    paddedName name index = name index := by
  refine if_pos (List.all_eq_true.mpr fun earlier member => ?_)
  simpa using nonzero earlier (List.mem_range.mp member)

theorem paddedName_beyond {earlier : Nat} (before : earlier < index) (zero : name earlier = 0) :
    paddedName name index = 0 := by
  refine if_neg fun all => ?_
  have nonzero := List.all_eq_true.mp all earlier (List.mem_range.mpr before)
  simp [zero] at nonzero

theorem paddedName_cases (name : Nat → UInt8) (index : Nat) :
    (∀ earlier, earlier < index → name earlier ≠ 0) ∧ paddedName name index = name index ∨
      ∃ earlier, earlier < index ∧ name earlier = 0 ∧ paddedName name index = 0 := by
  by_cases nonzero : ∀ earlier, earlier < index → name earlier ≠ 0
  · exact Or.inl ⟨nonzero, paddedName_inside nonzero⟩
  · simp only [not_forall, not_not] at nonzero
    obtain ⟨earlier, before, zero⟩ := nonzero
    exact Or.inr ⟨earlier, before, zero, paddedName_beyond before zero⟩

theorem paddedName_paddedName (name : Nat → UInt8) (index : Nat) :
    paddedName (paddedName name) index = paddedName name index := by
  rcases paddedName_cases name index with ⟨nonzero, _⟩ | ⟨earlier, before, zero, beyond⟩
  · refine paddedName_inside fun earlier before => ?_
    rw [paddedName_inside fun first below => nonzero first (Nat.lt_trans below before)]
    exact nonzero earlier before
  · rcases paddedName_cases (paddedName name) index with ⟨_, same⟩ | ⟨_, _, _, same⟩
    · exact same
    · rw [same, beyond]

theorem key_congr (same : ∀ index, index < DIRSIZ → left index = right index) :
    key left = key right := by
  funext ⟨index, inside⟩
  show paddedName left index = paddedName right index
  have before : ∀ earlier, earlier ≤ index → left earlier = right earlier :=
    fun earlier le => same earlier (Nat.lt_of_le_of_lt le inside)
  rcases paddedName_cases left index with ⟨nonzero, equal⟩ | ⟨earlier, below, zero, equal⟩
  · rw [equal, before index (Nat.le_refl _), paddedName_inside]
    exact fun earlier below => before earlier (Nat.le_of_lt below) ▸ nonzero earlier below
  · rw [equal, paddedName_beyond below (before earlier (Nat.le_of_lt below) ▸ zero)]

theorem sameName_iff (n start : Nat) : sameName left right start n = true ↔ ∀ index, index < n →
      (∀ earlier, earlier < index → left (start + earlier) ≠ 0) →
        left (start + index) = right (start + index) := by
  induction n generalizing start with
  | zero => simp [sameName]
  | succ n ih =>
    unfold sameName
    split
    · rename_i stop
      rw [decide_eq_true_iff]
      constructor
      · intro equal index _ nonzero
        cases index with
        | zero => exact equal
        | succ index =>
          -- The names agree here, so this is where both end.
          have zero := stop.resolve_right (not_not_intro equal)
          exact absurd zero (nonzero 0 (Nat.succ_pos _))
      · intro agree
        exact agree 0 (Nat.succ_pos _) fun _ below => absurd below (Nat.not_lt_zero _)
    · rename_i go
      simp only [not_or, not_not] at go
      rw [ih]
      constructor
      · intro agree index below nonzero
        cases index with
        | zero => exact go.2
        | succ index =>
          have later := agree index (by omega) fun earlier before => by
            have := nonzero (earlier + 1) (by omega)
            rwa [Nat.add_assoc, Nat.add_comm 1]
          rwa [Nat.add_assoc, Nat.add_comm 1] at later
      · intro agree index below nonzero
        have later := agree (index + 1) (by omega) fun earlier before => by
          cases earlier with
          | zero => exact go.1
          | succ earlier =>
            have := nonzero earlier (by omega)
            rwa [Nat.add_assoc, Nat.add_comm 1] at this
        rwa [Nat.add_assoc, Nat.add_comm 1]

theorem sameName_eq (left right : Nat → UInt8) :
    sameName left right 0 DIRSIZ = decide (key left = key right) := by
  rw [Bool.eq_iff_iff, decide_eq_true_iff, sameName_iff]
  simp only [Nat.zero_add]
  constructor
  · intro agree
    funext ⟨index, inside⟩
    show paddedName left index = paddedName right index
    rcases paddedName_cases left index with ⟨nonzero, same⟩ | ⟨earlier, before, zero, beyond⟩
    · have equal : ∀ earlier, earlier ≤ index → left earlier = right earlier :=
        fun earlier le => agree earlier (Nat.lt_of_le_of_lt le inside)
          fun first below => nonzero first (Nat.lt_of_lt_of_le below le)
      rw [same, paddedName_inside fun earlier before =>
        equal earlier (Nat.le_of_lt before) ▸ nonzero earlier before, equal index (Nat.le_refl _)]
    · -- Both names end at the first zero of the left one.
      have ends : ∃ earlier, earlier < index ∧ left earlier = 0 := ⟨earlier, before, zero⟩
      have first := Nat.find_spec ends
      have unfinished : ∀ position, position < Nat.find ends → left position ≠ 0 :=
        fun position below isZero =>
          Nat.find_min ends below ⟨Nat.lt_trans below first.1, isZero⟩
      have equal := agree (Nat.find ends) (Nat.lt_trans first.1 inside) unfinished
      rw [beyond, paddedName_beyond first.1 (equal ▸ first.2)]
  · intro equal index inside nonzero
    have padded : ∀ position, position ≤ index → paddedName right position = left position := by
      intro position le
      have same := congrFun equal ⟨position, Nat.lt_of_le_of_lt le inside⟩
      refine same.symm.trans (paddedName_inside fun earlier before => ?_)
      exact nonzero earlier (Nat.lt_of_lt_of_le before le)
    rw [← padded index (Nat.le_refl _)]
    refine paddedName_inside fun earlier before zero => ?_
    rcases paddedName_cases right earlier with ⟨_, same⟩ | ⟨_, _, _, same⟩
    · exact nonzero earlier before (by rw [← padded earlier (Nat.le_of_lt before), same, zero])
    · exact nonzero earlier before (by rw [← padded earlier (Nat.le_of_lt before), same])

end

/-! ## Entries -/

/-- A `struct dirent`; the inode number zero marks a free entry. -/
structure Dirent where
  inum : Nat
  name : Fin DIRSIZ → UInt8
deriving DecidableEq

instance : Inhabited Dirent := ⟨⟨0, fun _ => 0⟩⟩

def Dirent.ofBytes (bytes : Nat → UInt8) : Dirent :=
  ⟨(bytes 0).toNat + 256 * (bytes 1).toNat, key fun index => bytes (index + 2)⟩

/-- Entry `index` of a directory. -/
def View.dirent (view : View) (inum index : Nat) : Dirent :=
  .ofBytes fun offset => view.byte inum (direntSize * index + offset)

def View.dirents (view : View) (inum : Nat) : List Dirent :=
  (List.range ((view.inode inum).size / direntSize)).map (view.dirent inum)

def Dirent.matches (name : Fin DIRSIZ → UInt8) (entry : Dirent) : Bool :=
  entry.inum ≠ 0 && name = entry.name

/-- The position of the first entry with a name. -/
def findEntry (name : Fin DIRSIZ → UInt8) (entries : List Dirent) : Option Nat :=
  entries.findIdx? (·.matches name)

variable {sb : Superblock} {disk : Disk} {inum : Nat} {ip : Dinode}

theorem ofBytes_data (bytes : Nat → UInt8) :
    direntInum ((List.range direntSize).map bytes) = (Dirent.ofBytes bytes).inum ∧
      (key fun index => ((List.range direntSize).map bytes).getD (index + 2) 0) =
        (Dirent.ofBytes bytes).name := by
  have at' : ∀ index, index < direntSize →
      ((List.range direntSize).map bytes).getD index 0 = bytes index := by
    intro index inside
    simp [List.getD_eq_getElem?_getD, inside]
  constructor
  · rw [direntInum, at' 0 (by decide), at' 1 (by decide), Dirent.ofBytes]
  · exact key_congr fun index inside => at' (index + 2) (by
      simp only [DIRSIZ, direntSize] at inside ⊢
      omega)

/-- Where the search of `dirlookup` from entry `index` on ends. -/
def findFrom (name : Fin DIRSIZ → UInt8) (entries : List Dirent) (index : Nat) : Option (Nat × Nat) :=
  (findEntry name (entries.drop index)).map fun skipped =>
    ((entries.getD (index + skipped) default).inum, direntSize * (index + skipped))

variable {entries : List Dirent} {index : Nat}

theorem findFrom_end {name : Fin DIRSIZ → UInt8} (done : entries.length ≤ index) :
    findFrom name entries index = none := by
  rw [findFrom, List.drop_eq_nil_of_le done]
  rfl

theorem findFrom_step {name : Fin DIRSIZ → UInt8} (inside : index < entries.length) :
    findFrom name entries index =
      if entries[index].matches name then some (entries[index].inum, direntSize * index)
      else findFrom name entries (index + 1) := by
  rw [findFrom, findEntry, List.drop_eq_getElem_cons inside, List.findIdx?_cons]
  split
  · simp [List.getD_eq_getElem?_getD, inside]
  · rw [findFrom, findEntry, Option.map_map]
    congr 1
    funext skipped
    simp only [Function.comp_apply, Nat.add_assoc, Nat.add_comm 1]

@[simp]
theorem View.dirents_length (view : View) (inum : Nat) :
    (view.dirents inum).length = (view.inode inum).size / direntSize := by
  simp [View.dirents]

theorem View.dirents_put_length (view : View) (inum : Nat) (ip : Dinode) :
    ((view.put inum ip).dirents inum).length = ip.size / direntSize := by
  rw [View.dirents_length, View.put_inode_self]

theorem View.dirents_getElem (view : View) (inum : Nat)
    (inside : index < (view.dirents inum).length) :
    (view.dirents inum)[index] = view.dirent inum index := by
  simp [View.dirents]

theorem readi_dirent (loaded : Loaded sb disk inum ip) (below : direntSize * index < ip.size) :
    ∃ count data, readi sb disk ip (fun _ => true) (direntSize * index) direntSize =
        .ok (count, data, ip, disk) ∧
      (ip.size % direntSize = 0 → count = direntSize ∧
        direntInum data = (((view sb disk).put inum ip).dirent inum index).inum ∧
        ∀ name, sameName name (fun position => data.getD (position + 2) 0) 0 DIRSIZ =
          decide (key name = (((view sb disk).put inum ip).dirent inum index).name)) := by
  obtain ⟨count, data, read, contents⟩ := readi_spec loaded (fun _ => true)
    (Nat.lt_trans below loaded.fits.size) (show direntSize < 2 ^ 32 by decide)
  refine ⟨count, data, read, fun aligned => ?_⟩
  have whole : direntSize * index + direntSize ≤ ip.size := by
    simp only [direntSize] at below aligned ⊢
    omega
  have clip : min (uadd (direntSize * index) direntSize) ip.size - direntSize * index = direntSize := by
    have bound := loaded.fits.size
    rw [uadd, Nat.mod_eq_of_lt (by omega)]
    omega
  obtain ⟨all, bytes⟩ := contents fun _ _ => rfl
  rw [clip] at all bytes
  obtain ⟨inums, names⟩ := ofBytes_data fun offset =>
    ((view sb disk).put inum ip).byte inum (direntSize * index + offset)
  rw [← bytes] at inums names
  refine ⟨all, inums, fun name => ?_⟩
  rw [sameName_eq, names]
  rfl

theorem dirlookupFrom_spec (loaded : Loaded sb disk inum ip) (name : Nat → UInt8)
    (fuel index : Nat) :
    Ensures (fun reason => reason = .lookupRead ∧ ip.size % direntSize ≠ 0)
      (fun result => result.2.1 = ip ∧ result.2.2 = disk ∧
        (ip.size % direntSize = 0 → ip.size ≤ direntSize * (index + fuel) → result.1 =
          findFrom (key name) (((view sb disk).put inum ip).dirents inum) index))
      (dirlookupFrom sb name fuel disk ip (direntSize * index)) := by
  induction fuel generalizing index with
  | zero =>
    refine ⟨rfl, rfl, fun _ enough => (findFrom_end ?_).symm⟩
    rw [View.dirents_put_length]
    simp only [direntSize] at enough ⊢
    omega
  | succ fuel ih =>
    unfold dirlookupFrom
    split
    · rename_i below
      obtain ⟨count, data, read, contents⟩ := readi_dirent loaded below
      rw [read, ok_bind]
      simp only
      split
      · rename_i short
        exact ⟨rfl, fun aligned => short (contents aligned).1⟩
      · have next := ih (index + 1)
        rw [Nat.mul_succ] at next
        have found : ip.size % direntSize = 0 →
            findFrom (key name) (((view sb disk).put inum ip).dirents inum) index =
              if direntInum data ≠ 0 ∧
                  sameName name (fun position => data.getD (position + 2) 0) 0 DIRSIZ = true then
                some (direntInum data, direntSize * index)
              else
                findFrom (key name) (((view sb disk).put inum ip).dirents inum) (index + 1) := by
          intro aligned
          obtain ⟨_, inums, names⟩ := contents aligned
          have inside : index < (((view sb disk).put inum ip).dirents inum).length := by
            rw [View.dirents_put_length]
            simp only [direntSize] at below aligned ⊢
            omega
          rw [findFrom_step inside, View.dirents_getElem, inums, names]
          simp only [Dirent.matches, Bool.and_eq_true, decide_eq_true_eq]
        have enough : ip.size ≤ direntSize * (index + (fuel + 1)) →
            ip.size ≤ direntSize * (index + 1 + fuel) := by
          rw [Nat.add_assoc, Nat.add_comm 1]
          exact id
        split
        · rename_i free
          refine next.mono fun result ⟨sameCopy, sameDisk, same⟩ => ⟨sameCopy, sameDisk, ?_⟩
          intro aligned bound
          rw [found aligned, if_neg fun both => both.1 free, same aligned (enough bound)]
        · rename_i used
          split
          · rename_i equal
            exact ⟨rfl, rfl, fun aligned _ => by rw [found aligned, if_pos ⟨used, equal⟩]⟩
          · rename_i different
            refine next.mono fun result ⟨sameCopy, sameDisk, same⟩ => ⟨sameCopy, sameDisk, ?_⟩
            intro aligned bound
            rw [found aligned, if_neg fun both => different both.2, same aligned (enough bound)]
    · rename_i below
      refine ⟨rfl, rfl, fun aligned _ => (findFrom_end ?_).symm⟩
      rw [View.dirents_put_length]
      simp only [direntSize] at below ⊢
      omega

theorem dirsearch_spec (loaded : Loaded sb disk inum ip) (name : Nat → UInt8) :
    Ensures (fun reason => reason = .notDir ∧ ip.type ≠ T_DIR ∨
        reason = .lookupRead ∧ ip.size % direntSize ≠ 0)
      (fun result => result.2.1 = ip ∧ result.2.2 = disk ∧
        (ip.size % direntSize = 0 → result.1 =
          findFrom (key name) (((view sb disk).put inum ip).dirents inum) 0))
      (dirsearch sb disk ip name) := by
  unfold dirsearch
  split
  · rename_i other
    exact Or.inl ⟨rfl, other⟩
  · refine ((dirlookupFrom_spec loaded name ip.size 0).mono
      fun result ⟨sameCopy, sameDisk, found⟩ => ⟨sameCopy, sameDisk, fun aligned => ?_⟩).mono_errors
        fun _ => Or.inr
    refine found aligned ?_
    simp only [direntSize]
    omega

/-- The first free entry, or the end. -/
def freeEntry (entries : List Dirent) : Nat := entries.findIdx (·.inum = 0)

theorem emptyDirent_spec (loaded : Loaded sb disk inum ip) (fuel index : Nat)
    (small : direntSize * index ≤ MAXFILE * BSIZE + direntSize) :
    Ensures (fun reason => reason = .linkRead ∧ ip.size % direntSize ≠ 0)
      (fun result => result.1 < 2 ^ 32 ∧ result.2.1 = ip ∧ result.2.2 = disk ∧
        (ip.size % direntSize = 0 → ip.size ≤ direntSize * (index + fuel) →
          result.1 = direntSize * (index +
            freeEntry ((((view sb disk).put inum ip).dirents inum).drop index))))
      (emptyDirent sb fuel disk ip (direntSize * index)) := by
  have bound := loaded.size_le
  simp only [MAXFILE, NDIRECT, NINDIRECT, BSIZE, direntSize] at small bound
  have offFits : direntSize * index < 2 ^ 32 := by
    simp only [direntSize]
    omega
  induction fuel generalizing index with
  | zero =>
    refine ⟨offFits, rfl, rfl, fun _ enough => ?_⟩
    rw [List.drop_eq_nil_of_le]
    · rfl
    · rw [View.dirents_put_length]
      simp only [direntSize] at enough ⊢
      omega
  | succ fuel ih =>
    unfold emptyDirent
    split
    · rename_i below
      obtain ⟨count, data, read, contents⟩ := readi_dirent loaded below
      rw [read, ok_bind]
      simp only
      split
      · rename_i short
        exact ⟨rfl, fun aligned => short (contents aligned).1⟩
      · have found : ip.size % direntSize = 0 →
            freeEntry ((((view sb disk).put inum ip).dirents inum).drop index) =
              if direntInum data = 0 then 0
              else freeEntry ((((view sb disk).put inum ip).dirents inum).drop (index + 1)) + 1 := by
          intro aligned
          obtain ⟨_, inums, _⟩ := contents aligned
          have inside : index < (((view sb disk).put inum ip).dirents inum).length := by
            rw [View.dirents_put_length]
            simp only [direntSize] at below aligned ⊢
            omega
          rw [List.drop_eq_getElem_cons inside, freeEntry, List.findIdx_cons,
            View.dirents_getElem, inums]
          by_cases free : (((view sb disk).put inum ip).dirent inum index).inum = 0 <;>
            simp [free, freeEntry]
        split
        · rename_i free
          refine ⟨offFits, rfl, rfl, fun aligned _ => ?_⟩
          rw [found aligned, if_pos free, Nat.add_zero]
        · rename_i used
          simp only [direntSize] at below
          have next := ih (index + 1) (by omega) (by simp only [direntSize]; omega)
          rw [Nat.mul_succ] at next
          refine next.mono fun result rest => ?_
          obtain ⟨fits, sameCopy, sameDisk, same⟩ := rest
          refine ⟨fits, sameCopy, sameDisk, fun aligned enough => ?_⟩
          simp only [direntSize] at enough same ⊢
          rw [found aligned, if_neg used, same aligned (by omega)]
          omega
    · rename_i below
      refine ⟨offFits, rfl, rfl, fun _ enough => ?_⟩
      rw [List.drop_eq_nil_of_le]
      · rfl
      · rw [View.dirents_put_length]
        simp only [direntSize] at below ⊢
        omega

/-! ## Changing an entry -/

theorem Dirent.ofBytes_congr {left right : Nat → UInt8}
    (same : ∀ offset, offset < direntSize → left offset = right offset) :
    Dirent.ofBytes left = .ofBytes right := by
  rw [Dirent.ofBytes, Dirent.ofBytes, same 0 (by decide), same 1 (by decide), key_congr]
  intro index inside
  refine same (index + 2) ?_
  simp only [DIRSIZ, direntSize] at inside ⊢
  omega

theorem Owned.present (owned : Owned sb (view sb disk)) (live : ((view sb disk).inode inum).type ≠ 0)
    {off : Nat} (below : off < ((view sb disk).inode inum).size) :
    (view sb disk).target (.ofBlock inum (off / BSIZE)) ≠ 0 :=
  owned.solid inum _ live (Nat.lt_of_le_of_lt (Nat.div_mul_le_self off BSIZE) below)

theorem ofBytes_dirent (inum : Nat) (name : Nat → UInt8) :
    (Dirent.ofBytes fun offset => (dirent inum name offset).getD 0) = ⟨inum % 2 ^ 16, key name⟩ := by
  unfold Dirent.ofBytes
  congr 1
  · have low : dirent inum name 0 = some (UInt8.ofNat inum) := by simp [dirent]
    have high : dirent inum name 1 = some (UInt8.ofNat (inum / 256)) := by simp [dirent]
    simp only [low, high, Option.getD_some, UInt8.toNat_ofNat']
    omega
  · funext index
    exact paddedName_paddedName name index

end Xv6.Fs
