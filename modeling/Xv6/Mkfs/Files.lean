import Xv6.Mkfs.Append

namespace Xv6.Mkfs

open Xv6.Data Xv6.Log Xv6.Fs

/-! # What is on the image

The image after each step of `mkfs`, and how many blocks it takes.
-/

variable {state : State} {inum : Nat}

/-! ## New inodes -/

theorem newDinode_fits {type : Nat} (fits : type < 2 ^ 16) : (newDinode type).Fits :=
  ⟨fits, Nat.two_pow_pos _, Nat.two_pow_pos _, Nat.one_lt_two_pow (by decide), Nat.two_pow_pos _,
    fun _ => Nat.two_pow_pos _⟩

/-- Writing an inode that has no blocks where there was none. -/
structure Created (state : State) (type : Nat) (after : State) : Prop where
  built : Built after
  freeinode : after.freeinode = state.freeinode + 1
  freeblock : after.freeblock = state.freeblock
  dinode : dinode wide after.disk state.freeinode = newDinode type
  contents : contents wide after.disk state.freeinode = []
  others : ∀ other, other < wide.ninodes → other ≠ state.freeinode →
    Fs.dinode wide after.disk other = Fs.dinode wide state.disk other ∧
      Fs.contents wide after.disk other = Fs.contents wide state.disk other

theorem ialloc_spec (built : Built state) (inside : state.freeinode < wide.ninodes) {type : Nat}
    (fits : type < 2 ^ 16) :
    ∃ after, ialloc state type = .ok (state.freeinode, after) ∧ Created state type after := by
  have sane : Sane { state with freeinode := state.freeinode + 1 } :=
    ⟨built.sane.length, built.sane.low, built.sane.high, built.sane.clean⟩
  refine ⟨{ state with freeinode := state.freeinode + 1 }.put state.freeinode (newDinode type), ?_, ?_⟩
  · rw [ialloc, sane.winode inside]
    rfl
  have disk : ({ state with freeinode := state.freeinode + 1 }.put state.freeinode
      (newDinode type)).disk = putDinode wide state.disk state.freeinode (newDinode type) :=
    disk_put inside _
  have after := @view_putDinode wide state.disk _ _ inside (newDinode_fits fits)
  have free : ∀ index, (newDinode type).addr index =
      (state.view.inode state.freeinode).addr index := by
    intro index
    rw [view_inode inside, built.unborn _ (Nat.le_refl _) inside]
    exact (Dinode.addr_of_zero rfl).trans (Dinode.addr_of_zero rfl).symm
  have targets := View.target_congr (View.put_addr free) fun _ _ => rfl
  have bytes : (view wide (putDinode wide state.disk state.freeinode (newDinode type))).byte =
      state.view.byte := by
    rw [after]
    exact View.byte_put free
  have self : dinode wide (putDinode wide state.disk state.freeinode (newDinode type))
    state.freeinode = newDinode type := dinode_putDinode_self (newDinode_fits fits)
  have others : ∀ other, other ≠ state.freeinode →
      dinode wide (putDinode wide state.disk state.freeinode (newDinode type)) other =
        dinode wide state.disk other := fun other different => dinode_putDinode_other different
  refine ⟨⟨sane.put inside _, ?_, ?_, ?_, ?_, ?_⟩, rfl, rfl, ?_, ?_, ?_⟩
  · rw [disk, after]
    exact built.owned.put free (fun _ => Nat.zero_le _) fun _ bn below =>
      absurd below (Nat.not_lt_zero _)
  · rw [disk, after]
    intro place present
    rw [targets] at present
    have used := built.tight place present
    by_cases isInode : place.inum = state.freeinode
    · have empty : (state.view.inode place.inum).size = 0 := by
        rw [isInode, view_inode inside, built.unborn _ (Nat.le_refl _) inside]
        rfl
      rw [empty] at used
      cases place <;> exact absurd used (Nat.not_lt_zero _)
    · rw [View.put_inode_other isInode]
      exact used
  · intro other position beyond present
    rw [disk, after, targets] at present
    rw [disk, bytes]
    by_cases isInode : other = state.freeinode
    · -- The new inode has no blocks.
      have free : (state.view.inode other).type = 0 := by
        rw [isInode, view_inode inside, built.unborn _ (Nat.le_refl _) inside]
        rfl
      exact byte_free free position
    · rw [disk, after, View.put_inode_other isInode] at beyond
      exact built.slack other position beyond present
  · intro other later isInode
    have before : state.freeinode < other := later
    rw [disk, others other (Nat.ne_of_gt before)]
    exact built.unborn other (Nat.le_of_lt before) isInode
  · exact (put_superblock inside _).trans built.superblock
  · rw [disk, self]
  · rw [disk, Fs.contents, self]
    rfl
  · intro other isInode different
    rw [disk, Fs.contents, Fs.contents, others other different, bytes]
    exact ⟨rfl, rfl⟩

/-! ## Chunks -/

theorem Appended.size {p : List UInt8} {after : State} (appended : Appended state inum p after) :
    (dinode wide after.disk inum).size = (dinode wide state.disk inum).size + p.length := by
  rw [← Fs.contents_length, appended.contents, List.length_append, Fs.contents_length]

theorem Appended.refl (built : Built state) : Appended state inum [] state :=
  ⟨built, rfl, rfl, (List.append_nil _).symm, .refl _, fun _ _ _ => ⟨rfl, rfl⟩⟩

theorem Appended.trans {middle after : State} {p q : List UInt8}
    (first : Appended state inum p middle) (second : Appended middle inum q after) :
    Appended state inum (p ++ q) after := by
  have once := first.freeblock
  have twice := second.freeblock
  rw [first.size] at twice
  refine ⟨second.built, second.freeinode.trans first.freeinode, ?_, ?_,
    first.agrees.trans second.agrees, fun other inside different => ?_⟩
  · rw [List.length_append, ← Nat.add_assoc]
    omega
  · rw [second.contents, first.contents, List.append_assoc]
  · obtain ⟨dinode, contents⟩ := second.others other inside different
    obtain ⟨dinode', contents'⟩ := first.others other inside different
    exact ⟨dinode.trans dinode', contents.trans contents'⟩

theorem appendChunks_spec (built : Built state) (inside : inum < wide.ninodes)
    (live : (dinode wide state.disk inum).type ≠ 0) (chunks : List Chunk) :
    Ensures (fun _ => FSSIZE + blocksFor (dinode wide state.disk inum).size < state.freeblock +
          blocksFor ((dinode wide state.disk inum).size + (chunks.flatMap Chunk.bytes).length) ∨
        MAXFILE * BSIZE < (dinode wide state.disk inum).size + (chunks.flatMap Chunk.bytes).length)
      (Appended state inum (chunks.flatMap Chunk.bytes)) (appendChunks inum state chunks) := by
  induction chunks generalizing state with
  | nil => exact Appended.refl built
  | cons chunk rest ih =>
    have length : ((chunk :: rest).flatMap Chunk.bytes).length =
        chunk.bytes.length + (rest.flatMap Chunk.bytes).length := by
      rw [List.flatMap_cons, List.length_append]
    rw [appendChunks, List.foldlM_cons, length]
    refine ((iappend_spec built inside live chunk.bytes).mono_errors fun _ unfit => ?_).bind
      fun middle appended => ?_
    · have larger := blocksFor_mono (show (dinode wide state.disk inum).size + chunk.bytes.length ≤
        (dinode wide state.disk inum).size +
          (chunk.bytes.length + (rest.flatMap Chunk.bytes).length) by omega)
      rcases unfit with full | long
      · exact Or.inl (Nat.lt_of_lt_of_le full (Nat.add_le_add_left larger _))
      · exact Or.inr (Nat.lt_of_lt_of_le long (by omega))
    · have stillLive : (dinode wide middle.disk inum).type ≠ 0 := by
        rw [appended.agrees.type]
        exact live
      have used := appended.freeblock
      have later := ih appended.built stillLive
      rw [appended.size, Nat.add_assoc] at later
      refine (later.mono fun after more => ?_).mono_errors fun _ unfit => ?_
      · exact appended.trans more
      · rcases unfit with full | long
        · left
          omega
        · exact Or.inr long

/-! ## Files -/

/-- The name of a file on the image. -/
def File.name (file : File) : List UInt8 := skipUnderscore (shortname file.path)

/-- The contents of a file, however `read` splits them. -/
def File.bytes (file : File) : List UInt8 := (file.chunks.getD []).flatMap Chunk.bytes

/-- `mkfs` stops at such a file. -/
def File.Unfit (file : File) : Prop :=
  slash ∈ shortname file.path ∨ file.chunks = none ∨ MAXFILE * BSIZE < file.bytes.length

/-- The entries of the root directory. -/
def rootEntries (files : List File) : List (Nat × (Nat → UInt8)) :=
  (ROOTINO, dot) :: (ROOTINO, dotdot) ::
    files.mapIdx fun index file => (index + 2, nameBuffer file.name)

def rootBytes (files : List File) : List UInt8 :=
  (rootEntries files).flatMap fun entry => direntBytes entry.1 entry.2

/-- The first block that an image with these files leaves unused. -/
def need (files : List File) : Nat :=
  nmeta + blocksFor (direntSize * (files.length + 2)) +
    (files.map fun file => blocksFor file.bytes.length).sum

theorem direntBytes_length (inum : Nat) (name : Nat → UInt8) :
    (direntBytes inum name).length = direntSize := by
  simp [direntBytes]

theorem rootEntries_concat (files : List File) (file : File) : rootEntries (files ++ [file]) =
      rootEntries files ++ [(files.length + 2, nameBuffer file.name)] := by
  simp [rootEntries, List.mapIdx_append]

theorem rootEntries_length (files : List File) : (rootEntries files).length = files.length + 2 := by
  simp [rootEntries]

theorem rootBytes_concat (files : List File) (file : File) : rootBytes (files ++ [file]) =
      rootBytes files ++ direntBytes (files.length + 2) (nameBuffer file.name) := by
  rw [rootBytes, rootEntries_concat, List.flatMap_append, List.flatMap_singleton]
  rfl

theorem rootBytes_length (files : List File) :
    (rootBytes files).length = direntSize * (files.length + 2) := by
  have sum : ∀ entries : List (Nat × (Nat → UInt8)),
      (entries.flatMap fun entry => direntBytes entry.1 entry.2).length =
        direntSize * entries.length := by
    intro entries
    induction entries with
    | nil => rfl
    | cons entry rest ih =>
      rw [List.flatMap_cons, List.length_append, ih, direntBytes_length, List.length_cons,
        Nat.mul_succ, Nat.add_comm]
  rw [rootBytes, sum, rootEntries_length]

theorem need_concat (files : List File) (file : File) :
    need (files ++ [file]) + blocksFor (direntSize * (files.length + 2)) =
      need files + blocksFor (direntSize * (files.length + 3)) + blocksFor file.bytes.length := by
  have size : (files ++ [file]).length + 2 = files.length + 3 := by simp
  simp only [need, size, List.map_append, List.map_singleton, List.sum_append, List.sum_singleton]
  omega

theorem need_append (files rest : List File) : need files ≤ need (files ++ rest) := by
  have larger := blocksFor_mono (show direntSize * (files.length + 2) ≤
    direntSize * ((files ++ rest).length + 2) by
      rw [List.length_append]
      exact Nat.mul_le_mul_left _ (by omega))
  simp only [need, List.map_append, List.sum_append]
  omega

/-- The image holds the files. -/
structure Holds (files : List File) (state : State) : Prop where
  built : Built state
  freeinode : state.freeinode = files.length + 2
  freeblock : state.freeblock = need files
  root : (dinode wide state.disk ROOTINO).type = T_DIR
  entries : contents wide state.disk ROOTINO = rootBytes files
  fit : ∀ file ∈ files, ¬file.Unfit
  files : ∀ index file, files[index]? = some file →
    (dinode wide state.disk (index + 2)).type = T_FILE ∧
      contents wide state.disk (index + 2) = file.bytes

theorem Holds.root_size {files : List File} (holds : Holds files state) :
    (dinode wide state.disk ROOTINO).size = direntSize * (files.length + 2) := by
  rw [← Fs.contents_length, holds.entries, rootBytes_length]

theorem addFile_spec {files : List File} (holds : Holds files state) (file : File)
    (few : files.length + 2 < wide.ninodes) :
    Ensures (fun _ => FSSIZE < need (files ++ [file]) ∨ file.Unfit) (Holds (files ++ [file]))
      (addFile ROOTINO state file) := by
  unfold addFile
  by_cases nested : slash ∈ shortname file.path
  · simp only [if_pos nested]
    exact Or.inr (Or.inl nested)
  simp only [if_neg nested]
  cases opened : file.chunks with
  | none => exact Or.inr (Or.inr (Or.inl opened))
  | some chunks =>
  have bytes : chunks.flatMap Chunk.bytes = file.bytes := by
    rw [File.bytes, opened]
    rfl
  have isInode : state.freeinode < wide.ninodes := holds.freeinode ▸ few
  have rootInode : ROOTINO < wide.ninodes := by decide
  have notRoot : ROOTINO ≠ state.freeinode := by
    rw [holds.freeinode]
    simp only [ROOTINO]
    omega
  obtain ⟨state', allocated, created⟩ := ialloc_spec holds.built isInode (show T_FILE < 2 ^ 16 by decide)
  simp only [allocated, ok_bind]
  obtain ⟨rootSame, rootContents⟩ := created.others ROOTINO rootInode notRoot
  have rootLive : (dinode wide state'.disk ROOTINO).type ≠ 0 := by
    rw [rootSame, holds.root]
    decide
  have rootSize : (dinode wide state'.disk ROOTINO).size = direntSize * (files.length + 2) := by
    rw [rootSame, holds.root_size]
  have grown : direntSize * (files.length + 2) +
      (direntBytes state.freeinode (nameBuffer file.name)).length =
        direntSize * (files.length + 3) := by
    rw [direntBytes_length]
    rfl
  have counted := need_concat files file
  have blocks := holds.freeblock
  have unused := created.freeblock
  have entry := iappend_spec created.built rootInode rootLive
    (direntBytes state.freeinode (nameBuffer file.name))
  rw [rootSize, grown] at entry
  refine (entry.mono_errors fun _ unfit => ?_).bind fun state'' appended => ?_
  · rcases unfit with full | long
    · left
      omega
    · simp only [MAXFILE, NDIRECT, NINDIRECT, BSIZE, direntSize] at long
      have limit : wide.ninodes = 207 := rfl
      omega
  have rootUsed := appended.freeblock
  rw [rootSize, grown] at rootUsed
  obtain ⟨same, empty⟩ := appended.others _ isInode (Ne.symm notRoot)
  rw [created.dinode] at same
  rw [created.contents] at empty
  have live : (dinode wide state''.disk state.freeinode).type ≠ 0 := by
    rw [same]
    decide
  have content := appendChunks_spec appended.built isInode live chunks
  have size : (newDinode T_FILE).size = 0 := rfl
  rw [same, bytes, size, Nat.zero_add] at content
  have none : blocksFor 0 = 0 := by decide
  refine (content.mono fun after written => ?_).mono_errors fun _ unfit => ?_
  · have fileUsed := written.freeblock
    rw [same, size, Nat.zero_add, none] at fileUsed
    obtain ⟨lastRoot, lastEntries⟩ := written.others ROOTINO rootInode notRoot
    refine ⟨written.built, ?_, ?_, ?_, ?_, ?_, ?_⟩
    · rw [written.freeinode, appended.freeinode, created.freeinode, holds.freeinode,
        List.length_append]
      rfl
    · omega
    · rw [lastRoot, appended.agrees.type, rootSame]
      exact holds.root
    · rw [lastEntries, appended.contents, rootContents, holds.entries, holds.freeinode,
        rootBytes_concat]
    · have bounded := written.built.owned.size_le state.freeinode (by
        rw [view_inode isInode, written.agrees.type]
        exact live)
      rw [view_inode isInode, ← Fs.contents_length, written.contents, empty, List.nil_append] at bounded
      intro other member
      rcases List.mem_append.mp member with earlier | last
      · exact holds.fit other earlier
      · rw [List.mem_singleton.mp last]
        rintro (inside | closed | long)
        · exact nested inside
        · exact Option.some_ne_none _ (opened.symm.trans closed)
        · exact Nat.not_lt.mpr bounded long
    · intro index other found
      rw [List.getElem?_append] at found
      split at found
      · rename_i earlier
        have different : index + 2 ≠ state.freeinode := by
          rw [holds.freeinode]
          omega
        have inside : index + 2 < wide.ninodes := by omega
        obtain ⟨dinode, contents⟩ := written.others _ inside different
        obtain ⟨dinode', contents'⟩ := appended.others _ inside (by simp only [ROOTINO]; omega)
        obtain ⟨dinode'', contents''⟩ := created.others _ inside different
        rw [dinode, dinode', dinode'', contents, contents', contents'']
        exact holds.files index other found
      · rename_i late
        have last : index = files.length := by
          have short := (List.getElem?_eq_some_iff.mp found).1
          simp only [List.length_singleton] at short
          omega
        subst last
        rw [Nat.sub_self] at found
        cases found
        rw [← holds.freeinode, written.agrees.type, same, written.contents, empty]
        exact ⟨rfl, rfl⟩
  · rcases unfit with full | long
    · rw [none] at full
      left
      omega
    · exact Or.inr (Or.inr (Or.inr long))

theorem addFiles_spec {files : List File} (holds : Holds files state) (rest : List File)
    (few : files.length + rest.length + 2 ≤ wide.ninodes) :
    Ensures (fun _ => FSSIZE < need (files ++ rest) ∨ ∃ file ∈ rest, file.Unfit)
      (Holds (files ++ rest)) (rest.foldlM (addFile ROOTINO) state) := by
  induction rest generalizing files state with
  | nil =>
    rw [List.append_nil]
    exact holds
  | cons file rest ih =>
    rw [List.length_cons] at few
    have assoc : files ++ file :: rest = files ++ [file] ++ rest := by simp
    have grows := need_append (files ++ [file]) rest
    rw [List.foldlM_cons, assoc]
    refine ((addFile_spec holds file (by omega)).mono_errors fun _ unfit => ?_).bind
      fun state' more => ?_
    · rcases unfit with full | unfit
      · exact Or.inl (Nat.lt_of_lt_of_le full grows)
      · exact Or.inr ⟨file, List.mem_cons_self, unfit⟩
    · refine (ih more (by rw [List.length_append, List.length_singleton]; omega)).mono_errors
        fun _ unfit => ?_
      rcases unfit with full | ⟨other, member, unfit⟩
      · exact Or.inl full
      · exact Or.inr ⟨other, List.mem_cons_of_mem _ member, unfit⟩

end Xv6.Mkfs
