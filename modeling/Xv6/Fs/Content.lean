import Xv6.Fs.InodeSpec

namespace Xv6.Fs

open Xv6.Data Xv6.Log

/-! # Reading and writing files

`readi` and `writei` on the bytes of a file.
-/

variable {sb : Superblock} {disk : Disk} {inum : Nat} {ip : Dinode}

theorem Loaded.write (loaded : Loaded sb disk inum ip) {bn : Nat}
    (present : ((view sb disk).put inum ip).target (.ofBlock inum bn) ≠ 0) (bytes : Bytes) :
    Grows sb inum disk ip
      (overwrite disk (((view sb disk).put inum ip).target (.ofBlock inum bn)) bytes) ip := by
  have stored := @view_fill sb disk _ bytes (loaded.isData present)
  have owned := loaded.owned.fill present bytes
  refine ⟨⟨stored ▸ owned, loaded.live, loaded.fits⟩, .refl ip, rfl, ?_, ?_⟩
  · rw [stored]
    rfl
  · intro place _
    rw [stored]
    exact loaded.owned.target_fill present _ place

/-- The blocks of the file up to an offset are allocated. -/
def Covered (sb : Superblock) (inum : Nat) (disk : Disk) (ip : Dinode) (limit : Nat) : Prop :=
  ∀ bn, bn * BSIZE < limit → ((view sb disk).put inum ip).target (.ofBlock inum bn) ≠ 0

theorem Loaded.covered_size (loaded : Loaded sb disk inum ip) : Covered sb inum disk ip ip.size := by
  intro bn below
  have solid := loaded.owned.solid inum bn
  rw [View.put_inode_self] at solid
  exact solid loaded.live below

theorem Loaded.size_le (loaded : Loaded sb disk inum ip) : ip.size ≤ MAXFILE * BSIZE := by
  have bound := loaded.owned.size_le inum
  rw [View.put_inode_self] at bound
  exact bound loaded.live

variable {limit : Nat}

theorem Covered.mono {smaller : Nat} (covered : Covered sb inum disk ip limit)
    (le : smaller ≤ limit) : Covered sb inum disk ip smaller :=
  fun bn below => covered bn (Nat.lt_of_lt_of_le below le)

theorem Covered.grows {disk' : Disk} {ip' : Dinode} (covered : Covered sb inum disk ip limit)
    (grows : Grows sb inum disk ip disk' ip') :
    Covered sb inum disk' ip' limit :=
  fun bn below => grows.ne_zero (covered bn below)

variable {off : Nat}

/-- Having block `off / BSIZE` as well covers the file up to the end of that block. -/
theorem Covered.extend (covered : Covered sb inum disk ip off)
    (present : ((view sb disk).put inum ip).target (.ofBlock inum (off / BSIZE)) ≠ 0)
    (le : limit ≤ off + (BSIZE - off % BSIZE)) : Covered sb inum disk ip limit := by
  intro bn below
  simp only [BSIZE] at below le
  rcases Nat.lt_or_ge (bn * 1024) off with before | after
  · exact covered bn before
  · have same : bn = off / BSIZE := by
      simp only [BSIZE]
      omega
    rw [same]
    exact present

theorem Loaded.resize (loaded : Loaded sb disk inum ip) {size : Nat}
    (covered : Covered sb inum disk ip size) (bound : size ≤ MAXFILE * BSIZE) :
    Loaded sb disk inum { ip with size } := by
  have live : ({ ip with size } : Dinode).type ≠ 0 := loaded.live
  refine ⟨?_, live, ⟨loaded.fits.type, loaded.fits.major, loaded.fits.minor, loaded.fits.nlink, ?_,
    loaded.fits.addrs⟩⟩
  · have twice : ((view sb disk).put inum ip).put inum { ip with size } =
        (view sb disk).put inum { ip with size } := View.put_put _
    rw [← twice]
    refine loaded.owned.put (fun index => ?_) (fun _ => bound) fun _ => covered
    rw [View.put_inode_self]
    rfl
  · simp only [MAXFILE, NDIRECT, NINDIRECT, BSIZE] at bound
    simp only
    omega

/-! ## Writing -/

variable {source : Nat → Option UInt8} {start : Nat}

theorem copyin_total {m : Nat}
    (total : ∀ index, start ≤ index → index < start + m → (source index).isSome) (bytes : Bytes)
    (offset : Nat) :
    copyin source bytes offset start m = (fun index =>
      if offset ≤ index ∧ index < offset + m then (source (start + (index - offset))).getD 0
      else bytes index, true) := by
  induction m generalizing bytes offset start with
  | zero =>
    rw [copyin]
    congr 1
    funext index
    rw [if_neg (by omega)]
  | succ m ih =>
    obtain ⟨value, found⟩ := Option.isSome_iff_exists.mp (total start (Nat.le_refl _) (by omega))
    rw [copyin, found]
    simp only
    rw [ih fun index lower upper => total index (by omega) (by omega)]
    congr 1
    funext index
    by_cases first : index = offset
    · subst first
      rw [if_neg (by omega), if_pos (by omega), overwrite_self, Nat.sub_self, Nat.add_zero,
        found, Option.getD_some]
    · rw [overwrite_of_ne first]
      by_cases inside : offset + 1 ≤ index ∧ index < offset + 1 + m
      · rw [if_pos inside, if_pos (by omega)]
        congr 2
        omega
      · rw [if_neg inside, if_neg (by omega)]

/-- The file holds the source from `off` to `limit`, and every other byte is what it was. -/
structure Wrote (inum : Nat) (before after : View) (source : Nat → Option UInt8)
    (off start limit : Nat) : Prop where
  inside : ∀ position, off ≤ position → position < limit →
    after.byte inum position = (source (start + (position - off))).getD 0
  outside : ∀ other position, ¬(other = inum ∧ off ≤ position ∧ position < limit) →
    before.target (.ofBlock other (position / BSIZE)) ≠ 0 →
      after.byte other position = before.byte other position

variable {before after : View}

theorem Wrote.none (keeps : before.Keeps after) : Wrote inum before after source off start off :=
  ⟨fun _ _ _ => by omega, fun other position _ present => keeps other position present⟩

theorem Wrote.after_keeps {middle : View} (keeps : before.Keeps middle)
    (present : ∀ place, before.target place ≠ 0 → middle.target place ≠ 0)
    (wrote : Wrote inum middle after source off start limit) :
    Wrote inum before after source off start limit := by
  refine ⟨wrote.inside, fun other position elsewhere allocated => ?_⟩
  rw [wrote.outside other position elsewhere (present _ allocated), keeps other position allocated]

theorem Wrote.trans {middle : View} {count : Nat}
    (first : Wrote inum before middle source off start (off + count))
    (second : Wrote inum middle after source (off + count) (start + count) limit)
    (present : ∀ place, before.target place ≠ 0 → middle.target place ≠ 0)
    (covered : ∀ position, position < off + count →
      middle.target (.ofBlock inum (position / BSIZE)) ≠ 0) (le : off + count ≤ limit) :
    Wrote inum before after source off start limit := by
  constructor
  · intro position lower upper
    rcases Nat.lt_or_ge position (off + count) with early | late
    · rw [second.outside inum position (by omega) (covered position early)]
      exact first.inside position lower early
    · rw [second.inside position late upper]
      congr 2
      omega
  · intro other position elsewhere allocated
    rw [second.outside other position (by omega) (present _ allocated)]
    exact first.outside other position (by omega) allocated

/-- One iteration of the loop of `writei`. -/
theorem Loaded.wrote (loaded : Loaded sb disk inum ip) {m : Nat}
    (present : ((view sb disk).put inum ip).target (.ofBlock inum (off / BSIZE)) ≠ 0)
    (total : ∀ index, start ≤ index → index < start + m → (source index).isSome)
    (fits : m ≤ BSIZE - off % BSIZE) :
    let addr := ((view sb disk).put inum ip).target (.ofBlock inum (off / BSIZE))
    let bytes := (copyin source (disk addr) (off % BSIZE) start m).1
    Wrote inum ((view sb disk).put inum ip)
      ((view sb (overwrite disk addr bytes)).put inum ip) source off start (off + m) := by
  intro addr bytes
  have isData := loaded.isData present
  have filled : (view sb (overwrite disk addr bytes)).put inum ip =
      ((view sb disk).put inum ip).fill addr bytes := by
    rw [view_fill isData]
    rfl
  have contents : bytes = fun index =>
      if off % BSIZE ≤ index ∧ index < off % BSIZE + m then
        (source (start + (index - off % BSIZE))).getD 0
      else disk addr index := by
    simp only [bytes, copyin_total total]
  have old : ∀ index, disk addr index = ((view sb disk).put inum ip).data addr index :=
    fun index => congrFun (view_data isData).symm index
  rw [filled]
  constructor
  · intro position lower upper
    have block : position / BSIZE = off / BSIZE := by
      simp only [BSIZE] at fits ⊢
      omega
    have offset : position % BSIZE = off % BSIZE + (position - off) := by
      simp only [BSIZE] at fits ⊢
      omega
    rw [loaded.owned.byte_fill present, if_pos ⟨rfl, block⟩, contents, offset]
    simp only
    rw [if_pos (by omega), Nat.add_sub_cancel_left]
  · intro other position elsewhere allocated
    rw [loaded.owned.byte_fill present]
    split
    · rename_i same
      obtain ⟨rfl, block⟩ := same
      have outside : ¬(off % BSIZE ≤ position % BSIZE ∧ position % BSIZE < off % BSIZE + m) := by
        simp only [BSIZE] at block fits ⊢
        omega
      rw [contents]
      simp only
      rw [if_neg outside, old, View.byte, block]
    · rfl

theorem chunk_pos {count : Nat} (off : Nat) (more : 0 < count) :
    0 < min count (BSIZE - off % BSIZE) :=
  Nat.lt_min.mpr ⟨more, Nat.sub_pos_of_lt (Nat.mod_lt _ (by decide))⟩

variable {n : Nat}

theorem writeiLoop_spec (source : Nat → Option UInt8) (fuel : Nat) {tot : Nat}
    (loaded : Loaded sb disk inum ip) (covered : Covered sb inum disk ip off)
    (bound : off + (n - tot) ≤ MAXFILE * BSIZE) :
    Ensures Panic.sound (fun result => Grows sb inum disk ip result.2.2.2 result.2.2.1 ∧
      Covered sb inum result.2.2.2 result.2.2.1 result.1 ∧ result.1 ≤ MAXFILE * BSIZE ∧
      ((∀ index, index < n → (source index).isSome) → n ≤ tot + fuel → tot ≤ n →
        result.1 = off + (n - tot) ∧ result.2.1 = n ∧
        Wrote inum ((view sb disk).put inum ip) ((view sb result.2.2.2).put inum result.2.2.1) source
          off tot result.1))
      (writeiLoop sb source fuel disk ip off tot n) := by
  have offBound : off ≤ MAXFILE * BSIZE := Nat.le_trans (Nat.le_add_right ..) bound
  induction fuel generalizing disk ip off tot with
  | zero =>
    refine ⟨.refl loaded, covered, offBound, fun _ enough le => ?_⟩
    obtain rfl : tot = n := by omega
    exact ⟨by simp, rfl, .none (.refl _)⟩
  | succ fuel ih =>
    unfold writeiLoop
    split
    · rename_i more
      have inside : off / BSIZE < MAXFILE := by
        simp only [BSIZE] at bound ⊢
        omega
      refine (bmap_spec loaded inside).bind
        fun ⟨addr, ip', disk'⟩ ⟨allocates, found, nonzero⟩ => ?_
      simp only at allocates found nonzero ⊢
      subst found
      have grows := allocates.grows
      have written := grows.loaded.write nonzero
      have total := fun bytes => grows.trans (written bytes)
      have fits := Nat.min_le_right (n - tot) (BSIZE - off % BSIZE)
      have few := Nat.min_le_left (n - tot) (BSIZE - off % BSIZE)
      have some := chunk_pos off (Nat.sub_pos_of_lt more)
      generalize min (n - tot) (BSIZE - off % BSIZE) = m at *
      split
      · -- The block is there now, so the file is covered up to its end.
        have coveredNow := fun bytes => (covered.grows (total bytes)).extend
          ((written bytes).ne_zero nonzero) (Nat.add_le_add_left fits off)
        refine (ih (written _).loaded (coveredNow _) (by omega) (by omega)).mono
          fun result ⟨rest, coveredAfter, bounded, wrote⟩ =>
            ⟨(total _).trans rest, coveredAfter, bounded, fun readable enough le => ?_⟩
        obtain ⟨limit, all, later⟩ := wrote readable (by omega) (by omega)
        have here : ∀ index, tot ≤ index → index < tot + m → (source index).isSome :=
          fun index _ upper => readable index (by omega)
        have chunk := grows.loaded.wrote nonzero here fits
        refine ⟨by omega, all, ?_⟩
        refine Wrote.after_keeps allocates.keeps (fun _ => grows.ne_zero) ?_
        refine chunk.trans later (fun _ => (written _).ne_zero) (fun position below => ?_) (by omega)
        refine coveredNow _ _ ?_
        have := Nat.div_mul_le_self position BSIZE
        omega
      · rename_i stopped
        refine ⟨total _, covered.grows (total _), offBound, fun readable _ _ => ?_⟩
        rw [copyin_total fun index lower upper => readable index (by omega)] at stopped
        exact absurd rfl stopped
    · refine ⟨.refl loaded, covered, offBound, fun _ enough le => ?_⟩
      obtain rfl : tot = n := by omega
      exact ⟨by simp, rfl, .none (.refl _)⟩

theorem Wrote.congr {after' : View} (wrote : Wrote inum before after source off start limit)
    (same : after'.byte = after.byte) : Wrote inum before after' source off start limit :=
  ⟨same ▸ wrote.inside, same ▸ wrote.outside⟩

theorem byte_iupdate {d : Dinode} (inside : inum < sb.ninodes) (fits : d.Fits)
    (same : ∀ index, d.addr index = ip.addr index) :
    (view sb (iupdate sb disk inum d)).byte = ((view sb disk).put inum ip).byte := by
  have twice : ((view sb disk).put inum ip).put inum d = (view sb disk).put inum d := View.put_put _
  rw [iupdate, view_putDinode inside fits, ← twice]
  refine View.byte_put fun index => ?_
  rw [View.put_inode_self, same]

/-- All of the source is in the file. -/
structure WroteAll (sb : Superblock) (disk : Disk) (inum : Nat) (ip : Dinode)
    (source : Nat → Option UInt8) (off n : Nat) (result : Int × Dinode × Disk) : Prop where
  count : result.1 = n
  size : result.2.1.size = max ip.size (off + n)
  wrote : Wrote inum (view sb disk) (view sb result.2.2) source off 0 (off + n)

theorem writei_spec (loaded : Loaded sb disk inum ip) (inside : inum < sb.ninodes)
    (current : dinode sb disk inum = ip) (source : Nat → Option UInt8) (offFits : off < 2 ^ 32)
    (countFits : n < 2 ^ 32) :
    Ensures Panic.sound (fun result => Stored sb inum disk result.2.2 result.2.1 ∧
      ip.Agrees result.2.1 ∧
      ((∀ index, index < n → (source index).isSome) → off ≤ ip.size → off + n ≤ MAXFILE * BSIZE →
        WroteAll sb disk inum ip source off n result))
      (writei sb disk inum ip source off n) := by
  have unchanged := loaded.stored inside current
  have same : (view sb disk).put inum ip = view sb disk := by
    rw [← current, ← view_inode inside, View.put_self]
  unfold writei
  split
  · rename_i refused
    refine ⟨unchanged, .refl ip, fun _ below limit => ?_⟩
    simp only [uadd, MAXFILE, NDIRECT, NINDIRECT, BSIZE] at refused limit
    omega
  · rename_i acceptable
    split
    · rename_i refused
      refine ⟨unchanged, .refl ip, fun _ below limit => ?_⟩
      simp only [uadd, MAXFILE, NDIRECT, NINDIRECT, BSIZE] at refused limit
      omega
    · rename_i small
      unfold uadd at acceptable small
      have covered := loaded.covered_size.mono (show off ≤ ip.size by omega)
      refine (writeiLoop_spec source n loaded covered (by omega)).bind fun result looped => ?_
      obtain ⟨off', tot, ip', disk'⟩ := result
      obtain ⟨grows, coveredAfter, bounded, wrote⟩ := looped
      simp only at grows coveredAfter bounded wrote ⊢
      rw [same] at wrote
      have size := grows.size
      split
      · have resized := grows.loaded.resize coveredAfter bounded
        have agrees := grows.agrees
        refine ⟨grows.stored (resized.iupdate inside),
          ⟨agrees.type, agrees.major, agrees.minor, agrees.nlink⟩, fun readable _ _ => ?_⟩
        obtain ⟨rfl, rfl, written⟩ := wrote readable (by omega) (by omega)
        refine ⟨rfl, ?_, written.congr (byte_iupdate inside resized.fits fun _ => rfl)⟩
        simp only
        omega
      · refine ⟨grows.stored (grows.loaded.iupdate inside), grows.agrees, fun readable _ _ => ?_⟩
        obtain ⟨rfl, rfl, written⟩ := wrote readable (by omega) (by omega)
        refine ⟨rfl, ?_, written.congr (byte_iupdate inside grows.loaded.fits fun _ => rfl)⟩
        simp only
        omega

/-! ## Reading -/

theorem range_split {count m : Nat} (le : m ≤ count) :
    List.range count = List.range m ++ (List.range (count - m)).map (m + ·) := by
  rw [← List.range_add, Nat.add_sub_cancel' le]

theorem readiLoop_mapped (writable : Nat → Bool) (fuel : Nat) {tot : Nat} (data : List UInt8)
    {mapping : Nat → Nat}
    (mapped : ∀ bn, bn * BSIZE < off + (n - tot) → bmap sb disk ip bn = .ok (mapping bn, ip, disk)) :
    
    ∃ count data', readiLoop sb writable fuel disk ip off tot n data = .ok (count, data', ip, disk) ∧
      ((∀ index, index < n → writable index = true) → n ≤ tot + fuel → tot ≤ n →
        count = n ∧ data' = data ++ (List.range (n - tot)).map fun index =>
          disk (mapping ((off + index) / BSIZE)) ((off + index) % BSIZE)) := by
  induction fuel generalizing off tot data with
  | zero =>
    refine ⟨_, _, rfl, fun _ enough le => ?_⟩
    obtain rfl : tot = n := by omega
    simp
  | succ fuel ih =>
    unfold readiLoop
    split
    · rename_i more
      have below : off / BSIZE * BSIZE < off + (n - tot) := by
        have := Nat.div_mul_le_self off BSIZE
        omega
      rw [mapped _ below]
      simp only [ok_bind]
      have fits := Nat.min_le_right (n - tot) (BSIZE - off % BSIZE)
      have few := Nat.min_le_left (n - tot) (BSIZE - off % BSIZE)
      have some := chunk_pos off (Nat.sub_pos_of_lt more)
      generalize min (n - tot) (BSIZE - off % BSIZE) = m at *
      split
      · have rest : ∀ bn, bn * BSIZE < off + m + (n - (tot + m)) →
            bmap sb disk ip bn = .ok (mapping bn, ip, disk) := fun bn less => mapped bn (by omega)
        obtain ⟨count, data', read, contents⟩ := ih _ rest
        refine ⟨count, data', read, fun always enough le => ?_⟩
        obtain ⟨all, bytes⟩ := contents always (by omega) (by omega)
        refine ⟨all, ?_⟩
        -- The chunk lies in one block.
        have chunk : (List.range m).map (fun index => disk (mapping (off / BSIZE))
            (off % BSIZE + index)) =
            (List.range m).map fun index =>
              disk (mapping ((off + index) / BSIZE)) ((off + index) % BSIZE) := by
          refine List.map_congr_left fun index member => ?_
          have near := List.mem_range.mp member
          have block : (off + index) / BSIZE = off / BSIZE := by
            simp only [BSIZE] at fits ⊢
            omega
          have offset : (off + index) % BSIZE = off % BSIZE + index := by
            simp only [BSIZE] at fits ⊢
            omega
          rw [block, offset]
        have assoc : ∀ index, off + m + index = off + (m + index) := fun index => Nat.add_assoc ..
        rw [bytes, range_split few, List.map_append, List.map_map, List.append_assoc, chunk]
        simp only [assoc, Function.comp_def, Nat.sub_sub]
      · rename_i stopped
        refine ⟨_, _, rfl, fun always _ _ => absurd ?_ stopped⟩
        exact List.all_eq_true.mpr fun index member =>
          always _ (by have := List.mem_range.mp member; omega)
    · refine ⟨_, _, rfl, fun _ enough le => ?_⟩
      obtain rfl : tot = n := by omega
      simp

theorem uadd_clip {size : Nat} (accepted : ¬(off > size ∨ uadd off n < off)) (offFits : off < 2 ^ 32)
    (countFits : n < 2 ^ 32) :
    (if uadd off n > size then size - off else n) = min (uadd off n) size - off := by
  rw [uadd] at *
  split <;> omega

theorem readi_mapped (writable : Nat → Bool) {mapping : Nat → Nat} (offFits : off < 2 ^ 32)
    (countFits : n < 2 ^ 32)
    (mapped : ∀ bn, bn * BSIZE < min (uadd off n) ip.size → bmap sb disk ip bn = .ok (mapping bn,
      ip, disk)) :
    ∃ count data, readi sb disk ip writable off n = .ok (count, data, ip, disk) ∧
      ((∀ index, index < min (uadd off n) ip.size - off → writable index = true) →
        count = (min (uadd off n) ip.size - off : Nat) ∧
        data = (List.range (min (uadd off n) ip.size - off)).map fun index =>
          disk (mapping ((off + index) / BSIZE)) ((off + index) % BSIZE)) := by
  unfold readi
  split
  · have nothing : min (uadd off n) ip.size - off = 0 := by omega
    rw [nothing]
    exact ⟨0, [], rfl, fun _ => ⟨rfl, rfl⟩⟩
  · rename_i accepted
    simp only [uadd_clip accepted offFits countFits]
    have limit : off + (min (uadd off n) ip.size - off) = min (uadd off n) ip.size := by omega
    rw [← limit] at mapped
    generalize min (uadd off n) ip.size - off = length at *
    have everywhere : ∀ bn, bn * BSIZE < off + (length - 0) →
        bmap sb disk ip bn = .ok (mapping bn, ip, disk) := mapped
    obtain ⟨count, data, read, all⟩ := readiLoop_mapped writable length [] everywhere
    exact ⟨count, data, read, fun always => all always (by omega) (Nat.zero_le _)⟩

/-- Reading allocates nothing. -/
theorem readi_spec (loaded : Loaded sb disk inum ip) (writable : Nat → Bool)
    (offFits : off < 2 ^ 32) (countFits : n < 2 ^ 32) :
    ∃ count data, readi sb disk ip writable off n = .ok (count, data, ip, disk) ∧
      ((∀ index, index < min (uadd off n) ip.size - off → writable index = true) →
        count = (min (uadd off n) ip.size - off : Nat) ∧
        data = (List.range (min (uadd off n) ip.size - off)).map fun index =>
          ((view sb disk).put inum ip).byte inum (off + index)) := by
  have covered : Covered sb inum disk ip (min (uadd off n) ip.size) :=
    loaded.covered_size.mono (Nat.min_le_right ..)
  obtain ⟨count, data, read, contents⟩ := readi_mapped writable offFits countFits
    fun bn below => bmap_present loaded (covered bn below)
  refine ⟨count, data, read, fun always => ?_⟩
  obtain ⟨all, bytes⟩ := contents always
  refine ⟨all, bytes.trans (List.map_congr_left fun index member => ?_)⟩
  have within := List.mem_range.mp member
  have present := covered ((off + index) / BSIZE) (by
    have := Nat.div_mul_le_self (off + index) BSIZE
    omega)
  exact (congrFun (view_data (loaded.isData present)) _).symm

end Xv6.Fs
