import Xv6.Data.Ownership
import Xv6.Virtio.Disk

namespace Xv6.Virtio

open Xv6.Data

/-! # What the descriptor functions do -/

/-- A request under way: its buffer, its descriptors and its number. -/
structure Job where
  buffer : Nat
  idx : Fin 3 → Nat
  request : Nat

/-- The chain of a request, and the record of its buffer. -/
structure Linked (driver : Driver) (job : Job) : Prop where
  first : (driver.desc (job.idx 0)).flags &&& VRING_DESC_F_NEXT ≠ 0 ∧
    (driver.desc (job.idx 0)).next = job.idx 1
  second : (driver.desc (job.idx 1)).flags &&& VRING_DESC_F_NEXT ≠ 0 ∧
    (driver.desc (job.idx 1)).next = job.idx 2
  last : (driver.desc (job.idx 2)).flags &&& VRING_DESC_F_NEXT = 0 ∧
    (driver.desc (job.idx 2)).addr = .status (job.idx 0)
  recorded : (driver.info (job.idx 0)).buffer = some job.buffer

variable {driver : Driver} {job : Job}

theorem Linked.congr {driver' : Driver} (linked : Linked driver job)
    (desc : ∀ position, driver'.desc (job.idx position) = driver.desc (job.idx position))
    (info : (driver'.info (job.idx 0)).buffer = (driver.info (job.idx 0)).buffer) :
    Linked driver' job := by
  constructor
  · rw [desc 0]
    exact linked.first
  · rw [desc 1]
    exact linked.second
  · rw [desc 2]
    exact linked.last
  · rw [info]
    exact linked.recorded

/-! ## Allocation -/

theorem allocDesc_eq_some {index : Nat} {driver' : Driver}
    (allocated : allocDesc driver = some (index, driver')) :
    index < NUM ∧ driver.free index = true ∧
      driver' = { driver with free := overwrite driver.free index false } := by
  obtain ⟨_, found, taken⟩ := Option.map_eq_some_iff.mp allocated
  obtain ⟨rfl, rfl⟩ := Prod.mk.inj taken
  exact ⟨List.mem_range.mp (List.mem_of_find?_eq_some found),
    List.find?_some found, rfl⟩

theorem freeDesc_eq {index : Nat} (inside : index < NUM) (taken : driver.free index = false) :
    freeDesc driver index = .ok { driver with
      desc := overwrite driver.desc index ⟨.null, 0, 0⟩
      free := overwrite driver.free index true } := by
  rw [freeDesc, if_neg (Nat.not_le.mpr inside), if_neg (by rw [taken]; exact Bool.false_ne_true)]

/-- Three different free descriptors are marked as used. -/
structure Granted (driver : Driver) (idx : Fin 3 → Nat) (free : Nat → Bool) : Prop where
  below : ∀ position, idx position < NUM
  wereFree : ∀ position, driver.free (idx position) = true
  distinct : Function.Injective idx
  marked : ∀ index, free index = true ↔ driver.free index = true ∧ ∀ position, idx position ≠ index

/-- What `alloc3_desc` took it has given back. -/
structure Restored (driver : Driver) (desc : Nat → Desc) (free : Nat → Bool) : Prop where
  free : free = driver.free
  desc : ∀ index, driver.free index = false → desc index = driver.desc index

theorem overwrite_taken {free : Nat → Bool} {index : Nat} (wasFree : free index = true) :
    overwrite (overwrite free index false) index true = free := by
  rw [overwrite_eq_update, overwrite_eq_update, Function.update_idem, ← wasFree,
    Function.update_eq_self]

theorem free_after_taking {free : Nat → Bool} {taken index : Nat}
    (isFree : overwrite free taken false index = true) : index ≠ taken ∧ free index = true := by
  have different : index ≠ taken := by
    rintro rfl
    rw [overwrite_self] at isFree
    contradiction
  rw [overwrite_of_ne different] at isFree
  exact ⟨different, isFree⟩

theorem granted_three {first second third : Nat} (firstBelow : first < NUM)
    (secondBelow : second < NUM) (thirdBelow : third < NUM) (firstFree : driver.free first = true)
    (secondFree : overwrite driver.free first false second = true)
    (thirdFree : overwrite (overwrite driver.free first false) second false third = true) :
    Granted driver ![first, second, third]
      (overwrite (overwrite (overwrite driver.free first false) second false) third false) := by
  obtain ⟨secondNe, secondWas⟩ := free_after_taking secondFree
  obtain ⟨thirdNe, thirdRest⟩ := free_after_taking thirdFree
  obtain ⟨thirdNe', thirdWas⟩ := free_after_taking thirdRest
  constructor
  · simp [Fin.forall_fin_succ, firstBelow, secondBelow, thirdBelow]
  · simp [Fin.forall_fin_succ, firstFree, secondWas, thirdWas]
  · simp [Function.Injective, Fin.forall_fin_succ, secondNe, thirdNe, thirdNe', secondNe.symm,
      thirdNe.symm, thirdNe'.symm]
  · intro index
    have three : (∀ position, ![first, second, third] position ≠ index) ↔
        first ≠ index ∧ second ≠ index ∧ third ≠ index := by
      simp [Fin.forall_fin_succ]
    rw [three]
    unfold overwrite
    grind

theorem alloc3Desc_cases (driver : Driver) :
    (∃ idx free, alloc3Desc driver = .ok (some idx, { driver with free }) ∧
        Granted driver idx free) ∨
      ∃ desc free, alloc3Desc driver = .ok (none, { driver with desc, free }) ∧
        Restored driver desc free := by
  unfold alloc3Desc
  cases firstTaken : allocDesc driver with
  | none => exact .inr ⟨driver.desc, driver.free, rfl, rfl, fun _ _ => rfl⟩
  | some result =>
    obtain ⟨first, _⟩ := result
    obtain ⟨firstBelow, firstFree, rfl⟩ := allocDesc_eq_some firstTaken
    have outside : ∀ index, driver.free index = false → index ≠ first := by
      rintro index taken rfl
      simp [firstFree] at taken
    simp only
    cases secondTaken : allocDesc { driver with free := overwrite driver.free first false } with
    | none =>
      rw [freeDesc_eq firstBelow (overwrite_self _ _ _)]
      exact .inr ⟨_, _, rfl, overwrite_taken firstFree, fun index taken =>
        overwrite_of_ne (outside index taken)⟩
    | some result =>
      obtain ⟨second, _⟩ := result
      obtain ⟨secondBelow, secondFree, rfl⟩ := allocDesc_eq_some secondTaken
      obtain ⟨secondNe, secondWas⟩ := free_after_taking secondFree
      simp only
      cases thirdTaken : allocDesc { driver with
          free := overwrite (overwrite driver.free first false) second false } with
      | none =>
        have firstTaken : overwrite (overwrite driver.free first false) second false first =
            false := by
          rw [overwrite_of_ne secondNe.symm, overwrite_self]
        have secondTaken : overwrite (overwrite (overwrite driver.free first false) second false)
            first true second = false := by
          rw [overwrite_of_ne secondNe, overwrite_self]
        simp only
        rw [freeDesc_eq firstBelow firstTaken, ok_bind, freeDesc_eq secondBelow secondTaken]
        refine .inr ⟨_, _, rfl, ?_, fun index taken => ?_⟩
        · funext index
          unfold overwrite
          grind
        · have secondOutside : index ≠ second := by
            rintro rfl
            simp [secondWas] at taken
          exact (overwrite_of_ne secondOutside).trans (overwrite_of_ne (outside index taken))
      | some result =>
        obtain ⟨third, _⟩ := result
        obtain ⟨thirdBelow, thirdFree, rfl⟩ := allocDesc_eq_some thirdTaken
        exact .inl ⟨_, _, rfl, granted_three firstBelow secondBelow thirdBelow firstFree
          secondFree thirdFree⟩

/-! ## Formatting -/

section

variable {buffer : Nat} {write : Bool} {idx : Fin 3 → Nat}

theorem format_linked (distinct : Function.Injective idx) (request : Nat) :
    Linked (format driver buffer write idx) ⟨buffer, idx, request⟩ := by
  have firstSecond : idx 0 ≠ idx 1 := fun same => absurd (distinct same) (by decide)
  have firstLast : idx 0 ≠ idx 2 := fun same => absurd (distinct same) (by decide)
  have secondLast : idx 1 ≠ idx 2 := fun same => absurd (distinct same) (by decide)
  constructor
  · simp [format, firstSecond, firstLast, VRING_DESC_F_NEXT]
  · cases write <;> simp [format, secondLast, VRING_DESC_F_NEXT, VRING_DESC_F_WRITE]
  · simp [format, VRING_DESC_F_NEXT, VRING_DESC_F_WRITE]
  · simp [format]

theorem format_desc_other {index : Nat} (outside : ∀ position, idx position ≠ index) :
    (format driver buffer write idx).desc index = driver.desc index := by
  simp [format, (outside 0).symm, (outside 1).symm, (outside 2).symm]

theorem format_info_other {index : Nat} (outside : idx 0 ≠ index) :
    (format driver buffer write idx).info index = driver.info index := by
  simp [format, outside.symm]

end

/-! ## Release -/

/-- The descriptors are chained in this order, and the chain ends with them. -/
def Follows (desc : Nat → Desc) : List Nat → Prop
  | [] => True
  | [last] => (desc last).flags &&& VRING_DESC_F_NEXT = 0
  | index :: next :: rest => (desc index).flags &&& VRING_DESC_F_NEXT ≠ 0 ∧
      (desc index).next = next ∧ Follows desc (next :: rest)

theorem Follows.congr {desc desc' : Nat → Desc} {chain : List Nat} (follows : Follows desc chain)
    (same : ∀ index ∈ chain, desc' index = desc index) : Follows desc' chain := by
  induction chain with
  | nil => trivial
  | cons index rest ih =>
    cases rest with
    | nil =>
      rw [Follows, same index (List.mem_singleton_self index)]
      exact follows
    | cons next rest =>
      obtain ⟨flag, link, tail⟩ := follows
      rw [Follows, same index List.mem_cons_self]
      exact ⟨flag, link, ih tail fun other member => same other (List.mem_cons_of_mem _ member)⟩

/-- The descriptors of a chain are given back, and no others. -/
theorem freeChain_follows {fuel index : Nat} {rest : List Nat}
    (follows : Follows driver.desc (index :: rest)) (distinct : (index :: rest).Nodup)
    (below : ∀ other ∈ index :: rest, other < NUM)
    (taken : ∀ other ∈ index :: rest, driver.free other = false) (enough : rest.length < fuel) :
    ∃ desc free, freeChain fuel driver index = .ok { driver with desc, free } ∧
      (∀ other, free other = true ↔ driver.free other = true ∨ other ∈ index :: rest) ∧
      ∀ other, other ∉ index :: rest → desc other = driver.desc other := by
  induction rest generalizing driver index fuel with
  | nil =>
    obtain ⟨fuel, rfl⟩ := Nat.exists_eq_succ_of_ne_zero (Nat.ne_of_gt enough)
    have ends : (driver.desc index).flags &&& VRING_DESC_F_NEXT = 0 := follows
    rw [freeChain, freeDesc_eq (below index List.mem_cons_self) (taken index List.mem_cons_self),
      ok_bind, if_neg (not_not.mpr ends)]
    refine ⟨_, _, rfl, fun other => ?_, fun other outside => ?_⟩
    · rw [List.mem_singleton, overwrite]
      grind
    · exact overwrite_of_ne fun same => outside (List.mem_singleton.mpr same)
  | cons next rest ih =>
    obtain ⟨fuel, rfl⟩ := Nat.exists_eq_succ_of_ne_zero (Nat.ne_zero_of_lt enough)
    obtain ⟨flag, link, tail⟩ := follows
    have apart : ∀ other ∈ next :: rest, other ≠ index := by
      rintro other member rfl
      exact (List.nodup_cons.mp distinct).1 member
    rw [freeChain, freeDesc_eq (below index List.mem_cons_self) (taken index List.mem_cons_self),
      ok_bind, if_pos flag, link]
    -- What is left of the chain does not meet the descriptor that was freed.
    have stillFollows : Follows (overwrite driver.desc index ⟨.null, 0, 0⟩) (next :: rest) :=
      tail.congr fun other member => overwrite_of_ne (apart other member)
    have stillTaken : ∀ other ∈ next :: rest, overwrite driver.free index true other = false :=
      fun other member => (overwrite_of_ne (apart other member)).trans
        (taken other (List.mem_cons_of_mem _ member))
    let middle := { driver with
      desc := overwrite driver.desc index ⟨.null, 0, 0⟩
      free := overwrite driver.free index true }
    obtain ⟨desc, free, freed, marked, others⟩ := @ih middle fuel next stillFollows
      (List.nodup_cons.mp distinct).2
      (fun other member => below other (List.mem_cons_of_mem _ member)) stillTaken
      (Nat.lt_of_succ_lt_succ enough)
    refine ⟨desc, free, freed, fun other => ?_, fun other outside => ?_⟩
    · rw [marked other, List.mem_cons (a := other) (b := index), ← or_assoc]
      refine or_congr_left ?_
      show overwrite driver.free index true other = true ↔ _
      unfold overwrite
      grind
    · rw [List.mem_cons, not_or] at outside
      exact (others other outside.2).trans (overwrite_of_ne outside.1)

/-- The descriptors of a request, in the order of its chain. -/
def Job.chain (job : Job) : List Nat := [job.idx 0, job.idx 1, job.idx 2]

theorem Job.mem_chain {index : Nat} : index ∈ job.chain ↔ ∃ position, job.idx position = index := by
  simp [Job.chain, Fin.exists_fin_succ, eq_comm]

theorem Linked.follows (linked : Linked driver job) : Follows driver.desc job.chain :=
  ⟨linked.first.1, linked.first.2, linked.second.1, linked.second.2, linked.last.1⟩

theorem freeChain_job (job : Job) (follows : Follows driver.desc job.chain)
    (below : ∀ position, job.idx position < NUM)
    (taken : ∀ position, driver.free (job.idx position) = false)
    (distinct : Function.Injective job.idx) :
    ∃ desc free, freeChain (NUM + 1) driver (job.idx 0) = .ok { driver with desc, free } ∧
      (∀ index, free index = true ↔ driver.free index = true ∨ ∃ position, job.idx position = index) ∧
      ∀ index, (∀ position, job.idx position ≠ index) → desc index = driver.desc index := by
  have nodup : job.chain.Nodup := by
    simp [Job.chain, distinct.eq_iff]
  have chainBelow : ∀ other ∈ job.chain, other < NUM := by
    intro other member
    obtain ⟨position, rfl⟩ := Job.mem_chain.mp member
    exact below position
  have chainTaken : ∀ other ∈ job.chain, driver.free other = false := by
    intro other member
    obtain ⟨position, rfl⟩ := Job.mem_chain.mp member
    exact taken position
  have enough : [job.idx 1, job.idx 2].length < NUM + 1 := Nat.lt_of_sub_eq_succ rfl
  obtain ⟨desc, free, freed, marked, others⟩ :=
    freeChain_follows follows nodup chainBelow chainTaken enough
  refine ⟨desc, free, freed, fun index => ?_, fun index outside => others index fun member => ?_⟩
  · rw [marked index]
    exact or_congr_right Job.mem_chain
  · obtain ⟨position, same⟩ := Job.mem_chain.mp member
    exact outside position same

end Xv6.Virtio
