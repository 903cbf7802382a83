import Mathlib.Data.List.Chain
import Mathlib.Data.List.Pairwise
import Xv6.Umalloc.Heap

namespace Xv6.Umalloc

open Xv6.Data

/-! # The layout of a heap

A heap is a list of regions, one after the other from its start to the break: blocks that
are free, blocks that a caller of `malloc` has, and what somebody else got from `sbrk`.
Where a region lies follows from the regions before it.
-/

inductive Region where
  | free (units : Nat)
  | live (units : Nat)
  | other (bytes : Nat)
deriving DecidableEq, Repr

namespace Region

def length : Region → Nat
  | free units | live units => HEADER * units
  | other bytes => bytes

def isFree : Region → Bool
  | free _ => true
  | _ => false

/-- What the allocator has got from `sbrk`. -/
def isBlock : Region → Bool
  | other _ => false
  | _ => true

/-- Two free blocks are not neighbours. -/
def Apart (left right : Region) : Prop := ¬ (left.isFree ∧ right.isFree)

end Region

/-- The bytes of all regions. -/
def extent : List Region → Nat
  | [] => 0
  | region :: rest => region.length + extent rest

/-- The addresses of the free blocks, from a start on. -/
def frees : Nat → List Region → List Nat
  | _, [] => []
  | start, .free units :: rest => start :: frees (start + HEADER * units) rest
  | start, region :: rest => frees (start + region.length) rest

/-- The addresses and units of the blocks in use. -/
def lives : Nat → List Region → List (Nat × Nat)
  | _, [] => []
  | start, .live units :: rest => (start, units) :: lives (start + HEADER * units) rest
  | start, region :: rest => lives (start + region.length) rest

/-- The addresses of all blocks. -/
def headers : Nat → List Region → List Nat
  | _, [] => []
  | start, .other bytes :: rest => headers (start + bytes) rest
  | start, region :: rest => start :: headers (start + region.length) rest

/-- Each header has the size of its block. -/
def Sized (mem : Bytes) : Nat → List Region → Prop
  | _, [] => True
  | start, .free units :: rest | start, .live units :: rest =>
    size mem start = units ∧ Sized mem (start + HEADER * units) rest
  | start, .other bytes :: rest => Sized mem (start + bytes) rest

/-- The heap in memory: its free blocks are in a circular list with `base`. -/
structure Represents (base : Nat) (heap : Heap) (start : Nat) (regions : List Region) : Prop where
  nonnull : 0 < base
  below : base + HEADER ≤ start
  positive : ∀ region ∈ regions, 0 < region.length
  apart : regions.IsChain Region.Apart
  inside : start + extent regions < 2 ^ 64
  few : extent regions < HEADER * 2 ^ 32
  sized : Sized heap.mem start regions
  empty : size heap.mem base = 0
  ring : Path (ptr heap.mem) base (base :: frees start regions) base
  roving : heap.freep ∈ base :: frees start regions

variable {mem before after : Bytes} {start a units base : Nat} {region : Region}
  {regions front back : List Region}

/-! ## Regions -/

@[simp]
theorem frees_live : frees start (.live units :: regions) = frees (start + HEADER * units) regions := rfl

@[simp]
theorem lives_free : lives start (.free units :: regions) = lives (start + HEADER * units) regions := rfl

theorem extent_append : extent (front ++ back) = extent front + extent back := by
  induction front with
  | nil => exact (Nat.zero_add _).symm
  | cons region rest ih => rw [List.cons_append, extent, extent, ih, Nat.add_assoc]

theorem frees_append : frees start (front ++ back) = frees start front ++ frees (start + extent front) back := by
  induction front generalizing start with
  | nil => rfl
  | cons region rest ih => cases region <;> simp [frees, extent, Region.length, ih, Nat.add_assoc]

theorem lives_append : lives start (front ++ back) = lives start front ++ lives (start + extent front) back := by
  induction front generalizing start with
  | nil => rfl
  | cons region rest ih => cases region <;> simp [lives, extent, Region.length, ih, Nat.add_assoc]

theorem sized_append : Sized mem start (front ++ back) ↔
    Sized mem start front ∧ Sized mem (start + extent front) back := by
  induction front generalizing start with
  | nil => simp [Sized, extent]
  | cons region rest ih =>
    cases region <;> simp [Sized, extent, Region.length, ih, Nat.add_assoc, and_assoc]

theorem frees_split (member : a ∈ frees start regions) : ∃ front units back,
    regions = front ++ .free units :: back ∧ a = start + extent front := by
  induction regions generalizing start with
  | nil => cases member
  | cons region rest ih =>
    cases region with
    | free units =>
      rcases List.mem_cons.mp member with rfl | later
      · exact ⟨[], units, rest, rfl, rfl⟩
      · obtain ⟨front, units', back, rfl, rfl⟩ := ih later
        exact ⟨.free units :: front, units', back, rfl, by rw [extent, Region.length, Nat.add_assoc]⟩
    | live units =>
      obtain ⟨front, units', back, rfl, rfl⟩ := ih member
      exact ⟨.live units :: front, units', back, rfl, by rw [extent, Nat.add_assoc]⟩
    | other bytes =>
      obtain ⟨front, units', back, rfl, rfl⟩ := ih member
      exact ⟨.other bytes :: front, units', back, rfl, by rw [extent, Nat.add_assoc]⟩

theorem lives_split (member : (a, units) ∈ lives start regions) : ∃ front back,
    regions = front ++ .live units :: back ∧ a = start + extent front := by
  induction regions generalizing start with
  | nil => cases member
  | cons region rest ih =>
    cases region with
    | live other =>
      rcases List.mem_cons.mp member with same | later
      · cases same
        exact ⟨[], rest, rfl, rfl⟩
      · obtain ⟨front, back, rfl, rfl⟩ := ih later
        exact ⟨.live other :: front, back, rfl, by rw [extent, Region.length, Nat.add_assoc]⟩
    | free other =>
      obtain ⟨front, back, rfl, rfl⟩ := ih member
      exact ⟨.free other :: front, back, rfl, by rw [extent, Nat.add_assoc]⟩
    | other bytes =>
      obtain ⟨front, back, rfl, rfl⟩ := ih member
      exact ⟨.other bytes :: front, back, rfl, by rw [extent, Nat.add_assoc]⟩

theorem headers_append :
    headers start (front ++ back) = headers start front ++ headers (start + extent front) back := by
  induction front generalizing start with
  | nil => rfl
  | cons region rest ih => cases region <;> simp [headers, extent, Region.length, ih, Nat.add_assoc]

theorem frees_sublist (start : Nat) (regions : List Region) :
    (frees start regions).Sublist (headers start regions) := by
  induction regions generalizing start with
  | nil => exact List.Sublist.slnil
  | cons region rest ih =>
    cases region with
    | free units => exact (ih _).cons_cons _
    | live units => exact (ih _).cons _
    | other bytes => exact ih _

theorem headers_bounds (positive : ∀ region ∈ regions, 0 < region.length) (sized : Sized mem start regions)
    (member : a ∈ headers start regions) :
    start ≤ a ∧ 0 < size mem a ∧ a + HEADER * size mem a ≤ start + extent regions := by
  induction regions generalizing start with
  | nil => cases member
  | cons region rest ih =>
    obtain ⟨first, later⟩ := List.forall_mem_cons.mp positive
    cases region with
    | other bytes =>
      obtain ⟨lower, some, upper⟩ := ih later sized member
      rw [extent, Region.length]
      omega
    | free units | live units =>
      obtain ⟨here, sized⟩ := sized
      have first : 0 < HEADER * units := first
      simp only [extent, Region.length]
      rcases List.mem_cons.mp member with rfl | inRest
      · rw [here]
        exact ⟨Nat.le_refl _, Nat.pos_of_mul_pos_left first, by omega⟩
      · obtain ⟨lower, some, upper⟩ := ih later sized inRest
        omega

theorem headers_sorted (positive : ∀ region ∈ regions, 0 < region.length) (sized : Sized mem start regions) :
    (headers start regions).Pairwise fun a b => a + HEADER * size mem a ≤ b := by
  induction regions generalizing start with
  | nil => exact List.Pairwise.nil
  | cons region rest ih =>
    obtain ⟨_, later⟩ := List.forall_mem_cons.mp positive
    cases region with
    | other bytes => exact ih later sized
    | free units | live units =>
      refine List.Pairwise.cons (fun b member => ?_) (ih later sized.2)
      rw [sized.1]
      exact (headers_bounds later sized.2 member).1

theorem Sized.congr (sized : Sized before start regions)
    (same : ∀ a ∈ headers start regions, size after a = size before a) : Sized after start regions := by
  induction regions generalizing start with
  | nil => trivial
  | cons region rest ih =>
    cases region with
    | other bytes => exact ih sized same
    | free units | live units =>
      obtain ⟨here, later⟩ := List.forall_mem_cons.mp same
      exact ⟨here.trans sized.1, ih sized.2 later⟩

theorem lives_bounds (member : (a, units) ∈ lives start regions) :
    start ≤ a ∧ a + HEADER * units ≤ start + extent regions := by
  obtain ⟨front, back, rfl, rfl⟩ := lives_split member
  rw [extent_append, extent, Region.length]
  omega

theorem lives_sorted : (lives start regions).Pairwise fun left right => left.1 + HEADER * left.2 ≤ right.1 := by
  induction regions generalizing start with
  | nil => exact List.Pairwise.nil
  | cons region rest ih =>
    cases region with
    | live n => exact List.Pairwise.cons (fun block member => (lives_bounds member).1) ih
    | free n | other n => exact ih

theorem frees_outside (positive : ∀ region ∈ regions, 0 < region.length) (sized : Sized mem start regions)
    {q : Nat} (free : q ∈ frees start regions) (live : (a, units) ∈ lives start regions) :
    q + HEADER ≤ a ∨ a + HEADER * units ≤ q := by
  induction regions generalizing start with
  | nil => cases free
  | cons region rest ih =>
    obtain ⟨first, later⟩ := List.forall_mem_cons.mp positive
    cases region with
    | other bytes => exact ih later sized free live
    | free n =>
      rcases List.mem_cons.mp free with rfl | inRest
      · have bounds := lives_bounds (show (a, units) ∈ lives (q + HEADER * n) rest from live)
        have unit : HEADER * 1 ≤ HEADER * n := Nat.mul_le_mul_left HEADER (Nat.pos_of_mul_pos_left first)
        omega
      · exact ih later sized.2 inRest live
    | live n =>
      rcases List.mem_cons.mp live with same | inRest
      · cases same
        exact .inr (headers_bounds later sized.2 ((frees_sublist _ _).subset free)).1
      · exact ih later sized.2 free inRest

/-- What follows a region that is not free does not start with a free block at its end. -/
theorem frees_headD_ne (positive : ∀ region ∈ regions, 0 < region.length)
    (sized : Sized mem start regions) (taken : ∀ region ∈ regions.head?, region.isFree = false)
    (below : base < start) : (frees start regions).headD base ≠ start := by
  cases regions with
  | nil => exact Nat.ne_of_lt below
  | cons region rest =>
    obtain ⟨first, later⟩ := List.forall_mem_cons.mp positive
    have beyond : ∀ next, Sized mem next rest → start < next → (frees next rest).headD base ≠ start := by
      intro next sized above
      cases nodes : frees next rest with
      | nil => exact Nat.ne_of_lt below
      | cons a others =>
        have member : a ∈ frees next rest := by
          rw [nodes]
          exact List.mem_cons_self
        have bounds := headers_bounds later sized ((frees_sublist next rest).subset member)
        rw [List.headD_cons]
        omega
    cases region with
    | free units => cases taken (.free units) rfl
    | live units => exact beyond _ sized.2 (Nat.lt_add_of_pos_right first)
    | other bytes => exact beyond _ sized (Nat.lt_add_of_pos_right first)

/-! ## Represented heaps -/

variable {heap : Heap}

theorem Represents.sorted (represents : Represents base heap start regions) :
    (base :: headers start regions).Pairwise fun a b => a + HEADER ≤ b := by
  refine List.Pairwise.cons (fun b member => ?_) ?_
  · have bounds := headers_bounds represents.positive represents.sized member
    have below := represents.below
    omega
  · refine List.Pairwise.imp_of_mem (fun first _ order => ?_)
      (headers_sorted represents.positive represents.sized)
    have bounds := headers_bounds represents.positive represents.sized first
    have unit : HEADER * 1 ≤ HEADER * size heap.mem _ := Nat.mul_le_mul_left HEADER bounds.2.1
    omega

theorem Represents.congr (represents : Represents base heap start regions)
    (links : ∀ q ∈ base :: headers start regions, ptr mem q = ptr heap.mem q)
    (sizes : ∀ q ∈ base :: headers start regions, size mem q = size heap.mem q) :
    Represents base { heap with mem } start regions where
  nonnull := represents.nonnull
  below := represents.below
  positive := represents.positive
  apart := represents.apart
  inside := represents.inside
  few := represents.few
  sized := represents.sized.congr fun q member => sizes q (List.mem_cons_of_mem _ member)
  empty := (sizes base List.mem_cons_self).trans represents.empty
  ring := represents.ring.congr fun q member => links q (((frees_sublist _ _).cons_cons base).subset member)
  roving := represents.roving

theorem Represents.header_below (represents : Represents base heap start (front ++ back)) {q : Nat}
    (member : q ∈ base :: headers start front) : q + HEADER ≤ start + extent front := by
  have below := represents.below
  rcases List.mem_cons.mp member with rfl | header
  · omega
  · have bounds := headers_bounds
      (fun region inside => represents.positive region (List.mem_append_left _ inside))
      (sized_append.mp represents.sized).1 header
    have unit : HEADER * 1 ≤ HEADER * size heap.mem q := Nat.mul_le_mul_left HEADER bounds.2.1
    omega

theorem Represents.header_above (represents : Represents base heap start (front ++ back)) {q : Nat}
    (member : q ∈ headers (start + extent front) back) : start + extent front ≤ q :=
  (headers_bounds (fun region inside => represents.positive region (List.mem_append_right _ inside))
    (sized_append.mp represents.sized).2 member).1

section

variable {gap gap' : List Region} {node freep : Nat} {earlier : List Nat}

/-- The free blocks around some regions, and those in them. -/
theorem Represents.nodes (represents : Represents base heap start (front ++ (gap ++ back)))
    (last : base :: frees start front = earlier ++ [node]) :
    Path (ptr heap.mem) base (earlier ++ node ::
        (frees (start + extent front) gap ++ frees (start + extent front + extent gap) back)) base ∧
      (earlier ++ node :: (frees (start + extent front) gap ++
        frees (start + extent front + extent gap) back)).Pairwise fun a b => a + HEADER ≤ b := by
  have nodes : base :: frees start (front ++ (gap ++ back)) = earlier ++ node ::
      (frees (start + extent front) gap ++ frees (start + extent front + extent gap) back) := by
    rw [frees_append, frees_append, ← List.cons_append, last, List.append_assoc]
    rfl
  rw [← nodes]
  exact ⟨represents.ring, represents.sorted.sublist ((frees_sublist _ _).cons_cons _)⟩

/-- Regions in the middle become others of the same length, and what is before them in the
list leads through the new free blocks to what is behind them. -/
theorem Represents.replace (represents : Represents base heap start (front ++ (gap ++ back)))
    (length : extent gap' = extent gap) (positive : ∀ region ∈ gap', 0 < region.length)
    (apart : (front ++ (gap' ++ back)).IsChain Region.Apart)
    (sized : Sized mem (start + extent front) gap')
    (before : ∀ q ∈ base :: headers start front, size mem q = size heap.mem q)
    (after : ∀ q ∈ headers (start + extent front + extent gap) back,
      ptr mem q = ptr heap.mem q ∧ size mem q = size heap.mem q)
    (last : base :: frees start front = earlier ++ [node])
    (links : ∀ q ∈ earlier, ptr mem q = ptr heap.mem q)
    (bridge : Path (ptr mem) (ptr mem node) (frees (start + extent front) gap')
      ((frees (start + extent front + extent gap) back).headD base))
    (roving : freep ∈ base :: frees start (front ++ (gap' ++ back))) :
    Represents base ⟨mem, freep⟩ start (front ++ (gap' ++ back)) := by
  have total : extent (front ++ (gap' ++ back)) = extent (front ++ (gap ++ back)) := by
    simp only [extent_append, length]
  obtain ⟨sizedFront, sizedRest⟩ := sized_append.mp represents.sized
  refine ⟨represents.nonnull, represents.below, ?_, apart, total ▸ represents.inside,
    total ▸ represents.few, ?_, (before base List.mem_cons_self).trans represents.empty, ?_, roving⟩
  · intro region member
    rcases List.mem_append.mp member with inFront | inRest
    · exact represents.positive region (List.mem_append_left _ inFront)
    · rcases List.mem_append.mp inRest with inGap | inBack
      · exact positive region inGap
      · exact represents.positive region (List.mem_append_right _ (List.mem_append_right _ inBack))
  · refine sized_append.mpr ⟨sizedFront.congr fun q member => before q (List.mem_cons_of_mem _ member),
      sized_append.mpr ⟨sized, ?_⟩⟩
    rw [length]
    exact (sized_append.mp sizedRest).2.congr fun q member => (after q member).2
  · rw [frees_append, frees_append, length, ← List.cons_append, last, List.append_assoc]
    refine (represents.nodes last).1.splice (fun q member => ?_) bridge
    rcases List.mem_append.mp member with early | late
    · exact links q early
    · exact (after q ((frees_sublist _ _).subset late)).1

end

/-- A region that was not there before is a block. -/
theorem origin_replace {gap gap' : List Region} (blocks : ∀ region ∈ gap', region.isBlock = true) :
    ∀ region ∈ front ++ (gap' ++ back), region.isBlock = true ∨ region ∈ front ++ (gap ++ back) := by
  intro region member
  rcases List.mem_append.mp member with inFront | inRest
  · exact .inr (List.mem_append_left _ inFront)
  · rcases List.mem_append.mp inRest with inGap | inBack
    · exact .inl (blocks region inGap)
    · exact .inr (List.mem_append_right _ (List.mem_append_right _ inBack))

instance : Std.Symm Clear := ⟨fun _ _ => Or.symm⟩

theorem Represents.clear (represents : Represents base heap start regions) {q : Nat}
    (first : q ∈ base :: headers start regions) (second : a ∈ base :: headers start regions) (different : q ≠ a) :
    Clear q a := by
  have apart : (base :: headers start regions).Pairwise Clear := represents.sorted.imp Or.inl
  exact apart.forall first second different

/-- The bytes of these blocks are the same. -/
def Untouched (blocks : List (Nat × Nat)) (before after : Bytes) : Prop :=
  ∀ a units, (a, units) ∈ blocks → ∀ index, a ≤ index → index < a + HEADER * units → after index = before index

theorem Untouched.trans {blocks : List (Nat × Nat)} {first second third : Bytes}
    (left : Untouched blocks first second) (right : Untouched blocks second third) :
    Untouched blocks first third := fun a units member index lower upper =>
  (right a units member index lower upper).trans (left a units member index lower upper)

end Xv6.Umalloc
