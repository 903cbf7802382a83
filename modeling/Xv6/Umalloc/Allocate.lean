import Mathlib.Data.List.Nodup
import Xv6.Umalloc.Release

namespace Xv6.Umalloc

open Xv6.Data

/-! # malloc

The loop goes around the free list once; when no block is large enough it asks for more, and
the second time around it finds a block.
-/

variable {mem : Bytes} {heap heap' : Heap} {base start n k p prevp fuel : Nat}
  {pre post regions regions' : List Region}

/-! ## Taking a block -/

/-- What `malloc` leaves behind, with a new block of `n` units at `a`. -/
structure Taken (base : Nat) (heap : Heap) (start : Nat) (regions : List Region) (n a : Nat) (heap' : Heap)
    (regions' : List Region) : Prop where
  represents : Represents base heap' start regions'
  extent : extent regions' = extent regions
  lives : (lives start regions').Perm ((a, n) :: lives start regions)
  origin : ∀ region ∈ regions', region.isBlock = true ∨ region ∈ regions
  untouched : Untouched (Umalloc.lives start regions) heap.mem heap'.mem

/-- The free block before another one in the list is the one before it in memory. -/
theorem Represents.previous (represents : Represents base heap start (pre ++ .free k :: post))
    (member : prevp ∈ base :: frees start (pre ++ .free k :: post))
    (linked : ptr heap.mem prevp = start + extent pre) :
    ∃ earlier, base :: frees start pre = earlier ++ [prevp] := by
  have ring := represents.ring
  have distinct : (base :: frees start (pre ++ .free k :: post)).Nodup := by
    refine (represents.sorted.sublist ((frees_sublist _ _).cons_cons _)).imp fun order => ?_
    rw [HEADER] at order
    omega
  have below := represents.below
  rw [HEADER] at below
  obtain ⟨front, back, split⟩ := List.append_of_mem member
  rw [split] at ring
  have next := ring.cut.2.start_eq
  rw [linked] at next
  cases back with
  | nil =>
    rw [List.headD_nil] at next
    omega
  | cons q rest =>
    rw [List.headD_cons] at next
    subst next
    refine ⟨front, ?_⟩
    rw [frees_append, frees, ← List.cons_append] at split distinct
    have unique := (List.append_cons_inj_of_notMem
      (List.disjoint_right.mp (List.disjoint_of_nodup_append distinct) List.mem_cons_self)
      (List.nodup_cons.mp (List.nodup_append.mp distinct).2.1).1).mp
      (split.trans (List.append_cons front prevp _))
    exact unique.1

theorem Represents.outside (represents : Represents base heap start regions)
    (member : p ∈ base :: frees start regions) {a units : Nat} (live : (a, units) ∈ lives start regions) :
    p + HEADER ≤ a ∨ a + HEADER * units ≤ p := by
  rcases List.mem_cons.mp member with rfl | free
  · exact .inl (Nat.le_trans represents.below (lives_bounds live).1)
  · exact frees_outside represents.positive represents.sized free live

theorem Represents.header (represents : Represents base heap start regions) (member : p ∈ base :: frees start regions)
    {q : Nat} (other : q ∈ base :: headers start regions) : q = p ∨ Clear q p := by
  by_cases same : q = p
  · exact .inl same
  · exact .inr (represents.clear other (((frees_sublist start regions).cons_cons base).subset member) same)

theorem isChain_live (apart : (pre ++ Region.free k :: post).IsChain Region.Apart) (units : Nat) :
    (pre ++ .live units :: post).IsChain Region.Apart := by
  obtain ⟨first, second, _⟩ := List.isChain_append.mp apart
  refine List.isChain_append.mpr ⟨first, isChain_head second nofun, fun left _ right rightmost both => ?_⟩
  cases rightmost
  exact Bool.false_ne_true both.2

theorem take_whole (represents : Represents base heap start (pre ++ .free k :: post))
    (member : prevp ∈ base :: frees start (pre ++ .free k :: post))
    (linked : ptr heap.mem prevp = start + extent pre) :
    Taken base heap start (pre ++ .free k :: post) k (start + extent pre)
      ⟨setPtr heap.mem prevp (ptr heap.mem (start + extent pre)), prevp⟩ (pre ++ ([.live k] ++ post)) := by
  obtain ⟨earlier, last⟩ := represents.previous member linked
  rw [show Region.free k :: post = [.free k] ++ post from rfl] at represents member ⊢
  obtain ⟨ring, sorted⟩ := represents.nodes last
  obtain ⟨_, behind, before⟩ := List.pairwise_append.mp sorted
  have positive : 0 < Region.length (.free k) := represents.positive (.free k) (by simp)
  have sizes : ∀ q ∈ base :: headers start (pre ++ ([.free k] ++ post)),
      size (setPtr heap.mem prevp (ptr heap.mem (start + extent pre))) q = size heap.mem q :=
    fun q other => size_setPtr (represents.header member other)
  rw [headers_append, headers_append, ← List.cons_append] at sizes
  have above : ∀ q ∈ headers (start + extent pre + extent [.free k]) post, Clear q prevp := by
    intro q inside
    have low := represents.header_below (((frees_sublist start pre).cons_cons base).subset
      (show prevp ∈ base :: frees start pre from last ▸ by simp))
    rw [← List.append_assoc] at represents
    have high := represents.header_above (q := q) (by rwa [extent_append, ← Nat.add_assoc])
    rw [extent_append] at high
    exact .inr (by omega)
  refine ⟨represents.replace rfl ?_ (isChain_live represents.apart k) ⟨?_, trivial⟩ ?_ ?_ last ?_ ?_ ?_,
    ?_, ?_, origin_replace (by simp [Region.isBlock]), ?_⟩
  · simpa [Region.length] using positive
  · exact (sizes _ (by simp [headers])).trans (sized_append.mp represents.sized).2.1
  · exact fun q inside => sizes q (List.mem_append_left _ inside)
  · exact fun q inside => ⟨ptr_setPtr_clear (above q inside),
      sizes q (List.mem_append_right _ (List.mem_append_right _ inside))⟩
  · exact fun q inside => ptr_setPtr_clear (.inl (before q inside prevp List.mem_cons_self))
  · rw [ptr_setPtr (ptr_lt _ _)]
    exact ring.cut.2.2.start_eq
  · rw [frees_append, ← List.cons_append, last]
    simp
  · simp only [extent_append, extent, Region.length]
  · simp only [lives_append]
    exact List.perm_middle
  · intro a units live index lower upper
    refine within_setPtr _ _ _ index fun header inside => ?_
    rw [List.mem_singleton.mp inside]
    have outside := represents.outside member live
    omega

theorem take_tail (represents : Represents base heap start (pre ++ .free k :: post))
    (member : prevp ∈ base :: frees start (pre ++ .free k :: post)) (some : 0 < n) (less : n < k) :
    Taken base heap start (pre ++ .free k :: post) n (start + extent pre + HEADER * (k - n))
      ⟨setSize (setSize heap.mem (start + extent pre) (k - n)) (start + extent pre + HEADER * (k - n)) n, prevp⟩
      (pre ++ ([.free (k - n), .live n] ++ post)) := by
  have sum : HEADER * k = HEADER * (k - n) + HEADER * n := by
    rw [← Nat.mul_add, Nat.sub_add_cancel (Nat.le_of_lt less)]
  have rest : HEADER ≤ HEADER * (k - n) := Nat.le_mul_of_pos_right HEADER (Nat.sub_pos_of_lt less)
  have unit : HEADER ≤ HEADER * n := Nat.le_mul_of_pos_right HEADER some
  have length : extent [.free (k - n), .live n] = HEADER * k := by
    simp only [extent, Region.length, sum, Nat.add_zero]
  have few := represents.few
  rw [extent_append, extent, Region.length, HEADER] at few
  have first := represents.apart
  rw [List.append_cons] at first
  have live := (List.isChain_append.mp (isChain_live represents.apart n)).2.1
  rw [show Region.free k :: post = [.free k] ++ post from rfl] at represents member ⊢
  obtain ⟨earlier, node, last⟩ := exists_last base start pre
  obtain ⟨ring, sorted⟩ := represents.nodes last
  -- both writes are in the block that was free
  have within : ∀ q, q + HEADER ≤ start + extent pre ∨ start + extent pre + HEADER * k ≤ q →
      ptr (setSize (setSize heap.mem (start + extent pre) (k - n))
        (start + extent pre + HEADER * (k - n)) n) q = ptr heap.mem q ∧
      size (setSize (setSize heap.mem (start + extent pre) (k - n))
        (start + extent pre + HEADER * (k - n)) n) q = size heap.mem q := by
    intro q outside
    have high : Clear q (start + extent pre + HEADER * (k - n)) := by
      rw [Clear]
      omega
    have low : Clear q (start + extent pre) := by
      rw [Clear]
      omega
    rw [ptr_setSize (.inr high), ptr_setSize (.inr low), size_setSize_clear high, size_setSize_clear low]
    exact ⟨rfl, rfl⟩
  have before : ∀ q ∈ base :: headers start pre, q + HEADER ≤ start + extent pre :=
    fun q inside => represents.header_below inside
  have inFront : ∀ q ∈ earlier ++ [node], q ∈ base :: headers start pre := by
    rw [← last]
    exact fun q inside => ((frees_sublist start pre).cons_cons base).subset inside
  have nodes : frees start (pre ++ ([.free (k - n), .live n] ++ post)) =
      frees start (pre ++ ([.free k] ++ post)) := by
    simp only [frees_append, length]
    rfl
  refine ⟨represents.replace length ?_ ?_ ⟨?_, ?_, trivial⟩ (fun q inside => (within q (.inl (before q inside))).2)
    (fun q inside => within q (.inr ?_)) last
    (fun q inside => (within q (.inl (before q (inFront q (List.mem_append_left _ inside))))).1) ?_ (nodes ▸ member),
    ?_, ?_, origin_replace (by simp [Region.isBlock]), ?_⟩
  · simp only [List.forall_mem_cons, Region.length]
    exact ⟨Nat.lt_of_lt_of_le (by decide) rest, Nat.lt_of_lt_of_le (by decide) unit, by simp⟩
  · exact isChain_units (List.isChain_append.mp first).1
      (List.IsChain.cons_cons (a := .free k) (fun both => Bool.false_ne_true both.2) live) _
  · rw [size_setSize_clear (.inl (by omega)), size_setSize (by omega)]
  · rw [size_setSize (by omega)]
  · rw [← List.append_assoc] at represents
    have high := represents.header_above (q := q) (by rwa [extent_append, ← Nat.add_assoc])
    rw [extent_append, extent, extent, Region.length] at high
    omega
  · rw [(within node (.inl (before node (inFront node (by simp))))).1]
    refine ⟨ring.cut.2.1, ?_⟩
    rw [ptr_setSize (.inr (.inl (by omega))), ptr_setSize (.inl rfl)]
    exact ring.cut.2.2.start_eq
  · simp only [extent_append, length]
    simp [extent, Region.length]
  · simp only [lives_append, length]
    exact List.perm_middle
  · intro a units live index lower upper
    rw [lives_append] at live
    have away : a + HEADER * units ≤ start + extent pre ∨ start + extent pre + HEADER * k ≤ a :=
      (List.mem_append.mp live).imp (fun inPre => (lives_bounds inPre).2) fun inPost => (lives_bounds inPost).1
    have second := within_setSize (setSize heap.mem (start + extent pre) (k - n))
      (start + extent pre + HEADER * (k - n)) n index fun header inside => by
        rw [List.mem_singleton.mp inside]
        omega
    have first := within_setSize heap.mem (start + extent pre) (k - n) index fun header inside => by
      rw [List.mem_singleton.mp inside]
      omega
    exact second.trans first

theorem take_spec (represents : Represents base heap start regions)
    (member : prevp ∈ base :: frees start regions) (next : p ∈ frees start regions)
    (linked : ptr heap.mem prevp = p) (some : 0 < n) (enough : n ≤ size heap.mem p) :
    ∃ a regions', (take heap.mem n prevp p).1 = a + HEADER ∧
      Taken base heap start regions n a (take heap.mem n prevp p).2 regions' := by
  obtain ⟨pre, k, post, rfl, rfl⟩ := frees_split next
  have here := (sized_append.mp represents.sized).2.1
  have few := represents.few
  rw [extent_append, extent, Region.length, HEADER] at few
  rw [here] at enough
  rw [take, here]
  rcases Nat.eq_or_lt_of_le enough with rfl | less
  · rw [if_pos rfl]
    exact ⟨_, _, rfl, take_whole represents member linked⟩
  · rw [if_neg (by omega)]
    dsimp only
    rw [size_setSize (by omega)]
    exact ⟨_, _, rfl, take_tail represents member some less⟩

/-! ## The loop -/

section

variable {World : Type} {sbrk : World → BitVec 32 → Option (Nat × World)} {world : World}
  {q stop : Nat} {skipped back : List Nat}

/-- The loop of `malloc` takes the first block on its way that is large enough. -/
theorem mallocLoop_found (path : Path (ptr heap.mem) p (skipped ++ q :: back) stop)
    (linked : ptr heap.mem prevp = p)
    (small : ∀ node ∈ skipped, size heap.mem node < n ∧ node ≠ heap.freep) (large : n ≤ size heap.mem q)
    (enough : skipped.length < fuel) : ∃ prev ∈ prevp :: skipped, ptr heap.mem prev = q ∧
      mallocLoop sbrk n fuel heap world prevp p =
        some ((take heap.mem n prev q).1, (take heap.mem n prev q).2, world) := by
  induction skipped generalizing prevp p fuel with
  | nil =>
    obtain ⟨rfl, _⟩ := path
    obtain ⟨fuel, rfl⟩ := Nat.exists_eq_succ_of_ne_zero (Nat.ne_of_gt enough)
    refine ⟨prevp, List.mem_cons_self, linked, ?_⟩
    rw [mallocLoop, if_pos large]
  | cons node rest ih =>
    obtain ⟨rfl, path⟩ := path
    obtain ⟨⟨less, other⟩, later⟩ := List.forall_mem_cons.mp small
    obtain ⟨fuel, rfl⟩ := Nat.exists_eq_succ_of_ne_zero (Nat.ne_of_gt (Nat.lt_of_le_of_lt (Nat.zero_le _) enough))
    obtain ⟨prev, member, before, ran⟩ := ih path rfl later (Nat.lt_of_succ_lt_succ enough)
    refine ⟨prev, List.mem_cons_of_mem _ member, before, ?_⟩
    rw [mallocLoop, if_neg (Nat.not_le_of_lt less), if_neg other]
    exact ran

/-- What the loop does when it is back at `freep`. -/
def more (sbrk : World → BitVec 32 → Option (Nat × World)) (n fuel : Nat) (heap : Heap) (world : World) :
    Option (Nat × Heap × World) := do
  let (p, heap, world) ← morecore sbrk heap world fuel n
  if p = 0 then
    some (0, heap, world)
  else
    mallocLoop sbrk n fuel heap world p (ptr heap.mem p)

theorem mallocLoop_around (path : Path (ptr heap.mem) p (skipped ++ heap.freep :: back) stop)
    (small : ∀ node ∈ skipped, size heap.mem node < n ∧ node ≠ heap.freep) (last : size heap.mem heap.freep < n) :
    mallocLoop sbrk n (skipped.length + 1 + fuel) heap world prevp p = more sbrk n fuel heap world := by
  induction skipped generalizing prevp p with
  | nil =>
    obtain ⟨rfl, _⟩ := path
    rw [List.length_nil, Nat.zero_add, Nat.add_comm, mallocLoop, if_neg (Nat.not_le_of_lt last), if_pos rfl]
    rfl
  | cons node rest ih =>
    obtain ⟨rfl, path⟩ := path
    obtain ⟨⟨less, other⟩, later⟩ := List.forall_mem_cons.mp small
    have count : (p :: rest).length + 1 + fuel = rest.length + 1 + fuel + 1 := by
      rw [List.length_cons]
      omega
    rw [count, mallocLoop, if_neg (Nat.not_le_of_lt less), if_neg other]
    exact ih path later

/-- The free list from `freep` on, back to `freep`. -/
theorem Represents.around (represents : Represents base heap start regions) :
    ∃ others, Path (ptr heap.mem) (ptr heap.mem heap.freep) (others ++ [heap.freep]) (ptr heap.mem heap.freep) ∧
      heap.freep ∉ others ∧ others.length = (frees start regions).length ∧
      ∀ node, node ∈ others ++ [heap.freep] ↔ node ∈ base :: frees start regions := by
  have ring := represents.ring
  have distinct : (base :: frees start regions).Nodup := by
    refine (represents.sorted.sublist ((frees_sublist _ _).cons_cons _)).imp fun order => ?_
    rw [HEADER] at order
    omega
  obtain ⟨front, back, split⟩ := List.append_of_mem represents.roving
  have length := congrArg List.length split
  rw [split] at ring distinct
  refine ⟨back ++ front, ?_, ?_, ?_, ?_⟩
  · exact Path.join ring.rotate.2 rfl
  · have fresh := (List.nodup_middle.mp distinct)
    rw [List.nodup_cons, List.mem_append] at fresh
    rw [List.mem_append]
    tauto
  · simp only [List.length_append, List.length_cons] at length ⊢
    omega
  · intro node
    rw [split]
    simp only [List.mem_append, List.mem_cons, List.not_mem_nil]
    tauto

/-- When a block is large enough, the loop takes one before it is back at `freep`. -/
theorem mallocLoop_once (represents : Represents base heap start regions) (positive : 0 < n)
    (found : ∃ node ∈ frees start regions, n ≤ size heap.mem node) (enough : (frees start regions).length < fuel) :
    ∃ a heap' regions', mallocLoop sbrk n fuel heap world heap.freep (ptr heap.mem heap.freep) =
        some (a + HEADER, heap', world) ∧ Taken base heap start regions n a heap' regions' := by
  obtain ⟨others, path, fresh, length, same⟩ := represents.around
  obtain ⟨node, member, large⟩ := found
  have first : ((others ++ [heap.freep]).find? fun node => n ≤ size heap.mem node).isSome := by
    rw [List.find?_isSome]
    exact ⟨node, (same node).mpr (List.mem_cons_of_mem _ member), decide_eq_true large⟩
  obtain ⟨q, first⟩ := Option.isSome_iff_exists.mp first
  obtain ⟨large, skipped, back, split, small⟩ := List.find?_eq_some_iff_append.mp first
  have large : n ≤ size heap.mem q := of_decide_eq_true large
  have count : others.length + 1 = skipped.length + (back.length + 1) := by
    simpa using congrArg List.length split
  have early : skipped ⊆ others := by
    refine (List.prefix_of_prefix_length_le ?_ (List.prefix_append others [heap.freep]) (by omega)).subset
    rw [split]
    exact List.prefix_append _ _
  have inRing : q ∈ base :: frees start regions := by
    rw [← same, split]
    simp
  have free : q ∈ frees start regions := by
    refine (List.mem_cons.mp inRing).resolve_left ?_
    rintro rfl
    rw [represents.empty] at large
    omega
  rw [split] at path
  have passed : ∀ node ∈ skipped, size heap.mem node < n ∧ node ≠ heap.freep := by
    intro node inside
    refine ⟨by simpa using small node inside, ?_⟩
    rintro rfl
    exact fresh (early inside)
  have fewer : skipped.length < fuel := by omega
  obtain ⟨prev, before, linked, ran⟩ :=
    @mallocLoop_found heap n _ _ fuel World sbrk world q _ skipped back path rfl passed large fewer
  have known : prev ∈ base :: frees start regions := by
    rcases List.mem_cons.mp before with rfl | inside
    · exact represents.roving
    · exact (same prev).mp (List.mem_append_left _ (early inside))
  obtain ⟨a, regions', address, taken⟩ := take_spec represents known free linked positive large
  exact ⟨a, _, regions', address ▸ ran, taken⟩

/-! ## More memory -/

/-- `sbrk` fails and leaves the break, or gives so many bytes at the break. -/
def Grants (sbrk : World → BitVec 32 → Option (Nat × World)) (brk : World → Nat) (world : World) (bytes : Nat) :
    Prop :=
  ∃ world', sbrk world (BitVec.ofNat 32 bytes) = some (failed, world') ∧ brk world' = brk world ∨
    sbrk world (BitVec.ofNat 32 bytes) = some (brk world, world') ∧ brk world' = brk world + bytes ∧
      brk world + bytes < failed

/-- New memory is a block in use until `morecore` frees it. -/
theorem Represents.grow (represents : Represents base heap start regions) {units : Nat} (positive : 0 < units)
    (inside : start + extent regions + HEADER * units < 2 ^ 64)
    (few : extent regions + HEADER * units < HEADER * 2 ^ 32) :
    Represents base { heap with mem := setSize heap.mem (start + extent regions) units } start
      (regions ++ [.live units]) := by
  have total : extent (regions ++ [.live units]) = extent regions + HEADER * units := by
    rw [extent_append, extent, extent, Region.length, Nat.add_zero]
  have nodes : frees start (regions ++ [.live units]) = frees start regions := by
    rw [frees_append, frees_live, frees, List.append_nil]
  have clear : ∀ q ∈ base :: headers start regions, Clear q (start + extent regions) := by
    intro q member
    rcases List.mem_cons.mp member with rfl | header
    · exact .inl (Nat.le_trans represents.below (Nat.le_add_right _ _))
    · have bounds := headers_bounds represents.positive represents.sized header
      have one : HEADER * 1 ≤ HEADER * size heap.mem q := Nat.mul_le_mul_left HEADER bounds.2.1
      exact .inl (by omega)
  refine ⟨represents.nonnull, represents.below, ?_, ?_, ?_, ?_, ?_, ?_, ?_, ?_⟩
  · intro region member
    rcases List.mem_append.mp member with old | new
    · exact represents.positive region old
    · rw [List.mem_singleton.mp new]
      exact Nat.mul_pos (by decide) positive
  · refine List.isChain_append.mpr ⟨represents.apart, List.IsChain.singleton _, fun left _ right rightmost both => ?_⟩
    cases rightmost
    exact Bool.false_ne_true both.2
  · rw [total]
    omega
  · rw [total]
    exact few
  · refine sized_append.mpr ⟨represents.sized.congr fun q member =>
      size_setSize_clear (clear q (List.mem_cons_of_mem _ member)), size_setSize ?_, trivial⟩
    rw [HEADER] at few
    omega
  · exact (size_setSize_clear (clear base List.mem_cons_self)).trans represents.empty
  · rw [nodes]
    exact represents.ring.congr fun q member =>
      ptr_setSize (.inr (clear q (((frees_sublist _ _).cons_cons base).subset member)))
  · rw [nodes]
    exact represents.roving

theorem Represents.freep_pos (represents : Represents base heap start regions) : 0 < heap.freep := by
  have nonnull := represents.nonnull
  rcases List.mem_cons.mp represents.roving with same | free
  · rw [same]
    exact nonnull
  · have bounds := headers_bounds represents.positive represents.sized ((frees_sublist _ _).subset free)
    have below := represents.below
    omega

theorem free_size (represents : Represents base heap start regions) {units : Nat} (member : .free units ∈ regions) :
    ∃ node ∈ frees start regions, size heap.mem node = units := by
  obtain ⟨front, back, rfl⟩ := List.append_of_mem member
  refine ⟨start + extent front, ?_, (sized_append.mp represents.sized).2.1⟩
  rw [frees_append]
  simp [frees]

variable {brk : World → Nat}

theorem more_spec (represents : Represents base heap start regions) (positive : 0 < n)
    (ends : brk world = start + extent regions)
    (few : extent regions + HEADER * max n 4096 < HEADER * 2 ^ 32)
    (grants : Grants sbrk brk world (HEADER * max n 4096)) (enough : (frees start regions).length + 2 ≤ fuel) :
    ∃ world', (∃ answer, sbrk world (BitVec.ofNat 32 (HEADER * max n 4096)) = some (answer, world')) ∧
      (more sbrk n fuel heap world = some (0, heap, world') ∧ brk world' = brk world ∧
        sbrk world (BitVec.ofNat 32 (HEADER * max n 4096)) = some (failed, world') ∨
      ∃ a heap' regions', more sbrk n fuel heap world = some (a + HEADER, heap', world') ∧
        Represents base heap' start regions' ∧ brk world' = start + extent regions' ∧
        extent regions ≤ extent regions' ∧ (lives start regions').Perm ((a, n) :: lives start regions) ∧
        Untouched (lives start regions) heap.mem heap'.mem ∧
        ∀ region ∈ regions', region.isBlock = true ∨ region ∈ regions) := by
  obtain ⟨world', answered⟩ := grants
  have units : (if n < 4096 then 4096 else n) = max n 4096 := by
    split <;> omega
  have bytes : max n 4096 * HEADER = HEADER * max n 4096 := Nat.mul_comm _ _
  refine ⟨world', ?_, ?_⟩
  · rcases answered with ⟨answer, _⟩ | ⟨answer, _⟩ <;> exact ⟨_, answer⟩
  rcases answered with ⟨refused, same⟩ | ⟨granted, moved, inside⟩
  · refine .inl ⟨?_, same, refused⟩
    simp only [more, morecore, units, bytes, refused]
    rfl
  · right
    rw [ends] at inside
    have size : 0 < max n 4096 := Nat.lt_of_lt_of_le positive (Nat.le_max_left _ _)
    have grown := represents.grow size (Nat.lt_of_lt_of_le inside (Nat.sub_le _ _)) few
    have count : (frees start (regions ++ [.live (max n 4096)])).length = (frees start regions).length := by
      rw [frees_append, frees_live, frees, List.append_nil]
    obtain ⟨heap₁, regions₁, ran, released⟩ := @free_spec _ base start (max n 4096) fuel regions [] grown (by omega)
    obtain ⟨m, large, member⟩ := released.block
    obtain ⟨node, free, sized⟩ := free_size released.represents member
    have fewer := released.count
    obtain ⟨a, heap', regions', took, taken⟩ := @mallocLoop_once heap₁ base start n fuel regions₁ World sbrk world'
      released.represents positive ⟨node, free, by rw [sized]; omega⟩ (by omega)
    have kept : lives start regions₁ = lives start regions := by
      rw [released.lives]
      exact List.append_nil _
    have total := released.extent
    rw [extent_append, extent, extent, Region.length, Nat.add_zero] at total
    refine ⟨a, heap', regions', ?_, taken.represents, ?_, ?_, ?_, ?_, ?_⟩
    · have address : ¬ (start + extent regions = failed) := by omega
      simp only [more, morecore, units, bytes, granted, ends]
      simp only [Option.bind_eq_bind, Option.bind_some, if_neg address, ran,
        if_neg (Nat.ne_of_gt released.represents.freep_pos)]
      exact took
    · rw [moved, ends, taken.extent, total, Nat.add_assoc]
    · rw [taken.extent, total]
      exact Nat.le_add_right _ _
    · rw [← kept]
      exact taken.lives
    · have fresh : Untouched (lives start regions) heap.mem
          (setSize heap.mem (start + extent regions) (max n 4096)) := by
        intro b units live index lower upper
        refine within_setSize _ _ _ index fun header inside => ?_
        rw [List.mem_singleton.mp inside]
        have bounds := lives_bounds live
        omega
      have after := released.untouched grown
      have last := taken.untouched
      rw [kept] at after last
      exact (fresh.trans after).trans last
    · intro region member
      rcases taken.origin region member with block | old
      · exact .inl block
      · rcases released.origin region old with block | older
        · exact .inl block
        · rcases List.mem_append.mp older with given | new
          · exact .inr given
          · rw [List.mem_singleton.mp new]
            exact .inl rfl

/-! ## A call -/

/-- Before the first call there is no free list, and no block. -/
structure Fresh (base : Nat) (heap : Heap) (start : Nat) (regions : List Region) : Prop where
  idle : heap.freep = 0
  nonnull : 0 < base
  below : base + HEADER ≤ start
  others : ∀ region ∈ regions, ∃ bytes, region = .other bytes ∧ 0 < bytes
  inside : start + extent regions < 2 ^ 64
  few : extent regions < HEADER * 2 ^ 32

theorem frees_others (others : ∀ region ∈ regions, ∃ bytes, region = .other bytes ∧ 0 < bytes) :
    frees start regions = [] ∧ lives start regions = [] ∧ Sized mem start regions ∧
      regions.IsChain Region.Apart := by
  induction regions generalizing start with
  | nil => exact ⟨rfl, rfl, trivial, List.IsChain.nil⟩
  | cons region rest ih =>
    obtain ⟨⟨bytes, rfl, _⟩, later⟩ := List.forall_mem_cons.mp others
    obtain ⟨free, live, sized, apart⟩ := @ih (start + bytes) later
    refine ⟨free, live, sized, ?_⟩
    cases rest with
    | nil => exact List.IsChain.singleton _
    | cons next more => exact List.IsChain.cons_cons (fun both => Bool.false_ne_true both.1) apart

/-- The first call of `malloc` makes the list of `base` alone. -/
theorem Fresh.begun (fresh : Fresh base heap start regions) : Represents base (heap.start base) start regions := by
  have below := fresh.below
  have inside := fresh.inside
  have begun : heap.start base = ⟨setSize (setPtr heap.mem base base) base 0, base⟩ := if_pos fresh.idle
  obtain ⟨free, _, sized, apart⟩ := @frees_others (heap.start base).mem start regions fresh.others
  refine ⟨fresh.nonnull, below, ?_, apart, inside, fresh.few, sized, ?_, ?_, ?_⟩
  · intro region member
    obtain ⟨bytes, rfl, positive⟩ := fresh.others region member
    exact positive
  · rw [begun, size_setSize (by decide)]
  · rw [free, begun]
    refine ⟨rfl, ?_⟩
    rw [ptr_setSize (.inl rfl), ptr_setPtr (by omega)]
    rfl
  · rw [begun]
    exact List.mem_cons_self

theorem Represents.begun (represents : Represents base heap start regions) : heap.start base = heap :=
  if_neg (Nat.ne_of_gt represents.freep_pos)

/-- A heap before or after its first call. -/
def Ready (base : Nat) (heap : Heap) (start : Nat) (regions : List Region) : Prop :=
  Fresh base heap start regions ∨ Represents base heap start regions

theorem frees_length (positive : ∀ region ∈ regions, 0 < region.length) :
    HEADER * (frees start regions).length ≤ extent regions := by
  induction regions generalizing start with
  | nil => exact Nat.zero_le _
  | cons region rest ih =>
    obtain ⟨first, later⟩ := List.forall_mem_cons.mp positive
    rw [extent]
    cases region with
    | free units =>
      have next := @ih (start + HEADER * units) later
      have unit : HEADER * 1 ≤ HEADER * units := Nat.mul_le_mul_left HEADER (Nat.pos_of_mul_pos_left first)
      rw [frees, List.length_cons, Region.length, Nat.mul_succ]
      omega
    | live units | other bytes => exact Nat.le_trans (ih later) (Nat.le_add_left _ _)

/-- The heap has a byte for each round of the loops. -/
theorem Ready.rounds (ready : Ready base heap start regions) {brk : Nat} (ends : start + extent regions = brk) :
    2 * (frees start regions).length + 3 ≤ brk := by
  rcases ready with fresh | represents
  · have below := fresh.below
    rw [HEADER] at below
    rw [(@frees_others heap.mem start regions fresh.others).1, List.length_nil]
    omega
  · have count := @frees_length start regions represents.positive
    have below := represents.below
    rw [HEADER] at below count
    omega

/-- What a call of `malloc` may do: one call of `sbrk` at most, and a block or nothing. -/
structure Allocated (sbrk : World → BitVec 32 → Option (Nat × World)) (brk : World → Nat) (base : Nat)
    (heap : Heap) (world : World) (start : Nat) (regions : List Region) (nbytes result : Nat) (heap' : Heap)
    (world' : World) (regions' : List Region) : Prop where
  represents : Represents base heap' start regions'
  ends : brk world' = start + extent regions'
  grown : extent regions ≤ extent regions'
  once : world' = world ∨ ∃ request answer, sbrk world request = some (answer, world')
  untouched : Untouched (lives start regions) heap.mem heap'.mem
  origin : ∀ region ∈ regions', region.isBlock = true ∨ region ∈ regions
  result : result = 0 ∧ lives start regions' = lives start regions ∧
      (∃ request, sbrk world request = some (failed, world')) ∨
    ∃ a units, result = a + HEADER ∧ HEADER + nbytes ≤ HEADER * units ∧
      (lives start regions').Perm ((a, units) :: lives start regions)

theorem unitsFor_eq {nbytes : Nat} (fits : nbytes < 2 ^ 32) :
    0 < unitsFor nbytes ∧ HEADER + nbytes ≤ HEADER * unitsFor nbytes := by
  rw [unitsFor, HEADER, Nat.mod_eq_of_lt (by omega)]
  omega

theorem malloc_spec {nbytes : Nat} (ready : Ready base heap start regions) (fits : nbytes < 2 ^ 32)
    (ends : brk world = start + extent regions)
    (few : extent regions + HEADER * max (unitsFor nbytes) 4096 < HEADER * 2 ^ 32)
    (grants : Grants sbrk brk world (HEADER * max (unitsFor nbytes) 4096))
    (enough : 2 * (frees start regions).length + 3 ≤ fuel) :
    ∃ result heap' world' regions', malloc sbrk base heap world fuel nbytes = some (result, heap', world') ∧
      Allocated sbrk brk base heap world start regions nbytes result heap' world' regions' := by
  obtain ⟨positive, usable⟩ := unitsFor_eq fits
  obtain ⟨begun, kept⟩ : Represents base (heap.start base) start regions ∧
      Untouched (lives start regions) heap.mem (heap.start base).mem := by
    rcases ready with fresh | represents
    · refine ⟨fresh.begun, ?_⟩
      rw [(@frees_others heap.mem start regions fresh.others).2.1]
      nofun
    · rw [represents.begun]
      exact ⟨represents, fun _ _ _ _ _ _ => rfl⟩
  by_cases found : ∃ node ∈ frees start regions, unitsFor nbytes ≤ size (heap.start base).mem node
  · obtain ⟨a, heap', regions', took, taken⟩ :=
      @mallocLoop_once _ base start _ fuel regions World sbrk world begun positive found (by omega)
    refine ⟨a + HEADER, heap', world, regions', took, taken.represents, ?_, ?_, .inl rfl, ?_, taken.origin, ?_⟩
    · rw [ends, taken.extent]
    · rw [taken.extent]
    · exact kept.trans taken.untouched
    · exact .inr ⟨a, _, rfl, usable, taken.lives⟩
  · have small : ∀ node ∈ base :: frees start regions, size (heap.start base).mem node < unitsFor nbytes := by
      intro node member
      rcases List.mem_cons.mp member with rfl | free
      · rw [begun.empty]
        exact positive
      · exact Nat.lt_of_not_le fun large => found ⟨node, free, large⟩
    obtain ⟨others, path, fresh, length, same⟩ := begun.around
    obtain ⟨left, rfl⟩ := Nat.exists_eq_add_of_le (show others.length + 1 ≤ fuel by omega)
    have passed : ∀ node ∈ others, size (heap.start base).mem node < unitsFor nbytes ∧
        node ≠ (heap.start base).freep := by
      intro node inside
      refine ⟨small node ((same node).mp (List.mem_append_left _ inside)), ?_⟩
      rintro rfl
      exact fresh inside
    have around := @mallocLoop_around _ (unitsFor nbytes) _ (heap.start base).freep left World sbrk world _ _ _
      path passed (small _ begun.roving)
    obtain ⟨world', called, outcome⟩ := more_spec begun positive ends few grants
      (show (frees start regions).length + 2 ≤ left by omega)
    have once : world' = world ∨ ∃ request answer, sbrk world request = some (answer, world') :=
      .inr ⟨_, called⟩
    rcases outcome with ⟨failure, unmoved, refused⟩ |
      ⟨a, heap', regions', took, after, moved, grown, perm, untouched, origin⟩
    · refine ⟨0, heap.start base, world', regions, around.trans failure, begun, ?_, Nat.le_refl _, once, kept,
        fun _ => .inr, ?_⟩
      · rw [unmoved, ends]
      · exact .inl ⟨rfl, rfl, _, refused⟩
    · exact ⟨a + HEADER, heap', world', regions', around.trans took, after, moved, grown, once,
        kept.trans untouched, origin, .inr ⟨a, _, rfl, usable, perm⟩⟩

end

end Xv6.Umalloc
