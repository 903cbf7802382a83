import Xv6.Umalloc.Layout

namespace Xv6.Umalloc

open Xv6.Data

/-! # free

A block in use, with the regions before it and after it, goes back to the free list.
-/

variable {mem : Bytes} {heap : Heap} {base start n p bp fuel : Nat} {pre post regions : List Region}
  {earlier : List Nat}

/-! ## The search -/

theorem stops_iff : stops mem bp p = true ↔
    p < bp ∧ bp < ptr mem p ∨ ptr mem p ≤ p ∧ (p < bp ∨ bp < ptr mem p) := by
  simp [stops]

section

variable (represents : Represents base heap start (pre ++ .live n :: post))

include represents

theorem Represents.used : HEADER ≤ HEADER * n := by
  have positive : 0 < HEADER * n := represents.positive (.live n) (by simp)
  exact Nat.le_mul_of_pos_right HEADER (Nat.pos_of_mul_pos_left positive)

/-- The free blocks before an address, with `base`, are below it. -/
theorem Represents.before {q : Nat} (member : q ∈ base :: frees start pre) :
    q + HEADER ≤ start + extent pre :=
  represents.header_below (((frees_sublist start pre).cons_cons base).subset member)

theorem Represents.after {q : Nat} (member : q ∈ headers (start + extent pre + HEADER * n) post) :
    start + extent pre + HEADER ≤ q := by
  have used := represents.used
  have ends : start + extent (pre ++ [.live n]) = start + extent pre + HEADER * n := by
    rw [extent_append, extent, extent, Region.length, Nat.add_zero, Nat.add_assoc]
  rw [List.append_cons] at represents
  have above := represents.header_above (ends ▸ member)
  omega

theorem Represents.ring_live (last : base :: frees start pre = earlier ++ [p]) :
    Path (ptr heap.mem) base (earlier ++ p :: frees (start + extent pre + HEADER * n) post) base ∧
      (earlier ++ p :: frees (start + extent pre + HEADER * n) post).Pairwise (· < ·) := by
  rw [show Region.live n :: post = [.live n] ++ post from rfl] at represents
  obtain ⟨path, sorted⟩ := represents.nodes last
  exact ⟨path, sorted.imp fun apart => Nat.lt_of_lt_of_le (Nat.lt_add_of_pos_right (by decide)) apart⟩

/-- The loop stops at the last free block below, and only there. -/
theorem stops_previous (last : base :: frees start pre = earlier ++ [p]) :
    stops heap.mem (start + extent pre) p = true ∧
      ∀ q ∈ earlier ++ p :: frees (start + extent pre + HEADER * n) post, q ≠ p →
        stops heap.mem (start + extent pre) q = false := by
  obtain ⟨path, sorted⟩ := represents.ring_live last
  have before : ∀ q ∈ earlier ++ [p], q < start + extent pre := by
    intro q member
    have header := represents.before (last ▸ member)
    rw [HEADER] at header
    omega
  have after : ∀ q ∈ frees (start + extent pre + HEADER * n) post, start + extent pre < q := by
    intro q member
    have header := represents.after ((frees_sublist _ _).subset member)
    rw [HEADER] at header
    omega
  have low : ∀ q ∈ earlier ++ p :: frees (start + extent pre + HEADER * n) post, base ≤ q := by
    intro q member
    rw [← List.singleton_append, ← List.append_assoc, ← last, List.cons_append] at sorted member
    rcases List.mem_cons.mp member with rfl | later
    · exact Nat.le_refl _
    · exact Nat.le_of_lt (List.rel_of_pairwise_cons sorted later)
  have bottom := represents.below
  have here : stops heap.mem (start + extent pre) p = true := by
    have under := before p (by simp)
    have above := low p (by simp)
    have next := path.cut.2.start_eq
    rw [stops_iff]
    cases nodes : frees (start + extent pre + HEADER * n) post with
    | nil =>
      rw [nodes] at next
      rw [next, List.headD_nil]
      omega
    | cons q rest =>
      have upper := after q (by simp [nodes])
      rw [nodes] at next
      rw [next, List.headD_cons]
      omega
  refine ⟨here, fun q member different => ?_⟩
  rw [Bool.eq_false_iff, Ne, stops_iff]
  rcases List.mem_append.mp member with inFront | inBack
  · -- the next one is not above the last
    obtain ⟨front, back, rfl⟩ := List.append_of_mem inFront
    rw [List.append_assoc, List.cons_append] at path sorted
    have next := path.cut.2.start_eq
    have order := (List.pairwise_append.mp sorted).2.1
    have inside : ptr heap.mem q ∈ back ++ [p] := by
      rw [next]
      cases back with
      | nil | cons r rest => exact List.mem_cons_self
    have higher : q < ptr heap.mem q := by
      refine List.rel_of_pairwise_cons order ?_
      exact (List.Sublist.append_left (List.Sublist.cons_cons p (List.nil_sublist _)) back).subset inside
    have under := before _ (by
      rw [List.append_assoc]
      exact List.mem_append_right _ (List.mem_cons_of_mem _ inside))
    omega
  · have inBack := (List.mem_cons.mp inBack).resolve_left different
    have upper := after q inBack
    have above := low q member
    obtain ⟨front, back, split⟩ := List.append_of_mem inBack
    rw [split, ← List.cons_append, ← List.append_assoc] at path sorted
    have next := path.cut.2.start_eq
    have order := (List.pairwise_append.mp sorted).2.1
    cases back with
    | nil =>
      rw [List.headD_nil] at next
      omega
    | cons r rest =>
      have higher := List.rel_of_pairwise_cons order List.mem_cons_self
      rw [List.headD_cons] at next
      omega

/-- So it gets there from wherever it starts. -/
theorem search_previous (last : base :: frees start pre = earlier ++ [p])
    (enough : (frees start (pre ++ .live n :: post)).length < fuel) :
    search (ptr heap.mem) (stops heap.mem (start + extent pre)) fuel heap.freep = some p := by
  have roving := represents.roving
  rw [frees_append, ← List.cons_append, last, List.append_assoc] at roving
  obtain ⟨here, elsewhere⟩ := stops_previous represents last
  refine (represents.ring_live last).1.search_around roving (by simp) elsewhere here ?_
  have length := congrArg List.length last
  rw [frees_append] at enough
  simp only [List.length_append, List.length_cons, frees, Region.length] at length enough ⊢
  omega

end

/-! ## Joining -/

/-- A block of `n` units has taken in the free block behind it, if there is one. -/
structure Absorbed (n : Nat) (post : List Region) (n' : Nat) (tail post' : List Region) : Prop where
  split : post = tail ++ post'
  units : HEADER * n' = HEADER * n + extent tail
  idle : ∀ start, lives start tail = []
  apart : (Region.free n' :: post').IsChain Region.Apart

/-- Only whether the first block is free matters to the next one. -/
theorem isChain_head {region region' : Region} (apart : (region :: post).IsChain Region.Apart)
    (free : region'.isFree = true → region.isFree = true ∨ ∀ next ∈ post.head?, next.isFree = false) :
    (region' :: post).IsChain Region.Apart := by
  cases post with
  | nil => exact List.IsChain.singleton _
  | cons next rest =>
    obtain ⟨first, later⟩ := List.isChain_cons_cons.mp apart
    refine List.IsChain.cons_cons (fun both => ?_) later
    rcases free both.1 with was | taken
    · exact first ⟨was, both.2⟩
    · rw [taken next rfl] at both
      exact Bool.false_ne_true both.2

theorem joinNext_spec (represents : Represents base heap start (pre ++ .live n :: post))
    (last : base :: frees start pre = earlier ++ [p]) (address : bp = start + extent pre) :
    ∃ n' tail post', Absorbed n post n' tail post' ∧ size (joinNext heap.mem bp p) bp = n' ∧
      ptr (joinNext heap.mem bp p) bp = (frees (bp + HEADER * n') post').headD base ∧
      Within [bp] heap.mem (joinNext heap.mem bp p) := by
  subst address
  have path := (represents.ring_live last).1.cut.2
  have next := path.start_eq
  obtain ⟨_, here, sized⟩ := sized_append.mp represents.sized
  have apart := (List.isChain_append.mp represents.apart).2.1
  have few := represents.few
  rw [extent_append, extent, Region.length] at few
  by_cases taken : ∀ region ∈ post.head?, region.isFree = false
  · have positive : ∀ region ∈ post, 0 < region.length := fun region inside =>
      represents.positive region (List.mem_append_right _ (List.mem_cons_of_mem _ inside))
    have bound : base < start + extent pre + HEADER * n := by
      have below := represents.below
      rw [HEADER] at below
      omega
    have different := frees_headD_ne positive sized taken bound
    refine ⟨n, [], post, ⟨rfl, rfl, fun _ => rfl, isChain_head apart fun _ => .inr taken⟩, ?_⟩
    rw [joinNext, here, if_neg (by rw [next]; exact different.symm)]
    refine ⟨(size_setPtr (.inl rfl)).trans here, ?_, within_setPtr _ _ _⟩
    rw [ptr_setPtr (ptr_lt _ _), next]
  · obtain ⟨m, post, rfl⟩ : ∃ m rest, post = .free m :: rest := by
      cases post with
      | nil => exact absurd (by simp) taken
      | cons region rest =>
        cases region with
        | free m => exact ⟨m, rest, rfl⟩
        | live m | other m => exact absurd (fun region member => by cases member; rfl) taken
    have following : ptr heap.mem p = start + extent pre + HEADER * n := next
    have sum : start + extent pre + HEADER * (n + m) = start + extent pre + HEADER * n + HEADER * m := by
      rw [Nat.mul_add, Nat.add_assoc (start + extent pre)]
    have block : size heap.mem (start + extent pre + HEADER * n) = m := sized.1
    have used := represents.used
    have clear : Clear (start + extent pre + HEADER * n) (start + extent pre) := .inr (by omega)
    have previous : Clear p (start + extent pre) := .inl (represents.before (last ▸ by simp))
    rw [extent, Region.length] at few
    refine ⟨n + m, [.free m], post, ⟨rfl, Nat.mul_add _ _ _, fun _ => rfl,
      isChain_head (List.isChain_cons_cons.mp apart).2 fun _ => .inl rfl⟩, ?_⟩
    rw [joinNext, here, if_pos following.symm, following, block]
    refine ⟨?_, ?_, (within_setSize _ _ _).trans (within_setPtr _ _ _)⟩
    · rw [size_setPtr (.inl rfl), size_setSize (by rw [HEADER] at few; omega)]
    · rw [ptr_setPtr (ptr_lt _ _), ptr_setSize (.inr previous), following, ptr_setSize (.inr clear), sum]
      exact path.2.start_eq

/-- What `free` leaves behind. -/
structure Released (base : Nat) (heap : Heap) (start n : Nat) (pre post : List Region) (heap' : Heap)
    (regions' : List Region) : Prop where
  represents : Represents base heap' start regions'
  extent : extent regions' = extent (pre ++ .live n :: post)
  lives : lives start regions' = lives start pre ++ lives (start + Umalloc.extent pre + HEADER * n) post
  block : ∃ m, n ≤ m ∧ .free m ∈ regions'
  origin : ∀ region ∈ regions', region.isBlock = true ∨ region ∈ pre ++ .live n :: post
  count : (frees start regions').length ≤ (frees start (pre ++ .live n :: post)).length + 1
  within : Within [heap'.freep, start + Umalloc.extent pre] heap.mem heap'.mem
  previous : heap'.freep ∈ base :: frees start pre

section

variable {front gap back tail : List Region} {m n' : Nat} {mem₁ mem₂ : Bytes}

/-- The regions `gap`, with the block in use, have become one free block. -/
theorem Represents.released {heap' : Heap}
    (represents : Represents base heap' start (front ++ ([.free m] ++ back)))
    (split : pre ++ .live n :: post = front ++ (gap ++ back)) (units : extent gap = HEADER * m)
    (more : n ≤ m)
    (idle : lives start front ++ lives (start + extent front + HEADER * m) back =
      lives start pre ++ lives (start + extent pre + HEADER * n) post)
    (within : Within [heap'.freep, start + extent pre] heap.mem heap'.mem)
    (previous : heap'.freep ∈ base :: frees start pre) :
    Released base heap start n pre post heap' (front ++ ([.free m] ++ back)) where
  represents := represents
  extent := by simp only [split, extent_append, units, Umalloc.extent, Region.length, Nat.add_zero]
  lives := by
    rw [← idle, lives_append]
    rfl
  block := ⟨m, more, by simp⟩
  origin := split ▸ origin_replace (by simp [Region.isBlock])
  count := by
    simp only [split, frees_append, units, Umalloc.extent, Region.length, Nat.add_zero,
      List.length_append, frees, List.length_cons, List.length_nil]
    omega
  within := within
  previous := previous

theorem Within.outside {q : Nat} (within : Within [p, bp] mem mem₂) (first : Clear q p)
    (second : Clear q bp) : ptr mem₂ q = ptr mem q ∧ size mem₂ q = size mem q := by
  have clear : ∀ header ∈ [p, bp], Clear q header := by
    intro header member
    rcases List.mem_cons.mp member with rfl | member
    · exact first
    · rwa [List.mem_singleton.mp member]
  exact ⟨within.ptr_eq clear, within.size_eq clear⟩

/-- The headers behind the new free block stay. -/
theorem Represents.kept_above (represents : Represents base heap start (front ++ (gap ++ back)))
    (within : Within [p, bp] heap.mem mem₂) (first : p ≤ bp)
    (second : bp + HEADER ≤ start + extent front + extent gap) :
    ∀ q ∈ headers (start + extent front + extent gap) back,
      ptr mem₂ q = ptr heap.mem q ∧ size mem₂ q = size heap.mem q := by
  intro q member
  have ends : start + extent (front ++ gap) = start + extent front + extent gap := by
    rw [extent_append, Nat.add_assoc]
  rw [← List.append_assoc] at represents
  have above := represents.header_above (ends ▸ member)
  exact within.outside (.inr (by omega)) (.inr (by omega))

theorem exists_last (base start : Nat) (front : List Region) :
    ∃ earlier node, base :: frees start front = earlier ++ [node] :=
  ⟨_, _, (List.dropLast_append_getLast (List.cons_ne_nil base (frees start front))).symm⟩

theorem isChain_units {k : Nat} (apart : (pre ++ [Region.free k]).IsChain Region.Apart)
    (next : (Region.free n :: post).IsChain Region.Apart) (units : Nat) :
    (pre ++ .free units :: post).IsChain Region.Apart := by
  obtain ⟨first, _, between⟩ := List.isChain_append.mp apart
  refine List.isChain_append.mpr ⟨first, isChain_head next fun _ => .inl rfl, fun left leftmost _ rightmost => ?_⟩
  cases rightmost
  exact between left leftmost (.free k) rfl

theorem joinPrevious_joined {k : Nat}
    (represents : Represents base heap start ((front ++ [.free k]) ++ .live n :: post))
    (address : bp = start + extent front + HEADER * k) (absorbed : Absorbed n post n' tail back)
    (sizeNext : size mem₁ bp = n')
    (ptrNext : ptr mem₁ bp = (frees (bp + HEADER * n') back).headD base)
    (within : Within [bp] heap.mem mem₁) :
    Released base heap start n (front ++ [.free k]) post
      ⟨joinPrevious mem₁ bp (start + extent front), start + extent front⟩
      (front ++ ([.free (k + n')] ++ back)) := by
  obtain ⟨rfl, units, idle, apart⟩ := absorbed
  have used := represents.used
  have split : (front ++ [.free k]) ++ .live n :: (tail ++ back) =
      front ++ ((.free k :: .live n :: tail) ++ back) := by simp
  have place : start + extent (front ++ [.free k]) = bp := by
    rw [extent_append, extent, extent, Region.length, Nat.add_zero, address, Nat.add_assoc]
  have length : extent (.free k :: .live n :: tail) = HEADER * (k + n') := by
    rw [extent, extent, Region.length, Region.length, Nat.mul_add, units]
  have ends : start + extent front + HEADER * (k + n') = bp + HEADER * n' := by
    rw [address, Nat.mul_add, Nat.add_assoc (start + extent front)]
  have roving : start + extent front ∈ base :: frees start (front ++ [.free k]) := by
    rw [frees_append]
    simp [frees]
  have low : start + extent front + HEADER ≤ bp := place ▸ represents.before roving
  have first := (List.isChain_append.mp represents.apart).1
  have few := represents.few
  rw [split] at represents few
  simp only [extent_append, length, HEADER] at few
  have sizeFirst : size mem₁ (start + extent front) = k :=
    (within.size_eq fun header member => by rw [List.mem_singleton.mp member]; exact .inl low).trans
      (sized_append.mp represents.sized).2.1
  -- what the writes do to the two headers
  have joined : joinPrevious mem₁ bp (start + extent front) =
      setPtr (setSize mem₁ (start + extent front) (k + n')) (start + extent front) (ptr mem₁ bp) := by
    rw [joinPrevious, sizeFirst, if_pos address.symm, sizeNext]
    dsimp only
    rw [ptr_setSize (.inr (.inr low))]
  have sizeLast : size (joinPrevious mem₁ bp (start + extent front)) (start + extent front) = k + n' := by
    rw [joined, size_setPtr (.inl rfl), size_setSize (by omega)]
  have ptrLast : ptr (joinPrevious mem₁ bp (start + extent front)) (start + extent front) =
      (frees (bp + HEADER * n') back).headD base := by
    rw [joined, ptr_setPtr (ptr_lt _ _), ptrNext]
  have both : Within [start + extent front, bp] heap.mem (joinPrevious mem₁ bp (start + extent front)) := by
    rw [joined]
    refine (within.mono (by simp)).trans ?_
    exact ((within_setSize _ _ _).trans (within_setPtr _ _ _)).mono (by simp)
  generalize joinPrevious mem₁ bp (start + extent front) = mem₂ at *
  have before : ∀ q ∈ base :: headers start front,
      ptr mem₂ q = ptr heap.mem q ∧ size mem₂ q = size heap.mem q := by
    intro q member
    have under := represents.header_below member
    exact both.outside (.inl under) (.inl (by omega))
  obtain ⟨earlier, node, last⟩ := exists_last base start front
  have inFront : ∀ q ∈ earlier ++ [node], q ∈ base :: headers start front := by
    rw [← last]
    exact fun q member => ((frees_sublist start front).cons_cons base).subset member
  have linked : ptr mem₂ node = start + extent front :=
    (before node (inFront node (by simp))).1.trans (represents.nodes last).1.cut.2.1
  have after := represents.kept_above both (by omega) (by rw [length, ends]; omega)
  have replaced : Represents base ⟨mem₂, start + extent front⟩ start (front ++ ([.free (k + n')] ++ back)) := by
    refine represents.replace length.symm (fun region member => ?_) (isChain_units first apart _)
      ⟨sizeLast, trivial⟩ (fun q member => (before q member).2) after last
      (fun q member => (before q (inFront q (List.mem_append_left _ member))).1) ⟨linked, ?_⟩ ?_
    · rw [HEADER] at used units
      rw [List.mem_singleton.mp member, Region.length, HEADER]
      omega
    · rw [ptrLast, length, ends]
      rfl
    · rw [frees_append]
      simp [frees]
  refine replaced.released split length (by rw [HEADER] at units; omega) ?_ (place ▸ both) roving
  rw [lives_append, lives_append, idle, place, ends, units]
  simp [lives, Nat.add_assoc]

section

variable (represents : Represents base heap start (pre ++ .live n :: post))

include represents

/-- The last free block before a region in use does not reach that far. -/
theorem Represents.previous_end (member : p ∈ base :: frees start pre)
    (taken : ∀ region ∈ pre.getLast?, region.isFree = false) :
    p + HEADER * size heap.mem p ≠ start + extent pre := by
  have below := represents.below
  have unit : HEADER = 16 := rfl
  rcases List.mem_cons.mp member with rfl | free
  · rw [represents.empty]
    omega
  · rcases List.eq_nil_or_concat pre with rfl | ⟨front, region, rfl⟩
    · cases free
    · have positive := represents.positive
      have some : 0 < region.length := positive region (by simp)
      have used : region.isFree = false := taken region (by simp)
      have inFront : p ∈ frees start front := by
        rw [List.concat_eq_append, frees_append] at free
        cases region with
        | free units => cases used
        | live units | other units => simpa [frees] using free
      have bounds := headers_bounds (fun region member => positive region (by simp [member]))
        (sized_append.mp (List.concat_eq_append ▸ (sized_append.mp represents.sized).1)).1
        ((frees_sublist start front).subset inFront)
      rw [List.concat_eq_append, extent_append, extent, extent]
      omega

theorem joinPrevious_linked (last : base :: frees start pre = earlier ++ [p])
    (address : bp = start + extent pre)
    (taken : ∀ region ∈ pre.getLast?, region.isFree = false) (absorbed : Absorbed n post n' tail back)
    (sizeNext : size mem₁ bp = n')
    (ptrNext : ptr mem₁ bp = (frees (bp + HEADER * n') back).headD base)
    (within : Within [bp] heap.mem mem₁) :
    Released base heap start n pre post ⟨joinPrevious mem₁ bp p, p⟩ (pre ++ ([.free n'] ++ back)) := by
  obtain ⟨rfl, units, idle, apart⟩ := absorbed
  have used := represents.used
  have inside := represents.inside
  rw [extent_append] at inside
  have node : p ∈ base :: frees start pre := last ▸ by simp
  have low : p + HEADER ≤ bp := address ▸ represents.before node
  have sizeFirst : size mem₁ p = size heap.mem p :=
    within.size_eq fun header member => by rw [List.mem_singleton.mp member]; exact .inl low
  have linked : joinPrevious mem₁ bp p = setPtr mem₁ p bp := by
    rw [joinPrevious, sizeFirst, address, if_neg (represents.previous_end node taken)]
  have ptrLast : ptr (joinPrevious mem₁ bp p) p = bp := by
    rw [linked, ptr_setPtr (by omega)]
  have sizes : ∀ q, q = p ∨ Clear q p → size (joinPrevious mem₁ bp p) q = size mem₁ q := fun q clear => by
    rw [linked, size_setPtr clear]
  have ptrBlock : ptr (joinPrevious mem₁ bp p) bp = (frees (bp + HEADER * n') back).headD base := by
    rw [linked, ptr_setPtr_clear (.inr low), ptrNext]
  have both : Within [p, bp] heap.mem (joinPrevious mem₁ bp p) := by
    rw [linked]
    exact (within.mono (by simp)).trans ((within_setPtr _ _ _).mono (by simp))
  generalize joinPrevious mem₁ bp p = mem₂ at *
  have length : extent (.live n :: tail) = HEADER * n' := by rw [extent, Region.length, units]
  have inFront : ∀ q ∈ earlier ++ [p], q ∈ base :: headers start pre := by
    rw [← last]
    exact fun q member => ((frees_sublist start pre).cons_cons base).subset member
  have before : ∀ q ∈ base :: headers start pre, q ≠ p →
      ptr mem₂ q = ptr heap.mem q ∧ size mem₂ q = size heap.mem q := by
    intro q member different
    have under := represents.header_below member
    have inAll : ∀ q ∈ base :: headers start pre, q ∈ base :: headers start (pre ++ .live n :: (tail ++ back)) := by
      rw [headers_append]
      exact fun q member => List.mem_append_left _ member
    exact both.outside (represents.clear (inAll q member) (inAll p (inFront p (by simp))) different)
      (.inl (address ▸ under))
  have sorted := (represents.ring_live last).2
  rw [← List.cons_append] at represents
  have after := represents.kept_above both (by omega) (by rw [length, ← address]; omega)
  have replaced : Represents base ⟨mem₂, p⟩ start (pre ++ ([.free n'] ++ back)) := by
    refine represents.replace length.symm (fun region member => ?_) ?_ ⟨?_, trivial⟩ (fun q member => ?_)
      after last (fun q member => (before q (inFront q (List.mem_append_left _ member)) ?_).1) ?_ ?_
    · rw [HEADER] at used units
      rw [List.mem_singleton.mp member, Region.length, HEADER]
      omega
    · refine List.isChain_append.mpr ⟨(List.isChain_append.mp represents.apart).1, apart, ?_⟩
      intro left leftmost right _ both
      rw [taken left leftmost] at both
      exact Bool.false_ne_true both.1
    · rw [← address, sizes bp (.inr (.inr low)), sizeNext]
    · by_cases same : q = p
      · rw [same, sizes p (.inl rfl), sizeFirst]
      · exact (before q member same).2
    · exact Nat.ne_of_lt ((List.pairwise_append.mp sorted).2.2 q member p List.mem_cons_self)
    · rw [ptrLast, length, ← address]
      exact ⟨rfl, ptrBlock⟩
    · rw [frees_append, ← List.cons_append]
      exact List.mem_append_left _ node
  refine replaced.released rfl length (by rw [HEADER] at units; omega) ?_ (address ▸ both) node
  rw [lives_append, idle, ← address, units, Nat.add_assoc]
  rfl

theorem Released.untouched {heap' : Heap}
    (released : Released base heap start n pre post heap' regions) :
    Untouched (Umalloc.lives start regions) heap.mem heap'.mem := by
  intro a units member index lower upper
  obtain ⟨sizedPre, _⟩ := sized_append.mp represents.sized
  have positive : ∀ region ∈ pre, 0 < region.length := fun region inside =>
    represents.positive region (List.mem_append_left _ inside)
  have used := represents.used
  have low := represents.before released.previous
  have below := represents.below
  rw [released.lives] at member
  refine released.within index fun header inside => ?_
  rcases List.mem_append.mp member with inPre | inPost
  · have bounds := lives_bounds inPre
    rcases List.mem_cons.mp inside with rfl | last
    · rcases List.mem_cons.mp released.previous with same | free
      · rw [same]
        omega
      · have apart := frees_outside positive sizedPre free inPre
        omega
    · rw [List.mem_singleton.mp last]
      omega
  · have bounds := lives_bounds inPost
    rcases List.mem_cons.mp inside with rfl | last
    · omega
    · rw [List.mem_singleton.mp last]
      omega

theorem free_spec (enough : (frees start (pre ++ .live n :: post)).length < fuel) :
    ∃ heap' regions', free heap fuel (start + extent pre + HEADER) = some heap' ∧
      Released base heap start n pre post heap' regions' := by
  obtain ⟨earlier, p, last⟩ := exists_last base start pre
  obtain ⟨n', tail, back, absorbed, sizeNext, ptrNext, within⟩ := joinNext_spec represents last rfl
  have ran : free heap fuel (start + extent pre + HEADER) =
      some ⟨joinPrevious (joinNext heap.mem (start + extent pre) p) (start + extent pre) p, p⟩ := by
    rw [free, Nat.add_sub_cancel, search_previous represents last enough]
    rfl
  rw [ran]
  by_cases taken : ∀ region ∈ pre.getLast?, region.isFree = false
  · exact ⟨_, _, rfl, joinPrevious_linked represents last rfl taken absorbed sizeNext ptrNext within⟩
  · obtain ⟨front, k, rfl⟩ : ∃ front k, pre = front ++ [.free k] := by
      rcases List.eq_nil_or_concat pre with rfl | ⟨front, region, rfl⟩
      · exact absurd nofun taken
      · rw [List.concat_eq_append] at taken ⊢
        cases region with
        | free k => exact ⟨front, k, rfl⟩
        | live k | other k => exact absurd (fun region member => by simp at member; rw [← member]; rfl) taken
    have address : start + extent (front ++ [.free k]) = start + extent front + HEADER * k := by
      rw [extent_append, extent, extent, Region.length, Nat.add_zero, Nat.add_assoc]
    obtain rfl : start + extent front = p := by
      rw [frees_append, ← List.cons_append] at last
      exact List.head_eq_of_cons_eq (List.append_inj' last rfl).2
    exact ⟨_, _, rfl, joinPrevious_joined represents address absorbed sizeNext ptrNext within⟩

end

end

end Xv6.Umalloc
