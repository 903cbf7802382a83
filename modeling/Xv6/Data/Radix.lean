import Mathlib.Data.List.Flatten
import Mathlib.Data.List.Nodup
import Mathlib.Data.List.Pairwise
import Mathlib.Data.List.Perm.Basic

namespace Xv6.Data.Radix

/-! Radix trees kept in a heap.

A node holds an entry for each slot, and `child` says which node an entry links to, if
any.  In a tree of some height the entries of the nodes at height zero are the values,
so nothing below follows them.
-/

section

variable {Node Slot Entry : Type} (slots : List Slot) (child : Entry → Option Node)

/-- The nodes of the tree below a node, itself included. -/
def nodes (heap : Node → Slot → Entry) : Nat → Node → List Node
  | 0, node => [node]
  | height + 1, node =>
    node :: slots.flatMap fun slot => (child (heap node slot)).elim [] (nodes heap height)

/-- The nodes above height zero, whose entries are links. -/
def inner (heap : Node → Slot → Entry) : Nat → Node → List Node
  | 0, _ => []
  | height + 1, node =>
    node :: slots.flatMap fun slot => (child (heap node slot)).elim [] (inner heap height)

/-- The node that a path of slots leads to. -/
def descend (heap : Node → Slot → Entry) : Node → List Slot → Option Node
  | node, [] => some node
  | node, slot :: path => (child (heap node slot)).bind fun below => descend heap below path

end

variable {Node Slot Entry : Type} {slots : List Slot} {child : Entry → Option Node}
  {heap after : Node → Slot → Entry} {height : Nat} {node other below fresh : Node} {slot : Slot}
  {path : List Slot}

theorem mem_nodes_root : node ∈ nodes slots child heap height node := by
  cases height <;> simp [nodes]

theorem mem_flatMap_below {list : Node → List Node} (full : ∀ slot, slot ∈ slots)
    (linked : child (heap node slot) = some below) (member : other ∈ list below) :
    other ∈ slots.flatMap fun slot => (child (heap node slot)).elim [] list :=
  List.mem_flatMap.mpr ⟨slot, full slot, by rw [linked]; exact member⟩

theorem exists_below {list : Node → List Node}
    (member : other ∈ slots.flatMap fun slot => (child (heap node slot)).elim [] list) :
    ∃ slot below, child (heap node slot) = some below ∧ other ∈ list below := by
  obtain ⟨slot, _, inside⟩ := List.mem_flatMap.mp member
  cases linked : child (heap node slot) with
  | none =>
    rw [linked] at inside
    exact absurd inside List.not_mem_nil
  | some below =>
    rw [linked] at inside
    exact ⟨slot, below, linked, inside⟩

theorem mem_nodes_below (full : ∀ slot, slot ∈ slots)
    (linked : child (heap node slot) = some below) (member : other ∈ nodes slots child heap height below) :
    other ∈ nodes slots child heap (height + 1) node :=
  List.mem_cons_of_mem _ (mem_flatMap_below full linked member)

theorem mem_inner_below (full : ∀ slot, slot ∈ slots)
    (linked : child (heap node slot) = some below) (member : other ∈ inner slots child heap height below) :
    other ∈ inner slots child heap (height + 1) node :=
  List.mem_cons_of_mem _ (mem_flatMap_below full linked member)

theorem inner_subset (full : ∀ slot, slot ∈ slots)
    (member : other ∈ inner slots child heap height node) : other ∈ nodes slots child heap height node := by
  induction height generalizing node with
  | zero => exact absurd member List.not_mem_nil
  | succ height ih =>
    rcases List.mem_cons.mp member with rfl | deeper
    · exact mem_nodes_root
    · obtain ⟨slot, below, linked, inside⟩ := exists_below deeper
      exact mem_nodes_below full linked (ih inside)

/-! ## A tree depends on the links of its inner nodes only -/

theorem flatMap_congr_below {left right : Node → List Node}
    (links : ∀ slot, child (after node slot) = child (heap node slot))
    (same : ∀ slot below, child (heap node slot) = some below → left below = right below) :
    (slots.flatMap fun slot => (child (after node slot)).elim [] left) =
      slots.flatMap fun slot => (child (heap node slot)).elim [] right := by
  congr 1
  funext slot
  rw [links slot]
  cases linked : child (heap node slot) with
  | none => rfl
  | some below => exact same slot below linked

section

variable (full : ∀ slot, slot ∈ slots)

include full

section

variable (links : ∀ other ∈ inner slots child heap height node, ∀ slot,
  child (after other slot) = child (heap other slot))

include links

theorem nodes_congr : nodes slots child after height node = nodes slots child heap height node := by
  induction height generalizing node with
  | zero => rfl
  | succ height ih =>
    rw [nodes, nodes]
    congr 1
    apply flatMap_congr_below (links node (by simp [inner]))
    intro slot below linked
    exact ih fun other member => links other (mem_inner_below full linked member)

theorem inner_congr : inner slots child after height node = inner slots child heap height node := by
  induction height generalizing node with
  | zero => rfl
  | succ height ih =>
    rw [inner, inner]
    congr 1
    apply flatMap_congr_below (links node (by simp [inner]))
    intro slot below linked
    exact ih fun other member => links other (mem_inner_below full linked member)

theorem descend_congr (short : path.length ≤ height) :
    descend child after node path = descend child heap node path := by
  induction path generalizing node height with
  | nil => rfl
  | cons slot path ih =>
    obtain ⟨height, rfl⟩ := Nat.exists_eq_add_one_of_ne_zero (n := height) (by
      rw [List.length_cons] at short
      omega)
    rw [descend, descend, links node (by simp [inner])]
    cases linked : child (heap node slot) with
    | none => rfl
    | some below =>
      refine ih (fun other member => links other (mem_inner_below full linked member)) ?_
      rw [List.length_cons] at short
      omega

end

/-! ## Where paths lead -/

theorem descend_mem (found : descend child heap node path = some other) (short : path.length ≤ height) :
    other ∈ nodes slots child heap height node := by
  induction path generalizing node height with
  | nil =>
    cases found
    exact mem_nodes_root
  | cons slot path ih =>
    rw [List.length_cons] at short
    obtain ⟨height, rfl⟩ := Nat.exists_eq_add_one_of_ne_zero (n := height) (by omega)
    obtain ⟨below, linked, rest⟩ := Option.bind_eq_some_iff.mp found
    exact mem_nodes_below full linked (ih rest (by omega))

theorem descend_inner (found : descend child heap node path = some other) (short : path.length < height) :
    other ∈ inner slots child heap height node := by
  induction path generalizing node height with
  | nil =>
    cases found
    obtain ⟨height, rfl⟩ := Nat.exists_eq_add_one_of_ne_zero (Nat.ne_of_gt short)
    simp [inner]
  | cons slot path ih =>
    rw [List.length_cons] at short
    obtain ⟨height, rfl⟩ := Nat.exists_eq_add_one_of_ne_zero (n := height) (by omega)
    obtain ⟨below, linked, rest⟩ := Option.bind_eq_some_iff.mp found
    exact mem_inner_below full linked (ih rest (by omega))

end

theorem descend_append {first second : List Slot} : descend child heap node (first ++ second) =
      (descend child heap node first).bind fun below => descend child heap below second := by
  induction first generalizing node with
  | nil => rfl
  | cons slot first ih =>
    rw [List.cons_append, descend, descend]
    cases child (heap node slot) with
    | none => rfl
    | some below => exact ih

/-- The nodes below two slots of a tree that meets no node twice. -/
theorem distinct_below (full : ∀ slot, slot ∈ slots)
    (distinct : (nodes slots child heap (height + 1) node).Nodup)
    (linked : child (heap node slot) = some below) :
    (nodes slots child heap height below).Nodup ∧ node ∉ nodes slots child heap height below := by
  obtain ⟨apart, rest⟩ := List.nodup_cons.mp distinct
  have each := (List.nodup_flatMap.mp rest).1 slot (full slot)
  rw [linked] at each
  exact ⟨each, fun member => apart (mem_flatMap_below full linked member)⟩

theorem disjoint_below {slot' : Slot} {below' : Node} (full : ∀ slot, slot ∈ slots)
    (distinct : (nodes slots child heap (height + 1) node).Nodup) (different : slot ≠ slot')
    (linked : child (heap node slot) = some below) (linked' : child (heap node slot') = some below') :
    List.Disjoint (nodes slots child heap height below) (nodes slots child heap height below') := by
  have pairwise := (List.nodup_flatMap.mp (List.nodup_cons.mp distinct).2).2
  have : Std.Symm (Function.onFun List.Disjoint fun slot =>
      (child (heap node slot)).elim [] (nodes slots child heap height)) :=
    ⟨fun _ _ apart _ left right => apart right left⟩
  have apart := pairwise.forall (full slot) (full slot') different
  simpa [Function.onFun, linked, linked'] using apart

theorem descend_not_inner (full : ∀ slot, slot ∈ slots)
    (distinct : (nodes slots child heap height node).Nodup)
    (found : descend child heap node path = some other) (long : path.length = height) :
    other ∉ inner slots child heap height node := by
  induction path generalizing node height with
  | nil =>
    cases long
    exact List.not_mem_nil
  | cons slot path ih =>
    rw [List.length_cons] at long
    subst long
    obtain ⟨below, linked, rest⟩ := Option.bind_eq_some_iff.mp found
    have reached := descend_mem full rest (Nat.le_refl _)
    obtain ⟨distinctBelow, apart⟩ := distinct_below full distinct linked
    intro member
    rcases List.mem_cons.mp member with rfl | deeper
    · exact apart reached
    · obtain ⟨slot', below', linked', inside⟩ := exists_below deeper
      by_cases same : slot = slot'
      · subst same
        cases linked.symm.trans linked'
        exact ih distinctBelow rest rfl inside
      · exact disjoint_below full distinct same linked linked' reached (inner_subset full inside)

theorem descend_injective {path' : List Slot} (full : ∀ slot, slot ∈ slots)
    (distinct : (nodes slots child heap height node).Nodup)
    (found : descend child heap node path = some other)
    (found' : descend child heap node path' = some other)
    (short : path.length ≤ height) (long : path'.length = path.length) : path' = path := by
  induction path generalizing node height path' with
  | nil => exact List.eq_nil_of_length_eq_zero long
  | cons slot path ih =>
    rw [List.length_cons] at short long
    obtain ⟨height, rfl⟩ := Nat.exists_eq_add_one_of_ne_zero (n := height) (by omega)
    obtain ⟨slot', path', rfl⟩ := List.exists_cons_of_length_eq_add_one long
    rw [List.length_cons, Nat.add_right_cancel_iff] at long
    obtain ⟨below, linked, rest⟩ := Option.bind_eq_some_iff.mp found
    obtain ⟨below', linked', rest'⟩ := Option.bind_eq_some_iff.mp found'
    by_cases same : slot = slot'
    · subst same
      cases linked.symm.trans linked'
      rw [ih (distinct_below full distinct linked).1 rest rest' (by omega) long]
    · have left := descend_mem full rest (Nat.le_of_lt_succ short)
      exact (disjoint_below full distinct same linked linked' left
        (descend_mem full rest' (by omega))).elim

/-! ## Linking a new node -/

/-- The heap changes in one childless entry, which gets a link to `fresh`, and in `fresh`,
which gets no links. -/
structure Links (child : Entry → Option Node) (heap after : Node → Slot → Entry) (node : Node)
    (slot : Slot) (fresh : Node) : Prop where
  vacant : child (heap node slot) = none
  linked : child (after node slot) = some fresh
  bare : ∀ slot, child (after fresh slot) = none
  others : ∀ other, other ≠ fresh → ∀ slot', (other = node → slot' ≠ slot) →
    after other slot' = heap other slot'

theorem nodes_bare (bare : ∀ slot, child (heap node slot) = none) :
    nodes slots child heap height node = [node] := by
  cases height with
  | zero => rfl
  | succ height =>
    rw [nodes]
    congr 1
    simp [bare]

theorem inner_bare (bare : ∀ slot, child (heap node slot) = none)
    (member : other ∈ inner slots child heap height node) : other = node := by
  cases height with
  | zero => exact absurd member List.not_mem_nil
  | succ height => simpa [inner, bare] using member

/-- Old paths lead where they led, and a path that is new leads to the new node. -/
theorem Links.descend (links : Links child heap after node slot fresh) (full : ∀ slot, slot ∈ slots)
    {root : Node} (unused : fresh ∉ nodes slots child heap height root) (short : path.length ≤ height) :
    descend child after root path = descend child heap root path ∨
      descend child heap root path = none ∧ descend child after root path = some fresh := by
  induction path generalizing root height with
  | nil => exact .inl rfl
  | cons step path ih =>
    rw [List.length_cons] at short
    obtain ⟨height, rfl⟩ := Nat.exists_eq_add_one_of_ne_zero (n := height) (by omega)
    have notFresh : root ≠ fresh := fun same => unused (same ▸ mem_nodes_root)
    rw [Radix.descend, Radix.descend]
    by_cases here : root = node ∧ step = slot
    · obtain ⟨rfl, rfl⟩ := here
      rw [links.vacant, links.linked]
      cases path with
      | nil => exact .inr ⟨rfl, rfl⟩
      | cons next path =>
        left
        show (child (after fresh next)).bind _ = none
        rw [links.bare]
        rfl
    · rw [links.others root notFresh step fun same equal => here ⟨same, equal⟩]
      cases linked : child (heap root step) with
      | none => exact .inl rfl
      | some below =>
        exact ih (fun member => unused (mem_nodes_below full linked member)) (by omega)

theorem flatMap_perm_cons {list list' : Slot → List Node} (distinct : slots.Nodup)
    (member : slot ∈ slots) (grown : (list' slot).Perm (fresh :: list slot))
    (same : ∀ other, other ≠ slot → list' other = list other) :
    (slots.flatMap list').Perm (fresh :: slots.flatMap list) := by
  obtain ⟨front, back, rfl⟩ := List.append_of_mem member
  have parts := List.nodup_append.mp distinct
  have frontSame : front.flatMap list' = front.flatMap list := by
    apply List.flatMap_congr
    intro other inside
    exact same other (parts.2.2 other inside slot List.mem_cons_self)
  have backSame : back.flatMap list' = back.flatMap list := by
    apply List.flatMap_congr
    intro other inside
    refine same other fun equal => ?_
    exact (List.nodup_cons.mp parts.2.1).1 (equal ▸ inside)
  rw [List.flatMap_append, List.flatMap_append, List.flatMap_cons, List.flatMap_cons, frontSame,
    backSame]
  refine ((grown.append_right _).append_left _).trans ?_
  exact List.perm_middle

theorem Links.nodes_elsewhere (links : Links child heap after node slot fresh)
    (full : ∀ slot, slot ∈ slots) (unused : fresh ∉ nodes slots child heap height below)
    (apart : node ∉ nodes slots child heap height below) :
    nodes slots child after height below = nodes slots child heap height below := by
  refine nodes_congr full fun inside member slot' => ?_
  have within := inner_subset full member
  rw [links.others inside (fun same => unused (same ▸ within)) slot' fun same =>
    (apart (same ▸ within)).elim]

/-- The tree gains the new node. -/
theorem Links.nodes (links : Links child heap after node slot fresh) (full : ∀ slot, slot ∈ slots)
    (each : slots.Nodup) {root : Node} (distinct : (nodes slots child heap height root).Nodup)
    (unused : fresh ∉ nodes slots child heap height root)
    (found : Radix.descend child heap root path = some node) (short : path.length < height) :
    (Radix.nodes slots child after height root).Perm
      (fresh :: Radix.nodes slots child heap height root) := by
  induction path generalizing root height with
  | nil =>
    cases found
    obtain ⟨height, rfl⟩ := Nat.exists_eq_add_one_of_ne_zero (Nat.ne_of_gt short)
    have notFresh : node ≠ fresh := fun same => unused (same ▸ mem_nodes_root)
    rw [Radix.nodes, Radix.nodes]
    refine (List.Perm.cons node (flatMap_perm_cons each (full slot) ?_ ?_)).trans
      (List.Perm.swap fresh node _)
    · rw [links.vacant, links.linked]
      show (Radix.nodes slots child after height fresh).Perm [fresh]
      rw [nodes_bare links.bare]
    · intro other different
      rw [links.others node notFresh other fun _ => different]
      cases linked : child (heap node other) with
      | none => rfl
      | some below =>
        exact links.nodes_elsewhere full (fun member => unused (mem_nodes_below full linked member))
          (distinct_below full distinct linked).2
  | cons step path ih =>
    rw [List.length_cons] at short
    obtain ⟨height, rfl⟩ := Nat.exists_eq_add_one_of_ne_zero (n := height) (by omega)
    obtain ⟨below, linked, rest⟩ := Option.bind_eq_some_iff.mp found
    obtain ⟨distinctBelow, apart⟩ := distinct_below full distinct linked
    have reached : node ∈ Radix.nodes slots child heap height below :=
      descend_mem full rest (by omega)
    have notFresh : root ≠ fresh := fun same => unused (same ▸ mem_nodes_root)
    have notNode : root ≠ node := fun same => apart (same ▸ reached)
    have same : ∀ slot', after root slot' = heap root slot' := fun slot' =>
      links.others root notFresh slot' fun equal => absurd equal notNode
    rw [Radix.nodes, Radix.nodes]
    refine (List.Perm.cons root (flatMap_perm_cons each (full step) ?_ ?_)).trans
      (List.Perm.swap fresh root _)
    · rw [same step, linked]
      exact ih distinctBelow (fun member => unused (mem_nodes_below full linked member)) rest
        (by omega)
    · intro other different
      rw [same other]
      cases linked' : child (heap root other) with
      | none => rfl
      | some below' =>
        exact links.nodes_elsewhere full (fun member => unused (mem_nodes_below full linked' member))
          fun within => disjoint_below full distinct different linked' linked within reached

theorem Links.inner (links : Links child heap after node slot fresh) (full : ∀ slot, slot ∈ slots)
    {root : Node} (unused : fresh ∉ Radix.nodes slots child heap height root)
    (member : other ∈ inner slots child after height root) :
    other = fresh ∨ other ∈ inner slots child heap height root := by
  induction height generalizing root with
  | zero => exact absurd member List.not_mem_nil
  | succ height ih =>
    have notFresh : root ≠ fresh := fun same => unused (same ▸ mem_nodes_root)
    rcases List.mem_cons.mp member with rfl | deeper
    · exact .inr List.mem_cons_self
    · obtain ⟨step, below, linked, inside⟩ := exists_below deeper
      by_cases here : root = node ∧ step = slot
      · obtain ⟨rfl, rfl⟩ := here
        cases links.linked.symm.trans linked
        exact .inl (inner_bare links.bare inside)
      · rw [links.others root notFresh step fun same equal => here ⟨same, equal⟩] at linked
        rcases ih (fun member => unused (mem_nodes_below full linked member)) inside with
          found | found
        · exact .inl found
        · exact .inr (mem_inner_below full linked found)

end Xv6.Data.Radix
