import Mathlib.Data.List.Basic

namespace Xv6.Data

/-! Paths along links, and lists whose last link leads back to the first node. -/

variable {Node : Type}

/-- From a start the links lead through exactly these nodes, in order, and on to a stop. -/
def Path (next : Node → Node) : Node → List Node → Node → Prop
  | start, [], stop => start = stop
  | start, node :: rest, stop => start = node ∧ Path next (next node) rest stop

/-- Follow the links to the first node with a property. -/
def search (next : Node → Node) (stop : Node → Bool) : Nat → Node → Option Node
  | 0, _ => none
  | fuel + 1, node => if stop node then some node else search next stop fuel (next node)

variable {next other : Node → Node} {start stop node : Node} {nodes front back : List Node}

theorem path_append : Path next start (front ++ back) stop ↔
    ∃ middle, Path next start front middle ∧ Path next middle back stop := by
  induction front generalizing start with
  | nil => simp [Path]
  | cons first rest ih => simp only [List.cons_append, Path, ih, and_assoc, exists_and_left]

theorem Path.congr (path : Path next start nodes stop) (same : ∀ node ∈ nodes, other node = next node) :
    Path other start nodes stop := by
  induction nodes generalizing start with
  | nil => exact path
  | cons first rest ih =>
    refine ⟨path.1, ?_⟩
    rw [same first List.mem_cons_self]
    exact ih path.2 fun later member => same later (List.mem_cons_of_mem _ member)

theorem Path.start_eq (path : Path next start nodes stop) : start = nodes.headD stop := by
  cases nodes with
  | nil => exact path
  | cons first rest => exact path.1

/-- A path cut behind one of its nodes. -/
theorem Path.cut (path : Path next start (front ++ node :: back) stop) :
    Path next start front node ∧ Path next (next node) back stop := by
  obtain ⟨middle, before, rfl, after⟩ := path_append.mp path
  exact ⟨before, after⟩

theorem Path.join (before : Path next start front node) (after : Path next (next node) back stop) :
    Path next start (front ++ node :: back) stop := path_append.mpr ⟨node, before, rfl, after⟩

/-- Behind one node the path takes another way to the same continuation. -/
theorem Path.splice {gap gap' : List Node} (path : Path next start (front ++ node :: (gap ++ back)) stop)
    (same : ∀ later ∈ front ++ back, other later = next later)
    (bridge : Path other (other node) gap' (back.headD stop)) :
    Path other start (front ++ node :: (gap' ++ back)) stop := by
  obtain ⟨before, after⟩ := path.cut
  obtain ⟨middle, _, rest⟩ := path_append.mp after
  obtain rfl := rest.start_eq
  refine Path.join (before.congr fun later member => same later (List.mem_append_left _ member)) ?_
  exact path_append.mpr ⟨_, bridge, rest.congr fun later member =>
    same later (List.mem_append_right _ member)⟩

/-- A circular list starts anywhere. -/
theorem Path.rotate (path : Path next start (front ++ node :: back) start) :
    Path next node (node :: (back ++ front)) node := by
  obtain ⟨before, after⟩ := path.cut
  exact ⟨rfl, path_append.mpr ⟨start, after, before⟩⟩

theorem Path.search {property : Node → Bool} {fuel : Nat}
    (path : Path next start (front ++ node :: back) stop)
    (missed : ∀ earlier ∈ front, property earlier = false) (found : property node = true)
    (enough : front.length < fuel) : search next property fuel start = some node := by
  induction front generalizing start fuel with
  | nil =>
    obtain ⟨rfl, _⟩ := path
    cases fuel with
    | zero => exact absurd enough (Nat.not_lt_zero _)
    | succ fuel => exact if_pos found
  | cons first rest ih =>
    obtain ⟨rfl, path⟩ := path
    cases fuel with
    | zero => exact absurd enough (Nat.not_lt_zero _)
    | succ fuel =>
      have skipped := missed start List.mem_cons_self
      rw [Data.search, skipped, if_neg Bool.false_ne_true]
      exact ih path (fun earlier member => missed earlier (List.mem_cons_of_mem _ member))
        (Nat.lt_of_succ_lt_succ enough)

/-- In a circular list a search that starts anywhere finds the one node with the property. -/
theorem Path.search_around {property : Node → Bool} {fuel : Nat} {first : Node}
    (path : Path next start nodes start) (begins : first ∈ nodes) (member : node ∈ nodes)
    (missed : ∀ other ∈ nodes, other ≠ node → property other = false) (found : property node = true)
    (enough : nodes.length ≤ fuel) : Data.search next property fuel first = some node := by
  obtain ⟨front, back, rfl⟩ := List.append_of_mem begins
  have around := path.rotate
  have same : ∀ other, other ∈ first :: (back ++ front) ↔ other ∈ front ++ first :: back := by
    intro other
    simp only [List.mem_append, List.mem_cons]
    tauto
  obtain ⟨skipped, rest, rotated, fresh⟩ := List.eq_append_cons_of_mem ((same node).mpr member)
  have length := congrArg List.length rotated
  simp only [List.length_append, List.length_cons] at length enough
  rw [rotated] at around
  refine around.search (fun other inside => missed other ?_ fun equal => fresh (equal ▸ inside)) found
    (by omega)
  rw [← same, rotated]
  exact List.mem_append_left _ inside

end Xv6.Data
