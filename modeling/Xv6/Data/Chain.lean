import Mathlib.Data.List.Basic

namespace Xv6.Data

/-! Singly linked lists threaded through a memory.

`next` reads the link stored at an address and `null` ends the list.
-/

variable {Address : Type}

/-- The list that starts at an address holds exactly these nodes, in order. -/
def Chain (null : Address) (next : Address → Address) : Address → List Address → Prop
  | head, [] => head = null
  | head, node :: rest => head = node ∧ node ≠ null ∧ Chain null next (next node) rest

variable {null head : Address} {next : Address → Address} {nodes : List Address}

theorem Chain.congr {other : Address → Address} (chain : Chain null next head nodes)
    (same : ∀ node ∈ nodes, other node = next node) : Chain null other head nodes := by
  induction nodes generalizing head with
  | nil => exact chain
  | cons node rest ih =>
    obtain ⟨first, real, remaining⟩ := chain
    refine ⟨first, real, ?_⟩
    rw [same node (by simp)]
    exact ih remaining fun later member => same later (by simp [member])

theorem Chain.push {node : Address} (chain : Chain null next head nodes) (real : node ≠ null)
    (linked : next node = head) : Chain null next node (node :: nodes) :=
  ⟨rfl, real, linked ▸ chain⟩

theorem Chain.of_ne_null (chain : Chain null next head nodes) (real : head ≠ null) :
    ∃ rest, nodes = head :: rest ∧ Chain null next (next head) rest := by
  cases nodes with
  | nil => exact absurd chain real
  | cons node rest =>
    obtain ⟨rfl, -, remaining⟩ := chain
    exact ⟨rest, rfl, remaining⟩

theorem Chain.eq_nil (chain : Chain null next null nodes) : nodes = [] := by
  cases nodes with
  | nil => rfl
  | cons node rest =>
    obtain ⟨same, real, -⟩ := chain
    exact absurd same.symm real

end Xv6.Data
