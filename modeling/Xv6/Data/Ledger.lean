import Mathlib.Data.List.Nodup
import Xv6.Data.Overwrite

namespace Xv6.Data

/-! Tickets and their results.

Slots are given out with a new ticket each time.  A ticket gets one result while it is in
its slot, and a result is collected from the slot, which is free again then.  The two lists
record all results, and those collected.
-/

variable {Slot Result : Type}

structure Ledger (slots : Slot → Option (Nat × Option Result)) (tickets : Nat)
    (finished collected : List (Nat × Result)) : Prop where
  issued : ∀ slot ticket result, slots slot = some (ticket, result) → ticket < tickets
  unique : ∀ slot other ticket result result', slots slot = some (ticket, result) →
    slots other = some (ticket, result') → slot = other
  past : ∀ entry ∈ finished, entry.1 < tickets
  once : (finished.map Prod.fst).Nodup
  running : ∀ slot ticket, slots slot = some (ticket, none) → ticket ∉ finished.map Prod.fst
  waiting : ∀ slot ticket result, slots slot = some (ticket, some result) →
    (ticket, result) ∈ finished ∧ ticket ∉ collected.map Prod.fst
  collectedOnce : (collected.map Prod.fst).Nodup
  sound : ∀ entry ∈ collected, entry ∈ finished
  complete : ∀ ticket result, (ticket, result) ∈ finished →
    (ticket, result) ∈ collected ∨ ∃ slot, slots slot = some (ticket, some result)

variable {slots slots' : Slot → Option (Nat × Option Result)} {tickets ticket : Nat}
  {finished collected : List (Nat × Result)} {slot : Slot} {result : Result}

theorem Ledger.congr (ledger : Ledger slots tickets finished collected)
    (same : ∀ slot, slots' slot = slots slot) : Ledger slots' tickets finished collected := by
  have equal : slots' = slots := funext same
  exact equal ▸ ledger

variable [DecidableEq Slot]

private theorem overwrite_some {value : Option (Nat × Option Result)} {other : Slot}
    {entry : Nat × Option Result} (changed : ∀ other, slots' other = overwrite slots slot value other)
    (found : slots' other = some entry) :
    other = slot ∧ value = some entry ∨ other ≠ slot ∧ slots other = some entry := by
  rw [changed] at found
  exact overwrite_cases (p := fun now => now = some entry) found

private theorem cleared_some {other : Slot} {entry : Nat × Option Result}
    (changed : ∀ other, slots' other = overwrite slots slot none other)
    (found : slots' other = some entry) : other ≠ slot ∧ slots other = some entry := by
  obtain ⟨_, same⟩ | kept := overwrite_some changed found
  · cases same
  · exact kept

/-- Results stay when a slot without one changes. -/
private theorem result_stays {value : Option (Nat × Option Result)} {other : Slot}
    (changed : ∀ other, slots' other = overwrite slots slot value other)
    (idle : slots slot ≠ some (ticket, some result))
    (before : slots other = some (ticket, some result)) :
    slots' other = some (ticket, some result) := by
  have different : other ≠ slot := fun same => idle (same ▸ before)
  rw [changed, overwrite_of_ne different, before]

section

variable (ledger : Ledger slots tickets finished collected)

include ledger

/-- A free slot is given out. -/
theorem Ledger.issue
    (changed : ∀ other, slots' other = overwrite slots slot (some (tickets, none)) other)
    (free : slots slot = none) : Ledger slots' (tickets + 1) finished collected where
  issued := by
    intro other ticket result found
    obtain ⟨_, same⟩ | ⟨_, before⟩ := overwrite_some changed found
    · cases same
      exact Nat.lt_succ_self _
    · exact Nat.lt_succ_of_lt (ledger.issued other ticket result before)
  unique := by
    intro one two ticket result result' first second
    obtain ⟨rfl, same⟩ | ⟨_, first⟩ := overwrite_some changed first
    · obtain ⟨rfl, _⟩ | ⟨_, second⟩ := overwrite_some changed second
      · rfl
      · cases same
        exact absurd (ledger.issued two _ result' second) (Nat.lt_irrefl _)
    · obtain ⟨rfl, same⟩ | ⟨_, second⟩ := overwrite_some changed second
      · cases same
        exact absurd (ledger.issued one _ result first) (Nat.lt_irrefl _)
      · exact ledger.unique one two ticket result result' first second
  past := fun entry member => Nat.lt_succ_of_lt (ledger.past entry member)
  once := ledger.once
  running := by
    intro other ticket found
    obtain ⟨_, same⟩ | ⟨_, before⟩ := overwrite_some changed found
    · cases same
      intro member
      obtain ⟨entry, listed, equal⟩ := List.mem_map.mp member
      exact absurd (ledger.past entry listed) (equal ▸ Nat.lt_irrefl _)
    · exact ledger.running other ticket before
  waiting := by
    intro other ticket result found
    obtain ⟨_, same⟩ | ⟨_, before⟩ := overwrite_some changed found
    · cases same
    · exact ledger.waiting other ticket result before
  collectedOnce := ledger.collectedOnce
  sound := ledger.sound
  complete := by
    intro ticket result member
    obtain taken | ⟨other, before⟩ := ledger.complete ticket result member
    · exact .inl taken
    · exact .inr ⟨other, result_stays changed (by simp [free]) before⟩

/-- A ticket is given back without a result. -/
theorem Ledger.cancel (changed : ∀ other, slots' other = overwrite slots slot none other)
    (held : slots slot = some (ticket, none)) : Ledger slots' tickets finished collected where
  issued other ticket result found :=
    ledger.issued other ticket result (cleared_some changed found).2
  unique one two ticket result result' first second :=
    ledger.unique one two ticket result result' (cleared_some changed first).2
      (cleared_some changed second).2
  past := ledger.past
  once := ledger.once
  running other ticket found := ledger.running other ticket (cleared_some changed found).2
  waiting other ticket result found :=
    ledger.waiting other ticket result (cleared_some changed found).2
  collectedOnce := ledger.collectedOnce
  sound := ledger.sound
  complete := by
    intro ticket result member
    obtain taken | ⟨other, before⟩ := ledger.complete ticket result member
    · exact .inl taken
    · exact .inr ⟨other, result_stays changed (by simp [held]) before⟩

/-- The ticket in a slot gets its result. -/
theorem Ledger.finish
    (changed : ∀ other, slots' other = overwrite slots slot (some (ticket, some result)) other)
    (held : slots slot = some (ticket, none)) :
    Ledger slots' tickets ((ticket, result) :: finished) collected where
  issued := by
    intro other ticket' result' found
    obtain ⟨_, same⟩ | ⟨_, before⟩ := overwrite_some changed found
    · cases same
      exact ledger.issued slot _ _ held
    · exact ledger.issued other ticket' result' before
  unique := by
    intro one two ticket' first' second' first second
    obtain ⟨rfl, same⟩ | ⟨_, first⟩ := overwrite_some changed first
    · cases same
      obtain ⟨rfl, _⟩ | ⟨_, second⟩ := overwrite_some changed second
      · rfl
      · exact ledger.unique one two _ _ second' held second
    · obtain ⟨rfl, same⟩ | ⟨_, second⟩ := overwrite_some changed second
      · cases same
        exact ledger.unique one two _ first' _ first held
      · exact ledger.unique one two ticket' first' second' first second
  past := by
    intro entry member
    cases List.mem_cons.mp member with
    | inl same => exact same ▸ ledger.issued slot _ _ held
    | inr older => exact ledger.past entry older
  once := List.nodup_cons.mpr ⟨ledger.running slot ticket held, ledger.once⟩
  running := by
    intro other ticket' found
    obtain ⟨_, same⟩ | ⟨different, before⟩ := overwrite_some changed found
    · cases same
    · intro member
      cases List.mem_cons.mp member with
      | inl same =>
        cases same
        exact different (ledger.unique other slot _ _ _ before held)
      | inr older => exact ledger.running other ticket' before older
  waiting := by
    intro other ticket' result' found
    obtain ⟨_, same⟩ | ⟨_, before⟩ := overwrite_some changed found
    · cases same
      refine ⟨List.mem_cons_self, fun member => ?_⟩
      obtain ⟨entry, listed, equal⟩ := List.mem_map.mp member
      exact ledger.running slot ticket held
        (List.mem_map.mpr ⟨entry, ledger.sound entry listed, equal⟩)
    · obtain ⟨listed, uncollected⟩ := ledger.waiting other ticket' result' before
      exact ⟨List.mem_cons_of_mem _ listed, uncollected⟩
  collectedOnce := ledger.collectedOnce
  sound := fun entry member => List.mem_cons_of_mem _ (ledger.sound entry member)
  complete := by
    intro ticket' result' member
    cases List.mem_cons.mp member with
    | inl same =>
      cases same
      exact .inr ⟨slot, by rw [changed, overwrite_self]⟩
    | inr older =>
      obtain taken | ⟨other, before⟩ := ledger.complete ticket' result' older
      · exact .inl taken
      · exact .inr ⟨other, result_stays changed (by simp [held]) before⟩

/-- A result is collected, and its slot is free. -/
theorem Ledger.collect (changed : ∀ other, slots' other = overwrite slots slot none other)
    (held : slots slot = some (ticket, some result)) :
    Ledger slots' tickets finished ((ticket, result) :: collected) where
  issued other ticket' result' found :=
    ledger.issued other ticket' result' (cleared_some changed found).2
  unique one two ticket' first' second' first second :=
    ledger.unique one two ticket' first' second' (cleared_some changed first).2
      (cleared_some changed second).2
  past := ledger.past
  once := ledger.once
  running other ticket' found := ledger.running other ticket' (cleared_some changed found).2
  waiting := by
    intro other ticket' result' found
    obtain ⟨different, before⟩ := cleared_some changed found
    obtain ⟨listed, uncollected⟩ := ledger.waiting other ticket' result' before
    refine ⟨listed, fun member => ?_⟩
    cases List.mem_cons.mp member with
    | inl same =>
      cases same
      exact different (ledger.unique other slot _ _ _ before held)
    | inr older => exact uncollected older
  collectedOnce := List.nodup_cons.mpr ⟨(ledger.waiting slot ticket result held).2, ledger.collectedOnce⟩
  sound := by
    intro entry member
    cases List.mem_cons.mp member with
    | inl same => exact same ▸ (ledger.waiting slot ticket result held).1
    | inr older => exact ledger.sound entry older
  complete := by
    intro ticket' result' member
    obtain taken | ⟨other, before⟩ := ledger.complete ticket' result' member
    · exact .inl (List.mem_cons_of_mem _ taken)
    · cases Decidable.eq_or_ne other slot with
      | inl same =>
        subst same
        rw [held] at before
        cases before
        exact .inl List.mem_cons_self
      | inr different =>
        exact .inr ⟨other, by rw [changed, overwrite_of_ne different, before]⟩

end

end Xv6.Data
