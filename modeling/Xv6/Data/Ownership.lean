import Mathlib.Init

namespace Xv6.Data

/-! Exclusive ownership.

`target place` is the block that a place refers to, or `null`.  Ownership is exact
when the blocks referred to are the used ones and no block has two references.
-/

variable {Place Block : Type}

structure Exact (null : Block) (target : Place → Block) (used : Block → Prop) : Prop where
  proper : ¬used null
  marked : ∀ place, target place ≠ null → used (target place)
  unique : ∀ place other, target place ≠ null → target place = target other → place = other
  covered : ∀ block, used block → ∃ place, target place = block

variable {null : Block} {target target' : Place → Block} {used used' : Block → Prop}

section

variable (exact : Exact null target used)

include exact

theorem Exact.ne_null {place : Place} (isUsed : used (target place)) : target place ≠ null :=
  fun equal => exact.proper (equal ▸ isUsed)

theorem Exact.congr (sameTarget : ∀ place, target' place = target place)
    (sameUsed : ∀ block, used' block ↔ used block) : Exact null target' used' := by
  obtain rfl : target' = target := funext sameTarget
  obtain rfl : used' = used := funext fun block => propext (sameUsed block)
  exact exact

/-- Unused blocks are given to some places that had none. -/
theorem Exact.extend (owner : Place → Prop) (vacant : ∀ place, owner place → target place = null)
    (unused : ∀ place, owner place → ¬used (target' place))
    (nonnull : ∀ place, owner place → target' place ≠ null)
    (distinct : ∀ place other, owner place → owner other → target' place = target' other →
      place = other)
    (others : ∀ place, ¬owner place → target' place = target place)
    (nowUsed : ∀ block, used' block ↔ used block ∨ ∃ place, owner place ∧ target' place = block) :
    Exact null target' used' := by
  -- No other place can refer to the new blocks, which were unused.
  have fresh : ∀ place other, ¬owner place → owner other → target' place ≠ target' other := by
    intro place other outside inside equal
    rw [others place outside] at equal
    exact unused other inside (equal ▸ exact.marked place (equal ▸ nonnull other inside))
  constructor
  · intro nullUsed
    cases (nowUsed null).mp nullUsed with
    | inl before => exact exact.proper before
    | inr given =>
      obtain ⟨place, inside, equal⟩ := given
      exact nonnull place inside equal
  · intro place present
    apply (nowUsed _).mpr
    by_cases inside : owner place
    · exact Or.inr ⟨place, inside, rfl⟩
    · rw [others place inside] at present ⊢
      exact Or.inl (exact.marked place present)
  · intro place other present equal
    by_cases placeInside : owner place <;> by_cases otherInside : owner other
    · exact distinct place other placeInside otherInside equal
    · exact absurd equal.symm (fresh other place otherInside placeInside)
    · exact absurd equal (fresh place other placeInside otherInside)
    · rw [others place placeInside] at present equal
      rw [others other otherInside] at equal
      exact exact.unique place other present equal
  · intro block isUsed
    cases (nowUsed block).mp isUsed with
    | inl before =>
      obtain ⟨place, rfl⟩ := exact.covered block before
      have outside : ¬owner place := fun inside => exact.ne_null before (vacant place inside)
      exact ⟨place, others place outside⟩
    | inr given =>
      obtain ⟨place, _, equal⟩ := given
      exact ⟨place, equal⟩

/-- An unused block is given to a place that had none. -/
theorem Exact.grow {owner : Place} {block : Block} (vacant : target owner = null)
    (unused : ¬used block) (nonnull : block ≠ null)
    (given : target' owner = block) (others : ∀ place, place ≠ owner → target' place = target place)
    (nowUsed : ∀ other, used' other ↔ used other ∨ other = block) :
    Exact null target' used' := by
  refine exact.extend (· = owner) ?_ ?_ ?_ ?_ others fun other => ?_
  · rintro _ rfl
    exact vacant
  · rintro _ rfl
    exact given ▸ unused
  · rintro _ rfl
    exact given ▸ nonnull
  · rintro _ _ rfl rfl _
    rfl
  · rw [nowUsed other, exists_eq_left, given, eq_comm (a := block)]

/-- The blocks of some places are given up. -/
theorem Exact.shrink {gone : Place → Prop} (cleared : ∀ place, gone place → target' place = null)
    (others : ∀ place, ¬gone place → target' place = target place)
    (nowUsed : ∀ block, used' block ↔ used block ∧ ∀ place, gone place → target place ≠ block) :
    Exact null target' used' := by
  have kept : ∀ place, target' place ≠ null → ¬gone place :=
    fun place present isGone => present (cleared place isGone)
  constructor
  · intro nullUsed
    exact exact.proper ((nowUsed null).mp nullUsed).1
  · intro place present
    have stays := kept place present
    rw [others place stays] at present ⊢
    refine (nowUsed _).mpr ⟨exact.marked place present, fun other isGone equal => ?_⟩
    exact stays (exact.unique place other present equal.symm ▸ isGone)
  · intro place other present equal
    have stays := kept place present
    have otherStays := kept other (equal ▸ present)
    rw [others place stays] at present equal
    rw [others other otherStays] at equal
    exact exact.unique place other present equal
  · intro block isUsed
    obtain ⟨before, free⟩ := (nowUsed block).mp isUsed
    obtain ⟨place, found⟩ := exact.covered block before
    exact ⟨place, by rw [others place fun isGone => free place isGone found, found]⟩

end

end Xv6.Data
