import Xv6.Data.Overwrite

namespace Xv6.Data

/-! Locks and their owners.

Each lock records its owner, and each owner knows the one lock it holds; the two views
agree as locks are taken and given up.
-/

variable {Key Owner : Type}

def Holding (holder : Key → Option Owner) (held : Owner → Option Key) : Prop :=
  ∀ key owner, holder key = some owner ↔ held owner = some key

variable {holder holder' : Key → Option Owner} {held held' : Owner → Option Key} {key : Key}
  {owner : Owner}

theorem Holding.congr (holding : Holding holder held) (sameHolder : ∀ key, holder' key = holder key)
    (sameHeld : ∀ owner, held' owner = held owner) : Holding holder' held' := by
  intro key owner
  rw [sameHolder, sameHeld]
  exact holding key owner

theorem Holding.unique (holding : Holding holder held) {other : Owner} (mine : held owner = some key)
    (theirs : held other = some key) : owner = other := by
  rw [← holding] at mine theirs
  exact Option.some.inj (mine.symm.trans theirs)

variable [DecidableEq Key] [DecidableEq Owner]

theorem Holding.acquire (holding : Holding holder held) (free : holder key = none)
    (idle : held owner = none) (taken : ∀ other, holder' other = overwrite holder key (some owner) other)
    (holds : ∀ other, held' other = overwrite held owner (some key) other) :
    Holding holder' held' := by
  intro lock who
  rw [taken, holds]
  by_cases sameLock : lock = key <;> by_cases sameOwner : who = owner
  · simp [sameLock, sameOwner]
  · have notHeld : held who ≠ some key := fun found => by
      rw [← holding, free] at found
      contradiction
    simp [sameLock, sameOwner, Ne.symm sameOwner, notHeld]
  · have notHolder : holder lock ≠ some owner := fun found => by
      rw [holding, idle] at found
      contradiction
    simp [sameLock, sameOwner, Ne.symm sameLock, notHolder]
  · simp [sameLock, sameOwner, holding lock who]

theorem Holding.release (holding : Holding holder held) (mine : held owner = some key)
    (freed : ∀ other, holder' other = overwrite holder key none other)
    (idle : ∀ other, held' other = overwrite held owner none other) : Holding holder' held' := by
  intro lock who
  rw [freed, idle]
  by_cases sameLock : lock = key <;> by_cases sameOwner : who = owner
  · simp [sameLock, sameOwner]
  · have notHeld : held who ≠ some key := fun found => by
      rw [← holding, (holding key owner).mpr mine] at found
      exact sameOwner (Option.some.inj found).symm
    simp [sameLock, sameOwner, notHeld]
  · have notHolder : holder lock ≠ some owner := fun found => by
      rw [holding, mine] at found
      exact sameLock (Option.some.inj found).symm
    simp [sameLock, sameOwner, notHolder]
  · simp [sameLock, sameOwner, holding lock who]

end Xv6.Data
