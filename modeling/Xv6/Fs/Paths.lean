import Xv6.Fs.Sysfile
import Xv6.Fs.Table

namespace Xv6.Fs

open Xv6.Data Xv6.Log

/-! # Path names and what they name

Path names as lists of components, and the inode that such a list leads to.
-/

/-- The components of a path name: split at `/`, without empty ones, cut to `DIRSIZ` bytes. -/
def components (path : List UInt8) : List (List UInt8) :=
  ((path.splitOn slash).filter (· ≠ [])).map (List.take DIRSIZ)

/-- A component in the buffer that `skipelem` fills. -/
def nameBuffer (component : List UInt8) (index : Nat) : UInt8 := component.getD index 0

theorem components_slash (path : List UInt8) : components (slash :: path) = components path := by
  have split : (slash :: path).splitOn slash = [] :: path.splitOn slash :=
    List.splitOnP_append_cons_of_forall_mem (show ∀ byte ∈ [], (byte == slash) = false by simp)
      slash rfl path
  simp [components, split]

theorem components_dropWhile (path : List UInt8) :
    components (path.dropWhile (· = slash)) = components path := by
  induction path with
  | nil => rfl
  | cons byte rest ih =>
    rw [List.dropWhile_cons]
    split
    · rename_i isSlash
      obtain rfl : byte = slash := by simpa using isSlash
      rw [ih, components_slash]
    · rfl

theorem components_element {element rest : List UInt8} (nonempty : element ≠ [])
    (inside : ∀ byte ∈ element, byte ≠ slash) (ends : rest = [] ∨ ∃ tail, rest = slash :: tail) :
    components (element ++ rest) = element.take DIRSIZ :: components rest := by
  have clean : ∀ byte ∈ element, (byte == slash) = false := by
    intro byte member
    simpa using inside byte member
  rcases ends with rfl | ⟨tail, rfl⟩
  · have split : element.splitOn slash = [element] := List.splitOnP_eq_singleton clean
    rw [List.append_nil, components, split, List.filter_cons_of_pos (by simpa using nonempty)]
    rfl
  · have split : (element ++ slash :: tail).splitOn slash = element :: tail.splitOn slash :=
      List.splitOnP_append_cons_of_forall_mem clean slash (by simp) tail
    rw [components_slash, components, split, List.filter_cons_of_pos (by simpa using nonempty)]
    rfl

/-- The first byte is no slash, so a component starts there. -/
theorem components_cons {byte : UInt8} (tail : List UInt8) (notSlash : byte ≠ slash) :
    components (byte :: tail) = ((byte :: tail).takeWhile (· ≠ slash)).take DIRSIZ ::
      components ((byte :: tail).dropWhile (· ≠ slash)) := by
  have whole : byte :: tail = (byte :: tail).takeWhile (· ≠ slash) ++
      (byte :: tail).dropWhile (· ≠ slash) := List.takeWhile_append_dropWhile.symm
  have ends : (byte :: tail).dropWhile (· ≠ slash) = [] ∨
      ∃ after, (byte :: tail).dropWhile (· ≠ slash) = slash :: after := by
    cases later : (byte :: tail).dropWhile (· ≠ slash) with
    | nil => exact Or.inl rfl
    | cons first after =>
      have stopped := List.head?_dropWhile_not (fun byte => decide (byte ≠ slash)) (byte :: tail)
      rw [later] at stopped
      exact Or.inr ⟨after, by simpa using stopped⟩
  have nonempty : (byte :: tail).takeWhile (· ≠ slash) ≠ [] := by
    rw [List.takeWhile_cons_of_pos (by simpa using notSlash)]
    exact List.cons_ne_nil _ _
  have inside : ∀ other ∈ (byte :: tail).takeWhile (· ≠ slash), other ≠ slash := by
    intro other member
    simpa using List.all_eq_true.mp List.all_takeWhile other member
  have split := components_element nonempty inside ends
  rwa [← whole] at split

theorem dropWhile_slash (path : List UInt8) : path.dropWhile (· = slash) = [] ∨
      ∃ byte tail, path.dropWhile (· = slash) = byte :: tail ∧ byte ≠ slash := by
  cases later : path.dropWhile (· = slash) with
  | nil => exact Or.inl rfl
  | cons byte tail =>
    have stopped := List.head?_dropWhile_not (fun byte => decide (byte = slash)) path
    rw [later] at stopped
    exact Or.inr ⟨byte, tail, rfl, by simpa using stopped⟩

/-- `skipelem` takes the first component off a path name, and leaves the empty string exactly
if it was the last one. -/
theorem skipelem_spec (path : List UInt8) : (skipelem path = none ∧ components path = []) ∨
    ∃ component rest, skipelem path = some (nameBuffer component, rest) ∧
      components path = component :: components rest ∧ (rest = [] ↔ components rest = []) ∧
      rest.length < path.length := by
  have shorter : (path.dropWhile (· = slash)).length ≤ path.length :=
    (List.dropWhile_sublist _).length_le
  rw [← components_dropWhile path, skipelem]
  rcases dropWhile_slash path with empty | ⟨byte, tail, body, notSlash⟩
  · rw [empty]
    exact Or.inl ⟨rfl, rfl⟩
  · rw [body] at shorter ⊢
    refine Or.inr ⟨_, _, if_neg (List.cons_ne_nil _ _), ?_, ?_, ?_⟩
    · rw [components_cons tail notSlash, components_dropWhile]
    · rcases dropWhile_slash ((byte :: tail).dropWhile (· ≠ slash)) with
        empty | ⟨first, after, next, noSlash⟩
      · rw [empty]
        exact ⟨fun _ => rfl, fun _ => rfl⟩
      · rw [next, components_cons after noSlash]
        exact ⟨nofun, nofun⟩
    · have later := (List.dropWhile_sublist (l := (byte :: tail).dropWhile (· ≠ slash))
        (· = slash)).length_le
      rw [List.dropWhile_cons_of_pos (by simpa using notSlash)] at later ⊢
      have rest := (List.dropWhile_sublist (l := tail) (· ≠ slash)).length_le
      simp only [List.length_cons] at shorter
      omega

/-! ## Directories as maps -/

/-- The inode number in the first entry of a directory with a name. -/
def View.lookup (view : View) (dir : Nat) (name : Fin DIRSIZ → UInt8) : Option Nat :=
  ((view.dirents dir).find? (·.matches name)).map Dirent.inum

/-- Follow the components of a path name from an inode. -/
def View.resolve (view : View) : Nat → List (List UInt8) → Option Nat
  | inum, [] => some inum
  | inum, component :: rest =>
    if (view.inode inum).type = T_DIR then
      (view.lookup inum (key (nameBuffer component))).bind fun next => view.resolve next rest
    else
      none

/-- The directory that holds, or would hold, the last component, and that component. -/
def View.resolveParent (view : View) (inum : Nat) (path : List (List UInt8)) :
    Option (Nat × List UInt8) :=
  path.getLast?.bind fun last => (view.resolve inum path.dropLast).bind fun dir =>
    if (view.inode dir).type = T_DIR then some (dir, last) else none

theorem findFrom_fst {name : Fin DIRSIZ → UInt8} {entries : List Dirent} (index : Nat) :
    (findFrom name entries index).map Prod.fst =
      ((entries.drop index).find? (·.matches name)).map Dirent.inum := by
  rcases Nat.lt_or_ge index entries.length with inside | done
  · rw [findFrom_step inside, List.drop_eq_getElem_cons inside, List.find?_cons]
    split
    · rename_i matched
      rw [matched]
      rfl
    · rename_i other
      rw [Bool.eq_false_of_not_eq_true other]
      exact findFrom_fst (index + 1)
  · rw [findFrom_end done, List.drop_eq_nil_of_le done]
    rfl
termination_by entries.length - index

end Xv6.Fs
