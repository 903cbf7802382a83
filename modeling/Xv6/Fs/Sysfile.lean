import Xv6.Fs.Inode

namespace Xv6.Fs

open Xv6.Data Xv6.Log

/-! # Path names

`namex` from `fs.c`, run to its end; the log and the locks are left out.
-/

def ROOTINO : Nat := 1

def T_FILE : Nat := 2

/-! ## Paths -/

def slash : UInt8 := 47

def dot : Nat → UInt8
  | 0 => 46
  | _ => 0

def dotdot : Nat → UInt8
  | 0 | 1 => 46
  | _ => 0

/-- The next path element and the path that follows it. -/
def skipelem (path : List UInt8) : Option ((Nat → UInt8) × List UInt8) :=
  let path := path.dropWhile (· = slash)
  if path = [] then
    none
  else
    let element := path.takeWhile (· ≠ slash)
    some (fun index => (element.take DIRSIZ).getD index 0,
      (path.dropWhile (· ≠ slash)).dropWhile (· = slash))

variable (sb : Superblock)

/-- The loop of `namex` with the reference `ip`; `fuel` bounds the path elements. -/
def namexFrom (nameiparent : Bool) : Nat → Store → Fin NINODE → List UInt8 →
    Except Panic (Option (Fin NINODE × (Nat → UInt8)) × Store)
  | 0, fs, _, _ => .ok (none, fs)
  | fuel + 1, fs, ip, path =>
    match skipelem path with
    | none =>
      if nameiparent then do
        let fs ← iput sb fs ip
        .ok (none, fs)
      else
        .ok (some (ip, fun _ => 0), fs)
    | some (name, path) => do
      let fs ← ilock sb fs ip
      if (fs.itable ip).copy.type ≠ T_DIR then
        let fs ← iput sb fs ip
        .ok (none, fs)
      else if nameiparent ∧ path = [] then
        -- Stop one level early.
        .ok (some (ip, name), fs)
      else
        let (next, fs) ← dirlookup sb fs ip name
        let fs ← iput sb fs ip
        match next with
        | none => .ok (none, fs)
        | some (next, _) => namexFrom nameiparent fuel fs next path

def namex (fs : Store) (cwd : Fin NINODE) (path : List UInt8) (nameiparent : Bool) :
    Except Panic (Option (Fin NINODE × (Nat → UInt8)) × Store) :=
  if path.head? = some slash then do
    let (ip, fs) ← iget fs ROOTINO
    namexFrom sb nameiparent (path.length + 1) fs ip path
  else
    namexFrom sb nameiparent (path.length + 1) (idup fs cwd) cwd path

end Xv6.Fs
