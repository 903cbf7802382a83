import Xv6.Data.Overwrite
import Xv6.Data.Scan
import Xv6.Param

namespace Xv6.Sh

open Xv6.Data

/-! # The parser of the shell

The parser of `sh.c`.  The line is a list of bytes without the terminating zero, and a
pointer into it is a position; `malloc` succeeds.  A call that gets to the end of its
fuel stops with `fuel`.
-/

def MAXARGS : Nat := 10

/-- `" \t\r\n\v"` -/
def whitespace : List UInt8 := [32, 9, 13, 10, 11]

/-- `"<|>&;()"` -/
def symbols : List UInt8 := [60, 124, 62, 38, 59, 40, 41]

inductive Panic where
  /-- "syntax", after the leftovers -/
  | leftovers
  /-- "missing file for redirection" -/
  | missingFile
  | parseblock
  /-- "syntax - missing )" -/
  | missingParen
  /-- "syntax" in `parseexec` -/
  | badToken
  /-- "too many args" -/
  | tooManyArgs
deriving DecidableEq, Repr

inductive Stop where
  | fuel
  | panic (reason : Panic)
deriving DecidableEq, Repr

/-! ## Commands -/

/-- A `struct cmd`; what an argument or a file name is depends on the stage. -/
inductive Cmd (Word : Type) where
  | exec (argv : List Word)
  | redir (cmd : Cmd Word) (file : Word) (mode fd : Nat)
  | pipe (left right : Cmd Word)
  | list (left right : Cmd Word)
  | back (cmd : Cmd Word)
deriving DecidableEq, Repr

/-- The string from `q` up to `eq`. -/
structure Span where
  q : Nat
  eq : Nat
deriving DecidableEq, Repr

variable {Word Other : Type}

/-- `cmd->argv[argc] = q` for the `execcmd` that the redirections read so far are about. -/
def Cmd.addArg (word : Word) : Cmd Word → Cmd Word
  | .exec argv => .exec (argv ++ [word])
  | .redir cmd file mode fd => .redir (cmd.addArg word) file mode fd
  | other => other

def Cmd.map (convert : Word → Other) : Cmd Word → Cmd Other
  | .exec argv => .exec (argv.map convert)
  | .redir cmd file mode fd => .redir (cmd.map convert) (convert file) mode fd
  | .pipe left right => .pipe (left.map convert) (right.map convert)
  | .list left right => .list (left.map convert) (right.map convert)
  | .back cmd => .back (cmd.map convert)

/-! ## Tokens -/

variable (text : List UInt8)

/-- `*s`; the byte after the last one is zero. -/
def char (s : Nat) : UInt8 := text.getD s 0

/-- `while(s < es && strchr(whitespace, *s)) s++;` -/
def skip (s : Nat) : Nat := skipWhile (whitespace.contains ·) text s

def wordByte (c : UInt8) : Bool := !whitespace.contains c && !symbols.contains c

/-- The `switch` of `gettoken`: the token at `q` and its end. -/
def lexeme (q : Nat) : UInt8 × Nat :=
  let c := char text q
  if c = 0 then
    (0, q)
  else if c = 62 then
    if char text (q + 1) = 62 then (43, q + 2) else (62, q + 1)
  else if symbols.contains c then
    (c, q + 1)
  else
    (97, skipWhile wordByte text q)

def gettoken (s : Nat) : UInt8 × Span × Nat :=
  let q := skip text s
  let (ret, eq) := lexeme text q
  (ret, ⟨q, eq⟩, skip text eq)

def peek (s : Nat) (toks : List UInt8) : Bool × Nat :=
  let s := skip text s
  (char text s ≠ 0 && toks.contains (char text s), s)

/-! ## Parsing -/

/-- The `switch` of `parseredirs`. -/
def redirect (tok : UInt8) (cmd : Cmd Word) (file : Word) : Cmd Word :=
  if tok = 60 then
    .redir cmd file O_RDONLY 0
  else if tok = 62 then
    .redir cmd file (O_WRONLY ||| O_CREATE ||| O_TRUNC) 1
  else if tok = 43 then
    .redir cmd file (O_WRONLY ||| O_CREATE) 1
  else
    cmd

def parseredirs : Nat → Cmd Span → Nat → Except Stop (Cmd Span × Nat)
  | 0, _, _ => .error .fuel
  | fuel + 1, cmd, s =>
    let (more, s) := peek text s [60, 62]
    if more then
      let (tok, _, s) := gettoken text s
      let (next, file, s) := gettoken text s
      if next ≠ 97 then
        .error (.panic .missingFile)
      else
        parseredirs fuel (redirect tok cmd file) s
    else
      .ok (cmd, s)

/-- The loop of `parseexec`. -/
def parseargs : Nat → Cmd Span → Nat → Nat → Except Stop (Cmd Span × Nat)
  | 0, _, _, _ => .error .fuel
  | fuel + 1, ret, argc, s =>
    let (stop, s) := peek text s [124, 41, 38, 59]
    if stop then
      .ok (ret, s)
    else
      let (tok, word, s) := gettoken text s
      if tok = 0 then
        .ok (ret, s)
      else if tok ≠ 97 then
        .error (.panic .badToken)
      else if argc + 1 ≥ MAXARGS then
        .error (.panic .tooManyArgs)
      else do
        let (ret, s) ← parseredirs text fuel (ret.addArg word) s
        parseargs fuel ret (argc + 1) s

/-- The `while` of `parseline`. -/
def parsebacks : Nat → Cmd Span → Nat → Except Stop (Cmd Span × Nat)
  | 0, _, _ => .error .fuel
  | fuel + 1, cmd, s =>
    let (more, s) := peek text s [38]
    if more then
      let (_, _, s) := gettoken text s
      parsebacks fuel (.back cmd) s
    else
      .ok (cmd, s)

mutual

def parseline : Nat → Nat → Except Stop (Cmd Span × Nat)
  | 0, _ => .error .fuel
  | fuel + 1, s => do
    let (cmd, s) ← parsepipe fuel s
    let (cmd, s) ← parsebacks text fuel cmd s
    let (more, s) := peek text s [59]
    if more then
      let (_, _, s) := gettoken text s
      let (right, s) ← parseline fuel s
      .ok (.list cmd right, s)
    else
      .ok (cmd, s)

def parsepipe : Nat → Nat → Except Stop (Cmd Span × Nat)
  | 0, _ => .error .fuel
  | fuel + 1, s => do
    let (cmd, s) ← parseexec fuel s
    let (more, s) := peek text s [124]
    if more then
      let (_, _, s) := gettoken text s
      let (right, s) ← parsepipe fuel s
      .ok (.pipe cmd right, s)
    else
      .ok (cmd, s)

def parseblock : Nat → Nat → Except Stop (Cmd Span × Nat)
  | 0, _ => .error .fuel
  | fuel + 1, s => do
    let (opened, s) := peek text s [40]
    if !opened then
      .error (.panic .parseblock)
    else
      let (_, _, s) := gettoken text s
      let (cmd, s) ← parseline fuel s
      let (closed, s) := peek text s [41]
      if !closed then
        .error (.panic .missingParen)
      else
        let (_, _, s) := gettoken text s
        parseredirs text fuel cmd s

def parseexec : Nat → Nat → Except Stop (Cmd Span × Nat)
  | 0, _ => .error .fuel
  | fuel + 1, s => do
    let (block, s) := peek text s [40]
    if block then
      parseblock fuel s
    else
      let (ret, s) ← parseredirs text fuel (.exec []) s
      parseargs text fuel ret 0 s

end

/-- NUL-terminate all the counted strings. -/
def nulterminate : (Nat → UInt8) → Cmd Span → Nat → UInt8
  | buffer, .exec argv => argv.foldl (fun buffer word => overwrite buffer word.eq 0) buffer
  | buffer, .redir cmd file _ _ => overwrite (nulterminate buffer cmd) file.eq 0
  | buffer, .pipe left right | buffer, .list left right =>
    nulterminate (nulterminate buffer left) right
  | buffer, .back cmd => nulterminate buffer cmd

/-- The command, and the line with the zeros that `nulterminate` puts in. -/
def parsecmd (fuel : Nat) : Except Stop (Cmd Span × (Nat → UInt8)) := do
  let (cmd, s) ← parseline text fuel 0
  let (_, s) := peek text s []
  if s ≠ text.length then
    .error (.panic .leftovers)
  else
    .ok (cmd, nulterminate (char text) cmd)

/-- The C string at `q`. -/
def cstring (buffer : Nat → UInt8) (q : Nat) : List UInt8 :=
  ((List.range (text.length + 1)).map fun index => buffer (q + index)).takeWhile (· ≠ 0)

/-- The command with the strings that its pointers lead to. -/
def strings (result : Cmd Span × (Nat → UInt8)) : Cmd (List UInt8) :=
  result.1.map fun word => cstring text result.2 word.q

end Xv6.Sh
