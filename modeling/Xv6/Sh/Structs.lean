import Xv6.Sh.Line

namespace Xv6.Sh.Structs

open Xv6.Data

/-! # The structs of a command

The parser with the arrays of `struct execcmd`, each of `MAXARGS` pointers, and
`nulterminate`, which reads them up to the null pointer.  The null pointer is `none`.
-/

inductive Fault where
  | stop (reason : Stop)
  /-- A slot that the array does not have. -/
  | bounds
  | null
deriving DecidableEq, Repr

structure Execcmd where
  argv : Vector (Option Nat) MAXARGS
  eargv : Vector (Option Nat) MAXARGS
deriving DecidableEq, Repr

inductive Node where
  | exec (cmd : Execcmd)
  | redir (cmd : Node) (file efile mode fd : Nat)
  | pipe (left right : Node)
  | list (left right : Node)
  | back (cmd : Node)
deriving DecidableEq, Repr

/-- After `memset` all pointers are null. -/
def execcmd : Node :=
  .exec ⟨Vector.replicate MAXARGS none, Vector.replicate MAXARGS none⟩

/-- `cmd->argv[argc] = q; cmd->eargv[argc] = eq;` -/
def Execcmd.store (cmd : Execcmd) (argc : Nat) (q eq : Option Nat) : Except Fault Execcmd :=
  if below : argc < MAXARGS then
    .ok ⟨cmd.argv.set argc q below, cmd.eargv.set argc eq below⟩
  else
    .error .bounds

/-- The same for the `execcmd` that the redirections read so far are about. -/
def Node.store (argc : Nat) (q eq : Option Nat) : Node → Except Fault Node
  | .exec cmd => do
    let cmd ← cmd.store argc q eq
    .ok (.exec cmd)
  | .redir cmd file efile mode fd => do
    let cmd ← cmd.store argc q eq
    .ok (.redir cmd file efile mode fd)
  | other => .ok other

/-! ## Parsing -/

variable (text : List UInt8)

/-- The `switch` of `parseredirs`. -/
def redirect (tok : UInt8) (cmd : Node) (file : Span) : Node :=
  if tok = 60 then
    .redir cmd file.q file.eq O_RDONLY 0
  else if tok = 62 then
    .redir cmd file.q file.eq (O_WRONLY ||| O_CREATE ||| O_TRUNC) 1
  else if tok = 43 then
    .redir cmd file.q file.eq (O_WRONLY ||| O_CREATE) 1
  else
    cmd

def parseredirs : Nat → Node → Nat → Except Fault (Node × Nat)
  | 0, _, _ => .error (.stop .fuel)
  | fuel + 1, cmd, s =>
    let (more, s) := peek text s [60, 62]
    if more then
      let (tok, _, s) := gettoken text s
      let (next, file, s) := gettoken text s
      if next ≠ 97 then
        .error (.stop (.panic .missingFile))
      else
        parseredirs fuel (redirect tok cmd file) s
    else
      .ok (cmd, s)

/-- The loop of `parseexec` and the null pointers after it. -/
def parseargs : Nat → Node → Nat → Nat → Except Fault (Node × Nat)
  | 0, _, _, _ => .error (.stop .fuel)
  | fuel + 1, ret, argc, s => do
    let (stop, s) := peek text s [124, 41, 38, 59]
    if stop then
      let ret ← ret.store argc none none
      .ok (ret, s)
    else
      let (tok, word, s) := gettoken text s
      if tok = 0 then
        let ret ← ret.store argc none none
        .ok (ret, s)
      else if tok ≠ 97 then
        .error (.stop (.panic .badToken))
      else
        let ret ← ret.store argc (some word.q) (some word.eq)
        if argc + 1 ≥ MAXARGS then
          .error (.stop (.panic .tooManyArgs))
        else
          let (ret, s) ← parseredirs text fuel ret s
          parseargs fuel ret (argc + 1) s

/-- The `while` of `parseline`. -/
def parsebacks : Nat → Node → Nat → Except Fault (Node × Nat)
  | 0, _, _ => .error (.stop .fuel)
  | fuel + 1, cmd, s =>
    let (more, s) := peek text s [38]
    if more then
      let (_, _, s) := gettoken text s
      parsebacks fuel (.back cmd) s
    else
      .ok (cmd, s)

mutual

def parseline : Nat → Nat → Except Fault (Node × Nat)
  | 0, _ => .error (.stop .fuel)
  | fuel + 1, s => do
    let (cmd, s) ← parsepipe fuel s
    let (cmd, s) ← parsebacks text fuel cmd s
    let (more, s) := peek text s [59]
    if more then
      let (_, _, s) := gettoken text s
      let (right, s) ← parseline fuel s
      .ok (.list cmd right, s)
    else
      .ok (cmd, s)

def parsepipe : Nat → Nat → Except Fault (Node × Nat)
  | 0, _ => .error (.stop .fuel)
  | fuel + 1, s => do
    let (cmd, s) ← parseexec fuel s
    let (more, s) := peek text s [124]
    if more then
      let (_, _, s) := gettoken text s
      let (right, s) ← parsepipe fuel s
      .ok (.pipe cmd right, s)
    else
      .ok (cmd, s)

def parseblock : Nat → Nat → Except Fault (Node × Nat)
  | 0, _ => .error (.stop .fuel)
  | fuel + 1, s => do
    let (opened, s) := peek text s [40]
    if !opened then
      .error (.stop (.panic .parseblock))
    else
      let (_, _, s) := gettoken text s
      let (cmd, s) ← parseline fuel s
      let (closed, s) := peek text s [41]
      if !closed then
        .error (.stop (.panic .missingParen))
      else
        let (_, _, s) := gettoken text s
        parseredirs text fuel cmd s

def parseexec : Nat → Nat → Except Fault (Node × Nat)
  | 0, _ => .error (.stop .fuel)
  | fuel + 1, s => do
    let (block, s) := peek text s [40]
    if block then
      parseblock fuel s
    else
      let (ret, s) ← parseredirs text fuel execcmd s
      parseargs text fuel ret 0 s

end

/-- `for(i=0; ecmd->argv[i]; i++) *ecmd->eargv[i] = 0;` with at most `fuel` slots left. -/
def terminateArgs (cmd : Execcmd) : Nat → Nat → (Nat → UInt8) → Except Fault (Nat → UInt8)
  | 0, _, _ => .error .bounds
  | fuel + 1, i, buffer =>
    match cmd.argv[i]? with
    | none => .error .bounds
    | some none => .ok buffer
    | some (some _) =>
      match cmd.eargv[i]? with
      | none => .error .bounds
      | some none => .error .null
      | some (some eq) => terminateArgs cmd fuel (i + 1) (overwrite buffer eq 0)

/-- NUL-terminate all the counted strings. -/
def nulterminate : (Nat → UInt8) → Node → Except Fault (Nat → UInt8)
  | buffer, .exec cmd => terminateArgs cmd MAXARGS 0 buffer
  | buffer, .redir cmd _ efile _ _ => do
    let buffer ← nulterminate buffer cmd
    .ok (overwrite buffer efile 0)
  | buffer, .pipe left right | buffer, .list left right => do
    let buffer ← nulterminate buffer left
    nulterminate buffer right
  | buffer, .back cmd => nulterminate buffer cmd

def parsecmd (fuel : Nat) : Except Fault (Node × (Nat → UInt8)) := do
  let (cmd, s) ← parseline text fuel 0
  let (_, s) := peek text s []
  if s ≠ text.length then
    .error (.stop (.panic .leftovers))
  else
    let buffer ← nulterminate (char text) cmd
    .ok (cmd, buffer)

/-! ## Layout -/

variable {text}

def slots (words : List Span) : Execcmd :=
  ⟨Vector.ofFn fun index => words[index.val]?.map Span.q,
    Vector.ofFn fun index => words[index.val]?.map Span.eq⟩

/-- The structs of a command. -/
def layout : Cmd Span → Node
  | .exec argv => .exec (slots argv)
  | .redir cmd file mode fd => .redir (layout cmd) file.q file.eq mode fd
  | .pipe left right => .pipe (layout left) (layout right)
  | .list left right => .list (layout left) (layout right)
  | .back cmd => .back (layout cmd)

/-- The words of the `execcmd` inside the redirections. -/
def innermost : Cmd Span → Option (List Span)
  | .exec argv => some argv
  | .redir cmd _ _ _ => innermost cmd
  | _ => none

/-- The outcome of a function of the parser, with the structs. -/
def placed : Except Stop (Cmd Span × Nat) → Except Fault (Node × Nat)
  | .error reason => .error (.stop reason)
  | .ok (cmd, s) => .ok (layout cmd, s)

variable {words : List Span}

theorem slots_store (below : words.length < MAXARGS) (word : Span) :
    (slots words).store words.length (some word.q) (some word.eq) = .ok (slots (words ++ [word])) := by
  have entry : ∀ part : Span → Nat,
      (Vector.ofFn fun index : Fin MAXARGS => words[index.val]?.map part).set words.length (some (part word)) below =
        Vector.ofFn fun index => (words ++ [word])[index.val]?.map part := by
    intro part
    apply Vector.ext
    intro index inside
    rw [Vector.getElem_set, Vector.getElem_ofFn, Vector.getElem_ofFn]
    split
    · rename_i here
      subst here
      rw [List.getElem?_concat_length]
      rfl
    · rename_i other
      rw [List.getElem?_append]
      split
      · rfl
      · rename_i above
        have after : words.length + 1 ≤ index := by
          simp only [not_lt] at above
          omega
        rw [List.getElem?_eq_none (Nat.le_of_succ_le after), List.getElem?_eq_none (Nat.le_sub_of_add_le' after)]
  rw [Execcmd.store, dif_pos below, slots, entry, entry, slots]

theorem slots_close (below : words.length < MAXARGS) :
    (slots words).store words.length none none = .ok (slots words) := by
  have entry : ∀ part : Span → Nat,
      (Vector.ofFn fun index : Fin MAXARGS => words[index.val]?.map part).set words.length none below =
        Vector.ofFn fun index => words[index.val]?.map part := by
    intro part
    apply Vector.ext
    intro index inside
    rw [Vector.getElem_set, Vector.getElem_ofFn]
    split
    · rename_i here
      subst here
      rw [List.getElem?_eq_none (Nat.le_refl _)]
      rfl
    · rfl
  rw [Execcmd.store, dif_pos below, slots, entry, entry]

variable {cmd : Cmd Span}

theorem layout_store (inner : innermost cmd = some words) (below : words.length < MAXARGS)
    (word : Span) :
    (layout cmd).store words.length (some word.q) (some word.eq) = .ok (layout (cmd.addArg word)) := by
  induction cmd with
  | exec argv =>
    cases inner
    rw [layout, Node.store, slots_store below]
    rfl
  | redir cmd file mode fd ih =>
    rw [layout, Node.store, ih inner]
    rfl
  | pipe | list | back => cases inner

theorem layout_close (inner : innermost cmd = some words) (below : words.length < MAXARGS) :
    (layout cmd).store words.length none none = .ok (layout cmd) := by
  induction cmd with
  | exec argv =>
    cases inner
    rw [layout, Node.store, slots_close below]
    rfl
  | redir cmd file mode fd ih =>
    rw [layout, Node.store, ih inner]
    rfl
  | pipe | list | back => cases inner

theorem innermost_addArg (inner : innermost cmd = some words) (word : Span) :
    innermost (cmd.addArg word) = some (words ++ [word]) := by
  induction cmd with
  | exec argv =>
    cases inner
    rfl
  | redir cmd file mode fd ih => exact ih inner
  | pipe | list | back => cases inner

theorem layout_redirect (tok : UInt8) (cmd : Cmd Span) (file : Span) :
    redirect tok (layout cmd) file = layout (Sh.redirect tok cmd file) := by
  unfold redirect Sh.redirect
  split_ifs <;> rfl

theorem innermost_redirect (tok : UInt8) (cmd : Cmd Span) (file : Span) :
    innermost (Sh.redirect tok cmd file) = innermost cmd := by
  unfold Sh.redirect
  split_ifs <;> rfl

/-! ## Simulation -/

theorem parseredirs_placed (fuel : Nat) (cmd : Cmd Span) (s : Nat) :
    parseredirs text fuel (layout cmd) s = placed (Sh.parseredirs text fuel cmd s) := by
  induction fuel generalizing cmd s with
  | zero => rfl
  | succ fuel ih =>
    rw [parseredirs, Sh.parseredirs]
    simp only [layout_redirect, ih]
    split
    · split <;> rfl
    · rfl

theorem parseredirs_innermost (fuel : Nat) (cmd : Cmd Span) (s : Nat) :
    Ensures (fun _ => True) (fun result => innermost result.1 = innermost cmd)
      (Sh.parseredirs text fuel cmd s) := by
  induction fuel generalizing cmd s with
  | zero => trivial
  | succ fuel ih =>
    rw [Sh.parseredirs]
    simp only
    split
    · split
      · trivial
      · have next := ih (Sh.redirect (gettoken text (peek text s [60, 62]).2).1 cmd
          (gettoken text (gettoken text (peek text s [60, 62]).2).2.2).2.1)
          (gettoken text (gettoken text (peek text s [60, 62]).2).2.2).2.2
        rw [innermost_redirect] at next
        exact next
    · exact rfl

theorem parsebacks_placed (fuel : Nat) (cmd : Cmd Span) (s : Nat) :
    parsebacks text fuel (layout cmd) s = placed (Sh.parsebacks text fuel cmd s) := by
  induction fuel generalizing cmd s with
  | zero => rfl
  | succ fuel ih =>
    rw [parsebacks, Sh.parsebacks]
    simp only
    split
    · exact ih (.back cmd) _
    · rfl

/-- The loop stays inside the arrays: it stops before a word takes the last slot. -/
theorem parseargs_placed (fuel : Nat) (ret : Cmd Span) (words : List Span) (s : Nat)
    (inner : innermost ret = some words) (below : words.length < MAXARGS) :
    parseargs text fuel (layout ret) words.length s =
      placed (Sh.parseargs text fuel ret words.length s) := by
  induction fuel generalizing ret words s with
  | zero => rfl
  | succ fuel ih =>
    rw [parseargs, Sh.parseargs]
    simp only [layout_close inner below, layout_store inner below, ok_bind]
    split
    · rfl
    split
    · rfl
    split
    · rfl
    split
    · rfl
    rename_i room
    rw [parseredirs_placed]
    have kept := @parseredirs_innermost text fuel
      (ret.addArg (gettoken text (peek text s [124, 41, 38, 59]).2).2.1)
      (gettoken text (peek text s [124, 41, 38, 59]).2).2.2
    rw [innermost_addArg inner] at kept
    cases ran : Sh.parseredirs text fuel
        (ret.addArg (gettoken text (peek text s [124, 41, 38, 59]).2).2.1)
        (gettoken text (peek text s [124, 41, 38, 59]).2).2.2 with
    | error stop => rfl
    | ok result =>
      rw [ran] at kept
      have next := ih result.1 _ result.2 kept (by
        rw [List.length_append, List.length_singleton]
        omega)
      rw [List.length_append, List.length_singleton] at next
      exact next

/-- The two parsers agree on all four procedures. -/
structure Agrees (text : List UInt8) (fuel : Nat) : Prop where
  line : ∀ s, parseline text fuel s = placed (Sh.parseline text fuel s)
  pipe : ∀ s, parsepipe text fuel s = placed (Sh.parsepipe text fuel s)
  exec : ∀ s, parseexec text fuel s = placed (Sh.parseexec text fuel s)
  block : ∀ s, parseblock text fuel s = placed (Sh.parseblock text fuel s)

variable {fuel : Nat}

theorem parsepipe_placed (known : Agrees text fuel) (s : Nat) :
    parsepipe text (fuel + 1) s = placed (Sh.parsepipe text (fuel + 1) s) := by
  rw [parsepipe, Sh.parsepipe, known.exec]
  cases Sh.parseexec text fuel s with
  | error stop => rfl
  | ok result =>
    simp only [placed, ok_bind, known.pipe]
    split
    · cases Sh.parsepipe text fuel (gettoken text (peek text result.2 [124]).2).2.2 <;> rfl
    · rfl

theorem parseline_placed (known : Agrees text fuel) (s : Nat) :
    parseline text (fuel + 1) s = placed (Sh.parseline text (fuel + 1) s) := by
  rw [parseline, Sh.parseline, known.pipe]
  cases Sh.parsepipe text fuel s with
  | error stop => rfl
  | ok result =>
    simp only [placed, ok_bind, parsebacks_placed]
    cases Sh.parsebacks text fuel result.1 result.2 with
    | error stop => rfl
    | ok result =>
      simp only [placed, ok_bind, known.line]
      split
      · cases Sh.parseline text fuel (gettoken text (peek text result.2 [59]).2).2.2 <;> rfl
      · rfl

theorem parseblock_placed (known : Agrees text fuel) (s : Nat) :
    parseblock text (fuel + 1) s = placed (Sh.parseblock text (fuel + 1) s) := by
  rw [parseblock, Sh.parseblock]
  simp only [known.line]
  split
  · rfl
  cases Sh.parseline text fuel (gettoken text (peek text s [40]).2).2.2 with
  | error stop => rfl
  | ok result =>
    simp only [placed, ok_bind, parseredirs_placed]
    split <;> rfl

theorem parseexec_placed (known : Agrees text fuel) (s : Nat) :
    parseexec text (fuel + 1) s = placed (Sh.parseexec text (fuel + 1) s) := by
  have empty : execcmd = layout (.exec []) := by decide
  rw [parseexec, Sh.parseexec]
  simp only [known.block, empty, parseredirs_placed]
  split
  · rfl
  have kept := @parseredirs_innermost text fuel (.exec []) (peek text s [40]).2
  cases ran : Sh.parseredirs text fuel (.exec []) (peek text s [40]).2 with
  | error stop => rfl
  | ok result =>
    rw [ran] at kept
    exact parseargs_placed fuel result.1 [] result.2 kept (by decide)

theorem agrees (text : List UInt8) (fuel : Nat) : Agrees text fuel := by
  induction fuel with
  | zero =>
    refine ⟨fun s => ?_, fun s => ?_, fun s => ?_, fun s => ?_⟩
    · rw [parseline, Sh.parseline, placed]
    · rw [parsepipe, Sh.parsepipe, placed]
    · rw [parseexec, Sh.parseexec, placed]
    · rw [parseblock, Sh.parseblock, placed]
  | succ fuel known =>
    exact ⟨parseline_placed known, parsepipe_placed known, parseexec_placed known, parseblock_placed known⟩

/-! ## The null pointers -/

/-- There is a slot for the null pointer. -/
def Fits {Word : Type} : Cmd Word → Prop
  | .exec argv => argv.length < MAXARGS
  | .redir cmd _ _ _ | .back cmd => Fits cmd
  | .pipe left right | .list left right => Fits left ∧ Fits right

variable {Word : Type}

theorem fits_wrap {cmd : Cmd Word} (fits : Fits cmd) (redirs : List (Redir Word)) :
    Fits (cmd.wrap redirs) := by
  induction redirs generalizing cmd with
  | nil => exact fits
  | cons redir rest ih => exact @ih (.redir cmd redir.2 redir.1.mode redir.1.fd) fits

theorem fits_backs {cmd : Cmd Word} (fits : Fits cmd) (count : Nat) : Fits (cmd.backs count) := by
  induction count generalizing cmd with
  | zero => exact fits
  | succ count ih => exact @ih (.back cmd) fits

theorem fits_of_map {Other : Type} {convert : Word → Other} {cmd : Cmd Word}
    (fits : Fits (cmd.map convert)) : Fits cmd := by
  induction cmd with
  | exec argv =>
    rw [Cmd.map, Fits, List.length_map] at fits
    exact fits
  | redir cmd file mode fd ih | back cmd ih => exact ih fits
  | pipe left right leftIH rightIH
  | list left right leftIH rightIH => exact ⟨leftIH fits.1, rightIH fits.2⟩

theorem fits_of_derives {phrase : Phrase} {ts : List Token} {cmd : Cmd (List UInt8)}
    (derived : Derives phrase ts cmd) : Fits cmd := by
  induction derived with
  | line count left ih => exact fits_backs ih count
  | list count left next leftIH nextIH => exact ⟨fits_backs leftIH count, nextIH⟩
  | exec only ih => exact ih
  | pipe first next firstIH nextIH => exact ⟨firstIH, nextIH⟩
  | block redirs body ih => exact fits_wrap ih redirs
  | simple first args few =>
    refine fits_wrap ?_ _
    rwa [Fits, List.length_map]

variable {index : Nat}

theorem slots_argv (below : index < MAXARGS) :
    (slots words).argv[index]? = some (words[index]?.map Span.q) := by
  rw [slots, Vector.getElem?_eq_getElem below, Vector.getElem_ofFn]

theorem slots_eargv (below : index < MAXARGS) :
    (slots words).eargv[index]? = some (words[index]?.map Span.eq) := by
  rw [slots, Vector.getElem?_eq_getElem below, Vector.getElem_ofFn]

/-- The loop finds its null pointer. -/
theorem terminateArgs_slots (fits : words.length < MAXARGS) {fuel : Nat}
    (inside : index ≤ words.length) (enough : words.length < index + fuel) (buffer : Nat → UInt8) :
    terminateArgs (slots words) fuel index buffer =
      .ok ((words.drop index).foldl (fun buffer word => overwrite buffer word.eq 0) buffer) := by
  induction fuel generalizing index buffer with
  | zero => omega
  | succ fuel ih =>
    rw [terminateArgs, slots_argv (by omega), slots_eargv (by omega)]
    by_cases last : index = words.length
    · rw [last, List.getElem?_eq_none (Nat.le_refl _), List.drop_length]
      rfl
    · have below : index < words.length := by omega
      rw [List.getElem?_eq_getElem below, List.drop_eq_getElem_cons below]
      exact ih (by omega) (by omega) _

theorem nulterminate_layout (fits : Fits cmd) (buffer : Nat → UInt8) :
    nulterminate buffer (layout cmd) = .ok (Sh.nulterminate buffer cmd) := by
  induction cmd generalizing buffer with
  | exec argv => exact terminateArgs_slots fits (Nat.zero_le _) (by rw [Nat.zero_add]; exact fits) buffer
  | redir cmd file mode fd ih =>
    rw [layout, nulterminate, ih fits]
    rfl
  | pipe left right leftIH rightIH | list left right leftIH rightIH =>
    rw [layout, nulterminate, leftIH fits.1, ok_bind, rightIH fits.2, Sh.nulterminate]
  | back cmd ih => exact ih fits buffer

/-! ## The words -/

/-- The pointers go around a word of the line, and at the first there is a string of its bytes. -/
structure Terminated (text : List UInt8) (buffer : Nat → UInt8) (q eq : Nat) (word : List UInt8) : Prop where
  sound : Span.Sound text ⟨q, eq⟩
  token : Span.bytes text ⟨q, eq⟩ = word
  string : cstring text buffer q = word

/-- Each slot in use points to its word, and the slot after them is null. -/
structure Execcmd.Reads (text : List UInt8) (buffer : Nat → UInt8) (cmd : Execcmd)
    (words : List (List UInt8)) : Prop where
  fits : words.length < MAXARGS
  used : ∀ (index : Nat) (word : List UInt8), words[index]? = some word → ∃ q eq,
    cmd.argv[index]? = some (some q) ∧ cmd.eargv[index]? = some (some eq) ∧ Terminated text buffer q eq word
  last : cmd.argv[words.length]? = some none

/-- The structs, with the strings that their pointers lead to. -/
def Node.Reads (text : List UInt8) (buffer : Nat → UInt8) : Node → Cmd (List UInt8) → Prop
  | .exec cmd, .exec words => cmd.Reads text buffer words
  | .redir cmd file efile mode fd, .redir tree word mode' fd' =>
    cmd.Reads text buffer tree ∧ Terminated text buffer file efile word ∧ mode = mode' ∧ fd = fd'
  | .pipe left right, .pipe left' right' | .list left right, .list left' right' =>
    left.Reads text buffer left' ∧ right.Reads text buffer right'
  | .back cmd, .back tree => cmd.Reads text buffer tree
  | _, _ => False

theorem layout_reads {buffer : Nat → UInt8} (fits : Fits cmd)
    (words : ∀ span ∈ cmd.words, Terminated text buffer span.q span.eq (span.bytes text)) :
    (layout cmd).Reads text buffer (cmd.map (Span.bytes text)) := by
  induction cmd with
  | exec argv =>
    refine ⟨?_, fun index word found => ?_, ?_⟩
    · rw [List.length_map]
      exact fits
    · rw [List.getElem?_map, Option.map_eq_some_iff] at found
      obtain ⟨span, found, rfl⟩ := found
      have below : index < MAXARGS := Nat.lt_trans (List.getElem?_eq_some_iff.mp found).1 fits
      refine ⟨span.q, span.eq, ?_, ?_, words span (List.mem_of_getElem? found)⟩
      · rw [slots_argv below, found]
        rfl
      · rw [slots_eargv below, found]
        rfl
    · rw [List.length_map, slots_argv fits, List.getElem?_eq_none (Nat.le_refl _)]
      rfl
  | redir cmd file mode fd ih =>
    obtain ⟨inside, last⟩ := List.forall_mem_append.mp words
    exact ⟨ih fits inside, last file List.mem_cons_self, rfl, rfl⟩
  | pipe left right leftIH rightIH | list left right leftIH rightIH =>
    obtain ⟨inLeft, inRight⟩ := List.forall_mem_append.mp words
    exact ⟨leftIH fits.1 inLeft, rightIH fits.2 inRight⟩
  | back cmd ih => exact ih fits words

/-- With fuel for every token: `parsecmd` returns or panics and never leaves an array or follows
a null pointer; what it returns are the structs of the one tree that the tokens of the line
derive, each pointer with the string of its word. -/
theorem parsecmd_terminates_words (text : List UInt8) (fuel : Nat) (clean : 0 ∉ text)
    (enough : 4 * text.length + 4 ≤ fuel) :
    Ensures (fun fault => ∃ reason, fault = .stop (.panic reason))
      (fun result => ∃ tree, Derives .line (tokens text) tree ∧ result.1.Reads text result.2 tree)
      (parsecmd text fuel) := by
  have line := (sounds clean fuel).line 0 (Nat.zero_le _)
  have fueled := parsecmd_fuel clean enough
  have sound := @parsecmd_sound text fuel clean
  rw [Sh.parsecmd] at fueled sound
  rw [parsecmd, (agrees text fuel).line]
  cases ran : Sh.parseline text fuel 0 with
  | error stop =>
    rw [ran] at fueled
    cases stop with
    | fuel => exact absurd rfl fueled
    | panic reason => exact ⟨reason, rfl⟩
  | ok value =>
    obtain ⟨cmd, s⟩ := value
    rw [ran] at line sound
    simp only [placed, ok_bind] at sound ⊢
    split
    · exact ⟨.leftovers, rfl⟩
    · rename_i whole
      have derived := sound (if_neg whole)
      obtain ⟨spans, _, part, _⟩ := line
      have fits := fits_of_map (fits_of_derives part)
      rw [nulterminate_layout fits, ok_bind]
      refine ⟨_, derived, ?_⟩
      rw [strings_eq clean spans]
      exact layout_reads fits fun span member => ⟨spans span member, rfl, cstring_eq clean spans member⟩

/-- `a>b|c`, where both ends are symbols. -/
theorem parsecmd_terminates_words_pipe : ∃ node buffer,
    parsecmd [97, 62, 98, 124, 99] 24 = .ok (node, buffer) ∧
      ∃ tree, Derives .line (tokens [97, 62, 98, 124, 99]) tree ∧
        node.Reads [97, 62, 98, 124, 99] buffer tree := by
  have outcome := parsecmd_terminates_words [97, 62, 98, 124, 99] 24 (by decide) (by decide)
  have accepted : (parsecmd [97, 62, 98, 124, 99] 24).toBool = true := by decide +kernel
  cases ran : parsecmd [97, 62, 98, 124, 99] 24 with
  | error fault =>
    rw [ran] at accepted
    cases accepted
  | ok result =>
    rw [ran] at outcome
    exact ⟨result.1, result.2, rfl, outcome⟩

end Xv6.Sh.Structs
