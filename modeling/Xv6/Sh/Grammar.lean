import Xv6.Data.Ensures
import Xv6.Sh.Tokens

namespace Xv6.Sh

open Xv6.Data

/-! # The grammar of command lines

    line  ::= pipe '&'* [';' line]
    pipe  ::= exec ['|' pipe]
    exec  ::= '(' line ')' redir* | redir* (word redir*)*
    redir ::= ('<' | '>' | '>>') word
-/

variable {Word Other : Type}

def Direction.mode : Direction → Nat
  | .input => O_RDONLY
  | .output => O_WRONLY ||| O_CREATE ||| O_TRUNC
  | .append => O_WRONLY ||| O_CREATE

def Direction.fd : Direction → Nat
  | .input => 0
  | .output | .append => 1

/-- A direction and the name of a file. -/
abbrev Redir (Word : Type) := Direction × Word

/-- A word and the redirections after it. -/
abbrev Arg (Word : Type) := Word × List (Redir Word)

/-- The first redirection is the innermost one. -/
def Cmd.wrap (cmd : Cmd Word) (redirs : List (Redir Word)) : Cmd Word :=
  redirs.foldl (fun cmd redir => .redir cmd redir.2 redir.1.mode redir.1.fd) cmd

def Cmd.backs (cmd : Cmd Word) : Nat → Cmd Word
  | 0 => cmd
  | count + 1 => (Cmd.back cmd).backs count

def redirTokens (redirs : List (Redir (List UInt8))) : List Token :=
  redirs.flatMap fun redir => [.redir redir.1, .word redir.2]

def argTokens (args : List (Arg (List UInt8))) : List Token :=
  args.flatMap fun arg => .word arg.1 :: redirTokens arg.2

/-- A simple command; its redirections are kept in their order, apart from the words. -/
def simple (first : List (Redir Word)) (args : List (Arg Word)) : Cmd Word :=
  (Cmd.exec (args.map Prod.fst)).wrap (first ++ args.flatMap Prod.snd)

inductive Phrase where
  | line
  | pipe
  | exec

inductive Derives : Phrase → List Token → Cmd (List UInt8) → Prop where
  | line {ts : List Token} {cmd : Cmd (List UInt8)} (count : Nat) (left : Derives .pipe ts cmd) :
      Derives .line (ts ++ List.replicate count .amp) (cmd.backs count)
  | list {ts rest : List Token} {cmd right : Cmd (List UInt8)} (count : Nat)
      (left : Derives .pipe ts cmd) (next : Derives .line rest right) :
      Derives .line (ts ++ (List.replicate count .amp ++ .semi :: rest)) (.list (cmd.backs count) right)
  | exec {ts : List Token} {cmd : Cmd (List UInt8)} (only : Derives .exec ts cmd) :
      Derives .pipe ts cmd
  | pipe {ts rest : List Token} {left right : Cmd (List UInt8)} (first : Derives .exec ts left)
      (next : Derives .pipe rest right) : Derives .pipe (ts ++ .bar :: rest) (.pipe left right)
  | block {ts : List Token} {cmd : Cmd (List UInt8)} (redirs : List (Redir (List UInt8)))
      (body : Derives .line ts cmd) :
      Derives .exec (.lparen :: (ts ++ .rparen :: redirTokens redirs)) (cmd.wrap redirs)
  | simple (first : List (Redir (List UInt8))) (args : List (Arg (List UInt8)))
      (few : args.length < MAXARGS) :
      Derives .exec (redirTokens first ++ argTokens args) (simple first args)

/-! ## Commands under construction -/

theorem wrap_append (cmd : Cmd Word) (first second : List (Redir Word)) :
    cmd.wrap (first ++ second) = (cmd.wrap first).wrap second := List.foldl_append ..

theorem addArg_wrap (word : Word) (cmd : Cmd Word) (redirs : List (Redir Word)) :
    (cmd.wrap redirs).addArg word = (cmd.addArg word).wrap redirs := by
  induction redirs generalizing cmd with
  | nil => rfl
  | cons redir rest ih => exact ih (.redir cmd redir.2 redir.1.mode redir.1.fd)

theorem map_wrap (convert : Word → Other) (cmd : Cmd Word) (redirs : List (Redir Word)) :
    (cmd.wrap redirs).map convert =
      (cmd.map convert).wrap (redirs.map fun redir => (redir.1, convert redir.2)) := by
  induction redirs generalizing cmd with
  | nil => rfl
  | cons redir rest ih => exact ih (.redir cmd redir.2 redir.1.mode redir.1.fd)

theorem map_backs (convert : Word → Other) (cmd : Cmd Word) (count : Nat) :
    (cmd.backs count).map convert = (cmd.map convert).backs count := by
  induction count generalizing cmd with
  | zero => rfl
  | succ count ih => exact ih (.back cmd)

theorem simple_addArg (first : List (Redir Word)) (args : List (Arg Word)) (word : Word)
    (redirs : List (Redir Word)) :
    ((simple first args).addArg word).wrap redirs = simple first (args ++ [(word, redirs)]) := by
  rw [simple, addArg_wrap, ← wrap_append, simple, List.append_assoc, List.flatMap_append,
    List.map_append, List.flatMap_singleton]
  rfl

theorem code_ne_zero (token : Token) : token.code ≠ 0 := by
  cases token with
  | redir direction => cases direction <;> decide
  | word bytes => exact (by decide : (97 : UInt8) ≠ 0)
  | _ => decide

theorem redirect_code (direction : Direction) (cmd : Cmd Word) (file : Word) :
    redirect (Token.redir direction).code cmd file = .redir cmd file direction.mode direction.fd := by
  cases direction <;> rfl

theorem sees_redir {ts : List Token} (found : sees [60, 62] ts = true) :
    ∃ direction rest, ts = .redir direction :: rest := by
  cases ts with
  | nil => cases found
  | cons token rest =>
    cases token with
    | redir direction => exact ⟨direction, rest, rfl⟩
    | _ => cases found

theorem eq_of_first {token other : Token} (symbol : ∀ direction, token ≠ .redir direction)
    (same : other.first = some token.code) : other = token := by
  cases other with
  | redir direction =>
    cases direction <;> cases token <;>
      first | exact absurd rfl (symbol _) | simp [Token.first, Token.code] at same
  | word bytes => cases same
  | _ =>
    cases token <;>
      first | rfl | exact absurd rfl (symbol _) | simp [Token.first, Token.code] at same

theorem sees_symbol {ts : List Token} (token : Token) (symbol : ∀ direction, token ≠ .redir direction)
    (found : sees [token.code] ts = true) : ∃ rest, ts = token :: rest := by
  cases ts with
  | nil => cases found
  | cons other rest =>
    refine ⟨rest, congrArg (· :: rest) (eq_of_first symbol ?_)⟩
    cases first : other.first with
    | none => simp [sees, first] at found
    | some c =>
      simp only [sees, List.head?_cons, Option.bind_some, first, Option.any_some,
        List.contains_cons, List.contains_nil, Bool.or_false, beq_iff_eq] at found
      rw [found]

/-- All the words of a command. -/
def Cmd.words : Cmd Word → List Word
  | .exec argv => argv
  | .redir cmd file _ _ => cmd.words ++ [file]
  | .pipe left right | .list left right => left.words ++ right.words
  | .back cmd => cmd.words

theorem words_wrap (cmd : Cmd Word) (redirs : List (Redir Word)) :
    (cmd.wrap redirs).words = cmd.words ++ redirs.map Prod.snd := by
  induction redirs generalizing cmd with
  | nil => exact (List.append_nil _).symm
  | cons redir rest ih =>
    rw [List.map_cons, List.append_cons]
    exact ih (.redir cmd redir.2 redir.1.mode redir.1.fd)

theorem words_backs (cmd : Cmd Word) (count : Nat) : (cmd.backs count).words = cmd.words := by
  induction count generalizing cmd with
  | zero => rfl
  | succ count ih => exact ih (.back cmd)

/-! ## The words of a line -/

def Redir.bytes (text : List UInt8) (redir : Redir Span) : Redir (List UInt8) :=
  (redir.1, redir.2.bytes text)

def Arg.bytes (text : List UInt8) (arg : Arg Span) : Arg (List UInt8) :=
  (arg.1.bytes text, arg.2.map (Redir.bytes text))

theorem map_simple (text : List UInt8) (first : List (Redir Span)) (args : List (Arg Span)) :
    (simple first args).map (Span.bytes text) =
      simple (first.map (Redir.bytes text)) (args.map (Arg.bytes text)) := by
  rw [simple, simple, map_wrap, List.map_append, List.map_flatMap, List.flatMap_map]
  congr 1
  show Cmd.exec _ = Cmd.exec _
  rw [List.map_map, List.map_map]
  rfl

end Xv6.Sh
