import Xv6.Sh.Completeness

namespace Xv6.Sh

open Xv6.Data

/-! # Command lines

The strings that a parsed command leads to, and commands printed as lines.
-/

variable {text : List UInt8} {cmd : Cmd Span}

/-! ## Strings -/

variable {buffer : Nat → UInt8} {position : Nat}

theorem nulterminate_other (other : ∀ span ∈ cmd.words, position ≠ span.eq) :
    nulterminate buffer cmd position = buffer position := by
  induction cmd generalizing buffer with
  | exec argv =>
    show argv.foldl _ buffer position = buffer position
    induction argv generalizing buffer with
    | nil => rfl
    | cons word rest ih =>
      obtain ⟨first, later⟩ := List.forall_mem_cons.mp other
      rw [List.foldl_cons, ih later, overwrite_of_ne first]
  | redir cmd file mode fd ih =>
    obtain ⟨inside, last⟩ := List.forall_mem_append.mp other
    rw [nulterminate, overwrite_of_ne (last file List.mem_cons_self), ih inside]
  | pipe left right leftIH rightIH | list left right leftIH rightIH =>
    obtain ⟨inLeft, inRight⟩ := List.forall_mem_append.mp other
    rw [nulterminate, rightIH inRight, leftIH inLeft]
  | back cmd ih => exact ih other

theorem nulterminate_both {left right : Cmd Span}
    (ends : buffer position = 0 ∨ ∃ span ∈ left.words ++ right.words, position = span.eq)
    (first : ∀ {buffer : Nat → UInt8},
      (buffer position = 0 ∨ ∃ span ∈ left.words, position = span.eq) →
      nulterminate buffer left position = 0)
    (second : ∀ {buffer : Nat → UInt8},
      (buffer position = 0 ∨ ∃ span ∈ right.words, position = span.eq) →
      nulterminate buffer right position = 0) :
    nulterminate (nulterminate buffer left) right position = 0 := by
  rcases ends with zero | ⟨span, member, same⟩
  · exact second (Or.inl (first (Or.inl zero)))
  · rcases List.mem_append.mp member with inLeft | inRight
    · exact second (Or.inl (first (Or.inr ⟨span, inLeft, same⟩)))
    · exact second (Or.inr ⟨span, inRight, same⟩)

/-- A zero stays; so it does not matter in which order the ends are written. -/
theorem nulterminate_zero (ends : buffer position = 0 ∨ ∃ span ∈ cmd.words, position = span.eq) :
    nulterminate buffer cmd position = 0 := by
  induction cmd generalizing buffer with
  | exec argv =>
    show argv.foldl _ buffer position = 0
    induction argv generalizing buffer with
    | nil => exact ends.resolve_right (by simp [Cmd.words])
    | cons word rest ih =>
      refine ih ?_
      by_cases here : position = word.eq
      · rw [here]
        exact Or.inl (overwrite_self ..)
      · show overwrite buffer word.eq 0 position = 0 ∨ _
        rw [overwrite_of_ne here]
        refine ends.imp_right fun ⟨span, member, same⟩ => ⟨span, ?_, same⟩
        exact (List.mem_cons.mp member).resolve_left fun equal => here (equal ▸ same)
  | redir cmd file mode fd ih =>
    rw [nulterminate]
    by_cases here : position = file.eq
    · rw [here]
      exact overwrite_self ..
    · rw [overwrite_of_ne here]
      refine ih (ends.imp_right fun ⟨span, member, same⟩ => ⟨span, ?_, same⟩)
      refine (List.mem_append.mp member).resolve_right fun last => here ?_
      rw [same, List.mem_singleton.mp last]
  | pipe left right leftIH rightIH
  | list left right leftIH rightIH => exact nulterminate_both ends leftIH rightIH
  | back cmd ih => exact ih ends

theorem map_congr_words {Word Other : Type} {left right : Word → Other} {cmd : Cmd Word}
    (same : ∀ word ∈ cmd.words, left word = right word) : cmd.map left = cmd.map right := by
  induction cmd with
  | exec argv => exact congrArg Cmd.exec (List.map_congr_left same)
  | redir cmd file mode fd ih =>
    obtain ⟨inside, last⟩ := List.forall_mem_append.mp same
    rw [Cmd.map, Cmd.map, ih inside, last file List.mem_cons_self]
  | pipe first second firstIH secondIH | list first second firstIH secondIH =>
    obtain ⟨inFirst, inSecond⟩ := List.forall_mem_append.mp same
    rw [Cmd.map, Cmd.map, firstIH inFirst, secondIH inSecond]
  | back cmd ih => exact congrArg Cmd.back (ih same)

/-- No end of a word lies inside another one, so each string is its word. -/
theorem cstring_eq (clean : 0 ∉ text) (sound : ∀ span ∈ cmd.words, span.Sound text) {span : Span}
    (member : span ∈ cmd.words) :
    cstring text (nulterminate (char text) cmd) span.q = span.bytes text := by
  obtain ⟨order, inside, bytes, _⟩ := sound span member
  have kept : ∀ position, span.q ≤ position → position < span.eq →
      nulterminate (char text) cmd position = char text position := by
    intro position above below
    refine nulterminate_other fun other otherMember same => ?_
    rcases (sound other otherMember).ends with last | notWord
    · omega
    · rw [← same, bytes position above below] at notWord
      cases notWord
  have zero : nulterminate (char text) cmd span.eq = 0 :=
    nulterminate_zero (Or.inr ⟨span, member, rfl⟩)
  have length : span.q + (span.eq - span.q) = span.eq := by omega
  have read : cstring text (nulterminate (char text) cmd) span.q =
      (List.range (span.eq - span.q)).map fun index =>
        nulterminate (char text) cmd (span.q + index) := by
    refine takeWhile_map_range (fun index below => ?_) (by omega) ?_
    · have nonzero := char_ne_zero clean (show span.q + index < text.length by omega)
      rw [kept _ (by omega) (by omega)]
      simpa using nonzero
    · rw [length, zero]
      rfl
  rw [read, Span.bytes]
  apply List.ext_getElem
  · simp only [List.length_map, List.length_range, List.length_take, List.length_drop]
    omega
  · intro index first second
    rw [List.length_map, List.length_range] at first
    rw [List.getElem_map, List.getElem_range, kept _ (by omega) (by omega), char_eq (by omega),
      List.getElem_take, List.getElem_drop]

theorem strings_eq (clean : 0 ∉ text) (sound : ∀ span ∈ cmd.words, span.Sound text) :
    strings text (cmd, nulterminate (char text) cmd) = cmd.map (Span.bytes text) :=
  map_congr_words fun _ member => cstring_eq clean sound member

/-! ## Acceptance -/

theorem addByte_length (c : UInt8) (joined : Bool) (ts : List Token) :
    (addByte c joined ts).length ≤ ts.length + 1 := by
  unfold addByte
  split
  · split
    · exact Nat.le_succ _
    · exact Nat.le_refl _
  · exact Nat.le_refl _

theorem tokens_length (text : List UInt8) : (tokens text).length ≤ text.length := by
  fun_induction tokens text with
  | case1 => exact Nat.le_refl _
  | case2 c rest white ih => exact Nat.le_succ_of_le ih
  | case3 rest notWhite ih => exact Nat.succ_le_succ (Nat.le_succ_of_le ih)
  | case4 rest notWhite single ih
  | case5 c rest notWhite notGreater isSymbol ih => exact Nat.succ_le_succ ih
  | case6 c rest notWhite notGreater notSymbol ih =>
    exact Nat.le_trans (addByte_length ..) (Nat.succ_le_succ ih)

variable {fuel : Nat}

theorem parsecmd_fuel (clean : 0 ∉ text) (enough : 4 * text.length + 4 ≤ fuel) :
    parsecmd text fuel ≠ .error .fuel := by
  have few := tokens_length text
  have line := (sounds clean fuel).line 0 (Nat.zero_le _)
  rw [parsecmd]
  cases parsed : parseline text fuel 0 with
  | error stop =>
    rw [parsed] at line
    intro stopped
    have short := line (Except.error.inj stopped)
    have same : remaining text 0 = tokens text := rfl
    rw [same] at short
    omega
  | ok result =>
    rw [ok_bind]
    simp only
    split <;> exact nofun

theorem parsecmd_sound (clean : 0 ∉ text) {result : Cmd Span × (Nat → UInt8)}
    (parsed : parsecmd text fuel = .ok result) :
    Derives .line (tokens text) (strings text result) := by
  have line := (sounds clean fuel).line 0 (Nat.zero_le _)
  rw [parsecmd] at parsed
  cases ran : parseline text fuel 0 with
  | error stop =>
    rw [ran] at parsed
    cases parsed
  | ok value =>
    obtain ⟨cmd, s⟩ := value
    rw [ran] at line parsed
    obtain ⟨sound, ts, derived, reads⟩ := line
    have parsed : (if skip text s ≠ text.length then Except.error (Stop.panic .leftovers)
      else .ok (cmd, nulterminate (char text) cmd)) = .ok result := parsed
    by_cases last : skip text s = text.length
    · have done := (skip_eq_length clean reads.inside).mp last
      have whole : tokens text = ts := by
        have split := reads.split
        rwa [done, List.append_nil] at split
      rw [if_neg (not_not_intro last)] at parsed
      cases parsed
      rw [strings_eq clean sound, whole]
      exact derived
    · rw [if_pos last] at parsed
      cases parsed

theorem parsecmd_complete (clean : 0 ∉ text) (enough : 4 * text.length + 4 ≤ fuel)
    {tree : Cmd (List UInt8)} (derived : Derives .line (tokens text) tree) :
    ∃ result, parsecmd text fuel = .ok result ∧ strings text result = tree := by
  have few := tokens_length text
  obtain ⟨cmd, s, ran, same, inside, left⟩ := accepts_of_derives clean derived 0 [] fuel (Nat.zero_le _)
    (List.append_nil _).symm (Or.inl rfl) (by
      rw [List.append_nil]
      simp only [Phrase.level]
      omega)
  have parsed : parseline text fuel 0 = .ok (cmd, s) := ran
  have last := (skip_eq_length clean inside).mpr left
  have line := (sounds clean fuel).line 0 (Nat.zero_le _)
  rw [parsed] at line
  refine ⟨(cmd, nulterminate (char text) cmd), ?_, ?_⟩
  · rw [parsecmd, parsed, ok_bind]
    simp only [peek, last, ne_eq, not_true_eq_false, if_false]
  · rw [strings_eq clean line.sound, same]

/-! ## Printing -/

/-- What the printed text of a command stands in. -/
inductive Level where
  | line
  | back
  | pipe
  | exec
deriving DecidableEq

def direction (mode fd : Nat) : Direction :=
  if fd = 0 then .input else if mode = Direction.output.mode then .output else .append

def parens (needed : Bool) (ts : List Token) : List Token :=
  if needed then .lparen :: (ts ++ [.rparen]) else ts

def Cmd.print : Cmd (List UInt8) → Level → List Token
  | .exec argv, _ => argv.map .word
  | .redir cmd file mode fd, _ => cmd.print .exec ++ [.redir (direction mode fd), .word file]
  | .pipe left right, level =>
    parens (level = .exec) (left.print .exec ++ .bar :: right.print .pipe)
  | .back cmd, level => parens (level = .pipe ∨ level = .exec) (cmd.print .back ++ [.amp])
  | .list left right, level =>
    parens (level ≠ .line) (left.print .back ++ .semi :: right.print .line)

def Token.bytes : Token → List UInt8
  | .redir .append => [62, 62]
  | .word bytes => bytes
  | token => [token.code]

/-- The line of a command, with a blank after each token. -/
def Cmd.render (cmd : Cmd (List UInt8)) : List UInt8 :=
  (cmd.print .line).flatMap fun token => token.bytes ++ [32]

structure IsWord (word : List UInt8) : Prop where
  nonempty : word ≠ []
  bytes : ∀ c ∈ word, c ≠ 0 ∧ wordByte c = true

/-- The commands that a line can stand for. -/
def Cmd.Printable : Cmd (List UInt8) → Prop
  | .exec argv => argv.length < MAXARGS ∧ ∀ word ∈ argv, IsWord word
  | .redir cmd file mode fd => cmd.Printable ∧ IsWord file ∧
      ∃ direction : Direction, mode = direction.mode ∧ fd = direction.fd
  | .pipe left right | .list left right => left.Printable ∧ right.Printable
  | .back cmd => cmd.Printable

theorem direction_eq (direction : Direction) : Sh.direction direction.mode direction.fd = direction := by
  cases direction <;> decide

variable {ts : List Token}

theorem derives_redir {cmd : Cmd (List UInt8)} (derived : Derives .exec ts cmd)
    (direction : Direction) (file : List UInt8) :
    Derives .exec (ts ++ [.redir direction, .word file])
      (.redir cmd file direction.mode direction.fd) := by
  have last : ∀ redirs : List (Redir (List UInt8)),
      redirTokens (redirs ++ [(direction, file)]) = redirTokens redirs ++ [.redir direction, .word file] := by
    intro redirs
    simp [redirTokens]
  have wrapped : ∀ cmd : Cmd (List UInt8), ∀ redirs : List (Redir (List UInt8)),
      cmd.wrap (redirs ++ [(direction, file)]) =
        .redir (cmd.wrap redirs) file direction.mode direction.fd := by
    intro cmd redirs
    rw [wrap_append]
    rfl
  cases derived with
  | block redirs body =>
    have more := Derives.block (redirs ++ [(direction, file)]) body
    rw [last, wrapped] at more
    simpa using more
  | simple first args few =>
    rcases List.eq_nil_or_concat args with rfl | ⟨before, ⟨word, redirs⟩, rfl⟩
    · have more := Derives.simple (first ++ [(direction, file)]) [] few
      rw [last] at more
      simpa [simple, argTokens, wrapped] using more
    · have more := Derives.simple first (before ++ [(word, redirs ++ [(direction, file)])])
        (by simpa using few)
      have command : simple first (before ++ [(word, redirs ++ [(direction, file)])]) =
          .redir (simple first (before ++ [(word, redirs)])) file direction.mode direction.fd := by
        rw [simple, simple, ← wrapped]
        simp
      have tokens : argTokens (before ++ [(word, redirs ++ [(direction, file)])]) =
          argTokens (before ++ [(word, redirs)]) ++ [.redir direction, .word file] := by
        simp [argTokens, last]
      rw [command, tokens, ← List.append_assoc] at more
      rwa [List.concat_eq_append]

theorem backs_succ {Word : Type} (cmd : Cmd Word) (count : Nat) :
    cmd.backs (count + 1) = .back (cmd.backs count) := by
  induction count generalizing cmd with
  | zero => rfl
  | succ count ih => exact ih (.back cmd)

theorem derives_parens {cmd : Cmd (List UInt8)} (line : Derives .line ts cmd) :
    Derives .exec (.lparen :: (ts ++ [.rparen])) cmd := .block [] line

/-- The printed command is a phrase of each kind, in the place that it is printed for. -/
structure Prints (cmd : Cmd (List UInt8)) : Prop where
  line : Derives .line (cmd.print .line) cmd
  back : ∃ ts inner count, Derives .pipe ts inner ∧ cmd = inner.backs count ∧
    cmd.print .back = ts ++ List.replicate count .amp
  pipe : Derives .pipe (cmd.print .pipe) cmd
  exec : Derives .exec (cmd.print .exec) cmd

/-- A command printed the same way everywhere. -/
theorem Prints.of_exec {cmd : Cmd (List UInt8)} (derived : Derives .exec ts cmd)
    (same : ∀ level, cmd.print level = ts) : Prints cmd := by
  have line := Derives.line 0 (.exec derived)
  rw [List.replicate_zero, List.append_nil] at line
  refine ⟨?_, ⟨ts, cmd, 0, .exec derived, rfl, ?_⟩, ?_, ?_⟩ <;> rw [same]
  · exact line
  · rw [List.replicate_zero, List.append_nil]
  · exact .exec derived
  · exact derived

theorem prints (cmd : Cmd (List UInt8)) (printable : cmd.Printable) : Prints cmd := by
  induction cmd with
  | exec argv =>
    have derived := Derives.simple [] (argv.map fun word => (word, [])) (by
      rw [List.length_map]
      exact printable.1)
    have tokens : redirTokens [] ++ argTokens (argv.map fun word => (word, [])) = argv.map .word := by
      rw [redirTokens, List.flatMap_nil, List.nil_append, argTokens, List.flatMap_map,
        @List.map_eq_flatMap _ _ Token.word]
      rfl
    have command : simple [] (argv.map fun word => (word, [])) = .exec argv := by
      have none : (argv.map fun word => (word, ([] : List (Redir (List UInt8))))).flatMap Prod.snd = [] := by
        simp [List.flatMap_eq_nil_iff]
      rw [simple, none, List.map_map]
      exact congrArg Cmd.exec (List.map_id argv)
    rw [tokens, command] at derived
    exact Prints.of_exec derived fun _ => rfl
  | redir cmd file mode fd ih =>
    obtain ⟨inner, _, direction, rfl, rfl⟩ := printable
    have derived := derives_redir (ih inner).exec direction file
    refine Prints.of_exec derived fun level => ?_
    rw [Cmd.print, direction_eq]
  | pipe left right leftIH rightIH =>
    have derived := Derives.pipe (leftIH printable.1).exec (rightIH printable.2).pipe
    have line := Derives.line 0 derived
    rw [List.replicate_zero, List.append_nil] at line
    refine ⟨line, ⟨_, .pipe left right, 0, derived, rfl, ?_⟩, derived, derives_parens line⟩
    rw [List.replicate_zero, List.append_nil]
    rfl
  | list left right leftIH rightIH =>
    obtain ⟨ts, inner, count, pipe, same, printed⟩ := (leftIH printable.1).back
    have line := Derives.list count pipe (rightIH printable.2).line
    rw [← same, ← List.append_assoc, ← printed] at line
    have block := derives_parens line
    refine ⟨line, ⟨_, .list left right, 0, .exec block, rfl, ?_⟩, .exec block, block⟩
    rw [List.replicate_zero, List.append_nil]
    rfl
  | back cmd ih =>
    obtain ⟨ts, inner, count, pipe, same, printed⟩ := (ih printable).back
    have more : cmd.print .back ++ [.amp] = ts ++ List.replicate (count + 1) .amp := by
      rw [printed, List.append_assoc, List.replicate_succ']
    have whole : Cmd.back cmd = inner.backs (count + 1) := by rw [backs_succ, same]
    have line := Derives.line (count + 1) pipe
    rw [← more, ← whole] at line
    have block := derives_parens line
    exact ⟨line, ⟨ts, inner, count + 1, pipe, whole, more⟩, .exec block, block⟩

/-- All words of a list of tokens. -/
def Spelled (ts : List Token) : Prop := ∀ word, .word word ∈ ts → IsWord word

theorem Spelled.append {first second : List Token} (left : Spelled first) (right : Spelled second) :
    Spelled (first ++ second) := fun word member =>
  (List.mem_append.mp member).elim (left word) (right word)

theorem Spelled.symbol (token : Token) (notWord : ∀ word, token ≠ .word word) : Spelled [token] :=
  fun word member => absurd (List.mem_singleton.mp member).symm (notWord word)

theorem Spelled.parens (spelled : Spelled ts) (needed : Bool) : Spelled (Sh.parens needed ts) := by
  unfold Sh.parens
  split
  · exact (Spelled.symbol .lparen nofun).append (spelled.append (Spelled.symbol .rparen nofun))
  · exact spelled

theorem print_spelled (cmd : Cmd (List UInt8)) (printable : cmd.Printable) (level : Level) :
    Spelled (cmd.print level) := by
  induction cmd generalizing level with
  | exec argv =>
    intro word member
    obtain ⟨same, inside, equal⟩ := List.mem_map.mp member
    cases equal
    exact printable.2 word inside
  | redir cmd file mode fd ih =>
    refine (ih printable.1 .exec).append ((Spelled.symbol (.redir _) nofun).append ?_)
    intro word member
    cases List.mem_singleton.mp member
    exact printable.2.1
  | pipe left right leftIH rightIH =>
    exact ((leftIH printable.1 _).append
      ((Spelled.symbol .bar nofun).append (rightIH printable.2 _))).parens _
  | list left right leftIH rightIH =>
    exact ((leftIH printable.1 _).append
      ((Spelled.symbol .semi nofun).append (rightIH printable.2 _))).parens _
  | back cmd ih => exact ((ih printable _).append (Spelled.symbol .amp nofun)).parens _

/-- Reading back a line with a blank after each token. -/
theorem tokens_flatMap (spelled : Spelled ts) :
    tokens (ts.flatMap fun token => token.bytes ++ [32]) = ts := by
  induction ts with
  | nil => rfl
  | cons token rest ih =>
    have later := ih fun word member => spelled word (List.mem_cons_of_mem _ member)
    rw [List.flatMap_cons, List.append_assoc, List.singleton_append]
    have blank : tokens (32 :: rest.flatMap fun token => token.bytes ++ [32]) = rest :=
      (tokens_white rfl).trans later
    cases token with
    | word bytes =>
      obtain ⟨nonempty, letters⟩ := spelled bytes List.mem_cons_self
      rw [Token.bytes, tokens_word nonempty (fun c member => (letters c member).2) rfl, blank]
    | redir direction =>
      cases direction with
      | input => exact (tokens_symbol rfl (by decide)).trans (congrArg _ blank)
      | output => exact (tokens_output (by simp)).trans (congrArg _ blank)
      | append => exact tokens_append.trans (congrArg _ blank)
    | _ => exact (tokens_symbol rfl (by decide)).trans (congrArg _ blank)

theorem render_clean {cmd : Cmd (List UInt8)} (printable : cmd.Printable) : 0 ∉ cmd.render := by
  intro member
  obtain ⟨token, printed, zero⟩ := List.mem_flatMap.mp member
  rcases List.mem_append.mp zero with inToken | blank
  · cases token with
    | word bytes => exact ((print_spelled cmd printable .line bytes printed).bytes 0 inToken).1 rfl
    | redir direction => cases direction <;> revert inToken <;> decide
    | _ => revert inToken; decide
  · revert blank
    decide

/-- With fuel for every token, `parsecmd` returns a command exactly if the tokens of the
line derive from the grammar, and the strings of that command are the one tree that they
derive; every command can be printed and read back. -/
theorem parsecmd_grammar : (∀ text fuel, 0 ∉ text → 4 * text.length + 4 ≤ fuel →
      parsecmd text fuel ≠ .error .fuel ∧
      ((∃ result, parsecmd text fuel = .ok result) ↔ ∃ tree, Derives .line (tokens text) tree) ∧
      ∀ result, parsecmd text fuel = .ok result →
        ∀ tree, Derives .line (tokens text) tree ↔ tree = strings text result) ∧
    ∀ (cmd : Cmd (List UInt8)) (fuel : Nat), cmd.Printable → 4 * cmd.render.length + 4 ≤ fuel →
      ∃ result, parsecmd cmd.render fuel = .ok result ∧ strings cmd.render result = cmd := by
  constructor
  · intro text fuel clean enough
    refine ⟨parsecmd_fuel clean enough, ⟨?_, ?_⟩, fun result parsed tree => ⟨?_, ?_⟩⟩
    · rintro ⟨result, parsed⟩
      exact ⟨_, parsecmd_sound clean parsed⟩
    · rintro ⟨tree, derived⟩
      obtain ⟨result, parsed, _⟩ := parsecmd_complete clean enough derived
      exact ⟨result, parsed⟩
    · intro derived
      obtain ⟨other, again, same⟩ := parsecmd_complete clean enough derived
      rw [parsed] at again
      cases again
      exact same.symm
    · rintro rfl
      exact parsecmd_sound clean parsed
  · intro cmd fuel printable enough
    have line := (prints cmd printable).line
    rw [← tokens_flatMap (print_spelled cmd printable .line)] at line
    exact parsecmd_complete (render_clean printable) enough line

/-- `a>b|c` -/
theorem parsecmd_grammar_small : ∃ result, parsecmd [97, 62, 98, 124, 99] 24 = .ok result ∧
      strings [97, 62, 98, 124, 99] result =
        .pipe (.redir (.exec [[97]]) [98] Direction.output.mode 1) (.exec [[99]]) := by
  have exactly := parsecmd_grammar.1 [97, 62, 98, 124, 99] 24 (by decide) (by decide)
  have derived : Derives .line (tokens [97, 62, 98, 124, 99])
      (.pipe (.redir (.exec [[97]]) [98] Direction.output.mode 1) (.exec [[99]])) :=
    .line 0 (.pipe (.simple [] [([97], [(.output, [98])])] (by decide))
      (.exec (.simple [] [([99], [])] (by decide))))
  obtain ⟨result, parsed⟩ := exactly.2.1.mpr ⟨_, derived⟩
  exact ⟨result, parsed, ((exactly.2.2 result parsed _).mp derived).symm⟩

end Xv6.Sh
