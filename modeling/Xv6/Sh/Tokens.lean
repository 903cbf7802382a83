import Xv6.Sh.Parser

namespace Xv6.Sh

open Xv6.Data

/-! # The tokens of a line -/

/-- `<`, `>` and `>>`. -/
inductive Direction where
  | input
  | output
  | append
deriving DecidableEq, Repr

inductive Token where
  | bar
  | lparen
  | rparen
  | semi
  | amp
  | redir (direction : Direction)
  | word (bytes : List UInt8)
deriving DecidableEq, Repr

/-- The symbols of one byte, but for `>`. -/
def symbol (c : UInt8) : Token :=
  if c = 124 then .bar
  else if c = 40 then .lparen
  else if c = 41 then .rparen
  else if c = 59 then .semi
  else if c = 38 then .amp
  else .redir .input

/-- Put a byte before a list of tokens; `joined` says that it belongs to the word there. -/
def addByte (c : UInt8) (joined : Bool) : List Token → List Token
  | .word bytes :: rest => if joined then .word (c :: bytes) :: rest else .word [c] :: .word bytes :: rest
  | tokens => .word [c] :: tokens

/-- A line as a list of tokens: words are as long as they can be, and so is `>>`. -/
def tokens : List UInt8 → List Token
  | [] => []
  | c :: rest =>
    if whitespace.contains c then
      tokens rest
    else if c = 62 then
      match rest with
      | 62 :: rest => .redir .append :: tokens rest
      | rest => .redir .output :: tokens rest
    else if symbols.contains c then
      symbol c :: tokens rest
    else
      addByte c (rest.head?.any wordByte) (tokens rest)

example : tokens [97, 98, 62, 62, 62, 32, 99, 38] =
    [.word [97, 98], .redir .append, .redir .output, .word [99], .amp] := by decide

/-! ## Equations -/

variable {c : UInt8} {rest : List UInt8}

theorem tokens_cons : tokens (c :: rest) = if whitespace.contains c then
      tokens rest
    else if c = 62 then
      match rest with
      | 62 :: rest => .redir .append :: tokens rest
      | rest => .redir .output :: tokens rest
    else if symbols.contains c then
      symbol c :: tokens rest
    else
      addByte c (rest.head?.any wordByte) (tokens rest) := by
  rw [tokens.eq_def]

theorem tokens_white (white : whitespace.contains c = true) : tokens (c :: rest) = tokens rest := by
  rw [tokens_cons, if_pos white]

theorem tokens_skip (text : List UInt8) : tokens (text.dropWhile (whitespace.contains ·)) = tokens text := by
  induction text with
  | nil => rfl
  | cons c rest ih =>
    rw [List.dropWhile_cons]
    split
    · rename_i white
      rw [ih, tokens_white white]
    · rfl

theorem symbols_cases (isSymbol : symbols.contains c = true) (notGreater : c ≠ 62) :
    c = 60 ∨ c = 124 ∨ c = 38 ∨ c = 59 ∨ c = 40 ∨ c = 41 := by
  simpa [symbols, notGreater] using isSymbol

theorem tokens_symbol (isSymbol : symbols.contains c = true) (notGreater : c ≠ 62) :
    tokens (c :: rest) = symbol c :: tokens rest := by
  have notWhite : ¬whitespace.contains c = true := by
    rcases symbols_cases isSymbol notGreater with rfl | rfl | rfl | rfl | rfl | rfl <;> decide
  rw [tokens_cons, if_neg notWhite, if_neg notGreater, if_pos isSymbol]

theorem tokens_append : tokens (62 :: 62 :: rest) = .redir .append :: tokens rest := by
  rw [tokens_cons, if_neg (by decide), if_pos rfl]
  rfl

theorem tokens_output (single : rest.head? ≠ some 62) :
    tokens (62 :: rest) = .redir .output :: tokens rest := by
  rw [tokens_cons, if_neg (by decide), if_pos rfl]
  split
  · exact absurd rfl single
  · rfl

theorem wordByte_iff : wordByte c = true ↔ whitespace.contains c = false ∧ symbols.contains c = false := by
  simp [wordByte]

theorem tokens_byte (isWord : wordByte c = true) :
    tokens (c :: rest) = addByte c (rest.head?.any wordByte) (tokens rest) := by
  obtain ⟨notWhite, notSymbol⟩ := wordByte_iff.mp isWord
  have notGreater : c ≠ 62 := by
    rintro rfl
    exact absurd notSymbol (by decide)
  rw [tokens_cons, if_neg (by rw [notWhite]; decide), if_neg notGreater, if_neg (by rw [notSymbol]; decide)]

theorem tokens_word {bytes : List UInt8} (nonempty : bytes ≠ []) (isWord : ∀ c ∈ bytes, wordByte c = true)
    (ends : rest.head?.any wordByte = false) :
    tokens (bytes ++ rest) = .word bytes :: tokens rest := by
  induction bytes with
  | nil => exact absurd rfl nonempty
  | cons c more ih =>
    rw [List.cons_append, tokens_byte (isWord c List.mem_cons_self)]
    cases more with
    | nil =>
      rw [List.nil_append, ends]
      cases tokens rest with
      | nil => rfl
      | cons first later => cases first <;> rfl
    | cons next more =>
      have joined : ((next :: more ++ rest).head?.any wordByte) = true :=
        isWord next (by simp)
      rw [ih (by simp) fun byte member => isWord byte (List.mem_cons_of_mem _ member), joined]
      rfl

/-! ## gettoken and peek -/

/-- What `gettoken` returns for a token. -/
def Token.code : Token → UInt8
  | .bar => 124
  | .lparen => 40
  | .rparen => 41
  | .semi => 59
  | .amp => 38
  | .redir .input => 60
  | .redir .output => 62
  | .redir .append => 43
  | .word _ => 97

/-- The symbol that `peek` sees; a word starts with none. -/
def Token.first : Token → Option UInt8
  | .redir .append => some 62
  | .word _ => none
  | token => some token.code

variable {text : List UInt8} {s q : Nat}

/-- The tokens from a position on. -/
def remaining (text : List UInt8) (s : Nat) : List Token := tokens (text.drop s)

structure Span.Sound (text : List UInt8) (span : Span) : Prop where
  order : span.q < span.eq
  inside : span.eq ≤ text.length
  bytes : ∀ position, span.q ≤ position → position < span.eq → wordByte (char text position) = true
  ends : span.eq = text.length ∨ wordByte (char text span.eq) = false

def Span.bytes (text : List UInt8) (span : Span) : List UInt8 :=
  (text.drop span.q).take (span.eq - span.q)

theorem char_eq (inside : s < text.length) : char text s = text[s] := by
  simp [char, inside]

theorem char_ne_zero (clean : 0 ∉ text) (inside : s < text.length) : char text s ≠ 0 := by
  rw [char_eq inside]
  exact fun zero => clean (zero ▸ List.getElem_mem inside)

theorem char_end : char text text.length = 0 := by
  simp [char]

theorem drop_eq_char_cons (inside : s < text.length) :
    text.drop s = char text s :: text.drop (s + 1) := by
  rw [char_eq inside, List.drop_eq_getElem_cons inside]

theorem remaining_skip : remaining text (skip text s) = remaining text s := by
  rw [remaining, skip, drop_skipWhile]
  exact tokens_skip _

theorem skip_le (inside : s ≤ text.length) : skip text s ≤ text.length := skipWhile_le inside

theorem remaining_end : remaining text text.length = [] := by
  rw [remaining, List.drop_length]
  rfl

theorem char_skip (before : skip text s < text.length) :
    whitespace.contains (char text (skip text s)) = false := by
  have here : text[skip text s]? = some (char text (skip text s)) := by
    rw [char_eq before]
    exact List.getElem?_eq_getElem before
  exact skipWhile_refuses here

theorem word_sound (inside : q < text.length) (isWord : wordByte (char text q) = true) :
    Span.Sound text ⟨q, skipWhile wordByte text q⟩ ∧
      remaining text q = .word (Span.bytes text ⟨q, skipWhile wordByte text q⟩) ::
        remaining text (skipWhile wordByte text q) := by
  have here : text[q]? = some (char text q) := by
    rw [char_eq inside]
    exact List.getElem?_eq_getElem inside
  have order := lt_skipWhile here isWord
  have limit : skipWhile wordByte text q ≤ text.length := skipWhile_le (Nat.le_of_lt inside)
  have ends : skipWhile wordByte text q = text.length ∨
      wordByte (char text (skipWhile wordByte text q)) = false := by
    rcases Nat.lt_or_eq_of_le limit with before | last
    · right
      rw [char_eq before]
      exact skipWhile_refuses (List.getElem?_eq_getElem before)
    · exact Or.inl last
  refine ⟨⟨order, limit, fun position above below => ?_, ends⟩, ?_⟩
  · obtain ⟨item, found, accepted⟩ := skipWhile_accepts above below
    rw [char, List.getD_eq_getElem?_getD, found]
    exact accepted
  · have whole := List.takeWhile_append_dropWhile (p := wordByte) (l := text.drop q)
    rw [← drop_skipWhile] at whole
    rw [remaining, ← whole, Span.bytes, take_skipWhile]
    refine tokens_word ?_ (fun c member => List.mem_takeWhile_imp member) ?_
    · intro empty
      have length := congrArg List.length empty
      rw [List.length_nil] at length
      unfold skipWhile at order
      omega
    · rw [List.head?_drop]
      cases found : text[skipWhile wordByte text q]? with
      | none => rfl
      | some item =>
        have refused : wordByte item = false := skipWhile_refuses found
        exact refused

theorem lexeme_spec (clean : 0 ∉ text) (inside : q < text.length)
    (notWhite : whitespace.contains (char text q) = false) :
    ∃ token, (lexeme text q).1 = token.code ∧ (lexeme text q).2 ≤ text.length ∧
      remaining text q = token :: remaining text (lexeme text q).2 ∧
      (token.first = if symbols.contains (char text q) then some (char text q) else none) ∧
      ∀ bytes, token = .word bytes →
        Span.Sound text ⟨q, (lexeme text q).2⟩ ∧ Span.bytes text ⟨q, (lexeme text q).2⟩ = bytes := by
  have nonzero := char_ne_zero clean inside
  have here := drop_eq_char_cons inside
  by_cases greater : char text q = 62
  · by_cases twice : char text (q + 1) = 62
    · have more : q + 1 < text.length := by
        refine Nat.lt_of_le_of_ne inside fun last => ?_
        rw [last, char_end] at twice
        exact absurd twice (by decide)
      refine ⟨.redir .append, ?_⟩
      simp only [lexeme, if_neg nonzero, if_pos greater, if_pos twice]
      refine ⟨rfl, more, ?_, by rw [greater]; rfl, nofun⟩
      rw [remaining, here, drop_eq_char_cons more, greater, twice, tokens_append]
      rfl
    · refine ⟨.redir .output, ?_⟩
      simp only [lexeme, if_neg nonzero, if_pos greater, if_neg twice]
      refine ⟨rfl, inside, ?_, by rw [greater]; rfl, nofun⟩
      rw [remaining, here, greater, tokens_output]
      · rfl
      · rw [List.head?_drop]
        intro next
        exact twice (by rw [char, List.getD_eq_getElem?_getD, next]; rfl)
  · by_cases isSymbol : symbols.contains (char text q) = true
    · refine ⟨symbol (char text q), ?_⟩
      simp only [lexeme, if_neg nonzero, if_neg greater, if_pos isSymbol]
      have split : remaining text q = symbol (char text q) :: remaining text (q + 1) := by
        rw [remaining, here, tokens_symbol isSymbol greater]
        rfl
      refine ⟨?_, inside, split, ?_⟩ <;>
        rcases symbols_cases isSymbol greater with is | is | is | is | is | is <;> rw [is]
      all_goals first | rfl | exact ⟨rfl, nofun⟩
    · have isWord : wordByte (char text q) = true := wordByte_iff.mpr ⟨notWhite, by simpa using isSymbol⟩
      obtain ⟨sound, split⟩ := word_sound inside isWord
      refine ⟨.word (Span.bytes text ⟨q, skipWhile wordByte text q⟩), ?_⟩
      simp only [lexeme, if_neg nonzero, if_neg greater, if_neg isSymbol]
      exact ⟨rfl, sound.inside, split, rfl, fun bytes same => ⟨sound, Token.word.inj same⟩⟩

theorem skip_eq_length (clean : 0 ∉ text) (inside : s ≤ text.length) :
    skip text s = text.length ↔ remaining text s = [] := by
  rw [← remaining_skip]
  constructor
  · intro last
    rw [last, remaining_end]
  · intro done
    refine Nat.le_antisymm (skip_le inside) (Nat.le_of_not_lt fun before => ?_)
    obtain ⟨token, _, _, more, _⟩ := lexeme_spec clean before (char_skip before)
    rw [done] at more
    cases more

theorem gettoken_nil (clean : 0 ∉ text) (inside : s ≤ text.length) (done : remaining text s = []) :
    gettoken text s = (0, ⟨text.length, text.length⟩, text.length) := by
  have last := (skip_eq_length clean inside).mpr done
  have stays : skip text text.length = text.length :=
    (skip_eq_length clean (Nat.le_refl _)).mpr remaining_end
  rw [gettoken, last, lexeme, char_end]
  simp only [if_true, stays]

theorem gettoken_cons (clean : 0 ∉ text) (inside : s ≤ text.length) {token : Token}
    {rest : List Token} (more : remaining text s = token :: rest) :
    ∃ span next, gettoken text s = (token.code, span, next) ∧ next ≤ text.length ∧
      remaining text next = rest ∧
      ∀ bytes, token = .word bytes → span.Sound text ∧ span.bytes text = bytes := by
  have before : skip text s < text.length := by
    refine Nat.lt_of_le_of_ne (skip_le inside) fun last => ?_
    rw [(skip_eq_length clean inside).mp last] at more
    cases more
  obtain ⟨first, code, limit, split, _, word⟩ := lexeme_spec clean before (char_skip before)
  rw [remaining_skip, more] at split
  obtain ⟨rfl, rfl⟩ := List.cons.inj split
  refine ⟨⟨skip text s, (lexeme text (skip text s)).2⟩, skip text (lexeme text (skip text s)).2, ?_,
    skip_le limit, remaining_skip, word⟩
  rw [← code]
  rfl

/-- The next token starts with one of the symbols. -/
def sees (toks : List UInt8) (ts : List Token) : Bool :=
  (ts.head?.bind Token.first).any (toks.contains ·)

theorem peek_spec (clean : 0 ∉ text) (inside : s ≤ text.length) (toks : List UInt8)
    (known : toks.all (symbols.contains ·) = true) :
    ∃ next, peek text s toks = (sees toks (remaining text s), next) ∧ next ≤ text.length ∧
      remaining text next = remaining text s := by
  refine ⟨skip text s, ?_, skip_le inside, remaining_skip⟩
  rw [peek, ← remaining_skip]
  congr 1
  rcases Nat.lt_or_eq_of_le (skip_le inside) with before | last
  · obtain ⟨token, _, _, split, first, _⟩ := lexeme_spec clean before (char_skip before)
    rw [split]
    simp only [sees, List.head?_cons, Option.bind_some, first, ne_eq, char_ne_zero clean before,
      not_false_eq_true, decide_true, Bool.true_and]
    split
    · rfl
    · rename_i notSymbol
      refine Bool.eq_false_iff.mpr fun listed => notSymbol ?_
      exact List.all_eq_true.mp known _ (List.contains_iff_mem.mp listed)
  · rw [last, remaining_end, char_end]
    rfl

theorem code_eq_word {token : Token} : token.code = 97 ↔ ∃ bytes, token = .word bytes := by
  constructor
  · intro code
    cases token with
    | word bytes => exact ⟨bytes, rfl⟩
    | redir direction => cases direction <;> exact absurd code (by decide)
    | _ => exact absurd code (by decide)
  · rintro ⟨bytes, rfl⟩
    rfl

end Xv6.Sh
