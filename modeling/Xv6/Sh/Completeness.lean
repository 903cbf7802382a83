import Xv6.Sh.Soundness

namespace Xv6.Sh

open Xv6.Data

/-! # The parser accepts what the grammar derives -/

variable {text : List UInt8} {s fuel : Nat} {after : List Token}

/-- A result that reads as expected and leaves the tokens `after`. -/
def Returns {Value : Type} (text : List UInt8) (after : List Token) (expected : Value → Prop)
    (result : Except Stop (Value × Nat)) : Prop :=
  ∃ value next, result = .ok (value, next) ∧ expected value ∧ next ≤ text.length ∧
    remaining text next = after

theorem redirTokens_length (redirs : List (Redir (List UInt8))) :
    (redirTokens redirs).length = 2 * redirs.length := by
  simp [redirTokens, List.length_flatMap, List.map_const', Nat.mul_comm]

/-! ## The loops -/

theorem parseredirs_complete (clean : 0 ∉ text) (inside : s ≤ text.length) (cmd : Cmd Span)
    (redirs : List (Redir (List UInt8))) (tokens : remaining text s = redirTokens redirs ++ after)
    (ends : sees [60, 62] after = false) (enough : redirs.length < fuel) :
    Returns text after (fun result => ∃ spans : List (Redir Span),
      spans.map (Redir.bytes text) = redirs ∧ result = cmd.wrap spans)
      (parseredirs text fuel cmd s) := by
  induction redirs generalizing s cmd fuel with
  | nil =>
    obtain ⟨fuel, rfl⟩ := Nat.exists_eq_succ_of_ne_zero (Nat.ne_of_gt enough)
    obtain ⟨s₁, peeked, inside₁, same₁⟩ := peek_spec clean inside [60, 62] (by decide)
    rw [tokens] at peeked same₁
    rw [parseredirs, peeked]
    exact ⟨cmd, s₁, by simp only [redirTokens, List.flatMap_nil, List.nil_append, ends]; rfl,
      ⟨[], rfl, rfl⟩, inside₁, same₁⟩
  | cons redir rest ih =>
    obtain ⟨fuel, rfl⟩ := Nat.exists_eq_succ_of_ne_zero (Nat.ne_zero_of_lt enough)
    obtain ⟨direction, file⟩ := redir
    have split : remaining text s = .redir direction :: .word file :: (redirTokens rest ++ after) :=
      tokens
    obtain ⟨s₁, peeked, inside₁, same₁⟩ := peek_spec clean inside [60, 62] (by decide)
    rw [split] at peeked same₁
    have seen : sees [60, 62] (.redir direction :: .word file :: (redirTokens rest ++ after)) = true := by
      cases direction <;> rfl
    obtain ⟨_, s₂, got, inside₂, same₂, _⟩ := gettoken_cons clean inside₁ same₁
    obtain ⟨span, s₃, got', inside₃, same₃, word⟩ := gettoken_cons clean inside₂ same₂
    obtain ⟨_, spelled⟩ := word file rfl
    have isWord : ¬(Token.word file).code ≠ 97 := not_not_intro rfl
    rw [parseredirs, peeked, seen]
    simp only [if_true, got, got', if_neg isWord, redirect_code]
    obtain ⟨value, next, ran, ⟨spans, same, wrapped⟩, limit, left⟩ :=
      @ih s₃ fuel inside₃ (.redir cmd span direction.mode direction.fd) same₃
        (Nat.lt_of_succ_lt_succ enough)
    refine ⟨value, next, ran, ⟨(direction, span) :: spans, ?_, wrapped⟩, limit, left⟩
    rw [List.map_cons, same, Redir.bytes, spelled]

theorem parsebacks_complete (clean : 0 ∉ text) (inside : s ≤ text.length) (cmd : Cmd Span)
    (count : Nat) (tokens : remaining text s = List.replicate count .amp ++ after)
    (ends : sees [38] after = false) (enough : count < fuel) :
    Returns text after (· = cmd.backs count) (parsebacks text fuel cmd s) := by
  induction count generalizing s cmd fuel with
  | zero =>
    obtain ⟨fuel, rfl⟩ := Nat.exists_eq_succ_of_ne_zero (Nat.ne_of_gt enough)
    obtain ⟨s₁, peeked, inside₁, same₁⟩ := peek_spec clean inside [38] (by decide)
    rw [tokens] at peeked same₁
    rw [parsebacks, peeked]
    exact ⟨cmd, s₁, by simp only [List.replicate_zero, List.nil_append, ends]; rfl, rfl,
      inside₁, same₁⟩
  | succ count ih =>
    obtain ⟨fuel, rfl⟩ := Nat.exists_eq_succ_of_ne_zero (Nat.ne_zero_of_lt enough)
    obtain ⟨s₁, peeked, inside₁, same₁⟩ := peek_spec clean inside [38] (by decide)
    rw [tokens, List.replicate_succ, List.cons_append] at peeked same₁
    obtain ⟨_, s₂, got, inside₂, same₂, _⟩ := gettoken_cons clean inside₁ same₁
    have seen : sees [38] (.amp :: (List.replicate count .amp ++ after)) = true := rfl
    rw [parsebacks, peeked, seen]
    simp only [if_true, got]
    exact @ih s₂ fuel inside₂ (.back cmd) same₂ (Nat.lt_of_succ_lt_succ enough)

variable {ts : List Token}

theorem sees_none (ends : ts = [] ∨ sees [124, 41, 38, 59] ts = true) :
    sees [60, 62] ts = false := by
  cases ts with
  | nil => rfl
  | cons token rest =>
    have stops := ends.resolve_left (List.cons_ne_nil _ _)
    cases token with
    | redir direction => cases direction <;> cases stops
    | _ => rfl

theorem parseargs_complete (clean : 0 ∉ text) (inside : s ≤ text.length) (first : List (Redir Span))
    (done : List (Arg Span)) (args : List (Arg (List UInt8)))
    (tokens : remaining text s = argTokens args ++ after)
    (ends : after = [] ∨ sees [124, 41, 38, 59] after = true)
    (few : done.length + args.length < MAXARGS) (enough : (argTokens args).length < fuel) :
    Returns text after (fun result => ∃ spans : List (Arg Span),
      spans.map (Arg.bytes text) = args ∧ result = simple first (done ++ spans))
      (parseargs text fuel (simple first done) done.length s) := by
  induction args generalizing s done fuel with
  | nil =>
    obtain ⟨fuel, rfl⟩ := Nat.exists_eq_succ_of_ne_zero (Nat.ne_of_gt enough)
    obtain ⟨s₁, peeked, inside₁, same₁⟩ := peek_spec clean inside [124, 41, 38, 59] (by decide)
    have whole : remaining text s = after := tokens
    rw [whole] at peeked same₁
    have result : simple first done = simple first (done ++ []) := by rw [List.append_nil]
    rw [parseargs, peeked]
    rcases ends with rfl | stops
    · refine ⟨simple first done, text.length, ?_, ⟨[], rfl, result⟩, Nat.le_refl _, remaining_end⟩
      have unseen : sees [124, 41, 38, 59] [] = false := rfl
      simp only [unseen, Bool.false_eq_true, if_false, gettoken_nil clean inside₁ same₁, if_true]
    · exact ⟨simple first done, s₁, by rw [stops]; rfl, ⟨[], rfl, result⟩, inside₁, same₁⟩
  | cons arg rest ih =>
    obtain ⟨fuel, rfl⟩ := Nat.exists_eq_succ_of_ne_zero (Nat.ne_zero_of_lt enough)
    obtain ⟨word, redirs⟩ := arg
    have split : argTokens ((word, redirs) :: rest) =
        .word word :: (redirTokens redirs ++ argTokens rest) := rfl
    rw [split, List.cons_append, List.append_assoc] at tokens
    rw [split, List.length_cons, List.length_append] at enough
    rw [List.length_cons] at few
    obtain ⟨s₁, peeked, inside₁, same₁⟩ := peek_spec clean inside [124, 41, 38, 59] (by decide)
    rw [tokens] at peeked same₁
    obtain ⟨span, s₂, got, inside₂, same₂, sound⟩ := gettoken_cons clean inside₁ same₁
    obtain ⟨_, spelled⟩ := sound word rfl
    have isWord : ¬(Token.word word).code ≠ 97 := not_not_intro rfl
    have room : ¬done.length + 1 ≥ MAXARGS := by omega
    have next : sees [60, 62] (argTokens rest ++ after) = false := by
      cases rest with
      | nil => exact sees_none ends
      | cons arg rest => rfl
    have counted : redirs.length < fuel := by
      have length := redirTokens_length redirs
      omega
    obtain ⟨ret, s₃, ran, ⟨spans, same, rfl⟩, inside₃, same₃⟩ :=
      parseredirs_complete clean inside₂ ((simple first done).addArg span) redirs same₂ next counted
    obtain ⟨value, last, ranRest, ⟨spansRest, sameRest, result⟩, limit, left⟩ :=
      @ih s₃ fuel inside₃ (done ++ [(span, spans)]) same₃
        (by rw [List.length_append, List.length_singleton]; omega) (by omega)
    refine ⟨value, last, ?_, ⟨(span, spans) :: spansRest, ?_, ?_⟩, limit, left⟩
    · rw [parseargs, peeked]
      simp only [sees, List.head?_cons, Option.bind_some, Token.first, Option.any_none,
        Bool.false_eq_true, if_false, got, if_neg (code_ne_zero _), if_neg isWord, if_neg room, ran,
        ok_bind]
      rw [List.length_append, List.length_singleton] at ranRest
      rw [simple_addArg]
      exact ranRest
    · rw [List.map_cons, sameRest, Arg.bytes, spelled, same]
    · rwa [List.append_assoc] at result

/-! ## Phrases -/

/-- The procedure that reads a phrase. -/
def Phrase.parse (text : List UInt8) : Phrase → Nat → Nat → Except Stop (Cmd Span × Nat)
  | .line => parseline text
  | .pipe => parsepipe text
  | .exec => parseexec text

def Phrase.level : Phrase → Nat
  | .line => 4
  | .pipe => 3
  | .exec => 2

/-- The symbols that can follow a phrase. -/
def Phrase.follow : Phrase → List UInt8
  | .line => [41]
  | .pipe => [41, 38, 59]
  | .exec => [124, 41, 38, 59]

def Phrase.Ends (phrase : Phrase) (after : List Token) : Prop :=
  after = [] ∨ sees phrase.follow after = true

/-- The parser reads the phrase, whatever follows that may follow it. -/
def Accepts (text : List UInt8) (phrase : Phrase) (ts : List Token) (tree : Cmd (List UInt8)) : Prop :=
  ∀ s after fuel, s ≤ text.length → remaining text s = ts ++ after → phrase.Ends after →
    4 * (ts ++ after).length + phrase.level ≤ fuel →
    Returns text after (fun cmd => cmd.map (Span.bytes text) = tree) (phrase.parse text fuel s)

theorem sees_of_cons {token : Token} {c : UInt8} (first : token.first = some c) (toks : List UInt8)
    (rest : List Token) : sees toks (token :: rest) = toks.contains c := by
  simp [sees, first]

variable {phrase : Phrase}

/-- What ends a phrase does not start with another symbol. -/
theorem Phrase.Ends.unseen (ends : phrase.Ends ts) (c : UInt8)
    (other : phrase.follow.contains c = false) : sees [c] ts = false := by
  cases ts with
  | nil => rfl
  | cons token rest =>
    have follows := ends.resolve_left (List.cons_ne_nil _ _)
    cases first : token.first with
    | none => simp [sees, first]
    | some symbol =>
      rw [sees_of_cons first] at follows ⊢
      refine Bool.eq_false_iff.mpr fun same => ?_
      have equal : symbol = c := by simpa using same
      rw [equal, other] at follows
      cases follows

theorem Phrase.Ends.mono {wider : Phrase} (ends : phrase.Ends ts)
    (le : phrase.follow.all (wider.follow.contains ·) = true) : wider.Ends ts := by
  rcases ends with rfl | follows
  · exact Or.inl rfl
  · right
    unfold sees at follows ⊢
    cases first : ts.head?.bind Token.first with
    | none => simp [first] at follows
    | some symbol =>
      rw [first] at follows
      exact List.all_eq_true.mp le symbol (List.contains_iff_mem.mp follows)

/-- A phrase before a symbol that may follow it. -/
theorem Phrase.ends_cons {token : Token} {c : UInt8} (first : token.first = some c)
    (listed : phrase.follow.contains c = true) (rest : List Token) : phrase.Ends (token :: rest) :=
  Or.inr ((sees_of_cons first _ _).trans listed)

variable {tree : Cmd (List UInt8)}

section

variable (clean : 0 ∉ text)

include clean

theorem accepts_exec (exec : Accepts text .exec ts tree) : Accepts text .pipe ts tree := by
  intro s after fuel inside tokens ends enough
  obtain ⟨fuel, rfl⟩ := Nat.exists_eq_succ_of_ne_zero (Nat.ne_zero_of_lt enough)
  simp only [Phrase.level] at enough
  obtain ⟨cmd, s₁, ran, same, inside₁, left⟩ := exec s after fuel inside tokens
    (ends.mono (by decide)) (by simp only [Phrase.level]; omega)
  obtain ⟨s₂, peeked, inside₂, same₂⟩ := peek_spec clean inside₁ [124] (by decide)
  rw [left, ends.unseen 124 rfl] at peeked
  refine ⟨cmd, s₂, ?_, same, inside₂, same₂.trans left⟩
  show parsepipe text (fuel + 1) s = _
  rw [parsepipe, show parseexec text fuel s = _ from ran, ok_bind]
  simp only [peeked, Bool.false_eq_true, if_false]

theorem accepts_pipe {rest : List Token} {left right : Cmd (List UInt8)}
    (first : Accepts text .exec ts left) (next : Accepts text .pipe rest right) :
    Accepts text .pipe (ts ++ .bar :: rest) (.pipe left right) := by
  intro s after fuel inside tokens ends enough
  obtain ⟨fuel, rfl⟩ := Nat.exists_eq_succ_of_ne_zero (Nat.ne_zero_of_lt enough)
  rw [List.append_assoc, List.cons_append] at tokens enough
  simp only [Phrase.level, List.length_append, List.length_cons] at enough
  obtain ⟨cmd, s₁, ran, same, inside₁, left₁⟩ := first s (.bar :: (rest ++ after)) fuel inside tokens
    (Phrase.ends_cons rfl rfl _) (by
      simp only [Phrase.level, List.length_append, List.length_cons]
      omega)
  obtain ⟨s₂, peeked, inside₂, same₂⟩ := peek_spec clean inside₁ [124] (by decide)
  rw [left₁] at peeked same₂
  obtain ⟨_, s₃, got, inside₃, same₃, _⟩ := gettoken_cons clean inside₂ same₂
  obtain ⟨cmd', s₄, ran', same', inside₄, left₄⟩ := next s₃ after fuel inside₃ same₃ ends (by
    simp only [Phrase.level, List.length_append]
    omega)
  refine ⟨.pipe cmd cmd', s₄, ?_, ?_, inside₄, left₄⟩
  · show parsepipe text (fuel + 1) s = _
    rw [parsepipe, show parseexec text fuel s = _ from ran, ok_bind]
    simp only [peeked, sees_of_cons (show Token.bar.first = some 124 from rfl), got]
    rw [show parsepipe text fuel s₃ = _ from ran']
    rfl
  · show Cmd.pipe _ _ = Cmd.pipe _ _
    rw [same, same']

theorem accepts_line (count : Nat) (pipe : Accepts text .pipe ts tree) :
    Accepts text .line (ts ++ List.replicate count .amp) (tree.backs count) := by
  intro s after fuel inside tokens ends enough
  obtain ⟨fuel, rfl⟩ := Nat.exists_eq_succ_of_ne_zero (Nat.ne_zero_of_lt enough)
  rw [List.append_assoc] at tokens enough
  simp only [Phrase.level, List.length_append, List.length_replicate] at enough
  have wider : Phrase.pipe.Ends (List.replicate count .amp ++ after) := by
    cases count with
    | zero => exact ends.mono (by decide)
    | succ count => exact Phrase.ends_cons rfl rfl _
  obtain ⟨cmd, s₁, ran, same, inside₁, left₁⟩ := pipe s _ fuel inside tokens wider (by
    simp only [Phrase.level, List.length_append, List.length_replicate]
    omega)
  obtain ⟨_, s₂, ran', rfl, inside₂, left₂⟩ := parsebacks_complete clean inside₁ cmd count left₁
    (ends.unseen 38 rfl) (show count < fuel by omega)
  obtain ⟨s₃, peeked, inside₃, same₃⟩ := peek_spec clean inside₂ [59] (by decide)
  rw [left₂, ends.unseen 59 rfl] at peeked
  refine ⟨cmd.backs count, s₃, ?_, ?_, inside₃, same₃.trans left₂⟩
  · show parseline text (fuel + 1) s = _
    rw [parseline, show parsepipe text fuel s = _ from ran, ok_bind]
    simp only [ran', ok_bind, peeked, Bool.false_eq_true, if_false]
  · show (cmd.backs count).map _ = _
    rw [map_backs, same]

theorem accepts_list {rest : List Token} {right : Cmd (List UInt8)} (count : Nat)
    (pipe : Accepts text .pipe ts tree) (next : Accepts text .line rest right) :
    Accepts text .line (ts ++ (List.replicate count .amp ++ .semi :: rest))
      (.list (tree.backs count) right) := by
  intro s after fuel inside tokens ends enough
  obtain ⟨fuel, rfl⟩ := Nat.exists_eq_succ_of_ne_zero (Nat.ne_zero_of_lt enough)
  rw [List.append_assoc, List.append_assoc, List.cons_append] at tokens enough
  simp only [Phrase.level, List.length_append, List.length_replicate, List.length_cons] at enough
  have wider : Phrase.pipe.Ends (List.replicate count .amp ++ .semi :: (rest ++ after)) := by
    cases count with
    | zero | succ count => exact Phrase.ends_cons rfl rfl _
  obtain ⟨cmd, s₁, ran, same, inside₁, left₁⟩ := pipe s _ fuel inside tokens wider (by
    simp only [Phrase.level, List.length_append, List.length_replicate, List.length_cons]
    omega)
  obtain ⟨_, s₂, ran', rfl, inside₂, left₂⟩ := parsebacks_complete clean inside₁ cmd count left₁
    rfl (show count < fuel by omega)
  obtain ⟨s₃, peeked, inside₃, same₃⟩ := peek_spec clean inside₂ [59] (by decide)
  rw [left₂] at peeked same₃
  obtain ⟨_, s₄, got, inside₄, same₄, _⟩ := gettoken_cons clean inside₃ same₃
  obtain ⟨cmd', s₅, ranNext, sameNext, inside₅, left₅⟩ := next s₄ after fuel inside₄ same₄ ends (by
    simp only [Phrase.level, List.length_append]
    omega)
  refine ⟨.list (cmd.backs count) cmd', s₅, ?_, ?_, inside₅, left₅⟩
  · show parseline text (fuel + 1) s = _
    rw [parseline, show parsepipe text fuel s = _ from ran, ok_bind]
    simp only [ran', ok_bind, peeked, sees_of_cons (show Token.semi.first = some 59 from rfl), got]
    rw [show parseline text fuel s₄ = _ from ranNext]
    rfl
  · show Cmd.list ((cmd.backs count).map _) _ = _
    rw [map_backs, same, sameNext]

theorem accepts_block (redirs : List (Redir (List UInt8))) (body : Accepts text .line ts tree) :
    Accepts text .exec (.lparen :: (ts ++ .rparen :: redirTokens redirs)) (tree.wrap redirs) := by
  intro s after fuel inside tokens ends enough
  rw [List.cons_append, List.append_assoc, List.cons_append] at tokens enough
  simp only [Phrase.level, List.length_append, List.length_cons] at enough
  obtain ⟨fuel, rfl⟩ : ∃ less, fuel = less + 2 := ⟨fuel - 2, by omega⟩
  obtain ⟨s₁, peeked, inside₁, same₁⟩ := peek_spec clean inside [40] (by decide)
  rw [tokens] at peeked same₁
  obtain ⟨s₂, peeked₂, inside₂, same₂⟩ := peek_spec clean inside₁ [40] (by decide)
  rw [same₁] at peeked₂ same₂
  obtain ⟨_, s₃, got, inside₃, same₃, _⟩ := gettoken_cons clean inside₂ same₂
  obtain ⟨cmd, s₄, ran, same, inside₄, left₄⟩ := body s₃ _ fuel inside₃ same₃
    (Phrase.ends_cons rfl rfl _) (by
      simp only [Phrase.level, List.length_append, List.length_cons]
      omega)
  obtain ⟨s₅, peeked₅, inside₅, same₅⟩ := peek_spec clean inside₄ [41] (by decide)
  rw [left₄] at peeked₅ same₅
  obtain ⟨_, s₆, got₆, inside₆, same₆, _⟩ := gettoken_cons clean inside₅ same₅
  have counted : redirs.length < fuel := by
    have length := redirTokens_length redirs
    omega
  obtain ⟨_, s₇, ran₇, ⟨spans, spelled, rfl⟩, inside₇, left₇⟩ := parseredirs_complete clean inside₆ cmd
    redirs same₆ (sees_none ends) counted
  refine ⟨cmd.wrap spans, s₇, ?_, ?_, inside₇, left₇⟩
  · show parseexec text (fuel + 2) s = _
    rw [parseexec, peeked]
    simp only [sees_of_cons (show Token.lparen.first = some 40 from rfl)]
    show parseblock text (fuel + 1) s₁ = _
    rw [parseblock, peeked₂]
    simp only [sees_of_cons (show Token.lparen.first = some 40 from rfl), got]
    show (parseline text fuel s₃ >>= _) = _
    rw [show parseline text fuel s₃ = _ from ran, ok_bind]
    simp only [peeked₅, sees_of_cons (show Token.rparen.first = some 41 from rfl), got₆]
    exact ran₇
  · show (cmd.wrap spans).map _ = _
    rw [map_wrap, same, ← spelled]
    rfl

theorem accepts_simple (first : List (Redir (List UInt8)))
    (args : List (Arg (List UInt8))) (few : args.length < MAXARGS) :
    Accepts text .exec (redirTokens first ++ argTokens args) (simple first args) := by
  intro s after fuel inside tokens ends enough
  rw [List.append_assoc] at tokens enough
  simp only [Phrase.level, List.length_append] at enough
  obtain ⟨fuel, rfl⟩ : ∃ less, fuel = less + 1 := ⟨fuel - 1, by omega⟩
  have noBlock : sees [40] (redirTokens first ++ (argTokens args ++ after)) = false := by
    cases first with
    | cons redir rest =>
      obtain ⟨direction, file⟩ := redir
      cases direction <;> rfl
    | nil =>
      cases args with
      | cons arg rest => rfl
      | nil => exact ends.unseen 40 rfl
  have noRedir : sees [60, 62] (argTokens args ++ after) = false := by
    cases args with
    | cons arg rest => rfl
    | nil => exact sees_none ends
  have counted : first.length < fuel := by
    have length := redirTokens_length first
    omega
  obtain ⟨s₁, peeked, inside₁, same₁⟩ := peek_spec clean inside [40] (by decide)
  rw [tokens] at peeked same₁
  obtain ⟨_, s₂, ran, ⟨spans, spelled, rfl⟩, inside₂, left₂⟩ := parseredirs_complete clean inside₁
    (.exec []) first same₁ noRedir counted
  have start : (Cmd.exec []).wrap spans = simple spans [] := by
    rw [simple, List.flatMap_nil, List.append_nil]
    rfl
  obtain ⟨_, s₃, ran₃, ⟨spans₃, spelled₃, rfl⟩, inside₃, left₃⟩ := parseargs_complete clean inside₂
    spans [] args left₂ ends (by rw [List.length_nil]; omega) (show _ < fuel by omega)
  refine ⟨simple spans ([] ++ spans₃), s₃, ?_, ?_, inside₃, left₃⟩
  · show parseexec text (fuel + 1) s = _
    rw [parseexec, peeked, noBlock]
    simp only [Bool.false_eq_true, if_false, ran, ok_bind, start]
    exact ran₃
  · show (simple spans ([] ++ spans₃)).map _ = _
    rw [List.nil_append, map_simple, spelled, spelled₃]

theorem accepts_of_derives (derived : Derives phrase ts tree) : Accepts text phrase ts tree := by
  induction derived with
  | line count _ pipe => exact accepts_line clean count pipe
  | list count _ _ pipe next => exact accepts_list clean count pipe next
  | exec _ exec => exact accepts_exec clean exec
  | pipe _ _ first next => exact accepts_pipe clean first next
  | block redirs _ body => exact accepts_block clean redirs body
  | simple first args few => exact accepts_simple clean first args few

end

end Xv6.Sh
