import Xv6.Data.Ensures
import Xv6.Sh.Grammar

namespace Xv6.Sh

open Xv6.Data

/-! # What the parser accepts is in the grammar

Each function of the parser against the part of the grammar that it reads, with the fuel
that it needs.
-/

/-! ## The loops -/

variable {text : List UInt8} {s fuel : Nat}

/-- The tokens between two positions. -/
structure Reads (text : List UInt8) (s : Nat) (consumed : List Token) (s' : Nat) : Prop where
  inside : s' ≤ text.length
  split : remaining text s = consumed ++ remaining text s'

theorem parseredirs_sound (clean : 0 ∉ text) (inside : s ≤ text.length) (cmd : Cmd Span) :
    Ensures (fun stop => stop = .fuel → fuel ≤ (remaining text s).length)
      (fun result => ∃ redirs : List (Redir Span), result.1 = cmd.wrap redirs ∧
        (∀ redir ∈ redirs, redir.2.Sound text) ∧
        Reads text s (redirTokens (redirs.map (Redir.bytes text))) result.2)
      (parseredirs text fuel cmd s) := by
  induction fuel generalizing s cmd with
  | zero => exact fun _ => Nat.zero_le _
  | succ fuel ih =>
    obtain ⟨s₁, peeked, inside₁, same₁⟩ := peek_spec clean inside [60, 62] (by decide)
    rw [parseredirs, peeked]
    cases found : sees [60, 62] (remaining text s) with
    | false => exact ⟨[], rfl, nofun, inside₁, same₁.symm⟩
    | true =>
      obtain ⟨direction, rest, tokens⟩ := sees_redir found
      rw [tokens] at same₁
      obtain ⟨span₁, s₂, got₁, inside₂, same₂, _⟩ := gettoken_cons clean inside₁ same₁
      simp only [if_true, got₁]
      cases rest with
      | nil =>
        rw [gettoken_nil clean inside₂ same₂]
        exact nofun
      | cons next rest =>
        obtain ⟨file, s₃, got₂, inside₃, same₃, word⟩ := gettoken_cons clean inside₂ same₂
        simp only [got₂]
        split
        · exact nofun
        · rename_i isWord
          obtain ⟨bytes, rfl⟩ := code_eq_word.mp (not_not.mp isWord)
          obtain ⟨sound, spelled⟩ := word bytes rfl
          rw [redirect_code]
          refine ((ih inside₃ _).mono ?_).mono_errors ?_
          · rintro ⟨result, s'⟩ ⟨redirs, wrapped, sounds, reads⟩
            refine ⟨(direction, file) :: redirs, wrapped, ?_, reads.inside, ?_⟩
            · exact List.forall_mem_cons.mpr ⟨sound, sounds⟩
            · rw [tokens, ← same₃, reads.split, List.map_cons, Redir.bytes, spelled]
              rfl
          · intro stop short isFuel
            rw [tokens, List.length_cons, List.length_cons, ← same₃]
            exact Nat.le_succ_of_le (Nat.succ_le_succ (short isFuel))

theorem parsebacks_sound (clean : 0 ∉ text) (inside : s ≤ text.length) (cmd : Cmd Span) :
    Ensures (fun stop => stop = .fuel → fuel ≤ (remaining text s).length)
      (fun result => ∃ count, result.1 = cmd.backs count ∧
        Reads text s (List.replicate count .amp) result.2)
      (parsebacks text fuel cmd s) := by
  induction fuel generalizing s cmd with
  | zero => exact fun _ => Nat.zero_le _
  | succ fuel ih =>
    obtain ⟨s₁, peeked, inside₁, same₁⟩ := peek_spec clean inside [38] (by decide)
    rw [parsebacks, peeked]
    cases found : sees [38] (remaining text s) with
    | false => exact ⟨0, rfl, inside₁, same₁.symm⟩
    | true =>
      obtain ⟨rest, tokens⟩ := sees_symbol .amp nofun found
      rw [tokens] at same₁
      obtain ⟨_, s₂, got, inside₂, same₂, _⟩ := gettoken_cons clean inside₁ same₁
      simp only [if_true, got]
      refine ((ih inside₂ _).mono ?_).mono_errors ?_
      · rintro ⟨result, s'⟩ ⟨count, wrapped, reads⟩
        refine ⟨count + 1, wrapped, reads.inside, ?_⟩
        rw [tokens, ← same₂, reads.split]
        rfl
      · intro stop short isFuel
        rw [tokens, List.length_cons, ← same₂]
        exact Nat.succ_le_succ (short isFuel)

/-- The command that the loop of `parseexec` has read so far. -/
theorem parseargs_sound (clean : 0 ∉ text) (inside : s ≤ text.length) (first : List (Redir Span))
    (args : List (Arg Span)) (few : args.length < MAXARGS) :
    Ensures (fun stop => stop = .fuel → fuel ≤ (remaining text s).length)
      (fun result => ∃ more : List (Arg Span), result.1 = simple first (args ++ more) ∧
        (args ++ more).length < MAXARGS ∧
        (∀ arg ∈ more, arg.1.Sound text ∧ ∀ redir ∈ arg.2, redir.2.Sound text) ∧
        Reads text s (argTokens (more.map (Arg.bytes text))) result.2)
      (parseargs text fuel (simple first args) args.length s) := by
  induction fuel generalizing s args with
  | zero => exact fun _ => Nat.zero_le _
  | succ fuel ih =>
    obtain ⟨s₁, peeked, inside₁, same₁⟩ := peek_spec clean inside [124, 41, 38, 59] (by decide)
    rw [parseargs, peeked]
    cases stop : sees [124, 41, 38, 59] (remaining text s) with
    | true =>
      refine ⟨[], ?_, ?_, nofun, inside₁, same₁.symm⟩
      · rw [List.append_nil]
      · rwa [List.append_nil]
    | false =>
      cases tokens : remaining text s with
      | nil =>
        rw [tokens] at same₁
        simp only [Bool.false_eq_true, if_false, gettoken_nil clean inside₁ same₁, if_true]
        refine ⟨[], ?_, ?_, nofun, Nat.le_refl _, ?_⟩
        · rw [List.append_nil]
        · rwa [List.append_nil]
        · rw [remaining_end]
          exact tokens
      | cons token rest =>
        rw [tokens] at same₁
        obtain ⟨word, s₂, got, inside₂, same₂, spelled⟩ := gettoken_cons clean inside₁ same₁
        simp only [Bool.false_eq_true, if_false, got, if_neg (code_ne_zero token)]
        split
        · exact nofun
        · rename_i isWord
          obtain ⟨bytes, rfl⟩ := code_eq_word.mp (not_not.mp isWord)
          obtain ⟨sound, spelled⟩ := spelled bytes rfl
          split
          · exact nofun
          · rename_i room
            refine ((parseredirs_sound clean inside₂ _).mono_errors ?_).bind ?_
            · intro stop short isFuel
              rw [List.length_cons, ← same₂]
              exact Nat.succ_le_succ (short isFuel)
            rintro ⟨ret, s₃⟩ ⟨redirs, wrapped, sounds, reads⟩
            rw [simple_addArg] at wrapped
            obtain rfl : ret = simple first (args ++ [(word, redirs)]) := wrapped
            have next := ih reads.inside (args ++ [(word, redirs)]) (by
              rw [List.length_append, List.length_singleton]
              omega)
            rw [List.length_append, List.length_singleton] at next
            refine (next.mono ?_).mono_errors ?_
            · rintro ⟨result, s'⟩ ⟨more, same, fewer, soundMore, readsMore⟩
              refine ⟨(word, redirs) :: more, ?_, ?_, ?_, readsMore.inside, ?_⟩
              · rwa [List.append_assoc] at same
              · rwa [List.append_assoc] at fewer
              · exact List.forall_mem_cons.mpr ⟨⟨sound, sounds⟩, soundMore⟩
              · rw [tokens, ← same₂, reads.split, readsMore.split, List.map_cons, Arg.bytes, spelled]
                simp [argTokens]
            · intro stop short isFuel
              have fewer := short isFuel
              have length := congrArg List.length reads.split
              rw [same₂, List.length_append] at length
              rw [List.length_cons]
              omega

/-! ## The procedures -/

/-- A phrase read from a position on. -/
structure Parsed (text : List UInt8) (phrase : Phrase) (s : Nat) (result : Cmd Span × Nat) : Prop where
  sound : ∀ span ∈ result.1.words, span.Sound text
  derived : ∃ ts, Derives phrase ts (result.1.map (Span.bytes text)) ∧ Reads text s ts result.2

/-- Running out of fuel takes more tokens than there are. -/
def Short (text : List UInt8) (fuel s level : Nat) (stop : Stop) : Prop :=
  stop = .fuel → fuel < 4 * (remaining text s).length + level

/-- The specification of all four procedures for an amount of fuel. -/
structure Sounds (text : List UInt8) (fuel : Nat) : Prop where
  line : ∀ s, s ≤ text.length →
    Ensures (Short text fuel s 4) (Parsed text .line s) (parseline text fuel s)
  pipe : ∀ s, s ≤ text.length →
    Ensures (Short text fuel s 3) (Parsed text .pipe s) (parsepipe text fuel s)
  exec : ∀ s, s ≤ text.length →
    Ensures (Short text fuel s 2) (Parsed text .exec s) (parseexec text fuel s)
  block : ∀ s, s ≤ text.length →
    Ensures (Short text fuel s 1) (Parsed text .exec s) (parseblock text fuel s)

theorem parsepipe_sound (clean : 0 ∉ text) (known : Sounds text fuel) (inside : s ≤ text.length) :
    Ensures (Short text (fuel + 1) s 3) (Parsed text .pipe s) (parsepipe text (fuel + 1) s) := by
  rw [parsepipe]
  refine ((known.exec s inside).mono_errors ?_).bind ?_
  · intro stop short isFuel
    have := short isFuel
    omega
  rintro ⟨cmd, s₁⟩ ⟨sound, ts, derived, reads⟩
  obtain ⟨s₂, peeked, inside₂, same₂⟩ := peek_spec clean reads.inside [124] (by decide)
  simp only [peeked]
  cases found : sees [124] (remaining text s₁) with
  | false => exact ⟨sound, ts, .exec derived, inside₂, same₂ ▸ reads.split⟩
  | true =>
    obtain ⟨rest, tokens⟩ := sees_symbol .bar (by simp) found
    rw [tokens] at same₂
    obtain ⟨_, s₃, got, inside₃, same₃, _⟩ := gettoken_cons clean inside₂ same₂
    have whole : remaining text s = ts ++ .bar :: remaining text s₃ := by
      rw [reads.split, tokens, same₃]
    simp only [if_true, got]
    refine ((known.pipe s₃ inside₃).mono_errors ?_).bind ?_
    · intro stop short isFuel
      have less := short isFuel
      have length := congrArg List.length whole
      rw [List.length_append, List.length_cons] at length
      omega
    rintro ⟨right, s₄⟩ ⟨soundRight, us, derivedRight, readsRight⟩
    refine ⟨?_, ts ++ .bar :: us, .pipe derived derivedRight, readsRight.inside, ?_⟩
    · exact List.forall_mem_append.mpr ⟨sound, soundRight⟩
    · rw [whole, readsRight.split, List.append_assoc, List.cons_append]

theorem parseline_sound (clean : 0 ∉ text) (known : Sounds text fuel) (inside : s ≤ text.length) :
    Ensures (Short text (fuel + 1) s 4) (Parsed text .line s) (parseline text (fuel + 1) s) := by
  rw [parseline]
  refine ((known.pipe s inside).mono_errors ?_).bind ?_
  · intro stop short isFuel
    have := short isFuel
    omega
  rintro ⟨cmd, s₁⟩ ⟨sound, ts, derived, reads⟩
  refine ((parsebacks_sound clean reads.inside cmd).mono_errors ?_).bind ?_
  · intro stop short isFuel
    have less := short isFuel
    have length := congrArg List.length reads.split
    rw [List.length_append] at length
    omega
  rintro ⟨cmd', s₂⟩ ⟨count, wrapped, readsBacks⟩
  obtain rfl : cmd' = cmd.backs count := wrapped
  have spread : remaining text s = ts ++ (List.replicate count .amp ++ remaining text s₂) := by
    rw [reads.split, readsBacks.split]
  obtain ⟨s₃, peeked, inside₃, same₃⟩ := peek_spec clean readsBacks.inside [59] (by decide)
  simp only [peeked]
  cases found : sees [59] (remaining text s₂) with
  | false =>
    refine ⟨?_, ts ++ List.replicate count .amp, ?_, inside₃, ?_⟩
    · rw [words_backs]
      exact sound
    · rw [map_backs]
      exact .line count derived
    · rw [spread, same₃, List.append_assoc]
  | true =>
    obtain ⟨rest, tokens⟩ := sees_symbol .semi (by simp) found
    rw [tokens] at same₃
    obtain ⟨_, s₄, got, inside₄, same₄, _⟩ := gettoken_cons clean inside₃ same₃
    have whole : remaining text s =
        ts ++ (List.replicate count .amp ++ .semi :: remaining text s₄) := by
      rw [spread, tokens, same₄]
    simp only [if_true, got]
    refine ((known.line s₄ inside₄).mono_errors ?_).bind ?_
    · intro stop short isFuel
      have less := short isFuel
      have length := congrArg List.length whole
      rw [List.length_append, List.length_append, List.length_cons] at length
      omega
    rintro ⟨right, s₅⟩ ⟨soundRight, us, derivedRight, readsRight⟩
    refine ⟨?_, ts ++ (List.replicate count .amp ++ .semi :: us), ?_, readsRight.inside, ?_⟩
    · refine List.forall_mem_append.mpr ⟨?_, soundRight⟩
      rw [words_backs]
      exact sound
    · show Derives .line _ (.list ((cmd.backs count).map _) _)
      rw [map_backs]
      exact .list count derived derivedRight
    · rw [whole, readsRight.split]
      simp only [List.append_assoc, List.cons_append]

theorem parseblock_sound (clean : 0 ∉ text) (known : Sounds text fuel) (inside : s ≤ text.length) :
    Ensures (Short text (fuel + 1) s 1) (Parsed text .exec s) (parseblock text (fuel + 1) s) := by
  obtain ⟨s₁, peeked, inside₁, same₁⟩ := peek_spec clean inside [40] (by decide)
  rw [parseblock, peeked]
  cases found : sees [40] (remaining text s) with
  | false =>
    intro isFuel
    contradiction
  | true =>
    obtain ⟨rest, tokens⟩ := sees_symbol .lparen (by simp) found
    rw [tokens] at same₁
    obtain ⟨_, s₂, got, inside₂, same₂, _⟩ := gettoken_cons clean inside₁ same₁
    have opened : remaining text s = .lparen :: remaining text s₂ := by rw [tokens, same₂]
    simp only [Bool.not_true, Bool.false_eq_true, if_false, got]
    refine ((known.line s₂ inside₂).mono_errors ?_).bind ?_
    · intro stop short isFuel
      have less := short isFuel
      rw [opened, List.length_cons]
      omega
    rintro ⟨cmd, s₃⟩ ⟨sound, ts, derived, reads⟩
    obtain ⟨s₄, peeked', inside₄, same₄⟩ := peek_spec clean reads.inside [41] (by decide)
    simp only [peeked']
    cases closed : sees [41] (remaining text s₃) with
    | false =>
      intro isFuel
      contradiction
    | true =>
      obtain ⟨rest', tokens'⟩ := sees_symbol .rparen (by simp) closed
      rw [tokens'] at same₄
      obtain ⟨_, s₅, got', inside₅, same₅, _⟩ := gettoken_cons clean inside₄ same₄
      have whole : remaining text s = .lparen :: (ts ++ .rparen :: remaining text s₅) := by
        rw [opened, reads.split, tokens', same₅]
      simp only [Bool.not_true, Bool.false_eq_true, if_false, got']
      refine ((parseredirs_sound clean inside₅ cmd).mono ?_).mono_errors ?_
      · rintro ⟨result, s'⟩ ⟨redirs, wrapped, soundRedirs, readsRedirs⟩
        obtain rfl : result = cmd.wrap redirs := wrapped
        refine ⟨?_, .lparen :: (ts ++ .rparen :: redirTokens (redirs.map (Redir.bytes text))), ?_,
          readsRedirs.inside, ?_⟩
        · rw [words_wrap]
          refine List.forall_mem_append.mpr ⟨sound, List.forall_mem_map.mpr soundRedirs⟩
        · show Derives .exec _ ((cmd.wrap redirs).map _)
          rw [map_wrap]
          exact .block (redirs.map (Redir.bytes text)) derived
        · rw [whole, readsRedirs.split]
          simp only [List.append_assoc, List.cons_append]
      · intro stop short isFuel
        have less := short isFuel
        have length := congrArg List.length whole
        rw [List.length_cons, List.length_append, List.length_cons] at length
        omega

theorem parseexec_sound (clean : 0 ∉ text) (known : Sounds text fuel) (inside : s ≤ text.length) :
    Ensures (Short text (fuel + 1) s 2) (Parsed text .exec s) (parseexec text (fuel + 1) s) := by
  obtain ⟨s₁, peeked, inside₁, same₁⟩ := peek_spec clean inside [40] (by decide)
  rw [parseexec, peeked]
  cases sees [40] (remaining text s) with
  | true =>
    refine ((known.block s₁ inside₁).mono ?_).mono_errors ?_
    · rintro result ⟨sound, ts, derived, reads⟩
      exact ⟨sound, ts, derived, reads.inside, same₁ ▸ reads.split⟩
    · intro stop short isFuel
      have less := short isFuel
      rw [same₁] at less
      omega
  | false =>
    refine ((parseredirs_sound clean inside₁ (.exec [])).mono_errors ?_).bind ?_
    · intro stop short isFuel
      have less := short isFuel
      rw [same₁] at less
      omega
    rintro ⟨ret, s₂⟩ ⟨first, wrapped, soundFirst, reads⟩
    obtain rfl : ret = (Cmd.exec []).wrap first := wrapped
    have start : (Cmd.exec []).wrap first = simple first [] := by
      rw [simple, List.flatMap_nil, List.append_nil]
      rfl
    simp only [start]
    have none : ([] : List (Arg Span)).length < MAXARGS := by decide
    refine ((parseargs_sound clean reads.inside first [] none).mono ?_).mono_errors ?_
    · rintro ⟨result, s'⟩ ⟨args, same, few, soundArgs, readsArgs⟩
      rw [List.nil_append] at same few
      obtain rfl : result = simple first args := same
      refine ⟨?_, redirTokens (first.map (Redir.bytes text)) ++ argTokens (args.map (Arg.bytes text)),
        ?_, readsArgs.inside, ?_⟩
      · rw [simple, words_wrap, List.map_append, List.map_flatMap]
        refine List.forall_mem_append.mpr ⟨?_, List.forall_mem_append.mpr ⟨?_, ?_⟩⟩
        · exact List.forall_mem_map.mpr fun arg member => (soundArgs arg member).1
        · exact List.forall_mem_map.mpr soundFirst
        · intro span member
          obtain ⟨arg, inArgs, inRedirs⟩ := List.mem_flatMap.mp member
          obtain ⟨redir, inArg, rfl⟩ := List.mem_map.mp inRedirs
          exact (soundArgs arg inArgs).2 redir inArg
      · show Derives .exec _ ((simple first args).map _)
        rw [map_simple]
        exact .simple _ _ (by rwa [List.length_map])
      · rw [← same₁, reads.split, readsArgs.split, List.append_assoc]
    · intro stop short isFuel
      have less := short isFuel
      have length := congrArg List.length reads.split
      rw [same₁, List.length_append] at length
      omega

/-- By induction on the fuel, for all four procedures at once. -/
theorem sounds (clean : 0 ∉ text) (fuel : Nat) : Sounds text fuel := by
  induction fuel with
  | zero =>
    refine ⟨fun s _ => ?_, fun s _ => ?_, fun s _ => ?_, fun s _ => ?_⟩
    · rw [parseline]
      exact fun _ => Nat.succ_pos _
    · rw [parsepipe]
      exact fun _ => Nat.succ_pos _
    · rw [parseexec]
      exact fun _ => Nat.succ_pos _
    · rw [parseblock]
      exact fun _ => Nat.succ_pos _
  | succ fuel known =>
    exact ⟨fun s => parseline_sound clean known, fun s => parsepipe_sound clean known,
      fun s => parseexec_sound clean known, fun s => parseblock_sound clean known⟩

end Xv6.Sh
