import Mathlib.Computability.Language

namespace Xv6.Grep

open scoped Computability

/-! # match, matchhere and matchstar

The matcher of `grep.c`.  A NUL-terminated string is the list of its characters before the
NUL, so `re[0] == '\0'` is the empty list.
-/

def caret : UInt8 := '^'.toNat.toUInt8

def dollar : UInt8 := '$'.toNat.toUInt8

def dot : UInt8 := '.'.toNat.toUInt8

def asterisk : UInt8 := '*'.toNat.toUInt8

/-- `re[0]=='.' || re[0]==*text`. -/
def fits (c t : UInt8) : Bool := c = dot || c = t

/-- The loop of `matchstar`, where `here` is `matchhere` with the rest of the pattern. -/
def matchstar (here : List UInt8 → Bool) (c : UInt8) : List UInt8 → Bool
  | [] => here []
  | t :: text => here (t :: text) || fits c t && matchstar here c text

/-- The last branches of `matchhere`, where `here` is `matchhere` with `re+1`. -/
def matchone (here : List UInt8 → Bool) (c : UInt8) : List UInt8 → Bool
  | [] => false
  | t :: text => fits c t && here text

/-- Search for the pattern at the beginning of the text. -/
def matchhere : List UInt8 → List UInt8 → Bool
  | [], _ => true
  | [c], text => if c = dollar then text.isEmpty else matchone (fun _ => true) c text
  | c :: d :: re, text =>
    if d = asterisk then matchstar (matchhere re) c text else matchone (matchhere (d :: re)) c text

/-- The loop of `match`. -/
def matchFrom (re : List UInt8) : List UInt8 → Bool
  | [] => matchhere re []
  | t :: text => matchhere re (t :: text) || matchFrom re text

/-- `match`. -/
def matchText : List UInt8 → List UInt8 → Bool
  | [], text => matchFrom [] text
  | c :: re, text => if c = caret then matchhere re text else matchFrom (c :: re) text

/-! ## Regular expressions -/

/-- One character, or any number of them; `.` stands for any character. -/
inductive Item where
  | one (c : UInt8)
  | star (c : UInt8)
deriving DecidableEq, Repr

/-- The words of one character that fit. -/
def charLanguage (c : UInt8) : Language UInt8 := {word | ∃ t, word = [t] ∧ fits c t = true}

def Item.language : Item → Language UInt8
  | .one c => charLanguage c
  | .star c => (charLanguage c)∗

/-- The items of a pattern, and whether it ends with a `$`. -/
def readItems : List UInt8 → List Item × Bool
  | [] => ([], false)
  | [c] => if c = dollar then ([], true) else ([.one c], false)
  | c :: d :: re =>
    if d = asterisk then
      (.star c :: (readItems re).1, (readItems re).2)
    else
      (.one c :: (readItems (d :: re)).1, (readItems (d :: re)).2)

structure Pattern where
  anchored : Bool
  items : List Item
  atEnd : Bool

def readPattern : List UInt8 → Pattern
  | [] => ⟨false, [], false⟩
  | c :: re =>
    if c = caret then
      ⟨true, (readItems re).1, (readItems re).2⟩
    else
      ⟨false, (readItems (c :: re)).1, (readItems (c :: re)).2⟩

/-- The words of a sequence of items. -/
def language (items : List Item) : Language UInt8 := (items.map Item.language).prod

/-- Some part of the text is a word of the pattern, where the pattern lets it be. -/
def Pattern.Accepts (pattern : Pattern) (text : List UInt8) : Prop :=
  ∃ before word after, text = before ++ word ++ after ∧ word ∈ language pattern.items ∧
    (pattern.anchored = true → before = []) ∧ (pattern.atEnd = true → after = [])

/-- A word of the items at the beginning of the text. -/
def Begins (items : List Item × Bool) (text : List UInt8) : Prop :=
  ∃ word after, text = word ++ after ∧ word ∈ language items.1 ∧ (items.2 = true → after = [])

section

variable {items : List Item} {atEnd : Bool} {c : UInt8} {text : List UInt8}

theorem begins_nil : Begins ([], false) text := ⟨[], text, rfl, Language.mem_one [] |>.mpr rfl, nofun⟩

theorem begins_end : Begins ([], true) text ↔ text = [] := by
  constructor
  · rintro ⟨word, after, rfl, empty, ends⟩
    rw [ends rfl, (Language.mem_one word).mp empty]
    rfl
  · rintro rfl
    exact ⟨[], [], rfl, (Language.mem_one []).mpr rfl, fun _ => rfl⟩

theorem begins_one : Begins (.one c :: items, atEnd) text ↔
    ∃ t rest, text = t :: rest ∧ fits c t = true ∧ Begins (items, atEnd) rest := by
  constructor
  · rintro ⟨word, after, rfl, member, ends⟩
    rw [language, List.map_cons, List.prod_cons] at member
    obtain ⟨_, ⟨t, rfl, fit⟩, tail, inner, rfl⟩ := Language.mem_mul.mp member
    exact ⟨t, tail ++ after, rfl, fit, tail, after, rfl, inner, ends⟩
  · rintro ⟨t, _, rfl, fit, word, after, rfl, member, ends⟩
    refine ⟨t :: word, after, rfl, ?_, ends⟩
    rw [language, List.map_cons, List.prod_cons]
    exact Language.mem_mul.mpr ⟨[t], ⟨t, rfl, fit⟩, word, member, rfl⟩

theorem begins_star : Begins (.star c :: items, atEnd) text ↔ Begins (items, atEnd) text ∨
      ∃ t rest, text = t :: rest ∧ fits c t = true ∧ Begins (.star c :: items, atEnd) rest := by
  have unfolded : language (.star c :: items) =
      language items + charLanguage c * language (.star c :: items) := by
    have split : language (.star c :: items) = (charLanguage c)∗ * language items := by
      rw [language, List.map_cons, List.prod_cons]
      rfl
    rw [split, ← mul_assoc]
    nth_rewrite 1 [← Language.one_add_self_mul_kstar_eq_kstar]
    rw [add_mul, one_mul]
  constructor
  · rintro ⟨word, after, rfl, member, ends⟩
    rw [unfolded] at member
    rcases (Language.mem_add _ _ _).mp member with none | more
    · exact .inl ⟨word, after, rfl, none, ends⟩
    · obtain ⟨_, ⟨t, rfl, fit⟩, tail, inner, rfl⟩ := Language.mem_mul.mp more
      exact .inr ⟨t, tail ++ after, rfl, fit, tail, after, rfl, inner, ends⟩
  · rintro (⟨word, after, rfl, member, ends⟩ | ⟨t, _, rfl, fit, word, after, rfl, member, ends⟩)
    · refine ⟨word, after, rfl, ?_, ends⟩
      rw [unfolded]
      exact (Language.mem_add _ _ _).mpr (.inl member)
    · refine ⟨t :: word, after, rfl, ?_, ends⟩
      rw [unfolded]
      exact (Language.mem_add _ _ _).mpr (.inr (Language.mem_mul.mpr ⟨[t], ⟨t, rfl, fit⟩, word, member, rfl⟩))

theorem matchone_iff {here : List UInt8 → Bool}
    (correct : ∀ text, here text = true ↔ Begins (items, atEnd) text) :
    matchone here c text = true ↔ Begins (.one c :: items, atEnd) text := by
  rw [begins_one]
  cases text with
  | nil => exact ⟨nofun, nofun⟩
  | cons t text =>
    rw [matchone, Bool.and_eq_true, correct]
    constructor
    · rintro ⟨fit, begins⟩
      exact ⟨t, text, rfl, fit, begins⟩
    · rintro ⟨_, _, ⟨⟩, fit, begins⟩
      exact ⟨fit, begins⟩

theorem matchstar_iff {here : List UInt8 → Bool}
    (correct : ∀ text, here text = true ↔ Begins (items, atEnd) text) :
    matchstar here c text = true ↔ Begins (.star c :: items, atEnd) text := by
  induction text with
  | nil =>
    rw [begins_star, matchstar, correct]
    exact ⟨.inl, fun begins => begins.resolve_right nofun⟩
  | cons t text ih =>
    rw [begins_star, matchstar, Bool.or_eq_true, Bool.and_eq_true, correct, ih]
    constructor
    · rintro (none | ⟨fit, more⟩)
      · exact .inl none
      · exact .inr ⟨t, text, rfl, fit, more⟩
    · rintro (none | ⟨_, _, ⟨⟩, fit, more⟩)
      · exact .inl none
      · exact .inr ⟨fit, more⟩

/-- The cases are those of `matchhere`: the order of its tests is how a pattern is read. -/
theorem matchhere_iff (re text : List UInt8) :
    matchhere re text = true ↔ Begins (readItems re) text := by
  induction re using readItems.induct generalizing text with
  | case1 => exact ⟨fun _ => begins_nil, fun _ => rfl⟩
  | case2 =>
    rw [matchhere, readItems, if_pos rfl, if_pos rfl, List.isEmpty_iff, begins_end]
  | case3 c single =>
    rw [matchhere, readItems, if_neg single, if_neg single]
    exact matchone_iff fun _ => ⟨fun _ => begins_nil, fun _ => rfl⟩
  | case4 c re ih =>
    rw [matchhere, readItems, if_pos rfl, if_pos rfl]
    exact matchstar_iff ih
  | case5 c d re plain ih =>
    rw [matchhere, readItems, if_neg plain, if_neg plain]
    exact matchone_iff ih

/-- The loop of `match` tries every place of the text. -/
theorem matchFrom_iff (re text : List UInt8) :
    matchFrom re text = true ↔ ∃ before rest, text = before ++ rest ∧ Begins (readItems re) rest := by
  induction text with
  | nil =>
    rw [matchFrom, matchhere_iff]
    constructor
    · exact fun begins => ⟨[], [], rfl, begins⟩
    · rintro ⟨before, rest, empty, begins⟩
      obtain ⟨rfl, rfl⟩ := List.append_eq_nil_iff.mp empty.symm
      exact begins
  | cons t text ih =>
    rw [matchFrom, Bool.or_eq_true, matchhere_iff, ih]
    constructor
    · rintro (here | ⟨before, rest, rfl, later⟩)
      · exact ⟨[], t :: text, rfl, here⟩
      · exact ⟨t :: before, rest, rfl, later⟩
    · rintro ⟨before, rest, split, begins⟩
      cases before with
      | nil =>
        obtain rfl : t :: text = rest := split
        exact .inl begins
      | cons first before =>
        obtain ⟨rfl, rfl⟩ := List.cons_eq_cons.mp split
        exact .inr ⟨before, rest, rfl, begins⟩

end

/-- For every pattern and text: `match` returns one exactly if a part of the text is a word of
the pattern, at the beginning of the text for a pattern with a caret. -/
theorem match_correct (pattern text : List UInt8) :
    matchText pattern text = true ↔ (readPattern pattern).Accepts text := by
  have somewhere : ∀ re, matchFrom re text = true ↔
      (Pattern.mk false (readItems re).1 (readItems re).2).Accepts text := by
    intro re
    rw [matchFrom_iff]
    constructor
    · rintro ⟨before, _, rfl, word, after, rfl, member, ends⟩
      exact ⟨before, word, after, (List.append_assoc ..).symm, member, nofun, ends⟩
    · rintro ⟨before, word, after, rfl, member, _, ends⟩
      exact ⟨before, word ++ after, List.append_assoc .., word, after, rfl, member, ends⟩
  cases pattern with
  | nil => exact somewhere []
  | cons c re =>
    rw [matchText, readPattern]
    by_cases anchored : c = caret
    · rw [if_pos anchored, if_pos anchored, matchhere_iff]
      constructor
      · rintro ⟨word, after, rfl, member, ends⟩
        exact ⟨[], word, after, rfl, member, fun _ => rfl, ends⟩
      · rintro ⟨before, word, after, rfl, member, start, ends⟩
        rw [start rfl]
        exact ⟨word, after, rfl, member, ends⟩
    · rw [if_neg anchored, if_neg anchored]
      exact somewhere (c :: re)

end Xv6.Grep
