import Mathlib.Data.List.GetD
import Xv6.Data.Overwrite
import Xv6.Grep.Match

namespace Xv6.Grep

open Xv6.Data

/-! # grep

The loop of `grep.c` over its input.  A buffer is a map from positions to bytes, a pointer
into it a position; the output is what `write` gets.
-/

/-- `sizeof(buf)`. -/
def bufSize : Nat := 1024

def newline : UInt8 := '\n'.toNat.toUInt8

/-- `strchr` from a position on, which it leaves no more than `fuel` times. -/
def strchr (buf : Nat → UInt8) (c : UInt8) : Nat → Nat → Option Nat
  | 0, _ => none
  | fuel + 1, s =>
    if buf s = 0 then none else if buf s = c then some s else strchr buf c fuel (s + 1)

/-- The characters of the string at a position. -/
def stringAt (buf : Nat → UInt8) : Nat → Nat → List UInt8
  | 0, _ => []
  | fuel + 1, s => if buf s = 0 then [] else buf s :: stringAt buf fuel (s + 1)

/-- `read`: a part of the input, at most as long as asked for, and not empty unless the input
or the request is. -/
def readPiece (size request : Nat) (input : List UInt8) : List UInt8 :=
  input.take (min request (max size 1))

/-- The bytes go to the buffer from a position on. -/
def fill (buf : Nat → UInt8) (m : Nat) (piece : List UInt8) : Nat → UInt8 := fun index =>
  if m ≤ index ∧ index < m + piece.length then piece.getD (index - m) 0 else buf index

/-- The loop over the lines in the buffer from `p` on: the new `p`, the buffer and the output. -/
def grepLines (pattern : List UInt8) : Nat → Nat → (Nat → UInt8) → List UInt8 →
    Nat × (Nat → UInt8) × List UInt8
  | 0, p, buf, output => (p, buf, output)
  | fuel + 1, p, buf, output =>
    match strchr buf newline bufSize p with
    | none => (p, buf, output)
    | some q =>
      let buf := overwrite buf q 0
      if matchText pattern (stringAt buf bufSize p) then
        let buf := overwrite buf q newline
        grepLines pattern fuel (q + 1) buf
          (output ++ (List.range (q + 1 - p)).map fun index => buf (p + index))
      else
        grepLines pattern fuel (q + 1) buf output

/-- `memmove(buf, p, m)`. -/
def moveDown (buf : Nat → UInt8) (p m : Nat) : Nat → UInt8 := fun index =>
  if index < m then buf (p + index) else buf index

/-- The loop of `grep`; `sizes` says how much each `read` returns at most, and no more reads are
made than there is fuel. -/
def grepLoop (pattern : List UInt8) : Nat → (Nat → Nat) → List UInt8 → Nat → (Nat → UInt8) →
    List UInt8 → List UInt8
  | 0, _, _, _, _, output => output
  | fuel + 1, sizes, input, m, buf, output =>
    let piece := readPiece (sizes 0) (bufSize - m - 1) input
    if piece.length > 0 then
      let buf := fill buf m piece
      let m := m + piece.length
      let buf := overwrite buf m 0
      let (p, buf, output) := grepLines pattern bufSize 0 buf output
      let (m, buf) := if m > 0 then (m - p, moveDown buf p (m - p)) else (m, buf)
      grepLoop pattern fuel (fun index => sizes (index + 1)) (input.drop piece.length) m buf output
    else
      output

/-- Each read takes a byte at least, so there are enough for the input and its end. -/
def grep (pattern : List UInt8) (sizes : Nat → Nat) (input : List UInt8) (buf : Nat → UInt8) :
    List UInt8 :=
  grepLoop pattern (input.length + 1) sizes input 0 buf []

/-! ## Lines -/

/-- The lines, each with its newline. -/
def join (lines : List (List UInt8)) : List UInt8 := lines.flatMap (· ++ [newline])

/-- What `grep` is to write. -/
def report (pattern : List UInt8) (lines : List (List UInt8)) : List UInt8 :=
  join (lines.filter (matchText pattern))

/-- The line, its newline and the zero byte fit the buffer. -/
def fitsBuf (line : List UInt8) : Bool := line.length ≤ bufSize - 2

/-- The string stands in the buffer. -/
structure Stands (buf : Nat → UInt8) (p : Nat) (text : List UInt8) : Prop where
  bytes : ∀ index, index < text.length → buf (p + index) = text.getD index 0
  ends : buf (p + text.length) = 0

section

variable {buf : Nat → UInt8} {p : Nat} {text line rest input : List UInt8} {lines : List (List UInt8)}

theorem join_cons (line : List UInt8) (lines : List (List UInt8)) :
    join (line :: lines) = line ++ newline :: join lines := by
  rw [join, List.flatMap_cons, List.append_assoc, List.singleton_append, join]

theorem join_append (first second : List (List UInt8)) : join (first ++ second) = join first ++ join second :=
  List.flatMap_append

theorem report_append (pattern : List UInt8) (first second : List (List UInt8)) :
    report pattern (first ++ second) = report pattern first ++ report pattern second := by
  rw [report, report, report, List.filter_append, join_append]

theorem report_eq_nil {pattern : List UInt8} :
    report pattern lines = [] ↔ ∀ line ∈ lines, ¬ matchText pattern line := by
  simp [report, join, List.flatMap_eq_nil_iff]

theorem first_line {other rest' : List UInt8} (clean : newline ∉ line) (cleanOther : newline ∉ other)
    (same : line ++ newline :: rest = other ++ newline :: rest') : line = other ∧ rest = rest' := by
  induction line generalizing other with
  | nil =>
    cases other with
    | nil => exact ⟨rfl, (List.cons_eq_cons.mp same).2⟩
    | cons first other =>
      obtain ⟨rfl, _⟩ := List.cons_eq_cons.mp same
      exact absurd List.mem_cons_self cleanOther
  | cons byte line ih =>
    cases other with
    | nil =>
      obtain ⟨rfl, _⟩ := List.cons_eq_cons.mp same
      exact absurd List.mem_cons_self clean
    | cons first other =>
      obtain ⟨rfl, later⟩ := List.cons_eq_cons.mp same
      obtain ⟨rfl, tails⟩ := ih (fun member => clean (List.mem_cons_of_mem _ member))
        (fun member => cleanOther (List.mem_cons_of_mem _ member)) later
      exact ⟨rfl, tails⟩

theorem Stands.tail {byte : UInt8} (stands : Stands buf p (byte :: text)) : Stands buf (p + 1) text := by
  constructor
  · intro index below
    have here := stands.bytes (index + 1) (Nat.succ_lt_succ below)
    rw [Nat.add_assoc, Nat.add_comm 1]
    exact here
  · rw [Nat.add_assoc, Nat.add_comm 1]
    exact stands.ends

theorem Stands.head {byte : UInt8} (stands : Stands buf p (byte :: text)) : buf p = byte :=
  stands.bytes 0 (Nat.succ_pos _)

theorem Stands.drop (stands : Stands buf p (line ++ text)) : Stands buf (p + line.length) text := by
  induction line generalizing p with
  | nil => exact stands
  | cons byte line ih =>
    have later := ih stands.tail
    rw [Nat.add_assoc, Nat.add_comm 1] at later
    exact later

theorem Stands.stringAt (stands : Stands buf p text) (clean : 0 ∉ text) {fuel : Nat}
    (enough : text.length < fuel) : stringAt buf fuel p = text := by
  induction text generalizing p fuel with
  | nil =>
    obtain ⟨fuel, rfl⟩ := Nat.exists_eq_add_of_lt enough
    rw [Grep.stringAt]
    exact if_pos stands.ends
  | cons byte text ih =>
    obtain ⟨fuel, rfl⟩ := Nat.exists_eq_succ_of_ne_zero (Nat.ne_zero_of_lt enough)
    have nonzero : byte ≠ 0 := fun zero => clean (zero ▸ List.mem_cons_self)
    rw [Grep.stringAt, stands.head, if_neg nonzero,
      ih stands.tail (fun member => clean (List.mem_cons_of_mem _ member)) (Nat.lt_of_succ_lt_succ enough)]

theorem Stands.strchr_none (stands : Stands buf p text) (unbroken : newline ∉ text) (fuel : Nat) :
    strchr buf newline fuel p = none := by
  induction fuel generalizing p text with
  | zero => rfl
  | succ fuel ih =>
    rw [strchr]
    cases text with
    | nil => exact if_pos stands.ends
    | cons byte text =>
      have other : byte ≠ newline := fun same => unbroken (same ▸ List.mem_cons_self)
      rw [stands.head, if_neg other, ih stands.tail fun member => unbroken (List.mem_cons_of_mem _ member)]
      exact ite_self none

theorem Stands.strchr_some (stands : Stands buf p (line ++ newline :: text)) (clean : 0 ∉ line)
    (unbroken : newline ∉ line) {fuel : Nat} (enough : line.length < fuel) :
    strchr buf newline fuel p = some (p + line.length) := by
  induction line generalizing p fuel with
  | nil =>
    obtain ⟨fuel, rfl⟩ := Nat.exists_eq_add_of_lt enough
    rw [strchr, stands.head, if_neg (by decide), if_pos rfl]
    rfl
  | cons byte line ih =>
    obtain ⟨fuel, rfl⟩ := Nat.exists_eq_succ_of_ne_zero (Nat.ne_zero_of_lt enough)
    have nonzero : byte ≠ 0 := fun zero => clean (zero ▸ List.mem_cons_self)
    have other : byte ≠ newline := fun same => unbroken (same ▸ List.mem_cons_self)
    rw [strchr, stands.head, if_neg nonzero, if_neg other,
      ih stands.tail (fun member => clean (List.mem_cons_of_mem _ member))
        (fun member => unbroken (List.mem_cons_of_mem _ member)) (Nat.lt_of_succ_lt_succ enough)]
    rw [List.length_cons, Nat.add_assoc, Nat.add_comm 1]

theorem Stands.congr {other : Nat → UInt8} (stands : Stands buf p text)
    (same : ∀ index, p ≤ index → other index = buf index) : Stands other p text := by
  constructor
  · intro index below
    rw [same _ (Nat.le_add_right ..), stands.bytes index below]
  · rw [same _ (Nat.le_add_right ..), stands.ends]

theorem Stands.cut (stands : Stands buf p (line ++ newline :: text)) :
    Stands (overwrite buf (p + line.length) 0) p line := by
  constructor
  · intro index below
    rw [overwrite_of_ne (by omega), stands.bytes index (by rw [List.length_append]; omega),
      List.getD_append _ _ _ _ below]
  · exact overwrite_self ..

theorem Stands.written (stands : Stands buf p (line ++ newline :: text)) :
    (List.range (p + line.length + 1 - p)).map (fun index =>
      overwrite (overwrite buf (p + line.length) 0) (p + line.length) newline (p + index)) =
      line ++ [newline] := by
  have count : p + line.length + 1 - p = line.length + 1 := by omega
  rw [count, List.range_succ, List.map_append, List.map_singleton, overwrite_self]
  congr 1
  apply List.ext_getElem
  · rw [List.length_map, List.length_range]
  · intro index _ below
    rw [List.getElem_map, List.getElem_range, overwrite_of_ne (by omega), overwrite_of_ne (by omega),
      stands.bytes index (by rw [List.length_append]; omega), List.getD_append _ _ _ _ below,
      List.getD_eq_getElem _ _ below]

/-- The inner loop reports the lines that are whole and stops at what is left of the next. -/
theorem grepLines_spec (pattern : List UInt8) {fuel : Nat} (output : List UInt8)
    (stands : Stands buf p text) (clean : 0 ∉ text) (whole : text ++ input = join lines)
    (unbroken : ∀ line ∈ lines, newline ∉ line) (short : text.length < bufSize)
    (enough : text.length < fuel) :
    ∃ done todo carry buf', grepLines pattern fuel p buf output =
        (p + (join done).length, buf', output ++ report pattern done) ∧
      lines = done ++ todo ∧ text = join done ++ carry ∧ newline ∉ carry ∧
      Stands buf' (p + (join done).length) carry := by
  induction fuel generalizing p buf text lines output with
  | zero => contradiction
  | succ fuel ih =>
    rw [grepLines]
    by_cases broken : newline ∈ text
    · obtain ⟨line, after, rfl, first⟩ := List.eq_append_cons_of_mem broken
      cases lines with
      | nil => simp [join] at whole
      | cons head lines =>
        rw [join_cons, List.append_assoc, List.cons_append] at whole
        obtain ⟨rfl, later⟩ := first_line first (unbroken head List.mem_cons_self) whole
        rw [List.length_append, List.length_cons] at short enough
        have cleanLine : 0 ∉ line := fun member => clean (List.mem_append_left _ member)
        rw [stands.strchr_some cleanLine first (by omega)]
        dsimp only
        rw [stands.cut.stringAt cleanLine (by omega)]
        have next : Stands buf (p + line.length + 1) after := stands.drop.tail
        have unbrokenLater := fun other member => unbroken other (List.mem_cons_of_mem line member)
        have cleanLater : 0 ∉ after := fun member =>
          clean (List.mem_append_right _ (List.mem_cons_of_mem _ member))
        have place : ∀ done, p + (join (line :: done)).length =
            p + line.length + 1 + (join done).length := by
          intro done
          rw [join_cons, List.length_append, List.length_cons]
          omega
        by_cases matched : matchText pattern line = true
        · rw [if_pos matched, stands.written]
          have same : ∀ index, p + line.length + 1 ≤ index →
              overwrite (overwrite buf (p + line.length) 0) (p + line.length) newline index =
                buf index := by
            intro index above
            rw [overwrite_of_ne (by omega), overwrite_of_ne (by omega)]
          obtain ⟨done, todo, carry, buf', result, rfl, rfl, rest, left⟩ :=
            ih (output ++ (line ++ [newline])) (next.congr same) cleanLater later unbrokenLater
              (by omega) (by omega)
          refine ⟨line :: done, todo, carry, buf', ?_, rfl, ?_, rest, ?_⟩
          · rw [result, place, report, report, List.filter_cons_of_pos matched, join_cons]
            simp
          · rw [join_cons, List.append_assoc]
            rfl
          · rw [place]
            exact left
        · rw [if_neg matched]
          have same : ∀ index, p + line.length + 1 ≤ index →
              overwrite buf (p + line.length) 0 index = buf index :=
            fun index above => overwrite_of_ne (by omega)
          obtain ⟨done, todo, carry, buf', result, rfl, rfl, rest, left⟩ :=
            ih output (next.congr same) cleanLater later unbrokenLater (by omega) (by omega)
          refine ⟨line :: done, todo, carry, buf', ?_, rfl, ?_, rest, ?_⟩
          · rw [result, place, report, report, List.filter_cons_of_neg matched]
          · rw [join_cons, List.append_assoc]
            rfl
          · rw [place]
            exact left
    · rw [stands.strchr_none broken]
      exact ⟨[], lines, text, buf, by simp [report, join], rfl, rfl, broken, stands⟩

theorem readPiece_length_pos {size request : Nat} (asked : 0 < request) (more : input ≠ []) :
    0 < (readPiece size request input).length := by
  have length := List.length_pos_iff.mpr more
  rw [readPiece, List.length_take]
  omega

theorem readPiece_split (size request : Nat) (input : List UInt8) :
    readPiece size request input ++ input.drop (readPiece size request input).length = input := by
  rw [readPiece, List.length_take, List.take_eq_take_min, List.take_append_drop]

/-- What stands in the buffer before a read, and what is read behind it. -/
theorem stands_filled {carry piece : List UInt8}
    (bytes : ∀ index, index < carry.length → buf index = carry.getD index 0) :
    Stands (overwrite (fill buf carry.length piece) (carry.length + piece.length) 0) 0 (carry ++ piece) := by
  constructor
  · intro index below
    rw [List.length_append] at below
    rw [Nat.zero_add, overwrite_of_ne (by omega), fill]
    rcases Nat.lt_or_ge index carry.length with inside | behind
    · rw [if_neg (by omega), bytes index inside, List.getD_append _ _ _ _ inside]
    · rw [if_pos ⟨behind, below⟩, List.getD_append_right _ _ _ _ behind]
  · rw [Nat.zero_add, List.length_append, overwrite_self]

theorem carry_le {carry : List UInt8} (rest : newline ∉ carry)
    (whole : carry ++ input = join (line :: lines)) : carry.length ≤ line.length := by
  by_contra longer
  -- The newline after the line would be in the part.
  have here : (carry ++ input)[line.length]? = some newline := by
    rw [whole, join_cons, List.getElem?_append_right (Nat.le_refl _), Nat.sub_self]
    rfl
  rw [List.getElem?_append_left (Nat.lt_of_not_le longer)] at here
  exact rest (List.mem_of_getElem? here)

theorem length_lt_join (member : line ∈ lines) : line.length < (join lines).length := by
  obtain ⟨before, after, rfl⟩ := List.append_of_mem member
  rw [join_append, join_cons, List.length_append, List.length_append, List.length_cons]
  omega

/-- Between two reads the buffer has the part of the next line that was read.  When that part
has filled the buffer, the next request is empty, and the loop ends. -/
theorem grepLoop_spec (pattern : List UInt8) {fuel : Nat} (sizes : Nat → Nat) {carry : List UInt8}
    (output : List UInt8) (bytes : ∀ index, index < carry.length → buf index = carry.getD index 0)
    (rest : newline ∉ carry) (whole : carry ++ input = join lines) (clean : 0 ∉ join lines)
    (unbroken : ∀ line ∈ lines, newline ∉ line) (room : carry.length < bufSize)
    (enough : input.length < fuel) :
    grepLoop pattern fuel sizes input carry.length buf output =
      output ++ report pattern (lines.takeWhile fitsBuf) := by
  induction fuel generalizing sizes carry input buf output lines with
  | zero => contradiction
  | succ fuel ih =>
    rw [grepLoop]
    by_cases full : carry.length = bufSize - 1
    · have nothing : lines.takeWhile fitsBuf = [] := by
        cases lines with
        | nil => rfl
        | cons line lines =>
          have long := carry_le rest whole
          refine List.takeWhile_cons_of_neg ?_
          rw [fitsBuf, decide_eq_true_eq]
          rw [bufSize] at full ⊢
          omega
      have request : bufSize - carry.length - 1 = 0 := by omega
      simp [request, readPiece, nothing, report, join]
    by_cases finished : input = []
    · subst finished
      rw [List.append_nil] at whole
      have none : lines = [] := by
        cases lines with
        | nil => rfl
        | cons line lines =>
          rw [whole, join_cons] at rest
          exact absurd (List.mem_append_right _ List.mem_cons_self) rest
      subst none
      simp [readPiece, report, join]
    have positive : 0 < (readPiece (sizes 0) (bufSize - carry.length - 1) input).length :=
      readPiece_length_pos (by omega) finished
    have limit : (readPiece (sizes 0) (bufSize - carry.length - 1) input).length ≤ bufSize - carry.length - 1 := by
      rw [readPiece, List.length_take]
      omega
    have split := readPiece_split (sizes 0) (bufSize - carry.length - 1) input
    generalize readPiece (sizes 0) (bufSize - carry.length - 1) input = piece at *
    rw [← split, ← List.append_assoc] at whole
    have cleanText : 0 ∉ carry ++ piece := fun member => clean (whole ▸ List.mem_append_left _ member)
    have inside : (carry ++ piece).length < bufSize := by
      rw [List.length_append]
      omega
    obtain ⟨done, todo, left, buf', result, rfl, text, broken, stands⟩ :=
      grepLines_spec pattern output (stands_filled bytes) cleanText whole unbroken inside inside
    rw [Nat.zero_add] at result stands
    have length := congrArg List.length text
    rw [List.length_append] at inside
    rw [List.length_append, List.length_append] at length
    have fitting : ∀ line ∈ done, fitsBuf line = true := by
      intro line member
      have shorter := length_lt_join member
      rw [fitsBuf, decide_eq_true_eq]
      omega
    dsimp only
    rw [if_pos positive, result, if_pos (by omega)]
    have remaining : carry.length + piece.length - (join done).length = left.length := by omega
    dsimp only
    rw [remaining]
    rw [text, join_append, List.append_assoc] at whole
    rw [ih (fun index => sizes (index + 1)) (output ++ report pattern done) ?_ broken
      (List.append_cancel_left whole) ?_ ?_ ?_ ?_]
    · rw [List.takeWhile_append_of_pos fitting, report_append, List.append_assoc]
    · intro index below
      rw [moveDown, if_pos below, stands.bytes index below]
    · intro member
      refine clean ?_
      rw [join_append]
      exact List.mem_append_right _ member
    · exact fun line member => unbroken line (List.mem_append_right _ member)
    · omega
    · have more := List.length_pos_iff.mpr finished
      rw [List.length_drop]
      omega

end

/-- The lines before the first that does not fit the buffer are reported. -/
theorem grep_fitting (pattern : List UInt8) (sizes : Nat → Nat) {lines : List (List UInt8)}
    (buf : Nat → UInt8) (clean : ∀ line ∈ lines, 0 ∉ line ∧ newline ∉ line) :
    grep pattern sizes (join lines) buf = report pattern (lines.takeWhile fitsBuf) := by
  have nonzero : 0 ∉ join lines := by
    intro member
    obtain ⟨line, listed, inside⟩ := List.mem_flatMap.mp member
    rcases List.mem_append.mp inside with inLine | last
    · exact (clean line listed).1 inLine
    · cases List.mem_singleton.mp last
  exact @grepLoop_spec buf (join lines) lines pattern _ sizes [] [] nofun nofun rfl nonzero
    (fun line member => (clean line member).2) (by decide) (Nat.lt_succ_self _)

/-- For every pattern, all lines and every way to split the input: `grep` writes the lines that
match exactly if none matches from the first that does not fit the buffer on. -/
theorem grep_reports (pattern : List UInt8) (sizes : Nat → Nat) (lines : List (List UInt8))
    (buf : Nat → UInt8) (clean : ∀ line ∈ lines, 0 ∉ line ∧ newline ∉ line) :
    grep pattern sizes (join lines) buf = report pattern lines ↔
      ∀ line ∈ lines.dropWhile fitsBuf, ¬ matchText pattern line := by
  have split : report pattern lines =
      report pattern (lines.takeWhile fitsBuf) ++ report pattern (lines.dropWhile fitsBuf) := by
    rw [← report_append, List.takeWhile_append_dropWhile]
  rw [grep_fitting pattern sizes buf clean, split, List.self_eq_append_right, report_eq_nil]

/-- Of three lines, read byte by byte, the second does not match. -/
theorem grep_reports_three :
    grep [97] (fun _ => 1) (join [[97], [98], [99, 97]]) (fun _ => 0) = join [[97], [99, 97]] :=
  (grep_reports [97] (fun _ => 1) [[97], [98], [99, 97]] (fun _ => 0) (by decide)).mpr (by decide)

/-- A line of 1023 bytes matches and is not written. -/
theorem grep_misses_long_line : ∃ line, line.length = 1023 ∧ 0 ∉ line ∧ newline ∉ line ∧
    grep [97] (fun _ => bufSize) (join [line]) (fun _ => 0) = [] ∧
    report [97] [line] = line ++ [newline] := by
  have other : ∀ byte ∈ List.replicate 1023 (97 : UInt8), byte = 97 := fun _ => List.eq_of_mem_replicate
  have clean : ∀ line ∈ [List.replicate 1023 (97 : UInt8)], 0 ∉ line ∧ newline ∉ line := by
    intro line member
    obtain rfl := List.mem_singleton.mp member
    exact ⟨fun zero => absurd (other 0 zero) (by decide), fun broken => absurd (other _ broken) (by decide)⟩
  have long : ¬ fitsBuf (List.replicate 1023 97) = true := by
    rw [fitsBuf, List.length_replicate]
    decide
  have matched : matchText [97] (List.replicate 1023 97) = true := rfl
  obtain ⟨nonzero, unbroken⟩ := clean _ List.mem_cons_self
  refine ⟨_, List.length_replicate, nonzero, unbroken, ?_, ?_⟩
  · rw [grep_fitting _ _ _ clean, List.takeWhile_cons_of_neg long]
    rfl
  · rw [report, List.filter_cons_of_pos matched, List.filter_nil, join_cons]
    rfl

end Xv6.Grep
