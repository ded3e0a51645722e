import UnitPlane.Proofs.Formula.Offender
import UnitPlane.Proofs.Lines

/-!
# `UnitPlane.Proofs.Formula.Lines`: faults of formulas are on one line

White space separates the words of a formula, so no word has a line break in it. What a fault of a
formula takes over are words: the scanner is followed word by word, and for the readers it is enough
that they halt only where halting is justified.

* `inline_tokenize`: the words of a text, or the fault of its first bad word, are on one line.
* `inline_parse`: so is the fault of a formula that cannot be read.
-/

set_option autoImplicit false

namespace UnitPlane

open Text

/-! ### Words -/

/-- The text that a symbol takes over from the formula is on one line. -/
def Symbol.Inline : Symbol → Prop
  | name s => OneLine s
  | unsupported s => OneLine s
  | _ => True

/-- A symbol whose text is on one line is described on one line. -/
theorem Symbol.Inline.describe {s : Symbol} (h : s.Inline) : OneLine s.describe := by
  unfold Symbol.describe
  cases s <;> simp only [oneLine_append, toString, oneLine_text, Symbol.spelling] <;> and_intros <;>
    first
    | exact oneLine_literal rfl
    | exact h

/-- What a word found in the wrong place is reported as is on one line, whether it is unsupported or
merely unexpected. -/
theorem Token.inline_unexpected {t : Token} (h : t.symbol.Inline) (expected : Expectation) :
    (t.unexpected expected).Inline := by
  obtain ⟨symbol, start, stop⟩ := t
  have hdescribe := Symbol.Inline.describe h
  unfold Token.unexpected
  cases symbol <;> exact List.forall_mem_singleton.2 (by assumption)

/-! ### Numerals -/

namespace Numeral

/-- The digits of a numeral are characters of numerals. -/
theorem isNumeralChar_digits {cs : List Char} {c : Char} (h : c ∈ cs.takeWhile Char.isDigit) :
    isNumeralChar c = true :=
  isNumeralChar_of_isDigit (List.all_eq_true.1 List.all_takeWhile c h)

/-- So are its point and the digits after it. -/
theorem isNumeralChar_point {cs : List Char} {c : Char} (h : c ∈ (splitPoint cs).1) :
    isNumeralChar c = true := by
  unfold splitPoint at h
  split at h
  · rcases List.mem_cons.1 h with rfl | h
    · rfl
    · exact isNumeralChar_digits h
  · exact absurd h List.not_mem_nil

/-- So is the sign of its exponent. -/
theorem isNumeralChar_exponentSign {cs : List Char} {c : Char} (h : c ∈ (splitExponentSign cs).1) :
    isNumeralChar c = true := by
  unfold splitExponentSign at h
  split at h
  · rw [List.mem_singleton.1 h]
    rfl
  · rw [List.mem_singleton.1 h]
    rfl
  · exact absurd h List.not_mem_nil

/-- So are the letter of its exponent, the sign and the digits. -/
theorem isNumeralChar_exponent {cs : List Char} {c : Char} (h : c ∈ (splitExponent cs).1) :
    isNumeralChar c = true := by
  cases cs with
  | nil => exact absurd h List.not_mem_nil
  | cons d cs =>
    simp only [splitExponent] at h
    split at h
    next hmark =>
      rcases List.mem_cons.1 h with rfl | h
      · rcases hmark.1 with rfl | rfl <;> rfl
      rcases List.mem_append.1 h with h | h
      · exact isNumeralChar_exponentSign h
      · exact isNumeralChar_digits h
    · exact absurd h List.not_mem_nil

/-- A numeral has no line break in it, since no character of numerals is one. -/
theorem newline_notMem_split (cs : List Char) : '\n' ∉ (split cs).1 := by
  refine newline_notMem (p := isNumeralChar) rfl fun c hc => ?_
  simp only [split, List.mem_append] at hc
  rcases hc with (hc | hc) | hc
  · exact isNumeralChar_digits hc
  · exact isNumeralChar_point hc
  · exact isNumeralChar_exponent hc

end Numeral

/-! ### Names -/

/-- A line break starts no name. -/
theorem startsName_newline : startsName '\n' = false := startsName_of_ascii (by decide)

/-- A line break goes on with no name. -/
theorem continuesName_newline : continuesName '\n' = false := continuesName_of_ascii (by decide)

/-- A line break is white space, which stands between words. -/
theorem isBlank_newline : isBlank '\n' = true := by decide

/-- A name has no line break in it, neither at its start nor further on. -/
theorem newline_notMem_name {c : Char} (hc : startsName c = true) (cs : List Char) :
    '\n' ∉ c :: cs.takeWhile continuesName := by
  intro h
  rcases List.mem_cons.1 h with rfl | h
  · rw [startsName_newline] at hc
    exact nomatch hc
  · exact newline_notMem continuesName_newline (List.all_eq_true.1 List.all_takeWhile) h

/-- What is not white space is no line break. -/
theorem ne_newline_of_isBlank {c : Char} (h : isBlank c = false) : c ≠ '\n' := by
  rintro rfl
  rw [isBlank_newline] at h
  exact nomatch h

/-! ### Texts -/

/-- The texts that a syntax error takes over are on one line. -/
def SyntaxCause.Inline (cause : SyntaxCause) : Prop := ∀ s ∈ cause.echoes, OneLine s

/-- A numeral is read as a number, or refused with its own text, which is on one line. -/
theorem inline_numberSymbol {numeral : List Char} (h : '\n' ∉ numeral) :
    Except.Outcome Symbol.Inline SyntaxCause.Inline (numberSymbol numeral) := by
  have hnumeral := oneLine_ofList.2 h
  unfold numberSymbol
  split
  · exact List.forall_mem_singleton.2 hnumeral
  split
  · trivial
  · exact List.forall_mem_singleton.2 hnumeral

/-- The word that starts with a digit or a point is on one line, or its fault is. -/
theorem inline_numberLexeme (c : Char) (cs : List Char) :
    Except.Outcome (fun l : Lexeme (c :: cs) => l.symbol.Inline) SyntaxCause.Inline
      (numberLexeme c cs) := by
  have hsplit := Numeral.newline_notMem_split (c :: cs)
  unfold numberLexeme
  split
  · exact List.forall_mem_singleton.2 (oneLine_literal rfl)
  next d numeral rest heq =>
    rw [heq] at hsplit
    exact (inline_numberSymbol hsplit).bind fun symbol hsymbol => hsymbol

/-- An operator takes over nothing, or one character of an operator that is not supported. -/
theorem inline_operatorSymbol? {c : Char} {following : Option Char} {r : Symbol × Bool}
    (h : operatorSymbol? c following = some r) : r.1.Inline := by
  unfold operatorSymbol? at h
  -- Only operators that are not supported are repeated in messages, and none of them is a line
  -- break.
  split at h
  · cases h
    trivial
  · cases h
    trivial
  · cases h
    split <;> trivial
  · cases h
    split
    · exact oneLine_literal rfl
    · trivial
  · cases h
    trivial
  · cases h
    trivial
  · split at h
    next hforeign =>
      cases h
      refine oneLine_singleton ?_
      rintro rfl
      revert hforeign
      decide
    · exact nomatch h

/-- The word that a text starts with is on one line, or its fault is. -/
theorem inline_lexeme {c : Char} (hc : isBlank c = false) (cs : List Char) :
    Except.Outcome (fun l : Lexeme (c :: cs) => l.symbol.Inline) SyntaxCause.Inline
      (lexeme c cs) := by
  unfold lexeme
  -- The three kinds of words in the order in which they are looked for; anything else is an
  -- unexpected character.
  split
  · exact inline_numberLexeme c cs
  split
  next hstarts => exact oneLine_ofList.2 (newline_notMem_name hstarts cs)
  split
  next l hl =>
    unfold operatorLexeme? at hl
    obtain ⟨r, hr, rfl⟩ := Option.map_eq_some_iff.1 hl
    exact inline_operatorSymbol? hr
  · exact List.forall_mem_singleton.2 (oneLine_singleton (ne_newline_of_isBlank hc))

/-- The words of a text are on one line, or the fault of its first bad word is. White space between
words is passed over. -/
theorem inline_scan (position : Nat) (cs : List Char) :
    Except.Outcome (fun ws : List Token => ∀ w ∈ ws, w.symbol.Inline) Fault.Inline
      (scan position cs) := by
  fun_induction scan position cs with
  | case1 => exact fun w hw => absurd hw List.not_mem_nil
  | case2 position c cs hblank ih => exact ih
  | case3 position c cs hblank cause hlexeme =>
    have hcause : cause.Inline := (inline_lexeme (by simpa using hblank) cs).of_eq_error hlexeme
    exact hcause
  | case4 position c cs hblank l hlexeme stop ih =>
    have hl := (inline_lexeme (by simpa using hblank) cs).of_eq_ok hlexeme
    exact ih.bind fun tokens htokens => List.forall_mem_cons.2 ⟨hl, htokens⟩

/-- The words of a text are on one line, or its fault is. -/
theorem inline_tokenize (source : String) :
    Except.Outcome (fun ts : Tokens => ∀ w ∈ ts.words, w.symbol.Inline) Fault.Inline
      (tokenize source) :=
  (inline_scan 0 source.toList).bind fun _ h => h

/-! ### Formulas -/

/-- What stands at the end of a text, or at a halt, is a word of the text or the end itself, which
takes over nothing. -/
theorem Tokens.inline_wordAt {ts : Tokens} (h : ∀ w ∈ ts.words, w.symbol.Inline) (k : Halt) :
    (ts.wordAt k).symbol.Inline := by
  unfold wordAt
  cases hdrop : ts.words.drop (ts.words.length - k.left) with
  | nil => trivial
  | cons w rest => exact h w (List.mem_of_mem_drop (hdrop ▸ List.mem_cons_self))

/-- A name that is one of the symbols of the words is on one line if the words are. -/
theorem Tokens.oneLine_of_mem {ts : Tokens} (h : ∀ w ∈ ts.words, w.symbol.Inline) {name : String}
    (hname : .name name ∈ ts.words.map Token.symbol) : OneLine name := by
  obtain ⟨w, hw, hsymbol⟩ := List.mem_map.1 hname
  have hinline := h w hw
  rwa [hsymbol] at hinline

/-- The fault of halting where it is justified takes over names and words of the text only, and
these are on one line. -/
theorem Justified.inline_faultAt {ts : Tokens} (h : ∀ w ∈ ts.words, w.symbol.Inline) {d : Due}
    {k : Halt} (hk : Justified d (ts.words.map Token.symbol) k) : (ts.faultAt k).Inline := by
  cases hk with
  | limit => exact nofun
  | call hname => exact List.forall_mem_singleton.2 (ts.oneLine_of_mem h hname)
  | unknownName hruns =>
    obtain ⟨us, hus, -⟩ := hruns
    have hname := hus ▸ List.mem_append_right us List.mem_cons_self
    exact List.forall_mem_singleton.2 (ts.oneLine_of_mem h hname)
  | unexpected => exact Token.inline_unexpected (ts.inline_wordAt h _) _

/-- The words of a formula give a tree, or a fault that is on one line: without a word there is
nothing to take over, and otherwise reading halts where halting is justified. -/
theorem Tokens.inline_parse {limits : Limits} {source : String} {ts : Tokens}
    (hts : tokenize source = .ok ts) (hwords : ∀ w ∈ ts.words, w.symbol.Inline) :
    Except.Outcome (fun _ => True) Fault.Inline (ts.parse limits) := by
  cases hparse : ts.parse limits with
  | ok t => trivial
  | error e =>
    by_cases hne : ts.words = []
    · rw [Tokens.parse_eq, if_pos (List.isEmpty_iff.2 hne)] at hparse
      obtain rfl := Except.error.inj hparse
      exact nofun
    · obtain ⟨k, hk, rfl⟩ := Tokens.exists_justified_of_parse hts hne hparse
      exact hk.inline_faultAt hwords

/-- The fault of a formula that cannot be read is on one line. It is that of a bad word, that of a
limit, or that of the place where reading its words halts. -/
theorem inline_parse (limits : Limits) (source : String) :
    Except.Outcome (fun _ => True) Fault.Inline (Formula.parse limits source) := by
  unfold Formula.parse
  split
  · exact nofun
  · refine (inline_tokenize source).bind_of_eq_ok fun ts hts hwords => ?_
    exact (Tokens.inline_parse hts hwords).bind fun _ _ => trivial

end UnitPlane
