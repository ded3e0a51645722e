import UnitPlane.Proofs.Formula.Letters
import UnitPlane.Proofs.Formula.Words

/-!
# `UnitPlane.Proofs.Formula.Scanning`: how far a word depends on the text after it

The lexer takes the longest word, so it looks at characters behind the word. What it sees there can
be cut off anywhere, by the end of the text, white space or a closing bracket, without a change to
the word. `Interrupted cs ds` says that `ds` is such a text: it goes on like `cs` until it is cut
off. So the words of a text are found one after another, and what is left of it may be replaced.

* `lexeme_interrupted`: a word stays the same word when the text after it is interrupted.
* `Scans`: the words of the first part of a text, and the part that is left.
* `Scans.interrupt`: they stay the words of the first part when the part that is left is
  interrupted.
* `lexes_append_of_tokenize`: a text keeps its words when it is put in brackets.
-/

set_option autoImplicit false

namespace UnitPlane

open Text

/-! ### Interrupted texts -/

/-- Characters that end the word in front of them, whatever it is. A sign or a star would not do,
since it may go on with an exponent or be half of an operator. -/
def EndsWord (c : Char) : Prop := isBlank c = true ∨ c = ')'

/-- The second text goes on like the first one until it ends or is cut off. What stands after the
cut does not matter. -/
inductive Interrupted : List Char → List Char → Prop where
  | stop (cs : List Char) : Interrupted cs []
  | cut {c : Char} (hc : EndsWord c) (cs ds : List Char) : Interrupted cs (c :: ds)
  | cons (c : Char) {cs ds : List Char} (h : Interrupted cs ds) : Interrupted (c :: cs) (c :: ds)

section Interrupted

variable {c d : Char} {p : Char → Bool} {cs ds : List Char}

/-- It is no digit, so it does not go on with a row of digits. -/
theorem EndsWord.isDigit (h : EndsWord c) : c.isDigit = false := by
  rcases h with h | rfl
  · exact isDigit_of_isBlank c h
  · rfl

/-- It is none of the characters of a name. -/
theorem EndsWord.continuesName (h : EndsWord c) : continuesName c = false := by
  rcases h with h | rfl
  · exact continuesName_of_isBlank c h
  · exact continuesName_of_ascii (by decide)

/-- It differs from every character that is neither a blank nor the closing bracket. This is how it
is told from the characters that words look for. -/
theorem EndsWord.ne (h : EndsWord c) (hblank : isBlank d = false) (hclose : d ≠ ')') : c ≠ d := by
  rintro rfl
  rcases h with h | h
  · rw [hblank] at h
    cases h
  · exact hclose h

/-- It does not go on with a numeral, being no digit, no point and no letter of an exponent. -/
theorem EndsWord.goesOn (h : EndsWord c) : Decimal.Numeral.goesOn c = false := by
  have hpoint := h.ne (d := '.') (by decide) (by decide)
  have he := h.ne (d := 'e') (by decide) (by decide)
  have hE := h.ne (d := 'E') (by decide) (by decide)
  simp [Decimal.Numeral.goesOn, h.isDigit, hpoint, he, hE]

/-- The same as `EndsWord.ne`, as the lexer asks for it. -/
theorem EndsWord.beq_eq_false (h : EndsWord c) (hblank : isBlank d = false) (hclose : d ≠ ')') :
    (c == d) = false :=
  beq_eq_false_iff_ne.2 (h.ne hblank hclose)

namespace Interrupted

/-- A text goes on like itself. -/
theorem refl (cs : List Char) : Interrupted cs cs := by
  induction cs with
  | nil => exact .stop []
  | cons c cs ih => exact .cons c ih

/-- Characters in front of both texts change nothing, for the second one still goes on like the
first. -/
theorem append_left (us : List Char) (h : Interrupted cs ds) :
    Interrupted (us ++ cs) (us ++ ds) := by
  induction us with
  | nil => exact h
  | cons u us ih => exact .cons u ih

/-- It does not start in a class either, if nothing in the class ends words. So a row that had ended
before the text is not taken further. -/
theorem stops (hp : ∀ c, EndsWord c → p c = false) (h : Interrupted cs ds) (hcs : Stops p cs) :
    Stops p ds := by
  cases h with
  | stop => exact stops_nil p
  | cut hc => exact stops_cons.2 (hp _ hc)
  | cons c h => exact stops_cons.2 (stops_cons.1 hcs)

end Interrupted

/-- A text from which nothing is taken does not start in the class. -/
theorem stops_of_takeWhile (h : cs.takeWhile p = []) : Stops p cs := by
  cases cs with
  | nil => exact stops_nil p
  | cons c cs =>
    refine stops_cons.2 (Bool.eq_false_iff.2 fun hc => ?_)
    rw [List.takeWhile_cons_of_pos hc] at h
    cases h

/-- What is left after a row does not start in the class of the row. -/
theorem stops_dropWhile (p : Char → Bool) (cs : List Char) : Stops p (cs.dropWhile p) := by
  have hhead := List.head?_dropWhile_not p cs
  intro c hc
  rw [hc] at hhead
  exact hhead

end Interrupted

/-! ### Numerals -/

namespace Numeral

variable {cs ds : List Char}

/-- Where no point stands, there is no fraction. -/
theorem splitPoint_of_stops (h : Stops (· == '.') cs) : splitPoint cs = ([], cs) := by
  cases cs with
  | nil => rfl
  | cons c cs =>
    have hpoint : c ≠ '.' := by simpa using h
    simp [splitPoint, hpoint]

/-- A text that starts with no other character than a point, and is not empty, has a point in
front. -/
theorem exists_cons_point (h : ¬ Stops (· == '.') cs) : ∃ row, cs = '.' :: row := by
  cases cs with
  | nil => exact absurd (stops_nil _) h
  | cons c cs =>
    rw [stops_cons, Bool.not_eq_false, beq_iff_eq] at h
    exact ⟨cs, h ▸ rfl⟩

/-- A fraction stays the same when the text after it is interrupted, because the row of its digits
has ended there. Where there is none, none comes into view. -/
theorem splitPoint_interrupted (h : Interrupted (splitPoint cs).2 ds) :
    splitPoint ((splitPoint cs).1 ++ ds) = ((splitPoint cs).1, ds) := by
  -- The part starts with a point or is empty.
  by_cases hstops : Stops (· == '.') cs
  · rw [splitPoint_of_stops hstops] at h ⊢
    exact splitPoint_of_stops (h.stops (fun _ hc => hc.beq_eq_false (by decide) (by decide)) hstops)
  · obtain ⟨cs, rfl⟩ := exists_cons_point hstops
    have hrest : Stops Char.isDigit ds := h.stops (fun _ hc => hc.isDigit) (stops_dropWhile _ cs)
    have hrow : ∀ c ∈ cs.takeWhile Char.isDigit, c.isDigit := List.all_eq_true.1 List.all_takeWhile
    show ('.' :: (cs.takeWhile Char.isDigit ++ ds).takeWhile Char.isDigit,
      (cs.takeWhile Char.isDigit ++ ds).dropWhile Char.isDigit) = _
    rw [takeWhile_append_of_stops hrow hrest, dropWhile_append_of_stops hrow hrest]
    rfl

/-- No digits come into view behind the sign of an exponent. A cut either comes before the sign or
right behind it, and it is no digit. -/
theorem stops_splitExponentSign (h : Interrupted cs ds)
    (hcs : Stops Char.isDigit (splitExponentSign cs).2) :
    Stops Char.isDigit (splitExponentSign ds).2 := by
  -- The second text has ended, is cut off here, or goes on with the character of the first.
  cases h with
  | stop => exact stops_nil _
  | cut hc =>
    have hplus := hc.ne (d := '+') (by decide) (by decide)
    have hminus := hc.ne (d := '-') (by decide) (by decide)
    simpa [splitExponentSign, hplus, hminus] using hc.isDigit
  | cons c h =>
    by_cases hplus : c = '+'
    · subst hplus
      exact h.stops (fun _ hc => hc.isDigit) hcs
    by_cases hminus : c = '-'
    · subst hminus
      exact h.stops (fun _ hc => hc.isDigit) hcs
    simpa [splitExponentSign, hplus, hminus] using hcs

/-- A digit is no sign, so the digits of an exponent without a sign stay together. -/
theorem splitExponentSign_of_isDigit {c : Char} (h : c.isDigit) (cs : List Char) :
    splitExponentSign (c :: cs) = ([], c :: cs) := by
  have hplus : c ≠ '+' := by
    rintro rfl
    cases h
  have hminus : c ≠ '-' := by
    rintro rfl
    cases h
  simp [splitExponentSign, hplus, hminus]

/-- The sign of an exponent is followed by its digits, whatever follows these. It is the sign that
was there before or none. -/
theorem splitExponentSign_digits {digits : List Char} (hdigits : ∀ c ∈ digits, c.isDigit)
    (hne : digits ≠ [])
    {rest : List Char} (hcs : (splitExponentSign cs).2 = digits ++ rest) (ds : List Char) :
    splitExponentSign ((splitExponentSign cs).1 ++ (digits ++ ds)) =
      ((splitExponentSign cs).1, digits ++ ds) := by
  obtain ⟨d, digits, rfl⟩ := List.exists_cons_of_ne_nil hne
  have hd : d.isDigit := hdigits d (List.mem_cons_self)
  -- The first character is a plus, a minus, or one of the digits.
  cases cs with
  | nil => cases hcs
  | cons c cs =>
    by_cases hplus : c = '+'
    · subst hplus
      rfl
    by_cases hminus : c = '-'
    · subst hminus
      rfl
    have hsign : splitExponentSign (c :: cs) = ([], c :: cs) := by
      simp [splitExponentSign, hplus, hminus]
    rw [hsign]
    exact splitExponentSign_of_isDigit hd _

/-- A letter with digits behind it, and perhaps a sign between them, is an exponent. -/
theorem splitExponent_of_digits {c : Char} (hc : c = 'e' ∨ c = 'E')
    (hdigits : (splitExponentSign cs).2.takeWhile Char.isDigit ≠ []) :
    splitExponent (c :: cs) =
      (c :: ((splitExponentSign cs).1 ++ (splitExponentSign cs).2.takeWhile Char.isDigit),
        (splitExponentSign cs).2.dropWhile Char.isDigit) := by
  unfold splitExponent
  exact if_pos ⟨hc, hdigits⟩

/-- A letter without digits behind it is not part of the numeral. -/
theorem splitExponent_of_not {c : Char}
    (h : ¬ ((c = 'e' ∨ c = 'E') ∧ (splitExponentSign cs).2.takeWhile Char.isDigit ≠ [])) :
    splitExponent (c :: cs) = ([], c :: cs) := by
  unfold splitExponent
  exact if_neg h

/-- An exponent stays the same when the text after it is interrupted. It has digits, which no
interruption takes away. -/
theorem splitExponent_interrupted (h : Interrupted (splitExponent cs).2 ds) :
    splitExponent ((splitExponent cs).1 ++ ds) = ((splitExponent cs).1, ds) := by
  cases cs with
  | nil => exact Decimal.Numeral.splitExponent_of_stops (h.stops (fun _ hc => hc.goesOn)
      (stops_nil _))
  | cons c cs =>
    by_cases hexponent : (c = 'e' ∨ c = 'E') ∧ (splitExponentSign cs).2.takeWhile Char.isDigit ≠ []
    · obtain ⟨hc, hne⟩ := hexponent
      rw [splitExponent_of_digits hc hne] at h ⊢
      have hrow : ∀ c ∈ (splitExponentSign cs).2.takeWhile Char.isDigit, c.isDigit :=
        List.all_eq_true.1 List.all_takeWhile
      have hrest : Stops Char.isDigit ds := h.stops (fun _ hc => hc.isDigit) (stops_dropWhile _ _)
      have hsign := splitExponentSign_digits hrow hne List.takeWhile_append_dropWhile.symm ds
      generalize (splitExponentSign cs).2.takeWhile Char.isDigit = digits at hrow hsign hne ⊢
      have htake := takeWhile_append_of_stops hrow hrest
      have hdrop := dropWhile_append_of_stops hrow hrest
      rw [List.cons_append, List.append_assoc, splitExponent_of_digits hc, hsign]
      · rw [htake, hdrop]
      · rw [hsign, htake]
        exact hne
    · -- Digits that were not in view behind the letter are not in view now.
      rw [splitExponent_of_not hexponent] at h ⊢
      cases h with
      | stop => rfl
      | cut hc => exact Decimal.Numeral.splitExponent_of_stops (stops_cons.2 hc.goesOn)
      | cons c h =>
        refine splitExponent_of_not fun hds => hexponent ⟨hds.1, fun hdigits => hds.2 ?_⟩
        exact takeWhile_of_stops (stops_splitExponentSign h (stops_of_takeWhile hdigits))

/-- A numeral stays the same when the text after it is interrupted. It consists of a row of digits,
a fraction and an exponent, and the same holds for each of the three. -/
theorem split_interrupted (h : Interrupted (split cs).2 ds) :
    split ((split cs).1 ++ ds) = ((split cs).1, ds) := by
  obtain ⟨u, hu⟩ : ∃ u, cs.dropWhile Char.isDigit = u := ⟨_, rfl⟩
  obtain ⟨v, hv⟩ : ∃ v, (splitPoint u).2 = v := ⟨_, rfl⟩
  have hsplit : split cs =
      (cs.takeWhile Char.isDigit ++ (splitPoint u).1 ++ (splitExponent v).1,
        (splitExponent v).2) := by
    rw [← hv, ← hu]
    rfl
  rw [hsplit] at h ⊢
  -- From the last part to the first: each is followed by an interruption of what followed it.
  have hexponent := splitExponent_interrupted h
  have hafter := h.append_left (splitExponent v).1
  rw [splitExponent_append, ← hv] at hafter
  have hpoint := splitPoint_interrupted hafter
  have hafter' := hafter.append_left (splitPoint u).1
  rw [splitPoint_append, hv] at hafter'
  have hrow : ∀ c ∈ cs.takeWhile Char.isDigit, c.isDigit := List.all_eq_true.1 List.all_takeWhile
  have hstops := hafter'.stops (fun _ hc => hc.isDigit) (hu ▸ stops_dropWhile _ cs)
  unfold split
  rw [List.append_assoc, List.append_assoc, takeWhile_append_of_stops hrow hstops,
    dropWhile_append_of_stops hrow hstops, ← hv, hpoint, hv]
  dsimp only
  rw [hexponent]

end Numeral

/-! ### Words -/

section Words

variable {c : Char} {cs ds : List Char}

/-- A word starts with the first character of its text, so the rest of the word can be written in
front of another text. -/
theorem Lexeme.text_eq_cons (l : Lexeme (c :: cs)) : l.text = c :: l.text.tail := by
  have happend := l.text_append_rest
  cases htext : l.text with
  | nil => exact absurd htext l.text_ne_nil
  | cons d text =>
    rw [htext, List.cons_append] at happend
    rw [List.head_eq_of_cons_eq happend, List.tail_cons]

/-- A number stays the same word. A numeral that was accepted is accepted again, because its
characters alone decide about that. -/
theorem parts_numberLexeme_interrupted {l : Lexeme (c :: cs)} (hl : numberLexeme c cs = .ok l)
    (h : Interrupted l.rest ds) :
    (numberLexeme c (l.text.tail ++ ds)).map Lexeme.parts = .ok (l.symbol, l.text, ds) := by
  have hparts := parts_numberLexeme c cs
  rw [hl] at hparts
  have hsplit := @Numeral.split_interrupted (c :: cs) ds
  rw [parts_numberLexeme, ← List.cons_append, ← l.text_eq_cons]
  generalize Numeral.split (c :: cs) = split at hparts hsplit
  obtain ⟨numeral, rest⟩ := split
  -- The numeral was accepted, so it is not empty and stands for a number.
  cases numeral with
  | nil => cases hparts
  | cons d numeral =>
    dsimp only at hparts hsplit
    cases hsymbol : numberSymbol (d :: numeral) with
    | error e =>
      rw [hsymbol] at hparts
      cases hparts
    | ok symbol =>
      rw [hsymbol] at hparts
      have hparts : l.parts = (symbol, d :: numeral, rest) := Except.ok.inj hparts
      have hsame : l.symbol = symbol := congrArg Prod.fst hparts
      have htext : l.text = d :: numeral := congrArg (fun p => p.2.1) hparts
      have hrest : l.rest = rest := congrArg (fun p => p.2.2) hparts
      rw [hrest] at h
      rw [htext, hsplit h]
      dsimp only
      rw [hsymbol, hsame]
      rfl

/-- A name stays the same word, since what ends words is not part of a name. -/
theorem parts_nameLexeme_interrupted (h : Interrupted (nameLexeme c cs).rest ds) :
    (nameLexeme c ((nameLexeme c cs).text.tail ++ ds)).parts =
      ((nameLexeme c cs).symbol, (nameLexeme c cs).text, ds) := by
  have hrow : ∀ d ∈ cs.takeWhile continuesName, continuesName d :=
    List.all_eq_true.1 List.all_takeWhile
  have hstops : Stops continuesName ds := h.stops (fun _ hd => hd.continuesName)
    (stops_dropWhile _ cs)
  have htake := takeWhile_append_of_stops hrow hstops
  have hdrop := dropWhile_append_of_stops hrow hstops
  show (Symbol.name
    (String.ofList (c :: (cs.takeWhile continuesName ++ ds).takeWhile continuesName)),
      c :: (cs.takeWhile continuesName ++ ds).takeWhile continuesName,
    (cs.takeWhile continuesName ++ ds).dropWhile continuesName) = _
  rw [htake, hdrop]
  rfl

/-- An operator of one character stays one when the text after it is interrupted. The next character
is the same, or it is neither a star nor a slash. -/
theorem operatorSymbol?_interrupted {symbol : Symbol} (h : Interrupted cs ds)
    (hsymbol : operatorSymbol? c cs.head? = some (symbol, false)) :
    operatorSymbol? c ds.head? = some (symbol, false) := by
  -- What ends words is neither a star nor a slash.
  have hsame : ds.head? = cs.head? ∨ ds.head? ≠ some '*' ∧ ds.head? ≠ some '/' := by
    cases h with
    | stop => exact .inr ⟨nofun, nofun⟩
    | cut hc =>
      exact .inr ⟨fun hstar => hc.ne (by decide) (by decide) (Option.some.inj hstar),
        fun hslash => hc.ne (by decide) (by decide) (Option.some.inj hslash)⟩
    | cons c h => exact .inl rfl
  rcases hsame with hsame | ⟨hstar, hslash⟩
  · rwa [hsame]
  · unfold operatorSymbol? at hsymbol ⊢
    split at hsymbol
    · exact hsymbol
    · exact hsymbol
    · split at hsymbol
      · cases hsymbol
      · rw [if_neg hstar]
        exact hsymbol
    · split at hsymbol
      · cases hsymbol
      · rw [if_neg hslash]
        exact hsymbol
    · exact hsymbol
    · exact hsymbol
    · exact hsymbol

/-- At the end of a text an operator takes one character, as there is no second one. -/
theorem operatorSymbol?_none {symbol : Symbol} {two : Bool}
    (h : operatorSymbol? c none = some (symbol, two)) :
    two = false := by
  unfold operatorSymbol? at h
  -- Only the double star and the double slash take two, and both ask for the next character.
  split at h
  · cases h
    rfl
  · cases h
    rfl
  · cases h
    rfl
  · cases h
    rfl
  · cases h
    rfl
  · cases h
    rfl
  · split at h
    · cases h
      rfl
    · cases h

/-- An operator stays the same word. If it has two characters, then both are in front of the
interruption. -/
theorem operatorLexeme?_interrupted {l : Lexeme (c :: cs)} (hl : operatorLexeme? c cs = some l)
    (h : Interrupted l.rest ds) :
    (operatorLexeme? c (l.text.tail ++ ds)).map Lexeme.parts = some (l.symbol, l.text, ds) := by
  obtain ⟨⟨symbol, two⟩, hsymbol, rfl⟩ := Option.map_eq_some_iff.1 hl
  unfold operatorLexeme?
  -- A second character is part of the word, so the interruption comes after it.
  cases two with
  | false =>
    have hsymbol' := operatorSymbol?_interrupted h hsymbol
    show ((operatorSymbol? c ds.head?).map _).map _ = _
    rw [hsymbol']
    rfl
  | true =>
    cases cs with
    | nil => cases operatorSymbol?_none hsymbol
    | cons d cs =>
      show ((operatorSymbol? c (some d)).map _).map _ = _
      rw [show operatorSymbol? c (some d) = _ from hsymbol]
      rfl

/-- A word stays the same, whichever kind it is of. Only its parts are compared, since a lexeme
carries proofs about its own text. -/
theorem parts_lexeme_interrupted {l : Lexeme (c :: cs)} (hl : lexeme c cs = .ok l)
    (h : Interrupted l.rest ds) :
    (lexeme c (l.text.tail ++ ds)).map Lexeme.parts = .ok (l.symbol, l.text, ds) := by
  unfold lexeme at hl ⊢
  -- The first character decides of which kind the word is, and it is the same in both texts.
  split at hl
  next hnumber =>
    rw [if_pos hnumber]
    exact parts_numberLexeme_interrupted hl h
  next hnumber =>
    rw [if_neg hnumber]
    split at hl
    next hname =>
      obtain rfl := Except.ok.inj hl
      rw [if_pos hname]
      exact congrArg Except.ok (parts_nameLexeme_interrupted h)
    next hname =>
      rw [if_neg hname]
      split at hl
      next l' hoperator =>
        obtain rfl := Except.ok.inj hl
        have hparts := operatorLexeme?_interrupted hoperator h
        obtain ⟨l'', hl'', hparts⟩ := Option.map_eq_some_iff.1 hparts
        rw [hl'']
        exact congrArg Except.ok hparts
      next => cases hl

/-- A word stays the same when the text after it is interrupted, and what is left is that other
text. -/
theorem lexeme_interrupted {l : Lexeme (c :: cs)} (hl : lexeme c cs = .ok l)
    (h : Interrupted l.rest ds) :
    ∃ l' : Lexeme (c :: (l.text.tail ++ ds)), lexeme c (l.text.tail ++ ds) = .ok l' ∧
      l'.symbol = l.symbol ∧ l'.text = l.text ∧ l'.rest = ds := by
  have hparts := parts_lexeme_interrupted hl h
  cases hl' : lexeme c (l.text.tail ++ ds) with
  | error cause =>
    rw [hl'] at hparts
    cases hparts
  | ok l' =>
    rw [hl'] at hparts
    have hparts : l'.parts = (l.symbol, l.text, ds) := Except.ok.inj hparts
    exact ⟨l', rfl, congrArg Prod.fst hparts, congrArg (fun p => p.2.1) hparts,
      congrArg (fun p => p.2.2) hparts⟩

end Words

/-! ### Texts -/

/-- The text `cs`, whose first byte has the position `p`, starts with the words `ts`, and what is
left after them is `rest`, from the position `q` on. This follows the lexer, but may stop after any
word. -/
inductive Scans : ℕ → List Char → List Token → ℕ → List Char → Prop where
  | done (p : ℕ) (cs : List Char) : Scans p cs [] p cs
  | blank {p q : ℕ} {c : Char} {cs rest : List Char} {ts : List Token} (hc : isBlank c = true)
      (h : Scans (p + c.utf8Size) cs ts q rest) : Scans p (c :: cs) ts q rest
  | word {p q : ℕ} {c : Char} {cs rest : List Char} {ts : List Token} {l : Lexeme (c :: cs)}
      (hc : isBlank c = false) (hl : lexeme c cs = .ok l)
        (h : Scans (p + byteLength l.text) l.rest ts q rest) :
      Scans p (c :: cs) (⟨l.symbol, p, p + byteLength l.text⟩ :: ts) q rest

/-- All words of a text are found one after another. The induction is on the recursion of the
lexer. -/
theorem scans_of_scan_eq_ok {p : ℕ} {cs : List Char} {ts : List Token} (h : scan p cs = .ok ts) :
    ∃ q, Scans p cs ts q [] := by
  -- The cases are the end of the text, white space, no word, and a word.
  fun_induction scan p cs generalizing ts with
  | case1 p =>
    cases h
    exact ⟨p, .done p []⟩
  | case2 p c cs hc ih =>
    obtain ⟨q, hscans⟩ := ih h
    exact ⟨q, .blank hc hscans⟩
  | case3 p c cs hc cause hl => cases h
  | case4 p c cs hc l hl stop =>
    rename_i ih
    obtain ⟨ts', hts', h⟩ := Except.bind_eq_ok.1 h
    cases h
    obtain ⟨q, hscans⟩ := ih hts'
    exact ⟨q, .word (by simpa using hc) hl hscans⟩

/-- The words of a text as a whole, which starts at the position zero. -/
theorem scans_of_tokenize {source : String} {ts : Tokens} (h : tokenize source = .ok ts) :
    ∃ q, Scans 0 source.toList ts.words q [] := by
  obtain ⟨words, hscan, h⟩ := Except.bind_eq_ok.1 h
  cases h
  exact scans_of_scan_eq_ok hscan

/-- A text that is refused has words up to where it is refused, and no word there. The fault has the
position of the character that starts no word. -/
theorem scans_of_scan_eq_error {p : ℕ} {cs : List Char} {e : Fault} (h : scan p cs = .error e) :
    ∃ ts q c rest cause, Scans p cs ts q (c :: rest) ∧ isBlank c = false ∧
      lexeme c rest = .error cause ∧
      e = .badSyntax q cause := by
  -- The fault is found at once, or in what is left after white space or a word.
  fun_induction scan p cs with
  | case1 p => cases h
  | case2 p c cs hc ih =>
    obtain ⟨ts, q, d, rest, cause, hscans, hword⟩ := ih h
    exact ⟨ts, q, d, rest, cause, .blank hc hscans, hword⟩
  | case3 p c cs hc cause hl =>
    cases h
    exact ⟨[], p, c, cs, cause, .done p _, by simpa using hc, hl, rfl⟩
  | case4 p c cs hc l hl stop ih =>
    rcases Except.bind_eq_error.1 h with h | ⟨ts', hts', h⟩
    · obtain ⟨ts, q, d, rest, cause, hscans, hword⟩ := ih h
      exact ⟨_, q, d, rest, cause, .word (by simpa using hc) hl hscans, hword⟩
    · cases h

namespace Scans

variable {p q r : ℕ} {cs ds rest rest' : List Char} {ts us : List Token}

/-- The first words and the others: the scan of a text can be stopped after any of its words. -/
theorem split (h : Scans p cs (ts ++ us) r rest') :
    ∃ q rest, Scans p cs ts q rest ∧ Scans q rest us r rest' := by
  obtain ⟨vs, hvs⟩ : ∃ vs, ts ++ us = vs := ⟨_, rfl⟩
  rw [hvs] at h
  -- The induction is on the scan of all words. It stops where the first ones are used up.
  induction h generalizing ts with
  | done p cs =>
    obtain ⟨rfl, rfl⟩ := List.append_eq_nil_iff.1 hvs
    exact ⟨p, cs, .done p cs, .done p cs⟩
  | blank hc h ih =>
    obtain ⟨q, rest, hfirst, hlast⟩ := ih hvs
    exact ⟨q, rest, .blank hc hfirst, hlast⟩
  | @word p r c cs rest' vs l hc hl h ih =>
    cases ts with
    | nil =>
      obtain rfl : us = _ := hvs
      exact ⟨p, c :: cs, .done p _, .word hc hl h⟩
    | cons t ts =>
      obtain ⟨rfl, htail⟩ := List.cons_eq_cons.1 hvs
      obtain ⟨q, rest, hfirst, hlast⟩ := ih htail
      exact ⟨q, rest, .word hc hl hfirst, hlast⟩

/-- What is left is scanned next, so the words of the whole text are the first ones and those of the
rest. -/
theorem scan_eq (h : Scans p cs ts q rest) : scan p cs = (scan q rest).map (ts ++ ·) := by
  induction h with
  | done p cs => cases scan p cs <;> rfl
  | blank hc _ ih => rw [scan, if_pos hc, ih]
  | @word p q c cs rest ts l hc hl _ ih =>
    rw [scan, if_neg (by simp [hc]), hl]
    dsimp only
    rw [ih]
    cases scan q rest <;> rfl

/-- The words stay where they are when what is left is interrupted. The text in front of it,
`first`, is the same for every interruption. -/
theorem interrupt (h : Scans p cs ts q rest) :
    ∃ first, cs = first ++ rest ∧ q = p + byteLength first ∧
      ∀ ds, Interrupted rest ds → Scans p (first ++ ds) ts q ds := by
  -- The induction is on the scan, from the end of the words to their start.
  induction h with
  | done p cs => exact ⟨[], rfl, rfl, fun ds _ => .done p ds⟩
  | @blank p q c cs rest ts hc _ ih =>
    obtain ⟨first, rfl, rfl, h⟩ := ih
    refine ⟨c :: first, rfl, ?_, fun ds hds => .blank hc (h ds hds)⟩
    rw [byteLength_cons, Nat.add_assoc]
  | @word p q c cs rest ts l hc hl _ ih =>
    obtain ⟨first, hrest, rfl, h⟩ := ih
    refine ⟨l.text ++ first, ?_, ?_, fun ds hds => ?_⟩
    · rw [List.append_assoc, ← hrest, l.text_append_rest]
    · rw [byteLength_append, Nat.add_assoc]
    · -- The text after the word is interrupted where what is left is.
      have hafter := hds.append_left first
      rw [← hrest] at hafter
      obtain ⟨l', hl', hsymbol, htext, hrest'⟩ := lexeme_interrupted hl hafter
      have hscans : Scans (p + byteLength l'.text) l'.rest ts
          (p + byteLength l.text + byteLength first) ds := by
        rw [htext, hrest']
        exact h ds hds
      have hword := Scans.word hc hl' hscans
      rwa [hsymbol, htext, ← List.cons_append, ← l.text_eq_cons, ← List.append_assoc] at hword

/-- The words do not depend on the position of the text, so they may be put in front of other
words. -/
theorem lexes {ws : List Symbol} (h : Scans p cs ts q rest) (hrest : Lexes rest ws) :
    Lexes cs (ts.map Token.symbol ++ ws) := by
  induction h with
  | done => exact hrest
  | blank hc _ ih => exact .blank hc (ih hrest)
  | word hc hl _ ih => exact .lexeme hc hl (ih hrest)

end Scans

/-- The words of a text in brackets are its own words, the closing bracket and those of what
follows. The bracket interrupts whatever the text would go on with. -/
theorem lexes_append_of_tokenize {source : String} {ts : Tokens} {rest : List Char}
    {ws : List Symbol} (h : tokenize source = .ok ts) (hrest : Lexes rest ws) :
    Lexes (source.toList ++ ')' :: rest) (ts.words.map Token.symbol ++ .closeBracket :: ws) := by
  obtain ⟨q, hscans⟩ := scans_of_tokenize h
  obtain ⟨first, hsource, -, hfirst⟩ := hscans.interrupt
  rw [hsource, List.append_nil]
  exact (hfirst _ (.cut (.inr rfl) [] rest)).lexes hrest.closeBracket

end UnitPlane
