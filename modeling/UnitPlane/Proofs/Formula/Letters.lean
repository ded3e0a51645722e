import UnitPlane.Formula.Lexer
import UnitPlane.Proofs.Support.Except
import UnitPlane.Proofs.Text

/-!
# `UnitPlane.Proofs.Formula.Letters`: formulas with the letters x and y exchanged

The letters `x` and `y` are of the same classes: both start names, go on with names, and take one
byte. So a text with the two exchanged has the same words at the same places, with the letters of
the names exchanged. Numerals and operators have neither letter and stay as they are.

The scanner looks at characters through their classes and through a few fixed characters, which are
neither `x` nor `y`. Each of its parts is shown to commute with the exchange for this one reason
(`takeWhile_map`, `split_map`, `lexeme_map`), and the scan of a whole text follows word by word.

* `scan_map`: the words of a text with the letters exchanged.
* `tokenize_exchangeLetters`: the same for a whole text, faults included.
-/

set_option autoImplicit false

namespace UnitPlane

open Text

/-! ### Letters -/

/-- The other one of the letters `x` and `y`. All other characters stay. -/
def exchangeLetter (c : Char) : Char :=
  if c = 'x' then 'y' else if c = 'y' then 'x' else c

/-- A text with the letters `x` and `y` exchanged. -/
def exchangeLetters (s : String) : String := String.ofList (s.toList.map exchangeLetter)

/-- A word with the letters of a name exchanged. -/
def Symbol.exchanged : Symbol → Symbol
  | name s => name (exchangeLetters s)
  | s => s

/-- A word at the same place with the letters of a name exchanged. -/
def Token.exchanged (t : Token) : Token := { t with symbol := t.symbol.exchanged }

/-- The words of a text with the letters of names exchanged. -/
def Tokens.exchanged (ts : Tokens) : Tokens := { ts with words := ts.words.map Token.exchanged }

section Letters

variable {c d : Char} {p : Char → Bool}

/-- A character that is neither of the letters stays as it is. -/
theorem exchangeLetter_of_ne (hx : c ≠ 'x') (hy : c ≠ 'y') : exchangeLetter c = c := by
  unfold exchangeLetter
  rw [if_neg hx, if_neg hy]

/-- A class of characters that does not tell `x` from `y` is kept, and so is everything that is
decided by such classes. -/
theorem class_exchangeLetter (h : p 'x' = p 'y') (c : Char) : p (exchangeLetter c) = p c := by
  unfold exchangeLetter
  split
  next hx => rw [hx, h]
  split
  next hy => rw [hy, h]
  · rfl

/-- Another character is found where it was, and only there. -/
theorem exchangeLetter_eq_iff (hx : d ≠ 'x') (hy : d ≠ 'y') : exchangeLetter c = d ↔ c = d := by
  have hclass := class_exchangeLetter (p := fun c => decide (c = d))
    ((decide_eq_false hx.symm).trans (decide_eq_false hy.symm).symm) c
  exact decide_eq_decide.1 hclass

/-- A character of a class without the two letters stays as it is. -/
theorem exchangeLetter_of_class (hx : p 'x' = false) (hy : p 'y' = false) (h : p c = true) :
    exchangeLetter c = c := by
  refine exchangeLetter_of_ne ?_ ?_
  · rintro rfl
    rw [hx] at h
    cases h
  · rintro rfl
    rw [hy] at h
    cases h

/-- A row of characters of a class that does not tell the letters apart ends at the same place. -/
theorem takeWhile_map (h : p 'x' = p 'y') (cs : List Char) :
    (cs.map exchangeLetter).takeWhile p = (cs.takeWhile p).map exchangeLetter := by
  rw [List.takeWhile_map]
  congr 2
  funext c
  exact class_exchangeLetter h c

/-- What follows such a row follows it with the letters exchanged. -/
theorem dropWhile_map (h : p 'x' = p 'y') (cs : List Char) :
    (cs.map exchangeLetter).dropWhile p = (cs.dropWhile p).map exchangeLetter := by
  rw [List.dropWhile_map]
  congr 2
  funext c
  exact class_exchangeLetter h c

/-- A row of characters of a class without the two letters stays as it is, and ends at the same
place. -/
theorem takeWhile_map_of_class (hx : p 'x' = false) (hy : p 'y' = false) (cs : List Char) :
    (cs.map exchangeLetter).takeWhile p = cs.takeWhile p := by
  rw [takeWhile_map (hx.trans hy.symm)]
  refine (List.map_congr_left ?_).trans (List.map_id _)
  intro c hc
  exact exchangeLetter_of_class hx hy (List.all_eq_true.1 List.all_takeWhile c hc)

/-- The two letters take one byte each, so the places of words stay the same. -/
theorem utf8Size_exchangeLetter (c : Char) : (exchangeLetter c).utf8Size = c.utf8Size := by
  unfold exchangeLetter
  split
  next hx => rw [hx]; rfl
  split
  next hy => rw [hy]; rfl
  · rfl

/-- A row of characters takes as many bytes with the letters exchanged. -/
theorem byteLength_map (cs : List Char) : byteLength (cs.map exchangeLetter) = byteLength cs := by
  induction cs with
  | nil => rfl
  | cons c cs ih =>
      rw [List.map_cons, byteLength_cons, byteLength_cons, utf8Size_exchangeLetter, ih]

end Letters

/-! ### Numerals -/

namespace Numeral

/-- The point of a numeral and the digits after it stay as they are. -/
theorem splitPoint_map (cs : List Char) :
    splitPoint (cs.map exchangeLetter) =
      ((splitPoint cs).1, (splitPoint cs).2.map exchangeLetter) := by
  unfold splitPoint
  cases cs with
  | nil => rfl
  | cons c cs =>
    -- A point is no letter, so it is one in both texts.
    by_cases hpoint : c = '.'
    · subst hpoint
      show ('.' :: (cs.map exchangeLetter).takeWhile Char.isDigit,
        (cs.map exchangeLetter).dropWhile Char.isDigit) = _
      rw [takeWhile_map_of_class rfl rfl, dropWhile_map rfl]
      rfl
    · have hpoint' := mt (exchangeLetter_eq_iff (by decide) (by decide)).1 hpoint
      simp [hpoint, hpoint']

/-- The sign of an exponent stays as it is. -/
theorem splitExponentSign_map (cs : List Char) :
    splitExponentSign (cs.map exchangeLetter) =
      ((splitExponentSign cs).1, (splitExponentSign cs).2.map exchangeLetter) := by
  unfold splitExponentSign
  cases cs with
  | nil => rfl
  | cons c cs =>
    -- Signs are no letters, so they are the same in both texts.
    by_cases hplus : c = '+'
    · subst hplus
      rfl
    by_cases hminus : c = '-'
    · subst hminus
      rfl
    have hplus' := mt (exchangeLetter_eq_iff (by decide) (by decide)).1 hplus
    have hminus' := mt (exchangeLetter_eq_iff (by decide) (by decide)).1 hminus
    simp [hplus, hplus', hminus, hminus']

/-- The exponent of a numeral stays as it is: its letter is neither of the two. -/
theorem splitExponent_map (cs : List Char) :
    splitExponent (cs.map exchangeLetter) =
      ((splitExponent cs).1, (splitExponent cs).2.map exchangeLetter) := by
  cases cs with
  | nil => rfl
  | cons c cs =>
    -- The marks of exponents are letters, but not the two that are exchanged.
    have he : exchangeLetter c = 'e' ↔ c = 'e' := exchangeLetter_eq_iff (by decide) (by decide)
    have hE : exchangeLetter c = 'E' ↔ c = 'E' := exchangeLetter_eq_iff (by decide) (by decide)
    rw [List.map_cons, splitExponent, splitExponent, splitExponentSign_map]
    dsimp only
    rw [takeWhile_map_of_class rfl rfl, dropWhile_map rfl]
    simp only [he, hE]
    split
    next hexponent =>
      have hself : exchangeLetter c = c := by
        rcases hexponent.1 with rfl | rfl
        · rfl
        · rfl
      rw [hself]
    next => rfl

/-- A text with the letters exchanged starts with the same numeral, and what follows has the letters
exchanged. -/
theorem split_map (cs : List Char) :
    split (cs.map exchangeLetter) = ((split cs).1, (split cs).2.map exchangeLetter) := by
  unfold split
  rw [takeWhile_map_of_class rfl rfl, dropWhile_map rfl, splitPoint_map]
  dsimp only
  rw [splitExponent_map]

/-- Neither letter occurs in a numeral, so exchanging them does nothing there. -/
theorem map_split (cs : List Char) : (split cs).1.map exchangeLetter = (split cs).1 := by
  have happend := split_append (cs.map exchangeLetter)
  rw [split_map] at happend
  have hmap := congrArg (List.map exchangeLetter) (split_append cs)
  rw [List.map_append, ← happend] at hmap
  exact (List.append_inj hmap (List.length_map _)).1

end Numeral

/-! ### Words -/

/-- What a word is, without the proof that it was read from a text. -/
def Lexeme.parts {cs : List Char} (l : Lexeme cs) : Symbol × List Char × List Char :=
  (l.symbol, l.text, l.rest)

/-- The same for a text with the letters exchanged. -/
def exchangeParts (p : Symbol × List Char × List Char) : Symbol × List Char × List Char :=
  (p.1.exchanged, p.2.1.map exchangeLetter, p.2.2.map exchangeLetter)

/-- A text with the letters exchanged is made of the characters with the letters exchanged. -/
theorem exchangeLetters_ofList (cs : List Char) :
    exchangeLetters (String.ofList cs) = String.ofList (cs.map exchangeLetter) := by
  unfold exchangeLetters
  rw [String.toList_ofList]

/-- Exchanging the letters twice gives the character back. -/
theorem exchangeLetter_exchangeLetter (c : Char) : exchangeLetter (exchangeLetter c) = c := by
  by_cases hx : c = 'x'
  · subst hx
    rfl
  by_cases hy : c = 'y'
  · subst hy
    rfl
  rw [exchangeLetter_of_ne hx hy, exchangeLetter_of_ne hx hy]

/-- Exchanging the letters twice gives the text back. -/
theorem exchangeLetters_exchangeLetters (s : String) : exchangeLetters (exchangeLetters s) = s := by
  have hid : exchangeLetter ∘ exchangeLetter = id := funext exchangeLetter_exchangeLetter
  unfold exchangeLetters
  rw [String.toList_ofList, List.map_map, hid, List.map_id, String.ofList_toList]

section Words

variable (c : Char) (cs : List Char)

/-- A number is the same word with the letters exchanged. -/
theorem exchanged_numberSymbol (cs : List Char) :
    (numberSymbol cs).map Symbol.exchanged = numberSymbol cs := by
  unfold numberSymbol
  split
  · rfl
  split <;> rfl

/-- An operator is the same word with the letters exchanged, also one that is not supported. -/
theorem exchanged_operatorSymbol? (c : Char) (following : Option Char) :
    (operatorSymbol? c following).map (fun s => (s.1.exchanged, s.2)) =
      operatorSymbol? c following := by
  unfold operatorSymbol?
  split
  · rfl
  · rfl
  · split <;> rfl
  · split <;> rfl
  · rfl
  · rfl
  · split <;> rfl

/-- What a numeral is read as, without the proof that it is part of the text. -/
theorem parts_numberLexeme :
    (numberLexeme c cs).map Lexeme.parts =
      match Numeral.split (c :: cs) with
      | ([], _) => .error (.badNumber "")
      | (d :: numeral, rest) =>
        (numberSymbol (d :: numeral)).map fun symbol => (symbol, d :: numeral, rest) := by
  unfold numberLexeme
  split
  next h =>
    rw [h]
    rfl
  next d numeral rest h =>
    -- The symbol comes first, because the lexeme's proof speaks of the split.
    cases hsymbol : numberSymbol (d :: numeral) with
    | error e =>
      show Except.error e = _
      rw [h]
      dsimp only
      rw [hsymbol]
      rfl
    | ok symbol =>
      show Except.ok (symbol, d :: numeral, rest) = _
      rw [h]
      dsimp only
      rw [hsymbol]
      rfl

/-- A numeral is read as the same number with the letters exchanged in what follows it. -/
theorem numberLexeme_map :
    (numberLexeme (exchangeLetter c) (cs.map exchangeLetter)).map Lexeme.parts =
      ((numberLexeme c cs).map Lexeme.parts).map exchangeParts := by
  have hmap := Numeral.map_split (c :: cs)
  rw [parts_numberLexeme, parts_numberLexeme, ← List.map_cons, Numeral.split_map]
  generalize Numeral.split (c :: cs) = split at hmap ⊢
  obtain ⟨numeral, rest⟩ := split
  -- The numeral has neither of the two letters, so it is the same word in both texts.
  cases numeral with
  | nil => rfl
  | cons d numeral =>
    have hsymbol := exchanged_numberSymbol (d :: numeral)
    dsimp only at hmap ⊢
    cases h : numberSymbol (d :: numeral) with
    | error e => rfl
    | ok symbol =>
      rw [h] at hsymbol
      have hself : symbol.exchanged = symbol := Except.ok.inj hsymbol
      show Except.ok (symbol, d :: numeral, rest.map exchangeLetter) =
        .ok (symbol.exchanged, (d :: numeral).map exchangeLetter, rest.map exchangeLetter)
      rw [hself, hmap]

/-- A name is read as the name with the letters exchanged, since both letters start names and go on
with them. -/
theorem parts_nameLexeme_map :
    (nameLexeme (exchangeLetter c) (cs.map exchangeLetter)).parts =
      exchangeParts (nameLexeme c cs).parts := by
  have hclass : continuesName 'x' = continuesName 'y' := by decide
  show (Symbol.name
    (String.ofList (exchangeLetter c :: (cs.map exchangeLetter).takeWhile continuesName)),
      exchangeLetter c :: (cs.map exchangeLetter).takeWhile continuesName,
      (cs.map exchangeLetter).dropWhile continuesName) =
    (Symbol.name (exchangeLetters (String.ofList (c :: cs.takeWhile continuesName))),
      (c :: cs.takeWhile continuesName).map exchangeLetter,
      (cs.dropWhile continuesName).map exchangeLetter)
  rw [takeWhile_map hclass, dropWhile_map hclass, exchangeLetters_ofList]
  rfl

/-- An operator does not start with one of the letters, and is not followed by one. -/
theorem operatorSymbol?_map (c : Char) (following : Option Char) :
    operatorSymbol? (exchangeLetter c) (following.map exchangeLetter) =
      operatorSymbol? c following := by
  have hfollowing {d : Char} (hx : d ≠ 'x') (hy : d ≠ 'y') :
      (following.map exchangeLetter = some d) = (following = some d) := by
    cases following with
    | none => rfl
    | some e =>
      rw [Option.map_some, Option.some_inj, Option.some_inj, exchangeLetter_eq_iff hx hy]
  -- The two letters are no operators, and every other character stays as it is.
  by_cases hx : c = 'x'
  · subst hx
    rfl
  by_cases hy : c = 'y'
  · subst hy
    rfl
  rw [exchangeLetter_of_ne hx hy]
  unfold operatorSymbol?
  simp only [hfollowing (d := '*') (by decide) (by decide), hfollowing (d := '/') (by decide)
    (by decide)]

/-- An operator is read as the same operator, of one character or of two. -/
theorem operatorLexeme?_map :
    (operatorLexeme? (exchangeLetter c) (cs.map exchangeLetter)).map Lexeme.parts =
      ((operatorLexeme? c cs).map Lexeme.parts).map exchangeParts := by
  have hself := exchanged_operatorSymbol? c cs.head?
  unfold operatorLexeme?
  rw [List.head?_map, operatorSymbol?_map]
  -- An operator takes as many characters in either text.
  cases h : operatorSymbol? c cs.head? with
  | none => rfl
  | some s =>
    rw [h] at hself
    obtain ⟨symbol, two⟩ := s
    have hsymbol : symbol.exchanged = symbol := congrArg Prod.fst (Option.some.inj hself)
    show some (symbol, exchangeLetter c :: (cs.map exchangeLetter).take _,
        (cs.map exchangeLetter).drop _) =
      some (symbol.exchanged, exchangeLetter c :: (cs.take _).map exchangeLetter,
        (cs.drop _).map exchangeLetter)
    rw [hsymbol, List.map_take, List.map_drop]

/-- The word that a text with the letters exchanged starts with, whichever kind of word it is. -/
theorem lexeme_map :
    (lexeme (exchangeLetter c) (cs.map exchangeLetter)).map Lexeme.parts =
      ((lexeme c cs).map Lexeme.parts).map exchangeParts := by
  have hdigit : ((exchangeLetter c).isDigit || exchangeLetter c == '.') = (c.isDigit || c == '.') :=
    class_exchangeLetter (p := fun c => c.isDigit || c == '.') (by decide) c
  have hname : startsName (exchangeLetter c) = startsName c :=
    class_exchangeLetter (by decide) c
  unfold lexeme
  rw [hdigit, hname]
  split
  · exact numberLexeme_map c cs
  split
  · exact congrArg Except.ok (parts_nameLexeme_map c cs)
  next hstart =>
    have hoperator := operatorLexeme?_map c cs
    cases h : operatorLexeme? c cs with
    | none =>
      rw [h] at hoperator
      rw [Option.map_eq_none_iff.1 hoperator]
      -- A character that starts no word is neither of the letters, which start names.
      have hself : exchangeLetter c = c := by
        refine exchangeLetter_of_ne ?_ ?_
        · rintro rfl
          exact hstart (by decide)
        · rintro rfl
          exact hstart (by decide)
      show Except.error (SyntaxCause.unexpectedCharacter (exchangeLetter c)) =
        .error (.unexpectedCharacter c)
      rw [hself]
    | some l =>
      rw [h] at hoperator
      obtain ⟨l', hl', hparts⟩ := Option.map_eq_some_iff.1 hoperator
      rw [hl']
      exact congrArg Except.ok hparts

end Words

/-! ### Texts -/

/-- The words of a text that starts with a word are this word and those of what follows it. -/
theorem scan_cons (position : Nat) {c : Char} (cs : List Char) (hc : isBlank c = false) :
    scan position (c :: cs) =
      match (lexeme c cs).map Lexeme.parts with
      | .error cause => .error (.badSyntax position cause)
      | .ok p => (scan (position + byteLength p.2.1) p.2.2).map
          (⟨p.1, position, position + byteLength p.2.1⟩ :: ·) := by
  rw [scan, hc]
  cases lexeme c cs with
  | error cause => rfl
  | ok l => rfl

/-- A text with the letters exchanged has the same words at the same places, and is refused for the
same reason. -/
theorem scan_map (position : Nat) (cs : List Char) :
    scan position (cs.map exchangeLetter) = (scan position cs).map (List.map Token.exchanged) := by
  -- What is left of the text gets shorter with each word.
  induction hn : cs.length using Nat.strongRecOn generalizing position cs with
  | ind n ih =>
    cases cs with
    | nil =>
      rw [List.map_nil, scan]
      rfl
    | cons c cs =>
      have hblank : isBlank (exchangeLetter c) = isBlank c := class_exchangeLetter (by decide) c
      cases hc : isBlank c with
      | true =>
        have hlt : cs.length < n := by rw [← hn]; exact Nat.lt_succ_self _
        rw [List.map_cons, scan, scan, hblank, hc, if_pos rfl, if_pos rfl, utf8Size_exchangeLetter]
        exact ih cs.length hlt _ cs rfl
      | false =>
        rw [List.map_cons, scan_cons _ _ (hblank.trans hc), scan_cons _ _ hc, lexeme_map]
        cases lexeme c cs with
        | error cause => rfl
        | ok l =>
          have hlt : l.rest.length < n := hn ▸ l.length_rest_lt
          show (scan (position + byteLength (l.text.map exchangeLetter))
            (l.rest.map exchangeLetter)).map
              (⟨l.symbol.exchanged, position, position + byteLength (l.text.map exchangeLetter)⟩ ::
                ·) =
            ((scan (position + byteLength l.text) l.rest).map
              (⟨l.symbol, position, position + byteLength l.text⟩ :: ·)).map
              (List.map Token.exchanged)
          rw [byteLength_map, ih _ hlt _ l.rest rfl]
          cases scan (position + byteLength l.text) l.rest with
          | error e => rfl
          | ok tokens => rfl

/-- A text takes as many bytes with the letters exchanged, so the limit on its length says the
same. -/
theorem utf8ByteSize_exchangeLetters (source : String) :
    (exchangeLetters source).utf8ByteSize = source.utf8ByteSize := by
  have hbytes := byteLength_map source.toList
  unfold byteLength at hbytes
  rwa [String.ofList_toList] at hbytes

/-- The words of a text with the letters exchanged are its words with the letters exchanged, at the
same places. -/
theorem tokenize_exchangeLetters (source : String) :
    tokenize (exchangeLetters source) = (tokenize source).map Tokens.exchanged := by
  unfold tokenize
  rw [show (exchangeLetters source).toList = source.toList.map exchangeLetter from
    String.toList_ofList, scan_map, utf8ByteSize_exchangeLetters]
  cases scan 0 source.toList with
  | error e => rfl
  | ok words => rfl

end UnitPlane
