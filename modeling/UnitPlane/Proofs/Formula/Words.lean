import UnitPlane.Formula.Printer
import UnitPlane.Proofs.Decimal.ReadBack

/-!
# `UnitPlane.Proofs.Formula.Words`: the words of a written formula

`Lexes cs ws` says that the text `cs` has the words `ws`, wherever it stands. A piece of a written
formula gives its own words when what follows cannot be taken for a part of it: a numeral ends
before a digit, a point or an exponent, a name before a letter, and a star before another star. The
pieces of a tree keep this, so the words of the text are the words of its pieces.

A number has one word, with one exception: the negative zero is written with a sign, which is a
word.
-/

set_option autoImplicit false

namespace UnitPlane

open Text Double

/-- The text has the given words, whatever position it has. Only the symbols are compared, because
the positions of words depend on what is written before them. -/
def Lexes (cs : List Char) (ws : List Symbol) : Prop :=
  ∀ position, ∃ tokens, scan position cs = .ok tokens ∧ tokens.map Token.symbol = ws

namespace Lexes

variable {c : Char} {cs rest : List Char} {ws : List Symbol}

/-- Nothing has no words. -/
theorem nil : Lexes [] [] := by
  intro position
  exact ⟨[], by rw [scan]; rfl, rfl⟩

/-- White space in front of a text adds no word to it. -/
theorem blank (hc : isBlank c = true) (h : Lexes cs ws) : Lexes (c :: cs) ws := by
  intro position
  obtain ⟨tokens, hscan, hmap⟩ := h (position + c.utf8Size)
  exact ⟨tokens, by rw [scan, if_pos hc, hscan], hmap⟩

/-- A word that the text starts with comes first, and those of what is left come after it. -/
theorem lexeme {l : Lexeme (c :: cs)} (hc : isBlank c = false) (hl : UnitPlane.lexeme c cs = .ok l)
    (h : Lexes l.rest ws) : Lexes (c :: cs) (l.symbol :: ws) := by
  intro position
  -- The position goes on by the bytes of the word; the words after it do not depend on it.
  obtain ⟨tokens, hscan, hmap⟩ := h (position + byteLength l.text)
  refine ⟨⟨l.symbol, position, position + byteLength l.text⟩ :: tokens, ?_, ?_⟩
  · rw [scan, if_neg (by simp [hc]), hl]
    simp only [hscan]
    rfl
  · rw [List.map_cons, hmap]

/-- The characters that operators and brackets start with. -/
def operatorChars : List Char := ['+', '-', '*', '/', '(', ')']

/-- Neither a blank nor a numeral nor a name starts with one of them, so the lexer gets to the
operators. -/
theorem class_of_mem_operatorChars {c : Char} (hc : c ∈ operatorChars) :
    isBlank c = false ∧ (c.isDigit || c == '.') = false ∧ startsName c = false := by
  simp only [operatorChars, List.mem_cons, List.not_mem_nil, or_false] at hc
  rcases hc with rfl | rfl | rfl | rfl | rfl | rfl <;>
    exact ⟨by decide, by decide, startsName_of_ascii (by decide)⟩

/-- An operator or bracket comes first, and takes one character or two. Which of the two is decided
by the next character. -/
theorem operator (symbol : Symbol) (two : Bool) (hc : c ∈ operatorChars)
    (hsymbol : operatorSymbol? c cs.head? = some (symbol, two))
    (h : Lexes (cs.drop (if two then 1 else 0)) ws) : Lexes (c :: cs) (symbol :: ws) := by
  obtain ⟨hblank, hnumber, hname⟩ := class_of_mem_operatorChars hc
  have hl : UnitPlane.lexeme c cs = .ok ⟨symbol, c :: cs.take (if two then 1 else 0),
      cs.drop (if two then 1 else 0), by simp, by simp⟩ := by
    unfold UnitPlane.lexeme operatorLexeme?
    rw [if_neg (by rw [hnumber]; decide), if_neg (by rw [hname]; decide), hsymbol]
    rfl
  exact lexeme hblank hl h

/-- A plus is a word of its own, whatever follows. -/
theorem plus (h : Lexes cs ws) : Lexes ('+' :: cs) (.plus :: ws) :=
  operator .plus false (by simp [operatorChars]) rfl h

/-- A minus is a word of its own, whatever follows. -/
theorem minus (h : Lexes cs ws) : Lexes ('-' :: cs) (.minus :: ws) :=
  operator .minus false (by simp [operatorChars]) rfl h

/-- An opening bracket is a word of its own, whatever follows. -/
theorem openBracket (h : Lexes cs ws) : Lexes ('(' :: cs) (.openBracket :: ws) :=
  operator .openBracket false (by simp [operatorChars]) rfl h

/-- A closing bracket is a word of its own, whatever follows. -/
theorem closeBracket (h : Lexes cs ws) : Lexes (')' :: cs) (.closeBracket :: ws) :=
  operator .closeBracket false (by simp [operatorChars]) rfl h

/-- Two stars are one word, whatever follows. -/
theorem doubleStar (h : Lexes cs ws) : Lexes ('*' :: '*' :: cs) (.doubleStar :: ws) :=
  operator .doubleStar true (by simp [operatorChars]) rfl h

/-- A star is a word of its own unless another star follows. -/
theorem star (hcs : cs.head? ≠ some '*') (h : Lexes cs ws) : Lexes ('*' :: cs) (.star :: ws) :=
  operator .star false (by simp [operatorChars]) (by simp [operatorSymbol?, hcs]) h

/-- A slash is a word of its own unless another slash follows, which would make an operator that is
not supported. -/
theorem slash (hcs : cs.head? ≠ some '/') (h : Lexes cs ws) : Lexes ('/' :: cs) (.slash :: ws) :=
  operator .slash false (by simp [operatorChars]) (by simp [operatorSymbol?, hcs]) h

/-- The name of a variable ends where no name goes on. It has one character, so nothing else of it
is to be found. -/
theorem name (v : Variable) (hrest : Stops continuesName rest) (h : Lexes rest ws) :
    Lexes (v.name.toList ++ rest) (.name v.name :: ws) := by
  -- Either variable is one letter, which starts a name and nothing else.
  obtain ⟨c, hname, hblank, hnumber, hstart⟩ : ∃ c, v.name.toList = [c] ∧ isBlank c = false ∧
      (c.isDigit || c == '.') = false ∧ startsName c = true := by
    cases v with
    | x => exact ⟨'x', rfl, by decide, by decide, by decide⟩
    | y => exact ⟨'y', rfl, by decide, by decide, by decide⟩
  have htake := takeWhile_of_stops hrest
  have hdrop := dropWhile_of_stops hrest
  have hl : UnitPlane.lexeme c rest = .ok (nameLexeme c rest) := by
    unfold UnitPlane.lexeme
    rw [if_neg (by rw [hnumber]; decide), if_pos hstart]
    rfl
  have hsymbol : (nameLexeme c rest).symbol = .name v.name := by
    show Symbol.name (String.ofList (c :: rest.takeWhile continuesName)) = _
    rw [htake, ← hname, String.ofList_toList]
  rw [hname, ← hsymbol]
  exact lexeme hblank hl (by
    show Lexes (rest.dropWhile continuesName) ws
    rw [hdrop]
    exact h)

/-- A numeral ends where no numeral goes on, and its word is its value. -/
theorem numeral {n : Decimal.Numeral} (hn : n.Positional) (hfinite : n.value.isFinite = true)
    (hrest : Stops Decimal.Numeral.goesOn rest) (h : Lexes rest ws) :
    Lexes (n.chars ++ rest) (.number n.value :: ws) := by
  obtain ⟨c, cs, hchars, hc⟩ := hn.chars_eq_cons
  have hsplit := Decimal.Numeral.split_chars hn hrest
  have hread := Decimal.Numeral.read?_chars hn
  rw [hchars] at hsplit hread ⊢
  rw [List.cons_append] at hsplit ⊢
  -- The lexeme carries proofs about its own text, so it is not named but only described.
  have hl : ∃ l, UnitPlane.lexeme c (cs ++ rest) = .ok l ∧ l.symbol = .number n.value ∧
      l.rest = rest := by
    have hnumber : numberSymbol (c :: cs) = .ok (.number n.value) := by
      unfold numberSymbol
      rw [hread]
      exact if_pos hfinite
    unfold UnitPlane.lexeme
    rw [if_pos (by rw [hc]; rfl)]
    unfold numberLexeme
    split
    next heq =>
      rw [hsplit] at heq
      cases heq
    next heq =>
      rw [hsplit] at heq
      cases heq
      rw [hnumber]
      exact ⟨_, rfl, rfl, rfl⟩
  obtain ⟨l, hl, hsymbol, hrest'⟩ := hl
  rw [← hsymbol]
  exact lexeme (isBlank_of_isDigit hc) hl (by rw [hrest']; exact h)

/-- An unsigned number is one word, since it is written as a numeral with its value. -/
theorem number {v : Float} (hv : Unsigned v) (hrest : Stops Decimal.Numeral.goesOn rest)
    (h : Lexes rest ws) : Lexes (Decimal.plain.chars v ++ rest) (.number v :: ws) := by
  obtain ⟨n, hn, hchars, hvalue⟩ := Decimal.exists_numeral hv
  rw [hchars, ← hvalue]
  exact numeral hn (by rw [hvalue]; exact hv.isFinite) hrest h

end Lexes

/-! ### Pieces -/

/-- The words of a symbol as it is written. The sign of the negative zero is a word of its own, as
no numeral has a sign. -/
def Symbol.words : Symbol → List Symbol
  | .number value => if value = -0 then [.minus, .number 0] else [.number value]
  | symbol => [symbol]

namespace Piece

/-- The characters of a piece. -/
def chars (p : Piece) : List Char := p.spelling.toList

/-- The words of a piece. -/
def words : Piece → List Symbol
  | symbol s => s.words
  | gap => []

end Piece

/-- What may follow an operand: nothing, the gap before a sign, an operator or a closing bracket. -/
def Ends (rest : List Char) : Prop := ∀ c ∈ rest.head?, c ∈ [' ', '*', '/', ')']

/-- One of these characters ends an operand, whatever comes after it. -/
theorem ends_cons {c : Char} {cs : List Char} (hc : c ∈ [' ', '*', '/', ')']) : Ends (c :: cs) := by
  intro d hd
  cases hd
  exact hc

/-- What may follow an operand is not in a class that has none of these characters. -/
theorem Ends.stops {p : Char → Bool} {rest : List Char} (h : Ends rest) (hspace : p ' ' = false)
    (hstar : p '*' = false) (hslash : p '/' = false) (hclosed : p ')' = false) : Stops p rest := by
  intro c hc
  have hmem := h c hc
  simp only [List.mem_cons, List.not_mem_nil, or_false] at hmem
  rcases hmem with rfl | rfl | rfl | rfl
  exacts [hspace, hstar, hslash, hclosed]

/-- No numeral goes on with what may follow an operand. -/
theorem Ends.stops_goesOn {rest : List Char} (h : Ends rest) : Stops Decimal.Numeral.goesOn rest :=
  h.stops (by decide) (by decide) (by decide) (by decide)

/-- No name goes on with what may follow an operand. -/
theorem Ends.stops_continuesName {rest : List Char} (h : Ends rest) : Stops continuesName rest :=
  h.stops (continuesName_of_ascii (by decide)) (continuesName_of_ascii (by decide))
    (continuesName_of_ascii (by decide)) (continuesName_of_ascii (by decide))

/-- The pieces give their own words, in front of whatever ends an operand. This is what each part of
a written tree keeps. -/
def Lexable (ps : List Piece) : Prop :=
  ∀ (rest : List Char) (ws : List Symbol), Ends rest → Lexes rest ws →
    Lexes (ps.flatMap Piece.chars ++ rest) (ps.flatMap Piece.words ++ ws)

/-- The text neither ends a star nor a slash in front of it. So a single star or slash before it
stays single. -/
def StartsOperand (cs : List Char) : Prop := cs ≠ [] ∧ ∀ c ∈ cs.head?, c ≠ '*' ∧ c ≠ '/'

/-- More text behind it changes nothing, since it is not empty. -/
theorem StartsOperand.append {cs : List Char} (h : StartsOperand cs) (rest : List Char) :
    StartsOperand (cs ++ rest) := by
  cases cs with
  | nil => exact absurd rfl h.1
  | cons c cs => exact ⟨List.cons_ne_nil _ _, h.2⟩

/-- The first character decides. -/
theorem startsOperand_cons {c : Char} {cs : List Char} (hc : c ≠ '*' ∧ c ≠ '/') :
    StartsOperand (c :: cs) := by
  refine ⟨List.cons_ne_nil c cs, fun d hd => ?_⟩
  cases hd
  exact hc

/-- What is weaker than its context asks for is written in brackets. -/
theorem bracket_of_lt {strength context : Nat} (h : strength < context) (ps : List Piece) :
    bracket strength context ps = .symbol .openBracket :: (ps ++ [.symbol .closeBracket]) :=
      if_pos h

/-- What is strong enough is written as it is. -/
theorem bracket_of_le {strength context : Nat} (h : context ≤ strength) (ps : List Piece) :
    bracket strength context ps = ps := if_neg (Nat.not_lt.2 h)

/-- Brackets where they are needed keep the words of the pieces. They are words themselves then. -/
theorem Lexable.bracket {ps : List Piece} (h : Lexable ps) (strength context : Nat) :
    Lexable (bracket strength context ps) := by
  by_cases hlt : strength < context
  · -- Inside the brackets the closing one ends the operand, whatever stands after it.
    intro rest ws hrest hlexes
    have hclose : Lexes (')' :: rest) (.closeBracket :: ws) := hlexes.closeBracket
    have hinner := h _ _ (ends_cons (by simp)) hclose
    rw [bracket_of_lt hlt]
    simp only [List.flatMap_cons, List.flatMap_append, List.flatMap_nil, List.append_nil,
      List.append_assoc]
    exact hinner.openBracket
  · rw [bracket_of_le (by omega)]
    exact h

/-- Brackets where they are needed keep it the start of an operand, as an opening bracket is one. -/
theorem startsOperand_bracket {ps : List Piece} (h : StartsOperand (ps.flatMap Piece.chars))
    (strength context : Nat) :
    StartsOperand ((bracket strength context ps).flatMap Piece.chars) := by
  by_cases hlt : strength < context
  · rw [bracket_of_lt hlt]
    exact startsOperand_cons (by decide)
  · rw [bracket_of_le (by omega)]
    exact h

/-! ### Numbers and operators -/

/-- An unsigned number is its own word: it is not the negative zero. -/
theorem words_number {v : Float} (hv : Unsigned v) : Symbol.words (.number v) = [.number v] := by
  have hne : v ≠ -0 := by
    rintro rfl
    unfold Unsigned at hv
    rw [parts_neg_zero] at hv
    rcases hv with hv | ⟨m, e, hm, hv⟩ <;> cases hv
  exact if_neg hne

/-- A number is written in the plain spelling, which has all digits in place and no exponent. -/
theorem chars_number (v : Float) :
    Piece.chars (.symbol (.number v)) = Decimal.plain.chars v :=
  String.toList_ofList

/-- Zero is an unsigned number. -/
theorem unsigned_zero : Unsigned 0 := .inl parts_zero

/-- An unsigned number gives its own word. -/
theorem lexable_number {v : Float} (hv : Unsigned v) : Lexable [.symbol (.number v)] := by
  intro rest ws hrest hlexes
  simp only [List.flatMap_singleton, chars_number, Piece.words, words_number hv]
  exact hlexes.number hv hrest.stops_goesOn

/-- A number that is not below zero gives its words. It is unsigned or the negative zero, which is
written with its sign. -/
theorem lexable_literal {v : Float} (hfinite : v.isFinite = true) (hv : ¬ v < 0) :
    Lexable [.symbol (.number v)] := by
  rcases unsigned_or_eq_neg_zero hfinite hv with hunsigned | rfl
  · exact lexable_number hunsigned
  · intro rest ws hrest hlexes
    simp only [List.flatMap_singleton, chars_number, Piece.words, Symbol.words, if_pos,
      Decimal.chars_neg_zero]
    exact (hlexes.number unsigned_zero hrest.stops_goesOn).minus

/-- A number that is not below zero starts an operand: it is written with a digit first, or with the
sign of the negative zero. -/
theorem startsOperand_number {v : Float} (hfinite : v.isFinite = true) (hv : ¬ v < 0) :
    StartsOperand (Piece.chars (.symbol (.number v))) := by
  rw [chars_number]
  -- An unsigned number starts with a digit, and the negative zero with a minus.
  rcases unsigned_or_eq_neg_zero hfinite hv with hunsigned | rfl
  · obtain ⟨n, hn, hchars, -⟩ := Decimal.exists_numeral hunsigned
    obtain ⟨c, cs, hcons, hc⟩ := hn.chars_eq_cons
    have hstar : c ≠ '*' := by
      rintro rfl
      exact nomatch hc
    have hslash : c ≠ '/' := by
      rintro rfl
      exact nomatch hc
    rw [hchars, hcons]
    exact startsOperand_cons ⟨hstar, hslash⟩
  · rw [Decimal.chars_neg_zero]
    exact startsOperand_cons (by decide)

/-- How each operator is written. Sums have a gap on either side of it, and products have none. -/
theorem Operator.chars_pieces (op : Operator) :
    op.pieces.flatMap Piece.chars =
      match op with
      | add => [' ', '+', ' ']
      | sub => [' ', '-', ' ']
      | mul => ['*']
      | div => ['/']
      | pow => ['*', '*'] := by
  cases op <;> rfl

/-- An operator between two operands is told apart from both. The left operand ends where the
operator starts, and the right one does not go on with it. -/
theorem Lexable.binary {ls rs : List Piece} (op : Operator) (hl : Lexable ls) (hr : Lexable rs)
    (hstart : StartsOperand (rs.flatMap Piece.chars)) : Lexable (ls ++ op.pieces ++ rs) := by
  intro rest ws hrest hlexes
  have hright := hr rest ws hrest hlexes
  have hhead := (hstart.append rest).2
  simp only [List.flatMap_append, List.append_assoc]
  -- One star or slash would take a second one with it; the right operand starts with neither.
  generalize rs.flatMap Piece.chars ++ rest = right at hright hhead
  have hstar : right.head? ≠ some '*' := fun h => (hhead '*' h).1 rfl
  have hslash : right.head? ≠ some '/' := fun h => (hhead '/' h).2 rfl
  have hblank : isBlank ' ' = true := by decide
  rw [op.chars_pieces]
  cases op with
  | add => exact hl _ _ (ends_cons (by simp)) (.blank hblank (.plus (.blank hblank hright)))
  | sub => exact hl _ _ (ends_cons (by simp)) (.blank hblank (.minus (.blank hblank hright)))
  | mul => exact hl _ _ (ends_cons (by simp)) (.star hstar hright)
  | div => exact hl _ _ (ends_cons (by simp)) (.slash hslash hright)
  | pow => exact hl _ _ (ends_cons (by simp)) (.doubleStar hright)

/-- A minus starts an operand. -/
theorem startsOperand_minus (ps : List Piece) :
    StartsOperand ((Piece.symbol .minus :: ps).flatMap Piece.chars) :=
  startsOperand_cons (c := '-') (by decide)

/-- A minus in front of an operand is a word of its own. -/
theorem Lexable.minus {ps : List Piece} (h : Lexable ps) : Lexable (.symbol .minus :: ps) :=
  fun rest ws hrest hlexes => (h rest ws hrest hlexes).minus

/-! ### Trees -/

/-- The numbers of the tree are finite. -/
def Tree.Finite : Tree → Prop
  | var _ => True
  | literal value => value.isFinite = true
  | binary _ l r => l.Finite ∧ r.Finite

/-- A tree starts an operand wherever it is written, because it starts with a digit, a letter, a
sign or a bracket. -/
theorem Tree.startsOperand_pieces {t : Tree} (ht : t.Finite) (context : Nat) :
    StartsOperand ((t.pieces context).flatMap Piece.chars) := by
  -- An operation starts with its left operand, which has a context of its own.
  induction t generalizing context with
  | var v => cases v <;> exact startsOperand_cons (by decide)
  | literal value =>
    by_cases hv : value < 0
    · rw [pieces, if_pos hv]
      exact startsOperand_bracket (startsOperand_minus _) _ _
    · rw [pieces, if_neg hv, List.flatMap_singleton]
      exact startsOperand_number ht hv
  | binary op l r ihl ihr =>
    by_cases hminus : op = .mul ∧ l.isMinusOne = true
    · rw [pieces, if_pos hminus]
      exact startsOperand_bracket (startsOperand_minus _) _ _
    · rw [pieces, if_neg hminus]
      refine startsOperand_bracket ?_ _ _
      rw [List.append_assoc, List.flatMap_append]
      exact (ihl ht.1 _).append _

/-- The pieces of a tree are told apart from each other and from what follows. -/
theorem Tree.lexable_pieces {t : Tree} (ht : t.Finite) (context : Nat) :
    Lexable (t.pieces context) := by
  -- The induction is on the tree, along the cases of the printer.
  induction t generalizing context with
  | var v =>
    intro rest ws hrest hlexes
    rw [pieces, List.flatMap_singleton, List.flatMap_singleton]
    exact hlexes.name v hrest.stops_continuesName
  | literal value =>
    by_cases hv : value < 0
    · rw [pieces, if_pos hv]
      exact (lexable_number (unsigned_neg_of_lt_zero ht hv)).minus.bracket _ _
    · rw [pieces, if_neg hv]
      exact lexable_literal ht hv
  | binary op l r ihl ihr =>
    by_cases hminus : op = .mul ∧ l.isMinusOne = true
    · rw [pieces, if_pos hminus]
      exact (ihr ht.2 _).minus.bracket _ _
    · rw [pieces, if_neg hminus]
      exact ((ihl ht.1 _).binary op (ihr ht.2 _) (startsOperand_pieces ht.2 _)).bracket _ _

/-- The words of a tree written where the context asks for the given strength. -/
def Tree.words (t : Tree) (context : Nat) : List Symbol := (t.pieces context).flatMap Piece.words

/-- The text of a tree is that of its pieces, written where nothing is asked for. -/
theorem Tree.toList_text (t : Tree) : t.text.toList = (t.pieces 0).flatMap Piece.chars := by
  rw [Tree.text, String.toList_join, List.flatMap_map]
  rfl

/-- The text of a tree has the words of its pieces. So they are what the readers get to see. -/
theorem Tree.lexes_text {t : Tree} (ht : t.Finite) : Lexes t.text.toList (t.words 0) := by
  have h := t.lexable_pieces ht 0 [] [] (by intro c hc; cases hc) .nil
  rw [List.append_nil, List.append_nil] at h
  rwa [toList_text]

end UnitPlane
