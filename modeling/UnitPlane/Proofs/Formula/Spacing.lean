import UnitPlane.Proofs.Formula.Arena.Trees
import UnitPlane.Proofs.Formula.Tiling

/-!
# `UnitPlane.Proofs.Formula.Spacing`: white space between words does not count

White space may be put into a text wherever no word is cut in two. The words stay what they are, for
the same reason for which a word does not depend on an interrupted text after it: `spread`
interrupts the text that it spreads. So the text has the same formula, node for node, or it is
refused for the same reason at another place.

* `spread`: a text with white space put in.
* `lexes_spread`: its symbols are those of the text.
* `Formula.parse_spread`: its formula is that of the text.
-/

set_option autoImplicit false

namespace UnitPlane

open Text

/-- The text with more characters put in: `gaps p` at the byte `p`, where the text itself starts at
the byte `start`. -/
def spread (gaps : ℕ → List Char) (start : ℕ) : List Char → List Char
  | [] => gaps start
  | c :: cs => gaps start ++ c :: spread gaps (start + c.utf8Size) cs

/-- What is put in is white space. It may be any number of characters, and of any kind that the
lexer skips. -/
def Blank (gaps : ℕ → List Char) : Prop := ∀ p, ∀ c ∈ gaps p, isBlank c = true

/-- Nothing is put into the middle of a word. It may be put at either end of one. -/
def KeepsWords (gaps : ℕ → List Char) (ts : List Token) : Prop :=
  ∀ w ∈ ts, ∀ p, w.start < p → p < w.stop → gaps p = []

section Spread

variable {gaps : ℕ → List Char} {p q : ℕ} {cs rest : List Char} {ts : List Token}

/-- A spread text goes on like the text until white space cuts it off. So whatever is said about
interrupted texts holds for spread ones. -/
theorem interrupted_spread (hgaps : Blank gaps) (p : ℕ) (cs : List Char) :
    Interrupted cs (spread gaps p cs) := by
  have hblank := hgaps p
  induction cs generalizing p with
  | nil =>
    rw [spread]
    cases hp : gaps p with
    | nil => exact .refl []
    | cons c row => exact .cut (.inl (hblank c (by rw [hp]; exact List.mem_cons_self))) [] row
  | cons c cs ih =>
    rw [spread]
    -- Either what is put in here cuts the text off, or the next character follows.
    cases hp : gaps p with
    | nil => exact .cons c (ih _ (hgaps _))
    | cons d row => exact .cut (.inl (hblank d (by rw [hp]; exact List.mem_cons_self))) _ _

/-- Where nothing is put in, a text stays as it is. -/
theorem spread_append (text : List Char) (h : ∀ n, p ≤ n → n < p + byteLength text → gaps n = []) :
    spread gaps p (text ++ rest) = text ++ spread gaps (p + byteLength text) rest := by
  induction text generalizing p with
  | nil => rfl
  | cons c text ih =>
    have hsize : 0 < c.utf8Size := c.utf8Size_pos
    rw [byteLength_cons] at h ⊢
    have htail := ih (p := p + c.utf8Size) fun n hlow hhigh => h n (by omega) (by omega)
    rw [List.cons_append, spread, h p le_rfl (by omega), htail, Nat.add_assoc]
    rfl

/-- In front of a word there may be white space, inside it there is none. What comes after the word
is spread by itself. -/
theorem spread_word {c : Char} (text : List Char)
    (h : ∀ n, p < n → n < p + byteLength (c :: text) → gaps n = []) :
    spread gaps p (c :: (text ++ rest)) =
      gaps p ++ c :: (text ++ spread gaps (p + byteLength (c :: text)) rest) := by
  have hsize : 0 < c.utf8Size := c.utf8Size_pos
  rw [byteLength_cons] at h ⊢
  rw [spread, spread_append text fun n hlow hhigh => h n (by omega) (by omega), Nat.add_assoc]

/-- White space in front of a text adds no symbols to it. -/
theorem Lexes.blanks {row : List Char} {ws : List Symbol} (hrow : ∀ c ∈ row, isBlank c = true)
    (h : Lexes cs ws) :
    Lexes (row ++ cs) ws := by
  induction row with
  | nil => exact h
  | cons c row ih =>
    obtain ⟨hc, hrow⟩ := List.forall_mem_cons.1 hrow
    exact .blank hc (ih hrow)

/-- The symbols of a text are those of the text with white space put in between them. The induction
is on the scan of the text to its end. -/
theorem Scans.lexes_spread (h : Scans p cs ts q []) (hblank : Blank gaps)
    (hgaps : KeepsWords gaps ts) :
    Lexes (spread gaps p cs) (ts.map Token.symbol) := by
  obtain ⟨rest, hrest⟩ : ∃ rest : List Char, rest = [] := ⟨[], rfl⟩
  -- The induction needs a variable for what is left, which is the empty text.
  rw [← hrest] at h
  induction h with
  | done p cs =>
    subst hrest
    rw [spread, ← List.append_nil (gaps p)]
    exact .blanks (hblank p) .nil
  | @blank p q c cs rest ts hc _ ih =>
    rw [spread]
    exact .blanks (hblank p) (.blank hc (ih hgaps hrest))
  | @word p q c cs rest ts l hc hl _ ih =>
    obtain ⟨hword, hgaps⟩ := List.forall_mem_cons.1 hgaps
    have hsymbols := ih hgaps hrest
    -- The word is the same in front of the spread text.
    obtain ⟨l', hl', hsymbol, -, hrest'⟩ :=
      lexeme_interrupted hl (interrupted_spread hblank _ l.rest)
    rw [← hrest'] at hsymbols
    have hfirst := hsymbols.lexeme hc hl'
    have hcons : c :: cs = c :: (l.text.tail ++ l.rest) := by
      rw [← List.cons_append, ← l.text_eq_cons, l.text_append_rest]
    have hspread : spread gaps p (c :: cs) =
        gaps p ++ c :: (l.text.tail ++ spread gaps (p + byteLength l.text) l.rest) := by
      have hinside := @spread_word gaps p l.rest c l.text.tail
      rw [← l.text_eq_cons] at hinside
      exact (congrArg (spread gaps p) hcons).trans (hinside hword)
    rw [hsymbol] at hfirst
    rw [hspread]
    exact .blanks (hblank p) hfirst

end Spread

/-! ### Formulas of spread texts -/

/-- The text with white space put in. -/
def spreadText (gaps : ℕ → List Char) (source : String) : String :=
  String.ofList (spread gaps 0 source.toList)

/-- The fault, but for where it is. Only faults of the text itself have a position. -/
def Fault.withoutPosition : Fault → Fault
  | .badSyntax _ cause => .badSyntax 0 cause
  | .unknownVariable name _ => .unknownVariable name 0
  | e => e

/-- The fault of a word that was not expected depends on its symbol alone, but for its position. -/
theorem Token.withoutPosition_unexpected {v w : Token} (h : v.symbol = w.symbol) (e : Expectation) :
    (v.unexpected e).withoutPosition = (w.unexpected e).withoutPosition := by
  unfold Token.unexpected
  rw [h]
  split <;> rfl

namespace Tokens

variable {ts us : Tokens}

/-- Words are found by their number, so the symbols say which one it is, and where they are does
not. -/
theorem symbol_wordAt (h : ts.words.map Token.symbol = us.words.map Token.symbol) (k : Halt) :
    (ts.wordAt k).symbol = (us.wordAt k).symbol := by
  have hsymbol (vs : Tokens) : (vs.wordAt k).symbol =
      ((vs.words.map Token.symbol).drop ((vs.words.map Token.symbol).length - k.left)).headD
        .stop := by
    unfold wordAt
    rw [List.length_map, ← List.map_drop]
    cases vs.words.drop (vs.words.length - k.left) with
    | nil => rfl
    | cons w rest => rfl
  rw [hsymbol, hsymbol, h]

/-- The fault at a halt is the same for equal symbols, but for its position. -/
theorem withoutPosition_faultAt (h : ts.words.map Token.symbol = us.words.map Token.symbol)
    (k : Halt) :
    (ts.faultAt k).withoutPosition = (us.faultAt k).withoutPosition := by
  have hsymbol := symbol_wordAt h k
  unfold faultAt
  cases k.obstacle with
  | nothing | unknownName name | call name | limit ceiling actual max => rfl
  | unexpected e => exact Token.withoutPosition_unexpected hsymbol e

/-- The arena depends on the symbols alone, and the fault also on where the words are. The readers
never look at positions. -/
theorem mapError_arena (h : ts.words.map Token.symbol = us.words.map Token.symbol)
    (limits : Limits) :
    (ts.arena limits).mapError Fault.withoutPosition =
      (us.arena limits).mapError Fault.withoutPosition := by
  unfold arena
  rw [h]
  cases Arena.ofSymbols limits (us.words.map Token.symbol) with
  | error k => exact congrArg Except.error (withoutPosition_faultAt h k)
  | ok a => rfl

end Tokens

/-- A text that is short enough has the arena of its words. -/
theorem Arena.parse_eq {limits : Limits} {source : String} {ts : Tokens}
    (hts : tokenize source = .ok ts) (hlen : source.utf8ByteSize ≤ limits.maxFormulaLen) :
    Arena.parse limits source = ts.arena limits := by
  unfold Arena.parse
  rw [if_neg (Nat.not_lt.2 hlen), hts]
  rfl

/-- Texts whose arenas agree have formulas that agree, because the tree is made from the arena and
nothing else. -/
theorem Formula.mapError_parse {limits : Limits} {source source' : String} {f : Fault → Fault}
    (h : (Arena.parse limits source').mapError f = (Arena.parse limits source).mapError f) :
    ((Formula.parse limits source').map Formula.tree).mapError f =
      ((Formula.parse limits source).map Formula.tree).mapError f := by
  have htree (source : String) :
    (((Formula.parse limits source).map Formula.tree).mapError f).map some =
      ((Arena.parse limits source).mapError f).map Arena.tree? := by
    rw [Except.map_mapError, Except.map_mapError, Arena.map_tree?_parse, Except.map_map]
    rfl
  refine Except.map_injective Option.some.inj ?_
  rw [htree, htree, h]

/-- A text with white space put in between its words has the same symbols and the same arena, or it
is refused with the same fault at another place. The limit on the length of a text is the only one
that white space counts for. -/
theorem Formula.parse_spread {source : String} {ts : Tokens} {gaps : ℕ → List Char}
    (hts : tokenize source = .ok ts) (hblank : Blank gaps) (hwords : KeepsWords gaps ts.words) :
    (∃ ts', tokenize (spreadText gaps source) = .ok ts' ∧
      ts'.toList.map Token.symbol = ts.toList.map Token.symbol) ∧
    ∀ limits : Limits, source.utf8ByteSize ≤ limits.maxFormulaLen →
      (spreadText gaps source).utf8ByteSize ≤ limits.maxFormulaLen →
      (Arena.parse limits (spreadText gaps source)).mapError Fault.withoutPosition =
        (Arena.parse limits source).mapError Fault.withoutPosition ∧
      ((Formula.parse limits (spreadText gaps source)).map Formula.tree).mapError
        Fault.withoutPosition =
        ((Formula.parse limits source).map Formula.tree).mapError Fault.withoutPosition := by
  obtain ⟨q, hscans⟩ := scans_of_tokenize hts
  obtain ⟨words', hscan', hsymbols⟩ := hscans.lexes_spread hblank hwords 0
  have hts' : tokenize (spreadText gaps source) = _ := tokenize_of_scan hscan'
  refine ⟨⟨_, hts', ?_⟩, fun limits hlen hlen' => ?_⟩
  · simp only [Tokens.toList, List.map_append, hsymbols, List.map_singleton]
  -- Within the limit on the length, the arenas are those of the words.
  · have harena : (Arena.parse limits (spreadText gaps source)).mapError Fault.withoutPosition =
        (Arena.parse limits source).mapError Fault.withoutPosition := by
      rw [Arena.parse_eq hts' hlen', Arena.parse_eq hts hlen]
      exact Tokens.mapError_arena hsymbols limits
    exact ⟨harena, mapError_parse harena⟩

/-- Space around the words of `x**2`, and none between its two stars, which are one word. -/
theorem Formula.parse_spread_square :
    ∃ gaps, Blank gaps ∧ spreadText gaps "x**2" = "\t x\t **\t 2\t " ∧
      Arena.parse {} "\t x\t **\t 2\t " =
        .ok ⟨#[.var .x, .literal 2, .binary .pow 0 1], 2⟩ := by
  let gaps : ℕ → List Char := fun p => if p = 2 then [] else ['\t', ' ']
  have hblank : Blank gaps := by
    intro p c hc
    by_cases hp : p = 2
    · rw [show gaps p = [] from if_pos hp] at hc
      cases hc
    · rw [show gaps p = ['\t', ' '] from if_neg hp, List.mem_pair] at hc
      rcases hc with rfl | rfl
      · decide
      · decide
  have hwords : KeepsWords gaps [⟨.name "x", 0, 1⟩, ⟨.doubleStar, 1, 3⟩, ⟨.number 2, 3, 4⟩] := by
    intro w hw p hlow hhigh
    -- The double star is the only word with a middle.
    have hp : p = 2 := by
      simp only [List.mem_cons, List.not_mem_nil, or_false] at hw
      rcases hw with rfl | rfl | rfl
      all_goals
        dsimp only at hlow hhigh
        omega
    exact if_pos hp
  have htext : spreadText gaps "x**2" = "\t x\t **\t 2\t " := by decide
  have hts : tokenize "x**2" =
      .ok ⟨[⟨.name "x", 0, 1⟩, ⟨.doubleStar, 1, 3⟩, ⟨.number 2, 3, 4⟩], 4⟩ := by decide +kernel
  have hparse :=
    ((Formula.parse_spread hts hblank hwords).2 {} (by decide) (by rw [htext]; decide)).1
  have harena : Arena.parse {} "x**2" = .ok ⟨#[.var .x, .literal 2, .binary .pow 0 1], 2⟩ := by
    decide +kernel
  rw [harena, htext] at hparse
  refine ⟨gaps, hblank, htext, ?_⟩
  cases hspread : Arena.parse {} "\t x\t **\t 2\t " with
  | error e =>
    rw [hspread] at hparse
    cases hparse
  | ok a =>
    rw [hspread] at hparse
    exact congrArg Except.ok (Except.ok.inj hparse)

end UnitPlane
