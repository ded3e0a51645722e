import UnitPlane.Proofs.Formula.Numerals

/-!
# `UnitPlane.Proofs.Formula.Tiling`: words tile their text

The words of a text stand at their bytes, one after another, and between them is white space. Each
is the only word of its own text. A text that is refused has its words up to the character where it
is refused, and from there on no word can be read.

* `Tokens.Tile`: how the words lie in the text.
* `NoWord`: why no word starts with a character.
* `tokenize_tiles`: the words of a text tile it, or no word starts where it is refused.
-/

set_option autoImplicit false

namespace UnitPlane

open Text

/-! ### Words of their own texts -/

/-- The word stands in the text at its bytes, and is the only word of what stands there. So its
symbol is what the text says at that place. -/
def Token.StandsIn (w : Token) (cs : List Char) : Prop :=
  ∃ before text after, cs = before ++ text ++ after ∧ w.start = byteLength before ∧
    w.stop = w.start + byteLength text ∧ text ≠ [] ∧
    tokenize (String.ofList text) = .ok ⟨[⟨w.symbol, 0, byteLength text⟩], byteLength text⟩

section Words

variable {c : Char} {cs rest : List Char} {p q : ℕ} {ts : List Token}

/-- A text that is scanned from the position zero has these words, and its length in bytes. -/
theorem tokenize_of_scan {cs : List Char} {ts : List Token} (h : scan 0 cs = .ok ts) :
    tokenize (String.ofList cs) = .ok ⟨ts, byteLength cs⟩ := by
  unfold tokenize
  rw [String.toList_ofList, h]
  rfl

/-- The text of a word has no other word. It is the word followed by nothing, which is an
interruption of what followed it. -/
theorem tokenize_text {l : Lexeme (c :: cs)} (hc : isBlank c = false) (hl : lexeme c cs = .ok l) :
    tokenize (String.ofList l.text) = .ok ⟨[⟨l.symbol, 0, byteLength l.text⟩],
      byteLength l.text⟩ := by
  obtain ⟨l', hl', hsymbol, htext, hrest⟩ := lexeme_interrupted hl (.stop l.rest)
  have hdone : Scans (0 + byteLength l'.text) l'.rest [] (0 + byteLength l'.text) [] := by
    rw [hrest]
    exact .done _ _
  have hscan := (Scans.word hc hl' hdone).scan_eq
  rw [scan, Nat.zero_add, hsymbol, htext, List.append_nil, ← l.text_eq_cons] at hscan
  exact tokenize_of_scan hscan

/-- Every word stands in the text, wherever the text starts. The text in front of it, `before`,
takes up what was scanned. -/
theorem Scans.standsIn (h : Scans p cs ts q rest) {before : List Char}
    (hp : byteLength before = p) :
    ∀ w ∈ ts, w.StandsIn (before ++ cs) := by
  -- The induction is on the scan. Each step moves a blank or a word to the end of the text in
  -- front.
  induction h generalizing before with
  | done => exact nofun
  | @blank p q c cs rest ts hc _ ih =>
    have happend : before ++ c :: cs = before ++ [c] ++ cs := by
      rw [List.append_assoc, List.singleton_append]
    rw [happend]
    refine ih ?_
    rw [byteLength_append, hp, byteLength_cons, byteLength_nil, Nat.add_zero]
  | @word p q c cs rest ts l hc hl _ ih =>
    have happend : before ++ c :: cs = before ++ l.text ++ l.rest := by
      rw [List.append_assoc, l.text_append_rest]
    rw [happend]
    refine List.forall_mem_cons.2 ⟨?_, ih ?_⟩
    · exact ⟨before, l.text, l.rest, rfl, hp.symm, rfl, l.text_ne_nil, tokenize_text hc hl⟩
    · rw [byteLength_append, hp]

/-! ### Words one after another -/

/-- No word starts before the text does. -/
theorem Scans.le_start (h : Scans p cs ts q rest) : ∀ w ∈ ts, p ≤ w.start := by
  induction h with
  | done => exact nofun
  | blank _ _ ih => exact fun w hw => (Nat.le_add_right _ _).trans (ih w hw)
  | word _ _ _ ih =>
    exact List.forall_mem_cons.2 ⟨le_rfl, fun w hw => (Nat.le_add_right _ _).trans (ih w hw)⟩

/-- No word starts before the one in front of it ends, since the lexer goes on where a word has
ended. -/
theorem Scans.pairwise (h : Scans p cs ts q rest) : ts.Pairwise fun v w => v.stop ≤ w.start := by
  induction h with
  | done => exact .nil
  | blank _ _ ih => exact ih
  | word _ _ h ih => exact .cons h.le_start ih

/-- A character that is no white space belongs to a word. It lies within the bytes of the word as a
whole. -/
theorem Scans.covers (h : Scans p cs ts q []) {before after : List Char}
    (hcs : cs = before ++ c :: after) (hc : isBlank c = false) :
    ∃ w ∈ ts, w.start ≤ p + byteLength before ∧ p + byteLength before + c.utf8Size ≤ w.stop := by
  obtain ⟨rest, hrest⟩ : ∃ rest : List Char, rest = [] := ⟨[], rfl⟩
  rw [← hrest] at h
  induction h generalizing before with
  | done p cs =>
    rw [hcs] at hrest
    exact absurd hrest (by simp)
  | @blank p q d cs rest ts hd _ ih =>
    cases before with
    | nil =>
      obtain ⟨rfl, -⟩ := List.cons_eq_cons.1 hcs
      rw [hd] at hc
      cases hc
    | cons b before =>
      obtain ⟨rfl, htail⟩ := List.cons_eq_cons.1 hcs
      obtain ⟨w, hw, hcovers⟩ := ih htail hrest
      refine ⟨w, hw, ?_⟩
      rwa [byteLength_cons, ← Nat.add_assoc]
  | @word p q d cs rest ts l hd hl _ ih =>
    rw [← l.text_append_rest] at hcs
    -- The word and the characters in front of this one are both beginnings of the text, so one goes
    -- on with the other.
    rcases List.append_eq_append_iff.1 hcs with ⟨front, hfront, hback⟩ | ⟨back, hfront, hback⟩
    · -- The character comes after the word.
      obtain ⟨w, hw, hcovers⟩ := ih hback hrest
      refine ⟨w, List.mem_cons_of_mem _ hw, ?_⟩
      rwa [hfront, byteLength_append, ← Nat.add_assoc]
    · cases back with
      | nil =>
        obtain ⟨w, hw, hcovers⟩ := ih (show l.rest = [] ++ c :: after from hback.symm) hrest
        refine ⟨w, List.mem_cons_of_mem _ hw, ?_⟩
        rw [List.append_nil] at hfront
        rwa [byteLength_nil, Nat.add_zero, hfront] at hcovers
      | cons b back =>
        -- The character is one of the word.
        obtain ⟨rfl, -⟩ := List.cons_eq_cons.1 hback
        refine ⟨_, List.mem_cons_self, Nat.le_add_right _ _, ?_⟩
        show p + byteLength before + c.utf8Size ≤ p + byteLength l.text
        rw [hfront, byteLength_append, byteLength_cons]
        omega

/-- Every byte belongs to a character. The characters are gone through until the byte is reached. -/
theorem exists_character {n : ℕ} (h : n < byteLength cs) :
    ∃ before c after, cs = before ++ c :: after ∧ byteLength before ≤ n ∧
      n < byteLength before + c.utf8Size := by
  induction cs generalizing n with
  | nil => exact absurd h (Nat.not_lt_zero n)
  | cons c cs ih =>
    by_cases hn : n < c.utf8Size
    · exact ⟨[], c, cs, rfl, Nat.zero_le n, by rwa [byteLength_nil, Nat.zero_add]⟩
    · rw [byteLength_cons] at h
      obtain ⟨before, d, after, rfl, hlow, hhigh⟩ := ih (n := n - c.utf8Size) (by omega)
      refine ⟨c :: before, d, after, rfl, ?_, ?_⟩
      · rw [byteLength_cons]
        omega
      · rw [byteLength_cons]
        omega

end Words

/-! ### Characters that start no word -/

/-- Why no word starts with the character in front of the text. Each reason has a cause of a syntax
error of its own. -/
inductive NoWord (c : Char) (cs : List Char) : SyntaxCause → Prop where
  /-- A point without a digit before or after it. -/
  | withoutDigits (hc : c = '.') (hcs : Stops Char.isDigit cs) :
      NoWord c cs (.badNumber (String.ofList (Numeral.split (c :: cs)).1))
  | outOfRange {v : Float} (hc : c.isDigit = true ∨ c = '.')
      (hread : Decimal.read? (Numeral.split (c :: cs)).1 = some v) (hv : v.isFinite = false) :
      NoWord c cs (.numberOutOfRange (String.ofList (Numeral.split (c :: cs)).1))
  | startsNothing (hblank : isBlank c = false) (hdigit : c.isDigit = false) (hpoint : c ≠ '.')
      (hname : startsName c = false) (hoperator : c ∉ Lexes.operatorChars)
        (hforeign : c ∉ foreignOperators) :
      NoWord c cs (.unexpectedCharacter c)

section NoWord

variable {c : Char} {cs : List Char} {cause : SyntaxCause}

/-- A numeral that is refused is a point without digits or is out of range. -/
theorem noWord_of_numberLexeme (hc : c.isDigit = true ∨ (c == '.') = true)
    (h : numberLexeme c cs = .error cause) :
    NoWord c cs cause := by
  obtain ⟨row, hrow⟩ := Numeral.exists_cons_split hc cs
  have hnone := @Numeral.read?_split_eq_none_iff c cs hc
  have hparts := parts_numberLexeme c cs
  rw [h] at hparts
  cases hsplit : Numeral.split (c :: cs) with
  | mk numeral rest =>
    rw [hsplit] at hparts hnone hrow
    obtain rfl : numeral = c :: row := hrow
    dsimp only at hparts hnone
    have hnumeral : (Numeral.split (c :: cs)).1 = c :: row := by rw [hsplit]
    -- The numeral has no value if it is a point alone, and otherwise its value is too large.
    cases hread : Decimal.read? (c :: row) with
    | none =>
      obtain ⟨hpoint, hdigits⟩ := hnone.1 hread
      unfold numberSymbol at hparts
      rw [hread] at hparts
      obtain rfl : cause = _ := Except.error.inj hparts
      rw [← hnumeral]
      exact .withoutDigits hpoint hdigits
    | some v =>
      unfold numberSymbol at hparts
      rw [hread] at hparts
      dsimp only at hparts
      split at hparts
      · cases hparts
      next hv =>
        obtain rfl : cause = _ := Except.error.inj hparts
        rw [← hnumeral] at hread ⊢
        exact .outOfRange (hc.imp_right eq_of_beq) hread (Bool.not_eq_true _ ▸ hv)

/-- What is no operator is none of the known ones, and none of the foreign ones that are known to be
unsupported. -/
theorem operatorSymbol?_eq_none {following : Option Char} (h : operatorSymbol? c following = none) :
    c ∉ Lexes.operatorChars ∧ c ∉ foreignOperators := by
  unfold operatorSymbol? at h
  split at h <;> try cases h
  next hplus hminus hstar hslash hopen hclose =>
    split at h
    · cases h
    next hforeign =>
      refine ⟨fun hmem => ?_, hforeign⟩
      simp only [Lexes.operatorChars, List.mem_cons, List.not_mem_nil, or_false] at hmem
      rcases hmem with rfl | rfl | rfl | rfl | rfl | rfl
      exacts [hplus rfl, hminus rfl, hstar rfl, hslash rfl, hopen rfl, hclose rfl]

/-- Where the lexer finds no word, there is a reason for it: all kinds of word were tried. -/
theorem noWord_of_lexeme (hblank : isBlank c = false) (h : lexeme c cs = .error cause) :
    NoWord c cs cause := by
  unfold lexeme at h
  -- The classes of characters are ruled out one by one.
  split at h
  next hc => exact noWord_of_numberLexeme (Bool.or_eq_true_iff.1 hc) h
  next hc =>
    obtain ⟨hdigit, hpoint⟩ := not_or.1 (mt Bool.or_eq_true_iff.2 hc)
    split at h
    · cases h
    next hname =>
      split at h
      · cases h
      next hnone =>
        cases h
        obtain ⟨hoperator, hforeign⟩ := operatorSymbol?_eq_none (Option.map_eq_none_iff.1 hnone)
        exact .startsNothing hblank (Bool.not_eq_true _ ▸ hdigit)
          (fun hc => hpoint (beq_iff_eq.2 hc))
          (Bool.not_eq_true _ ▸ hname) hoperator hforeign

end NoWord

/-! ### Texts -/

/-- The words lie in the text one after another, and nothing but white space lies between them. The
numbers among them are finite and not negative. -/
structure Tokens.Tile (ts : Tokens) (source : String) : Prop where
  /-- The end of the text is the last word, and no other one is. -/
  toList : ts.toList = ts.words ++ [⟨.stop, source.utf8ByteSize, source.utf8ByteSize⟩]
  ne_stop : ∀ w ∈ ts.words, w.symbol ≠ .stop
  pairwise : ts.words.Pairwise fun v w => v.stop ≤ w.start
  standsIn : ∀ w ∈ ts.words, w.StandsIn source.toList
  /-- A byte outside all words belongs to white space. -/
  gaps : ∀ n < source.utf8ByteSize, (∀ w ∈ ts.words, ¬ (w.start ≤ n ∧ n < w.stop)) →
    ∃ before c after, source.toList = before ++ c :: after ∧ byteLength before ≤ n ∧
      n < byteLength before + c.utf8Size ∧ isBlank c = true
  numbers : ∀ w ∈ ts.words, ∀ v, w.symbol = .number v → v.isFinite = true ∧ 0 ≤ v

/-- The text has its words up to a character that no word starts with, and the fault has the
position of the character. -/
def RefusedAt (source : String) (e : Fault) : Prop :=
  ∃ before c after cause, source.toList = before ++ c :: after ∧
    e = .badSyntax (byteLength before) cause ∧
    (∃ ts, tokenize (String.ofList before) = .ok ts) ∧ NoWord c after cause

/-- The length of a text in bytes is that of its characters. -/
theorem byteLength_toList (source : String) : byteLength source.toList = source.utf8ByteSize := by
  rw [byteLength, String.ofList_toList]

/-- The words that the lexer returns tile the text. Each condition is one of the lemmas on scans. -/
theorem tile_of_scan {source : String} {words : List Token} (h : scan 0 source.toList = .ok words) :
    Tokens.Tile ⟨words, source.utf8ByteSize⟩ source := by
  obtain ⟨q, hscans⟩ := scans_of_scan_eq_ok h
  refine ⟨rfl, fun w hw => (hscans.forall_word w hw).1, hscans.pairwise,
    hscans.standsIn byteLength_nil, fun n hn hout => ?_, fun w hw => (hscans.forall_word w hw).2⟩
  rw [← byteLength_toList] at hn
  obtain ⟨before, c, after, hsource, hlow, hhigh⟩ := exists_character hn
  refine ⟨before, c, after, hsource, hlow, hhigh, Bool.not_eq_false _ ▸ fun hc => ?_⟩
  obtain ⟨w, hw, hstart, hstop⟩ := hscans.covers hsource hc
  rw [Nat.zero_add] at hstart hstop
  exact hout w hw ⟨hstart.trans hlow, hhigh.trans_le hstop⟩

/-- Where the lexer refuses, the text in front has its words, and no word starts there. -/
theorem refusedAt_of_scan {source : String} {e : Fault} (h : scan 0 source.toList = .error e) :
    RefusedAt source e := by
  obtain ⟨ts, q, c, rest, cause, hscans, hblank, hl, rfl⟩ := scans_of_scan_eq_error h
  obtain ⟨before, hsource, rfl, hbefore⟩ := hscans.interrupt
  have hscan := (hbefore [] (.stop _)).scan_eq
  rw [List.append_nil, scan] at hscan
  refine ⟨before, c, rest, cause, hsource, ?_, ⟨_, tokenize_of_scan hscan⟩,
    noWord_of_lexeme hblank hl⟩
  rw [Nat.zero_add]

/-- The words of a text tile it, and a text that is refused has no word where it is refused. There
is no third outcome. -/
theorem tokenize_tiles (source : String) :
    Except.Outcome (fun ts => ts.Tile source) (RefusedAt source) (tokenize source) := by
  unfold tokenize
  cases h : scan 0 source.toList with
  | ok words => exact tile_of_scan h
  | error e => exact refusedAt_of_scan h

end UnitPlane
