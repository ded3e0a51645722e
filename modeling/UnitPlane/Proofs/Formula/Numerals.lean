import UnitPlane.Proofs.Double.Rounded
import UnitPlane.Proofs.Formula.Scanning

/-!
# `UnitPlane.Proofs.Formula.Numerals`: the numbers of formulas

The lexer splits a numeral off before it is read. What it splits off has a mantissa and an exponent,
so it is a number unless the mantissa is a point alone. It has no sign, so the number is not below
zero.

* `Numeral.read?_split_eq_none_iff`: which numerals are no numbers.
* `lexeme_eq_ok`: the numbers among the words are finite and not below zero.
-/

set_option autoImplicit false

namespace UnitPlane

open Text Double Float.Model Float.Model.UnpackedFloat

/-! ### Values -/

namespace Double

variable {x : Float} {p : ℚ}

/-- A double with finite parts and no sign is the number that the parts stand for. -/
theorem toRat?_of_parts {m : ℕ} {e : ℤ} {hm : 0 < m} (h : parts x = .finite .positive m e hm) :
    toRat? x = some ((m : ℚ) * 2 ^ e) := by
  unfold toRat?
  rw [h]
  exact congrArg some (apply_mul .positive m _)

/-- A whole number of at most 53 bits is a double that is not below zero. -/
theorem exists_toRat?_toFloat {d : ℕ} (hd : d < 2 ^ 53) :
    ∃ v, toRat? d.toUInt64.toFloat = some v ∧ 0 ≤ v := by
  rcases Nat.eq_zero_or_pos d with rfl | hpos
  · exact ⟨0, toRat?_zero, le_rfl⟩
  · exact ⟨_, toRat?_of_parts (parts_toFloat hpos hd), by positivity⟩

/-- What is computed from numbers that are not below zero, and rounded, is not below zero. -/
theorem exists_place?_of_rounds {q : ℚ} (h : ∃ p, place? x = some p ∧ Rounds q p) (hq : 0 ≤ q) :
    ∃ p, place? x = some p ∧ 0 ≤ p := by
  obtain ⟨p, hp, hround⟩ := h
  exact ⟨p, hp, (hround.roundsTo hq).nonneg⟩

section Integers

variable {m m' : ℕ} {e e' : ℤ} (hm : 0 < m) (hm' : 0 < m')

/-- A product of two positive parts is rounded to a number, or to infinity, that is not below
zero. -/
theorem exists_place?_mul (hbits : 2 ^ 52 ≤ m * m') :
    ∃ p, place?
      (ofParts (UnpackedFloat.mul Format.binary64 (.finite .positive m e hm)
        (.finite .positive m' e' hm'))) = some p ∧ 0 ≤ p := by
  refine exists_place?_of_rounds (exists_rounds_roundWithAccuracy .positive (standsFor_exact _)
    (.inl hbits)) ?_
  show (0 : ℚ) ≤ _ * _
  positivity

/-- A quotient of two positive parts is rounded to a number, or to infinity, that is not below
zero. -/
theorem exists_place?_div :
    ∃ p, place?
      (ofParts (UnpackedFloat.div Format.binary64 (.finite .positive m e hm)
        (.finite .positive m' e' hm'))) = some p ∧ 0 ≤ p := by
  obtain ⟨z, hz, hvalue, hbits⟩ := standsFor_divCore m m' e e' hm hm'
  refine exists_place?_of_rounds (exists_rounds_roundWithAccuracy .positive hz hbits) ?_
  show 0 ≤ z * 2 ^ (divCore Format.binary64 m e m' e').2.1
  rw [hvalue]
  positivity

end Integers

/-- The digits are multiplied or divided by a power of ten, unless it is clear before that the
result is too large or too small. -/
theorem exists_place?_unpacked (d : ℕ) (k : ℤ) :
    ∃ p, place? (ofParts (UnpackedFloat.ofScientific Format.binary64 d k)) = some p ∧ 0 ≤ p := by
  unfold UnpackedFloat.ofScientific
  split
  next => exact ⟨0, place?_ofParts_zero _, le_rfl⟩
  next hd =>
    split
    next => exact ⟨overflow, rfl, overflow_pos.le⟩
    split
    next => exact ⟨0, place?_ofParts_zero _, le_rfl⟩
    split
    next =>
      refine exists_place?_mul _ _ ?_
      rw [Nat.shiftLeft_eq]
      calc 2 ^ 52 ≤ d * 2 ^ 53 := by omega
        _ ≤ d * 2 ^ 53 * 10 ^ k.toNat := Nat.le_mul_of_pos_right _ (Nat.pow_pos (by decide))
    next => exact exists_place?_div _ _

/-- A decimal number without a sign is not below zero, whichever way it is computed, and it is
always a number or infinite. -/
theorem exists_place?_ofScientific (d : ℕ) (negative : Bool) (k : ℕ) :
    ∃ p, place? (Float.ofScientific d negative k) = some p ∧ 0 ≤ p := by
  unfold Float.ofScientific
  split
  next hfast =>
    obtain ⟨v, hv, hnonneg⟩ := exists_toRat?_toFloat hfast.1
    have hten := toRat?_of_parts (parts_powerOfTen ⟨k, by omega⟩)
    rw [powerOfTen_eq] at hten
    dsimp only
    split
    · exact exists_place?_of_rounds (exists_rounds_div hv hten (by positivity)) (by positivity)
    · exact exists_place?_of_rounds (exists_rounds_mul hv hten) (by positivity)
  next hslow => exact exists_place?_unpacked d _

end Double

/-! ### Numerals -/

namespace Numeral

variable {c : Char} {cs : List Char} {p : Char → Bool}

/-- An exponent starts with its letter, so neither a digit nor a point is next after the
mantissa. -/
theorem stops_splitExponent (he : p 'e' = false) (hE : p 'E' = false) (cs : List Char) :
    Stops p (splitExponent cs).1 := by
  cases cs with
  | nil => exact stops_nil p
  | cons c cs =>
    by_cases h : (c = 'e' ∨ c = 'E') ∧ (splitExponentSign cs).2.takeWhile Char.isDigit ≠ []
    · rw [splitExponent_of_digits h.1 h.2]
      rcases h.1 with rfl | rfl
      · exact stops_cons.2 he
      · exact stops_cons.2 hE
    · rw [splitExponent_of_not h]
      exact stops_nil p

/-- The sign of an exponent is taken off again where the exponent is read. -/
theorem splitSign_splitExponentSign {digits : List Char} (hdigits : ∀ d ∈ digits, d.isDigit)
    (hne : digits ≠ []) (hcs : (splitExponentSign cs).2.takeWhile Char.isDigit = digits) :
    (Decimal.splitSign ((splitExponentSign cs).1 ++ digits)).2 = digits := by
  obtain ⟨d, digits, rfl⟩ := List.exists_cons_of_ne_nil hne
  have hd : d.isDigit := hdigits d List.mem_cons_self
  cases cs with
  | nil => cases hcs
  | cons c cs =>
    by_cases hplus : c = '+'
    · subst hplus
      rfl
    by_cases hminus : c = '-'
    · subst hminus
      rfl
    have hsign : splitExponentSign (c :: cs) = ([], c :: cs) := by
      simp [splitExponentSign, hplus, hminus]
    rw [hsign, List.nil_append, splitSign_of_isDigit hd]

/-- An exponent that is split off is read. It has a digit, since otherwise its letter is not taken
for an exponent. -/
theorem exists_readExponent? (cs : List Char) :
    ∃ k, Decimal.readExponent? (splitExponent cs).1 = some k := by
  cases cs with
  | nil => exact ⟨0, rfl⟩
  | cons c cs =>
    by_cases h : (c = 'e' ∨ c = 'E') ∧ (splitExponentSign cs).2.takeWhile Char.isDigit ≠ []
    · obtain ⟨hc, hne⟩ := h
      have hrow : ∀ d ∈ (splitExponentSign cs).2.takeWhile Char.isDigit, d.isDigit :=
        List.all_eq_true.1 List.all_takeWhile
      have hdigits := splitSign_splitExponentSign hrow hne rfl
      rw [splitExponent_of_digits hc hne, Decimal.readExponent?, if_pos hc]
      unfold Decimal.readInt?
      generalize (splitExponentSign cs).2.takeWhile Char.isDigit = digits at hrow hne hdigits ⊢
      generalize Decimal.splitSign ((splitExponentSign cs).1 ++ digits) = signed at hdigits ⊢
      obtain ⟨negative, unsigned⟩ := signed
      obtain rfl : unsigned = digits := hdigits
      have hgood : ¬ (unsigned.isEmpty || !unsigned.all Char.isDigit) = true := by
        simp [hne, List.all_eq_true.2 hrow]
      dsimp only
      rw [if_neg hgood]
      exact ⟨_, rfl⟩
    · rw [splitExponent_of_not h]
      exact ⟨0, rfl⟩

/-- The digits after the point, if there is one, are those that were split off with it. -/
theorem splitFraction_splitPoint {exponent : List Char} (hdigit : Stops Char.isDigit exponent)
    (hpoint : Stops (· == '.') exponent) (cs : List Char) :
    Decimal.splitFraction ((splitPoint cs).1 ++ exponent) = ((splitPoint cs).1.tail, exponent) := by
  by_cases hcs : Stops (· == '.') cs
  · rw [splitPoint_of_stops hcs, List.nil_append]
    cases exponent with
    | nil => rfl
    | cons c exponent =>
      have hc : c ≠ '.' := by simpa using hpoint
      simp [Decimal.splitFraction, hc]
  · obtain ⟨cs, rfl⟩ := exists_cons_point hcs
    exact Decimal.Numeral.span_digits (List.all_eq_true.1 List.all_takeWhile) hdigit

/-- After the digits before the point no digit is next. -/
theorem stops_splitPoint {rest : List Char} (hrest : Stops Char.isDigit rest) (cs : List Char) :
    Stops Char.isDigit ((splitPoint cs).1 ++ rest) := by
  by_cases hcs : Stops (· == '.') cs
  · rw [splitPoint_of_stops hcs]
    exact hrest
  · obtain ⟨cs, rfl⟩ := exists_cons_point hcs
    exact stops_cons.2 rfl

/-- What is split off is a numeral, if it has a digit before or after the point. The exponent is
never the reason why it is none. -/
theorem ofChars?_split_eq_none_iff (cs : List Char) :
    Decimal.Numeral.ofChars? (split cs).1 = none ↔
      cs.takeWhile Char.isDigit = [] ∧ (splitPoint (cs.dropWhile Char.isDigit)).1.tail = [] := by
  obtain ⟨u, hu⟩ : ∃ u, cs.dropWhile Char.isDigit = u := ⟨_, rfl⟩
  obtain ⟨v, hv⟩ : ∃ v, (splitPoint u).2 = v := ⟨_, rfl⟩
  have hsplit : (split cs).1 = cs.takeWhile Char.isDigit ++
      ((splitPoint u).1 ++ (splitExponent v).1) := by
    rw [← hv, ← hu, ← List.append_assoc]
    rfl
  have hdigit := stops_splitExponent (p := Char.isDigit) rfl rfl v
  have hpoint := stops_splitExponent (p := (· == '.')) rfl rfl v
  obtain ⟨k, hk⟩ := exists_readExponent? v
  rw [hsplit, hu]
  unfold Decimal.Numeral.ofChars?
  rw [Decimal.Numeral.span_digits (List.all_eq_true.1 List.all_takeWhile)
    (stops_splitPoint hdigit u)]
  dsimp only
  rw [splitFraction_splitPoint hdigit hpoint u, hk]
  simp

/-- A digit or a point is the first character of its numeral, so something is split off. -/
theorem exists_cons_split (hc : c.isDigit = true ∨ (c == '.') = true) (cs : List Char) :
    ∃ row, (split (c :: cs)).1 = c :: row := by
  unfold split
  rcases hc with hdigit | hpoint
  · rw [List.takeWhile_cons_of_pos hdigit]
    exact ⟨_, rfl⟩
  · obtain rfl := eq_of_beq hpoint
    exact ⟨_, rfl⟩

/-- What starts with a digit or a point is a number, unless it is a point without digits. The
exponent need not be small, since too large a number is infinite. -/
theorem read?_split_eq_none_iff (hc : c.isDigit = true ∨ (c == '.') = true) :
    Decimal.read? (split (c :: cs)).1 = none ↔ c = '.' ∧ Stops Char.isDigit cs := by
  obtain ⟨row, hrow⟩ := exists_cons_split hc cs
  rw [hrow, Decimal.Numeral.read?_eq_ofChars? hc, ← hrow, Option.map_eq_none_iff,
    ofChars?_split_eq_none_iff]
  rcases hc with hdigit | hpoint
  · have hne : c ≠ '.' := by
      rintro rfl
      cases hdigit
    simp [hdigit, hne]
  · obtain rfl := eq_of_beq hpoint
    show ([] = [] ∧ cs.takeWhile Char.isDigit = []) ↔ _
    exact ⟨fun h => ⟨rfl, stops_of_takeWhile h.2⟩, fun h => ⟨rfl, takeWhile_of_stops h.2⟩⟩

end Numeral

/-! ### Words -/

/-- A number that starts with a digit or a point is not below zero. It may be infinite, which the
lexer looks at itself. -/
theorem Decimal.zero_le_of_read? {c : Char} {cs : List Char} {v : Float}
    (hc : c.isDigit = true ∨ (c == '.') = true) (h : Decimal.read? (c :: cs) = some v) : 0 ≤ v := by
  rw [Numeral.read?_eq_ofChars? hc] at h
  obtain ⟨n, -, rfl⟩ := Option.map_eq_some_iff.1 h
  obtain ⟨p, hp, hnonneg⟩ :=
    exists_place?_ofScientific n.digits (decide (n.scale < 0)) n.scale.natAbs
  exact (le_iff_place_le (place?_of_toRat? toRat?_zero) hp).2 hnonneg

section Words

variable {c : Char} {cs : List Char} {symbol : Symbol} {v : Float}

/-- A numeral that becomes a word is read as a finite number. -/
theorem numberSymbol_eq_ok (h : numberSymbol cs = .ok symbol) :
    ∃ v, symbol = .number v ∧ Decimal.read? cs = some v ∧ v.isFinite = true := by
  unfold numberSymbol at h
  split at h
  · cases h
  next v hread =>
    split at h
    next hfinite =>
      cases h
      exact ⟨v, rfl, hread, hfinite⟩
    · cases h

/-- The word that starts with a digit or a point is a number, finite and not below zero. -/
theorem numberLexeme_eq_ok (hc : c.isDigit = true ∨ (c == '.') = true) {l : Lexeme (c :: cs)}
    (h : numberLexeme c cs = .ok l) : ∃ v, l.symbol = .number v ∧ v.isFinite = true ∧ 0 ≤ v := by
  obtain ⟨row, hrow⟩ := Numeral.exists_cons_split hc cs
  unfold numberLexeme at h
  split at h
  next => cases h
  next d numeral rest hsplit =>
    obtain ⟨symbol, hsymbol, h⟩ := Except.bind_eq_ok.1 h
    obtain ⟨v, rfl, hread, hfinite⟩ := numberSymbol_eq_ok hsymbol
    rw [hsplit] at hrow
    obtain ⟨rfl, -⟩ := List.cons_eq_cons.1 hrow
    cases h
    exact ⟨v, rfl, hfinite, Decimal.zero_le_of_read? hc hread⟩

/-- An operator is neither a number nor a name nor the end of the text. -/
theorem operatorSymbol?_ne {following : Option Char} {two : Bool}
    (h : operatorSymbol? c following = some (symbol, two)) :
    symbol ≠ .stop ∧ (∀ v, symbol ≠ .number v) ∧ ∀ name, symbol ≠ .name name := by
  unfold operatorSymbol? at h
  split at h
  · cases h
    exact ⟨nofun, nofun, nofun⟩
  · cases h
    exact ⟨nofun, nofun, nofun⟩
  · split at h <;> cases h <;> exact ⟨nofun, nofun, nofun⟩
  · split at h <;> cases h <;> exact ⟨nofun, nofun, nofun⟩
  · cases h
    exact ⟨nofun, nofun, nofun⟩
  · cases h
    exact ⟨nofun, nofun, nofun⟩
  · split at h
    · cases h
      exact ⟨nofun, nofun, nofun⟩
    · cases h

/-- No word is the end of the text, the numbers among the words are finite and not below zero, and
the names are what is written. -/
theorem lexeme_eq_ok {l : Lexeme (c :: cs)} (h : lexeme c cs = .ok l) :
    l.symbol ≠ .stop ∧ (∀ v, l.symbol = .number v → v.isFinite = true ∧ 0 ≤ v) ∧
      ∀ name, l.symbol = .name name → l.text = name.toList := by
  unfold lexeme at h
  split at h
  next hc =>
    obtain ⟨v, hv, hnumber⟩ := numberLexeme_eq_ok (Bool.or_eq_true_iff.1 hc) h
    rw [hv]
    refine ⟨nofun, fun w hw => ?_, nofun⟩
    cases hw
    exact hnumber
  split at h
  · cases h
    refine ⟨nofun, nofun, fun name hname => ?_⟩
    cases hname
    exact String.toList_ofList.symm
  split at h
  next l' hl =>
    cases h
    unfold operatorLexeme? at hl
    obtain ⟨⟨symbol, two⟩, hsymbol, rfl⟩ := Option.map_eq_some_iff.1 hl
    obtain ⟨hstop, hnumber, hname⟩ := operatorSymbol?_ne hsymbol
    exact ⟨hstop, fun v hv => absurd hv (hnumber v), fun name hn => absurd hn (hname name)⟩
  · cases h

/-- No word among those of a text is its end, and the numbers among them are finite and not below
zero. -/
theorem Scans.forall_word {p q : ℕ} {rest : List Char} {ts : List Token}
    (h : Scans p cs ts q rest) :
    ∀ w ∈ ts, w.symbol ≠ .stop ∧ ∀ v, w.symbol = .number v → v.isFinite = true ∧ 0 ≤ v := by
  induction h with
  | done => exact nofun
  | blank _ _ ih => exact ih
  | word _ hl _ ih =>
      exact List.forall_mem_cons.2 ⟨⟨(lexeme_eq_ok hl).1, (lexeme_eq_ok hl).2.1⟩, ih⟩

/-- The numbers among the words of a text are finite, so the literals of a formula are. -/
theorem isFinite_of_tokenize {source : String} {ts : Tokens} (h : tokenize source = .ok ts)
    {w : Token} (hw : w ∈ ts.words) (hvalue : w.symbol = .number v) : v.isFinite = true := by
  obtain ⟨q, hscans⟩ := scans_of_tokenize h
  exact ((hscans.forall_word w hw).2 v hvalue).1

end Words

end UnitPlane
