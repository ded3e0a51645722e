import UnitPlane.Proofs.MeasureUnit.Symbols

/-!
# `UnitPlane.Proofs.MeasureUnit.Leaves`: numbers and names are read as they are spelled

The reader takes the longest row of digits and points for a number, and the longest row of letters,
digits and underscores for a name. Only then does it look at what the row stands for.

* `toOption_readFactor_number`, `toOption_readFactor_name`: a number or a name in front of a text
  that does not go on with it is read, if it stands for something.
* `exists_numberText`: a row that stands for a number is spelled like one.
-/

set_option autoImplicit false

namespace UnitPlane.UnitExpression

open Text Decimal

/-! ### Numerals -/

/-- Digits are characters of numbers. -/
theorem isNumberChar_of_isDigit {c : Char} (h : c.isDigit) : isNumberChar c := by
  simp [isNumberChar, h]

/-- A numeral has characters of numbers only, so it is taken as a whole. -/
theorem NumberText.isNumberChar {symbol : List Char} {n : Numeral} (h : NumberText symbol n) :
    ∀ c ∈ symbol, isNumberChar c := by
  intro c hc
  cases h with
  | whole hwhole => exact isNumberChar_of_isDigit (hwhole c hc)
  | point hwhole hfraction =>
    rcases List.mem_append.1 hc with hc | hc
    · exact isNumberChar_of_isDigit (hwhole c hc)
    rcases List.mem_cons.1 hc with rfl | hc
    · decide
    · exact isNumberChar_of_isDigit (hfraction c hc)

/-- A numeral is not empty. -/
theorem NumberText.exists_cons {symbol : List Char} {n : Numeral} (h : NumberText symbol n) :
    ∃ c cs, symbol = c :: cs :=
  List.exists_cons_of_ne_nil <| by
    cases h with
    | whole _ hne => exact hne
    | point => simp

/-- Digits, and perhaps a point and more digits, are split where they are joined. -/
theorem ofChars?_numberText {symbol : List Char} {n : Numeral} (h : NumberText symbol n) :
    Numeral.ofChars? symbol = some n := by
  -- At the end of the text nothing goes on with a row of digits.
  have hspan {row : List Char} (hrow : ∀ c ∈ row, c.isDigit) :
      row.span Char.isDigit = (row, []) := by
    have hspan := Numeral.span_digits hrow (stops_nil _)
    rwa [List.append_nil] at hspan
  unfold Numeral.ofChars?
  cases h with
  | whole hwhole hne =>
    rw [hspan hwhole]
    simp [splitFraction, readExponent?, hne]
  | @point whole fraction hwhole hfraction hne =>
    have hempty : (whole.isEmpty && fraction.isEmpty) = false := by
      rcases hne with hne | hne <;> simp [hne]
    have hfraction : splitFraction ('.' :: fraction) = (fraction, []) := hspan hfraction
    rw [Numeral.span_digits hwhole (stops_cons.2 (by decide))]
    dsimp only
    rw [hfraction]
    simp [hempty, readExponent?]

/-- No exponent is written with digits and points alone. It would start with a letter. -/
theorem eq_nil_of_readExponent? {cs : List Char} {e : Int} (hcs : ∀ c ∈ cs, isNumberChar c)
    (h : readExponent? cs = some e) : cs = [] ∧ e = 0 := by
  cases cs with
  | nil =>
    cases h
    exact ⟨rfl, rfl⟩
  | cons c rest =>
    have hc := hcs c (by simp)
    have hexponent : ¬ (c = 'e' ∨ c = 'E') := by
      rintro (rfl | rfl) <;> exact absurd hc (by decide)
    rw [readExponent?, if_neg hexponent] at h
    cases h

/-- A fraction is a point and the digits after it, if there is one. -/
theorem splitFraction_eq {cs fraction rest : List Char} (h : splitFraction cs = (fraction, rest)) :
    cs = '.' :: (fraction ++ rest) ∧ (∀ c ∈ fraction, c.isDigit) ∨ cs = rest ∧ fraction = [] := by
  unfold splitFraction at h
  split at h
  next after =>
    rw [List.span_eq_takeWhile_dropWhile] at h
    cases h
    exact .inl ⟨by rw [List.takeWhile_append_dropWhile], List.all_eq_true.1 List.all_takeWhile⟩
  next =>
    cases h
    exact .inr ⟨rfl, rfl⟩

/-- A row of digits and points that is split into a numeral is spelled like one. So a row with two
points, or with a point alone, is no number. -/
theorem numberText_of_ofChars? {cs : List Char} {n : Numeral} (hcs : ∀ c ∈ cs, isNumberChar c)
    (h : Numeral.ofChars? cs = some n) : NumberText cs n := by
  have hwhole : ∀ c ∈ cs.takeWhile Char.isDigit, c.isDigit := List.all_eq_true.1 List.all_takeWhile
  have hsplit : cs = cs.takeWhile Char.isDigit ++ cs.dropWhile Char.isDigit :=
    List.takeWhile_append_dropWhile.symm
  unfold Numeral.ofChars? at h
  rw [List.span_eq_takeWhile_dropWhile] at h
  generalize cs.takeWhile Char.isDigit = whole at h hwhole hsplit
  generalize cs.dropWhile Char.isDigit = tail at h hsplit
  subst hsplit
  cases hfraction : splitFraction tail with
  | mk fraction rest =>
    simp only [hfraction] at h
    split at h
    · cases h
    next hempty =>
      obtain ⟨e, he, rfl⟩ := Option.map_eq_some_iff.1 h
      -- What is left after the fraction would have to be an exponent, which has no digit or point
      -- first.
      rcases splitFraction_eq hfraction with ⟨rfl, hdigits⟩ | ⟨rfl, rfl⟩
      · obtain ⟨rfl, rfl⟩ := eq_nil_of_readExponent? (fun c hc => hcs c (by simp [hc])) he
        rw [List.append_nil]
        refine .point hwhole hdigits (Classical.byContradiction fun hne => hempty ?_)
        simpa [not_or] using hne
      · obtain ⟨rfl, rfl⟩ := eq_nil_of_readExponent? (fun c hc => hcs c (by simp [hc])) he
        rw [List.append_nil]
        refine .whole hwhole fun hne => hempty ?_
        simp [hne]

/-- A number that is spelled so counts, if it is finite and positive. -/
theorem toOption_numberFactor {symbol : List Char} {n : Numeral} (h : NumberText symbol n) :
    (numberFactor symbol).toOption = (Expr.number n).factor? := by
  obtain ⟨c, cs, rfl⟩ := h.exists_cons
  have hread : read? (c :: cs) = some n.value := by
    rw [Numeral.read?_eq_ofChars? (Bool.or_eq_true_iff.1 (h.isNumberChar c (by simp))),
      ofChars?_numberText h]
    rfl
  unfold numberFactor
  rw [hread, Expr.factor?]
  dsimp only
  split <;> rfl

/-- A row of digits and points that counts as a number is spelled like one. -/
theorem exists_numberText {c : Char} {cs : List Char} {f : Factor}
    (hcs : ∀ d ∈ c :: cs, isNumberChar d)
    (h : numberFactor (c :: cs) = .ok f) : ∃ n, NumberText (c :: cs) n := by
  unfold numberFactor at h
  rw [Numeral.read?_eq_ofChars? (Bool.or_eq_true_iff.1 (hcs c (by simp)))] at h
  cases hn : Numeral.ofChars? (c :: cs) with
  | none =>
    rw [hn] at h
    cases h
  | some n => exact ⟨n, numberText_of_ofChars? hcs hn⟩

/-! ### Names -/

/-- A name counts if it is known. -/
theorem toOption_nameFactor (name : String) :
    (nameFactor name).toOption = (Expr.name name).factor? := by
  unfold nameFactor Expr.factor?
  cases UnitTable.lookup name <;> rfl

/-- What starts a name starts neither a group in brackets nor a number, so the reader of factors
gets to the names. -/
theorem ne_bracket_of_startsName {c : Char} (h : startsName c) :
    c ≠ '(' ∧ isNumberChar c = false := by
  refine ⟨ne_of_startsName h (startsName_of_ascii (by decide)), Bool.or_eq_false_iff.2 ⟨?_, ?_⟩⟩
  · refine Bool.eq_false_iff.2 fun hdigit => ?_
    have hlt : c.toNat < 128 := Nat.lt_of_le_of_lt (Char.isDigit_iff_toNat.1 hdigit).2 (by decide)
    rw [startsName_of_ascii hlt,
      eq_of_isDigit (p := fun c => c.isAlpha || c == '_') (b := false) hdigit (by decide)] at h
    cases h
  · exact beq_eq_false_iff_ne.2 (ne_of_startsName h (startsName_of_ascii (by decide)))

/-! ### Factors without brackets -/

variable {symbol cs rest : List Char}

/-- A number is read, if it is finite and positive, and what follows it is left. -/
theorem toOption_readFactor_number {n : Numeral} (hn : NumberText symbol n) (h : Spaced symbol cs)
    (hrest : Stops isNumberChar rest) :
    (Except.plain (readFactor (cs ++ rest))).toOption =
      (Expr.number n).factor?.map fun f => (f, rest) := by
  obtain ⟨c, row, rfl⟩ := hn.exists_cons
  have hrow := hn.isNumberChar
  have hc : isNumberChar c = true := hrow c (by simp)
  have hblank : isBlank c = false := isBlank_eq_false isNumberChar_of_isBlank hc
  have hbracket : c ≠ '(' := by
    rintro rfl
    exact absurd hc (by decide)
  have hmore : ∀ d ∈ row, isNumberChar d := fun d hd => hrow d (by simp [hd])
  -- The longest row of characters of numbers is the numeral itself.
  rw [plain_readFactor, skipBlanks_spaced h hblank]
  dsimp only
  rw [if_neg hbracket, if_pos hc, takeWhile_append_of_stops hmore hrest,
    dropWhile_append_of_stops hmore hrest, Except.toOption_bind, toOption_numberFactor hn]
  cases (Expr.number n).factor? <;> rfl

/-- A name is read, if it is known, and what follows it is left. -/
theorem toOption_readFactor_name (hs : NameText symbol) (h : Spaced symbol cs)
    (hrest : Stops continuesName rest) :
    (Except.plain (readFactor (cs ++ rest))).toOption =
      (Expr.name (String.ofList symbol)).factor?.map fun f => (f, rest) := by
  cases hs with
  | @intro c row hc hmore =>
    have hblank : isBlank c = false :=
      isBlank_eq_false continuesName_of_isBlank (continuesName_of_startsName hc)
    obtain ⟨hbracket, hnumber⟩ := ne_bracket_of_startsName hc
    rw [plain_readFactor, skipBlanks_spaced h hblank]
    dsimp only
    rw [if_neg hbracket, if_neg (by simp [hnumber]), if_pos hc,
      takeWhile_append_of_stops hmore hrest, dropWhile_append_of_stops hmore hrest,
      Except.toOption_bind, toOption_nameFactor]
    cases (Expr.name (String.ofList (c :: row))).factor? <;> rfl

end UnitPlane.UnitExpression
