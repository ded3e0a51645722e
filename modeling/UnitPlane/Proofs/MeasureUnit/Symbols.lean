import UnitPlane.Proofs.Decimal.Written
import UnitPlane.Proofs.MeasureUnit.Grammar
import UnitPlane.Proofs.MeasureUnit.Reading

/-!
# `UnitPlane.Proofs.MeasureUnit.Symbols`: the symbols of unit expressions, read and spelled

Signs, brackets, integers and exponents have readers of their own. For each there are two laws: what
is read is spelled as the grammar says, and what is spelled so is read, where the text after it does
not go on with it. An exponent whose integers are out of bounds is refused.

* `powerSign?_spaced`, `signs_spaced` and `signs_closed`: which sign a text starts with. The
  converses are `exists_spaced_of_powerSign?` and `exists_spaced_of_productSign?`.
* `toOption_readExponent` and `exists_exponentText`: the two laws for exponents.
-/

set_option autoImplicit false

namespace UnitPlane.UnitExpression

open Text

/-! ### White space -/

/-- A text is the white space in front and what is left without it. -/
theorem spaced_skipBlanks (cs : List Char) :
    ∃ ws, (∀ c ∈ ws, isBlank c) ∧ cs = ws ++ skipBlanks cs :=
  ⟨cs.takeWhile isBlank, List.all_eq_true.1 List.all_takeWhile,
    List.takeWhile_append_dropWhile.symm⟩

/-- White space in front of a text is skipped. -/
theorem skipBlanks_append {ws : List Char} (h : ∀ c ∈ ws, isBlank c) (cs : List Char) :
    skipBlanks (ws ++ cs) = skipBlanks cs :=
  List.dropWhile_append_of_pos h

/-- A symbol comes next after the white space in front of it. -/
theorem skipBlanks_spaced {c : Char} {symbol cs : List Char} (h : Spaced (c :: symbol) cs)
    (hc : isBlank c = false) (rest : List Char) :
    skipBlanks (cs ++ rest) = c :: (symbol ++ rest) := by
  obtain ⟨ws, hws, rfl⟩ := h
  rw [List.append_assoc, skipBlanks_append hws]
  exact skipBlanks_of_stops (stops_cons.2 hc)

/-- What comes next after white space is a symbol with the white space in front of it. -/
theorem exists_spaced_of_skipBlanks {cs symbol rest : List Char}
    (h : skipBlanks cs = symbol ++ rest) :
    ∃ us, Spaced symbol us ∧ cs = us ++ rest := by
  obtain ⟨ws, hws, hcs⟩ := spaced_skipBlanks cs
  exact ⟨ws ++ symbol, ⟨ws, hws, rfl⟩, by rw [hcs, h, List.append_assoc]⟩

/-! ### Signs and brackets -/

/-- What follows the character `c`, without the proof that it is shorter. It is there just when `c`
comes next after white space. -/
theorem map_val_after? (c : Char) (cs : List Char) :
    (after? c cs).map Subtype.val =
      match skipBlanks cs with
      | [] => none
      | d :: rest => if d = c then some rest else none := by
  unfold after? afterSkip? skipBlanks
  split
  next h =>
    simp only [h]
    rfl
  next d rest h =>
    simp only [h]
    split <;> rfl

/-- A character that was found stands in front, perhaps after white space. -/
theorem exists_spaced_of_after? {c : Char} {cs : List Char} {rest : Rest cs}
    (h : after? c cs = some rest) : ∃ us, Spaced [c] us ∧ cs = us ++ rest.val := by
  have hval := congrArg (Option.map Subtype.val) h
  rw [map_val_after?] at hval
  split at hval
  · cases hval
  next d rest' hskip =>
    split at hval
    next heq =>
      subst heq
      cases hval
      exact exists_spaced_of_skipBlanks hskip
    · cases hval

/-- A character that comes next is found. -/
theorem after?_of_skipBlanks {c : Char} {cs rest : List Char} (h : skipBlanks cs = c :: rest) :
    ∃ hlt, after? c cs = some ⟨rest, hlt⟩ := by
  have hval := map_val_after? c cs
  rw [h] at hval
  simp only [if_true] at hval
  obtain ⟨⟨found, hlt⟩, hfound, rfl : found = rest⟩ := Option.map_eq_some_iff.1 hval
  exact ⟨hlt, hfound⟩

/-- A character is found behind the white space in front of it. -/
theorem after?_spaced {c : Char} {us : List Char} (h : Spaced [c] us) (hc : isBlank c = false)
    (rest : List Char) : ∃ hlt, after? c (us ++ rest) = some ⟨rest, hlt⟩ :=
  after?_of_skipBlanks (skipBlanks_spaced h hc rest)

/-- A character that does not come next is not found. -/
theorem after?_eq_none {c : Char} {cs : List Char} (h : (skipBlanks cs).head? ≠ some c) :
    after? c cs = none := by
  have hval := map_val_after? c cs
  cases hskip : skipBlanks cs with
  | nil =>
    rw [hskip] at hval
    exact Option.map_eq_none_iff.1 hval
  | cons d rest =>
    rw [hskip] at hval h
    have hne : d ≠ c := fun heq => h (by rw [heq]; rfl)
    simp only [if_neg hne] at hval
    exact Option.map_eq_none_iff.1 hval

/-- Another symbol that comes next is not taken for a character. -/
theorem after?_spaced_ne {c d : Char} {symbol us : List Char} (h : Spaced (d :: symbol) us)
    (hd : isBlank d = false) (hne : d ≠ c) (rest : List Char) : after? c (us ++ rest) = none := by
  refine after?_eq_none ?_
  rw [skipBlanks_spaced h hd]
  simpa using hne

/-- The sign of a power is two stars or a caret. -/
theorem powerSign?_spaced {p : List Char} (h : Spaced ['*', '*'] p ∨ Spaced ['^'] p)
    (rest : List Char) :
    ∃ hlt, powerSign? (p ++ rest) = some ⟨rest, hlt⟩ := by
  unfold powerSign?
  rcases h with h | h
  · obtain ⟨hlt, hstar⟩ := after?_of_skipBlanks (skipBlanks_spaced h (by decide) rest)
    rw [hstar]
    exact ⟨Nat.lt_of_succ_lt hlt, rfl⟩
  · obtain ⟨hlt, hcaret⟩ := after?_spaced h (by decide) rest
    rw [after?_spaced_ne h (by decide) (by decide)]
    exact ⟨hlt, hcaret⟩

/-- What is taken for the sign of a power is two stars or a caret, perhaps after white space. There
is no white space between the two stars. -/
theorem exists_spaced_of_powerSign? {cs : List Char} {rest : Rest cs}
    (h : powerSign? cs = some rest) :
    ∃ p, (Spaced ['*', '*'] p ∨ Spaced ['^'] p) ∧ cs = p ++ rest.val := by
  unfold powerSign? at h
  split at h
  next stars hlt hstar =>
    cases h
    obtain ⟨us, ⟨ws, hws, rfl⟩, hcs⟩ := exists_spaced_of_after? hstar
    exact ⟨ws ++ ['*', '*'], .inl ⟨ws, hws, rfl⟩, hcs.trans (by simp)⟩
  · cases h
  · obtain ⟨us, hus, hcs⟩ := exists_spaced_of_after? h
    exact ⟨us, .inr hus, hcs⟩

/-- A closing bracket is no sign. -/
theorem signs_closed {c : List Char} (h : Spaced [')'] c) (rest : List Char) :
    powerSign? (c ++ rest) = none ∧ productSign? (c ++ rest) = none := by
  have hother {d : Char} (hd : ')' ≠ d) : after? d (c ++ rest) = none :=
    after?_spaced_ne h (by decide) hd rest
  unfold powerSign? productSign?
  rw [hother (by decide), hother (by decide), hother (by decide)]
  exact ⟨rfl, rfl⟩

/-- The sign between two terms is a slash or a star, if no second star comes after it. -/
theorem signs_spaced {sign : ProductSign} {s rest : List Char} (h : Spaced [sign.char] s)
    (hrest : Stops (· == '*') rest) :
    powerSign? (s ++ rest) = none ∧ ∃ hlt, productSign? (s ++ rest) = some (sign, ⟨rest, hlt⟩) := by
  unfold powerSign? productSign?
  -- A star might be the first half of the sign of a power, and a slash might not.
  cases sign with
  | times =>
    change Spaced ['*'] s at h
    obtain ⟨hlt, hstar⟩ := after?_spaced h (by decide) rest
    have hhead : rest.head? ≠ some '*' := fun heq => absurd (hrest '*' heq) (by decide)
    rw [hstar]
    refine ⟨?_, hlt, if_neg hhead⟩
    split
    next heq =>
      cases heq
      exact absurd rfl hhead
    next => rfl
    next heq => cases heq
  | dividedBy =>
    change Spaced ['/'] s at h
    obtain ⟨hlt, hslash⟩ := after?_spaced h (by decide) rest
    rw [after?_spaced_ne h (by decide) (by decide)]
    refine ⟨after?_spaced_ne h (by decide) (by decide) rest, hlt, ?_⟩
    dsimp only
    rw [hslash]
    rfl

/-- What is taken for a sign between terms is one, perhaps after white space. -/
theorem exists_spaced_of_productSign? {cs : List Char} {sign : ProductSign} {rest : Rest cs}
    (h : productSign? cs = some (sign, rest)) : ∃ s, Spaced [sign.char] s ∧ cs = s ++ rest.val := by
  unfold productSign? at h
  split at h
  next tail hlt hstar =>
    split at h
    · cases h
    · cases h
      exact exists_spaced_of_after? hstar
  · obtain ⟨tail, hslash, heq⟩ := Option.map_eq_some_iff.1 h
    cases heq
    exact exists_spaced_of_after? hslash

/-! ### Where symbols end -/

/-- A text that starts with a symbol, or with white space in front of one, does not go on with a
class that has neither. -/
theorem stops_spaced {p : Char → Bool} {c : Char} {symbol us : List Char}
    (h : Spaced (c :: symbol) us)
    (hc : p c = false) (hp : ∀ b, isBlank b → p b = false) (rest : List Char) :
    Stops p (us ++ rest) := by
  obtain ⟨ws, hws, rfl⟩ := h
  cases ws with
  | nil => exact stops_cons.2 hc
  | cons b ws => exact stops_cons.2 (hp b (hws b (by simp)))

/-- White space is no character of numbers. -/
theorem isNumberChar_of_isBlank (b : Char) (h : isBlank b) : isNumberChar b = false := by
  have hpoint : b ≠ '.' := by
    rintro rfl
    exact absurd h (by decide)
  simp [isNumberChar, isDigit_of_isBlank b h, hpoint]

/-! ### Integers -/

/-- An integer starts with a sign or a digit, which is neither white space nor a bracket. -/
theorem IntText.exists_cons {i : List Char} {n : Int} (h : IntText i n) :
    ∃ c cs, i = c :: cs ∧ isBlank c = false ∧ c ≠ '(' := by
  cases h with
  | unsigned h hne =>
    obtain ⟨c, cs, rfl⟩ := List.exists_cons_of_ne_nil hne
    have hc := h c (by simp)
    refine ⟨c, cs, rfl, isBlank_of_isDigit hc, ?_⟩
    rintro rfl
    exact absurd hc (by decide)
  | plus => exact ⟨_, _, rfl, by decide, by decide⟩
  | minus => exact ⟨_, _, rfl, by decide, by decide⟩

/-- Digits after an optional sign are read as their integer, if it is within the bound. The bound is
far within the integers that fit. -/
theorem toOption_readInt_digits {cs digits rest : List Char} {negative : Bool} {n : Int}
    (hsplit : Decimal.splitSign (skipBlanks cs) = (negative, digits ++ rest))
    (hdigits : ∀ c ∈ digits, c.isDigit) (hne : digits ≠ []) (hrest : Stops Char.isDigit rest)
    (hn : (if negative then -(Decimal.natOfDigits 0 digits : Int)
      else Decimal.natOfDigits 0 digits) = n) :
    (Except.plain (readInt cs)).toOption =
      if n.natAbs ≤ maxUnitExponent then some (n, rest) else none := by
  have hempty : digits.isEmpty = false := List.isEmpty_eq_false_iff.2 hne
  rw [plain_readInt, hsplit]
  simp only [takeWhile_append_of_stops hdigits hrest, dropWhile_append_of_stops hdigits hrest, hn,
    hempty, Bool.false_or]
  -- What is within the bound fits, so the two checks of the reader come to one.
  by_cases hle : n.natAbs ≤ maxUnitExponent
  · have hfits : Fits32 n := by
      have : n.natAbs ≤ 1000 := hle
      constructor <;> omega
    simp [hfits, hle, Nat.not_lt.2 hle, Except.toOption]
  · by_cases hfits : Fits32 n
    · simp [hfits, hle, Nat.not_le.1 hle, Except.toOption]
    · simp [hfits, hle, Except.toOption]

/-- An integer is read, if it is within the bound, and what follows it is left. -/
theorem toOption_readInt {i us rest : List Char} {n : Int} (hi : IntText i n) (h : Spaced i us)
    (hrest : Stops Char.isDigit rest) :
    (Except.plain (readInt (us ++ rest))).toOption =
      if n.natAbs ≤ maxUnitExponent then some (n, rest) else none := by
  obtain ⟨c, cs, hcons, hblank, -⟩ := hi.exists_cons
  have hskip : skipBlanks (us ++ rest) = i ++ rest := by
    rw [hcons] at h ⊢
    exact skipBlanks_spaced h hblank rest
  -- The three spellings of an integer differ in its sign.
  cases hi with
  | unsigned hdigits hne =>
    have hsplit : Decimal.splitSign (skipBlanks (us ++ rest)) = (false, i ++ rest) := by
      rw [hskip, hcons]
      exact splitSign_of_isDigit (hdigits c (by simp [hcons])) _
    exact toOption_readInt_digits hsplit hdigits hne hrest rfl
  | plus hdigits hne =>
    exact toOption_readInt_digits (by rw [hskip]; rfl) hdigits hne hrest rfl
  | minus hdigits hne =>
    exact toOption_readInt_digits (by rw [hskip]; rfl) hdigits hne hrest rfl

/-- A sign is the first character, if there is one. A plus counts as no sign. -/
theorem splitSign_eq {cs body : List Char} {negative : Bool}
    (h : Decimal.splitSign cs = (negative, body)) :
    (cs = body ∨ cs = '+' :: body) ∧ negative = false ∨ cs = '-' :: body ∧ negative = true := by
  unfold Decimal.splitSign at h
  split at h <;> cases h <;> simp

/-- Whatever is read as an integer is an integer, perhaps after white space. -/
theorem exists_intText {cs rest : List Char} {n : Int}
    (h : Except.plain (readInt cs) = .ok (n, rest)) :
    ∃ us i, cs = us ++ rest ∧ Spaced i us ∧ IntText i n := by
  rw [plain_readInt] at h
  dsimp only at h
  cases hsplit : Decimal.splitSign (skipBlanks cs) with
  | mk negative body =>
    rw [hsplit] at h
    dsimp only at h
    generalize hn :
      (if negative = true then -(Decimal.natOfDigits 0 (body.takeWhile Char.isDigit) : Int)
      else Decimal.natOfDigits 0 (body.takeWhile Char.isDigit)) = m at h
    split at h
    · cases h
    next hgood =>
      split at h
      · cases h
      cases h
      have hne : body.takeWhile Char.isDigit ≠ [] := by
        intro hempty
        exact hgood (by rw [hempty]; rfl)
      have hdigits : ∀ c ∈ body.takeWhile Char.isDigit, c.isDigit :=
        List.all_eq_true.1 List.all_takeWhile
      have hbody : body = body.takeWhile Char.isDigit ++ body.dropWhile Char.isDigit :=
        List.takeWhile_append_dropWhile.symm
      -- The sign and the digits make up the symbol, and the rest is what the digits leave.
      obtain ⟨i, hi, hskip⟩ : ∃ i, IntText i n ∧
          skipBlanks cs = i ++ body.dropWhile Char.isDigit := by
        rcases splitSign_eq hsplit with ⟨hcs | hcs, rfl⟩ | ⟨hcs, rfl⟩
        · rw [← hn]
          exact ⟨_, .unsigned hdigits hne, hcs.trans hbody⟩
        · rw [← hn]
          exact ⟨_, .plus hdigits hne, hcs.trans (congrArg (List.cons '+') hbody)⟩
        · rw [← hn]
          exact ⟨_, .minus hdigits hne, hcs.trans (congrArg (List.cons '-') hbody)⟩
      obtain ⟨us, hus, hcs⟩ := exists_spaced_of_skipBlanks hskip
      exact ⟨us, i, hcs, hus, hi⟩

/-! ### Exponents -/

/-- A symbol of one character comes next after the white space in front of it. -/
theorem Spaced.skipBlanks_eq {c : Char} {us : List Char} (h : Spaced [c] us)
    (hc : isBlank c = false) (rest : List Char) : skipBlanks (us ++ rest) = c :: rest :=
  skipBlanks_spaced h hc rest

/-- What follows the numerator of a fraction in brackets, up to the closing bracket. -/
def fractionRest (n : Int) (cs : List Char) : Except UnitCause (Int × Int × List Char) :=
  Except.plain (readDenominator cs) >>= fun q =>
    match after? ')' q.2 with
    | some rest => .ok (n, q.1, rest.val)
    | none => .error .missingExponentBracket

/-- Where the bracket closes at once, the denominator is one. -/
theorem fractionRest_closed {c : List Char} (hc : Spaced [')'] c) (n : Int) (rest : List Char) :
    fractionRest n (c ++ rest) = .ok (n, 1, rest) := by
  obtain ⟨hlt, hclosed⟩ := after?_spaced hc (by decide) rest
  have hnone : after? '/' (c ++ rest) = none := after?_spaced_ne hc (by decide) (by decide) rest
  rw [fractionRest, plain_readDenominator, hnone]
  dsimp only [Except.ok_bind]
  rw [hclosed]

/-- Where a slash comes first, the denominator is read, if it is within the bound. -/
theorem toOption_fractionRest {s j vs c rest : List Char} {n d : Int} (hs : Spaced ['/'] s)
    (hj : IntText j d) (hd : Spaced j vs) (hc : Spaced [')'] c) :
    (fractionRest n (s ++ (vs ++ (c ++ rest)))).toOption =
      if d.natAbs ≤ maxUnitExponent then some (n, d, rest) else none := by
  obtain ⟨hlt, hslash⟩ := after?_spaced hs (by decide) (vs ++ (c ++ rest))
  obtain ⟨hlt', hclosed⟩ := after?_spaced hc (by decide) rest
  have hint := toOption_readInt hj hd (stops_spaced hc (by decide) isDigit_of_isBlank rest)
  rw [fractionRest, plain_readDenominator, hslash]
  dsimp only
  rw [Except.toOption_bind, hint]
  split
  · dsimp only [Option.bind_eq_bind, Option.bind_some]
    rw [hclosed]
    rfl
  · rfl

/-- In brackets the numerator comes first, and what follows it does not start with a digit. -/
theorem toOption_fraction_opened {o i us tail : List Char} {n : Int} (ho : Spaced ['('] o)
    (hi : IntText i n) (hn : Spaced i us) (htail : Stops Char.isDigit tail) :
    (fraction (o ++ (us ++ tail))).toOption =
      if n.natAbs ≤ maxUnitExponent then (fractionRest n tail).toOption else none := by
  obtain ⟨hlt, hopened⟩ := after?_spaced ho (by decide) (us ++ tail)
  rw [fraction_eq, hopened]
  dsimp only
  rw [Except.toOption_bind, toOption_readInt hi hn htail]
  split <;> rfl

/-- A fraction is read, if its integers are within the bound. The three forms of an exponent are the
cases. -/
theorem toOption_fraction {us rest : List Char} {n d : Int} (h : ExponentText us n d)
    (hrest : Stops Char.isDigit rest) :
    (fraction (us ++ rest)).toOption =
      if n.natAbs ≤ maxUnitExponent ∧ d.natAbs ≤ maxUnitExponent then some (n, d, rest)
        else none := by
  have hone : Int.natAbs 1 ≤ maxUnitExponent := by decide
  -- Without a bracket, with one integer in brackets, and with two.
  cases h with
  | int hi h =>
    obtain ⟨c, cs, hcons, hblank, hopen⟩ := hi.exists_cons
    have hnone : after? '(' (us ++ rest) = none := after?_spaced_ne (hcons ▸ h) hblank hopen rest
    rw [fraction_eq, hnone]
    dsimp only
    rw [Except.toOption_bind, toOption_readInt hi h hrest]
    simp only [hone, and_true]
    split <;> rfl
  | brackets ho hi h hc =>
    have hdigit := stops_spaced hc (by decide) isDigit_of_isBlank rest
    rw [List.append_assoc, List.append_assoc, toOption_fraction_opened ho hi h hdigit,
      fractionRest_closed hc]
    simp only [hone, and_true]
    rfl
  | fraction ho hi hn hs hj hd hc =>
    have hdigit := stops_spaced hs (by decide) isDigit_of_isBlank
    simp only [List.append_assoc]
    rw [toOption_fraction_opened ho hi hn (hdigit _), toOption_fractionRest hs hj hd hc]
    rw [ite_and]

/-- An exponent is read, if its integers are within the bound and its quotient fits. -/
theorem toOption_readExponent {us rest : List Char} {n d : Int} (h : ExponentText us n d)
    (hrest : Stops Char.isDigit rest) :
    (Except.plain (readExponent (us ++ rest))).toOption =
      (Expr.power? n d).map fun p => (p, rest) := by
  rw [plain_readExponent, Except.toOption_bind, toOption_fraction h hrest]
  unfold Expr.power?
  split
  · dsimp only [Option.bind_eq_bind, Option.bind_some]
    by_cases hd : d = 0
    · subst hd
      rfl
    · rw [if_neg hd]
      cases Exponent.ofQuotient? n d <;> rfl
  · rfl

/-- Whatever is read as a fraction is an exponent. The two brackets and the slash decide of which
form it is. -/
theorem exists_exponentText_of_fraction {cs rest : List Char} {n d : Int}
    (h : fraction cs = .ok (n, d, rest)) : ∃ us, cs = us ++ rest ∧ ExponentText us n d := by
  rw [fraction_eq] at h
  -- A bracket in front means a numerator, perhaps a denominator, and a closing bracket.
  split at h
  next opened hopen =>
    obtain ⟨o, ho, hcs⟩ := exists_spaced_of_after? hopen
    obtain ⟨⟨n', rest₁⟩, hn, h⟩ := Except.bind_eq_ok.1 h
    obtain ⟨us, i, hus, hi, hin⟩ := exists_intText hn
    obtain ⟨⟨d', rest₂⟩, hd, h⟩ := Except.bind_eq_ok.1 h
    dsimp only at h hd
    split at h
    next closed hclose =>
      obtain ⟨c, hc, hcs₂⟩ := exists_spaced_of_after? hclose
      obtain ⟨tail, htail⟩ := closed
      cases h
      rw [plain_readDenominator] at hd
      split at hd
      next slash hslash =>
        obtain ⟨s, hs, hcs₁⟩ := exists_spaced_of_after? hslash
        obtain ⟨vs, j, hvs, hj, hjd⟩ := exists_intText hd
        refine ⟨_, ?_, .fraction ho hin hi hs hjd hj hc⟩
        simp only [hcs, hus, hcs₁, hvs, hcs₂, List.append_assoc]
      next =>
        cases hd
        refine ⟨_, ?_, .brackets ho hin hi hc⟩
        simp only [hcs, hus, hcs₂, List.append_assoc]
    · cases h
  next =>
    obtain ⟨⟨n', rest'⟩, hn, h⟩ := Except.bind_eq_ok.1 h
    cases h
    obtain ⟨us, i, hus, hi, hin⟩ := exists_intText hn
    exact ⟨us, hus, .int hin hi⟩

/-- Whatever is read as an exponent is one. -/
theorem exists_exponentText {cs rest : List Char} {p : Exponent}
    (h : Except.plain (readExponent cs) = .ok (p, rest)) :
    ∃ us n d, cs = us ++ rest ∧ ExponentText us n d := by
  rw [plain_readExponent] at h
  obtain ⟨⟨n, d, rest'⟩, hfraction, h⟩ := Except.bind_eq_ok.1 h
  obtain ⟨us, hus, hx⟩ := exists_exponentText_of_fraction hfraction
  dsimp only at h
  split at h
  · cases h
  split at h
  · cases h
    exact ⟨us, n, d, hus, hx⟩
  · cases h

end UnitPlane.UnitExpression
