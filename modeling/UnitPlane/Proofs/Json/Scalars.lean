import UnitPlane.Json.Value
import UnitPlane.Proofs.Decimal.ReadBack
import UnitPlane.Proofs.Json.Reading

/-!
# `UnitPlane.Proofs.Json.Scalars`: written numbers and strings are read

A number in a document is written as a numeral of the JSON standard: no zero in front of other
digits, and digits after every point and every exponent mark. `Numeral.WellFormed` says so, and

* `chars_eq` and `wellFormed_of_numeral?`: a finite double is written as such a numeral, `numeral?`,
  after a minus sign if it is negative.
* `plain_readUnsigned`: in front of what does not go on with it, such a numeral is read whole.
* `plain_readParts_escape`: the characters of a string between its quotes are read up to the closing
  quote, each as the part that `partOf` says.
-/

set_option autoImplicit false

namespace UnitPlane.Json

open Text
open Decimal (digitsOf leadingExponent Scientific)
open Float.Model.UnpackedFloat (Sign)
open Decimal.Numeral (goesOn)

/-! ### Numerals -/

namespace Numeral

/-- How the fraction of a numeral is written. -/
def fractionChars : Option (List Char) → List Char
  | none => []
  | some digits => '.' :: digits

/-- How the exponent of a numeral is written. -/
def exponentChars : Option (Bool × List Char) → List Char
  | none => []
  | some (negative, digits) => 'e' :: (if negative then '-' else '+') :: digits

/-- How a numeral is written, its sign left out. -/
def chars (n : Numeral) : List Char :=
  n.whole ++ (fractionChars n.fraction ++ exponentChars n.exponent)

/-- A numeral of the JSON standard: digits in front, and digits after a point and after an exponent
mark if there is one. -/
structure WellFormed (n : Numeral) : Prop where
  whole : ∀ c ∈ n.whole, c.isDigit
  whole_ne_nil : n.whole ≠ []
  /-- A zero in front stands alone. -/
  leading : n.whole.head? = some '0' → n.whole = ['0']
  fraction : ∀ ds ∈ n.fraction, ds ≠ [] ∧ ∀ c ∈ ds, c.isDigit
  exponent : ∀ p ∈ n.exponent, p.2 ≠ [] ∧ ∀ c ∈ p.2, c.isDigit

end Numeral

/-- What does not go on with a numeral does not start with a digit. -/
theorem stops_isDigit {rest : List Char} (h : Stops goesOn rest) : Stops Char.isDigit rest := by
  intro c hc
  have := h c hc
  simp only [goesOn, Bool.or_eq_false_iff] at this
  exact this.1.1.1

section Numbers

variable {ds rest : List Char} (hds : ∀ c ∈ ds, c.isDigit)

include hds

/-- A row of digits is read whole, unless it has a zero in front of other digits. -/
theorem plain_readWhole (hne : ds ≠ []) (hzero : ds.head? = some '0' → ds = ['0'])
    (hrest : Stops Char.isDigit rest) : plain (readWhole (ds ++ rest)) = some (ds, rest) := by
  cases ds with
  | nil => exact absurd rfl hne
  | cons d ds =>
    have hrow : ∀ c ∈ ds, c.isDigit := fun c hc => hds c (by simp [hc])
    have hd : d.isDigit = true := hds d (by simp)
    -- A zero stands in front of other digits in no numeral of the standard, which is what the
    -- reader checks.
    have hlead : (d == '0' && !ds.isEmpty) = false := by
      by_cases hd0 : d = '0'
      · subst hd0
        have := hzero rfl
        simp_all
      · simp [hd0]
    rw [List.cons_append, readWhole]
    simp only [takeDigits, takeClass, takeWhile_append_of_stops hrow hrest,
      dropWhile_append_of_stops hrow hrest, hd, hlead, Bool.not_true, Bool.or_self,
      Bool.false_eq_true, if_false, plain_some]

/-- A point and digits are read as a fraction. -/
theorem plain_readFraction_point (hne : ds ≠ []) (hrest : Stops Char.isDigit rest) :
    plain (readFraction ('.' :: (ds ++ rest))) = some (some ds, rest) := by
  cases ds with
  | nil => exact absurd rfl hne
  | cons d ds =>
    simp only [readFraction, takeDigits, takeClass, takeWhile_append_of_stops hds hrest,
      dropWhile_append_of_stops hds hrest, plain_some]

/-- A mark, a sign and digits are read as an exponent. The written exponent always has a sign. -/
theorem plain_readExponent_mark (hne : ds ≠ []) (hrest : Stops Char.isDigit rest)
    (negative : Bool) :
    plain (readExponent ('e' :: (if negative then '-' else '+') :: (ds ++ rest))) =
      some (some (negative, ds), rest) := by
  cases ds with
  | nil => exact absurd rfl hne
  | cons d ds =>
    have htake := takeWhile_append_of_stops hds hrest
    have hdrop := dropWhile_append_of_stops hds hrest
    have hmark : 'e' = 'e' ∨ 'e' = 'E' := .inl rfl
    cases negative with
    | true =>
      rw [if_pos rfl, readExponent, if_pos hmark]
      simp only [takeSign, takeDigits, takeClass, htake, hdrop, plain_some]
    | false =>
      rw [if_neg Bool.false_ne_true, readExponent, if_pos hmark]
      simp only [takeSign, takeDigits, takeClass, htake, hdrop, plain_some]

end Numbers

/-- Where no point stands, no fraction is read. -/
theorem plain_readFraction_none {rest : List Char} (h : rest.head? ≠ some '.') :
    plain (readFraction rest) = some (none, rest) := by
  unfold readFraction
  split
  · exact absurd rfl h
  · rfl

/-- Where no numeral goes on, no exponent is read. -/
theorem plain_readExponent_none {rest : List Char} (h : Stops goesOn rest) :
    plain (readExponent rest) = some (none, rest) := by
  cases rest with
  | nil => rfl
  | cons c rest =>
    have hc := stops_cons.1 h
    have he : ¬ (c = 'e' ∨ c = 'E') := by
      rintro (rfl | rfl) <;> exact nomatch hc
    rw [readExponent, if_neg he]
    rfl

/-- An unsigned number as three readers one after another: of its whole part, its fraction and its
exponent. -/
theorem plain_readUnsigned_eq (negative : Bool) (cs : List Char) :
    plain (readUnsigned negative cs) =
      (plain (readWhole cs)).bind fun whole =>
        (plain (readFraction whole.2)).bind fun fraction =>
          (plain (readExponent fraction.2)).map fun exponent =>
            (.number ⟨negative, whole.1, fraction.1, exponent.1⟩, exponent.2) := by
  unfold readUnsigned
  refine plain_bind fun whole rest h => ?_
  refine plain_bind fun fraction rest₁ h₁ => ?_
  exact (plain_bind fun _ _ _ => rfl).trans Option.map_eq_bind.symm

/-- A numeral of the standard is read whole. The sign is that of the reader, since a numeral is
written without one. -/
theorem plain_readUnsigned {n : Numeral} (h : n.WellFormed) {rest : List Char}
    (hrest : Stops goesOn rest) (negative : Bool) :
    plain (readUnsigned negative (n.chars ++ rest)) = some (.number { n with negative }, rest) := by
  obtain ⟨sign, whole, fraction, exponent⟩ := n
  obtain ⟨hwhole, hne, hzero, hfraction, hexponent⟩ := h
  have hdigit := stops_isDigit hrest
  simp only at hwhole hne hzero hfraction hexponent
  -- What follows the whole part starts with no digit, and what follows the fraction with no point.
  have hafter : Stops Char.isDigit (Numeral.exponentChars exponent ++ rest) ∧
      (Numeral.exponentChars exponent ++ rest).head? ≠ some '.' := by
    cases exponent with
    | none =>
      refine ⟨hdigit, fun hpoint => ?_⟩
      exact absurd (hrest '.' (Option.mem_def.2 hpoint)) (by decide)
    | some p => exact ⟨stops_cons.2 (by decide), by simp [Numeral.exponentChars]⟩
  have hfractionStops :
      Stops Char.isDigit
        (Numeral.fractionChars fraction ++ (Numeral.exponentChars exponent ++ rest)) := by
    cases fraction with
    | none => exact hafter.1
    | some ds => exact stops_cons.2 (by decide)
  have hreadFraction :
      plain (readFraction
        (Numeral.fractionChars fraction ++ (Numeral.exponentChars exponent ++ rest))) =
        some (fraction, Numeral.exponentChars exponent ++ rest) := by
    cases fraction with
    | none => exact plain_readFraction_none hafter.2
    | some ds =>
      obtain ⟨hds, hall⟩ := hfraction ds rfl
      exact plain_readFraction_point hall hds hafter.1
  have hreadExponent :
      plain (readExponent (Numeral.exponentChars exponent ++ rest)) = some (exponent, rest) := by
    cases exponent with
    | none => exact plain_readExponent_none hrest
    | some p =>
      obtain ⟨hds, hall⟩ := hexponent p rfl
      exact plain_readExponent_mark hall hds hdigit p.1
  rw [plain_readUnsigned_eq, Numeral.chars, List.append_assoc, List.append_assoc,
    plain_readWhole hwhole hne hzero hfractionStops, Option.bind_some, hreadFraction,
    Option.bind_some, hreadExponent]
  rfl

/-! ### Written numbers -/

/-- The digits of a positive number do not start with a zero. The induction takes off the last
digit, which is the way they are found. -/
theorem head?_digitsOf {n : Nat} (h : 0 < n) : (digitsOf n).head? ≠ some '0' := by
  induction n using Nat.strongRecOn with
  | ind n ih =>
    unfold digitsOf
    by_cases hn : n < 10
    · have hdigit : ∀ d < 10, 0 < d → [Nat.digitChar d].head? ≠ some '0' := by decide
      rw [Nat.toDigits_of_lt_base hn]
      exact hdigit n hn h
    · rw [Nat.toDigits_of_base_le (by decide) (by omega),
        List.head?_append_of_ne_nil _ Nat.toDigits_ne_nil]
      exact ih (n / 10) (by omega) (by omega)

/-- The digits of a number start with a zero only if that is all of them. -/
theorem leading_digitsOf (n : Nat) (h : (digitsOf n).head? = some '0') : digitsOf n = ['0'] := by
  cases n with
  | zero => rfl
  | succ n => exact absurd h (head?_digitsOf (Nat.succ_pos n))

/-- The numeral of a natural number: its digits and nothing else. -/
def naturalNumeral (n : Nat) : Numeral := ⟨false, digitsOf n, none, none⟩

/-- The numeral of a natural number is one of the standard. -/
theorem wellFormed_naturalNumeral (n : Nat) : (naturalNumeral n).WellFormed where
  whole _ hc := Decimal.isDigit_of_mem_digitsOf hc
  whole_ne_nil := Decimal.digitsOf_ne_nil n
  leading := leading_digitsOf n
  fraction := nofun
  exponent := nofun

/-- Digits with zeros after them, and a point with a zero behind it. Zero itself gets no more
zeros. -/
theorem wellFormed_wholePoint {n k : Nat} (h : 0 < n ∨ k = 0) :
    Numeral.WellFormed ⟨false, digitsOf n ++ List.replicate k '0', some ['0'], none⟩ where
  whole c hc := by
    rcases List.mem_append.1 hc with hc | hc
    · exact Decimal.isDigit_of_mem_digitsOf hc
    · exact Decimal.isDigit_of_mem_zeros hc
  whole_ne_nil := List.append_ne_nil_of_left_ne_nil (Decimal.digitsOf_ne_nil _) _
  leading hzero := by
    -- Positive digits do not start with a zero, and zero is written without any more zeros.
    rcases h with h | rfl
    · rw [List.head?_append_of_ne_nil _ (Decimal.digitsOf_ne_nil _)] at hzero
      exact absurd hzero (head?_digitsOf h)
    · rw [List.replicate_zero, List.append_nil] at hzero ⊢
      exact leading_digitsOf n hzero
  fraction := by
    rintro ds ⟨⟩
    exact ⟨List.cons_ne_nil _ _, fun c hc => Decimal.isDigit_of_mem_zeros (k := 1) hc⟩
  exponent := nofun

/-- Digits with a point among them, so that there are some on either side. -/
theorem wellFormed_innerPoint {n k : Nat} (hn : 0 < n) (hk : 0 < k)
    (hlength : k < (digitsOf n).length) :
    Numeral.WellFormed ⟨false, (digitsOf n).take k, some ((digitsOf n).drop k), none⟩ where
  whole _ hc := Decimal.isDigit_of_mem_digitsOf (List.mem_of_mem_take hc)
  whole_ne_nil := by
    refine List.ne_nil_of_length_pos ?_
    rw [List.length_take]
    omega
  leading hzero := by
    rw [List.head?_take, if_neg (by omega)] at hzero
    exact absurd hzero (head?_digitsOf hn)
  fraction := by
    rintro ds ⟨⟩
    refine ⟨List.ne_nil_of_length_pos ?_, fun c hc => Decimal.isDigit_of_mem_digitsOf
      (List.mem_of_mem_drop hc)⟩
    rw [List.length_drop]
    omega
  exponent := nofun

/-- A zero and a point with all digits after it, and zeros between the point and the digits. -/
theorem wellFormed_zeroPoint (n k : Nat) :
    Numeral.WellFormed ⟨false, ['0'], some (List.replicate k '0' ++ digitsOf n), none⟩ where
  whole _ hc := Decimal.isDigit_of_mem_zeros (k := 1) hc
  whole_ne_nil := List.cons_ne_nil _ _
  leading _ := rfl
  fraction := by
    rintro ds ⟨⟩
    refine ⟨List.append_ne_nil_of_right_ne_nil _ (Decimal.digitsOf_ne_nil _), fun c hc => ?_⟩
    rcases List.mem_append.1 hc with hc | hc
    · exact Decimal.isDigit_of_mem_zeros hc
    · exact Decimal.isDigit_of_mem_digitsOf hc
  exponent := nofun

/-- The numeral of a decimal with all its digits in place. There is always a point, with a zero
before it or after it if no digit of the decimal stands there. -/
def positionalNumeral (d : Scientific) : Numeral :=
  let digits := digitsOf d.digits
  let places := (-d.exponent).toNat
  if 0 ≤ d.exponent then
    ⟨false, digits ++ List.replicate d.exponent.toNat '0', some ['0'], none⟩
  else if places < digits.length then
    ⟨false, digits.take (digits.length - places), some (digits.drop (digits.length - places)), none⟩
  else ⟨false, ['0'], some (List.replicate (places - digits.length) '0' ++ digits), none⟩

/-- The numeral of a decimal with one digit before the point. A single digit has no point after
it. -/
def scientificNumeral (d : Scientific) : Numeral where
  negative := false
  whole := (digitsOf d.digits).take 1
  fraction :=
    match (digitsOf d.digits).drop 1 with
    | [] => none
    | more => some more
  exponent := some (decide (leadingExponent d < 0), digitsOf (leadingExponent d).natAbs)

/-- The numeral with all digits in place is what is written for the decimal. -/
theorem chars_positionalNumeral (d : Scientific) :
    (positionalNumeral d).chars = Decimal.writePositional true d := by
  unfold Decimal.writePositional positionalNumeral
  dsimp only
  split
  · simp [Numeral.chars, Numeral.fractionChars, Numeral.exponentChars]
  · split <;> simp [Numeral.chars, Numeral.fractionChars, Numeral.exponentChars]

/-- Digits in place make a numeral of the standard, unless they are zeros in front of others. The
three cases are those of the place of the point. -/
theorem wellFormed_positionalNumeral {d : Scientific} (h : 0 < d.digits ∨ d = ⟨0, 0⟩) :
    (positionalNumeral d).WellFormed := by
  unfold positionalNumeral
  dsimp only
  split
  next hexponent => exact wellFormed_wholePoint (h.imp_right fun hzero => by rw [hzero]; rfl)
  next hexponent =>
    have hpos : 0 < d.digits := by
      rcases h with h | rfl
      · exact h
      · exact absurd (Int.le_refl 0) hexponent
    split
    next hplaces => exact wellFormed_innerPoint hpos (by omega) (by omega)
    next => exact wellFormed_zeroPoint d.digits _

/-- The numeral with one digit before the point is what is written for the decimal. -/
theorem chars_scientificNumeral (d : Scientific) :
    (scientificNumeral d).chars = Decimal.writeScientific d := by
  unfold Decimal.writeScientific scientificNumeral
  cases hdigits : digitsOf d.digits with
  | nil => exact absurd hdigits (Decimal.digitsOf_ne_nil _)
  | cons c more =>
    cases more <;> simp [Numeral.chars, Numeral.fractionChars, Numeral.exponentChars]

/-- One digit before the point stands alone there, so it may be a zero. -/
theorem wellFormed_scientificNumeral (d : Scientific) : (scientificNumeral d).WellFormed where
  whole _ hc := Decimal.isDigit_of_mem_digitsOf (List.mem_of_mem_take hc)
  whole_ne_nil h := by
    rcases List.take_eq_nil_iff.1 h with h | h
    · exact nomatch h
    · exact Decimal.digitsOf_ne_nil _ h
  leading h := by
    -- The first digit alone is the whole part, so it is all of it if it is a zero.
    revert h
    simp only [scientificNumeral]
    cases digitsOf d.digits with
    | nil => exact nofun
    | cons c more => exact fun h => congrArg (· :: []) (Option.some.inj h)
  fraction ds hds := by
    simp only [scientificNumeral] at hds
    split at hds
    next => exact nomatch hds
    next more hmore =>
      obtain rfl := Option.some.inj hds
      exact ⟨hmore, fun c hc => Decimal.isDigit_of_mem_digitsOf (List.mem_of_mem_drop hc)⟩
  exponent p hp := by
    obtain rfl := Option.some.inj hp
    exact ⟨Decimal.digitsOf_ne_nil _, fun c hc => Decimal.isDigit_of_mem_digitsOf hc⟩

/-- The shortest decimal of a positive double is positive, because it is closer to the double than
zero is. -/
theorem digits_shortest_pos {tie : Decimal.Tie} {m : Nat} {e : Int} (hc : Double.Canonical m e) :
    0 < (Decimal.shortest tie m e).digits := by
  have hnearest := Double.le_of_nearest hc (Decimal.nearest_shortest tie hc.pos e)
  refine Nat.pos_of_ne_zero fun h => ?_
  rw [h, Nat.cast_zero, zero_mul] at hnearest
  exact absurd hnearest (not_le.2 (by positivity))

/-- The numeral of a positive decimal in the spelling of documents. The size of the decimal decides
between the two forms. -/
def numeralOf (d : Scientific) : Numeral :=
  if spelling.positional (leadingExponent d) then positionalNumeral d else scientificNumeral d

/-- The numeral of a decimal is what is written for it, in either form. -/
theorem chars_numeralOf (d : Scientific) :
    (numeralOf d).chars =
      if spelling.positional (leadingExponent d) then Decimal.writePositional true d
      else Decimal.writeScientific d := by
  unfold numeralOf
  split
  · exact chars_positionalNumeral d
  · exact chars_scientificNumeral d

/-- The numeral of a positive decimal is one of the standard, in either form. -/
theorem wellFormed_numeralOf {d : Scientific} (h : 0 < d.digits) : (numeralOf d).WellFormed := by
  unfold numeralOf
  split
  · exact wellFormed_positionalNumeral (.inl h)
  · exact wellFormed_scientificNumeral d

/-- The sign and the numeral of a double. What is no finite number has none, and is written as
null. -/
def numeral? (x : Float) : Option (Sign × Numeral) :=
  match Double.parts x with
  | .notANumber => none
  | .infinity _ => none
  | .zero sign => some (sign, positionalNumeral ⟨0, 0⟩)
  | .finite sign m e _ => some (sign, numeralOf (Decimal.shortest spelling.tie m e))

/-- A double is written as its numeral, after a minus sign if it is negative, or as null. -/
theorem chars_eq (x : Float) :
    spelling.chars x =
      match numeral? x with
      | none => "null".toList
      | some (sign, n) => Decimal.minus sign ++ n.chars := by
  unfold Decimal.Spelling.chars numeral?
  rw [show x.toModel.unpack = Double.parts x from rfl]
  cases Double.parts x with
  | notANumber => rfl
  | infinity sign => rfl
  | zero sign => exact congrArg (Decimal.minus sign ++ ·) (chars_positionalNumeral _).symm
  | finite sign m e hm => exact congrArg (Decimal.minus sign ++ ·) (chars_numeralOf _).symm

/-- The numeral of a finite double is one of the standard, so it is read whole. -/
theorem wellFormed_of_numeral? {x : Float} {sign : Sign} {n : Numeral}
    (h : numeral? x = some (sign, n)) : n.WellFormed := by
  have hcanonical := Double.canonicalParts_parts x
  unfold numeral? at h
  cases hparts : Double.parts x with
  | notANumber | infinity sign =>
    rw [hparts] at h
    exact nomatch h
  | zero sign =>
    rw [hparts] at h
    cases h
    exact wellFormed_positionalNumeral (.inr rfl)
  | finite sign m e hm =>
    rw [hparts] at h hcanonical
    cases h
    exact wellFormed_numeralOf (digits_shortest_pos hcanonical)

/-! ### Strings -/

/-- The parts of a string are read one by one up to the closing quote. A text that ends before it is
no string. -/
theorem plain_readParts (cs : List Char) :
    plain (readParts cs) =
      match cs with
      | [] => none
      | c :: rest =>
        if c = '"' then some ([], rest)
        else (plain (readPart (c :: rest))).bind fun p =>
          (plain (readParts p.2)).map fun q => (p.1 :: q.1, q.2) := by
  cases cs with
  | nil =>
    -- The reader is unfolded by its equation, since its recursion is on the rest of the text.
    rw [readParts.eq_def]
    rfl
  | cons c rest =>
    rw [readParts.eq_def]
    dsimp only
    split
    · rfl
    · refine plain_bind fun part rest h => ?_
      exact (plain_bind fun _ _ _ => rfl).trans Option.map_eq_bind.symm

/-- A character that needs no escape is a part of its own. -/
theorem plain_readPart_char {c : Char} (hbackslash : c ≠ '\\') (hcontrol : ¬ c.toNat < 0x20)
    (rest : List Char) : plain (readPart (c :: rest)) = some (.char c, rest) := by
  rw [readPart.eq_4 c rest (by simp_all) (by simp_all) (by simp_all), if_neg hcontrol]
  rfl

/-- The code of a control character is read as the number of the character. Its first two digits are
zeros. -/
theorem hexCode?_control {n : Nat} (h : n < 0x20) :
    hexCode? '0' '0' (Nat.digitChar (n / 16)) (Nat.digitChar (n % 16)) = some n := by
  decide +revert

/-- The part of a string that a character is written as: a control character without a letter of its
own is written as its code, and every other character stands for itself. -/
def partOf (c : Char) : StringPart :=
  if c.toNat < 0x20 ∧ c ∉ ['\n', '\r', '\t', '\x08', '\x0c'] then .code c.toNat else .char c

/-- A written character is read as its part, and it does not start with a quote, which would end the
string. -/
theorem plain_readPart_escape (c : Char) (rest : List Char) :
    (escape c ++ rest).head? ≠ some '"' ∧
      plain (readPart (escape c ++ rest)) = some (partOf c, rest) := by
  by_cases hquote : c = '"'
  · subst c
    exact ⟨by simp [escape], rfl⟩
  by_cases hbackslash : c = '\\'
  · subst c
    exact ⟨by simp [escape], rfl⟩
  -- The five control characters that have a letter.
  by_cases hletter : c ∈ ['\n', '\r', '\t', '\x08', '\x0c']
  · have hpart : partOf c = .char c := if_neg fun h => h.2 hletter
    rw [hpart]
    simp only [List.mem_cons, List.not_mem_nil, or_false] at hletter
    rcases hletter with rfl | rfl | rfl | rfl | rfl <;> exact ⟨by simp [escape], rfl⟩
  have hescape : escape c = if c.toNat < 0x20 then controlEscape c else [c] := by
    simp only [List.mem_cons, List.not_mem_nil, or_false, not_or] at hletter
    obtain ⟨hlf, hcr, htab, hbackspace, hfeed⟩ := hletter
    rw [escape, if_neg hquote, if_neg hbackslash, if_neg hlf, if_neg hcr, if_neg htab,
      if_neg hbackspace, if_neg hfeed]
  -- The other control characters are written as their codes, and what is left as it is.
  by_cases hcontrol : c.toNat < 0x20
  · rw [hescape, if_pos hcontrol, partOf, if_pos ⟨hcontrol, hletter⟩]
    refine ⟨by simp [controlEscape], ?_⟩
    simp only [controlEscape, List.cons_append, List.nil_append, readPart,
      hexCode?_control hcontrol, Option.map_some, plain_some]
  · rw [hescape, if_neg hcontrol, partOf, if_neg fun h => hcontrol h.1]
    exact ⟨by simpa using hquote, plain_readPart_char hbackslash hcontrol rest⟩

/-- The characters of a string are read up to its closing quote, each as its part. -/
theorem plain_readParts_escape (cs rest : List Char) :
    plain (readParts (cs.flatMap escape ++ '"' :: rest)) = some (cs.map partOf, rest) := by
  -- The induction is on the characters. The quote is found when they are all read.
  induction cs with
  | nil =>
    rw [plain_readParts]
    rfl
  | cons c cs ih =>
    obtain ⟨hhead, hread⟩ := plain_readPart_escape c (cs.flatMap escape ++ '"' :: rest)
    rw [List.flatMap_cons, List.append_assoc, plain_readParts]
    generalize escape c ++ (cs.flatMap escape ++ '"' :: rest) = text at hhead hread
    cases text with
    | nil => exact nomatch hread
    | cons d text =>
      have hd : d ≠ '"' := fun h => hhead (congrArg some h)
      dsimp only
      rw [if_neg hd, hread, Option.bind_some, ih]
      rfl

end UnitPlane.Json
