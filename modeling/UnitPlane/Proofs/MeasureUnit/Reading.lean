import UnitPlane.MeasureUnit.Expression
import UnitPlane.Proofs.Support.Except
import UnitPlane.Proofs.Text

/-!
# `UnitPlane.Proofs.MeasureUnit.Reading`: the readers of unit expressions as equations

Each reader of a unit expression returns what it has read and the rest of the text. Without the
proofs that the rest is shorter, the readers satisfy the plain recursive equations stated here. All
that is said of unit expressions elsewhere uses these equations.

An exponent is the exception to one equation for each reader: with brackets and without it is the
same fraction, so `fraction` is what both forms are reduced to before anything is proved of them.
-/

set_option autoImplicit false

namespace UnitPlane.UnitExpression

open Text

/-! ### Equations -/

/-- A product is a term and the rest of the product. -/
theorem plain_readProduct (cs : List Char) :
    Except.plain (readProduct cs) =
      Except.plain (readTerm cs) >>= fun p => Except.plain (readProductRest p.1 p.2) := by
  rw [readProduct]
  exact Except.plain_bind fun first rest h => Except.plain_bind_self fun _ _ _ => rfl

/-- The rest of a product is nothing, or a sign, a term, and more of the rest. What was read so far
is the left operand of the sign. -/
theorem plain_readProductRest (left : Factor) (cs : List Char) :
    Except.plain (readProductRest left cs) =
      match productSign? cs with
      | none => .ok (left, cs)
      | some (sign, rest) =>
        Except.plain (readTerm rest.val) >>= fun p =>
          match sign.apply left p.1 with
          | none => .error .exponentOverflow
          | some product => Except.plain (readProductRest product p.2) := by
  rw [readProductRest]
  -- The rest after the sign and the term carries a proof that it is shorter, which the recursion
  -- needs and the equation does not.
  cases productSign? cs with
  | none => rfl
  | some signed =>
    obtain ⟨sign, rest, h⟩ := signed
    refine Except.plain_bind fun right rest' h' => ?_
    dsimp only
    cases sign.apply left right with
    | none => rfl
    | some product => exact Except.plain_bind_self fun _ _ _ => rfl

/-- A term is a factor, with or without an exponent. -/
theorem plain_readTerm (cs : List Char) :
    Except.plain (readTerm cs) =
      Except.plain (readFactor cs) >>= fun p =>
        match powerSign? p.2 with
        | none => .ok p
        | some rest =>
          Except.plain (readExponent rest.val) >>= fun q =>
            match p.1.pow? q.1 with
            | none => .error .exponentOverflow
            | some power => .ok (power, q.2) := by
  rw [readTerm]
  refine Except.plain_bind fun factor rest h => ?_
  dsimp only
  -- The sign of a power is looked for behind the factor.
  cases powerSign? rest with
  | none => rfl
  | some signed =>
    obtain ⟨rest', h'⟩ := signed
    refine Except.plain_bind fun exponent rest'' h'' => ?_
    dsimp only
    cases factor.pow? exponent with
    | none => rfl
    | some power => rfl

/-- A factor is a product in brackets, a number or a name, which the next character decides. -/
theorem plain_readFactor (cs : List Char) :
    Except.plain (readFactor cs) =
      match skipBlanks cs with
      | [] => .error .unexpectedEnd
      | c :: rest =>
        if c = '(' then
          Except.plain (readProduct rest) >>= fun p =>
            match after? ')' p.2 with
            | none => .error .missingBracket
            | some rest => .ok (p.1, rest.val)
        else if isNumberChar c then
          numberFactor (c :: rest.takeWhile isNumberChar) >>= fun f =>
            .ok (f, rest.dropWhile isNumberChar)
        else if startsName c then
          nameFactor (String.ofList (c :: rest.takeWhile continuesName)) >>= fun f =>
            .ok (f, rest.dropWhile continuesName)
        else .error (.unexpectedCharacter c) := by
  rw [readFactor]
  -- The reader branches on the next character, and so does the equation.
  split
  next h =>
    simp only [h]
    rfl
  next c rest h =>
    simp only [h]
    split
    · refine Except.plain_bind fun product rest' h' => ?_
      dsimp only
      cases after? ')' rest' with
      | none => rfl
      | some closed => rfl
    split
    · dsimp only [takeClass]
      cases numberFactor (c :: rest.takeWhile isNumberChar) with
      | error e => rfl
      | ok f => rfl
    split
    · dsimp only [takeClass]
      cases nameFactor (String.ofList (c :: rest.takeWhile continuesName)) with
      | error e => rfl
      | ok f => rfl
    · rfl

/-- An integer is a sign, if there is one, and digits. It is refused without digits, if it does not
fit, and if it is beyond the bound. -/
theorem plain_readInt (cs : List Char) :
    Except.plain (readInt cs) =
      let signed := Decimal.splitSign (skipBlanks cs)
      let digits := signed.2.takeWhile Char.isDigit
      let n : Int :=
        if signed.1 then -(Decimal.natOfDigits 0 digits) else Decimal.natOfDigits 0 digits
      if digits.isEmpty || !decide (Fits32 n) then .error .notAnInteger
      else if maxUnitExponent < n.natAbs then .error (.exponentOutOfRange n)
      else .ok (n, signed.2.dropWhile Char.isDigit) := by
  unfold readInt
  dsimp only
  rw [apply_ite Except.plain, apply_ite Except.plain]
  rfl

/-- A denominator is an integer after a slash, or one where there is no slash. -/
theorem plain_readDenominator (cs : List Char) :
    Except.plain (readDenominator cs) =
      match after? '/' cs with
      | some rest => Except.plain (readInt rest.val)
      | none => .ok (1, cs) := by
  unfold readDenominator
  cases after? '/' cs with
  | none => rfl
  | some slash => exact Except.plain_bind_self fun _ _ _ => rfl

/-- The numerator, the denominator and the rest, without the proof about it. -/
def fraction (cs : List Char) : Except UnitCause (Int × Int × List Char) :=
  (readFraction cs).map fun (n, d, rest) => (n, d, rest.val)

/-- A fraction is an integer, or one integer or two in brackets. The bracket decides, so what
follows it has to be closed. -/
theorem fraction_eq (cs : List Char) :
    fraction cs =
      match after? '(' cs with
      | some rest =>
        Except.plain (readInt rest.val) >>= fun p =>
          Except.plain (readDenominator p.2) >>= fun q =>
            match after? ')' q.2 with
            | some rest => .ok (p.1, q.1, rest.val)
            | none => .error .missingExponentBracket
      | none => Except.plain (readInt cs) >>= fun p => .ok (p.1, 1, p.2) := by
  unfold fraction readFraction
  -- With a bracket there are up to three more steps, and without one there is only the integer.
  cases after? '(' cs with
  | none =>
    dsimp only
    cases readInt cs with
    | error e => rfl
    | ok p => rfl
  | some opened =>
    dsimp only
    cases readInt opened.val with
    | error e => rfl
    | ok p =>
      obtain ⟨n, rest, h⟩ := p
      simp only [Except.ok_bind, Except.plain_ok]
      cases readDenominator rest with
      | error e => rfl
      | ok q =>
        obtain ⟨d, rest', h'⟩ := q
        simp only [Except.ok_bind, Except.plain_ok]
        cases after? ')' rest' with
        | none => rfl
        | some closed => rfl

/-- An exponent is a fraction whose denominator is not zero and whose quotient fits. -/
theorem plain_readExponent (cs : List Char) :
    Except.plain (readExponent cs) =
      fraction cs >>= fun p =>
        if p.2.1 = 0 then .error .zeroDenominator
        else
          match Exponent.ofQuotient? p.1 p.2.1 with
          | some e => .ok (e, p.2.2)
          | none => .error .exponentOverflow := by
  unfold readExponent fraction
  cases readFraction cs with
  | error e => rfl
  | ok p =>
    obtain ⟨n, d, rest⟩ := p
    simp only [Except.ok_bind, Except.map]
    -- The denominator is looked at before the quotient is made.
    split
    · rfl
    cases Exponent.ofQuotient? n d with
    | none => rfl
    | some e => rfl

/-- An expression is a product with nothing but white space after it. -/
theorem read_eq (cs : List Char) :
    read cs = Except.plain (readProduct cs) >>= fun p =>
      match skipBlanks p.2 with
      | [] => .ok p.1
      | c :: _ => .error (.unexpectedCharacter c) := by
  unfold read
  cases readProduct cs with
  | error e => rfl
  | ok p =>
    obtain ⟨product, rest, h⟩ := p
    simp only [Except.ok_bind, Except.plain_ok]
    cases skipBlanks rest with
    | nil => rfl
    | cons c cs => rfl

end UnitPlane.UnitExpression
