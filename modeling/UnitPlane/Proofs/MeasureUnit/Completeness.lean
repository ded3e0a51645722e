import UnitPlane.Proofs.MeasureUnit.Leaves

/-!
# `UnitPlane.Proofs.MeasureUnit.Completeness`: what the grammar derives is read

A text that derives an expression is read as what the expression stands for, whatever text comes
after it, as long as that does not go on with its last part. A product does not end by itself: after
it the reader goes on with the sign that comes next.

* `ExprText.readsAs`: this for every kind of text.
* `toOption_read`: a text that derives an expression as a whole is read as that expression.
-/

set_option autoImplicit false

namespace UnitPlane.UnitExpression

open Text

/-! ### What comes after a part -/

/-- What may come after a number or a name: nothing that the row of its characters would go on
with. -/
structure Ends (rest : List Char) : Prop where
  name : Stops continuesName rest
  number : Stops isNumberChar rest

/-- The end of the text may come after both. -/
theorem ends_nil : Ends [] := ⟨stops_nil _, stops_nil _⟩

/-- A symbol that is no part of a name or number may come after both, with or without white
space. -/
theorem Ends.of_spaced {c : Char} {symbol us : List Char} (h : Spaced (c :: symbol) us)
    (hname : continuesName c = false) (hnumber : isNumberChar c = false) (rest : List Char) :
    Ends (us ++ rest) :=
  ⟨stops_spaced h hname continuesName_of_isBlank rest,
    stops_spaced h hnumber isNumberChar_of_isBlank rest⟩

/-- What may come after a number does not start with a digit. -/
theorem Ends.digit {rest : List Char} (h : Ends rest) : Stops Char.isDigit rest := by
  intro c hc
  refine Bool.eq_false_iff.2 fun hdigit => ?_
  have := h.number c hc
  rw [isNumberChar_of_isDigit hdigit] at this
  cases this

variable {cs : List Char}

/-- At the end of the text there is no sign of a power. -/
theorem powerSign?_nil : powerSign? [] = none := by decide

/-- No part starts with a star. So a star in front of a part is a single one. -/
theorem ExprText.stops_star {part : Part} {e : Expr} (h : ExprText part cs e) (rest : List Char) :
    Stops (· == '*') (cs ++ rest) := by
  have hblank (b : Char) (hb : isBlank b) : (b == '*') = false := by
    refine beq_eq_false_iff_ne.2 ?_
    rintro rfl
    exact absurd hb (by decide)
  -- The induction is on the derivation, down to the first leaf of the part.
  induction h generalizing rest with
  | brackets ho =>
    rw [List.append_assoc]
    exact stops_spaced ho (by decide) hblank _
  | number hn h =>
    obtain ⟨c, row, rfl⟩ := hn.exists_cons
    have hne : c ≠ '*' := by
      rintro rfl
      exact absurd (hn.isNumberChar '*' (by simp)) (by decide)
    exact stops_spaced (p := (· == '*')) h (beq_false_of_ne hne) hblank rest
  | name hs h =>
    cases hs with
    | @intro c _ hc =>
      have hne : c ≠ '*' := ne_of_startsName hc (startsName_of_ascii (by decide))
      exact stops_spaced (p := (· == '*')) h (beq_false_of_ne hne) hblank rest
  | unraised _ ih => exact ih rest
  | single _ ih => exact ih rest
  | power _ _ _ ih =>
    rw [List.append_assoc]
    exact ih _
  | join _ _ _ _ ih =>
    rw [List.append_assoc]
    exact ih _

/-! ### Parts -/

/-- What reading a text in front of another comes to, for each kind of text. A product is not
finished where its text ends, so what follows is read as more of it. -/
def ReadsAs : Part → List Char → Expr → Prop
  | .factor, cs, e => ∀ rest, Ends rest →
    (Except.plain (readFactor (cs ++ rest))).toOption = e.factor?.map fun f => (f, rest)
  | .term, cs, e => ∀ rest, Ends rest → powerSign? rest = none →
    (Except.plain (readTerm (cs ++ rest))).toOption = e.factor?.map fun f => (f, rest)
  | .product, cs, e => ∀ rest, Ends rest → powerSign? rest = none →
    (Except.plain (readProduct (cs ++ rest))).toOption =
      e.factor? >>= fun f => (Except.plain (readProductRest f rest)).toOption

/-- A product in brackets is read as a factor, whatever follows the closing bracket. -/
theorem readsAs_brackets {o us c : List Char} {e : Expr} (ho : Spaced ['('] o)
    (h : ReadsAs .product us e) (hc : Spaced [')'] c) : ReadsAs .factor (o ++ (us ++ c)) e := by
  intro rest hrest
  -- The product inside ends at the closing bracket, which is no sign and goes on with no name or
  -- number.
  obtain ⟨hpower, hsign⟩ := signs_closed hc rest
  obtain ⟨hlt, hclosed⟩ := after?_spaced hc (by decide) rest
  have hproduct :=
    h (c ++ rest) (.of_spaced hc (continuesName_of_ascii (by decide)) (by decide) rest) hpower
  rw [List.append_assoc, List.append_assoc, plain_readFactor, ho.skipBlanks_eq (by decide)]
  dsimp only
  rw [if_pos rfl, Except.toOption_bind, hproduct]
  cases e.factor? with
  | none => rfl
  | some f =>
    dsimp only [Option.bind_eq_bind, Option.bind_some]
    rw [plain_readProductRest, hsign]
    dsimp only [Except.toOption, Option.bind_some]
    rw [hclosed]
    rfl

/-- A factor without an exponent is read as a term, if no sign of a power follows. -/
theorem readsAs_unraised {e : Expr} (h : ReadsAs .factor cs e) : ReadsAs .term cs e := by
  intro rest hrest hpower
  rw [plain_readTerm, Except.toOption_bind, h rest hrest]
  cases e.factor? with
  | none => rfl
  | some f =>
    dsimp only [Option.map_some, Option.bind_eq_bind, Option.bind_some]
    rw [hpower]
    rfl

/-- A factor with an exponent is read as a term, and may be followed by the sign of another power,
which is then left. -/
theorem readsAs_power {us p vs : List Char} {e : Expr} {n d : Int} (h : ReadsAs .factor us e)
    (hp : Spaced ['*', '*'] p ∨ Spaced ['^'] p) (hx : ExponentText vs n d) :
    ReadsAs .term (us ++ (p ++ vs)) (.power e n d) := by
  intro rest hrest _
  -- Neither sign of a power goes on with a name or a number.
  have hends : Ends (p ++ (vs ++ rest)) := by
    rcases hp with hp | hp <;> exact .of_spaced hp (continuesName_of_ascii (by decide))
      (by decide) _
  obtain ⟨hlt, hsign⟩ := powerSign?_spaced hp (vs ++ rest)
  rw [List.append_assoc, List.append_assoc, plain_readTerm, Except.toOption_bind, h _ hends]
  rw [Expr.factor?]
  cases e.factor? with
  | none => rfl
  | some f =>
    dsimp only [Option.map_some, Option.bind_eq_bind, Option.bind_some]
    rw [hsign]
    dsimp only
    rw [Except.toOption_bind, toOption_readExponent hx hrest.digit]
    cases Expr.power? n d with
    | none => rfl
    | some q =>
      dsimp only [Option.map_some, Option.bind_eq_bind, Option.bind_some]
      cases f.pow? q <;> rfl

/-- A term is read as a product of one term. -/
theorem readsAs_single {e : Expr} (h : ReadsAs .term cs e) : ReadsAs .product cs e := by
  intro rest hrest hpower
  rw [plain_readProduct, Except.toOption_bind, h rest hrest hpower]
  cases e.factor? <;> rfl

/-- A product with one more term is read, with this term joined to it before what follows. -/
theorem readsAs_join {us s vs : List Char} {l r : Expr} {sign : ProductSign}
    (hl : ReadsAs .product us l)
    (hs : Spaced [sign.char] s) (hstar : ∀ rest, Stops (· == '*') (vs ++ rest))
    (hr : ReadsAs .term vs r) : ReadsAs .product (us ++ (s ++ vs)) (.join sign l r) := by
  intro rest hrest hpower
  -- A single star is the sign of a product only because the term after it does not start with
  -- another.
  obtain ⟨hpower', hlt, hsign⟩ := signs_spaced hs (hstar rest)
  have hends : Ends (s ++ (vs ++ rest)) := by
    cases sign <;> exact .of_spaced hs (continuesName_of_ascii (by decide)) (by decide) _
  rw [List.append_assoc, List.append_assoc, hl _ hends hpower', Expr.factor?]
  cases l.factor? with
  | none => rfl
  | some f =>
    dsimp only [Option.bind_eq_bind, Option.bind_some]
    rw [plain_readProductRest, hsign]
    dsimp only
    rw [Except.toOption_bind, hr rest hrest hpower]
    -- The product with this term is on the left of what comes next.
    cases r.factor? with
    | none => rfl
    | some g =>
      dsimp only [Option.map_some, Option.bind_eq_bind, Option.bind_some]
      cases sign.apply f g <;> rfl

/-- A text that derives an expression is read as what the expression stands for. The induction is on
the derivation, with a lemma for each alternative. -/
theorem ExprText.readsAs {part : Part} {e : Expr} (h : ExprText part cs e) : ReadsAs part cs e := by
  induction h with
  | brackets ho _ hc ih => exact readsAs_brackets ho ih hc
  | number hn h => exact fun rest hrest => toOption_readFactor_number hn h hrest.number
  | name hs h => exact fun rest hrest => toOption_readFactor_name hs h hrest.name
  | unraised _ ih => exact readsAs_unraised ih
  | power _ hp hx ih => exact readsAs_power ih hp hx
  | single _ ih => exact readsAs_single ih
  | join sign _ hs hr ihl ihr => exact readsAs_join ihl hs hr.stops_star ihr

/-- A text that derives an expression as a whole is read as that expression. Nothing follows it, so
there is nothing for the product to go on with. -/
theorem toOption_read {e : Expr} (h : ExprText .product cs e) : (read cs).toOption = e.factor? := by
  have hproduct := h.readsAs [] ends_nil powerSign?_nil
  rw [List.append_nil] at hproduct
  rw [read_eq, Except.toOption_bind, hproduct]
  cases e.factor? with
  | none => rfl
  | some f =>
    dsimp only [Option.bind_eq_bind, Option.bind_some]
    rw [plain_readProductRest]
    rfl

end UnitPlane.UnitExpression
