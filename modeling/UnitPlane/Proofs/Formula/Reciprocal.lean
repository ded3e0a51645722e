import UnitPlane.Proofs.Exponent.Opposite
import UnitPlane.Proofs.Formula.Blame
import UnitPlane.Proofs.Formula.Scanning
import UnitPlane.Proofs.Formula.RoundTrip

/-!
# `UnitPlane.Proofs.Formula.Reciprocal`: negative powers are reciprocals

For two formulas `e` and `c`, `(e)**(-(c))` and `1/((e)**(c))` are formulas too. If `c` has a
constant value, a minus in front of it gives it the opposite value, however it is read: it goes into
a number, and is a product with minus one otherwise. Opposite values are read as opposite exponents,
so the two formulas have one dimension, wherever both have one: `Formula.dimension?_reciprocal`.

That both have a dimension has to be asked for. On the way to the one, the exponents of `e` are
multiplied by the opposite fraction, and on the way to the other by the fraction itself and then
subtracted from zero. The results agree, but the numbers on the way need not fit at the same time:
the range of an exponent has one more number below zero than above.
-/

set_option autoImplicit false

namespace UnitPlane

open Double

/-! ### Dimensions -/

namespace Tree

variable {x y : Dimension} {e c : Tree}

/-- A minus in front of a tree without variables changes the sign of its value, whether it goes into
a number or is written as a product with minus one. -/
theorem constant?_negated (c : Tree) : c.negated.constant? = c.constant?.map Neg.neg := by
  cases c with
  | var v => rfl
  | literal value => rfl
  | binary op l r =>
    show (binary .mul (literal (-1)) (binary op l r)).constant? = _
    rw [← constant?_binary]
    cases (binary op l r).constant? with
    | none => rfl
    | some v => exact congrArg some (Double.neg_one_mul v)

/-- The rules give a tree one dimension. They describe a function, so what they give can be compared
with what is computed. -/
theorem HasDimension.unique {t : Tree} {d d' : Dimension} (h : t.HasDimension x y d)
    (h' : t.HasDimension x y d') : d = d' :=
  Except.ok.inj ((dimension?_eq_ok_iff.2 h).symm.trans (dimension?_eq_ok_iff.2 h'))

/-- Powers of a tree to opposite constants have opposite dimensions. This compares exponents by
their values, because it does not matter here how a fraction is stored. -/
theorem HasDimension.val_pow_negated {d d' : Dimension}
    (h : (Tree.binary .pow e c.negated).HasDimension x y d)
    (h' : (Tree.binary .pow e c).HasDimension x y d') (b : Base) :
    (d.exponent b).val = -(d'.exponent b).val := by
  cases h with
  | binary hl _ hrule =>
    cases h' with
    | binary hl' _ hrule' =>
      obtain rfl := hl.unique hl'
      have hnumber : (Dimension.dimensionless.exponent b).val = 0 := by cases b <;> rfl
      -- A pure number has a pure number as its power, whatever the exponent is. So both powers fall
      -- under the same rule.
      cases hrule with
      | powOfNumber =>
        cases hrule' with
        | powOfNumber => rw [hnumber, neg_zero]
        | pow hbase _ _ _ => exact absurd rfl hbase
      | pow hbase hv hp hpow =>
        cases hrule' with
        | powOfNumber => exact absurd rfl hbase
        | @pow _ _ v _ _ hv' hp' hpow' =>
          -- The exponents of the two powers are read from opposite values.
          rw [constant?_negated, hv'] at hv
          obtain rfl := Option.some.inj hv
          have hopposite := Exponent.map_val_ofFloat?_neg v
          rw [hp, hp'] at hopposite
          rw [Dimension.val_of_pow? hpow, Dimension.val_of_pow? hpow', Option.some.inj hopposite]
          exact mul_neg _ _

/-- A power to a negative constant has the dimension of a reciprocal. The exponents of the two have
the same values, and exponents with the same value are the same. -/
theorem HasDimension.eq_of_reciprocal {d d' : Dimension}
    (h : (Tree.binary .pow e c.negated).HasDimension x y d)
    (h' : (Tree.binary .div (.literal 1) (.binary .pow e c)).HasDimension x y d') : d = d' := by
  cases h' with
  | binary hone hpow hrule =>
    cases hone
    cases hrule with
    | div hdiv =>
      refine Dimension.ext_exponent fun b => Exponent.ext_val ?_
      have hnumber : (Dimension.dimensionless.exponent b).val = 0 := by cases b <;> rfl
      rw [h.val_pow_negated hpow b, Dimension.val_of_div? hdiv b, hnumber, zero_sub]

end Tree

/-! ### Texts -/

section Texts

variable {limits limits' : Limits} {e c : String} {f g : Formula}

/-- The words of a formula that was read, in brackets and in front of other words. The closing
bracket after the formula keeps its last word apart from what follows. -/
theorem Formula.exists_lexes_of_parse (h : Formula.parse limits e = .ok f) :
    ∃ us, Derives .expr us f.tree ∧ ∀ {rest ws}, Lexes rest ws →
      Lexes (e.toList ++ ')' :: rest) (us ++ .closeBracket :: ws) := by
  unfold Formula.parse at h
  split at h
  · cases h
  obtain ⟨ts, hts, h⟩ := Except.bind_eq_ok.1 h
  obtain ⟨tree, htree, h⟩ := Except.bind_eq_ok.1 h
  cases h
  exact ⟨_, Tokens.derives_of_parse htree, lexes_append_of_tokenize hts⟩

/-- A one in front of a slash is read as the number one. The slash ends the numeral. -/
theorem Lexes.one {rest : List Char} {ws : List Symbol} (h : Lexes ('/' :: rest) ws) :
    Lexes ('1' :: '/' :: rest) (.number 1 :: ws) := by
  have hunsigned : Unsigned 1 := .inr ⟨_, _, _, parts_one⟩
  have hchars : Decimal.plain.chars 1 = ['1'] := by decide
  have hword := h.number hunsigned (Text.stops_cons.2 (by decide))
  rwa [hchars] at hword

/-- A formula to the power of minus another one. -/
def Formula.negativePower (e c : String) : String := "(" ++ e ++ ")**(-(" ++ c ++ "))"

/-- One divided by a formula to the power of another one. -/
def Formula.reciprocalPower (e c : String) : String := "1/((" ++ e ++ ")**(" ++ c ++ "))"

/-- The power to minus a formula is read as the power to its negation. Each formula is in brackets,
so it is read just as it is alone. -/
theorem Formula.isReadFrom_negativePower (hf : Formula.parse limits e = .ok f)
    (hg : Formula.parse limits' c = .ok g) :
    Formula.IsReadFrom ⟨.binary .pow f.tree g.tree.negated, negativePower e c⟩
      (negativePower e c) := by
  obtain ⟨us, hus, hbase⟩ := Formula.exists_lexes_of_parse hf
  obtain ⟨vs, hvs, hexponent⟩ := Formula.exists_lexes_of_parse hg
  have hlexes :=
    (hbase (hexponent Lexes.nil.closeBracket).openBracket.minus.openBracket.doubleStar).openBracket
  -- The characters of the text, in the shape in which the words were put together.
  have htext : (negativePower e c).toList =
      '(' :: (e.toList ++ ')' :: '*' :: '*' :: '(' :: '-' :: '(' :: (c.toList ++ [')', ')'])) := by
    simp [negativePower]
  rw [← htext] at hlexes
  refine hlexes.exists_parse ?_
  have hminus : Derives .expr (.minus :: .openBracket :: (vs ++ [.closeBracket])) g.tree.negated :=
    (Derives.minus (hvs.brackets.toUnary (by decide))).toExpr
  have hpow := Derives.pow hus.brackets (hminus.brackets.toUnary (by decide))
  simpa using hpow.toExpr

/-- One over a power is read as a quotient. The power needs brackets here, since it is the operand
of a division. -/
theorem Formula.isReadFrom_reciprocalPower (hf : Formula.parse limits e = .ok f)
    (hg : Formula.parse limits' c = .ok g) :
    Formula.IsReadFrom ⟨.binary .div (.literal 1) (.binary .pow f.tree g.tree), reciprocalPower e c⟩
      (reciprocalPower e c) := by
  obtain ⟨us, hus, hbase⟩ := Formula.exists_lexes_of_parse hf
  obtain ⟨vs, hvs, hexponent⟩ := Formula.exists_lexes_of_parse hg
  have hlexes :=
    ((hbase (hexponent Lexes.nil.closeBracket).openBracket.doubleStar).openBracket.openBracket.slash
    (by simp)).one
  -- The characters of the text, in the shape in which the words were put together.
  have htext : (reciprocalPower e c).toList =
      '1' :: '/' :: '(' :: '(' ::
        (e.toList ++ ')' :: '*' :: '*' :: '(' :: (c.toList ++ [')', ')'])) := by
    simp [reciprocalPower]
  rw [← htext] at hlexes
  refine hlexes.exists_parse ?_
  have hpow := Derives.pow hus.brackets (hvs.brackets.toUnary (by decide))
  have hquotient := Derives.product (s := .slash) rfl ((Derives.number 1).toTerm (by decide))
    (hpow.toExpr.brackets.toUnary (by decide))
  simpa using hquotient.toExpr

/-- For formulas `e` and `c`, `(e)**(-(c))` and `1/((e)**(c))` are read under all limits that are
large enough, and where both have a dimension it is the same one. It is that of a pure number where
`c` has variables, and otherwise this is so because opposite doubles are read as opposite
exponents. -/
theorem Formula.dimension?_reciprocal (hf : Formula.parse limits e = .ok f)
    (hg : Formula.parse limits' c = .ok g) :
    Formula.IsReadFrom ⟨.binary .pow f.tree g.tree.negated, negativePower e c⟩ (negativePower e c) ∧
      Formula.IsReadFrom
        ⟨.binary .div (.literal 1) (.binary .pow f.tree g.tree), reciprocalPower e c⟩
        (reciprocalPower e c) ∧
      (∀ (l l' : Limits) (p r : Formula) (x y d d' : Dimension),
        Formula.parse l (negativePower e c) = .ok p →
        Formula.parse l' (reciprocalPower e c) = .ok r →
          p.tree.dimension? x y = .ok d → r.tree.dimension? x y = .ok d' → d = d') ∧
      ∀ v : Float, (Exponent.ofFloat? (-v)).map Exponent.val =
        (Exponent.ofFloat? v).map fun q => -q.val := by
  have hnegative := isReadFrom_negativePower hf hg
  have hreciprocal := isReadFrom_reciprocalPower hf hg
  refine ⟨hnegative, hreciprocal, ?_, Exponent.map_val_ofFloat?_neg⟩
  intro l l' p r x y d d' hp hr hd hd'
  obtain rfl := hnegative.eq_of_parse hp
  obtain rfl := hreciprocal.eq_of_parse hr
  exact (Tree.dimension?_eq_ok_iff.1 hd).eq_of_reciprocal (Tree.dimension?_eq_ok_iff.1 hd')

/-- The square root of `x*x` to the power of minus one. Its exponent is the product of minus one and
a half, and its dimension is a length to the power of minus one. -/
theorem Formula.dimension?_reciprocal_root :
    ∃ (p r : Formula) (d d' : Dimension), Formula.parse {} "(x*x)**(-(1/2))" = .ok p ∧
      Formula.parse {} "1/((x*x)**(1/2))" = .ok r ∧
      p.tree.dimension? { length := 1 } .dimensionless = .ok d ∧
      r.tree.dimension? { length := 1 } .dimensionless = .ok d' ∧ d = d' := by
  have hx : Formula.parse {} "x*x" = .ok ⟨.binary .mul (.var .x) (.var .x), "x*x"⟩ := by
    decide +kernel
  have hhalf : Formula.parse {} "1/2" = .ok ⟨.binary .div (.literal 1) (.literal 2), "1/2"⟩ := by
    decide +kernel
  -- The trees as they are read: the minus in front of a half becomes a product.
  let power : Tree := .binary .pow (.binary .mul (.var .x) (.var .x))
    (.binary .mul (.literal (-1)) (.binary .div (.literal 1) (.literal 2)))
  let quotient : Tree := .binary .div (.literal 1)
    (.binary .pow (.binary .mul (.var .x) (.var .x)) (.binary .div (.literal 1) (.literal 2)))
  have hp : Formula.parse {} (negativePower "x*x" "1/2") = .ok ⟨power, "(x*x)**(-(1/2))"⟩ := by
    decide +kernel
  have hr : Formula.parse {} (reciprocalPower "x*x" "1/2") =
      .ok ⟨quotient, "1/((x*x)**(1/2))"⟩ := by
    decide +kernel
  have hd : power.dimension? { length := 1 } .dimensionless = .ok { length := .ofInt32 (-1) } := by
    decide +kernel
  have hd' : quotient.dimension? { length := 1 } .dimensionless =
      .ok { length := .ofInt32 (-1) } := by
    decide +kernel
  obtain ⟨-, -, hsame, -⟩ := Formula.dimension?_reciprocal hx hhalf
  exact ⟨_, _, _, _, hp, hr, hd, hd', hsame _ _ _ _ _ _ _ _ hp hr hd hd'⟩

end Texts

end UnitPlane
