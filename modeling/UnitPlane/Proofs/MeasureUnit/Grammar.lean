import UnitPlane.MeasureUnit.Expression
import UnitPlane.Proofs.Dimension

/-!
# `UnitPlane.Proofs.MeasureUnit.Grammar`: what unit expressions are and stand for

```text
product  := term (('*' | '/') term)*
term     := factor (('**' | '^') exponent)?
factor   := '(' product ')' | NUMBER | NAME
exponent := INT | '(' INT ('/' INT)? ')'
```

`ExprText` relates texts to the expressions that they derive, apart from any reader. Every symbol
may have white space in front of it. What an expression stands for is said in two ways:

* `Expr.factor?` is what the parts of the expression amount to, step by step, if all steps succeed.
* `Expr.Admissible` and `Expr.dimension?` say separately when they do, and `Expr.exponent` and
  `Expr.scale` are the exact exponents and the scale.

`Expr.factor?_eq_some_iff` and `Expr.val_exponent_of_dimension?` compare the two.
`UnitTable.exists_lookup_iff` says which names are known.
-/

set_option autoImplicit false

namespace UnitPlane

/-! ### Names -/

namespace UnitTable

/-- A text is one of the names in the table. A row of the table may have several names for one
unit. -/
def Lists (s : String) : Prop := ∃ row ∈ rows, s ∈ row.1

/-- A text is the plural of a name in the table, which takes at least three bytes. -/
def ListsPlural (s : String) : Prop := ∃ stem, s = stem ++ "s" ∧ 3 ≤ stem.utf8ByteSize ∧ Lists stem

/-- A name is found just when it is in the table. -/
theorem exists_find?_iff {s : String} : (∃ f, find? s = some f) ↔ Lists s := by
  unfold find? Lists
  constructor
  · rintro ⟨f, hf⟩
    obtain ⟨row, hrow, -⟩ := Option.map_eq_some_iff.1 hf
    have hcontains := List.find?_some (p := fun row : List String × Factor => row.1.contains s) hrow
    exact ⟨row, List.mem_of_find?_eq_some hrow, List.contains_iff_mem.1 hcontains⟩
  · rintro ⟨row, hmem, hs⟩
    have hsome : (rows.find? fun row => row.1.contains s).isSome :=
      List.find?_isSome.2 ⟨row, hmem, List.contains_iff_mem.2 hs⟩
    obtain ⟨found, hfound⟩ := Option.isSome_iff_exists.1 hsome
    exact ⟨found.2, by rw [hfound]; rfl⟩

/-- A text is taken for a plural just when it ends in an s after at least three bytes. -/
theorem singular?_eq_some_iff {s stem : String} :
    singular? s = some stem ↔ s = stem ++ "s" ∧ 3 ≤ stem.utf8ByteSize := by
  unfold singular?
  -- The text is taken apart from its end, so it is looked at in reverse.
  constructor
  · intro h
    split at h
    next reversed hreverse =>
      dsimp only at h
      split at h
      · cases h
      next hlong =>
        cases h
        refine ⟨?_, Nat.not_lt.1 hlong⟩
        rw [← String.toList_inj, String.toList_append, String.toList_ofList,
          ← List.reverse_inj, hreverse]
        simp
    · cases h
  · rintro ⟨rfl, hlong⟩
    have hreverse : (stem ++ "s").toList.reverse = 's' :: stem.toList.reverse := by
      rw [String.toList_append, List.reverse_append]
      rfl
    simp only [hreverse, List.reverse_reverse, String.ofList_toList]
    exact if_neg (Nat.not_lt.2 hlong)

/-- A name stands for a unit if it is in the table directly or as a plural. The table is looked at
first, so a name in it is no plural. -/
theorem exists_lookup_iff {s : String} : (∃ f, lookup s = some f) ↔ Lists s ∨ ListsPlural s := by
  unfold lookup ListsPlural
  rw [← exists_find?_iff]
  cases find? s with
  | some f => simp
  | none =>
    simp only [Option.none_or, Option.bind_eq_some_iff, singular?_eq_some_iff, reduceCtorEq,
      exists_false, false_or]
    constructor
    · rintro ⟨f, stem, ⟨hs, hlong⟩, hf⟩
      exact ⟨stem, hs, hlong, exists_find?_iff.1 ⟨f, hf⟩⟩
    · rintro ⟨stem, hs, hlong, hlists⟩
      obtain ⟨f, hf⟩ := exists_find?_iff.2 hlists
      exact ⟨f, stem, ⟨hs, hlong⟩, hf⟩

end UnitTable
namespace UnitExpression

open Text

/-! ### Expressions -/

/-- A unit expression without its brackets and white space. A power has an exponent of two
integers. -/
inductive Expr where
  | number (n : Decimal.Numeral)
  | name (s : String)
  | power (base : Expr) (n d : Int)
  | join (sign : ProductSign) (l r : Expr)

namespace Expr

/-- Every number is finite and positive, every name is in the table directly or as a plural, and the
integers in exponents are within their bound, with no denominator zero. -/
def Admissible : Expr → Prop
  | number n => n.value.isFinite = true ∧ 0 < n.value
  | name s => UnitTable.Lists s ∨ UnitTable.ListsPlural s
  | power base n d =>
    base.Admissible ∧ n.natAbs ≤ maxUnitExponent ∧ d.natAbs ≤ maxUnitExponent ∧ d ≠ 0
  | join _ l r => l.Admissible ∧ r.Admissible

/-- The dimension, if no exponent on the way overflows. Numbers have none of their own. -/
def dimension? : Expr → Option Dimension
  | number _ => some .dimensionless
  | name s => (UnitTable.lookup s).map Factor.dimension
  | power base n d => do (← base.dimension?).pow? (← Exponent.ofQuotient? n d)
  | join .times l r => do (← l.dimension?).mul? (← r.dimension?)
  | join .dividedBy l r => do (← l.dimension?).div? (← r.dimension?)

/-- The exponent of a base quantity: sums for products, differences for quotients and multiples for
powers. This is the exact value, which does not overflow. -/
def exponent (b : Base) : Expr → ℚ
  | number _ => 0
  | name s => ((UnitTable.lookup s).map fun f => (f.dimension.exponent b).val).getD 0
  | power base n d => base.exponent b * (n / d)
  | join .times l r => l.exponent b + r.exponent b
  | join .dividedBy l r => l.exponent b - r.exponent b

/-- A scale to a rational power: an integer power by repeated squaring, and any other by the power
function. -/
def powerScale (scale : Float) (q : ℚ) : Float :=
  if q.den = 1 then Factor.powInt scale q.num
  else realPower scale (Float.ofInt q.num / Float.ofNat q.den)

/-- The scale, from the scales of the names and the numbers. -/
def scale : Expr → Float
  | number n => n.value
  | name s => ((UnitTable.lookup s).map Factor.scale).getD 0
  | power base n d => powerScale base.scale (n / d)
  | join .times l r => l.scale * r.scale
  | join .dividedBy l r => l.scale / r.scale

/-- The exponent of a power, if its integers are within the bound. -/
def power? (n d : Int) : Option Exponent :=
  if n.natAbs ≤ maxUnitExponent ∧ d.natAbs ≤ maxUnitExponent then Exponent.ofQuotient? n d else none

/-- What the parts amount to, step by step. -/
def factor? : Expr → Option Factor
  | number n =>
    if n.value.isFinite && decide (0 < n.value) then some (.ofNumber n.value) else none
  | name s => UnitTable.lookup s
  | power base n d => do (← base.factor?).pow? (← power? n d)
  | join sign l r => do sign.apply (← l.factor?) (← r.factor?)

end Expr

/-! ### What expressions stand for -/

/-- A quotient that fits is the fraction of its integers, and its denominator is not zero. -/
theorem val_of_ofQuotient? {n d : Int} {p : Exponent} (h : Exponent.ofQuotient? n d = some p) :
    d ≠ 0 ∧ p.val = n / d := by
  unfold Exponent.ofQuotient? at h
  dsimp only at h
  split at h
  next hfits =>
    have hd := hfits.1
    cases h
    exact ⟨hd, Rat.divInt_eq_div n d⟩
  · cases h

namespace Expr

/-- The scale of a power depends on the value of the exponent alone. -/
theorem powScale_eq {p : Exponent} {q : ℚ} (h : p.val = q) (scale : Float) :
    Factor.powScale scale p = powerScale scale q := by
  subst h
  rfl

/-- Where the dimension does not overflow, its exponents are the exact ones. -/
theorem val_exponent_of_dimension? {e : Expr} {d : Dimension} (h : e.dimension? = some d)
    (b : Base) :
    (d.exponent b).val = e.exponent b := by
  -- The induction is on the expression. Each operation on dimensions does to the values what its
  -- name says.
  induction e generalizing d with
  | number n =>
    cases h
    cases b <;> exact Exponent.val_zero
  | name s =>
    obtain ⟨f, hf, rfl⟩ := Option.map_eq_some_iff.1 h
    simp only [exponent, hf, Option.map_some, Option.getD_some]
  | power base n m ih =>
    obtain ⟨l, hl, h⟩ := Option.bind_eq_some_iff.1 h
    obtain ⟨p, hp, h⟩ := Option.bind_eq_some_iff.1 h
    rw [Dimension.val_of_pow? h, ih hl, (val_of_ofQuotient? hp).2]
    rfl
  | join sign l r ihl ihr =>
    cases sign with
    | times =>
      obtain ⟨dl, hl, h⟩ := Option.bind_eq_some_iff.1 h
      obtain ⟨dr, hr, h⟩ := Option.bind_eq_some_iff.1 h
      rw [Dimension.val_of_mul? h, ihl hl, ihr hr]
      rfl
    | dividedBy =>
      obtain ⟨dl, hl, h⟩ := Option.bind_eq_some_iff.1 h
      obtain ⟨dr, hr, h⟩ := Option.bind_eq_some_iff.1 h
      rw [Dimension.val_of_div? h, ihl hl, ihr hr]
      rfl

/-- The exponent of a power is there if both integers are within the bound and the quotient fits. -/
theorem power?_eq_some_iff {n d : Int} {p : Exponent} :
    power? n d = some p ↔
      n.natAbs ≤ maxUnitExponent ∧ d.natAbs ≤ maxUnitExponent ∧ Exponent.ofQuotient? n d =
        some p := by
  unfold power?
  split
  next h => exact ⟨fun hp => ⟨h.1, h.2, hp⟩, fun hp => hp.2.2⟩
  next h => exact ⟨nofun, fun hp => absurd ⟨hp.1, hp.2.1⟩ h⟩

/-- A factor is taken to a power by its dimension and its scale, and only the dimension can
overflow. -/
theorem pow?_eq_some_iff {g f : Factor} {p : Exponent} :
    g.pow? p = some f ↔
      g.dimension.pow? p = some f.dimension ∧ Factor.powScale g.scale p = f.scale := by
  unfold Factor.pow?
  cases g.dimension.pow? p with
  | none => exact ⟨nofun, fun h => nomatch h.1⟩
  | some d =>
    obtain ⟨df, sf⟩ := f
    simp

/-- Two factors are joined by their dimensions and their scales, and only the dimensions can
overflow. -/
theorem apply_eq_some_iff {sign : ProductSign} {g k f : Factor} :
    sign.apply g k = some f ↔
      (match sign with
        | .times => g.dimension.mul? k.dimension
        | .dividedBy => g.dimension.div? k.dimension) = some f.dimension ∧
      (match sign with
        | .times => g.scale * k.scale
        | .dividedBy => g.scale / k.scale) = f.scale := by
  obtain ⟨df, sf⟩ := f
  cases sign with
  | times =>
    show (g.dimension.mul? k.dimension).map _ = _ ↔ _
    cases g.dimension.mul? k.dimension <;> simp
  | dividedBy =>
    show (g.dimension.div? k.dimension).map _ = _ ↔ _
    cases g.dimension.div? k.dimension <;> simp

/-- The steps succeed just when all parts are admissible and no exponent overflows, and give the
dimension and the scale. This is shown for each kind of expression below. -/
def StepsAgree (e : Expr) : Prop :=
  ∀ f, e.factor? = some f ↔ e.Admissible ∧ e.dimension? = some f.dimension ∧ e.scale = f.scale

/-- The steps agree for a number, which has to be finite and positive. -/
theorem stepsAgree_number (n : Decimal.Numeral) : (number n).StepsAgree := by
  rintro ⟨d, s⟩
  unfold factor? Admissible dimension? scale Factor.ofNumber
  by_cases h : n.value.isFinite = true ∧ 0 < n.value
  · simp [h]
  · simp [h]

/-- The steps agree for a name, which has to be known. -/
theorem stepsAgree_name (s : String) : (name s).StepsAgree := by
  rintro ⟨d, v⟩
  unfold factor? Admissible dimension? scale
  rw [← UnitTable.exists_lookup_iff]
  cases UnitTable.lookup s with
  | none => simp
  | some g =>
    obtain ⟨dg, vg⟩ := g
    simp

/-- The steps agree for a power if they do for its base. -/
theorem StepsAgree.power {base : Expr} (ih : base.StepsAgree) (n m : Int) :
    (power base n m).StepsAgree := by
  intro f
  -- What the steps need is one by one what is said of the expression as a whole.
  constructor
  · intro h
    obtain ⟨g, hg, h⟩ := Option.bind_eq_some_iff.1 h
    obtain ⟨p, hp, h⟩ := Option.bind_eq_some_iff.1 h
    obtain ⟨hadmissible, hdimension, hscale⟩ := (ih g).1 hg
    obtain ⟨hn, hm, hp⟩ := power?_eq_some_iff.1 hp
    obtain ⟨hpow, hpowScale⟩ := pow?_eq_some_iff.1 h
    obtain ⟨h0, hval⟩ := val_of_ofQuotient? hp
    refine ⟨⟨hadmissible, hn, hm, h0⟩, ?_, ?_⟩
    · simp only [dimension?, hdimension, hp, Option.bind_eq_bind, Option.bind_some, hpow]
    · rw [scale, hscale, ← hpowScale, powScale_eq hval]
  · rintro ⟨⟨hadmissible, hn, hm, -⟩, hdimension, hscale⟩
    obtain ⟨d, hd, hdimension⟩ := Option.bind_eq_some_iff.1 hdimension
    obtain ⟨p, hp, hpow⟩ := Option.bind_eq_some_iff.1 hdimension
    have hbase : base.factor? = some ⟨d, base.scale⟩ := (ih _).2 ⟨hadmissible, hd, rfl⟩
    have hpower := power?_eq_some_iff.2 ⟨hn, hm, hp⟩
    simp only [factor?, hbase, hpower, Option.bind_eq_bind, Option.bind_some]
    refine pow?_eq_some_iff.2 ⟨hpow, ?_⟩
    rw [← hscale, scale, powScale_eq (val_of_ofQuotient? hp).2]

/-- Both sides of a product or quotient have dimensions, if it has one. -/
theorem exists_dimension?_of_join {sign : ProductSign} {l r : Expr} {d : Dimension}
    (h : (join sign l r).dimension? = some d) :
    ∃ dl dr, l.dimension? = some dl ∧ r.dimension? = some dr := by
  cases sign <;>
  · obtain ⟨dl, hl, h⟩ := Option.bind_eq_some_iff.1 h
    obtain ⟨dr, hr, -⟩ := Option.bind_eq_some_iff.1 h
    exact ⟨dl, dr, hl, hr⟩

/-- The steps agree for a product or quotient if they do for both sides. -/
theorem StepsAgree.join {l r : Expr} (ihl : l.StepsAgree) (ihr : r.StepsAgree)
    (sign : ProductSign) :
    (join sign l r).StepsAgree := by
  intro f
  -- Admissibility is that of both sides, and the two kinds of sign differ in what they compute
  -- only.
  constructor
  · intro h
    obtain ⟨g, hg, h⟩ := Option.bind_eq_some_iff.1 h
    obtain ⟨k, hk, h⟩ := Option.bind_eq_some_iff.1 h
    obtain ⟨hladmissible, hldimension, hlscale⟩ := (ihl g).1 hg
    obtain ⟨hradmissible, hrdimension, hrscale⟩ := (ihr k).1 hk
    obtain ⟨hdimension, hscale⟩ := apply_eq_some_iff.1 h
    refine ⟨⟨hladmissible, hradmissible⟩, ?_, ?_⟩
    · cases sign <;> simpa [dimension?, hldimension, hrdimension] using hdimension
    · cases sign <;> simpa [scale, hlscale, hrscale] using hscale
  · rintro ⟨⟨hladmissible, hradmissible⟩, hdimension, hscale⟩
    obtain ⟨dl, dr, hdl, hdr⟩ := exists_dimension?_of_join hdimension
    have hl : l.factor? = some ⟨dl, l.scale⟩ := (ihl _).2 ⟨hladmissible, hdl, rfl⟩
    have hr : r.factor? = some ⟨dr, r.scale⟩ := (ihr _).2 ⟨hradmissible, hdr, rfl⟩
    simp only [factor?, hl, hr, Option.bind_eq_bind, Option.bind_some]
    refine apply_eq_some_iff.2 ⟨?_, ?_⟩
    · cases sign <;> simpa [dimension?, hdl, hdr] using hdimension
    · cases sign <;> exact hscale

/-- The steps of every expression agree with what is said of it as a whole. -/
theorem factor?_eq_some_iff {e : Expr} {f : Factor} :
    e.factor? = some f ↔ e.Admissible ∧ e.dimension? = some f.dimension ∧ e.scale = f.scale := by
  have hagree : e.StepsAgree := by
    induction e with
    | number n => exact stepsAgree_number n
    | name s => exact stepsAgree_name s
    | power base n m ih => exact ih.power n m
    | join sign l r ihl ihr => exact ihl.join ihr sign
  exact hagree f

end Expr

/-! ### Texts -/

/-- White space and then the characters of a symbol. There may be no white space at all. -/
def Spaced (symbol cs : List Char) : Prop := ∃ ws, (∀ c ∈ ws, isBlank c) ∧ cs = ws ++ symbol

/-- A numeral: digits with at most one point among them, and at least one digit. -/
inductive NumberText : List Char → Decimal.Numeral → Prop where
  | whole {whole : List Char} (hwhole : ∀ c ∈ whole, c.isDigit) (h : whole ≠ []) :
      NumberText whole ⟨whole, [], 0⟩
  | point {whole fraction : List Char} (hwhole : ∀ c ∈ whole, c.isDigit)
      (hfraction : ∀ c ∈ fraction, c.isDigit) (h : whole ≠ [] ∨ fraction ≠ []) :
      NumberText (whole ++ '.' :: fraction) ⟨whole, fraction, 0⟩

/-- A name: a character that starts a name and others that go on with it. -/
inductive NameText : List Char → Prop where
  | intro {c : Char} {cs : List Char} (hc : startsName c) (hcs : ∀ d ∈ cs, continuesName d) :
      NameText (c :: cs)

/-- An integer: digits with an optional sign. -/
inductive IntText : List Char → Int → Prop where
  | unsigned {digits : List Char} (h : ∀ c ∈ digits, c.isDigit) (hne : digits ≠ []) :
      IntText digits (Decimal.natOfDigits 0 digits)
  | plus {digits : List Char} (h : ∀ c ∈ digits, c.isDigit) (hne : digits ≠ []) :
      IntText ('+' :: digits) (Decimal.natOfDigits 0 digits)
  | minus {digits : List Char} (h : ∀ c ∈ digits, c.isDigit) (hne : digits ≠ []) :
      IntText ('-' :: digits) (-Decimal.natOfDigits 0 digits)

/-- An exponent, as the fraction `n / d`. An integer has the denominator one, in brackets or not. -/
inductive ExponentText : List Char → Int → Int → Prop where
  | int {i cs : List Char} {n : Int} (hi : IntText i n) (h : Spaced i cs) : ExponentText cs n 1
  | brackets {o i cs c : List Char} {n : Int} (ho : Spaced ['('] o) (hi : IntText i n)
      (h : Spaced i cs) (hc : Spaced [')'] c) : ExponentText (o ++ (cs ++ c)) n 1
  | fraction {o i us s j vs c : List Char} {n d : Int} (ho : Spaced ['('] o) (hi : IntText i n)
      (hn : Spaced i us) (hs : Spaced ['/'] s) (hj : IntText j d) (hd : Spaced j vs)
      (hc : Spaced [')'] c) : ExponentText (o ++ (us ++ (s ++ (vs ++ c)))) n d

/-- The character of a sign between terms. -/
def ProductSign.char : ProductSign → Char
  | times => '*'
  | dividedBy => '/'

/-- The kinds of text in a unit expression. -/
inductive Part where
  | product
  | term
  | factor
deriving DecidableEq

/-- A text derives an expression, with one constructor for each alternative of a rule. The text is
made of the texts of its parts, so nothing is said about how it is read. -/
inductive ExprText : Part → List Char → Expr → Prop where
  | brackets {o cs c : List Char} {e : Expr} (ho : Spaced ['('] o) (h : ExprText .product cs e)
      (hc : Spaced [')'] c) : ExprText .factor (o ++ (cs ++ c)) e
  | number {symbol cs : List Char} {n : Decimal.Numeral} (hn : NumberText symbol n)
      (h : Spaced symbol cs) : ExprText .factor cs (.number n)
  | name {symbol cs : List Char} (hs : NameText symbol) (h : Spaced symbol cs) :
      ExprText .factor cs (.name (String.ofList symbol))
  | unraised {cs : List Char} {e : Expr} (h : ExprText .factor cs e) : ExprText .term cs e
  | power {us p vs : List Char} {e : Expr} {n d : Int} (h : ExprText .factor us e)
      (hp : Spaced ['*', '*'] p ∨ Spaced ['^'] p) (hx : ExponentText vs n d) :
      ExprText .term (us ++ (p ++ vs)) (.power e n d)
  | single {cs : List Char} {e : Expr} (h : ExprText .term cs e) : ExprText .product cs e
  | join {us s vs : List Char} {l r : Expr} (sign : ProductSign) (hl : ExprText .product us l)
      (hs : Spaced [sign.char] s) (hr : ExprText .term vs r) :
      ExprText .product (us ++ (s ++ vs)) (.join sign l r)

end UnitExpression

end UnitPlane
