import UnitPlane.Proofs.MeasureUnit.Power

/-!
# `UnitPlane.Proofs.MeasureUnit.BaseUnit`: reading a base unit back

The text of a base unit names the positive powers and then the negative ones below a slash. It is
read back as the dimension it was written for, as long as every exponent is within the bound on
written exponents; otherwise it is no unit.

* `UnitExpression.read_baseUnit`: the text is read back as the dimension, or refused.
* `Dimension.length_baseUnit_le`: the text of a base unit that can be read back is short.
* `MeasureUnit.resolve_baseUnit`: the base unit of a dimension within the bound resolves to that
  dimension with the scale one, and the base unit of any other dimension does not resolve.
-/

set_option autoImplicit false

namespace UnitPlane

open Text

/-! ### The written text -/

namespace Dimension

/-- Every exponent is within the bound on written exponents. These are the dimensions whose base
units can be read back. -/
def Writable (d : Dimension) : Prop := ∀ b, (d.exponent b).Writable

instance (d : Dimension) : Decidable d.Writable :=
  decidable_of_iff (∀ b ∈ Base.all, (d.exponent b).Writable)
    ⟨fun h b => h b (by cases b <;> decide), fun h b _ => h b⟩

/-- The written power of one base quantity: the symbol of its unit, and the exponent without its
sign. -/
def written (d : Dimension) (b : Base) : List Char :=
  b.symbol.toList ++ powerText (d.exponent b).num.natAbs (d.exponent b).den

/-- Written powers, each with a star in front of it. -/
def starred (d : Dimension) (bs : List Base) : List Char := bs.flatMap fun b => '*' :: d.written b

/-- The positive powers, or a one if there are none. -/
def top (d : Dimension) : List Base → List Char
  | [] => ['1']
  | b :: bs => d.written b ++ d.starred bs

/-- The negative powers below a slash, in brackets if there are several. -/
def bottom (d : Dimension) : List Base → List Char
  | [] => []
  | [b] => '/' :: d.written b
  | b :: c :: bs => '/' :: '(' :: (d.written b ++ (d.starred (c :: bs) ++ [')']))

/-- The base quantities with a positive exponent, in the order of a unit expression. -/
def above (d : Dimension) : List Base :=
  (d.factors Base.unitOrder).filter fun b => 0 < (d.exponent b).num

/-- The base quantities with a negative exponent, in the order of a unit expression. -/
def below (d : Dimension) : List Base :=
  (d.factors Base.unitOrder).filter fun b => !decide (0 < (d.exponent b).num)

/-- Powers that are joined by stars are the first one and the others with a star in front of
each. -/
theorem toList_intercalate_star (d : Dimension) (b : Base) (bs : List Base) :
    ("*".intercalate ((b :: bs).map fun b => unitFactor b.symbol (d.exponent b))).toList =
      d.written b ++ d.starred bs := by
  induction bs generalizing b with
  | nil => simp [written, starred, toList_unitFactor]
  | cons c bs ih =>
    have ih := ih c
    simp only [List.map_cons] at ih
    simp only [List.map_cons, String.intercalate_cons_cons, String.toList_append, ih,
      toList_unitFactor]
    simp [written, starred]

/-- What is written above the slash is the product of the positive powers, or a one. -/
theorem toList_top (d : Dimension) (bs : List Base) :
    (if bs.isEmpty then "1"
      else "*".intercalate (bs.map fun b => unitFactor b.symbol (d.exponent b))).toList =
      d.top bs := by
  cases bs with
  | nil => simp [top]
  | cons b bs => exact d.toList_intercalate_star b bs

/-- The text of a base unit is its top and its bottom. A pure number has no text at all, so it is
left out here. -/
theorem toList_baseUnit {d : Dimension} (hd : d.isDimensionless = false) :
    d.baseUnit.toList = d.top d.above ++ d.bottom d.below := by
  have hparts : (d.factors Base.unitOrder).partition (fun b => decide (0 < (d.exponent b).num)) =
      (d.above, d.below) := List.partition_eq_filter_filter
  have htop := d.toList_top d.above
  unfold baseUnit
  simp only [hd, hparts, Bool.false_eq_true, if_false]
  generalize (if d.above.isEmpty then "1"
      else "*".intercalate (d.above.map fun b => unitFactor b.symbol (d.exponent b))) = text at *
  -- Below the slash there are no powers, one, or several in brackets.
  cases d.below with
  | nil => simp [htop, bottom]
  | cons b bs =>
    cases bs with
    | nil =>
      simp only [bottom, String.toList_append, written, ← toList_unitFactor, ← htop,
        List.append_assoc]
      rfl
    | cons c bs =>
      simp only [String.toList_append, toList_intercalate_star, htop, bottom, List.append_assoc]
      rfl

/-! ### Parts of a dimension -/

/-- The product of the powers of some base quantities, without their signs. This is what a part of
the text is read as. -/
def part (d : Dimension) (bs : List Base) : Dimension :=
  ofFn fun b => if b ∈ bs then (d.exponent b).magnitude else 0

/-- The product of no powers is a pure number. -/
theorem part_nil (d : Dimension) : d.part [] = dimensionless := by
  ext b
  rw [part, exponent_ofFn]
  cases b <;> rfl

/-- The product of one power is that power. -/
theorem part_singleton (d : Dimension) (b : Base) :
    d.part [b] = single b (d.exponent b).magnitude := by
  ext c
  rw [part, single, exponent_ofFn, exponent_ofFn]
  by_cases h : c = b
  · simp [h]
  · simp [h]

/-- Another power is multiplied to a part that does not have it. No exponents are added, since one
of the two is zero for each base quantity. -/
theorem part_mul?_single (d : Dimension) {done : List Base} {b : Base} (h : b ∉ done) :
    (d.part done).mul? (single b (d.exponent b).magnitude) = some (d.part (done ++ [b])) := by
  refine ofFn?_eq_some fun c => ?_
  rw [part, single, exponent_ofFn, exponent_ofFn]
  by_cases hc : c = b
  · subst hc
    simp [h, Exponent.zero_add?]
  · by_cases hdone : c ∈ done
    · simp [hc, hdone, Exponent.add?_zero]
    · simp [hc, hdone, Exponent.add?_zero]

/-- Above the slash are the base quantities with a positive exponent. -/
theorem mem_above {d : Dimension} {b : Base} : b ∈ d.above ↔ 0 < (d.exponent b).num := by
  have hmem : b ∈ Base.unitOrder := by cases b <;> decide
  have hne : 0 < (d.exponent b).num → d.exponent b ≠ 0 := by
    rintro h heq
    rw [heq] at h
    exact absurd h (by decide)
  simp only [above, factors, List.mem_filter, hmem, true_and, decide_eq_true_eq]
  exact ⟨fun h => h.2, fun h => ⟨hne h, h⟩⟩

/-- Below the slash are the base quantities with a negative exponent. -/
theorem mem_below {d : Dimension} {b : Base} : b ∈ d.below ↔ (d.exponent b).num < 0 := by
  have hmem : b ∈ Base.unitOrder := by cases b <;> decide
  have hne : d.exponent b ≠ 0 ↔ (d.exponent b).num ≠ 0 := by
    refine not_congr ⟨fun h => by rw [h]; rfl, fun h => ?_⟩
    exact Exponent.ext_val (Rat.num_eq_zero.1 h)
  simp only [below, factors, List.mem_filter, hmem, true_and, decide_eq_true_eq, hne,
    Bool.not_eq_true', decide_eq_false_iff_not]
  omega

/-- No base quantity is written above the slash twice. -/
theorem nodup_above (d : Dimension) : d.above.Nodup :=
  (List.filter_sublist.trans List.filter_sublist).nodup (by decide)

/-- No base quantity is written below the slash twice. -/
theorem nodup_below (d : Dimension) : d.below.Nodup :=
  (List.filter_sublist.trans List.filter_sublist).nodup (by decide)

/-- The positive powers divided by the negative ones, both without signs, are the dimension. So the
division by the bottom gives the exponents below the slash their signs back. -/
theorem part_above_div?_part_below {d : Dimension} (hd : d.Writable) :
    (d.part d.above).div? (d.part d.below) = some d := by
  have hofFn : ofFn d.exponent = d := ext_exponent fun b => exponent_ofFn _ b
  rw [← hofFn]
  refine ofFn?_eq_some fun b => ?_
  rw [hofFn, part, part, exponent_ofFn, exponent_ofFn]
  -- Each base quantity is in at most one of the parts, so one side of the difference is zero.
  rcases Int.lt_trichotomy (d.exponent b).num 0 with hneg | hzero | hpos
  · obtain ⟨hfits, hmag⟩ := Exponent.magnitude_of_neg (hd b) hneg
    have habove : b ∉ d.above := fun h => absurd (mem_above.1 h) (by omega)
    have hopp : Fits32 (-((d.exponent b).opposite hfits).num) := by
      rw [Exponent.num_opposite, Int.neg_neg]
      exact (d.exponent b).fits_num
    rw [if_neg habove, if_pos (mem_below.2 hneg), hmag, Exponent.zero_sub? _ hopp]
    exact congrArg some (Exponent.eq_of_num_den (by simp) (by simp))
  · have habove : b ∉ d.above := fun h => absurd (mem_above.1 h) (by omega)
    have hbelow : b ∉ d.below := fun h => absurd (mem_below.1 h) (by omega)
    have hval : d.exponent b = 0 := Exponent.ext_val (Rat.num_eq_zero.1 hzero)
    rw [if_neg habove, if_neg hbelow, hval]
    exact Exponent.sub?_zero 0
  · have hbelow : b ∉ d.below := fun h => absurd (mem_below.1 h) (by omega)
    rw [if_pos (mem_above.2 hpos), if_neg hbelow, Exponent.magnitude_of_pos (by omega)]
    exact Exponent.sub?_zero _

end Dimension

/-! ### Reading the parts -/

namespace UnitExpression

open Dimension

/-- A star is the sign of a product, if no second one follows. -/
theorem productSign?_times {cs : List Char} (h : cs.head? ≠ some '*') :
    ∃ hlt, productSign? ('*' :: cs) = some (.times, ⟨cs, hlt⟩) := by
  refine ⟨by simp, ?_⟩
  unfold productSign?
  rw [after?, afterSkip?_cons_self (by decide)]
  exact if_neg h

/-- A slash is the sign of a quotient. -/
theorem productSign?_slash (cs : List Char) :
    ∃ hlt, productSign? ('/' :: cs) = some (.dividedBy, ⟨cs, hlt⟩) := by
  have hstar : after? '*' ('/' :: cs) = none :=
    afterSkip?_eq_none (stops_cons.2 (by decide)) (by simp)
  refine ⟨by simp, ?_⟩
  unfold productSign?
  rw [hstar, after?, afterSkip?_cons_self (by decide)]
  rfl

/-- What starts with neither a star nor a slash has no sign between terms. -/
theorem productSign?_eq_none {cs : List Char} (hblank : Stops isBlank cs)
    (hstar : cs.head? ≠ some '*') (hslash : cs.head? ≠ some '/') : productSign? cs = none := by
  unfold productSign?
  rw [show after? '*' cs = none from afterSkip?_eq_none hblank hstar,
    show after? '/' cs = none from afterSkip?_eq_none hblank hslash]
  rfl

/-- A written power starts with a letter, so a star in front of it stays a single one. -/
theorem head?_written_ne_star (d : Dimension) (b : Base) (rest : List Char) :
    (d.written b ++ rest).head? ≠ some '*' := by
  obtain ⟨c, cs, hsymbol, -, -, -, hname, -⟩ := symbol_eq_cons b
  have hne : c ≠ '*' := ne_of_startsName hname (startsName_of_ascii (by decide))
  simp [written, hsymbol, hne]

/-- Powers with stars in front may follow a power, and so may what follows them. -/
theorem follows_starred (d : Dimension) (bs : List Base) {rest : List Char} (h : Follows rest) :
    Follows (d.starred bs ++ rest) := by
  cases bs with
  | nil => exact h
  | cons b bs =>
    simp only [starred, List.flatMap_cons, List.cons_append, List.append_assoc]
    exact .times (head?_written_ne_star d b _)

/-- Reading of one written power of a dimension: it is read as the power without its sign, or
refused. -/
theorem plain_readTerm_power (d : Dimension) (b : Base) {rest : List Char} (hrest : Follows rest) :
    ((d.exponent b).Writable → Except.plain (readTerm (d.written b ++ rest)) =
      .ok (⟨single b (d.exponent b).magnitude, 1⟩, rest)) ∧
    (¬ (d.exponent b).Writable →
      ∃ cause, Except.plain (readTerm (d.written b ++ rest)) = .error cause) := by
  rw [written, List.append_assoc]
  exact plain_readTerm_written b (d.exponent b) hrest

/-- Powers with stars in front are multiplied to what was read before them, if all are within the
bound. Each comes once, so it is a new power for what was read. -/
theorem plain_readProductRest_starred (d : Dimension) {done bs : List Base}
    (hnodup : (done ++ bs).Nodup) {rest : List Char} (hrest : Follows rest) :
    ((∀ b ∈ bs, (d.exponent b).Writable) →
      Except.plain (readProductRest ⟨d.part done, 1⟩ (d.starred bs ++ rest)) =
        Except.plain (readProductRest ⟨d.part (done ++ bs), 1⟩ rest)) ∧
    ((∃ b ∈ bs, ¬ (d.exponent b).Writable) →
      ∃ cause, Except.plain (readProductRest ⟨d.part done, 1⟩ (d.starred bs ++ rest)) =
        .error cause) := by
  -- The induction is on the powers to come. Those that are done are carried along.
  induction bs generalizing done with
  | nil =>
    refine ⟨fun _ => ?_, by simp⟩
    rw [List.append_nil]
    rfl
  | cons b bs ih =>
    have hfresh : b ∉ done := fun h =>
      (List.nodup_append.1 hnodup).2.2 b h b (by simp) rfl
    have hnodup' : (done ++ [b] ++ bs).Nodup := by simpa using hnodup
    have hmul : ProductSign.times.apply ⟨d.part done, 1⟩
        ⟨single b (d.exponent b).magnitude, 1⟩ = some ⟨d.part (done ++ [b]), 1⟩ := by
      have hone : (1 : Float) * 1 = 1 := by decide
      simp [ProductSign.apply, Factor.mul?, part_mul?_single d hfresh, hone]
    obtain ⟨hlt, hsign⟩ := productSign?_times (head?_written_ne_star d b (d.starred bs ++ rest))
    obtain ⟨hok, herror⟩ := plain_readTerm_power d b (follows_starred d bs hrest)
    have hcons : d.starred (b :: bs) ++ rest = '*' :: (d.written b ++ (d.starred bs ++ rest)) := by
      simp [starred]
    rw [hcons, plain_readProductRest, hsign]
    dsimp only
    obtain ⟨ihok, iherror⟩ := ih hnodup'
    -- The first power beyond the bound stops the reader, and those after it are not reached.
    by_cases hb : (d.exponent b).Writable
    · rw [hok hb, Except.ok_bind]
      simp only [hmul]
      refine ⟨fun hall => ?_, fun hex => ?_⟩
      · rw [ihok fun c hc => hall c (by simp [hc]), List.append_assoc]
        rfl
      · obtain ⟨c, hc, hnot⟩ := hex
        rcases List.mem_cons.1 hc with rfl | hc
        · exact absurd hb hnot
        · exact iherror ⟨c, hc, hnot⟩
    · obtain ⟨cause, hcause⟩ := herror hb
      exact ⟨fun hall => absurd (hall b (by simp)) hb, fun _ => ⟨cause, by rw [hcause]; rfl⟩⟩

/-- A product of written powers is read as their product, if all are within the bound, and refused
otherwise. -/
theorem plain_readProduct_powers (d : Dimension) {b : Base} {bs : List Base}
    (hnodup : (b :: bs).Nodup) {rest : List Char} (hrest : Follows rest) :
    ((∀ c ∈ b :: bs, (d.exponent c).Writable) →
      Except.plain (readProduct (d.written b ++ (d.starred bs ++ rest))) =
        Except.plain (readProductRest ⟨d.part (b :: bs), 1⟩ rest)) ∧
    ((∃ c ∈ b :: bs, ¬ (d.exponent c).Writable) →
      ∃ cause, Except.plain (readProduct (d.written b ++ (d.starred bs ++ rest))) =
        .error cause) := by
  obtain ⟨hok, herror⟩ := plain_readTerm_power d b (follows_starred d bs hrest)
  have hnodup' : ([b] ++ bs).Nodup := hnodup
  obtain ⟨hoks, herrors⟩ := plain_readProductRest_starred d hnodup' hrest
  rw [plain_readProduct]
  -- The first power is read by itself, and the others as the rest of the product.
  by_cases hb : (d.exponent b).Writable
  · rw [hok hb, Except.ok_bind, ← part_singleton]
    refine ⟨fun hall => hoks fun c hc => hall c (by simp [hc]), fun hex => ?_⟩
    obtain ⟨c, hc, hnot⟩ := hex
    rcases List.mem_cons.1 hc with rfl | hc
    · exact absurd hb hnot
    · exact herrors ⟨c, hc, hnot⟩
  · obtain ⟨cause, hcause⟩ := herror hb
    exact ⟨fun hall => absurd (hall b (by simp)) hb, fun _ => ⟨cause, by rw [hcause]; rfl⟩⟩

/-- A one stands for a product of no powers. It is a number, which is a pure number of that size. -/
theorem plain_readTerm_one (d : Dimension) {rest : List Char} (hrest : Follows rest) :
    Except.plain (readTerm ('1' :: rest)) = .ok (⟨d.part [], 1⟩, rest) := by
  have hskip : skipBlanks ('1' :: rest) = '1' :: rest :=
    skipBlanks_of_stops (stops_cons.2 (by decide))
  have hstops : Stops isNumberChar rest := hrest.stops (by decide) (by decide) (by decide)
  have hnumber : numberFactor ['1'] = .ok ⟨d.part [], 1⟩ := by
    rw [part_nil]
    decide
  have hone : isNumberChar '1' = true := by decide
  rw [plain_readTerm, plain_readFactor, hskip]
  simp only [hone, if_true, if_neg (show ¬ '1' = '(' by decide), takeWhile_of_stops hstops,
    dropWhile_of_stops hstops, hnumber, Except.ok_bind, hrest.powerSign?_eq_none]

/-- The top of a base unit is read as its part of the dimension, whether it has powers or is a
one. -/
theorem plain_readProduct_top (d : Dimension) {bs : List Base} (hnodup : bs.Nodup)
    {rest : List Char} (hrest : Follows rest) :
    ((∀ b ∈ bs, (d.exponent b).Writable) →
      Except.plain (readProduct (d.top bs ++ rest)) =
        Except.plain (readProductRest ⟨d.part bs, 1⟩ rest)) ∧
    ((∃ b ∈ bs, ¬ (d.exponent b).Writable) →
      ∃ cause, Except.plain (readProduct (d.top bs ++ rest)) = .error cause) := by
  cases bs with
  | nil =>
    refine ⟨fun _ => ?_, by simp⟩
    show Except.plain (readProduct ('1' :: rest)) = _
    rw [plain_readProduct, plain_readTerm_one d hrest]
    rfl
  | cons b bs =>
    rw [top, List.append_assoc]
    exact plain_readProduct_powers d hnodup hrest

/-- Several powers in brackets are read as one factor, up to the end of the text. -/
theorem plain_readTerm_brackets (d : Dimension) {b : Base} {bs : List Base}
    (hnodup : (b :: bs).Nodup) :
    ((∀ c ∈ b :: bs, (d.exponent c).Writable) →
      Except.plain (readTerm ('(' :: (d.written b ++ (d.starred bs ++ [')'])))) =
        .ok (⟨d.part (b :: bs), 1⟩, [])) ∧
    ((∃ c ∈ b :: bs, ¬ (d.exponent c).Writable) →
      ∃ cause, Except.plain (readTerm ('(' :: (d.written b ++ (d.starred bs ++ [')'])))) =
        .error cause) := by
  obtain ⟨hok, herror⟩ := plain_readProduct_powers d hnodup (.closed [])
  have hskip (cs : List Char) : skipBlanks ('(' :: cs) = '(' :: cs :=
    skipBlanks_of_stops (stops_cons.2 (by decide))
  have hclosed : productSign? [')'] = none :=
    productSign?_eq_none (stops_cons.2 (by decide)) (by simp) (by simp)
  have hafter : after? ')' [')'] = some ⟨[], by simp⟩ := afterSkip?_cons_self (by decide) []
  rw [plain_readTerm, plain_readFactor, hskip]
  simp only [if_true]
  -- The bracket closes behind the powers, and nothing follows it.
  constructor
  · intro hall
    rw [hok hall, plain_readProductRest, hclosed]
    simp only [Except.ok_bind, hafter, Follows.stop.powerSign?_eq_none]
  · intro hex
    obtain ⟨cause, hcause⟩ := herror hex
    exact ⟨cause, by rw [hcause]; rfl⟩

/-- After a slash comes a term to divide by, and the product goes on after it. -/
theorem plain_readProductRest_slash (left : Factor) (cs : List Char) :
    Except.plain (readProductRest left ('/' :: cs)) =
      Except.plain (readTerm cs) >>= fun p =>
        match left.div? p.1 with
        | none => .error .exponentOverflow
        | some product => Except.plain (readProductRest product p.2) := by
  obtain ⟨hlt, hsign⟩ := productSign?_slash cs
  rw [plain_readProductRest, hsign]
  rfl

/-- What stands below the slash is read as one factor. If nothing does, what was read before is left
as it is. -/
theorem plain_readProductRest_bottom (d : Dimension) (left : Factor) {bs : List Base}
    (hnodup : bs.Nodup) :
    ((∀ b ∈ bs, (d.exponent b).Writable) → ∀ f, left.div? ⟨d.part bs, 1⟩ = some f →
      Except.plain (readProductRest left (d.bottom bs)) = .ok (if bs = [] then left else f, [])) ∧
    ((∃ b ∈ bs, ¬ (d.exponent b).Writable) →
      ∃ cause, Except.plain (readProductRest left (d.bottom bs)) = .error cause) := by
  have hstop : productSign? [] = none := productSign?_eq_none (stops_nil _) (by simp) (by simp)
  have hdone (f : Factor) : Except.plain (readProductRest f []) = .ok (f, []) := by
    rw [plain_readProductRest, hstop]
  -- After the slash there is one term, a power or a group in brackets, and nothing more.
  rcases bs with _ | ⟨b, _ | ⟨c, bs⟩⟩
  · exact ⟨fun _ f _ => hdone left, by simp⟩
  · obtain ⟨hok, herror⟩ := plain_readTerm_power d b .stop
    rw [List.append_nil] at hok herror
    rw [bottom, plain_readProductRest_slash]
    constructor
    · intro hall f hf
      rw [hok (hall b (by simp)), ← part_singleton]
      simp [hf, hdone]
    · rintro ⟨c, hc, hnot⟩
      rw [List.mem_singleton] at hc
      subst hc
      obtain ⟨cause, hcause⟩ := herror hnot
      exact ⟨cause, by rw [hcause]; rfl⟩
  · obtain ⟨hok, herror⟩ := plain_readTerm_brackets d hnodup
    rw [bottom, plain_readProductRest_slash]
    constructor
    · intro hall f hf
      rw [hok hall]
      simp [hf, hdone]
    · intro hex
      obtain ⟨cause, hcause⟩ := herror hex
      exact ⟨cause, by rw [hcause]; rfl⟩

/-- A part without the powers below the slash is the dimension, if there are none. -/
theorem part_above_of_below_eq_nil {d : Dimension} (hd : d.Writable) (h : d.below = []) :
    d.part d.above = d := by
  have hdiv := part_above_div?_part_below hd
  have hself : (d.part d.above).div? (d.part d.below) = some (d.part d.above) := by
    have hofFn : ofFn (d.part d.above).exponent = d.part d.above :=
      ext_exponent fun b => exponent_ofFn _ b
    rw [h]
    conv => rhs; rw [← hofFn]
    refine ofFn?_eq_some fun b => ?_
    rw [part, part, exponent_ofFn, exponent_ofFn]
    exact Exponent.sub?_zero _
  rw [hself] at hdiv
  exact Option.some.inj hdiv

/-- What is written below the slash may follow a power, as it starts with the slash or is
nothing. -/
theorem follows_bottom (d : Dimension) (bs : List Base) : Follows (d.bottom bs) := by
  match bs with
  | [] => exact .stop
  | [b] => exact .slashed _
  | b :: c :: bs => exact .slashed _

/-- The base unit of a dimension within the bound is read as that dimension with the scale one, and
any other base unit is refused. The scale is one because the scales of all its symbols are. -/
theorem read_baseUnit {d : Dimension} (hne : d.isDimensionless = false) :
    (d.Writable → read d.baseUnit.toList = .ok ⟨d, 1⟩) ∧
    (¬ d.Writable → ∃ cause, read d.baseUnit.toList = .error cause) := by
  obtain ⟨habove, habove'⟩ :=
    plain_readProduct_top d d.nodup_above (follows_bottom d d.below)
  obtain ⟨hbelow, hbelow'⟩ :=
    plain_readProductRest_bottom d ⟨d.part d.above, 1⟩ d.nodup_below
  rw [read_eq, toList_baseUnit hne]
  constructor
  · intro hd
    have hdiv : Factor.div? ⟨d.part d.above, 1⟩ ⟨d.part d.below, 1⟩ = some ⟨d, 1⟩ := by
      have hone : (1 : Float) / 1 = 1 := by decide
      simp [Factor.div?, part_above_div?_part_below hd, hone]
    rw [habove fun b _ => hd b, hbelow (fun b _ => hd b) _ hdiv]
    split
    next h => simp [part_above_of_below_eq_nil hd h]
    next => rfl
  · intro hd
    -- The top is read before the bottom, so the fault is in the bottom only if the top is accepted.
    by_cases hall : ∀ b ∈ d.above, (d.exponent b).Writable
    · have hex : ∃ b ∈ d.below, ¬ (d.exponent b).Writable := by
        obtain ⟨b, hb⟩ := Classical.not_forall.1 hd
        refine ⟨b, mem_below.2 ?_, hb⟩
        rcases Int.lt_trichotomy (d.exponent b).num 0 with hneg | hzero | hpos
        · exact hneg
        · have hval : d.exponent b = 0 := Exponent.ext_val (Rat.num_eq_zero.1 hzero)
          rw [hval] at hb
          exact absurd (by decide) hb
        · exact absurd (hall b (mem_above.2 hpos)) hb
      obtain ⟨cause, hcause⟩ := hbelow' hex
      exact ⟨cause, by rw [habove hall, hcause]; rfl⟩
    · have hex : ∃ b ∈ d.above, ¬ (d.exponent b).Writable := by
        simpa using hall
      obtain ⟨cause, hcause⟩ := habove' hex
      exact ⟨cause, by rw [hcause]; rfl⟩

end UnitExpression

/-! ### The length of the text -/

namespace Dimension

/-- The characters of base units: those of the symbols, digits and signs. -/
def unitChars : List Char := "kgmsAolcdraK0123456789*/()".toList

/-- The digits of numbers are among them. -/
theorem mem_unitChars_of_mem_toDigits {n : Nat} {c : Char} (h : c ∈ Nat.toDigits 10 n) :
    c ∈ unitChars :=
  List.contains_iff_mem.1
    (eq_of_isDigit (p := unitChars.contains) (isDigit_of_mem_toDigits h) (by decide))

/-- The characters of a written power are among them. -/
theorem mem_unitChars_of_mem_written {d : Dimension} {b : Base} {c : Char} (h : c ∈ d.written b) :
    c ∈ unitChars := by
  have hsymbol : b.symbol.toList.all unitChars.contains = true := by cases b <;> decide
  -- An exponent is nothing, an integer or a fraction in brackets.
  have hpower (n m : Nat) : ∀ c ∈ powerText n m, c ∈ unitChars := by
    intro c hc
    unfold powerText at hc
    split at hc
    · split at hc
      · cases hc
      · simp only [List.mem_cons] at hc
        rcases hc with rfl | rfl | hc
        · decide
        · decide
        · exact mem_unitChars_of_mem_toDigits hc
    · simp only [List.mem_cons, List.mem_append, List.not_mem_nil, or_false] at hc
      rcases hc with rfl | rfl | rfl | hc | rfl | hc | rfl
      all_goals first
        | decide
        | exact mem_unitChars_of_mem_toDigits hc
  rcases List.mem_append.1 h with h | h
  · exact List.contains_iff_mem.1 (List.all_eq_true.1 hsymbol c h)
  · exact hpower _ _ c h

/-- The characters of powers with stars in front are among them. -/
theorem mem_unitChars_of_mem_starred {d : Dimension} {bs : List Base} {c : Char}
    (h : c ∈ d.starred bs) : c ∈ unitChars := by
  obtain ⟨b, -, hc⟩ := List.mem_flatMap.1 h
  rcases List.mem_cons.1 hc with rfl | hc
  · decide
  · exact mem_unitChars_of_mem_written hc

/-- A base unit has only the characters of symbols, digits and signs. So it has no white space, and
each character is one byte. -/
theorem mem_unitChars_of_mem_baseUnit {d : Dimension} {c : Char} (h : c ∈ d.baseUnit.toList) :
    c ∈ unitChars := by
  cases hne : d.isDimensionless with
  | true => simp [baseUnit, hne] at h
  | false =>
    rw [toList_baseUnit hne, List.mem_append] at h
    -- The character is in the top, or in the bottom with its slash and brackets.
    rcases h with h | h
    · cases habove : d.above with
      | nil =>
        rw [habove] at h
        rw [List.mem_singleton.1 h]
        decide
      | cons b bs =>
        rw [habove] at h
        rcases List.mem_append.1 h with h | h
        · exact mem_unitChars_of_mem_written h
        · exact mem_unitChars_of_mem_starred h
    · match hbelow : d.below with
      | [] =>
        rw [hbelow] at h
        cases h
      | [b] =>
        rw [hbelow] at h
        rcases List.mem_cons.1 h with rfl | h
        · decide
        · exact mem_unitChars_of_mem_written h
      | b :: b' :: bs =>
        rw [hbelow] at h
        simp only [bottom, List.mem_cons, List.mem_append, List.not_mem_nil, or_false] at h
        rcases h with rfl | rfl | h | h | rfl
        · decide
        · decide
        · exact mem_unitChars_of_mem_written h
        · exact mem_unitChars_of_mem_starred h
        · decide

/-- A written power within the bound has at most three characters of a symbol and two integers of
four digits, with five signs. -/
theorem length_written_le {d : Dimension} {b : Base} (h : (d.exponent b).Writable) :
    (d.written b).length ≤ 16 := by
  have hsymbol : b.symbol.toList.length ≤ 3 := by cases b <;> decide
  -- No integer within the bound has more digits than 1000.
  have hdigits (n : Nat) (hn : n ≤ maxUnitExponent) : (Nat.toDigits 10 n).length ≤ 4 := by
    refine (Nat.length_toDigits_le_iff (by decide) (by decide)).2 ?_
    have : n ≤ 1000 := hn
    omega
  have hnum := hdigits _ h.1
  have hden := hdigits _ h.2
  have hpower : (powerText (d.exponent b).num.natAbs (d.exponent b).den).length ≤ 13 := by
    unfold powerText
    split
    · split
      · simp
      · simp only [List.length_cons]
        omega
    · simp only [List.length_cons, List.length_append, List.length_nil]
      omega
  rw [written, List.length_append]
  omega

/-- Powers with stars in front have at most one character more for each. -/
theorem length_starred_le {d : Dimension} (hd : d.Writable) (bs : List Base) :
    (d.starred bs).length ≤ 17 * bs.length := by
  induction bs with
  | nil => simp [starred]
  | cons b bs ih =>
    have hb := length_written_le (hd b)
    simp only [starred, List.flatMap_cons, List.length_append, List.length_cons] at ih ⊢
    omega

/-- The positive and the negative powers are parts of the eight, as no base quantity is in both. -/
theorem length_above_add_length_below_le (d : Dimension) :
    d.above.length + d.below.length ≤ 8 := by
  have hfactors : (d.factors Base.unitOrder).length ≤ 8 := List.length_filter_le _ _
  have hsplit := List.length_eq_countP_add_countP (fun b => decide (0 < (d.exponent b).num))
    (l := d.factors Base.unitOrder)
  simp only [List.countP_eq_length_filter] at hsplit
  have hbelow : d.below = (d.factors Base.unitOrder).filter
      fun b => decide ¬ decide (0 < (d.exponent b).num) = true := by
    unfold below
    congr 1
    funext b
    cases decide (0 < (d.exponent b).num) <;> rfl
  rw [above, hbelow]
  omega

/-- The base unit of a dimension within the bound is short, much shorter than the text of a unit
expression may be. -/
theorem length_baseUnit_le {d : Dimension} (hd : d.Writable) : d.baseUnit.toList.length ≤ 140 := by
  cases hne : d.isDimensionless with
  | true => simp [baseUnit, hne]
  | false =>
    -- Each power counts 17 characters at most, with the star in front of it.
    have htop (bs : List Base) : (d.top bs).length ≤ 17 * bs.length + 1 := by
      cases bs with
      | nil => simp [top]
      | cons b bs =>
        have hb := length_written_le (hd b)
        have hbs := length_starred_le hd bs
        simp only [top, List.length_append, List.length_cons]
        omega
    have hbottom (bs : List Base) : (d.bottom bs).length ≤ 17 * bs.length + 3 := by
      match bs with
      | [] => simp [bottom]
      | [b] =>
        have hb := length_written_le (hd b)
        simp only [bottom, List.length_cons, List.length_nil]
        omega
      | b :: c :: bs =>
        have hb := length_written_le (hd b)
        have hbs := length_starred_le hd (c :: bs)
        simp only [bottom, List.length_append, List.length_cons, List.length_nil] at hbs ⊢
        omega
    have := htop d.above
    have := hbottom d.below
    have := d.length_above_add_length_below_le
    rw [toList_baseUnit hne, List.length_append]
    omega

end Dimension

/-! ### Resolving -/

namespace MeasureUnit

/-- Resolving a base unit evaluates its text as it stands: there are no blanks to trim, and only a
pure number has an empty one. -/
theorem resolve_baseUnit_eq {d : Dimension} (hne : d.isDimensionless = false) :
    resolve d.baseUnit =
      match UnitExpression.evaluate d.baseUnit.toList with
      | .ok factor => .ok ⟨d.baseUnit, factor.dimension, factor.scale⟩
      | .error cause => .error (.undefinedUnit d.baseUnit cause) := by
  -- The text is its own text without white space around it, and it is not empty.
  have hblank : ∀ c ∈ d.baseUnit.toList, isBlank c = false := by
    intro c hc
    have hall : Dimension.unitChars.all (fun c => !isBlank c) = true := by decide
    simpa using List.all_eq_true.1 hall c (Dimension.mem_unitChars_of_mem_baseUnit hc)
  have hnonempty : d.baseUnit.toList.isEmpty = false := by
    rw [Dimension.toList_baseUnit hne]
    cases d.above with
    | nil => rfl
    | cons b bs =>
      obtain ⟨c, cs, hsymbol, -⟩ := UnitExpression.symbol_eq_cons b
      simp [Dimension.top, Dimension.written, hsymbol]
  unfold resolve
  dsimp only
  rw [trim_eq_self hblank, hnonempty, String.ofList_toList, if_neg Bool.false_ne_true]
  cases UnitExpression.evaluate d.baseUnit.toList with
  | ok factor => rfl
  | error cause => rfl

/-- The base unit of a dimension within the bound resolves to itself: to that dimension, with the
scale one. The base unit of any other dimension is no unit. A pure number has the empty text, which
is looked at first. -/
theorem resolve_baseUnit (d : Dimension) :
    (d.Writable → resolve d.baseUnit = .ok (.base d)) ∧
    (¬ d.Writable → ∃ cause, resolve d.baseUnit = .error (.undefinedUnit d.baseUnit cause)) := by
  cases hne : d.isDimensionless with
  | true =>
    have hd : d = .dimensionless := of_decide_eq_true hne
    subst hd
    exact ⟨fun _ => by decide, fun h => absurd (by decide) h⟩
  | false =>
    obtain ⟨hok, herror⟩ := UnitExpression.read_baseUnit hne
    rw [resolve_baseUnit_eq hne]
    -- The text is short, is read as the dimension, and has a scale that can be divided by.
    constructor
    · intro hd
      have hbytes : byteLength d.baseUnit.toList = d.baseUnit.toList.length := by
        have hall : Dimension.unitChars.all (fun c => c.utf8Size == 1) = true := by decide
        refine byteLength_eq_length fun c hc => ?_
        simpa using List.all_eq_true.1 hall c (Dimension.mem_unitChars_of_mem_baseUnit hc)
      have hlength := Dimension.length_baseUnit_le hd
      have hshort : ¬ UnitExpression.maxLength < byteLength d.baseUnit.toList := by
        rw [hbytes]
        exact Nat.not_lt.2 (Nat.le_trans hlength (by decide))
      have hscale : ((1 : Float).isFinite && decide ((0 : Float) < 1)) = true := by decide
      have hevaluate : UnitExpression.evaluate d.baseUnit.toList = .ok ⟨d, 1⟩ := by
        unfold UnitExpression.evaluate
        rw [if_neg hshort, hok hd]
        exact if_pos hscale
      rw [hevaluate]
      rfl
    · intro hd
      obtain ⟨cause, hcause⟩ := herror hd
      have hevaluate : ∃ cause, UnitExpression.evaluate d.baseUnit.toList = .error cause := by
        unfold UnitExpression.evaluate
        split
        · exact ⟨_, rfl⟩
        · exact ⟨cause, by rw [hcause]; rfl⟩
      obtain ⟨cause, hcause⟩ := hevaluate
      exact ⟨cause, by rw [hcause]⟩

end MeasureUnit

end UnitPlane
