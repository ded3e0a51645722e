import UnitPlane.Proofs.MeasureUnit.BaseUnit

/-!
# `UnitPlane.Proofs.MeasureUnit.BaseUnitText`: the text of a base unit determines the dimension

Reading a base unit back has a bound on the integers in exponents, so it does not tell apart the
texts of dimensions beyond the bound. The texts themselves do. Each part of a base unit ends where
what follows it starts, so two texts that agree have the same first part and agree in what is left:

* `Dimension.written_append_inj`, `Dimension.starred_append_inj`, `Dimension.top_append_inj`: this
  for a power, for powers with stars in front, and for the part above the slash.
* `Dimension.baseUnit_injective`: different dimensions have different base units.
* `MeasureUnit.resolve_baseUnit_isOk_iff`: when a base unit resolves, and to what.
-/

set_option autoImplicit false

namespace UnitPlane

open Text UnitExpression

namespace Dimension

variable {d d' : Dimension} {b b' : Base} {bs bs' : List Base} {rest rest' : List Char}

/-! ### Powers -/

/-- A number ends before what does not start with a digit, and its digits give the number. -/
theorem toDigits_append_inj {n n' : Nat} (hrest : Stops Char.isDigit rest)
    (hrest' : Stops Char.isDigit rest')
    (h : Nat.toDigits 10 n ++ rest = Nat.toDigits 10 n' ++ rest') : n = n' ∧ rest = rest' := by
  obtain ⟨hdigits, hrest⟩ := append_inj_of_stops (fun c hc => isDigit_of_mem_toDigits hc)
    (fun c hc => isDigit_of_mem_toDigits hc) hrest hrest' h
  refine ⟨?_, hrest⟩
  rw [← natOfDigits_toDigits n, hdigits, natOfDigits_toDigits]

/-- What follows a power does not start with the sign of a power, so an exponent that is not written
is not taken for one that is. -/
theorem ne_stars_of_follows (h : Follows rest) (cs : List Char) : rest ≠ '*' :: '*' :: cs := by
  rintro rfl
  cases h with
  | times hhead => exact hhead rfl

/-- The text of an exponent ends before what follows it, and gives the two integers. It has three
forms, so there are nine cases to compare. -/
theorem powerText_append_inj {n k n' k' : Nat} (hrest : Follows rest) (hrest' : Follows rest')
    (h : powerText n k ++ rest = powerText n' k' ++ rest') : n = n' ∧ k = k' ∧ rest = rest' := by
  have hslash (cs : List Char) : Stops Char.isDigit ('/' :: cs) := stops_cons.2 (by decide)
  have hclosed (cs : List Char) : Stops Char.isDigit (')' :: cs) := stops_cons.2 (by decide)
  -- A bracket in the place of the first digit tells a fraction from an integer.
  have hbracket {m : Nat} {cs cs' : List Char} : Nat.toDigits 10 m ++ cs ≠ '(' :: cs' := by
    intro heq
    have hstops : Stops (· == '(') (Nat.toDigits 10 m ++ cs) :=
      stops_toDigits (fun c hc => eq_of_isDigit (p := (· == '(')) hc (by decide)) m cs
    rw [heq] at hstops
    exact absurd (stops_cons.1 hstops) (by decide)
  unfold powerText at h
  split at h
  next hk =>
    split at h
    next hn =>
      split at h
      next hk' =>
        split at h
        next hn' => exact ⟨hn.trans hn'.symm, hk.trans hk'.symm, h⟩
        next hn' => exact absurd h (ne_stars_of_follows hrest _)
      next hk' => exact absurd h (ne_stars_of_follows hrest _)
    next hn =>
      split at h
      next hk' =>
        split at h
        next hn' => exact absurd h.symm (ne_stars_of_follows hrest' _)
        next hn' =>
          simp only [List.cons_append, List.cons.injEq, true_and] at h
          obtain ⟨hnum, hrest⟩ :=
            toDigits_append_inj hrest.stops_isDigit hrest'.stops_isDigit h
          exact ⟨hnum, hk.trans hk'.symm, hrest⟩
      next hk' =>
        simp only [List.cons_append, List.cons.injEq, true_and] at h
        exact absurd h hbracket
  next hk =>
    split at h
    next hk' =>
      split at h
      next hn' => exact absurd h.symm (ne_stars_of_follows hrest' _)
      next hn' =>
        simp only [List.cons_append, List.cons.injEq, true_and] at h
        exact absurd h.symm hbracket
    next hk' =>
      simp only [List.cons_append, List.append_assoc, List.cons.injEq, true_and] at h
      obtain ⟨hnum, h⟩ := toDigits_append_inj (hslash _) (hslash _) h
      simp only [List.cons.injEq, true_and] at h
      obtain ⟨hden, h⟩ := toDigits_append_inj (hclosed _) (hclosed _) h
      exact ⟨hnum, hden, (List.cons.inj h).2⟩

/-- No two base quantities have the same symbol. -/
theorem symbol_injective {b b' : Base} (h : b.symbol.toList = b'.symbol.toList) : b = b' := by
  have hmem (b : Base) : b ∈ Base.all := by cases b <;> decide
  have hall : ∀ b ∈ Base.all, ∀ b' ∈ Base.all, b.symbol.toList = b'.symbol.toList → b = b' := by
    decide
  exact hall b (hmem b) b' (hmem b') h

/-- Two dimensions have the same exponent of a base quantity, up to its sign, which is not written
with the power. -/
def SameMagnitude (d d' : Dimension) (b : Base) : Prop :=
  (d.exponent b).num.natAbs = (d'.exponent b).num.natAbs ∧ (d.exponent b).den = (d'.exponent b).den

/-- A written power gives its base and the magnitude of its exponent, and ends before what follows
it. The symbol is the longest row of letters. -/
theorem written_append_inj (hrest : Follows rest) (hrest' : Follows rest')
    (h : d.written b ++ rest = d'.written b' ++ rest') :
    b = b' ∧ d.SameMagnitude d' b ∧ rest = rest' := by
  -- A symbol is a row of letters, and an exponent does not start with one.
  have hletters (b : Base) : ∀ c ∈ b.symbol.toList, c.isAlpha := by
    refine List.all_eq_true.1 ?_
    cases b <;> decide
  have hpower {n k : Nat} {rest : List Char} (hrest : Follows rest) :
      Stops Char.isAlpha (powerText n k ++ rest) := by
    unfold powerText
    split
    · split
      · exact hrest.stops (by decide) (by decide) (by decide)
      · exact stops_cons.2 (by decide)
    · exact stops_cons.2 (by decide)
  simp only [written, List.append_assoc] at h
  obtain ⟨hsymbol, h⟩ := append_inj_of_stops (hletters b) (hletters b') (hpower hrest)
    (hpower hrest') h
  obtain rfl := symbol_injective hsymbol
  obtain ⟨hnum, hden, hrest⟩ := powerText_append_inj hrest hrest' h
  exact ⟨rfl, ⟨hnum, hden⟩, hrest⟩

/-! ### Products of powers -/

/-- Powers with stars in front end before anything but a star. -/
theorem starred_append_inj (hrest : Follows rest) (hrest' : Follows rest')
    (hhead : rest.head? ≠ some '*') (hhead' : rest'.head? ≠ some '*')
    (h : d.starred bs ++ rest = d'.starred bs' ++ rest') :
    bs = bs' ∧ (∀ b ∈ bs, d.SameMagnitude d' b) ∧ rest = rest' := by
  -- The induction is on the powers of the one text. Those of the other have to keep up with them.
  induction bs generalizing bs' with
  | nil =>
    cases bs' with
    | nil => exact ⟨rfl, by simp, h⟩
    | cons b' bs' =>
      rw [show rest = d'.starred (b' :: bs') ++ rest' from h] at hhead
      exact absurd rfl hhead
  | cons b bs ih =>
    cases bs' with
    | nil =>
      rw [show rest' = d.starred (b :: bs) ++ rest from h.symm] at hhead'
      exact absurd rfl hhead'
    | cons b' bs' =>
      simp only [starred, List.flatMap_cons, List.cons_append, List.append_assoc, List.cons.injEq,
        true_and] at h
      obtain ⟨rfl, hb, h⟩ :=
        written_append_inj (follows_starred d bs hrest) (follows_starred d' bs' hrest') h
      obtain ⟨rfl, hbs, hrest⟩ := ih h
      exact ⟨rfl, List.forall_mem_cons.2 ⟨hb, hbs⟩, hrest⟩

/-- A product of powers gives its powers and ends before anything but a star. -/
theorem powers_append_inj (hrest : Follows rest) (hrest' : Follows rest')
    (hhead : rest.head? ≠ some '*') (hhead' : rest'.head? ≠ some '*')
    (h : d.written b ++ (d.starred bs ++ rest) = d'.written b' ++ (d'.starred bs' ++ rest')) :
    b :: bs = b' :: bs' ∧ (∀ c ∈ b :: bs, d.SameMagnitude d' c) ∧ rest = rest' := by
  obtain ⟨rfl, hb, h⟩ :=
    written_append_inj (follows_starred d bs hrest) (follows_starred d' bs' hrest') h
  obtain ⟨rfl, hbs, hrest⟩ := starred_append_inj hrest hrest' hhead hhead' h
  exact ⟨rfl, List.forall_mem_cons.2 ⟨hb, hbs⟩, hrest⟩

/-- A written power starts with a letter, so it does not start with any other character. -/
theorem written_ne_cons {c : Char} (hc : startsName c = false) (cs : List Char) :
    d.written b ++ rest ≠ c :: cs := by
  obtain ⟨s, symbol, hsymbol, -, -, -, hname, -⟩ := symbol_eq_cons b
  intro h
  simp only [written, hsymbol, List.cons_append, List.cons.injEq] at h
  rw [h.1, hc] at hname
  cases hname

/-- The part above the slash ends before it. A one stands for no powers, since no symbol starts with
a digit. -/
theorem top_append_inj (hrest : Follows rest) (hrest' : Follows rest')
    (hhead : rest.head? ≠ some '*') (hhead' : rest'.head? ≠ some '*')
    (h : d.top bs ++ rest = d'.top bs' ++ rest') :
    bs = bs' ∧ (∀ b ∈ bs, d.SameMagnitude d' b) ∧ rest = rest' := by
  have hone : startsName '1' = false := startsName_of_ascii (by decide)
  -- Both texts start with a one, or both with a power.
  cases bs with
  | nil =>
    cases bs' with
    | nil => exact ⟨rfl, by simp, (List.cons.inj h).2⟩
    | cons b' bs' =>
      rw [top, top, List.append_assoc] at h
      exact absurd h.symm (written_ne_cons hone _)
  | cons b bs =>
    cases bs' with
    | nil =>
      rw [top, top, List.append_assoc] at h
      exact absurd h (written_ne_cons hone _)
    | cons b' bs' =>
      rw [top, top, List.append_assoc, List.append_assoc] at h
      exact powers_append_inj hrest hrest' hhead hhead' h

/-- The part below the slash gives its powers. A bracket tells several from a single one. -/
theorem bottom_inj (h : d.bottom bs = d'.bottom bs') :
    bs = bs' ∧ ∀ b ∈ bs, d.SameMagnitude d' b := by
  have hbracket : startsName '(' = false := startsName_of_ascii (by decide)
  -- Both have no power, one, or several. In the other cases a letter and a bracket are compared.
  match bs, bs' with
  | [], [] => exact ⟨rfl, by simp⟩
  | [], [_] | [], _ :: _ :: _ | [_], [] | _ :: _ :: _, [] => cases h
  | [b], [b'] =>
    have hwritten : d.written b ++ [] = d'.written b' ++ [] := by
      simpa using (List.cons.inj h).2
    obtain ⟨rfl, hb, -⟩ := written_append_inj .stop .stop hwritten
    exact ⟨rfl, List.forall_mem_singleton.2 hb⟩
  | [b], b' :: c' :: bs' =>
    have hwritten := (List.append_nil _).trans (List.cons.inj h).2
    exact absurd hwritten (written_ne_cons hbracket _)
  | b :: c :: bs, [b'] =>
    have hwritten := (List.append_nil _).trans (List.cons.inj h).2.symm
    exact absurd hwritten (written_ne_cons hbracket _)
  | b :: c :: bs, b' :: c' :: bs' =>
    simp only [bottom, List.cons.injEq, true_and] at h
    obtain ⟨hbs, hsame, -⟩ :=
      powers_append_inj (.closed []) (.closed []) (by simp) (by simp) h
    exact ⟨hbs, hsame⟩

/-! ### Dimensions -/

/-- What is written below the slash does not start with a star. -/
theorem head?_bottom_ne_star (d : Dimension) (bs : List Base) : (d.bottom bs).head? ≠ some '*' := by
  match bs with
  | [] => simp [bottom]
  | [b] => simp [bottom]
  | b :: c :: bs => simp [bottom]

/-- Something is always written above the slash. -/
theorem top_ne_nil (d : Dimension) (bs : List Base) : d.top bs ≠ [] := by
  cases bs with
  | nil => exact List.cons_ne_nil _ _
  | cons b bs =>
    obtain ⟨c, cs, hsymbol, -⟩ := symbol_eq_cons b
    simp [top, written, hsymbol]

/-- Only a pure number has no text. -/
theorem baseUnit_eq_empty_iff {d : Dimension} : d.baseUnit = "" ↔ d.isDimensionless = true := by
  constructor
  · intro h
    cases hd : d.isDimensionless with
    | true => rfl
    | false =>
      have htext := toList_baseUnit hd
      rw [h] at htext
      exact absurd (List.append_eq_nil_iff.1 htext.symm).1 (top_ne_nil d d.above)
  · intro hd
    simp [baseUnit, hd]

/-- An exponent is determined by its magnitude and by the side of the slash that it is written
on. -/
theorem exponent_eq_of_sameMagnitude {b : Base} (habove : d.above = d'.above)
    (hbelow : d.below = d'.below) (hsame : b ∈ d.above ∨ b ∈ d.below → d.SameMagnitude d' b) :
    d.exponent b = d'.exponent b := by
  have hpos : 0 < (d.exponent b).num ↔ 0 < (d'.exponent b).num := by
    rw [← mem_above, ← mem_above, habove]
  have hneg : (d.exponent b).num < 0 ↔ (d'.exponent b).num < 0 := by
    rw [← mem_below, ← mem_below, hbelow]
  rw [mem_above, mem_below] at hsame
  rcases Int.lt_trichotomy (d.exponent b).num 0 with h | h | h
  · obtain ⟨hnum, hden⟩ := hsame (.inr h)
    have := hneg.1 h
    exact Exponent.eq_of_num_den (by omega) hden
  · -- An exponent that is zero is written on neither side.
    have h' : (d'.exponent b).num = 0 := by omega
    exact Exponent.ext_val ((Rat.num_eq_zero.1 h).trans (Rat.num_eq_zero.1 h').symm)
  · obtain ⟨hnum, hden⟩ := hsame (.inl h)
    have := hpos.1 h
    exact Exponent.eq_of_num_den (by omega) hden

/-- Different dimensions have different base units, also where these are no unit expressions. The
text gives the powers on either side of the slash, and these give the exponents. -/
theorem baseUnit_injective {d d' : Dimension} (h : d.baseUnit = d'.baseUnit) : d = d' := by
  -- The empty text tells a pure number from the others.
  cases hd : d.isDimensionless with
  | true =>
    have hd' : d'.isDimensionless = true := baseUnit_eq_empty_iff.1 (h ▸ baseUnit_eq_empty_iff.2 hd)
    exact (of_decide_eq_true hd).trans (of_decide_eq_true hd').symm
  | false =>
    have hd' : d'.isDimensionless = false := by
      rw [← Bool.not_eq_true, ← baseUnit_eq_empty_iff, ← h, baseUnit_eq_empty_iff, hd]
      exact Bool.false_ne_true
    have htext : d.top d.above ++ d.bottom d.below = d'.top d'.above ++ d'.bottom d'.below := by
      rw [← toList_baseUnit hd, h, toList_baseUnit hd']
    obtain ⟨habove, hsame, hbottom⟩ := top_append_inj (follows_bottom d _) (follows_bottom d' _)
      (head?_bottom_ne_star d _) (head?_bottom_ne_star d' _) htext
    obtain ⟨hbelow, hsame'⟩ := bottom_inj hbottom
    exact ext_exponent fun b =>
      exponent_eq_of_sameMagnitude habove hbelow fun hb => hb.elim (hsame b) (hsame' b)

end Dimension

/-! ### Resolving -/

namespace MeasureUnit

/-- A base unit resolves just when no exponent has a numerator or denominator above 1000. It then
resolves to its own dimension with the scale one, and otherwise its text is named as undefined. No
two dimensions share a base unit, whether it resolves or not. -/
theorem resolve_baseUnit_isOk_iff :
    (∀ d : Dimension,
      ((∃ u, resolve d.baseUnit = .ok u) ↔
        ∀ b, (d.exponent b).num.natAbs ≤ 1000 ∧ (d.exponent b).den ≤ 1000) ∧
      (∀ u, resolve d.baseUnit = .ok u → u.dimension = d ∧ u.scale = 1) ∧
      ∀ fault, resolve d.baseUnit = .error fault →
        ∃ cause, fault = .undefinedUnit d.baseUnit cause) ∧
    ∀ d d' : Dimension, d.baseUnit = d'.baseUnit → d = d' := by
  refine ⟨fun d => ?_, fun d d' h => Dimension.baseUnit_injective h⟩
  obtain ⟨hok, herror⟩ := resolve_baseUnit d
  have hwritable : d.Writable ↔
      ∀ b, (d.exponent b).num.natAbs ≤ 1000 ∧ (d.exponent b).den ≤ 1000 := by
    unfold Dimension.Writable Exponent.Writable maxUnitExponent
    rfl
  rw [← hwritable]
  -- Within the bound the outcome is a unit, and beyond it a fault.
  by_cases hd : d.Writable
  · rw [hok hd]
    refine ⟨⟨fun _ => hd, fun _ => ⟨_, rfl⟩⟩, fun u hu => ?_, fun fault hfault => ?_⟩
    · cases hu
      exact ⟨rfl, rfl⟩
    · cases hfault
  · obtain ⟨cause, hcause⟩ := herror hd
    rw [hcause]
    refine ⟨⟨fun ⟨u, hu⟩ => ?_, fun h => absurd h hd⟩, fun u hu => ?_, fun fault hfault => ?_⟩
    · cases hu
    · cases hu
    · cases hfault
      exact ⟨cause, rfl⟩

end MeasureUnit

end UnitPlane
