import Mathlib.Data.List.Induction
import UnitPlane.Proofs.Dimension
import UnitPlane.Proofs.Exponent.Stored

/-!
# `UnitPlane.Proofs.Dimension.Stored`: the exactness of stored dimensions

A dimension is stored as the fractions of its exponents, in the order of the base quantities.
Products, quotients and powers work through them one after another and stop at the first that stops.
`Obtained` are the stored dimensions that such computations lead to, from integer powers of base
quantities whose sums fit.

Each of them is what is stored of a dimension (`Obtained.exists_stored`), since each operation gives
what is stored of its result, or is refused where that is absent, and never traps (`product_stored`
and the others). So all that is known of dimensions holds of what is stored: `computations_exact`
puts it together.
-/

set_option autoImplicit false

namespace UnitPlane

open Stop

namespace Dimension

/-- A dimension as it is stored: a row of fractions, one for each base quantity. -/
def stored (d : Dimension) : List Ratio := Base.all.map fun b => (d.exponent b).stored

variable {d e : Dimension}

/-- Every base quantity has its place in the row. -/
theorem mem_all (b : Base) : b ∈ Base.all := by
  cases b <;> decide

/-- Equal fractions are stored just when the exponents are equal numbers. So stored dimensions may
be compared fraction by fraction. -/
theorem stored_inj : d.stored = e.stored ↔ ∀ b, (d.exponent b).val = (e.exponent b).val := by
  unfold stored
  rw [List.map_inj_left]
  exact ⟨fun h b => Exponent.stored_inj.1 (h b (mem_all b)), fun h b _ =>
    Exponent.stored_inj.2 (h b)⟩

end Dimension

/-! ### Computations with stored dimensions -/

namespace StoredDimension

/-- The product of two stored dimensions: the sums of their fractions, one after another. -/
def product (r s : List Ratio) : Except Stop (List Ratio) := (r.zip s).mapM fun q => q.1.sum q.2

/-- The quotient of two stored dimensions: the differences of their fractions, one after another. -/
def quotient (r s : List Ratio) : Except Stop (List Ratio) :=
  (r.zip s).mapM fun q => q.1.difference q.2

/-- A power of a stored dimension: each of its fractions times the power. -/
def power (r : List Ratio) (p : Ratio) : Except Stop (List Ratio) := r.mapM fun a => a.product p

/-- One more integer power of a base quantity. The fraction of this quantity gets the power added,
without a check, and all others stay. -/
def addPower (r : List Ratio) (x : Base × ℤ) : Except Stop (List Ratio) :=
  (Base.all.zip r).mapM fun q => if q.1 = x.1 then q.2.addInteger x.2 else .ok q.2

/-- The product of integer powers of base quantities, which may repeat. -/
def ofPowers (powers : List (Base × ℤ)) : Except Stop (List Ratio) :=
  powers.foldlM addPower (Base.all.map fun _ => ⟨0, 1⟩)

/-- Fractions that are computed one after another are refused as soon as one is. None of the steps
before traps, so the first stop is a refusal. -/
theorem mapM_eq_error_refused {α : Type} {l : List α} {f : α → Option Exponent}
    (h : ∃ x ∈ l, f x = none) :
    (l.mapM fun x => orRefused ((f x).map Exponent.stored)) = .error refused := by
  obtain ⟨x, hx, hf⟩ := h
  induction l with
  | nil => cases hx
  | cons y l ih =>
    rw [List.mapM_cons]
    cases hy : f y with
    | none => rfl
    | some e =>
      -- The first fraction is there, so one of the others is refused.
      rcases List.mem_cons.1 hx with rfl | hx
      · rw [hf] at hy
        cases hy
      · show (Except.ok e.stored >>= fun a => _ >>= fun l => pure (a :: l)) = _
        rw [ih hx]
        rfl

/-- Fractions for all base quantities are what is stored of a dimension, or are refused. They are
refused just where the dimension is absent. -/
theorem mapM_all (f : Base → Option Exponent) :
    (Base.all.mapM fun b => orRefused ((f b).map Exponent.stored)) =
      orRefused ((Dimension.ofFn? f).map Dimension.stored) := by
  cases h : Dimension.ofFn? f with
  | none =>
    obtain ⟨b, hb⟩ := Dimension.ofFn?_eq_none_iff.1 h
    exact mapM_eq_error_refused ⟨b, Dimension.mem_all b, hb⟩
  | some d =>
    obtain rfl : f = fun b => some (d.exponent b) := funext (Dimension.ofFn?_eq_some_iff.1 h)
    rfl

variable {d e : Dimension}

/-- The product of stored dimensions is what is stored of the product, or is refused where that is
absent. -/
theorem product_stored (d e : Dimension) :
    product d.stored e.stored = orRefused ((d.mul? e).map Dimension.stored) := by
  rw [Dimension.mul?, ← mapM_all, product, Dimension.stored, Dimension.stored, List.zip_map',
    List.mapM_map]
  exact congrArg (List.mapM · Base.all) (funext fun b => Ratio.sum_stored _ _)

/-- The quotient of stored dimensions is what is stored of the quotient, or is refused where that is
absent. -/
theorem quotient_stored (d e : Dimension) :
    quotient d.stored e.stored = orRefused ((d.div? e).map Dimension.stored) := by
  rw [Dimension.div?, ← mapM_all, quotient, Dimension.stored, Dimension.stored, List.zip_map',
    List.mapM_map]
  exact congrArg (List.mapM · Base.all) (funext fun b => Ratio.difference_stored _ _)

/-- A power of a stored dimension is what is stored of the power, or is refused where that is
absent. -/
theorem power_stored (d : Dimension) (p : Exponent) :
    power d.stored p.stored = orRefused ((d.pow? p).map Dimension.stored) := by
  rw [Dimension.pow?, ← mapM_all, power, Dimension.stored, List.mapM_map]
  exact congrArg (List.mapM · Base.all) (funext fun b => Ratio.product_stored _ _)

/-! ### Integer powers of base quantities -/

/-- The sum of the powers of a base quantity. -/
def total (powers : List (Base × ℤ)) (b : Base) : ℤ :=
  ((powers.filter fun x => x.1 = b).map Prod.snd).sum

/-- The powers fit, and so do the sums of the first of them, however many these are. Without this,
adding a power could trap. -/
structure SumsFit (powers : List (Base × ℤ)) : Prop where
  powers_fit : ∀ x ∈ powers, Fits32 x.2
  sums_fit : ∀ p, p <+: powers → ∀ b, Fits32 (total p b)

variable {powers : List (Base × ℤ)} {x : Base × ℤ}

/-- One more power adds to the sum of its base quantity, and leaves the other sums as they are. -/
theorem total_concat (powers : List (Base × ℤ)) (x : Base × ℤ) (b : Base) :
    total (powers ++ [x]) b = total powers b + if x.1 = b then x.2 else 0 := by
  unfold total
  by_cases h : x.1 = b <;> simp [h]

/-- If the sums of all first powers fit, then so do those of the powers without the last one. -/
theorem SumsFit.of_concat (h : SumsFit (powers ++ [x])) : SumsFit powers where
  powers_fit y hy := h.powers_fit y (List.mem_append_left _ hy)
  sums_fit p hp := h.sums_fit p (hp.trans (List.prefix_append _ _))

/-- The dimension with the given integers as exponents. -/
def ofIntegers (f : Base → ℤ) (h : ∀ b, Fits32 (f b)) : Dimension :=
  .ofFn fun b => .ofInteger (f b) (h b)

/-- The exponents of a dimension that is made from integers are these integers. -/
theorem exponent_ofIntegers (f : Base → ℤ) (h : ∀ b, Fits32 (f b)) (b : Base) :
    (ofIntegers f h).exponent b = .ofInteger (f b) (h b) :=
  Dimension.exponent_ofFn _ b

section Step

variable {f g : Base → ℤ} (hf : ∀ b, Fits32 (f b)) (hg : ∀ b, Fits32 (g b)) (hx : Fits32 x.2)
  (hstep : ∀ b, f b + (if x.1 = b then x.2 else 0) = g b)

include hx hstep

/-- Adding a power to stored integers gives what is stored of the integers with the power added. The
unchecked additions do not trap, because all sums fit. -/
theorem addPower_stored : addPower (ofIntegers f hf).stored x = .ok (ofIntegers g hg).stored := by
  -- The row is gone through quantity by quantity: the one of the power gets it added, and the
  -- others are passed on.
  have hpoint (b : Base) :
      (if b = x.1 then ((ofIntegers f hf).exponent b).stored.addInteger x.2
        else .ok ((ofIntegers f hf).exponent b).stored) =
        .ok ((ofIntegers g hg).exponent b).stored := by
    have hb := hstep b
    rw [exponent_ofIntegers, exponent_ofIntegers]
    by_cases h : b = x.1
    · rw [if_pos h.symm] at hb
      rw [if_pos h, Ratio.addInteger_stored (hf b) hx (hg b) hb]
    · rw [if_neg (Ne.symm h), add_zero] at hb
      simp only [if_neg h, hb]
  exact congrArg (List.mapM · Base.all) (funext hpoint)

/-- Multiplying a dimension of integers by a power of a base quantity adds the power to the exponent
of this quantity. -/
theorem mul?_power? :
    (Dimension.power? x.1 x.2 >>= fun p => (ofIntegers f hf).mul? p) = some (ofIntegers g hg) := by
  have hsingle (b : Base) : Fits32 (if x.1 = b then x.2 else 0) := by
    split
    · exact hx
    · decide
  -- A power of a base quantity has its power as the one exponent that is not zero.
  have hpower : Dimension.power? x.1 x.2 = some (ofIntegers _ hsingle) := by
    refine Dimension.ofFn?_eq_some_iff.2 fun b => ?_
    rw [exponent_ofIntegers]
    by_cases h : b = x.1
    · rw [if_pos h, Exponent.ofFraction?_one hx]
      simp [h]
    · rw [if_neg h]
      simp [Ne.symm h]
      rfl
  rw [hpower, Option.bind_eq_bind, Option.bind_some]
  refine Dimension.ofFn?_eq_some_iff.2 fun b => ?_
  rw [exponent_ofIntegers, exponent_ofIntegers, exponent_ofIntegers,
    Exponent.add?_of_integral rfl rfl, Exponent.ofRat?_eq_some_iff]
  show (g b : ℚ) = f b + (if x.1 = b then x.2 else 0 : ℤ)
  exact_mod_cast (hstep b).symm

end Step

/-- Powers whose sums fit are multiplied, and nothing on the way traps. The result is what is stored
of the product, whose exponents are the sums. -/
theorem ofPowers_eq (h : SumsFit powers) :
    ofPowers powers = .ok (ofIntegers (total powers) (h.sums_fit _ List.prefix_rfl)).stored ∧
      Dimension.ofPowers? powers =
        some (ofIntegers (total powers) (h.sums_fit _ List.prefix_rfl)) := by
  -- The sums of the first powers are those of the powers without the last one.
  induction powers using List.reverseRecOn with
  | nil => exact ⟨rfl, rfl⟩
  | append_singleton powers x ih =>
    obtain ⟨hsteps, hmodel⟩ := ih h.of_concat
    have hx := h.powers_fit x (by simp)
    have hbefore := h.of_concat.sums_fit _ List.prefix_rfl
    have hstep (b : Base) := (total_concat powers x b).symm
    constructor
    · rw [ofPowers] at hsteps
      rw [ofPowers, List.foldlM_append, hsteps, Except.ok_bind, List.foldlM_cons,
        addPower_stored hbefore _ hx hstep]
      rfl
    · rw [Dimension.ofPowers?] at hmodel
      rw [Dimension.ofPowers?, List.foldlM_append, hmodel, ← mul?_power? hbefore _ hx hstep]
      simp

/-! ### Stored dimensions that computations lead to -/

/-- The stored dimensions that are reached from integer powers of base quantities by products,
quotients and powers that are not refused. -/
inductive Obtained : List Ratio → Prop where
  | ofPowers {powers : List (Base × ℤ)} {r : List Ratio} (hfits : SumsFit powers)
      (h : ofPowers powers = .ok r) : Obtained r
  | product {r s t : List Ratio} (hr : Obtained r) (hs : Obtained s) (h : product r s = .ok t) :
      Obtained t
  | quotient {r s t : List Ratio} (hr : Obtained r) (hs : Obtained s) (h : quotient r s = .ok t) :
      Obtained t
  | power {r t : List Ratio} {p : Ratio} (hr : Obtained r) (hp : p.Reduced)
      (h : power r p = .ok t) :
      Obtained t

/-- What is computed where the result is not refused is what is stored of the result. -/
theorem exists_of_orRefused {o : Option Dimension} {t : List Ratio}
    (h : orRefused (o.map Dimension.stored) = .ok t) : ∃ f : Dimension, f.stored = t := by
  cases o with
  | none => cases h
  | some f => exact ⟨f, Except.ok.inj h⟩

/-- Every computation leads to what is stored of some dimension. By induction on the computation:
each operation leads from stored dimensions to one, or is refused. -/
theorem Obtained.exists_stored {r : List Ratio} (h : Obtained r) :
    ∃ d : Dimension, d.stored = r := by
  -- The induction is on how the ratios were obtained. Each computation on them is one on
  -- dimensions.
  induction h with
  | ofPowers hfits h =>
    rw [(ofPowers_eq hfits).1] at h
    exact ⟨_, Except.ok.inj h⟩
  | product _ _ h ihr ihs =>
    obtain ⟨d, rfl⟩ := ihr
    obtain ⟨e, rfl⟩ := ihs
    rw [product_stored] at h
    exact exists_of_orRefused h
  | quotient _ _ h ihr ihs =>
    obtain ⟨d, rfl⟩ := ihr
    obtain ⟨e, rfl⟩ := ihs
    rw [quotient_stored] at h
    exact exists_of_orRefused h
  | power _ hp h ih =>
    obtain ⟨d, rfl⟩ := ih
    obtain ⟨q, rfl⟩ := Exponent.exists_stored hp
    rw [power_stored] at h
    exact exists_of_orRefused h

/-- The steps never trap. They are refused where the dimension is absent, and else give what is
stored of the dimension, whose exponents are the given numbers. This is what is claimed of each
operation. -/
structure Answers (x : Except Stop (List Ratio)) (o : Option Dimension)
    (value : Base → ℚ) : Prop where
  ne_trapped : x ≠ .error trapped
  refused_iff : x = .error refused ↔ o = none
  ok_iff : ∀ f : Dimension, x = .ok f.stored ↔ o = some f
  exact : ∀ f, o = some f → ∀ b, (f.exponent b).val = value b

/-- Steps that give what is stored of a result, or are refused where it is absent, answer for it. A
refusal and a trap are kept apart, because only a refusal stands for an absent result. -/
theorem Answers.of_eq {x : Except Stop (List Ratio)} {o : Option Dimension} {value : Base → ℚ}
    (h : x = orRefused (o.map Dimension.stored))
    (hvalue : ∀ f, o = some f → ∀ b, (f.exponent b).val = value b) : Answers x o value := by
  subst h
  cases o with
  | none => exact ⟨nofun, iff_of_true rfl rfl, fun f => iff_of_false nofun nofun, hvalue⟩
  | some d =>
    refine ⟨nofun, iff_of_false nofun nofun, fun f => ⟨fun hf => ?_, fun hf => ?_⟩, hvalue⟩
    · have hval := Dimension.stored_inj.1 (Except.ok.inj hf)
      rw [Dimension.ext_exponent fun b => Exponent.ext_val (hval b)]
    · rw [Option.some.inj hf]
      rfl

/-- Computations with stored dimensions are exact. Integer powers of base quantities are multiplied,
if their sums fit. The fractions of whatever is computed from such products are in lowest terms, so
they are equal just when the numbers are. Products, quotients and powers have the sums, differences
and products of the exponents, or are refused, and nothing on the way traps. A power is refused just
when an exponent of the result does not fit, and so are products and quotients where the exponents
are integers. -/
theorem computations_exact {powers : List (Base × ℤ)} {r s : List Ratio} {p : Ratio}
    (hpowers : SumsFit powers) (hr : Obtained r) (hs : Obtained s) (hp : p.Reduced) :
    (∃ d, Dimension.ofPowers? powers = some d ∧
      Answers (ofPowers powers) (some d) fun b => (total powers b : ℤ)) ∧
    ∃ (d e : Dimension) (q : Exponent), d.stored = r ∧ e.stored = s ∧ q.stored = p ∧
      (∀ a ∈ r, a.Reduced) ∧
      (r = s ↔ ∀ b, (d.exponent b).val = (e.exponent b).val) ∧
      Answers (product r s) (d.mul? e) (fun b => (d.exponent b).val + (e.exponent b).val) ∧
      Answers (quotient r s) (d.div? e) (fun b => (d.exponent b).val - (e.exponent b).val) ∧
      Answers (power r p) (d.pow? q) (fun b => (d.exponent b).val * q.val) ∧
      (d.pow? q = none ↔ ∃ b, ¬ (Fits32 ((d.exponent b).val * q.val).num ∧
        Fits32 ((d.exponent b).val * q.val).den)) ∧
      ((∀ a ∈ r, a.den = 1) → (∀ a ∈ s, a.den = 1) →
        (d.mul? e = none ↔ ∃ b, ¬ Fits32 ((d.exponent b).num + (e.exponent b).num)) ∧
        (d.div? e = none ↔ ∃ b, ¬ Fits32 ((d.exponent b).num - (e.exponent b).num))) := by
  obtain ⟨hsteps, hmodel⟩ := ofPowers_eq hpowers
  obtain ⟨d, rfl⟩ := hr.exists_stored
  obtain ⟨e, rfl⟩ := hs.exists_stored
  obtain ⟨q, rfl⟩ := Exponent.exists_stored hp
  -- A fraction with the denominator one is an integer.
  have hden {d : Dimension} (h : ∀ a ∈ d.stored, a.den = 1) (b : Base) :
      (d.exponent b).den = 1 := by
    have hb : ((d.exponent b).den : ℤ) = 1 := h _ (List.mem_map_of_mem (Dimension.mem_all b))
    exact_mod_cast hb
  refine ⟨⟨_, hmodel, .of_eq hsteps ?_⟩, d, e, q, rfl, rfl, rfl, ?_, Dimension.stored_inj,
    .of_eq (product_stored d e) fun f hf => Dimension.val_of_mul? hf,
    .of_eq (quotient_stored d e) fun f hf => Dimension.val_of_div? hf,
    .of_eq (power_stored d q) fun f hf => Dimension.val_of_pow? hf, Dimension.pow?_eq_none_iff,
    fun hd he => ⟨Dimension.mul?_eq_none_iff (hden hd) (hden he),
      Dimension.div?_eq_none_iff (hden hd) (hden he)⟩⟩
  · rintro f hf b
    rw [← Option.some.inj hf, exponent_ofIntegers]
    rfl
  · intro a ha
    obtain ⟨b, -, rfl⟩ := List.mem_map.1 ha
    exact Exponent.reduced_stored _

/-- The smallest integer as an exponent: one less does not fit, nor does its opposite, and both are
refused without a trap. -/
theorem computations_exact_smallest :
    ∃ (r s : List Ratio) (d e : Dimension) (q : Exponent),
      ofPowers [(.length, -2147483648)] = .ok r ∧ ofPowers [(.length, 1)] = .ok s ∧
      d.stored = r ∧ e.stored = s ∧ q.stored = ⟨-1, 1⟩ ∧ (∀ a ∈ r, a.Reduced) ∧
      product r s ≠ .error trapped ∧ d.div? e = none ∧ d.pow? q = none := by
  -- A single power has no sums but its own.
  have hsingle {n : ℤ} (hn : Fits32 n) : SumsFit [(.length, n)] := by
    refine ⟨fun x hx => ?_, fun p hp b => ?_⟩
    · rw [List.mem_singleton.1 hx]
      exact hn
    · rcases List.prefix_cons_iff.1 hp with rfl | ⟨t, rfl, ht⟩
      · exact show Fits32 0 by decide
      · rw [List.prefix_nil.1 ht]
        cases b with
        | length => simpa [total] using hn
        | mass | time | current | temperature | amount | luminosity | angle =>
          exact show Fits32 0 by decide
  have hsmallest := hsingle (n := -2147483648) (by decide)
  have hr : ofPowers [(.length, -2147483648)] =
      .ok (⟨-2147483648, 1⟩ :: List.replicate 7 ⟨0, 1⟩) := by decide
  have hs : ofPowers [(.length, 1)] = .ok (⟨1, 1⟩ :: List.replicate 7 ⟨0, 1⟩) := by decide
  obtain ⟨-, d, e, q, hd, he, hq, hreduced, -, hproduct, hquotient, hpower, -⟩ :=
    computations_exact hsmallest (.ofPowers hsmallest hr) (.ofPowers (hsingle (by decide)) hs)
      (p := ⟨-1, 1⟩) ⟨by decide, by decide, by decide, by decide⟩
  exact ⟨_, _, d, e, q, hr, hs, hd, he, hq, hreduced, hproduct.ne_trapped,
    hquotient.refused_iff.1 (by decide), hpower.refused_iff.1 (by decide)⟩

end StoredDimension

end UnitPlane
