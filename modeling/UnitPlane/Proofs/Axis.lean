import UnitPlane.Axis
import UnitPlane.Proofs.Double.Near
import UnitPlane.Proofs.Quantity
import UnitPlane.Proofs.Support.Except

/-!
# `UnitPlane.Proofs.Axis`: what the samples of an axis are

The samples of an axis are computed in one of three ways and then searched for one that is not
finite or not greater than the one before. Whatever the way, an axis that gets through has samples
that a grid can be drawn over.

* `Axis.usable_of_samplesIn?_eq_ok`: at least two samples, within the limit, finite and increasing,
  that begin at the start. Where their number is given, they are as many and end at the stop.
* `Axis.all_lt_stop_iff`: samples with a fixed step stay below the stop, unless rounding takes the
  last one there.
-/

set_option autoImplicit false

namespace UnitPlane.Axis

open Double

/-! ### Samples in a row -/

/-- Finite samples, each greater than all before it. This is what a grid needs of the samples of an
axis, whichever way they were computed. -/
structure Rising (values : Array Float) : Prop where
  finite : ∀ i (h : i < values.size), values[i].isFinite = true
  lt : ∀ i j (hij : i < j) (hj : j < values.size), values[i] < values[j]

section Rising

variable {values : Array Float}

/-- The search for a sample that is not finite finds none just when all samples from the index on
are finite. -/
theorem firstNotFinite?_eq_none_iff (values : Array Float) (i : Nat) :
    firstNotFinite? values i = none ↔
      ∀ k, i ≤ k → (h : k < values.size) → values[k].isFinite = true := by
  -- The search goes up to the first such sample, so the induction is on what is left of the array.
  fun_induction firstNotFinite? values i with
  | case1 i h hfinite ih =>
    rw [ih]
    constructor
    · intro hall k hk hsize
      rcases hk.eq_or_lt with rfl | hlt
      · exact hfinite
      · exact hall k hlt hsize
    · intro hall k hk hsize
      exact hall k (by omega) hsize
  | case2 i h hfinite =>
    constructor
    · intro hnone
      cases hnone
    · intro hall
      exact absurd (hall i le_rfl h) hfinite
  | case3 i h =>
    constructor
    · intro _ k hk hsize
      omega
    · intro _
      rfl

/-- The search for a sample that is not above the one before finds none just when every sample from
the index on is below the next. -/
theorem firstNotAbove?_eq_none_iff (values : Array Float) (i : Nat) :
    firstNotAbove? values i = none ↔
      ∀ k, i ≤ k → (hk : k < values.size) → (h : k + 1 < values.size) →
        values[k] < values[k + 1] := by
  -- The same induction as before, but the last sample has no next one to be compared with.
  fun_induction firstNotAbove? values i with
  | case1 i h hlt ih =>
    rw [ih]
    constructor
    · intro hall k hk hsize hnext
      rcases hk.eq_or_lt with rfl | hk
      · exact hlt
      · exact hall k hk hsize hnext
    · intro hall k hk hsize hnext
      exact hall k (by omega) hsize hnext
  | case2 i h hlt =>
    constructor
    · intro hnone
      cases hnone
    · intro hall
      exact absurd (hall i le_rfl (by omega) h) hlt
  | case3 i h =>
    constructor
    · intro _ k hk hsize hnext
      omega
    · intro _
      rfl

/-- Samples that exceed the one before exceed all before, because all of them compare. -/
theorem lt_of_lt_next
    (h : ∀ k (hk : k < values.size) (hnext : k + 1 < values.size), values[k] < values[k + 1])
    {i j : Nat} (hij : i < j) (hj : j < values.size) : values[i] < values[j] := by
  induction j with
  | zero => omega
  | succ j ih =>
    rcases (Nat.lt_succ_iff.1 hij).eq_or_lt with rfl | hlt
    · exact h i (by omega) hj
    · exact Double.lt_trans (ih hlt (by omega)) (h j (by omega) hj)

/-- Samples are passed on just when they are finite and increasing. The two searches look at
neighbours only, which is enough for all pairs. -/
theorem checkValues_eq_ok_iff {u : PUnit} : checkValues values = .ok u ↔ Rising values := by
  have hfinite := firstNotFinite?_eq_none_iff values 0
  have habove := firstNotAbove?_eq_none_iff values 0
  unfold checkValues
  -- The two searches come one after the other, and each fails just when its condition does.
  cases hf : firstNotFinite? values 0 with
  | some p =>
    rw [hf] at hfinite
    constructor
    · intro h
      cases h
    · intro h
      cases hfinite.2 fun k _ hk => h.finite k hk
  | none =>
    cases ha : firstNotAbove? values 0 with
    | some p =>
      rw [ha] at habove
      constructor
      · intro h
        cases h
      · intro h
        cases habove.2 fun k _ _ hnext => h.lt k (k + 1) k.lt_succ_self hnext
    | none =>
      have hnext : ∀ k (hk : k < values.size) (hnext : k + 1 < values.size),
          values[k] < values[k + 1] :=
        fun k => habove.1 ha k k.zero_le
      constructor
      · intro _
        exact ⟨fun k => hfinite.1 hf k k.zero_le, fun i j => lt_of_lt_next hnext⟩
      · intro _
        rfl

/-- Rising samples do not fall from one index to a later one, which may be the same. -/
theorem Rising.le (h : Rising values) {i j : Nat} (hij : i ≤ j) (hj : j < values.size) :
    values[i] ≤ values[j] := by
  rcases hij.eq_or_lt with rfl | hlt
  · exact Double.le_refl (h.finite i hj)
  · exact Double.le_of_lt (h.lt i j hlt hj)

end Rising

/-! ### What is checked before -/

/-- The numbers of an axis make up a range with a density: all three are finite, the range is not
empty, and the density is positive. -/
structure Bounded (a : Axis) : Prop where
  start_finite : a.start.isFinite = true
  stop_finite : a.stop.isFinite = true
  amount_finite : a.density.amount.isFinite = true
  start_lt_stop : a.start < a.stop
  amount_pos : 0 < a.density.amount

variable {a : Axis} {u : MeasureUnit} {limits : Limits} {s : Samples}

/-- An axis that gets through the first check is a range with a density. The check asks for the
opposite of what is wanted, which for finite doubles is the same. -/
theorem bounded_of_checkBounds_eq_ok {p : PUnit} (h : a.checkBounds = .ok p) : a.Bounded := by
  unfold checkBounds at h
  dsimp only at h
  split at h
  · cases h
  next hfinite =>
    split at h
    · cases h
    next hstop =>
      split at h
      · cases hd : a.density <;> rw [hd] at h <;> cases h
      next hamount =>
        rw [Bool.not_eq_true, Bool.not_eq_false', Bool.and_eq_true, Bool.and_eq_true] at hfinite
        obtain ⟨⟨hstart, hend⟩, hfin⟩ := hfinite
        -- Numbers that do not compare at all get past the last two checks, but not past the first.
        exact ⟨hstart, hend, hfin, lt_of_not_le hstart hend hstop,
          lt_of_not_le isFinite_zero hfin hamount⟩

/-- A magnitude in the base unit is a product with the unit's size, and finite. That is checked for
each magnitude on its own, because any of the products may overflow. -/
theorem baseMagnitude_eq_ok {v b : Float} (h : baseMagnitude v u = .ok b) :
    b = u.toBase v ∧ b.isFinite = true := by
  unfold baseMagnitude at h
  obtain ⟨q, hq, h⟩ := Except.bind_eq_ok.1 h
  obtain ⟨base, hbase, h⟩ := Except.bind_eq_ok.1 h
  obtain ⟨hmagnitude, hunit⟩ := Quantity.ofUnit?_eq_ok hq
  obtain ⟨hproduct, -⟩ := Quantity.ofUnit?_eq_ok hbase
  obtain rfl : base.magnitude = b := Except.ok.inj h
  exact ⟨by rw [hproduct, hmagnitude, hunit], base.finite⟩

/-! ### Counts -/

section Counts

variable {count : Nat}

/-- Within the first `2 ^ 53` the limit on cells is met exactly, although it is compared as a
double. Beyond, a limit could be rounded up, and a count above it would get through. -/
theorem le_maxCells (hcells : limits.maxCells ≤ 2 ^ 53)
    (hcount : toRat? (Float.ofNat count) = some (count : ℚ)) {p : PUnit}
    (h : checkCount limits count = .ok p) : count ≤ limits.maxCells := by
  have hplace := place?_of_toRat? (toRat?_ofNat hcells)
  have hplace' := place?_of_toRat? hcount
  unfold checkCount at h
  split at h
  · cases h
  next hlt =>
    change ¬ Float.ofNat limits.maxCells < Float.ofNat count at hlt
    rw [lt_iff_place_lt hplace hplace', not_lt] at hlt
    exact_mod_cast hlt

/-- A number of samples that is given is a whole number, is two or more, and is within the limit. It
is written as a double, as all numbers of an axis are. -/
theorem sampleCount_eq_ok {n : Float} (h : sampleCount limits n = .ok count) :
    toRat? n = some (count : ℚ) ∧ 2 ≤ count ∧ checkCount limits count = .ok () := by
  unfold sampleCount at h
  -- A number that is no integer is refused, and so is one below two.
  cases hn : Rounding.toInt? n with
  | none =>
    rw [hn] at h
    cases h
  | some k =>
    rw [hn] at h
    dsimp only at h
    split at h
    · cases h
    next hlarge =>
      obtain ⟨_, hcheck, h⟩ := Except.bind_eq_ok.1 h
      obtain rfl : k = count := by
        have htoNat : k.toNat = count := Except.ok.inj h
        omega
      exact ⟨toInt?_eq_some_iff.1 hn, by omega, hcheck⟩

/-- The number of steps in a range is two or more, and within the limit. The range is counted as it
is written, before the unit of the axis comes in. -/
theorem stepCount_eq_ok {start stop step : Float}
    (h : stepCount limits start stop step = .ok count) :
    stepsIn? ((stop - start) / step) = some (count : ℤ) ∧ 2 ≤ count ∧
      checkCount limits count = .ok () := by
  unfold stepCount at h
  -- A ratio that is no number is refused, and so is one that leaves fewer than two samples.
  cases hk : stepsIn? ((stop - start) / step) with
  | none =>
    rw [hk] at h
    cases h
  | some k =>
    rw [hk] at h
    obtain ⟨_, hcheck, h⟩ := Except.bind_eq_ok.1 h
    split at h
    · cases h
    next hlarge =>
      obtain rfl : k = count := by
        have htoNat : k.toNat = count := Except.ok.inj h
        omega
      exact ⟨rfl, by omega, hcheck⟩

/-- The number of steps is a double, and exceeds what the range is in steps by less than one. So no
sample is invented beyond the range. -/
theorem near_of_stepsIn?_eq_some {ratio : Float} (h : stepsIn? ratio = some (count : ℤ)) :
    toRat? (Float.ofNat count) = some (count : ℚ) ∧
      ∃ q : ℚ, toRat? ratio = some q ∧ (count : ℚ) - 1 < q := by
  unfold stepsIn? at h
  cases hn : Rounding.nearest? ratio with
  | none =>
    rw [hn] at h
    cases h
  | some k =>
    rw [hn] at h
    dsimp only [Option.bind_eq_bind, Option.bind_some] at h
    -- Whatever the tolerance is, the nearest integer is at most a half off.
    generalize (if ratio.abs < 1 then 1 else ratio.abs) = scale at h
    split at h
    · cases h
      obtain ⟨q, hq, hlow, -⟩ := near_of_nearest?_eq_some hn
      rw [Int.cast_natCast] at hlow
      exact ⟨toRat?_ofNat_of_nearest? hn, q, hq, by linarith⟩
    -- Rounding up never goes up by a whole.
    · refine ⟨toRat?_ofNat_of_ceiling? h, ?_⟩
      rw [ceiling?_eq] at h
      obtain ⟨q, hq, hceil⟩ := Option.map_eq_some_iff.1 h
      refine ⟨q, hq, ?_⟩
      have hlt := Int.ceil_lt_add_one q
      rw [hceil, Int.cast_natCast] at hlt
      linarith

end Counts

/-! ### The three ways to sample -/

section Values

variable {start stop : Float} {values : Array Float}

/-- There are as many samples as asked for, with a step between them. -/
theorem size_steppedValues (count : Nat) (start step : Float) :
    (steppedValues count start step).size = count := Array.size_ofFn

/-- There are as many samples as asked for, spread between two numbers. -/
theorem size_spreadValues (count : Nat) (start stop : Float) (inner : Float → Float) :
    (spreadValues count start stop inner).size = count := Array.size_ofFn

/-- With a step, the samples are the multiples of the step from the start on. Each is computed from
the start, so that the roundings of one sample do not get into the next. -/
theorem values_eq_ok_of_step {size : Float} (hd : a.density = .step size)
    (h : a.values u limits start stop = .ok values) :
    a.spacing = .linear ∧ (u.toBase size).isFinite = true ∧
      stepCount limits a.start a.stop size = .ok values.size ∧
      ∀ i (hi : i < values.size), values[i] = start + Float.ofNat i * u.toBase size := by
  unfold Axis.values at h
  rw [hd] at h
  -- Steps of a fixed size are for linear axes only.
  cases hs : a.spacing with
  | logarithmic =>
    rw [hs] at h
    cases h
  | linear =>
    rw [hs] at h
    obtain ⟨step, hstep, h⟩ := Except.bind_eq_ok.1 h
    obtain ⟨count, hcount, h⟩ := Except.bind_eq_ok.1 h
    obtain ⟨rfl, hfinite⟩ := baseMagnitude_eq_ok hstep
    cases h
    refine ⟨rfl, hfinite, ?_, ?_⟩
    · rw [size_steppedValues]
      exact hcount
    · intro i hi
      exact Array.getElem_ofFn _

/-- The ends of samples that are spread between two numbers are these numbers, as they are: the two
ends are not computed like the samples between them. -/
theorem ends_spreadValues {count : Nat} (hcount : 2 ≤ count) (start stop : Float)
    (inner : Float → Float) :
    (spreadValues count start stop inner)[0]? = some start ∧
      (spreadValues count start stop inner)[count - 1]? = some stop := by
  unfold spreadValues
  constructor
  · rw [Array.getElem?_ofFn, dif_pos (by omega), if_pos rfl]
  · rw [Array.getElem?_ofFn, dif_pos (by omega), if_neg (by show ¬ count - 1 = 0; omega),
      if_pos (by show count - 1 + 1 = count; omega)]

/-- With a number of samples, the ends are samples, whatever the spacing. Logarithmic spacing
refuses a range that is not above zero. -/
theorem values_eq_ok_of_count {n : Float} (hd : a.density = .count n)
    (h : a.values u limits start stop = .ok values) :
    sampleCount limits n = .ok values.size ∧
      (a.spacing = .logarithmic → ¬ (a.start ≤ 0 ∨ a.stop ≤ 0)) ∧
      values[0]? = some start ∧ values[values.size - 1]? = some stop := by
  unfold Axis.values at h
  rw [hd] at h
  -- The two spacings differ in what lies between the ends, and in the check of the ends.
  cases hs : a.spacing with
  | linear =>
    rw [hs] at h
    obtain ⟨count, hcount, h⟩ := Except.bind_eq_ok.1 h
    cases h
    rw [size_spreadValues]
    refine ⟨hcount, ?_, ends_spreadValues (sampleCount_eq_ok hcount).2.1 _ _ _⟩
    intro hlog
    cases hlog
  | logarithmic =>
    rw [hs] at h
    dsimp only at h
    split at h
    · cases h
    next hbounds =>
      obtain ⟨count, hcount, h⟩ := Except.bind_eq_ok.1 h
      cases h
      rw [size_spreadValues]
      exact ⟨hcount, fun _ => hbounds, ends_spreadValues (sampleCount_eq_ok hcount).2.1 _ _ _⟩

end Values

/-- Samples that are accepted went through every check: that of the numbers, that of the magnitudes
in the base unit, and that of the samples themselves. -/
theorem samplesIn?_eq_ok (h : a.samplesIn? u limits = .ok s) :
    a.Bounded ∧ (u.toBase a.start).isFinite = true ∧
      a.values u limits (u.toBase a.start) (u.toBase a.stop) = .ok s.values ∧ Rising s.values := by
  unfold samplesIn? at h
  -- The steps of sampling, in their order.
  obtain ⟨_, hbounds, h⟩ := Except.bind_eq_ok.1 h
  obtain ⟨start, hstart, h⟩ := Except.bind_eq_ok.1 h
  obtain ⟨stop, hstop, h⟩ := Except.bind_eq_ok.1 h
  obtain ⟨rfl, hfinite⟩ := baseMagnitude_eq_ok hstart
  obtain ⟨rfl, -⟩ := baseMagnitude_eq_ok hstop
  split at h
  · cases h
  obtain ⟨values, hvalues, h⟩ := Except.bind_eq_ok.1 h
  obtain ⟨_, hcheck, h⟩ := Except.bind_eq_ok.1 h
  cases h
  exact ⟨bounded_of_checkBounds_eq_ok hbounds, hfinite, hvalues, checkValues_eq_ok_iff.1 hcheck⟩

/-! ### Usable samples -/

/-- Samples of an axis that a grid can be drawn over:

- `two_le`, `le_maxCells`: there are at least two, and not more than the limit on cells;
- `rising`: they are finite and increase;
- `first`: the first is the start in the base unit;
- `counted`: where their number is given there are as many, they begin and end with the two ends in
  the base unit, and all lie between these;
- `stepped`: a step comes with linear spacing only;
- `positive`: with logarithmic spacing both ends are positive;
- `bounded`: the axis is a range with a density. -/
structure Usable (a : Axis) (u : MeasureUnit) (limits : Limits) (values : Array Float) : Prop where
  two_le : 2 ≤ values.size
  le_maxCells : values.size ≤ limits.maxCells
  rising : ∀ i j (hij : i < j) (hj : j < values.size),
    values[i].isFinite = true ∧ values[j].isFinite = true ∧ values[i] < values[j]
  first : (values[0] == u.toBase a.start) = true
  counted : ∀ n, a.density = .count n →
    toRat? n = some (values.size : ℚ) ∧ values[0] = u.toBase a.start ∧
      values[values.size - 1] = u.toBase a.stop ∧
      ∀ v ∈ values, u.toBase a.start ≤ v ∧ v ≤ u.toBase a.stop
  stepped : ∀ size, a.density = .step size → a.spacing = .linear
  positive : a.spacing = .logarithmic → 0 < a.start ∧ 0 < a.stop
  bounded : a.Bounded

/-- The samples of an axis are usable, as long as the limit on cells is itself a double. Which of
the clauses about the density applies depends on the density that the axis has. -/
theorem usable_of_samplesIn?_eq_ok (hcells : limits.maxCells ≤ 2 ^ 53)
    (h : a.samplesIn? u limits = .ok s) : a.Usable u limits s.values := by
  obtain ⟨hbounded, hstart, hvalues, hrising⟩ := samplesIn?_eq_ok h
  have hrow : ∀ i j (hij : i < j) (hj : j < s.values.size), s.values[i].isFinite = true ∧
      s.values[j].isFinite = true ∧ s.values[i] < s.values[j] := by
    intro i j hij hj
    exact ⟨hrising.finite i (by omega), hrising.finite j hj, hrising.lt i j hij hj⟩
  cases hd : a.density with
  | step size =>
    obtain ⟨hlinear, hstep, hcount, hvalue⟩ := values_eq_ok_of_step hd hvalues
    obtain ⟨hsteps, htwo, hcheck⟩ := stepCount_eq_ok hcount
    refine ⟨htwo, Axis.le_maxCells hcells (near_of_stepsIn?_eq_some hsteps).1 hcheck,
      hrow, ?_, ?_, ?_, ?_, hbounded⟩
    · -- The start with a multiple of zero added is equal to the start, but a negative zero turns
      -- positive.
      rw [hvalue 0 (by omega)]
      exact add_zero_mul_beq hstart hstep
    · intro n hn
      rw [hd] at hn
      cases hn
    · intro _ _
      exact hlinear
    · intro hlog
      rw [hlinear] at hlog
      cases hlog
  | count n =>
    obtain ⟨hcount, hlog, hfirst, hlast⟩ := values_eq_ok_of_count hd hvalues
    obtain ⟨hn, htwo, hcheck⟩ := sampleCount_eq_ok hcount
    have hdouble := toRat?_ofNat_of_toRat? hn
    rw [Array.getElem?_eq_getElem (by omega), Option.some_inj] at hfirst hlast
    refine ⟨htwo, Axis.le_maxCells hcells hdouble hcheck, hrow, ?_, ?_, ?_, ?_, hbounded⟩
    · rw [hfirst]
      exact beq_self_of_isFinite hstart
    · intro n' hn'
      rw [hd] at hn'
      cases hn'
      refine ⟨hn, hfirst, hlast, ?_⟩
      intro v hv
      obtain ⟨i, hi, rfl⟩ := Array.mem_iff_getElem.1 hv
      rw [← hfirst, ← hlast]
      exact ⟨hrising.le (Nat.zero_le i) hi, hrising.le (by omega) (by omega)⟩
    · intro size hsize
      rw [hd] at hsize
      cases hsize
    · intro hspacing
      have hpositive := hlog hspacing
      rw [not_or] at hpositive
      exact ⟨lt_of_not_le isFinite_zero hbounded.start_finite hpositive.1,
        lt_of_not_le isFinite_zero hbounded.stop_finite hpositive.2⟩

/-- Three samples from one kilometre to two. -/
theorem usable_three_in_kilometres :
    (⟨1, 2, .count 3, .linear, "km"⟩ : Axis).Usable ⟨"km", { length := 1 }, 1000⟩ {}
      #[1000, 1500, 2000] :=
  usable_of_samplesIn?_eq_ok (s := ⟨#[1000, 1500, 2000], "km", { length := 1 }, 1000⟩) (by decide)
    (by decide +kernel)

/-! ### The stop of a range with a step -/

/-- Samples with a step stay below the stop exactly if the last of them does, as it is computed in
the base unit. The number of steps was taken from the range and the step as they were written, and
before rounding the last sample would be below the stop. -/
theorem all_lt_stop_iff {size : Float} (hd : a.density = .step size)
    (h : a.samplesIn? u limits = .ok s) :
    ((∀ v ∈ s.values, v < u.toBase a.stop) ↔
      u.toBase a.start + Float.ofNat (s.values.size - 1) * u.toBase size < u.toBase a.stop) ∧
    ∃ q : ℚ, toRat? ((a.stop - a.start) / size) = some q ∧ (s.values.size : ℚ) - 1 < q := by
  obtain ⟨-, -, hvalues, hrising⟩ := samplesIn?_eq_ok h
  obtain ⟨-, -, hcount, hvalue⟩ := values_eq_ok_of_step hd hvalues
  obtain ⟨hsteps, htwo, -⟩ := stepCount_eq_ok hcount
  refine ⟨?_, (near_of_stepsIn?_eq_some hsteps).2⟩
  rw [← hvalue (s.values.size - 1) (by omega)]
  constructor
  · intro hall
    exact hall _ (Array.getElem_mem _)
  · intro hlast v hv
    -- Every other sample is below the last one.
    obtain ⟨i, hi, rfl⟩ := Array.mem_iff_getElem.1 hv
    rcases (show i ≤ s.values.size - 1 by omega).eq_or_lt with heq | hlt
    · simp only [heq]
      exact hlast
    · exact Double.lt_trans (hrising.lt i _ hlt (by omega)) hlast

/-- One to two in steps of a tenth. -/
def tenths : Axis := ⟨1, 2, .step 0.1, .linear, ""⟩

/-- Steps of a tenth from one on stay below two, although neither the step nor most of the samples
are the numbers that they are written as. -/
theorem tenths_lt_stop :
    tenths.samplesIn? .dimensionless {} =
        .ok ⟨#[1, 1.1, 1.2, 1.3, 1.4, 1.5, 1.6, 1.7000000000000002, 1.8, 1.9], .dimensionless⟩ ∧
      ∀ v ∈ #[1, 1.1, 1.2, 1.3, 1.4, 1.5, 1.6, 1.7000000000000002, 1.8, 1.9],
        v < MeasureUnit.dimensionless.toBase 2 := by
  have hsamples : tenths.samplesIn? .dimensionless {} =
      .ok ⟨#[1, 1.1, 1.2, 1.3, 1.4, 1.5, 1.6, 1.7000000000000002, 1.8, 1.9], .dimensionless⟩ := by
    decide +kernel
  exact ⟨hsamples, (all_lt_stop_iff rfl hsamples).1.2 (by decide)⟩

/-- A range of four units at `10 ^ 16`, where neighbouring doubles are two apart, in steps of one
and a half. -/
def coarse : Axis := ⟨10000000000000000, 10000000000000004, .step 1.5, .linear, ""⟩

/-- There are three steps in the range, and the last sample is rounded up to the stop. So a range
with a step may reach its stop, which it is meant to stay below. -/
theorem coarse_reaches_stop :
    coarse.samples? {} = .ok ⟨#[10000000000000000, 10000000000000002, 10000000000000004],
      .dimensionless⟩ ∧
    ¬ (10000000000000004 : Float) < MeasureUnit.dimensionless.toBase coarse.stop := by
  constructor
  · decide +kernel
  · decide

end UnitPlane.Axis
