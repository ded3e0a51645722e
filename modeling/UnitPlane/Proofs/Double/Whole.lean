import UnitPlane.Proofs.Double.Order

/-!
# `UnitPlane.Proofs.Double.Whole`: whole numbers as doubles

`Float.ofNat` takes every whole number to a double: up to 53 bits to the number itself, beyond them
to the nearest double, and to infinity where that is too large. The larger of two numbers is never
taken to the smaller double, wherever the two are.

* `ofNat_le_ofNat`: the double of a whole number grows with the number.
* `toRat?_ofNat`: the whole numbers of at most 53 bits, and the next one, are doubles.
* `add_zero_mul_beq`: the first of the multiples of a step adds nothing.
-/

set_option autoImplicit false

namespace UnitPlane.Double

open Float.Model Float.Model.UnpackedFloat

/-! ### Rounding to 53 bits -/

/-- An integer is its own nearest one, with no other as near. -/
theorem NearestEven.self (n : ℕ) : NearestEven n n :=
  ⟨by linarith, by linarith, fun _ => ⟨by linarith, by linarith⟩⟩

/-- The nearest integers of two numbers are in the order of the numbers. Two different ones could
only be the other way round at a tie, which both would settle in the same way. -/
theorem NearestEven.mono {z z' : ℚ} {n n' : ℕ} (h : NearestEven z n) (h' : NearestEven z' n')
    (hz : z ≤ z') : n ≤ n' := by
  by_contra hlt
  have hsucc : (n' : ℚ) + 1 ≤ n := by exact_mod_cast Nat.lt_of_not_le hlt
  -- Both integers are then half away from one and the same number, which has a single nearest
  -- integer.
  have heq : z = z' := by linarith [h.low, h'.high]
  subst heq
  exact hlt (h.unique h').le

section Bits

variable {s : Sign} {M r : ℕ} {x t : ℤ} {z : ℚ}

/-- A number of 53 bits has its first bit at the place of `2 ^ 52`. -/
theorem log2_eq (hlow : 2 ^ 52 ≤ r) (hhigh : r < 2 ^ 53) : r.log2 = 52 :=
  (Nat.log2_eq_iff (by omega)).2 ⟨hlow, hhigh⟩

/-- A number rounded to 53 bits may need one place more, and is then a power of two. -/
theorem exists_mantissa (hlow : 2 ^ 52 ≤ r) (hhigh : r ≤ 2 ^ 53) (ht : -1074 ≤ t) :
    ∃ m e, (shiftToTargetExponent Format.binary64 r t .exact).1.mantissa = m ∧
      (shiftToTargetExponent Format.binary64 r t .exact).2 = e ∧
      2 ^ 52 ≤ m ∧ m < 2 ^ 53 ∧ -1074 ≤ e ∧ (m * 2 ^ e : ℚ) = r * 2 ^ t := by
  -- A carry to the next power of two is taken back by one shift.
  rcases hhigh.lt_or_eq with hlt | rfl
  · have htarget : target r t = t := by
      unfold target
      rw [log2_eq hlow hlt]
      omega
    rw [shiftToTargetExponent_eq .exact htarget.ge, htarget, sub_self]
    exact ⟨r, t, rfl, rfl, hlow, hlt, ht, rfl⟩
  · have htarget : target (2 ^ 53) t = t + 1 := by
      unfold target
      rw [Nat.log2_two_pow]
      omega
    rw [shiftToTargetExponent_eq .exact (by omega), htarget, show (t + 1 - t).toNat = 1 by omega]
    refine ⟨2 ^ 52, t + 1, rfl, rfl, le_rfl, by omega, by omega, ?_⟩
    rw [zpow_add_one₀ (by norm_num)]
    push_cast
    ring

/-- Rounding keeps 53 bits of a mantissa that has as many, and gives the nearest number with so
many. Too large an exponent is not noticed here, but in packing. -/
theorem roundWithAccuracy_bits (hM : 2 ^ 52 ≤ M) (ht : -1074 ≤ (M.log2 : ℤ) + x - 52) :
    ∃ r m e, ∃ hm : 0 < m, NearestEven (M / 2 ^ (M.log2 - 52)) r ∧
      roundWithAccuracy Format.binary64 s M x .exact = .finite s m e hm ∧
      2 ^ 52 ≤ m ∧ m < 2 ^ 53 ∧ -1074 ≤ e ∧ (m * 2 ^ e : ℚ) = r * 2 ^ ((M.log2 : ℤ) + x - 52) := by
  have hlog : 52 ≤ M.log2 := (Nat.le_log2 (by omega)).2 hM
  have htarget : target M x = (M.log2 : ℤ) + x - 52 := by
    unfold target
    omega
  have hshift : (target M x - x).toNat = M.log2 - 52 := by omega
  have hnearest := ((standsFor_exact M).shiftRight (M.log2 - 52)).nearestEven
  generalize hr :
    (ExtendedMantissa.ofMantissaAndAccuracy M .exact >>> (M.log2 - 52)).roundedMantissa = r
    at hnearest
  -- The scaled number is between two powers of two, so the nearest integer is.
  have hpow : (0 : ℚ) < 2 ^ (M.log2 - 52) := by positivity
  have hlow : 2 ^ 52 ≤ r := by
    refine (NearestEven.self (2 ^ 52)).mono hnearest ?_
    rw [le_div_iff₀ hpow]
    have : 2 ^ 52 * 2 ^ (M.log2 - 52) ≤ M := by
      rw [← Nat.pow_add, Nat.add_sub_cancel' hlog]
      exact Nat.log2_self_le (by omega)
    exact_mod_cast this
  have hhigh : r ≤ 2 ^ 53 := by
    refine hnearest.mono (NearestEven.self (2 ^ 53)) ?_
    rw [div_le_iff₀ hpow]
    have : M ≤ 2 ^ 53 * 2 ^ (M.log2 - 52) := by
      rw [← Nat.pow_add, show 53 + (M.log2 - 52) = M.log2 + 1 by omega]
      exact Nat.lt_log2_self.le
    exact_mod_cast this
  rw [← htarget] at ht ⊢
  obtain ⟨m, e, hm, he, hm52, hm53, hele, hvalue⟩ := exists_mantissa hlow hhigh ht
  refine ⟨r, m, e, by omega, hnearest, ?_, hm52, hm53, hele, hvalue⟩
  have hround : roundWithAccuracy Format.binary64 s M x .exact =
      if h : m = 0 then .zero s else .finite s m e (Nat.pos_of_ne_zero h) := by
    unfold roundWithAccuracy
    rw [shiftToTargetExponent_eq .exact (by omega), hshift]
    dsimp only
    rw [hr]
    simp only [hm, he]
  rw [hround, dif_neg (by omega)]

/-- Packing takes numbers of 53 bits that are too large to infinity, and the others to
themselves. -/
theorem place?_ofParts {m : ℕ} {e : ℤ} {hm : 0 < m} (hlow : 2 ^ 52 ≤ m) (hhigh : m < 2 ^ 53)
    (he : -1074 ≤ e) : place? (ofParts (.finite .positive m e hm)) =
      some (min ((m : ℚ) * 2 ^ e) overflow) := by
  -- Up to the largest exponent nothing changes when the number is packed.
  rcases le_or_gt e 971 with hle | hgt
  · have hc : Canonical m e := ⟨hm, hhigh, he, hle, .inl hlow⟩
    have hparts : parts (ofParts (.finite .positive m e hm)) = .finite .positive m e hm :=
      parts_ofParts hc
    unfold place?
    rw [hparts, min_eq_left hc.value_lt.le]
    rfl
  · -- The biased exponent is past the last one, which packs as infinity.
    have hinfinite : ofParts (.finite .positive m e hm) = ofParts (.infinity .positive) := by
      have hpack : pack Format.binary64 (.finite .positive m e hm) =
          pack Format.binary64 (.infinity .positive) := by
        simp only [UnpackedFloat.pack]
        rw [if_pos]
        show 2 ^ 11 ≤ (e + 1023 + 52).toNat + 1
        omega
      unfold ofParts Float.Model.pack
      congr 3
    have hlarge : overflow ≤ m * 2 ^ e := by
      have hm : (2 : ℚ) ^ 52 ≤ m := by exact_mod_cast hlow
      have hpow : (2 : ℚ) ^ (972 : ℤ) ≤ 2 ^ e := zpow_le_zpow_right₀ (by norm_num) (by omega)
      calc overflow = 2 ^ 52 * 2 ^ (972 : ℤ) := by
            unfold overflow
            rw [← zpow_natCast, ← zpow_natCast, ← zpow_add₀ (by norm_num)]
            rfl
        _ ≤ m * 2 ^ e := mul_le_mul hm hpow (by positivity) (by positivity)
    rw [hinfinite, min_eq_right hlarge]
    rfl

end Bits

/-! ### Doubles of whole numbers -/

section OfNat

variable {n n' : ℕ}

/-- The exponent of the double of a whole number, unless it is rounded up to a power of two. -/
def unitExponent (n : ℕ) : ℤ := (n.log2 : ℤ) - 52

/-- Shifting a number up by 53 bits moves its first bit by as many places. -/
theorem log2_shifted (hn : 0 < n) : (n * 2 ^ 53).log2 = n.log2 + 53 := by
  refine (Nat.log2_eq_iff (by omega)).2 ⟨?_, ?_⟩
  · rw [Nat.pow_add]
    exact Nat.mul_le_mul_right _ (Nat.log2_self_le hn.ne')
  · rw [show n.log2 + 53 + 1 = n.log2 + 1 + 53 by omega, Nat.pow_add]
    exact Nat.mul_lt_mul_of_pos_right Nat.lt_log2_self (by decide)

/-- A number of more bits is shifted up by 53 bits first, so that rounding only ever drops bits. -/
theorem ofNat_eq_rounded (hn : 2 ^ 53 ≤ n) : Float.ofNat n =
    ofParts (roundWithAccuracy Format.binary64 .positive (n * 2 ^ 53) (-53) .exact) := by
  have hne : n ≠ 0 := by omega
  have hshift : n <<< 53 * 10 ^ 0 = n * 2 ^ 53 := by rw [Nat.shiftLeft_eq, pow_zero, mul_one]
  have hunpacked : UnpackedFloat.ofScientific Format.binary64 n 0 =
      roundWithAccuracy Format.binary64 .positive (n * 2 ^ 53) (-53) .exact := by
    unfold UnpackedFloat.ofScientific
    rw [dif_neg hne, if_neg (by decide), if_neg (by show ¬ (0 : ℤ) < -(2 ^ 11 + n.log2 : ℤ); omega),
      if_pos le_rfl, ← hshift]
    rfl
  rw [← hunpacked]
  show Float.ofScientific n false 0 = _
  unfold Float.ofScientific
  rw [dif_neg (by omega)]
  rfl

/-- Dropping the bits after the first 53 of the shifted number leaves it in units of its last place.
The shift before and the exponent after it cancel each other. -/
theorem shifted_div_eq (hn : 0 < n) :
    ((n * 2 ^ 53 : ℕ) : ℚ) / 2 ^ ((n * 2 ^ 53).log2 - 52) = n / 2 ^ unitExponent n := by
  have hpow : (2 : ℚ) ^ 53 * 2 ^ unitExponent n = 2 ^ (n.log2 + 1) := by
    rw [← zpow_natCast, ← zpow_natCast, ← zpow_add₀ (by norm_num)]
    congr 1
    unfold unitExponent
    push_cast
    omega
  rw [log2_shifted hn, show n.log2 + 53 - 52 = n.log2 + 1 by omega, ← hpow]
  rw [Nat.cast_mul, Nat.cast_pow, mul_comm (n : ℚ)]
  exact mul_div_mul_left _ _ (by positivity)

/-- The double of a whole number is its nearest multiple of a power of two, or infinity. The power
is that of the last place of the number, also where the nearest multiple is the next power of
two. -/
theorem place?_ofNat (hn : 0 < n) :
    ∃ r, NearestEven ((n : ℚ) / 2 ^ unitExponent n) r ∧
      place? (Float.ofNat n) = some (min ((r : ℚ) * 2 ^ unitExponent n) overflow) := by
  by_cases hbits : n < 2 ^ 53
  · have hlog : n.log2 < 53 := (Nat.log2_lt (by omega)).2 hbits
    have hc := canonical_fullMantissa hn hbits (e := unitExponent n) (by unfold unitExponent; omega)
      (by unfold unitExponent; omega)
    have hvalue : (fullMantissa n : ℚ) * 2 ^ unitExponent n = n := by
      have := fullMantissa_mul hn hbits 0
      rwa [add_zero, zpow_zero, mul_one] at this
    -- Nothing is dropped: the number is a mantissa of 53 bits times the unit.
    refine ⟨fullMantissa n, ?_, ?_⟩
    · rw [← hvalue, mul_div_cancel_right₀ _ (by positivity)]
      exact .self _
    · obtain ⟨hlow, hhigh⟩ := le_fullMantissa hn hbits
      rw [ofNat_eq_self hc hn hvalue]
      exact place?_ofParts hlow hhigh hc.le_exponent
  · obtain ⟨r, m, e, hm, hnearest, hround, hlow, hhigh, he, hvalue⟩ :=
      roundWithAccuracy_bits (s := .positive) (M := n * 2 ^ 53) (x := -53) (by omega)
        (by rw [log2_shifted hn]; omega)
    have hexponent : (((n * 2 ^ 53).log2 : ℕ) : ℤ) + -53 - 52 = unitExponent n := by
      rw [log2_shifted hn]
      unfold unitExponent
      omega
    refine ⟨r, shifted_div_eq hn ▸ hnearest, ?_⟩
    rw [ofNat_eq_rounded (Nat.le_of_not_lt hbits), hround, place?_ofParts hlow hhigh he,
      hvalue, hexponent]

/-- The double of the whole number zero is zero. -/
theorem toRat?_zero : toRat? (Float.ofNat 0) = some 0 := by
  unfold toRat?
  rw [show parts (Float.ofNat 0) = .zero .positive from parts_zero]

/-- Zero is a finite double. -/
theorem isFinite_zero : (0 : Float).isFinite = true := isFinite_of_toRat? toRat?_zero

/-- A whole number in units of the last place of its double has 53 bits, and reaches no further than
`2 ^ 53`. -/
theorem scaled_bounds (hn : 0 < n) :
    ((2 ^ 52 : ℕ) : ℚ) ≤ n / 2 ^ unitExponent n ∧ n / 2 ^ unitExponent n ≤ ((2 ^ 53 : ℕ) : ℚ) := by
  have hpow (k : ℕ) : ((2 ^ k : ℕ) : ℚ) * 2 ^ unitExponent n = 2 ^ ((k : ℤ) + n.log2 - 52) := by
    rw [Nat.cast_pow, Nat.cast_ofNat, ← zpow_natCast, ← zpow_add₀ (by norm_num)]
    congr 1
    unfold unitExponent
    omega
  have hpos : (0 : ℚ) < 2 ^ unitExponent n := by positivity
  constructor
  · rw [le_div_iff₀ hpos, hpow, show ((52 : ℕ) : ℤ) + n.log2 - 52 = (n.log2 : ℕ) by omega,
      zpow_natCast]
    exact_mod_cast Nat.log2_self_le hn.ne'
  · rw [div_le_iff₀ hpos, hpow, show ((53 : ℕ) : ℤ) + n.log2 - 52 = (n.log2 + 1 : ℕ) by omega,
      zpow_natCast]
    exact_mod_cast Nat.lt_log2_self.le

/-- Numbers with the first bit at one place have one exponent, and it is larger for the others
above. In either case their nearest multiples are in the order of the numbers. -/
theorem rounded_le_rounded (hn : 0 < n) (h : n ≤ n') {r r' : ℕ}
    (hr : NearestEven ((n : ℚ) / 2 ^ unitExponent n) r)
    (hr' : NearestEven ((n' : ℚ) / 2 ^ unitExponent n') r') :
    (r : ℚ) * 2 ^ unitExponent n ≤ r' * 2 ^ unitExponent n' := by
  have hle : n.log2 ≤ n'.log2 := (Nat.le_log2 (by omega)).2 (le_trans (Nat.log2_self_le hn.ne') h)
  rcases hle.eq_or_lt with heq | hlt
  · have hunit : unitExponent n' = unitExponent n := by
      unfold unitExponent
      omega
    have hcast : (n : ℚ) ≤ n' := by exact_mod_cast h
    rw [hunit] at hr' ⊢
    have hrr : r ≤ r' := hr.mono hr' (div_le_div_of_nonneg_right hcast (by positivity))
    exact mul_le_mul_of_nonneg_right (by exact_mod_cast hrr) (by positivity)
  · -- The power of two between them is not above the one and not below the other.
    have hhigh : r ≤ 2 ^ 53 := hr.mono (.self _) (scaled_bounds hn).2
    have hlow : 2 ^ 52 ≤ r' := (NearestEven.self _).mono hr' (scaled_bounds (by omega)).1
    have hunit : unitExponent n + 1 ≤ unitExponent n' := by
      unfold unitExponent
      omega
    calc (r : ℚ) * 2 ^ unitExponent n ≤ 2 ^ 53 * 2 ^ unitExponent n :=
          mul_le_mul_of_nonneg_right (by exact_mod_cast hhigh) (by positivity)
      _ = 2 ^ 52 * 2 ^ (unitExponent n + 1) := by
          rw [zpow_add_one₀ (by norm_num)]
          ring
      _ ≤ r' * 2 ^ unitExponent n' :=
          mul_le_mul (by exact_mod_cast hlow) (zpow_le_zpow_right₀ (by norm_num) hunit)
            (by positivity) (by positivity)

/-- The double of a whole number grows with the number, from zero on and up to infinity. -/
theorem ofNat_le_ofNat (h : n ≤ n') : Float.ofNat n ≤ Float.ofNat n' := by
  rcases Nat.eq_zero_or_pos n' with rfl | hn'
  · rw [Nat.le_zero.1 h]
    exact Double.le_refl isFinite_zero
  obtain ⟨r', hr', hplace'⟩ := place?_ofNat hn'
  rcases Nat.eq_zero_or_pos n with rfl | hn
  · rw [le_iff_place_le (place?_of_toRat? toRat?_zero) hplace']
    exact le_min (by positivity) overflow_pos.le
  · obtain ⟨r, hr, hplace⟩ := place?_ofNat hn
    rw [le_iff_place_le hplace hplace']
    exact min_le_min_right _ (rounded_le_rounded hn h hr hr')

/-- A whole number that is a finite double is its own double, however large it is. -/
theorem toRat?_ofNat_of_canonical {m : ℕ} {e : ℤ} (hc : Canonical m e) (h : (m * 2 ^ e : ℚ) = n) :
    toRat? (Float.ofNat n) = some (n : ℚ) := by
  have hn : 0 < n := by
    have := hc.value_pos
    rw [h] at this
    exact_mod_cast this
  have hparts : parts (Float.ofNat n) = .finite .positive m e hc.pos := by
    rw [ofNat_eq_self hc hn h]
    exact parts_ofParts hc
  unfold toRat?
  rw [hparts, ← h]
  rfl

/-- The whole numbers of at most 53 bits, and the next one, are doubles. The next one is a power of
two, and needs only one bit. -/
theorem toRat?_ofNat (h : n ≤ 2 ^ 53) : toRat? (Float.ofNat n) = some (n : ℚ) := by
  rcases Nat.eq_zero_or_pos n with rfl | hn
  · exact toRat?_zero
  rcases h.lt_or_eq with hlt | rfl
  · have hlog : n.log2 < 53 := (Nat.log2_lt (by omega)).2 hlt
    have hvalue := fullMantissa_mul hn hlt 0
    rw [zpow_zero, mul_one] at hvalue
    exact toRat?_ofNat_of_canonical (canonical_fullMantissa hn hlt (by omega) (by omega)) hvalue
  · have hc : Canonical (2 ^ 52) 1 := ⟨by decide, by decide, by decide, by decide, .inl le_rfl⟩
    exact toRat?_ofNat_of_canonical hc (by norm_num)

end OfNat

/-! ### Multiples of a step -/

/-- Zero times a finite double is a zero, whose sign is that of the double. -/
theorem parts_zero_mul {y : Float} (hy : y.isFinite = true) :
    ∃ s, parts (Float.ofNat 0 * y) = .zero s := by
  have hmul : Float.ofNat 0 * y =
      ofParts (UnpackedFloat.mul Format.binary64 (.zero .positive) (parts y)) := by
    rw [← show parts (Float.ofNat 0) = .zero .positive from parts_zero]
    rfl
  rw [isFinite_iff] at hy
  rw [hmul]
  cases hparts : parts y with
  | notANumber | infinity s =>
    rw [hparts] at hy
    cases hy
  | zero s | finite s m e hm => exact ⟨_, parts_ofParts trivial⟩

/-- The first of the multiples of a step is added without effect, but that a negative zero may lose
its sign. The comparison does not tell the two zeros apart. -/
theorem add_zero_mul_beq {x y : Float} (hx : x.isFinite = true) (hy : y.isFinite = true) :
    (x + Float.ofNat 0 * y == x) = true := by
  obtain ⟨s, hs⟩ := parts_zero_mul hy
  have hadd :
      x + Float.ofNat 0 * y = ofParts (UnpackedFloat.add Format.binary64 (parts x) (.zero s)) := by
    rw [← hs]
    rfl
  rw [isFinite_iff] at hx
  cases hparts : parts x with
  | notANumber | infinity t =>
    rw [hparts] at hx
    cases hx
  | zero t =>
    -- A sum of two zeros is a zero, and all zeros are equal.
    have hzero : place? x = some 0 := by
      unfold place?
      rw [hparts]
      rfl
    refine (beq_iff_place_eq ?_ hzero).2 rfl
    unfold place?
    rw [hadd, hparts]
    cases s <;> cases t <;> rfl
  | finite t m e hm =>
    have hself : x + Float.ofNat 0 * y = x := by
      rw [hadd, hparts, ← ofParts_parts x, hparts]
      rfl
    have hplace : place? x = some (signed t (m * 2 ^ e)) := by
      unfold place?
      rw [hparts]
      rfl
    rw [hself]
    exact (beq_iff_place_eq hplace hplace).2 rfl

end UnitPlane.Double
