import UnitPlane.Proofs.Double.Integer

/-!
# `UnitPlane.Proofs.Double.Order`: the order of doubles

Every double but the one that is no number has a place on the number line. That of a finite double
is the rational number that it is. An infinity has the place of the power of two next above all
finite doubles, so that an overflow moves a number to a place not beyond its own. Doubles compare as
their places do:

* `compare_parts`: the comparison of two doubles is that of their places.
* `lt_iff_place_lt` and `le_iff_place_le`, and from them the laws of an order: `lt_trans`,
  `lt_of_le_of_lt`, `lt_of_not_le`.
* `isFinite_iff_abs_lt` and `isFinite_of_le_of_le`: the finite doubles lie between the infinities.
* `sameUpToZeroSign_of_le_of_le`: doubles that are not above each other are the same, but for the
  sign of a zero.
-/

set_option autoImplicit false

namespace UnitPlane.Double

open Float.Model Float.Model.UnpackedFloat

/-! ### Places -/

/-- The place of the infinity above all finite doubles: the power of two next above them. -/
def overflow : ℚ := 2 ^ 1024

/-- A magnitude on the side of the sign. -/
def signed : Sign → ℚ → ℚ
  | .positive, v => v
  | .negative, v => -v

/-- The place of unpacked parts on the number line. Both zeros have the same place, and only what is
no number has none. -/
def place : UnpackedFloat → Option ℚ
  | .notANumber => none
  | .infinity s => some (signed s overflow)
  | .zero _ => some 0
  | .finite s m e _ => some (signed s (m * 2 ^ e))

/-- The place of a double on the number line. Unlike `toRat?`, it is there for infinities too. -/
def place? (x : Float) : Option ℚ := place (parts x)

/-- The place of infinity is above zero. -/
theorem overflow_pos : 0 < overflow := by
  unfold overflow
  positivity

/-- A signed mantissa times a number is the product on the side of the sign. -/
theorem apply_mul (s : Sign) (m : ℕ) (v : ℚ) : ((s.apply m : ℤ) : ℚ) * v = signed s (m * v) := by
  cases s with
  | positive => rfl
  | negative =>
    show ((-(m : ℤ) : ℤ) : ℚ) * v = -(m * v)
    rw [Int.cast_neg, neg_mul]
    rfl

/-- A finite double has its place at the number that it is. -/
theorem place?_of_toRat? {x : Float} {q : ℚ} (h : toRat? x = some q) : place? x = some q := by
  unfold toRat? at h
  unfold place?
  cases hx : parts x with
  | notANumber | infinity s =>
    rw [hx] at h
    cases h
  | zero s =>
    rw [hx] at h
    exact h
  | finite s m e hm =>
    rw [hx] at h
    rw [← h]
    exact congrArg some (apply_mul s m _).symm

/-- A finite double is a rational number. The laws of doubles are proved by going over to these
numbers. -/
theorem exists_toRat? {x : Float} (h : x.isFinite = true) : ∃ q, toRat? x = some q := by
  rw [isFinite_iff] at h
  unfold toRat?
  cases hx : parts x with
  | notANumber | infinity s =>
    rw [hx] at h
    cases h
  | zero s => exact ⟨0, rfl⟩
  | finite s m e hm => exact ⟨_, rfl⟩

section Magnitudes

variable {m m' : ℕ} {e e' : ℤ}

/-- Finite doubles are below the place of infinity, because a mantissa has at most 53 bits and an
exponent is at most 971. -/
theorem Canonical.value_lt (h : Canonical m e) : (m * 2 ^ e : ℚ) < overflow := by
  have hm : (m : ℚ) < 2 ^ 53 := by exact_mod_cast h.lt
  have he : (2 : ℚ) ^ e ≤ 2 ^ (971 : ℤ) := zpow_le_zpow_right₀ (by norm_num) h.exponent_le
  calc (m * 2 ^ e : ℚ) < 2 ^ 53 * 2 ^ e := by
        have : (0 : ℚ) < 2 ^ e := by positivity
        nlinarith
    _ ≤ 2 ^ 53 * 2 ^ (971 : ℤ) := by linarith
    _ = overflow := by
      unfold overflow
      rw [← zpow_natCast, ← zpow_natCast, ← zpow_add₀ (by norm_num)]
      rfl

/-- A finite double with a mantissa is not zero. -/
theorem Canonical.value_pos (h : Canonical m e) : (0 : ℚ) < m * 2 ^ e :=
  mul_pos (by exact_mod_cast h.pos) (by positivity)

/-- The larger exponent belongs to the larger number: it comes with a mantissa of 53 bits, since
only the smallest exponent allows fewer. -/
theorem Canonical.value_lt_of_exponent_lt (h : Canonical m e) (h' : Canonical m' e') (he : e < e') :
    (m * 2 ^ e : ℚ) < m' * 2 ^ e' := by
  have hlow := h.le_exponent
  have hm : (m : ℚ) < 2 ^ 53 := by exact_mod_cast h.lt
  have hm' : (2 : ℚ) ^ 52 ≤ m' := by exact_mod_cast h'.normal.resolve_right (by omega)
  have hpos : (0 : ℚ) < 2 ^ e := by positivity
  have hpow : (2 : ℚ) * 2 ^ e ≤ 2 ^ e' := by
    rw [← zpow_one_add₀ (by norm_num)]
    exact zpow_le_zpow_right₀ (by norm_num) (by omega)
  calc (m * 2 ^ e : ℚ) < 2 ^ 53 * 2 ^ e := by nlinarith
    _ = 2 ^ 52 * (2 * 2 ^ e) := by ring
    _ ≤ m' * 2 ^ e' := mul_le_mul hm' hpow (by positivity) (by positivity)

/-- Canonical magnitudes are compared by their exponents first, and by their mantissas where these
are equal. This is the order of the numbers. -/
theorem Canonical.compare_eq (h : Canonical m e) (h' : Canonical m' e') :
    (compare e e').then (compare m m') = cmp (m * 2 ^ e : ℚ) (m' * 2 ^ e') := by
  -- Different exponents decide; with equal ones a common factor is left out.
  rcases lt_trichotomy e e' with he | rfl | he
  · rw [compare_lt_iff_lt.2 he, (cmp_eq_lt_iff _ _).2 (h.value_lt_of_exponent_lt h' he)]
    rfl
  · have hpos : (0 : ℚ) < 2 ^ e := by positivity
    have hm : cmp (m : ℚ) m' = cmp m m' := by
      rcases lt_trichotomy m m' with hm | rfl | hm
      · rw [(cmp_eq_lt_iff _ _).2 hm, (cmp_eq_lt_iff _ _).2 (by exact_mod_cast hm)]
      · rw [cmp_self_eq_eq, cmp_self_eq_eq]
      · rw [(cmp_eq_gt_iff _ _).2 hm, (cmp_eq_gt_iff _ _).2 (by exact_mod_cast hm)]
    rw [compare_eq_iff_eq.2 rfl, mul_comm, mul_comm (m' : ℚ), cmp_mul_pos_left hpos, hm,
      cmp_eq_compare]
    rfl
  · rw [compare_gt_iff_gt.2 he, (cmp_eq_gt_iff _ _).2 (h'.value_lt_of_exponent_lt h he)]
    rfl

end Magnitudes

/-! ### Comparisons -/

section Comparisons

variable {p q : ℚ} {a b : UnpackedFloat}

/-- A number below another compares as less with it. -/
theorem some_lt_of_lt (h : p < q) : some Ordering.lt = some (cmp p q) := by
  rw [(cmp_eq_lt_iff p q).2 h]

/-- A number above another compares as greater with it. -/
theorem some_gt_of_lt (h : q < p) : some Ordering.gt = some (cmp p q) := by
  rw [(cmp_eq_gt_iff p q).2 h]

/-- An infinity is beyond every finite number, on its side. This fits the place that is given to
it. -/
theorem compare_infinity (s : Sign) (hb : CanonicalParts b) (hq : place b = some q) :
    UnpackedFloat.compare (.infinity s) b = some (cmp (signed s overflow) q) := by
  have htop := overflow_pos
  cases b with
  | notANumber => cases hq
  | infinity s' =>
    cases hq
    cases s <;> cases s'
    · rw [cmp_self_eq_eq]
      rfl
    · exact some_lt_of_lt (show -overflow < overflow by linarith)
    · exact some_gt_of_lt (show -overflow < overflow by linarith)
    · rw [cmp_self_eq_eq]
      rfl
  | zero s' =>
    cases hq
    cases s with
    | positive => exact some_gt_of_lt htop
    | negative => exact some_lt_of_lt (neg_lt_zero.2 htop)
  | finite s' m e hm =>
    have hpos := Canonical.value_pos hb
    have hlow := Canonical.value_lt hb
    cases hq
    -- The signs decide in two of the cases, and in the other two the infinity is the larger
    -- magnitude.
    cases s <;> cases s'
    · exact some_lt_of_lt (neg_lt_neg hlow)
    · exact some_lt_of_lt (show -overflow < m * 2 ^ e by linarith)
    · exact some_gt_of_lt (show -(m * 2 ^ e) < overflow by linarith)
    · exact some_gt_of_lt hlow

/-- A zero is told from a number by the sign of the number, and the sign of the zero does not
count. -/
theorem compare_zero (s : Sign) (hb : CanonicalParts b) (hq : place b = some q) :
    UnpackedFloat.compare (.zero s) b = some (cmp 0 q) := by
  -- Zero is compared with the sign of the other number.
  cases b with
  | notANumber => cases hq
  | infinity s' =>
    cases hq
    cases s' with
    | positive => exact some_lt_of_lt overflow_pos
    | negative => exact some_gt_of_lt (neg_lt_zero.2 overflow_pos)
  | zero s' =>
    cases hq
    rw [cmp_self_eq_eq]
    rfl
  | finite s' m e hm =>
    have hpos := Canonical.value_pos hb
    cases hq
    cases s' with
    | positive => exact some_lt_of_lt hpos
    | negative => exact some_gt_of_lt (neg_lt_zero.2 hpos)

/-- A finite number is compared by its sign first, and with a number of the same sign by their
magnitudes. -/
theorem compare_finite (s : Sign) {m : ℕ} {e : ℤ} {hm : 0 < m} (ha : Canonical m e)
    (hb : CanonicalParts b) (hq : place b = some q) :
    UnpackedFloat.compare (.finite s m e hm) b = some (cmp (signed s (m * 2 ^ e)) q) := by
  have hpos := ha.value_pos
  have hlow := ha.value_lt
  -- Different signs decide, and so does infinity. Otherwise the magnitudes are compared.
  cases b with
  | notANumber => cases hq
  | infinity s' =>
    cases hq
    cases s <;> cases s'
    · exact some_gt_of_lt (neg_lt_neg hlow)
    · exact some_lt_of_lt (show -(m * 2 ^ e) < overflow by linarith)
    · exact some_gt_of_lt (show -overflow < m * 2 ^ e by linarith)
    · exact some_lt_of_lt hlow
  | zero s' =>
    cases hq
    cases s with
    | positive => exact some_gt_of_lt hpos
    | negative => exact some_lt_of_lt (neg_lt_zero.2 hpos)
  | finite s' m' e' hm' =>
    have hpos' := Canonical.value_pos hb
    have hmagnitudes := Canonical.compare_eq ha hb
    cases hq
    cases s <;> cases s'
    · -- Among negative numbers the larger magnitude is the smaller number.
      show some ((compare e e').then (compare m m')).swap = some (cmp (-_) (-_))
      rw [hmagnitudes, cmp_swap, ← neg_one_mul, ← neg_one_mul (m' * 2 ^ e' : ℚ),
        cmp_mul_neg_left (by norm_num)]
    · exact some_lt_of_lt (show -(m * 2 ^ e : ℚ) < m' * 2 ^ e' by linarith)
    · exact some_gt_of_lt (show -(m' * 2 ^ e' : ℚ) < m * 2 ^ e by linarith)
    · exact congrArg some hmagnitudes

/-- Two doubles that have a place compare as their places do. All laws of comparisons below come
from those of rational numbers by this. -/
theorem compare_parts {x y : Float} (hx : place? x = some p) (hy : place? y = some q) :
    (parts x).compare (parts y) = some (cmp p q) := by
  have hcx := canonicalParts_parts x
  have hcy := canonicalParts_parts y
  unfold place? at hx
  generalize parts x = a at hx hcx
  -- What has a place is an infinity, a zero or a finite number, and each has its own lemma.
  cases a with
  | notANumber => cases hx
  | infinity s =>
    cases hx
    exact compare_infinity s hcy hy
  | zero s =>
    cases hx
    exact compare_zero s hcy hy
  | finite s m e hm =>
    cases hx
    exact compare_finite s hcx hcy hy

end Comparisons

/-! ### The laws of an order -/

section Order

variable {x y z : Float} {p q : ℚ}

/-- One double is below another just when its place is. -/
theorem lt_iff_place_lt (hx : place? x = some p) (hy : place? y = some q) : x < y ↔ p < q := by
  rw [lt_iff, UnpackedFloat.lt, compare_parts hx hy, ← cmp_eq_lt_iff]
  simp

/-- One double is not above another just when its place is not. -/
theorem le_iff_place_le (hx : place? x = some p) (hy : place? y = some q) : x ≤ y ↔ p ≤ q := by
  rw [le_iff, UnpackedFloat.le, compare_parts hx hy, Option.any_some, Ordering.isLE_iff_ne_gt,
    ← not_lt, ← cmp_eq_gt_iff]

/-- Two doubles compare equal just when they have the same place. -/
theorem beq_iff_place_eq (hx : place? x = some p) (hy : place? y = some q) :
    (x == y) = true ↔ p = q := by
  rw [beq_iff, UnpackedFloat.beq, compare_parts hx hy, ← cmp_eq_eq_iff]
  simp

/-- Only a double that is no number has no place, and it does not compare with any. So whatever
compares has a place. -/
theorem exists_place?_of_compare {o : Ordering} (h : (parts x).compare (parts y) = some o) :
    ∃ p q, place? x = some p ∧ place? y = some q := by
  -- Only what is no number cannot be compared, and it is all that has no place.
  have hx : ∃ p, place? x = some p := by
    unfold place?
    cases ha : parts x with
    | notANumber =>
      rw [ha] at h
      cases h
    | infinity s | zero s | finite s => exact ⟨_, rfl⟩
  have hy : ∃ q, place? y = some q := by
    unfold place?
    cases hb : parts y with
    | notANumber =>
      rw [hb] at h
      cases ha : parts x <;> rw [ha] at h <;> cases h
    | infinity s | zero s | finite s => exact ⟨_, rfl⟩
  obtain ⟨p, hp⟩ := hx
  obtain ⟨q, hq⟩ := hy
  exact ⟨p, q, hp, hq⟩

/-- If one double is below another, then both have places, the first below the second. -/
theorem exists_place?_of_lt (h : x < y) :
    ∃ p q, place? x = some p ∧ place? y = some q ∧ p < q := by
  have hcompare : (parts x).compare (parts y) = some .lt := by
    rw [lt_iff] at h
    exact eq_of_beq h
  obtain ⟨p, q, hp, hq⟩ := exists_place?_of_compare hcompare
  exact ⟨p, q, hp, hq, (lt_iff_place_lt hp hq).1 h⟩

/-- If one double is not above another, then both have places, the first not above the second. -/
theorem exists_place?_of_le (h : x ≤ y) :
    ∃ p q, place? x = some p ∧ place? y = some q ∧ p ≤ q := by
  have hcompare : ∃ o, (parts x).compare (parts y) = some o := by
    rw [le_iff, UnpackedFloat.le, Option.any_eq_true] at h
    obtain ⟨o, ho, -⟩ := h
    exact ⟨o, ho⟩
  obtain ⟨o, ho⟩ := hcompare
  obtain ⟨p, q, hp, hq⟩ := exists_place?_of_compare ho
  exact ⟨p, q, hp, hq, (le_iff_place_le hp hq).1 h⟩

/-- Being below is transitive. The double in the middle has one place, so the two comparisons are of
the same three numbers. -/
protected theorem lt_trans (hxy : x < y) (hyz : y < z) : x < z := by
  obtain ⟨p, q, hx, hy, hpq⟩ := exists_place?_of_lt hxy
  obtain ⟨q', r, hy', hz, hqr⟩ := exists_place?_of_lt hyz
  -- The number in the middle has one place.
  rw [hy] at hy'
  cases hy'
  exact (lt_iff_place_lt hx hz).2 (hpq.trans hqr)

/-- What is not above a double is below whatever the double is below. -/
protected theorem lt_of_le_of_lt (hxy : x ≤ y) (hyz : y < z) : x < z := by
  obtain ⟨p, q, hx, hy, hpq⟩ := exists_place?_of_le hxy
  obtain ⟨q', r, hy', hz, hqr⟩ := exists_place?_of_lt hyz
  rw [hy] at hy'
  cases hy'
  exact (lt_iff_place_lt hx hz).2 (hpq.trans_lt hqr)

/-- Not being above is transitive, among all doubles. -/
protected theorem le_trans (hxy : x ≤ y) (hyz : y ≤ z) : x ≤ z := by
  obtain ⟨p, q, hx, hy, hpq⟩ := exists_place?_of_le hxy
  obtain ⟨q', r, hy', hz, hqr⟩ := exists_place?_of_le hyz
  rw [hy] at hy'
  cases hy'
  exact (le_iff_place_le hx hz).2 (hpq.trans hqr)

/-- What is below a double is not above it. -/
protected theorem le_of_lt (h : x < y) : x ≤ y := by
  obtain ⟨p, q, hx, hy, hpq⟩ := exists_place?_of_lt h
  exact (le_iff_place_le hx hy).2 hpq.le

/-- A finite double is equal to itself, and so not below or above itself. A double that is no number
does not even compare with itself. -/
protected theorem le_refl (h : x.isFinite = true) : x ≤ x := by
  obtain ⟨q, hq⟩ := exists_toRat? h
  have hx := place?_of_toRat? hq
  exact (le_iff_place_le hx hx).2 le_rfl

/-- A finite double compares equal to itself. -/
theorem beq_self_of_isFinite (h : x.isFinite = true) : (x == x) = true := by
  obtain ⟨q, hq⟩ := exists_toRat? h
  have hx := place?_of_toRat? hq
  exact (beq_iff_place_eq hx hx).2 rfl

/-- Of two finite doubles one is below the other, unless they are equal. For this both have to be
numbers. -/
theorem lt_of_not_le (hx : x.isFinite = true) (hy : y.isFinite = true) (h : ¬ y ≤ x) : x < y := by
  obtain ⟨p, hp⟩ := exists_toRat? hx
  obtain ⟨q, hq⟩ := exists_toRat? hy
  have hp := place?_of_toRat? hp
  have hq := place?_of_toRat? hq
  rw [le_iff_place_le hq hp, not_le] at h
  exact (lt_iff_place_lt hp hq).2 h

end Order

/-! ### Finite doubles -/

section Finite

variable {x y z : Float} {p v : ℚ}

/-- A finite double is a zero, or has a sign, a mantissa and an exponent in canonical form, which
give its number. -/
theorem parts_of_toRat? (h : toRat? x = some v) :
    (∃ s, parts x = .zero s ∧ v = 0) ∨
      ∃ s m e, ∃ hm : 0 < m, parts x = .finite s m e hm ∧ Canonical m e ∧
        v = signed s (m * 2 ^ e) := by
  unfold toRat? at h
  cases hx : parts x with
  | notANumber | infinity s =>
    rw [hx] at h
    cases h
  | zero s =>
    rw [hx] at h
    exact .inl ⟨s, rfl, (Option.some.inj h).symm⟩
  | finite s m e hm =>
    rw [hx] at h
    have hvalue := Option.some.inj h
    rw [apply_mul] at hvalue
    exact .inr ⟨s, m, e, hm, rfl, canonical_of_parts hx, hvalue.symm⟩

/-- The magnitude of a number on either side is the number without its sign. -/
theorem abs_signed {q : ℚ} (hq : 0 ≤ q) (s : Sign) : |signed s q| = q := by
  cases s with
  | positive => exact abs_of_nonneg hq
  | negative => exact (abs_neg q).trans (abs_of_nonneg hq)

/-- Finite doubles are between the places of the infinities. -/
theorem abs_lt_overflow (h : toRat? x = some v) : |v| < overflow := by
  rcases parts_of_toRat? h with ⟨s, -, rfl⟩ | ⟨s, m, e, hm, -, hc, rfl⟩
  · rw [abs_zero]
    exact overflow_pos
  · rw [abs_signed hc.value_pos.le]
    exact hc.value_lt

/-- A double is finite just when its place is between those of the infinities. So whether a result
is finite can be read off from the bound on it. -/
theorem isFinite_iff_abs_lt (h : place? x = some p) : x.isFinite = true ↔ |p| < overflow := by
  -- Infinities are placed at the bound itself.
  constructor
  · intro hx
    obtain ⟨v, hv⟩ := exists_toRat? hx
    obtain rfl := Option.some.inj (h.symm.trans (place?_of_toRat? hv))
    exact abs_lt_overflow hv
  · intro hp
    rw [isFinite_iff]
    unfold place? at h
    cases hx : parts x with
    | notANumber =>
      rw [hx] at h
      cases h
    | infinity s =>
      rw [hx] at h
      obtain rfl : signed s overflow = p := Option.some.inj h
      rw [abs_signed overflow_pos.le] at hp
      exact absurd hp (lt_irrefl _)
    | zero s | finite s m e hm => rfl

/-- A double whose place is between those of the infinities is the number at its place. -/
theorem toRat?_of_abs_lt (h : place? x = some p) (hp : |p| < overflow) : toRat? x = some p := by
  obtain ⟨v, hv⟩ := exists_toRat? ((isFinite_iff_abs_lt h).2 hp)
  obtain rfl := Option.some.inj (h.symm.trans (place?_of_toRat? hv))
  exact hv

/-- A double between finite ones is finite. -/
theorem isFinite_of_le_of_le (hx : x.isFinite = true) (hz : z.isFinite = true) (hxy : x ≤ y)
    (hyz : y ≤ z) :
    y.isFinite = true := by
  obtain ⟨p, q, hp, hq, hpq⟩ := exists_place?_of_le hxy
  obtain ⟨q', r, hq', hr, hqr⟩ := exists_place?_of_le hyz
  obtain rfl := Option.some.inj (hq.symm.trans hq')
  have hlow := (abs_lt.1 ((isFinite_iff_abs_lt hp).1 hx)).1
  have hhigh := (abs_lt.1 ((isFinite_iff_abs_lt hr).1 hz)).2
  exact (isFinite_iff_abs_lt hq).2 (abs_lt.2 ⟨hlow.trans_le hpq, hqr.trans_lt hhigh⟩)

end Finite

/-! ### Equality up to the sign of a zero -/

section Zeros

variable {x y : Float}

/-- The same double, or a zero with either sign. Comparisons do not tell such doubles apart. -/
def SameUpToZeroSign (x y : Float) : Prop := x = y ∨ (x == 0) = true ∧ (y == 0) = true

/-- The doubles that compare equal to zero are the two zeros. -/
theorem beq_zero_iff : (x == 0) = true ↔ ∃ s, parts x = .zero s := by
  rw [beq_iff, parts_zero]
  cases parts x with
  | notANumber => exact ⟨nofun, nofun⟩
  | infinity s | finite s m e hm => cases s <;> exact ⟨nofun, nofun⟩
  | zero s => exact ⟨fun _ => ⟨s, rfl⟩, fun _ => rfl⟩

/-- Two finite numbers that compare equal have the same sign, mantissa and exponent. -/
theorem finite_eq_of_beq {s s' : Sign} {m m' : ℕ} {e e' : ℤ} {hm : 0 < m} {hm' : 0 < m'}
    (h : UnpackedFloat.beq (.finite s m e hm) (.finite s' m' e' hm') = true) :
    (.finite s m e hm : UnpackedFloat) = .finite s' m' e' hm' := by
  have horder : s = s' ∧ (compare e e').then (compare m m') = .eq := by
    cases s <;> cases s' <;> simp_all [UnpackedFloat.beq, UnpackedFloat.compare]
  obtain ⟨rfl, horder⟩ := horder
  obtain ⟨he, hm⟩ := Ordering.then_eq_eq.1 horder
  exact finite_congr (Std.LawfulEqOrd.compare_eq_iff_eq.1 hm)
    (Std.LawfulEqOrd.compare_eq_iff_eq.1 he)

/-- Doubles that compare equal are the same, but for the sign of a zero. -/
theorem sameUpToZeroSign_of_beq (h : (x == y) = true) : SameUpToZeroSign x y := by
  have hbeq := (beq_iff x y).1 h
  -- Only two zeros, two infinities of one sign, or two finite numbers can compare equal.
  cases hx : parts x with
  | notANumber =>
    rw [hx] at hbeq
    exact nomatch hbeq
  | zero s =>
    rw [hx] at hbeq
    cases hy : parts y with
    | zero s' => exact .inr ⟨beq_zero_iff.2 ⟨s, hx⟩, beq_zero_iff.2 ⟨s', hy⟩⟩
    | notANumber =>
      rw [hy] at hbeq
      exact nomatch hbeq
    | infinity s' | finite s' =>
      rw [hy] at hbeq
      cases s' <;> exact nomatch hbeq
  | infinity s =>
    rw [hx] at hbeq
    refine .inl (eq_of_parts_eq ?_)
    cases hy : parts y with
    | notANumber | zero s' | finite s' =>
      rw [hy] at hbeq
      cases s <;> exact nomatch hbeq
    | infinity s' =>
      rw [hy] at hbeq
      rw [hx]
      cases s <;> cases s' <;> first | rfl | exact nomatch hbeq
  | finite s m e hm =>
    rw [hx] at hbeq
    refine .inl (eq_of_parts_eq ?_)
    cases hy : parts y with
    | notANumber =>
      rw [hy] at hbeq
      exact nomatch hbeq
    | zero s' | infinity s' =>
      rw [hy] at hbeq
      cases s <;> cases s' <;> exact nomatch hbeq
    | finite s' m' e' hm' =>
      rw [hy] at hbeq
      rw [hx]
      exact finite_eq_of_beq hbeq

/-- Doubles that are not above each other are the same, but for the sign of a zero, because they
have the same place. -/
theorem sameUpToZeroSign_of_le_of_le (hxy : x ≤ y) (hyx : y ≤ x) : SameUpToZeroSign x y := by
  obtain ⟨p, q, hx, hy, hpq⟩ := exists_place?_of_le hxy
  have hqp := (le_iff_place_le hy hx).1 hyx
  exact sameUpToZeroSign_of_beq ((beq_iff_place_eq hx hy).2 (le_antisymm hpq hqp))

/-- The sign of a zero does not matter to what it becomes when it is divided, but for the sign: a
zero divided is a zero, or no number whichever sign it has. -/
theorem SameUpToZeroSign.div (h : SameUpToZeroSign x y) (z : Float) :
    SameUpToZeroSign (x / z) (y / z) := by
  obtain rfl | ⟨hx, hy⟩ := h
  · exact .inl rfl
  obtain ⟨s, hs⟩ := beq_zero_iff.1 hx
  obtain ⟨s', hs'⟩ := beq_zero_iff.1 hy
  have hdiv {w : Float} {t : Sign} (hw : parts w = .zero t) :
      parts (w / z) = parts (ofParts (UnpackedFloat.div Format.binary64 (.zero t) (parts z))) := by
    rw [← hw]
    rfl
  -- What a zero is divided by decides the kind of the result, and the signs decide only its sign.
  cases hz : parts z with
  | notANumber | zero u =>
    rw [hz] at hdiv
    exact .inl (eq_of_parts_eq ((hdiv hs).trans (hdiv hs').symm))
  | infinity u | finite u =>
    rw [hz] at hdiv
    exact .inr ⟨beq_zero_iff.2 ⟨_, (hdiv hs).trans (parts_ofParts trivial)⟩,
      beq_zero_iff.2 ⟨_, (hdiv hs').trans (parts_ofParts trivial)⟩⟩

end Zeros

end UnitPlane.Double
