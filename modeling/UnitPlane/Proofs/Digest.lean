import UnitPlane.Grid
import UnitPlane.Proofs.MeasureUnit.BaseUnitText
import UnitPlane.Proofs.Plane
import UnitPlane.Proofs.Text.Bytes

/-!
# `UnitPlane.Proofs.Digest`: what a digest tells apart

The digest of a grid is the hash of a row of bytes: the numbers of rows and columns as words of
eight bytes, the bytes of the unit's expression, and a word for the bits of each cell. Nothing says
where the expression ends, so the row cannot be taken apart from the left alone. But the words in
front say how many cells there are, so the cells are taken off at the end, and the expression is
what is left in between.

`Frame` is what such a row is made of, with any words of 64 bits for the cells. The frame of a grid
has the bits of its cells, where all cells that are no number have the same bits.

* `Frame.bytes_injective`: different frames have different rows of bytes.
* `Grid.digest_identifies`: grids have one row of bytes just when they have the same shape,
  expression and bits, and two rows of bytes have one digest only where the hash has a collision.
-/

set_option autoImplicit false

namespace UnitPlane

/-! ### Rows of bytes -/

/-- Pieces of one length, written one after another, are known from the whole: the first piece is a
prefix of this length, and the others are what is left. -/
theorem flatMap_injective {α β : Type} {f : α → List β} {n : Nat} (hf : Function.Injective f)
    (hlength : ∀ x, (f x).length = n + 1) : Function.Injective fun xs : List α => xs.flatMap f := by
  have hne (x : α) (rest : List β) : f x ++ rest ≠ [] :=
    List.append_ne_nil_of_left_ne_nil (List.ne_nil_of_length_eq_add_one (hlength x)) rest
  intro xs
  -- The induction is on the pieces; pieces have at least one entry, so none of them is overlooked.
  induction xs with
  | nil =>
    intro ys h
    cases ys with
    | nil => rfl
    | cons y ys => exact absurd h.symm (hne y _)
  | cons x xs ih =>
    intro ys h
    cases ys with
    | nil => exact absurd h (hne x _)
    | cons y ys =>
      simp only [List.flatMap_cons] at h
      obtain ⟨hpiece, hrest⟩ := List.append_inj h ((hlength x).trans (hlength y).symm)
      rw [hf hpiece, ih hrest]

namespace Grid

/-- A word has eight bytes, whatever it is. -/
@[simp] theorem length_wordBytes (w : UInt64) : (wordBytes w).length = 8 := rfl

/-- The bytes of a word are read back, the lowest first, and give the number of the word. -/
theorem foldr_wordBytes (w : UInt64) :
    (wordBytes w).foldr (fun b n => b.toNat + 256 * n) 0 = w.toNat := by
  have hw := w.toNat_lt
  simp only [wordBytes, List.foldr_cons, List.foldr_nil, UInt64.toNat_toUInt8,
    UInt64.toNat_shiftRight, Nat.shiftRight_eq_div_pow, UInt64.reduceToNat, Nat.reduceMod,
      Nat.reducePow]
  omega

/-- Different words have different bytes. -/
theorem wordBytes_injective : Function.Injective wordBytes := by
  intro v w h
  rw [← UInt64.toNat_inj, ← foldr_wordBytes v, h, foldr_wordBytes]

/-- A row of words has eight bytes for each of them. -/
theorem length_flatMap_wordBytes (words : List UInt64) :
    (words.flatMap wordBytes).length = 8 * words.length := by
  induction words with
  | nil => rfl
  | cons w words ih =>
    rw [List.flatMap_cons, List.length_append, ih, length_wordBytes, List.length_cons]
    omega

end Grid

namespace Blake3

/-- The hexadecimal digits are different characters. -/
theorem eq_of_digitChar_eq :
    ∀ m < 16, ∀ n < 16, Nat.digitChar m = Nat.digitChar n → m = n := by decide

/-- Different bytes have different pairs of hexadecimal digits. -/
theorem hexByte_injective : Function.Injective hexByte := by
  intro b c h
  have hb := b.toNat_lt
  have hc := c.toNat_lt
  simp only [hexByte, List.cons.injEq, and_true] at h
  have hhigh := eq_of_digitChar_eq _ (by omega) _ (by omega) h.1
  have hlow := eq_of_digitChar_eq _ (by omega) _ (by omega) h.2
  rw [← UInt8.toNat_inj]
  omega

/-- Bytes are known from their hexadecimal digits, two for each byte. So a digest, which is written
in these digits, tells hashes apart. -/
theorem hex_injective : Function.Injective hex := by
  intro m n h
  exact flatMap_injective hexByte_injective (fun _ => rfl) (String.ofList_inj.1 h)

/-- Different rows of bytes with one hash. That there are none that anyone could find is what such a
hash is meant for, and nothing of this kind is used here. -/
def Collision (m n : List UInt8) : Prop := m ≠ n ∧ hash m = hash n

/-- Two rows of bytes have one hash just when they are one row or a collision. -/
theorem hash_eq_iff {m n : List UInt8} : hash m = hash n ↔ m = n ∨ Collision m n := by
  constructor
  · intro h
    by_cases hmn : m = n
    · exact .inl hmn
    · exact .inr ⟨hmn, h⟩
  · rintro (rfl | h)
    · rfl
    · exact h.2

end Blake3

/-! ### Frames -/

/-- The parts of what a digest is taken of, with a word for each cell, row by row. -/
structure Frame where
  rows : Nat
  cols : Nat
  expr : String
  cells : List UInt64
  rows_lt : rows < UInt64.size
  cols_lt : cols < UInt64.size
  length_cells : cells.length = rows * cols

namespace Frame

open Grid

/-- The row of bytes of a frame: the two words for the shape, the expression of the unit, and the
words of the cells. -/
def bytes (f : Frame) : List UInt8 :=
  wordBytes f.rows.toUInt64 ++ wordBytes f.cols.toUInt64 ++ f.expr.toUTF8.toList ++
    f.cells.flatMap wordBytes

/-- Numbers of 64 bits are known from their words. -/
theorem toUInt64_inj {m n : Nat} (hm : m < UInt64.size) (hn : n < UInt64.size)
    (h : m.toUInt64 = n.toUInt64) : m = n := by
  have hnat : m.toUInt64.toNat = n.toUInt64.toNat := congrArg UInt64.toNat h
  simpa [Nat.mod_eq_of_lt hm, Nat.mod_eq_of_lt hn] using hnat

/-- Different frames have different rows of bytes. The expression may have any length, but the shape
says how many bytes the cells take at the end. -/
theorem bytes_injective : Function.Injective bytes := by
  intro f g h
  obtain ⟨rows, cols, expr, cells, hrows, hcols, hcells⟩ := f
  obtain ⟨rows', cols', expr', cells', hrows', hcols', hcells'⟩ := g
  -- The two words in front have the same places in both rows.
  simp only [bytes, List.append_assoc] at h
  obtain ⟨hfirst, h₁⟩ := List.append_inj h rfl
  obtain ⟨hsecond, h₂⟩ := List.append_inj h₁ rfl
  obtain rfl := toUInt64_inj hrows hrows' (wordBytes_injective hfirst)
  obtain rfl := toUInt64_inj hcols hcols' (wordBytes_injective hsecond)
  -- Now both have as many cells, so what stands in front of these is of one length as well.
  have hlength : (cells.flatMap wordBytes).length = (cells'.flatMap wordBytes).length := by
    rw [length_flatMap_wordBytes, length_flatMap_wordBytes, hcells, hcells']
  obtain ⟨htext, hwords⟩ := List.append_inj' h₂ hlength
  obtain rfl := Text.toList_toUTF8_inj.1 htext
  obtain rfl := flatMap_injective wordBytes_injective length_wordBytes hwords
  rfl

end Frame

namespace Grid

/-- The numbers of rows and columns are words of 64 bits, as those of every plane that fits into a
memory are. -/
structure Addressable (g : Grid) : Prop where
  rows_lt : g.plane.rows < UInt64.size
  cols_lt : g.plane.cols < UInt64.size

/-- The frame of a grid. -/
def frame (g : Grid) (h : g.Addressable) : Frame where
  rows := g.plane.rows
  cols := g.plane.cols
  expr := g.unit.expr
  cells := g.plane.cells.toList.map Float.toBits
  rows_lt := h.rows_lt
  cols_lt := h.cols_lt
  length_cells := by rw [List.length_map, Array.length_toList, g.plane.size_cells]

variable {a b : Grid}

/-- The row of bytes of the frame is what the digest of the grid is taken of. -/
theorem bytes_frame (h : a.Addressable) : (a.frame h).bytes = a.digestInput := by
  simp only [Frame.bytes, frame, digestInput, List.flatMap_map]

/-- The same shape, the same expression of the unit, and the same bits in each cell. -/
structure SameBits (a b : Grid) : Prop where
  rows : a.plane.rows = b.plane.rows
  cols : a.plane.cols = b.plane.cols
  expr : a.unit.expr = b.unit.expr
  bits : ∀ (j i : Nat) (hj : j < a.plane.rows) (hi : i < a.plane.cols),
    (a.plane.cell j i hj hi).toBits = (b.plane.cell j i (rows ▸ hj) (cols ▸ hi)).toBits

/-- Doubles are known from their bits. All doubles that are no number are one, and have one row of
bits. -/
theorem toBits_injective : Function.Injective Float.toBits := by
  intro x y h
  obtain ⟨⟨u, hu⟩⟩ := x
  obtain ⟨⟨v, hv⟩⟩ := y
  obtain rfl : u = v := h
  rfl

/-- Grids have the same bits just when their planes and the expressions of their units are the
same. -/
theorem sameBits_iff : a.SameBits b ↔ a.plane = b.plane ∧ a.unit.expr = b.unit.expr := by
  constructor
  · intro h
    refine ⟨Plane.ext_cell h.rows h.cols ?_, h.expr⟩
    intro j i hj hi
    exact toBits_injective (h.bits j i hj hi)
  · rintro ⟨hplane, hexpr⟩
    obtain ⟨plane, dimension, unit⟩ := a
    obtain rfl : plane = b.plane := hplane
    exact ⟨rfl, rfl, hexpr, fun _ _ _ _ => rfl⟩

/-- Grids have one row of bytes just when they have the same shape, expression and bits. This is
what the frames say of the grids that they are taken of. -/
theorem digestInput_eq_iff (ha : a.Addressable) (hb : b.Addressable) :
    a.digestInput = b.digestInput ↔ a.SameBits b := by
  rw [sameBits_iff]
  constructor
  · intro h
    rw [← bytes_frame ha, ← bytes_frame hb] at h
    -- The framing loses nothing, so equal bytes have equal frames.
    have hframe : a.frame ha = b.frame hb := Frame.bytes_injective h
    simp only [frame, Frame.mk.injEq] at hframe
    obtain ⟨hrows, hcols, hexpr, hbits⟩ := hframe
    have hcells : a.plane.cells.toList = b.plane.cells.toList :=
      (List.map_inj_right fun _ _ => @toBits_injective _ _).1 hbits
    refine ⟨Plane.ext_cell hrows hcols ?_, hexpr⟩
    intro j i hj hi
    simp only [Plane.cell, Array.toList_inj.1 hcells, hcols]
  · rintro ⟨hplane, hexpr⟩
    rw [digestInput, hplane, hexpr, digestInput]

/-! ### Digests -/

/-- The digests of two grids are the same when their rows of bytes are, or where the hash has a
collision. The hexadecimal digits add nothing to this. -/
theorem digest_eq_iff (ha : a.Addressable) (hb : b.Addressable) :
    a.digest = b.digest ↔ a.SameBits b ∨ Blake3.Collision a.digestInput b.digestInput := by
  rw [digest, digest, String.append_right_inj, Blake3.hex_injective.eq_iff, Blake3.hash_eq_iff,
    digestInput_eq_iff ha hb]

/-- A grid with rows and columns exchanged has words for both, too. -/
theorem Addressable.transpose (h : a.Addressable) : a.transpose.Addressable :=
  ⟨h.cols_lt, h.rows_lt⟩

/-- A grid in the base unit of its dimension is known from its plane and the expression of its unit.
The expression tells the dimension, and the unit follows from this. -/
theorem SameBits.eq_of_base (h : a.SameBits b) (ha : a.unit = .base a.dimension)
    (hb : b.unit = .base b.dimension) : a = b := by
  obtain ⟨hplane, hexpr⟩ := sameBits_iff.1 h
  obtain ⟨plane, dimension, unit⟩ := a
  obtain ⟨plane', dimension', unit'⟩ := b
  obtain rfl : plane = plane' := hplane
  obtain rfl : unit = .base dimension := ha
  obtain rfl : unit' = .base dimension' := hb
  obtain rfl : dimension = dimension' := Dimension.baseUnit_injective hexpr
  rfl

/-- Different frames have different rows of bytes. So two grids have one row of bytes just when they
have the same shape, expression and bits, and if their digests are the same without this, they are a
collision of the hash. The same goes for a grid and its transpose. Between grids in their base
units, nothing is left that a digest does not tell apart. -/
theorem digest_identifies (ha : a.Addressable) (hb : b.Addressable) :
    Function.Injective Frame.bytes ∧ a.digestInput = (a.frame ha).bytes ∧
    (a.digestInput = b.digestInput ↔ a.SameBits b) ∧
    (a.digest = b.digest ↔ a.SameBits b ∨ Blake3.Collision a.digestInput b.digestInput) ∧
    (a.digest = a.transpose.digest ↔
      a.SameBits a.transpose ∨ Blake3.Collision a.digestInput a.transpose.digestInput) ∧
    (a.unit = .base a.dimension → b.unit = .base b.dimension → a.digest = b.digest →
      a = b ∨ Blake3.Collision a.digestInput b.digestInput) := by
  refine ⟨Frame.bytes_injective, (bytes_frame ha).symm, digestInput_eq_iff ha hb,
    digest_eq_iff ha hb, digest_eq_iff ha ha.transpose, ?_⟩
  intro hunit hunit' h
  rcases (digest_eq_iff ha hb).1 h with hsame | hcollision
  · exact .inl (hsame.eq_of_base hunit hunit')
  · exact .inr hcollision

/-- A row of two cells and the column of the same cells have different rows of bytes, although their
cells are written in the same order. -/
theorem digest_identifies_row :
    (inBaseUnit ⟨1, 2, #[1, 2], rfl⟩ .dimensionless).digestInput ≠
      (inBaseUnit ⟨1, 2, #[1, 2], rfl⟩ .dimensionless).transpose.digestInput := by
  have ha : (inBaseUnit ⟨1, 2, #[1, 2], rfl⟩ .dimensionless).Addressable := ⟨by decide, by decide⟩
  intro h
  have hsame := (digest_identifies ha ha.transpose).2.2.1.1 h
  exact absurd hsame.rows (by decide)

end Grid

end UnitPlane
