import UnitPlane.Decimal.Numeral
import UnitPlane.Text.CharClass

/-!
# `UnitPlane.Proofs.Text`: rows of characters of one class

A reader takes the longest row of characters of a class. What is written back to back is told apart
when the row in front is all of the class and what follows does not start in it.

* `takeWhile_append_of_stops` and `dropWhile_append_of_stops`: the row is taken and the rest is
  left.
* `startsName_of_ascii` and `continuesName_of_ascii`: the characters of names, as far as they are
  ASCII.
* `natOfDigits_toDigits`: the digits of a number stand for that number.
-/

set_option autoImplicit false

namespace UnitPlane.Text

/-! ### Rows -/

/-- A text that does not start with a character of a class. A row of characters of this class ends
in front of it, and there is nothing to say of the empty text. -/
def Stops (p : Char → Bool) (cs : List Char) : Prop := ∀ c ∈ cs.head?, p c = false

/-- The empty text does not start with anything, so every row ends at it. -/
@[simp] theorem stops_nil (p : Char → Bool) : Stops p [] := by
  intro c hc
  cases hc

/-- Whether a row ends at a text that has characters is decided by the first of them. -/
@[simp] theorem stops_cons {p : Char → Bool} {c : Char} {cs : List Char} :
    Stops p (c :: cs) ↔ p c = false := by
  simp [Stops]

/-- A row of characters of a class is taken off whole, and nothing after it, if what follows does
not start with a character of the class. -/
theorem takeWhile_append_of_stops {p : Char → Bool} {row rest : List Char} (hrow : ∀ c ∈ row, p c)
    (hrest : Stops p rest) : (row ++ rest).takeWhile p = row := by
  rw [List.takeWhile_append_of_pos hrow]
  cases rest with
  | nil => simp
  | cons c cs => simp [stops_cons.1 hrest]

/-- What is left after a row of characters of a class is what was written behind it, if that does
not start with a character of the class. -/
theorem dropWhile_append_of_stops {p : Char → Bool} {row rest : List Char} (hrow : ∀ c ∈ row, p c)
    (hrest : Stops p rest) : (row ++ rest).dropWhile p = rest := by
  rw [List.dropWhile_append_of_pos hrow]
  cases rest with
  | nil => rfl
  | cons c cs => simp [stops_cons.1 hrest]

/-- Nothing is taken from a text that does not start with a character of the class. -/
theorem takeWhile_of_stops {p : Char → Bool} {cs : List Char} (h : Stops p cs) :
    cs.takeWhile p = [] := by
  rw [← List.nil_append cs, takeWhile_append_of_stops (by simp) h]

/-- A text that does not start with a character of the class is left as it is. -/
theorem dropWhile_of_stops {p : Char → Bool} {cs : List Char} (h : Stops p cs) :
    cs.dropWhile p = cs := by
  conv => lhs; rw [← List.nil_append cs, dropWhile_append_of_stops (by simp) h]

/-- A row of a class ends where the class does, so two texts that agree have the same first row, and
the same text behind it. This is how parts that are written back to back are told apart. -/
theorem append_inj_of_stops {p : Char → Bool} {row row' rest rest' : List Char}
    (hrow : ∀ c ∈ row, p c) (hrow' : ∀ c ∈ row', p c) (hrest : Stops p rest)
    (hrest' : Stops p rest') (h : row ++ rest = row' ++ rest') : row = row' ∧ rest = rest' := by
  have htake := congrArg (List.takeWhile p) h
  have hdrop := congrArg (List.dropWhile p) h
  rw [takeWhile_append_of_stops hrow hrest, takeWhile_append_of_stops hrow' hrest'] at htake
  rw [dropWhile_append_of_stops hrow hrest, dropWhile_append_of_stops hrow' hrest'] at hdrop
  exact ⟨htake, hdrop⟩

/-! ### Blanks -/

/-- There is no white space to skip in the empty text. -/
@[simp] theorem skipBlanks_nil : skipBlanks [] = [] := rfl

/-- Where no white space comes next, none is skipped. -/
theorem skipBlanks_of_stops {cs : List Char} (h : Stops isBlank cs) : skipBlanks cs = cs :=
  dropWhile_of_stops h

/-- A text without blanks has none around it, neither in front nor, read backwards, behind. -/
theorem trim_eq_self {cs : List Char} (h : ∀ c ∈ cs, isBlank c = false) : trim cs = cs := by
  have hstops : Stops isBlank cs := fun c hc => h c (List.mem_of_mem_head? hc)
  have hreverse : Stops isBlank cs.reverse := by
    intro c hc
    exact h c (List.mem_reverse.1 (List.mem_of_mem_head? hc))
  rw [trim, skipBlanks_of_stops hstops, skipBlanks_of_stops hreverse, List.reverse_reverse]

/-- The character that comes next is found, and what is left is the text behind it, if the character
is none of those that are skipped. -/
theorem afterSkip?_cons_self {p : Char → Bool} {c : Char} (hc : p c = false) (cs : List Char) :
    afterSkip? p c (c :: cs) = some ⟨cs, Nat.lt_succ_self cs.length⟩ := by
  unfold afterSkip?
  split
  next h => simp [hc] at h
  next d rest h =>
    simp only [List.dropWhile_cons, hc, Bool.false_eq_true, if_false, List.cons.injEq] at h
    obtain ⟨rfl, rfl⟩ := h
    simp

/-- Another character that comes next is not taken for it: where nothing is skipped, only the first
character counts. -/
theorem afterSkip?_eq_none {p : Char → Bool} {c : Char} {cs : List Char} (hp : Stops p cs)
    (hc : cs.head? ≠ some c) : afterSkip? p c cs = none := by
  unfold afterSkip?
  split
  next => rfl
  next d rest h =>
    rw [dropWhile_of_stops hp] at h
    subst h
    simp only [List.head?_cons, ne_eq, Option.some.injEq] at hc
    simp [hc]

/-- What is in a class without white space is not white space. The classes of names and numbers are
such classes. -/
theorem isBlank_eq_false {p : Char → Bool} (hp : ∀ b, isBlank b → p b = false) {c : Char}
    (hc : p c) :
    isBlank c = false := by
  refine Bool.eq_false_iff.2 fun hblank => ?_
  rw [hp c hblank] at hc
  cases hc

/-! ### Names -/

/-- Two tables without a common range have no common character. The comparison of the ranges is a
computation on the tables, so this can be decided once for each two tables. -/
theorem contains_eq_false_of_apart {r r' : Ranges} {c : Char}
    (hapart : r.all (fun (low, high) => r'.all fun (low', high') => high < low' ||
      high' < low) = true)
    (h : r.contains c) : r'.contains c = false := by
  refine Bool.eq_false_iff.2 fun h' => ?_
  obtain ⟨range, hmem, hrange⟩ := List.any_eq_true.1 h
  obtain ⟨range', hmem', hrange'⟩ := List.any_eq_true.1 h'
  have hboth := List.all_eq_true.1 (List.all_eq_true.1 hapart range hmem) range' hmem'
  simp only [Bool.and_eq_true, Bool.or_eq_true, decide_eq_true_eq] at hrange hrange' hboth
  omega

/-- What lies below every range of a table is not in the table. The bound is compared with the lower
ends only, since the upper ends are above them. -/
theorem contains_eq_false {r : Ranges} {bound : Nat}
    (hr : r.all (fun range => bound ≤ range.1) = true)
    {c : Char} (hc : c.toNat < bound) : r.contains c = false := by
  refine Bool.eq_false_iff.2 fun h => ?_
  obtain ⟨range, hmem, hrange⟩ := List.any_eq_true.1 h
  have hlow := of_decide_eq_true (List.all_eq_true.1 hr range hmem)
  simp only [Bool.and_eq_true, decide_eq_true_eq] at hrange
  omega

/-- A table whose ranges lie beyond ASCII from the `n`-th on holds the ASCII characters of those in
front. The tables are in the order of their ranges, so for ASCII only the first few of them
count. -/
theorem contains_take {r : Ranges} (n : Nat)
    (hr : (r.drop n).all (fun range => 128 ≤ range.1) = true) {c : Char} (hc : c.toNat < 128) :
    r.contains c = Ranges.contains (r.take n) c := by
  have hsplit : Ranges.contains (r.take n ++ r.drop n) c =
      (Ranges.contains (r.take n) c || Ranges.contains (r.drop n) c) := List.any_append
  rw [List.take_append_drop, contains_eq_false hr hc, Bool.or_false] at hsplit
  exact hsplit

/-- The letters of the table that are ASCII are the ones from `a` to `z`, in both cases. -/
theorem contains_letters_of_ascii {c : Char} (hc : c.toNat < 128) :
    letters.contains c = c.isAlpha := by
  rw [contains_take 2 (by decide +kernel) hc, show letters.take 2 = [(65, 90), (97, 122)] from rfl]
  change _ = (decide ('A'.val ≤ c.val ∧ c.val ≤ 'Z'.val) ||
    decide ('a'.val ≤ c.val) && decide (c.val ≤ 'z'.val))
  simp [Ranges.contains, UInt32.le_iff_toNat_le]

/-- The numbers of the table that are ASCII are the ten digits. -/
theorem contains_numbers_of_ascii {c : Char} (hc : c.toNat < 128) :
    numbers.contains c = c.isDigit := by
  rw [contains_take 1 (by decide) hc, show numbers.take 1 = [(48, 57)] from rfl]
  simp [Ranges.contains, Char.isDigit, UInt32.le_iff_toNat_le]

/-- The ASCII characters that a name may start with are the letters and the underscore. The names
that texts are written with are ASCII, so their characters can be decided by this. -/
theorem startsName_of_ascii {c : Char} (hc : c.toNat < 128) :
    startsName c = (c.isAlpha || c == '_') := by
  rw [startsName, contains_letters_of_ascii hc]

/-- The ASCII characters that a name may go on with are the letters, the underscore, and the
digits. -/
theorem continuesName_of_ascii {c : Char} (hc : c.toNat < 128) :
    continuesName c = (c.isAlphanum || c == '_') := by
  rw [continuesName, contains_letters_of_ascii hc, contains_numbers_of_ascii hc]
  rfl

/-- White space is in none of the tables of letters and numbers, and it is no underscore, so it ends
every name. -/
theorem continuesName_of_isBlank (b : Char) (h : isBlank b) : continuesName b = false := by
  have hletters : letters.contains b = false := contains_eq_false_of_apart (by decide +kernel) h
  have hnumbers : numbers.contains b = false := contains_eq_false_of_apart (by decide) h
  have hunderscore : b ≠ '_' := by
    rintro rfl
    exact absurd h (by decide)
  rw [continuesName, hletters, hnumbers]
  exact beq_eq_false_iff_ne.2 hunderscore

/-- Whatever a name may start with it may also go on with. -/
theorem continuesName_of_startsName {c : Char} (h : startsName c) : continuesName c := by
  unfold startsName at h
  unfold continuesName
  rcases Bool.or_eq_true_iff.1 h with h | h <;> simp [h]

/-- A character that starts a name is none that cannot, such as a digit or an operator. -/
theorem ne_of_startsName {c d : Char} (h : startsName c) (hd : startsName d = false) : c ≠ d := by
  rintro rfl
  rw [hd] at h
  cases h

/-! ### Bytes -/

/-- The empty text has no bytes. -/
@[simp] theorem byteLength_nil : byteLength [] = 0 := rfl

/-- The bytes of a text are those of its first character and those of the rest. -/
@[simp] theorem byteLength_cons (c : Char) (cs : List Char) :
    byteLength (c :: cs) = c.utf8Size + byteLength cs := by
  rw [byteLength, String.ofList_cons, String.utf8ByteSize_append, String.utf8ByteSize_singleton]
  rfl

/-- The bytes of two texts one after the other are the bytes of both. Positions in a text are
counted in bytes, so this is how far a reader has come. -/
theorem byteLength_append (cs ds : List Char) :
    byteLength (cs ++ ds) = byteLength cs + byteLength ds := by
  induction cs with
  | nil => rw [List.nil_append, byteLength_nil, Nat.zero_add]
  | cons c cs ih => rw [List.cons_append, byteLength_cons, byteLength_cons, ih, Nat.add_assoc]

/-- A text of characters that take one byte has as many bytes as characters. Spaces and the
spellings of operators are such texts. -/
theorem byteLength_eq_length {cs : List Char} (h : ∀ c ∈ cs, c.utf8Size = 1) :
    byteLength cs = cs.length := by
  induction cs with
  | nil => rfl
  | cons c cs ih =>
    rw [byteLength_cons, h c (by simp), ih fun d hd => h d (by simp [hd]), List.length_cons,
      Nat.add_comm]

/-! ### Digits -/

/-- The digit characters, one by one. There are only ten of them, so that what holds of each of the
ten holds of every digit. -/
theorem mem_digits_of_isDigit {c : Char} (h : c.isDigit) :
    c ∈ ['0', '1', '2', '3', '4', '5', '6', '7', '8', '9'] := by
  obtain ⟨hlow, hhigh⟩ := Char.isDigit_iff_toNat.1 h
  have hn : c.toNat - 48 < 10 := by
    have : c.toNat ≤ 57 := hhigh
    omega
  -- The character is known from how far it is from the character zero, which leaves ten cases.
  have hc : c = Char.ofNat (c.toNat - 48 + 48) := by
    have : 48 ≤ c.toNat := hlow
    rw [show c.toNat - 48 + 48 = c.toNat by omega, Char.ofNat_toNat]
  rw [hc]
  generalize c.toNat - 48 = n at hn
  decide +revert

/-- A test that gives one answer on the ten digits gives it on every digit character. The ten
answers are computed. -/
theorem eq_of_isDigit {p : Char → Bool} {b : Bool} {c : Char} (h : c.isDigit)
    (hall : ['0', '1', '2', '3', '4', '5', '6', '7', '8', '9'].all (fun d => p d == b) = true) :
    p c = b :=
  eq_of_beq (List.all_eq_true.1 hall c (mem_digits_of_isDigit h))

/-- A digit is no white space. -/
theorem isBlank_of_isDigit {c : Char} (h : c.isDigit) : isBlank c = false :=
  eq_of_isDigit h (by decide)

/-- White space is no digit. -/
theorem isDigit_of_isBlank (b : Char) (h : isBlank b) : b.isDigit = false := by
  cases hb : b.isDigit with
  | false => rfl
  | true =>
    rw [isBlank_of_isDigit hb] at h
    cases h

/-- What starts with a digit has no sign in front of it, so nothing is split off. -/
theorem splitSign_of_isDigit {c : Char} (h : c.isDigit) (cs : List Char) :
    Decimal.splitSign (c :: cs) = (false, c :: cs) := by
  unfold Decimal.splitSign
  split
  next heq =>
    cases heq
    exact absurd h (by decide)
  next heq =>
    cases heq
    exact absurd h (by decide)
  next => rfl

/-- The digits of a number stand for that number: writing a number in decimal and reading the digits
gives it back. -/
theorem natOfDigits_toDigits (n : Nat) : Decimal.natOfDigits 0 (Nat.toDigits 10 n) = n := by
  have h := Nat.ofDigitChars_ten_toDigits (n := n)
  rw [Nat.ofDigitChars_eq_foldl] at h
  exact h

/-- The digits of a number are digits. -/
theorem isDigit_of_mem_toDigits {n : Nat} {c : Char} (h : c ∈ Nat.toDigits 10 n) : c.isDigit :=
  Nat.isDigit_of_mem_toDigits (by decide) (by decide) h

/-- A written number starts with a digit. -/
theorem stops_toDigits {p : Char → Bool} (hp : ∀ c : Char, c.isDigit → p c = false) (n : Nat)
    (rest : List Char) : Stops p (Nat.toDigits 10 n ++ rest) := by
  cases h : Nat.toDigits 10 n with
  | nil => exact absurd h Nat.toDigits_ne_nil
  | cons c cs => exact stops_cons.2 (hp c (isDigit_of_mem_toDigits (n := n) (by simp [h])))

end UnitPlane.Text
