import UnitPlane.Proofs.Json.Scalars

/-!
# `UnitPlane.Proofs.Json.ReadBack`: a written document is read, whatever its layout

Layouts differ in the white space between the parts of a document, and a reader skips it. So a
document reads back to one and the same `Raw` in every layout that puts only white space between the
parts. This is its raw form, `Value.raw`: the same document with its numbers and strings taken apart
into the characters that are written.

The proof follows the document: `ReadBy` says that a text is read as a value wherever it stands, and
there is one lemma for each kind of document, with one lemma for the lists of both arrays and
objects.

* `Value.readBy_write`: a document is read as its raw form, in every layout and wherever it stands.
* `Value.read?_text` and `Value.read?_line`: the same for the whole of a text, without a line break
  at its end and with one.
-/

set_option autoImplicit false

namespace UnitPlane.Json

open Text
open Decimal (digitsOf)
open Decimal.Numeral (goesOn)

/-! ### Layouts -/

/-- A layout that puts only white space between the parts of a document. Both layouts that are used
are of this kind. -/
structure Layout.Spaced (l : Layout) : Prop where
  lineBreak : ∀ depth, ∀ c ∈ l.lineBreak depth, isSpace c
  colon : ∃ blanks, l.colon = ':' :: blanks ∧ ∀ c ∈ blanks, isSpace c

/-- The compact layout puts nothing between the parts. -/
theorem spaced_compact : compact.Spaced where
  lineBreak _ := nofun
  colon := ⟨[], rfl, nofun⟩

/-- The pretty layout puts line breaks and blanks between the parts. -/
theorem spaced_pretty : pretty.Spaced where
  lineBreak depth c hc := by
    rcases List.mem_cons.1 hc with rfl | hc
    · rfl
    · rw [List.eq_of_mem_replicate hc]
      rfl
  colon := ⟨[' '], rfl, fun c hc => by rw [List.mem_singleton.1 hc]; rfl⟩

/-! ### White space -/

section Spaces

variable {blanks rest : List Char} {c : Char} (hblanks : ∀ c ∈ blanks, isSpace c)

include hblanks

/-- No numeral goes on with white space, or with what comes after it where there is none. -/
theorem stops_isSpace_append (hc : goesOn c = false) : Stops goesOn (blanks ++ c :: rest) := by
  cases blanks with
  | nil => exact stops_cons.2 hc
  | cons b blanks =>
    have hb : isSpace b = true := hblanks b (by simp)
    refine stops_cons.2 ?_
    simp only [isSpace, Bool.or_eq_true, beq_iff_eq] at hb
    rcases hb with ((rfl | rfl) | rfl) | rfl <;> rfl

/-- The next character is found behind any white space. -/
theorem next?_append (hc : isSpace c = false) (wanted : Char) :
    next? wanted (blanks ++ c :: rest) = if c = wanted then some rest else none := by
  rw [next?_eq, dropWhile_append_of_stops hblanks (stops_cons.2 hc)]

omit hblanks in
/-- A character that is no white space is the next one itself. -/
theorem next?_cons (hc : isSpace c = false) (wanted : Char) :
    next? wanted (c :: rest) = if c = wanted then some rest else none :=
  next?_append (List.forall_mem_nil _) hc wanted

/-- A document is read behind any white space, by the first character that is none. -/
theorem readOne_append (hc : isSpace c = false) :
    readOne (blanks ++ c :: rest) = readStart c rest := by
  rw [readOne, plain_readValue, dropWhile_append_of_stops hblanks (stops_cons.2 hc)]

end Spaces

/-! ### Lists of elements -/

/-- A text is read as `a` wherever it stands: after white space, and in front of what does not go on
with a numeral. Numbers are the only documents that do not show where they end. -/
def ReadBy {α : Type} (read : List Char → Option (α × List Char)) (cs : List Char) (a : α) : Prop :=
  ∀ blanks rest, (∀ c ∈ blanks, isSpace c) → Stops goesOn rest → read (blanks ++ (cs ++ rest)) =
    some (a, rest)

section Elements

variable {α : Type} {closing : Char} {one : List Char → Option (α × List Char)}
  {all : List Char → Option (List α × List Char)} {l : Layout} {first : List Char}
  {elements : List (List Char)} {a : α} {values : List α}

/-- Elements with commas between them are read up to the closing bracket. In front of each is the
white space of a level deeper, and in front of the bracket that of the level itself. -/
theorem ReadsElements.read (h : ReadsElements closing one all) (hspace : isSpace closing = false)
    (hcomma : closing ≠ ',') (hgoesOn : goesOn closing = false) (hl : l.Spaced) (depth : Nat)
    (hfirst : ReadBy one first a) (helements : List.Forall₂ (ReadBy one) elements values)
    (rest : List Char) :
    all (l.lineBreak (depth + 1) ++ (first ++
      (elements.flatMap (fun e => ',' :: (l.lineBreak (depth + 1) ++ e)) ++
        (l.lineBreak depth ++ closing :: rest)))) = some (a :: values, rest) := by
  have hbreak := hl.lineBreak depth
  -- Each element but the last is followed by a comma.
  induction helements generalizing first a with
  | nil =>
    have hstops : Stops goesOn (l.lineBreak depth ++ closing :: rest) :=
      stops_isSpace_append hbreak hgoesOn
    rw [h, List.flatMap_nil, List.nil_append, hfirst _ _ (hl.lineBreak (depth + 1)) hstops,
      Option.bind_some]
    dsimp only
    rw [next?_append hbreak hspace, if_neg hcomma, next?_append hbreak hspace, if_pos rfl]
    rfl
  | @cons e b elements values he _ ih =>
    rw [h, List.flatMap_cons, List.cons_append, List.cons_append, List.append_assoc,
      List.append_assoc, hfirst _ _ (hl.lineBreak (depth + 1)) (stops_cons.2 rfl), Option.bind_some]
    dsimp only
    rw [next?_cons rfl, if_pos rfl]
    dsimp only
    rw [ih he]
    rfl

/-- What starts with an element does not start with a closing bracket. So a list with elements is
not taken for an empty one. -/
theorem ReadsElements.next?_eq_none (h : ReadsElements closing one all)
    (hone : ∀ cs rest, next? closing cs = some rest → one cs = none) {cs : List Char}
    {r : List α × List Char} (hall : all cs = some r) : next? closing cs = none := by
  cases hnext : next? closing cs with
  | none => rfl
  | some rest =>
    rw [h, hone cs rest hnext] at hall
    exact nomatch hall

end Elements

/-- After a closing bracket there is no document, for either kind of bracket. -/
theorem readOne_eq_none {closing : Char} (hclosing : ∀ rest, readStart closing rest = none)
    (cs rest : List Char) (h : next? closing cs = some rest) : readOne cs = none := by
  rw [next?_eq] at h
  rw [readOne, plain_readValue]
  cases hdrop : cs.dropWhile isSpace with
  | nil => rfl
  | cons c rest' =>
    rw [hdrop] at h
    dsimp only at h ⊢
    split at h
    next heq =>
      rw [heq]
      exact hclosing rest'
    next => exact nomatch h

/-- After a closing brace there is no member: a member starts with a quote. -/
theorem readMember_eq_none (cs rest : List Char) (h : next? '\x7d' cs = some rest) :
    readMember cs = none := by
  rw [next?_eq] at h
  rw [readMember, next?_eq]
  cases hdrop : cs.dropWhile isSpace with
  | nil => rfl
  | cons c rest' =>
    rw [hdrop] at h
    dsimp only at h ⊢
    split at h
    next heq =>
      rw [heq]
      rfl
    next => exact nomatch h

/-- The empty text is no document. -/
theorem read?_empty : read? "" = none := by
  rw [read?_eq, readOne, plain_readValue]
  rfl

/-! ### Scalars -/

/-- A document that starts with a digit is a number without a sign. No digit is the first character
of another kind of document. -/
theorem readStart_of_isDigit {c : Char} (h : c.isDigit) (rest : List Char) :
    readStart c rest = plain (readUnsigned false (c :: rest)) := by
  have hc := mem_digits_of_isDigit h
  simp only [List.mem_cons, List.not_mem_nil, or_false] at hc
  rcases hc with rfl | rfl | rfl | rfl | rfl | rfl | rfl | rfl | rfl | rfl <;> rfl

/-- A numeral of the standard is read as a number without a sign. -/
theorem readBy_numeral {n : Numeral} (h : n.WellFormed) :
    ReadBy readOne n.chars (.number { n with negative := false }) := by
  intro blanks rest hblanks hrest
  have hread := plain_readUnsigned h hrest false
  obtain ⟨c, cs, hchars, hc⟩ : ∃ c cs, n.chars = c :: cs ∧ c.isDigit := by
    cases hwhole : n.whole with
    | nil => exact absurd hwhole h.whole_ne_nil
    | cons c cs => exact ⟨c, _, by rw [Numeral.chars, hwhole]; rfl, h.whole c (by simp [hwhole])⟩
  rw [hchars] at hread ⊢
  rw [List.cons_append, readOne_append hblanks (eq_of_isDigit hc (by decide)),
    readStart_of_isDigit hc]
  exact hread

/-- A minus and a numeral are read as a number with a sign. -/
theorem readBy_negative {n : Numeral} (h : n.WellFormed) :
    ReadBy readOne ('-' :: n.chars) (.number { n with negative := true }) := by
  intro blanks rest hblanks hrest
  rw [List.cons_append, readOne_append hblanks rfl]
  exact plain_readUnsigned h hrest true

/-- The raw form of a number: its numeral, with the sign that is written in front of it. What is no
finite number is null. -/
def Raw.ofFloat (x : Float) : Raw :=
  match numeral? x with
  | none => .null
  | some (sign, n) => .number { n with negative := sign matches .negative }

/-- The parts of a text between its quotes, one for each character. -/
def partsOf (s : String) : List StringPart := s.toList.map partOf

/-- A double is read as its raw form: as null, or as its numeral with a sign or without one. -/
theorem readBy_number (x : Float) : ReadBy readOne (spelling.chars x) (.ofFloat x) := by
  rw [chars_eq, Raw.ofFloat]
  cases h : numeral? x with
  | none => exact fun blanks rest hblanks _ => readOne_append hblanks rfl
  | some r =>
    obtain ⟨sign, n⟩ := r
    have hn := wellFormed_of_numeral? h
    cases sign with
    | negative => exact readBy_negative hn
    | positive => exact readBy_numeral hn

/-- A string in quotes is read as its parts. -/
theorem readBy_quote (s : String) : ReadBy readOne (quote s) (.string (partsOf s)) := by
  intro blanks rest hblanks _
  rw [quote, List.cons_append, List.append_assoc, readOne_append hblanks rfl]
  show (plain (readParts (s.toList.flatMap escape ++ '"' :: rest))).map _ = _
  rw [plain_readParts_escape]
  rfl

/-! ### Documents -/

/-- The name of a member, the colon and the value are read as a member, with the white space that
the layout puts after the colon. -/
theorem readBy_member (name : String) {l : Layout} (hl : l.Spaced) {cs : List Char} {raw : Raw}
    (hcs : ReadBy readOne cs raw) :
    ReadBy readMember (writeName l name ++ cs) (partsOf name, raw) := by
  intro blanks rest hblanks hrest
  obtain ⟨after, hcolon, hafter⟩ := hl.colon
  have htext : writeName l name ++ cs ++ rest =
      '"' :: (name.toList.flatMap escape ++ '"' :: (':' :: (after ++ (cs ++ rest)))) := by
    simp [writeName, quote, hcolon]
  rw [htext, readMember, next?_append hblanks rfl, if_pos rfl, Option.bind_some,
    plain_readParts_escape, Option.bind_some, next?_cons rfl, if_pos rfl, Option.bind_some,
    hcs after rest hafter hrest]
  rfl

/-- Elements in square brackets are read as an array, if each is read as its document. -/
theorem readBy_array {l : Layout} (hl : l.Spaced) (depth : Nat) {elements : List (List Char)}
    {raws : List Raw} (h : List.Forall₂ (ReadBy readOne) elements raws) :
    ReadBy readOne (enclose l depth '[' ']' elements) (.array raws) := by
  intro blanks rest hblanks _
  -- The empty array is told from the others by the closing bracket right behind the opening one.
  cases h with
  | nil => exact readOne_append hblanks rfl
  | @cons first raw elements raws hfirst helements =>
    have hread := readsElements_readItems.read rfl (by decide) rfl hl depth hfirst helements rest
    have hnext := readsElements_readItems.next?_eq_none (readOne_eq_none fun _ => rfl) hread
    simp only [enclose, List.cons_append, List.append_assoc, List.nil_append]
    rw [readOne_append hblanks rfl]
    simp only [readStart]
    rw [hnext, hread]
    rfl

/-- Members in braces are read as an object, if each is read as its member. -/
theorem readBy_object {l : Layout} (hl : l.Spaced) (depth : Nat) {elements : List (List Char)}
    {members : List (List StringPart × Raw)}
    (h : List.Forall₂ (ReadBy readMember) elements members) :
    ReadBy readOne (enclose l depth '\x7b' '\x7d' elements) (.object members) := by
  intro blanks rest hblanks _
  cases h with
  | nil => exact readOne_append hblanks rfl
  | @cons first member elements members hfirst helements =>
    have hread := readsElements_readMembers.read rfl (by decide) rfl hl depth hfirst helements rest
    have hnext := readsElements_readMembers.next?_eq_none readMember_eq_none hread
    simp only [enclose, List.cons_append, List.append_assoc, List.nil_append]
    rw [readOne_append hblanks rfl]
    simp only [readStart]
    rw [hnext, hread]
    rfl

mutual

/-- The raw form of a document: the same document, with its numbers and strings as they are written.
It does not depend on the layout. -/
def Value.raw : Value → Raw
  | .null => .null
  | .bool b => .bool b
  | .natural n => .number (naturalNumeral n)
  | .number x => .ofFloat x
  | .string s => .string (partsOf s)
  | .array items => .array (rawItems items)
  | .object members => .object (rawMembers members)

/-- The raw forms of the elements of an array. -/
def rawItems : List Value → List Raw
  | [] => []
  | v :: items => v.raw :: rawItems items

/-- The raw forms of the members of an object, in the same order. -/
def rawMembers : List (String × Value) → List (List StringPart × Raw)
  | [] => []
  | (name, v) :: members => (partsOf name, v.raw) :: rawMembers members

end

mutual

/-- A document is read as its raw form in every layout, at every depth. The recursion follows the
writer, as for the absence of line breaks. -/
theorem Value.readBy_write {l : Layout} (hl : l.Spaced) :
    (v : Value) → (depth : Nat) → ReadBy readOne (v.write l depth) v.raw
  | .null, _ => fun _ _ hblanks _ => readOne_append hblanks rfl
  | .bool true, _ => fun _ _ hblanks _ => readOne_append hblanks rfl
  | .bool false, _ => fun _ _ hblanks _ => readOne_append hblanks rfl
  | .natural n, _ => by
    have h := readBy_numeral (wellFormed_naturalNumeral n)
    rwa [show (naturalNumeral n).chars = digitsOf n from List.append_nil _] at h
  | .number x, _ => readBy_number x
  | .string s, _ => readBy_quote s
  | .array items, depth => readBy_array hl depth (readBy_writeItems hl items (depth + 1))
  | .object members, depth => readBy_object hl depth (readBy_writeMembers hl members (depth + 1))

/-- The elements of an array are read one by one, each as its raw form. -/
theorem readBy_writeItems {l : Layout} (hl : l.Spaced) : (items : List Value) → (depth : Nat) →
    List.Forall₂ (ReadBy readOne) (writeItems l depth items) (rawItems items)
  | [], _ => .nil
  | v :: items, depth => .cons (v.readBy_write hl depth) (readBy_writeItems hl items depth)

/-- The members of an object are read one by one, each as its name and the raw form of its value. -/
theorem readBy_writeMembers {l : Layout} (hl : l.Spaced) :
    (members : List (String × Value)) → (depth : Nat) →
      List.Forall₂ (ReadBy readMember) (writeMembers l depth members) (rawMembers members)
  | [], _ => .nil
  | (name, v) :: members, depth =>
    .cons (readBy_member name hl (v.readBy_write hl depth)) (readBy_writeMembers hl members depth)

end

/-- A text is read as its document, with or without white space after it. Nothing else may
follow. -/
theorem read?_of_readBy {cs : List Char} {raw : Raw} (h : ReadBy readOne cs raw)
    (blanks : List Char) (hblanks : ∀ c ∈ blanks, isSpace c) (hstops : Stops goesOn blanks) :
    read? (String.ofList (cs ++ blanks)) = some raw := by
  have hread := h [] blanks nofun hstops
  rw [List.nil_append] at hread
  rw [read?_eq, String.toList_ofList, hread, Option.bind_some, if_pos (List.all_eq_true.2 hblanks)]

/-- The text of a document is read as the raw form of the document, whatever the layout. -/
theorem Value.read?_text (v : Value) {l : Layout} (hl : l.Spaced) :
    read? (v.text l) = some v.raw := by
  have hread := read?_of_readBy (v.readBy_write hl 0) [] nofun (stops_nil _)
  rwa [List.append_nil] at hread

/-- The text of a document is read as the same with a line break after it. -/
theorem Value.read?_line (v : Value) {l : Layout} (hl : l.Spaced) : read? (v.line l) = some v.raw :=
  read?_of_readBy (v.readBy_write hl 0) ['\n'] (by simp [isSpace]) (stops_cons.2 rfl)

end UnitPlane.Json
