import UnitPlane.Payload.Json
import UnitPlane.Proofs.Json.ReadBack
import UnitPlane.Proofs.Lines
import UnitPlane.Proofs.Text.Bytes

/-!
# `UnitPlane.Proofs.Json.Lines`: documents on a line each

A compact document puts nothing between its parts, writes numbers without any line break, and
escapes the line breaks in its strings. So the only line breaks in a row of compact documents are
those that end them, and the documents are found again by cutting the row at its line breaks. This
goes for the bytes of the row as well as for its characters, because the byte of a line break is
part of no other character.

* `newline_notMem_write`: a compact document has no line break in it.
* `Sink.written_foldl_emit`: what payloads in a row add to what is written.
* `Sink.lines_of_emitted`: the bytes of compact documents in a row, cut at the line breaks, are
  those of the documents.
-/

set_option autoImplicit false

namespace UnitPlane

namespace Json

open Decimal (digitsOf)

/-! ### Scalars -/

/-- A numeral of the standard has the characters of numerals only, and a line break is not among
them. -/
theorem Numeral.WellFormed.isNumeralChar {n : Numeral} (h : n.WellFormed) {c : Char}
    (hc : c ∈ n.chars) :
    isNumeralChar c = true := by
  obtain ⟨negative, whole, fraction, exponent⟩ := n
  simp only [Numeral.chars, List.mem_append] at hc
  -- The character is in the whole part, in the fraction with its point, or in the exponent with its
  -- mark and sign.
  rcases hc with hc | hc | hc
  · exact isNumeralChar_of_isDigit (h.whole c hc)
  · cases fraction with
    | none => cases hc
    | some ds =>
      rcases List.mem_cons.1 hc with rfl | hc
      · rfl
      · exact isNumeralChar_of_isDigit ((h.fraction ds rfl).2 c hc)
  · cases exponent with
    | none => cases hc
    | some p =>
      obtain ⟨sign, ds⟩ := p
      simp only [Numeral.exponentChars, List.mem_cons] at hc
      rcases hc with rfl | rfl | hc
      · rfl
      · cases sign <;> rfl
      · exact isNumeralChar_of_isDigit ((h.exponent _ rfl).2 c hc)

/-- A number has no line break, whether it is a numeral or null. -/
theorem newline_notMem_number (x : Float) : '\n' ∉ spelling.chars x := by
  rw [chars_eq]
  cases h : numeral? x with
  | none => decide
  | some r =>
    obtain ⟨sign, n⟩ := r
    refine newline_notMem (p := isNumeralChar) rfl fun c hc => ?_
    rcases List.mem_append.1 hc with hc | hc
    · exact isNumeralChar_minus hc
    · exact (wellFormed_of_numeral? h).isNumeralChar hc

/-- The digits of the code of a control character are no line breaks. There are so few of them that
each is looked at. -/
theorem newline_notMem_hexDigits :
    ∀ n < 0x20, Nat.digitChar (n / 16) ≠ '\n' ∧ Nat.digitChar (n % 16) ≠ '\n' := by
  decide

/-- A line break in a string is escaped, and no other character is written with one. This goes
through the characters with an escape of their own. -/
theorem newline_notMem_escape (c : Char) : '\n' ∉ escape c := by
  unfold escape
  split_ifs with hquote hbackslash hlf hcr htab hbackspace hfeed hcontrol
  · decide
  · decide
  · decide
  · decide
  · decide
  · decide
  · decide
  · obtain ⟨hhigh, hlow⟩ := newline_notMem_hexDigits c.toNat hcontrol
    simp [controlEscape, hhigh.symm, hlow.symm]
  · simpa using Ne.symm hlf

/-- A string in quotes has no line break, whatever the string is. -/
theorem newline_notMem_quote (s : String) : '\n' ∉ quote s := by
  have hescaped : '\n' ∉ s.toList.flatMap escape := by
    rw [List.mem_flatMap]
    rintro ⟨c, -, hc⟩
    exact newline_notMem_escape c hc
  simp [quote, hescaped]

/-! ### Documents -/

/-- Brackets and commas add no line break in the compact layout. Each element is in brackets or
after a comma. -/
theorem newline_notMem_enclose {depth : Nat} {opening closing : Char} {elements : List (List Char)}
    (hopening : opening ≠ '\n') (hclosing : closing ≠ '\n') (h : ∀ e ∈ elements, '\n' ∉ e) :
    '\n' ∉ enclose compact depth opening closing elements := by
  cases elements with
  | nil => simp [enclose, hopening.symm, hclosing.symm]
  | cons first rest =>
    have hfirst := h first (by simp)
    have hrest : '\n' ∉ rest.flatMap fun e => ',' :: e := by
      rw [List.mem_flatMap]
      rintro ⟨e, he, hmem⟩
      rcases List.mem_cons.1 hmem with hcomma | hmem
      · cases hcomma
      · exact h e (by simp [he]) hmem
    simp [enclose, compact, hopening.symm, hclosing.symm, hfirst, hrest]

mutual

/-- A compact document has no line break in it. The recursion follows the writer, over documents,
elements and members at once. -/
theorem newline_notMem_write : (v : Value) → (depth : Nat) → '\n' ∉ v.write compact depth
  | .null, _ => show '\n' ∉ "null".toList by decide
  | .bool true, _ => show '\n' ∉ "true".toList by decide
  | .bool false, _ => show '\n' ∉ "false".toList by decide
  | .natural n, _ =>
      newline_notMem (p := Char.isDigit) (by decide) fun _ hc => Decimal.isDigit_of_mem_digitsOf hc
  | .number x, _ => newline_notMem_number x
  | .string s, _ => newline_notMem_quote s
  | .array items, depth =>
      newline_notMem_enclose (by decide) (by decide) (newline_notMem_items items (depth + 1))
  | .object members, depth =>
    newline_notMem_enclose (by decide) (by decide) (newline_notMem_members members (depth + 1))

/-- The elements of an array have no line break in them. -/
theorem newline_notMem_items :
    (items : List Value) → (depth : Nat) → ∀ e ∈ writeItems compact depth items, '\n' ∉ e
  | [], _ => nofun
  | v :: items, depth =>
      List.forall_mem_cons.2 ⟨newline_notMem_write v depth, newline_notMem_items items depth⟩

/-- The members of an object have no line break in them. The name of each is a string in quotes. -/
theorem newline_notMem_members : (members : List (String × Value)) → (depth : Nat) →
    ∀ e ∈ writeMembers compact depth members, '\n' ∉ e
  | [], _ => nofun
  | (name, v) :: members, depth => by
    have hname : '\n' ∉ writeName compact name := by
      simp [writeName, compact, newline_notMem_quote name]
    have hmember : '\n' ∉ writeName compact name ++ v.write compact depth := by
      simp [hname, newline_notMem_write v depth]
    exact List.forall_mem_cons.2 ⟨hmember, newline_notMem_members members depth⟩

end

end Json

open Json

/-! ### Documents in a row -/

/-- The byte of a line break. -/
def newline : UInt8 := 10

/-- The bytes of the document of a payload, on one line and without a line break at the end. This is
what a line of the output consists of. -/
def Payload.lineBytes (p : Payload) : List UInt8 := (p.toJson.text compact).toUTF8.toList

namespace Payload

/-- A line has no byte of a line break in it, because a character of several bytes has none that is
a character by itself. -/
theorem newline_notMem_lineBytes (p : Payload) : newline ∉ p.lineBytes := by
  have hchars : '\n' ∉ (p.toJson.text compact).toList := by
    rw [Value.text, String.toList_ofList]
    exact newline_notMem_write p.toJson 0
  exact fun hmem => hchars ((Text.mem_toUTF8_iff (by decide) _).1 hmem)

/-- A line is not empty, because it can be read and the empty text cannot. -/
theorem lineBytes_ne_nil (p : Payload) : p.lineBytes ≠ [] := by
  intro hnil
  have hempty : (p.toJson.text compact).toUTF8.toList = "".toUTF8.toList := by
    rw [Text.toList_toUTF8 "", ← lineBytes, hnil]
    rfl
  have hread := p.toJson.read?_text spaced_compact
  rw [Text.toList_toUTF8_inj.1 hempty, read?_empty] at hread
  cases hread

/-- The document of a payload is its line and a line break. -/
theorem toList_document (p : Payload) :
    (p.document compact).toUTF8.toList = p.lineBytes ++ [newline] := by
  rw [document, lineBytes, Value.line, Value.text, Text.toList_toUTF8, Text.toList_toUTF8,
    String.toList_ofList, String.toList_ofList, List.flatMap_append]
  rfl

/-- The bytes of documents in a row are those of the documents, one after another. -/
theorem toList_documents (l : Layout) (ps : List Payload) :
    (documents l ps).toUTF8.toList = ps.flatMap fun p => (p.document l).toUTF8.toList := by
  rw [documents, Text.toList_toUTF8, String.toList_join, List.flatMap_map, List.flatMap_assoc]
  simp only [Text.toList_toUTF8]

end Payload

namespace Sink

/-- Payloads in a row add their documents, one after another, to what is written already. -/
theorem written_foldl_emit (ps : List Payload) (s : Sink) :
    (ps.foldl emit s).written = s.written ++ (Payload.documents s.layout ps).toUTF8 := by
  -- The induction is on the payloads, for any sink, since each payload makes a new one.
  induction ps generalizing s with
  | nil => exact (ByteArray.append_empty).symm
  | cons p ps ih =>
    have hdocuments : Payload.documents s.layout (p :: ps) =
        p.document s.layout ++ Payload.documents s.layout ps :=
      String.join_cons
    have hbytes : (p.document s.layout ++ Payload.documents s.layout ps).toUTF8 =
        (p.document s.layout).toUTF8 ++ (Payload.documents s.layout ps).toUTF8 := by
      simp
    rw [List.foldl_cons, ih, hdocuments, hbytes, ← ByteArray.append_assoc]
    rfl

/-- The bytes of compact documents in a row, line by line, with a line break after each. -/
theorem toList_emitted (ps : List Payload) :
    (ps.foldl emit (new compact)).written.toList =
      (ps.map Payload.lineBytes).flatMap fun line => line ++ [newline] := by
  have hnew : (new compact).written = ByteArray.empty := rfl
  rw [written_foldl_emit, hnew, ByteArray.empty_append, Payload.toList_documents, List.flatMap_map]
  exact congrArg ps.flatMap (funext Payload.toList_document)

/-- Lines with a line break after each are cut at the line breaks. What is left after the last one
is empty. -/
theorem splitOn_lines {lines : List (List UInt8)} (h : ∀ line ∈ lines, newline ∉ line) :
    (lines.flatMap fun line => line ++ [newline]).splitOn newline = lines ++ [[]] := by
  induction lines with
  | nil => rfl
  | cons line lines ih =>
    obtain ⟨hline, hlines⟩ := List.forall_mem_cons.1 h
    have hfree : ∀ b ∈ line, (b == newline) = false :=
      fun b hb => beq_false_of_ne (ne_of_mem_of_not_mem hb hline)
    rw [List.flatMap_cons, List.append_assoc, List.singleton_append, List.splitOn,
      List.splitOnP_append_cons_of_forall_mem hfree newline (beq_self_eq_true newline),
      ← List.splitOn, ih hlines, List.cons_append]

/-- The last byte of lines with a line break after each is a line break. -/
theorem getLast?_lines {lines : List (List UInt8)} (h : lines ≠ []) :
    (lines.flatMap fun line => line ++ [newline]).getLast? = some newline := by
  obtain ⟨init, last, rfl⟩ := (List.eq_nil_or_concat lines).resolve_left h
  simp [← List.append_assoc]

/-- Compact documents in a row stand on one line each: the bytes, cut at the line breaks, are those
of the documents, and the last byte is a line break. A line is not empty, a payload alone gives its
line, and what is read from the line is the raw form of the payload's document, as it is from the
document in any other layout. -/
theorem lines_of_emitted (ps : List Payload) :
    let written := (ps.foldl emit (new compact)).written.toList
    written.splitOn newline = ps.map Payload.lineBytes ++ [[]] ∧
      (ps ≠ [] → written.getLast? = some newline) ∧
      ∀ p : Payload, p.lineBytes ≠ [] ∧
        ((new compact).emit p).written.toList = p.lineBytes ++ [newline] ∧
        read? (p.toJson.text compact) = some p.toJson.raw ∧
        ∀ l : Layout, l.Spaced → read? (p.document l) = some p.toJson.raw := by
  intro written
  have hwritten : written = _ := toList_emitted ps
  refine ⟨?_, fun hps => ?_, fun p => ⟨p.lineBytes_ne_nil, ?_, p.toJson.read?_text spaced_compact,
    fun l hl => p.toJson.read?_line hl⟩⟩
  · have hlines : ∀ line ∈ ps.map Payload.lineBytes, newline ∉ line := by
      simpa using fun p _ => Payload.newline_notMem_lineBytes p
    rw [hwritten, splitOn_lines hlines]
  · rw [hwritten, getLast?_lines (by simpa using hps)]
  · simpa using toList_emitted [p]

end Sink

end UnitPlane
