/-!
# `UnitPlane.Proofs.Text.Bytes`: the bytes of a text

A text is written as bytes character by character. A character of ASCII is one byte, its own number,
and every byte of any other character is 128 or more. So a byte below 128 stands for a character
wherever it occurs.

* `toList_toUTF8`: the bytes of a text, character by character.
* `toList_toUTF8_inj`: a text is known from its bytes.
* `mem_toUTF8_iff`: a byte of ASCII occurs just where its character does.
-/

set_option autoImplicit false

namespace UnitPlane.Text

/-- From the `i`-th byte on, the bytes are put in front of those collected so far, and all are
turned round in the end. The loop goes by index, so what it is compared with is the list from this
index on. -/
theorem toList_loop (bytes : ByteArray) (i : Nat) (collected : List UInt8) :
    ByteArray.toList.loop bytes i collected = collected.reverse ++ bytes.data.toList.drop i := by
  -- The loop runs while the index is below the size, with the bytes that are still to come as its
  -- measure.
  fun_induction ByteArray.toList.loop bytes i collected with
  | case1 i collected hi ih =>
    have hi' : i < bytes.data.toList.length := hi
    have hget : bytes.get! i = bytes.data.toList[i] := by
      show bytes.data[i]! = _
      rw [getElem!_pos bytes.data i hi, Array.getElem_toList]
    rw [ih, List.drop_eq_getElem_cons hi', hget]
    simp
  | case2 i collected hi =>
    rw [List.drop_eq_nil_of_le (by simpa using Nat.le_of_not_lt hi), List.append_nil]

/-- The bytes of an array as a list are those of its data: the loop that collects them starts from
nothing at the first byte. -/
theorem toList_byteArray (bytes : ByteArray) : bytes.toList = bytes.data.toList :=
  toList_loop bytes 0 []

/-- The bytes of a text are those of its characters, one character after another. -/
theorem toList_toUTF8 (s : String) : s.toUTF8.toList = s.toList.flatMap String.utf8EncodeChar := by
  show s.toByteArray.toList = _
  rw [toList_byteArray, ← String.utf8Encode_toList, List.utf8Encode, List.toList_data_toByteArray]

/-- A text is known from its bytes. Two texts with one row of bytes are the same text, however the
bytes are divided among their characters. -/
theorem toList_toUTF8_inj {s t : String} : s.toUTF8.toList = t.toUTF8.toList ↔ s = t := by
  refine ⟨fun h => ?_, fun h => h ▸ rfl⟩
  rw [toList_byteArray, toList_byteArray, Array.toList_inj, ← ByteArray.ext_iff] at h
  exact String.toByteArray_inj.1 h

/-- A character of ASCII is one byte, and every byte of another character is 128 or more. So a byte
below 128 never belongs to a longer character. -/
theorem utf8EncodeChar_cases (c : Char) :
    c.toNat < 128 ∧ String.utf8EncodeChar c = [UInt8.ofNat c.toNat] ∨
      128 ≤ c.toNat ∧ ∀ b ∈ String.utf8EncodeChar c, 128 ≤ b.toNat := by
  unfold String.utf8EncodeChar
  by_cases hc : c.val.toNat ≤ 0x7f
  · exact .inl ⟨Nat.lt_succ_of_le hc, if_pos hc⟩
  · refine .inr ⟨Nat.lt_of_not_le hc, ?_⟩
    rw [if_neg hc]
    -- The first byte has its two highest bits set, and each byte after it has the highest one set.
    split
    · simp only [List.mem_cons, List.not_mem_nil, or_false, forall_eq_or_imp, forall_eq,
        UInt8.toNat_ofNat']
      omega
    split
    · simp only [List.mem_cons, List.not_mem_nil, or_false, forall_eq_or_imp, forall_eq,
        UInt8.toNat_ofNat']
      omega
    · simp only [List.mem_cons, List.not_mem_nil, or_false, forall_eq_or_imp, forall_eq,
        UInt8.toNat_ofNat']
      omega

/-- A byte of ASCII occurs in the bytes of a text just where its character occurs in the text,
because no other character has such a byte. -/
theorem mem_toUTF8_iff {c : Char} (hc : c.toNat < 128) (s : String) :
    UInt8.ofNat c.toNat ∈ s.toUTF8.toList ↔ c ∈ s.toList := by
  rw [toList_toUTF8, List.mem_flatMap]
  constructor
  · rintro ⟨d, hd, hmem⟩
    rcases utf8EncodeChar_cases d with ⟨hd', hbytes⟩ | ⟨-, hbytes⟩
    · rw [hbytes, List.mem_singleton, ← UInt8.toNat_inj] at hmem
      simp only [UInt8.toNat_ofNat'] at hmem
      obtain rfl : c = d := Char.toNat_inj.1 (by omega)
      exact hd
    · have hhigh := hbytes _ hmem
      simp only [UInt8.toNat_ofNat'] at hhigh
      omega
  · intro hmem
    refine ⟨c, hmem, ?_⟩
    rcases utf8EncodeChar_cases c with ⟨-, hbytes⟩ | ⟨hc', -⟩
    · rw [hbytes]
      exact List.mem_singleton_self _
    · omega

end UnitPlane.Text
