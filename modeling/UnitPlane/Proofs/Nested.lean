import Mathlib.Data.List.Count

/-!
# `UnitPlane.Proofs.Nested`: texts whose brackets match

In a nested text every closing bracket closes one that was opened before it, and none is left open.
An opening bracket and a closing one belong together just when what stands between them is nested.
Two nested texts do not overlap, so a pair of brackets in two texts one after the other lies in one
of them (`Nested.split_append`), and a pair in a text in brackets is either the outer one or lies
inside it (`Nested.split_brackets`).
-/

set_option autoImplicit false

namespace UnitPlane

/-- The brackets of the text match: read from the left, no more brackets are closed than were
opened, and in the end as many are closed as were opened. -/
structure Nested (cs : List Char) : Prop where
  /-- No bracket is closed before it was opened. -/
  opened : ∀ p, p <+: cs → p.count ')' ≤ p.count '('
  /-- None is left open. -/
  closed : cs.count '(' = cs.count ')'

namespace Nested

variable {cs ds before inside after : List Char}

/-- A text without brackets is nested, because no prefix of it has a bracket to count. -/
theorem of_notMem (hopen : '(' ∉ cs) (hclose : ')' ∉ cs) : Nested cs where
  opened p hp := by
    rw [List.count_eq_zero.2 fun h => hclose (hp.subset h)]
    exact Nat.zero_le _
  closed := by rw [List.count_eq_zero.2 hopen, List.count_eq_zero.2 hclose]

/-- Two nested texts one after the other are nested. Counting brackets does not depend on what they
are brackets of, so the first text leaves nothing for the second to close. -/
theorem append (hcs : Nested cs) (hds : Nested ds) : Nested (cs ++ ds) where
  opened p hp := by
    -- A prefix ends in the first text, or takes it whole and ends in the second.
    rcases List.prefix_or_prefix_of_prefix hp (List.prefix_append cs ds) with hp' | ⟨q, rfl⟩
    · exact hcs.opened p hp'
    · have := hcs.closed
      have := hds.opened q ((List.prefix_append_right_inj cs).1 hp)
      simp only [List.count_append]
      omega
  closed := by
    have := hcs.closed
    have := hds.closed
    simp only [List.count_append]
    omega

/-- A nested text in brackets is nested. The opening bracket in front raises every count of opened
brackets by one until the closing bracket at the end takes it back. -/
theorem brackets (hcs : Nested cs) : Nested ('(' :: (cs ++ [')'])) where
  opened p hp := by
    -- A prefix is empty, or the opening bracket and then either a prefix of the text or all of it.
    rcases List.prefix_cons_iff.1 hp with rfl | ⟨q, rfl, hq⟩
    · exact Nat.le_refl _
    · rcases List.prefix_concat_iff.1 hq with rfl | hq
      · have := hcs.closed
        simp
        omega
      · have := hcs.opened q hq
        simp
        omega
  closed := by
    have := hcs.closed
    simp
    omega

/-- What is left of a nested text closes all that it opens, and perhaps some brackets that the text
in front of it has left open. -/
theorem count_open_le (h : Nested (cs ++ ds)) : ds.count '(' ≤ ds.count ')' := by
  have hopened := h.opened cs (List.prefix_append cs ds)
  have hclosed := h.closed
  simp only [List.count_append] at hclosed
  omega

/-- A pair of brackets in two nested texts one after the other lies in the first or in the second.
It cannot begin in the first and end in the second, because the first would then leave the opening
bracket of the pair open. -/
theorem split_append (hcs : Nested cs) (hinside : Nested inside)
    (h : cs ++ ds = before ++ '(' :: (inside ++ ')' :: after)) :
    (∃ rest, cs = before ++ '(' :: (inside ++ ')' :: rest) ∧ after = rest ++ ds) ∨
      ∃ rest, before = cs ++ rest ∧ ds = rest ++ '(' :: (inside ++ ')' :: after) := by
  -- The pair begins in the second text, or somewhere in the first. In the first it has to end
  -- there.
  rcases List.append_eq_append_iff.1 h with ⟨rest, rfl, hds⟩ | ⟨rest, rfl, hrest⟩
  · exact .inr ⟨rest, rfl, hds⟩
  cases rest with
  | nil => exact .inr ⟨[], by simp, hrest.symm⟩
  | cons c rest =>
    rw [List.cons_append, List.cons.injEq] at hrest
    obtain ⟨rfl, hrest⟩ := hrest
    rcases List.append_eq_append_iff.1 hrest with ⟨rest', rfl, hafter⟩ | ⟨rest', rfl, hafter⟩
    · cases rest' with
      | nil =>
        have hclosed := hcs.count_open_le
        have hbalanced := hinside.closed
        simp at hclosed
        omega
      | cons d rest' =>
        obtain ⟨rfl, rfl⟩ := List.cons.inj hafter
        exact .inl ⟨rest', rfl, rfl⟩
    · -- The first text would end inside the pair, and leave the opening bracket open.
      have hclosed := hcs.count_open_le
      have hopened := hinside.opened rest (List.prefix_append rest rest')
      simp at hclosed
      omega

/-- A pair of brackets in a nested text in brackets is the outer pair or lies inside it. It cannot
begin with the outer opening bracket and end before the outer closing one. -/
theorem split_brackets (hcs : Nested cs) (hinside : Nested inside)
    (h : '(' :: (cs ++ [')']) = before ++ '(' :: (inside ++ ')' :: after)) :
    before = [] ∧ inside = cs ∧ after = [] ∨
      ∃ before' after', before = '(' :: before' ∧ cs = before' ++ '(' :: (inside ++ ')' :: after') ∧
        after = after' ++ [')'] := by
  -- With nothing before it, the pair begins with the outer bracket. Otherwise it begins in the text
  -- inside.
  cases before with
  | nil =>
    have h := (List.cons.inj h).2
    rcases List.append_eq_append_iff.1 h with ⟨rest, rfl, hrest⟩ | ⟨rest, rfl, hrest⟩
    · cases rest with
      | nil =>
        rw [List.nil_append, List.cons.injEq] at hrest
        exact .inl ⟨rfl, List.append_nil _, hrest.2.symm⟩
      | cons d rest => simp at hrest
    · cases rest with
      | nil =>
        rw [List.nil_append, List.cons.injEq] at hrest
        exact .inl ⟨rfl, (List.append_nil _).symm, hrest.2⟩
      | cons d rest =>
        -- A bracket closed after all that was opened is closed too early.
        obtain ⟨rfl, -⟩ := List.cons.inj hrest
        have hclosed := hinside.closed
        have hopened := hcs.opened (inside ++ [')']) ⟨rest, by simp⟩
        simp at hopened
        omega
  | cons c before =>
    rw [List.cons_append, List.cons.injEq] at h
    obtain ⟨rfl, h⟩ := h
    rcases hcs.split_append hinside h with ⟨rest, rfl, rfl⟩ | ⟨rest, rfl, hrest⟩
    · exact .inr ⟨before, rest, rfl, rfl, rfl⟩
    · -- No bracket is opened in a closing one.
      have := congrArg (List.count '(') hrest
      simp at this

end Nested

end UnitPlane
