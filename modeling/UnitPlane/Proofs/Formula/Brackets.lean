import UnitPlane.Proofs.Formula.Loosening
import UnitPlane.Proofs.Nested

/-!
# `UnitPlane.Proofs.Formula.Brackets`: no brackets are written without need

`Loosened t context ps` says that `ps` are the pieces of the tree `t` in a context, less one pair of
brackets. Taking a matching pair of brackets out of the text of a tree leaves the text of such
pieces (`Tree.exists_loosened`). Their words are the words of a `Loose` expression
(`Loosened.loose`), by one rule for each place in the tree where the pair may stand. Hence the text
without the pair is still read, and always as another tree: `Tree.read_ne_of_brackets_removed`.
-/

set_option autoImplicit false

namespace UnitPlane

open Double Setting

/-! ### Binding strength -/

namespace Tree

/-- How strongly a tree binds as it is written. A product with minus one is written as a negation,
and a number below zero with a sign. -/
def strength : Tree → Nat
  | var _ => Strength.atom
  | literal value => if value < 0 then Strength.negation else Strength.atom
  | binary op l _ => if op = .mul ∧ l.isMinusOne = true then Strength.negation else op.strength

/-- A number below zero is written with a sign, so it binds as a negation does. -/
theorem strength_literal_of_neg {value : Float} (h : value < 0) :
    (literal value).strength = Strength.negation := if_pos h

/-- A number that is not below zero needs no brackets, the negative zero included. -/
theorem strength_literal {value : Float} (h : ¬ value < 0) :
    (literal value).strength = Strength.atom := if_neg h

/-- A product with minus one is written as a negation and binds as one. -/
theorem strength_of_minus {l r : Tree} (hl : l.isMinusOne = true) :
    (binary .mul l r).strength = Strength.negation := if_pos ⟨rfl, hl⟩

/-- Any other node binds as its operator does. -/
theorem strength_binary {op : Operator} {l r : Tree}
    (hminus : ¬ (op = .mul ∧ l.isMinusOne = true)) :
    (binary op l r).strength = op.strength := if_neg hminus

/-- Where no brackets are asked for, a number below zero is a sign and a number without one. -/
theorem pieces_zero_of_neg {value : Float} (h : value < 0) :
    (literal value).pieces 0 = [.symbol .minus, .symbol (.number (-value))] := by
  rw [pieces, if_pos h, bracket_of_le (Nat.zero_le _)]

/-- Where no brackets are asked for, a product with minus one is a sign and the other operand. -/
theorem pieces_zero_of_minus {l r : Tree} (hl : l.isMinusOne = true) :
    (binary .mul l r).pieces 0 = .symbol .minus :: r.pieces Strength.negation := by
  rw [pieces, if_pos ⟨rfl, hl⟩, bracket_of_le (Nat.zero_le _)]

/-- Where no brackets are asked for, a node is its operands with the operator between them. -/
theorem pieces_zero_binary {op : Operator} {l r : Tree}
    (hminus : ¬ (op = .mul ∧ l.isMinusOne = true)) :
    (binary op l r).pieces 0 = l.pieces op.leftStrength ++ op.pieces ++
      r.pieces op.rightStrength := by
  rw [pieces, if_neg hminus, bracket_of_le (Nat.zero_le _)]

end Tree

/-- The pieces of a tree in a context, less one pair of brackets. The pair is that of the tree
itself, or one in an operand. -/
inductive Loosened : Tree → Nat → List Piece → Prop where
  | freed {t : Tree} {context : Nat} (h : t.strength < context) : Loosened t context (t.pieces 0)
  | minus {l r : Tree} {context : Nat} {ps : List Piece} (hl : l.isMinusOne = true)
      (h : Loosened r Strength.negation ps) :
      Loosened (.binary .mul l r) context (bracket Strength.negation context (.symbol .minus :: ps))
  | left {op : Operator} {l r : Tree} {context : Nat} {ps : List Piece}
      (hminus : ¬ (op = .mul ∧ l.isMinusOne = true)) (h : Loosened l op.leftStrength ps) :
      Loosened (.binary op l r) context
        (bracket op.strength context (ps ++ op.pieces ++ r.pieces op.rightStrength))
  | right {op : Operator} {l r : Tree} {context : Nat} {ps : List Piece}
      (hminus : ¬ (op = .mul ∧ l.isMinusOne = true)) (h : Loosened r op.rightStrength ps) :
      Loosened (.binary op l r) context
        (bracket op.strength context (l.pieces op.leftStrength ++ op.pieces ++ ps))

namespace Loosened

variable {t : Tree} {context : Nat} {ps : List Piece}

/-- The pieces are told apart from each other and from what follows, like those of the tree. Taking
brackets away puts no two pieces next to each other that would be read as one. -/
theorem lexable (h : Loosened t context ps) (ht : t.Finite) :
    Lexable ps ∧ StartsOperand (ps.flatMap Piece.chars) := by
  -- The induction is on the way down to the brackets that were removed. Everything beside it is
  -- written as before.
  induction h with
  | freed _ => exact ⟨Tree.lexable_pieces ht 0, Tree.startsOperand_pieces ht 0⟩
  | minus hl h ih =>
    exact ⟨(ih ht.2).1.minus.bracket _ _, startsOperand_bracket (startsOperand_minus _) _ _⟩
  | @left op l r context ps hminus h ih =>
    obtain ⟨hlex, hstart⟩ := ih ht.1
    refine ⟨(hlex.binary op (Tree.lexable_pieces ht.2 _) (Tree.startsOperand_pieces ht.2 _)).bracket
      _ _, startsOperand_bracket ?_ _ _⟩
    rw [List.append_assoc, List.flatMap_append]
    exact hstart.append _
  | @right op l r context ps hminus h ih =>
    obtain ⟨hlex, hstart⟩ := ih ht.2
    refine ⟨((Tree.lexable_pieces ht.1 _).binary op hlex hstart).bracket _ _,
      startsOperand_bracket ?_ _ _⟩
    rw [List.append_assoc, List.flatMap_append]
    exact (Tree.startsOperand_pieces ht.1 _).append _

end Loosened

/-! ### Taking a pair of brackets out of the text -/

section Text

variable {before inside after : List Char}

/-- Pieces in brackets, where the context asks for them, are the same characters with a bracket on
either side. -/
theorem chars_bracket (strength context : Nat) (ps : List Piece) :
    (bracket strength context ps).flatMap Piece.chars =
      if strength < context then '(' :: (ps.flatMap Piece.chars ++ [')'])
        else ps.flatMap Piece.chars := by
  by_cases h : strength < context
  · rw [bracket_of_lt h, if_pos h, List.flatMap_cons, List.flatMap_append]
    rfl
  · rw [bracket_of_le (by omega), if_neg h]

/-- The brackets of pieces still match when a pair is put around them. -/
theorem nested_bracket {ps : List Piece} (h : Nested (ps.flatMap Piece.chars))
    (strength context : Nat) :
    Nested ((bracket strength context ps).flatMap Piece.chars) := by
  rw [chars_bracket]
  split
  · exact h.brackets
  · exact h

/-- A pair of brackets in pieces that may stand in brackets themselves is the outer pair, or one in
the pieces, and then taking it out of the pieces takes it out of the whole. -/
theorem split_bracket {ps : List Piece} (hps : Nested (ps.flatMap Piece.chars))
    (hinside : Nested inside)
    {strength context : Nat} (h : (bracket strength context ps).flatMap Piece.chars =
      before ++ '(' :: (inside ++ ')' :: after)) :
    strength < context ∧ ps.flatMap Piece.chars = before ++ (inside ++ after) ∨
      ∃ before' after', ps.flatMap Piece.chars = before' ++ '(' :: (inside ++ ')' :: after') ∧
        ∀ ps', ps'.flatMap Piece.chars = before' ++ (inside ++ after') →
          (bracket strength context ps').flatMap Piece.chars = before ++ (inside ++ after) := by
  rw [chars_bracket] at h
  -- The pair of brackets is the one that is written here, or it is inside.
  by_cases hlt : strength < context
  · rw [if_pos hlt] at h
    rcases hps.split_brackets hinside h with ⟨rfl, rfl, rfl⟩ | ⟨before', after', rfl, hsplit, rfl⟩
    · exact .inl ⟨hlt, by simp⟩
    · refine .inr ⟨before', after', hsplit, fun ps' hps' => ?_⟩
      rw [chars_bracket, if_pos hlt, hps']
      simp
  · rw [if_neg hlt] at h
    refine .inr ⟨before, after, h, fun ps' hps' => ?_⟩
    rw [chars_bracket, if_neg hlt, hps']

/-- The text has no brackets, so no pair can be taken out of it. -/
def Bare (cs : List Char) : Prop := '(' ∉ cs ∧ ')' ∉ cs

/-- A text without brackets has matching brackets. -/
theorem Bare.nested {cs : List Char} (h : Bare cs) : Nested cs := .of_notMem h.1 h.2

/-- Two texts without brackets have none together. -/
theorem Bare.append {cs ds : List Char} (hcs : Bare cs) (hds : Bare ds) : Bare (cs ++ ds) := by
  unfold Bare at *
  simp [hcs, hds]

/-- A text without brackets does not fall into parts with a pair of brackets between them. -/
theorem Bare.ne_split {cs : List Char} (h : Bare cs) :
    cs ≠ before ++ '(' :: (inside ++ ')' :: after) := by
  rintro rfl
  exact h.1 (by simp)

/-- A sign has no brackets. -/
theorem bare_minus : Bare (Piece.symbol .minus).chars := by
  unfold Bare
  decide

/-- The name of a variable has no brackets. -/
theorem bare_name (v : Variable) : Bare (Piece.symbol (.name v.name)).chars := by
  unfold Bare
  cases v <;> decide

/-- An operator has no brackets, and neither has the space around it. -/
theorem bare_operator (op : Operator) : Bare (op.pieces.flatMap Piece.chars) := by
  rw [op.chars_pieces]
  unfold Bare
  cases op <;> decide

/-- A number without a sign has digits and a point, and no brackets. -/
theorem bare_unsigned {v : Float} (hv : Unsigned v) : Bare (Piece.symbol (.number v)).chars := by
  obtain ⟨n, hn, hchars, -⟩ := Decimal.exists_numeral hv
  rw [chars_number, hchars]
  have hclass {c : Char} (hc : c ∈ n.chars) : c.isDigit = true ∨ c = '.' := by
    rcases List.mem_append.1 hc with hc | hc
    · exact .inl (hn.whole c hc)
    split at hc
    · exact nomatch hc
    · exact (List.mem_cons.1 hc).symm.imp_left (hn.fraction c)
  exact ⟨fun h => absurd (hclass h) (by decide), fun h => absurd (hclass h) (by decide)⟩

/-- A finite number that is not below zero is written without brackets. The negative zero is written
with a sign. -/
theorem bare_number {v : Float} (hfinite : v.isFinite = true) (hv : ¬ v < 0) :
    Bare (Piece.symbol (.number v)).chars := by
  rcases unsigned_or_eq_neg_zero hfinite hv with hv | rfl
  · exact bare_unsigned hv
  · rw [chars_number, Decimal.chars_neg_zero, ← chars_number]
    exact bare_minus.append (bare_unsigned unsigned_zero)

/-- A number below zero is written as a sign and digits, and the brackets around them come from the
context. -/
theorem bare_negative {v : Float} (hfinite : v.isFinite = true) (hv : v < 0) :
    Bare ([Piece.symbol .minus, .symbol (.number (-v))].flatMap Piece.chars) := by
  rw [List.flatMap_cons, List.flatMap_singleton]
  exact bare_minus.append (bare_unsigned (unsigned_neg_of_lt_zero hfinite hv))

/-- A sign in front does not change how brackets match. -/
theorem nested_minus {ps : List Piece} (h : Nested (ps.flatMap Piece.chars)) :
    Nested ((Piece.symbol .minus :: ps).flatMap Piece.chars) :=
  bare_minus.nested.append h

/-- The brackets of two operands match, and an operator between them has none. -/
theorem nested_binary {ls rs : List Piece} (op : Operator) (hl : Nested (ls.flatMap Piece.chars))
    (hr : Nested (rs.flatMap Piece.chars)) :
    Nested ((ls ++ op.pieces ++ rs).flatMap Piece.chars) := by
  rw [List.flatMap_append, List.flatMap_append]
  exact (hl.append (bare_operator op).nested).append hr

namespace Tree

/-- The brackets of a written tree match, in every context. -/
theorem nested_pieces {t : Tree} (ht : t.Finite) (context : Nat) :
    Nested ((t.pieces context).flatMap Piece.chars) := by
  -- The induction is on the tree, along the cases of the printer.
  induction t generalizing context with
  | var v =>
    rw [pieces, List.flatMap_singleton]
    exact (bare_name v).nested
  | literal value =>
    by_cases hv : value < 0
    · rw [pieces, if_pos hv]
      exact nested_bracket (bare_negative ht hv).nested _ _
    · rw [pieces, if_neg hv, List.flatMap_singleton]
      exact (bare_number ht hv).nested
  | binary op l r ihl ihr =>
    by_cases hminus : op = .mul ∧ l.isMinusOne = true
    · rw [pieces, if_pos hminus]
      exact nested_bracket (nested_minus (ihr ht.2 _)) _ _
    · rw [pieces, if_neg hminus]
      exact nested_bracket (nested_binary op (ihl ht.1 _) (ihr ht.2 _)) _ _

/-- Taking a pair of brackets out of a written tree loosens it. The pair is the one around the tree,
or lies in one of its operands, since operators have none. -/
theorem exists_loosened {t : Tree} (ht : t.Finite) (hinside : Nested inside) {context : Nat}
    (h : (t.pieces context).flatMap Piece.chars = before ++ '(' :: (inside ++ ')' :: after)) :
    ∃ ps, Loosened t context ps ∧ ps.flatMap Piece.chars = before ++ (inside ++ after) := by
  induction t generalizing context before after with
  | var v =>
    rw [pieces, List.flatMap_singleton] at h
    exact absurd h (bare_name v).ne_split
  | literal value =>
    by_cases hv : value < 0
    · have hbare := bare_negative ht hv
      rw [pieces, if_pos hv] at h
      rcases split_bracket hbare.nested hinside h with ⟨hlt, hchars⟩ | ⟨_, _, hsplit, -⟩
      · exact ⟨_,
          .freed (by rwa [strength_literal_of_neg hv]), by rw [pieces_zero_of_neg hv, hchars]⟩
      · exact absurd hsplit hbare.ne_split
    · rw [pieces, if_neg hv, List.flatMap_singleton] at h
      exact absurd h (bare_number ht hv).ne_split
  | binary op l r ihl ihr =>
    have hl := nested_pieces ht.1
    have hr := nested_pieces ht.2
    by_cases hminus : op = .mul ∧ l.isMinusOne = true
    · obtain ⟨rfl, hone⟩ := hminus
      rw [pieces, if_pos ⟨rfl, hone⟩] at h
      rcases split_bracket (nested_minus (hr _)) hinside h with
        ⟨hlt, hchars⟩ | ⟨before', after', hsplit, hrebuild⟩
      · exact ⟨_,
          .freed (by rwa [strength_of_minus hone]), by rw [pieces_zero_of_minus hone, hchars]⟩
      · rcases bare_minus.nested.split_append hinside hsplit with ⟨rest, hminus, -⟩
          | ⟨rest, rfl, hrest⟩
        · exact absurd hminus bare_minus.ne_split
        · obtain ⟨ps, hloosened, hps⟩ := ihr ht.2 hrest
          refine ⟨_, .minus hone hloosened, hrebuild _ ?_⟩
          rw [List.flatMap_cons, hps, List.append_assoc]
    · rw [pieces, if_neg hminus] at h
      -- The pair around this node, or else one further in: in the left operand or in the right one.
      rcases split_bracket (nested_binary op (hl _) (hr _)) hinside h with
        ⟨hlt, hchars⟩ | ⟨before', after', hsplit, hrebuild⟩
      · exact ⟨_,
          .freed (by rwa [strength_binary hminus]), by rw [pieces_zero_binary hminus, hchars]⟩
      · rw [List.flatMap_append, List.flatMap_append, List.append_assoc] at hsplit
        rcases (hl _).split_append hinside hsplit with ⟨rest, hleft, rfl⟩ | ⟨rest, rfl, hrest⟩
        · obtain ⟨ps, hloosened, hps⟩ := ihl ht.1 hleft
          refine ⟨_, .left hminus hloosened, hrebuild _ ?_⟩
          simp only [List.flatMap_append, hps, List.append_assoc]
        rcases (bare_operator op).nested.split_append hinside hrest with
          ⟨rest', hop, -⟩ | ⟨rest', rfl, hright⟩
        · exact absurd hop (bare_operator op).ne_split
        · obtain ⟨ps, hloosened, hps⟩ := ihr ht.2 hright
          refine ⟨_, .right hminus hloosened, hrebuild _ ?_⟩
          simp only [List.flatMap_append, hps, List.append_assoc]

end Tree

end Text

/-! ### The words of a loosened tree -/

namespace Tree

variable {k : Phrase} {op : Operator} {l r t e : Tree} {es : List Symbol}

/-- Where no brackets are asked for, the words of a node are those of its operands with the
operator's between them. -/
theorem words_zero_binary (hminus : ¬ (op = .mul ∧ l.isMinusOne = true)) :
    (binary op l r).words 0 = l.words op.leftStrength ++
      op.toSymbol :: r.words op.rightStrength := by
  simp [words, pieces_zero_binary hminus, words_operator]

/-- Where no brackets are asked for, the words of a product with minus one are a sign and those of
the other operand. -/
theorem words_zero_of_minus (hl : l.isMinusOne = true) :
    (binary .mul l r).words 0 = .minus :: r.words Strength.negation := by
  rw [words, pieces_zero_of_minus hl]
  rfl

/-- A product with minus one is read again as the negation of its operand, which for a number is a
number. -/
theorem reread_of_minus (hl : l.isMinusOne = true) : (binary .mul l r).reread = r.reread.negated :=
  if_pos ⟨rfl, hl⟩

/-- A power of the negative zero is read again as the negation of a power of zero. -/
theorem reread_of_neg_zero :
    (binary .pow (literal (-0)) r).reread = (binary .pow (literal 0) r.reread).negated := by
  rw [reread, if_neg (by simp), if_pos ⟨rfl, rfl⟩]

/-- Any other node is read again as the same operator on what its operands are read as. -/
theorem reread_binary (hminus : ¬ (op = .mul ∧ l.isMinusOne = true))
    (hzero : ¬ (op = .pow ∧ l = literal (-0))) :
    (binary op l r).reread = binary op l.reread r.reread := by
  rw [reread, if_neg hminus, if_neg hzero]

/-- The left operand is of the kind that its operator takes, but for a negative zero as a base,
which is written without brackets and has a sign. -/
theorem derives_left (op : Operator) (hl : l.Finite) (hzero : ¬ (op = .pow ∧ l = literal (-0))) :
    Derives (leftPhrase op) (l.words op.leftStrength) l.reread := by
  rw [← strength_leftPhrase]
  refine derives_words hl (by cases op <;> decide) fun hprimary heq => ?_
  cases op with
  | pow => exact hzero ⟨rfl, heq⟩
  | add | sub | mul | div => cases hprimary

/-- The right operand is of the kind that its operator takes, without exception. -/
theorem derives_right (op : Operator) (hr : r.Finite) :
    Derives (rightPhrase op) (r.words op.rightStrength) r.reread := by
  rw [← strength_rightPhrase]
  exact derives_words hr (by cases op <;> decide) (fun hprimary => by cases op <;> cases hprimary)

/-- The negative zero is not below zero, which is why it is written without brackets. -/
theorem not_neg_zero_lt_zero : ¬ (-0 : Float) < 0 := by
  rw [lt_zero_iff, parts_neg_zero]
  simp

/-- A negative zero is written as the negation of zero, also as a base. -/
theorem words_neg_zero (context : Nat) : (literal (-0)).words context = [.minus, .number 0] := by
  rw [words, pieces, if_neg not_neg_zero_lt_zero, List.flatMap_singleton, Piece.words, Symbol.words,
    if_pos rfl]

/-- A sum or a product that lost its brackets, where they were an operand's of anything but a power.
Its last operand now belongs to what stands around it, or its first one does. -/
theorem loose_freed (ht : t.Finite) (hk : k.strength ≤ Strength.negation)
    (h : t.strength < k.strength) :
    Loose k t.reread (t.words 0) := by
  have hlt : t.strength < Strength.negation := Nat.lt_of_lt_of_le h hk
  cases t with
  | var v => exact absurd hlt (show ¬ Strength.atom < Strength.negation by decide)
  | literal value =>
    by_cases hv : value < 0
    · rw [strength_literal_of_neg hv] at hlt
      exact absurd hlt (Nat.lt_irrefl _)
    · rw [strength_literal hv] at hlt
      exact absurd hlt (by decide)
  | binary op l r =>
    by_cases hminus : op = .mul ∧ l.isMinusOne = true
    · obtain ⟨rfl, hl⟩ := hminus
      rw [strength_of_minus hl] at hlt
      exact absurd hlt (Nat.lt_irrefl _)
    rw [strength_binary hminus] at h hlt
    have hzero : ¬ (op = .pow ∧ l = literal (-0)) := by
      rintro ⟨rfl, -⟩
      exact absurd hlt (by decide)
    have hl := derives_left op ht.1 hzero
    have hr := derives_right op ht.2
    rw [words_zero_binary hminus, reread_binary hminus hzero]
    -- Only a sum or a product binds less than a signed operand does, so only these had brackets
    -- there.
    cases op with
    | add | sub =>
      refine .sum ?_ rfl hl hr
      cases k with
      | unary => exact .inl rfl
      | term => exact .inr rfl
      | expr => exact absurd h (by decide)
      | power | primary => exact absurd hk (by decide)
    | mul | div =>
      cases k with
      | unary => exact .freed_product rfl hl hr
      | expr | term => exact absurd h (by decide)
      | power | primary => exact absurd hk (by decide)
    | pow => exact absurd hlt (by decide)

/-- A base that lost its brackets. Only the last operand of what was in them is still the base of
the power. -/
theorem loose_base (ht : t.Finite) (h : t.strength < Strength.atom) (he : Derives .unary es e)
    (hk : k.strength ≤ Strength.negation) :
    Loose k (.binary .pow t.reread e) (t.words 0 ++ .doubleStar :: es) := by
  cases t with
  | var v => exact absurd h (show ¬ Strength.atom < Strength.atom by decide)
  | literal value =>
    by_cases hv : value < 0
    · have hnumber := (derives_number (unsigned_neg_of_lt_zero ht hv)).toUnary (by decide)
      rw [words, pieces_zero_of_neg hv]
      exact .minus_base hk hnumber he
    · rw [strength_literal hv] at h
      exact absurd h (Nat.lt_irrefl _)
  | binary op l r =>
    by_cases hminus : op = .mul ∧ l.isMinusOne = true
    · obtain ⟨rfl, hl⟩ := hminus
      rw [words_zero_of_minus hl]
      have hright : Derives .unary (r.words Phrase.unary.strength) r.reread :=
        derives_words ht.2 (by decide) fun hk => absurd hk (by decide)
      exact .minus_base hk hright he
    have hr := derives_right op ht.2
    rw [words_zero_binary hminus]
    by_cases hzero : op = .pow ∧ l = literal (-0)
    · -- The sign of the zero is in front of the whole power, also within its own brackets.
      obtain ⟨rfl, rfl⟩ := hzero
      rw [words_neg_zero]
      exact .minus_base hk ((Derives.number 0).pow hr).unsigned he
    have hl := derives_left op ht.1 hzero
    rw [reread_binary hminus hzero]
    -- Each operator leaves another part of itself outside the power.
    cases op with
    | add | sub => exact .sum_base hk rfl hl hr he
    | mul | div => exact .product_base hk rfl hl hr he
    | pow => exact .power_base hk hl hr he

end Tree

/-- An expression that is written in brackets, where the context asks for them, may be loose
inside. -/
theorem Loose.bracket {k : Phrase} {t : Tree} {ps : List Piece} {strength : Nat}
    (hstrength : Strength.sum ≤ strength) (hpower : k ≠ .power)
    (h : ∀ k' : Phrase, k' ≠ .power → k'.strength ≤ strength →
      Loose k' t (ps.flatMap Piece.words)) :
    Loose k t ((UnitPlane.bracket strength k.strength ps).flatMap Piece.words) := by
  rw [words_bracket]
  by_cases hlt : strength < k.strength
  · rw [if_pos hlt]
    exact (h .expr nofun hstrength).brackets
  · rw [if_neg hlt]
    exact h k hpower (Nat.le_of_not_lt hlt)

/-- Where a power stands without brackets, a negation could stand too, except as the base of a
power. -/
theorem Phrase.strength_le_negation {k : Phrase} (hpower : k ≠ .power)
    (hk : k.strength ≤ Operator.pow.strength) : k.strength ≤ Strength.negation := by
  cases k with
  | expr | term | unary => decide
  | power => exact absurd rfl hpower
  | primary => exact absurd hk (by decide)

namespace Loosened

/-- A loosened tree is a loose expression, unless it is a base that lost its own brackets. That case
is left to the power around it, which knows what follows the base. -/
theorem loose {t : Tree} {context : Nat} {ps : List Piece} (h : Loosened t context ps)
    (ht : t.Finite) {k : Phrase} (hk : k.strength = context) (hpower : k ≠ .power) :
    Loose k t.reread (ps.flatMap Piece.words) ∨
      k = .primary ∧ ps = t.pieces 0 ∧ t.strength < Strength.atom := by
  -- The induction is on the place of the pair: the node itself, or one of the operands.
  induction h generalizing k with
  | @freed t context h =>
    subst hk
    cases k with
    | primary => exact .inr ⟨rfl, rfl, h⟩
    | power => exact absurd rfl hpower
    | expr | term | unary => exact .inl (Tree.loose_freed ht (by decide) h)
  | @minus l r context ps hl h ih =>
    subst hk
    obtain hr | ⟨hr, -⟩ := ih ht.2 (k := .unary) rfl nofun
    · rw [Tree.reread_of_minus hl]
      exact .inl (.bracket (by decide) hpower fun k' _ hk' => hr.minus hk')
    · cases hr
  | @left op l r context ps hminus h ih =>
    subst hk
    have hzero : ¬ (op = .pow ∧ l = .literal (-0)) := by
      -- A negative zero has no brackets that it could lose.
      rintro ⟨rfl, rfl⟩
      cases h with
      | freed h =>
        rw [Tree.strength_literal Tree.not_neg_zero_lt_zero] at h
        exact absurd h (Nat.lt_irrefl _)
    have hr := Tree.derives_right op ht.2
    refine .inl (.bracket (by cases op <;> decide) hpower fun k' hpower' hk' => ?_)
    rw [Tree.reread_binary hminus hzero]
    simp only [List.flatMap_append, Tree.words_operator, List.append_assoc, List.singleton_append]
    cases op with
    | add | sub =>
      obtain hl | ⟨hl, -⟩ := ih ht.1 (k := .expr) rfl nofun
      · exact hl.leftSummand hk' rfl hr
      · cases hl
    | mul | div =>
      obtain hl | ⟨hl, -⟩ := ih ht.1 (k := .term) rfl nofun
      · exact hl.leftFactor hk' rfl hr
      · cases hl
    | pow =>
      obtain hl | ⟨-, rfl, hlt⟩ := ih ht.1 (k := .primary) rfl nofun
      · exact hl.base (Phrase.strength_le_negation hpower' hk') hr
      · exact Tree.loose_base ht.1 hlt hr (Phrase.strength_le_negation hpower' hk')
  | @right op l r context ps hminus h ih =>
    subst hk
    refine .inl (.bracket (by cases op <;> decide) hpower fun k' hpower' hk' => ?_)
    simp only [List.flatMap_append, Tree.words_operator, List.append_assoc, List.singleton_append]
    have hright : Loose (Tree.rightPhrase op) r.reread (ps.flatMap Piece.words) := by
      obtain hr | ⟨hr, -⟩ := ih ht.2 (Tree.strength_rightPhrase op) (by cases op <;> decide)
      · exact hr
      · cases op <;> cases hr
    by_cases hzero : op = .pow ∧ l = .literal (-0)
    · obtain ⟨rfl, rfl⟩ := hzero
      rw [Tree.reread_of_neg_zero, ← Tree.words, Tree.words_neg_zero]
      exact (hright.exponent (k := .unary) (by decide) (.number 0)).minus
        (Phrase.strength_le_negation hpower' hk')
    have hl := Tree.derives_left op ht.1 hzero
    rw [Tree.reread_binary hminus hzero]
    cases op with
    | add | sub => exact hright.rightSummand hk' rfl hl
    | mul | div => exact hright.rightFactor hk' rfl hl
    | pow => exact hright.exponent (Phrase.strength_le_negation hpower' hk') hl

end Loosened

/-! ### Texts without a pair of brackets -/

/-- The text of every node of a tree of finite numbers is read, and so is the text that is left when
any pair of brackets is taken out of it, but as another tree. So no pair of brackets is written
without need, whatever the limits are. -/
theorem Tree.read_ne_of_brackets_removed {t u : Tree} (ht : t.Finite) (hu : u ∈ t.subtrees)
    {before inside after : List Char}
    (htext : u.text.toList = before ++ '(' :: (inside ++ ')' :: after)) (hinside : Nested inside) :
    ∃ f g : Formula, f.IsReadFrom u.text ∧
      g.IsReadFrom (String.ofList (before ++ (inside ++ after))) ∧ g.tree ≠ f.tree ∧
      ∀ limits limits' : Limits, ∀ f' g' : Formula, Formula.parse limits u.text = .ok f' →
        Formula.parse limits' (String.ofList (before ++ (inside ++ after))) = .ok g' →
        g'.tree ≠ f'.tree := by
  have hfinite := ht.of_mem_subtrees hu
  rw [toList_text, pieces_zero] at htext
  obtain ⟨ps, hloosened, hps⟩ := exists_loosened hfinite hinside htext
  have hlexes : Lexes (String.ofList (before ++ (inside ++ after))).toList
      (ps.flatMap Piece.words) := by
    have h := (hloosened.lexable hfinite).1 [] [] nofun .nil
    rw [List.append_nil, List.append_nil, hps] at h
    rwa [String.toList_ofList]
  -- The text without the brackets derives another tree, and a text is read as what it derives.
  obtain hloose | ⟨hk, -⟩ := hloosened.loose hfinite (k := .expr) rfl nofun
  · obtain ⟨t', hderives, hne⟩ := hloose.exists_derives
    have hf := isReadFrom_text hfinite
    have hg : Formula.IsReadFrom ⟨t', _⟩ _ := hlexes.exists_parse hderives
    refine ⟨_, _, hf, hg, hne, fun limits limits' f' g' hf' hg' => ?_⟩
    rwa [hf.eq_of_parse hf', hg.eq_of_parse hg']
  · cases hk

/-- The sum in `(x + y)*2` needs its brackets. -/
theorem Tree.read_ne_of_brackets_removed_sum :
    let u := binary .mul (binary .add (.var .x) (.var .y)) (literal 2)
    u.text = "(x + y)*2" ∧
    ∃ f g : Formula, f.IsReadFrom u.text ∧ g.IsReadFrom "x + y*2" ∧ g.tree ≠ f.tree ∧
      ∀ limits limits' : Limits, ∀ f' g' : Formula, Formula.parse limits u.text = .ok f' →
        Formula.parse limits' "x + y*2" = .ok g' → g'.tree ≠ f'.tree := by
  intro u
  have hfinite : u.Finite :=
    ⟨⟨trivial, trivial⟩, show (2 : Float).isFinite = true by decide⟩
  have htext : u.text = "(x + y)*2" := by decide
  have hsplit : u.text.toList = [] ++ '(' :: ("x + y".toList ++ ')' :: "*2".toList) := by
    rw [htext]
    decide
  have hinside : Nested "x + y".toList := .of_notMem (by decide) (by decide)
  exact ⟨htext, read_ne_of_brackets_removed hfinite (mem_subtrees_self u) hsplit hinside⟩

end UnitPlane
