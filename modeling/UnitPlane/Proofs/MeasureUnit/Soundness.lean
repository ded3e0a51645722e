import UnitPlane.Proofs.MeasureUnit.Leaves

/-!
# `UnitPlane.Proofs.MeasureUnit.Soundness`: what is read is derived by the grammar

A reader of unit expressions that succeeds has taken a text off the front that the grammar derives.
The readers call each other on what is left of the text, so there is one lemma for each reader, from
products in shorter texts, and `exists_exprText_of_readProduct` puts them together by induction on
the length.

The grammar puts the white space in front of each symbol into the text of that symbol (`Spaced`), as
the readers skip it there. White space at the end belongs to no symbol. It is left when a product
has been read, and whether anything else is left is for the reader of the whole text to see.

* `exists_exprText_of_read`: a text that is read is the text of an expression and white space after
  it.
-/

set_option autoImplicit false

namespace UnitPlane.UnitExpression

open Text

/-- Every product that is read in a text shorter than `n` derives. This is the hypothesis with which
factors are read, since a product in brackets is shorter. -/
def Sound (n : Nat) : Prop :=
  ∀ cs f rest, cs.length < n → Except.plain (readProduct cs) = .ok (f, rest) →
    ∃ us e, cs = us ++ rest ∧ ExprText .product us e

variable {n : Nat} {cs rest : List Char} {f : Factor}

/-- A factor that is read derives. -/
theorem Sound.factor (ih : Sound n) (hn : cs.length ≤ n)
    (h : Except.plain (readFactor cs) = .ok (f, rest)) :
    ∃ us e, cs = us ++ rest ∧ ExprText .factor us e := by
  rw [plain_readFactor] at h
  split at h
  · cases h
  next c tail hskip =>
    split at h
    -- A bracket opens a product in what is left, which is shorter.
    next hc =>
      subst hc
      have hlt : tail.length < n := by
        have hle := length_skipBlanks_le cs
        rw [hskip, List.length_cons] at hle
        omega
      obtain ⟨o, ho, hcs⟩ := exists_spaced_of_skipBlanks (show _ = ['('] ++ tail from hskip)
      obtain ⟨⟨product, tail'⟩, hproduct, h⟩ := Except.bind_eq_ok.1 h
      obtain ⟨us, e, htail, hus⟩ := ih _ _ _ hlt hproduct
      dsimp only at h
      split at h
      · cases h
      next closed hclosed =>
        cases h
        obtain ⟨c, hc, htail'⟩ := exists_spaced_of_after? hclosed
        refine ⟨o ++ (us ++ c), e, ?_, hus.brackets ho hc⟩
        simp only [hcs, htail, htail', List.append_assoc]
    split at h
    -- A number or a name is the longest row of its class, and the rest is what the row leaves.
    next hc =>
      obtain ⟨f, hf, h⟩ := Except.bind_eq_ok.1 h
      cases h
      have hrow : ∀ d ∈ c :: tail.takeWhile isNumberChar, isNumberChar d := by
        intro d hd
        rcases List.mem_cons.1 hd with rfl | hd
        · exact hc
        · exact List.all_eq_true.1 List.all_takeWhile d hd
      obtain ⟨n, hn⟩ := exists_numberText hrow hf
      have hsplit : skipBlanks cs = c :: tail.takeWhile isNumberChar ++
          tail.dropWhile isNumberChar := by
        rw [hskip, List.cons_append, List.takeWhile_append_dropWhile]
      obtain ⟨us, hus, hcs⟩ := exists_spaced_of_skipBlanks hsplit
      exact ⟨us, _, hcs, .number hn hus⟩
    split at h
    next hc =>
      obtain ⟨f, hf, h⟩ := Except.bind_eq_ok.1 h
      cases h
      have hname : NameText (c :: tail.takeWhile continuesName) :=
        .intro hc (List.all_eq_true.1 List.all_takeWhile)
      have hsplit : skipBlanks cs = c :: tail.takeWhile continuesName ++
          tail.dropWhile continuesName := by
        rw [hskip, List.cons_append, List.takeWhile_append_dropWhile]
      obtain ⟨us, hus, hcs⟩ := exists_spaced_of_skipBlanks hsplit
      exact ⟨us, _, hcs, .name hname hus⟩
    · cases h

/-- A term that is read derives, from its factor and its exponent. -/
theorem Sound.term (ih : Sound n) (hn : cs.length ≤ n)
    (h : Except.plain (readTerm cs) = .ok (f, rest)) :
    ∃ us e, cs = us ++ rest ∧ ExprText .term us e := by
  rw [plain_readTerm] at h
  obtain ⟨⟨base, tail⟩, hbase, h⟩ := Except.bind_eq_ok.1 h
  obtain ⟨us, e, hcs, hus⟩ := ih.factor hn hbase
  dsimp only at h
  -- Without the sign of a power the factor is the term.
  split at h
  · cases h
    exact ⟨us, e, hcs, .unraised hus⟩
  next raised hsign =>
    obtain ⟨p, hp, htail⟩ := exists_spaced_of_powerSign? hsign
    obtain ⟨⟨exponent, tail'⟩, hexponent, h⟩ := Except.bind_eq_ok.1 h
    obtain ⟨vs, k, d, hvs, hx⟩ := exists_exponentText hexponent
    dsimp only at h
    split at h
    · cases h
    · cases h
      refine ⟨us ++ (p ++ vs), _, ?_, .power hus hp hx⟩
      simp only [hcs, htail, hvs, List.append_assoc]

/-- The terms after the first extend the product on the left, one at a time. What is derived is the
text of that product with theirs behind it. -/
theorem Sound.productRest (ih : Sound n) (hn : cs.length ≤ n) {ls : List Char} {l : Expr}
    (hleft : ExprText .product ls l) {left : Factor}
    (h : Except.plain (readProductRest left cs) = .ok (f, rest)) :
    ∃ us e, cs = us ++ rest ∧ ExprText .product (ls ++ us) e := by
  -- The text left gets shorter with each term.
  induction hk : cs.length using Nat.strongRecOn generalizing cs ls l left with
  | ind k ihk =>
    rw [plain_readProductRest] at h
    split at h
    next =>
      cases h
      exact ⟨[], l, rfl, by rwa [List.append_nil]⟩
    next sign after hsign =>
      obtain ⟨s, hs, hcs⟩ := exists_spaced_of_productSign? hsign
      obtain ⟨⟨right, tail⟩, hright, h⟩ := Except.bind_eq_ok.1 h
      have hlt := after.property
      obtain ⟨vs, r, hvs, hr⟩ := ih.term (by omega) hright
      have htail : tail.length ≤ after.val.length := by
        rw [hvs, List.length_append]
        omega
      dsimp only at h
      split at h
      · cases h
      next product happly =>
        -- The term that was read joins the product on the left.
        obtain ⟨us, e, hus, he⟩ := ihk tail.length (by omega) (by omega)
          (.join sign hleft hs hr) h rfl
        refine ⟨s ++ (vs ++ us), e, ?_, ?_⟩
        · simp only [hcs, hvs, hus, List.append_assoc]
        · simpa only [List.append_assoc] using he

/-- Products derive whatever the length of the text is. The induction is on the length, with the
readers of the parts in between. -/
theorem sound (n : Nat) : Sound n := by
  induction n with
  | zero => exact fun cs f rest hlt => absurd hlt (Nat.not_lt_zero _)
  | succ n ih =>
    intro cs f rest hlt h
    have hn : cs.length ≤ n := Nat.le_of_lt_succ hlt
    rw [plain_readProduct] at h
    obtain ⟨⟨first, tail⟩, hfirst, h⟩ := Except.bind_eq_ok.1 h
    obtain ⟨us, e, hcs, hus⟩ := ih.term hn hfirst
    have htail : tail.length ≤ n := by
      rw [hcs, List.length_append] at hn
      omega
    obtain ⟨vs, e', hvs, hproduct⟩ := ih.productRest htail (.single hus) h
    refine ⟨us ++ vs, e', ?_, hproduct⟩
    rw [hcs, hvs, List.append_assoc]

/-- Whatever is read as a product derives, and the text that derives is what was taken off. -/
theorem exists_exprText_of_readProduct (h : Except.plain (readProduct cs) = .ok (f, rest)) :
    ∃ us e, cs = us ++ rest ∧ ExprText .product us e :=
  sound (cs.length + 1) cs f rest (Nat.lt_succ_self _) h

/-- Whatever is read as a whole derives, up to white space at the end. -/
theorem exists_exprText_of_read (h : read cs = .ok f) :
    ∃ us e ws, cs = us ++ ws ∧ skipBlanks ws = [] ∧ ExprText .product us e := by
  rw [read_eq] at h
  obtain ⟨⟨product, ws⟩, hproduct, h⟩ := Except.bind_eq_ok.1 h
  obtain ⟨us, e, hus, he⟩ := exists_exprText_of_readProduct hproduct
  dsimp only at h
  split at h
  next hws => exact ⟨us, e, ws, hus, hws, he⟩
  · cases h

end UnitPlane.UnitExpression
