import UnitPlane.Proofs.Formula.Agreement
import UnitPlane.Proofs.Formula.Completeness
import UnitPlane.Proofs.Formula.Numerals
import UnitPlane.Proofs.Formula.Soundness

/-!
# `UnitPlane.Proofs.Formula.Rendering`: the text of a formula means the formula

A formula that was read can be written and read again. The numbers of a formula that was read are
finite, because a numeral out of range is refused, so the words of its text are those of its pieces,
these denote the tree reread, and that tree is read.

* `Formula.finite_of_parse`: the numbers of a formula are finite.
* `Tree.parse_text_of_finite`: the text of a tree of finite numbers is read as the tree reread.
* `Formula.parse_text`: the text of a formula is read, as a tree that agrees with the formula once
  the sign of every base that is the negative zero is moved in front of its power.
-/

set_option autoImplicit false

namespace UnitPlane

open Double

/-! ### Finite numbers -/

/-- A negation brings no numbers that are not finite: the opposite of a finite number is finite, and
so is minus one. -/
theorem Tree.Finite.negated {t : Tree} (h : t.Finite) : t.negated.Finite := by
  cases t with
  | literal value =>
    show (-value).isFinite = true
    rw [isFinite_neg]
    exact h
  | var | binary => exact ⟨show (-1 : Float).isFinite = true by decide, h⟩

/-- A tree has no other numbers than its words, up to their signs. So if these are finite, those of
the tree are. -/
theorem Derives.finite {k : Phrase} {ws : List Symbol} {t : Tree} (h : Derives k ws t)
    (hws : ∀ value, Symbol.number value ∈ ws → value.isFinite = true) : t.Finite := by
  -- The words of every part are among the words of the whole, which is all that the cases use.
  induction h with
  | number value => exact hws value (by simp)
  | var v => trivial
  | brackets h ih => exact ih fun value hvalue => hws value (by simp [hvalue])
  | base h ih | unsigned h ih | factor h ih | summand h ih => exact ih hws
  | pow hb he ihb ihe =>
    exact ⟨ihb fun value hvalue => hws value (by simp [hvalue]),
      ihe fun value hvalue => hws value (by simp [hvalue])⟩
  | minus h ih => exact (ih fun value hvalue => hws value (by simp [hvalue])).negated
  | plus h ih => exact ih fun value hvalue => hws value (by simp [hvalue])
  | product hop hl hr ihl ihr | sum hop hl hr ihl ihr =>
    exact ⟨ihl fun value hvalue => hws value (by simp [hvalue]),
      ihr fun value hvalue => hws value (by simp [hvalue])⟩

/-- A formula that was read is a tree of finite numbers. The lexer refuses a numeral whose value is
out of range, so its words have no others. -/
theorem Formula.finite_of_parse {limits : Limits} {source : String} {f : Formula}
    (h : Formula.parse limits source = .ok f) : f.tree.Finite := by
  unfold Formula.parse at h
  dsimp only at h
  split at h
  · cases h
  obtain ⟨ts, hts, h⟩ := Except.bind_eq_ok.1 h
  obtain ⟨tree, htree, h⟩ := Except.bind_eq_ok.1 h
  cases h
  refine (Tokens.derives_of_parse htree).finite fun value hvalue => ?_
  obtain ⟨w, hw, hsymbol⟩ := List.mem_map.1 hvalue
  exact isFinite_of_tokenize hts hw hsymbol

/-! ### Reading the text -/

/-- A text is read as the tree that its words denote, under any limits of at least its length, its
words, and the size and depth of the tree. The bound is some number here, since the text of a
formula may be longer than the formula that was read. -/
theorem Lexes.exists_parse {text : String} {ws : List Symbol} {t : Tree}
    (hlex : Lexes text.toList ws) (h : Derives .expr ws t) :
    ∃ n, ∀ limits : Limits, n ≤ limits.maxFormulaLen → n ≤ limits.maxDepth → n ≤ limits.maxNodes →
      Formula.parse limits text = .ok ⟨t, text⟩ := by
  obtain ⟨words, hscan, rfl⟩ := hlex 0
  -- One number bounds all the limits at once.
  refine ⟨text.utf8ByteSize + words.length + t.depth + t.size,
    fun limits hlength hdepth hnodes => ?_⟩
  have hts : tokenize text = .ok ⟨words, text.utf8ByteSize⟩ := by
    unfold tokenize
    rw [hscan]
    rfl
  have hparse : Tokens.parse limits ⟨words, text.utf8ByteSize⟩ = .ok t :=
    h.parse (by omega) (show words.length ≤ _ by omega) (by omega)
  unfold Formula.parse
  rw [if_neg (by omega), hts]
  simp only [Except.ok_bind]
  rw [hparse]
  rfl

/-- The text of a tree of finite numbers is read as the tree reread. No other tree is read from it,
since reading has one result. -/
theorem Tree.parse_text_of_finite {t : Tree} (ht : t.Finite) :
    ∃ n, ∀ limits : Limits, n ≤ limits.maxFormulaLen → n ≤ limits.maxDepth → n ≤ limits.maxNodes →
      Formula.parse limits t.text = .ok ⟨t.reread, t.text⟩ :=
  (Tree.lexes_text ht).exists_parse (Tree.derives_words_zero ht)

/-- The text of a formula that was read is accepted under large enough limits. The formula read from
it has the value and the dimension of the tree with the sign of every negative zero base moved in
front of its power, and those of the formula itself if there is no such base. -/
theorem Formula.parse_text {limits : Limits} {source : String} {f : Formula}
    (h : Formula.parse limits source = .ok f) :
    ∃ g : Formula,
      (∃ n, ∀ limits' : Limits, n ≤ limits'.maxFormulaLen → n ≤ limits'.maxDepth →
        n ≤ limits'.maxNodes → Formula.parse limits' f.text = .ok g) ∧
      g.tree.Agrees f.tree.signOutside ∧
      (g.tree.Agrees f.tree ↔ f.tree.signOutside.Agrees f.tree) ∧
      (¬ f.tree.HasNegativeZeroBase → g.tree.Agrees f.tree) := by
  have hfinite := Formula.finite_of_parse h
  have hagrees := (Tree.interchangeable_reread f.tree).agrees
  refine ⟨⟨f.tree.reread, f.text⟩, Tree.parse_text_of_finite hfinite, hagrees,
    ⟨fun hsame => hagrees.symm.trans hsame, fun hsame => hagrees.trans hsame⟩, fun hbase => ?_⟩
  rwa [Tree.signOutside_eq_self hbase] at hagrees

/-- A sign in front of a power stays where it is. Here the power is a factor of a product, and its
text is read as the same tree. -/
theorem Formula.parse_text_signed_square :
    ∃ f g : Formula, Formula.parse {} "2*-x**2" = .ok f ∧
      (∃ n, ∀ limits : Limits, n ≤ limits.maxFormulaLen → n ≤ limits.maxDepth →
        n ≤ limits.maxNodes → Formula.parse limits f.text = .ok g) ∧
      g.tree.Agrees f.tree := by
  have h : Formula.parse {} "2*-x**2" = .ok ⟨.binary .mul (.literal 2)
      (.binary .mul (.literal (-1)) (.binary .pow (.var .x) (.literal 2))), "2*-x**2"⟩ := by
    decide +kernel
  obtain ⟨g, hparse, -, -, hagrees⟩ := Formula.parse_text h
  refine ⟨_, g, h, hparse, hagrees ?_⟩
  rintro ⟨e, he⟩
  simp [Tree.subtrees] at he

/-- The sign of the negative zero has no brackets in the text, and `-0**x` is not `(-0)**x` where
`x` is zero: the one is minus one there, and the other is one. -/
theorem Formula.parse_text_neg_zero_base :
    ∃ f : Formula, Formula.parse {} "(-0)**x" = .ok f ∧ f.text = "-0**x" ∧
      f.tree.value? 0 0 = .ok 1 ∧
      ∀ g : Formula,
        (∃ n, ∀ limits : Limits, n ≤ limits.maxFormulaLen → n ≤ limits.maxDepth →
          n ≤ limits.maxNodes → Formula.parse limits f.text = .ok g) →
        g.tree.value? 0 0 = .ok (-1) := by
  have h : Formula.parse {} "(-0)**x" =
      .ok ⟨.binary .pow (.literal (-0)) (.var .x), "(-0)**x"⟩ := by
    decide +kernel
  refine ⟨_, h, by decide, by decide +kernel, ?_⟩
  rintro g ⟨n, hn⟩
  obtain ⟨n', hn'⟩ := Tree.parse_text_of_finite (Formula.finite_of_parse h)
  -- Under limits that are large enough for both, the formula read is the tree reread.
  have hg := hn ⟨n + n', n + n', n + n', 0, 0⟩ (by simp) (by simp) (by simp)
  have hreread := hn' ⟨n + n', n + n', n + n', 0, 0⟩ (by simp) (by simp) (by simp)
  obtain rfl := Except.ok.inj (hg.symm.trans hreread)
  decide +kernel

end UnitPlane
