import UnitPlane.Proofs.Formula.Completeness
import UnitPlane.Proofs.Formula.Derivation
import UnitPlane.Proofs.Formula.Limits
import UnitPlane.Proofs.Formula.Soundness

/-!
# `UnitPlane.Proofs.Formula.Acceptance`: formulas are the texts that the grammar derives

What the readers accept is what the grammar derives. One direction is soundness: whatever is read
has a derivation. The other is completeness: what has a derivation is read, if the limits are large
enough. Limits only refuse, so a text that they let through has the same outcome under larger ones,
and both directions meet under the limits of the text itself.

* `Formula.parse_isOk_iff_derivation`: where no limit refuses a text, it is read as a formula if and
  only if its words have a derivation, and the tree is the one that the derivation denotes. There is
  at most one derivation.
-/

set_option autoImplicit false

namespace UnitPlane

/-- A text of the length allowed is read by reading its tokens, and the formula keeps the text. -/
theorem Formula.parse_eq {limits : Limits} {source : String} {ts : Tokens}
    (hts : tokenize source = .ok ts) (hlen : source.utf8ByteSize ≤ limits.maxFormulaLen) :
    Formula.parse limits source = ts.parse limits >>= fun t => .ok ⟨t, source⟩ := by
  unfold Formula.parse
  rw [if_neg (Nat.not_lt.2 hlen), hts]
  rfl

/-- A text that is read as a formula has words that derive its tree. No reader goes beyond the
grammar. -/
theorem Formula.derives_of_parse {limits : Limits} {source : String} {ts : Tokens} {f : Formula}
    (hts : tokenize source = .ok ts) (h : Formula.parse limits source = .ok f) :
    Derives .expr (ts.words.map Token.symbol) f.tree ∧ f.source = source := by
  have hlen : source.utf8ByteSize ≤ limits.maxFormulaLen := by
    unfold Formula.parse at h
    split at h
    · cases h
    · omega
  rw [parse_eq hts hlen] at h
  obtain ⟨t, ht, h⟩ := Except.bind_eq_ok.1 h
  cases h
  exact ⟨Tokens.derives_of_parse ht, rfl⟩

/-- Limits that are not below the given ones, and that a text and its tree keep. The depth allows
for every word of the text, since each may open a bracket. -/
def Limits.raisedFor (limits : Limits) (source : String) (ts : Tokens) (t : Tree) : Limits :=
  { limits with
    maxFormulaLen := max limits.maxFormulaLen source.utf8ByteSize
    maxDepth := max limits.maxDepth (max t.depth ts.words.length)
    maxNodes := max limits.maxNodes t.size }

/-- Raised limits are not below the given ones, and the limit on cells is as it was. -/
theorem Limits.below_raisedFor (limits : Limits) (source : String) (ts : Tokens) (t : Tree) :
    limits.Below (limits.raisedFor source ts t) where
  formulaLen := Nat.le_max_left _ _
  depth := Nat.le_max_left _ _
  nodes := Nat.le_max_left _ _
  cells := Nat.le_refl _

/-- A text whose words derive a tree is read as that tree under limits that are high enough. This is
where the readers are shown to find every derivation. -/
theorem Formula.parse_raisedFor {source : String} {ts : Tokens} {t : Tree}
    (hts : tokenize source = .ok ts)
    (h : Derives .expr (ts.words.map Token.symbol) t) (limits : Limits) :
    Formula.parse (limits.raisedFor source ts t) source = .ok ⟨t, source⟩ := by
  have hlen : source.utf8ByteSize ≤ (limits.raisedFor source ts t).maxFormulaLen :=
    Nat.le_max_right _ _
  have hparse : ts.parse (limits.raisedFor source ts t) = .ok t :=
    h.parse (Nat.le_trans (Nat.le_max_left _ _) (Nat.le_max_right _ _))
      (Nat.le_trans (Nat.le_max_right _ _) (Nat.le_max_right _ _)) (Nat.le_max_right _ _)
  rw [parse_eq hts hlen, hparse]
  rfl

/-- A text whose words derive a tree is read as that tree, or refused by a limit. Limits only ever
refuse: what they let through is read as under higher ones. -/
theorem Formula.parse_of_derives {limits : Limits} {source : String} {ts : Tokens} {t : Tree}
    (hts : tokenize source = .ok ts)
    (hlimits : ∀ fault, Formula.parse limits source = .error fault → ¬ fault.OfLimits)
    (h : Derives .expr (ts.words.map Token.symbol) t) :
    Formula.parse limits source = .ok ⟨t, source⟩ :=
  (Settles.parse (limits.below_raisedFor source ts t) source hlimits).trans
    (parse_raisedFor hts h limits)

/-- Where no limit refuses a text that has words, it is read as a formula exactly if its words have
a derivation. The formula's tree is then the one that the derivation denotes, and there is no other
derivation. -/
theorem Formula.parse_isOk_iff_derivation {limits : Limits} {source : String} {ts : Tokens}
    (hts : tokenize source = .ok ts)
    (hlimits : ∀ fault, Formula.parse limits source = .error fault → ¬ fault.OfLimits) :
    ((∃ f, Formula.parse limits source = .ok f) ↔
      ∃ d : Derivation .expr, d.words = ts.words.map Token.symbol) ∧
    ∀ d : Derivation .expr, d.words = ts.words.map Token.symbol →
      Formula.parse limits source = .ok ⟨d.tree, source⟩ ∧
        ∀ d' : Derivation .expr, d'.words = ts.words.map Token.symbol → d' = d := by
  have hread (d : Derivation .expr) (hd : d.words = ts.words.map Token.symbol) :
      Formula.parse limits source = .ok ⟨d.tree, source⟩ :=
    parse_of_derives hts hlimits (hd ▸ d.derives)
  refine ⟨⟨?_, ?_⟩, fun d hd => ⟨hread d hd, fun d' hd' => ?_⟩⟩
  -- What was read is derived, and what is derived is read.
  · rintro ⟨f, hf⟩
    obtain ⟨d, hd, -⟩ := (derives_of_parse hts hf).1.exists_derivation
    exact ⟨d, hd⟩
  · rintro ⟨d, hd⟩
    exact ⟨_, hread d hd⟩
  · exact Derivation.eq_of_words_eq (hd'.trans hd.symm)

/-- The sign of a power stands in front of the whole power, and the sign of the second factor is
part of this factor. There is no other way to derive these words. -/
theorem Formula.parse_isOk_iff_derivation_signed_square :
    ∃ d : Derivation .expr,
      d.tree = .binary .mul (.literal 2)
        (.binary .mul (.literal (-1)) (.binary .pow (.var .x) (.literal 2))) ∧
      Formula.parse {} "2*-x**2" = .ok ⟨d.tree, "2*-x**2"⟩ ∧
      ∀ d' : Derivation .expr, d'.words = d.words → d' = d := by
  -- The derivation of the product, with the sign in front of the power.
  let two : Derivation .power := .base (.number 2)
  let d : Derivation .expr :=
    .expr (.term (.unsigned two)
      (.factor .star (.minus (.unsigned (.pow (.var .x) (.unsigned two)))) .noFactor)) .noSummand
  let ts : Tokens :=
    ⟨[⟨.number 2, 0, 1⟩, ⟨.star, 1, 2⟩, ⟨.minus, 2, 3⟩, ⟨.name "x", 3, 4⟩, ⟨.doubleStar, 4, 6⟩,
      ⟨.number 2, 6, 7⟩], 7⟩
  have hts : tokenize "2*-x**2" = .ok ts := by decide +kernel
  have hok : ∃ f, Formula.parse {} "2*-x**2" = .ok f := ⟨⟨d.tree, "2*-x**2"⟩, by decide +kernel⟩
  have hlimits : ∀ fault, Formula.parse {} "2*-x**2" = .error fault → ¬ fault.OfLimits := by
    obtain ⟨f, hf⟩ := hok
    intro fault hfault
    rw [hf] at hfault
    cases hfault
  obtain ⟨hparse, hunique⟩ := (Formula.parse_isOk_iff_derivation hts hlimits).2 d rfl
  exact ⟨d, rfl, hparse, hunique⟩

end UnitPlane
