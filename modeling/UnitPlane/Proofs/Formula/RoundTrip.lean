import Mathlib.Logic.Relation
import UnitPlane.Proofs.Formula.Limits
import UnitPlane.Proofs.Formula.Rendering

/-!
# `UnitPlane.Proofs.Formula.RoundTrip`: trees that are read as they were written

Reading the text of a tree gives the tree reread. That is the tree itself just when it has neither a
product of minus one with a number, whose sign is taken into the number, nor a power of the negative
zero, whose sign is taken to stand in front of the power.

* `Tree.reread_eq_self_iff`: this condition.
* `Tree.parse_text_of_canonical`: canonical trees, which have no negative zero at all, are read back
  from their texts, with all their subtrees, and no two of them have the same text.
* `Formula.reparse_settled`: when reading the text of a formula a second time changes nothing more.
  One reading may take a sign into a number and so make a new minus one in front of another number,
  hence there are formulas that change for longer.
-/

set_option autoImplicit false

namespace UnitPlane

open Double

/-! ### Texts under large limits -/

/-- The text is read as the formula under all limits that are large enough. Limits do not belong to
the language, so this says what the text means. -/
def Formula.IsReadFrom (f : Formula) (text : String) : Prop :=
  ∃ n, ∀ limits : Limits, n ≤ limits.maxFormulaLen → n ≤ limits.maxDepth → n ≤ limits.maxNodes →
    Formula.parse limits text = .ok f

namespace Formula.IsReadFrom

variable {f g : Formula} {text : String}

/-- Whatever is read under any limits is what is read under large ones. Raising limits changes no
formula that was read, so both are compared under limits above either. -/
theorem eq_of_parse (hg : g.IsReadFrom text) {limits : Limits}
    (hf : Formula.parse limits text = .ok f) : f = g := by
  obtain ⟨n, hn⟩ := hg
  let raised : Limits :=
    { limits with
      maxFormulaLen := max limits.maxFormulaLen n
      maxDepth := max limits.maxDepth n
      maxNodes := max limits.maxNodes n }
  have hbelow : limits.Below raised :=
    ⟨Nat.le_max_left _ _, Nat.le_max_left _ _, Nat.le_max_left _ _, Nat.le_refl _⟩
  have hsettles := Settles.parse hbelow text fun fault hfault => by
    rw [hf] at hfault
    cases hfault
  have hraised := hn raised (Nat.le_max_right _ _) (Nat.le_max_right _ _) (Nat.le_max_right _ _)
  exact Except.ok.inj (hf.symm.trans (hsettles.trans hraised))

/-- A text is read as one formula, since two bounds on the limits have a common one. -/
theorem unique (hf : f.IsReadFrom text) (hg : g.IsReadFrom text) : f = g := by
  obtain ⟨n, hn⟩ := hf
  exact hg.eq_of_parse (hn ⟨n, n, n, 0, 0⟩ (Nat.le_refl n) (Nat.le_refl n) (Nat.le_refl n))

end Formula.IsReadFrom

namespace Tree

/-- The text of a tree of finite numbers is read as the tree reread. What follows here uses it in
this form. -/
theorem isReadFrom_text {t : Tree} (ht : t.Finite) :
    Formula.IsReadFrom ⟨t.reread, t.text⟩ t.text := parse_text_of_finite ht

/-! ### Subtrees -/

/-- The subtrees of an operation are those of its operands and the operation itself. -/
theorem mem_subtrees_binary {u l r : Tree} {op : Operator} :
    u ∈ (binary op l r).subtrees ↔ u ∈ l.subtrees ∨ u ∈ r.subtrees ∨ u = binary op l r := by
  simp [subtrees]

/-- A tree is one of its own subtrees. -/
theorem mem_subtrees_self (t : Tree) : t ∈ t.subtrees := by
  cases t <;> simp [subtrees]

/-- The subtrees of a subtree are subtrees of the whole tree. -/
theorem mem_subtrees_trans {t u v : Tree} (hu : u ∈ t.subtrees) (hv : v ∈ u.subtrees) :
    v ∈ t.subtrees := by
  induction t with
  | var | literal =>
    rw [subtrees, List.mem_singleton] at hu
    rwa [← hu]
  | binary op l r ihl ihr =>
    rcases mem_subtrees_binary.1 hu with hu | hu | rfl
    · exact mem_subtrees_binary.2 (.inl (ihl hu))
    · exact mem_subtrees_binary.2 (.inr (.inl (ihr hu)))
    · exact hv

/-- The subtrees of a tree of finite numbers have finite numbers. -/
theorem Finite.of_mem_subtrees {t u : Tree} (ht : t.Finite) (hu : u ∈ t.subtrees) : u.Finite := by
  induction t with
  | var | literal =>
    rw [subtrees, List.mem_singleton] at hu
    rwa [hu]
  | binary op l r ihl ihr =>
    rcases mem_subtrees_binary.1 hu with hu | hu | rfl
    · exact ihl ht.1 hu
    · exact ihr ht.2 hu
    · exact ht

/-- A node of some shape is in the left operand, in the right operand, or the root. Both conditions
on a tree below are of this form. -/
theorem exists_mem_subtrees_binary {α : Type} {shape : α → Tree} {op : Operator} {l r : Tree} :
    (∃ a, shape a ∈ (binary op l r).subtrees) ↔
      (∃ a, shape a ∈ l.subtrees) ∨ (∃ a, shape a ∈ r.subtrees) ∨ ∃ a, shape a = binary op l r := by
  simp only [mem_subtrees_binary, exists_or]

/-! ### Trees that are reread as themselves -/

/-- Some product has the number minus one on the left and a number on the right. It is written as a
sign in front of the number, which is read as part of it. -/
def HasSignedNumber (t : Tree) : Prop :=
  ∃ value, binary .mul (literal (-1)) (literal value) ∈ t.subtrees

/-- A sign in front of a number is in one of the operands, or the operation is such a product
itself. -/
theorem hasSignedNumber_binary {op : Operator} {l r : Tree} :
    (binary op l r).HasSignedNumber ↔ l.HasSignedNumber ∨ r.HasSignedNumber ∨
      op = .mul ∧ l = literal (-1) ∧ ∃ value, r = literal value := by
  unfold HasSignedNumber
  rw [exists_mem_subtrees_binary]
  simp [eq_comm]

/-- A negative zero as a base is in one of the operands, or the operation is such a power itself. -/
theorem hasNegativeZeroBase_binary {op : Operator} {l r : Tree} :
    (binary op l r).HasNegativeZeroBase ↔ l.HasNegativeZeroBase ∨ r.HasNegativeZeroBase ∨
      op = .pow ∧ l = literal (-0) := by
  unfold HasNegativeZeroBase
  rw [exists_mem_subtrees_binary]
  simp [eq_comm]

/-- A number alone has no sign in front of it but its own. -/
theorem not_hasSignedNumber_literal (value : Float) : ¬ (literal value).HasSignedNumber := by
  simp [HasSignedNumber, subtrees]

/-- A number alone is no power, even if it is the negative zero. -/
theorem not_hasNegativeZeroBase_literal (value : Float) :
    ¬ (literal value).HasNegativeZeroBase := by
  simp [HasNegativeZeroBase, subtrees]

/-- A number takes the sign itself, so a product comes from nothing but a negation of its right
operand. -/
theorem negated_eq_binary_iff {t l r : Tree} {op : Operator} :
    t.negated = binary op l r ↔
      op = .mul ∧ l = literal (-1) ∧ t = r ∧ ¬ ∃ value, r = literal value := by
  cases t with
  | literal value =>
    simp only [negated]
    grind
  | var | binary =>
    simp only [negated, binary.injEq]
    grind

/-- A negation makes a tree larger by two nodes at most: a product, and the number minus one. -/
theorem size_negated_le (t : Tree) : t.negated.size ≤ t.size + 2 := by
  cases t <;> simp only [negated, size] <;> omega

/-- A tree is reread as itself just when no sign stands in front of a number, and no negative zero
is the base of a power. In each case what is reread is compared with the tree by its root. -/
theorem reread_eq_self_iff {t : Tree} :
    t.reread = t ↔ ¬ t.HasSignedNumber ∧ ¬ t.HasNegativeZeroBase := by
  induction t with
  | var | literal => simp [reread, HasSignedNumber, HasNegativeZeroBase, subtrees]
  | binary op l r ihl ihr =>
    rw [reread, hasSignedNumber_binary, hasNegativeZeroBase_binary]
    by_cases hminus : op = .mul ∧ l.isMinusOne = true
    · obtain ⟨rfl, hl⟩ := hminus
      obtain rfl := eq_of_isMinusOne hl
      -- What is reread is a negation, and it is this product unless its operand is a number.
      have hsigned := not_hasSignedNumber_literal (-1)
      have hbase := not_hasNegativeZeroBase_literal (-1)
      rw [if_pos ⟨rfl, hl⟩, negated_eq_binary_iff, ihr]
      grind
    · have hno : ¬ (op = .mul ∧ l = literal (-1)) := by
        rintro ⟨rfl, rfl⟩
        exact hminus ⟨rfl, by decide⟩
      rw [if_neg hminus]
      by_cases hzero : op = .pow ∧ l = literal (-0)
      · -- The power is reread as a product.
        rw [if_pos hzero, negated_eq_binary_iff]
        grind
      · rw [if_neg hzero, binary.injEq, ihl, ihr]
        grind

/-- Without a negative zero as a base, rereading makes no tree larger, and one with a sign in front
of a number smaller. So it can be seen from the number of nodes whether there was such a sign. -/
theorem size_reread {t : Tree} (ht : ¬ t.HasNegativeZeroBase) :
    t.reread.size ≤ t.size ∧ (t.HasSignedNumber → t.reread.size < t.size) := by
  induction t with
  | var | literal => simp [reread, HasSignedNumber, subtrees]
  | binary op l r ihl ihr =>
    rw [hasNegativeZeroBase_binary, not_or, not_or] at ht
    obtain ⟨hl, hr, hzero⟩ := ht
    have hl := ihl hl
    have hr := ihr hr
    rw [reread, hasSignedNumber_binary]
    by_cases hminus : op = .mul ∧ l.isMinusOne = true
    · obtain ⟨rfl, hone⟩ := hminus
      obtain rfl := eq_of_isMinusOne hone
      have hle := size_negated_le r.reread
      rw [if_pos ⟨rfl, hone⟩]
      simp only [size]
      refine ⟨by omega, ?_⟩
      -- The sign is in the left operand, which is a number alone, in the right one, or in front of
      -- it.
      rintro (h | h | ⟨-, -, value, rfl⟩)
      · exact absurd h (not_hasSignedNumber_literal _)
      · have := hr.2 h
        omega
      · show 1 < _
        omega
    · rw [if_neg hminus, if_neg hzero]
      simp only [size]
      refine ⟨by omega, ?_⟩
      rintro (h | h | ⟨rfl, rfl, -⟩)
      · have := hl.2 h
        omega
      · have := hr.2 h
        omega
      · exact absurd ⟨rfl, by decide⟩ hminus

/-! ### Canonical trees -/

/-- The numbers are finite, none is the negative zero, and no product has minus one on the left of a
number. Such a tree is the only canonical one with its text. -/
structure Canonical (t : Tree) : Prop where
  finite : t.Finite
  no_negative_zero : literal (-0) ∉ t.subtrees
  no_signed_number : ¬ t.HasSignedNumber

namespace Canonical

variable {t u : Tree}

/-- The subtrees of a canonical tree are canonical, as each condition is about all subtrees. -/
theorem of_mem_subtrees (ht : t.Canonical) (hu : u ∈ t.subtrees) : u.Canonical where
  finite := ht.finite.of_mem_subtrees hu
  no_negative_zero h := ht.no_negative_zero (mem_subtrees_trans hu h)
  no_signed_number := fun ⟨value, h⟩ => ht.no_signed_number ⟨value, mem_subtrees_trans hu h⟩

/-- A canonical tree is reread as itself. -/
theorem reread_eq_self (ht : t.Canonical) : t.reread = t := by
  refine reread_eq_self_iff.2 ⟨ht.no_signed_number, fun ⟨e, he⟩ => ht.no_negative_zero ?_⟩
  exact mem_subtrees_trans he (mem_subtrees_binary.2 (.inl (mem_subtrees_self _)))

/-- A canonical tree is read back from its text. -/
theorem isReadFrom_text (ht : t.Canonical) : Formula.IsReadFrom ⟨t, t.text⟩ t.text := by
  have h := Tree.isReadFrom_text ht.finite
  rwa [ht.reread_eq_self] at h

end Canonical

/-- A canonical tree and all its subtrees are read back from their texts, and no other canonical
tree has the same text. The second part follows from the first, because one text is read as one
tree. -/
theorem parse_text_of_canonical {t : Tree} (ht : t.Canonical) :
    (∀ u ∈ t.subtrees, Formula.IsReadFrom ⟨u, u.text⟩ u.text) ∧
      ∀ t' : Tree, t'.Canonical → t'.text = t.text → t' = t := by
  refine ⟨fun u hu => (ht.of_mem_subtrees hu).isReadFrom_text, fun t' ht' htext => ?_⟩
  have hread := ht'.isReadFrom_text
  rw [htext] at hread
  exact congrArg Formula.tree (hread.unique ht.isReadFrom_text)

/-- A negative base keeps its brackets, and a sign in front of a power needs none. The text
`(-2)**-x**2` has both. -/
theorem parse_text_of_canonical_negative_base :
    let t := binary .pow (literal (-2))
      (binary .mul (literal (-1)) (binary .pow (var .x) (literal 2)))
    t.text = "(-2)**-x**2" ∧ t.Canonical ∧
      (∀ u ∈ t.subtrees, Formula.IsReadFrom ⟨u, u.text⟩ u.text) ∧
      ∀ t' : Tree, t'.Canonical → t'.text = t.text → t' = t := by
  intro t
  have ht : t.Canonical := by
    have hfinite : t.Finite :=
      ⟨show (-2 : Float).isFinite = true by decide,
        show (-1 : Float).isFinite = true by decide, trivial,
        show (2 : Float).isFinite = true by decide⟩
    refine ⟨hfinite, by decide, ?_⟩
    rintro ⟨value, h⟩
    simp [t, subtrees] at h
  exact ⟨by decide, ht, parse_text_of_canonical ht⟩

end Tree

/-! ### Reading a text again -/

namespace Tree

/-- What a node adds to the potential of a tree: four for a power whose base is not zero, and one
for any other node. -/
def nodeWeight (op : Operator) (l : Tree) : Nat := if op = .pow ∧ l ≠ literal 0 then 4 else 1

/-- The number of nodes, where a power counts as four unless its base is zero. Whatever rereading
changes makes it smaller: a sign that is taken into a number saves two nodes, and one that is moved
in front of a power leaves zero as the base. -/
def potential : Tree → Nat
  | var _ => 1
  | literal _ => 1
  | binary op l r => l.potential + r.potential + nodeWeight op l

/-- Rereading the base of a power adds nothing to its weight, because zero is reread as zero. -/
theorem nodeWeight_reread_le (op : Operator) (l : Tree) :
    nodeWeight op l.reread ≤ nodeWeight op l := by
  unfold nodeWeight
  by_cases h : op = .pow ∧ l ≠ literal 0
  · rw [if_pos h]
    split <;> omega
  · -- The literal zero is reread as itself.
    have h' : ¬ (op = .pow ∧ l.reread ≠ literal 0) := by
      rintro ⟨hop, hne⟩
      exact h ⟨hop, fun hl => hne (by rw [hl]; rfl)⟩
    rw [if_neg h, if_neg h']

/-- A negation adds a product and the number minus one, or nothing to a number. -/
theorem potential_negated_le (t : Tree) : t.negated.potential ≤ t.potential + 2 := by
  cases t with
  | literal value => exact Nat.le_add_right _ _
  | var | binary =>
    show _ + _ + 1 ≤ _
    simp only [potential]
    omega

/-- Rereading makes the potential of a tree smaller, unless it leaves the tree as it is. The second
half is what makes readings come to an end. -/
theorem potential_reread (t : Tree) :
    t.reread.potential ≤ t.potential ∧ (t.reread.potential = t.potential → t.reread = t) := by
  induction t with
  | var | literal => exact ⟨Nat.le_refl _, fun _ => rfl⟩
  | binary op l r ihl ihr =>
    rw [reread]
    by_cases hminus : op = .mul ∧ l.isMinusOne = true
    · obtain ⟨rfl, hone⟩ := hminus
      obtain rfl := eq_of_isMinusOne hone
      have hweight : (binary .mul (literal (-1)) r).potential = 1 + r.potential + 1 := rfl
      have hnegated := potential_negated_le r.reread
      rw [if_pos ⟨rfl, hone⟩, hweight]
      -- If nothing is saved, then the right operand is as it was, and is no number.
      refine ⟨by omega, fun heq => ?_⟩
      have hr : r.reread = r := ihr.2 (by omega)
      rw [hr] at heq ⊢
      cases r with
      | literal value => cases heq
      | var | binary => rfl
    · rw [if_neg hminus]
      by_cases hzero : op = .pow ∧ l = literal (-0)
      · obtain ⟨rfl, rfl⟩ := hzero
        have hbefore : (binary .pow (literal (-0)) r).potential = 1 + r.potential + 4 := by
          rw [potential, nodeWeight, if_pos ⟨rfl, by decide⟩]
          rfl
        have hafter : (binary .pow (literal 0) r.reread).potential = 1 + r.reread.potential + 1 :=
          rfl
        have hnegated := potential_negated_le (binary .pow (literal 0) r.reread)
        rw [if_pos ⟨rfl, rfl⟩]
        exact ⟨by omega, fun heq => by omega⟩
      · have hweight := nodeWeight_reread_le op l
        rw [if_neg hzero, potential, potential]
        exact ⟨by omega, fun heq => by rw [ihl.2 (by omega), ihr.2 (by omega)]⟩

end Tree

namespace Formula

/-- The second formula is read from the text of the first. A chain of such steps is what happens to
a formula that is written and read again and again. -/
def Rereading (f g : Formula) : Prop := g.IsReadFrom f.text

/-- A formula read from any text has finite numbers, so it can be written and read again. -/
theorem IsReadFrom.finite {f : Formula} {text : String} (h : f.IsReadFrom text) :
    f.tree.Finite := by
  obtain ⟨n, hn⟩ := h
  exact finite_of_parse (hn ⟨n, n, n, 0, 0⟩ (Nat.le_refl n) (Nat.le_refl n) (Nat.le_refl n))

/-- What is read from the text of a formula is its tree reread. -/
theorem rereading_reread {f : Formula} (hf : f.tree.Finite) : f.Rereading ⟨f.tree.reread, f.text⟩ :=
  Tree.isReadFrom_text hf

/-- Reading the text again and again ends at a formula that is read back from its own text. The
induction is on the potential of the tree. -/
theorem exists_settled {f : Formula} (hf : f.tree.Finite) :
    ∃ settled again : Formula, Relation.ReflTransGen Rereading f settled ∧
      settled.Rereading again ∧ again.tree = settled.tree := by
  -- Each reading that changes the tree makes its potential smaller.
  induction hn : f.tree.potential using Nat.strongRecOn generalizing f with
  | ind n ih =>
    have hread := rereading_reread hf
    by_cases hsame : f.tree.reread = f.tree
    · exact ⟨f, _, .refl, hread, hsame⟩
    · obtain ⟨hle, hne⟩ := f.tree.potential_reread
      have hlt : f.tree.reread.potential < n := by
        rw [← hn]
        exact Nat.lt_of_le_of_ne hle fun heq => hsame (hne heq)
      obtain ⟨settled, again, hsteps, hlast⟩ := ih _ hlt (IsReadFrom.finite hread) rfl
      exact ⟨settled, again, hsteps.head hread, hlast⟩

/-- The text of a formula is read as a formula, and the text of that as another one. The second
reading changes nothing just when the formula between the two has no sign in front of a number and
no negative zero as a base; then the two have the same text and the same number of nodes. Where no
negative zero is a base, a sign in front of a number makes the numbers of nodes differ. After
finitely many more readings nothing changes any more. -/
theorem reparse_settled {limits : Limits} {source : String} {f : Formula}
    (h : Formula.parse limits source = .ok f) :
    ∃ once twice : Formula, f.Rereading once ∧ once.Rereading twice ∧
      (twice.tree = once.tree ↔
        ¬ once.tree.HasSignedNumber ∧ ¬ once.tree.HasNegativeZeroBase) ∧
      (twice.tree = once.tree → twice.text = once.text ∧ twice.tree.size = once.tree.size) ∧
      (¬ once.tree.HasNegativeZeroBase →
        (twice.tree.size = once.tree.size ↔ ¬ once.tree.HasSignedNumber)) ∧
      ∃ settled again : Formula, Relation.ReflTransGen Rereading once settled ∧
        settled.Rereading again ∧ again.tree = settled.tree := by
  have honce := rereading_reread (finite_of_parse h)
  have hfinite := IsReadFrom.finite honce
  refine ⟨_, _, honce, rereading_reread hfinite, Tree.reread_eq_self_iff, fun heq => ?_,
    fun hbase => ⟨fun hsize hsigned => ?_, fun hsigned => ?_⟩, exists_settled hfinite⟩
  · exact ⟨congrArg Tree.text heq, congrArg Tree.size heq⟩
  · exact absurd hsize (Nat.ne_of_lt ((Tree.size_reread hbase).2 hsigned))
  · exact congrArg Tree.size (Tree.reread_eq_self_iff.2 ⟨hsigned, hbase⟩)

/-- A sign in front of a power is settled after one reading. The formula has neither of the two
shapes that rereading changes. -/
theorem reparse_settled_signed_square :
    ∃ f once twice : Formula, Formula.parse {} "2*-x**2" = .ok f ∧ f.Rereading once ∧
      once.Rereading twice ∧ twice.text = once.text ∧ twice.tree.size = once.tree.size := by
  have h : Formula.parse {} "2*-x**2" = .ok ⟨.binary .mul (.literal 2)
      (.binary .mul (.literal (-1)) (.binary .pow (.var .x) (.literal 2))), "2*-x**2"⟩ := by
    decide +kernel
  obtain ⟨once, twice, honce, htwice, hiff, hsame, -⟩ := reparse_settled h
  have htree : once = ⟨.binary .mul (.literal 2)
      (.binary .mul (.literal (-1)) (.binary .pow (.var .x) (.literal 2))), "2*-x**2"⟩ :=
    (honce.unique (rereading_reread (finite_of_parse h))).trans (by decide)
  refine ⟨_, once, twice, h, honce, htwice, hsame (hiff.2 ⟨?_, ?_⟩)⟩
  · rintro ⟨value, hmem⟩
    simp [htree, Tree.subtrees] at hmem
  · rintro ⟨e, hmem⟩
    simp [htree, Tree.subtrees] at hmem

/-- One reading takes a sign into a number, which then is a minus one in front of another number:
the text `-1*-3` is read as a product with the text `--3`, and that is read as the number three. So
the second reading has a text and a size of its own. -/
theorem reparse_signed_products :
    ∃ f once twice : Formula, Formula.parse {} "-1*1*-3" = .ok f ∧ f.Rereading once ∧
      once.Rereading twice ∧ once.text = "--3" ∧ once.tree.size = 3 ∧
      twice.text = "3" ∧ twice.tree.size = 1 := by
  -- The formula is read once, and its rereadings are computed.
  have h : Formula.parse {} "-1*1*-3" = .ok ⟨.binary .mul
      (.binary .mul (.literal (-1)) (.literal 1)) (.literal (-3)), "-1*1*-3"⟩ := by
    decide +kernel
  have honce := rereading_reread (finite_of_parse h)
  exact ⟨_, _, _, h, honce, rereading_reread (IsReadFrom.finite honce), by decide,
    by decide, by decide, by decide⟩

end Formula

end UnitPlane
