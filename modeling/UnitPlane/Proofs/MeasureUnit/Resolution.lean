import UnitPlane.Proofs.MeasureUnit.Completeness
import UnitPlane.Proofs.MeasureUnit.Soundness

/-!
# `UnitPlane.Proofs.MeasureUnit.Resolution`: unit expressions resolve as the grammar says

White space around a unit expression is cut off, and what is left is read and evaluated. It is read
exactly if the grammar derives it, and it is evaluated by multiplying and raising the units that it
names. What the readers say of it and what its derivation says of it are tied together here, so that
the conditions for an expression to resolve can be read off its derivation alone.

* `UnitExpression.read_eq_ok_iff`: a text without white space at the end is read as a factor exactly
  if it derives an expression, and as what the expression stands for.
* `MeasureUnit.resolve_isOk_iff_derives`: when an expression resolves, and to which unit.
-/

set_option autoImplicit false

namespace UnitPlane

open Text

/-! ### Texts without white space around them -/

/-- A text without the white space around it does not end in white space. -/
theorem Text.stops_reverse_trim (cs : List Char) : Stops isBlank (trim cs).reverse := by
  rw [trim, List.reverse_reverse]
  intro c hc
  have hhead := List.head?_dropWhile_not isBlank (skipBlanks cs).reverse
  rw [show List.head? (List.dropWhile isBlank (skipBlanks cs).reverse) = some c from hc] at hhead
  simpa using hhead

/-- White space at the end of such a text is empty. -/
theorem Text.eq_nil_of_stops_reverse {us ws : List Char} (h : Stops isBlank (us ++ ws).reverse)
    (hws : skipBlanks ws = []) : ws = [] := by
  obtain ⟨blanks, hblank, hws'⟩ := UnitExpression.spaced_skipBlanks ws
  rw [hws, List.append_nil] at hws'
  rw [List.reverse_append] at h
  cases hreverse : ws.reverse with
  | nil => exact List.reverse_eq_nil_iff.1 hreverse
  | cons c cs =>
    rw [hreverse] at h
    have hmem : c ∈ ws := List.mem_reverse.1 (by rw [hreverse]; exact List.mem_cons_self)
    exact absurd (hblank c (hws' ▸ hmem)) (by rw [stops_cons.1 h]; decide)

namespace UnitExpression

/-- Reading succeeds for just the texts that derive an expression whose steps succeed, with what
they amount to. The one direction is soundness, and the other is completeness. -/
theorem read_eq_ok_iff {cs : List Char} (hcs : Stops isBlank cs.reverse) {f : Factor} :
    read cs = .ok f ↔ ∃ e, ExprText .product cs e ∧ e.factor? = some f := by
  constructor
  · intro h
    obtain ⟨us, e, ws, rfl, hws, he⟩ := exists_exprText_of_read h
    -- The reader allows white space at the end, and here there is none.
    rw [eq_nil_of_stops_reverse hcs hws, List.append_nil] at h ⊢
    refine ⟨e, he, ?_⟩
    rw [← toOption_read he, h]
    rfl
  · rintro ⟨e, he, hf⟩
    have hread := toOption_read he
    rw [hf] at hread
    cases h : read cs with
    | error cause =>
      rw [h] at hread
      cases hread
    | ok g =>
      rw [h] at hread
      exact congrArg Except.ok (Option.some.inj hread)

/-- A text stands for a factor if it is short, is read as the factor, and the scale can be divided
by. -/
theorem evaluate_eq_ok_iff {cs : List Char} {f : Factor} :
    evaluate cs = .ok f ↔
      byteLength cs ≤ 256 ∧ read cs = .ok f ∧ f.scale.isFinite = true ∧ 0 < f.scale := by
  unfold evaluate
  -- The three guards come one after another: the length, the reader and the scale.
  by_cases hlong : maxLength < byteLength cs
  · rw [if_pos hlong]
    exact ⟨nofun, fun h => absurd h.1 (Nat.not_le.2 hlong)⟩
  · have hshort : byteLength cs ≤ 256 := Nat.not_lt.1 hlong
    rw [if_neg hlong]
    cases read cs with
    | error cause => exact ⟨nofun, fun h => nomatch h.2.1⟩
    | ok g =>
      show (if g.scale.isFinite && decide (0 < g.scale) then pure g else throw .scaleNotPositive :
        Except UnitCause Factor) = .ok f ↔ _
      split
      next hscale =>
        simp only [Bool.and_eq_true, decide_eq_true_eq] at hscale
        constructor
        · intro h
          cases h
          exact ⟨hshort, rfl, hscale⟩
        · exact fun h => h.2.1
      next hscale =>
        simp only [Bool.and_eq_true, decide_eq_true_eq] at hscale
        constructor
        · nofun
        · rintro ⟨-, h, hgood⟩
          cases h
          exact absurd hgood hscale

/-- A name derives itself. -/
theorem exprText_name {name : String} (hstart : name.toList.head?.any startsName = true)
    (hall : name.toList.all continuesName = true) : ExprText .factor name.toList (.name name) := by
  have htext : NameText name.toList := by
    cases hs : name.toList with
    | nil =>
      rw [hs] at hstart
      cases hstart
    | cons c row =>
      rw [hs] at hstart hall
      exact .intro hstart fun d hd => List.all_eq_true.1 hall d (List.mem_cons_of_mem c hd)
  have hname := ExprText.name htext ⟨[], nofun, rfl⟩
  rwa [String.ofList_toList] at hname

end UnitExpression

namespace MeasureUnit

open UnitExpression

/-- A text that is not empty resolves to a unit just when it stands for its factor. The unit has the
text without the white space around it. -/
theorem resolve_eq_ok_iff {expr : String} (hne : trim expr.toList ≠ []) {u : MeasureUnit} :
    resolve expr = .ok u ↔
      u.expr = String.ofList (trim expr.toList) ∧
        evaluate (trim expr.toList) = .ok ⟨u.dimension, u.scale⟩ := by
  obtain ⟨text, d, scale⟩ := u
  unfold resolve
  dsimp only
  rw [if_neg (by simpa using hne)]
  cases evaluate (trim expr.toList) with
  | error cause => exact ⟨nofun, fun h => nomatch h.2⟩
  | ok f =>
    obtain ⟨df, sf⟩ := f
    simp [eq_comm]

/-- A unit that resolves has a finite and positive size, so it can be multiplied by and divided
by. -/
theorem scale_of_resolve_eq_ok {expr : String} {u : MeasureUnit} (h : resolve expr = .ok u) :
    u.scale.isFinite = true ∧ 0 < u.scale := by
  by_cases hne : trim expr.toList = []
  · unfold resolve at h
    dsimp only at h
    rw [hne] at h
    cases h
    decide
  · have hevaluate := ((resolve_eq_ok_iff hne).1 h).2
    exact (UnitExpression.evaluate_eq_ok_iff.1 hevaluate).2.2

section Expressions

variable {expr name : String} {e : Expr} {f : Factor}

/-- A text that derives an expression resolves to what the expression stands for. This is how units
are resolved in examples, without running the reader. -/
theorem resolve_eq_ok_of_exprText (hne : trim expr.toList ≠ [])
    (hshort : byteLength (trim expr.toList) ≤ 256) (he : ExprText .product (trim expr.toList) e)
    (hf : e.factor? = some f) (hfinite : f.scale.isFinite = true) (hpos : 0 < f.scale) :
    resolve expr = .ok ⟨String.ofList (trim expr.toList), f.dimension, f.scale⟩ := by
  have hread := (read_eq_ok_iff (stops_reverse_trim _)).2 ⟨e, he, hf⟩
  exact (resolve_eq_ok_iff hne).2 ⟨rfl, evaluate_eq_ok_iff.2 ⟨hshort, hread, hfinite, hpos⟩⟩

/-- A name resolves to what it stands for, if it has no white space around it. -/
theorem resolve_eq_ok_of_name (htrim : trim name.toList = name.toList)
    (hstart : name.toList.head?.any startsName = true) (hall : name.toList.all continuesName = true)
    (hshort : byteLength name.toList ≤ 256) (hf : (Expr.name name).factor? = some f)
    (hfinite : f.scale.isFinite = true) (hpos : 0 < f.scale) :
    resolve name = .ok ⟨name, f.dimension, f.scale⟩ := by
  have hne : name.toList ≠ [] := by
    intro hnil
    rw [hnil] at hstart
    cases hstart
  have htext : ExprText .product (trim name.toList) (.name name) := by
    rw [htrim]
    exact .single (.unraised (exprText_name hstart hall))
  have hresolve := resolve_eq_ok_of_exprText (by rwa [htrim]) (by rwa [htrim]) htext hf hfinite hpos
  rwa [htrim, String.ofList_toList] at hresolve

end Expressions

/-- An expression that is not empty resolves exactly if its text is short enough, derives from the
grammar, all its numbers, names and exponents are admissible, no step overflows, and the scale is
finite and positive. The unit then has this text, its exponents are the exact combinations of those
of the names, and its scale is the combination of the scales, whatever derivation they are taken
from. -/
theorem resolve_isOk_iff_derives (expr : String) (hne : trim expr.toList ≠ []) :
    ((∃ u, resolve expr = .ok u) ↔
      byteLength (trim expr.toList) ≤ 256 ∧
        ∃ e, ExprText .product (trim expr.toList) e ∧ e.Admissible ∧ (∃ d, e.dimension? = some d) ∧
          e.scale.isFinite = true ∧ 0 < e.scale) ∧
    ∀ u, resolve expr = .ok u →
      u.expr = String.ofList (trim expr.toList) ∧
        ∀ e, ExprText .product (trim expr.toList) e →
          (∀ b, (u.dimension.exponent b).val = e.exponent b) ∧ u.scale = e.scale := by
  have hstops := stops_reverse_trim expr.toList
  -- Every derivation of the text gives the same factor, because it is the one that is read.
  have hfactor {f : Factor} {e : Expr} (hread : read (trim expr.toList) = .ok f)
      (he : ExprText .product (trim expr.toList) e) : e.factor? = some f := by
    rw [← toOption_read he, hread]
    rfl
  refine ⟨⟨?_, ?_⟩, ?_⟩
  · rintro ⟨u, hu⟩
    obtain ⟨hshort, hread, hfinite, hpos⟩ := evaluate_eq_ok_iff.1 ((resolve_eq_ok_iff hne).1 hu).2
    obtain ⟨e, he, hf⟩ := (read_eq_ok_iff hstops).1 hread
    obtain ⟨hadmissible, hdimension, hscale⟩ := Expr.factor?_eq_some_iff.1 hf
    rw [← hscale] at hfinite hpos
    exact ⟨hshort, e, he, hadmissible, ⟨_, hdimension⟩, hfinite, hpos⟩
  · rintro ⟨hshort, e, he, hadmissible, ⟨d, hdimension⟩, hfinite, hpos⟩
    have hf : e.factor? = some ⟨d, e.scale⟩ :=
      Expr.factor?_eq_some_iff.2 ⟨hadmissible, hdimension, rfl⟩
    have hread := (read_eq_ok_iff hstops).2 ⟨e, he, hf⟩
    exact ⟨⟨_, d, e.scale⟩, (resolve_eq_ok_iff hne).2
      ⟨rfl, evaluate_eq_ok_iff.2 ⟨hshort, hread, hfinite, hpos⟩⟩⟩
  · intro u hu
    obtain ⟨hexpr, hevaluate⟩ := (resolve_eq_ok_iff hne).1 hu
    refine ⟨hexpr, fun e he => ?_⟩
    have hread := (evaluate_eq_ok_iff.1 hevaluate).2.1
    obtain ⟨-, hdimension, hscale⟩ := Expr.factor?_eq_some_iff.1 (hfactor hread he)
    exact ⟨Expr.val_exponent_of_dimension? hdimension, hscale.symm⟩

/-- The squares of kilometres for each hour, with white space around and between the parts. The
scale is computed from those of the two names. -/
theorem resolve_isOk_iff_derives_area_rate :
    ∃ u, resolve " km**2 / hours " = .ok u ∧ u.expr = "km**2 / hours" ∧
      (u.dimension.exponent .length).val = 2 ∧ (u.dimension.exponent .time).val = -1 ∧
      u.scale = 1000 * 1000 / 3600 := by
  have hspaced (symbol : List Char) : Spaced symbol symbol := ⟨[], nofun, rfl⟩
  have hspace (symbol : List Char) : Spaced symbol ([' '] ++ symbol) :=
    ⟨[' '], List.forall_mem_singleton.2 (by decide), rfl⟩
  have hname {s : String} {cs : List Char} (hstart : s.toList.head?.any startsName = true)
      (hall : s.toList.all continuesName = true) (h : Spaced s.toList cs) :
      ExprText .factor cs (.name s) := by
    have htext : NameText s.toList := by
      cases hs : s.toList with
      | nil =>
        rw [hs] at hstart
        cases hstart
      | cons c row =>
        rw [hs] at hstart hall
        exact .intro hstart fun d hd => List.all_eq_true.1 hall d (List.mem_cons_of_mem c hd)
    have := ExprText.name htext h
    rwa [String.ofList_toList] at this
  let e : Expr := .join .dividedBy (.power (.name "km") 2 1) (.name "hours")
  -- The text, cut at its symbols.
  have htrim : trim " km**2 / hours ".toList =
      ("km".toList ++ (['*', '*'] ++ ['2'])) ++
        (([' '] ++ ['/']) ++ ([' '] ++ "hours".toList)) := by
    decide
  have he : ExprText .product (trim " km**2 / hours ".toList) e := by
    have hkm : ExprText .factor "km".toList (.name "km") :=
      hname (by decide) (by decide) (hspaced _)
    have hhours : ExprText .factor ([' '] ++ "hours".toList) (.name "hours") :=
      hname (by decide) (by decide) (hspace _)
    have hdigit : IntText ['2'] 2 := .unsigned (List.forall_mem_singleton.2 (by decide)) (by decide)
    have htwo : ExponentText ['2'] 2 1 := .int hdigit (hspaced _)
    rw [htrim]
    exact .join .dividedBy (.single (.power hkm (.inl (hspaced _)) htwo)) (hspace ['/'])
      (.unraised hhours)
  obtain ⟨hiff, hunit⟩ := resolve_isOk_iff_derives " km**2 / hours " (by rw [htrim]; decide)
  have hadmissible : e.Admissible := by
    have hkm : UnitTable.Lists "km" := by
      unfold UnitTable.Lists
      decide
    have hhour : UnitTable.Lists "hour" := by
      unfold UnitTable.Lists
      decide
    exact ⟨⟨.inl hkm, by decide, by decide, by decide⟩, .inr ⟨"hour", by decide, by decide, hhour⟩⟩
  obtain ⟨u, hu⟩ := hiff.2 ⟨by rw [htrim]; decide, e, he, hadmissible,
    ⟨{ length := .ofInt32 2, time := .ofInt32 (-1) }, by decide⟩, by decide +kernel,
    by decide +kernel⟩
  obtain ⟨hexpr, hall⟩ := hunit u hu
  obtain ⟨hexponent, hscale⟩ := hall e he
  refine ⟨u, hu, ?_, ?_, ?_, ?_⟩
  · rw [hexpr]
    decide
  · rw [hexponent]
    decide +kernel
  · rw [hexponent]
    decide +kernel
  · rw [hscale]
    decide +kernel

end MeasureUnit

end UnitPlane
