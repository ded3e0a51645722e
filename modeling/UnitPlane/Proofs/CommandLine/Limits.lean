import Mathlib.Data.List.Forall2
import UnitPlane.CommandLine.Report
import UnitPlane.Proofs.CommandLine.Arguments

/-!
# `UnitPlane.Proofs.CommandLine.Limits`: where a limit comes from

Each limit is what its own option says. Without the option it is what the limits file says, and
without a word there, or without a file, it is the default. A file that cannot be read, or that is
no record of limits, leaves no limits at all.

* `ofJson?_eq_some_iff`: the limits of a file are its fields over the defaults.
* `limits?_eq_some_iff`: the limits of a job are its options over the limits of the file.
-/

set_option autoImplicit false

namespace UnitPlane

open Json

namespace Limits

/-- The parameters that set a limit, in the order of the fields of a limits file. -/
def parameters : List Parameter := [.maxFormulaLen, .maxDepth, .maxNodes, .maxCells, .timeBudgetMs]

/-- The limit that a parameter sets. The two parameters that name a file set none, and what is said
for them is never used. -/
def value (l : Limits) : Parameter → Nat
  | .maxFormulaLen => l.maxFormulaLen
  | .maxDepth => l.maxDepth
  | .maxNodes => l.maxNodes
  | .maxCells => l.maxCells
  | .timeBudgetMs => l.timeBudgetMs
  | .out => 0
  | .limits => 0

/-- Limits are determined by their values, so that they may be compared one parameter at a time. -/
theorem eq_of_value {l l' : Limits} (h : ∀ p ∈ parameters, l.value p = l'.value p) : l = l' := by
  simp only [parameters, List.forall_mem_cons] at h
  obtain ⟨h₁, h₂, h₃, h₄, h₅, -⟩ := h
  cases l
  cases l'
  simp only [value] at h₁ h₂ h₃ h₄ h₅
  rw [h₁, h₂, h₃, h₄, h₅]

/-! ### Options -/

/-- An option replaces the limit that it is about, and leaves every other one as it is. -/
theorem value_override {p : Parameter} (hp : p ∈ parameters) (l : Limits)
    (q : Parameter) (n : Nat) :
    (l.override (q, n)).value p = if p = q then n else l.value p := by
  simp only [parameters, List.mem_cons, List.not_mem_nil, or_false] at hp
  rcases hp with rfl | rfl | rfl | rfl | rfl <;> cases q <;> rfl

/-- Of options for different limits, each replaces its own. Which of them comes first does not
matter, because no later one is about the same limit. -/
theorem value_foldl_override {p : Parameter} (hp : p ∈ parameters) {given : List (Parameter × Nat)}
    (hnodup : (given.map Prod.fst).Nodup) (l : Limits) :
    (given.foldl override l).value p = (given.lookup p).getD (l.value p) := by
  -- The options are applied one after the other, so the limits that the induction starts from
  -- change.
  induction given generalizing l with
  | nil => rfl
  | cons option given ih =>
    obtain ⟨q, n⟩ := option
    obtain ⟨hq, hnodup⟩ := List.nodup_cons.1 hnodup
    rw [List.foldl_cons, ih hnodup, value_override hp, List.lookup_cons]
    by_cases hpq : p = q
    · subst hpq
      -- The option does not come up again.
      have hnone : given.lookup p = none := by
        refine List.lookup_eq_none_iff.2 fun option hoption => bne_iff_ne.2 ?_
        rintro rfl
        exact hq (List.mem_map.2 ⟨option, hoption, rfl⟩)
      simp [hnone]
    · rw [if_neg hpq, beq_false_of_ne hpq]

/-! ### Files -/

/-- A field of a limits file says what a limit is, and a field that is not there leaves it at its
default. -/
def Field (l : Limits) (p : Parameter) : Option Raw → Prop
  | none => l.value p = ({} : Limits).value p
  | some written => written.toNat? = some (l.value p)

/-- The limits that the text of a limits file states. -/
def StatedBy (l : Limits) (text : String) : Prop :=
  ∃ document fields, read? text = some document ∧ document.fields? fieldNames = some fields ∧
    List.Forall₂ l.Field parameters fields

/-- A field that is read is the default if it is not there, and otherwise the number that is written
in it. A field with anything else in it is not read. -/
theorem fieldOr_eq_some_iff {default n : Nat} {field : Option Raw} :
    fieldOr default Raw.toNat? field = some n ↔
      match field with
      | none => n = default
      | some written => written.toNat? = some n := by
  cases field with
  | none => exact ⟨fun h => (Option.some.inj h).symm, fun h => congrArg some h.symm⟩
  | some written => rfl

/-- The limits in a document are its fields over the defaults. The names of the fields and the
parameters are in the same order, so that the lists may be compared. -/
theorem ofRaw?_eq_some_iff {document : Raw} {l : Limits} :
    ofRaw? document = some l ↔
      ∃ fields, document.fields? fieldNames = some fields ∧
        List.Forall₂ l.Field parameters fields := by
  unfold ofRaw?
  dsimp only
  constructor
  · intro h
    -- A record of limits has five fields, which are read one after the other.
    split at h
    next formulaLen depth nodes cells time hfields =>
      refine ⟨_, hfields, ?_⟩
      obtain ⟨n₁, h₁, h⟩ := Option.bind_eq_some_iff.1 h
      obtain ⟨n₂, h₂, h⟩ := Option.bind_eq_some_iff.1 h
      obtain ⟨n₃, h₃, h⟩ := Option.bind_eq_some_iff.1 h
      obtain ⟨n₄, h₄, h⟩ := Option.bind_eq_some_iff.1 h
      obtain ⟨n₅, h₅, h⟩ := Option.bind_eq_some_iff.1 h
      cases h
      refine .cons ?_ (.cons ?_ (.cons ?_ (.cons ?_ (.cons ?_ .nil))))
      · cases formulaLen <;> exact fieldOr_eq_some_iff.1 h₁
      · cases depth <;> exact fieldOr_eq_some_iff.1 h₂
      · cases nodes <;> exact fieldOr_eq_some_iff.1 h₃
      · cases cells <;> exact fieldOr_eq_some_iff.1 h₄
      · cases time <;> exact fieldOr_eq_some_iff.1 h₅
    next => exact nomatch h
  · rintro ⟨fields, hfields, h⟩
    have hfield {p : Parameter} {field : Option Raw} (h : l.Field p field) :
        fieldOr (({} : Limits).value p) Raw.toNat? field = some (l.value p) := by
      cases field <;> exact fieldOr_eq_some_iff.2 h
    obtain _ | ⟨h₁, h⟩ := h
    obtain _ | ⟨h₂, h⟩ := h
    obtain _ | ⟨h₃, h⟩ := h
    obtain _ | ⟨h₄, h⟩ := h
    obtain _ | ⟨h₅, h⟩ := h
    cases h
    rw [hfields]
    refine Option.bind_eq_some_iff.2 ⟨_, hfield h₁, ?_⟩
    refine Option.bind_eq_some_iff.2 ⟨_, hfield h₂, ?_⟩
    refine Option.bind_eq_some_iff.2 ⟨_, hfield h₃, ?_⟩
    refine Option.bind_eq_some_iff.2 ⟨_, hfield h₄, ?_⟩
    exact Option.bind_eq_some_iff.2 ⟨_, hfield h₅, rfl⟩

/-- The limits of a file are its fields over the defaults, if its text is a document and this is a
record of limits. -/
theorem ofJson?_eq_some_iff {text : String} {l : Limits} :
    ofJson? text = some l ↔ l.StatedBy text := by
  unfold ofJson? StatedBy
  rw [Option.bind_eq_some_iff]
  refine exists_congr fun document => ?_
  rw [ofRaw?_eq_some_iff]
  exact ⟨fun ⟨h, fields, h'⟩ => ⟨fields, h, h'⟩, fun ⟨fields, h, h'⟩ => ⟨h, fields, h'⟩⟩

end Limits

namespace Arguments

/-- The limits that a job starts from: those of the limits file if one is named, or else the
defaults. -/
def StartsFrom (a : Arguments) (file : Option String) (base : Limits) : Prop :=
  match a.limitsFile with
  | none => base = {}
  | some _ => ∃ text, file = some text ∧ base.StatedBy text

/-- The limits of a job: each limit is what its option says, or else what the job starts from. -/
def HasLimits (a : Arguments) (file : Option String) (l : Limits) : Prop :=
  ∃ base, a.StartsFrom file base ∧
    ∀ p ∈ Limits.parameters, l.value p = (a.overrides.lookup p).getD (base.value p)

/-- The limits that a job starts from, if there are any. -/
def base? (a : Arguments) (file : Option String) : Option Limits :=
  match a.limitsFile with
  | none => some {}
  | some _ => file.bind Limits.ofJson?

/-- What a job starts from is there, as limits, just when the file that it names, if any, states
them. -/
theorem base?_eq_some_iff {a : Arguments} {file : Option String} {base : Limits} :
    a.base? file = some base ↔ a.StartsFrom file base := by
  unfold base? StartsFrom
  cases a.limitsFile with
  | none => exact ⟨fun h => (Option.some.inj h).symm, fun h => congrArg some h.symm⟩
  | some path =>
    rw [Option.bind_eq_some_iff]
    exact exists_congr fun text => and_congr_right fun _ => Limits.ofJson?_eq_some_iff

/-- The limits of a job are computed from those that it starts from by applying the options in
turn. -/
theorem limits?_eq (a : Arguments) (file : Option String) :
    a.limits? file = (a.base? file).bind fun base =>
      some (a.overrides.foldl Limits.override base) := by
  unfold limits? base?
  cases a.limitsFile <;> rfl

/-- The limits of a job are its options over the limits that it starts from. No option may be about
the limit of another, which the reading of the arguments ensures. -/
theorem limits?_eq_some_iff {a : Arguments} (hnodup : (a.overrides.map Prod.fst).Nodup)
    {file : Option String} {l : Limits} : a.limits? file = some l ↔ a.HasLimits file l := by
  rw [limits?_eq, Option.bind_eq_some_iff]
  refine exists_congr fun base => and_congr base?_eq_some_iff ?_
  constructor
  · rintro ⟨⟩ p hp
    exact Limits.value_foldl_override hp hnodup base
  · intro h
    refine congrArg some (Limits.eq_of_value fun p hp => ?_)
    exact (Limits.value_foldl_override hp hnodup base).trans (h p hp).symm

end Arguments

end UnitPlane
