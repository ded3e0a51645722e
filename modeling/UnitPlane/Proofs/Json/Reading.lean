import UnitPlane.Json.Reader
import UnitPlane.Proofs.Text

/-!
# `UnitPlane.Proofs.Json.Reading`: the readers of JSON texts as equations

Each reader of a JSON text returns what it has read and the rest of the text, with a proof that the
rest is shorter. Without the proofs, the readers satisfy the plain recursive equations stated here.
All that is said of JSON texts elsewhere uses these equations.

Lists and records are read by the same loop, once with values and once with members, and end with
different brackets. `ReadsElements` is the equation of that loop, so what is proved from it holds of
both.
-/

set_option autoImplicit false

namespace UnitPlane.Json

open Text

/-! ### Readers without proofs -/

section Plain

variable {α β σ : Type} {P Q : σ → Prop}

/-- What a reader returns, without the proof about the rest. Two readers that return the same
without it can be compared as functions on texts. -/
def plain (r : Option (α × { s : σ // P s })) : Option (α × σ) := r.map fun (a, s) => (a, s.val)

/-- A result without its proof is the value and the rest. -/
@[simp] theorem plain_some (a : α) (s : { s : σ // P s }) : plain (some (a, s)) = some (a, s.val) :=
  rfl

/-- After a step, only the value and the rest count, not the proof. So the equation of a reader is
the chain of its steps. -/
theorem plain_bind {r : Option (α × { s : σ // P s })}
    {f : α × { s : σ // P s } → Option (β × { s : σ // Q s })} {g : α × σ → Option (β × σ)}
    (h : ∀ a s hs, plain (f (a, ⟨s, hs⟩)) = g (a, s)) : plain (r >>= f) = (plain r).bind g := by
  cases r with
  | none => rfl
  | some a => exact h a.1 a.2.val a.2.property

/-- A value made of what was read is in front of the same rest. The proof may be another one,
because more may have been read before. -/
theorem plain_map {r : Option (α × { s : σ // P s })} (f : α → β)
    {g : α × { s : σ // P s } → β × { s : σ // Q s }}
    (h : ∀ a s, (g (a, s)).1 = f a ∧ (g (a, s)).2.val = s.val) :
    plain (r.map g) = (plain r).map fun p => (f p.1, p.2) := by
  cases r with
  | none => rfl
  | some a =>
    obtain ⟨hvalue, hrest⟩ := h a.1 a.2
    exact congrArg some (Prod.ext hvalue hrest)

end Plain

/-- What follows a character, if it comes next after white space, without the proof about it. -/
def next? (c : Char) (cs : List Char) : Option (List Char) := (after? c cs).map Subtype.val

/-- The next character is found by skipping white space and looking at what is left. -/
theorem next?_eq (c : Char) (cs : List Char) :
    next? c cs =
      match cs.dropWhile isSpace with
      | [] => none
      | d :: rest => if d = c then some rest else none := by
  unfold next? after? afterSkip?
  split
  next h =>
    simp only [h]
    rfl
  next d rest h =>
    simp only [h]
    split
    · rfl
    · rfl

/-! ### Equations -/

/-- A document that starts with a given character. The character decides of which kind it is, so
there is no going back. -/
def readStart (c : Char) (rest : List Char) : Option (Raw × List Char) :=
  match c with
  | 'n' => (afterWord? "ull".toList rest).map fun rest => (.null, rest.val)
  | 't' => (afterWord? "rue".toList rest).map fun rest => (.bool true, rest.val)
  | 'f' => (afterWord? "alse".toList rest).map fun rest => (.bool false, rest.val)
  | '"' => (plain (readParts rest)).map fun p => (.string p.1, p.2)
  | '[' =>
    match next? ']' rest with
    | some rest => some (.array [], rest)
    | none => (plain (readItems rest)).map fun p => (.array p.1, p.2)
  | '\x7b' =>
    match next? '\x7d' rest with
    | some rest => some (.object [], rest)
    | none => (plain (readMembers rest)).map fun p => (.object p.1, p.2)
  | '-' => plain (readUnsigned true rest)
  | c => plain (readUnsigned false (c :: rest))

/-- A document is read by its first character after white space. Only the empty rest has none. -/
theorem plain_readValue (cs : List Char) :
    plain (readValue cs) =
      match cs.dropWhile isSpace with
      | [] => none
      | c :: rest => readStart c rest := by
  rw [readValue]
  -- The rest after white space carries its proof along, so it gets a name before it is replaced.
  obtain ⟨ds, hds, htake⟩ : ∃ ds : UpTo cs, ds.val = cs.dropWhile isSpace ∧
      takeClass isSpace cs = (cs.takeWhile isSpace, ds) := ⟨_, rfl, rfl⟩
  rw [htake, ← hds]
  obtain ⟨_ | ⟨c, rest⟩, h⟩ := ds
  · rfl
  · dsimp only
    unfold readStart next?
    split
    · cases afterWord? "ull".toList rest <;> rfl
    · cases afterWord? "rue".toList rest <;> rfl
    · cases afterWord? "alse".toList rest <;> rfl
    · exact plain_map Raw.string fun _ _ => ⟨rfl, rfl⟩
    · cases after? ']' rest with
      | none => exact (plain_bind fun _ _ _ => rfl).trans Option.map_eq_bind.symm
      | some closed => rfl
    · cases after? '\x7d' rest with
      | none => exact (plain_bind fun _ _ _ => rfl).trans Option.map_eq_bind.symm
      | some closed => rfl
    · exact (plain_map id fun _ _ => ⟨rfl, rfl⟩).trans Option.map_id'
    · split
      all_goals first
        | contradiction
        | exact (plain_map id fun _ _ => ⟨rfl, rfl⟩).trans Option.map_id'

/-- `all` reads what `one` reads, once or more often, with commas between and `closing` at the end.
Arrays and objects are both read in this way. -/
def ReadsElements {α : Type} (closing : Char) (one : List Char → Option (α × List Char))
    (all : List Char → Option (List α × List Char)) : Prop :=
  ∀ cs, all cs =
    (one cs).bind fun p =>
      match next? ',' p.2 with
      | some rest => (all rest).map fun q => (p.1 :: q.1, q.2)
      | none => (next? closing p.2).map fun rest => ([p.1], rest)

/-- A document after white space, without the proof about the rest. -/
def readOne (cs : List Char) : Option (Raw × List Char) := plain (readValue cs)

/-- The elements of an array are documents, read one after another. -/
theorem readsElements_readItems : ReadsElements ']' readOne fun cs => plain (readItems cs) := by
  intro cs
  dsimp only
  rw [readItems]
  refine plain_bind fun item rest h => ?_
  dsimp only [next?]
  cases after? ',' rest with
  | none =>
    cases after? ']' rest with
    | none => rfl
    | some closed => rfl
  | some sep => exact (plain_bind fun _ _ _ => rfl).trans Option.map_eq_bind.symm

/-- A member of an object: a name in quotes, a colon and a document. -/
def readMember (cs : List Char) : Option ((List StringPart × Raw) × List Char) :=
  (next? '"' cs).bind fun rest =>
    (plain (readParts rest)).bind fun name =>
      (next? ':' name.2).bind fun rest =>
        (readOne rest).map fun p => ((name.1, p.1), p.2)

/-- The elements of an object are its members. -/
theorem readsElements_readMembers :
    ReadsElements '\x7d' readMember fun cs => plain (readMembers cs) := by
  intro cs
  dsimp only
  rw [readMembers]
  unfold readMember next?
  -- A member has three steps, each of which may fail, and the comma after it is the fourth.
  cases after? '"' cs with
  | none => rfl
  | some quote =>
    obtain ⟨rest, h⟩ := quote
    simp only [Option.map_some, Option.bind_some, Option.bind_assoc, Option.bind_map]
    refine plain_bind fun name rest₁ h₁ => ?_
    dsimp only
    cases after? ':' rest₁ with
    | none => rfl
    | some colon =>
      obtain ⟨rest₂, h₂⟩ := colon
      simp only [Option.bind_some, Function.comp, Option.bind_map]
      refine plain_bind fun value rest₃ h₃ => ?_
      dsimp only [Function.comp]
      cases after? ',' rest₃ with
      | none =>
        cases after? '\x7d' rest₃ with
        | none => rfl
        | some closed => rfl
      | some sep => exact (plain_bind fun _ _ _ => rfl).trans Option.map_eq_bind.symm

/-- A text is one document with nothing but white space after it. -/
theorem read?_eq (s : String) :
    read? s = (readOne s.toList).bind fun p => if p.2.all isSpace then some p.1 else none := by
  unfold read? readOne
  cases readValue s.toList with
  | none => rfl
  | some p => rfl

end UnitPlane.Json
