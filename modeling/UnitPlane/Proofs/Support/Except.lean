/-!
# `UnitPlane.Proofs.Support.Except`: steps that may fail

A computation in `Except` is a row of steps, and each result or fault of the row comes from one of
them. These lemmas take one step off at a time, so that no other proof opens `bind`.

A reader returns the rest of its input with a proof that it is shorter. `Except.plain` leaves the
proof out, so that what a reader does can be said by an equation.
-/

set_option autoImplicit false

namespace UnitPlane.Except

variable {ε α β : Type}

/-- A step that has a result is passed over: the row goes on from the result. With the three lemmas
below, `simp` takes off every step whose end is known. -/
@[simp] theorem ok_bind (a : α) (f : α → Except ε β) : (Except.ok a >>= f) = f a := rfl

/-- A step that fails ends the row with its fault, and nothing after it is done. -/
@[simp] theorem error_bind (e : ε) (f : α → Except ε β) :
    ((Except.error e : Except ε α) >>= f) = .error e := rfl

/-- Returning a result is the row without a step. Functions in `do` notation say `pure`, while
statements about them say `.ok`. -/
@[simp] theorem pure_eq_ok (a : α) : (pure a : Except ε α) = .ok a := rfl

/-- Throwing a fault is the row that ends at once with it. Functions in `do` notation say `throw`,
while statements about them say `.error`. -/
@[simp] theorem throw_eq_error (e : ε) : (throw e : Except ε α) = .error e := rfl

/-- A row of steps succeeds when the first does and the rest goes on from its result. Taking a
successful row apart with this gives the result of each step by name. -/
theorem bind_eq_ok {x : Except ε α} {f : α → Except ε β} {b : β} :
    (x >>= f) = .ok b ↔ ∃ a, x = .ok a ∧ f a = .ok b := by
  cases x with
  | error e => simp
  | ok a => simp

/-- A row of steps fails when the first does, or when the rest fails after it. In the second case
the first step has a result, which the fault of the rest may depend on. -/
theorem bind_eq_error {x : Except ε α} {f : α → Except ε β} {e : ε} :
    (x >>= f) = .error e ↔ x = .error e ∨ ∃ a, x = .ok a ∧ f a = .error e := by
  cases x with
  | error e => simp
  | ok a => simp

/-- Two rows with the same first step are the same if they go on in the same way from the result
that this step really has. Results that it cannot have do not count. -/
theorem bind_congr_of_eq_ok {x : Except ε α} {f g : α → Except ε β}
    (h : ∀ a, x = .ok a → f a = g a) :
    (x >>= f) = x >>= g := by
  cases x with
  | error e => rfl
  | ok a => exact h a rfl

/-- A row of steps has a result when all of them have one. Which fault there is otherwise is left
out, for statements that hold up to the fault. -/
theorem toOption_bind (x : Except ε α) (f : α → Except ε β) :
    (x >>= f).toOption = x.toOption >>= fun a => (f a).toOption := by
  cases x with
  | error e => rfl
  | ok a => rfl

/-- What is done with a result does not decide whether there is one. -/
theorem toOption_map (x : Except ε α) (f : α → β) : (x.map f).toOption = x.toOption.map f := by
  cases x with
  | error e => rfl
  | ok a => rfl

/-- Two changes of a result, one after the other, are one change. -/
theorem map_map {γ : Type} (x : Except ε α) (f : α → β) (g : β → γ) :
    (x.map f).map g = x.map (g ∘ f) := by
  cases x with
  | error e => rfl
  | ok a => rfl

/-- A change of the result and a change of the fault do not get in each other's way, because only
one of the two is there. -/
theorem map_mapError {ε' : Type} (x : Except ε α) (f : ε → ε') (g : α → β) :
    (x.mapError f).map g = (x.map g).mapError f := by
  cases x with
  | error e => rfl
  | ok a => rfl

/-- A function that keeps results apart keeps computations apart. Faults are left as they are, so
they are kept apart anyway. -/
theorem map_injective {f : α → β} (hf : ∀ {a b}, f a = f b → a = b) {x y : Except ε α}
    (h : x.map f = y.map f) : x = y := by
  cases x with
  | error e =>
    cases y with
    | error e' => exact congrArg Except.error (Except.error.inj h)
    | ok b => cases h
  | ok a =>
    cases y with
    | error e' => cases h
    | ok b => exact congrArg Except.ok (hf (Except.ok.inj h))

/-! ### Both ways to end -/

/-- A computation ends with a result that has the property `P`, or with a fault that has the
property `Q`. Stating both at once lets a proof go through a row of steps a single time. -/
def Outcome (P : α → Prop) (Q : ε → Prop) : Except ε α → Prop
  | .ok a => P a
  | .error e => Q e

namespace Outcome

variable {P : α → Prop} {P' : β → Prop} {Q : ε → Prop} {x : Except ε α} {f : α → Except ε β}

/-- A row ends well if its first step does, and if the rest does from the result that the first step
has. What follows from this result being the one returned may be used. -/
theorem bind_of_eq_ok (hx : Outcome P Q x) (hf : ∀ a, x = .ok a → P a → Outcome P' Q (f a)) :
    Outcome P' Q (x >>= f) := by
  cases x with
  | error e => exact hx
  | ok a => exact hf a rfl hx

/-- A row of steps ends well when each step does, from what the steps before it give. The fault of
any step is a fault of the row, so all steps share the property of faults. -/
theorem bind (hx : Outcome P Q x) (hf : ∀ a, P a → Outcome P' Q (f a)) : Outcome P' Q (x >>= f) :=
  hx.bind_of_eq_ok fun a _ => hf a

/-- A computation that ends well and has a result has one with the property of results. -/
theorem of_eq_ok {a : α} (h : x = .ok a) (hx : Outcome P Q x) : P a := by
  subst h
  exact hx

/-- A computation that ends well but fails has a fault with the property of faults. -/
theorem of_eq_error {e : ε} (h : x = .error e) (hx : Outcome P Q x) : Q e := by
  subst h
  exact hx

end Outcome

/-! ### Readers -/

/-- What a reader returns, without the proof about the rest. Readers return their rest with a proof
that it is shorter, which their recursion needs and their laws do not. -/
def plain {σ : Type} {P : σ → Prop} (r : Except ε (α × { s : σ // P s })) : Except ε (α × σ) :=
  r.map fun (a, s) => (a, s.val)

section

variable {σ : Type} {P Q : σ → Prop}

/-- A result keeps its value and its rest; the proof about the rest is dropped. -/
@[simp] theorem plain_ok (a : α) (s : { s : σ // P s }) :
    plain (.ok (a, s) : Except ε _) = .ok (a, s.val) := rfl

/-- A fault comes without a proof, so nothing is dropped. -/
@[simp] theorem plain_error (e : ε) :
    plain (.error e : Except ε (α × { s : σ // P s })) = .error e := rfl

/-- After a step, only the value and the rest count, not the proof. If each way to go on is, without
its proof, what `g` says, then so is the whole row. -/
theorem plain_bind {r : Except ε (α × { s : σ // P s })}
    {f : α × { s : σ // P s } → Except ε (β × { s : σ // Q s })} {g : α × σ → Except ε (β × σ)}
    (h : ∀ a s hs, plain (f (a, ⟨s, hs⟩)) = g (a, s)) : plain (r >>= f) = plain r >>= g := by
  cases r with
  | error e => rfl
  | ok a => exact h a.1 a.2.val a.2.property

/-- A step that passes on what came before it changes nothing but the proof. Readers end with such a
step where they only have to show once more that the rest is shorter. -/
theorem plain_bind_self {r : Except ε (α × { s : σ // P s })}
    {f : α × { s : σ // P s } → Except ε (α × { s : σ // Q s })}
    (h : ∀ a s hs, plain (f (a, ⟨s, hs⟩)) = .ok (a, s)) : plain (r >>= f) = plain r := by
  cases r with
  | error e => rfl
  | ok a => exact h a.1 a.2.val a.2.property

/-- A reader has a result without the proof just when it has it with one: the proof is the only
thing that is left out, and it can be put back. -/
theorem plain_eq_ok {r : Except ε (α × { s : σ // P s })} {a : α} {s : σ} :
    plain r = .ok (a, s) ↔ ∃ h, r = .ok (a, ⟨s, h⟩) := by
  cases r with
  -- A fault is no result on either side.
  | error e => simp
  | ok b =>
    constructor
    · intro h
      cases h
      exact ⟨b.2.property, rfl⟩
    · rintro ⟨h, heq⟩
      cases heq
      rfl

end

/-- Results and faults can be compared where both kinds can. This lets whole computations be
compared on fixed inputs. -/
instance decidableEq [DecidableEq ε] [DecidableEq α] : DecidableEq (Except ε α)
  | .ok a, .ok b => decidable_of_iff (a = b) (by simp)
  | .error a, .error b => decidable_of_iff (a = b) (by simp)
  | .ok _, .error _ => isFalse (by simp)
  | .error _, .ok _ => isFalse (by simp)

end UnitPlane.Except
