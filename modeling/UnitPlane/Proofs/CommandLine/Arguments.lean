import Mathlib.Data.List.TakeWhile
import UnitPlane.CommandLine.Arguments
import UnitPlane.Proofs.Support.Except

/-!
# `UnitPlane.Proofs.CommandLine.Arguments`: one more switch on the command line

Reading the arguments never looks at the switches given so far, except to refuse one that is given
twice. `Steady` says so of one step of the reading, and every step is steady, so all of the reading
is. One more switch therefore adds that switch to what the arguments say, and changes nothing else,
wherever it stands:

* `readArguments_cons`: an argument ends the options, stands alone, or takes the next one as its
  value.
* `steady_readArguments`: all of the reading is steady.
* `with_of_readArguments`: one more switch among the arguments is one more switch given.
* `nodup_overrides`: no limit is given twice.
-/

set_option autoImplicit false

namespace UnitPlane

namespace Given

/-- The same with one more switch. Switches are kept in a list, but only whether one is in it
counts, so the lists may differ in order. -/
structure With (w : Switch) (g g' : Given) : Prop where
  positionals : g'.positionals = g.positionals
  parameters : g'.parameters = g.parameters
  mem_switches : ∀ v, v ∈ g'.switches ↔ v = w ∨ v ∈ g.switches

/-- A step of the reading that keeps all switches, gives no parameter twice, and looks at the
switches only to refuse one that is there already. -/
structure Steady (step : Given → Except Ending Given) : Prop where
  mono {g k : Given} : step g = .ok k → g.switches ⊆ k.switches
  nodup {g k : Given} :
    step g = .ok k → (g.parameters.map Prod.fst).Nodup → (k.parameters.map Prod.fst).Nodup
  with_of_ok {w : Switch} {g g' k k' : Given} :
    g.With w g' → step g = .ok k → step g' = .ok k' → k.With w k'
  accepts {w : Switch} {g g' k : Given} :
    g.With w g' → step g = .ok k → w ∉ k.switches → ∃ k', step g' = .ok k'

namespace Steady

/-- Doing nothing is steady. -/
theorem pure : Steady Except.ok where
  mono := by
    rintro g k ⟨⟩
    exact List.Subset.refl _
  nodup := by
    rintro g k ⟨⟩ h
    exact h
  with_of_ok := by
    rintro w g g' k k' h ⟨⟩ ⟨⟩
    exact h
  accepts {w g g' k} _ _ _ := ⟨g', rfl⟩

/-- Refusing whatever is given is steady, because there is nothing to compare. -/
theorem error (e : Ending) : Steady fun _ => .error e where
  mono := nofun
  nodup := nofun
  with_of_ok := nofun
  accepts := nofun

/-- Two steady steps one after the other are steady. A switch that is not there after both was not
there after the first, so the first accepts it too. -/
theorem bind {f f' : Given → Except Ending Given} (h : Steady f) (h' : Steady f') :
    Steady fun g => f g >>= f' where
  mono := by
    intro g k hk
    obtain ⟨m, hm, hk⟩ := Except.bind_eq_ok.1 hk
    exact List.Subset.trans (h.mono hm) (h'.mono hk)
  nodup := by
    intro g k hk hnodup
    obtain ⟨m, hm, hk⟩ := Except.bind_eq_ok.1 hk
    exact h'.nodup hk (h.nodup hm hnodup)
  with_of_ok := by
    intro w g g' k k' hw hk hk'
    obtain ⟨m, hm, hk⟩ := Except.bind_eq_ok.1 hk
    obtain ⟨m', hm', hk'⟩ := Except.bind_eq_ok.1 hk'
    exact h'.with_of_ok (h.with_of_ok hw hm hm') hk hk'
  -- The first step accepts what it did before, so the second one starts with as much as before.
  accepts := by
    intro w g g' k hw hk hnew
    obtain ⟨m, hm, hk⟩ := Except.bind_eq_ok.1 hk
    obtain ⟨m', hm'⟩ := h.accepts hw hm fun hmem => hnew (h'.mono hk hmem)
    obtain ⟨k', hk'⟩ := h'.accepts (h.with_of_ok hw hm hm') hk hnew
    exact ⟨k', Except.bind_eq_ok.2 ⟨m', hm', hk'⟩⟩

/-- A row of steady steps, one for each entry of a list, is steady. -/
theorem foldlM {β : Type} {f : Given → β → Except Ending Given} (h : ∀ b, Steady fun g => f g b)
    (bs : List β) :
    Steady fun g => bs.foldlM f g := by
  -- The induction is on the list, with one more step in front.
  induction bs with
  | nil => exact pure
  | cons b bs ih => exact (h b).bind ih

/-! ### Steps -/

/-- A positional argument is added at the end, and the switches are not looked at. -/
theorem addPositional (s : String) : Steady fun g => g.addPositional s := by
  -- What the step gives when it succeeds says all that three of the four properties need.
  have hok {g k : Given} (h : g.addPositional s = .ok k) :
      k = { g with positionals := g.positionals ++ [s] } := by
    unfold Given.addPositional at h
    dsimp only at h
    split at h
    · exact nomatch h
    split at h
    · exact nomatch h
    · exact (Except.ok.inj h).symm
  refine ⟨?_, ?_, ?_, ?_⟩
  · intro g k h
    rw [hok h]
    exact List.Subset.refl _
  · intro g k h hnodup
    rw [hok h]
    exact hnodup
  · intro w g g' k k' hw h h'
    rw [hok h, hok h']
    exact ⟨congrArg (· ++ [s]) hw.positionals, hw.parameters, hw.mem_switches⟩
  · intro w g g' k hw h _
    -- Whether it fits depends on the number of positional arguments alone.
    unfold Given.addPositional at h ⊢
    rw [hw.positionals]
    dsimp only at h ⊢
    split at h
    · exact nomatch h
    split at h
    · exact nomatch h
    next hcount hnumber =>
      rw [if_neg hcount, if_neg hnumber]
      exact ⟨_, rfl⟩

/-- A switch is added if it is not there yet. This is the one step that looks at the switches, and
it accepts every switch that is not there afterwards. -/
theorem addSwitch (v : Switch) : Steady fun g => g.addSwitch v := by
  have hok {g k : Given} (h : g.addSwitch v = .ok k) : v ∉ g.switches ∧
      k = { g with switches := v :: g.switches } := by
    unfold Given.addSwitch at h
    split at h
    · exact nomatch h
    next hv => exact ⟨hv, (Except.ok.inj h).symm⟩
  refine ⟨?_, ?_, ?_, ?_⟩
  · intro g k h
    rw [(hok h).2]
    exact List.subset_cons_self v g.switches
  · intro g k h hnodup
    rw [(hok h).2]
    exact hnodup
  · intro w g g' k k' hw h h'
    rw [(hok h).2, (hok h').2]
    refine ⟨hw.positionals, hw.parameters, fun u => ?_⟩
    simp only [List.mem_cons, hw.mem_switches]
    exact or_left_comm
  · intro w g g' k hw h hnew
    obtain ⟨hv, rfl⟩ := hok h
    simp only [List.mem_cons, not_or] at hnew
    -- The new switch is not the one that is read here, because that one is there afterwards.
    have hv' : v ∉ g'.switches := by
      rw [hw.mem_switches, not_or]
      exact ⟨fun heq => hnew.1 heq.symm, hv⟩
    unfold Given.addSwitch
    rw [if_neg hv']
    exact ⟨_, rfl⟩

/-- A parameter is added with its value if it is not there yet, so no parameter is given twice. -/
theorem addParameter (p : Parameter) (value : String) : Steady fun g => g.addParameter p value := by
  -- What the step checks and what it does.
  have hok {g k : Given} (h : g.addParameter p value = .ok k) :
      g.parameters.lookup p = none ∧ k = { g with parameters := (p, value) :: g.parameters } := by
    unfold Given.addParameter at h
    split at h
    · exact nomatch h
    next hp =>
      simp only [Bool.or_eq_true, not_or, Option.not_isSome_iff_eq_none] at hp
      exact ⟨hp.1, (Except.ok.inj h).symm⟩
  refine ⟨?_, ?_, ?_, ?_⟩
  · intro g k h
    rw [(hok h).2]
    exact List.Subset.refl _
  · intro g k h hnodup
    obtain ⟨hp, rfl⟩ := hok h
    refine List.nodup_cons.2 ⟨?_, hnodup⟩
    rw [List.lookup_eq_none_iff] at hp
    intro hmem
    obtain ⟨q, hq, hpq⟩ := List.mem_map.1 hmem
    exact bne_iff_ne.1 (hp q hq) hpq.symm
  · intro w g g' k k' hw h h'
    rw [(hok h).2, (hok h').2]
    exact ⟨hw.positionals, congrArg ((p, value) :: ·) hw.parameters, hw.mem_switches⟩
  · intro w g g' k hw h _
    unfold Given.addParameter at h ⊢
    rw [hw.parameters]
    split at h
    · exact nomatch h
    next hp =>
      rw [if_neg hp]
      exact ⟨_, rfl⟩

/-- A letter adds the switch that it stands for, or is refused. -/
theorem addLetter (c : Char) : Steady fun g => g.addLetter c := by
  unfold Given.addLetter
  split
  · exact addSwitch .verbose
  · exact error .version
  · exact error .help
  · exact error .invalid

/-- A name adds the switch that it stands for, or is refused. Asking for help or for the version
ends the reading, whatever else is given. -/
theorem addNamed (name : String) : Steady fun g => g.addNamed name := by
  unfold Given.addNamed
  split
  · exact error .version
  split
  · exact error .help
  cases Switch.all.find? fun w => w.name = name with
  | none => exact error .invalid
  | some w => exact addSwitch w

end Steady

end Given

/-! ### Arguments one by one -/

open Given

/-- An argument that is one step of the reading: the arguments after it are read as if it were not
there, from what the step gives. -/
def StandsAlone (s : String) : Prop :=
  ∃ step, Steady step ∧ ∀ g rest, readArguments g (s :: rest) = step g >>= (readArguments · rest)

/-- An argument that names a parameter and takes the next argument as its value. It is refused as
the last argument, and in front of one that is no value. -/
structure TakesValue (s : String) (p : Parameter) : Prop where
  last : ∀ g, readArguments g [s] = .error .invalid
  step : ∀ g value rest, readArguments g (s :: value :: rest) =
    if isValue value then g.addParameter p value >>= (readArguments · rest) else .error .invalid

section

variable {s : String}

/-- A long option has its value with it, or takes the next argument as its value, or has none. Which
it is depends on the equals sign in it and on the name before this sign. -/
theorem standsAlone_or_takesValue_of_option {o : Char} {os : List Char}
    (hs : s.toList = '-' :: '-' :: o :: os) :
    StandsAlone s ∨ ∃ p, TakesValue s p := by
  -- With an equals sign the value is part of the word, and without one the next word is the value.
  cases hvalue : (o :: os).dropWhile (· ≠ '=') with
  | cons _ value =>
    refine .inl ?_
    cases hname : Parameter.ofName? (String.ofList ((o :: os).takeWhile (· ≠ '='))) with
    | none =>
      refine ⟨_, .error .invalid, fun g rest => ?_⟩
      rw [readArguments.eq_def]
      simp only [hs, hvalue, hname]
      rfl
    | some p =>
      refine ⟨_, .addParameter p (String.ofList value), fun g rest => ?_⟩
      rw [readArguments.eq_def]
      simp only [hs, hvalue, hname]
  | nil =>
    cases hname : Parameter.ofName? (String.ofList ((o :: os).takeWhile (· ≠ '='))) with
    | none =>
      refine .inl ⟨_, .addNamed (String.ofList ((o :: os).takeWhile (· ≠ '='))), fun g rest => ?_⟩
      rw [readArguments.eq_def]
      simp only [hs, hvalue, hname]
    | some p =>
      refine .inr ⟨p, fun g => ?_, fun g value rest => ?_⟩
      · rw [readArguments.eq_def]
        simp only [hs, hvalue, hname]
        rfl
      · rw [readArguments.eq_def]
        simp only [hs, hvalue, hname]
        rfl

/-- What else starts with a hyphen is a number or a row of letters. A negative number is a
positional argument, and each letter is a switch. -/
theorem standsAlone_of_hyphen {c : Char} {letters : List Char} (hs : s.toList = '-' :: c :: letters)
    (hc : c ≠ '-') : StandsAlone s := by
  have heq (g : Given) (rest : List String) : readArguments g (s :: rest) =
      if isPlainNumber (c :: letters) then g.addPositional s >>= (readArguments · rest)
      else (c :: letters).foldlM Given.addLetter g >>= (readArguments · rest) := by
    rw [readArguments.eq_def]
    dsimp only
    -- The first two forms of an argument start with two hyphens.
    split
    next hs' =>
      cases hs.symm.trans hs'
      exact absurd rfl hc
    next hs' =>
      cases hs.symm.trans hs'
      exact absurd rfl hc
    next hs' =>
      cases hs.symm.trans hs'
      rfl
    next hno => exact absurd hs (hno c letters)
  by_cases hnumber : isPlainNumber (c :: letters) = true
  · exact ⟨_, .addPositional s, fun g rest => (heq g rest).trans (if_pos hnumber)⟩
  · exact ⟨_, .foldlM Steady.addLetter (c :: letters), fun g rest => (heq g rest).trans
      (if_neg hnumber)⟩

/-- An argument without a hyphen in front is a positional argument, and so is a lone hyphen. -/
theorem standsAlone_of_no_hyphen (h : ∀ c letters, s.toList ≠ '-' :: c :: letters) :
    StandsAlone s := by
  refine ⟨_, .addPositional s, fun g rest => ?_⟩
  rw [readArguments.eq_def]
  dsimp only
  split
  next hs => exact absurd hs (h _ _)
  next hs => exact absurd hs (h _ _)
  next hs => exact absurd hs (h _ _)
  next => rfl

end

/-- An argument ends the options, or stands alone, or takes the next argument as its value.
Inductions over the arguments split their cases in this way. -/
theorem readArguments_cons (s : String) :
    (s.toList = ['-', '-'] ∧ ∀ g rest, readArguments g (s :: rest) =
      rest.foldlM Given.addPositional g) ∨
      StandsAlone s ∨ ∃ p, TakesValue s p := by
  -- A word with a hyphen and more is an option or the separator, and any other is a positional.
  by_cases hhyphen : ∃ c letters, s.toList = '-' :: c :: letters
  · obtain ⟨c, letters, hs⟩ := hhyphen
    by_cases hc : c = '-'
    · subst hc
      cases letters with
      | nil =>
        refine .inl ⟨hs, fun g rest => ?_⟩
        rw [readArguments.eq_def]
        dsimp only
        rw [hs]
        rfl
      | cons o os => exact .inr (standsAlone_or_takesValue_of_option hs)
    · exact .inr (.inl (standsAlone_of_hyphen hs hc))
  · exact .inr (.inl (standsAlone_of_no_hyphen fun c letters hs => hhyphen ⟨c, letters, hs⟩))

/-- All of the reading is steady. So what it does with one more switch does not depend on which
arguments there are. -/
theorem steady_readArguments (args : List String) : Steady fun g => readArguments g args := by
  -- A parameter takes two arguments at once.
  obtain ⟨n, hn⟩ : ∃ n, args.length = n := ⟨_, rfl⟩
  induction n using Nat.strongRecOn generalizing args with
  | ind n ih =>
    subst hn
    cases args with
    | nil => exact .pure
    | cons s rest =>
      rcases readArguments_cons s with ⟨-, heq⟩ | ⟨step, hstep, heq⟩ | ⟨p, hlast, heq⟩
      · simp only [heq]
        exact .foldlM Steady.addPositional rest
      · simp only [heq]
        exact hstep.bind (ih rest.length (by simp) rest rfl)
      · cases rest with
        | nil =>
          simp only [hlast]
          exact .error .invalid
        | cons value rest =>
          simp only [heq]
          split
          · exact (Steady.addParameter p value).bind
              (ih rest.length (by simp only [List.length_cons]; omega) rest rfl)
          · exact .error .invalid

/-- After a lone `--` every argument is positional, so a switch that is written there is counted as
one more of these. -/
theorem length_positionals_foldlM {args : List String} {g k : Given}
    (h : args.foldlM Given.addPositional g = .ok k) :
    k.positionals.length = g.positionals.length + args.length := by
  -- Each word that is accepted adds one positional.
  induction args generalizing g with
  | nil =>
    cases h
    rfl
  | cons s args ih =>
    rw [List.foldlM_cons] at h
    obtain ⟨m, hm, h⟩ := Except.bind_eq_ok.1 h
    unfold Given.addPositional at hm
    dsimp only at hm
    split at hm
    · exact nomatch hm
    split at hm
    · exact nomatch hm
    · cases hm
      rw [ih h, List.length_append, List.length_cons, List.length_cons, List.length_nil]
      omega

/-! ### One more switch -/

/-- How a switch is written: its name, after two hyphens. -/
def Switch.word (w : Switch) : String := "--" ++ w.name

/-- The characters of a switch are two hyphens and those of its name. -/
theorem toList_word (w : Switch) : w.word.toList = '-' :: '-' :: w.name.toList := by
  rw [Switch.word, String.toList_append]
  rfl

/-- A switch is no value of the parameter in front of it. With a parameter that still waits for its
value, the arguments are refused. -/
theorem isValue_word (w : Switch) : isValue w.word = false := by
  unfold isValue
  rw [toList_word]
  rfl

/-- The name of a switch is no other name. Each switch has a name of its own, which is neither that
of a parameter nor one that ends the reading. -/
theorem addNamed_name (w : Switch) (g : Given) : g.addNamed w.name = g.addSwitch w := by
  have hversion : w.name ≠ "version" := by
    cases w <;> decide
  have hhelp : w.name ≠ "help" := by
    cases w <;> decide
  have hfind : Switch.all.find? (fun v => v.name = w.name) = some w := by
    cases w <;> decide
  unfold Given.addNamed
  rw [if_neg hversion, if_neg hhelp, hfind]

/-- A switch that is written out is one step of the reading, which gives the switch. -/
theorem readArguments_word (w : Switch) (g : Given) (rest : List String) :
    readArguments g (w.word :: rest) = g.addSwitch w >>= (readArguments · rest) := by
  have hs := toList_word w
  -- The names of switches have no equals sign, and none of them is the name of a parameter.
  have hchars : ∀ c ∈ w.name.toList, decide (c ≠ '=') = true := by
    refine List.all_eq_true.1 ?_
    cases w <;> decide
  have hparameter : Parameter.ofName? w.name = none := by
    cases w <;> decide
  have hvalue : w.name.toList.dropWhile (· ≠ '=') = [] := List.dropWhile_eq_nil_iff.2 hchars
  have hname : String.ofList (w.name.toList.takeWhile (· ≠ '=')) = w.name := by
    rw [List.takeWhile_eq_self_iff.2 hchars, String.ofList_toList]
  have hne : w.name.toList ≠ [] := by
    cases w <;> decide
  obtain ⟨o, os, hcons⟩ := List.exists_cons_of_ne_nil hne
  rw [hcons] at hs hvalue hname
  rw [readArguments.eq_def]
  simp only [hs, hvalue, hname, hparameter, addNamed_name]

/-- Giving a switch adds this switch and nothing else. -/
theorem with_addSwitch {w : Switch} {g k : Given} (h : g.addSwitch w = .ok k) : g.With w k := by
  unfold Given.addSwitch at h
  split at h
  · exact nomatch h
  · cases h
    exact ⟨rfl, rfl, fun v => List.mem_cons⟩

/-- One more switch anywhere among the arguments is one more switch given, unless it stands for a
positional argument. It does so after a lone `--`, where the arguments then count one more of
these. -/
theorem with_of_readArguments {w : Switch} {g k k' : Given} {before after : List String}
    (h : readArguments g (before ++ after) = .ok k)
    (h' : readArguments g (before ++ w.word :: after) = .ok k')
    (hlength : k'.positionals.length = k.positionals.length) : k.With w k' := by
  obtain ⟨n, hn⟩ : ∃ n, before.length = n := ⟨_, rfl⟩
  -- The induction is on the arguments in front of the switch, of which one or two are read at a
  -- time.
  induction n using Nat.strongRecOn generalizing before g with
  | ind n ih =>
    subst hn
    cases before with
    | nil =>
      rw [List.nil_append, readArguments_word] at h'
      obtain ⟨m, hm, h'⟩ := Except.bind_eq_ok.1 h'
      exact (steady_readArguments after).with_of_ok (with_addSwitch hm) h h'
    | cons s before =>
      rw [List.cons_append] at h h'
      rcases readArguments_cons s with ⟨-, heq⟩ | ⟨step, -, heq⟩ | ⟨p, -, heq⟩
      · -- After a lone `--` there would be one more positional argument.
        rw [heq] at h h'
        have := length_positionals_foldlM h
        have := length_positionals_foldlM h'
        simp only [List.length_append, List.length_cons] at *
        omega
      · rw [heq] at h h'
        obtain ⟨m, hm, h⟩ := Except.bind_eq_ok.1 h
        obtain ⟨m', hm', h'⟩ := Except.bind_eq_ok.1 h'
        cases hm.symm.trans hm'
        exact ih before.length (by simp) h h' rfl
      · cases before with
        | nil =>
          -- The parameter in front takes no switch for its value.
          rw [List.nil_append, heq, isValue_word] at h'
          exact nomatch h'
        | cons value before =>
          rw [List.cons_append, heq] at h h'
          split at h
          next hvalue =>
            rw [if_pos hvalue] at h'
            obtain ⟨m, hm, h⟩ := Except.bind_eq_ok.1 h
            obtain ⟨m', hm', h'⟩ := Except.bind_eq_ok.1 h'
            cases hm.symm.trans hm'
            exact ih before.length (by simp only [List.length_cons]; omega) h h' rfl
          next => exact nomatch h

/-! ### Jobs -/

namespace Given

variable {w : Switch} {g g' : Given}

/-- An axis depends on the two switches that are about it alone, so a different one leaves it as it
is. -/
theorem With.axis?_eq (h : g.With w g') {count log : Switch} (hcount : count ≠ w) (hlog : log ≠ w)
    (start stop amount unit : String) :
    g'.axis? start stop amount unit count log = g.axis? start stop amount unit count log := by
  unfold axis?
  simp only [h.mem_switches, hcount, hlog, false_or]

/-- The limits that are given one by one are parameters, and a switch does not change them. -/
theorem With.overrides_eq (h : g.With w g') : g'.overrides = g.overrides := by
  unfold overrides
  rw [h.parameters]

/-- What a switch that is about the answer adds to a job. The other switches are about the axes, and
are not applied in this way. -/
def applySwitch (w : Switch) (a : Arguments) : Arguments :=
  match w with
  | .verbose => { a with verbose := true }
  | .pretty => { a with layoutPretty := true }
  | _ => a

/-- With one more switch that is about the answer, the job is the same but for what the switch asks
for. In particular there is a job with the switch if there is one without. -/
theorem With.toArguments?_eq (h : g.With w g') (hw : w = .verbose ∨ w = .pretty) :
    g'.toArguments? = g.toArguments?.map (applySwitch w) := by
  have hx := h.axis?_eq (show Switch.countX ≠ w by rcases hw with rfl | rfl <;> decide)
    (show Switch.logX ≠ w by rcases hw with rfl | rfl <;> decide)
  have hy := h.axis?_eq (show Switch.countY ≠ w by rcases hw with rfl | rfl <;> decide)
    (show Switch.logY ≠ w by rcases hw with rfl | rfl <;> decide)
  unfold toArguments?
  rw [h.positionals]
  split
  next title xLabel yLabel formula targetUnit xStart xStop xStep xUnit yStart yStop yStep yUnit _ =>
    rw [hx, hy]
    cases g.axis? xStart xStop xStep xUnit .countX .logX with
    | none => rfl
    | some x =>
      cases g.axis? yStart yStop yStep yUnit .countY .logY with
      | none => rfl
      | some y =>
        simp only [h.parameters, h.overrides_eq, h.mem_switches, Option.bind_eq_bind,
          Option.bind_some]
        -- Only the two fields that say whether these switches were given look at them.
        rcases hw with rfl | rfl <;> simp [applySwitch]
  · rfl

/-- The arguments ask for a job only if all positional ones are there; the rest of the job comes
from the options. -/
theorem eq_of_toArguments? {a : Arguments} (h : g.toArguments? = some a) :
    g.positionals.length = positionalCount ∧ ∃ request, a = {
      request
      verbose := decide (Switch.verbose ∈ g.switches)
      layoutPretty := decide (Switch.pretty ∈ g.switches)
      out := g.parameters.lookup .out
      limitsFile := g.parameters.lookup .limits
      overrides := g.overrides } := by
  unfold toArguments? at h
  -- There have to be as many positionals as a request has, and two of them are axes.
  split at h
  next heq =>
    obtain ⟨x, -, h⟩ := Option.bind_eq_some_iff.1 h
    obtain ⟨y, -, h⟩ := Option.bind_eq_some_iff.1 h
    cases h
    exact ⟨by rw [heq]; rfl, _, rfl⟩
  next => exact nomatch h

/-- The two switches about the answer are fields of the job, which say whether the switch was
given. -/
theorem switches_of_toArguments? {a : Arguments} (h : g.toArguments? = some a) :
    (a.verbose = true ↔ .verbose ∈ g.switches) ∧
    (a.layoutPretty = true ↔ .pretty ∈ g.switches) := by
  obtain ⟨-, request, rfl⟩ := eq_of_toArguments? h
  exact ⟨decide_eq_true_iff, decide_eq_true_iff⟩

/-- The limits that are given one by one are those of the parameters that are numbers, in the order
in which they were given. -/
theorem overrides_of_toArguments? {a : Arguments} (h : g.toArguments? = some a) :
    a.overrides = g.overrides := by
  obtain ⟨-, request, rfl⟩ := eq_of_toArguments? h
  rfl

/-- The limits that are given one by one are some of the parameters that are given. So if no
parameter is given twice, no limit is. -/
theorem sublist_overrides (parameters : List (Parameter × String)) :
    ((parameters.filterMap fun (p, value) => (readSize? value).map fun n => (p, n)).map
      Prod.fst).Sublist
      (parameters.map Prod.fst) := by
  induction parameters with
  | nil => exact .slnil
  | cons q parameters ih =>
    obtain ⟨p, value⟩ := q
    rw [List.filterMap_cons]
    dsimp only
    cases readSize? value with
    | none => exact ih.cons p
    | some n => exact ih.cons_cons p

end Given

namespace Arguments

/-- The arguments are a job just when they can be read and what is read asks for one. -/
theorem parse_eq_ok_iff {args : List String} {a : Arguments} :
    parse args = .ok a ↔ ∃ g, readArguments {} args = .ok g ∧ g.toArguments? = some a := by
  unfold parse
  rw [Except.bind_eq_ok]
  refine exists_congr fun g => and_congr_right fun _ => ?_
  cases g.toArguments? with
  | none => simp
  | some b => simp

/-- One more switch that is about the answer leaves the job the same, wherever it stands. If it
stood for a positional argument, there would be one too many of these. -/
theorem parse_insert {w : Switch} (hw : w = .verbose ∨ w = .pretty) {before after : List String}
    {a a' : Arguments}
    (h : parse (before ++ after) = .ok a) (h' : parse (before ++ w.word :: after) = .ok a') :
    a' = applySwitch w a := by
  obtain ⟨g, hg, ha⟩ := parse_eq_ok_iff.1 h
  obtain ⟨g', hg', ha'⟩ := parse_eq_ok_iff.1 h'
  have hlength := (eq_of_toArguments? ha').1.trans (eq_of_toArguments? ha).1.symm
  have hwith := with_of_readArguments hg hg' hlength
  rw [hwith.toArguments?_eq hw, ha] at ha'
  exact (Option.some.inj ha').symm

/-- A switch that is not given yet may be given in front of all other arguments, where it is read
first and no other argument waits for a value. -/
theorem parse_cons {w : Switch} (hw : w = .verbose ∨ w = .pretty) {args : List String} {g : Given}
    {a : Arguments}
    (hg : readArguments {} args = .ok g) (ha : g.toArguments? = some a) (hnew : w ∉ g.switches) :
    parse (w.word :: args) = .ok (applySwitch w a) := by
  have hadd : ({} : Given).addSwitch w = .ok { switches := [w] } := rfl
  have hwith := with_addSwitch hadd
  obtain ⟨g', hg'⟩ := (steady_readArguments args).accepts hwith hg hnew
  refine parse_eq_ok_iff.2 ⟨g', ?_, ?_⟩
  · rw [readArguments_word, hadd]
    exact hg'
  · rw [((steady_readArguments args).with_of_ok hwith hg hg').toArguments?_eq hw, ha]
    rfl

/-- A summary can be asked for in front of arguments that do not ask for it yet. -/
theorem parse_verbose {args : List String} {a : Arguments} (h : parse args = .ok a)
    (hnew : a.verbose = false) :
    parse ("--verbose" :: args) = .ok { a with verbose := true } := by
  obtain ⟨g, hg, ha⟩ := parse_eq_ok_iff.1 h
  refine parse_cons (w := .verbose) (.inl rfl) hg ha fun hmem => ?_
  rw [(switches_of_toArguments? ha).1.2 hmem] at hnew
  exact nomatch hnew

/-- The other layout can be asked for in front of arguments that do not ask for it yet. -/
theorem parse_pretty {args : List String} {a : Arguments} (h : parse args = .ok a)
    (hnew : a.layoutPretty = false) :
    parse ("--pretty" :: args) = .ok { a with layoutPretty := true } := by
  obtain ⟨g, hg, ha⟩ := parse_eq_ok_iff.1 h
  refine parse_cons (w := .pretty) (.inr rfl) hg ha fun hmem => ?_
  rw [(switches_of_toArguments? ha).2.2 hmem] at hnew
  exact nomatch hnew

/-- No limit is given twice, because a parameter that is given twice is refused. -/
theorem nodup_overrides {args : List String} {a : Arguments} (h : parse args = .ok a) :
    (a.overrides.map Prod.fst).Nodup := by
  obtain ⟨g, hg, ha⟩ := parse_eq_ok_iff.1 h
  rw [overrides_of_toArguments? ha]
  exact (sublist_overrides g.parameters).nodup ((steady_readArguments args).nodup hg .nil)

end Arguments

end UnitPlane
