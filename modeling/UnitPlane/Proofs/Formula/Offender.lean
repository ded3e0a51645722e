import UnitPlane.Proofs.Formula.Acceptance
import UnitPlane.Proofs.Formula.Arena.Trees
import UnitPlane.Proofs.Formula.Halting
import UnitPlane.Proofs.Formula.Tiling

/-!
# `UnitPlane.Proofs.Formula.Offender`: a syntax error points at the first word that does not fit

A syntax error has the position of a word, which may be the end of the text. Some formula begins
with the words in front of it, and no formula begins with these words and the word itself. The same
holds for a name that is no variable.

The first half needs a formula, so what is missing is written behind the words: an operand, if one
is due, and closing brackets. For the second half, a formula that begins with the word too would run
through the symbol that does not run.

* `Begins`: what the text of some formula begins with.
* `Formula.parse_points`: the word that a syntax error points at.
-/

set_option autoImplicit false

namespace UnitPlane

open Text

/-- The text of some formula, read under some limits, begins with these symbols. The end of a text
counts as its last symbol, so nothing follows it in the text of a formula. -/
def Begins (ss : List Symbol) : Prop :=
  ∃ (limits : Limits) (source : String) (f : Formula) (ts : Tokens),
    Formula.parse limits source = .ok f ∧ tokenize source = .ok ts ∧
      ss <+: ts.toList.map Token.symbol

/-- The symbols of a text are those of its words and the end. This is the form in which `Begins`
speaks of them. -/
theorem Tokens.map_symbol_toList (ts : Tokens) :
    ts.toList.map Token.symbol = ts.words.map Token.symbol ++ [.stop] := by
  rw [toList, List.map_append]
  rfl

/-- What a formula begins with runs. A formula runs to its end, and so does every beginning of it.
This is what shows that a word does not fit: it does not run. -/
theorem Begins.after_isSome {ss : List Symbol} (h : Begins ss) :
    ((Due.operand 0).after ss).isSome := by
  obtain ⟨limits, source, f, ts, hf, hts, rest, hrest⟩ := h
  have hwords := (Formula.derives_of_parse hts hf).1.after_eq 0
  have hall : (Due.operand 0).after (ss ++ rest) = some .nothing := by
    rw [hrest, ts.map_symbol_toList, Due.after_append_of_eq hwords]
    rfl
  rw [Due.after_append] at hall
  obtain ⟨d, hd, -⟩ := Option.bind_eq_some_iff.1 hall
  rw [hd]
  rfl

/-! ### Texts that begin alike -/

namespace Due

/-- Only the end of the text leaves nothing due. Every other symbol that may come next leaves an
operand or an operator due. -/
theorem ne_nothing_of_next {d d' : Due} {s : Symbol} (h : d.next s = some d') (hs : s ≠ .stop) :
    d' ≠ nothing := by
  rintro rfl
  -- Where an operand is due only a number, a name, a sign or an opening bracket may come next, and
  -- where an operator is due nothing but an operator, a closing bracket or the end.
  cases d with
  | operand n =>
    cases s with
    | name name =>
      obtain ⟨v, -, hv⟩ := Option.map_eq_some_iff.1 h
      cases hv
    | number | plus | minus | star | doubleStar | slash | openBracket | closeBracket | unsupported
        | stop => cases h
  | operator n =>
    cases s with
    | stop => exact hs rfl
    | closeBracket => cases n <;> cases h
    | number | name | plus | minus | star | doubleStar | slash | openBracket | unsupported =>
        cases h
  | nothing => cases h

/-- Words that are not the end leave something due. So what they leave can be completed, which
`Expression.append_completion` needs. -/
theorem ne_nothing_of_after {d d' : Due} {ss : List Symbol} (h : d.after ss = some d')
    (hd : d ≠ nothing) (hss : ∀ s ∈ ss, s ≠ .stop) : d' ≠ nothing := by
  induction ss generalizing d with
  | nil =>
    cases h
    exact hd
  | cons s ss ih =>
    obtain ⟨hs, hss⟩ := List.forall_mem_cons.1 hss
    obtain ⟨d₁, hnext, h⟩ := Option.bind_eq_some_iff.1 h
    exact ih h (ne_nothing_of_next hnext hs) hss

/-- How the completion is written: an `x` where an operand is due, and as many closing brackets as
are open. -/
def completionText : Due → List Char
  | operand n => 'x' :: List.replicate n ')'
  | operator n => List.replicate n ')'
  | nothing => []

/-- Closing brackets are read one by one, since no symbol is made of two of them. -/
theorem lexes_brackets (n : ℕ) : Lexes (List.replicate n ')') (List.replicate n .closeBracket) := by
  induction n with
  | zero => exact .nil
  | succ n ih => exact ih.closeBracket

/-- The completion as it is written is read as the completion. -/
theorem lexes_completionText (d : Due) : Lexes d.completionText d.completion := by
  cases d with
  | operand n =>
    refine Lexes.name .x ?_ (lexes_brackets n)
    cases n with
    | zero => exact stops_nil _
    | succ n => exact stops_cons.2 (continuesName_of_ascii (by decide))
  | operator n => exact lexes_brackets n
  | nothing => exact .nil

end Due

/-- Symbols of words in a text that run are what a formula begins with. The formula is the words as
they stand in the text, a blank, and what completes them. -/
theorem begins_of_after {source : String} {ts : Tokens} {before rest : List Token} {d : Due}
    (hts : tokenize source = .ok ts) (hwords : ts.words = before ++ rest)
    (h : (Due.operand 0).after (before.map Token.symbol) = some d) :
    Begins (before.map Token.symbol) := by
  obtain ⟨q, hscans⟩ := scans_of_tokenize hts
  rw [hwords] at hscans
  obtain ⟨q', cs, hbefore, -⟩ := hscans.split
  -- The words keep their symbols when a blank and the completion are written behind them.
  obtain ⟨first, -, -, hfirst⟩ := hbefore.interrupt
  have hblank : isBlank ' ' = true := by decide
  have hlexes : Lexes (first ++ ' ' :: d.completionText)
      (before.map Token.symbol ++ d.completion) :=
    (hfirst _ (.cut (.inl hblank) _ _)).lexes (.blank hblank d.lexes_completionText)
  obtain ⟨words', hscan', hsymbols⟩ := hlexes 0
  have hts' := tokenize_of_scan hscan'
  -- Words are never the end of the text, so they leave something that can be completed.
  have hd : d ≠ .nothing := by
    refine Due.ne_nothing_of_after h nofun fun s hs => ?_
    obtain ⟨w, hw, rfl⟩ := List.mem_map.1 hs
    exact (hbefore.forall_word w hw).1
  obtain ⟨t, ht⟩ := Expression.append_completion h hd
  rw [← hsymbols] at ht
  refine ⟨_, _, _, _, Formula.parse_raisedFor hts' ht {}, hts', ?_⟩
  rw [Tokens.map_symbol_toList]
  dsimp only
  rw [hsymbols, List.append_assoc]
  exact List.prefix_append _ _

/-! ### Words that do not fit -/

/-- The word is the first one that does not fit: some formula begins with the words in front of it,
and none begins with these and the word. -/
def Tokens.Offends (ts : Tokens) (t : Token) : Prop :=
  ∃ before after, ts.toList = before ++ t :: after ∧ Begins (before.map Token.symbol) ∧
    ¬ Begins ((before ++ [t]).map Token.symbol)

/-- The word that does not fit is one of the words of the text, or its end. -/
theorem Tokens.Offends.mem {ts : Tokens} {t : Token} (h : ts.Offends t) : t ∈ ts.toList := by
  obtain ⟨before, after, htoList, -⟩ := h
  rw [htoList]
  exact List.mem_append_right _ List.mem_cons_self

/-- A word that may not come next, after words that run, is the first one that does not fit. It is
the word that a halt with the words that follow points at. -/
theorem Tokens.offends_of_runs {source : String} {ts : Tokens} {d : Due} {rest : List Symbol}
    (o : Obstacle)
    (hts : tokenize source = .ok ts) (hruns : Runs (.operand 0) (ts.words.map Token.symbol) d rest)
    (hnext : d.next (rest.headD .stop) = none) :
    ts.Offends (ts.wordAt ⟨o, rest.length⟩) ∧ (ts.wordAt ⟨o, rest.length⟩).symbol =
      rest.headD .stop := by
  obtain ⟨us, hus, hafter⟩ := hruns
  obtain ⟨before, words, hwords, rfl, rfl⟩ := List.map_eq_append_iff.1 hus
  -- Where no words are left, the word is the end of the text.
  have hwordAt : ts.wordAt ⟨o, (words.map Token.symbol).length⟩ =
      words.headD ⟨.stop, ts.length, ts.length⟩ :=
    wordAt_halt #[] ⟨before, hwords.symm⟩ o
  have hsymbol : (words.headD ⟨.stop, ts.length, ts.length⟩).symbol =
      (words.map Token.symbol).headD .stop := by
    cases words with
    | nil => rfl
    | cons w words => rfl
  obtain ⟨after, htoList⟩ :
      ∃ after, ts.toList = before ++ words.headD ⟨.stop, ts.length, ts.length⟩ :: after := by
    unfold toList
    rw [hwords, List.append_assoc]
    cases words with
    | nil => exact ⟨[], rfl⟩
    | cons w words => exact ⟨words ++ [_], rfl⟩
  rw [← hsymbol] at hnext
  rw [hwordAt]
  -- A formula that began with the word too would run through it.
  refine ⟨⟨before, after, htoList, begins_of_after hts hwords hafter, fun hbegins => ?_⟩, hsymbol⟩
  have hnone : (Due.operand 0).after
      ((before ++ [words.headD ⟨.stop, ts.length, ts.length⟩]).map Token.symbol) = none := by
    rw [List.map_append, Due.after_append_of_eq hafter, List.map_singleton, Due.after, hnext]
    rfl
  have hsome := hbegins.after_isSome
  rw [hnone] at hsome
  cases hsome

/-- A name among the words stands in the text where its word starts. The text in front of the words,
`front`, is carried along, because positions are counted from the start of the whole text. -/
theorem Scans.name_standsIn {p q : ℕ} {cs rest : List Char} {ts : List Token}
    (h : Scans p cs ts q rest) (front : List Char) (hp : byteLength front = p) {w : Token}
    (hw : w ∈ ts) {name : String} (hname : w.symbol = .name name) :
    ∃ before after, front ++ cs = before ++ name.toList ++ after ∧ byteLength before = w.start := by
  -- The induction is on the scan. Each step moves a blank or a lexeme to the end of the front.
  induction h generalizing front with
  | done => cases hw
  | @blank p q c cs rest ts hc _ ih =>
    have happend : front ++ c :: cs = front ++ [c] ++ cs := by
      rw [List.append_assoc, List.singleton_append]
    rw [happend]
    refine ih _ ?_ hw
    rw [byteLength_append, hp, byteLength_cons, byteLength_nil, Nat.add_zero]
  | @word p q c cs rest ts l hc hl _ ih =>
    have happend : front ++ c :: cs = front ++ l.text ++ l.rest := by
      rw [List.append_assoc, l.text_append_rest]
    rw [happend]
    -- The name is the lexeme that was just read, or one of the words after it.
    rcases List.mem_cons.1 hw with rfl | hw
    · rw [(lexeme_eq_ok hl).2.2 name hname]
      exact ⟨front, l.rest, rfl, hp⟩
    · refine ih _ ?_ hw
      rw [byteLength_append, hp]

/-- The words of a text are refused at a halt that is justified, and the fault is the one that
belongs to the halt. -/
theorem Tokens.exists_justified_of_parse {limits : Limits} {source : String}
    {ts : Tokens} {e : Fault}
    (hts : tokenize source = .ok ts) (hne : ts.words ≠ []) (h : ts.parse limits = .error e) :
    ∃ k, Justified (.operand 0) (ts.words.map Token.symbol) k ∧ ts.faultAt k = e := by
  obtain ⟨k, hk, hfault⟩ := Tokens.parse_eq_error_iff.1 h
  refine ⟨k, Arena.justified_of_ofSymbols ?_ ?_ hk, hfault⟩
  · rwa [Ne, List.map_eq_nil_iff]
  · -- No word of a text is the end of it.
    intro hstop
    obtain ⟨q, hscans⟩ := scans_of_tokenize hts
    obtain ⟨w, hw, hsymbol⟩ := List.mem_map.1 hstop
    exact (hscans.forall_word w hw).1 hsymbol

/-- A formula whose words are known is refused for a limit, or at a halt that is justified. Nothing
else is left, because lexing has succeeded. -/
theorem Formula.exists_justified_of_parse {limits : Limits} {source : String} {ts : Tokens}
    {e : Fault} (hts : tokenize source = .ok ts) (hne : ts.words ≠ [])
    (h : Formula.parse limits source = .error e) :
    e.OfLimits ∨ ∃ k, Justified (.operand 0) (ts.words.map Token.symbol) k ∧ ts.faultAt k = e := by
  by_cases hlen : source.utf8ByteSize ≤ limits.maxFormulaLen
  · rw [parse_eq hts hlen] at h
    rcases Except.bind_eq_error.1 h with h | ⟨t, -, h⟩
    · exact .inr (Tokens.exists_justified_of_parse hts hne h)
    · cases h
  · unfold Formula.parse at h
    rw [if_pos (Nat.lt_of_not_le hlen)] at h
    obtain rfl := Except.error.inj h
    exact .inl nofun

/-- A word that was not expected is reported where it starts, and the end of the text where the text
ends. -/
theorem Token.start_of_unexpected {t : Token} {e : Expectation} {position : ℕ} {cause : SyntaxCause}
    (h : t.unexpected e = .badSyntax position cause) : t.start = position := by
  unfold unexpected at h
  split at h
  · cases h
  · cases h
    rfl

/-- A word that was not expected is no unknown variable. These are two faults, so that the fault
tells the two reasons apart. -/
theorem Token.unexpected_ne_unknownVariable (t : Token) (e : Expectation) (name : String)
    (position : ℕ) :
    t.unexpected e ≠ .unknownVariable name position := by
  unfold unexpected
  split <;> exact nofun

/-- A name that is one of the words stands in the text where it starts. The end of the text, which
is among them, is no name. -/
theorem Tokens.name_standsIn {source : String} {ts : Tokens} (hts : tokenize source = .ok ts)
    {t : Token} (ht : t ∈ ts.toList) {name : String} (hname : t.symbol = .name name) :
    ∃ before after, source.toList = before ++ name.toList ++ after ∧
      byteLength before = t.start := by
  obtain ⟨q, hscans⟩ := scans_of_tokenize hts
  rcases List.mem_append.1 ht with ht | ht
  · exact hscans.name_standsIn [] byteLength_nil ht hname
  · obtain rfl := List.mem_singleton.1 ht
    cases hname

/-- A name that is not that of a variable is neither `x` nor `y`. -/
theorem Variable.ne_of_ofName? {name : String} (h : Variable.ofName? name = none) :
    name ≠ "x" ∧ name ≠ "y" := by
  refine ⟨?_, ?_⟩
  · rintro rfl
    cases h
  · rintro rfl
    cases h

/-- A text whose words are read is refused with a syntax error only at its first word that does not
fit, and with an unknown variable only at such a word that is a name. The name is the one reported,
it stands in the text there, and it is neither `x` nor `y`. -/
theorem Formula.parse_points {limits : Limits} {source : String} {ts : Tokens}
    (hts : tokenize source = .ok ts) (hne : ts.words ≠ []) :
    (∀ position cause, Formula.parse limits source = .error (.badSyntax position cause) →
      ∃ t, ts.Offends t ∧ t.start = position) ∧
    ∀ name position, Formula.parse limits source = .error (.unknownVariable name position) →
      name ≠ "x" ∧ name ≠ "y" ∧
      (∃ before after, source.toList = before ++ name.toList ++ after ∧
        byteLength before = position) ∧
      ∃ t, ts.Offends t ∧ t.start = position ∧ t.symbol = .name name := by
  refine ⟨fun position cause h => ?_, fun name position h => ?_⟩
  -- The kind of the fault leaves one reason for which reading halts.
  · obtain hlimits | ⟨k, hk, hfault⟩ := exists_justified_of_parse hts hne h
    · cases hlimits
    cases hk with
    | limit | call | unknownName => cases hfault
    | unexpected hruns hnext e =>
      obtain ⟨hoffends, -⟩ := Tokens.offends_of_runs (.unexpected e) hts hruns hnext
      exact ⟨_, hoffends, Token.start_of_unexpected hfault⟩
  · obtain hlimits | ⟨k, hk, hfault⟩ := exists_justified_of_parse hts hne h
    · cases hlimits
    cases hk with
    | limit | call => cases hfault
    | unexpected _ _ e =>
        exact absurd hfault (Token.unexpected_ne_unknownVariable _ e name position)
    | unknownName hruns hnext hname =>
      cases hfault
      obtain ⟨hoffends, hsymbol⟩ := Tokens.offends_of_runs (.unknownName name) hts hruns hnext
      obtain ⟨hx, hy⟩ := Variable.ne_of_ofName? hname
      exact ⟨hx, hy, Tokens.name_standsIn hts hoffends.mem hsymbol, _, hoffends, rfl, hsymbol⟩

/-- The closing bracket of `2*(x+)` stands where an operand is due, and so does the name `zz` in
`x+zz`. -/
theorem Formula.parse_points_operand :
    (∃ t, Tokens.Offends
      ⟨[⟨.number 2, 0, 1⟩, ⟨.star, 1, 2⟩, ⟨.openBracket, 2, 3⟩, ⟨.name "x", 3, 4⟩, ⟨.plus, 4, 5⟩,
        ⟨.closeBracket, 5, 6⟩], 6⟩ t ∧ t.start = 5) ∧
    ∃ t, Tokens.Offends ⟨[⟨.name "x", 0, 1⟩, ⟨.plus, 1, 2⟩, ⟨.name "zz", 2, 4⟩], 4⟩ t ∧
      t.start = 2 ∧
      t.symbol = .name "zz" := by
  have hts : tokenize "2*(x+)" = .ok
      ⟨[⟨.number 2, 0, 1⟩, ⟨.star, 1, 2⟩, ⟨.openBracket, 2, 3⟩, ⟨.name "x", 3, 4⟩, ⟨.plus, 4, 5⟩,
        ⟨.closeBracket, 5, 6⟩], 6⟩ := by
    decide +kernel
  have hbracket : Formula.parse {} "2*(x+)" =
      .error (.badSyntax 5 (.unexpectedToken .operand "`)`")) := by
    decide +kernel
  have hts' :
      tokenize "x+zz" = .ok ⟨[⟨.name "x", 0, 1⟩, ⟨.plus, 1, 2⟩, ⟨.name "zz", 2, 4⟩], 4⟩ := by
    decide +kernel
  have hname : Formula.parse {} "x+zz" = .error (.unknownVariable "zz" 2) := by decide +kernel
  obtain ⟨-, -, -, hoffends⟩ := (Formula.parse_points hts' (List.cons_ne_nil _ _)).2 "zz" 2 hname
  exact ⟨(Formula.parse_points hts (List.cons_ne_nil _ _)).1 5 _ hbracket, hoffends⟩

end UnitPlane
