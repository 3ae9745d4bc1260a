import PickleGraph.Proofs.Literal.Token

/-!
# Notations of literals

A text is a notation of a literal when it is split into tokens that are read as
the literal before a comma, a colon or a closing bracket. Quotations, numerals
and names are notations, and so are tuples, lists and mappings of notations. A
notation on a line of its own is the literal that it is a notation of.
-/

namespace PickleGraph.Literal

/-! ## Steps -/

/-- What follows a literal: a comma, a colon or a closing bracket. -/
inductive Stops : List Token → Prop
  | comma {rest : List Token} : Stops (.comma :: rest)
  | colon {rest : List Token} : Stops (.colon :: rest)
  | closing {bracket : Bracket} {rest : List Token} :
      Stops (.closing bracket :: rest)

/-- A token that begins a literal without a sign. -/
structure Begins (token : Token) : Prop where
  notClosing : ∀ bracket, token ≠ .closing bracket
  unsigned : token ≠ .plus ∧ token ≠ .minus

theorem takeTerms?_of_stops {rest : List Token} (stops : Stops rest)
    (steps : Nat) (left : Literal) :
    takeTerms? (steps + 1) left rest = some (left, rest) := by
  cases stops with
  | comma => rfl
  | colon => rfl
  | closing => rfl

theorem callEmpty_of_stops {rest : List Token} (stops : Stops rest)
    (literal : Literal) : callEmpty literal rest = (literal, rest) := by
  cases stops with
  | comma => cases literal <;> rfl
  | colon => cases literal <;> rfl
  | closing => cases literal <;> rfl

/-- A literal in front of its end is the only term of a sum. -/
theorem takeSum?_of_takeAtom? {token : Token} {others rest : List Token}
    {steps : Nat} {literal : Literal} (begins : Begins token)
    (taken : takeAtom? steps (token :: others) = some (literal, rest))
    (stops : Stops rest) :
    takeSum? (steps + 2) (token :: others) = some (literal, rest) := by
  have alone := callEmpty_of_stops stops literal
  have signed : takeSigned? (steps + 1) (token :: others) =
      some (literal, rest) := by
    cases token with
    | plus => exact absurd rfl begins.unsigned.1
    | minus => exact absurd rfl begins.unsigned.2
    | _ => simp [takeSigned?, taken, alone]
  rw [takeSum?, signed]
  exact takeTerms?_of_stops stops steps literal

section Items

variable {token : Token} {others mid rest : List Token} {steps : Nat}
variable {bracket : Bracket} {item key value : Literal}
variable {items : List Literal} {entries : List (Literal × Literal)}

theorem takeItems?_of_begins (begins : Begins token)
    (first : takeSum? steps (token :: others) = some (item, mid))
    (more : takeMoreItems? steps bracket mid = some (items, rest)) :
    takeItems? (steps + 1) bracket (token :: others) =
      some (item :: items, mid.head? == some .comma, rest) := by
  cases token with
  | closing other => exact absurd rfl (begins.notClosing other)
  | _ => simp [takeItems?, first, more]

theorem takeMoreItems?_of_begins (begins : Begins token)
    (first : takeSum? steps (token :: others) = some (item, mid))
    (more : takeMoreItems? steps bracket mid = some (items, rest)) :
    takeMoreItems? (steps + 1) bracket (.comma :: token :: others) =
      some (item :: items, rest) := by
  cases token with
  | closing other => exact absurd rfl (begins.notClosing other)
  | _ => simp [takeMoreItems?, first, more]

theorem takeMoreEntries?_of_begins {after : List Token}
    (begins : Begins token)
    (isKey : takeSum? steps (token :: others) = some (key, .colon :: mid))
    (isValue : takeSum? steps mid = some (value, after))
    (more : takeMoreEntries? steps after = some (entries, rest)) :
    takeMoreEntries? (steps + 1) (.comma :: token :: others) =
      some ((key, value) :: entries, rest) := by
  cases token with
  | closing other => exact absurd rfl (begins.notClosing other)
  | _ => simp [takeMoreEntries?, isKey, isValue, more]

/-- A closing bracket, perhaps after a comma. -/
inductive Closes (bracket : Bracket) : List Token → Prop
  | bare : Closes bracket [.closing bracket]
  | comma : Closes bracket [.comma, .closing bracket]

variable {ending : List Token}

theorem Closes.stops (closes : Closes bracket ending) (rest : List Token) :
    Stops (ending ++ rest) := by
  cases closes with
  | bare => exact .closing
  | comma => exact .comma

theorem Closes.takeMoreItems?_eq (closes : Closes bracket ending)
    (steps : Nat) (rest : List Token) :
    takeMoreItems? (steps + 1) bracket (ending ++ rest) = some ([], rest) := by
  cases closes with
  | bare => simp [takeMoreItems?]
  | comma => simp [takeMoreItems?]

theorem Closes.takeMoreEntries?_eq (closes : Closes .curly ending)
    (steps : Nat) (rest : List Token) :
    takeMoreEntries? (steps + 1) (ending ++ rest) = some ([], rest) := by
  cases closes with
  | bare => rfl
  | comma => rfl

end Items

/-! ## Tokens of literals -/

/-- The tokens are read as the literal wherever it stops, with some steps for
each of them. -/
structure Parses (tokens : List Token) (literal : Literal) : Prop where
  begins : ∃ token others, tokens = token :: others ∧ Begins token
  parsed : ∀ steps rest, stepsPerToken * tokens.length ≤ steps →
    Stops rest → takeSum? steps (tokens ++ rest) = some (literal, rest)

/-- A literal that is an atom of its tokens. The first token pays for the steps
down to its items. -/
theorem Parses.of_takeAtom? {token : Token} {others : List Token}
    {literal : Literal} (begins : Begins token)
    (taken : ∀ steps rest, stepsPerToken * others.length ≤ steps →
      Stops rest →
        takeAtom? (steps + 3) (token :: (others ++ rest)) =
          some (literal, rest)) :
    Parses (token :: others) literal := by
  refine ⟨⟨token, others, rfl, begins⟩, fun steps rest enough stops => ?_⟩
  unfold stepsPerToken at taken enough
  rw [List.length_cons] at enough
  obtain ⟨fewer, rfl⟩ : ∃ fewer, steps = fewer + 5 :=
    ⟨steps - 5, by omega⟩
  have isAtom := taken fewer rest (by omega) stops
  exact takeSum?_of_takeAtom? begins isAtom stops

theorem parses_constant {token : Token} {literal : Literal}
    (begins : Begins token) (isConstant : constant? token = some literal) :
    Parses [token] literal := by
  apply Parses.of_takeAtom? begins
  intro steps rest _ _
  cases token with
  | name _ => simp [takeAtom?, isConstant]
  | int _ => simp [takeAtom?, isConstant]
  | float _ => simp [takeAtom?, isConstant]
  | imaginary _ => simp [takeAtom?, isConstant]
  | ellipsis => simp [takeAtom?, isConstant]
  | _ => cases isConstant

theorem parses_str (text : Text) : Parses [.str text] (.str text) := by
  have begins : Begins (.str text) := ⟨nofun, nofun, nofun⟩
  apply Parses.of_takeAtom? begins
  intro steps rest _ stops
  cases stops with
  | comma => rfl
  | colon => rfl
  | closing => rfl

theorem parses_empty_list :
    Parses [.opening .square, .closing .square] (.list []) := by
  have begins : Begins (.opening .square) := ⟨nofun, nofun, nofun⟩
  apply Parses.of_takeAtom? begins
  intro steps rest _ _
  simp [takeAtom?, takeItems?]

theorem parses_empty_tuple :
    Parses [.opening .round, .closing .round] (.tuple []) := by
  have begins : Begins (.opening .round) := ⟨nofun, nofun, nofun⟩
  apply Parses.of_takeAtom? begins
  intro steps rest _ _
  simp [takeAtom?, takeItems?]

/-! ## Tokens of items -/

/-- Steps for some tokens are enough for the first of them. -/
theorem enough_left {first second : List Token} {steps : Nat}
    (enough : stepsPerToken * (first ++ second).length ≤ steps) :
    stepsPerToken * first.length ≤ steps := by
  rw [List.length_append, Nat.mul_add] at enough
  exact Nat.le_of_add_right_le enough

/-- A token between some tokens and others pays for the step from the first ones
to the others. -/
theorem exists_steps (first : List Token) {second : List Token} {mark : Token}
    {steps : Nat}
    (enough : stepsPerToken * (first ++ mark :: second).length ≤ steps) :
    ∃ fewer, steps = fewer + 1 ∧ stepsPerToken * second.length ≤ fewer := by
  unfold stepsPerToken at enough ⊢
  rw [List.length_append, List.length_cons] at enough
  exact ⟨steps - 1, by omega, by omega⟩

/-- Tokens of items with commas between them are read as the items up to a
closing bracket. -/
structure ParsesItems (tokens : List Token) (item : Literal)
    (items : List Literal) : Prop where
  begins : ∃ token others, tokens = token :: others ∧ Begins token
  parsed : ∀ steps bracket ending rest,
    stepsPerToken * tokens.length ≤ steps → Closes bracket ending →
      ∃ mid, takeSum? steps (tokens ++ (ending ++ rest)) = some (item, mid) ∧
        takeMoreItems? steps bracket mid = some (items, rest)

theorem Parses.single {tokens : List Token} {item : Literal}
    (parses : Parses tokens item) : ParsesItems tokens item [] := by
  obtain ⟨⟨token, others, rfl, begins⟩, parsed⟩ := parses
  refine ⟨⟨token, others, rfl, begins⟩, ?_⟩
  intro steps bracket ending rest enough closes
  have taken := parsed steps (ending ++ rest) enough (closes.stops rest)
  obtain ⟨fewer, rfl, _⟩ := exists_steps [] enough
  exact ⟨_, taken, closes.takeMoreItems?_eq fewer rest⟩

theorem Parses.cons {tokens later : List Token} {item next : Literal}
    {items : List Literal} (parses : Parses tokens item)
    (parsesLater : ParsesItems later next items) :
    ParsesItems (tokens ++ .comma :: later) item (next :: items) := by
  obtain ⟨⟨token, others, rfl, begins⟩, parsed⟩ := parses
  obtain ⟨⟨second, further, rfl, alsoBegins⟩, parsedLater⟩ := parsesLater
  refine ⟨⟨token, _, rfl, begins⟩, ?_⟩
  intro steps bracket ending rest enough closes
  have taken := parsed steps
    (.comma :: second :: (further ++ (ending ++ rest))) (enough_left enough)
    .comma
  obtain ⟨fewer, rfl, enoughLater⟩ := exists_steps _ enough
  obtain ⟨mid, isNext, more⟩ :=
    parsedLater fewer bracket ending rest enoughLater closes
  rw [List.cons_append] at isNext
  refine ⟨_, ?_, takeMoreItems?_of_begins alsoBegins isNext more⟩
  simpa only [List.append_assoc, List.cons_append] using taken

section Brackets

variable {tokens ending : List Token} {item : Literal} {items : List Literal}
variable (parses : ParsesItems tokens item items)

include parses

theorem ParsesItems.takeItems?_eq {bracket : Bracket}
    (closes : Closes bracket ending) (rest : List Token) {steps : Nat}
    (enough : stepsPerToken * tokens.length ≤ steps) :
    ∃ separated, takeItems? (steps + 1) bracket (tokens ++ (ending ++ rest)) =
      some (item :: items, separated, rest) := by
  obtain ⟨⟨token, others, rfl, begins⟩, parsed⟩ := parses
  obtain ⟨mid, isItem, more⟩ := parsed steps bracket ending rest enough closes
  exact ⟨_, takeItems?_of_begins begins isItem more⟩

theorem ParsesItems.list (closes : Closes .square ending) :
    Parses (.opening .square :: (tokens ++ ending))
      (.list (item :: items)) := by
  have begins : Begins (.opening .square) := ⟨nofun, nofun, nofun⟩
  apply Parses.of_takeAtom? begins
  intro steps rest enough _
  obtain ⟨separated, taken⟩ := parses.takeItems?_eq closes rest
    (le_add_right (enough_left enough) : _ ≤ steps + 1)
  simp [takeAtom?, taken]

/-- Several items in round brackets are a tuple. -/
theorem ParsesItems.tuple {next : Literal} {others : List Literal}
    (isMany : items = next :: others) (closes : Closes .round ending) :
    Parses (.opening .round :: (tokens ++ ending))
      (.tuple (item :: items)) := by
  have begins : Begins (.opening .round) := ⟨nofun, nofun, nofun⟩
  apply Parses.of_takeAtom? begins
  intro steps rest enough _
  obtain ⟨separated, taken⟩ := parses.takeItems?_eq closes rest
    (le_add_right (enough_left enough) : _ ≤ steps + 1)
  subst isMany
  simp [takeAtom?, taken]

end Brackets

/-- One item and a comma in round brackets are a tuple. -/
theorem Parses.tuple {tokens : List Token} {item : Literal}
    (parses : Parses tokens item) :
    Parses (.opening .round :: (tokens ++ [.comma, .closing .round]))
      (.tuple [item]) := by
  have begins : Begins (.opening .round) := ⟨nofun, nofun, nofun⟩
  obtain ⟨⟨token, others, rfl, alsoBegins⟩, parsed⟩ := parses
  apply Parses.of_takeAtom? begins
  intro steps rest enough _
  have taken := parsed (steps + 1) (.comma :: .closing .round :: rest)
    (le_add_right (enough_left enough)) .comma
  rw [List.cons_append] at taken
  have closes : Closes .round [.comma, .closing .round] := .comma
  have items := takeItems?_of_begins alsoBegins taken
    (closes.takeMoreItems?_eq steps rest)
  simp [takeAtom?, items]

/-! ## Tokens of entries -/

/-- Tokens of entries with commas between them are read as the entries up to the
closing bracket of a mapping. -/
structure ParsesEntries (tokens : List Token) (entry : Literal × Literal)
    (entries : List (Literal × Literal)) : Prop where
  begins : ∃ token others, tokens = token :: others ∧ Begins token
  parsed : ∀ steps ending rest,
    stepsPerToken * tokens.length ≤ steps → Closes .curly ending →
      ∃ mid after,
        takeSum? steps (tokens ++ (ending ++ rest)) =
          some (entry.1, .colon :: mid) ∧
        takeSum? steps mid = some (entry.2, after) ∧
        takeMoreEntries? steps after = some (entries, rest)

section Entries

variable {keyTokens tokens later : List Token} {key value : Literal}
variable (isKey : Parses keyTokens key) (isValue : Parses tokens value)

include isKey isValue

theorem Parses.entry :
    ParsesEntries (keyTokens ++ .colon :: tokens) (key, value) [] := by
  obtain ⟨⟨token, others, isFirst, begins⟩, parsedKey⟩ := isKey
  refine ⟨⟨token, _, by rw [isFirst]; rfl, begins⟩, ?_⟩
  intro steps ending rest enough closes
  have taken := parsedKey steps (.colon :: (tokens ++ (ending ++ rest)))
    (enough_left enough) .colon
  obtain ⟨fewer, rfl, enoughValue⟩ := exists_steps _ enough
  have takenValue := isValue.parsed (fewer + 1) _ (le_add_right enoughValue)
    (closes.stops rest)
  refine ⟨_, _, ?_, takenValue, closes.takeMoreEntries?_eq fewer rest⟩
  simpa only [List.append_assoc, List.cons_append] using taken

theorem Parses.entryBefore {entry : Literal × Literal}
    {entries : List (Literal × Literal)}
    (parsesLater : ParsesEntries later entry entries) :
    ParsesEntries (keyTokens ++ .colon :: (tokens ++ .comma :: later))
      (key, value) (entry :: entries) := by
  obtain ⟨⟨token, others, isFirst, begins⟩, parsedKey⟩ := isKey
  obtain ⟨⟨second, further, rfl, alsoBegins⟩, parsedLater⟩ := parsesLater
  refine ⟨⟨token, _, by rw [isFirst]; rfl, begins⟩, ?_⟩
  intro steps ending rest enough closes
  have taken := parsedKey steps
    (.colon :: (tokens ++ .comma :: second :: (further ++ (ending ++ rest))))
    (enough_left enough) .colon
  obtain ⟨fewer, rfl, enoughBoth⟩ := exists_steps _ enough
  have takenValue := isValue.parsed (fewer + 1)
    (.comma :: second :: (further ++ (ending ++ rest)))
    (le_add_right (enough_left enoughBoth)) .comma
  obtain ⟨fewest, rfl, enoughLater⟩ := exists_steps _ enoughBoth
  obtain ⟨mid, after, isNext, isNextValue, more⟩ :=
    parsedLater (fewest + 1) ending rest (le_add_right enoughLater) closes
  rw [List.cons_append] at isNext
  refine ⟨_, _, ?_, takenValue,
    takeMoreEntries?_of_begins alsoBegins isNext isNextValue more⟩
  simpa only [List.append_assoc, List.cons_append] using taken

end Entries

theorem ParsesEntries.dict {tokens ending : List Token}
    {entry : Literal × Literal} {entries : List (Literal × Literal)}
    (parses : ParsesEntries tokens entry entries)
    (closes : Closes .curly ending) :
    Parses (.opening .curly :: (tokens ++ ending))
      (.dict (entry :: entries)) := by
  have begins : Begins (.opening .curly) := ⟨nofun, nofun, nofun⟩
  obtain ⟨⟨token, others, rfl, alsoBegins⟩, parsed⟩ := parses
  apply Parses.of_takeAtom? begins
  intro steps rest enough _
  have enoughEntries : stepsPerToken * (token :: others).length ≤ steps + 2 :=
    le_add_right (enough_left enough)
  obtain ⟨mid, after, isKey, isValue, more⟩ :=
    parsed (steps + 2) ending rest enoughEntries closes
  rw [List.cons_append] at isKey
  rw [List.append_assoc, List.cons_append]
  cases token with
  | closing other => exact absurd rfl (alsoBegins.notClosing other)
  | _ => simp [takeAtom?, isKey, isValue, more]

/-! ## Texts with marks between them -/

theorem separator_eq : Text.ofString ", " =
    [CodePoint.ofChar ','] ++ List.replicate 1 (CodePoint.ofChar ' ') := by
  decide

theorem lexes_separator :
    Lexes (fun _ => True) 0 (Text.ofString ", ") [.comma] := by
  have isMark : (',', Token.comma) ∈ marks := by decide
  rw [separator_eq]
  exact (Lexes.mark isMark fun depth => rfl).andThen (.blank 1)

theorem ends_separator (rest : Text) : Ends (Text.ofString ", " ++ rest) := by
  rw [separator_eq, List.append_assoc]
  exact ends_mark (by decide : (',', Token.comma) ∈ marks) _

section Texts

variable {height : Nat} {first second : Text} {tokens later : List Token}
variable (lexes : Lexes Ends height first tokens)

include lexes

theorem Lexes.separated (further : Lexes Ends height second later) :
    Lexes Ends height (first ++ (Text.ofString ", " ++ second))
      (tokens ++ .comma :: later) := by
  have joined : Lexes Ends height (Text.ofString ", " ++ second)
      (.comma :: later) :=
    lexes_separator.andThen further
  refine lexes.append joined fun rest _ => ?_
  rw [List.append_assoc]
  exact ends_separator _

theorem Lexes.pair (further : Lexes Ends height second later) :
    Lexes Ends height (Notation.pair first second)
      (tokens ++ .colon :: later) := by
  have isMark : (':', Token.colon) ∈ marks := by decide
  have shown : Notation.pair first second = first ++
      ([CodePoint.ofChar ':'] ++
        (List.replicate 1 (CodePoint.ofChar ' ') ++ second)) := by
    simp [Notation.pair, show Text.ofString ": " =
      [CodePoint.ofChar ':', CodePoint.ofChar ' '] by decide]
  have blank : Lexes Ends height
      (List.replicate 1 (CodePoint.ofChar ' ') ++ second) later :=
    (Lexes.blank 1).andThen further
  have joined : Lexes Ends height ([CodePoint.ofChar ':'] ++
      (List.replicate 1 (CodePoint.ofChar ' ') ++ second))
      (.colon :: later) :=
    (Lexes.mark isMark fun depth => rfl).andThen blank
  rw [shown]
  exact lexes.append joined fun rest _ => ends_mark isMark _

end Texts

theorem separated_cons (first next : Text) (others : List Text) :
    Notation.separated (first :: next :: others) =
      first ++ (Text.ofString ", " ++ Notation.separated (next :: others)) := by
  unfold Notation.separated
  rw [List.intercalate_cons_cons, List.append_assoc]

/-! ## Notations -/

/-- The text is a notation of the literal, with some brackets inside each
other. -/
def Writes (height : Nat) (text : Text) (literal : Literal) : Prop :=
  ∃ tokens, Lexes Ends height text tokens ∧ Parses tokens literal

theorem writes_text (content : Text) :
    Writes 0 (Quoted.text content) (.str content) :=
  ⟨_, lexes_text content, parses_str content⟩

theorem writes_ofNat {number : Nat}
    (short : number < 10 ^ Integer.maxDecimalDigits) :
    Writes 0 (Text.ofNat number) (.int number) :=
  ⟨_, lexes_ofNat short, parses_constant ⟨nofun, nofun, nofun⟩ rfl⟩

theorem writes_bool (flag : Bool) :
    Writes 0 (Text.ofString (if flag then "True" else "False"))
      (.bool flag) := by
  cases flag with
  | true =>
      exact ⟨_, lexes_word (by decide) (by decide)
        (by decide :
          nameToken? (Text.ofString "True") = some (.name .trueValue))
        fun depth => rfl, parses_constant ⟨nofun, nofun, nofun⟩ rfl⟩
  | false =>
      exact ⟨_, lexes_word (by decide) (by decide)
        (by decide :
          nameToken? (Text.ofString "False") = some (.name .falseValue))
        fun depth => rfl, parses_constant ⟨nofun, nofun, nofun⟩ rfl⟩

theorem Writes.weaken {height other : Nat} {text : Text} {literal : Literal}
    (writes : Writes height text literal) (deeper : height ≤ other) :
    Writes other text literal := by
  obtain ⟨tokens, lexes, parses⟩ := writes
  exact ⟨tokens, lexes.weaken (fun _ ends => ends) deeper, parses⟩

section Sequences

variable {height : Nat} {text : Text} {literal : Literal}
variable {texts : List Text} {literals : List Literal}

theorem exists_items
    (written : List.Forall₂ (Writes height) (text :: texts)
      (literal :: literals)) :
    ∃ tokens, Lexes Ends height (Notation.separated (text :: texts)) tokens ∧
      ParsesItems tokens literal literals := by
  induction texts generalizing text literal literals with
  | nil =>
      obtain ⟨⟨tokens, lexes, parses⟩, others⟩ :=
        List.forall₂_cons.mp written
      cases others
      exact ⟨tokens, by simpa [Notation.separated] using lexes,
        parses.single⟩
  | cons next texts inductionHypothesis =>
      obtain ⟨⟨tokens, lexes, parses⟩, others⟩ :=
        List.forall₂_cons.mp written
      cases literals with
      | nil => cases others
      | cons second literals =>
          obtain ⟨later, lexesLater, parsesLater⟩ :=
            inductionHypothesis others
          rw [separated_cons]
          exact ⟨_, lexes.separated lexesLater, parses.cons parsesLater⟩

/-- A key and its value are written as an entry. -/
def WritesEntry (height : Nat) (texts : Text × Text)
    (entry : Literal × Literal) : Prop :=
  Writes height texts.1 entry.1 ∧ Writes height texts.2 entry.2

/-- The notation of an entry. -/
def entryText (texts : Text × Text) : Text := Notation.pair texts.1 texts.2

theorem exists_entries {texts : Text × Text} {others : List (Text × Text)}
    {entry : Literal × Literal} {entries : List (Literal × Literal)}
    (written : List.Forall₂ (WritesEntry height) (texts :: others)
      (entry :: entries)) :
    ∃ tokens, Lexes Ends height
        (Notation.separated ((texts :: others).map entryText)) tokens ∧
      ParsesEntries tokens entry entries := by
  induction others generalizing texts entry entries with
  | nil =>
      obtain ⟨⟨isKey, isValue⟩, none⟩ := List.forall₂_cons.mp written
      obtain ⟨keyTokens, lexesKey, parsesKey⟩ := isKey
      obtain ⟨tokens, lexes, parses⟩ := isValue
      cases none
      exact ⟨_, by simpa [Notation.separated, entryText] using
        lexesKey.pair lexes, parsesKey.entry parses⟩
  | cons next others inductionHypothesis =>
      obtain ⟨⟨isKey, isValue⟩, rest⟩ := List.forall₂_cons.mp written
      obtain ⟨keyTokens, lexesKey, parsesKey⟩ := isKey
      obtain ⟨tokens, lexes, parses⟩ := isValue
      cases entries with
      | nil => cases rest
      | cons second entries =>
          obtain ⟨later, lexesLater, parsesLater⟩ := inductionHypothesis rest
          have joined := (lexesKey.pair lexes).separated lexesLater
          rw [List.append_assoc, List.cons_append] at joined
          rw [List.map_cons, List.map_cons, separated_cons]
          exact ⟨_, joined, parsesKey.entryBefore parses parsesLater⟩

end Sequences

/-! ## Containers -/

section Containers

variable {height : Nat} {texts : List Text} {literals : List Literal}
variable (written : List.Forall₂ (Writes height) texts literals)

theorem list_eq (parts : List Text) :
    Notation.list parts = CodePoint.ofChar '[' ::
      (Notation.separated parts ++ [CodePoint.ofChar ']']) := by
  simp [Notation.list, show Text.ofString "[" = [CodePoint.ofChar '[']
    by decide, show Text.ofString "]" = [CodePoint.ofChar ']'] by decide]

/-- A tuple has a comma after its only item. -/
theorem tuple_eq (parts : List Text) :
    Notation.tuple parts = CodePoint.ofChar '(' ::
      (Notation.separated parts ++
        (if parts.length = 1 then [CodePoint.ofChar ','] else []) ++
        [CodePoint.ofChar ')']) := by
  have opens : Text.ofString "(" = [CodePoint.ofChar '('] := by decide
  have closes : Text.ofString ")" = [CodePoint.ofChar ')'] := by decide
  have alone : Text.ofString ",)" =
      [CodePoint.ofChar ',', CodePoint.ofChar ')'] := by
    decide
  unfold Notation.tuple
  split
  · simp [Notation.separated, opens, alone]
  · next several =>
      have notOne : parts.length ≠ 1 := by
        intro isOne
        obtain ⟨part, rfl⟩ := List.length_eq_one_iff.mp isOne
        exact several part rfl
      simp [notOne, opens, closes]

theorem writes_empty {opens closes : Char} {bracket : Bracket}
    {literal : Literal} (isOpen : (opens, .opening bracket) ∈ marks)
    (isClosed : (closes, .closing bracket) ∈ marks)
    (parses : Parses [.opening bracket, .closing bracket] literal) :
    Writes (height + 1) [CodePoint.ofChar opens, CodePoint.ofChar closes]
      literal := by
  have nothing : Lexes (fun _ => True) height [] [] :=
    (Lexes.blank 0).weaken (fun _ _ => trivial) (Nat.zero_le height)
  exact ⟨_, nothing.group isOpen isClosed fun _ => trivial, parses⟩

include written

theorem writes_list :
    Writes (height + 1) (Notation.list texts) (.list literals) := by
  have isOpen : ('[', Token.opening .square) ∈ marks := by decide
  have isClosed : (']', Token.closing .square) ∈ marks := by decide
  rw [list_eq]
  cases written with
  | nil => exact writes_empty isOpen isClosed parses_empty_list
  | cons first others =>
      obtain ⟨tokens, lexes, parses⟩ := exists_items (.cons first others)
      exact ⟨_, lexes.group isOpen isClosed (ends_mark isClosed),
        parses.list .bare⟩

theorem writes_tuple :
    Writes (height + 1) (Notation.tuple texts) (.tuple literals) := by
  have isOpen : ('(', Token.opening .round) ∈ marks := by decide
  have isClosed : (')', Token.closing .round) ∈ marks := by decide
  have isComma : (',', Token.comma) ∈ marks := by decide
  rw [tuple_eq]
  cases written with
  | nil => exact writes_empty isOpen isClosed parses_empty_tuple
  | @cons text literal texts literals first others =>
      cases others with
      | nil =>
          obtain ⟨tokens, lexes, parses⟩ := first
          have comma : Lexes (fun _ => True) height [CodePoint.ofChar ',']
              [.comma] :=
            (Lexes.mark isComma fun depth => rfl).weaken (fun _ _ => trivial)
              (Nat.zero_le height)
          have joined := lexes.append comma fun rest _ => ends_mark isComma _
          have group : Lexes Ends (height + 1) _ _ :=
            joined.group isOpen isClosed fun _ => trivial
          rw [List.append_assoc] at group
          exact ⟨_, by simpa [Notation.separated] using group, parses.tuple⟩
      | @cons second next texts literals isSecond rest =>
          have all := List.Forall₂.cons first (.cons isSecond rest)
          obtain ⟨tokens, lexes, parses⟩ := exists_items all
          have group : Lexes Ends (height + 1) _ _ :=
            lexes.group isOpen isClosed (ends_mark isClosed)
          exact ⟨_, by simpa using group, parses.tuple rfl .bare⟩

end Containers

/-- A mapping with a comma after its last entry or without one. -/
def mappingText (comma : Bool) (entries : List Text) : Text :=
  List.flatten ["\x7b", Notation.separated entries,
    if comma then Text.ofString ", " else [], "\x7d"]

theorem mappingText_eq (comma : Bool) (entries : List Text) :
    mappingText comma entries = CodePoint.ofChar '\x7b' ::
      (Notation.separated entries ++
        (if comma then Text.ofString ", " else []) ++
        [CodePoint.ofChar '\x7d']) := by
  have opens : Text.ofString "\x7b" = [CodePoint.ofChar '\x7b'] := by decide
  have closes : Text.ofString "\x7d" = [CodePoint.ofChar '\x7d'] := by decide
  simp [mappingText, opens, closes]

theorem writes_mappingText {height : Nat} {texts : List (Text × Text)}
    {entries : List (Literal × Literal)} (comma : Bool)
    (nonempty : entries ≠ [])
    (written : List.Forall₂ (WritesEntry height) texts entries) :
    Writes (height + 1) (mappingText comma (texts.map entryText))
      (.dict entries) := by
  have isOpen : ('\x7b', Token.opening .curly) ∈ marks := by decide
  have isClosed : ('\x7d', Token.closing .curly) ∈ marks := by decide
  rw [mappingText_eq]
  cases written with
  | nil => exact absurd rfl nonempty
  | cons first others =>
      obtain ⟨tokens, lexes, parses⟩ := exists_entries (.cons first others)
      cases comma with
      | false =>
          have group : Lexes Ends (height + 1) _ _ :=
            lexes.group isOpen isClosed (ends_mark isClosed)
          exact ⟨_, by simpa using group, parses.dict .bare⟩
      | true =>
          have separator : Lexes (fun _ => True) height
              (Text.ofString ", ") [.comma] :=
            lexes_separator.weaken (fun _ _ => trivial) (Nat.zero_le height)
          have joined := lexes.append separator fun rest _ =>
            ends_separator rest
          have group : Lexes Ends (height + 1) _ _ :=
            joined.group isOpen isClosed fun _ => trivial
          rw [List.append_assoc tokens] at group
          exact ⟨_, by simpa using group, parses.dict .comma⟩

/-! ## Lines -/

theorem normalizeNewlines_of_isClean {text : Text} (isClean : text.IsClean) :
    normalizeNewlines text = text := by
  induction text with
  | nil => rfl
  | cons point rest inductionHypothesis =>
      obtain ⟨⟨_, notReturn⟩, others⟩ := List.forall_mem_cons.mp isClean
      have isOther : point.isChar '\r' = false := beq_false_of_ne notReturn
      rw [normalizeNewlines.eq_def]
      simp only [isOther, Bool.false_eq_true, if_false,
        inductionHypothesis others]

theorem dropEmptyLines?_of_isStart {point : CodePoint}
    (isStart : IsStart point) (lines : Nat) (rest : Text) :
    dropEmptyLines? false (lines + 1) (point :: rest) =
      some (point :: rest) := by
  obtain ⟨notBlank, notNewline, notComment, notJoined⟩ := isStart
  rw [dropEmptyLines?.eq_def]
  simp [notBlank, notNewline, notComment, notJoined, isIndented]

section Lines

variable {height : Nat} {point : CodePoint} {others : Text}

theorem tokens?_of_lexes {tokens : List Token} (isStart : IsStart point)
    (lexes : Lexes Ends height (point :: others) tokens)
    (shallow : height ≤ maxDepth) (names : CharacterNames) :
    tokens? names (point :: (others ++ [CodePoint.ofChar '\n'])) =
      some tokens := by
  obtain ⟨clean, cost, few, split⟩ := lexes
  have newline : Text.IsClean [CodePoint.ofChar '\n'] :=
    Text.isClean_singleton.mpr (by decide)
  have isClean : Text.IsClean
      (point :: (others ++ [CodePoint.ofChar '\n'])) :=
    Text.isClean_append.mpr ⟨clean, newline⟩
  have noNull : (point :: (others ++ [CodePoint.ofChar '\n'])).any
      (·.val == 0) = false := by
    apply List.any_eq_false.mpr
    intro member inside
    simpa using (isClean member inside).1
  have notIndented : (point.isChar ' ' || point.isChar '\t') = false := by
    have notBlank := isStart.notBlank
    unfold isBlank at notBlank
    exact (Bool.or_eq_false_iff.mp notBlank).1
  have ended : ∀ steps,
      takeTokens? names (steps + 1) 0 [CodePoint.ofChar '\n'] =
        some ([], [CodePoint.ofChar '\n']) :=
    fun steps => rfl
  have ends : Ends [CodePoint.ofChar '\n'] := ends_cons.mpr (by decide)
  have taken : takeTokens? names
      (point :: (others ++ [CodePoint.ofChar '\n'])).length 0
      (point :: (others ++ [CodePoint.ofChar '\n'])) =
        some (tokens, [CodePoint.ofChar '\n']) := by
    obtain ⟨steps, enough⟩ : ∃ steps,
        (point :: (others ++ [CodePoint.ofChar '\n'])).length =
          cost + (steps + 1) := by
      refine ⟨(point :: others).length - cost, ?_⟩
      simp only [List.length_cons, List.length_append,
        List.length_nil] at few ⊢
      omega
    have passed :=
      split names (steps + 1) 0 [CodePoint.ofChar '\n'] (by omega) ends
    rw [ended, prepend_some, List.append_nil] at passed
    rw [enough]
    exact passed
  have started := dropEmptyLines?_of_isStart isStart
    (point :: (others ++ [CodePoint.ofChar '\n'])).length
    (others ++ [CodePoint.ofChar '\n'])
  unfold tokens?
  simp only [noNull, Bool.not_false, guard_true, Option.bind_eq_bind,
    Option.bind_some, Option.pure_def, List.dropWhile_cons, notIndented,
    Bool.false_eq_true, if_false, normalizeNewlines_of_isClean isClean,
    started, taken]
  rfl

/-- A notation on a line of its own, with blanks behind it, is read as its
literal. -/
theorem parse?_of_writes {literal : Literal} (isStart : IsStart point)
    (writes : Writes height (point :: others) literal)
    (shallow : height ≤ maxDepth) (names : CharacterNames) (count : Nat) :
    parse? names (point :: (others ++
      (List.replicate count (CodePoint.ofChar ' ') ++
        [CodePoint.ofChar '\n']))) = some literal := by
  obtain ⟨tokens, lexes, parses⟩ := writes
  have blanks : Lexes Ends height
      (List.replicate count (CodePoint.ofChar ' ')) [] :=
    (Lexes.blank count).weaken (fun _ _ => trivial) (Nat.zero_le height)
  have padded := lexes.append blanks fun rest ends => by
    cases count with
    | zero => exact ends
    | succ count => exact ends_cons.mpr (by decide)
  rw [List.append_nil, List.cons_append] at padded
  have found := tokens?_of_lexes isStart padded shallow names
  rw [List.append_assoc] at found
  obtain ⟨⟨token, further, rfl, begins⟩, parsed⟩ := parses
  have closes : Closes .round [.closing .round] := .bare
  obtain ⟨steps, isMore, enough⟩ : ∃ steps,
      stepsPerToken * ((token :: further).length + 2) = steps + 2 ∧
        stepsPerToken * (token :: further).length ≤ steps + 1 := by
    unfold stepsPerToken
    exact ⟨8 * ((token :: further).length + 2) - 2, by omega, by omega⟩
  have taken := parsed (steps + 1) [.closing .round] enough .closing
  have items : takeItems? (steps + 2) .round
      (token :: further ++ [.closing .round]) = some ([literal], false, []) :=
    takeItems?_of_begins begins taken (closes.takeMoreItems?_eq steps [])
  unfold parse?
  rw [found]
  simp only [Option.bind_eq_bind, Option.bind_some, takeLine?, isMore, items]
  rfl

end Lines

/-! ## Notations in ASCII -/

@[simp] theorem isAscii_append (first second : Text) :
    isAscii (first ++ second) = (isAscii first && isAscii second) :=
  List.all_append

@[simp] theorem isAscii_cons (point : CodePoint) (rest : Text) :
    isAscii (point :: rest) = (decide (point.val < 0x80) && isAscii rest) :=
  List.all_cons

@[simp] theorem isAscii_ofString (word : String) :
    isAscii (Text.ofString word) = word.toList.all (·.toNat < 0x80) := by
  rw [isAscii, Text.ofString, List.all_map]
  rfl

/-- Other characters than those of ASCII stand for a null octet. -/
theorem small_of_octet_ne {point : CodePoint} (notNull : octet point ≠ 0) :
    point.val < 0x80 := by
  by_contra large
  exact notNull (if_neg large)

theorem small_of_hexWidth? {point : CodePoint} {width : Nat}
    (counted : hexWidth? point = some width) : point.val < 0x80 := by
  have value {letter : Char} (isLetter : point.isChar letter = true) :
      point.val = letter.toNat :=
    eq_of_beq isLetter
  unfold hexWidth? at counted
  split at counted
  · next isLetter => simp [value isLetter]
  · split at counted
    · next isLetter => simp [value isLetter]
    · split at counted
      · next isLetter => simp [value isLetter]
      · cases counted

theorem isAscii_spelled {quote : Char} {point : CodePoint} {spelled : Text}
    (spells : Quoted.Spells quote point spelled)
    (small : point.val < 0x80) : isAscii spelled = true := by
  have backslash : (CodePoint.ofChar '\\').val < 0x80 := by decide
  cases spells with
  | @short selector byte found value =>
      have nullUnknown : Escape.simpleEscapes.lookup 0 = none := by decide
      have isSmall : (CodePoint.ofChar selector).val < 0x80 := by
        apply small_of_octet_ne
        intro isNull
        rw [digitOctet, isNull, nullUnknown] at found
        cases found
      simp [backslash, isSmall, isAscii]
  | plain _ _ _ => simp [small, isAscii]
  | @long selector width unknown counted wide fits =>
      have isSmall := small_of_hexWidth? counted
      have digits : isAscii ((Charset.hexDigits width point.val).map
          CodePoint.ofChar) = true := by
        rw [isAscii, List.all_map, List.all_eq_true]
        intro digit member
        have isDigit := isHexDigit_hexDigits member
        have smallDigit : (CodePoint.ofChar digit).val < 0x80 := by
          apply small_of_octet_ne
          intro isNull
          rw [digitOctet, isNull] at isDigit
          revert isDigit
          decide
        exact decide_eq_true smallDigit
      simp [backslash, isSmall, digits]

theorem isAscii_text {content : Text} (areAscii : isAscii content = true) :
    isAscii (Quoted.text content) = true := by
  obtain ⟨quote, isMark, shown⟩ := Quoted.text_eq content
  have mark : (CodePoint.ofChar quote).val < 0x80 := by
    rcases isMark with rfl | rfl <;> decide
  have body : isAscii (content.flatMap
      (Quoted.pointBody Text.isPrintable quote)) = true := by
    rw [isAscii, List.all_flatMap, List.all_eq_true]
    intro point member
    have small := of_decide_eq_true (List.all_eq_true.mp areAscii point member)
    exact isAscii_spelled (Quoted.spells_pointBody isMark
      Quoted.isPrintable_null point) small
  rw [shown]
  simp [mark, body, isAscii_cons, show isAscii [] = true from rfl]

theorem isAscii_ofNat (number : Nat) : isAscii (Text.ofNat number) = true := by
  have characters : (toString number).toList = Nat.toDigits 10 number := by
    rw [Nat.toString_eq_repr, Nat.toList_repr]
  rw [Text.ofNat, isAscii_ofString, characters, List.all_eq_true]
  intro digit member
  have range := range_of_isDigit (isDigit_of_mem member)
  exact decide_eq_true (by omega)

section Parts

variable {parts : List Text}
variable (areAscii : ∀ part ∈ parts, isAscii part = true)

include areAscii

theorem isAscii_separated : isAscii (Notation.separated parts) = true := by
  induction parts with
  | nil => rfl
  | cons first rest inductionHypothesis =>
      obtain ⟨isFirst, others⟩ := List.forall_mem_cons.mp areAscii
      cases rest with
      | nil => simpa [Notation.separated] using isFirst
      | cons next rest =>
          rw [separated_cons]
          simp [isFirst, inductionHypothesis others]

theorem isAscii_list : isAscii (Notation.list parts) = true := by
  simp [Notation.list, isAscii_separated areAscii]

theorem isAscii_tuple : isAscii (Notation.tuple parts) = true := by
  have separated := isAscii_separated areAscii
  unfold Notation.tuple
  split
  · simpa using areAscii
  · simp [separated]

end Parts

end PickleGraph.Literal
