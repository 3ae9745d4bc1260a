import Mathlib.Data.List.Forall2
import PickleGraph.Proofs.Display.Bare
import PickleGraph.Proofs.Machine.Governed

/-!
# Lines for values

A value is shown on one line, also in a cyclic graph: containers are cut at a
fixed depth, and nothing that lies deeper has a part in the line. Colours only
decorate: without the control sequences of the styles, the line is the one that is
shown without colours.
-/

namespace PickleGraph

open Actions

/-- The control sequences of all styles. -/
def Style.sequences : List Text :=
  table.map fun entry => entry.1.sequence

namespace Display

/-! ## Without control sequences -/

/-- The text without the control sequences of the styles. -/
def erase : Text → Text
  | [] => []
  | point :: rest =>
      match Style.sequences.find? (·.isPrefixOf (point :: rest)) with
      | some sequence => erase (rest.drop (sequence.length - 1))
      | none => point :: erase rest
termination_by text => text.length
decreasing_by
  all_goals simp only [List.length_drop, List.length_cons]; omega

theorem erase_cons_of_ne {point : CodePoint} (different : point ≠ .escape)
    (rest : Text) : erase (point :: rest) = point :: erase rest := by
  have starts : ∀ sequence ∈ Style.sequences,
      sequence.head? = some .escape := by
    decide
  have none : Style.sequences.find? (·.isPrefixOf (point :: rest)) = none := by
    refine List.find?_eq_none.mpr fun sequence member isStart => ?_
    have start := starts sequence member
    cases sequence with
    | nil => cases start
    | cons first others =>
        cases start
        simp at isStart
        exact different isStart.1.symm
  rw [erase, none]

theorem erase_append_of_isBare {text : Text} (bare : text.IsBare)
    (rest : Text) : erase (text ++ rest) = text ++ erase rest := by
  induction text with
  | nil => rfl
  | cons point text inductionHypothesis =>
      obtain ⟨different, bare⟩ := Text.isBare_cons.mp bare
      rw [List.cons_append, erase_cons_of_ne different,
        inductionHypothesis bare, List.cons_append]

theorem erase_sequence (style : Style) (rest : Text) :
    erase (style.sequence ++ rest) = erase rest := by
  have found : Style.sequences.find?
      (·.isPrefixOf (style.sequence ++ rest)) = some style.sequence := by
    cases style <;> rfl
  obtain ⟨first, others, split⟩ : ∃ first others,
      style.sequence = first :: others := by
    cases style <;> exact ⟨_, _, rfl⟩
  rw [split] at found ⊢
  rw [List.cons_append] at found ⊢
  rw [erase, found]
  simp

/-- Without control sequences, the first text is the second one, whatever comes
after it. -/
def Erases (colored plain : Text) : Prop :=
  ∀ rest, erase (colored ++ rest) = plain ++ erase rest

/-- Cutting off the last comma leaves commas between the items. -/
theorem closed_eq (around : Text × Text) (parts : List Text) :
    closed around parts =
      around.1 ++ (Notation.separated parts ++ around.2) := by
  have trailing : ∀ (part : Text) (parts : List Text),
      (part :: parts).flatMap (· ++ comma) =
        Notation.separated (part :: parts) ++ comma := by
    intro part parts
    induction parts generalizing part with
    | nil => simp [Notation.separated, List.intercalate]
    | cons next parts inductionHypothesis =>
        rw [List.flatMap_cons, inductionHypothesis next]
        simp [Notation.separated, List.intercalate, comma]
  unfold closed
  cases parts with
  | nil => simp [Notation.separated]
  | cons part parts =>
      rw [trailing, ← List.append_assoc, ← List.append_assoc]
      generalize Notation.separated (part :: parts) = inner
      have longer : around.1 ++ inner ++ comma ≠ around.1 := by
        intro same
        have lengths := congrArg List.length same
        simp only [List.length_append] at lengths
        have two : comma.length = 2 := rfl
        omega
      dsimp only
      rw [if_pos longer, List.length_append, Nat.add_sub_cancel,
        List.take_left]

namespace Erases

variable {colored plain others further : Text}

theorem of_isBare (bare : plain.IsBare) : Erases plain plain :=
  erase_append_of_isBare bare

theorem append (first : Erases colored plain)
    (second : Erases others further) :
    Erases (colored ++ others) (plain ++ further) := by
  intro rest
  rw [List.append_assoc, first, second, List.append_assoc]

theorem paint (style : Style) (bare : plain.IsBare) :
    Erases (paint true style plain) (Display.paint false style plain) := by
  intro rest
  have painted : Display.paint true style plain =
      style.sequence ++ (plain ++ Style.normal.sequence) := by
    simp [Display.paint, styled]
  rw [painted, List.append_assoc, erase_sequence, List.append_assoc,
    erase_append_of_isBare bare, erase_sequence]
  rfl

theorem erase_eq (erases : Erases colored plain) : erase colored = plain := by
  have whole := erases []
  have nothing : erase [] = [] := by rw [erase]
  rwa [List.append_nil, nothing, List.append_nil] at whole

theorem closed {around : Text × Text} (opening : around.1.IsBare)
    (closing : around.2.IsBare) {parts bare : List Text}
    (erases : List.Forall₂ Erases parts bare) :
    Erases (Display.closed around parts) (Display.closed around bare) := by
  have separated : Erases (Notation.separated parts)
      (Notation.separated bare) := by
    have between : Erases comma comma := .of_isBare (by simp [comma])
    induction erases with
    | nil => exact .of_isBare Text.isBare_nil
    | cons first rest inductionHypothesis =>
        cases rest with
        | nil => simpa [Notation.separated, List.intercalate] using first
        | cons second rest =>
            have both := first.append (between.append inductionHypothesis)
            simpa [Notation.separated, List.intercalate, comma] using both
  have whole := (Erases.of_isBare opening).append
    (separated.append (.of_isBare closing))
  rwa [closed_eq, closed_eq]

end Erases

/-! ## Outcomes side by side -/

/-- Both succeed with related results, or both are refused for one reason. -/
inductive Alongside {α β : Type} (related : α → β → Prop) :
    Except Refusal α → Except Refusal β → Prop
  | ok {result : α} {other : β} :
      related result other → Alongside related (.ok result) (.ok other)
  | error (refusal : Refusal) :
      Alongside related (.error refusal) (.error refusal)

namespace Alongside

variable {α β γ δ : Type} {related : α → β → Prop}
variable {further : γ → δ → Prop}

theorem bind {first : Except Refusal α} {second : Except Refusal β}
    {next : α → Except Refusal γ} {other : β → Except Refusal δ}
    (alongside : Alongside related first second)
    (rest : ∀ result partner, related result partner →
      Alongside further (next result) (other partner)) :
    Alongside further (first >>= next) (second >>= other) := by
  cases alongside with
  | ok areRelated => exact rest _ _ areRelated
  | error refusal => exact .error refusal

theorem mapM {action : γ → Except Refusal α} {other : γ → Except Refusal β}
    (each : ∀ item, Alongside related (action item) (other item))
    (items : List γ) :
    Alongside (List.Forall₂ related) (items.mapM action)
      (items.mapM other) := by
  induction items with
  | nil => exact .ok .nil
  | cons item items inductionHypothesis =>
      rw [List.mapM_cons, List.mapM_cons]
      exact (each item).bind fun _ _ first =>
        inductionHypothesis.bind fun _ _ rest => .ok (.cons first rest)

theorem map_erase {colored plain : Except Refusal Text}
    (alongside : Alongside Erases colored plain) :
    colored.map erase = plain := by
  cases alongside with
  | ok erases => exact congrArg Except.ok erases.erase_eq
  | error refusal => rfl

end Alongside

/-! ## Leaves -/

variable {heap : Heap} {value : Value}

/-- How a value without items is described, and cut where it is too wide. -/
def leafForm (heap : Heap) (value : Value) : Text :=
  let described := heap.describe value
  let escaped :=
    if isDescribed heap value then described
    else Quoted.asciiOnly described
  if leafStyle heap value = .pink then shorten escaped else escaped

/-- Only a number of too many digits is not described. -/
theorem leafText_eq (heap : Heap) (value : Value) :
    (∃ number, value = .int number ∧ 10 ^ maxDigits ≤ number.natAbs ∧
      leafText heap value = .error .badValue) ∨
    leafText heap value = .ok (leafForm heap value) := by
  cases value with
  | int number =>
      by_cases short : number.natAbs < 10 ^ maxDigits
      · refine .inr ?_
        have passes : checkDigits number = .ok () := if_pos short
        unfold leafText
        dsimp only
        rw [passes]
        rfl
      · refine .inl ⟨number, rfl, Nat.le_of_not_lt short, ?_⟩
        have refused : checkDigits number = .error .badValue := if_neg short
        unfold leafText
        dsimp only
        rw [refused]
        rfl
  | _ => exact .inr rfl

theorem isBare_leafForm {registry : Registry} (isBare : registry.IsBare)
    (governed : heap.IsGoverned registry)
    (isLeaf : inside heap value = .leaf) : (leafForm heap value).IsBare := by
  have described := isBare_describe isBare governed isLeaf
  have escaped : Text.IsBare (if isDescribed heap value
      then heap.describe value
      else Quoted.asciiOnly (heap.describe value)) := by
    split
    · exact described
    · exact Quoted.isBare_asciiOnly described
  unfold leafForm
  dsimp only
  split
  · exact isBare_shorten escaped
  · exact escaped

/-! ## Erasing the colours of a value -/

theorem alongside_enclosed {first second : Value → Except Refusal Text}
    (each : ∀ item, Alongside Erases (first item) (second item))
    {around : Text × Text} (opening : around.1.IsBare)
    (closing : around.2.IsBare) (values : List Value) :
    Alongside Erases (enclosed first around values)
      (enclosed second around values) := by
  exact (Alongside.mapM each values).bind fun _ _ erases =>
    .ok (.closed opening closing erases)

theorem alongside_enclosedEntries
    {first second : Value → Except Refusal Text}
    (each : ∀ item, Alongside Erases (first item) (second item))
    (entries : List (Value × Value)) :
    Alongside Erases (enclosedEntries first entries)
      (enclosedEntries second entries) := by
  have colon : Erases (Text.ofString ": ") (Text.ofString ": ") :=
    .of_isBare (by simp)
  have eachEntry (entry : Value × Value) : Alongside Erases
      (shownEntry first entry) (shownEntry second entry) := by
    refine (each entry.1).bind fun _ _ key => (each entry.2).bind
      fun _ _ item => .ok ?_
    simpa [Notation.pair] using key.append (colon.append item)
  exact (Alongside.mapM eachEntry entries).bind fun _ _ erases =>
    .ok (.closed (by simp) (by simp) erases)

theorem isBare_brackets (heap : Heap) (value : Value) :
    (brackets heap value).1.IsBare ∧ (brackets heap value).2.IsBare := by
  unfold brackets
  split
  · simp
  · split <;> simp
  · simp

theorem alongside_valueWithin {registry : Registry}
    (isBare : registry.IsBare) (governed : heap.IsGoverned registry)
    (levels : Nat) (depth : Int) (value : Value) :
    Alongside Erases (valueWithin true heap levels depth value)
      (valueWithin false heap levels depth value) := by
  have ellipsis : Alongside Erases
      (.ok (paint true .gray (Text.ofString "...")))
      (.ok (paint false .gray (Text.ofString "..."))) :=
    .ok (.paint .gray (by simp))
  induction levels generalizing depth value with
  | zero => exact ellipsis
  | succ levels inductionHypothesis =>
      have each := inductionHypothesis (depth + 1)
      unfold valueWithin
      dsimp only
      cases shape : inside heap value with
      | leaf =>
          dsimp only
          rcases leafText_eq heap value with
            ⟨number, _, _, refused⟩ | shown
          · rw [refused]
            exact .error _
          · rw [shown]
            exact .ok (.paint _ (isBare_leafForm isBare governed shape))
      | items values =>
          dsimp only
          by_cases deep : maxDepth < depth
          · rw [if_pos deep, if_pos deep]
            exact ellipsis
          · rw [if_neg deep, if_neg deep]
            obtain ⟨opening, closing⟩ := isBare_brackets heap value
            exact alongside_enclosed each opening closing values
      | entries entries =>
          dsimp only
          by_cases deep : maxDepth < depth
          · rw [if_pos deep, if_pos deep]
            exact ellipsis
          · rw [if_neg deep, if_neg deep]
            exact alongside_enclosedEntries each entries

/-- A list and the entries of a mapping are shown by the same values. -/
theorem alongside_items {registry : Registry} (isBare : registry.IsBare)
    (governed : heap.IsGoverned registry) (depth : Int) (container : Value) :
    Alongside Erases (items true heap depth container)
      (items false heap depth container) := by
  have growth := heap.growsTo_iterate container
  unfold items
  cases iterated : heap.iterate container with
  | error refusal => exact .error refusal
  | ok result =>
      obtain ⟨values, after⟩ := result
      have afterGoverned : after.IsGoverned registry :=
        governed.grows ((growth values after iterated).mono
          fun _ isData => isData.isBound)
      obtain ⟨opening, closing⟩ := isBare_brackets after container
      exact alongside_enclosed
        (alongside_valueWithin isBare afterGoverned _ depth)
        opening closing values

theorem alongside_entries {registry : Registry} (isBare : registry.IsBare)
    (governed : heap.IsGoverned registry) (depth : Int) (mapping : Value) :
    Alongside Erases (Display.entries true heap depth mapping)
      (Display.entries false heap depth mapping) := by
  have each (item : Value) := alongside_valueWithin isBare governed
    ((maxDepth - depth).toNat + 2) depth item
  unfold Display.entries
  split
  · exact alongside_enclosedEntries each _
  · exact alongside_enclosedEntries each _
  · exact .error _

/-! ## How far a value is shown -/

/-- With levels enough, their number does not matter. -/
theorem valueWithin_eq_of_enough {colored : Bool} {levels others : Nat}
    {depth : Int} (enough : (maxDepth + 1 - depth).toNat < levels)
    (further : (maxDepth + 1 - depth).toNat < others) (value : Value) :
    valueWithin colored heap levels depth value =
      valueWithin colored heap others depth value := by
  induction levels generalizing others depth value with
  | zero => omega
  | succ levels inductionHypothesis =>
      cases others with
      | zero => omega
      | succ others =>
          have inner (shallow : ¬ maxDepth < depth) :
              valueWithin colored heap levels (depth + 1) =
                valueWithin colored heap others (depth + 1) := by
            funext item
            exact inductionHypothesis (by omega) (by omega) item
          unfold valueWithin
          dsimp only
          cases inside heap value with
          | leaf => rfl
          | items values =>
              by_cases deep : maxDepth < depth
              · simp only [deep, if_true]
              · simp only [deep, if_false, inner deep]
          | entries entries =>
              by_cases deep : maxDepth < depth
              · simp only [deep, if_true]
              · simp only [deep, if_false, inner deep]

/-- A value is shown by what it holds, one container further in. -/
theorem bareValue_eq (colored : Bool) (heap : Heap) (depth : Int)
    (value : Value) :
    bareValue colored heap depth value =
      match inside heap value with
      | .leaf =>
          (leafText heap value).map (paint colored (leafStyle heap value))
      | .items values =>
          if maxDepth < depth then .ok (paint colored .gray "...")
          else enclosed (bareValue colored heap (depth + 1))
            (brackets heap value) values
      | .entries entries =>
          if maxDepth < depth then .ok (paint colored .gray "...")
          else enclosedEntries (bareValue colored heap (depth + 1))
            entries := by
  have below (shallow : ¬ maxDepth < depth) :
      valueWithin colored heap ((maxDepth - depth).toNat + 1) (depth + 1) =
        bareValue colored heap (depth + 1) := by
    funext item
    exact valueWithin_eq_of_enough (by omega) (by omega) item
  unfold bareValue at below ⊢
  rw [valueWithin]
  cases inside heap value with
  | leaf => rfl
  | items values =>
      by_cases deep : maxDepth < depth
      · simp only [deep, if_true]
      · simp only [deep, if_false, below deep]
  | entries entries =>
      by_cases deep : maxDepth < depth
      · simp only [deep, if_true]
      · simp only [deep, if_false, below deep]

/-- Two values are alike down to so many containers: what lies deeper may be
anything. -/
def Alike (first second : Heap) : (levels : Nat) → Value → Value → Prop
  | levels, value, other =>
      match inside first value, inside second other with
      | .leaf, .leaf =>
          leafStyle first value = leafStyle second other ∧
            leafText first value = leafText second other
      | .items values, .items others =>
          match levels with
          | 0 => True
          | levels + 1 =>
              brackets first value = brackets second other ∧
                List.Forall₂ (Alike first second levels) values others
      | .entries entries, .entries others =>
          match levels with
          | 0 => True
          | levels + 1 =>
              List.Forall₂ (fun entry other =>
                Alike first second levels entry.1 other.1 ∧
                  Alike first second levels entry.2 other.2) entries others
      | .leaf, _ | _, .leaf => False
      | _, _ => levels = 0

theorem mapM_eq_of_forall₂ {α β γ : Type} {first : α → Except Refusal γ}
    {second : β → Except Refusal γ} {items : List α} {others : List β}
    (same : List.Forall₂ (fun item other => first item = second other)
      items others) : items.mapM first = others.mapM second := by
  induction same with
  | nil => rfl
  | cons head _ inductionHypothesis =>
      rw [List.mapM_cons, List.mapM_cons, head, inductionHypothesis]

/-- Values that are alike down to the last level are shown alike. -/
theorem valueWithin_of_alike {first second : Heap} {colored : Bool}
    {depth : Int} {value other : Value} (levels room : Nat)
    (counts : (maxDepth + 1 - depth).toNat = room)
    (alike : Alike first second room value other) :
    valueWithin colored first levels depth value =
      valueWithin colored second levels depth other := by
  induction levels generalizing depth room value other with
  | zero => rfl
  | succ levels inductionHypothesis =>
      unfold Alike at alike
      unfold valueWithin
      cases room with
      | zero =>
          have deep : maxDepth < depth := by omega
          simp only [deep, if_true]
          cases insideFirst : inside first value <;>
            cases insideSecond : inside second other <;>
              simp_all
      | succ room =>
          have shallow : ¬ maxDepth < depth := by omega
          have same {item further : Value}
              (areAlike : Alike first second room item further) :
              valueWithin colored first levels (depth + 1) item =
                valueWithin colored second levels (depth + 1) further :=
            inductionHypothesis room (by omega) areAlike
          simp only [shallow, if_false]
          cases insideFirst : inside first value with
          | leaf =>
              cases insideSecond : inside second other <;>
                simp_all
          | items values =>
              cases insideSecond : inside second other with
              | items others =>
                  simp only [insideFirst, insideSecond] at alike ⊢
                  have parts := mapM_eq_of_forall₂
                    (alike.2.imp fun _ _ => same)
                  rw [enclosed, enclosed, parts, alike.1]
              | _ => simp [insideFirst, insideSecond] at alike
          | entries entries =>
              cases insideSecond : inside second other with
              | entries others =>
                  simp only [insideFirst, insideSecond] at alike ⊢
                  have sameEntry {entry further : Value × Value}
                      (areAlike : Alike first second room entry.1 further.1 ∧
                        Alike first second room entry.2 further.2) :
                      shownEntry (valueWithin colored first levels (depth + 1))
                          entry =
                        shownEntry
                          (valueWithin colored second levels (depth + 1))
                          further := by
                    rw [shownEntry, same areAlike.1, same areAlike.2]
                    rfl
                  have parts := mapM_eq_of_forall₂
                    (alike.imp fun _ _ => sameEntry)
                  rw [enclosedEntries, enclosedEntries, parts]
              | _ => simp [insideFirst, insideSecond] at alike

/-! ## When a value is refused -/

/-- The value is the inner one, or the inner one lies in containers of it. -/
inductive Holds (heap : Heap) (inner : Value) : Value → Prop
  | self : Holds heap inner inner
  | item {container item : Value} {values : List Value} :
      inside heap container = .items values → item ∈ values →
      Holds heap inner item → Holds heap inner container
  | key {container : Value} {entry : Value × Value}
      {entries : List (Value × Value)} :
      inside heap container = .entries entries → entry ∈ entries →
      Holds heap inner entry.1 → Holds heap inner container
  | field {container : Value} {entry : Value × Value}
      {entries : List (Value × Value)} :
      inside heap container = .entries entries → entry ∈ entries →
      Holds heap inner entry.2 → Holds heap inner container

/-- The value holds a number of too many digits. -/
def HoldsLong (heap : Heap) (value : Value) : Prop :=
  ∃ number : Int, 10 ^ maxDigits ≤ number.natAbs ∧
    Holds heap (.int number) value

theorem exists_of_enclosed_error {item : Value → Except Refusal Text}
    {around : Text × Text} {values : List Value} {refusal : Refusal}
    (refused : enclosed item around values = .error refusal) :
    ∃ value ∈ values, item value = .error refusal := by
  rcases except_bind_eq_error_iff.mp refused with failed | ⟨_, _, closed⟩
  · exact exists_of_except_mapM_error failed
  · cases closed

theorem error_of_shownEntry {item : Value → Except Refusal Text}
    {entry : Value × Value} {refusal : Refusal}
    (refused : shownEntry item entry = .error refusal) :
    item entry.1 = .error refusal ∨ item entry.2 = .error refusal := by
  rcases except_bind_eq_error_iff.mp refused with key | ⟨_, _, later⟩
  · exact .inl key
  · rcases except_bind_eq_error_iff.mp later with field | ⟨_, _, paired⟩
    · exact .inr field
    · cases paired

theorem exists_of_enclosedEntries_error {item : Value → Except Refusal Text}
    {entries : List (Value × Value)} {refusal : Refusal}
    (refused : enclosedEntries item entries = .error refusal) :
    ∃ entry ∈ entries, item entry.1 = .error refusal ∨
      item entry.2 = .error refusal := by
  rcases except_bind_eq_error_iff.mp refused with failed | ⟨_, _, closed⟩
  · obtain ⟨entry, member, shown⟩ := exists_of_except_mapM_error failed
    exact ⟨entry, member, error_of_shownEntry shown⟩
  · cases closed

theorem valueWithin_eq_error {colored : Bool} {levels : Nat} {depth : Int}
    {refusal : Refusal}
    (refused : valueWithin colored heap levels depth value =
      .error refusal) : refusal = .badValue ∧ HoldsLong heap value := by
  induction levels generalizing depth value with
  | zero => cases refused
  | succ levels inductionHypothesis =>
      unfold valueWithin at refused
      cases shape : inside heap value with
      | leaf =>
          simp only [shape] at refused
          rcases leafText_eq heap value with
            ⟨number, rfl, long, isRefused⟩ | shown
          · rw [isRefused] at refused
            cases refused
            exact ⟨rfl, number, long, .self⟩
          · rw [shown] at refused
            cases refused
      | items values =>
          simp only [shape] at refused
          split at refused
          · cases refused
          · obtain ⟨item, member, failed⟩ :=
              exists_of_enclosed_error refused
            obtain ⟨isBad, number, long, holds⟩ := inductionHypothesis failed
            exact ⟨isBad, number, long, .item shape member holds⟩
      | entries entries =>
          simp only [shape] at refused
          split at refused
          · cases refused
          · obtain ⟨entry, member, inKey | inField⟩ :=
              exists_of_enclosedEntries_error refused
            · obtain ⟨isBad, number, long, holds⟩ :=
                inductionHypothesis inKey
              exact ⟨isBad, number, long, .key shape member holds⟩
            · obtain ⟨isBad, number, long, holds⟩ :=
                inductionHypothesis inField
              exact ⟨isBad, number, long, .field shape member holds⟩

/-! ## Values of a heap -/

/-- Without its separator a value is what stands inside containers. -/
theorem value_stripped (colored : Bool) (heap : Heap) (depth : Int)
    (value : Value) :
    Display.value colored heap true depth value =
      bareValue colored heap depth value := by
  unfold Display.value
  cases bareValue colored heap depth value with
  | ok line => exact congrArg Except.ok (List.append_nil line)
  | error refusal => rfl

theorem value_eq_error {colored stripped : Bool} {depth : Int}
    {refusal : Refusal}
    (refused : Display.value colored heap stripped depth value =
      .error refusal) : refusal = .badValue ∧ HoldsLong heap value := by
  unfold Display.value at refused
  cases shown : bareValue colored heap depth value with
  | ok line =>
      rw [shown] at refused
      cases refused
  | error other =>
      rw [shown] at refused
      cases refused
      exact valueWithin_eq_error shown

theorem isBare_separator (stripped : Bool) : (separator stripped).IsBare := by
  cases stripped <;> simp [separator, comma]

/-- How the values of a heap are shown. `unfolds` is how a line is made of the
lines inside, which stand without their separators; `ends` and its kin say that
there is always a line, unless a number of too many digits is refused;
`isShallow` that containers beyond the last level are not looked into; and
`erased` and its kin that the line without control sequences, whatever follows
it, is the one without colours. -/
structure ShowsValues (heap : Heap) : Prop where
  unfolds (colored stripped : Bool) (depth : Int) (value : Value) :
    Display.value colored heap stripped depth value =
      (match inside heap value with
      | .leaf =>
          (leafText heap value).map (paint colored (leafStyle heap value))
      | .items values =>
          if maxDepth < depth then .ok (paint colored .gray "...")
          else enclosed (Display.value colored heap true (depth + 1))
            (brackets heap value) values
      | .entries entries =>
          if maxDepth < depth then .ok (paint colored .gray "...")
          else enclosedEntries (Display.value colored heap true (depth + 1))
            entries).map (· ++ separator stripped)
  ends (colored stripped : Bool) (depth : Int) (value : Value) :
    (∃ line, Display.value colored heap stripped depth value = .ok line) ∨
      Display.value colored heap stripped depth value = .error .badValue ∧
        HoldsLong heap value
  itemsEnd (colored : Bool) (depth : Int) {container : Value}
      {values : List Value} {after : Heap} :
    heap.iterate container = .ok (values, after) →
      (∃ line, items colored heap depth container = .ok line) ∨
        items colored heap depth container = .error .badValue ∧
          ∃ value ∈ values, HoldsLong after value
  entriesEnd (colored : Bool) (depth : Int) {mapping : Value}
      {content : List (Value × Value)} :
    heap.entries? mapping = some content →
      (∃ line, Display.entries colored heap depth mapping = .ok line) ∨
        Display.entries colored heap depth mapping = .error .badValue ∧
          ∃ entry ∈ content, HoldsLong heap entry.1 ∨ HoldsLong heap entry.2
  isShallow (colored stripped : Bool) (other : Heap) {value further : Value} :
    Alike heap other (maxDepth.toNat + 1) value further →
      Display.value colored heap stripped 0 value =
        Display.value colored other stripped 0 further
  erased (stripped : Bool) (depth : Int) (value : Value) {ending : Text} :
    ending.IsBare →
      ((Display.value true heap stripped depth value).map
          (· ++ ending)).map erase =
        (Display.value false heap stripped depth value).map (· ++ ending)
  itemsErased (depth : Int) (container : Value) :
    (items true heap depth container).map erase =
      items false heap depth container
  entriesErased (depth : Int) (mapping : Value) :
    (Display.entries true heap depth mapping).map erase =
      Display.entries false heap depth mapping

theorem ends_of_eq_error {shown : Except Refusal Text} {isLong : Prop}
    (refused : ∀ refusal, shown = .error refusal →
      refusal = .badValue ∧ isLong) :
    (∃ line, shown = .ok line) ∨ shown = .error .badValue ∧ isLong := by
  cases shown with
  | ok line => exact .inl ⟨line, rfl⟩
  | error refusal =>
      obtain ⟨rfl, long⟩ := refused refusal rfl
      exact .inr ⟨rfl, long⟩

theorem showsValues_of_isGoverned {registry : Registry} (isBare : registry.IsBare)
    (governed : heap.IsGoverned registry) : ShowsValues heap where
  unfolds colored stripped depth value := by
    rw [funext (value_stripped colored heap (depth + 1)), Display.value,
      bareValue_eq]
  ends _ _ _ _ := ends_of_eq_error fun _ => value_eq_error
  itemsEnd colored depth container values after iterated := by
    refine ends_of_eq_error fun refusal refused => ?_
    unfold items at refused
    rw [iterated] at refused
    obtain ⟨value, member, failed⟩ := exists_of_enclosed_error refused
    obtain ⟨isBad, long⟩ := valueWithin_eq_error failed
    exact ⟨isBad, value, member, long⟩
  entriesEnd colored depth mapping content isMapping := by
    refine ends_of_eq_error fun refusal refused => ?_
    unfold Display.entries at refused
    rw [isMapping] at refused
    obtain ⟨entry, member, inKey | inField⟩ :=
      exists_of_enclosedEntries_error refused
    · obtain ⟨isBad, long⟩ := valueWithin_eq_error inKey
      exact ⟨isBad, entry, member, .inl long⟩
    · obtain ⟨isBad, long⟩ := valueWithin_eq_error inField
      exact ⟨isBad, entry, member, .inr long⟩
  isShallow _ stripped _ _ _ alike :=
    congrArg (Except.map (· ++ separator stripped))
      (valueWithin_of_alike _ _ rfl alike)
  erased stripped depth value ending bare := by
    have ended : Alongside Erases
        (Display.value true heap stripped depth value)
        (Display.value false heap stripped depth value) :=
      (alongside_valueWithin isBare governed _ depth value).bind
        fun _ _ erases => .ok (erases.append (.of_isBare
          (isBare_separator stripped)))
    have alongside : Alongside Erases
        ((Display.value true heap stripped depth value).map (· ++ ending))
        ((Display.value false heap stripped depth value).map (· ++ ending)) :=
      ended.bind fun _ _ erases => .ok (erases.append (.of_isBare bare))
    exact alongside.map_erase
  itemsErased depth container :=
    (alongside_items isBare governed depth container).map_erase
  entriesErased depth mapping :=
    (alongside_entries isBare governed depth mapping).map_erase

end Display

/-- Under a registry whose names and targets hold no control sequences, decoded
values are shown on lines of finitely many levels, and colours only decorate
these lines. -/
theorem Execution.Reached.showsValues {options : Options} {machine : Machine}
    (isBare : options.registry.IsBare)
    (reached : Execution.Reached options machine) :
    Display.ShowsValues machine.heap ∧
      ∀ value after, Machine.load options machine = .ok value after →
        Display.ShowsValues after.heap := by
  refine ⟨Display.showsValues_of_isGoverned isBare reached.isGoverned, ?_⟩
  intro value after loaded
  have finished := reached.load
  rw [loaded] at finished
  exact Display.showsValues_of_isGoverned isBare finished.isGoverned

/-- The pickle of an instance in front of containers, each of them the last item
of the one around it. -/
def nestedCode : Bytes :=
  [0x28, 0x63, 0x6D, 0x0A, 0x6E, 0x0A, 0x29, 0x81, 0x28, 0x4E, 0x28, 0x4B,
    0x01, 0x28, 0x4B, 0x02, 0x28, 0x4E, 0x74, 0x6C, 0x74, 0x6C, 0x74, 0x2E]

/-- Its line, which is cut at the fifth container. -/
def nestedLine : Text :=
  List.flatten ["(", "\x1b[33m<t record (0 fields)>\x1b[0m", ", [",
    "\x1b[34mNone\x1b[0m", ", (", "\x1b[36m1\x1b[0m", ", [",
    "\x1b[36m2\x1b[0m", ", ", "\x1b[1;38;5;240m...\x1b[0m", "])])"]

/-- Containers inside each other are cut, and a separator stands behind each item
but the last. -/
theorem Execution.showsValues_nested :
    oneType.registry.IsBare ∧
      Reached oneType (Machine.ofReader (.ofBytes nestedCode) .empty false) ∧
      ∃ value after,
        Machine.load oneType
            (Machine.ofReader (.ofBytes nestedCode) .empty false) =
          .ok value after ∧
        Display.ShowsValues after.heap ∧
        Display.value true after.heap true 0 value = .ok nestedLine ∧
        Display.value true after.heap false 0 value =
          .ok (nestedLine ++ Display.comma) := by
  have isBare : oneType.registry.IsBare := by
    intro key strategy bound
    by_cases isKey : key = ⟨[0x6D], [0x6E]⟩
    · subst isKey
      cases bound
      decide
    · have noKey : (key == ⟨[0x6D], [0x6E]⟩) = false := by simp [isKey]
      simp [Registry.resolve, Registry.find?, Bindings.find?, oneType,
        List.lookup_cons, noKey] at bound
  have reached : Reached oneType
      (Machine.ofReader (.ofBytes nestedCode) .empty false) := .start _ _ _
  have shown : (oneType.decode nestedCode).toOption.bind
        (fun made => (Display.bareValue true made.2 0 made.1).toOption) =
      some nestedLine := by
    decide +kernel
  cases decoded : oneType.decode nestedCode with
  | error failure =>
      rw [decoded] at shown
      cases shown
  | ok made =>
      rw [decoded] at shown
      obtain ⟨after, finished, heap⟩ := decode_eq_ok_iff.mp decoded
      have loaded : Machine.load oneType
          (Machine.ofReader (.ofBytes nestedCode) .empty false) =
            .ok made.1 after := finished
      have same : after.heap = made.2 := heap
      have line : Display.bareValue true after.heap 0 made.1 =
          .ok nestedLine := by
        rw [same]
        cases line : Display.bareValue true made.2 0 made.1 with
        | error refusal => simp [line, Except.toOption] at shown
        | ok text => simpa [line, Except.toOption] using shown
      refine ⟨isBare, reached, made.1, after, loaded,
        (Reached.showsValues isBare reached).2 _ _ loaded, ?_, ?_⟩
      · rw [Display.value_stripped, line]
      · rw [Display.value, line]
        rfl

end PickleGraph
