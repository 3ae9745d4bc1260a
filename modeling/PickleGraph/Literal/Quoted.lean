import PickleGraph.Literal.Token
import PickleGraph.Text.Escape

/-!
# Quoted texts in literals

The escapes of a quoted text name a code point by a letter, by octal digits, by
a fixed number of hexadecimal digits or by the name of a character. Byte strings
have the escapes of octets only and hold nothing but ASCII.
-/

namespace PickleGraph

/-- The characters that have names, by the names. Which these are depends on the
version of Unicode that a program comes with. -/
abbrev CharacterNames := Text → Option CodePoint

namespace CharacterNames

def punctuationNames : List (String × Char) :=
  [("SPACE", ' '), ("EXCLAMATION MARK", '!'), ("QUOTATION MARK", '"'),
    ("NUMBER SIGN", '#'), ("DOLLAR SIGN", '$'), ("PERCENT SIGN", '%'),
    ("AMPERSAND", '&'), ("APOSTROPHE", '\''), ("LEFT PARENTHESIS", '('),
    ("RIGHT PARENTHESIS", ')'), ("ASTERISK", '*'), ("PLUS SIGN", '+'),
    ("COMMA", ','), ("HYPHEN-MINUS", '-'), ("FULL STOP", '.'),
    ("SOLIDUS", '/'), ("COLON", ':'), ("SEMICOLON", ';'),
    ("LESS-THAN SIGN", '<'), ("EQUALS SIGN", '='),
    ("GREATER-THAN SIGN", '>'), ("QUESTION MARK", '?'),
    ("COMMERCIAL AT", '@'), ("LEFT SQUARE BRACKET", '['),
    ("REVERSE SOLIDUS", '\\'), ("RIGHT SQUARE BRACKET", ']'),
    ("CIRCUMFLEX ACCENT", '^'), ("LOW LINE", '_'), ("GRAVE ACCENT", '\x60'),
    ("LEFT CURLY BRACKET", '\x7b'), ("VERTICAL LINE", '|'),
    ("RIGHT CURLY BRACKET", '\x7d'), ("TILDE", '~')]

def digitNames : List (String × Char) :=
  ["ZERO", "ONE", "TWO", "THREE", "FOUR", "FIVE", "SIX", "SEVEN", "EIGHT",
    "NINE"].mapIdx fun digit name =>
      ("DIGIT " ++ name, Char.ofNat ('0'.toNat + digit))

def letterNames : List (String × Char) :=
  (List.range 26).flatMap fun place =>
    let capital := Char.ofNat ('A'.toNat + place)
    [("LATIN CAPITAL LETTER " ++ capital.toString, capital),
      ("LATIN SMALL LETTER " ++ capital.toString, capital.toLower)]

/-- The characters of ASCII that have names; capital and small letters of a name
are alike. -/
def basicLatin : CharacterNames := fun name => do
  let name ← Text.toString? name
  let named ←
    (punctuationNames ++ digitNames ++ letterNames).lookup name.toUpper
  return CodePoint.ofChar named

end CharacterNames

namespace Literal

/-- The number of hexadecimal digits after a selector. -/
def hexWidth? (selector : CodePoint) : Option Nat :=
  if selector.isChar 'x' then some 2
  else if selector.isChar 'u' then some 4
  else if selector.isChar 'U' then some 8
  else none

/-- The code point named by the digits at the head of the input. -/
def takeHexPoint? (width : Nat) (input : Text) : Option CodePoint :=
  let digits := (input.take width).map octet
  if digits.length = width ∧ digits.all Escape.isHexDigit then
    if valid : Escape.hexNumber digits < 0x110000 then
      some ⟨Escape.hexNumber digits, valid⟩
    else
      none
  else
    none

/-- The name in braces at the head of the input. -/
def bracedName? : Text → Option Text
  | [] => none
  | opening :: rest =>
      let name := rest.takeWhile (!·.isChar '\x7d')
      if opening.isChar '\x7b' ∧ name ≠ [] ∧ name.length < rest.length then
        some name
      else
        none

/-- Resolves the escapes of a text. A backslash before any other character
stands for itself. -/
def unescape? (names : CharacterNames) : Text → Option Text
  | [] => some []
  | point :: rest =>
      if !point.isChar '\\' then
        (unescape? names rest).map (point :: ·)
      else
        match rest with
        | [] => none
        | selector :: rest =>
            match Escape.simpleEscapes.lookup (octet selector),
                hexWidth? selector with
            | some byte, _ =>
                (unescape? names rest).map (CodePoint.ofByte byte :: ·)
            | none, some width => do
                let named ← takeHexPoint? width rest
                (unescape? names (rest.drop width)).map (named :: ·)
            | none, none =>
                if isNewline selector then
                  unescape? names rest
                else if Escape.isOctalDigit (octet selector) then
                  let more := ((rest.take 2).map octet).takeWhile
                    Escape.isOctalDigit
                  let number := Escape.octalNumber (octet selector :: more)
                  (unescape? names (rest.drop more.length)).map
                    (Fin.ofNat _ number :: ·)
                else if selector.isChar 'N' then do
                  let name ← bracedName? rest
                  let named ← names name
                  (unescape? names (rest.drop (name.length + 2))).map
                    (named :: ·)
                else
                  (unescape? names rest).map ([point, selector] ++ ·)
termination_by text => text.length
decreasing_by
  all_goals simp only [List.length_drop, List.length_cons]; omega

def isAscii (text : Text) : Bool :=
  text.all (·.val < 0x80)

def quotedToken? (names : CharacterNames) (marks : QuoteMarks) (body : Text) :
    Option Token :=
  match marks.isBytes, marks.isRaw with
  | false, true => some (.str body)
  | false, false => (unescape? names body).map .str
  | true, true =>
      if isAscii body then some (.bytes (body.map octet)) else none
  | true, false =>
      if isAscii body then
        (Escape.unescape (body.map octet)).toOption.map .bytes
      else
        none

/-- A quoted text after its marks, with three quotes at either end or one. -/
def takeQuoted? (names : CharacterNames) (marks : QuoteMarks) (input : Text) :
    Option (Token × Text) := do
  let quote ← input.head?
  let long := List.replicate 3 quote
  let closing := if long.isPrefixOf input then long else [quote]
  let (body, rest) ← takeBody? closing (input.drop closing.length)
  let token ← quotedToken? names marks body
  return (token, rest)

/-! ## Tokens -/

def bracketToken? (point : CodePoint) : Option Token :=
  if point.isChar '(' then some (.opening .round)
  else if point.isChar ')' then some (.closing .round)
  else if point.isChar '[' then some (.opening .square)
  else if point.isChar ']' then some (.closing .square)
  else if point.isChar '\x7b' then some (.opening .curly)
  else if point.isChar '\x7d' then some (.closing .curly)
  else none

def markToken? (point : CodePoint) : Option Token :=
  if point.isChar ',' then some .comma
  else if point.isChar ':' then some .colon
  else if point.isChar '+' then some .plus
  else if point.isChar '-' then some .minus
  else bracketToken? point

/-- Whether a character of a name stands for a small letter: the letter itself,
one of the mathematical alphabets, or one of the other characters given. -/
def standsFor (letter : Char) (others : List Nat) (point : CodePoint) : Bool :=
  point.isChar letter || others.contains point.val ||
    (0x1D400 ≤ point.val && point.val < 0x1D6A4 && point.val ≠ 0x1D4BA &&
      (point.val - 0x1D400) % 52 == 26 + (letter.toNat - 'a'.toNat))

/-- Whether a name is that of the type of sets. Names are compared in their
compatibility forms, in which a long `s` is an `s`, and raised, lowered and wide
letters are plain ones. -/
def namesSetType : Text → Bool
  | [first, second, third] =>
      standsFor 's' [0x17F, 0x2E2, 0x209B, 0xFF53] first &&
        standsFor 'e' [0x1D49, 0x2091, 0x212F, 0x2147, 0xFF45] second &&
        standsFor 't' [0x1D57, 0x209C, 0xFF54] third
  | _ => false

def nameToken? (name : Text) : Option Token :=
  match Text.toString? name with
  | some "None" => some (.name .noneValue)
  | some "True" => some (.name .trueValue)
  | some "False" => some (.name .falseValue)
  | _ => if namesSetType name then some (.name .setType) else none

/-- A name or a quoted text with marks. -/
def takeWord? (names : CharacterNames) (input : Text) :
    Option (Token × Text) := do
  let word := input.takeWhile isNamePart
  let rest := input.dropWhile isNamePart
  if rest.head?.any isQuote then
    takeQuoted? names (← quoteMarks? (← Text.toString? word)) rest
  else
    return (← nameToken? word, rest)

def takeToken? (names : CharacterNames) (input : Text) :
    Option (Token × Text) :=
  match input with
  | [] => none
  | point :: rest =>
      match markToken? point with
      | some token => some (token, rest)
      | none =>
          if point.isDigit ||
              (point.isChar '.' && rest.head?.any (·.isDigit)) then
            takeNumeral? input
          else if isQuote point then
            takeQuoted? names ⟨false, false⟩ input
          else if point.isChar '.' then
            match rest with
            | second :: third :: after =>
                if second.isChar '.' && third.isChar '.' then
                  some (.ellipsis, after)
                else
                  none
            | _ => none
          else
            takeWord? names input

/-- The depth of brackets after a token. -/
def Token.depthAfter (depth : Nat) : Token → Nat
  | .opening _ => depth + 1
  | .closing _ => depth - 1
  | _ => depth

/-- The tokens up to the end of the line or of the input, and what follows.
Every step takes at least one character. -/
def takeTokens? (names : CharacterNames) :
    (steps depth : Nat) → Text → Option (List Token × Text)
  | 0, _, input => some ([], input)
  | _ + 1, _, [] => some ([], [])
  | steps + 1, depth, point :: rest =>
      if isBlank point then
        takeTokens? names steps depth rest
      else if isNewline point then
        if depth = 0 then
          some ([], point :: rest)
        else
          takeTokens? names steps depth rest
      else if point.isChar '#' then
        takeTokens? names steps depth (rest.dropWhile (!isNewline ·))
      else if point.isChar '\\' then
        match rest with
        | next :: after :: rest =>
            if isNewline next then
              takeTokens? names steps depth (after :: rest)
            else
              none
        | _ => none
      else do
        let (token, after) ← takeToken? names (point :: rest)
        let inner := token.depthAfter depth
        guard (inner ≤ maxDepth)
        let (tokens, final) ← takeTokens? names steps inner after
        return (token :: tokens, final)

/-! ## Lines -/

def normalizeNewlines : Text → Text
  | [] => []
  | point :: rest =>
      if point.isChar '\r' then
        match rest with
        | next :: after =>
            if isNewline next then
              next :: normalizeNewlines after
            else
              CodePoint.ofChar '\n' :: normalizeNewlines (next :: after)
        | [] => [CodePoint.ofChar '\n']
      else
        point :: normalizeNewlines rest

/-- Whether blanks leave a line indented; a form feed starts it anew. -/
def isIndented (blanks : Text) : Bool :=
  !(blanks.reverse.takeWhile (!·.isChar '\x0c')).isEmpty

/-- What follows empty lines and comments. What comes next must not be
indented, and neither must the end. A line that a backslash joins to the next is
as indented as its first part that is, so `indented` says whether one was. -/
def dropEmptyLines? (indented : Bool) : (lines : Nat) → Text → Option Text
  | 0, _ => none
  | lines + 1, input =>
      let indented := indented || isIndented (input.takeWhile isBlank)
      match input.dropWhile isBlank with
      | [] => if indented then none else some []
      | point :: rest =>
          if isNewline point then
            dropEmptyLines? false lines rest
          else if point.isChar '#' then
            match rest.dropWhile (!isNewline ·) with
            | [] => some []
            | _ :: after => dropEmptyLines? false lines after
          else if point.isChar '\\' then
            match rest with
            | next :: after :: rest =>
                if isNewline next then
                  dropEmptyLines? indented lines (after :: rest)
                else
                  none
            | _ => none
          else if indented then
            none
          else
            some (point :: rest)

/-- The tokens of a literal, which stands on one line unless brackets span
several. -/
def tokens? (names : CharacterNames) (text : Text) :
    Option (List Token) := do
  guard !(text.any (·.val == 0))
  let unindented :=
    text.dropWhile fun point => point.isChar ' ' || point.isChar '\t'
  let source := normalizeNewlines unindented
  let line ← dropEmptyLines? false (source.length + 1) source
  let (tokens, rest) ← takeTokens? names line.length 0 line
  let after ← dropEmptyLines? false (rest.length + 1) rest
  guard after.isEmpty
  return tokens

end Literal

end PickleGraph
