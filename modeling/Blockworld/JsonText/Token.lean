/-
# JSON tokens

A JSON text is a sequence of tokens between which blanks may stand: a space, a tab, a line feed or a
carriage return.  `tokens?` finds the tokens of a text, or nothing if some part of it is no token.

Two details go beyond the shape of the tokens.  A string may contain an escape that stands for half
of a surrogate pair without the other half; such a string names no text, but it may still stand
where its content does not matter, so its token carries `none`.  A number keeps its value only if
it is written as an integer; one with a fraction or an exponent is just `real`.
-/

namespace Blockworld.JsonText

/-- A number as it is written. -/
inductive Number where
  /-- Digits, with or without a sign in front. -/
  | integer (negative : Bool) (magnitude : Nat)
  /-- A number with a fraction or an exponent. -/
  | real
  deriving DecidableEq, Repr

/-- The smallest meaningful part of a JSON text. -/
inductive Token where
  | openBracket
  | closeBracket
  | openBrace
  | closeBrace
  | comma
  | colon
  | null
  | bool (value : Bool)
  | number (value : Number)
  /-- A string; `none` if an escape in it has no character. -/
  | string (value : Option String)
  deriving DecidableEq, Repr

/-! ## 1. Numbers -/

/-- Whether a character can occur in a number. -/
def isNumeric (c : Char) : Bool :=
  c.isDigit || c == '-' || c == '+' || c == '.' || c == 'e' || c == 'E'

/-- The value of a list of decimal digits. -/
def decimal (digits : List Char) : Nat :=
  digits.foldl (fun n c => 10 * n + (c.toNat - '0'.toNat)) 0

/-- Whether the characters are an exponent, or nothing. -/
def isExponent : List Char → Bool
  | [] => true
  | e :: rest =>
    (e == 'e' || e == 'E') &&
      (let digits := match rest with
        | '+' :: more => more
        | '-' :: more => more
        | more => more
       !digits.isEmpty && digits.all Char.isDigit)

/-- Whether the characters are a fraction and an exponent, each of which may be missing. -/
def isTail : List Char → Bool
  | '.' :: rest =>
    let digits := rest.takeWhile Char.isDigit
    !digits.isEmpty && isExponent (rest.dropWhile Char.isDigit)
  | rest => isExponent rest

/-- The number that the characters write, without a sign: digits of which the first is zero only
if it is the last, then a fraction and an exponent. -/
def unsigned? (negative : Bool) (cs : List Char) : Option Number :=
  let digits := cs.takeWhile Char.isDigit
  let rest := cs.dropWhile Char.isDigit
  let wellFormed := match digits with
    | [] => false
    | ['0'] => true
    | '0' :: _ => false
    | _ => true
  if !wellFormed then none
  else if rest.isEmpty then some (.integer negative (decimal digits))
  else if isTail rest then some .real
  else none

/-- The number that the characters write. -/
def number? : List Char → Option Number
  | '-' :: cs => unsigned? true cs
  | cs => unsigned? false cs

/-! ## 2. Strings -/

/-- The value of a hexadecimal digit. -/
def hexDigit? (c : Char) : Option Nat :=
  if c.isDigit then some (c.toNat - '0'.toNat)
  else if 'a' ≤ c ∧ c ≤ 'f' then some (c.toNat - 'a'.toNat + 10)
  else if 'A' ≤ c ∧ c ≤ 'F' then some (c.toNat - 'A'.toNat + 10)
  else none

/-- The value of four hexadecimal digits. -/
def hexUnit? (a b c d : Char) : Option Nat := do
  let a ← hexDigit? a
  let b ← hexDigit? b
  let c ← hexDigit? c
  let d ← hexDigit? d
  return ((a * 16 + b) * 16 + c) * 16 + d

/-- The character of a one-letter escape. -/
def shortEscape? : Char → Option Char
  | '"' => some '"'
  | '\\' => some '\\'
  | '/' => some '/'
  | 'b' => some '\x08'
  | 'f' => some '\x0c'
  | 'n' => some '\n'
  | 'r' => some '\r'
  | 't' => some '\t'
  | _ => none

/-- A piece of a string: a character, or a 16-bit unit given by an escape. -/
inductive Piece where
  | char (c : Char)
  | unit (n : Nat)
  deriving DecidableEq, Repr

/-- The text of the pieces of a string.  A unit that is the first half of a surrogate pair has to be
followed by the second half, and a second half may not stand alone. -/
def join? : List Piece → Option (List Char)
  | [] => some []
  | .char c :: rest => (join? rest).map (c :: ·)
  | .unit high :: rest =>
    if 0xd800 ≤ high ∧ high < 0xdc00 then
      match rest with
      | .unit low :: rest =>
        if 0xdc00 ≤ low ∧ low < 0xe000 then
          (join? rest).map (Char.ofNat (0x10000 + (high - 0xd800) * 0x400 + (low - 0xdc00)) :: ·)
        else none
      | _ => none
    else if 0xdc00 ≤ high ∧ high < 0xe000 then none
    else (join? rest).map (Char.ofNat high :: ·)

/-- The token of a string with the given pieces, the last one first. -/
def stringToken (pieces : List Piece) : Token := .string ((join? pieces.reverse).map String.ofList)

/-! ## 3. Texts -/

/-- Whether a character may stand between tokens. -/
def isBlank (c : Char) : Bool := c == ' ' || c == '\t' || c == '\n' || c == '\r'

/-- Where in a text the lexer is. -/
inductive Mode where
  /-- Between tokens. -/
  | between
  /-- In a number; its characters so far, the last one first. -/
  | inNumber (written : List Char)
  /-- In a string; its pieces so far, the last one first. -/
  | inString (pieces : List Piece)

/-- The token of a character that is one by itself. -/
def mark? : Char → Option Token
  | '[' => some .openBracket
  | ']' => some .closeBracket
  | '\x7b' => some .openBrace
  | '\x7d' => some .closeBrace
  | ',' => some .comma
  | ':' => some .colon
  | _ => none

/-- The tokens of the rest of a text. -/
def tokensFrom : List Char → Mode → Option (List Token)
  | [], .between => some []
  | [], .inNumber written => (number? written.reverse).map fun n => [.number n]
  | [], .inString _ => none
  | '\\' :: 'u' :: a :: b :: c :: d :: rest, .inString pieces =>
    match hexUnit? a b c d with
    | some n => tokensFrom rest (.inString (.unit n :: pieces))
    | none => none
  | '\\' :: e :: rest, .inString pieces =>
    match shortEscape? e with
    | some c => tokensFrom rest (.inString (.char c :: pieces))
    | none => none
  | c :: rest, .inString pieces =>
    if c == '"' then (tokensFrom rest .between).map (stringToken pieces :: ·)
    else if c == '\\' || c < ' ' then none
    else tokensFrom rest (.inString (.char c :: pieces))
  | c :: rest, .inNumber written =>
    if isNumeric c then tokensFrom rest (.inNumber (c :: written))
    else
      match number? written.reverse with
      | none => none
      | some n =>
        if isBlank c then (tokensFrom rest .between).map (.number n :: ·)
        else
          match mark? c with
          | some t => (tokensFrom rest .between).map fun ts => .number n :: t :: ts
          | none => none
  | 'n' :: 'u' :: 'l' :: 'l' :: rest, .between => (tokensFrom rest .between).map (.null :: ·)
  | 't' :: 'r' :: 'u' :: 'e' :: rest, .between => (tokensFrom rest .between).map (.bool true :: ·)
  | 'f' :: 'a' :: 'l' :: 's' :: 'e' :: rest, .between =>
    (tokensFrom rest .between).map (.bool false :: ·)
  | c :: rest, .between =>
    if isBlank c then tokensFrom rest .between
    else if c == '"' then tokensFrom rest (.inString [])
    else if c.isDigit || c == '-' then tokensFrom rest (.inNumber [c])
    else
      match mark? c with
      | some t => (tokensFrom rest .between).map (t :: ·)
      | none => none

/-- The tokens of a text; `none` if some part of it is no token. -/
def tokens? (text : String) : Option (List Token) := tokensFrom text.toList .between

end Blockworld.JsonText
