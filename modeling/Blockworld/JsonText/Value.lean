/-
# JSON values

`Value.parse?` reads the one value that a text holds, or nothing if the text is no JSON.  The parser
is a machine that takes one token at a time and keeps the unfinished arrays and objects on a stack,
so the depth of nesting is not limited.
-/
import Blockworld.JsonText.Token

namespace Blockworld.JsonText

/-- A JSON value.  Keys and strings are `none` where they name no text. -/
inductive Value where
  | null
  | bool (value : Bool)
  | number (value : Number)
  | string (value : Option String)
  | array (elements : List Value)
  | object (fields : List (Option String × Value))

/-- An array or object that is not finished; its parts so far, the last one first. -/
inductive Frame where
  | array (elements : List Value)
  | object (fields : List (Option String × Value)) (key : Option String)

/-- What the parser is ready for. -/
inductive Expectation where
  /-- A value. -/
  | value
  /-- The first element of an array, or its end. -/
  | firstElement
  /-- The first key of an object, or its end. -/
  | firstKey
  /-- A key. -/
  | key
  /-- The colon behind a key. -/
  | colon
  /-- What may follow a value inside an array or object. -/
  | separator
  /-- Nothing: the value is complete. -/
  | finish (result : Value)

/-- The state of the parser. -/
structure Parser where
  stack : List Frame
  expects : Expectation

namespace Parser

/-- Ready for the only value of a text. -/
def start : Parser := ⟨[], .value⟩

/-- A value is complete: it goes into the innermost unfinished array or object. -/
def complete (v : Value) : List Frame → Parser
  | [] => ⟨[], .finish v⟩
  | .array elements :: stack => ⟨.array (v :: elements) :: stack, .separator⟩
  | .object fields key :: stack => ⟨.object ((key, v) :: fields) none :: stack, .separator⟩

/-- The first token of a value. -/
def beginValue (stack : List Frame) : Token → Option Parser
  | .null => some (complete .null stack)
  | .bool b => some (complete (.bool b) stack)
  | .number n => some (complete (.number n) stack)
  | .string s => some (complete (.string s) stack)
  | .openBracket => some ⟨.array [] :: stack, .firstElement⟩
  | .openBrace => some ⟨.object [] none :: stack, .firstKey⟩
  | _ => none

/-- One token more. -/
def step (p : Parser) (t : Token) : Option Parser :=
  match p.expects, p.stack, t with
  | .value, stack, t => beginValue stack t
  | .firstElement, .array elements :: stack, .closeBracket =>
    some (complete (.array elements.reverse) stack)
  | .firstElement, stack, t => beginValue stack t
  | .firstKey, .object fields _ :: stack, .closeBrace =>
    some (complete (.object fields.reverse) stack)
  | .firstKey, .object fields _ :: stack, .string key => some ⟨.object fields key :: stack, .colon⟩
  | .key, .object fields _ :: stack, .string key => some ⟨.object fields key :: stack, .colon⟩
  | .colon, stack, .colon => some ⟨stack, .value⟩
  | .separator, .array elements :: stack, .closeBracket =>
    some (complete (.array elements.reverse) stack)
  | .separator, .array elements :: stack, .comma => some ⟨.array elements :: stack, .value⟩
  | .separator, .object fields _ :: stack, .closeBrace =>
    some (complete (.object fields.reverse) stack)
  | .separator, .object fields _ :: stack, .comma => some ⟨.object fields none :: stack, .key⟩
  | _, _, _ => none

end Parser

/-- The value that a text holds; `none` if the text is no JSON. -/
def Value.parse? (text : String) : Option Value := do
  let tokens ← tokens? text
  let last ← tokens.foldlM Parser.step Parser.start
  match last.expects with
  | .finish v => some v
  | _ => none

end Blockworld.JsonText
