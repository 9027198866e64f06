import BoundedVm.Json.Token
import BoundedVm.Json.Value

/-! # Parsing JSON text

A pushdown automaton over the tokens: `Frame` is an array or object begun but not ended, and
`Parsing.step` takes one token. The grammar is strict: no trailing commas, no comments, nothing but
blanks after the document. -/

namespace BoundedVm

namespace JsonValue

/-- An array or object that has been begun; what it holds so far is kept last first. -/
inductive Frame where
  | array (items : List JsonValue)
  | object (fields : List (Option String × JsonValue))
  /-- An object whose next value belongs to the key. -/
  | field (fields : List (Option String × JsonValue)) (key : Option String)

/-- What may come next. -/
inductive Expecting where
  | value
  /-- A value, or the end of an empty array. -/
  | firstItem
  /-- A key, or the end of an empty object. -/
  | firstKey
  | key
  | colon (key : Option String)
  /-- A comma or the end of the innermost frame. -/
  | separator

/-- The state of the automaton. -/
inductive Parsing where
  | working (stack : List Frame) (expecting : Expecting)
  | finished (value : JsonValue)

namespace Parsing

/-- Puts a complete value into the innermost frame; without one it is the document. -/
def deliver (value : JsonValue) : List Frame → Option Parsing
  | [] => some (finished value)
  | .array items :: stack => some (working (.array (value :: items) :: stack) .separator)
  | .field fields key :: stack => some (working (.object ((key, value) :: fields) :: stack) .separator)
  | .object _ :: _ => none

/-- Takes the first token of a value. -/
def beginValue (stack : List Frame) : JsonToken → Option Parsing
  | .null => deliver .null stack
  | .bool b => deliver (.bool b) stack
  | .integer v => deliver (.integer v) stack
  | .fraction => deliver .fraction stack
  | .text content => deliver (.text content) stack
  | .openArray => some (working (.array [] :: stack) .firstItem)
  | .openObject => some (working (.object [] :: stack) .firstKey)
  | _ => none

/-- Ends the innermost frame. -/
def close (stack : List Frame) (token : JsonToken) : Option Parsing :=
  match stack, token with
  | .array items :: stack, .closeArray => deliver (.array items.reverse) stack
  | .object fields :: stack, .closeObject => deliver (.object fields.reverse) stack
  | _, _ => none

/-- Takes one token. -/
def step (state : Parsing) (token : JsonToken) : Option Parsing :=
  match state with
  | finished _ => none
  | working stack expecting =>
    match expecting, token with
    | .value, token => beginValue stack token
    | .firstItem, .closeArray => close stack .closeArray
    | .firstItem, token => beginValue stack token
    | .firstKey, .closeObject => close stack .closeObject
    | .firstKey, .text content => some (working stack (.colon content))
    -- after a comma a key must follow, so that a trailing comma is refused
    | .key, .text content => some (working stack (.colon content))
    | .colon key, .colon =>
      match stack with
      | .object fields :: stack => some (working (.field fields key :: stack) .value)
      | _ => none
    | .separator, .comma =>
      match stack with
      | .array _ :: _ => some (working stack .value)
      | .object _ :: _ => some (working stack .key)
      | _ => none
    | .separator, token => close stack token
    | _, _ => none

end Parsing

/-- The document that a text holds. -/
def parse? (source : String) : Option JsonValue :=
  match (JsonToken.ofText? source.toList).bind (·.foldlM Parsing.step (.working [] .value)) with
  | some (.finished value) => some value
  | _ => none

end JsonValue

end BoundedVm
