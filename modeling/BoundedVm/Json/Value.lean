/-! # JSON values

A JSON document as a tree. Numbers keep only what the readers of this library ask for: the integer
that is written without point, exponent or negative zero, or the fact that the number is none of
these. A text with an unpaired surrogate escape has no value, but may still stand where the document
is not read. `JsonValue.record?` reads a record that may be written by name or by position. -/

namespace BoundedVm

/-- A JSON document. -/
inductive JsonValue where
  | null
  | bool (b : Bool)
  /-- A number written as an integer, other than `-0`. -/
  | integer (value : Int)
  /-- A number with a point or an exponent, or `-0`. -/
  | fraction
  /-- A text, or `none` when an escape names half of a surrogate pair alone. -/
  | text (content : Option String)
  | array (items : List JsonValue)
  | object (fields : List (Option String × JsonValue))

namespace JsonValue

/-- The integer in a half-open range that a number is written as. -/
def integerIn? (low high : Int) : JsonValue → Option Int
  | integer v => if low ≤ v ∧ v < high then some v else none
  | _ => none

/-- The content of a text. -/
def text? : JsonValue → Option String
  | text content => content
  | _ => none

/-- Whether every key is a text and, in a closed record, one of the names. -/
def keysAllowed (names : List String) (closed : Bool) (fields : List (Option String × JsonValue)) :
    Bool :=
  fields.all fun field => match field.1 with
    | none => false
    | some key => !closed || names.contains key

/-- Whether no name is given twice. -/
def namesUnique (names : List String) (fields : List (Option String × JsonValue)) : Bool :=
  names.all fun name => (fields.filter (·.1 == some name)).length ≤ 1

/-- The values of the named fields of a record, `none` for an absent one. A record is an object in
which no name is repeated, or an array of the values in the order of the names, of which some at the
end may be absent. A closed record has no other keys. -/
def record? (names : List String) (closed : Bool) : JsonValue → Option (List (Option JsonValue))
  | array items =>
    if items.length ≤ names.length then
      some (items.map some ++ List.replicate (names.length - items.length) none)
    else none
  | object fields =>
    if keysAllowed names closed fields && namesUnique names fields then
      some (names.map fun name => (fields.find? (·.1 == some name)).map (·.2))
    else none
  | _ => none

end JsonValue

end BoundedVm
