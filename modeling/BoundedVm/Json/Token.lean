/-! # Tokens of JSON text

The tokens are found by an automaton that takes one character at a time: `Lexing` is its state and
`Lexing.step` its transition. A number ends with the first character that cannot continue it, which is
then taken between tokens, so that one blank after the text closes the last token. -/

namespace BoundedVm

/-- A token of JSON text. -/
inductive JsonToken where
  | openObject
  | closeObject
  | openArray
  | closeArray
  | colon
  | comma
  | null
  | bool (b : Bool)
  | integer (value : Int)
  | fraction
  | text (content : Option String)

/-- A piece of a text: a character, or the number given by a `\u` escape. -/
inductive TextPiece where
  | char (c : Char)
  | unit (n : Nat)

namespace TextPiece

/-- Whether a unit is the first half of a surrogate pair. -/
def isHighSurrogate (n : Nat) : Bool := 0xD800 ≤ n && n < 0xDC00

/-- Whether a unit is the second half of a surrogate pair. -/
def isLowSurrogate (n : Nat) : Bool := 0xDC00 ≤ n && n < 0xE000

/-- The characters of a text, two halves of a surrogate pair in a row making one character; a half
that stands alone has none. -/
def join : List TextPiece → Option (List Char)
  | [] => some []
  | char c :: rest => (join rest).map (c :: ·)
  | unit high :: unit low :: rest =>
    if isHighSurrogate high && isLowSurrogate low then
      (join rest).map (Char.ofNat (0x10000 + (high - 0xD800) * 0x400 + (low - 0xDC00)) :: ·)
    else if isHighSurrogate high || isLowSurrogate high then none
    else (join (unit low :: rest)).map (Char.ofNat high :: ·)
  | unit n :: rest =>
    if isHighSurrogate n || isLowSurrogate n then none else (join rest).map (Char.ofNat n :: ·)

end TextPiece

/-- How far a number has been read. -/
inductive NumberPhase where
  | minus
  | zero
  | whole
  | point
  | decimals
  | mark
  | markSign
  | exponent

namespace NumberPhase

/-- The phase after one more character, if the number goes on with it. -/
def next? (phase : NumberPhase) (c : Char) : Option NumberPhase :=
  let isMark := c = 'e' || c = 'E'
  match phase with
  | minus => if c = '0' then some zero else if c.isDigit then some whole else none
  | zero => if c = '.' then some point else if isMark then some mark else none
  | whole =>
    if c.isDigit then some whole else if c = '.' then some point
    else if isMark then some mark else none
  | point => if c.isDigit then some decimals else none
  | decimals => if c.isDigit then some decimals else if isMark then some mark else none
  | mark => if c.isDigit then some exponent else if c = '+' || c = '-' then some markSign else none
  | markSign => if c.isDigit then some exponent else none
  | exponent => if c.isDigit then some exponent else none

/-- The token of a number that ends in this phase, given its sign and the value of its digits. -/
def token? (phase : NumberPhase) (negative : Bool) (value : Nat) : Option JsonToken :=
  match phase with
  | zero | whole =>
    -- zero with a sign is not an integer
    some (if negative then (if value = 0 then .fraction else .integer (-value)) else .integer value)
  | decimals | exponent => some .fraction
  | _ => none

end NumberPhase

/-- The state of the automaton: what the characters read so far have begun. -/
inductive Lexing where
  | between
  /-- Inside a literal name, of which these characters are still to come. -/
  | word (rest : List Char) (token : JsonToken)
  | number (negative : Bool) (value : Nat) (phase : NumberPhase)
  /-- Inside a text; its pieces are kept last first, here and below. -/
  | text (pieces : List TextPiece)
  | escape (pieces : List TextPiece)
  /-- Inside a `\u` escape, after the given number of digits. -/
  | code (digits value : Nat) (pieces : List TextPiece)

namespace Lexing

/-- The value of a hexadecimal digit of either case. -/
def hexDigit? (c : Char) : Option Nat :=
  if c.isDigit then some (c.toNat - 48)
  else if 'a' ≤ c ∧ c ≤ 'f' then some (c.toNat - 87)
  else if 'A' ≤ c ∧ c ≤ 'F' then some (c.toNat - 55)
  else none

/-- The character of a two-character escape. -/
def escaped? : Char → Option Char
  | '"' => some '"'
  | '\\' => some '\\'
  | '/' => some '/'
  | 'b' => some (Char.ofNat 8)
  | 'f' => some (Char.ofNat 12)
  | 'n' => some '\n'
  | 'r' => some '\r'
  | 't' => some '\t'
  | _ => none

/-- Takes a character between tokens. -/
def start (c : Char) (tokens : List JsonToken) : Option (Lexing × List JsonToken) :=
  match c with
  | ' ' | '\t' | '\n' | '\r' => some (between, tokens)
  | '\x7b' => some (between, .openObject :: tokens)
  | '\x7d' => some (between, .closeObject :: tokens)
  | '[' => some (between, .openArray :: tokens)
  | ']' => some (between, .closeArray :: tokens)
  | ':' => some (between, .colon :: tokens)
  | ',' => some (between, .comma :: tokens)
  | '"' => some (text [], tokens)
  | 'n' => some (word ['u', 'l', 'l'] .null, tokens)
  | 't' => some (word ['r', 'u', 'e'] (.bool true), tokens)
  | 'f' => some (word ['a', 'l', 's', 'e'] (.bool false), tokens)
  | '-' => some (number true 0 .minus, tokens)
  | '0' => some (number false 0 .zero, tokens)
  | c => if c.isDigit then some (number false (c.toNat - 48) .whole, tokens) else none

/-- Takes one character; the tokens found so far are kept last first. -/
def step (state : Lexing × List JsonToken) (c : Char) : Option (Lexing × List JsonToken) :=
  let (mode, tokens) := state
  match mode with
  | between => start c tokens
  | word rest token =>
    match rest with
    | [] => none
    | [d] => if c = d then some (between, token :: tokens) else none
    | d :: rest => if c = d then some (word rest token, tokens) else none
  | number negative value phase =>
    match phase.next? c with
    | some .whole => some (number negative (10 * value + (c.toNat - 48)) .whole, tokens)
    | some phase => some (number negative value phase, tokens)
    -- the number has ended, and the character is the first after it
    | none => (phase.token? negative value).bind fun token => start c (token :: tokens)
  | text pieces =>
    if c = '"' then
      some (between, .text ((TextPiece.join pieces.reverse).map String.ofList) :: tokens)
    else if c = '\\' then some (escape pieces, tokens)
    else if c.toNat < 0x20 then none
    else some (text (.char c :: pieces), tokens)
  | escape pieces =>
    if c = 'u' then some (code 0 0 pieces, tokens)
    else (escaped? c).map fun d => (text (.char d :: pieces), tokens)
  | code digits value pieces =>
    (hexDigit? c).map fun d =>
      let value := 16 * value + d
      if digits = 3 then (text (.unit value :: pieces), tokens)
      else (code (digits + 1) value pieces, tokens)

end Lexing

/-- The tokens of a text, or `none` when it is not made of tokens. -/
def JsonToken.ofText? (chars : List Char) : Option (List JsonToken) :=
  match (chars ++ [' ']).foldlM Lexing.step (.between, []) with
  | some (.between, tokens) => some tokens.reverse
  | _ => none

end BoundedVm
