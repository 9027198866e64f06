import BoundedVm.Bytes.Hex
import BoundedVm.Heap.Basic

/-! # Views of values

What a value shows of itself: `View` is the value alone, with the length of a container, and `Outline`
is the graph below it to a given depth. Containers are numbered in the order in which they are met,
depth first, and one that is met again is named by its number. `Heap.describe` is the one-line text of
a value; it does not look into containers, since the graph may be cyclic. -/

namespace BoundedVm

/-- What a value shows of itself. -/
inductive View where
  | null
  | boolean (b : Bool)
  | integer (value : Int)
  | bytes (content : List UInt8)
  | pointer (script position : Nat)
  | array (length : Nat)
  | struct (length : Nat)

/-- The graph below a value. -/
inductive Outline where
  | leaf (view : View)
  /-- A container that was met before. -/
  | seen (number : Nat)
  /-- A container met for the first time, with what it holds unless the depth is used up. -/
  | node (number : Nat) (view : View) (children : Option (List Outline))

namespace Heap

/-- What a value shows of itself. -/
def view (h : Heap) : Item → View
  | .null => .null
  | .boolean b => .boolean b
  | .integer _ i => .integer i.value
  | .bytes _ content => .bytes content
  | .pointer script position => .pointer script position
  | .array c => .array (h.items c).size
  | .struct c => .struct (h.items c).size

/-- The graph below a value to a depth, given the containers met so far, and those met after it. -/
def outlineFrom (h : Heap) (depth : Nat) (x : Item) (met : List ContainerId) :
    Outline × List ContainerId :=
  match x.container? with
  | none => (.leaf (h.view x), met)
  | some c =>
    match met.idxOf? c with
    | some number => (.seen number, met)
    | none =>
      let number := met.length
      let met := met ++ [c]
      match depth with
      | 0 => (.node number (h.view x) none, met)
      | depth + 1 =>
        -- what is met below one item counts as met for the items after it
        let below := (h.items c).toList.foldl
          (fun (acc : List Outline × List ContainerId) y =>
            let one := outlineFrom h depth y acc.2
            (one.1 :: acc.1, one.2))
          ([], met)
        (.node number (h.view x) (some below.1.reverse), below.2)

/-- The graph below a value to a depth. -/
def outline (h : Heap) (depth : Nat) (x : Item) : Outline :=
  (h.outlineFrom depth x []).1

/-- The one-line text of a value. Scripts and containers have no name that a text could give. -/
def describe (h : Heap) : Item → String
  | .null => "Null"
  | .boolean b => "Boolean(" ++ toString b ++ ")"
  | .integer _ i => "Integer(Integer(" ++ i.text ++ "))"
  | .bytes _ content => "ByteString(ByteString(0x" ++ Hex.text content ++ "))"
  | .pointer _ position => "Pointer(Pointer(<addr>@" ++ toString position ++ "))"
  | .array c => "Array(Array(<addr>, len=" ++ toString (h.items c).size ++ "))"
  | .struct c => "Struct(Struct(<addr>, len=" ++ toString (h.items c).size ++ "))"

end Heap

/-- The one-line text of a script, with its first eight bytes. -/
def describeScript (code : List UInt8) : String :=
  "Script(<addr>, len=" ++ toString code.length ++ ", head=" ++ Hex.text (code.take 8) ++ ")"

namespace Tracker

/-- The one-line text of an account. -/
def describe (t : Tracker) : String :=
  "ResourceTracker \x7b live: " ++ toString t.live ++ ", peak: " ++ toString t.peak
    ++ ", limit: " ++ toString t.limit ++ " \x7d"

end Tracker

end BoundedVm
