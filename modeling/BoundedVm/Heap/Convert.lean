import BoundedVm.Heap.Containers

/-! # Conversions between kinds

`Heap.convert` turns a value into one of another kind, and `Heap.integerOf` gives the integer that a
value stands for. A value that already has the kind asked for is handed out as it is, by a further
handle; every other result is a new allocation or, from a struct to an array, a new container. -/

namespace BoundedVm

namespace Heap

/-- A new allocation of an integer. -/
def newInteger (i : Integer) (h : Heap) : Item × Heap :=
  let allocated := h.allocate
  (.integer allocated.1 i, allocated.2)

/-- A new allocation of a byte string. -/
def newBytes (content : List UInt8) (h : Heap) : Item × Heap :=
  let allocated := h.allocate
  (.bytes allocated.1 content, allocated.2)

/-- The integer that a value stands for, the same allocation if the value is an integer. -/
def integerOf (x : Item) (h : Heap) : Except ValueFault Item × Heap :=
  match x with
  | .integer allocation i => (.ok (.integer allocation i), h)
  | x =>
    match x.toInteger with
    | .ok i =>
      let made := h.newInteger i
      (.ok made.1, made.2)
    | .error e => (.error e, h)

/-- Turns a value into one of another kind. -/
def convert (x : Item) (target : Kind) (h : Heap) : Except ValueFault Item × Heap :=
  if x.kind = target then (.ok x, h.share 1 x)
  else
    match x, target with
    | .integer _ i, .boolean => (.ok (.boolean i.toBool), h)
    | .integer _ i, .byteString =>
      let made := h.newBytes i.bytes
      (.ok made.1, made.2)
    | .boolean b, .integer =>
      let made := h.newInteger (.ofBool b)
      (.ok made.1, made.2)
    | .boolean b, .byteString =>
      let made := h.newBytes [if b then 1 else 0]
      (.ok made.1, made.2)
    | .bytes _ content, .boolean => ((bytesToBool content).map .boolean, h)
    | .bytes _ content, .integer =>
      match Integer.ofBytes content with
      | .ok i =>
        let made := h.newInteger i
        (.ok made.1, made.2)
      | .error e => (.error e, h)
    | .pointer _ _, .boolean => (.ok (.boolean true), h)
    | .struct c, .array =>
      match h.toArray c with
      | (.ok a, h) => (.ok (.array a), h)
      | (.error e, h) => (.error e, h)
    | x, target => (.error (.noConversion x.kind target), h)

end Heap

end BoundedVm
